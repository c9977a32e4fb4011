import TerpCore.Wasm.Leaks
import TerpCore.Wasm.RoundTrip
import TerpCore.Wasm.Freshness
import TerpCore.Hashmerchant.Registry
import TerpCore.Hashmerchant.Sidecar
import TerpCore.Hashmerchant.Proposal
import TerpCore.SmartAccount.Replay
import TerpCore.Wasm.Snapshot
import TerpCore.Wasm.Loadable
import TerpCore.Wasm.Hosts
import TerpCore.Cutover.Blocks
import TerpCore.TokenFactory.Export
import TerpCore.GlobalFee.Chain
import TerpCore.Hashmerchant.Periods
import TerpCore.Hashmerchant.Keys
import TerpCore.Hashmerchant.Commitment
import TerpCore.Hashmerchant.Dispatch
import TerpCore.SmartAccount.RoundTrip
import TerpCore.Wasm.Expiry
import TerpCore.Wasm.Work
import TerpCore.Wasm.Allowlist
import TerpCore.Wasm.CrossRefs
import TerpCore.Wasm.Epochs
import TerpCore.Wasm.DepositQuery
import TerpCore.SmartAccount.Visits
import TerpCore.SmartAccount.Confirm
import TerpCore.SmartAccount.Usable
import TerpCore.TokenFactory.Blocked
import TerpCore.SmartAccount.Matching
import TerpCore.TokenFactory.Naming
import TerpCore.GlobalFee.Acceptance
import TerpCore.FeeShare.Control
import TerpCore.FeeShare.Share
import TerpCore.CwHooks.Genesis
import TerpCore.CwHooks.Dispatch
import TerpCore.Wasm.CodeCircuit
import TerpCore.V520.Rewards
import TerpCore.Wasm.TxCounter
import TerpCore.SmartAccount.Breaker
