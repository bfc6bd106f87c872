import RethExt.Lib.Lts
import RethExt.Lib.Window
import RethExt.Lib.Lineage
import RethExt.Lib.FoldMap
import RethExt.Lib.Cover
import RethExt.Lib.Text
import RethExt.Lib.Broadcast
import RethExt.Lib.Pool
import RethExt.RexSim.Diff
import RethExt.RexSim.Fork
import RethExt.RexSim.Guard
import RethExt.RexSim.Pinning
import RethExt.RexSim.Refinement
import RethExt.RexSim.Branch
import RethExt.RexSim.Continuity
import RethExt.RexSim.Batching
import RethExt.RexSim.Conservation
import RethExt.RexSim.Quiescence
import RethExt.RexSim.Announce
import RethExt.RexSim.Footprint
import RethExt.RexSim.Latch
import RethExt.RexSim.Bytecode
import RethExt.RexSim.HintedFetch
import RethExt.RexSim.ChangedHistory
import RethExt.RexSim.Artifacts
import RethExt.ProviderExt.Discover
import RethExt.ProviderExt.Concurrent
import RethExt.ProviderExt.Sharing
import RethExt.ProviderExt.Alone
import RethExt.RexCons.Backoff
import RethExt.RexCons.Delivery
import RethExt.LiveUpdate.Following
import RethExt.LiveUpdate.Undisturbed
import RethExt.RexSim.Replays
