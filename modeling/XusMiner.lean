import XusMiner.DirectWork
import XusMiner.Stratum.Delivery
import XusMiner.Gui.SingleEngine
import XusMiner.BlockFlow.TipWatch
import XusMiner.BlockFlow.Convergence
import XusMiner.RandomX.Exclusive
import XusMiner.Gui.EventDelivery
import XusMiner.Engine.StaleWork
import XusMiner.Engine.Origins
import XusMiner.Engine.Counters
import XusMiner.Engine.Backpressure
import XusMiner.Engine.Cleanup
import XusMiner.Engine.Nonces
import XusMiner.Gui.Recovery
import XusMiner.BlockFlow.Attribution
import XusMiner.Gui.Launch
import XusMiner.Gui.MemoryPolicy
import XusMiner.Gui.Endpoints
import XusMiner.Gui.Redaction
import XusMiner.Engine.ShareTarget
import XusMiner.BlockFlow.Gaps
import XusMiner.BlockFlow.Reported
import XusMiner.Library.Chunks
import XusMiner.BlockFlow.Histogram
import XusMiner.BlockFlow.Packing
import XusMiner.Gui.Backlog
import XusMiner.Engine.Approval
import XusMiner.Gui.Health
import XusMiner.Gui.ActiveWork
import XusMiner.JsonPretty
import XusMiner.Gui.SavedSettings
import XusMiner.AccountId
import XusMiner.Diag.Timestamp
import XusMiner.Gui.AxisCeiling
import XusMiner.Gui.BlockWindow
import XusMiner.Rpc.Grammar
import XusMiner.Gui.ChildLines
import XusMiner.Engine.Rounds
import XusMiner.Gui.CrashReport
import XusMiner.Gui.SettingsWindows
import XusMiner.Gui.OutputProgress
