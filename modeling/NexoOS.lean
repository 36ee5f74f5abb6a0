import NexoOS.Net.TcpRetransmit
import NexoOS.Kernel.CollectorRun
import NexoOS.Fat.FailedRewrite
import NexoOS.Nexofs.Mounted
import NexoOS.Nexofs.WriteSpace
import NexoOS.Update.Confirmed
import NexoOS.Net.NetdIsolation
import NexoOS.Wm.Shell
import NexoOS.Wm.Clipboard
import NexoOS.Wm.Frames
import NexoOS.Wm.Capture
import NexoOS.Wm.Mappings
import NexoOS.Wm.Sampling
import NexoOS.Services.Stops
import NexoOS.Block.BlockdevProgress
import NexoOS.Block.Bounds
import NexoOS.Block.ChanDisk
import NexoOS.Kernel.Rights
import NexoOS.Kernel.ShmQuota
import NexoOS.Kernel.Jobs
import NexoOS.Kernel.ThreadLimit
import NexoOS.Kernel.Transfer
import NexoOS.Kernel.CpuQuota
import NexoOS.Kernel.WaitAny
import NexoOS.Kernel.IrqIsolation
import NexoOS.Kernel.IrqWait
import NexoOS.Kernel.RunQueuePlaces
import NexoOS.Kernel.Delivery
import NexoOS.Paging.PageMap
import NexoOS.Loader.ElfBounds
import NexoOS.Loader.WriteXorExecute
import NexoOS.Kernel.CollectorExact
import NexoOS.Net.NetdSockets
import NexoOS.Vfs.Inodes
import NexoOS.Tools.Grep
import NexoOS.Tools.Grid
