import Os0.Drivers.AtaAddress
import Os0.Drivers.Clock
import Os0.Drivers.Display
import Os0.Drivers.LineReads
import Os0.Fs.Ext2.BlockBytes
import Os0.Fs.Ext2.DirCorrupt
import Os0.Fs.Ext2.Directory
import Os0.Fs.Ext2.Search
import Os0.Fs.Ext2.SingleUse
import Os0.Fs.Links
import Os0.Fs.OpenFails
import Os0.Fs.PathBuffer
import Os0.Fs.PathSplit
import Os0.Fs.PipeFifo
import Os0.Heap.Run
import Os0.Libk.Itoa
import Os0.Libk.Sha256Digest
import Os0.Memory.Frames
import Os0.Memory.UserReach
import Os0.Process.Cloexec
import Os0.Process.Dup
import Os0.Process.ExecData
import Os0.Process.Itimer
import Os0.Process.KillStop
import Os0.Process.Limits
import Os0.Process.PipeFails
import Os0.Process.Script
import Os0.Process.SigInfoPage
import Os0.Process.SignalRuns
import Os0.Process.SlotReuse
import Os0.Process.SwitchLock
import Os0.Process.Targets
import Os0.Process.TaskQueue
import Os0.Process.VforkExec
import Os0.Process.Wait
