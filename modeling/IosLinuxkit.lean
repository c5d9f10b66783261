import IosLinuxkit.Kernel.MemPtrFault
import IosLinuxkit.Kernel.ForkIsolation
import IosLinuxkit.Kernel.AnonAccounting
import IosLinuxkit.Asbestos.ChainGraph
import IosLinuxkit.Asbestos.DirtyPage
import IosLinuxkit.Asbestos.DirectLink
import IosLinuxkit.Kernel.FutexWake
import IosLinuxkit.Kernel.FutexRequeue
import IosLinuxkit.Kernel.SignalQueue
import IosLinuxkit.Kernel.SignalFrames
import IosLinuxkit.Kernel.WaitFor
import IosLinuxkit.Kernel.LockOrder
import IosLinuxkit.Asbestos.JitSlotSteps
import IosLinuxkit.Asbestos.Fusion
import IosLinuxkit.Fs.FakeFsRun
import IosLinuxkit.Fs.BindReadonly
import IosLinuxkit.Kernel.RefCountRun
import IosLinuxkit.Fs.InodeLifeRun
import IosLinuxkit.Sock.AbstractRun
import IosLinuxkit.Sock.ScmRun
import IosLinuxkit.Ipc.SemRun
import IosLinuxkit.Fs.MountRun
import IosLinuxkit.Fs.TtyLinesRun
import IosLinuxkit.Fs.FdTableRun
import IosLinuxkit.Kernel.DontNeedRun
import IosLinuxkit.Kernel.MremapTwin
import IosLinuxkit.Kernel.ExitStatusRun
import IosLinuxkit.Kernel.PgroupRun
import IosLinuxkit.Kernel.SetFlagsFail
import IosLinuxkit.Kernel.CredsRun
import IosLinuxkit.Fs.FlockWait
import IosLinuxkit.Asbestos.CryptoAgree
import IosLinuxkit.Kernel.UserString
import IosLinuxkit.Kernel.SigFrameTrip
import IosLinuxkit.Kernel.AtomicsRange
import IosLinuxkit.Asbestos.Indexed
import IosLinuxkit.Util.Fifo
import IosLinuxkit.Fs.Tmpfs
import IosLinuxkit.Kernel.Rlimit
import IosLinuxkit.Kernel.PosixTimerRun
import IosLinuxkit.Ipc.Mq
import IosLinuxkit.Ipc.MqOpen
import IosLinuxkit.Ipc.Msg
import IosLinuxkit.Kernel.Select
import IosLinuxkit.Kernel.WaitChildRun
import IosLinuxkit.Kernel.CloneUndo
import IosLinuxkit.Kernel.Eventfd
import IosLinuxkit.Kernel.Kill
import IosLinuxkit.Kernel.Interleave
import IosLinuxkit.Asbestos.AotLookup
import IosLinuxkit.Fs.TmpTreeRun
import IosLinuxkit.Kernel.ExecFail
import IosLinuxkit.Kernel.ProcessVm
import IosLinuxkit.Util.TimerThread
import IosLinuxkit.Sock.SocketFd
import IosLinuxkit.Kernel.Pidfd
import IosLinuxkit.Fs.FakeRebuild
import IosLinuxkit.Kernel.TimerSet
import IosLinuxkit.Kernel.PipeForward
import IosLinuxkit.Fs.ProcRoot
import IosLinuxkit.Fs.RelativePath
import IosLinuxkit.Fs.Pty
