import Xremu.Fast.DataTranslation
import Xremu.Devices.DiskTransfer
import Xremu.Devices.DiskWrite
import Xremu.Devices.HostPath
import Xremu.Devices.LsicPending
import Xremu.Machine.Nesting
import Xremu.Cached.Interleaving
import Xremu.Cached.Linearizable
import Xremu.Interp.FetchedCode
import Xremu.Cached.Transparent
import Xremu.Cached.LoadLinked
import Xremu.Cached.ReadModifyWrite
import Xremu.Fast.LoadLinked
import Xremu.Fast.ClaimLaw
import Xremu.Interp.BlockWords
import Xremu.Fast.Build
import Xremu.Cached.Build
import Xremu.Interp.RunInvariant
import Xremu.Interp.CpuTime
import Xremu.Interp.Arith
import Xremu.Interp.Alignment
import Xremu.Interp.Dispatch
import Xremu.Interp.ZeroRegister
import Xremu.Interp.Termination
import Xremu.Devices.Keyboard
import Xremu.Devices.Mouse
import Xremu.Devices.Rtc
import Xremu.Devices.Serial
import Xremu.Devices.SerialReceive
import Xremu.Devices.TtyFilter
import Xremu.Devices.KinnowScreen
import Xremu.Devices.RamSizing
import Xremu.Devices.RamMap
import Xremu.Devices.PBoardMemory
import Xremu.Host.FastMutex
import Xremu.Host.ThreadRuns
import Xremu.Host.FrameEnds
import Xremu.Devices.TtyScreen
import Xremu.Devices.DksQueue
import Xremu.Devices.DksCommands
import Xremu.Devices.DksLatency
import Xremu.Devices.DksSeek
import Xremu.Cached.LockDiscipline
import Xremu.Cached.WriteOut
import Xremu.Cached.PageInvalidation
import Xremu.Cached.Resets
import Xremu.Cached.LookupHint
import Xremu.Interp.FetchFaults
import Xremu.Interp.DecodeBounds
import Xremu.Interp.PreciseFaults
import Xremu.Interp.Watch
import Xremu.Cached.HeldStores
import Xremu.Cached.WriteBuffer
import Xremu.Interp.MemoryRuns
import Xremu.Interp.WatchedRuns
import Xremu.Interp.TbFlush
import Xremu.Fast.TbFlush
import Xremu.Debugger.Format
import Xremu.Debugger.Translate
import Xremu.Debugger.Commands
import Xremu.Debugger.Tokenizer
import Xremu.Debugger.Safe
import Xremu.Debugger.LineBuffers
import Xremu.Fast.UserMemory
import Xremu.Devices.DiskStore
import Xremu.Devices.LsicService
