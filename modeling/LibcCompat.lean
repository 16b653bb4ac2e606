import LibcCompat.Emsup.ExactlyOnce
import LibcCompat.Emsup.Release
import LibcCompat.Lib.Recorded
import LibcCompat.Winsup.PathAt
import LibcCompat.Winsup.At
import LibcCompat.Winsup.Resolve
import LibcCompat.NonLinux.Sendfile
import LibcCompat.NonLinux.Copy
import LibcCompat.NonLinux.ShortTransfers
import LibcCompat.NonLinux.Failures
import LibcCompat.Winsup.Append
import LibcCompat.WinsupRs.Fd
import LibcCompat.WinsupRs.Ownership
import LibcCompat.Winsup.Windows
import LibcCompat.Winsup.Link
import LibcCompat.Winsup.Stat
import LibcCompat.Lib.Frame
import LibcCompat.Winsup.Tables
import LibcCompat.Winsup.NoLeak
import LibcCompat.Winsup.LstatReadlink
import LibcCompat.Emsup.ClientView
import LibcCompat.Lib.CString
import LibcCompat.Libbsd.Str
import LibcCompat.Winsup.Dirent
import LibcCompat.Winsup.DirPosition
import LibcCompat.Winsup.DirEntries
import LibcCompat.Lib.Segments
import LibcCompat.Winsup.Uio
import LibcCompat.Winsup.UioPrefix
import LibcCompat.Lib.Occurrence
import LibcCompat.Winsup.Str
import LibcCompat.WinsupRs.FdPath
import LibcCompat.Winsup.ReadlinkTarget
import LibcCompat.Lib.Blind
import LibcCompat.Winsup.PriorErrno
import LibcCompat.Winsup.Faccessat
import LibcCompat.Winsup.Errno
import LibcCompat.Winsup.DirfdErrors
import LibcCompat.Lib.Zoom
import LibcCompat.Winsup.Host
import LibcCompat.Winsup.Open
import LibcCompat.Winsup.DirStreams
import LibcCompat.Winsup.Executable
import LibcCompat.Winsup.Acl
import LibcCompat.NonLinux.Binding
import LibcCompat.Winsup.File
import LibcCompat.Winsup.FopenFails
import LibcCompat.Emsup.FlushErrors
import LibcCompat.Winsup.CacheBound
import LibcCompat.Winsup.Symlink
import LibcCompat.Winsup.CreateFile
import LibcCompat.Winsup.Mkdir
import LibcCompat.Winsup.CacheScan
import LibcCompat.Winsup.FmodeNormal
import LibcCompat.Winsup.WritevComplete
import LibcCompat.Lib.Cells
import LibcCompat.Winsup.FinalPath
import LibcCompat.Lib.Overlay
import LibcCompat.Emsup.Durable
import LibcCompat.Lib.Holdings
import LibcCompat.Winsup.Process
import LibcCompat.Winsup.DirReads
import LibcCompat.Winsup.Pipe
import LibcCompat.Winsup.OpenFlags
import LibcCompat.Winsup.Stable
import LibcCompat.Winsup.BinaryMode
import LibcCompat.Libbsd.Contract
import LibcCompat.Lib.Trace
import LibcCompat.Winsup.Descriptors
import LibcCompat.Winsup.ErrnoFresh
import LibcCompat.Winsup.Makedev
import LibcCompat.NonLinux.Calls
