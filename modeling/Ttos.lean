import Ttos.Io.TtyCells
import Ttos.Memory.VmmContract
import Ttos.Memory.KernelHalf
import Ttos.Memory.FreshDirectory
import Ttos.Device.Volume
import Ttos.Drivers.AtaExact
import Ttos.Io.FileSpec
import Ttos.Io.Stdin
import Ttos.System.ElfConfined
import Ttos.System.SpawnRun
import Ttos.Libc.MallocGrow
import Ttos.Memory.PmmContiguous
import Ttos.Memory.CloneSpace
import Ttos.Fs.Ramdisk
import Ttos.Fs.AtaVolume
import Ttos.Io.DirListing
import Ttos.Io.FileRun
import Ttos.Memory.KheapCalls
import Ttos.Memory.Placement
import Ttos.System.HeapGrowth
import Ttos.Util.CircularBufferBytes
import Ttos.Io.FileSeek
import Ttos.Io.TtySequences
import Ttos.Fs.PathWalk
import Ttos.Device.Partitions
import Ttos.Fs.Ext2Walk
import Ttos.Fs.Divisors
import Ttos.System.ArgumentStack
import Ttos.System.ElfImage
import Ttos.Drivers.InitrdModule
import Ttos.Util.Formatters
import Ttos.Shell.LineEditorSpec
import Ttos.Io.ModifierKeys
import Ttos.Io.WholeKeys
import Ttos.Io.Stdout
import Ttos.Io.LineInput
import Ttos.Shell.Tokenize
import Ttos.System.SpawnMarshal
import Ttos.Util.Numerals
import Ttos.Util.ListRuns
import Ttos.Util.TreeRuns
import Ttos.System.Kmessage
import Ttos.Arch.AcpiSpec
import Ttos.Io.Typing
import Ttos.Io.TtyPaper
import Ttos.Io.DescriptorRun
import Ttos.Shell.LineDisplay
import Ttos.Shell.Session
import Ttos.Userland.Cat
import Ttos.Userland.More
import Ttos.Memory.Isolation
import Ttos.Fs.DriveRun
