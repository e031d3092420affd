import Gristle.Allocate
import Gristle.Cursor
import Gristle.Directory
import Gristle.Embext
import Gristle.EmbextQuiet
import Gristle.EmbextTransfer
import Gristle.Inode
import Gristle.Direct
import Gristle.EmbextLookup
import Gristle.WriteBack
import Gristle.Reopen
import Gristle.ReadOnlyVolume
import Gristle.Layout
import Gristle.ReadErrors
import Gristle.Search
import Gristle.Resolve
import Gristle.LookupPath
import Gristle.Listing
import Gristle.FullVolume
import Gristle.Strict
import Gristle.Updates
import Gristle.Careful
import Gristle.Consistent
import Gristle.Element
import Gristle.Canonical
import Gristle.ListedName
import Gristle.Aliasing
import Gristle.Parent
import Gristle.OpenSlots
import Gristle.Rmdir
import Gristle.Seek
import Gristle.SeekEnd
import Gristle.Superblock
import Gristle.Buffered
import Gristle.FreeClusters
import Gristle.DamagedTable
import Gristle.ScanEnds
import Gristle.RootWalk
import Gristle.Lib.Calendar
import Gristle.Times
import Gristle.OpenExact
import Gristle.Uninitialised
import Gristle.Unlink
import Gristle.SeekExact
import Gristle.WriteEffect
import Gristle.Crossing
import Gristle.Partition
import Gristle.MountHint
import Gristle.History
import Gristle.Lib.Bracket
import Gristle.LockBalance
import Gristle.Backups
import Gristle.SequentialRead
import Gristle.ReadBounds
import Gristle.SeekPaths
import Gristle.BlockGroup
import Gristle.BitmapAllocate
import Gristle.FullFile
import Gristle.Md5
import Gristle.BlockPc
import Gristle.NameBounds
import Gristle.InodeTable
import Gristle.Arithmetic
import Gristle.Readdir
import Gristle.Ext2Listing
import Gristle.Ext2Walk
import Gristle.Ext2Ends
import Gristle.Ext2Inside
import Gristle.BlockDriver
import Gristle.SdReset
import Gristle.Session
