import ExFat.Lib.Bytes
import ExFat.Lib.Chain
import ExFat.Lib.Forest
import ExFat.Lib.Program
import ExFat.Lib.Lockstep
import ExFat.Lib.Rounding
import ExFat.Lib.Strung
import ExFat.Lib.Table
import ExFat.Fs.Types
import ExFat.Fs.Cluster
import ExFat.Fs.Mount
import ExFat.Fs.Io
import ExFat.Fs.Time
import ExFat.Fs.Tree
import ExFat.Fs.Utf
import ExFat.Fs.Entry
import ExFat.Fs.Directory
import ExFat.Fs.Lookup
import ExFat.Fs.Node
import ExFat.Fs.MountVolume
import ExFat.Fs.Boot
import ExFat.Fs.Calls
import ExFat.Fs.Create
import ExFat.Fs.Links
import ExFat.Fs.References
import ExFat.Fs.Family
import ExFat.Fs.Tending
import ExFat.Fs.Rooted
import ExFat.Fs.Paths
import ExFat.Fs.Upkeep
import ExFat.Fs.Sizes
import ExFat.Fs.Timestamps
import ExFat.Alloc.Layout
import ExFat.Alloc.Bitmap
import ExFat.Alloc.Words
import ExFat.Alloc.UsedSectors
import ExFat.Alloc.Walk
import ExFat.Alloc.Resize
import ExFat.Alloc.Truncate
import ExFat.Alloc.Transfer
import ExFat.Amiga.DevIo
import ExFat.Amiga.FlatDev
import ExFat.Amiga.PartTable
import ExFat.Amiga.Partitions
import ExFat.Amiga.Places
import ExFat.Amiga.TableReads
import ExFat.Amiga.Faults
import ExFat.Amiga.Names
import ExFat.Fs.EntrySet
import ExFat.Fs.Transcode
import ExFat.Fs.Spelling
import ExFat.Fs.Characters
import ExFat.Fs.Label
import ExFat.Amiga.Charset
import ExFat.Amiga.SameVolume
import ExFat.Amiga.Handler
import ExFat.Amiga.Packets
import ExFat.Amiga.Ledger
import ExFat.Amiga.Service
import ExFat.Amiga.Lifetime
import ExFat.Amiga.Scans
import ExFat.Amiga.Positions
import ExFat.Amiga.Removal
import ExFat.Amiga.SetDate
import ExFat.Amiga.Small
import ExFat.Amiga.VolumeName
import ExFat.Amiga.Transfers
import ExFat.Mkfs.Mkfs
import ExFat.Mkfs.Geometry
import ExFat.Mkfs.Image
import ExFat.Mkfs.Sound
import ExFat.Mkfs.BootRegion
import ExFat.Mkfs.Mounting
import ExFat.Mkfs.Format
import ExFat.Session.WriteBack
import ExFat.Session.Special
import ExFat.Session.Unmount
import ExFat.Session.VolumeDirty
import ExFat.Session.BootSum
import ExFat.Session.Percent
import ExFat.Session.Resolve
import ExFat.Session.Listing
import ExFat.Session.Offsets
import ExFat.Session.SetRoundTrip
import ExFat.Session.Reread
import ExFat.Store.FileStore
import ExFat.Store.Space
import ExFat.Store.Interrupted
import ExFat.Store.Faults
import ExFat.Store.Pointer
import ExFat.Store.Directories
import ExFat.Store.Stale
import ExFat.Store.WrittenBack
import ExFat.Fuse.Calls
import ExFat.Fuse.Handles
import ExFat.Fuse.Requests
import ExFat.Tools.Fragments
import ExFat.Tools.Check
import ExFat.Session.Silence
import ExFat.Session.Within
import ExFat.Session.Quiet
import ExFat.Tools.Verdict
