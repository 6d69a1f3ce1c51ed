import ExFat.Fs.Create
import ExFat.Fs.MountVolume
import ExFat.Lib.Table

namespace ExFat

open Program

/-!
# `fuse/main.c`

The front end for FUSE.  FUSE calls one routine for each request, one request after the other (the
file system is started with `-s`), and hands the routines for an open file the `struct
fuse_file_info` that `open` or `create` has filled in.

* A path is looked up anew by every call that is given one, and the reference that the lookup takes
  is dropped at the end of the call.
* `open` and `create` keep theirs: it is what `fi->fh` stands for until `release`.
-/

/-- What FUSE calls an open file by: its `struct fuse_file_info`. -/
abbrev FileInfo := Nat

/-- What the mount options say about the owner and the permissions of files, and whether the front
end is built for version 3 of FUSE. -/
structure FuseOptions where
  uid : Nat
  gid : Nat
  dmask : Nat
  fmask : Nat
  fuse3 : Bool
  deriving DecidableEq, Repr

/-- The mounted volume, and `fi->fh` of each file that is open. -/
structure Fuse (δ : Type) where
  fs : Volume δ
  options : FuseOptions
  files : Table NodeId := .empty

/-- A routine of the front end. -/
abbrev FuseM (δ : Type) := EStateM Halt (Fuse δ)

/-- The codes that calls fail with: those of the library, and `-EPERM`. -/
inductive FuseErrno
  | eperm
  | errno (e : Errno)
  deriving DecidableEq, Repr

/-- `struct stat`, the fields `exfat_stat` sets. -/
structure Stat where
  mode : Nat
  nlink : Nat
  uid : Nat
  gid : Nat
  size : Nat
  blocks : Nat
  mtime : Int
  atime : Int
  ctime : Int
  deriving DecidableEq, Repr

/-- `struct statvfs`, the fields `fuse_exfat_statfs` sets. -/
structure Statvfs where
  bsize : Nat
  frsize : Nat
  blocks : Nat
  bavail : Nat
  bfree : Nat
  namemax : Nat
  files : Nat
  favail : Nat
  ffree : Nat
  deriving DecidableEq, Repr

/-- What a call returns, and what it has stored where it was told to. -/
structure FuseReply where
  rc : Except FuseErrno Nat := .ok 0
  stat : Option Stat := none
  statvfs : Option Statvfs := none
  entries : List (List UInt8 × Option Stat) := []
  fi : Option FileInfo := none
  data : List UInt8 := []

/-- A call that fails with a code of the library. -/
def FuseReply.fail (e : Errno) : FuseReply := { rc := .error (.errno e) }

/-- A call that returns what a routine of the library has returned. -/
def FuseReply.ofRc : Rc → FuseReply
  | .ok _ => {}
  | .error e => .fail e

/-! ### `exfat_stat` and `exfat_utimes` -/

/-- `0777 & ~mask`. -/
def permissions (mask : Nat) : Nat := 0x1ff ^^^ (0x1ff &&& mask)

/-- `S_IFDIR` and `S_IFREG`. -/
def modeDir : Nat := 0x4000
/-- `S_IFREG`. -/
def modeReg : Nat := 0x8000

/-- `exfat_stat`. -/
def exfatStat (options : FuseOptions) (sb : SuperBlock) (n : Node) : Stat where
  mode := if n.isDir then modeDir ||| permissions options.dmask else modeReg |||
    permissions options.fmask
  nlink := 1
  uid := options.uid
  gid := options.gid
  size := n.size
  blocks := roundUp n.size sb.clusterSize / 512
  mtime := n.mtime
  atime := n.atime
  -- ctime is set to mtime for the programs that rely on it
  ctime := n.mtime

/-- `exfat_utimes`. -/
def exfatUtimes {δ : Type} (i : NodeId) (atime mtime : Int) : TreeM δ PUnit :=
  updateNode i fun n => { n with atime := atime, mtime := mtime, isDirty := true }

variable {δ : Type} {α : Type}

/-- Run a routine of libexfat on the mounted volume. -/
def inVolume (m : TreeM δ α) : FuseM δ α :=
  Program.zoom Fuse.fs (fun s t => { s with fs := t }) m

/-- `get_node`; FUSE hands over files that are open. -/
def fuseNode (fi : FileInfo) : FuseM δ NodeId := do
  let s ← get
  match s.files.get? fi with
  | none => throw .fault
  | some node => pure node

/-- `set_node`. -/
def setNode (node : NodeId) : FuseM δ FileInfo := do
  let s ← get
  set { s with files := s.files.insert node }
  pure s.files.next

section Calls

variable [Device δ]

/-- Look a path up, and go on with what has been found. -/
def withPath (path : List UInt8) (f : NodeId → FuseM δ FuseReply) : FuseM δ FuseReply := do
  match ← inVolume (exfatLookup path) with
  | .error e => pure (.fail e)
  | .ok node => f node

/-! ### Calls that are given a path -/

/-- `fuse_exfat_getattr`. -/
def fuseExfatGetattr (path : List UInt8) : FuseM δ FuseReply :=
  withPath path fun node => do
    let n ← inVolume (getNode node)
    let s ← get
    inVolume (exfatPutNode node)
    pure { stat := some (exfatStat s.options s.fs.ef.sb n) }

/-- `fuse_exfat_truncate`. -/
def fuseExfatTruncate (path : List UInt8) (size : Nat) : FuseM δ FuseReply :=
  withPath path fun node => do
    match ← inVolume (onNode node (exfatTruncate size true)) with
    | .error e => do
      -- ignore return code
      let _ ← inVolume (exfatFlushNode node)
      inVolume (exfatPutNode node)
      pure (.fail e)
    | .ok _ => do
      let rc ← inVolume (exfatFlushNode node)
      inVolume (exfatPutNode node)
      pure (.ofRc rc)

/-- The loop of `fuse_exfat_readdir` over the children that are left. -/
def fillEntries (options : FuseOptions) : List NodeId → TreeM δ (List (List UInt8 × Option Stat))
  | [] => pure []
  | i :: is => do
    exfatGetNode i
    let n ← getNode i
    let name ← onVolume (exfatGetName n)
    let t ← get
    exfatPutNode i
    let rest ← fillEntries options is
    pure ((name, some (exfatStat options t.ef.sb n)) :: rest)

/-- `fuse_exfat_readdir`. -/
def fuseExfatReaddir (path : List UInt8) : FuseM δ FuseReply :=
  withPath path fun parent => do
    let p ← inVolume (getNode parent)
    if !p.isDir then do
      inVolume (exfatPutNode parent)
      inVolume (onVolume (exfatError "not a directory"))
      pure (.fail .enotdir)
    else do
      match ← inVolume (exfatOpendir parent) with
      | .error e => do
        inVolume (exfatPutNode parent)
        inVolume (onVolume (exfatError "failed to open directory"))
        pure { rc := .error (.errno e), entries := [([dot], none), ([dot, dot], none)] }
      | .ok _ => do
        let p ← inVolume (getNode parent)
        let s ← get
        let entries ← inVolume (fillEntries s.options p.child)
        -- `exfat_closedir`
        inVolume (exfatPutNode parent)
        inVolume (exfatPutNode parent)
        pure { entries := ([dot], none) :: ([dot, dot], none) :: entries }

/-- `fuse_exfat_open`; version 2 of FUSE calls `truncate` by itself. -/
def fuseExfatOpen (path : List UInt8) (trunc : Bool) : FuseM δ FuseReply :=
  withPath path fun node => do
    let s ← get
    -- with version 3 of FUSE the open itself may have to truncate
    if s.options.fuse3 && trunc then do
      match ← inVolume (onNode node (exfatTruncate 0 true)) with
      | .error e => do
        inVolume (exfatPutNode node)
        pure (.fail e)
      | .ok _ => do
        let fi ← setNode node
        pure { fi := some fi }
    else do
      let fi ← setNode node
      pure { fi := some fi }

/-- `fuse_exfat_create`. -/
def fuseExfatCreate (path : List UInt8) : FuseM δ FuseReply := do
  match ← inVolume (exfatMknod path) with
  | .error e => pure (.fail e)
  | .ok _ =>
    withPath path fun node => do
      let fi ← setNode node
      pure { fi := some fi }

/-- `fuse_exfat_unlink` and `fuse_exfat_rmdir`, which differ in the routine of the library. -/
def fuseExfatRemove (remove : NodeId → TreeM δ Rc) (path : List UInt8) : FuseM δ FuseReply :=
  withPath path fun node => do
    let rc ← inVolume (remove node)
    inVolume (exfatPutNode node)
    match rc with
    | .error e => pure (.fail e)
    | .ok _ => do
      let rc ← inVolume (exfatCleanupNode node)
      pure (.ofRc rc)

/-- `fuse_exfat_unlink`. -/
def fuseExfatUnlink (path : List UInt8) : FuseM δ FuseReply := fuseExfatRemove exfatUnlink path

/-- `fuse_exfat_rmdir`. -/
def fuseExfatRmdir (path : List UInt8) : FuseM δ FuseReply := fuseExfatRemove exfatRmdir path

/-- `fuse_exfat_mknod`. -/
def fuseExfatMknod (path : List UInt8) : FuseM δ FuseReply := do
  let rc ← inVolume (exfatMknod path)
  pure (.ofRc rc)

/-- `fuse_exfat_mkdir`. -/
def fuseExfatMkdir (path : List UInt8) : FuseM δ FuseReply := do
  let rc ← inVolume (exfatMkdir path)
  pure (.ofRc rc)

/-- `fuse_exfat_rename`. -/
def fuseExfatRename (oldPath newPath : List UInt8) : FuseM δ FuseReply := do
  let rc ← inVolume (exfatRename oldPath newPath)
  pure (.ofRc rc)

/-- `fuse_exfat_utimens`. -/
def fuseExfatUtimens (path : List UInt8) (atime mtime : Int) : FuseM δ FuseReply :=
  withPath path fun node => do
    inVolume (exfatUtimes node atime mtime)
    let rc ← inVolume (exfatFlushNode node)
    inVolume (exfatPutNode node)
    pure (.ofRc rc)

/-! ### Calls that are given an open file -/

/-- `fuse_exfat_release`; FUSE forgets the file then. -/
def fuseExfatRelease (fi : FileInfo) : FuseM δ FuseReply := do
  let node ← fuseNode fi
  let _ ← inVolume (exfatFlushNode node)
  inVolume (exfatPutNode node)
  modify fun s => { s with files := s.files.erase fi }
  pure {}

/-- `fuse_exfat_flush`. -/
def fuseExfatFlush (fi : FileInfo) : FuseM δ FuseReply := do
  let node ← fuseNode fi
  let rc ← inVolume (exfatFlushNode node)
  pure (.ofRc rc)

/-- `fuse_exfat_read`. -/
def fuseExfatRead (fi : FileInfo) (size : Nat) (offset : Int) : FuseM δ FuseReply := do
  let node ← fuseNode fi
  match ← inVolume (onNode node (exfatGenericPread size offset)) with
  | .error e => pure (.fail e)
  | .ok (n, data) => pure { rc := .ok n, data := data }

/-- `fuse_exfat_write`. -/
def fuseExfatWrite (fi : FileInfo) (data : List UInt8) (offset : Int) : FuseM δ FuseReply := do
  let node ← fuseNode fi
  match ← inVolume (onNode node (exfatGenericPwrite data offset)) with
  | .error e => pure (.fail e)
  | .ok n => pure { rc := .ok n }

/-! ### Calls about the whole volume -/

/-- `fuse_exfat_fsync`, for files and directories alike. -/
def fuseExfatFsync : FuseM δ FuseReply := do
  match ← inVolume exfatFlushNodes with
  | .error e => pure (.fail e)
  | .ok _ => do
    match ← inVolume (onVolume exfatFlush) with
    | .error e => pure (.fail e)
    | .ok _ => do
      if ← inVolume (onVolume exfatFsync) then pure {} else pure (.fail .eio)

omit [Device δ] in
/-- `fuse_exfat_chmod`: the bits of `VALID_MODE_MASK` may be set. -/
def fuseExfatChmod (mode : Nat) : FuseM δ FuseReply :=
  if mode ||| 0xc1ff ≠ 0xc1ff then pure { rc := .error .eperm } else pure {}

omit [Device δ] in
/-- `fuse_exfat_chown`. -/
def fuseExfatChown (uid gid : Nat) : FuseM δ FuseReply := do
  let s ← get
  if uid ≠ s.options.uid ∨ gid ≠ s.options.gid then pure { rc := .error .eperm } else pure {}

omit [Device δ] in
/-- `fuse_exfat_statfs`.  Some of the values are fake: an inode stands for a cluster. -/
def fuseExfatStatfs : FuseM δ FuseReply := do
  let s ← get
  let sb := s.fs.ef.sb
  let free := exfatCountFreeClusters s.fs.ef.cmap
  pure { statvfs := some {
    bsize := sb.clusterSize, frsize := sb.clusterSize, blocks := sb.sectorCount / 2 ^ sb.spcBits
    bavail := free, bfree := free, namemax := nameMax
    files := sb.clusterCount, favail := free / 2 ^ sb.spcBits, ffree := free } }

/-- `fuse_exfat_init`: a failure isn't a big deal. -/
def fuseExfatInit : FuseM δ PUnit := do
  let _ ← inVolume (onVolume exfatSoilSuperBlock)
  pure ⟨⟩

/-- `fuse_exfat_destroy`. -/
def fuseExfatDestroy : FuseM δ PUnit := inVolume exfatUnmount

/-! ### Requests -/

/-- What FUSE asks for, one request after the other. -/
inductive FuseCall
  | getattr (path : List UInt8)
  | truncate (path : List UInt8) (size : Nat)
  | readdir (path : List UInt8)
  | openFile (path : List UInt8) (trunc : Bool)
  | create (path : List UInt8)
  | release (fi : FileInfo)
  | flush (fi : FileInfo)
  | fsync
  | read (fi : FileInfo) (size : Nat) (offset : Int)
  | write (fi : FileInfo) (data : List UInt8) (offset : Int)
  | unlink (path : List UInt8)
  | rmdir (path : List UInt8)
  | mknod (path : List UInt8)
  | mkdir (path : List UInt8)
  | rename (oldPath newPath : List UInt8)
  | utimens (path : List UInt8) (atime mtime : Int)
  | chmod (path : List UInt8) (mode : Nat)
  | chown (path : List UInt8) (uid gid : Nat)
  | statfs (path : List UInt8)

/-- `fuse_exfat_ops`. -/
def FuseCall.run : FuseCall → FuseM δ FuseReply
  | .getattr path => fuseExfatGetattr path
  | .truncate path size => fuseExfatTruncate path size
  | .readdir path => fuseExfatReaddir path
  | .openFile path trunc => fuseExfatOpen path trunc
  | .create path => fuseExfatCreate path
  | .release fi => fuseExfatRelease fi
  | .flush fi => fuseExfatFlush fi
  | .fsync => fuseExfatFsync
  | .read fi size offset => fuseExfatRead fi size offset
  | .write fi data offset => fuseExfatWrite fi data offset
  | .unlink path => fuseExfatUnlink path
  | .rmdir path => fuseExfatRmdir path
  | .mknod path => fuseExfatMknod path
  | .mkdir path => fuseExfatMkdir path
  | .rename oldPath newPath => fuseExfatRename oldPath newPath
  | .utimens path atime mtime => fuseExfatUtimens path atime mtime
  | .chmod _ mode => fuseExfatChmod mode
  | .chown _ uid gid => fuseExfatChown uid gid
  | .statfs _ => fuseExfatStatfs

/-- The requests between `init` and `destroy`. -/
def runCalls : List FuseCall → FuseM δ (List FuseReply)
  | [] => pure []
  | call :: calls => do
    let reply ← call.run
    let replies ← runCalls calls
    pure (reply :: replies)

end Calls

end ExFat
