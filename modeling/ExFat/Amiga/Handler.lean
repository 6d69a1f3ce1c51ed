import ExFat.Amiga.Names
import ExFat.Amiga.SameVolume
import ExFat.Fs.Create
import ExFat.Fs.MountVolume
import ExFat.Lib.Table

namespace ExFat

open Bytes

/-!
# `handler.c`: the state of the handler

The handler serves one volume.  It keeps the locks and the open files it has given out, chains the
locks on the volume node, and remembers whether the volume is mounted and whether it is inhibited.
-/

/-! ### AmigaDOS -/

/-- What a BPTR to a lock refers to. -/
abbrev LockId := Nat

/-- What `fh_Arg1` of a file handle refers to. -/
abbrev FileId := Nat

/-- The secondary results the handler gives. -/
inductive DosError
  | noFreeStore | badNumber | objectInUse | objectExists | objectNotFound | actionNotKnown
  | invalidComponentName | invalidLock | objectWrongType | diskWriteProtected | directoryNotEmpty
  | seekError | diskFull | writeProtected | notADosDisk | noMoreEntries
  deriving DecidableEq, Repr

/-- `map_errno`. -/
def mapErrno : Errno → DosError
  | .enoent => .objectNotFound
  | .eexist => .objectExists
  | .enospc => .diskFull
  | .erofs => .diskWriteProtected
  | .eisdir => .objectWrongType
  | .enotdir => .objectWrongType
  | .enotempty => .directoryNotEmpty
  | .enametoolong => .invalidComponentName
  | .enomem => .noFreeStore
  | .eio => .seekError
  -- the default of the switch
  | .einval => .objectNotFound
  | .eilseq => .objectNotFound
  | .enodev => .objectNotFound

/-- `fl_Access`. -/
inductive Access
  | shared | exclusive
  deriving DecidableEq, Repr

/-- `struct DateStamp`. -/
structure DateStamp where
  days : Int
  minute : Int
  tick : Int
  deriving DecidableEq, Repr

/-- `exfat_amiga_time_to_datestamp`. -/
def exfatAmigaTimeToDatestamp (t : Int) : DateStamp :=
  let secs := max (int32 t) 0
  let days := secs.tdiv 86400
  let rest := secs - days * 86400
  if days - 2922 < 0 then ⟨0, 0, 0⟩ else ⟨days - 2922, rest.tdiv 60, rest.tmod 60 * 50⟩

/-- `exfat_amiga_datestamp_to_time`. -/
def exfatAmigaDatestampToTime (ds : DateStamp) : Int :=
  int32 ((max ds.days 0 + 2922) * 86400 + (ds.minute * 60 + ds.tick.tdiv 50))

/-- `fib_DirEntryType`. -/
inductive EntryType
  | root | userDir | file
  deriving DecidableEq, Repr

/-- The fields of `struct FileInfoBlock` the handler fills in. -/
structure FileInfoBlock where
  diskKey : Int
  dirEntryType : EntryType
  fileName : List UInt8
  protection : Nat
  size : Nat
  numBlocks : Int
  date : DateStamp
  deriving DecidableEq, Repr

/-- `id_DiskType`. -/
inductive DiskType
  | dosDisk | busy
  deriving DecidableEq, Repr

/-- The fields of `struct InfoData` that differ from zero; the unit number is left out. -/
structure InfoData where
  writeProtected : Bool := false
  numBlocks : Nat := 0
  numBlocksUsed : Nat := 0
  bytesPerBlock : Nat := 0
  diskType : DiskType
  volumeNode : Bool := false
  inUse : Bool := false
  deriving DecidableEq, Repr

/-- The answer to a packet: the two results, and what the handler has stored where the packet says.
-/
structure PacketReply where
  res1 : Int
  res2 : Option DosError := none
  fib : Option FileInfoBlock := none
  info : Option InfoData := none
  fhArg1 : Option FileId := none
  data : List UInt8 := []
  deriving DecidableEq, Repr

/-- `DOSTRUE`. -/
def dosTrue : Int := -1
/-- `DOSFALSE`. -/
def dosFalse : Int := 0

/-! ### The handler -/

/-- `struct ExfatLock`. -/
structure Lock where
  node : NodeId
  access : Access
  scanNext : Option NodeId := none
  scanIndex : Int := -1
  deriving DecidableEq, Repr

/-- `struct ExfatFile`. -/
structure ExfatFile where
  node : NodeId
  pos : Int := 0
  writable : Bool
  deriving DecidableEq, Repr

/-- The volume node: `dl_LockList` with the links in the locks, whether `dl_Task` is the port of the
handler, and `dl_Name`. -/
structure DeviceList where
  lockList : List LockId := []
  attached : Bool := true
  name : List UInt8
  deriving DecidableEq, Repr

/-- What the handler is told from outside: what `resolve_extent` and `exfat_open` find (a device,
and whether it can only be read), whether `AllocVec` gives memory, whether a volume node can be made
and listed, and whether `exfat_amiga_format` succeeds. -/
structure Outside (δ : Type) where
  medium : Nat → Option (δ × Bool)
  allocVec : Nat → Bool
  makeDosEntry : Nat → Bool
  format : Nat → Bool

/-- What a run does with the volume: it uses `h->ef` (mounted or not), or it calls `unmount_fs`
while so many locks and files are counted. -/
inductive Event
  | use (mounted : Bool)
  | unmount (nlocks nfiles : Nat)
  deriving DecidableEq, Repr

/-- `struct ExfatHandler`.  `fs` is `h->ef` with the nodes, `outside` and `ticks` are the answers
from outside and how many were taken, and `trace` records what has been done with the volume, the
latest first. -/
structure Handler (δ : Type) where
  fs : Volume δ
  volume : Option DeviceList := none
  mounted : Bool := false
  inhibited : Bool := false
  quit : Bool := false
  nlocks : Nat := 0
  nfiles : Nat := 0
  locks : Table Lock := .empty
  files : Table ExfatFile := .empty
  outside : Outside δ
  ticks : Nat := 0
  trace : List Event := []

/-- A routine of the handler. -/
abbrev HandlerM (δ : Type) := EStateM Halt (Handler δ)

variable {δ : Type} {α : Type}

/-- Record what is done with the volume. -/
def note (e : Event) : HandlerM δ PUnit := modify fun h => { h with trace := e :: h.trace }

/-- Run a routine of libexfat on `h->ef`. -/
def onFs (m : TreeM δ α) : HandlerM δ α :=
  Program.zoom Handler.fs (fun h t => { h with fs := t }) m

/-- Use the mounted volume. -/
def useFs (m : TreeM δ α) : HandlerM δ α := do
  let h ← get
  note (.use h.mounted)
  onFs m

/-- The next answer from outside. -/
def ask (f : Outside δ → Nat → α) : HandlerM δ α := do
  let h ← get
  set { h with ticks := h.ticks + 1 }
  pure (f h.outside h.ticks)

/-- A reply without a stored result. -/
def answer (res1 : Int) (res2 : Option DosError) : HandlerM δ PacketReply :=
  pure { res1 := res1, res2 := res2 }

/-- `ReplyPkt (pkt, DOSFALSE, error)`. -/
def refuse (e : DosError) : HandlerM δ PacketReply := answer dosFalse (some e)

/-! ### Locks -/

/-- `*lock`, for a lock a packet names. -/
def lockAt : Option LockId → HandlerM δ (Option Lock)
  | none => pure none
  | some l => do
    let h ← get
    match h.locks.get? l with
    -- a lock that is not known is memory that has been freed
    | none => throw .fault
    | some lock => pure (some lock)

/-- `*file`, for a file a packet names. -/
def fileAt : Option FileId → HandlerM δ (Option ExfatFile)
  | none => pure none
  | some f => do
    let h ← get
    match h.files.get? f with
    -- as for locks
    | none => throw .fault
    | some file => pure (some file)

/-- `exfat_amiga_makelock`; a lock that is made takes over the reference to the node. -/
def exfatAmigaMakelock (i : NodeId) (access : Access) : HandlerM δ (Option LockId) := do
  if !(← ask Outside.allocVec) then pure none
  else do
    let h ← get
    let lock := h.locks.next
    set { h with
      locks := h.locks.insert { node := i, access := access }
      volume := h.volume.map fun v : DeviceList => { v with lockList := lock :: v.lockList }
      nlocks := h.nlocks + 1 }
    pure (some lock)

/-- `exfat_amiga_freelock`. -/
def exfatAmigaFreelock (l : Option LockId) : HandlerM δ PUnit := do
  match l with
  | none => pure ⟨⟩
  | some l => do
    match ← lockAt (some l) with
    | none => pure ⟨⟩
    | some lock => do
      modify fun h => { h with
        volume := h.volume.map fun v : DeviceList => { v with lockList := v.lockList.erase l } }
      -- the reference of the lock goes, and with it the lock
      useFs (exfatPutNode lock.node)
      modify fun h => { h with locks := h.locks.erase l, nlocks := h.nlocks - 1 }

/-- The end of the packets that give out a lock: the reference on the node goes to the lock, or is
dropped. -/
def giveLock (i : NodeId) (access : Access) : HandlerM δ PacketReply := do
  match ← exfatAmigaMakelock i access with
  | none => do
    useFs (exfatPutNode i)
    refuse .noFreeStore
  | some lock => answer lock none

/-! ### Mounting -/

/-- The state `exfat_mount` starts from, on a device. -/
def blankVolume (t : Volume δ) (dev : δ) (ro : Bool) : Volume δ :=
  { ef := { t.ef with
      dev := dev, sb := ⟨[]⟩, upcase := none, cmap := {}, label := [], ro := ro, noatime := true
      repair := .no }
    heap := fun _ => none
    root := t.fresh
    fresh := t.fresh }

/-- `"Untitled"`. -/
def untitled : List UInt8 := [0x55, 0x6e, 0x74, 0x69, 0x74, 0x6c, 0x65, 0x64]

/-- `add_volume`. -/
def addVolume : HandlerM δ PUnit := do
  let h ← get
  note (.use h.mounted)
  let label := if h.fs.ef.label = [] then untitled else h.fs.ef.label
  if ← ask Outside.makeDosEntry then
    modify fun h => { h with volume := some { name := label.take 63 } }
  -- without memory the handler goes on without a volume node
  else pure ⟨⟩

/-- `remove_volume`. -/
def removeVolume : HandlerM δ PUnit := modify fun h => { h with volume := none }

section Device

variable [Device δ]

/-- `mount_fs`, after `resolve_extent`. -/
def mountFs : HandlerM δ Bool := do
  match ← ask Outside.medium with
  | none => pure false
  | some (dev, ro) => do
    -- nothing is left of the volume before
    modify fun h => { h with fs := blankVolume h.fs dev ro }
    match ← onFs exfatMount with
    | .error _ => pure false
    | .ok _ => do
      modify fun h => { h with mounted := true }
      -- the mark that cannot be written does not stop the mount
      let _ ← useFs (onVolume exfatSoilSuperBlock)
      pure true

/-- `unmount_fs`. -/
def unmountFs : HandlerM δ PUnit := do
  let h ← get
  -- what is still out is noted before the volume goes
  note (.unmount h.nlocks h.nfiles)
  if !h.mounted then pure ⟨⟩
  else do
    useFs exfatUnmount
    modify fun h => { h with mounted := false }

/-- The boot sector, if all of it can be read. -/
def readBootSector : EfM δ (Option SuperBlock) := do
  let ef ← get
  let r := Device.pread 512 0 ef.dev
  set { ef with dev := r.2 }
  match r.1 with
  | none => pure none
  -- a short read is none
  | some bytes => pure (if bytes.length = 512 then some ⟨bytes⟩ else none)

/-- `same_volume`. -/
def sameVolumeNow : HandlerM δ Bool := do
  let h ← get
  if !h.mounted then pure false
  else do
    match ← useFs (onVolume readBootSector) with
    | none => pure false
    | some sb => pure (sb.sameVolume h.fs.ef.sb)

/-- `set_volume_dirty`, `true` when it returns 0. -/
def setVolumeDirty (dirty : Bool) : EfM δ Bool := do
  let ef ← get
  if ef.ro then pure true
  else do
    let state := if dirty then ef.sb.volumeState ||| stateMounted else ef.sb.volumeState &&& 0xfffd
    -- the super block in memory is changed before the write
    set { ef with sb := ef.sb.setField 0x6a 2 state }
    let ef ← get
    match ← exfatPwrite ef.sb.bytes 0 with
    | none => pure false
    | some _ => exfatFsync

/-- Run `f` on one node after the other. -/
def forEach (f : NodeId → TreeM δ PUnit) : List NodeId → TreeM δ PUnit
  | [] => pure ⟨⟩
  | i :: is => do
    f i
    forEach f is

/-- `discard_dirty_nodes`. -/
def discardDirtyNodes : (fuel : Nat) → (i : NodeId) → TreeM δ PUnit
  | 0, _ => throw .fuel
  | fuel + 1, i => do
    updateNode i fun n => { n with isDirty := false }
    let n ← getNode i
    forEach (discardDirtyNodes fuel) n.child

/-- `discard_dirty_state`. -/
def discardDirtyState : HandlerM δ PUnit := do
  let h ← get
  if !h.mounted then pure ⟨⟩
  else useFs do
    let t ← get
    -- the nodes of the whole tree are marked clean
    discardDirtyNodes (t.fresh + 1) t.root
    onVolume (modify fun ef => { ef with cmap := { ef.cmap with dirty := false } })

/-- `release_mount`. -/
def releaseMount : HandlerM δ PUnit := do
  let h ← get
  if !h.mounted then pure ⟨⟩
  -- only the volume that was mounted may be written to
  else if ← sameVolumeNow then unmountFs
  else do
    discardDirtyState
    -- unmounting writes nothing to a volume that is read-only
    modify fun h => { h with fs := { h.fs with ef := { h.fs.ef with ro := true } } }
    unmountFs

/-- `release_if_idle`. -/
def releaseIfIdle : HandlerM δ PUnit := do
  let h ← get
  if h.inhibited ∧ h.mounted ∧ h.nlocks = 0 ∧ h.nfiles = 0 then do
    removeVolume
    releaseMount
  else pure ⟨⟩

end Device

end ExFat
