import ExFat.Lib.Program
import ExFat.Lib.Bytes
import ExFat.Lib.Rounding

namespace ExFat

open Bytes

/-!
# The data of libexfat

The constants and structures of `exfatfs.h` and `exfat.h`.  The superblock is kept as the 512 bytes
it is stored in, with one accessor per field, so that writing it back changes nothing the code does
not change.  Integers of a fixed width are natural numbers with the reduction written out
(`u32`, `u64`) wherever the source's arithmetic can wrap.  `DIV_ROUND_UP` and `ROUND_UP` are
`divRoundUp` and `roundUp`.

A node is held apart from the volume in this file: the routines of `cluster.c` and `io.c` work on
one node and on the volume, and nothing else (`FileState`).  The tree of nodes is in `Tree.lean`.
-/

/-! ### Constants and machine integers -/

/-- Reduction to `uint32_t`. -/
def u32 (n : Nat) : Nat := n % 2 ^ 32

/-- Reduction to `uint64_t`. -/
def u64 (n : Nat) : Nat := n % 2 ^ 64

/-- Subtraction of `uint32_t`. -/
def sub32 (a b : Nat) : Nat := (a + 2 ^ 32 - b) % 2 ^ 32

/-- Subtraction of `uint64_t`. -/
def sub64 (a b : Nat) : Nat := (a + 2 ^ 64 - b) % 2 ^ 64

/-- `EXFAT_NAME_MAX`. -/
def nameMax : Nat := 255
/-- `EXFAT_ENAME_MAX`. -/
def enameMax : Nat := 15
/-- `EXFAT_UTF8_NAME_BUFFER_MAX`. -/
def utf8NameBufferMax : Nat := nameMax * 3 + 1
/-- `EXFAT_UTF8_ENAME_BUFFER_MAX`. -/
def utf8EnameBufferMax : Nat := enameMax * 3 + 1

/-- `EXFAT_FIRST_DATA_CLUSTER`. -/
def firstDataCluster : Nat := 2
/-- `EXFAT_LAST_DATA_CLUSTER`. -/
def lastDataCluster : Nat := 0xfffffff6
/-- `EXFAT_CLUSTER_FREE`. -/
def clusterFree : Nat := 0
/-- `EXFAT_CLUSTER_BAD`. -/
def clusterBad : Nat := 0xfffffff7
/-- `EXFAT_CLUSTER_END`. -/
def clusterEnd : Nat := 0xffffffff

/-- `EXFAT_STATE_MOUNTED`. -/
def stateMounted : Nat := 2

/-- `EXFAT_ENTRY_VALID`. -/
def entryValid : Nat := 0x80
/-- `EXFAT_ENTRY_BITMAP`. -/
def entryBitmap : Nat := 0x81
/-- `EXFAT_ENTRY_UPCASE`. -/
def entryUpcase : Nat := 0x82
/-- `EXFAT_ENTRY_LABEL`. -/
def entryLabel : Nat := 0x83
/-- `EXFAT_ENTRY_FILE`. -/
def entryFile : Nat := 0x85
/-- `EXFAT_ENTRY_FILE_INFO`. -/
def entryFileInfo : Nat := 0xc0
/-- `EXFAT_ENTRY_FILE_NAME`. -/
def entryFileName : Nat := 0xc1
/-- `EXFAT_ENTRY_FILE_TAIL`. -/
def entryFileTail : Nat := 0xe0

/-- `sizeof(struct exfat_entry)`. -/
def entrySize : Nat := 32

/-- `EXFAT_ATTRIB_RO`. -/
def attribRo : Nat := 0x01
/-- `EXFAT_ATTRIB_DIR`. -/
def attribDir : Nat := 0x10
/-- `EXFAT_ATTRIB_ARCH`. -/
def attribArch : Nat := 0x20

/-- `EXFAT_FLAG_ALWAYS1`. -/
def flagAlways1 : Nat := 1
/-- `EXFAT_FLAG_CONTIGUOUS`. -/
def flagContiguous : Nat := 2

/-- `EXFAT_UPCASE_CHARS`. -/
def upcaseChars : Nat := 0x10000

/-- The `errno` codes the library returns, negated, from its routines. -/
inductive Errno
  | enoent | eio | enomem | eexist | enotdir | eisdir | einval | enospc | erofs
  | enametoolong | enotempty | eilseq | enodev
  deriving DecidableEq, Repr

/-- The return code of a routine: `0`, or a negated `errno`. -/
abbrev Rc := Except Errno Unit

instance : DecidableEq Rc
  | .ok (), .ok () => isTrue rfl
  | .ok (), .error _ => isFalse nofun
  | .error _, .ok () => isFalse nofun
  | .error e, .error e' => decidable_of_iff (e = e') (Except.error.injEq e e' ▸ Iff.rfl)

/-- How a run ends without returning: in `exfat_bug`, at a pointer that points nowhere, or by
going round a loop more often than the model allows. -/
inductive Halt
  | bug (message : String)
  | fault
  | fuel
  deriving DecidableEq, Repr

/-! ### The superblock -/

/-- `struct exfat_super_block`, as the bytes it is made of. -/
structure SuperBlock where
  bytes : List UInt8

namespace SuperBlock

variable (sb : SuperBlock)

/-- `oem_name`. -/
def oemName : List UInt8 := (sb.bytes.drop 0x03).take 8
/-- `sector_count`. -/
def sectorCount : Nat := leAt sb.bytes 0x48 8
/-- `fat_sector_start`. -/
def fatSectorStart : Nat := leAt sb.bytes 0x50 4
/-- `fat_sector_count`. -/
def fatSectorCount : Nat := leAt sb.bytes 0x54 4
/-- `cluster_sector_start`. -/
def clusterSectorStart : Nat := leAt sb.bytes 0x58 4
/-- `cluster_count`. -/
def clusterCount : Nat := leAt sb.bytes 0x5c 4
/-- `rootdir_cluster`. -/
def rootdirCluster : Nat := leAt sb.bytes 0x60 4
/-- `volume_serial`. -/
def volumeSerial : Nat := leAt sb.bytes 0x64 4
/-- `version.minor`. -/
def versionMinor : Nat := leAt sb.bytes 0x68 1
/-- `version.major`. -/
def versionMajor : Nat := leAt sb.bytes 0x69 1
/-- `volume_state`. -/
def volumeState : Nat := leAt sb.bytes 0x6a 2
/-- `sector_bits`. -/
def sectorBits : Nat := leAt sb.bytes 0x6c 1
/-- `spc_bits`. -/
def spcBits : Nat := leAt sb.bytes 0x6d 1
/-- `fat_count`. -/
def fatCount : Nat := leAt sb.bytes 0x6e 1
/-- `allocated_percent`. -/
def allocatedPercent : Nat := leAt sb.bytes 0x70 1

/-- `SECTOR_SIZE`. -/
def sectorSize : Nat := 2 ^ sb.sectorBits

/-- `CLUSTER_SIZE`. -/
def clusterSize : Nat := sb.sectorSize * 2 ^ sb.spcBits

/-- `CLUSTER_INVALID`. -/
def clusterInvalid (c : Nat) : Bool :=
  c < firstDataCluster || c - firstDataCluster ≥ sb.clusterCount

/-- The superblock with the field of `k` bytes at `off` set to `v`. -/
def setField (off k v : Nat) : SuperBlock := ⟨patch sb.bytes off (natLe k v)⟩

/-- The superblock with fields set one after the other, each given by its offset, its bytes and its
value. -/
def setFields (fields : List (Nat × Nat × Nat)) : SuperBlock :=
  fields.foldl (fun sb f => sb.setField f.1 f.2.1 f.2.2) sb

/-- Two fields that do not overlap. -/
def FieldsApart (f g : Nat × Nat) : Prop := f.1 + f.2 ≤ g.1 ∨ g.1 + g.2 ≤ f.1

instance (f g : Nat × Nat) : Decidable (FieldsApart f g) :=
  inferInstanceAs (Decidable (f.1 + f.2 ≤ g.1 ∨ g.1 + g.2 ≤ f.1))

/-- The places of the fields lie in the superblock and apart from each other. -/
def FieldsFit (places : List (Nat × Nat)) : Prop :=
  (∀ f ∈ places, f.1 + f.2 ≤ 512) ∧ places.Pairwise FieldsApart

instance (places : List (Nat × Nat)) : Decidable (FieldsFit places) :=
  inferInstanceAs (Decidable ((∀ f ∈ places, f.1 + f.2 ≤ 512) ∧ places.Pairwise FieldsApart))

/-- Setting a field leaves the length of the superblock. -/
theorem length_setField {off k : Nat} (v : Nat) (h : off + k ≤ sb.bytes.length) :
    (sb.setField off k v).bytes.length = sb.bytes.length :=
  length_patch (by simpa using h)

/-- A field that has been set is read back. -/
theorem leAt_setField_self {off k : Nat} (v : Nat) (h : off + k ≤ sb.bytes.length) :
    leAt (sb.setField off k v).bytes off k = v % 256 ^ k := leAt_patch_self h

/-- Setting a field leaves the other fields alone. -/
theorem leAt_setField_of_disjoint {off k off' n : Nat} (v : Nat) (h : off + k ≤ sb.bytes.length)
    (hd : off + k ≤ off' ∨ off' + n ≤ off) :
    leAt (sb.setField off k v).bytes off' n = leAt sb.bytes off' n :=
  leAt_patch_of_disjoint (by simpa using h) (by simpa using hd)

variable {sb}

/-- Setting fields leaves the length of the superblock. -/
theorem length_setFields {fields : List (Nat × Nat × Nat)} (hlen : sb.bytes.length = 512)
    (h : ∀ f ∈ fields, f.1 + f.2.1 ≤ 512) : (sb.setFields fields).bytes.length = 512 := by
  induction fields generalizing sb with
  | nil => exact hlen
  | cons f fields ih =>
    have hf := h f (by simp)
    apply ih
    · rw [length_setField _ _ (by omega), hlen]
    · exact fun g hg => h g (List.mem_cons_of_mem _ hg)

/-- Setting fields leaves the other fields alone. -/
theorem leAt_setFields_of_disjoint {fields : List (Nat × Nat × Nat)} {off n : Nat}
    (hlen : sb.bytes.length = 512) (h : ∀ f ∈ fields, f.1 + f.2.1 ≤ 512)
    (hd : ∀ f ∈ fields, f.1 + f.2.1 ≤ off ∨ off + n ≤ f.1) :
    leAt (sb.setFields fields).bytes off n = leAt sb.bytes off n := by
  induction fields generalizing sb with
  | nil => rfl
  | cons f fields ih =>
    have hf := h f (by simp)
    have hlen' : (sb.setField f.1 f.2.1 f.2.2).bytes.length = 512 := by
      rw [length_setField _ _ (by omega), hlen]
    have hstep := ih hlen' (fun g hg => h g (List.mem_cons_of_mem _ hg))
      (fun g hg => hd g (List.mem_cons_of_mem _ hg))
    exact hstep.trans (leAt_setField_of_disjoint _ _ (by omega) (hd f (by simp)))

/-- Fields that lie apart all keep their values. -/
theorem leAt_setFields {fields : List (Nat × Nat × Nat)} {f : Nat × Nat × Nat}
    (hlen : sb.bytes.length = 512) (h : FieldsFit (fields.map fun f => (f.1, f.2.1)))
    (hf : f ∈ fields) : leAt (sb.setFields fields).bytes f.1 f.2.1 = f.2.2 % 256 ^ f.2.1 := by
  have hfit : ∀ g ∈ fields, g.1 + g.2.1 ≤ 512 :=
    fun g hg => h.1 (g.1, g.2.1) (List.mem_map_of_mem hg)
  induction fields generalizing sb with
  | nil => cases hf
  | cons g fields ih =>
    have hg := hfit g (by simp)
    have hlen' : (sb.setField g.1 g.2.1 g.2.2).bytes.length = 512 := by
      rw [length_setField _ _ (by omega), hlen]
    have hrest := List.pairwise_cons.mp h.2
    have hfit' : ∀ x ∈ fields, x.1 + x.2.1 ≤ 512 := fun x hx => hfit x (List.mem_cons_of_mem _ hx)
    rcases List.mem_cons.mp hf with rfl | hmem
    · refine (leAt_setFields_of_disjoint hlen' hfit' ?_).trans (leAt_setField_self _ _ (by omega))
      intro x hx
      exact (hrest.1 (x.1, x.2.1) (List.mem_map_of_mem hx)).symm
    · exact ih hlen' ⟨fun x hx => h.1 x (List.mem_cons_of_mem _ hx), hrest.2⟩ hmem hfit'

variable (sb)

/-- The number of clusters has 32 bits. -/
theorem clusterCount_lt : sb.clusterCount < 2 ^ 32 := leAt_lt sb.bytes 0x5c 4

/-- A cluster has bytes. -/
theorem clusterSize_pos : 0 < sb.clusterSize :=
  Nat.mul_pos (Nat.two_pow_pos _) (Nat.two_pow_pos _)

end SuperBlock

/-! ### Nodes -/

/-- What a `struct exfat_node *` refers to. -/
abbrev NodeId := Nat

/-- `struct exfat_node`.  `first` is the pointer `child` of the source; `child` is the list that
starts there and runs through the `next` pointers, and the loops over the children take their nodes
from it.  `name` holds the units of the array up to its last non-zero one or further, the rest being
zero. -/
structure Node where
  parent : Option NodeId := none
  child : List NodeId := []
  first : Option NodeId := none
  next : Option NodeId := none
  prev : Option NodeId := none
  references : Int := 0
  fptrIndex : Nat := 0
  fptrCluster : Nat := 0
  entryOffset : Nat := 0
  startCluster : Nat := 0
  attrib : Nat := 0
  continuations : Nat := 0
  isContiguous : Bool := false
  isCached : Bool := false
  isDirty : Bool := false
  isUnlinked : Bool := false
  validSize : Nat := 0
  size : Nat := 0
  mtime : Int := 0
  atime : Int := 0
  name : List Nat := []
  deriving DecidableEq, Repr, Inhabited

/-- The test `node->attrib & EXFAT_ATTRIB_DIR`. -/
def Node.isDir (n : Node) : Bool := n.attrib.testBit 4

/-! ### The volume -/

/-- The allocation bitmap, `ef->cmap`.  Bit `i` of `chunk` is the bit `BMAP_GET` reads; the byte it
is in is `i / 8` on either byte order.  `present` is `chunk != NULL`. -/
structure Cmap where
  startCluster : Nat := 0
  size : Nat := 0
  chunk : Nat → Bool := fun _ => false
  present : Bool := false
  chunkSize : Nat := 0
  dirty : Bool := false

/-- `ef->repair`. -/
inductive RepairMode
  | no | ask | yes
  deriving DecidableEq, Repr

/-- `struct exfat` without the pointer to the tree, on a device `δ`.

The last fields are what the routines take from outside: `time`, `malloc` and `answers` are the
successive results of `time(NULL)`, of the allocator and of the repair prompt, `ticks` counts how
many were taken, `errors` and `errorsFixed` are the two global counters, and `timezone` is
`exfat_timezone`.  `wordBits` is the width of `bitmap_t` in this build. -/
structure Ef (δ : Type) where
  dev : δ
  sb : SuperBlock
  upcase : Option (Nat → Nat) := none
  cmap : Cmap := {}
  label : List UInt8 := []
  ro : Bool := false
  noatime : Bool := false
  repair : RepairMode := .no
  wordBits : Nat := 64
  timezone : Int := 0
  time : Nat → Int := fun _ => 0
  malloc : Nat → Bool := fun _ => true
  answers : Nat → Bool := fun _ => false
  ticks : Nat := 0
  errors : Nat := 0
  errorsFixed : Nat := 0

/-- The `(ef, node)` pair most routines of `cluster.c` and `io.c` work on. -/
structure FileState (δ : Type) where
  ef : Ef δ
  node : Node

/-- A routine on the volume alone. -/
abbrev EfM (δ : Type) := EStateM Halt (Ef δ)

/-- A routine on the volume and one node. -/
abbrev FileM (δ : Type) := EStateM Halt (FileState δ)

variable {δ : Type} {α : Type}

/-- `exfat_bug`. -/
def exfatBug {σ : Type} (message : String) : EStateM Halt σ α := throw (.bug message)

/-- Run a routine of the volume while a node is held. -/
def onEf (m : EfM δ α) : FileM δ α :=
  Program.zoom FileState.ef (fun s ef => { s with ef := ef }) m

/-- Update the node that is held. -/
def modifyNode (f : Node → Node) : FileM δ PUnit := modify fun s => { s with node := f s.node }

/-- `exfat_error`: the message goes to the log, the counter counts it. -/
def exfatError (_message : String) : EfM δ PUnit :=
  modify fun ef => { ef with errors := ef.errors + 1 }

/-- `time(NULL)`. -/
def timeNow : EfM δ Int := do
  let ef ← get
  set { ef with ticks := ef.ticks + 1 }
  pure (ef.time ef.ticks)

/-- Whether a `malloc` or `calloc` gives memory. -/
def mallocOk : EfM δ Bool := do
  let ef ← get
  set { ef with ticks := ef.ticks + 1 }
  pure (ef.malloc ef.ticks)

/-! ### Devices -/

/-- The device layer: `exfat_pread`, `exfat_pwrite` and `exfat_fsync`.  A transfer that returns a
negative value is `none`; otherwise a read gives the bytes it has filled in and a write their
number. -/
class Device (δ : Type) where
  pread : (size offset : Nat) → δ → Option (List UInt8) × δ
  pwrite : (data : List UInt8) → (offset : Nat) → δ → Option Nat × δ
  fsync : δ → Bool × δ
  getSize : δ → Nat

section Transfers

variable [Device δ]

/-- `exfat_pread`.  Bytes of the buffer that a short transfer leaves alone stand as zeros. -/
def exfatPread (size offset : Nat) : EfM δ (Option (List UInt8)) := do
  let ef ← get
  let r := Device.pread size offset ef.dev
  set { ef with dev := r.2 }
  pure (r.1.map fun bytes => bytes ++ List.replicate (size - bytes.length) 0)

/-- `exfat_pwrite`. -/
def exfatPwrite (data : List UInt8) (offset : Nat) : EfM δ (Option Nat) := do
  let ef ← get
  let r := Device.pwrite data offset ef.dev
  set { ef with dev := r.2 }
  pure r.1

/-- `exfat_fsync`, `true` when it returns `0`. -/
def exfatFsync : EfM δ Bool := do
  let ef ← get
  let r := Device.fsync ef.dev
  set { ef with dev := r.2 }
  pure r.1

end Transfers

/-- A device that never fails: an array of bytes. -/
structure Flat where
  bytes : Store
  size : Nat

instance : Device Flat where
  pread size offset d := (some (readBytes d.bytes offset size), d)
  pwrite data offset d := (some data.length, { d with bytes := writeBytes d.bytes offset data })
  fsync d := (true, d)
  getSize d := d.size

/-! ### Running the elementary routines -/

open Program

@[simp] theorem run_onEf (m : EfM δ α) (s : FileState δ) :
    onEf m s = match m s.ef with
      | .ok a ef => .ok a { s with ef := ef }
      | .error e ef => .error e { s with ef := ef } := by
  unfold onEf zoom
  cases m s.ef <;> rfl

/-- A routine on the volume that returns leaves the node alone. -/
theorem run_onEf_ok {m : EfM δ α} {s : FileState δ} {a : α} {ef : Ef δ} (h : m s.ef = .ok a ef) :
    onEf m s = .ok a { s with ef := ef } := run_zoom_ok h

@[simp] theorem run_modifyNode (f : Node → Node) (s : FileState δ) :
    modifyNode f s = .ok ⟨⟩ { s with node := f s.node } := rfl

@[simp] theorem run_exfatBug {σ : Type} (message : String) (s : σ) :
    (exfatBug message : EStateM Halt σ α) s = .error (.bug message) s := rfl

@[simp] theorem run_exfatError (message : String) (ef : Ef δ) :
    exfatError message ef = .ok ⟨⟩ { ef with errors := ef.errors + 1 } := rfl

@[simp] theorem run_timeNow (ef : Ef δ) :
    timeNow ef = .ok (ef.time ef.ticks) { ef with ticks := ef.ticks + 1 } := rfl

@[simp] theorem run_mallocOk (ef : Ef δ) :
    mallocOk ef = .ok (ef.malloc ef.ticks) { ef with ticks := ef.ticks + 1 } := rfl

@[simp] theorem run_exfatPread (size offset : Nat) (ef : Ef Flat) :
    exfatPread size offset ef = .ok (some (readBytes ef.dev.bytes offset size)) ef := by
  show EStateM.Result.ok (some (readBytes ef.dev.bytes offset size ++ _)) ef = _
  rw [length_readBytes, Nat.sub_self, List.replicate_zero, List.append_nil]

@[simp] theorem run_exfatPwrite (data : List UInt8) (offset : Nat) (ef : Ef Flat) :
    exfatPwrite data offset ef = .ok (some data.length)
      { ef with dev := { ef.dev with bytes := writeBytes ef.dev.bytes offset data } } := rfl

end ExFat
