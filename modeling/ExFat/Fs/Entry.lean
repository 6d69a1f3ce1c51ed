import ExFat.Fs.Io
import ExFat.Fs.Time
import ExFat.Fs.Tree
import ExFat.Fs.Utf

namespace ExFat

open Bytes

/-!
# Directory entries

The part of `node.c` that turns the entries of a directory into nodes and back.  An entry is its 32
bytes; the fields of `struct exfat_entry_meta1`, `struct exfat_entry_meta2` and the others are read
and set by their offsets.
-/

variable {δ : Type}

/-- `struct exfat_entry`. -/
abbrev Entry := List UInt8

namespace Entry

variable (e : Entry)

/-- `type`. -/
def type : Nat := leAt e 0 1

/-- The entry with the field of `k` bytes at `off` set to `v`. -/
def set (off k v : Nat) : Entry := patch e off (natLe k v)

/-- The entry with its type no longer marked valid. -/
def invalidate : Entry := set e 0 1 (e.type &&& 0x7f)

/-! `struct exfat_entry_meta1` -/

/-- `continuations`. -/
def continuations : Nat := leAt e 1 1
/-- `checksum`. -/
def checksum : Nat := leAt e 2 2
/-- `attrib`. -/
def attrib : Nat := leAt e 4 2
/-- `mtime`. -/
def mtime : Nat := leAt e 12 2
/-- `mdate`. -/
def mdate : Nat := leAt e 14 2
/-- `atime`. -/
def atime : Nat := leAt e 16 2
/-- `adate`. -/
def adate : Nat := leAt e 18 2
/-- `mtime_cs`. -/
def mtimeCs : Nat := leAt e 21 1
/-- `mtime_tzo`. -/
def mtimeTzo : Nat := leAt e 23 1
/-- `atime_tzo`. -/
def atimeTzo : Nat := leAt e 24 1

/-! `struct exfat_entry_meta2` -/

/-- `flags`. -/
def flags : Nat := leAt e 1 1
/-- `name_length`. -/
def nameLength : Nat := leAt e 3 1
/-- `valid_size`. -/
def validSize : Nat := leAt e 8 8
/-- `start_cluster`. -/
def startCluster : Nat := leAt e 20 4
/-- `size`. -/
def size : Nat := leAt e 24 8

/-- The units of `struct exfat_entry_name` and, at the same place, of `struct exfat_entry_label`. -/
def units : List Nat := (List.range enameMax).map fun i => leAt e (2 + 2 * i) 2

end Entry

/-- `n` entries out of a buffer. -/
def splitEntries (n : Nat) (buffer : List UInt8) : List Entry :=
  (List.range n).map fun i => (buffer.drop (entrySize * i)).take entrySize

section Transfers

variable [Device δ]

/-- `read_entries`, of the directory that is held. -/
def readEntries (n : Nat) (offset : Int) : FileM δ (Except Errno (List Entry)) := do
  let s ← get
  if !s.node.isDir then exfatBug "attempted to read entries from a file"
  else do
    match ← exfatGenericPread (entrySize * n) offset with
    | .error _ => pure (.error .eio)
    | .ok (size, buffer) =>
      if size = entrySize * n then pure (.ok (splitEntries n buffer))
      else if size = 0 then pure (.error .enoent)
      else do
        onEf (exfatError "read less than the entries")
        pure (.error .eio)

/-- `write_entries`. -/
def writeEntries (entries : List Entry) (offset : Int) : FileM δ Rc := do
  let s ← get
  if !s.node.isDir then exfatBug "attempted to write entries into a file"
  else do
    match ← exfatGenericPwrite entries.flatten offset with
    | .error _ => pure (.error .eio)
    | .ok size =>
      if size = entrySize * entries.length then pure (.ok ())
      else do
        onEf (exfatError "wrote less than the entries")
        pure (.error .eio)

end Transfers

/-! ### Checks -/

/-- `EXFAT_ENTRY_NONE`: no entry, before the first one of a set and behind the last. -/
def entryNone : Int := -1

/-- Whether an entry of type `current` may stand after one of type `previous`. -/
def validTransition (previous current : Int) : Bool :=
  if previous = entryNone then current == entryFile
  else if previous = entryFile then current == entryFileInfo
  else if previous = entryFileInfo then current == entryFileName
  else if previous = entryFileName then
    current == entryFileName || current == entryNone || current ≥ entryFileTail
  else if entryFileTail ≤ previous ∧ previous ≤ 0xff then
    current ≥ entryFileTail || current == entryNone
  else false

/-- The loop of `check_entries` over the types that are left. -/
def checkTransitions (previous : Int) : (types : List Nat) → Bool
  | [] => validTransition previous entryNone
  | current :: types => validTransition previous current && checkTransitions current types

/-- `check_entries`. -/
def checkEntries (entries : List Entry) : EfM δ Bool :=
  if checkTransitions entryNone (entries.map Entry.type) then pure true
  else do
    exfatError "unexpected entry type"
    pure false

/-- `exfat_get_name`: the name, or `exfat_bug` if it is no UTF-16. -/
def exfatGetName (node : Node) : EfM δ (List UInt8) :=
  match nameUtf8 node.name with
  | .ok name => pure name
  | .error _ => exfatBug "failed to convert name to UTF-8"

/-- `exfat_ask_to_fix`. -/
def exfatAskToFix : EfM δ Bool := do
  let ef ← get
  match ef.repair with
  | .no => pure false
  | .yes => pure true
  | .ask => do
    set { ef with ticks := ef.ticks + 1 }
    pure (ef.answers ef.ticks)

/-- `exfat_errors_fixed_bump`. -/
def exfatErrorsFixedBump : EfM δ PUnit :=
  modify fun ef => { ef with errorsFixed := ef.errorsFixed + 1 }

/-- One of the tests of `check_node`: if `bad` holds the node's name goes into a message. -/
def checkNodeRule (bad : Bool) (message : String) : FileM δ Bool := do
  let s ← get
  if bad then do
    let _ ← onEf (exfatGetName s.node)
    onEf (exfatError message)
    pure false
  else pure true

/-- The first test of `check_node`, the only one whose failure can be repaired. -/
def checkNodeChecksum (actual stored : Nat) : FileM δ Bool := do
  let s ← get
  if actual ≠ stored then do
    let _ ← onEf (exfatGetName s.node)
    onEf (exfatError "invalid checksum")
    if ← onEf exfatAskToFix then do
      -- the checksum will be rewritten by `exfat_flush_node`
      modifyNode fun n => { n with isDirty := true }
      onEf exfatErrorsFixedBump
      pure true
    else pure false
  else pure true

/-- `check_node`. -/
def checkNode (actual stored : Nat) : FileM δ Bool := do
  let s ← get
  let clusterSize := s.ef.sb.clusterSize
  -- all rules are checked, so that each that is broken has a message of its own
  let ok₁ ← checkNodeChecksum actual stored
  let n := s.node
  let ok₂ ← checkNodeRule (n.validSize > n.size) "valid size greater than size"
  let ok₃ ← checkNodeRule (n.size = 0 && n.startCluster ≠ clusterFree)
      "empty but has a start cluster"
  let ok₄ ← checkNodeRule (n.size > 0 && s.ef.sb.clusterInvalid n.startCluster)
    "points to invalid cluster"
  let ok₅ ← checkNodeRule (n.size > s.ef.sb.clusterCount * clusterSize) "larger than clusters heap"
  let ok₆ ← checkNodeRule (n.size = 0 && n.isContiguous) "empty but marked as contiguous"
  let ok₇ ← checkNodeRule (n.isDir && n.size % clusterSize ≠ 0) "directory size is not divisible"
  pure (ok₁ && ok₂ && ok₃ && ok₄ && ok₅ && ok₆ && ok₇)

/-! ### From entries to a node -/

/-- A timestamp of an entry, as `exfat_exfat2unix` returns it. -/
def readTime (date time centisec tzoffset : Nat) : EfM δ Int := do
  let ef ← get
  match exfat2unix ef.timezone date time centisec tzoffset with
  | some t => pure t
  | none => do
    exfatError "bad timestamp"
    pure 0

/-- `init_node_meta1`. -/
def initNodeMeta1 (meta1 : Entry) : FileM δ PUnit := do
  modifyNode fun n => { n with attrib := meta1.attrib, continuations := meta1.continuations }
  let mtime ← onEf (readTime meta1.mdate meta1.mtime meta1.mtimeCs meta1.mtimeTzo)
  modifyNode fun n => { n with mtime := mtime }
  -- there is no centiseconds field for atime
  let atime ← onEf (readTime meta1.adate meta1.atime 0 meta1.atimeTzo)
  modifyNode fun n => { n with atime := atime }

/-- `init_node_meta2`. -/
def initNodeMeta2 (meta2 : Entry) : FileM δ PUnit :=
  modifyNode fun n => { n with
    validSize := meta2.validSize
    size := meta2.size
    startCluster := meta2.startCluster
    fptrCluster := meta2.startCluster
    isContiguous := meta2.flags.testBit 1 }

/-- `init_node_name`, on a node whose name is empty. -/
def initNodeName (entries : List Entry) : FileM δ PUnit :=
  modifyNode fun n => { n with name := (entries.map Entry.units).flatten }

/-- The entries a set must have for the length of its name. -/
def mandatoryEntries (nameLength : Nat) : Nat := 2 + divRoundUp nameLength enameMax

/-- `parse_file_entries`, on the new node. -/
def parseFileEntries (entries : List Entry) : FileM δ Rc := do
  if !(← onEf (checkEntries entries)) then pure (.error .eio)
  else
    let meta1 := entries.getD 0 []
    let meta2 := entries.getD 1 []
    -- the name needs one entry at least
    if meta1.continuations < 2 then do
      onEf (exfatError "too few continuations")
      pure (.error .eio)
    else if meta2.flags &&& 0xfc ≠ 0 then do
      onEf (exfatError "unknown flags in meta2")
      pure (.error .eio)
    else if meta1.continuations < mandatoryEntries meta2.nameLength - 1 then do
      onEf (exfatError "too few continuations")
      pure (.error .eio)
    else do
      initNodeMeta1 meta1
      initNodeMeta2 meta2
      -- the entries behind the name are left out
      initNodeName ((entries.drop 2).take (mandatoryEntries meta2.nameLength - 2))
      if ← checkNode (exfatCalcChecksum entries) meta1.checksum then pure (.ok ())
      else pure (.error .eio)

/-- Run a routine on a node that no pointer leads to yet. -/
def withNode {α : Type} (node : Node) (m : FileM δ α) : EfM δ (α × Node) := fun ef =>
  match m ⟨ef, node⟩ with
  | .ok a s => .ok (a, s.node) s.ef
  | .error e s => .error e s.ef

/-- `allocate_node` succeeds. -/
def allocateNode : EfM δ Bool := do
  if ← mallocOk then pure true
  else do
    exfatError "failed to allocate node"
    pure false

end ExFat
