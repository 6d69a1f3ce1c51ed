import ExFat.Fs.Entry

namespace ExFat

open Bytes

/-!
# Reading a directory

`readdir` and `exfat_cache_directory`.  Reading the entries of a directory touches the volume and
the node of the directory only; the nodes it finds are attached when all have been read, since
nothing looks at them before.
-/

variable {δ : Type} [Device δ]

/-! ### The entries without a node -/

/-- The loop of `decompress_upcase`; `oi` is the next character to be assigned. -/
def decompressLoop : (source : List Nat) → (oi : Nat) → (output : Nat → Nat) → Nat → Nat
  | [], _, output => output
  | [ch], oi, output => if oi < upcaseChars then Function.update output oi ch else output
  | ch :: n :: source, oi, output =>
    if oi < upcaseChars then
      if ch = 0xffff then decompressLoop source (oi + n) output
      else decompressLoop (n :: source) (oi + 1) (Function.update output oi ch)
    else output

/-- `decompress_upcase`. -/
def decompressUpcase (source : List Nat) : Nat → Nat := decompressLoop source 0 id

/-- The case of `readdir` for the upcase table. -/
def readUpcase (entry : Entry) : EfM δ Rc := do
  let ef ← get
  -- the first table that is found is taken
  if ef.upcase.isSome then pure (.ok ())
  else if ef.sb.clusterInvalid entry.startCluster then do
    exfatError "invalid cluster in upcase table"
    pure (.error .eio)
  -- the size has to be even, not zero and no larger than that of a full table
  else if entry.size = 0 ∨ entry.size > upcaseChars * 2 ∨ entry.size % 2 ≠ 0 then do
    exfatError "bad upcase table size"
    pure (.error .eio)
  else if !(← mallocOk) then do
    exfatError "failed to allocate upcase table"
    pure (.error .enomem)
  else do
    let offset ← exfatC2o entry.startCluster
    match ← exfatPread entry.size offset with
    | none => do
      exfatError "failed to read upper case table"
      pure (.error .eio)
    | some bytes =>
      if !(← mallocOk) then do
        exfatError "failed to allocate decompressed upcase table"
        pure (.error .enomem)
      else do
        modify fun ef => { ef with
          upcase := some (decompressUpcase
            ((List.range (entry.size / 2)).map fun i => leAt bytes (2 * i) 2)) }
        pure (.ok ())

/-- Bit `i` of a bitmap stored in bytes. -/
def bitOf (bytes : List UInt8) (i : Nat) : Bool := (bytes.getD (i / 8) 0).toNat.testBit (i % 8)

/-- The case of `readdir` for the allocation bitmap. -/
def readBitmap (entry : Entry) : EfM δ Rc := do
  -- the fields are set one by one, also when the entry is refused later
  modify fun ef => { ef with cmap := { ef.cmap with startCluster := entry.startCluster } }
  let ef ← get
  if ef.sb.clusterInvalid entry.startCluster then do
    exfatError "invalid cluster in clusters bitmap"
    pure (.error .eio)
  else do
    modify fun ef => { ef with cmap := { ef.cmap with size := ef.sb.clusterCount } }
    if entry.size < divRoundUp ef.sb.clusterCount 8 then do
      exfatError "invalid clusters bitmap size"
      pure (.error .eio)
    else do
      -- the whole bitmap is one chunk
      modify fun ef => { ef with cmap := { ef.cmap with chunkSize := ef.sb.clusterCount } }
      if !(← mallocOk) then do
        modify fun ef => { ef with cmap := { ef.cmap with present := false } }
        exfatError "failed to allocate clusters bitmap chunk"
        pure (.error .enomem)
      else do
        modify fun ef => { ef with cmap := { ef.cmap with present := true } }
        let offset ← exfatC2o entry.startCluster
        match ← exfatPread (bmapSize ef.wordBits ef.sb.clusterCount) offset with
        | none => do
          exfatError "failed to read clusters bitmap"
          pure (.error .eio)
        | some bytes => do
          modify fun ef => { ef with cmap := { ef.cmap with chunk := bitOf bytes } }
          pure (.ok ())

/-- The case of `readdir` for the label. -/
def readLabel (entry : Entry) : EfM δ Rc :=
  if leAt entry 1 1 > enameMax then do
    exfatError "too long label"
    pure (.error .eio)
  else
    match exfatUtf16ToUtf8 entry.units utf8EnameBufferMax with
    | .error _ => do
      -- what has been converted stands over the beginning of the old label
      let stored := utf16ToUtf8Stored entry.units.length entry.units utf8EnameBufferMax
      modify fun ef => { ef with label := stored ++ ef.label.drop stored.length }
      pure (.error .eio)
    | .ok label => do
      modify fun ef => { ef with label := label }
      pure (.ok ())

/-- `exfat_fix_unknown_entry`. -/
def exfatFixUnknownEntry (entry : Entry) (offset : Int) : FileM δ Bool := do
  match ← exfatGenericPwrite entry.invalidate offset with
  | .error _ => pure false
  | .ok size =>
    if size ≠ entrySize then pure false
    else do
      onEf exfatErrorsFixedBump
      pure true

/-- The last case of `readdir`: a deleted entry, or one that is not known. -/
def readUnknown (entry : Entry) (offset : Int) : FileM δ Rc := do
  if entry.type &&& entryValid = 0 then pure (.ok ())
  else do
    onEf (exfatError "unknown entry type")
    if ← onEf exfatAskToFix then
      if ← exfatFixUnknownEntry entry offset then pure (.ok ()) else pure (.error .eio)
    else pure (.error .eio)

/-! ### The entries of a file -/

/-- `parse_file_entry`: the node made of the `n` entries at `offset`. -/
def parseFileEntry (offset : Nat) (n : Nat) : FileM δ (Except Errno Node) := do
  match ← readEntries n offset with
  | .error e => pure (.error e)
  | .ok entries =>
    if !(← onEf allocateNode) then pure (.error .enomem)
    else do
      let r ← onEf (withNode { entryOffset := offset } (parseFileEntries entries))
      match r.1 with
      | .error e => pure (.error e)
      | .ok _ => pure (.ok r.2)

/-- An entry that has no node: `readdir` skips it. -/
def skipEntry (entry : Entry) (offset : Int) : FileM δ Rc :=
  if entry.type = entryUpcase then onEf (readUpcase entry)
  else if entry.type = entryBitmap then onEf (readBitmap entry)
  else if entry.type = entryLabel then onEf (readLabel entry)
  else readUnknown entry offset

/-- `readdir`: the next node from `offset` on and the offset behind it. -/
def readdirLoop : (fuel offset : Nat) → FileM δ (Except Errno (Node × Nat))
  | 0, _ => throw .fuel
  | fuel + 1, offset => do
    match ← readEntries 1 offset with
    | .error e => pure (.error e)
    | .ok entries =>
      let entry := entries.getD 0 []
      if entry.type = entryFile then do
        match ← parseFileEntry offset (1 + entry.continuations) with
        | .error e => pure (.error e)
        | .ok node => pure (.ok (node, offset + entrySize * (1 + entry.continuations)))
      -- an entry that begins no object, such as the label or the bitmap
      else do
        match ← skipEntry entry offset with
        | .error e => pure (.error e)
        | .ok _ => readdirLoop fuel (offset + entrySize)

/-- The iterations a directory of `size` bytes allows. -/
def dirFuel (size : Nat) : Nat := size / entrySize + 2

/-- The loop of `exfat_cache_directory`: the nodes found and the code that ended it. -/
def cacheLoop : (fuel offset : Nat) → FileM δ (List Node × Errno)
  | 0, _ => throw .fuel
  | fuel + 1, offset => do
    let s ← get
    match ← readdirLoop (dirFuel s.node.size) offset with
    | .error e => pure ([], e)
    | .ok (node, next) => do
      let r ← cacheLoop fuel next
      pure (node :: r.1, r.2)

/-! ### The tree -/

/-- The pointer to a new child `i` of `dir`, in the child that was linked last or in `dir`. -/
def linkBehind (dir i : NodeId) : (current : Option NodeId) → TreeM δ PUnit
  | some c => updateNode c fun n => { n with next := some i }
  | none => updateNode dir fun n => { n with first := some i }

/-- Put new nodes into memory, as the children of `dir` in this order; their identifiers.  `current`
is the child that was linked last. -/
def newChildren (dir : NodeId) : (current : Option NodeId) → List Node → TreeM δ (List NodeId)
  | _, [] => pure []
  | current, n :: ns => do
    let t ← get
    set { t with
      heap := Function.update t.heap t.fresh (some { n with parent := some dir, prev := current })
      fresh := t.fresh + 1 }
    linkBehind dir t.fresh current
    let ids ← newChildren dir (some t.fresh) ns
    pure (t.fresh :: ids)

/-- `exfat_cache_directory`. -/
def exfatCacheDirectory (dir : NodeId) : TreeM δ Rc := do
  let n ← getNode dir
  if n.isCached then pure (.ok ())
  else do
    let r ← onNode dir (cacheLoop (dirFuel n.size) 0)
    if r.2 = .enoent then do
      let ids ← newChildren dir none r.1
      updateNode dir fun n => { n with
        child := if ids.isEmpty then n.child else ids
        isCached := true }
      pure (.ok ())
    else do
      -- rollback
      updateNode dir fun n => { n with first := none, child := [] }
      pure (.error r.2)

end ExFat
