import ExFat.Fs.Node

namespace ExFat

open Bytes

/-!
# `node.c`: making and renaming entries

Finding room for a set of entries in a directory, `create` and its two callers, `exfat_rename`, and
the volume label.
-/

variable {δ : Type} [Device δ]

/-! ### Finding a slot -/

/-- `check_slot`. -/
def checkSlot (dir : NodeId) (offset n : Nat) : TreeM δ Rc := do
  let t ← get
  -- only the root directory has entries without a node
  if dir ≠ t.root then pure (.ok ())
  else do
    match ← onNode dir (readEntries n offset) with
    | .error e => pure (.error e)
    | .ok entries =>
      if entries.any fun e => e.type &&& entryValid ≠ 0 then pure (.error .einval)
      else pure (.ok ())

/-- The entries the nodes of a directory take: the bitmap `find_slot` builds. -/
def usedSlots (nodes : List Node) (i : Nat) : Bool :=
  nodes.any fun p =>
    p.entryOffset / entrySize ≤ i && i < p.entryOffset / entrySize + (1 + p.continuations)

/-- How the loop of `find_slot` ends: at a slot, or behind the last entry, before which `contiguous`
entries are free. -/
inductive SlotSearch
  | found (offset : Nat)
  | extend (contiguous start : Nat)

/-- The loop of `find_slot`: `contiguous` free entries from `start` on lie before entry `i`. -/
def slotLoop (dir : NodeId) (used : Nat → Bool) (total n : Nat) :
    (fuel i contiguous start : Nat) → TreeM δ (Except Errno SlotSearch)
  | 0, _, _, _ => throw .fuel
  | fuel + 1, i, contiguous, start =>
    if i ≥ total then pure (.ok (.extend contiguous start))
    else if used i then slotLoop dir used total n fuel (i + 1) 0 start
    else
      let start := if contiguous = 0 then i else start
      if contiguous + 1 = n then do
        -- suitable slot is found, check that it's not occupied
        match ← checkSlot dir (start * entrySize) n with
        | .error .einval =>
          -- slot at (i-n) is occupied, go back and check (i-n+1)
          slotLoop dir used total n fuel (i - contiguous + 1) 0 start
        | .error e => pure (.error e)
        | .ok _ => pure (.ok (.found (start * entrySize)))
      else slotLoop dir used total n fuel (i + 1) (contiguous + 1) start

/-- The iterations of the loop of `find_slot`: every entry is a first one at most once. -/
def slotFuel (total n : Nat) : Nat := (total + 1) * (n + 1)

/-- `find_slot`: the offset of room for `n` entries. -/
def findSlot (dir : NodeId) (n : Nat) : TreeM δ (Except Errno Nat) := do
  let d ← getNode dir
  if !d.isCached then exfatBug "directory is not cached"
  else if !(← onVolume mallocOk) then do
    onVolume (exfatError "failed to allocate directory bitmap")
    pure (.error .enomem)
  else do
    let nodes ← getNodes d.child
    let total := d.size / entrySize
    match ← slotLoop dir (usedSlots nodes) total n (slotFuel total n) 0 0 0 with
    | .error e => pure (.error e)
    | .ok (.found offset) => pure (.ok offset)
    | .ok (.extend contiguous start) => do
      -- no suitable slots found, extend the directory
      let t ← get
      match ← onNode dir (exfatTruncate
          (roundUp (d.size + entrySize * (n - contiguous)) t.ef.sb.clusterSize) true) with
      | .error e => pure (.error e)
      | .ok _ => pure (.ok (if contiguous = 0 then d.size else start * entrySize))

/-! ### Making an entry -/

/-- The entries that hold a name. -/
def nameEntries (name : List Nat) : Nat := divRoundUp (utf16Length name) enameMax

/-- `struct exfat_entry_name` with its fifteen units. -/
def nameEntry (units : List Nat) : Entry := [0xc1, 0] ++ units.flatMap (natLe 2)

/-- The entries for the name, from the array it is stored in. -/
def entriesOfName (name : List Nat) : List Entry :=
  (List.range (nameEntries name)).map fun i =>
    nameEntry (((nameUnits name).drop (i * enameMax)).take enameMax)

/-- The set of entries `commit_entry` writes. -/
def newEntries (upcase : Nat → Nat) (now : ExfatTime) (name : List Nat) (attrib : Nat) :
    List Entry :=
  let zero : Entry := List.replicate entrySize 0
  let meta1 := zero.setFields [(0, 1, entryFile), (1, 1, 1 + nameEntries name), (4, 2, attrib),
    (8, 2, now.time), (10, 2, now.date), (12, 2, now.time), (14, 2, now.date), (16, 2, now.time),
    (18, 2, now.date), (20, 1, now.centisec), (21, 1, now.centisec), (22, 1, now.tzoffset),
    (23, 1, now.tzoffset), (24, 1, now.tzoffset)]
  let meta2 := zero.setFields [(0, 1, entryFileInfo), (1, 1, flagAlways1), (3, 1, utf16Length name),
    (4, 2, exfatCalcNameHash upcase (name.take (utf16Length name))), (20, 4, clusterFree)]
  sealEntries (meta1 :: meta2 :: entriesOfName name)

/-- Put a new node into memory. -/
def newNode (n : Node) : TreeM δ NodeId := do
  let t ← get
  set { t with heap := Function.update t.heap t.fresh (some n), fresh := t.fresh + 1 }
  pure t.fresh

/-- `commit_entry`. -/
def commitEntry (dir : NodeId) (name : List Nat) (offset attrib : Nat) : TreeM δ Rc := do
  let now ← onVolume timeNow
  let t ← get
  match t.ef.upcase with
  -- the up-case table is needed for the hash of the name
  | none => throw .fault
  | some upcase => do
    let entries := newEntries upcase (unix2exfat t.ef.timezone now) name attrib
    match ← onNode dir (writeEntries entries offset) with
    | .error e => pure (.error e)
    | .ok _ =>
      -- the entries are written before memory is asked for
      if !(← onVolume allocateNode) then pure (.error .enomem)
      else do
        let r ← onVolume
            (withNode { entryOffset := offset, name := name.take (utf16Length name) } do
          initNodeMeta1 (entries.getD 0 [])
          initNodeMeta2 (entries.getD 1 []))
        let i ← newNode r.2
        treeAttach dir i
        pure (.ok ())

/-- `create`. -/
def create (path : List UInt8) (attrib : Nat) : TreeM δ Rc := do
  match ← exfatSplit path with
  | .error e => pure (.error e)
  -- the name is taken
  | .ok ⟨dir, some existing, _⟩ => do
    exfatPutNode existing
    exfatPutNode dir
    pure (.error .eexist)
  | .ok ⟨dir, none, name⟩ => do
    match ← findSlot dir (2 + nameEntries name) with
    | .error e => do
      exfatPutNode dir
      pure (.error e)
    | .ok offset => do
      match ← commitEntry dir name offset attrib with
      | .error e => do
        exfatPutNode dir
        pure (.error e)
      -- the directory has changed, so it gets a new time
      | .ok _ => do
        onNode dir exfatUpdateMtime
        let rc ← exfatFlushNode dir
        exfatPutNode dir
        pure rc

/-- `exfat_mknod`. -/
def exfatMknod (path : List UInt8) : TreeM δ Rc := create path attribArch

/-- What `exfat_mkdir` does when the new directory cannot get its cluster or its entry. -/
def undoMkdir (i : NodeId) (e : Errno) : TreeM δ Rc := do
  let _ ← delete i
  exfatPutNode i
  pure (.error e)

/-- `exfat_mkdir`. -/
def exfatMkdir (path : List UInt8) : TreeM δ Rc := do
  match ← create path attribDir with
  | .error e => pure (.error e)
  | .ok _ => do
    match ← exfatLookup path with
    | .error _ => pure (.ok ())
    | .ok i => do
      let t ← get
      -- directories always have at least one cluster
      match ← onNode i (exfatTruncate t.ef.sb.clusterSize true) with
      | .error e => undoMkdir i e
      | .ok _ => do
        match ← exfatFlushNode i with
        | .error e => undoMkdir i e
        | .ok _ => do
          exfatPutNode i
          pure (.ok ())

/-! ### Renaming -/

/-- The set of entries `rename_entry` writes, from the first two entries of the old set. -/
def renamedEntries (upcase : Nat → Nat) (name : List Nat) (meta1 meta2 : Entry) : List Entry :=
  sealEntries (meta1.set 1 1 (1 + nameEntries name) ::
    meta2.setFields [(3, 1, utf16Length name),
      (4, 2, exfatCalcNameHash upcase (name.take (utf16Length name)))] ::
    entriesOfName name)

/-- `rename_entry`. -/
def renameEntry (dir i : NodeId) (name : List Nat) (newOffset : Nat) : TreeM δ Rc := do
  let n ← getNode i
  match n.parent with
  | none => throw .fault
  | some p => do
    match ← onNode p (readEntries 2 n.entryOffset) with
    | .error e => pure (.error e)
    | .ok entries => do
      let t ← get
      match t.ef.upcase with
      | none => throw .fault
      | some upcase => do
        -- the old entries are erased before the new ones are written
        match ← eraseNode i with
        | .error e => pure (.error e)
        | .ok _ => do
          updateNode i fun n =>
            { n with entryOffset := newOffset, continuations := 1 + nameEntries name }
          match ← onNode dir (writeEntries
              (renamedEntries upcase name (entries.getD 0 []) (entries.getD 1 [])) newOffset) with
          | .error e => pure (.error e)
          -- the node has left its place already
          | .ok _ => do
            updateNode i fun n => { n with name := name }
            treeDetach i
            treeAttach dir i
            pure (.ok ())

/-- The loop of `exfat_rename` over the ancestors of the target: whether `i` is among them. -/
def isAncestor (i : NodeId) : (fuel : Nat) → (p : NodeId) → TreeM δ Bool
  | 0, _ => throw .fuel
  | fuel + 1, p =>
    if i = p then pure true
    else do
      let n ← getNode p
      match n.parent with
      | none => pure false
      | some q => isAncestor i fuel q

/-- `exfat_rename` takes the target out of its directory. -/
def unlinkTarget (i existing : NodeId) : TreeM δ Rc := do
  let n ← getNode i
  let e ← getNode existing
  if e.isDir then if n.isDir then exfatRmdir existing else pure (.error .enotdir)
  else if !n.isDir then exfatUnlink existing else pure (.error .eisdir)

/-- The part of `exfat_rename` that removes the target. -/
def removeTarget (i existing : NodeId) : TreeM δ Rc := do
  let rc ← unlinkTarget i existing
  exfatPutNode existing
  match rc with
  | .error e => do
    -- free clusters even if something went wrong; otherwise they will be just lost
    let _ ← exfatCleanupNode existing
    pure (.error e)
  | .ok _ => exfatCleanupNode existing

/-- Drop the two references `exfat_rename` holds. -/
def putBoth (dir i : NodeId) : TreeM δ PUnit := do
  exfatPutNode dir
  exfatPutNode i

/-- The last part of `exfat_rename`: the slot, the new entry and the flush of the directory. -/
def renameInto (dir i : NodeId) (name : List Nat) : TreeM δ Rc := do
  match ← findSlot dir (2 + nameEntries name) with
  | .error e => do
    putBoth dir i
    pure (.error e)
  | .ok offset => do
    match ← renameEntry dir i name offset with
    | .error e => do
      putBoth dir i
      pure (.error e)
    | .ok _ => do
      let rc ← exfatFlushNode dir
      putBoth dir i
      -- node itself is not marked as dirty, no need to flush it
      pure rc

/-- Whether the target of a rename lies in the directory that is renamed. -/
def targetBelow (dir i : NodeId) : TreeM δ Bool := do
  let n ← getNode i
  let t ← get
  if n.isDir then isAncestor i (t.fresh + 1) dir else pure false

/-- `exfat_rename`. -/
def exfatRename (oldPath newPath : List UInt8) : TreeM δ Rc := do
  match ← exfatLookup oldPath with
  | .error e => pure (.error e)
  | .ok i => do
    match ← exfatSplit newPath with
    | .error e => do
      exfatPutNode i
      pure (.error e)
    | .ok ⟨dir, existing, name⟩ => do
      if ← targetBelow dir i then do
        match existing with
        | none => pure ⟨⟩
        | some e => exfatPutNode e
        putBoth dir i
        pure (.error .einval)
      else
        match existing with
        | none => renameInto dir i name
        | some e =>
          if e = i then do
            exfatPutNode e
            renameInto dir i name
          else do
            -- remove target if it's not the same node as source
            match ← removeTarget i e with
            | .error e => do
              putBoth dir i
              pure (.error e)
            | .ok _ => renameInto dir i name

/-! ### The label -/

/-- The loop of `find_label`, in the root directory. -/
def findLabel : (fuel offset : Nat) → FileM δ (Except Errno Nat)
  | 0, _ => throw .fuel
  | fuel + 1, offset => do
    match ← readEntries 1 offset with
    | .error e => pure (.error e)
    | .ok entries =>
      if (entries.getD 0 []).type = entryLabel then pure (.ok offset)
      else findLabel fuel (offset + entrySize)

/-- The place `exfat_set_label` writes to. -/
def labelSlot : TreeM δ (Except Errno Nat) := do
  let t ← get
  let root ← getNode t.root
  match ← onNode t.root (findLabel (dirFuel root.size) 0) with
  | .error .enoent => findSlot t.root 1
  | r => pure r

/-- The entry `exfat_set_label` writes: an empty label is marked as deleted. -/
def labelEntry (units : List Nat) : Entry :=
  let length := utf16Length units
  let padded := units.take enameMax ++ List.replicate (enameMax - units.length) 0
  natLe 1 (if length = 0 then entryLabel ^^^ entryValid else entryLabel) ++ natLe 1 length ++
    padded.flatMap (natLe 2)

/-- `exfat_set_label`. -/
def exfatSetLabel (label : List UInt8) : TreeM δ Rc := do
  match exfatUtf8ToUtf16 label (enameMax + 1) with
  | .error e => pure (.error e)
  | .ok units => do
    match ← labelSlot with
    | .error e => pure (.error e)
    | .ok offset => do
      let t ← get
      match ← onNode t.root (writeEntries [labelEntry units] offset) with
      | .error e => pure (.error e)
      | .ok _ => do
        onVolume (modify fun ef => { ef with label := label })
        pure (.ok ())

end ExFat
