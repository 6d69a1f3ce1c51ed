import ExFat.Fs.Lookup

namespace ExFat

open Bytes

/-!
# `node.c`: the tree, and what is written back of it

Attaching and detaching nodes, dropping them, and writing the entries of a node to its directory.
The recursions over the tree are bounded by the number of nodes that were ever made.
-/

variable {δ : Type}

/-! ### The tree -/

/-- The part of `tree_attach` that links `i` and the child that was the first one. -/
def linkFirst (i : NodeId) : (first : Option NodeId) → TreeM δ PUnit
  | none => pure ⟨⟩
  | some f => do
    updateNode f fun n => { n with prev := some i }
    updateNode i fun n => { n with next := some f }

/-- `tree_attach`: the new child is the first one. -/
def treeAttach (dir i : NodeId) : TreeM δ PUnit := do
  updateNode i fun n => { n with parent := some dir }
  let d ← getNode dir
  linkFirst i d.first
  updateNode dir fun n => { n with first := some i, child := i :: n.child }

/-- The part of `tree_detach` about what stands before a child of `p`: another child, or `p`. -/
def bridgeBefore (p : NodeId) (next : Option NodeId) : (prev : Option NodeId) → TreeM δ PUnit
  | some q => updateNode q fun n => { n with next := next }
  | none => updateNode p fun n => { n with first := next }

/-- The part of `tree_detach` about what stands behind. -/
def bridgeBehind (prev : Option NodeId) : (next : Option NodeId) → TreeM δ PUnit
  | some q => updateNode q fun n => { n with prev := prev }
  | none => pure ⟨⟩

/-- `tree_detach`. -/
def treeDetach (i : NodeId) : TreeM δ PUnit := do
  let n ← getNode i
  match n.parent with
  | none => throw .fault
  | some p => do
    bridgeBefore p n.next n.prev
    bridgeBehind n.prev n.next
    updateNode p fun n => { n with child := n.child.erase i }
    updateNode i fun n => { n with parent := none, prev := none, next := none }

/-- `free`, of a node. -/
def freeNode (i : NodeId) : TreeM δ PUnit :=
  modify fun t => { t with heap := Function.update t.heap i none }

/-- The loop `while (node->references)` of `reset_cache`. -/
def putLoop (i : NodeId) : Nat → TreeM δ PUnit
  | 0 => pure ⟨⟩
  | k + 1 => do
    exfatPutNode i
    putLoop i k

/-- The warning of `reset_cache` about a node that is in use: it names the node. -/
def warnReferences (n : Node) : EfM δ PUnit :=
  if n.references ≠ 0 then do
    let _ ← exfatGetName n
    pure ⟨⟩
  else pure ⟨⟩

/-- The last part of `reset_cache`: the references to the node are dropped. -/
def dropReferences (i : NodeId) : TreeM δ PUnit := do
  let n ← getNode i
  let t ← get
  onVolume (warnReferences n)
  if i ≠ t.root ∧ n.isDirty then do
    let _ ← onVolume (exfatGetName n)
    exfatBug "node is dirty"
  else if n.references < 0 then exfatPutNode i
  else putLoop i n.references.toNat

/-- The end of `reset_cache`, for a node that has no children left. -/
def resetNode (i : NodeId) : TreeM δ PUnit := do
  updateNode i fun n => { n with isCached := false }
  dropReferences i

/-- `reset_cache`. -/
def resetCache : (fuel : Nat) → (i : NodeId) → TreeM δ PUnit
  | 0, _ => throw .fuel
  | fuel + 1, i => do
    let n ← getNode i
    match n.first with
    | none => resetNode i
    | some p => do
      resetCache fuel p
      treeDetach p
      freeNode p
      resetCache fuel i

/-- `exfat_reset_cache`. -/
def exfatResetCache : TreeM δ PUnit := do
  let t ← get
  resetCache (t.fresh + 1) t.root

/-! ### Writing a node back -/

/-- The entry with fields set one after the other, each given by its offset, its bytes and its
value. -/
def Entry.setFields (e : Entry) (fields : List (Nat × Nat × Nat)) : Entry :=
  fields.foldl (fun e f => Entry.set e f.1 f.2.1 f.2.2) e

/-- The set with its checksum in the first entry. -/
def sealEntries : List Entry → List Entry
  | [] => []
  | meta1 :: rest => Entry.set meta1 2 2 (exfatCalcChecksum (meta1 :: rest)) :: rest

/-- The fields `exfat_flush_node` sets in the first entry of a set. -/
def flushMeta1 (tz : Int) (n : Node) (meta1 : Entry) : Entry :=
  let m := unix2exfat tz n.mtime
  let a := unix2exfat tz n.atime
  meta1.setFields [(4, 2, n.attrib), (21, 1, m.centisec), (23, 1, m.tzoffset), (14, 2, m.date),
    (12, 2, m.time), (24, 1, a.tzoffset), (18, 2, a.date), (16, 2, a.time)]

/-- The fields `exfat_flush_node` sets in the second entry; empty files must not be marked as
contiguous. -/
def flushMeta2 (n : Node) (meta2 : Entry) : Entry :=
  meta2.setFields [(8, 8, n.validSize), (24, 8, n.size), (20, 4, n.startCluster),
    (1, 1, if n.size ≠ 0 ∧ n.isContiguous then flagAlways1 ||| flagContiguous else flagAlways1)]

/-- The set `exfat_flush_node` writes back, from the one it has read. -/
def flushedEntries (tz : Int) (n : Node) : List Entry → List Entry
  | meta1 :: meta2 :: rest => sealEntries (flushMeta1 tz n meta1 :: flushMeta2 n meta2 :: rest)
  | entries => entries

section Device

variable [Device δ]

/-- The part of `exfat_flush_node` that works on the directory `dir`: the set of the node is read,
checked and written back. -/
def rewriteEntries (dir : NodeId) (n : Node) : TreeM δ Rc := do
  match ← onNode dir (readEntries (1 + n.continuations) n.entryOffset) with
  | .error e => pure (.error e)
  | .ok entries => do
    if !(← onVolume (checkEntries entries)) then pure (.error .eio)
    else do
      let t ← get
      onNode dir (writeEntries (flushedEntries t.ef.timezone n entries) n.entryOffset)

/-- `exfat_flush_node`. -/
def exfatFlushNode (i : NodeId) : TreeM δ Rc := do
  let n ← getNode i
  let t ← get
  -- nothing is to be written
  if !n.isDirty then pure (.ok ())
  else if t.ef.ro then exfatBug "unable to flush node to read-only FS"
  else
    match n.parent with
    -- the root has no entries
    | none => pure (.ok ())
    | some dir => do
      match ← rewriteEntries dir n with
      | .error e => pure (.error e)
      | .ok _ => do
        -- the node is clean before the bitmap is written
        updateNode i fun n => { n with isDirty := false }
        onVolume exfatFlush

/-- Run `f` on one child after the other until one fails. -/
def untilError (f : NodeId → TreeM δ Rc) : List NodeId → TreeM δ Rc
  | [] => pure (.ok ())
  | i :: is => do
    match ← f i with
    | .error e => pure (.error e)
    | .ok _ => untilError f is

/-- `flush_nodes`. -/
def flushNodes : (fuel : Nat) → (i : NodeId) → TreeM δ Rc
  | 0, _ => throw .fuel
  | fuel + 1, i => do
    let n ← getNode i
    match ← untilError (flushNodes fuel) n.child with
    | .error e => pure (.error e)
    | .ok _ => exfatFlushNode i

/-- `exfat_flush_nodes`. -/
def exfatFlushNodes : TreeM δ Rc := do
  let t ← get
  flushNodes (t.fresh + 1) t.root

/-! ### Removing a node -/

/-- `exfat_cleanup_node`. -/
def exfatCleanupNode (i : NodeId) : TreeM δ Rc := do
  let n ← getNode i
  if n.references ≠ 0 then exfatBug "unable to cleanup a node with references"
  else if n.isUnlinked then do
    -- free the node even in case of error or its memory will be lost
    let rc ← onNode i (exfatTruncate 0 true)
    freeNode i
    pure rc
  else pure (.ok ())

/-- `erase_entries`. -/
def eraseEntries (n : Nat) (offset : Int) : FileM δ Rc := do
  match ← readEntries n offset with
  | .error e => pure (.error e)
  | .ok entries => writeEntries (entries.map Entry.invalidate) offset

/-- `erase_node`. -/
def eraseNode (i : NodeId) : TreeM δ Rc := do
  let n ← getNode i
  match n.parent with
  | none => throw .fault
  | some p => do
    -- the parent is kept while its entries are erased
    exfatGetNode p
    match ← onNode p (eraseEntries (1 + n.continuations) n.entryOffset) with
    | .error e => do
      exfatPutNode p
      pure (.error e)
    -- the parent may be dirty itself
    | .ok _ => do
      let rc ← exfatFlushNode p
      exfatPutNode p
      pure rc

/-- `*node` for the nodes of a list. -/
def getNodes : List NodeId → TreeM δ (List Node)
  | [] => pure []
  | i :: is => do
    let n ← getNode i
    let ns ← getNodes is
    pure (n :: ns)

/-- The node with the last entry, as the loop of `shrink_directory` finds it. -/
def lastNode : List Node → Option Node
  | [] => none
  | n :: ns =>
    some (ns.foldl (fun last n => if last.entryOffset < n.entryOffset then n else last) n)

/-- The size `shrink_directory` gives a directory whose last node is `last`. -/
def shrunkSize (cs : Nat) (last : Option Node) : Nat :=
  let entries := match last with
    | none => 0
    | some n => n.entryOffset / entrySize + 2 + divRoundUp (utf16Length n.name) enameMax
  let newSize := divRoundUp (entries * entrySize) cs * cs
  -- directory always has at least 1 cluster
  if newSize = 0 then cs else newSize

/-- `shrink_directory`. -/
def shrinkDirectory (dir : NodeId) (deletedOffset : Nat) : TreeM δ Rc := do
  let d ← getNode dir
  if !d.isDir then exfatBug "attempted to shrink a file"
  else if !d.isCached then exfatBug "attempted to shrink uncached directory"
  else do
    let nodes ← getNodes d.child
    if nodes.any fun n => deletedOffset < n.entryOffset then
      -- there are other entries after the removed one, no way to shrink this directory
      pure (.ok ())
    else do
      let t ← get
      let newSize := shrunkSize t.ef.sb.clusterSize (lastNode nodes)
      if newSize = d.size then pure (.ok ())
      else onNode dir (exfatTruncate newSize true)

/-- `delete`. -/
def delete (i : NodeId) : TreeM δ Rc := do
  let n ← getNode i
  match n.parent with
  | none => throw .fault
  | some p => do
    -- the parent is kept until the call is over
    exfatGetNode p
    match ← eraseNode i with
    | .error e => do
      exfatPutNode p
      pure (.error e)
    | .ok _ => do
      -- the node is detached before the directory shrinks
      treeDetach i
      let shrunk ← shrinkDirectory p n.entryOffset
      -- the mark is set even when the directory could not shrink
      updateNode i fun n => { n with isUnlinked := true }
      match shrunk with
      | .error e => do
        -- the second error is dropped
        let _ ← exfatFlushNode p
        exfatPutNode p
        pure (.error e)
      | .ok _ => do
        onNode p exfatUpdateMtime
        let rc ← exfatFlushNode p
        exfatPutNode p
        pure rc

/-- `exfat_unlink`. -/
def exfatUnlink (i : NodeId) : TreeM δ Rc := do
  let n ← getNode i
  if n.isDir then pure (.error .eisdir) else delete i

/-- `exfat_rmdir`. -/
def exfatRmdir (i : NodeId) : TreeM δ Rc := do
  let n ← getNode i
  if !n.isDir then pure (.error .enotdir)
  else do
    -- check that directory is empty
    match ← exfatCacheDirectory i with
    | .error e => pure (.error e)
    | .ok _ => do
      let n ← getNode i
      if n.child ≠ [] then pure (.error .enotempty) else delete i

end Device

end ExFat
