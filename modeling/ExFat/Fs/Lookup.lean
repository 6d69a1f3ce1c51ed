import ExFat.Fs.Directory

namespace ExFat

/-!
# `lookup.c`

Paths are byte strings without their terminator; components are separated by slashes, and a
component that is a single dot is skipped.  A routine that returns a node has taken a reference on
it.
-/

variable {δ : Type}

/-! ### References -/

/-- `exfat_get_node`. -/
def exfatGetNode (i : NodeId) : TreeM δ PUnit :=
  updateNode i fun n => { n with references := n.references + 1 }

/-- `exfat_put_node`. -/
def exfatPutNode (i : NodeId) : TreeM δ PUnit := do
  updateNode i fun n => { n with references := n.references - 1 }
  let n ← getNode i
  let t ← get
  if n.references < 0 then do
    let _ ← onVolume (exfatGetName n)
    exfatBug "reference counter is below zero"
  else if n.references = 0 ∧ i ≠ t.root ∧ n.isDirty then do
    -- a warning that names the node
    let _ ← onVolume (exfatGetName n)
    pure ⟨⟩
  else pure ⟨⟩

/-! ### Components of a path -/

/-- The byte `'/'`. -/
def slash : UInt8 := 0x2f

/-- The byte `'.'`. -/
def dot : UInt8 := 0x2e

/-- `get_comp`: the first component and what follows it. -/
def getComp (path : List UInt8) : List UInt8 × List UInt8 :=
  let p := path.dropWhile (· == slash)
  (p.takeWhile (· != slash), p.dropWhile (· != slash))

/-- `is_last_comp`, for what follows the component. -/
def isLastComp (rest : List UInt8) : Bool := (getComp rest).1.isEmpty

/-- The bytes `is_allowed` refuses. -/
def forbiddenByte (c : UInt8) : Bool :=
  (0x01 ≤ c && c ≤ 0x1f) || c == slash || c == 0x5c || c == 0x3a || c == 0x2a || c == 0x3f ||
    c == 0x22 || c == 0x3c || c == 0x3e || c == 0x7c

/-- `is_allowed`. -/
def isAllowed (comp : List UInt8) : Bool := !comp.any forbiddenByte

/-! ### Names -/

/-- `compare_name` returns 0; the lists are followed by zeros. -/
def compareName (upcase : Nat → Nat) : List Nat → List Nat → Bool
  | a :: as, b :: bs =>
    if a ≠ 0 ∧ b ≠ 0 then
      if upcase a ≠ upcase b then false else compareName upcase as bs
    else upcase a == upcase b
  | a :: _, [] => upcase a == upcase 0
  | [], b :: _ => upcase 0 == upcase b
  | [], [] => true

section Lookup

variable [Device δ]

/-- `exfat_opendir`. -/
def exfatOpendir (dir : NodeId) : TreeM δ Rc := do
  exfatGetNode dir
  match ← exfatCacheDirectory dir with
  | .error e => do
    exfatPutNode dir
    pure (.error e)
  | .ok _ => pure (.ok ())

/-- The loop of `lookup_name` over the children that are left. -/
def lookupLoop (name : List Nat) : List NodeId → TreeM δ (Option NodeId)
  | [] => pure none
  | i :: is => do
    exfatGetNode i
    let n ← getNode i
    let t ← get
    match t.ef.upcase with
    | none => throw .fault
    | some upcase =>
      if compareName upcase name n.name then pure (some i)
      else do
        exfatPutNode i
        lookupLoop name is

/-- `lookup_name`. -/
def lookupName (parent : NodeId) (name : List UInt8) : TreeM δ (Except Errno NodeId) := do
  match exfatUtf8ToUtf16 name (nameMax + 1) with
  | .error e => pure (.error e)
  | .ok buffer => do
    match ← exfatOpendir parent with
    | .error e => pure (.error e)
    | .ok _ => do
      let p ← getNode parent
      -- the children are compared in the order of the list
      match ← lookupLoop buffer p.child with
      -- the reference that opening has taken is given back in both cases
      | some i => do
        exfatPutNode parent
        pure (.ok i)
      | none => do
        exfatPutNode parent
        pure (.error .enoent)

/-- The loop of `exfat_lookup`; a path has no more components than bytes. -/
def lookupPath : (fuel : Nat) → (parent : NodeId) → (path : List UInt8) →
    TreeM δ (Except Errno NodeId)
  | 0, parent, _ => pure (.ok parent)
  | fuel + 1, parent, path => do
    let (comp, rest) := getComp path
    if comp.isEmpty then pure (.ok parent)
    -- the single dot stays in the directory
    else if comp = [dot] then lookupPath fuel parent rest
    else do
      match ← lookupName parent comp with
      | .error e => do
        exfatPutNode parent
        pure (.error e)
      | .ok node => do
        -- the walk gives back each directory it leaves
        exfatPutNode parent
        lookupPath fuel node rest

/-- `exfat_lookup`. -/
def exfatLookup (path : List UInt8) : TreeM δ (Except Errno NodeId) := do
  let t ← get
  exfatGetNode t.root
  lookupPath path.length t.root path

/-- What `exfat_split` returns: the directory, the node if there is one, and the name. -/
structure Split where
  parent : NodeId
  node : Option NodeId
  name : List Nat
  deriving DecidableEq

/-- The last component of `exfat_split`. -/
def splitLast (parent : NodeId) (comp : List UInt8) : TreeM δ (Except Errno Split) := do
  -- a character that no name may contain
  if !isAllowed comp then do
    exfatPutNode parent
    pure (.error .enoent)
  else do
    match exfatUtf8ToUtf16 comp (nameMax + 1) with
    | .error e => do
      exfatPutNode parent
      pure (.error e)
    | .ok name => do
      match ← lookupName parent comp with
      | .ok node => pure (.ok ⟨parent, some node, name⟩)
      -- the name is free
      | .error .enoent => pure (.ok ⟨parent, none, name⟩)
      | .error e => do
        exfatPutNode parent
        pure (.error e)

/-- The loop of `exfat_split`. -/
def splitPath : (fuel : Nat) → (parent : NodeId) → (path : List UInt8) →
    TreeM δ (Except Errno Split)
  | 0, _, _ => exfatBug "impossible"
  | fuel + 1, parent, path => do
    let (comp, rest) := getComp path
    -- the path has run out before its last component
    if comp.isEmpty then exfatBug "impossible"
    else if comp = [dot] then splitPath fuel parent rest
    -- the last component is not entered
    else if isLastComp rest then splitLast parent comp
    else do
      match ← lookupName parent comp with
      | .error e => do
        exfatPutNode parent
        pure (.error e)
      | .ok node => do
        exfatPutNode parent
        splitPath fuel node rest

/-- `exfat_split`. -/
def exfatSplit (path : List UInt8) : TreeM δ (Except Errno Split) := do
  let t ← get
  exfatGetNode t.root
  splitPath path.length t.root path

end Lookup

end ExFat
