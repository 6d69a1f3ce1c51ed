import ExFat.Fs.Types
import Mathlib.Logic.Function.Basic

namespace ExFat

open Program

/-!
# The volume with its nodes

`struct exfat` as a whole: the part in `Ef` and the nodes that are in memory.  A node is found
through its identifier, which stands for the pointer to it; a routine that follows a pointer to a
node that is not there ends in `Halt.fault`.
-/

/-- A mounted volume and the nodes in memory.  `fresh` is the identifier the next node gets. -/
structure Volume (δ : Type) where
  ef : Ef δ
  heap : NodeId → Option Node
  root : NodeId
  fresh : NodeId

/-- A routine on the volume and its nodes. -/
abbrev TreeM (δ : Type) := EStateM Halt (Volume δ)

variable {δ : Type} {α : Type}

/-- Run a routine of the volume alone. -/
def onVolume (m : EfM δ α) : TreeM δ α :=
  Program.zoom Volume.ef (fun t ef => { t with ef := ef }) m

/-- The volume after a routine has worked on a node. -/
def Volume.store (t : Volume δ) (i : NodeId) (s : FileState δ) : Volume δ :=
  { t with ef := s.ef, heap := Function.update t.heap i (some s.node) }

/-- Run a routine of the volume and one node on the node `i`. -/
def onNode (i : NodeId) (m : FileM δ α) : TreeM δ α := fun t =>
  match t.heap i with
  | none => .error .fault t
  | some n =>
    match m ⟨t.ef, n⟩ with
    | .ok a s => .ok a (t.store i s)
    | .error e s => .error e (t.store i s)

/-- `*node`. -/
def getNode (i : NodeId) : TreeM δ Node := fun t =>
  match t.heap i with
  | none => .error .fault t
  | some n => .ok n t

/-- Assign to fields of `*node`. -/
def updateNode (i : NodeId) (f : Node → Node) : TreeM δ PUnit := onNode i (modifyNode f)

/-- A routine on a node that returns changes that node. -/
theorem run_onNode {i : NodeId} {n : Node} {t : Volume δ} (h : t.heap i = some n) {m : FileM δ α}
    {a : α} {s : FileState δ} (hm : m ⟨t.ef, n⟩ = .ok a s) :
    onNode i m t = .ok a (t.store i s) := by
  unfold onNode
  rw [h]
  simp only [hm]

/-! ### One node of the volume -/

section Store

variable {t : Volume δ} {i j : NodeId} {n : Node}

/-- What a routine on a node establishes. -/
theorem wp_onNode (h : t.heap i = some n) {m : FileM δ α} {Q : α → Volume δ → Prop}
    {E : Halt → Volume δ → Prop} :
    wp (onNode i m) Q E t ↔
      wp m (fun a s => Q a (t.store i s)) (fun e s => E e (t.store i s)) ⟨t.ef, n⟩ := by
  unfold wp onNode
  simp only [h]
  cases m ⟨t.ef, n⟩ <;> rfl

/-- A node that has been stored is in memory. -/
theorem store_heap_self (t : Volume δ) (i : NodeId) (s : FileState δ) :
    (t.store i s).heap i = some s.node := Function.update_self ..

/-- The other nodes are as before. -/
theorem store_heap_of_ne (s : FileState δ) (h : j ≠ i) : (t.store i s).heap j = t.heap j :=
  Function.update_of_ne h ..

/-- Storing a node as it is changes nothing. -/
theorem store_self (h : t.heap i = some n) : t.store i ⟨t.ef, n⟩ = t := by
  unfold Volume.store
  rw [show Function.update t.heap i (some n) = t.heap from h ▸ Function.update_eq_self i t.heap]

/-- Of two stores the later one counts. -/
theorem store_store (t : Volume δ) (i : NodeId) (s s' : FileState δ) :
    (t.store i s).store i s' = t.store i s' := by
  unfold Volume.store
  simp

/-- The node that is in memory. -/
theorem run_getNode (h : t.heap i = some n) : getNode i t = .ok n t := by
  unfold getNode
  simp only [h]

/-- A node that is read is in memory, and reading it changes nothing. -/
theorem run_getNode_eq_ok {t' : Volume δ} {p : Node} (h : getNode i t = .ok p t') :
    t.heap i = some p ∧ t = t' := by
  unfold getNode at h
  cases hi : t.heap i with
  | none =>
    rw [hi] at h
    cases h
  | some n =>
    rw [hi] at h
    cases h
    exact ⟨rfl, rfl⟩

/-- The node that is in memory is changed. -/
theorem run_updateNode (h : t.heap i = some n) (f : Node → Node) :
    updateNode i f t = .ok ⟨⟩ (t.store i ⟨t.ef, f n⟩) := run_onNode h rfl

end Store

end ExFat
