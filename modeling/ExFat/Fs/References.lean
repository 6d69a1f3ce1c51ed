import ExFat.Fs.Links
import ExFat.Fs.MountVolume
import Mathlib.Tactic.Abel

namespace ExFat

open Program

/-!
# Counting references

A routine of libexfat that returns a node has taken a reference on it, and every other reference it
takes it drops again, on each of its paths.  `Refs m d` says so for a routine: when it returns `a`,
the references of the nodes have changed by `d a`.  A node that is not in memory has no references,
so that making and freeing nodes are no exceptions.
-/

variable {δ : Type} {α β : Type}

/-! ### The calculus -/

/-- The references to a node. -/
def Volume.refs (t : Volume δ) (i : NodeId) : Int := ((t.heap i).map Node.references).getD 0

/-- No node has an identifier that is still to be given. -/
def Volume.Bounded (t : Volume δ) : Prop := ∀ i, t.fresh ≤ i → t.heap i = none

/-- A change of the number of references to each node. -/
abbrev Delta := NodeId → Int

/-- One reference to a node. -/
def one (i : NodeId) : Delta := fun j => if j = i then 1 else 0

/-- What a routine that returns a node has taken. -/
def taken {ε : Type} : Except ε NodeId → Delta
  | .error _ => 0
  | .ok i => one i

/-- The volume after a routine that changed the references by `d`. -/
structure Volume.Counted (t : Volume δ) (d : Delta) (t' : Volume δ) : Prop where
  bounded : t'.Bounded
  root : t'.root = t.root
  refs : ∀ i, t'.refs i = t.refs i + d i

/-- Two changes of the references add up. -/
theorem Volume.Counted.trans {t t₁ t₂ : Volume δ} {d e g : Delta} (h₁ : t.Counted d t₁)
    (h₂ : t₁.Counted e t₂) (h : d + e = g) : t.Counted g t₂ := by
  refine ⟨h₂.bounded, h₂.root.trans h₁.root, fun i => ?_⟩
  rw [h₂.refs, h₁.refs, ← h, Pi.add_apply, Int.add_assoc]

/-- When the routine returns `a`, the references have changed by `d a`. -/
def Refs (m : TreeM δ α) (d : α → Delta) : Prop :=
  ∀ t : Volume δ, t.Bounded → wp m (fun a t' => t.Counted (d a) t') anyStop t

/-- Returning a value takes no reference. -/
theorem Refs.pure {a : α} {d : α → Delta} (h : d a = 0) : Refs (pure a : TreeM δ α) d := by
  intro t ht
  refine ⟨ht, rfl, fun i => ?_⟩
  rw [h]
  exact (Int.add_zero _).symm

/-- A routine that stops does not return. -/
theorem Refs.throw (e : Halt) (d : α → Delta) : Refs (throw e : TreeM δ α) d := fun _ _ => trivial

/-- After a first routine the rest has what is left of the change to make. -/
theorem Refs.bind {m : TreeM δ α} {f : α → TreeM δ β} {d : α → Delta} {g : β → Delta}
    (hm : Refs m d) (hf : ∀ a, Refs (f a) fun b => g b - d a) : Refs (m >>= f) g := by
  intro t ht
  rw [wp_bind]
  refine wp_mono (hm t ht) ?_ (fun _ _ _ => trivial)
  intro a t₁ h₁
  exact wp_mono (hf a t₁ h₁.bounded) (fun b _ h₂ => h₁.trans h₂ (add_sub_cancel _ _))
    (fun _ _ _ => trivial)

/-- A routine that looks at the volume first. -/
theorem Refs.look {f : Volume δ → TreeM δ β} {g : β → Delta} (hf : ∀ t, Refs (f t) g) :
    Refs (get >>= f) g := fun t => hf t t

/-- A branch. -/
theorem Refs.ite {c : Prop} [Decidable c] {m₁ m₂ : TreeM δ α} {d : α → Delta} (h₁ : Refs m₁ d)
    (h₂ : Refs m₂ d) : Refs (if c then m₁ else m₂) d := by
  split
  · exact h₁
  · exact h₂

/-- The change may be written otherwise. -/
theorem Refs.congr {m : TreeM δ α} {d d' : α → Delta} (hm : Refs m d) (h : ∀ a, d a = d' a) :
    Refs m d' := by
  rw [← show d = d' from funext h]
  exact hm

/-- A volume of the same form is bounded. -/
theorem Volume.SameBy.bounded {κ : Type} {π : Node → κ} {t t' : Volume δ} (h : t.SameBy π t')
    (ht : t.Bounded) : t'.Bounded := by
  intro i hi
  have hview : t'.view π i = none := by
    rw [h.view]
    unfold Volume.view
    rw [ht i (h.fresh ▸ hi), Option.map_none]
  exact Option.map_eq_none_iff.1 hview

/-- A volume with the same links has the same references. -/
theorem Volume.SameBy.counted {t t' : Volume δ} (h : t.SameLinks t') (ht : t.Bounded) :
    t.Counted 0 t' := by
  refine ⟨h.bounded ht, h.root, fun i => ?_⟩
  have hlinks := congrArg (fun l => (l.map Links.references).getD 0) (congrFun h.view i)
  unfold Volume.view at hlinks
  rw [Option.map_map, Option.map_map] at hlinks
  rw [Pi.zero_apply, Int.add_zero]
  exact hlinks

/-- A routine that leaves the tree alone leaves the references alone. -/
theorem Refs.of_links {m : TreeM δ α} (hm : Keeps Volume.SameLinks m) : Refs m 0 := fun t ht =>
  wp_mono (hm t) (fun _ _ h => h.counted ht) (fun _ _ _ => trivial)

/-- A first routine that leaves the references alone. -/
theorem Refs.skip {m : TreeM δ α} {f : α → TreeM δ β} {g : β → Delta} (hm : Refs m 0)
    (hf : ∀ a, Refs (f a) g) : Refs (m >>= f) g :=
  Refs.bind hm fun a => (hf a).congr fun b => by rw [Pi.zero_apply, sub_zero]

/-- A routine that first leaves the links alone. -/
theorem Refs.skip_links {m : TreeM δ α} {f : α → TreeM δ β} {g : β → Delta}
    (hm : Keeps Volume.SameLinks m) (hf : ∀ a, Refs (f a) g) : Refs (m >>= f) g :=
  Refs.skip (Refs.of_links hm) hf

/-! ### One node -/

/-- Storing a node changes its references only. -/
theorem counted_store {t : Volume δ} (ht : t.Bounded) {i : NodeId} {n : Node}
    (hi : t.heap i = some n) (s : FileState δ) :
    t.Counted (fun j => if j = i then s.node.references - n.references else 0) (t.store i s) := by
  refine ⟨fun j hj => ?_, rfl, fun j => ?_⟩
  · have hne : j ≠ i := by
      rintro rfl
      rw [ht j hj] at hi
      cases hi
    show Function.update t.heap i (some s.node) j = none
    rw [Function.update_of_ne hne]
    exact ht j hj
  · unfold Volume.refs Volume.store
    dsimp only
    by_cases hj : j = i
    · subst hj
      rw [Function.update_self, hi, if_pos rfl]
      simp
    · rw [Function.update_of_ne hj, if_neg hj, Int.add_zero]

/-- Assigning to the references of a node. -/
theorem refs_updateNode (i : NodeId) {f : Node → Node} {k : Int}
    (h : ∀ n, (f n).references = n.references + k) :
    Refs (updateNode (δ := δ) i f) fun _ j => if j = i then k else 0 := by
  intro t ht
  unfold wp updateNode onNode
  cases hi : t.heap i with
  | none => exact trivial
  | some n =>
    have hcount := counted_store ht hi ⟨t.ef, f n⟩
    refine ⟨hcount.bounded, hcount.root, fun j => ?_⟩
    rw [hcount.refs]
    by_cases hj : j = i
    · simp only [if_pos hj, h]
      omega
    · simp only [if_neg hj]

/-- `exfat_get_node` takes a reference. -/
theorem refs_exfatGetNode (i : NodeId) : Refs (exfatGetNode (δ := δ) i) fun _ => one i :=
  refs_updateNode i fun _ => rfl

/-- `exfat_put_node` gives a reference back. -/
theorem refs_exfatPutNode (i : NodeId) : Refs (exfatPutNode (δ := δ) i) fun _ => -one i := by
  have hdrop : Refs (updateNode (δ := δ) i fun n => { n with references := n.references - 1 })
      fun _ => -one i := by
    refine (refs_updateNode i (k := -1) fun _ => Int.sub_eq_add_neg).congr fun _ => ?_
    funext j
    unfold one
    rw [Pi.neg_apply]
    split <;> rfl
  refine Refs.bind hdrop fun _ => Refs.skip_links (links_getNode i) fun n => Refs.look fun t => ?_
  refine Refs.ite ?_ (Refs.ite ?_ (Refs.pure (sub_self _)))
  · exact Refs.skip_links (links_onVolume _) fun _ => Refs.throw _ _
  · exact Refs.skip_links (links_onVolume _) fun _ => Refs.pure (sub_self _)

/-- Assigning to a node without its references. -/
theorem refs_assign (i : NodeId) {f : Node → Node} (h : ∀ n, (f n).references = n.references) :
    Refs (updateNode (δ := δ) i f) 0 := by
  refine (refs_updateNode i (k := 0) fun n => ?_).congr fun _ => ?_
  · rw [h, Int.add_zero]
  · funext j
    rw [ite_self]
    rfl

/-- `tree_attach` leaves the references as they were. -/
theorem refs_treeAttach (dir i : NodeId) : Refs (treeAttach (δ := δ) dir i) 0 := by
  refine Refs.skip (refs_assign i fun _ => rfl) fun _ => ?_
  refine Refs.skip_links (links_getNode dir) fun d => ?_
  refine Refs.skip ?_ fun _ => refs_assign dir fun _ => rfl
  cases d.first with
  | none => exact Refs.pure rfl
  | some f => exact Refs.skip (refs_assign f fun _ => rfl) fun _ => refs_assign i fun _ => rfl

/-- `tree_detach` leaves the references as they were. -/
theorem refs_treeDetach (i : NodeId) : Refs (treeDetach (δ := δ) i) 0 := by
  refine Refs.skip_links (links_getNode i) fun n => ?_
  cases n.parent with
  | none => exact Refs.throw _ _
  | some p =>
    have hbefore : Refs (bridgeBefore (δ := δ) p n.next n.prev) 0 := by
      cases n.prev with
      | none => exact refs_assign p fun _ => rfl
      | some q => exact refs_assign q fun _ => rfl
    have hbehind : Refs (bridgeBehind (δ := δ) n.prev n.next) 0 := by
      cases n.next with
      | none => exact Refs.pure rfl
      | some q => exact refs_assign q fun _ => rfl
    refine Refs.skip hbefore fun _ => Refs.skip hbehind fun _ => ?_
    exact Refs.skip (refs_assign p fun _ => rfl) fun _ => refs_assign i fun _ => rfl

/-- A new node that nothing refers to. -/
theorem counted_insert {t : Volume δ} (ht : t.Bounded) {n : Node} (hn : n.references = 0) :
    t.Counted 0 { t with
      heap := Function.update t.heap t.fresh (some n), fresh := t.fresh + 1 } := by
  refine ⟨fun i hi => ?_, rfl, fun i => ?_⟩
  · have hi' : t.fresh + 1 ≤ i := hi
    show Function.update t.heap t.fresh (some n) i = none
    rw [Function.update_of_ne (Nat.ne_of_gt hi')]
    exact ht i (Nat.le_of_succ_le hi')
  · unfold Volume.refs
    rw [Pi.zero_apply, Int.add_zero]
    by_cases hi : i = t.fresh
    · subst hi
      simp [ht t.fresh (Nat.le_refl _), hn]
    · simp only [Function.update_of_ne hi]

/-- `newNode` leaves the references as they were. -/
theorem refs_newNode {n : Node} (hn : n.references = 0) : Refs (newNode (δ := δ) n) 0 := fun _ ht =>
  counted_insert ht hn

/-- `linkBehind` leaves the references as they were. -/
theorem refs_linkBehind (dir i : NodeId) (current : Option NodeId) :
    Refs (linkBehind (δ := δ) dir i current) 0 := by
  cases current with
  | none => exact refs_assign dir fun _ => rfl
  | some c => exact refs_assign c fun _ => rfl

/-- `newChildren` leaves the references as they were. -/
theorem refs_newChildren (dir : NodeId) (current : Option NodeId) (ns : List Node)
    (hns : ∀ n ∈ ns, n.references = 0) : Refs (newChildren (δ := δ) dir current ns) 0 := by
  induction ns generalizing current with
  | nil => exact Refs.pure rfl
  | cons n ns ih =>
    intro t ht
    unfold newChildren
    rw [wp_bind, wp_get, wp_bind, wp_set]
    have hcount : t.Counted 0 { t with
        heap := Function.update t.heap t.fresh (some { n with parent := some dir, prev := current })
        fresh := t.fresh + 1 } := counted_insert ht (hns n (List.mem_cons_self ..))
    have hrest := ih (some t.fresh) fun m hm => hns m (List.mem_cons_of_mem _ hm)
    have hlinked : Refs (δ := δ) (do
        linkBehind dir t.fresh current
        let ids ← newChildren dir (some t.fresh) ns
        pure (t.fresh :: ids)) 0 :=
      Refs.skip (refs_linkBehind dir t.fresh current) fun _ =>
        Refs.skip hrest fun _ => Refs.pure rfl
    exact wp_mono (hlinked _ hcount.bounded) (fun _ _ h₁ => hcount.trans h₁ (zero_add 0))
      (fun _ _ _ => trivial)

section Device

variable [Device δ]

/-! ### Directories and paths -/

/-- `exfat_cache_directory` leaves the references as they were. -/
theorem refs_exfatCacheDirectory (dir : NodeId) : Refs (exfatCacheDirectory (δ := δ) dir) 0 := by
  refine Refs.skip_links (links_getNode dir) fun n => Refs.ite (Refs.pure rfl) ?_
  intro t ht
  rw [wp_bind]
  refine wp_mono (loose_onNode_cacheLoop (π := Node.links) dir _ _ t) ?_ (fun _ _ _ => trivial)
  rintro r t₁ ⟨h₁, hloose⟩
  have hrefs : ∀ m ∈ r.1, m.references = 0 := fun m hm => congrArg Links.references (hloose m hm)
  have hcount := h₁.counted ht
  have hrest : Refs (δ := δ) (if r.2 = .enoent then do
      let ids ← newChildren dir none r.1
      updateNode dir fun n => { n with
        child := if ids.isEmpty then n.child else ids
        isCached := true }
      pure (.ok ())
    else do
      updateNode dir fun n => { n with first := none, child := [] }
      pure (.error r.2)) (0 : Rc → Delta) := by
    refine Refs.ite ?_ ?_
    · refine Refs.skip (refs_newChildren dir none r.1 hrefs) fun ids => ?_
      exact Refs.skip (refs_assign dir fun _ => rfl) fun _ => Refs.pure rfl
    · exact Refs.skip (refs_assign dir fun _ => rfl) fun _ => Refs.pure rfl
  exact wp_mono (hrest t₁ hcount.bounded) (fun _ _ h₂ => hcount.trans h₂ (zero_add 0))
    (fun _ _ _ => trivial)

/-- The directory is held when `exfat_opendir` succeeds. -/
theorem refs_exfatOpendir (dir : NodeId) :
    Refs (exfatOpendir (δ := δ) dir) fun r => taken (r.map fun _ => dir) := by
  refine Refs.bind (refs_exfatGetNode dir) fun _ => ?_
  refine Refs.skip (refs_exfatCacheDirectory dir) fun r => ?_
  cases r with
  | error e =>
    exact Refs.bind (refs_exfatPutNode dir) fun _ => Refs.pure (by simp [taken, Except.map])
  | ok _ => exact Refs.pure (by simp [taken, Except.map])

omit [Device δ] in
/-- The loop of `lookup_name` takes a reference to the node it returns. -/
theorem refs_lookupLoop (name : List Nat) (is : List NodeId) :
    Refs (lookupLoop (δ := δ) name is) fun r => r.elim 0 one := by
  induction is with
  | nil => exact Refs.pure rfl
  | cons i is ih =>
    refine Refs.bind (refs_exfatGetNode i) fun _ => ?_
    refine Refs.skip_links (links_getNode i) fun n => Refs.look fun t => ?_
    cases t.ef.upcase with
    | none => exact Refs.throw _ _
    | some upcase =>
      refine Refs.ite (Refs.pure (sub_self _)) ?_
      exact Refs.bind (refs_exfatPutNode i) fun _ => ih.congr fun r => by abel

/-- `lookup_name` takes a reference to the node it returns. -/
theorem refs_lookupName (parent : NodeId) (name : List UInt8) :
    Refs (lookupName (δ := δ) parent name) taken := by
  unfold lookupName
  cases exfatUtf8ToUtf16 name (nameMax + 1) with
  | error e => exact Refs.pure rfl
  | ok buffer =>
    refine Refs.bind (refs_exfatOpendir parent) fun r => ?_
    cases r with
    | error e => exact Refs.pure (by simp [taken, Except.map])
    | ok _ =>
      refine Refs.skip_links (links_getNode parent) fun p => ?_
      refine Refs.bind (refs_lookupLoop buffer p.child) fun found => ?_
      cases found with
      | some i =>
        refine Refs.bind (refs_exfatPutNode parent) fun _ => Refs.pure ?_
        show one i - one parent - one i - -one parent = 0
        abel
      | none =>
        refine Refs.bind (refs_exfatPutNode parent) fun _ => Refs.pure ?_
        show (0 : Delta) - one parent - 0 - -one parent = 0
        abel

/-- The routine is called with a reference to `parent`, which it hands on or drops. -/
theorem refs_lookupPath (fuel : Nat) (parent : NodeId) (path : List UInt8) :
    Refs (lookupPath (δ := δ) fuel parent path) fun r => taken r - one parent := by
  induction fuel generalizing parent path with
  | zero => exact Refs.pure (sub_self _)
  | succ fuel ih =>
    unfold lookupPath
    dsimp only
    refine Refs.ite (Refs.pure (sub_self _)) (Refs.ite (ih parent _) ?_)
    refine Refs.bind (refs_lookupName parent _) fun r => ?_
    cases r with
    | error e =>
      refine Refs.bind (refs_exfatPutNode parent) fun _ => Refs.pure ?_
      show (0 : Delta) - one parent - 0 - -one parent = 0
      abel
    | ok node =>
      refine Refs.bind (refs_exfatPutNode parent) fun _ => (ih node _).congr fun r => ?_
      show taken r - one node = taken r - one parent - one node - -one parent
      abel

/-- `exfat_lookup` takes a reference to the node it returns. -/
theorem refs_exfatLookup (path : List UInt8) : Refs (exfatLookup (δ := δ) path) taken := by
  refine Refs.look fun t => Refs.bind (refs_exfatGetNode t.root) fun _ => ?_
  exact refs_lookupPath _ _ _

/-- What `exfat_split` returns with a reference on each. -/
def Split.taken : Except Errno Split → Delta
  | .error _ => 0
  | .ok s => one s.parent + s.node.elim 0 one

/-- A reference to the parent is given back unless it is returned. -/
theorem refs_splitLast (parent : NodeId) (comp : List UInt8) :
    Refs (splitLast (δ := δ) parent comp) fun r => Split.taken r - one parent := by
  have hfail : ∀ e : Errno, Refs (δ := δ) (do
      exfatPutNode parent
      pure (.error e)) fun r => Split.taken r - one parent := fun e =>
    Refs.bind (refs_exfatPutNode parent) fun _ => Refs.pure (by
      show (0 : Delta) - one parent - -one parent = 0
      abel)
  refine Refs.ite (hfail _) ?_
  cases exfatUtf8ToUtf16 comp (nameMax + 1) with
  | error e => exact hfail e
  | ok name =>
    refine Refs.bind (refs_lookupName parent comp) fun r => ?_
    split
    next node =>
      refine Refs.pure ?_
      show one parent + one node - one parent - one node = 0
      abel
    next =>
      refine Refs.pure ?_
      show one parent + 0 - one parent - 0 = 0
      abel
    next e _ => exact (hfail e).congr fun r => (sub_zero _).symm

/-- A reference to the parent is given back unless it is returned. -/
theorem refs_splitPath (fuel : Nat) (parent : NodeId) (path : List UInt8) :
    Refs (splitPath (δ := δ) fuel parent path) fun r => Split.taken r - one parent := by
  induction fuel generalizing parent path with
  | zero => exact Refs.throw _ _
  | succ fuel ih =>
    unfold splitPath
    dsimp only
    refine Refs.ite (Refs.throw _ _)
      (Refs.ite (ih parent _) (Refs.ite (refs_splitLast parent _) ?_))
    refine Refs.bind (refs_lookupName parent _) fun r => ?_
    cases r with
    | error e =>
      refine Refs.bind (refs_exfatPutNode parent) fun _ => Refs.pure ?_
      show (0 : Delta) - one parent - 0 - -one parent = 0
      abel
    | ok node =>
      refine Refs.bind (refs_exfatPutNode parent) fun _ => (ih node _).congr fun r => ?_
      show Split.taken r - one node = Split.taken r - one parent - one node - -one parent
      abel

/-- `exfat_split` takes references to the nodes it returns. -/
theorem refs_exfatSplit (path : List UInt8) : Refs (exfatSplit (δ := δ) path) Split.taken := by
  refine Refs.look fun t => Refs.bind (refs_exfatGetNode t.root) fun _ => ?_
  exact refs_splitPath _ _ _

/-! ### Removing a node -/

omit [Device δ] in
/-- Freeing a node without references leaves the others' as they are. -/
theorem counted_freeNode {t : Volume δ} (ht : t.Bounded) {i : NodeId} (hi : t.refs i = 0) :
    t.Counted 0 { t with heap := Function.update t.heap i none } := by
  refine ⟨fun j hj => ?_, rfl, fun j => ?_⟩
  · show Function.update t.heap i none j = none
    by_cases hji : j = i
    · rw [hji, Function.update_self]
    · rw [Function.update_of_ne hji]
      exact ht j hj
  · rw [Pi.zero_apply, Int.add_zero]
    by_cases hji : j = i
    · subst hji
      rw [hi]
      unfold Volume.refs
      dsimp only
      rw [Function.update_self]
      rfl
    · unfold Volume.refs
      dsimp only
      rw [Function.update_of_ne hji]

/-- A node is freed only when nothing refers to it. -/
theorem refs_exfatCleanupNode (i : NodeId) : Refs (exfatCleanupNode (δ := δ) i) 0 := by
  intro t ht
  unfold exfatCleanupNode
  rw [wp_bind]
  refine wp_getNode trivial fun n hi => ?_
  split
  · exact trivial
  next href =>
    have hzero : t.refs i = 0 := by
      unfold Volume.refs
      rw [hi]
      exact not_not.1 href
    split
    · rw [wp_bind]
      have htrunc : Keeps Volume.SameLinks (onNode i (exfatTruncate (δ := δ) 0 true)) :=
        links_onNode i (keeps_exfatTruncate _ _)
      refine wp_mono (Refs.of_links htrunc t ht) ?_ (fun _ _ _ => trivial)
      intro rc t₁ h₁
      have hzero₁ : t₁.refs i = 0 := by
        rw [h₁.refs, hzero]
        rfl
      exact h₁.trans (counted_freeNode h₁.bounded hzero₁) (zero_add 0)
    · exact (refl_of Volume.SameLinks t).counted ht

omit [Device δ] in
/-- Run something while a reference is held, and drop it. -/
theorem refs_held (i : NodeId) {m : TreeM δ α} {d : α → Delta} (hm : Refs m d) :
    Refs (do
      let a ← m
      exfatPutNode i
      pure a) fun a => d a - one i := by
  refine Refs.bind hm fun a => Refs.bind (refs_exfatPutNode i) fun _ => Refs.pure ?_
  abel

/-- `erase_node` leaves the references as they were. -/
theorem refs_eraseNode (i : NodeId) : Refs (eraseNode (δ := δ) i) 0 := by
  refine Refs.skip_links (links_getNode i) fun n => ?_
  cases n.parent with
  | none => exact Refs.throw _ _
  | some p =>
    refine Refs.bind (refs_exfatGetNode p) fun _ => ?_
    refine Refs.skip_links (links_onNode p (links_eraseEntries _ _)) fun r => ?_
    cases r with
    | error e => exact (refs_held p (Refs.pure (d := 0) rfl)).congr fun _ => rfl
    | ok _ => exact (refs_held p (Refs.of_links (links_exfatFlushNode p))).congr fun _ => rfl

/-- `delete` leaves the references as they were. -/
theorem refs_delete (i : NodeId) : Refs (delete (δ := δ) i) 0 := by
  refine Refs.skip_links (links_getNode i) fun n => ?_
  cases n.parent with
  | none => exact Refs.throw _ _
  | some p =>
    refine Refs.bind (refs_exfatGetNode p) fun _ => Refs.skip (refs_eraseNode i) fun r => ?_
    cases r with
    | error e => exact (refs_held p (Refs.pure (d := 0) rfl)).congr fun _ => rfl
    | ok _ =>
      refine Refs.skip (refs_treeDetach i) fun _ => ?_
      refine Refs.skip_links (links_shrinkDirectory _ _) fun shrunk => ?_
      refine Refs.skip (refs_assign i fun _ => rfl) fun _ => ?_
      cases shrunk with
      | error e =>
        refine Refs.skip_links (links_exfatFlushNode p) fun _ => ?_
        exact (refs_held p (Refs.pure (d := 0) rfl)).congr fun _ => rfl
      | ok _ =>
        refine Refs.skip_links (links_onNode p (keeps_exfatUpdateMtime (δ := δ))) fun _ => ?_
        exact (refs_held p (Refs.of_links (links_exfatFlushNode p))).congr fun _ => rfl

/-- `exfat_unlink` leaves the references as they were. -/
theorem refs_exfatUnlink (i : NodeId) : Refs (exfatUnlink (δ := δ) i) 0 :=
  Refs.skip_links (links_getNode i) fun _ => Refs.ite (Refs.pure rfl) (refs_delete i)

/-- `exfat_rmdir` leaves the references as they were. -/
theorem refs_exfatRmdir (i : NodeId) : Refs (exfatRmdir (δ := δ) i) 0 := by
  refine Refs.skip_links (links_getNode i) fun n => Refs.ite (Refs.pure rfl) ?_
  refine Refs.skip (refs_exfatCacheDirectory i) fun r => ?_
  cases r with
  | error e => exact Refs.pure rfl
  | ok _ =>
    exact Refs.skip_links (links_getNode i) fun _ => Refs.ite (Refs.pure rfl) (refs_delete i)

/-! ### Making a node -/

/-- `commit_entry` leaves the references as they were. -/
theorem refs_commitEntry (dir : NodeId) (name : List Nat) (offset attrib : Nat) :
    Refs (commitEntry (δ := δ) dir name offset attrib) 0 := by
  refine Refs.skip_links (links_onVolume _) fun now => Refs.look fun t => ?_
  cases t.ef.upcase with
  | none => exact Refs.throw _ _
  | some upcase =>
    refine Refs.skip_links (links_onNode dir (links_writeEntries _ _)) fun r => ?_
    cases r with
    | error e => exact Refs.pure rfl
    | ok _ =>
      refine Refs.skip_links (links_onVolume _) fun ok => Refs.ite (Refs.pure rfl) ?_
      intro t ht
      rw [wp_bind]
      unfold onVolume
      rw [wp_zoom]
      refine wp_mono (links_withNode (keeps_bind (links_initNodeMeta1 _)
        fun _ => links_initNodeMeta2 _) t.ef) ?_ (fun _ _ _ => trivial)
      intro r ef hlinks
      have hrefs : r.2.references = 0 := congrArg Links.references hlinks
      have hef : t.Counted 0 { t with ef := ef } := ⟨ht, rfl, fun i => (Int.add_zero _).symm⟩
      have hattach : Refs (δ := δ) (do
          let i ← newNode r.2
          treeAttach dir i
          pure (.ok ())) (0 : Rc → Delta) :=
        Refs.skip (refs_newNode hrefs) fun i => Refs.skip (refs_treeAttach dir i) fun _ =>
          Refs.pure rfl
      exact wp_mono (hattach _ hef.bounded) (fun _ _ h => hef.trans h (zero_add 0))
        (fun _ _ _ => trivial)

/-- `create` leaves the references as they were. -/
theorem refs_create (path : List UInt8) (attrib : Nat) : Refs (create (δ := δ) path attrib) 0 := by
  refine Refs.bind (refs_exfatSplit path) fun r => ?_
  match r with
  | .error e => exact Refs.pure (sub_self _)
  | .ok ⟨dir, some existing, name⟩ =>
    refine Refs.bind (refs_exfatPutNode existing) fun _ => ?_
    refine Refs.bind (refs_exfatPutNode dir) fun _ => Refs.pure ?_
    show 0 - (one dir + one existing) - -one existing - -one dir = 0
    abel
  | .ok ⟨dir, none, name⟩ =>
    have hdone : (0 : Delta) - one dir = (0 : Delta) - (one dir + 0) := by rw [add_zero]
    refine Refs.skip_links (links_findSlot _ _) fun r => ?_
    cases r with
    | error e => exact (refs_held dir (Refs.pure (d := 0) rfl)).congr fun _ => hdone
    | ok offset =>
      refine Refs.skip (refs_commitEntry _ _ _ _) fun r => ?_
      cases r with
      | error e => exact (refs_held dir (Refs.pure (d := 0) rfl)).congr fun _ => hdone
      | ok _ =>
        refine Refs.skip_links (links_onNode dir (keeps_exfatUpdateMtime (δ := δ))) fun _ => ?_
        exact (refs_held dir (Refs.of_links (links_exfatFlushNode dir))).congr fun _ => hdone

/-- The reference of `exfat_mkdir` to the new directory is given back. -/
theorem refs_undoMkdir (i : NodeId) (e : Errno) : Refs (undoMkdir (δ := δ) i e) fun _ => -one i :=
  Refs.skip (refs_delete i) fun _ =>
    (refs_held i (Refs.pure (d := 0) rfl)).congr fun _ => zero_sub _

/-- `exfat_mkdir` leaves the references as they were. -/
theorem refs_exfatMkdir (path : List UInt8) : Refs (exfatMkdir (δ := δ) path) 0 := by
  refine Refs.skip (refs_create path _) fun r => ?_
  cases r with
  | error e => exact Refs.pure rfl
  | ok _ =>
    refine Refs.bind (refs_exfatLookup path) fun r => ?_
    cases r with
    | error e => exact Refs.pure (sub_self _)
    | ok i =>
      have hundo : ∀ e, Refs (undoMkdir (δ := δ) i e) fun b =>
          (0 : Rc → Delta) b - taken (.ok i : Except Errno NodeId) := fun e =>
        (refs_undoMkdir i e).congr fun _ => (zero_sub _).symm
      refine Refs.look fun t => ?_
      refine Refs.skip_links (links_onNode i (keeps_exfatTruncate _ _)) fun r => ?_
      cases r with
      | error e => exact hundo e
      | ok _ =>
        refine Refs.skip_links (links_exfatFlushNode i) fun r => ?_
        cases r with
        | error e => exact hundo e
        | ok _ => exact (refs_held i (Refs.pure (d := 0) rfl)).congr fun _ => rfl

/-! ### Renaming -/

/-- `rename_entry` leaves the references as they were. -/
theorem refs_renameEntry (dir i : NodeId) (name : List Nat) (newOffset : Nat) :
    Refs (renameEntry (δ := δ) dir i name newOffset) 0 := by
  refine Refs.skip_links (links_getNode i) fun n => ?_
  cases n.parent with
  | none => exact Refs.throw _ _
  | some p =>
    refine Refs.skip_links (links_onNode p (links_readEntries _ _)) fun r => ?_
    cases r with
    | error e => exact Refs.pure rfl
    | ok entries =>
      refine Refs.look fun t => ?_
      cases t.ef.upcase with
      | none => exact Refs.throw _ _
      | some upcase =>
        refine Refs.skip (refs_eraseNode i) fun r => ?_
        cases r with
        | error e => exact Refs.pure rfl
        | ok _ =>
          refine Refs.skip (refs_assign i fun _ => rfl) fun _ => ?_
          refine Refs.skip_links (links_onNode dir (links_writeEntries _ _)) fun r => ?_
          cases r with
          | error e => exact Refs.pure rfl
          | ok _ =>
            refine Refs.skip (refs_assign i fun _ => rfl) fun _ => ?_
            refine Refs.skip (refs_treeDetach i) fun _ => ?_
            refine Refs.skip (refs_treeAttach dir i) fun _ => ?_
            exact Refs.pure rfl

/-- `unlinkTarget` leaves the references as they were. -/
theorem refs_unlinkTarget (i existing : NodeId) : Refs (unlinkTarget (δ := δ) i existing) 0 := by
  refine Refs.skip_links (links_getNode i) fun n =>
    Refs.skip_links (links_getNode existing) fun e => ?_
  exact Refs.ite (Refs.ite (refs_exfatRmdir existing) (Refs.pure rfl))
    (Refs.ite (refs_exfatUnlink existing) (Refs.pure rfl))

/-- The reference to the target is given back. -/
theorem refs_removeTarget (i existing : NodeId) :
    Refs (removeTarget (δ := δ) i existing) fun _ => -one existing := by
  refine Refs.skip (refs_unlinkTarget i existing) fun rc => ?_
  refine Refs.bind (refs_exfatPutNode existing) fun _ => ?_
  cases rc with
  | error e => exact Refs.skip (refs_exfatCleanupNode existing) fun _ => Refs.pure (sub_self _)
  | ok _ => exact (refs_exfatCleanupNode existing).congr fun _ => (sub_self _).symm

omit [Device δ] in
/-- Both references are given back. -/
theorem refs_putBoth (dir i : NodeId) :
    Refs (putBoth (δ := δ) dir i) fun _ => -one dir - one i := by
  refine Refs.bind (refs_exfatPutNode dir) fun _ => (refs_exfatPutNode i).congr fun _ => ?_
  abel

/-- The references to the directory and to the node are given back. -/
theorem refs_renameInto (dir i : NodeId) (name : List Nat) :
    Refs (renameInto (δ := δ) dir i name) fun _ => -one dir - one i := by
  have hfail : ∀ rc : Rc, Refs (δ := δ) (do
      putBoth dir i
      pure rc) fun _ => -one dir - one i := fun rc =>
    Refs.bind (refs_putBoth dir i) fun _ => Refs.pure (sub_self _)
  refine Refs.skip_links (links_findSlot _ _) fun r => ?_
  cases r with
  | error e => exact hfail _
  | ok offset =>
    refine Refs.skip (refs_renameEntry _ _ _ _) fun r => ?_
    cases r with
    | error e => exact hfail _
    | ok _ => exact Refs.skip_links (links_exfatFlushNode dir) fun rc => hfail rc

/-- `exfat_rename` leaves the references as they were. -/
theorem refs_exfatRename (oldPath newPath : List UInt8) :
    Refs (exfatRename (δ := δ) oldPath newPath) 0 := by
  -- The first lookup takes one reference, to the node that moves.
  refine Refs.bind (refs_exfatLookup oldPath) fun r => ?_
  cases r with
  | error e => exact Refs.pure (sub_self _)
  | ok i =>
    refine Refs.bind (refs_exfatSplit newPath) fun r => ?_
    -- `exfat_split` takes one to the directory and one to the node that has the name already.
    match r with
    | .error e =>
      refine Refs.bind (refs_exfatPutNode i) fun _ => Refs.pure ?_
      show (0 : Delta) - one i - 0 - -one i = 0
      abel
    | .ok ⟨dir, existing, name⟩ =>
      -- A directory is not moved below itself: everything is given back.
      refine Refs.skip_links (links_targetBelow _ _) fun below => Refs.ite ?_ ?_
      · cases existing with
        | none =>
          refine Refs.bind (refs_putBoth dir i) fun _ => Refs.pure ?_
          show (0 : Delta) - one i - (one dir + 0) - (-one dir - one i) = 0
          abel
        | some e =>
          refine Refs.bind (refs_exfatPutNode e) fun _ => ?_
          refine Refs.bind (refs_putBoth dir i) fun _ => Refs.pure ?_
          show (0 : Delta) - one i - (one dir + one e) - -one e - (-one dir - one i) = 0
          abel
      · cases existing with
        | none =>
          refine (refs_renameInto dir i name).congr fun _ => ?_
          show -one dir - one i = (0 : Delta) - one i - (one dir + 0)
          abel
        | some e =>
          -- The target is the node itself (a change of case), or it has to make room.
          refine Refs.ite ?_ ?_
          · refine Refs.bind (refs_exfatPutNode e) fun _ =>
              (refs_renameInto dir i name).congr fun _ => ?_
            show -one dir - one i = (0 : Delta) - one i - (one dir + one e) - -one e
            abel
          -- `remove_target` gives the reference to the target back, whatever it returns.
          · refine Refs.bind (refs_removeTarget i e) fun r => ?_
            have hleft : -one dir - one i =
                (0 : Delta) - one i - (one dir + one e) - -one e := by abel
            cases r with
            | error _ =>
              refine Refs.bind (refs_putBoth dir i) fun _ => Refs.pure ?_
              show (0 : Delta) - one i - (one dir + one e) - -one e - (-one dir - one i) = 0
              abel
            | ok _ => exact (refs_renameInto dir i name).congr fun _ => hleft

/-! ### Mounting and unmounting -/

/-- No node is in memory. -/
def Volume.Vacant (t : Volume δ) : Prop := ∀ i, t.heap i = none

omit [Device δ] in
/-- No node has references when none is in memory. -/
theorem Volume.Vacant.refs {t : Volume δ} (h : t.Vacant) (i : NodeId) : t.refs i = 0 := by
  unfold Volume.refs
  rw [h i]
  rfl

/-- `exfat_unmount` leaves no node in memory. -/
theorem exfatUnmount_vacant (t : Volume δ) :
    wp (exfatUnmount (δ := δ)) (fun _ t' => t'.Vacant) anyStop t := by
  refine wp_after fun _ _ => wp_after fun _ _ => wp_after fun _ _ => wp_after fun _ _ => ?_
  exact wp_after fun _ _ => wp_after fun _ _ => fun _ => rfl

/-- The loop of `rootdir_size` leaves the node as it is seen. -/
theorem links_rootdirLoop {κ : Type} {π : Node → κ} [Aloof π] (fuel clusters cluster : Nat) :
    Keeps (FileState.SameBy π) (rootdirLoop (δ := δ) fuel clusters cluster) := by
  induction fuel generalizing clusters cluster with
  | zero => exact keeps_throw _
  | succ fuel ih =>
    refine keeps_look fun s => keeps_ite ?_ (keeps_ite ?_ ?_)
    · exact keeps_bind (links_onEf _) fun _ => keeps_pure _
    · exact keeps_bind (links_onEf _) fun _ => keeps_pure _
    · refine keeps_bind (keeps_exfatNextCluster cluster) fun next => ?_
      exact keeps_ite (ih _ _) (keeps_pure _)

/-- What a mount leaves: the one reference to the root, or nothing. -/
def MountedRefs : Rc → Volume δ → Prop
  | .ok _, t => t.Bounded ∧ ∀ i, t.refs i = one t.root i
  | .error _, t => t.Vacant

omit [Device δ] in
/-- A mount that fails leaves no references. -/
theorem abandonMount_refs (root : NodeId) (t : Volume δ) :
    wp (abandonMount (δ := δ) root) MountedRefs anyStop t :=
  wp_after fun _ _ => wp_after fun _ _ => fun _ => rfl

/-- A mount leaves one reference, to the root directory. -/
theorem mountRoot_refs {t : Volume δ} (ht : t.Vacant) :
    wp (mountRoot (δ := δ)) MountedRefs anyStop t := by
  unfold mountRoot
  rw [wp_bind, wp_get]
  dsimp only
  rw [wp_bind, wp_set]
  -- The node of the root is made with no reference, as `calloc` leaves it.
  let cluster := t.ef.sb.rootdirCluster
  let r : Node := { attrib := attribDir, startCluster := cluster, fptrCluster := cluster }
  have hnew : t.Counted 0 { t with
      heap := Function.update t.heap t.fresh (some r), fresh := t.fresh + 1 } :=
    counted_insert (fun i _ => ht i) rfl
  let t₁ : Volume δ := { t with
    heap := Function.update t.heap t.fresh (some r), root := t.fresh, fresh := t.fresh + 1 }
  have hzero : ∀ i, t₁.refs i = 0 := by
    intro i
    have hrefs := hnew.refs i
    rw [ht.refs i] at hrefs
    exact hrefs
  show wp _ MountedRefs anyStop t₁
  rw [wp_bind]
  have hsize : Keeps Volume.SameLinks (onNode t.fresh (rootdirSize (δ := δ))) :=
    links_onNode _ (keeps_look fun s => links_rootdirLoop _ _ _)
  refine wp_mono (Refs.of_links hsize t₁ hnew.bounded) ?_ (fun _ _ _ => trivial)
  intro size t₂ h₂
  rw [wp_bind]
  have hassign : Refs (δ := δ)
      (updateNode t.fresh fun n => { n with size := size, validSize := size }) 0 :=
    refs_assign t.fresh fun _ => rfl
  refine wp_mono (hassign t₂ h₂.bounded) ?_ (fun _ _ _ => trivial)
  intro _ t₃ h₃
  split
  · exact fun _ => rfl
  -- the only reference that stays
  rw [wp_bind]
  refine wp_mono (refs_exfatGetNode t.fresh t₃ h₃.bounded) ?_ (fun _ _ _ => trivial)
  intro _ t₄ h₄
  rw [wp_bind]
  refine wp_mono (refs_exfatCacheDirectory t.fresh t₄ h₄.bounded) ?_ (fun _ _ _ => trivial)
  intro rc t₅ h₅
  cases rc with
  -- a failure behind this point goes through `abandon_mount`, which leaves no node
  | error e => exact abandonMount_refs _ t₅
  | ok _ =>
    rw [wp_bind, wp_get]
    split
    · exact wp_after fun _ t => abandonMount_refs _ t
    split
    · exact wp_after fun _ t => abandonMount_refs _ t
    -- the identifiers are those of the first step, so the count is what that step says
    · refine ⟨h₅.bounded, fun i => ?_⟩
      have hr : t₅.root = t.fresh := by rw [h₅.root, h₄.root, h₃.root, h₂.root]
      rw [h₅.refs, h₄.refs, h₃.refs, h₂.refs, hzero, hr]
      simp

/-- `exfat_mount` leaves one reference, to the root directory. -/
theorem exfatMount_refs {t : Volume δ} (ht : t.Vacant) :
    wp (exfatMount (δ := δ)) MountedRefs anyStop t := by
  unfold exfatMount
  rw [wp_bind]
  unfold onVolume
  rw [wp_zoom]
  unfold wp
  cases mountSuperBlock t.ef with
  | error e ef => exact trivial
  | ok rc ef =>
    cases rc with
    | error e => exact fun _ => rfl
    | ok _ => exact mountRoot_refs (t := { t with ef := ef }) ht

end Device

end ExFat
