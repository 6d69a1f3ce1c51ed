import ExFat.Lib.Strung
import Mathlib.Data.Finset.Card
import Mathlib.Data.List.Nodup
import Mathlib.Logic.Relation

namespace ExFat

/-!
# Forests of linked nodes

A node knows the one above it and the list of those below it.  `Forest` is the shape such links can
have, in the form first child and next sibling, so that a recursion over the nodes is a structural
induction; `Forest.Fits` says that the links of a table are those of the forest.
-/

/-- A list of trees: the first node with the trees below it, and the trees after it. -/
inductive Forest (ι : Type)
  | nil
  | cons (i : ι) (below after : Forest ι)

namespace Forest

variable {ι : Type}

/-- The topmost nodes. -/
def roots : Forest ι → List ι
  | nil => []
  | cons i _ after => i :: after.roots

/-- All nodes, each behind those below it. -/
def postOrder : Forest ι → List ι
  | nil => []
  | cons i below after => below.postOrder ++ i :: after.postOrder

/-- The table links the nodes of the forest, the topmost ones below `p`. -/
def Fits (link : ι → Option (Option ι × List ι)) : (p : ι) → Forest ι → Prop
  | _, nil => True
  | p, cons i below after =>
    link i = some (some p, below.roots) ∧ Fits link i below ∧ Fits link p after

/-- Whether a forest fits depends on the links of its nodes. -/
theorem fits_congr {link link' : ι → Option (Option ι × List ι)} {p : ι} {f : Forest ι}
    (h : ∀ i ∈ f.postOrder, link' i = link i) (hf : f.Fits link p) : f.Fits link' p := by
  induction f generalizing p with
  | nil => trivial
  | cons i below after ihb iha =>
    obtain ⟨hi, hb, ha⟩ := hf
    refine ⟨?_, ihb ?_ hb, iha ?_ ha⟩
    · rw [h i (by simp [postOrder])]
      exact hi
    · exact fun j hj => h j (by simp [postOrder, hj])
    · exact fun j hj => h j (by simp [postOrder, hj])

/-- Every node of the forest is linked, and to one above it that is `p` or in the forest. -/
theorem Fits.linked {link : ι → Option (Option ι × List ι)} {p : ι} {f : Forest ι}
    (hf : f.Fits link p) {i : ι} (hi : i ∈ f.postOrder) :
    ∃ q below, link i = some (some q, below) ∧ (q = p ∨ q ∈ f.postOrder) := by
  induction f generalizing p with
  | nil => cases hi
  | cons j below after ihb iha =>
    obtain ⟨hj, hb, ha⟩ := hf
    simp only [postOrder, List.mem_append, List.mem_cons] at hi ⊢
    rcases hi with hi | rfl | hi
    · obtain ⟨q, kids, hq, hmem⟩ := ihb hb hi
      exact ⟨q, kids, hq, hmem.elim (fun h => .inr (.inr (.inl h))) (fun h => .inr (.inl h))⟩
    · exact ⟨p, below.roots, hj, .inl rfl⟩
    · obtain ⟨q, kids, hq, hmem⟩ := iha ha hi
      exact ⟨q, kids, hq, hmem.imp id (fun h => .inr (.inr h))⟩

/-- The topmost nodes are linked to the one above them. -/
theorem Fits.root {link : ι → Option (Option ι × List ι)} {p : ι} {f : Forest ι}
    (hf : f.Fits link p) {i : ι} (hi : i ∈ f.roots) : ∃ below, link i = some (some p, below) := by
  induction f with
  | nil => cases hi
  | cons j below after _ iha =>
    obtain ⟨hj, -, ha⟩ := hf
    rcases List.mem_cons.1 hi with rfl | hi
    · exact ⟨_, hj⟩
    · exact iha ha hi

/-- The pointers of the nodes, to the first one below, to the next one and to the one before: they
join the trees in their order, and `prev` stands before the first. -/
def Spliced (ptr : ι → Option (Option ι × Option ι × Option ι)) :
    (prev : Option ι) → Forest ι → Prop
  | _, nil => True
  | prev, cons i below after =>
    ptr i = some (below.roots.head?, after.roots.head?, prev) ∧ Spliced ptr none below ∧
      Spliced ptr (some i) after

/-- Whether a forest is spliced depends on the pointers of its nodes. -/
theorem spliced_congr {ptr ptr' : ι → Option (Option ι × Option ι × Option ι)} {prev : Option ι}
    {f : Forest ι} (h : ∀ i ∈ f.postOrder, ptr' i = ptr i) (hf : f.Spliced ptr prev) :
    f.Spliced ptr' prev := by
  induction f generalizing prev with
  | nil => trivial
  | cons i below after ihb iha =>
    obtain ⟨hi, hb, ha⟩ := hf
    refine ⟨?_, ihb ?_ hb, iha ?_ ha⟩
    · rw [h i (by simp [postOrder])]
      exact hi
    · exact fun j hj => h j (by simp [postOrder, hj])
    · exact fun j hj => h j (by simp [postOrder, hj])

/-- What stood before the first tree may change. -/
theorem Spliced.behead {ptr ptr' : ι → Option (Option ι × Option ι × Option ι)}
    {prev prev' : Option ι} {f : Forest ι} (hf : f.Spliced ptr prev) (hnd : f.postOrder.Nodup)
    (hsame : ∀ i ∈ f.postOrder, f.roots.head? ≠ some i → ptr' i = ptr i)
    (hhead : ∀ i first next, f.roots.head? = some i → ptr i = some (first, next, prev) →
      ptr' i = some (first, next, prev')) : f.Spliced ptr' prev' := by
  cases f with
  | nil => trivial
  | cons i below after =>
    obtain ⟨hi, hb, ha⟩ := hf
    obtain ⟨-, hnda, hdis⟩ := List.nodup_append.mp hnd
    refine ⟨hhead i _ _ rfl hi, spliced_congr (fun j hj => ?_) hb,
      spliced_congr (fun j hj => ?_) ha⟩
    · refine hsame j (by simp [postOrder, hj]) fun heq => ?_
      obtain rfl : i = j := Option.some.inj heq
      exact hdis i hj i (by simp) rfl
    · refine hsame j (by simp [postOrder, hj]) fun heq => ?_
      obtain rfl : i = j := Option.some.inj heq
      exact (List.nodup_cons.mp hnda).1 hj

/-- The roots are nodes of the forest. -/
theorem roots_mem_postOrder {f : Forest ι} {i : ι} (hi : i ∈ f.roots) : i ∈ f.postOrder := by
  induction f with
  | nil => cases hi
  | cons j below after _ iha =>
    simp only [roots, List.mem_cons, postOrder, List.mem_append] at hi ⊢
    exact hi.elim (fun h => .inr (.inl h)) (fun h => .inr (.inr (iha h)))

/-! ### From the links to the forest -/

section Links

variable {link : ι → Option (Option ι × List ι)} {deep : ι → Nat}

/-- The one above a node. -/
def Above (link : ι → Option (Option ι × List ι)) (i d : ι) : Prop :=
  ∃ kids, link i = some (some d, kids)

/-- A node is in one list. -/
theorem Above.unique {i d d' : ι} (h : Above link i d) (h' : Above link i d') : d = d' := by
  obtain ⟨kids, hi⟩ := h
  obtain ⟨kids', hi'⟩ := h'
  cases hi.symm.trans hi'
  rfl

/-- Those below a node point back to it, and a node is one deeper than the one above it. -/
structure Graded (link : ι → Option (Option ι × List ι)) (deep : ι → Nat) : Prop where
  down : ∀ {d q kids i}, link d = some (q, kids) → i ∈ kids → Above link i d
  deeper : ∀ {i d}, Above link i d → deep i = deep d + 1
  nodup : ∀ {d q kids}, link d = some (q, kids) → kids.Nodup

/-- What leads up to a node is no less deep. -/
theorem Graded.le_of_up (hg : Graded link deep) {i d : ι}
    (h : Relation.ReflTransGen (Above link) i d) : deep d ≤ deep i := by
  induction h with
  | refl => exact Nat.le_refl _
  | tail _ hstep ih =>
    have hdeep := hg.deeper hstep
    omega

/-- Of two ways up from a node that end equally deep, both end at the same node. -/
theorem Graded.eq_of_up (hg : Graded link deep) {i x y : ι}
    (hx : Relation.ReflTransGen (Above link) i x) (hy : Relation.ReflTransGen (Above link) i y)
    (hdeep : deep x = deep y) : x = y := by
  -- a way between two nodes that are equally deep is no step long
  have hnone : ∀ {x y : ι}, Relation.ReflTransGen (Above link) x y → deep x = deep y → x = y := by
    intro x y hxy heq
    obtain rfl | ⟨z, hstep, hrest⟩ := hxy.cases_head
    · rfl
    · have hfirst := hg.deeper hstep
      have hle := hg.le_of_up hrest
      omega
  have hunique : Relator.RightUnique (Above link) := fun _ _ _ h h' => h.unique h'
  obtain hxy | hyx := Relation.ReflTransGen.total_of_right_unique hunique hx hy
  · exact hnone hxy hdeep
  · exact (hnone hyx hdeep.symm).symm

/-- If no node is deeper than `deep p + k`, those below `p` make up a forest. -/
theorem Graded.exists_fits (hg : Graded link deep) {N : Nat}
    (hN : ∀ {i d}, Above link i d → deep i ≤ N) (k : Nat) {p : ι} {q : Option ι} {kids : List ι}
    (hp : link p = some (q, kids)) (hk : N ≤ deep p + k) :
    ∃ f : Forest ι, f.roots = kids ∧ f.Fits link p := by
  induction k generalizing p q kids with
  | zero =>
    have hnil : kids = [] := by
      refine List.eq_nil_iff_forall_not_mem.2 fun i hi => ?_
      have habove := hg.down hp hi
      have hdeep := hg.deeper habove
      have hle := hN habove
      omega
    exact ⟨nil, hnil.symm, trivial⟩
  | succ k ih =>
    have hlist : ∀ l : List ι, (∀ i ∈ l, i ∈ kids) → ∃ f : Forest ι,
        f.roots = l ∧ f.Fits link p := by
      intro l
      induction l with
      | nil => exact fun _ => ⟨nil, rfl, trivial⟩
      | cons i l ihl =>
        intro hl
        have habove := hg.down hp (hl i (List.mem_cons_self ..))
        have hdeep := hg.deeper habove
        obtain ⟨kids', hi⟩ := habove
        obtain ⟨below, rfl, hbelow⟩ := ih hi (by omega)
        obtain ⟨after, rfl, hafter⟩ := ihl fun j hj => hl j (List.mem_cons_of_mem _ hj)
        exact ⟨cons i below after, rfl, hi, hbelow, hafter⟩
    exact hlist kids fun _ hi => hi

/-- From every node of the forest a way leads up to one of the topmost. -/
theorem Fits.up {p : ι} {f : Forest ι} (hf : f.Fits link p) {i : ι} (hi : i ∈ f.postOrder) :
    ∃ r ∈ f.roots, Relation.ReflTransGen (Above link) i r := by
  induction f generalizing p with
  | nil => cases hi
  | cons j below after ihb iha =>
    obtain ⟨hj, hb, ha⟩ := hf
    simp only [postOrder, List.mem_append, List.mem_cons] at hi
    rcases hi with hi | rfl | hi
    · obtain ⟨r, hr, hup⟩ := ihb hb hi
      obtain ⟨kids, hlink⟩ := hb.root hr
      exact ⟨j, List.mem_cons_self .., hup.tail ⟨kids, hlink⟩⟩
    · exact ⟨i, List.mem_cons_self .., .refl⟩
    · obtain ⟨r, hr, hup⟩ := iha ha hi
      exact ⟨r, List.mem_cons_of_mem _ hr, hup⟩

/-- No node is in the forest twice. -/
theorem Fits.nodup {p : ι} {f : Forest ι} (hg : Graded link deep) (hf : f.Fits link p)
    (hroots : f.roots.Nodup) : f.postOrder.Nodup := by
  induction f generalizing p with
  | nil => exact List.nodup_nil
  | cons j below after ihb iha =>
    obtain ⟨hj, hb, ha⟩ := hf
    obtain ⟨hnot, hroots⟩ := List.nodup_cons.1 hroots
    -- what is above a node of the first tree is its root, and that one is not above the others
    have hdeep : ∀ {i}, i ∈ below.postOrder → deep j < deep i ∧
        Relation.ReflTransGen (Above link) i j := by
      intro i hi
      obtain ⟨r, hr, hup⟩ := hb.up hi
      obtain ⟨kids, hlink⟩ := hb.root hr
      have hle := hg.le_of_up hup
      have hdeep := hg.deeper ⟨kids, hlink⟩
      exact ⟨by omega, hup.tail ⟨kids, hlink⟩⟩
    have hother : ∀ {i}, i ∈ after.postOrder → ¬ Relation.ReflTransGen (Above link) i j := by
      intro i hi hup
      obtain ⟨r, hr, hup'⟩ := ha.up hi
      obtain ⟨kids, hlink⟩ := ha.root hr
      have heq := hg.eq_of_up hup hup'
        ((hg.deeper ⟨_, hj⟩).trans (hg.deeper ⟨kids, hlink⟩).symm)
      exact hnot (heq ▸ hr)
    refine List.nodup_append.2
      -- Three ways to be there twice: inside a tree, as its root, or in two trees.
      ⟨ihb hb (hg.nodup hj), List.nodup_cons.2 ⟨fun hi => ?_, iha ha hroots⟩, ?_⟩
    · exact hother hi .refl
    · rintro i hi _ hi' rfl
      rcases List.mem_cons.1 hi' with rfl | hi'
      · exact absurd (hdeep hi).1 (Nat.lt_irrefl _)
      · exact hother hi' (hdeep hi).2

/-- Where the lists below the nodes are strung, the forest is spliced. -/
theorem Fits.spliced {ptr : ι → Option (Option ι × Option ι × Option ι)} {next prev : ι → Option ι}
    (hptr : ∀ {i q kids}, link i = some (q, kids) →
      ptr i = some (kids.head?, next i, prev i) ∧ Strung next prev none kids)
    {p : ι} {q : Option ι} {f : Forest ι} (hf : f.Fits link p) (hs : Strung next prev q f.roots) :
    f.Spliced ptr q := by
  induction f generalizing p q with
  | nil => trivial
  | cons i below after ihb iha =>
    obtain ⟨hi, hb, ha⟩ := hf
    obtain ⟨hprev, hnext, hs⟩ := hs
    obtain ⟨hpi, hbelow⟩ := hptr hi
    refine ⟨?_, ihb hb hbelow, iha ha hs⟩
    rw [hpi, hnext, hprev]

end Links

end Forest

/-- Different numbers below a bound are no more than the bound. -/
theorem length_le_of_nodup_lt {l : List Nat} {b : Nat} (hnd : l.Nodup) (h : ∀ i ∈ l, i < b) :
    l.length ≤ b := by
  have hsub : l.toFinset ⊆ Finset.range b := by
    intro i hi
    exact Finset.mem_range.mpr (h i (List.mem_toFinset.mp hi))
  have hcard := Finset.card_le_card hsub
  rwa [List.toFinset_card_of_nodup hnd, Finset.card_range] at hcard

end ExFat
