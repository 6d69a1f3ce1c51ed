import Mathlib.Data.List.Nodup
import Mathlib.Data.List.Count

namespace ExFat

/-!
# Tables of allocated objects

A `Table` holds the objects of one kind that are in memory, each under its address.  Addresses are
handed out in increasing order, so that no address is used twice; that they are pairwise different
is part of the structure.
-/

/-- The live objects and the address the next one gets. -/
structure Table (α : Type) where
  entries : List (Nat × α)
  next : Nat
  nodup : (entries.map Prod.fst).Nodup
  below : ∀ e ∈ entries, e.1 < next

namespace Table

variable {α : Type} (t : Table α) {k : Nat} {a : α}

/-- No objects; addresses start at 1, since 0 is the null pointer. -/
def empty : Table α where
  entries := []
  next := 1
  nodup := List.nodup_nil
  below := nofun

/-- The addresses of the live objects, the latest first. -/
def keys : List Nat := t.entries.map Prod.fst

/-- The object at an address. -/
def get? (k : Nat) : Option α := (t.entries.find? fun e => e.1 == k).map Prod.snd

/-- The number of live objects. -/
def size : Nat := t.entries.length

/-- The number of live objects with a property. -/
def count (p : α → Bool) : Nat := t.entries.countP fun e => p e.2

/-- A new object, at the address `next`. -/
def insert (a : α) : Table α where
  entries := (t.next, a) :: t.entries
  next := t.next + 1
  nodup := by
    rw [List.map_cons, List.nodup_cons]
    refine ⟨fun hmem => ?_, t.nodup⟩
    obtain ⟨e, he, hk⟩ := List.mem_map.1 hmem
    exact absurd (t.below e he) (by omega)
  below := by
    intro e he
    rcases List.mem_cons.1 he with rfl | he
    · exact Nat.lt_succ_self _
    · exact Nat.lt_succ_of_lt (t.below e he)

/-- Assign to all objects, each knowing its address. -/
def map (f : Nat → α → α) : Table α where
  entries := t.entries.map fun e => (e.1, f e.1 e.2)
  next := t.next
  nodup := by
    rw [List.map_map]
    exact t.nodup
  below := by
    intro e he
    obtain ⟨e', he', rfl⟩ := List.mem_map.1 he
    exact t.below e' he'

/-- Assign to the object at an address. -/
def update (k : Nat) (f : α → α) : Table α := t.map fun k' a => if k' = k then f a else a

/-- Free the object at an address. -/
def erase (k : Nat) : Table α where
  entries := t.entries.filter fun e => e.1 != k
  next := t.next
  nodup := t.nodup.sublist (List.filter_sublist.map _)
  below := fun e he => t.below e (List.mem_of_mem_filter he)

/-! ### What the operations do -/

/-- An element that is found is an entry. -/
theorem mem_of_get? (h : t.get? k = some a) : (k, a) ∈ t.entries := by
  unfold get? at h
  obtain ⟨e, he, rfl⟩ := Option.map_eq_some_iff.1 h
  have hk : e.1 = k := by simpa using List.find?_some he
  rw [← hk]
  exact List.mem_of_find?_eq_some he

/-- The key of an element that is found is a key. -/
theorem mem_keys_of_get? (h : t.get? k = some a) : k ∈ t.keys :=
  List.mem_map.2 ⟨_, t.mem_of_get? h, rfl⟩

@[simp] theorem keys_empty : (empty : Table α).keys = [] := rfl

@[simp] theorem keys_insert (a : α) : (t.insert a).keys = t.next :: t.keys := rfl

@[simp] theorem keys_map (f : Nat → α → α) : (t.map f).keys = t.keys := by
  unfold keys map
  rw [List.map_map]
  rfl

@[simp] theorem keys_update (f : α → α) : (t.update k f).keys = t.keys := t.keys_map _

/-- One key less. -/
theorem keys_erase : (t.erase k).keys = t.keys.erase k := by
  unfold keys erase
  rw [t.nodup.erase_eq_filter, List.filter_map]
  rfl

/-- There are as many keys as elements. -/
theorem length_keys : t.keys.length = t.size := List.length_map ..

@[simp] theorem size_empty : (empty : Table α).size = 0 := rfl

@[simp] theorem size_insert (a : α) : (t.insert a).size = t.size + 1 := rfl

@[simp] theorem size_map (f : Nat → α → α) : (t.map f).size = t.size := List.length_map ..

@[simp] theorem size_update (f : α → α) : (t.update k f).size = t.size := t.size_map _

@[simp] theorem count_empty (p : α → Bool) : (empty : Table α).count p = 0 := rfl

/-- A new element is counted if it has the property. -/
theorem count_insert (p : α → Bool) (a : α) :
    (t.insert a).count p = t.count p + if p a then 1 else 0 :=
  List.countP_cons ..

/-- Counting after a change that leaves the property alone. -/
theorem count_map (p : α → Bool) {f : Nat → α → α} (h : ∀ k a, p (f k a) = p a) :
    (t.map f).count p = t.count p := by
  unfold count map
  rw [List.countP_map]
  exact List.countP_congr fun e _ => by simp [h]

/-- Counting after a change that leaves the property alone. -/
theorem count_update (p : α → Bool) {f : α → α} (h : ∀ a, p (f a) = p a) :
    (t.update k f).count p = t.count p :=
  t.count_map p fun k' a => by
    by_cases hk : k' = k
    · rw [if_pos hk, h]
    · rw [if_neg hk]

/-- Counting everything. -/
theorem count_true : (t.count fun _ => true) = t.size := by
  unfold count size
  rw [List.countP_eq_length]
  simp

/-- Freeing an object takes it out of the count. -/
theorem count_erase (p : α → Bool) (h : t.get? k = some a) :
    (t.erase k).count p + (if p a then 1 else 0) = t.count p := by
  have hmem := t.mem_of_get? h
  obtain ⟨l, r, hsplit⟩ := List.append_of_mem hmem
  have hnodup := t.nodup
  rw [hsplit, List.map_append, List.map_cons, List.nodup_append] at hnodup
  obtain ⟨-, hr, hlr⟩ := hnodup
  rw [List.nodup_cons] at hr
  have hl : ∀ e ∈ l, (e.1 != k) = true := fun e he =>
    bne_iff_ne.2 (hlr _ (List.mem_map_of_mem he) _ (List.mem_cons_self ..))
  have hr' : ∀ e ∈ r, (e.1 != k) = true := fun e he =>
    bne_iff_ne.2 fun hk => hr.1 (List.mem_map.2 ⟨e, he, hk⟩)
  unfold count erase
  simp only [hsplit]
  rw [List.filter_append, List.filter_cons_of_neg (by simp), List.filter_eq_self.2 hl,
    List.filter_eq_self.2 hr', List.countP_append, List.countP_append, List.countP_cons]
  exact Nat.add_assoc ..

/-- One element less. -/
theorem size_erase (h : t.get? k = some a) : (t.erase k).size + 1 = t.size := by
  have hcount := t.count_erase (fun _ => true) h
  rwa [count_true, count_true, if_pos rfl] at hcount

/-- Nothing is found in an empty table. -/
theorem get?_eq_none_of_size (h : t.size = 0) : t.get? k = none := by
  have hnil : t.entries = [] := List.length_eq_zero_iff.1 h
  unfold get?
  rw [hnil]
  rfl

/-- An element after a change. -/
theorem get?_map (f : Nat → α → α) : (t.map f).get? k = (t.get? k).map (f k) := by
  show ((t.entries.map fun e => (e.1, f e.1 e.2)).find? fun e => e.1 == k).map Prod.snd =
    ((t.entries.find? fun e => e.1 == k).map Prod.snd).map (f k)
  induction t.entries with
  | nil => rfl
  | cons e es ih =>
    rw [List.map_cons]
    by_cases hk : e.1 = k
    · rw [List.find?_cons_of_pos (by simpa using hk), List.find?_cons_of_pos (by simpa using hk)]
      simp [hk]
    · rw [List.find?_cons_of_neg (by simpa using hk), List.find?_cons_of_neg (by simpa using hk)]
      exact ih

/-- The old elements are found after an insertion. -/
theorem get?_insert (a : α) (hk : k < t.next) : (t.insert a).get? k = t.get? k := by
  unfold get? insert
  rw [List.find?_cons_of_neg]
  simp only [beq_iff_eq]
  omega

/-- An object after one more has been made. -/
theorem of_get?_insert {b : α} (h : (t.insert b).get? k = some a) : t.get? k = some a ∨ a = b := by
  by_cases hk : k < t.next
  · exact .inl ((t.get?_insert _ hk).symm.trans h)
  · rcases List.mem_cons.1 ((t.insert b).mem_of_get? h) with heq | hold
    · exact .inr (Prod.mk.inj heq).2
    · exact absurd (t.below _ hold) hk

/-- An object after one has been assigned to. -/
theorem of_get?_update {k' : Nat} {f : α → α} (h : (t.update k' f).get? k = some a) :
    (k = k' ∧ ∃ b, t.get? k' = some b ∧ a = f b) ∨ k ≠ k' ∧ t.get? k = some a := by
  have hold : ((t.get? k).map fun b => if k = k' then f b else b) = some a :=
    (t.get?_map _).symm.trans h
  obtain ⟨b, hb, rfl⟩ := Option.map_eq_some_iff.1 hold
  by_cases hk : k = k'
  · subst hk
    exact .inl ⟨rfl, b, hb, if_pos rfl⟩
  · rw [if_neg hk]
    exact .inr ⟨hk, hb⟩

/-- An object that is left after another has been freed. -/
theorem get?_of_erase {k' : Nat} (h : (t.erase k').get? k = some a) : t.get? k = some a := by
  have hmem := (t.erase k').mem_of_get? h
  have hold : (k, a) ∈ t.entries := List.mem_of_mem_filter hmem
  obtain ⟨e, he⟩ : ∃ e, t.entries.find? (fun e => e.1 == k) = some e := by
    rw [← Option.isSome_iff_exists, List.find?_isSome]
    exact ⟨_, hold, beq_self_eq_true k⟩
  have hk : e.1 = k := by simpa using List.find?_some he
  have heq : e = (k, a) := by
    refine List.inj_on_of_nodup_map t.nodup (List.mem_of_find?_eq_some he) hold ?_
    exact hk
  unfold get?
  rw [he, heq]
  rfl

/-- The other elements are found after an erasure. -/
theorem get?_erase_of_ne {k' : Nat} (h : k ≠ k') : (t.erase k').get? k = t.get? k := by
  unfold get? erase
  dsimp only
  rw [List.find?_filter]
  congr 2
  funext e
  by_cases he : e.1 = k
  · simp [he, h]
  · simp [he]

/-- The keys are below the next one. -/
theorem lt_next (h : t.get? k = some a) : k < t.next := t.below _ (t.mem_of_get? h)

end Table

end ExFat
