import Mathlib.Data.List.Nodup
import Mathlib.Data.List.Range

namespace ExFat

/-!
# Lists strung on two pointers

The nodes of a doubly linked list each know the one behind them and the one before them.  `Strung`
says that the pointers of a table string the nodes of a list in their order; the rules below put a
node in front, take one out, and follow the pointers both ways.
-/

variable {ι : Type} {next prev next' prev' : ι → Option ι} {p : Option ι} {l : List ι}

/-- The nodes are strung in the order of the list, the first of them behind `p`. -/
def Strung (next prev : ι → Option ι) : (p : Option ι) → List ι → Prop
  | _, [] => True
  | p, x :: l => prev x = p ∧ next x = l.head? ∧ Strung next prev (some x) l

namespace Strung

/-- Only the pointers of the nodes in the list matter. -/
theorem congr (h : Strung next prev p l) (hn : ∀ x ∈ l, next' x = next x)
    (hp : ∀ x ∈ l, prev' x = prev x) : Strung next' prev' p l := by
  induction l generalizing p with
  | nil => trivial
  | cons x l ih =>
    refine ⟨(hp x (List.mem_cons_self ..)).trans h.1, (hn x (List.mem_cons_self ..)).trans h.2.1,
      ?_⟩
    exact ih h.2.2 (fun y hy => hn y (List.mem_cons_of_mem _ hy))
      fun y hy => hp y (List.mem_cons_of_mem _ hy)

/-- Behind a node of the list comes another one, which points back. -/
theorem of_next (h : Strung next prev p l) {x y : ι} (hx : x ∈ l) (hy : next x = some y) :
    y ∈ l ∧ prev y = some x := by
  induction l generalizing p with
  | nil => cases hx
  | cons a l ih =>
    obtain ⟨-, hnext, hrest⟩ := h
    rcases List.mem_cons.1 hx with rfl | hx
    · cases l with
      | nil =>
        rw [hnext] at hy
        cases hy
      | cons b l =>
        rw [hnext] at hy
        cases hy
        exact ⟨by simp, hrest.1⟩
    · obtain ⟨hmem, hprev⟩ := ih hrest hx
      exact ⟨List.mem_cons_of_mem _ hmem, hprev⟩

/-- Before a node of the list stands another one, which points to it, or `p`. -/
theorem of_prev (h : Strung next prev p l) {x y : ι} (hy : y ∈ l) (hx : prev y = some x) :
    (x ∈ l ∧ next x = some y) ∨ (p = some x ∧ l.head? = some y) := by
  induction l generalizing p with
  | nil => cases hy
  | cons a l ih =>
    obtain ⟨hprev, hnext, hrest⟩ := h
    rcases List.mem_cons.1 hy with rfl | hy
    · exact .inr ⟨hprev.symm.trans hx, rfl⟩
    · obtain ⟨hmem, hto⟩ | ⟨ha, hhead⟩ := ih hrest hy
      · exact .inl ⟨List.mem_cons_of_mem _ hmem, hto⟩
      · cases ha
        exact .inl ⟨List.mem_cons_self .., hnext.trans hhead⟩

/-- A node comes to stand before the first one. -/
theorem cons (h : Strung next prev none l) (hnd : l.Nodup) {x : ι} (hnext : next' x = l.head?)
    (hprev : prev' x = none) (hn : ∀ y ∈ l, next' y = next y)
    (hfirst : ∀ y, l.head? = some y → prev' y = some x)
    (hp : ∀ y ∈ l, l.head? ≠ some y → prev' y = prev y) : Strung next' prev' none (x :: l) := by
  refine ⟨hprev, hnext, ?_⟩
  cases l with
  | nil => trivial
  | cons y l =>
    obtain ⟨-, hny, hrest⟩ := h
    obtain ⟨hy, -⟩ := List.nodup_cons.1 hnd
    refine ⟨hfirst y rfl, (hn y (List.mem_cons_self ..)).trans hny, hrest.congr ?_ ?_⟩
    · exact fun z hz => hn z (List.mem_cons_of_mem _ hz)
    · intro z hz
      refine hp z (List.mem_cons_of_mem _ hz) ?_
      rintro ⟨⟩
      exact hy hz

/-- Before a node of the list that is not the first one stands another one. -/
theorem prev_isSome (h : Strung next prev p l) {x : ι} (hx : x ∈ l) (hp : p.isSome = true) :
    (prev x).isSome = true := by
  induction l generalizing p with
  | nil => cases hx
  | cons a l ih =>
    obtain ⟨hprev, -, hrest⟩ := h
    rcases List.mem_cons.1 hx with rfl | hx
    · rw [hprev]
      exact hp
    · exact ih hrest hx rfl

/-- What is left begins with the first node, or with the one behind it. -/
theorem head_erase [DecidableEq ι] (h : Strung next prev none l) {x : ι} (hx : x ∈ l) :
    (l.erase x).head? = if prev x = none then next x else l.head? := by
  cases l with
  | nil => cases hx
  | cons a l =>
    obtain ⟨hprev, hnext, hrest⟩ := h
    by_cases hax : a = x
    · subst hax
      rw [List.erase_cons_head, if_pos hprev, hnext]
    · have hxl : x ∈ l := (List.mem_cons.1 hx).resolve_left fun he => hax he.symm
      have hsome := hrest.prev_isSome hxl rfl
      rw [List.erase_cons_tail (by simpa using hax), if_neg (Option.isSome_iff_ne_none.1 hsome)]
      rfl

/-- A node is taken out: its neighbours point to each other. -/
theorem erase [DecidableEq ι] (h : Strung next prev p l) (hnd : l.Nodup) {x : ι} (hx : x ∈ l)
    (hout : ∀ q, p = some q → q ∉ l)
    (hn : ∀ y ∈ l, y ≠ x → next' y = if prev x = some y then next x else next y)
    (hp : ∀ y ∈ l, y ≠ x → prev' y = if next x = some y then prev x else prev y) :
    Strung next' prev' p (l.erase x) := by
  induction l generalizing p with
  | nil => cases hx
  | cons a l ih =>
    obtain ⟨hprev, hnext, hrest⟩ := h
    obtain ⟨ha, hnd⟩ := List.nodup_cons.1 hnd
    by_cases hax : a = x
    -- The first node is taken out: the second one becomes the first, behind `p`.
    · subst hax
      rw [List.erase_cons_head]
      cases l with
      | nil => trivial
      | cons b l =>
        obtain ⟨-, hnb, hrest⟩ := hrest
        obtain ⟨hb, -⟩ := List.nodup_cons.1 hnd
        -- the neighbour before `a` is not in the list
        have hold : ∀ y ∈ b :: l, next' y = next y := by
          intro y hy
          have hne : y ≠ a := fun he => ha (he ▸ hy)
          rw [hn y (List.mem_cons_of_mem _ hy) hne, if_neg]
          exact fun hq => hout y (hprev.symm.trans hq) (List.mem_cons_of_mem _ hy)
        have hba : b ≠ a := fun he => ha (he ▸ List.mem_cons_self ..)
        refine ⟨?_, (hold b (List.mem_cons_self ..)).trans hnb, ?_⟩
        · rw [hp b (by simp) hba, if_pos (show next a = some b from hnext), hprev]
        · refine hrest.congr (fun y hy => hold y (List.mem_cons_of_mem _ hy)) fun y hy => ?_
          have hne : y ≠ a := fun he => ha (he ▸ List.mem_cons_of_mem _ hy)
          rw [hp y (List.mem_cons_of_mem _ (List.mem_cons_of_mem _ hy)) hne, if_neg]
          rw [hnext]
          rintro ⟨⟩
          exact hb hy
    -- A later node is taken out: the first one stays, and so does its pointer back.
    · have hxl : x ∈ l := (List.mem_cons.1 hx).resolve_left fun he => hax he.symm
      have hbehindA : next x ≠ some a := fun hq => ha (hrest.of_next hxl hq).1
      rw [List.erase_cons_tail (by simpa using hax)]
      refine ⟨?_, ?_, ?_⟩
      · rw [hp a (List.mem_cons_self ..) hax, if_neg hbehindA, hprev]
      -- The pointer of `a` changes exactly when `x` is its neighbour.
      · cases l with
        | nil => cases hxl
        | cons b l =>
          by_cases hbx : b = x
          · subst hbx
            rw [List.erase_cons_head, hn a (List.mem_cons_self ..) hax, if_pos hrest.1]
            exact hrest.2.1
          · have hbeforeA : prev x ≠ some a := by
              intro hq
              obtain ⟨hmem, -⟩ | ⟨-, hhead⟩ := hrest.of_prev hxl hq
              · exact ha hmem
              · exact hbx (Option.some.inj hhead)
            rw [List.erase_cons_tail (by simpa using hbx), List.head?_cons,
              hn a (List.mem_cons_self ..) hax, if_neg hbeforeA]
            exact hnext
      · refine ih hrest hnd hxl ?_ (fun y hy => hn y (List.mem_cons_of_mem _ hy))
          fun y hy => hp y (List.mem_cons_of_mem _ hy)
        rintro q ⟨⟩
        exact ha

end Strung

/-- Numbers strung in their order. -/
theorem strung_range' {next prev : Nat → Option Nat} {a n : Nat} {p : Option Nat}
    (hn : ∀ j, j < n → next (a + j) = if j + 1 < n then some (a + j + 1) else none)
    (hp : ∀ j, j < n → prev (a + j) = if j = 0 then p else some (a + j - 1)) :
    Strung next prev p (List.range' a n) := by
  induction n generalizing a p with
  | zero => trivial
  | succ n ih =>
    rw [List.range'_succ]
    refine ⟨hp 0 (Nat.succ_pos n), ?_, ih (fun j hj => ?_) fun j hj => ?_⟩
    · rw [show a = a + 0 from rfl, hn 0 (Nat.succ_pos n)]
      cases n with
      | zero => rfl
      | succ n => simp [List.range'_succ]
    · have hstep := hn (j + 1) (by omega)
      rw [show a + (j + 1) = a + 1 + j by omega] at hstep
      rw [hstep]
      simp only [Nat.add_lt_add_iff_right]
    · have hstep := hp (j + 1) (by omega)
      rw [show a + (j + 1) = a + 1 + j by omega, if_neg (by omega)] at hstep
      rw [hstep]
      split
      next hj0 => rw [hj0]; rfl
      next hj0 => exact congrArg some (by omega)

end ExFat
