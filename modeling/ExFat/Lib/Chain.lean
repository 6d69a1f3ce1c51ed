import Mathlib.Data.List.Iterate
import Mathlib.Data.List.Nodup
import Mathlib.Tactic.Common

namespace ExFat.Chain

/-!
# Chains of a successor function

A linked list is a successor function `f` and a first element `a`; its first `n` members are
`List.iterate f a n`.  `Follows f a L` says that `L` is such a list of members.  The lemmas say
when a chain survives a change of the successor function, how a chain grows by one member, and how
it is cut.
-/

variable {α : Type*}

/-- `L` lists the members met from `a` on by following `f`. -/
def Follows (f : α → α) : α → List α → Prop
  | _, [] => True
  | a, x :: xs => x = a ∧ Follows f (f a) xs

instance decidableFollows [DecidableEq α] (f : α → α) : (a : α) → (L : List α) →
    Decidable (Follows f a L)
  | _, [] => .isTrue trivial
  | a, x :: xs =>
    have := decidableFollows f (f a) xs
    inferInstanceAs (Decidable (x = a ∧ Follows f (f a) xs))

@[simp] theorem follows_nil (f : α → α) (a : α) : Follows f a [] := trivial

@[simp] theorem follows_cons {f : α → α} {a x : α} {xs : List α} :
    Follows f a (x :: xs) ↔ x = a ∧ Follows f (f a) xs := Iff.rfl

/-- A list that follows a function is its iterates. -/
theorem Follows.eq_iterate {f : α → α} {a : α} {L : List α} (h : Follows f a L) :
    L = List.iterate f a L.length := by
  induction L generalizing a with
  | nil => rfl
  | cons x xs ih =>
    obtain ⟨rfl, h⟩ := h
    rw [List.length_cons, List.iterate, ← ih h]

/-- Two chains from one element with one successor function differ in length only. -/
theorem Follows.ext {f : α → α} {a : α} {L M : List α} (hL : Follows f a L) (hM : Follows f a M)
    (hlen : L.length = M.length) : L = M := by
  rw [hL.eq_iterate, hM.eq_iterate, hlen]

/-- The elements of a list that follows a function are its iterates. -/
theorem Follows.getElem {f : α → α} {a : α} {L : List α} (h : Follows f a L) {i : Nat}
    (hi : i < L.length) : L[i] = f^[i] a := by
  have := h.eq_iterate
  rw [List.getElem_of_eq this hi, List.getElem_iterate]

/-- The successor of a member that is not the last is the next member. -/
theorem Follows.succ_getElem {f : α → α} {a : α} {L : List α} (h : Follows f a L) {i : Nat}
    (hi : i + 1 < L.length) : f L[i] = L[i + 1] := by
  rw [h.getElem hi, h.getElem (by omega), Function.iterate_succ_apply']

/-- A list follows a function when its parts do, the second from where the first ends. -/
theorem follows_append {f : α → α} {a : α} {L M : List α} :
    Follows f a (L ++ M) ↔ Follows f a L ∧ Follows f (f^[L.length] a) M := by
  induction L generalizing a with
  | nil => simp
  | cons x xs ih =>
    simp only [List.cons_append, follows_cons, ih, List.length_cons, Function.iterate_succ_apply,
      and_assoc]

/-- A chain survives a change of the successor function at elements that are not its members
before the last. -/
theorem Follows.congr {f g : α → α} {a : α} {L : List α} (h : Follows f a L)
    (hfg : ∀ x ∈ L.dropLast, f x = g x) : Follows g a L := by
  induction L generalizing a with
  | nil => trivial
  | cons x xs ih =>
    obtain ⟨rfl, h⟩ := h
    refine ⟨rfl, ?_⟩
    cases xs with
    | nil => trivial
    | cons y ys =>
      have hx : f x = g x := hfg x (by simp [List.dropLast])
      rw [← hx]
      apply ih h
      intro z hz
      exact hfg z (by simp [List.dropLast, hz])

/-- Only the values of the function on the list matter. -/
theorem Follows.congr_of_mem {f g : α → α} {a : α} {L : List α} (h : Follows f a L)
    (hfg : ∀ x ∈ L, f x = g x) : Follows g a L :=
  h.congr fun x hx => hfg x (List.dropLast_subset L hx)

/-- Linking a new member after the last one makes the chain one longer. -/
theorem Follows.snoc {f g : α → α} {a b c : α} {L : List α} (h : Follows f a (L ++ [b]))
    (hfg : ∀ x ∈ L, f x = g x) (hc : g b = c) : Follows g a (L ++ [b] ++ [c]) := by
  have hg : Follows g a (L ++ [b]) := h.congr (by simpa using hfg)
  rw [follows_append]
  refine ⟨hg, ?_, trivial⟩
  have hb : b = g^[L.length] a := by
    have := hg.getElem (i := L.length) (by simp)
    simpa using this
  rw [List.length_append, List.length_singleton, Function.iterate_succ_apply', ← hb, hc]

/-- Consecutive numbers are the chain of the successor function. -/
theorem follows_range' (a n : Nat) : Follows (· + 1) a (List.range' a n) := by
  induction n generalizing a with
  | zero => trivial
  | succ n ih =>
    rw [List.range'_succ]
    exact ⟨rfl, ih (a + 1)⟩

/-- A chain of consecutive numbers that ends in `e`. -/
theorem follows_run {f : Nat → Nat} {a n e : Nat} (hlink : ∀ i, i + 1 < n → f (a + i) = a + i + 1)
    (hend : ∀ i, i + 1 = n → f (a + i) = e) (hn : 0 < n) :
    Follows f a (List.range' a n ++ [e]) := by
  induction n generalizing a with
  | zero => exact absurd hn (Nat.lt_irrefl 0)
  | succ n ih =>
    rw [List.range'_succ]
    refine ⟨rfl, ?_⟩
    cases n with
    | zero => exact ⟨(hend 0 rfl).symm, trivial⟩
    | succ n =>
      have hfirst := hlink 0 (by omega)
      rw [Nat.add_zero] at hfirst
      rw [hfirst]
      refine ih ?_ ?_ (by omega)
      · intro i hi
        rw [Nat.add_right_comm, Nat.add_assoc, hlink (i + 1) (by omega)]
      · intro i hi
        rw [Nat.add_right_comm, Nat.add_assoc]
        exact hend (i + 1) (by omega)

end ExFat.Chain
