import Mathlib.Order.Defs.Unbundled
import Mathlib.Tactic.Common

namespace ExFat.Program

/-!
# Programs with state and a way to stop

A program is `EStateM ε σ α`: it returns a value in a new state, or it stops with an `ε`, and then
the state it stopped in is still there to be looked at.  `wp m Q E s` says that `m`, started in
`s`, ends in `Q` when it returns and in `E` when it stops, so total and partial correctness are the
two choices `fun _ _ => False` and `fun _ _ => True` of `E`.

The rules below take a program apart along its binds; `wp_mono` and `wp_conseq` let a proof use the
specification of a callee in place of its body.
-/

variable {ε σ α β : Type}

/-- What has to hold in `s` for `m` to end in `Q`, or in `E` if it stops. -/
def wp (m : EStateM ε σ α) (Q : α → σ → Prop) (E : ε → σ → Prop) (s : σ) : Prop :=
  match m s with
  | .ok a s' => Q a s'
  | .error e s' => E e s'

/-- The condition for stopping that no stop meets: with it `wp` is total correctness. -/
def never : ε → σ → Prop := fun _ _ => False

/-- The condition for stopping that every stop meets: with it `wp` is partial correctness. -/
def anyStop : ε → σ → Prop := fun _ _ => True

/-- What a program that returns establishes. -/
theorem wp_of_ok {m : EStateM ε σ α} {Q : α → σ → Prop} {E : ε → σ → Prop} {s s' : σ} {a : α}
    (h : m s = .ok a s') (hQ : Q a s') : wp m Q E s := by
  unfold wp
  rw [h]
  exact hQ

/-- What a program that stops establishes. -/
theorem wp_of_error {m : EStateM ε σ α} {Q : α → σ → Prop} {E : ε → σ → Prop} {s s' : σ} {e : ε}
    (h : m s = .error e s') (hE : E e s') : wp m Q E s := by
  unfold wp
  rw [h]
  exact hE

/-- A run that goes on as another one. -/
theorem wp_of_eq {m m' : EStateM ε σ α} {Q : α → σ → Prop} {E : ε → σ → Prop} {s s' : σ}
    (h : m s = m' s') (hw : wp m' Q E s') : wp m Q E s := by
  unfold wp at *
  rw [h]
  exact hw

/-- Total correctness is a run that returns. -/
theorem wp_never_iff {m : EStateM ε σ α} {Q : α → σ → Prop} {s : σ} :
    wp m Q never s ↔ ∃ a s', m s = .ok a s' ∧ Q a s' := by
  unfold wp never
  cases h : m s with
  | ok a s' =>
    constructor
    · intro hQ
      exact ⟨a, s', rfl, hQ⟩
    · rintro ⟨a', s'', heq, hQ⟩
      cases heq
      exact hQ
  | error e s' =>
    constructor
    · exact False.elim
    · rintro ⟨a', s'', heq, _⟩
      cases heq

/-- Partial correctness speaks of the runs that return. -/
theorem wp_anyStop_iff {m : EStateM ε σ α} {Q : α → σ → Prop} {s : σ} :
    wp m Q anyStop s ↔ ∀ a s', m s = .ok a s' → Q a s' := by
  unfold wp anyStop
  cases h : m s with
  | ok a s' =>
    constructor
    · rintro hQ a' s'' heq
      cases heq
      exact hQ
    · intro hall
      exact hall a s' rfl
  | error e s' =>
    constructor
    · rintro _ a' s'' heq
      cases heq
    · intro _
      trivial

/-- What is established may be weakened. -/
theorem wp_mono {m : EStateM ε σ α} {Q Q' : α → σ → Prop} {E E' : ε → σ → Prop} {s : σ}
    (h : wp m Q E s) (hQ : ∀ a s', Q a s' → Q' a s') (hE : ∀ e s', E e s' → E' e s') :
    wp m Q' E' s := by
  unfold wp at h ⊢
  cases hm : m s with
  | ok a s' =>
    rw [hm] at h
    exact hQ a s' h
  | error e s' =>
    rw [hm] at h
    exact hE e s' h

/-- The form of `wp_mono` for a proof that keeps its stop condition. -/
theorem wp_conseq {m : EStateM ε σ α} {Q Q' : α → σ → Prop} {E : ε → σ → Prop} {s : σ}
    (h : wp m Q E s) (hQ : ∀ a s', Q a s' → Q' a s') : wp m Q' E s :=
  wp_mono h hQ (fun _ _ he => he)

/-- A total specification can be used whatever the stop condition is. -/
theorem wp_of_total {m : EStateM ε σ α} {Q Q' : α → σ → Prop} {E : ε → σ → Prop} {s : σ}
    (h : wp m Q never s) (hQ : ∀ a s', Q a s' → Q' a s') : wp m Q' E s :=
  wp_mono h hQ (fun _ _ he => he.elim)

/-- What holds of every state holds at the end. -/
theorem wp_of_forall {m : EStateM ε σ α} {Q : α → σ → Prop} {E : ε → σ → Prop} {s : σ}
    (hQ : ∀ a s', Q a s') (hE : ∀ e s', E e s') : wp m Q E s := by
  unfold wp
  cases m s with
  | ok a s' => exact hQ a s'
  | error e s' => exact hE e s'

/-- Two specifications of one program. -/
theorem wp_and {m : EStateM ε σ α} {Q Q' : α → σ → Prop} {E E' : ε → σ → Prop} {s : σ}
    (h : wp m Q E s) (h' : wp m Q' E' s) :
    wp m (fun a s' => Q a s' ∧ Q' a s') (fun e s' => E e s' ∧ E' e s') s := by
  unfold wp at *
  cases hm : m s with
  | ok a s' =>
    rw [hm] at h h'
    exact ⟨h, h'⟩
  | error e s' =>
    rw [hm] at h h'
    exact ⟨h, h'⟩

/-- What holds at the end holds of the state the run returns. -/
theorem wp_run {m : EStateM ε σ α} {Q : α → σ → Prop} {E : ε → σ → Prop} {s : σ} (h : wp m Q E s) :
    wp m (fun a s' => m s = .ok a s' ∧ Q a s') E s := by
  unfold wp at h ⊢
  cases hm : m s with
  | ok a s' =>
    rw [hm] at h
    exact ⟨rfl, h⟩
  | error e s' =>
    rw [hm] at h
    exact h

/-- The state a run ends in, whether it returns or stops. -/
def finalState : EStateM.Result ε σ α → σ
  | .ok _ s => s
  | .error _ s => s

/-- What holds however a program ends holds of its last state. -/
theorem finalState_of_wp {m : EStateM ε σ α} {P : σ → Prop} {s : σ}
    (h : wp m (fun _ s' => P s') (fun _ s' => P s') s) : P (finalState (m s)) := by
  unfold wp at h
  cases hm : m s with
  | ok a s' =>
    rw [hm] at h
    exact h
  | error e s' =>
    rw [hm] at h
    exact h

/-! ### Looking at the end of a run that can be computed -/

/-- How a run stops, if it does. -/
def haltOf : EStateM.Result ε σ α → Option ε
  | .ok _ _ => none
  | .error e _ => some e

/-- A program with a halt has stopped. -/
theorem of_haltOf {r : EStateM.Result ε σ α} {e : ε} (h : haltOf r = some e) :
    ∃ s, r = .error e s := by
  cases r with
  | ok a s => cases h
  | error e' s =>
    cases h
    exact ⟨s, rfl⟩

/-- What a run returns, if it does. -/
def valueOf : EStateM.Result ε σ α → Option α
  | .ok a _ => some a
  | .error _ _ => none

/-- A program with a value has returned it. -/
theorem eq_of_valueOf {r : EStateM.Result ε σ α} {a : α} (h : valueOf r = some a) :
    r = .ok a (finalState r) := by
  cases r with
  | ok a' s =>
    cases h
    rfl
  | error e s => cases h

/-- A run returns, in a state that passes a test. -/
def endsWith (p : σ → Bool) : EStateM.Result ε σ α → Bool
  | .ok _ s => p s
  | .error _ _ => false

/-- A program that ends in a state with a property has returned. -/
theorem of_endsWith {p : σ → Bool} {r : EStateM.Result ε σ α} (h : endsWith p r = true) :
    ∃ a s, r = .ok a s ∧ p s = true := by
  cases r with
  | ok a s => exact ⟨a, s, rfl, h⟩
  | error e s => cases h

/-- A run returns, and what it returns passes a test together with the state. -/
def returns (p : α → σ → Bool) : EStateM.Result ε σ α → Bool
  | .ok a s => p a s
  | .error _ _ => false

/-- A program that returns with a property has returned. -/
theorem of_returns {p : α → σ → Bool} {r : EStateM.Result ε σ α} (h : returns p r = true) :
    ∃ a s, r = .ok a s ∧ p a s = true := by
  cases r with
  | ok a s => exact ⟨a, s, rfl, h⟩
  | error e s => cases h

/-! ### One rule per construct -/

/-- Returning a value. -/
@[simp] theorem wp_pure {Q : α → σ → Prop} {E : ε → σ → Prop} {s : σ} (a : α) :
    wp (pure a : EStateM ε σ α) Q E s ↔ Q a s := Iff.rfl

/-- Two programs in a row. -/
@[simp] theorem wp_bind {Q : β → σ → Prop} {E : ε → σ → Prop} {s : σ} (m : EStateM ε σ α)
    (f : α → EStateM ε σ β) :
    wp (m >>= f) Q E s ↔ wp m (fun a s' => wp (f a) Q E s') E s := by
  show wp (EStateM.bind m f) Q E s ↔ _
  unfold wp EStateM.bind
  cases m s <;> rfl

/-- A sequence whose last part needs to know nothing of the first. -/
theorem wp_after {Q : β → σ → Prop} {s : σ} {m : EStateM ε σ α} {f : α → EStateM ε σ β}
    (hf : ∀ a s', wp (f a) Q anyStop s') : wp (m >>= f) Q anyStop s := by
  rw [wp_bind]
  exact wp_of_forall hf fun _ _ => trivial

/-- What follows a conditional follows each of its branches. -/
theorem wp_ite_bind {P : α → σ → Prop} {Q : β → σ → Prop} {E : ε → σ → Prop} {s : σ} {c : Prop}
    [Decidable c] {m₁ m₂ : EStateM ε σ α} {f : α → EStateM ε σ β}
    (h : wp (if c then m₁ else m₂) P E s) (hf : ∀ a s', P a s' → wp (f a) Q E s') :
    wp (if c then m₁ >>= f else m₂ >>= f) Q E s := by
  by_cases hc : c
  · rw [if_pos hc] at h ⊢
    rw [wp_bind]
    exact wp_conseq h hf
  · rw [if_neg hc] at h ⊢
    rw [wp_bind]
    exact wp_conseq h hf

/-- A function of what is returned. -/
@[simp] theorem wp_map {Q : β → σ → Prop} {E : ε → σ → Prop} {s : σ} (m : EStateM ε σ α)
    (f : α → β) : wp (f <$> m) Q E s ↔ wp m (fun a s' => Q (f a) s') E s := by
  show wp (EStateM.map f m) Q E s ↔ _
  unfold wp EStateM.map
  cases m s <;> rfl

/-- Reading the state. -/
@[simp] theorem wp_get {Q : σ → σ → Prop} {E : ε → σ → Prop} {s : σ} :
    wp (get : EStateM ε σ σ) Q E s ↔ Q s s := Iff.rfl

/-- Replacing the state. -/
@[simp] theorem wp_set {Q : PUnit → σ → Prop} {E : ε → σ → Prop} {s : σ} (t : σ) :
    wp (set t : EStateM ε σ PUnit) Q E s ↔ Q ⟨⟩ t := Iff.rfl

/-- Changing the state. -/
@[simp] theorem wp_modify {Q : PUnit → σ → Prop} {E : ε → σ → Prop} {s : σ} (f : σ → σ) :
    wp (modify f : EStateM ε σ PUnit) Q E s ↔ Q ⟨⟩ (f s) := Iff.rfl

/-- Stopping. -/
@[simp] theorem wp_throw {Q : α → σ → Prop} {E : ε → σ → Prop} {s : σ} (e : ε) :
    wp (throw e : EStateM ε σ α) Q E s ↔ E e s := Iff.rfl

/-! ### What a program keeps, however it ends

`Keeps R m` relates every state `m` can end in to the one it started in.  For a reflexive and
transitive `R` the rules below take a program apart along its constructs.
-/

/-- Whatever state `m` ends in, `R` relates the one it started in to it. -/
def Keeps (R : σ → σ → Prop) (m : EStateM ε σ α) : Prop :=
  ∀ s, wp m (fun _ s' => R s s') (fun _ s' => R s s') s

section Keeps

variable {R : σ → σ → Prop}

/-- A change of the state that the relation allows. -/
theorem keeps_modify {f : σ → σ} (h : ∀ s, R s (f s)) :
    Keeps R (modify f : EStateM ε σ PUnit) := h

/-- A program that starts by looking at the state. -/
theorem keeps_look {f : σ → EStateM ε σ β} (hf : ∀ s, Keeps R (f s)) : Keeps R (get >>= f) :=
  fun s => hf s s

/-- A branch. -/
theorem keeps_ite {c : Prop} [Decidable c] {m₁ m₂ : EStateM ε σ α} (h₁ : Keeps R m₁)
    (h₂ : Keeps R m₂) : Keeps R (if c then m₁ else m₂) := by
  split
  · exact h₁
  · exact h₂

/-- A run that returned. -/
theorem Keeps.ok {m : EStateM ε σ α} (h : Keeps R m) {s s' : σ} {a : α} (hrun : m s = .ok a s') :
    R s s' := by
  have hs := h s
  unfold wp at hs
  rw [hrun] at hs
  exact hs

variable [IsPreorder σ R]

/-- Returning a value keeps the state. -/
theorem keeps_pure (a : α) : Keeps R (pure a : EStateM ε σ α) := fun s => refl_of R s

/-- Stopping keeps the state. -/
theorem keeps_throw (e : ε) : Keeps R (throw e : EStateM ε σ α) := fun s => refl_of R s

/-- Two programs in a row. -/
theorem keeps_bind {m : EStateM ε σ α} {f : α → EStateM ε σ β} (hm : Keeps R m)
    (hf : ∀ a, Keeps R (f a)) : Keeps R (m >>= f) := by
  intro s
  rw [wp_bind]
  refine wp_conseq (hm s) ?_
  intro a s' hs'
  exact wp_mono (hf a s') (fun _ _ h => trans_of R hs' h) (fun _ _ h => trans_of R hs' h)

end Keeps

/-! ### What a program keeps when it returns -/

/-- Whatever state `m` returns in, `R` relates the one it started in to it. -/
def Yields (R : σ → σ → Prop) (m : EStateM ε σ α) : Prop := ∀ s, wp m (fun _ s' => R s s') anyStop s

section Yields

variable {R : σ → σ → Prop}

/-- A relation that is kept however the program ends is kept when it returns. -/
theorem Keeps.yields {m : EStateM ε σ α} (h : Keeps R m) : Yields R m := fun s =>
  wp_mono (h s) (fun _ _ hR => hR) (fun _ _ _ => trivial)

/-- A run that returned. -/
theorem Yields.ok {m : EStateM ε σ α} (h : Yields R m) {s s' : σ} {a : α} (hrun : m s = .ok a s') :
    R s s' :=
  wp_anyStop_iff.1 (h s) _ _ hrun

/-- A program that stops does not return. -/
theorem yields_throw (e : ε) : Yields R (throw e : EStateM ε σ α) := fun _ => trivial

/-- A program that reads the state first. -/
theorem yields_look {f : σ → EStateM ε σ β} (hf : ∀ s, Yields R (f s)) : Yields R (get >>= f) :=
  fun s => hf s s

/-- A branch. -/
theorem yields_ite {c : Prop} [Decidable c] {m₁ m₂ : EStateM ε σ α} (h₁ : Yields R m₁)
    (h₂ : Yields R m₂) : Yields R (if c then m₁ else m₂) := by
  split
  · exact h₁
  · exact h₂

/-- The relation may be weakened. -/
theorem Yields.mono {R' : σ → σ → Prop} {m : EStateM ε σ α} (h : Yields R m)
    (hR : ∀ s s', R s s' → R' s s') : Yields R' m := fun s => wp_conseq (h s) fun _ s' => hR s s'

variable [IsPreorder σ R]

/-- Returning a value keeps the state. -/
theorem yields_pure (a : α) : Yields R (pure a : EStateM ε σ α) := fun s => refl_of R s

/-- A program that is run where `R` has led to. -/
theorem Yields.after {m : EStateM ε σ α} (hm : Yields R m) {s s₁ : σ} (h : R s s₁) :
    wp m (fun _ s' => R s s') anyStop s₁ :=
  wp_conseq (hm s₁) fun _ _ h' => trans_of R h h'

/-- Two programs in a row. -/
theorem yields_bind {m : EStateM ε σ α} {f : α → EStateM ε σ β} (hm : Yields R m)
    (hf : ∀ a, Yields R (f a)) : Yields R (m >>= f) := by
  intro s
  rw [wp_bind]
  exact wp_conseq (hm s) fun a _ h => (hf a).after h

end Yields

/-! ### Running a program on a part of the state -/

variable {τ : Type}

/-- Run a program on the part `view s` of the state and put the part back with `put`. -/
def zoom (view : σ → τ) (put : σ → τ → σ) (m : EStateM ε τ α) : EStateM ε σ α := fun s =>
  match m (view s) with
  | .ok a t => .ok a (put s t)
  | .error e t => .error e (put s t)

/-- A program on a part of the state. -/
@[simp] theorem wp_zoom {view : σ → τ} {put : σ → τ → σ} {m : EStateM ε τ α} {Q : α → σ → Prop}
    {E : ε → σ → Prop} {s : σ} :
    wp (zoom view put m) Q E s ↔
      wp m (fun a t => Q a (put s t)) (fun e t => E e (put s t)) (view s) := by
  unfold wp zoom
  cases m (view s) <;> rfl

/-- A program on a part of the state keeps what it keeps on the part. -/
theorem keeps_zoom {view : σ → τ} {put : σ → τ → σ} {m : EStateM ε τ α} {R : σ → σ → Prop}
    {R' : τ → τ → Prop} (hm : Keeps R' m) (h : ∀ s t, R' (view s) t → R s (put s t)) :
    Keeps R (zoom view put m) := by
  intro s
  rw [wp_zoom]
  exact wp_mono (hm (view s)) (fun _ t ht => h s t ht) (fun _ t ht => h s t ht)

/-- A program on a part of the state that returns. -/
theorem run_zoom_ok {view : σ → τ} {put : σ → τ → σ} {m : EStateM ε τ α} {s : σ} {a : α} {t : τ}
    (h : m (view s) = .ok a t) : zoom view put m s = .ok a (put s t) := by
  unfold zoom
  rw [h]

/-- A program on a part of the state that stops. -/
theorem run_zoom_error {view : σ → τ} {put : σ → τ → σ} {m : EStateM ε τ α} {s : σ} {e : ε} {t : τ}
    (h : m (view s) = .error e t) : zoom view put m s = .error e (put s t) := by
  unfold zoom
  rw [h]

/-! ### Running a program to a known result -/

@[simp] theorem run_pure (a : α) (s : σ) : (pure a : EStateM ε σ α) s = .ok a s := rfl

/-- One step of running a sequence: the rest runs on what the first program left. -/
theorem run_bind (m : EStateM ε σ α) (f : α → EStateM ε σ β) (s : σ) :
    (m >>= f) s = match m s with
      | .ok a s' => f a s'
      | .error e s' => .error e s' := rfl

/-- The second program runs where the first has returned. -/
theorem run_bind_ok {m : EStateM ε σ α} {f : α → EStateM ε σ β} {s s' : σ} {a : α}
    (h : m s = .ok a s') : (m >>= f) s = f a s' := by
  rw [run_bind, h]

/-- The second program does not run when the first has stopped. -/
theorem run_bind_error {m : EStateM ε σ α} {f : α → EStateM ε σ β} {s s' : σ} {e : ε}
    (h : m s = .error e s') : (m >>= f) s = .error e s' := by
  rw [run_bind, h]

/-- A sequence returns when its parts do, one after the other. -/
theorem run_bind_eq_ok {m : EStateM ε σ α} {f : α → EStateM ε σ β} {s s' : σ} {b : β} :
    (m >>= f) s = .ok b s' ↔ ∃ a s₁, m s = .ok a s₁ ∧ f a s₁ = .ok b s' := by
  rw [run_bind]
  cases m s with
  | ok a s₁ =>
    constructor
    · intro h
      exact ⟨a, s₁, rfl, h⟩
    · rintro ⟨a', s₁', heq, h⟩
      cases heq
      exact h
  | error e s₁ => exact ⟨nofun, nofun⟩

@[simp] theorem run_get (s : σ) : (get : EStateM ε σ σ) s = .ok s s := rfl

@[simp] theorem run_set (s t : σ) : (set t : EStateM ε σ PUnit) s = .ok ⟨⟩ t := rfl

@[simp] theorem run_modify (f : σ → σ) (s : σ) :
    (modify f : EStateM ε σ PUnit) s = .ok ⟨⟩ (f s) := rfl

@[simp] theorem run_throw (e : ε) (s : σ) : (throw e : EStateM ε σ α) s = .error e s := rfl

end ExFat.Program
