import ExFat.Lib.Program

namespace ExFat.Program

/-!
# Two programs in step

A program may run on a state that can let it down and on one that cannot.  As long as nothing fails
the two runs do the same.  `InStep R faults Bad m m' s t` says that `m` and `m'`, started in `s` and
`t`, return the same value in states that `R` relates, or stop for the same reason, and that `m`
falls out of step only if there are faults at all and only with a result that is `Bad`.

Without faults the two programs agree, and with a result that is not `Bad` they agree as well.
-/

variable {ε σ τ α β : Type}

/-- `m` and `m'` do the same from `s` and `t`, or `m` has met a fault and shows it. -/
def InStep (R : σ → τ → Prop) (faults : Prop) (Bad : α → σ → Prop) (m : EStateM ε σ α)
    (m' : EStateM ε τ α) (s : σ) (t : τ) : Prop :=
  (∃ a s' t', m s = .ok a s' ∧ m' t = .ok a t' ∧ R s' t') ∨
  (∃ e s' t', m s = .error e s' ∧ m' t = .error e t') ∨
  (faults ∧ ∀ a s', m s = .ok a s' → Bad a s')

variable {R : σ → τ → Prop} {faults : Prop} {Bad : α → σ → Prop} {s : σ} {t : τ}
  {m : EStateM ε σ α} {m' : EStateM ε τ α}

/-- Both return the same. -/
theorem inStep_of_ok {a : α} {s' : σ} {t' : τ} (h : m s = .ok a s') (h' : m' t = .ok a t')
    (hR : R s' t') : InStep R faults Bad m m' s t := .inl ⟨a, s', t', h, h', hR⟩

/-- Both stop for the same reason. -/
theorem inStep_of_error {e : ε} {s' : σ} {t' : τ} (h : m s = .error e s')
    (h' : m' t = .error e t') : InStep R faults Bad m m' s t := .inr (.inl ⟨e, s', t', h, h'⟩)

/-- A fault was met, and the result shows it. -/
theorem inStep_of_fault (hf : faults) (h : wp m Bad anyStop s) :
    InStep R faults Bad m m' s t := .inr (.inr ⟨hf, wp_anyStop_iff.mp h⟩)

/-- Two programs that return are in step. -/
theorem inStep_pure (a : α) (h : R s t) :
    InStep R faults Bad (pure a : EStateM ε σ α) (pure a) s t := inStep_of_ok rfl rfl h

/-- Two programs that stop are in step. -/
theorem inStep_throw (e : ε) :
    InStep R faults Bad (throw e : EStateM ε σ α) (throw e) s t := inStep_of_error rfl rfl

/-- Two programs that change their states are in step when the states stay related. -/
theorem inStep_modify {Bad : PUnit → σ → Prop} {f : σ → σ} {g : τ → τ} (h : R (f s) (g t)) :
    InStep R faults Bad (modify f : EStateM ε σ PUnit) (modify g) s t := inStep_of_ok rfl rfl h

/-- A run that goes on as another one. -/
theorem InStep.of_eq {m₁ : EStateM ε σ α} {m₁' : EStateM ε τ α} {s₁ : σ} {t₁ : τ}
    (h : m s = m₁ s₁) (h' : m' t = m₁' t₁) (hstep : InStep R faults Bad m₁ m₁' s₁ t₁) :
    InStep R faults Bad m m' s t := by
  unfold InStep at *
  rw [h, h']
  exact hstep

/-- What shows a fault may be stated more weakly. -/
theorem InStep.mono {Bad' : α → σ → Prop} (h : InStep R faults Bad m m' s t)
    (hbad : ∀ a s', Bad a s' → Bad' a s') : InStep R faults Bad' m m' s t := by
  rcases h with hok | herror | ⟨hfault, hall⟩
  · exact .inl hok
  · exact .inr (.inl herror)
  · exact .inr (.inr ⟨hfault, fun a s' hrun => hbad a s' (hall a s' hrun)⟩)

/-- A sequence runs in step if its parts do, and if the second part passes on what the first shows.
-/
theorem InStep.bind {Bad' : β → σ → Prop} {f : α → EStateM ε σ β} {f' : α → EStateM ε τ β}
    (h : InStep R faults Bad m m' s t)
    (hf : ∀ a s' t', R s' t' → InStep R faults Bad' (f a) (f' a) s' t')
    (hbad : ∀ a s', Bad a s' → wp (f a) Bad' anyStop s') :
    InStep R faults Bad' (m >>= f) (m' >>= f') s t := by
  rcases h with ⟨a, s', t', hrun, hrun', hR⟩ | ⟨e, s', t', hrun, hrun'⟩ | ⟨hfault, hall⟩
  · exact (hf a s' t' hR).of_eq (run_bind_ok hrun) (run_bind_ok hrun')
  · exact inStep_of_error (run_bind_error hrun) (run_bind_error hrun')
  · refine inStep_of_fault hfault ?_
    rw [wp_bind]
    exact wp_anyStop_iff.mpr fun a s' hrun => hbad a s' (hall a s' hrun)

/-- The first part of a sequence cannot fall out of step. -/
theorem InStep.next {Bad' : β → σ → Prop} {f : α → EStateM ε σ β} {f' : α → EStateM ε τ β}
    (h : InStep R faults (fun _ _ => False) m m' s t)
    (hf : ∀ a s' t', R s' t' → InStep R faults Bad' (f a) (f' a) s' t') :
    InStep R faults Bad' (m >>= f) (m' >>= f') s t :=
  h.bind hf fun _ _ hno => hno.elim

/-- A program that looks at its state first. -/
theorem inStep_get {f : σ → EStateM ε σ α} {f' : τ → EStateM ε τ α}
    (h : InStep R faults Bad (f s) (f' t) s t) :
    InStep R faults Bad (get >>= f) (get >>= f') s t := h.of_eq rfl rfl

/-- A branch of both programs on one condition. -/
theorem inStep_ite {c : Prop} [Decidable c] {m₁ : EStateM ε σ α} {m₁' : EStateM ε τ α}
    (h : c → InStep R faults Bad m m' s t) (h₁ : ¬ c → InStep R faults Bad m₁ m₁' s t) :
    InStep R faults Bad (if c then m else m₁) (if c then m' else m₁') s t := by
  by_cases hc : c
  · rw [if_pos hc, if_pos hc]
    exact h hc
  · rw [if_neg hc, if_neg hc]
    exact h₁ hc

/-- Programs on parts of two states run in step on the states. -/
theorem InStep.zoom {σ' τ' : Type} {view : σ' → σ} {put : σ' → σ → σ'} {view' : τ' → τ}
    {put' : τ' → τ → τ'} {R' : σ' → τ' → Prop} {Bad : α → Prop} {s : σ'} {t : τ'}
    (h : InStep R faults (fun a _ => Bad a) m m' (view s) (view' t))
    (hR : ∀ s₁ t₁, R s₁ t₁ → R' (put s s₁) (put' t t₁)) :
    InStep R' faults (fun a _ => Bad a) (zoom view put m) (zoom view' put' m') s t := by
  rcases h with ⟨a, s', t', hrun, hrun', hR'⟩ | ⟨e, s', t', hrun, hrun'⟩ | ⟨hfault, hall⟩
  · exact inStep_of_ok (run_zoom_ok hrun) (run_zoom_ok hrun') (hR s' t' hR')
  · exact inStep_of_error (run_zoom_error hrun) (run_zoom_error hrun')
  · refine inStep_of_fault hfault ?_
    rw [wp_zoom]
    exact wp_anyStop_iff.mpr hall

/-- A result that is not bad is the result of the other program. -/
theorem InStep.ok {a : α} {s' : σ} (h : InStep R faults Bad m m' s t) (hrun : m s = .ok a s')
    (hgood : ¬ Bad a s') : ∃ t', m' t = .ok a t' ∧ R s' t' := by
  rcases h with ⟨a₁, s₁, t₁, hrun₁, hrun', hR⟩ | ⟨e, s₁, t₁, hrun₁, -⟩ | ⟨-, hall⟩
  · cases hrun₁.symm.trans hrun
    exact ⟨t₁, hrun', hR⟩
  · cases hrun₁.symm.trans hrun
  · exact absurd (hall a s' hrun) hgood

/-- Without faults the result of the other program is the result. -/
theorem InStep.ok_of_sound {a : α} {t' : τ} (h : InStep R faults Bad m m' s t) (hf : ¬ faults)
    (hrun : m' t = .ok a t') : ∃ s', m s = .ok a s' ∧ R s' t' := by
  rcases h with ⟨a₁, s₁, t₁, hrun₁, hrun', hR⟩ | ⟨e, s₁, t₁, -, hrun'⟩ | ⟨hfault, -⟩
  · cases hrun'.symm.trans hrun
    exact ⟨s₁, hrun₁, hR⟩
  · cases hrun'.symm.trans hrun
  · exact absurd hfault hf

end ExFat.Program
