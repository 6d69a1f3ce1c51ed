import ExFat.Lib.Lockstep
import ExFat.Store.Interrupted

namespace ExFat

open Bytes Program

/-!
# A truncation on a device that may fail

`exfat_truncate` on a device that fails now and then does what it does on one that never fails, or
it has met a failure and returns an error.  A failure that it does not notice is that of a read
whose result it does not use: the entry of the last cluster `shrink_file` frees.
-/

/-! ### The same volume on two devices -/

/-- Some call fails. -/
def Fails (fault : Nat → Option Nat) : Prop := ∃ k, (fault k).isSome = true

/-- The volume on a device that may fail, after `calls` calls and with `errors` messages. -/
def Ef.copyOn (ef : Ef Flat) (fault : Nat → Option Nat) (calls errors : Nat) : Ef Faulty :=
  { ef.onFaulty fault with
    dev := { bytes := ef.dev.bytes, size := ef.dev.size, calls := calls, fault := fault }
    errors := errors }

/-- The same volume, whose FAT entry for a bad cluster is no cluster of the heap. -/
def Ef.Copies (fault : Nat → Option Nat) (ef : Ef Faulty) (ef' : Ef Flat) : Prop :=
  ef'.sb.clusterInvalid clusterBad = true ∧ ∃ calls errors, ef = ef'.copyOn fault calls errors

/-- The same node of the same volume. -/
structure FileState.Copies (fault : Nat → Option Nat) (s : FileState Faulty) (t : FileState Flat) :
    Prop where
  ef : s.ef.Copies fault t.ef
  node : s.node = t.node

section

variable {fault : Nat → Option Nat} {ef : Ef Faulty} {ef' : Ef Flat} {s : FileState Faulty}
  {t : FileState Flat}

/-- Both volumes have the same superblock. -/
theorem Ef.Copies.sb (h : ef.Copies fault ef') : ef.sb = ef'.sb := by
  obtain ⟨-, calls, errors, rfl⟩ := h
  rfl

/-- Both volumes have the same superblock. -/
theorem FileState.Copies.sb (h : s.Copies fault t) : s.ef.sb = t.ef.sb := h.ef.sb

/-- The marker for bad clusters is no cluster. -/
theorem FileState.Copies.bad (h : s.Copies fault t) : s.ef.sb.clusterInvalid clusterBad = true := by
  rw [h.sb]
  exact h.ef.1

/-- The routines of the volume that succeed or fail with a value that says so. -/
abbrev EfStep (fault : Nat → Option Nat) {α : Type} (Bad : α → Prop) (m : EfM Faulty α)
    (m' : EfM Flat α) : Prop :=
  ∀ ef ef', Ef.Copies fault ef ef' →
    InStep (Ef.Copies fault) (Fails fault) (fun a _ => Bad a) m m' ef ef'

/-- The routines of a file. -/
abbrev FileStepped (fault : Nat → Option Nat) {α : Type} (Bad : α → FileState Faulty → Prop)
    (m : FileM Faulty α) (m' : FileM Flat α) : Prop :=
  ∀ s t, FileState.Copies fault s t →
    InStep (FileState.Copies fault) (Fails fault) Bad m m' s t

/-- A routine on the volume is in step when it is on its own. -/
theorem stepped_onEf {α : Type} {Bad : α → Prop} {m : EfM Faulty α} {m' : EfM Flat α}
    (h : EfStep fault Bad m m') : FileStepped fault (fun a _ => Bad a) (onEf m) (onEf m') :=
  fun _ _ hc => (h _ _ hc.ef).zoom fun _ _ hef => ⟨hef, hc.node⟩

/-- An update of the node that looks at nothing else. -/
theorem stepped_modifyNode (Bad : PUnit → FileState Faulty → Prop) (f : Node → Node) :
    FileStepped fault Bad (modifyNode f) (modifyNode f) :=
  fun _ _ hc => inStep_modify ⟨hc.ef, congrArg f hc.node⟩

/-! ### The accesses of the device -/

/-- `exfat_error` is in step with itself on a sound device. -/
theorem step_exfatError (message : String) :
    EfStep fault (fun _ => False) (exfatError message) (exfatError message) := by
  rintro ef ef' ⟨hbad, calls, errors, rfl⟩
  exact inStep_of_ok rfl rfl ⟨hbad, calls, errors + 1, rfl⟩

/-- A read gives the bytes, or fails. -/
theorem run_exfatPread_copyOn (ef : Ef Flat) (fault : Nat → Option Nat)
    (calls errors size offset : Nat) :
    exfatPread size offset (ef.copyOn fault calls errors) =
      .ok (if (fault calls).isSome then none else some (readBytes ef.dev.bytes offset size))
        (ef.copyOn fault (calls + 1) errors) := by
  unfold exfatPread
  rw [run_bind_ok (run_get _), run_bind_ok (run_set _ _), run_pure]
  have hcall : (Device.pread size offset (ef.copyOn fault calls errors).dev).1 =
      if (fault calls).isSome then none else some (readBytes ef.dev.bytes offset size) := rfl
  rw [hcall]
  by_cases hk : (fault calls).isSome = true
  · rw [if_pos hk]
    rfl
  · rw [if_neg hk, Option.map_some, length_readBytes, Nat.sub_self, List.replicate_zero,
      List.append_nil]
    rfl

/-- `exfat_pwrite` is in step with itself on a sound device. -/
theorem step_exfatPwrite (data : List UInt8) (offset : Nat) :
    EfStep fault (fun r => r = none) (exfatPwrite data offset) (exfatPwrite data offset) := by
  rintro ef ef' ⟨hbad, calls, errors, rfl⟩
  cases hk : fault calls with
  | none =>
    refine inStep_of_ok (a := some data.length) ?_ (run_exfatPwrite _ _ _)
      ⟨hbad, calls + 1, errors, rfl⟩
    unfold exfatPwrite Device.pwrite instDeviceFaulty
    rw [run_bind_ok (run_get _)]
    simp only [Ef.copyOn, hk]
    rfl
  | some k =>
    refine inStep_of_fault ⟨calls, by rw [hk]; rfl⟩ ?_
    refine @wp_of_ok _ _ _ _ _ _ _ { ef'.copyOn fault calls errors with dev :=
      { (ef'.copyOn fault calls errors).dev with
        bytes := writeBytes ef'.dev.bytes offset (data.take k), calls := calls + 1 } } none
      ?_ rfl
    unfold exfatPwrite Device.pwrite instDeviceFaulty
    rw [run_bind_ok (run_get _)]
    simp only [Ef.copyOn, hk]
    rfl

/-- `allocate_cluster` is in step with itself on a sound device. -/
theorem step_allocateCluster (hint : Nat) :
    EfStep fault (fun _ => False) (allocateCluster hint) (allocateCluster hint) := by
  rintro ef ef' ⟨hbad, calls, errors, rfl⟩
  unfold allocateCluster
  refine inStep_get ?_
  have hfound : searchBits (ef'.copyOn fault calls errors).wordBits
      (ef'.copyOn fault calls errors).cmap hint = searchBits ef'.wordBits ef'.cmap hint := rfl
  rw [hfound]
  generalize searchBits ef'.wordBits ef'.cmap hint = found
  dsimp only
  by_cases hend : found.1 = clusterEnd
  · rw [if_pos hend, if_pos hend]
    exact inStep_of_ok rfl rfl ⟨hbad, calls, errors + 1, rfl⟩
  · rw [if_neg hend, if_neg hend]
    exact inStep_of_ok rfl rfl ⟨hbad, calls, errors, rfl⟩

/-- `free_cluster` is in step with itself on a sound device. -/
theorem step_freeCluster (cluster : Nat) :
    EfStep fault (fun _ => False) (freeCluster cluster) (freeCluster cluster) := by
  rintro ef ef' ⟨hbad, calls, errors, rfl⟩
  unfold freeCluster
  refine inStep_get (inStep_ite (fun _ => inStep_throw _) fun _ => ?_)
  exact inStep_of_ok rfl rfl ⟨hbad, calls, errors, rfl⟩

/-- `set_next_cluster` is in step with itself on a sound device. -/
theorem step_setNextCluster (contiguous : Bool) (current next : Nat) :
    EfStep fault (fun done => done = false) (setNextCluster contiguous current next)
      (setNextCluster contiguous current next) := by
  rintro ef ef' hc
  unfold setNextCluster
  refine inStep_get (inStep_ite (fun _ => inStep_pure true hc) fun _ => ?_)
  rw [hc.sb]
  refine (step_exfatPwrite _ _ ef ef' hc).bind ?_ ?_
  · intro r ef₁ ef₁' hc₁
    cases r with
    | none =>
      exact (step_exfatError _ ef₁ ef₁' hc₁).next fun _ _ _ hc₂ => inStep_pure false hc₂
    | some k => exact inStep_pure true hc₁
  · intro r ef₁ hbad
    cases r with
    | none => exact rfl
    | some k => cases hbad

/-- `make_noncontiguous` is in step with itself on a sound device. -/
theorem step_makeNoncontiguous (c n : Nat) :
    EfStep fault (fun done => done = false) (makeNoncontiguous c n) (makeNoncontiguous c n) := by
  induction n generalizing c with
  | zero => exact fun _ _ hc => inStep_pure true hc
  | succ n ih =>
    intro ef ef' hc
    refine (step_setNextCluster false c (c + 1) ef ef' hc).bind ?_ ?_
    · exact fun done ef₁ ef₁' hc₁ => inStep_ite (fun _ => ih (c + 1) ef₁ ef₁' hc₁)
        fun _ => inStep_pure false hc₁
    · rintro done ef₁ rfl
      exact rfl

/-- `erase_raw` is in step with itself on a sound device. -/
theorem step_eraseRaw (size offset : Nat) :
    EfStep fault (fun done => done = false) (eraseRaw size offset) (eraseRaw size offset) := by
  intro ef ef' hc
  refine (step_exfatPwrite _ _ ef ef' hc).bind ?_ ?_
  · intro r ef₁ ef₁' hc₁
    cases r with
    | none =>
      exact (step_exfatError _ ef₁ ef₁' hc₁).next fun _ _ _ hc₂ => inStep_pure false hc₂
    | some k => exact inStep_pure true hc₁
  · rintro r ef₁ rfl
    exact rfl

/-- `exfat_c2o` is in step with itself on a sound device. -/
theorem step_exfatC2o (cluster : Nat) :
    EfStep fault (fun _ => False) (exfatC2o cluster) (exfatC2o cluster) := by
  intro ef ef' hc
  refine inStep_get (inStep_ite (fun _ => inStep_throw _) fun _ => ?_)
  rw [hc.sb]
  exact inStep_pure _ hc

/-! ### The walk through the FAT -/

/-- The entry for a bad cluster stands for a read that has failed. -/
def Spoilt (c : Nat) (s : FileState Faulty) : Prop :=
  c = clusterBad ∧ s.ef.sb.clusterInvalid clusterBad = true

/-- A read of the FAT leaves the volume as it is, and gives the entry unless it fails. -/
theorem exfatNextCluster_copies (hc : s.Copies fault t) {cluster : Nat} (htwo : 2 ≤ cluster) :
    ∃ c s' c', exfatNextCluster cluster s = .ok c s' ∧ exfatNextCluster cluster t = .ok c' t ∧
      s'.Copies fault t ∧ (c = c' ∨ (Fails fault ∧ c = clusterBad)) := by
  obtain ⟨⟨hbad, calls, errors, hef⟩, hnode⟩ := hc
  have hsb : s.ef.sb = t.ef.sb := by
    rw [hef]
    rfl
  have hlt : ¬ cluster < firstDataCluster := Nat.not_lt.mpr htwo
  unfold exfatNextCluster
  rw [run_bind_ok (run_get s), run_bind_ok (run_get t), if_neg hlt, if_neg hlt, hnode, hsb]
  by_cases hcont : t.node.isContiguous = true
  · rw [if_pos hcont, if_pos hcont]
    exact ⟨_, s, _, rfl, rfl, ⟨⟨hbad, calls, errors, hef⟩, hnode⟩, .inl rfl⟩
  · rw [if_neg hcont, if_neg hcont]
    have hrun := run_exfatPread_copyOn t.ef fault calls errors 4 (fatOffset t.ef.sb cluster)
    rw [← hef] at hrun
    rw [run_bind_ok (run_onEf_ok hrun), run_bind_ok (run_onEf_ok (run_exfatPread _ _ _))]
    have hc₁ : FileState.Copies fault { s with ef := t.ef.copyOn fault (calls + 1) errors } t :=
      ⟨⟨hbad, calls + 1, errors, rfl⟩, hnode⟩
    by_cases hk : (fault calls).isSome = true
    · rw [if_pos hk]
      exact ⟨clusterBad, _, _, rfl, rfl, hc₁, .inr ⟨⟨calls, hk⟩, rfl⟩⟩
    · rw [if_neg hk]
      exact ⟨_, _, _, rfl, rfl, hc₁, .inl rfl⟩

/-- `exfat_next_cluster` is in step with itself on a sound device. -/
theorem stepped_exfatNextCluster (cluster : Nat) :
    FileStepped fault Spoilt (exfatNextCluster cluster) (exfatNextCluster cluster) := by
  intro s t hc
  by_cases htwo : 2 ≤ cluster
  · obtain ⟨c, s', c', hrun, hrun', hc', rfl | ⟨hfails, rfl⟩⟩ := exfatNextCluster_copies hc htwo
    · exact inStep_of_ok hrun hrun' hc'
    · exact inStep_of_fault hfails (wp_of_ok hrun ⟨rfl, hc'.bad⟩)
  · unfold exfatNextCluster
    exact inStep_get (inStep_ite (fun _ => inStep_throw _)
      fun hno => absurd (Nat.lt_of_not_le htwo) hno)

/-- `advanceLoop` is in step with itself on a sound device. -/
theorem stepped_advanceLoop (k : Nat) :
    FileStepped fault (fun _ s => Spoilt s.node.fptrCluster s) (advanceLoop k) (advanceLoop k) := by
  induction k with
  | zero => exact fun _ _ hc => inStep_pure _ hc
  | succ k ih =>
    intro s t hc
    unfold advanceLoop
    refine inStep_get ?_
    rw [hc.node, hc.sb]
    refine (stepped_exfatNextCluster _ s t hc).bind ?_ ?_
    · intro next s₁ t₁ hc₁
      refine (stepped_modifyNode _ _ s₁ t₁ hc₁).next fun _ s₂ t₂ hc₂ => ?_
      exact inStep_ite (fun _ => inStep_pure _ hc₂) fun _ => ih s₂ t₂ hc₂
    · rintro next s₁ ⟨rfl, hbad⟩
      rw [if_pos hc.ef.1]
      exact ⟨rfl, hbad⟩

/-- `exfat_advance_cluster` is in step with itself on a sound device. -/
theorem stepped_exfatAdvanceCluster (count : Nat) :
    FileStepped fault Spoilt (exfatAdvanceCluster count) (exfatAdvanceCluster count) := by
  intro s t hc
  unfold exfatAdvanceCluster
  refine (stepped_modifyNode _ _ s t hc).next fun _ s₁ t₁ hc₁ => inStep_get ?_
  rw [hc₁.node]
  refine (stepped_advanceLoop _ s₁ t₁ hc₁).bind ?_ ?_
  · intro _ s₂ t₂ hc₂
    refine (stepped_modifyNode _ _ s₂ t₂ hc₂).next fun _ s₃ t₃ hc₃ => inStep_get ?_
    rw [hc₃.node]
    exact inStep_pure _ hc₃
  · intro _ s₂ hspoilt
    exact hspoilt

/-! ### Growing and shrinking -/

/-- The result of a call that has failed. -/
abbrev Failed (r : Rc) (_ : FileState Faulty) : Prop := r ≠ .ok ()

/-- An error is not success. -/
theorem error_ne_ok (e : Errno) : (.error e : Rc) ≠ .ok () := by
  intro h
  cases h

/-- The loop of `shrink_file` stops at a bad cluster. -/
theorem freeLoop_spoilt (k : Nat) {c : Nat} (h : Spoilt c s) :
    wp (freeLoop (k + 1) c) Failed anyStop s := by
  obtain ⟨rfl, hbad⟩ := h
  unfold freeLoop
  rw [wp_bind, wp_get, if_pos hbad]
  exact error_ne_ok .eio

/-- `freeLoop` is in step with itself on a sound device. -/
theorem stepped_freeLoop (k previous : Nat) :
    FileStepped fault Failed (freeLoop k previous) (freeLoop k previous) := by
  induction k generalizing previous with
  | zero => exact fun _ _ hc => inStep_pure _ hc
  | succ k ih =>
    intro s t hc
    unfold freeLoop
    refine inStep_get ?_
    rw [hc.node, hc.sb]
    refine inStep_ite (fun _ => ?_) fun hvalid => ?_
    -- an invalid cluster is reported by both
    · exact (stepped_onEf (step_exfatError _) s t hc).next fun _ _ _ hc₁ => inStep_pure _ hc₁
    -- the link is cut and the cluster freed whatever the next one is
    have hrest : ∀ s₁ t₁ next next', FileState.Copies fault s₁ t₁ →
        (next = next' ∨ (Fails fault ∧ next = clusterBad)) →
        InStep (FileState.Copies fault) (Fails fault) Failed
          (do
            let done ← onEf (setNextCluster t.node.isContiguous previous clusterFree)
            if done then do
              onEf (freeCluster previous)
              freeLoop k next
            else pure (.error .eio))
          (do
            let done ← onEf (setNextCluster t.node.isContiguous previous clusterFree)
            if done then do
              onEf (freeCluster previous)
              freeLoop k next'
            else pure (.error .eio)) s₁ t₁ := by
      intro s₁ t₁ next next' hc₁ hnext
      refine (stepped_onEf (step_setNextCluster _ _ _) s₁ t₁ hc₁).bind ?_ ?_
      · intro done s₂ t₂ hc₂
        refine inStep_ite (fun _ => ?_) fun _ => inStep_pure _ hc₂
        refine (stepped_onEf (step_freeCluster _) s₂ t₂ hc₂).next fun _ s₃ t₃ hc₃ => ?_
        rcases hnext with rfl | ⟨hfails, rfl⟩
        -- the next cluster was the same in both, or its entry could not be read
        · exact ih _ s₃ t₃ hc₃
        · cases k with
          | zero => exact inStep_pure _ hc₃
          | succ k => exact inStep_of_fault hfails (freeLoop_spoilt k ⟨rfl, hc₃.bad⟩)
      · rintro done s₂ rfl
        exact error_ne_ok .eio
    have htwo := (clusterInvalid_eq_false.mp (Bool.eq_false_iff.mpr hvalid)).1
    obtain ⟨c, s', c', hrun, hrun', hc', hcase⟩ := exfatNextCluster_copies hc htwo
    exact (hrest s' t c c' hc' hcase).of_eq (run_bind_ok hrun) (run_bind_ok hrun')

/-- `shrinkTail` is in step with itself on a sound device. -/
theorem stepped_shrinkTail (difference previous : Nat) :
    FileStepped fault Failed (shrinkTail difference previous) (shrinkTail difference previous) :=
  fun s t hc => (stepped_modifyNode _ _ s t hc).next fun _ s₁ t₁ hc₁ =>
    stepped_freeLoop difference previous s₁ t₁ hc₁

/-- The end of `shrink_file` stops at a bad cluster. -/
theorem shrinkTail_spoilt {difference : Nat} (hpos : 0 < difference) {c : Nat} (h : Spoilt c s) :
    wp (shrinkTail difference c) Failed anyStop s := by
  obtain ⟨k, rfl⟩ := Nat.exists_eq_succ_of_ne_zero (Nat.ne_of_gt hpos)
  exact freeLoop_spoilt k (s := { s with node := _ }) h

/-- `shrink_file` is in step with itself on a sound device. -/
theorem stepped_shrinkFile (current difference : Nat) :
    FileStepped fault Failed (shrinkFile current difference) (shrinkFile current difference) := by
  intro s t hc
  unfold shrinkFile
  refine inStep_get (inStep_ite (fun _ => inStep_throw _) fun hpos => ?_)
  rw [hc.node, hc.sb]
  refine inStep_ite (fun _ => inStep_throw _) fun _ => ?_
  refine inStep_ite (fun _ => inStep_throw _) fun _ => ?_
  refine inStep_ite (fun _ => ?_) fun _ => ?_
  · refine (stepped_exfatAdvanceCluster _ s t hc).bind ?_ ?_
    -- the last cluster that stays
    · intro last s₁ t₁ hc₁
      refine inStep_ite (fun _ => ?_) fun _ => ?_
      · exact (stepped_onEf (step_exfatError _) s₁ t₁ hc₁).next fun _ _ _ hc₂ => inStep_pure _ hc₂
      refine (stepped_exfatNextCluster last s₁ t₁ hc₁).bind ?_ ?_
      -- the first cluster that goes, where the chain is cut
      · intro previous s₂ t₂ hc₂
        refine (stepped_onEf (step_setNextCluster _ _ _) s₂ t₂ hc₂).bind ?_ ?_
        · intro done s₃ t₃ hc₃
          exact inStep_ite (fun _ => stepped_shrinkTail _ _ s₃ t₃ hc₃) fun _ => inStep_pure _ hc₃
        · rintro done s₃ rfl
          exact error_ne_ok .eio
      · -- the entry of the last cluster that stays could not be read
        rintro previous s₂ ⟨rfl, hbad⟩
        rw [wp_bind]
        refine wp_mono (keeps_setNextCluster (R := FileState.Anchored) _ _ _ s₂) ?_
          (fun _ _ _ => trivial)
        intro done s₃ h₃
        cases done with
        | false => exact error_ne_ok .eio
        | true => exact shrinkTail_spoilt (Nat.pos_iff_ne_zero.mpr hpos) ⟨rfl, h₃.sb ▸ hbad⟩
    · rintro last s₁ ⟨rfl, hbad⟩
      rw [if_pos hc.ef.1]
      exact error_ne_ok .eio
  -- all clusters are freed, so nothing is cut
  · refine (stepped_modifyNode _ _ s t hc).next fun _ s₁ t₁ hc₁ => ?_
    exact stepped_shrinkTail _ _ s₁ t₁ hc₁

/-- `linkCluster` is in step with itself on a sound device. -/
theorem stepped_linkCluster (previous next : Nat) :
    FileStepped fault (fun done _ => done = false) (linkCluster previous next)
      (linkCluster previous next) := by
  intro s t hc
  unfold linkCluster
  refine inStep_get ?_
  rw [hc.node]
  refine inStep_ite (fun _ => ?_) fun _ => stepped_onEf (step_setNextCluster _ _ _) s t hc
  refine (stepped_onEf (step_makeNoncontiguous _ _) s t hc).bind ?_ ?_
  · intro done s₁ t₁ hc₁
    refine inStep_ite (fun _ => ?_) fun _ => inStep_pure _ hc₁
    refine (stepped_modifyNode _ _ s₁ t₁ hc₁).next fun _ s₂ t₂ hc₂ => ?_
    exact stepped_onEf (step_setNextCluster _ _ _) s₂ t₂ hc₂
  · rintro done s₁ rfl
    exact rfl

/-- `growLoop` is in step with itself on a sound device. -/
theorem stepped_growLoop (current k previous allocated : Nat) :
    FileStepped fault Failed (growLoop current k previous allocated)
      (growLoop current k previous allocated) := by
  induction k generalizing previous allocated with
  | zero =>
    intro s t hc
    unfold growLoop
    refine inStep_get ?_
    rw [hc.node]
    refine (stepped_onEf (step_setNextCluster _ _ _) s t hc).bind ?_ ?_
    · exact fun done s₁ t₁ hc₁ => inStep_ite (fun _ => inStep_pure _ hc₁) fun _ => inStep_pure _ hc₁
    · rintro done s₁ rfl
      exact error_ne_ok .eio
  | succ k ih =>
    intro s t hc
    unfold growLoop
    refine (stepped_onEf (step_allocateCluster _) s t hc).next fun next s₁ t₁ hc₁ => inStep_get ?_
    rw [hc₁.sb]
    refine inStep_ite (fun _ => ?_) fun _ => ?_
    · refine inStep_ite (fun _ => ?_) fun _ => inStep_pure _ hc₁
      refine (stepped_shrinkFile _ _ s₁ t₁ hc₁).bind ?_ ?_
      · exact fun _ _ _ hc₂ => inStep_pure _ hc₂
      · exact fun _ _ _ => error_ne_ok .enospc
    · refine (stepped_linkCluster _ _ s₁ t₁ hc₁).bind ?_ ?_
      · exact fun linked s₂ t₂ hc₂ => inStep_ite (fun _ => ih _ _ s₂ t₂ hc₂)
          fun _ => inStep_pure _ hc₂
      · rintro linked s₂ rfl
        exact error_ne_ok .eio

/-- `grow_file` is in step with itself on a sound device. -/
theorem stepped_growFile (current difference : Nat) :
    FileStepped fault Failed (growFile current difference) (growFile current difference) := by
  intro s t hc
  unfold growFile
  refine inStep_get (inStep_ite (fun _ => inStep_throw _) fun _ => ?_)
  rw [hc.node, hc.sb]
  refine inStep_ite (fun _ => ?_) fun _ => inStep_ite (fun _ => inStep_throw _) fun _ => ?_
  · refine (stepped_exfatAdvanceCluster _ s t hc).bind ?_ ?_
    · intro previous s₁ t₁ hc₁
      refine inStep_ite (fun _ => ?_) fun _ => stepped_growLoop _ _ _ _ s₁ t₁ hc₁
      exact (stepped_onEf (step_exfatError _) s₁ t₁ hc₁).next fun _ _ _ hc₂ => inStep_pure _ hc₂
    · rintro previous s₁ ⟨rfl, -⟩
      rw [if_pos hc.ef.1]
      exact error_ne_ok .eio
  · refine (stepped_onEf (step_allocateCluster _) s t hc).next fun previous s₁ t₁ hc₁ => ?_
    refine inStep_ite (fun _ => inStep_pure _ hc₁) fun _ => ?_
    refine (stepped_modifyNode _ _ s₁ t₁ hc₁).next fun _ s₂ t₂ hc₂ => ?_
    exact stepped_growLoop _ _ _ _ s₂ t₂ hc₂

/-- `resizeFile` is in step with itself on a sound device. -/
theorem stepped_resizeFile (c1 c2 : Nat) :
    FileStepped fault Failed (resizeFile c1 c2) (resizeFile c1 c2) := by
  intro s t hc
  refine inStep_ite (fun _ => stepped_growFile _ _ s t hc) fun _ => ?_
  exact inStep_ite (fun _ => stepped_shrinkFile _ _ s t hc) fun _ => inStep_pure _ hc

/-! ### Erasing and truncating -/

/-- `eraseLoop` is in step with itself on a sound device. -/
theorem stepped_eraseLoop (n cluster : Nat) :
    FileStepped fault Failed (eraseLoop n cluster) (eraseLoop n cluster) := by
  induction n generalizing cluster with
  | zero => exact fun _ _ hc => inStep_pure _ hc
  | succ n ih =>
    intro s t hc
    unfold eraseLoop
    refine (stepped_exfatNextCluster _ s t hc).bind ?_ ?_
    · intro next s₁ t₁ hc₁
      refine inStep_get ?_
      rw [hc₁.sb]
      refine inStep_ite (fun _ => inStep_throw _) fun _ => ?_
      refine (stepped_onEf (step_exfatC2o _) s₁ t₁ hc₁).next fun offset s₂ t₂ hc₂ => ?_
      refine (stepped_onEf (step_eraseRaw _ _) s₂ t₂ hc₂).bind ?_ ?_
      · exact fun done s₃ t₃ hc₃ => inStep_ite (fun _ => ih _ s₃ t₃ hc₃) fun _ => inStep_pure _ hc₃
      · rintro done s₃ rfl
        exact error_ne_ok .eio
    · rintro next s₁ ⟨rfl, hbad⟩
      rw [wp_bind, wp_get, if_pos hbad]
      trivial

/-- `erase_range` is in step with itself on a sound device. -/
theorem stepped_eraseRange (start stop : Nat) :
    FileStepped fault Failed (eraseRange start stop) (eraseRange start stop) := by
  intro s t hc
  unfold eraseRange
  refine inStep_get ?_
  rw [hc.sb]
  refine inStep_ite (fun _ => inStep_pure _ hc) fun _ => ?_
  refine (stepped_exfatAdvanceCluster _ s t hc).bind ?_ ?_
  · intro cluster s₁ t₁ hc₁
    refine inStep_ite (fun _ => ?_) fun _ => ?_
    · exact (stepped_onEf (step_exfatError _) s₁ t₁ hc₁).next fun _ _ _ hc₂ => inStep_pure _ hc₂
    refine (stepped_onEf (step_exfatC2o _) s₁ t₁ hc₁).next fun offset s₂ t₂ hc₂ => ?_
    refine (stepped_onEf (step_eraseRaw _ _) s₂ t₂ hc₂).bind ?_ ?_
    · exact fun done s₃ t₃ hc₃ => inStep_ite (fun _ => stepped_eraseLoop _ _ s₃ t₃ hc₃)
        fun _ => inStep_pure _ hc₃
    · rintro done s₃ rfl
      exact error_ne_ok .eio
  · rintro cluster s₁ ⟨rfl, -⟩
    rw [if_pos hc.ef.1]
    exact error_ne_ok .eio

/-- `setSize` is in step with itself on a sound device. -/
theorem stepped_setSize (size : Nat) :
    FileStepped fault (fun _ _ => False) (setSize size) (setSize size) := by
  rintro ⟨ef, n⟩ ⟨ef', n'⟩ ⟨⟨hbad, calls, errors, hef⟩, hnode⟩
  dsimp only at hef hnode
  subst hef hnode
  exact inStep_of_ok rfl rfl ⟨⟨hbad, calls, errors, rfl⟩, rfl⟩

/-- `finishTruncate` is in step with itself on a sound device. -/
theorem stepped_finishTruncate (size : Nat) (erase : Bool) :
    FileStepped fault Failed (finishTruncate size erase) (finishTruncate size erase) := by
  have hset : ∀ s t, FileState.Copies fault s t →
      InStep (FileState.Copies fault) (Fails fault) Failed (setSize size) (setSize size) s t :=
    fun s t hc => (stepped_setSize size s t hc).mono fun _ _ hno => hno.elim
  intro s t hc
  unfold finishTruncate
  refine inStep_ite (fun _ => inStep_get ?_) fun _ => ?_
  · rw [hc.node]
    refine (stepped_eraseRange _ _ s t hc).bind ?_ ?_
    · intro r s₁ t₁ hc₁
      cases r with
      | error e => exact inStep_pure _ hc₁
      | ok =>
        exact (stepped_modifyNode _ _ s₁ t₁ hc₁).next fun _ s₂ t₂ hc₂ => hset s₂ t₂ hc₂
    · intro r s₁ hfailed
      cases r with
      | error e => exact error_ne_ok e
      | ok => exact absurd rfl hfailed
  · exact (stepped_modifyNode _ _ s t hc).next fun _ s₁ t₁ hc₁ => hset s₁ t₁ hc₁

/-- `exfat_truncate` on a device that may fail and on one that cannot. -/
theorem stepped_exfatTruncate (size : Nat) (erase : Bool) :
    FileStepped fault Failed (exfatTruncate size erase) (exfatTruncate size erase) := by
  intro s t hc
  unfold exfatTruncate
  refine inStep_get ?_
  dsimp only
  rw [hc.node, hc.sb]
  refine inStep_ite (fun _ => inStep_throw _) fun _ =>
    inStep_ite (fun _ => inStep_pure _ hc) fun _ => ?_
  refine (stepped_resizeFile _ _ s t hc).bind ?_ ?_
  · intro r s₁ t₁ hc₁
    cases r with
    | error e => exact inStep_pure _ hc₁
    | ok => exact stepped_finishTruncate size erase s₁ t₁ hc₁
  · intro r s₁ hfailed
    cases r with
    | error e => exact error_ne_ok e
    | ok => exact absurd rfl hfailed

end

/-! ### A truncation that succeeds -/

variable {ef : Ef Flat} {n : Node} {L : List Nat} {size : Nat} {erase : Bool}

/-- A volume is a copy of itself on a faulty device. -/
theorem copies_onFaulty (hr : Ready ef) (fault : Nat → Option Nat) (n : Node) :
    FileState.Copies fault ⟨ef.onFaulty fault, n⟩ ⟨ef, n⟩ := by
  refine ⟨⟨?_, 0, ef.errors, rfl⟩, rfl⟩
  cases hbad : ef.sb.clusterInvalid clusterBad with
  | true => rfl
  | false => exact absurd (Valid.lt_end hbad hr.layout) (Nat.lt_irrefl _)

/-- Whatever fails, a call that returns no error has done what it does on a device that works. -/
theorem exfatTruncate_ok_of_faulty (hr : Ready ef) {fault : Nat → Option Nat} {s : FileState Faulty}
    (hrun : exfatTruncate size erase ⟨ef.onFaulty fault, n⟩ = .ok (.ok ()) s) :
    ∃ t, exfatTruncate size erase ⟨ef, n⟩ = .ok (.ok ()) t ∧ s.node = t.node := by
  obtain ⟨t, hrun', hc⟩ :=
    (stepped_exfatTruncate size erase _ _ (copies_onFaulty hr fault n)).ok hrun
    fun hno => hno rfl
  exact ⟨t, hrun', hc.node⟩

/-- If nothing fails the call does what it does on a device that works. -/
theorem exfatTruncate_ok_of_flat (hr : Ready ef) {t : FileState Flat}
    (hrun : exfatTruncate size erase ⟨ef, n⟩ = .ok (.ok ()) t) :
    ∃ s, exfatTruncate size erase (⟨ef.onFaulty fun _ => none, n⟩ : FileState Faulty) =
      .ok (.ok ()) s ∧ s.node = t.node := by
  have hsound : ¬ Fails fun _ => none := fun ⟨_, hk⟩ => Bool.false_ne_true hk
  obtain ⟨s, hrun', hc⟩ := (stepped_exfatTruncate size erase _ _
    (copies_onFaulty hr _ n)).ok_of_sound hsound hrun
  exact ⟨s, hrun', hc.node⟩

end ExFat
