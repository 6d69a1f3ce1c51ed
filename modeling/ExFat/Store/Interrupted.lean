import ExFat.Store.Space
import ExFat.Session.Unmount

namespace ExFat

open Bytes Program Chain

/-!
# A truncation that breaks off

`exfat_truncate` changes the first cluster of a file, the FAT and the bitmap before it sets the
size, and it returns at the first access of the device that fails.  A file that has clusters and
keeps some keeps its first one, so what is left of it can be written back.  A file that gets its
first cluster, or loses its last one, has a first cluster that does not go with its size until the
call is over.
-/

section Anchored

variable {δ : Type} [Device δ] {s : FileState δ}

/-! ### What no failure changes -/

/-- The node starts where it started and has the sizes it had. -/
structure FileState.Anchored (s s' : FileState δ) : Prop where
  sb : s'.ef.sb = s.ef.sb
  start : s'.node.startCluster = s.node.startCluster
  size : s'.node.size = s.node.size
  valid : s'.node.validSize = s.node.validSize

instance : WalkRel (δ := δ) FileState.Anchored where
  refl _ := ⟨rfl, rfl, rfl, rfl⟩
  trans _ _ _ h h' := ⟨h'.sb.trans h.sb, h'.start.trans h.start, h'.size.trans h.size,
    h'.valid.trans h.valid⟩
  call _ := ⟨rfl, rfl, rfl, rfl⟩
  report _ := ⟨rfl, rfl, rfl, rfl⟩
  cursor _ _ _ := ⟨rfl, rfl, rfl, rfl⟩

omit [Device δ] in
/-- `allocate_cluster` leaves the start and the sizes of the file alone. -/
theorem anchored_allocateCluster (hint : Nat) :
    Keeps FileState.Anchored (onEf (allocateCluster (δ := δ) hint)) := by
  intro s
  unfold onEf allocateCluster
  simp only [wp_zoom, wp_bind, wp_get, wp_set]
  split
  · exact ⟨rfl, rfl, rfl, rfl⟩
  · exact ⟨rfl, rfl, rfl, rfl⟩

omit [Device δ] in
/-- `free_cluster` leaves the start and the sizes of the file alone. -/
theorem anchored_freeCluster (cluster : Nat) :
    Keeps FileState.Anchored (onEf (freeCluster (δ := δ) cluster)) := by
  intro s
  unfold onEf freeCluster
  simp only [wp_zoom, wp_bind, wp_get]
  split
  · exact ⟨rfl, rfl, rfl, rfl⟩
  · exact ⟨rfl, rfl, rfl, rfl⟩

/-- `freeLoop` leaves the start and the sizes of the file alone. -/
theorem anchored_freeLoop (difference previous : Nat) :
    Keeps FileState.Anchored (freeLoop (δ := δ) difference previous) := by
  induction difference generalizing previous with
  | zero => exact keeps_pure _
  | succ k ih =>
    refine keeps_look fun s => keeps_ite (keeps_report _ _) ?_
    refine keeps_bind (keeps_exfatNextCluster _) fun next => ?_
    refine keeps_bind (keeps_setNextCluster _ _ _) fun done => keeps_ite ?_ (keeps_pure _)
    exact keeps_bind (anchored_freeCluster _) fun _ => ih next

/-- `shrink_file` behind its walk leaves the start and the sizes alone. -/
theorem anchored_shrinkTail (difference previous : Nat) (s : FileState δ) :
    wp (shrinkTail difference previous) (fun _ s' => s.Anchored s') anyStop s :=
  wp_mono (anchored_freeLoop difference previous _)
    (fun _ _ h => ⟨h.sb, h.start, h.size, h.valid⟩) (fun _ _ _ => trivial)

/-- `shrink_file` that leaves some clusters leaves the first. -/
theorem anchored_shrinkFile {current difference : Nat} (h : difference < current)
    (s : FileState δ) :
    wp (shrinkFile current difference) (fun _ s' => s.Anchored s') anyStop s := by
  unfold shrinkFile
  rw [wp_bind, wp_get]
  split
  · trivial
  · split
    · trivial
    · split
      · trivial
      · rw [wp_bind]
        refine wp_mono (keeps_exfatAdvanceCluster (R := FileState.Anchored) _ s) ?_
          (fun _ _ _ => trivial)
        intro last s₁ h₁
        split
        -- `start_cluster` is not touched when the last cluster turns out to be invalid
        · exact wp_mono (keeps_report (R := FileState.Anchored) _ _ s₁)
            (fun _ _ h₂ => trans_of FileState.Anchored h₁ h₂) (fun _ _ _ => trivial)
        · rw [wp_bind]
          refine wp_mono (keeps_exfatNextCluster (R := FileState.Anchored) _ s₁) ?_
            (fun _ _ _ => trivial)
          intro previous s₂ h₂
          rw [wp_bind]
          refine wp_mono (keeps_setNextCluster (R := FileState.Anchored) _ _ _ s₂) ?_
            (fun _ _ _ => trivial)
          intro done s₃ h₃
          have h₁₃ := trans_of FileState.Anchored h₁ (trans_of FileState.Anchored h₂ h₃)
          split
          · exact wp_conseq (anchored_shrinkTail _ _ s₃) fun _ _ h₄ =>
              trans_of FileState.Anchored h₁₃ h₄
          · exact h₁₃

/-- `shrink_file` that leaves no clusters says so first. -/
theorem emptied_shrinkFile (current : Nat) (s : FileState δ) :
    wp (shrinkFile current current) (fun _ s' => s'.node.startCluster = clusterFree ∧
      s'.node.size = s.node.size ∧ s'.node.validSize = s.node.validSize) anyStop s := by
  unfold shrinkFile
  rw [wp_bind, wp_get]
  split
  · trivial
  · split
    · trivial
    · rw [if_neg (Nat.lt_irrefl current), if_neg (Nat.lt_irrefl current), wp_bind]
      change wp (shrinkTail current s.node.startCluster) _ anyStop _
      exact wp_conseq (anchored_shrinkTail _ _ _) fun _ _ h => ⟨h.start, h.size, h.valid⟩

/-- `linkCluster` leaves the start and the sizes of the file alone. -/
theorem anchored_linkCluster (previous next : Nat) :
    Keeps FileState.Anchored (linkCluster (δ := δ) previous next) := by
  refine keeps_look fun s => keeps_ite ?_ (keeps_setNextCluster _ _ _)
  refine keeps_bind (keeps_makeNoncontiguous _ _) fun done => keeps_ite ?_ (keeps_pure _)
  exact keeps_bind (fun _ => ⟨rfl, rfl, rfl, rfl⟩) fun _ => keeps_setNextCluster _ _ _

/-- The loop of `grow_file` leaves a file that had clusters its first one. -/
theorem anchored_growLoop {current : Nat} (hcur : 0 < current) (k previous allocated : Nat)
    (s : FileState δ) :
    wp (growLoop current k previous allocated) (fun _ s' => s.Anchored s') anyStop s := by
  -- on the clusters that are still to be added
  induction k generalizing previous allocated s with
  | zero =>
    unfold growLoop
    rw [wp_bind, wp_get, wp_bind]
    refine wp_mono (keeps_setNextCluster (R := FileState.Anchored) _ _ _ s) ?_
      (fun _ _ _ => trivial)
    intro done s₁ h₁
    split
    · exact h₁
    · exact h₁
  | succ k ih =>
    unfold growLoop
    rw [wp_bind]
    refine wp_mono (anchored_allocateCluster _ s) ?_ (fun _ _ _ => trivial)
    intro next s₁ h₁
    rw [wp_bind, wp_get]
    split
    · split
      next hne =>
        rw [wp_bind]
        -- the growth is undone, with clusters left
        refine wp_conseq (anchored_shrinkFile (by omega) s₁) ?_
        exact fun _ _ h₂ => trans_of FileState.Anchored h₁ h₂
      · exact h₁
    · rw [wp_bind]
      refine wp_mono (anchored_linkCluster previous next s₁) ?_ (fun _ _ _ => trivial)
      intro linked s₂ h₂
      have h₁₂ := trans_of FileState.Anchored h₁ h₂
      split
      · exact wp_conseq (ih next (allocated + 1) s₂) fun _ _ h₃ =>
          trans_of FileState.Anchored h₁₂ h₃
      · exact h₁₂

/-- A file that has clusters and keeps some keeps its first one. -/
theorem anchored_resizeFile {c1 c2 : Nat} (hc1 : 0 < c1) (hc2 : 0 < c2)
    (hstart : s.node.startCluster ≠ clusterFree) :
    wp (resizeFile c1 c2) (fun _ s' => s.Anchored s') anyStop s := by
  unfold resizeFile
  split
  · unfold growFile
    rw [wp_bind, wp_get]
    split
    · trivial
    · rw [wp_bind]
      refine wp_mono (keeps_exfatAdvanceCluster (R := FileState.Anchored) _ s) ?_
        (fun _ _ _ => trivial)
      intro previous s₁ h₁
      split
      · exact wp_mono (keeps_report (R := FileState.Anchored) _ _ s₁)
          (fun _ _ h₂ => trans_of FileState.Anchored h₁ h₂) (fun _ _ _ => trivial)
      · refine wp_conseq (anchored_growLoop hc1 _ _ _ s₁) ?_
        exact fun _ _ h₂ => trans_of FileState.Anchored h₁ h₂
  · split
    · exact anchored_shrinkFile (by omega) s
    · exact refl_of FileState.Anchored s

/-- The end of `exfat_truncate` sets both sizes or neither. -/
theorem sized_finishTruncate (size : Nat) (erase : Bool) (s : FileState δ) :
    wp (finishTruncate size erase) (fun _ s' => s'.node.startCluster = s.node.startCluster ∧
      ((s'.node.size = s.node.size ∧ s'.node.validSize = s.node.validSize) ∨
        (s'.node.size = size ∧ s'.node.validSize ≤ size))) anyStop s := by
  unfold finishTruncate
  cases erase with
  | false =>
    rw [if_neg (by decide)]
    exact ⟨rfl, Or.inr ⟨rfl, Nat.min_le_right _ _⟩⟩
  | true =>
    rw [if_pos rfl, wp_bind, wp_get, wp_bind]
    refine wp_mono (keeps_eraseRange (R := FileState.Anchored) _ _ s) ?_ (fun _ _ _ => trivial)
    intro r s₁ h₁
    cases r with
    | error e => exact ⟨h₁.start, Or.inl ⟨h₁.size, h₁.valid⟩⟩
    | ok => exact ⟨h₁.start, Or.inr ⟨rfl, Nat.le_refl size⟩⟩

end Anchored

/-! ### What needs no device -/

section Contiguous

variable {δ : Type} {ef : Ef δ} {n : Node}

/-- `allocate_cluster` takes the first free cluster from the hint on. -/
theorem allocateCluster_first (hm : ef.Mapped) (hint : Nat) {i : Nat} (hi : i < ef.sb.clusterCount)
    (hfree : ef.cmap.chunk i = false) (hle : hintBit hint ef.cmap.chunkSize ≤ i)
    (hbefore : ∀ j, hintBit hint ef.cmap.chunkSize ≤ j → j < i → ef.cmap.chunk j = true) :
    allocateCluster hint ef =
      .ok (i + 2) (withBitmap ef (Function.update ef.cmap.chunk i true) true ef.errors) := by
  have hcount := hm.layout.count_lt
  have hend : clusterEnd = 4294967295 := rfl
  have hfind : findBitAndSet ef.wordBits ef.cmap.chunk (hintBit hint ef.cmap.chunkSize)
      ef.cmap.chunkSize = (i + 2, Function.update ef.cmap.chunk i true) := by
    rcases findBitAndSet_cases hm.word ef.cmap.chunk (hintBit hint ef.cmap.chunkSize)
        ef.cmap.chunkSize with ⟨c, hc1, hc2, hclear, hfirst, hres⟩ | ⟨hfull, -⟩
    -- the first free bit from the hint on is `i`
    · have hci : c = i := by
        rcases Nat.lt_trichotomy c i with hlt | heq | hgt
        · exact absurd (hbefore c hc1 hlt) (by rw [hclear]; decide)
        · exact heq
        · exact absurd (hfirst i hle hgt) (by rw [hfree]; decide)
      subst hci
      have hu32 : u32 (c + 2) = c + 2 := Nat.mod_eq_of_lt (by omega)
      rw [hres, hu32]
    · exact absurd (hfull i hle (by rw [hm.chunkSize]; exact hi)) (by rw [hfree]; decide)
  have hsearch : searchBits ef.wordBits ef.cmap hint =
      (i + 2, Function.update ef.cmap.chunk i true) := by
    unfold searchBits
    dsimp only
    rw [hfind, if_neg (by omega)]
  unfold allocateCluster
  rw [run_bind_ok (run_get _), hsearch, run_bind_ok (run_set _ _)]
  dsimp only
  rw [if_neg (by omega)]
  rfl

variable [Device δ]

/-- The clusters of a contiguous file are freed without an access of the device. -/
theorem freeLoop_contiguous (hl : Layout ef.sb) (hsize : ef.cmap.size = ef.sb.clusterCount)
    (hcont : n.isContiguous = true) {k c : Nat} (hv : ∀ j, j < k → Valid ef.sb (c + j)) :
    ∃ chunk' dirty', freeLoop k c (⟨ef, n⟩ : FileState δ) =
      .ok (.ok ()) ⟨withBitmap ef chunk' dirty' ef.errors, n⟩ := by
  -- on the clusters that are still to be freed
  induction k generalizing ef c with
  | zero => exact ⟨ef.cmap.chunk, ef.cmap.dirty, rfl⟩
  | succ k ih =>
    have hc : Valid ef.sb c := hv 0 (Nat.succ_pos k)
    have hbad : ef.sb.clusterInvalid c = false := hc
    have hword := hc.lt_word hl
    have hnext : exfatNextCluster c (⟨ef, n⟩ : FileState δ) = .ok (c + 1) ⟨ef, n⟩ := by
      have hlt := hc.lt_end hl
      have hu32 : u32 (c + 1) = c + 1 := by
        unfold clusterBad at hlt
        exact Nat.mod_eq_of_lt (by omega)
      have htwo := hc.two_le
      unfold exfatNextCluster firstDataCluster
      rw [run_bind_ok (run_get _)]
      dsimp only
      rw [if_neg (by omega), if_pos hcont, hu32]
      rfl
    have hlink : onEf (setNextCluster n.isContiguous c clusterFree) (⟨ef, n⟩ : FileState δ) =
        .ok true ⟨ef, n⟩ := by
      rw [hcont]
      exact run_onEf_ok rfl
    have hfree := freeCluster_run hl hc hsize
    let ef₁ := withBitmap ef (Function.update ef.cmap.chunk (c - 2) false) true ef.errors
    have hv₁ : ∀ j, j < k → Valid ef₁.sb (c + 1 + j) := by
      intro j hj
      have hvj := hv (j + 1) (by omega)
      rwa [Nat.add_comm j 1, ← Nat.add_assoc] at hvj
    obtain ⟨chunk', dirty', hrest⟩ := @ih ef₁ hl hsize (c + 1) hv₁
    refine ⟨chunk', dirty', ?_⟩
    unfold freeLoop
    rw [run_bind_ok (run_get _)]
    dsimp only
    rw [hbad, if_neg (by decide), run_bind_ok hnext, run_bind_ok hlink, if_pos rfl,
      run_bind_ok (run_onEf_ok hfree)]
    exact hrest

/-- The node of a file that has lost its clusters. -/
def Node.emptied (n : Node) : Node :=
  { n with
    startCluster := clusterFree, isDirty := true, fptrIndex := 0, fptrCluster := clusterFree }

/-- A contiguous file loses all its clusters. -/
theorem resizeFile_emptied (hl : Layout ef.sb) (hsize : ef.cmap.size = ef.sb.clusterCount)
    (hcont : n.isContiguous = true) {k : Nat} (hk : 0 < k)
    (hv : ∀ j, j < k → Valid ef.sb (n.startCluster + j)) :
    ∃ chunk' dirty', resizeFile k 0 (⟨ef, n⟩ : FileState δ) =
      .ok (.ok ()) ⟨withBitmap ef chunk' dirty' ef.errors, n.emptied⟩ := by
  have htwo := (hv 0 hk).two_le
  obtain ⟨chunk', dirty', hrun⟩ := freeLoop_contiguous (n := n.emptied) hl hsize hcont hv
  refine ⟨chunk', dirty', ?_⟩
  unfold resizeFile
  rw [if_neg (Nat.not_lt_zero k), if_pos hk, Nat.sub_zero]
  unfold shrinkFile
  rw [run_bind_ok (run_get _)]
  dsimp only
  have hstart : n.startCluster ≠ clusterFree := by
    unfold clusterFree
    omega
  rw [if_neg (by omega), if_neg hstart, if_neg (Nat.lt_irrefl k), if_neg (Nat.lt_irrefl k),
    run_bind_ok (run_modifyNode _ _)]
  unfold shrinkTail
  rw [run_bind_ok (run_modifyNode _ _)]
  exact hrun

/-- Clusters that lie one behind the other are added without an access of the device. -/
theorem growLoop_consecutive (hm : ef.Mapped) (hcont : n.isContiguous = true)
    (current rest allocated : Nat) {k p : Nat}
    (hfree : ∀ i, i < k → p + i < ef.sb.clusterCount ∧ ef.cmap.chunk (p + i) = false) :
    ∃ chunk' dirty', growLoop current (rest + k) (p + 1) allocated (⟨ef, n⟩ : FileState δ) =
        growLoop current rest (p + 1 + k) (allocated + k)
        ⟨withBitmap ef chunk' dirty' ef.errors, n⟩ ∧
      freeCount ef.sb chunk' + k = freeCount ef.sb ef.cmap.chunk ∧
      ∀ i, p + k ≤ i → chunk' i = ef.cmap.chunk i := by
  -- on the clusters that are still to be added
  induction k generalizing ef p allocated with
  | zero =>
    refine ⟨ef.cmap.chunk, ef.cmap.dirty, ?_, Nat.add_zero _, fun _ _ => rfl⟩
    rw [withBitmap_self]
    rfl
  | succ k ih =>
    obtain ⟨hp, hbit⟩ := hfree 0 (Nat.succ_pos k)
    rw [Nat.add_zero] at hp hbit
    have hcount := hm.layout.count_lt
    have hvalid : Valid ef.sb (p + 2) := clusterInvalid_eq_false.mpr (by omega)
    have hbad : ef.sb.clusterInvalid (p + 2) = false := hvalid
    have hu32 : u32 (p + 1 + 1) = p + 2 := Nat.mod_eq_of_lt (by omega)
    have hhint : hintBit (p + 2) ef.cmap.chunkSize = p := by
      have hsub : sub32 (p + 2) firstDataCluster = p := by
        unfold sub32 firstDataCluster
        omega
      unfold hintBit
      rw [hsub, hm.chunkSize, if_neg (by omega)]
    have hallocate := allocateCluster_first hm (p + 2) hp hbit (by omega)
      (fun j h1 h2 => absurd h2 (by omega))
    let ef₁ := withBitmap ef (Function.update ef.cmap.chunk p true) true ef.errors
    have hlink : linkCluster (p + 1) (p + 2) (⟨ef₁, n⟩ : FileState δ) = .ok true ⟨ef₁, n⟩ := by
      unfold linkCluster
      rw [run_bind_ok (run_get _)]
      dsimp only
      rw [if_neg (by rw [hu32]; exact fun h => h.1 rfl), hcont]
      exact run_onEf_ok rfl
    have hfree₁ : ∀ i, i < k → p + 1 + i < ef₁.sb.clusterCount ∧
        ef₁.cmap.chunk (p + 1 + i) = false := by
      intro i hi
      obtain ⟨h1, h2⟩ := hfree (i + 1) (by omega)
      have hne : p + 1 + i ≠ p := by omega
      refine ⟨by show p + 1 + i < ef.sb.clusterCount; omega, ?_⟩
      show Function.update ef.cmap.chunk p true (p + 1 + i) = false
      rw [Function.update_of_ne hne, Nat.add_right_comm, Nat.add_assoc]
      exact h2
    obtain ⟨chunk', dirty', hrun, hcard, hsame⟩ := @ih ef₁ ⟨hm.layout, hm.word, hm.chunkSize⟩
      (allocated + 1) (p + 1) hfree₁
    refine ⟨chunk', dirty', ?_, ?_, ?_⟩
    · rw [← Nat.add_assoc rest k 1, growLoop, hu32, run_bind_ok (run_onEf_ok hallocate),
        run_bind_ok (run_get _)]
      dsimp only
      rw [show (withBitmap ef (Function.update ef.cmap.chunk p true)
        true ef.errors).sb.clusterInvalid
        (p + 2) = false from hbad, if_neg (by decide), run_bind_ok hlink, if_pos rfl]
      refine hrun.trans ?_
      rw [Nat.add_assoc (p + 1) 1 k, Nat.add_assoc allocated 1 k, Nat.add_comm 1 k]
      rfl
    · have hone := freeCount_take hp hbit
      rw [withBitmap_sb, withBitmap_chunk] at hcard
      omega
    · intro i hi
      rw [hsame i (by omega)]
      exact Function.update_of_ne (by omega) _ _

omit [Device δ] in
/-- Bytes of a file that has lost its clusters. -/
theorem not_valid_free (sb : SuperBlock) : sb.clusterInvalid clusterFree = true := by
  by_contra h
  have hv : Valid sb clusterFree := by simpa [Valid] using h
  have htwo := hv.two_le
  unfold clusterFree at htwo
  omega

/-- Nothing can be erased in a file without clusters. -/
theorem eraseRange_free (hindex : n.fptrIndex = 0) (hfptr : n.fptrCluster = clusterFree)
    {start stop : Nat} (hlt : start < stop) (hsmall : start < ef.sb.clusterSize) :
    ∃ ef', eraseRange start stop (⟨ef, n⟩ : FileState δ) = .ok (.error .eio) ⟨ef', n⟩ := by
  have hzero : u32 (start / ef.sb.clusterSize) = 0 := by
    rw [Nat.div_eq_of_lt hsmall]
    rfl
  unfold eraseRange
  rw [run_bind_ok (run_get _)]
  dsimp only
  rw [if_neg (by omega), hzero, run_bind_ok (exfatAdvanceCluster_zero hindex), hfptr,
    not_valid_free, if_pos rfl]
  exact ⟨_, rfl⟩

/-- The end of a truncation that does not erase. -/
theorem finishTruncate_keep (ef : Ef δ) (n : Node) (size : Nat) :
    ∃ s, finishTruncate size false (⟨ef, n⟩ : FileState δ) = .ok (.ok ()) s ∧ s.node.size = size ∧
      s.node.validSize ≤ size ∧ s.node.startCluster = n.startCluster :=
  ⟨_, rfl, rfl, Nat.min_le_right _ _, rfl⟩

/-- The end of a truncation to nothing. -/
theorem finishTruncate_zero (ef : Ef δ) (n : Node) (erase : Bool) :
    ∃ s, finishTruncate 0 erase (⟨ef, n⟩ : FileState δ) = .ok (.ok ()) s ∧ s.node.size = 0 ∧
      s.node.validSize ≤ 0 ∧ s.node.startCluster = n.startCluster := by
  cases erase with
  | false => exact finishTruncate_keep ef n 0
  | true => exact ⟨_, rfl, rfl, Nat.le_refl 0, rfl⟩

/-- The end of a truncation that sets a size and has nothing to erase it in. -/
theorem finishTruncate_free (hindex : n.fptrIndex = 0) (hfptr : n.fptrCluster = clusterFree)
    {size : Nat} (hlt : n.validSize < size) (hsmall : n.validSize < ef.sb.clusterSize) :
    ∃ ef', finishTruncate size true (⟨ef, n⟩ : FileState δ) = .ok (.error .eio) ⟨ef', n⟩ := by
  obtain ⟨ef', hrun⟩ := eraseRange_free (δ := δ) hindex hfptr hlt hsmall
  refine ⟨ef', ?_⟩
  unfold finishTruncate
  rw [if_pos rfl, run_bind_ok (run_get _), run_bind_ok hrun]
  rfl

/-- The same, when the erasing would start behind the first cluster. -/
theorem finishTruncate_stuck (hindex : n.fptrIndex = 0) (hfptr : n.fptrCluster = clusterFree)
    {size : Nat} (hlt : n.validSize < size) (hlarge : ef.sb.clusterSize ≤ n.validSize)
    (hword : n.validSize / ef.sb.clusterSize < 2 ^ 32) :
    ∃ e s, finishTruncate size true (⟨ef, n⟩ : FileState δ) = .error e s := by
  have hpos : 0 < u32 (n.validSize / ef.sb.clusterSize) := by
    have hu32 : u32 (n.validSize / ef.sb.clusterSize) = n.validSize / ef.sb.clusterSize :=
      Nat.mod_eq_of_lt hword
    rw [hu32]
    exact Nat.div_pos hlarge ef.sb.clusterSize_pos
  have herase : eraseRange n.validSize size (⟨ef, n⟩ : FileState δ) = .error (.bug "bad cluster")
      ⟨ef, n⟩ := by
    unfold eraseRange
    rw [run_bind_ok (run_get _)]
    dsimp only
    rw [if_neg (by omega)]
    exact run_bind_error (exfatAdvanceCluster_free hindex hfptr hpos)
  unfold finishTruncate
  rw [if_pos rfl, run_bind_ok (run_get _)]
  exact ⟨_, _, run_bind_error herase⟩

/-- The node of an empty file that has got its first cluster. -/
def Node.opened (n : Node) (c : Nat) : Node :=
  { n with fptrCluster := c, startCluster := c, isContiguous := true }

/-- `grow_file` on an empty file, as far as the free clusters lie one behind the other: `f` is the
first of them, and `m` are taken. -/
theorem growFile_consecutive (hm : ef.Mapped) (hstart : n.startCluster = clusterFree)
    (hfptr : n.fptrIndex = 0) {f m k : Nat} (hbefore : ∀ j, j < f → ef.cmap.chunk j = true)
    (hpos : 0 < m) (hle : m ≤ k)
    (hfree : ∀ i, i < m → f + i < ef.sb.clusterCount ∧ ef.cmap.chunk (f + i) = false) :
    ∃ chunk' dirty', growFile 0 k (⟨ef, n⟩ : FileState δ) = growLoop 0 (k - m) (f + 1 + m) m
        ⟨withBitmap ef chunk' dirty' ef.errors, n.opened (f + 2)⟩ ∧
      freeCount ef.sb chunk' + m = freeCount ef.sb ef.cmap.chunk ∧
      ∀ i, f + m ≤ i → chunk' i = ef.cmap.chunk i := by
  obtain ⟨hf, hbit⟩ := hfree 0 hpos
  rw [Nat.add_zero] at hf hbit
  have hcount := hm.layout.count_lt
  have hvalid : Valid ef.sb (f + 2) := clusterInvalid_eq_false.mpr (by omega)
  have hbad : ef.sb.clusterInvalid (f + 2) = false := hvalid
  -- the hint 0 searches from the first bit on
  have hhint : hintBit 0 ef.cmap.chunkSize = 0 := by
    have hsub : sub32 0 firstDataCluster = 2 ^ 32 - 2 := rfl
    unfold hintBit
    rw [hsub, hm.chunkSize, if_pos (by omega)]
  have hallocate := allocateCluster_first hm 0 hf hbit (by omega) (fun j _ hj => hbefore j hj)
  let ef₁ := withBitmap ef (Function.update ef.cmap.chunk f true) true ef.errors
  have hfree₁ : ∀ i, i < m - 1 → f + 1 + i < ef₁.sb.clusterCount ∧
      ef₁.cmap.chunk (f + 1 + i) = false := by
    intro i hi
    obtain ⟨h1, h2⟩ := hfree (i + 1) (by omega)
    have hne : f + 1 + i ≠ f := by omega
    refine ⟨by show f + 1 + i < ef.sb.clusterCount; omega, ?_⟩
    show Function.update ef.cmap.chunk f true (f + 1 + i) = false
    rw [Function.update_of_ne hne, Nat.add_right_comm, Nat.add_assoc]
    exact h2
  have hm₁ : ef₁.Mapped := ⟨hm.layout, hm.word, hm.chunkSize⟩
  obtain ⟨chunk', dirty', hrun, hcard, hsame⟩ :=
    growLoop_consecutive (n := n.opened (f + 2)) hm₁ rfl 0 (k - m) 1 hfree₁
  refine ⟨chunk', dirty', ?_, ?_, ?_⟩
  · unfold growFile
    rw [run_bind_ok (run_get _)]
    dsimp only
    rw [if_neg (by omega), if_neg (fun h => h hstart), if_neg (fun h => h hfptr),
      run_bind_ok (run_onEf_ok hallocate), hbad, if_neg (by decide),
      run_bind_ok (run_modifyNode _ _)]
    have hrest : k - m + (m - 1) = k - 1 := by omega
    have hlast : f + 1 + 1 + (m - 1) = f + 1 + m := by omega
    have hall : 1 + (m - 1) = m := by omega
    rw [hrest, hlast, hall] at hrun
    exact hrun
  · have hone := freeCount_take hf hbit
    rw [withBitmap_sb, withBitmap_chunk] at hcard
    omega
  · intro i hi
    rw [hsame i (by omega)]
    exact Function.update_of_ne (by omega) _ _

/-- The loop of `grow_file` that runs out of space takes an empty file all it has got. -/
theorem growLoop_emptied (hm : ef.Mapped) (hfull : freeCount ef.sb ef.cmap.chunk = 0)
    {k previous allocated : Nat} (hk : 0 < k) (hall : 0 < allocated) :
    wp (growLoop 0 k previous allocated) (fun r s' => r = .error .enospc ∧
      s'.node.startCluster = clusterFree ∧ s'.node.size = n.size ∧ s'.node.validSize = n.validSize)
      anyStop ⟨ef, n⟩ := by
  obtain ⟨k, rfl⟩ := Nat.exists_eq_succ_of_ne_zero (Nat.pos_iff_ne_zero.mp hk)
  have hbad := clusterEnd_not_valid hm.layout
  unfold growLoop
  rw [wp_bind]
  rcases allocateCluster_run ef (u32 (previous + 1)) hm.layout hm.word hm.chunkSize with
    ⟨c, hc, hfree, -⟩ | ⟨-, hrun⟩
  · have hone := freeCount_update hc hfree
    omega
  · refine wp_of_ok (run_onEf_ok hrun) ?_
    rw [wp_bind, wp_get]
    dsimp only
    rw [if_pos (by exact hbad), if_pos (Nat.pos_iff_ne_zero.mp hall), Nat.zero_add, wp_bind]
    exact wp_conseq (emptied_shrinkFile allocated _) fun _ _ h => ⟨rfl, h⟩

/-- `grow_file` on an empty file when there is not one free cluster. -/
theorem growFile_full (hm : ef.Mapped) (hfull : freeCount ef.sb ef.cmap.chunk = 0)
    (hstart : n.startCluster = clusterFree) (hfptr : n.fptrIndex = 0) {k : Nat} (hk : 0 < k) :
    ∃ ef', growFile 0 k (⟨ef, n⟩ : FileState δ) = .ok (.error .enospc) ⟨ef', n⟩ := by
  have hbad := clusterEnd_not_valid hm.layout
  unfold growFile
  rw [run_bind_ok (run_get _)]
  dsimp only
  rw [if_neg (by omega), if_neg (fun h => h hstart), if_neg (fun h => h hfptr)]
  rcases allocateCluster_run ef 0 hm.layout hm.word hm.chunkSize with ⟨c, hc, hfree, -⟩ | ⟨-, hrun⟩
  · have hone := freeCount_update hc hfree
    omega
  · rw [run_bind_ok (run_onEf_ok hrun), hbad, if_pos rfl]
    exact ⟨_, rfl⟩

end Contiguous

/-! ### A device that does nothing any more -/

/-- The volume on a device that fails at the calls `fault` names. -/
def Ef.onFaulty (ef : Ef Flat) (fault : Nat → Option Nat) : Ef Faulty :=
  { ef with dev := { bytes := ef.dev.bytes, size := ef.dev.size, calls := 0, fault := fault } }

/-- A device all of whose calls fail. -/
def Doomed (d : Faulty) : Prop := ∀ k, (d.fault k).isSome = true

section Doomed

variable {ef : Ef Faulty} {n : Node}

/-- A read of a device that has failed fails. -/
theorem exfatPread_doomed (h : Doomed ef.dev) (size offset : Nat) :
    ∃ d, Doomed d ∧ exfatPread size offset ef = .ok none { ef with dev := d } := by
  refine ⟨{ ef.dev with calls := ef.dev.calls + 1 }, h, ?_⟩
  unfold exfatPread
  rw [run_bind_ok (run_get _), run_bind_ok (run_set _ _)]
  have hnone : (Device.pread size offset ef.dev).1 = none := if_pos (h _)
  rw [hnone]
  rfl

/-- A write to a device that has failed fails. -/
theorem exfatPwrite_doomed (h : Doomed ef.dev) (data : List UInt8) (offset : Nat) :
    ∃ d, Doomed d ∧ exfatPwrite data offset ef = .ok none { ef with dev := d } := by
  obtain ⟨k, hk⟩ := Option.isSome_iff_exists.mp (h ef.dev.calls)
  have hcall : Device.pwrite data offset ef.dev = (none, { ef.dev with
      bytes := writeBytes ef.dev.bytes offset (data.take k), calls := ef.dev.calls + 1 }) := by
    unfold Device.pwrite instDeviceFaulty
    simp only [hk]
  refine ⟨{ ef.dev with
    bytes := writeBytes ef.dev.bytes offset (data.take k), calls := ef.dev.calls + 1 }, h, ?_⟩
  unfold exfatPwrite
  rw [run_bind_ok (run_get _), hcall]
  rfl

/-- Linking a cluster fails on a device that has failed. -/
theorem setNextCluster_doomed (h : Doomed ef.dev) (current next : Nat) :
    ∃ ef', setNextCluster false current next ef = .ok false ef' := by
  obtain ⟨d, -, hrun⟩ := exfatPwrite_doomed h (natLe 4 next) (fatOffset ef.sb current)
  unfold setNextCluster
  rw [run_bind_ok (run_get _), if_neg (by decide), run_bind_ok hrun]
  exact ⟨_, rfl⟩

/-- Erasing fails on a device that has failed. -/
theorem eraseRaw_doomed (h : Doomed ef.dev) (size offset : Nat) :
    ∃ ef', eraseRaw size offset ef = .ok false ef' := by
  obtain ⟨d, -, hrun⟩ := exfatPwrite_doomed h (List.replicate size 0) offset
  unfold eraseRaw
  rw [run_bind_ok hrun]
  exact ⟨_, rfl⟩

/-- A file cannot be made fragmented. -/
theorem linkCluster_doomed (h : Doomed ef.dev) (hcont : n.isContiguous = true) {previous next : Nat}
    (hne : next ≠ u32 (previous + 1)) :
    ∃ s, linkCluster previous next (⟨ef, n⟩ : FileState Faulty) = .ok false s := by
  unfold linkCluster
  rw [run_bind_ok (run_get _)]
  dsimp only
  rw [if_pos ⟨hne, hcont⟩]
  cases hk : previous - n.startCluster with
  | zero =>
    obtain ⟨ef', hrun⟩ := setNextCluster_doomed h previous next
    have hmake : makeNoncontiguous n.startCluster 0 ef = .ok true ef := rfl
    rw [run_bind_ok (run_onEf_ok hmake), if_pos rfl, run_bind_ok (run_modifyNode _ _)]
    exact ⟨_, run_onEf_ok hrun⟩
  | succ k =>
    obtain ⟨ef', hrun⟩ := setNextCluster_doomed h n.startCluster (n.startCluster + 1)
    have hmake : makeNoncontiguous n.startCluster (k + 1) ef = .ok false ef' := by
      unfold makeNoncontiguous
      rw [run_bind_ok hrun]
      rfl
    rw [run_bind_ok (run_onEf_ok hmake)]
    exact ⟨_, rfl⟩

/-- The clusters of a fragmented file cannot be freed. -/
theorem freeLoop_doomed (h : Doomed ef.dev) (hcont : n.isContiguous = false) {c : Nat}
    (hc : Valid ef.sb c) (k : Nat) :
    ∃ s, freeLoop (k + 1) c (⟨ef, n⟩ : FileState Faulty) = .ok (.error .eio) s := by
  have hbad : ef.sb.clusterInvalid c = false := hc
  have htwo := hc.two_le
  obtain ⟨d, hd, hread⟩ := exfatPread_doomed h 4 (fatOffset ef.sb c)
  let ef₁ : Ef Faulty := { ef with dev := d }
  have hd₁ : Doomed ef₁.dev := hd
  obtain ⟨ef', hwrite⟩ := setNextCluster_doomed hd₁ c clusterFree
  have hnext : exfatNextCluster c (⟨ef, n⟩ : FileState Faulty) = .ok clusterBad ⟨ef₁, n⟩ := by
    unfold exfatNextCluster firstDataCluster
    rw [run_bind_ok (run_get _)]
    dsimp only
    rw [if_neg (by omega), hcont, if_neg (by decide), run_bind_ok (run_onEf_ok hread)]
    rfl
  unfold freeLoop
  rw [run_bind_ok (run_get _)]
  dsimp only
  rw [hbad, if_neg (by decide), run_bind_ok hnext, hcont, run_bind_ok (run_onEf_ok hwrite)]
  exact ⟨_, rfl⟩

/-- Shrinking a file in the FAT fails on a device that has failed. -/
theorem shrinkFile_doomed (h : Doomed ef.dev) (hcont : n.isContiguous = false)
    (hstart : Valid ef.sb n.startCluster) {k : Nat} (hk : 0 < k) :
    ∃ s, shrinkFile k k (⟨ef, n⟩ : FileState Faulty) = .ok (.error .eio) s := by
  have htwo := hstart.two_le
  have hne : n.startCluster ≠ clusterFree := by
    unfold clusterFree
    omega
  obtain ⟨k, rfl⟩ := Nat.exists_eq_succ_of_ne_zero (Nat.pos_iff_ne_zero.mp hk)
  obtain ⟨s, hrun⟩ := freeLoop_doomed (n := n.emptied) h hcont hstart k
  refine ⟨s, ?_⟩
  unfold shrinkFile
  rw [run_bind_ok (run_get _)]
  dsimp only
  rw [if_neg (by omega), if_neg hne, if_neg (Nat.lt_irrefl _), if_neg (Nat.lt_irrefl _),
    run_bind_ok (run_modifyNode _ _)]
  unfold shrinkTail
  rw [run_bind_ok (run_modifyNode _ _)]
  exact hrun

/-- The loop of `grow_file` breaks off where the free clusters do not lie one behind the other. -/
theorem growLoop_doomed (hm : ef.Mapped) (h : Doomed ef.dev) (hcont : n.isContiguous = true)
    (hfree : 0 < freeCount ef.sb ef.cmap.chunk) {p : Nat} (hle : p ≤ ef.sb.clusterCount)
    (hp : p < ef.sb.clusterCount → ef.cmap.chunk p = true) {k : Nat} (hk : 0 < k)
    (current allocated : Nat) :
    ∃ s, growLoop current k (p + 1) allocated (⟨ef, n⟩ : FileState Faulty) = .ok (.error .eio) s ∧
      FileState.Anchored ⟨ef, n⟩ s := by
  obtain ⟨k, rfl⟩ := Nat.exists_eq_succ_of_ne_zero (Nat.pos_iff_ne_zero.mp hk)
  have hcount := hm.layout.count_lt
  -- a cluster is found, or nothing is free
  rcases allocateCluster_run ef (u32 (p + 1 + 1)) hm.layout hm.word hm.chunkSize with
    ⟨c, hc, hbit, hrun⟩ | ⟨hfull, -⟩
  · have hbad : ef.sb.clusterInvalid c = false := hc
    have hne : c ≠ u32 (p + 1 + 1) := by
      intro hcp
      have hlt := hc.lt
      have htwo := hc.two_le
      have hu32 : u32 (p + 1 + 1) = p + 2 := Nat.mod_eq_of_lt (by omega)
      have hcp' : c - 2 = p := by omega
      rw [hcp'] at hbit
      exact absurd (hp (by omega)) (by rw [hbit]; decide)
    let ef₁ := withBitmap ef (Function.update ef.cmap.chunk (c - 2) true) true ef.errors
    have h₁ : Doomed ef₁.dev := h
    obtain ⟨s, hlink⟩ := linkCluster_doomed h₁ hcont hne
    have hanchor : FileState.Anchored ⟨ef₁, n⟩ s := (anchored_linkCluster (p + 1) c).ok hlink
    refine ⟨s, ?_, ⟨hanchor.sb, hanchor.start, hanchor.size, hanchor.valid⟩⟩
    unfold growLoop
    rw [run_bind_ok (run_onEf_ok hrun), run_bind_ok (run_get _)]
    dsimp only
    rw [show (withBitmap ef (Function.update ef.cmap.chunk (c - 2) true) true
      ef.errors).sb.clusterInvalid c = false from hbad, if_neg (by decide), run_bind_ok hlink]
    rfl
  · rw [freeCount_of_full hfull] at hfree
    cases hfree

/-- The first bytes of an empty file that has got clusters cannot be erased. -/
theorem finishTruncate_doomed (h : Doomed ef.dev) {c : Nat} (hc : Valid ef.sb c)
    (hindex : n.fptrIndex = 0) (hvalid : n.validSize = 0) {size : Nat} (hsize : 0 < size) :
    ∃ ef', finishTruncate size true (⟨ef, n.opened c⟩ : FileState Faulty) =
      .ok (.error .eio) ⟨ef', n.opened c⟩ := by
  have hbad : ef.sb.clusterInvalid c = false := hc
  have hzero : u32 (0 / ef.sb.clusterSize) = 0 := by
    rw [Nat.zero_div]
    rfl
  have hadvance : exfatAdvanceCluster 0 (⟨ef, n.opened c⟩ : FileState Faulty) =
      .ok c ⟨ef, n.opened c⟩ :=
    exfatAdvanceCluster_zero hindex
  obtain ⟨ef', herase⟩ := eraseRaw_doomed h (min ((0 ||| (ef.sb.clusterSize - 1)) + 1) size - 0)
    (clusterOffset ef.sb c + 0 % ef.sb.clusterSize)
  have hrange : eraseRange 0 size (⟨ef, n.opened c⟩ : FileState Faulty) =
      .ok (.error .eio) ⟨ef', n.opened c⟩ := by
    unfold eraseRange
    rw [run_bind_ok (run_get _)]
    dsimp only
    rw [if_neg (by omega), hzero, run_bind_ok hadvance, hbad, if_neg (by decide),
      run_bind_ok (run_onEf_ok (run_exfatC2o hc.two_le)), run_bind_ok (run_onEf_ok herase)]
    rfl
  have hv : (n.opened c).validSize = 0 := hvalid
  refine ⟨ef', ?_⟩
  unfold finishTruncate
  rw [if_pos rfl, run_bind_ok (run_get _)]
  dsimp only
  rw [hv, run_bind_ok hrange]
  rfl

end Doomed

/-! ### What is left of the node -/

/-- What `check_node` wants of the first cluster of an entry, and that no more is valid than there
is. -/
structure StartSane (sb : SuperBlock) (n : Node) : Prop where
  empty : n.size = 0 ↔ n.startCluster = clusterFree
  start : 0 < n.size → Valid sb n.startCluster
  valid : n.validSize ≤ n.size

section Truncate

variable {δ : Type} [Device δ] {ef : Ef δ} {n : Node} {s s₁ : FileState δ}
  {size : Nat} {erase : Bool}

/-- A truncation whose clusters cannot be changed returns that error. -/
theorem exfatTruncate_failed (href : n.references = 0 → n.parent = none) (hne : n.size ≠ size)
    {e : Errno}
    (hrun : resizeFile (bytes2clusters ef.sb n.size) (bytes2clusters ef.sb size) ⟨ef, n⟩ =
      .ok (.error e) s₁) : exfatTruncate size erase ⟨ef, n⟩ = .ok (.error e) s₁ := by
  unfold exfatTruncate
  rw [run_bind_ok (run_get _)]
  dsimp only
  rw [if_neg (by rintro ⟨h0, h1⟩; rw [href h0] at h1; cases h1), if_neg hne,
    run_bind_ok hrun]
  rfl

/-- A truncation whose clusters have been changed goes on to the size. -/
theorem exfatTruncate_finish (href : n.references = 0 → n.parent = none) (hne : n.size ≠ size)
    (hrun : resizeFile (bytes2clusters ef.sb n.size) (bytes2clusters ef.sb size) ⟨ef, n⟩ =
      .ok (.ok ()) s₁) : exfatTruncate size erase ⟨ef, n⟩ = finishTruncate size erase s₁ := by
  unfold exfatTruncate
  rw [run_bind_ok (run_get _)]
  dsimp only
  rw [if_neg (by rintro ⟨h0, h1⟩; rw [href h0] at h1; cases h1), if_neg hne,
    run_bind_ok hrun]
  rfl

/-- A truncation whose clusters stop the program stops. -/
theorem exfatTruncate_halted (href : n.references = 0 → n.parent = none)
    (hne : n.size ≠ size) {e : Halt}
    (hrun : resizeFile (bytes2clusters ef.sb n.size) (bytes2clusters ef.sb size) ⟨ef, n⟩ =
      .error e s₁) : exfatTruncate size erase ⟨ef, n⟩ = .error e s₁ := by
  unfold exfatTruncate
  rw [run_bind_ok (run_get _)]
  dsimp only
  rw [if_neg (by rintro ⟨h0, h1⟩; rw [href h0] at h1; cases h1), if_neg hne,
    run_bind_error hrun]

/-- A file that has clusters and keeps some is fit to be written back, however the call ends. -/
theorem exfatTruncate_kept (hsane : StartSane s.ef.sb s.node) (hpos : s.node.size ≠ 0)
    (hc1 : 0 < bytes2clusters s.ef.sb s.node.size) (hc2 : 0 < bytes2clusters s.ef.sb size)
    (hsize : size ≠ 0) :
    wp (exfatTruncate size erase) (fun _ s' => StartSane s.ef.sb s'.node) anyStop s := by
  have hstart : s.node.startCluster ≠ clusterFree := fun h => hpos (hsane.empty.mpr h)
  have hvalid := hsane.start (Nat.pos_iff_ne_zero.mpr hpos)
  unfold exfatTruncate
  rw [wp_bind, wp_get]
  split
  -- nobody refers to the node, which stops the call
  · trivial
  · split
    -- the size stays the same
    · exact hsane
    · rw [wp_bind]
      refine wp_conseq (anchored_resizeFile hc1 hc2 hstart) ?_
      intro r s₁ h₁
      cases r with
      | error e =>
        refine ⟨?_, ?_, ?_⟩
        · rw [h₁.start, h₁.size]
          exact hsane.empty
        · rw [h₁.start]
          exact fun _ => hvalid
        · rw [h₁.size, h₁.valid]
          exact hsane.valid
      | ok =>
        refine wp_conseq (sized_finishTruncate size erase s₁) ?_
        rintro r s₂ ⟨hst, hsizes⟩
        have hst' : s₂.node.startCluster = s.node.startCluster := hst.trans h₁.start
        have hle := hsane.valid
        have hs₁ := h₁.size
        have hv₁ := h₁.valid
        refine ⟨?_, ?_, by omega⟩
        · rw [hst']
          exact ⟨fun h0 => absurd h0 (by omega), fun h => absurd h hstart⟩
        · rw [hst']
          exact fun _ => hvalid

end Truncate

variable {ef : Ef Flat} {n : Node} {L : List Nat} {size : Nat} {erase : Bool}

/-- The start of a sound file is sane. -/
theorem File.sane (hf : File ef n L) : StartSane ef.sb n := by
  have hcs := ef.sb.clusterSize_pos
  have hlen := hf.length
  by_cases h0 : n.size = 0
  · have hnil : L = [] := by
      rw [← List.length_eq_zero_iff, hlen, h0]
      exact Nat.le_zero.mp ((divRoundUp_le_iff hcs).mpr (Nat.zero_le _))
    have hstart := hf.chained.empty hnil
    exact ⟨⟨fun _ => hstart, fun _ => h0⟩, fun hpos => absurd h0 (by omega), hf.valid⟩
  · have hne : L ≠ [] := by
      rintro rfl
      have hpos := divRoundUp_pos hcs (Nat.pos_iff_ne_zero.mpr h0)
      rw [← hlen] at hpos
      exact absurd hpos (Nat.lt_irrefl 0)
    have hmem := List.getElem_mem (List.length_pos_iff.mpr hne)
    rw [hf.chained.follows.getElem (List.length_pos_iff.mpr hne)] at hmem
    have hstart : Valid ef.sb n.startCluster := hf.chained.valid _ hmem
    have htwo := hstart.two_le
    refine ⟨⟨fun h => absurd h h0, fun h => ?_⟩, fun _ => hstart, hf.valid⟩
    rw [h] at htwo
    cases htwo

/-- The free clusters that `k` clusters would be taken from lie one behind the other. -/
def FreeRun (ef : Ef Flat) (k : Nat) : Prop :=
  ∃ f, (∀ j, j < f → ef.cmap.chunk j = true) ∧
    ∀ i, i < min k ef.free → f + i < ef.sb.clusterCount ∧ ef.cmap.chunk (f + i) = false

/-- The truncations after which the first cluster goes with the size, whatever fails: the file has
clusters and keeps some; or it is contiguous and loses all of them, and its size is set to zero or
there is no way to the erasing; or it has none and gets none; or it gets its first ones from free
clusters that lie one behind the other, and nothing is erased in them. -/
def StaysSane (ef : Ef Flat) (n : Node) (size : Nat) (erase : Bool) : Prop :=
  n.size = size ∨
  (n.size ≠ 0 ∧ bytes2clusters ef.sb size ≠ 0) ∨
  (n.size ≠ 0 ∧ bytes2clusters ef.sb size = 0 ∧ n.isContiguous = true ∧
    (size = 0 ∨ (erase = true ∧ ef.sb.clusterSize ≤ n.validSize))) ∨
  (n.size = 0 ∧ bytes2clusters ef.sb size = 0 ∧ erase = true) ∨
  (n.size = 0 ∧ bytes2clusters ef.sb size ≠ 0 ∧ FreeRun ef (bytes2clusters ef.sb size) ∧
    (erase = false ∨ ef.free < bytes2clusters ef.sb size))

/-- The node of an empty file. -/
theorem File.empty (hf : File ef n L) (h0 : n.size = 0) :
    n.startCluster = clusterFree ∧ n.fptrIndex = 0 ∧ n.fptrCluster = clusterFree ∧
    n.validSize = 0 := by
  have hstart := hf.sane.empty.mp h0
  have hnil : L = [] := by
    rw [← List.length_eq_zero_iff, hf.length, h0]
    exact Nat.le_zero.mp ((divRoundUp_le_iff ef.sb.clusterSize_pos).mpr (Nat.zero_le _))
  have hle := hf.valid
  rcases hf.chained.fptr with ⟨hi, hc⟩ | hsome
  · exact ⟨hstart, hi, hc.trans hstart, by omega⟩
  · rw [hnil] at hsome
    cases hsome

/-- The clusters of a contiguous file. -/
theorem File.consecutive (hr : Ready ef) (hf : File ef n L) (hcont : n.isContiguous = true)
    {j : Nat} (hj : j < L.length) : Valid ef.sb (n.startCluster + j) := by
  have hfollows := hf.chained.follows
  rw [hcont] at hfollows
  have hrange := Chained.eq_range' hr.layout hfollows hf.chained.valid
  refine hf.chained.valid _ ?_
  rw [hrange]
  exact List.mem_range'_1.mpr ⟨Nat.le_add_right _ _, by omega⟩

/-- No bytes need no cluster. -/
theorem bytes2clusters_zero (sb : SuperBlock) : bytes2clusters sb 0 = 0 := by
  have hcs := sb.clusterSize_pos
  have hdiv : u64 (0 + sb.clusterSize - 1) / sb.clusterSize = 0 := by
    refine Nat.div_eq_of_lt (Nat.lt_of_le_of_lt (Nat.mod_le _ _) ?_)
    omega
  unfold bytes2clusters
  rw [hdiv]
  rfl

/-- A size that is taken for no clusters at all is larger than any file. -/
theorem File.lt_of_narrow (hr : Ready ef) (hf : File ef n L) (hc2 : bytes2clusters ef.sb size = 0)
    (hsize : size ≠ 0) : n.size < size := by
  by_contra hle
  have hcs := ef.sb.clusterSize_pos
  have hlen := hf.chained.length_le
  have hcount := hr.layout.count_lt
  have hcap := le_divRoundUp_mul n.size hcs
  rw [← hf.length] at hcap
  have hfits : divRoundUp size ef.sb.clusterSize ≤ L.length :=
    (divRoundUp_le_iff hcs).mpr (by omega)
  rw [bytes2clusters_eq hr.layout (by omega)] at hc2
  exact absurd (divRoundUp_pos hcs (Nat.pos_iff_ne_zero.mpr hsize)) (by omega)

/-- A file without clusters, with a size that goes with that. -/
theorem startSane_of_free {sb : SuperBlock} {n : Node} (hstart : n.startCluster = clusterFree)
    (hsize : n.size = 0) (hvalid : n.validSize = 0) : StartSane sb n :=
  ⟨⟨fun _ => hstart, fun _ => hsize⟩, fun hpos => absurd hsize (by omega), by omega⟩

/-- A file without clusters, with a size that does not. -/
theorem not_startSane_of_free {sb : SuperBlock} {n : Node} (hstart : n.startCluster = clusterFree)
    (hsize : n.size ≠ 0) : ¬ StartSane sb n := fun h => hsize (h.empty.mpr hstart)

/-- A file with clusters and no size. -/
theorem not_startSane_of_start {sb : SuperBlock} {n : Node} (hstart : n.startCluster ≠ clusterFree)
    (hsize : n.size = 0) : ¬ StartSane sb n := fun h => hstart (h.empty.mp hsize)

section Grow

variable {fault : Nat → Option Nat}

/-- The bitmap covers the heap on a faulty device too. -/
theorem Ready.onFaulty (hr : Ready ef) (fault : Nat → Option Nat) : (ef.onFaulty fault).Mapped :=
  ⟨hr.layout, hr.word, hr.chunkSize⟩

/-- An empty file that gets its first clusters from free ones that lie one behind the other gets
them, or there are too few and it is empty again. -/
theorem resizeFile_freeRun (hr : Ready ef) (hf : File ef n L) (h0 : n.size = 0) {k : Nat}
    (hk : 0 < k) (hrun : FreeRun ef k) :
    (ef.free < k ∧ wp (resizeFile 0 k) (fun r s => r = .error .enospc ∧
      StartSane ef.sb s.node) anyStop ⟨ef.onFaulty fault, n⟩) ∨
      (k ≤ ef.free ∧ ∃ f ef', f < ef.sb.clusterCount ∧ ef'.sb = ef.sb ∧
        ef'.dev = (ef.onFaulty fault).dev ∧
        resizeFile 0 k ⟨ef.onFaulty fault, n⟩ = .ok (.ok ()) ⟨ef', n.opened (f + 2)⟩) := by
  obtain ⟨hstart, hindex, -, hvalid⟩ := hf.empty h0
  obtain ⟨f, hbefore, hfree⟩ := hrun
  have hm := hr.onFaulty fault
  have hresize : resizeFile 0 k = growFile (δ := Faulty) 0 k := by
    unfold resizeFile
    rw [if_pos hk, Nat.sub_zero]
  rw [hresize]
  -- enough clusters are free, or some are missing
  by_cases hspace : k ≤ ef.free
  · right
    rw [Nat.min_eq_left hspace] at hfree
    obtain ⟨chunk', dirty', hgrow, -, -⟩ :=
      growFile_consecutive hm hstart hindex hbefore hk (Nat.le_refl k) hfree
    rw [Nat.sub_self] at hgrow
    refine ⟨hspace, f, withBitmap (ef.onFaulty fault) chunk' dirty' ef.errors,
      (hfree 0 hk).1, rfl, rfl, ?_⟩
    exact hgrow
  · left
    have hlt := Nat.lt_of_not_le hspace
    refine ⟨hlt, ?_⟩
    rw [Nat.min_eq_right (Nat.le_of_lt hlt)] at hfree
    -- with none free not even the first cluster is set
    rcases Nat.eq_zero_or_pos ef.free with hnone | hpos
    · obtain ⟨ef', hgrow⟩ := growFile_full hm hnone hstart hindex hk
      exact wp_of_ok hgrow ⟨rfl, startSane_of_free hstart h0 hvalid⟩
    · obtain ⟨chunk', dirty', hgrow, hcard, -⟩ :=
        growFile_consecutive hm hstart hindex hbefore hpos (Nat.le_of_lt hlt) hfree
      let ef₁ := withBitmap (ef.onFaulty fault) chunk' dirty' ef.errors
      have hnone : freeCount ef₁.sb ef₁.cmap.chunk = 0 := by
        rw [withBitmap_sb, withBitmap_chunk]
        have hcard' : freeCount (ef.onFaulty fault).sb chunk' + ef.free = ef.free := hcard
        omega
      have hm' : ef₁.Mapped := ⟨hm.layout, hm.word, hm.chunkSize⟩
      refine wp_of_eq hgrow (wp_conseq (growLoop_emptied hm' hnone (Nat.sub_pos_of_lt hlt) hpos) ?_)
      rintro r s ⟨rfl, hs, hsize, hv⟩
      exact ⟨rfl, startSane_of_free hs (hsize.trans h0) (hv.trans hvalid)⟩

end Grow

/-- A contiguous file that loses its clusters does so before anything can fail. -/
theorem exfatTruncate_emptied (hr : Ready ef) (hf : File ef n L)
    (href : n.references = 0 → n.parent = none) (hne : n.size ≠ size) (hpos : n.size ≠ 0)
    (hc2 : bytes2clusters ef.sb size = 0) (hcont : n.isContiguous = true) (fault : Nat → Option Nat)
    (erase : Bool) :
    ∃ ef', ef'.sb = ef.sb ∧ exfatTruncate size erase ⟨ef.onFaulty fault, n⟩ =
      finishTruncate size erase (⟨ef', n.emptied⟩ : FileState Faulty) := by
  have hlen : 0 < L.length := by
    rw [hf.length]
    exact divRoundUp_pos ef.sb.clusterSize_pos (Nat.pos_iff_ne_zero.mpr hpos)
  have hl : Layout (ef.onFaulty fault).sb := hr.layout
  have hvalid := fun j (hj : j < L.length) => hf.consecutive hr hcont hj
  obtain ⟨chunk', dirty', hresize⟩ := resizeFile_emptied hl (by exact hr.size) hcont hlen hvalid
  refine ⟨withBitmap (ef.onFaulty fault) chunk' dirty' ef.errors, rfl,
    exfatTruncate_finish href hne ?_⟩
  rw [show bytes2clusters (ef.onFaulty fault).sb n.size = L.length from hf.clusters hr,
    show bytes2clusters (ef.onFaulty fault).sb size = 0 from hc2]
  exact hresize

/-- An empty file whose new size is taken for no clusters. -/
theorem exfatTruncate_empty (href : n.references = 0 → n.parent = none)
    (h0 : n.size = 0) (hne : n.size ≠ size) (hc2 : bytes2clusters ef.sb size = 0)
    (fault : Nat → Option Nat) (erase : Bool) :
    exfatTruncate size erase ⟨ef.onFaulty fault, n⟩ =
      finishTruncate size erase (⟨ef.onFaulty fault, n⟩ : FileState Faulty) := by
  refine exfatTruncate_finish href hne ?_
  rw [h0, show bytes2clusters (ef.onFaulty fault).sb 0 = 0 from bytes2clusters_zero ef.sb,
    show bytes2clusters (ef.onFaulty fault).sb size = 0 from hc2]
  rfl

/-- After a truncation that can be broken off anywhere the node is fit to be written back. -/
theorem StaysSane.sane (hr : Ready ef) (hf : File ef n L)
    (href : n.references = 0 → n.parent = none) (h : StaysSane ef n size erase)
    (fault : Nat → Option Nat) :
    wp (exfatTruncate size erase) (fun _ s => StartSane ef.sb s.node) anyStop
      ⟨ef.onFaulty fault, n⟩ := by
  have hcs := ef.sb.clusterSize_pos
  -- nothing to do when the size stays the same
  by_cases hne : n.size = size
  · have hrun : exfatTruncate size erase ⟨ef.onFaulty fault, n⟩ =
        .ok (.ok ()) (⟨ef.onFaulty fault, n⟩ : FileState Faulty) := by
      unfold exfatTruncate
      rw [run_bind_ok (run_get _)]
      dsimp only
      rw [if_neg (by rintro ⟨h0, h1⟩; rw [href h0] at h1; cases h1), if_pos hne]
      rfl
    exact wp_of_ok hrun hf.sane
  have hc1 : bytes2clusters (ef.onFaulty fault).sb n.size = L.length := hf.clusters hr
  -- the other cases of `StaysSane`, in its order
  rcases h with hsame | ⟨hpos, hc2⟩ | ⟨hpos, hc2, hcont, hcase⟩ | ⟨h0, hc2,
      rfl⟩ | ⟨h0, hc2, hfree, hcase⟩
  · exact absurd hsame hne
  · refine exfatTruncate_kept (by exact hf.sane) (by exact hpos) ?_
      (by exact Nat.pos_iff_ne_zero.mpr hc2) ?_
    · dsimp only
      rw [hc1, hf.length]
      exact divRoundUp_pos hcs (Nat.pos_iff_ne_zero.mpr hpos)
    · rintro rfl
      exact hc2 (bytes2clusters_zero ef.sb)
  · obtain ⟨ef', hsb, hrun⟩ := exfatTruncate_emptied hr hf href hne hpos hc2 hcont fault erase
    by_cases hsize : size = 0
    · subst hsize
      obtain ⟨s, hfinish, hsize, hv, hstart⟩ := finishTruncate_zero ef' n.emptied erase
      exact wp_of_ok (hrun.trans hfinish) (startSane_of_free hstart hsize (Nat.le_zero.mp hv))
    · obtain ⟨rfl, hlarge⟩ := hcase.resolve_left hsize
      have hlt := hf.lt_of_narrow hr hc2 hsize
      have hvalid : n.emptied.validSize ≤ n.size := hf.valid
      rw [← hsb] at hlarge
      have hword := hf.index_lt_word hr hf.valid
      rw [← hsb] at hword
      obtain ⟨e, s, hstuck⟩ := finishTruncate_stuck (n := n.emptied) rfl rfl
        (Nat.lt_of_le_of_lt hvalid hlt) hlarge hword
      exact wp_of_error (hrun.trans hstuck) trivial
  · obtain ⟨hstart, hindex, hfptr, hvalid⟩ := hf.empty h0
    have hlt : n.validSize < size := by omega
    have hsmall : n.validSize < (ef.onFaulty fault).sb.clusterSize := hvalid ▸ hcs
    obtain ⟨ef', hfinish⟩ := finishTruncate_free hindex hfptr hlt hsmall
    refine wp_of_ok ((exfatTruncate_empty href h0 hne hc2 fault true).trans hfinish) ?_
    exact startSane_of_free hstart h0 hvalid
  · have hzero : bytes2clusters (ef.onFaulty fault).sb n.size = 0 := by
      rw [h0]
      exact bytes2clusters_zero ef.sb
    obtain ⟨hstart, hindex, hfptr, hvalid⟩ := hf.empty h0
    rcases resizeFile_freeRun hr hf h0 (Nat.pos_iff_ne_zero.mpr hc2) hfree with
      ⟨-, hresize⟩ | ⟨hle, f, ef', hfc, hsb, -, hresize⟩
    · -- too few clusters: the file is empty again
      rw [wp_anyStop_iff] at hresize ⊢
      intro r s hrun
      cases hres : resizeFile 0 (bytes2clusters ef.sb size)
        (⟨ef.onFaulty fault, n⟩ : FileState Faulty) with
      | error e s₁ =>
        rw [← hzero] at hres
        rw [exfatTruncate_halted href hne hres] at hrun
        cases hrun
      | ok r₁ s₁ =>
        obtain ⟨rfl, hsane⟩ := hresize r₁ s₁ hres
        rw [← hzero] at hres
        rw [exfatTruncate_failed href hne hres] at hrun
        cases hrun
        exact hsane
    · obtain rfl : erase = false := hcase.resolve_right (by omega)
      rw [← hzero] at hresize
      have hv : Valid ef.sb (f + 2) := clusterInvalid_eq_false.mpr (by omega)
      obtain ⟨s, hfinish, hsize, hvs, hst⟩ := finishTruncate_keep ef' (n.opened (f + 2)) size
      refine wp_of_ok ((exfatTruncate_finish href hne hresize).trans hfinish) ⟨?_, ?_, by omega⟩
      · rw [hsize, hst]
        exact ⟨fun hs => absurd (h0.trans hs.symm) hne, fun hs =>
          absurd hs (Nat.succ_ne_zero (f + 1))⟩
      · rw [hst]
        exact fun _ => hv

/-- The first free cluster. -/
theorem exists_first_free {sb : SuperBlock} {chunk : Nat → Bool} (h : 0 < freeCount sb chunk) :
    ∃ f, f < sb.clusterCount ∧ chunk f = false ∧ ∀ j, j < f → chunk j = true := by
  have hsome : ∃ f, f < sb.clusterCount ∧ chunk f = false := by
    by_contra hnone
    have hfull : freeCount sb chunk = 0 := by
      refine freeCount_of_full fun i hi => ?_
      by_contra hbit
      exact hnone ⟨i, hi, by simpa using hbit⟩
    omega
  obtain ⟨hlt, hbit⟩ := Nat.find_spec hsome
  refine ⟨Nat.find hsome, hlt, hbit, fun j hj => ?_⟩
  have hmin := Nat.find_min hsome hj
  by_contra hfree
  exact hmin ⟨Nat.lt_trans hj hlt, by simpa using hfree⟩

/-- The longest run of at most `b` positions that starts at `0` and has a property. -/
theorem exists_longest_run {P : Nat → Prop} (h : P 0) {b : Nat} (hb : 0 < b) :
    ∃ m, 0 < m ∧ m ≤ b ∧ (∀ i, i < m → P i) ∧ (m = b ∨ ¬ P m) := by
  induction b with
  | zero => exact absurd hb (Nat.lt_irrefl 0)
  | succ b ih =>
    rcases Nat.eq_zero_or_pos b with rfl | hpos
    · refine ⟨1, Nat.one_pos, Nat.le_refl 1, fun i hi => ?_, Or.inl rfl⟩
      rw [Nat.lt_one_iff.mp hi]
      exact h
    · obtain ⟨m, hm, hle, hrun, hend⟩ := ih hpos
      by_cases hP : P m
      · obtain rfl : m = b := hend.resolve_right (fun hnot => hnot hP)
        refine ⟨m + 1, Nat.succ_pos m, Nat.le_refl _, fun i hi => ?_, Or.inl rfl⟩
        rcases Nat.lt_succ_iff_lt_or_eq.mp hi with hlt | rfl
        · exact hrun i hlt
        · exact hP
      · exact ⟨m, hm, Nat.le_succ_of_le hle, hrun, Or.inr hP⟩

/-- If a file that gets its first clusters is never left with a first cluster and no size, the free
clusters lie one behind the other. -/
theorem freeRun_of_sane (hr : Ready ef) (hf : File ef n L) (h0 : n.size = 0) {k : Nat} (hk : 0 < k)
    {fault : Nat → Option Nat} (hdoomed : ∀ j, (fault j).isSome = true)
    (hsane : ∀ e s, resizeFile 0 k (⟨ef.onFaulty fault, n⟩ : FileState Faulty) = .ok (.error e) s →
      StartSane ef.sb s.node) : FreeRun ef k := by
  obtain ⟨hstart, hindex, -, -⟩ := hf.empty h0
  have hm := hr.onFaulty fault
  -- with no cluster free there is no run to look for
  rcases Nat.eq_zero_or_pos ef.free with hnone | hpos
  · refine ⟨0, fun j hj => absurd hj (Nat.not_lt_zero j), fun i hi => ?_⟩
    omega
  obtain ⟨f, hlt, hbit, hbefore⟩ := exists_first_free hpos
  obtain ⟨m, hm0, hmle, hrun, hend⟩ := exists_longest_run
    (P := fun i => f + i < ef.sb.clusterCount ∧ ef.cmap.chunk (f + i) = false) ⟨hlt, hbit⟩
    (b := min k ef.free) (by omega)
  by_cases hfull : m = min k ef.free
  · exact ⟨f, hbefore, hfull ▸ hrun⟩
  have hnot := hend.resolve_left hfull
  -- the cluster behind the run is taken, so the next one lies somewhere else
  obtain ⟨chunk', dirty', hgrow, hcard, hsame⟩ :=
    growFile_consecutive hm hstart hindex hbefore hm0 (show m ≤ k by omega) hrun
  let ef₁ := withBitmap (ef.onFaulty fault) chunk' dirty' ef.errors
  have hm₁ : ef₁.Mapped := ⟨hm.layout, hm.word, hm.chunkSize⟩
  have hfree₁ : 0 < freeCount ef₁.sb ef₁.cmap.chunk := by
    have hcard' : freeCount ef₁.sb ef₁.cmap.chunk + m = ef.free := hcard
    omega
  have hlast : f + m ≤ ef₁.sb.clusterCount := by
    have hprev : f + (m - 1) < ef.sb.clusterCount := (hrun (m - 1) (by omega)).1
    show f + m ≤ ef.sb.clusterCount
    omega
  have hbit₁ : f + m < ef₁.sb.clusterCount → ef₁.cmap.chunk (f + m) = true := by
    intro hin
    have htaken : ef.cmap.chunk (f + m) = true := by simpa using fun hfree => hnot ⟨hin, hfree⟩
    exact (hsame (f + m) (Nat.le_refl _)).trans htaken
  obtain ⟨s, hloop, hanchor⟩ :=
    growLoop_doomed (n := n.opened (f + 2)) hm₁ hdoomed rfl hfree₁ hlast hbit₁
    (show 0 < k - m by omega) 0 m
  have hresize : resizeFile 0 k (⟨ef.onFaulty fault, n⟩ : FileState Faulty) =
      .ok (.error .eio) s := by
    unfold resizeFile
    rw [if_pos hk, Nat.sub_zero, hgrow, Nat.add_right_comm]
    exact hloop
  have hne : s.node.startCluster ≠ clusterFree := by
    rw [hanchor.start]
    exact Nat.succ_ne_zero (f + 1)
  exact absurd (hsane _ _ hresize) (not_startSane_of_start hne (hanchor.size.trans h0))

/-- If a file that loses its clusters is never left with a size and no first cluster, it is
contiguous, and its size is set to nothing or there is no way to the erasing. -/
theorem contiguous_of_sane (hr : Ready ef) (hf : File ef n L)
    (href : n.references = 0 → n.parent = none) (hpos : n.size ≠ 0) (hne : n.size ≠ size)
    (hc2 : bytes2clusters ef.sb size = 0) {fault : Nat → Option Nat}
    (hdoomed : Doomed (ef.onFaulty fault).dev)
    (hsane : ∀ r s, exfatTruncate size erase (⟨ef.onFaulty fault, n⟩ : FileState Faulty) = .ok r s →
      StartSane ef.sb s.node) :
    n.isContiguous = true ∧ (size = 0 ∨ (erase = true ∧ ef.sb.clusterSize ≤ n.validSize)) := by
  -- the chain of a scattered file cannot be cut, and its first cluster is gone already
  cases hcont : n.isContiguous with
  | false =>
    have hlen : 0 < L.length := by
      rw [hf.length]
      exact divRoundUp_pos ef.sb.clusterSize_pos (Nat.pos_iff_ne_zero.mpr hpos)
    have hstart : Valid (ef.onFaulty fault).sb n.startCluster :=
      hf.sane.start (Nat.pos_iff_ne_zero.mpr hpos)
    obtain ⟨s, hshrink⟩ := shrinkFile_doomed hdoomed hcont hstart hlen
    obtain ⟨hfree, hsize, -⟩ := wp_anyStop_iff.mp (emptied_shrinkFile L.length _) _ _ hshrink
    have hresize : resizeFile (bytes2clusters (ef.onFaulty fault).sb n.size)
        (bytes2clusters (ef.onFaulty fault).sb size) ⟨ef.onFaulty fault, n⟩ =
        .ok (.error .eio) s := by
      rw [show bytes2clusters (ef.onFaulty fault).sb n.size = L.length from hf.clusters hr,
        show bytes2clusters (ef.onFaulty fault).sb size = 0 from hc2]
      unfold resizeFile
      rw [if_neg (Nat.not_lt_zero _), if_pos hlen, Nat.sub_zero]
      exact hshrink
    refine absurd (hsane _ _ (exfatTruncate_failed href hne hresize))
      (not_startSane_of_free hfree ?_)
    rw [hsize]
    exact hpos
  | true =>
    refine ⟨rfl, ?_⟩
    by_contra hcase
    rw [not_or] at hcase
    obtain ⟨hsize, hlarge⟩ := hcase
    obtain ⟨ef', hsb, hrun⟩ := exfatTruncate_emptied hr hf href hne hpos hc2 hcont fault erase
    -- the clusters are gone: without erasing the size is set, and the erasing itself fails
    cases erase with
    | false =>
      obtain ⟨s, hfinish, hs, -, hst⟩ := finishTruncate_keep ef' n.emptied size
      refine absurd (hsane _ _ (hrun.trans hfinish)) (not_startSane_of_free (hst.trans rfl) ?_)
      rw [hs]
      exact hsize
    | true =>
      have hlt := hf.lt_of_narrow hr hc2 hsize
      have hvalid : n.emptied.validSize ≤ n.size := hf.valid
      have hsmall : n.emptied.validSize < ef'.sb.clusterSize := by
        rw [hsb]
        exact Nat.lt_of_not_le fun hle => hlarge ⟨rfl, hle⟩
      obtain ⟨ef'', hfinish⟩ := finishTruncate_free (n := n.emptied) rfl rfl
        (Nat.lt_of_le_of_lt hvalid hlt) hsmall
      exact absurd (hsane _ _ (hrun.trans hfinish)) (not_startSane_of_free rfl hpos)

/-- Whatever fails in `exfat_truncate`, the first cluster goes with the size: exactly for the
truncations of `StaysSane`. -/
theorem exfatTruncate_startSane_iff (hr : Ready ef) (hf : File ef n L)
    (href : n.references = 0 → n.parent = none) (size : Nat) (erase : Bool) :
    (∀ fault r s, exfatTruncate size erase (⟨ef.onFaulty fault, n⟩ : FileState Faulty) = .ok r s →
      StartSane ef.sb s.node) ↔ StaysSane ef n size erase := by
  constructor
  · intro hall
    -- a device on which every access fails is the worst that can happen
    let fault : Nat → Option Nat := fun _ => some 0
    have hdoomed : Doomed (ef.onFaulty fault).dev := fun _ => rfl
    have hsane := hall fault
    by_cases hne : n.size = size
    · exact Or.inl hne
    -- an empty file, or one with clusters
    by_cases h0 : n.size = 0
    · obtain ⟨hstart, hindex, hfptr, hvalid⟩ := hf.empty h0
      have hsize : size ≠ 0 := fun hs => hne (h0.trans hs.symm)
      by_cases hc2 : bytes2clusters ef.sb size = 0
      · -- without erasing the size is set
        cases erase with
        | true => exact Or.inr (Or.inr (Or.inr (Or.inl ⟨h0, hc2, rfl⟩)))
        | false =>
          have hrun := exfatTruncate_empty href h0 hne hc2 fault false
          obtain ⟨s, hfinish, hs, -, hst⟩ := finishTruncate_keep (ef.onFaulty fault) n size
          refine absurd (hsane _ _ (hrun.trans hfinish))
            (not_startSane_of_free (hst.trans hstart) ?_)
          rw [hs]
          exact hsize
      · have hzero : bytes2clusters (ef.onFaulty fault).sb n.size = 0 := by
          rw [h0]
          exact bytes2clusters_zero ef.sb
        have hk := Nat.pos_iff_ne_zero.mpr hc2
        have hfree : FreeRun ef (bytes2clusters ef.sb size) := by
          refine freeRun_of_sane hr hf h0 hk hdoomed fun e s hrun => ?_
          rw [← hzero] at hrun
          exact hsane _ _ (exfatTruncate_failed href hne hrun)
        refine Or.inr (Or.inr (Or.inr (Or.inr ⟨h0, hc2, hfree, ?_⟩)))
        rcases resizeFile_freeRun hr hf h0 hk hfree with
          ⟨hlt, -⟩ | ⟨-, f, ef', hfc, hsb, hdev, hresize⟩
        · exact Or.inr hlt
        · cases erase with
          | false => exact Or.inl rfl
          | true =>
            rw [← hzero] at hresize
            have hv : Valid ef'.sb (f + 2) := by
              rw [hsb]
              exact clusterInvalid_eq_false.mpr (by omega)
            obtain ⟨ef'', hfinish⟩ := finishTruncate_doomed (hdev ▸ hdoomed) hv hindex hvalid
              (Nat.pos_iff_ne_zero.mpr hsize)
            have hrun := (exfatTruncate_finish href hne hresize).trans hfinish
            exact absurd (hsane _ _ hrun) (not_startSane_of_start (Nat.succ_ne_zero (f + 1)) h0)
    · by_cases hc2 : bytes2clusters ef.sb size = 0
      · have hcontiguous := contiguous_of_sane hr hf href h0 hne hc2 hdoomed hsane
        exact Or.inr (Or.inr (Or.inl ⟨h0, hc2, hcontiguous⟩))
      · exact Or.inr (Or.inl ⟨h0, hc2⟩)
  · intro h fault r s hrun
    exact wp_anyStop_iff.mp (h.sane hr hf href fault) r s hrun

/-- The empty file has no clusters. -/
theorem emptyFile_file : File twoFiles.ef emptyFile [] := twoFiles_chains.file (i := 2) rfl

end ExFat
