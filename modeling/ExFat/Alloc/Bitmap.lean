import ExFat.Alloc.Layout

namespace ExFat

open Bytes Program

/-!
# Allocation

`find_bit_and_set` skips full words and then looks at single bits; what it returns is the first
clear bit of the range, for every word width.  `allocate_cluster` looks from the hint to the end
and then from the start to the hint.

A cluster number is 32 bits wide, and `0xffffffff` says that nothing was found.  A bitmap that is
long enough to have bits for these numbers (no volume in the format has) can lose such a bit; the
specification of `allocate_cluster` is exact for all the others.
-/

section Scan

variable {chunk : Nat → Bool} {w start stop c n i : Nat}

/-- The bit that the scan of single bits returns is the first clear one of its range. -/
theorem scanBits_some (h : scanBits chunk i n = some c) :
    i ≤ c ∧ c < i + n ∧ chunk c = false ∧ ∀ j, i ≤ j → j < c → chunk j = true := by
  induction n generalizing i with
  | zero => simp [scanBits] at h
  | succ n ih =>
    unfold scanBits at h
    by_cases hi : chunk i = true
    · rw [if_pos hi] at h
      obtain ⟨h1, h2, h3, h4⟩ := ih h
      refine ⟨by omega, by omega, h3, ?_⟩
      intro j hj1 hj2
      rcases Nat.eq_or_lt_of_le hj1 with rfl | hlt
      · exact hi
      · exact h4 j hlt hj2
    · rw [if_neg hi] at h
      obtain rfl : i = c := by simpa using h
      exact ⟨Nat.le_refl _, by omega, by simpa using hi, fun j h1 h2 => by omega⟩

/-- A scan of single bits that returns nothing has seen only set bits. -/
theorem scanBits_none (h : scanBits chunk i n = none) {j : Nat} (h1 : i ≤ j) (h2 : j < i + n) :
    chunk j = true := by
  induction n generalizing i with
  | zero => omega
  | succ n ih =>
    unfold scanBits at h
    by_cases hi : chunk i = true
    · rw [if_pos hi] at h
      rcases Nat.eq_or_lt_of_le h1 with rfl | hlt
      · exact hi
      · exact ih h hlt (by omega)
    · rw [if_neg hi] at h
      cases h

/-- All bits of a full word are set. -/
theorem wordFull_bit (hw : wordFull chunk w i = true) {j : Nat} (h1 : i * w ≤ j)
    (h2 : j < (i + 1) * w) : chunk j = true := by
  unfold wordFull at hw
  rw [List.all_eq_true] at hw
  have h := hw (j - i * w) (List.mem_range.mpr (by rw [Nat.add_mul] at h2; omega))
  rwa [Nat.add_sub_cancel' h1] at h

/-- The word loop stops at the first clear bit of its range. -/
theorem scanWords_some (h : scanWords chunk w start stop i n = some c) :
    start ≤ c ∧ c < stop ∧ chunk c = false ∧
      ∀ j, max (i * w) start ≤ j → j < c → chunk j = true := by
  induction n generalizing i with
  | zero => simp [scanWords] at h
  | succ n ih =>
    unfold scanWords at h
    have hw : (i + 1) * w = i * w + w := by rw [Nat.add_mul, Nat.one_mul]
    by_cases hfull : wordFull chunk w i = true
    · rw [if_pos hfull] at h
      obtain ⟨h1, h2, h3, h4⟩ := ih h
      refine ⟨h1, h2, h3, ?_⟩
      intro j hj1 hj2
      by_cases hj : j < (i + 1) * w
      · exact wordFull_bit hfull (by omega) hj
      · exact h4 j (by omega) hj2
    · rw [if_neg hfull] at h
      split at h
      case h_1 c' hc' =>
        cases h
        obtain ⟨h1, h2, h3, h4⟩ := scanBits_some hc'
        exact ⟨by omega, by omega, h3, h4⟩
      case h_2 hnone =>
        obtain ⟨h1, h2, h3, h4⟩ := ih h
        refine ⟨h1, h2, h3, ?_⟩
        intro j hj1 hj2
        by_cases hj : j < (i + 1) * w
        · exact scanBits_none hnone hj1 (by omega)
        · exact h4 j (by omega) hj2

/-- When the word loop finds nothing, every bit of its range is set. -/
theorem scanWords_none (h : scanWords chunk w start stop i n = none) {j : Nat}
    (h1 : max (i * w) start ≤ j) (h2 : j < (i + n) * w) (h3 : j < stop) : chunk j = true := by
  induction n generalizing i with
  | zero =>
    rw [Nat.add_zero] at h2
    omega
  | succ n ih =>
    unfold scanWords at h
    have hw : (i + 1) * w = i * w + w := by rw [Nat.add_mul, Nat.one_mul]
    have hn : (i + 1 + n) * w = (i + (n + 1)) * w := by rw [Nat.add_right_comm i 1 n, Nat.add_assoc]
    by_cases hfull : wordFull chunk w i = true
    · rw [if_pos hfull] at h
      by_cases hj : j < (i + 1) * w
      · exact wordFull_bit hfull (by omega) hj
      · exact ih h (by omega) (by omega)
    · rw [if_neg hfull] at h
      split at h
      case h_1 c' hc' => cases h
      case h_2 hnone =>
        by_cases hj : j < (i + 1) * w
        · exact scanBits_none hnone h1 (by omega)
        · exact ih h (by omega) (by omega)

end Scan

section Find

variable {chunk : Nat → Bool} {w start stop : Nat}

/-- What `find_bit_and_set` does: it finds and sets the first clear bit of the range, or finds
none and changes nothing. -/
theorem findBitAndSet_cases (hw : 0 < w) (chunk : Nat → Bool) (start stop : Nat) :
    (∃ i, start ≤ i ∧ i < stop ∧ chunk i = false ∧ (∀ j, start ≤ j → j < i → chunk j = true) ∧
      findBitAndSet w chunk start stop = (u32 (i + 2), Function.update chunk i true)) ∨
    ((∀ j, start ≤ j → j < stop → chunk j = true) ∧
      findBitAndSet w chunk start stop = (clusterEnd, chunk)) := by
  have hstart := Nat.div_mul_le_self start w
  unfold findBitAndSet firstDataCluster
  cases h : scanWords chunk w start stop (start / w) (divRoundUp stop w - start / w) with
  | some i =>
    left
    obtain ⟨h1, h2, h3, h4⟩ := scanWords_some h
    exact ⟨i, h1, h2, h3, fun j hj1 hj2 => h4 j (by omega) hj2, rfl⟩
  | none =>
    right
    refine ⟨?_, rfl⟩
    intro j hj1 hj2
    apply scanWords_none h (by omega) ?_ hj2
    -- the words looked at reach up to the end of the range
    have hstop := le_divRoundUp_mul stop hw
    have hle : divRoundUp stop w * w ≤ (start / w + (divRoundUp stop w - start / w)) * w :=
      Nat.mul_le_mul_right _ (by omega)
    omega

end Find

/-! ### `allocate_cluster` and `free_cluster` -/

variable {δ : Type}

/-- The volume with another bitmap: the dirty flag and the error counter may differ too. -/
def withBitmap (ef : Ef δ) (chunk : Nat → Bool) (dirty : Bool) (errors : Nat) : Ef δ :=
  { ef with cmap := { ef.cmap with chunk := chunk, dirty := dirty }, errors := errors }

section WithBitmap

variable (ef : Ef δ) (chunk : Nat → Bool) (dirty : Bool) (errors : Nat)

/-- Putting the bitmap of a volume into that volume changes nothing. -/
theorem withBitmap_self : withBitmap ef ef.cmap.chunk ef.cmap.dirty ef.errors = ef := rfl

/-- A new bitmap leaves the superblock alone. -/
theorem withBitmap_sb : (withBitmap ef chunk dirty errors).sb = ef.sb := rfl

/-- The bits that have been put in are the bits of the volume. -/
theorem withBitmap_chunk : (withBitmap ef chunk dirty errors).cmap.chunk = chunk := rfl

end WithBitmap

/-- The search takes the first clear bit from the hint on, or else from the start on; it fails only
when all bits are set. -/
theorem searchBits_cases {sb : SuperBlock} {cmap : Cmap} {w : Nat} (hl : Layout sb) (hw : 0 < w)
    (hsize : cmap.chunkSize = sb.clusterCount) (hint : Nat) :
    (∃ c, Valid sb c ∧ cmap.chunk (c - 2) = false ∧
      searchBits w cmap hint = (c, Function.update cmap.chunk (c - 2) true)) ∨
    ((∀ i, i < sb.clusterCount → cmap.chunk i = true) ∧
      searchBits w cmap hint = (clusterEnd, cmap.chunk)) := by
  have hend : clusterEnd = 4294967295 := rfl
  have hcount := hl.count_lt
  have hhint : hintBit hint cmap.chunkSize ≤ cmap.chunkSize := by
    unfold hintBit
    split <;> omega
  -- the cluster of a bit that was found
  have hnum : ∀ i, i < cmap.chunkSize →
      Valid sb (i + 2) ∧ u32 (i + 2) = i + 2 ∧ i + 2 ≠ clusterEnd := by
    intro i hi
    refine ⟨clusterInvalid_eq_false.mpr (by omega), Nat.mod_eq_of_lt (by omega), by omega⟩
  unfold searchBits
  -- From the hint to the end, and if that part is full, from the start to the hint.
  rcases findBitAndSet_cases hw cmap.chunk (hintBit hint cmap.chunkSize) cmap.chunkSize with
    ⟨i, _, hi, hclear, _, hres⟩ | ⟨hfull, hres⟩
  · obtain ⟨hv, hu, hne⟩ := hnum i hi
    left
    refine ⟨i + 2, hv, by simpa using hclear, ?_⟩
    simp only [hres, hu, hne, if_false, Nat.add_sub_cancel]
  · simp only [hres, if_true]
    rcases findBitAndSet_cases hw cmap.chunk 0 (hintBit hint cmap.chunkSize) with
      ⟨i, _, hi, hclear, _, hres'⟩ | ⟨hfull', hres'⟩
    · obtain ⟨hv, hu, hne⟩ := hnum i (by omega)
      left
      refine ⟨i + 2, hv, by simpa using hclear, ?_⟩
      simp only [hres', hu, Nat.add_sub_cancel]
    -- both parts are full, so all bits are set
    · right
      refine ⟨?_, hres'⟩
      intro i hi
      by_cases h : i < hintBit hint cmap.chunkSize
      · exact hfull' i (by omega) h
      · exact hfull i (by omega) (by omega)

/-- `allocate_cluster` takes a free cluster of the heap and returns it, or returns
`EXFAT_CLUSTER_END`, having changed no bit, when there is none. -/
theorem allocateCluster_run (ef : Ef δ) (hint : Nat) (hl : Layout ef.sb) (hw : 0 < ef.wordBits)
    (hsize : ef.cmap.chunkSize = ef.sb.clusterCount) :
    (∃ c, Valid ef.sb c ∧ ef.cmap.chunk (c - 2) = false ∧
      allocateCluster hint ef =
        .ok c (withBitmap ef (Function.update ef.cmap.chunk (c - 2) true) true ef.errors)) ∨
    ((∀ i, i < ef.sb.clusterCount → ef.cmap.chunk i = true) ∧
      allocateCluster hint ef =
        .ok clusterEnd (withBitmap ef ef.cmap.chunk ef.cmap.dirty (ef.errors + 1))) := by
  unfold allocateCluster
  simp only [run_bind, run_get, run_set]
  rcases searchBits_cases hl hw hsize hint with ⟨c, hv, hclear, hres⟩ | ⟨hfull, hres⟩
  · left
    refine ⟨c, hv, hclear, ?_⟩
    have hne : c ≠ clusterEnd := by
      have := hv.lt_end hl
      unfold clusterBad at this
      unfold clusterEnd
      omega
    rw [hres, if_neg hne]
    rfl
  · right
    refine ⟨hfull, ?_⟩
    rw [hres, if_pos rfl]
    rfl

/-- The end marker is not a data cluster. -/
theorem clusterEnd_not_valid {sb : SuperBlock} (hl : Layout sb) :
    sb.clusterInvalid clusterEnd = true := by
  by_contra h
  have hv : Valid sb clusterEnd := by simpa [Valid] using h
  have := hv.lt_end hl
  unfold clusterBad clusterEnd at this
  omega

/-- `free_cluster` clears the bit of a cluster of the heap. -/
theorem freeCluster_run {ef : Ef δ} {c : Nat} (hl : Layout ef.sb) (hc : Valid ef.sb c)
    (hsize : ef.cmap.size = ef.sb.clusterCount) :
    freeCluster c ef =
      .ok ⟨⟩ (withBitmap ef (Function.update ef.cmap.chunk (c - 2) false) true ef.errors) := by
  have h1 := hc.lt
  have h2 := hc.two_le
  have h3 := hl.count_lt
  have hsub : sub32 c firstDataCluster = c - 2 := by
    unfold sub32 firstDataCluster
    omega
  unfold freeCluster
  simp only [run_bind, run_get, hsub]
  rw [if_neg (by omega)]
  rfl

end ExFat
