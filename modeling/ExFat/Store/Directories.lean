import ExFat.Store.Pointer
import ExFat.Fs.MountVolume

namespace ExFat

open Bytes Program Chain

/-!
# Directories on the medium

A directory is the row of entries that stands in its clusters.  `Directory` ties the node of a
directory to these clusters; under it a read returns the entries of the row, wherever the pointer
was before.
-/

variable {ef ef' : Ef Flat} {n : Node} {L : List Nat}

/-- The node `n` is a directory that fills the clusters `L`. -/
structure Directory (ef : Ef Flat) (n : Node) (L : List Nat) : Prop where
  chained : Chained ef.sb ef.dev.bytes n L
  isDir : n.isDir = true
  size : n.size = L.length * ef.sb.clusterSize
  valid : n.validSize = n.size
  fits : n.size < 2 ^ 63
  whole : entrySize ∣ ef.sb.clusterSize

/-- The entry `k` of the row. -/
def entryAt (sb : SuperBlock) (b : Store) (L : List Nat) (k : Nat) : Entry :=
  readBytes (content sb b L) (entrySize * k) entrySize

/-! ### Reading entries -/

/-- The pointer may be at any cluster of the directory. -/
theorem Directory.pointAt (hd : Directory ef n L) {i : Nat} (hi : i < L.length) :
    Directory ef (n.pointAt i L[i]) L :=
  ⟨hd.chained.move hi, hd.isDir, hd.size, hd.valid, hd.fits, hd.whole⟩

/-- A volume with the same boot sector and the same bytes has the same directories. -/
theorem Directory.congr (hd : Directory ef n L) (hsb : ef'.sb = ef.sb)
    (hdev : ef'.dev.bytes = ef.dev.bytes) : Directory ef' n L := by
  refine ⟨?_, hd.isDir, ?_, hd.valid, hd.fits, ?_⟩
  · rw [hsb, hdev]
    exact hd.chained
  · rw [hsb]
    exact hd.size
  · rw [hsb]
    exact hd.whole

/-- A read within the directory returns its bytes and moves nothing but the pointer. -/
theorem Directory.pread (hd : Directory ef n L) {size uoffset : Nat} (hsize : 0 < size)
    (hend : uoffset + size ≤ n.size) :
    ∃ i, ∃ hi : i < L.length, exfatGenericPread size uoffset ⟨ef, n⟩ =
      .ok (.ok (size, readBytes (content ef.sb ef.dev.bytes L) uoffset size))
      ⟨ef, n.pointAt i L[i]⟩ := by
  have hcs := ef.sb.clusterSize_pos
  have hfits := hd.fits
  -- the offset lies in one of the clusters
  have hq : uoffset / ef.sb.clusterSize < L.length := by
    rw [Nat.div_lt_iff_lt_mul hcs, ← hd.size]
    omega
  refine ⟨uoffset / ef.sb.clusterSize, hq, ?_⟩
  have hcount := hd.chained.length_le
  have hlt := ef.sb.clusterCount_lt
  have hindex : u32 (uoffset / ef.sb.clusterSize) = uoffset / ef.sb.clusterSize :=
    Nat.mod_eq_of_lt (by omega)
  have hword : u64 (uoffset + size) = uoffset + size := Nat.mod_eq_of_lt (by omega)
  have hgood : ef.sb.clusterInvalid L[uoffset / ef.sb.clusterSize] = false :=
    hd.chained.valid _ (List.getElem_mem _)
  have hmod := Nat.div_add_mod' uoffset ef.sb.clusterSize
  have hread := preadLoop_run (hd.pointAt hq).chained _ (uoffset / ef.sb.clusterSize)
    L[uoffset / ef.sb.clusterSize] (uoffset % ef.sb.clusterSize) size rfl (Nat.mod_lt _ hcs)
    (by rw [hmod, ← hd.size]; exact hend) (fun _ => List.getElem?_eq_getElem hq)
  rw [hmod] at hread
  -- the range ends within the directory, so nothing is cut off
  have hmin : min size (n.size - uoffset) = size := Nat.min_eq_left (by omega)
  have hdir : (n.pointAt (uoffset / ef.sb.clusterSize) L[uoffset / ef.sb.clusterSize]).isDir =
      true :=
    hd.isDir
  have hadvance : exfatAdvanceCluster (uoffset / ef.sb.clusterSize) ⟨ef, n⟩ =
      .ok L[uoffset / ef.sb.clusterSize] (⟨ef, n.pointAt (uoffset / ef.sb.clusterSize)
        L[uoffset / ef.sb.clusterSize]⟩ : FileState Flat) := exfatAdvanceCluster_run hd.chained hq
  have hvalid : preadValid size uoffset ⟨ef, n⟩ =
      .ok (.ok (size, readBytes (content ef.sb ef.dev.bytes L) uoffset size))
        ⟨ef, n.pointAt (uoffset / ef.sb.clusterSize) L[uoffset / ef.sb.clusterSize]⟩ := by
    unfold preadValid
    rw [run_bind_ok (run_get _)]
    dsimp only
    rw [hindex, run_bind_ok hadvance, hgood, if_neg (by decide), hmin, run_bind_ok hread]
    dsimp only
    rw [run_bind_ok (run_get _)]
    dsimp only
    -- a directory has no access time of its own here
    rw [hdir]
    rfl
  unfold exfatGenericPread
  rw [run_bind_ok (run_get _)]
  dsimp only
  rw [Int.toNat_natCast, if_neg (by omega), if_neg (by omega), if_neg (by omega), hword, hd.valid,
    if_neg (by omega)]
  exact hvalid

/-- `read_entries` within the directory returns the entries of the row. -/
theorem Directory.readEntries (hd : Directory ef n L) {k m : Nat} (hm : 0 < m)
    (hend : entrySize * (k + m) ≤ n.size) :
    ∃ i, ∃ hi : i < L.length, readEntries m ((entrySize * k : Nat) : Int) ⟨ef, n⟩ =
      .ok (.ok ((List.range m).map fun j => entryAt ef.sb ef.dev.bytes L (k + j)))
        ⟨ef, n.pointAt i L[i]⟩ := by
  have hpos : 0 < entrySize * m := Nat.mul_pos (by decide) hm
  have hend' : entrySize * k + entrySize * m ≤ n.size := by rw [← Nat.mul_add]; exact hend
  obtain ⟨i, hi, hread⟩ := hd.pread hpos hend'
  refine ⟨i, hi, ?_⟩
  have hdir := hd.isDir
  have hsplit :
      splitEntries m (readBytes (content ef.sb ef.dev.bytes L) (entrySize * k) (entrySize * m)) =
      (List.range m).map fun j => entryAt ef.sb ef.dev.bytes L (k + j) := by
    unfold splitEntries
    refine List.map_congr_left fun j hj => ?_
    have hj' : entrySize * (j + 1) ≤ entrySize * m := Nat.mul_le_mul_left _ (List.mem_range.1 hj)
    rw [Nat.mul_add, Nat.mul_one] at hj'
    rw [take_drop_readBytes, Nat.min_eq_left (by omega), ← Nat.mul_add]
    rfl
  unfold ExFat.readEntries
  rw [run_bind_ok (run_get _)]
  dsimp only
  rw [hdir, if_neg (by decide), run_bind_ok hread]
  dsimp only
  rw [if_pos rfl, hsplit]
  rfl

/-- One entry. -/
theorem Directory.readEntry (hd : Directory ef n L) {k : Nat}
    (hend : entrySize * (k + 1) ≤ n.size) :
    ∃ i, ∃ hi : i < L.length, ExFat.readEntries 1 ((entrySize * k : Nat) : Int) ⟨ef, n⟩ =
      .ok (.ok [entryAt ef.sb ef.dev.bytes L k]) ⟨ef, n.pointAt i L[i]⟩ :=
  hd.readEntries Nat.one_pos hend

/-- The end of the directory is found without reading. -/
theorem Directory.readEntries_end (hd : Directory ef n L) {k m : Nat} (hm : 0 < m)
    (hend : n.size ≤ entrySize * k) :
    ExFat.readEntries m ((entrySize * k : Nat) : Int) ⟨ef, n⟩ = .ok (.error .enoent) ⟨ef, n⟩ := by
  have hpos : 0 < entrySize * m := Nat.mul_pos (by decide) hm
  have hdir := hd.isDir
  have hread : exfatGenericPread (entrySize * m) ((entrySize * k : Nat) : Int) ⟨ef, n⟩ =
      .ok (.ok (0, [])) (⟨ef, n⟩ : FileState Flat) := by
    unfold exfatGenericPread
    rw [run_bind_ok (run_get _)]
    dsimp only
    rw [Int.toNat_natCast, if_neg (by omega), if_pos hend]
    rfl
  unfold ExFat.readEntries
  rw [run_bind_ok (run_get _)]
  dsimp only
  rw [hdir, if_neg (by decide), run_bind_ok hread]
  dsimp only
  rw [if_neg (by omega), if_pos rfl]
  rfl

/-- A directory is made of whole entries. -/
theorem Directory.dvd (hd : Directory ef n L) : entrySize ∣ n.size := by
  rw [hd.size]
  exact Dvd.dvd.mul_left hd.whole _

/-! ### Passing over entries -/

/-- An entry that is not in use is passed over. -/
theorem skipEntry_unused {e : Entry} (h : e.type &&& entryValid = 0) (offset : Int)
    (s : FileState Flat) : skipEntry e offset s = .ok (.ok ()) s := by
  have hne : ∀ v, v &&& entryValid ≠ 0 → e.type ≠ v := fun v hv heq => hv (heq ▸ h)
  unfold skipEntry
  rw [if_neg (hne _ (by decide)), if_neg (hne _ (by decide)), if_neg (hne _ (by decide))]
  unfold readUnknown
  rw [if_pos h]
  rfl

/-- `readdir` passes over an entry that has no node. -/
theorem Directory.readdirLoop_skip (hd : Directory ef n L) {k : Nat} (fuel : Nat)
    (hend : entrySize * (k + 1) ≤ n.size)
    (htype : (entryAt ef.sb ef.dev.bytes L k).type ≠ entryFile)
    (hskip : ∀ n', skipEntry (entryAt ef.sb ef.dev.bytes L k)
      ((entrySize * k : Nat) : Int) ⟨ef, n'⟩ =
      .ok (.ok ()) ⟨ef', n'⟩) :
    ∃ i, ∃ hi : i < L.length, readdirLoop (fuel + 1) (entrySize * k) ⟨ef, n⟩ =
      readdirLoop fuel (entrySize * (k + 1)) ⟨ef', n.pointAt i L[i]⟩ := by
  obtain ⟨i, hi, hread⟩ := hd.readEntry hend
  refine ⟨i, hi, ?_⟩
  conv_lhs => unfold readdirLoop
  rw [run_bind_ok hread]
  simp only [List.getD_cons_zero]
  rw [if_neg htype, run_bind_ok (hskip _)]
  rfl

/-- An entry that cannot be read ends `readdir`. -/
theorem Directory.readdirLoop_stop (hd : Directory ef n L) {k : Nat} (fuel : Nat) {e : Errno}
    (hend : entrySize * (k + 1) ≤ n.size)
    (htype : (entryAt ef.sb ef.dev.bytes L k).type ≠ entryFile)
    (hskip : ∀ n', skipEntry (entryAt ef.sb ef.dev.bytes L k)
      ((entrySize * k : Nat) : Int) ⟨ef, n'⟩ =
      .ok (.error e) ⟨ef', n'⟩) :
    ∃ n', readdirLoop (fuel + 1) (entrySize * k) ⟨ef, n⟩ = .ok (.error e) ⟨ef', n'⟩ := by
  obtain ⟨i, hi, hread⟩ := hd.readEntry hend
  refine ⟨n.pointAt i L[i], ?_⟩
  unfold readdirLoop
  rw [run_bind_ok hread]
  simp only [List.getD_cons_zero]
  rw [if_neg htype, run_bind_ok (hskip _)]
  rfl

/-- If no entry from `k` on is in use, `readdir` comes to the end. -/
theorem Directory.readdirLoop_unused (hd : Directory ef n L) {k fuel : Nat}
    (hk : entrySize * k ≤ n.size) (hfuel : n.size < entrySize * (k + fuel))
    (h : ∀ j, k ≤ j → entrySize * (j + 1) ≤ n.size →
      (entryAt ef.sb ef.dev.bytes L j).type &&& entryValid = 0) :
    ∃ n', readdirLoop fuel (entrySize * k) ⟨ef, n⟩ = .ok (.error .enoent) ⟨ef, n'⟩ ∧
      n' = n.pointAt n'.fptrIndex n'.fptrCluster ∧ Directory ef n' L := by
  -- On the fuel; each step passes over one entry.
  induction fuel generalizing n k with
  | zero =>
    rw [Nat.add_zero] at hfuel
    omega
  | succ fuel ih =>
    rcases Nat.lt_or_ge (entrySize * k) n.size with hlt | hge
    · -- one more entry: the size is a multiple of that of an entry
      obtain ⟨m, hm⟩ := hd.dvd
      have hkm : k + 1 ≤ m := by
        rw [hm] at hlt
        exact Nat.lt_of_mul_lt_mul_left hlt
      have hend : entrySize * (k + 1) ≤ n.size := by
        rw [hm]
        exact Nat.mul_le_mul_left _ hkm
      have hunused := h k (Nat.le_refl k) hend
      have htype : (entryAt ef.sb ef.dev.bytes L k).type ≠ entryFile := by
        intro heq
        rw [heq] at hunused
        exact absurd hunused (by decide)
      obtain ⟨i, hi, hstep⟩ := hd.readdirLoop_skip fuel hend htype fun n' =>
        skipEntry_unused hunused _ _
      obtain ⟨n', hrun, hn', hd'⟩ := ih (hd.pointAt hi) (k := k + 1) hend
        (by rw [Nat.add_right_comm, Nat.add_assoc]; exact hfuel)
        fun j hj hend' => h j (by omega) hend'
      exact ⟨n', hstep.trans hrun, hn', hd'⟩
    -- the end of the directory
    · refine ⟨n, ?_, rfl, hd⟩
      unfold readdirLoop
      rw [run_bind_ok (hd.readEntries_end Nat.one_pos hge)]
      rfl

end ExFat
