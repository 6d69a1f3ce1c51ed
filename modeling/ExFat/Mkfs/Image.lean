import ExFat.Mkfs.Geometry
import ExFat.Alloc.Truncate

namespace ExFat.Mkfs

open ExFat Bytes Program

/-!
# What mkfs writes

On a device that is an array of bytes a run of `mkfs` that succeeds leaves `image`: every object is
erased, and then its pieces are written from its start on.  The objects lie apart, so each of them
is found in the image as it was written.
-/

/-! ### The runs -/

/-- Where the loops of `erase` and `create` come to each object. -/
def placements (p : Param) : (position : Nat) → List Object → List (Nat × Object)
  | _, [] => []
  | position, o :: rest =>
    (roundUp position (p.alignment o), o) ::
      placements p (roundUp position (p.alignment o) + p.size o) rest

/-- All that is written of an object. -/
def Param.data (p : Param) (o : Object) : List UInt8 := (p.pieces o).flatten

/-- The state after bytes have been written at the file position. -/
def MkState.wrote (s : MkState Flat) (data : List UInt8) : MkState Flat :=
  { s with dev := { s.dev with bytes := writeBytes s.dev.bytes s.pos data },
           pos := s.pos + data.length }

/-- Writing leaves the memory alone. -/
theorem MkState.wrote_malloc (s : MkState Flat) (data : List UInt8) :
    (s.wrote data).malloc = s.malloc := rfl

/-- Pieces that are written one after the other are written. -/
theorem writePieces_run (pieces : List (List UInt8)) (s : MkState Flat) :
    writePieces pieces s = .ok ⟨⟩ (s.wrote pieces.flatten) := by
  induction pieces generalizing s with
  | nil =>
    unfold MkState.wrote
    rw [List.flatten_nil, writeBytes_nil]
    rfl
  | cons piece rest ih =>
    show writePieces rest (s.wrote piece) = _
    rw [ih]
    unfold MkState.wrote
    simp only [writeBytes_append, List.flatten_cons, List.length_append, Nat.add_assoc]

/-- Pieces of zeroes are zeroes. -/
theorem flatten_replicate_zeros (sizes : List Nat) :
    (sizes.map fun n => List.replicate n (0 : UInt8)).flatten = List.replicate sizes.sum 0 := by
  induction sizes with
  | nil => rfl
  | cons n sizes ih =>
    rw [List.map_cons, List.flatten_cons, ih, List.sum_cons, List.replicate_add]

/-- The blocks `erase_object` writes add up to the size. -/
theorem sum_eraseBlocks (size n : Nat) {k : Nat} (hk : 0 < k) :
    ((List.range n).map fun i => min (size - i * k) k).sum = min size (n * k) := by
  induction n with
  | zero => simp
  | succ n ih =>
    rw [List.range_succ, List.map_append, List.sum_append, ih, List.map_singleton,
      List.sum_singleton, Nat.add_mul, Nat.one_mul]
    omega

/-- Blocks of zeroes are zeroes. -/
theorem flatten_eraseBlocks (size : Nat) {k : Nat} (hk : 0 < k) :
    ((List.range (divRoundUp size k)).map fun i =>
      List.replicate (min (size - i * k) k) (0 : UInt8)).flatten = List.replicate size 0 := by
  have h := flatten_replicate_zeros ((List.range (divRoundUp size k)).map fun i =>
    min (size - i * k) k)
  rw [List.map_map, sum_eraseBlocks _ _ hk, Nat.min_eq_left (le_divRoundUp_mul size hk)] at h
  exact h

/-- What `erase_object` writes is zeroes. -/
theorem flatten_erasePieces (size : Nat) : (erasePieces size).flatten = List.replicate size 0 :=
  flatten_eraseBlocks size (by decide)

/-- `exfat_seek` sets the position. -/
theorem exfatSeek_run (offset : Nat) (s : MkState Flat) :
    exfatSeek offset s = .ok ⟨⟩ { s with pos := offset } := rfl

/-- `erase_object` writes zeroes. -/
theorem eraseObject_run (start size : Nat) (s : MkState Flat) :
    eraseObject start size s =
      .ok ⟨⟩ (MkState.wrote { s with pos := start } (List.replicate size 0)) := by
  unfold eraseObject
  rw [run_bind_ok (exfatSeek_run ..), writePieces_run, flatten_erasePieces]

/-- The device after writes at given places, and the rest of the state as some run leaves it. -/
def Wrote (s s' : MkState Flat) (writes : List (Nat × List UInt8)) : Prop :=
  s'.dev = { s.dev with bytes := writeAll s.dev.bytes writes } ∧ s'.malloc = s.malloc

/-- The loop of `erase` writes zeroes over all objects. -/
theorem eraseLoop_run (p : Param) (objs : List Object) (position : Nat) (s : MkState Flat) :
    ∃ s', eraseLoop p position objs s = .ok ⟨⟩ s' ∧
      Wrote s s' ((placements p position objs).map fun q =>
        (q.1, List.replicate (p.size q.2) 0)) := by
  induction objs generalizing position s with
  | nil => exact ⟨s, rfl, rfl, rfl⟩
  | cons o rest ih =>
    obtain ⟨s', hrun, hdev, hmalloc⟩ := ih (roundUp position (p.alignment o) + p.size o)
      (MkState.wrote { s with pos := roundUp position (p.alignment o) }
        (List.replicate (p.size o) 0))
    refine ⟨s', ?_, ?_, hmalloc.trans (MkState.wrote_malloc _ _)⟩
    · rw [eraseLoop, run_bind_ok (eraseObject_run ..)]
      exact hrun
    · rw [hdev, placements, List.map_cons, writeAll_cons]
      rfl

/-- An object is written, unless memory runs out. -/
theorem writeObject_run (p : Param) (o : Object) (s : MkState Flat) :
    (∃ s', writeObject p o s = .ok ⟨⟩ s' ∧ Wrote s s' [(s.pos, p.data o)]) ∨
    ((∃ t, s.malloc t = false) ∧ ∃ s', writeObject p o s = .error () s') := by
  by_cases ho : o = .vbr ∨ o = .cbm
  · by_cases hm : s.malloc s.ticks = true
    · have hmalloc : mkMalloc s = .ok ⟨⟩ { s with ticks := s.ticks + 1 } := by
        simp [mkMalloc, run_bind, hm]
      refine Or.inl ⟨MkState.wrote { s with ticks := s.ticks + 1 } (p.data o), ?_, rfl,
        MkState.wrote_malloc _ _⟩
      simp only [writeObject, ho, if_true, run_bind, hmalloc]
      exact writePieces_run _ _
    · rw [Bool.not_eq_true] at hm
      have hmalloc : mkMalloc s = .error () { s with ticks := s.ticks + 1 } := by
        simp [mkMalloc, run_bind, hm]
      refine Or.inr ⟨⟨_, hm⟩, { s with ticks := s.ticks + 1 }, ?_⟩
      simp only [writeObject, ho, if_true, run_bind, hmalloc]
  · refine Or.inl ⟨s.wrote (p.data o), ?_, rfl, MkState.wrote_malloc _ _⟩
    simp only [writeObject, ho, if_false]
    exact writePieces_run _ _

/-- A run of `create` writes every object, unless memory runs out. -/
theorem createLoop_run (p : Param) (objs : List Object) (position : Nat) (s : MkState Flat) :
    (∃ s', createLoop p position objs s = .ok ⟨⟩ s' ∧
      Wrote s s' ((placements p position objs).map fun q => (q.1, p.data q.2))) ∨
    ((∃ t, s.malloc t = false) ∧ ∃ s', createLoop p position objs s = .error () s') := by
  induction objs generalizing position s with
  | nil => exact Or.inl ⟨s, rfl, rfl, rfl⟩
  | cons o rest ih =>
    rw [createLoop, run_bind_ok (exfatSeek_run ..)]
    rcases writeObject_run p o { s with pos := roundUp position (p.alignment o) } with
      ⟨s₁, hrun₁, hdev₁, hmalloc₁⟩ | ⟨ht, s₁, hrun₁⟩
    · rw [run_bind_ok hrun₁]
      rcases ih (roundUp position (p.alignment o) + p.size o) s₁ with
        ⟨s', hrun, hdev, hmalloc⟩ | ⟨⟨t, ht⟩, s', hrun⟩
      · refine Or.inl ⟨s', hrun, ?_, hmalloc.trans hmalloc₁⟩
        rw [hdev, hdev₁, placements, List.map_cons, writeAll_cons]
        rfl
      · exact Or.inr ⟨⟨t, hmalloc₁ ▸ ht⟩, s', hrun⟩
    · rw [run_bind_error hrun₁]
      exact Or.inr ⟨ht, s₁, rfl⟩

/-- The medium after a successful run of `mkfs`. -/
def image (p : Param) (b : Store) : Store :=
  writeAll (writeAll b ((placements p 0 objects).map fun q => (q.1, List.replicate (p.size q.2) 0)))
    ((placements p 0 objects).map fun q => (q.1, p.data q.2))

/-- `mkfs` on an array of bytes. -/
theorem mkfs_run (p : Param) (s : MkState Flat) :
    (∃ s', mkfs p s = .ok ⟨⟩ s' ∧ p.checkSize = true ∧
      s'.dev = { s.dev with bytes := image p s.dev.bytes }) ∨
    ((p.checkSize = false ∨ ∃ t, s.malloc t = false) ∧ ∃ s', mkfs p s = .error () s') := by
  unfold mkfs
  by_cases hc : p.checkSize = true
  · rw [if_pos hc]
    by_cases hm : s.malloc s.ticks = true
    · have hmalloc : mkMalloc s = .ok ⟨⟩ { s with ticks := s.ticks + 1 } := by
        simp [mkMalloc, run_bind, hm]
      obtain ⟨s₁, hrun₁, hdev₁, hmalloc₁⟩ :=
        eraseLoop_run p objects 0 { s with ticks := s.ticks + 1 }
      rw [run_bind_ok hmalloc, run_bind_ok hrun₁]
      rcases createLoop_run p objects 0 s₁ with ⟨s₂, hrun₂, hdev₂, _⟩ | ⟨⟨t, ht⟩, s₂, hrun₂⟩
      · rw [run_bind_ok hrun₂]
        refine Or.inl ⟨s₂, rfl, hc, ?_⟩
        rw [hdev₂, hdev₁, image]
      · rw [run_bind_error hrun₂]
        exact Or.inr ⟨Or.inr ⟨t, hmalloc₁ ▸ ht⟩, s₂, rfl⟩
    · rw [Bool.not_eq_true] at hm
      have hmalloc : mkMalloc s = .error () { s with ticks := s.ticks + 1 } := by
        simp [mkMalloc, run_bind, hm]
      rw [run_bind_error hmalloc]
      exact Or.inr ⟨Or.inr ⟨_, hm⟩, _, rfl⟩
  · rw [if_neg hc]
    rw [Bool.not_eq_true] at hc
    exact Or.inr ⟨Or.inl hc, s, rfl⟩

/-! ### The places of the objects -/

namespace Param

variable (p : Param)

/-- The room each object has. -/
def room : Object → Nat
  | .vbr => 12 * p.sectorSize
  | .fat => p.heapIndex * p.clusterSize - 128 * p.sectorSize
  | o => p.clusters o * p.clusterSize

/-- Where the objects are placed. -/
theorem placements_objects :
    placements p 0 objects = [(0, .vbr), (12 * p.sectorSize, .vbr), (128 * p.sectorSize, .fat),
      (p.position .cbm, .cbm), (p.position .uct, .uct), (p.position .rootdir, .rootdir)] := by
  have hss := p.sectorSize_pos
  have h0 : roundUp 0 p.sectorSize = 0 := roundUp_of_dvd hss (Nat.dvd_zero _)
  have h1 : roundUp (roundUp 0 p.sectorSize + 12 * p.sectorSize) p.sectorSize =
      12 * p.sectorSize := by
    rw [h0, Nat.zero_add]
    exact roundUp_of_dvd hss (Nat.dvd_mul_left _ _)
  show [(roundUp 0 p.sectorSize, Object.vbr),
    (roundUp (roundUp 0 p.sectorSize + 12 * p.sectorSize) p.sectorSize, Object.vbr),
    (roundUp (roundUp (roundUp 0 p.sectorSize + 12 * p.sectorSize) p.sectorSize +
      12 * p.sectorSize) (128 * p.sectorSize), Object.fat), (p.position .cbm, Object.cbm),
    (p.position .uct, Object.uct), (p.position .rootdir, Object.rootdir)] = _
  rw [p.fatPosition, h1, h0]

/-- The FAT ends before the heap. -/
theorem le_heapIndex_mul :
    128 * p.sectorSize + p.fit * 4 ≤ p.heapIndex * p.clusterSize :=
  le_divRoundUp_mul _ p.clusterSize_pos

/-- The objects do not overlap. -/
theorem placements_apart :
    (placements p 0 objects).Pairwise fun q r => q.1 + p.room q.2 ≤ r.1 := by
  have hss := p.sectorSize_pos
  have hheap := p.le_heapIndex_mul
  rw [placements_objects, position_cbm, position_uct, position_rootdir]
  simp only [List.pairwise_cons, List.mem_cons, List.not_mem_nil, or_false, forall_eq_or_imp,
    forall_eq, room, Nat.add_mul, List.Pairwise.nil, IsEmpty.forall_iff, implies_true, and_true]
  omega

end Param

section Feasible

variable {p : Param}

/-- There is room in the FAT for the entries that are written, even when the FAT is one entry short
of all clusters. -/
theorem Feasible.fat_room (h : Feasible p) : 4 * (p.used + 2) ≤ p.room .fat := by
  have hheap := p.le_heapIndex_mul
  have hused := h.used_le
  have hss := h.le_sectorSize
  show 4 * (p.used + 2) ≤ p.heapIndex * p.clusterSize - 128 * p.sectorSize
  -- The FAT fills what the alignment of the heap leaves, at least in more than one cluster.
  by_cases h2 : 2 ≤ p.heapIndex
  · omega
  · have h1 : p.heapIndex = 1 := by
      have := heapIndex_pos p
      omega
    rw [h1, Nat.one_mul] at hheap ⊢
    -- the clusters are so large that each object takes one
    have hcs : 256 * p.sectorSize ≤ p.clusterSize := by
      have hlt : 128 < 2 ^ p.spcBits := by
        by_contra hle
        have : p.clusterSize ≤ p.sectorSize * 128 := Nat.mul_le_mul_left _ (by omega)
        unfold Param.used at hused
        omega
      have hbits : 8 ≤ p.spcBits := by
        by_contra hlt'
        have : 2 ^ p.spcBits ≤ 2 ^ 7 := Nat.pow_le_pow_right (by omega) (by omega)
        omega
      have : 2 ^ 8 ≤ 2 ^ p.spcBits := Nat.pow_le_pow_right (by omega) hbits
      calc 256 * p.sectorSize = p.sectorSize * 2 ^ 8 := by ring
        _ ≤ p.sectorSize * 2 ^ p.spcBits := Nat.mul_le_mul_left _ this
    have hcbm : p.clusters .cbm ≤ 1 := by
      unfold Param.clusters
      rw [divRoundUp_le_iff p.clusterSize_pos, Param.size_cbm, divRoundUp_le_iff (by decide)]
      omega
    have huct : p.clusters .uct ≤ 1 := by
      unfold Param.clusters
      rw [divRoundUp_le_iff p.clusterSize_pos]
      show upcaseTableSize ≤ _
      unfold upcaseTableSize
      omega
    unfold Param.used
    omega

/-- The number of used clusters fits into 32 bits. -/
theorem Feasible.used_lt (h : Feasible p) : p.used + 9 < 2 ^ 32 := by
  have h1 := h.used_le
  have h2 := h.fit_lt
  omega

/-- A chain has an entry for each of its clusters. -/
theorem length_fatEntries (cluster : Nat) {n : Nat} (hn : 0 < n) :
    (Param.fatEntries cluster n).length = n := by
  simp only [Param.fatEntries, List.length_append, List.length_map, List.length_range,
    List.length_singleton]
  omega

/-- Numbers of the same width one after the other. -/
theorem length_flatten_natLe (k : Nat) (l : List Nat) :
    (l.map (natLe k)).flatten.length = k * l.length := by
  induction l with
  | nil => rfl
  | cons x l ih =>
    rw [List.map_cons, List.flatten_cons, List.length_append, length_natLe, ih, List.length_cons]
    ring

/-- The FAT is written up to the clusters that are used. -/
theorem Feasible.length_fat (h : Feasible p) : (p.data .fat).length = 4 * (p.used + 2) := by
  show ((_ : List Nat).map (natLe 4)).flatten.length = _
  rw [length_flatten_natLe, List.length_append, List.length_append, List.length_append,
    length_fatEntries _ h.clusters_cbm_pos, length_fatEntries _ p.clusters_uct_pos,
    length_fatEntries _ (by rw [p.clusters_rootdir]; decide), p.clusters_rootdir]
  unfold Param.used
  simp only [List.length_cons, List.length_nil]
  ring

/-- The boot region is 512 bytes and eleven sectors. -/
theorem Feasible.length_vbr (h : Feasible p) : (p.data .vbr).length = 512 + 11 * p.sectorSize := by
  have hss := h.le_sectorSize
  have hboot : p.bootSector.length = p.sectorSize := by
    simp only [Param.bootSector, List.length_append, List.length_replicate, length_natLe]
    omega
  have hsum : ((List.replicate (p.sectorSize / 4) (natLe 4 p.vbrChecksum)).flatten).length =
      p.sectorSize := by
    have hdvd : 4 ∣ p.sectorSize := Dvd.dvd.trans (by decide : 4 ∣ 2 ^ 9)
      (Nat.pow_dvd_pow 2 h.sector)
    rw [List.length_flatten, List.map_replicate, length_natLe, List.sum_replicate_nat]
    exact Nat.div_mul_cancel hdvd
  show (p.vbrPieces).flatten.length = _
  simp only [Param.vbrPieces, List.flatten_append, List.length_append, List.flatten_cons,
    List.flatten_nil, List.append_nil, length_initSb, hsum, List.length_flatten, List.map_replicate,
    List.sum_replicate_nat, hboot, Param.emptySector, List.length_replicate]
  ring

/-- The clusters that are marked are those that are used. -/
theorem Feasible.allocatedClusters_eq (h : Feasible p) : p.allocatedClusters = p.used := by
  have := h.used_lt
  unfold Param.allocatedClusters
  rw [p.clusters_rootdir]
  exact Nat.mod_eq_of_lt (by unfold Param.used at this; omega)

/-- The bitmap is written up to the clusters that are used. -/
theorem Feasible.length_cbm (h : Feasible p) : (p.data .cbm).length = divRoundUp p.used 8 := by
  show (List.flatten [p.cbmPiece]).length = _
  simp [Param.cbmPiece, h.allocatedClusters_eq]

/-- The label entry is an entry. -/
theorem length_labelEntry (p : Param) : p.labelEntry.length = 32 := by
  unfold Param.labelEntry
  split
  · rfl
  · have hname :
        (((List.range enameMax).map fun i => natLe 2 (p.volumeLabel.getD i 0)).flatten).length
        = 30 := by
      have h := length_flatten_natLe 2 ((List.range enameMax).map fun i => p.volumeLabel.getD i 0)
      rwa [List.map_map, List.length_map, List.length_range] at h
    exact length_patch_eq (length_patch_eq (length_patch_eq (List.length_replicate ..)
      (by rw [hname])) (by rw [length_natLe]; decide)) (by decide)

/-- The bitmap entry is an entry. -/
theorem length_bitmapEntry (p : Param) : p.bitmapEntry.length = 32 :=
  length_patch_eq (length_patch_eq (length_patch_eq (List.length_replicate ..) (by decide))
    (by rw [length_natLe]; decide)) (by rw [length_natLe])

/-- The upcase entry is an entry. -/
theorem length_upcaseEntry (p : Param) : p.upcaseEntry.length = 32 :=
  length_patch_eq (length_patch_eq (length_patch_eq (length_patch_eq (List.length_replicate ..)
    (by decide)) (by rw [length_natLe]; decide)) (by rw [length_natLe]; decide))
    (by rw [length_natLe])

/-- The root directory is written with three entries. -/
theorem length_rootdir (p : Param) : (p.data .rootdir).length = 96 := by
  show (List.flatten [p.labelEntry, p.bitmapEntry, p.upcaseEntry]).length = _
  simp [length_labelEntry, length_bitmapEntry, length_upcaseEntry]

/-- What is written of an object fits in its room, and so does what is erased of it. -/
theorem Feasible.fits_room (h : Feasible p) (o : Object) :
    (p.data o).length ≤ p.room o ∧ p.size o ≤ p.room o := by
  have hcs := p.clusterSize_pos
  have hss := h.le_sectorSize
  have hcover : ∀ o, p.size o ≤ p.clusters o * p.clusterSize := fun o => le_divRoundUp_mul _ hcs
  -- What is written of each object is no longer than its size, except for the FAT.
  cases o with
  | vbr =>
    rw [h.length_vbr]
    exact ⟨by show _ ≤ 12 * p.sectorSize; omega, Nat.le_refl _⟩
  | fat =>
    have hheap := p.le_heapIndex_mul
    rw [h.length_fat]
    exact ⟨h.fat_room, by
      show p.fit * 4 ≤ p.heapIndex * p.clusterSize - 128 * p.sectorSize
      omega⟩
  | cbm =>
    refine ⟨Nat.le_trans ?_ (hcover .cbm), hcover .cbm⟩
    have hused := h.used_le
    rw [h.length_cbm, p.size_cbm, divRoundUp_le_iff (by decide)]
    have := le_divRoundUp_mul (p.fit - p.heapIndex) (show 0 < 8 by decide)
    omega
  | uct =>
    refine ⟨Nat.le_trans ?_ (hcover .uct), hcover .uct⟩
    show (List.flatten [p.upcaseTable]).length ≤ upcaseTableSize
    simp [h.table]
  | rootdir =>
    refine ⟨Nat.le_trans ?_ (hcover .rootdir), hcover .rootdir⟩
    rw [length_rootdir]
    have := sectorSize_le p
    show 96 ≤ p.clusterSize
    omega

/-- An object is found in the image as it was written, and is zero after that. -/
theorem Feasible.image_apply (h : Feasible p) (b : Store) {q : Nat} {o : Object}
    (hq : (q, o) ∈ placements p 0 objects) {i : Nat} (hi : i < p.size o ∨ i < (p.data o).length) :
    image p b (q + i) = (p.data o).getD i 0 := by
  obtain ⟨hdata, hsize⟩ := h.fits_room o
  have hroom : i < p.room o := by omega
  have hzero : ∀ x ∈ placements p 0 objects, (List.replicate (p.size x.2) (0 : UInt8)).length ≤
      p.room x.2 := by
    intro x _
    rw [List.length_replicate]
    exact (h.fits_room x.2).2
  have hwrote := writeAll_apart (b := writeAll b ((placements p 0 objects).map fun q =>
    (q.1, List.replicate (p.size q.2) 0))) p.placements_apart
      (fun q _ => (h.fits_room q.2).1) hq hroom
  have herased := writeAll_apart (b := b) p.placements_apart hzero hq hroom
  unfold image
  rw [hwrote]
  by_cases hlt : i < (p.data o).length
  · exact writeBytes_inside hlt
  · rw [writeBytes_outside (Or.inr (by show q + (p.data o).length ≤ q + i; omega)), herased,
      List.getD_eq_default (p.data o) _ (by omega)]
    have hi' : i < (List.replicate (p.size o) (0 : UInt8)).length := by
      rw [List.length_replicate]
      omega
    refine (writeBytes_inside hi').trans ?_
    rw [List.getD_eq_getElem _ _ hi', List.getElem_replicate]

/-! ### Reading the image -/

/-- What has been written for an object is read back from the image. -/
theorem Feasible.readBytes_image (h : Feasible p) (b : Store) {q : Nat} {o : Object}
    (hq : (q, o) ∈ placements p 0 objects) (off n : Nat) (hn : off + n ≤ (p.data o).length) :
    readBytes (image p b) (q + off) n = ((p.data o).drop off).take n := by
  symm
  apply eq_readBytes
  · rw [List.length_take, List.length_drop]
    omega
  · intro i hi
    rw [Nat.add_assoc, h.image_apply b hq (Or.inr (by omega))]
    simp [List.getD_eq_getElem?_getD, hi]

/-- The superblock in an image. -/
def sbAt (b : Store) : SuperBlock := ⟨readBytes b 0 512⟩

/-- The superblock is read back from the image. -/
theorem Feasible.sbAt_image (h : Feasible p) (b : Store) : sbAt (image p b) = p.initSb := by
  have hq : (0, Object.vbr) ∈ placements p 0 objects := by
    rw [p.placements_objects]
    exact List.mem_cons_self
  have hread := h.readBytes_image b hq 0 512 (by rw [h.length_vbr]; omega)
  obtain ⟨rest, hdata⟩ : ∃ rest, p.data .vbr = p.initSb.bytes ++ rest := by
    rw [Param.data, Param.pieces, Param.vbrPieces, List.append_assoc, List.append_assoc,
      List.singleton_append, List.flatten_cons]
    exact ⟨_, rfl⟩
  rw [Nat.zero_add, hdata, List.drop_zero, List.take_append_of_le_length (by rw [length_initSb]),
    List.take_of_length_le (by rw [length_initSb])] at hread
  rw [sbAt, hread]

/-- The entries of the FAT. -/
def Param.fatList (p : Param) : List Nat :=
  [0xfffffff8, 0xffffffff] ++ Param.fatEntries (p.firstCluster .cbm) (p.clusters .cbm) ++
    Param.fatEntries (p.firstCluster .uct) (p.clusters .uct) ++
    Param.fatEntries (p.firstCluster .rootdir) (p.clusters .rootdir)

/-- The entries of a chain. -/
theorem getD_fatEntries (cluster : Nat) {n i : Nat} (hi : i < n) :
    (Param.fatEntries cluster n).getD i 0 = if i + 1 < n then cluster + i + 1 else clusterEnd := by
  unfold Param.fatEntries
  have hlen : ((List.range (n - 1)).map fun i => cluster + i + 1).length = n - 1 := by simp
  by_cases h : i + 1 < n
  · rw [if_pos h, List.getD_append _ _ _ _ (by omega), List.getD_eq_getElem _ _ (by omega)]
    simp
  · rw [if_neg h, List.getD_append_right _ _ _ _ (by omega), hlen, show i - (n - 1) = 0 by omega]
    rfl

/-- The FAT is read back from the image. -/
theorem Feasible.fatEntry_image (h : Feasible p) (b : Store) {c : Nat} (hc : c < p.used + 2) :
    fatEntry p.initSb (image p b) c = p.fatList.getD c 0 % 2 ^ 32 := by
  have hg := h.geometry
  have hq : (128 * p.sectorSize, Object.fat) ∈ placements p 0 objects := by
    simp [Param.placements_objects]
  have hlen := h.length_fat
  have hlist : 4 * p.fatList.length = (p.data .fat).length :=
    (length_flatten_natLe 4 p.fatList).symm
  have hoff : fatOffset p.initSb c = 128 * p.sectorSize + 4 * c := by
    unfold fatOffset s2o
    rw [hg.fatStart, hg.sectorBits, Nat.mul_comm c 4]
    rfl
  have hread : readBytes (image p b) (128 * p.sectorSize + 4 * c) 4 =
      natLe 4 (p.fatList.getD c 0) := by
    symm
    apply eq_readBytes (length_natLe ..)
    intro j hj
    rw [Nat.add_assoc, h.image_apply b hq (Or.inr (by omega))]
    exact (getD_flatten_natLe 4 p.fatList (by omega) hj).symm
  unfold fatEntry
  rw [hoff, hread, leNat_natLe]
  rfl

/-! ### The objects of the heap -/

/-- The first cluster of the upcase table. -/
theorem Feasible.firstCluster_uct (h : Feasible p) : p.firstCluster .uct = p.clusters .cbm + 2 := by
  have := h.clusters_cbm_pos
  show 2 + max (p.clusters .cbm) 1 = _
  omega

/-- The cluster of the root directory. -/
theorem Feasible.firstCluster_rootdir (h : Feasible p) :
    p.firstCluster .rootdir = p.clusters .cbm + p.clusters .uct + 2 := by
  have := h.clusters_cbm_pos
  have := p.clusters_uct_pos
  show 2 + max (p.clusters .cbm) 1 + max (p.clusters .uct) 1 = _
  omega

/-- The entries of the object whose first cluster is `first`: `before` is what stands before it. -/
theorem Feasible.fatEntry_object (h : Feasible p) (b : Store) (before after : List Nat)
    {first n : Nat} (hlist : p.fatList = before ++ Param.fatEntries first n ++ after)
    (hbefore : before.length = first) {i : Nat} (hi : i < n) :
    fatEntry p.initSb (image p b) (first + i) = if i + 1 < n then first + i +
      1 else clusterEnd := by
  have hlen : p.fatList.length = p.used + 2 := by
    have h1 := length_flatten_natLe 4 p.fatList
    have h2 := h.length_fat
    have h3 : (p.data .fat).length = (p.fatList.map (natLe 4)).flatten.length := rfl
    omega
  have hn : (Param.fatEntries first n).length = n := length_fatEntries _ (by omega)
  have hlt : first + n ≤ p.used + 2 := by
    rw [← hlen, hlist, List.length_append, List.length_append, hn]
    omega
  have hused := h.used_lt
  have hget : p.fatList.getD (first + i) 0 =
      if i + 1 < n then first + i + 1 else clusterEnd := by
    rw [hlist, List.getD_append _ _ _ _ (by rw [List.length_append, hn]; omega),
      List.getD_append_right _ _ _ _ (by omega), hbefore, Nat.add_sub_cancel_left,
      getD_fatEntries _ hi]
  rw [h.fatEntry_image b (by omega), hget]
  apply Nat.mod_eq_of_lt
  split
  · omega
  · decide

/-- The FAT chain of an object of the heap. -/
theorem Feasible.chain_object (h : Feasible p) (b : Store) (before after : List Nat) {first n : Nat}
    (hlist : p.fatList = before ++ Param.fatEntries first n ++ after)
    (hbefore : before.length = first) (hn : 0 < n) :
    Chain.Follows (fatEntry p.initSb (image p b)) first (List.range' first n ++ [clusterEnd]) := by
  refine Chain.follows_run ?_ ?_ hn
  · intro i hi
    rw [h.fatEntry_object b before after hlist hbefore (by omega), if_pos hi]
  · intro i hi
    rw [h.fatEntry_object b before after hlist hbefore (by omega), if_neg (by omega)]

/-- The chain of the bitmap. -/
theorem Feasible.chain_cbm (h : Feasible p) (b : Store) :
    Chain.Follows (fatEntry p.initSb (image p b)) 2
      (List.range' 2 (p.clusters .cbm) ++ [clusterEnd]) :=
  h.chain_object b [0xfffffff8, 0xffffffff]
    (Param.fatEntries (p.firstCluster .uct) (p.clusters .uct) ++
    Param.fatEntries (p.firstCluster .rootdir) (p.clusters .rootdir)) (by
      rw [Param.fatList, ← List.append_assoc]
      rfl) rfl h.clusters_cbm_pos

/-- The chain of the upcase table. -/
theorem Feasible.chain_uct (h : Feasible p) (b : Store) :
    Chain.Follows (fatEntry p.initSb (image p b)) (p.clusters .cbm + 2)
      (List.range' (p.clusters .cbm + 2) (p.clusters .uct) ++ [clusterEnd]) :=
  h.chain_object b _ _ (by rw [Param.fatList, h.firstCluster_uct]) (by
    rw [List.length_append, length_fatEntries _ h.clusters_cbm_pos]
    simp only [List.length_cons, List.length_nil]
    omega) p.clusters_uct_pos

/-- The chain of the root directory. -/
theorem Feasible.chain_rootdir (h : Feasible p) (b : Store) :
    Chain.Follows (fatEntry p.initSb (image p b)) (p.clusters .cbm + p.clusters .uct + 2)
      (List.range' (p.clusters .cbm + p.clusters .uct + 2) 1 ++ [clusterEnd]) :=
  h.chain_object b ([0xfffffff8, 0xffffffff] ++
      Param.fatEntries (p.firstCluster .cbm) (p.clusters .cbm) ++
      Param.fatEntries (p.firstCluster .uct) (p.clusters .uct)) [] (by
    rw [Param.fatList, h.firstCluster_rootdir, p.clusters_rootdir, List.append_nil]) (by
    rw [List.length_append, List.length_append, length_fatEntries _ h.clusters_cbm_pos,
      length_fatEntries _ p.clusters_uct_pos]
    simp only [List.length_cons, List.length_nil]
    omega) (by decide)

/-- Where a cluster of the new volume lies. -/
theorem Feasible.clusterOffset_eq (h : Feasible p) (c : Nat) :
    clusterOffset p.initSb c = (p.heapIndex + (c - 2)) * p.clusterSize := by
  have hg := h.geometry
  unfold clusterOffset clusterSector s2o firstDataCluster
  rw [hg.heap, hg.spcBits, hg.sectorBits, ← Nat.add_mul, Nat.mul_assoc]
  unfold Param.clusterSize Param.sectorSize
  rw [Nat.mul_comm (2 ^ p.sectorBits)]

/-- The size of a cluster in the superblock. -/
theorem Feasible.clusterSize_eq (h : Feasible p) : p.initSb.clusterSize = p.clusterSize := by
  have hg := h.geometry
  unfold SuperBlock.clusterSize SuperBlock.sectorSize
  rw [hg.spcBits, hg.sectorBits]
  rfl

/-- The clusters of the heap. -/
theorem Feasible.valid_iff (h : Feasible p) (c : Nat) :
    Valid p.initSb c ↔ 2 ≤ c ∧ c < p.fit - p.heapIndex + 2 := by
  unfold Valid
  rw [clusterInvalid_eq_false, h.geometry.count]

/-- The bytes of the objects of the heap, cluster by cluster. -/
theorem Feasible.content_object (h : Feasible p) (b : Store) {o : Object} {first n : Nat}
    (hq : (clusterOffset p.initSb first, o) ∈ placements p 0 objects) (hfirst : 2 ≤ first) {i : Nat}
    (hi : i < n * p.clusterSize) (hs : i < p.size o ∨ i < (p.data o).length) :
    content p.initSb (image p b) (List.range' first n) i = (p.data o).getD i 0 := by
  have hcs := p.clusterSize_pos
  have hlt : i / p.clusterSize < n := Nat.div_lt_of_lt_mul (by rwa [Nat.mul_comm])
  unfold content
  rw [h.clusterSize_eq, List.getElem?_range' hlt, Nat.one_mul]
  simp only [clusterByte]
  rw [← h.image_apply b hq hs, h.clusterOffset_eq, h.clusterOffset_eq]
  congr 1
  have hdm := Nat.div_add_mod' i p.clusterSize
  rw [Nat.sub_add_comm hfirst, ← Nat.add_assoc, Nat.add_mul (p.heapIndex + (first - 2))]
  omega

end Feasible

end ExFat.Mkfs
