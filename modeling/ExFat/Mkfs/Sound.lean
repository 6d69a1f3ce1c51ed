import ExFat.Mkfs.Image
import ExFat.Fs.Mount

namespace ExFat.Mkfs

open ExFat Bytes Program Chain

/-!
# Soundness of a new file system

`SoundLayout` is what a volume has to look like for libexfat to work on it: it is read off the bytes
of the volume alone.  The host mkfs produces such a volume except in two cases: the clusters are
larger than `exfat_mount` allows, or the FAT ends exactly where its last entry but one does.
-/

/-! ### Sound layouts -/

/-- The entry `k` of the root directory. -/
def rootEntry (b : Store) (k : Nat) : List UInt8 :=
  readBytes b (clusterOffset (sbAt b) (sbAt b).rootdirCluster + entrySize * k) entrySize

/-- `L` is the FAT chain of an object from `start` on, to the mark of its end, in the heap. -/
structure FatChain (sb : SuperBlock) (b : Store) (start : Nat) (L : List Nat) : Prop where
  follows : Follows (fatEntry sb b) start (L ++ [clusterEnd])
  valid : ∀ c ∈ L, Valid sb c

/-- Bit `i` of a bitmap that is stored in the clusters `L`. -/
def bitmapBit (sb : SuperBlock) (b : Store) (L : List Nat) (i : Nat) : Bool :=
  (content sb b L (i / 8)).toNat.testBit (i % 8)

/-- The bitmap, the upcase table and the root directory are where their entries say, in clusters of
their own, and the bitmap has the bits of exactly these clusters set. -/
structure SoundObjects (b : Store) (bitmap upcase root : List Nat) : Prop where
  bitmapType : leAt (rootEntry b 1) 0 1 = entryBitmap
  bitmapCovers : (sbAt b).clusterCount ≤ 8 * leAt (rootEntry b 1) 24 8
  bitmapChain : FatChain (sbAt b) b (leAt (rootEntry b 1) 20 4) bitmap
  bitmapLength : bitmap.length = divRoundUp (leAt (rootEntry b 1) 24 8) (sbAt b).clusterSize
  upcaseType : leAt (rootEntry b 2) 0 1 = entryUpcase
  upcaseChain : FatChain (sbAt b) b (leAt (rootEntry b 2) 20 4) upcase
  upcaseLength : upcase.length = divRoundUp (leAt (rootEntry b 2) 24 8) (sbAt b).clusterSize
  rootChain : FatChain (sbAt b) b (sbAt b).rootdirCluster root
  disjoint : (bitmap ++ upcase ++ root).Nodup
  bits : ∀ i, i < (sbAt b).clusterCount →
    (bitmapBit (sbAt b) b bitmap i = true ↔ i + 2 ∈ bitmap ++ upcase ++ root)

/-- A sound layout of a volume of `size` bytes. -/
structure SoundLayout (b : Store) (size : Nat) : Prop where
  format : (sbAt b).formatError = none
  volume : (sbAt b).volumeError size = none
  fatRoom : ((sbAt b).clusterCount + 2) * 4 ≤ (sbAt b).fatSectorCount * (sbAt b).sectorSize
  fatEnd : (sbAt b).fatSectorStart + (sbAt b).fatSectorCount ≤ (sbAt b).clusterSectorStart
  heapEnd : ∀ c, Valid (sbAt b) c → clusterOffset (sbAt b) c + (sbAt b).clusterSize ≤ size
  objects : ∃ bitmap upcase root, SoundObjects b bitmap upcase root

/-! ### What holds of every new volume -/

section Feasible

variable {p : Param}

/-- The bits of the bitmap on the image. -/
theorem Feasible.bit_image (h : Feasible p) (b : Store) {i : Nat} (hi : i < p.fit - p.heapIndex) :
    bitmapBit p.initSb (image p b) (List.range' 2 (p.clusters .cbm)) i = decide (i < p.used) := by
  have hcs := p.clusterSize_pos
  have hsize : i / 8 < p.size .cbm := by
    rw [p.size_cbm, lt_divRoundUp_iff (by decide)]
    omega
  have hroom : p.size .cbm ≤ p.clusters .cbm * p.clusterSize := le_divRoundUp_mul _ hcs
  have hq : (clusterOffset p.initSb 2, Object.cbm) ∈ placements p 0 objects := by
    rw [h.clusterOffset_eq, p.placements_objects, p.position_cbm]
    simp
  unfold bitmapBit
  rw [h.content_object b hq (Nat.le_refl 2) (by omega) (Or.inl hsize)]
  have hdata : p.data .cbm = (List.range (divRoundUp p.used 8)).map fun k =>
      UInt8.ofNat (bitsNat (fun b => decide (8 * k + b < p.used)) 8) := by
    show List.flatten [p.cbmPiece] = _
    simp [Param.cbmPiece, h.allocatedClusters_eq, bitsNat]
  rw [hdata]
  by_cases hk : i / 8 < divRoundUp p.used 8
  · rw [List.getD_eq_getElem _ _ (by simpa using hk)]
    have hlt := bitsNat_lt (fun b => decide (8 * (i / 8) + b < p.used)) 8
    rw [List.getElem_map, List.getElem_range, UInt8.toNat_ofNat', Nat.mod_eq_of_lt hlt,
      testBit_bitsNat, Nat.div_add_mod]
    simp [Nat.mod_lt]
  · rw [List.getD_eq_default _ _ (by simpa using hk)]
    rw [lt_divRoundUp_iff (by decide)] at hk
    simp only [UInt8.toNat_zero, Nat.zero_testBit]
    symm
    rw [decide_eq_false_iff_not]
    omega

/-- The entries of the root directory on the image. -/
theorem Feasible.rootEntry_image (h : Feasible p) (b : Store) {k : Nat} (hk : k < 3) :
    rootEntry (image p b) k = [p.labelEntry, p.bitmapEntry, p.upcaseEntry].getD k [] := by
  have hq : (clusterOffset p.initSb p.initSb.rootdirCluster, Object.rootdir) ∈
      placements p 0 objects := by
    rw [h.clusterOffset_eq, p.placements_objects, p.position_rootdir, h.geometry.root,
      Nat.add_sub_cancel, ← Nat.add_assoc]
    simp
  have hread := h.readBytes_image b hq (entrySize * k) entrySize (by
    rw [length_rootdir]
    unfold entrySize
    omega)
  unfold rootEntry
  rw [h.sbAt_image, hread]
  have hdata : p.data .rootdir = p.labelEntry ++ (p.bitmapEntry ++ (p.upcaseEntry ++ [])) := by
    rw [Param.data, Param.pieces]
    simp only [List.flatten_cons, List.flatten_nil]
  have h0 := length_labelEntry p
  have h1 := length_bitmapEntry p
  have h2 := length_upcaseEntry p
  rw [hdata]
  unfold entrySize
  obtain rfl | rfl | rfl : k = 0 ∨ k = 1 ∨ k = 2 := by omega
  · simp [h0]
  · simp [h0, h1]
  · have hdrop : p.labelEntry.drop 64 = [] := List.drop_eq_nil_of_le (by omega)
    have htake : p.upcaseEntry.take 32 = p.upcaseEntry := List.take_of_length_le (by omega)
    simp [List.drop_append, hdrop, h0, h1, htake]

/-- The byte that has been put in is read back. -/
theorem leAt_patch_byte {l : List UInt8} (x : UInt8) (h : 0 < l.length) :
    leAt (patch l 0 [x]) 0 1 = x.toNat := by
  unfold leAt
  rw [List.range_one, List.map_singleton, getD_patch (by rw [List.length_singleton]; omega),
    if_pos (by simp)]
  simp [leNat]

/-- The fields of the bitmap entry. -/
theorem leAt_bitmapEntry (p : Param) : leAt p.bitmapEntry 0 1 = entryBitmap ∧
    leAt p.bitmapEntry 20 4 = 2 ∧ leAt p.bitmapEntry 24 8 = p.size .cbm % 256 ^ 8 := by
  have h0 : (patch (List.replicate 32 0) 0 [(0x81 : UInt8)]).length = 32 :=
    length_patch_eq (List.length_replicate ..) (by decide)
  have h1 : (patch (patch (List.replicate 32 0) 0 [(0x81 : UInt8)]) 20
      (natLe 4 firstDataCluster)).length = 32 :=
    length_patch_eq h0 (by rw [length_natLe]; decide)
  unfold Param.bitmapEntry
  refine ⟨?_, ?_, leAt_patch_self (by rw [h1])⟩
  · rw [leAt_patch_of_disjoint (by rw [h1, length_natLe]) (Or.inr (by decide)),
      leAt_patch_of_disjoint (by rw [h0, length_natLe]; decide) (Or.inr (by decide)),
      leAt_patch_byte _ (by rw [List.length_replicate]; decide)]
    rfl
  · rw [leAt_patch_of_disjoint (by rw [h1, length_natLe]) (Or.inr (by decide)),
      leAt_patch_self (by rw [h0]; decide)]
    rfl

/-- The fields of the upcase entry. -/
theorem leAt_upcaseEntry (p : Param) : leAt p.upcaseEntry 0 1 = entryUpcase ∧
    leAt p.upcaseEntry 4 4 = exfatVbrAddChecksum p.upcaseTable 0 % 256 ^ 4 ∧
    leAt p.upcaseEntry 20 4 =
      ((p.position .uct - p.position .cbm) / p.clusterSize + firstDataCluster) % 256 ^ 4 ∧
    leAt p.upcaseEntry 24 8 = upcaseTableSize := by
  -- the fields are patched one behind the other, and none overlaps the next
  have h0 : (patch (List.replicate 32 0) 0 [(0x82 : UInt8)]).length = 32 :=
    length_patch_eq (List.length_replicate ..) (by decide)
  have h1 : (patch (patch (List.replicate 32 0) 0 [(0x82 : UInt8)]) 4
      (natLe 4 (exfatVbrAddChecksum p.upcaseTable 0))).length = 32 :=
    length_patch_eq h0 (by rw [length_natLe]; decide)
  have h2 : (patch (patch (patch (List.replicate 32 0) 0 [(0x82 : UInt8)]) 4
      (natLe 4 (exfatVbrAddChecksum p.upcaseTable 0))) 20
      (natLe 4 ((p.position .uct - p.position .cbm) / p.clusterSize + firstDataCluster))).length =
      32 :=
    length_patch_eq h1 (by rw [length_natLe]; decide)
  have hlast : ∀ {off n : Nat}, off + n ≤ 24 → leAt p.upcaseEntry off n = leAt (patch (patch
      (patch (List.replicate 32 0) 0 [(0x82 : UInt8)]) 4
      (natLe 4 (exfatVbrAddChecksum p.upcaseTable 0))) 20
      (natLe 4 ((p.position .uct - p.position .cbm) / p.clusterSize + firstDataCluster))) off n :=
    fun hle => leAt_patch_of_disjoint (by rw [h2, length_natLe]) (Or.inr hle)
  refine ⟨?_, ?_, ?_, ?_⟩
  · rw [hlast (by decide),
      leAt_patch_of_disjoint (by rw [h1, length_natLe]; decide) (Or.inr (by decide)),
      leAt_patch_of_disjoint (by rw [h0, length_natLe]; decide) (Or.inr (by decide)),
      leAt_patch_byte _ (by rw [List.length_replicate]; decide)]
    rfl
  · rw [hlast (by decide),
      leAt_patch_of_disjoint (by rw [h1, length_natLe]; decide) (Or.inr (by decide))]
    exact leAt_patch_self (by rw [h0]; decide)
  · rw [hlast (by decide)]
    exact leAt_patch_self (by rw [h1]; decide)
  · unfold Param.upcaseEntry
    rw [leAt_patch_self (by rw [h2])]
    rfl

/-- The objects on the image are sound. -/
theorem Feasible.soundObjects (h : Feasible p) (b : Store) :
    SoundObjects (image p b) (List.range' 2 (p.clusters .cbm))
      (List.range' (p.clusters .cbm + 2) (p.clusters .uct))
      (List.range' (p.clusters .cbm + p.clusters .uct + 2) 1) := by
  have hused := h.used_le
  have hlim := h.fit_lt
  have hcs := p.clusterSize_pos
  have hg := h.geometry
  have h1 := h.rootEntry_image b (k := 1) (by decide)
  have h2 := h.rootEntry_image b (k := 2) (by decide)
  simp only [List.getD_cons_succ, List.getD_cons_zero] at h1 h2
  obtain ⟨hbt, hbs, hbn⟩ := leAt_bitmapEntry p
  obtain ⟨hut, -, hus, hun⟩ := leAt_upcaseEntry p
  -- the table follows the bitmap, so its number does
  have hstart : (p.position .uct - p.position .cbm) / p.clusterSize + firstDataCluster =
      p.clusters .cbm + 2 := by
    rw [p.position_uct, p.position_cbm, ← Nat.sub_mul, Nat.add_sub_cancel_left,
      Nat.mul_div_cancel _ hcs]
    rfl
  have hsize : p.size .cbm < 256 ^ 8 := by
    rw [p.size_cbm]
    have := divRoundUp_mul_lt (x := p.fit - p.heapIndex) (d := 8) (by decide)
    omega
  rw [hstart] at hus
  unfold Param.used at hused
  rw [Nat.mod_eq_of_lt (by omega)] at hus
  rw [Nat.mod_eq_of_lt hsize] at hbn
  -- the clusters of the three objects are the first ones of the heap
  have hvalid : ∀ c, 2 ≤ c → c < p.used + 2 → Valid p.initSb c := by
    intro c hc hlt
    rw [h.valid_iff]
    unfold Param.used at hlt
    omega
  have hmem : ∀ c, c ∈ List.range' 2 (p.clusters .cbm) ++
      List.range' (p.clusters .cbm + 2) (p.clusters .uct) ++
      List.range' (p.clusters .cbm + p.clusters .uct + 2) 1 ↔ 2 ≤ c ∧ c < p.used + 2 := by
    intro c
    unfold Param.used
    simp only [List.mem_append, List.mem_range'_1]
    omega
  have hnodup : (List.range' 2 (p.clusters .cbm) ++
      List.range' (p.clusters .cbm + 2) (p.clusters .uct) ++
      List.range' (p.clusters .cbm + p.clusters .uct + 2) 1).Nodup := by
    refine List.Nodup.append (List.Nodup.append List.nodup_range' List.nodup_range' ?_)
      List.nodup_range' ?_
    · intro c hc hc'
      rw [List.mem_range'_1] at hc hc'
      omega
    · intro c hc hc'
      rw [List.mem_append, List.mem_range'_1, List.mem_range'_1] at hc
      rw [List.mem_range'_1] at hc'
      omega
  -- the bitmap entry, its size and chain; the same for the table; the root; and the bits
  constructor
  · rw [h1, hbt]
  · rw [h.sbAt_image, hg.count, h1, hbn, p.size_cbm]
    have := le_divRoundUp_mul (p.fit - p.heapIndex) (show 0 < 8 by decide)
    omega
  · rw [h.sbAt_image, h1, hbs]
    refine ⟨h.chain_cbm b, fun c hc => ?_⟩
    obtain ⟨ha, hb⟩ := (hmem c).mp (List.mem_append_left _ (List.mem_append_left _ hc))
    exact hvalid c ha hb
  · rw [h.sbAt_image, h.clusterSize_eq, h1, hbn, List.length_range']
    rfl
  · rw [h2, hut]
  · rw [h.sbAt_image, h2, hus]
    refine ⟨h.chain_uct b, fun c hc => ?_⟩
    obtain ⟨ha, hb⟩ := (hmem c).mp (List.mem_append_left _ (List.mem_append_right _ hc))
    exact hvalid c ha hb
  · rw [h.sbAt_image, h.clusterSize_eq, h2, hun, List.length_range']
    rfl
  · rw [h.sbAt_image, hg.root]
    refine ⟨h.chain_rootdir b, fun c hc => ?_⟩
    obtain ⟨ha, hb⟩ := (hmem c).mp (List.mem_append_right _ hc)
    exact hvalid c ha hb
  · exact hnodup
  · intro i hi
    rw [h.sbAt_image, hg.count] at hi
    rw [h.sbAt_image, h.bit_image b hi, hmem, decide_eq_true_eq]
    omega

/-- The superblock bears the name of exFAT. -/
theorem oemName_initSb (p : Param) : p.initSb.oemName = oemExfat := by
  have hlen := length_initSb p
  have h : leAt p.initSb.bytes 0x03 8 = leNat oemExfat :=
    leAt_initSb (by simp [Param.sbFields, oemExfat]) (by decide)
  rw [leAt_eq_leNat (by omega)] at h
  refine leNat_injective ?_ h
  unfold SuperBlock.oemName
  rw [List.length_take, List.length_drop, hlen]
  rfl

/-- The FAT has room for all entries unless it is one entry short: one cluster holds the boot region
and the FAT, and the FAT fills it to the last byte. -/
theorem Feasible.fatRoom_iff (h : Feasible p) :
    (p.fit - p.heapIndex + 2) * 4 ≤ p.heapIndex * p.clusterSize - 128 * p.sectorSize ↔
      p.clusterSize ≠ 128 * p.sectorSize + 4 * p.fit := by
  have hcs := p.clusterSize_pos
  have hheap := p.le_heapIndex_mul
  have hpos := heapIndex_pos p
  have hused := h.used_le
  unfold Param.used at hused
  constructor
  -- with one cluster in front the FAT is exactly full, and two entries are missing
  · intro hroom heq
    have hone : p.heapIndex = 1 := by
      unfold Param.heapIndex
      apply divRoundUp_eq hcs
      · omega
      · intro j hj
        by_contra hlt
        have hzero : j = 0 := by omega
        rw [hzero, Nat.zero_mul] at hj
        omega
    rw [hone] at hroom hused
    omega
  · intro hne
    -- more clusters in front leave room enough
    by_cases h2 : 2 ≤ p.heapIndex
    · omega
    · have hone : p.heapIndex = 1 := by omega
      rw [hone, Nat.one_mul] at hheap ⊢
      -- all sizes are multiples of four, so there are four bytes left when there is one
      have hdvd : 4 ∣ p.sectorSize := Dvd.dvd.trans (by decide : 4 ∣ 2 ^ 9)
        (Nat.pow_dvd_pow 2 h.sector)
      have hdvd' : 4 ∣ p.clusterSize := Dvd.dvd.mul_right hdvd _
      omega

/-- Whether a new volume is sound. -/
theorem Feasible.soundLayout_iff (h : Feasible p) (b : Store) :
    SoundLayout (image p b) p.volumeSize ↔
      p.sectorBits + p.spcBits ≤ 25 ∧ p.clusterSize ≠ 128 * p.sectorSize + 4 * p.fit := by
  have hg := h.geometry
  have hused := h.used_le
  have hfit : p.fit * p.clusterSize ≤ p.volumeSize := Nat.div_mul_le_self _ _
  have hcount : p.initSb.fatSectorCount * p.initSb.sectorSize =
      p.heapIndex * p.clusterSize - 128 * p.sectorSize := by
    have hend := hg.fatEnd
    rw [hg.fatStart] at hend
    have hsec : p.initSb.fatSectorCount = p.heapIndex * 2 ^ p.spcBits - 128 := by omega
    unfold SuperBlock.sectorSize
    rw [hsec, hg.sectorBits, Nat.sub_mul, Nat.mul_assoc, Nat.mul_comm (2 ^ p.spcBits)]
    rfl
  -- `mount.c` refuses a cluster above 32 MB, and the FAT must hold two entries more than clusters.
  constructor
  · intro hs
    have hformat := hs.format
    have hroom := hs.fatRoom
    rw [h.sbAt_image, SuperBlock.formatError_eq_none, hg.sectorBits, hg.spcBits] at hformat
    rw [h.sbAt_image, hcount, hg.count] at hroom
    exact ⟨hformat.2.2, h.fatRoom_iff.mp hroom⟩
  -- All other demands hold of every new volume.
  · rintro ⟨hbits, hne⟩
    constructor
    · rw [h.sbAt_image, SuperBlock.formatError_eq_none, hg.sectorBits, hg.spcBits]
      exact ⟨oemName_initSb p, h.sector, hbits⟩
    · rw [h.sbAt_image, SuperBlock.volumeError_eq_none, hg.count, h.clusterSize_eq]
      refine ⟨⟨hg.versionMajor, hg.versionMinor⟩, hg.fatCount, Nat.le_trans ?_ hfit⟩
      exact Nat.mul_le_mul_right _ (Nat.sub_le _ _)
    · rw [h.sbAt_image, hcount, hg.count]
      exact h.fatRoom_iff.mpr hne
    · rw [h.sbAt_image, hg.fatEnd, hg.heap]
    · intro c hc
      rw [h.sbAt_image] at hc ⊢
      rw [h.valid_iff] at hc
      rw [h.clusterOffset_eq, h.clusterSize_eq]
      calc (p.heapIndex + (c - 2)) * p.clusterSize + p.clusterSize
          = (p.heapIndex + (c - 2) + 1) * p.clusterSize := by ring
        _ ≤ p.fit * p.clusterSize := Nat.mul_le_mul_right _ (by omega)
        _ ≤ p.volumeSize := hfit
    · exact ⟨_, _, _, h.soundObjects b⟩

end Feasible

/-! ### The host front end -/

/-- A cluster size that is found makes few enough clusters. -/
theorem searchSpcBits_some {size fuel i bits : Nat} (h : searchSpcBits size fuel i = some bits) :
    i ≤ bits ∧ bits < i + fuel ∧ divRoundUp size (2 ^ bits) ≤ lastDataCluster := by
  induction fuel generalizing i with
  | zero => cases h
  | succ fuel ih =>
    unfold searchSpcBits at h
    split at h
    next hle =>
      cases h
      exact ⟨Nat.le_refl _, by omega, hle⟩
    next =>
      obtain ⟨h1, h2, h3⟩ := ih h
      exact ⟨by omega, by omega, h3⟩

/-- The cluster sizes `setup_spc_bits` gives. -/
theorem setupSpcBits_some {spcBits : Option Nat} {size bits : Nat}
    (h : setupSpcBits 9 spcBits size = some bits) :
    9 + bits ≤ 30 ∧ size / (2 ^ 9 * 2 ^ bits) ≤ lastDataCluster := by
  unfold setupSpcBits at h
  -- `-s` is taken as it is given, if it leaves few enough clusters
  cases spcBits with
  | some given =>
    simp only at h
    split at h
    · cases h
    · split at h
      · cases h
      · cases h
        exact ⟨by omega, by omega⟩
  -- otherwise the size is searched for
  | none =>
    simp only [autoSpcBits] at h
    split at h
    next hlt =>
      cases h
      refine ⟨by decide, ?_⟩
      unfold lastDataCluster
      omega
    next =>
      split at h
      next hlt =>
        cases h
        refine ⟨by decide, ?_⟩
        unfold lastDataCluster
        omega
      next =>
        obtain ⟨i, hi, rfl⟩ := Option.map_eq_some_iff.mp h
        obtain ⟨h1, h2, h3⟩ := searchSpcBits_some hi
        refine ⟨by omega, ?_⟩
        rw [← pow_add, show 9 + (i - 9) = i by omega]
        have hpos : 0 < 2 ^ i := Nat.two_pow_pos _
        rw [divRoundUp_le_iff hpos] at h3
        exact Nat.div_le_of_le_mul (by rw [Nat.mul_comm]; exact h3)

/-- The parameters the host front end hands to `mkfs`. -/
theorem hostParam_eq {size serial firstSector : Nat} {spcBits : Option Nat}
    {label : Option (List UInt8)} {upcaseTable : List UInt8} {p : Param}
    (h : hostParam size spcBits label serial firstSector upcaseTable = some p) :
    setupSpcBits 9 spcBits size = some p.spcBits ∧ p.sectorBits = 9 ∧ p.volumeSize = size ∧
      p.upcaseTable = upcaseTable := by
  unfold hostParam at h
  obtain ⟨bits, hbits, h⟩ := Option.bind_eq_some_iff.mp h
  obtain ⟨units, -, h⟩ := Option.bind_eq_some_iff.mp h
  split at h
  · cases h
  · cases h
    exact ⟨hbits, rfl, rfl, rfl⟩

/-- Parameters that pass the checks are feasible. -/
theorem feasible_of_hostParam {size serial firstSector : Nat} {spcBits : Option Nat}
    {label : Option (List UInt8)} {upcaseTable : List UInt8} {p : Param}
    (h : hostParam size spcBits label serial firstSector upcaseTable = some p)
    (htable : upcaseTable.length = upcaseTableSize) (hcheck : p.checkSize = true) : Feasible p := by
  obtain ⟨hbits, hsector, hsize, htab⟩ := hostParam_eq h
  obtain ⟨h30, hlim⟩ := setupSpcBits_some hbits
  refine ⟨by omega, by omega, ?_, by rw [htab, htable], hcheck⟩
  unfold Param.clusterSize Param.sectorSize
  rw [hsector, hsize]
  exact hlim

/-- The volume a successful run of the host mkfs leaves. -/
theorem hostMkfs_ok {spcBits : Option Nat} {label : Option (List UInt8)} {serial firstSector : Nat}
    {upcaseTable : List UInt8} {s s' : MkState Flat} (htable : upcaseTable.length = upcaseTableSize)
    (h : hostMkfs spcBits label serial firstSector upcaseTable s = .ok ⟨⟩ s') :
    ∃ p, hostParam s.dev.size spcBits label serial firstSector upcaseTable = some p ∧ Feasible p ∧
      s'.dev = { s.dev with bytes := image p s.dev.bytes } := by
  unfold hostMkfs at h
  rw [run_bind_ok (run_get s)] at h
  cases hp : hostParam s.dev.size spcBits label serial firstSector upcaseTable with
  | none =>
    have hp' : hostParam (Device.getSize s.dev) spcBits label serial firstSector upcaseTable =
      none := hp
    rw [hp'] at h
    cases h
  | some p =>
    have hp' : hostParam (Device.getSize s.dev) spcBits label serial firstSector upcaseTable =
      some p := hp
    rw [hp'] at h
    rcases mkfs_run p s with ⟨s₁, hrun, hcheck, hdev⟩ | ⟨-, s₁, hrun⟩
    · have heq : s₁ = s' := by
        have h' := hrun.symm.trans h
        injection h'
      subst heq
      exact ⟨p, rfl, feasible_of_hostParam hp htable hcheck, hdev⟩
    · have h' := hrun.symm.trans h
      cases h'

/-- The host mkfs produces a sound layout if and only if the clusters are not larger than 32 MB and
their size is not 64 KB and a FAT entry for each cluster that fits in the volume. -/
theorem hostMkfs_sound_iff {spcBits : Option Nat} {label : Option (List UInt8)}
    {serial firstSector : Nat} {upcaseTable : List UInt8} {s s' : MkState Flat}
    (htable : upcaseTable.length = upcaseTableSize)
    (h : hostMkfs spcBits label serial firstSector upcaseTable s = .ok ⟨⟩ s') :
    SoundLayout s'.dev.bytes s'.dev.size ↔
      ∀ bits, setupSpcBits 9 spcBits s.dev.size = some bits →
        bits ≤ 16 ∧ 2 ^ (9 + bits) ≠ 65536 + 4 * (s.dev.size / 2 ^ (9 + bits)) := by
  obtain ⟨p, hp, hf, hdev⟩ := hostMkfs_ok htable h
  obtain ⟨hbits, hsector, hsize, -⟩ := hostParam_eq hp
  have hcs : p.clusterSize = 2 ^ (9 + p.spcBits) := by
    unfold Param.clusterSize Param.sectorSize
    rw [hsector, pow_add]
  have hss : 128 * p.sectorSize = 65536 := by
    unfold Param.sectorSize
    rw [hsector]
    rfl
  have hiff := hf.soundLayout_iff s.dev.bytes
  rw [hsize, hss, hsector] at hiff
  unfold Param.fit at hiff
  rw [hsize, hcs] at hiff
  rw [hdev, hiff, hbits]
  constructor
  · rintro ⟨h1, h2⟩ bits hb
    cases hb
    exact ⟨by omega, h2⟩
  · intro hall
    obtain ⟨h1, h2⟩ := hall p.spcBits rfl
    exact ⟨by omega, h2⟩

/-- A device of `size` bytes of zeros. -/
def blankDevice (size : Nat) : MkState Flat where
  dev := ⟨fun _ => 0, size⟩

/-- A blank device can be formatted. -/
theorem hostMkfs_blank {spcBits : Option Nat} {size : Nat} {p : Param}
    (hp : hostParam size spcBits none 1 0 (List.replicate upcaseTableSize 0) = some p)
    (hcheck : p.checkSize = true) :
    ∃ s', hostMkfs spcBits none 1 0 (List.replicate upcaseTableSize 0) (blankDevice size) =
      .ok ⟨⟩ s' ∧ s'.dev = ⟨image p fun _ => 0, size⟩ := by
  rcases mkfs_run p (blankDevice size) with ⟨s', hrun, -, hdev⟩ | ⟨hbad, -⟩
  · refine ⟨s', ?_, hdev⟩
    unfold hostMkfs
    rw [run_bind_ok (run_get _)]
    have hp' : hostParam (Device.getSize (blankDevice size).dev) spcBits none 1 0
      (List.replicate upcaseTableSize 0) = some p := hp
    rw [hp']
    exact hrun
  · exfalso
    rcases hbad with h | ⟨t, ht⟩
    · rw [hcheck] at h
      cases h
    · cases ht

/-- The parameters of an unlabelled volume. -/
def plainParam (size bits : Nat) : Param where
  sectorBits := 9
  spcBits := bits
  volumeSize := size
  volumeLabel := labelArray []
  volumeSerial := 1
  firstSector := 0
  upcaseTable := List.replicate upcaseTableSize 0

/-- A volume of a megabyte with clusters of 4 KB is sound. -/
theorem hostMkfs_sound_megabyte :
    ∃ s', hostMkfs (some 3) none 1 0 (List.replicate upcaseTableSize 0) (blankDevice (2 ^ 20)) =
      .ok ⟨⟩ s' ∧ SoundLayout s'.dev.bytes s'.dev.size := by
  have hp : hostParam (2 ^ 20) (some 3) none 1 0 (List.replicate upcaseTableSize 0) =
      some (plainParam (2 ^ 20) 3) := rfl
  obtain ⟨s', hrun, -⟩ := hostMkfs_blank hp (by decide +kernel)
  refine ⟨s', hrun, (hostMkfs_sound_iff (List.length_replicate ..) hrun).mpr ?_⟩
  intro bits hb
  have hthree : bits = 3 := by
    have h3 : setupSpcBits 9 (some 3) (2 ^ 20) = some 3 := rfl
    exact (Option.some.inj (h3.symm.trans hb)).symm
  subst hthree
  exact ⟨by decide, by decide⟩

/-- On a volume of 2 GB with clusters of 128 KB the FAT has no entry for the last cluster. -/
theorem hostMkfs_not_sound :
    ∃ s', hostMkfs (some 8) none 1 0 (List.replicate upcaseTableSize 0) (blankDevice (2 ^ 31)) =
      .ok ⟨⟩ s' ∧ ¬ SoundLayout s'.dev.bytes s'.dev.size := by
  have hp : hostParam (2 ^ 31) (some 8) none 1 0 (List.replicate upcaseTableSize 0) =
      some (plainParam (2 ^ 31) 8) := rfl
  have hcheck : (plainParam (2 ^ 31) 8).checkSize = true := by decide +kernel
  obtain ⟨s', hrun, hdev⟩ := hostMkfs_blank hp hcheck
  have hf := feasible_of_hostParam hp (List.length_replicate ..) hcheck
  have hvol : (plainParam (2 ^ 31) 8).volumeSize = 2 ^ 31 := rfl
  have hiff := hf.soundLayout_iff fun _ => 0
  rw [hvol] at hiff
  refine ⟨s', hrun, ?_⟩
  rw [hdev, hiff]
  rintro ⟨-, hne⟩
  exact hne (by decide +kernel)

end ExFat.Mkfs
