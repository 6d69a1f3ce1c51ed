import ExFat.Mkfs.Mkfs
import ExFat.Alloc.Layout

namespace ExFat.Mkfs

open ExFat Bytes

/-!
# Where mkfs puts things

The positions and counts of `mkexfat.c` and `vbr.c` are computed from the volume size by different
roundings: in bytes, in sectors and in clusters.  Here they are all expressed by two numbers, the
clusters `n` that fit in the volume and the clusters `heapIndex` before the heap, and shown to
agree.
-/

/-- What the front ends and `check_size` make sure of. -/
structure Feasible (p : Param) : Prop where
  sector : 9 ≤ p.sectorBits
  cluster : p.sectorBits + p.spcBits ≤ 30
  limit : p.volumeSize / p.clusterSize ≤ lastDataCluster
  table : p.upcaseTable.length = upcaseTableSize
  fits : p.checkSize = true

namespace Param

variable (p : Param)

/-- The clusters that fit in the volume. -/
def fit : Nat := p.volumeSize / p.clusterSize

/-- The clusters before the cluster heap. -/
def heapIndex : Nat := divRoundUp (128 * p.sectorSize + p.fit * 4) p.clusterSize

/-- A sector has bytes. -/
theorem sectorSize_pos : 0 < p.sectorSize := Nat.two_pow_pos _

/-- A cluster has bytes. -/
theorem clusterSize_pos : 0 < p.clusterSize := Nat.mul_pos (Nat.two_pow_pos _) (Nat.two_pow_pos _)

/-! ### Positions -/

/-- The FAT begins at the 128th sector. -/
theorem fatPosition :
    roundUp (roundUp (roundUp 0 p.sectorSize + 12 * p.sectorSize) p.sectorSize + 12 * p.sectorSize)
      (128 * p.sectorSize) = 128 * p.sectorSize := by
  have hss := p.sectorSize_pos
  have h0 : roundUp 0 p.sectorSize = 0 := roundUp_of_dvd hss (Nat.dvd_zero _)
  have h1 : roundUp (0 + 12 * p.sectorSize) p.sectorSize = 12 * p.sectorSize := by
    rw [Nat.zero_add]
    exact roundUp_of_dvd hss (Nat.dvd_mul_left _ _)
  rw [h0, h1]
  have h2 : divRoundUp (12 * p.sectorSize + 12 * p.sectorSize) (128 * p.sectorSize) = 1 := by
    apply divRoundUp_eq (by omega) (by omega)
    intro j hj
    by_contra hlt
    have : j = 0 := by omega
    subst this
    omega
  unfold roundUp
  rw [h2, Nat.one_mul]

/-- The bitmap begins at the start of the heap. -/
theorem cbmPosition_eq : p.cbmPosition = p.heapIndex * p.clusterSize := by
  show roundUp (roundUp (roundUp (roundUp 0 p.sectorSize + 12 * p.sectorSize) p.sectorSize +
    12 * p.sectorSize) (128 * p.sectorSize) + p.fit * 4) p.clusterSize = _
  rw [fatPosition]
  rfl

/-- The bitmap begins at the start of the heap. -/
theorem position_cbm : p.position .cbm = p.heapIndex * p.clusterSize := by
  rw [← cbmPosition_eq]
  rfl

/-- The bitmap has one bit for each cluster. -/
theorem size_cbm : p.size .cbm = divRoundUp (p.fit - p.heapIndex) 8 := by
  show divRoundUp ((p.volumeSize - p.cbmPosition) / p.clusterSize) 8 = _
  rw [cbmPosition_eq, Nat.mul_comm, Nat.sub_mul_div]
  rfl

/-- The upcase table begins behind the bitmap. -/
theorem position_uct :
    p.position .uct = (p.heapIndex + p.clusters .cbm) * p.clusterSize := by
  show roundUp (p.position .cbm + p.size .cbm) p.clusterSize = _
  rw [position_cbm, roundUp_mul_add p.clusterSize_pos]
  rfl

/-- The root directory begins behind the upcase table. -/
theorem position_rootdir :
    p.position .rootdir = (p.heapIndex + p.clusters .cbm + p.clusters .uct) * p.clusterSize := by
  show roundUp (p.position .uct + p.size .uct) p.clusterSize = _
  rw [position_uct, roundUp_mul_add p.clusterSize_pos]
  rfl

/-- The root directory has one cluster. -/
theorem clusters_rootdir : p.clusters .rootdir = 1 := by
  have hcs := p.clusterSize_pos
  show divRoundUp p.clusterSize p.clusterSize = 1
  have h := divRoundUp_mul_add hcs 1 0
  have h0 : divRoundUp 0 p.clusterSize = 0 :=
    Nat.le_zero.mp ((divRoundUp_le_iff hcs).mpr (by omega))
  rwa [Nat.one_mul, Nat.add_zero, h0, Nat.add_zero] at h

/-- The upcase table has clusters. -/
theorem clusters_uct_pos : 0 < p.clusters .uct :=
  divRoundUp_pos p.clusterSize_pos (by show 0 < upcaseTableSize; decide)

/-- All the clusters that are allocated. -/
def used : Nat := p.clusters .cbm + p.clusters .uct + 1

/-- The objects end behind the clusters that are used. -/
theorem endPosition_eq : p.endPosition = (p.heapIndex + p.used) * p.clusterSize := by
  have h : p.endPosition = p.position .rootdir + p.clusterSize := rfl
  rw [h, position_rootdir, used]
  ring

end Param

/-! ### The superblock -/

section Feasible

variable {p : Param}

/-- A cluster has at most 2^30 bytes. -/
theorem Feasible.clusterSize_le (h : Feasible p) : p.clusterSize ≤ 2 ^ 30 := by
  have hc := h.cluster
  unfold Param.clusterSize Param.sectorSize
  rw [← pow_add]
  exact Nat.pow_le_pow_right (by omega) hc

/-- A sector is not larger than a cluster. -/
theorem sectorSize_le (p : Param) : p.sectorSize ≤ p.clusterSize :=
  Nat.le_mul_of_pos_right _ (Nat.two_pow_pos _)

/-- A sector has at least 512 bytes. -/
theorem Feasible.le_sectorSize (h : Feasible p) : 512 ≤ p.sectorSize :=
  Nat.pow_le_pow_right (n := 2) (by omega) h.sector

/-- The number of clusters fits into 32 bits. -/
theorem Feasible.fit_lt (h : Feasible p) : p.fit + 9 < 2 ^ 32 := by
  have := h.limit
  unfold lastDataCluster at this
  unfold Param.fit
  omega

/-- `check_size` leaves room for the objects of the heap. -/
theorem Feasible.used_le (h : Feasible p) : p.heapIndex + p.used ≤ p.fit := by
  have hf := h.fits
  unfold Param.checkSize at hf
  rw [decide_eq_true_eq, Param.endPosition_eq] at hf
  exact (Nat.le_div_iff_mul_le p.clusterSize_pos).mpr hf

/-- The heap does not begin at the start of the volume. -/
theorem heapIndex_pos (p : Param) : 0 < p.heapIndex := by
  have := p.sectorSize_pos
  exact divRoundUp_pos p.clusterSize_pos (by omega)

/-- `clusters_max` does not wrap. -/
theorem Feasible.clustersMax_eq (h : Feasible p) : p.clustersMax = p.fit :=
  Nat.mod_eq_of_lt (by have := h.fit_lt; unfold Param.fit at this; omega)

/-- The FAT begins at the 128th sector. -/
theorem fatSectorStart_eq : p.fatSectorStart = 128 := by
  show u32 (128 * p.sectorSize / p.sectorSize) = 128
  rw [Nat.mul_div_cancel _ p.sectorSize_pos]
  rfl

/-- `fat_sectors` does not wrap. -/
theorem Feasible.fatSectors_eq (h : Feasible p) :
    p.fatSectors = divRoundUp (p.fit * 4) p.sectorSize ∧ p.fatSectors ≤ 2 ^ 26 := by
  have hle : divRoundUp (p.fit * 4) p.sectorSize ≤ 2 ^ 26 := by
    rw [divRoundUp_le_iff p.sectorSize_pos]
    have h1 := h.fit_lt
    have h2 := h.le_sectorSize
    calc p.fit * 4 ≤ 2 ^ 26 * 512 := by omega
      _ ≤ 2 ^ 26 * p.sectorSize := Nat.mul_le_mul_left _ h2
  have heq : p.fatSectors = divRoundUp (p.fit * 4) p.sectorSize := by
    unfold Param.fatSectors
    rw [h.clustersMax_eq]
    exact Nat.mod_eq_of_lt (by omega)
  exact ⟨heq, by rw [heq]; exact hle⟩

/-- The FAT ends, in sectors, where the heap starts. -/
theorem Feasible.fatEnd (h : Feasible p) :
    128 + p.fatSectorCount = p.heapIndex * 2 ^ p.spcBits ∧
    p.heapIndex * 2 ^ p.spcBits < 2 ^ 31 := by
  obtain ⟨hfs, hle⟩ := h.fatSectors_eq
  have hpow : 0 < 2 ^ p.spcBits := Nat.two_pow_pos _
  have hspc : 2 ^ p.spcBits ≤ 2 ^ 21 := Nat.pow_le_pow_right (by omega) (by
    have h1 := h.sector
    have h2 := h.cluster
    omega)
  have hu : u32 (128 + p.fatSectors) = 128 + p.fatSectors := Nat.mod_eq_of_lt (by omega)
  have hround : roundUp (128 + p.fatSectors) (2 ^ p.spcBits) = p.heapIndex * 2 ^ p.spcBits := by
    unfold roundUp Param.heapIndex Param.clusterSize
    rw [hfs, ← divRoundUp_divRoundUp p.sectorSize_pos hpow, divRoundUp_mul_add p.sectorSize_pos]
  have hlt : roundUp (128 + p.fatSectors) (2 ^ p.spcBits) < 128 + p.fatSectors + 2 ^ p.spcBits :=
    divRoundUp_mul_lt hpow
  have hge := le_roundUp (128 + p.fatSectors) hpow
  rw [hround] at hlt hge
  have hcount : p.fatSectorCount = p.heapIndex * 2 ^ p.spcBits - 128 := by
    unfold Param.fatSectorCount sub32
    rw [fatSectorStart_eq, hu, hround]
    omega
  omega

/-- The clusters behind the start of the heap are counted. -/
theorem Feasible.clusterCount_eq (h : Feasible p) : p.clusterCount = p.fit - p.heapIndex := by
  obtain ⟨hend, hlt⟩ := h.fatEnd
  have hused := h.used_le
  have hfit := h.fit_lt
  unfold Param.clusterCount
  rw [fatSectorStart_eq, hend, h.clustersMax_eq]
  have hu : u32 (p.heapIndex * 2 ^ p.spcBits) = p.heapIndex * 2 ^ p.spcBits :=
    Nat.mod_eq_of_lt (by omega)
  rw [hu, Nat.mul_div_cancel _ (Nat.two_pow_pos _)]
  unfold sub32
  omega

/-- The cluster of the root directory comes behind those of the upcase table. -/
theorem Feasible.rootdirCluster_eq (h : Feasible p) :
    p.rootdirCluster = p.clusters .cbm + p.clusters .uct + 2 := by
  have hcs := p.clusterSize_pos
  have hused := h.used_le
  have hfit := h.fit_lt
  unfold Param.rootdirCluster firstDataCluster
  rw [Param.position_cbm, Param.position_rootdir, ← Nat.sub_mul, Nat.mul_div_cancel _ hcs]
  unfold Param.used at hused
  have hsub : p.heapIndex + p.clusters .cbm + p.clusters .uct - p.heapIndex =
      p.clusters .cbm + p.clusters .uct := by omega
  rw [hsub]
  exact Nat.mod_eq_of_lt (by omega)

/-- The bitmap has at least a byte, and at least a cluster. -/
theorem Feasible.clusters_cbm_pos (h : Feasible p) : 0 < p.clusters .cbm := by
  have hused := h.used_le
  apply divRoundUp_pos p.clusterSize_pos
  rw [Param.size_cbm]
  apply divRoundUp_pos (by decide)
  unfold Param.used at hused
  omega

/-- The fields of the superblock do not overlap. -/
theorem sbFields_fit (p : Param) : SuperBlock.FieldsFit (p.sbFields.map fun f => (f.1, f.2.1)) := by
  have hplaces : p.sbFields.map (fun f => (f.1, f.2.1)) =
      [(0x00, 3), (0x03, 8), (0x40, 8), (0x48, 8), (0x50, 4), (0x54, 4), (0x58, 4), (0x5c, 4),
        (0x60, 4), (0x64, 4), (0x68, 1), (0x69, 1), (0x6a, 2), (0x6c, 1), (0x6d, 1), (0x6e, 1),
        (0x6f, 1), (0x70, 1), (0x1fe, 2)] := rfl
  rw [hplaces]
  decide

/-- The superblock has 512 bytes. -/
theorem length_initSb (p : Param) : p.initSb.bytes.length = 512 := by
  apply SuperBlock.length_setFields (List.length_replicate ..)
  intro f hf
  exact (sbFields_fit p).1 (f.1, f.2.1) (List.mem_map_of_mem hf)

/-- A field that `init_sb` sets is read back. -/
theorem leAt_initSb {p : Param} {off k v : Nat} (hf : (off, k, v) ∈ p.sbFields) (hv : v < 256 ^ k) :
    leAt p.initSb.bytes off k = v :=
  (SuperBlock.leAt_setFields (List.length_replicate ..) (sbFields_fit p) hf).trans
    (Nat.mod_eq_of_lt hv)

/-- The geometry in the superblock. -/
structure SbGeometry (p : Param) (sb : SuperBlock) : Prop where
  sectorBits : sb.sectorBits = p.sectorBits
  spcBits : sb.spcBits = p.spcBits
  fatStart : sb.fatSectorStart = 128
  fatEnd : sb.fatSectorStart + sb.fatSectorCount = p.heapIndex * 2 ^ p.spcBits
  heap : sb.clusterSectorStart = p.heapIndex * 2 ^ p.spcBits
  count : sb.clusterCount = p.fit - p.heapIndex
  root : sb.rootdirCluster = p.clusters .cbm + p.clusters .uct + 2
  versionMajor : sb.versionMajor = 1
  versionMinor : sb.versionMinor = 0
  fatCount : sb.fatCount = 1

/-- The superblock that is written has the geometry of the parameters. -/
theorem Feasible.geometry (h : Feasible p) : SbGeometry p p.initSb := by
  obtain ⟨hend, hlt⟩ := h.fatEnd
  have hfit := h.fit_lt
  have hused := h.used_le
  have hcluster := h.cluster
  unfold Param.used at hused
  have hheap : p.position .cbm / p.sectorSize = p.heapIndex * 2 ^ p.spcBits := by
    rw [Param.position_cbm, Param.clusterSize, Nat.mul_left_comm,
      Nat.mul_div_cancel_left _ p.sectorSize_pos]
  have hcount : p.initSb.fatSectorCount = p.fatSectorCount :=
    leAt_initSb (by simp [Param.sbFields]) (by omega)
  have hstart : p.initSb.fatSectorStart = 128 := by
    have : p.initSb.fatSectorStart = p.fatSectorStart :=
      leAt_initSb (by simp [Param.sbFields]) (by rw [fatSectorStart_eq]; decide)
    rw [this, fatSectorStart_eq]
  refine ⟨?_, ?_, hstart, by rw [hstart, hcount, hend], ?_, ?_, ?_, ?_, ?_, ?_⟩
  · exact leAt_initSb (by simp [Param.sbFields]) (by omega)
  · exact leAt_initSb (by simp [Param.sbFields]) (by omega)
  · rw [← hheap]
    exact leAt_initSb (by simp [Param.sbFields]) (by rw [hheap]; omega)
  · rw [← h.clusterCount_eq]
    exact leAt_initSb (by simp [Param.sbFields]) (by rw [h.clusterCount_eq]; omega)
  · rw [← h.rootdirCluster_eq]
    exact leAt_initSb (by simp [Param.sbFields]) (by rw [h.rootdirCluster_eq]; omega)
  · exact leAt_initSb (by simp [Param.sbFields]) (by decide)
  · exact leAt_initSb (by simp [Param.sbFields]) (by decide)
  · exact leAt_initSb (by simp [Param.sbFields]) (by decide)

end Feasible

end ExFat.Mkfs
