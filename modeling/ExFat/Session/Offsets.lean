import ExFat.Alloc.Layout
import ExFat.Session.Percent

namespace ExFat

open Program Bytes

/-!
# The offsets of clusters

`exfat_c2o` computes in `exfat_off_t`, which has 64 bits and a sign.  The offset of a FAT entry is
the sum of such a number and of `cluster * sizeof(cluster_t)`, a product of a 32-bit number and a
`size_t`, whose width depends on the platform.
-/

/-! ### The offsets as they are computed -/

/-- A number in an `exfat_off_t`, which holds those below `2 ^ 63`. -/
def offT (v : Nat) : Option Nat := if v < 2 ^ 63 then some v else none

/-- An offset below 2^63 can be stored. -/
theorem offT_of_lt {v : Nat} (h : v < 2 ^ 63) : offT v = some v := if_pos h

/-- `s2o`. -/
def s2oChecked (sb : SuperBlock) (sector : Nat) : Option Nat := offT (sector * 2 ^ sb.sectorBits)

/-- `c2s`; a number that is not one of a cluster ends in `exfat_bug`. -/
def c2sChecked (sb : SuperBlock) (cluster : Nat) : Option Nat :=
  if cluster < firstDataCluster then none
  else (offT ((cluster - firstDataCluster) * 2 ^ sb.spcBits)).bind fun sectors =>
    offT (sb.clusterSectorStart + sectors)

/-- `exfat_c2o`. -/
def exfatC2oChecked (sb : SuperBlock) (cluster : Nat) : Option Nat :=
  (c2sChecked sb cluster).bind (s2oChecked sb)

/-- `fat_offset` in `exfat_next_cluster` and `set_next_cluster`, with a `size_t` of `w` bits. -/
def fatOffsetChecked (w : Nat) (sb : SuperBlock) (cluster : Nat) : Option Nat :=
  (s2oChecked sb sb.fatSectorStart).bind fun start => offT (start + cluster * 4 % 2 ^ w)

/-- A cluster number of 32 bits that is not `CLUSTER_INVALID`. -/
def SuperBlock.ValidCluster (sb : SuperBlock) (c : Nat) : Prop := c < 2 ^ 32 ∧ Valid sb c

/-- Two places of `n` bytes that have nothing in common. -/
def PlacesApart (n : Nat) (x y : Option Nat) : Prop :=
  ∃ a b, x = some a ∧ y = some b ∧ (a + n ≤ b ∨ b + n ≤ a)

/-- The offsets are the exact ones, and no two clusters share a place on the medium or in the FAT.
-/
structure SuperBlock.OffsetsRight (sb : SuperBlock) (w : Nat) : Prop where
  medium : ∀ c, sb.ValidCluster c → exfatC2oChecked sb c =
    some ((sb.clusterSectorStart + (c - 2) * 2 ^ sb.spcBits) * 2 ^ sb.sectorBits)
  fat : ∀ c, sb.ValidCluster c → fatOffsetChecked w sb c =
    some (sb.fatSectorStart * 2 ^ sb.sectorBits + 4 * c)
  mediumApart : ∀ c c', sb.ValidCluster c → sb.ValidCluster c' → c ≠ c' →
    PlacesApart sb.clusterSize (exfatC2oChecked sb c) (exfatC2oChecked sb c')
  fatApart : ∀ c c', sb.ValidCluster c → sb.ValidCluster c' → c ≠ c' →
    PlacesApart 4 (fatOffsetChecked w sb c) (fatOffsetChecked w sb c')

/-! ### The bounds that the tests of `exfat_mount` give -/

/-- A cluster of an accepted superblock has at most 2^25 bytes. -/
theorem SuperBlock.bits_le {sb : SuperBlock} (h : sb.formatError = none) :
    sb.sectorBits + sb.spcBits ≤ 25 := (formatError_eq_none sb |>.1 h).2.2

variable {sb : SuperBlock} {c : Nat}

/-- The sectors of a field of 32 bits lie below `2 ^ 57`. -/
theorem s2o_lt (hbits : sb.sectorBits + sb.spcBits ≤ 25) {sector : Nat} (h : sector < 2 ^ 32) :
    s2o sb sector < 2 ^ 57 := by
  have hpow : 2 ^ sb.sectorBits ≤ 2 ^ 25 := Nat.pow_le_pow_right (by decide) (by omega)
  calc sector * 2 ^ sb.sectorBits
      < 2 ^ 32 * 2 ^ sb.sectorBits := Nat.mul_lt_mul_of_pos_right h (Nat.two_pow_pos _)
    _ ≤ 2 ^ 32 * 2 ^ 25 := Nat.mul_le_mul_left _ hpow

/-- A cluster has at most 2^25 bytes. -/
theorem clusterSize_le (hbits : sb.sectorBits + sb.spcBits ≤ 25) : sb.clusterSize ≤ 2 ^ 25 := by
  unfold SuperBlock.clusterSize SuperBlock.sectorSize
  rw [← pow_add]
  exact Nat.pow_le_pow_right (by decide) hbits

/-- The offset of a cluster is below 2^58. -/
theorem clusterOffset_lt (hbits : sb.sectorBits + sb.spcBits ≤ 25) (hc : c < 2 ^ 32) :
    clusterOffset sb c < 2 ^ 58 := by
  have hstart : clusterOffset sb 2 < 2 ^ 57 := by
    have hsector : clusterSector sb 2 < 2 ^ 32 := by
      unfold clusterSector firstDataCluster
      rw [Nat.sub_self, Nat.zero_mul, Nat.add_zero]
      exact leAt_lt sb.bytes 0x58 4
    exact s2o_lt hbits hsector
  have hheap : (c - 2) * sb.clusterSize ≤ 2 ^ 32 * 2 ^ 25 :=
    Nat.mul_le_mul (by omega) (clusterSize_le hbits)
  rw [clusterOffset_eq]
  omega

/-- Nothing is lost on the way to the offset of a cluster. -/
theorem exfatC2oChecked_eq (hbits : sb.sectorBits + sb.spcBits ≤ 25) (hc : c < 2 ^ 32)
    (hfirst : 2 ≤ c) : exfatC2oChecked sb c = some (clusterOffset sb c) := by
  have hlt := clusterOffset_lt hbits hc
  have hone : clusterSector sb c ≤ clusterOffset sb c :=
    Nat.le_mul_of_pos_right _ (Nat.two_pow_pos _)
  have hsector : c2sChecked sb c = some (clusterSector sb c) := by
    unfold c2sChecked
    rw [if_neg (by unfold firstDataCluster; omega), offT_of_lt, Option.bind_some, offT_of_lt]
    · rfl
    · exact (show clusterSector sb c < 2 ^ 63 by omega)
    · have hle : (c - firstDataCluster) * 2 ^ sb.spcBits ≤ clusterSector sb c := Nat.le_add_left ..
      omega
  unfold exfatC2oChecked
  rw [hsector, Option.bind_some]
  exact offT_of_lt (show clusterOffset sb c < 2 ^ 63 by omega)

/-- In the offset of a FAT entry only the product can be cut off. -/
theorem fatOffsetChecked_eq (hbits : sb.sectorBits + sb.spcBits ≤ 25) (hc : c < 2 ^ 32) (w : Nat) :
    fatOffsetChecked w sb c = some (s2o sb sb.fatSectorStart + c * 4 % 2 ^ w) := by
  have hstart : s2o sb sb.fatSectorStart < 2 ^ 57 := s2o_lt hbits (leAt_lt sb.bytes 0x50 4)
  have hmod : c * 4 % 2 ^ w ≤ c * 4 := Nat.mod_le ..
  have hs2o : s2oChecked sb sb.fatSectorStart = some (s2o sb sb.fatSectorStart) :=
    offT_of_lt (show s2o sb sb.fatSectorStart < 2 ^ 63 by omega)
  unfold fatOffsetChecked
  rw [hs2o, Option.bind_some]
  exact offT_of_lt (by omega)

/-- With 64 bits it is the offset at which the model reads and writes the FAT. -/
theorem fatOffsetChecked_wide (hbits : sb.sectorBits + sb.spcBits ≤ 25) (hc : c < 2 ^ 32) :
    fatOffsetChecked 64 sb c = some (fatOffset sb c) := by
  rw [fatOffsetChecked_eq hbits hc, Nat.mod_eq_of_lt (by omega)]
  rfl

/-- The FAT entry of a cluster is found if its offset in the FAT fits into a `size_t`. -/
theorem fatOffsetChecked_exact_iff (hbits : sb.sectorBits + sb.spcBits ≤ 25) (hc : c < 2 ^ 32)
    {w : Nat} :
    fatOffsetChecked w sb c = some (sb.fatSectorStart * 2 ^ sb.sectorBits + 4 * c) ↔
      c * 4 < 2 ^ w := by
  rw [fatOffsetChecked_eq hbits hc, Option.some.injEq, Nat.mul_comm 4 c]
  unfold s2o
  rw [Nat.add_left_cancel_iff]
  exact ⟨fun h => h ▸ Nat.mod_lt _ (Nat.two_pow_pos w), Nat.mod_eq_of_lt⟩

/-! ### The offsets on a mounted volume -/

/-- The offsets are right if a `size_t` holds the offset in the FAT of every cluster. -/
theorem SuperBlock.offsetsRight {w : Nat} (hbits : sb.sectorBits + sb.spcBits ≤ 25)
    (hfit : ∀ c, sb.ValidCluster c → c * 4 < 2 ^ w) : sb.OffsetsRight w := by
  have hmedium : ∀ c, sb.ValidCluster c → exfatC2oChecked sb c = some (clusterOffset sb c) :=
    fun c hc => exfatC2oChecked_eq hbits hc.1 hc.2.two_le
  have hfat : ∀ c, sb.ValidCluster c →
      fatOffsetChecked w sb c = some (sb.fatSectorStart * 2 ^ sb.sectorBits + 4 * c) :=
    fun c hc => (fatOffsetChecked_exact_iff hbits hc.1).2 (hfit c hc)
  refine ⟨hmedium, hfat, fun c c' hc hc' hne => ?_, fun c c' hc hc' hne => ?_⟩
  · refine ⟨_, _, hmedium c hc, hmedium c' hc', ?_⟩
    rcases Nat.lt_or_gt_of_ne hne with hlt | hlt
    · exact .inl (clusterOffset_apart sb hc.2.two_le hlt)
    · exact .inr (clusterOffset_apart sb hc'.2.two_le hlt)
  · exact ⟨_, _, hfat c hc, hfat c' hc', by omega⟩

/-- With 64 bits the offsets are right, and with 32 bits up to the volumes of `2 ^ 30 - 2` clusters.
-/
theorem SuperBlock.offsetsRight_iff {w : Nat} (hbits : sb.sectorBits + sb.spcBits ≤ 25)
    (hw : w = 32 ∨ w = 64) : sb.OffsetsRight w ↔ w = 64 ∨ sb.clusterCount + 2 ≤ 2 ^ 30 := by
  have hcount := sb.clusterCount_lt
  constructor
  · intro h
    by_contra hnot
    obtain rfl : w = 32 := by omega
    have hvalid : sb.ValidCluster (2 ^ 30) :=
      ⟨by decide, clusterInvalid_eq_false.2 ⟨by decide, by omega⟩⟩
    -- the offset of its entry in the FAT is the first that 32 bits do not hold
    exact absurd ((fatOffsetChecked_exact_iff hbits hvalid.1).1 (h.fat _ hvalid)) (by decide)
  · intro h
    refine offsetsRight hbits fun c hc => ?_
    have hlt := hc.1
    have hin := hc.2.lt
    rcases hw with rfl | rfl <;> omega

variable {δ : Type} [Device δ]

/-- Whatever volume has been mounted, the offsets of its clusters are right with 64 bits, and with
32 bits exactly if it has no more than `2 ^ 30 - 2` clusters. -/
theorem exfatMount_offsetsRight_iff {t t' : Volume δ} (hfresh : t.ef.cmap.present = false)
    (hmount : exfatMount t = .ok (.ok ()) t') {w : Nat} (hw : w = 32 ∨ w = 64) :
    t'.ef.sb.OffsetsRight w ↔ w = 64 ∨ t'.ef.sb.clusterCount + 2 ≤ 2 ^ 30 := by
  obtain ⟨-, hformat⟩ := wp_anyStop_iff.1 (exfatMount_well hfresh) _ _ hmount rfl
  exact SuperBlock.offsetsRight_iff (SuperBlock.bits_le hformat) hw

/-! ### A volume with too many clusters -/

/-- The boot sector of a volume of `2 ^ 30 + 8` clusters of a sector each. -/
def vastBoot : SuperBlock :=
  SuperBlock.setFields ⟨List.replicate 512 0⟩ [(0x03, 8, 0x2020205441465845), (0x48, 8, 1082130465),
    (0x50, 4, 24), (0x54, 4, 8388609), (0x58, 4, 8388633), (0x5c, 4, 2 ^ 30 + 8), (0x60, 4, 262148),
    (0x69, 1, 1), (0x6c, 1, 9), (0x6e, 1, 1), (0x70, 1, 0xff)]

/-- The FAT: the bitmap is in clusters 2 to 262146, the upcase table and the root directory are in
the two clusters behind it. -/
def vastFat (c : Nat) : Nat :=
  if c = 0 then 0xfffffff8
  else if c = 1 ∨ 262146 ≤ c ∧ c ≤ 262148 then 0xffffffff
  else if c < 262146 then c + 1
  else 0

/-- The bitmap, with a bit for each of these clusters. -/
def vastBitmap (k : Nat) : UInt8 := if k < 32768 then 0xff else if k = 32768 then 7 else 0

/-- The entries of the root directory. -/
def vastRoot : List UInt8 :=
  patch (patch (patch (patch (patch (patch (List.replicate 64 0) 0 [0x81]) 20 (natLe 4 2)) 24
    (natLe 8 (2 ^ 27 + 1))) 32 [0x82]) 52 (natLe 4 262147)) 56 [2]

/-- The medium. -/
def vastStore : Store := fun a =>
  if a < 512 then vastBoot.bytes.getD a 0
  else if 12288 ≤ a ∧ a < 12288 + 4 * (2 ^ 30 + 10) then
    (natLe 4 (vastFat ((a - 12288) / 4))).getD ((a - 12288) % 4) 0
  else if 4294980096 ≤ a ∧ a < 4429198336 then vastBitmap (a - 4294980096)
  else if 4429198848 ≤ a ∧ a < 4429198912 then vastRoot.getD (a - 4429198848) 0
  else 0

/-- A volume that is about to be mounted from it. -/
def vastStart : Volume Flat where
  ef := { dev := ⟨withChecksum vastStore, 2 ^ 40⟩, sb := ⟨[]⟩ }
  heap _ := none
  root := 0
  fresh := 0

/-- A volume of more than 2^30 clusters is mounted. -/
theorem mounts_vastStart : ∃ t, exfatMount vastStart = .ok (.ok ()) t ∧
    t.ef.sb.clusterCount = 2 ^ 30 + 8 := by
  have htest : returns (fun rc t => rc = .ok () ∧ t.ef.sb.clusterCount = 2 ^ 30 + 8)
      (mountRoot { vastStart with ef := { vastStart.ef with
        sb := bootSector (withChecksum vastStore), ticks := 3 } }) = true := by
    decide +kernel
  obtain ⟨rc, t, hroot, htest⟩ := of_returns htest
  obtain ⟨rfl, hcount⟩ := of_decide_eq_true htest
  exact ⟨t, (run_exfatMount (fun _ => rfl)
    (bootable_withChecksum (by decide +kernel) (by decide +kernel)
    (by decide +kernel))).trans hroot, hcount⟩

/-- With 64 bits the offsets of its clusters are right, with 32 bits they are not. -/
theorem exfatMount_offsetsRight_vast : ∃ t, exfatMount vastStart = .ok (.ok ()) t ∧
    t.ef.sb.OffsetsRight 64 ∧ ¬ t.ef.sb.OffsetsRight 32 := by
  obtain ⟨t, hmount, hcount⟩ := mounts_vastStart
  refine ⟨t, hmount, (exfatMount_offsetsRight_iff rfl hmount (.inr rfl)).2 (.inl rfl), ?_⟩
  rw [exfatMount_offsetsRight_iff rfl hmount (.inl rfl), hcount]
  decide

/-- With 32 bits cluster `2 ^ 30 + 2` has the FAT entry of cluster 2, the first one of the bitmap.
-/
theorem exfatMount_not_offsetsRight : ∃ t, exfatMount vastStart = .ok (.ok ()) t ∧
    t.ef.sb.ValidCluster 2 ∧ t.ef.sb.ValidCluster (2 ^ 30 + 2) ∧
    fatOffsetChecked 32 t.ef.sb (2 ^ 30 + 2) = fatOffsetChecked 32 t.ef.sb 2 ∧
    fatOffsetChecked 32 t.ef.sb (2 ^ 30 + 2) ≠
      some (t.ef.sb.fatSectorStart * 2 ^ t.ef.sb.sectorBits + 4 * (2 ^ 30 + 2)) ∧
    ¬ t.ef.sb.OffsetsRight 32 := by
  obtain ⟨t, hmount, hcount⟩ := mounts_vastStart
  obtain ⟨-, hformat⟩ := wp_anyStop_iff.1 (exfatMount_well rfl) _ _ hmount rfl
  have hbits := SuperBlock.bits_le hformat
  have htwo : t.ef.sb.ValidCluster 2 :=
    ⟨by decide, clusterInvalid_eq_false.2 ⟨le_rfl, by omega⟩⟩
  have hlast : t.ef.sb.ValidCluster (2 ^ 30 + 2) :=
    ⟨by decide, clusterInvalid_eq_false.2 ⟨by omega, by omega⟩⟩
  have hsame : fatOffsetChecked 32 t.ef.sb (2 ^ 30 + 2) = fatOffsetChecked 32 t.ef.sb 2 := by
    rw [fatOffsetChecked_eq hbits hlast.1, fatOffsetChecked_eq hbits htwo.1,
      show (2 ^ 30 + 2) * 4 % 2 ^ 32 = 2 * 4 % 2 ^ 32 by decide]
  have hwrong : fatOffsetChecked 32 t.ef.sb (2 ^ 30 + 2) ≠
      some (t.ef.sb.fatSectorStart * 2 ^ t.ef.sb.sectorBits + 4 * (2 ^ 30 + 2)) := fun h =>
    absurd ((fatOffsetChecked_exact_iff hbits hlast.1).1 h) (by decide)
  exact ⟨t, hmount, htwo, hlast, hsame, hwrong, fun h => hwrong (h.fat _ hlast)⟩

end ExFat
