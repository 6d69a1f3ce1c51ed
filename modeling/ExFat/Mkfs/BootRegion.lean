import ExFat.Mkfs.Sound
import ExFat.Session.BootSum

namespace ExFat.Mkfs

open ExFat Bytes Program

/-!
# The boot region of a new volume

`vbr_write` writes the superblock as a structure of 512 bytes and everything behind it in whole
sectors.  On sectors of more than 512 bytes the boot region therefore lies `sectorSize - 512` bytes
too far to the front:

* sector 10, which `verify_vbr_checksum` sums, holds the first of the sums as well;
* sector 11, which should hold nothing but sums, ends in what `erase` left there, zeros.

So a volume that has just been made is refused unless its sectors have 512 bytes or the sum is zero
(`Feasible.summed_image_iff`).
-/

variable {p : Param}

/-! ### The sum over the boot region -/

/-- Behind the three places that are left out, the first sector is summed like any other. -/
theorem vbrStartChecksum_concat {l : List UInt8} (h : 0x70 < l.length) (x : UInt8) :
    exfatVbrStartChecksum (l ++ [x]) = addVbrByte (exfatVbrStartChecksum l) x := by
  unfold exfatVbrStartChecksum
  rw [List.length_append, List.length_singleton, List.range_succ,
    List.foldl_append, List.foldl_cons,
    List.foldl_nil, if_pos (by omega), List.getD_append_right _ _ _ _ le_rfl,
      Nat.sub_self, List.getD_cons_zero]
  congr 1
  apply List.foldl_ext
  intro sum i hi
  rw [List.getD_append _ _ _ _ (List.mem_range.1 hi)]

/-- The checksum of two parts is added up part by part. -/
theorem vbrStartChecksum_append {l : List UInt8} (h : 0x70 < l.length) (m : List UInt8) :
    exfatVbrStartChecksum (l ++ m) = exfatVbrAddChecksum m (exfatVbrStartChecksum l) := by
  induction m generalizing l with
  | nil => simp [exfatVbrAddChecksum]
  | cons x m ih =>
    have hlong : 0x70 < (l ++ [x]).length := by
      rw [List.length_append]
      omega
    have happend : l ++ x :: m = l ++ [x] ++ m := by simp
    rw [happend, ih hlong, vbrStartChecksum_concat h]
    unfold exfatVbrAddChecksum
    rw [List.foldl_cons]

/-- The checksum of sectors is that of their bytes. -/
theorem foldl_vbrAddChecksum {l : List UInt8} (h : 0x70 < l.length) (sectors : List (List UInt8)) :
    sectors.foldl (fun sum s => exfatVbrAddChecksum s sum) (exfatVbrStartChecksum l) =
      exfatVbrStartChecksum (l ++ sectors.flatten) := by
  induction sectors generalizing l with
  | nil => simp
  | cons s sectors ih =>
    have hlong : 0x70 < (l ++ s).length := by
      rw [List.length_append]
      omega
    rw [List.foldl_cons, ← vbrStartChecksum_append h, ih hlong,
      List.flatten_cons, List.append_assoc]

/-- Sectors that follow each other are the bytes they cover. -/
theorem readBytes_flatten (b : Store) (n len : Nat) :
    ((List.range n).map fun i => readBytes b (i * len) len).flatten = readBytes b 0 (n * len) := by
  induction n with
  | zero => simp [readBytes_zero]
  | succ n ih =>
    rw [List.range_succ, List.map_append, List.flatten_append, ih, Nat.succ_mul,
      readBytes_add, Nat.zero_add]
    simp

/-- What `verify_vbr_checksum` sums are the bytes of eleven sectors. -/
theorem vbrChecksum_bootRegion (b : Store) {sectorSize : Nat} (h : 0x70 < sectorSize) :
    ExFat.vbrChecksum (bootRegion b sectorSize) = exfatVbrStartChecksum
    (readBytes b 0 (11 * sectorSize)) := by
  have hlong : 0x70 < (readBytes b (0 * sectorSize) sectorSize).length := by rwa [length_readBytes]
  have hsplit : (List.range 11).map (fun i => readBytes b (i * sectorSize) sectorSize) =
      readBytes b (0 * sectorSize) sectorSize ::
        ((List.range 10).map Nat.succ).map fun i => readBytes b (i * sectorSize) sectorSize := by
    rw [List.range_succ_eq_map, List.map_cons]
  have hregion : ExFat.vbrChecksum (bootRegion b sectorSize) =
      (((List.range 10).map Nat.succ).map fun i => readBytes b (i * sectorSize) sectorSize).foldl
        (fun sum s => exfatVbrAddChecksum s sum)
        (exfatVbrStartChecksum (readBytes b (0 * sectorSize) sectorSize)) := by
    unfold bootRegion
    rw [List.range_succ_eq_map, List.map_cons]
    unfold ExFat.vbrChecksum
    dsimp only
    rw [← List.map_take, ← List.map_take, List.take_range, Nat.min_eq_left (by decide)]
  rw [hregion, foldl_vbrAddChecksum hlong, ← readBytes_flatten, hsplit, List.flatten_cons]

section Feasible

variable (h : Feasible p)

/-- The sector of sums. -/
def sumPiece (p : Param) : List UInt8 :=
  (List.replicate (p.sectorSize / 4) (natLe 4 p.vbrChecksum)).flatten

/-- What `vbr_write` sums. -/
def summedPieces (p : Param) : List UInt8 :=
  p.initSb.bytes ++ (List.replicate 8 p.bootSector ++ List.replicate 2 p.emptySector).flatten

/-- The boot region is the pieces that are summed and the sum. -/
theorem data_vbr (p : Param) : p.data .vbr = summedPieces p ++ sumPiece p := by
  show (p.vbrPieces).flatten = _
  unfold Param.vbrPieces summedPieces sumPiece
  simp

/-- The checksum is that of the pieces. -/
theorem vbrChecksum_summedPieces (p : Param) :
    p.vbrChecksum = exfatVbrStartChecksum (summedPieces p) := by
  have hlong : 0x70 < p.initSb.bytes.length := by
    rw [length_initSb]
    decide
  unfold summedPieces
  rw [← foldl_vbrAddChecksum hlong, List.foldl_append]
  rfl

/-- The sum fits a word. -/
theorem vbrChecksum_param_lt (p : Param) : p.vbrChecksum < 2 ^ 32 := by
  have hone : ExFat.vbrChecksum [summedPieces p] = exfatVbrStartChecksum (summedPieces p) := by
    unfold ExFat.vbrChecksum
    dsimp only
    rw [List.take_nil, List.foldl_nil]
  rw [vbrChecksum_summedPieces, ← hone]
  exact vbrChecksum_lt _

include h

/-- The sum fills whole sectors. -/
theorem Feasible.dvd_sectorSize : 4 ∣ p.sectorSize :=
  Dvd.dvd.trans (by decide : 4 ∣ 2 ^ 9) (Nat.pow_dvd_pow 2 h.sector)

/-- The sum fills one sector. -/
theorem Feasible.length_sumPiece : (sumPiece p).length = p.sectorSize := by
  have hlen := length_sumSector p.sectorSize p.vbrChecksum
  rw [Nat.mul_div_cancel' h.dvd_sectorSize] at hlen
  exact hlen

/-- The pieces that are summed are 512 bytes and ten sectors. -/
theorem Feasible.length_summedPieces : (summedPieces p).length = 512 + 10 * p.sectorSize := by
  have hlen := h.length_vbr
  rw [data_vbr, List.length_append, h.length_sumPiece] at hlen
  omega

/-- The sector that should hold the sums: they have begun in the sector before. -/
theorem Feasible.image_sums (b : Store) {k : Nat} (hk : k < p.sectorSize) :
    image p b (11 * p.sectorSize + k) = (sumPiece p).getD (p.sectorSize - 512 + k) 0 := by
  have hss := h.le_sectorSize
  have hq : (0, Object.vbr) ∈ placements p 0 objects := by
    rw [p.placements_objects]
    exact List.mem_cons_self
  have hroom : 11 * p.sectorSize + k < p.size .vbr := by
    show _ < 12 * p.sectorSize
    omega
  have hbyte := h.image_apply b hq (.inl hroom)
  have hplace : 11 * p.sectorSize + k - (summedPieces p).length = p.sectorSize - 512 + k := by
    rw [h.length_summedPieces]
    omega
  rw [Nat.zero_add, data_vbr, List.getD_append_right _ _ _ _ (by rw [h.length_summedPieces]; omega),
    hplace]
    at hbyte
  exact hbyte

/-- The first 128 words of that sector are sums. -/
theorem Feasible.sumWord_image (b : Store) {j : Nat} (hj : j < 128) :
    leNat (readBytes (image p b) (11 * p.sectorSize + 4 * j) 4) = p.vbrChecksum := by
  have hss := h.le_sectorSize
  obtain ⟨m, hm⟩ := h.dvd_sectorSize
  have hword : readBytes (image p b) (11 * p.sectorSize + 4 * j) 4 = natLe 4 p.vbrChecksum := by
    refine (eq_readBytes (length_natLe _ _) fun i hi => ?_).symm
    have hsum := getD_sumSector p.vbrChecksum (show m - 128 + j < p.sectorSize / 4 by omega) hi
    have hplace : p.sectorSize - 512 + (4 * j + i) = 4 * (m - 128 + j) + i := by omega
    rw [Nat.add_assoc, h.image_sums b (by omega), hplace, ← hsum]
    rfl
  rw [hword, leNat_natLe_of_lt (vbrChecksum_param_lt p)]

/-- The words behind are zero. -/
theorem Feasible.zeroWord_image (b : Store) {j : Nat} (hj : 128 ≤ j) (hlt : j < p.sectorSize / 4) :
    leNat (readBytes (image p b) (11 * p.sectorSize + 4 * j) 4) = 0 := by
  have hword : readBytes (image p b) (11 * p.sectorSize + 4 * j) 4 = natLe 4 0 := by
    refine (eq_readBytes (length_natLe _ _) fun i hi => ?_).symm
    have hbehind : (sumPiece p).length ≤ p.sectorSize - 512 + (4 * j + i) := by
      rw [h.length_sumPiece]
      omega
    rw [Nat.add_assoc, h.image_sums b (by omega), List.getD_eq_default _ _ hbehind]
    obtain rfl | rfl | rfl | rfl : i = 0 ∨ i = 1 ∨ i = 2 ∨ i = 3 := by omega
    all_goals rfl
  rw [hword, leNat_natLe_of_lt (by decide)]

/-- The sum that `verify_vbr_checksum` computes goes on over the sums that came too early. -/
theorem Feasible.vbrChecksum_image (b : Store) :
    ExFat.vbrChecksum (bootRegion (image p b) p.sectorSize) =
    exfatVbrAddChecksum ((sumPiece p).take (p.sectorSize - 512)) p.vbrChecksum := by
  have hss := h.le_sectorSize
  have hlen := h.length_summedPieces
  have hq : (0, Object.vbr) ∈ placements p 0 objects := by
    rw [p.placements_objects]
    exact List.mem_cons_self
  have hread := h.readBytes_image b hq 0 (11 * p.sectorSize) (by rw [h.length_vbr]; omega)
  have hextra : 11 * p.sectorSize - (512 + 10 * p.sectorSize) = p.sectorSize - 512 := by omega
  rw [Nat.zero_add, List.drop_zero, data_vbr, List.take_append, hlen, hextra,
    List.take_of_length_le (by rw [hlen]; omega)] at hread
  rw [vbrChecksum_bootRegion _ (by omega), hread, vbrStartChecksum_append (by rw [hlen]; omega),
    ← vbrChecksum_summedPieces]

omit h in
/-- A sum of zero stays zero over zeros. -/
theorem vbrAddChecksum_zeros (n : Nat) : exfatVbrAddChecksum (List.replicate n 0) 0 = 0 := by
  unfold exfatVbrAddChecksum
  induction n with
  | zero => rfl
  | succ n ih =>
    rw [List.replicate_succ, List.foldl_cons]
    exact ih

/-- `verify_vbr_checksum` accepts what `vbr_write` has written if the sectors have 512 bytes, or the
sum is zero; in no other case. -/
theorem Feasible.summed_image_iff (b : Store) :
    Summed (image p b) p.sectorSize ↔ p.sectorBits = 9 ∨ p.vbrChecksum = 0 := by
  have hss := h.le_sectorSize
  constructor
  · intro hsum
    by_cases h9 : p.sectorBits = 9
    · exact .inl h9
    -- there are words behind the sums, so the sum is zero, and so are they
    have hlarge : 2 ^ 10 ≤ p.sectorSize :=
      Nat.pow_le_pow_right (by decide) (by have := h.sector; omega)
    have hzero := hsum 128 (by omega)
    rw [h.zeroWord_image b le_rfl (by omega)] at hzero
    have hfirst := hsum 0 (by omega)
    rw [h.sumWord_image b (by decide), ← hzero] at hfirst
    exact .inr hfirst
  · rintro (h9 | hzero) j hj
    · have h512 : p.sectorSize = 512 := by
        unfold Param.sectorSize
        rw [h9]
        -- sectors of 512 bytes leave nothing of the sums to the sum
        norm_num
      have hnone : (sumPiece p).take (p.sectorSize - 512) = [] := by
        rw [h512, Nat.sub_self, List.take_zero]
      rw [h.sumWord_image b (by omega), h.vbrChecksum_image, hnone, exfatVbrAddChecksum,
        List.foldl_nil]
    -- a zero sum adds nothing but zeros
    · have hzeros : sumPiece p = List.replicate p.sectorSize 0 := by
        refine List.eq_replicate_iff.2 ⟨h.length_sumPiece, fun x hx => ?_⟩
        unfold sumPiece at hx
        rw [hzero] at hx
        obtain ⟨w, hw, hx⟩ := List.mem_flatten.1 hx
        rw [List.eq_of_mem_replicate hw] at hx
        simpa [natLe] using hx
      rw [h.vbrChecksum_image, hzeros, List.take_replicate, hzero, vbrAddChecksum_zeros]
      by_cases hlt : j < 128
      · rw [h.sumWord_image b hlt, hzero]
      · exact h.zeroWord_image b (Nat.le_of_not_lt hlt) hj

/-- `exfat_mount` accepts the boot region if and only if the clusters are not too large for it and
the sums are in their place. -/
theorem Feasible.bootable_image_iff (b : Store) : Bootable (image p b) p.volumeSize ↔
    p.sectorBits + p.spcBits ≤ 25 ∧ (p.sectorBits = 9 ∨ p.vbrChecksum = 0) := by
  have hg := h.geometry
  have hboot : bootSector (image p b) = p.initSb := h.sbAt_image b
  have hss : p.initSb.sectorSize = p.sectorSize := by
    unfold SuperBlock.sectorSize
    rw [hg.sectorBits]
    rfl
  have hfit : p.fit * p.clusterSize ≤ p.volumeSize := Nat.div_mul_le_self _ _
  have hformat : p.initSb.formatError = none ↔ p.sectorBits + p.spcBits ≤ 25 := by
    rw [SuperBlock.formatError_eq_none, hg.sectorBits, hg.spcBits]
    exact ⟨fun hf => hf.2.2, fun hbits => ⟨oemName_initSb p, h.sector, hbits⟩⟩
  constructor
  · intro hb
    have hsums : Summed (image p b) p.sectorSize := by
      have hs := hb.sums
      rw [hboot, hss] at hs
      exact hs
    exact ⟨hformat.1 (hboot ▸ hb.format), (h.summed_image_iff b).1 hsums⟩
  · rintro ⟨hbits, hsum⟩
    refine ⟨hboot.symm ▸ hformat.2 hbits, ?_, ?_⟩
    · rw [hboot, hss]
      exact (h.summed_image_iff b).2 hsum
    · rw [hboot, SuperBlock.volumeError_eq_none, hg.count, h.clusterSize_eq]
      refine ⟨⟨hg.versionMajor, hg.versionMinor⟩, hg.fatCount, Nat.le_trans ?_ hfit⟩
      exact Nat.mul_le_mul_right _ (Nat.sub_le _ _)

end Feasible

end ExFat.Mkfs
