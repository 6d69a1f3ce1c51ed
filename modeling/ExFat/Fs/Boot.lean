import ExFat.Fs.MountVolume

namespace ExFat

open Bytes Program

/-!
# Mounting from an array of bytes

On a device that never fails the first part of `exfat_mount` succeeds exactly on the boot regions
described by `Bootable`.
-/

variable {ef : Ef Flat}

/-- The boot sector on the medium. -/
def bootSector (b : Store) : SuperBlock := ⟨readBytes b 0 512⟩

/-- The twelve sectors of the boot region. -/
def bootRegion (b : Store) (sectorSize : Nat) : List (List UInt8) :=
  (List.range 12).map fun i => readBytes b (i * sectorSize) sectorSize

/-- A boot region `exfat_mount` accepts, on a device of `size` bytes. -/
structure Bootable (b : Store) (size : Nat) : Prop where
  format : (bootSector b).formatError = none
  sums : ∀ j < (bootSector b).sectorSize / 4,
    leNat (readBytes b (11 * (bootSector b).sectorSize + 4 * j) 4) =
      vbrChecksum (bootRegion b (bootSector b).sectorSize)
  volume : (bootSector b).volumeError size = none

/-- Sectors that follow each other are read from the bytes of the device. -/
theorem run_readVbrSectors (ss n i : Nat) : readVbrSectors ss n i ef =
    .ok (some ((List.range n).map fun k => readBytes ef.dev.bytes ((i + k) * ss) ss)) ef := by
  induction n generalizing i with
  | zero => rfl
  | succ n ih =>
    have hrest : (List.range n).map (fun k => readBytes ef.dev.bytes ((i + 1 + k) * ss) ss) =
        (List.range n).map ((fun k => readBytes ef.dev.bytes ((i + k) * ss) ss) ∘ Nat.succ) :=
      List.map_congr_left fun k _ => by
        show _ = readBytes ef.dev.bytes ((i + (k + 1)) * ss) ss
        rw [Nat.add_assoc, Nat.add_comm 1 k]
    unfold readVbrSectors
    rw [run_bind_ok (run_exfatPread _ _ _)]
    show (readVbrSectors ss n (i + 1) >>= _) ef = _
    rw [run_bind_ok (ih (i + 1)), List.range_succ_eq_map, List.map_cons, List.map_map, hrest]
    rfl

/-- `read_vbr` reads the boot region. -/
theorem run_readVbr : readVbr ef = .ok (some (bootRegion ef.dev.bytes ef.sb.sectorSize)) ef := by
  unfold readVbr
  rw [run_bind_ok (run_get ef)]
  split
  · rw [run_bind_ok (run_exfatPread _ _ _)]
    show EStateM.Result.ok (some (List.map _ _)) ef = _
    congr 2
    refine List.map_congr_left fun i hi => ?_
    have hi' : i < 12 := List.mem_range.1 hi
    have hroom : i * ef.sb.sectorSize + ef.sb.sectorSize ≤ 12 * ef.sb.sectorSize := by
      rw [← Nat.succ_mul]
      exact Nat.mul_le_mul_right _ hi'
    rw [take_drop_readBytes, Nat.min_eq_left (by omega), Nat.zero_add]
  · rw [run_readVbrSectors]
    simp only [Nat.zero_add]
    rfl

/-- A checksum sector with the right words is accepted. -/
theorem run_verifyWords {checksum : Nat} {words : List Nat} (h : ∀ w ∈ words, w = checksum) :
    verifyWords checksum words ef = .ok true ef := by
  induction words with
  | nil => rfl
  | cons w ws ih =>
    unfold verifyWords
    rw [if_neg (not_not.2 (h w (List.mem_cons_self ..)))]
    exact ih fun w' hw' => h w' (List.mem_cons_of_mem _ hw')

/-- The first part of `exfat_mount` succeeds. -/
theorem run_mountSuperBlock (hmalloc : ∀ k, ef.malloc k = true)
    (hb : Bootable ef.dev.bytes ef.dev.size) :
    mountSuperBlock ef =
      .ok (.ok ()) { ef with sb := bootSector ef.dev.bytes, ticks := ef.ticks + 1 + 1 + 1 } := by
  -- the checksums are in the last sector of the boot region
  have hlast : (bootRegion ef.dev.bytes (bootSector ef.dev.bytes).sectorSize).getD 11 [] =
      readBytes ef.dev.bytes (11 * (bootSector ef.dev.bytes).sectorSize)
        (bootSector ef.dev.bytes).sectorSize := by
    unfold bootRegion
    rw [List.getD_eq_getElem?_getD, List.getElem?_map, List.getElem?_range (by decide),
      Option.map_some, Option.getD_some]
  -- `exfat_verify_vbr_checksum` reads the region and finds each word of that sector right
  have hverify : ∀ ef' : Ef Flat, ef'.dev = ef.dev → ef'.sb = bootSector ef.dev.bytes →
      verifyVbrChecksum ef' = .ok true ef' := by
    intro ef' hdev hsb
    unfold verifyVbrChecksum
    rw [run_bind_ok (run_get ef'), run_bind_ok run_readVbr]
    dsimp only
    rw [hdev, hsb]
    refine run_verifyWords fun w hw => ?_
    obtain ⟨j, hj, rfl⟩ := List.mem_map.1 hw
    have hj' := List.mem_range.1 hj
    rw [hlast, leAt_readBytes (by omega)]
    exact hb.sums j hj'
  unfold mountSuperBlock
  rw [run_bind_ok (run_mallocOk ef), hmalloc, if_neg (by decide),
    run_bind_ok (run_exfatPread _ _ _)]
  dsimp only
  rw [run_bind_ok (run_modify _ _), run_bind_ok (run_get _)]
  -- what has been read is the boot sector, and it passes the checks of the format
  have hsector : (⟨readBytes ef.dev.bytes 0 512⟩ : SuperBlock) = bootSector ef.dev.bytes := rfl
  dsimp only
  rw [hsector, hb.format]
  dsimp only
  rw [run_bind_ok (run_mallocOk _)]
  dsimp only
  have hsums := hverify { ef with sb := bootSector ef.dev.bytes, ticks := ef.ticks + 1 + 1 } rfl rfl
  rw [hmalloc, if_neg (by decide), run_bind_ok hsums, if_neg (by decide)]
  -- and those that compare it with the device
  have hsize : Device.getSize ef.dev = ef.dev.size := rfl
  rw [hsize, hb.volume]
  dsimp only
  rw [run_bind_ok (run_mallocOk _)]
  dsimp only
  rw [hmalloc, if_neg (by decide)]
  rfl

/-- On a bootable device `exfat_mount` comes to the root directory. -/
theorem run_exfatMount {t : Volume Flat} (hmalloc : ∀ k, t.ef.malloc k = true)
    (hb : Bootable t.ef.dev.bytes t.ef.dev.size) :
    exfatMount t = mountRoot { t with ef := { t.ef with
      sb := bootSector t.ef.dev.bytes, ticks := t.ef.ticks + 1 + 1 + 1 } } := by
  unfold exfatMount
  have hboot : onVolume mountSuperBlock t = .ok (.ok ()) { t with ef := { t.ef with
      sb := bootSector t.ef.dev.bytes, ticks := t.ef.ticks + 1 + 1 + 1 } } :=
    run_zoom_ok (run_mountSuperBlock hmalloc hb)
  rw [run_bind_ok hboot]

/-! ### Giving a store its checksum -/

/-- The medium with the checksum of its boot region in place, for sectors of 512 bytes. -/
def withChecksum (b : Store) : Store := fun a =>
  if 5632 ≤ a ∧ a < 6144 then (natLe 4 (vbrChecksum (bootRegion b 512))).getD
    ((a - 5632) % 4) 0 else b a

/-- The checksum of the boot region has 32 bits. -/
theorem vbrChecksum_lt (sectors : List (List UInt8)) : vbrChecksum sectors < 2 ^ 32 := by
  have hfold : ∀ (l : List UInt8) (sum : Nat), sum < 2 ^ 32 → l.foldl addVbrByte sum < 2 ^ 32 := by
    intro l
    induction l with
    | nil => exact fun _ h => h
    | cons b l ih => exact fun sum _ => ih _ (Nat.mod_lt _ (by decide))
  have hstart : ∀ (sector : List UInt8) (is : List Nat) (sum : Nat), sum < 2 ^ 32 →
      is.foldl (fun sum i => if i ≠ 0x6a ∧ i ≠ 0x6b ∧ i ≠ 0x70 then addVbrByte sum (sector.getD i 0)
        else sum) sum < 2 ^ 32 := by
    intro sector is
    induction is with
    | nil => exact fun _ h => h
    | cons i is ih =>
      intro sum hsum
      refine ih _ ?_
      dsimp only
      split
      · exact Nat.mod_lt _ (by decide)
      · exact hsum
  have hadd : ∀ (l : List (List UInt8)) (sum : Nat), sum < 2 ^ 32 →
      l.foldl (fun sum s => exfatVbrAddChecksum s sum) sum < 2 ^ 32 := by
    intro l
    induction l with
    | nil => exact fun _ h => h
    | cons s l ih => exact fun sum hsum => ih _ (hfold s sum hsum)
  cases sectors with
  | nil => exact Nat.two_pow_pos 32
  | cons boot sectors => exact hadd _ _ (hstart boot _ 0 (by decide))

/-- The bytes outside the checksum sector are as before. -/
theorem readBytes_withChecksum {b : Store} {off len : Nat} (h : off + len ≤ 5632 ∨ 6144 ≤ off) :
    readBytes (withChecksum b) off len = readBytes b off len :=
  readBytes_congr fun i hi => if_neg (by omega)

/-- The checksum is that of the first eleven sectors. -/
theorem vbrChecksum_congr {l l' : List (List UInt8)} (h : l.take 11 = l'.take 11) :
    vbrChecksum l = vbrChecksum l' := by
  cases l with
  | nil =>
    cases l' with
    | nil => rfl
    | cons s' l' => cases h
  | cons s l =>
    cases l' with
    | nil => cases h
    | cons s' l' =>
      rw [List.take_succ_cons, List.take_succ_cons, List.cons.injEq] at h
      show List.foldl _ _ (List.take 10 l) = List.foldl _ _ (List.take 10 l')
      rw [h.1, h.2]

/-- Storing the checksum does not change it. -/
theorem vbrChecksum_withChecksum (b : Store) :
    vbrChecksum (bootRegion (withChecksum b) 512) = vbrChecksum (bootRegion b 512) := by
  refine vbrChecksum_congr ?_
  unfold bootRegion
  rw [← List.map_take, ← List.map_take]
  refine List.map_congr_left fun i hi => ?_
  rw [List.take_range, List.mem_range] at hi
  exact readBytes_withChecksum (by omega)

/-- A medium whose boot sector passes the tests can be given its checksum. -/
theorem bootable_withChecksum {b : Store} {size : Nat} (hformat : (bootSector b).formatError = none)
    (hss : (bootSector b).sectorSize = 512) (hvolume : (bootSector b).volumeError size = none) :
    Bootable (withChecksum b) size := by
  have hboot : bootSector (withChecksum b) = bootSector b :=
    congrArg SuperBlock.mk (readBytes_withChecksum (.inl (by decide)))
  refine ⟨hboot.symm ▸ hformat, fun j hj => ?_, hboot.symm ▸ hvolume⟩
  rw [hboot, hss] at hj ⊢
  rw [vbrChecksum_withChecksum]
  have hword : readBytes (withChecksum b) (11 * 512 + 4 * j) 4 =
      natLe 4 (vbrChecksum (bootRegion b 512)) := by
    generalize hsum : vbrChecksum (bootRegion b 512) = sum
    refine (eq_readBytes (length_natLe _ _) fun i hi => ?_).symm
    unfold withChecksum
    have hplace : (11 * 512 + 4 * j + i - 5632) % 4 = i := by omega
    rw [if_pos (by omega), hsum, hplace]
  rw [hword, leNat_natLe_of_lt (vbrChecksum_lt _)]

/-! ### A card on which nothing is stored -/

/-- The boot sector of a volume of four clusters. -/
def cardBoot : SuperBlock :=
  SuperBlock.setFields ⟨List.replicate 512 0⟩ [(0x03, 8, 0x2020205441465845),
    (0x50, 4, 12), (0x54, 4, 1),
    (0x58, 4, 13), (0x5c, 4, 4), (0x60, 4, 4), (0x69, 1, 1), (0x6c, 1, 9),
      (0x6e, 1, 1), (0x70, 1, 0xff)]

/-- The entries of its root directory: the bitmap in cluster 2 and the upcase table in cluster 3. -/
def cardRoot : List UInt8 :=
  patch (patch (patch (patch (patch (patch (List.replicate 64 0) 0 [0x81]) 20 [2]) 24 [1])
    32 [0x82]) 52 [3]) 56 [2]

/-- The medium. -/
def cardStore : Store := fun a =>
  if a < 512 then cardBoot.bytes.getD a 0
  else if 6144 + 16 ≤ a ∧ a < 6144 + 20 then 0xff
  else if a = 6656 then 7
  else if 7680 ≤ a ∧ a < 7744 then cardRoot.getD (a - 7680) 0
  else 0

/-- The card can be booted from when its checksum is stored. -/
theorem bootable_cardStore : Bootable (withChecksum cardStore) (2 ^ 20) :=
  bootable_withChecksum (by decide +kernel) (by decide +kernel) (by decide +kernel)

end ExFat
