import ExFat.Amiga.Handler
import ExFat.Fs.Boot
import ExFat.Session.VolumeDirty

namespace ExFat

open Bytes Program

/-!
# The checksum of the boot region

`verify_vbr_checksum` reads the twelve sectors at once where a cluster holds them and one after the
other elsewhere.  While a volume is mounted only `volume_state` and `allocated_percent` change, and
the sum leaves these out.
-/

/-! ### Verifying -/

/-- Every word of the last sector of the boot region is the sum of the sectors before. -/
def Summed (b : Store) (sectorSize : Nat) : Prop :=
  ∀ j < sectorSize / 4,
    leNat (readBytes b (11 * sectorSize + 4 * j) 4) = vbrChecksum (bootRegion b sectorSize)

/-- What a question of `exfat_ask_to_fix` would be answered. -/
def Ef.agrees {δ : Type} (ef : Ef δ) : Bool :=
  match ef.repair with
  | .no => false
  | .yes => true
  | .ask => ef.answers ef.ticks

/-- The sector of sums `exfat_fix_invalid_vbr_checksum` writes. -/
def sumSector (sectorSize checksum : Nat) : List UInt8 :=
  (List.replicate (sectorSize / 4) (natLe 4 checksum)).flatten

/-- The medium with the sector of sums in its place. -/
def resummed (b : Store) (sectorSize : Nat) : Store :=
  writeBytes b (11 * sectorSize) (sumSector sectorSize (vbrChecksum (bootRegion b sectorSize)))

/-- The checksum sector is filled with whole words. -/
theorem length_sumSector (sectorSize checksum : Nat) :
    (sumSector sectorSize checksum).length = 4 * (sectorSize / 4) := by
  unfold sumSector
  simp [Nat.mul_comm]

/-- The bytes of the checksum sector are those of the checksum. -/
theorem getD_sumSector (checksum : Nat) {sectorSize j i : Nat} (hj : j < sectorSize / 4)
    (hi : i < 4) :
    (sumSector sectorSize checksum).getD (4 * j + i) 0 = (natLe 4 checksum).getD i 0 := by
  have hlen : j < (List.replicate (sectorSize / 4) checksum).length := by
    rwa [List.length_replicate]
  have h := getD_flatten_natLe 4 _ hlen hi
  rw [List.map_replicate] at h
  unfold sumSector
  rw [h, List.getD_eq_getElem _ _ hlen, List.getElem_replicate]

/-- The sum does not depend on the sector it is stored in. -/
theorem vbrChecksum_resummed (b : Store) (sectorSize : Nat) :
    vbrChecksum (bootRegion (resummed b sectorSize) sectorSize) = vbrChecksum
    (bootRegion b sectorSize) := by
  refine vbrChecksum_congr ?_
  unfold bootRegion
  rw [← List.map_take, ← List.map_take]
  refine List.map_congr_left fun i hi => ?_
  rw [List.take_range, List.mem_range] at hi
  have hroom : i * sectorSize + sectorSize ≤ 11 * sectorSize := by
    rw [← Nat.succ_mul]
    exact Nat.mul_le_mul_right _ (by omega)
  refine readBytes_congr fun k hk => ?_
  rw [resummed, writeBytes_apply, if_neg (by omega)]

/-- A boot region whose checksum is stored has it. -/
theorem summed_resummed (b : Store) (sectorSize : Nat) :
    Summed (resummed b sectorSize) sectorSize := by
  intro j hj
  rw [vbrChecksum_resummed]
  generalize hsum : vbrChecksum (bootRegion b sectorSize) = sum
  have hword : readBytes (resummed b sectorSize) (11 * sectorSize + 4 * j) 4 = natLe 4 sum := by
    refine (eq_readBytes (length_natLe _ _) fun i hi => ?_).symm
    have hat := getD_sumSector sum hj hi
    rw [resummed, writeBytes_apply, length_sumSector, if_pos (by omega), hsum, ← hat]
    congr 1
    omega
  rw [hword, leNat_natLe_of_lt]
  rw [← hsum]
  exact vbrChecksum_lt _

section Verify

variable {ef : Ef Flat}

/-- The words of the last sector, as `verify_vbr_checksum` has read them. -/
def sumWords (b : Store) (sectorSize : Nat) : List Nat :=
  (List.range (sectorSize / 4)).map fun j => leNat (readBytes b (11 * sectorSize + 4 * j) 4)

/-- All words of the checksum sector are the checksum. -/
theorem summed_iff (b : Store) (sectorSize : Nat) :
    Summed b sectorSize ↔ ∀ w ∈ sumWords b sectorSize,
    w = vbrChecksum (bootRegion b sectorSize) := by
  constructor
  · intro h w hw
    obtain ⟨j, hj, rfl⟩ := List.mem_map.1 hw
    exact h j (List.mem_range.1 hj)
  · intro h j hj
    exact h _ (List.mem_map.2 ⟨j, List.mem_range.2 hj, rfl⟩)

/-- Whichever way the sectors are read, the same words are compared with the same sum. -/
theorem verifyVbrChecksum_eq (ef : Ef Flat) :
    verifyVbrChecksum ef =
      verifyWords (vbrChecksum (bootRegion ef.dev.bytes ef.sb.sectorSize))
        (sumWords ef.dev.bytes ef.sb.sectorSize) ef := by
  have hlast : (bootRegion ef.dev.bytes ef.sb.sectorSize).getD 11 [] =
      readBytes ef.dev.bytes (11 * ef.sb.sectorSize) ef.sb.sectorSize := by
    unfold bootRegion
    rw [List.getD_eq_getElem?_getD, List.getElem?_map, List.getElem?_range (by decide),
      Option.map_some, Option.getD_some]
  unfold verifyVbrChecksum
  rw [run_bind_ok (run_get ef), run_bind_ok run_readVbr]
  dsimp only
  rw [hlast]
  congr 1
  refine List.map_congr_left fun j hj => ?_
  have hj' := List.mem_range.1 hj
  exact leAt_readBytes (by omega)

/-- `exfat_ask_to_fix` answers as the repair mode and the user do. -/
theorem run_exfatAskToFix (ef : Ef Flat) :
    ∃ ef', exfatAskToFix ef = .ok ef.agrees ef' ∧ ef'.dev = ef.dev ∧ ef'.sb = ef.sb := by
  unfold exfatAskToFix Ef.agrees
  rw [run_bind_ok (run_get ef)]
  cases ef.repair with
  | no => exact ⟨ef, rfl, rfl, rfl⟩
  | yes => exact ⟨ef, rfl, rfl, rfl⟩
  | ask => exact ⟨_, rfl, rfl, rfl⟩

/-- A word that differs: the sector is rewritten if that is agreed, and the volume refused if not.
-/
theorem run_verifyWords_ne (ef : Ef Flat) {checksum : Nat} {words : List Nat}
    (h : ∃ w ∈ words, w ≠ checksum) :
    ∃ ef', verifyWords checksum words ef = .ok ef.agrees ef' ∧ ef'.dev = if ef.agrees then
        ⟨writeBytes ef.dev.bytes (11 * ef.sb.sectorSize) (sumSector ef.sb.sectorSize checksum),
          ef.dev.size⟩
      else ef.dev := by
  -- On the words; the first one that differs decides.
  induction words with
  | nil =>
    obtain ⟨w, hw, -⟩ := h
    exact (List.not_mem_nil hw).elim
  | cons w ws ih =>
    unfold verifyWords
    -- the words before it are passed over
    by_cases hw : w = checksum
    · rw [if_neg (not_not.2 hw)]
      refine ih ?_
      obtain ⟨v, hv, hne⟩ := h
      rcases List.mem_cons.1 hv with rfl | hv
      · exact absurd hw hne
      · exact ⟨v, hv, hne⟩
    · have hagrees : ({ ef with errors := ef.errors + 1 } : Ef Flat).agrees = ef.agrees := rfl
      obtain ⟨ef₁, hask, hdev, hsb⟩ := run_exfatAskToFix { ef with errors := ef.errors + 1 }
      rw [hagrees] at hask
      rw [if_pos hw, run_bind_ok (run_exfatError _ ef), run_bind_ok hask]
      -- not agreed, so the volume is refused; or agreed, so the sector is rewritten
      cases ef.agrees with
      | false => exact ⟨ef₁, rfl, hdev⟩
      | true =>
        rw [if_pos rfl, if_pos rfl]
        unfold exfatFixInvalidVbrChecksum
        rw [run_bind_ok (run_get ef₁), hsb]
        refine ⟨_, rfl, ?_⟩
        show (⟨writeBytes ef₁.dev.bytes _ _, ef₁.dev.size⟩ : Flat) = _
        rw [hdev]
        rfl

/-- What `verify_vbr_checksum` returns, and what it leaves on the device. -/
theorem run_verifyVbrChecksum (ef : Ef Flat) : ∃ ok ef', verifyVbrChecksum ef = .ok ok ef' ∧
    (ok = true ↔ Summed ef.dev.bytes ef.sb.sectorSize ∨ ef.agrees = true) ∧
    (Summed ef.dev.bytes ef.sb.sectorSize ∨ ef.agrees = false → ef'.dev = ef.dev) ∧
    (¬ Summed ef.dev.bytes ef.sb.sectorSize → ef.agrees = true →
      ef'.dev = { ef.dev with bytes := resummed ef.dev.bytes ef.sb.sectorSize }) := by
  rw [verifyVbrChecksum_eq]
  by_cases hsum : Summed ef.dev.bytes ef.sb.sectorSize
  · refine ⟨true, ef, run_verifyWords ((summed_iff _ _).1 hsum), ⟨fun _ => .inl hsum, fun _ => rfl⟩,
      fun _ => rfl, fun hno => absurd hsum hno⟩
  · have hne : ∃ w ∈ sumWords ef.dev.bytes ef.sb.sectorSize,
        w ≠ vbrChecksum (bootRegion ef.dev.bytes ef.sb.sectorSize) := by
      by_contra hall
      exact hsum ((summed_iff _ _).2 fun w hw => by_contra fun hw' => hall ⟨w, hw, hw'⟩)
    obtain ⟨ef', hrun, hdev⟩ := run_verifyWords_ne ef hne
    refine ⟨ef.agrees, ef', hrun, ⟨fun h => .inr h, fun h => h.resolve_left hsum⟩,
      fun h => ?_, fun _ h => ?_⟩
    · rw [hdev, h.resolve_left hsum, if_neg Bool.false_ne_true]
    · rw [hdev, h, if_pos rfl]
      rfl

end Verify

/-! ### What changes while a volume is mounted -/

/-- The places the checksum leaves out: `volume_state` and `allocated_percent`. -/
def Unsummed (a : Nat) : Prop := a = 0x6a ∨ a = 0x6b ∨ a = 0x70

/-- Two media that differ in these places at most. -/
def SameSummed (b b' : Store) : Prop := ∀ a, ¬ Unsummed a → b a = b' a

/-- The bytes that are summed are the same. -/
theorem SameSummed.readBytes {b b' : Store} (h : SameSummed b b') {off len : Nat}
    (hapart : off + len ≤ 0x6a ∨ 0x71 ≤ off) : readBytes b off len = readBytes b' off len :=
  readBytes_congr fun i hi => h _ (by unfold Unsummed; omega)

/-- The first sector: the sum is the same. -/
theorem SameSummed.vbrStart {b b' : Store} (h : SameSummed b b') (len : Nat) :
    exfatVbrStartChecksum (ExFat.Bytes.readBytes b 0 len) =
      exfatVbrStartChecksum (ExFat.Bytes.readBytes b' 0 len) := by
  unfold exfatVbrStartChecksum
  rw [length_readBytes, length_readBytes]
  refine List.foldl_ext _ _ _ fun sum i hi => ?_
  have hi' := List.mem_range.1 hi
  by_cases hsummed : i ≠ 0x6a ∧ i ≠ 0x6b ∧ i ≠ 0x70
  · rw [if_pos hsummed, if_pos hsummed, getD_readBytes, getD_readBytes, if_pos hi', if_pos hi',
      h _ (by unfold Unsummed; omega)]
  · rw [if_neg hsummed, if_neg hsummed]

/-- The checksum is the same. -/
theorem SameSummed.vbrChecksum {b b' : Store} (h : SameSummed b b') {sectorSize : Nat}
    (hsector : 0x71 ≤ sectorSize) :
    vbrChecksum (bootRegion b sectorSize) = vbrChecksum (bootRegion b' sectorSize) := by
  have hrest : ∀ i ∈ (List.range 11).map Nat.succ,
      ExFat.Bytes.readBytes b (i * sectorSize) sectorSize = ExFat.Bytes.readBytes b'
      (i * sectorSize) sectorSize := by
    intro i hi
    obtain ⟨k, -, rfl⟩ := List.mem_map.1 hi
    refine h.readBytes (.inr ?_)
    rw [Nat.succ_mul]
    omega
  unfold bootRegion
  rw [List.range_succ_eq_map, List.map_cons, List.map_cons, List.map_congr_left hrest]
  unfold ExFat.vbrChecksum
  dsimp only
  rw [Nat.zero_mul, h.vbrStart]

/-- A field of the superblock that lies apart from these places. -/
theorem SameSummed.leAt {b b' : Store} (h : SameSummed b b') {off n : Nat}
    (hapart : off + n ≤ 0x6a ∨ 0x71 ≤ off ∨ (0x6c ≤ off ∧ off + n ≤ 0x70)) :
    leAt (bootSector b).bytes off n = leAt (bootSector b').bytes off n := by
  refine leAt_congr fun i h₁ h₂ => ?_
  unfold bootSector
  rw [getD_readBytes, getD_readBytes]
  by_cases hi : i < 512
  · rw [if_pos hi, if_pos hi, h _ (by unfold Unsummed; omega)]
  · rw [if_neg hi, if_neg hi]

/-- An accepted boot region stays accepted. -/
theorem Bootable.of_sameSummed {b b' : Store} {size : Nat} (hb : Bootable b size)
    (h : SameSummed b b') : Bootable b' size := by
  -- The fields that are checked lie outside the three bytes that the sum leaves out.
  have hbits : (bootSector b).sectorBits = (bootSector b').sectorBits := h.leAt (by omega)
  have hspc : (bootSector b).spcBits = (bootSector b').spcBits := h.leAt (by omega)
  have hname : (bootSector b).oemName = (bootSector b').oemName := by
    unfold SuperBlock.oemName bootSector
    rw [take_drop_readBytes, take_drop_readBytes]
    exact h.readBytes (by omega)
  have hmajor : (bootSector b).versionMajor = (bootSector b').versionMajor := h.leAt (by omega)
  have hminor : (bootSector b).versionMinor = (bootSector b').versionMinor := h.leAt (by omega)
  have hfats : (bootSector b).fatCount = (bootSector b').fatCount := h.leAt (by omega)
  have hcount : (bootSector b).clusterCount = (bootSector b').clusterCount := h.leAt (by omega)
  have hsector : (bootSector b).sectorSize = (bootSector b').sectorSize := by
    unfold SuperBlock.sectorSize
    rw [hbits]
  have hcluster : (bootSector b).clusterSize = (bootSector b').clusterSize := by
    unfold SuperBlock.clusterSize
    rw [hsector, hspc]
  -- the sector is larger than the part in which the bytes lie
  have hbig : 0x71 ≤ (bootSector b').sectorSize := by
    have hnine := ((SuperBlock.formatError_eq_none _).1 hb.format).2.1
    rw [hbits] at hnine
    have hpow : 2 ^ 9 ≤ 2 ^ (bootSector b').sectorBits := Nat.pow_le_pow_right (by decide) hnine
    unfold SuperBlock.sectorSize
    omega
  refine ⟨?_, fun j hj => ?_, ?_⟩
  · have hformat := hb.format
    unfold SuperBlock.formatError at hformat ⊢
    rwa [← hname, ← hbits, ← hspc]
  · have hsum := hb.sums j (by rwa [hsector])
    rw [hsector, h.vbrChecksum hbig, h.readBytes (.inr (by omega))] at hsum
    exact hsum
  · have hvolume := hb.volume
    unfold SuperBlock.volumeError at hvolume ⊢
    rwa [← hmajor, ← hminor, ← hfats, ← hcount, ← hcluster]

/-- The superblock in memory and the medium, while a volume is mounted from a medium that held `b`.
-/
structure Marking (b : Store) (ef : Ef Faulty) : Prop where
  length : ef.sb.bytes.length = 512
  memory : ∀ a < 512, ¬ Unsummed a → b a = ef.sb.bytes.getD a 0
  device : SameSummed b ef.dev.bytes

/-- The superblock has been read from the medium. -/
theorem marking_of_mounted {ef : Ef Faulty} (h : ef.sb = bootSector ef.dev.bytes) :
    Marking ef.dev.bytes ef := by
  refine ⟨?_, fun a ha _ => ?_, fun _ _ => rfl⟩
  · rw [h, bootSector, length_readBytes]
  · rw [h, bootSector, getD_readBytes, if_pos ha, Nat.zero_add]

section Marking

variable {b : Store} {ef : Ef Faulty}

/-- A field at these places is set. -/
theorem Marking.setField (h : Marking b ef) (off k v : Nat) (hroom : off + k ≤ 512)
    (hplace : ∀ a, off ≤ a → a < off + k → Unsummed a) :
    Marking b { ef with sb := ef.sb.setField off k v } := by
  have hfit : off + (natLe k v).length ≤ ef.sb.bytes.length := by
    rw [length_natLe, h.length]
    exact hroom
  refine ⟨(length_patch hfit).trans h.length, fun a ha hsummed => ?_, h.device⟩
  show b a = (patch ef.sb.bytes off (natLe k v)).getD a 0
  rw [getD_patch hfit, if_neg, h.memory a ha hsummed]
  rw [length_natLe]
  exact fun hin => hsummed (hplace a hin.1 hin.2)

/-- The superblock is written, as far as the medium takes it. -/
theorem Marking.pwrite (h : Marking b ef) :
    Marking b { ef with dev := (Device.pwrite ef.sb.bytes 0 ef.dev).2 } := by
  refine ⟨h.length, h.memory, fun a hsummed => ?_⟩
  show b a = (Device.pwrite ef.sb.bytes 0 ef.dev).2.bytes a
  rw [Faulty.pwrite_bytes, writeBytes_apply]
  cases ef.dev.fault ef.dev.calls with
  | none =>
    rw [Option.elim_none]
    by_cases ha : 0 ≤ a ∧ a < 0 + ef.sb.bytes.length
    · rw [if_pos ha, Nat.sub_zero]
      exact h.memory a (by have := h.length; omega) hsummed
    · rw [if_neg ha]
      exact h.device a hsummed
  | some k =>
    rw [Option.elim_some]
    by_cases ha : 0 ≤ a ∧ a < 0 + (ef.sb.bytes.take k).length
    · rw [if_pos ha, Nat.sub_zero]
      rw [List.length_take] at ha
      have hlen := h.length
      rw [h.memory a (by omega) hsummed, List.getD_eq_getElem?_getD, List.getD_eq_getElem?_getD,
        List.getElem?_take_of_lt (by omega)]
    · rw [if_neg ha]
      exact h.device a hsummed

/-- A flush of the device leaves the bytes that are summed alone. -/
theorem Marking.fsync (h : Marking b ef) : Marking b { ef with dev := (Device.fsync ef.dev).2 } :=
  ⟨h.length, h.memory, h.device⟩

/-- `commit_super_block` leaves the bytes that are summed alone. -/
theorem Marking.commit (h : Marking b ef) :
    ∃ ok ef', commitSuperBlock ef = .ok ok ef' ∧ Marking b ef' := by
  unfold commitSuperBlock
  rw [run_bind_ok (run_get ef)]
  have hwrite : exfatPwrite ef.sb.bytes 0 ef = .ok (Device.pwrite ef.sb.bytes 0 ef.dev).1
      { ef with dev := (Device.pwrite ef.sb.bytes 0 ef.dev).2 } := rfl
  rw [run_bind_ok hwrite]
  have hmarking := h.pwrite
  cases (Device.pwrite ef.sb.bytes 0 ef.dev).1 with
  | none => exact ⟨false, _, rfl, hmarking.length, hmarking.memory, hmarking.device⟩
  | some n => exact ⟨_, _, rfl, hmarking.fsync⟩

/-- `exfat_soil_super_block` leaves the bytes that are summed alone. -/
theorem Marking.soil (h : Marking b ef) :
    ∃ ok ef', exfatSoilSuperBlock ef = .ok ok ef' ∧ Marking b ef' := by
  unfold exfatSoilSuperBlock
  rw [run_bind_ok (run_get ef)]
  by_cases hro : ef.ro = true
  · rw [if_pos hro]
    exact ⟨true, ef, rfl, h⟩
  · rw [if_neg hro, run_bind_ok (run_set _ _)]
    exact (h.setField 0x6a 2 _ (by decide) fun a h₁ h₂ => by unfold Unsummed; omega).commit

/-- `finalize_super_block` leaves the bytes that are summed alone. -/
theorem Marking.finalize (h : Marking b ef) :
    ∃ ef', finalizeSuperBlock ef = .ok ⟨⟩ ef' ∧ Marking b ef' := by
  have hstate : Marking b { ef with sb := clearedState ef.sb } :=
    h.setField 0x6a 2 _ (by decide) fun a h₁ h₂ => by unfold Unsummed; omega
  have hfinal : Marking b { ef with sb := finalSuperBlock ef } := by
    rcases finalSuperBlock_cases ef with heq | ⟨v, heq⟩
    · rw [heq]
      exact hstate
    · rw [heq]
      exact hstate.setField 0x70 1 v (by decide) fun a h₁ h₂ => by unfold Unsummed; omega
  unfold finalizeSuperBlock
  rw [run_bind_ok (run_get ef)]
  by_cases hro : ef.ro = true
  · rw [if_pos hro]
    exact ⟨ef, rfl, h⟩
  · obtain ⟨ok, ef', hrun, hmarking⟩ := hfinal.commit
    rw [if_neg hro, run_bind_ok (run_set _ _), run_bind_ok hrun]
    exact ⟨ef', rfl, hmarking⟩

/-- `set_volume_dirty` leaves the bytes that are summed alone. -/
theorem Marking.setDirty (h : Marking b ef) (dirty : Bool) :
    ∃ ok ef', setVolumeDirty dirty ef = .ok ok ef' ∧ Marking b ef' := by
  unfold setVolumeDirty
  rw [run_bind_ok (run_get ef)]
  by_cases hro : ef.ro = true
  · rw [if_pos hro]
    exact ⟨true, ef, rfl, h⟩
  · have hset := h.setField 0x6a 2
      (if dirty then ef.sb.volumeState ||| stateMounted else ef.sb.volumeState &&& 0xfffd)
      (by decide) fun a h₁ h₂ => by unfold Unsummed; omega
    generalize hsb : ef.sb.setField 0x6a 2
      (if dirty then ef.sb.volumeState ||| stateMounted else ef.sb.volumeState &&& 0xfffd) =
      sb at hset
    rw [if_neg hro, hsb, run_bind_ok (run_set _ _), run_bind_ok (run_get _)]
    have hwrite : exfatPwrite sb.bytes 0 { ef with sb := sb } =
      .ok (Device.pwrite sb.bytes 0 ef.dev).1
        { ef with sb := sb, dev := (Device.pwrite sb.bytes 0 ef.dev).2 } := rfl
    rw [run_bind_ok hwrite]
    have hmarking := hset.pwrite
    cases (Device.pwrite sb.bytes 0 ef.dev).1 with
    | none => exact ⟨false, _, rfl, hmarking⟩
    | some n => exact ⟨_, _, rfl, hmarking.fsync⟩

end Marking

/-- The routines that write the superblock of a mounted volume. -/
inductive SuperBlockWrite
  | soil
  | finalize
  | setDirty (dirty : Bool)

/-- One of them. -/
def SuperBlockWrite.run {δ : Type} [Device δ] : SuperBlockWrite → EfM δ PUnit
  | .soil => do
    let _ ← exfatSoilSuperBlock
    pure ⟨⟩
  | .finalize => finalizeSuperBlock
  | .setDirty dirty => do
    let _ ← setVolumeDirty dirty
    pure ⟨⟩

/-- One after the other. -/
def runWrites {δ : Type} [Device δ] : List SuperBlockWrite → EfM δ PUnit
  | [] => pure ⟨⟩
  | w :: ws => do
    w.run
    runWrites ws

/-- A write of the superblock leaves the bytes that are summed alone. -/
theorem Marking.run {b : Store} {ef : Ef Faulty} (h : Marking b ef) (w : SuperBlockWrite) :
    ∃ ef', w.run ef = .ok ⟨⟩ ef' ∧ Marking b ef' := by
  cases w with
  | soil =>
    obtain ⟨ok, ef', hrun, hmarking⟩ := h.soil
    refine ⟨ef', ?_, hmarking⟩
    show (exfatSoilSuperBlock >>= fun _ => pure PUnit.unit) ef = _
    rw [run_bind_ok hrun]
    rfl
  | finalize => exact h.finalize
  | setDirty dirty =>
    obtain ⟨ok, ef', hrun, hmarking⟩ := h.setDirty dirty
    refine ⟨ef', ?_, hmarking⟩
    show (setVolumeDirty dirty >>= fun _ => pure PUnit.unit) ef = _
    rw [run_bind_ok hrun]
    rfl

/-- Writes of the superblock leave the bytes that are summed alone. -/
theorem Marking.runWrites {b : Store} {ef : Ef Faulty} (h : Marking b ef)
    (ws : List SuperBlockWrite) : ∃ ef', runWrites ws ef = .ok ⟨⟩ ef' ∧ Marking b ef' := by
  induction ws generalizing ef with
  | nil => exact ⟨ef, rfl, h⟩
  | cons w ws ih =>
    obtain ⟨ef₁, hrun, h₁⟩ := h.run w
    obtain ⟨ef', hruns, h'⟩ := ih h₁
    refine ⟨ef', ?_, h'⟩
    unfold ExFat.runWrites
    rw [run_bind_ok hrun]
    exact hruns

/-! ### The checksum over the life of a volume -/

/-- The volume is accepted where every word of the last sector is the sum, or where the repair is
agreed to, which then stores the sum; the way the sectors are read makes no difference; and an
accepted boot region stays accepted while the volume is in use, even on a medium that fails. -/
theorem verifyVbrChecksum_sound :
    (∀ ef : Ef Flat, ∃ ok ef', verifyVbrChecksum ef = .ok ok ef' ∧
      (ok = true ↔ Summed ef.dev.bytes ef.sb.sectorSize ∨ ef.agrees = true) ∧
      (Summed ef.dev.bytes ef.sb.sectorSize ∨ ef.agrees = false → ef'.dev = ef.dev) ∧
      (¬ Summed ef.dev.bytes ef.sb.sectorSize → ef.agrees = true →
        ef'.dev = ⟨resummed ef.dev.bytes ef.sb.sectorSize, ef.dev.size⟩ ∧
        Summed ef'.dev.bytes ef.sb.sectorSize)) ∧
    (∀ ef₁ ef₂ : Ef Flat, 12 * ef₁.sb.sectorSize ≤ ef₁.sb.clusterSize →
      ef₂.sb.clusterSize < 12 * ef₂.sb.sectorSize → ef₁.sb.sectorSize = ef₂.sb.sectorSize →
      ef₁.dev = ef₂.dev → ef₁.agrees = ef₂.agrees →
      ∃ ok ef₁' ef₂', verifyVbrChecksum ef₁ = .ok ok ef₁' ∧ verifyVbrChecksum ef₂ = .ok ok ef₂' ∧
        ef₁'.dev = ef₂'.dev) ∧
    ∀ (ef : Ef Faulty) (ws : List SuperBlockWrite), ef.sb = bootSector ef.dev.bytes →
      Bootable ef.dev.bytes ef.dev.size →
      ∃ ef', runWrites ws ef = .ok ⟨⟩ ef' ∧ Bootable ef'.dev.bytes ef.dev.size := by
  refine ⟨fun ef => ?_, fun ef₁ ef₂ _ _ hsector hdev hagrees => ?_, fun ef ws hsb hboot => ?_⟩
  -- The result and the repair; then the two ways of reading; then the writes in use.
  · obtain ⟨ok, ef', hrun, hok, hsame, hrepaired⟩ := run_verifyVbrChecksum ef
    refine ⟨ok, ef', hrun, hok, hsame, fun hno hagrees => ?_⟩
    have hdev := hrepaired hno hagrees
    refine ⟨hdev, ?_⟩
    rw [hdev]
    exact summed_resummed _ _
  · obtain ⟨ok₁, ef₁', hrun₁, hok₁, hsame₁, hrepaired₁⟩ := run_verifyVbrChecksum ef₁
    obtain ⟨ok₂, ef₂', hrun₂, hok₂, hsame₂, hrepaired₂⟩ := run_verifyVbrChecksum ef₂
    rw [hdev, hsector, hagrees] at hok₁ hsame₁ hrepaired₁
    have hok : ok₁ = ok₂ := Bool.eq_iff_iff.2 (hok₁.trans hok₂.symm)
    subst hok
    refine ⟨ok₁, ef₁', ef₂', hrun₁, hrun₂, ?_⟩
    -- the sum is right, or the answer decides in the same way
    by_cases hsum : Summed ef₂.dev.bytes ef₂.sb.sectorSize
    · rw [hsame₁ (.inl hsum), hsame₂ (.inl hsum)]
    · cases hask : ef₂.agrees with
      | false => rw [hsame₁ (.inr hask), hsame₂ (.inr hask)]
      | true => rw [hrepaired₁ hsum hask, hrepaired₂ hsum hask]
  · obtain ⟨ef', hrun, hmarking⟩ := (marking_of_mounted hsb).runWrites ws
    exact ⟨ef', hrun, hboot.of_sameSummed hmarking.device⟩

/-- The card in the hands of a host that takes its clusters for larger ones, and the card in use. -/
theorem verifyVbrChecksum_sound_card :
    (∃ ok ef₁ ef₂, verifyVbrChecksum
        { dev := (⟨cardStore, 2 ^ 20⟩ : Flat), sb := cardBoot.setField 0x6d 1 4 } = .ok ok ef₁ ∧
      verifyVbrChecksum { dev := (⟨cardStore, 2 ^ 20⟩ : Flat), sb := cardBoot } = .ok ok ef₂ ∧
        ef₁.dev = ef₂.dev) ∧
    ∃ ef' : Ef Faulty, runWrites [.soil, .setDirty false, .finalize]
        { dev := ⟨withChecksum cardStore, 2 ^ 20, 0, fun _ => none⟩
          sb := bootSector (withChecksum cardStore) } =
        .ok ⟨⟩ ef' ∧ Bootable ef'.dev.bytes (2 ^ 20) := by
  constructor
  · exact verifyVbrChecksum_sound.2.1
      { dev := ⟨cardStore, 2 ^ 20⟩, sb := cardBoot.setField 0x6d 1 4 }
      { dev := ⟨cardStore, 2 ^ 20⟩, sb := cardBoot } (by decide +kernel)
      (by decide +kernel) (by decide +kernel)
      rfl rfl
  · exact verifyVbrChecksum_sound.2.2 { dev := ⟨withChecksum cardStore, 2 ^ 20, 0, fun _ => none⟩
                                        sb := bootSector (withChecksum cardStore) }
      [.soil, .setDirty false, .finalize] rfl bootable_cardStore

end ExFat
