import ExFat.Mkfs.Mounting

namespace ExFat.Mkfs

open ExFat Bytes Program

/-!
# Formatting on AmigaOS

`exfat_amiga_format` is the other front end of mkfs.  It differs from the one on the host in three
ways:

* the sector size is the block size of the device, 512 to 4096 bytes, where the host always has
  sectors of 512 bytes;
* the cluster size is always chosen, by a search that goes one step further;
* a label that does not fit is left out, where the host gives up.

The first of them decides whether the new volume can be mounted (`exfatAmigaFormat_mounts_iff`).
-/

variable {p : Param}

/-! ### `format.c` -/

/-- `logarithm2`. -/
def logarithm2 (n : Nat) : Option Nat := (List.range 31).find? fun i => 2 ^ i == n

/-- `choose_spc_bits`; `none` is its return of `-1`, or a cluster size that overflows an `int`. -/
def chooseSpcBits (sectorBits volumeSize : Nat) : Option Nat :=
  (autoSpcBits 32 sectorBits volumeSize).filter fun bits => sectorBits + bits < 31

/-- The label as `exfat_amiga_format` puts it into the parameters: one that does not fit is left
out. -/
def formatLabel (label : Option (List UInt8)) : List Nat :=
  match label with
  | none => labelArray []
  | some s =>
    if s.headD 0 = 0 then labelArray []
    else
      match exfatUtf8ToUtf16 s (enameMax + 1) with
      | .ok units => labelArray units
      | .error _ => labelArray []

/-- The parameters `exfat_amiga_format` hands to `mkfs`. -/
def formatParam (volumeSize blocksize firstbyte : Nat) (label : Option (List UInt8)) (serial : Nat)
    (upcaseTable : List UInt8) : Option Param := do
  let sectorBits ← logarithm2 blocksize
  if sectorBits < 9 ∨ sectorBits > 12 then none
  else do
    let bits ← chooseSpcBits sectorBits volumeSize
    some { sectorBits := sectorBits, spcBits := bits, volumeSize := volumeSize
           volumeLabel := formatLabel label, volumeSerial := serial
           firstSector := firstbyte / blocksize, upcaseTable := upcaseTable }

/-- `exfat_amiga_format` on an open device, with the number `make_serial` has formed. -/
def exfatAmigaFormat {δ : Type} [Device δ] (blocksize firstbyte : Nat) (label : Option (List UInt8))
    (serial : Nat) (upcaseTable : List UInt8) : MkM δ PUnit := do
  let s ← get
  match formatParam (Device.getSize s.dev) blocksize firstbyte label serial upcaseTable with
  | none => throw ()
  | some p => mkfs p

/-! ### The parameters -/

/-- `logarithm2` finds powers of two. -/
theorem logarithm2_some {n i : Nat} (h : logarithm2 n = some i) : n = 2 ^ i := by
  have hfound := List.find?_some h
  simp at hfound
  exact hfound.symm

/-- The cluster sizes that are chosen. -/
theorem chooseSpcBits_some {sectorBits size bits : Nat} (hsector : 9 ≤ sectorBits)
    (hle : sectorBits ≤ 12) (h : chooseSpcBits sectorBits size = some bits) :
    sectorBits + bits ≤ 30 ∧ size / (2 ^ sectorBits * 2 ^ bits) ≤ lastDataCluster := by
  unfold chooseSpcBits at h
  rw [Option.filter_eq_some_iff] at h
  obtain ⟨hauto, hlt⟩ := h
  have hbits : sectorBits + bits ≤ 30 := by
    simp at hlt
    omega
  refine ⟨hbits, ?_⟩
  rw [← pow_add]
  unfold autoSpcBits at hauto
  split at hauto
  -- small volumes have clusters of 4 KiB
  next hsmall =>
    cases hauto
    rw [show sectorBits + (12 - sectorBits) = 12 by omega]
    unfold lastDataCluster
    omega
  next =>
    split at hauto
    -- medium ones have clusters of 32 KiB
    next hmiddle =>
      cases hauto
      -- and for large ones the size is searched for
      rw [show sectorBits + (15 - sectorBits) = 15 by omega]
      unfold lastDataCluster
      omega
    next =>
      obtain ⟨i, hi, rfl⟩ := Option.map_eq_some_iff.mp hauto
      obtain ⟨h17, -, hfits⟩ := searchSpcBits_some hi
      rw [show sectorBits + (i - sectorBits) = i by omega]
      have hpos : 0 < 2 ^ i := Nat.two_pow_pos _
      rw [divRoundUp_le_iff hpos] at hfits
      exact Nat.div_le_of_le_mul (by rw [Nat.mul_comm]; exact hfits)

section Param

variable {size blocksize firstbyte serial : Nat} {label : Option (List UInt8)}
  {upcaseTable : List UInt8}

/-- The parameters that are taken from the drive and the label. -/
theorem formatParam_eq
    (h : formatParam size blocksize firstbyte label serial upcaseTable = some p) :
    blocksize = p.sectorSize ∧ 9 ≤ p.sectorBits ∧ p.sectorBits ≤ 12 ∧
      chooseSpcBits p.sectorBits size = some p.spcBits ∧ p.volumeSize = size ∧
      p.volumeLabel = formatLabel label ∧ p.upcaseTable = upcaseTable := by
  unfold formatParam at h
  obtain ⟨sectorBits, hlog, h⟩ := Option.bind_eq_some_iff.mp h
  split at h
  · cases h
  · obtain ⟨bits, hbits, h⟩ := Option.bind_eq_some_iff.mp h
    cases h
    exact ⟨logarithm2_some hlog, by dsimp only; omega, by dsimp only; omega, hbits, rfl, rfl, rfl⟩

/-- Parameters that pass the checks are feasible. -/
theorem feasible_of_formatParam
    (h : formatParam size blocksize firstbyte label serial upcaseTable = some p)
    (htable : upcaseTable.length = upcaseTableSize) (hcheck : p.checkSize = true) : Feasible p := by
  obtain ⟨-, h9, h12, hbits, hsize, -, htab⟩ := formatParam_eq h
  obtain ⟨h30, hlimit⟩ := chooseSpcBits_some h9 h12 hbits
  refine ⟨h9, h30, ?_, by rw [htab, htable], hcheck⟩
  unfold Param.clusterSize Param.sectorSize
  rw [hsize]
  exact hlimit

/-- The label is always one that `setup_volume_label` could have made. -/
theorem labelArray_formatLabel (label : Option (List UInt8)) : LabelArray (formatLabel label) := by
  have hnone : LabelArray (labelArray []) :=
    labelArray_of_setup (show setupVolumeLabel none = _ from rfl)
  cases label with
  | none => exact hnone
  | some s =>
    unfold formatLabel
    dsimp only
    split
    · exact hnone
    · cases hs : exfatUtf8ToUtf16 s (enameMax + 1) with
      | error e => exact hnone
      | ok units =>
        have hsetup : setupVolumeLabel (some s) = some (labelArray units) := by
          unfold setupVolumeLabel
          simp only [hs]
        exact labelArray_of_setup hsetup

end Param

/-! ### The mount -/

/-- A boot region whose sums are not in their place is refused. -/
theorem Feasible.run_exfatMount_unsummed (h : Feasible p) {b : Store} {t : Volume Flat}
    (hmalloc : ∀ k, t.ef.malloc k = true) (hrepair : t.ef.repair = .no)
    (hdev : t.ef.dev.bytes = image p b) (hsum : ¬ Summed (image p b) p.sectorSize) :
    wp exfatMount (fun r _ => r = .error .eio) anyStop t := by
  have hg := h.geometry
  by_cases hbits : p.sectorBits + p.spcBits ≤ 25
  -- clusters of more than 32 MiB are refused without a look at the checksum
  case neg => exact h.run_exfatMount_error hmalloc hdev hbits
  have hboot : (⟨readBytes t.ef.dev.bytes 0 512⟩ : SuperBlock) = p.initSb := by
    rw [hdev]
    exact h.sbAt_image b
  have hformat : p.initSb.formatError = none := by
    rw [SuperBlock.formatError_eq_none, hg.sectorBits, hg.spcBits]
    exact ⟨oemName_initSb p, h.sector, hbits⟩
  have hss : p.initSb.sectorSize = p.sectorSize := by
    unfold SuperBlock.sectorSize
    rw [hg.sectorBits]
    rfl
  -- with repairing switched off a bad checksum is an error
  have hverify : ∀ ef : Ef Flat, ef.dev = t.ef.dev → ef.sb = p.initSb → ef.repair = .no →
      ∃ ef', verifyVbrChecksum ef = .ok false ef' := by
    intro ef hd hsb hr
    obtain ⟨ok, ef', hrun, hok, -⟩ := run_verifyVbrChecksum ef
    have hagrees : ef.agrees = false := by
      unfold Ef.agrees
      rw [hr]
    rw [hd, hdev, hsb, hss, hagrees] at hok
    cases ok with
    | false => exact ⟨ef', hrun⟩
    | true =>
      obtain hyes | hno := hok.1 rfl
      · exact absurd hyes hsum
      · cases hno
  have hsuper : ∃ ef, mountSuperBlock t.ef = .ok (.error .eio) ef := by
    obtain ⟨ef', hrun⟩ :=
      hverify { t.ef with sb := p.initSb, ticks := t.ef.ticks + 1 + 1 } rfl rfl hrepair
    unfold mountSuperBlock
    rw [run_bind_ok (run_mallocOk _), hmalloc, if_neg (by decide),
      run_bind_ok (run_exfatPread _ _ _)]
    dsimp only
    rw [run_bind_ok (run_modify _ _), run_bind_ok (run_get _)]
    dsimp only
    rw [hboot, hformat]
    dsimp only
    rw [run_bind_ok (run_mallocOk _)]
    dsimp only
    rw [hmalloc, if_neg (by decide), run_bind_ok hrun]
    exact ⟨_, rfl⟩
  obtain ⟨ef, hsuper⟩ := hsuper
  unfold exfatMount
  rw [wp_bind]
  refine wp_of_ok (run_zoom_ok hsuper) ?_
  rw [wp_bind]
  refine wp_of_forall (fun _ _ => ?_) fun _ _ => trivial
  exact (wp_pure _).2 rfl

section Format

variable {blocksize firstbyte serial : Nat} {label : Option (List UInt8)} {upcaseTable : List UInt8}
  {s s' : MkState Flat} {t : Volume Flat}

/-- The volume a successful run leaves. -/
theorem exfatAmigaFormat_ok (htable : upcaseTable.length = upcaseTableSize)
    (h : exfatAmigaFormat blocksize firstbyte label serial upcaseTable s = .ok ⟨⟩ s') :
    ∃ p, formatParam s.dev.size blocksize firstbyte label serial upcaseTable = some p ∧ Feasible p ∧
      s'.dev = { s.dev with bytes := image p s.dev.bytes } := by
  unfold exfatAmigaFormat at h
  rw [run_bind_ok (run_get s)] at h
  have hsize : Device.getSize s.dev = s.dev.size := rfl
  rw [hsize] at h
  cases hp : formatParam s.dev.size blocksize firstbyte label serial upcaseTable with
  | none =>
    rw [hp] at h
    cases h
  | some p =>
    rw [hp] at h
    rcases mkfs_run p s with ⟨s₁, hrun, hcheck, hdev⟩ | ⟨-, s₁, hrun⟩
    · have heq : s₁ = s' := by
        have h' := hrun.symm.trans h
        injection h'
      subst heq
      exact ⟨p, rfl, feasible_of_formatParam hp htable hcheck, hdev⟩
    · have h' := hrun.symm.trans h
      cases h'

/-- The volume that a successful run of `exfat_amiga_format` leaves is mounted if and only if its
clusters are not larger than 32 MB, its sectors have 512 bytes or the sum over the boot region is
zero, and the surrogates in its label are paired.  What is mounted then is what was asked for. -/
theorem exfatAmigaFormat_mounts_iff (htable : upcaseTable.length = upcaseTableSize)
    (h : exfatAmigaFormat blocksize firstbyte label serial upcaseTable s = .ok ⟨⟩ s')
    (hdev : t.ef.dev = s'.dev) (ht : Unmounted t) (hrepair : t.ef.repair = .no) :
    ∃ p, formatParam s.dev.size blocksize firstbyte label serial upcaseTable = some p ∧
      ((∃ t', exfatMount t = .ok (.ok ()) t') ↔ p.sectorBits + p.spcBits ≤ 25 ∧
        (blocksize = 512 ∨ p.vbrChecksum = 0) ∧ paired (nameString (formatLabel label)) = true) ∧
      ∀ t', exfatMount t = .ok (.ok ()) t' → ∃ text, p.labelText = .ok text ∧
        NewVolume p text t t' := by
  obtain ⟨p, hp, hf, hdev'⟩ := exfatAmigaFormat_ok htable h
  obtain ⟨hblock, h9, h12, hbits, hsize, hlabel, -⟩ := formatParam_eq hp
  have hl : LabelArray p.volumeLabel := hlabel ▸ labelArray_formatLabel label
  have hbytes : t.ef.dev = ⟨image p s.dev.bytes, p.volumeSize⟩ := by
    rw [hdev, hdev', hsize]
  have hi := hf.onImage ht (congrArg Flat.bytes hbytes)
  have h512 : blocksize = 512 ↔ p.sectorBits = 9 := by
    rw [hblock]
    unfold Param.sectorSize
    constructor
    · intro heq
      exact Nat.pow_right_injective le_rfl heq
    · intro heq
      rw [heq]
      norm_num
  -- the boot region first, then the label
  have hboot : ∀ {t'}, exfatMount t = .ok (.ok ()) t' →
      Bootable (image p s.dev.bytes) p.volumeSize := by
    intro t' hmount
    rw [hf.bootable_image_iff]
    by_cases hle : p.sectorBits + p.spcBits ≤ 25
    · refine ⟨hle, ?_⟩
      rw [← hf.summed_image_iff s.dev.bytes]
      by_contra hsum
      cases wp_anyStop_iff.1
        (hf.run_exfatMount_unsummed ht.malloc hrepair (congrArg Flat.bytes hbytes) hsum) _ _ hmount
    · cases wp_anyStop_iff.1 (hf.run_exfatMount_error ht.malloc (congrArg Flat.bytes hbytes) hle)
        _ _ hmount
  have htext : ∀ {t'}, exfatMount t = .ok (.ok ()) t' → ∃ text, p.labelText = .ok text := by
    intro t' hmount
    cases hread : p.labelText with
    | ok text => exact ⟨text, rfl⟩
    | error e =>
      rw [exfatMount_image ht (hboot hmount) hbytes] at hmount
      cases wp_anyStop_iff.1 (hf.wp_mountRoot_error hi hl hread) _ _ hmount
  refine ⟨p, hp, ?_, fun t' hmount => ?_⟩
  · rw [h512, ← and_assoc, ← hf.bootable_image_iff s.dev.bytes, ← hlabel, ← labelText_ok_iff hl]
    constructor
    · rintro ⟨t', hmount⟩
      exact ⟨hboot hmount, htext hmount⟩
    · rintro ⟨hb, text, hread⟩
      obtain ⟨t', hmount, -⟩ := hf.exists_mount ht hb hbytes hl hread
      exact ⟨t', hmount⟩
  · obtain ⟨text, hread⟩ := htext hmount
    obtain ⟨t'', hrun, hnew⟩ := hf.exists_mount ht (hboot hmount) hbytes hl hread
    have heq : t'' = t' := by
      injection hrun.symm.trans hmount
    exact ⟨text, hread, heq ▸ hnew⟩

/-- The parameters for a volume of a megabyte. -/
def megabyteParam (sectorBits : Nat) : Param where
  sectorBits := sectorBits
  spcBits := 12 - sectorBits
  volumeSize := 2 ^ 20
  volumeLabel := labelArray []
  volumeSerial := 1
  firstSector := 0
  upcaseTable := List.replicate upcaseTableSize 0

/-- A drive of a megabyte can be formatted. -/
theorem exfatAmigaFormat_megabyte {p : Param}
    (hp : formatParam (2 ^ 20) blocksize 0 none 1 (List.replicate upcaseTableSize 0) = some p)
    (hcheck : p.checkSize = true) :
    ∃ s', exfatAmigaFormat blocksize 0 none 1 (List.replicate upcaseTableSize 0)
      (blankDevice (2 ^ 20)) =
      .ok ⟨⟩ s' := by
  rcases mkfs_run p (blankDevice (2 ^ 20)) with ⟨s', hrun, -, -⟩ | ⟨hbad, -⟩
  · refine ⟨s', ?_⟩
    unfold exfatAmigaFormat
    rw [run_bind_ok (run_get _)]
    have hsize : Device.getSize (blankDevice (2 ^ 20)).dev = 2 ^ 20 := rfl
    rw [hsize, hp]
    exact hrun
  · rcases hbad with hbad | ⟨k, hk⟩
    · rw [hcheck] at hbad
      cases hbad
    · cases hk

/-- A megabyte formatted on a drive with blocks of 512 bytes is mounted; on one with blocks of 1024
bytes it is refused. -/
theorem exfatAmigaFormat_mounts_megabyte :
    (∃ s' t', exfatAmigaFormat 512 0 none 1 (List.replicate upcaseTableSize 0)
      (blankDevice (2 ^ 20)) =
      .ok ⟨⟩ s' ∧ exfatMount (unmountedVolume s'.dev) = .ok (.ok ()) t') ∧
    ∃ s', exfatAmigaFormat 1024 0 none 1 (List.replicate upcaseTableSize 0) (blankDevice (2 ^ 20)) =
      .ok ⟨⟩ s' ∧ ¬ ∃ t', exfatMount (unmountedVolume s'.dev) = .ok (.ok ()) t' := by
  have hsmall : formatParam (2 ^ 20) 512 0 none 1 (List.replicate upcaseTableSize 0) =
      some (megabyteParam 9) := rfl
  have hlarge : formatParam (2 ^ 20) 1024 0 none 1 (List.replicate upcaseTableSize 0) =
      some (megabyteParam 10) := rfl
  have hsum : (megabyteParam 10).vbrChecksum ≠ 0 := by
    have hlong : 0x70 < ((summedPieces (megabyteParam 10)).take 0x71).length := by decide +kernel
    rw [vbrChecksum_summedPieces, ← List.take_append_drop 0x71 (summedPieces _),
      vbrStartChecksum_append hlong]
    decide +kernel
  obtain ⟨s₁, hrun₁⟩ := exfatAmigaFormat_megabyte hsmall (by decide +kernel)
  obtain ⟨s₂, hrun₂⟩ := exfatAmigaFormat_megabyte hlarge (by decide +kernel)
  constructor
  -- blocks of 512 bytes
  · obtain ⟨p, hp, hiff, -⟩ := exfatAmigaFormat_mounts_iff (List.length_replicate ..) hrun₁ rfl
      (unmounted_unmountedVolume s₁.dev) rfl
    cases hsmall.symm.trans hp
    obtain ⟨t', hmount⟩ := hiff.2 ⟨by decide, .inl rfl, by decide⟩
    exact ⟨s₁, t', hrun₁, hmount⟩
  -- and of 1024 bytes
  · obtain ⟨p, hp, hiff, -⟩ := exfatAmigaFormat_mounts_iff (List.length_replicate ..) hrun₂ rfl
      (unmounted_unmountedVolume s₂.dev) rfl
    cases hlarge.symm.trans hp
    refine ⟨s₂, hrun₂, fun hmount => ?_⟩
    obtain ⟨-, h512 | hzero, -⟩ := hiff.1 hmount
    · exact absurd h512 (by decide)
    · exact hsum hzero

end Format

end ExFat.Mkfs
