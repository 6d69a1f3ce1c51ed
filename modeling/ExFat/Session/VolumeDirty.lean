import ExFat.Session.Unmount

namespace ExFat

open Program Bytes

/-!
# The volume-dirty flag at unmount

While a volume is mounted for writing `EXFAT_STATE_MOUNTED` is set in the superblock on the medium,
so that the next host checks a volume that was not unmounted.  `exfat_unmount` clears it, whether
the write-back before has worked or not.
-/

/-! ### The superblock that is written -/

/-- `EXFAT_STATE_MOUNTED` is set in the superblock on the medium. -/
def Faulty.marked (d : Faulty) : Bool := (d.bytes 0x6a).toNat.testBit 1

/-- Clearing the flag leaves bit 1 clear in the low byte of the state. -/
theorem testBit_cleared (v : Nat) :
    ((natLe 2 (v &&& 0xfffd)).getD 0 0).toNat.testBit 1 = false := by
  show (UInt8.ofNat (v &&& 0xfffd)).toNat.testBit 1 = false
  rw [UInt8.toNat_ofNat', Nat.testBit_mod_two_pow, Nat.testBit_and]
  have : Nat.testBit 0xfffd 1 = false := by decide
  rw [this, Bool.and_false, Bool.and_false]

section FinalSuperBlock

variable {δ : Type} {ef : Ef δ}

/-- The superblock with the flag cleared. -/
def clearedState (sb : SuperBlock) : SuperBlock := sb.setField 0x6a 2 (sb.volumeState &&& 0xfffd)

/-- The superblock keeps its length. -/
theorem length_clearedState {sb : SuperBlock} (h : sb.bytes.length = 512) :
    (clearedState sb).bytes.length = 512 := by
  unfold clearedState
  rw [SuperBlock.length_setField _ _ (by omega), h]

/-- Finalizing clears the flag and sets at most one byte more. -/
theorem finalSuperBlock_cases (ef : Ef δ) :
    finalSuperBlock ef = clearedState ef.sb ∨
      ∃ v, finalSuperBlock ef = (clearedState ef.sb).setField 0x70 1 v := by
  unfold finalSuperBlock clearedState
  dsimp only
  split
  · exact .inr ⟨_, rfl⟩
  · exact .inl rfl

/-- The superblock keeps its length. -/
theorem length_finalSuperBlock (h : ef.sb.bytes.length = 512) :
    (finalSuperBlock ef).bytes.length = 512 := by
  have hcl := length_clearedState h
  rcases finalSuperBlock_cases ef with heq | ⟨v, heq⟩
  · rw [heq, hcl]
  · rw [heq, SuperBlock.length_setField _ _ (by omega), hcl]

/-- The byte with the flag, in the superblock `finalize_super_block` writes. -/
theorem flag_finalSuperBlock (h : ef.sb.bytes.length = 512) :
    ((finalSuperBlock ef).bytes.getD 0x6a 0).toNat.testBit 1 = false := by
  have hcl : ((clearedState ef.sb).bytes.getD 0x6a 0).toNat.testBit 1 = false := by
    unfold clearedState SuperBlock.setField
    rw [getD_patch (by rw [length_natLe]; omega), if_pos (by rw [length_natLe]; omega)]
    exact testBit_cleared _
  rcases finalSuperBlock_cases ef with heq | ⟨v, heq⟩
  · rw [heq]
    exact hcl
  · rw [heq]
    unfold SuperBlock.setField
    rw [getD_patch (by rw [length_natLe, length_clearedState h]; omega), if_neg (by omega)]
    exact hcl

end FinalSuperBlock

/-! ### What becomes of the flag -/

/-- A write that fails stores a part of its data. -/
theorem Faulty.pwrite_bytes (data : List UInt8) (offset : Nat) (d : Faulty) :
    (Device.pwrite data offset d).2.bytes =
      writeBytes d.bytes offset ((d.fault d.calls).elim data data.take) := by
  unfold Device.pwrite instDeviceFaulty
  dsimp only
  cases d.fault d.calls <;> rfl

/-- The write of the superblock reaches the flag unless it fails before. -/
def ReachesFlag (fault : Option Nat) : Prop := ∀ k, fault = some k → 0x6a < k

instance (fault : Option Nat) : Decidable (ReachesFlag fault) :=
  match fault with
  | none => isTrue fun _ h => by cases h
  | some k =>
    if h : 0x6a < k then isTrue fun _ hk => by cases hk; exact h
    else isFalse fun hr => h (hr k rfl)

/-- The flag is cleared when the write reaches it. -/
theorem marked_after_final {ef : Ef Faulty} (h : ef.sb.bytes.length = 512) {d : Faulty}
    (hd : d.marked = true) :
    (Device.pwrite (finalSuperBlock ef).bytes 0 d).2.marked = false ↔
      ReachesFlag (d.fault d.calls) := by
  have hlen := length_finalSuperBlock h
  have hflag := flag_finalSuperBlock h
  unfold Faulty.marked
  rw [Faulty.pwrite_bytes]
  cases d.fault d.calls with
  | none =>
    rw [Option.elim_none, writeBytes_apply, if_pos (by omega)]
    exact ⟨fun _ _ hk => (nomatch hk), fun _ => hflag⟩
  | some k =>
    rw [Option.elim_some, writeBytes_apply, List.length_take]
    by_cases hk : 0x6a < k
    · rw [if_pos (by omega)]
      have htake : ((finalSuperBlock ef).bytes.take k).getD 0x6a 0 =
          (finalSuperBlock ef).bytes.getD 0x6a 0 := by
        simp only [List.getD_eq_getElem?_getD, List.getElem?_take, hk, if_true]
      rw [Nat.sub_zero, htake]
      exact ⟨fun _ j hj => by cases hj; exact hk, fun _ => hflag⟩
    · rw [if_neg (by omega)]
      constructor
      · intro hno
        unfold Faulty.marked at hd
        rw [hd] at hno
        cases hno
      · intro hr
        exact absurd (hr k rfl) hk

/-- What finalizing does to the flag on the medium. -/
theorem finalizeSuperBlock_marked {ef ef' : Ef Faulty} (h : finalizeSuperBlock ef = .ok ⟨⟩ ef') :
    (ef.ro = true → ef'.dev.marked = ef.dev.marked) ∧
      (ef.ro = false →
        ef'.dev.marked = (Device.pwrite (finalSuperBlock ef).bytes 0 ef.dev).2.marked) := by
  obtain ⟨ef'', hrun, hro, hrw⟩ := finalizeSuperBlock_ok ef
  rw [h] at hrun
  cases hrun
  constructor
  · intro hr
    rw [hro hr]
  · intro hr
    rcases hrw hr with hdev | hdev
    · rw [hdev]
    · rw [hdev]
      rfl

/-! ### Is the flag honest? -/

variable {t t₁ : Volume Faulty} {f : Forest NodeId}

/-- If `exfat_unmount` clears the flag on the medium, the entries of every dirty node and the dirty
bitmap were written before. -/
def FlagHonest (t : Volume Faulty) (f : Forest NodeId) : Prop :=
  ∀ t₁, writeBack t = .ok ⟨⟩ t₁ → t₁.ef.dev.marked = true →
    (finalState (exfatUnmount t)).ef.dev.marked = false →
    (∀ i ∈ f.postOrder, t₁.dirty i = false) ∧ t₁.ef.cmap.dirty = false

/-- When the nodes are saved and the bitmap still has to be written, and that fails, the write of
the superblock fails before it reaches the flag. -/
def FailsBoth (t : Volume Faulty) (f : Forest NodeId) : Prop :=
  ∀ t', Saves t f t' → UsedPrintable t f → t.ef.ro = false → t'.ef.cmap.dirty = true →
    (t'.ef.dev.fault t'.ef.dev.calls).isSome = true → (bitmapWrite t'.ef).2.marked = true →
    ¬ ReachesFlag (t'.ef.dev.fault (t'.ef.dev.calls + 1))

/-- The write of the bitmap is one call of the device. -/
theorem bitmapWrite_eq (ef : Ef Faulty) :
    ((bitmapWrite ef).1 = none ↔ (ef.dev.fault ef.dev.calls).isSome = true) ∧
      (bitmapWrite ef).2.fault = ef.dev.fault ∧ (bitmapWrite ef).2.calls = ef.dev.calls + 1 := by
  have hrun : bitmapWrite ef = match ef.dev.fault ef.dev.calls with
      | none => (some (bitmapBytes ef).length, { ef.dev with
          bytes := writeBytes ef.dev.bytes (clusterOffset ef.sb ef.cmap.startCluster)
            (bitmapBytes ef)
          calls := ef.dev.calls + 1 })
      | some k => (none, { ef.dev with
          bytes := writeBytes ef.dev.bytes (clusterOffset ef.sb ef.cmap.startCluster)
            ((bitmapBytes ef).take k)
          calls := ef.dev.calls + 1 }) := rfl
  rw [hrun]
  cases ef.dev.fault ef.dev.calls with
  | none => simp
  | some k => simp

/-- The bitmap is dirty after the last try to write it exactly if it was and the try has failed. -/
theorem lastFlush_dirty {ef ef₁ : Ef Faulty} {r : Rc} (h : exfatFlush ef = .ok r ef₁) :
    ef₁.cmap.dirty = true ↔ ef.cmap.dirty = true ∧ (ef.dev.fault ef.dev.calls).isSome = true := by
  cases hd : ef.cmap.dirty with
  | false =>
    rw [exfatFlush_clean hd] at h
    cases h
    simp [hd]
  | true =>
    rw [exfatFlush_write hd ((exfatFlush_ok h).2.1 hd)] at h
    rw [← (bitmapWrite_eq ef).1]
    cases hw : (bitmapWrite ef).1 with
    | none =>
      rw [hw] at h
      cases h
      simp [hd]
    | some k =>
      rw [hw] at h
      cases h
      simp

/-- A dirty bitmap is written with one call of the device. -/
theorem lastFlush_dev {ef ef₁ : Ef Faulty} {r : Rc} (h : exfatFlush ef = .ok r ef₁)
    (hd : ef.cmap.dirty = true) : ef₁.dev = (bitmapWrite ef).2 := by
  rw [exfatFlush_write hd ((exfatFlush_ok h).2.1 hd)] at h
  cases hw : (bitmapWrite ef).1 with
  | none =>
    rw [hw] at h
    cases h
    rfl
  | some k =>
    rw [hw] at h
    cases h
    rfl

/-- The flag after an unmount that has got as far as `t₁`. -/
theorem marked_exfatUnmount (h : Mounted t f) (hsb : t.ef.sb.bytes.length = 512)
    (hwb : writeBack t = .ok ⟨⟩ t₁) (hmark : t₁.ef.dev.marked = true) :
    (finalState (exfatUnmount t)).ef.dev.marked = false ↔
      ((∀ i ∈ f.postOrder, t₁.dirty i = false) ∧ UsedPrintable t₁ f) ∧ t₁.ef.ro = false ∧
        ReachesFlag (t₁.ef.dev.fault t₁.ef.dev.calls) := by
  have hsame := sameTree_writeBack h hwb
  have hsb₁ : t₁.ef.sb.bytes.length = 512 := by
    have : t₁.ef.sb = t.ef.sb := by rw [hsame.ef]
    rw [this]
    exact hsb
  rw [exfatUnmount_eq, run_bind_ok hwb]
  -- The flag is cleared when the volume is dropped and the superblock written.
  rcases dropVolume_spec (h.sameTree hsame) with ⟨hclean, hu, ef', t₂, hfin, hrun, hdev,
      -⟩ | ⟨hno, e, t₂, hrun, hef⟩
  · have hm : (finalState (dropVolume t₁)).ef.dev.marked = ef'.dev.marked := by
      rw [hrun, ← hdev]
      rfl
    obtain ⟨hro, hrw⟩ := finalizeSuperBlock_marked hfin
    rw [hm]
    -- on a read-only volume the superblock is not written
    cases hr : t₁.ef.ro with
    | true => simp [hro hr, hmark]
    | false =>
      rw [hrw hr, marked_after_final hsb₁ hmark]
      exact ⟨fun hreach => ⟨⟨hclean, hu⟩, rfl, hreach⟩, fun h => h.2.2⟩
  -- the source has stopped in between, and the flag stands
  · have hm : (finalState (dropVolume t₁)).ef.dev.marked = true := by
      rw [hrun]
      show t₂.ef.dev.marked = true
      rw [hef]
      exact hmark
    rw [hm]
    exact ⟨fun h => (nomatch h), fun h => absurd h.1 hno⟩

/-- **The flag is honest** exactly if a failure to write the bitmap is followed by one to write the
superblock. -/
theorem flagHonest_iff (h : Mounted t f) (hsb : t.ef.sb.bytes.length = 512) :
    FlagHonest t f ↔ FailsBoth t f := by
  constructor
  -- Suppose the bitmap could not be written and the superblock could be.
  · intro hh t' hs hu hro hd hfail hmark hreach
    obtain ⟨t₁, hwb, hsame, hclean, r, hlast⟩ := writeBack_of_saves h hs
    obtain ⟨ef₁, hflush, ht₁⟩ := run_onVolume_eq_ok hlast
    have hef₁ : t₁.ef = ef₁ := by rw [ht₁]
    have hdev : t₁.ef.dev = (bitmapWrite t'.ef).2 := by rw [hef₁, lastFlush_dev hflush hd]
    obtain ⟨-, hfault, hcalls⟩ := bitmapWrite_eq t'.ef
    have hmark₁ : t₁.ef.dev.marked = true := by rw [hdev, hmark]
    have hcleared := (marked_exfatUnmount h hsb hwb hmark₁).mpr
      ⟨⟨hclean, (UsedPrintable.sameTree h hsame).mpr hu⟩, hsame.ro.trans hro, by
        rw [hdev, hfault, hcalls]
        exact hreach⟩
    have hstill : t₁.ef.cmap.dirty = true := by
      rw [hef₁]
      exact (lastFlush_dirty hflush).mpr ⟨hd, hfail⟩
    -- then the flag is clear and the bitmap is dirty, which an honest flag excludes
    rw [(hh t₁ hwb hmark₁ hcleared).2] at hstill
    cases hstill
  -- Suppose the flag is clear; then the superblock has been written.
  · intro hb t₁ hwb hmark hfinal
    obtain ⟨⟨hclean, hu⟩, hro, hreach⟩ := (marked_exfatUnmount h hsb hwb hmark).mp hfinal
    have hsame := sameTree_writeBack h hwb
    refine ⟨hclean, ?_⟩
    obtain ⟨t', hs, r, hlast⟩ := saves_of_writeBack h hwb hclean
    obtain ⟨ef₁, hflush, ht₁⟩ := run_onVolume_eq_ok hlast
    have hef₁ : t₁.ef = ef₁ := by rw [ht₁]
    -- a bitmap that is still dirty has failed in the last flush
    by_contra hdirty
    have hd₁ : ef₁.cmap.dirty = true := by
      rw [← hef₁]
      simpa using hdirty
    obtain ⟨hd, hfail⟩ := (lastFlush_dirty hflush).mp hd₁
    have hdev : t₁.ef.dev = (bitmapWrite t'.ef).2 := by rw [hef₁, lastFlush_dev hflush hd]
    obtain ⟨-, hfault, hcalls⟩ := bitmapWrite_eq t'.ef
    refine hb t' hs ((UsedPrintable.sameTree h hsame).mp hu) (hsame.ro.symm.trans hro) hd hfail
      (hdev ▸ hmark) ?_
    rw [hdev, hfault, hcalls] at hreach
    exact hreach

/-- A volume whose bitmap is dirty, on a card that fails the calls `fault` names. -/
def bitmapDirty (fault : Nat → Option Nat) : Volume Faulty :=
  { ef := {
      dev := ⟨fun a => if a = 0x6a then 2 else 0, 2 ^ 20, 0, fault⟩
      sb := smallSb
      cmap := { startCluster := 2, size := 16, chunkSize := 16, present := true, dirty := true } }
    heap := fun i => if i = 0 then some { smallRoot with child := [], first := none } else none
    root := 0
    fresh := 1 }

/-- The volume is mounted with its root alone. -/
theorem mounted_bitmapDirty (fault : Nat → Option Nat) : Mounted (bitmapDirty fault) .nil where
  fits := trivial
  spliced := trivial
  first _ h := by
    cases h
    rfl
  root := ⟨_, rfl, rfl, rfl, by decide, rfl⟩
  nodup := List.nodup_singleton _
  bound := fun i hi => List.mem_singleton.mp hi ▸ Nat.zero_lt_one
  refs := fun i hi => (nomatch hi)

/-- On a card that fails every call the flag stays set. -/
theorem flagHonest_everyCallFails : FlagHonest (bitmapDirty fun _ => some 0) .nil := by
  refine (flagHonest_iff (mounted_bitmapDirty _) (by decide +kernel)).mpr ?_
  intro t' hs _ _ _ _ _ hreach
  obtain rfl : t' = bitmapDirty fun _ => some 0 := hs.saved
  exact absurd (hreach 0 rfl) (by decide)

/-- A card that fails the write of the bitmap and none after it. -/
def bitmapLost : Volume Faulty := bitmapDirty fun k => if k = 0 then some 0 else none

/-- Every node is saved, the bitmap is not, and the flag is cleared all the same. -/
theorem flag_not_honest : Mounted bitmapLost .nil ∧ ¬ FlagHonest bitmapLost .nil := by
  refine ⟨mounted_bitmapDirty _, fun hh => ?_⟩
  have hwb : endsWith (fun t : Volume Faulty => t.ef.dev.marked && t.ef.cmap.dirty)
      (writeBack bitmapLost) = true := by decide +kernel
  have hend : (finalState (exfatUnmount bitmapLost)).ef.dev.marked = false := by decide +kernel
  obtain ⟨⟨⟩, t₁, hrun, hp⟩ := of_endsWith hwb
  obtain ⟨hmark, hdirty⟩ := Bool.and_eq_true_iff.mp hp
  rw [(hh t₁ hrun hmark hend).2] at hdirty
  cases hdirty

end ExFat
