import ExFat.Amiga.Faults
import ExFat.Fs.Mount

namespace ExFat

open Bytes Program

/-!
# Is the medium in the slot the one that is mounted?

`same_volume` reads the boot sector again and compares it with the superblock in memory.  The read
is of 512 bytes from the start of the partition.  When the blocks of the device are no larger than
that, it goes to the device.  When they are larger it is a part of a block, and if the bounce buffer
is said to hold that block the device is not asked: the answer is about the medium the block came
from, or about a block that was taken through the buffer since.
-/

variable {d d' : AmigaDev}

/-- The comparison of `same_volume`. -/
def SuperBlock.sameVolume (sb old : SuperBlock) : Bool :=
  sb.oemName = oemExfat && sb.volumeSerial = old.volumeSerial && sb.sectorBits = old.sectorBits &&
    sb.spcBits = old.spcBits && sb.clusterCount = old.clusterCount &&
    sb.rootdirCluster = old.rootdirCluster

/-- `same_volume`; `mounted` and `old` are the handler's `mounted` and `ef.sb`, `addr` is the
address of the local buffer. -/
def sameVolume (mounted : Bool) (old : Option SuperBlock) (addr : Nat) : DevM Bool := fun d =>
  match mounted, old with
  | true, some old =>
    match amigaPread addr 512 0 d with
    | .ok r d' => .ok (r.1 = 512 && (SuperBlock.mk r.2).sameVolume old) d'
    | .error _ d' => .ok false d'
  | _, _ => .ok false d

/-! ### One call -/

/-- Blocks of up to 512 bytes divide the boot sector. -/
theorem block_dvd (ho : Opened d) (hle : d.blocksize ≤ 512) : 512 % d.blocksize = 0 := by
  obtain ⟨k, hk⟩ := ho.block
  have hk9 : k ≤ 9 := by
    by_contra hgt
    have hpow : 2 ^ 10 ≤ 2 ^ k := Nat.pow_le_pow_right (by decide) (by omega)
    omega
  rw [hk]
  exact Nat.mod_eq_zero_of_dvd (Nat.pow_dvd_pow 2 hk9)

/-- The boot block is a block. -/
theorem firstbyte_ne_noBlock (ho : Opened d) (hgt : 512 < d.blocksize) : d.firstbyte ≠ noBlock := by
  obtain ⟨k, hk⟩ := ho.block
  have hk0 : k ≠ 0 := by
    rintro rfl
    omega
  have hdvd : 2 ∣ d.blocksize := by
    rw [hk]
    exact dvd_pow_self 2 hk0
  have heven : 2 ∣ d.firstbyte := hdvd.trans (Nat.dvd_of_mod_eq_zero ho.aligned)
  unfold noBlock
  omega

/-- The boot sector that `partition_io` returns is that of the medium in the slot, when the blocks
are small or the bounce buffer is in step with the medium. -/
theorem partitionRead_boot (ho : Opened d) (hf : 512 < d.blocksize → Fresh d) (addr : Nat) :
    wp (partitionRead addr 512 d.firstbyte)
      (fun bytes _ => ∃ b, d.medium = some b ∧ bytes = readBytes b d.firstbyte 512) anyStop d := by
  have hbs := ho.blocksize_pos
  have hand := ho.and_blockmask d.firstbyte
  rw [ho.aligned] at hand
  -- the boot sector begins a block, so there is no head
  have hhead : d.headLen d.firstbyte 512 = 0 := by
    unfold AmigaDev.headLen
    rw [if_neg (by omega)]
  unfold partitionRead
  simp only [wp_bind, wp_get]
  rw [hhead]
  simp only [readIf, hand, Nat.sub_zero, Nat.add_zero, ne_eq, not_true_eq_false, if_false, wp_pure]
  by_cases hle : d.blocksize ≤ 512
  · -- whole blocks, straight from the medium
    have hmid : d.middleLen 512 = 512 := by
      unfold AmigaDev.middleLen
      rw [ho.and_blockmask, block_dvd ho hle, if_pos hle]
    rw [hmid, if_pos hle]
    unfold alignedRead
    simp only [wp_bind, wp_get, Nat.sub_self, gt_iff_lt, Nat.lt_irrefl, if_false]
    refine wp_mono (alignedReadLoop_wp ho (512 / d.blocksize) addr 512 d.firstbyte (Nat.le_refl _)
      (block_dvd ho hle)) ?_ (fun _ _ _ => trivial)
    rintro bytes d₁ ⟨-, -, hread⟩
    obtain ⟨b, hmed, hbytes⟩ := hread (by decide)
    refine ⟨b, hmed, ?_⟩
    rw [hbytes, List.nil_append, List.append_nil]
  · -- a part of the first block, from the buffer
    have hmid : d.middleLen 512 = 0 := by
      unfold AmigaDev.middleLen
      rw [if_neg (by omega)]
    have hpart : wp (readPart d.firstbyte 0 512) (fun bytes d' => Fetched d d.firstbyte d' ∧
        bytes = (d'.bounce.drop 0).take 512 ∧ bytes.length = 512) (fun _ d' => GaveUp d d') d :=
      readPart_wp ho d.firstbyte (by omega)
    rw [hmid, if_neg (by omega)]
    simp only [wp_pure, Nat.sub_zero, Nat.add_zero]
    rw [if_pos (by decide)]
    refine wp_mono hpart ?_ (fun _ _ _ => trivial)
    rintro bytes d₁ ⟨hfetch, hbytes, -⟩
    have hne : d₁.bounceLba ≠ noBlock := by
      rw [hfetch.lba]
      exact firstbyte_ne_noBlock ho (by omega)
    obtain ⟨b, hmed, hbounce⟩ := hfetch.fresh (hf (by omega)) hne
      (by rw [hfetch.lba, hfetch.same.firstbyte])
    refine ⟨b, hfetch.medium.symm.trans hmed, ?_⟩
    rw [List.nil_append, List.nil_append, hbytes, hbounce, hfetch.same.firstbyte,
      hfetch.same.blocksize, take_drop_readBytes, Nat.min_eq_left (by omega), Nat.add_zero]

/-- `same_volume` that says yes has read the boot sector of the medium. -/
theorem sameVolume_true (ho : Opened d) (hf : 512 < d.blocksize → Fresh d) {mounted : Bool}
    {old : Option SuperBlock} {addr : Nat}
    (h : sameVolume mounted old addr d = .ok true d') :
    mounted = true ∧ ∃ sb, old = some sb ∧ ∃ b, d.medium = some b ∧
      (SuperBlock.mk (readBytes b d.firstbyte 512)).sameVolume sb = true := by
  unfold sameVolume at h
  split at h
  next sb =>
    refine ⟨rfl, sb, rfl, ?_⟩
    cases hread : amigaPread addr 512 0 d with
    | error e d₁ =>
      simp only [hread] at h
      cases h
    | ok r d₁ =>
      simp only [hread] at h
      injection h with hres _
      rw [Bool.and_eq_true, decide_eq_true_eq] at hres
      unfold amigaPread at hread
      rw [run_bind_ok (run_get d)] at hread
      -- The request is refused, cut off at the end, or carried out in full.
      obtain ⟨href, -⟩ | ⟨href, -, -⟩ | ⟨href, -, -, -⟩ := refuse_cases d 512 0
      · simp only [href] at hread
        cases hread
        exact absurd hres.1 (by decide)
      · simp only [href] at hread
        cases hread
      · simp only [href] at hread
        rw [show d.firstbyte + Int.toNat 0 = d.firstbyte from rfl] at hread
        have hboot := partitionRead_boot ho hf addr
        cases hpart : partitionRead addr 512 d.firstbyte d with
        | error e d₂ =>
          rw [run_bind_error hpart] at hread
          cases hread
        | ok bytes d₂ =>
          obtain ⟨b, hmed, hbytes⟩ := wp_anyStop_iff.mp hboot bytes d₂ hpart
          rw [run_bind_ok hpart] at hread
          cases hread
          refine ⟨b, hmed, ?_⟩
          rw [← hbytes]
          exact hres.2
  next => cases h

/-! ### Histories -/

/-- A call of the device layer, or another medium in the slot (`none`: the slot is empty). -/
inductive SlotEvent
  | call (op : DevOp)
  | change (medium : Option Store)

/-- The device after an event; a call may have failed. -/
def SlotEvent.run (d : AmigaDev) : SlotEvent → AmigaDev
  | .call op => finalState (op.run d)
  | .change medium => { d with medium := medium }

/-- The unit after some events. -/
def runEvents (d : AmigaDev) (events : List SlotEvent) : AmigaDev := events.foldl SlotEvent.run d

/-- A call is a read that takes a block other than the first through the bounce buffer while
`bounce_lba` names the first, and no fetch of another block follows: the range ends with whole
blocks, or the call fails. -/
def DevOp.SpoilsBoot (d : AmigaDev) (op : DevOp) : Prop :=
  match op with
  | .pread addr size offset =>
    d.bouncesOver addr size (d.firstbyte + offset.toNat) ∧
      (d.tailLen (d.firstbyte + offset.toNat) size = 0 ∨ ∀ r d', op.run d ≠ .ok r d')
  | .read addr size =>
    d.bouncesOver addr size (d.firstbyte + d.pos.toNat) ∧
      (d.tailLen (d.firstbyte + d.pos.toNat) size = 0 ∨ ∀ r d', op.run d ≠ .ok r d')
  | _ => False

/-- An event after which `bounce_lba` may name the first block while the buffer does not hold that
of the medium in the slot: such a read, or a change of the medium while the first block is in the
buffer, unless the new medium has the same block. -/
def SlotEvent.Spoils (d : AmigaDev) : SlotEvent → Prop
  | .call op => op.SpoilsBoot d
  | .change medium => d.bounceLba = d.firstbyte ∧
      ∀ b, medium = some b → d.bounce ≠ readBytes b d.firstbyte d.blocksize

/-- Every event of the history meets `P` in the state it happens in. -/
def EachEvent (P : AmigaDev → SlotEvent → Prop) : AmigaDev → List SlotEvent → Prop
  | _, [] => True
  | d, ev :: events => P d ev ∧ EachEvent P (ev.run d) events

/-- What every event keeps. -/
def StepKeeps (d : AmigaDev) (spoils : Prop) (d' : AmigaDev) : Prop :=
  SameUnit d d' ∧ d'.bounce.length = d.blocksize ∧ (Fresh d → ¬ spoils → Fresh d')

/-- The device with the file position moved; nothing that matters here looks at it. -/
theorem StepKeeps.setPos {spoils : Prop} (h : StepKeeps d spoils d') (pos : Int) :
    StepKeeps d spoils { d' with pos := pos } :=
  ⟨h.1.trans ⟨rfl, rfl, rfl, rfl, rfl⟩, h.2.1, h.2.2⟩

/-- A read keeps the bounce buffer true unless it bounces over the boot block. -/
theorem amigaPread_keeps (ho : Opened d) (addr size : Nat) (offset : Int) :
    StepKeeps d (d.bouncesOver addr size (d.firstbyte + offset.toNat) ∧
      (d.tailLen (d.firstbyte + offset.toNat) size = 0 ∨
        ∀ r d', amigaPread addr size offset d ≠ .ok r d'))
      (finalState (amigaPread addr size offset d)) := by
  have h := amigaPread_wp ho addr size offset
  unfold wp at h
  cases hrun : amigaPread addr size offset d with
  | ok r d' =>
    rw [hrun] at h
    obtain ⟨hk, -, -, hfresh⟩ := h
    refine ⟨hk.same, hk.length, fun hf hs => hfresh hf fun hover => ?_⟩
    by_contra ht
    exact hs ⟨hover, .inl (by omega)⟩
  | error e d' =>
    rw [hrun] at h
    obtain ⟨hk, -, hfresh⟩ := h
    refine ⟨hk.same, hk.length, fun hf hs => hfresh hf fun hover => ?_⟩
    exact hs ⟨hover, .inr fun r d'' heq => by cases heq⟩

/-- A write keeps the bounce buffer true. -/
theorem amigaPwrite_keeps (ho : Opened d) (addr : Nat) (data : List UInt8) (offset : Int) :
    wp (amigaPwrite addr data offset) (fun _ d' => StepKeeps d False d')
      (fun _ d' => StepKeeps d False d') d := by
  refine wp_mono (amigaPwrite_wp ho addr data offset) ?_ ?_
  · rintro n d' ⟨hk, -, hfresh⟩
    exact ⟨hk.same, hk.length, fun hf _ => hfresh hf⟩
  · rintro e d' ⟨hk, hfresh⟩
    exact ⟨hk.same, hk.length, fun hf _ => hfresh hf⟩

/-- A call keeps the bounce buffer true unless it spoils the boot block. -/
theorem DevOp.run_keeps (ho : Opened d) (op : DevOp) :
    StepKeeps d (op.SpoilsBoot d) (finalState (op.run d)) := by
  -- A call that reads or writes moves the position as well, which the buffer does not see.
  cases op with
  | pread addr size offset => exact amigaPread_keeps ho addr size offset
  | pwrite addr data offset =>
    apply finalState_of_wp
    show wp (amigaPwrite addr data offset >>= fun n => pure (n, [])) _ _ d
    rw [wp_bind]
    exact amigaPwrite_keeps ho addr data offset
  -- a failed read may have moved the block but not its name
  | read addr size =>
    have h := amigaPread_keeps ho addr size d.pos
    cases hrun : amigaPread addr size d.pos d with
    | ok r d' =>
      have hread : DevOp.run (.read addr size) d = .ok r { d' with pos := d'.pos + r.1 } := by
        show amigaRead addr size d = _
        unfold amigaRead
        rw [run_bind_ok (run_get d), run_bind_ok hrun]
        rfl
      rw [hrun] at h
      rw [hread]
      refine ⟨h.1.trans ⟨rfl, rfl, rfl, rfl, rfl⟩, h.2.1, fun hf hs => ?_⟩
      refine h.2.2 hf fun hsp => hs ⟨hsp.1, .inl ?_⟩
      obtain ht | hno := hsp.2
      · exact ht
      · exact absurd rfl (hno r d')
    | error e d' =>
      have hread : DevOp.run (.read addr size) d = .error e d' := by
        show amigaRead addr size d = _
        unfold amigaRead
        rw [run_bind_ok (run_get d), run_bind_error hrun]
      rw [hrun] at h
      rw [hread]
      refine ⟨h.1, h.2.1, fun hf hs => ?_⟩
      refine h.2.2 hf fun hsp => hs ⟨hsp.1, .inr fun r d'' heq => ?_⟩
      rw [hread] at heq
      cases heq
  | write addr data =>
    apply finalState_of_wp
    show wp (amigaWrite addr data >>= fun n => pure (n, [])) _ _ d
    unfold amigaWrite
    simp only [wp_bind, wp_get, wp_modify]
    refine wp_mono (amigaPwrite_keeps ho addr data d.pos) ?_ (fun _ _ h => h)
    intro n d' h
    exact h.setPos _
  | seek offset =>
    exact ⟨⟨rfl, rfl, rfl, rfl, rfl⟩, ho.length, fun hf _ => hf⟩

/-- An event keeps the bounce buffer true unless it spoils the boot block. -/
theorem SlotEvent.run_keeps (ho : Opened d) (ev : SlotEvent) :
    StepKeeps d (ev.Spoils d) (ev.run d) := by
  cases ev with
  | call op => exact op.run_keeps ho
  | change medium =>
    refine ⟨⟨rfl, rfl, rfl, rfl, rfl⟩, ho.length, fun _ hs hno heq => ?_⟩
    by_contra hnone
    refine hs ⟨heq, fun b hb hbounce => ?_⟩
    exact hnone ⟨b, hb, hbounce⟩

/-- Where blocks are larger than the boot sector and no event of the history leaves a wrong block
under the number of the first, the bounce buffer is in step with the medium. -/
theorem runEvents_fresh (events : List SlotEvent) (ho : Opened d) (hf : 512 < d.blocksize → Fresh d)
    (hs : EachEvent (fun d ev => d.blocksize ≤ 512 ∨ ¬ ev.Spoils d) d events) :
    SameUnit d (runEvents d events) ∧ Opened (runEvents d events) ∧
      (512 < d.blocksize → Fresh (runEvents d events)) := by
  induction events generalizing d with
  | nil => exact ⟨SameUnit.refl d, ho, hf⟩
  | cons ev events ih =>
    obtain ⟨hev, hrest⟩ := hs
    obtain ⟨hsame, hlen, hfresh⟩ := ev.run_keeps ho
    have hf' : 512 < (ev.run d).blocksize → Fresh (ev.run d) := by
      rw [hsame.blocksize]
      intro hgt
      refine hfresh (hf hgt) ?_
      obtain hle | hno := hev
      · omega
      · exact hno
    obtain ⟨hsame', ho', hfresh'⟩ := ih (hsame.opened ho hlen) hf' hrest
    rw [hsame.blocksize] at hfresh'
    exact ⟨hsame.trans hsame', ho', hfresh'⟩

/-- Over every history of calls and changes of the medium, in which blocks are no larger than the
boot sector or nothing spoils the first block in the bounce buffer: `same_volume` says yes only if
the medium in the slot has a boot sector that agrees with the mounted superblock. -/
theorem sameVolume_sound (events : List SlotEvent) (ho : Opened d) (hb : d.bounceLba = noBlock)
    (hs : EachEvent (fun d ev => d.blocksize ≤ 512 ∨ ¬ ev.Spoils d) d events) (mounted : Bool)
    (old : Option SuperBlock) (addr : Nat)
    (h : sameVolume mounted old addr (runEvents d events) = .ok true d') :
    mounted = true ∧ ∃ sb, old = some sb ∧ ∃ b, (runEvents d events).medium = some b ∧
      (SuperBlock.mk (readBytes b d.firstbyte 512)).sameVolume sb = true := by
  obtain ⟨hsame, ho', hfresh⟩ := runEvents_fresh events ho (fun _ => fresh_of_noBlock hb) hs
  rw [← hsame.blocksize] at hfresh
  have hyes := sameVolume_true ho' hfresh h
  rw [hsame.firstbyte] at hyes
  exact hyes

/-! A card with nothing but the name of the file system in its boot sector. -/

/-- A medium that holds the name of an exFAT file system. -/
def bootCard : Store := fun a => if 3 ≤ a then oemExfat.getD (a - 3) 0 else 0

/-- Its superblock. -/
def bootCardSb : SuperBlock := ⟨readBytes bootCard 0 512⟩

/-- A partition at the start of the card, on a device with blocks of the given size. -/
def cardDev (blocksize : Nat) : AmigaDev where
  medium := some bootCard
  firstbyte := 0
  size := 4096
  blocksize := blocksize

/-- The unit is open for every block size. -/
theorem cardDev_opened (k : Nat) : Opened (cardDev (2 ^ k)) :=
  ⟨⟨k, rfl⟩, Nat.zero_mod _, List.length_replicate ..⟩

set_option maxRecDepth 8000 in
/-- A card that is pulled and put back is found to be the same. -/
theorem sameVolume_sound_cardBack :
    ∃ b, (runEvents (cardDev 512) [.change none, .change (some bootCard)]).medium = some b ∧
      (SuperBlock.mk (readBytes b 0 512)).sameVolume bootCardSb = true := by
  have hrun : sameVolume true (some bootCardSb) 0
      (runEvents (cardDev 512) [.change none, .change (some bootCard)]) =
      .ok true { cardDev 512 with transfers := 1 } := rfl
  have h := sameVolume_sound [.change none, .change (some bootCard)] (cardDev_opened 9) rfl
    ⟨.inl (Nat.le_refl _), .inl (Nat.le_refl _), trivial⟩ true (some bootCardSb) 0 hrun
  obtain ⟨-, sb, hsb, hyes⟩ := h
  cases hsb
  exact hyes

set_option maxRecDepth 8000 in
/-- On a device with blocks of 1024 bytes the boot sector is read and the card is pulled:
`same_volume` still says yes. -/
theorem sameVolume_not_sound :
    ¬ ∀ (d d' : AmigaDev) (events : List SlotEvent) (mounted : Bool) (old : Option SuperBlock)
      (addr : Nat), Opened d → d.bounceLba = noBlock →
      sameVolume mounted old addr (runEvents d events) = .ok true d' →
      mounted = true ∧ ∃ sb, old = some sb ∧ ∃ b, (runEvents d events).medium = some b ∧
        (SuperBlock.mk (readBytes b d.firstbyte 512)).sameVolume sb = true := by
  intro h
  have hrun : sameVolume true (some bootCardSb) 0
      (runEvents (cardDev 1024) [.call (.pread 0 512 0), .change none]) =
      .ok true { cardDev 1024 with
        medium := none
        bounce := readBytes bootCard 0 1024
        bounceLba := 0
        transfers := 1 } := rfl
  obtain ⟨-, sb, -, b, hmed, -⟩ := h (cardDev 1024) _ [.call (.pread 0 512 0), .change none] true
    (some bootCardSb) 0 (cardDev_opened 10) rfl hrun
  cases hmed

end ExFat
