import ExFat.Amiga.FlatDev

namespace ExFat

open Bytes Program

/-!
# The device layer when transfers fail

The routines of `dev_io.c` on any medium, or none, with any pattern of failed transfers.  Whatever
happens the partition keeps its place and the bounce buffer its length (`SameUnit`, `Opened`), a
call that returns has transferred every byte of its range, and `bounce_lba` is given up before the
buffer is filled with another block, with the one exception of a read of whole blocks.
-/

variable {d d' d'' : AmigaDev} {b : Store}

/-- Two states of one open partition. -/
structure SameUnit (d d' : AmigaDev) : Prop where
  firstbyte : d'.firstbyte = d.firstbyte
  size : d'.size = d.size
  blocksize : d'.blocksize = d.blocksize
  maxtransfer : d'.maxtransfer = d.maxtransfer
  mask : d'.mask = d.mask

namespace SameUnit

/-- A device is the same unit as itself. -/
theorem refl (d : AmigaDev) : SameUnit d d := ⟨rfl, rfl, rfl, rfl, rfl⟩

/-- Two steps on the same unit are one. -/
theorem trans (h : SameUnit d d') (h' : SameUnit d' d'') : SameUnit d d'' :=
  ⟨h'.firstbyte.trans h.firstbyte, h'.size.trans h.size, h'.blocksize.trans h.blocksize,
    h'.maxtransfer.trans h.maxtransfer, h'.mask.trans h.mask⟩

/-- The unit stays open as long as its bounce buffer has a block. -/
theorem opened (h : SameUnit d d') (ho : Opened d) (hl : d'.bounce.length = d.blocksize) :
    Opened d' := by
  obtain ⟨k, hk⟩ := ho.block
  refine ⟨⟨k, h.blocksize.trans hk⟩, ?_, hl.trans h.blocksize.symm⟩
  rw [h.firstbyte, h.blocksize]
  exact ho.aligned

/-- Whether a transfer is bounced depends on the unit. -/
theorem bounced (h : SameUnit d d') (addr : Nat) : d'.bounced addr = d.bounced addr := by
  unfold AmigaDev.bounced
  rw [h.mask]

/-- The length of the pieces of a transfer depends on the unit. -/
theorem chunk (h : SameUnit d d') (addr len : Nat) : d'.chunk addr len = d.chunk addr len := by
  unfold AmigaDev.chunk AmigaDev.blockmask
  rw [h.bounced, h.maxtransfer, h.blocksize]

end SameUnit

/-! ### Transfers -/

/-- A read of whole blocks fails or delivers what the medium holds. -/
theorem rawRead_cases (d : AmigaDev) (len off : Nat) :
    ∃ r, rawRead len off d = .ok r { d with transfers := d.transfers + 1 } ∧
      ∀ bytes, r = some bytes → ∃ b, d.medium = some b ∧ bytes = readBytes b off len := by
  unfold rawRead
  simp only [run_bind, run_get, run_set]
  cases hm : d.medium with
  | none =>
    refine ⟨none, rfl, ?_⟩
    rintro bytes ⟨⟩
  | some b =>
    by_cases hr : d.refuses len off = true
    · simp only [if_pos hr]
      refine ⟨none, rfl, ?_⟩
      rintro bytes ⟨⟩
    · simp only [if_neg hr]
      refine ⟨_, rfl, ?_⟩
      rintro bytes ⟨⟩
      exact ⟨b, rfl, rfl⟩

/-- A write of whole blocks fails, or the medium holds the data. -/
theorem rawWrite_cases (d : AmigaDev) (data : List UInt8) (off : Nat) :
    rawWrite data off d = .ok false { d with transfers := d.transfers + 1 } ∨
    ∃ b, d.medium = some b ∧ rawWrite data off d = .ok true
      { d with
        medium := some (writeBytes b off data)
        transfers := d.transfers + 1
        writes := b :: d.writes } := by
  unfold rawWrite
  simp only [run_bind, run_get]
  cases hm : d.medium with
  | none => exact .inl rfl
  | some b =>
    by_cases hr : d.refuses data.length off = true
    · simp only [if_pos hr]
      exact .inl rfl
    · simp only [if_neg hr]
      exact .inr ⟨b, rfl, rfl⟩

/-! ### Whole blocks -/

/-- The blocks that a read of whole blocks takes through the bounce buffer. -/
def AmigaDev.bouncedBlocks (d : AmigaDev) : (fuel addr len off : Nat) → List Nat
  | 0, _, _, _ => []
  | fuel + 1, addr, len, off =>
    if len = 0 then []
    else
      let rest := d.bouncedBlocks fuel (addr + d.chunk addr len) (len - d.chunk addr len)
        (off + d.chunk addr len)
      if d.bounced addr then off :: rest else rest

/-- The blocks that a transfer bounces depend on the unit. -/
theorem SameUnit.bouncedBlocks (h : SameUnit d d') (fuel addr len off : Nat) :
    d'.bouncedBlocks fuel addr len off = d.bouncedBlocks fuel addr len off := by
  induction fuel generalizing addr len off with
  | zero => rfl
  | succ fuel ih =>
    unfold AmigaDev.bouncedBlocks
    rw [h.chunk, h.bounced, ih]

/-- What a read of whole blocks leaves, wherever it stops: the medium and `bounce_lba` are as they
were, and the buffer may hold one of `blocks`. -/
structure ReadThrough (d : AmigaDev) (blocks : List Nat) (d' : AmigaDev) : Prop where
  same : SameUnit d d'
  medium : d'.medium = d.medium
  lba : d'.bounceLba = d.bounceLba
  pos : d'.pos = d.pos
  bounce : d'.bounce = d.bounce ∨
    ∃ b, ∃ block ∈ blocks, d.medium = some b ∧ d'.bounce = readBytes b block d.blocksize

namespace ReadThrough

variable {blocks blocks' : List Nat}

/-- Nothing has been read. -/
theorem refl (d : AmigaDev) (blocks : List Nat) : ReadThrough d blocks d :=
  ⟨SameUnit.refl d, rfl, rfl, rfl, .inl rfl⟩

/-- The bounce buffer keeps its length. -/
theorem length (h : ReadThrough d blocks d') (hl : d.bounce.length = d.blocksize) :
    d'.bounce.length = d.blocksize := by
  obtain heq | ⟨b, block, -, -, heq⟩ := h.bounce
  · rw [heq, hl]
  · rw [heq, length_readBytes]

/-- Two reads in a row are one. -/
theorem trans (h : ReadThrough d blocks d') (h' : ReadThrough d' blocks d'') :
    ReadThrough d blocks d'' := by
  refine ⟨h.same.trans h'.same, h'.medium.trans h.medium, h'.lba.trans h.lba,
    h'.pos.trans h.pos, ?_⟩
  obtain heq | ⟨b, block, hmem, hb, heq⟩ := h'.bounce
  · rw [heq]
    exact h.bounce
  · right
    refine ⟨b, block, hmem, h.medium.symm.trans hb, ?_⟩
    rw [heq, h.same.blocksize]

/-- More blocks may be named than have gone through the bounce buffer. -/
theorem mono (h : ReadThrough d blocks d') (hsub : ∀ block ∈ blocks, block ∈ blocks') :
    ReadThrough d blocks' d' := by
  refine ⟨h.same, h.medium, h.lba, h.pos, ?_⟩
  obtain heq | ⟨b, block, hmem, hb, heq⟩ := h.bounce
  · exact .inl heq
  · exact .inr ⟨b, block, hsub block hmem, hb, heq⟩

end ReadThrough

/-- A bounced transfer goes block by block. -/
theorem chunk_of_bounced {addr len : Nat} (hb : d.bounced addr = true) :
    d.chunk addr len = d.blocksize := by
  rw [AmigaDev.chunk, if_pos hb]

/-- `aligned_io` for a read: if it returns, every block came from the medium. -/
theorem alignedReadLoop_wp (ho : Opened d) (fuel addr len off : Nat)
    (hf : len / d.blocksize ≤ fuel) (hl : len % d.blocksize = 0) :
    wp (alignedReadLoop fuel addr len off)
      (fun bytes d' => ReadThrough d (d.bouncedBlocks fuel addr len off) d' ∧ bytes.length = len ∧
        (0 < len → ∃ b, d.medium = some b ∧ bytes = readBytes b off len))
      (fun _ d' => ReadThrough d (d.bouncedBlocks fuel addr len off) d') d := by
  -- On the fuel, one chunk a step; any of the transfers may fail.
  induction fuel generalizing d addr len off with
  | zero =>
    have h0 : len = 0 := by
      have := Nat.div_add_mod len d.blocksize
      rw [Nat.le_zero.mp hf, hl] at this
      omega
    subst h0
    exact ⟨ReadThrough.refl d _, rfl, fun h => absurd h (by omega)⟩
  | succ fuel ih =>
    unfold alignedReadLoop AmigaDev.bouncedBlocks
    by_cases h0 : len = 0
    · subst h0
      exact ⟨ReadThrough.refl d _, rfl, fun h => absurd h (by omega)⟩
    · simp only [if_neg h0]
      obtain ⟨hc0, hcl, hcm⟩ := ho.chunk_spec addr (by omega) hl
      have hcb : d.bounced addr = true → d.chunk addr len = d.blocksize := chunk_of_bounced
      simp only [wp_bind, wp_get]
      generalize d.chunk addr len = chunk at hc0 hcl hcm hcb ⊢
      have hl' : (len - chunk) % d.blocksize = 0 :=
        Nat.mod_eq_zero_of_dvd
          (Nat.dvd_sub (Nat.dvd_of_mod_eq_zero hl) (Nat.dvd_of_mod_eq_zero hcm))
      obtain ⟨r, hrun, hbytes⟩ := rawRead_cases d chunk off
      refine wp_of_ok hrun ?_
      -- a failed transfer ends the loop, with what has been done so far
      cases r with
      | none => exact ⟨⟨rfl, rfl, rfl, rfl, rfl⟩, rfl, rfl, rfl, .inl rfl⟩
      | some bytes =>
        obtain ⟨b, hmed, rfl⟩ := hbytes bytes rfl
        simp only [wp_bind, wp_modify]
        -- the state after this iteration
        have hbnc : ({ d with transfers := d.transfers + 1 } : AmigaDev).bounced addr =
            d.bounced addr := rfl
        rw [hbnc]
        generalize hd₁ : (if d.bounced addr = true then
          { d with transfers := d.transfers + 1, bounce := readBytes b off chunk }
          else { d with transfers := d.transfers + 1 } : AmigaDev) = d₁
        have h₁ : ReadThrough d (if d.bounced addr = true then
            off :: d.bouncedBlocks fuel (addr + chunk) (len - chunk) (off + chunk)
            else d.bouncedBlocks fuel (addr + chunk) (len - chunk) (off + chunk)) d₁ := by
          by_cases hb : d.bounced addr = true
          · rw [if_pos hb] at hd₁ ⊢
            subst hd₁
            refine ⟨⟨rfl, rfl, rfl, rfl, rfl⟩, rfl, rfl, rfl,
              .inr ⟨b, off, List.mem_cons_self, hmed, ?_⟩⟩
            show readBytes b off chunk = _
            rw [hcb hb]
          · rw [if_neg hb] at hd₁
            subst hd₁
            exact ⟨⟨rfl, rfl, rfl, rfl, rfl⟩, rfl, rfl, rfl, .inl rfl⟩
        have hsame := h₁.same
        have hrest := ih (h₁.same.opened ho (h₁.length ho.length)) (addr + chunk) (len - chunk)
          (off + chunk) (by rw [hsame.blocksize]; exact sub_div_le hc0 hcl hcm hf)
          (by rw [hsame.blocksize]; exact hl')
        rw [hsame.bouncedBlocks] at hrest
        -- the blocks of the rest are among those of the whole
        have hsub : ∀ block ∈ d.bouncedBlocks fuel (addr + chunk) (len - chunk) (off + chunk),
            block ∈ (if d.bounced addr = true then
              off :: d.bouncedBlocks fuel (addr + chunk) (len - chunk) (off + chunk)
              else d.bouncedBlocks fuel (addr + chunk) (len - chunk) (off + chunk)) := by
          intro block hmem
          split
          · exact List.mem_cons_of_mem _ hmem
          · exact hmem
        refine wp_mono hrest ?_ ?_
        -- the rest is read from the same medium
        · rintro rest d₂ ⟨h₂, hlen, hread⟩
          refine ⟨h₁.trans (h₂.mono hsub), ?_, fun _ => ⟨b, hmed, ?_⟩⟩
          · rw [List.length_append, length_readBytes, hlen]
            omega
          · have hsplit : readBytes b off len =
                readBytes b off chunk ++ readBytes b (off + chunk) (len - chunk) := by
              rw [← readBytes_add, Nat.add_sub_cancel' hcl]
            rw [hsplit]
            congr 1
            by_cases hz : len - chunk = 0
            · rw [hz] at hlen ⊢
              rw [readBytes_zero, List.length_eq_zero_iff.mp hlen]
            · obtain ⟨b', hmed', heq⟩ := hread (by omega)
              rw [h₁.medium, hmed] at hmed'
              cases hmed'
              exact heq
        · rintro e d₂ h₂
          exact h₁.trans (h₂.mono hsub)

/-- What a transfer to the medium of whole blocks leaves, wherever it stops. -/
structure WroteThrough (d d' : AmigaDev) : Prop where
  same : SameUnit d d'
  lba : d'.bounceLba = d.bounceLba
  pos : d'.pos = d.pos
  length : d'.bounce.length = d.blocksize
  empty : d.medium = none → d'.medium = none

/-- Two steps of a write are one. -/
theorem WroteThrough.trans (h : WroteThrough d d') (h' : WroteThrough d' d'') :
    WroteThrough d d'' :=
  ⟨h.same.trans h'.same, h'.lba.trans h.lba, h'.pos.trans h.pos, h'.length.trans h.same.blocksize,
    fun hm => h'.empty (h.empty hm)⟩

/-- `aligned_io` for a write: if it returns, every block is on the medium. -/
theorem alignedWriteLoop_wp (ho : Opened d) (fuel addr : Nat) (data : List UInt8) (off : Nat)
    (hf : data.length / d.blocksize ≤ fuel) (hl : data.length % d.blocksize = 0) :
    wp (alignedWriteLoop fuel addr data off)
      (fun _ d' => WroteThrough d d' ∧
        (0 < data.length → ∃ b, d.medium = some b ∧ d'.medium = some (writeBytes b off data)) ∧
        (data.length = 0 → d'.medium = d.medium))
      (fun _ d' => WroteThrough d d') d := by
  -- On the fuel, one chunk a step; any of the transfers may fail.
  induction fuel generalizing d addr data off with
  | zero =>
    have h0 : data.length = 0 := by
      have := Nat.div_add_mod data.length d.blocksize
      rw [Nat.le_zero.mp hf, hl] at this
      omega
    exact ⟨⟨SameUnit.refl d, rfl, rfl, ho.length, id⟩, fun h => absurd h (by omega), fun _ => rfl⟩
  | succ fuel ih =>
    unfold alignedWriteLoop
    by_cases h0 : data.length = 0
    · simp only [if_pos h0]
      exact ⟨⟨SameUnit.refl d, rfl, rfl, ho.length, id⟩, fun h => absurd h (by omega), fun _ => rfl⟩
    · simp only [if_neg h0]
      obtain ⟨hc0, hcl, hcm⟩ := ho.chunk_spec addr (by omega) hl
      have hcb : d.bounced addr = true → d.chunk addr data.length = d.blocksize := chunk_of_bounced
      simp only [wp_bind, wp_get, wp_modify]
      generalize d.chunk addr data.length = chunk at hc0 hcl hcm hcb ⊢
      have htake : (data.take chunk).length = chunk := by
        rw [List.length_take]
        omega
      have hdrop : (data.drop chunk).length = data.length - chunk := List.length_drop
      -- the buffer may be filled, the medium is as it was
      generalize hd₁ : (if d.bounced addr = true then { d with bounce := data.take chunk }
        else d : AmigaDev) = d₁
      have h₁ : WroteThrough d d₁ ∧ d₁.medium = d.medium := by
        by_cases hb : d.bounced addr = true
        · rw [if_pos hb] at hd₁
          subst hd₁
          refine ⟨⟨⟨rfl, rfl, rfl, rfl, rfl⟩, rfl, rfl, ?_, id⟩, rfl⟩
          show (data.take chunk).length = d.blocksize
          rw [htake, hcb hb]
        · rw [if_neg hb] at hd₁
          subst hd₁
          exact ⟨⟨SameUnit.refl d, rfl, rfl, ho.length, id⟩, rfl⟩
      obtain ⟨h₁, hmed₁⟩ := h₁
      -- the transfer fails, or the medium has changed
      obtain hfail | ⟨b, hmed, hdone⟩ := rawWrite_cases d₁ (data.take chunk) off
      · refine wp_of_ok hfail ?_
        exact h₁.trans ⟨⟨rfl, rfl, rfl, rfl, rfl⟩, rfl, rfl,
          h₁.length.trans h₁.same.blocksize.symm, id⟩
      · refine wp_of_ok hdone ?_
        generalize hd₂ : ({ d₁ with
          medium := some (writeBytes b off (data.take chunk))
          transfers := d₁.transfers + 1
          writes := b :: d₁.writes } : AmigaDev) = d₂
        have h₂ : WroteThrough d d₂ := by
          subst hd₂
          refine h₁.trans ⟨⟨rfl, rfl, rfl, rfl, rfl⟩, rfl, rfl,
            h₁.length.trans h₁.same.blocksize.symm, fun hnone => ?_⟩
          rw [hmed] at hnone
          cases hnone
        have hmed₂ : d₂.medium = some (writeBytes b off (data.take chunk)) := by
          rw [← hd₂]
        have hl' : (data.drop chunk).length % d.blocksize = 0 := by
          rw [hdrop]
          exact Nat.mod_eq_zero_of_dvd
            (Nat.dvd_sub (Nat.dvd_of_mod_eq_zero hl) (Nat.dvd_of_mod_eq_zero hcm))
        have hrest := ih (h₂.same.opened ho h₂.length) (addr + chunk)
          (data.drop chunk) (off + chunk)
          (by rw [h₂.same.blocksize, hdrop]; exact sub_div_le hc0 hcl hcm hf)
          (by rw [h₂.same.blocksize]; exact hl')
        -- the data of this step and that of the rest lie one behind the other
        refine wp_mono hrest ?_ ?_
        · rintro _ d₃ ⟨h₃, hwrote, hnone⟩
          refine ⟨h₂.trans h₃, fun _ => ⟨b, hmed₁.symm.trans hmed, ?_⟩, fun h => absurd h h0⟩
          have happ := writeBytes_append b off (data.take chunk) (data.drop chunk)
          rw [htake, List.take_append_drop] at happ
          by_cases hz : (data.drop chunk).length = 0
          · rw [List.length_eq_zero_iff.mp hz, writeBytes_nil] at happ
            rw [hnone hz, hmed₂, happ]
          · obtain ⟨b', hb', heq⟩ := hwrote (by omega)
            rw [hmed₂] at hb'
            cases hb'
            rw [heq, happ]
        · rintro e d₃ h₃
          exact h₂.trans h₃

/-- `aligned_io` for a write gives up the cached block before anything else. -/
theorem alignedWrite_wp (ho : Opened d) (addr : Nat) (data : List UInt8) (off : Nat)
    (hl : data.length % d.blocksize = 0) (hpos : 0 < data.length) :
    wp (alignedWrite addr data off)
      (fun _ d' => WroteThrough { d with bounceLba := noBlock } d' ∧
        ∃ b, d.medium = some b ∧ d'.medium = some (writeBytes b off data))
      (fun _ d' => WroteThrough { d with bounceLba := noBlock } d') d := by
  unfold alignedWrite
  simp only [wp_bind, wp_modify, wp_get]
  have ho' : Opened { d with bounceLba := noBlock } := ⟨ho.block, ho.aligned, ho.length⟩
  have hloop := alignedWriteLoop_wp ho' (data.length / d.blocksize) addr data off (Nat.le_refl _) hl
  refine wp_conseq hloop ?_
  rintro _ d₁ ⟨h₁, hwrote, -⟩
  exact ⟨h₁, hwrote hpos⟩

/-! ### Parts of a block -/

/-- What a failed transfer of a part of a block leaves. -/
structure GaveUp (d d' : AmigaDev) : Prop where
  same : SameUnit d d'
  medium : d'.medium = d.medium
  lba : d'.bounceLba = noBlock
  pos : d'.pos = d.pos
  length : d'.bounce.length = d.blocksize

/-- What `fetch_block` leaves when it returns: the block, or what was held under its number. -/
structure Fetched (d : AmigaDev) (block : Nat) (d' : AmigaDev) : Prop where
  same : SameUnit d d'
  medium : d'.medium = d.medium
  lba : d'.bounceLba = block
  pos : d'.pos = d.pos
  length : d'.bounce.length = d.blocksize
  bounce : (d.bounceLba = block ∧ d'.bounce = d.bounce) ∨
    ∃ b, d.medium = some b ∧ d'.bounce = readBytes b block d.blocksize

/-- `fetch_block` leaves the block in the bounce buffer, or gives up. -/
theorem fetchBlock_wp (ho : Opened d) (block : Nat) :
    wp (fetchBlock block) (fun _ d' => Fetched d block d') (fun _ d' => GaveUp d d') d := by
  unfold fetchBlock
  simp only [wp_bind, wp_get]
  by_cases hhit : d.bounceLba = block
  · rw [if_pos hhit]
    exact ⟨SameUnit.refl d, rfl, hhit, rfl, ho.length, .inl ⟨hhit, rfl⟩⟩
  · rw [if_neg hhit]
    simp only [wp_bind, wp_modify]
    obtain ⟨r, hrun, hbytes⟩ := rawRead_cases { d with bounceLba := noBlock } d.blocksize block
    refine wp_of_ok hrun ?_
    cases r with
    | none => exact ⟨⟨rfl, rfl, rfl, rfl, rfl⟩, rfl, rfl, rfl, ho.length⟩
    | some bytes =>
      obtain ⟨b, hmed, rfl⟩ := hbytes bytes rfl
      exact ⟨⟨rfl, rfl, rfl, rfl, rfl⟩, rfl, rfl, rfl, length_readBytes .., .inr ⟨b, hmed, rfl⟩⟩

/-- A part of a block is read through the bounce buffer. -/
theorem readPart_wp (ho : Opened d) (block : Nat) {start n : Nat} (hn : start + n ≤ d.blocksize) :
    wp (readPart block start n)
      (fun bytes d' => Fetched d block d' ∧ bytes = (d'.bounce.drop start).take n ∧
        bytes.length = n)
      (fun _ d' => GaveUp d d') d := by
  unfold readPart
  simp only [wp_bind, wp_get]
  refine wp_conseq (fetchBlock_wp ho block) ?_
  intro _ d' hf
  refine ⟨hf, rfl, ?_⟩
  rw [List.length_take, List.length_drop, hf.length]
  omega

/-- What a part of a block leaves when it is written: the whole block is on the medium and in the
buffer, with the new bytes in their place. -/
structure WrotePatch (d : AmigaDev) (block start : Nat) (data : List UInt8) (d' : AmigaDev) :
    Prop where
  same : SameUnit d d'
  lba : d'.bounceLba = block
  pos : d'.pos = d.pos
  length : d'.bounce.length = d.blocksize
  medium : ∃ b, d.medium = some b ∧ d'.medium = some (writeBytes b block d'.bounce)
  patched : (d'.bounce.drop start).take data.length = data

/-- A part of a block is patched in the bounce buffer and written. -/
theorem writePart_wp (ho : Opened d) (block : Nat) {start : Nat} {data : List UInt8}
    (hn : start + data.length ≤ d.blocksize) :
    wp (writePart block start data)
      (fun _ d' => WrotePatch d block start data d') (fun _ d' => GaveUp d d') d := by
  unfold writePart
  simp only [wp_bind, wp_get, wp_modify]
  -- the block is in the buffer; the patch is made there, and then the whole block is written
  refine wp_conseq (fetchBlock_wp ho block) ?_
  intro _ d₁ hf
  generalize hd₂ : ({ d₁ with bounce := patch d₁.bounce start data } : AmigaDev) = d₂
  have hbounce : patch d₁.bounce start data = d₂.bounce := by
    rw [← hd₂]
  rw [hbounce]
  have hlen : d₂.bounce.length = d.blocksize := by
    rw [← hd₂]
    exact length_patch_eq hf.length (by omega)
  have hsame : SameUnit d d₂ := by
    rw [← hd₂]
    exact hf.same.trans ⟨rfl, rfl, rfl, rfl, rfl⟩
  have hmed₂ : d₂.medium = d.medium := by
    rw [← hd₂]
    exact hf.medium
  have hlba₂ : d₂.bounceLba = block := by
    rw [← hd₂]
    exact hf.lba
  have hpos₂ : d₂.pos = d.pos := by
    rw [← hd₂]
    exact hf.pos
  have hpatch : (d₂.bounce.drop start).take data.length = data := by
    rw [← hbounce]
    exact take_drop_patch (by rw [hf.length]; omega)
  -- If the transfer fails the name of the block is thrown away.
  obtain hfail | ⟨b, hmed, hdone⟩ := rawWrite_cases d₂ d₂.bounce block
  · refine wp_of_ok hfail ?_
    exact ⟨hsame.trans ⟨rfl, rfl, rfl, rfl, rfl⟩, hmed₂, rfl, hpos₂, hlen⟩
  · refine wp_of_ok hdone ?_
    exact ⟨hsame.trans ⟨rfl, rfl, rfl, rfl, rfl⟩, hlba₂, hpos₂, hlen,
      ⟨b, hmed₂.symm.trans hmed, rfl⟩, hpatch⟩

/-! ### The first block of the partition -/

/-- If `bounce_lba` names the first block of the partition, the bounce buffer holds that block of
the medium in the slot. -/
def Fresh (d : AmigaDev) : Prop :=
  d.bounceLba ≠ noBlock → d.bounceLba = d.firstbyte →
    ∃ b, d.medium = some b ∧ d.bounce = readBytes b d.firstbyte d.blocksize

/-- The same partition with the same file position and a bounce buffer of one block; an empty slot
is still empty. -/
structure UnitKept (d d' : AmigaDev) : Prop where
  same : SameUnit d d'
  pos : d'.pos = d.pos
  length : d'.bounce.length = d.blocksize
  empty : d.medium = none → d'.medium = none

/-- A device is the same unit as before. -/
theorem UnitKept.refl (ho : Opened d) : UnitKept d d := ⟨SameUnit.refl d, rfl, ho.length, id⟩

/-- Two steps on the same unit are one. -/
theorem UnitKept.trans (h : UnitKept d d') (h' : UnitKept d' d'') : UnitKept d d'' :=
  ⟨h.same.trans h'.same, h'.pos.trans h.pos, h'.length.trans h.same.blocksize,
    fun hm => h'.empty (h.empty hm)⟩

/-- The unit stays open. -/
theorem UnitKept.opened (h : UnitKept d d') (ho : Opened d) : Opened d' := h.same.opened ho h.length

/-- A bounce buffer that holds another block cannot be behind the boot block. -/
theorem fresh_of_ne (h : d.bounceLba ≠ d.firstbyte) : Fresh d := fun _ heq => absurd heq h

/-- A bounce buffer that holds no block cannot be behind the boot block. -/
theorem fresh_of_noBlock (h : d.bounceLba = noBlock) : Fresh d := fun hne _ => absurd h hne

/-- A routine that gives up leaves the unit open. -/
theorem GaveUp.kept (h : GaveUp d d') : UnitKept d d' :=
  ⟨h.same, h.pos, h.length, fun hm => h.medium.trans hm⟩

/-- A routine that gives up forgets the block it held. -/
theorem GaveUp.fresh (h : GaveUp d d') : Fresh d' := fresh_of_noBlock h.lba

/-- A routine that fetches a block leaves the unit open. -/
theorem Fetched.kept {block : Nat} (h : Fetched d block d') : UnitKept d d' :=
  ⟨h.same, h.pos, h.length, fun hm => h.medium.trans hm⟩

/-- A block that is fetched is what the medium holds, if the boot block was. -/
theorem Fetched.fresh {block : Nat} (h : Fetched d block d') (hf : Fresh d) : Fresh d' := by
  intro hno heq
  rw [h.lba] at hno heq
  rw [h.same.firstbyte] at heq
  subst heq
  rw [h.medium, h.same.firstbyte, h.same.blocksize]
  obtain ⟨hlba, hb⟩ | ⟨b, hmed, hb⟩ := h.bounce
  · rw [hb]
    exact hf (by rw [hlba]; exact hno) hlba
  · exact ⟨b, hmed, hb⟩

/-- A routine that patches a block leaves the unit open. -/
theorem WrotePatch.kept {block start : Nat} {data : List UInt8}
    (h : WrotePatch d block start data d') : UnitKept d d' := by
  refine ⟨h.same, h.pos, h.length, fun hm => ?_⟩
  obtain ⟨b, hb, -⟩ := h.medium
  rw [hm] at hb
  cases hb

/-- A block that is patched is what the medium holds. -/
theorem WrotePatch.fresh {block start : Nat} {data : List UInt8}
    (h : WrotePatch d block start data d') : Fresh d' := by
  intro _ heq
  rw [h.lba] at heq
  obtain ⟨b, -, hmed⟩ := h.medium
  refine ⟨_, hmed, ?_⟩
  have hlen : d'.bounce.length = d'.blocksize := h.length.trans h.same.blocksize.symm
  rw [← heq, ← hlen, readBytes_writeBytes_self]

/-- A write of whole blocks leaves the unit open. -/
theorem WroteThrough.kept (h : WroteThrough { d with bounceLba := noBlock } d') : UnitKept d d' :=
  ⟨⟨h.same.firstbyte, h.same.size, h.same.blocksize, h.same.maxtransfer, h.same.mask⟩,
    h.pos, h.length,
    h.empty⟩

/-- A write of whole blocks first forgets the block that is held. -/
theorem WroteThrough.fresh (h : WroteThrough { d with bounceLba := noBlock } d') : Fresh d' :=
  fresh_of_noBlock h.lba

/-- A read of whole blocks leaves the unit open. -/
theorem ReadThrough.kept {blocks : List Nat} (h : ReadThrough d blocks d') (ho : Opened d) :
    UnitKept d d' := ⟨h.same, h.pos, h.length ho.length, fun hm => h.medium.trans hm⟩

/-- A read that bounces no block but the boot block over it leaves the buffer true. -/
theorem ReadThrough.fresh {blocks : List Nat} (h : ReadThrough d blocks d') (hf : Fresh d)
    (hb : d.bounceLba = d.firstbyte → ∀ block ∈ blocks, block = d.firstbyte) : Fresh d' := by
  intro hno heq
  rw [h.lba] at hno heq
  rw [h.same.firstbyte] at heq
  rw [h.medium, h.same.firstbyte, h.same.blocksize]
  obtain hsame | ⟨b, block, hmem, hmed, hread⟩ := h.bounce
  · rw [hsame]
    exact hf hno heq
  · rw [hb heq block hmem] at hread
    exact ⟨b, hmed, hread⟩

/-! ### Ranges of the partition -/

/-- The block that `bounce_lba` names when `partition_io` comes to the whole blocks of a read. -/
def AmigaDev.lbaAfterHead (d : AmigaDev) (abs : Nat) : Nat :=
  if abs &&& d.blockmask ≠ 0 then abs - (abs &&& d.blockmask) else d.bounceLba

/-- The number of bytes of the unaligned tail. -/
def AmigaDev.tailLen (d : AmigaDev) (abs size : Nat) : Nat :=
  size - d.headLen abs size - d.middleLen (size - d.headLen abs size)

/-- A read takes another block than the first one of the partition through the bounce buffer while
`bounce_lba` names the first one. -/
def AmigaDev.bouncesOver (d : AmigaDev) (addr size abs : Nat) : Prop :=
  d.lbaAfterHead abs = d.firstbyte ∧
    ∃ block ∈ d.bouncedBlocks (d.middleLen (size - d.headLen abs size) / d.blocksize)
      (addr + d.headLen abs size) (d.middleLen (size - d.headLen abs size))
      (abs + d.headLen abs size), block ≠ d.firstbyte

/-- The head or the tail of a read, if there is one. -/
theorem readIf_part_wp (ho : Opened d) (c : Prop) [Decidable c]
    (block : Nat) {start n : Nat} (hn : c → start + n ≤ d.blocksize) (hz : ¬ c → n = 0) :
    wp (readIf c (readPart block start n))
      (fun bytes d' => UnitKept d d' ∧ d'.medium = d.medium ∧ bytes.length = n ∧
        d'.bounceLba = (if c then block else d.bounceLba) ∧ (Fresh d → Fresh d'))
      (fun _ d' => UnitKept d d' ∧ d'.medium = d.medium ∧ Fresh d') d := by
  unfold readIf
  by_cases hc : c
  · rw [if_pos hc]
    refine wp_mono (readPart_wp ho block (hn hc)) ?_ ?_
    · rintro bytes d' ⟨h, -, hlen⟩
      rw [if_pos hc]
      exact ⟨h.kept, h.medium, hlen, h.lba, h.fresh⟩
    · rintro _ d' h
      exact ⟨h.kept, h.medium, h.fresh⟩
  · rw [if_neg hc, if_neg hc]
    exact ⟨UnitKept.refl ho, rfl, (hz hc).symm, rfl, id⟩

/-- `partition_io` for a read: if it returns, the whole buffer is filled; and unless another block
is taken through the buffer while the first one is named, the buffer stays in step with the medium.
-/
theorem partitionRead_wp (ho : Opened d) (addr size : Nat) {abs : Nat}
    (habs : d.firstbyte ≤ abs) :
    wp (partitionRead addr size abs)
      (fun bytes d' => UnitKept d d' ∧ d'.medium = d.medium ∧ bytes.length = size ∧
        (Fresh d → (d.bouncesOver addr size abs → 0 < d.tailLen abs size) → Fresh d'))
      (fun _ d' => UnitKept d d' ∧ d'.medium = d.medium ∧
        (Fresh d → ¬ d.bouncesOver addr size abs → Fresh d')) d := by
  have cut := ho.cut abs size
  have hover : d.bouncesOver addr size abs ↔ d.lbaAfterHead abs = d.firstbyte ∧
      ∃ block ∈ d.bouncedBlocks (d.middleLen (size - d.headLen abs size) / d.blocksize)
        (addr + d.headLen abs size) (d.middleLen (size - d.headLen abs size))
        (abs + d.headLen abs size), block ≠ d.firstbyte := Iff.rfl
  have htail : d.tailLen abs size =
      size - d.headLen abs size - d.middleLen (size - d.headLen abs size) := rfl
  have hand := ho.and_blockmask abs
  unfold partitionRead
  simp only [wp_bind, wp_get]
  generalize d.headLen abs size = h at cut hover htail ⊢
  generalize d.middleLen (size - h) = m at cut hover htail ⊢
  rw [← htail]
  generalize d.tailLen abs size = tail at htail ⊢
  have hsum : h + m + tail = size := by
    have := cut.headLe
    have := cut.middleLe
    omega
  refine wp_mono (readIf_part_wp ho (abs &&& d.blockmask ≠ 0) (abs - (abs &&& d.blockmask))
    (by rw [hand]; exact cut.head)
    (by rw [hand]; exact fun hc => cut.headZero (not_not.mp hc))) ?_ ?_
  -- The head has been read: the buffer holds its block, if there is one.
  · rintro head d₁ ⟨hk₁, hmed₁, hlen₁, hlba₁, hfresh₁⟩
    change d₁.bounceLba = d.lbaAfterHead abs at hlba₁
    have hbs₁ : d₁.blocksize = d.blocksize := hk₁.same.blocksize
    -- no block but the buffered one goes through the buffer, unless the read bounces over it
    have hclean : ¬ d.bouncesOver addr size abs → d₁.bounceLba = d₁.firstbyte →
        ∀ block ∈ d.bouncedBlocks (m / d.blocksize) (addr + h) m (abs + h),
        block = d₁.firstbyte := by
      intro hno heq block hmem
      rw [hk₁.same.firstbyte] at heq ⊢
      rw [hlba₁] at heq
      by_contra hblock
      exact hno (hover.mpr ⟨heq, block, hmem, hblock⟩)
    -- the whole blocks
    have hmiddle : wp (readIf (size - h ≥ d.blocksize) (alignedRead (addr + h) m (abs + h)))
        (fun bytes d' => ReadThrough d₁ (d.bouncedBlocks (m / d.blocksize) (addr + h) m (abs + h))
          d' ∧
          bytes.length = m)
        (fun _ d' => ReadThrough d₁ (d.bouncedBlocks (m / d.blocksize) (addr + h) m (abs + h)) d')
        d₁ := by
      unfold readIf alignedRead
      by_cases hc : size - h ≥ d.blocksize
      · rw [if_pos hc]
        simp only [wp_bind, wp_get]
        have hloop := alignedReadLoop_wp (hk₁.opened ho) (m / d₁.blocksize) (addr + h) m (abs + h)
          (Nat.le_refl _) (by rw [hbs₁]; exact cut.middle)
        rw [hk₁.same.bouncedBlocks, hbs₁] at hloop
        rw [hbs₁]
        exact wp_conseq hloop fun bytes d' hb => ⟨hb.1, hb.2.1⟩
      · rw [if_neg hc]
        exact ⟨ReadThrough.refl d₁ _, (cut.middleZero (by omega)).symm⟩
    refine wp_mono hmiddle ?_ ?_
    -- The middle has been read.
    · rintro middle d₂ ⟨h₂, hlen₂⟩
      have hk₂ : UnitKept d d₂ := hk₁.trans (h₂.kept (hk₁.opened ho))
      have hlt : tail < d.blocksize := by
        rw [htail]
        exact cut.tail
      refine wp_mono (readIf_part_wp (hk₂.opened ho) (tail > 0) (abs + h + m)
        (fun _ => by rw [hk₂.same.blocksize]; omega) (fun hc => by omega)) ?_ ?_
      · rintro rest d₃ ⟨hk₃, hmed₃, hlen₃, hlba₃, hfresh₃⟩
        refine ⟨hk₂.trans hk₃, hmed₃.trans (h₂.medium.trans hmed₁), ?_, ?_⟩
        · simp only [List.length_append, hlen₁, hlen₂, hlen₃]
          omega
        · intro hf hspoil
          -- a tail makes the buffer good again
          by_cases ht : 0 < tail
          · by_cases hm : m = 0
            · -- no whole block: nothing went through the buffer
              apply hfresh₃
              apply h₂.fresh (hfresh₁ hf)
              intro _ block hmem
              rw [hm, Nat.zero_div] at hmem
              exact absurd hmem List.not_mem_nil
            · apply fresh_of_ne
              rw [hlba₃, if_pos ht, hk₃.same.firstbyte, hk₂.same.firstbyte]
              omega
          · have hno : ¬ d.bouncesOver addr size abs := fun hov => ht (hspoil hov)
            exact hfresh₃ (h₂.fresh (hfresh₁ hf) (hclean hno))
      -- the tail failed
      · rintro _ d₃ ⟨hk₃, hmed₃, hfresh₃⟩
        exact ⟨hk₂.trans hk₃, hmed₃.trans (h₂.medium.trans hmed₁), fun _ _ => hfresh₃⟩
    -- the middle failed
    · rintro _ d₂ h₂
      refine ⟨hk₁.trans (h₂.kept (hk₁.opened ho)), h₂.medium.trans hmed₁, ?_⟩
      intro hf hno
      exact h₂.fresh (hfresh₁ hf) (hclean hno)
  -- the head failed
  · rintro _ d₁ ⟨hk₁, hmed₁, hfresh₁⟩
    exact ⟨hk₁, hmed₁, fun _ _ => hfresh₁⟩

/-- The medium holds `data` at `off`. -/
def Stored (medium : Option Store) (off : Nat) (data : List UInt8) : Prop :=
  0 < data.length → ∃ b, medium = some b ∧ readBytes b off data.length = data

/-- Nothing below `lo` changes on the medium. -/
def WritesFrom (lo : Nat) (medium medium' : Option Store) : Prop :=
  ∀ b, medium = some b → ∃ b', medium' = some b' ∧ ∀ a < lo, b' a = b a

/-- Nothing has been written. -/
theorem WritesFrom.refl (lo : Nat) (medium : Option Store) : WritesFrom lo medium medium :=
  fun b hb => ⟨b, hb, fun _ _ => rfl⟩

/-- The bytes before a write are as they were. -/
theorem writesFrom_writeBytes (b : Store) (off : Nat) (data : List UInt8) :
    WritesFrom off (some b) (some (writeBytes b off data)) := by
  rintro _ ⟨⟩
  exact ⟨_, rfl, fun a ha => writeBytes_outside (.inl ha)⟩

/-- No bytes are stored anywhere. -/
theorem stored_nil (medium : Option Store) (off : Nat) {data : List UInt8} (h : data.length = 0) :
    Stored medium off data := fun hpos => absurd hpos (by omega)

/-- What has been written is stored. -/
theorem stored_writeBytes (b : Store) (off : Nat) (data : List UInt8) :
    Stored (some (writeBytes b off data)) off data :=
  fun _ => ⟨_, rfl, readBytes_writeBytes_self b off data⟩

/-- Data stored in two parts, the second behind the first. -/
theorem Stored.append {medium medium' : Option Store} {off : Nat} {xs ys : List UInt8}
    (hx : Stored medium off xs) (hw : WritesFrom (off + xs.length) medium medium')
    (hy : Stored medium' (off + xs.length) ys) : Stored medium' off (xs ++ ys) := by
  intro hpos
  rw [List.length_append] at hpos ⊢
  have hxs : 0 < xs.length → ∃ b', medium' = some b' ∧ readBytes b' off xs.length = xs := by
    intro hx0
    obtain ⟨b, hb, hread⟩ := hx hx0
    obtain ⟨b', hb', hsame⟩ := hw b hb
    refine ⟨b', hb', ?_⟩
    rw [readBytes_congr fun i hi => hsame (off + i) (by omega), hread]
  by_cases hx0 : xs.length = 0
  · obtain ⟨b', hb', hread⟩ := hy (by omega)
    refine ⟨b', hb', ?_⟩
    rw [List.length_eq_zero_iff.mp hx0] at hread ⊢
    simpa using hread
  · obtain ⟨b', hb', hread⟩ := hxs (by omega)
    refine ⟨b', hb', ?_⟩
    rw [readBytes_add, hread]
    congr 1
    by_cases hy0 : ys.length = 0
    · rw [hy0, readBytes_zero, List.length_eq_zero_iff.mp hy0]
    · obtain ⟨b'', hb'', hread'⟩ := hy (by omega)
      rw [hb'] at hb''
      cases hb''
      exact hread'

/-- The head or the tail of a write, if there is one. -/
theorem writeIf_part_wp (ho : Opened d) (c : Prop) [Decidable c]
    (block : Nat) {start : Nat} {data : List UInt8} (hn : c → start + data.length ≤ d.blocksize)
    (hz : ¬ c → data.length = 0) :
    wp (writeIf c (writePart block start data))
      (fun _ d' => UnitKept d d' ∧ (Fresh d → Fresh d') ∧ Stored d'.medium (block + start) data ∧
        WritesFrom block d.medium d'.medium)
      (fun _ d' => UnitKept d d' ∧ Fresh d') d := by
  unfold writeIf
  by_cases hc : c
  · rw [if_pos hc]
    refine wp_mono (writePart_wp ho block (hn hc)) ?_ ?_
    · intro _ d' h
      obtain ⟨b, hmed, hmed'⟩ := h.medium
      refine ⟨h.kept, fun _ => h.fresh, ?_, ?_⟩
      · intro _
        refine ⟨_, hmed', ?_⟩
        have hpart := take_drop_readBytes (writeBytes b block d'.bounce) block d'.bounce.length
          start data.length
        rw [readBytes_writeBytes_self, h.patched, h.length,
          Nat.min_eq_left (by have := hn hc; omega)] at hpart
        exact hpart.symm
      · rw [hmed, hmed']
        exact writesFrom_writeBytes b block d'.bounce
    · intro _ d' h
      exact ⟨h.kept, h.fresh⟩
  · rw [if_neg hc]
    exact ⟨UnitKept.refl ho, id, stored_nil _ _ (hz hc), WritesFrom.refl _ _⟩

/-- `partition_io` for a write: if it returns, all bytes are on the medium; and the buffer stays in
step with it, however the write ends. -/
theorem partitionWrite_wp (ho : Opened d) (addr : Nat)
    (data : List UInt8) (abs : Nat) :
    wp (partitionWrite addr data abs)
      (fun _ d' => UnitKept d d' ∧ Stored d'.medium abs data ∧ (Fresh d → Fresh d'))
      (fun _ d' => UnitKept d d' ∧ Fresh d') d := by
  have cut := ho.cut abs data.length
  have hand := ho.and_blockmask abs
  unfold partitionWrite
  simp only [wp_bind, wp_get]
  generalize d.headLen abs data.length = h at cut ⊢
  generalize d.middleLen (data.length - h) = m at cut ⊢
  have hh := cut.headLe
  have hm := cut.middleLe
  have htake : (data.take h).length = h := by
    rw [List.length_take]
    omega
  have hmid : ((data.drop h).take m).length = m := by
    rw [List.length_take, List.length_drop]
    omega
  have hrest : ((data.drop h).drop m).length = data.length - h - m := by
    rw [List.length_drop, List.length_drop]
  -- The head is patched in its block.
  refine wp_mono (writeIf_part_wp ho (abs &&& d.blockmask ≠ 0) (abs - (abs &&& d.blockmask))
    (by rw [hand, htake]; exact cut.head)
    (by rw [hand, htake]; exact fun hc => cut.headZero (not_not.mp hc))) ?_ (fun _ _ he => he)
  rintro _ d₁ ⟨hk₁, hfresh₁, hst₁, -⟩
  rw [hand, Nat.sub_add_cancel (Nat.mod_le _ _)] at hst₁
  have ho₁ := hk₁.opened ho
  -- the whole blocks
  have hmiddle : wp (writeIf (data.length - h ≥ d.blocksize)
      (alignedWrite (addr + h) ((data.drop h).take m) (abs + h)))
      (fun _ d' => UnitKept d₁ d' ∧ (Fresh d₁ → Fresh d') ∧
        Stored d'.medium (abs + h) ((data.drop h).take m) ∧
        WritesFrom (abs + h) d₁.medium d'.medium)
      (fun _ d' => UnitKept d₁ d' ∧ Fresh d') d₁ := by
    unfold writeIf
    by_cases hc : data.length - h ≥ d.blocksize
    · rw [if_pos hc]
      have hm0 : 0 < m := by
        have := cut.tail
        omega
      refine wp_mono (alignedWrite_wp ho₁ (addr + h) ((data.drop h).take m) (abs + h)
        (by rw [hmid, hk₁.same.blocksize]; exact cut.middle) (by omega)) ?_ ?_
      · rintro _ d' ⟨hw, b, hmed, hmed'⟩
        refine ⟨hw.kept, fun _ => hw.fresh, ?_, ?_⟩
        · rw [hmed']
          exact stored_writeBytes b _ _
        · rw [hmed, hmed']
          exact writesFrom_writeBytes b _ _
      · intro _ d' hw
        exact ⟨hw.kept, hw.fresh⟩
    · rw [if_neg hc]
      refine ⟨UnitKept.refl ho₁, id, stored_nil _ _ ?_, WritesFrom.refl _ _⟩
      rw [hmid]
      exact cut.middleZero (by omega)
  refine wp_mono hmiddle ?_ ?_
  -- The middle is written; what is left is the tail.
  · rintro _ d₂ ⟨hk₂, hfresh₂, hst₂, hfrom₂⟩
    refine wp_mono (writeIf_part_wp (hk₂.opened ho₁) (data.length - h - m > 0) (abs + h + m)
      (fun _ => ?_) (fun hc => ?_)) ?_ ?_
    · rw [hrest, hk₂.same.blocksize, hk₁.same.blocksize]
      have := cut.tail
      omega
    · rw [hrest]
      omega
    · rintro _ d₃ ⟨hk₃, hfresh₃, hst₃, hfrom₃⟩
      refine ⟨hk₁.trans (hk₂.trans hk₃), ?_, fun hf => hfresh₃ (hfresh₂ (hfresh₁ hf))⟩
      rw [Nat.add_zero] at hst₃
      -- the three parts lie one behind the other on the medium
      have h₁₂ : Stored d₂.medium abs (data.take h ++ (data.drop h).take m) := by
        apply hst₁.append
        · rw [htake]
          exact hfrom₂
        · rw [htake]
          exact hst₂
      have hlen : (data.take h ++ (data.drop h).take m).length = h + m := by
        rw [List.length_append, htake, hmid]
      have h₁₂₃ : Stored d₃.medium abs
          (data.take h ++ (data.drop h).take m ++ (data.drop h).drop m) := by
        apply h₁₂.append
        · rw [hlen, ← Nat.add_assoc]
          exact hfrom₃
        · rw [hlen, ← Nat.add_assoc]
          exact hst₃
      rw [List.append_assoc, List.take_append_drop, List.take_append_drop] at h₁₂₃
      exact h₁₂₃
    -- a failure leaves the buffer in step with the medium
    · rintro _ d₃ ⟨hk₃, hfresh₃⟩
      exact ⟨hk₁.trans (hk₂.trans hk₃), hfresh₃⟩
  · rintro _ d₂ ⟨hk₂, hfresh₂⟩
    exact ⟨hk₁.trans hk₂, hfresh₂⟩

/-! ### Calls -/

/-- What the checks of `partition_io` let through. -/
theorem refuse_cases (d : AmigaDev) (size : Nat) (offset : Int) :
    (d.refuse size offset = some (.ok 0) ∧ (offset < 0 ∨ size = 0 ∨ d.size ≤ offset)) ∨
    (d.refuse size offset = some (.error ()) ∧ 0 ≤ offset ∧ d.size < offset + size) ∨
    (d.refuse size offset = none ∧ 0 ≤ offset ∧ 0 < size ∧ offset + size ≤ d.size) := by
  unfold AmigaDev.refuse
  split
  · exact .inl ⟨rfl, by omega⟩
  · split
    · exact .inl ⟨rfl, by omega⟩
    · split
      · exact .inr (.inl ⟨rfl, by omega, by omega⟩)
      · exact .inr (.inr ⟨rfl, by omega, by omega, by omega⟩)

/-- `exfat_pread` on a unit whose transfers may fail. -/
theorem amigaPread_wp (ho : Opened d) (addr size : Nat) (offset : Int) :
    wp (amigaPread addr size offset)
      (fun r d' => UnitKept d d' ∧ d'.medium = d.medium ∧
        (r = (0, []) ∧ (offset < 0 ∨ size = 0 ∨ d.size ≤ offset) ∨
          r.1 = size ∧ r.2.length = size ∧ 0 ≤ offset ∧ offset + size ≤ d.size) ∧
        (Fresh d → (d.bouncesOver addr size (d.firstbyte + offset.toNat) →
          0 < d.tailLen (d.firstbyte + offset.toNat) size) → Fresh d'))
      (fun _ d' => UnitKept d d' ∧ d'.medium = d.medium ∧
        (Fresh d → ¬ d.bouncesOver addr size (d.firstbyte + offset.toNat) → Fresh d')) d := by
  unfold amigaPread
  simp only [wp_bind, wp_get]
  obtain ⟨href, hout⟩ | ⟨href, -, -⟩ | ⟨href, h0, -, hend⟩ := refuse_cases d size offset
  · rw [href]
    exact ⟨UnitKept.refl ho, rfl, .inl ⟨rfl, hout⟩, fun hf _ => hf⟩
  · rw [href]
    exact ⟨UnitKept.refl ho, rfl, fun hf _ => hf⟩
  · rw [href]
    simp only [wp_bind]
    refine wp_conseq (partitionRead_wp ho addr size (Nat.le_add_right _ _)) ?_
    rintro bytes d' ⟨hk, hmed, hlen, hfresh⟩
    exact ⟨hk, hmed, .inr ⟨rfl, hlen, h0, hend⟩, hfresh⟩

/-- `exfat_pwrite` on a unit whose transfers may fail. -/
theorem amigaPwrite_wp (ho : Opened d) (addr : Nat) (data : List UInt8) (offset : Int) :
    wp (amigaPwrite addr data offset)
      (fun n d' => UnitKept d d' ∧
        (n = 0 ∧ (offset < 0 ∨ data.length = 0 ∨ d.size ≤ offset) ∨
          n = data.length ∧ Stored d'.medium (d.firstbyte + offset.toNat) data ∧ 0 ≤ offset ∧
          offset + data.length ≤ d.size) ∧
        (Fresh d → Fresh d'))
      (fun _ d' => UnitKept d d' ∧ (Fresh d → Fresh d')) d := by
  unfold amigaPwrite
  simp only [wp_bind, wp_get]
  obtain ⟨href, hout⟩ | ⟨href, -, -⟩ | ⟨href, h0, -, hend⟩ := refuse_cases d data.length offset
  · rw [href]
    exact ⟨UnitKept.refl ho, .inl ⟨rfl, hout⟩, id⟩
  · rw [href]
    exact ⟨UnitKept.refl ho, id⟩
  · rw [href]
    simp only [wp_bind]
    refine wp_mono (partitionWrite_wp ho addr data (d.firstbyte + offset.toNat)) ?_ ?_
    · rintro _ d' ⟨hk, hst, hfresh⟩
      exact ⟨hk, .inr ⟨rfl, hst, h0, hend⟩, hfresh⟩
    · rintro _ d' ⟨hk, hfresh⟩
      exact ⟨hk, fun _ => hfresh⟩

end ExFat
