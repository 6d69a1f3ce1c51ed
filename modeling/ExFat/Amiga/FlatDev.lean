import ExFat.Amiga.DevIo
import Mathlib.Algebra.Order.Group.Nat

namespace ExFat

open Bytes Program

/-!
# The device layer as a flat array of bytes

`partition_io` cuts a range into a part of a block, whole blocks, and a part of a block.  The bounce
buffer serves all three, and `bounce_lba` must not name a block that the buffer no longer holds
(`Cached`).  A write keeps that rule.  A read does not: when the driver cannot reach the caller's
buffer, whole blocks are read through the bounce buffer and `bounce_lba` is left as it is.

`AmigaDev.spoils` says for which requests, in which states, this happens.  As long as no request
is of that kind the layer behaves as an array of bytes.
-/

/-- What the device promises: a block size that is a power of two, a partition that starts at a
block and ends below `2^64`, a medium, and no errors; and the bounce buffer is one block long. -/
structure Healthy (d : AmigaDev) (b : Store) : Prop where
  block : ∃ k, d.blocksize = 2 ^ k
  aligned : d.firstbyte % d.blocksize = 0
  room : d.firstbyte + d.size < 2 ^ 64
  medium : d.medium = some b
  sound : ∀ k, d.faults k = false
  length : d.bounce.length = d.blocksize

/-- `bounce_lba` names the block that the bounce buffer holds, or none. -/
def Cached (d : AmigaDev) (b : Store) : Prop :=
  d.bounceLba ≠ noBlock → d.bounce = readBytes b d.bounceLba d.blocksize

/-- The device after transfers. -/
def AmigaDev.upd (d : AmigaDev) (b : Store) (bounce : List UInt8) (lba transfers : Nat)
    (writes : List Store) : AmigaDev :=
  { d with
    medium := some b
    bounce := bounce
    bounceLba := lba
    transfers := transfers
    writes := writes }

variable {d : AmigaDev} {b : Store}

/-- Whether a transfer is bounced does not depend on what has been transferred. -/
theorem bounced_upd (b : Store) (bounce : List UInt8) (lba transfers : Nat) (writes : List Store)
    (addr : Nat) : (d.upd b bounce lba transfers writes).bounced addr = d.bounced addr := rfl

/-- What `exfat_open` checks and allocates, whatever becomes of the medium: the block size is a
power of two, the partition starts at a block, and the bounce buffer is one block long. -/
structure Opened (d : AmigaDev) : Prop where
  block : ∃ k, d.blocksize = 2 ^ k
  aligned : d.firstbyte % d.blocksize = 0
  length : d.bounce.length = d.blocksize

/-- A healthy device is open. -/
theorem Healthy.opened (h : Healthy d b) : Opened d := ⟨h.block, h.aligned, h.length⟩

/-- A block has bytes. -/
theorem Opened.blocksize_pos (h : Opened d) : 0 < d.blocksize := by
  obtain ⟨k, hk⟩ := h.block
  rw [hk]
  exact Nat.two_pow_pos k

/-- A block has bytes. -/
theorem Healthy.blocksize_pos (h : Healthy d b) : 0 < d.blocksize := h.opened.blocksize_pos

/-- Masking with `blockmask` is taking the remainder. -/
theorem Opened.and_blockmask (h : Opened d) (x : Nat) : x &&& d.blockmask = x % d.blocksize := by
  obtain ⟨k, hk⟩ := h.block
  unfold AmigaDev.blockmask
  rw [hk, Nat.and_two_pow_sub_one_eq_mod]

/-- The block mask takes the remainder of a division by the block size. -/
theorem Healthy.and_blockmask (h : Healthy d b) (x : Nat) : x &&& d.blockmask = x % d.blocksize :=
  h.opened.and_blockmask x

/-- A device stays healthy through its transfers. -/
theorem Healthy.upd (h : Healthy d b) {b' : Store} {bounce : List UInt8} {lba transfers : Nat}
    {writes : List Store} (hlen : bounce.length = d.blocksize) :
    Healthy (d.upd b' bounce lba transfers writes) b' :=
  ⟨h.block, h.aligned, h.room, rfl, h.sound, hlen⟩

/-- A device is what its medium, buffer and counters say. -/
theorem Healthy.eq_upd (h : Healthy d b) :
    d = d.upd b d.bounce d.bounceLba d.transfers d.writes := by
  unfold AmigaDev.upd
  rw [← h.medium]

/-! ### Transfers of whole blocks -/

/-- A healthy device reads whole blocks. -/
theorem rawRead_run (h : Healthy d b) {len off : Nat} (hl : len % d.blocksize = 0)
    (ho : off % d.blocksize = 0) :
    rawRead len off d = .ok (some (readBytes b off len))
      (d.upd b d.bounce d.bounceLba (d.transfers + 1) d.writes) := by
  have hr : d.refuses len off = false := by
    unfold AmigaDev.refuses
    simp [h.sound, hl, ho]
  unfold rawRead
  simp only [run_bind, run_get, run_set, h.medium, hr, Bool.false_eq_true, if_false, run_pure,
    AmigaDev.upd]

/-- A healthy device writes whole blocks. -/
theorem rawWrite_run (h : Healthy d b) {data : List UInt8} {off : Nat}
    (hl : data.length % d.blocksize = 0) (ho : off % d.blocksize = 0) :
    rawWrite data off d = .ok true (d.upd (writeBytes b off data) d.bounce d.bounceLba
      (d.transfers + 1) (b :: d.writes)) := by
  have hr : d.refuses data.length off = false := by
    unfold AmigaDev.refuses
    simp [h.sound, hl, ho]
  unfold rawWrite
  simp only [run_bind, run_get, h.medium, hr, Bool.false_eq_true, if_false, run_set, run_pure]
  rfl

/-- One iteration of `aligned_io` transfers whole blocks, at least one and no more than are left. -/
theorem Opened.chunk_spec (h : Opened d) (addr : Nat) {len : Nat} (hpos : 0 < len)
    (hlen : len % d.blocksize = 0) :
    0 < d.chunk addr len ∧ d.chunk addr len ≤ len ∧ d.chunk addr len % d.blocksize = 0 := by
  have hbs := h.blocksize_pos
  have hle : d.blocksize ≤ len := Nat.le_of_dvd hpos (Nat.dvd_of_mod_eq_zero hlen)
  have hblock : 0 < d.blocksize ∧ d.blocksize ≤ len ∧ d.blocksize % d.blocksize = 0 :=
    ⟨hbs, hle, Nat.mod_self _⟩
  unfold AmigaDev.chunk
  by_cases hb : d.bounced addr = true
  · rw [if_pos hb]
    exact hblock
  · rw [if_neg hb, h.and_blockmask]
    by_cases hmax : d.maxtransfer ≠ 0 ∧ len > d.maxtransfer
    · simp only [if_pos hmax]
      split
      · exact hblock
      · refine ⟨by omega, by omega, ?_⟩
        exact Nat.mod_eq_zero_of_dvd (Nat.dvd_sub_mod _)
    · simp only [if_neg hmax]
      rw [if_neg (by omega)]
      exact ⟨hpos, Nat.le_refl _, hlen⟩

/-- One piece less of a transfer needs one step less. -/
theorem sub_div_le {len chunk bs fuel : Nat} (hc : 0 < chunk) (hle : chunk ≤ len)
    (hm : chunk % bs = 0) (hf : len / bs ≤ fuel + 1) : (len - chunk) / bs ≤ fuel := by
  obtain ⟨k, rfl⟩ := Nat.dvd_of_mod_eq_zero hm
  have hk : 0 < k := Nat.pos_of_mul_pos_left hc
  rw [Nat.sub_mul_div]
  omega

/-- The block that a read of whole blocks leaves in the bounce buffer, if it goes through it. -/
def AmigaDev.lastBounced (d : AmigaDev) : (fuel addr len off : Nat) → Option Nat
  | 0, _, _, _ => none
  | fuel + 1, addr, len, off =>
    if len = 0 then none
    else
      match d.lastBounced fuel (addr + d.chunk addr len) (len - d.chunk addr len)
          (off + d.chunk addr len) with
      | some block => some block
      | none => if d.bounced addr then some off else none

/-- The last block a transfer bounces does not depend on what has been transferred. -/
theorem lastBounced_upd (fuel addr len off : Nat) (bounce : List UInt8) (lba transfers : Nat)
    (writes : List Store) :
    (d.upd b bounce lba transfers writes).lastBounced fuel addr len off =
      d.lastBounced fuel addr len off := by
  induction fuel generalizing addr len off with
  | zero => rfl
  | succ fuel ih =>
    unfold AmigaDev.lastBounced
    have hc : (d.upd b bounce lba transfers writes).chunk addr len = d.chunk addr len := rfl
    rw [hc, ih]
    rfl

/-- The bounce buffer after a read of whole blocks. -/
def bounceAfter (d : AmigaDev) (b : Store) : Option Nat → List UInt8
  | none => d.bounce
  | some block => readBytes b block d.blocksize

/-- The bounce buffer keeps the length of a block. -/
theorem length_bounceAfter (h : Healthy d b) (block : Option Nat) :
    (bounceAfter d b block).length = d.blocksize := by
  cases block with
  | none => exact h.length
  | some block => exact length_readBytes ..

/-- `aligned_io` reads the blocks asked for. -/
theorem alignedReadLoop_run (h : Healthy d b) (fuel addr len off : Nat)
    (hf : len / d.blocksize ≤ fuel) (hl : len % d.blocksize = 0) (ho : off % d.blocksize = 0) :
    ∃ transfers, alignedReadLoop fuel addr len off d = .ok (readBytes b off len)
      (d.upd b (bounceAfter d b (d.lastBounced fuel addr len off))
        d.bounceLba transfers d.writes) := by
  have hbs := h.blocksize_pos
  -- On the fuel, one chunk a step.  The medium is only read; the buffer may change.
  induction fuel generalizing d addr len off with
  | zero =>
    have h0 : len = 0 := by
      have := Nat.div_add_mod len d.blocksize
      rw [Nat.le_zero.mp hf, hl] at this
      omega
    subst h0
    exact ⟨d.transfers, congrArg (EStateM.Result.ok []) h.eq_upd⟩
  | succ fuel ih =>
    unfold alignedReadLoop AmigaDev.lastBounced
    by_cases h0 : len = 0
    · subst h0
      exact ⟨d.transfers, congrArg (EStateM.Result.ok []) h.eq_upd⟩
    · rw [if_neg h0]
      simp only [if_neg h0]
      obtain ⟨hc0, hcl, hcm⟩ := h.opened.chunk_spec addr (by omega) hl
      generalize hc : d.chunk addr len = chunk at *
      have hdvd : d.blocksize ∣ chunk := Nat.dvd_of_mod_eq_zero hcm
      have hl' : (len - chunk) % d.blocksize = 0 :=
        Nat.mod_eq_zero_of_dvd (Nat.dvd_sub (Nat.dvd_of_mod_eq_zero hl) hdvd)
      have ho' : (off + chunk) % d.blocksize = 0 :=
        Nat.mod_eq_zero_of_dvd (Nat.dvd_add (Nat.dvd_of_mod_eq_zero ho) hdvd)
      -- what this iteration leaves in the bounce buffer
      let bounce := if d.bounced addr = true then readBytes b off chunk else d.bounce
      have hblen : bounce.length = d.blocksize := by
        by_cases hb : d.bounced addr = true
        · have hcb : chunk = d.blocksize := by
            rw [← hc, AmigaDev.chunk, if_pos hb]
          simp only [bounce, if_pos hb, length_readBytes, hcb]
        · simp only [bounce, if_neg hb, h.length]
      obtain ⟨transfers, hrun⟩ := ih (d := d.upd b bounce d.bounceLba (d.transfers + 1) d.writes)
        (h.upd hblen) (addr + chunk) (len - chunk) (off + chunk)
        (sub_div_le hc0 hcl hcm hf) hl' ho' hbs
      refine ⟨transfers, ?_⟩
      have hmod : (if (d.upd b d.bounce d.bounceLba (d.transfers + 1) d.writes).bounced addr = true
          then { d.upd b d.bounce d.bounceLba (d.transfers + 1) d.writes with
            bounce := readBytes b off chunk }
          else d.upd b d.bounce d.bounceLba (d.transfers + 1) d.writes) =
          d.upd b bounce d.bounceLba (d.transfers + 1) d.writes := by
        -- a chunk goes through the buffer when its address does not suit the driver
        rw [bounced_upd]
        by_cases hb : d.bounced addr = true
        · simp only [bounce, if_pos hb]
          rfl
        · simp only [bounce, if_neg hb]
      simp only [run_bind, run_get, hc, rawRead_run h hcm ho, run_modify]
      rw [hmod, hrun]
      simp only [run_pure]
      have hread : readBytes b off chunk ++ readBytes b (off + chunk) (len - chunk) =
          readBytes b off len := by
        rw [← readBytes_add, Nat.add_sub_cancel' hcl]
      rw [hread]
      congr 1
      rw [lastBounced_upd]
      show AmigaDev.upd d b
          (bounceAfter (d.upd b bounce d.bounceLba (d.transfers + 1) d.writes) b _)
        d.bounceLba transfers d.writes = _
      congr 1
      -- the last block that went through the buffer is the one that is left in it
      cases d.lastBounced fuel (addr + chunk) (len - chunk) (off + chunk) with
      | some block => rfl
      | none =>
        by_cases hb : d.bounced addr = true
        · have hcb : chunk = d.blocksize := by
            rw [← hc, AmigaDev.chunk, if_pos hb]
          simp only [bounceAfter, if_pos hb, AmigaDev.upd, bounce, hcb]
        · simp only [bounceAfter, if_neg hb, AmigaDev.upd, bounce]

/-- Writing no bytes does nothing. -/
theorem Healthy.wrote_nothing (h : Healthy d b) {data : List UInt8} {off : Nat}
    (h0 : data.length = 0) :
    ∃ bounce transfers writes, bounce.length = d.blocksize ∧
      (EStateM.Result.ok ⟨⟩ d : EStateM.Result Unit AmigaDev PUnit) = .ok ⟨⟩
        (d.upd (writeBytes b off data) bounce d.bounceLba transfers writes) := by
  rw [List.length_eq_zero_iff.mp h0, writeBytes_nil]
  exact ⟨_, _, _, h.length, congrArg (EStateM.Result.ok PUnit.unit) h.eq_upd⟩

/-- `aligned_io` writes the blocks it is given. -/
theorem alignedWriteLoop_run (h : Healthy d b) (fuel addr : Nat) (data : List UInt8) (off : Nat)
    (hf : data.length / d.blocksize ≤ fuel) (hl : data.length % d.blocksize = 0)
    (ho : off % d.blocksize = 0) :
    ∃ bounce transfers writes, bounce.length = d.blocksize ∧
      alignedWriteLoop fuel addr data off d = .ok ⟨⟩
        (d.upd (writeBytes b off data) bounce d.bounceLba transfers writes) := by
  have hbs := h.blocksize_pos
  -- On the fuel; each step writes a chunk, through the buffer or straight from the data.
  induction fuel generalizing d b addr data off with
  | zero =>
    apply h.wrote_nothing
    have := Nat.div_add_mod data.length d.blocksize
    rw [Nat.le_zero.mp hf, hl] at this
    omega
  | succ fuel ih =>
    unfold alignedWriteLoop
    by_cases h0 : data.length = 0
    · rw [if_pos h0]
      exact h.wrote_nothing h0
    · rw [if_neg h0]
      obtain ⟨hc0, hcl, hcm⟩ := h.opened.chunk_spec addr (by omega) hl
      simp only [run_bind, run_get, run_modify]
      generalize hc : d.chunk addr data.length = chunk at *
      have hdvd : d.blocksize ∣ chunk := Nat.dvd_of_mod_eq_zero hcm
      have htake : (data.take chunk).length = chunk := by
        rw [List.length_take]
        omega
      have hdrop : (data.drop chunk).length = data.length - chunk := List.length_drop
      have ho' : (off + chunk) % d.blocksize = 0 :=
        Nat.mod_eq_zero_of_dvd (Nat.dvd_add (Nat.dvd_of_mod_eq_zero ho) hdvd)
      let bounce := if d.bounced addr = true then data.take chunk else d.bounce
      have hblen : bounce.length = d.blocksize := by
        by_cases hb : d.bounced addr = true
        · have hcb : chunk = d.blocksize := by
            rw [← hc, AmigaDev.chunk, if_pos hb]
          simp only [bounce, if_pos hb, htake]
          exact hcb
        · simp only [bounce, if_neg hb, h.length]
      -- the data is copied into the buffer before the transfer
      have hmod : (if d.bounced addr = true then { d with bounce := data.take chunk } else d) =
          d.upd b bounce d.bounceLba d.transfers d.writes := by
        have hmed := h.medium
        by_cases hb : d.bounced addr = true
        · simp only [bounce, if_pos hb, AmigaDev.upd, hmed]
        · simp only [bounce, if_neg hb, AmigaDev.upd, ← hmed]
      have h1 : Healthy (d.upd b bounce d.bounceLba d.transfers d.writes) b := h.upd hblen
      rw [hmod, rawWrite_run h1 (by rw [htake]; exact hcm) ho]
      simp only [if_true]
      have h2 : Healthy (d.upd (writeBytes b off (data.take chunk)) bounce d.bounceLba
          (d.transfers + 1) (b :: d.writes)) (writeBytes b off (data.take chunk)) := h.upd hblen
      have hl' : (data.drop chunk).length % d.blocksize = 0 := by
        rw [hdrop]
        exact Nat.mod_eq_zero_of_dvd (Nat.dvd_sub (Nat.dvd_of_mod_eq_zero hl) hdvd)
      obtain ⟨bounce', transfers', writes', hblen', hrun⟩ := ih h2 (addr + chunk) (data.drop chunk)
        (off + chunk) (by rw [hdrop]; exact sub_div_le hc0 hcl hcm hf) hl' ho' hbs
      refine ⟨bounce', transfers', writes', hblen', hrun.trans ?_⟩
      have happ := writeBytes_append b off (data.take chunk) (data.drop chunk)
      rw [htake, List.take_append_drop] at happ
      rw [happ]
      rfl

/-! ### Parts of a block -/

/-- `fetch_block` gets the block into the bounce buffer. -/
theorem fetchBlock_run (h : Healthy d b) {block : Nat} (hb : block % d.blocksize = 0)
    (hc : d.bounceLba = block → d.bounce = readBytes b block d.blocksize) :
    ∃ transfers, fetchBlock block d =
      .ok ⟨⟩ (d.upd b (readBytes b block d.blocksize) block transfers d.writes) := by
  unfold fetchBlock
  simp only [run_bind, run_get]
  by_cases hhit : d.bounceLba = block
  · rw [if_pos hhit]
    refine ⟨d.transfers, ?_⟩
    rw [← hc hhit, ← hhit]
    exact congrArg (EStateM.Result.ok PUnit.unit) h.eq_upd
  · rw [if_neg hhit]
    have h1 : Healthy { d with bounceLba := noBlock } b :=
      ⟨h.block, h.aligned, h.room, h.medium, h.sound, h.length⟩
    refine ⟨d.transfers + 1, ?_⟩
    simp only [run_bind, run_modify]
    rw [rawRead_run h1 (by exact Nat.mod_self _) (by exact hb)]
    rfl

/-- A part of a block is read from a healthy device. -/
theorem readPart_run (h : Healthy d b) {block start n : Nat} (hb : block % d.blocksize = 0)
    (hc : d.bounceLba = block → d.bounce = readBytes b block d.blocksize)
    (hn : start + n ≤ d.blocksize) :
    ∃ transfers, readPart block start n d = .ok (readBytes b (block + start) n)
      (d.upd b (readBytes b block d.blocksize) block transfers d.writes) := by
  obtain ⟨transfers, hrun⟩ := fetchBlock_run h hb hc
  refine ⟨transfers, ?_⟩
  unfold readPart
  rw [run_bind_ok hrun]
  show EStateM.Result.ok (((readBytes b block d.blocksize).drop start).take n) _ = _
  rw [take_drop_readBytes, Nat.min_eq_left (by omega)]

/-- A part of a block is written to a healthy device. -/
theorem writePart_run (h : Healthy d b) {block start : Nat} {data : List UInt8}
    (hb : block % d.blocksize = 0)
    (hc : d.bounceLba = block → d.bounce = readBytes b block d.blocksize)
    (hn : start + data.length ≤ d.blocksize) :
    ∃ transfers writes, writePart block start data d = .ok ⟨⟩
      (d.upd (writeBytes b (block + start) data)
        (readBytes (writeBytes b (block + start) data) block d.blocksize)
        block transfers writes) := by
  obtain ⟨transfers, hrun⟩ := fetchBlock_run h hb hc
  have hlen : (patch (readBytes b block d.blocksize) start data).length = d.blocksize := by
    rw [length_patch (by simpa using hn), length_readBytes]
  have h1 : Healthy (d.upd b (patch (readBytes b block d.blocksize) start data) block transfers
      d.writes) b := h.upd hlen
  have hwrite := rawWrite_run h1
    (by rw [hlen]; exact Nat.mod_self _) hb
  have hback := readBytes_writeBytes_self b block (patch (readBytes b block d.blocksize) start data)
  rw [hlen, writeBytes_patch hn] at hback
  rw [writeBytes_patch hn] at hwrite
  refine ⟨transfers + 1, b :: d.writes, ?_⟩
  unfold writePart
  rw [run_bind_ok hrun]
  change (rawWrite (patch (readBytes b block d.blocksize) start data) block >>= _) (d.upd b
    (patch (readBytes b block d.blocksize) start data) block transfers d.writes) = _
  rw [run_bind_ok hwrite, hback]
  rfl

/-! ### Ranges of the partition -/

/-- The cut of a range into head, middle and tail. -/
structure Cut (bs abs size h m : Nat) : Prop where
  head : abs % bs ≠ 0 → abs % bs + h ≤ bs
  headZero : abs % bs = 0 → h = 0
  headLe : h ≤ size
  middle : m % bs = 0
  middleLe : m ≤ size - h
  middleZero : size - h < bs → m = 0
  tail : size - h - m < bs
  aligned : 0 < size - h → (abs + h) % bs = 0

/-- The head and the middle of a transfer end at block boundaries. -/
theorem Opened.cut (hd : Opened d) (abs size : Nat) :
    Cut d.blocksize abs size (d.headLen abs size) (d.middleLen (size - d.headLen abs size)) := by
  have hbs := hd.blocksize_pos
  have hmod := Nat.mod_lt abs hbs
  have hhead : d.headLen abs size =
      if abs % d.blocksize ≠ 0 then min (d.blocksize - abs % d.blocksize) size else 0 := by
    unfold AmigaDev.headLen
    rw [hd.and_blockmask]
  generalize hH : d.headLen abs size = h at *
  have hmid : d.middleLen (size - h) =
      if size - h ≥ d.blocksize then size - h - (size - h) % d.blocksize else 0 := by
    unfold AmigaDev.middleLen
    rw [hd.and_blockmask]
  have hm : (size - h - (size - h) % d.blocksize) % d.blocksize = 0 :=
    Nat.mod_eq_zero_of_dvd (Nat.dvd_sub_mod _)
  have hlt := Nat.mod_lt (size - h) hbs
  have hle := Nat.mod_le (size - h) d.blocksize
  rw [hmid]
  -- the range begins at a block boundary, or inside a block
  by_cases ha : abs % d.blocksize = 0
  · rw [if_neg (by simpa using ha)] at hhead
    subst hhead
    refine ⟨fun h => absurd ha h, fun _ => rfl, by omega, ?_, ?_, ?_, ?_, fun _ => ha⟩
    all_goals split <;> first | omega | exact hm | exact Nat.zero_mod _
  · rw [if_pos ha] at hhead
    refine ⟨by omega, fun h => absurd h ha, by omega, ?_, ?_, ?_, ?_, ?_⟩
    case refine_5 =>
      intro hpos
      have hsum : abs + h = abs - abs % d.blocksize + d.blocksize := by
        have := Nat.mod_le abs d.blocksize
        omega
      rw [hsum, Nat.add_mod_right]
      exact Nat.mod_eq_zero_of_dvd (Nat.dvd_sub_mod _)
    all_goals split <;> first | omega | exact hm | exact Nat.zero_mod _

/-- A read leaves in the bounce buffer a block that `bounce_lba` does not name: whole blocks are
read through the buffer, the last of them is not the one named, and no block is fetched after it. -/
def AmigaDev.spoils (d : AmigaDev) (addr size abs : Nat) : Prop :=
  let h := d.headLen abs size
  let m := d.middleLen (size - h)
  let lba := if abs &&& d.blockmask ≠ 0 then abs - (abs &&& d.blockmask) else d.bounceLba
  match d.lastBounced (m / d.blocksize) (addr + h) m (abs + h) with
  | none => False
  | some block => lba ≠ noBlock ∧ block ≠ lba ∧ (size - h - m = 0 ∨ abs + h + m = lba)

/-- `partition_io` for a read: the bytes of the range, and a bounce buffer that is still good. -/
theorem partitionRead_run (h : Healthy d b) (hc : Cached d b) (addr size abs : Nat)
    (hend : abs + size < 2 ^ 64) (hs : ¬ d.spoils addr size abs) :
    ∃ bounce lba transfers, bounce.length = d.blocksize ∧
      partitionRead addr size abs d =
        .ok (readBytes b abs size) (d.upd b bounce lba transfers d.writes) ∧
      Cached (d.upd b bounce lba transfers d.writes) b := by
  have hbs := h.blocksize_pos
  have cut := h.opened.cut abs size
  unfold AmigaDev.spoils at hs
  simp only at hs
  unfold partitionRead
  simp only [run_bind, run_get]
  rw [h.and_blockmask] at hs ⊢
  generalize d.headLen abs size = hl at *
  generalize d.middleLen (size - hl) = m at *
  have hmod := Nat.mod_le abs d.blocksize
  -- the head
  have hhead : ∃ bounce₁ lba₁ transfers₁, bounce₁.length = d.blocksize ∧
      readIf (abs % d.blocksize ≠ 0) (readPart (abs - abs % d.blocksize) (abs % d.blocksize) hl) d =
        .ok (readBytes b abs hl) (d.upd b bounce₁ lba₁ transfers₁ d.writes) ∧
      lba₁ = (if abs % d.blocksize ≠ 0 then abs - abs % d.blocksize else d.bounceLba) ∧
      (lba₁ ≠ noBlock → bounce₁ = readBytes b lba₁ d.blocksize) := by
    -- the head comes from one block, which is fetched unless the buffer holds it
    by_cases ha : abs % d.blocksize ≠ 0
    · have hblock : (abs - abs % d.blocksize) % d.blocksize = 0 :=
        Nat.mod_eq_zero_of_dvd (Nat.dvd_sub_mod _)
      obtain ⟨transfers, hrun⟩ := readPart_run h (n := hl) hblock (fun hlba => by
        rw [← hlba]
        apply hc
        unfold noBlock
        omega) (cut.head ha)
      rw [Nat.sub_add_cancel hmod] at hrun
      simp only [readIf, if_pos ha]
      exact ⟨_, _, _, length_readBytes .., hrun, rfl, fun _ => rfl⟩
    · simp only [readIf, if_neg ha]
      rw [cut.headZero (by simpa using ha)]
      exact ⟨_, _, _, h.length, congrArg (EStateM.Result.ok []) h.eq_upd, rfl, hc⟩
  obtain ⟨bounce₁, lba₁, transfers₁, hlen₁, hrun₁, hlba₁, hcached₁⟩ := hhead
  rw [hrun₁]
  simp only
  have h₁ : Healthy (d.upd b bounce₁ lba₁ transfers₁ d.writes) b := h.upd hlen₁
  -- the middle
  have hmiddle : ∃ transfers₂, readIf (size - hl ≥ d.blocksize)
      (alignedRead (addr + hl) m (abs + hl))
      (d.upd b bounce₁ lba₁ transfers₁ d.writes) = .ok (readBytes b (abs + hl) m)
      (d.upd b (bounceAfter (d.upd b bounce₁ lba₁ transfers₁ d.writes) b
        (d.lastBounced (m / d.blocksize) (addr + hl) m (abs + hl))) lba₁ transfers₂ d.writes) := by
    by_cases hge : size - hl ≥ d.blocksize
    · obtain ⟨transfers, hrun⟩ := alignedReadLoop_run h₁ (m / d.blocksize) (addr + hl) m (abs + hl)
        (Nat.le_refl _) cut.middle (cut.aligned (by omega))
      rw [lastBounced_upd] at hrun
      simp only [readIf, if_pos hge]
      exact ⟨transfers, hrun⟩
    · simp only [readIf, if_neg hge]
      rw [cut.middleZero (by omega), Nat.zero_div]
      exact ⟨transfers₁, rfl⟩
  obtain ⟨transfers₂, hrun₂⟩ := hmiddle
  rw [hrun₂]
  simp only
  have hlen₂ := length_bounceAfter h₁ (d.lastBounced (m / d.blocksize) (addr + hl) m (abs + hl))
  have hread : readBytes b abs hl ++ readBytes b (abs + hl) m =
      readBytes b abs (hl + m) := (readBytes_add b abs hl m).symm
  -- the buffer is good after the middle, unless the tail fetches another block
  have hgood : size - hl - m = 0 ∨ abs + hl + m = lba₁ → lba₁ ≠ noBlock →
      bounceAfter (d.upd b bounce₁ lba₁ transfers₁ d.writes) b
        (d.lastBounced (m / d.blocksize) (addr + hl) m (abs + hl)) =
        readBytes b lba₁ d.blocksize := by
    -- the middle leaves the name of the buffered block as it was: this is where a read spoils it
    intro htail hne
    cases hq : d.lastBounced (m / d.blocksize) (addr + hl) m (abs + hl) with
    | none => exact hcached₁ hne
    | some block =>
      rw [hq, ← hlba₁] at hs
      simp only at hs
      have : block = lba₁ := by
        by_contra hbl
        exact hs ⟨hne, hbl, htail⟩
      rw [this]
      rfl
  -- the tail fetches its block, whatever the buffer holds by then
  by_cases htail : size - hl - m > 0
  · simp only [readIf, if_pos htail]
    have hne : abs + hl + m ≠ noBlock := by
      have h1 := cut.headLe
      have h2 := cut.middleLe
      unfold noBlock
      omega
    have hblock : (abs + hl + m) % d.blocksize = 0 := by
      have h1 := cut.middleLe
      have h2 := cut.aligned (by omega)
      exact Nat.mod_eq_zero_of_dvd
        (Nat.dvd_add (Nat.dvd_of_mod_eq_zero h2) (Nat.dvd_of_mod_eq_zero cut.middle))
    obtain ⟨transfers₃, hrun₃⟩ := readPart_run (d := d.upd b (bounceAfter
        (d.upd b bounce₁ lba₁ transfers₁ d.writes) b
        (d.lastBounced (m / d.blocksize) (addr + hl) m (abs + hl))) lba₁ transfers₂ d.writes)
      (h.upd hlen₂) (n := size - hl - m) hblock (by
        intro (hlba : lba₁ = abs + hl + m)
        rw [← hlba]
        exact hgood (Or.inr hlba.symm) (by rw [hlba]; exact hne)) (by
        have := cut.tail
        show 0 + (size - hl - m) ≤ d.blocksize
        omega)
    refine ⟨_, abs + hl + m, transfers₃, length_readBytes .., ?_, fun _ => rfl⟩
    have hall : readBytes b abs hl ++ readBytes b (abs + hl) m ++
        readBytes b (abs + hl + m + 0) (size - hl - m) = readBytes b abs size := by
      rw [hread, Nat.add_zero, Nat.add_assoc abs hl m, ← readBytes_add,
        show hl + m + (size - hl - m) = size by omega]
    rw [hrun₃]
    simp only [run_pure]
    rw [hall]
    rfl
  -- without a tail the buffer keeps what the middle left in it
  · simp only [readIf, if_neg htail]
    have hsum : hl + m = size := by
      have h1 := cut.headLe
      have h2 := cut.middleLe
      omega
    refine ⟨_, lba₁, transfers₂, hlen₂, ?_, ?_⟩
    · simp only [run_pure, List.append_nil]
      rw [hread, hsum]
    · intro hne
      exact hgood (Or.inl (by omega)) hne

/-- What a part of a write leaves: its data on the medium, and a bounce buffer that is good. -/
def WrotePart (d : AmigaDev) (b : Store) (off : Nat) (data : List UInt8)
    (r : EStateM.Result Unit AmigaDev PUnit) : Prop :=
  ∃ bounce lba transfers writes, bounce.length = d.blocksize ∧
    r = .ok ⟨⟩ (d.upd (writeBytes b off data) bounce lba transfers writes) ∧
    Cached (d.upd (writeBytes b off data) bounce lba transfers writes) (writeBytes b off data)

/-- Writing no bytes does nothing. -/
theorem wrotePart_nil (h : Healthy d b) (hc : Cached d b) (off : Nat) :
    WrotePart d b off [] (.ok ⟨⟩ d) := by
  refine ⟨d.bounce, d.bounceLba, d.transfers, d.writes, h.length, ?_, ?_⟩
  · rw [writeBytes_nil, ← h.eq_upd]
  · rw [writeBytes_nil, ← h.eq_upd]
    exact hc

/-- A part of a block has been written, and the bounce buffer is true. -/
theorem writePart_wrote (h : Healthy d b) (hc : Cached d b) (block start : Nat) (data : List UInt8)
    (hb : block % d.blocksize = 0) (hne : block ≠ noBlock)
    (hn : start + data.length ≤ d.blocksize) :
    WrotePart d b (block + start) data (writePart block start data d) := by
  obtain ⟨transfers, writes, hrun⟩ := writePart_run h hb (fun hlba => by
    rw [← hlba]
    exact hc (by rw [hlba]; exact hne)) hn
  exact ⟨_, _, transfers, writes, length_readBytes .., hrun, fun _ => rfl⟩

/-- Whole blocks have been written, and the bounce buffer is true. -/
theorem alignedWrite_wrote (h : Healthy d b) (addr : Nat) {data : List UInt8} {off : Nat}
    (hl : data.length % d.blocksize = 0) (ho : off % d.blocksize = 0) :
    WrotePart d b off data (alignedWrite addr data off d) := by
  have h1 : Healthy (d.upd b d.bounce noBlock d.transfers d.writes) b := h.upd h.length
  obtain ⟨bounce, transfers, writes, hlen, hrun⟩ := alignedWriteLoop_run h1
    (data.length / d.blocksize) addr data off (Nat.le_refl _) hl ho
  refine ⟨bounce, noBlock, transfers, writes, hlen, ?_, fun hne => absurd rfl hne⟩
  have hstart : ({ d with bounceLba := noBlock } : AmigaDev) =
      d.upd b d.bounce noBlock d.transfers d.writes := by
    unfold AmigaDev.upd
    rw [← h.medium]
  unfold alignedWrite
  simp only [run_bind, run_modify, run_get]
  rw [hstart]
  exact hrun

/-- `partition_io` for a write: the data is on the medium, and the bounce buffer is good. -/
theorem partitionWrite_run (h : Healthy d b) (hc : Cached d b) (addr abs : Nat) (data : List UInt8)
    (hend : abs + data.length < 2 ^ 64) :
    WrotePart d b abs data (partitionWrite addr data abs d) := by
  have cut := h.opened.cut abs data.length
  unfold partitionWrite
  simp only [run_bind, run_get]
  rw [h.and_blockmask]
  generalize d.headLen abs data.length = hl at *
  generalize d.middleLen (data.length - hl) = m at *
  have hmod := Nat.mod_le abs d.blocksize
  have hle := cut.headLe
  have hmle := cut.middleLe
  have htake : (data.take hl).length = hl := by
    rw [List.length_take]
    omega
  have hmid : ((data.drop hl).take m).length = m := by
    rw [List.length_take, List.length_drop]
    omega
  -- the head
  have hhead : WrotePart d b abs (data.take hl) (writeIf (abs % d.blocksize ≠ 0)
      (writePart (abs - abs % d.blocksize) (abs % d.blocksize) (data.take hl)) d) := by
    -- a block that is written in part is read, patched and written back
    by_cases ha : abs % d.blocksize ≠ 0
    · simp only [writeIf, if_pos ha]
      have hw := writePart_wrote h hc (abs - abs % d.blocksize) (abs % d.blocksize) (data.take hl)
        (Nat.mod_eq_zero_of_dvd (Nat.dvd_sub_mod _))
        (by unfold noBlock; omega) (by rw [htake]; exact cut.head ha)
      rw [Nat.sub_add_cancel hmod] at hw
      exact hw
    · simp only [writeIf, if_neg ha]
      rw [cut.headZero (by simpa using ha), List.take_zero]
      exact wrotePart_nil h hc abs
  obtain ⟨bounce₁, lba₁, transfers₁, writes₁, hlen₁, hrun₁, hc₁⟩ := hhead
  rw [hrun₁]
  simp only
  have h₁ : Healthy (d.upd (writeBytes b abs (data.take hl)) bounce₁ lba₁ transfers₁ writes₁)
      (writeBytes b abs (data.take hl)) := h.upd hlen₁
  -- the middle
  have hmiddle : WrotePart (d.upd (writeBytes b abs (data.take hl)) bounce₁ lba₁ transfers₁ writes₁)
      (writeBytes b abs (data.take hl)) (abs + hl) ((data.drop hl).take m)
      (writeIf (data.length - hl ≥ d.blocksize)
        (alignedWrite (addr + hl) ((data.drop hl).take m) (abs + hl))
        (d.upd (writeBytes b abs (data.take hl)) bounce₁ lba₁ transfers₁ writes₁)) := by
    by_cases hge : data.length - hl ≥ d.blocksize
    · simp only [writeIf, if_pos hge]
      have hbs := h.blocksize_pos
      exact alignedWrite_wrote h₁ _ (by rw [hmid]; exact cut.middle) (cut.aligned (by omega))
    · simp only [writeIf, if_neg hge]
      rw [cut.middleZero (by omega), List.take_zero]
      exact wrotePart_nil h₁ hc₁ _
  obtain ⟨bounce₂, lba₂, transfers₂, writes₂, hlen₂, hrun₂, hc₂⟩ := hmiddle
  have hsofar : writeBytes (writeBytes b abs (data.take hl)) (abs + hl) ((data.drop hl).take m) =
      writeBytes b abs (data.take hl ++ (data.drop hl).take m) := by
    rw [← writeBytes_append, htake]
  rw [hsofar] at hrun₂ hc₂
  rw [hrun₂]
  simp only
  have h₂ : Healthy (d.upd (writeBytes b abs (data.take hl ++ (data.drop hl).take m)) bounce₂ lba₂
      transfers₂ writes₂) (writeBytes b abs (data.take hl ++ (data.drop hl).take m)) := h₁.upd hlen₂
  -- the tail
  have hlast : data.take hl ++ (data.drop hl).take m ++ (data.drop hl).drop m = data := by
    rw [List.append_assoc, List.take_append_drop, List.take_append_drop]
  have hfinal : writeBytes (writeBytes b abs (data.take hl ++ (data.drop hl).take m)) (abs + hl + m)
      ((data.drop hl).drop m) = writeBytes b abs data := by
    have happ := writeBytes_append b abs (data.take hl ++ (data.drop hl).take m)
      ((data.drop hl).drop m)
    rw [List.length_append, htake, hmid, ← Nat.add_assoc, hlast] at happ
    exact happ
  -- the tail is patched in its block as the head was
  by_cases htail : data.length - hl - m > 0
  · simp only [writeIf, if_pos htail]
    have hblock : (abs + hl + m) % d.blocksize = 0 :=
      Nat.mod_eq_zero_of_dvd (Nat.dvd_add (Nat.dvd_of_mod_eq_zero (cut.aligned (by omega)))
        (Nat.dvd_of_mod_eq_zero cut.middle))
    have hw := writePart_wrote h₂ hc₂ (abs + hl + m) 0 ((data.drop hl).drop m) hblock
      (by unfold noBlock; omega) (by
        have := cut.tail
        show 0 + _ ≤ d.blocksize
        rw [List.length_drop, List.length_drop]
        omega)
    obtain ⟨bounce₃, lba₃, transfers₃, writes₃, hlen₃, hrun₃, hc₃⟩ := hw
    rw [Nat.add_zero, hfinal] at hrun₃ hc₃
    exact ⟨bounce₃, lba₃, transfers₃, writes₃, hlen₃, hrun₃, hc₃⟩
  · simp only [writeIf, if_neg htail]
    have hnil : (data.drop hl).drop m = [] := by
      rw [List.drop_drop, List.drop_eq_nil_iff]
      omega
    rw [hnil, writeBytes_nil] at hfinal
    rw [hfinal] at hc₂
    refine ⟨bounce₂, lba₂, transfers₂, writes₂, hlen₂, ?_, hc₂⟩
    rw [hfinal]
    rfl

/-! ### Runs -/

/-- A call of the device interface; `addr` is the address of the caller's buffer. -/
inductive DevOp
  | pread (addr size : Nat) (offset : Int)
  | pwrite (addr : Nat) (data : List UInt8) (offset : Int)
  | read (addr size : Nat)
  | write (addr : Nat) (data : List UInt8)
  | seek (offset : Int)

/-- The call: the number returned and the bytes put into the buffer. -/
def DevOp.run : DevOp → DevM (Nat × List UInt8)
  | .pread addr size offset => amigaPread addr size offset
  | .pwrite addr data offset => do
    let n ← amigaPwrite addr data offset
    pure (n, [])
  | .read addr size => amigaRead addr size
  | .write addr data => do
    let n ← amigaWrite addr data
    pure (n, [])
  | .seek offset => do
    amigaSeek offset
    pure (0, [])

/-- Calls one after the other. -/
def runDevOps : List DevOp → DevM (List (Nat × List UInt8))
  | [] => pure []
  | op :: ops => do
    let r ← op.run
    let rs ← runDevOps ops
    pure (r :: rs)

/-- The same calls on an array of bytes with a file position; `base` is where the partition starts.
-/
def DevOp.flat (base : Nat) : DevOp → Store × Int → (Nat × List UInt8) × (Store × Int)
  | .pread _ size offset, (b, pos) => ((size, readBytes b (base + offset.toNat) size), (b, pos))
  | .pwrite _ data offset, (b, pos) =>
    ((data.length, []), (writeBytes b (base + offset.toNat) data, pos))
  | .read _ size, (b, pos) => ((size, readBytes b (base + pos.toNat) size), (b, pos + size))
  | .write _ data, (b, pos) =>
    ((data.length, []), (writeBytes b (base + pos.toNat) data, pos + data.length))
  | .seek offset, (b, _) => ((0, []), (b, if offset < 0 then 0 else offset))

/-- The calls on a flat array of bytes with a file position: the answers and the state after. -/
def runFlat (base : Nat) : List DevOp → Store × Int → List (Nat × List UInt8) × (Store × Int)
  | [], s => ([], s)
  | op :: ops, s =>
    let r := op.flat base s
    let rs := runFlat base ops r.2
    (r.1 :: rs.1, rs.2)

/-- The range of the call lies inside the partition. -/
def DevOp.InRange (d : AmigaDev) : DevOp → Prop
  | .pread _ size offset => 0 ≤ offset ∧ offset + size ≤ d.size
  | .pwrite _ data offset => 0 ≤ offset ∧ offset + data.length ≤ d.size
  | .read _ size => 0 ≤ d.pos ∧ d.pos + size ≤ d.size
  | .write _ data => 0 ≤ d.pos ∧ d.pos + data.length ≤ d.size
  | .seek _ => True

/-- The call is a read that leaves a block in the bounce buffer that `bounce_lba` does not name. -/
def DevOp.Spoils (d : AmigaDev) : DevOp → Prop
  | .pread addr size offset => d.spoils addr size (d.firstbyte + offset.toNat)
  | .read addr size => d.spoils addr size (d.firstbyte + d.pos.toNat)
  | _ => False

/-- Every call of the list, in the state it is made in, has its range inside the partition and meets
`P`. -/
def EachCall (P : AmigaDev → DevOp → Prop) : AmigaDev → List DevOp → Prop
  | _, [] => True
  | d, op :: ops => op.InRange d ∧ P d op ∧ ∀ r d', op.run d = .ok r d' → EachCall P d' ops

/-- `exfat_pread` on a healthy device reads the bytes of the partition. -/
theorem amigaPread_run (h : Healthy d b) (hc : Cached d b) {addr size : Nat} {offset : Int}
    (hr : 0 ≤ offset ∧ offset + size ≤ d.size)
    (hs : ¬ d.spoils addr size (d.firstbyte + offset.toNat)) :
    ∃ bounce lba transfers, bounce.length = d.blocksize ∧
      amigaPread addr size offset d = .ok (size, readBytes b (d.firstbyte + offset.toNat) size)
        (d.upd b bounce lba transfers d.writes) ∧
      Cached (d.upd b bounce lba transfers d.writes) b := by
  have hroom := h.room
  have hpos : ¬ offset < 0 := by omega
  unfold amigaPread AmigaDev.refuse
  simp only [run_bind, run_get]
  by_cases h0 : size = 0
  · subst h0
    simp only [hpos, false_or, if_true]
    refine ⟨d.bounce, d.bounceLba, d.transfers, h.length, ?_, ?_⟩
    · rw [← h.eq_upd]
      rfl
    · rw [← h.eq_upd]
      exact hc
  · have hlt : ¬ offset ≥ d.size := by omega
    have hend : ¬ offset + size > d.size := by omega
    simp only [hpos, h0, hlt, hend, or_self, if_false]
    obtain ⟨bounce, lba, transfers, hlen, hrun, hcached⟩ := partitionRead_run h hc addr size
      (d.firstbyte + offset.toNat) (by omega) hs
    exact ⟨bounce, lba, transfers, hlen, run_bind_ok hrun, hcached⟩

/-- `exfat_pwrite` on a healthy device writes the bytes of the partition. -/
theorem amigaPwrite_run (h : Healthy d b) (hc : Cached d b) {addr : Nat} {data : List UInt8}
    {offset : Int} (hr : 0 ≤ offset ∧ offset + data.length ≤ d.size) :
    ∃ bounce lba transfers writes, bounce.length = d.blocksize ∧
      amigaPwrite addr data offset d = .ok data.length
        (d.upd (writeBytes b (d.firstbyte + offset.toNat) data) bounce lba transfers writes) ∧
      Cached (d.upd (writeBytes b (d.firstbyte + offset.toNat) data) bounce lba transfers writes)
        (writeBytes b (d.firstbyte + offset.toNat) data) := by
  have hroom := h.room
  have hpos : ¬ offset < 0 := by omega
  unfold amigaPwrite AmigaDev.refuse
  simp only [run_bind, run_get]
  by_cases h0 : data.length = 0
  · have hnil : data = [] := List.length_eq_zero_iff.mp h0
    subst hnil
    simp only [hpos, false_or, List.length_nil, if_true, writeBytes_nil]
    refine ⟨d.bounce, d.bounceLba, d.transfers, d.writes, h.length, ?_, ?_⟩
    · rw [← h.eq_upd]
      rfl
    · rw [← h.eq_upd]
      exact hc
  · have hlt : ¬ offset ≥ d.size := by omega
    have hend : ¬ offset + data.length > d.size := by omega
    simp only [hpos, h0, hlt, hend, or_self, if_false]
    obtain ⟨bounce, lba, transfers, writes, hlen, hrun, hcached⟩ := partitionWrite_run h hc addr
      (d.firstbyte + offset.toNat) data (by omega)
    exact ⟨bounce, lba, transfers, writes, hlen, run_bind_ok hrun, hcached⟩

/-- A call that does not spoil the bounce buffer does what it does on an array of bytes. -/
theorem DevOp.run_flat {op : DevOp} (h : Healthy d b) (hc : Cached d b) (hr : op.InRange d)
    (hs : ¬ op.Spoils d) :
    ∃ d' b', op.run d = .ok (op.flat d.firstbyte (b, d.pos)).1 d' ∧
      (op.flat d.firstbyte (b, d.pos)).2 = (b', d'.pos) ∧ d'.firstbyte = d.firstbyte ∧
      Healthy d' b' ∧ Cached d' b' := by
  -- Each call is one transfer of `partition_io`, or moves the position only.
  cases op with
  | pread addr size offset =>
    obtain ⟨bounce, lba, transfers, hlen, hrun, hcached⟩ := amigaPread_run h hc hr hs
    exact ⟨_, b, hrun, rfl, rfl, h.upd hlen, hcached⟩
  | pwrite addr data offset =>
    obtain ⟨bounce, lba, transfers, writes, hlen, hrun, hcached⟩ := amigaPwrite_run h hc hr
    exact ⟨_, _, run_bind_ok hrun, rfl, rfl, h.upd hlen, hcached⟩
  | read addr size =>
    obtain ⟨bounce, lba, transfers, hlen, hrun, hcached⟩ := amigaPread_run h hc hr hs
    refine ⟨{ d.upd b bounce lba transfers d.writes with pos := d.pos + size }, b, ?_, rfl, rfl,
      ?_, hcached⟩
    · show amigaRead addr size d = _
      unfold amigaRead
      rw [run_bind_ok (run_get d), run_bind_ok hrun]
      rfl
    · have h' : Healthy (d.upd b bounce lba transfers d.writes) b := h.upd hlen
      exact ⟨h'.block, h'.aligned, h'.room, h'.medium, h'.sound, h'.length⟩
  | write addr data =>
    obtain ⟨bounce, lba, transfers, writes, hlen, hrun, hcached⟩ := amigaPwrite_run h hc hr
    refine ⟨{ d.upd (writeBytes b (d.firstbyte + d.pos.toNat) data) bounce lba transfers writes with
      pos := d.pos + data.length }, _, ?_, rfl, rfl, ?_, hcached⟩
    · show (amigaWrite addr data >>= _) d = _
      have hw : amigaWrite addr data d = .ok data.length
          { d.upd (writeBytes b (d.firstbyte + d.pos.toNat) data) bounce lba transfers writes with
            pos := d.pos + data.length } := by
        unfold amigaWrite
        rw [run_bind_ok (run_get d), run_bind_ok hrun]
        rfl
      rw [run_bind_ok hw]
      rfl
    · have h' : Healthy (d.upd (writeBytes b (d.firstbyte + d.pos.toNat) data) bounce lba transfers
          writes) (writeBytes b (d.firstbyte + d.pos.toNat) data) := h.upd hlen
      exact ⟨h'.block, h'.aligned, h'.room, h'.medium, h'.sound, h'.length⟩
  -- seeking before the start of the partition sets the position to its start
  | seek offset =>
    exact ⟨{ d with pos := if offset < 0 then 0 else offset }, b, rfl, rfl, rfl,
      ⟨h.block, h.aligned, h.room, h.medium, h.sound, h.length⟩, hc⟩

/-- In every run none of whose reads spoils the bounce buffer, every call returns what it returns on
an array of bytes, the medium is that array, and `bounce_lba` names the block the buffer holds. -/
theorem runDevOps_flat (ops : List DevOp) (h : Healthy d b) (hc : Cached d b)
    (hs : EachCall (fun d op => ¬ op.Spoils d) d ops) :
    ∃ d' b', runDevOps ops d = .ok (runFlat d.firstbyte ops (b, d.pos)).1 d' ∧
      (runFlat d.firstbyte ops (b, d.pos)).2 = (b', d'.pos) ∧ Healthy d' b' ∧ Cached d' b' := by
  induction ops generalizing d b with
  | nil => exact ⟨d, b, rfl, rfl, h, hc⟩
  | cons op ops ih =>
    obtain ⟨hr, hsp, hnext⟩ := hs
    obtain ⟨d₁, b₁, hrun, hflat, hbase, h₁, hc₁⟩ := op.run_flat h hc hr hsp
    obtain ⟨d', b', hruns, hflats, h', hc'⟩ := ih h₁ hc₁ (hnext _ _ hrun)
    rw [hbase, ← hflat] at hruns hflats
    refine ⟨d', b', ?_, hflats, h', hc'⟩
    unfold runDevOps
    rw [run_bind_ok hrun, run_bind_ok hruns]
    rfl

/-! A card of two blocks, the first full of ones and the second full of twos, behind a driver that
reaches even addresses only. -/

/-- Two blocks of 512 bytes, one of ones and one of twos. -/
def twoBlocks : Store := fun a => if a < 512 then 1 else 2

/-- A partition of these two blocks that cannot transfer to odd addresses. -/
def twoBlockDev : AmigaDev where
  medium := some twoBlocks
  firstbyte := 0
  size := 1024
  blocksize := 512
  mask := 0x7ffffffe

/-- The device serves its two blocks. -/
theorem twoBlockDev_healthy : Healthy twoBlockDev twoBlocks :=
  ⟨⟨9, rfl⟩, rfl, by decide, rfl, fun _ => rfl, List.length_replicate ..⟩

/-- The bounce buffer of the device holds nothing yet. -/
theorem twoBlockDev_cached : Cached twoBlockDev twoBlocks := fun hne => absurd rfl hne

/-- The second block read into an odd buffer, and then a byte written. -/
def bouncedRead : List DevOp := [.pread 1 512 512, .pwrite 1 [7] 3]

set_option maxRecDepth 8000 in
/-- Reads that end with a bounced one behave as on the array. -/
theorem runDevOps_flat_bouncedRead :
    ∃ d' b', runDevOps bouncedRead twoBlockDev =
        .ok (runFlat 0 bouncedRead (twoBlocks, 0)).1 d' ∧
      (runFlat 0 bouncedRead (twoBlocks, 0)).2 = (b', d'.pos) ∧ Healthy d' b' ∧ Cached d' b' := by
  have hrun : DevOp.run (.pread 1 512 512) twoBlockDev =
      .ok (512, readBytes twoBlocks 512 512 ++ [])
        (twoBlockDev.upd twoBlocks (readBytes twoBlocks 512 512) noBlock 1 []) := rfl
  refine runDevOps_flat bouncedRead twoBlockDev_healthy twoBlockDev_cached ?_
  refine ⟨⟨by decide, by decide⟩, fun h => h.1 rfl, ?_⟩
  intro r d' hd'
  rw [hrun] at hd'
  cases hd'
  exact ⟨⟨by decide, by decide⟩, id, fun _ _ _ => trivial⟩

/-- A small read caches the first block, a read of the second block into an odd buffer goes through
the cache, and the first block is read again. -/
def staleReads : List DevOp := [.pread 0 4 0, .pread 1 512 512, .pread 0 4 0]

set_option maxRecDepth 8000 in
/-- The three reads are inside the partition. -/
theorem staleReads_inRange : EachCall (fun _ _ => True) twoBlockDev staleReads := by
  have h₁ : DevOp.run (.pread 0 4 0) twoBlockDev = .ok (4, [1, 1, 1, 1])
      (twoBlockDev.upd twoBlocks (readBytes twoBlocks 0 512) 0 1 []) := rfl
  have h₂ : DevOp.run (.pread 1 512 512)
      (twoBlockDev.upd twoBlocks (readBytes twoBlocks 0 512) 0 1 []) =
      .ok (512, readBytes twoBlocks 512 512 ++ [])
        (twoBlockDev.upd twoBlocks (readBytes twoBlocks 512 512) 0 2 []) := rfl
  refine ⟨⟨by decide, by decide⟩, trivial, ?_⟩
  intro r d' hd'
  rw [h₁] at hd'
  cases hd'
  refine ⟨⟨by decide, by decide⟩, trivial, ?_⟩
  intro r d' hd'
  rw [h₂] at hd'
  cases hd'
  exact ⟨⟨by decide, by decide⟩, trivial, fun _ _ _ => trivial⟩

/-- The replies of a run. -/
def replies (r : EStateM.Result Unit AmigaDev (List (Nat × List UInt8))) :
    List (Nat × List UInt8) :=
  match r with
  | .ok rs _ => rs
  | .error _ _ => []

set_option maxRecDepth 8000 in
/-- The device layer is not an array of bytes: the first block is returned as the second. -/
theorem runDevOps_not_flat :
    ¬ ∀ (ops : List DevOp) (d : AmigaDev) (b : Store), Healthy d b → Cached d b →
      EachCall (fun _ _ => True) d ops →
      ∃ d' b', runDevOps ops d = .ok (runFlat d.firstbyte ops (b, d.pos)).1 d' ∧
        (runFlat d.firstbyte ops (b, d.pos)).2 = (b', d'.pos) ∧ Cached d' b' := by
  intro h
  obtain ⟨d', b', hrun, -⟩ := h staleReads twoBlockDev twoBlocks twoBlockDev_healthy
    twoBlockDev_cached staleReads_inRange
  have hreal : (replies (runDevOps staleReads twoBlockDev)).getLast? = some (4, [2, 2, 2, 2]) := rfl
  have hflat : (runFlat 0 staleReads (twoBlocks, 0)).1.getLast? = some (4, [1, 1, 1, 1]) := rfl
  have heq : replies (runDevOps staleReads twoBlockDev) = (runFlat 0 staleReads (twoBlocks, 0)).1 :=
    congrArg replies hrun
  rw [heq, hflat] at hreal
  exact absurd hreal (by decide)

end ExFat
