import ExFat.Amiga.PartTable

namespace ExFat

open Bytes Program

/-!
# What the partition scan reports

The scan is three nested loops that share one probe buffer and stop at a number of partitions.
Apart from that it goes through the slots of the tables in their order and reports those whose
block, as the probe buffer shows it, carries the signature.  The block is the one at the start of
the slot, or, where this lies outside the device, the one the buffer still holds.
-/

variable (d : Disk) (m : ScanMemory)

/-! ### The slots of the tables -/

/-- The slots among `slots` that are taken for an exFAT volume when they are probed in this order
with `buf` in the probe buffer. -/
def showing : (buf : List UInt8) → (slots : List ExfatPartition) → List ExfatPartition
  | _, [] => []
  | buf, p :: slots =>
    let r := isExfatAt d m p.firstLba buf
    if r.1 then p :: showing r.2 slots else showing r.2 slots

/-- The slots in the blocks of an extended partition. -/
def ebrSlots (extStart : Nat) : (links here : Nat) → (ebr : List UInt8) → List ExfatPartition
  | 0, _, _ => []
  | links + 1, here, ebr =>
    match d.readAt ebr here with
    | none => []
    | some ebr =>
      -- a sector without the signature ends the chain
      if le16at m.behindEbr ebr mbrSig ≠ 0xaa55 then []
      else
        -- the used entry of the sector, and behind it what its link leads to
        (if ebrUsed m ebr then [ebrSlot m here ebr] else []) ++
          match ebrNext m extStart ebr with
          | none => []
          | some next => ebrSlots extStart links next ebr

/-- The slots in the entries of a GPT. -/
def gptSlots (entLba entSize : Nat) : (left i : Nat) → (hdr : List UInt8) → List ExfatPartition
  | 0, _, _ => []
  | left + 1, i, hdr =>
    match d.readAt hdr ((entLba + gptOffset entSize i / d.blocksize) % 2 ^ 64) with
    | none => []
    | some hdr =>
      (gptSlot m hdr (gptOffset entSize i % d.blocksize)).toList ++
        gptSlots entLba entSize left (i + 1) hdr

/-- The slots of the GPT, if there is one. -/
def gptTable (i : Nat) : List ExfatPartition :=
  if !m.allocScan i then []
  else
    match d.pread (List.replicate d.blocksize 0) d.blocksize with
    | none => []
    | some hdr =>
      -- no table where the protective MBR says there is one
      if !textAt m.behindHdr hdr 0 gptSignature then []
      else
        let entCount := le32at m.behindHdr hdr gptEntCount
        gptSlots d m (le64at m.behindHdr hdr gptEntLba) (le32at m.behindHdr hdr gptEntSize)
          -- at most 128 entries are looked at
          (if entCount > 128 then 128 else entCount) 0 hdr

/-- The slots that slot `i` of the MBR stands for. -/
def mbrSlots (mbr : List UInt8) (i : Nat) : List ExfatPartition :=
  let e := mbrTable + i * mbrEntrySize
  let type := byteAt m.behindBuf mbr (e + 4)
  let first := le32at m.behindBuf mbr (e + 8)
  let count := le32at m.behindBuf mbr (e + 12)
  -- an unused slot
  if type = 0 ∨ count = 0 then []
  -- the protective MBR
  else if type = mbrTypeGpt then gptTable d m i
  -- an extended partition with its chain
  else if isExtendedType type then
    if !m.allocScan i then []
    else ebrSlots d m first ebrMaxLinks first (List.replicate d.blocksize 0)
  else [⟨first, count⟩]

/-- The slots of the MBR from `i` on that show an exFAT volume. -/
def mbrShowing (mbr : List UInt8) : (left i : Nat) → List ExfatPartition
  | 0, _ => []
  | left + 1, i => showing d m mbr (mbrSlots d m mbr i) ++ mbrShowing mbr left (i + 1)

/-- The slots of all tables on the device that show an exFAT volume; none if the device is one
volume or has no table. -/
def exfatSlots : List ExfatPartition :=
  match d.pread (List.replicate d.blocksize 0) 0 with
  | none => []
  | some mbr =>
    -- a volume without a partition table
    if textAt m.behindBuf mbr 3 exfatSignature then []
    -- neither a volume nor a table
    else if le16at m.behindBuf mbr mbrSig ≠ 0xaa55 then []
    else mbrShowing d m mbr mbrEntries 0

/-! ### The loops go through the slots -/

variable {d m}

/-- A probe and what follows it. -/
theorem probeSlot_append {max : Nat} (p : ExfatPartition) (buf : List UInt8)
    {out : List ExfatPartition} (hout : out.length < max) (slots : List ExfatPartition) :
    (probeSlot d m max p buf out).1 ++ (showing d m (probeSlot d m max p buf out).2 slots).take
        (max - (probeSlot d m max p buf out).1.length) =
      out ++ (showing d m buf (p :: slots)).take (max - out.length) := by
  unfold probeSlot addPartition
  rw [showing]
  dsimp only
  split
  next hit =>
    obtain ⟨k, hk⟩ : ∃ k, max - out.length = k + 1 := ⟨max - out.length - 1, by omega⟩
    rw [if_neg (by omega), hk, List.take_succ_cons, List.append_assoc, List.length_append,
      List.length_singleton, show max - (out.length + 1) = k by omega]
    rfl
  next hit => rfl

/-- The loop over an extended partition lists the slots of its links that show an exFAT volume. -/
theorem ebrLoop_eq (extStart max links here : Nat) (ebr buf : List UInt8)
    (out : List ExfatPartition) :
    (ebrLoop d m extStart max links here ebr buf out).1 =
      out ++ (showing d m buf (ebrSlots d m extStart links here ebr)).take (max - out.length) := by
  -- On the links still to be followed.
  induction links generalizing here ebr buf out with
  | zero => simp [ebrLoop, ebrSlots, showing]
  | succ links ih =>
    rw [ebrLoop, ebrSlots]
    -- the list is full
    split
    next hfull =>
      rw [show max - out.length = 0 by omega, List.take_zero, List.append_nil]
    next hfull =>
    cases d.readAt ebr here with
    | none => simp [showing]
    -- a block without a signature ends the chain
    | some ebr =>
      dsimp only
      split
      · simp [showing]
      · -- the slot of this block, if it is used, and then the rest of the chain
        by_cases hused : ebrUsed m ebr = true
        · rw [if_pos hused, if_pos hused, List.singleton_append]
          cases ebrNext m extStart ebr with
          | none =>
            have h := probeSlot_append (d := d) (m := m) (ebrSlot m here ebr) buf
              (by omega : out.length < max) []
            simpa [showing] using h
          | some next =>
            dsimp only
            rw [ih, probeSlot_append _ _ (by omega)]
        · rw [if_neg hused, if_neg hused, List.nil_append]
          cases ebrNext m extStart ebr with
          | none => simp [showing]
          | some next => exact ih next ebr buf out

/-- The loop over a GPT lists the slots of its entries that show an exFAT volume. -/
theorem gptLoop_eq (entLba entSize max left i : Nat) (hdr buf : List UInt8)
    (out : List ExfatPartition) :
    (gptLoop d m entLba entSize max left i hdr buf out).1 =
      out ++ (showing d m buf (gptSlots d m entLba entSize left i hdr)).take
      (max - out.length) := by
  induction left generalizing i hdr buf out with
  | zero => simp [gptLoop, gptSlots, showing]
  | succ left ih =>
    rw [gptLoop, gptSlots]
    split
    next hfull =>
      rw [show max - out.length = 0 by omega, List.take_zero, List.append_nil]
    next hfull =>
    cases d.readAt hdr ((entLba + gptOffset entSize i / d.blocksize) % 2 ^ 64) with
    | none => simp [showing]
    | some hdr =>
      dsimp only
      cases gptSlot m hdr (gptOffset entSize i % d.blocksize) with
      | none =>
        rw [Option.toList_none, List.nil_append]
        exact ih (i + 1) hdr buf out
      | some p =>
        dsimp only
        rw [ih, Option.toList_some, List.singleton_append, probeSlot_append _ _ (by omega)]

/-! ### The MBR -/

/-- No block of the device can be read, but no read fails either. -/
def Disk.Idle (d : Disk) : Prop := ∀ buf offset, d.pread buf offset = some buf

/-- A disk that transfers nothing leaves the buffer alone. -/
theorem Disk.Idle.isExfatAt (h : d.Idle) (lba : Nat) (buf : List UInt8) :
    (isExfatAt d m lba buf).2 = buf := by
  unfold ExFat.isExfatAt Disk.readAt
  rw [h]

/-- A disk that transfers nothing leaves the buffer alone. -/
theorem Disk.Idle.probeSlot (h : d.Idle) (max : Nat) (p : ExfatPartition) (buf : List UInt8)
    (out : List ExfatPartition) : (probeSlot d m max p buf out).2 = buf :=
  h.isExfatAt p.firstLba buf

/-- A disk that transfers nothing leaves the buffer alone. -/
theorem Disk.Idle.ebrLoop (h : d.Idle) (extStart max links here : Nat) (ebr buf : List UInt8)
    (out : List ExfatPartition) : (ebrLoop d m extStart max links here ebr buf out).2 = buf := by
  induction links generalizing here ebr out with
  | zero => rfl
  | succ links ih =>
    rw [ExFat.ebrLoop]
    split
    · rfl
    · unfold Disk.readAt
      rw [h]
      dsimp only
      split
      · rfl
      · have hr : (if ebrUsed m ebr then ExFat.probeSlot d m max (ebrSlot m here ebr) buf out
            else (out, buf)).2 = buf := by
          split
          · exact h.probeSlot max _ buf out
          · rfl
        cases ebrNext m extStart ebr with
        | none => exact hr
        | some next =>
          dsimp only
          rw [hr]
          exact ih _ _ _

/-- A disk that transfers nothing leaves the buffer alone. -/
theorem Disk.Idle.gptLoop (h : d.Idle) (entLba entSize max left i : Nat) (hdr buf : List UInt8)
    (out : List ExfatPartition) : (gptLoop d m entLba entSize max left i hdr buf out).2 = buf := by
  induction left generalizing i hdr out with
  | zero => rfl
  | succ left ih =>
    rw [ExFat.gptLoop]
    split
    · rfl
    · unfold Disk.readAt
      rw [h]
      dsimp only
      cases gptSlot m hdr (gptOffset entSize i % d.blocksize) with
      | none => exact ih _ _ _
      | some p =>
        dsimp only
        rw [h.probeSlot]
        exact ih _ _ _

/-- A disk that transfers nothing leaves the buffer alone. -/
theorem Disk.Idle.scanExtended (h : d.Idle) (i extStart : Nat) (buf : List UInt8) (max : Nat) :
    (scanExtended d m i extStart buf max).2 = buf := by
  unfold ExFat.scanExtended
  split
  · rfl
  · exact h.ebrLoop _ _ _ _ _ _ _

/-- A disk that transfers nothing leaves the buffer alone. -/
theorem Disk.Idle.scanGpt (h : d.Idle) (i : Nat) (buf : List UInt8) (max : Nat) :
    (scanGpt d m i buf max).2 = buf := by
  unfold ExFat.scanGpt
  split
  · rfl
  · rw [h]
    dsimp only
    split
    · rfl
    · exact h.gptLoop _ _ _ _ _ _ _ _

/-- Reading the first block back gives the MBR again. -/
def Disk.ReadsBack (d : Disk) (mbr : List UInt8) : Prop :=
  (∀ buf, d.pread buf 0 = some mbr) ∨ d.Idle

/-- The partition table is read again. -/
theorem Disk.ReadsBack.pread {mbr buf : List UInt8} (h : d.ReadsBack mbr)
    (hidle : d.Idle → buf = mbr) : d.pread buf 0 = some mbr := by
  obtain h | h := h
  · exact h buf
  · rw [h, hidle h]

/-- `scan_extended` lists the slots of the links. -/
theorem scanExtended_eq (i extStart : Nat) (buf : List UInt8) (max : Nat) :
    (scanExtended d m i extStart buf max).1 = (showing d m buf (if !m.allocScan i then []
        else ebrSlots d m extStart ebrMaxLinks extStart (List.replicate d.blocksize 0))).take
          max := by
  unfold scanExtended
  split
  · simp [showing]
  · rw [ebrLoop_eq, List.nil_append, List.length_nil, Nat.sub_zero]

/-- `scan_gpt` lists the slots of the table. -/
theorem scanGpt_eq (i : Nat) (buf : List UInt8) (max : Nat) :
    (scanGpt d m i buf max).1 = (showing d m buf (gptTable d m i)).take max := by
  unfold scanGpt gptTable
  split
  · simp [showing]
  · cases d.pread (List.replicate d.blocksize 0) d.blocksize with
    | none => simp [showing]
    | some hdr =>
      dsimp only
      split
      · simp [showing]
      · rw [gptLoop_eq, List.nil_append, List.length_nil, Nat.sub_zero]

/-- One slot of the MBR. -/
theorem mbrSlots_eq {mbr : List UInt8} {max i : Nat} {out : List ExfatPartition} {type : UInt8}
    {first count : Nat} (hout : out.length < max)
    (htype : byteAt m.behindBuf mbr (mbrTable + i * mbrEntrySize + 4) = type)
    (hfirst : le32at m.behindBuf mbr (mbrTable + i * mbrEntrySize + 8) = first)
    (hcount : le32at m.behindBuf mbr (mbrTable + i * mbrEntrySize + 12) = count)
    (hused : ¬ (type = 0 ∨ count = 0)) {r : List ExfatPartition × List UInt8}
    (hr : r =
      if type = mbrTypeGpt then
        (out ++ (scanGpt d m i mbr (max - out.length)).1, (scanGpt d m i mbr (max - out.length)).2)
      else if isExtendedType type then
        (out ++ (scanExtended d m i first mbr (max - out.length)).1,
          (scanExtended d m i first mbr (max - out.length)).2)
      else probeSlot d m max ⟨first, count⟩ mbr out) :
    r.1 = out ++ (showing d m mbr (mbrSlots d m mbr i)).take (max - out.length) ∧
      (d.Idle → r.2 = mbr) := by
  subst hr
  unfold mbrSlots
  dsimp only
  rw [htype, hfirst, hcount, if_neg hused]
  split
  next hgpt => exact ⟨by rw [scanGpt_eq], fun h => h.scanGpt i mbr _⟩
  next hgpt =>
  split
  next hext => exact ⟨by rw [scanExtended_eq], fun h => h.scanExtended i first mbr _⟩
  next hext =>
    refine ⟨?_, fun h => h.probeSlot max _ mbr out⟩
    have h := probeSlot_append (d := d) (m := m) ⟨first, count⟩ mbr hout []
    simpa [showing] using h

/-- What comes after the partitions found so far is cut where they leave off. -/
theorem append_take_append {α : Type} (out a b : List α) (max : Nat) :
    (out ++ a.take (max - out.length)) ++ b.take (max - (out ++ a.take (max - out.length)).length) =
      out ++ (a ++ b).take (max - out.length) := by
  rw [List.append_assoc, List.take_append, List.length_append, List.length_take]
  congr 3
  omega

/-- The loop over the MBR goes through the slots of all tables. -/
theorem mbrLoop_eq {mbr : List UInt8} (hback : d.ReadsBack mbr) (max left i : Nat)
    (hi : left + i = mbrEntries) (out : List ExfatPartition) :
    mbrLoop d m max left i mbr out = out ++ (mbrShowing d m mbr left i).take
      (max - out.length) := by
  -- On the entries of the MBR that are left.
  induction left generalizing i out with
  | zero => simp [mbrLoop, mbrShowing]
  | succ left ih =>
    rw [mbrLoop, mbrShowing]
    -- the list is full, or this entry is examined
    split
    next hfull =>
      rw [show max - out.length = 0 by omega, List.take_zero, List.append_nil]
    next hfull =>
    dsimp only
    split
    -- an empty entry has no slots and shows nothing
    next hunused =>
      have hnone : mbrSlots d m mbr i = [] := by
        unfold mbrSlots
        rw [if_pos hunused]
      rw [hnone, showing, List.nil_append]
      exact ih (i + 1) (by omega) out
    next hused =>
      generalize hr :
        (if byteAt m.behindBuf mbr (mbrTable + i * mbrEntrySize + 4) = mbrTypeGpt then _
        else _ : List ExfatPartition × List UInt8) = r
      obtain ⟨hout, hidle⟩ := mbrSlots_eq (by omega) rfl rfl rfl hused hr.symm
      -- the table is read again behind an entry with tables of its own
      split
      · rw [hback.pread hidle]
        dsimp only
        rw [ih (i + 1) (by omega), hout, append_take_append]
      -- it is not read again behind the last one
      next hlast =>
        have hleft : left = 0 := by omega
        subst hleft
        rw [mbrLoop, mbrShowing, List.append_nil]
        exact hout

/-! ### The whole scan -/

/-- The first block of the device is that of an exFAT volume. -/
def superfloppy (d : Disk) (m : ScanMemory) : Bool :=
  (d.pread (List.replicate d.blocksize 0) 0).any fun buf => textAt m.behindBuf buf 3 exfatSignature

/-- A read at the start either finds the first block or leaves every buffer as it is. -/
theorem Disk.readsBack {zeros mbr : List UInt8} (h : d.pread zeros 0 = some mbr) :
    d.ReadsBack mbr := by
  unfold Disk.pread at h
  split at h
  next hzero =>
    have hbs : d.blocksize = 0 := by omega
    refine .inr fun buf offset => ?_
    unfold Disk.pread
    rw [if_pos (.inr hbs)]
  next hzero =>
  split at h
  next hsize =>
    refine .inr fun buf offset => ?_
    unfold Disk.pread
    split
    · rfl
    · rw [if_pos (by omega)]
  next hsize =>
    refine .inl fun buf => ?_
    unfold Disk.pread
    rw [if_neg hzero, if_neg hsize]
    exact h

/-- `exfat_amiga_scan_partitions` lists the slots of the tables, or the whole disk. -/
theorem exfatAmigaScanPartitions_eq (totalSectors max : Nat) :
    exfatAmigaScanPartitions d m totalSectors max =
      if !m.allocBuf then []
      else if superfloppy d m then [⟨0, totalSectors⟩].take max
      else (exfatSlots d m).take max := by
  unfold exfatAmigaScanPartitions superfloppy exfatSlots
  split
  · rfl
  · cases hmbr : d.pread (List.replicate d.blocksize 0) 0 with
    | none => simp
    | some mbr =>
      rw [Option.any_some]
      dsimp only
      split
      · unfold addPartition
        cases max with
        | zero => simp
        | succ max => simp
      · split
        · rw [List.take_nil]
        · rw [mbrLoop_eq (Disk.readsBack hmbr) max mbrEntries 0 rfl,
            List.nil_append, List.length_nil,
            Nat.sub_zero]

/-! ### Sound reports -/

/-- The partition lies inside a device of `totalSectors` blocks. -/
def ExfatPartition.Inside (p : ExfatPartition) (totalSectors : Nat) : Prop :=
  p.firstLba < totalSectors ∧ p.firstLba + p.sectors - 1 < totalSectors

/-- The block at the start of the partition carries the signature. -/
def ExfatPartition.Marked (p : ExfatPartition) (d : Disk) : Prop :=
  readBytes d.bytes (p.firstLba * d.blocksize + 3) 8 = exfatSignature

/-- A signature that is found in bytes that were read is on the disk. -/
theorem textAt_readBytes {behind : Nat → UInt8} {b : Store} {off len : Nat} (hlen : 11 ≤ len)
    (h : textAt behind (readBytes b off len) 3 exfatSignature = true) :
    readBytes b (off + 3) 8 = exfatSignature := by
  unfold textAt at h
  rw [← eq_of_beq h]
  unfold readBytes
  refine List.map_congr_left fun i hi => ?_
  have hi8 : i < 8 := by simpa using hi
  unfold byteAt
  have hin : 3 + i < (readBytes b off len).length := by
    rw [length_readBytes]
    omega
  rw [show (List.range len).map (fun i => b (off + i)) = readBytes b off len from rfl, if_pos hin,
    getD_readBytes, if_pos (by omega), Nat.add_assoc]

/-- A buffer of zeroes shows no signature. -/
theorem textAt_zeros {behind : Nat → UInt8} {len : Nat} (hlen : 11 ≤ len) :
    textAt behind (List.replicate len 0) 3 exfatSignature = false := by
  have hbyte : byteAt behind (List.replicate len 0) (3 + 0) = 0 := by
    unfold byteAt
    have hin : 3 + 0 < (List.replicate len (0 : UInt8)).length := by
      rw [List.length_replicate]
      omega
    rw [if_pos hin]
    simp
  unfold textAt
  rw [beq_eq_false_iff_ne]
  intro h
  have hhead := congrArg (·.getD 0 0) h
  rw [List.getD_eq_getElem?_getD] at hhead
  simp [exfatSignature, hbyte] at hhead

/-- The size of the device, for an extent of `length` bytes. -/
theorem toOff_eq {x : Nat} (h : x < 2 ^ 63) : toOff x = x := by
  unfold toOff
  rw [Nat.mod_eq_of_lt (by omega), if_pos h]

/-- The upper half of the 64-bit numbers are negative offsets. -/
theorem toOff_neg {x : Nat} (h : 2 ^ 63 ≤ x) (hx : x < 2 ^ 64) : toOff x < 0 := by
  unfold toOff
  rw [Nat.mod_eq_of_lt hx, if_neg (by omega)]
  omega

/-- A block inside the device is read, if the drive can. -/
theorem readAt_inside {length lba : Nat} (hsize : d.size = toOff length) (hlength : length < 2 ^ 63)
    (hlba : lba < length / d.blocksize) (buf : List UInt8) :
    d.readAt buf lba =
      if d.bad (lba * d.blocksize) then none
      else some (readBytes d.bytes (lba * d.blocksize) d.blocksize) := by
  have hbs : 0 < d.blocksize := by
    by_contra h
    rw [show d.blocksize = 0 by omega, Nat.div_zero] at hlba
    omega
  have hend : (lba + 1) * d.blocksize ≤ length :=
    (Nat.mul_le_mul_right _ hlba).trans (Nat.div_mul_le_self length d.blocksize)
  rw [Nat.succ_mul] at hend
  rw [toOff_eq hlength] at hsize
  unfold Disk.readAt Disk.pread
  rw [toOff_eq (by omega), if_neg (by omega), if_neg (by omega),
    if_neg (by omega), Int.toNat_natCast]

/-- A disk that transfers nothing shows no volume. -/
theorem Disk.Idle.showing (h : d.Idle) {buf : List UInt8}
    (hbuf : textAt m.behindBuf buf 3 exfatSignature = false) (slots : List ExfatPartition) :
    showing d m buf slots = [] := by
  induction slots with
  | nil => rfl
  | cons p slots ih =>
    have hprobe : ExFat.isExfatAt d m p.firstLba buf = (false, buf) := by
      unfold ExFat.isExfatAt Disk.readAt
      rw [h]
      dsimp only
      rw [hbuf]
    rw [ExFat.showing, hprobe]
    exact ih

/-- A slot inside the device that is taken for an exFAT volume is one. -/
theorem marked_of_mem_showing {length : Nat} (hsize : d.size = toOff length)
    (hlength : length < 2 ^ 63) (hblock : 11 ≤ d.blocksize) {slots : List ExfatPartition}
    {buf : List UInt8} {p : ExfatPartition} (hp : p ∈ showing d m buf slots)
    (hin : p.firstLba < length / d.blocksize) : p.Marked d := by
  induction slots generalizing buf with
  | nil => cases hp
  | cons q slots ih =>
    rw [showing] at hp
    split at hp
    next hit =>
      obtain rfl | hp := List.mem_cons.mp hp
      · unfold isExfatAt at hit
        rw [readAt_inside hsize hlength hin] at hit
        split at hit
        · exact absurd hit Bool.false_ne_true
        next heq =>
          split at heq
          · cases heq
          · cases heq
            exact textAt_readBytes hblock hit
      · exact ih hp
    next hit => exact ih hp

/-- A slot of the table that is listed has the signature on the disk. -/
theorem marked_of_mem_mbrShowing {length : Nat} (hsize : d.size = toOff length)
    (hlength : length < 2 ^ 63) (hblock : 11 ≤ d.blocksize) {mbr : List UInt8} {p : ExfatPartition}
    (left i : Nat) (hp : p ∈ mbrShowing d m mbr left i) (hin : p.firstLba < length / d.blocksize) :
    p.Marked d := by
  induction left generalizing i with
  | zero => cases hp
  | succ left ih =>
    rw [mbrShowing, List.mem_append] at hp
    obtain hp | hp := hp
    · exact marked_of_mem_showing hsize hlength hblock hp hin
    · exact ih (i + 1) hp

/-- A disk that transfers nothing shows no slot of its table. -/
theorem Disk.Idle.mbrShowing (h : d.Idle) {mbr : List UInt8}
    (hmbr : textAt m.behindBuf mbr 3 exfatSignature = false) (left i : Nat) :
    mbrShowing d m mbr left i = [] := by
  induction left generalizing i with
  | zero => rfl
  | succ left ih => rw [ExFat.mbrShowing, h.showing hmbr, List.nil_append, ih]

/-- A disk without bytes transfers nothing. -/
theorem idle_of_size (h : d.size ≤ 0) : d.Idle := by
  intro buf offset
  unfold Disk.pread
  split
  · rfl
  · rw [if_pos (by omega)]

/-- Of the slots of the tables those inside the device are marked. -/
theorem marked_of_mem_exfatSlots {length : Nat} (hsize : d.size = toOff length)
    (hlength : length < 2 ^ 64) (hblock : 11 ≤ d.blocksize) {p : ExfatPartition}
    (hp : p ∈ exfatSlots d m) (hin : p.firstLba < length / d.blocksize) : p.Marked d := by
  unfold exfatSlots at hp
  cases hmbr : d.pread (List.replicate d.blocksize 0) 0 with
  | none =>
    rw [hmbr] at hp
    cases hp
  | some mbr =>
    rw [hmbr] at hp
    dsimp only at hp
    split at hp
    · cases hp
    next hsig =>
    split at hp
    · cases hp
    · by_cases hsmall : length < 2 ^ 63
      · exact marked_of_mem_mbrShowing hsize hsmall hblock _ _ hp hin
      · -- a size that is negative: nothing is ever read
        have hneg : d.size < 0 := by
          rw [hsize]
          exact toOff_neg (by omega) hlength
        rw [(idle_of_size hneg.le).mbrShowing (by simpa using hsig)] at hp
        cases hp

/-- A device that is one exFAT volume. -/
theorem sound_of_superfloppy {length : Nat} (hsize : d.size = toOff length)
    (hlength : length < 2 ^ 64) (hblock : 11 ≤ d.blocksize) (h : superfloppy d m = true) :
    ExfatPartition.Inside ⟨0, length / d.blocksize⟩ (length / d.blocksize) ∧
      ExfatPartition.Marked ⟨0, length / d.blocksize⟩ d := by
  unfold superfloppy Disk.pread at h
  rw [if_neg (by omega)] at h
  split at h
  next hout =>
    rw [Option.any_some, textAt_zeros hblock] at h
    exact absurd h Bool.false_ne_true
  next hout =>
  split at h
  · cases h
  next hend =>
  split at h
  · cases h
  · rw [Option.any_some] at h
    have hpos : length < 2 ^ 63 := by
      by_contra hbig
      have := toOff_neg (by omega) hlength
      omega
    rw [toOff_eq hpos] at hsize
    have htotal : 0 < length / d.blocksize := Nat.div_pos (by omega) (by omega)
    refine ⟨⟨htotal, by dsimp only; omega⟩, ?_⟩
    have := textAt_readBytes hblock h
    unfold ExfatPartition.Marked
    simpa using this

/-- What a report has to be. -/
def ExfatPartition.Sound (p : ExfatPartition) (d : Disk) (totalSectors : Nat) : Prop :=
  p.Inside totalSectors ∧ p.Marked d

/-- The reports are sound exactly if the slots that are taken for exFAT volumes lie inside the
device. -/
theorem sound_iff (length : Nat) (hsize : d.size = toOff length) (hlength : length < 2 ^ 64)
    (hblock : 11 ≤ d.blocksize) (max : Nat) :
    (∀ p ∈ exfatAmigaScanPartitions d m (length / d.blocksize) max,
      p.Sound d (length / d.blocksize)) ↔
      (m.allocBuf = true → superfloppy d m = false →
        ∀ p ∈ (exfatSlots d m).take max, p.Inside (length / d.blocksize)) := by
  rw [exfatAmigaScanPartitions_eq]
  cases m.allocBuf with
  | false => simp
  | true =>
    cases hfloppy : superfloppy d m with
    | true =>
      refine ⟨fun _ _ h => absurd h (by decide), fun _ p hp => ?_⟩
      have hmem := List.mem_of_mem_take hp
      rw [List.mem_singleton] at hmem
      rw [hmem]
      exact sound_of_superfloppy hsize hlength hblock hfloppy
    | false =>
      refine ⟨fun h _ _ p hp => (h p hp).1, fun h p hp => ?_⟩
      have hin := h rfl rfl p hp
      exact ⟨hin, marked_of_mem_exfatSlots hsize hlength hblock (List.mem_of_mem_take hp) hin.1⟩

/-! ### The extent -/

/-- The extent lies inside another one. -/
def DevExtent.Within (e e' : DevExtent) : Prop :=
  e'.firstbyte ≤ e.firstbyte ∧ e.firstbyte + e.length ≤ e'.firstbyte + e'.length

/-- An extent lies within itself. -/
theorem DevExtent.Within.refl (e : DevExtent) : e.Within e := ⟨le_rfl, le_rfl⟩

/-- The extent narrowed to a partition inside the device. -/
theorem within_of_inside {spec : DevExtent} {p : ExfatPartition} (hfirst : spec.firstbyte = 0)
    (hp : p.Inside (spec.length / spec.blocksize)) :
    DevExtent.Within { spec with
      firstbyte := (spec.firstbyte + p.firstLba * spec.blocksize) % 2 ^ 64
      length := p.sectors * spec.blocksize % 2 ^ 64 } spec := by
  obtain ⟨hlba, hend⟩ := hp
  have hle : (p.firstLba + p.sectors) * spec.blocksize ≤ spec.length :=
    (Nat.mul_le_mul_right _ (by omega)).trans (Nat.div_mul_le_self spec.length spec.blocksize)
  rw [Nat.add_mul] at hle
  have hmod := Nat.mod_le (p.firstLba * spec.blocksize) (2 ^ 64)
  have hmod' := Nat.mod_le (p.sectors * spec.blocksize) (2 ^ 64)
  unfold DevExtent.Within
  dsimp only
  rw [hfirst, Nat.zero_add, Nat.zero_add]
  exact ⟨Nat.zero_le _, by omega⟩

/-- A partition at the first cylinder begins at the first byte. -/
theorem specFromEnvec_firstbyte {de : DosEnvec} (h : de.lowCyl = 0) :
    (specFromEnvec de).firstbyte = 0 := by
  unfold specFromEnvec
  rw [h]
  simp

/-- The length of a partition fits into 64 bits. -/
theorem specFromEnvec_length (de : DosEnvec) : (specFromEnvec de).length < 2 ^ 64 :=
  Nat.mod_lt _ (by decide)

/-- The extent is narrowed within the one of the `DosEnvec` if the reports are sound. -/
theorem resolveExtent_within {de : DosEnvec} {opened : Bool} {medium : Store} {bad : Nat → Bool}
    {m : ScanMemory}
    (hsound : ∀ p ∈ exfatAmigaScanPartitions ((specFromEnvec de).disk medium bad) m
      ((specFromEnvec de).length / (specFromEnvec de).blocksize) exfatMaxPartitions,
      p.Inside ((specFromEnvec de).length / (specFromEnvec de).blocksize))
    {r : DevExtent × List ExfatPartition}
    (hr : resolveExtent de.lowCyl (specFromEnvec de) opened medium bad m = some r) :
    r.1.Within (specFromEnvec de) := by
  unfold resolveExtent at hr
  split at hr
  · cases hr
    exact DevExtent.Within.refl _
  next hlow =>
  split at hr
  · cases hr
  · revert hr hsound
    generalize exfatAmigaScanPartitions _ _ _ _ = parts
    intro hsound hr
    cases parts with
    | nil => cases hr
    | cons p rest =>
      dsimp only at hr
      split at hr
      · cases hr
        exact DevExtent.Within.refl _
      · cases hr
        exact within_of_inside (specFromEnvec_firstbyte (not_not.mp hlow))
          (hsound p List.mem_cons_self)

/-- The partitions reported lie inside the device and begin with an exFAT boot sector, and the
extent is narrowed within the one the `DosEnvec` gave, exactly if the slots of the tables that are
taken for exFAT volumes lie inside the device. -/
theorem scanPartitions_sound_iff (de : DosEnvec) (opened : Bool) (medium : Store) (bad : Nat → Bool)
    (m : ScanMemory) (hblock : 11 ≤ (specFromEnvec de).blocksize) :
    ((∀ p ∈ exfatAmigaScanPartitions ((specFromEnvec de).disk medium bad) m
        ((specFromEnvec de).length / (specFromEnvec de).blocksize) exfatMaxPartitions,
        p.Sound ((specFromEnvec de).disk medium bad)
          ((specFromEnvec de).length / (specFromEnvec de).blocksize)) ∧
      ∀ r, resolveExtent de.lowCyl (specFromEnvec de) opened medium bad m = some r →
        r.1.Within (specFromEnvec de)) ↔
    (m.allocBuf = true → superfloppy ((specFromEnvec de).disk medium bad) m = false →
      ∀ p ∈ (exfatSlots ((specFromEnvec de).disk medium bad) m).take exfatMaxPartitions,
        p.Inside ((specFromEnvec de).length / (specFromEnvec de).blocksize)) := by
  have hiff := sound_iff (d := (specFromEnvec de).disk medium bad) (m := m)
    (specFromEnvec de).length rfl
    (specFromEnvec_length de) hblock exfatMaxPartitions
  constructor
  · rintro ⟨hsound, -⟩
    exact hiff.mp hsound
  · intro h
    have hsound := hiff.mpr h
    exact ⟨hsound, fun r hr => resolveExtent_within (fun p hp => (hsound p hp).1) hr⟩

/-! ### Cards with an extended partition -/

/-- The slot of a table for `count` blocks from `first` on. -/
def tableSlot (type : UInt8) (first count : Nat) : List UInt8 :=
  [0, 0, 0, 0, type, 0, 0, 0] ++ natLe 4 first ++ natLe 4 count

/-- The medium with a table in the block `lba`. -/
def writeTable (b : Store) (lba : Nat) (slots : List (List UInt8)) : Store :=
  writeBytes (writeBytes b (lba * 512 + mbrTable) slots.flatten) (lba * 512 + mbrSig) [0x55, 0xaa]

/-- An extended partition at block 1, whose first logical partition is at block 3, with the exFAT
signature, and whose second table, in block 2, holds `slots`. -/
def extendedCard (slots : List (List UInt8)) : Store :=
  let b := writeTable (fun _ => 0) 0 [tableSlot 0x05 1 3]
  let b := writeTable b 1 [tableSlot 0x07 2 1, tableSlot 0x05 1 1]
  writeBytes (writeTable b 2 slots) (3 * 512 + 3) exfatSignature

/-- A device of four blocks of 512 bytes. -/
def fourBlocks : DosEnvec := ⟨128, 1, 1, 0, 3⟩

/-- Memory that is there, with zeros behind every buffer. -/
def clearMemory : ScanMemory := ⟨fun _ => 0, fun _ => 0, fun _ => 0, true, fun _ => true⟩

/-- The card as it is opened. -/
def fourBlockDisk (slots : List (List UInt8)) : Disk :=
  (specFromEnvec fourBlocks).disk (extendedCard slots) fun _ => false

/-- The second table is empty. -/
theorem scanPartitions_sound_iff_four :
    (∀ p ∈ exfatAmigaScanPartitions (fourBlockDisk []) clearMemory 4 exfatMaxPartitions,
        p.Sound (fourBlockDisk []) 4) ∧
      ∀ r, resolveExtent fourBlocks.lowCyl (specFromEnvec fourBlocks) true
        (extendedCard []) (fun _ => false)
          clearMemory = some r → r.1.Within (specFromEnvec fourBlocks) := by
  have hslots : exfatSlots (fourBlockDisk []) clearMemory = [⟨3, 1⟩] := by decide +kernel
  refine (scanPartitions_sound_iff fourBlocks true (extendedCard []) (fun _ => false) clearMemory
    (by decide)).mpr fun _ _ p hp => ?_
  have hp' : p ∈ (exfatSlots (fourBlockDisk []) clearMemory).take exfatMaxPartitions := hp
  rw [hslots] at hp'
  have hmem : p = ⟨3, 1⟩ := by simpa [exfatMaxPartitions] using hp'
  rw [hmem]
  exact ⟨by decide, by decide⟩

/-- The second table names a block that the device does not have: the probe buffer still shows the
boot sector of the first partition. -/
theorem scanPartitions_not_sound :
    exfatAmigaScanPartitions (fourBlockDisk [tableSlot 0x07 0x1000 1]) clearMemory
        ((specFromEnvec fourBlocks).length / (specFromEnvec fourBlocks).blocksize)
        exfatMaxPartitions =
      [⟨3, 1⟩, ⟨0x1002, 1⟩] ∧
    ¬ ∀ p ∈ exfatAmigaScanPartitions (fourBlockDisk [tableSlot 0x07 0x1000 1]) clearMemory
        ((specFromEnvec fourBlocks).length / (specFromEnvec fourBlocks).blocksize)
        exfatMaxPartitions,
      p.Sound (fourBlockDisk [tableSlot 0x07 0x1000 1])
        ((specFromEnvec fourBlocks).length / (specFromEnvec fourBlocks).blocksize) := by
  have hscan : exfatAmigaScanPartitions (fourBlockDisk [tableSlot 0x07 0x1000 1]) clearMemory
      ((specFromEnvec fourBlocks).length / (specFromEnvec fourBlocks).blocksize)
      exfatMaxPartitions =
        [⟨3, 1⟩, ⟨0x1002, 1⟩] := by decide +kernel
  refine ⟨hscan, fun h => ?_⟩
  have hin := (h ⟨0x1002, 1⟩ (by rw [hscan]; simp)).1.1
  exact absurd hin (by decide)

end ExFat
