import ExFat.Amiga.Partitions

namespace ExFat

open Bytes

/-!
# What is read from the tables

`scan_gpt` and `scan_extended` read the fields of an entry from a buffer of one block.  Each entry
that they decode is written down here with the block that is in the buffer and with the fields that
are read. Nothing keeps an entry of a GPT inside the buffer, and its place on the device is computed
in 32 bits. The scan of the tool `mbrscan` refuses entries that are longer than a block.
-/

/-! ### The reads -/

/-- An entry that is decoded: its index, the byte of the device at which the block in the buffer
begins if the read before transferred one, the place of the entry in the buffer, and the fields that
are read, each with its place in the buffer and its number of bytes. -/
structure EntryRead where
  index : Nat
  block : Option Nat
  off : Nat
  fields : List (Nat × Nat)
  deriving DecidableEq, Repr

/-- The fields lie in a buffer of `size` bytes. -/
def EntryRead.Inside (e : EntryRead) (size : Nat) : Prop := ∀ f ∈ e.fields, f.1 + f.2 ≤ size

/-- The fields lie in the buffer, and the entry is the one with its index in a table at the block
`entLba`. -/
def EntryRead.Right (e : EntryRead) (size entLba entSize : Nat) : Prop :=
  e.Inside size ∧ ∃ a, e.block = some a ∧ a + e.off = entLba * size + e.index * entSize

instance (e : EntryRead) (size : Nat) : Decidable (e.Inside size) :=
  inferInstanceAs (Decidable (∀ f ∈ e.fields, f.1 + f.2 ≤ size))

/-- The byte of the device at which a block begins that `exfat_pread` transfers. -/
def Disk.source (d : Disk) (offset : Int) : Option Nat :=
  if offset < 0 ∨ offset ≥ d.size then none else some offset.toNat

section Reads

variable (behind : Nat → UInt8) (hdr : List UInt8) (off : Nat)

/-- The words of a type GUID that are read: up to the first that is not zero. -/
def guidFields : List Nat → List (Nat × Nat)
  | [] => []
  | k :: ks => (off + k, 4) :: if le32at behind hdr (off + k) = 0 then guidFields ks else []

/-- The type GUID marks the entry as unused. -/
def gptUnused : Prop :=
  le32at behind hdr off = 0 ∧ le32at behind hdr (off + 4) = 0 ∧
    le32at behind hdr (off + 8) = 0 ∧ le32at behind hdr (off + 12) = 0

instance : Decidable (gptUnused behind hdr off) :=
  inferInstanceAs (Decidable (le32at behind hdr off = 0 ∧ le32at behind hdr (off + 4) = 0 ∧
    le32at behind hdr (off + 8) = 0 ∧ le32at behind hdr (off + 12) = 0))

/-- The fields that are read of an entry of a GPT. -/
def gptFields : List (Nat × Nat) :=
  guidFields behind hdr off [0, 4, 8, 12] ++
    if gptUnused behind hdr off then [] else [(off + 32, 8), (off + 40, 8)]

/-- The fields that are read of a block of the chain of an extended partition. -/
def ebrFields (ebr : List UInt8) : List (Nat × Nat) :=
  (mbrSig, 2) ::
    if le16at behind ebr mbrSig ≠ 0xaa55 then []
    else [(mbrTable + 8, 4), (mbrTable + 12, 4), (mbrTable + 4, 1),
      (mbrTable + mbrEntrySize + 8, 4),
      (mbrTable + mbrEntrySize + 4, 1)]

end Reads

section Scan

variable (d : Disk) (m : ScanMemory)

/-- The entries that the loop of `scan_gpt` decodes. -/
def gptReads (entLba entSize max : Nat) : (left i : Nat) → (hdr buf : List UInt8) →
    (out : List ExfatPartition) → List EntryRead
  | 0, _, _, _, _ => []
  | left + 1, i, hdr, buf, out =>
    if out.length ≥ max then []
    else
      let lba := (entLba + gptOffset entSize i / d.blocksize) % 2 ^ 64
      let off := gptOffset entSize i % d.blocksize
      match d.readAt hdr lba with
      | none => []
      | some hdr =>
        -- as `gptLoop` goes on behind this entry
        let r := match gptSlot m hdr off with
          | none => (out, buf)
          | some p => probeSlot d m max p buf out
        ⟨i, d.source (toOff (lba * d.blocksize)), off, gptFields m.behindHdr hdr off⟩ ::
          gptReads entLba entSize max left (i + 1) hdr r.2 r.1

/-- The entries that `scan_gpt` decodes. -/
def scanGptReads (i : Nat) (buf : List UInt8) (max : Nat) : List EntryRead :=
  if !m.allocScan i then []
  else
    match d.pread (List.replicate d.blocksize 0) d.blocksize with
    | none => []
    | some hdr =>
      if !textAt m.behindHdr hdr 0 gptSignature then []
      else
        let entCount := le32at m.behindHdr hdr gptEntCount
        gptReads d m (le64at m.behindHdr hdr gptEntLba) (le32at m.behindHdr hdr gptEntSize) max
          (if entCount > 128 then 128 else entCount) 0 hdr buf []

/-- The blocks that the loop of `scan_extended` decodes, numbered from `i` on. -/
def ebrReads (extStart max : Nat) : (links i here : Nat) → (ebr buf : List UInt8) →
    (out : List ExfatPartition) → List EntryRead
  | 0, _, _, _, _, _ => []
  | links + 1, i, here, ebr, buf, out =>
    if out.length ≥ max then []
    else
      match d.readAt ebr here with
      | none => []
      | some ebr =>
        ⟨i, d.source (toOff (here * d.blocksize)), mbrTable, ebrFields m.behindEbr ebr⟩ ::
          if le16at m.behindEbr ebr mbrSig ≠ 0xaa55 then []
          else
            -- as `ebrLoop` goes on behind this sector
            let r := if ebrUsed m ebr then probeSlot d m max (ebrSlot m here ebr)
              buf out else (out, buf)
            match ebrNext m extStart ebr with
            | none => []
            | some next => ebrReads extStart max links (i + 1) next ebr r.2 r.1

/-- The blocks that `scan_extended` decodes. -/
def scanExtendedReads (i extStart : Nat) (buf : List UInt8) (max : Nat) : List EntryRead :=
  if !m.allocScan i then []
  else ebrReads d m extStart max ebrMaxLinks 0 extStart (List.replicate d.blocksize 0) buf []

end Scan

/-! ### The tool -/

/-- `SECSIZE`. -/
def secSize : Nat := 512

/-- The device that `mbrscan` has opened, and the offsets at which the driver does not deliver a
block. -/
structure ScannedDrive where
  bytes : Store
  fails : Nat → Bool

/-- `readblock`. -/
def ScannedDrive.readblock (t : ScannedDrive) (lba : Nat) : Option (List UInt8) :=
  let off := lba * secSize % 2 ^ 64
  if t.fails off then none else some (readBytes t.bytes off secSize)

/-- What `scan_gpt` of the tool does with an entry: the read, and the first block and the number of
blocks that are passed to `check_candidate`. -/
structure ToolEntry where
  read : EntryRead
  candidate : Option (Nat × Nat)
  deriving DecidableEq, Repr

/-- The candidate in the entry at `off` of the block `ent`. -/
def toolCandidate (behind : Nat → UInt8) (ent : List UInt8) (off : Nat) : Option (Nat × Nat) :=
  let first := le64at behind ent (off + 32)
  let last := le64at behind ent (off + 40)
  if gptUnused behind ent off then none
  else some (first, if last ≥ first then (last - first + 1) % 2 ^ 64 else 0)

/-- The loop of `scan_gpt` of the tool over the `left` entries from `i` on. -/
def toolGptLoop (t : ScannedDrive) (behind : Nat → UInt8) (entlba entsize : Nat) :
    (left i : Nat) → List ToolEntry
  | 0, _ => []
  | left + 1, i =>
    let lba := (entlba + gptOffset entsize i / secSize) % 2 ^ 64
    let off := gptOffset entsize i % secSize
    match t.readblock lba with
    | none => []
    | some ent =>
      ⟨⟨i, some (lba * secSize % 2 ^ 64), off, gptFields behind ent off⟩,
        toolCandidate behind ent off⟩ ::
        toolGptLoop t behind entlba entsize left (i + 1)

/-- `scan_gpt` of the tool, when it has its two buffers. -/
def toolScanGpt (t : ScannedDrive) (behind : Nat → UInt8) : List ToolEntry :=
  match t.readblock 1 with
  | none => []
  | some hdr =>
    if !textAt behind hdr 0 gptSignature then []
    else
      let nents := le32at behind hdr gptEntCount
      let entsize := le32at behind hdr gptEntSize
      if entsize = 0 ∨ entsize > secSize then []
      else toolGptLoop t behind (le64at behind hdr gptEntLba) entsize (min nents 128) 0

/-! ### Fields inside the buffer -/

section Fields

variable {behind : Nat → UInt8} {hdr : List UInt8} {off : Nat}

/-- The fields of an entry lie in the buffer if all of it up to the last block does, or if the type
GUID does and marks it as unused. -/
theorem gptFields_inside_iff {size : Nat} : (∀ f ∈ gptFields behind hdr off, f.1 + f.2 ≤ size) ↔
    off + 48 ≤ size ∨ off + 16 ≤ size ∧ gptUnused behind hdr off := by
  unfold gptFields gptUnused
  simp only [guidFields, Nat.add_zero]
  by_cases h0 : le32at behind hdr off = 0
  case neg => simp [h0]; omega
  by_cases h4 : le32at behind hdr (off + 4) = 0
  case neg => simp [h0, h4]; omega
  by_cases h8 : le32at behind hdr (off + 8) = 0
  case neg => simp [h0, h4, h8]; omega
  by_cases h12 : le32at behind hdr (off + 12) = 0
  case neg => simp [h0, h4, h8, h12]; omega
  simp [h0, h4, h8, h12]
  omega

/-- Only zero bytes are read as zero. -/
theorem leNat_eq_zero {l : List UInt8} : leNat l = 0 ↔ ∀ b ∈ l, b = 0 := by
  induction l with
  | nil => simp [leNat]
  | cons b l ih =>
    have hb : b.toNat = 0 ↔ b = 0 := UInt8.toNat_inj (b := 0)
    simp only [leNat, List.forall_mem_cons, ← ih, ← hb]
    omega

/-- A word that lies in the buffer is zero if its bytes are. -/
theorem le32at_readBytes_eq_zero {b : Store} {a size p : Nat} (h : p + 4 ≤ size) :
    le32at behind (readBytes b a size) p = 0 ↔ ∀ k < 4, b (a + (p + k)) = 0 := by
  have hbyte : ∀ k < 4, byteAt behind (readBytes b a size) (p + k) = b (a + (p + k)) := by
    intro k hk
    unfold byteAt
    rw [length_readBytes, if_pos (by omega), getD_readBytes, if_pos (by omega)]
  unfold le32at
  rw [leNat_eq_zero]
  simp only [List.forall_mem_map, List.mem_range]
  exact forall₂_congr fun k hk => by rw [hbyte k hk]

/-- The type GUID of an entry is zero if its sixteen bytes are. -/
theorem gptUnused_readBytes {b : Store} {a size : Nat} (h : off + 16 ≤ size) :
    gptUnused behind (readBytes b a size) off ↔ ∀ k < 16, b (a + off + k) = 0 := by
  unfold gptUnused
  rw [le32at_readBytes_eq_zero (by omega), le32at_readBytes_eq_zero (by omega),
    le32at_readBytes_eq_zero (by omega), le32at_readBytes_eq_zero (by omega)]
  constructor
  · rintro ⟨h0, h4, h8, h12⟩ k hk
    obtain hk | hk | hk | hk : k < 4 ∨ 4 ≤ k ∧ k < 8 ∨ 8 ≤ k ∧ k < 12 ∨ 12 ≤ k ∧ k < 16 := by omega
    · simpa only [Nat.add_assoc] using h0 k hk
    · simpa only [show a + (off + 4 + (k - 4)) = a + off + k by omega] using h4 (k - 4) (by omega)
    · simpa only [show a + (off + 8 + (k - 8)) = a + off + k by omega] using h8 (k - 8) (by omega)
    · simpa only [show a + (off + 12 + (k - 12)) = a + off + k by omega] using h12
        (k - 12) (by omega)
  · intro hall
    refine ⟨fun k hk => ?_, fun k hk => ?_, fun k hk => ?_, fun k hk => ?_⟩
    · simpa only [Nat.add_assoc] using hall k (by omega)
    · simpa only [Nat.add_assoc] using hall (4 + k) (by omega)
    · simpa only [Nat.add_assoc] using hall (8 + k) (by omega)
    · simpa only [Nat.add_assoc] using hall (12 + k) (by omega)

end Fields

/-! ### The entry that is decoded -/

section Entries

variable {d : Disk} {m : ScanMemory}

/-- What is in the buffer after a read of a block. -/
theorem Disk.pread_eq_some {buf buf' : List UInt8} {offset : Int} (hbs : 0 < d.blocksize)
    (h : d.pread buf offset = some buf') :
    buf' = match d.source offset with
      | none => buf
      | some a => readBytes d.bytes a d.blocksize := by
  unfold Disk.pread at h
  unfold Disk.source
  by_cases hneg : offset < 0
  · rw [if_pos (.inl hneg)] at h
    rw [if_pos (.inl hneg)]
    exact (Option.some.inj h).symm
  rw [if_neg (by omega)] at h
  by_cases hout : offset ≥ d.size
  · rw [if_pos hout] at h
    rw [if_pos (.inr hout)]
    exact (Option.some.inj h).symm
  rw [if_neg hout] at h
  rw [if_neg (by omega)]
  split at h
  · cases h
  split at h
  · cases h
  · exact (Option.some.inj h).symm

/-- A block is transferred from the byte at `x` exactly if `x` lies inside the device. -/
theorem Disk.source_toOff {x a : Nat} :
    d.source (toOff x) = some a ↔ a = x % 2 ^ 64 ∧ a < 2 ^ 63 ∧ (a : Int) < d.size := by
  have htoOff : toOff x = if x % 2 ^ 64 < 2 ^ 63 then ((x % 2 ^ 64 : Nat) : Int)
    else ((x % 2 ^ 64 : Nat) : Int) - 2 ^ 64 := rfl
  unfold Disk.source
  rw [htoOff]
  by_cases hlt : x % 2 ^ 64 < 2 ^ 63
  · rw [if_pos hlt]
    split
    · exact ⟨nofun, by omega⟩
    · rw [Option.some.injEq, Int.toNat_natCast]
      omega
  · rw [if_neg hlt, if_pos (.inl (by omega))]
    exact ⟨nofun, by omega⟩

/-- The place that the code computes for an entry is the right one if no word is cut off on the way.
-/
theorem gptPlace_eq_iff {bs entLba entSize i a : Nat} (hbs : 0 < bs)
    (ha : a = (entLba + gptOffset entSize i / bs) % 2 ^ 64 * bs % 2 ^ 64) :
    a + gptOffset entSize i % bs = entLba * bs + i * entSize ↔
      i * entSize < 2 ^ 32 ∧ (entLba + i * entSize / bs) * bs < 2 ^ 64 := by
  generalize ho : gptOffset entSize i = o at ha ⊢
  have hle : o ≤ i * entSize := ho ▸ Nat.mod_le ..
  have hdiv : (entLba + o / bs) * bs + o % bs = entLba * bs + o := by
    rw [Nat.add_mul, Nat.add_assoc, Nat.div_add_mod']
  have hcut : (entLba + o / bs) % 2 ^ 64 * bs ≤ (entLba + o / bs) * bs :=
    Nat.mul_le_mul_right _ (Nat.mod_le ..)
  have hcut' : a ≤ (entLba + o / bs) % 2 ^ 64 * bs := ha ▸ Nat.mod_le ..
  constructor
  · intro h
    have hsame : o = i * entSize := by omega
    have hfit : a = (entLba + o / bs) * bs := by omega
    refine ⟨hsame ▸ ho ▸ Nat.mod_lt _ (by decide), ?_⟩
    rw [← hsame, ← hfit, ha]
    exact Nat.mod_lt _ (by decide)
  · rintro ⟨hi, hfit⟩
    have hsame : o = i * entSize := ho ▸ Nat.mod_eq_of_lt hi
    rw [← hsame] at hfit ⊢
    have hone : entLba + o / bs ≤ (entLba + o / bs) * bs := Nat.le_mul_of_pos_right _ hbs
    rw [Nat.mod_eq_of_lt (hone.trans_lt hfit), Nat.mod_eq_of_lt hfit] at ha
    rw [ha, hdiv]

/-- An entry of a GPT that the code decodes as it should: its place is computed without a word being
cut off and lies inside the device, and the entry, or the type GUID of an unused one, does not reach
over the end of its block. -/
def Disk.EntryFits (d : Disk) (entLba entSize i : Nat) : Prop :=
  i * entSize < 2 ^ 32 ∧ (entLba + i * entSize / d.blocksize) * d.blocksize < 2 ^ 63 ∧
  (((entLba + i * entSize / d.blocksize) * d.blocksize : Nat) : Int) < d.size ∧
  (i * entSize % d.blocksize + 48 ≤ d.blocksize ∨ i * entSize % d.blocksize + 16 ≤ d.blocksize ∧
    ∀ k < 16, d.bytes (entLba * d.blocksize + i * entSize + k) = 0)

/-- One round of the loop of `scan_gpt`. -/
theorem entryRead_right_iff (hbs : 0 < d.blocksize) {entLba entSize i : Nat} {buf hdr : List UInt8}
    (hread : d.readAt buf ((entLba + gptOffset entSize i / d.blocksize) % 2 ^ 64) = some hdr) :
    (EntryRead.mk i
      (d.source (toOff ((entLba + gptOffset entSize i / d.blocksize) % 2 ^ 64 * d.blocksize)))
      (gptOffset entSize i % d.blocksize)
      (gptFields m.behindHdr hdr (gptOffset entSize i % d.blocksize))).Right
        d.blocksize entLba entSize ↔
    d.EntryFits entLba entSize i := by
  have hbuf := Disk.pread_eq_some hbs hread
  unfold EntryRead.Right EntryRead.Inside Disk.EntryFits
  dsimp only
  rw [gptFields_inside_iff]
  -- the place is right: so nothing has wrapped
  constructor
  · rintro ⟨hinside, a, ha, hplace⟩
    rw [ha] at hbuf
    obtain ⟨hmod, hlt, hsize⟩ := Disk.source_toOff.1 ha
    obtain ⟨hi, hfit⟩ := (gptPlace_eq_iff hbs hmod).1 hplace
    have hoff : gptOffset entSize i = i * entSize := Nat.mod_eq_of_lt hi
    have hstart : a = (entLba + i * entSize / d.blocksize) * d.blocksize := by
      rw [Nat.add_mul]
      have := Nat.div_add_mod' (i * entSize) d.blocksize
      rw [hoff] at hplace
      omega
    rw [hoff] at hinside hplace
    rw [← hstart]
    refine ⟨hi, hlt, hsize, hinside.imp_right fun h => ⟨h.1, ?_⟩⟩
    rw [← hplace]
    exact (gptUnused_readBytes h.1).1 (hbuf ▸ h.2)
  -- nothing wraps: so the place is right
  · rintro ⟨hi, hlt, hsize, hinside⟩
    have hoff : gptOffset entSize i = i * entSize := Nat.mod_eq_of_lt hi
    -- the block number is not above its byte offset, so it does not wrap either
    have hone : entLba + i * entSize / d.blocksize ≤
      (entLba + i * entSize / d.blocksize) * d.blocksize := Nat.le_mul_of_pos_right _ hbs
    have hmod : (entLba + i * entSize / d.blocksize) * d.blocksize =
        (entLba + gptOffset entSize i / d.blocksize) % 2 ^ 64 * d.blocksize % 2 ^ 64 := by
      rw [hoff, Nat.mod_eq_of_lt (show entLba + i * entSize / d.blocksize < 2 ^ 64 by omega),
        Nat.mod_eq_of_lt (by omega)]
    have ha := Disk.source_toOff.2 ⟨hmod, hlt, hsize⟩
    have hplace := (gptPlace_eq_iff hbs hmod).2 ⟨hi, by omega⟩
    rw [ha] at hbuf
    refine ⟨?_, _, ha, hplace⟩
    rw [hoff] at hplace ⊢
    refine hinside.imp_right fun h => ⟨h.1, ?_⟩
    rw [hbuf, gptUnused_readBytes h.1, hplace]
    exact h.2

/-- Every entry that the loop decodes. -/
theorem gptReads_right_iff (hbs : 0 < d.blocksize) {entLba entSize max left i : Nat}
    {hdr buf : List UInt8} {out : List ExfatPartition} :
    ∀ e ∈ gptReads d m entLba entSize max left i hdr buf out,
      (e.Right d.blocksize entLba entSize ↔ d.EntryFits entLba entSize e.index) := by
  induction left generalizing i hdr buf out with
  | zero => nofun
  | succ left ih =>
    unfold gptReads
    split
    · nofun
    dsimp only
    split
    · nofun
    next hdr' hread =>
      intro e he
      rcases List.mem_cons.1 he with rfl | he
      · exact entryRead_right_iff hbs hread
      · exact ih e he

/-- The fields of a block of a chain lie within its first 512 bytes. -/
theorem ebrReads_inside (hbs : 512 ≤ d.blocksize) {extStart max links i here : Nat}
    {ebr buf : List UInt8} {out : List ExfatPartition} :
    ∀ e ∈ ebrReads d m extStart max links i here ebr buf out, e.Inside d.blocksize := by
  -- the signature and the two entries, at their places in the block
  have hfields : ∀ ebr, ∀ f ∈ ebrFields m.behindEbr ebr, f.1 + f.2 ≤ 512 := by
    intro ebr f hf
    unfold ebrFields at hf
    rcases List.mem_cons.1 hf with rfl | hf
    · exact le_rfl
    split at hf
    · cases hf
    · simp only [List.mem_cons, List.not_mem_nil, or_false] at hf
      rcases hf with rfl | rfl | rfl | rfl | rfl <;> exact by decide
  -- On the links still to be followed.
  induction links generalizing i here ebr buf out with
  | zero => nofun
  | succ links ih =>
    unfold ebrReads
    split
    · nofun
    split
    · nofun
    next ebr' hread =>
      intro e he
      rcases List.mem_cons.1 he with rfl | he
      · exact fun f hf => (hfields _ f hf).trans hbs
      split at he
      · cases he
      dsimp only at he
      split at he
      · cases he
      · exact ih e he

end Entries

/-! ### The entries that the tool decodes -/

/-- An entry that the tool decodes as it should. -/
def ScannedDrive.EntryFits (t : ScannedDrive) (entlba entsize i : Nat) : Prop :=
  (entlba + i * entsize / secSize) * secSize < 2 ^ 64 ∧
  (i * entsize % secSize + 48 ≤ secSize ∨ i * entsize % secSize + 16 ≤ secSize ∧
    ∀ k < 16, t.bytes (entlba * secSize + i * entsize + k) = 0)

/-- The tool refuses entries longer than a block, so that only the end of a block and the end of the
64-bit words remain. -/
theorem toolGptLoop_right_iff {t : ScannedDrive} {behind : Nat → UInt8}
    {entlba entsize left i : Nat} (hsize : entsize ≤ secSize) (hleft : i + left ≤ 128) :
    ∀ e ∈ toolGptLoop t behind entlba entsize left i,
      (e.read.Right secSize entlba entsize ↔ t.EntryFits entlba entsize e.read.index) := by
  -- On the entries still to be read; their indices stay below 128.
  induction left generalizing i with
  | zero => nofun
  | succ left ih =>
    unfold toolGptLoop
    dsimp only
    split
    · nofun
    next ent hread =>
      intro e he
      rcases List.mem_cons.1 he with rfl | he
      swap
      · exact ih (by omega) e he
      -- a small index and a small entry: the offset does not wrap
      have hi : i * entsize < 2 ^ 32 := by
        have : i * entsize ≤ 128 * 512 := Nat.mul_le_mul (by omega) hsize
        omega
      have hoff : gptOffset entsize i = i * entsize := Nat.mod_eq_of_lt hi
      have hent : ent = readBytes t.bytes
          ((entlba + gptOffset entsize i / secSize) % 2 ^ 64 * secSize % 2 ^ 64) secSize := by
        unfold ScannedDrive.readblock at hread
        dsimp only at hread
        split at hread
        · cases hread
        · exact (Option.some.inj hread).symm
      generalize ha : (entlba + gptOffset entsize i / secSize) % 2 ^ 64 * secSize % 2 ^ 64 =
        a at hent ⊢
      -- the number of the block may still wrap when it becomes a byte offset
      have hplace : a + gptOffset entsize i % secSize = entlba * secSize + i * entsize ↔
          (entlba + i * entsize / secSize) * secSize < 2 ^ 64 :=
        (gptPlace_eq_iff (by decide) ha.symm).trans (and_iff_right hi)
      unfold EntryRead.Right EntryRead.Inside ScannedDrive.EntryFits
      dsimp only
      simp only [Option.some.injEq, exists_eq_left']
      rw [hplace, gptFields_inside_iff, and_comm]
      refine and_congr_right fun hfit => or_congr (by rw [hoff]) ?_
      rw [hoff] at hplace ⊢
      refine and_congr_right fun hguid => ?_
      rw [hent, gptUnused_readBytes hguid, hplace.2 hfit]

/-! ### All scans -/

/-- The fields that are read of a chain of an extended partition lie in the buffer.  An entry of a
GPT is read inside the buffer and is the one with its index exactly if its place is computed without
a word being cut off, its block lies inside the device, and it does not reach over the end of its
block, or only unused and with its type GUID inside; and so it is in the tool, whatever the device.
-/
theorem tableReads_right_iff (d : Disk) (m : ScanMemory) (hbs : 512 ≤ d.blocksize)
    (t : ScannedDrive) (behind : Nat → UInt8) :
    (∀ hdr, d.pread (List.replicate d.blocksize 0) d.blocksize = some hdr →
      ∀ i buf max, ∀ e ∈ scanGptReads d m i buf max,
        (e.Right d.blocksize (le64at m.behindHdr hdr gptEntLba)
          (le32at m.behindHdr hdr gptEntSize) ↔
          d.EntryFits (le64at m.behindHdr hdr gptEntLba)
            (le32at m.behindHdr hdr gptEntSize) e.index)) ∧
    (∀ i extStart buf max, ∀ e ∈ scanExtendedReads d m i extStart buf max, e.Inside d.blocksize) ∧
    (∀ hdr, t.readblock 1 = some hdr → ∀ e ∈ toolScanGpt t behind,
      (e.read.Right secSize (le64at behind hdr gptEntLba) (le32at behind hdr gptEntSize) ↔
        t.EntryFits (le64at behind hdr gptEntLba) (le32at behind hdr gptEntSize)
        e.read.index)) := by
  -- The entries of a GPT, the blocks of a chain, and the entries as the tool reads them.
  refine ⟨fun hdr hhdr i buf max e he => ?_, fun i extStart buf max e he => ?_,
    fun hdr hhdr e he => ?_⟩
  · unfold scanGptReads at he
    split at he
    · cases he
    rw [hhdr] at he
    dsimp only at he
    split at he
    · cases he
    · exact gptReads_right_iff (by omega) e he
  · unfold scanExtendedReads at he
    split at he
    · cases he
    · exact ebrReads_inside hbs e he
  · unfold toolScanGpt at he
    rw [hhdr] at he
    dsimp only at he
    split at he
    · cases he
    split at he
    · cases he
    next hsize => exact toolGptLoop_right_iff (by omega) (by omega) e he

/-- A device of 512-byte blocks with a GPT header that claims `count` entries of `size` bytes from
block 2 on, where all bytes are 1. -/
def gptStore (size count : Nat) : Store := fun a =>
  if 512 ≤ a ∧ a < 520 then gptSignature.getD (a - 512) 0
  else if a = 584 then 2
  else if 592 ≤ a ∧ a < 596 then (natLe 4 count).getD (a - 592) 0
  else if 596 ≤ a ∧ a < 600 then (natLe 4 size).getD (a - 596) 0
  else if 1024 ≤ a ∧ a < 4096 then 1
  else 0

/-- The device, as the handler opens it. -/
def gptDisk (size count : Nat) : Disk := ⟨gptStore size count, 2 ^ 20, 512, fun _ => false⟩

/-- The device, as the tool opens it. -/
def gptDrive (size count : Nat) : ScannedDrive := ⟨gptStore size count, fun _ => false⟩

/-- Two entries of 128 bytes. -/
theorem tableReads_right_two :
    (∀ e ∈ scanGptReads (gptDisk 128 2) clearMemory 0 [] 8, e.Right 512 2 128) ∧
    ∀ e ∈ toolScanGpt (gptDrive 128 2) (fun _ => 0), e.read.Right 512 2 128 := by
  have hiff := tableReads_right_iff (gptDisk 128 2) clearMemory (by decide)
    (gptDrive 128 2) fun _ => 0
  have hlba : le64at (fun _ => 0) (readBytes (gptStore 128 2) 512 512) gptEntLba = 2 := by
    decide +kernel
  have hsize : le32at (fun _ => 0) (readBytes (gptStore 128 2) 512 512) gptEntSize = 128 := by
    decide +kernel
  have hreads : (scanGptReads (gptDisk 128 2) clearMemory 0 [] 8).map EntryRead.index = [0, 1] := by
    decide +kernel
  have htool : (toolScanGpt (gptDrive 128 2) fun _ => 0).map (fun e => e.read.index) = [0, 1] := by
    decide +kernel
  refine ⟨fun e he => ?_, fun e he => ?_⟩
  · have hentry := hiff.1 (readBytes (gptStore 128 2) 512 512) rfl 0 [] 8 e he
    rw [show clearMemory.behindHdr = fun _ => 0 from rfl, hlba, hsize] at hentry
    refine hentry.2 ?_
    have hmem : e.index ∈ [0, 1] := hreads ▸ List.mem_map_of_mem he
    simp only [List.mem_cons, List.not_mem_nil, or_false] at hmem
    rcases hmem with h | h <;> rw [h] <;> exact ⟨by decide, by decide, by decide, .inl (by decide)⟩
  · have hentry := hiff.2.2 (readBytes (gptStore 128 2) 512 512) rfl e he
    rw [hlba, hsize] at hentry
    refine hentry.2 ?_
    have hmem : e.read.index ∈ [0, 1] := by
      rw [← htool]
      exact List.mem_map.2 ⟨e, he, rfl⟩
    simp only [List.mem_cons, List.not_mem_nil, or_false] at hmem
    rcases hmem with h | h <;> rw [h] <;> exact ⟨by decide, .inl (by decide)⟩

/-- Of entries of 100 bytes number 5 begins 12 bytes before the end of the block, and its last two
fields are read behind the buffer; with entries of `2 ^ 31` bytes entry 0 is taken for entry 2. -/
theorem tableReads_not_right :
    (∃ e ∈ scanGptReads (gptDisk 100 6) clearMemory 0 [] 8,
      e = ⟨5, some 1024, 500, [(500, 4), (532, 8), (540, 8)]⟩ ∧ ¬ e.Inside 512) ∧
    (∃ e ∈ toolScanGpt (gptDrive 100 6) (fun _ => 0),
      e.read = ⟨5, some 1024, 500, [(500, 4), (532, 8), (540, 8)]⟩ ∧ ¬ e.read.Inside 512) ∧
    ∃ e ∈ scanGptReads (gptDisk (2 ^ 31) 3) clearMemory 0 [] 8,
      e = ⟨2, some 1024, 0, [(0, 4), (32, 8), (40, 8)]⟩ ∧ ¬ e.Right 512 2 (2 ^ 31) := by
  refine ⟨⟨⟨5, some 1024, 500, [(500, 4), (532, 8), (540, 8)]⟩, by decide +kernel, rfl, by decide⟩,
    ?_, ?_⟩
  · have hread : (⟨5, some 1024, 500, [(500, 4), (532, 8), (540, 8)]⟩ : EntryRead) ∈
        (toolScanGpt (gptDrive 100 6) fun _ => 0).map ToolEntry.read := by decide +kernel
    obtain ⟨e, he, hread⟩ := List.mem_map.1 hread
    exact ⟨e, he, hread, by rw [hread]; decide⟩
  · refine ⟨⟨2, some 1024, 0, [(0, 4), (32, 8), (40, 8)]⟩, by decide +kernel, rfl, ?_⟩
    rintro ⟨-, a, ha, hplace⟩
    cases ha
    exact absurd hplace (by decide)

end ExFat
