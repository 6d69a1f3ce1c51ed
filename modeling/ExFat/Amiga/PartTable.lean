import ExFat.Amiga.FlatDev

namespace ExFat

open Bytes

/-!
# Partition tables

`amiga/parttable.c`: when the handler is mounted on a whole device it looks for exFAT volumes in the
MBR, in the chain of an extended partition and in a GPT; and `resolve_extent` of `handler.c`, which
narrows the extent to the first one found.

All reads are of one block into a buffer of one block.  `partition_io` leaves the buffer alone when
the block lies outside the extent and returns 0, which no caller takes for an error.
-/

/-! ### The device -/

/-- The extent that was opened: its bytes, `dev->size`, the size of a block, and the offsets at
which the drive cannot read. -/
structure Disk where
  bytes : Store
  size : Int
  blocksize : Nat
  bad : Nat → Bool := fun _ => false

/-- The cast to `exfat_off_t` of a 64-bit number. -/
def toOff (x : Nat) : Int :=
  if x % 2 ^ 64 < 2 ^ 63 then (x % 2 ^ 64 : Nat) else (x % 2 ^ 64 : Nat) - 2 ^ 64

/-- `exfat_pread` of one block at `offset` into `buf`: what the buffer holds then, or `none` if it
returns `-1`. -/
def Disk.pread (d : Disk) (buf : List UInt8) (offset : Int) : Option (List UInt8) :=
  if offset < 0 ∨ d.blocksize = 0 then some buf
  else if offset ≥ d.size then some buf
  else if offset + d.blocksize > d.size then none
  else if d.bad offset.toNat then none
  else some (readBytes d.bytes offset.toNat d.blocksize)

/-- The read of the block `lba`. -/
def Disk.readAt (d : Disk) (buf : List UInt8) (lba : Nat) : Option (List UInt8) :=
  d.pread buf (toOff (lba * d.blocksize))

/-- What the scan finds in memory: the bytes behind each of its three buffers, and whether
`AllocVec` gives it the buffer `buf` and the one that the scan of slot `i` needs. -/
structure ScanMemory where
  behindBuf : Nat → UInt8
  behindEbr : Nat → UInt8
  behindHdr : Nat → UInt8
  allocBuf : Bool
  allocScan : Nat → Bool

/-- Byte `i` from the start of a buffer; nothing keeps the code from reading behind its end. -/
def byteAt (behind : Nat → UInt8) (buf : List UInt8) (i : Nat) : UInt8 :=
  if i < buf.length then buf.getD i 0 else behind (i - buf.length)

/-- `le16at`. -/
def le16at (behind : Nat → UInt8) (buf : List UInt8) (p : Nat) : Nat :=
  leNat ((List.range 2).map fun i => byteAt behind buf (p + i))

/-- `le32at`. -/
def le32at (behind : Nat → UInt8) (buf : List UInt8) (p : Nat) : Nat :=
  leNat ((List.range 4).map fun i => byteAt behind buf (p + i))

/-- `le64at`. -/
def le64at (behind : Nat → UInt8) (buf : List UInt8) (p : Nat) : Nat :=
  leNat ((List.range 8).map fun i => byteAt behind buf (p + i))

/-- `"EXFAT   "`. -/
def exfatSignature : List UInt8 := [0x45, 0x58, 0x46, 0x41, 0x54, 0x20, 0x20, 0x20]

/-- `"EFI PART"`. -/
def gptSignature : List UInt8 := [0x45, 0x46, 0x49, 0x20, 0x50, 0x41, 0x52, 0x54]

/-- `memcmp` finds `text` at `p`. -/
def textAt (behind : Nat → UInt8) (buf : List UInt8) (p : Nat) (text : List UInt8) : Bool :=
  (List.range text.length).map (fun i => byteAt behind buf (p + i)) == text

/-! ### The tables -/

/-- `struct ExfatPartition`. -/
structure ExfatPartition where
  firstLba : Nat
  sectors : Nat
  deriving DecidableEq, Repr

/-- `MBR_TABLE`. -/
def mbrTable : Nat := 446
/-- `MBR_ENTRY_SIZE`. -/
def mbrEntrySize : Nat := 16
/-- `MBR_ENTRIES`. -/
def mbrEntries : Nat := 4
/-- `MBR_SIG`. -/
def mbrSig : Nat := 510
/-- `EBR_MAX_LINKS`. -/
def ebrMaxLinks : Nat := 16
/-- `GPT_ENT_LBA`. -/
def gptEntLba : Nat := 72
/-- `GPT_ENT_COUNT`. -/
def gptEntCount : Nat := 80
/-- `GPT_ENT_SIZE`. -/
def gptEntSize : Nat := 84

/-- `MBR_TYPE_GPT`. -/
def mbrTypeGpt : UInt8 := 0xee

/-- `is_extended_type`. -/
def isExtendedType (type : UInt8) : Bool := type == 0x05 || type == 0x0f || type == 0x85

section Scan

variable (d : Disk) (m : ScanMemory)

/-- `is_exfat_at`: the answer, and what the probe buffer holds then. -/
def isExfatAt (lba : Nat) (buf : List UInt8) : Bool × List UInt8 :=
  match d.readAt buf lba with
  | none => (false, buf)
  | some buf => (textAt m.behindBuf buf 3 exfatSignature, buf)

/-- `add`. -/
def addPartition (max : Nat) (out : List ExfatPartition) (p : ExfatPartition) :
    List ExfatPartition :=
  if out.length ≥ max then out else out ++ [p]

/-- The probe of a slot, which is added if there is an exFAT volume. -/
def probeSlot (max : Nat) (p : ExfatPartition) (buf : List UInt8) (out : List ExfatPartition) :
    List ExfatPartition × List UInt8 :=
  let r := isExfatAt d m p.firstLba buf
  (if r.1 then addPartition max out p else out, r.2)

/-- The slot for the logical partition in the block `here` of a chain. -/
def ebrSlot (here : Nat) (ebr : List UInt8) : ExfatPartition where
  firstLba := (here + le32at m.behindEbr ebr (mbrTable + 8)) % 2 ^ 64
  sectors := le32at m.behindEbr ebr (mbrTable + 12)

/-- The slot is used. -/
def ebrUsed (ebr : List UInt8) : Bool :=
  byteAt m.behindEbr ebr (mbrTable + 4) != 0 && le32at m.behindEbr ebr (mbrTable + 12) != 0

/-- The next block of the chain, if there is one. -/
def ebrNext (extStart : Nat) (ebr : List UInt8) : Option Nat :=
  let nextrel := le32at m.behindEbr ebr (mbrTable + mbrEntrySize + 8)
  if byteAt m.behindEbr ebr (mbrTable + mbrEntrySize + 4) = 0 ∨ nextrel = 0 then none
  else some ((extStart + nextrel) % 2 ^ 64)

/-- The loop of `scan_extended`; `links` are left to be followed. -/
def ebrLoop (extStart max : Nat) : (links here : Nat) → (ebr buf : List UInt8) →
    (out : List ExfatPartition) → List ExfatPartition × List UInt8
  | 0, _, _, buf, out => (out, buf)
  | links + 1, here, ebr, buf, out =>
    if out.length ≥ max then (out, buf)
    else
      match d.readAt ebr here with
      | none => (out, buf)
      | some ebr =>
        -- a sector without the signature ends the chain
        if le16at m.behindEbr ebr mbrSig ≠ 0xaa55 then (out, buf)
        else
          let r := if ebrUsed m ebr then probeSlot d m max (ebrSlot m here ebr)
            buf out else (out, buf)
          match ebrNext m extStart ebr with
          | none => r
          | some next => ebrLoop extStart max links next ebr r.2 r.1

/-- `scan_extended`; `i` is the slot it is called for. -/
def scanExtended (i extStart : Nat) (buf : List UInt8) (max : Nat) :
    List ExfatPartition × List UInt8 :=
  if !m.allocScan i then ([], buf)
  else ebrLoop d m extStart max ebrMaxLinks extStart (List.replicate d.blocksize 0) buf []

/-- The offset of entry `i` of a GPT in bytes, as a `ULONG`. -/
def gptOffset (entSize i : Nat) : Nat := i * entSize % 2 ^ 32

/-- The slot in the entry at `off` of the block `hdr`, if it is used. -/
def gptSlot (hdr : List UInt8) (off : Nat) : Option ExfatPartition :=
  let first := le64at m.behindHdr hdr (off + 32)
  let last := le64at m.behindHdr hdr (off + 40)
  if le32at m.behindHdr hdr off = 0 ∧ le32at m.behindHdr hdr (off + 4) = 0 ∧
      le32at m.behindHdr hdr (off + 8) = 0 ∧ le32at m.behindHdr hdr (off + 12) = 0 then none
  else if last < first then none
  else some ⟨first, (last - first + 1) % 2 ^ 64⟩

/-- The loop of `scan_gpt` over the `left` entries from `i` on. -/
def gptLoop (entLba entSize max : Nat) : (left i : Nat) → (hdr buf : List UInt8) →
    (out : List ExfatPartition) → List ExfatPartition × List UInt8
  | 0, _, _, buf, out => (out, buf)
  | left + 1, i, hdr, buf, out =>
    if out.length ≥ max then (out, buf)
    else
      match d.readAt hdr ((entLba + gptOffset entSize i / d.blocksize) % 2 ^ 64) with
      | none => (out, buf)
      | some hdr =>
        let r := match gptSlot m hdr (gptOffset entSize i % d.blocksize) with
          | none => (out, buf)
          | some p => probeSlot d m max p buf out
        gptLoop entLba entSize max left (i + 1) hdr r.2 r.1

/-- `scan_gpt`; `i` is the slot it is called for. -/
def scanGpt (i : Nat) (buf : List UInt8) (max : Nat) : List ExfatPartition × List UInt8 :=
  if !m.allocScan i then ([], buf)
  else
    match d.pread (List.replicate d.blocksize 0) d.blocksize with
    | none => ([], buf)
    | some hdr =>
      if !textAt m.behindHdr hdr 0 gptSignature then ([], buf)
      else
        let entCount := le32at m.behindHdr hdr gptEntCount
        gptLoop d m (le64at m.behindHdr hdr gptEntLba) (le32at m.behindHdr hdr gptEntSize) max
          (if entCount > 128 then 128 else entCount) 0 hdr buf []

/-- The loop of `exfat_amiga_scan_partitions` over the slots of the MBR from `i` on. -/
def mbrLoop (max : Nat) : (left i : Nat) → (buf : List UInt8) → (out : List ExfatPartition) →
    List ExfatPartition
  | 0, _, _, out => out
  | left + 1, i, buf, out =>
    if out.length ≥ max then out
    else
      let e := mbrTable + i * mbrEntrySize
      let type := byteAt m.behindBuf buf (e + 4)
      let first := le32at m.behindBuf buf (e + 8)
      let count := le32at m.behindBuf buf (e + 12)
      if type = 0 ∨ count = 0 then mbrLoop max left (i + 1) buf out
      else
        let r :=
          if type = mbrTypeGpt then
            let r := scanGpt d m i buf (max - out.length)
            (out ++ r.1, r.2)
          else if isExtendedType type then
            let r := scanExtended d m i first buf (max - out.length)
            (out ++ r.1, r.2)
          else probeSlot d m max ⟨first, count⟩ buf out
        -- every branch has used the probe buffer, so the MBR is read back
        if i + 1 < mbrEntries then
          match d.pread r.2 0 with
          | none => r.1
          | some buf => mbrLoop max left (i + 1) buf r.1
        else mbrLoop max left (i + 1) r.2 r.1

/-- `exfat_amiga_scan_partitions`. -/
def exfatAmigaScanPartitions (totalSectors max : Nat) : List ExfatPartition :=
  if !m.allocBuf then []
  else
    match d.pread (List.replicate d.blocksize 0) 0 with
    | none => []
    | some buf =>
      if textAt m.behindBuf buf 3 exfatSignature then addPartition max [] ⟨0, totalSectors⟩
      else if le16at m.behindBuf buf mbrSig ≠ 0xaa55 then []
      else mbrLoop d m max mbrEntries 0 buf []

end Scan

/-! ### The extent the handler works on -/

/-- What the handler takes from its `DosEnvec`. -/
structure DosEnvec where
  sizeBlock : Nat
  surfaces : Nat
  blocksPerTrack : Nat
  lowCyl : Nat
  highCyl : Nat

/-- The extent in `struct ExfatDevSpec`. -/
structure DevExtent where
  blocksize : Nat
  firstbyte : Nat
  length : Nat
  deriving DecidableEq, Repr

/-- `spec_from_envec`, with `ULONG` and `uint64_t` arithmetic. -/
def specFromEnvec (de : DosEnvec) : DevExtent :=
  let blocksize := de.sizeBlock * 4 % 2 ^ 32
  let blocksPerCyl := de.surfaces * de.blocksPerTrack % 2 ^ 64
  let firstBlock := de.lowCyl * blocksPerCyl % 2 ^ 64
  let blockCount := ((de.highCyl + 2 ^ 64 - de.lowCyl + 1) % 2 ^ 64) * blocksPerCyl % 2 ^ 64
  { blocksize := blocksize
    firstbyte := firstBlock * blocksize % 2 ^ 64
    length := blockCount * blocksize % 2 ^ 64 }

/-- `EXFAT_MAX_PARTITIONS`. -/
def exfatMaxPartitions : Nat := 8

/-- The device that `exfat_open` opens for an extent: the bytes of the medium from its first one on.
-/
def DevExtent.disk (spec : DevExtent) (medium : Store) (bad : Nat → Bool) : Disk where
  bytes := fun a => medium (spec.firstbyte + a)
  size := toOff spec.length
  blocksize := spec.blocksize
  bad := bad

/-- `exfat_open` accepts the block size. -/
def DevExtent.opens (spec : DevExtent) : Bool :=
  spec.blocksize != 0 && spec.blocksize &&& (spec.blocksize - 1) == 0

/-- `resolve_extent`: the extent to work on and the partitions that are published as device nodes,
or `none` if it returns `FALSE`.  `opened` is whether the driver lets itself be opened. -/
def resolveExtent (lowCyl : Nat) (spec : DevExtent) (opened : Bool)
    (medium : Store) (bad : Nat → Bool) (m : ScanMemory) :
    Option (DevExtent × List ExfatPartition) :=
  -- a partition was handed over, which is not scanned
  if lowCyl ≠ 0 then some (spec, [])
  else if !(spec.opens && opened) then none
  else
    match exfatAmigaScanPartitions (spec.disk medium bad) m (spec.length / spec.blocksize)
        exfatMaxPartitions with
    | [] => none
    | p :: rest =>
      -- a single partition at block 0 is the whole extent
      if rest = [] ∧ p.firstLba = 0 then some (spec, [])
      else
        -- the first partition is served, and the others are published
        some ({ spec with
          firstbyte := (spec.firstbyte + p.firstLba * spec.blocksize) % 2 ^ 64
          length := p.sectors * spec.blocksize % 2 ^ 64 }, rest)

end ExFat
