import ExFat.Fs.Types

namespace ExFat

open Bytes

/-!
# The AmigaOS device layer

`amiga/dev_io.c`: byte ranges of a partition on top of an Exec device that transfers whole blocks.
One buffer of a block's size, `bounce`, holds the block that a partial transfer was made in, and
`bounce_lba` says which block that is.  The same buffer stands in for a caller's buffer whose
address the driver does not accept.

The medium is the card in the slot; there may be none.  `faults` tells which transfers fail (one
that is not of whole blocks fails anyway), and `writes` keeps, for each transfer to the medium that
was made, what was on the medium before it. The addresses of the buffers that libexfat passes are
not known to the model: they are the successive values of `addrs`.
-/

/-- `NO_BLOCK`. -/
def noBlock : Nat := 2 ^ 64 - 1

/-- `struct exfat_dev` of the AmigaOS build. -/
structure AmigaDev where
  medium : Option Store
  firstbyte : Nat
  size : Int
  pos : Int := 0
  blocksize : Nat
  maxtransfer : Nat := 0
  mask : Nat := 0xffffffff
  bounce : List UInt8 := List.replicate blocksize 0
  bounceLba : Nat := noBlock
  readOnly : Bool := false
  faults : Nat → Bool := fun _ => false
  transfers : Nat := 0
  writes : List Store := []
  addrs : Nat → Nat := fun _ => 0
  calls : Nat := 0

/-- `blockmask`. -/
def AmigaDev.blockmask (d : AmigaDev) : Nat := d.blocksize - 1

/-- A routine of the device layer; the exception is its return of `-1`. -/
abbrev DevM := EStateM Unit AmigaDev

/-- `return -1`. -/
def devFail {α : Type} : DevM α := throw ()

/-- Whether the device carries out its next transfer: one that is not of whole blocks it refuses. -/
def AmigaDev.refuses (d : AmigaDev) (len off : Nat) : Bool :=
  d.faults d.transfers || off % d.blocksize != 0 || len % d.blocksize != 0

/-- One transfer to the device: `raw_io` for a read.  `none` is a return other than `0`. -/
def rawRead (len off : Nat) : DevM (Option (List UInt8)) := do
  let d ← get
  set { d with transfers := d.transfers + 1 }
  match d.medium with
  | some b => if d.refuses len off then pure none else pure (some (readBytes b off len))
  | none => pure none

/-- One transfer to the device: `raw_io` for a write of the whole of `data`. -/
def rawWrite (data : List UInt8) (off : Nat) : DevM Bool := do
  let d ← get
  match d.medium with
  | some b =>
    -- a transfer that the device refuses is counted as well, but stores nothing
    if d.refuses data.length off then do
      set { d with transfers := d.transfers + 1 }
      pure false
    else do
      set { d with
        medium := some (writeBytes b off data)
        transfers := d.transfers + 1
        writes := b :: d.writes }
      pure true
  | none => do
    set { d with transfers := d.transfers + 1 }
    pure false

/-- The test of `aligned_io` that the caller's buffer is not acceptable to the driver. -/
def AmigaDev.bounced (d : AmigaDev) (addr : Nat) : Bool := addr - (addr &&& d.mask) != 0

/-- The size of the next transfer of `aligned_io`. -/
def AmigaDev.chunk (d : AmigaDev) (addr len : Nat) : Nat :=
  if d.bounced addr then d.blocksize
  else
    -- a transfer is cut to what the device takes at once, in whole blocks
    let chunk :=
      if d.maxtransfer ≠ 0 ∧
        len > d.maxtransfer then d.maxtransfer - (d.maxtransfer &&& d.blockmask)
      else len
    if chunk = 0 then d.blocksize else chunk

/-- The loop of `aligned_io` for a read of `len` bytes, with a bound on its iterations. -/
def alignedReadLoop : (fuel addr len off : Nat) → DevM (List UInt8)
  | 0, _, _, _ => pure []
  | fuel + 1, addr, len, off => do
    if len = 0 then pure []
    else do
      let d ← get
      let chunk := d.chunk addr len
      match ← rawRead chunk off with
      | none => devFail
      | some bytes => do
        -- through the bounce buffer, if the driver cannot reach the caller's
        modify fun d => if d.bounced addr then { d with bounce := bytes } else d
        let rest ← alignedReadLoop fuel (addr + chunk) (len - chunk) (off + chunk)
        pure (bytes ++ rest)

/-- The loop of `aligned_io` for a write, with a bound on its iterations. -/
def alignedWriteLoop : (fuel addr : Nat) → (data : List UInt8) → (off : Nat) → DevM PUnit
  | 0, _, _, _ => pure ⟨⟩
  | fuel + 1, addr, data, off => do
    if data.length = 0 then pure ⟨⟩
    else do
      let d ← get
      let chunk := d.chunk addr data.length
      -- what the device cannot reach goes through the bounce buffer
      modify fun d => if d.bounced addr then { d with bounce := data.take chunk } else d
      if ← rawWrite (data.take chunk) off then
        alignedWriteLoop fuel (addr + chunk) (data.drop chunk) (off + chunk)
      else devFail

/-- `aligned_io` for a read: every iteration takes at least one block. -/
def alignedRead (addr len off : Nat) : DevM (List UInt8) := do
  let d ← get
  alignedReadLoop (len / d.blocksize) addr len off

/-- `aligned_io` for a write. -/
def alignedWrite (addr : Nat) (data : List UInt8) (off : Nat) : DevM PUnit := do
  -- the cached block may be in range
  modify fun d => { d with bounceLba := noBlock }
  let d ← get
  alignedWriteLoop (data.length / d.blocksize) addr data off

/-- `fetch_block`. -/
def fetchBlock (blockoff : Nat) : DevM PUnit := do
  let d ← get
  if d.bounceLba = blockoff then pure ⟨⟩
  else do
    -- while the block is read the buffer holds nothing that could be trusted
    modify fun d => { d with bounceLba := noBlock }
    match ← rawRead d.blocksize blockoff with
    | none => devFail
    | some bytes => modify fun d => { d with bounce := bytes, bounceLba := blockoff }

/-- A part of a block read through the bounce buffer. -/
def readPart (blockoff start n : Nat) : DevM (List UInt8) := do
  fetchBlock blockoff
  let d ← get
  pure ((d.bounce.drop start).take n)

/-- A part of a block written through the bounce buffer. -/
def writePart (blockoff start : Nat) (data : List UInt8) : DevM PUnit := do
  fetchBlock blockoff
  -- the rest of the block is written back as it was read
  modify fun d => { d with bounce := patch d.bounce start data }
  let d ← get
  if ← rawWrite d.bounce blockoff then pure ⟨⟩
  else do
    -- what the block holds now is unknown
    modify fun d => { d with bounceLba := noBlock }
    devFail

/-- How `partition_io` cuts a range of `size` bytes at `abs`: the bytes in the unaligned head and
in the aligned middle; the rest is the unaligned tail. -/
def AmigaDev.headLen (d : AmigaDev) (abs size : Nat) : Nat :=
  if abs &&& d.blockmask ≠ 0 then min (d.blocksize - (abs &&& d.blockmask)) size else 0

/-- The whole blocks of what remains behind the head of a transfer. -/
def AmigaDev.middleLen (d : AmigaDev) (remaining : Nat) : Nat :=
  if remaining ≥ d.blocksize then remaining - (remaining &&& d.blockmask) else 0

/-- A part of the range that is read if it is there. -/
def readIf (c : Prop) [Decidable c] (m : DevM (List UInt8)) : DevM (List UInt8) :=
  if c then m else pure []

/-- A part of the range that is written if it is there. -/
def writeIf (c : Prop) [Decidable c] (m : DevM PUnit) : DevM PUnit := if c then m else pure ⟨⟩

/-- The three parts of `partition_io` for a read. -/
def partitionRead (addr size abs : Nat) : DevM (List UInt8) := do
  let d ← get
  let h := d.headLen abs size
  let m := d.middleLen (size - h)
  let tail := size - h - m
  -- a block that begins before the range
  let head ← readIf (abs &&& d.blockmask ≠ 0)
    (readPart (abs - (abs &&& d.blockmask)) (abs &&& d.blockmask) h)
  -- whole blocks
  let middle ← readIf (size - h ≥ d.blocksize) (alignedRead (addr + h) m (abs + h))
  -- a block that goes on behind the range
  let rest ← readIf (tail > 0) (readPart (abs + h + m) 0 tail)
  pure (head ++ middle ++ rest)

/-- The three parts of `partition_io` for a write. -/
def partitionWrite (addr : Nat) (data : List UInt8) (abs : Nat) : DevM PUnit := do
  let d ← get
  let h := d.headLen abs data.length
  let m := d.middleLen (data.length - h)
  let tail := data.length - h - m
  writeIf (abs &&& d.blockmask ≠ 0)
    (writePart (abs - (abs &&& d.blockmask)) (abs &&& d.blockmask) (data.take h))
  writeIf (data.length - h ≥ d.blocksize) (alignedWrite (addr + h) ((data.drop h).take m) (abs + h))
  writeIf (tail > 0) (writePart (abs + h + m) 0 ((data.drop h).drop m))

/-- The checks `partition_io` makes before it transfers anything: `none` lets the transfer go on. -/
def AmigaDev.refuse (d : AmigaDev) (size : Nat) (offset : Int) : Option (Except Unit Nat) :=
  if offset < 0 ∨ size = 0 then some (.ok 0)
  else if offset ≥ d.size then some (.ok 0)
  else if offset + size > d.size then some (.error ())
  else none

/-- `exfat_pread`: the number of bytes returned and the bytes put into the buffer. -/
def amigaPread (addr size : Nat) (offset : Int) : DevM (Nat × List UInt8) := do
  let d ← get
  match d.refuse size offset with
  -- outside the partition nothing is transferred
  | some (.ok n) => pure (n, [])
  | some (.error _) => devFail
  | none => do
    let bytes ← partitionRead addr size (d.firstbyte + offset.toNat)
    pure (size, bytes)

/-- `exfat_pwrite`. -/
def amigaPwrite (addr : Nat) (data : List UInt8) (offset : Int) : DevM Nat := do
  let d ← get
  match d.refuse data.length offset with
  -- as for reading
  | some (.ok n) => pure n
  | some (.error _) => devFail
  | none => do
    partitionWrite addr data (d.firstbyte + offset.toNat)
    pure data.length

/-- `exfat_read`. -/
def amigaRead (addr size : Nat) : DevM (Nat × List UInt8) := do
  let d ← get
  let r ← amigaPread addr size d.pos
  modify fun d => { d with pos := d.pos + r.1 }
  pure r

/-- `exfat_write`. -/
def amigaWrite (addr : Nat) (data : List UInt8) : DevM Nat := do
  let d ← get
  let n ← amigaPwrite addr data d.pos
  modify fun d => { d with pos := d.pos + n }
  pure n

/-- `exfat_seek` from the start. -/
def amigaSeek (offset : Int) : DevM PUnit :=
  modify fun d => { d with pos := if offset < 0 then 0 else offset }

/-- The `CMD_UPDATE` of `exfat_fsync`. -/
def amigaUpdate : DevM Bool := do
  let d ← get
  if d.readOnly then pure true
  else do
    set { d with transfers := d.transfers + 1 }
    pure (d.medium.isSome && !d.faults d.transfers)

/-- The next address of a buffer that libexfat passes. -/
def AmigaDev.addr (d : AmigaDev) : Nat := d.addrs d.calls

instance : Device AmigaDev where
  pread size offset d :=
    match amigaPread d.addr size offset { d with calls := d.calls + 1 } with
    | .ok r d' => (some r.2, d')
    | .error _ d' => (none, d')
  pwrite data offset d :=
    match amigaPwrite d.addr data offset { d with calls := d.calls + 1 } with
    | .ok n d' => (some n, d')
    | .error _ d' => (none, d')
  fsync d :=
    match amigaUpdate d with
    | .ok done d' => (done, d')
    | .error _ d' => (false, d')
  getSize d := d.size.toNat

end ExFat
