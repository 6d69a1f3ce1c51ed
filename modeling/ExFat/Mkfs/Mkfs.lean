import ExFat.Fs.Utf

namespace ExFat.Mkfs

open ExFat Bytes

/-!
# `mkfs`

The objects of a new file system, where they go and what is written of each: `mkexfat.c`, `vbr.c`,
`fat.c`, `cbm.c`, `uct.c` and `rootdir.c`, with the two front ends, `mkfs/main.c` on the host and
`amiga/format.c`.

The upcase table is data of 5836 bytes (`uctc.c`) that mkfs copies and sums; it is a parameter here.
-/

/-- `struct param`.  `label` is the array of sixteen units. -/
structure Param where
  sectorBits : Nat
  spcBits : Nat
  volumeSize : Nat
  volumeLabel : List Nat := []
  volumeSerial : Nat
  firstSector : Nat
  upcaseTable : List UInt8

/-- The members of `objects`. -/
inductive Object
  | vbr | fat | cbm | uct | rootdir
  deriving DecidableEq, Repr

/-- `objects`. -/
def objects : List Object := [.vbr, .vbr, .fat, .cbm, .uct, .rootdir]

/-- `sizeof(upcase_table)`. -/
def upcaseTableSize : Nat := 5836

namespace Param

variable (p : Param)

/-- `get_sector_size`. -/
def sectorSize : Nat := 2 ^ p.sectorBits

/-- `get_cluster_size`. -/
def clusterSize : Nat := p.sectorSize * 2 ^ p.spcBits

/-- `get_alignment` of each object. -/
def alignment : Object → Nat
  | .vbr => p.sectorSize
  | .fat => 128 * p.sectorSize
  | .cbm => p.clusterSize
  | .uct => p.clusterSize
  | .rootdir => p.clusterSize

/-- The loop of `get_position` from `position` on, for objects of the sizes given. -/
def walk (size : Object → Nat) (target : Object) : (position : Nat) → List Object → Nat
  | position, [] => position
  | position, o :: rest =>
    if o = target then roundUp position (p.alignment o)
    else walk size target (roundUp position (p.alignment o) + size o) rest

/-- `get_size` of the objects before the cluster heap, and of those whose size is fixed. -/
def plainSize : Object → Nat
  | .vbr => 12 * p.sectorSize
  | .fat => p.volumeSize / p.clusterSize * 4
  | .cbm => 0
  | .uct => upcaseTableSize
  | .rootdir => p.clusterSize

/-- `get_position(&cbm)`: the loop ends before it comes to the size of the bitmap.  The first vbr is
looked for under the name of the object, so this is also where the heap starts. -/
def cbmPosition : Nat := p.walk p.plainSize .cbm 0 objects

/-- `get_size`.  A volume that ends before the heap has a bitmap of no bytes here; the source has a
size below zero for it, and both are too small for `check_size`. -/
def size : Object → Nat
  | .cbm => divRoundUp ((p.volumeSize - p.cbmPosition) / p.clusterSize) 8
  | o => p.plainSize o

/-- `get_position`. -/
def position (o : Object) : Nat := p.walk p.size o 0 objects

/-- The end of the last object, as `check_size` computes it. -/
def endPosition : Nat :=
  objects.foldl (fun position o => roundUp position (p.alignment o) + p.size o) 0

/-- `check_size`, `true` when it returns `0`. -/
def checkSize : Bool := p.endPosition ≤ p.volumeSize

/-! ### What is written -/

/-- `clusters_max`. -/
def clustersMax : Nat := u32 (p.volumeSize / p.clusterSize)

/-- `fat_sectors`. -/
def fatSectors : Nat := u32 (divRoundUp (p.clustersMax * 4) p.sectorSize)

/-- `fat_sector_start` as `init_sb` computes it. -/
def fatSectorStart : Nat := u32 (p.alignment .fat / p.sectorSize)

/-- `fat_sector_count` as `init_sb` computes it. -/
def fatSectorCount : Nat :=
  sub32 (roundUp (u32 (p.fatSectorStart + p.fatSectors)) (2 ^ p.spcBits)) p.fatSectorStart

/-- `cluster_count` as `init_sb` computes it. -/
def clusterCount : Nat :=
  sub32 p.clustersMax (u32 (p.fatSectorStart + p.fatSectorCount) / 2 ^ p.spcBits)

/-- `rootdir_cluster` as `init_sb` computes it. -/
def rootdirCluster : Nat :=
  u32 ((p.position .rootdir - p.position .cbm) / p.clusterSize + firstDataCluster)

/-- The fields `init_sb` sets, with their offsets and sizes; the rest is zero. -/
def sbFields : List (Nat × Nat × Nat) :=
  [(0x00, 3, 0x9076eb),
   (0x03, 8, leNat [0x45, 0x58, 0x46, 0x41, 0x54, 0x20, 0x20, 0x20]),
   (0x40, 8, p.firstSector),
   (0x48, 8, p.volumeSize / p.sectorSize),
   (0x50, 4, p.fatSectorStart),
   (0x54, 4, p.fatSectorCount),
   (0x58, 4, p.position .cbm / p.sectorSize),
   (0x5c, 4, p.clusterCount),
   (0x60, 4, p.rootdirCluster),
   (0x64, 4, p.volumeSerial),
   (0x68, 1, 0),
   (0x69, 1, 1),
   (0x6a, 2, 0),
   (0x6c, 1, p.sectorBits),
   (0x6d, 1, p.spcBits),
   (0x6e, 1, 1),
   (0x6f, 1, 0x80),
   (0x70, 1, 0),
   (0x1fe, 2, 0xaa55)]

/-- `init_sb`. -/
def initSb : SuperBlock := SuperBlock.setFields ⟨List.replicate 512 0⟩ p.sbFields

/-- A sector that ends in the extended boot signature. -/
def bootSector : List UInt8 := List.replicate (p.sectorSize - 4) 0 ++ natLe 4 0xaa550000

/-- A sector of zeroes. -/
def emptySector : List UInt8 := List.replicate p.sectorSize 0

/-- The sum `vbr_write` computes on the way. -/
def vbrChecksum : Nat :=
  let sum := exfatVbrStartChecksum p.initSb.bytes
  let sum := (List.replicate 8 p.bootSector).foldl (fun sum s => exfatVbrAddChecksum s sum) sum
  (List.replicate 2 p.emptySector).foldl (fun sum s => exfatVbrAddChecksum s sum) sum

/-- The pieces `vbr_write` writes one after the other. -/
def vbrPieces : List (List UInt8) :=
  [p.initSb.bytes] ++ List.replicate 8 p.bootSector ++ List.replicate 2 p.emptySector ++
    [(List.replicate (p.sectorSize / 4) (natLe 4 p.vbrChecksum)).flatten]

/-- The entries `fat_write_entries` writes for an object of `n` clusters from `cluster` on. -/
def fatEntries (cluster n : Nat) : List Nat :=
  (List.range (n - 1)).map (fun i => cluster + i + 1) ++ [clusterEnd]

/-- The clusters of an object of the heap. -/
def clusters (o : Object) : Nat := divRoundUp (p.size o) p.clusterSize

/-- The first cluster of each object of the heap, as `fat_write` counts them: every call of
`fat_write_entries` writes an entry. -/
def firstCluster : Object → Nat
  | .uct => firstDataCluster + max (p.clusters .cbm) 1
  | .rootdir => firstDataCluster + max (p.clusters .cbm) 1 + max (p.clusters .uct) 1
  | _ => firstDataCluster

/-- The entries `fat_write` writes one after the other. -/
def fatPieces : List (List UInt8) :=
  ([0xfffffff8, 0xffffffff] ++ fatEntries (p.firstCluster .cbm) (p.clusters .cbm) ++
    fatEntries (p.firstCluster .uct) (p.clusters .uct) ++
    fatEntries (p.firstCluster .rootdir) (p.clusters .rootdir)).map (natLe 4)

/-- `allocated_clusters`. -/
def allocatedClusters : Nat := u32 (p.clusters .cbm + p.clusters .uct + p.clusters .rootdir)

/-- What `cbm_write` writes: the first bits set, to the end of a byte. -/
def cbmPiece : List UInt8 :=
  (List.range (divRoundUp p.allocatedClusters 8)).map fun k =>
    UInt8.ofNat ((List.range 8).foldl
      (fun v b => v + if 8 * k + b < p.allocatedClusters then 2 ^ b else 0) 0)

/-- `init_label_entry`. -/
def labelEntry : List UInt8 :=
  let entry := List.replicate 32 (0 : UInt8)
  if utf16Length p.volumeLabel = 0 then patch entry 0 [0x03]
  else
    let name := ((List.range enameMax).map fun i => natLe 2 (p.volumeLabel.getD i 0)).flatten
    patch (patch (patch entry 2 name) 1 (natLe 1 (utf16Length p.volumeLabel))) 0 [0x83]

/-- `init_bitmap_entry`. -/
def bitmapEntry : List UInt8 :=
  patch (patch (patch (List.replicate 32 0) 0 [0x81]) 20 (natLe 4 firstDataCluster)) 24
    (natLe 8 (p.size .cbm))

/-- `init_upcase_entry`. -/
def upcaseEntry : List UInt8 :=
  patch (patch (patch (patch (List.replicate 32 0) 0 [0x82]) 4
    (natLe 4 (exfatVbrAddChecksum p.upcaseTable 0))) 20
    (natLe 4 ((p.position .uct - p.position .cbm) / p.clusterSize + firstDataCluster))) 24
    (natLe 8 upcaseTableSize)

/-- What the `write` of each object writes, piece by piece. -/
def pieces : Object → List (List UInt8)
  | .vbr => p.vbrPieces
  | .fat => p.fatPieces
  | .cbm => [p.cbmPiece]
  | .uct => [p.upcaseTable]
  | .rootdir => [p.labelEntry, p.bitmapEntry, p.upcaseEntry]

end Param

/-! ### Writing -/

/-- The device with its file position, and what `malloc` gives. -/
structure MkState (δ : Type) where
  dev : δ
  pos : Nat := 0
  malloc : Nat → Bool := fun _ => true
  ticks : Nat := 0

/-- A routine of mkfs; the exception is its return of `1`. -/
abbrev MkM (δ : Type) := EStateM Unit (MkState δ)

variable {δ : Type} [Device δ]

/-- `exfat_seek` from the start; it does not fail. -/
def exfatSeek (offset : Nat) : MkM δ PUnit := modify fun s => { s with pos := offset }

/-- `exfat_write`, and the return of `1` when it fails. -/
def exfatWrite (data : List UInt8) : MkM δ PUnit := do
  let s ← get
  let r := Device.pwrite data s.pos s.dev
  match r.1 with
  | none => do
    set { s with dev := r.2 }
    throw ()
  -- the position moves by what was written
  | some n => set { s with dev := r.2, pos := s.pos + n }

/-- A `malloc`, and the return of `1` when it fails. -/
def mkMalloc : MkM δ PUnit := do
  let s ← get
  set { s with ticks := s.ticks + 1 }
  if s.malloc s.ticks then pure ⟨⟩ else throw ()

/-- Pieces written one after the other. -/
def writePieces : List (List UInt8) → MkM δ PUnit
  | [] => pure ⟨⟩
  | piece :: rest => do
    exfatWrite piece
    writePieces rest

/-- The pieces of `erase_object`: blocks of a megabyte, the last of them cut. -/
def erasePieces (size : Nat) : List (List UInt8) :=
  (List.range (divRoundUp size (1024 * 1024))).map fun i =>
    List.replicate (min (size - i * (1024 * 1024)) (1024 * 1024)) 0

/-- `erase_object`. -/
def eraseObject (start size : Nat) : MkM δ PUnit := do
  exfatSeek start
  writePieces (erasePieces size)

/-- `write` of an object; `vbr_write` and `cbm_write` allocate a buffer first. -/
def writeObject (p : Param) (o : Object) : MkM δ PUnit := do
  if o = .vbr ∨ o = .cbm then mkMalloc
  writePieces (p.pieces o)

/-- The loop of `erase`. -/
def eraseLoop (p : Param) : (position : Nat) → List Object → MkM δ PUnit
  | _, [] => pure ⟨⟩
  | position, o :: rest => do
    eraseObject (roundUp position (p.alignment o)) (p.size o)
    eraseLoop p (roundUp position (p.alignment o) + p.size o) rest

/-- The loop of `create`. -/
def createLoop (p : Param) : (position : Nat) → List Object → MkM δ PUnit
  | _, [] => pure ⟨⟩
  | position, o :: rest => do
    exfatSeek (roundUp position (p.alignment o))
    writeObject p o
    createLoop p (roundUp position (p.alignment o) + p.size o) rest

/-- `mkfs`. -/
def mkfs (p : Param) : MkM δ PUnit := do
  if p.checkSize then do
    mkMalloc
    -- the places of all objects are erased before the first is written
    eraseLoop p 0 objects
    createLoop p 0 objects
    let s ← get
    -- the device is synchronized at the end
    let r := Device.fsync s.dev
    set { s with dev := r.2 }
    if r.1 then pure ⟨⟩ else throw ()
  else throw ()

/-! ### The front ends -/

/-- The loop of `setup_spc_bits` that looks for a cluster size; a shift by 31 bits is past the width
of an `int`. -/
def searchSpcBits (volumeSize : Nat) : (fuel i : Nat) → Option Nat
  | 0, _ => none
  | fuel + 1, i =>
    if divRoundUp volumeSize (2 ^ i) ≤ lastDataCluster then some i
    else searchSpcBits volumeSize fuel (i + 1)

/-- The cluster size that is chosen when none is given; `none` when the search ends without one. -/
def autoSpcBits (limit sectorBits volumeSize : Nat) : Option Nat :=
  if volumeSize < 256 * 1024 * 1024 then some (12 - sectorBits)
  else if volumeSize < 32 * 1024 * 1024 * 1024 then some (15 - sectorBits)
  else (searchSpcBits volumeSize (limit - 17) 17).map (· - sectorBits)

/-- `setup_spc_bits`; `none` is its return of `-1`, or a shift that overflows an `int`. -/
def setupSpcBits (sectorBits : Nat) (userDefined : Option Nat) (volumeSize : Nat) : Option Nat :=
  match userDefined with
  | some bits =>
    -- the shift overflows an `int`
    if sectorBits + bits ≥ 31 then none
    else if volumeSize / (2 ^ sectorBits * 2 ^ bits) > lastDataCluster then none
    else some bits
  -- without a size from the user one is chosen
  | none => autoSpcBits 31 sectorBits volumeSize

/-- The units of an array of sixteen after a string has been put into it. -/
def labelArray (units : List Nat) : List Nat :=
  units.take (enameMax + 1) ++ List.replicate (enameMax + 1 - units.length) 0

/-- `setup_volume_label`. -/
def setupVolumeLabel (label : Option (List UInt8)) : Option (List Nat) :=
  match label with
  | none => some (labelArray [])
  | some s =>
    match exfatUtf8ToUtf16 s (enameMax + 1) with
    -- the rest of the array is zero
    | .ok units => some (labelArray units)
    | .error _ => none

/-- `setup` of the host front end, with the sector size it is called with, and the volume id that
`setup_volume_serial` has formed. -/
def hostParam (volumeSize : Nat) (spcBits : Option Nat) (label : Option (List UInt8))
    (serial firstSector : Nat) (upcaseTable : List UInt8) : Option Param := do
  let bits ← setupSpcBits 9 spcBits volumeSize
  let units ← setupVolumeLabel label
  -- no serial number could be formed
  if serial = 0 then none
  else
    some { sectorBits := 9, spcBits := bits, volumeSize := volumeSize, volumeLabel := units,
           volumeSerial := serial, firstSector := firstSector, upcaseTable := upcaseTable }

/-- The host mkfs, on a device of `volumeSize` bytes. -/
def hostMkfs (spcBits : Option Nat) (label : Option (List UInt8)) (serial firstSector : Nat)
    (upcaseTable : List UInt8) : MkM δ PUnit := do
  let s ← get
  match hostParam (Device.getSize s.dev) spcBits label serial firstSector upcaseTable with
  | none => throw ()
  | some p => mkfs p

end ExFat.Mkfs
