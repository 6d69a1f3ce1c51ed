import ExFat.Fs.Mount
import ExFat.Fs.Node

namespace ExFat

open Bytes

/-!
# `mount.c`: mounting and unmounting

`exfat_mount` from the opened device on, and `exfat_unmount`.  `exfat_free` leaves nothing but the
device behind.
-/

variable {δ : Type} [Device δ]

/-! ### The superblock on the device -/

/-- `commit_super_block`, `true` when it returns `0`. -/
def commitSuperBlock : EfM δ Bool := do
  let ef ← get
  match ← exfatPwrite ef.sb.bytes 0 with
  | none => do
    exfatError "failed to write super block"
    pure false
  | some _ => exfatFsync

/-- `exfat_soil_super_block`. -/
def exfatSoilSuperBlock : EfM δ Bool := do
  let ef ← get
  if ef.ro then pure true
  else do
    set { ef with sb := ef.sb.setField 0x6a 2 (ef.sb.volumeState ||| stateMounted) }
    commitSuperBlock

/-- The number of bits set among four. -/
def nibbleBits : List Nat := [0, 1, 1, 2, 1, 2, 2, 3, 1, 2, 2, 3, 2, 3, 3, 4]

/-- `exfat_count_free_clusters`: whole bytes through the table, the rest bit by bit. -/
def exfatCountFreeClusters (cmap : Cmap) : Nat :=
  let whole := cmap.size / 8
  let bytes := (List.range whole).foldl (fun used i =>
    let b := (chunkByte cmap.chunk i).toNat
    used + nibbleBits.getD (b &&& 0xf) 0 + nibbleBits.getD (b >>> 4) 0) 0
  let used := (List.range (cmap.size - whole * 8)).foldl (fun used i =>
    if cmap.chunk (whole * 8 + i) then used + 1 else used) bytes
  sub32 cmap.size used

/-- `allocated_percent` as `finalize_super_block` computes it. -/
def allocatedPercent (total free : Nat) : Nat :=
  u32 (u32 (sub32 total free * 100) + total / 2) / total

/-- The superblock as `finalize_super_block` leaves it. -/
def finalSuperBlock (ef : Ef δ) : SuperBlock :=
  let sb := ef.sb.setField 0x6a 2 (ef.sb.volumeState &&& 0xfffd)
  if sb.allocatedPercent ≠ 0xff then
    sb.setField 0x70 1 (allocatedPercent sb.clusterCount (exfatCountFreeClusters ef.cmap))
  else sb

/-- `finalize_super_block`. -/
def finalizeSuperBlock : EfM δ PUnit := do
  let ef ← get
  if ef.ro then pure ⟨⟩
  else do
    set { ef with sb := finalSuperBlock ef }
    let _ ← commitSuperBlock
    pure ⟨⟩

/-- `exfat_free`. -/
def exfatFree : TreeM δ PUnit :=
  modify fun t => { t with
    heap := fun _ => none
    ef := { t.ef with upcase := none, cmap := { t.ef.cmap with present := false } } }

/-- `exfat_unmount`. -/
def exfatUnmount : TreeM δ PUnit := do
  let _ ← exfatFlushNodes
  let _ ← onVolume exfatFlush
  let t ← get
  exfatPutNode t.root
  exfatResetCache
  onVolume finalizeSuperBlock
  exfatFree

/-! ### Mounting -/

/-- The loop of `rootdir_size` from `cluster` on: `clusters` have been counted. -/
def rootdirLoop : (fuel clusters cluster : Nat) → FileM δ Nat
  | 0, _, _ => throw .fuel
  | fuel + 1, clusters, cluster => do
    let s ← get
    if clusters = s.ef.sb.clusterCount then do
      -- infinite loop detected
      onEf (exfatError "root directory cannot occupy all clusters")
      pure 0
    else if s.ef.sb.clusterInvalid cluster then do
      onEf (exfatError "bad cluster while reading root directory")
      pure 0
    else do
      let next ← exfatNextCluster cluster
      if next ≠ clusterEnd then rootdirLoop fuel (clusters + 1) next
      else pure ((clusters + 1) * s.ef.sb.clusterSize)

/-- `rootdir_size`. -/
def rootdirSize : FileM δ Nat := do
  let s ← get
  rootdirLoop (s.ef.sb.clusterCount + 1) 0 s.ef.sb.rootdirCluster

/-- The sectors of the boot region after the first, as `verify_vbr_checksum` reads them. -/
def readVbrSectors (sectorSize : Nat) : (n i : Nat) → EfM δ (Option (List (List UInt8)))
  | 0, _ => pure (some [])
  | n + 1, i => do
    match ← exfatPread sectorSize (i * sectorSize) with
    | none => do
      exfatError "failed to read VBR sector"
      pure none
    | some sector => do
      match ← readVbrSectors sectorSize n (i + 1) with
      | none => pure none
      | some sectors => pure (some (sector :: sectors))

/-- The twelve sectors of the boot region: in one transfer when a cluster holds them. -/
def readVbr : EfM δ (Option (List (List UInt8))) := do
  let ef ← get
  let sectorSize := ef.sb.sectorSize
  if ef.sb.clusterSize ≥ 12 * sectorSize then do
    match ← exfatPread (12 * sectorSize) 0 with
    | none => do
      exfatError "failed to read boot sector"
      pure none
    | some bytes =>
      pure (some ((List.range 12).map fun i => (bytes.drop (i * sectorSize)).take sectorSize))
  else readVbrSectors sectorSize 12 0

/-- The sum over the first eleven of the sectors. -/
def vbrChecksum : List (List UInt8) → Nat
  | [] => 0
  | boot :: sectors =>
    (sectors.take 10).foldl (fun sum s => exfatVbrAddChecksum s sum) (exfatVbrStartChecksum boot)

/-- `exfat_fix_invalid_vbr_checksum`. -/
def exfatFixInvalidVbrChecksum (checksum : Nat) : EfM δ Bool := do
  let ef ← get
  let sectorSize := ef.sb.sectorSize
  match ← exfatPwrite ((List.replicate (sectorSize / 4) (natLe 4 checksum)).flatten)
      (11 * sectorSize) with
  | none => do
    exfatError "failed to write correct VBR checksum"
    pure false
  | some _ => do
    exfatErrorsFixedBump
    pure true

/-- The loop of `verify_vbr_checksum` over the last sector, whose words are `words`. -/
def verifyWords (checksum : Nat) : List Nat → EfM δ Bool
  | [] => pure true
  | w :: ws =>
    if w ≠ checksum then do
      exfatError "invalid VBR checksum"
      if ← exfatAskToFix then
        -- the repair fills the buffer too, so that the rest of the words agree
        exfatFixInvalidVbrChecksum checksum
      else pure false
    else verifyWords checksum ws

/-- `verify_vbr_checksum`. -/
def verifyVbrChecksum : EfM δ Bool := do
  let ef ← get
  match ← readVbr with
  | none => pure false
  | some sectors =>
    let last := sectors.getD 11 []
    verifyWords (vbrChecksum sectors)
      ((List.range (ef.sb.sectorSize / 4)).map fun i => leAt last (4 * i) 4)

/-- The first part of `exfat_mount`: the boot sector is read and checked. -/
def mountSuperBlock : EfM δ Rc := do
  if !(← mallocOk) then do
    exfatError "failed to allocate memory for the super block"
    pure (.error .enomem)
  else do
    match ← exfatPread 512 0 with
    | none => do
      exfatError "failed to read boot sector"
      pure (.error .eio)
    | some bytes => do
      modify fun ef => { ef with sb := ⟨bytes⟩ }
      let ef ← get
      match ef.sb.formatError with
      | some message => do
        exfatError message
        pure (.error .eio)
      | none =>
        if !(← mallocOk) then do
          exfatError "failed to allocate zero sector"
          pure (.error .enomem)
        else if !(← verifyVbrChecksum) then pure (.error .eio)
        else
          -- what is left to check needs the size of the device
          match ef.sb.volumeError (Device.getSize ef.dev) with
          | some message => do
            exfatError message
            pure (.error .eio)
          | none =>
            if !(← mallocOk) then do
              exfatError "failed to allocate root node"
              pure (.error .enomem)
            else pure (.ok ())

/-- `exfat_mount` gives up after the root directory has a node. -/
def abandonMount (root : NodeId) : TreeM δ Rc := do
  exfatPutNode root
  exfatResetCache
  exfatFree
  pure (.error .eio)

/-- The second part of `exfat_mount`: the root directory, with the table and the bitmap found in
it. -/
def mountRoot : TreeM δ Rc := do
  let t ← get
  let cluster := t.ef.sb.rootdirCluster
  set { t with
    heap := Function.update t.heap t.fresh
      (some { attrib := attribDir, startCluster := cluster, fptrCluster := cluster })
    root := t.fresh
    fresh := t.fresh + 1 }
  let root := t.fresh
  let size ← onNode root rootdirSize
  updateNode root fun n => { n with size := size, validSize := size }
  if size = 0 then do
    exfatFree
    pure (.error .eio)
  else do
    -- always keep at least 1 reference to the root node
    exfatGetNode root
    match ← exfatCacheDirectory root with
    | .error _ => abandonMount root
    | .ok _ => do
      let t ← get
      if t.ef.upcase.isNone then do
        onVolume (exfatError "upcase table is not found")
        abandonMount root
      else if !t.ef.cmap.present then do
        onVolume (exfatError "clusters bitmap is not found")
        abandonMount root
      else pure (.ok ())

/-- `exfat_mount`, once the device is open and the options are in `ef`. -/
def exfatMount : TreeM δ Rc := do
  match ← onVolume mountSuperBlock with
  | .error e => do
    exfatFree
    pure (.error e)
  | .ok _ => mountRoot

end ExFat
