import ExFat.Fs.Types

namespace ExFat

open Bytes

/-!
# `cluster.c`

Clusters, the FAT, the allocation bitmap, and the growing and shrinking of a file.  The loops of
the source are recursions on the number of their remaining iterations.
-/

variable {δ : Type}

/-! ### Offsets -/

/-- Sector to absolute offset. -/
def s2o (sb : SuperBlock) (sector : Nat) : Nat := sector * 2 ^ sb.sectorBits

/-- Cluster to sector, for a cluster of the heap. -/
def clusterSector (sb : SuperBlock) (cluster : Nat) : Nat :=
  sb.clusterSectorStart + (cluster - firstDataCluster) * 2 ^ sb.spcBits

/-- The byte offset `exfat_c2o` returns for a cluster of the heap. -/
def clusterOffset (sb : SuperBlock) (cluster : Nat) : Nat := s2o sb (clusterSector sb cluster)

/-- Cluster to absolute offset. -/
def exfatC2o (cluster : Nat) : EfM δ Nat := do
  let ef ← get
  if cluster < firstDataCluster then exfatBug "invalid cluster number"
  else pure (clusterOffset ef.sb cluster)

/-- The byte offset of the FAT entry of a cluster. -/
def fatOffset (sb : SuperBlock) (cluster : Nat) : Nat := s2o sb sb.fatSectorStart + cluster * 4

/-- Size in bytes to size in clusters (rounded upwards). -/
def bytes2clusters (sb : SuperBlock) (bytes : Nat) : Nat :=
  u32 (u64 (bytes + sb.clusterSize - 1) / sb.clusterSize)

/-! ### The FAT -/

section Fat

variable [Device δ]

/-- `exfat_next_cluster`. -/
def exfatNextCluster (cluster : Nat) : FileM δ Nat := do
  let s ← get
  if cluster < firstDataCluster then exfatBug "bad cluster"
  else if s.node.isContiguous then pure (u32 (cluster + 1))
  else do
    let next ← onEf (exfatPread 4 (fatOffset s.ef.sb cluster))
    match next with
    | none => pure clusterBad
    | some bytes => pure (leAt bytes 0 4)

/-- The loop of `exfat_advance_cluster`, with the number of iterations left. -/
def advanceLoop : Nat → FileM δ PUnit
  | 0 => pure ⟨⟩
  | k + 1 => do
    let s ← get
    let next ← exfatNextCluster s.node.fptrCluster
    modifyNode fun n => { n with fptrCluster := next }
    if s.ef.sb.clusterInvalid next then pure ⟨⟩ else advanceLoop k

/-- `exfat_advance_cluster`. -/
def exfatAdvanceCluster (count : Nat) : FileM δ Nat := do
  modifyNode fun n =>
    if n.fptrIndex > count then { n with fptrIndex := 0, fptrCluster := n.startCluster } else n
  let s ← get
  advanceLoop (count - s.node.fptrIndex)
  modifyNode fun n => { n with fptrIndex := count }
  let s ← get
  pure s.node.fptrCluster

/-- `set_next_cluster`. -/
def setNextCluster (contiguous : Bool) (current next : Nat) : EfM δ Bool := do
  let ef ← get
  if contiguous then pure true
  else do
    let r ← exfatPwrite (natLe 4 next) (fatOffset ef.sb current)
    match r with
    | none => do
      exfatError "failed to write the next cluster"
      pure false
    | some _ => pure true

end Fat

/-! ### The allocation bitmap -/

/-- The inner loop of `find_bit_and_set`: the first clear bit among the `n` from `c` on. -/
def scanBits (chunk : Nat → Bool) : (c n : Nat) → Option Nat
  | _, 0 => none
  | c, n + 1 => if chunk c then scanBits chunk (c + 1) n else some c

/-- Whether word `i` of the bitmap has all its `w` bits set. -/
def wordFull (chunk : Nat → Bool) (w i : Nat) : Bool :=
  (List.range w).all fun b => chunk (i * w + b)

/-- The outer loop of `find_bit_and_set`: over the `n` words from word `i` on. -/
def scanWords (chunk : Nat → Bool) (w start stop : Nat) : (i n : Nat) → Option Nat
  | _, 0 => none
  | i, n + 1 =>
    if wordFull chunk w i then scanWords chunk w start stop (i + 1) n
    else
      match scanBits chunk (max (i * w) start)
          (min ((i + 1) * w) stop - max (i * w) start) with
      | some c => some c
      | none => scanWords chunk w start stop (i + 1) n

/-- `find_bit_and_set`: the cluster number returned and the bitmap after. -/
def findBitAndSet (w : Nat) (chunk : Nat → Bool) (start stop : Nat) : Nat × (Nat → Bool) :=
  match scanWords chunk w start stop (start / w) (divRoundUp stop w - start / w) with
  | some c => (u32 (c + firstDataCluster), Function.update chunk c true)
  | none => (clusterEnd, chunk)

/-- The bit `allocate_cluster` starts its search at. -/
def hintBit (hint chunkSize : Nat) : Nat :=
  if sub32 hint firstDataCluster ≥ chunkSize then 0 else sub32 hint firstDataCluster

/-- The search of `allocate_cluster`: from the hint to the end, then from the start to the hint. -/
def searchBits (w : Nat) (cmap : Cmap) (hint : Nat) : Nat × (Nat → Bool) :=
  let first := findBitAndSet w cmap.chunk (hintBit hint cmap.chunkSize) cmap.chunkSize
  if first.1 = clusterEnd then findBitAndSet w first.2 0 (hintBit hint cmap.chunkSize) else first

/-- `allocate_cluster`. -/
def allocateCluster (hint : Nat) : EfM δ Nat := do
  let ef ← get
  let found := searchBits ef.wordBits ef.cmap hint
  set { ef with cmap := { ef.cmap with chunk := found.2 } }
  if found.1 = clusterEnd then do
    exfatError "no free space left"
    pure clusterEnd
  else do
    modify fun ef => { ef with cmap := { ef.cmap with dirty := true } }
    pure found.1

/-- `free_cluster`. -/
def freeCluster (cluster : Nat) : EfM δ PUnit := do
  let ef ← get
  if sub32 cluster firstDataCluster ≥
    ef.cmap.size then exfatBug "caller must check cluster validity"
  else
    set { ef with cmap := { ef.cmap with
      chunk := Function.update ef.cmap.chunk (cluster - firstDataCluster) false, dirty := true } }

/-- The bytes `BMAP_SIZE(count)` counts, for `w`-bit words. -/
def bmapSize (w count : Nat) : Nat := roundUp count w / 8

/-- Byte `k` of the bitmap as it is stored. -/
def chunkByte (chunk : Nat → Bool) (k : Nat) : UInt8 :=
  UInt8.ofNat ((List.range 8).foldl (fun v b => v + if chunk (8 * k + b) then 2 ^ b else 0) 0)

/-- `exfat_flush`. -/
def exfatFlush [Device δ] : EfM δ Rc := do
  let ef ← get
  if ef.cmap.dirty then do
    let offset ← exfatC2o ef.cmap.startCluster
    -- the whole chunk is written, whatever has changed in it
    let r ← exfatPwrite ((List.range (bmapSize ef.wordBits ef.cmap.chunkSize)).map
      (chunkByte ef.cmap.chunk)) offset
    match r with
    -- the bitmap stays dirty
    | none => do
      exfatError "failed to write clusters bitmap"
      pure (.error .eio)
    | some _ => do
      modify fun ef => { ef with cmap := { ef.cmap with dirty := false } }
      pure (.ok ())
  else pure (.ok ())

/-! ### Growing and shrinking a file -/

section Resize

variable [Device δ]

/-- `make_noncontiguous`, over the `n` clusters from `c` on. -/
def makeNoncontiguous : (c n : Nat) → EfM δ Bool
  | _, 0 => pure true
  | c, n + 1 => do
    let done ← setNextCluster false c (c + 1)
    if done then makeNoncontiguous (c + 1) n else pure false

/-- The loop of `shrink_file` that frees the clusters cut off. -/
def freeLoop : (difference previous : Nat) → FileM δ Rc
  | 0, _ => pure (.ok ())
  | k + 1, previous => do
    let s ← get
    if s.ef.sb.clusterInvalid previous then do
      onEf (exfatError "invalid cluster while freeing after shrink")
      pure (.error .eio)
    else do
      -- the next cluster is read before the link to it is cut
      let next ← exfatNextCluster previous
      let done ← onEf (setNextCluster s.node.isContiguous previous clusterFree)
      if done then do
        onEf (freeCluster previous)
        freeLoop k next
      else pure (.error .eio)

/-- The end of `shrink_file`, from the first cluster that is cut off. -/
def shrinkTail (difference previous : Nat) : FileM δ Rc := do
  modifyNode fun n => { n with fptrIndex := 0, fptrCluster := n.startCluster }
  freeLoop difference previous

/-- `shrink_file`. -/
def shrinkFile (current difference : Nat) : FileM δ Rc := do
  let s ← get
  if difference = 0 then exfatBug "zero difference passed"
  else if s.node.startCluster = clusterFree then exfatBug "unable to shrink empty file"
  else if current < difference then exfatBug "file underflow"
  -- some clusters stay: the chain is cut behind the last of them
  else if current > difference then do
    let last ← exfatAdvanceCluster (current - difference - 1)
    if s.ef.sb.clusterInvalid last then do
      onEf (exfatError "invalid cluster while shrinking")
      pure (.error .eio)
    else do
      let previous ← exfatNextCluster last
      let done ← onEf (setNextCluster s.node.isContiguous last clusterEnd)
      if done then shrinkTail difference previous else pure (.error .eio)
  -- none stays
  else do
    modifyNode fun n => { n with startCluster := clusterFree, isDirty := true }
    shrinkTail difference s.node.startCluster

/-- The part of `grow_file` that links a new cluster after the last one. -/
def linkCluster (previous next : Nat) : FileM δ Bool := do
  let s ← get
  if next ≠ u32 (previous + 1) ∧ s.node.isContiguous then do
    -- it's a pity, but we are not able to keep the file contiguous anymore
    let done ← onEf (makeNoncontiguous s.node.startCluster (previous - s.node.startCluster))
    if done then do
      modifyNode fun n => { n with isContiguous := false, isDirty := true }
      onEf (setNextCluster false previous next)
    else pure false
  else onEf (setNextCluster s.node.isContiguous previous next)

/-- The loop of `grow_file`: `k` clusters are still to be allocated after `previous`. -/
def growLoop (current : Nat) : (k previous allocated : Nat) → FileM δ Rc
  | 0, previous, _ => do
    let s ← get
    let done ← onEf (setNextCluster s.node.isContiguous previous clusterEnd)
    if done then pure (.ok ()) else pure (.error .eio)
  | k + 1, previous, allocated => do
    let next ← onEf (allocateCluster (u32 (previous + 1)))
    let s ← get
    if s.ef.sb.clusterInvalid next then do
      -- the clusters taken so far are given back
      if allocated ≠ 0 then do
        let _ ← shrinkFile (current + allocated) allocated
        pure (.error .enospc)
      else pure (.error .enospc)
    else do
      let linked ← linkCluster previous next
      if linked then growLoop current k next (allocated + 1) else pure (.error .eio)

/-- `grow_file`. -/
def growFile (current difference : Nat) : FileM δ Rc := do
  let s ← get
  if difference = 0 then exfatBug "zero clusters count passed"
  else if s.node.startCluster ≠ clusterFree then do
    -- get the last cluster of the file
    let previous ← exfatAdvanceCluster (sub32 current 1)
    if s.ef.sb.clusterInvalid previous then do
      onEf (exfatError "invalid cluster while growing")
      pure (.error .eio)
    else growLoop current difference previous 0
  else if s.node.fptrIndex ≠ 0 then exfatBug "non-zero pointer index"
  else do
    -- file does not have clusters (i.e. is empty), allocate the first one for it
    let previous ← onEf (allocateCluster 0)
    if s.ef.sb.clusterInvalid previous then pure (.error .enospc)
    else do
      modifyNode fun n =>
        { n with fptrCluster := previous, startCluster := previous, isContiguous := true }
      growLoop current (difference - 1) previous 1

end Resize

/-! ### Erasing and truncating -/

section Truncate

variable [Device δ]

/-- `erase_raw`: the zero cluster, or a part of it, written to the device. -/
def eraseRaw (size offset : Nat) : EfM δ Bool := do
  let r ← exfatPwrite (List.replicate size 0) offset
  match r with
  | none => do
    exfatError "failed to erase"
    pure false
  | some _ => pure true

/-- The loop of `erase_range` over the `n` whole clusters after `cluster`. -/
def eraseLoop : (n cluster : Nat) → FileM δ Rc
  | 0, _ => pure (.ok ())
  | n + 1, cluster => do
    let next ← exfatNextCluster cluster
    let s ← get
    if s.ef.sb.clusterInvalid next then exfatBug "invalid cluster after allocation"
    else do
      let offset ← onEf (exfatC2o next)
      let done ← onEf (eraseRaw s.ef.sb.clusterSize offset)
      if done then eraseLoop n next else pure (.error .eio)

/-- `erase_range`.  The last argument of `erase_loop` is the number of times the boundary is moved
on by a cluster before it reaches `stop`. -/
def eraseRange (start stop : Nat) : FileM δ Rc := do
  let s ← get
  let cs := s.ef.sb.clusterSize
  if start ≥ stop then pure (.ok ())
  else do
    let boundary := (start ||| (cs - 1)) + 1
    let cluster ← exfatAdvanceCluster (u32 (start / cs))
    if s.ef.sb.clusterInvalid cluster then do
      onEf (exfatError "invalid cluster while erasing")
      pure (.error .eio)
    else do
      let offset ← onEf (exfatC2o cluster)
      -- erase from the beginning to the closest cluster boundary
      let done ← onEf (eraseRaw (min boundary stop - start) (offset + start % cs))
      if done then eraseLoop (divRoundUp (stop - boundary) cs) cluster
      else pure (.error .eio)

/-- `exfat_update_mtime`. -/
def exfatUpdateMtime : FileM δ PUnit := do
  let now ← onEf timeNow
  modifyNode fun n => { n with mtime := now, isDirty := true }

/-- `exfat_update_atime`. -/
def exfatUpdateAtime : FileM δ PUnit := do
  let now ← onEf timeNow
  modifyNode fun n => { n with atime := now, isDirty := true }

/-- The part of `exfat_truncate` that adds or removes clusters. -/
def resizeFile (c1 c2 : Nat) : FileM δ Rc :=
  if c1 < c2 then growFile c1 (c2 - c1)
  else if c1 > c2 then shrinkFile c1 (c1 - c2)
  else pure (.ok ())

/-- The last lines of `exfat_truncate`. -/
def setSize (size : Nat) : FileM δ Rc := do
  exfatUpdateMtime
  modifyNode fun n => { n with size := size, isDirty := true }
  pure (.ok ())

/-- `exfat_truncate`. -/
def exfatTruncate (size : Nat) (erase : Bool) : FileM δ Rc := do
  let s ← get
  let c1 := bytes2clusters s.ef.sb s.node.size
  let c2 := bytes2clusters s.ef.sb size
  if s.node.references = 0 ∧ s.node.parent.isSome then
    exfatBug "no references, node changes can be lost"
  -- the size is compared, not the number of clusters
  else if s.node.size = size then pure (.ok ())
  else do
    match ← resizeFile c1 c2 with
    | .error e => pure (.error e)
    | .ok _ => do
      if erase then do
        -- the node is read again, as the resizing has changed it
        let s ← get
        match ← eraseRange s.node.validSize size with
        | .error e => pure (.error e)
        | .ok _ => do
          modifyNode fun n => { n with validSize := size }
          setSize size
      else do
        modifyNode fun n => { n with validSize := min n.validSize size }
        setSize size

end Truncate

end ExFat
