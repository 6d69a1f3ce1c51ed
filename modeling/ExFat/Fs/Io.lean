import ExFat.Fs.Cluster

namespace ExFat

open Bytes

/-!
# `io.c`: reading and writing a file

`exfat_generic_pread` and `exfat_generic_pwrite`, the format logic that every platform shares.  A
read returns its result and the bytes it has put at the start of the caller's buffer.
-/

variable {δ : Type} [Device δ]

/-- The loop of `exfat_generic_pread` over the `n` clusters the range touches, from `cluster` on. -/
def preadLoop : (n cluster loffset remainder : Nat) → FileM δ (Except Errno (List UInt8))
  | 0, _, _, _ => pure (.ok [])
  | n + 1, cluster, loffset, remainder => do
    let s ← get
    let cs := s.ef.sb.clusterSize
    if s.ef.sb.clusterInvalid cluster then do
      onEf (exfatError "invalid cluster while reading")
      pure (.error .eio)
    else do
      -- a piece ends with its cluster
      let lsize := min (cs - loffset) remainder
      let offset ← onEf (exfatC2o cluster)
      match ← onEf (exfatPread lsize (offset + loffset)) with
      | none => do
        onEf (exfatError "failed to read cluster")
        pure (.error .eio)
      | some bytes => do
        let next ← exfatNextCluster cluster
        match ← preadLoop n next 0 (remainder - lsize) with
        | .error e => pure (.error e)
        | .ok rest => pure (.ok (bytes ++ rest))

/-- The number of clusters a range of `size` bytes touches that starts at `loffset` in one. -/
def clusterSpan (cs loffset size : Nat) : Nat :=
  if size = 0 then 0 else divRoundUp (loffset + size) cs

/-- `exfat_generic_pread` on a range that ends within `valid_size`. -/
def preadValid (size uoffset : Nat) : FileM δ (Except Errno (Nat × List UInt8)) := do
  let s ← get
  let cs := s.ef.sb.clusterSize
  let cluster ← exfatAdvanceCluster (u32 (uoffset / cs))
  if s.ef.sb.clusterInvalid cluster then do
    onEf (exfatError "invalid cluster while reading")
    pure (.error .eio)
  else do
    let loffset := uoffset % cs
    -- what lies behind the end is not read
    let length := min size (s.node.size - uoffset)
    match ← preadLoop (clusterSpan cs loffset length) cluster loffset length with
    | .error e => pure (.error e)
    | .ok bytes => do
      let s ← get
      -- reading changes the access time of a file, if the volume may be written
      if !s.node.isDir && !s.ef.ro && !s.ef.noatime then do
        exfatUpdateAtime
        pure (.ok (length, bytes))
      else pure (.ok (length, bytes))

/-- `exfat_generic_pread`.  The call the source makes to itself asks for the bytes up to
`valid_size` and so takes the branch `preadValid`. -/
def exfatGenericPread (size : Nat) (offset : Int) : FileM δ (Except Errno (Nat × List UInt8)) := do
  let s ← get
  let node := s.node
  if offset < 0 then pure (.error .einval)
  else do
    let uoffset := offset.toNat
    if uoffset ≥ node.size then pure (.ok (0, []))
    else if size = 0 then pure (.ok (0, []))
    else if u64 (uoffset + size) > node.validSize then
      -- a part is read from the device, and the rest is padded with zeros
      if uoffset < node.validSize then do
        match ← preadValid (node.validSize - uoffset) uoffset with
        | .error e => pure (.error e)
        | .ok (bytes, buffer) =>
          if bytes < node.validSize - uoffset then pure (.ok (bytes, buffer))
          else pure (.ok (min size (node.size - uoffset),
            buffer ++ List.replicate (min (sub64 size bytes) (sub64 node.size node.validSize)) 0))
      -- all of it is behind the valid bytes
      else pure (.ok (min size (node.size - uoffset),
        List.replicate (min size (sub64 node.size node.validSize)) 0))
    else preadValid size uoffset

/-- The loop of `exfat_generic_pwrite` over the `n` clusters the range touches; `done` bytes have
been written before. -/
def pwriteLoop (uoffset : Nat) : (n cluster loffset done : Nat) → (data : List UInt8) → FileM δ Rc
  | 0, _, _, _, _ => pure (.ok ())
  | n + 1, cluster, loffset, done, data => do
    let s ← get
    let cs := s.ef.sb.clusterSize
    if s.ef.sb.clusterInvalid cluster then do
      onEf (exfatError "invalid cluster while writing")
      pure (.error .eio)
    else do
      let lsize := min (cs - loffset) data.length
      let offset ← onEf (exfatC2o cluster)
      match ← onEf (exfatPwrite (data.take lsize) (offset + loffset)) with
      | none => do
        onEf (exfatError "failed to write cluster")
        pure (.error .eio)
      | some _ => do
        -- the valid bytes grow with each cluster that has been written
        modifyNode fun n => { n with validSize := max n.validSize (uoffset + (done + lsize)) }
        let next ← exfatNextCluster cluster
        pwriteLoop uoffset n next 0 (done + lsize) (data.drop lsize)

/-- `exfat_generic_pwrite` once the file is large enough. -/
def pwriteValid (data : List UInt8) (uoffset : Nat) : FileM δ (Except Errno Nat) := do
  let s ← get
  let cs := s.ef.sb.clusterSize
  if data.length = 0 then pure (.ok 0)
  else do
    let cluster ← exfatAdvanceCluster (u32 (uoffset / cs))
    if s.ef.sb.clusterInvalid cluster then do
      onEf (exfatError "invalid cluster while writing")
      pure (.error .eio)
    else do
      let loffset := uoffset % cs
      match ← pwriteLoop uoffset (clusterSpan cs loffset data.length) cluster loffset 0 data with
      | .error e => pure (.error e)
      | .ok _ => do
        let s ← get
        if !s.node.isDir then do
          -- the mtime of a directory is updated by the caller only when it creates or removes
          -- something in it
          exfatUpdateMtime
          pure (.ok data.length)
        else pure (.ok data.length)

/-- The second half of `exfat_generic_pwrite`: make room for the data, without erasing it first. -/
def pwriteExtend (data : List UInt8) (uoffset : Nat) : FileM δ (Except Errno Nat) := do
  let s ← get
  if u64 (uoffset + data.length) > s.node.size then do
    match ← exfatTruncate (u64 (uoffset + data.length)) false with
    | .error e => pure (.error e)
    | .ok _ => pwriteValid data uoffset
  else pwriteValid data uoffset

/-- `exfat_generic_pwrite`. -/
def exfatGenericPwrite (data : List UInt8) (offset : Int) : FileM δ (Except Errno Nat) := do
  let s ← get
  if offset < 0 then pure (.error .einval)
  else do
    let uoffset := offset.toNat
    if uoffset > s.node.size then do
      match ← exfatTruncate uoffset true with
      | .error e => pure (.error e)
      | .ok _ => pwriteExtend data uoffset
    else pwriteExtend data uoffset

end ExFat
