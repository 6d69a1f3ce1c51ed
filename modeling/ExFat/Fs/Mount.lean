import ExFat.Fs.Cluster

namespace ExFat

open Bytes

/-!
# `mount.c`

The tests a volume has to pass before it is mounted.
-/

/-- `"EXFAT   "`. -/
def oemExfat : List UInt8 := [0x45, 0x58, 0x46, 0x41, 0x54, 0x20, 0x20, 0x20]

namespace SuperBlock

variable (sb : SuperBlock)

/-- The tests `exfat_mount` makes before it reads the rest of the boot region, with the message of
the one that fails. -/
def formatError : Option String :=
  if sb.oemName ≠ oemExfat then some "exFAT file system is not found"
  else if sb.sectorBits < 9 then some "too small sector size"
  else if sb.sectorBits + sb.spcBits > 25 then some "too big cluster size"
  else none

/-- The tests `exfat_mount` makes after that, on a device of `size` bytes. -/
def volumeError (size : Nat) : Option String :=
  if sb.versionMajor ≠ 1 ∨ sb.versionMinor ≠ 0 then some "unsupported exFAT version"
  else if sb.fatCount ≠ 1 then some "unsupported FAT count"
  else if sb.clusterCount * sb.clusterSize > size then
    some "file system in clusters is larger than device"
  else none

/-- What `exfat_mount` asks of the name and the sector and cluster sizes. -/
theorem formatError_eq_none : sb.formatError = none ↔
    sb.oemName = oemExfat ∧ 9 ≤ sb.sectorBits ∧ sb.sectorBits + sb.spcBits ≤ 25 := by
  unfold formatError
  split
  · simp_all
  · split
    · simp_all
    · split
      · simp_all
      · simp_all

/-- What `exfat_mount` asks of the version, the FATs and the size of the device. -/
theorem volumeError_eq_none (size : Nat) : sb.volumeError size = none ↔
    (sb.versionMajor = 1 ∧ sb.versionMinor = 0) ∧ sb.fatCount = 1 ∧
      sb.clusterCount * sb.clusterSize ≤ size := by
  unfold volumeError
  split
  next h =>
    simp only [reduceCtorEq, false_iff]
    rintro ⟨⟨h1, h2⟩, -⟩
    exact h.elim (fun h => h h1) (fun h => h h2)
  next h =>
    rw [not_or, not_not, not_not] at h
    split
    · simp_all
    · split
      · simp_all
      · simp_all

end SuperBlock

end ExFat
