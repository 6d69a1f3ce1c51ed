import ExFat.Fs.Io
import ExFat.Lib.Chain

namespace ExFat

open Bytes

/-!
# The layout of a volume

The FAT lies below the cluster heap and has an entry for every cluster (`Layout`).  Under that
condition the FAT entries and the clusters of the heap are separate cells of the medium: a write to
one changes none of the others.  This is what lets the proofs above speak of `fatEntry` and
`clusterData` and no longer of byte offsets.
-/

/-- What the superblock of an exFAT volume promises of the layout: the sizes `exfat_mount` checks,
cluster numbers up to `EXFAT_LAST_DATA_CLUSTER`, and a FAT that ends where the cluster heap starts
or before. -/
structure Layout (sb : SuperBlock) : Prop where
  sectorBits : 9 ≤ sb.sectorBits
  clusterBits : sb.sectorBits + sb.spcBits ≤ 25
  clusterLimit : sb.clusterCount + 1 ≤ lastDataCluster
  fatRoom : fatOffset sb (sb.clusterCount + firstDataCluster) ≤ clusterOffset sb firstDataCluster

instance (sb : SuperBlock) : Decidable (Layout sb) :=
  decidable_of_iff (9 ≤ sb.sectorBits ∧ sb.sectorBits + sb.spcBits ≤ 25 ∧
      sb.clusterCount + 1 ≤ lastDataCluster ∧
      fatOffset sb (sb.clusterCount + firstDataCluster) ≤ clusterOffset sb firstDataCluster)
    ⟨fun ⟨hsector, hcluster, hlimit, hroom⟩ => ⟨hsector, hcluster, hlimit, hroom⟩,
      fun h => ⟨h.sectorBits, h.clusterBits, h.clusterLimit, h.fatRoom⟩⟩

/-- The FAT entry of a cluster. -/
def fatEntry (sb : SuperBlock) (b : Store) (c : Nat) : Nat := leNat (readBytes b (fatOffset sb c) 4)

/-- The byte at `o` in a cluster. -/
def clusterByte (sb : SuperBlock) (b : Store) (c o : Nat) : UInt8 := b (clusterOffset sb c + o)

variable {sb : SuperBlock} {b : Store} {c c' : Nat}

/-- `CLUSTER_INVALID` lets exactly the clusters of the heap pass. -/
theorem clusterInvalid_eq_false :
    sb.clusterInvalid c = false ↔ 2 ≤ c ∧ c < sb.clusterCount + 2 := by
  unfold SuperBlock.clusterInvalid firstDataCluster
  simp only [Bool.or_eq_false_iff, decide_eq_false_iff_not]
  omega

/-- A cluster of the heap. -/
def Valid (sb : SuperBlock) (c : Nat) : Prop := sb.clusterInvalid c = false

instance (sb : SuperBlock) (c : Nat) : Decidable (Valid sb c) :=
  inferInstanceAs (Decidable (sb.clusterInvalid c = false))

/-- Data clusters are counted from two. -/
theorem Valid.two_le (h : Valid sb c) : 2 ≤ c := (clusterInvalid_eq_false.mp h).1

/-- A data cluster lies below the end of the heap. -/
theorem Valid.lt (h : Valid sb c) : c < sb.clusterCount + 2 := (clusterInvalid_eq_false.mp h).2

/-- Cluster numbers fit into 32 bits, with room for the reserved ones. -/
theorem Layout.count_lt (hl : Layout sb) : sb.clusterCount + 9 < 2 ^ 32 := by
  have := hl.clusterLimit
  unfold lastDataCluster at this
  omega

/-- A data cluster is none of the reserved numbers. -/
theorem Valid.lt_end (h : Valid sb c) (hl : Layout sb) : c < clusterBad := by
  have h1 := h.lt
  have h2 := hl.clusterLimit
  unfold lastDataCluster at h2
  unfold clusterBad
  omega

/-- A data cluster fits into 32 bits, also when a little is added to it. -/
theorem Valid.lt_word (h : Valid sb c) (hl : Layout sb) : c + 8 < 2 ^ 32 := by
  have := h.lt_end hl
  unfold clusterBad at this
  omega

/-! ### Offsets -/

/-- The clusters lie one behind the other from the first on. -/
theorem clusterOffset_eq (sb : SuperBlock) (c : Nat) :
    clusterOffset sb c = clusterOffset sb 2 + (c - 2) * sb.clusterSize := by
  unfold clusterOffset clusterSector s2o SuperBlock.clusterSize SuperBlock.sectorSize
    firstDataCluster
  simp only [Nat.sub_self, Nat.zero_mul, Nat.add_zero]
  ring

/-- Different clusters lie apart. -/
theorem clusterOffset_apart (sb : SuperBlock) (hc : 2 ≤ c) (hlt : c < c') :
    clusterOffset sb c + sb.clusterSize ≤ clusterOffset sb c' := by
  rw [clusterOffset_eq sb c, clusterOffset_eq sb c']
  have h : (c - 2 + 1) * sb.clusterSize ≤ (c' - 2) * sb.clusterSize :=
    Nat.mul_le_mul_right _ (by omega)
  rw [Nat.add_mul, Nat.one_mul] at h
  omega

/-- The FAT has four bytes for each cluster. -/
theorem fatOffset_eq (sb : SuperBlock) (c : Nat) : fatOffset sb c = fatOffset sb 0 + c * 4 := by
  unfold fatOffset
  omega

/-- The FAT entry of a cluster lies below the heap. -/
theorem fatOffset_below (hl : Layout sb) (h : Valid sb c) (c' : Nat) :
    fatOffset sb c + 4 ≤ clusterOffset sb c' := by
  have h1 := hl.fatRoom
  have h2 := h.lt
  have h3 := clusterOffset_eq sb c'
  rw [fatOffset_eq] at h1 ⊢
  unfold firstDataCluster at h1
  omega

/-! ### Writing a FAT entry -/

/-- The medium with a FAT entry set. -/
def setFat (sb : SuperBlock) (b : Store) (c v : Nat) : Store :=
  writeBytes b (fatOffset sb c) (natLe 4 v)

/-- The entry that has been written into the FAT is read back. -/
theorem fatEntry_setFat_self (v : Nat) : fatEntry sb (setFat sb b c v) c = v % 2 ^ 32 := by
  unfold fatEntry setFat
  have h := readBytes_writeBytes_self b (fatOffset sb c) (natLe 4 v)
  rw [length_natLe] at h
  rw [h, leNat_natLe]
  rfl

/-- Writing an entry of the FAT leaves the other entries alone. -/
theorem fatEntry_setFat_of_ne (v : Nat) (h : c' ≠ c) :
    fatEntry sb (setFat sb b c v) c' = fatEntry sb b c' := by
  unfold fatEntry setFat
  rw [readBytes_writeBytes_of_disjoint]
  rw [length_natLe, fatOffset_eq sb c, fatOffset_eq sb c']
  omega

/-- Writing an entry of the FAT leaves the bytes of the clusters alone. -/
theorem clusterByte_setFat (hl : Layout sb) (hc : Valid sb c) (c' v o : Nat) :
    clusterByte sb (setFat sb b c v) c' o = clusterByte sb b c' o := by
  unfold clusterByte setFat
  apply writeBytes_outside
  have := fatOffset_below hl hc c'
  rw [length_natLe]
  omega

/-! ### Writing into a cluster -/

/-- Writing into a cluster leaves the FAT alone. -/
theorem fatEntry_writeCluster (hl : Layout sb) (hc : Valid sb c) (c' o : Nat)
    (data : List UInt8) :
    fatEntry sb (writeBytes b (clusterOffset sb c' + o) data) c = fatEntry sb b c := by
  unfold fatEntry
  rw [readBytes_writeBytes_of_disjoint]
  have := fatOffset_below hl hc c'
  omega

/-- Writing into a cluster leaves the other clusters alone. -/
theorem clusterByte_writeCluster_of_ne (hc : 2 ≤ c) (hc' : 2 ≤ c') (hne : c' ≠ c) {o o' : Nat}
    {data : List UInt8} (hfit : o + data.length ≤ sb.clusterSize) (ho' : o' < sb.clusterSize) :
    clusterByte sb (writeBytes b (clusterOffset sb c + o) data) c' o' = clusterByte sb b c' o' := by
  unfold clusterByte
  apply writeBytes_outside
  rcases Nat.lt_or_gt_of_ne hne with h | h
  · have := clusterOffset_apart sb hc' h
    omega
  · have := clusterOffset_apart sb hc h
    omega

/-- The bytes that have been written into a cluster are read back, the others are as before. -/
theorem clusterByte_writeCluster_self (o o' : Nat) (data : List UInt8) :
    clusterByte sb (writeBytes b (clusterOffset sb c + o) data) c o' =
      if o ≤ o' ∧ o' < o + data.length then data.getD (o' - o) 0 else clusterByte sb b c o' := by
  unfold clusterByte
  rw [writeBytes_apply]
  have hiff : (clusterOffset sb c + o ≤ clusterOffset sb c + o' ∧
      clusterOffset sb c + o' < clusterOffset sb c + o + data.length) ↔
      (o ≤ o' ∧ o' < o + data.length) := by omega
  simp only [hiff]
  congr 2
  omega

/-! ### Cells that a step leaves alone -/

/-- A step of the medium leaves a cluster alone: its FAT entry and its bytes. -/
def Untouched (sb : SuperBlock) (b b' : Store) (c : Nat) : Prop :=
  fatEntry sb b' c = fatEntry sb b c ∧
    ∀ o, o < sb.clusterSize → clusterByte sb b' c o = clusterByte sb b c o

/-- Nothing has been written. -/
theorem Untouched.refl (sb : SuperBlock) (b : Store) (c : Nat) : Untouched sb b b c :=
  ⟨rfl, fun _ _ => rfl⟩

/-- A cluster that neither of two steps touched is untouched by both. -/
theorem Untouched.trans {b₁ b₂ b₃ : Store} (h : Untouched sb b₁ b₂ c) (h' : Untouched sb b₂ b₃ c) :
    Untouched sb b₁ b₃ c :=
  ⟨h'.1.trans h.1, fun o ho => (h'.2 o ho).trans (h.2 o ho)⟩

end ExFat
