import ExFat.Alloc.Bitmap
import Mathlib.Data.List.Perm.Subperm

namespace ExFat

open Bytes Program Chain

/-!
# Walking and linking chains

The clusters of a node are a chain of the successor function `nextOf`: the next number for a
contiguous node, the FAT entry for any other.  `Chained` ties a node to the list of its clusters
and says that the cached file pointer points into that list; under it `exfat_advance_cluster`
returns the cluster asked for, wherever the pointer was before.
-/

/-- The cluster after `c` in a node that is contiguous or not. -/
def nextOf (sb : SuperBlock) (b : Store) (contiguous : Bool) (c : Nat) : Nat :=
  if contiguous then u32 (c + 1) else fatEntry sb b c

/-- The file pointer `index` ↦ `cluster` points into a chain that starts at `start`. -/
def PointsInto (L : List Nat) (start index cluster : Nat) : Prop :=
  (index = 0 ∧ cluster = start) ∨ L[index]? = some cluster

/-- `L` is the list of clusters of a node: it is what the links say, its members are different
clusters of the heap, the file pointer points into it, and a node without clusters starts nowhere.
The last two conditions `check_node` and the allocation of a node see to. -/
structure Chained (sb : SuperBlock) (b : Store) (n : Node) (L : List Nat) : Prop where
  follows : Follows (nextOf sb b n.isContiguous) n.startCluster L
  valid : ∀ c ∈ L, Valid sb c
  nodup : L.Nodup
  fptr : PointsInto L n.startCluster n.fptrIndex n.fptrCluster
  empty : L = [] → n.startCluster = clusterFree

instance (sb : SuperBlock) (b : Store) (n : Node) (L : List Nat) : Decidable (Chained sb b n L) :=
  decidable_of_iff (Follows (nextOf sb b n.isContiguous) n.startCluster L ∧ (∀ c ∈ L, Valid sb c) ∧
      L.Nodup ∧ (n.fptrIndex = 0 ∧ n.fptrCluster = n.startCluster ∨
        L[n.fptrIndex]? = some n.fptrCluster) ∧
      (L = [] → n.startCluster = clusterFree))
    ⟨fun ⟨hfollows, hvalid, hnodup, hfptr, hempty⟩ => ⟨hfollows, hvalid, hnodup, hfptr, hempty⟩,
      fun h => ⟨h.follows, h.valid, h.nodup, h.fptr, h.empty⟩⟩

/-- The links of a chain lead no further: the FAT entry of its last cluster is no cluster. -/
def Ended (sb : SuperBlock) (b : Store) (n : Node) (L : List Nat) : Prop :=
  n.isContiguous = false → ∀ c, L.getLast? = some c → sb.clusterInvalid (fatEntry sb b c) = true

/-- A chain is no longer than the heap. -/
theorem Chained.length_le {sb : SuperBlock} {b : Store} {n : Node} {L : List Nat}
    (h : Chained sb b n L) : L.length ≤ sb.clusterCount := by
  have hsub : L ⊆ List.range' 2 sb.clusterCount := by
    intro c hc
    have h1 := (h.valid c hc).two_le
    have h2 := (h.valid c hc).lt
    exact List.mem_range'_1.mpr (by omega)
  have hle := (h.nodup.subperm hsub).length_le
  simpa using hle

/-- The volume with another content of the medium, another bitmap and other counters. -/
def Ef.upd (ef : Ef Flat) (bytes : Store) (chunk : Nat → Bool) (dirty : Bool) (errors ticks : Nat) :
    Ef Flat :=
  { ef with
    dev := { ef.dev with bytes := bytes }
    cmap := { ef.cmap with chunk := chunk, dirty := dirty }
    errors := errors
    ticks := ticks }

section Upd

variable (ef : Ef Flat) (bytes bytes' : Store) (chunk chunk' : Nat → Bool) (dirty dirty' : Bool)
  (errors ticks errors' ticks' : Nat)

/-- Of two updates the later one counts. -/
@[simp] theorem Ef.upd_upd :
    (ef.upd bytes chunk dirty errors ticks).upd bytes' chunk' dirty' errors'
    ticks' = ef.upd bytes' chunk' dirty' errors' ticks' := rfl

@[simp] theorem Ef.upd_sb : (ef.upd bytes chunk dirty errors ticks).sb = ef.sb := rfl

@[simp] theorem Ef.upd_bytes : (ef.upd bytes chunk dirty errors ticks).dev.bytes = bytes := rfl

@[simp] theorem Ef.upd_chunk : (ef.upd bytes chunk dirty errors ticks).cmap.chunk = chunk := rfl

@[simp] theorem Ef.upd_size : (ef.upd bytes chunk dirty errors ticks).cmap.size = ef.cmap.size :=
  rfl

@[simp] theorem Ef.upd_chunkSize :
    (ef.upd bytes chunk dirty errors ticks).cmap.chunkSize = ef.cmap.chunkSize := rfl

@[simp] theorem Ef.upd_wordBits : (ef.upd bytes chunk dirty errors ticks).wordBits = ef.wordBits :=
  rfl

@[simp] theorem Ef.upd_errors : (ef.upd bytes chunk dirty errors ticks).errors = errors := rfl

@[simp] theorem Ef.upd_ticks : (ef.upd bytes chunk dirty errors ticks).ticks = ticks := rfl

@[simp] theorem Ef.upd_dirty : (ef.upd bytes chunk dirty errors ticks).cmap.dirty = dirty := rfl

/-- Updating a volume with what it has changes nothing. -/
theorem Ef.upd_self : ef.upd ef.dev.bytes ef.cmap.chunk ef.cmap.dirty ef.errors ef.ticks = ef := rfl

end Upd

variable {ef : Ef Flat} {n : Node} {L : List Nat} {c : Nat}

/-! ### Elementary routines -/

/-- The offset of a data cluster can be computed. -/
@[simp] theorem run_exfatC2o {δ : Type} {ef : Ef δ} (h : 2 ≤ c) :
    exfatC2o c ef = .ok (clusterOffset ef.sb c) ef := by
  unfold exfatC2o firstDataCluster
  simp only [run_bind, run_get]
  rw [if_neg (by omega)]
  rfl

/-- `exfat_next_cluster` reads the successor from the FAT, or counts on. -/
theorem exfatNextCluster_run (h : 2 ≤ c) :
    exfatNextCluster c ⟨ef, n⟩ =
      .ok (nextOf ef.sb ef.dev.bytes n.isContiguous c) (⟨ef, n⟩ : FileState Flat) := by
  unfold exfatNextCluster firstDataCluster nextOf
  simp only [run_bind, run_get]
  rw [if_neg (by omega)]
  cases n.isContiguous with
  | true => rfl
  | false =>
    simp only [Bool.false_eq_true, if_false, run_bind, run_onEf, run_exfatPread, run_pure]
    rw [leAt_readBytes (by omega)]
    rfl

/-- The pointer is at the start already. -/
theorem exfatAdvanceCluster_zero {δ : Type} [Device δ] {ef : Ef δ} {n : Node}
    (h : n.fptrIndex = 0) :
    exfatAdvanceCluster 0 ⟨ef, n⟩ = .ok n.fptrCluster (⟨ef, n⟩ : FileState δ) := by
  unfold exfatAdvanceCluster
  rw [run_bind_ok (run_modifyNode _ _), run_bind_ok (run_get _)]
  dsimp only
  rw [if_neg (by omega), Nat.zero_sub]
  unfold advanceLoop
  rw [run_bind_ok (run_pure _ _), run_bind_ok (run_modifyNode _ _), ← h]
  rfl

/-- A file without clusters has no next one. -/
theorem exfatAdvanceCluster_free {δ : Type} [Device δ] {ef : Ef δ} {n : Node} (h : n.fptrIndex = 0)
    (hc : n.fptrCluster = clusterFree) {count : Nat} (hcount : 0 < count) :
    exfatAdvanceCluster count ⟨ef, n⟩ = .error (.bug "bad cluster") (⟨ef, n⟩ : FileState δ) := by
  obtain ⟨count, rfl⟩ := Nat.exists_eq_succ_of_ne_zero (Nat.pos_iff_ne_zero.mp hcount)
  unfold exfatAdvanceCluster
  rw [run_bind_ok (run_modifyNode _ _), run_bind_ok (run_get _)]
  dsimp only
  rw [if_neg (by omega), h, Nat.sub_zero]
  refine run_bind_error ?_
  unfold advanceLoop
  rw [run_bind_ok (run_get _)]
  refine run_bind_error ?_
  unfold exfatNextCluster
  rw [run_bind_ok (run_get _), if_pos (by rw [hc]; decide)]
  rfl

/-- The medium after `set_next_cluster`. -/
def linkTo (sb : SuperBlock) (b : Store) (contiguous : Bool) (c v : Nat) : Store :=
  if contiguous then b else setFat sb b c v

/-- `set_next_cluster` writes the FAT unless the file is contiguous. -/
@[simp] theorem run_setNextCluster (contiguous : Bool) (c v : Nat) :
    setNextCluster contiguous c v ef = .ok true
      (ef.upd (linkTo ef.sb ef.dev.bytes contiguous c v) ef.cmap.chunk ef.cmap.dirty ef.errors
        ef.ticks) := by
  unfold setNextCluster linkTo
  cases contiguous <;> rfl

/-- Linking a cluster leaves the entries of the others alone. -/
theorem fatEntry_linkTo_of_ne {sb : SuperBlock} {b : Store} {contiguous : Bool} {c c' v : Nat}
    (h : c' ≠ c) : fatEntry sb (linkTo sb b contiguous c v) c' = fatEntry sb b c' := by
  unfold linkTo
  cases contiguous with
  | true => rfl
  | false => exact fatEntry_setFat_of_ne v h

/-- Linking a cluster leaves the bytes of the clusters alone. -/
theorem clusterByte_linkTo {sb : SuperBlock} {b : Store} {contiguous : Bool} {c c' v : Nat}
    (hl : Layout sb) (hc : Valid sb c) (o : Nat) :
    clusterByte sb (linkTo sb b contiguous c v) c' o = clusterByte sb b c' o := by
  unfold linkTo
  cases contiguous with
  | true => rfl
  | false => exact clusterByte_setFat hl hc c' v o

/-- Setting the link of `c` changes the successor of no other cluster. -/
theorem nextOf_linkTo_of_ne {sb : SuperBlock} {b : Store} {contiguous : Bool} {c c' v : Nat}
    (h : c' ≠ c) :
    nextOf sb (linkTo sb b contiguous c v) contiguous c' = nextOf sb b contiguous c' := by
  unfold nextOf
  rw [fatEntry_linkTo_of_ne h]

/-! ### Advancing -/

/-- The loop of `exfat_advance_cluster` walks along the chain. -/
theorem advanceLoop_run {sb : SuperBlock} (hsb : ef.sb = sb) {i : Nat} (k : Nat)
    (hf : Follows (nextOf sb ef.dev.bytes n.isContiguous) n.startCluster L)
    (hv : ∀ c ∈ L, Valid sb c) (hik : i + k < L.length) (hi : L[i]? = some n.fptrCluster) :
    advanceLoop k ⟨ef, n⟩ =
      .ok ⟨⟩ (⟨ef, { n with fptrCluster := L[i + k] }⟩ : FileState Flat) := by
  -- On the number of steps; the cached cluster is the one the node points at.
  induction k generalizing n i with
  | zero =>
    have : L[i] = n.fptrCluster := by
      rw [List.getElem?_eq_getElem (by omega)] at hi
      simpa using hi
    simp [advanceLoop, this]
  | succ k ih =>
    have hci : L[i] = n.fptrCluster := by
      rw [List.getElem?_eq_getElem (by omega)] at hi
      simpa using hi
    have hcur : Valid sb n.fptrCluster := by
      rw [← hci]
      exact hv _ (List.getElem_mem _)
    have hnext : nextOf sb ef.dev.bytes n.isContiguous n.fptrCluster = L[i + 1] := by
      rw [← hci]
      exact hf.succ_getElem (by omega)
    have hnextValid : sb.clusterInvalid L[i + 1] = false := hv _ (List.getElem_mem _)
    unfold advanceLoop
    simp only [run_bind, run_get]
    rw [exfatNextCluster_run hcur.two_le]
    simp only [hsb, hnext, run_modifyNode, hnextValid, Bool.false_eq_true, if_false]
    have h := ih (n := { n with fptrCluster := L[i + 1] }) (i := i + 1) hf (by omega)
      (List.getElem?_eq_getElem _)
    rw [h]
    have hadd : i + 1 + k = i + (k + 1) := by omega
    simp only [hadd]

/-- `exfat_advance_cluster` returns the cluster asked for and leaves the pointer there. -/
theorem exfatAdvanceCluster_run (h : Chained ef.sb ef.dev.bytes n L) {count : Nat}
    (hcount : count < L.length) :
    exfatAdvanceCluster count ⟨ef, n⟩ = .ok L[count]
      (⟨ef, { n with fptrIndex := count, fptrCluster := L[count] }⟩ : FileState Flat) := by
  have hstart : L[0]? = some n.startCluster := by
    rw [List.getElem?_eq_getElem (by omega), h.follows.getElem (by omega)]
    rfl
  have hfptr : L[n.fptrIndex]? = some n.fptrCluster := by
    rcases h.fptr with ⟨h0, hs⟩ | hsome
    · rw [h0, hs]
      exact hstart
    · exact hsome
  unfold exfatAdvanceCluster
  simp only [run_bind, run_modifyNode, run_get]
  by_cases hgt : n.fptrIndex > count
  · -- the pointer is past the cluster asked for: walk again from the start
    simp only [hgt, if_true, Nat.sub_zero]
    have hwalk := advanceLoop_run
      (n := { n with fptrIndex := 0, fptrCluster := n.startCluster }) rfl (i := 0) count h.follows
      h.valid (by omega) hstart
    rw [hwalk]
    simp
  · simp only [hgt, if_false]
    have hwalk := advanceLoop_run (n := n) rfl (i := n.fptrIndex) (count - n.fptrIndex)
      h.follows h.valid (by omega) hfptr
    rw [hwalk]
    have hadd : n.fptrIndex + (count - n.fptrIndex) = count := by omega
    simp [hadd]

/-- Moving the file pointer along the chain keeps it in the chain. -/
theorem Chained.move {sb : SuperBlock} {b : Store} (h : Chained sb b n L) {count : Nat}
    (hcount : count < L.length) :
    Chained sb b { n with fptrIndex := count, fptrCluster := L[count] } L :=
  ⟨h.follows, h.valid, h.nodup, Or.inr (List.getElem?_eq_getElem hcount), h.empty⟩

/-! ### Linking -/

/-- `make_noncontiguous` writes the links of consecutive clusters into the FAT. -/
theorem makeNoncontiguous_run (hl : Layout ef.sb) (c k : Nat) (hc : 2 ≤ c)
    (hlast : c + k < ef.sb.clusterCount + 2) :
    ∃ b', makeNoncontiguous c k ef =
        .ok true (ef.upd b' ef.cmap.chunk ef.cmap.dirty ef.errors ef.ticks) ∧
      (∀ i, i < k → fatEntry ef.sb b' (c + i) = c + i + 1) ∧
      (∀ x, x < c ∨ c + k ≤ x → fatEntry ef.sb b' x = fatEntry ef.sb ef.dev.bytes x) ∧
      ∀ x o, clusterByte ef.sb b' x o = clusterByte ef.sb ef.dev.bytes x o := by
  -- On the number of links.  Each write leaves the entries before it alone.
  induction k generalizing c ef with
  | zero =>
    refine ⟨ef.dev.bytes, rfl, ?_, fun _ _ => rfl, fun _ _ => rfl⟩
    intro i hi
    omega
  | succ k ih =>
    have hlim := hl.count_lt
    have hvalid : Valid ef.sb c := clusterInvalid_eq_false.mpr (by omega)
    obtain ⟨b', hrun, hlinks, hothers, hdata⟩ :=
      @ih (ef.upd (setFat ef.sb ef.dev.bytes c (c + 1)) ef.cmap.chunk ef.cmap.dirty ef.errors
        ef.ticks) hl (c + 1) (by omega) (by simpa using by omega)
    simp only [Ef.upd_sb, Ef.upd_bytes] at hlinks hothers hdata
    refine ⟨b', ?_, ?_, ?_, ?_⟩
    · unfold makeNoncontiguous
      simp only [run_bind, run_setNextCluster, linkTo, Bool.false_eq_true, if_false, if_true]
      exact hrun
    -- the entry that has just been written is not written again
    · intro i hi
      cases i with
      | zero =>
        rw [Nat.add_zero, hothers c (Or.inl (by omega)), fatEntry_setFat_self,
          Nat.mod_eq_of_lt (by omega)]
      | succ i =>
        have h := hlinks i (by omega)
        rw [show c + (i + 1) = c + 1 + i by omega, h]
    · intro x hx
      rw [hothers x (by omega), fatEntry_setFat_of_ne _ (by omega)]
    · intro x o
      rw [hdata, clusterByte_setFat hl hvalid]

end ExFat
