import ExFat.Store.FileStore

namespace ExFat

open Bytes Program

/-!
# The cached file pointer

`exfat_advance_cluster` keeps the index and the cluster it has reached, and goes on from there the
next time.  When a walk breaks off at a bad cluster the index asked for is stored all the same, and
the next walk goes on behind the bad cluster.  As long as no walk does that, every read returns what
it would return on a node that has just been loaded, whatever the FAT holds (`runReads_fresh`).
-/

/-! ### Walking through any FAT -/

/-- The cluster a walk of `k` steps from `c` ends at: it breaks off at the first bad one. -/
def walk (sb : SuperBlock) (next : Nat → Nat) : (k c : Nat) → Nat
  | 0, c => c
  | k + 1, c => if sb.clusterInvalid (next c) then next c else walk sb next k (next c)

section Walk

variable {sb : SuperBlock} {next : Nat → Nat}

/-- A walk stops at a successor that is no cluster. -/
theorem walk_bad {c : Nat} (k : Nat) (h : sb.clusterInvalid (next c) = true) :
    walk sb next (k + 1) c = next c := if_pos h

/-- A walk goes on to a successor that is a cluster. -/
theorem walk_good {c : Nat} (k : Nat) (h : sb.clusterInvalid (next c) = false) :
    walk sb next (k + 1) c = walk sb next k (next c) := if_neg (Bool.eq_false_iff.mp h)

/-- A walk that has not broken off goes on from where it is. -/
theorem walk_add {i c : Nat} (k : Nat) (h : Valid sb (walk sb next i c)) :
    walk sb next (i + k) c = walk sb next k (walk sb next i c) := by
  induction i generalizing c with
  | zero => rw [Nat.zero_add, walk]
  | succ i ih =>
    rw [Nat.add_right_comm]
    cases hnext : sb.clusterInvalid (next c) with
    | true =>
      rw [walk_bad i hnext] at h
      exact absurd hnext (Bool.eq_false_iff.mp h)
    | false =>
      rw [walk_good i hnext] at h
      rw [walk_good _ hnext, walk_good i hnext]
      exact ih h

/-- A walk that has not broken off has passed good clusters only, one link after the other. -/
theorem walk_valid {k c : Nat} (hc : Valid sb c) (h : Valid sb (walk sb next k c)) :
    walk sb next k c = next^[k] c ∧ ∀ j, j ≤ k → Valid sb (next^[j] c) := by
  induction k generalizing c with
  | zero =>
    refine ⟨rfl, fun j hj => ?_⟩
    rw [Nat.le_zero.mp hj]
    exact hc
  | succ k ih =>
    cases hnext : sb.clusterInvalid (next c) with
    | true =>
      rw [walk_bad k hnext] at h
      exact absurd hnext (Bool.eq_false_iff.mp h)
    | false =>
      rw [walk_good k hnext] at h ⊢
      obtain ⟨hend, hall⟩ := ih hnext h
      refine ⟨hend, fun j hj => ?_⟩
      cases j with
      | zero => exact hc
      | succ j => exact hall j (by omega)

/-- Good clusters, one link after the other, make a walk. -/
theorem walk_of_valid {k c : Nat} (h : ∀ j, j < k → Valid sb (next^[j + 1] c)) :
    walk sb next k c = next^[k] c := by
  induction k generalizing c with
  | zero => rfl
  | succ k ih =>
    have hnext : Valid sb (next c) := h 0 (by omega)
    rw [walk_good k hnext]
    exact ih fun j hj => h (j + 1) (by omega)

end Walk

variable {ef : Ef Flat} {n : Node}

/-- The successor of a cluster of the node. -/
def nextIn (ef : Ef Flat) (n : Node) : Nat → Nat := nextOf ef.sb ef.dev.bytes n.isContiguous

/-- `exfat_next_cluster` returns the successor. -/
theorem exfatNextCluster_nextIn {c : Nat} (h : 2 ≤ c) :
    exfatNextCluster c ⟨ef, n⟩ = .ok (nextIn ef n c) (⟨ef, n⟩ : FileState Flat) :=
      exfatNextCluster_run h

/-- The loop of `exfat_advance_cluster` walks along the clusters. -/
theorem advanceLoop_walk (ef : Ef Flat) (n : Node) (k : Nat) (h : Valid ef.sb n.fptrCluster) :
    advanceLoop k ⟨ef, n⟩ = .ok ⟨⟩ (⟨ef, { n with
      fptrCluster := walk ef.sb (nextIn ef n) k n.fptrCluster }⟩ : FileState Flat) := by
  induction k generalizing n with
  | zero => rfl
  | succ k ih =>
    unfold advanceLoop
    rw [run_bind_ok (run_get _)]
    dsimp only
    rw [run_bind_ok (exfatNextCluster_nextIn h.two_le), run_bind_ok (run_modifyNode _ _)]
    cases hnext : ef.sb.clusterInvalid (nextIn ef n n.fptrCluster) with
    | true =>
      rw [walk_bad k hnext]
      rfl
    | false =>
      rw [walk_good k hnext, if_neg (by decide)]
      exact ih { n with fptrCluster := nextIn ef n n.fptrCluster } hnext

/-- The pointer is where a walk from the start of the node has left it. -/
def Pointed (ef : Ef Flat) (n : Node) : Prop :=
  n.fptrCluster = walk ef.sb (nextIn ef n) n.fptrIndex n.startCluster

/-- The node with its pointer at `count`. -/
def Node.pointAt (n : Node) (count cluster : Nat) : Node :=
  { n with fptrIndex := count, fptrCluster := cluster }

/-- `exfat_advance_cluster` ends where a walk from the start ends, unless it goes on from a bad
cluster. -/
theorem exfatAdvanceCluster_walk (hp : Pointed ef n) (hstart : Valid ef.sb n.startCluster)
    {count : Nat} (hgood : n.fptrIndex < count → Valid ef.sb n.fptrCluster) :
    exfatAdvanceCluster count ⟨ef, n⟩ = .ok (walk ef.sb (nextIn ef n) count n.startCluster)
      (⟨ef, n.pointAt count (walk ef.sb (nextIn ef n) count n.startCluster)⟩ : FileState Flat) := by
  unfold exfatAdvanceCluster
  rw [run_bind_ok (run_modifyNode _ _), run_bind_ok (run_get _)]
  dsimp only
  by_cases hgt : n.fptrIndex > count
  · rw [if_pos hgt]
    have hwalk := advanceLoop_walk ef (n.pointAt 0 n.startCluster) count hstart
    exact run_bind_ok hwalk
  · rw [if_neg hgt]
    rcases Nat.lt_or_ge n.fptrIndex count with hlt | hge
    · have hvalid := hgood hlt
      have hwalk := advanceLoop_walk ef n (count - n.fptrIndex) hvalid
      have hfull : walk ef.sb (nextIn ef n) (count - n.fptrIndex) n.fptrCluster =
          walk ef.sb (nextIn ef n) count n.startCluster := by
        unfold Pointed at hp
        rw [hp] at hvalid ⊢
        rw [← walk_add _ hvalid, Nat.add_sub_cancel' (Nat.le_of_lt hlt)]
      rw [hfull] at hwalk
      exact run_bind_ok hwalk
    · -- the pointer is at the cluster asked for
      have heq : n.fptrIndex = count := Nat.le_antisymm (Nat.le_of_not_gt hgt) hge
      rw [heq, Nat.sub_self]
      unfold Pointed at hp
      rw [heq] at hp
      rw [← hp]
      exact run_bind_ok rfl

/-! ### What a read returns -/

/-- The bytes the read loop returns, by what the medium holds. -/
def readLoop (sb : SuperBlock) (b : Store) (next : Nat → Nat) :
    (m cluster loffset remainder : Nat) → Except Errno (List UInt8)
  | 0, _, _, _ => .ok []
  | m + 1, cluster, loffset, remainder =>
    if sb.clusterInvalid cluster then .error .eio
    else
      let lsize := min (sb.clusterSize - loffset) remainder
      (readLoop sb b next m (next cluster) 0 (remainder - lsize)).map
        (readBytes b (clusterOffset sb cluster + loffset) lsize ++ ·)

/-- The result of reading within the valid bytes. -/
def readValid (ef : Ef Flat) (n : Node) (size uoffset : Nat) : Except Errno (Nat × List UInt8) :=
  let cs := ef.sb.clusterSize
  let cluster := walk ef.sb (nextIn ef n) (u32 (uoffset / cs)) n.startCluster
  if ef.sb.clusterInvalid cluster then .error .eio
  else
    let length := min size (n.size - uoffset)
    (readLoop ef.sb ef.dev.bytes (nextIn ef n) (clusterSpan cs (uoffset % cs) length) cluster
      (uoffset % cs) length).map (length, ·)

/-- The volume with another number of errors and of answers taken. -/
def Ef.count (ef : Ef Flat) (errors ticks : Nat) : Ef Flat :=
  { ef with errors := errors, ticks := ticks }

/-- The loop of a read returns what is in the clusters it walks along. -/
theorem preadLoop_value (ef : Ef Flat) (n : Node) (m cluster loffset remainder : Nat) :
    ∃ errors, preadLoop m cluster loffset remainder ⟨ef, n⟩ =
      .ok (readLoop ef.sb ef.dev.bytes (nextIn ef n) m cluster loffset remainder)
        (⟨ef.count errors ef.ticks, n⟩ : FileState Flat) := by
  induction m generalizing cluster loffset remainder with
  | zero => exact ⟨ef.errors, rfl⟩
  | succ m ih =>
    unfold preadLoop readLoop
    rw [run_bind_ok (run_get _)]
    dsimp only
    cases hbad : ef.sb.clusterInvalid cluster with
    | true => exact ⟨ef.errors + 1, rfl⟩
    | false =>
      have hvalid : Valid ef.sb cluster := hbad
      rw [if_neg (by decide), if_neg (by decide),
        run_bind_ok (run_onEf_ok (run_exfatC2o hvalid.two_le)),
        run_bind_ok (run_onEf_ok (run_exfatPread _ _ _))]
      dsimp only
      rw [run_bind_ok (exfatNextCluster_nextIn hvalid.two_le)]
      obtain ⟨errors, hrest⟩ := ih (nextIn ef n cluster) 0
        (remainder - min (ef.sb.clusterSize - loffset) remainder)
      refine ⟨errors, ?_⟩
      rw [run_bind_ok hrest]
      cases readLoop ef.sb ef.dev.bytes (nextIn ef n) m (nextIn ef n cluster) 0
        (remainder - min (ef.sb.clusterSize - loffset) remainder) with
      | error e => rfl
      | ok rest => rfl

/-- A read leaves the data of the node alone; it may move the pointer and set the time. -/
structure SameFile (s s' : FileState Flat) : Prop where
  ef : ∃ errors ticks, s'.ef = s.ef.count errors ticks
  node : s'.node = { s.node with
    fptrIndex := s'.node.fptrIndex, fptrCluster := s'.node.fptrCluster
    isDirty := s'.node.isDirty, atime := s'.node.atime }

/-- A file is the same. -/
theorem SameFile.refl (s : FileState Flat) : SameFile s s := ⟨⟨s.ef.errors, s.ef.ticks, rfl⟩, rfl⟩

/-- The index of the cluster a read walks to, if it walks. -/
def walksTo (s : FileState Flat) (size : Nat) (offset : Int) : Option Nat :=
  if offset < 0 ∨ offset.toNat ≥ s.node.size ∨ size = 0 then none
  else if u64 (offset.toNat + size) > s.node.validSize ∧ offset.toNat ≥ s.node.validSize then none
  else some (u32 (offset.toNat / s.ef.sb.clusterSize))

/-- A read does not go on from a bad cluster. -/
def Resumes (s : FileState Flat) (size : Nat) (offset : Int) : Prop :=
  ∀ k, walksTo s size offset = some k → s.node.fptrIndex < k → Valid s.ef.sb s.node.fptrCluster

instance (s : FileState Flat) (size : Nat) (offset : Int) : Decidable (Resumes s size offset) :=
  inferInstanceAs (Decidable (∀ k, walksTo s size offset = some k → s.node.fptrIndex < k →
    Valid s.ef.sb s.node.fptrCluster))

/-- The result of a read, by what the medium holds. -/
def readValue (ef : Ef Flat) (n : Node) (size : Nat) (offset : Int) :
    Except Errno (Nat × List UInt8) :=
  let uoffset := offset.toNat
  if offset < 0 then .error .einval
  else if uoffset ≥ n.size then .ok (0, [])
  else if size = 0 then .ok (0, [])
  -- the end of the range is taken modulo `2^64`, as in the code
  else if u64 (uoffset + size) > n.validSize then
    if uoffset < n.validSize then
      match readValid ef n (n.validSize - uoffset) uoffset with
      | .error e => .error e
      | .ok (bytes, buffer) =>
        if bytes < n.validSize - uoffset then .ok (bytes, buffer)
        else .ok (min size (n.size - uoffset),
          buffer ++ List.replicate (min (sub64 size bytes) (sub64 n.size n.validSize)) 0)
    else .ok (min size (n.size - uoffset), List.replicate (min size (sub64 n.size n.validSize)) 0)
  else readValid ef n size uoffset

/-- A read inside the valid data returns what the FAT says. -/
theorem preadValid_value (hp : Pointed ef n) (hstart : Valid ef.sb n.startCluster) (size : Nat)
    {uoffset : Nat}
    (hgood : n.fptrIndex < u32 (uoffset / ef.sb.clusterSize) → Valid ef.sb n.fptrCluster) :
    ∃ s', preadValid size uoffset ⟨ef, n⟩ = .ok (readValid ef n size uoffset) s' ∧
      SameFile ⟨ef, n⟩ s' ∧ Pointed s'.ef s'.node := by
  -- the pointer is where the FAT leads, so walking on from it is walking from the start
  have hwalk := exfatAdvanceCluster_walk hp hstart hgood
  unfold preadValid readValid
  rw [run_bind_ok (run_get _)]
  dsimp only
  rw [run_bind_ok hwalk]
  generalize hcluster : walk ef.sb (nextIn ef n) (u32 (uoffset / ef.sb.clusterSize))
    n.startCluster = cluster
  have hpointed : ∀ errors ticks, Pointed (ef.count errors ticks)
      (n.pointAt (u32 (uoffset / ef.sb.clusterSize)) cluster) := fun _ _ => hcluster.symm
  -- a bad cluster is reported, and the pointer stays where it is
  cases hbad : ef.sb.clusterInvalid cluster with
  | true => exact ⟨_, rfl, ⟨⟨ef.errors + 1, ef.ticks, rfl⟩, rfl⟩, hpointed _ _⟩
  | false =>
    obtain ⟨errors, hloop⟩ := preadLoop_value ef
      (n.pointAt (u32 (uoffset / ef.sb.clusterSize)) cluster)
      (clusterSpan ef.sb.clusterSize (uoffset % ef.sb.clusterSize) (min size (n.size - uoffset)))
        cluster
      (uoffset % ef.sb.clusterSize) (min size (n.size - uoffset))
    rw [if_neg (by decide), if_neg (by decide), run_bind_ok hloop]
    have hnext : nextIn ef (n.pointAt (u32 (uoffset / ef.sb.clusterSize)) cluster) = nextIn ef n :=
      rfl
    rw [hnext]
    cases readLoop ef.sb ef.dev.bytes (nextIn ef n) (clusterSpan ef.sb.clusterSize
        (uoffset % ef.sb.clusterSize) (min size (n.size - uoffset))) cluster
        (uoffset % ef.sb.clusterSize) (min size (n.size - uoffset)) with
    | error e => exact ⟨_, rfl, ⟨⟨errors, ef.ticks, rfl⟩, rfl⟩, hpointed _ _⟩
    | ok bytes =>
      dsimp only
      rw [run_bind_ok (run_get _)]
      -- the access time is written, or not
      split
      · exact ⟨_, rfl, ⟨⟨errors, ef.ticks + 1, rfl⟩, rfl⟩, hpointed _ _⟩
      · exact ⟨_, rfl, ⟨⟨errors, ef.ticks, rfl⟩, rfl⟩, hpointed _ _⟩

/-- A read that does not go on from a bad cluster returns what the medium holds. -/
theorem exfatGenericPread_value (hp : Pointed ef n) (hstart : Valid ef.sb n.startCluster)
    (size : Nat) (offset : Int) (hres : Resumes ⟨ef, n⟩ size offset) :
    ∃ s', exfatGenericPread size offset ⟨ef, n⟩ = .ok (readValue ef n size offset) s' ∧
      SameFile ⟨ef, n⟩ s' ∧ Pointed s'.ef s'.node := by
  unfold exfatGenericPread readValue
  unfold Resumes walksTo at hres
  rw [run_bind_ok (run_get _)]
  dsimp only at hres ⊢
  -- The cases of the source: refused, behind the end, empty, partly valid, valid.
  by_cases hneg : offset < 0
  · rw [if_pos hneg, if_pos hneg]
    exact ⟨_, rfl, .refl _, hp⟩
  · rw [if_neg hneg, if_neg hneg]
    by_cases hend : offset.toNat ≥ n.size
    · rw [if_pos hend, if_pos hend]
      exact ⟨_, rfl, .refl _, hp⟩
    · rw [if_neg hend, if_neg hend]
      by_cases hzero : size = 0
      · rw [if_pos hzero, if_pos hzero]
        exact ⟨_, rfl, .refl _, hp⟩
      · rw [if_neg hzero, if_neg hzero]
        rw [if_neg (by simp [hneg, hend, hzero])] at hres
        by_cases hpast : u64 (offset.toNat + size) > n.validSize
        · rw [if_pos hpast, if_pos hpast]
          -- the valid part is read, and zeros stand behind it
          by_cases hvalid : offset.toNat < n.validSize
          · rw [if_neg (by omega)] at hres
            rw [if_pos hvalid, if_pos hvalid]
            obtain ⟨s', hrun, hsame, hpointed⟩ := preadValid_value hp hstart
              (n.validSize - offset.toNat) (hres _ rfl)
            refine ⟨s', ?_, hsame, hpointed⟩
            rw [run_bind_ok hrun]
            cases readValid ef n (n.validSize - offset.toNat) offset.toNat with
            | error e => rfl
            | ok r =>
              dsimp only
              split
              · rfl
              · rfl
          -- nothing of the range is valid
          · rw [if_neg hvalid, if_neg hvalid]
            exact ⟨_, rfl, .refl _, hp⟩
        · rw [if_neg hpast, if_neg hpast]
          rw [if_neg (by omega)] at hres
          exact preadValid_value hp hstart size (hres _ rfl)

/-- What a read returns does not depend on what earlier reads have left behind. -/
theorem SameFile.readValue {s s' : FileState Flat} (h : SameFile s s') (size : Nat) (offset : Int) :
    readValue s'.ef s'.node size offset = readValue s.ef s.node size offset := by
  obtain ⟨errors, ticks, hef⟩ := h.ef
  rw [hef, h.node]
  rfl

/-! ### Sequences of reads -/

/-- The node as it has been loaded: the pointer is at the start. -/
def FileState.fresh (s : FileState Flat) : FileState Flat :=
  { s with node := s.node.pointAt 0 s.node.startCluster }

/-- Reads one after the other, each given by its size and its offset. -/
def runReads : List (Nat × Int) → FileM Flat (List (Except Errno (Nat × List UInt8)))
  | [] => pure []
  | r :: rs => do
    let a ← exfatGenericPread r.1 r.2
    let as ← runReads rs
    pure (a :: as)

/-- No read goes on from a bad cluster. -/
def ReadsResume : List (Nat × Int) → FileState Flat → Prop
  | [], _ => True
  | r :: rs, s => Resumes s r.1 r.2 ∧
    ∀ a s', exfatGenericPread r.1 r.2 s = .ok a s' → ReadsResume rs s'

/-- Each read of a run returns what the FAT says. -/
theorem runReads_value (rs : List (Nat × Int)) {s : FileState Flat} (hp : Pointed s.ef s.node)
    (hstart : Valid s.ef.sb s.node.startCluster) (hres : ReadsResume rs s) :
    ∃ s', runReads rs s = .ok (rs.map fun r => readValue s.ef s.node r.1 r.2) s' := by
  induction rs generalizing s with
  | nil => exact ⟨s, rfl⟩
  | cons r rs ih =>
    obtain ⟨s₁, hrun, hsame, hp₁⟩ := exfatGenericPread_value hp hstart r.1 r.2 hres.1
    have hstart₁ : Valid s₁.ef.sb s₁.node.startCluster := by
      obtain ⟨errors, ticks, hef⟩ := hsame.ef
      rw [hef, hsame.node]
      exact hstart
    obtain ⟨s₂, hruns⟩ := ih hp₁ hstart₁ (hres.2 _ _ hrun)
    refine ⟨s₂, ?_⟩
    unfold runReads
    rw [run_bind_ok hrun, run_bind_ok hruns]
    simp only [hsame.readValue]
    rfl

/-- Every read of a sequence in which no walk goes on from a bad cluster returns what it would
return on the node as it has been loaded. -/
theorem runReads_fresh (rs : List (Nat × Int)) {s : FileState Flat}
    (hstart : Valid s.ef.sb s.node.startCluster) (hres : ReadsResume rs s.fresh) :
    ∃ as s', runReads rs s.fresh = .ok as s' ∧
      as.map some = rs.map fun r => valueOf (exfatGenericPread r.1 r.2 s.fresh) := by
  have hp : Pointed s.fresh.ef s.fresh.node := rfl
  obtain ⟨s', hrun⟩ := runReads_value rs hp hstart hres
  refine ⟨_, s', hrun, ?_⟩
  rw [List.map_map]
  refine List.map_congr_left fun r _ => ?_
  obtain ⟨s₁, hread, -⟩ := exfatGenericPread_value hp hstart r.1 r.2
    (fun _ _ _ => hstart)
  have hvalue : valueOf (exfatGenericPread r.1 r.2 s.fresh) =
      some (readValue s.fresh.ef s.fresh.node r.1 r.2) := congrArg valueOf hread
  exact hvalue.symm

/-- A file of four clusters whose second link leads nowhere: `next` is the FAT entry of its first
cluster. -/
def brokenFile (next : Nat) : FileState Flat where
  ef := { twoFiles.ef with dev := ⟨setFat smallSuperBlock (fun _ => 0) 5 next, 5120⟩ }
  node := { startCluster := 5, fptrCluster := 5, validSize := 2048, size := 2048 }

/-- A read at the start, one behind the broken link, and one before it. -/
theorem runReads_fresh_brokenFile :
    ∃ as s', runReads [(1, 0), (1, 1024), (2, 500)] (brokenFile 0).fresh = .ok as s' ∧
      as.map some = [(1, 0), (1, 1024), (2, 500)].map fun r =>
        valueOf (exfatGenericPread r.1 r.2 (brokenFile 0).fresh) := by
  refine runReads_fresh _ (by decide)
    ⟨by decide, fun a₁ s₁ h₁ => ⟨?_, fun a₂ s₂ h₂ => ⟨?_, fun _ _ _ => trivial⟩⟩⟩
  · have hs₁ := congrArg finalState h₁
    cases hs₁
    decide +kernel
  · have hs₁ := congrArg finalState h₁
    have hs₂ := congrArg finalState h₂
    cases hs₁
    cases hs₂
    decide +kernel

/-- After a walk that has broken off at a free cluster, a read further on ends in `exfat_bug`. -/
theorem runReads_not_fresh :
    ¬ ∃ as s', runReads [(1, 1024), (1, 1536)] (brokenFile 0).fresh = .ok as s' ∧
      as.map some = [(1, 1024), (1, 1536)].map fun r =>
        valueOf (exfatGenericPread r.1 r.2 (brokenFile 0).fresh) := by
  rintro ⟨as, s', hrun, -⟩
  have hhalt : haltOf (runReads [(1, 1024), (1, 1536)] (brokenFile 0).fresh) = some
      (.bug "bad cluster") := by
    decide +kernel
  rw [hrun] at hhalt
  cases hhalt

end ExFat
