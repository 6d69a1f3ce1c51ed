import ExFat.Store.FileStore
import ExFat.Fs.Calls
import Mathlib.Data.Finset.Card

namespace ExFat

open Bytes Program

/-!
# Free space

`exfat_truncate` returns `-ENOSPC` when the clusters it wants to add are more than the free ones,
and then it has changed nothing (`exfatTruncate_enospc`).  The number of clusters it wants is
computed with 64 bits and kept in 32, so sizes of `2^32` clusters and more are taken for small ones
(`exfatTruncate_resized_iff`).
-/

/-- The number of free clusters. -/
def freeCount (sb : SuperBlock) (chunk : Nat → Bool) : Nat :=
  ((Finset.range sb.clusterCount).filter fun i => chunk i = false).card

section FreeCount

variable {sb : SuperBlock} {chunk : Nat → Bool}

/-- A full bitmap has no free cluster. -/
theorem freeCount_of_full (h : ∀ i, i < sb.clusterCount → chunk i = true) :
    freeCount sb chunk = 0 := by
  refine Finset.card_eq_zero.mpr (Finset.filter_eq_empty_iff.mpr ?_)
  intro i hi
  simp [h i (Finset.mem_range.mp hi)]

/-- A free bit that is set is one less. -/
theorem freeCount_take {i : Nat} (hi : i < sb.clusterCount) (hfree : chunk i = false) :
    freeCount sb (Function.update chunk i true) + 1 = freeCount sb chunk := by
  have hmem : i ∈ (Finset.range sb.clusterCount).filter fun i => chunk i = false :=
    Finset.mem_filter.mpr ⟨Finset.mem_range.mpr hi, hfree⟩
  have herase : ((Finset.range sb.clusterCount).filter fun j =>
      Function.update chunk i true j = false) =
      ((Finset.range sb.clusterCount).filter fun j => chunk j = false).erase i := by
    ext j
    by_cases hj : j = i
    · simp [hj]
    · simp [hj]
  unfold freeCount
  rw [herase]
  exact Finset.card_erase_add_one hmem

/-- A free cluster that is taken is one less. -/
theorem freeCount_update {c : Nat} (hc : Valid sb c) (hfree : chunk (c - 2) = false) :
    freeCount sb (Function.update chunk (c - 2) true) + 1 = freeCount sb chunk := by
  have hlt := hc.lt
  have htwo := hc.two_le
  exact freeCount_take (by omega) hfree

/-- Clusters that were free before and belong to a chain now. -/
theorem length_le_freeCount {A : List Nat} (hnd : A.Nodup) (hv : ∀ c ∈ A, Valid sb c)
    (hfree : ∀ c ∈ A, chunk (c - 2) = false) : A.length ≤ freeCount sb chunk := by
  have hmaps : ∀ c ∈ A.toFinset,
      c - 2 ∈ (Finset.range sb.clusterCount).filter fun i => chunk i = false := by
    intro c hc
    have hcA := List.mem_toFinset.mp hc
    have hlt := (hv c hcA).lt
    have htwo := (hv c hcA).two_le
    exact Finset.mem_filter.mpr ⟨Finset.mem_range.mpr (by omega), hfree c hcA⟩
  have hinj : Set.InjOn (fun c => c - 2) (A.toFinset : Set Nat) := by
    intro c hc d hd hcd
    have h1 := (hv c (by simpa using hc)).two_le
    have h2 := (hv d (by simpa using hd)).two_le
    dsimp only at hcd
    omega
  have hcard := Finset.card_le_card_of_injOn _ hmaps hinj
  rwa [List.toFinset_card_of_nodup hnd] at hcard

end FreeCount

/-! ### When there is no space -/

section Space

variable {δ : Type} [Device δ]

/-- The bitmap and the superblock are the same. -/
structure FileState.SameSpace (s s' : FileState δ) : Prop where
  sb : s'.ef.sb = s.ef.sb
  cmap : s'.ef.cmap = s.ef.cmap
  wordBits : s'.ef.wordBits = s.ef.wordBits

instance : ScanRel (δ := δ) FileState.SameSpace where
  refl _ := ⟨rfl, rfl, rfl⟩
  trans _ _ _ h h' := ⟨h'.sb.trans h.sb, h'.cmap.trans h.cmap, h'.wordBits.trans h.wordBits⟩
  call _ := ⟨rfl, rfl, rfl⟩
  report _ := ⟨rfl, rfl, rfl⟩
  cursor _ _ _ := ⟨rfl, rfl, rfl⟩
  valid _ _ := ⟨rfl, rfl, rfl⟩

omit [Device δ] in
/-- Changing the node takes no space. -/
theorem space_modifyNode (f : Node → Node) : Keeps FileState.SameSpace (modifyNode (δ := δ) f) :=
  fun _ => ⟨rfl, rfl, rfl⟩

/-- Linking a cluster takes no space. -/
theorem space_linkCluster (previous next : Nat) :
    Keeps FileState.SameSpace (linkCluster (δ := δ) previous next) := by
  refine keeps_look fun s => keeps_ite ?_ (keeps_setNextCluster _ _ _)
  refine keeps_bind (keeps_makeNoncontiguous _ _) fun done => keeps_ite ?_ (keeps_pure _)
  exact keeps_bind (space_modifyNode _) fun _ => keeps_setNextCluster _ _ _

/-- What the search for a free cluster needs of the volume. -/
structure Ef.Mapped (ef : Ef δ) : Prop where
  layout : Layout ef.sb
  word : 0 < ef.wordBits
  chunkSize : ef.cmap.chunkSize = ef.sb.clusterCount

/-- The free clusters of the volume. -/
def Ef.free (ef : Ef δ) : Nat := freeCount ef.sb ef.cmap.chunk

variable {s : FileState δ}

omit [Device δ] in
/-- The bitmap still covers the heap. -/
theorem FileState.SameSpace.mapped {s s' : FileState δ} (h : s.SameSpace s') (hm : s.ef.Mapped) :
    s'.ef.Mapped :=
  ⟨h.sb ▸ hm.layout, h.wordBits ▸ hm.word, by rw [h.cmap, h.sb]; exact hm.chunkSize⟩

omit [Device δ] in
/-- As many clusters are free. -/
theorem FileState.SameSpace.free {s s' : FileState δ} (h : s.SameSpace s') :
    s'.ef.free = s.ef.free := by
  unfold Ef.free
  rw [h.sb, h.cmap]

omit [Device δ] in
/-- What `allocate_cluster` does to the free clusters. -/
theorem wp_allocateCluster (hm : s.ef.Mapped) (hint : Nat) :
    wp (onEf (allocateCluster hint)) (fun c s' => s'.ef.Mapped ∧ s'.ef.sb = s.ef.sb ∧
      ((Valid s.ef.sb c ∧ s'.ef.free + 1 = s.ef.free) ∨ (c = clusterEnd ∧ s.ef.free = 0)))
      never s := by
  rw [wp_never_iff]
  rcases allocateCluster_run s.ef hint hm.layout hm.word hm.chunkSize with
    ⟨c, hc, hfree, hrun⟩ | ⟨hfull, hrun⟩
  · refine ⟨c, _, run_zoom_ok hrun, ⟨hm.layout, hm.word, hm.chunkSize⟩, rfl, Or.inl ⟨hc, ?_⟩⟩
    exact freeCount_update hc hfree
  · refine ⟨clusterEnd, _, run_zoom_ok hrun, ⟨hm.layout, hm.word, hm.chunkSize⟩,
      rfl, Or.inr ⟨rfl, ?_⟩⟩
    exact freeCount_of_full hfull

/-- The loop of `grow_file` runs out of space only if fewer clusters are free than it is to add. -/
theorem growLoop_space (hm : s.ef.Mapped) (current k previous allocated : Nat) :
    wp (growLoop current k previous allocated) (fun r _ => r = .error .enospc → s.ef.free < k)
      anyStop s := by
  induction k generalizing s previous allocated with
  | zero =>
    unfold growLoop
    refine wp_after fun s₁ _ => wp_after fun done _ => ?_
    split
    · simp
    · simp
  | succ k ih =>
    unfold growLoop
    rw [wp_bind]
    refine wp_of_total (wp_allocateCluster hm _) ?_
    rintro next s₁ ⟨hm₁, hsb, hcase⟩
    rw [wp_bind, wp_get]
    rcases hcase with ⟨hvalid, hfree⟩ | ⟨rfl, hnone⟩
    · rw [if_neg (by rw [hsb]; exact Bool.eq_false_iff.mp hvalid), wp_bind]
      refine wp_mono (space_linkCluster previous next s₁) ?_ (fun _ _ _ => trivial)
      intro linked s₂ hsame
      split
      · refine wp_mono (ih (hsame.mapped hm₁) next (allocated + 1)) ?_ (fun _ _ h => h)
        intro r _ hspace henospc
        have hlt := hspace henospc
        rw [hsame.free] at hlt
        omega
      · simp
    · exact wp_of_forall (fun _ _ _ => by omega) (fun _ _ => trivial)

/-- A file that cannot grow for want of space needs more clusters than are free. -/
theorem growFile_space (hm : s.ef.Mapped) (current difference : Nat) :
    wp (growFile current difference) (fun r _ => r = .error .enospc → s.ef.free < difference)
      anyStop s := by
  unfold growFile
  rw [wp_bind, wp_get]
  split
  -- no cluster is asked for, which stops the call
  · trivial
  · split
    · rw [wp_bind]
      refine wp_mono (keeps_exfatAdvanceCluster (R := FileState.SameSpace) _ s) ?_
        (fun _ _ _ => trivial)
      intro previous s₁ hsame
      split
      · exact wp_after fun _ _ => nofun
      · refine wp_mono (growLoop_space (hsame.mapped hm) _ _ _ _) ?_ (fun _ _ h => h)
        intro r _ hspace henospc
        rw [← hsame.free]
        exact hspace henospc
    · split
      · trivial
      · rw [wp_bind]
        refine wp_of_total (wp_allocateCluster hm 0) ?_
        rintro previous s₁ ⟨hm₁, hsb, hcase⟩
        rcases hcase with ⟨hvalid, hfree⟩ | ⟨rfl, hnone⟩
        · rw [if_neg (Bool.eq_false_iff.mp hvalid), wp_bind]
          refine wp_mono (space_modifyNode _ s₁) ?_ (fun _ _ _ => trivial)
          intro _ s₂ hsame
          refine wp_mono (growLoop_space (hsame.mapped hm₁) _ _ _ _) ?_ (fun _ _ h => h)
          intro r _ hspace henospc
          have hlt := hspace henospc
          rw [hsame.free] at hlt
          omega
        · exact wp_of_forall (fun _ _ _ => by omega) (fun _ _ => trivial)

/-- A routine that does not return `-ENOSPC`. -/
def NotFull (m : FileM δ Rc) : Prop := ∀ s, wp m (fun r _ => r ≠ .error .enospc) anyStop s

omit [Device δ] in
/-- A routine whose end does not return `ENOSPC`. -/
theorem NotFull.after {α : Type} {m : FileM δ α} {f : α → FileM δ Rc} (hf : ∀ a, NotFull (f a)) :
    NotFull (m >>= f) := fun _ => wp_after fun a s' => hf a s'

omit [Device δ] in
/-- A branch. -/
theorem NotFull.ite {c : Prop} [Decidable c] {m₁ m₂ : FileM δ Rc} (h₁ : NotFull m₁)
    (h₂ : NotFull m₂) : NotFull (if c then m₁ else m₂) := by
  split
  · exact h₁
  · exact h₂

omit [Device δ] in
/-- Another answer is not `ENOSPC`. -/
theorem notFull_pure {r : Rc} (h : r ≠ .error .enospc) : NotFull (pure r : FileM δ Rc) := fun _ => h

omit [Device δ] in
/-- A routine that stops does not return. -/
theorem notFull_throw (e : Halt) : NotFull (throw e : FileM δ Rc) := fun _ => trivial

/-- `freeLoop` does not return `ENOSPC`. -/
theorem notFull_freeLoop (difference previous : Nat) :
    NotFull (freeLoop (δ := δ) difference previous) := by
  induction difference generalizing previous with
  | zero => exact notFull_pure nofun
  | succ k ih =>
    refine .after fun s => .ite (.after fun _ => notFull_pure nofun) ?_
    refine .after fun next => .after fun done => .ite ?_ (notFull_pure nofun)
    exact .after fun _ => ih next

/-- `shrink_file` does not return `ENOSPC`. -/
theorem notFull_shrinkFile (current difference : Nat) :
    NotFull (shrinkFile (δ := δ) current difference) := by
  have htail : ∀ previous, NotFull (shrinkTail (δ := δ) difference previous) :=
    fun previous => .after fun _ => notFull_freeLoop _ _
  refine .after fun s => .ite (notFull_throw _) (.ite (notFull_throw _) (.ite (notFull_throw _)
    (.ite ?_ (.after fun _ => htail _))))
  refine .after fun last => .ite (.after fun _ => notFull_pure nofun) ?_
  exact .after fun previous => .after fun done => .ite (htail _) (notFull_pure nofun)

/-- `eraseLoop` does not return `ENOSPC`. -/
theorem notFull_eraseLoop (n cluster : Nat) : NotFull (eraseLoop (δ := δ) n cluster) := by
  induction n generalizing cluster with
  | zero => exact notFull_pure nofun
  | succ n ih =>
    refine .after fun next => .after fun s => .ite (notFull_throw _) ?_
    exact .after fun offset => .after fun done => .ite (ih next) (notFull_pure nofun)

/-- `erase_range` does not return `ENOSPC`. -/
theorem notFull_eraseRange (start stop : Nat) : NotFull (eraseRange (δ := δ) start stop) := by
  refine .after fun s => .ite (notFull_pure nofun) (.after fun cluster => .ite ?_ ?_)
  · exact .after fun _ => notFull_pure nofun
  · refine .after fun offset => .after fun done => .ite ?_ (notFull_pure nofun)
    exact notFull_eraseLoop _ _

/-- A change that fails for want of space needs more clusters than are free. -/
theorem resizeFile_space (hm : s.ef.Mapped) (c1 c2 : Nat) :
    wp (resizeFile c1 c2) (fun r _ => r = .error .enospc → c1 < c2 ∧ s.ef.free < c2 - c1)
    anyStop s := by
  unfold resizeFile
  split
  next hlt =>
    refine wp_conseq (growFile_space hm c1 (c2 - c1)) ?_
    exact fun _ _ hspace henospc => ⟨hlt, hspace henospc⟩
  · split
    · exact wp_conseq (notFull_shrinkFile _ _ s) fun _ _ hne henospc => absurd henospc hne
    · exact nofun

/-- The part of `exfat_truncate` behind the change of the clusters. -/
def finishTruncate (size : Nat) (erase : Bool) : FileM δ Rc := do
  if erase then do
    let s ← get
    match ← eraseRange s.node.validSize size with
    | .error e => pure (.error e)
    | .ok _ => do
      modifyNode fun n => { n with validSize := size }
      setSize size
  else do
    modifyNode fun n => { n with validSize := min n.validSize size }
    setSize size

/-- The end of `exfat_truncate` does not return `ENOSPC`. -/
theorem notFull_finish (size : Nat) (erase : Bool) :
    NotFull (finishTruncate (δ := δ) size erase) := by
  have hset : NotFull (setSize (δ := δ) size) := .after fun _ => .after fun _ => notFull_pure nofun
  refine .ite ?_ (.after fun _ => hset)
  refine .after fun s => fun s₁ => ?_
  rw [wp_bind]
  refine wp_conseq (notFull_eraseRange _ _ s₁) ?_
  intro r s₂ hne
  cases r with
  | error e => exact hne
  | ok => exact wp_after fun _ s₃ => hset s₃

/-- `exfat_truncate` returns `-ENOSPC` only if it wants to add more clusters than are free. -/
theorem exfatTruncate_space (hm : s.ef.Mapped) (size : Nat) (erase : Bool) :
    wp (exfatTruncate size erase) (fun r _ => r = .error .enospc →
      bytes2clusters s.ef.sb s.node.size < bytes2clusters s.ef.sb size ∧
        s.ef.free < bytes2clusters s.ef.sb size - bytes2clusters s.ef.sb s.node.size)
        anyStop s := by
  unfold exfatTruncate
  rw [wp_bind, wp_get]
  split
  · trivial
  · split
    · exact nofun
    · rw [wp_bind]
      refine wp_conseq (resizeFile_space hm _ _) ?_
      intro r s₁ hspace
      cases r with
      | error e => exact hspace
      | ok => exact wp_conseq (notFull_finish size erase s₁) fun _ _ hne henospc =>
        absurd henospc hne

end Space

/-! ### A failed call changes nothing -/

variable {ef : Ef Flat} {n : Node} {L : List Nat}

/-- The bitmap of a ready volume covers the heap. -/
theorem Ready.mapped (hr : Ready ef) : ef.Mapped := ⟨hr.layout, hr.word, hr.chunkSize⟩

/-- A sound file has the clusters its size needs. -/
theorem File.clusters (hr : Ready ef) (hf : File ef n L) :
    bytes2clusters ef.sb n.size = L.length := by
  have hlen := hf.chained.length_le
  have hcount := hr.layout.count_lt
  rw [bytes2clusters_eq hr.layout (by rw [← hf.length]; omega), hf.length]

/-- A byte of a file lies in one of its clusters. -/
theorem File.index_lt_word (hr : Ready ef) (hf : File ef n L) {p : Nat} (hp : p ≤ n.size) :
    p / ef.sb.clusterSize < 2 ^ 32 := by
  have hcs := ef.sb.clusterSize_pos
  have hlen := hf.chained.length_le
  have hcount := hr.layout.count_lt
  have hsize := le_divRoundUp_mul n.size hcs
  rw [← hf.length] at hsize
  have hle : p / ef.sb.clusterSize ≤ L.length :=
    Nat.div_le_of_le_mul (by rw [Nat.mul_comm]; omega)
  omega

/-- Two chains of the same clusters start at the same one. -/
theorem Chained.start_eq {sb : SuperBlock} {b b' : Store} {n n' : Node} (h : Chained sb b n L)
    (h' : Chained sb b' n' L) : n'.startCluster = n.startCluster := by
  cases L with
  | nil => rw [h.empty rfl, h'.empty rfl]
  | cons c L =>
    have hstart : c = n.startCluster := h.follows.1
    exact h'.follows.1.symm.trans hstart

/-- A step that leaves a file its clusters leaves the bitmap alone. -/
theorem Moved.bits_eq {sb : SuperBlock} {b b' : Store} {chunk chunk' : Nat → Bool}
    (h : Moved sb L L b b' chunk chunk') (ht : Taken chunk L) {i : Nat} (hi : i < sb.clusterCount) :
    chunk' i = chunk i := by
  have hbits := h.bits (i + 2) (clusterInvalid_eq_false.mpr (by omega))
  rw [Nat.add_sub_cancel] at hbits
  have htaken : i + 2 ∈ L → chunk i = true := fun hmem => ht (i + 2) hmem
  rw [Bool.eq_iff_iff, hbits]
  constructor
  · rintro (hmem | ⟨hbit, _⟩)
    · exact htaken hmem
    · exact hbit
  · intro hbit
    by_cases hmem : i + 2 ∈ L
    · exact Or.inl hmem
    · exact Or.inr ⟨hbit, hmem⟩

/-- `exfat_truncate` without enough space leaves the bitmap, the sizes and the clusters of the file
as they were. -/
theorem exfatTruncate_enospc (hr : Ready ef) (hf : File ef n L) (size : Nat) (erase : Bool)
    {s : FileState Flat} (hrun : exfatTruncate size erase ⟨ef, n⟩ = .ok (.error .enospc) s) :
    (∀ i, i < ef.sb.clusterCount → s.ef.cmap.chunk i = ef.cmap.chunk i) ∧
      s.node.size = n.size ∧ s.node.validSize = n.validSize ∧
      s.node.startCluster = n.startCluster ∧ Chained ef.sb s.ef.dev.bytes s.node L := by
  unfold exfatTruncate at hrun
  rw [run_bind_ok (run_get _)] at hrun
  dsimp only at hrun
  split at hrun
  · cases hrun
  · split at hrun
    · cases hrun
    · rw [hf.clusters hr] at hrun
      obtain ⟨r, b', chunk', dirty', errors', n', L', hresize, hpl, hch, hmv, -, hcase⟩ :=
        resizeFile_run hr hf.chained hf.taken (bytes2clusters ef.sb size)
      rw [run_bind_ok hresize] at hrun
      rcases hcase with ⟨rfl, -⟩ | ⟨rfl, -, rfl, -⟩
      · have hnot := notFull_finish size erase ⟨ef.upd b' chunk' dirty' errors' ef.ticks, n'⟩
        exact absurd rfl ((wp_anyStop_iff.mp hnot) _ _ hrun)
      · cases hrun
        exact ⟨fun i hi => hmv.bits_eq hf.taken hi, hpl.size, hpl.validSize,
          hf.chained.start_eq hch, hch⟩

/-- A volume on which only cluster 2 is free. -/
def nearlyFull : Ef Flat :=
  { twoFiles.ef with cmap := { twoFiles.ef.cmap with chunk := fun i => i != 0 } }

/-- The volume is ready. -/
theorem nearlyFull_ready : Ready nearlyFull :=
  ⟨smallSuperBlock_layout, by decide, by decide, by decide⟩

/-- The file of three bytes has its cluster. -/
theorem nearlyFull_file : File nearlyFull threeByteFile [5] := by
  refine ⟨⟨⟨rfl, trivial⟩, ?_, by decide, Or.inl ⟨rfl, rfl⟩, by decide⟩, ?_, by decide, by decide⟩
  · intro c hc
    rw [List.mem_singleton.mp hc]
    decide
  · intro c hc
    rw [List.mem_singleton.mp hc]
    decide

/-- Two more clusters are asked for: the file is linked through the FAT to get cluster 2, and there
is no other. -/
theorem exfatTruncate_enospc_nearlyFull : ∃ s,
    exfatTruncate 1500 true ⟨nearlyFull, threeByteFile⟩ = .ok (.error .enospc) s ∧
      s.node.isContiguous = false ∧
      (∀ i, i < nearlyFull.sb.clusterCount → s.ef.cmap.chunk i = nearlyFull.cmap.chunk i) ∧
      s.node.size = threeByteFile.size ∧ s.node.validSize = threeByteFile.validSize ∧
      s.node.startCluster = threeByteFile.startCluster ∧
      Chained nearlyFull.sb s.ef.dev.bytes s.node [5] := by
  have hrun : exfatTruncate 1500 true ⟨nearlyFull, threeByteFile⟩ =
      .ok (.error .enospc) (finalState (exfatTruncate 1500 true ⟨nearlyFull, threeByteFile⟩)) :=
    eq_of_valueOf (by decide +kernel)
  exact ⟨_, hrun, by decide +kernel,
    exfatTruncate_enospc nearlyFull_ready nearlyFull_file 1500 true hrun⟩

/-! ### Sizes that do not fit -/

/-- The number of clusters is computed with 64 bits and kept in 32. -/
theorem bytes2clusters_narrow {sb : SuperBlock} (hl : Layout sb) {size : Nat} (h : size < 2 ^ 63) :
    bytes2clusters sb size = divRoundUp size sb.clusterSize % 2 ^ 32 := by
  have hle := hl.clusterSize_le
  unfold bytes2clusters u64 u32
  rw [Nat.mod_eq_of_lt (by omega : size + sb.clusterSize - 1 < 2 ^ 64)]
  rfl

/-- What `exfat_truncate` is to come to: the size is set and the chain fits it, and it starts with
the clusters the file had or with some of them; or there is not enough space. -/
def Resized (ef : Ef Flat) (L : List Nat) (size : Nat) (r : Rc) (s : FileState Flat) : Prop :=
  (r = .ok () ∧ s.node.size = size ∧ ∃ L', File s.ef s.node L' ∧ (L <+: L' ∨ L' <+: L)) ∨
    (r = .error .enospc ∧ ef.free < divRoundUp size ef.sb.clusterSize - L.length)

/-- A size that was set is not larger than the heap. -/
theorem Resized.le_heap {size : Nat} {erase : Bool} {s s' : FileState Flat}
    (hrun : exfatTruncate size erase s = .ok (.ok ()) s') (h : Resized s.ef L size (.ok ()) s') :
    divRoundUp size s.ef.sb.clusterSize ≤ s.ef.sb.clusterCount := by
  rcases h with ⟨-, hsize, L', hf, -⟩ | ⟨hne, -⟩
  · have hsb : s'.ef.sb = s.ef.sb :=
      ((keeps_exfatTruncate (R := FileState.Moved) size erase).ok hrun).2
    have hlen := hf.chained.length_le
    rw [hf.length, hsb, hsize] at hlen
    exact hlen
  · cases hne

/-- A growth that succeeds has found as many free clusters as it wanted. -/
theorem Moved.grown_le {sb : SuperBlock} {b b' : Store} {chunk chunk' : Nat → Bool} {L' : List Nat}
    (h : Moved sb L L' b b' chunk chunk') (hpre : L <+: L') (hnd : L'.Nodup)
    (hv : ∀ c ∈ L', Valid sb c) : L'.length - L.length ≤ freeCount sb chunk := by
  obtain ⟨A, rfl⟩ := hpre
  rw [List.length_append, Nat.add_sub_cancel_left]
  have hapart := List.disjoint_of_nodup_append hnd
  refine length_le_freeCount (List.Nodup.of_append_right hnd)
    (fun c hc => hv c (List.mem_append_right L hc)) fun c hc => ?_
  rcases h.fresh c (List.mem_append_right L hc) with hL | hfree
  · exact absurd hc (hapart hL)
  · exact hfree

/-- `exfat_truncate` does what it is to do exactly for the sizes of fewer than `2^32` clusters, and
for those whose number of clusters, reduced to 32 bits, still cannot be had. -/
theorem exfatTruncate_resized_iff (hr : Ready ef) (hf : File ef n L) {size : Nat}
    (hsize : size < 2 ^ 63) (href : n.references = 0 → n.parent = none) (erase : Bool) :
    (∃ r s, exfatTruncate size erase ⟨ef, n⟩ = .ok r s ∧ Resized ef L size r s) ↔
      (divRoundUp size ef.sb.clusterSize < 2 ^ 32 ∨
        (L.length < divRoundUp size ef.sb.clusterSize % 2 ^ 32 ∧
          ef.free < divRoundUp size ef.sb.clusterSize % 2 ^ 32 - L.length)) := by
  have hc1 := hf.clusters hr
  have hc2 := bytes2clusters_narrow hr.layout hsize
  have hcount := hr.layout.count_lt
  have hspace := wp_anyStop_iff.mp (exfatTruncate_space (s := ⟨ef, n⟩) hr.mapped size erase)
  dsimp only at hspace
  rw [hc1, hc2] at hspace
  -- the file is resized: then the number of clusters has not wrapped, or space was missing
  constructor
  · rintro ⟨r, s, hrun, hres⟩
    by_cases hok : r = .ok ()
    · subst hok
      have hle := hres.le_heap hrun
      dsimp only at hle
      exact Or.inl (by omega)
    · rcases hres with ⟨hr', -⟩ | ⟨rfl, -⟩
      · exact absurd hr' hok
      · exact Or.inr (hspace _ _ hrun rfl)
  -- conversely both cases lead to a result that is one of the two
  · rintro (hfit | ⟨hgrow, hfree⟩)
    · obtain ⟨r, ef', n', L', hrun, hstep, hpre, -, -, htrunc, -⟩ :=
        exfatTruncate_run hr hf hfit href erase
      refine ⟨r, _, hrun, ?_⟩
      rcases htrunc with ⟨rfl, hset, -⟩ | ⟨rfl, -⟩
      · exact Or.inl ⟨rfl, hset, L', hstep.file, hpre⟩
      · refine Or.inr ⟨rfl, ?_⟩
        have hless := (hspace _ _ hrun rfl).2
        rwa [Nat.mod_eq_of_lt hfit] at hless
    -- a number of clusters that wraps cannot be that of the present size
    · have hne : n.size ≠ size := by
        rintro rfl
        have hlt := hf.chained.length_le
        have hmod := Nat.mod_le (divRoundUp n.size ef.sb.clusterSize) (2 ^ 32)
        have hlen := hf.length
        omega
      obtain ⟨r, b', chunk', dirty', errors', n', L', hresize, hpl, hch, hmv, -, hcase⟩ :=
        resizeFile_run hr hf.chained hf.taken (divRoundUp size ef.sb.clusterSize % 2 ^ 32)
      rcases hcase with ⟨-, hlen, hpre, -⟩ | ⟨rfl, -⟩
      · -- the growth would need more free clusters than there are
        have hpre' : L <+: L' := by
          rcases hpre with hpre | hpre
          · exact hpre
          · have := hpre.length_le
            omega
        have hle := hmv.grown_le hpre' hch.nodup hch.valid
        unfold Ef.free at hfree
        omega
      · refine ⟨.error .enospc, ⟨ef.upd b' chunk' dirty' errors' ef.ticks, n'⟩,
          ?_, Or.inr ⟨rfl, ?_⟩⟩
        · unfold exfatTruncate
          rw [run_bind_ok (run_get _)]
          dsimp only
          rw [if_neg (by rintro ⟨h0, h1⟩; rw [href h0] at h1; cases h1), if_neg hne, hc1, hc2,
            run_bind_ok hresize]
          rfl
        · have hmod := Nat.mod_le (divRoundUp size ef.sb.clusterSize) (2 ^ 32)
          omega

/-- The volume is ready. -/
theorem twoFiles_ready : Ready twoFiles.ef := twoFiles_chains.ready

/-- The file of three bytes has its cluster. -/
theorem threeBytes_file : File twoFiles.ef threeByteFile [5] := twoFiles_chains.file (i := 1) rfl

/-- A size of `2^32` clusters and one of two. -/
theorem exfatTruncate_resized_threeBytes :
    (∃ r s, exfatTruncate 600 true ⟨twoFiles.ef, threeByteFile⟩ = .ok r s ∧
      Resized twoFiles.ef [5] 600 r s) ∧
    ¬ ∃ r s, exfatTruncate (2 ^ 41) true ⟨twoFiles.ef, threeByteFile⟩ = .ok r s ∧
      Resized twoFiles.ef [5] (2 ^ 41) r s := by
  have hiff := fun size (hsize : size < 2 ^ 63) =>
    exfatTruncate_resized_iff twoFiles_ready threeBytes_file hsize (by decide) true
  exact ⟨(hiff 600 (by decide)).mpr (by decide), fun h =>
    absurd ((hiff (2 ^ 41) (by decide)).mp h) (by decide)⟩

/-- A file of three bytes that is to be extended to `2^32` clusters loses the cluster it has. -/
theorem exfatTruncate_not_resized :
    ¬ ∃ r s, exfatTruncate (2 ^ 41) false ⟨twoFiles.ef, threeByteFile⟩ = .ok r s ∧
      Resized twoFiles.ef [5] (2 ^ 41) r s := by
  rintro ⟨r, s, hrun, hres⟩
  have hvalue : valueOf (exfatTruncate (2 ^ 41) false ⟨twoFiles.ef, threeByteFile⟩) = some
      (.ok ()) := by
    decide +kernel
  rw [hrun] at hvalue
  cases hvalue
  exact absurd (hres.le_heap hrun) (by decide)

end ExFat
