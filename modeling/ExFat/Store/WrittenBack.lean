import ExFat.Session.SetRoundTrip
import ExFat.Store.Faults
import ExFat.Store.Stale

namespace ExFat

open Bytes Program Chain

/-!
# What is written back after a truncation

`exfat_flush_node` writes the node that `exfat_truncate` leaves, whatever the call has returned, and
the next mount reads the set and applies the rules of `check_node`.  `exfatTruncate_survives_iff`
says for which truncations every set that can be written so is accepted: the first cluster goes with
the size however the call ends (`StaysSane`), and the new size is one the rules allow or is never
set (`StaysSized`).
-/

/-! ### The rules for an entry -/

/-- What `check_node` wants of the size of an entry: it lies within the heap, and a directory has
whole clusters. -/
def SizeAllowed (sb : SuperBlock) (n : Node) (size : Nat) : Prop :=
  size ≤ sb.clusterCount * sb.clusterSize ∧ (n.isDir = true → size % sb.clusterSize = 0)

/-- What `check_node` wants of an entry. -/
structure EntrySane (sb : SuperBlock) (n : Node) : Prop extends StartSane sb n where
  sized : SizeAllowed sb n n.size

/-- The entry that is written for a node obeys the rules exactly if the node does: the flag of a
contiguous file is not written for an empty one. -/
theorem written_consistent_iff {sb : SuperBlock} {n : Node} :
    n.written.Consistent sb ↔ EntrySane sb n := by
  constructor
  · intro h
    refine ⟨⟨⟨fun h0 => (h.empty h0).1, fun hstart => ?_⟩, h.cluster, h.validSize⟩,
      h.heap, h.aligned⟩
    by_contra hne
    have htwo := Valid.two_le (h.cluster (Nat.pos_iff_ne_zero.mpr hne))
    rw [show n.written.startCluster = clusterFree from hstart] at htwo
    cases htwo
  · intro h
    refine ⟨h.valid, fun h0 => ⟨h.empty.mp h0, ?_⟩, h.start, h.sized.1, h.sized.2⟩
    have h0' : n.size = 0 := h0
    unfold Node.written
    rw [h0']
    rfl

/-! ### What holds however the call ends -/

section Narrow

variable {δ : Type} [Device δ] {s : FileState δ}

/-- The sizes are what they were, and the first cluster is a number of 32 bits. -/
structure FileState.Narrow (s s' : FileState δ) : Prop where
  attrib : s'.node.attrib = s.node.attrib
  size : s'.node.size = s.node.size
  valid : s'.node.validSize = s.node.validSize
  start : s.node.startCluster < 2 ^ 32 → s'.node.startCluster < 2 ^ 32

instance : WalkRel (δ := δ) FileState.Narrow where
  refl _ := ⟨rfl, rfl, rfl, id⟩
  trans _ _ _ h h' := ⟨h'.attrib.trans h.attrib, h'.size.trans h.size, h'.valid.trans h.valid,
    fun hs => h'.start (h.start hs)⟩
  call _ := ⟨rfl, rfl, rfl, id⟩
  report _ := ⟨rfl, rfl, rfl, id⟩
  cursor _ _ _ := ⟨rfl, rfl, rfl, id⟩

omit [Device δ] in
/-- A routine on the volume leaves the node alone. -/
theorem narrow_onEf {α : Type} (m : EfM δ α) : Keeps FileState.Narrow (onEf m) := by
  have hm : Keeps (fun _ _ => True) m :=
    fun _ => wp_of_forall (fun _ _ => trivial) fun _ _ => trivial
  exact keeps_zoom hm fun _ _ _ => ⟨rfl, rfl, rfl, id⟩

/-- `freeLoop` leaves the attributes and the sizes alone, and keeps the start in 32 bits. -/
theorem narrow_freeLoop (difference previous : Nat) :
    Keeps FileState.Narrow (freeLoop (δ := δ) difference previous) := by
  induction difference generalizing previous with
  | zero => exact keeps_pure _
  | succ k ih =>
    refine keeps_look fun s => keeps_ite (keeps_report _ _) ?_
    refine keeps_bind (keeps_exfatNextCluster _) fun next => ?_
    refine keeps_bind (narrow_onEf _) fun done => keeps_ite ?_ (keeps_pure _)
    exact keeps_bind (narrow_onEf _) fun _ => ih next

/-- `shrinkTail` leaves the attributes and the sizes alone, and keeps the start in 32 bits. -/
theorem narrow_shrinkTail (difference previous : Nat) :
    Keeps FileState.Narrow (shrinkTail (δ := δ) difference previous) :=
  keeps_bind (fun _ => ⟨rfl, rfl, rfl, id⟩) fun _ => narrow_freeLoop _ _

/-- `shrink_file` leaves the attributes and the sizes alone, and keeps the start in 32 bits. -/
theorem narrow_shrinkFile (current difference : Nat) :
    Keeps FileState.Narrow (shrinkFile (δ := δ) current difference) := by
  refine keeps_look fun s => keeps_ite (keeps_throw _) (keeps_ite (keeps_throw _)
    (keeps_ite (keeps_throw _) (keeps_ite ?_ ?_)))
  · refine keeps_bind (keeps_exfatAdvanceCluster _) fun last => keeps_ite (keeps_report _ _) ?_
    refine keeps_bind (keeps_exfatNextCluster _) fun previous => ?_
    refine keeps_bind (narrow_onEf _) fun done => ?_
    exact keeps_ite (narrow_shrinkTail _ _) (keeps_pure _)
  · refine keeps_bind (fun s => ⟨rfl, rfl, rfl, fun _ => ?_⟩) fun _ => narrow_shrinkTail _ _
    exact Nat.two_pow_pos 32

/-- `linkCluster` leaves the attributes and the sizes alone, and keeps the start in 32 bits. -/
theorem narrow_linkCluster (previous next : Nat) :
    Keeps FileState.Narrow (linkCluster (δ := δ) previous next) := by
  refine keeps_look fun s => keeps_ite ?_ (narrow_onEf _)
  refine keeps_bind (narrow_onEf _) fun done => keeps_ite ?_ (keeps_pure _)
  exact keeps_bind (fun _ => ⟨rfl, rfl, rfl, id⟩) fun _ => narrow_onEf _

/-- `growLoop` leaves the attributes and the sizes alone, and keeps the start in 32 bits. -/
theorem narrow_growLoop (current k previous allocated : Nat) :
    Keeps FileState.Narrow (growLoop (δ := δ) current k previous allocated) := by
  induction k generalizing previous allocated with
  | zero =>
    refine keeps_look fun s => keeps_bind (narrow_onEf _) fun done => ?_
    exact keeps_ite (keeps_pure _) (keeps_pure _)
  | succ k ih =>
    refine keeps_bind (narrow_onEf _) fun next => keeps_look fun s => ?_
    refine keeps_ite (keeps_ite ?_ (keeps_pure _)) ?_
    · exact keeps_bind (narrow_shrinkFile _ _) fun _ => keeps_pure _
    · exact keeps_bind (narrow_linkCluster _ _) fun linked => keeps_ite (ih _ _) (keeps_pure _)

/-- The number of a bit that is found has 32 bits. -/
theorem findBitAndSet_lt (w : Nat) (chunk : Nat → Bool) (start stop : Nat) :
    (findBitAndSet w chunk start stop).1 < 2 ^ 32 := by
  unfold findBitAndSet
  split
  · exact Nat.mod_lt _ (Nat.two_pow_pos 32)
  · exact (by decide : clusterEnd < 2 ^ 32)

omit [Device δ] in
/-- A cluster that is allocated has a number of 32 bits. -/
theorem allocateCluster_lt (hint : Nat) (ef : Ef δ) :
    wp (allocateCluster hint) (fun c _ => c < 2 ^ 32) anyStop ef := by
  unfold allocateCluster
  rw [wp_bind, wp_get]
  dsimp only
  split
  · exact (by decide : clusterEnd < 2 ^ 32)
  · show (searchBits ef.wordBits ef.cmap hint).1 < 2 ^ 32
    unfold searchBits
    dsimp only
    split
    · exact findBitAndSet_lt _ _ _ _
    · exact findBitAndSet_lt _ _ _ _

/-- `grow_file` leaves the attributes and the sizes alone, and keeps the start in 32 bits. -/
theorem narrow_growFile (current difference : Nat) :
    Keeps FileState.Narrow (growFile (δ := δ) current difference) := by
  refine keeps_look fun s => keeps_ite (keeps_throw _) (keeps_ite ?_ (keeps_ite (keeps_throw _) ?_))
  · refine keeps_bind (keeps_exfatAdvanceCluster _) fun previous => ?_
    exact keeps_ite (keeps_report _ _) (narrow_growLoop _ _ _ _)
  · have hrest : ∀ c, c < 2 ^ 32 → Keeps FileState.Narrow (if s.ef.sb.clusterInvalid c then
        pure (.error .enospc) else do
          modifyNode fun n => { n with fptrCluster := c, startCluster := c, isContiguous := true }
          growLoop (δ := δ) current (difference - 1) c 1) := fun c hc => by
      refine keeps_ite (keeps_pure _)
        (keeps_bind (fun _ => ⟨rfl, rfl, rfl, fun _ => hc⟩) fun _ => ?_)
      exact narrow_growLoop _ _ _ _
    intro s₁
    have hlt : wp (onEf (allocateCluster (δ := δ) 0)) (fun c _ => c < 2 ^ 32) anyStop s₁ :=
      wp_zoom.mpr (allocateCluster_lt 0 s₁.ef)
    rw [wp_bind]
    refine wp_mono (wp_and (narrow_onEf _ s₁) hlt) ?_ (fun _ _ h => h.1)
    rintro c s₂ ⟨h, hc⟩
    exact wp_mono (hrest c hc s₂) (fun _ _ h' => trans_of FileState.Narrow h h')
      (fun _ _ h' => trans_of FileState.Narrow h h')

/-- `resizeFile` leaves the attributes and the sizes alone, and keeps the start in 32 bits. -/
theorem narrow_resizeFile (c1 c2 : Nat) : Keeps FileState.Narrow (resizeFile (δ := δ) c1 c2) :=
  keeps_ite (narrow_growFile _ _) (keeps_ite (narrow_shrinkFile _ _) (keeps_pure _))

/-- What `exfat_truncate` leaves: the attributes are what they were and the first cluster is a
number of 32 bits, and only a call that succeeds has set the sizes. -/
structure Leaves (size : Nat) (s : FileState δ) (r : Rc) (s' : FileState δ) : Prop where
  attrib : s'.node.attrib = s.node.attrib
  start : s.node.startCluster < 2 ^ 32 → s'.node.startCluster < 2 ^ 32
  sizes : (s'.node.size = s.node.size ∧ s'.node.validSize = s.node.validSize) ∨
    (r = .ok () ∧ s'.node.size = size ∧ s'.node.validSize ≤ size)

/-- The end of `exfat_truncate` sets both sizes, or fails with the size it has set. -/
theorem finishTruncate_leaves (size : Nat) (erase : Bool) (s : FileState δ) :
    wp (finishTruncate size erase) (fun r s' => Leaves size s r s') anyStop s := by
  unfold finishTruncate
  cases erase with
  | false =>
    rw [if_neg (by decide)]
    exact ⟨rfl, id, .inr ⟨rfl, rfl, Nat.min_le_right _ _⟩⟩
  | true =>
    rw [if_pos rfl, wp_bind, wp_get, wp_bind]
    refine wp_mono (keeps_eraseRange (R := FileState.Narrow) _ _ s) ?_ (fun _ _ _ => trivial)
    intro r s₁ h₁
    cases r with
    | error e => exact ⟨h₁.attrib, h₁.start, .inl ⟨h₁.size, h₁.valid⟩⟩
    | ok => exact ⟨h₁.attrib, h₁.start, .inr ⟨rfl, rfl, Nat.le_refl size⟩⟩

/-- `exfat_truncate` leaves the old size or the new one. -/
theorem exfatTruncate_leaves (size : Nat) (erase : Bool) (s : FileState δ) :
    wp (exfatTruncate size erase) (fun r s' => Leaves size s r s') anyStop s := by
  unfold exfatTruncate
  rw [wp_bind, wp_get]
  split
  · trivial
  · split
    · exact ⟨rfl, id, .inl ⟨rfl, rfl⟩⟩
    · rw [wp_bind]
      refine wp_mono (narrow_resizeFile _ _ s) ?_ (fun _ _ _ => trivial)
      intro r s₁ h₁
      cases r with
      | error e => exact ⟨h₁.attrib, h₁.start, .inl ⟨h₁.size, h₁.valid⟩⟩
      | ok =>
        refine wp_conseq (finishTruncate_leaves size erase s₁) ?_
        intro r s₂ h₂
        refine ⟨h₂.attrib.trans h₁.attrib, fun hs => h₂.start (h₁.start hs), ?_⟩
        exact h₂.sizes.imp (fun h => ⟨h.1.trans h₁.size, h.2.trans h₁.valid⟩) id

end Narrow

/-! ### When the new size is set -/

variable {ef : Ef Flat} {n : Node} {L : List Nat} {size : Nat} {erase : Bool}

/-- The new size is one that `check_node` allows, or it is never set: it is the old one, there are
not enough free clusters for it, or more than the heap is to be erased. -/
def StaysSized (ef : Ef Flat) (n : Node) (size : Nat) (erase : Bool) : Prop :=
  n.size = size ∨ SizeAllowed ef.sb n size ∨
  ef.free < bytes2clusters ef.sb size - bytes2clusters ef.sb n.size ∨
  (erase = true ∧ ef.sb.clusterCount * ef.sb.clusterSize < size)

/-- Without enough free clusters no call succeeds. -/
theorem exfatTruncate_short (hr : Ready ef) (hf : File ef n L) (hne : n.size ≠ size)
    (hshort : ef.free < bytes2clusters ef.sb size - bytes2clusters ef.sb n.size)
    (s : FileState Flat) : exfatTruncate size erase ⟨ef, n⟩ ≠ .ok (.ok ()) s := by
  intro hrun
  rw [hf.clusters hr] at hshort
  obtain ⟨r, b', chunk', dirty', errors', n', L', hresize, -, hch, hmv, -, hcase⟩ :=
    resizeFile_run hr hf.chained hf.taken (bytes2clusters ef.sb size)
  rcases hcase with ⟨-, hlen, hpre, -⟩ | ⟨rfl, -⟩
  · have hpre' : L <+: L' := by
      rcases hpre with hpre | hpre
      · exact hpre
      · have := hpre.length_le
        omega
    have hle := hmv.grown_le hpre' hch.nodup hch.valid
    unfold Ef.free at hshort
    omega
  · rw [← hf.clusters hr] at hresize
    cases (exfatTruncate_failed (exfatTruncate_referenced hrun) hne hresize).symm.trans hrun

/-- With enough of them the size is set, unless more than the heap is to be erased. -/
theorem exfatTruncate_sets (hr : Ready ef) (hf : File ef n L)
    (href : n.references = 0 → n.parent = none) (hne : n.size ≠ size)
    (hspace : ¬ ef.free < bytes2clusters ef.sb size - bytes2clusters ef.sb n.size)
    (hheap : erase = true → size ≤ ef.sb.clusterCount * ef.sb.clusterSize) :
    ∃ s, exfatTruncate size erase ⟨ef, n⟩ = .ok (.ok ()) s ∧ s.node.size = size := by
  cases erase with
  | true =>
    have hcount := hr.layout.count_lt
    have hle : divRoundUp size ef.sb.clusterSize ≤ ef.sb.clusterCount :=
      (divRoundUp_le_iff ef.sb.clusterSize_pos).mpr (hheap rfl)
    have hfit : divRoundUp size ef.sb.clusterSize < 2 ^ 32 := by omega
    obtain ⟨r, ef', n', L', hrun, -, -, -, -, hres, -⟩ := exfatTruncate_run hr hf hfit href true
    rcases hres with ⟨rfl, hsize, -⟩ | ⟨rfl, -⟩
    · exact ⟨_, hrun, hsize⟩
    · have hspace' := wp_anyStop_iff.mp (exfatTruncate_space (s := ⟨ef, n⟩) hr.mapped size true)
      exact absurd (hspace' _ _ hrun rfl).2 hspace
  | false =>
    obtain ⟨r, b', chunk', dirty', errors', n', L', hresize, -, -, -, -, hcase⟩ :=
      resizeFile_run hr hf.chained hf.taken (bytes2clusters ef.sb size)
    rw [← hf.clusters hr] at hresize
    rcases hcase with ⟨rfl, -⟩ | ⟨rfl, -⟩
    · obtain ⟨s, hfinish, hsize, -⟩ :=
        finishTruncate_keep (ef.upd b' chunk' dirty' errors' ef.ticks) n' size
      exact ⟨s, (exfatTruncate_finish href hne hresize).trans hfinish, hsize⟩
    · have hspace' := wp_anyStop_iff.mp (resizeFile_space (s := ⟨ef, n⟩) hr.mapped
        (bytes2clusters ef.sb n.size) (bytes2clusters ef.sb size))
      exact absurd (hspace' _ _ hresize rfl).2 hspace

/-! ### What the next mount accepts -/

/-- The node of a file before the call. -/
theorem File.entrySane (hf : File ef n L)
    (hdir : n.isDir = true → n.size % ef.sb.clusterSize = 0) : EntrySane ef.sb n := by
  refine ⟨hf.sane, ?_, hdir⟩
  have hle := le_divRoundUp_mul n.size ef.sb.clusterSize_pos
  rw [← hf.length] at hle
  exact hle.trans (Nat.mul_le_mul_right _ (hf.chained.length_le))

/-- The size that is left is allowed when the old and the new one are. -/
theorem Leaves.sizeAllowed {sb : SuperBlock} {s s' : FileState Faulty} {r : Rc}
    (h : Leaves size s r s') (hold : SizeAllowed sb s.node s.node.size)
    (hnew : r = .ok () → s'.node.size = size → SizeAllowed sb s.node size) :
    SizeAllowed sb s'.node s'.node.size := by
  have hdir : s'.node.isDir = s.node.isDir := congrArg (Nat.testBit · 4) h.attrib
  unfold SizeAllowed at *
  rw [hdir]
  rcases h.sizes with ⟨hsize, -⟩ | ⟨hok, hsize, -⟩
  · rw [hsize]
    exact hold
  · rw [hsize]
    exact hnew hok hsize

/-- Whatever fails in `exfat_truncate`, `check_node` would take the node it leaves: exactly for the
truncations of `StaysSane` and `StaysSized`. -/
theorem exfatTruncate_sane_iff (hr : Ready ef) (hf : File ef n L)
    (he : Ended ef.sb ef.dev.bytes n L) (hdir : n.isDir = true → n.size % ef.sb.clusterSize = 0)
    (href : n.references = 0 → n.parent = none) (size : Nat) (erase : Bool) :
    (∀ fault r s, exfatTruncate size erase (⟨ef.onFaulty fault, n⟩ : FileState Faulty) = .ok r s →
      EntrySane ef.sb s.node) ↔ StaysSane ef n size erase ∧ StaysSized ef n size erase := by
  have hsane := hf.entrySane hdir
  rw [← exfatTruncate_startSane_iff hr hf href]
  constructor
  · intro hall
    refine ⟨fun fault r s hrun => (hall fault r s hrun).toStartSane, ?_⟩
    by_contra hno
    unfold StaysSized at hno
    push Not at hno
    obtain ⟨hne, hforbidden, hspace, herase⟩ := hno
    -- on a device that works the size is set
    obtain ⟨t, hrun, hsize⟩ := exfatTruncate_sets hr hf href hne (Nat.not_lt.mpr hspace) herase
    obtain ⟨s, hrun', hnode⟩ := exfatTruncate_ok_of_flat hr hrun
    have hleaves := wp_anyStop_iff.mp (exfatTruncate_leaves size erase _) _ _ hrun'
    have hdir' : s.node.isDir = n.isDir := congrArg (Nat.testBit · 4) hleaves.attrib
    have hsized := (hall _ _ _ hrun').sized
    unfold SizeAllowed at hsized
    rw [hdir', hnode, hsize] at hsized
    exact hforbidden hsized
  · rintro ⟨hall, hsized⟩ fault r s hrun
    have hleaves := wp_anyStop_iff.mp (exfatTruncate_leaves size erase _) _ _ hrun
    refine ⟨hall fault r s hrun, hleaves.sizeAllowed hsane.sized ?_⟩
    rintro rfl hset
    -- a call that has succeeded would have succeeded on a device that works
    obtain ⟨t, hrun', -⟩ := exfatTruncate_ok_of_faulty hr hrun
    -- the size stays the same, or one of the cases of `StaysSized` holds
    by_cases hne : n.size = size
    · rw [← hne]
      exact hsane.sized
    rcases hsized with heq | hallowed | hshort | ⟨rfl, hlarge⟩
    · exact absurd heq hne
    · exact hallowed
    · exact absurd hrun' (exfatTruncate_short hr hf hne hshort t)
    -- a file that is extended with erasing ends within the heap
    · have hlt : n.size < size := Nat.lt_of_le_of_lt hsane.sized.1 hlarge
      have hle := exfatTruncate_erase_fits hr hf he hlt hrun'
      rw [divRoundUp_le_iff ef.sb.clusterSize_pos] at hle
      omega

/-- The node that is left fits into its entries. -/
theorem Leaves.fits {s s' : FileState Faulty} {r : Rc} (h : Leaves size s r s')
    (hfits : s.node.Fits) (hsize : size < 2 ^ 64) : s'.node.Fits := by
  have hattrib := hfits.attrib
  have hold := hfits.size
  have hvalid := hfits.validSize
  refine ⟨h.attrib ▸ hattrib, ?_, ?_, h.start hfits.startCluster⟩
  · rcases h.sizes with ⟨hs, -⟩ | ⟨-, hs, -⟩ <;> omega
  · rcases h.sizes with ⟨-, hv⟩ | ⟨-, -, hv⟩ <;> omega

/-- Whatever fails in the call, the node it leaves obeys the rules of `check_node`, and the set that
`exfat_flush_node` writes from it over the set `es` of the file is accepted at the next mount. -/
def Survives (ef : Ef Flat) (n : Node) (es : List Entry) (size : Nat) (erase : Bool) : Prop :=
  ∀ fault r s, exfatTruncate size erase (⟨ef.onFaulty fault, n⟩ : FileState Faulty) = .ok r s →
    EntrySane ef.sb s.node ∧ ∀ (ef' : Ef Flat) (node : Node) (tz : Int), ef'.sb = ef.sb →
      ∃ s', parseFileEntries (flushedEntries tz s.node es) ⟨ef', node⟩ = .ok (.ok ()) s'

/-- **A truncation that breaks off** leaves what the next mount accepts exactly if the first cluster
goes with the size however it ends, and the new size is allowed or never set. -/
theorem exfatTruncate_survives_iff (hr : Ready ef) (hf : File ef n L)
    (he : Ended ef.sb ef.dev.bytes n L) (hdir : n.isDir = true → n.size % ef.sb.clusterSize = 0)
    (href : n.references = 0 → n.parent = none) (hfits : n.Fits) {es : List Entry}
    (hes : StoredSet es) {size : Nat} (hsize : size < 2 ^ 64) (erase : Bool) :
    Survives ef n es size erase ↔ StaysSane ef n size erase ∧ StaysSized ef n size erase := by
  rw [← exfatTruncate_sane_iff hr hf he hdir href]
  constructor
  · exact fun h fault r s hrun => (h fault r s hrun).1
  · intro h fault r s hrun
    have hsane := h fault r s hrun
    have hleaves := wp_anyStop_iff.mp (exfatTruncate_leaves size erase _) _ _ hrun
    refine ⟨hsane, fun ef' node tz hsb => ?_⟩
    rw [flushedEntries_accepted_iff hes (hleaves.fits hfits hsize), hsb]
    exact written_consistent_iff.mpr hsane

/-- An empty file is extended within the first free cluster: without erasing nothing can fail, and
with erasing something can.  A file of three bytes gets a size of `2^32` clusters and some bytes,
which is counted as two clusters. -/
theorem exfatTruncate_survives_emptyFile :
    Survives twoFiles.ef emptyFile (smallSet 3686) 100 false ∧
    ¬ Survives twoFiles.ef emptyFile (smallSet 3686) 100 true ∧
    ¬ Survives twoFiles.ef threeByteFile (smallSet 3686) (2 ^ 41 + 600) false := by
  have hset : StoredSet (smallSet 3686) := ⟨by decide, by decide, by decide, by decide⟩
  have hempty := exfatTruncate_survives_iff twoFiles_ready emptyFile_file (fun _ _ h => by cases h)
    (by decide) (by decide) (by decide) hset (show 100 < 2 ^ 64 by decide)
  have hthree := exfatTruncate_survives_iff twoFiles_ready threeBytes_file (fun h => by cases h)
    (by decide) (by decide) (by decide) hset (show 2 ^ 41 + 600 < 2 ^ 64 by decide) false
  have hone : bytes2clusters twoFiles.ef.sb 100 = 1 := by decide
  have hfree : twoFiles.ef.free = 7 := by decide
  refine ⟨(hempty false).mpr ⟨?_, .inr (.inl ⟨by decide, by decide⟩)⟩,
    fun hall => ?_, fun hall => ?_⟩
  -- one cluster is enough for 100 bytes, and the first is free
  · refine .inr (.inr (.inr (.inr ⟨rfl, by decide, ⟨0, ?_, ?_⟩, .inl rfl⟩)))
    · exact fun j hj => absurd hj (Nat.not_lt_zero j)
    · intro i hi
      obtain rfl : i = 0 := by omega
      decide
  -- with erasing none of the cases of `StaysSane` holds
  · rcases ((hempty true).mp hall).1 with h | ⟨h, -⟩ | ⟨h, -⟩ | ⟨-, h, -⟩ | ⟨-, -, -, h | h⟩
    · exact absurd h (by decide)
    · exact h rfl
    · exact h rfl
    · omega
    · cases h
    · omega
  -- and none of those of `StaysSized` does for the large size
  · rcases (hthree.mp hall).2 with h | h | h | h
    · exact absurd h (by decide)
    · exact absurd h.1 (by decide)
    · exact absurd h (by decide)
    · cases h.1

/-- The first call of the device fails. -/
def firstFails (k : Nat) : Option Nat := if k = 0 then some 0 else none

/-- The zeroes of the first cluster of an empty file cannot be written: the file is left with a
first cluster and no size, and the set that is written from it is refused. -/
theorem exfatTruncate_not_survives :
    ∃ s, exfatTruncate 100 true (⟨twoFiles.ef.onFaulty firstFails, emptyFile⟩ : FileState Faulty) =
        .ok (.error .eio) s ∧
      s.node.size = 0 ∧ s.node.startCluster = 2 ∧
      ¬ ∃ s', parseFileEntries (flushedEntries 0 s.node (smallSet 3686)) ⟨twoFiles.ef, {}⟩ =
        .ok (.ok ()) s' := by
  have hrun := eq_of_valueOf (r := exfatTruncate 100 true
    (⟨twoFiles.ef.onFaulty firstFails, emptyFile⟩ : FileState Faulty)) (a := .error .eio)
    (by decide +kernel)
  have hset : StoredSet (smallSet 3686) := ⟨by decide, by decide, by decide, by decide⟩
  have hfits := (wp_anyStop_iff.mp (exfatTruncate_leaves 100 true _) _ _ hrun).fits (by decide)
    (by decide)
  refine ⟨_, hrun, by decide +kernel, by decide +kernel, ?_⟩
  rw [flushedEntries_accepted_iff hset hfits, written_consistent_iff]
  intro hsane
  exact absurd (hsane.empty.mp (by decide +kernel)) (by decide +kernel)

end ExFat
