import ExFat.Fs.Calls
import ExFat.Fs.Node
import ExFat.Lib.Forest

namespace ExFat

open Program Bytes

/-!
# Writing the nodes back

What `exfat_flush_node` and `flush_nodes` do to a volume whose nodes form a tree.  A set of entries
is rewritten in place, so nothing but the device, the cursor of the directory and the flag of the
node changes; `flush_nodes` goes through the tree from the leaves to the root and stops at the first
node that fails.
-/

variable {δ : Type} [Device δ]

/-! ### Entries in place -/

/-- Reading a directory walks along its clusters. -/
theorem walked_preadValid (size uoffset : Nat) {s : FileState δ} (hd : s.node.isDir = true) :
    wp (preadValid size uoffset) (fun _ s' => s.Walked s') (fun _ s' => s.Walked s') s := by
  unfold preadValid
  rw [wp_bind, wp_get, wp_bind]
  refine wp_conseq (keeps_exfatAdvanceCluster (R := FileState.Walked) _ s) ?_
  intro cluster s₁ h₁
  split
  · exact trans_of FileState.Walked h₁ (WalkRel.report s₁)
  · rw [wp_bind]
    have hloop := keeps_preadLoop (R := FileState.Walked)
      (clusterSpan s.ef.sb.clusterSize (uoffset % s.ef.sb.clusterSize)
        (min size (s.node.size - uoffset))) cluster (uoffset % s.ef.sb.clusterSize)
      (min size (s.node.size - uoffset)) s₁
    refine wp_mono hloop ?_ (fun _ _ h => trans_of FileState.Walked h₁ h)
    intro r s₂ h₂
    have h₁₂ := trans_of FileState.Walked h₁ h₂
    cases r with
    | error e => exact h₁₂
    | ok bytes =>
      have hd₂ : s₂.node.isDir = true := by
        rw [h₁₂.node]
        exact hd
      rw [wp_bind, wp_get, if_neg (by rw [hd₂]; simp)]
      exact h₁₂

/-- Reading a directory walks along its clusters. -/
theorem walked_exfatGenericPread (size : Nat) (offset : Int) {s : FileState δ}
    (hd : s.node.isDir = true) :
    wp (exfatGenericPread size offset) (fun _ s' => s.Walked s') (fun _ s' => s.Walked s') s := by
  have hrefl := refl_of FileState.Walked s
  unfold exfatGenericPread
  rw [wp_bind, wp_get]
  dsimp only
  split
  · exact hrefl
  · split
    · exact hrefl
    · split
      · exact hrefl
      · split
        · split
          · rw [wp_bind]
            refine wp_conseq (walked_preadValid _ _ hd) ?_
            intro r s₁ h₁
            cases r with
            | error e => exact h₁
            | ok r =>
              dsimp only
              split
              · exact h₁
              · exact h₁
          · exact hrefl
        · exact walked_preadValid _ _ hd

/-- Reading entries changes nothing but the cursor of the directory. -/
theorem walked_readEntries (n : Nat) (offset : Int) :
    Keeps FileState.Walked (readEntries (δ := δ) n offset) := by
  intro s
  have hrefl := refl_of FileState.Walked s
  unfold readEntries
  rw [wp_bind, wp_get]
  split
  · exact hrefl
  next hd =>
    rw [wp_bind]
    refine wp_conseq (walked_exfatGenericPread _ _ (by simpa using hd)) ?_
    intro r s₁ h₁
    cases r with
    | error e => exact h₁
    | ok r =>
      dsimp only
      split
      · exact h₁
      · split
        · exact h₁
        · exact trans_of FileState.Walked h₁ (WalkRel.report s₁)

/-- `read_entries` stays within the file. -/
theorem scanned_readEntries (n : Nat) (offset : Int) :
    Keeps FileState.Scanned (readEntries (δ := δ) n offset) := fun s =>
  wp_mono (walked_readEntries n offset s) (fun _ _ h => h.scanned) (fun _ _ h => h.scanned)

/-- No more is read than there is behind the offset. -/
theorem count_preadValid (size uoffset : Nat) (s : FileState δ) :
    wp (preadValid size uoffset)
      (fun r _ => ∀ k buffer, r = .ok (k, buffer) → k ≤ s.node.size - uoffset) anyStop s := by
  unfold preadValid
  rw [wp_bind, wp_get, wp_bind]
  refine wp_mono (keeps_exfatAdvanceCluster (R := FileState.Scanned) _ s) ?_ (fun _ _ _ => trivial)
  intro cluster s₁ _
  split
  · rintro k buffer ⟨⟩
  · rw [wp_bind]
    refine wp_mono (keeps_preadLoop (R := FileState.Scanned) _ _ _ _ s₁) ?_ (fun _ _ _ => trivial)
    intro r s₂ _
    cases r with
    | error e => rintro k buffer ⟨⟩
    | ok bytes =>
      rw [wp_bind, wp_get]
      split
      · rw [wp_bind]
        refine wp_mono (keeps_exfatUpdateAtime (R := FileState.Moved) s₂) ?_ (fun _ _ _ => trivial)
        rintro _ s₃ _ k buffer ⟨⟩
        exact Nat.min_le_right _ _
      · rintro k buffer ⟨⟩
        exact Nat.min_le_right _ _

/-- A read gives no more than the file has. -/
theorem count_exfatGenericPread (size offset : Nat) (s : FileState δ) :
    wp (exfatGenericPread size offset)
      (fun r _ => ∀ k buffer, r = .ok (k, buffer) → k ≤ s.node.size - offset) anyStop s := by
  unfold exfatGenericPread
  rw [wp_bind, wp_get, if_neg (by omega)]
  simp only [Int.toNat_natCast]
  split
  · rintro k buffer ⟨⟩
    omega
  · split
    · rintro k buffer ⟨⟩
      omega
    · split
      · split
        · rw [wp_bind]
          refine wp_conseq (count_preadValid _ _ s) ?_
          intro r s₁ h₁
          cases r with
          | error e => rintro k buffer ⟨⟩
          | ok r =>
            dsimp only
            split
            · rintro k buffer ⟨⟩
              exact h₁ _ _ rfl
            · rintro k buffer ⟨⟩
              exact Nat.min_le_right _ _
        · rintro k buffer ⟨⟩
          exact Nat.min_le_right _ _
      · exact count_preadValid _ _ s

/-- Entries that could be read lie in the directory, and none is longer than an entry is. -/
theorem inside_readEntries (n offset : Nat) (s : FileState δ) :
    wp (readEntries n offset)
      (fun r _ => ∀ entries, r = .ok entries →
        entrySize * n ≤ s.node.size - offset ∧ entries.length = n ∧
          ∀ e ∈ entries, e.length ≤ entrySize) anyStop s := by
  unfold readEntries
  rw [wp_bind, wp_get]
  split
  · trivial
  · rw [wp_bind]
    refine wp_conseq (count_exfatGenericPread _ _ s) ?_
    intro r s₁ h₁
    cases r with
    | error e => rintro entries ⟨⟩
    | ok r =>
      obtain ⟨k, buffer⟩ := r
      have hk := h₁ k buffer rfl
      dsimp only
      split
      next heq =>
        rintro entries ⟨⟩
        refine ⟨heq ▸ hk, by simp [splitEntries], ?_⟩
        intro e he
        obtain ⟨i, -, rfl⟩ := List.mem_map.mp he
        exact (List.length_take_le _ _)
      · split
        · rintro entries ⟨⟩
        · rintro entries ⟨⟩

/-- Data that ends within a directory is written without resizing it. -/
theorem scanned_exfatGenericPwrite {data : List UInt8} {offset : Nat} {s : FileState δ}
    (hd : s.node.isDir = true) (h : offset + data.length ≤ s.node.size) :
    wp (exfatGenericPwrite data offset) (fun _ s' => s.Scanned s')
      (fun _ s' => s.Scanned s') s := by
  have hrefl := refl_of FileState.Scanned s
  -- the data ends within the file, so nothing is extended
  have hin : u64 (offset + data.length) ≤ s.node.size := (Nat.mod_le _ _).trans h
  unfold exfatGenericPwrite
  rw [wp_bind, wp_get, if_neg (by omega)]
  simp only [Int.toNat_natCast]
  rw [if_neg (by omega)]
  unfold pwriteExtend
  rw [wp_bind, wp_get, if_neg (by omega)]
  unfold pwriteValid
  rw [wp_bind, wp_get]
  split
  · exact hrefl
  · rw [wp_bind]
    refine wp_conseq (keeps_exfatAdvanceCluster (R := FileState.Scanned) _ s) ?_
    intro cluster s₁ h₁
    split
    -- the cached cluster is invalid: the write fails before it begins
    · exact trans_of FileState.Scanned h₁ (WalkRel.report s₁)
    · rw [wp_bind]
      have hloop := keeps_pwriteLoop (R := FileState.Scanned) offset
        (clusterSpan s.ef.sb.clusterSize (offset % s.ef.sb.clusterSize) data.length) cluster
        (offset % s.ef.sb.clusterSize) 0 data s₁
      refine wp_mono hloop ?_ (fun _ _ h => trans_of FileState.Scanned h₁ h)
      intro r s₂ h₂
      have h₁₂ := trans_of FileState.Scanned h₁ h₂
      cases r with
      | error e => exact h₁₂
      -- the mark of a file is not set on a directory
      | ok _ =>
        have hd₂ : s₂.node.isDir = true := by
          rw [h₁₂.node]
          exact hd
        rw [wp_bind, wp_get, if_neg (by rw [hd₂]; simp)]
        exact h₁₂

/-- `write_entries` stays within the file when the entries do. -/
theorem scanned_writeEntries {entries : List Entry} {offset : Nat} {s : FileState δ}
    (h : offset + entries.flatten.length ≤ s.node.size) :
    wp (writeEntries entries offset) (fun _ s' => s.Scanned s') (fun _ s' => s.Scanned s') s := by
  unfold writeEntries
  rw [wp_bind, wp_get]
  split
  · exact refl_of FileState.Scanned s
  next hd =>
    rw [wp_bind]
    refine wp_conseq (scanned_exfatGenericPwrite (by simpa using hd) h) ?_
    intro r s₁ h₁
    cases r with
    | error e => exact h₁
    | ok size =>
      dsimp only
      split
      · exact h₁
      · exact trans_of FileState.Scanned h₁ (WalkRel.report s₁)

/-! ### The set that is written back is no longer than the one that was read -/

/-- Setting a field inside an entry does not make it longer. -/
theorem length_set_le {e : Entry} {off k : Nat} (v : Nat) (he : e.length ≤ entrySize)
    (h : off + k ≤ entrySize) : (Entry.set e off k v).length ≤ entrySize := by
  unfold Entry.set patch
  rw [List.length_append, List.length_append, List.length_take, List.length_drop, length_natLe]
  omega

/-- Setting fields inside an entry does not make it longer. -/
theorem length_setFields_le {e : Entry} {fields : List (Nat × Nat × Nat)}
    (he : e.length ≤ entrySize) (h : ∀ f ∈ fields, f.1 + f.2.1 ≤ entrySize) :
    (Entry.setFields e fields).length ≤ entrySize := by
  unfold Entry.setFields
  induction fields generalizing e with
  | nil => exact he
  | cons f fields ih =>
    refine ih (length_set_le f.2.2 he (h f (by simp))) ?_
    exact fun g hg => h g (List.mem_cons_of_mem _ hg)

/-- Entries have at most 32 bytes each. -/
theorem length_flatten_le {entries : List Entry} (h : ∀ e ∈ entries, e.length ≤ entrySize) :
    entries.flatten.length ≤ entrySize * entries.length := by
  induction entries with
  | nil => simp
  | cons e es ih =>
    have he := h e (by simp)
    have hes := ih fun e he => h e (List.mem_cons_of_mem _ he)
    rw [List.flatten_cons, List.length_append, List.length_cons, Nat.mul_succ]
    omega

/-- The checksum does not make an entry longer. -/
theorem length_sealEntries_le {entries : List Entry} (h : ∀ e ∈ entries, e.length ≤ entrySize) :
    ∀ e ∈ sealEntries entries, e.length ≤ entrySize := by
  cases entries with
  | nil => exact h
  | cons meta1 rest =>
    intro e he
    rcases List.mem_cons.mp he with heq | hmem
    · rw [heq]
      exact length_set_le _ (h meta1 (by simp)) (by decide)
    · exact h e (List.mem_cons_of_mem _ hmem)

/-- The checksum adds no entry. -/
theorem length_sealEntries (entries : List Entry) :
    (sealEntries entries).length = entries.length := by
  cases entries <;> rfl

/-- Flushing the first entry does not make it longer. -/
theorem length_flushMeta1_le (tz : Int) (n : Node) {meta1 : Entry} (h : meta1.length ≤ entrySize) :
    (flushMeta1 tz n meta1).length ≤ entrySize := by
  refine length_setFields_le h ?_
  simp only [List.forall_mem_cons, entrySize]
  simp

/-- Flushing the second entry does not make it longer. -/
theorem length_flushMeta2_le (n : Node) {meta2 : Entry} (h : meta2.length ≤ entrySize) :
    (flushMeta2 n meta2).length ≤ entrySize := by
  refine length_setFields_le h ?_
  simp only [List.forall_mem_cons, entrySize]
  simp

/-- The entries that are flushed have at most 32 bytes each. -/
theorem length_flushedEntries_le (tz : Int) (n : Node) {entries : List Entry}
    (h : ∀ e ∈ entries, e.length ≤ entrySize) :
    (flushedEntries tz n entries).flatten.length ≤ entrySize * entries.length := by
  match entries, h with
  | [], _ => exact Nat.le_refl 0
  | [e], h => exact length_flatten_le h
  | meta1 :: meta2 :: rest, h =>
    have hall : ∀ e ∈ flushMeta1 tz n meta1 :: flushMeta2 n meta2 :: rest,
        e.length ≤ entrySize := by
      intro e he
      rcases List.mem_cons.mp he with heq | he
      · rw [heq]
        exact length_flushMeta1_le tz n (h meta1 (by simp))
      · rcases List.mem_cons.mp he with heq | he
        · rw [heq]
          exact length_flushMeta2_le n (h meta2 (by simp))
        · exact h e (by simp [he])
    have hle := length_flatten_le (length_sealEntries_le hall)
    rw [length_sealEntries] at hle
    simp only [List.length_cons] at hle ⊢
    exact hle

/-! ### Routines on one node of the volume -/

/-- The volume after entries were read or rewritten in the directory `dir`. -/
def Volume.InPlace (t : Volume δ) (dir : NodeId) (t' : Volume δ) : Prop :=
  ∃ d s, t.heap dir = some d ∧ FileState.Scanned ⟨t.ef, d⟩ s ∧ t' = t.store dir s

/-- However it ends, writing back a node changes nothing but its directory's cursor. -/
theorem inPlace_rewriteEntries {dir : NodeId} {d : Node} (n : Node) {t : Volume δ}
    (hd : t.heap dir = some d) :
    wp (rewriteEntries dir n) (fun _ t' => t.InPlace dir t') (fun _ t' => t.InPlace dir t') t := by
  unfold rewriteEntries
  rw [wp_bind, wp_onNode hd]
  -- the entries read lie within the directory, as many as were asked for
  have hread := wp_and (scanned_readEntries (1 + n.continuations) n.entryOffset ⟨t.ef, d⟩)
    (inside_readEntries (1 + n.continuations) n.entryOffset ⟨t.ef, d⟩)
  refine wp_mono hread ?_ (fun _ s h => ⟨d, s, hd, h.1, rfl⟩)
  rintro r s₁ ⟨h₁, hin⟩
  cases r with
  | error e => exact ⟨d, s₁, hd, h₁, rfl⟩
  | ok entries =>
    obtain ⟨hsize, hlen, hle⟩ := hin entries rfl
    dsimp only
    unfold onVolume checkEntries
    rw [wp_bind, wp_zoom]
    split
    · -- the set is accepted
      rw [wp_pure, if_neg (by simp), wp_bind, wp_get, wp_onNode (store_heap_self t dir s₁)]
      have hsz : s₁.node.size = d.size := by rw [h₁.node]
      have hfit : n.entryOffset +
          (flushedEntries s₁.ef.timezone n entries).flatten.length ≤ s₁.node.size := by
        have := length_flushedEntries_le s₁.ef.timezone n hle
        simp only [entrySize] at *
        rw [hlen] at this
        -- the rewritten set is no longer than the one that was read
        omega
      refine wp_mono (scanned_writeEntries hfit) ?_ ?_
      · intro r s₂ h₂
        exact ⟨d, s₂, hd, trans_of FileState.Scanned h₁ h₂, store_store t dir s₁ s₂⟩
      · intro r s₂ h₂
        exact ⟨d, s₂, hd, trans_of FileState.Scanned h₁ h₂, store_store t dir s₁ s₂⟩
    -- the set is refused: the call fails without a write
    · simp only [wp_bind, exfatError, wp_modify, wp_pure]
      rw [if_pos (by simp), wp_pure]
      exact ⟨d, _, hd, trans_of FileState.Scanned h₁ (WalkRel.report s₁), rfl⟩

/-- Rewriting entries that returns has changed the device and the directory at most. -/
theorem inPlace_of_run {dir : NodeId} {d n : Node} {t t₁ : Volume δ} {r : Rc}
    (hd : t.heap dir = some d) (h : rewriteEntries dir n t = .ok r t₁) : t.InPlace dir t₁ := by
  have hwp := inPlace_rewriteEntries n hd
  unfold wp at hwp
  rwa [h] at hwp

/-! ### What a write-back leaves alone -/

/-- The node without what a write-back changes. -/
def Node.still (n : Node) : Node :=
  { n with fptrIndex := 0, fptrCluster := 0, validSize := 0, isDirty := false }

/-- Nodes that are still alike have the same links and names. -/
theorem Node.still_eq {n n' : Node} (h : n'.still = n.still) :
    n'.parent = n.parent ∧ n'.child = n.child ∧ n'.references = n.references ∧
    n'.name = n.name := by
  have hp := congrArg Node.parent h
  have hc := congrArg Node.child h
  have hr := congrArg Node.references h
  have hn := congrArg Node.name h
  exact ⟨hp, hc, hr, hn⟩

/-- The volume is the same but for the device, the flags, the cursors and the counters. -/
structure Volume.SameTree (t t' : Volume δ) : Prop where
  root : t'.root = t.root
  fresh : t'.fresh = t.fresh
  ef : t'.ef = { t.ef with
    dev := t'.ef.dev, errors := t'.ef.errors
    cmap := { t.ef.cmap with dirty := t'.ef.cmap.dirty } }
  heap : ∀ i, (t'.heap i).map Node.still = (t.heap i).map Node.still

/-- The flag `is_dirty` of a node. -/
def Volume.dirty (t : Volume δ) (i : NodeId) : Bool := ((t.heap i).map Node.isDirty).getD false

/-- The links of the nodes in memory. -/
def Volume.link (t : Volume δ) (i : NodeId) : Option (Option NodeId × List NodeId) :=
  (t.heap i).map fun n => (n.parent, n.child)

/-- The pointers that join the children of a directory. -/
def Volume.pointers (t : Volume δ) (i : NodeId) :
    Option (Option NodeId × Option NodeId × Option NodeId) :=
  (t.heap i).map fun n => (n.first, n.next, n.prev)

namespace Volume.SameTree

omit [Device δ]

variable {t t' t'' : Volume δ}

/-- The tree is the same. -/
theorem refl (t : Volume δ) : t.SameTree t := ⟨rfl, rfl, rfl, fun _ => rfl⟩

/-- A tree that stays the same twice is the same. -/
theorem trans (h : t.SameTree t') (h' : t'.SameTree t'') : t.SameTree t'' := by
  refine ⟨h'.root.trans h.root, h'.fresh.trans h.fresh, ?_, fun i => (h'.heap i).trans (h.heap i)⟩
  rw [h'.ef, h.ef]

/-- A node is still there, with what is not touched. -/
theorem get (h : t.SameTree t') {i : NodeId} {n : Node} (hi : t.heap i = some n) :
    ∃ n', t'.heap i = some n' ∧ n'.still = n.still := by
  have hheap := h.heap i
  rw [hi] at hheap
  cases ht : t'.heap i with
  | none =>
    rw [ht] at hheap
    cases hheap
  | some n' =>
    rw [ht] at hheap
    exact ⟨n', rfl, Option.some.inj hheap⟩

/-- The links are the same. -/
theorem link (h : t.SameTree t') (i : NodeId) : t'.link i = t.link i := by
  have hheap := congrArg (Option.map fun n : Node => (n.parent, n.child)) (h.heap i)
  simpa only [Volume.link, Option.map_map, Function.comp_def, Node.still] using hheap

/-- The pointers are the same. -/
theorem pointers (h : t.SameTree t') (i : NodeId) : t'.pointers i = t.pointers i := by
  have hheap := congrArg (Option.map fun n : Node => (n.first, n.next, n.prev)) (h.heap i)
  simpa only [Volume.pointers, Option.map_map, Function.comp_def, Node.still] using hheap

/-- The volume is as read-only as it was. -/
theorem ro (h : t.SameTree t') : t'.ef.ro = t.ef.ro := by rw [h.ef]

/-- The bitmap is where it was. -/
theorem bitmapStart (h : t.SameTree t') : t'.ef.cmap.startCluster = t.ef.cmap.startCluster := by
  rw [h.ef]

end Volume.SameTree

omit [Device δ] in
/-- Whether a node in memory is dirty. -/
theorem dirty_of_heap {t : Volume δ} {i : NodeId} {n : Node} (h : t.heap i = some n) :
    t.dirty i = n.isDirty := by
  unfold Volume.dirty
  rw [h]
  rfl

section InPlace

variable {t t' : Volume δ} {dir : NodeId}

/-- Work on the directory leaves the tree alone. -/
theorem Volume.InPlace.sameTree (h : t.InPlace dir t') : t.SameTree t' := by
  obtain ⟨d, s, hd, hs, rfl⟩ := h
  refine ⟨rfl, rfl, ?_, ?_⟩
  · have hcmap : s.ef.cmap = t.ef.cmap := by rw [hs.ef]
    show s.ef = { t.ef with
      dev := s.ef.dev, errors := s.ef.errors, cmap := { t.ef.cmap with dirty := s.ef.cmap.dirty } }
    rw [hcmap]
    exact hs.ef
  · intro i
    by_cases hi : i = dir
    · rw [hi, store_heap_self, hd, hs.node]
      rfl
    · rw [store_heap_of_ne s hi]

/-- Work on the directory dirties no node. -/
theorem Volume.InPlace.dirty (h : t.InPlace dir t') (i : NodeId) : t'.dirty i = t.dirty i := by
  obtain ⟨d, s, hd, hs, rfl⟩ := h
  by_cases hi : i = dir
  · rw [hi, dirty_of_heap hd, dirty_of_heap (store_heap_self t dir s), hs.node]
  · unfold Volume.dirty
    rw [store_heap_of_ne s hi]

/-- Work on the directory leaves the bitmap alone. -/
theorem Volume.InPlace.cmap (h : t.InPlace dir t') : t'.ef.cmap = t.ef.cmap := by
  obtain ⟨d, s, hd, hs, rfl⟩ := h
  show s.ef.cmap = _
  rw [hs.ef]

end InPlace

/-! ### The bitmap -/

/-- The bytes of the bitmap as `exfat_flush` writes them. -/
def bitmapBytes (ef : Ef δ) : List UInt8 :=
  (List.range (bmapSize ef.wordBits ef.cmap.chunkSize)).map (chunkByte ef.cmap.chunk)

/-- The write `exfat_flush` makes of a dirty bitmap. -/
def bitmapWrite (ef : Ef δ) : Option Nat × δ :=
  Device.pwrite (bitmapBytes ef) (clusterOffset ef.sb ef.cmap.startCluster) ef.dev

/-- A clean bitmap is not written. -/
theorem exfatFlush_clean {ef : Ef δ} (h : ef.cmap.dirty = false) :
    exfatFlush ef = .ok (.ok ()) ef := by
  unfold exfatFlush
  rw [run_bind_ok (run_get ef), h]
  rfl

/-- A dirty bitmap whose first cluster is none of the heap is never written. -/
theorem exfatFlush_bug {ef : Ef δ} (h : ef.cmap.dirty = true) (hs : ef.cmap.startCluster < 2) :
    exfatFlush ef = .error (.bug "invalid cluster number") ef := by
  unfold exfatFlush exfatC2o
  rw [run_bind_ok (run_get ef), h, if_pos rfl]
  refine run_bind_error ?_
  rw [run_bind_ok (run_get ef), if_pos (show _ < firstDataCluster from hs)]
  rfl

/-- A dirty bitmap is written. -/
theorem exfatFlush_write {ef : Ef δ} (h : ef.cmap.dirty = true) (hs : 2 ≤ ef.cmap.startCluster) :
    exfatFlush ef =
      match (bitmapWrite ef).1 with
      | none => .ok (.error .eio) { ef with dev := (bitmapWrite ef).2, errors := ef.errors + 1 }
      | some _ => .ok (.ok ()) { ef with
          dev := (bitmapWrite ef).2, cmap := { ef.cmap with dirty := false } } := by
  have hoff : exfatC2o ef.cmap.startCluster ef =
      .ok (clusterOffset ef.sb ef.cmap.startCluster) ef := by
    unfold exfatC2o
    rw [run_bind_ok (run_get ef), if_neg (by unfold firstDataCluster; omega)]
    rfl
  unfold exfatFlush
  rw [run_bind_ok (run_get ef), h, if_pos rfl, run_bind_ok hoff]
  have hwrite : exfatPwrite (bitmapBytes ef) (clusterOffset ef.sb ef.cmap.startCluster) ef =
      .ok (bitmapWrite ef).1 { ef with dev := (bitmapWrite ef).2 } := rfl
  unfold bitmapBytes at hwrite
  rw [run_bind_ok hwrite]
  cases (bitmapWrite ef).1 <;> rfl

/-- `exfat_flush` returns unless it is asked to write a bitmap that starts nowhere; it then has
cleared the flag or failed, and has touched nothing else. -/
theorem exfatFlush_ok {ef ef' : Ef δ} {r : Rc} (h : exfatFlush ef = .ok r ef') :
    ef' = { ef with
      dev := ef'.dev, errors := ef'.errors, cmap := { ef.cmap with dirty := ef'.cmap.dirty } } ∧
    (ef.cmap.dirty = true → 2 ≤ ef.cmap.startCluster) ∧
    (ef'.cmap.dirty = true → ef.cmap.dirty = true) ∧ (r = .ok () ↔ ef'.cmap.dirty = false) := by
  cases hd : ef.cmap.dirty with
  | false =>
    rw [exfatFlush_clean hd] at h
    cases h
    exact ⟨rfl, by simp, by simp [hd], by simp [hd]⟩
  | true =>
    by_cases hs : ef.cmap.startCluster < 2
    · rw [exfatFlush_bug hd hs] at h
      cases h
    · rw [exfatFlush_write hd (by omega)] at h
      cases hw : (bitmapWrite ef).1 with
      | none =>
        rw [hw] at h
        cases h
        exact ⟨rfl, fun _ => by omega, fun _ => rfl, by simp [hd]⟩
      | some k =>
        rw [hw] at h
        cases h
        exact ⟨rfl, fun _ => by omega, fun _ => rfl, by simp⟩

/-- With a bitmap that starts in the heap `exfat_flush` returns. -/
theorem exfatFlush_returns {ef : Ef δ} (h : ef.cmap.dirty = true → 2 ≤ ef.cmap.startCluster) :
    ∃ r ef', exfatFlush ef = .ok r ef' := by
  cases hd : ef.cmap.dirty with
  | false => exact ⟨_, _, exfatFlush_clean hd⟩
  | true =>
    rw [exfatFlush_write hd (h hd)]
    cases (bitmapWrite ef).1 with
    | none => exact ⟨_, _, rfl⟩
    | some k => exact ⟨_, _, rfl⟩

/-! ### One node -/

section Run

omit [Device δ]

variable {t : Volume δ} {i : NodeId} {n : Node}

/-- A routine on the volume that returns. -/
theorem run_onVolume_ok {α : Type} {m : EfM δ α} {a : α} {ef : Ef δ} (h : m t.ef = .ok a ef) :
    onVolume m t = .ok a { t with ef := ef } := run_zoom_ok h

/-- A routine on the volume that stops. -/
theorem run_onVolume_error {α : Type} {m : EfM δ α} {e : Halt} {ef : Ef δ}
    (h : m t.ef = .error e ef) : onVolume m t = .error e { t with ef := ef } := run_zoom_error h

/-- A routine on the volume that returned. -/
theorem run_onVolume_eq_ok {α : Type} {m : EfM δ α} {a : α} {t' : Volume δ}
    (h : onVolume m t = .ok a t') : ∃ ef, m t.ef = .ok a ef ∧ t' = { t with ef := ef } := by
  cases hm : m t.ef with
  | ok a' ef =>
    rw [run_onVolume_ok hm] at h
    cases h
    exact ⟨ef, rfl, rfl⟩
  | error e ef =>
    rw [run_onVolume_error hm] at h
    cases h

end Run

/-- The end of `exfat_flush_node`: the flag of the node is cleared and the bitmap written. -/
def settle (i : NodeId) : TreeM δ Rc := do
  updateNode i fun n => { n with isDirty := false }
  onVolume exfatFlush

section FlushNode

variable {t : Volume δ} {i : NodeId} {n : Node}

/-- A clean node is not flushed. -/
theorem exfatFlushNode_clean (h : t.heap i = some n) (hc : n.isDirty = false) :
    exfatFlushNode i t = .ok (.ok ()) t := by
  unfold exfatFlushNode
  rw [run_bind_ok (run_getNode h), run_bind_ok (run_get t), if_pos (by rw [hc]; rfl)]
  rfl

/-- A dirty node on a read-only volume stops the program. -/
theorem exfatFlushNode_ro (h : t.heap i = some n) (hd : n.isDirty = true) (hro : t.ef.ro = true) :
    exfatFlushNode i t = .error (.bug "unable to flush node to read-only FS") t := by
  unfold exfatFlushNode
  rw [run_bind_ok (run_getNode h), run_bind_ok (run_get t), if_neg (by rw [hd]; simp), if_pos hro]
  rfl

/-- The root directory is not flushed. -/
theorem exfatFlushNode_root (h : t.heap i = some n) (hro : t.ef.ro = false)
    (hp : n.parent = none) : exfatFlushNode i t = .ok (.ok ()) t := by
  cases hd : n.isDirty with
  | false => exact exfatFlushNode_clean h hd
  | true =>
    unfold exfatFlushNode
    rw [run_bind_ok (run_getNode h), run_bind_ok (run_get t), if_neg (by rw [hd]; simp),
      if_neg (by rw [hro]; simp), hp]
    rfl

/-- A dirty node below a directory: its set is rewritten, and then the rest is settled. -/
theorem exfatFlushNode_dirty {dir : NodeId} (h : t.heap i = some n) (hd : n.isDirty = true)
    (hro : t.ef.ro = false) (hp : n.parent = some dir) :
    exfatFlushNode i t =
      match rewriteEntries dir n t with
      | .error e t₁ => .error e t₁
      | .ok (.error e) t₁ => .ok (.error e) t₁
      | .ok (.ok _) t₁ => settle i t₁ := by
  unfold exfatFlushNode
  rw [run_bind_ok (run_getNode h), run_bind_ok (run_get t), if_neg (by rw [hd]; simp),
    if_neg (by rw [hro]; simp), hp]
  dsimp only
  rw [run_bind]
  cases rewriteEntries dir n t with
  | error e t₁ => rfl
  | ok r t₁ => cases r <;> rfl

end FlushNode

/-- The volume once a node is saved: its flag is cleared, and that of the bitmap unless writing it
has failed. -/
structure Settled (t : Volume δ) (i : NodeId) (r : Rc) (t' : Volume δ) : Prop where
  same : t.SameTree t'
  flags : ∀ j, t'.dirty j = if j = i then false else t.dirty j
  start : t.ef.cmap.dirty = true → 2 ≤ t.ef.cmap.startCluster
  was : t'.ef.cmap.dirty = true → t.ef.cmap.dirty = true
  clean : r = .ok () ↔ t'.ef.cmap.dirty = false

/-- A node whose flush returns is settled. -/
theorem settle_ok {t t' : Volume δ} {i : NodeId} {n : Node} {r : Rc} (h : t.heap i = some n)
    (hrun : settle i t = .ok r t') : Settled t i r t' := by
  unfold settle at hrun
  rw [run_bind_ok (run_updateNode h _)] at hrun
  cases hflush : exfatFlush t.ef with
  | error e ef =>
    rw [run_onVolume_error (t := t.store i ⟨t.ef, _⟩) hflush] at hrun
    cases hrun
  | ok r' ef =>
    rw [run_onVolume_ok (t := t.store i ⟨t.ef, _⟩) hflush] at hrun
    cases hrun
    obtain ⟨hframe, hstart, hwas, hclean⟩ := exfatFlush_ok hflush
    refine ⟨⟨rfl, rfl, hframe, ?_⟩, ?_, hstart, hwas, hclean⟩
    · intro j
      by_cases hj : j = i
      · rw [hj, h]
        show Option.map Node.still ((t.store i _).heap i) = _
        rw [store_heap_self]
        rfl
      · show Option.map Node.still ((t.store i _).heap j) = _
        rw [store_heap_of_ne _ hj]
    · intro j
      by_cases hj : j = i
      · rw [if_pos hj, hj]
        exact dirty_of_heap (store_heap_self t i _)
      · rw [if_neg hj]
        show (Option.map Node.isDirty ((t.store i _).heap j)).getD false = _
        rw [store_heap_of_ne _ hj]
        rfl

/-! ### One node after the other -/

/-- The sets of the nodes are rewritten one after the other, and the bitmap with each of them; only
behind the last may writing the bitmap fail. -/
def SavedTo : List NodeId → Volume δ → Volume δ → Prop
  | [], t, t' => t' = t
  | i :: is, t, t' => ∃ n dir t₁ r t₂, t.heap i = some n ∧ n.parent = some dir ∧
      rewriteEntries dir n t = .ok (.ok ()) t₁ ∧ settle i t₁ = .ok r t₂ ∧
      ((r = .ok () ∧ SavedTo is t₂ t') ∨ (r ≠ .ok () ∧ is = [] ∧ t' = t₂))

/-- The nodes of a list hang below nodes of the volume. -/
def Hanging (t : Volume δ) (l : List NodeId) : Prop :=
  ∀ i ∈ l, ∃ n dir d, t.heap i = some n ∧ n.parent = some dir ∧ t.heap dir = some d

omit [Device δ] in
/-- The nodes hang in the same tree. -/
theorem Hanging.sameTree {t t' : Volume δ} {l : List NodeId} (h : Hanging t l)
    (hs : t.SameTree t') : Hanging t' l := by
  intro i hi
  obtain ⟨n, dir, d, hn, hp, hd⟩ := h i hi
  obtain ⟨n', hn', hstill⟩ := hs.get hn
  obtain ⟨d', hd', -⟩ := hs.get hd
  exact ⟨n', dir, d', hn', (Node.still_eq hstill).1.trans hp, hd'⟩

/-- One node of a list that is flushed: its set is rewritten and the rest settled. -/
theorem saved_step {t t₁ t₂ : Volume δ} {i dir : NodeId} {n d : Node} {r : Rc}
    (hi : t.heap i = some n) (hd : t.heap dir = some d)
    (hrw : rewriteEntries dir n t = .ok (.ok ()) t₁) (hset : settle i t₁ = .ok r t₂) :
    Settled t i r t₂ := by
  have hplace := inPlace_of_run hd hrw
  obtain ⟨n₁, hn₁, -⟩ := hplace.sameTree.get hi
  have hs := settle_ok hn₁ hset
  refine ⟨hplace.sameTree.trans hs.same, ?_, ?_, ?_, hs.clean⟩
  · intro j
    rw [hs.flags j, hplace.dirty j]
  · rw [← hplace.cmap]
    exact hs.start
  · rw [← hplace.cmap]
    exact hs.was

/-- Saving the nodes makes no clean bitmap dirty. -/
theorem SavedTo.was {l : List NodeId} {t t' : Volume δ} (hl : Hanging t l) (hs : SavedTo l t t')
    (hd : t'.ef.cmap.dirty = true) : t.ef.cmap.dirty = true := by
  induction l generalizing t with
  | nil =>
    obtain rfl : t' = t := hs
    exact hd
  | cons i is ih =>
    obtain ⟨n, dir, d, hi, hp, hdir⟩ := hl i (by simp)
    obtain ⟨n', dir', t₁, r, t₂, hi', hp', hrw, hset, hrest⟩ := hs
    obtain rfl : n = n' := Option.some.inj (hi.symm.trans hi')
    obtain rfl : dir = dir' := Option.some.inj (hp.symm.trans hp')
    have hstep := saved_step hi hdir hrw hset
    have hl' : Hanging t is := fun j hj => hl j (List.mem_cons_of_mem _ hj)
    rcases hrest with ⟨-, hrest⟩ | ⟨-, -, rfl⟩
    · exact hstep.was (ih (hl'.sameTree hstep.same) hrest)
    · exact hstep.was hd

/-- A bitmap that is written while the nodes are saved, or after it, starts in the heap. -/
theorem SavedTo.start {l : List NodeId} {t t' : Volume δ} {r : Rc} {ef : Ef δ}
    (hl : Hanging t l) (hs : SavedTo l t t') (hflush : exfatFlush t'.ef = .ok r ef) :
    t.ef.cmap.dirty = true → 2 ≤ t.ef.cmap.startCluster := by
  cases l with
  | nil =>
    obtain rfl : t' = t := hs
    exact (exfatFlush_ok hflush).2.1
  | cons i is =>
    obtain ⟨n, dir, d, hi, hp, hd⟩ := hl i (by simp)
    obtain ⟨n', dir', t₂, r₂, t₃, hi', hp', hrw, hset, -⟩ := hs
    obtain rfl : n = n' := Option.some.inj (hi.symm.trans hi')
    obtain rfl : dir = dir' := Option.some.inj (hp.symm.trans hp')
    exact (saved_step hi hd hrw hset).start

omit [Device δ] in
/-- The loop flushes the first node before the others. -/
theorem run_untilError_cons (f : NodeId → TreeM δ Rc) (i : NodeId) (is : List NodeId)
    (t : Volume δ) :
    untilError f (i :: is) t =
      match f i t with
      | .error e t₁ => .error e t₁
      | .ok (.error e) t₁ => .ok (.error e) t₁
      | .ok (.ok _) t₁ => untilError f is t₁ := by
  show (f i >>= _) t = _
  rw [run_bind]
  cases f i t with
  | error e t₁ => rfl
  | ok r t₁ => cases r <;> rfl

omit [Device δ] in
/-- The other nodes are as dirty as they were. -/
theorem filter_dirty_congr {t t' : Volume δ} {i : NodeId} {l : List NodeId} (hi : i ∉ l)
    (h : ∀ j, t'.dirty j = if j = i then false else t.dirty j) :
    l.filter t'.dirty = l.filter t.dirty := by
  apply List.filter_congr
  intro j hj
  rw [h j, if_neg fun heq : j = i => hi (heq ▸ hj)]

section List

variable {l : List NodeId}

/-- A flush after which none of the nodes is dirty has rewritten the dirty ones in turn. -/
theorem savedTo_of_untilError {t t' : Volume δ} {r : Rc} (hl : Hanging t l) (hnd : l.Nodup)
    (hro : t.ef.ro = false) (hrun : untilError exfatFlushNode l t = .ok r t')
    (hclean : ∀ i ∈ l, t'.dirty i = false) : SavedTo (l.filter t.dirty) t t' := by
  -- On the nodes.  The tree is the same after each step, so the others still hang in it.
  induction l generalizing t with
  | nil =>
    cases hrun
    rfl
  | cons i is ih =>
    obtain ⟨hnot, hnd'⟩ := List.nodup_cons.mp hnd
    obtain ⟨n, dir, d, hi, hp, hd⟩ := hl i (by simp)
    have hl' : Hanging t is := fun j hj => hl j (List.mem_cons_of_mem _ hj)
    have hclean' : ∀ j ∈ is, t'.dirty j = false := fun j hj => hclean j (List.mem_cons_of_mem _ hj)
    rw [run_untilError_cons] at hrun
    -- A clean node is passed by.
    cases hdirty : n.isDirty with
    | false =>
      rw [exfatFlushNode_clean hi hdirty] at hrun
      rw [List.filter_cons_of_neg (by rw [dirty_of_heap hi, hdirty]; simp)]
      exact ih hl' hnd' hro hrun hclean'
    | true =>
      rw [List.filter_cons_of_pos (by rw [dirty_of_heap hi, hdirty])]
      rw [exfatFlushNode_dirty hi hdirty hro hp] at hrun
      -- the rewriting stops the program, fails, or the mark is cleared
      cases hrw : rewriteEntries dir n t with
      | error e t₁ =>
        rw [hrw] at hrun
        cases hrun
      | ok r₁ t₁ =>
        rw [hrw] at hrun
        cases r₁ with
        | error e =>
          -- the node keeps its flag
          cases hrun
          have := hclean i (by simp)
          rw [(inPlace_of_run hd hrw).dirty i, dirty_of_heap hi, hdirty] at this
          cases this
        | ok _ =>
          cases hset : settle i t₁ with
          | error e t₂ =>
            simp only [hset] at hrun
            cases hrun
          | ok r₂ t₂ =>
            simp only [hset] at hrun
            have hstep := saved_step hi hd hrw hset
            refine ⟨n, dir, t₁, r₂, t₂, hi, hp, hrw, hset, ?_⟩
            cases r₂ with
            | error e =>
              cases hrun
              refine .inr ⟨by simp, ?_, rfl⟩
              rw [← filter_dirty_congr hnot hstep.flags]
              -- the call failed at its end, and nothing dirty is left behind it
              exact List.filter_eq_nil_iff.mpr fun j hj => by rw [hclean' j hj]; simp
            | ok _ =>
              refine .inl ⟨rfl, ?_⟩
              rw [← filter_dirty_congr hnot hstep.flags]
              exact ih (hl'.sameTree hstep.same) hnd' (hstep.same.ro.trans hro) hrun hclean'

/-- If the dirty nodes can be rewritten in turn, the flush does it, and none stays dirty. -/
theorem untilError_of_savedTo {t t' : Volume δ} (hl : Hanging t l) (hnd : l.Nodup)
    (hro : t.ef.ro = false) (hs : SavedTo (l.filter t.dirty) t t') :
    (∃ r, untilError exfatFlushNode l t = .ok r t') ∧ t.SameTree t' ∧
      ∀ j, t'.dirty j = if j ∈ l then false else t.dirty j := by
  -- On the nodes, as above: the flush does step by step what `SavedTo` says.
  induction l generalizing t with
  | nil =>
    cases hs
    exact ⟨⟨_, rfl⟩, .refl _, fun j => by simp⟩
  | cons i is ih =>
    obtain ⟨hnot, hnd'⟩ := List.nodup_cons.mp hnd
    obtain ⟨n, dir, d, hi, hp, hd⟩ := hl i (by simp)
    have hl' : Hanging t is := fun j hj => hl j (List.mem_cons_of_mem _ hj)
    rw [run_untilError_cons]
    -- a clean node is passed by
    cases hdirty : n.isDirty with
    | false =>
      have hti : t.dirty i = false := by rw [dirty_of_heap hi, hdirty]
      rw [List.filter_cons_of_neg (by rw [hti]; simp)] at hs
      rw [exfatFlushNode_clean hi hdirty]
      obtain ⟨hrun, hsame, hflags⟩ := ih hl' hnd' hro hs
      refine ⟨hrun, hsame, fun j => ?_⟩
      rw [hflags j]
      by_cases hj : j = i
      · simp [hj, hnot, hti]
      · simp [hj]
    | true =>
      rw [List.filter_cons_of_pos (by rw [dirty_of_heap hi, hdirty])] at hs
      obtain ⟨n', dir', t₁, r, t₂, hi', hp', hrw, hset, hrest⟩ := hs
      obtain rfl : n = n' := Option.some.inj (hi.symm.trans hi')
      obtain rfl : dir = dir' := Option.some.inj (hp.symm.trans hp')
      have hstep := saved_step hi hd hrw hset
      rw [exfatFlushNode_dirty hi hdirty hro hp, hrw]
      simp only [hset]
      -- the flush goes on, or it ends with this node
      rcases hrest with ⟨rfl, hrest⟩ | ⟨hr, hnil, rfl⟩
      · rw [← filter_dirty_congr hnot hstep.flags] at hrest
        obtain ⟨hrun, hsame', hflags'⟩ :=
          ih (hl'.sameTree hstep.same) hnd' (hstep.same.ro.trans hro) hrest
        refine ⟨hrun, hstep.same.trans hsame', fun j => ?_⟩
        rw [hflags' j, hstep.flags j]
        by_cases hj : j = i
        · simp [hj]
        · simp [hj]
      · cases r with
        | ok _ => exact absurd rfl hr
        | error e =>
          refine ⟨⟨_, rfl⟩, hstep.same, fun j => ?_⟩
          rw [hstep.flags j]
          by_cases hj : j = i
          · simp [hj]
          · by_cases hjis : j ∈ is
            · simp [hj, hjis, List.filter_eq_nil_iff.mp hnil j hjis]
            · simp [hj, hjis]

/-- On a read-only volume a flush returns only if there is nothing to flush. -/
theorem untilError_ro {t : Volume δ} (hl : ∀ i ∈ l, ∃ n, t.heap i = some n)
    (hro : t.ef.ro = true) :
    (∃ r t', untilError exfatFlushNode l t = .ok r t') ↔ ∀ i ∈ l, t.dirty i = false := by
  induction l with
  | nil => exact ⟨fun _ i hi => absurd hi (List.not_mem_nil), fun _ => ⟨_, _, rfl⟩⟩
  | cons i is ih =>
    obtain ⟨n, hi⟩ := hl i (by simp)
    have ih' := ih fun j hj => hl j (List.mem_cons_of_mem _ hj)
    rw [List.forall_mem_cons, dirty_of_heap hi, run_untilError_cons]
    cases hdirty : n.isDirty with
    | false =>
      rw [exfatFlushNode_clean hi hdirty]
      simpa using ih'
    | true =>
      rw [exfatFlushNode_ro hi hdirty hro]
      simp

/-- A loop over clean nodes does nothing. -/
theorem untilError_clean {t : Volume δ} (hl : ∀ i ∈ l, ∃ n, t.heap i = some n)
    (hclean : ∀ i ∈ l, t.dirty i = false) : untilError exfatFlushNode l t = .ok (.ok ()) t := by
  induction l with
  | nil => rfl
  | cons i is ih =>
    obtain ⟨n, hi⟩ := hl i (by simp)
    have hc := hclean i (by simp)
    rw [dirty_of_heap hi] at hc
    rw [run_untilError_cons, exfatFlushNode_clean hi hc]
    exact ih (fun j hj => hl j (List.mem_cons_of_mem _ hj))
      (fun j hj => hclean j (List.mem_cons_of_mem _ hj))

end List

/-! ### The whole tree -/

omit [Device δ] in
/-- A loop over two lists is two loops. -/
theorem run_untilError_append (f : NodeId → TreeM δ Rc) (l l' : List NodeId) (t : Volume δ) :
    untilError f (l ++ l') t =
      match untilError f l t with
      | .error e t₁ => .error e t₁
      | .ok (.error e) t₁ => .ok (.error e) t₁
      | .ok (.ok _) t₁ => untilError f l' t₁ := by
  induction l generalizing t with
  | nil => rfl
  | cons i is ih =>
    rw [List.cons_append, run_untilError_cons, run_untilError_cons]
    cases f i t with
    | error e t₁ => rfl
    | ok r t₁ =>
      cases r with
      | error e => rfl
      | ok _ => exact ih t₁

/-- `exfat_flush_node` leaves the tree alone. -/
theorem sameTree_exfatFlushNode {i : NodeId} {t t' : Volume δ} {r : Rc}
    (h : exfatFlushNode i t = .ok r t') : t.SameTree t' := by
  -- Nothing is rewritten unless the node is there, dirty, and in a directory.
  cases hi : t.heap i with
  | none =>
    have hget : getNode i t = .error .fault t := by
      unfold getNode
      simp only [hi]
    unfold exfatFlushNode at h
    rw [run_bind_error hget] at h
    cases h
  | some n =>
    cases hdirty : n.isDirty with
    | false =>
      rw [exfatFlushNode_clean hi hdirty] at h
      cases h
      exact .refl t
    | true =>
      cases hro : t.ef.ro with
      | true =>
        rw [exfatFlushNode_ro hi hdirty hro] at h
        cases h
      | false =>
        cases hp : n.parent with
        | none =>
          rw [exfatFlushNode_root hi hro hp] at h
          cases h
          exact .refl t
        | some dir =>
          rw [exfatFlushNode_dirty hi hdirty hro hp] at h
          cases hrw : rewriteEntries dir n t with
          | error e t₁ =>
            rw [hrw] at h
            cases h
          | ok r₁ t₁ =>
            have hd : ∃ d, t.heap dir = some d := by
              -- a parent that is not in memory stops the program
              cases hd : t.heap dir with
              | some d => exact ⟨d, rfl⟩
              | none =>
                have hno : onNode dir (readEntries (1 + n.continuations) n.entryOffset) t =
                    .error .fault t := by
                  unfold onNode
                  simp only [hd]
                unfold rewriteEntries at hrw
                rw [run_bind_error hno] at hrw
                cases hrw
            obtain ⟨d, hd⟩ := hd
            have hplace := inPlace_of_run hd hrw
            rw [hrw] at h
            cases r₁ with
            | error e =>
              cases h
              exact hplace.sameTree
            | ok _ => exact (saved_step hi hd hrw h).same

/-- A loop over nodes leaves the tree alone. -/
theorem sameTree_untilError {l : List NodeId} {t t' : Volume δ} {r : Rc}
    (h : untilError exfatFlushNode l t = .ok r t') : t.SameTree t' := by
  induction l generalizing t with
  | nil =>
    cases h
    exact .refl _
  | cons i is ih =>
    rw [run_untilError_cons] at h
    cases hf : exfatFlushNode i t with
    | error e t₁ =>
      rw [hf] at h
      cases h
    | ok r₁ t₁ =>
      rw [hf] at h
      have hstep := sameTree_exfatFlushNode hf
      cases r₁ with
      | error e =>
        cases h
        exact hstep
      | ok _ => exact hstep.trans (ih h)

/-- `flush_nodes` flushes the children before the node. -/
theorem run_flushNodes {i : NodeId} {n : Node} {t : Volume δ} (hi : t.heap i = some n)
    (fuel : Nat) :
    flushNodes (fuel + 1) i t =
      match untilError (flushNodes fuel) n.child t with
      | .error e t₁ => .error e t₁
      | .ok (.error e) t₁ => .ok (.error e) t₁
      | .ok (.ok _) t₁ => exfatFlushNode i t₁ := by
  show (getNode i >>= _) t = _
  rw [run_bind_ok (run_getNode hi), run_bind]
  cases untilError (flushNodes fuel) n.child t with
  | error e t₁ => rfl
  | ok r t₁ => cases r <;> rfl

/-- `flush_nodes` goes through the trees below a node in post-order. -/
theorem flushNodes_postOrder {f : Forest NodeId} {fuel : Nat} {p : NodeId} {t : Volume δ}
    (hf : f.Fits t.link p) (hfuel : f.postOrder.length ≤ fuel) :
    untilError (flushNodes fuel) f.roots t = untilError exfatFlushNode f.postOrder t := by
  -- On the forest: below a node first, then the node, then its siblings.
  induction f generalizing fuel p t with
  | nil => rfl
  | cons i below after ihb iha =>
    obtain ⟨hlink, hb, ha⟩ := hf
    simp only [Forest.postOrder, List.length_append, List.length_cons] at hfuel
    obtain ⟨k, rfl⟩ : ∃ k, fuel = k + 1 := ⟨fuel - 1, by omega⟩
    obtain ⟨n, hi, hn⟩ : ∃ n, t.heap i = some n ∧ (n.parent, n.child) = (some p, below.roots) := by
      unfold Volume.link at hlink
      cases hi : t.heap i with
      | none =>
        rw [hi] at hlink
        cases hlink
      | some n =>
        rw [hi] at hlink
        exact ⟨n, rfl, Option.some.inj hlink⟩
    have hchild : n.child = below.roots := congrArg Prod.snd hn
    rw [Forest.roots, Forest.postOrder, run_untilError_cons, run_untilError_append,
      run_flushNodes hi, hchild, ihb hb (by omega)]
    -- an error ends both loops at the same node
    cases hrun : untilError exfatFlushNode below.postOrder t with
    | error e t₁ => rfl
    | ok r t₁ =>
      cases r with
      | error e => rfl
      | ok _ =>
        dsimp only
        rw [run_untilError_cons]
        cases hflush : exfatFlushNode i t₁ with
        | error e t₂ => rfl
        | ok r t₂ =>
          cases r with
          | error e => rfl
          | ok _ =>
            have hsame := (sameTree_untilError hrun).trans (sameTree_exfatFlushNode hflush)
            exact iha (Forest.fits_congr (fun j _ => hsame.link j) ha) (by omega)

end ExFat
