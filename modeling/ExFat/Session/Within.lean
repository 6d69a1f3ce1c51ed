import ExFat.Session.Percent

namespace ExFat

open Bytes Program

/-!
# Sizes within the heap

`check_node` refuses a node that is larger than all the clusters of the volume together, and
`rootdir_size` counts no more clusters than there are.

* `within_cacheLoop`: the nodes that are made of the entries of a directory are not larger than the
  heap.
* `Volume.Bounds` is kept by what reads directories: the superblock stays, and so does the bound.
* `exfatMount_within`: a volume that has been mounted holds no larger node.
-/

variable {δ : Type} {α : Type}

/-- The node is not larger than all the clusters of the volume together. -/
def Node.Within (sb : SuperBlock) (n : Node) : Prop := n.size ≤ sb.clusterCount * sb.clusterSize

/-- No node in memory is larger than the heap. -/
def Volume.Within (t : Volume δ) : Prop := ∀ i n, t.heap i = some n → n.Within t.ef.sb

/-! ### The entries of a directory -/

/-- The superblock is the one it was, and the node has the size it had. -/
structure FileState.Fitted (s s' : FileState δ) : Prop where
  sb : s'.ef.sb = s.ef.sb
  size : s'.node.size = s.node.size

instance : IsPreorder (FileState δ) FileState.Fitted where
  refl _ := ⟨rfl, rfl⟩
  trans _ _ _ h h' := ⟨h'.sb.trans h.sb, h'.size.trans h.size⟩

/-- The superblock is as it was. -/
theorem Ef.Skimmed.sb {ef ef' : Ef δ} (h : ef.Skimmed ef') : ef'.sb = ef.sb := by
  unfold Ef.Skimmed at h
  rw [h]

/-- A reading leaves the superblock and the size alone. -/
theorem FileState.Skimmed.fitted {s s' : FileState δ} (h : s.Skimmed s') : s.Fitted s' :=
  ⟨h.ef.sb, h.size⟩

section Device

variable [Device δ]

instance : WalkRel (δ := δ) FileState.Fitted where
  call _ := ⟨rfl, rfl⟩
  report _ := ⟨rfl, rfl⟩
  cursor _ _ _ := ⟨rfl, rfl⟩

/-- A node that `parse_file_entry` makes has passed `check_node`. -/
theorem within_parseFileEntry {offset k : Nat} {s s' : FileState δ} {node : Node}
    (h : parseFileEntry offset k s = .ok (.ok node) s') : node.Within s.ef.sb := by
  unfold parseFileEntry at h
  obtain ⟨r, s₁, hread, h⟩ := run_bind_eq_ok.1 h
  have h₁ := ((walked_readEntries k offset).ok hread).skimmed
  cases r with
  | error e => cases h
  | ok entries =>
    obtain ⟨ok, s₂, halloc, h⟩ := run_bind_eq_ok.1 h
    have h₂ := (skims_onEf skims_allocateNode).ok halloc
    split at h
    · cases h
    obtain ⟨⟨rc, n⟩, s₃, hparse, h⟩ := run_bind_eq_ok.1 h
    obtain ⟨ef, hfill, -⟩ := run_onEf_eq_ok hparse
    cases rc with
    | error e => cases h
    | ok _ =>
      cases h
      have hconsistent := (accepted_of_withNode hfill).consistent
      have hsb : s₂.ef.sb = s.ef.sb := (Ef.Skimmed.sb h₂).trans h₁.ef.sb
      rw [hsb] at hconsistent
      exact hconsistent.heap

/-- An entry that has no node leaves the superblock alone, whatever it brings. -/
theorem fitted_skipEntry {entry : Entry} {offset : Nat} {s : FileState δ} (hd : s.node.isDir = true)
    (hlen : entry.length ≤ entrySize) (hin : offset + entrySize ≤ s.node.size) :
    wp (skipEntry entry offset) (fun _ s' => s.Fitted s') anyStop s := by
  have honEf : ∀ {m : EfM δ Rc}, Keeps Ef.Charts m →
      wp (onEf m) (fun _ s' => s.Fitted s') anyStop s := by
    intro m hm
    unfold onEf
    rw [wp_zoom]
    exact wp_mono (hm s.ef) (fun _ _ h => ⟨h.1, rfl⟩) fun _ _ _ => trivial
  unfold skipEntry
  split
  · exact honEf (charts_readUpcase entry)
  split
  · exact honEf (charts_readBitmap entry)
  split
  · exact honEf (charts_readLabel entry)
  · exact wp_mono (skims_readUnknown hd hlen hin) (fun _ _ h => h.fitted) fun _ _ _ => trivial

/-- A node that is read is within the heap. -/
theorem within_readdirLoop (fuel offset : Nat) (s : FileState δ) :
    wp (readdirLoop fuel offset)
      (fun r s' => s.Fitted s' ∧ ∀ node next, r = .ok (node, next) → node.Within s.ef.sb)
      anyStop s := by
  -- on the entries that are left of the directory
  induction fuel generalizing offset s with
  | zero => exact trivial
  | succ fuel ih =>
    unfold readdirLoop
    rw [wp_bind]
    refine wp_mono (wp_run (walked_readEntries 1 offset s)) ?_ fun _ _ _ => trivial
    rintro r s₁ ⟨hread, h₁⟩
    cases r with
    | error e => exact ⟨h₁.skimmed.fitted, by simp⟩
    | ok entries =>
      obtain ⟨h₁, hd, hin, hlen⟩ := readEntries_one hread
      dsimp only
      split
      · -- the entries of an object
        rw [wp_bind]
        refine wp_mono (wp_run (skims_parseFileEntry _ _ s₁)) ?_ fun _ _ _ => trivial
        rintro r s₂ ⟨hparse, h₂⟩
        have h₁₂ := trans_of FileState.Fitted h₁.fitted h₂.fitted
        cases r with
        | error e => exact ⟨h₁₂, by simp⟩
        | ok node =>
          refine ⟨h₁₂, ?_⟩
          rintro _ _ ⟨⟩
          have hwithin := within_parseFileEntry hparse
          rw [h₁.ef.sb] at hwithin
          exact hwithin
      · -- an entry of its own, behind which the loop goes on
        rw [wp_bind]
        refine wp_conseq (fitted_skipEntry (h₁.isDir ▸ hd) hlen (h₁.size ▸ hin)) ?_
        intro r s₂ h₂
        have h₁₂ := trans_of FileState.Fitted h₁.fitted h₂
        cases r with
        | error e => exact ⟨h₁₂, by simp⟩
        | ok _ =>
          refine wp_conseq (ih (offset + entrySize) s₂) ?_
          rintro r s₃ ⟨h₃, hnode⟩
          refine ⟨trans_of FileState.Fitted h₁₂ h₃, fun node next hr => ?_⟩
          have hwithin := hnode node next hr
          rw [h₁₂.sb] at hwithin
          exact hwithin

/-- The nodes that are read are within the heap. -/
theorem within_cacheLoop (fuel offset : Nat) (s : FileState δ) :
    wp (cacheLoop fuel offset) (fun r s' => s.Fitted s' ∧ ∀ node ∈ r.1, node.Within s.ef.sb)
    anyStop s := by
  induction fuel generalizing offset s with
  | zero => exact trivial
  | succ fuel ih =>
    unfold cacheLoop
    rw [wp_bind, wp_get, wp_bind]
    refine wp_conseq (within_readdirLoop _ _ s) ?_
    rintro r s₁ ⟨h₁, hnode⟩
    cases r with
    | error e => exact ⟨h₁, by simp⟩
    | ok x =>
      dsimp only
      rw [wp_bind]
      refine wp_conseq (ih x.2 s₁) ?_
      rintro r s₂ ⟨h₂, hnodes⟩
      rw [h₁.sb] at hnodes
      refine ⟨trans_of FileState.Fitted h₁ h₂, ?_⟩
      simp only [List.mem_cons, forall_eq_or_imp]
      exact ⟨hnode x.1 x.2 rfl, hnodes⟩

/-! ### The volume -/

/-- The superblock is the one it was, and no node is larger than the heap if none was. -/
structure Volume.Bounds (t t' : Volume δ) : Prop where
  sb : t'.ef.sb = t.ef.sb
  within : t.Within → t'.Within

instance : IsPreorder (Volume δ) Volume.Bounds where
  refl _ := ⟨rfl, id⟩
  trans _ _ _ h h' := ⟨h'.sb.trans h.sb, fun ht => h'.within (h.within ht)⟩

omit [Device δ] in
/-- The node may be exchanged for another that is not larger than the heap. -/
theorem Volume.bounds_update (t : Volume δ) {ef : Ef δ} {i fresh root : NodeId} {n : Node}
    (hsb : ef.sb = t.ef.sb) (hn : t.Within → n.Within t.ef.sb) :
    t.Bounds ⟨ef, Function.update t.heap i (some n), root, fresh⟩ := by
  refine ⟨hsb, fun ht j m hj => ?_⟩
  dsimp only at hj ⊢
  rw [hsb]
  by_cases hne : j = i
  · subst hne
    rw [Function.update_self] at hj
    cases hj
    exact hn ht
  · rw [Function.update_of_ne hne] at hj
    exact ht j m hj

omit [Device δ] in
/-- Storing a node of the same size. -/
theorem Volume.bounds_store {t : Volume δ} {i : NodeId} {n : Node} {s : FileState δ}
    (hi : t.heap i = some n) (hs : FileState.Fitted ⟨t.ef, n⟩ s) : t.Bounds (t.store i s) := by
  refine t.bounds_update hs.sb fun ht => ?_
  have hn := ht i n hi
  unfold Node.Within at *
  rw [hs.size]
  exact hn

omit [Device δ] in
/-- A change that leaves the size alone keeps the nodes within the heap. -/
theorem bounds_updateNode (i : NodeId) {f : Node → Node} (h : ∀ n, (f n).size = n.size) :
    Yields Volume.Bounds (updateNode (δ := δ) i f) := by
  intro t
  unfold updateNode
  cases hi : t.heap i with
  | none =>
    unfold wp onNode
    rw [hi]
    exact trivial
  | some n =>
    rw [wp_onNode hi]
    exact Volume.bounds_store hi ⟨rfl, h n⟩

omit [Device δ] in
/-- Linking nodes that are within the heap keeps the nodes within it. -/
theorem bounds_newChildren (dir : NodeId) (current : Option NodeId) (ns : List Node) (t : Volume δ)
    (hns : ∀ n ∈ ns, n.Within t.ef.sb) :
    wp (newChildren dir current ns) (fun _ t' => t.Bounds t') anyStop t := by
  induction ns generalizing current t with
  | nil => exact refl_of Volume.Bounds t
  | cons n ns ih =>
    unfold newChildren
    rw [wp_bind, wp_get, wp_bind, wp_set]
    let n₁ : Node := { n with parent := some dir, prev := current }
    have hn₁ : n₁.Within t.ef.sb := hns n (.head _)
    have h₁ : t.Bounds ⟨t.ef, Function.update t.heap t.fresh (some n₁), t.root, t.fresh + 1⟩ :=
      t.bounds_update rfl fun _ => hn₁
    have hlink : Yields Volume.Bounds (linkBehind (δ := δ) dir t.fresh current) := by
      cases current with
      | none => exact bounds_updateNode dir fun _ => rfl
      | some c => exact bounds_updateNode c fun _ => rfl
    rw [wp_bind]
    refine wp_conseq (hlink _) fun _ t₂ h₂ => ?_
    have h₁₂ := trans_of Volume.Bounds h₁ h₂
    rw [wp_bind]
    have hrest : ∀ m ∈ ns, m.Within t₂.ef.sb := fun m hm => by
      rw [h₁₂.sb]
      exact hns m (.tail _ hm)
    exact wp_conseq (ih (some t.fresh) t₂ hrest) fun ids t₃ h₃ => trans_of Volume.Bounds h₁₂ h₃

/-- The new nodes have been accepted. -/
theorem bounds_exfatCacheDirectory (dir : NodeId) :
    Yields Volume.Bounds (exfatCacheDirectory (δ := δ) dir) := by
  intro t
  unfold exfatCacheDirectory
  rw [wp_bind]
  refine wp_getNode trivial fun d hd => ?_
  split
  · exact refl_of Volume.Bounds t
  rw [wp_bind, wp_onNode hd]
  refine wp_conseq (within_cacheLoop (dirFuel d.size) 0 ⟨t.ef, d⟩) ?_
  rintro r s ⟨hs, hnodes⟩
  have h₁ : t.Bounds (t.store dir s) := Volume.bounds_store hd hs
  split
  · rw [wp_bind]
    have hfill := bounds_newChildren dir none r.1 (t.store dir s) (h₁.sb ▸ hnodes)
    refine wp_conseq hfill fun ids t₂ h₂ => ?_
    refine Yields.after (yields_bind ?_ fun _ => yields_pure _) (trans_of Volume.Bounds h₁ h₂)
    exact bounds_updateNode dir fun _ => rfl
  · refine Yields.after (yields_bind ?_ fun _ => yields_pure _) h₁
    exact bounds_updateNode dir fun _ => rfl

/-! ### Mounting -/

/-- The clusters of the root directory are counted up to the number of clusters there are. -/
theorem within_rootdirLoop (fuel clusters cluster : Nat) (s : FileState δ)
    (hle : clusters ≤ s.ef.sb.clusterCount) :
    wp (rootdirLoop fuel clusters cluster)
      (fun size s' => s.Fitted s' ∧ size ≤ s.ef.sb.clusterCount * s.ef.sb.clusterSize)
      anyStop s := by
  -- on the clusters that are still to be counted
  induction fuel generalizing clusters cluster s with
  | zero => exact trivial
  | succ fuel ih =>
    have hreport : ∀ message : String,
        wp (do onEf (exfatError (δ := δ) message); pure 0 : FileM δ Nat)
        (fun size s' => s.Fitted s' ∧ size ≤ s.ef.sb.clusterCount * s.ef.sb.clusterSize)
          anyStop s :=
      fun _ => ⟨⟨rfl, rfl⟩, Nat.zero_le _⟩
    unfold rootdirLoop
    rw [wp_bind, wp_get]
    -- the chain is longer than the heap
    split
    · exact hreport _
    next hne =>
    split
    -- the chain leaves the heap
    · exact hreport _
    rw [wp_bind]
    refine wp_conseq ((keeps_exfatNextCluster (R := FileState.Fitted) cluster).yields s)
      fun next s₁ h₁ => ?_
    have hlt : clusters + 1 ≤ s.ef.sb.clusterCount := Nat.lt_of_le_of_ne hle hne
    -- the chain goes on, or this cluster was the last
    split
    · refine wp_conseq (ih (clusters + 1) next s₁ (h₁.sb ▸ hlt)) ?_
      rintro size s₂ ⟨h₂, hsize⟩
      rw [h₁.sb] at hsize
      exact ⟨trans_of FileState.Fitted h₁ h₂, hsize⟩
    · exact ⟨h₁, Nat.mul_le_mul_right _ hlt⟩

/-- The root directory is within the heap. -/
theorem within_rootdirSize (s : FileState δ) :
    wp rootdirSize (fun size s' => s.Fitted s' ∧ size ≤ s.ef.sb.clusterCount * s.ef.sb.clusterSize)
    anyStop s := by
  unfold rootdirSize
  rw [wp_bind, wp_get]
  exact within_rootdirLoop _ _ _ s (Nat.zero_le _)

/-- A volume that had no nodes has none after the mount that is larger than its heap. -/
theorem mountRoot_within {t : Volume δ} (ht : ∀ i, t.heap i = none) :
    wp (mountRoot (δ := δ)) (fun rc t' => rc = .ok () → t'.Within ∧ t'.ef.sb = t.ef.sb)
    anyStop t := by
  have habandon : ∀ (root : NodeId) (t₁ : Volume δ), wp (abandonMount (δ := δ) root)
      (fun rc t' => rc = .ok () → t'.Within ∧ t'.ef.sb = t.ef.sb) anyStop t₁ := fun _ _ =>
    wp_after fun _ _ => wp_after fun _ _ => wp_after fun _ _ => by simp
  unfold mountRoot
  rw [wp_bind, wp_get, wp_bind, wp_set, wp_bind, wp_onNode (Function.update_self ..)]
  refine wp_conseq (within_rootdirSize _) ?_
  rintro size s ⟨hs, hle⟩
  dsimp only at hle
  rw [wp_bind]
  unfold updateNode
  rw [wp_onNode (store_heap_self ..)]
  unfold modifyNode
  rw [wp_modify]
  split
  · exact wp_after fun _ _ => by simp
  rw [wp_bind]
  generalize hu : Volume.store _ t.fresh _ = u
  -- the root directory is the only node, and its size has been counted
  have hsb : u.ef.sb = t.ef.sb := by
    rw [← hu]
    exact hs.sb
  have hu : u.Within := by
    intro j n hj
    rw [hsb]
    by_cases hne : j = t.fresh
    · rw [← hu, hne, store_heap_self] at hj
      cases hj
      exact hle
    · rw [← hu, store_heap_of_ne _ hne, store_heap_of_ne _ hne] at hj
      dsimp only at hj
      rw [Function.update_of_ne hne, ht] at hj
      cases hj
  have hget : Yields Volume.Bounds (exfatGetNode (δ := δ) t.fresh) :=
    bounds_updateNode _ fun _ => rfl
  refine wp_conseq (hget u) fun _ t₁ h₁ => ?_
  rw [wp_bind]
  refine wp_conseq (bounds_exfatCacheDirectory t.fresh t₁) fun rc t₂ h₂ => ?_
  have h₁₂ := trans_of Volume.Bounds h₁ h₂
  -- the reading of the root has failed, and the mount is given up
  cases rc with
  | error e => exact habandon _ t₂
  | ok _ =>
    rw [wp_bind, wp_get]
    -- without an up-case table or a bitmap it is given up as well
    split
    · exact wp_after fun _ t₃ => habandon _ t₃
    split
    · exact wp_after fun _ t₃ => habandon _ t₃
    · exact fun _ => ⟨h₁₂.within hu, h₁₂.sb.trans hsb⟩

/-- A mounted volume, whose boot sector is a whole one. -/
theorem exfatMount_within {t : Volume δ} (ht : ∀ i, t.heap i = none) :
    wp (exfatMount (δ := δ)) (fun rc t' => rc = .ok () → t'.Within ∧ 512 ≤ t'.ef.sb.bytes.length)
    anyStop t := by
  unfold exfatMount
  rw [wp_bind]
  unfold onVolume
  rw [wp_zoom]
  refine wp_mono (wp_mountSuperBlock t.ef) ?_ fun _ _ _ => trivial
  intro rc ef hrc
  cases rc with
  | error e => exact wp_after fun _ _ => by simp
  | ok _ =>
    obtain ⟨hlength, -⟩ := hrc rfl
    refine wp_conseq (mountRoot_within (t := { t with ef := ef }) ht) fun rc t' hroot hrc => ?_
    obtain ⟨hwithin, hsb⟩ := hroot hrc
    rw [hsb]
    exact ⟨hwithin, hlength⟩

/-- The mark in the superblock says nothing about sizes. -/
theorem within_soil {t : Volume δ} (hlength : 512 ≤ t.ef.sb.bytes.length) :
    wp (onVolume (exfatSoilSuperBlock (δ := δ))) (fun _ t' => t.Within → t'.Within) anyStop t := by
  -- the fields of the geometry lie apart from the state of the volume
  have hfields : ∀ v : Nat, ∀ n : Node, n.Within t.ef.sb →
      n.Within (t.ef.sb.setField 0x6a 2 v) := by
    intro v n hn
    have hapart : ∀ off k, 0x6c ≤ off ∨ off + k ≤ 0x6a →
        leAt (t.ef.sb.setField 0x6a 2 v).bytes off k = leAt t.ef.sb.bytes off k := fun off k h =>
      SuperBlock.leAt_setField_of_disjoint _ v (by omega) h
    unfold Node.Within SuperBlock.clusterCount SuperBlock.clusterSize SuperBlock.sectorSize
      SuperBlock.sectorBits
      SuperBlock.spcBits at *
    rw [hapart 0x5c 4 (by decide), hapart 0x6c 1 (by decide), hapart 0x6d 1 (by decide)]
    exact hn
  have hcommit : Keeps Ef.Skimmed (commitSuperBlock (δ := δ)) := by
    refine keeps_look fun ef => keeps_bind (fun _ => rfl) fun r => ?_
    cases r with
    | none => exact skims_report _ _
    | some _ => exact fun _ => rfl
  unfold onVolume
  rw [wp_zoom]
  unfold exfatSoilSuperBlock
  rw [wp_bind, wp_get]
  -- a read-only volume is not marked
  split
  · exact id
  rw [wp_bind, wp_set]
  refine wp_mono (hcommit _) (fun _ ef h ht i n hi => ?_) fun _ _ _ => trivial
  have hsb := Ef.Skimmed.sb h
  dsimp only at hsb ⊢
  rw [hsb]
  exact hfields _ n (ht i n hi)

end Device

end ExFat
