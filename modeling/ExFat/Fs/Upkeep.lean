import ExFat.Fs.Boot
import ExFat.Fs.Paths
import Mathlib.Data.List.TakeWhile

namespace ExFat

open Program

/-!
# The calls keep the tree

Every call that makes, removes or moves nodes leaves a tree below the root, whether it succeeds or
not. `Volume.Reached` are the volumes that any number of calls lead to from a fresh mount.
-/

variable {δ : Type} {D : Prop} {H : Set NodeId}

/-! ### Making a node -/

/-- What is compared of a name ends before the terminator. -/
theorem foldName_take (u : Nat → Nat) (name : List Nat) :
    foldName u (name.take (utf16Length name)) = foldName u name := by
  have htake : name.take (utf16Length name) = name.takeWhile (· ≠ 0) :=
    (List.prefix_iff_eq_take.1 (List.takeWhile_prefix _)).symm
  unfold foldName
  rw [htake, List.takeWhile_idem]

/-- Nothing in the directory has the name. -/
theorem Volume.Finds.none_match {t : Volume δ} {dir : NodeId} {name : List Nat} {m : Kin}
    {u : Nat → Nat} (h : t.Finds dir name none) (hdir : t.kin dir = some m)
    (hu : t.ef.upcase = some u) {y : NodeId} {c : Kin} (hy : y ∈ m.child) (hc : t.kin y = some c) :
    compareName u name c.name = false := by
  obtain ⟨k, u', hk, -, hu', hfind⟩ := h
  cases hdir.symm.trans hk
  cases hu.symm.trans hu'
  have hno := List.find?_eq_none.1 hfind.symm y hy
  rw [hc, Option.any_some] at hno
  exact Bool.eq_false_iff.2 hno

section Committed

variable {t t' : Volume δ} {dir : NodeId} {k m : Kin}

/-- The nodes that were there stay in their directories. -/
theorem Volume.Committed.moves (h : t.Committed dir k t') (ht : t.Linked) {y : NodeId} {l : Kin}
    (hy : t.kin y = some l) :
    ∃ l', t'.kin y = some l' ∧ l'.parent = l.parent ∧ l'.name = l.name := by
  have hne : y ≠ t.fresh := Nat.ne_of_lt (ht.lt hy)
  rw [h.kin, attached, Function.update_of_ne hne, hy, Option.map_some]
  exact ⟨_, rfl, if_neg hne, rfl⟩

/-- A node is the new one or one that was there. -/
theorem Volume.Committed.back (h : t.Committed dir k t') (ht : t.Linked) (hdir : t.kin dir = some m)
    {x : NodeId} {l' : Kin} (hx : t'.kin x = some l') :
    x = t.fresh ∧ l'.parent = some dir ∧ l'.name = k.name ∧ l'.child = k.child ∨
      ∃ l, t.kin x = some l ∧ l'.name = l.name ∧
      l'.child = if x = dir then t.fresh :: l.child else l.child := by
  rw [h.kin] at hx
  obtain ⟨l, hl, rfl⟩ := Option.map_eq_some_iff.1 hx
  by_cases hxf : x = t.fresh
  · rw [hxf, Function.update_self] at hl
    cases hl
    have hne : x ≠ dir := by
      rintro rfl
      exact absurd (ht.lt hdir) (hxf ▸ Nat.lt_irrefl _)
    exact .inl ⟨hxf, if_pos hxf, rfl, if_neg hne⟩
  · rw [Function.update_of_ne hxf] at hl
    exact .inr ⟨l, hl, rfl, rfl⟩

/-- The node is below the root. -/
theorem Volume.Committed.rooted (h : t.Committed dir k t') (ht : t.Linked) (hr : t.Rooted)
    (hdir : t.kin dir = some m) {n : Nat} (hd : t.Depth dir n) : t'.Rooted := by
  have hdir' : KinDepth t'.kin t.root dir n := by
    refine hd.mono fun hy hp => ?_
    obtain ⟨l', hl', hparent, -⟩ := h.moves ht hy
    exact ⟨l', hl', hparent.trans hp⟩
  unfold Volume.Rooted
  rw [h.root]
  refine hr.mono (fun hy hp => ?_) fun {x l' d} hx hp => ?_
  · obtain ⟨l', hl', hparent, -⟩ := h.moves ht hy
    exact ⟨l', hl', hparent.trans hp⟩
  · obtain ⟨-, hparent, -⟩ | ⟨l, hl, -⟩ := h.back ht hdir hx
    · cases hp.symm.trans hparent
      exact .inr ⟨n, hdir'⟩
    · obtain ⟨l'', hl'', hparent, -⟩ := h.moves ht hl
      cases hx.symm.trans hl''
      exact .inl ⟨l, hl, hparent.symm.trans hp⟩

/-- The name of the new node is a new one in the directory. -/
theorem Volume.Committed.distinct {name : List Nat} (h : t.Committed dir k t') (ht : t.Linked)
    (hd : t.Distinct) (hdir : t.kin dir = some m) (hk : k.IsLoose)
    (hname : k.name = name.take (utf16Length name)) (hnone : t.Finds dir name none) :
    t'.Distinct := by
  obtain ⟨u, hu, hfolds, hall⟩ := hd
  refine ⟨u, h.upcase u hu, hfolds, fun d l' hl' => ?_⟩
  -- the nodes that were there have their names
  have hback : ∀ {l : List NodeId} {d₀ : NodeId} {m₀ : Kin}, t.kin d₀ = some m₀ → l = m₀.child →
      KinDistinct u t'.kin l := by
    rintro l d₀ m₀ hd₀ rfl
    refine (hall d₀ m₀ hd₀).mono (fun _ hx => hx) fun x hx {k'} hk' => ?_
    obtain ⟨c, hc, -⟩ := ht.down hd₀ hx
    obtain ⟨c', hc', -, hcname⟩ := h.moves ht hc
    cases hk'.symm.trans hc'
    exact ⟨c, hc, hcname.symm⟩
  -- The list is that of the new node, of its directory, or of another directory.
  obtain ⟨-, -, -, hchild⟩ | ⟨l, hl, -, hchild⟩ := h.back ht hdir hl'
  · rw [hchild, hk.child]
    exact fun _ hx => by cases hx
  · rw [hchild]
    split
    next hdd =>
      subst hdd
      -- the new child comes first, and no other child compares equal to its name
      refine (hback hl rfl).cons hfolds fun y hy c c' hc hc' => ?_
      obtain ⟨-, -, hcname, -⟩ | ⟨l₀, hl₀, -⟩ := h.back ht hdir hc
      · obtain ⟨c₀, hc₀, -⟩ := ht.down hl hy
        obtain ⟨c₁, hc₁, -, hname₁⟩ := h.moves ht hc₀
        cases hc'.symm.trans hc₁
        have hno := hnone.none_match hl hu hy hc₀
        rw [← Bool.not_eq_true, compareName_iff hfolds] at hno ⊢
        rw [hcname, hname, foldName_take, hname₁]
        exact hno
      · exact absurd (ht.lt hl₀) (Nat.lt_irrefl _)
    · exact hback hl rfl

end Committed

variable [Device δ]

/-- `create` keeps the tree. -/
theorem Volume.Creates.sound {t t' : Volume δ} {path : List UInt8} {attrib : Nat} {r : Rc}
    (h : t.Creates path attrib t' r) (ht : t.Ready D H) : t'.Sound D H := by
  cases h with
  | failed hx _ h => exact h.sound (hx.ready ht).toSound
  | @made t₁ t₂ t₃ dir last name k m u _ hx ht₁ hw hname hnone hslot hdir hm hk
    hkname _ hcommit hu h =>
    have hsound₁ := (hx.ready ht).toSound
    have hsound₂ := hslot.sound hsound₁
    have ht₂ := hsound₂.linked
    have hgrown := hcommit.grown ht₂
    have hview : t₂.kin = t₁.kin := hslot.view
    obtain ⟨n, -, hdepth⟩ := hw.depth ht₁ .root
    refine h.sound ⟨hcommit.linked ht₂ hk hdir hm, ?_, fun hD => ?_,
      fun hx => Nat.lt_of_lt_of_le (hsound₂.bound hx) hgrown.grown.le,
      fun hx hl => hsound₂.spent_grown hgrown hx hl, hsound₂.nameless_grown hgrown⟩
    · refine hcommit.rooted ht₂ hsound₂.rooted hdir (n := n) ?_
      unfold Volume.Depth
      rw [hview, hslot.root]
      exact hdepth
    · obtain ⟨u₀, hu₀, -⟩ := ht.distinct hD
      have hfinds : t₁.Finds dir name none := hnone (by rw [hu₀]; rfl)
      exact hcommit.distinct ht₂ (hsound₂.distinct hD) hdir hk hkname
        (hfinds.read ht₁ (TreeRel.kin hslot))

/-! ### Removing a node -/

section Becomes

variable {t t' : Volume δ} {K : NodeId → Option Kin}

omit [Device δ] in
/-- The names stay different where no directory gets a child and no node a name. -/
theorem Volume.Becomes.distinct (h : t.Becomes K t') (hd : t.Distinct)
    (hback : ∀ {x k'}, K x = some k' → ∃ k, t.kin x = some k ∧ k.name = k'.name ∧
      ∀ y ∈ k'.child, y ∈ k.child) : t'.Distinct := by
  obtain ⟨u, hu, hfolds, hall⟩ := hd
  refine ⟨u, h.upcase u hu, hfolds, fun d m hm => ?_⟩
  rw [h.kin] at hm ⊢
  obtain ⟨k, hk, -, hsub⟩ := hback hm
  refine (hall d k hk).mono hsub fun x _ {k'} hx => ?_
  obtain ⟨l, hl, hname, -⟩ := hback hx
  exact ⟨l, hl, hname⟩

end Becomes

omit [Device δ] in
/-- A node that is there after the removal was there before. -/
theorem removed_back {K : NodeId → Option Kin} {k k' : Kin} {p i x : NodeId}
    (hx : removed K k p i x = some k') : ∃ l, K x = some l ∧ l.name = k'.name ∧
      (∀ y ∈ k'.child, y ∈ l.child) ∧ k'.isDir = l.isDir ∧ k'.isCached = l.isCached ∧
      (x ≠ i → k'.parent = l.parent) := by
  obtain ⟨l', hl', rfl⟩ := Option.map_eq_some_iff.1 hx
  obtain ⟨l, hl, rfl⟩ := Option.map_eq_some_iff.1 hl'
  have hsub : ∀ y ∈ (if x = p then l.child.erase i else l.child), y ∈ l.child := by
    intro y hy
    split at hy
    · exact List.mem_of_mem_erase hy
    · exact hy
  refine ⟨l, hl, ?_⟩
  split
  next hxi => exact ⟨rfl, hsub, rfl, rfl, fun hne => absurd hxi hne⟩
  · exact ⟨rfl, hsub, rfl, rfl, fun _ => rfl⟩

omit [Device δ] in
/-- `delete` of a node that has no children keeps the tree. -/
theorem Volume.Deletes.sound {t t' : Volume δ} {i : NodeId} {r : Rc} (h : t.Deletes i t' r)
    (ht : t.Sound D H) (hchild : ∀ {k}, t.kin i = some k → k.child = [])
    (hspent : ∀ {k}, t.kin i = some k → i ∈ H → k.isDir = true → k.isCached = true) :
    t'.Sound D H := by
  cases h with
  -- a failure changes no link
  | failed h => exact h.sound ht
  | @removed k m p _ hi hp hm h =>
    refine ⟨h.linked (linked_removed ht.linked hi hp hm), ?_, fun hD => ?_,
      fun hx => h.fresh.symm ▸ ht.bound hx, fun {x k'} hx hk' hnone hdir hc => ?_, fun k' hk' => ?_⟩
    -- Only what is below the node could lose its way to the root, and there is nothing below it.
    · unfold Volume.Rooted
      rw [h.root, h.kin]
      refine (ht.rooted.detached ht.linked hi (p := p) (hchild hi)).mono (fun hy hd => ?_)
        fun {x l' d} hx hd => ?_
      · refine ⟨_, Option.map_eq_some_iff.2 ⟨_, hy, rfl⟩, ?_⟩
        split <;> exact hd
      · obtain ⟨l, hl, rfl⟩ := Option.map_eq_some_iff.1 hx
        refine .inl ⟨l, hl, ?_⟩
        split at hd <;> exact hd
    · refine h.distinct (ht.distinct hD) fun hx => ?_
      obtain ⟨l, hl, hname, hsub, -⟩ := removed_back hx
      exact ⟨l, hl, hname, hsub⟩
    · rw [h.kin] at hk'
      obtain ⟨l, hl, -, -, hisDir, hcached, hparent⟩ := removed_back hk'
      rw [h.root]
      -- the node itself is loose now: if somebody holds it, it has been read
      by_cases hxi : x = i
      · subst hxi
        cases hi.symm.trans hl
        cases hc.symm.trans (hcached.trans (hspent hi hx (hisDir.symm.trans hdir)))
      · exact ht.spent hx hl ((hparent hxi).symm.trans hnone) (hisDir.symm.trans hdir)
          (hcached.symm.trans hc)
    · rw [h.root, h.kin] at hk'
      obtain ⟨l, hl, hname, -⟩ := removed_back hk'
      exact hname.symm.trans (ht.nameless l hl)

omit [Device δ] in
/-- `exfat_cleanup_node` frees nodes that are in no directory. -/
theorem Volume.Cleans.sound {t t' : Volume δ} {i : NodeId} (h : t.Cleans i t') (ht : t.Sound D H) :
    t'.Sound D H := by
  cases h with
  -- nothing happens while the node has references or is in a directory
  | kept h => exact h.sound ht
  | @freed k hi hu h =>
    have hnone := ht.linked.unlinked hi hu
    have hback : ∀ {x l}, Function.update t.kin i none x = some l → x ≠ i ∧ t.kin x = some l := by
      intro x l hx
      by_cases hxi : x = i
      · rw [hxi, Function.update_self] at hx
        cases hx
      · rw [Function.update_of_ne hxi] at hx
        exact ⟨hxi, hx⟩
    refine ⟨h.linked (linked_freed ht.linked hi hnone (ht.linked.unlinked_ne_root hi hu)), ?_,
      fun hD => ?_,
      fun hx => h.fresh.symm ▸ ht.bound hx, fun hx hk' => ?_, fun k' hk' => ?_⟩
    -- the freed node was in no directory, so no way to the root goes through it
    · unfold Volume.Rooted
      rw [h.root, h.kin]
      refine ht.rooted.mono (fun {y l d} hy hd => ⟨l, ?_, hd⟩) fun hx hd =>
        .inl ⟨_, (hback hx).2, hd⟩
      rw [Function.update_of_ne]
      · exact hy
      · rintro rfl
        cases hi.symm.trans hy
        cases hnone.symm.trans hd
    · exact h.distinct (ht.distinct hD) fun hx => ⟨_, (hback hx).2, rfl, fun _ hy => hy⟩
    · rw [h.kin] at hk'
      rw [h.root]
      exact ht.spent hx (hback hk').2
    · rw [h.root, h.kin] at hk'
      exact ht.nameless k' (hback hk').2

omit [Device δ] in
/-- A node that is not a directory has no children. -/
theorem childless_of_isDir {t : Volume δ} (ht : t.Linked) {i : NodeId} {k : Kin}
    (hi : t.kin i = some k) (hd : k.isDir = false) : k.child = [] := by
  refine ht.uncached hi (Bool.eq_false_iff.2 fun hc => ?_)
  cases hd.symm.trans (ht.dirs hi hc)

/-- What `exfat_unlink` and `exfat_rmdir` have done: at most they have deleted a node that had no
children. -/
structure Volume.Unlinks (t : Volume δ) (i : NodeId) (r : Rc) (t' : Volume δ) : Prop where
  sound : ∀ {D H}, t.Ready D H → t'.Sound D H
  deleted : ∃ t₁, t.Explored t₁ ∧ t₁.Linked ∧ t₁.Deletes i t' r ∧
    (t₁.SameKin t' ∨ ∀ {k}, t₁.kin i = some k → k.child = [])

/-- `exfat_unlink` takes the node out of its directory, or fails. -/
theorem wp_exfatUnlink (i : NodeId) {t : Volume δ} (ht : t.Linked) :
    wp (exfatUnlink i) (fun r t' => t.Unlinks i r t') anyStop t := by
  unfold exfatUnlink
  rw [wp_bind]
  refine wp_getNode trivial fun n hn => ?_
  split
  next hd =>
    have hsame := refl_of Volume.SameKin t
    exact ⟨fun h => h.toSound, t, .refl t, ht, .failed hsame, .inl hsame⟩
  next hd =>
    have hisDir : n.kin.isDir = false := Bool.eq_false_iff.2 hd
    have hchild : ∀ {k}, t.kin i = some k → k.child = [] := by
      intro k hi
      cases (Volume.kin_of_heap hn).symm.trans hi
      exact childless_of_isDir ht (Volume.kin_of_heap hn) hisDir
    refine wp_conseq (wp_delete i t) fun r t' h =>
      ⟨fun {D H} hready => ?_, t, .refl t, ht, h, .inr hchild⟩
    refine h.sound hready.toSound hchild fun hi _ hdir => ?_
    cases (Volume.kin_of_heap hn).symm.trans hi
    cases hisDir.symm.trans hdir

/-- A directory that has not been read hangs below the root. -/
def Volume.Readable (t : Volume δ) (dir : NodeId) : Prop :=
  ∀ k, t.kin dir = some k → k.isDir = true → k.isCached = false → ∃ n, t.Depth dir n

omit [Device δ] in
/-- A node that is held can be read. -/
theorem Volume.Sound.readable {t : Volume δ} {i : NodeId} (ht : t.Sound D H) (hi : i ∈ H) :
    t.Readable i := by
  intro k hk hd hc
  cases hp : k.parent with
  | none => exact ⟨0, ht.spent hi hk hp hd hc ▸ .root⟩
  | some p => exact ht.rooted i k p hk hp

/-- A directory that has been read is left alone, and only directories can be read. -/
theorem wp_cacheUnread {dir : NodeId} {t : Volume δ} {d : Node} (hd : t.heap dir = some d) :
    wp (exfatCacheDirectory dir)
      (fun _ t' => (d.isCached = true → t' = t) ∧ (d.isCached = true ∨ d.isDir = true))
      anyStop t := by
  unfold exfatCacheDirectory
  rw [wp_bind]
  refine wp_getNode trivial fun d' hd' => ?_
  cases hd.symm.trans hd'
  split
  next hc => exact ⟨fun _ => rfl, .inl hc⟩
  next hc =>
    rw [wp_bind, wp_onNode hd]
    refine wp_mono (isDir_of_cacheLoop (s := ⟨t.ef, d⟩)) (fun r s hisDir => ?_) fun _ _ _ => trivial
    exact wp_of_forall (fun _ _ => ⟨fun hc' => absurd hc' hc, .inr hisDir⟩) fun _ _ => trivial

/-- Reading a directory that somebody holds. -/
theorem wp_cacheReadable {dir : NodeId} {t : Volume δ} (ht : t.Linked) (hdir : t.Readable dir) :
    wp (exfatCacheDirectory dir) (fun r t' => t.CachedAt dir r t' ∧ t.Explored t') anyStop t := by
  cases hd : t.heap dir with
  | none =>
    unfold exfatCacheDirectory
    rw [wp_bind]
    refine wp_getNode trivial fun d hd' => ?_
    cases hd.symm.trans hd'
  | some d =>
    have hk := Volume.kin_of_heap hd
    have hunread := wp_cacheUnread hd
    by_cases hc : d.isCached = true
    · refine wp_mono (wp_and (wp_exfatCacheDirectory ht) hunread) ?_ fun _ _ _ => trivial
      rintro r t' ⟨h, hsame, -⟩
      cases hsame hc
      exact ⟨h, .refl t⟩
    · by_cases hisDir : d.isDir = true
      · obtain ⟨n, hn⟩ := hdir d.kin hk hisDir (Bool.eq_false_iff.2 hc)
        exact wp_exploreDirectory ht hn
      · exact wp_mono hunread (fun _ _ h => (h.2.elim hc hisDir).elim) fun _ _ _ => trivial

/-- Where every directory in memory has been read, there is nothing left to read. -/
theorem Volume.lists_of_cached {t : Volume δ}
    (hall : ∀ x k, t.kin x = some k → k.isDir = true → k.isCached = true) : t.Lists := by
  have hbrowse : ∀ {t₁ : Volume δ}, Relation.ReflTransGen Volume.BrowseStep t t₁ →
      ∀ x k, t₁.kin x = some k → k.isDir = true → k.isCached = true := by
    intro t₁ hreach
    induction hreach with
    | refl => exact hall
    | @tail t₁ t₂ _ hstep ih =>
      have hkin : t₂.kin = t₁.kin := by
        rcases hstep with ⟨i, hrun⟩ | ⟨i, hrun⟩ | ⟨dir, r, hrun⟩
        · exact ((kin_exfatGetNode i).ok hrun).view
        · exact ((kin_exfatPutNode i).ok hrun).view
        · -- the directory has been read, so that nothing is read
          have hnode : ∃ d, t₁.heap dir = some d := by
            unfold exfatCacheDirectory at hrun
            obtain ⟨d, _, hd, -⟩ := run_bind_eq_ok.1 hrun
            exact ⟨d, (run_getNode_eq_ok hd).1⟩
          obtain ⟨d, hd⟩ := hnode
          obtain ⟨hsame, hc | hisDir⟩ := wp_anyStop_iff.1 (wp_cacheUnread hd) _ _ hrun
          · rw [hsame hc]
          · rw [hsame (ih dir d.kin (Volume.kin_of_heap hd) hisDir)]
      rw [hkin]
      exact ih
  intro t₁ t₂ dir d m u hreach hd hc hrun
  obtain ⟨-, hcached | hisDir⟩ := wp_anyStop_iff.1 (wp_cacheUnread hd) _ _ hrun
  · cases hc.symm.trans hcached
  · cases hc.symm.trans (hbrowse hreach dir d.kin (Volume.kin_of_heap hd) hisDir)

/-- `exfat_rmdir` takes an empty directory out of its directory, or fails. -/
theorem wp_exfatRmdir (i : NodeId) {t : Volume δ} (ht : t.Linked) (hi : t.Readable i) :
    wp (exfatRmdir i) (fun r t' => t.Unlinks i r t') anyStop t := by
  unfold exfatRmdir
  rw [wp_bind]
  refine wp_getNode trivial fun n hn => ?_
  -- the source refuses a node that is no directory
  split
  · have hsame := refl_of Volume.SameKin t
    exact ⟨fun h => h.toSound, t, .refl t, ht, .failed hsame, .inl hsame⟩
  -- the directory is read before it can be called empty
  · rw [wp_bind]
    refine wp_conseq (wp_cacheReadable ht hi) ?_
    rintro r t₁ ⟨h₁, hexplored⟩
    have ht₁ := h₁.linked
    have hsame := refl_of Volume.SameKin t₁
    have hfailed : ∀ e : Errno, t.Unlinks i (.error e) t₁ := fun e =>
      ⟨fun h => (hexplored.ready h).toSound, t₁, hexplored, ht₁, .failed hsame, .inl hsame⟩
    cases r with
    | error e => exact hfailed e
    | ok _ =>
      obtain ⟨k, hk, hc⟩ := h₁.cached rfl
      dsimp only
      rw [wp_bind]
      refine wp_getNode trivial fun n₁ hn₁ => ?_
      cases (Volume.kin_of_heap hn₁).symm.trans hk
      split
      · exact hfailed _
      next hempty =>
        -- what `exfat_rmdir` goes by is the pointer to the first child
        have hchild : ∀ {k}, t₁.kin i = some k → k.child = [] := by
          intro k hi
          cases hk.symm.trans hi
          exact not_not.1 hempty
        refine wp_conseq (wp_delete i t₁) fun r t₂ h₂ =>
          ⟨fun {D H} hready => ?_, t₁, hexplored, ht₁, h₂, .inr hchild⟩
        refine h₂.sound (hexplored.ready hready).toSound hchild fun hi _ _ => ?_
        cases hk.symm.trans hi
        exact hc

/-! ### Paths -/

/-- A path that is found leads to a node below the root. -/
theorem wp_lookupPath (fuel : Nat) {parent : NodeId} {path : List UInt8} {n : Nat} {t : Volume δ}
    (ht : t.Linked) (hd : t.Depth parent n) :
    wp (lookupPath fuel parent path) (fun r t' => t'.Linked ∧ t.Explored t' ∧
      ∀ i, r = .ok i → ∃ m, t'.Depth i m) anyStop t := by
  -- On the components.  The loop ends at the node it has reached.
  induction fuel generalizing parent path n t with
  | zero =>
    refine ⟨ht, .refl t, fun i hi => ⟨n, ?_⟩⟩
    cases hi
    exact hd
  | succ fuel ih =>
    unfold lookupPath
    dsimp only
    split
    · refine ⟨ht, .refl t, fun i hi => ⟨n, ?_⟩⟩
      cases hi
      exact hd
    split
    · exact ih ht hd
    · rw [wp_bind]
      refine wp_conseq (wp_lookupName ht hd) ?_
      intro r t₁ h₁
      have ht₁ := h₁.linked
      cases r with
      -- a failed step gives the directory back
      | error e =>
        dsimp only
        rw [wp_bind]
        refine wp_conseq (wp_exfatPutNode parent t₁) ?_
        rintro _ t₂ ⟨h₂, hexplored₂⟩
        exact ⟨h₂.linked ht₁, h₁.explored.trans ht hexplored₂, by simp⟩
      | ok i =>
        obtain ⟨name, -, hf⟩ := h₁.found rfl
        dsimp only
        rw [wp_bind]
        refine wp_conseq (wp_exfatPutNode parent t₁) ?_
        rintro _ t₂ ⟨h₂, hexplored₂⟩
        have h₁₂ : t.Explored t₂ := h₁.explored.trans ht hexplored₂
        have hi : t₂.Depth i (n + 1) :=
          hexplored₂.toGrown.depth (hf.depth ht₁ (h₁.explored.toGrown.depth hd))
        refine wp_conseq (ih (h₂.linked ht₁) hi) ?_
        rintro r t₃ ⟨ht₃, h₃, hr⟩
        exact ⟨ht₃, h₁₂.trans ht h₃, hr⟩

/-- A path that is found leads to a node below the root. -/
theorem wp_exfatLookup (path : List UInt8) {t : Volume δ} (ht : t.Linked) :
    wp (exfatLookup path) (fun r t' => t'.Linked ∧ t.Explored t' ∧ ∀ i,
      r = .ok i → ∃ m, t'.Depth i m)
      anyStop t := by
  unfold exfatLookup
  rw [wp_bind, wp_get, wp_bind]
  refine wp_conseq (wp_exfatGetNode t.root t) ?_
  rintro _ t₁ ⟨h₁, hexplored₁⟩
  have hroot : t₁.Depth t.root 0 := h₁.root ▸ .root
  refine wp_conseq (wp_lookupPath path.length (h₁.linked ht) hroot) ?_
  rintro r t₂ ⟨ht₂, h₂, hr⟩
  exact ⟨ht₂, hexplored₁.trans ht h₂, hr⟩

/-- What `exfat_mknod` and `exfat_mkdir` have done: the tree is kept, and the path leads to the node
that has been made, the last one that memory was taken for. -/
structure Volume.Makes (t : Volume δ) (path : List UInt8) (r : Rc) (t' : Volume δ) : Prop where
  sound : ∀ {D H}, t.Ready D H → t'.Sound D H
  found : r = .ok () → ∃ dir last name f k, t.fresh ≤ f ∧ t'.fresh = f + 1 ∧
    t'.Walks dir last path.length t'.root path ∧ exfatUtf8ToUtf16 last (nameMax + 1) = .ok name ∧
    t'.Finds dir name (some f) ∧
    t'.kin f = some k ∧ k.name = name.take (utf16Length name)

/-- `exfat_mknod` makes a node, or fails. -/
theorem wp_exfatMknod (path : List UInt8) {t : Volume δ} (ht : t.Linked) :
    wp (exfatMknod path) (fun r t' => t.Makes path r t') anyStop t := by
  refine wp_conseq (wp_create path attribArch ht) fun r t' h => ⟨fun hready => h.sound hready, ?_⟩
  rintro rfl
  obtain ⟨dir, last, name, f, k, hf, hlast, hw, hname, hfinds, hk, -, -, hkname⟩ := h.found
  exact ⟨dir, last, name, f, k, hf, hlast, hw, hname, hfinds, hk, hkname⟩

/-- What is undone is the node that has been made, which nobody holds. -/
theorem wp_undoMkdir (f : NodeId) (e : Errno) {t : Volume δ} {k : Kin} (ht : t.Linked)
    (hk : t.kin f = some k) (hc : k.isCached = false) :
    wp (undoMkdir f e) (fun r t' => r = .error e ∧
      ∀ {D H}, f ∉ H → t.Sound D H → t'.Sound D H) anyStop t := by
  unfold undoMkdir
  rw [wp_bind]
  refine wp_conseq (wp_delete f t) fun r t₁ h₁ => ?_
  rw [wp_bind]
  refine wp_mono (kin_exfatPutNode f t₁) ?_ (fun _ _ _ => trivial)
  intro _ t₂ h₂
  refine ⟨rfl, fun {D H} hf hsound => h₂.sound (h₁.sound hsound (fun hi => ?_) fun _ hmem => ?_)⟩
  · cases hk.symm.trans hi
    exact ht.uncached hk hc
  · exact absurd hmem hf

/-- `exfat_mkdir` makes a node, or fails. -/
theorem wp_exfatMkdir (path : List UInt8) {t : Volume δ} (ht : t.Linked) :
    wp (exfatMkdir path) (fun r t' => t.Makes path r t') anyStop t := by
  unfold exfatMkdir
  rw [wp_bind]
  refine wp_conseq (wp_create path attribDir ht) ?_
  intro r t₁ hcreate
  have ht₁ := hcreate.linked
  cases r with
  | error e => exact ⟨fun h => hcreate.sound h, by simp⟩
  | ok _ =>
    obtain ⟨dir, last, name, f, k, hf, hlast, hw, hname, hfinds, hk, hc, -, hkname⟩ := hcreate.found
    dsimp only
    rw [wp_bind]
    refine wp_conseq (wp_exfatLookup_walks hname ht₁ hw hfinds) ?_
    rintro r t₃ ⟨h₃, rfl⟩
    dsimp only
    rw [wp_bind, wp_get, wp_bind]
    -- what follows changes sizes and marks, not the tree
    have htrunc : Keeps Volume.SameKin
        (onNode f (exfatTruncate (δ := δ) t₃.ef.sb.clusterSize true)) :=
      links_onNode f (keeps_exfatTruncate _ _)
    refine wp_mono (htrunc t₃) ?_ (fun _ _ _ => trivial)
    intro r t₄ h₄
    have h₁₄ : t₁.SameKin t₄ := trans_of Volume.SameKin h₃ h₄
    -- nobody holds a node that is new
    have hundo : ∀ (e : Errno) {t' : Volume δ}, t₁.SameKin t' →
        wp (undoMkdir f e) (fun r t'' => t.Makes path r t'') anyStop t' := by
      intro e t' h'
      have hview : t'.kin = t₁.kin := h'.view
      refine wp_conseq (wp_undoMkdir f e (h'.linked ht₁) (hview ▸ hk) hc) ?_
      rintro r t'' ⟨rfl, hsound⟩
      refine ⟨fun hready => hsound (fun hmem => ?_) (h'.sound (hcreate.sound hready)), by simp⟩
      exact absurd (hready.bound hmem) (Nat.not_lt.2 hf)
    cases r with
    | error e => exact hundo e h₁₄
    | ok _ =>
      dsimp only
      rw [wp_bind]
      refine wp_mono (links_exfatFlushNode (π := Node.kin) f t₄) ?_ (fun _ _ _ => trivial)
      intro r t₅ h₅
      have h₁₅ : t₁.SameKin t₅ := trans_of Volume.SameKin h₁₄ h₅
      cases r with
      | error e => exact hundo e h₁₅
      | ok _ =>
        dsimp only
        rw [wp_bind]
        refine wp_mono (kin_exfatPutNode f t₅) ?_ (fun _ _ _ => trivial)
        intro _ t₆ h₆
        have h₁₆ : t₁.SameKin t₆ := trans_of Volume.SameKin h₁₅ h₆
        have hread : t₁.Read t₆ := TreeRel.kin h₁₆
        have hview : t₆.kin = t₁.kin := h₁₆.view
        refine ⟨fun hready => h₁₆.sound (hcreate.sound hready), fun _ =>
          ⟨dir, last, name, f, k, hf, h₁₆.fresh.trans hlast, ?_, hname, hfinds.read ht₁ hread,
            hview ▸ hk, hkname⟩⟩
        rw [h₁₆.root]
        exact hw.read ht₁ hread .root

/-! ### Renaming -/

/-- The way from `dir` to the root does not lead through `i`. -/
def Volume.Clear (t : Volume δ) (i dir : NodeId) : Prop :=
  ∃ n, KinDepth (Function.update t.kin i none) t.root dir n

/-- The same, once the directory has been read. -/
def Volume.ClearRead (t : Volume δ) (i dir : NodeId) : Prop :=
  ∀ q, t.kin dir = some q → q.isCached = true → t.Clear i dir

omit [Device δ] in
/-- The nodes that are left when one is freed. -/
theorem update_none_some {K : NodeId → Option Kin} {i x : NodeId} {k : Kin} :
    Function.update K i none x = some k ↔ x ≠ i ∧ K x = some k := by
  by_cases hx : x = i
  · rw [hx, Function.update_self]
    simp
  · rw [Function.update_of_ne hx]
    simp [hx]

omit [Device δ] in
/-- The node is not found on the way. -/
theorem wp_isAncestor (i : NodeId) (fuel : Nat) {p : NodeId} {n : Nat} {t : Volume δ}
    (ht : t.Linked) (hd : t.Depth p n) :
    wp (isAncestor i fuel p) (fun b t' => t' = t ∧ (b = false → t.Clear i p)) anyStop t := by
  induction fuel generalizing p n with
  | zero => exact trivial
  | succ fuel ih =>
    unfold isAncestor
    split
    · exact ⟨rfl, nofun⟩
    next hne =>
      rw [wp_bind]
      refine wp_getNode trivial fun m hm => ?_
      have hk := Volume.kin_of_heap hm
      cases hd with
      | root =>
        rw [show m.parent = none from ht.root hk]
        exact ⟨rfl, fun _ => ⟨0, .root⟩⟩
      | child hx hp hd =>
        cases hk.symm.trans hx
        rw [show m.parent = some _ from hp]
        refine wp_conseq (ih hd) ?_
        rintro b t' ⟨rfl, hb⟩
        refine ⟨rfl, fun hfalse => ?_⟩
        obtain ⟨j, hj⟩ := hb hfalse
        exact ⟨j + 1, .child (update_none_some.2 ⟨Ne.symm hne, hk⟩) hp hj⟩

omit [Device δ] in
/-- A file is on no way to the root but its own. -/
theorem clear_of_file {t : Volume δ} (ht : t.Linked) {i x : NodeId} {k : Kin} {n : Nat}
    (hi : t.kin i = some k) (hfile : k.isDir = false) (hx : t.Depth x n) (hne : x ≠ i) :
    t.Clear i x := by
  refine ⟨n, hx.past hne (fun hy => ht.empty hi (childless_of_isDir ht hi hfile) hy)
    fun hne' hy hp => ?_⟩
  exact ⟨_, update_none_some.2 ⟨hne', hy⟩, hp⟩

omit [Device δ] in
/-- The check of `exfat_rename`: the way from the target to the root does not lead through the node.
-/
theorem wp_targetBelow {dir i : NodeId} {n : Nat} {t : Volume δ} (ht : t.Linked)
    (hd : t.Depth dir n) :
    wp (targetBelow dir i) (fun b t' => t' = t ∧ (b = false → t.ClearRead i dir)) anyStop t := by
  unfold targetBelow
  rw [wp_bind]
  refine wp_getNode trivial fun m hm => ?_
  rw [wp_bind, wp_get]
  split
  · refine wp_conseq (wp_isAncestor i _ ht hd) ?_
    rintro b t' ⟨rfl, hb⟩
    exact ⟨rfl, fun hfalse _ _ _ => hb hfalse⟩
  next hfile =>
    have hk := Volume.kin_of_heap hm
    have hisDir : m.kin.isDir = false := Bool.eq_false_iff.2 hfile
    refine ⟨rfl, fun _ q hdir hq => clear_of_file ht hk hisDir hd ?_⟩
    rintro rfl
    cases hk.symm.trans hdir
    cases hisDir.symm.trans (ht.dirs hdir hq)

section Clear

variable {t t' : Volume δ} {i dir : NodeId}

omit [Device δ] in
/-- The directory is still not below the node when no node moves. -/
theorem Volume.Clear.mono (h : t.Clear i dir) (hroot : t'.root = t.root)
    (hmove : ∀ {y k d}, t.kin y = some k → k.parent = some d →
      ∃ k', t'.kin y = some k' ∧ k'.parent = some d) : t'.Clear i dir := by
  obtain ⟨n, hn⟩ := h
  refine ⟨n, hroot ▸ hn.mono fun hy hp => ?_⟩
  obtain ⟨hne, hy⟩ := update_none_some.1 hy
  obtain ⟨k', hk', hp'⟩ := hmove hy hp
  exact ⟨k', update_none_some.2 ⟨hne, hk'⟩, hp'⟩

omit [Device δ] in
/-- The directory is still not below the node when the tree grows. -/
theorem Volume.Clear.grown (h : t.Clear i dir) (hg : t.Grown ∅ ∅ t') : t'.Clear i dir := by
  refine h.mono hg.root fun hy hp => ?_
  obtain ⟨k', hk', -⟩ := hg.grown.stays hy (Set.notMem_empty _)
  refine ⟨k', hk', ?_⟩
  rw [hg.grown.same hy hk' (Set.notMem_empty _)]
  exact hp

omit [Device δ] in
/-- A node without children is removed, and it is not the directory itself. -/
theorem Volume.Clear.deletes {e : NodeId} {r : Rc} (h : t.Clear i dir) (ht : t.Linked)
    (hne : dir ≠ e) (hd : t.Deletes e t' r)
    (hempty : t.SameKin t' ∨ ∀ {k}, t.kin e = some k → k.child = []) : t'.Clear i dir := by
  obtain hsame | hchild := hempty
  · exact h.grown hsame.grown
  cases hd with
  | failed hsame => exact h.grown hsame.grown
  | @removed k m p _ he hp hm hb =>
    obtain ⟨n, hn⟩ := h
    refine ⟨n, hb.root ▸ hn.past hne (fun hy => ?_) fun {y l d} hne' hy hyd => ?_⟩
    · exact ht.empty he (hchild he) (update_none_some.1 hy).2
    · obtain ⟨hyi, hy⟩ := update_none_some.1 hy
      have hy' : ∃ l', t'.kin y = some l' ∧ l'.parent = some d := by
        rw [hb.kin, removed, assigned, detached, hy, Option.map_some, Option.map_some, if_neg hne']
        exact ⟨_, rfl, (if_neg hne').trans hyd⟩
      obtain ⟨l', hl', hparent⟩ := hy'
      exact ⟨l', update_none_some.2 ⟨hyi, hl'⟩, hparent⟩

omit [Device δ] in
/-- The directory is still not below the node when a node is freed. -/
theorem Volume.Clear.cleans {e : NodeId} (h : t.Clear i dir) (ht : t.Linked) (hc : t.Cleans e t') :
    t'.Clear i dir := by
  cases hc with
  | kept hsame => exact h.grown hsame.grown
  | freed he hu hb =>
    refine h.mono hb.root fun {y k d} hy hp => ⟨k, ?_, hp⟩
    rw [hb.kin, update_none_some]
    refine ⟨?_, hy⟩
    rintro rfl
    cases he.symm.trans hy
    cases (ht.unlinked he hu).symm.trans hp

end Clear

/-- No child of the directory but `i` has the name. -/
def Volume.Unclaimed (t : Volume δ) (dir i : NodeId) (name : List Nat) : Prop :=
  ∀ u q y c, t.ef.upcase = some u → t.kin dir = some q → y ∈ q.child → y ≠ i → t.kin y = some c →
    compareName u name c.name = false

omit [Device δ] in
/-- The only child with the name is the one that is found. -/
theorem Volume.Finds.only {t : Volume δ} {dir e y : NodeId} {name : List Nat} {u : Nat → Nat}
    {q c : Kin} (h : t.Finds dir name (some e)) (ht : t.Linked) (hd : t.Distinct)
    (hu : t.ef.upcase = some u) (hdir : t.kin dir = some q) (hy : y ∈ q.child) (hne : y ≠ e)
    (hc : t.kin y = some c) : compareName u name c.name = false := by
  obtain ⟨k, u', hk, -, hu', hfind⟩ := h
  obtain ⟨u'', hu'', hfolds, hall⟩ := hd
  cases hdir.symm.trans hk
  cases hu.symm.trans hu'
  cases hu.symm.trans hu''
  have he := List.mem_of_find?_eq_some hfind.symm
  have hmatch := List.find?_some hfind.symm
  obtain ⟨ke, hke, -⟩ := ht.down hdir he
  rw [hke, Option.any_some, compareName_iff hfolds] at hmatch
  rw [← Bool.not_eq_true, compareName_iff hfolds]
  intro heq
  refine hne (hall dir q hdir y hy e he c ke hc hke ?_)
  rw [compareName_iff hfolds, ← heq, hmatch]

section Moved

variable {K : NodeId → Option Kin} {k k' : Kin} {dir p i x : NodeId}
  {g : Kin → Kin} {name : List Nat}

omit [Device δ] in
/-- What the nodes are after one of them has been moved. -/
theorem moved_back (hg : ∀ k, g k = { k with
      name := name, entryOffset := (g k).entryOffset, continuations := (g k).continuations })
    (hx : attached (detached (assigned K i g) (g k) p i) dir i x = some k') :
    ∃ l, K x = some l ∧ k'.isDir = l.isDir ∧ k'.isCached = l.isCached ∧
      k'.parent = (if x = i then some dir else l.parent) ∧
      k'.name = (if x = i then name else l.name) ∧
      k'.child = if x = dir then i :: (if x = p then l.child.erase i else l.child)
        else if x = p then l.child.erase i else l.child := by
  obtain ⟨l₂, hl₂, rfl⟩ := Option.map_eq_some_iff.1 hx
  obtain ⟨l₁, hl₁, rfl⟩ := Option.map_eq_some_iff.1 hl₂
  obtain ⟨l, hl, rfl⟩ := Option.map_eq_some_iff.1 hl₁
  refine ⟨l, hl, ?_⟩
  rw [hg l]
  split <;> exact ⟨rfl, rfl, rfl, rfl, rfl⟩

omit [Device δ] in
/-- The nodes after a move. -/
theorem moved_some (k p dir i) (hg : ∀ k, g k = { k with
      name := name, entryOffset := (g k).entryOffset, continuations := (g k).continuations })
    {l : Kin} (hx : K x = some l) :
    ∃ k', attached (detached (assigned K i g) (g k) p i) dir i x = some k' ∧
      k'.parent = if x = i then some dir else l.parent := by
  rw [attached, detached, assigned, hx, Option.map_some, Option.map_some, Option.map_some, hg l]
  refine ⟨_, rfl, ?_⟩
  split <;> rfl

end Moved

omit [Device δ] in
/-- `rename_entry` keeps the tree. -/
theorem Volume.Renames.sound {t t' : Volume δ} {dir i : NodeId} {name : List Nat} {r : Rc}
    (h : t.Renames dir i name t' r) (ht : t.Sound D H) (hclear : t.ClearRead i dir)
    (hname : D → t.Unclaimed dir i name) : t'.Sound D H := by
  have hlinked := (h.linked ht.linked).1
  cases h with
  -- a failure may leave the offset of the entry changed: `g` says what became of the node
  | @failed e g hg h =>
    have hback : ∀ {x k'}, assigned t.kin i g x = some k' → ∃ l, t.kin x = some l ∧
        k'.parent = l.parent ∧
        k'.child = l.child ∧ k'.name = l.name ∧ k'.isDir = l.isDir ∧ k'.isCached = l.isCached := by
      intro x k' hx
      obtain ⟨l, hl, rfl⟩ := Option.map_eq_some_iff.1 hx
      refine ⟨l, hl, ?_⟩
      rw [hg l]
      split <;> exact ⟨rfl, rfl, rfl, rfl, rfl⟩
    refine ⟨hlinked, ?_, fun hD => h.distinct (ht.distinct hD) fun hx => ?_,
      fun hx => h.fresh.symm ▸ ht.bound hx, fun hx hk' hp hd hc => ?_, fun k' hk' => ?_⟩
    · unfold Volume.Rooted
      rw [h.root, h.kin]
      refine ht.rooted.mono (fun {y l d} hy hp => ?_) fun hx hp => ?_
      · refine ⟨_, Option.map_eq_some_iff.2 ⟨l, hy, rfl⟩, ?_⟩
        rw [hg l]
        split <;> exact hp
      · obtain ⟨l, hl, hparent, -⟩ := hback hx
        exact .inl ⟨l, hl, hparent.symm.trans hp⟩
    · obtain ⟨l, hl, -, hchild, hlname, -⟩ := hback hx
      exact ⟨l, hl, hlname.symm, fun y hy => hchild ▸ hy⟩
    · rw [h.kin] at hk'
      obtain ⟨l, hl, hparent, -, -, hisDir, hcached⟩ := hback hk'
      rw [h.root]
      exact ht.spent hx hl (hparent.symm.trans hp) (hisDir.symm.trans hd) (hcached.symm.trans hc)
    · rw [h.root, h.kin] at hk'
      obtain ⟨l, hl, -, -, hlname, -⟩ := hback hk'
      exact hlname.trans (ht.nameless l hl)
  -- `g` gives the node its name and offset; then it leaves `p` and goes into `dir`
  | @moved k m q p g _ _ hi hp hm hdir hq hg _ h =>
    obtain ⟨n, hn⟩ := hclear q hdir hq
    refine ⟨hlinked, ?_, fun hD => ?_, fun hx => h.fresh.symm ▸ ht.bound hx,
      fun {x k'} hx hk' hnone hd hc => ?_, fun k' hk' => ?_⟩
    · unfold Volume.Rooted
      rw [h.root, h.kin]
      obtain ⟨k', hk', hparent⟩ := moved_some k p dir i hg hi
      refine ht.rooted.moved hn hk' (hparent.trans (if_pos rfl)) (fun hne hy => ?_) fun hy => ?_
      · obtain ⟨l', hl', hparent'⟩ := moved_some k p dir i hg hy
        exact ⟨l', hl', hparent'.trans (if_neg hne)⟩
      · obtain ⟨l, hl, -⟩ := moved_back hg hy
        exact ⟨l, hl⟩
    -- Distinct names are the part that depends on the new name.
    · obtain ⟨u, hu, hfolds, hall⟩ := ht.distinct hD
      refine ⟨u, h.upcase u hu, hfolds, fun d m' hm' => ?_⟩
      have hm'' := hm'
      rw [h.kin] at hm'' ⊢
      obtain ⟨l, hl, -, -, -, -, hchild⟩ := moved_back hg hm''
      have hsub : ∀ y ∈ (if d = p then l.child.erase i else l.child), y ∈ l.child := by
        intro y hy
        split at hy
        · exact List.mem_of_mem_erase hy
        · exact hy
      -- the names of the others are as they were
      have hothers : ∀ {is : List NodeId}, (∀ y ∈ is, y ∈ l.child) → i ∉ is → KinDistinct u
          (attached (detached (assigned t.kin i g) (g k) p i) dir i) is := by
        intro is his hnot
        refine (hall d l hl).mono his fun x hx {c} hc => ?_
        obtain ⟨c₀, hc₀, -, -, -, hcname, -⟩ := moved_back hg hc
        have hne : x ≠ i := fun he => hnot (he ▸ hx)
        exact ⟨c₀, hc₀, by rw [hcname, if_neg hne]⟩
      by_cases hdd : d = dir
      · subst hdd
        rw [if_pos rfl] at hchild
        have hnodup := hlinked.nodup hm'
        rw [hchild] at hnodup ⊢
        have hnot := (List.nodup_cons.1 hnodup).1
        refine (hothers hsub hnot).cons hfolds fun y hy c c' hc hc' => ?_
        obtain ⟨c₁, -, -, -, -, hcname, -⟩ := moved_back hg hc
        obtain ⟨c₀, hc₀, -, -, -, hcname', -⟩ := moved_back hg hc'
        have hne : y ≠ i := fun he => hnot (he ▸ hy)
        rw [if_pos rfl] at hcname
        rw [if_neg hne] at hcname'
        rw [hcname, hcname']
        exact hname hD u l y c₀ hu hl (hsub y hy) hne hc₀
      -- the other directories have what they had, without the node
      · rw [if_neg hdd] at hchild
        rw [hchild]
        refine hothers hsub fun hmem => ?_
        rw [← hchild] at hmem
        obtain ⟨c, hc, hcd⟩ := hlinked.down hm' hmem
        rw [h.kin] at hc
        obtain ⟨c₀, -, -, -, hparent, -⟩ := moved_back hg hc
        rw [if_pos rfl] at hparent
        exact hdd (Option.some.inj (hcd.symm.trans hparent))
    · rw [h.kin] at hk'
      obtain ⟨l, hl, hisDir, hcached, hparent, -⟩ := moved_back hg hk'
      -- the node that moved has a parent, so it is not one that is held outside
      rw [h.root]
      rw [hparent] at hnone
      split at hnone
      · cases hnone
      · exact ht.spent hx hl hnone (hisDir.symm.trans hd) (hcached.symm.trans hc)
    · rw [h.root, h.kin] at hk'
      obtain ⟨l, hl, -, -, -, hname', -⟩ := moved_back hg hk'
      -- the root is not moved, so it keeps its empty name
      rw [hname', if_neg (ht.linked.ne_root hi hp).symm]
      exact ht.nameless l hl

omit [Device δ] in
/-- The name is still free when no child is added. -/
theorem Volume.Unclaimed.back {t t' : Volume δ} {dir i : NodeId} {name : List Nat}
    (h : t.Unclaimed dir i name) (hup : t.ef.Settled t'.ef) (hsome : t.ef.upcase.isSome = true)
    (hback : ∀ {x k'}, t'.kin x = some k' → ∃ k, t.kin x = some k ∧ k.name = k'.name ∧
      ∀ y ∈ k'.child, y ∈ k.child) : t'.Unclaimed dir i name := by
  intro u q y c hu hq hy hne hc
  obtain ⟨u₀, hu₀⟩ := Option.isSome_iff_exists.1 hsome
  cases (hup u₀ hu₀).symm.trans hu
  obtain ⟨q₀, hq₀, -, hsub⟩ := hback hq
  obtain ⟨c₀, hc₀, hname, -⟩ := hback hc
  rw [← hname]
  exact h u q₀ y c₀ hu₀ hq₀ (hsub y hy) hne hc₀

omit [Device δ] in
/-- The name is still free in a tree of the same form. -/
theorem Volume.SameBy.unclaimed {t t' : Volume δ} {dir i : NodeId} {name : List Nat}
    (hs : t.SameKin t') (h : t.Unclaimed dir i name) (hsome : t.ef.upcase.isSome = true) :
    t'.Unclaimed dir i name := by
  have hview : t'.kin = t.kin := hs.view
  exact h.back hs.upcase hsome fun hx => ⟨_, hview ▸ hx, rfl, fun _ hy => hy⟩

omit [Device δ] in
/-- The nodes that are left were there. -/
theorem Volume.Cleans.back {t t' : Volume δ} {e x : NodeId} {k' : Kin} (h : t.Cleans e t')
    (hx : t'.kin x = some k') : t.kin x = some k' := by
  cases h with
  | kept h =>
    have hview : t'.kin = t.kin := h.view
    exact hview ▸ hx
  | freed _ _ h =>
    rw [h.kin] at hx
    exact (update_none_some.1 hx).2

omit [Device δ] in
/-- Freeing a node leaves the upcase table alone. -/
theorem Volume.Cleans.settled {t t' : Volume δ} {e : NodeId} (h : t.Cleans e t') :
    t.ef.Settled t'.ef := by
  cases h with
  | kept h => exact h.upcase
  | freed _ _ h => exact h.upcase

omit [Device δ] in
/-- Once the node with the name has been removed, no other one has it. -/
theorem Volume.Finds.deleted {t t' : Volume δ} {dir e i : NodeId} {name : List Nat}
    (h : t.Finds dir name (some e)) (ht : t.Linked) (hd : t.Distinct)
    (hdel : t.Deletes e t' (.ok ())) : t'.Unclaimed dir i name := by
  cases hdel with
  | @removed k m p _ he hp hm hb =>
    have ht' : t'.Linked := hb.linked (linked_removed ht he hp hm)
    have hout : ∃ k', t'.kin e = some k' ∧ k'.parent = none := by
      rw [hb.kin, removed, assigned, detached, he, Option.map_some, Option.map_some, if_pos rfl]
      exact ⟨_, rfl, if_pos rfl⟩
    obtain ⟨k', hk', hnone⟩ := hout
    intro u q y c hu hq hy hne hc
    have hye : y ≠ e := by
      rintro rfl
      exact ht'.not_mem_child hq hk' hnone hy
    have hu₀ : t.ef.upcase = some u := by
      obtain ⟨u₀, hu₀, -⟩ := hd
      cases (hb.upcase u₀ hu₀).symm.trans hu
      exact hu₀
    rw [hb.kin] at hq hc
    obtain ⟨q₀, hq₀, -, hsub, -⟩ := removed_back hq
    obtain ⟨c₀, hc₀, hname, -⟩ := removed_back hc
    rw [← hname]
    exact h.only ht hd hu₀ hq₀ (hsub y hy) hye hc₀

/-- The target is taken out of its directory, or the rename fails. -/
theorem wp_unlinkTarget (i e : NodeId) {t : Volume δ} (ht : t.Linked) (he : t.Readable e) :
    wp (unlinkTarget i e) (fun r t' => t.Unlinks e r t') anyStop t := by
  have hfailed : ∀ err : Errno, t.Unlinks e (.error err) t := by
    intro err
    have hsame := refl_of Volume.SameKin t
    exact ⟨fun h => h.toSound, t, .refl t, ht, .failed hsame, .inl hsame⟩
  unfold unlinkTarget
  rw [wp_bind]
  refine wp_getNode trivial fun n hn => ?_
  rw [wp_bind]
  refine wp_getNode trivial fun en hen => ?_
  split
  · split
    · exact wp_exfatRmdir e ht he
    · exact hfailed _
  · split
    · exact wp_exfatUnlink e ht
    · exact hfailed _

/-- The target of a rename is out of the way. -/
theorem wp_removeTarget {dir i e : NodeId} {name : List Nat} {n : Nat} {t : Volume δ}
    (ht : t.Ready D H) (hd : t.Depth dir n) (hfinds : t.Finds dir name (some e))
    (hclear : t.ClearRead i dir) :
    wp (removeTarget i e) (fun r t' => t'.Sound D H ∧
      (r = .ok () → t'.ClearRead i dir ∧ (D → t'.Unclaimed dir i name))) anyStop t := by
  -- the target is one level below the directory, so the two differ
  have hde := hfinds.depth ht.linked hd
  have hne : dir ≠ e := by
    rintro rfl
    have := KinDepth.unique ht.linked hd hde
    omega
  unfold removeTarget
  rw [wp_bind]
  refine wp_conseq (wp_unlinkTarget i e ht.linked fun _ _ _ _ => ⟨_, hde⟩) ?_
  intro r t₁ h₁
  obtain ⟨t₀, hexplored, ht₀, hdel, hempty⟩ := h₁.deleted
  have hsound₁ := h₁.sound ht
  -- the reference that the lookup took
  rw [wp_bind]
  refine wp_mono (kin_exfatPutNode e t₁) ?_ (fun _ _ _ => trivial)
  intro _ t₂ h₂
  have hsound₂ := h₂.sound hsound₁
  cases r with
  | error err =>
    dsimp only
    rw [wp_bind]
    refine wp_conseq (wp_exfatCleanupNode e t₂) fun _ t₃ h₃ => ?_
    exact ⟨h₃.sound hsound₂, by simp⟩
  | ok _ =>
    refine wp_conseq (wp_exfatCleanupNode e t₂) fun _ t₃ h₃ =>
      ⟨h₃.sound hsound₂, fun _ => ⟨?_, fun hD => ?_⟩⟩
    -- the directory is not below the node that moves, before and after the target goes
    · intro _ _ _
      obtain ⟨q, -, hq, hc, -⟩ := hfinds
      have hclear₀ : t₀.Clear i dir := (hclear q hq hc).grown hexplored.toGrown
      have hclear₁ : t₁.Clear i dir := hclear₀.deletes ht₀ hne hdel hempty
      exact (hclear₁.grown h₂.grown).cleans hsound₂.linked h₃
    -- with the target gone, no other child has the name
    · have hfinds₀ : t₀.Finds dir name (some e) := hfinds.read ht.linked hexplored.toRead
      have hdistinct₀ := (hexplored.ready ht).distinct hD
      have hfree₁ : t₁.Unclaimed dir i name := hfinds₀.deleted ht₀ hdistinct₀ hdel
      obtain ⟨u, hu, -⟩ := hsound₁.distinct hD
      obtain ⟨u₂, hu₂, -⟩ := hsound₂.distinct hD
      refine (h₂.unclaimed hfree₁ (by rw [hu]; rfl)).back h₃.settled (by rw [hu₂]; rfl) fun hx => ?_
      exact ⟨_, h₃.back hx, rfl, fun _ hy => hy⟩

/-- `exfat_rename` keeps the tree. -/
theorem wp_exfatRename (oldPath newPath : List UInt8) {t : Volume δ} (ht : t.Ready D H) :
    wp (exfatRename oldPath newPath) (fun _ t' => t'.Sound D H) anyStop t := by
  -- every failure gives both nodes back
  have hput : ∀ (dir i : NodeId) (rc : Rc) {t' : Volume δ}, t'.Sound D H → wp (do
      putBoth dir i
      pure rc) (fun _ t'' => t''.Sound D H) anyStop t' := by
    intro dir i rc t' ht'
    rw [wp_bind]
    refine wp_mono (kin_putBoth dir i t') ?_ (fun _ _ _ => trivial)
    intro _ t'' h''
    exact h''.sound ht'
  -- the three ways to `rename_entry` end here
  have hinto : ∀ {dir i : NodeId} {name : List Nat} {t' : Volume δ},
      t'.Sound D H → t'.ClearRead i dir →
      (D → t'.Unclaimed dir i name) →
      wp (renameInto dir i name) (fun _ t'' => t''.Sound D H) anyStop t' := by
    intro dir i name t' ht' hclear hname
    exact wp_conseq (wp_renameInto dir i name t') fun _ _ h => h.sound ht' hclear hname
  unfold exfatRename
  rw [wp_bind]
  refine wp_conseq (wp_exfatLookup oldPath ht.linked) ?_
  rintro r t₁ ⟨ht₁, h₁, -⟩
  have hready₁ := h₁.ready ht
  cases r with
  | error e => exact hready₁.toSound
  | ok i =>
    dsimp only
    rw [wp_bind]
    refine wp_conseq (wp_exfatSplit ht₁) ?_
    rintro r t₂ ⟨ht₂, h₂, hs⟩
    have hready₂ := h₂.ready hready₁
    match r with
    | .error e =>
      dsimp only
      rw [wp_bind]
      refine wp_mono (kin_exfatPutNode i t₂) ?_ (fun _ _ _ => trivial)
      intro _ t₃ h₃
      exact h₃.sound hready₂.toSound
    | .ok ⟨dir, existing, name⟩ =>
      obtain ⟨last, hw, -⟩ := (hs _ rfl).walks
      have hfinds := (hs _ rfl).finds
      obtain ⟨n, -, hd⟩ := hw.depth ht₂ .root
      dsimp only at hfinds hd ⊢
      rw [wp_bind]
      refine wp_conseq (wp_targetBelow ht₂ hd) ?_
      rintro b t₃ ⟨rfl, hb⟩
      -- `exfat_rename` refuses to move a directory below itself
      cases b with
      | true =>
        rw [if_pos rfl]
        cases existing with
        | none => exact hput dir i _ hready₂.toSound
        | some e =>
          rw [wp_bind]
          refine wp_mono (kin_exfatPutNode e t₃) ?_ (fun _ _ _ => trivial)
          intro _ t₄ h₄
          exact hput dir i _ (h₄.sound hready₂.toSound)
      | false =>
        rw [if_neg Bool.false_ne_true]
        have hclear := hb rfl
        have hup : D → t₁.ef.upcase.isSome = true := by
          intro hD
          obtain ⟨u, hu, -⟩ := hready₁.distinct hD
          rw [hu]
          rfl
        -- no target, the node itself, or another node that has to go
        cases existing with
        | none =>
          refine hinto hready₂.toSound hclear fun hD => ?_
          intro u q y c hu hq hy _ hc
          exact (hfinds (.inl (hup hD))).none_match hq hu hy hc
        | some e =>
          have hfound := hfinds (.inr rfl)
          dsimp only
          by_cases hei : e = i
          · subst hei
            rw [if_pos rfl, wp_bind]
            refine wp_mono (kin_exfatPutNode e t₃) ?_ (fun _ _ _ => trivial)
            intro _ t₄ h₄
            have hview : t₄.kin = t₃.kin := h₄.view
            refine hinto (h₄.sound hready₂.toSound) (fun q hq hc => ?_) fun hD => ?_
            · exact (hclear q (hview ▸ hq) hc).grown h₄.grown
            · refine h₄.unclaimed ?_ (h₂.upcase.isSome (hup hD))
              -- the only child with the name is the one that is renamed
              intro u q y c hu hq hy hne hc
              exact hfound.only ht₂ (hready₂.distinct hD) hu hq hy hne hc
          · rw [if_neg hei, wp_bind]
            refine wp_conseq (wp_removeTarget hready₂ hd hfound hclear) ?_
            rintro r t₄ ⟨hsound₄, hr⟩
            cases r with
            | error err => exact hput dir i _ hsound₄
            | ok _ =>
              obtain ⟨hclear₄, hfree⟩ := hr rfl
              exact hinto hsound₄ hclear₄ hfree

/-! ### Dropping the tree -/

section Reset

omit [Device δ]

/-- Giving references back leaves the family tree alone. -/
theorem kin_putLoop (i : NodeId) (k : Nat) : Keeps Volume.SameKin (putLoop (δ := δ) i k) := by
  induction k with
  | zero => exact keeps_pure _
  | succ k ih => exact keeps_bind (kin_exfatPutNode i) fun _ => ih

instance (n : Node) : Calm (warnReferences (δ := δ) n) :=
  ⟨keeps_ite (keeps_bind (Calm.keeps (m := exfatGetName n)) fun _ => keeps_pure _) (keeps_pure _)⟩

/-- Giving references back leaves the family tree alone. -/
theorem kin_dropReferences (i : NodeId) : Keeps Volume.SameKin (dropReferences (δ := δ) i) := by
  refine keeps_bind (links_getNode i) fun n => keeps_look fun t => ?_
  refine keeps_bind (links_onVolume _) fun _ => keeps_ite ?_ (keeps_ite ?_ ?_)
  · exact keeps_bind (links_onVolume _) fun _ => keeps_throw _
  · exact kin_exfatPutNode i
  · exact kin_putLoop i _

/-- The node that is freed is not in memory. -/
theorem wp_freeNode (i : NodeId) (t : Volume δ) :
    wp (freeNode i) (fun _ t' => t.Becomes (Function.update t.kin i none) t') anyStop t := by
  refine ⟨rfl, rfl, refl_of Ef.Settled _, ?_⟩
  funext x
  unfold Volume.kin Volume.view
  dsimp only
  by_cases hx : x = i
  · rw [hx, Function.update_self, Function.update_self, Option.map_none]
  · rw [Function.update_of_ne hx, Function.update_of_ne hx]

/-- What `reset_cache` leaves: the node has no children any more, and the other nodes that are left
are where they were. -/
structure Volume.ResetAt (t : Volume δ) (i : NodeId) (t' : Volume δ) : Prop where
  linked : t'.Linked
  rooted : t'.Rooted
  distinct : t.Distinct → t'.Distinct
  root : t'.root = t.root
  fresh : t'.fresh = t.fresh
  empty : ∀ {k}, t'.kin i = some k → k.child = []
  stays : ∀ {x k'}, t'.kin x = some k' → ∃ k, t.kin x = some k ∧ k'.parent = k.parent ∧
    k'.isDir = k.isDir ∧ k'.name = k.name ∧ (x ≠ i → k'.parent = none → k'.isCached = k.isCached)

/-- The end of `reset_cache`. -/
theorem wp_resetNode {i : NodeId} {k : Kin} {t : Volume δ} (ht : t.Linked) (hr : t.Rooted)
    (hi : t.kin i = some k) (hempty : k.child = []) :
    wp (resetNode i) (fun _ t' => t.ResetAt i t') anyStop t := by
  unfold resetNode
  rw [wp_bind]
  refine wp_updateNode (g := fun k => { k with isCached := false }) (fun _ => rfl) ?_
  intro t₁ h₁
  refine wp_mono (kin_dropReferences i t₁) ?_ (fun _ _ _ => trivial)
  intro _ t₂ h₂
  have h := h₁.becomes.same h₂
  -- only the mark of the node changes
  have hback : ∀ {x k'}, assigned t.kin i (fun k => { k with isCached := false }) x = some k' →
      ∃ l, t.kin x = some l ∧ k' = { l with isCached := k'.isCached } ∧
        (x ≠ i → k'.isCached = l.isCached) := by
    intro x k' hx
    obtain ⟨l, hl, rfl⟩ := Option.map_eq_some_iff.1 hx
    refine ⟨l, hl, ?_⟩
    split
    next hxi => exact ⟨rfl, fun hne => absurd hxi hne⟩
    · exact ⟨rfl, fun _ => rfl⟩
  refine ⟨h.linked ?_, ?_, fun hd => h.distinct hd fun hx => ?_, h.root,
    h.fresh, fun {k'} hk' => ?_,
    fun {x k'} hx => ?_⟩
  -- the node is marked as unread, and it has no children
  · refine linked_assigned ht (fun x l => ?_) (fun x l => ?_) (fun x l hl => ?_) (fun x l => ?_)
      fun x l _ hu => ?_
    · split <;> rfl
    · split <;> rfl
    · split
      next hxi =>
        subst hxi
        cases hi.symm.trans hl
        exact .inr ⟨rfl, hempty⟩
      · exact .inl rfl
    · split <;> exact ⟨rfl, rfl, rfl, rfl⟩
    · split at hu <;> exact .inl hu
  · unfold Volume.Rooted
    rw [h.root, h.kin]
    refine hr.mono (fun {y l d} hy hp => ?_) fun hx hp => ?_
    · refine ⟨_, Option.map_eq_some_iff.2 ⟨l, hy, rfl⟩, ?_⟩
      split <;> exact hp
    · obtain ⟨l, hl, hsame, -⟩ := hback hx
      rw [hsame] at hp
      exact .inl ⟨l, hl, hp⟩
  · obtain ⟨l, hl, hsame, -⟩ := hback hx
    rw [hsame]
    exact ⟨l, hl, rfl, fun _ hy => hy⟩
  · rw [h.kin] at hk'
    obtain ⟨l, hl, hsame, -⟩ := hback hk'
    cases hi.symm.trans hl
    rw [hsame]
    exact hempty
  · rw [h.kin] at hx
    obtain ⟨l, hl, hsame, hcached⟩ := hback hx
    refine ⟨l, hl, ?_, ?_, ?_, fun hne _ => hcached hne⟩ <;> rw [hsame]

/-- A node without children is taken out of its directory and freed. -/
theorem wp_detachFree {p : NodeId} {t : Volume δ} (ht : t.Linked) (hr : t.Rooted)
    (hempty : ∀ {k}, t.kin p = some k → k.child = []) :
    wp (do
      treeDetach p
      freeNode p) (fun _ t' => t'.Linked ∧ t'.Rooted ∧ (t.Distinct → t'.Distinct) ∧
        t'.root = t.root ∧
        t'.fresh = t.fresh ∧ ∀ {x k'}, t'.kin x = some k' → x ≠ p ∧ ∃ k, t.kin x = some k ∧
          k'.parent = k.parent ∧ k'.isDir = k.isDir ∧ k'.name = k.name ∧ k'.isCached = k.isCached)
      anyStop t := by
  rw [wp_bind]
  refine wp_treeDetach fun k q m hk hq hm t₁ h₁ => ?_
  refine wp_conseq (wp_freeNode p t₁) fun _ t₂ h₂ => ?_
  -- between the two steps the node is loose
  have ht₁ := h₁.linked (linked_detached ht hk hq hm)
  have hp₁ : ∃ k', t₁.kin p = some k' ∧ k'.parent = none := by
    rw [h₁.kin, detached, hk, Option.map_some]
    exact ⟨_, rfl, if_pos rfl⟩
  obtain ⟨k', hk', hnone⟩ := hp₁
  -- it had a parent, so it is not the root
  have hne : p ≠ t₁.root := by
    rw [h₁.root]
    exact ht.ne_root hk hq
  have hback : ∀ {x l'}, t₂.kin x = some l' → x ≠ p ∧ ∃ l, t.kin x = some l ∧ l'.parent = l.parent ∧
      l'.isDir = l.isDir ∧ l'.isCached = l.isCached ∧ l.name = l'.name ∧
      ∀ y ∈ l'.child, y ∈ l.child := by
    intro x l' hx
    rw [h₂.kin, h₁.kin, update_none_some] at hx
    obtain ⟨hxp, hx⟩ := hx
    obtain ⟨l, hl, rfl⟩ := Option.map_eq_some_iff.1 hx
    refine ⟨hxp, l, hl, if_neg hxp, rfl, rfl, rfl, fun y hy => ?_⟩
    dsimp only at hy
    split at hy
    · exact List.mem_of_mem_erase hy
    · exact hy
  -- nothing but the node and its place in the list of its parent is gone
  refine ⟨h₂.linked (linked_freed ht₁ hk' hnone hne), ?_, fun hd => ?_, h₂.root.trans h₁.root,
    h₂.fresh.trans h₁.fresh, fun hx => ?_⟩
  · unfold Volume.Rooted
    rw [h₂.root, h₁.root, h₂.kin, h₁.kin]
    refine (hr.detached ht hk (p := q) (hempty hk)).mono
      (fun {y l d} hy hd => ⟨l, ?_, hd⟩) fun hx hd => ?_
    · refine update_none_some.2 ⟨?_, hy⟩
      rintro rfl
      rw [h₁.kin] at hk'
      cases hk'.symm.trans hy
      cases hnone.symm.trans hd
    · exact .inl ⟨_, (update_none_some.1 hx).2, hd⟩
  · have hall : t.Becomes t₂.kin t₂ := ⟨h₂.root.trans h₁.root, h₂.fresh.trans h₁.fresh,
      trans_of Ef.Settled h₁.becomes.upcase h₂.upcase, rfl⟩
    refine hall.distinct hd fun hx => ?_
    obtain ⟨-, l, hl, -, -, -, hname, hsub⟩ := hback hx
    exact ⟨l, hl, hname, hsub⟩
  · obtain ⟨hxp, l, hl, hparent, hisDir, hcached, hname, -⟩ := hback hx
    exact ⟨hxp, l, hl, hparent, hisDir, hname.symm, hcached⟩

/-- The nodes below the one whose cache is reset are freed. -/
theorem wp_resetCache (fuel : Nat) {i : NodeId} {t : Volume δ} (ht : t.Linked) (hr : t.Rooted) :
    wp (resetCache fuel i) (fun _ t' => t.ResetAt i t') anyStop t := by
  -- On the fuel; the source recurses into the first child and frees it, until there is none.
  induction fuel generalizing i t with
  | zero => exact trivial
  | succ fuel ih =>
    unfold resetCache
    rw [wp_bind]
    refine wp_getNode trivial fun n hn => ?_
    have hk := Volume.kin_of_heap hn
    cases hfirst : n.first with
    | none =>
      refine wp_resetNode ht hr hk ?_
      have hhead : n.kin.child.head? = none := (ht.first hk).symm.trans hfirst
      exact List.head?_eq_none_iff.1 hhead
    | some p =>
      dsimp only
      rw [wp_bind]
      -- what is below the first child goes first
      refine wp_conseq (ih ht hr) fun _ t₁ h₁ => ?_
      have hfree := wp_detachFree h₁.linked h₁.rooted h₁.empty
      rw [wp_bind] at hfree ⊢
      refine wp_conseq hfree fun _ t₂ h₂ => ?_
      rw [wp_bind]
      refine wp_conseq h₂ ?_
      rintro _ t₃ ⟨ht₃, hr₃, hdistinct₃, hroot₃, hfresh₃, hstays₃⟩
      refine wp_conseq (ih ht₃ hr₃) fun _ t₄ h₄ => ?_
      refine ⟨h₄.linked, h₄.rooted, fun hd => h₄.distinct (hdistinct₃ (h₁.distinct hd)),
        h₄.root.trans (hroot₃.trans h₁.root), h₄.fresh.trans (hfresh₃.trans h₁.fresh), h₄.empty,
        fun {x k'} hx => ?_⟩
      -- the child that was freed is not among those that are left
      obtain ⟨k₃, hk₃, hparent₃, hisDir₃, hname₃, hcached₃⟩ := h₄.stays hx
      obtain ⟨hxp, k₁, hk₁, hparent₁, hisDir₁, hname₁, hcached₁⟩ := hstays₃ hk₃
      obtain ⟨k₀, hk₀, hparent₀, hisDir₀, hname₀, hcached₀⟩ := h₁.stays hk₁
      refine ⟨k₀, hk₀, hparent₃.trans (hparent₁.trans hparent₀),
        hisDir₃.trans (hisDir₁.trans hisDir₀),
        hname₃.trans (hname₁.trans hname₀), fun hne hnone => ?_⟩
      have hnone₁ : k₁.parent = none := hparent₁.symm.trans (hparent₃.symm.trans hnone)
      exact (hcached₃ hne hnone).trans (hcached₁.trans (hcached₀ hxp hnone₁))

/-- `exfat_reset_cache` keeps the tree. -/
theorem wp_exfatResetCache {t : Volume δ} (ht : t.Sound D H) :
    wp (exfatResetCache (δ := δ)) (fun _ t' => t'.Sound D H) anyStop t := by
  unfold exfatResetCache
  rw [wp_bind, wp_get]
  refine wp_conseq (wp_resetCache (t.fresh + 1) ht.linked ht.rooted) fun _ t' h => ?_
  refine ⟨h.linked, h.rooted, fun hD => h.distinct (ht.distinct hD), fun hx =>
    h.fresh.symm ▸ ht.bound hx,
    fun {x k'} hx hk' hp hd hc => ?_, fun k' hk' => ?_⟩
  · rw [h.root]
    by_cases hxr : x = t.root
    · exact hxr
    · obtain ⟨k, hk, hparent, hisDir, -, hcached⟩ := h.stays hk'
      exact ht.spent hx hk (hparent.symm.trans hp) (hisDir.symm.trans hd)
        ((hcached hxr hp).symm.trans hc)
  · rw [h.root] at hk'
    obtain ⟨k, hk, -, -, hname, -⟩ := h.stays hk'
    exact hname.trans (ht.nameless k hk)

end Reset

/-! ### Runs -/

/-- A freshly mounted volume, whose root is the one node that is handed out. -/
theorem exfatMount_sound {t : Volume δ} (ht : t.Vacant) :
    wp (exfatMount (δ := δ)) (fun rc t' => rc = .ok () → (D → t'.Distinct) → t'.Sound D {t'.root})
      anyStop t := by
  refine wp_conseq (exfatMount_linked ht) fun rc t' h hrc hD => ?_
  obtain ⟨hlinked, hshallow, hnameless⟩ := h hrc
  refine ⟨hlinked, fun x k d hx hp => ?_, hD, fun hx => ?_, fun hx _ _ _ _ => hx, hnameless⟩
  · obtain rfl | hp' := hshallow x k hx
    · cases hp.symm.trans (hlinked.root hx)
    · exact ⟨1, .child hx hp' .root⟩
  · rw [show _ = t'.root from hx]
    exact hlinked.rooted

/-- The calls that read directories and change the tree.  Those for a path look it up themselves;
the others are given a node that a lookup has handed out. -/
inductive TreeOp
  | lookup (path : List UInt8)
  | cacheDirectory (dir : NodeId)
  | mknod (path : List UInt8)
  | mkdir (path : List UInt8)
  | unlink (i : NodeId)
  | rmdir (i : NodeId)
  | rename (oldPath newPath : List UInt8)
  | put (i : NodeId)
  | cleanup (i : NodeId)
  | resetCache

/-- The node a call is given. -/
def TreeOp.target : TreeOp → Option NodeId
  | .cacheDirectory i | .unlink i | .rmdir i | .put i | .cleanup i => some i
  | _ => none

/-- The node a call hands out. -/
def TreeOp.run : TreeOp → TreeM δ (Option NodeId)
  | .lookup path => do
    -- the node that is found is kept by the caller, and any other result is dropped
    match ← exfatLookup path with
    | .ok i => pure (some i)
    | .error _ => pure none
  | .cacheDirectory dir => do
    let _ ← exfatCacheDirectory dir
    pure none
  | .mknod path => do
    let _ ← exfatMknod path
    pure none
  | .mkdir path => do
    let _ ← exfatMkdir path
    pure none
  | .unlink i => do
    let _ ← exfatUnlink i
    pure none
  | .rmdir i => do
    let _ ← exfatRmdir i
    pure none
  | .rename oldPath newPath => do
    let _ ← exfatRename oldPath newPath
    pure none
  | .put i => do
    exfatPutNode i
    pure none
  | .cleanup i => do
    let _ ← exfatCleanupNode i
    pure none
  | .resetCache => do
    exfatResetCache
    pure none

/-- One call keeps the tree, and what it hands out is below the root. -/
theorem TreeOp.sound {op : TreeOp} {t : Volume δ} (ht : t.Ready D H)
    (hop : ∀ i, op.target = some i → i ∈ H) :
    wp op.run (fun o t' => t'.Sound D (H ∪ {i | o = some i})) anyStop t := by
  have hnone : ∀ {t' : Volume δ}, t'.Sound D H →
      t'.Sound D (H ∪ {i | (none : Option NodeId) = some i}) := by
    intro t' ht'
    have hset : H ∪ {i | (none : Option NodeId) = some i} = H := by simp
    rw [hset]
    exact ht'
  cases op with
  | lookup path =>
    unfold TreeOp.run
    rw [wp_bind]
    refine wp_conseq (wp_exfatLookup path ht.linked) ?_
    rintro r t' ⟨-, h, hr⟩
    have ht' := (h.ready ht).toSound
    cases r with
    | error e => exact hnone ht'
    -- a path hands out a node that is below the root
    | ok i =>
      obtain ⟨n, hn⟩ := hr i rfl
      have hset : H ∪ {j | some i = some j} = insert i H := by
        ext j
        simp [eq_comm]
      show t'.Sound D (H ∪ {j | some i = some j})
      rw [hset]
      exact ht'.hold hn
  | cacheDirectory dir =>
    unfold TreeOp.run
    rw [wp_bind]
    refine wp_conseq (wp_cacheReadable ht.linked (ht.readable (hop dir rfl))) ?_
    rintro r t' ⟨-, h⟩
    exact hnone (h.ready ht).toSound
  | mknod path =>
    unfold TreeOp.run
    rw [wp_bind]
    exact wp_conseq (wp_exfatMknod path ht.linked) fun _ _ h => hnone (h.sound ht)
  | mkdir path =>
    unfold TreeOp.run
    rw [wp_bind]
    exact wp_conseq (wp_exfatMkdir path ht.linked) fun _ _ h => hnone (h.sound ht)
  | unlink i =>
    unfold TreeOp.run
    rw [wp_bind]
    exact wp_conseq (wp_exfatUnlink i ht.linked) fun _ _ h => hnone (h.sound ht)
  | rmdir i =>
    unfold TreeOp.run
    rw [wp_bind]
    exact wp_conseq (wp_exfatRmdir i ht.linked (ht.readable (hop i rfl))) fun _ _ h =>
      hnone (h.sound ht)
  | rename oldPath newPath =>
    unfold TreeOp.run
    rw [wp_bind]
    exact wp_conseq (wp_exfatRename oldPath newPath ht) fun _ _ h => hnone h
  | put i =>
    unfold TreeOp.run
    rw [wp_bind]
    exact wp_conseq (wp_exfatPutNode i t) fun _ _ h => hnone (h.1.sound ht.toSound)
  | cleanup i =>
    unfold TreeOp.run
    rw [wp_bind]
    exact wp_conseq (wp_exfatCleanupNode i t) fun _ _ h => hnone (h.sound ht.toSound)
  | resetCache =>
    unfold TreeOp.run
    rw [wp_bind]
    exact wp_conseq (wp_exfatResetCache ht.toSound) fun _ _ h => hnone h

/-- The volumes that a mount and any number of calls lead to, with the nodes that were handed out.
If `D` holds, the root directory and every other one that is read while the calls run list different
names. -/
inductive Volume.Reached (D : Prop) (t₀ : Volume δ) : Set NodeId → Volume δ → Prop
  | mount {t : Volume δ} (h : exfatMount t₀ = .ok (.ok ()) t) (hd : D → t.Distinct) :
    Reached D t₀ {t.root} t
  | call {H : Set NodeId} {t t' : Volume δ} {op : TreeOp} {o : Option NodeId} (h : Reached D t₀ H t)
    (hlists : D → t.Lists) (hop : ∀ i, op.target = some i → i ∈ H) (hrun : op.run t = .ok o t') :
    Reached D t₀ (H ∪ {i | o = some i}) t'
  -- `exfat_readdir` takes a reference to a node of the directory
  | readdir {H : Set NodeId} {t t' : Volume δ} {i : NodeId} {n : Node} (h : Reached D t₀ H t)
    (hi : t.heap i = some n) (hp : n.parent.isSome = true) (hrun : exfatGetNode i t = .ok ⟨⟩ t') :
    Reached D t₀ (insert i H) t'

/-- A volume that has been reached is sound. -/
theorem Volume.Reached.sound {t₀ t : Volume δ} (ht₀ : t₀.Vacant) (h : t₀.Reached D H t) :
    t.Sound D H := by
  induction h with
  | mount hrun hd => exact wp_anyStop_iff.1 (exfatMount_sound ht₀) _ _ hrun rfl hd
  | call _ hlists hop hrun ih => exact wp_anyStop_iff.1 (TreeOp.sound ⟨ih, hlists⟩ hop) _ _ hrun
  | @readdir _ t _ i n _ hi hp hrun ih =>
    obtain ⟨d, hd⟩ := Option.isSome_iff_exists.1 hp
    obtain ⟨m, hdepth⟩ := ih.rooted i n.kin d (Volume.kin_of_heap hi) hd
    obtain ⟨hsame, -⟩ := wp_anyStop_iff.1 (wp_exfatGetNode i t) _ _ hrun
    exact hsame.sound (ih.hold hdepth)

/-! ### The pointers -/

section Pointers

omit [Device δ]

variable {t : Volume δ}

/-- The pointers `next`, from `p` on, lead through these nodes to the end of a list. -/
def Volume.Spells (t : Volume δ) : (p : Option NodeId) → List NodeId → Prop
  | p, [] => p = none
  | p, x :: l => p = some x ∧ ∃ n, t.heap x = some n ∧ t.Spells n.next l

/-- The pointers of the nodes in memory form a tree below the root. -/
structure Volume.IsTree (t : Volume δ) : Prop where
  finite : ∀ {x n}, t.heap x = some n → x < t.fresh
  root : ∃ n, t.heap t.root = some n ∧ n.parent = none ∧ n.next = none ∧ n.prev = none
  children : ∀ {d m}, t.heap d = some m → ∃ l, t.Spells m.first l ∧ l.Nodup ∧
    ∀ x, x ∈ l ↔ ∃ n, t.heap x = some n ∧ n.parent = some d
  next : ∀ {x n y}, t.heap x = some n → n.next = some y →
    ∃ n', t.heap y = some n' ∧ n'.parent = n.parent ∧ n'.prev = some x
  prev : ∀ {x n y}, t.heap x = some n → n.prev = some y →
    ∃ n', t.heap y = some n' ∧ n'.parent = n.parent ∧ n'.next = some x
  depth : ∀ {x n d}, t.heap x = some n → n.parent = some d → ∃ k, t.Depth x k
  loose : ∀ {x n}, t.heap x = some n → n.parent = none → x ≠ t.root →
    n.first = none ∧ n.next = none ∧ n.prev = none

/-- A node with a place in the family tree is in memory. -/
theorem heap_of_kin {x : NodeId} {k : Kin} (h : t.kin x = some k) :
    ∃ n, t.heap x = some n ∧ n.kin = k := Option.map_eq_some_iff.1 h

/-- A list that is strung is spelled out by its pointers. -/
theorem Volume.spells_of_strung {p : Option NodeId} {l : List NodeId}
    (h : Strung (kinNext t.kin) (kinPrev t.kin) p l) (hl : ∀ x ∈ l, ∃ k, t.kin x = some k) :
    t.Spells l.head? l := by
  induction l generalizing p with
  | nil => rfl
  | cons x l ih =>
    obtain ⟨-, hnext, hrest⟩ := h
    obtain ⟨k, hk⟩ := hl x (List.mem_cons_self ..)
    obtain ⟨n, hn, rfl⟩ := heap_of_kin hk
    refine ⟨rfl, n, hn, ?_⟩
    rw [kinNext_of hk] at hnext
    have hnext' : n.next = l.head? := hnext
    rw [hnext']
    exact ih hrest fun y hy => hl y (List.mem_cons_of_mem _ hy)

/-- The directory that a node is in. -/
theorem Volume.Sound.above (ht : t.Sound D H) {x d : NodeId} {n : Node} (hx : t.heap x = some n)
    (hp : n.parent = some d) : ∃ m, t.heap d = some m ∧ x ∈ m.child := by
  obtain ⟨k, hdepth⟩ := ht.rooted x n.kin d (Volume.kin_of_heap hx) hp
  cases hdepth with
  | root => cases hp.symm.trans (ht.linked.root (Volume.kin_of_heap hx))
  | child hx' hp' hd =>
    cases (Volume.kin_of_heap hx).symm.trans hx'
    cases hp.symm.trans hp'
    obtain ⟨l, hl⟩ := hd.present ht.linked
    obtain ⟨m, hm, rfl⟩ := heap_of_kin hl
    exact ⟨m, hm, ht.linked.up (Volume.kin_of_heap hx) hp hl⟩

/-- A node that points to another one is in a directory. -/
theorem Volume.Sound.attached (ht : t.Sound D H) {x : NodeId} {n : Node} (hx : t.heap x = some n)
    (h : n.next ≠ none ∨ n.prev ≠ none) :
    ∃ d m, n.parent = some d ∧ t.heap d = some m ∧ x ∈ m.child := by
  cases hp : n.parent with
  | none =>
    obtain ⟨hnext, hprev⟩ := ht.linked.loose (Volume.kin_of_heap hx) hp
    exact absurd h (not_or.2 ⟨fun h => h hnext, fun h => h hprev⟩)
  | some d =>
    obtain ⟨m, hm, hmem⟩ := ht.above hx hp
    exact ⟨d, m, rfl, hm, hmem⟩

/-- The nodes of a sound volume are a tree. -/
theorem Volume.Sound.treeOf (ht : t.Sound D H) : t.IsTree where
  finite hx := ht.linked.lt (Volume.kin_of_heap hx)
  root := by
    obtain ⟨k, hk, -⟩ := ht.linked.alive
    obtain ⟨n, hn, rfl⟩ := heap_of_kin hk
    have hp := ht.linked.root hk
    exact ⟨n, hn, hp, ht.linked.loose hk hp⟩
  children {d m} hd := by
    -- the children of a directory, in the order of the list
    have hk := Volume.kin_of_heap hd
    refine ⟨m.child, ?_, ht.linked.nodup hk, fun x => ⟨fun hx => ?_, ?_⟩⟩
    · have hfirst : m.first = m.child.head? := ht.linked.first hk
      rw [hfirst]
      refine Volume.spells_of_strung (ht.linked.strung hk) fun x hx => ?_
      obtain ⟨l, hl, -⟩ := ht.linked.down hk hx
      exact ⟨l, hl⟩
    · obtain ⟨l, hl, hp⟩ := ht.linked.down hk hx
      obtain ⟨n, hn, rfl⟩ := heap_of_kin hl
      exact ⟨n, hn, hp⟩
    · rintro ⟨n, hn, hp⟩
      exact ht.linked.up (Volume.kin_of_heap hn) hp hk
  -- the pointers of a node are those of the list it is in
  next {x n y} hx hy := by
    obtain ⟨d, m, hp, hm, hmem⟩ := ht.attached hx (.inl (by rw [hy]; simp))
    have hk := Volume.kin_of_heap hm
    have hnext : kinNext t.kin x = some y := (kinNext_of (Volume.kin_of_heap hx)).trans hy
    obtain ⟨hmem', hprev⟩ := (ht.linked.strung hk).of_next hmem hnext
    obtain ⟨l, hl, hp'⟩ := ht.linked.down hk hmem'
    obtain ⟨n', hn', rfl⟩ := heap_of_kin hl
    exact ⟨n', hn', hp'.trans hp.symm, (kinPrev_of hl).symm.trans hprev⟩
  prev {x n y} hx hy := by
    obtain ⟨d, m, hp, hm, hmem⟩ := ht.attached hx (.inr (by rw [hy]; simp))
    have hk := Volume.kin_of_heap hm
    have hprev : kinPrev t.kin x = some y := (kinPrev_of (Volume.kin_of_heap hx)).trans hy
    -- a neighbour before the node, or the node is the first one
    obtain ⟨hmem', hnext⟩ | ⟨hnone, -⟩ := (ht.linked.strung hk).of_prev hmem hprev
    · obtain ⟨l, hl, hp'⟩ := ht.linked.down hk hmem'
      obtain ⟨n', hn', rfl⟩ := heap_of_kin hl
      exact ⟨n', hn', hp'.trans hp.symm, (kinNext_of hl).symm.trans hnext⟩
    · cases hnone
  depth hx hp := ht.rooted _ _ _ (Volume.kin_of_heap hx) hp
  loose {x n} hx hp hne := by
    have hk := Volume.kin_of_heap hx
    obtain ⟨hnext, hprev⟩ := ht.linked.loose hk hp
    refine ⟨?_, hnext, hprev⟩
    -- what a node outside the tree had in it would be below the root, and so would be the node
    cases hfirst : n.first with
    | none => rfl
    | some y =>
      have hhead : n.child.head? = some y := (ht.linked.first hk).symm.trans hfirst
      obtain ⟨l, hl, hy⟩ := ht.linked.down hk (List.mem_of_mem_head? hhead)
      obtain ⟨j, hdepth⟩ := ht.rooted y l x hl hy
      cases hdepth with
      | root => cases hy.symm.trans (ht.linked.root hl)
      | child hl' hy' hd =>
        cases hl.symm.trans hl'
        cases hy.symm.trans hy'
        cases hd with
        | root => exact absurd rfl hne
        | child hk' hp' _ =>
          cases hk.symm.trans hk'
          cases hp.symm.trans hp'

end Pointers

/-- Whatever calls follow a mount, the pointers form a tree below the root. -/
theorem Volume.Reached.isTree {t₀ t : Volume δ} (ht₀ : t₀.Vacant) (h : t₀.Reached D H t) :
    t.IsTree :=
  (h.sound ht₀).treeOf

/-- The card on which nothing is stored, before it is mounted. -/
def cardVolume : Volume Flat where
  ef := { dev := ⟨withChecksum cardStore, 2 ^ 20⟩, sb := ⟨[]⟩ }
  heap _ := none
  root := 0
  fresh := 0

/-- The volume when the boot region has been read. -/
def cardVolumeBooted : Volume Flat :=
  { cardVolume with
    ef := { cardVolume.ef with sb := bootSector (withChecksum cardStore), ticks := 3 } }

/-- A directory is made on the card. -/
theorem isTree_card :
    ∃ H t n, cardVolume.Vacant ∧ cardVolume.Reached False H t ∧ t.heap 1 = some n ∧
      n.parent = some t.root ∧ t.IsTree := by
  have htest : returns (fun rc t => rc = .ok () ∧ returns (fun o t' => o = none ∧
      (t'.heap 1).any fun n => decide (n.parent = some t'.root))
      ((TreeOp.mkdir [0x2f, 0x44]).run t))
      (mountRoot cardVolumeBooted) = true := by
    decide +kernel
  obtain ⟨rc, t, hroot, htest⟩ := of_returns htest
  obtain ⟨rfl, hmkdir⟩ := of_decide_eq_true htest
  obtain ⟨o, t', hmkdir, hmade⟩ := of_returns hmkdir
  obtain ⟨rfl, hnode⟩ := of_decide_eq_true hmade
  obtain ⟨n, hn, hparent⟩ := (Option.any_eq_true ..).1 hnode
  have hmount : exfatMount cardVolume = .ok (.ok ()) t :=
    (run_exfatMount (fun _ => rfl) bootable_cardStore).trans hroot
  have hreached := Volume.Reached.call (.mount hmount False.elim) False.elim
    (fun _ h => by cases h) hmkdir
  exact ⟨_, t', n, fun _ => rfl, hreached, hn, of_decide_eq_true hparent,
    Volume.Reached.isTree (fun _ => rfl) hreached⟩

end ExFat
