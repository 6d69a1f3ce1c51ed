import ExFat.Fs.Upkeep

namespace ExFat

open Program

/-!
# The sizes of files

Nothing but `exfat_truncate` and the writing of data gives a file another size, and both are called
on a file by the handler alone: what the tree routines write goes to directories.
-/

variable {δ : Type} {α β : Type}

/-! ### One node -/

/-- The node is the directory or the file it was, and a file has the size it had. -/
structure Node.Sized (n n' : Node) : Prop where
  isDir : n'.isDir = n.isDir
  isCached : n'.isCached = n.isCached
  size : n.isDir = false → n'.size = n.size

/-- The node keeps its kind, and a file its size. -/
def FileState.Sized (s s' : FileState δ) : Prop := s.node.Sized s'.node

/-- A node keeps its size. -/
theorem Node.Sized.refl (n : Node) : n.Sized n := ⟨rfl, rfl, fun _ => rfl⟩

instance : IsPreorder (FileState δ) FileState.Sized where
  refl s := Node.Sized.refl s.node
  trans _ _ _ h h' := ⟨h'.isDir.trans h.isDir, h'.isCached.trans h.isCached, fun hd =>
    (h'.size (h.isDir.trans hd)).trans (h.size hd)⟩

/-- A routine that returns on directories only. -/
def OfDirs (m : FileM δ α) : Prop := ∀ s, wp m (fun _ _ => s.node.isDir = true) anyStop s

/-- A routine that begins with one for directories is one for directories. -/
theorem OfDirs.bind {m : FileM δ α} (hm : OfDirs m) (f : α → FileM δ β) : OfDirs (m >>= f) := by
  intro s
  rw [wp_bind]
  exact wp_conseq (hm s) fun _ _ hd => wp_of_forall (fun _ _ => hd) fun _ _ => trivial

/-- What returns on directories only changes the size of no file. -/
theorem OfDirs.sized {m : FileM δ α} (hm : OfDirs m) (hkin : Keeps (FileState.SameBy Node.kin) m) :
    Yields FileState.Sized m := by
  intro s
  refine wp_mono (wp_and (hm s) (hkin s)) ?_ (fun _ _ _ => trivial)
  rintro _ s' ⟨hd, h⟩
  refine ⟨congrArg Kin.isDir h.view, congrArg Kin.isCached h.view, fun hf => ?_⟩
  cases hd.symm.trans hf

section Device

variable [Device δ]

instance : WalkRel (δ := δ) FileState.Sized where
  call _ := Node.Sized.refl _
  report _ := Node.Sized.refl _
  cursor _ _ _ := ⟨rfl, rfl, fun _ => rfl⟩

/-- `read_entries` is for directories. -/
theorem ofDirs_readEntries (n : Nat) (offset : Int) : OfDirs (readEntries (δ := δ) n offset) := by
  intro s
  unfold readEntries
  rw [wp_bind, wp_get]
  split
  · exact trivial
  next hd =>
    have hd : s.node.isDir = true := by simpa using hd
    exact wp_of_forall (fun _ _ => hd) fun _ _ => trivial

/-- `write_entries` is for directories. -/
theorem ofDirs_writeEntries (entries : List Entry) (offset : Int) :
    OfDirs (writeEntries (δ := δ) entries offset) := by
  intro s
  unfold writeEntries
  rw [wp_bind, wp_get]
  split
  · exact trivial
  next hd =>
    have hd : s.node.isDir = true := by simpa using hd
    exact wp_of_forall (fun _ _ => hd) fun _ _ => trivial

/-- `read_entries` leaves the size of a file alone. -/
theorem sized_readEntries (n : Nat) (offset : Int) :
    Yields FileState.Sized (readEntries (δ := δ) n offset) :=
  (ofDirs_readEntries n offset).sized (links_readEntries n offset)

/-- `write_entries` leaves the size of a file alone. -/
theorem sized_writeEntries (entries : List Entry) (offset : Int) :
    Yields FileState.Sized (writeEntries (δ := δ) entries offset) :=
  (ofDirs_writeEntries entries offset).sized (links_writeEntries entries offset)

/-- `erase_entries` leaves the size of a file alone. -/
theorem sized_eraseEntries (n : Nat) (offset : Int) :
    Yields FileState.Sized (eraseEntries (δ := δ) n offset) :=
  ((ofDirs_readEntries n offset).bind _).sized (links_eraseEntries n offset)

/-- `find_label` leaves the size of a file alone. -/
theorem sized_findLabel (fuel offset : Nat) :
    Yields FileState.Sized (findLabel (δ := δ) fuel offset) := by
  cases fuel with
  | zero => exact yields_throw _
  | succ fuel =>
    have hdir : OfDirs (findLabel (δ := δ) (fuel + 1) offset) :=
      (ofDirs_readEntries 1 offset).bind _
    exact hdir.sized (links_findLabel (fuel + 1) offset)

omit [Device δ] in
/-- `exfat_update_mtime` leaves the size of a file alone. -/
theorem sized_exfatUpdateMtime : Yields FileState.Sized (exfatUpdateMtime (δ := δ)) := fun _ =>
  ⟨rfl, rfl, fun _ => rfl⟩

/-- `rootdirLoop` leaves the size of a file alone. -/
theorem sized_rootdirLoop (fuel clusters cluster : Nat) :
    Yields FileState.Sized (rootdirLoop (δ := δ) fuel clusters cluster) := by
  induction fuel generalizing clusters cluster with
  | zero => exact yields_throw _
  | succ fuel ih =>
    have hreport : ∀ message : String, Yields FileState.Sized (do
        onEf (exfatError (δ := δ) message)
        pure 0) := fun message => (keeps_report message 0).yields
    refine yields_look fun s => yields_ite (hreport _) (yields_ite (hreport _) ?_)
    refine yields_bind (keeps_exfatNextCluster cluster).yields fun next => ?_
    exact yields_ite (ih _ _) (yields_pure _)

/-- `rootdir_size` leaves the size of a file alone. -/
theorem sized_rootdirSize : Yields FileState.Sized (rootdirSize (δ := δ)) :=
  yields_look fun _ => sized_rootdirLoop _ _ _

end Device

/-! ### The volume -/

/-- Only directories have been read. -/
structure Volume.Filed (t : Volume δ) : Prop where
  bounded : t.Bounded
  isDir : ∀ {x n}, t.heap x = some n → n.isCached = true → n.isDir = true

/-- No node has come back, and a file that is still there has the size it had. -/
structure Volume.SizesKept (t t' : Volume δ) : Prop where
  le : t.fresh ≤ t'.fresh
  dead : ∀ {x}, x < t.fresh → t.heap x = none → t'.heap x = none
  same : ∀ {x n n'}, t.heap x = some n → t'.heap x = some n' →
    n'.isDir = n.isDir ∧ (n.isDir = false → n'.size = n.size)

/-- Only directories get another size. -/
def Volume.Spares (t t' : Volume δ) : Prop := t.Filed → t'.Filed ∧ t.SizesKept t'

/-- The nodes in memory have identifiers below the fresh one. -/
theorem Volume.Filed.lt {t : Volume δ} (h : t.Filed) {x : NodeId} {n : Node}
    (hx : t.heap x = some n) : x < t.fresh := by
  by_contra hge
  cases (h.bounded x (Nat.le_of_not_lt hge)).symm.trans hx

/-- A volume keeps its sizes. -/
theorem Volume.SizesKept.refl (t : Volume δ) : t.SizesKept t where
  le := Nat.le_refl _
  dead _ h := h
  same h h' := by
    cases h.symm.trans h'
    exact ⟨rfl, fun _ => rfl⟩

/-- A node that is there at the end was there in between. -/
theorem Volume.SizesKept.between {t t₁ t₂ : Volume δ} (ht : t.Filed) (h₁ : t.SizesKept t₁)
    (h₂ : t₁.SizesKept t₂) {x : NodeId} {n n₂ : Node} (hx : t.heap x = some n)
    (hx₂ : t₂.heap x = some n₂) : ∃ n₁, t₁.heap x = some n₁ := by
  cases hx₁ : t₁.heap x with
  | some n₁ => exact ⟨n₁, rfl⟩
  | none => cases (h₂.dead (Nat.lt_of_lt_of_le (ht.lt hx) h₁.le) hx₁).symm.trans hx₂

/-- Sizes that are kept twice are kept. -/
theorem Volume.SizesKept.trans {t t₁ t₂ : Volume δ} (ht : t.Filed) (h₁ : t.SizesKept t₁)
    (h₂ : t₁.SizesKept t₂) : t.SizesKept t₂ where
  le := h₁.le.trans h₂.le
  dead hx hnone := h₂.dead (Nat.lt_of_lt_of_le hx h₁.le) (h₁.dead hx hnone)
  same hx hx₂ := by
    obtain ⟨n₁, hx₁⟩ := h₁.between ht h₂ hx hx₂
    obtain ⟨hd₁, hs₁⟩ := h₁.same hx hx₁
    obtain ⟨hd₂, hs₂⟩ := h₂.same hx₁ hx₂
    exact ⟨hd₂.trans hd₁, fun hd => (hs₂ (hd₁.trans hd)).trans (hs₁ hd)⟩

instance : IsPreorder (Volume δ) Volume.Spares where
  refl t h := ⟨h, .refl t⟩
  trans _ _ _ h h' ht := ⟨(h' (h ht).1).1, (h ht).2.trans ht (h' (h ht).1).2⟩

/-- A node in memory after a store. -/
theorem Volume.heap_store {t : Volume δ} {i x : NodeId} {s : FileState δ} {n' : Node}
    (hx : (t.store i s).heap x = some n') :
    (x = i ∧ s.node = n') ∨ (x ≠ i ∧ t.heap x = some n') := by
  by_cases hxi : x = i
  · subst hxi
    rw [store_heap_self] at hx
    exact .inl ⟨rfl, Option.some.inj hx⟩
  · rw [store_heap_of_ne s hxi] at hx
    exact .inr ⟨hxi, hx⟩

/-- Only directories are read, also after a store. -/
theorem Volume.Filed.store {t : Volume δ} (ht : t.Filed) {i : NodeId} {n : Node}
    (hi : t.heap i = some n) {s : FileState δ} (hs : s.node.isCached = true → s.node.isDir = true) :
    (t.store i s).Filed := by
  refine ⟨fun x hx => ?_, fun hx hc => ?_⟩
  · rw [store_heap_of_ne s (Nat.ne_of_gt (Nat.lt_of_lt_of_le (ht.lt hi) hx))]
    exact ht.bounded x hx
  · obtain ⟨rfl, rfl⟩ | ⟨-, hx⟩ := heap_store hx
    · exact hs hc
    · exact ht.isDir hx hc

/-- One node has been worked on. -/
theorem Volume.spares_assign {t : Volume δ} {i : NodeId} {n : Node} (hi : t.heap i = some n)
    {s : FileState δ} (hdir : s.node.isDir = n.isDir)
    (hsize : n.isDir = false → s.node.size = n.size)
    (hcached : t.Filed → s.node.isCached = true → n.isDir = true) : t.Spares (t.store i s) := by
  intro ht
  refine ⟨ht.store hi fun hc => hdir.trans (hcached ht hc), Nat.le_refl _, fun {x} _ hnone => ?_,
    fun hx hx' => ?_⟩
  · rw [store_heap_of_ne]
    · exact hnone
    · rintro rfl
      cases hi.symm.trans hnone
  · obtain ⟨rfl, rfl⟩ | ⟨-, hx'⟩ := heap_store hx'
    · cases hi.symm.trans hx
      exact ⟨hdir, hsize⟩
    · cases hx.symm.trans hx'
      exact ⟨rfl, fun _ => rfl⟩

/-- Storing a node that keeps its size gives no file another size. -/
theorem Volume.spares_store {t : Volume δ} {i : NodeId} {n : Node} (hi : t.heap i = some n)
    {s : FileState δ} (hs : n.Sized s.node) : t.Spares (t.store i s) :=
  spares_assign hi hs.isDir hs.size fun ht hc => ht.isDir hi (hs.isCached.symm.trans hc)

/-- A routine on a node that keeps its size gives no file another size. -/
theorem spares_onNode (i : NodeId) {m : FileM δ α} (hm : Yields FileState.Sized m) :
    Yields Volume.Spares (onNode i m) := by
  intro t
  cases hi : t.heap i with
  | none =>
    unfold wp onNode
    rw [hi]
    exact trivial
  | some n =>
    rw [wp_onNode hi]
    exact wp_conseq (hm ⟨t.ef, n⟩) fun _ s hs => Volume.spares_store hi hs

/-- A change of a node that keeps its size gives no file another size. -/
theorem spares_updateNode (i : NodeId) {f : Node → Node} (h : ∀ n : Node, n.Sized (f n)) :
    Yields Volume.Spares (updateNode (δ := δ) i f) :=
  spares_onNode i fun s => h s.node

/-- Nodes have been taken out of memory. -/
theorem Volume.spares_free {t t' : Volume δ} (hheap : ∀ x, t'.heap x = none ∨ t'.heap x = t.heap x)
    (hfresh : t'.fresh = t.fresh) : t.Spares t' := by
  have hback : ∀ {x n}, t'.heap x = some n → t.heap x = some n := by
    intro x n hx
    obtain hnone | hsame := hheap x
    · cases hnone.symm.trans hx
    · exact hsame.symm.trans hx
  rintro ⟨hbounded, hdir⟩
  refine ⟨⟨fun x hx => ?_, fun hx => hdir (hback hx)⟩, Nat.le_of_eq hfresh.symm, fun {x} _ hx => ?_,
    fun hx hx' => ?_⟩
  · obtain hnone | hsame := hheap x
    · exact hnone
    · exact hsame.trans (hbounded x (hfresh ▸ hx))
  · obtain hnone | hsame := hheap x
    · exact hnone
    · exact hsame.trans hx
  · cases hx.symm.trans (hback hx')
    exact ⟨rfl, fun _ => rfl⟩

/-- A routine on the volume gives no file another size. -/
theorem spares_onVolume (m : EfM δ α) : Yields Volume.Spares (onVolume m) := by
  intro t
  unfold onVolume
  rw [wp_zoom]
  exact wp_of_forall (fun _ _ => Volume.spares_free (fun _ => .inr rfl) rfl) fun _ _ => trivial

/-- A routine that leaves the tree alone gives no file another size. -/
theorem spares_of_same {m : TreeM δ α} (hm : Keeps Volume.Same m) : Yields Volume.Spares m := by
  refine hm.yields.mono fun t t' h => ?_
  cases h
  exact refl_of Volume.Spares t

/-- `getNode` gives no file another size. -/
theorem spares_getNode (i : NodeId) : Yields Volume.Spares (getNode (δ := δ) i) :=
  spares_of_same (same_getNode i)

/-- A node has been put into memory. -/
theorem Volume.spares_insert (t : Volume δ) (n : Node) (hn : n.isCached = false) (root : NodeId) :
    t.Spares { t with
      heap := Function.update t.heap t.fresh (some n), root := root, fresh := t.fresh + 1 } := by
  intro ht
  have hold : ∀ {x}, x < t.fresh → Function.update t.heap t.fresh (some n) x = t.heap x := fun hx =>
    Function.update_of_ne (Nat.ne_of_lt hx) _ _
  refine ⟨⟨fun x hx => ?_, fun {x n'} hx hc => ?_⟩, Nat.le_succ _, fun hx hnone =>
    (hold hx).trans hnone,
    fun hx hx' => ?_⟩
  · have hlt : t.fresh < x := hx
    exact (Function.update_of_ne (Nat.ne_of_gt hlt) _ _).trans (ht.bounded x hlt.le)
  · dsimp only at hx
    by_cases hxf : x = t.fresh
    · rw [hxf, Function.update_self] at hx
      cases hx
      cases hn.symm.trans hc
    · rw [Function.update_of_ne hxf] at hx
      exact ht.isDir hx hc
  · cases hx.symm.trans ((hold (ht.lt hx)).symm.trans hx')
    exact ⟨rfl, fun _ => rfl⟩

/-! ### The tree -/

/-- `exfat_get_node` gives no file another size. -/
theorem spares_exfatGetNode (i : NodeId) : Yields Volume.Spares (exfatGetNode (δ := δ) i) :=
  spares_updateNode i fun _ => ⟨rfl, rfl, fun _ => rfl⟩

/-- `exfat_put_node` gives no file another size. -/
theorem spares_exfatPutNode (i : NodeId) : Yields Volume.Spares (exfatPutNode (δ := δ) i) := by
  refine yields_bind (spares_updateNode i fun _ => ⟨rfl, rfl, fun _ => rfl⟩) fun _ => ?_
  refine yields_bind (spares_getNode i) fun n => yields_look fun t =>
    yields_ite ?_ (yields_ite ?_ ?_)
  · exact yields_bind (spares_onVolume _) fun _ => yields_throw _
  · exact yields_bind (spares_onVolume _) fun _ => yields_pure _
  · exact yields_pure _

/-- The way many routines end: a reference is dropped. -/
theorem spares_put_pure (i : NodeId) (a : α) : Yields Volume.Spares (do
    exfatPutNode (δ := δ) i
    pure a) :=
  yields_bind (spares_exfatPutNode i) fun _ => yields_pure a

/-- `linkFirst` gives no file another size. -/
theorem spares_linkFirst (i : NodeId) (first : Option NodeId) :
    Yields Volume.Spares (linkFirst (δ := δ) i first) := by
  cases first with
  | none => exact yields_pure _
  | some f =>
    refine yields_bind (spares_updateNode f fun _ => ⟨rfl, rfl, fun _ => rfl⟩) fun _ => ?_
    exact spares_updateNode i fun _ => ⟨rfl, rfl, fun _ => rfl⟩

/-- `tree_attach` gives no file another size. -/
theorem spares_treeAttach (dir i : NodeId) : Yields Volume.Spares (treeAttach (δ := δ) dir i) := by
  refine yields_bind (spares_updateNode i fun _ => ⟨rfl, rfl, fun _ => rfl⟩) fun _ => ?_
  refine yields_bind (spares_getNode dir) fun d => yields_bind (spares_linkFirst i _) fun _ => ?_
  exact spares_updateNode dir fun _ => ⟨rfl, rfl, fun _ => rfl⟩

/-- `bridgeBefore` gives no file another size. -/
theorem spares_bridgeBefore (p : NodeId) (next prev : Option NodeId) :
    Yields Volume.Spares (bridgeBefore (δ := δ) p next prev) := by
  cases prev with
  | none => exact spares_updateNode p fun _ => ⟨rfl, rfl, fun _ => rfl⟩
  | some q => exact spares_updateNode q fun _ => ⟨rfl, rfl, fun _ => rfl⟩

/-- `bridgeBehind` gives no file another size. -/
theorem spares_bridgeBehind (prev next : Option NodeId) :
    Yields Volume.Spares (bridgeBehind (δ := δ) prev next) := by
  cases next with
  | none => exact yields_pure _
  | some q => exact spares_updateNode q fun _ => ⟨rfl, rfl, fun _ => rfl⟩

/-- `tree_detach` gives no file another size. -/
theorem spares_treeDetach (i : NodeId) : Yields Volume.Spares (treeDetach (δ := δ) i) := by
  refine yields_bind (spares_getNode i) fun n => ?_
  cases n.parent with
  | none => exact yields_throw _
  | some p =>
    refine yields_bind (spares_bridgeBefore p _ _) fun _ =>
      yields_bind (spares_bridgeBehind _ _) fun _ => ?_
    refine yields_bind (spares_updateNode p fun _ => ⟨rfl, rfl, fun _ => rfl⟩) fun _ => ?_
    exact spares_updateNode i fun _ => ⟨rfl, rfl, fun _ => rfl⟩

/-- A directory is no longer marked as read. -/
theorem spares_uncache (i : NodeId) :
    Yields Volume.Spares (updateNode (δ := δ) i fun n => { n with isCached := false }) := by
  intro t
  cases hi : t.heap i with
  | none =>
    unfold wp updateNode onNode
    rw [hi]
    exact trivial
  | some n =>
    refine wp_of_ok (run_updateNode hi _) ?_
    exact Volume.spares_assign hi rfl (fun _ => rfl) fun _ hc => by cases hc

/-- `freeNode` gives no file another size. -/
theorem spares_freeNode (i : NodeId) : Yields Volume.Spares (freeNode (δ := δ) i) := by
  intro t
  refine Volume.spares_free (fun x => ?_) rfl
  by_cases hx : x = i
  · subst hx
    exact .inl (Function.update_self x none t.heap)
  · exact .inr (Function.update_of_ne hx _ _)

/-- `newNode` gives no file another size. -/
theorem spares_newNode {n : Node} (hn : n.isCached = false) :
    Yields Volume.Spares (newNode (δ := δ) n) := fun t => t.spares_insert n hn t.root

/-- `newChildren` gives no file another size. -/
theorem spares_newChildren (dir : NodeId) (current : Option NodeId) {ns : List Node}
    (hns : ∀ n ∈ ns, n.isCached = false) :
    Yields Volume.Spares (newChildren (δ := δ) dir current ns) := by
  induction ns generalizing current with
  | nil => exact yields_pure _
  | cons n ns ih =>
    intro t
    obtain ⟨hn, hrest⟩ := List.forall_mem_cons.1 hns
    unfold newChildren
    rw [wp_bind, wp_get, wp_bind, wp_set]
    refine Yields.after (yields_bind ?_ fun _ => ?_)
      (t.spares_insert { n with parent := some dir, prev := current } hn t.root)
    · cases current with
      | none => exact spares_updateNode dir fun _ => ⟨rfl, rfl, fun _ => rfl⟩
      | some c => exact spares_updateNode c fun _ => ⟨rfl, rfl, fun _ => rfl⟩
    · exact yields_bind (ih _ hrest) fun ids => yields_pure _

/-- `getNodes` gives no file another size. -/
theorem spares_getNodes (is : List NodeId) : Yields Volume.Spares (getNodes (δ := δ) is) :=
  spares_of_same (same_getNodes is)

section Device

variable [Device δ]

/-- A directory is marked when its nodes are in memory. -/
theorem spares_exfatCacheDirectory (dir : NodeId) :
    Yields Volume.Spares (exfatCacheDirectory (δ := δ) dir) := by
  intro t
  unfold exfatCacheDirectory
  rw [wp_bind]
  refine wp_getNode trivial fun d hd => ?_
  -- nothing is done for a directory that has been read
  split
  · exact refl_of Volume.Spares t
  rw [wp_bind, wp_onNode hd]
  -- reading the entries of anything but a directory is an `exfat_bug`
  have hdir : OfDirs (cacheLoop (δ := δ) (dirFuel d.size) 0) := fun _ => isDir_of_cacheLoop
  have hloop :=
    wp_and (hdir ⟨t.ef, d⟩) (loose_cacheLoop (π := Node.kin) (dirFuel d.size) 0 ⟨t.ef, d⟩)
  refine wp_mono hloop ?_ (fun _ _ _ => trivial)
  rintro r s ⟨hisDir, hkin, hloose⟩
  have hs : d.Sized s.node :=
    ⟨congrArg Kin.isDir hkin.view, congrArg Kin.isCached hkin.view, fun hf => by
      cases hisDir.symm.trans hf⟩
  have h₁ := Volume.spares_store hd hs
  split
  · rw [wp_bind]
    have hfill := spares_newChildren dir none (δ := δ) fun n hn =>
      congrArg Links.isCached (hloose n hn)
    refine wp_conseq (hfill (t.store dir s)) fun ids t₂ h₂ => ?_
    rw [wp_bind]
    -- the directory is still there behind the new nodes
    cases hd₂ : t₂.heap dir with
    | none =>
      unfold wp updateNode onNode
      rw [hd₂]
      exact trivial
    | some d₂ =>
      refine wp_of_ok (run_updateNode hd₂ _) ?_
      show t.Spares _
      intro ht
      have h₁' := h₁ ht
      have h₂' := h₂ h₁'.1
      -- the mark is on a directory
      have hd₂dir : d₂.isDir = true := by
        rw [(h₂'.2.same (store_heap_self t dir s) hd₂).1, hs.isDir]
        exact hisDir
      let d₃ : Node := { d₂ with child := if ids.isEmpty then d₂.child else ids, isCached := true }
      have h₃ := Volume.spares_assign hd₂ (s := ⟨t₂.ef, d₃⟩) rfl (fun _ => rfl)
        (fun _ _ => hd₂dir) h₂'.1
      exact ⟨h₃.1, (h₁'.2.trans ht h₂'.2).trans ht h₃.2⟩
  -- a failure leaves the mark as it was
  · refine Yields.after (yields_bind ?_ fun _ => yields_pure _) h₁
    exact spares_updateNode dir fun _ => ⟨rfl, rfl, fun _ => rfl⟩

/-! ### Paths -/

/-- `exfat_opendir` gives no file another size. -/
theorem spares_exfatOpendir (dir : NodeId) : Yields Volume.Spares (exfatOpendir (δ := δ) dir) := by
  refine yields_bind (spares_exfatGetNode dir) fun _ => ?_
  refine yields_bind (spares_exfatCacheDirectory dir) fun r => ?_
  cases r with
  | error e => exact spares_put_pure dir _
  | ok _ => exact yields_pure _

omit [Device δ] in
/-- `lookupLoop` gives no file another size. -/
theorem spares_lookupLoop (name : List Nat) (is : List NodeId) :
    Yields Volume.Spares (lookupLoop (δ := δ) name is) := by
  induction is with
  | nil => exact yields_pure _
  | cons i is ih =>
    refine yields_bind (spares_exfatGetNode i) fun _ => yields_bind (spares_getNode i) fun n => ?_
    refine yields_look fun t => ?_
    cases t.ef.upcase with
    | none => exact yields_throw _
    | some upcase =>
      exact yields_ite (yields_pure _) (yields_bind (spares_exfatPutNode i) fun _ => ih)

/-- `lookup_name` gives no file another size. -/
theorem spares_lookupName (parent : NodeId) (name : List UInt8) :
    Yields Volume.Spares (lookupName (δ := δ) parent name) := by
  unfold lookupName
  cases exfatUtf8ToUtf16 name (nameMax + 1) with
  | error e => exact yields_pure _
  | ok buffer =>
    refine yields_bind (spares_exfatOpendir parent) fun r => ?_
    cases r with
    | error e => exact yields_pure _
    | ok _ =>
      refine yields_bind (spares_getNode parent) fun p =>
        yields_bind (spares_lookupLoop _ _) fun o => ?_
      cases o with
      | none => exact spares_put_pure parent _
      | some i => exact spares_put_pure parent _

/-- `lookupPath` gives no file another size. -/
theorem spares_lookupPath (fuel : Nat) (parent : NodeId) (path : List UInt8) :
    Yields Volume.Spares (lookupPath (δ := δ) fuel parent path) := by
  induction fuel generalizing parent path with
  | zero => exact yields_pure _
  | succ fuel ih =>
    refine yields_ite (yields_pure _) (yields_ite (ih _ _) ?_)
    refine yields_bind (spares_lookupName _ _) fun r => ?_
    cases r with
    | error e => exact spares_put_pure parent _
    | ok node => exact yields_bind (spares_exfatPutNode parent) fun _ => ih _ _

/-- `exfat_lookup` gives no file another size. -/
theorem spares_exfatLookup (path : List UInt8) : Yields Volume.Spares (exfatLookup (δ := δ) path) :=
  yields_look fun t => yields_bind (spares_exfatGetNode t.root) fun _ => spares_lookupPath _ _ _

/-- `splitLast` gives no file another size. -/
theorem spares_splitLast (parent : NodeId) (comp : List UInt8) :
    Yields Volume.Spares (splitLast (δ := δ) parent comp) := by
  refine yields_ite (spares_put_pure parent _) ?_
  cases exfatUtf8ToUtf16 comp (nameMax + 1) with
  | error e => exact spares_put_pure parent _
  | ok name =>
    refine yields_bind (spares_lookupName _ _) fun r => ?_
    match r with
    | .ok node => exact yields_pure _
    | .error .enoent => exact yields_pure _
    | .error .eio | .error .enomem | .error .eexist | .error .enotdir | .error .eisdir
    | .error .einval | .error .enospc | .error .erofs | .error .enametoolong | .error .enotempty
    | .error .eilseq | .error .enodev => exact spares_put_pure parent _

/-- `splitPath` gives no file another size. -/
theorem spares_splitPath (fuel : Nat) (parent : NodeId) (path : List UInt8) :
    Yields Volume.Spares (splitPath (δ := δ) fuel parent path) := by
  induction fuel generalizing parent path with
  | zero => exact yields_throw _
  | succ fuel ih =>
    refine yields_ite (yields_throw _) (yields_ite (ih _ _) (yields_ite (spares_splitLast _ _) ?_))
    refine yields_bind (spares_lookupName _ _) fun r => ?_
    cases r with
    | error e => exact spares_put_pure parent _
    | ok node => exact yields_bind (spares_exfatPutNode parent) fun _ => ih _ _

/-- `exfat_split` gives no file another size. -/
theorem spares_exfatSplit (path : List UInt8) : Yields Volume.Spares (exfatSplit (δ := δ) path) :=
  yields_look fun t => yields_bind (spares_exfatGetNode t.root) fun _ => spares_splitPath _ _ _

/-! ### Writing back and removing -/

/-- `exfat_flush_node` gives no file another size. -/
theorem spares_exfatFlushNode (i : NodeId) : Yields Volume.Spares (exfatFlushNode (δ := δ) i) := by
  refine yields_bind (spares_getNode i) fun n => yields_look fun t => ?_
  refine yields_ite (yields_pure _) (yields_ite (yields_throw _) ?_)
  cases n.parent with
  | none => exact yields_pure _
  | some dir =>
    have hrewrite : Yields Volume.Spares (rewriteEntries (δ := δ) dir n) := by
      refine yields_bind (spares_onNode dir (sized_readEntries _ _)) fun r => ?_
      cases r with
      | error e => exact yields_pure _
      | ok entries =>
        refine yields_bind (spares_onVolume _) fun ok => yields_ite (yields_pure _) ?_
        exact yields_look fun t => spares_onNode dir (sized_writeEntries _ _)
    refine yields_bind hrewrite fun r => ?_
    cases r with
    | error e => exact yields_pure _
    | ok _ =>
      exact yields_bind (spares_updateNode i fun _ => ⟨rfl, rfl, fun _ => rfl⟩) fun _ =>
        spares_onVolume _

omit [Device δ] in
/-- A loop over nodes whose steps give no file another size. -/
theorem spares_untilError {f : NodeId → TreeM δ Rc} (hf : ∀ i, Yields Volume.Spares (f i))
    (is : List NodeId) : Yields Volume.Spares (untilError f is) := by
  induction is with
  | nil => exact yields_pure _
  | cons i is ih =>
    refine yields_bind (hf i) fun r => ?_
    cases r with
    | error e => exact yields_pure _
    | ok _ => exact ih

/-- `flush_nodes` gives no file another size. -/
theorem spares_flushNodes (fuel : Nat) (i : NodeId) :
    Yields Volume.Spares (flushNodes (δ := δ) fuel i) := by
  induction fuel generalizing i with
  | zero => exact yields_throw _
  | succ fuel ih =>
    refine yields_bind (spares_getNode i) fun n => yields_bind (spares_untilError ih _) fun r => ?_
    cases r with
    | error e => exact yields_pure _
    | ok _ => exact spares_exfatFlushNode i

/-- `exfat_flush_nodes` gives no file another size. -/
theorem spares_exfatFlushNodes : Yields Volume.Spares (exfatFlushNodes (δ := δ)) :=
  yields_look fun _ => spares_flushNodes _ _

/-- A node that is given another size is freed. -/
theorem spares_exfatCleanupNode (i : NodeId) :
    Yields Volume.Spares (exfatCleanupNode (δ := δ) i) := by
  intro t
  unfold exfatCleanupNode
  rw [wp_bind]
  refine wp_getNode trivial fun n hn => ?_
  split
  · exact trivial
  split
  · rw [wp_bind, wp_onNode hn]
    refine wp_of_forall (fun rc s => ?_) fun _ _ => trivial
    refine Volume.spares_free (fun x => ?_) rfl
    by_cases hx : x = i
    · subst hx
      exact .inl (Function.update_self x none (t.store x s).heap)
    · exact .inr ((Function.update_of_ne hx _ _).trans (store_heap_of_ne s hx))
  · exact refl_of Volume.Spares t

/-- `erase_node` gives no file another size. -/
theorem spares_eraseNode (i : NodeId) : Yields Volume.Spares (eraseNode (δ := δ) i) := by
  refine yields_bind (spares_getNode i) fun n => ?_
  cases n.parent with
  | none => exact yields_throw _
  | some p =>
    refine yields_bind (spares_exfatGetNode p) fun _ => ?_
    refine yields_bind (spares_onNode p (sized_eraseEntries _ _)) fun r => ?_
    cases r with
    | error e => exact spares_put_pure p _
    | ok _ => exact yields_bind (spares_exfatFlushNode p) fun rc => spares_put_pure p _

/-- What is given another size is a directory. -/
theorem spares_truncate {dir : NodeId} {size : Nat} {erase : Bool} {t : Volume δ}
    (hdir : t.Filed → ∀ {n}, t.heap dir = some n → n.isDir = true) :
    wp (onNode dir (exfatTruncate size erase)) (fun _ t' => t.Spares t') anyStop t := by
  cases hd : t.heap dir with
  | none =>
    unfold wp onNode
    rw [hd]
    exact trivial
  | some d =>
    rw [wp_onNode hd]
    refine wp_conseq
      ((keeps_exfatTruncate (R := FileState.SameBy Node.kin) size erase).yields ⟨t.ef, d⟩) ?_
    rintro _ s h ht
    have hisDir := hdir ht hd
    refine Volume.spares_store hd ⟨congrArg Kin.isDir h.view, congrArg Kin.isCached h.view,
      fun hf => ?_⟩ ht
    cases hisDir.symm.trans hf

/-- `shrink_directory` gives no file another size. -/
theorem spares_shrinkDirectory (dir : NodeId) (deletedOffset : Nat) :
    Yields Volume.Spares (shrinkDirectory (δ := δ) dir deletedOffset) := by
  intro t
  unfold shrinkDirectory
  rw [wp_bind]
  refine wp_getNode trivial fun d hd => ?_
  split
  · exact trivial
  next hdir =>
    have hdir : d.isDir = true := by simpa using hdir
    split
    · exact trivial
    rw [wp_bind]
    refine wp_mono (same_getNodes d.child t) ?_ (fun _ _ _ => trivial)
    rintro nodes _ rfl
    split
    · exact refl_of Volume.Spares _
    rw [wp_bind, wp_get]
    dsimp only
    split
    · exact refl_of Volume.Spares _
    refine spares_truncate fun _ n hn => ?_
    cases hd.symm.trans hn
    exact hdir

/-- `delete` gives no file another size. -/
theorem spares_delete (i : NodeId) : Yields Volume.Spares (delete (δ := δ) i) := by
  refine yields_bind (spares_getNode i) fun n => ?_
  cases n.parent with
  | none => exact yields_throw _
  | some p =>
    refine yields_bind (spares_exfatGetNode p) fun _ => yields_bind (spares_eraseNode i) fun r => ?_
    cases r with
    | error e => exact spares_put_pure p _
    | ok _ =>
      refine yields_bind (spares_treeDetach i) fun _ => ?_
      refine yields_bind (spares_shrinkDirectory p _) fun shrunk => ?_
      refine yields_bind (spares_updateNode i fun _ => ⟨rfl, rfl, fun _ => rfl⟩) fun _ => ?_
      cases shrunk with
      | error e => exact yields_bind (spares_exfatFlushNode p) fun _ => spares_put_pure p _
      | ok _ =>
        refine yields_bind (spares_onNode p sized_exfatUpdateMtime) fun _ => ?_
        exact yields_bind (spares_exfatFlushNode p) fun rc => spares_put_pure p _

/-- `exfat_unlink` gives no file another size. -/
theorem spares_exfatUnlink (i : NodeId) : Yields Volume.Spares (exfatUnlink (δ := δ) i) :=
  yields_bind (spares_getNode i) fun _ => yields_ite (yields_pure _) (spares_delete i)

/-- `exfat_rmdir` gives no file another size. -/
theorem spares_exfatRmdir (i : NodeId) : Yields Volume.Spares (exfatRmdir (δ := δ) i) := by
  refine yields_bind (spares_getNode i) fun n => yields_ite (yields_pure _) ?_
  refine yields_bind (spares_exfatCacheDirectory i) fun r => ?_
  cases r with
  | error e => exact yields_pure _
  | ok _ => exact yields_bind (spares_getNode i) fun _ =>
    yields_ite (yields_pure _) (spares_delete i)

/-! ### Making and renaming -/

/-- `check_slot` gives no file another size. -/
theorem spares_checkSlot (dir : NodeId) (offset n : Nat) :
    Yields Volume.Spares (checkSlot (δ := δ) dir offset n) := by
  refine yields_look fun t => yields_ite (yields_pure _) ?_
  refine yields_bind (spares_onNode dir (sized_readEntries _ _)) fun r => ?_
  cases r with
  | error e => exact yields_pure _
  | ok entries => exact yields_ite (yields_pure _) (yields_pure _)

/-- `slotLoop` gives no file another size. -/
theorem spares_slotLoop (dir : NodeId) (used : Nat → Bool) (total n fuel i contiguous start : Nat) :
    Yields Volume.Spares (slotLoop (δ := δ) dir used total n fuel i contiguous start) := by
  induction fuel generalizing i contiguous start with
  | zero => exact yields_throw _
  | succ fuel ih =>
    refine yields_ite (yields_pure _) (yields_ite (ih _ _ _) ?_)
    refine yields_ite (yields_bind (spares_checkSlot _ _ _) fun r => ?_) (ih _ _ _)
    match r with
    | .ok _ => exact yields_pure _
    | .error .einval => exact ih _ _ _
    | .error .eio | .error .enomem | .error .eexist | .error .enotdir | .error .eisdir
    | .error .enoent | .error .enospc | .error .erofs | .error .enametoolong | .error .enotempty
    | .error .eilseq | .error .enodev => exact yields_pure _

omit [Device δ] in
/-- Only volumes on which directories alone have been read matter. -/
theorem Volume.spares_of_filed {m : TreeM δ α} {t : Volume δ}
    (h : t.Filed → wp m (fun _ t' => t.Spares t') anyStop t) :
    wp m (fun _ t' => t.Spares t') anyStop t := by
  by_cases ht : t.Filed
  · exact h ht
  · exact wp_of_forall (fun _ _ ht' => absurd ht' ht) fun _ _ => trivial

/-- A directory that is extended has been read, so it is one. -/
theorem spares_findSlot (dir : NodeId) (n : Nat) :
    Yields Volume.Spares (findSlot (δ := δ) dir n) := by
  intro t
  refine Volume.spares_of_filed fun ht => ?_
  unfold findSlot
  rw [wp_bind]
  refine wp_getNode trivial fun d hd => ?_
  split
  -- `find_slot` stops when the directory has not been read
  · exact trivial
  next hcached =>
  have hdir : d.isDir = true := ht.isDir hd (by simpa using hcached)
  -- the search reads the entries and marks nothing
  have hsearch : Yields Volume.Spares (do
      let nodes ← getNodes (δ := δ) d.child
      slotLoop dir (usedSlots nodes) (d.size / entrySize)
        n (slotFuel (d.size / entrySize) n) 0 0 0) :=
    yields_bind (spares_getNodes _) fun nodes => spares_slotLoop _ _ _ _ _ _ _ _
  rw [wp_bind]
  refine wp_conseq (spares_onVolume mallocOk t) fun ok t₁ h₁ => ?_
  split
  · exact Yields.after (yields_bind (spares_onVolume _) fun _ => yields_pure _) h₁
  have hsearched := Yields.after hsearch h₁
  rw [wp_bind] at hsearched ⊢
  refine wp_conseq hsearched fun nodes t₂ hloop => ?_
  dsimp only
  rw [wp_bind]
  refine wp_conseq hloop fun r t₃ h₃ => ?_
  match r with
  | .error e => exact h₃
  | .ok (.found offset) => exact h₃
  -- only an extension changes the size, and it is that of a directory
  | .ok (.extend contiguous start) =>
    dsimp only
    rw [wp_bind, wp_get, wp_bind]
    refine wp_conseq (spares_truncate fun _ {n₃} hn₃ => ?_) fun r t₄ h₄ => ?_
    · exact ((h₃ ht).2.same hd hn₃).1.trans hdir
    have h := trans_of Volume.Spares h₃ h₄
    cases r with
    | error e => exact h
    | ok _ => exact h

/-- `commit_entry` gives no file another size. -/
theorem spares_commitEntry (dir : NodeId) (name : List Nat) (offset attrib : Nat) :
    Yields Volume.Spares (commitEntry (δ := δ) dir name offset attrib) := by
  refine yields_bind (spares_onVolume _) fun now => yields_look fun t => ?_
  cases t.ef.upcase with
  | none => exact yields_throw _
  | some upcase =>
    refine yields_bind (spares_onNode dir (sized_writeEntries _ _)) fun r => ?_
    cases r with
    | error e => exact yields_pure _
    | ok _ =>
      refine yields_bind (spares_onVolume _) fun ok => yields_ite (yields_pure _) ?_
      intro t
      rw [wp_bind]
      unfold onVolume
      rw [wp_zoom]
      refine wp_conseq (wp_initNode _ _ _ t.ef) ?_
      rintro r ef ⟨hkin, -⟩
      have hef : t.Spares { t with ef := ef } := Volume.spares_free (fun _ => .inr rfl) rfl
      refine Yields.after (yields_bind (spares_newNode (congrArg Kin.isCached hkin)) fun i => ?_)
        hef
      exact yields_bind (spares_treeAttach dir i) fun _ => yields_pure _

/-- `create` gives no file another size. -/
theorem spares_create (path : List UInt8) (attrib : Nat) :
    Yields Volume.Spares (create (δ := δ) path attrib) := by
  refine yields_bind (spares_exfatSplit path) fun r => ?_
  match r with
  | .error e => exact yields_pure _
  | .ok ⟨dir, some existing, name⟩ =>
    exact yields_bind (spares_exfatPutNode existing) fun _ => spares_put_pure dir _
  | .ok ⟨dir, none, name⟩ =>
    refine yields_bind (spares_findSlot dir _) fun r => ?_
    cases r with
    | error e => exact spares_put_pure dir _
    | ok offset =>
      refine yields_bind (spares_commitEntry dir name offset attrib) fun r => ?_
      cases r with
      | error e => exact spares_put_pure dir _
      | ok _ =>
        refine yields_bind (spares_onNode dir sized_exfatUpdateMtime) fun _ => ?_
        exact yields_bind (spares_exfatFlushNode dir) fun rc => spares_put_pure dir rc

/-- `undoMkdir` gives no file another size. -/
theorem spares_undoMkdir (i : NodeId) (e : Errno) : Yields Volume.Spares (undoMkdir (δ := δ) i e) :=
  yields_bind (spares_delete i) fun _ => spares_put_pure i _

/-- What `exfat_mkdir` gives a size is the directory it has made. -/
theorem spares_exfatMkdir (path : List UInt8) {t : Volume δ} (ht : t.Linked) :
    wp (exfatMkdir path) (fun _ t' => t.Spares t') anyStop t := by
  unfold exfatMkdir
  rw [wp_bind]
  refine wp_mono (wp_and (wp_create path attribDir ht) (spares_create path attribDir t)) ?_
    (fun _ _ _ => trivial)
  rintro r t₁ ⟨hcreate, h₁⟩
  have ht₁ := hcreate.linked
  -- the node is the one that has just been made, with the attribute of a directory
  cases r with
  | error e => exact h₁
  | ok _ =>
    obtain ⟨dir, last, name, f, k, -, -, hw, hname, hfinds, hk, -, hisDir, -⟩ := hcreate.found
    dsimp only
    rw [wp_bind]
    refine wp_mono (wp_and (wp_exfatLookup_walks hname ht₁ hw hfinds) (spares_exfatLookup path t₁))
      ?_ (fun _ _ _ => trivial)
    rintro _ t₃ ⟨⟨hkin₃, rfl⟩, h₃⟩
    dsimp only
    rw [wp_bind, wp_get, wp_bind]
    -- the lookup finds it again, so it is still a directory
    have hdir₃ : ∀ {n}, t₃.heap f = some n → n.isDir = true := by
      intro n hn
      have hview : t₃.kin = t₁.kin := hkin₃.view
      have hfn : t₁.kin f = some n.kin := hview ▸ Volume.kin_of_heap hn
      cases hk.symm.trans hfn
      exact hisDir
    refine wp_conseq (spares_truncate fun _ {n} hn => hdir₃ hn) fun r t₄ h₄ => ?_
    have h := trans_of Volume.Spares h₁ (trans_of Volume.Spares h₃ h₄)
    cases r with
    | error e => exact Yields.after (spares_undoMkdir f e) h
    | ok _ =>
      refine Yields.after (yields_bind (spares_exfatFlushNode f) fun r => ?_) h
      cases r with
      | error e => exact spares_undoMkdir f e
      | ok _ => exact spares_put_pure f _

/-- `rename_entry` gives no file another size. -/
theorem spares_renameEntry (dir i : NodeId) (name : List Nat) (newOffset : Nat) :
    Yields Volume.Spares (renameEntry (δ := δ) dir i name newOffset) := by
  refine yields_bind (spares_getNode i) fun n => ?_
  cases n.parent with
  | none => exact yields_throw _
  | some p =>
    refine yields_bind (spares_onNode p (sized_readEntries _ _)) fun r => ?_
    cases r with
    | error e => exact yields_pure _
    | ok entries =>
      refine yields_look fun t => ?_
      cases t.ef.upcase with
      | none => exact yields_throw _
      | some upcase =>
        refine yields_bind (spares_eraseNode i) fun r => ?_
        cases r with
        | error e => exact yields_pure _
        | ok _ =>
          refine yields_bind (spares_updateNode i fun _ => ⟨rfl, rfl, fun _ => rfl⟩) fun _ => ?_
          refine yields_bind (spares_onNode dir (sized_writeEntries _ _)) fun r => ?_
          cases r with
          | error e => exact yields_pure _
          | ok _ =>
            refine yields_bind (spares_updateNode i fun _ => ⟨rfl, rfl, fun _ => rfl⟩) fun _ => ?_
            refine yields_bind (spares_treeDetach i) fun _ => ?_
            exact yields_bind (spares_treeAttach dir i) fun _ => yields_pure _

/-- `unlinkTarget` gives no file another size. -/
theorem spares_unlinkTarget (i existing : NodeId) :
    Yields Volume.Spares (unlinkTarget (δ := δ) i existing) := by
  refine yields_bind (spares_getNode i) fun n => yields_bind (spares_getNode existing) fun e => ?_
  refine yields_ite (yields_ite (spares_exfatRmdir _) (yields_pure _)) ?_
  exact yields_ite (spares_exfatUnlink _) (yields_pure _)

/-- `removeTarget` gives no file another size. -/
theorem spares_removeTarget (i existing : NodeId) :
    Yields Volume.Spares (removeTarget (δ := δ) i existing) := by
  refine yields_bind (spares_unlinkTarget i existing) fun rc => ?_
  refine yields_bind (spares_exfatPutNode existing) fun _ => ?_
  cases rc with
  | error e => exact yields_bind (spares_exfatCleanupNode existing) fun _ => yields_pure _
  | ok _ => exact spares_exfatCleanupNode existing

omit [Device δ] in
/-- `putBoth` gives no file another size. -/
theorem spares_putBoth (dir i : NodeId) : Yields Volume.Spares (putBoth (δ := δ) dir i) :=
  yields_bind (spares_exfatPutNode dir) fun _ => spares_exfatPutNode i

/-- `renameInto` gives no file another size. -/
theorem spares_renameInto (dir i : NodeId) (name : List Nat) :
    Yields Volume.Spares (renameInto (δ := δ) dir i name) := by
  have hend : ∀ rc : Rc, Yields Volume.Spares (do
      putBoth (δ := δ) dir i
      pure rc) := fun rc => yields_bind (spares_putBoth dir i) fun _ => yields_pure _
  refine yields_bind (spares_findSlot dir _) fun r => ?_
  cases r with
  | error e => exact hend _
  | ok offset =>
    refine yields_bind (spares_renameEntry dir i name offset) fun r => ?_
    cases r with
    | error e => exact hend _
    | ok _ => exact yields_bind (spares_exfatFlushNode dir) fun rc => hend rc

omit [Device δ] in
/-- `targetBelow` gives no file another size. -/
theorem spares_targetBelow (dir i : NodeId) :
    Yields Volume.Spares (targetBelow (δ := δ) dir i) := by
  have hancestor : ∀ (fuel : Nat) (p : NodeId),
      Yields Volume.Spares (isAncestor (δ := δ) i fuel p) := by
    intro fuel
    induction fuel with
    | zero => exact fun _ => yields_throw _
    | succ fuel ih =>
      intro p
      refine yields_ite (yields_pure _) (yields_bind (spares_getNode p) fun n => ?_)
      cases n.parent with
      | none => exact yields_pure _
      | some q => exact ih q
  refine yields_bind (spares_getNode i) fun n => yields_look fun t => ?_
  exact yields_ite (hancestor _ _) (yields_pure _)

/-- `exfat_rename` gives no file another size. -/
theorem spares_exfatRename (oldPath newPath : List UInt8) :
    Yields Volume.Spares (exfatRename (δ := δ) oldPath newPath) := by
  refine yields_bind (spares_exfatLookup oldPath) fun r => ?_
  cases r with
  | error e => exact yields_pure _
  | ok i =>
    refine yields_bind (spares_exfatSplit newPath) fun r => ?_
    match r with
    | .error e => exact spares_put_pure i _
    | .ok ⟨dir, existing, name⟩ =>
      have hend : ∀ rc : Rc, Yields Volume.Spares (do
          putBoth (δ := δ) dir i
          pure rc) := fun rc => yields_bind (spares_putBoth dir i) fun _ => yields_pure _
      refine yields_bind (spares_targetBelow dir i) fun below => yields_ite ?_ ?_
      · cases existing with
        | none => exact hend _
        | some e => exact yields_bind (spares_exfatPutNode e) fun _ => hend _
      · cases existing with
        | none => exact spares_renameInto dir i name
        | some e =>
          refine yields_ite (yields_bind (spares_exfatPutNode e) fun _ =>
            spares_renameInto dir i name) ?_
          refine yields_bind (spares_removeTarget i e) fun r => ?_
          cases r with
          | error e => exact hend _
          | ok _ => exact spares_renameInto dir i name

/-! ### The rest -/

/-- `labelSlot` gives no file another size. -/
theorem spares_labelSlot : Yields Volume.Spares (labelSlot (δ := δ)) := by
  refine yields_look fun t => yields_bind (spares_getNode t.root) fun root => ?_
  refine yields_bind (spares_onNode t.root (sized_findLabel _ _)) fun r => ?_
  split
  · exact spares_findSlot _ _
  · exact yields_pure _

/-- `exfat_set_label` gives no file another size. -/
theorem spares_exfatSetLabel (label : List UInt8) :
    Yields Volume.Spares (exfatSetLabel (δ := δ) label) := by
  unfold exfatSetLabel
  cases exfatUtf8ToUtf16 label (enameMax + 1) with
  | error e => exact yields_pure _
  | ok units =>
    refine yields_bind spares_labelSlot fun r => ?_
    cases r with
    | error e => exact yields_pure _
    | ok offset =>
      refine yields_look fun t => yields_bind (spares_onNode _ (sized_writeEntries _ _)) fun r => ?_
      cases r with
      | error e => exact yields_pure _
      | ok _ => exact yields_bind (spares_onVolume _) fun _ => yields_pure _

/-! ### Mounting and unmounting -/

omit [Device δ] in
/-- `exfat_free` gives no file another size. -/
theorem spares_exfatFree : Yields Volume.Spares (exfatFree (δ := δ)) := fun _ =>
  Volume.spares_free (fun _ => .inl rfl) rfl

omit [Device δ] in
/-- `putLoop` gives no file another size. -/
theorem spares_putLoop (i : NodeId) (k : Nat) : Yields Volume.Spares (putLoop (δ := δ) i k) := by
  induction k with
  | zero => exact yields_pure _
  | succ k ih => exact yields_bind (spares_exfatPutNode i) fun _ => ih

omit [Device δ] in
/-- `reset_cache` gives no file another size. -/
theorem spares_resetCache (fuel : Nat) (i : NodeId) :
    Yields Volume.Spares (resetCache (δ := δ) fuel i) := by
  induction fuel generalizing i with
  | zero => exact yields_throw _
  | succ fuel ih =>
    refine yields_bind (spares_getNode i) fun n => ?_
    cases n.first with
    | none =>
      refine yields_bind (spares_uncache i) fun _ => ?_
      refine yields_bind (spares_getNode i) fun n => yields_look fun t => ?_
      refine yields_bind (spares_onVolume _) fun _ =>
        yields_ite ?_ (yields_ite ?_ (spares_putLoop _ _))
      · exact yields_bind (spares_onVolume _) fun _ => yields_throw _
      · exact spares_exfatPutNode i
    | some p =>
      refine yields_bind (ih p) fun _ => yields_bind (spares_treeDetach p) fun _ => ?_
      exact yields_bind (spares_freeNode p) fun _ => ih i

omit [Device δ] in
/-- `exfat_reset_cache` gives no file another size. -/
theorem spares_exfatResetCache : Yields Volume.Spares (exfatResetCache (δ := δ)) :=
  yields_look fun _ => spares_resetCache _ _

omit [Device δ] in
/-- `abandonMount` gives no file another size. -/
theorem spares_abandonMount (root : NodeId) :
    Yields Volume.Spares (abandonMount (δ := δ) root) := by
  refine yields_bind (spares_exfatPutNode root) fun _ => ?_
  refine yields_bind spares_exfatResetCache fun _ => ?_
  exact yields_bind spares_exfatFree fun _ => yields_pure _

/-- The only node whose size is set is the root directory. -/
theorem spares_mountRoot : Yields Volume.Spares (mountRoot (δ := δ)) := by
  intro t
  unfold mountRoot
  rw [wp_bind, wp_get, wp_bind, wp_set, wp_bind, wp_onNode (Function.update_self ..)]
  refine wp_conseq (sized_rootdirSize _) fun size s hs => ?_
  have hinsert := t.spares_insert { attrib := attribDir, startCluster := t.ef.sb.rootdirCluster
                                    fptrCluster := t.ef.sb.rootdirCluster } rfl t.fresh
  have h₁ := trans_of Volume.Spares hinsert (Volume.spares_store (Function.update_self ..) hs)
  rw [wp_bind]
  refine wp_of_ok (run_updateNode (store_heap_self ..) _) ?_
  have hisDir : s.node.isDir = true := hs.isDir.trans (show attribDir.testBit 4 = true by decide)
  refine Yields.after ?_
    (trans_of Volume.Spares h₁ (Volume.spares_assign (store_heap_self _ t.fresh s)
    (s := ⟨s.ef, { s.node with size := size, validSize := size }⟩) rfl
    (fun hf => by cases hisDir.symm.trans hf) fun _ _ => hisDir))
  refine yields_ite (yields_bind spares_exfatFree fun _ => yields_pure _) ?_
  refine yields_bind (spares_exfatGetNode _) fun _ => ?_
  refine yields_bind (spares_exfatCacheDirectory _) fun r => ?_
  cases r with
  | error e => exact spares_abandonMount _
  | ok _ =>
    refine yields_look fun t => yields_ite ?_ (yields_ite ?_ (yields_pure _))
    · exact yields_bind (spares_onVolume _) fun _ => spares_abandonMount _
    · exact yields_bind (spares_onVolume _) fun _ => spares_abandonMount _

/-- `exfat_mount` gives no file another size. -/
theorem spares_exfatMount : Yields Volume.Spares (exfatMount (δ := δ)) := by
  refine yields_bind (spares_onVolume _) fun r => ?_
  cases r with
  | error e => exact yields_bind spares_exfatFree fun _ => yields_pure _
  | ok _ => exact spares_mountRoot

/-! ### Resizing, reading and writing a file -/

/-- The node keeps its place in the tree and its size. -/
def FileState.SameSize (s s' : FileState δ) : Prop :=
  s'.node.kin = s.node.kin ∧ s'.node.size = s.node.size

instance : ResizeRel (δ := δ) FileState.SameSize where
  refl _ := ⟨rfl, rfl⟩
  trans _ _ _ h h' := ⟨h'.1.trans h.1, h'.2.trans h.2⟩
  call _ := ⟨rfl, rfl⟩
  report _ := ⟨rfl, rfl⟩
  cursor _ _ _ := ⟨rfl, rfl⟩
  valid _ _ := ⟨rfl, rfl⟩
  tick _ := ⟨rfl, rfl⟩
  bits _ _ _ := ⟨rfl, rfl⟩
  contents _ _ h hs := ⟨Aloof.data h, hs⟩

/-- `exfat_truncate` gives the file the size, or leaves it the one it had. -/
theorem wp_exfatTruncate_size (size : Nat) (erase : Bool) (s : FileState δ) :
    wp (exfatTruncate size erase) (fun r s' => s'.node.kin = s.node.kin ∧
      s'.node.size = if r = .ok () then size else s.node.size) anyStop s := by
  unfold exfatTruncate
  rw [wp_bind, wp_get]
  dsimp only
  split
  · exact trivial
  split
  next hsize => exact ⟨rfl, hsize⟩
  rw [wp_bind]
  refine wp_mono (keeps_resizeFile (R := FileState.SameSize) _ _ s) ?_ (fun _ _ _ => trivial)
  rintro r s₁ ⟨hkin₁, hsize₁⟩
  cases r with
  | error e => exact ⟨hkin₁, hsize₁⟩
  | ok _ =>
    dsimp only
    split
    · rw [wp_bind, wp_get, wp_bind]
      refine wp_mono (keeps_eraseRange (R := FileState.SameSize) _ _ s₁) ?_ (fun _ _ _ => trivial)
      rintro r s₂ ⟨hkin₂, hsize₂⟩
      cases r with
      | error e => exact ⟨hkin₂.trans hkin₁, hsize₂.trans hsize₁⟩
      | ok _ => exact ⟨hkin₂.trans hkin₁, rfl⟩
    · exact ⟨hkin₁, rfl⟩

/-- No more is written than there is. -/
theorem wp_pwriteValid_length (data : List UInt8) (uoffset : Nat) (s : FileState δ) :
    wp (pwriteValid data uoffset) (fun r _ => ∀ n, r = .ok n → n ≤ data.length) anyStop s := by
  unfold pwriteValid
  rw [wp_bind, wp_get]
  dsimp only
  split
  · intro n hn
    cases hn
    exact Nat.zero_le _
  refine wp_after fun cluster s₁ => ?_
  split
  · exact wp_after fun _ _ => nofun
  refine wp_after fun r s₂ => ?_
  cases r with
  | error e => exact nofun
  | ok _ =>
    rw [wp_bind, wp_get]
    have hlast : ∀ n, (.ok data.length : Except Errno Nat) = .ok n → n ≤ data.length := by
      intro n hn
      cases hn
      exact le_rfl
    split
    · exact wp_after fun _ _ => hlast
    · exact hlast

/-- What has been written lies within the file, which does not shrink. -/
theorem wp_exfatGenericPwrite_size {data : List UInt8} {offset : Int} {s : FileState δ}
    (hoffset : 0 ≤ offset) (hin : offset ≤ s.node.size) (hlt : offset + data.length < 2 ^ 63) :
    wp (exfatGenericPwrite data offset) (fun r s' => s'.node.kin = s.node.kin ∧
      s.node.size ≤ s'.node.size ∧ ∀ n, r = .ok n → offset + n ≤ s'.node.size) anyStop s := by
  -- the offset is not negative, so it is taken as it is
  obtain ⟨uoffset, rfl⟩ := Int.eq_ofNat_of_zero_le hoffset
  have hin : uoffset ≤ s.node.size := by exact_mod_cast hin
  have hwrap : u64 (uoffset + data.length) = uoffset + data.length := Nat.mod_eq_of_lt (by omega)
  -- Behind the extension the bytes are written where there is room.
  have hvalid : ∀ s₁ : FileState δ, s₁.node.kin = s.node.kin → s.node.size ≤ s₁.node.size →
      uoffset + data.length ≤ s₁.node.size →
      wp (pwriteValid data uoffset) (fun r s' => s'.node.kin = s.node.kin ∧
        s.node.size ≤ s'.node.size ∧ ∀ n, r = .ok n → (uoffset : Int) + n ≤ s'.node.size)
        anyStop s₁ := by
    intro s₁ hkin₁ hle₁ hroom
    refine wp_mono (wp_and (keeps_pwriteValid (R := FileState.SameSize) data uoffset s₁)
      (wp_pwriteValid_length data uoffset s₁)) ?_ (fun _ _ _ => trivial)
    rintro r s₂ ⟨⟨hkin₂, hsize₂⟩, hlength⟩
    refine ⟨hkin₂.trans hkin₁, hsize₂ ▸ hle₁, fun n hn => ?_⟩
    have := hlength n hn
    omega
  unfold exfatGenericPwrite
  rw [wp_bind, wp_get, if_neg (by omega)]
  dsimp only
  rw [if_neg (by simpa using hin)]
  -- the file is extended when what is written ends behind it
  unfold pwriteExtend
  rw [wp_bind, wp_get, Int.toNat_natCast, hwrap]
  split
  next hgrow =>
    rw [wp_bind]
    refine wp_conseq (wp_exfatTruncate_size _ _ s) ?_
    rintro r s₁ ⟨hkin₁, hsize₁⟩
    cases r with
    | error e => exact ⟨hkin₁, hsize₁.ge, nofun⟩
    | ok _ =>
      rw [if_pos rfl] at hsize₁
      exact hvalid s₁ hkin₁ (by omega) hsize₁.ge
  · exact hvalid s rfl le_rfl (by omega)

/-- No more is read than there is behind the offset. -/
theorem wp_preadValid_length (size uoffset : Nat) (s : FileState δ) :
    wp (preadValid size uoffset) (fun r _ => ∀ n data, r = .ok (n, data) →
      n ≤ s.node.size - uoffset) anyStop s := by
  unfold preadValid
  rw [wp_bind, wp_get]
  dsimp only
  refine wp_after fun cluster s₁ => ?_
  split
  · exact wp_after fun _ _ => nofun
  refine wp_after fun r s₂ => ?_
  cases r with
  | error e => exact nofun
  | ok bytes =>
    rw [wp_bind, wp_get]
    have hlast : ∀ n data, (.ok (min size (s.node.size - uoffset), bytes) :
        Except Errno (Nat × List UInt8)) = .ok (n, data) → n ≤ s.node.size - uoffset := by
      intro n data hn
      cases hn
      exact Nat.min_le_right _ _
    split
    · exact wp_after fun _ _ => hlast
    · exact hlast

/-- What has been read lies within the file. -/
theorem wp_exfatGenericPread_size {size : Nat} {offset : Int} {s : FileState δ}
    (hoffset : 0 ≤ offset) (hin : offset ≤ s.node.size) :
    wp (exfatGenericPread size offset) (fun r s' => s'.node.kin = s.node.kin ∧
      s'.node.size = s.node.size ∧ ∀ n data, r = .ok (n, data) → offset + n ≤ s.node.size)
      anyStop s := by
  obtain ⟨uoffset, rfl⟩ := Int.eq_ofNat_of_zero_le hoffset
  have hin : uoffset ≤ s.node.size := by exact_mod_cast hin
  -- the bound is on what is returned; the sizes do not change
  suffices hlength : wp (exfatGenericPread size uoffset) (fun r _ => ∀ n data, r = .ok (n, data) →
      n ≤ s.node.size - uoffset) anyStop s by
    refine wp_mono
      (wp_and (keeps_exfatGenericPread (R := FileState.SameSize) size uoffset s) hlength) ?_
      (fun _ _ _ => trivial)
    rintro r s' ⟨⟨hkin, hsize⟩, hlength⟩
    refine ⟨hkin, hsize, fun n data hn => ?_⟩
    have := hlength n data hn
    omega
  have hzero : ∀ n data, (.ok (0, []) : Except Errno (Nat × List UInt8)) = .ok (n, data) →
      n ≤ s.node.size - uoffset := by
    intro n data hn
    cases hn
    exact Nat.zero_le _
  have hmin : ∀ (rest : List UInt8) n data, (.ok (min size (s.node.size - uoffset), rest) :
      Except Errno (Nat × List UInt8)) = .ok (n, data) → n ≤ s.node.size - uoffset := by
    intro rest n data hn
    cases hn
    exact Nat.min_le_right _ _
  unfold exfatGenericPread
  rw [wp_bind, wp_get, if_neg (by omega)]
  dsimp only
  rw [Int.toNat_natCast]
  -- nothing to read, an offset behind the end, and the part that has never been written
  split
  · exact hzero
  split
  · exact hzero
  split
  · split
    · rw [wp_bind]
      refine wp_conseq (wp_preadValid_length _ uoffset s) fun r s₁ hr => ?_
      match r with
      | .error e => exact nofun
      | .ok (bytes, buffer) =>
        dsimp only
        split
        · exact hr
        · exact hmin _
    · exact hmin _
  · exact wp_preadValid_length size uoffset s

end Device

end ExFat
