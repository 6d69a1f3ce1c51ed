import ExFat.Fs.Upkeep
import ExFat.Session.Percent
import Mathlib.Data.Finset.Lattice.Fold

namespace ExFat

open Program Bytes

/-!
# What has been made is found

Names stay different in every directory while the calls run, and `exfat_lookup` returns the node
that `exfat_mknod` or `exfat_mkdir` has made for the path.  A lookup takes references and drops
them; when the last one goes, the name of a node that is still to be written back is put into a
warning.
-/

variable {δ : Type} {α β : Type} {D : Prop} {H : Set NodeId}

/-! ### References are not overdrawn -/

/-- No node has less than no references. -/
def Volume.Solvent (t : Volume δ) : Prop := ∀ i, 0 ≤ t.refs i

/-- Taking references leaves no node in debt. -/
theorem Volume.Counted.solvent {t t' : Volume δ} {d : Delta} (h : t.Counted d t') (ht : t.Solvent)
    (hd : ∀ i, 0 ≤ d i) : t'.Solvent := by
  intro i
  rw [h.refs]
  exact Int.add_nonneg (ht i) (hd i)

/-- One reference is not negative. -/
theorem one_nonneg (i j : NodeId) : 0 ≤ one i j := by
  unfold one
  split <;> decide

/-- The references that are taken are not negative. -/
theorem taken_nonneg {ε : Type} (r : Except ε NodeId) (j : NodeId) : 0 ≤ taken r j := by
  cases r with
  | error e => exact le_rfl
  | ok i => exact one_nonneg i j

/-- What a routine does to a volume on which no reference is overdrawn. -/
def Volume.StaysSolvent (t t' : Volume δ) : Prop := t.Solvent → t'.Solvent

instance : IsPreorder (Volume δ) Volume.StaysSolvent where
  refl _ := id
  trans _ _ _ h h' := h' ∘ h

/-- The references to a node in memory. -/
theorem Volume.refs_of_heap {t : Volume δ} {i : NodeId} {n : Node} (h : t.heap i = some n) :
    t.refs i = n.references := by
  unfold refs
  rw [h]
  rfl

/-- The references to a node that has been stored. -/
theorem Volume.refs_store_self (t : Volume δ) (i : NodeId) (s : FileState δ) :
    (t.store i s).refs i = s.node.references := refs_of_heap (store_heap_self t i s)

/-- The references to the other nodes are as before. -/
theorem Volume.refs_store_of_ne (t : Volume δ) {i j : NodeId} (s : FileState δ) (h : j ≠ i) :
    (t.store i s).refs j = t.refs j := by
  unfold refs
  rw [store_heap_of_ne s h]

/-- Storing a node that is not in debt. -/
theorem solvent_store {t : Volume δ} (ht : t.Solvent) {i : NodeId} {s : FileState δ}
    (hs : 0 ≤ s.node.references) : (t.store i s).Solvent := by
  intro j
  by_cases hj : j = i
  · subst hj
    rw [Volume.refs_store_self]
    exact hs
  · rw [Volume.refs_store_of_ne _ _ hj]
    exact ht j

/-- A change that leaves the references alone leaves no node in debt. -/
theorem solvent_updateNode (i : NodeId) {f : Node → Node}
    (h : ∀ n, (f n).references = n.references) :
    Yields Volume.StaysSolvent (updateNode (δ := δ) i f) := by
  intro t
  cases hi : t.heap i with
  | none =>
    unfold wp updateNode onNode
    rw [hi]
    exact trivial
  | some n =>
    refine wp_of_ok (run_updateNode hi f) fun ht => solvent_store ht ?_
    rw [h, ← Volume.refs_of_heap hi]
    exact ht i

/-- A routine on the volume leaves no node in debt. -/
theorem solvent_onVolume (m : EfM δ α) : Yields Volume.StaysSolvent (onVolume m) := by
  intro t
  unfold onVolume
  rw [wp_zoom]
  exact wp_of_forall (fun _ _ ht => ht) fun _ _ => trivial

/-- A routine that leaves the tree alone leaves no node in debt. -/
theorem solvent_of_same {m : TreeM δ α} (hm : Keeps Volume.Same m) :
    Yields Volume.StaysSolvent m := by
  refine hm.yields.mono fun t t' h => ?_
  cases h
  exact refl_of Volume.StaysSolvent t

/-- `exfat_put_node` returns only if there was a reference. -/
theorem solvent_exfatPutNode (i : NodeId) :
    Yields Volume.StaysSolvent (exfatPutNode (δ := δ) i) := by
  intro t
  cases hi : t.heap i with
  | none =>
    unfold exfatPutNode
    rw [wp_bind]
    unfold wp updateNode onNode
    rw [hi]
    exact trivial
  | some n =>
    unfold exfatPutNode
    rw [wp_bind]
    refine wp_of_ok (run_updateNode hi _) ?_
    rw [wp_bind]
    refine wp_of_ok (run_getNode (store_heap_self ..)) ?_
    rw [wp_bind, wp_get]
    by_cases hneg : n.references - 1 < 0
    · rw [if_pos hneg]
      exact wp_after fun _ _ => trivial
    rw [if_neg hneg]
    have hsolvent : t.Solvent →
        (t.store i ⟨t.ef, { n with references := n.references - 1 }⟩).Solvent :=
      fun ht => solvent_store ht (Int.not_lt.1 hneg)
    split
    · exact Yields.after (yields_bind (solvent_onVolume _) fun _ => yields_pure _) hsolvent
    · exact hsolvent

/-- `putLoop` leaves no node in debt. -/
theorem solvent_putLoop (i : NodeId) (k : Nat) :
    Yields Volume.StaysSolvent (putLoop (δ := δ) i k) := by
  induction k with
  | zero => exact yields_pure _
  | succ k ih => exact yields_bind (solvent_exfatPutNode i) fun _ => ih

/-- `tree_detach` leaves no node in debt. -/
theorem solvent_treeDetach (i : NodeId) : Yields Volume.StaysSolvent (treeDetach (δ := δ) i) := by
  have hbefore : ∀ (p : NodeId) (next prev : Option NodeId),
      Yields Volume.StaysSolvent (bridgeBefore (δ := δ) p next prev) := by
    intro p next prev
    cases prev with
    | none => exact solvent_updateNode p fun _ => rfl
    | some q => exact solvent_updateNode q fun _ => rfl
  have hbehind : ∀ prev next : Option NodeId,
      Yields Volume.StaysSolvent (bridgeBehind (δ := δ) prev next) := by
    intro prev next
    cases next with
    | none => exact yields_pure _
    | some q => exact solvent_updateNode q fun _ => rfl
  refine yields_bind (solvent_of_same (same_getNode i)) fun n => ?_
  cases n.parent with
  | none => exact yields_throw _
  | some p =>
    refine yields_bind (hbefore p _ _) fun _ => yields_bind (hbehind _ _) fun _ => ?_
    exact yields_bind (solvent_updateNode p fun _ => rfl) fun _ => solvent_updateNode i fun _ => rfl

/-- `freeNode` leaves no node in debt. -/
theorem solvent_freeNode (i : NodeId) : Yields Volume.StaysSolvent (freeNode (δ := δ) i) := by
  intro t ht j
  show 0 ≤ ((Function.update t.heap i none j).map Node.references).getD 0
  by_cases hj : j = i
  · subst hj
    rw [Function.update_self]
    exact le_rfl
  · rw [Function.update_of_ne hj]
    exact ht j

/-- `reset_cache` leaves no node in debt. -/
theorem solvent_resetCache (fuel : Nat) (i : NodeId) :
    Yields Volume.StaysSolvent (resetCache (δ := δ) fuel i) := by
  induction fuel generalizing i with
  | zero => exact yields_throw _
  | succ fuel ih =>
    refine yields_bind (solvent_of_same (same_getNode i)) fun n => ?_
    cases n.first with
    | none =>
      refine yields_bind (solvent_updateNode i fun _ => rfl) fun _ => ?_
      refine yields_bind (solvent_of_same (same_getNode i)) fun n => yields_look fun t => ?_
      refine yields_bind (solvent_onVolume _) fun _ =>
        yields_ite ?_ (yields_ite ?_ (solvent_putLoop _ _))
      · exact yields_bind (solvent_onVolume _) fun _ => yields_throw _
      · exact solvent_exfatPutNode i
    | some p =>
      refine yields_bind (ih p) fun _ => yields_bind (solvent_treeDetach p) fun _ => ?_
      exact yields_bind (solvent_freeNode p) fun _ => ih i

variable [Device δ]

/-- One call leaves no reference overdrawn. -/
theorem TreeOp.solvent {op : TreeOp} {t : Volume δ} (hb : t.Bounded) (ht : t.Solvent) :
    wp op.run (fun _ t' => t'.Solvent) anyStop t := by
  -- Every call but three gives back all it takes.
  have hzero : ∀ {m : TreeM δ Rc}, Refs m 0 → wp (do
      let _ ← m
      pure (none : Option NodeId)) (fun _ t' => t'.Solvent) anyStop t := fun hm => by
    rw [wp_bind]
    exact wp_conseq (hm t hb) fun _ _ h => h.solvent ht fun _ => le_rfl
  cases op with
  -- a lookup hands one reference out
  | lookup path =>
    unfold TreeOp.run
    rw [wp_bind]
    refine wp_conseq (refs_exfatLookup path t hb) fun r t' h => ?_
    have ht' := h.solvent ht (taken_nonneg r)
    cases r with
    | error e => exact ht'
    | ok i => exact ht'
  | cacheDirectory dir => exact hzero (refs_exfatCacheDirectory dir)
  | mknod path => exact hzero (refs_create path _)
  | mkdir path => exact hzero (refs_exfatMkdir path)
  | unlink i => exact hzero (refs_exfatUnlink i)
  | rmdir i => exact hzero (refs_exfatRmdir i)
  | rename oldPath newPath => exact hzero (refs_exfatRename oldPath newPath)
  -- a put takes none that is not there
  | put i =>
    unfold TreeOp.run
    rw [wp_bind]
    exact wp_conseq (solvent_exfatPutNode i t) fun _ _ h => h ht
  | cleanup i => exact hzero (refs_exfatCleanupNode i)
  | resetCache =>
    unfold TreeOp.run
    rw [wp_bind]
    exact wp_conseq (solvent_resetCache _ _ t) fun _ _ h => h ht

/-- In a volume that has been reached no node is in debt. -/
theorem Volume.Reached.solvent {t₀ t : Volume δ} (ht₀ : t₀.Vacant) (h : t₀.Reached D H t) :
    t.Solvent := by
  induction h with
  | mount hrun _ =>
    intro i
    rw [(wp_anyStop_iff.1 (exfatMount_refs ht₀) _ _ hrun).2 i]
    exact one_nonneg _ _
  | call h _ _ hrun ih =>
    exact wp_anyStop_iff.1 (TreeOp.solvent (h.sound ht₀).linked.toBounded ih) _ _ hrun
  | readdir h _ _ hrun ih =>
    have hcounted :=
      wp_anyStop_iff.1 (refs_exfatGetNode _ _ (h.sound ht₀).linked.toBounded) _ _ hrun
    exact hcounted.solvent ih (one_nonneg _)

/-! ### The tree as a forest -/

section Mounted

omit [Device δ]

/-- The links of a tree: a node below the root is one deeper than its directory. -/
theorem Volume.Sound.graded {t : Volume δ} (ht : t.Sound D H) :
    ∃ deep : NodeId → Nat, Forest.Graded t.link deep := by
  -- the depth of a node in the tree, 0 outside of it
  classical
  let deep : NodeId → Nat := fun x => if h : ∃ n, t.Depth x n then h.choose else 0
  have hdeep : ∀ {x n}, t.Depth x n → deep x = n := by
    intro x n hx
    have hex : ∃ n, t.Depth x n := ⟨n, hx⟩
    show (if h : ∃ n, t.Depth x n then h.choose else 0) = n
    rw [dif_pos hex]
    exact hex.choose_spec.unique ht.linked hx
  -- The nodes above a node are less deep, and no directory names a node twice.
  refine ⟨deep, fun {d q kids i} hd hi => ?_, fun {i d} hi => ?_, fun {d q kids} hd => ?_⟩
  · obtain ⟨m, hm, -, rfl⟩ := node_of_link hd
    obtain ⟨k, hk, hp⟩ := ht.linked.down (Volume.kin_of_heap hm) hi
    obtain ⟨n, hn, rfl⟩ := Option.map_eq_some_iff.1 hk
    refine ⟨n.child, ?_⟩
    unfold Volume.link
    rw [hn, Option.map_some, show n.parent = some d from hp]
  · obtain ⟨kids, hlink⟩ := hi
    obtain ⟨n, hn, hp, -⟩ := node_of_link hlink
    have hk := Volume.kin_of_heap hn
    obtain ⟨j, hj⟩ := ht.rooted i n.kin d hk hp
    rw [hdeep hj]
    cases hj with
    | root => cases hp.symm.trans (ht.linked.root hk)
    | child hx hp' hd =>
      cases hk.symm.trans hx
      cases hp.symm.trans hp'
      rw [hdeep hd]
  · obtain ⟨m, hm, -, rfl⟩ := node_of_link hd
    exact ht.linked.nodup (Volume.kin_of_heap hm)

/-- The nodes below the root of a tree are a forest that its pointers join. -/
theorem Volume.Sound.forest {t : Volume δ} (ht : t.Sound D H) {r : Node}
    (hr : t.heap t.root = some r) :
    ∃ f : Forest NodeId, f.roots = r.child ∧ f.Fits t.link t.root ∧ f.Spliced t.pointers none ∧
      f.postOrder.Nodup := by
  -- the depth bounds the recursion that builds the forest
  obtain ⟨deep, hgraded⟩ := ht.graded
  have hlink : t.link t.root = some (r.parent, r.child) := by
    unfold Volume.link
    rw [hr, Option.map_some]
  have hbound : ∀ {i d}, Forest.Above t.link i d → deep i ≤ (Finset.range t.fresh).sup deep := by
    rintro i d ⟨kids, hi⟩
    obtain ⟨n, hn, -⟩ := node_of_link hi
    exact Finset.le_sup (Finset.mem_range.2 (ht.linked.lt (Volume.kin_of_heap hn)))
  obtain ⟨f, hroots, hfits⟩ := hgraded.exists_fits hbound _ hlink (Nat.le_add_left _ (deep t.root))
  have hk := Volume.kin_of_heap hr
  have hpointers : ∀ {i q kids}, t.link i = some (q, kids) →
      t.pointers i = some (kids.head?, kinNext t.kin i, kinPrev t.kin i) ∧
        Strung (kinNext t.kin) (kinPrev t.kin) none kids := by
    intro i q kids hi
    obtain ⟨n, hn, -, rfl⟩ := node_of_link hi
    have hkn := Volume.kin_of_heap hn
    refine ⟨?_, ht.linked.strung hkn⟩
    unfold Volume.pointers
    rw [hn, Option.map_some, kinNext_of hkn, kinPrev_of hkn,
      show n.first = _ from ht.linked.first hkn]
    rfl
  -- the forest, its pointers, and that no node is in it twice
  refine ⟨f, hroots, hfits, hfits.spliced hpointers ?_, hfits.nodup hgraded ?_⟩
  · rw [hroots]
    exact ht.linked.strung hk
  · rw [hroots]
    exact ht.linked.nodup hk

end Mounted

/-- Whatever calls follow a mount, the volume is one that `exfat_unmount` expects, as long as the
reference of `exfat_mount` to the root is there (`exfat_reset_cache` drops it). -/
theorem Volume.Reached.mounted {t₀ t : Volume δ} (ht₀ : t₀.Vacant) (h : t₀.Reached D H t)
    (href : 1 ≤ t.refs t.root) : ∃ f, Mounted t f := by
  have ht := h.sound ht₀
  have hs := h.solvent ht₀
  obtain ⟨k, hk, -⟩ := ht.linked.alive
  obtain ⟨r, hr, rfl⟩ := Option.map_eq_some_iff.1 hk
  have hparent : r.parent = none := ht.linked.root hk
  obtain ⟨f, hroots, hfits, hspliced, hnodup⟩ := ht.forest hr
  have hlinked : ∀ i ∈ f.postOrder, ∃ n d, t.heap i = some n ∧ n.parent = some d := by
    intro i hi
    obtain ⟨d, below, hlink, -⟩ := hfits.linked hi
    obtain ⟨n, hn, hp, -⟩ := node_of_link hlink
    exact ⟨n, d, hn, hp⟩
  refine ⟨f, hfits, hspliced, fun r' hr' => ?_, ⟨r, hr, hparent, hroots.symm, ?_, ht.nameless _ hk⟩,
    List.nodup_cons.2 ⟨fun hmem => ?_, hnodup⟩, fun i hi => ?_, fun i hi n hn => ?_⟩
  · cases hr.symm.trans hr'
    rw [hroots]
    exact ht.linked.first hk
  · rw [← Volume.refs_of_heap hr]
    exact href
  · obtain ⟨n, d, hn, hp⟩ := hlinked _ hmem
    cases hr.symm.trans hn
    cases hparent.symm.trans hp
  · rcases List.mem_cons.1 hi with rfl | hi
    · exact ht.linked.rooted
    · obtain ⟨n, d, hn, -⟩ := hlinked i hi
      exact ht.linked.lt (Volume.kin_of_heap hn)
  · rw [← Volume.refs_of_heap hn]
    exact hs i

/-! ### Lookups that return -/

/-- A node without its references. -/
def Node.bare (n : Node) : Node := { n with references := 0 }

/-- Nothing has changed but references. -/
abbrev Volume.SameBare (t t' : Volume δ) : Prop := t.SameBy Node.bare t'

omit [Device δ] in
/-- Nodes that are bare alike have the same place in the family tree. -/
theorem Volume.SameBy.sameKin {t t' : Volume δ} (h : t.SameBare t') : t.SameKin t' := by
  refine ⟨h.root, h.fresh, funext fun x => ?_, h.upcase⟩
  have hx := congrArg (Option.map Node.kin) (congrFun h.view x)
  simp only [Volume.view, Option.map_map] at hx ⊢
  exact hx

omit [Device δ] in
/-- A node that is in memory was bare alike. -/
theorem Volume.SameBy.node {t t' : Volume δ} (h : t.SameBare t') {x : NodeId} {n' : Node}
    (hx : t'.heap x = some n') : ∃ n, t.heap x = some n ∧ n'.bare = n.bare := by
  have hview := congrFun h.view x
  unfold Volume.view at hview
  rw [hx, Option.map_some] at hview
  obtain ⟨n, hn, hbare⟩ := Option.map_eq_some_iff.1 hview.symm
  exact ⟨n, hn, hbare.symm⟩

omit [Device δ] in
/-- A node that was in memory is bare alike. -/
theorem Volume.SameBy.alive {t t' : Volume δ} (h : t.SameBare t') {x : NodeId} {n : Node}
    (hx : t.heap x = some n) : ∃ n', t'.heap x = some n' ∧ n'.bare = n.bare := by
  have hview := congrFun h.view x
  unfold Volume.view at hview
  rw [hx, Option.map_some] at hview
  exact Option.map_eq_some_iff.1 hview

/-- The names of the nodes that are to be written back can be shown. -/
def Volume.Named (t : Volume δ) : Prop :=
  ∀ x n, t.heap x = some n → n.isDirty = true → ∃ name, nameUtf8 n.name = .ok name

omit [Device δ] in
/-- Nodes that are bare alike have the same names. -/
theorem Volume.SameBy.named {t t' : Volume δ} (h : t.SameBare t') (ht : t.Named) : t'.Named := by
  intro x n' hx hdirty
  obtain ⟨n, hn, hbare⟩ := h.node hx
  have hname : n'.bare.name = n.bare.name := by rw [hbare]
  have hsame : n'.bare.isDirty = n.bare.isDirty := by rw [hbare]
  obtain ⟨name, hok⟩ := ht x n hn (hsame ▸ hdirty)
  exact ⟨name, (congrArg nameUtf8 hname).trans hok⟩

section Completes

variable {t : Volume δ} {i : NodeId} {n : Node}

omit [Device δ] in
/-- `exfat_get_node` takes a reference. -/
theorem wp_get_bare (hi : t.heap i = some n) :
    wp (exfatGetNode i) (fun _ t' => t.SameBare t' ∧ ∀ j, t'.refs j = t.refs j + one i j)
    never t := by
  have hkeep : Keeps Volume.SameBare (exfatGetNode (δ := δ) i) := links_updateNode i fun _ => rfl
  have hrun := run_updateNode hi fun n => { n with references := n.references + 1 }
  refine wp_of_ok hrun ⟨hkeep.ok hrun, fun j => ?_⟩
  by_cases hj : j = i
  · subst hj
    rw [Volume.refs_store_self, Volume.refs_of_heap hi, one, if_pos rfl]
  · rw [Volume.refs_store_of_ne _ _ hj, one, if_neg hj, Int.add_zero]

omit [Device δ] in
/-- A reference that is there can be dropped. -/
theorem wp_put_bare (hi : t.heap i = some n) (href : 1 ≤ t.refs i) (hn : t.Named) :
    wp (exfatPutNode i) (fun _ t' => t.SameBare t' ∧ ∀ j, t'.refs j = t.refs j - one i j)
    never t := by
  let n' : Node := { n with references := n.references - 1 }
  have hkeep : Keeps Volume.SameBare (updateNode (δ := δ) i fun n => { n with
      references := n.references - 1 }) := links_updateNode i fun _ => rfl
  have hrun := run_updateNode hi fun n => { n with references := n.references - 1 }
  have hpost : t.SameBare (t.store i ⟨t.ef, n'⟩) ∧
      ∀ j, (t.store i ⟨t.ef, n'⟩).refs j = t.refs j - one i j := by
    -- the reference is gone, and everything else is as it was
    refine ⟨hkeep.ok hrun, fun j => ?_⟩
    by_cases hj : j = i
    · subst hj
      rw [Volume.refs_store_self, Volume.refs_of_heap hi, one, if_pos rfl]
    · rw [Volume.refs_store_of_ne _ _ hj, one, if_neg hj, Int.sub_zero]
  rw [Volume.refs_of_heap hi] at href
  unfold exfatPutNode
  rw [wp_bind]
  refine wp_of_ok hrun ?_
  rw [wp_bind]
  refine wp_of_ok (run_getNode (store_heap_self ..)) ?_
  -- it was there, so the count does not become negative
  rw [wp_bind, wp_get, if_neg (show ¬ n.references - 1 < 0 by omega)]
  split
  -- the warning about a dirty node without references names the node
  next hwarn =>
    obtain ⟨name, hname⟩ := hn i n hi hwarn.2.2
    rw [wp_bind]
    unfold onVolume exfatGetName
    rw [wp_zoom, show nameUtf8 n'.name = .ok name from hname]
    exact hpost
  · exact hpost

omit [Device δ] in
/-- The loop of `lookup_name` returns. -/
theorem wp_lookupLoop_bare {name : List Nat} {u : Nat → Nat} (is : List NodeId)
    (his : ∀ i ∈ is, ∃ n, t.heap i = some n) (hs : t.Solvent) (hn : t.Named)
    (hu : t.ef.upcase = some u) : wp (lookupLoop name is) (fun _ t' => t.SameBare t') never t := by
  -- On the children; the reference to each is taken and, if the name differs, given back.
  induction is generalizing t with
  | nil => exact refl_of Volume.SameBare t
  | cons i is ih =>
    obtain ⟨n, hi⟩ := his i (List.mem_cons_self ..)
    unfold lookupLoop
    rw [wp_bind]
    refine wp_conseq (wp_get_bare hi) ?_
    rintro _ t₁ ⟨h₁, hrefs₁⟩
    obtain ⟨n₁, hi₁, -⟩ := h₁.alive hi
    rw [wp_bind]
    refine wp_of_ok (run_getNode hi₁) ?_
    rw [wp_bind, wp_get, h₁.upcase u hu]
    dsimp only
    split
    · exact h₁
    rw [wp_bind]
    -- the reference is the one just taken
    have href : 1 ≤ t₁.refs i := by
      have := hs i
      rw [hrefs₁, one, if_pos rfl]
      omega
    refine wp_conseq (wp_put_bare hi₁ href (h₁.named hn)) ?_
    rintro _ t₂ ⟨h₂, hrefs₂⟩
    have h₁₂ : t.SameBare t₂ := trans_of Volume.SameBare h₁ h₂
    refine wp_conseq (ih (fun j hj => ?_) (fun j => ?_) (h₁₂.named hn) (h₁₂.upcase u hu)) ?_
    · obtain ⟨m, hm⟩ := his j (List.mem_cons_of_mem _ hj)
      obtain ⟨m', hm', -⟩ := h₁₂.alive hm
      exact ⟨m', hm'⟩
    · rw [hrefs₂, hrefs₁, Int.add_sub_cancel]
      exact hs j
    · exact fun _ t₃ h₃ => trans_of Volume.SameBare h₁₂ h₃

/-- In a directory that has been read `lookup_name` returns. -/
theorem wp_lookupName_bare {parent : NodeId} {comp : List UInt8} {name : List Nat} (ht : t.Linked)
    (hname : exfatUtf8ToUtf16 comp (nameMax + 1) = .ok name) (hf : t.Finds parent name (some i))
    (hs : t.Solvent) (hn : t.Named) :
    wp (lookupName parent comp) (fun r t' => r = .ok i ∧ t.SameBare t' ∧
      ∀ j, t'.refs j = t.refs j + one i j) never t := by
  have hbare : wp (lookupName parent comp) (fun _ t' => t.SameBare t') never t := by
    obtain ⟨k, u, hk, hc, hu, -⟩ := hf
    obtain ⟨p, hp, rfl⟩ := Option.map_eq_some_iff.1 hk
    unfold lookupName
    rw [hname]
    dsimp only
    rw [wp_bind]
    unfold exfatOpendir
    rw [wp_bind]
    refine wp_mono (wp_and (wp_get_bare hp) (kin_exfatGetNode parent t)) ?_ (fun _ _ h => h.1)
    rintro _ t₁ ⟨⟨h₁, hrefs₁⟩, hkin₁⟩
    obtain ⟨p₁, hp₁, hbare₁⟩ := h₁.alive hp
    have hcached : p₁.isCached = true := by
      have hsame : p₁.bare.isCached = p.bare.isCached := by rw [hbare₁]
      exact hsame.trans hc
    rw [wp_bind]
    unfold exfatCacheDirectory
    rw [wp_bind]
    refine wp_of_ok (run_getNode hp₁) ?_
    rw [if_pos hcached, wp_pure]
    dsimp only
    rw [wp_pure]
    dsimp only
    rw [wp_bind]
    refine wp_of_ok (run_getNode hp₁) ?_
    -- the children of a directory are in memory
    have hchildren : ∀ i ∈ p₁.child, ∃ n, t₁.heap i = some n := by
      intro i hi
      obtain ⟨c, hc, -⟩ := (hkin₁.linked ht).down (Volume.kin_of_heap hp₁) hi
      obtain ⟨m, hm, -⟩ := Option.map_eq_some_iff.1 hc
      exact ⟨m, hm⟩
    have hs₁ : t₁.Solvent := by
      intro j
      rw [hrefs₁]
      exact Int.add_nonneg (hs j) (one_nonneg _ _)
    rw [wp_bind]
    refine wp_mono
      (wp_and (wp_lookupLoop_bare p₁.child hchildren hs₁ (h₁.named hn) (h₁.upcase u hu))
      (refs_lookupLoop name p₁.child t₁ (hkin₁.linked ht).toBounded)) ?_ (fun _ _ h => h.1)
    rintro o t₂ ⟨h₂, hrefs₂⟩
    have h₁₂ : t.SameBare t₂ := trans_of Volume.SameBare h₁ h₂
    obtain ⟨p₂, hp₂, -⟩ := h₁₂.alive hp
    -- the directory has the reference that `exfat_opendir` has taken
    have href : 1 ≤ t₂.refs parent := by
      have hone : one parent parent = 1 := if_pos rfl
      have hpos := hs parent
      cases o with
      | none => rw [hrefs₂.refs, hrefs₁, hone]; simp; omega
      | some j =>
        have := one_nonneg j parent
        rw [hrefs₂.refs, hrefs₁, hone]
        simp
        omega
    have hput : ∀ r : Except Errno NodeId, wp (do
        exfatPutNode parent
        pure r) (fun _ t' => t.SameBare t') never t₂ := by
      intro r
      rw [wp_bind]
      refine wp_conseq (wp_put_bare hp₂ href (h₁₂.named hn)) ?_
      rintro _ t₃ ⟨h₃, -⟩
      exact trans_of Volume.SameBare h₁₂ h₃
    cases o with
    | none => exact hput _
    | some j => exact hput _
  refine wp_mono (wp_and (wp_and hbare (wp_lookupName_finds ht hname hf))
    (refs_lookupName parent comp t ht.toBounded)) ?_ (fun _ _ h => h.1.1)
  rintro r t' ⟨⟨h, -, rfl⟩, hrefs⟩
  exact ⟨rfl, h, hrefs.refs⟩

/-- The way of a path that is known is followed to its end. -/
theorem wp_lookupPath_bare {dir : NodeId} {last : List UInt8} {name : List Nat}
    (hname : exfatUtf8ToUtf16 last (nameMax + 1) = .ok name) (fuel : Nat) {d : NodeId}
    {path : List UInt8} {t : Volume δ} (ht : t.Linked) (hw : t.Walks dir last fuel d path)
    {m : Nat} (hd : t.Depth d m) (hf : t.Finds dir name (some i)) (hs : t.Solvent) (hn : t.Named)
    (href : 1 ≤ t.refs d) : wp (lookupPath fuel d path) (fun r _ => r = .ok i) never t := by
  -- On the components.  Each directory on the way has the one reference that is passed along.
  induction fuel generalizing d path m t with
  | zero => exact hw.elim
  | succ fuel ih =>
    obtain ⟨hcomp, hw⟩ := hw
    unfold lookupPath
    dsimp only
    rw [if_neg hcomp]
    split at hw
    next hdot =>
      rw [if_pos hdot]
      exact ih ht hw hd hf hs hn href
    next hdot =>
      rw [if_neg hdot, wp_bind]
      -- what is left to do when the component has been looked up
      have hstep : ∀ {j : NodeId} {t₁ : Volume δ}, t.SameBare t₁ →
          (∀ x, t₁.refs x = t.refs x + one j x) →
          wp (exfatPutNode d) (fun _ t₂ => t.SameBare t₂ ∧ t₂.Solvent ∧
            1 ≤ t₂.refs j) never t₁ := by
        intro j t₁ h₁ hrefs₁
        obtain ⟨k, hk⟩ := hd.present ht
        obtain ⟨nd, hnd, -⟩ := Option.map_eq_some_iff.1 hk
        obtain ⟨nd₁, hnd₁, -⟩ := h₁.alive hnd
        have href₁ : 1 ≤ t₁.refs d := by
          have := one_nonneg j d
          rw [hrefs₁]
          omega
        refine wp_conseq (wp_put_bare hnd₁ href₁ (h₁.named hn)) ?_
        rintro _ t₂ ⟨h₂, hrefs₂⟩
        refine ⟨trans_of Volume.SameBare h₁ h₂, fun x => ?_, ?_⟩
        · rw [hrefs₂, hrefs₁]
          have hpos := hs x
          have hj := one_nonneg j x
          unfold one at hj ⊢
          by_cases hxd : x = d
          · subst hxd
            rw [if_pos rfl]
            omega
          · rw [if_neg hxd]
            omega
        · rw [hrefs₂, hrefs₁]
          have hpos := hs j
          unfold one
          rw [if_pos rfl]
          by_cases hjd : j = d
          · subst hjd
            rw [if_pos rfl]
            omega
          · rw [if_neg hjd]
            omega
      -- the last component: the loop ends with the node it leads to
      split at hw
      next hlast =>
        obtain ⟨rfl, rfl⟩ := hw
        refine wp_conseq (wp_lookupName_bare ht hname hf hs hn) ?_
        rintro _ t₁ ⟨rfl, h₁, hrefs₁⟩
        dsimp only
        rw [wp_bind]
        refine wp_conseq (hstep h₁ hrefs₁) fun _ t₂ _ => ?_
        cases fuel with
        | zero => exact rfl
        | succ fuel =>
          unfold lookupPath
          dsimp only
          rw [if_pos (show (getComp (getComp path).2).1.isEmpty = true from hlast)]
          exact rfl
      -- any other component: the loop goes on from the node it leads to
      next hlast =>
        obtain ⟨name', j, hutf, hf', hrest⟩ := hw
        refine wp_conseq (wp_lookupName_bare ht hutf hf' hs hn) ?_
        rintro _ t₁ ⟨rfl, h₁, hrefs₁⟩
        dsimp only
        rw [wp_bind]
        refine wp_conseq (hstep h₁ hrefs₁) ?_
        rintro _ t₂ ⟨h₂, hs₂, href₂⟩
        have hread : t.Read t₂ := TreeRel.kin h₂.sameKin
        have hj := hf'.depth ht hd
        exact ih (h₂.sameKin.linked ht) (hrest.read ht hread hj) (hread.toGrown.depth hj)
          (hf.read ht hread) hs₂ (h₂.named hn) href₂

/-- `exfat_lookup` with the directory `d` in the place of the root. -/
def lookupFrom (d : NodeId) (path : List UInt8) : TreeM δ (Except Errno NodeId) := do
  exfatGetNode d
  lookupPath path.length d path

/-- A path that is walked along is found. -/
theorem wp_lookupFrom_bare {dir d : NodeId} {last path : List UInt8} {name : List Nat} {m : Nat}
    (hname : exfatUtf8ToUtf16 last (nameMax + 1) = .ok name) (ht : t.Linked)
    (hw : t.Walks dir last path.length d path) (hd : t.Depth d m) (hf : t.Finds dir name (some i))
    (hs : t.Solvent) (hn : t.Named) : wp (lookupFrom d path) (fun r _ => r = .ok i) never t := by
  obtain ⟨k, hk⟩ := hd.present ht
  obtain ⟨n, hn', -⟩ := Option.map_eq_some_iff.1 hk
  unfold lookupFrom
  rw [wp_bind]
  refine wp_conseq (wp_get_bare hn') ?_
  rintro _ t₁ ⟨h₁, hrefs₁⟩
  have hread : t.Read t₁ := TreeRel.kin h₁.sameKin
  refine wp_lookupPath_bare hname path.length (h₁.sameKin.linked ht) (hw.read ht hread hd)
    (hread.toGrown.depth hd) (hf.read ht hread) (fun j => ?_) (h₁.named hn) ?_
  · rw [hrefs₁]
    exact Int.add_nonneg (hs j) (one_nonneg _ _)
  · have hpos := hs d
    rw [hrefs₁, one, if_pos rfl]
    omega

end Completes

/-! ### What the calls promise -/

/-- In every volume that calls have led to, the names in a directory are different ones; and when
`exfat_mknod` or `exfat_mkdir` has succeeded, what `exfat_lookup` returns for the path is the node
that has been made, and it does return if the names of the nodes still to be written back can be
shown.  The node is the one that `commit_entry` has allocated, the last allocation of the call. -/
theorem Volume.Reached.found_after_making {t₀ t : Volume δ} (ht₀ : t₀.Vacant)
    (h : t₀.Reached True H t) :
    t.Distinct ∧ ∀ path t',
      exfatMknod path t = .ok (.ok ()) t' ∨ exfatMkdir path t = .ok (.ok ()) t' →
      ∃ i, t.heap i = none ∧ t'.heap i ≠ none ∧ t'.fresh = i + 1 ∧
        (∀ r t'', exfatLookup path t' = .ok r t'' → r = .ok i) ∧
        (t'.Named → ∃ t'', exfatLookup path t' = .ok (.ok i) t'') := by
  have hsound := h.sound ht₀
  have ht := hsound.linked
  refine ⟨hsound.distinct trivial, fun path t' hrun => ?_⟩
  -- `mknod` and `mkdir` make a node in the same way
  have hmakes : t.Makes path (.ok ()) t' := hrun.elim
    (fun hrun => wp_anyStop_iff.1 (wp_exfatMknod path ht) _ _ hrun)
    (fun hrun => wp_anyStop_iff.1 (wp_exfatMkdir path ht) _ _ hrun)
  have hcounted : t.Counted 0 t' := hrun.elim
    (fun hrun => wp_anyStop_iff.1 (refs_create path _ t ht.toBounded) _ _ hrun)
    (fun hrun => wp_anyStop_iff.1 (refs_exfatMkdir path t ht.toBounded) _ _ hrun)
  have hs' : t'.Solvent := hcounted.solvent (h.solvent ht₀) fun _ => le_rfl
  obtain ⟨dir, last, name, i, -, hi, hlast, hw, hname, hfinds, -⟩ := hmakes.found rfl
  -- which directories may be read later does not matter here
  have hsound' : t'.Sound False ∅ := hmakes.sound
    ⟨⟨ht, hsound.rooted, False.elim, fun hx => hx.elim, fun hx => hx.elim, hsound.nameless⟩,
      False.elim⟩
  have ht' := hsound'.linked
  have hroot' : t'.Depth t'.root 0 := .root
  -- the last identifier, in memory, and found: as long as the lookup returns
  refine ⟨i, ht.toBounded i hi, fun hnone => ?_, hlast, fun r t'' hlookup => ?_, fun hn => ?_⟩
  · obtain ⟨k, u, hk, -, -, hfind⟩ := hfinds
    obtain ⟨c, hc, -⟩ := ht'.down hk (List.mem_of_find?_eq_some hfind.symm)
    obtain ⟨n, hn, -⟩ := Option.map_eq_some_iff.1 hc
    cases hnone.symm.trans hn
  · have hlookup' := wp_exfatLookup_walks hname ht' hw hfinds
    exact (wp_anyStop_iff.1 hlookup' _ _ hlookup).2
  -- it returns: nothing on the way has to be read, and no reference is missing
  · have hlookup : wp (exfatLookup path) (fun r _ => r = .ok i) never t' :=
      wp_lookupFrom_bare hname ht' hw hroot' hfinds hs' hn
    obtain ⟨r, t'', hrun, rfl⟩ := wp_never_iff.1 hlookup
    exact ⟨t'', hrun⟩

/-! ### A card on which names are found -/

/-- A table that was not there before is decompressed from `n` units. -/
def Ef.Cased (n : Nat) (ef ef' : Ef δ) : Prop :=
  ∀ u, ef'.upcase = some u → ef.upcase = some u ∨ ∃ source, source.length = n ∧
    u = decompressUpcase source

instance (n : Nat) : IsPreorder (Ef δ) (Ef.Cased n) where
  refl _ _ hu := .inl hu
  trans _ _ _ h h' u hu := (h' u hu).elim (h u) .inr

omit [Device δ] in
/-- The upcase table is as it was. -/
theorem Ef.Cased.of_same {n : Nat} {ef ef' : Ef δ} (h : ef'.upcase = ef.upcase) : ef.Cased n ef' :=
  fun _ hu => .inl (h ▸ hu)

omit [Device δ] in
/-- The upcase table is as it was. -/
theorem Ef.Skimmed.cased {n : Nat} {ef ef' : Ef δ} (h : ef.Skimmed ef') : ef.Cased n ef' :=
  .of_same h.upcase

/-- The upcase table that is read is decompressed from the entry. -/
theorem cased_readUpcase (entry : Entry) :
    Keeps (Ef.Cased (entry.size / 2)) (readUpcase (δ := δ) entry) := by
  have hskim : ∀ {α : Type} {m : EfM δ α}, Keeps Ef.Skimmed m →
      Keeps (Ef.Cased (entry.size / 2)) m :=
    fun hm ef => wp_mono (hm ef) (fun _ _ h => h.cased) (fun _ _ h => h.cased)
  refine keeps_look fun ef => ?_
  split
  · exact keeps_pure _
  split
  · exact hskim (skims_report _ _)
  split
  · exact hskim (skims_report _ _)
  refine keeps_bind (hskim skims_mallocOk) fun ok => ?_
  split
  · exact hskim (skims_report _ _)
  refine keeps_bind (keeps_look fun _ => keeps_ite (keeps_throw _) (keeps_pure _)) fun offset => ?_
  refine keeps_bind (hskim (skims_exfatPread _ _)) fun bytes => ?_
  cases bytes with
  | none => exact hskim (skims_report _ _)
  | some bytes =>
    refine keeps_bind (hskim skims_mallocOk) fun ok => ?_
    split
    · exact hskim (skims_report _ _)
    refine keeps_bind (keeps_modify fun ef u hu => .inr ⟨_, ?_, (Option.some.inj hu).symm⟩) fun _ =>
      keeps_pure _
    rw [List.length_map, List.length_range]

/-- `read_bitmap` leaves the upcase table alone. -/
theorem cased_readBitmap (n : Nat) (entry : Entry) :
    Keeps (Ef.Cased n) (readBitmap (δ := δ) entry) := by
  have hskim : ∀ {α : Type} {m : EfM δ α}, Keeps Ef.Skimmed m → Keeps (Ef.Cased n) m :=
    fun hm ef => wp_mono (hm ef) (fun _ _ h => h.cased) (fun _ _ h => h.cased)
  have hmodify : ∀ {f : Ef δ → Ef δ}, (∀ ef, (f ef).upcase = ef.upcase) →
      Keeps (Ef.Cased n) (modify f : EfM δ PUnit) := fun h => keeps_modify fun ef => .of_same (h ef)
  refine keeps_bind (hmodify fun _ => rfl) fun _ => keeps_look fun ef => ?_
  refine keeps_ite (hskim (skims_report _ _)) (keeps_bind (hmodify fun _ => rfl) fun _ => ?_)
  refine keeps_ite (hskim (skims_report _ _)) (keeps_bind (hmodify fun _ => rfl) fun _ => ?_)
  refine keeps_bind (hskim skims_mallocOk) fun ok => keeps_ite ?_ ?_
  · exact keeps_bind (hmodify fun _ => rfl) fun _ => hskim (skims_report _ _)
  refine keeps_bind (hmodify fun _ => rfl) fun _ => ?_
  refine keeps_bind (keeps_look fun _ => keeps_ite (keeps_throw _) (keeps_pure _)) fun offset => ?_
  refine keeps_bind (hskim (skims_exfatPread _ _)) fun bytes => ?_
  cases bytes with
  | none => exact hskim (skims_report _ _)
  | some bytes => exact keeps_bind (hmodify fun _ => rfl) fun _ => keeps_pure _

omit [Device δ] in
/-- `read_label` leaves the upcase table alone. -/
theorem cased_readLabel (n : Nat) (entry : Entry) :
    Keeps (Ef.Cased n) (readLabel (δ := δ) entry) := by
  have hreport : Keeps (Ef.Cased n) (do
      exfatError (δ := δ) "too long label"
      pure (.error .eio : Rc)) := fun _ => .of_same rfl
  refine keeps_ite hreport ?_
  cases exfatUtf16ToUtf8 entry.units utf8EnameBufferMax with
  | error e => exact keeps_bind (keeps_modify fun ef => .of_same rfl) fun _ => keeps_pure _
  | ok label => exact keeps_bind (keeps_modify fun ef => .of_same rfl) fun _ => keeps_pure _

/-- The table of `n` units is the only one an entry may bring. -/
theorem Entry.preserves_cased {n : Nat} {e : Entry} (h : e.type = entryUpcase → e.size / 2 = n) :
    e.Preserves (Ef.Cased (δ := δ) n) :=
  ⟨fun htype => h htype ▸ cased_readUpcase e, fun _ => cased_readBitmap n e,
    fun _ => cased_readLabel n e⟩

/-- A table of one unit leaves all characters but the first alone. -/
theorem folds_decompressUpcase {ch : Nat} (h : decompressUpcase [ch] 0 = 0) :
    Folds (decompressUpcase [ch]) := by
  intro c hc
  by_contra hne
  have hself : decompressUpcase [ch] c = c := by
    show Function.update id 0 ch c = c
    rw [Function.update_of_ne hne]
    rfl
  rw [hself, h] at hc
  exact hne hc

/-- If the entry is that of a table, the table has `n` units. -/
def Entry.hasUnits (n : Nat) (e : Entry) : Bool := e.type ≠ entryUpcase ∨ e.size / 2 = n

/-- The table has `n` units if those that the root directory lists have. -/
theorem mountRoot_cased {t t' : Volume δ} {n fuel size : Nat} {s : FileState δ}
    (hsize : rootdirSize ⟨t.ef, rootdirNode t.ef.sb⟩ = .ok size s)
    (hscan : allMet (Entry.hasUnits n) fuel 0 (s.ofSize size) = true)
    (hrun : mountRoot t = .ok (.ok ()) t') : t.ef.Cased n t'.ef := by
  refine (wp_anyStop_iff.1 (wp_mountRoot_of (R := Ef.Cased n) Ef.Skimmed.cased ?_) _ _ hrun rfl).1
  intro size' s' hsize' e he
  rw [hsize] at hsize'
  obtain ⟨rfl, rfl⟩ := EStateM.Result.ok.inj hsize'
  have hunits := of_decide_eq_true (of_allMet hscan he)
  exact Entry.preserves_cased fun htype => hunits.resolve_left fun hne => hne htype

/-- The directories in memory list different names under the table. -/
def Volume.listsDistinct (t : Volume δ) (u : Nat → Nat) : Prop :=
  ∀ d ∈ List.range t.fresh, ∀ n ∈ t.heap d, ∀ x ∈ n.child, ∀ y ∈ n.child,
    ∀ a ∈ t.heap x, ∀ b ∈ t.heap y,
    compareName u a.name b.name = true → x = y

instance (t : Volume δ) (u : Nat → Nat) : Decidable (t.listsDistinct u) := by
  unfold Volume.listsDistinct
  infer_instance

/-- A volume with a table of one unit and different names in the root directory. -/
theorem distinct_of_mountRoot {t t' : Volume δ} {fuel size : Nat} {s : FileState δ}
    (hnone : t.ef.upcase = none) (hsize : rootdirSize ⟨t.ef, rootdirNode t.ef.sb⟩ = .ok size s)
    (hscan : allMet (Entry.hasUnits 1) fuel 0 (s.ofSize size) = true)
    (hrun : mountRoot t = .ok (.ok ()) t') (hbounded : t'.Bounded)
    (htest : (t'.ef.upcase.any fun u => u 0 = 0 ∧ t'.listsDistinct u) = true) : t'.Distinct := by
  obtain ⟨u, hu, htest⟩ := (Option.any_eq_true ..).1 htest
  obtain ⟨hzero, hlists⟩ := of_decide_eq_true htest
  refine ⟨u, hu, ?_, fun d m hm x hx y hy k k' hk hk' => ?_⟩
  · obtain hsome | ⟨source, hlength, rfl⟩ := mountRoot_cased hsize hscan hrun u hu
    · cases hnone.symm.trans hsome
    obtain ⟨ch, rfl⟩ := List.length_eq_one_iff.1 hlength
    exact folds_decompressUpcase hzero
  · obtain ⟨n, hn, rfl⟩ := Option.map_eq_some_iff.1 hm
    obtain ⟨a, ha, rfl⟩ := Option.map_eq_some_iff.1 hk
    obtain ⟨b, hb, rfl⟩ := Option.map_eq_some_iff.1 hk'
    have hlt : d < t'.fresh := by
      by_contra hge
      cases hn.symm.trans (hbounded d (Nat.le_of_not_lt hge))
    exact hlists d (List.mem_range.2 hlt) n hn x hx y hy a ha b hb

/-- The directories in memory have been read. -/
def Volume.allCached (t : Volume δ) : Bool :=
  (List.range t.fresh).all fun x => (t.heap x).all fun n => !n.isDir || n.isCached

/-- A volume whose directories have all been read lists what it lists. -/
theorem Volume.lists_of_allCached {t : Volume δ} (hbounded : t.Bounded)
    (htest : t.allCached = true) : t.Lists := by
  refine Volume.lists_of_cached fun x k hk hisDir => ?_
  obtain ⟨n, hn, rfl⟩ := Option.map_eq_some_iff.1 hk
  have hlt : x < t.fresh := by
    by_contra hge
    cases hn.symm.trans (hbounded x (Nat.le_of_not_lt hge))
  have hnode := List.all_eq_true.1 htest x (List.mem_range.2 hlt)
  rw [hn, Option.all_some] at hnode
  have hdir : n.isDir = true := hisDir
  rw [hdir, Bool.not_true, Bool.false_or] at hnode
  exact hnode

/-- A file `"y"` and a directory `"d"` are made on the card; then a file is made in the directory
and found. -/
theorem names_card : ∃ H t t' t'' i, cardVolume.Reached True H t ∧ t.Distinct ∧
    (t.heap t.root).any (fun n => n.child.length = 2) = true ∧
    exfatMknod [0x2f, 0x64, 0x2f, 0x78] t = .ok (.ok ()) t' ∧
    exfatLookup [0x2f, 0x64, 0x2f, 0x78] t' = .ok (.ok i) t'' ∧ t.heap i = none := by
  -- the scan meets no special entry that the mount has not seen
  have hscan : returns (fun size s => allMet (Entry.hasUnits 1) 17 0 (s.ofSize size))
      (rootdirSize ⟨cardVolumeBooted.ef, rootdirNode cardVolumeBooted.ef.sb⟩) = true := by
    decide +kernel
  have htest : returns (fun rc t => rc = .ok () ∧
      (t.ef.upcase.any fun u => u 0 = 0 ∧ t.listsDistinct u) ∧ t.allCached = true ∧
      returns (fun _ t₁ => t₁.allCached = true ∧
        returns (fun _ t₂ => (t₂.heap t₂.root).any (fun n => n.child.length = 2) ∧
          returns (fun rc t' => rc = .ok () ∧
            returns (fun _ _ => true) (exfatLookup [0x2f, 0x64, 0x2f, 0x78] t'))
            (exfatMknod [0x2f, 0x64, 0x2f, 0x78] t₂))
          ((TreeOp.mkdir [0x2f, 0x64]).run t₁))
        ((TreeOp.mknod [0x2f, 0x79]).run t))
      (mountRoot cardVolumeBooted) = true := by
    decide +kernel
  obtain ⟨size, s, hsize, hscan⟩ := of_returns hscan
  obtain ⟨rc, t, hroot, htest⟩ := of_returns htest
  obtain ⟨rfl, hlists, hcached, hmknod⟩ := of_decide_eq_true htest
  obtain ⟨o₁, t₁, hmknod, htest⟩ := of_returns hmknod
  obtain ⟨hcached₁, hmkdir⟩ := of_decide_eq_true htest
  obtain ⟨o₂, t₂, hmkdir, htest⟩ := of_returns hmkdir
  obtain ⟨htwo, hmknod'⟩ := of_decide_eq_true htest
  obtain ⟨rc, t', hmknod', htest⟩ := of_returns hmknod'
  obtain ⟨rfl, hlookup⟩ := of_decide_eq_true htest
  obtain ⟨r, t'', hlookup, -⟩ := of_returns hlookup
  have hmount : exfatMount cardVolume = .ok (.ok ()) t :=
    (run_exfatMount (fun _ => rfl) bootable_cardStore).trans hroot
  obtain ⟨hbounded, -⟩ := wp_anyStop_iff.1 (exfatMount_upcase fun _ => rfl) _ _ hmount rfl
  have hreached : cardVolume.Reached True {t.root} t :=
    .mount hmount fun _ => distinct_of_mountRoot rfl hsize hscan hroot hbounded hlists
  have hreached₁ : cardVolume.Reached True ({t.root} ∪ {i | o₁ = some i}) t₁ :=
    .call hreached (fun _ => Volume.lists_of_allCached hbounded hcached)
      (by simp [TreeOp.target]) hmknod
  have hbounded₁ : t₁.Bounded := (hreached₁.sound fun _ => rfl).linked.toBounded
  have hreached₂ : cardVolume.Reached True ({t.root} ∪ {i | o₁ = some i} ∪ {i | o₂ = some i}) t₂ :=
    .call hreached₁ (fun _ => Volume.lists_of_allCached hbounded₁ hcached₁)
      (by simp [TreeOp.target]) hmkdir
  obtain ⟨hdistinct, hmade⟩ := Volume.Reached.found_after_making (fun _ => rfl) hreached₂
  obtain ⟨i, hi, -, -, hfound, -⟩ := hmade _ _ (.inl hmknod')
  have hr := hfound _ _ hlookup
  subst hr
  exact ⟨_, t₂, t', t'', i, hreached₂, hdistinct, htwo, hmknod', hlookup, hi⟩

/-! ### Directories that share a cluster -/

/-- The boot sector of a volume of five clusters. -/
def crossBoot : SuperBlock := cardBoot.setFields [(0x5c, 4, 5)]

/-- The card with an empty directory `"D"` in cluster 6, and a directory `"E"` in the clusters 5 and
6, the first of which holds a file `"x"`. -/
def crossStore : Store := fun a =>
  if a < 512 then crossBoot.bytes.getD a 0
  else if a = 6656 then 31
  else if 7744 ≤ a ∧ a < 7936 then
    (objectSet 0x44 attribDir 6 512 ++ objectSet 0x45 attribDir 5 1024).flatten.getD (a - 7744) 0
  else if 8192 ≤ a ∧ a < 8288 then (objectSet 0x78 attribArch 0 0).flatten.getD (a - 8192) 0
  else cardStore a

/-- The volume can be booted from when its checksum is stored. -/
theorem bootable_crossStore : Bootable (withChecksum crossStore) (2 ^ 20) :=
  bootable_withChecksum (by decide +kernel) (by decide +kernel) (by decide +kernel)

/-- A volume that is about to be mounted from the card. -/
def crossStart : Volume Flat where
  ef := { dev := ⟨withChecksum crossStore, 2 ^ 20⟩, sb := ⟨[]⟩ }
  heap _ := none
  root := 0
  fresh := 0

/-- The volume when the boot region has been read. -/
def crossBooted : Volume Flat :=
  { crossStart with
    ef := { crossStart.ef with sb := bootSector (withChecksum crossStore), ticks := 3 } }

omit [Device δ] in
/-- Two children of one name. -/
theorem Volume.not_distinct {t : Volume δ} {d x y : NodeId} {n a b : Node} (hn : t.heap d = some n)
    (hx : x ∈ n.child) (hy : y ∈ n.child) (ha : t.heap x = some a) (hb : t.heap y = some b)
    (hname : a.name = b.name) (hne : x ≠ y) : ¬ t.Distinct := by
  rintro ⟨u, -, hfolds, hall⟩
  refine hne (hall d n.kin (kin_of_heap hn) x hx y hy a.kin b.kin (kin_of_heap ha)
    (kin_of_heap hb) ?_)
  exact (compareName_iff hfolds a.name b.name).2 (congrArg _ hname)

/-- No directory of the volume has two children of one name, and then a file is made in one of the
two. -/
theorem not_distinct_cross : ∃ t d e t' t'' r, crossStart.Vacant ∧
    exfatMount crossStart = .ok (.ok ()) t ∧ t.Distinct ∧ t.fresh = 3 ∧
    exfatCacheDirectory 1 t = .ok (.ok ()) d ∧ (d.heap 1).any (fun n => n.child.length = 0) = true ∧
    exfatCacheDirectory 2 t = .ok (.ok ()) e ∧ (e.heap 2).any (fun n => n.child.length = 1) = true ∧
    exfatMknod [0x2f, 0x44, 0x2f, 0x78] t = .ok (.ok ()) t' ∧
    exfatMknod [0x2f, 0x45, 0x2f, 0x78] t' = .ok r t'' ∧ ¬ t''.Distinct := by
  have hscan : returns (fun size s => allMet (Entry.hasUnits 1) 17 0 (s.ofSize size))
      (rootdirSize ⟨crossBooted.ef, rootdirNode crossBooted.ef.sb⟩) = true := by
    decide +kernel
  have htest : returns (fun rc t => rc = .ok () ∧
      (t.ef.upcase.any fun u => u 0 = 0 ∧ t.listsDistinct u) ∧ t.fresh = 3 ∧
      returns (fun rc d => rc = .ok () ∧ (d.heap 1).any fun n => n.child.length = 0)
        (exfatCacheDirectory 1 t) ∧
      returns (fun rc e => rc = .ok () ∧ (e.heap 2).any fun n => n.child.length = 1)
        (exfatCacheDirectory 2 t) ∧
      returns (fun rc t' => rc = .ok () ∧
        returns (fun _ t'' => (t''.heap 2).any fun n => n.child = [4, 5] ∧
          (t''.heap 4).any fun a => (t''.heap 5).any fun b => a.name = b.name)
          (exfatMknod [0x2f, 0x45, 0x2f, 0x78] t'))
        (exfatMknod [0x2f, 0x44, 0x2f, 0x78] t))
      (mountRoot crossBooted) = true := by
    decide +kernel
  obtain ⟨size, s, hsize, hscan⟩ := of_returns hscan
  obtain ⟨rc, t, hroot, htest⟩ := of_returns htest
  obtain ⟨rfl, hlists, hfresh, hempty, hone, hmknod⟩ := of_decide_eq_true htest
  obtain ⟨rc, d, hempty, htest⟩ := of_returns hempty
  obtain ⟨rfl, hd⟩ := of_decide_eq_true htest
  obtain ⟨rc, e, hone, htest⟩ := of_returns hone
  obtain ⟨rfl, he⟩ := of_decide_eq_true htest
  obtain ⟨rc, t', hmknod, htest⟩ := of_returns hmknod
  obtain ⟨rfl, hmknod'⟩ := of_decide_eq_true htest
  obtain ⟨r, t'', hmknod', htest⟩ := of_returns hmknod'
  obtain ⟨n, hn, htest⟩ := (Option.any_eq_true ..).1 htest
  obtain ⟨hchild, htest⟩ := of_decide_eq_true htest
  obtain ⟨a, ha, htest⟩ := (Option.any_eq_true ..).1 htest
  obtain ⟨b, hb, hname⟩ := (Option.any_eq_true ..).1 htest
  have hmount : exfatMount crossStart = .ok (.ok ()) t :=
    (run_exfatMount (fun _ => rfl) bootable_crossStore).trans hroot
  obtain ⟨hbounded, -⟩ := wp_anyStop_iff.1 (exfatMount_upcase fun _ => rfl) _ _ hmount rfl
  have hdistinct : t.Distinct := distinct_of_mountRoot rfl hsize hscan hroot hbounded hlists
  refine ⟨t, d, e, t', t'', r, fun _ => rfl, hmount, hdistinct, hfresh, hempty,
    hd, hone, he, hmknod,
    hmknod', ?_⟩
  refine Volume.not_distinct hn (x := 4) (y := 5) ?_ ?_ ha hb (of_decide_eq_true hname) (by decide)
  · rw [hchild]
    exact List.mem_cons_self
  · rw [hchild]
    exact List.mem_cons_of_mem _ List.mem_cons_self

end ExFat
