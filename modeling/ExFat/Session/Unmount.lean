import ExFat.Fs.MountVolume
import ExFat.Session.WriteBack

namespace ExFat

open Program Bytes

/-!
# Unmounting

`exfat_unmount` writes everything back, ignores how that went, drops the nodes and finalizes the
superblock.  Dropping them is where it can end early: `reset_cache` takes a node that is still dirty
for a bug of the program.
-/

variable {δ : Type}

/-! ### Dropping one node -/

/-- The name of a node can be written into a message. -/
def Node.Printable (n : Node) : Prop := ∃ name, nameUtf8 n.name = .ok name

/-- A name that can be converted is returned. -/
theorem run_exfatGetName {n : Node} {name : List UInt8} (h : nameUtf8 n.name = .ok name)
    (ef : Ef δ) : exfatGetName n ef = .ok name ef := by
  unfold exfatGetName
  rw [h]
  rfl

/-- A name that cannot be converted stops the program. -/
theorem exfatGetName_stops {n : Node} (h : ¬ n.Printable) (ef : Ef δ) :
    exfatGetName n ef = .error (.bug "failed to convert name to UTF-8") ef := by
  unfold exfatGetName
  cases hname : nameUtf8 n.name with
  | ok name => exact absurd ⟨name, hname⟩ h
  | error e => rfl

section Run

variable {t : Volume δ} {i : NodeId} {n : Node}

/-- Dropping a reference that is there, of a node that is not dirty. -/
theorem run_exfatPutNode (hi : t.heap i = some n) (hr : 1 ≤ n.references)
    (hd : i ≠ t.root → n.isDirty = false) :
    exfatPutNode i t = .ok ⟨⟩ (t.store i ⟨t.ef, { n with references := n.references - 1 }⟩) := by
  unfold exfatPutNode
  rw [run_bind_ok (run_updateNode hi _), run_bind_ok (run_getNode (store_heap_self t i _)),
    run_bind_ok (run_get _), if_neg (by simp only; omega), if_neg]
  · rfl
  · rintro ⟨-, hne, hdirty⟩
    rw [hd hne] at hdirty
    cases hdirty

/-- The references of a clean node are given back. -/
theorem run_putLoop (k : Nat) (hi : t.heap i = some n) (hr : n.references = k)
    (hd : i ≠ t.root → n.isDirty = false) :
    putLoop i k t = .ok ⟨⟩ (t.store i ⟨t.ef, { n with references := 0 }⟩) := by
  induction k generalizing t n with
  | zero =>
    have hn : { n with references := 0 } = n := by
      rw [← show n.references = 0 from hr]
    rw [hn]
    show EStateM.Result.ok PUnit.unit t = _
    congr 1
    unfold Volume.store
    rw [← hi, Function.update_eq_self]
  | succ k ih =>
    show (exfatPutNode i >>= _) t = _
    rw [run_bind_ok (run_exfatPutNode hi (by omega) hd)]
    have := ih (t := t.store i ⟨t.ef, { n with references := n.references - 1 }⟩)
      (store_heap_self t i _) (by simp only; omega) hd
    rw [this, store_store]
    rfl

/-- `reset_cache` can drop the node: nothing of it would be lost, and a message about its references
can be written. -/
def Droppable (t : Volume δ) (i : NodeId) (n : Node) : Prop :=
  0 ≤ n.references ∧ (n.references ≠ 0 → n.Printable) ∧ (i ≠ t.root → n.isDirty = false)

/-- A node without references, or with a name that can be printed, is warned about. -/
theorem run_warnReferences (h : n.references ≠ 0 → n.Printable) (ef : Ef δ) :
    warnReferences n ef = .ok ⟨⟩ ef := by
  unfold warnReferences
  by_cases h0 : n.references = 0
  · rw [if_neg (by simpa using h0)]
    rfl
  · obtain ⟨name, hname⟩ := h h0
    rw [if_pos h0, run_bind_ok (run_exfatGetName hname ef)]
    rfl

/-- The references of a node that can be dropped are given back. -/
theorem run_dropReferences (hi : t.heap i = some n) (h : Droppable t i n) :
    dropReferences i t = .ok ⟨⟩ (t.store i ⟨t.ef, { n with references := 0 }⟩) := by
  obtain ⟨hr, hname, hd⟩ := h
  unfold dropReferences
  rw [run_bind_ok (run_getNode hi), run_bind_ok (run_get t),
    run_bind_ok (run_onVolume_ok (run_warnReferences hname t.ef)), if_neg, if_neg (by omega)]
  · exact run_putLoop n.references.toNat hi (by omega) hd
  · rintro ⟨hne, hdirty⟩
    rw [hd hne] at hdirty
    cases hdirty

omit t in
/-- A message that names the node, and then the end: in one way or another the run stops. -/
theorem name_then_bug (n : Node) (message : String) (t : Volume δ) :
    ∃ e t', (do let _ ← onVolume (exfatGetName n); exfatBug message : TreeM δ PUnit) t =
      .error e t' := by
  rw [run_bind]
  cases onVolume (exfatGetName n) t with
  | ok name t' => exact ⟨_, _, rfl⟩
  | error e t' => exact ⟨_, _, rfl⟩

/-- Giving back a reference that is not there stops the program. -/
theorem exfatPutNode_stops (hi : t.heap i = some n) (hr : n.references < 0) :
    ∃ e t', exfatPutNode i t = .error e t' := by
  unfold exfatPutNode
  rw [run_bind_ok (run_updateNode hi _), run_bind_ok (run_getNode (store_heap_self t i _)),
    run_bind_ok (run_get _), if_pos (by simp only; omega)]
  exact name_then_bug _ _ _

/-- A node that cannot be dropped stops the program. -/
theorem dropReferences_stops (hi : t.heap i = some n) (h : ¬ Droppable t i n) :
    ∃ e t', dropReferences i t = .error e t' := by
  unfold dropReferences
  rw [run_bind_ok (run_getNode hi), run_bind_ok (run_get t)]
  by_cases hname : n.references ≠ 0 → n.Printable
  · rw [run_bind_ok (run_onVolume_ok (run_warnReferences hname t.ef))]
    by_cases hd : i ≠ t.root ∧ n.isDirty = true
    · rw [if_pos hd]
      exact name_then_bug _ _ _
    · have hneg : n.references < 0 := by
        by_contra hge
        refine h ⟨by omega, hname, fun hne => ?_⟩
        cases hdirty : n.isDirty with
        | false => rfl
        | true => exact absurd ⟨hne, hdirty⟩ hd
      rw [if_neg hd, if_pos hneg]
      exact exfatPutNode_stops hi hneg
  · obtain ⟨h0, hno⟩ := Classical.not_imp.mp hname
    have hwarn : warnReferences n t.ef = .error (.bug "failed to convert name to UTF-8") t.ef := by
      unfold warnReferences
      rw [if_pos h0]
      exact run_bind_error (exfatGetName_stops hno t.ef)
    exact ⟨_, _, run_bind_error (run_onVolume_error hwarn)⟩

/-- A node that can be dropped is reset. -/
theorem run_resetNode (hi : t.heap i = some n) (h : Droppable t i n) :
    resetNode i t =
      .ok ⟨⟩ (t.store i ⟨t.ef, { n with isCached := false, references := 0 }⟩) := by
  unfold resetNode
  have hdrop := run_dropReferences (t := t.store i ⟨t.ef, { n with isCached := false }⟩)
    (store_heap_self t i _) h
  rw [store_store] at hdrop
  rw [run_bind_ok (run_updateNode hi _)]
  exact hdrop

/-- A node that cannot be dropped stops the program. -/
theorem resetNode_stops (hi : t.heap i = some n) (h : ¬ Droppable t i n) :
    ∃ e t', resetNode i t = .error e t' := by
  unfold resetNode
  rw [run_bind_ok (run_updateNode hi _)]
  exact dropReferences_stops (store_heap_self t i _) (n := { n with isCached := false }) h

end Run

/-! ### Dropping the tree -/

/-- All the nodes of a list can be dropped. -/
def AllDroppable (t : Volume δ) (l : List NodeId) : Prop :=
  ∀ i ∈ l, ∃ n, t.heap i = some n ∧ Droppable t i n

/-- What `reset_cache` leaves of the node it was called for, and of everything else. -/
structure Dropped (t : Volume δ) (i : NodeId) (n : Node) (below : List NodeId) (t' : Volume δ) :
    Prop where
  ef : t'.ef = t.ef
  root : t'.root = t.root
  self : t'.heap i = some { n with child := [], first := none, isCached := false, references := 0 }
  rest : ∀ j, j ≠ i → j ∉ below → t'.heap j = t.heap j

/-- A node with links is in memory. -/
theorem node_of_link {t : Volume δ} {i : NodeId} {p : Option NodeId} {below : List NodeId}
    (h : t.link i = some (p, below)) :
    ∃ n, t.heap i = some n ∧ n.parent = p ∧ n.child = below := by
  unfold Volume.link at h
  cases hi : t.heap i with
  | none =>
    rw [hi] at h
    cases h
  | some n =>
    rw [hi] at h
    cases h
    exact ⟨n, rfl, rfl, rfl⟩

/-- The pointers of a node in memory. -/
theorem pointers_of_heap {t : Volume δ} {i : NodeId} {first next prev : Option NodeId} {n : Node}
    (h : t.pointers i = some (first, next, prev)) (hi : t.heap i = some n) :
    n.first = first ∧ n.next = next ∧ n.prev = prev := by
  unfold Volume.pointers at h
  rw [hi] at h
  cases h
  exact ⟨rfl, rfl, rfl⟩

/-- Nothing is before the first child, and what is behind it becomes the first one. -/
theorem run_bridgeBehind {t : Volume δ} {next : Option NodeId}
    (hnext : ∀ q, next = some q → ∃ nq, t.heap q = some nq) :
    ∃ t', bridgeBehind none next t = .ok ⟨⟩ t' ∧ t'.ef = t.ef ∧ t'.root = t.root ∧
      (∀ j, next ≠ some j → t'.heap j = t.heap j) ∧
      ∀ q nq, next = some q → t.heap q = some nq → t'.heap q = some { nq with prev := none } := by
  cases next with
  | none => exact ⟨t, rfl, rfl, rfl, fun _ _ => rfl, fun _ _ h => by cases h⟩
  | some q =>
    obtain ⟨nq, hq⟩ := hnext q rfl
    refine ⟨_, run_updateNode hq _, rfl, rfl, fun j hj => store_heap_of_ne _ fun he =>
      hj (he ▸ rfl), ?_⟩
    intro q' nq' hq' hnq'
    cases hq'
    cases hq.symm.trans hnq'
    exact store_heap_self _ _ _

/-- The volume once `reset_cache` has taken its first child `p` from `i` and freed it. -/
theorem run_detach_free {t : Volume δ} {i p : NodeId} {n np : Node} {rest : List NodeId}
    (hi : t.heap i = some n) (hp : t.heap p = some np) (hparent : np.parent = some i)
    (hchild : n.child = p :: rest) (hnext : np.next = rest.head?) (hprev : np.prev = none)
    (hne : p ≠ i) (hq : ∀ q, rest.head? = some q → q ≠ i ∧ q ≠ p ∧ ∃ nq, t.heap q = some nq) :
    ∃ t', (do treeDetach p; freeNode p : TreeM δ PUnit) t = .ok ⟨⟩ t' ∧ t'.ef = t.ef ∧
      t'.root = t.root ∧ t'.heap i = some { n with child := rest, first := rest.head? } ∧
      (∀ j, j ≠ i → j ≠ p → rest.head? ≠ some j → t'.heap j = t.heap j) ∧
      ∀ q nq, rest.head? = some q → t.heap q = some nq →
        t'.heap q = some { nq with prev := none } := by
  -- the next child is neither the node nor the one that goes
  have hqi : rest.head? ≠ some i := fun h => (hq i h).1 rfl
  have hqp : rest.head? ≠ some p := fun h => (hq p h).2.1 rfl
  -- the pointers change one after the other: of `i`, of the next child, of `i` again, of `p`
  let t₁ := t.store i ⟨t.ef, { n with first := rest.head? }⟩
  have hold₁ : ∀ {j}, j ≠ i → t₁.heap j = t.heap j := fun hj => store_heap_of_ne _ hj
  have hrest₁ : ∀ q, rest.head? = some q → ∃ nq, t₁.heap q = some nq := by
    intro q hrest
    obtain ⟨hne', -, nq, hnq⟩ := hq q hrest
    exact ⟨nq, (hold₁ hne').trans hnq⟩
  obtain ⟨t₂, hrun₂, hef₂, hroot₂, hold₂, hnew₂⟩ := run_bridgeBehind hrest₁
  have hi₂ : t₂.heap i = some { n with first := rest.head? } :=
    (hold₂ i hqi).trans (store_heap_self _ _ _)
  let t₃ := t₂.store i ⟨t₂.ef, { n with first := rest.head?, child := n.child.erase p }⟩
  have hp₃ : t₃.heap p = some np := by
    rw [store_heap_of_ne _ hne, hold₂ p hqp, hold₁ hne]
    exact hp
  have hdetach : treeDetach p t =
      .ok ⟨⟩ (t₃.store p ⟨t₂.ef, { np with parent := none, prev := none, next := none }⟩) := by
    unfold treeDetach
    rw [run_bind_ok (run_getNode hp), hparent]
    dsimp only
    rw [hprev, hnext]
    show (updateNode i _ >>= _) t = _
    rw [run_bind_ok (run_updateNode hi _), run_bind_ok hrun₂, run_bind_ok (run_updateNode hi₂ _),
      run_updateNode hp₃ _]
    rfl
  refine ⟨_, (run_bind_ok hdetach).trans (run_modify _ _), hef₂, hroot₂, ?_, ?_, ?_⟩
  · refine (Function.update_of_ne hne.symm ..).trans ?_
    rw [store_heap_of_ne _ hne.symm, store_heap_self, hchild, List.erase_cons_head]
  · intro j hji hjp hjq
    refine (Function.update_of_ne hjp ..).trans ?_
    rw [store_heap_of_ne _ hjp, store_heap_of_ne _ hji, hold₂ j hjq, hold₁ hji]
  · intro q nq hrest hnq
    obtain ⟨hqi', hqp', -⟩ := hq q hrest
    refine (Function.update_of_ne hqp' ..).trans ?_
    rw [store_heap_of_ne _ hqp', store_heap_of_ne _ hqi']
    exact hnew₂ q nq hrest ((hold₁ hqi').trans hnq)

/-- Whether a node can be dropped does not depend on the children around it. -/
theorem Droppable.congr {t t' : Volume δ} {i : NodeId} {n n' : Node} (hroot : t'.root = t.root)
    (hr : n'.references = n.references) (hname : n'.name = n.name) (hd : n'.isDirty = n.isDirty) :
    Droppable t' i n' ↔ Droppable t i n := by
  unfold Droppable Node.Printable
  rw [hroot, hr, hname, hd]

/-- All nodes of two lists can be dropped if those of each can. -/
theorem allDroppable_append {t : Volume δ} {l l' : List NodeId} :
    AllDroppable t (l ++ l') ↔ AllDroppable t l ∧ AllDroppable t l' :=
  List.forall_mem_append

/-- Whether all nodes of a list can be dropped does not depend on the children around them. -/
theorem AllDroppable.congr {t t' : Volume δ} {l : List NodeId}
    (h : ∀ j ∈ l, ∃ m m', t.heap j = some m ∧ t'.heap j = some m' ∧
      (Droppable t' j m' ↔ Droppable t j m)) :
    AllDroppable t' l ↔ AllDroppable t l := by
  refine forall_congr' fun j => forall_congr' fun hj => ?_
  obtain ⟨m, m', hm, hm', hiff⟩ := h j hj
  rw [hm, hm']
  simpa using hiff

/-- `reset_cache` drops everything below a node and returns if that can be dropped; if not, it does
not return. -/
theorem resetCache_spec {f : Forest NodeId} {fuel : Nat} {i : NodeId} {n : Node} {t : Volume δ}
    (hi : t.heap i = some n) (hchild : n.child = f.roots) (hfirst : n.first = f.roots.head?)
    (hf : f.Fits t.link i) (hs : f.Spliced t.pointers none) (hnd : (i :: f.postOrder).Nodup)
    (hfuel : f.postOrder.length + 1 ≤ fuel) :
    (AllDroppable t (f.postOrder ++ [i]) ∧
      ∃ t', resetCache fuel i t = .ok ⟨⟩ t' ∧ Dropped t i n f.postOrder t') ∨
    (¬ AllDroppable t (f.postOrder ++ [i]) ∧ ∃ e t', resetCache fuel i t = .error e t') := by
  -- On the forest below the node, whose pointers the source follows.
  induction f generalizing fuel i n t with
  | nil =>
    obtain ⟨k, rfl⟩ : ∃ k, fuel = k + 1 := ⟨fuel - 1, by simp [Forest.postOrder] at hfuel; omega⟩
    have hstep : resetCache (k + 1) i t = resetNode i t := by
      show (getNode i >>= _) t = _
      rw [run_bind_ok (run_getNode hi), hfirst]
      rfl
    rw [hstep]
    -- a node without children is dropped if it can be
    by_cases hd : Droppable t i n
    · refine .inl ⟨?_, _, run_resetNode hi hd, rfl, rfl, ?_, fun j hj _ => store_heap_of_ne _ hj⟩
      · intro j hj
        simp only [Forest.postOrder, List.nil_append, List.mem_singleton] at hj
        exact ⟨n, hj ▸ hi, hj ▸ hd⟩
      · rw [store_heap_self, ← show n.child = [] from hchild, ← show n.first = none from hfirst]
    · refine .inr ⟨?_, resetNode_stops hi hd⟩
      intro hall
      obtain ⟨n', hn', hd'⟩ := hall i (by simp)
      obtain rfl : n = n' := Option.some.inj (hi.symm.trans hn')
      exact hd hd'
  | cons p below after ihb iha =>
    obtain ⟨hlink, hb, ha⟩ := hf
    obtain ⟨hptr, hsb, hsa⟩ := hs
    obtain ⟨np, hp, hparent, hkids⟩ := node_of_link hlink
    obtain ⟨hpfirst, hpnext, hpprev⟩ := pointers_of_heap hptr hp
    simp only [Forest.postOrder, List.length_append, List.length_cons] at hfuel
    obtain ⟨k, rfl⟩ : ∃ k, fuel = k + 1 := ⟨fuel - 1, by omega⟩
    -- the nodes of the two parts are different ones
    obtain ⟨hinot, hnd'⟩ := List.nodup_cons.mp hnd
    simp only [Forest.postOrder, List.mem_append, List.mem_cons, not_or] at hinot
    obtain ⟨hib, hip, hia⟩ := hinot
    obtain ⟨hndb, hndp, hdis⟩ := List.nodup_append.mp hnd'
    obtain ⟨hpa, hnda⟩ := List.nodup_cons.mp hndp
    have hpb : p ∉ below.postOrder := fun h => hdis p h p (by simp) rfl
    -- the first child is emptied, detached and freed, and then the node is tried again
    have hstep : resetCache (k + 1) i t =
        (do resetCache k p; treeDetach p; freeNode p; resetCache k i : TreeM δ PUnit) t := by
      show (getNode i >>= _) t = _
      rw [run_bind_ok (run_getNode hi), hfirst]
      rfl
    rw [hstep]
    -- what has to be dropped is `p` with what is below it, and what is left of the node
    have hsplit : (Forest.cons p below after).postOrder ++ [i] =
        (below.postOrder ++ [p]) ++ (after.postOrder ++ [i]) := by
      simp [Forest.postOrder]
    rw [hsplit, allDroppable_append]
    rcases ihb hp hkids hpfirst hb hsb (List.nodup_cons.mpr ⟨hpb, hndb⟩) (by omega : _ ≤ k) with
      ⟨hallb, t₁, hrun₁, hd₁⟩ | ⟨hnotb, e, t₁, hrun₁⟩
    · have hi₁ : t₁.heap i = some n := (hd₁.rest i (Ne.symm fun h => hip h.symm) hib).trans hi
      -- the nodes after `p` are neither of the two and not below `p`
      have hapart : ∀ j ∈ after.postOrder, j ≠ i ∧ j ≠ p ∧ t₁.heap j = t.heap j := by
        intro j hj
        have hjp : j ≠ p := fun h => hpa (h ▸ hj)
        have hjb : j ∉ below.postOrder := fun h => hdis j h j (by simp [hj]) rfl
        exact ⟨fun h => hia (h ▸ hj), hjp, hd₁.rest j hjp hjb⟩
      have hnext : ∀ q, after.roots.head? = some q → q ≠ i ∧ q ≠ p ∧ ∃ nq, t₁.heap q = some nq := by
        intro q hq
        have hmem := Forest.roots_mem_postOrder (List.mem_of_mem_head? hq)
        obtain ⟨hqi, hqp, hq₁⟩ := hapart q hmem
        obtain ⟨d, kids, hlink', -⟩ := ha.linked hmem
        obtain ⟨nq, hnq, -⟩ := node_of_link hlink'
        exact ⟨hqi, hqp, nq, hq₁.trans hnq⟩
      obtain ⟨t₂, hrun₂, hef₂, hroot₂, hi₂, hrest₂, hhead₂⟩ :=
        run_detach_free hi₁ hd₁.self hparent hchild hpnext hpprev (fun h => hip h.symm) hnext
      -- of the nodes after `p` at most the pointer to it changes
      have hsame : ∀ j ∈ after.postOrder, ∀ m, t.heap j = some m →
          t₂.heap j = some (if after.roots.head? = some j then { m with prev := none } else m) := by
        intro j hj m hm
        obtain ⟨hji, hjp, hj₁⟩ := hapart j hj
        by_cases hhead : after.roots.head? = some j
        · rw [if_pos hhead]
          exact hhead₂ j m hhead (hj₁.trans hm)
        · rw [if_neg hhead, hrest₂ j hji hjp hhead, hj₁]
          exact hm
      have hfits : after.Fits t₂.link i := by
        refine Forest.fits_congr (fun j hj => ?_) ha
        obtain ⟨d, kids, hlink', -⟩ := ha.linked hj
        obtain ⟨m, hm, -⟩ := node_of_link hlink'
        unfold Volume.link
        rw [hsame j hj m hm, hm, Option.map_some, Option.map_some]
        split <;> rfl
      have hspliced : after.Spliced t₂.pointers none := by
        refine hsa.behead hnda (fun j hj hhead => ?_) fun j first next hhead hj => ?_
        · obtain ⟨hji, hjp, hj₁⟩ := hapart j hj
          unfold Volume.pointers
          rw [hrest₂ j hji hjp hhead, hj₁]
        · obtain ⟨m, hm, hmptr⟩ := Option.map_eq_some_iff.1 hj
          unfold Volume.pointers
          rw [hsame j (Forest.roots_mem_postOrder (List.mem_of_mem_head? hhead)) m hm, if_pos hhead,
            Option.map_some, (Prod.mk.inj hmptr).1, (Prod.mk.inj (Prod.mk.inj hmptr).2).1]
      have hroot : t₂.root = t.root := hroot₂.trans hd₁.root
      -- what is left of the node is a forest with one tree less
      have hrest := iha hi₂ rfl rfl hfits hspliced (List.nodup_cons.mpr ⟨hia, hnda⟩)
        (by omega : _ ≤ k)
      -- cutting `p` off does not change which of the others can be dropped
      have hall : AllDroppable t₂ (after.postOrder ++ [i]) ↔
          AllDroppable t (after.postOrder ++ [i]) := by
        refine AllDroppable.congr fun j hj => ?_
        rcases List.mem_append.1 hj with hj | hj
        · obtain ⟨d, kids, hlink', -⟩ := ha.linked hj
          obtain ⟨m, hm, -⟩ := node_of_link hlink'
          refine ⟨m, _, hm, hsame j hj m hm, Droppable.congr hroot ?_ ?_ ?_⟩ <;> split <;> rfl
        · obtain rfl := List.mem_singleton.1 hj
          exact ⟨n, _, hi, hi₂, Droppable.congr hroot rfl rfl rfl⟩
      rw [run_bind_ok hrun₁]
      have hassoc : (do treeDetach p; freeNode p; resetCache k i : TreeM δ PUnit) t₁ =
          resetCache k i t₂ := by
        have := run_bind_ok (f := fun _ => resetCache k i) hrun₂
        rwa [bind_assoc] at this
      rw [hassoc, and_iff_right hallb, ← hall]
      -- the rest can be dropped, or the call stops in it
      rcases hrest with ⟨h₂, t₃, hrun₃, hd₃⟩ | ⟨h₂, e, t₃, hrun₃⟩
      · refine .inl ⟨h₂, t₃, hrun₃, hd₃.ef.trans (hef₂.trans hd₁.ef), hd₃.root.trans hroot,
          hd₃.self, ?_⟩
        intro j hji hj
        simp only [Forest.postOrder, List.mem_append, List.mem_cons, not_or] at hj
        have hhead : after.roots.head? ≠ some j := fun hhead =>
          hj.2.2 (Forest.roots_mem_postOrder (List.mem_of_mem_head? hhead))
        rw [hd₃.rest j hji hj.2.2, hrest₂ j hji hj.2.1 hhead, hd₁.rest j hj.2.1 hj.1]
      · exact .inr ⟨h₂, e, t₃, hrun₃⟩
    -- the call has stopped below `p`
    · exact .inr ⟨fun hall => hnotb hall.1, e, t₁, run_bind_error hrun₁⟩

/-! ### Dropping nodes does not touch the volume -/

/-- The volume without its nodes is what it was. -/
def Volume.SameEf (t t' : Volume δ) : Prop := t'.ef = t.ef

instance : IsPreorder (Volume δ) Volume.SameEf where
  refl _ := rfl
  trans _ _ _ h h' := Eq.trans h' h

/-- `getNode` leaves the volume alone. -/
theorem sameEf_getNode (i : NodeId) : Keeps Volume.SameEf (getNode (δ := δ) i) := by
  intro t
  unfold wp getNode
  cases t.heap i <;> rfl

/-- `updateNode` leaves the volume alone. -/
theorem sameEf_updateNode (i : NodeId) (f : Node → Node) :
    Keeps Volume.SameEf (updateNode (δ := δ) i f) := by
  intro t
  unfold wp updateNode onNode
  cases t.heap i <;> rfl

/-- `exfat_get_name` leaves the volume alone. -/
theorem sameEf_exfatGetName (n : Node) :
    Keeps Volume.SameEf (onVolume (exfatGetName (δ := δ) n)) := by
  intro t
  unfold onVolume exfatGetName
  rw [wp_zoom]
  cases nameUtf8 n.name <;> rfl

/-- `exfat_put_node` leaves the volume alone. -/
theorem sameEf_exfatPutNode (i : NodeId) : Keeps Volume.SameEf (exfatPutNode (δ := δ) i) := by
  refine keeps_bind (sameEf_updateNode i _) fun _ => keeps_bind (sameEf_getNode i) fun n => ?_
  refine keeps_look fun t => keeps_ite ?_ (keeps_ite ?_ (keeps_pure _))
  · exact keeps_bind (sameEf_exfatGetName n) fun _ => keeps_throw _
  · exact keeps_bind (sameEf_exfatGetName n) fun _ => keeps_pure _

/-- `putLoop` leaves the volume alone. -/
theorem sameEf_putLoop (i : NodeId) (k : Nat) : Keeps Volume.SameEf (putLoop (δ := δ) i k) := by
  induction k with
  | zero => exact keeps_pure _
  | succ k ih => exact keeps_bind (sameEf_exfatPutNode i) fun _ => ih

/-- `warnReferences` leaves the volume alone. -/
theorem sameEf_warnReferences (n : Node) :
    Keeps Volume.SameEf (onVolume (warnReferences (δ := δ) n)) := by
  intro t
  unfold onVolume warnReferences exfatGetName
  rw [wp_zoom]
  split
  · rw [wp_bind]
    cases nameUtf8 n.name <;> rfl
  · rfl

/-- `resetNode` leaves the volume alone. -/
theorem sameEf_resetNode (i : NodeId) : Keeps Volume.SameEf (resetNode (δ := δ) i) := by
  refine keeps_bind (sameEf_updateNode i _) fun _ => keeps_bind (sameEf_getNode i) fun n => ?_
  refine keeps_look fun t => keeps_bind (sameEf_warnReferences n) fun _ =>
    keeps_ite ?_ (keeps_ite ?_ ?_)
  · exact keeps_bind (sameEf_exfatGetName n) fun _ => keeps_throw _
  · exact sameEf_exfatPutNode i
  · exact sameEf_putLoop i _

/-- `tree_detach` leaves the volume alone. -/
theorem sameEf_treeDetach (i : NodeId) : Keeps Volume.SameEf (treeDetach (δ := δ) i) := by
  refine keeps_bind (sameEf_getNode i) fun n => ?_
  cases n.parent with
  | none => exact keeps_throw _
  | some p =>
    refine keeps_bind ?_ fun _ => keeps_bind ?_ fun _ =>
      keeps_bind (sameEf_updateNode p _) fun _ => sameEf_updateNode i _
    · cases n.prev <;> exact sameEf_updateNode _ _
    · cases n.next with
      | none => exact keeps_pure _
      | some q => exact sameEf_updateNode q _

/-- `reset_cache` leaves the volume alone. -/
theorem sameEf_resetCache (fuel : Nat) (i : NodeId) :
    Keeps Volume.SameEf (resetCache (δ := δ) fuel i) := by
  induction fuel generalizing i with
  | zero => exact keeps_throw _
  | succ fuel ih =>
    refine keeps_bind (sameEf_getNode i) fun n => ?_
    cases n.first with
    | none => exact sameEf_resetNode i
    | some p =>
      refine keeps_bind (ih p) fun _ => keeps_bind (sameEf_treeDetach p) fun _ => ?_
      exact keeps_bind (keeps_modify fun _ => rfl) fun _ => ih i

/-! ### The mounted volume -/

/-- The nodes of a mounted volume: those below the root are the forest `f`, which their pointers
join, nobody has given back a reference he did not take, and the root has the one of `exfat_mount`.
-/
structure Mounted (t : Volume δ) (f : Forest NodeId) : Prop where
  fits : f.Fits t.link t.root
  spliced : f.Spliced t.pointers none
  first : ∀ r, t.heap t.root = some r → r.first = f.roots.head?
  root : ∃ r, t.heap t.root = some r ∧ r.parent = none ∧ r.child = f.roots ∧
    1 ≤ r.references ∧ r.name = []
  nodup : (t.root :: f.postOrder).Nodup
  bound : ∀ i ∈ t.root :: f.postOrder, i < t.fresh
  refs : ∀ i ∈ f.postOrder, ∀ n, t.heap i = some n → 0 ≤ n.references

section Mounted

variable {t : Volume δ} {f : Forest NodeId}

/-- The nodes below the root hang in it. -/
theorem Mounted.hanging (h : Mounted t f) : Hanging t f.postOrder := by
  intro i hi
  obtain ⟨q, below, hlink, hq⟩ := h.fits.linked hi
  obtain ⟨n, hn, hp, -⟩ := node_of_link hlink
  rcases hq with rfl | hq
  · obtain ⟨r, hr, -⟩ := h.root
    exact ⟨n, _, r, hn, hp, hr⟩
  · obtain ⟨q', below', hlink', -⟩ := h.fits.linked hq
    obtain ⟨d, hd, -⟩ := node_of_link hlink'
    exact ⟨n, q, d, hn, hp, hd⟩

/-- The nodes of the tree are in memory. -/
theorem Mounted.present (h : Mounted t f) :
    ∀ i ∈ f.postOrder ++ [t.root], ∃ n, t.heap i = some n := by
  intro i hi
  rcases List.mem_append.mp hi with hi | hi
  · obtain ⟨n, -, -, hn, -⟩ := h.hanging i hi
    exact ⟨n, hn⟩
  · obtain ⟨r, hr, -⟩ := h.root
    exact ⟨r, List.mem_singleton.mp hi ▸ hr⟩

/-- There are no more nodes than identifiers. -/
theorem Mounted.length_le (h : Mounted t f) : f.postOrder.length + 1 ≤ t.fresh :=
  length_le_of_nodup_lt h.nodup h.bound

end Mounted

variable [Device δ] {t t₁ : Volume δ} {f : Forest NodeId}

/-! ### Writing everything back -/

/-- What `exfat_unmount` starts with. -/
def writeBack : TreeM δ PUnit := do
  let _ ← exfatFlushNodes
  let _ ← onVolume exfatFlush
  pure ⟨⟩

/-- `exfat_flush_nodes` flushes the nodes below the root in post-order, then the root. -/
theorem run_exfatFlushNodes (h : Mounted t f) :
    exfatFlushNodes t = untilError exfatFlushNode (f.postOrder ++ [t.root]) t := by
  obtain ⟨r, hr, -, hchild, -⟩ := h.root
  have hlen := h.length_le
  show flushNodes (t.fresh + 1) t.root t = _
  rw [run_flushNodes hr, hchild, flushNodes_postOrder h.fits (by omega), run_untilError_append]
  cases untilError exfatFlushNode f.postOrder t with
  | error e t' => rfl
  | ok r t' =>
    cases r with
    | error e => rfl
    | ok _ =>
      dsimp only
      rw [run_untilError_cons]
      cases exfatFlushNode t.root t' with
      | error e t'' => rfl
      | ok r t'' => cases r <;> rfl

/-- On a volume that can be written flushing the root is no more than a look at it. -/
theorem run_exfatFlushNodes_rw (h : Mounted t f) (hro : t.ef.ro = false) :
    exfatFlushNodes t = untilError exfatFlushNode f.postOrder t := by
  obtain ⟨r, hroot, hparent, -⟩ := h.root
  rw [run_exfatFlushNodes h, run_untilError_append]
  cases hpost : untilError exfatFlushNode f.postOrder t with
  | error e t' => rfl
  | ok rc t' =>
    cases rc with
    | error e => rfl
    | ok _ =>
      have hsame := sameTree_untilError hpost
      obtain ⟨r', hroot', hstill⟩ := hsame.get hroot
      have hparent' : r'.parent = none := (Node.still_eq hstill).1.trans hparent
      dsimp only
      rw [run_untilError_cons, exfatFlushNode_root hroot' (hsame.ro.trans hro) hparent']
      rfl

/-- What has to go right for everything to be written back: on a read-only volume there is nothing
to write; a dirty bitmap starts in the heap; and the dirty nodes are saved one after the other. -/
structure Saves (t : Volume δ) (f : Forest NodeId) (t' : Volume δ) : Prop where
  ro : t.ef.ro = true → ∀ i ∈ t.root :: f.postOrder, t.dirty i = false
  bitmap : t.ef.cmap.dirty = true → 2 ≤ t.ef.cmap.startCluster
  saved : SavedTo (f.postOrder.filter t.dirty) t t'

omit [Device δ] in
/-- Some of the nodes hang in the tree too. -/
theorem Hanging.filter {l : List NodeId} {p : NodeId → Bool} (h : Hanging t l) :
    Hanging t (l.filter p) := fun i hi => h i (List.mem_of_mem_filter hi)

/-- A write-back that leaves no node dirty has saved them all in turn. -/
theorem saves_of_writeBack (h : Mounted t f) (hrun : writeBack t = .ok ⟨⟩ t₁)
    (hclean : ∀ i ∈ f.postOrder, t₁.dirty i = false) :
    ∃ t', Saves t f t' ∧ ∃ r, onVolume exfatFlush t' = .ok r t₁ := by
  unfold writeBack at hrun
  cases hnodes : exfatFlushNodes t with
  | error e t' =>
    rw [run_bind_error hnodes] at hrun
    cases hrun
  | ok r t' =>
    rw [run_bind_ok hnodes] at hrun
    cases hflush : exfatFlush t'.ef with
    | error e ef =>
      rw [run_bind_error (run_onVolume_error hflush)] at hrun
      cases hrun
    | ok r' ef =>
      rw [run_bind_ok (run_onVolume_ok hflush)] at hrun
      cases hrun
      have hclean' : ∀ i ∈ f.postOrder, t'.dirty i = false := hclean
      refine ⟨t', ?_, r', run_onVolume_ok hflush⟩
      -- On a read-only volume nothing is written, so nothing was dirty.
      cases hro : t.ef.ro with
      | true =>
        rw [run_exfatFlushNodes h] at hnodes
        have hall := (untilError_ro h.present hro).mp ⟨r, t', hnodes⟩
        rw [untilError_clean h.present hall] at hnodes
        cases hnodes
        have hnil : f.postOrder.filter t.dirty = [] := by
          refine List.filter_eq_nil_iff.mpr fun i hi => ?_
          rw [hall i (by simp [hi])]
          simp
        refine ⟨fun _ i hi => hall i (by simpa [or_comm] using hi), (exfatFlush_ok hflush).2.1, ?_⟩
        rw [hnil]
        rfl
      | false =>
        rw [run_exfatFlushNodes_rw h hro] at hnodes
        have hsaved :=
          savedTo_of_untilError h.hanging (List.nodup_cons.mp h.nodup).2 hro hnodes hclean'
        refine ⟨?_, hsaved.start h.hanging.filter hflush, hsaved⟩
        intro hro'
        rw [hro] at hro'
        cases hro'

/-- Writing back leaves the tree alone. -/
theorem sameTree_writeBack (h : Mounted t f) (hrun : writeBack t = .ok ⟨⟩ t₁) : t.SameTree t₁ := by
  unfold writeBack at hrun
  cases hnodes : exfatFlushNodes t with
  | error e t' =>
    rw [run_bind_error hnodes] at hrun
    cases hrun
  | ok r t' =>
    rw [run_bind_ok hnodes] at hrun
    rw [run_exfatFlushNodes h] at hnodes
    cases hflush : exfatFlush t'.ef with
    | error e ef =>
      rw [run_bind_error (run_onVolume_error hflush)] at hrun
      cases hrun
    | ok r' ef =>
      rw [run_bind_ok (run_onVolume_ok hflush)] at hrun
      cases hrun
      obtain ⟨hframe, -⟩ := exfatFlush_ok hflush
      exact (sameTree_untilError hnodes).trans ⟨rfl, rfl, hframe, fun _ => rfl⟩

/-- If the dirty nodes can be saved, the write-back does it and leaves none dirty. -/
theorem writeBack_of_saves {t' : Volume δ} (h : Mounted t f) (hs : Saves t f t') :
    ∃ t₁, writeBack t = .ok ⟨⟩ t₁ ∧ t.SameTree t₁ ∧ (∀ i ∈ f.postOrder, t₁.dirty i = false) ∧
      ∃ r, onVolume exfatFlush t' = .ok r t₁ := by
  have hnodes : (∃ r, exfatFlushNodes t = .ok r t') ∧ t.SameTree t' ∧
      ∀ i ∈ f.postOrder, t'.dirty i = false := by
    cases hro : t.ef.ro with
    | true =>
      have hclean := hs.ro hro
      have hall : ∀ i ∈ f.postOrder ++ [t.root], t.dirty i = false :=
        fun i hi => hclean i (by simpa [or_comm] using hi)
      have hnil : f.postOrder.filter t.dirty = [] := by
        refine List.filter_eq_nil_iff.mpr fun i hi => ?_
        rw [hall i (by simp [hi])]
        simp
      have hsaved := hs.saved
      rw [hnil] at hsaved
      obtain rfl : t' = t := hsaved
      rw [run_exfatFlushNodes h, untilError_clean h.present hall]
      exact ⟨⟨_, rfl⟩, .refl _, fun i hi => hall i (by simp [hi])⟩
    | false =>
      obtain ⟨hrun, hsame, hflags⟩ :=
        untilError_of_savedTo h.hanging (List.nodup_cons.mp h.nodup).2 hro hs.saved
      rw [run_exfatFlushNodes_rw h hro]
      exact ⟨hrun, hsame, fun i hi => by rw [hflags i, if_pos hi]⟩
  obtain ⟨⟨r, hrun⟩, hsame, hclean⟩ := hnodes
  -- the bitmap is written once more, and starts where it started
  have hbitmap : t'.ef.cmap.dirty = true → 2 ≤ t'.ef.cmap.startCluster := by
    intro hd
    rw [hsame.bitmapStart]
    exact hs.bitmap (hs.saved.was h.hanging.filter hd)
  obtain ⟨r', ef, hflush⟩ := exfatFlush_returns hbitmap
  obtain ⟨hframe, -⟩ := exfatFlush_ok hflush
  refine ⟨{ t' with ef := ef }, ?_, hsame.trans ⟨rfl, rfl, hframe, fun _ => rfl⟩, hclean, r',
    run_onVolume_ok hflush⟩
  unfold writeBack
  rw [run_bind_ok hrun, run_bind_ok (run_onVolume_ok hflush)]
  rfl

/-! ### The rest of the unmount -/

/-- What `exfat_unmount` does after the write-back. -/
def dropVolume : TreeM δ PUnit := do
  let t ← get
  exfatPutNode t.root
  exfatResetCache
  onVolume finalizeSuperBlock
  exfatFree

/-- `exfat_unmount` writes back and then drops the nodes. -/
theorem exfatUnmount_eq : (exfatUnmount : TreeM δ PUnit) = writeBack >>= fun _ => dropVolume := by
  unfold exfatUnmount writeBack dropVolume
  simp only [bind_assoc, pure_bind]

/-- Every node in use has a name that a message can hold. -/
def UsedPrintable (t : Volume δ) (f : Forest NodeId) : Prop :=
  ∀ i ∈ f.postOrder, ∀ n, t.heap i = some n → n.references ≠ 0 → n.Printable

/-- The empty name can be printed. -/
theorem printable_nil {n : Node} (h : n.name = []) : n.Printable := by
  refine ⟨[], ?_⟩
  rw [h]
  decide +kernel

omit [Device δ] in
/-- The nodes of the same tree are mounted. -/
theorem Mounted.sameTree (h : Mounted t f) (hs : t.SameTree t₁) : Mounted t₁ f := by
  obtain ⟨r, hroot, hparent, hchild, hrefs, hname⟩ := h.root
  obtain ⟨r', hroot', hstill⟩ := hs.get hroot
  refine ⟨?_, Forest.spliced_congr (fun i _ => hs.pointers i) h.spliced, ?_, ?_, ?_, ?_, ?_⟩
  · rw [hs.root]
    exact Forest.fits_congr (fun i _ => hs.link i) h.fits
  · intro r₁ hr₁
    rw [hs.root, hroot'] at hr₁
    cases hr₁
    exact (congrArg Node.first hstill).trans (h.first r hroot)
  · obtain ⟨hp', hc', hr', hn'⟩ := Node.still_eq hstill
    rw [hs.root]
    exact ⟨r', hroot', hp'.trans hparent, hc'.trans hchild, hr' ▸ hrefs, hn'.trans hname⟩
  · rw [hs.root]
    exact h.nodup
  · rw [hs.root, hs.fresh]
    exact h.bound
  · intro i hi n hn
    obtain ⟨m, -, -, hm, -⟩ := h.hanging i hi
    obtain ⟨n', hn', hst⟩ := hs.get hm
    obtain rfl : n' = n := Option.some.inj (hn'.symm.trans hn)
    rw [(Node.still_eq hst).2.2.1]
    exact h.refs i hi m hm

omit [Device δ] in
/-- The names of the nodes in use are as they were. -/
theorem UsedPrintable.sameTree (h : Mounted t f) (hs : t.SameTree t₁) :
    UsedPrintable t₁ f ↔ UsedPrintable t f := by
  have hget : ∀ i ∈ f.postOrder, ∃ n n₁, t.heap i = some n ∧ t₁.heap i = some n₁ ∧
      n₁.references = n.references ∧ n₁.name = n.name := by
    intro i hi
    obtain ⟨n, -, -, hn, -⟩ := h.hanging i hi
    obtain ⟨n₁, hn₁, hstill⟩ := hs.get hn
    exact ⟨n, n₁, hn, hn₁, (Node.still_eq hstill).2.2⟩
  unfold UsedPrintable Node.Printable
  constructor
  · intro hu i hi n hn
    obtain ⟨m, m₁, hm, hm₁, hr, hname⟩ := hget i hi
    obtain rfl : m = n := Option.some.inj (hm.symm.trans hn)
    rw [← hr, ← hname]
    exact hu i hi m₁ hm₁
  · intro hu i hi n hn
    obtain ⟨m, m₁, hm, hm₁, hr, hname⟩ := hget i hi
    obtain rfl : m₁ = n := Option.some.inj (hm₁.symm.trans hn)
    rw [hr, hname]
    exact hu i hi m hm

/-- `commit_super_block` returns whatever the device answers; after the write there is at most an
`exfat_fsync`. -/
theorem commitSuperBlock_ok (ef : Ef δ) : ∃ b ef', commitSuperBlock ef = .ok b ef' ∧
    (ef'.dev = (Device.pwrite ef.sb.bytes 0 ef.dev).2 ∨
      ef'.dev = (Device.fsync (Device.pwrite ef.sb.bytes 0 ef.dev).2).2) := by
  unfold commitSuperBlock
  rw [run_bind_ok (run_get ef)]
  have hwrite : exfatPwrite ef.sb.bytes 0 ef = .ok (Device.pwrite ef.sb.bytes 0 ef.dev).1
      { ef with dev := (Device.pwrite ef.sb.bytes 0 ef.dev).2 } := rfl
  rw [run_bind_ok hwrite]
  cases (Device.pwrite ef.sb.bytes 0 ef.dev).1 with
  | none => exact ⟨_, _, rfl, .inl rfl⟩
  | some k => exact ⟨_, _, rfl, .inr rfl⟩

/-- The superblock is finalized whatever the device answers; a read-only volume is left alone. -/
theorem finalizeSuperBlock_ok (ef : Ef δ) : ∃ ef', finalizeSuperBlock ef = .ok ⟨⟩ ef' ∧
    (ef.ro = true → ef' = ef) ∧
    (ef.ro = false → ef'.dev = (Device.pwrite (finalSuperBlock ef).bytes 0 ef.dev).2 ∨
      ef'.dev = (Device.fsync (Device.pwrite (finalSuperBlock ef).bytes 0 ef.dev).2).2) := by
  unfold finalizeSuperBlock
  rw [run_bind_ok (run_get ef)]
  by_cases hro : ef.ro = true
  · rw [if_pos hro]
    exact ⟨ef, rfl, fun _ => rfl, fun h => by rw [hro] at h; cases h⟩
  · obtain ⟨b, ef', hrun, hdev⟩ := commitSuperBlock_ok { ef with sb := finalSuperBlock ef }
    rw [if_neg hro, run_bind_ok (run_set _ _), run_bind_ok hrun]
    exact ⟨ef', rfl, fun h => absurd h hro, fun _ => hdev⟩

/-- After the write-back the volume is dropped if no node below the root is dirty and every node in
use can be named; if not, the unmount does not return. -/
theorem dropVolume_spec (h : Mounted t f) :
    ((∀ i ∈ f.postOrder, t.dirty i = false) ∧ UsedPrintable t f ∧
      ∃ ef' t', finalizeSuperBlock t.ef = .ok ⟨⟩ ef' ∧ dropVolume t = .ok ⟨⟩ t' ∧
        t'.ef.dev = ef'.dev ∧ ∀ i, t'.heap i = none) ∨
    (¬ ((∀ i ∈ f.postOrder, t.dirty i = false) ∧ UsedPrintable t f) ∧
      ∃ e t', dropVolume t = .error e t' ∧ t'.ef = t.ef) := by
  obtain ⟨r, hroot, hparent, hchild, hrefs, hname⟩ := h.root
  -- the reference of the mount is the last one of the root
  have hput := run_exfatPutNode hroot hrefs (fun hne => absurd rfl hne)
  -- the volume without the reference of the mount
  obtain ⟨t₂, ht₂⟩ : ∃ t₂, t₂ = t.store t.root ⟨t.ef, { r with references := r.references - 1 }⟩ :=
    ⟨_, rfl⟩
  rw [← ht₂] at hput
  have hheap : t₂.heap t.root = some { r with references := r.references - 1 } := by
    rw [ht₂]
    exact store_heap_self ..
  have hrest : ∀ i ∈ f.postOrder, t₂.heap i = t.heap i := by
    intro i hi
    rw [ht₂]
    exact store_heap_of_ne _ fun heq => (List.nodup_cons.mp h.nodup).1 (heq ▸ hi)
  have hfits : f.Fits t₂.link t.root := by
    refine Forest.fits_congr (fun i hi => ?_) h.fits
    unfold Volume.link
    rw [hrest i hi]
  have hspliced : f.Spliced t₂.pointers none := by
    refine Forest.spliced_congr (fun i hi => ?_) h.spliced
    unfold Volume.pointers
    rw [hrest i hi]
  have hroot₂ : t₂.root = t.root := by
    rw [ht₂]
    rfl
  have hfresh₂ : t₂.fresh = t.fresh := by
    rw [ht₂]
    rfl
  have hef₂ : t₂.ef = t.ef := by
    rw [ht₂]
    rfl
  have hlen := h.length_le
  -- A node can be dropped if it is clean, or the root, and can be named while it is in use.
  have hall : AllDroppable t₂ (f.postOrder ++ [t.root]) ↔
      (∀ i ∈ f.postOrder, t.dirty i = false) ∧ UsedPrintable t f := by
    constructor
    · intro hd
      constructor
      · intro i hi
        obtain ⟨n, hn, -, -, hdirty⟩ := hd i (by simp [hi])
        rw [hrest i hi] at hn
        rw [dirty_of_heap hn]
        exact hdirty fun heq => (List.nodup_cons.mp h.nodup).1 (hroot₂ ▸ heq ▸ hi)
      · intro i hi n hn hr
        obtain ⟨m, hm, -, hprint, -⟩ := hd i (by simp [hi])
        rw [hrest i hi, hn] at hm
        cases hm
        exact hprint hr
    · rintro ⟨hclean, hused⟩ i hi
      rcases List.mem_append.mp hi with hi | hi
      · obtain ⟨n, -, -, hn, -⟩ := h.hanging i hi
        refine ⟨n, (hrest i hi).trans hn, h.refs i hi n hn, hused i hi n hn, fun _ => ?_⟩
        rw [← dirty_of_heap hn]
        exact hclean i hi
      · obtain rfl := List.mem_singleton.mp hi
        exact ⟨_, hheap, by simp only; omega, fun _ => printable_nil hname,
          fun hne => absurd hroot₂.symm hne⟩
  have hreset : (exfatResetCache : TreeM δ PUnit) t₂ = resetCache (t.fresh + 1) t.root t₂ := by
    show resetCache (t₂.fresh + 1) t₂.root t₂ = _
    rw [hroot₂, hfresh₂]
  unfold dropVolume
  rw [run_bind_ok (run_get t), run_bind_ok hput, run_bind, hreset]
  have hfuel : f.postOrder.length + 1 ≤ t.fresh + 1 := by omega
  -- everything is dropped, or the source stops with an `exfat_bug`
  rcases resetCache_spec hheap hchild (h.first r hroot) hfits hspliced h.nodup hfuel with
    ⟨hd, t₃, hrun, hdrop⟩ | ⟨hd, e, t₃, hrun⟩
  · obtain ⟨hclean, hused⟩ := hall.mp hd
    obtain ⟨ef', hfin, -⟩ := finalizeSuperBlock_ok t.ef
    have hfin₃ : finalizeSuperBlock t₃.ef = .ok ⟨⟩ ef' := by
      rw [hdrop.ef, hef₂]
      exact hfin
    rw [hrun]
    exact .inl ⟨hclean, hused, ef', _, hfin,
      (run_bind_ok (run_onVolume_ok hfin₃)).trans (run_modify _ _), rfl, fun _ => rfl⟩
  -- what has been dropped until then is memory only
  · have hef : t₃.ef = t₂.ef := by
      have := sameEf_resetCache (t.fresh + 1) t.root t₂
      unfold wp at this
      rwa [hrun] at this
    rw [hrun]
    exact .inr ⟨fun hno => hd (hall.mpr hno), e, t₃, rfl, hef.trans hef₂⟩

/-! ### A device that fails -/

/-- A medium that fails at the calls `fault` names, after it has stored the first bytes of what it
was given. -/
structure Faulty where
  bytes : Store
  size : Nat
  calls : Nat
  fault : Nat → Option Nat

instance : Device Faulty where
  pread size offset d :=
    (if (d.fault d.calls).isSome then none else some (readBytes d.bytes offset size),
      { d with calls := d.calls + 1 })
  pwrite data offset d :=
    match d.fault d.calls with
    | none => (some data.length, { d with
        bytes := writeBytes d.bytes offset data, calls := d.calls + 1 })
    | some k => (none, { d with
        bytes := writeBytes d.bytes offset (data.take k), calls := d.calls + 1 })
  fsync d := ((d.fault d.calls).isNone, { d with calls := d.calls + 1 })
  getSize d := d.size

/-- The superblock of a volume of sixteen clusters of one sector. -/
def smallSb : SuperBlock :=
  SuperBlock.setFields ⟨List.replicate 512 0⟩ [(0x50, 4, 24), (0x58, 4, 32),
    (0x5c, 4, 16), (0x60, 4, 3),
    (0x6a, 2, 2), (0x6c, 1, 9), (0x6e, 1, 1), (0x70, 1, 0xff)]

/-- Its root directory, with one file. -/
def smallRoot : Node :=
  { child := [1], first := some 1, references := 1, attrib := attribDir,
    isCached := true, startCluster := 3
    fptrCluster := 3, isContiguous := true, size := 512, validSize := 512 }

/-- The file, whose time of access has changed. -/
def touchedFile : Node :=
  { parent := some 0, continuations := 2, attrib := attribArch, isDirty := true, name := [0x61] }

/-- Its medium, with the flag in the superblock and the types of the entries of the file. -/
def smallBytes : Store := fun a =>
  if a = 0x6a then 2
  else if a = 16896 then 0x85
  else if a = 16928 then 0xc0
  else if a = 16960 then 0xc1
  else 0

/-- The volume on a card that fails the calls `fault` names. -/
def smallCard (fault : Nat → Option Nat) : Volume Faulty :=
  { ef := { dev := ⟨smallBytes, 2 ^ 20, 0, fault⟩, sb := smallSb }
    heap := fun i => if i = 0 then some smallRoot else if i = 1 then some touchedFile else none
    root := 0
    fresh := 2 }

/-- The volume when the card is gone: every call of the device fails. -/
def cardGone : Volume Faulty := smallCard fun _ => some 0

/-- The card is mounted with one file. -/
theorem mounted_smallCard (fault : Nat → Option Nat) :
    Mounted (smallCard fault) (.cons 1 .nil .nil) where
  fits := ⟨rfl, trivial, trivial⟩
  spliced := ⟨rfl, trivial, trivial⟩
  first _ h := by
    cases h
    rfl
  root := ⟨_, rfl, rfl, rfl, by decide, rfl⟩
  nodup := show [0, 1].Nodup by decide
  bound := show ∀ i ∈ [0, 1], i < 2 by decide
  refs := by
    intro i hi n hn
    obtain rfl : i = 1 := List.mem_singleton.mp hi
    cases hn
    decide

/-- If the dirty nodes can be saved and every node in use can be named, the unmount ends. -/
theorem exfatUnmount_of_saves {t' : Volume δ} (h : Mounted t f) (hs : Saves t f t')
    (hu : UsedPrintable t f) : ∃ t', exfatUnmount t = .ok ⟨⟩ t' ∧ ∀ i, t'.heap i = none := by
  rw [exfatUnmount_eq]
  obtain ⟨t₁, hwb, hsame, hclean, -⟩ := writeBack_of_saves h hs
  rw [run_bind_ok hwb]
  rcases dropVolume_spec (h.sameTree hsame) with ⟨-, -, ef', t₂, -, hrun, -, hheap⟩ | ⟨hno, -⟩
  · exact ⟨t₂, hrun, hheap⟩
  · exact absurd ⟨hclean, (UsedPrintable.sameTree h hsame).mpr hu⟩ hno

/-- A volume with nothing to write back and nothing in use but the root can be unmounted. -/
theorem exfatUnmount_of_clean (h : Mounted t f)
    (hclean : ∀ i n, t.heap i = some n → n.isDirty = false) (hbitmap : t.ef.cmap.dirty = false)
    (hidle : ∀ i n, t.heap i = some n → i ≠ t.root → n.references = 0) :
    ∃ t', exfatUnmount t = .ok ⟨⟩ t' := by
  have hdirty : ∀ i, t.dirty i = false := by
    intro i
    cases hi : t.heap i with
    | none => rw [Volume.dirty, hi]; rfl
    | some n => rw [dirty_of_heap hi, hclean i n hi]
  have hsaves : Saves t f t := by
    refine ⟨fun _ i _ => hdirty i, fun hd => ?_, ?_⟩
    · cases hbitmap.symm.trans hd
    · rw [List.filter_eq_nil_iff.2 fun i _ => by rw [hdirty i]; decide]
      rfl
  have hused : UsedPrintable t f := by
    intro i hi n hn hr
    have hne : i ≠ t.root := fun heq => (List.nodup_cons.mp h.nodup).1 (heq ▸ hi)
    exact absurd (hidle i n hn hne) hr
  obtain ⟨t', hrun, -⟩ := exfatUnmount_of_saves h hsaves hused
  exact ⟨t', hrun⟩

/-- **`exfat_unmount` runs to its end** exactly if the dirty nodes are saved one after the other and
every node in use can be named. -/
theorem exfatUnmount_ends_iff (h : Mounted t f) :
    (∃ t', exfatUnmount t = .ok ⟨⟩ t' ∧ ∀ i, t'.heap i = none) ↔
      (∃ t', Saves t f t') ∧ UsedPrintable t f := by
  constructor
  · rintro ⟨t', hrun, -⟩
    rw [exfatUnmount_eq] at hrun
    cases hwb : writeBack t with
    | error e t₁ =>
      rw [run_bind_error hwb] at hrun
      cases hrun
    | ok _ t₁ =>
      rw [run_bind_ok hwb] at hrun
      have hsame := sameTree_writeBack h hwb
      rcases dropVolume_spec (h.sameTree hsame) with ⟨hclean, hu, -⟩ | ⟨-, e, t₂, hstop, -⟩
      · obtain ⟨t₂, hs, -⟩ := saves_of_writeBack h hwb hclean
        exact ⟨⟨t₂, hs⟩, (UsedPrintable.sameTree h hsame).mp hu⟩
      · rw [hstop] at hrun
        cases hrun
  · rintro ⟨⟨t', hs⟩, hu⟩
    exact exfatUnmount_of_saves h hs hu

/-- With the card in its place the changed file is saved, and the unmount runs to its end. -/
theorem exfatUnmount_ends_savedFile : (smallCard fun _ => none).dirty 1 = true ∧
    ∃ t', exfatUnmount (smallCard fun _ => none) = .ok ⟨⟩ t' ∧ ∀ i, t'.heap i = none := by
  have hsave : returns (fun r t₁ => r = .ok () ∧ returns (fun r _ => r = .ok ()) (settle 1 t₁))
      (rewriteEntries 0 touchedFile (smallCard fun _ => none)) = true := by
    decide +kernel
  obtain ⟨r, t₁, hwrite, htest⟩ := of_returns hsave
  obtain ⟨rfl, hsettle⟩ := of_decide_eq_true htest
  obtain ⟨r, t₂, hsettle, hok⟩ := of_returns hsettle
  refine ⟨rfl, (exfatUnmount_ends_iff (mounted_smallCard _)).mpr ⟨⟨t₂, ?_, ?_, ?_⟩, ?_⟩⟩
  · intro hro
    cases hro
  · intro hd
    cases hd
  · exact ⟨touchedFile, 0, t₁, r, t₂, rfl, rfl, hwrite, hsettle, .inl ⟨of_decide_eq_true hok, rfl⟩⟩
  · intro i hi n hn hr
    obtain rfl : i = 1 := List.mem_singleton.mp hi
    cases hn
    exact absurd rfl hr

/-- With the card gone the unmount ends in `exfat_bug`. -/
theorem exfatUnmount_not_total : Mounted cardGone (.cons 1 .nil .nil) ∧
    ∃ t', exfatUnmount cardGone = .error (.bug "node is dirty") t' := by
  refine ⟨mounted_smallCard _, ?_⟩
  have hstop : haltOf (exfatUnmount cardGone) = some (.bug "node is dirty") := by decide +kernel
  exact of_haltOf hstop

end ExFat
