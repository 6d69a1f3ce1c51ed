import ExFat.Amiga.Scans
import ExFat.Session.Resolve

namespace ExFat

open Program

/-!
# Renaming onto an object in use

`do_delete_object` refuses an object that a lock or an open file refers to.  `do_rename_object`
leaves the target to `exfat_rename`, which calls `exfat_cleanup_node` on it whatever `exfat_rmdir`
or `exfat_unlink` has said, and that routine ends in `exfat_bug` when there is a reference.  So a
packet with a target in use is answered only where the target is not removed: it is the source
itself, or it lies in the directory that is renamed.

* `putNodes_returns_iff`: when references that are there can be dropped.
* `SparesTarget` is the condition, and `renameFound_returns` what is left of `exfat_rename` under
  it.
-/

variable {δ : Type} [Device δ]

/-- The packet is answered, and what locks and open files refer to is still there. -/
def Handler.Protects (h : Handler δ) (p : Packet) : Prop :=
  ∃ r h', servePacket p h = .ok r h' ∧ ∀ j, h.InUse j →
    ∃ n n', h.fs.heap j = some n ∧ h'.fs.heap j = some n' ∧ n'.isUnlinked = n.isUnlinked

/-! ### Letting go -/

section LetGo

variable {t : Volume δ} {i : NodeId} {n : Node}

/-- The references to the nodes of the list can be dropped: a node that is then left without any,
and that is still to be written back, has a name that the warning about it can tell. -/
def Volume.LetsGo (t : Volume δ) (js : List NodeId) : Prop :=
  ∀ j ∈ js, ∀ n, t.heap j = some n → n.references = js.count j → j ≠ t.root →
    n.isDirty = true → n.Printable

/-- `exfat_put_node` on one node after the other. -/
def putNodes : List NodeId → TreeM δ PUnit
  | [] => pure ⟨⟩
  | j :: js => do
    exfatPutNode j
    putNodes js

omit [Device δ] in
/-- The warning about a node returns if it can tell the name. -/
theorem warning_returns_iff (n : Node) (t t' : Volume δ) :
    (do
      let _ ← onVolume (exfatGetName n)
      pure ⟨⟩ : TreeM δ PUnit) t = .ok ⟨⟩ t' ↔ t' = t ∧ n.Printable := by
  by_cases hname : n.Printable
  · obtain ⟨name, hname⟩ := hname
    rw [run_bind_ok (run_onVolume_ok (run_exfatGetName hname t.ef))]
    constructor
    · rintro ⟨⟩
      exact ⟨rfl, name, hname⟩
    · rintro ⟨rfl, -⟩
      rfl
  · constructor
    · intro hrun
      obtain ⟨_, _, hget, -⟩ := run_bind_eq_ok.1 hrun
      cases (run_onVolume_error (exfatGetName_stops hname t.ef)).symm.trans hget
    · rintro ⟨-, hname'⟩
      exact absurd hname' hname

omit [Device δ] in
/-- A reference that is there is dropped, unless the node cannot be named in the warning. -/
theorem exfatPutNode_returns_iff (hi : t.heap i = some n) (hr : 1 ≤ n.references) (t' : Volume δ) :
    exfatPutNode i t = .ok ⟨⟩ t' ↔
      t' = t.store i ⟨t.ef, { n with references := n.references - 1 }⟩ ∧
        (n.references = 1 → i ≠ t.root → n.isDirty = true → n.Printable) := by
  unfold exfatPutNode
  rw [run_bind_ok (run_updateNode hi _), run_bind_ok (run_getNode (store_heap_self t i _)),
    run_bind_ok (run_get _), if_neg (by simp only; omega)]
  split
  next hwarn =>
    -- the last reference to a dirty node
    obtain ⟨hzero, hne, hdirty⟩ := hwarn
    dsimp only at hzero hne hdirty
    refine (warning_returns_iff _ _ _).trans (and_congr_right fun _ => ?_)
    exact ⟨fun hname _ _ _ => hname, fun hname => hname (by omega) hne hdirty⟩
  next hquiet =>
    constructor
    · rintro ⟨⟩
      refine ⟨rfl, fun hone hne hdirty => absurd ⟨?_, hne, hdirty⟩ hquiet⟩
      dsimp only
      omega
    · rintro ⟨rfl, -⟩
      rfl

omit [Device δ] in
/-- What the first of the references needs, and the others after it. -/
theorem letsGo_cons_iff {j : NodeId} {js : List NodeId} (hn : t.heap j = some n)
    (hr : (js.count j : Int) + 1 ≤ n.references) :
    t.LetsGo (j :: js) ↔ (n.references = 1 → j ≠ t.root → n.isDirty = true → n.Printable) ∧
      (t.store j ⟨t.ef, { n with references := n.references - 1 }⟩).LetsGo js := by
  have hcount : (j :: js).count j = js.count j + 1 := List.count_cons_self
  have hother : ∀ {k}, k ≠ j → (j :: js).count k = js.count k :=
    fun hne => List.count_cons_of_ne (Ne.symm hne)
  have hself := store_heap_self t j ⟨t.ef, { n with references := n.references - 1 }⟩
  constructor
  · intro h
    refine ⟨fun hone => h j (.head _) n hn (by omega), fun k hk m hm hlast => ?_⟩
    by_cases hne : k = j
    · subst hne
      cases hself.symm.trans hm
      exact h k (.head _) n hn (by dsimp only at hlast; omega)
    · rw [store_heap_of_ne _ hne] at hm
      exact h k (.tail _ hk) m hm (by rw [hother hne, hlast])
  · rintro ⟨hfirst, hrest⟩ k hk m hm hlast
    by_cases hne : k = j
    · subst hne
      cases hn.symm.trans hm
      by_cases hmem : k ∈ js
      · exact hrest k hmem { n with references := n.references - 1 } hself (by dsimp only; omega)
      · exact hfirst (by rw [hlast, hcount, List.count_eq_zero.2 hmem]; rfl)
    · have hk := (List.mem_cons.1 hk).resolve_left hne
      rw [hother hne] at hlast
      exact hrest k hk m ((store_heap_of_ne _ hne).trans hm) hlast

omit [Device δ] in
/-- References that are there are dropped, unless a node that loses its last one cannot be named. -/
theorem putNodes_returns_iff {js : List NodeId} (hrefs : ∀ j ∈ js, (js.count j : Int) ≤ t.refs j) :
    (∃ t', putNodes js t = .ok ⟨⟩ t') ↔ t.LetsGo js := by
  -- On the list.  A node may be in it more than once, so its references are counted.
  induction js generalizing t with
  | nil =>
    have hnone : t.LetsGo [] := fun j hj => by cases hj
    exact iff_of_true ⟨t, rfl⟩ hnone
  | cons j js ih =>
    have hj := hrefs j (.head _)
    rw [List.count_cons_self] at hj
    obtain ⟨n, hn⟩ : ∃ n, t.heap j = some n := by
      cases hn : t.heap j with
      | none =>
        unfold Volume.refs at hj
        rw [hn, Option.map_none, Option.getD_none] at hj
        omega
      | some n => exact ⟨n, rfl⟩
    rw [Volume.refs_of_heap hn] at hj
    push_cast at hj
    -- the others have the references they had
    have hrefs₁ : ∀ k ∈ js, (js.count k : Int) ≤
        (t.store j ⟨t.ef, { n with references := n.references - 1 }⟩).refs k := by
      intro k hk
      by_cases hne : k = j
      · subst hne
        rw [Volume.refs_store_self]
        dsimp only
        omega
      · have hle := hrefs k (.tail _ hk)
        rw [List.count_cons_of_ne (Ne.symm hne)] at hle
        rw [Volume.refs_store_of_ne _ _ hne]
        exact hle
    -- the first can be put if it is named, or is not the last reference to a dirty node
    rw [letsGo_cons_iff hn hj, ← ih hrefs₁]
    have hput := exfatPutNode_returns_iff hn (t := t) (by omega)
    constructor
    · rintro ⟨t', hrun⟩
      obtain ⟨_, t₁, hfirst, hrest⟩ := run_bind_eq_ok.1 hrun
      obtain ⟨rfl, hname⟩ := (hput t₁).1 hfirst
      exact ⟨hname, t', hrest⟩
    · rintro ⟨hname, t', hrest⟩
      exact ⟨t', run_bind_eq_ok.2 ⟨_, _, (hput _).2 ⟨rfl, hname⟩, hrest⟩⟩

end LetGo

/-- `exfat_rename` lets go of the target `e` without removing it: it refuses a target in the
directory that is renamed, and a source that is the target keeps its node.  In the first case the
three references that it holds can be dropped; in the second the rest of the routine returns. -/
def SparesTarget (dir i e : NodeId) (name : List Nat) (t : Volume δ) : Prop :=
  (targetBelow dir i t = .ok true t ∧ t.LetsGo [e, dir, i]) ∨
    (targetBelow dir i t = .ok false t ∧ e = i ∧ ∃ rc t', (do
        exfatPutNode e
        renameInto dir i name) t = .ok rc t')

/-! ### The target -/

/-- A node that is referred to cannot be cleaned up. -/
theorem wp_exfatCleanupNode_refs {e : NodeId} {t : Volume δ} (he : 0 < t.refs e) :
    wp (exfatCleanupNode e) (fun _ _ => False) anyStop t := by
  unfold exfatCleanupNode
  rw [wp_bind]
  refine wp_getNode trivial fun n hn => ?_
  unfold Volume.refs at he
  rw [hn, Option.map_some, Option.getD_some] at he
  rw [if_pos (by omega)]
  exact trivial

/-- Removing a target to which something else refers does not return. -/
theorem wp_removeTarget_refs {i e : NodeId} {t : Volume δ} (ht : t.Bounded) (he : 1 < t.refs e) :
    wp (removeTarget i e) (fun _ _ => False) anyStop t := by
  unfold removeTarget
  rw [wp_bind]
  refine wp_mono (refs_unlinkTarget i e t ht) ?_ (fun _ _ _ => trivial)
  intro rc t₁ h₁
  rw [wp_bind]
  refine wp_mono (refs_exfatPutNode e t₁ h₁.bounded) ?_ (fun _ _ _ => trivial)
  intro _ t₂ h₂
  have hrefs : 0 < t₂.refs e := by
    rw [h₂.refs, h₁.refs]
    simp [one]
    omega
  cases rc with
  | error x =>
    dsimp only
    rw [wp_bind]
    exact wp_conseq (wp_exfatCleanupNode_refs hrefs) fun _ _ hf => hf.elim
  | ok _ => exact wp_exfatCleanupNode_refs hrefs

/-- What is left of `exfat_rename` when both paths have been followed. -/
def renameFound (i dir : NodeId) (existing : Option NodeId) (name : List Nat) : TreeM δ Rc := do
  -- a directory cannot be moved below itself
  if ← targetBelow dir i then do
    match existing with
    | none => pure ⟨⟩
    | some e => exfatPutNode e
    putBoth dir i
    pure (.error .einval)
  else
    match existing with
    | none => renameInto dir i name
    | some e =>
      -- the name is that of the node itself, so nothing is to be removed
      if e = i then do
        exfatPutNode e
        renameInto dir i name
      else do
        -- the target has to go first
        match ← removeTarget i e with
        | .error e => do
          putBoth dir i
          pure (.error e)
        | .ok _ => renameInto dir i name

/-- `exfat_rename` when both paths have been resolved. -/
theorem run_exfatRename {p q : List UInt8} {i : NodeId} {s : Split} {t t₁ t₂ : Volume δ}
    (hlookup : exfatLookup p t = .ok (.ok i) t₁) (hsplit : exfatSplit q t₁ = .ok (.ok s) t₂) :
    exfatRename p q t = renameFound i s.parent s.node s.name t₂ := by
  unfold exfatRename
  rw [run_bind_ok hlookup]
  dsimp only
  rw [run_bind_ok hsplit]
  rfl

omit [Device δ] in
/-- Looking for the target below the source changes nothing. -/
theorem same_targetBelow (dir i : NodeId) : Keeps Volume.Same (targetBelow (δ := δ) dir i) := by
  have hancestor : ∀ fuel p, Keeps Volume.Same (isAncestor (δ := δ) i fuel p) := by
    intro fuel
    induction fuel with
    | zero => exact fun _ => keeps_throw _
    | succ fuel ih =>
      refine fun p => keeps_ite (keeps_pure _) (keeps_bind (same_getNode p) fun n => ?_)
      cases n.parent with
      | none => exact keeps_pure _
      | some q => exact ih q
  exact keeps_bind (same_getNode i) fun n => keeps_look fun t =>
    keeps_ite (hancestor _ _) (keeps_pure _)

/-- With a target in use, `exfat_rename` returns exactly when it spares the target. -/
theorem renameFound_returns {i dir e : NodeId} {name : List Nat} {t : Volume δ} (ht : t.Bounded)
    (he : 1 < t.refs e) (hrefs : ∀ j, ([e, dir, i].count j : Int) ≤ t.refs j) :
    (∃ rc t', renameFound i dir (some e) name t = .ok rc t') ↔ SparesTarget dir i e name t := by
  have hputs : (∃ t', putNodes [e, dir, i] t = .ok ⟨⟩ t') ↔ t.LetsGo [e, dir, i] :=
    putNodes_returns_iff fun j _ => hrefs j
  unfold renameFound SparesTarget
  rw [← hputs]
  -- `LetsGo` covers the refused renaming; the others go by what the loop returns
  constructor
  · rintro ⟨rc, t', hrun⟩
    obtain ⟨below, t₁, hbelow, hrun⟩ := run_bind_eq_ok.1 hrun
    obtain rfl : t₁ = t := (same_targetBelow dir i).ok hbelow
    -- below itself: `EINVAL`, with all three references given back
    cases below with
    | true =>
      obtain ⟨_, t₂, hput, hrun⟩ := run_bind_eq_ok.1 hrun
      obtain ⟨_, t₃, hboth, -⟩ := run_bind_eq_ok.1 hrun
      obtain ⟨_, t₄, hdir, hi⟩ := run_bind_eq_ok.1 hboth
      have hlast : putNodes [i] t₄ = .ok ⟨⟩ t₃ := run_bind_eq_ok.2 ⟨_, t₃, hi, rfl⟩
      have hrest : putNodes [dir, i] t₂ = .ok ⟨⟩ t₃ := run_bind_eq_ok.2 ⟨_, t₄, hdir, hlast⟩
      exact .inl ⟨hbelow, t₃, run_bind_eq_ok.2 ⟨_, t₂, hput, hrest⟩⟩
    -- not below itself: only the node's own name may be taken
    | false =>
      rw [if_neg (by decide)] at hrun
      dsimp only at hrun
      by_cases hei : e = i
      · rw [if_pos hei] at hrun
        exact .inr ⟨hbelow, hei, rc, t', hrun⟩
      -- another target is removed while it is in use: `exfat_bug`
      · rw [if_neg hei] at hrun
        obtain ⟨r, t₂, hremove, -⟩ := run_bind_eq_ok.1 hrun
        exact (wp_anyStop_iff.1 (wp_removeTarget_refs (i := i) ht he) _ _ hremove).elim
  · rintro (⟨hbelow, t₃, hrun⟩ | ⟨hbelow, hei, rc, t', hrun⟩)
    · obtain ⟨_, t₂, hput, hrest⟩ := run_bind_eq_ok.1 hrun
      obtain ⟨_, t₄, hdir, hlast⟩ := run_bind_eq_ok.1 hrest
      obtain ⟨_, t₅, hi, hend⟩ := run_bind_eq_ok.1 hlast
      have hboth : putBoth dir i t₂ = .ok ⟨⟩ t₅ := run_bind_eq_ok.2 ⟨_, t₄, hdir, hi⟩
      have hrefused : (do
          putBoth dir i
          pure (.error .einval) : TreeM δ Rc) t₂ = .ok (.error .einval) t₅ :=
        run_bind_eq_ok.2 ⟨_, t₅, hboth, rfl⟩
      exact ⟨_, t₅, run_bind_eq_ok.2 ⟨true, t, hbelow, run_bind_eq_ok.2 ⟨_, t₂, hput, hrefused⟩⟩⟩
    · refine ⟨rc, t', run_bind_eq_ok.2 ⟨false, t, hbelow, ?_⟩⟩
      rw [if_neg (by decide)]
      dsimp only
      rw [if_pos hei]
      exact hrun

/-- A target that is spared is where it was, like everything else. -/
theorem renameFound_stays {i dir e : NodeId} {name : List Nat} {t : Volume δ} (ht : t.Linked)
    (hspares : SparesTarget dir i e name t) :
    wp (renameFound i dir (some e) name) (fun _ t' => ∃ moved, t.Grown ∅ moved t') anyStop t := by
  unfold renameFound
  rcases hspares with ⟨hbelow, -⟩ | ⟨hbelow, hei, -⟩
  · have hputs : Tends (δ := δ) (Volume.Grown ∅ ∅) (do
        exfatPutNode e
        putBoth dir i
        pure (.error .einval) : TreeM δ Rc) :=
      Tends.skip (kin_exfatPutNode e) fun _ => Tends.skip (kin_putBoth dir i) fun _ => Tends.pure _
    rw [wp_bind]
    refine wp_of_ok hbelow ?_
    exact wp_conseq (hputs t ht) fun _ _ h => ⟨∅, h.2⟩
  · have hinto : Tends (Volume.Grown ∅ {i}) (do
        exfatPutNode (δ := δ) e
        renameInto dir i name) := Tends.skip (kin_exfatPutNode e) fun _ =>
          tends_renameInto dir i name
    rw [wp_bind]
    refine wp_of_ok hbelow ?_
    rw [if_neg (by decide)]
    dsimp only
    rw [if_pos hei]
    exact wp_conseq (hinto t ht) fun _ _ h => ⟨{i}, h.2⟩

/-! ### The packet -/

section Packet

variable {φ : Frame} {h h₁ h₂ : Handler δ} {src dst : Option LockId} {srcName dstName : Bstr}
  {p q : List UInt8}

/-- The packet returns when `exfat_rename` does, with the volume it leaves. -/
theorem servePacket_renameObject (hi : h.inhibited = false) (hro : h.fs.ef.ro = false)
    (hp : resolve src srcName h = .ok (some p) h₁) (hq : resolve dst dstName h₁ = .ok (some q) h₂)
    {t : Volume δ} :
    (∃ r h', servePacket (.renameObject src srcName dst dstName) h = .ok r h' ∧ h'.fs = t) ↔
      ∃ rc, exfatRename p q h.fs = .ok rc t := by
  obtain ⟨tr₁, rfl⟩ := wp_anyStop_iff.1 (wp_resolve_same src srcName h) _ _ hp
  -- resolving the two paths changes nothing but the trace
  obtain ⟨tr₂, rfl⟩ := wp_anyStop_iff.1 (wp_resolve_same dst dstName _) _ _ hq
  have hrest : servePacket (.renameObject src srcName dst dstName) h = (do
      match ← useFs (exfatRename p q) with
      | .error e => refuse (mapErrno e)
      | .ok _ => do
        scanInvalidateAll
        answer dosTrue none : HandlerM δ PacketReply) { h with trace := tr₂ } := by
    unfold servePacket
    rw [run_bind_ok (run_get h), if_neg (by simp [hi])]
    show doRenameObject src srcName dst dstName h = _
    unfold doRenameObject
    rw [run_bind_ok (run_get h), if_neg (by simp [hi, hro]), run_bind_ok hp]
    dsimp only
    exact run_bind_ok hq
  -- what follows the renaming returns and leaves the volume alone
  have hanswer : ∀ (rc : Rc) (h' : Handler δ), wp (match rc with
      | .error e => refuse (mapErrno e)
      | .ok _ => do
        scanInvalidateAll
        answer dosTrue none : HandlerM δ PacketReply) (fun _ h'' => h''.fs = h'.fs) never h' := by
    intro rc h'
    cases rc with
    | error e => exact rfl
    | ok _ =>
      dsimp only
      unfold scanInvalidateAll
      rw [wp_bind, wp_bind, wp_get]
      cases h'.volume with
      | none => exact rfl
      | some v => exact rfl
  rw [hrest]
  -- The packet returns if the renaming does, and the volume is the one the renaming leaves.
  constructor
  · rintro ⟨r, h', hrun, rfl⟩
    obtain ⟨rc, h₁, huse, hrun⟩ := run_bind_eq_ok.1 hrun
    refine ⟨rc, ?_⟩
    have hlast : h'.fs = h₁.fs := by
      obtain ⟨r', h'', hrun', hfs⟩ := wp_never_iff.1 (hanswer rc h₁)
      cases hrun.symm.trans hrun'
      exact hfs
    have hrename : wp (useFs (exfatRename p q)) (fun rc h'' => exfatRename p q h.fs = .ok rc h''.fs)
        anyStop { h with trace := tr₂ } :=
      wp_useFs (wp_conseq (wp_run (wp_of_forall (fun _ _ => trivial) fun _ _ => trivial))
        fun _ _ hr => hr.1)
    rw [hlast]
    exact wp_anyStop_iff.1 hrename rc h₁ huse
  · rintro ⟨rc, hrun⟩
    obtain ⟨r, h', hrun', hfs⟩ := wp_never_iff.1 (hanswer rc _)
    exact ⟨r, h', run_bind_eq_ok.2 ⟨rc, _, run_useFs (h := { h with trace := tr₂ }) hrun, hrun'⟩,
      hfs⟩

/-- The state between two packets on a volume that can be written. -/
theorem protects_of_grown (hb : h.Books φ 0) {pkt : Packet} {r : PacketReply} {h' : Handler δ}
    (hrun : servePacket pkt h = .ok r h') {moved : Set NodeId} (hg : h.fs.Grown ∅ moved h'.fs) :
    h.Protects pkt := by
  refine ⟨r, h', hrun, fun j hj => ?_⟩
  obtain ⟨n, hn⟩ := hb.inUse (fun _ => le_rfl) hj
  obtain ⟨k', hk', hu⟩ := hg.grown.stays (Volume.kin_of_heap hn) (Set.notMem_empty j)
  obtain ⟨n', hn', rfl⟩ := Option.map_eq_some_iff.1 hk'
  exact ⟨n, n', hn, hn', hu⟩

/-- `ACTION_RENAME_OBJECT` on a volume that is inhibited or read-only does nothing. -/
theorem servePacket_refused (hrefused : h.inhibited = true ∨ h.fs.ef.ro = true)
    (src : Option LockId) (srcName : Bstr) (dst : Option LockId) (dstName : Bstr) :
    ∃ r, servePacket (.renameObject src srcName dst dstName) h = .ok r h := by
  unfold servePacket
  rw [run_bind_ok (run_get h)]
  cases hi : h.inhibited with
  | true => exact ⟨_, rfl⟩
  | false =>
    have hro : h.fs.ef.ro = true := hrefused.resolve_left (by simp [hi])
    show ∃ r, doRenameObject src srcName dst dstName h = .ok r h
    unfold doRenameObject
    rw [run_bind_ok (run_get h), if_pos (Or.inr hro)]
    exact ⟨_, rfl⟩

/-- A path that means nothing is refused, and the volume is left alone. -/
theorem servePacket_unresolved (hi : h.inhibited = false) (hro : h.fs.ef.ro = false)
    (hnone : resolve src srcName h = .ok none h₁ ∨
      resolve src srcName h = .ok (some p) h₁ ∧ resolve dst dstName h₁ = .ok none h₂) :
    ∃ r h', servePacket (.renameObject src srcName dst dstName) h = .ok r h' ∧ h'.fs = h.fs := by
  have hrest : ∀ r h', doRenameObject src srcName dst dstName h = .ok r h' →
      servePacket (.renameObject src srcName dst dstName) h = .ok r h' := by
    intro r h' hrun
    unfold servePacket
    rw [run_bind_ok (run_get h), if_neg (by simp [hi])]
    exact hrun
  unfold doRenameObject at hrest
  rw [run_bind_ok (run_get h), if_neg (by simp [hi, hro])] at hrest
  rcases hnone with hp | ⟨hp, hq⟩
  · rw [run_bind_ok hp] at hrest
    obtain ⟨tr, rfl⟩ := wp_anyStop_iff.1 (wp_resolve_same src srcName h) _ _ hp
    exact ⟨_, _, hrest _ _ rfl, rfl⟩
  · rw [run_bind_ok hp] at hrest
    dsimp only at hrest
    rw [run_bind_ok hq] at hrest
    obtain ⟨tr₁, rfl⟩ := wp_anyStop_iff.1 (wp_resolve_same src srcName h) _ _ hp
    obtain ⟨tr₂, rfl⟩ := wp_anyStop_iff.1 (wp_resolve_same dst dstName _) _ _ hq
    exact ⟨_, _, hrest _ _ rfl, rfl⟩

/-- A target in use has another reference besides the one `exfat_split` has taken, and every
reference that `exfat_rename` has taken is there. -/
theorem target_refs (hb : h.Books φ 0) {i dir e : NodeId} {name : List Nat} {t₁ t₂ : Volume δ}
    (hlookup : exfatLookup p h.fs = .ok (.ok i) t₁)
    (hsplit : exfatSplit q t₁ = .ok (.ok ⟨dir, some e, name⟩) t₂) (he : h.InUse e) :
    t₂.Bounded ∧ 1 < t₂.refs e ∧ ∀ j, ([e, dir, i].count j : Int) ≤ t₂.refs j := by
  -- the two lookups have taken three references on top of what is held
  have h₁ := wp_anyStop_iff.1 (refs_exfatLookup p h.fs hb.bounded) _ _ hlookup
  have h₂ := wp_anyStop_iff.1 (refs_exfatSplit q t₁ h₁.bounded) _ _ hsplit
  have hone : ∀ j k : NodeId, 0 ≤ one j k := by
    intro j k
    unfold one
    split <;> decide
  have hrefs : ∀ j, t₂.refs j = h.held j + one i j + (one dir j + one e j) := by
    intro j
    rw [h₂.refs, h₁.refs, hb.refs, Pi.zero_apply, add_zero]
    rfl
  have hcount : ∀ j, ([e, dir, i].count j : Int) = one e j + one dir j + one i j := by
    intro j
    unfold one
    simp only [List.count_cons, List.count_nil, beq_iff_eq, @eq_comm _ j]
    push_cast
    ring
  have hheld : ∀ j, 0 ≤ h.held j := by
    intro j
    have hroot := hone h.fs.root j
    unfold Handler.held
    omega
  refine ⟨h₂.bounded, ?_, fun j => ?_⟩
  -- the target is in use, so it has one more
  · have hself : one e e = 1 := if_pos rfl
    have hi := hone i e
    have hdir := hone dir e
    have hroot := hone h.fs.root e
    rw [hrefs, hself]
    unfold Handler.InUse at he
    unfold Handler.held
    omega
  · rw [hrefs, hcount]
    have hj := hheld j
    omega

end Packet

/-- In every state the handler can reach, a renaming onto an object in use is answered, with
everything that is in use left in its place, exactly when `exfat_rename` spares the target; one that
is refused, one of whose paths means nothing, or whose source is not found, is answered too. -/
theorem renameObject_protects {ef : Ef δ} {outside : Outside δ} {ps : List Packet}
    {rs : List PacketReply} {h₀ h : Handler δ}
    (hstart : startup (Handler.start ef outside) = .ok true h₀)
    (hreach : serveBatch ps h₀ = .ok rs h) (src : Option LockId) (srcName : Bstr)
    (dst : Option LockId) (dstName : Bstr) :
    (h.inhibited = true ∨ h.fs.ef.ro = true → h.Protects (.renameObject src srcName dst dstName)) ∧
    (h.inhibited = false → h.fs.ef.ro = false → (∀ p h₁ h₂, resolve src srcName h = .ok none h₁ ∨
          resolve src srcName h = .ok (some p) h₁ ∧ resolve dst dstName h₁ = .ok none h₂ →
        h.Protects (.renameObject src srcName dst dstName)) ∧
      ∀ p q h₁ h₂, resolve src srcName h = .ok (some p) h₁ →
        resolve dst dstName h₁ = .ok (some q) h₂ →
        (∀ x t₁, exfatLookup p h.fs = .ok (.error x) t₁ →
          h.Protects (.renameObject src srcName dst dstName)) ∧
        ∀ i t₁ dir e name t₂, exfatLookup p h.fs = .ok (.ok i) t₁ →
          exfatSplit q t₁ = .ok (.ok ⟨dir, some e, name⟩) t₂ → h.InUse e →
          (h.Protects (.renameObject src srcName dst dstName) ↔ SparesTarget dir i e name t₂)) := by
  -- the handler has been started, and has served packets
  have hstartup : wp startup (fun ok h => h.Watched False ∧ if ok then h.Ledger false else h.Empty)
      anyStop (Handler.start ef outside) := wp_startup_watched ef outside
  obtain ⟨hw₀, hl₀⟩ := wp_anyStop_iff.1 hstartup true h₀ hstart
  obtain ⟨hl, hw⟩ := wp_anyStop_iff.1 (wp_serveBatch_watched ps hl₀ hw₀ False.elim) rs h hreach
  -- a handler that is not inhibited has a volume
  have hopen : h.inhibited = false → h.Books ⟨h.quit, h.inhibited, false⟩ 0 ∧ h.fs.Linked := by
    intro hi
    obtain hb | ⟨-, hi'⟩ := hl
    · exact ⟨hb, (hw hb.mounted).linked⟩
    · exact absurd (hi.symm.trans hi') (by decide)
  -- Refused, not resolved, not found, or carried out.
  refine ⟨fun hrefused => ?_, fun hi hro => ⟨fun p h₁ h₂ hnone => ?_, fun p q h₁ h₂ hp hq =>
    ⟨fun x t₁ hlookup => ?_, fun i t₁ dir e name t₂ hlookup hsplit he => ?_⟩⟩⟩
  -- a refused packet changes nothing; without a volume nothing is in use
  · obtain ⟨r, hrun⟩ := servePacket_refused hrefused src srcName dst dstName
    obtain hb | ⟨he, -⟩ := hl
    · exact protects_of_grown hb hrun (TreeRel.refl (R := Volume.Grown ∅ ∅) h.fs)
    · refine ⟨r, h, hrun, fun j hj => ?_⟩
      unfold Handler.InUse at hj
      rw [Table.count_eq_zero he.locks, Table.count_eq_zero he.files] at hj
      cases hj
  -- a path that means nothing: the packet is answered before the volume is touched
  · obtain ⟨hb, -⟩ := hopen hi
    obtain ⟨r, h', hrun, hfs⟩ := servePacket_unresolved hi hro hnone
    have hgrown : h.fs.Grown ∅ ∅ h'.fs := hfs ▸ TreeRel.refl (R := Volume.Grown ∅ ∅) h.fs
    exact protects_of_grown hb hrun hgrown
  -- the source is not found: only directories have been read
  · obtain ⟨hb, ht⟩ := hopen hi
    have hrename : exfatRename p q h.fs = .ok (.error x) t₁ := by
      unfold exfatRename
      rw [run_bind_ok hlookup]
      rfl
    obtain ⟨r, h', hrun, rfl⟩ := (servePacket_renameObject hi hro hp hq).2 ⟨_, hrename⟩
    have hgrown :=
      wp_anyStop_iff.1 (tends_exfatLookup (R := Volume.Grown ∅ ∅) p h.fs ht) _ _ hlookup
    exact protects_of_grown hb hrun hgrown.2
  -- both paths mean something, and the target is in use
  · obtain ⟨hb, ht⟩ := hopen hi
    have hrename : exfatRename p q h.fs = renameFound i dir (some e) name t₂ :=
      run_exfatRename hlookup hsplit
    obtain ⟨hbounded, htwo, hrefs⟩ := target_refs hb hlookup hsplit he
    have hreturns : (∃ rc t', renameFound i dir (some e) name t₂ = .ok rc t') ↔
        SparesTarget dir i e name t₂ := renameFound_returns hbounded htwo hrefs
    constructor
    · rintro ⟨r, h', hrun, -⟩
      obtain ⟨rc, hrc⟩ := (servePacket_renameObject hi hro hp hq).1 ⟨r, h', hrun, rfl⟩
      exact hreturns.1 ⟨rc, h'.fs, hrename.symm.trans hrc⟩
    -- sparing the target, it moves only the node itself
    · intro hspares
      obtain ⟨ht₁, h₁⟩ :=
        wp_anyStop_iff.1 (tends_exfatLookup (R := Volume.Grown ∅ ∅) p h.fs ht) _ _ hlookup
      obtain ⟨ht₂, h₂⟩ :=
        wp_anyStop_iff.1 (tends_exfatSplit (R := Volume.Grown ∅ ∅) q t₁ ht₁) _ _ hsplit
      obtain ⟨rc, t, hrc⟩ := hreturns.2 hspares
      obtain ⟨moved, hstay⟩ := wp_anyStop_iff.1 (renameFound_stays ht₂ hspares) _ _ hrc
      obtain ⟨r, h', hrun, rfl⟩ := (servePacket_renameObject hi hro hp hq).2 ⟨rc, hrename.trans hrc⟩
      have hgrown : h.fs.Grown ∅ moved t₂ :=
        (h₁.trans ht h₂).mono subset_rfl (Set.empty_subset _)
      exact protects_of_grown hb hrun (hgrown.trans ht hstay)

/-! ### On the card -/

/-- A file is made and closed, and a lock is taken on it. -/
def lockA : List Packet := [.find .new true none nameA, .endFile (some 1), .locateObject none nameA]

/-- The card with a lock on a. -/
def lockedA : Handler Flat := finalState (serveBatch lockA cardReady)

/-- A locked file can be given the name it has: the target is the file itself. -/
theorem renameObject_protects_card :
    startup cardStart = .ok true cardReady ∧ lockedA.InUse 1 ∧
      lockedA.Protects (.renameObject none nameA none nameA) := by
  have hbatch := eq_of_valueOf (r := serveBatch lockA cardReady)
    (Option.some_get (by decide +kernel)).symm
  have huse : lockedA.InUse 1 := by
    unfold Handler.InUse
    decide +kernel
  have hp := eq_of_valueOf (r := resolve none nameA lockedA) (a := some [slash, 0x61])
    (by decide +kernel)
  have hq := eq_of_valueOf (r := resolve none nameA (finalState (resolve none nameA lockedA)))
    (a := some [slash, 0x61]) (by decide +kernel)
  have hlookup := eq_of_valueOf (r := exfatLookup [slash, 0x61] lockedA.fs)
    (a := .ok 1) (by decide +kernel)
  have hsplit := eq_of_valueOf
    (r := exfatSplit [slash, 0x61] (finalState (exfatLookup [slash, 0x61] lockedA.fs)))
    (a := .ok ⟨0, some 1, [0x61]⟩) (by decide +kernel)
  refine ⟨startup_cardStart, huse, ?_⟩
  let t := finalState (exfatSplit [slash, 0x61] (finalState (exfatLookup [slash, 0x61] lockedA.fs)))
  have hiff := (((renameObject_protects startup_cardStart hbatch none nameA none nameA).2
    (by decide +kernel) (by decide +kernel)).2 _ _ _ _ hp hq).2 _ _ _ _ _ _ hlookup hsplit huse
  have hbelow := eq_of_valueOf (r := targetBelow 0 1 t) (a := false) (by decide +kernel)
  rw [(same_targetBelow 0 1).ok hbelow] at hbelow
  have hinto := eq_of_valueOf (r := (do
    exfatPutNode 1
    renameInto 0 1 [0x61]) t) (Option.some_get (by decide +kernel)).symm
  exact hiff.2 (.inr ⟨hbelow, rfl, _, _, hinto⟩)

/-- Two files are made and closed, and a lock is taken on the second. -/
def lockB : List Packet :=
  [.find .new true none nameA, .endFile (some 1), .find .new true none nameB, .endFile (some 2),
    .locateObject none nameB]

/-- The card with a lock on b. -/
def lockedB : Handler Flat := finalState (serveBatch lockB cardReady)

/-- Renaming a file onto a locked one ends in `exfat_bug`. -/
theorem renameObject_not_protects :
    serveFrom lockB cardStart = .ok ⟨⟩ lockedB ∧ lockedB.InUse 2 ∧
      valueOf (exfatLookup [slash, 0x62] lockedB.fs) = some (.ok 2) ∧
      ¬ lockedB.Protects (.renameObject none nameA none nameB) := by
  have hbatch := eq_of_valueOf (r := serveBatch lockB cardReady)
    (Option.some_get (by decide +kernel)).symm
  refine ⟨run_serveFrom startup_cardStart hbatch, ?_, by decide +kernel, ?_⟩
  · unfold Handler.InUse
    decide +kernel
  · have hstop : (valueOf (servePacket (.renameObject none nameA none nameB) lockedB)).isNone =
        true := by
      decide +kernel
    rintro ⟨r, h', hrun, -⟩
    rw [hrun] at hstop
    cases hstop

end ExFat
