import ExFat.Session.Listing
import ExFat.Session.Quiet
import ExFat.Tools.Check

namespace ExFat

open Program Bytes

/-!
# The verdict of the check

`exfatfsck` returns 0 when nothing has been said.  Then the clusters of whatever `exfat_lookup`
finds exist and are marked in the bitmap (`fsck_sound`).

The tool goes down by paths.  A directory is entered by the name that is listed for it, and this
leads to the first child of that name, so that of two directories of one name one is checked twice
and the other not at all.  No lookup finds the other one either, which is why the verdict is about
paths and not about the nodes in memory.

* `Volume.Leads`: where a path leads by directories that have been read.
* `Volume.Checked`: the clusters of a node are in order, and so are those of whatever is found below
  it.
* `dirck_checked`: `dirck` without a message has checked where its path leads to.
* `lookupPath_checked`: a lookup from a node that has been checked ends at one.

Three things are left out.  A character that is folded like a slash, a dot or the terminator
(`Separates`) and a path that spells a slash with more bytes than it needs can name a child that
cannot be listed.  A directory with the entry of a bitmap of its own (`Volume.Plain`) replaces the
bitmap that the nodes before it have been compared with.
-/

variable {δ : Type}

/-! ### Where paths lead -/

/-- The path leads from the directory `d` to the node `i`, by directories that have been read. -/
inductive Volume.Leads (t : Volume δ) : NodeId → List UInt8 → NodeId → Prop
  | done {d : NodeId} {path : List UInt8} (h : (getComp path).1.isEmpty = true) : Leads t d path d
  | stay {d i : NodeId} {path : List UInt8} (h : (getComp path).1 = [dot])
    (hrest : Leads t d (getComp path).2 i) : Leads t d path i
  | step {d c i : NodeId} {path : List UInt8} {name : List Nat}
    (hne : ¬ (getComp path).1.isEmpty = true) (hdot : (getComp path).1 ≠ [dot])
    (hname : exfatUtf8ToUtf16 (getComp path).1 (nameMax + 1) = .ok name)
    (hfinds : t.Finds d name (some c)) (hrest : Leads t c (getComp path).2 i) : Leads t d path i

section Leads

variable {t t' : Volume δ} {d e i : NodeId} {p q : List UInt8} {name : List Nat}

/-- A name means one node. -/
theorem Volume.Finds.unique {o o' : Option NodeId} (h : t.Finds d name o) (h' : t.Finds d name o') :
    o = o' := by
  obtain ⟨k, u, hk, -, hu, rfl⟩ := h
  obtain ⟨k', u', hk', -, hu', rfl⟩ := h'
  cases hk.symm.trans hk'
  cases hu.symm.trans hu'
  rfl

/-- Names that fold to the same are found at the same place. -/
theorem Volume.Finds.fold {u : Nat → Nat} {name' : List Nat} {o : Option NodeId} (hu : Folds u)
    (hup : t.ef.upcase = some u) (hfold : foldName u name = foldName u name')
    (h : t.Finds d name o) : t.Finds d name' o := by
  obtain ⟨k, u', hk, hc, hu', rfl⟩ := h
  cases hup.symm.trans hu'
  refine ⟨k, u, hk, hc, hup, ?_⟩
  -- names are compared by what they are folded to
  have hsame : ∀ n, compareName u name n = compareName u name' n := by
    intro n
    rw [Bool.eq_iff_iff, compareName_iff hu, compareName_iff hu, hfold]
  simp only [hsame]

/-- A path leads where it led when directories are read. -/
theorem Volume.Leads.read (h : t.Leads d p i) (ht : t.Linked) (hread : t.Read t') :
    t'.Leads d p i := by
  induction h with
  | done h => exact .done h
  | stay h _ ih => exact .stay h ih
  | step hne hdot hname hfinds _ ih => exact .step hne hdot hname (hfinds.read ht hread) ih

/-- Only the components of a path matter. -/
theorem Volume.Leads.congr (h : t.Leads d p i) (hpq : getComp p = getComp q) : t.Leads d q i := by
  cases h with
  | done h => exact .done (hpq ▸ h)
  | stay h hrest => exact .stay (hpq ▸ h) (hpq ▸ hrest)
  | step hne hdot hname hfinds hrest =>
    rw [hpq] at hne hdot hname hrest
    exact .step hne hdot hname hfinds hrest

/-- What is left of a path leads on from where its beginning leads to. -/
theorem Volume.Leads.rest (h : t.Leads d p e) (h' : t.Leads d (p ++ slash :: q) i) :
    t.Leads e q i := by
  -- both paths have the components of the shorter one in common, so the second goes where the
  -- first went
  induction h with
  | done h => exact h'.congr (getComp_append_of_empty h)
  | stay h _ ih =>
    have hne := h ▸ (by decide : ¬ [dot].isEmpty = true)
    have hcomp := getComp_append (q := q) hne
    cases h' with
    | done h'' =>
      rw [hcomp] at h''
      exact absurd h'' hne
    | stay _ hrest =>
      rw [hcomp] at hrest
      exact ih hrest
    | step _ hdot =>
      rw [hcomp] at hdot
      exact absurd h hdot
  | step hne hdot hname hfinds _ ih =>
    have hcomp := getComp_append (q := q) hne
    cases h' with
    | done h'' =>
      rw [hcomp] at h''
      exact absurd h'' hne
    | stay h'' _ =>
      rw [hcomp] at h''
      exact absurd h'' hdot
    | step _ _ hname' hfinds' hrest =>
      rw [hcomp] at hname' hrest
      cases hname.symm.trans hname'
      cases hfinds.unique hfinds'
      exact ih hrest

end Leads

section Lookup

variable {u : Nat → Nat} {t t' : Volume Flat} {d i : NodeId} {path : List UInt8}

/-- A lookup that returns has gone where the path leads. -/
theorem leads_of_lookupPath (fuel : Nat) {m : Nat} (ht : t.Steady u) (hd : t.Depth d m)
    (hlen : path.length ≤ fuel) (hrun : lookupPath fuel d path t = .ok (.ok i) t')
    (he : t'.ef.errors = t.ef.errors) : t'.Leads d path i := by
  -- on the fuel, which a path is no longer than
  induction fuel generalizing d path m t with
  | zero =>
    obtain rfl := List.eq_nil_of_length_eq_zero (Nat.le_zero.1 hlen)
    cases hrun
    exact .done rfl
  | succ fuel ih =>
    -- the path is at its end
    by_cases hcomp : (getComp path).1.isEmpty = true
    · rw [lookupPath_empty hcomp] at hrun
      cases hrun
      exact .done hcomp
    have hlt := length_getComp_lt hcomp
    rw [lookupPath] at hrun
    dsimp only at hrun
    rw [if_neg hcomp] at hrun
    split at hrun
    next hdot => exact .stay hdot (ih ht hd (by omega) hrun he)
    next hdot =>
    obtain ⟨r, t₁, hname, hrun⟩ := run_bind_eq_ok.1 hrun
    -- the name is not found, or it leads to `c`
    cases r with
    | error e =>
      obtain ⟨_, _, -, hrun⟩ := run_bind_eq_ok.1 hrun
      cases hrun
    | ok c =>
      obtain ⟨_, t₂, hput, hrun⟩ := run_bind_eq_ok.1 hrun
      have h₁ := ((hushed_looks (u := u)).lookupName d _).ok hname
      have h₂ := (hushed_exfatPutNode (u := u) d).ok hput
      have h₃ := ((hushed_looks (u := u)).lookupPath fuel c _).ok hrun
      have hle₁ := h₁.le
      have hle₂ := h₂.le
      have hle₃ := h₃.le
      obtain ⟨ht₁, hb₁⟩ := h₁.quiet (by omega) ht
      obtain ⟨ht₂, hb₂⟩ := h₂.quiet (by omega) ht₁
      obtain ⟨ht₃, hb₃⟩ := h₃.quiet (by omega) ht₂
      -- what has been found under the component is still found when the lookup returns
      have hlooked := wp_anyStop_iff.1 (wp_lookupName ht.linked hd) _ _ hname
      obtain ⟨name, hconv, hfinds₁⟩ := hlooked.found rfl
      have hfinds₂ := hfinds₁.read ht₁.linked hb₂.read
      have hdepth : t₂.Depth c (m + 1) :=
        hfinds₂.depth ht₂.linked ((hb₁.trans ht.linked hb₂).read.toGrown.depth hd)
      have hrest := ih ht₂ hdepth (by omega) hrun (by omega)
      exact .step hcomp hdot hconv (hfinds₂.read ht₂.linked hb₃.read) hrest

/-- A path that is found without a message leads to the node. -/
theorem leads_of_exfatLookup (ht : t.Steady u) (hrun : exfatLookup path t = .ok (.ok i) t')
    (he : t'.ef.errors = t.ef.errors) : t'.Leads t'.root path i := by
  have hall := ((hushed_looks (u := u)).exfatLookup path).ok hrun
  obtain ⟨-, hb⟩ := hall.quiet he ht
  unfold exfatLookup at hrun
  obtain ⟨_, _, hget, hrun⟩ := run_bind_eq_ok.1 hrun
  cases hget
  obtain ⟨_, t₁, hroot, hrun⟩ := run_bind_eq_ok.1 hrun
  have h₁ := (hushed_exfatGetNode (u := u) t.root).ok hroot
  have h₂ := ((hushed_looks (u := u)).lookupPath path.length t.root path).ok hrun
  have hle₁ := h₁.le
  have hle₂ := h₂.le
  obtain ⟨ht₁, hb₁⟩ := h₁.quiet (by omega) ht
  rw [hb.read.root]
  exact leads_of_lookupPath path.length ht₁ (hb₁.read.toGrown.depth .root) le_rfl hrun (by omega)

end Lookup

/-! ### What has been checked -/

/-- A component of a path, by its characters. -/
structure IsComponent (sub : List Nat) : Prop where
  scalar : ∀ wc ∈ sub, Scalar wc
  noSlash : 0x2f ∉ sub
  nonempty : sub ≠ []
  notDot : spelling sub ≠ [dot]

/-- The clusters of the node are in order, and so are those of whatever a path leads to from it. -/
inductive Volume.Checked (t : Volume Flat) : NodeId → Prop
  | file {i : NodeId} {n : Node} (hi : t.heap i = some n) (hdir : n.isDir = false)
    (h : n.Allocated t.ef) : Checked t i
  | directory {i : NodeId} {n : Node} (hi : t.heap i = some n) (hdir : n.isDir = true)
    (hcached : n.isCached = true) (h : n.Allocated t.ef)
    (below : ∀ sub c, IsComponent sub → t.Finds i (unitString sub) (some c) → Checked t c) :
    Checked t i

section Checked

variable {u : Nat → Nat} {t t' : Volume Flat} {i : NodeId} {n : Node}

/-- A node stays allocated on a still volume. -/
theorem Node.Allocated.still {ef ef' : Ef Flat} {n' : Node} (h : n.Allocated ef)
    (hef : ef.Still ef') (hextent : n'.extent = n.extent) : n'.Allocated ef' := by
  unfold Node.extent at hextent
  simp only [Prod.mk.injEq] at hextent
  obtain ⟨hstart, hsize, hcontiguous⟩ := hextent
  unfold Ef.Still at hef
  unfold Node.Allocated Node.Holds at *
  rw [hstart, hsize, hcontiguous, hef]
  exact h

/-- A node keeps its extent, its kind and its name. -/
theorem Volume.Browsed.node (hb : t.Browsed t') (hi : t.heap i = some n) :
    ∃ n', t'.heap i = some n' ∧ n'.extent = n.extent ∧ n'.isDir = n.isDir ∧ n'.name = n.name := by
  obtain ⟨n', hi', hextent⟩ := hb.extent hi
  have hsame := hb.read.grown.same (Volume.kin_of_heap hi) (Volume.kin_of_heap hi')
    (Set.notMem_empty i)
  have hdir : n'.kin.isDir = n.kin.isDir := by rw [hsame]
  have hname : n'.kin.name = n.kin.name := by rw [hsame]
  exact ⟨n', hi', hextent, hdir, hname⟩

/-- A directory that had been read is as it was. -/
theorem Volume.Browsed.cached (hb : t.Browsed t') (hi : t.heap i = some n)
    (hc : n.isCached = true) :
    ∃ n', t'.heap i = some n' ∧ n'.extent = n.extent ∧ n'.kin = n.kin := by
  obtain ⟨n', hi', hextent, -⟩ := hb.node hi
  have hkept := hb.read.kept (Volume.kin_of_heap hi) hc
  exact ⟨n', hi', hextent, Option.some.inj ((Volume.kin_of_heap hi').symm.trans hkept)⟩

/-- In a directory that had been read nothing else is found later. -/
theorem Volume.Finds.back {name : List Nat} {o : Option NodeId} (h : t'.Finds i name o)
    (ht : t.Linked) (hb : t.Browsed t') (hi : t.heap i = some n) (hc : n.isCached = true) :
    t.Finds i name o := by
  have hup := h
  obtain ⟨-, u, -, -, hu, -⟩ := hup
  have hbefore : t.Finds i name (n.child.find? fun j => (t.kin j).any fun c =>
    compareName u name c.name) :=
    ⟨n.kin, u, Volume.kin_of_heap hi, hc, hb.ef.upcase.symm.trans hu, rfl⟩
  rw [(hbefore.read ht hb.read).unique h] at hbefore
  exact hbefore

/-- What has been checked stays checked. -/
theorem Volume.Checked.browsed (h : t.Checked i) (ht : t.Linked) (hb : t.Browsed t') :
    t'.Checked i := by
  induction h with
  | file hi hdir h =>
    obtain ⟨n', hi', hextent, hdir', -⟩ := hb.node hi
    exact .file hi' (hdir'.trans hdir) (h.still hb.ef hextent)
  | directory hi hdir hcached h _ ih =>
    -- the directory has been read, so that nothing is found in it that was not
    obtain ⟨n', hi', hextent, hkin⟩ := hb.cached hi hcached
    have hdir' := (congrArg Kin.isDir hkin).trans hdir
    have hcached' := (congrArg Kin.isCached hkin).trans hcached
    exact .directory hi' hdir' hcached' (h.still hb.ef hextent) fun sub c hsub hf =>
      ih sub c hsub (hf.back ht hb hi hcached)

end Checked

/-! ### The walk -/

section Walk

variable {u : Nat → Nat} {t t' : Volume Flat} {i : NodeId} {n : Node}
  {enter : List UInt8 → TreeM Flat Counts} {path : List UInt8} {counts : Counts}

/-- What `nodeck` does to the volume, and what it means when it has nothing to say. -/
theorem wp_onNode_nodeck (i : NodeId) (t : Volume Flat) :
    wp (onNode i nodeck) (fun rc t' => t.Hushed u t' ∧ (t'.ef.errors = t.ef.errors →
      rc = 0 ∧ t' = t ∧ ∀ n, t.heap i = some n → n.Allocated t.ef)) anyStop t := by
  cases hi : t.heap i with
  | none =>
    unfold wp onNode
    rw [hi]
    exact trivial
  | some n =>
    rw [wp_onNode hi]
    refine wp_conseq wp_nodeck ?_
    intro rc s h
    cases h with
    | good h =>
      have hsame : t.store i ⟨t.ef, n⟩ = t := by
        unfold Volume.store
        rw [Function.update_eq_self_iff.2 hi.symm]
      rw [hsame]
      refine ⟨refl_of (Volume.Hushed u) t, fun _ => ⟨rfl, rfl, ?_⟩⟩
      rintro _ ⟨⟩
      exact h
    | bad h hmore =>
      have hne := Nat.ne_of_gt hmore
      exact ⟨⟨Nat.le_of_lt hmore, fun he => absurd he hne⟩, fun he => absurd he hne⟩

/-- `nodeck` changes nothing unheard. -/
theorem hushed_nodeck (i : NodeId) : Yields (Volume.Hushed u) (onNode i (nodeck (δ := Flat))) :=
  fun t => wp_conseq (wp_onNode_nodeck i t) fun _ _ h => h.1

/-- Checking a child changes nothing unheard. -/
theorem hushed_checkChild (henter : ∀ path, Yields (Volume.Hushed u) (enter path))
    (path : List UInt8) (i : NodeId) : Yields (Volume.Hushed u) (checkChild enter path i) := by
  refine yields_bind (hushed_getNode i) fun n => yields_bind (hushed_getName n) fun name =>
    yields_ite ?_ ?_
  · exact yields_bind (henter _) fun _ => yields_pure _
  · exact yields_bind (hushed_nodeck i) fun _ => yields_pure _

/-- The loop of `dirck` changes nothing unheard. -/
theorem hushed_dirckLoop (henter : ∀ path, Yields (Volume.Hushed u) (enter path))
    (path : List UInt8) (is : List NodeId) :
    Yields (Volume.Hushed u) (dirckLoop enter path is) := by
  induction is with
  | nil => exact yields_pure _
  | cons i is ih =>
    refine yields_bind (hushed_exfatGetNode i) fun _ =>
      yields_bind (hushed_checkChild henter path i) fun here => ?_
    refine yields_bind (hushed_exfatFlushNode i) fun _ =>
      yields_bind (hushed_exfatPutNode i) fun _ => ?_
    exact yields_bind ih fun _ => yields_pure _

/-- `dirck` changes nothing unheard. -/
theorem hushed_dirckNode (henter : ∀ path, Yields (Volume.Hushed u) (enter path))
    (path : List UInt8) (parent : NodeId) :
    Yields (Volume.Hushed u) (dirckNode enter path parent) := by
  refine yields_bind (hushed_getNode parent) fun p => yields_ite (yields_throw _) ?_
  refine yields_bind (hushed_nodeck parent) fun rc => yields_ite ?_ ?_
  · exact yields_bind (hushed_exfatPutNode parent) fun _ => yields_pure _
  refine yields_bind hushed_mallocOk fun ok => yields_ite ?_ ?_
  · exact yields_bind (hushed_exfatPutNode parent) fun _ => yields_bind (hushed_exfatError _)
      fun _ => yields_pure _
  refine yields_bind (hushed_looks.exfatOpendir parent) fun r => ?_
  cases r with
  | error e => exact yields_bind (hushed_exfatPutNode parent) fun _ => yields_pure _
  | ok _ =>
    refine yields_bind (hushed_getNode parent) fun p => ?_
    refine yields_bind (hushed_dirckLoop henter path p.child) fun counts => ?_
    refine yields_bind (hushed_exfatPutNode parent) fun _ =>
      yields_bind (hushed_exfatFlushNode parent) fun _ => ?_
    exact yields_bind (hushed_exfatPutNode parent) fun _ => yields_pure _

/-- `dirck` changes nothing unheard. -/
theorem hushed_dirck (fuel : Nat) (path : List UInt8) :
    Yields (Volume.Hushed u) (dirck (δ := Flat) fuel path) := by
  induction fuel generalizing path with
  | zero => exact yields_throw _
  | succ fuel ih =>
    refine yields_bind (hushed_looks.exfatLookup path) fun r => ?_
    cases r with
    | error e => exact yields_throw _
    | ok parent => exact hushed_dirckNode ih path parent

/-! ### A walk that says nothing -/

/-- What is known when `dirck` has come back from a directory without a message. -/
def Inspects (u : Nat → Nat) (enter : List UInt8 → TreeM Flat Counts) : Prop :=
  ∀ path t counts t', t.Steady u → enter path t = .ok counts t' → t'.ef.errors = t.ef.errors →
    ∃ i, t'.Leads t'.root path i ∧ t'.Checked i

/-- What is known of a child: a file is in order, and so is the directory that the name leads to. -/
def Volume.ChildChecked (t : Volume Flat) (path : List UInt8) (n : Node) : Prop :=
  (n.isDir = false → n.Allocated t.ef) ∧ (n.isDir = true → ∃ name c, nameUtf8 n.name = .ok name ∧
    t.Leads t.root (path ++ slash :: name) c ∧ t.Checked c)

/-- A child that has been checked stays checked. -/
theorem Volume.ChildChecked.browsed {n' : Node} (h : t.ChildChecked path n) (ht : t.Linked)
    (hb : t.Browsed t') (hextent : n'.extent = n.extent) (hdir : n'.isDir = n.isDir)
    (hname : n'.name = n.name) : t'.ChildChecked path n' := by
  refine ⟨fun hfile => (h.1 (hdir.symm.trans hfile)).still hb.ef hextent, fun hd => ?_⟩
  obtain ⟨name, c, hconv, hleads, hchecked⟩ := h.2 (hdir.symm.trans hd)
  refine ⟨name, c, hname ▸ hconv, ?_, hchecked.browsed ht hb⟩
  rw [hb.read.root]
  exact hleads.read ht hb.read

/-- A child about which nothing is said has been checked. -/
theorem checkChild_checked (henter : Inspects u enter) (ht : t.Steady u)
    (hrun : checkChild enter path i t = .ok counts t') (he : t'.ef.errors = t.ef.errors)
    (hi : t.heap i = some n) : t'.ChildChecked path n := by
  unfold checkChild at hrun
  obtain ⟨n', t₁, hget, hrest⟩ := run_bind_eq_ok.1 hrun
  obtain ⟨hi', rfl⟩ := run_getNode_eq_ok hget
  cases hi.symm.trans hi'
  obtain ⟨name, t₂, hname, hbranch⟩ := run_bind_eq_ok.1 hrest
  obtain ⟨hconv, rfl⟩ : nameUtf8 n.name = .ok name ∧ t = t₂ := by
    obtain ⟨ef, hef, rfl⟩ := run_onVolume_eq_ok hname
    unfold exfatGetName at hef
    cases hconv : nameUtf8 n.name with
    | error e =>
      rw [hconv] at hef
      cases hef
    | ok name' =>
      rw [hconv] at hef
      cases hef
      exact ⟨rfl, rfl⟩
  -- a directory or a file
  split at hbranch
  next hdir =>
    -- the directory is entered by its path
    obtain ⟨below, t₃, hbelow, hrun⟩ := run_bind_eq_ok.1 hbranch
    cases hrun
    obtain ⟨c, hleads, hchecked⟩ := henter _ _ _ _ ht hbelow he
    refine ⟨fun hfile => ?_, fun _ => ⟨name, c, hconv, hleads, hchecked⟩⟩
    cases hdir.symm.trans hfile
  next hdir =>
    obtain ⟨rc, t₃, hnodeck, hrun⟩ := run_bind_eq_ok.1 hbranch
    cases hrun
    obtain ⟨-, rfl, hall⟩ := (wp_anyStop_iff.1 (wp_onNode_nodeck (u := u) i t) _ _ hnodeck).2 he
    exact ⟨fun _ => hall n hi, fun hd => absurd hd hdir⟩

/-- Children about which nothing is said have been checked. -/
theorem dirckLoop_checked (hhush : ∀ path, Yields (Volume.Hushed u) (enter path))
    (henter : Inspects u enter) (is : List NodeId) (ht : t.Steady u)
    (hrun : dirckLoop enter path is t = .ok counts t') (he : t'.ef.errors = t.ef.errors) :
    ∀ j ∈ is, ∀ n, t.heap j = some n → t'.ChildChecked path n := by
  induction is generalizing t counts with
  | nil => exact fun j hj => by cases hj
  | cons i is ih =>
    unfold dirckLoop at hrun
    obtain ⟨_, t₁, hget, hrun⟩ := run_bind_eq_ok.1 hrun
    obtain ⟨here, t₂, hchild, hrun⟩ := run_bind_eq_ok.1 hrun
    obtain ⟨_, t₃, hflush, hrun⟩ := run_bind_eq_ok.1 hrun
    obtain ⟨_, t₄, hput, hrun⟩ := run_bind_eq_ok.1 hrun
    obtain ⟨rest, t₅, hloop, hrun⟩ := run_bind_eq_ok.1 hrun
    cases hrun
    have h₁ := (hushed_exfatGetNode (u := u) i).ok hget
    have h₂ := (hushed_checkChild hhush path i).ok hchild
    have h₃ := (hushed_exfatFlushNode (u := u) i).ok hflush
    have h₄ := (hushed_exfatPutNode (u := u) i).ok hput
    have h₅ := (hushed_dirckLoop hhush path is).ok hloop
    have hle₁ := h₁.le
    have hle₂ := h₂.le
    have hle₃ := h₃.le
    have hle₄ := h₄.le
    have hle₅ := h₅.le
    obtain ⟨ht₁, hb₁⟩ := h₁.quiet (by omega) ht
    obtain ⟨ht₂, hb₂⟩ := h₂.quiet (by omega) ht₁
    obtain ⟨ht₃, hb₃⟩ := h₃.quiet (by omega) ht₂
    obtain ⟨ht₄, hb₄⟩ := h₄.quiet (by omega) ht₃
    obtain ⟨ht₅, hb₅⟩ := h₅.quiet (by omega) ht₄
    have hb₂₄ := hb₃.trans ht₂.linked hb₄
    have hb₀₄ := hb₁.trans ht.linked (hb₂.trans ht₁.linked hb₂₄)
    intro j hj n hn
    rcases List.mem_cons.1 hj with rfl | hj
    · -- the child itself
      obtain ⟨n₁, hn₁, hextent, hdir, hname⟩ := hb₁.node hn
      have hchecked := checkChild_checked henter ht₁ hchild (by omega) hn₁
      exact hchecked.browsed ht₂.linked (hb₂₄.trans ht₂.linked hb₅)
        hextent.symm hdir.symm hname.symm
    · -- the children behind it
      obtain ⟨n₄, hn₄, hextent, hdir, hname⟩ := hb₀₄.node hn
      have hchecked := ih ht₄ hloop (by omega) j hj n₄ hn₄
      exact hchecked.browsed ht₅.linked (.refl _) hextent.symm hdir.symm hname.symm


/-- A directory is opened without a message only if it has been read. -/
theorem wp_opendirQuiet {dir : NodeId} (ht : t.Steady u) :
    wp (exfatOpendir dir) (fun r t' => t'.ef.errors = t.ef.errors →
      r = .ok () ∧ ∃ k, t'.kin dir = some k ∧ k.isCached = true) anyStop t := by
  unfold exfatOpendir
  rw [wp_bind]
  refine wp_conseq (hushed_exfatGetNode (u := u) dir t) ?_
  intro _ t₁ h₁
  have hle₁ := h₁.le
  rw [wp_bind]
  refine wp_conseq (wp_run (hushed_exfatCacheDirectory (u := u) dir t₁)) ?_
  rintro r t₂ ⟨hrun, h₂⟩
  have hle₂ := h₂.le
  have hquiet : t₂.ef.errors = t.ef.errors → r = .ok () ∧ ∃ k, t₂.kin dir = some k ∧
      k.isCached = true := by
    intro he
    obtain ⟨ht₁, -⟩ := h₁.quiet (by omega) ht
    have hok := (wp_anyStop_iff.1 (wp_cacheQuiet ht₁) _ _ hrun (by omega)).1
    exact ⟨hok, (wp_anyStop_iff.1 (wp_exfatCacheDirectory ht₁.linked) _ _ hrun).cached hok⟩
  cases r with
  | ok _ => exact hquiet
  | error e =>
    dsimp only
    rw [wp_bind]
    refine wp_conseq (hushed_exfatPutNode (u := u) dir t₂) ?_
    intro _ t₃ h₃ he
    have hle₃ := h₃.le
    cases (hquiet (by omega)).1

/-- No character but itself is folded like a terminator, a dot or a slash. -/
def Separates (u : Nat → Nat) : Prop := ∀ x ∈ [0, 0x2e, 0x2f], ∀ c, u c = u x → c = x

/-- A table that separates folds. -/
theorem Separates.folds (h : Separates u) : Folds u := h 0 (by decide)

/-- The units of a name are folded one by one. -/
theorem foldName_unitString {wcs : List Nat} (h : ∀ wc ∈ wcs, Scalar wc) :
    foldName u (unitString wcs) = (unitString wcs).map u :=
  congrArg (List.map u) (nameString_unitString h)

/-- What is found under a component can be looked up by what is listed. -/
theorem IsComponent.of_fold {sub wcs : List Nat} (hsub : IsComponent sub)
    (hwcs : ∀ wc ∈ wcs, Scalar wc) (hu : Separates u)
    (h : foldName u (unitString sub) = foldName u (unitString wcs)) : IsComponent wcs := by
  rw [foldName_unitString hsub.scalar, foldName_unitString hwcs] at h
  refine ⟨hwcs, fun hslash => ?_, fun hnil => ?_, fun hdot => ?_⟩
  · -- a slash of the listed name would be one of the component
    have hmem : u 0x2f ∈ (unitString sub).map u :=
      h ▸ List.mem_map_of_mem (mem_unitString_slash.2 hslash)
    obtain ⟨x, hx, heq⟩ := List.mem_map.1 hmem
    obtain rfl := hu 0x2f (by decide) x heq
    exact hsub.noSlash (mem_unitString_slash.1 hx)
  · -- names that fold to the same have as many units
    have hlength := congrArg List.length h
    have hle := length_le_unitString sub
    subst hnil
    simp only [List.length_map] at hlength
    refine hsub.nonempty (List.eq_nil_of_length_eq_zero ?_)
    have hzero : (unitString []).length = 0 := rfl
    omega
  · rw [(spelling_eq_dot hwcs).1 hdot] at h
    obtain ⟨x, hx, heq⟩ := List.map_eq_singleton_iff.1 h
    obtain rfl := hu 0x2e (by decide) x heq
    exact hsub.notDot ((spelling_eq_dot hsub.scalar).2 hx)

/-- The spelling of a component is one component. -/
theorem IsComponent.getComp {sub : List Nat} (h : IsComponent sub) :
    getComp (spelling sub) = (spelling sub, []) :=
  getComp_of_notMem fun hslash => h.noSlash ((slash_mem_spelling h.scalar).1 hslash)

/-- A path of one component leads to what is found under it. -/
theorem Volume.Leads.component {sub : List Nat} {c : NodeId} (hsub : IsComponent sub)
    (h : t.Leads i (spelling sub) c) : t.Finds i (unitString sub) (some c) := by
  have hcomp := hsub.getComp
  cases h with
  | done h =>
    rw [hcomp, List.isEmpty_iff] at h
    have hnil : spelling sub = [] := h
    have hle := length_le_spelling sub
    rw [hnil] at hle
    exact absurd (List.eq_nil_of_length_eq_zero (Nat.le_zero.1 hle)) hsub.nonempty
  | stay h =>
    rw [hcomp] at h
    exact absurd h hsub.notDot
  | step hne hdot hname hfinds hrest =>
    -- the component is read back, and nothing follows it
    rw [hcomp] at hname hrest
    rw [exfatUtf8ToUtf16_spelling hsub.scalar] at hname
    split at hname
    on_goal 2 => cases hname
    cases hname
    cases hrest with
    | done _ => exact hfinds
    | stay h => cases h
    | step hne => exact absurd rfl hne

/-- What is found in a directory is the child that has been checked. -/
theorem Volume.ChildChecked.found {sub : List Nat} {c : NodeId} (h : t.ChildChecked path n)
    (ht : t.Steady u) (hu : Separates u) (hleads : t.Leads t.root path i) (hsub : IsComponent sub)
    (hfinds : t.Finds i (unitString sub) (some c)) (hc : t.heap c = some n) : t.Checked c := by
  cases hdir : n.isDir with
  | false => exact .file hc hdir (h.1 hdir)
  | true =>
    -- the listed name leads to the first child of the name, and so does the component
    obtain ⟨name, c', hconv, hpath, hchecked⟩ := h.2 hdir
    have hfresh := ht.clean c n hc
    have hlen : (nameString n.name).length ≤ nameMax :=
      (List.takeWhile_prefix _).length_le.trans hfresh.length
    obtain ⟨wcs, hscalar, hstring, rfl⟩ := exists_spelling_of_nameUtf8 hfresh.units hlen hconv
    have hfold : foldName u (unitString sub) = foldName u (unitString wcs) := by
      obtain ⟨k, u', -, -, hup, hfind⟩ := hfinds
      cases ht.upcase.symm.trans hup
      have hcmp := List.find?_some hfind.symm
      rw [Volume.kin_of_heap hc, Option.any_some, compareName_iff hu.folds] at hcmp
      rw [hcmp, ← hstring]
      exact (foldName_take u n.name).symm.trans (congrArg (foldName u) (take_utf16Length n.name))
    have hfound := (hleads.rest hpath).component (hsub.of_fold hscalar hu hfold)
    cases (hfound.fold hu.folds ht.upcase hfold.symm).unique hfinds
    exact hchecked

/-- A call of `dirckNode` that has said nothing: the clusters of the directory are in order, it has
been read by the time of `t₁`, and the children have been checked by the time of `t₂`. -/
inductive Volume.Entered (u : Nat → Nat) (enter : List UInt8 → TreeM Flat Counts)
    (path : List UInt8) (parent : NodeId) (t t' : Volume Flat) : Prop
  | intro {p p₁ : Node} {t₁ t₂ : Volume Flat} {below : Counts} (hp : t.heap parent = some p)
    (hdir : p.isDir = true) (hall : p.Allocated t.ef) (ht₁ : t₁.Steady u) (hb₁ : t.Browsed t₁)
    (hp₁ : t₁.heap parent = some p₁) (hcached : p₁.isCached = true)
    (hloop : dirckLoop enter path p₁.child t₁ = .ok below t₂) (he : t₂.ef.errors = t₁.ef.errors)
    (ht₂ : t₂.Steady u) (hb₂ : t₁.Browsed t₂) (hb' : t₂.Browsed t') :
    Entered u enter path parent t t'

/-- A directory about which nothing is said has been entered. -/
theorem dirckNode_entered {parent : NodeId} (hhush : ∀ path, Yields (Volume.Hushed u) (enter path))
    (ht : t.Steady u) (hrun : dirckNode enter path parent t = .ok counts t')
    (he : t'.ef.errors = t.ef.errors) : Volume.Entered u enter path parent t t' := by
  unfold dirckNode at hrun
  obtain ⟨p, _, hget, hrest⟩ := run_bind_eq_ok.1 hrun
  obtain ⟨hp, rfl⟩ := run_getNode_eq_ok hget
  -- the walk is begun at directories only
  split at hrest
  next => cases hrest
  next hdir =>
  obtain ⟨rc, t₁, hnodeck, hrest⟩ := run_bind_eq_ok.1 hrest
  obtain ⟨h₁, hgood⟩ := wp_anyStop_iff.1 (wp_onNode_nodeck (u := u) parent t) _ _ hnodeck
  have hle₁ := h₁.le
  -- a directory whose clusters are bad is reported
  split at hrest
  next hrc =>
    obtain ⟨_, t₂, hput, hrest⟩ := run_bind_eq_ok.1 hrest
    cases hrest
    have hle₂ := ((hushed_exfatPutNode (u := u) parent).ok hput).le
    exact absurd (hgood (by omega)).1 hrc
  next =>
  obtain ⟨ok, t₂, halloc, hrest⟩ := run_bind_eq_ok.1 hrest
  have h₂ := (hushed_mallocOk (u := u)).ok halloc
  have hle₂ := h₂.le
  split at hrest
  next =>
    -- there is a message about the memory
    obtain ⟨_, t₃, hput, hrest⟩ := run_bind_eq_ok.1 hrest
    obtain ⟨_, t₄, herror, hrest⟩ := run_bind_eq_ok.1 hrest
    cases hrest
    have hle₃ := ((hushed_exfatPutNode (u := u) parent).ok hput).le
    cases herror
    exact absurd he (Nat.ne_of_gt (Nat.lt_succ_of_le (hle₁.trans (hle₂.trans hle₃))))
  next =>
  obtain ⟨r, t₃, hopen, hrest⟩ := run_bind_eq_ok.1 hrest
  have h₃ := ((hushed_looks (u := u)).exfatOpendir parent).ok hopen
  have hle₃ := h₃.le
  -- the directory cannot be opened, or its children are checked
  cases r with
  | error e =>
    obtain ⟨_, t₄, hput, hrest⟩ := run_bind_eq_ok.1 hrest
    cases hrest
    have hle₄ := ((hushed_exfatPutNode (u := u) parent).ok hput).le
    obtain ⟨ht₁, -⟩ := h₁.quiet (by omega) ht
    obtain ⟨ht₂, -⟩ := h₂.quiet (by omega) ht₁
    cases (wp_anyStop_iff.1 (wp_opendirQuiet ht₂) _ _ hopen (by omega)).1
  | ok _ =>
    -- the run from here on is that of the children and of the clean-up
    obtain ⟨p₃, _, hget₃, hbody⟩ := run_bind_eq_ok.1 hrest
    obtain ⟨hp₃, rfl⟩ := run_getNode_eq_ok hget₃
    obtain ⟨below, t₄, hloop, hend⟩ := run_bind_eq_ok.1 hbody
    obtain ⟨_, t₅, hclose, hend⟩ := run_bind_eq_ok.1 hend
    obtain ⟨_, t₆, hflush, hend⟩ := run_bind_eq_ok.1 hend
    obtain ⟨_, t₇, hput, hend⟩ := run_bind_eq_ok.1 hend
    cases hend
    have h₄ := (hushed_dirckLoop hhush path p₃.child).ok hloop
    have h₅ := (hushed_exfatPutNode (u := u) parent).ok hclose
    have h₆ := (hushed_exfatFlushNode (u := u) parent).ok hflush
    have h₇ := (hushed_exfatPutNode (u := u) parent).ok hput
    have h₅₇ := trans_of (Volume.Hushed u) h₅ (trans_of (Volume.Hushed u) h₆ h₇)
    have hle₄ := h₄.le
    have hle₅₇ := h₅₇.le
    obtain ⟨ht₁, hb₁⟩ := h₁.quiet (by omega) ht
    obtain ⟨ht₂, hb₂⟩ := h₂.quiet (by omega) ht₁
    obtain ⟨ht₃, hb₃⟩ := h₃.quiet (by omega) ht₂
    obtain ⟨ht₄, hb₄⟩ := h₄.quiet (by omega) ht₃
    obtain ⟨-, hb₅₇⟩ := h₅₇.quiet (by omega) ht₄
    obtain ⟨-, k, hk, hcached⟩ := wp_anyStop_iff.1 (wp_opendirQuiet ht₂) _ _ hopen (by omega)
    cases (Volume.kin_of_heap hp₃).symm.trans hk
    -- all parts were silent, so each left the tree as the next one found it
    exact .intro hp (by simpa using hdir) ((hgood (by omega)).2.2 p hp) ht₃
      (hb₁.trans ht.linked (hb₂.trans ht₁.linked hb₃)) hp₃ hcached hloop (by omega) ht₄ hb₄ hb₅₇

/-- The node that the path leads to has been checked with all below it. -/
theorem dirckNode_checked {parent : NodeId} (hhush : ∀ path, Yields (Volume.Hushed u) (enter path))
    (henter : Inspects u enter) (hu : Separates u) (ht : t.Steady u)
    (hleads : t.Leads t.root path parent) (hrun : dirckNode enter path parent t = .ok counts t')
    (he : t'.ef.errors = t.ef.errors) : t'.Checked parent := by
  cases dirckNode_entered hhush ht hrun he with
  | @intro p p₁ t₁ t₂ _ hp hdir hall ht₁ hb₁ hp₁ hcached hloop heloop ht₂ hb₂ hb' =>
    have hb₀₂ := hb₁.trans ht.linked hb₂
    obtain ⟨p₂, hp₂, hextent, hkin⟩ := hb₂.cached hp₁ hcached
    have hcached₂ := (congrArg Kin.isCached hkin).trans hcached
    obtain ⟨p', hp', hextent', hdir', -⟩ := hb₀₂.node hp
    cases hp₂.symm.trans hp'
    have hleads₂ : t₂.Leads t₂.root path parent := by
      rw [hb₀₂.read.root]
      exact hleads.read ht.linked hb₀₂.read
    have hchildren := dirckLoop_checked hhush henter p₁.child ht₁ hloop heloop
    refine Volume.Checked.browsed ?_ ht₂.linked hb'
    refine .directory hp₂ (hdir'.trans hdir) hcached₂ (hall.still hb₀₂.ef hextent') ?_
    -- what is found in the directory now was in it before the loop
    intro sub c hsub hfinds
    obtain ⟨k, _, hk, -, -, hfind⟩ := hfinds.back ht₁.linked hb₂ hp₁ hcached
    cases (Volume.kin_of_heap hp₁).symm.trans hk
    have hmem : c ∈ p₁.child := List.mem_of_find?_eq_some hfind.symm
    obtain ⟨_, hc, -⟩ := ht₁.linked.down (Volume.kin_of_heap hp₁) hmem
    obtain ⟨n, hn, -⟩ := Option.map_eq_some_iff.1 hc
    obtain ⟨n₂, hn₂, hextent₂, hdir₂, hname₂⟩ := hb₂.node hn
    have hchild := (hchildren c hmem n hn).browsed ht₂.linked (.refl t₂) hextent₂ hdir₂ hname₂
    exact hchild.found ht₂ hu hleads₂ hsub hfinds hn₂

/-- `dirck` without a message has checked where its path leads to. -/
theorem dirck_checked (hu : Separates u) (fuel : Nat) : Inspects u (dirck fuel) := by
  induction fuel with
  | zero =>
    intro path t counts t' _ hrun
    cases hrun
  | succ fuel ih =>
    intro path t counts t' ht hrun he
    unfold dirck at hrun
    obtain ⟨r, t₁, hlookup, hrest⟩ := run_bind_eq_ok.1 hrun
    cases r with
    | error e => cases hrest
    | ok parent =>
      have h₁ := ((hushed_looks (u := u)).exfatLookup path).ok hlookup
      have h₂ := (hushed_dirckNode (u := u) (hushed_dirck fuel) path parent).ok hrest
      have hle₁ := h₁.le
      have hle₂ := h₂.le
      obtain ⟨ht₁, hb₁⟩ := h₁.quiet (by omega) ht
      obtain ⟨-, hb₂⟩ := h₂.quiet (by omega) ht₁
      have hleads := leads_of_exfatLookup ht hlookup (by omega)
      refine ⟨parent, ?_, dirckNode_checked (hushed_dirck fuel) ih hu ht₁ hleads hrest (by omega)⟩
      rw [hb₂.read.root]
      exact hleads.read ht₁.linked hb₂.read


end Walk

/-! ### Lookups after the walk -/

section Verdict

variable {u : Nat → Nat} {t t' : Volume Flat} {i j : NodeId} {n : Node}

/-- The loop of `lookup_name` leaves the volume alone. -/
theorem sameEf_lookupLoop (name : List Nat) (is : List NodeId) :
    Keeps Volume.SameEf (lookupLoop (δ := Flat) name is) := by
  induction is with
  | nil => exact keeps_pure _
  | cons i is ih =>
    refine keeps_bind (sameEf_updateNode i _) fun _ => keeps_bind (sameEf_getNode i) fun n =>
      keeps_look fun t => ?_
    cases t.ef.upcase with
    | none => exact keeps_throw _
    | some upcase => exact keeps_ite (keeps_pure _) (keeps_bind (sameEf_exfatPutNode i) fun _ => ih)

/-- Nothing is read to open a directory that has been read. -/
theorem wp_openCached (hi : t.heap i = some n) (hc : n.isCached = true) :
    wp (exfatOpendir i) (fun _ t' => t.SameEf t') anyStop t := by
  unfold exfatOpendir
  rw [wp_bind]
  refine wp_mono (wp_and (kin_exfatGetNode i t) (sameEf_updateNode i _ t)) ?_ fun _ _ _ => trivial
  rintro _ t₁ ⟨hkin, hef⟩
  have hi₁ : t₁.kin i = some n.kin := (congrFun hkin.view i).trans (Volume.kin_of_heap hi)
  obtain ⟨n₁, hn₁, hsame⟩ := Option.map_eq_some_iff.1 hi₁
  have hcached : n₁.isCached = true := (congrArg Kin.isCached hsame).trans hc
  rw [wp_bind]
  unfold exfatCacheDirectory
  rw [wp_bind]
  refine wp_of_ok (run_getNode hn₁) ?_
  rw [if_pos hcached, wp_pure]
  dsimp only
  rw [wp_pure]
  exact hef

/-- Looking up a name in a directory that has been read leaves the volume alone. -/
theorem wp_lookupCached (name : List UInt8) (hi : t.heap i = some n) (hc : n.isCached = true) :
    wp (lookupName i name) (fun _ t' => t.SameEf t') anyStop t := by
  have hput : ∀ (r : Except Errno NodeId) (t₁ : Volume Flat), t.SameEf t₁ →
      wp (do exfatPutNode i; pure r) (fun _ t' => t.SameEf t') anyStop t₁ := by
    intro r t₁ h₁
    rw [wp_bind]
    refine wp_mono (sameEf_exfatPutNode i t₁) ?_ fun _ _ _ => trivial
    exact fun _ _ h => trans_of Volume.SameEf h₁ h
  unfold lookupName
  -- the name cannot be converted, or the directory is opened, which reads nothing
  cases exfatUtf8ToUtf16 name (nameMax + 1) with
  | error e => exact refl_of Volume.SameEf t
  | ok buffer =>
    dsimp only
    rw [wp_bind]
    refine wp_conseq (wp_openCached hi hc) ?_
    intro r t₁ h₁
    cases r with
    | error e => exact h₁
    | ok _ =>
      dsimp only
      rw [wp_bind]
      refine wp_mono (sameEf_getNode i t₁) ?_ fun _ _ _ => trivial
      intro p t₂ h₂
      rw [wp_bind]
      refine wp_mono (sameEf_lookupLoop buffer p.child t₂) ?_ fun _ _ _ => trivial
      intro found t₃ h₃
      have h₁₃ := trans_of Volume.SameEf h₁ (trans_of Volume.SameEf h₂ h₃)
      -- whether the name is found or not, the reference is given back
      cases found with
      | some j => exact hput _ t₃ h₁₃
      | none => exact hput _ t₃ h₁₃

/-- What is found in a directory that has been checked has been checked, and nothing is read to find
it. -/
theorem lookupName_checked {sub : List Nat} (hsub : IsComponent sub) {m : Nat} (ht : t.Steady u)
    (hd : t.Depth i m) (h : t.Checked i) (hrun : lookupName i (spelling sub) t = .ok (.ok j) t') :
    t'.Steady u ∧ t'.Checked j ∧ t'.Depth j (m + 1) := by
  have hlooked := wp_anyStop_iff.1 (wp_lookupName ht.linked hd) _ _ hrun
  obtain ⟨name, hconv, hfinds⟩ := hlooked.found rfl
  rw [exfatUtf8ToUtf16_spelling hsub.scalar] at hconv
  split at hconv
  on_goal 2 => cases hconv
  cases hconv
  cases h with
  | file hi hdir _ =>
    -- nothing is found in a file
    obtain ⟨k, -, hk, hc, -⟩ := hfinds
    have hsame := hlooked.explored.toRead.grown.same (Volume.kin_of_heap hi) hk (Set.notMem_empty i)
    cases (hlooked.linked.dirs hk hc).symm.trans ((congrArg Kin.isDir hsame).trans hdir)
  | directory hi hdir hcached hall below =>
    have hef : t'.ef = t.ef := wp_anyStop_iff.1 (wp_lookupCached _ hi hcached) _ _ hrun
    have hhushed := ((hushed_looks (u := u)).lookupName i _).ok hrun
    obtain ⟨ht', hb⟩ := hhushed.quiet (by rw [hef]) ht
    have hchecked := below sub j hsub (hfinds.back ht.linked hb hi hcached)
    exact ⟨ht', hchecked.browsed ht.linked hb, hfinds.depth ht'.linked (hb.read.toGrown.depth hd)⟩

/-- From a node that has been checked every path leads to one. -/
theorem lookupPath_checked (fuel : Nat) {wcs : List Nat} (hscalar : ∀ wc ∈ wcs, Scalar wc) {m : Nat}
    (ht : t.Steady u) (hd : t.Depth i m) (h : t.Checked i)
    (hrun : lookupPath fuel i (spelling wcs) t = .ok (.ok j) t') : t'.Checked j := by
  -- on the components of the path
  induction fuel generalizing i wcs m t with
  | zero =>
    cases hrun
    exact h
  | succ fuel ih =>
    -- a component of a spelling is a spelling
    obtain ⟨pre, sub, rest, rfl, hcomp, hslash⟩ := getComp_spelling hscalar
    have hsub : ∀ wc ∈ sub, Scalar wc := fun wc hwc =>
      hscalar wc (List.mem_append_right pre (List.mem_append_left rest hwc))
    have hrest : ∀ wc ∈ rest, Scalar wc := fun wc hwc =>
      hscalar wc (List.mem_append_right pre (List.mem_append_right sub hwc))
    rw [lookupPath] at hrun
    dsimp only at hrun
    rw [hcomp] at hrun
    dsimp only at hrun
    split at hrun
    next =>
      cases hrun
      exact h
    next hempty =>
    split at hrun
    next => exact ih hrest ht hd h hrun
    next hdot =>
    obtain ⟨r, t₁, hname, hgo⟩ := run_bind_eq_ok.1 hrun
    -- the name is not found, or it leads to a node that has been checked
    cases r with
    | error e =>
      obtain ⟨_, _, -, hend⟩ := run_bind_eq_ok.1 hgo
      cases hend
    | ok c =>
      obtain ⟨_, t₂, hput, hgo⟩ := run_bind_eq_ok.1 hgo
      have hcomponent : IsComponent sub := by
        refine ⟨hsub, hslash, ?_, hdot⟩
        rintro rfl
        exact hempty rfl
      obtain ⟨ht₁, hchecked, hdepth⟩ := lookupName_checked hcomponent ht hd h hname
      -- the reference to the directory is given back
      have hef₂ : t₂.ef = t₁.ef := (sameEf_exfatPutNode i).ok hput
      have h₂ := (hushed_exfatPutNode (u := u) i).ok hput
      obtain ⟨ht₂, hb₂⟩ := h₂.quiet (by rw [hef₂]) ht₁
      exact ih hrest ht₂ (hb₂.read.toGrown.depth hdepth) (hchecked.browsed ht₁.linked hb₂) hgo

/-- A path in a checked volume leads to a node that is allocated. -/
theorem exfatLookup_checked {wcs : List Nat} (hscalar : ∀ wc ∈ wcs, Scalar wc) (ht : t.Steady u)
    (h : t.Checked t.root) (hrun : exfatLookup (spelling wcs) t = .ok (.ok i) t') :
    ∃ n, t'.heap i = some n ∧ n.Allocated t'.ef := by
  unfold exfatLookup at hrun
  obtain ⟨_, _, hget, hrest⟩ := run_bind_eq_ok.1 hrun
  cases hget
  obtain ⟨_, t₁, hroot, hpath⟩ := run_bind_eq_ok.1 hrest
  have h₁ := (hushed_exfatGetNode (u := u) t.root).ok hroot
  have hef₁ : t₁.ef = t.ef := (sameEf_updateNode t.root _).ok hroot
  obtain ⟨ht₁, hb₁⟩ := h₁.quiet (by rw [hef₁]) ht
  have hchecked := lookupPath_checked _ hscalar ht₁ (hb₁.read.toGrown.depth .root)
    (h.browsed ht.linked hb₁) hpath
  cases hchecked with
  | file hi _ hall => exact ⟨_, hi, hall⟩
  | directory hi _ _ hall => exact ⟨_, hi, hall⟩

/-! ### A volume whose directories have been read -/

/-- Every directory in memory has been read. -/
def Volume.AllRead (t : Volume Flat) : Prop := ∀ i k, t.kin i = some k →
    k.isDir = true → k.isCached = true

/-- A tree of the same form has been read. -/
theorem Volume.AllRead.sameKin (h : t.AllRead) (hkin : t.SameKin t') : t'.AllRead := fun i k hk =>
  h i k ((congrFun hkin.view i).symm.trans hk)

/-- A volume that has been read stays so. -/
theorem Volume.AllRead.step (h : t.AllRead) (hstep : t.QuietStep t') : t'.AllRead := by
  cases hstep with
  | tick ticks => exact h
  | get hget => exact h.sameKin ((kin_exfatGetNode _).ok hget)
  | put hput => exact h.sameKin ((kin_exfatPutNode _).ok hput)
  | @read _ dir hread _ =>
    unfold exfatCacheDirectory at hread
    obtain ⟨d, _, hget, hrest⟩ := run_bind_eq_ok.1 hread
    obtain ⟨hd, rfl⟩ := run_getNode_eq_ok hget
    split at hrest
    · cases hrest
      exact h
    next hcached =>
      -- only a directory can be read, and this one has not been
      obtain ⟨r, t₁, hscan, -⟩ := run_bind_eq_ok.1 hrest
      have hscanned : wp (onNode dir (cacheLoop (dirFuel d.size) 0))
          (fun _ _ => d.isDir = true) anyStop t := by
        rw [wp_onNode hd]
        exact isDir_of_cacheLoop (s := ⟨t.ef, d⟩)
      have hdir := wp_anyStop_iff.1 hscanned _ _ hscan
      exact absurd (h dir d.kin (Volume.kin_of_heap hd) hdir) hcached

/-- A volume that has been read stays so. -/
theorem Volume.AllRead.walk (h : t.AllRead) (hreach : Relation.ReflTransGen Volume.QuietStep t t') :
    t'.AllRead := by
  induction hreach with
  | refl => exact h
  | tail _ hstep ih => exact ih.step hstep

/-- Entries are met in directories. -/
theorem Meets.isDir {s : FileState Flat} {offset : Nat} {e : Entry} (h : Meets s offset e) :
    s.node.isDir = true := by
  cases h with
  | here hread => exact (readEntries_one hread).2.1
  | behindFile hread => exact (readEntries_one hread).2.1
  | behind hread => exact (readEntries_one hread).2.1

/-- Where everything has been read nothing more is met. -/
theorem Volume.AllRead.plain (h : t.AllRead) : t.Plain := by
  intro t₁ dir d e hreach hd hcached hmeets
  cases hcached.symm.trans (h.walk hreach dir d.kin (Volume.kin_of_heap hd) hmeets.isDir)

/-! ### The verdict -/

/-- If `exfatfsck` has nothing to say about a volume, the clusters of whatever a path leads to in it
exist and are allocated, as many as its size asks for.  `t₂` is the volume when the walk begins. -/
theorem fsck_sound {t₁ t₂ : Volume Flat} {fuel : Nat} {counts : Counts} {rc : Bool} (ht : t.Vacant)
    (hmount : exfatMount t = .ok (.ok ()) t₁) (hsoil : onVolume exfatSoilSuperBlock t₁ = .ok rc t₂)
    (hupcase : t₂.ef.upcase = some u) (hu : Separates u) (hplain : t₂.Plain)
    (hrun : fsck fuel t = .ok (some counts) t') (hexit : exitStatus t' = 0) :
    ∃ t₃, dirck fuel [] t₂ = .ok counts t₃ ∧ ∀ wcs i t₄, (∀ wc ∈ wcs, Scalar wc) →
      exfatLookup (spelling wcs) t₃ = .ok (.ok i) t₄ →
        ∃ n, t₄.heap i = some n ∧ n.size ≤ t₄.ef.sb.clusterCount * t₄.ef.sb.clusterSize ∧
          n.Allocated t₄.ef := by
  unfold fsck at hrun
  obtain ⟨_, _, hmounted, hrest⟩ := run_bind_eq_ok.1 hrun
  cases hmount.symm.trans hmounted
  obtain ⟨_, t₃, hcheck, hend⟩ := run_bind_eq_ok.1 hrest
  obtain ⟨_, t₅, hunmount, hend⟩ := run_bind_eq_ok.1 hend
  cases hend
  unfold checking at hcheck
  obtain ⟨_, _, hsoiled, hdirck⟩ := run_bind_eq_ok.1 hcheck
  cases hsoil.symm.trans hsoiled
  -- no part of the run has said anything
  have hmountSober := sober_exfatMount.ok hmount
  have hsoilSober := (sober_onVolume louder_exfatSoilSuperBlock).ok hsoil
  have hhushed := (hushed_dirck (u := u) fuel []).ok hdirck
  have hunmountSober := sober_exfatUnmount.ok hunmount
  have hle₁ := hmountSober.le
  have hle₂ := hsoilSober.le
  have hle₃ := hhushed.le
  have hle₄ := hunmountSober.le
  -- the exit status is 0, so there was no message
  have hzero : t'.ef.errors = 0 := by
    unfold exitStatus at hexit
    by_contra hne
    rw [if_pos hne] at hexit
    cases hexit
  have hvacant : t.Clean := by
    intro i n hi
    cases (ht i).symm.trans hi
  have hclean : t₂.Clean := hsoilSober.clean (by omega) (hmountSober.clean (by omega) hvacant)
  obtain ⟨hlinked, -⟩ := wp_anyStop_iff.1 (exfatMount_linked ht) _ _ hmount rfl
  have hkin : t₁.SameKin t₂ := (links_onVolume exfatSoilSuperBlock).ok hsoil
  obtain ⟨hwithin, hlength⟩ := wp_anyStop_iff.1 (exfatMount_within ht) _ _ hmount rfl
  have hwithin₂ := wp_anyStop_iff.1 (within_soil hlength) _ _ hsoil hwithin
  have hsteady : t₂.Steady u := ⟨hkin.linked hlinked, hplain, hupcase, hclean, hwithin₂⟩
  obtain ⟨hsteady₃, hbrowsed⟩ := hhushed.quiet (by omega) hsteady
  -- the empty path is that of the root
  obtain ⟨r, hleads, hchecked⟩ := dirck_checked hu fuel [] t₂ counts t₃ hsteady hdirck (by omega)
  -- the root is where the empty path leads
  have hroot : r = t₃.root := by
    cases hleads with
    | done => rfl
    | stay h => cases h
    | step hne => exact absurd rfl hne
  rw [hroot] at hchecked
  refine ⟨t₃, hdirck, fun wcs i t₄ hscalar hlookup => ?_⟩
  obtain ⟨n, hi, hall⟩ := exfatLookup_checked hscalar hsteady₃ hchecked hlookup
  have hwithin₄ := ((bounds_looks.exfatLookup _).ok hlookup).within hsteady₃.within
  exact ⟨n, hi, hwithin₄ i n hi, hall⟩

/-- A table of one unit that leaves the terminator alone leaves every character alone. -/
theorem separates_decompressUpcase {ch : Nat} (h : decompressUpcase [ch] 0 = 0) :
    Separates (decompressUpcase [ch]) := by
  have hself : ∀ c, decompressUpcase [ch] c = c := by
    intro c
    by_cases hc : c = 0
    · rw [hc, h]
    · show Function.update id 0 ch c = c
      rw [Function.update_of_ne hc]
      rfl
  intro x _ c hc
  rwa [hself, hself] at hc

/-- The entries of a file `"x"` in cluster 5, of the first day of 1980. -/
def loneSet : List Entry :=
  let zero : Entry := List.replicate entrySize 0
  sealEntries [Entry.setFields zero [(0, 1, entryFile), (1, 1, 2), (4, 2, attribArch),
    (14, 2, 0x21), (18, 2, 0x21)],
    Entry.setFields zero [(0, 1, entryFileInfo), (1, 1, 3), (3, 1, 1), (8, 8, 512),
      (20, 4, 5), (24, 8, 512)],
    Entry.setFields zero [(0, 1, entryFileName), (2, 2, 0x78)]]

/-- A card with the file. -/
def loneStore : Store := fun a =>
  if a < 512 then crossBoot.bytes.getD a 0
  else if a = 6656 then 31
  else if 7744 ≤ a ∧ a < 7840 then loneSet.flatten.getD (a - 7744) 0
  else cardStore a

/-- The volume can be booted from when its checksum is stored. -/
theorem bootable_loneStore : Bootable (withChecksum loneStore) (2 ^ 20) :=
  bootable_withChecksum (by decide +kernel) (by decide +kernel) (by decide +kernel)

/-- A volume that is about to be mounted from the card. -/
def loneVolume : Volume Flat where
  ef := { dev := ⟨withChecksum loneStore, 2 ^ 20⟩, sb := ⟨[]⟩ }
  heap _ := none
  root := 0
  fresh := 0

/-- The volume when the boot region has been read. -/
def loneBooted : Volume Flat :=
  { loneVolume with
    ef := { loneVolume.ef with sb := bootSector (withChecksum loneStore), ticks := 3 } }

/-- `Volume.AllRead` as a test. -/
def Volume.readThrough (t : Volume Flat) : Bool :=
  decide (∀ d ∈ List.range t.fresh, ∀ n ∈ t.heap d, n.isDir = true → n.isCached = true)

/-- A volume that is found to have been read has been. -/
theorem Volume.allRead_of_readThrough (h : t.readThrough = true) (hbounded : t.Bounded) :
    t.AllRead := by
  intro i k hk hdir
  obtain ⟨n, hn, rfl⟩ := Option.map_eq_some_iff.1 hk
  have hlt : i < t.fresh := by
    by_contra hge
    cases hn.symm.trans (hbounded i (Nat.le_of_not_lt hge))
  exact of_decide_eq_true h i (List.mem_range.2 hlt) n hn hdir

/-- The card is checked, and the file on it is looked up. -/
theorem fsck_sound_lone :
    ∃ t₁ t₂ t₃ t₄ t' i n counts, loneVolume.Vacant ∧
      exfatMount loneVolume = .ok (.ok ()) t₁ ∧ fsck 1 loneVolume = .ok (some counts) t' ∧
      exitStatus t' = 0 ∧
      counts = ⟨0, 1⟩ ∧ dirck 1 [] t₂ = .ok counts t₃ ∧
      exfatLookup (spelling [0x2f, 0x78]) t₃ = .ok (.ok i) t₄ ∧
      t₄.heap i = some n ∧ n.size = 512 ∧ n.Allocated t₄.ef := by
  have hscan : returns (fun size s => allMet (Entry.hasUnits 1) 17 0 (s.ofSize size))
      (rootdirSize ⟨loneBooted.ef, rootdirNode loneBooted.ef.sb⟩) = true := by
    decide +kernel
  have htest : returns (fun rc t₁ => rc = .ok () ∧ (t₁.ef.upcase.any fun u => u 0 = 0) ∧
      returns (fun _ t₂ => t₂.readThrough ∧
        returns (fun counts t₃ => counts = ⟨0, 1⟩ ∧
          returns (fun _ t' => exitStatus t' = 0) (exfatUnmount t₃) ∧
          returns (fun r t₄ => r.toOption.any fun i => (t₄.heap i).any fun n => n.size = 512)
            (exfatLookup (spelling [0x2f, 0x78]) t₃)) (dirck 1 [] t₂))
        (onVolume exfatSoilSuperBlock t₁)) (mountRoot loneBooted) = true := by
    decide +kernel
  -- the steps of the run, one after the other
  obtain ⟨size, s, hsize, hscan⟩ := of_returns hscan
  obtain ⟨rc, t₁, hroot, htest⟩ := of_returns htest
  obtain ⟨rfl, hzero, hsoil⟩ := of_decide_eq_true htest
  obtain ⟨soiled, t₂, hsoil, htest⟩ := of_returns hsoil
  obtain ⟨hread, hdirck⟩ := of_decide_eq_true htest
  obtain ⟨counts, t₃, hdirck, htest⟩ := of_returns hdirck
  obtain ⟨hcounts, hunmount, hlookup⟩ := of_decide_eq_true htest
  obtain ⟨_, t', hunmount, hexit⟩ := of_returns hunmount
  obtain ⟨r, t₄, hlookup, htest⟩ := of_returns hlookup
  obtain ⟨u, hu, hzero⟩ := (Option.any_eq_true ..).1 hzero
  obtain ⟨i, hi, htest⟩ := (Option.any_eq_true ..).1 htest
  obtain ⟨n, hn, hlarge⟩ := (Option.any_eq_true ..).1 htest
  have hscalar : ∀ wc ∈ [0x2f, 0x78], Scalar wc := by
    intro wc hwc
    simp only [List.mem_cons, List.not_mem_nil, or_false] at hwc
    rcases hwc with rfl | rfl
    · exact ⟨by decide, by decide, fun _ => by decide⟩
    · exact ⟨by decide, by decide, fun _ => by decide⟩
  have hvacant : loneVolume.Vacant := fun _ => rfl
  have hmount : exfatMount loneVolume = .ok (.ok ()) t₁ :=
    (run_exfatMount (fun _ => rfl) bootable_loneStore).trans hroot
  obtain ⟨hlinked, -⟩ := wp_anyStop_iff.1 (exfatMount_linked hvacant) _ _ hmount rfl
  have hkin : t₁.SameKin t₂ := (links_onVolume exfatSoilSuperBlock).ok hsoil
  have hplain : t₂.Plain :=
    (Volume.allRead_of_readThrough hread (hkin.linked hlinked).toBounded).plain
  -- the table separates names, as it is that of the card
  have hsep : Separates u := by
    obtain hsome | ⟨source, hlength, rfl⟩ := mountRoot_cased hsize hscan hroot u hu
    · cases hsome
    obtain ⟨ch, rfl⟩ := List.length_eq_one_iff.1 hlength
    exact separates_decompressUpcase (of_decide_eq_true hzero)
  have hfsck : fsck 1 loneVolume = .ok (some counts) t' := by
    have hcheck : checking 1 t₁ = .ok counts t₃ := run_bind_eq_ok.2 ⟨_, _, hsoil, hdirck⟩
    refine run_bind_eq_ok.2 ⟨_, _, hmount, ?_⟩
    refine run_bind_eq_ok.2 ⟨_, _, hcheck, ?_⟩
    exact run_bind_eq_ok.2 ⟨_, _, hunmount, rfl⟩
  obtain ⟨t₃', hdirck', hsound⟩ :=
    fsck_sound hvacant hmount hsoil (hkin.upcase u hu) hsep hplain hfsck
    (of_decide_eq_true hexit)
  cases hdirck.symm.trans hdirck'
  -- the lookup has found the file
  cases r with
  | error e => cases hi
  | ok j =>
    cases hi
    obtain ⟨n', hn', -, hall⟩ := hsound [0x2f, 0x78] i t₄ hscalar hlookup
    cases hn.symm.trans hn'
    exact ⟨t₁, t₂, t₃, t₄, t', i, n, counts, hvacant, hmount, hfsck, of_decide_eq_true hexit,
      hcounts, hdirck, hlookup,
      hn, of_decide_eq_true hlarge, hall⟩

end Verdict

end ExFat
