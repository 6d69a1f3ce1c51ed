import ExFat.Fs.Rooted
import Mathlib.Data.List.Find

namespace ExFat

open Program

/-!
# Where paths lead

In directories that have been read, a name leads to the first child it matches, and a path leads
from one directory to the next.  Looking a path up a second time follows the same way, so
`exfat_mkdir` works on the node it has made.
-/

variable {δ : Type}

/-- A volume that had an upcase table has one. -/
theorem Ef.Settled.isSome {ef ef' : Ef δ} (h : ef.Settled ef') (hup : ef.upcase.isSome = true) :
    ef'.upcase.isSome = true := by
  obtain ⟨u, hu⟩ := Option.isSome_iff_exists.1 hup
  rw [h u hu, Option.isSome_some]

/-! ### One component -/

/-- In the directory `d`, which has been read, the first child with the name is `o`. -/
def Volume.Finds (t : Volume δ) (d : NodeId) (name : List Nat) (o : Option NodeId) : Prop :=
  ∃ k u, t.kin d = some k ∧ k.isCached = true ∧ t.ef.upcase = some u ∧
    o = k.child.find? fun i => (t.kin i).any fun c => compareName u name c.name

/-- A name leads to where it did while the directory is as it was. -/
theorem Volume.Finds.transfer {t t' : Volume δ} {d : NodeId} {name : List Nat} {o : Option NodeId}
    (h : t.Finds d name o) (ht : t.Linked)
    (hd : ∀ {k}, t.kin d = some k → k.isCached = true →
      ∃ k', t'.kin d = some k' ∧ k'.child = k.child ∧ k'.isCached = true)
    (hname : ∀ {x k}, t.kin x = some k → ∃ k', t'.kin x = some k' ∧ k'.name = k.name)
    (hu : t.ef.Settled t'.ef) : t'.Finds d name o := by
  obtain ⟨k, u, hk, hc, hupcase, rfl⟩ := h
  obtain ⟨k', hk', hchild, hc'⟩ := hd hk hc
  refine ⟨k', u, hk', hc', hu u hupcase, ?_⟩
  rw [hchild]
  refine List.find?_congr fun i hi => ?_
  obtain ⟨c, hci, -⟩ := ht.down hk hi
  obtain ⟨c', hci', hn⟩ := hname hci
  rw [hci, hci', Option.any_some, Option.any_some, hn]

/-- The nodes keep their names when directories are read. -/
theorem Volume.Read.names {t t' : Volume δ} (h : t.Read t') {x : NodeId} {k : Kin}
    (hx : t.kin x = some k) : ∃ k', t'.kin x = some k' ∧ k'.name = k.name := by
  obtain ⟨k', hx', -⟩ := h.grown.stays hx (Set.notMem_empty _)
  refine ⟨k', hx', ?_⟩
  rw [h.grown.same hx hx' (Set.notMem_empty _)]

/-- What a name means stays when directories are read. -/
theorem Volume.Finds.read {t t' : Volume δ} {d : NodeId} {name : List Nat} {o : Option NodeId}
    (hf : t.Finds d name o) (ht : t.Linked) (h : t.Read t') : t'.Finds d name o :=
  hf.transfer ht (fun hx hc => ⟨_, h.kept hx hc, rfl, hc⟩) h.names h.upcase

section Device

variable [Device δ]

/-- The loop of `lookup_name` stops at the first child with the name. -/
theorem wp_lookupLoop {name : List Nat} {u : Nat → Nat} (is : List NodeId) {t : Volume δ}
    (ht : t.Linked) (hu : t.ef.upcase = some u) :
    wp (lookupLoop name is) (fun r t' => t.SameKin t' ∧ t.Explored t' ∧
      r = is.find? fun i => (t.kin i).any fun c => compareName u name c.name) anyStop t := by
  -- On the children that are left.  The reference to each is taken and given back.
  induction is generalizing t with
  | nil => exact ⟨refl_of Volume.SameKin t, .refl t, rfl⟩
  | cons i is ih =>
    unfold lookupLoop
    rw [wp_bind]
    refine wp_conseq (wp_exfatGetNode i t) ?_
    rintro _ t₁ ⟨h₁, hexplored₁⟩
    rw [wp_bind]
    refine wp_getNode trivial fun n hn => ?_
    have hkin₁ : t₁.kin = t.kin := h₁.view
    have hi : (t.kin i).any (fun c => compareName u name c.name) = compareName u name n.name := by
      rw [← hkin₁, Volume.kin_of_heap hn, Option.any_some]
      rfl
    rw [wp_bind, wp_get, h₁.upcase u hu]
    dsimp only
    split
    next hcmp =>
      -- the name is the one that was asked for: its reference is kept
      refine ⟨h₁, hexplored₁, ?_⟩
      rw [List.find?_cons, hi, hcmp]
    next hcmp =>
      rw [wp_bind]
      refine wp_conseq (wp_exfatPutNode i t₁) ?_
      rintro _ t₂ ⟨h₂, hexplored₂⟩
      have h₁₂ : t.SameKin t₂ := trans_of Volume.SameKin h₁ h₂
      have hkin₂ : t₂.kin = t.kin := h₁₂.view
      refine wp_conseq (ih (h₁₂.linked ht) (h₁₂.upcase u hu)) ?_
      rintro r t₃ ⟨h₃, hexplored₃, hr⟩
      refine ⟨trans_of Volume.SameKin h₁₂ h₃, (hexplored₁.trans ht hexplored₂).trans ht hexplored₃,
        ?_⟩
      rw [List.find?_cons, hi, Bool.eq_false_of_not_eq_true hcmp, hr, hkin₂]

omit [Device δ] in
/-- Without an upcase table nothing is compared. -/
theorem wp_lookupLoop_none {name : List Nat} (is : List NodeId) {t : Volume δ}
    (hu : t.ef.upcase = none) :
    wp (lookupLoop name is) (fun r t' => r = none ∧ t' = t) anyStop t := by
  cases is with
  | nil => exact ⟨rfl, rfl⟩
  | cons i is =>
    unfold lookupLoop exfatGetNode
    rw [wp_bind]
    refine wp_updateNode (g := id) (by exact fun _ => rfl) ?_
    intro t' h
    rw [wp_bind]
    refine wp_getNode trivial fun n _ => ?_
    rw [wp_bind, wp_get, h.ef, hu]
    exact trivial

/-- `exfat_opendir` reads the directory, unless it cannot be read. -/
theorem wp_exfatOpendir {dir : NodeId} {n : Nat} {t : Volume δ} (ht : t.Linked)
    (hd : t.Depth dir n) :
    wp (exfatOpendir dir) (fun r t' => t'.Linked ∧ t.Explored t' ∧ r ≠ .error .enoent ∧
      (r = .ok () → ∃ k, t'.kin dir = some k ∧ k.isCached = true)) anyStop t := by
  unfold exfatOpendir
  rw [wp_bind]
  refine wp_conseq (wp_exfatGetNode dir t) ?_
  rintro _ t₁ ⟨h₁, hexplored₁⟩
  rw [wp_bind]
  refine wp_conseq (wp_exploreDirectory (h₁.linked ht) (hexplored₁.toGrown.depth hd)) ?_
  rintro r t₂ ⟨h₂, hexplored₂⟩
  have h₁₂ : t.Explored t₂ := hexplored₁.trans ht hexplored₂
  cases r with
  | error e =>
    dsimp only
    rw [wp_bind]
    refine wp_conseq (wp_exfatPutNode dir t₂) ?_
    rintro _ t₃ ⟨h₃, hexplored₃⟩
    refine ⟨h₃.linked h₂.linked, h₁₂.trans ht hexplored₃, fun he => ?_, by simp⟩
    exact (h₂.failed rfl).2 (Except.error.inj he)
  | ok _ => exact ⟨h₂.linked, h₁₂, by simp, h₂.cached⟩

omit [Device δ] in
/-- A name that cannot be converted is not taken for one that is not there. -/
theorem exfatUtf8ToUtf16_ne_enoent {comp : List UInt8} {outsize : Nat} {e : Errno}
    (h : exfatUtf8ToUtf16 comp outsize = .error e) : e ≠ .enoent := by
  have hloop : ∀ (fuel : Nat) (bs : List UInt8) (room : Nat),
      utf8ToUtf16Loop fuel bs room ≠ .error .enoent := by
    -- the loop fails with `EILSEQ` or `ENAMETOOLONG` only
    intro fuel
    induction fuel with
    | zero =>
      intro bs room
      unfold utf8ToUtf16Loop
      split <;> exact nofun
    | succ fuel ih =>
      intro bs room
      cases bs with
      | nil =>
        unfold utf8ToUtf16Loop
        split <;> exact nofun
      | cons b bs =>
        unfold utf8ToUtf16Loop
        split
        · exact nofun
        next wc rest _ =>
          dsimp only
          split
          · exact nofun
          split
          · split <;> exact nofun
          · intro hmap
            cases hrest : utf8ToUtf16Loop fuel rest (room - (wcharToUtf16 wc).length) with
            | error e' =>
              rw [hrest] at hmap
              cases hmap
              exact ih rest _ hrest
            | ok units =>
              rw [hrest] at hmap
              cases hmap
  rintro rfl
  exact hloop _ _ _ h

/-- What `lookup_name` returns is the first child with the name. -/
structure Volume.LookedUp (t : Volume δ) (parent : NodeId) (comp : List UInt8)
    (r : Except Errno NodeId) (t' : Volume δ) : Prop where
  linked : t'.Linked
  explored : t.Explored t'
  found : ∀ {i}, r = .ok i → ∃ name, exfatUtf8ToUtf16 comp (nameMax + 1) = .ok name ∧
    t'.Finds parent name (some i)
  noent : r = .error .enoent → t.ef.upcase.isSome = true →
    ∃ name, exfatUtf8ToUtf16 comp (nameMax + 1) = .ok name ∧ t'.Finds parent name none

/-- `lookup_name` returns what the name means. -/
theorem wp_lookupName {parent : NodeId} {comp : List UInt8} {n : Nat} {t : Volume δ} (ht : t.Linked)
    (hd : t.Depth parent n) :
    wp (lookupName parent comp) (fun r t' => t.LookedUp parent comp r t') anyStop t := by
  unfold lookupName
  cases hname : exfatUtf8ToUtf16 comp (nameMax + 1) with
  | error e =>
    refine ⟨ht, .refl t, by simp, fun he => ?_⟩
    exact absurd (Except.error.inj he) (exfatUtf8ToUtf16_ne_enoent hname)
  | ok name =>
    dsimp only
    rw [wp_bind]
    refine wp_conseq (wp_exfatOpendir ht hd) ?_
    rintro r t₁ ⟨ht₁, hexplored₁, hnoent, hcached⟩
    cases r with
    | error e =>
      exact ⟨ht₁, hexplored₁, by
        simp, fun he => absurd (congrArg Except.error (Except.error.inj he)) hnoent⟩
    | ok _ =>
      obtain ⟨k, hk, hc⟩ := hcached rfl
      dsimp only
      rw [wp_bind]
      refine wp_getNode trivial fun p hp => ?_
      have hkp : k = p.kin := Option.some.inj (hk.symm.trans (Volume.kin_of_heap hp))
      -- both ends of the loop give the directory back and return what has been found
      have hput : ∀ (o : Option NodeId) {t₂ : Volume δ}, t₁.SameKin t₂ → t₁.Explored t₂ →
          (t.ef.upcase.isSome = true ∨ o.isSome = true → t₂.Finds parent name o) → wp (do
            exfatPutNode parent
            pure (o.elim (.error .enoent) .ok : Except Errno NodeId))
          (fun r t' => t.LookedUp parent comp r t') anyStop t₂ := by
        intro o t₂ h₂ hexplored₂ ho
        rw [wp_bind]
        refine wp_conseq (wp_exfatPutNode parent t₂) ?_
        rintro _ t₃ ⟨h₃, hexplored₃⟩
        have ht₂ := h₂.linked ht₁
        have hread₃ : t₂.Read t₃ := TreeRel.kin h₃
        refine ⟨h₃.linked ht₂, (hexplored₁.trans ht hexplored₂).trans ht hexplored₃,
          fun {i} hi => ⟨name, hname, ?_⟩, fun hr hup => ⟨name, hname, ?_⟩⟩
        · cases o with
          | some j =>
            cases hi
            exact (ho (.inr rfl)).read ht₂ hread₃
          | none => cases hi
        · cases o with
          | some j => cases hr
          | none => exact (ho (.inl hup)).read ht₂ hread₃
      rw [wp_bind]
      -- Without an up-case table nothing can be compared: only an empty list is gone through.
      cases hu : t₁.ef.upcase with
      | none =>
        have hnone : t.ef.upcase = none := by
          cases hup : t.ef.upcase with
          | none => rfl
          | some u => cases hu.symm.trans (hexplored₁.upcase u hup)
        refine wp_conseq (wp_lookupLoop_none p.child hu) ?_
        rintro r t₂ ⟨rfl, rfl⟩
        refine hput none (refl_of Volume.SameKin _) (.refl _) fun h => ?_
        rw [hnone] at h
        simp at h
      -- With it the loop is `List.find?` on the folded names.
      | some u =>
        refine wp_conseq (wp_lookupLoop p.child ht₁ hu) ?_
        rintro r t₂ ⟨h₂, hexplored₂, hr⟩
        have hkin₂ : t₂.kin = t₁.kin := h₂.view
        have hfinds : t₂.Finds parent name r := by
          refine ⟨k, u, hkin₂ ▸ hk, hc, h₂.upcase u hu, ?_⟩
          rw [hkin₂, hkp]
          exact hr
        cases r with
        | some i => exact hput (some i) h₂ hexplored₂ fun _ => hfinds
        | none => exact hput none h₂ hexplored₂ fun _ => hfinds

/-- In a directory that has been read the result is known beforehand. -/
theorem wp_lookupName_finds {parent : NodeId} {comp : List UInt8} {name : List Nat} {i : NodeId}
    {t : Volume δ} (ht : t.Linked) (hname : exfatUtf8ToUtf16 comp (nameMax + 1) = .ok name)
    (hf : t.Finds parent name (some i)) :
    wp (lookupName parent comp) (fun r t' => t.SameKin t' ∧ r = .ok i) anyStop t := by
  obtain ⟨k, u, hk, hc, hu, hfind⟩ := hf
  unfold lookupName
  rw [hname]
  dsimp only
  rw [wp_bind]
  -- the directory has been read, so `exfat_opendir` reads nothing
  unfold exfatOpendir
  rw [wp_bind]
  refine wp_mono (kin_exfatGetNode parent t) ?_ (fun _ _ _ => trivial)
  intro _ t₁ h₁
  have hkin₁ : t₁.kin = t.kin := h₁.view
  rw [wp_bind]
  unfold exfatCacheDirectory
  rw [wp_bind]
  refine wp_getNode trivial fun p hp => ?_
  have hkp : k = p.kin := Option.some.inj (hk.symm.trans (hkin₁ ▸ Volume.kin_of_heap hp))
  have hcp : p.isCached = true := by
    rw [hkp] at hc
    exact hc
  rw [if_pos hcp, wp_pure]
  dsimp only
  rw [wp_pure]
  dsimp only
  rw [wp_bind]
  refine wp_getNode trivial fun p' hp' => ?_
  cases hp.symm.trans hp'
  rw [wp_bind]
  -- the first child with the name is `i`
  refine wp_conseq (wp_lookupLoop p.child (h₁.linked ht) (h₁.upcase u hu)) ?_
  rintro r t₂ ⟨h₂, -, hr⟩
  have hsome : r = some i := by
    rw [hr, hkin₁, hfind, hkp]
    rfl
  subst hsome
  dsimp only
  rw [wp_bind]
  refine wp_mono (kin_exfatPutNode parent t₂) ?_ (fun _ _ _ => trivial)
  intro _ t₃ h₃
  exact ⟨trans_of Volume.SameKin h₁ (trans_of Volume.SameKin h₂ h₃), rfl⟩

end Device

/-! ### Whole paths -/

/-- The path leads from `d` to the directory `dir`, with the component `last` left. -/
def Volume.Walks (t : Volume δ) (dir : NodeId) (last : List UInt8) :
    (fuel : Nat) → (d : NodeId) → (path : List UInt8) → Prop
  | 0, _, _ => False
  | fuel + 1, d, path =>
    let comp := (getComp path).1
    let rest := (getComp path).2
    ¬ comp.isEmpty ∧
      if comp = [dot] then t.Walks dir last fuel d rest
      else if isLastComp rest then d = dir ∧ comp = last
      else ∃ name i, exfatUtf8ToUtf16 comp (nameMax + 1) = .ok name ∧ t.Finds d name (some i) ∧
        t.Walks dir last fuel i rest

/-- A child is one level deeper. -/
theorem Volume.Finds.depth {t : Volume δ} (ht : t.Linked) {d i : NodeId} {name : List Nat} {n : Nat}
    (h : t.Finds d name (some i)) (hd : t.Depth d n) : t.Depth i (n + 1) := by
  obtain ⟨k, u, hk, -, -, hfind⟩ := h
  obtain ⟨c, hc, hp⟩ := ht.down hk (List.mem_of_find?_eq_some hfind.symm)
  exact .child hc hp hd

/-- A path leads downwards. -/
theorem Volume.Walks.depth {t : Volume δ} (ht : t.Linked) {dir : NodeId} {last : List UInt8}
    {fuel : Nat} {d : NodeId} {path : List UInt8} {n : Nat} (h : t.Walks dir last fuel d path)
    (hd : t.Depth d n) : ∃ m, n ≤ m ∧ t.Depth dir m := by
  induction fuel generalizing d path n with
  | zero => exact h.elim
  | succ fuel ih =>
    obtain ⟨-, h⟩ := h
    split at h
    · exact ih h hd
    · split at h
      · exact ⟨n, Nat.le_refl n, h.1 ▸ hd⟩
      · obtain ⟨name, i, -, hf, hrest⟩ := h
        obtain ⟨m, hm, hdepth⟩ := ih hrest (hf.depth ht hd)
        exact ⟨m, Nat.le_of_succ_le hm, hdepth⟩

/-- A path leads to where it did while the directories before its last are as they were. -/
theorem Volume.Walks.transfer {t t' : Volume δ} (ht : t.Linked) {dir : NodeId} {last : List UInt8}
    (hd : ∀ {d k}, d ≠ dir → t.kin d = some k → k.isCached = true →
      ∃ k', t'.kin d = some k' ∧ k'.child = k.child ∧ k'.isCached = true)
    (hname : ∀ {x k}, t.kin x = some k → ∃ k', t'.kin x = some k' ∧ k'.name = k.name)
    (hu : t.ef.Settled t'.ef) {fuel : Nat} {d : NodeId} {path : List UInt8} {n : Nat}
    (h : t.Walks dir last fuel d path) (hdepth : t.Depth d n) : t'.Walks dir last fuel d path := by
  -- On the components.  Along the way only `dir` may have changed, and the way ends there.
  induction fuel generalizing d path n with
  | zero => exact h.elim
  | succ fuel ih =>
    obtain ⟨hcomp, h⟩ := h
    refine ⟨hcomp, ?_⟩
    split at h
    next hdot =>
      rw [if_pos hdot]
      exact ih h hdepth
    next hdot =>
      rw [if_neg hdot]
      split at h
      next hlast =>
        rw [if_pos hlast]
        exact h
      next hlast =>
        rw [if_neg hlast]
        obtain ⟨name, i, hutf, hf, hrest⟩ := h
        have hi := hf.depth ht hdepth
        -- the directory lies above the last one
        have hne : d ≠ dir := by
          rintro rfl
          obtain ⟨m, hm, hdir⟩ := hrest.depth ht hi
          have := KinDepth.unique ht hdir hdepth
          omega
        exact ⟨name, i, hutf, hf.transfer ht (hd hne) hname hu, ih hrest hi⟩

/-- A path leads to where it led when directories are read. -/
theorem Volume.Walks.read {t t' : Volume δ} (ht : t.Linked) (h : t.Read t') {dir : NodeId}
    {last : List UInt8} {fuel : Nat} {d : NodeId} {path : List UInt8} {n : Nat}
    (hw : t.Walks dir last fuel d path) (hd : t.Depth d n) : t'.Walks dir last fuel d path :=
  hw.transfer ht (fun _ hx hc => ⟨_, h.kept hx hc, rfl, hc⟩) h.names h.upcase hd

section Device

variable [Device δ]

/-- What `exfat_split` returns is the directory the path leads to, the name that is left, and the
child with this name. -/
structure Volume.SplitAt (t : Volume δ) (fuel : Nat) (d : NodeId)
    (path : List UInt8) (upcase : Bool) (s : Split) : Prop where
  walks : ∃ last, t.Walks s.parent last fuel d path ∧
    exfatUtf8ToUtf16 last (nameMax + 1) = .ok s.name
  finds : upcase = true ∨ s.node.isSome = true → t.Finds s.parent s.name s.node

/-- The volume after the last component. -/
structure Volume.SplitLast (t : Volume δ) (parent : NodeId) (comp : List UInt8)
    (r : Except Errno Split) (t' : Volume δ) : Prop where
  linked : t'.Linked
  explored : t.Explored t'
  dir : ∀ {s}, r = .ok s → s.parent = parent
  name : ∀ {s}, r = .ok s → exfatUtf8ToUtf16 comp (nameMax + 1) = .ok s.name
  finds : ∀ {s}, r = .ok s → t.ef.upcase.isSome = true ∨ s.node.isSome = true →
    t'.Finds parent s.name s.node

/-- The last component of a path is looked up in its directory. -/
theorem wp_splitLast {parent : NodeId} {comp : List UInt8} {n : Nat} {t : Volume δ} (ht : t.Linked)
    (hd : t.Depth parent n) :
    wp (splitLast parent comp) (fun r t' => t.SplitLast parent comp r t') anyStop t := by
  -- whatever fails, the directory is given back
  have hfail : ∀ (e : Errno) {t' : Volume δ}, t'.Linked → t.Explored t' → wp (do
      exfatPutNode parent
      pure (.error e : Except Errno Split)) (fun r t' => t.SplitLast parent comp r t')
        anyStop t' := by
    intro e t' ht' h'
    rw [wp_bind]
    refine wp_conseq (wp_exfatPutNode parent t') ?_
    rintro _ t'' ⟨h'', hexplored''⟩
    exact ⟨h''.linked ht', h'.trans ht hexplored'', nofun, nofun, nofun⟩
  -- A name with a forbidden character is refused before it is converted.
  unfold splitLast
  split
  · exact hfail _ ht (.refl t)
  · cases hname : exfatUtf8ToUtf16 comp (nameMax + 1) with
    | error e => exact hfail e ht (.refl t)
    | ok name =>
      dsimp only
      rw [wp_bind]
      refine wp_conseq (wp_lookupName ht hd) ?_
      intro r t₁ h₁
      -- Found, not found, or failed: the source tells the last two apart by `ENOENT`.
      split
      next i =>
        obtain ⟨name', hname', hfinds⟩ := h₁.found rfl
        cases hname.symm.trans hname'
        refine ⟨h₁.linked, h₁.explored, fun hs => ?_, fun hs => ?_, fun hs _ => ?_⟩
        · cases hs
          rfl
        · cases hs
          exact hname
        · cases hs
          exact hfinds
      · refine ⟨h₁.linked, h₁.explored, fun hs => ?_, fun hs => ?_, fun hs hup => ?_⟩
        · cases hs
          rfl
        · cases hs
          exact hname
        · cases hs
          obtain ⟨name', hname', hfinds⟩ := h₁.noent rfl (hup.resolve_right Bool.false_ne_true)
          cases hname.symm.trans hname'
          exact hfinds
      · exact hfail _ h₁.linked h₁.explored

/-- A path is split at its last component. -/
theorem wp_splitPath (fuel : Nat) {parent : NodeId} {path : List UInt8} {n : Nat} {t : Volume δ}
    (ht : t.Linked) (hd : t.Depth parent n) :
    wp (splitPath fuel parent path) (fun r t' => t'.Linked ∧ t.Explored t' ∧ ∀ s, r = .ok s →
      t'.SplitAt fuel parent path t.ef.upcase.isSome s) anyStop t := by
  -- On the components, with the depth of the directory that has been reached.
  induction fuel generalizing parent path n t with
  | zero => exact trivial
  | succ fuel ih =>
    unfold splitPath
    dsimp only
    split
    · exact trivial
    next hcomp =>
    -- a component that is a single dot is skipped
    split
    next hdot =>
      refine wp_conseq (ih ht hd) ?_
      rintro r t' ⟨ht', h', hs⟩
      refine ⟨ht', h', fun s hr => ⟨?_, (hs s hr).finds⟩⟩
      obtain ⟨last, hw, hname⟩ := (hs s hr).walks
      exact ⟨last, ⟨hcomp, by rw [if_pos hdot]; exact hw⟩, hname⟩
    next hdot =>
    -- the last component goes to `split_last`, the others are looked up
    split
    next hlast =>
      refine wp_conseq (wp_splitLast ht hd) ?_
      intro r t' h'
      refine ⟨h'.linked, h'.explored, fun s hr => ⟨?_, ?_⟩⟩
      · refine ⟨_, ⟨hcomp, ?_⟩, h'.name hr⟩
        rw [if_neg hdot, if_pos hlast]
        exact ⟨(h'.dir hr).symm, rfl⟩
      · rw [h'.dir hr]
        exact h'.finds hr
    next hlast =>
      rw [wp_bind]
      refine wp_conseq (wp_lookupName ht hd) ?_
      intro r t₁ h₁
      have ht₁ := h₁.linked
      cases r with
      | error e =>
        dsimp only
        rw [wp_bind]
        refine wp_conseq (wp_exfatPutNode parent t₁) ?_
        rintro _ t₂ ⟨h₂, hexplored₂⟩
        exact ⟨h₂.linked ht₁, h₁.explored.trans ht hexplored₂, by simp⟩
      | ok i =>
        obtain ⟨name, hutf, hf⟩ := h₁.found rfl
        dsimp only
        rw [wp_bind]
        refine wp_conseq (wp_exfatPutNode parent t₁) ?_
        rintro _ t₂ ⟨h₂, hexplored₂⟩
        have ht₂ := h₂.linked ht₁
        have h₁₂ : t.Explored t₂ := h₁.explored.trans ht hexplored₂
        have hf₂ : t₂.Finds parent name (some i) := hf.read ht₁ (TreeRel.kin h₂)
        have hi : t₂.Depth i (n + 1) := hf₂.depth ht₂ (h₁₂.toGrown.depth hd)
        -- the next directory is one level deeper
        refine wp_conseq (ih ht₂ hi) ?_
        rintro r t₃ ⟨ht₃, h₃, hs⟩
        refine ⟨ht₃, h₁₂.trans ht h₃, fun s hr =>
          ⟨?_, fun hup => (hs s hr).finds (hup.imp_left h₁₂.upcase.isSome)⟩⟩
        obtain ⟨last, hw, hname⟩ := (hs s hr).walks
        refine ⟨last, ⟨hcomp, ?_⟩, hname⟩
        rw [if_neg hdot, if_neg hlast]
        exact ⟨name, i, hutf, hf₂.read ht₂ h₃.toRead, hw⟩

/-- `exfat_split` splits a path at its last component. -/
theorem wp_exfatSplit {path : List UInt8} {t : Volume δ} (ht : t.Linked) :
    wp (exfatSplit path) (fun r t' => t'.Linked ∧ t.Explored t' ∧ ∀ s, r = .ok s →
      t'.SplitAt path.length t'.root path t.ef.upcase.isSome s) anyStop t := by
  unfold exfatSplit
  rw [wp_bind, wp_get, wp_bind]
  refine wp_conseq (wp_exfatGetNode t.root t) ?_
  rintro _ t₁ ⟨h₁, hexplored₁⟩
  have hroot : t₁.Depth t.root 0 := h₁.root ▸ .root
  refine wp_conseq (wp_splitPath path.length (h₁.linked ht) hroot) ?_
  rintro r t₂ ⟨ht₂, h₂, hs⟩
  have h₁₂ : t.Explored t₂ := hexplored₁.trans ht h₂
  refine ⟨ht₂, h₁₂, fun s hr => ?_⟩
  rw [h₁₂.root]
  exact ⟨(hs s hr).walks, fun hup => (hs s hr).finds (hup.imp_left h₁.upcase.isSome)⟩

/-- Looking up a path whose way is known. -/
theorem wp_lookupPath_walks {dir i : NodeId} {last : List UInt8} {name : List Nat}
    (hname : exfatUtf8ToUtf16 last (nameMax + 1) = .ok name) (fuel : Nat) {d : NodeId}
    {path : List UInt8} {n : Nat} {t : Volume δ} (ht : t.Linked) (hw : t.Walks dir last fuel d path)
    (hd : t.Depth d n) (hf : t.Finds dir name (some i)) :
    wp (lookupPath fuel d path) (fun r t' => t.SameKin t' ∧ r = .ok i) anyStop t := by
  -- On the components; the directories along the way have been read, so nothing changes.
  induction fuel generalizing d path n t with
  | zero => exact hw.elim
  | succ fuel ih =>
    obtain ⟨hcomp, hw⟩ := hw
    unfold lookupPath
    dsimp only
    rw [if_neg hcomp]
    split at hw
    next hdot =>
      rw [if_pos hdot]
      exact ih ht hw hd hf
    next hdot =>
      rw [if_neg hdot, wp_bind]
      -- The last component leads to `i`, and the loop ends behind it.
      split at hw
      next hlast =>
        obtain ⟨rfl, rfl⟩ := hw
        refine wp_conseq (wp_lookupName_finds ht hname hf) ?_
        rintro r t₁ ⟨h₁, rfl⟩
        dsimp only
        rw [wp_bind]
        refine wp_mono (kin_exfatPutNode d t₁) ?_ (fun _ _ _ => trivial)
        intro _ t₂ h₂
        have h₁₂ : t.SameKin t₂ := trans_of Volume.SameKin h₁ h₂
        cases fuel with
        | zero => exact ⟨h₁₂, rfl⟩
        | succ fuel =>
          unfold lookupPath
          dsimp only
          rw [if_pos (show (getComp (getComp path).2).1.isEmpty = true from hlast)]
          exact ⟨h₁₂, rfl⟩
      -- The next component leads to a directory that is known, too.
      next hlast =>
        obtain ⟨name', j, hutf, hf', hrest⟩ := hw
        refine wp_conseq (wp_lookupName_finds ht hutf hf') ?_
        rintro r t₁ ⟨h₁, rfl⟩
        dsimp only
        rw [wp_bind]
        refine wp_mono (kin_exfatPutNode d t₁) ?_ (fun _ _ _ => trivial)
        intro _ t₂ h₂
        have h₁₂ : t.SameKin t₂ := trans_of Volume.SameKin h₁ h₂
        have hread : t.Read t₂ := TreeRel.kin h₁₂
        have hj := hf'.depth ht hd
        refine wp_conseq (ih (h₁₂.linked ht) (hrest.read ht hread hj) (hread.toGrown.depth hj)
          (hf.read ht hread)) ?_
        rintro r t₃ ⟨h₃, hr⟩
        exact ⟨trans_of Volume.SameKin h₁₂ h₃, hr⟩

/-! ### Making a node -/

omit [Device δ] in
/-- A name compares equal to itself without the padding. -/
theorem compareName_take (u : Nat → Nat) (name : List Nat) :
    compareName u name (name.take (utf16Length name)) = true := by
  induction name with
  | nil => rfl
  | cons a as ih =>
    by_cases ha : a = 0
    · subst ha
      exact beq_self_eq_true (u 0)
    · have hlen : utf16Length (a :: as) = utf16Length as + 1 := by
        unfold utf16Length
        rw [List.takeWhile_cons_of_pos (by simpa using ha), List.length_cons]
      rw [hlen, List.take_succ_cons, compareName, if_pos ⟨ha, ha⟩, if_neg (fun h => h rfl)]
      exact ih

omit [Device δ] in
/-- The nodes other than the directory have the children they had. -/
theorem Volume.Committed.child_of_ne {t t' : Volume δ} {dir : NodeId} {k : Kin}
    (h : t.Committed dir k t') (ht : t.Linked) {x : NodeId} {l : Kin} (hne : x ≠ dir)
    (hx : t.kin x = some l) :
    ∃ l', t'.kin x = some l' ∧ l'.child = l.child ∧ l'.isCached = l.isCached := by
  have hfresh : x ≠ t.fresh := Nat.ne_of_lt (ht.lt hx)
  rw [h.kin, attached, Function.update_of_ne hfresh, hx, Option.map_some]
  exact ⟨_, rfl, if_neg hne, rfl⟩

omit [Device δ] in
/-- The new child is the first one with its name. -/
theorem Volume.Committed.finds {t t' : Volume δ} {dir : NodeId} {k m : Kin} {u : Nat → Nat}
    {name : List Nat} (h : t.Committed dir k t') (ht : t.Linked)
    (hk : k.name = name.take (utf16Length name)) (hu : t'.ef.upcase = some u)
    (hdir : t.kin dir = some m) (hm : m.isCached = true) : t'.Finds dir name (some t.fresh) := by
  have hne : dir ≠ t.fresh := Nat.ne_of_lt (ht.lt hdir)
  have hdir' : ∃ m', t'.kin dir = some m' ∧ m'.child = t.fresh :: m.child ∧ m'.isCached = true := by
    rw [h.kin, attached, Function.update_of_ne hne, hdir, Option.map_some]
    exact ⟨_, rfl, if_pos rfl, hm⟩
  obtain ⟨m', hm', hchild, hc'⟩ := hdir'
  refine ⟨m', u, hm', hc', hu, ?_⟩
  · have hnew : (t'.kin t.fresh).any (fun c => compareName u name c.name) = true := by
      rw [h.kin, attached, Function.update_self, Option.map_some, Option.any_some, hk]
      exact compareName_take u name
    rw [hchild, List.find?_cons, hnew]

/-- What a path leads to is what `exfat_lookup` returns for it. -/
theorem wp_exfatLookup_walks {t : Volume δ} {dir i : NodeId} {path last : List UInt8}
    {name : List Nat} (hname : exfatUtf8ToUtf16 last (nameMax + 1) = .ok name) (ht : t.Linked)
    (hw : t.Walks dir last path.length t.root path) (hfinds : t.Finds dir name (some i)) :
    wp (exfatLookup path) (fun r t' => t.SameKin t' ∧ r = .ok i) anyStop t := by
  unfold exfatLookup
  rw [wp_bind, wp_get, wp_bind]
  refine wp_mono (kin_exfatGetNode t.root t) ?_ (fun _ _ _ => trivial)
  intro _ t₁ h₁
  have hread : t.Read t₁ := TreeRel.kin h₁
  have hroot : t₁.Depth t.root 0 := h₁.root ▸ .root
  refine wp_conseq
    (wp_lookupPath_walks hname path.length (h₁.linked ht) (hw.read ht hread .root) hroot
    (hfinds.read ht hread)) ?_
  rintro r t₂ ⟨h₂, hr⟩
  exact ⟨trans_of Volume.SameKin h₁ h₂, hr⟩

/-- What `create` has done when it returns `r`: at most it has made a node in the directory the path
leads to, under a name that was not there. -/
inductive Volume.Creates (t : Volume δ) (path : List UInt8) (attrib : Nat) (t' : Volume δ) :
    Rc → Prop
  | failed {t₁ : Volume δ} {e : Errno} (hx : t.Explored t₁) (ht₁ : t₁.Linked) (h : t₁.SameKin t') :
      t.Creates path attrib t' (.error e)
  | made {t₁ t₂ t₃ : Volume δ} {dir : NodeId} {last : List UInt8} {name : List Nat} {k m : Kin}
      {u : Nat → Nat} {r : Rc} (hx : t.Explored t₁) (ht₁ : t₁.Linked)
      (hw : t₁.Walks dir last path.length t₁.root path)
      (hname : exfatUtf8ToUtf16 last (nameMax + 1) = .ok name)
      (hnone : t.ef.upcase.isSome = true → t₁.Finds dir name none) (hslot : t₁.SameKin t₂)
      (hdir : t₂.kin dir = some m) (hm : m.isCached = true) (hk : k.IsLoose)
      (hkname : k.name = name.take (utf16Length name)) (hkdir : k.isDir = attrib.testBit 4)
      (hcommit : t₂.Committed dir k t₃) (hu : t₃.ef.upcase = some u) (h : t₃.SameKin t') :
      t.Creates path attrib t' r

/-- `create` makes a node, or fails. -/
theorem wp_create (path : List UInt8) (attrib : Nat) {t : Volume δ} (ht : t.Linked) :
    wp (create path attrib) (fun r t' => t.Creates path attrib t' r) anyStop t := by
  unfold create
  rw [wp_bind]
  refine wp_conseq (wp_exfatSplit ht) ?_
  rintro r t₁ ⟨ht₁, h₁, hs⟩
  -- every failure gives the directory back
  have hput : ∀ (dir : NodeId) (e : Errno) {t' : Volume δ}, t₁.SameKin t' → wp (do
      exfatPutNode dir
      pure (.error e : Rc)) (fun r t'' => t.Creates path attrib t'' r) anyStop t' := by
    intro dir e t' h'
    rw [wp_bind]
    refine wp_mono (kin_exfatPutNode dir t') ?_ (fun _ _ _ => trivial)
    intro _ t'' h''
    exact .failed h₁ ht₁ (trans_of Volume.SameKin h' h'')
  match r with
  | .error e => exact .failed h₁ ht₁ (refl_of Volume.SameKin t₁)
  -- the name is taken
  | .ok ⟨dir, some existing, name⟩ =>
    dsimp only
    rw [wp_bind]
    refine wp_mono (kin_exfatPutNode existing t₁) ?_ (fun _ _ _ => trivial)
    intro _ t₂ h₂
    exact hput dir _ h₂
  -- The name is free: a slot is found, the entries are written and the node is linked.
  | .ok ⟨dir, none, name⟩ =>
    obtain ⟨last, hw, hname⟩ := (hs _ rfl).walks
    have hnone := (hs _ rfl).finds
    dsimp only at hw hname hnone ⊢
    rw [wp_bind]
    refine wp_conseq (wp_findSlot dir _ t₁) ?_
    rintro r t₂ ⟨h₂, m, hdir, hm⟩
    cases r with
    | error e => exact hput dir e h₂
    | ok offset =>
      dsimp only
      rw [wp_bind]
      refine wp_conseq (wp_commitEntry dir name offset attrib t₂) ?_
      intro r t₃ h₃
      cases r with
      | error e => exact hput dir e (trans_of Volume.SameKin h₂ h₃)
      | ok _ =>
        obtain ⟨u, k, hu, hk, hkname, hkdir, hcommit⟩ := h₃
        dsimp only
        -- What follows touches the times and the entry of the directory, not the tree.
        rw [wp_bind]
        have hmtime : Keeps Volume.SameKin (onNode dir (exfatUpdateMtime (δ := δ))) :=
          links_onNode dir (keeps_exfatUpdateMtime (δ := δ))
        refine wp_mono (hmtime t₃) ?_ (fun _ _ _ => trivial)
        intro _ t₄ h₄
        rw [wp_bind]
        refine wp_mono (links_exfatFlushNode (π := Node.kin) dir t₄) ?_ (fun _ _ _ => trivial)
        intro rc t₅ h₅
        rw [wp_bind]
        refine wp_mono (kin_exfatPutNode dir t₅) ?_ (fun _ _ _ => trivial)
        intro _ t₆ h₆
        exact .made h₁ ht₁ hw hname (fun hup => hnone (.inl hup)) h₂ hdir hm hk hkname hkdir hcommit
          hu (trans_of Volume.SameKin h₄ (trans_of Volume.SameKin h₅ h₆))

/-- The tree is linked after `create`. -/
theorem Volume.Creates.linked {t t' : Volume δ} {path : List UInt8} {attrib : Nat} {r : Rc}
    (h : t.Creates path attrib t' r) : t'.Linked := by
  cases h with
  | failed _ ht₁ h => exact h.linked ht₁
  | made _ ht₁ _ _ _ hslot hdir hm hk _ _ hcommit _ h =>
    exact h.linked (hcommit.linked (hslot.linked ht₁) hk hdir hm)

/-- The tree has grown after `create`. -/
theorem Volume.Creates.grown {t t' : Volume δ} {path : List UInt8} {attrib : Nat} {r : Rc}
    (h : t.Creates path attrib t' r) (ht : t.Linked) : t.Grown ∅ ∅ t' := by
  cases h with
  | failed hx _ h => exact hx.toGrown.trans ht h.grown
  | made hx ht₁ _ _ _ hslot _ _ _ _ _ hcommit _ h =>
    have h₁₂ : t.Grown ∅ ∅ _ := hx.toGrown.trans ht hslot.grown
    exact (h₁₂.trans ht (hcommit.grown (hslot.linked ht₁))).trans ht h.grown

/-- The path leads to the node that has been made. -/
theorem Volume.Creates.found {t t' : Volume δ} {path : List UInt8} {attrib : Nat}
    (h : t.Creates path attrib t' (.ok ())) :
    ∃ dir last name f k, t.fresh ≤ f ∧ t'.fresh = f + 1 ∧
      t'.Walks dir last path.length t'.root path ∧
      exfatUtf8ToUtf16 last (nameMax + 1) = .ok name ∧ t'.Finds dir name (some f) ∧
      t'.kin f = some k ∧ k.isCached = false ∧ k.isDir = attrib.testBit 4 ∧
      k.name = name.take (utf16Length name) := by
  cases h with
  | @made t₁ t₂ t₃ dir last name k m u _ hx ht₁ hw hname _ hslot hdir hm hk hkname
    hkdir hcommit hu h =>
    have ht₂ := hslot.linked ht₁
    have ht₃ := hcommit.linked ht₂ hk hdir hm
    have hread₂ : t₁.Read t₂ := TreeRel.kin hslot
    have hread : t₃.Read t' := TreeRel.kin h
    have hview : t'.kin = t₃.kin := h.view
    have hw₂ : t₂.Walks dir last path.length t₂.root path := by
      rw [hslot.root]
      exact hw.read ht₁ hread₂ .root
    have hw₃ : t₃.Walks dir last path.length t₂.root path := by
      -- making the node has changed the list of `dir` only
      refine hw₂.transfer ht₂ (fun hne hx hc => ?_) (fun hx => ?_) hcommit.upcase .root
      · obtain ⟨l, hl, hchild, hcached⟩ := hcommit.child_of_ne ht₂ hne hx
        exact ⟨l, hl, hchild, hcached.trans hc⟩
      · obtain ⟨k', hx', -⟩ := (hcommit.grown ht₂).grown.stays hx (Set.notMem_empty _)
        refine ⟨k', hx', ?_⟩
        rw [(hcommit.grown ht₂).grown.same hx hx' (Set.notMem_empty _)]
    have hnew : ∃ l, t₃.kin t₂.fresh = some l ∧ l.isCached = false ∧ l.isDir = attrib.testBit 4 ∧
        l.name = name.take (utf16Length name) := by
      rw [hcommit.kin, attached, Function.update_self, Option.map_some]
      exact ⟨_, rfl, hk.isCached, hkdir, hkname⟩
    obtain ⟨l, hl, hno⟩ := hnew
    have hroot₃ : t₃.Depth t₂.root 0 := hcommit.root ▸ .root
    refine ⟨dir, last, name, t₂.fresh, l, ?_, h.fresh.trans hcommit.fresh, ?_, hname, ?_, ?_, hno⟩
    · rw [hslot.fresh]
      exact hx.grown.le
    · rw [h.root, hcommit.root]
      exact hw₃.read ht₃ hread hroot₃
    · exact (hcommit.finds ht₂ hkname hu hdir hm).read ht₃ hread
    · rw [hview]
      exact hl

/-- `create` lets the tree grow. -/
theorem tends_create (path : List UInt8) (attrib : Nat) :
    Tends (Volume.Grown ∅ ∅) (create (δ := δ) path attrib) := fun _ ht =>
  wp_conseq (wp_create path attrib ht) fun _ _ h => ⟨h.linked, h.grown ht⟩

omit [Device δ] in
/-- A node that was not there before does not count. -/
theorem Volume.Grown.of_fresh {t t' : Volume δ} (ht : t.Linked) {i : NodeId} (hi : t.fresh ≤ i)
    (h : t.Grown {i} {i} t') : t.Grown ∅ ∅ t' := by
  have hne : ∀ {x k}, t.kin x = some k → x ∉ ({i} : Set NodeId) := by
    rintro x k hx rfl
    exact absurd (ht.lt hx) (Nat.not_lt.2 hi)
  refine ⟨h.root, h.upcase, h.grown.le, h.grown.dead, fun hx _ => h.grown.stays hx (hne hx),
    fun hx hx' hs _ => ?_, h.grown.cached, fun hx hx' _ => h.grown.same hx hx' (hne hx)⟩
  obtain ⟨k, hk, -⟩ := ht.down hx hs
  exact h.grown.child hx hx' hs (hne hk)

/-- `exfat_mkdir` adds a directory, or nothing. -/
theorem tends_exfatMkdir (path : List UInt8) :
    Tends (Volume.Grown ∅ ∅) (exfatMkdir (δ := δ) path) := by
  intro t ht
  unfold exfatMkdir
  rw [wp_bind]
  refine wp_conseq (wp_create path attribDir ht) ?_
  intro r t₁ hcreate
  have ht₁ := hcreate.linked
  have h₁ := hcreate.grown ht
  cases r with
  | error e => exact ⟨ht₁, h₁⟩
  | ok _ =>
    obtain ⟨dir, last, name, f, -, hf, -, hw, hname, hfinds, -⟩ := hcreate.found
    dsimp only
    rw [wp_bind]
    refine wp_conseq (wp_exfatLookup_walks hname ht₁ hw hfinds) ?_
    rintro r t₃ ⟨h₃, rfl⟩
    have ht₃ := h₃.linked ht₁
    -- the path leads to the new node, so this lookup cannot fail
    have hgrown₃ : t.Grown ∅ ∅ t₃ := h₁.trans ht h₃.grown
    -- what is undone is the node that has been made
    have hundo : ∀ e : Errno, Tends (Volume.Grown {f} {f}) (undoMkdir (δ := δ) f e) := fun e =>
      Tends.bind (tends_delete f) fun _ => Tends.skip (kin_exfatPutNode f) fun _ => Tends.pure _
    refine wp_conseq (Tends.look (R := Volume.Grown {f} {f}) (fun t =>
      Tends.skip (links_onNode f (keeps_exfatTruncate _ _)) fun r => ?_) t₃ ht₃) ?_
    · cases r with
      | error e => exact hundo e
      | ok _ =>
        refine Tends.skip (links_exfatFlushNode f) fun r => ?_
        cases r with
        | error e => exact hundo e
        | ok _ => exact Tends.skip (kin_exfatPutNode f) fun _ => Tends.pure _
    rintro _ t₄ ⟨ht₄, h₄⟩
    -- the node was not there before, so what happens to it is not seen from the start
    refine ⟨ht₄, Volume.Grown.of_fresh ht hf ?_⟩
    exact (hgrown₃.mono (Set.empty_subset _) (Set.empty_subset _)).trans ht h₄

end Device

/-! ### Paths that go on -/

/-- A path with a component goes on behind it. -/
theorem getComp_append {p q : List UInt8} (h : ¬ (getComp p).1.isEmpty = true) :
    getComp (p ++ slash :: q) = ((getComp p).1, (getComp p).2 ++ slash :: q) := by
  unfold getComp at h ⊢
  dsimp only at h ⊢
  have hne : ¬ (p.dropWhile (· == slash)).isEmpty = true := by
    rw [List.isEmpty_iff]
    intro hnil
    rw [hnil] at h
    exact h rfl
  rw [List.dropWhile_append, if_neg hne]
  generalize p.dropWhile (· == slash) = r
  have htake : (slash :: q).takeWhile (· != slash) = [] := rfl
  have hdrop : (slash :: q).dropWhile (· != slash) = slash :: q := rfl
  rw [List.takeWhile_append, List.dropWhile_append, htake, hdrop, List.append_nil]
  congr 1
  · split
    next hall => exact (((List.takeWhile_prefix _).eq_of_length hall)).symm
    · rfl
  · split
    next hnil => rw [List.isEmpty_iff.1 hnil, List.nil_append]
    · rfl

/-- A path without a component adds nothing. -/
theorem getComp_append_of_empty {p q : List UInt8} (h : (getComp p).1.isEmpty = true) :
    getComp (p ++ slash :: q) = getComp q := by
  have hnil : p.dropWhile (· == slash) = [] := by
    unfold getComp at h
    dsimp only at h
    cases hp : p.dropWhile (· == slash) with
    | nil => rfl
    | cons b bs =>
      have hhead := List.head?_dropWhile_not (· == slash) p
      rw [hp, List.head?_cons] at hhead
      have hb : (b != slash) = true := by simpa using hhead
      rw [hp, List.takeWhile_cons, if_pos hb] at h
      cases h
  unfold getComp
  dsimp only
  rw [List.dropWhile_append, hnil]
  rfl

/-- What is behind a component is shorter than the path. -/
theorem length_getComp_lt {p : List UInt8} (h : ¬ (getComp p).1.isEmpty = true) :
    (getComp p).2.length < p.length := by
  unfold getComp at h ⊢
  dsimp only at h ⊢
  rw [List.isEmpty_iff] at h
  have hpos := List.length_pos_iff.2 h
  have hle := (List.dropWhile_sublist (l := p) (· == slash)).length_le
  have hsum := congrArg List.length
    (List.takeWhile_append_dropWhile (p := (· != slash)) (l := p.dropWhile (· == slash)))
  rw [List.length_append] at hsum
  omega

section Further

variable [Device δ]

/-- A path without components leads to where it begins. -/
theorem lookupPath_empty {d : NodeId} {p : List UInt8} (h : (getComp p).1.isEmpty = true)
    (fuel : Nat) : lookupPath (δ := δ) fuel d p = pure (.ok d) := by
  cases fuel with
  | zero => rfl
  | succ fuel =>
    unfold lookupPath
    dsimp only
    rw [if_pos h]

end Further

end ExFat
