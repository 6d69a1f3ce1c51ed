import ExFat.Fs.Tending

namespace ExFat

open Program

/-!
# The tree between two calls

Between two calls every node in a directory is below the root, and a directory that was removed
while somebody held it had been read before, so that it is never read again.  If the names in each
directory are different ones besides, they stay so, provided the directories that are read from the
device list different names.  `Volume.Sound D H` asks for the names only if `D` holds; `H` are the
nodes somebody got from a call.
-/

variable {δ : Type}

/-! ### How deep a node is -/

/-- The number of directories above a node. -/
inductive KinDepth (K : NodeId → Option Kin) (root : NodeId) : NodeId → Nat → Prop
  | root : KinDepth K root root 0
  | child {d x : NodeId} {k : Kin} {n : Nat} (hx : K x = some k) (hp : k.parent = some d)
      (hd : KinDepth K root d n) : KinDepth K root x (n + 1)

/-- Every node in a directory is below the root. -/
def KinRooted (K : NodeId → Option Kin) (root : NodeId) : Prop :=
  ∀ x k d, K x = some k → k.parent = some d → ∃ n, KinDepth K root x n

section Rooted

variable {K K' : NodeId → Option Kin} {root fresh : NodeId}

/-- A node is as deep as it was while the nodes above it are where they were. -/
theorem KinDepth.mono {x : NodeId} {n : Nat} (h : KinDepth K root x n)
    (hmove : ∀ {y k d}, K y = some k → k.parent = some d → ∃ k', K' y = some k' ∧
      k'.parent = some d) :
    KinDepth K' root x n := by
  induction h with
  | root => exact .root
  | child hx hp _ ih =>
    obtain ⟨k', hx', hp'⟩ := hmove hx hp
    exact .child hx' hp' ih

/-- A node has one depth. -/
theorem KinDepth.unique {x : NodeId} {n m : Nat} (hK : KinLinked K root fresh)
    (h : KinDepth K root x n) (h' : KinDepth K root x m) : n = m := by
  induction h generalizing m with
  | root =>
    cases h' with
    | root => rfl
    | child hx hp _ => cases hp.symm.trans (hK.root hx)
  | child hx hp _ ih =>
    cases h' with
    | root => cases hp.symm.trans (hK.root hx)
    | child hx' hp' hd' =>
      cases hx.symm.trans hx'
      cases hp.symm.trans hp'
      rw [ih hd']

/-- A node below the root is in memory. -/
theorem KinDepth.present {x : NodeId} {n : Nat} (hK : KinLinked K root fresh)
    (h : KinDepth K root x n) : ∃ k, K x = some k := by
  cases h with
  | root =>
    obtain ⟨k, hk, -⟩ := hK.alive
    exact ⟨k, hk⟩
  | child hx => exact ⟨_, hx⟩

/-- Nodes stay where they were, and what is new is in a directory below the root. -/
theorem KinRooted.mono (h : KinRooted K root)
    (hmove : ∀ {y k d}, K y = some k → k.parent = some d → ∃ k', K' y = some k' ∧
      k'.parent = some d)
    (hnew : ∀ {x k' d}, K' x = some k' → k'.parent = some d →
      (∃ k, K x = some k ∧ k.parent = some d) ∨ ∃ n, KinDepth K' root d n) : KinRooted K' root := by
  intro x k' d hx hp
  obtain ⟨k, hk, hkp⟩ | ⟨n, hn⟩ := hnew hx hp
  · obtain ⟨n, hn⟩ := h x k d hk hkp
    exact ⟨n, hn.mono hmove⟩
  · exact ⟨n + 1, .child hx hp hn⟩

/-- The way to the root does not lead through a node that nothing is in. -/
theorem KinDepth.past {x i : NodeId} {n : Nat} (h : KinDepth K root x n) (hne : x ≠ i)
    (hempty : ∀ {y k}, K y = some k → k.parent ≠ some i)
    (hmove : ∀ {y k d}, y ≠ i → K y = some k → k.parent = some d →
      ∃ k', K' y = some k' ∧ k'.parent = some d) : KinDepth K' root x n := by
  induction h with
  | root => exact .root
  | child hx hp _ ih =>
    obtain ⟨k', hx', hp'⟩ := hmove hne hx hp
    refine .child hx' hp' (ih ?_)
    rintro rfl
    exact hempty hx hp

/-- A directory without children is no one's parent. -/
theorem KinLinked.empty (hK : KinLinked K root fresh) {i y : NodeId} {k l : Kin} (hi : K i = some k)
    (hchild : k.child = []) (hy : K y = some l) : l.parent ≠ some i := by
  intro hp
  have hmem := hK.up hy hp hi
  rw [hchild] at hmem
  cases hmem

/-- A node that has no children is taken out of its directory. -/
theorem KinRooted.detached (h : KinRooted K root) (hK : KinLinked K root fresh) {i p : NodeId}
    {k : Kin} (hi : K i = some k) (hchild : k.child = []) : KinRooted (detached K k p i) root := by
  intro x k' d hx hp
  obtain ⟨l, hl, rfl⟩ := Option.map_eq_some_iff.1 hx
  dsimp only at hp
  split at hp
  · cases hp
  next hne =>
    obtain ⟨n, hn⟩ := h x l d hl hp
    refine ⟨n, hn.past hne (fun hy => hK.empty hi hchild hy) fun hne' hy hp' => ?_⟩
    exact ⟨_, Option.map_eq_some_iff.2 ⟨_, hy, rfl⟩, (if_neg hne').trans hp'⟩

/-- A node is moved, with what is below it, to a directory that is not below it. -/
theorem KinRooted.moved (h : KinRooted K root) {i dir : NodeId} {k' : Kin} {n : Nat}
    (hdir : KinDepth (Function.update K i none) root dir n) (hi : K' i = some k')
    (hp : k'.parent = some dir)
    (hother : ∀ {y k}, y ≠ i → K y = some k → ∃ k', K' y = some k' ∧ k'.parent = k.parent)
    (hback : ∀ {y k'}, K' y = some k' → ∃ k, K y = some k) : KinRooted K' root := by
  have hdir' : KinDepth K' root dir n := by
    refine hdir.mono fun {y k d} hy hyd => ?_
    by_cases hyi : y = i
    · rw [hyi, Function.update_self] at hy
      cases hy
    · rw [Function.update_of_ne hyi] at hy
      obtain ⟨k', hk', hsame⟩ := hother hyi hy
      exact ⟨k', hk', hsame.trans hyd⟩
  -- what was below the root is below it again, through the new place of the node if need be
  have hdepth : ∀ {x m}, KinDepth K root x m → ∃ m', KinDepth K' root x m' := by
    intro x m hx
    induction hx with
    | root => exact ⟨0, .root⟩
    | @child d y k m hy hyd _ ih =>
      by_cases hyi : y = i
      · exact ⟨n + 1, hyi ▸ .child hi hp hdir'⟩
      · obtain ⟨k', hk', hsame⟩ := hother hyi hy
        obtain ⟨m', hm'⟩ := ih
        exact ⟨m' + 1, .child hk' (hsame.trans hyd) hm'⟩
  intro x l d hx hxd
  by_cases hxi : x = i
  · exact ⟨n + 1, hxi ▸ .child hi hp hdir'⟩
  · obtain ⟨k, hk⟩ := hback hx
    obtain ⟨l', hl', hsame⟩ := hother hxi hk
    cases hx.symm.trans hl'
    obtain ⟨m, hm⟩ := h x k d hk (hsame.symm.trans hxd)
    exact hdepth hm

end Rooted

/-! ### Names -/

/-- The table leads to the image of the terminator from the terminator only. -/
def Folds (u : Nat → Nat) : Prop := ∀ c, u c = u 0 → c = 0

/-- What `compare_name` compares: the units before the terminator, through the table. -/
def foldName (u : Nat → Nat) (name : List Nat) : List Nat := (name.takeWhile (· ≠ 0)).map u

/-- A name is folded unit by unit. -/
theorem foldName_cons {u : Nat → Nat} {a : Nat} (ha : a ≠ 0) (as : List Nat) :
    foldName u (a :: as) = u a :: foldName u as := by
  unfold foldName
  rw [List.takeWhile_cons_of_pos (by simpa using ha), List.map_cons]

/-- A name ends at a zero unit. -/
theorem foldName_zero (u : Nat → Nat) (as : List Nat) : foldName u (0 :: as) = [] := rfl

/-- `exfat_strcmp` compares the folded names. -/
theorem compareName_iff {u : Nat → Nat} (hu : Folds u) (name name' : List Nat) :
    compareName u name name' = true ↔ foldName u name = foldName u name' := by
  have hzero : ∀ {a : Nat} (as : List Nat), u a = u 0 ↔ foldName u (a :: as) = [] := by
    intro a as
    by_cases ha : a = 0
    · rw [ha, foldName_zero]
      simp
    · rw [foldName_cons ha]
      simpa using fun h => ha (hu a h)
  induction name generalizing name' with
  | nil =>
    cases name' with
    | nil => exact iff_of_true rfl rfl
    | cons b bs =>
      rw [compareName, beq_iff_eq, eq_comm, hzero bs, eq_comm]
      rfl
  | cons a as ih =>
    cases name' with
    | nil =>
      rw [compareName, beq_iff_eq, hzero as]
      rfl
    | cons b bs =>
      unfold compareName
      by_cases ha : a = 0
      · rw [if_neg fun h => h.1 ha, ha, foldName_zero, beq_iff_eq, eq_comm, hzero bs, eq_comm]
      · by_cases hb : b = 0
        · rw [if_neg fun h => h.2 hb, hb, foldName_zero, beq_iff_eq, hzero as]
        · rw [if_pos ⟨ha, hb⟩, foldName_cons ha, foldName_cons hb, List.cons.injEq]
          by_cases heq : u a = u b
          · rw [if_neg fun h => h heq]
            exact (ih bs).trans ⟨fun h => ⟨heq, h⟩, fun h => h.2⟩
          · rw [if_pos heq]
            exact ⟨nofun, fun h => absurd h.1 heq⟩

/-- No two of the nodes have names that match. -/
def KinDistinct (u : Nat → Nat) (K : NodeId → Option Kin) (l : List NodeId) : Prop :=
  ∀ x ∈ l, ∀ y ∈ l, ∀ k k', K x = some k → K y = some k' →
    compareName u k.name k'.name = true → x = y

/-- Fewer nodes with the same names are told apart. -/
theorem KinDistinct.mono {u : Nat → Nat} {K K' : NodeId → Option Kin} {l l' : List NodeId}
    (h : KinDistinct u K l) (hsub : ∀ x ∈ l', x ∈ l)
    (hname : ∀ x ∈ l', ∀ {k'}, K' x = some k' → ∃ k, K x = some k ∧ k.name = k'.name) :
    KinDistinct u K' l' := by
  intro x hx y hy k k' hk hk' hcmp
  obtain ⟨l, hl, hlname⟩ := hname x hx hk
  obtain ⟨l', hl', hlname'⟩ := hname y hy hk'
  refine h x (hsub x hx) y (hsub y hy) l l' hl hl' ?_
  rw [hlname, hlname']
  exact hcmp

/-- A node joins those of a directory, none of which has its name. -/
theorem KinDistinct.cons {u : Nat → Nat} (hu : Folds u) {K : NodeId → Option Kin} {l : List NodeId}
    {i : NodeId} (h : KinDistinct u K l)
    (hi : ∀ y ∈ l, ∀ k k', K i = some k → K y = some k' → compareName u k.name k'.name = false) :
    KinDistinct u K (i :: l) := by
  intro x hx y hy k k' hk hk' hcmp
  obtain rfl | hxl := List.mem_cons.1 hx
  · obtain rfl | hyl := List.mem_cons.1 hy
    · rfl
    · cases (hi y hyl k k' hk hk').symm.trans hcmp
  · obtain rfl | hyl := List.mem_cons.1 hy
    · rw [compareName_iff hu, eq_comm, ← compareName_iff hu] at hcmp
      cases (hi x hxl k' k hk' hk).symm.trans hcmp
    · exact h x hxl y hyl k k' hk hk' hcmp

/-- In every directory in memory the names are different ones. -/
def Volume.Distinct (t : Volume δ) : Prop :=
  ∃ u, t.ef.upcase = some u ∧ Folds u ∧ ∀ d m, t.kin d = some m → KinDistinct u t.kin m.child

/-! ### Volumes -/

/-- The depth of a node in the tree. -/
abbrev Volume.Depth (t : Volume δ) : NodeId → Nat → Prop := KinDepth t.kin t.root

/-- Every node in a directory has a depth. -/
def Volume.Rooted (t : Volume δ) : Prop := KinRooted t.kin t.root

/-- The tree between two calls.  `D` says whether the names are looked at, `H` are the nodes that
were handed out. -/
structure Volume.Sound (D : Prop) (H : Set NodeId) (t : Volume δ) : Prop where
  linked : t.Linked
  rooted : t.Rooted
  distinct : D → t.Distinct
  bound : ∀ {x}, x ∈ H → x < t.fresh
  spent : ∀ {x k}, x ∈ H → t.kin x = some k → k.parent = none →
    k.isDir = true → k.isCached = false →
    x = t.root
  nameless : t.Nameless

/-- A tree of the same form is sound. -/
theorem Volume.SameBy.sound {D : Prop} {H : Set NodeId} {t t' : Volume δ} (h : t.SameKin t')
    (ht : t.Sound D H) : t'.Sound D H := by
  have hview : t'.kin = t.kin := h.view
  refine ⟨h.linked ht.linked, ?_, fun hD => ?_, fun hx => h.fresh.symm ▸ ht.bound hx,
    fun hx hk => ?_,
    fun k hk => ?_⟩
  · unfold Volume.Rooted
    rw [hview, h.root]
    exact ht.rooted
  · obtain ⟨u, hu, hfolds, hall⟩ := ht.distinct hD
    rw [← hview] at hall
    exact ⟨u, h.upcase u hu, hfolds, hall⟩
  · rw [hview] at hk
    rw [h.root]
    exact ht.spent hx hk
  · rw [hview, h.root] at hk
    exact ht.nameless k hk

/-- A node below the root is handed out. -/
theorem Volume.Sound.hold {D : Prop} {H : Set NodeId} {t : Volume δ} {i : NodeId} {n : Nat}
    (ht : t.Sound D H) (hi : t.Depth i n) : t.Sound D (insert i H) := by
  refine ⟨ht.linked, ht.rooted, ht.distinct, fun hx => ?_, fun hx hk hp hd hc => ?_, ht.nameless⟩
  · obtain rfl | hx := hx
    · obtain ⟨k, hk⟩ := hi.present ht.linked
      exact ht.linked.lt hk
    · exact ht.bound hx
  · obtain rfl | hx := hx
    · cases hi with
      | root => rfl
      | child hx' hp' => cases hp.symm.trans (Option.some.inj (hk.symm.trans hx') ▸ hp')
    · exact ht.spent hx hk hp hd hc

/-- The root that was there is still the one without a name. -/
theorem Volume.Sound.nameless_grown {D : Prop} {H : Set NodeId} {t t' : Volume δ} (ht : t.Sound D H)
    (h : t.Grown ∅ ∅ t') : t'.Nameless := by
  intro k' hk'
  obtain ⟨k, hk, -⟩ := ht.linked.alive
  rw [h.root] at hk'
  rw [h.grown.same hk hk' (Set.notMem_empty _)]
  exact ht.nameless k hk

/-- The nodes that were there have not moved. -/
theorem Volume.Sound.spent_grown {D : Prop} {H : Set NodeId} {t t' : Volume δ} (ht : t.Sound D H)
    (h : t.Grown ∅ ∅ t') {x : NodeId} {k' : Kin} (hx : x ∈ H) (hk' : t'.kin x = some k')
    (hp : k'.parent = none) (hd : k'.isDir = true) (hc : k'.isCached = false) : x = t'.root := by
  cases hk : t.kin x with
  | none => cases (h.grown.dead (ht.bound hx) hk).symm.trans hk'
  | some k =>
    have hsame := h.grown.same hk hk' (Set.notMem_empty _)
    rw [hsame] at hp hd
    rw [h.root]
    refine ht.spent hx hk hp hd (Bool.eq_false_iff.2 fun hcached => ?_)
    cases hc.symm.trans (h.grown.cached hk hk' hcached)

/-- The nodes keep their depth when none moves. -/
theorem Volume.Grown.depth {t t' : Volume δ} (h : t.Grown ∅ ∅ t') {x : NodeId} {n : Nat}
    (hx : t.Depth x n) : t'.Depth x n := by
  unfold Volume.Depth at hx ⊢
  rw [h.root]
  refine hx.mono fun hy hp => ?_
  obtain ⟨k', hy', -⟩ := h.grown.stays hy (Set.notMem_empty _)
  refine ⟨k', hy', ?_⟩
  rw [h.grown.same hy hy' (Set.notMem_empty _)]
  exact hp

section Device

variable [Device δ]

/-- A reference is taken or dropped, or a directory is read. -/
def Volume.BrowseStep (t t' : Volume δ) : Prop :=
  (∃ i, exfatGetNode i t = .ok ⟨⟩ t') ∨ (∃ i, exfatPutNode i t = .ok ⟨⟩ t') ∨
    ∃ dir r, exfatCacheDirectory dir t = .ok r t'

/-- Whatever is read from here on, a directory lists different names. -/
def Volume.Lists (t : Volume δ) : Prop :=
  ∀ t₁ t₂ dir d m u, Relation.ReflTransGen Volume.BrowseStep t t₁ → t₁.heap dir = some d →
    d.isCached = false → exfatCacheDirectory dir t₁ = .ok (.ok ()) t₂ → t₂.ef.upcase = some u →
    t₂.kin dir = some m → KinDistinct u t₂.kin m.child

/-- The volume still lists what it listed. -/
theorem Volume.Lists.browse {t t' : Volume δ} (h : t.Lists) (hstep : t.BrowseStep t') : t'.Lists :=
  fun t₁ t₂ dir d m u hreach => h t₁ t₂ dir d m u (.head hstep hreach)

/-- The tree before a call that may read directories. -/
structure Volume.Ready (D : Prop) (H : Set NodeId) (t : Volume δ) : Prop extends t.Sound D H where
  lists : D → t.Lists

/-- Directories below the root have been read. -/
structure Volume.Explored (t t' : Volume δ) : Prop extends t.Read t' where
  ready : ∀ {D H}, t.Ready D H → t'.Ready D H

/-- Nothing has been read. -/
theorem Volume.Explored.refl (t : Volume δ) : t.Explored t := ⟨TreeRel.refl t, id⟩

/-- Directories may be read twice. -/
theorem Volume.Explored.trans {t t₁ t₂ : Volume δ} (ht : t.Linked) (h₁ : t.Explored t₁)
    (h₂ : t₁.Explored t₂) : t.Explored t₂ :=
  ⟨TreeRel.trans ht h₁.toRead h₂.toRead, fun h => h₂.ready (h₁.ready h)⟩

/-- A tree of the same form has been explored. -/
theorem Volume.SameBy.explored {t t' : Volume δ} (h : t.SameKin t') (hstep : t.BrowseStep t') :
    t.Explored t' :=
  ⟨TreeRel.kin h, fun ht => ⟨h.sound ht.toSound, fun hD => (ht.lists hD).browse hstep⟩⟩

/-- `exfat_get_node` leaves the family tree alone. -/
theorem wp_exfatGetNode (i : NodeId) (t : Volume δ) :
    wp (exfatGetNode i) (fun _ t' => t.SameKin t' ∧ t.Explored t') anyStop t := by
  have hkin : wp (exfatGetNode i) (fun _ t' => t.SameKin t') anyStop t :=
    wp_mono (kin_exfatGetNode i t) (fun _ _ h => h) fun _ _ _ => trivial
  refine wp_conseq (wp_run hkin) ?_
  rintro _ t' ⟨hrun, h⟩
  exact ⟨h, h.explored (.inl ⟨i, hrun⟩)⟩

/-- `exfat_put_node` leaves the family tree alone. -/
theorem wp_exfatPutNode (i : NodeId) (t : Volume δ) :
    wp (exfatPutNode i) (fun _ t' => t.SameKin t' ∧ t.Explored t') anyStop t := by
  have hkin : wp (exfatPutNode i) (fun _ t' => t.SameKin t') anyStop t :=
    wp_mono (kin_exfatPutNode i t) (fun _ _ h => h) fun _ _ _ => trivial
  refine wp_conseq (wp_run hkin) ?_
  rintro _ t' ⟨hrun, h⟩
  exact ⟨h, h.explored (.inr (.inl ⟨i, hrun⟩))⟩

omit [Device δ] in
/-- The nodes that were there have the names they had. -/
theorem Volume.Grown.name_back {t t' : Volume δ} (h : t.Grown ∅ ∅ t') {x : NodeId} {k k' : Kin}
    (hx : t.kin x = some k) (hx' : t'.kin x = some k') :
    ∃ k, t.kin x = some k ∧ k.name = k'.name := by
  refine ⟨k, hx, ?_⟩
  rw [h.grown.same hx hx' (Set.notMem_empty _)]

/-- The directory that is read is below the root. -/
theorem Volume.CachedAt.explored {t t' : Volume δ} {dir : NodeId} {r : Rc} {n : Nat}
    (h : t.CachedAt dir r t') (hrun : exfatCacheDirectory dir t = .ok r t') (ht : t.Linked)
    (hd : t.Depth dir n) : t.Explored t' := by
  refine ⟨h.read, fun {D H} hready => ⟨⟨h.linked, ?_, fun hD => ?_,
    fun hx => Nat.lt_of_lt_of_le (hready.bound hx) h.read.grown.le,
    fun hx hk => hready.spent_grown h.read.toGrown hx hk, hready.nameless_grown h.read.toGrown⟩,
    fun hD => ?_⟩⟩
  · unfold Volume.Rooted
    rw [h.read.root]
    have hdir : KinDepth t'.kin t.root dir n := by
      have := h.read.toGrown.depth hd
      unfold Volume.Depth at this
      rwa [h.read.root] at this
    refine hready.rooted.mono (fun hy hp => ?_) fun {x k' d} hx hp => ?_
    · obtain ⟨k', hk', -⟩ := h.read.grown.stays hy (Set.notMem_empty _)
      refine ⟨k', hk', ?_⟩
      rw [h.read.grown.same hy hk' (Set.notMem_empty _)]
      exact hp
    · by_cases hlt : x < t.fresh
      · cases hk : t.kin x with
        | none => cases (h.read.grown.dead hlt hk).symm.trans hx
        | some k =>
          rw [h.read.grown.same hk hx (Set.notMem_empty _)] at hp
          exact .inl ⟨k, rfl, hp⟩
      · have hp' := (h.new (Nat.le_of_not_lt hlt) hx).1
        exact .inr ⟨n, Option.some.inj (hp.symm.trans hp') ▸ hdir⟩
  · cases r with
    | error e => exact ((h.failed rfl).1.sound hready.toSound).distinct hD
    | ok _ =>
      obtain ⟨u, hu, hfolds, hall⟩ := hready.distinct hD
      refine ⟨u, h.read.upcase u hu, hfolds, fun d m hm => ?_⟩
      -- a directory that has been read before is as it was
      have hkept : ∀ {k}, t.kin d = some k → k.isCached = true → KinDistinct u t'.kin m.child := by
        intro k hk hc
        cases (h.read.kept hk hc).symm.trans hm
        refine (hall d m hk).mono (fun _ hx => hx) fun x hx {k'} hx' => ?_
        obtain ⟨c, hc, -⟩ := ht.down hk hx
        exact h.read.toGrown.name_back hc hx'
      by_cases hmc : m.isCached = true
      · by_cases hlt : d < t.fresh
        · by_cases hdd : d = dir
          · subst hdd
            obtain ⟨k, hk⟩ := hd.present ht
            obtain ⟨nd, hnd, rfl⟩ := Option.map_eq_some_iff.1 hk
            by_cases hkc : nd.isCached = true
            · exact hkept hk hkc
            · exact hready.lists hD t t' d nd m u .refl hnd (Bool.eq_false_iff.2 hkc) hrun
                (h.read.upcase u hu) hm
          · exact hkept ((h.others hlt hdd).symm.trans hm) hmc
        · cases (h.new (Nat.le_of_not_lt hlt) hm).2.symm.trans hmc
      · rw [h.linked.uncached hm (Bool.eq_false_iff.2 hmc)]
        exact fun _ hx => by cases hx
  · exact (hready.lists hD).browse (.inr (.inr ⟨dir, r, hrun⟩))

/-- Reading a directory below the root. -/
theorem wp_exploreDirectory {dir : NodeId} {n : Nat} {t : Volume δ} (ht : t.Linked)
    (hd : t.Depth dir n) :
    wp (exfatCacheDirectory dir) (fun r t' => t.CachedAt dir r t' ∧ t.Explored t') anyStop t := by
  refine wp_conseq (wp_run (wp_exfatCacheDirectory ht)) ?_
  rintro r t' ⟨hrun, h⟩
  exact ⟨h, h.explored hrun ht hd⟩

end Device

end ExFat
