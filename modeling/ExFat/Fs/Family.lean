import ExFat.Fs.References
import ExFat.Lib.Strung

namespace ExFat

open Program

/-!
# Directories and their children

The nodes in memory are linked both ways: a node that has been attached to a directory is in the
list of its children, and nothing else is in that list; the pointers between the children are strung
in its order.  A routine that returns leaves them so. `Tends R m` says besides what a routine does
to the tree: for `Volume.Grown gone moved` the nodes stay in memory but for those in `gone`, and
they stay where they are but for those in `moved`; for `Volume.Read` directories are read, and
nothing else.
-/

variable {δ : Type} {α β : Type}

/-! ### The tree in memory -/

/-- The fields of a node that say where its entries are and where it is in the tree. -/
structure Kin where
  parent : Option NodeId
  child : List NodeId
  first : Option NodeId
  next : Option NodeId
  prev : Option NodeId
  isDir : Bool
  isCached : Bool
  isUnlinked : Bool
  name : List Nat
  entryOffset : Nat
  continuations : Nat

/-- The place of a node in the family tree. -/
def Node.kin (n : Node) : Kin :=
  ⟨n.parent, n.child, n.first, n.next, n.prev, n.isDir, n.isCached, n.isUnlinked, n.name,
    n.entryOffset, n.continuations⟩

instance : Aloof Node.kin where
  data h := by
    unfold Node.SameLinks at h
    rw [h]
    rfl

/-- The family tree. -/
abbrev Volume.kin (t : Volume δ) : NodeId → Option Kin := t.view Node.kin

/-- The same nodes are in memory, with the same places and the same names. -/
abbrev Volume.SameKin (t t' : Volume δ) : Prop := t.SameBy Node.kin t'

/-- The pointer `next` of a node that is there. -/
def kinNext (K : NodeId → Option Kin) (x : NodeId) : Option NodeId := (K x).bind Kin.next

/-- The pointer `prev` of a node that is there. -/
def kinPrev (K : NodeId → Option Kin) (x : NodeId) : Option NodeId := (K x).bind Kin.prev

/-- The pointer `first` of a node that is there. -/
def kinFirst (K : NodeId → Option Kin) (x : NodeId) : Option NodeId := (K x).bind Kin.first

/-- The nodes are linked both ways.  `fresh` is the first identifier that has not been given. -/
structure KinLinked (K : NodeId → Option Kin) (root fresh : NodeId) : Prop where
  bounded : ∀ {x}, fresh ≤ x → K x = none
  below : ∀ {x k d}, K x = some k → k.parent = some d → d < fresh
  up : ∀ {x k d m}, K x = some k → k.parent = some d → K d = some m → x ∈ m.child
  down : ∀ {d m x}, K d = some m → x ∈ m.child → ∃ k, K x = some k ∧ k.parent = some d
  nodup : ∀ {d m}, K d = some m → m.child.Nodup
  uncached : ∀ {d m}, K d = some m → m.isCached = false → m.child = []
  unlinked : ∀ {x k}, K x = some k → k.isUnlinked = true → k.parent = none
  rooted : root < fresh
  alive : ∃ k, K root = some k ∧ k.isUnlinked = false
  root : ∀ {k}, K root = some k → k.parent = none
  dirs : ∀ {d m}, K d = some m → m.isCached = true → m.isDir = true
  first : ∀ {d m}, K d = some m → m.first = m.child.head?
  strung : ∀ {d m}, K d = some m → Strung (kinNext K) (kinPrev K) none m.child
  loose : ∀ {x k}, K x = some k → k.parent = none → k.next = none ∧ k.prev = none

/-- What a routine has done to the tree. -/
structure KinGrown (gone moved : Set NodeId) (K K' : NodeId → Option Kin) (fresh fresh' : NodeId) :
    Prop where
  le : fresh ≤ fresh'
  dead : ∀ {x}, x < fresh → K x = none → K' x = none
  stays : ∀ {x k}, K x = some k → x ∉ gone → ∃ k', K' x = some k' ∧ k'.isUnlinked = k.isUnlinked
  child : ∀ {x k k' s}, K x = some k → K' x = some k' → s ∈ k.child → s ∉ moved → s ∈ k'.child
  cached : ∀ {x k k'}, K x = some k → K' x = some k' → k.isCached = true → k'.isCached = true
  same : ∀ {x k k'}, K x = some k → K' x = some k' → x ∉ moved →
    k' = { k with
      child := k'.child, isCached := k'.isCached, first := k'.first, next :=
        k'.next, prev := k'.prev }

/-- The family tree is linked. -/
def Volume.Linked (t : Volume δ) : Prop := KinLinked t.kin t.root t.fresh

/-- The root directory has no name. -/
def Volume.Nameless (t : Volume δ) : Prop := ∀ k, t.kin t.root = some k → k.name = []

/-- The nodes outside `gone` are still in memory, and those outside `moved` where they were. -/
structure Volume.Grown (gone moved : Set NodeId) (t t' : Volume δ) : Prop where
  root : t'.root = t.root
  upcase : t.ef.Settled t'.ef
  grown : KinGrown gone moved t.kin t'.kin t.fresh t'.fresh

section Pure

variable {K K' K'' : NodeId → Option Kin} {root fresh fresh' fresh'' : NodeId}
  {gone moved gone' moved' : Set NodeId}

/-- The nodes in memory have identifiers below the fresh one. -/
theorem KinLinked.lt (h : KinLinked K root fresh) {x : NodeId} {k : Kin} (hx : K x = some k) :
    x < fresh := by
  by_contra hge
  rw [h.bounded (Nat.le_of_not_lt hge)] at hx
  cases hx

/-- A tree grows out of itself. -/
theorem KinGrown.refl (gone moved : Set NodeId) (K : NodeId → Option Kin) (fresh : NodeId) :
    KinGrown gone moved K K fresh fresh where
  le := Nat.le_refl _
  dead _ h := h
  stays h _ := ⟨_, h, rfl⟩
  child h h' hs _ := by
    cases h.symm.trans h'
    exact hs
  cached h h' hc := by
    cases h.symm.trans h'
    exact hc
  same h h' _ := by
    cases h.symm.trans h'
    rfl

/-- More nodes may be allowed to go or to move. -/
theorem KinGrown.mono (h : KinGrown gone moved K K' fresh fresh') (hg : gone ⊆ gone')
    (hm : moved ⊆ moved') : KinGrown gone' moved' K K' fresh fresh' where
  le := h.le
  dead := h.dead
  stays hx hn := h.stays hx fun hmem => hn (hg hmem)
  child hx hx' hs hn := h.child hx hx' hs fun hmem => hn (hm hmem)
  cached := h.cached
  same hx hx' hn := h.same hx hx' fun hmem => hn (hm hmem)

/-- A node that is there at the end was there in between. -/
theorem KinGrown.between (hK : KinLinked K root fresh) (h₁ : KinGrown gone moved K K' fresh fresh')
    (h₂ : KinGrown gone moved K' K'' fresh' fresh'') {x : NodeId} {k k'' : Kin} (hx : K x = some k)
    (hx'' : K'' x = some k'') : ∃ k', K' x = some k' := by
  cases hx' : K' x with
  | some k' => exact ⟨k', rfl⟩
  | none =>
    rw [h₂.dead (Nat.lt_of_lt_of_le (hK.lt hx) h₁.le) hx'] at hx''
    cases hx''

/-- A tree may grow twice. -/
theorem KinGrown.trans (hK : KinLinked K root fresh) (h₁ : KinGrown gone moved K K' fresh fresh')
    (h₂ : KinGrown gone moved K' K'' fresh' fresh'') : KinGrown gone moved K K'' fresh fresh'' where
  le := h₁.le.trans h₂.le
  dead hlt hx := h₂.dead (Nat.lt_of_lt_of_le hlt h₁.le) (h₁.dead hlt hx)
  stays hx hn := by
    obtain ⟨k', hx', hu⟩ := h₁.stays hx hn
    obtain ⟨k'', hx'', hu'⟩ := h₂.stays hx' hn
    exact ⟨k'', hx'', hu'.trans hu⟩
  child hx hx'' hs hn := by
    obtain ⟨k', hx'⟩ := h₁.between hK h₂ hx hx''
    exact h₂.child hx' hx'' (h₁.child hx hx' hs hn) hn
  cached hx hx'' hc := by
    obtain ⟨k', hx'⟩ := h₁.between hK h₂ hx hx''
    exact h₂.cached hx' hx'' (h₁.cached hx hx' hc)
  same hx hx'' hn := by
    obtain ⟨k', hx'⟩ := h₁.between hK h₂ hx hx''
    rw [h₂.same hx' hx'' hn, h₁.same hx hx' hn]

/-! ### The changes -/

/-- Every node that is there is assigned to. -/
theorem KinGrown.of_map {f : NodeId → Kin → Kin} (hu : ∀ x k, x ∉ gone →
    (f x k).isUnlinked = k.isUnlinked)
    (hs : ∀ x k s, s ∈ k.child → s ∉ moved → s ∈ (f x k).child)
    (hc : ∀ x k, k.isCached = true → (f x k).isCached = true)
    (hsame : ∀ x k, x ∉ moved → f x k = { k with
      child := (f x k).child, isCached := (f x k).isCached, first := (f x k).first
      next := (f x k).next, prev := (f x k).prev }) :
    KinGrown gone moved K (fun x => (K x).map (f x)) fresh fresh where
  le := Nat.le_refl _
  dead _ hx := by rw [hx, Option.map_none]
  stays hx hn := ⟨_, by rw [hx, Option.map_some], hu _ _ hn⟩
  child hx hx' hmem hn := by
    rw [hx, Option.map_some] at hx'
    cases hx'
    exact hs _ _ _ hmem hn
  cached hx hx' hcached := by
    rw [hx, Option.map_some] at hx'
    cases hx'
    exact hc _ _ hcached
  same hx hx' hn := by
    rw [hx, Option.map_some] at hx'
    cases hx'
    exact hsame _ _ hn

/-- `i`, which is `n`, is taken out of the directory `p`. -/
def detached (K : NodeId → Option Kin) (n : Kin) (p i : NodeId) (x : NodeId) : Option Kin :=
  (K x).map fun k => { k with
    child := if x = p then k.child.erase i else k.child
    parent := if x = i then none else k.parent
    first := if x = p ∧ n.prev = none then n.next else k.first
    next := if x = i then none else if n.prev = some x then n.next else k.next
    prev := if x = i then none else if n.next = some x then n.prev else k.prev }

/-- `i` is put into the directory `dir`. -/
def attached (K : NodeId → Option Kin) (dir i : NodeId) (x : NodeId) : Option Kin :=
  (K x).map fun k => { k with
    child := if x = dir then i :: k.child else k.child
    parent := if x = i then some dir else k.parent
    first := if x = dir then some i else k.first
    next := if x = i then (kinFirst K dir).or k.next else k.next
    prev := if kinFirst K dir = some x then some i else k.prev }

/-- The next sibling of a node in memory. -/
theorem kinNext_of {x : NodeId} {k : Kin} (h : K x = some k) : kinNext K x = k.next := by
  unfold kinNext
  rw [h, Option.bind_some]

/-- The previous sibling of a node in memory. -/
theorem kinPrev_of {x : NodeId} {k : Kin} (h : K x = some k) : kinPrev K x = k.prev := by
  unfold kinPrev
  rw [h, Option.bind_some]

/-- The first child of a node in memory. -/
theorem kinFirst_of {x : NodeId} {k : Kin} (h : K x = some k) : kinFirst K x = k.first := by
  unfold kinFirst
  rw [h, Option.bind_some]

/-- A node has one directory at most. -/
theorem KinLinked.parent_unique (h : KinLinked K root fresh) {d d' x : NodeId} {m m' : Kin}
    (hd : K d = some m) (hd' : K d' = some m') (hx : x ∈ m.child) (hx' : x ∈ m'.child) :
    d = d' := by
  obtain ⟨k, hk, hp⟩ := h.down hd hx
  obtain ⟨k', hk', hp'⟩ := h.down hd' hx'
  cases hk.symm.trans hk'
  cases hp.symm.trans hp'
  rfl

/-- A node with a parent is not the root. -/
theorem KinLinked.ne_root (h : KinLinked K root fresh) {x d : NodeId} {k : Kin} (hx : K x = some k)
    (hd : k.parent = some d) : x ≠ root := by
  rintro rfl
  cases hd.symm.trans (h.root hx)

/-- A node in no directory is not the child of one. -/
theorem KinLinked.not_mem_child (h : KinLinked K root fresh) {d x : NodeId} {m k : Kin}
    (hd : K d = some m) (hx : K x = some k) (hp : k.parent = none) : x ∉ m.child := by
  intro hmem
  obtain ⟨k', hk', hp'⟩ := h.down hd hmem
  cases hx.symm.trans hk'
  cases hp.symm.trans hp'

/-- The neighbours of a child are children of the same directory. -/
theorem KinLinked.next_mem (h : KinLinked K root fresh) {d x y : NodeId} {m k : Kin}
    (hd : K d = some m) (hx : x ∈ m.child) (hk : K x = some k) (hy : k.next = some y) :
    y ∈ m.child :=
  ((h.strung hd).of_next hx ((kinNext_of hk).trans hy)).1

/-- The previous sibling of a child is a child. -/
theorem KinLinked.prev_mem (h : KinLinked K root fresh) {d x y : NodeId} {m k : Kin}
    (hd : K d = some m) (hx : x ∈ m.child) (hk : K x = some k) (hy : k.prev = some y) :
    y ∈ m.child := by
  obtain ⟨hmem, -⟩ | ⟨hnone, -⟩ := (h.strung hd).of_prev hx ((kinPrev_of hk).trans hy)
  · exact hmem
  · cases hnone

/-- The lists stay strung where no pointer of a child changes. -/
theorem KinLinked.strung_congr (h : KinLinked K root fresh) {d : NodeId}
    {m : Kin} (hd : K d = some m)
    (hsame : ∀ {y k}, y ∈ m.child → K y = some k →
      ∃ k', K' y = some k' ∧ k'.next = k.next ∧ k'.prev = k.prev) :
    Strung (kinNext K') (kinPrev K') none m.child := by
  have hboth : ∀ y ∈ m.child, kinNext K' y = kinNext K y ∧ kinPrev K' y = kinPrev K y := by
    intro y hy
    obtain ⟨k, hk, -⟩ := h.down hd hy
    obtain ⟨k', hk', hnext, hprev⟩ := hsame hy hk
    rw [kinNext_of hk', kinNext_of hk, kinPrev_of hk', kinPrev_of hk]
    exact ⟨hnext, hprev⟩
  exact (h.strung hd).congr (fun y hy => (hboth y hy).1) fun y hy => (hboth y hy).2

/-- The children of the directory are strung without the one that is taken out. -/
theorem strung_detached (h : KinLinked K root fresh) {i p : NodeId} {k m : Kin} (hi : K i = some k)
    (hp : K p = some m) (hmem : i ∈ m.child) :
    Strung (kinNext (detached K k p i)) (kinPrev (detached K k p i)) none (m.child.erase i) := by
  refine (h.strung hp).erase (h.nodup hp) hmem nofun (fun y hy hne => ?_) fun y hy hne => ?_
  · obtain ⟨l, hl, -⟩ := h.down hp hy
    rw [kinNext, detached, hl, kinPrev_of hi, kinNext_of hi, kinNext_of hl]
    exact if_neg hne
  · obtain ⟨l, hl, -⟩ := h.down hp hy
    rw [kinPrev, detached, hl, kinPrev_of hi, kinNext_of hi, kinPrev_of hl]
    exact if_neg hne

/-- The tree stays linked when a node is taken out. -/
theorem linked_detached (h : KinLinked K root fresh) {i p : NodeId} {k q : Kin} (hi : K i = some k)
    (hp : k.parent = some p) (hq : K p = some q) : KinLinked (detached K k p i) root fresh where
  bounded hx := by rw [detached, h.bounded hx, Option.map_none]
  below hx hd := by
    obtain ⟨k, hk, rfl⟩ := Option.map_eq_some_iff.1 hx
    dsimp only at hd
    split at hd
    · cases hd
    · exact h.below hk hd
  up {x _ d _} hx hd hm := by
    obtain ⟨k', hk', rfl⟩ := Option.map_eq_some_iff.1 hx
    obtain ⟨m, hm', rfl⟩ := Option.map_eq_some_iff.1 hm
    dsimp only at hd ⊢
    split at hd
    · cases hd
    -- the list of another directory, or of `p` without `i`: `x` is not `i`
    next hne =>
      have hmem := h.up hk' hd hm'
      split
      · exact (List.mem_erase_of_ne hne).2 hmem
      · exact hmem
  down {d _ x} hm hx := by
    obtain ⟨m, hm', rfl⟩ := Option.map_eq_some_iff.1 hm
    dsimp only at hx
    have hmem : x ∈ m.child := by
      split at hx
      · exact List.mem_of_mem_erase hx
      · exact hx
    obtain ⟨k', hk', hd⟩ := h.down hm' hmem
    -- what has been taken out has no parent any more
    have hne : x ≠ i := by
      rintro rfl
      rw [hi] at hk'
      cases hk'
      rw [hp] at hd
      cases hd
      rw [if_pos rfl] at hx
      exact (h.nodup hm').not_mem_erase hx
    refine ⟨_, by rw [detached, hk', Option.map_some], ?_⟩
    dsimp only
    rw [if_neg hne, hd]
  nodup hm := by
    obtain ⟨m, hm', rfl⟩ := Option.map_eq_some_iff.1 hm
    dsimp only
    split
    · exact (h.nodup hm').erase _
    · exact h.nodup hm'
  uncached hm hc := by
    obtain ⟨m, hm', rfl⟩ := Option.map_eq_some_iff.1 hm
    dsimp only at hc ⊢
    rw [h.uncached hm' hc]
    split <;> rfl
  unlinked hx hu := by
    obtain ⟨k, hk, rfl⟩ := Option.map_eq_some_iff.1 hx
    dsimp only at hu ⊢
    rw [h.unlinked hk hu, ite_self]
  root hx := by
    obtain ⟨k, hk, rfl⟩ := Option.map_eq_some_iff.1 hx
    dsimp only
    rw [h.root hk, ite_self]
  rooted := h.rooted
  alive := by
    obtain ⟨r, hr, hu⟩ := h.alive
    exact ⟨_, Option.map_eq_some_iff.2 ⟨r, hr, rfl⟩, hu⟩
  dirs hm hc := by
    obtain ⟨m, hm', rfl⟩ := Option.map_eq_some_iff.1 hm
    exact h.dirs (m := m) hm' hc
  first {d _} hm := by
    obtain ⟨m, hm', rfl⟩ := Option.map_eq_some_iff.1 hm
    dsimp only
    by_cases hd : d = p
    -- `i` was the first child exactly when it had no neighbour before it
    · subst hd
      rw [if_pos rfl, (h.strung hm').head_erase (h.up hi hp hm'), kinPrev_of hi, kinNext_of hi]
      simp only [true_and, h.first hm']
    · rw [if_neg hd, if_neg fun hdp => hd hdp.1, h.first hm']
  strung {d _} hm := by
    obtain ⟨m, hm', rfl⟩ := Option.map_eq_some_iff.1 hm
    dsimp only
    by_cases hd : d = p
    -- the list from which the node is taken
    · subst hd
      rw [if_pos rfl]
      exact strung_detached h hi hm' (h.up hi hp hm')
    · rw [if_neg hd]
      refine h.strung_congr hm' fun {y l} hy hl => ?_
      obtain ⟨l', hl', hyd⟩ := h.down hm' hy
      cases hl.symm.trans hl'
      have hne : y ≠ i := by
        rintro rfl
        cases hi.symm.trans hl
        exact hd (Option.some.inj (hyd.symm.trans hp))
      -- the neighbours of `i` are in the other directory
      have hapart : y ∉ q.child := fun hmem => hd (h.parent_unique hm' hq hy hmem)
      have hnext : k.prev ≠ some y := fun hy' => hapart (h.prev_mem hq (h.up hi hp hq) hi hy')
      have hprev : k.next ≠ some y := fun hy' => hapart (h.next_mem hq (h.up hi hp hq) hi hy')
      refine ⟨_, by rw [detached, hl, Option.map_some], ?_, ?_⟩
      · dsimp only
        rw [if_neg hne, if_neg hnext]
      · dsimp only
        rw [if_neg hne, if_neg hprev]
  loose {x _} hx hnone := by
    obtain ⟨l, hl, rfl⟩ := Option.map_eq_some_iff.1 hx
    dsimp only at hnone ⊢
    by_cases hxi : x = i
    · rw [if_pos hxi, if_pos hxi]
      exact ⟨rfl, rfl⟩
    · rw [if_neg hxi] at hnone
      have hapart : x ∉ q.child := h.not_mem_child hq hl hnone
      rw [if_neg hxi, if_neg hxi, if_neg fun hx' => hapart (h.prev_mem hq (h.up hi hp hq) hi hx'),
        if_neg fun hx' => hapart (h.next_mem hq (h.up hi hp hq) hi hx')]
      exact h.loose hl hnone

/-- Only the node that is taken out moves. -/
theorem grown_detached (n : Kin) (p i : NodeId) :
    KinGrown ∅ {i} K (detached K n p i) fresh fresh := by
  refine KinGrown.of_map (fun _ _ _ => rfl) (fun x k s hs hn => ?_) (fun _ _ hc => hc)
    fun x k hn => ?_
  · dsimp only
    split
    · exact (List.mem_erase_of_ne hn).2 hs
    · exact hs
  · have hne : ¬ x = i := hn
    dsimp only
    rw [if_neg hne]

/-- A node in no directory is strung before the children of one. -/
theorem strung_attached (h : KinLinked K root fresh) {i dir : NodeId} {k m : Kin}
    (hi : K i = some k) (hk : k.parent = none) (hdir : K dir = some m) :
    Strung (kinNext (attached K dir i)) (kinPrev (attached K dir i)) none (i :: m.child) := by
  have hout : i ∉ m.child := h.not_mem_child hdir hi hk
  have hfirst : kinFirst K dir = m.child.head? := (kinFirst_of hdir).trans (h.first hdir)
  obtain ⟨hnext, hprev⟩ := h.loose hi hk
  refine (h.strung hdir).cons (h.nodup hdir) ?_ ?_ (fun y hy => ?_) (fun y hy => ?_)
    fun y hy hne => ?_
  · rw [kinNext, attached, hi]
    show (if i = i then (kinFirst K dir).or k.next else k.next) = _
    rw [if_pos rfl, hfirst, hnext, Option.or_none]
  · rw [kinPrev, attached, hi]
    show (if kinFirst K dir = some i then some i else k.prev) = _
    rw [if_neg, hprev]
    rw [hfirst]
    exact fun hhead => hout (List.mem_of_mem_head? hhead)
  · obtain ⟨l, hl, -⟩ := h.down hdir hy
    rw [kinNext_of hl, kinNext, attached, hl]
    exact if_neg fun he : y = i => hout (he ▸ hy)
  · obtain ⟨l, hl, -⟩ := h.down hdir (List.mem_of_mem_head? hy)
    rw [kinPrev, attached, hl]
    exact if_pos (hfirst.trans hy)
  · obtain ⟨l, hl, -⟩ := h.down hdir hy
    rw [kinPrev_of hl, kinPrev, attached, hl]
    exact if_neg fun hhead => hne (hfirst.symm.trans hhead)

/-- The tree stays linked when a loose node is attached. -/
theorem linked_attached (h : KinLinked K root fresh) {i dir : NodeId} {k m : Kin}
    (hi : K i = some k) (hk : k.parent = none) (hu : k.isUnlinked = false) (hroot : i ≠ root)
    (hdir : K dir = some m) (hm : m.isCached = true) :
    KinLinked (attached K dir i) root fresh where
  bounded hx := by rw [attached, h.bounded hx, Option.map_none]
  below hx hd := by
    obtain ⟨k, hk, rfl⟩ := Option.map_eq_some_iff.1 hx
    dsimp only at hd
    split at hd
    · cases hd
      exact h.lt hdir
    · exact h.below hk hd
  up {x _ d _} hx hd hm := by
    obtain ⟨k', hk', rfl⟩ := Option.map_eq_some_iff.1 hx
    obtain ⟨m, hm', rfl⟩ := Option.map_eq_some_iff.1 hm
    dsimp only at hd ⊢
    -- the new child, and the old ones
    split at hd
    next heq =>
      cases hd
      rw [if_pos rfl, heq]
      exact List.mem_cons_self ..
    · have hmem := h.up hk' hd hm'
      split
      · exact List.mem_cons_of_mem _ hmem
      · exact hmem
  down {d _ x} hm hx := by
    obtain ⟨m, hm', rfl⟩ := Option.map_eq_some_iff.1 hm
    dsimp only at hx
    -- a child of `dir` is the new node or one that was there
    have hcase : (x = i ∧ d = dir) ∨ x ∈ m.child := by
      split at hx
      next hd =>
        rcases List.mem_cons.1 hx with hx | hx
        · exact .inl ⟨hx, hd⟩
        · exact .inr hx
      · exact .inr hx
    obtain ⟨rfl, rfl⟩ | hmem := hcase
    · refine ⟨_, by rw [attached, hi, Option.map_some], ?_⟩
      dsimp only
      rw [if_pos rfl]
    · obtain ⟨k', hk', hd⟩ := h.down hm' hmem
      have hne : x ≠ i := by
        rintro rfl
        rw [hi] at hk'
        cases hk'
        rw [hk] at hd
        cases hd
      refine ⟨_, by rw [attached, hk', Option.map_some], ?_⟩
      dsimp only
      rw [if_neg hne, hd]
  nodup hm := by
    obtain ⟨m, hm', rfl⟩ := Option.map_eq_some_iff.1 hm
    dsimp only
    split
    -- a loose node is in no list, so it is not there twice
    · refine List.nodup_cons.2 ⟨fun hmem => ?_, h.nodup hm'⟩
      obtain ⟨k', hk', hd⟩ := h.down hm' hmem
      rw [hi] at hk'
      cases hk'
      rw [hk] at hd
      cases hd
    · exact h.nodup hm'
  uncached {d _} hm' hc := by
    obtain ⟨m', hd, rfl⟩ := Option.map_eq_some_iff.1 hm'
    dsimp only at hc ⊢
    have hne : d ≠ dir := by
      rintro rfl
      rw [hdir] at hd
      cases hd
      rw [hm] at hc
      cases hc
    rw [if_neg hne, h.uncached hd hc]
  unlinked {x _} hx hux := by
    obtain ⟨k', hk', rfl⟩ := Option.map_eq_some_iff.1 hx
    dsimp only at hux ⊢
    have hne : x ≠ i := by
      rintro rfl
      rw [hi] at hk'
      cases hk'
      rw [hu] at hux
      cases hux
    rw [if_neg hne, h.unlinked hk' hux]
  root hx := by
    obtain ⟨k, hk, rfl⟩ := Option.map_eq_some_iff.1 hx
    dsimp only
    rw [if_neg hroot.symm, h.root hk]
  rooted := h.rooted
  alive := by
    obtain ⟨r, hr, hu⟩ := h.alive
    exact ⟨_, Option.map_eq_some_iff.2 ⟨r, hr, rfl⟩, hu⟩
  dirs hm hc := by
    obtain ⟨m, hm', rfl⟩ := Option.map_eq_some_iff.1 hm
    exact h.dirs (m := m) hm' hc
  first {d _} hm := by
    obtain ⟨m, hm', rfl⟩ := Option.map_eq_some_iff.1 hm
    dsimp only
    split
    -- The list that gets the node, and the lists of the other directories.
    · rfl
    · exact h.first hm'
  strung {d _} hm := by
    obtain ⟨l, hl, rfl⟩ := Option.map_eq_some_iff.1 hm
    dsimp only
    by_cases hd : d = dir
    · subst hd
      rw [if_pos rfl]
      exact strung_attached h hi hk hl
    · rw [if_neg hd]
      refine h.strung_congr hl fun {y c} hy hc => ?_
      have hne : y ≠ i := by
        rintro rfl
        exact h.not_mem_child hl hi hk hy
      have hfirst : kinFirst K dir ≠ some y := by
        -- the first child of `dir` is in no other list, so no other list sees its pointer change
        rw [kinFirst_of hdir, h.first hdir]
        exact fun hhead => hd (h.parent_unique hl hdir hy (List.mem_of_mem_head? hhead))
      refine ⟨_, by rw [attached, hc, Option.map_some], ?_, ?_⟩
      · dsimp only
        rw [if_neg hne]
      · dsimp only
        rw [if_neg hfirst]
  loose {x _} hx hnone := by
    obtain ⟨c, hc, rfl⟩ := Option.map_eq_some_iff.1 hx
    dsimp only at hnone ⊢
    split at hnone
    · cases hnone
    next hxi =>
      have hfirst : kinFirst K dir ≠ some x := by
        rw [kinFirst_of hdir, h.first hdir]
        exact fun hhead => h.not_mem_child hdir hc hnone (List.mem_of_mem_head? hhead)
      rw [if_neg hxi, if_neg hfirst]
      exact h.loose hc hnone

/-- Only the node that is attached moves. -/
theorem grown_attached (dir i : NodeId) : KinGrown ∅ {i} K (attached K dir i) fresh fresh := by
  refine KinGrown.of_map (fun _ _ _ => rfl) (fun x k s hs _ => ?_) (fun _ _ hc => hc)
    fun x k hn => ?_
  · dsimp only
    split
    · exact List.mem_cons_of_mem _ hs
    · exact hs
  · have hne : ¬ x = i := hn
    dsimp only
    rw [if_neg hne]

/-- The links stay.  Only a node that is in no directory is marked as taken out, and only one that
has no children is marked as one to be read. -/
theorem linked_assigned (h : KinLinked K root fresh) {f : NodeId → Kin → Kin}
    (hp : ∀ x k, (f x k).parent = k.parent) (hs : ∀ x k, (f x k).child = k.child)
    (hc : ∀ x k, K x = some k → (f x k).isCached = k.isCached ∨
      (f x k).isCached = false ∧ k.child = [])
    (hptr : ∀ x k, (f x k).first = k.first ∧ (f x k).next = k.next ∧ (f x k).prev = k.prev ∧
      (f x k).isDir = k.isDir)
    (hu : ∀ x k, K x = some k → (f x k).isUnlinked = true →
      k.isUnlinked = true ∨ k.parent = none ∧ x ≠ root) :
    KinLinked (fun x => (K x).map (f x)) root fresh where
  -- Only the marks and the data of the nodes change; every clause is read off the old tree.
  bounded hx := by rw [h.bounded hx, Option.map_none]
  below hx hd := by
    obtain ⟨k, hk, rfl⟩ := Option.map_eq_some_iff.1 hx
    exact h.below hk ((hp _ _).symm.trans hd)
  up hx hd hm := by
    obtain ⟨k, hk, rfl⟩ := Option.map_eq_some_iff.1 hx
    obtain ⟨m, hm', rfl⟩ := Option.map_eq_some_iff.1 hm
    rw [hs]
    exact h.up hk ((hp _ _).symm.trans hd) hm'
  down hm hx := by
    obtain ⟨m, hm', rfl⟩ := Option.map_eq_some_iff.1 hm
    rw [hs] at hx
    obtain ⟨k, hk, hd⟩ := h.down hm' hx
    exact ⟨_, by rw [hk, Option.map_some], (hp _ _).trans hd⟩
  nodup hm := by
    obtain ⟨m, hm', rfl⟩ := Option.map_eq_some_iff.1 hm
    rw [hs]
    exact h.nodup hm'
  uncached hm hcached := by
    obtain ⟨m, hm', rfl⟩ := Option.map_eq_some_iff.1 hm
    rw [hs]
    -- a directory that is marked as unread had no children
    obtain hsame | ⟨-, hempty⟩ := hc _ _ hm'
    · exact h.uncached hm' (hsame.symm.trans hcached)
    · exact hempty
  unlinked hx hunlinked := by
    obtain ⟨k, hk, rfl⟩ := Option.map_eq_some_iff.1 hx
    rw [hp]
    exact (hu _ _ hk hunlinked).elim (h.unlinked hk) fun hnone => hnone.1
  root hx := by
    obtain ⟨k, hk, rfl⟩ := Option.map_eq_some_iff.1 hx
    exact (hp _ _).trans (h.root hk)
  rooted := h.rooted
  alive := by
    obtain ⟨r, hr, hno⟩ := h.alive
    refine ⟨_, by rw [hr, Option.map_some], Bool.eq_false_iff.2 fun hunlinked => ?_⟩
    -- only a node in no directory is marked, and the root is not
    obtain hyes | hne := hu _ _ hr hunlinked
    · cases hno.symm.trans hyes
    · exact hne.2 rfl
  dirs hm hcached := by
    obtain ⟨m, hm', rfl⟩ := Option.map_eq_some_iff.1 hm
    obtain hsame | ⟨hno, -⟩ := hc _ _ hm'
    · exact (hptr _ _).2.2.2.trans (h.dirs hm' (hsame.symm.trans hcached))
    · cases hno.symm.trans hcached
  first hm := by
    obtain ⟨m, hm', rfl⟩ := Option.map_eq_some_iff.1 hm
    rw [hs, (hptr _ _).1]
    exact h.first hm'
  strung hm := by
    obtain ⟨m, hm', rfl⟩ := Option.map_eq_some_iff.1 hm
    rw [hs]
    exact h.strung_congr hm' fun hy hl =>
      ⟨_, by rw [hl, Option.map_some], (hptr _ _).2.1, (hptr _ _).2.2.1⟩
  loose hx hnone := by
    obtain ⟨k, hk, rfl⟩ := Option.map_eq_some_iff.1 hx
    rw [(hptr _ _).2.1, (hptr _ _).2.2.1]
    exact h.loose hk ((hp _ _).symm.trans hnone)

/-- A node that is in no directory is freed. -/
theorem linked_freed (h : KinLinked K root fresh) {i : NodeId} {k : Kin} (hi : K i = some k)
    (hk : k.parent = none) (hne : i ≠ root) : KinLinked (Function.update K i none) root fresh := by
  -- What is left is what was there, without `i`.
  have hsome : ∀ {x k}, Function.update K i none x = some k → x ≠ i ∧ K x = some k := by
    intro x k hx
    by_cases hxi : x = i
    · rw [hxi, Function.update_self] at hx
      cases hx
    · rw [Function.update_of_ne hxi] at hx
      exact ⟨hxi, hx⟩
  refine ⟨fun {x} hx => ?_, fun hx hd => h.below (hsome hx).2 hd,
    fun hx hd hm => h.up (hsome hx).2 hd (hsome hm).2, fun {d m x} hm hx => ?_,
    fun hm => h.nodup (hsome hm).2, fun hm hc => h.uncached (hsome hm).2 hc,
    fun hx hu => h.unlinked (hsome hx).2 hu, h.rooted, ?_, fun hx => h.root (hsome hx).2,
    fun hm hc => h.dirs (hsome hm).2 hc, fun hm => h.first (hsome hm).2, fun hm => ?_,
    fun hx hnone => h.loose (hsome hx).2 hnone⟩
  -- Only three clauses look at the node that goes: nothing leads to it.
  · by_cases hxi : x = i
    · rw [hxi, Function.update_self]
    · rw [Function.update_of_ne hxi]
      exact h.bounded hx
  · obtain ⟨k', hk', hd⟩ := h.down (hsome hm).2 hx
    have hxi : x ≠ i := by
      rintro rfl
      rw [hi] at hk'
      cases hk'
      rw [hk] at hd
      cases hd
    exact ⟨k', by rw [Function.update_of_ne hxi]; exact hk', hd⟩
  · obtain ⟨r, hr, hno⟩ := h.alive
    exact ⟨r, by rw [Function.update_of_ne hne.symm]; exact hr, hno⟩
  · refine h.strung_congr (hsome hm).2 fun {y l} hy hl => ⟨l, ?_, rfl, rfl⟩
    rw [Function.update_of_ne]
    · exact hl
    · rintro rfl
      exact h.not_mem_child (hsome hm).2 hi hk hy

/-- Only the node that is freed goes. -/
theorem grown_freed (i : NodeId) : KinGrown {i} ∅ K (Function.update K i none) fresh fresh where
  le := Nat.le_refl _
  dead {x} _ hx := by
    by_cases hxi : x = i
    · rw [hxi, Function.update_self]
    · rw [Function.update_of_ne hxi, hx]
  stays {x k} hx hn := ⟨k, by rw [Function.update_of_ne hn]; exact hx, rfl⟩
  child {x k k' s} hx hx' hs _ := by
    by_cases hxi : x = i
    · rw [hxi, Function.update_self] at hx'
      cases hx'
    · rw [Function.update_of_ne hxi, hx] at hx'
      cases hx'
      exact hs
  cached {x k k'} hx hx' hc := by
    by_cases hxi : x = i
    · rw [hxi, Function.update_self] at hx'
      cases hx'
    · rw [Function.update_of_ne hxi, hx] at hx'
      cases hx'
      exact hc
  same {x k k'} hx hx' _ := by
    by_cases hxi : x = i
    · rw [hxi, Function.update_self] at hx'
      cases hx'
    · rw [Function.update_of_ne hxi, hx] at hx'
      cases hx'
      rfl

/-- A new node that is in no directory. -/
structure Kin.IsLoose (k : Kin) : Prop where
  parent : k.parent = none
  child : k.child = []
  isUnlinked : k.isUnlinked = false
  isCached : k.isCached = false
  first : k.first = none
  next : k.next = none
  prev : k.prev = none

/-- The tree stays linked when a loose node is made. -/
theorem linked_new (h : KinLinked K root fresh) {k : Kin} (hk : k.IsLoose) :
    KinLinked (Function.update K fresh (some k)) root (fresh + 1) := by
  -- A node is the new one or an old one, and the old ones are as they were.
  have hsome : ∀ {x l}, Function.update K fresh (some k) x = some l →
      x = fresh ∧ l = k ∨ K x = some l := by
    intro x l hx
    by_cases hxi : x = fresh
    · rw [hxi, Function.update_self] at hx
      exact .inl ⟨hxi, (Option.some.inj hx).symm⟩
    · rw [Function.update_of_ne hxi] at hx
      exact .inr hx
  have hold : ∀ {x l}, K x = some l → Function.update K fresh (some k) x = some l := by
    intro x l hx
    rw [Function.update_of_ne (Nat.ne_of_lt (h.lt hx))]
    exact hx
  refine ⟨fun {x} hx => ?_, fun hx hd => ?_, fun hx hd hm => ?_, fun hm hx => ?_, fun hm => ?_,
    fun hm hcached => ?_, fun hx hu => ?_, Nat.lt_succ_of_lt h.rooted, ?_, fun hx => ?_,
    fun hm hcached => ?_, fun hm => ?_, fun hm => ?_, fun hx hnone => ?_⟩
  · have hlt : fresh < x := hx
    rw [Function.update_of_ne (Nat.ne_of_gt hlt)]
    exact h.bounded (Nat.le_of_lt hlt)
  · obtain ⟨rfl, rfl⟩ | hx := hsome hx
    · cases hk.parent.symm.trans hd
    · exact Nat.lt_succ_of_lt (h.below hx hd)
  · obtain ⟨rfl, rfl⟩ | hx' := hsome hx
    · cases hk.parent.symm.trans hd
    -- no node is in the new one yet: its identifier is not below itself
    · obtain ⟨rfl, -⟩ | hm' := hsome hm
      · exact absurd (h.below hx' hd) (Nat.lt_irrefl _)
      · exact h.up hx' hd hm'
  · obtain ⟨rfl, rfl⟩ | hm := hsome hm
    · rw [hk.child] at hx
      cases hx
    · obtain ⟨l, hl, hd⟩ := h.down hm hx
      exact ⟨l, hold hl, hd⟩
  · obtain ⟨rfl, rfl⟩ | hm := hsome hm
    · rw [hk.child]
      exact List.nodup_nil
    · exact h.nodup hm
  · obtain ⟨rfl, rfl⟩ | hm := hsome hm
    · exact hk.child
    · exact h.uncached hm hcached
  · obtain ⟨rfl, rfl⟩ | hx := hsome hx
    · exact hk.parent
    · exact h.unlinked hx hu
  · obtain ⟨r, hr, hlinked⟩ := h.alive
    exact ⟨r, hold hr, hlinked⟩
  · obtain ⟨-, rfl⟩ | hx := hsome hx
    · exact hk.parent
    · exact h.root hx
  · obtain ⟨-, rfl⟩ | hm := hsome hm
    · cases hk.isCached.symm.trans hcached
    · exact h.dirs hm hcached
  · obtain ⟨-, rfl⟩ | hm := hsome hm
    · rw [hk.first, hk.child]
      rfl
    · exact h.first hm
  · obtain ⟨-, rfl⟩ | hm := hsome hm
    · rw [hk.child]
      trivial
    · exact h.strung_congr hm fun _ hy => ⟨_, hold hy, rfl, rfl⟩
  · obtain ⟨-, rfl⟩ | hx := hsome hx
    · exact ⟨hk.next, hk.prev⟩
    · exact h.loose hx hnone

/-- A directory that has been read into the `n` nodes from `fresh` on. -/
def Kin.filled (m : Kin) (fresh n : NodeId) : Kin :=
  { m with child := List.range' fresh n, first := (List.range' fresh n).head?, isCached := true }

/-- The node `x`, one of those `dir` has been read into. -/
structure Kin.IsNew (k : Kin) (dir fresh n x : NodeId) : Prop where
  parent : k.parent = some dir
  child : k.child = []
  isUnlinked : k.isUnlinked = false
  isCached : k.isCached = false
  first : k.first = none
  next : k.next = if x + 1 < fresh + n then some (x + 1) else none
  prev : k.prev = if x = fresh then none else some (x - 1)

/-- A directory gets its children, all of them new. -/
theorem linked_filled (h : KinLinked K root fresh) {dir n : NodeId} {m : Kin}
    (hdir : K dir = some m)
    (hold : ∀ x, x < fresh → K' x = if x = dir then some (m.filled fresh n) else K x)
    (hnew : ∀ x, fresh ≤ x → x < fresh + n → ∃ k, K' x = some k ∧ k.IsNew dir fresh n x)
    (hend : ∀ x, fresh + n ≤ x → K' x = none) (hm : m.child = []) (hisDir : m.isDir = true) :
    KinLinked K' root (fresh + n) := by
  -- a node is the directory, one of the old ones, or one of the new ones
  have hcases : ∀ {x k}, K' x = some k → (x = dir ∧ k = m.filled fresh n) ∨
      (x ≠ dir ∧ K x = some k) ∨
      (fresh ≤ x ∧ x < fresh + n ∧ k.IsNew dir fresh n x) := by
    intro x k hx
    by_cases hlt : x < fresh
    · rw [hold x hlt] at hx
      split at hx
      next heq => exact .inl ⟨heq, (Option.some.inj hx).symm⟩
      next hne => exact .inr (.inl ⟨hne, hx⟩)
    · have hge := Nat.le_of_not_lt hlt
      by_cases hend' : x < fresh + n
      · obtain ⟨k', hk', hprops⟩ := hnew x hge hend'
        rw [hx] at hk'
        cases hk'
        exact .inr (.inr ⟨hge, hend', hprops⟩)
      · rw [hend x (Nat.le_of_not_lt hend')] at hx
        cases hx
  have hlift : ∀ {x k}, K x = some k → ∃ k', K' x = some k' ∧ k'.parent = k.parent ∧
      k'.isUnlinked = k.isUnlinked ∧ k'.next = k.next ∧ k'.prev = k.prev := by
    intro x k hx
    rw [hold x (h.lt hx)]
    by_cases heq : x = dir
    · rw [heq, hdir] at hx
      cases hx
      exact ⟨_, if_pos heq, rfl, rfl, rfl, rfl⟩
    · exact ⟨k, by rw [if_neg heq]; exact hx, rfl, rfl, rfl, rfl⟩
  have hmem : ∀ {x}, x ∈ List.range' fresh n ↔ fresh ≤ x ∧ x < fresh + n := by
    intro x
    rw [List.mem_range'_1]
  refine ⟨fun hx => hend _ hx, fun hx hd => ?_, fun hx hd hm' => ?_,
    fun hm' hx => ?_, fun hm' => ?_,
    fun hm' hc => ?_, fun hx hu => ?_, Nat.lt_add_right _ h.rooted, ?_, fun hx =>
      ?_, fun hm' hc => ?_,
    fun hm' => ?_, fun hm' => ?_, fun hx hnone => ?_⟩
  · obtain ⟨rfl, rfl⟩ | ⟨-, hk⟩ | ⟨-, -, hk⟩ := hcases hx
    · exact Nat.lt_add_right _ (h.below hdir hd)
    · exact Nat.lt_add_right _ (h.below hk hd)
    · cases hk.parent.symm.trans hd
      exact Nat.lt_add_right _ (h.lt hdir)
  -- a child that was there lies in the list of its directory, which is not `dir`: `dir` had none
  · have hup : ∀ {x k d}, K x = some k → k.parent = some d → ∀ {m'}, K' d = some m' →
        x ∈ m'.child := by
      intro x k d hk hkd m' hd'
      obtain ⟨rfl, rfl⟩ | ⟨-, hd''⟩ | ⟨hge, -⟩ := hcases hd'
      · have hold := h.up hk hkd hdir
        rw [hm] at hold
        cases hold
      · exact h.up hk hkd hd''
      · exact absurd (h.below hk hkd) (Nat.not_lt.2 hge)
    obtain ⟨rfl, rfl⟩ | ⟨-, hk⟩ | ⟨hge, hlt, hk⟩ := hcases hx
    · exact hup hdir hd hm'
    · exact hup hk hd hm'
    · cases hk.parent.symm.trans hd
      rw [hold _ (h.lt hdir), if_pos rfl] at hm'
      cases hm'
      exact hmem.2 ⟨hge, hlt⟩
  · obtain ⟨rfl, rfl⟩ | ⟨-, hd'⟩ | ⟨-, -, hk⟩ := hcases hm'
    · obtain ⟨hge, hlt⟩ := hmem.1 hx
      obtain ⟨k, hk, hp⟩ := hnew _ hge hlt
      exact ⟨k, hk, hp.parent⟩
    · obtain ⟨k, hk, hp⟩ := h.down hd' hx
      obtain ⟨k', hk', hp', -⟩ := hlift hk
      exact ⟨k', hk', hp'.trans hp⟩
    · rw [hk.child] at hx
      cases hx
  · obtain ⟨-, rfl⟩ | ⟨-, hd'⟩ | ⟨-, -, hk⟩ := hcases hm'
    · exact List.nodup_range'
    · exact h.nodup hd'
    · rw [hk.child]
      exact List.nodup_nil
  -- `dir` has been read now; the new nodes have not
  · obtain ⟨-, rfl⟩ | ⟨-, hd'⟩ | ⟨-, -, hk⟩ := hcases hm'
    · cases hc
    · exact h.uncached hd' hc
    · exact hk.child
  · obtain ⟨-, rfl⟩ | ⟨-, hk⟩ | ⟨-, -, hk⟩ := hcases hx
    · exact h.unlinked (k := m) hdir hu
    · exact h.unlinked hk hu
    · cases hk.isUnlinked.symm.trans hu
  · obtain ⟨r, hr, hno⟩ := h.alive
    obtain ⟨r', hr', -, hu, -⟩ := hlift hr
    exact ⟨r', hr', hu.trans hno⟩
  · obtain ⟨rfl, rfl⟩ | ⟨-, hk⟩ | ⟨hge, -⟩ := hcases hx
    · exact h.root (k := m) hdir
    · exact h.root hk
    · exact absurd h.rooted (Nat.not_lt.2 hge)
  · obtain ⟨-, rfl⟩ | ⟨-, hd'⟩ | ⟨-, -, hk⟩ := hcases hm'
    · exact hisDir
    · exact h.dirs hd' hc
    · cases hk.isCached.symm.trans hc
  · obtain ⟨-, rfl⟩ | ⟨-, hd'⟩ | ⟨-, -, hk⟩ := hcases hm'
    · rfl
    · exact h.first hd'
    · rw [hk.first, hk.child]
      rfl
  · obtain ⟨-, rfl⟩ | ⟨-, hd'⟩ | ⟨-, -, hk⟩ := hcases hm'
    -- the new children follow each other in the order of their identifiers
    · refine strung_range' (fun j hj => ?_) fun j hj => ?_
      · obtain ⟨k, hk, hk'⟩ := hnew (fresh + j) (Nat.le_add_right _ _) (Nat.add_lt_add_left hj _)
        rw [kinNext_of hk, hk'.next]
        simp only [Nat.add_assoc, Nat.add_lt_add_iff_left]
      · obtain ⟨k, hk, hk'⟩ := hnew (fresh + j) (Nat.le_add_right _ _) (Nat.add_lt_add_left hj _)
        rw [kinPrev_of hk, hk'.prev]
        simp only [Nat.add_eq_left]
    · exact h.strung_congr hd' fun _ hy => (hlift hy).imp fun _ hy' => ⟨hy'.1, hy'.2.2.2⟩
    · rw [hk.child]
      trivial
  · obtain ⟨rfl, rfl⟩ | ⟨-, hk⟩ | ⟨-, -, hk⟩ := hcases hx
    · exact h.loose (k := m) hdir hnone
    · exact h.loose hk hnone
    · cases hk.parent.symm.trans hnone

/-- A directory that is filled grows. -/
theorem grown_filled (h : KinLinked K root fresh) {dir n : NodeId} {m : Kin} (hdir : K dir = some m)
    (hold : ∀ x, x < fresh → K' x = if x = dir then some (m.filled fresh n) else K x)
    (hm : m.child = []) : KinGrown gone moved K K' fresh (fresh + n) := by
  -- a node that was there is the directory, with its new list, or as it was
  have hcases : ∀ {x k}, K x = some k →
      (x = dir ∧ k = m ∧ K' x = some (m.filled fresh n)) ∨ K' x = some k := by
    intro x k hx
    have hx' := hold x (h.lt hx)
    split at hx'
    next heq =>
      rw [heq, hdir] at hx
      exact .inl ⟨heq, (Option.some.inj hx).symm, hx'⟩
    · exact .inr (hx'.trans hx)
  refine ⟨Nat.le_add_right _ _, fun {x} hx hnone => ?_, fun hx _ => ?_, fun hx hx' hs _ => ?_,
    fun hx hx' hc => ?_, fun hx hx' _ => ?_⟩
  · rw [hold x hx, if_neg, hnone]
    rintro rfl
    cases hnone.symm.trans hdir
  · obtain ⟨-, rfl, hx'⟩ | hx' := hcases hx
    · exact ⟨_, hx', rfl⟩
    · exact ⟨_, hx', rfl⟩
  · obtain ⟨-, rfl, hx''⟩ | hx'' := hcases hx
    · rw [hm] at hs
      cases hs
    · cases hx''.symm.trans hx'
      exact hs
  · obtain ⟨-, rfl, hx''⟩ | hx'' := hcases hx
    · cases hx''.symm.trans hx'
      rfl
    · cases hx''.symm.trans hx'
      exact hc
  · obtain ⟨-, rfl, hx''⟩ | hx'' := hcases hx
    · cases hx''.symm.trans hx'
      rfl
    · cases hx''.symm.trans hx'
      rfl

end Pure

/-! ### Routines -/

variable {gone moved gone' moved' : Set NodeId}

/-- A linked tree has no nodes from the fresh identifier on. -/
theorem Volume.Linked.toBounded {t : Volume δ} (h : t.Linked) : t.Bounded := fun _ hi =>
  Option.map_eq_none_iff.1 (h.bounded hi)

/-- A tree of the same form is linked. -/
theorem Volume.SameBy.linked {t t' : Volume δ} (h : t.SameKin t') (ht : t.Linked) : t'.Linked := by
  have hkin : t'.kin = t.kin := h.view
  unfold Volume.Linked
  rw [hkin, h.root, h.fresh]
  exact ht

/-- A tree of the same form has grown. -/
theorem Volume.SameBy.grown {t t' : Volume δ} (h : t.SameKin t') : t.Grown gone moved t' := by
  have hkin : t'.kin = t.kin := h.view
  refine ⟨h.root, h.upcase, ?_⟩
  rw [hkin, h.fresh]
  exact KinGrown.refl _ _ _ _

/-- More nodes may be allowed to go or to move. -/
theorem Volume.Grown.mono {t t' : Volume δ} (h : t.Grown gone moved t') (hg : gone ⊆ gone')
    (hm : moved ⊆ moved') : t.Grown gone' moved' t' := ⟨h.root, h.upcase, h.grown.mono hg hm⟩

/-- A tree may grow twice. -/
theorem Volume.Grown.trans {t t₁ t₂ : Volume δ} (ht : t.Linked) (h₁ : t.Grown gone moved t₁)
    (h₂ : t₁.Grown gone moved t₂) : t.Grown gone moved t₂ :=
  ⟨h₂.root.trans h₁.root, trans_of Ef.Settled h₁.upcase h₂.upcase, h₁.grown.trans ht h₂.grown⟩

/-- Directories have been read.  Those that had been read before are as they were. -/
structure Volume.Read (t t' : Volume δ) : Prop extends t.Grown ∅ ∅ t' where
  kept : ∀ {x k}, t.kin x = some k → k.isCached = true → t'.kin x = some k

/-- What routines can do to the tree one after the other. -/
class TreeRel (R : Volume δ → Volume δ → Prop) : Prop where
  kin : ∀ {t t'}, t.SameKin t' → R t t'
  trans : ∀ {t t₁ t₂}, t.Linked → R t t₁ → R t₁ t₂ → R t t₂

instance : TreeRel (δ := δ) (Volume.Grown gone moved) where
  kin h := h.grown
  trans ht h₁ h₂ := h₁.trans ht h₂

instance : TreeRel (δ := δ) Volume.Read where
  kin h := ⟨h.grown, fun hx _ => (congrFun h.view _).trans hx⟩
  trans ht h₁ h₂ := ⟨h₁.toGrown.trans ht h₂.toGrown, fun hx hc => h₂.kept (h₁.kept hx hc) hc⟩

/-- The nodes stay linked, and a routine that returns has done no more to the tree. -/
def Tends (R : Volume δ → Volume δ → Prop) (m : TreeM δ α) : Prop :=
  ∀ t : Volume δ, t.Linked → wp m (fun _ t' => t'.Linked ∧ R t t') anyStop t

/-- What a routine has done at most may be weakened. -/
theorem Tends.mono {R R' : Volume δ → Volume δ → Prop} {m : TreeM δ α} (hm : Tends R m)
    (h : ∀ t t', R t t' → R' t t') : Tends R' m := fun t ht =>
  wp_conseq (hm t ht) fun _ t' hs => ⟨hs.1, h t t' hs.2⟩

section Tends

variable {R : Volume δ → Volume δ → Prop} [TreeRel R]

/-- Doing nothing is allowed. -/
theorem TreeRel.refl (t : Volume δ) : R t t := TreeRel.kin (refl_of Volume.SameKin t)

/-- Returning a value does nothing. -/
theorem Tends.pure (a : α) : Tends R (pure a : TreeM δ α) := fun t ht => ⟨ht, TreeRel.refl t⟩

omit [TreeRel R] in
/-- A routine that stops does not return. -/
theorem Tends.throw (e : Halt) : Tends R (throw e : TreeM δ α) := fun _ _ => trivial

/-- Two routines in a row. -/
theorem Tends.bind {m : TreeM δ α} {f : α → TreeM δ β} (hm : Tends R m) (hf : ∀ a, Tends R (f a)) :
    Tends R (m >>= f) := by
  intro t ht
  rw [wp_bind]
  refine wp_conseq (hm t ht) ?_
  rintro a t₁ ⟨ht₁, h₁⟩
  exact wp_conseq (hf a t₁ ht₁) fun _ _ h₂ => ⟨h₂.1, TreeRel.trans ht h₁ h₂.2⟩

omit [TreeRel R] in
/-- A routine that looks at the volume first. -/
theorem Tends.look {f : Volume δ → TreeM δ β} (hf : ∀ t, Tends R (f t)) : Tends R (get >>= f) :=
  fun t => hf t t

omit [TreeRel R] in
/-- A branch. -/
theorem Tends.ite {c : Prop} [Decidable c] {m₁ m₂ : TreeM δ α} (h₁ : Tends R m₁) (h₂ : Tends R m₂) :
    Tends R (if c then m₁ else m₂) := by
  split
  · exact h₁
  · exact h₂

/-- A routine that leaves the nodes where they are. -/
theorem Tends.of_kin {m : TreeM δ α} (hm : Keeps Volume.SameKin m) : Tends R m := fun t ht =>
  wp_mono (hm t) (fun _ _ h => ⟨h.linked ht, TreeRel.kin h⟩) (fun _ _ _ => trivial)

/-- A routine that first leaves the family tree alone. -/
theorem Tends.skip {m : TreeM δ α} {f : α → TreeM δ β} (hm : Keeps Volume.SameKin m)
    (hf : ∀ a, Tends R (f a)) : Tends R (m >>= f) :=
  Tends.bind (Tends.of_kin hm) hf

end Tends

/-! ### References -/

/-- `exfat_get_node` leaves the family tree alone. -/
theorem kin_exfatGetNode (i : NodeId) : Keeps Volume.SameKin (exfatGetNode (δ := δ) i) :=
  links_updateNode i fun _ => rfl

/-- `exfat_put_node` leaves the family tree alone. -/
theorem kin_exfatPutNode (i : NodeId) : Keeps Volume.SameKin (exfatPutNode (δ := δ) i) := by
  refine keeps_bind (links_updateNode i fun _ => rfl) fun _ =>
    keeps_bind (links_getNode i) fun n => ?_
  refine keeps_look fun t => keeps_ite ?_ (keeps_ite ?_ (keeps_pure _))
  · exact keeps_bind (links_onVolume _) fun _ => keeps_throw _
  · exact keeps_bind (links_onVolume _) fun _ => keeps_pure _

/-- `putBoth` leaves the family tree alone. -/
theorem kin_putBoth (dir i : NodeId) : Keeps Volume.SameKin (putBoth (δ := δ) dir i) :=
  keeps_bind (kin_exfatPutNode dir) fun _ => kin_exfatPutNode i

/-- `lookupLoop` leaves the family tree alone. -/
theorem kin_lookupLoop (name : List Nat) (is : List NodeId) :
    Keeps Volume.SameKin (lookupLoop (δ := δ) name is) := by
  induction is with
  | nil => exact keeps_pure _
  | cons i is ih =>
    refine keeps_bind (kin_exfatGetNode i) fun _ => keeps_bind (links_getNode i) fun n => ?_
    refine keeps_look fun t => ?_
    cases t.ef.upcase with
    | none => exact keeps_throw _
    | some upcase => exact keeps_ite (keeps_pure _) (keeps_bind (kin_exfatPutNode i) fun _ => ih)

/-! ### Assignments -/

/-- Storing a node changes its place in the family tree. -/
theorem kin_store (t : Volume δ) (i : NodeId) (s : FileState δ) :
    (t.store i s).kin = Function.update t.kin i (some s.node.kin) := by
  funext x
  unfold Volume.kin Volume.view Volume.store
  dsimp only
  by_cases hx : x = i
  · rw [hx, Function.update_self, Function.update_self, Option.map_some]
  · rw [Function.update_of_ne hx, Function.update_of_ne hx]

/-- A node in memory has its place in the family tree. -/
theorem Volume.kin_of_heap {t : Volume δ} {i : NodeId} {n : Node} (h : t.heap i = some n) :
    t.kin i = some n.kin := by
  unfold Volume.kin Volume.view
  rw [h, Option.map_some]

/-- Only the nodes have been assigned to. -/
structure Volume.Assigned (t : Volume δ) (K : NodeId → Option Kin) (t' : Volume δ) : Prop where
  root : t'.root = t.root
  fresh : t'.fresh = t.fresh
  ef : t'.ef = t.ef
  kin : t'.kin = K

/-- The tree is linked when what has been assigned is. -/
theorem Volume.Assigned.linked {t t' : Volume δ} {K : NodeId → Option Kin} (h : t.Assigned K t')
    (hK : KinLinked K t.root t.fresh) : t'.Linked := by
  unfold Volume.Linked
  rw [h.root, h.fresh, h.kin]
  exact hK

/-- Assigning twice. -/
theorem Volume.Assigned.trans {t t₁ t₂ : Volume δ} {K₁ K₂ : NodeId → Option Kin}
    (h₁ : t.Assigned K₁ t₁) (h₂ : t₁.Assigned K₂ t₂) : t.Assigned K₂ t₂ :=
  ⟨h₂.root.trans h₁.root, h₂.fresh.trans h₁.fresh, h₂.ef.trans h₁.ef, h₂.kin⟩

/-- The tree has become `K`, with the nodes that have been given an identifier. -/
structure Volume.Becomes (t : Volume δ) (K : NodeId → Option Kin) (t' : Volume δ) : Prop where
  root : t'.root = t.root
  fresh : t'.fresh = t.fresh
  upcase : t.ef.Settled t'.ef
  kin : t'.kin = K

/-- What has been assigned is the tree. -/
theorem Volume.Assigned.becomes {t t' : Volume δ} {K : NodeId → Option Kin} (h : t.Assigned K t') :
    t.Becomes K t' :=
  ⟨h.root, h.fresh, h.ef ▸ refl_of Ef.Settled _, h.kin⟩

/-- A tree of the same form is as it was. -/
theorem Volume.SameBy.becomes {t t' : Volume δ} (h : t.SameKin t') : t.Becomes t.kin t' :=
  ⟨h.root, h.fresh, h.upcase, h.view⟩

/-- Two changes of the tree are one. -/
theorem Volume.Becomes.trans {t t₁ t₂ : Volume δ} {K₁ K₂ : NodeId → Option Kin}
    (h₁ : t.Becomes K₁ t₁) (h₂ : t₁.Becomes K₂ t₂) : t.Becomes K₂ t₂ :=
  ⟨h₂.root.trans h₁.root, h₂.fresh.trans h₁.fresh, trans_of Ef.Settled h₁.upcase h₂.upcase, h₂.kin⟩

/-- The tree is left alone after a change. -/
theorem Volume.Becomes.same {t t₁ t₂ : Volume δ} {K : NodeId → Option Kin} (h₁ : t.Becomes K t₁)
    (h₂ : t₁.SameKin t₂) : t.Becomes K t₂ := by
  have hview : t₂.kin = t₁.kin := h₂.view
  exact ⟨h₂.root.trans h₁.root, h₂.fresh.trans h₁.fresh, trans_of Ef.Settled h₁.upcase h₂.upcase,
    hview.trans h₁.kin⟩

/-- The tree is linked when what it has become is. -/
theorem Volume.Becomes.linked {t t' : Volume δ} {K : NodeId → Option Kin} (h : t.Becomes K t')
    (hK : KinLinked K t.root t.fresh) : t'.Linked := by
  unfold Volume.Linked
  rw [h.root, h.fresh, h.kin]
  exact hK

/-- The tree has grown when what it has become has. -/
theorem Volume.Becomes.grown {t t' : Volume δ} {K : NodeId → Option Kin} (h : t.Becomes K t')
    (hK : KinGrown gone moved t.kin K t.fresh t.fresh) : t.Grown gone moved t' := by
  refine ⟨h.root, h.upcase, ?_⟩
  rw [h.fresh, h.kin]
  exact hK

/-- The fields of one node are assigned to. -/
def assigned (K : NodeId → Option Kin) (i : NodeId) (g : Kin → Kin) (x : NodeId) : Option Kin :=
  (K x).map fun k => if x = i then g k else k

/-- Assigning to the fields of a node. -/
theorem wp_updateNode {i : NodeId} {f : Node → Node} {g : Kin → Kin}
    (hfg : ∀ n, (f n).kin = g n.kin) {t : Volume δ} {Q : PUnit → Volume δ → Prop}
    (h : ∀ t', t.Assigned (assigned t.kin i g) t' → Q ⟨⟩ t') : wp (updateNode i f) Q anyStop t := by
  unfold wp updateNode onNode
  cases hi : t.heap i with
  | none => exact trivial
  | some n =>
    refine h _ ⟨rfl, rfl, rfl, ?_⟩
    rw [kin_store]
    funext x
    unfold assigned
    by_cases hx : x = i
    · subst hx
      rw [Function.update_self, Volume.kin_of_heap hi, Option.map_some, if_pos rfl]
      exact congrArg some (hfg n)
    · rw [Function.update_of_ne hx]
      cases t.kin x with
      | none => rfl
      | some k => rw [Option.map_some, if_neg hx]

/-- Assigning to a field of a node that a pointer leads to, if it leads to one. -/
def assignedAt (K : NodeId → Option Kin) (o : Option NodeId) (g : Kin → Kin) (x : NodeId) :
    Option Kin :=
  (K x).map fun k => if o = some x then g k else k

/-- The old first child gets the new node before it. -/
theorem wp_linkFirst {i : NodeId} {first : Option NodeId} {t : Volume δ}
    {Q : PUnit → Volume δ → Prop}
    (h : ∀ t', t.Assigned (assigned (assignedAt t.kin first fun k => { k with prev := some i }) i
      fun k => { k with next := first.or k.next }) t' → Q ⟨⟩ t') :
    wp (linkFirst i first) Q anyStop t := by
  cases first with
  | none =>
    refine h t ⟨rfl, rfl, rfl, ?_⟩
    funext x
    unfold assigned assignedAt
    cases t.kin x with
    | none => rfl
    | some k => simp
  | some f =>
    unfold linkFirst
    rw [wp_bind]
    refine wp_updateNode (g := fun k => { k with prev := some i }) (fun _ => rfl) ?_
    intro t₁ h₁
    refine wp_updateNode (g := fun k => { k with next := some f }) (fun _ => rfl) ?_
    intro t₂ h₂
    have hkin : assigned t₁.kin i (fun k => { k with next := some f }) =
        assigned (assignedAt t.kin (some f) fun k => { k with prev := some i }) i
          fun k => { k with next := (some f).or k.next } := by
      rw [h₁.kin]
      funext x
      unfold assigned assignedAt
      simp only [Option.some.injEq, eq_comm]
      rfl
    exact h t₂ (hkin ▸ h₁.trans h₂)

/-- `tree_attach` makes the node the first child of the directory. -/
theorem wp_treeAttach {dir i : NodeId} {t : Volume δ} {Q : PUnit → Volume δ → Prop}
    (h : ∀ t', t.Assigned (attached t.kin dir i) t' → Q ⟨⟩ t') :
    wp (treeAttach dir i) Q anyStop t := by
  unfold treeAttach
  rw [wp_bind]
  -- four assignments, in the order of the source
  refine wp_updateNode (g := fun k => { k with parent := some dir }) (fun _ => rfl) ?_
  intro t₁ h₁
  rw [wp_bind]
  refine wp_getNode trivial fun d hd => ?_
  rw [wp_bind]
  refine wp_linkFirst fun t₂ h₂ => ?_
  refine wp_updateNode (g := fun k => { k with first := some i, child := i :: k.child })
    (fun _ => rfl) ?_
  intro t₃ h₃
  -- the old first child is read before the pointer to it is overwritten
  have hfirst : kinFirst t.kin dir = d.first := by
    have hkd := Volume.kin_of_heap hd
    rw [h₁.kin, assigned] at hkd
    obtain ⟨m, hm, hmd⟩ := Option.map_eq_some_iff.1 hkd
    rw [kinFirst_of hm, show d.first = d.kin.first from rfl, ← hmd]
    split <;> rfl
  have hkin : assigned t₂.kin dir (fun k => { k with first := some i, child := i :: k.child }) =
      attached t.kin dir i := by
    rw [h₂.kin, h₁.kin, ← hfirst]
    -- the four assignments together are one change of the tree
    funext x
    unfold assigned assignedAt attached
    rw [Option.map_map, Option.map_map, Option.map_map]
    congr 1
    funext k
    dsimp only [Function.comp]
    split_ifs <;> rfl
  exact h t₃ (hkin ▸ (h₁.trans h₂).trans h₃)

/-- The pointers to the right, or the one in the directory, lead past a node. -/
theorem wp_bridgeBefore {p : NodeId} {next prev : Option NodeId} {t : Volume δ}
    {Q : PUnit → Volume δ → Prop}
    (h : ∀ t', t.Assigned (fun x => (t.kin x).map fun k => { k with
        next := if prev = some x then next else k.next
        first := if x = p ∧ prev = none then next else k.first }) t' → Q ⟨⟩ t') :
    wp (bridgeBefore p next prev) Q anyStop t := by
  cases prev with
  | none =>
    refine wp_updateNode (g := fun k => { k with first := next }) (fun _ => rfl) fun t' h' =>
      h t' ?_
    convert h' using 1
    funext x
    unfold assigned
    congr 1
    funext k
    by_cases hx : x = p
    · simp [hx]
    · simp [hx]
  | some q =>
    refine wp_updateNode (g := fun k => { k with next := next }) (fun _ => rfl) fun t' h' => h t' ?_
    convert h' using 1
    funext x
    unfold assigned
    congr 1
    funext k
    by_cases hx : x = q
    · simp [hx]
    · simp [hx, Ne.symm hx]

/-- The next sibling gets the previous one before it. -/
theorem wp_bridgeBehind {next prev : Option NodeId} {t : Volume δ} {Q : PUnit → Volume δ → Prop}
    (h : ∀ t', t.Assigned (assignedAt t.kin next fun k => { k with prev := prev }) t' → Q ⟨⟩ t') :
    wp (bridgeBehind prev next) Q anyStop t := by
  cases next with
  | none =>
    refine h t ⟨rfl, rfl, rfl, ?_⟩
    funext x
    unfold assignedAt
    cases t.kin x with
    | none => rfl
    | some k => simp
  | some q =>
    refine wp_updateNode (g := fun k => { k with prev := prev }) (fun _ => rfl) fun t' h' => h t' ?_
    convert h' using 1
    funext x
    unfold assigned assignedAt
    simp only [Option.some.injEq, eq_comm]

/-- Changing a node that is not in memory stops the program. -/
theorem wp_updateNode_none {i : NodeId} {f : Node → Node} {t : Volume δ}
    {Q : PUnit → Volume δ → Prop} (h : t.kin i = none) : wp (updateNode i f) Q anyStop t := by
  unfold wp updateNode onNode
  rw [Option.map_eq_none_iff.1 h]
  exact trivial

/-- `tree_detach` takes the node out of its directory. -/
theorem wp_treeDetach {i : NodeId} {t : Volume δ} {Q : PUnit → Volume δ → Prop}
    (h : ∀ k p m, t.kin i = some k → k.parent = some p → t.kin p = some m →
      ∀ t', t.Assigned (detached t.kin k p i) t' → Q ⟨⟩ t') :
    wp (treeDetach i) Q anyStop t := by
  unfold treeDetach
  rw [wp_bind]
  refine wp_getNode trivial fun n hn => ?_
  -- `tree_detach` on a node without a parent reads through a null pointer
  cases hp : n.parent with
  | none => exact trivial
  | some p =>
    dsimp only
    rw [wp_bind]
    refine wp_bridgeBefore fun t₁ h₁ => ?_
    rw [wp_bind]
    refine wp_bridgeBehind fun t₂ h₂ => ?_
    rw [wp_bind]
    -- the parent of a node that is in a directory is there, or the pointer is bad
    cases hpk : t.kin p with
    | none =>
      refine wp_updateNode_none ?_
      rw [h₂.kin, assignedAt, h₁.kin]
      dsimp only
      rw [hpk]
      rfl
    | some m =>
      refine wp_updateNode (g := fun k => { k with child := k.child.erase i }) (fun _ => rfl) ?_
      intro t₃ h₃
      refine wp_updateNode (g := fun k => { k with parent := none, prev := none, next := none })
        (fun _ => rfl) ?_
      intro t₄ h₄
      -- the neighbours, the list of the parent and the node itself, in one change
      have hkin : assigned t₃.kin i
          (fun k => { k with parent := none, prev := none, next := none }) =
          detached t.kin n.kin p i := by
        rw [h₃.kin, h₂.kin, h₁.kin]
        funext x
        unfold assigned assignedAt detached
        rw [Option.map_map, Option.map_map, Option.map_map]
        congr 1
        funext k
        dsimp only [Function.comp, Node.kin]
        split_ifs <;> simp_all
      have hall := ((h₁.trans h₂).trans h₃).trans h₄
      exact h n.kin p m (Volume.kin_of_heap hn) hp hpk t₄ (hkin ▸ hall)

end ExFat
