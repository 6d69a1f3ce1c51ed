import ExFat.Fs.EntrySet
import ExFat.Fs.Family

namespace ExFat

open Program

/-!
# What the routines do to the tree

Reading a directory gives it its children; looking a path up reads the directories on it.  Making a
node adds a child, removing one takes it out of its directory, and renaming does both.
-/

variable {δ : Type} {α β : Type}

/-! ### Reading a directory -/

/-- What the nodes of `ns` are in memory, behind the child `current` of `dir` and from `fresh` on.
-/
def childAt (dir fresh : NodeId) (current : Option NodeId) (len j : Nat) (n : Node) : Node :=
  { n with
    parent := some dir
    prev := if j = 0 then current else some (fresh + j - 1)
    next := if j + 1 < len then some (fresh + j + 1) else n.next }

/-- The volume after new nodes were linked in `dir`, which was `d`, behind the child `current`. -/
structure Volume.Populated (t : Volume δ) (dir : NodeId) (d : Node) (current : Option NodeId)
    (ns : List Node) (t' : Volume δ) : Prop where
  root : t'.root = t.root
  fresh : t'.fresh = t.fresh + ns.length
  ef : t'.ef = t.ef
  others : ∀ x, x ≠ dir → current ≠ some x → x < t.fresh ∨ t'.fresh ≤ x → t'.heap x = t.heap x
  directory : t'.heap dir = some { d with
    first := if current = none ∧ ns ≠ [] then some t.fresh else d.first }
  last : ∀ {c n}, current = some c → t.heap c = some n →
    t'.heap c = some { n with next := if ns = [] then n.next else some t.fresh }
  new : ∀ {j n}, ns[j]? = some n →
    t'.heap (t.fresh + j) = some (childAt dir t.fresh current ns.length j n)

/-- New nodes get the next identifiers, in their order. -/
theorem wp_newChildren {dir : NodeId} {d : Node} {current : Option NodeId} (ns : List Node)
    {t : Volume δ} (hd : t.heap dir = some d) (hlt : dir < t.fresh)
    (hcur : ∀ c, current = some c → c ≠ dir ∧ c < t.fresh ∧ ∃ n, t.heap c = some n)
    {E : Halt → Volume δ → Prop} :
    wp (newChildren dir current ns) (fun ids t' => ids = List.range' t.fresh ns.length ∧
      t.Populated dir d current ns t') E t := by
  -- On the nodes that are left; `current` is the one that has been linked last.
  induction ns generalizing current t d with
  | nil =>
    refine ⟨rfl, rfl, rfl, rfl, fun _ _ _ _ => rfl, ?_, ?_, by simp⟩
    · rw [if_neg fun hne => hne.2 rfl]
      exact hd
    · intro c n _ hn
      rw [if_pos rfl]
      exact hn
  | cons n ns ih =>
    unfold newChildren
    rw [wp_bind, wp_get, wp_bind, wp_set, wp_bind]
    let t₁ : Volume δ := { t with
      heap := Function.update t.heap t.fresh (some { n with parent := some dir, prev := current })
      fresh := t.fresh + 1 }
    show wp (linkBehind dir t.fresh current) _ E t₁
    have hold₁ : ∀ {x}, x ≠ t.fresh → t₁.heap x = t.heap x := fun hx => Function.update_of_ne hx _ _
    have hnew₁ : t₁.heap t.fresh = some { n with parent := some dir, prev := current } :=
      Function.update_self _ _ _
    have hd₁ : t₁.heap dir = some d := (hold₁ (Nat.ne_of_lt hlt)).trans hd
    -- the pointer to the new node
    obtain ⟨t₂, hrun₂, hfresh₂, hroot₂, hef₂, hother₂, hd₂, hcur₂⟩ :
        ∃ t₂, linkBehind dir t.fresh current t₁ = .ok ⟨⟩ t₂ ∧ t₂.fresh = t.fresh + 1 ∧
          t₂.root = t.root ∧ t₂.ef = t.ef ∧
          (∀ x, x ≠ dir → current ≠ some x → t₂.heap x = t₁.heap x) ∧
          t₂.heap dir = some { d with first := if current = none then some t.fresh else d.first } ∧
          ∀ {c m}, current = some c → t.heap c = some m →
            t₂.heap c = some { m with next := some t.fresh } := by
      -- the first child is linked to the directory, the others to the one before
      cases current with
      | none =>
        refine ⟨_, run_updateNode hd₁ _, rfl, rfl, rfl, fun x hx _ => store_heap_of_ne _ hx,
          store_heap_self _ _ _, by simp⟩
      | some c =>
        obtain ⟨hne, hc, m, hm⟩ := hcur c rfl
        have hm₁ : t₁.heap c = some m := (hold₁ (Nat.ne_of_lt hc)).trans hm
        refine ⟨_, run_updateNode hm₁ _, rfl, rfl, rfl, fun x _ hx => ?_, ?_,
          fun {c' m'} hc' hm' => ?_⟩
        · exact store_heap_of_ne _ fun he => hx (congrArg some he.symm)
        · rw [store_heap_of_ne _ hne.symm, hd₁]
          rfl
        · cases hc'
          cases hm.symm.trans hm'
          exact store_heap_self _ _ _
    refine wp_of_ok hrun₂ ?_
    rw [wp_bind]
    have hfreshne : t.fresh ≠ dir := Nat.ne_of_gt hlt
    have hcurne : current ≠ some t.fresh := by
      intro hc
      exact absurd (hcur _ hc).2.1 (Nat.lt_irrefl _)
    have hnew₂ : t₂.heap t.fresh = some { n with parent := some dir, prev := current } :=
      (hother₂ _ hfreshne hcurne).trans hnew₁
    have hlt₂ : dir < t₂.fresh := by
      rw [hfresh₂]
      exact Nat.lt_succ_of_lt hlt
    have hcur₂' : ∀ c, some t.fresh = some c → c ≠ dir ∧ c < t₂.fresh ∧ ∃ m,
        t₂.heap c = some m := by
      rintro c ⟨⟩
      exact ⟨hfreshne, by rw [hfresh₂]; exact Nat.lt_succ_self _, _, hnew₂⟩
    -- the rest is linked behind the new node
    refine wp_conseq (ih hd₂ hlt₂ hcur₂') ?_
    rintro ids t₃ ⟨rfl, h₃⟩
    have hlen : t₃.fresh = t.fresh + (n :: ns).length := by
      rw [h₃.fresh, hfresh₂, List.length_cons]
      lia
    refine ⟨by rw [hfresh₂]; rfl, h₃.root.trans hroot₂, hlen, h₃.ef.trans hef₂,
      fun x hx hxc hrange => ?_,
      ?_, fun {c m} hc hm => ?_, fun {j m} hj => ?_⟩
    · rw [hlen, List.length_cons] at hrange
      have hxf : x ≠ t.fresh := by lia
      rw [h₃.others x hx (fun he => hxf (Option.some.inj he).symm)
        (by rw [hfresh₂, h₃.fresh, hfresh₂]; lia), hother₂ x hx hxc]
      exact hold₁ hxf
    · rw [h₃.directory]
      simp
    · have hcd := hcur c hc
      have hcf : c ≠ t.fresh := Nat.ne_of_lt hcd.2.1
      rw [h₃.others c hcd.1 (fun he => hcf (Option.some.inj he).symm)
        (.inl (by rw [hfresh₂]; exact Nat.lt_succ_of_lt hcd.2.1)), hcur₂ hc hm, if_neg (by simp)]
    · cases j with
      | zero =>
        cases hj
        rw [Nat.add_zero, h₃.last rfl hnew₂, hfresh₂]
        unfold childAt
        cases ns with
        | nil => rfl
        | cons m ms => simp
      | succ j =>
        have hget := h₃.new hj
        rw [hfresh₂] at hget
        rw [show t.fresh + (j + 1) = t.fresh + 1 + j by lia, hget]
        unfold childAt
        congr 2
        · simp only [List.length_cons, Nat.add_lt_add_iff_right]
          split
          · exact congrArg some (by lia)
          · rfl
        · cases j with
          | zero => rfl
          | succ j =>
            rw [if_neg (Nat.succ_ne_zero _), if_neg (Nat.succ_ne_zero _)]
            exact congrArg some (by lia)

section Device

variable [Device δ]

omit [Device δ] in
/-- The nodes that have been read become the children of the directory. -/
theorem wp_fillDirectory {dir : NodeId} {d : Node} {t : Volume δ} (ht : t.Linked)
    (hd : t.heap dir = some d) (hcached : d.isCached = false) (ns : List Node)
    (hns : ∀ n ∈ ns, n.links = .loose) :
    wp (do
      let ids ← newChildren dir none ns
      updateNode dir fun n => { n with
        child := if ids.isEmpty then n.child else ids
        isCached := true })
      (fun _ t' => t'.root = t.root ∧ t'.fresh = t.fresh + ns.length ∧ t'.ef = t.ef ∧
        (∀ x, x < t.fresh →
          t'.kin x = if x = dir then some (d.kin.filled t.fresh ns.length) else t.kin x) ∧
        (∀ x, t.fresh ≤ x → x < t.fresh + ns.length →
          ∃ k, t'.kin x = some k ∧ k.IsNew dir t.fresh ns.length x) ∧
        ∀ x, t.fresh + ns.length ≤ x → t'.kin x = none) anyStop t := by
  have hkd := Volume.kin_of_heap hd
  have hlt : dir < t.fresh := ht.lt hkd
  have hempty : d.child = [] := ht.uncached hkd hcached
  have hfirst : d.first = none := (ht.first hkd).trans (congrArg List.head? hempty)
  rw [wp_bind]
  refine wp_conseq (wp_newChildren ns hd hlt fun c hc => by cases hc) ?_
  rintro ids t₁ ⟨rfl, h₁⟩
  have hkin₁ : ∀ x, x ≠ dir → x < t.fresh ∨ t₁.fresh ≤ x → t₁.kin x = t.kin x := fun x hne hx =>
    congrArg (Option.map Node.kin) (h₁.others x hne (Option.some_ne_none x).symm hx)
  refine wp_of_ok (run_updateNode h₁.directory _) ?_
  have hkin₂ : ∀ (s : FileState δ) x, x ≠ dir → Volume.kin (t₁.store dir s) x = t₁.kin x := by
    intro s x hne
    rw [kin_store, Function.update_of_ne hne]
  refine ⟨h₁.root, h₁.fresh, h₁.ef, fun x hx => ?_, fun x hge hlt' => ?_, fun x hx => ?_⟩
  · by_cases hxd : x = dir
    · subst hxd
      rw [if_pos rfl, kin_store, Function.update_self]
      cases ns with
      | nil => simp [Node.kin, Kin.filled, hempty, hfirst, Node.isDir]
      | cons n ns => simp [Node.kin, Kin.filled, List.range'_succ, Node.isDir]
    · rw [if_neg hxd, hkin₂ _ x hxd, hkin₁ x hxd (.inl hx)]
  · have hxd : x ≠ dir := Nat.ne_of_gt (Nat.lt_of_lt_of_le hlt hge)
    have hj : x - t.fresh < ns.length := by lia
    have hget := h₁.new (List.getElem?_eq_getElem hj)
    have hback : t.fresh + (x - t.fresh) = x := by lia
    rw [hback] at hget
    have hl := hns _ (List.getElem_mem hj)
    refine ⟨_, (hkin₂ _ x hxd).trans (Volume.kin_of_heap hget), rfl, congrArg Links.child hl,
      congrArg Links.isUnlinked hl, congrArg Links.isCached hl, congrArg Links.first hl, ?_, ?_⟩
    · show (if x - t.fresh + 1 < ns.length then some (t.fresh + (x - t.fresh) + 1)
        else (ns[x - t.fresh]).next) = _
      rw [hback, show (ns[x - t.fresh]).next = none from congrArg Links.next hl]
      have hiff : x - t.fresh + 1 < ns.length ↔ x + 1 < t.fresh + ns.length := by lia
      simp only [hiff]
    · show (if x - t.fresh = 0 then none else some (t.fresh + (x - t.fresh) - 1)) = _
      rw [hback]
      have hiff : x - t.fresh = 0 ↔ x = t.fresh := by lia
      simp only [hiff]
  · have hxd : x ≠ dir := Nat.ne_of_gt (Nat.lt_of_lt_of_le hlt (by lia))
    rw [hkin₂ _ x hxd, hkin₁ x hxd (.inr (h₁.fresh.symm ▸ hx)), ht.bounded (by lia)]

/-- A directory that could be read is one. -/
theorem isDir_of_cacheLoop {fuel offset : Nat} {s : FileState δ} :
    wp (cacheLoop fuel offset) (fun _ _ => s.node.isDir = true) anyStop s := by
  by_cases hd : s.node.isDir = true
  · exact wp_of_forall (fun _ _ => hd) fun _ _ => trivial
  · cases fuel with
    | zero => exact trivial
    | succ fuel =>
      unfold cacheLoop dirFuel readdirLoop readEntries
      rw [wp_bind, wp_get, wp_bind, wp_bind, wp_bind, wp_get, if_pos (by simpa using hd)]
      exact trivial

/-- The volume after `exfat_cache_directory` returned `r`. -/
structure Volume.CachedAt (t : Volume δ) (dir : NodeId) (r : Rc) (t' : Volume δ) : Prop where
  linked : t'.Linked
  read : t.Read t'
  -- Read already, read now, or failed half-way.
  cached : r = .ok () → ∃ k, t'.kin dir = some k ∧ k.isCached = true
  others : ∀ {x}, x < t.fresh → x ≠ dir → t'.kin x = t.kin x
  new : ∀ {x k}, t.fresh ≤ x → t'.kin x = some k → k.parent = some dir ∧ k.isCached = false
  failed : ∀ {e}, r = .error e → t.SameKin t' ∧ e ≠ .enoent

/-- The children of a directory that has been read are new nodes, or those that were there. -/
theorem wp_exfatCacheDirectory {dir : NodeId} {t : Volume δ} (ht : t.Linked) :
    wp (exfatCacheDirectory dir) (fun r t' => t.CachedAt dir r t') anyStop t := by
  unfold exfatCacheDirectory
  rw [wp_bind]
  refine wp_getNode trivial fun d hd => ?_
  split
  next hcached =>
    refine ⟨ht, TreeRel.refl t, fun _ => ⟨_, Volume.kin_of_heap hd, hcached⟩, fun _ _ => rfl,
      fun hx hk => ?_, by simp⟩
    cases (ht.bounded hx).symm.trans hk
  next hcached =>
    rw [Bool.not_eq_true] at hcached
    -- Reading the entries of anything but a directory is an `exfat_bug`.
    rw [wp_bind]
    have hisDir : wp (onNode dir (cacheLoop (δ := δ) (dirFuel d.size) 0))
        (fun _ _ => d.isDir = true) anyStop t := by
      rw [wp_onNode hd]
      exact isDir_of_cacheLoop
    refine wp_mono (wp_and (loose_onNode_cacheLoop (π := Node.kin) dir _ _ t) hisDir) ?_
      (fun _ _ _ => trivial)
    rintro r t₁ ⟨⟨h₁, hloose⟩, hisDir⟩
    have ht₁ := h₁.linked ht
    have hkin₁ : t₁.kin = t.kin := h₁.view
    have hdir : t₁.kin dir = some d.kin := by
      rw [hkin₁]
      exact Volume.kin_of_heap hd
    have hempty : d.kin.child = [] := ht₁.uncached hdir hcached
    -- the two pictures of the tree agree, so the node has no children yet
    obtain ⟨d₁, hd₁, hsame⟩ := Option.map_eq_some_iff.1 hdir
    have hcached₁ : d₁.isCached = false := (congrArg Kin.isCached hsame).trans hcached
    split
    · have hfill := wp_fillDirectory ht₁ hd₁ hcached₁ r.1 hloose
      rw [wp_bind] at hfill ⊢
      refine wp_conseq hfill fun ids t₂ h₂ => ?_
      rw [wp_bind]
      refine wp_conseq h₂ ?_
      rintro _ t₃ ⟨hroot, hfresh, hef, hold, hnew, hend⟩
      rw [hsame] at hold
      have hfilled : KinLinked t₃.kin t₁.root (t₁.fresh + r.1.length) :=
        linked_filled ht₁ hdir hold hnew hend hempty hisDir
      have hgrown : KinGrown ∅ ∅ t₁.kin t₃.kin t₁.fresh (t₁.fresh + r.1.length) :=
        grown_filled ht₁ hdir hold hempty
      have hupcase : t₁.ef.Settled t₃.ef := hef ▸ refl_of Ef.Settled _
      refine ⟨?_, TreeRel.trans ht (TreeRel.kin h₁) ⟨⟨hroot, hupcase, hfresh.symm ▸ hgrown⟩, ?_⟩,
        fun _ => ?_,
        fun {x} hx hne => ?_, fun {x k} hx hk => ?_, by simp⟩
      · unfold Volume.Linked
        rw [hroot, hfresh]
        exact hfilled
      · intro x k hx hc
        rw [hold x (ht₁.lt hx), if_neg]
        · exact hx
        · rintro rfl
          rw [hdir] at hx
          cases hx
          -- the nodes that have just been linked are the only ones that are new
          cases hcached.symm.trans hc
      · exact ⟨_, (hold dir (ht₁.lt hdir)).trans (if_pos rfl), rfl⟩
      · rw [hold x (h₁.fresh.symm ▸ hx), if_neg hne, hkin₁]
      · rw [← h₁.fresh] at hx
        have hlt : x < t₁.fresh + r.1.length := by
          by_contra hge
          cases (hend x (Nat.le_of_not_lt hge)).symm.trans hk
        obtain ⟨k', hk', hnew'⟩ := hnew x hx hlt
        cases hk.symm.trans hk'
        exact ⟨hnew'.parent, hnew'.isCached⟩
    -- The loop has failed: the list of children is emptied, and it was empty.
    next hne =>
      rw [wp_bind]
      refine wp_updateNode (g := fun k => { k with first := none, child := [] }) (fun _ => rfl) ?_
      intro t₂ hassign
      have h₂ : t₁.SameKin t₂ := by
        refine ⟨hassign.root, hassign.fresh, ?_, hassign.ef ▸ refl_of Ef.Settled _⟩
        show t₂.kin = t₁.kin
        rw [hassign.kin]
        funext x
        unfold assigned
        by_cases hx : x = dir
        -- writing an empty list where there is one changes no link
        · subst hx
          have hfirst : d.kin.first = none := (ht₁.first hdir).trans (congrArg List.head? hempty)
          rw [hdir, Option.map_some, if_pos rfl]
          congr 1
          rw [← hfirst, ← hempty]
        · simp only [if_neg hx, Option.map_id']
      have h₁₂ : t.SameKin t₂ := trans_of Volume.SameKin h₁ h₂
      have hview : t₂.kin = t.kin := h₁₂.view
      refine ⟨h₂.linked ht₁, TreeRel.kin h₁₂, by simp, fun _ _ => congrFun hview _,
        fun {x k} hx hk => ?_,
        fun {e} hr => ⟨h₁₂, ?_⟩⟩
      · rw [hview, ht.bounded hx] at hk
        cases hk
      · rw [← Except.error.inj hr]
        exact hne

/-- A relation that allows directories to be read. -/
class CacheRel (R : Volume δ → Volume δ → Prop) : Prop extends TreeRel R where
  read : ∀ {t t'}, t.Read t' → R t t'

instance : CacheRel (δ := δ) Volume.Read := ⟨fun h => h⟩

instance {gone moved : Set NodeId} : CacheRel (δ := δ) (Volume.Grown gone moved) :=
  ⟨fun h => h.toGrown.mono (Set.empty_subset _) (Set.empty_subset _)⟩

section Paths

variable {R : Volume δ → Volume δ → Prop} [CacheRel R]

/-- `exfat_cache_directory` does no more to the tree than reading directories. -/
theorem tends_exfatCacheDirectory (dir : NodeId) : Tends R (exfatCacheDirectory (δ := δ) dir) :=
  fun _ ht => wp_conseq (wp_exfatCacheDirectory ht) fun _ _ h => ⟨h.linked, CacheRel.read h.read⟩

/-! ### Paths -/

/-- `exfat_opendir` does no more to the tree than reading directories. -/
theorem tends_exfatOpendir (dir : NodeId) : Tends R (exfatOpendir (δ := δ) dir) := by
  refine Tends.skip (kin_exfatGetNode dir) fun _ =>
    Tends.bind (tends_exfatCacheDirectory dir) fun r => ?_
  cases r with
  | error e => exact Tends.skip (kin_exfatPutNode dir) fun _ => Tends.pure _
  | ok _ => exact Tends.pure _

/-- `lookup_name` does no more to the tree than reading directories. -/
theorem tends_lookupName (parent : NodeId) (name : List UInt8) :
    Tends R (lookupName (δ := δ) parent name) := by
  unfold lookupName
  cases exfatUtf8ToUtf16 name (nameMax + 1) with
  | error e => exact Tends.pure _
  | ok buffer =>
    refine Tends.bind (tends_exfatOpendir parent) fun r => ?_
    cases r with
    | error e => exact Tends.pure _
    | ok _ =>
      refine Tends.skip (links_getNode parent) fun p => ?_
      refine Tends.skip (kin_lookupLoop _ _) fun found => ?_
      cases found with
      | some i => exact Tends.skip (kin_exfatPutNode parent) fun _ => Tends.pure _
      | none => exact Tends.skip (kin_exfatPutNode parent) fun _ => Tends.pure _

/-- `lookupPath` does no more to the tree than reading directories. -/
theorem tends_lookupPath (fuel : Nat) (parent : NodeId) (path : List UInt8) :
    Tends R (lookupPath (δ := δ) fuel parent path) := by
  induction fuel generalizing parent path with
  | zero => exact Tends.pure _
  | succ fuel ih =>
    unfold lookupPath
    dsimp only
    refine Tends.ite (Tends.pure _) (Tends.ite (ih parent _) ?_)
    refine Tends.bind (tends_lookupName parent _) fun r => ?_
    cases r with
    | error e => exact Tends.skip (kin_exfatPutNode parent) fun _ => Tends.pure _
    | ok node => exact Tends.skip (kin_exfatPutNode parent) fun _ => ih node _

/-- `exfat_lookup` does no more to the tree than reading directories. -/
theorem tends_exfatLookup (path : List UInt8) : Tends R (exfatLookup (δ := δ) path) :=
  Tends.look fun t => Tends.skip (kin_exfatGetNode t.root) fun _ => tends_lookupPath _ _ _

/-- `splitLast` does no more to the tree than reading directories. -/
theorem tends_splitLast (parent : NodeId) (comp : List UInt8) :
    Tends R (splitLast (δ := δ) parent comp) := by
  have hfail : ∀ e : Errno, Tends (δ := δ) R (do
      exfatPutNode parent
      pure (.error e : Except Errno Split)) := fun e =>
    Tends.skip (kin_exfatPutNode parent) fun _ => Tends.pure _
  refine Tends.ite (hfail _) ?_
  cases exfatUtf8ToUtf16 comp (nameMax + 1) with
  | error e => exact hfail e
  | ok name =>
    refine Tends.bind (tends_lookupName parent comp) fun r => ?_
    split
    · exact Tends.pure _
    · exact Tends.pure _
    · exact hfail _

/-- `splitPath` does no more to the tree than reading directories. -/
theorem tends_splitPath (fuel : Nat) (parent : NodeId) (path : List UInt8) :
    Tends R (splitPath (δ := δ) fuel parent path) := by
  induction fuel generalizing parent path with
  | zero => exact Tends.throw _
  | succ fuel ih =>
    unfold splitPath
    dsimp only
    refine Tends.ite (Tends.throw _)
      (Tends.ite (ih parent _) (Tends.ite (tends_splitLast parent _) ?_))
    refine Tends.bind (tends_lookupName parent _) fun r => ?_
    cases r with
    | error e => exact Tends.skip (kin_exfatPutNode parent) fun _ => Tends.pure _
    | ok node => exact Tends.skip (kin_exfatPutNode parent) fun _ => ih node _

/-- `exfat_split` does no more to the tree than reading directories. -/
theorem tends_exfatSplit (path : List UInt8) : Tends R (exfatSplit (δ := δ) path) :=
  Tends.look fun t => Tends.skip (kin_exfatGetNode t.root) fun _ => tends_splitPath _ _ _

end Paths

/-! ### Removing a node -/

/-- `erase_node` leaves the family tree alone. -/
theorem kin_eraseNode (i : NodeId) : Keeps Volume.SameKin (eraseNode (δ := δ) i) := by
  refine keeps_bind (links_getNode i) fun n => ?_
  cases n.parent with
  | none => exact keeps_throw _
  | some p =>
    refine keeps_bind (kin_exfatGetNode p) fun _ => ?_
    refine keeps_bind (links_onNode p (links_eraseEntries _ _)) fun r => ?_
    cases r with
    | error e => exact keeps_bind (kin_exfatPutNode p) fun _ => keeps_pure _
    | ok _ =>
      refine keeps_bind (links_exfatFlushNode p) fun rc => ?_
      exact keeps_bind (kin_exfatPutNode p) fun _ => keeps_pure _

/-- The end of `delete`, when the node has been taken out of the directory `p`. -/
theorem kin_afterDetach (p : NodeId) (shrunk : Rc) : Keeps Volume.SameKin (match shrunk with
    | .error e => do
      let _ ← exfatFlushNode p
      exfatPutNode p
      pure (.error e)
    | .ok _ => do
      onNode p exfatUpdateMtime
      let rc ← exfatFlushNode p
      exfatPutNode p
      pure rc : TreeM δ Rc) := by
  cases shrunk with
  | error e =>
    refine keeps_bind (links_exfatFlushNode p) fun _ => ?_
    exact keeps_bind (kin_exfatPutNode p) fun _ => keeps_pure _
  | ok _ =>
    refine keeps_bind (links_onNode p (keeps_exfatUpdateMtime (δ := δ))) fun _ => ?_
    refine keeps_bind (links_exfatFlushNode p) fun rc => ?_
    exact keeps_bind (kin_exfatPutNode p) fun _ => keeps_pure _

/-- The node `i`, which is `k`, is taken out of the directory `p` and marked. -/
def removed (K : NodeId → Option Kin) (k : Kin) (p i : NodeId) : NodeId → Option Kin :=
  assigned (detached K k p i) i fun l => { l with isUnlinked := true }

/-- What `delete` has done when it returns `r`. -/
inductive Volume.Deletes (t : Volume δ) (i : NodeId) (t' : Volume δ) : Rc → Prop
  | failed {e : Errno} (h : t.SameKin t') : t.Deletes i t' (.error e)
  | removed {k m : Kin} {p : NodeId} {r : Rc} (hi : t.kin i = some k) (hp : k.parent = some p)
      (hm : t.kin p = some m) (h : t.Becomes (removed t.kin k p i) t') : t.Deletes i t' r

/-- `delete` takes the node out of its directory, or fails. -/
theorem wp_delete (i : NodeId) (t : Volume δ) :
    wp (delete i) (fun r t' => t.Deletes i t' r) anyStop t := by
  unfold delete
  rw [wp_bind]
  refine wp_getNode trivial fun n hn => ?_
  cases n.parent with
  -- a node without a parent is never deleted
  | none => exact trivial
  | some p =>
    dsimp only
    rw [wp_bind]
    refine wp_mono (kin_exfatGetNode p t) ?_ (fun _ _ _ => trivial)
    intro _ t₁ h₁
    rw [wp_bind]
    refine wp_mono (kin_eraseNode i t₁) ?_ (fun _ _ _ => trivial)
    intro r t₂ h₂
    have h₁₂ : t.SameKin t₂ := trans_of Volume.SameKin h₁ h₂
    have hkin₂ : t₂.kin = t.kin := h₁₂.view
    -- the entries could not be marked as free: nothing has changed in the tree
    cases r with
    | error e =>
      dsimp only
      rw [wp_bind]
      refine wp_mono (kin_exfatPutNode p t₂) ?_ (fun _ _ _ => trivial)
      intro _ t₃ h₃
      exact .failed (trans_of Volume.SameKin h₁₂ h₃)
    | ok _ =>
      dsimp only
      rw [wp_bind]
      -- Out of its directory, then marked; the directory may shrink between the two.
      refine wp_treeDetach fun k q m hk hq hm t₃ h₃ => ?_
      rw [hkin₂] at hk hm h₃
      rw [wp_bind]
      refine wp_mono (links_shrinkDirectory (π := Node.kin) p n.entryOffset t₃) ?_
        (fun _ _ _ => trivial)
      intro shrunk t₄ h₄
      rw [wp_bind]
      refine wp_updateNode (g := fun l => { l with isUnlinked := true }) (fun _ => rfl) ?_
      intro t₅ h₅
      have hkin₄ : t₄.kin = detached t.kin k q i := Eq.trans h₄.view h₃.kin
      rw [hkin₄] at h₅
      refine wp_mono (kin_afterDetach p shrunk t₅) ?_ (fun _ _ _ => trivial)
      intro rc t₆ h₆
      have hall := ((h₁₂.becomes.trans h₃.becomes).same h₄).trans h₅.becomes
      exact .removed hk hq hm (hall.same h₆)

section Pure

variable {K : NodeId → Option Kin} {root fresh : NodeId}

omit [Device δ] in
/-- The tree stays linked when a node is taken out and marked. -/
theorem linked_removed (h : KinLinked K root fresh) {i p : NodeId} {k m : Kin} (hi : K i = some k)
    (hp : k.parent = some p) (hm : K p = some m) : KinLinked (removed K k p i) root fresh := by
  refine linked_assigned (linked_detached h hi hp hm) (fun x k => ?_) (fun x k => ?_)
    (fun x k _ => .inl ?_) (fun x k => ?_) fun x l hl hu => ?_
  · split <;> rfl
  · split <;> rfl
  · split <;> rfl
  · split <;> exact ⟨rfl, rfl, rfl, rfl⟩
  · split at hu
    next heq =>
      subst heq
      obtain ⟨l', -, rfl⟩ := Option.map_eq_some_iff.1 hl
      exact .inr ⟨if_pos rfl, h.ne_root hi hp⟩
    · exact .inl hu

omit [Device δ] in
/-- Only the node that is taken out moves. -/
theorem grown_removed (h : KinLinked K root fresh) (k : Kin) (p i : NodeId) :
    KinGrown {i} {i} K (removed K k p i) fresh fresh := by
  refine KinGrown.trans h ((grown_detached k p i).mono (Set.empty_subset _) subset_rfl) ?_
  refine KinGrown.of_map (fun x l hn => ?_) (fun x l s hs _ => ?_) (fun x l hc => ?_)
    fun x l hn => ?_
  · rw [if_neg (show ¬ x = i from hn)]
  · split <;> exact hs
  · split <;> exact hc
  · rw [if_neg (show ¬ x = i from hn)]

end Pure

/-- `delete` does no more to the tree than taking out the node. -/
theorem tends_delete (i : NodeId) : Tends (Volume.Grown {i} {i}) (delete (δ := δ) i) := by
  intro t ht
  refine wp_conseq (wp_delete i t) fun r t' h => ?_
  cases h with
  | failed h => exact ⟨h.linked ht, h.grown⟩
  | removed hi hp hm h => exact ⟨h.linked (linked_removed ht hi hp hm),
    h.grown (grown_removed ht _ _ _)⟩

/-- `exfat_unlink` does no more to the tree than taking out the node. -/
theorem tends_exfatUnlink (i : NodeId) : Tends (Volume.Grown {i} {i}) (exfatUnlink (δ := δ) i) :=
  Tends.skip (links_getNode i) fun _ => Tends.ite (Tends.pure _) (tends_delete i)

/-- `exfat_rmdir` does no more to the tree than taking out the node. -/
theorem tends_exfatRmdir (i : NodeId) : Tends (Volume.Grown {i} {i}) (exfatRmdir (δ := δ) i) := by
  refine Tends.skip (links_getNode i) fun n => Tends.ite (Tends.pure _) ?_
  refine Tends.bind (tends_exfatCacheDirectory i) ?_
  intro r
  cases r with
  | error e => exact Tends.pure _
  | ok _ => exact Tends.skip (links_getNode i) fun _ => Tends.ite (Tends.pure _) (tends_delete i)

/-- What `exfat_cleanup_node` has done. -/
inductive Volume.Cleans (t : Volume δ) (i : NodeId) (t' : Volume δ) : Prop
  | kept (h : t.SameKin t')
  | freed {k : Kin} (hi : t.kin i = some k) (hu : k.isUnlinked = true)
      (h : t.Becomes (Function.update t.kin i none) t')

/-- Only a node that is in no directory is freed. -/
theorem wp_exfatCleanupNode (i : NodeId) (t : Volume δ) :
    wp (exfatCleanupNode i) (fun _ t' => t.Cleans i t') anyStop t := by
  unfold exfatCleanupNode
  rw [wp_bind]
  refine wp_getNode trivial fun n hn => ?_
  split
  · exact trivial
  split
  next hu =>
    rw [wp_bind]
    have htrunc : Keeps Volume.SameKin (onNode i (exfatTruncate (δ := δ) 0 true)) :=
      links_onNode i (keeps_exfatTruncate _ _)
    refine wp_mono (htrunc t) ?_ (fun _ _ _ => trivial)
    intro rc t₁ h₁
    have hkin₁ : t₁.kin = t.kin := h₁.view
    refine .freed (Volume.kin_of_heap hn) hu ⟨h₁.root, h₁.fresh, h₁.upcase, ?_⟩
    rw [← hkin₁]
    funext x
    unfold Volume.kin Volume.view
    dsimp only
    by_cases hx : x = i
    · rw [hx, Function.update_self, Function.update_self, Option.map_none]
    · rw [Function.update_of_ne hx, Function.update_of_ne hx]
  · exact .kept (refl_of Volume.SameKin t)

omit [Device δ] in
/-- The root is never marked. -/
theorem Volume.Linked.unlinked_ne_root {t : Volume δ} (ht : t.Linked) {i : NodeId} {k : Kin}
    (hi : t.kin i = some k) (hu : k.isUnlinked = true) : i ≠ t.root := by
  rintro rfl
  obtain ⟨r, hr, hno⟩ := ht.alive
  cases hi.symm.trans hr
  cases hno.symm.trans hu

/-- `exfat_cleanup_node` does no more to the tree than freeing the node. -/
theorem tends_exfatCleanupNode (i : NodeId) :
    Tends (Volume.Grown {i} ∅) (exfatCleanupNode (δ := δ) i) := by
  intro t ht
  refine wp_conseq (wp_exfatCleanupNode i t) fun _ t' h => ?_
  cases h with
  | kept h => exact ⟨h.linked ht, h.grown⟩
  | freed hi hu h =>
    exact ⟨h.linked (linked_freed ht hi (ht.unlinked hi hu) (ht.unlinked_ne_root hi hu)),
      h.grown (grown_freed i)⟩

/-! ### Making a node -/

/-- `find_slot` works on a directory that has been read. -/
theorem wp_findSlot (dir : NodeId) (n : Nat) (t : Volume δ) :
    wp (findSlot dir n) (fun _ t' => t.SameKin t' ∧ ∃ m, t'.kin dir = some m ∧ m.isCached = true)
      anyStop t := by
  have hkin := links_findSlot (π := Node.kin) dir n t
  have hcached : wp (findSlot (δ := δ) dir n)
      (fun _ _ => ∃ m, t.kin dir = some m ∧ m.isCached = true) anyStop t := by
    unfold findSlot
    rw [wp_bind]
    refine wp_getNode trivial fun d hd => ?_
    split
    · exact trivial
    next hc =>
      have hcached : d.isCached = true := by simpa using hc
      exact wp_of_forall (fun _ _ => ⟨_, Volume.kin_of_heap hd, hcached⟩) fun _ _ => trivial
  refine wp_mono (wp_and hkin hcached) ?_ (fun _ _ _ => trivial)
  rintro _ t' ⟨h, m, hm, hc⟩
  have hview : t'.kin = t.kin := h.view
  exact ⟨h, m, hview ▸ hm, hc⟩

omit [Device δ] in
/-- The node of a new entry is in no directory yet. -/
theorem wp_initNode (node : Node) (meta1 meta2 : Entry) (ef : Ef δ) :
    wp (withNode node do
      initNodeMeta1 meta1
      initNodeMeta2 meta2)
      (fun r ef' => r.2.kin =
          Node.kin { node with attrib := meta1.attrib, continuations := meta1.continuations } ∧
        ef.Settled ef') anyStop ef := by
  -- the two entries fill in the attributes; times and sizes do not belong to the tree
  have hmeta : wp (do
      initNodeMeta1 (δ := δ) meta1
      initNodeMeta2 meta2)
      (fun _ s => s.node.kin =
          Node.kin { node with attrib := meta1.attrib, continuations := meta1.continuations } ∧
        ef.Settled s.ef) anyStop ⟨ef, node⟩ := by
    unfold initNodeMeta1 initNodeMeta2
    simp only [wp_bind]
    show wp (onEf _) _ _ _
    refine wp_mono (links_onEf (π := Node.kin) _ _) ?_ (fun _ _ _ => trivial)
    intro mtime s₁ h₁
    show wp (onEf _) _ _ _
    refine wp_mono (links_onEf (π := Node.kin) _ _) ?_ (fun _ _ _ => trivial)
    intro atime s₂ h₂
    exact ⟨Eq.trans h₂.view h₁.view, trans_of Ef.Settled h₁.upcase h₂.upcase⟩
  unfold wp withNode at *
  split at hmeta
  next heq =>
    rw [heq]
    exact hmeta
  next heq =>
    rw [heq]
    exact trivial

/-- The volume after `commit_entry` has made a node with the fields `k` in the directory. -/
structure Volume.Committed (t : Volume δ) (dir : NodeId) (k : Kin) (t' : Volume δ) : Prop where
  root : t'.root = t.root
  fresh : t'.fresh = t.fresh + 1
  upcase : t.ef.Settled t'.ef
  kin : t'.kin = attached (Function.update t.kin t.fresh (some k)) dir t.fresh

omit [Device δ] in
/-- The tree is linked when the new node is in its directory. -/
theorem Volume.Committed.linked {t t' : Volume δ} {dir : NodeId} {k m : Kin}
    (h : t.Committed dir k t') (ht : t.Linked) (hk : k.IsLoose) (hdir : t.kin dir = some m)
    (hm : m.isCached = true) : t'.Linked := by
  unfold Volume.Linked
  rw [h.root, h.fresh, h.kin]
  have hne : dir ≠ t.fresh := Nat.ne_of_lt (ht.lt hdir)
  refine linked_attached (linked_new ht hk) (Function.update_self _ _ _) hk.parent hk.isUnlinked
    (Nat.ne_of_gt ht.rooted) (m := m) ?_ hm
  rw [Function.update_of_ne hne]
  exact hdir

omit [Device δ] in
/-- The tree has grown by the new node. -/
theorem Volume.Committed.grown {t t' : Volume δ} {dir : NodeId} {k : Kin} (h : t.Committed dir k t')
    (ht : t.Linked) : t.Grown ∅ ∅ t' := by
  refine ⟨h.root, h.upcase, ?_⟩
  rw [h.fresh, h.kin]
  have hold : ∀ {x l}, t.kin x = some l → x ≠ t.fresh ∧
      attached (Function.update t.kin t.fresh (some k)) dir t.fresh x =
        some { l with
          child := if x = dir then t.fresh :: l.child else l.child
          first := if x = dir then some t.fresh else l.first
          prev := if kinFirst (Function.update t.kin t.fresh (some k)) dir =
            some x then some t.fresh
            else l.prev } := by
    intro x l hx
    have hne : x ≠ t.fresh := Nat.ne_of_lt (ht.lt hx)
    refine ⟨hne, ?_⟩
    rw [attached, Function.update_of_ne hne, hx, Option.map_some, if_neg hne, if_neg hne]
  refine ⟨Nat.le_succ _, fun {x} hx hnone => ?_, fun hx _ => ⟨_, (hold hx).2, rfl⟩,
    fun hx hx' hs _ => ?_, fun hx hx' hc => ?_, fun hx hx' _ => ?_⟩
  · rw [attached, Function.update_of_ne (Nat.ne_of_lt hx), hnone, Option.map_none]
  · cases (hold hx).2.symm.trans hx'
    dsimp only
    split
    · exact List.mem_cons_of_mem _ hs
    · exact hs
  · cases (hold hx).2.symm.trans hx'
    exact hc
  · cases (hold hx).2.symm.trans hx'
    rfl

omit [Device δ] in
/-- The attributes of a new entry are read back from it. -/
theorem newEntries_attrib (upcase : Nat → Nat) (now : ExfatTime) (name : List Nat) (attrib : Nat) :
    ((newEntries upcase now name attrib).getD 0 []).attrib = attrib % 256 ^ 2 := by
  let fields := [(0, 1, entryFile), (1, 1, 1 + nameEntries name), (4, 2, attrib), (8, 2, now.time),
    (10, 2, now.date), (12, 2, now.time), (14, 2, now.date), (16, 2, now.time), (18, 2, now.date),
    (20, 1, now.centisec), (21, 1, now.centisec), (22, 1, now.tzoffset), (23, 1, now.tzoffset),
    (24, 1, now.tzoffset)]
  have hzero : (List.replicate entrySize (0 : UInt8)).length = entrySize := List.length_replicate
  have hfit : ∀ f ∈ fields, f.1 + f.2.1 ≤ entrySize := by
    simp only [fields, List.forall_mem_cons, entrySize]
    simp
  have hpair : fields.Pairwise fun f g => f.1 + f.2.1 ≤ g.1 ∨ g.1 + g.2.1 ≤ f.1 := by simp [fields]
  have hlen := length_setFields_eq hzero hfit
  refine (Bytes.leAt_patch_of_disjoint (by rw [Bytes.length_natLe, hlen]; decide) ?_).trans ?_
  · exact .inl (by simp)
  · exact Entry.leAt_setFields (f := (4, 2, attrib)) hzero hfit hpair (by simp)

/-- `commit_entry` makes a node at the offset, under the name. -/
theorem wp_commitEntry (dir : NodeId) (name : List Nat) (offset attrib : Nat) (t : Volume δ) :
    wp (commitEntry dir name offset attrib) (fun r t' =>
      match r with
      | .error _ => t.SameKin t'
      | .ok _ => ∃ upcase k, t'.ef.upcase = some upcase ∧ k.IsLoose ∧
          k.name = name.take (utf16Length name) ∧ k.isDir = attrib.testBit 4 ∧ t.Committed dir k t')
      anyStop t := by
  unfold commitEntry
  rw [wp_bind]
  refine wp_mono (links_onVolume (π := Node.kin) _ t) ?_ (fun _ _ _ => trivial)
  intro now t₁ h₁
  rw [wp_bind, wp_get]
  cases hupcase : t₁.ef.upcase with
  | none => exact trivial
  | some upcase =>
    dsimp only
    rw [wp_bind]
    refine wp_mono (links_onNode dir (links_writeEntries (π := Node.kin) _ _) t₁) ?_
      (fun _ _ _ => trivial)
    intro r t₂ h₂
    have h₁₂ : t.SameKin t₂ := trans_of Volume.SameKin h₁ h₂
    cases r with
    | error e => exact h₁₂
    | ok _ =>
      dsimp only
      rw [wp_bind]
      refine wp_mono (links_onVolume (π := Node.kin) _ t₂) ?_ (fun _ _ _ => trivial)
      intro ok t₃ h₃
      have h₁₃ : t.SameKin t₃ := trans_of Volume.SameKin h₁₂ h₃
      have hupcase₃ : t₃.ef.upcase = some upcase := h₃.upcase _ (h₂.upcase _ hupcase)
      split
      · exact h₁₃
      rw [wp_bind]
      unfold onVolume
      rw [wp_zoom]
      refine wp_mono (wp_initNode _ _ _ t₃.ef) ?_ (fun _ _ _ => trivial)
      rintro r ef ⟨hr, hef⟩
      unfold newNode
      simp only [wp_bind, wp_get, wp_set, wp_pure]
      refine wp_treeAttach fun t₄ h₄ => ?_
      refine ⟨upcase, r.2.kin, ?_, ?_, ?_, ?_, h₄.root.trans h₁₃.root, ?_, ?_, ?_⟩
      · rw [h₄.ef]
        exact hef _ hupcase₃
      · rw [hr]
        exact ⟨rfl, rfl, rfl, rfl, rfl, rfl, rfl⟩
      · rw [hr]
        rfl
      · rw [hr]
        show Nat.testBit (Entry.attrib _) 4 = _
        rw [newEntries_attrib]
        exact (Nat.testBit_mod_two_pow attrib 16 4).trans (by simp)
      · rw [h₄.fresh]
        exact congrArg (· + 1) h₁₃.fresh
      · rw [h₄.ef]
        exact trans_of Ef.Settled h₁₃.upcase hef
      · rw [h₄.kin, h₁₃.fresh]
        congr 1
        funext x
        have hview : t₃.kin = t.kin := h₁₃.view
        unfold Volume.kin Volume.view at hview ⊢
        dsimp only
        by_cases hx : x = t.fresh
        · rw [hx, Function.update_self, Function.update_self, Option.map_some]
        · rw [Function.update_of_ne hx, Function.update_of_ne hx]
          exact congrFun hview x

/-! ### Renaming -/

omit [Device δ] in
/-- Assigning twice to a node. -/
theorem assigned_assigned (K : NodeId → Option Kin) (i : NodeId) (g g' : Kin → Kin) :
    assigned (assigned K i g) i g' = assigned K i fun k => g' (g k) := by
  funext x
  unfold assigned
  rw [Option.map_map]
  congr 1
  funext k
  dsimp only [Function.comp]
  split_ifs <;> rfl

omit [Device δ] in
/-- Assigning to a node what it is. -/
theorem assigned_id (K : NodeId → Option Kin) (i : NodeId) : assigned K i id = K := by
  funext x
  unfold assigned
  simp only [id, ite_self, Option.map_id']

/-- What `rename_entry` has done when it returns `r`: it may have changed where the entries of the
node are meant to be, or it has moved the node. -/
inductive Volume.Renames (t : Volume δ) (dir i : NodeId) (name : List Nat) (t' : Volume δ) :
    Rc → Prop
  | failed {e : Errno} {g : Kin → Kin} (hg : ∀ k, g k = { k with
        entryOffset := (g k).entryOffset, continuations := (g k).continuations })
      (h : t.Becomes (assigned t.kin i g) t') : t.Renames dir i name t' (.error e)
  | moved {k m q : Kin} {p : NodeId} {g : Kin → Kin} {r : Rc} {u : Nat → Nat}
      (hi : t.kin i = some k) (hp : k.parent = some p) (hm : t.kin p = some m)
      (hdir : t.kin dir = some q) (hq : q.isCached = true) (hg : ∀ k, g k = { k with
        name := name, entryOffset := (g k).entryOffset, continuations := (g k).continuations })
      (hu : t'.ef.upcase = some u)
      (h : t.Becomes (attached (detached (assigned t.kin i g) (g k) p i) dir i) t') :
      t.Renames dir i name t' r

omit [Device δ] in
/-- A rename that fails may leave the tree alone. -/
theorem Volume.SameBy.renames {t t' : Volume δ} {dir i : NodeId} {name : List Nat} {e : Errno}
    (h : t.SameKin t') : t.Renames dir i name t' (.error e) := by
  refine .failed (g := id) (fun _ => rfl) ?_
  rw [assigned_id]
  exact h.becomes

omit [Device δ] in
/-- The tree is left alone after a rename. -/
theorem Volume.Renames.same {t t₁ t₂ : Volume δ} {dir i : NodeId} {name : List Nat} {r : Rc}
    (h : t.Renames dir i name t₁ r) (h₂ : t₁.SameKin t₂) : t.Renames dir i name t₂ r := by
  cases h with
  | failed hg h => exact .failed hg (h.same h₂)
  | moved hi hp hm hdir hq hg hu h => exact .moved hi hp hm hdir hq hg (h₂.upcase _ hu) (h.same h₂)

/-- `rename_entry` moves the node and nothing else. -/
theorem wp_renameEntry {dir i : NodeId} {q : Kin} (name : List Nat) (newOffset : Nat) {t : Volume δ}
    (hdir : t.kin dir = some q) (hq : q.isCached = true) :
    wp (renameEntry dir i name newOffset) (fun r t' => t.Renames dir i name t' r) anyStop t := by
  unfold renameEntry
  rw [wp_bind]
  refine wp_getNode trivial fun n hn => ?_
  cases n.parent with
  | none => exact trivial
  | some p =>
    dsimp only
    rw [wp_bind]
    refine wp_mono (links_onNode p (links_readEntries (π := Node.kin) _ _) t) ?_
      (fun _ _ _ => trivial)
    intro r t₁ h₁
    cases r with
    | error e => exact h₁.renames
    | ok entries =>
      dsimp only
      rw [wp_bind, wp_get]
      cases hu₁ : t₁.ef.upcase with
      | none => exact trivial
      | some upcase =>
        dsimp only
        rw [wp_bind]
        refine wp_mono (kin_eraseNode i t₁) ?_ (fun _ _ _ => trivial)
        intro r t₂ h₂
        have hu₂ := h₂.upcase _ hu₁
        have h₁₂ : t.SameKin t₂ := trans_of Volume.SameKin h₁ h₂
        have hkin₂ : t₂.kin = t.kin := h₁₂.view
        cases r with
        | error e => exact h₁₂.renames
        | ok _ =>
          dsimp only
          rw [wp_bind]
          refine wp_updateNode (g := fun k =>
            { k with entryOffset := newOffset, continuations := 1 + nameEntries name })
              (fun _ => rfl) ?_
          intro t₃ h₃
          rw [hkin₂] at h₃
          have hbecomes₃ := h₁₂.becomes.trans h₃.becomes
          rw [wp_bind]
          refine wp_mono (links_onNode dir (links_writeEntries (π := Node.kin) _ _) t₃) ?_
            (fun _ _ _ => trivial)
          intro r t₄ h₄
          have hbecomes₄ := hbecomes₃.same h₄
          cases r with
          | error e => exact .failed (fun _ => rfl) hbecomes₄
          | ok _ =>
            dsimp only
            rw [wp_bind]
            refine wp_updateNode (g := fun k => { k with name := name }) (fun _ => rfl) ?_
            intro t₅ h₅
            rw [hbecomes₄.kin, assigned_assigned] at h₅
            have hbecomes₅ := hbecomes₄.trans h₅.becomes
            rw [wp_bind]
            refine wp_treeDetach fun k' p' m' hk' hp' hm' t₆ h₆ => ?_
            rw [hbecomes₅.kin] at hk' hm' h₆
            obtain ⟨k, hk, rfl⟩ := Option.map_eq_some_iff.1 hk'
            obtain ⟨m, hm, -⟩ := Option.map_eq_some_iff.1 hm'
            rw [if_pos rfl] at hp' h₆
            rw [wp_bind]
            refine wp_treeAttach fun t₇ h₇ => ?_
            rw [h₆.kin] at h₇
            have hu₅ := h₅.becomes.upcase _ (h₄.upcase _ (h₃.becomes.upcase _ hu₂))
            exact .moved hk hp' hm hdir hq (fun _ => rfl)
              (h₇.becomes.upcase _ (h₆.becomes.upcase _ hu₅))
              ((hbecomes₅.trans h₆.becomes).trans h₇.becomes)

section Pure

variable {K : NodeId → Option Kin} {root fresh : NodeId} {i : NodeId} {g : Kin → Kin}

omit [Device δ] in
/-- Assigning to the fields of a node that are not links. -/
theorem linked_placed (h : KinLinked K root fresh)
    (hg : ∀ k, g k = { k with
      name := (g k).name, entryOffset := (g k).entryOffset,
        continuations := (g k).continuations }) :
    KinLinked (assigned K i g) root fresh := by
  refine linked_assigned h (fun x k => ?_) (fun x k => ?_) (fun x k _ => .inl ?_) (fun x k => ?_)
    fun x k _ hu => ?_
  · rw [hg k]
    split <;> rfl
  · rw [hg k]
    split <;> rfl
  · rw [hg k]
    split <;> rfl
  · rw [hg k]
    split <;> exact ⟨rfl, rfl, rfl, rfl⟩
  · rw [hg k] at hu
    split at hu <;> exact .inl hu

omit [Device δ] in
/-- Only the name and the place of the set have changed. -/
theorem grown_placed (hg : ∀ k, g k = { k with
      name := (g k).name, entryOffset := (g k).entryOffset,
        continuations := (g k).continuations }) :
    KinGrown ∅ {i} K (assigned K i g) fresh fresh := by
  refine KinGrown.of_map (fun x k _ => ?_) (fun x k s hs _ => ?_) (fun x k hc => ?_)
    fun x k hn => ?_
  · rw [hg k]
    split <;> rfl
  · rw [hg k]
    split <;> exact hs
  · rw [hg k]
    split <;> exact hc
  · rw [if_neg (show ¬ x = i from hn)]

omit [Device δ] in
/-- The node is in no directory, and the directory is read. -/
theorem linked_moved (h : KinLinked K root fresh) {dir p : NodeId} {k m q : Kin} (hi : K i = some k)
    (hp : k.parent = some p) (hm : K p = some m) (hdir : K dir = some q) (hq : q.isCached = true) :
    KinLinked (attached (detached K k p i) dir i) root fresh := by
  have hu : k.isUnlinked = false := by
    rw [← Bool.not_eq_true]
    intro hu
    cases hp.symm.trans (h.unlinked hi hu)
  have hi' : ∃ k', detached K k p i i = some k' ∧ k'.parent = none ∧ k'.isUnlinked = false := by
    rw [detached, hi, Option.map_some]
    exact ⟨_, rfl, if_pos rfl, hu⟩
  have hd' : ∃ q', detached K k p i dir = some q' ∧ q'.isCached = true := by
    rw [detached, hdir, Option.map_some]
    exact ⟨_, rfl, hq⟩
  obtain ⟨k', hk', hnone, hu'⟩ := hi'
  obtain ⟨q', hq', hc'⟩ := hd'
  exact linked_attached (linked_detached h hi hp hm) hk' hnone hu' (h.ne_root hi hp) hq' hc'

omit [Device δ] in
/-- Only the node that is moved moves. -/
theorem grown_moved (h : KinLinked K root fresh) (dir p : NodeId) (k : Kin) :
    KinGrown ∅ {i} K (attached (detached K k p i) dir i) fresh fresh :=
  KinGrown.trans h (grown_detached k p i) (grown_attached dir i)

end Pure

omit [Device δ] in
/-- The node, placed anew and still in its directory. -/
theorem assigned_self {K : NodeId → Option Kin} {i : NodeId} {g : Kin → Kin} {k : Kin}
    (hi : K i = some k) : assigned K i g i = some (g k) := by
  rw [assigned, hi, Option.map_some, if_pos rfl]

omit [Device δ] in
/-- The tree is linked after a rename, and only the node has moved. -/
theorem Volume.Renames.linked {t t' : Volume δ} {dir i : NodeId} {name : List Nat} {r : Rc}
    (h : t.Renames dir i name t' r) (ht : t.Linked) : t'.Linked ∧ t.Grown ∅ {i} t' := by
  cases h with
  | failed hg h =>
    refine ⟨h.linked (linked_placed ht fun k => ?_), h.grown (grown_placed fun k => ?_)⟩
    · rw [hg k]
    · rw [hg k]
  | @moved k m q p g _ _ hi hp hm hdir hq hg _ h =>
    have hplaced : ∀ k, g k = { k with
        name := (g k).name, entryOffset := (g k).entryOffset,
          continuations := (g k).continuations } := by
      intro k
      rw [hg k]
    have hlinked := linked_placed (i := i) ht hplaced
    have hgp : (g k).parent = some p := by
      rw [hg k]
      exact hp
    have hm' : ∃ m', assigned t.kin i g p = some m' := ⟨_, Option.map_eq_some_iff.2 ⟨m, hm, rfl⟩⟩
    have hq' : ∃ q', assigned t.kin i g dir = some q' ∧ q'.isCached = true := by
      refine ⟨_, Option.map_eq_some_iff.2 ⟨q, hdir, rfl⟩, ?_⟩
      rw [hg q]
      split <;> exact hq
    obtain ⟨m', hm'⟩ := hm'
    obtain ⟨q', hdir', hq'⟩ := hq'
    refine ⟨h.linked (linked_moved hlinked (assigned_self hi) hgp hm' hdir' hq'), h.grown ?_⟩
    exact KinGrown.trans ht (grown_placed hplaced) (grown_moved hlinked dir p (g k))

/-- The last part of `exfat_rename`. -/
theorem wp_renameInto (dir i : NodeId) (name : List Nat) (t : Volume δ) :
    wp (renameInto dir i name) (fun r t' => t.Renames dir i name t' r) anyStop t := by
  have hlast : ∀ (r : Rc) (t₁ : Volume δ), t.Renames dir i name t₁ r → wp (do
      putBoth dir i
      pure r) (fun r t' => t.Renames dir i name t' r) anyStop t₁ := by
    intro r t₁ h₁
    rw [wp_bind]
    refine wp_mono (kin_putBoth dir i t₁) ?_ (fun _ _ _ => trivial)
    intro _ t₂ h₂
    exact h₁.same h₂
  unfold renameInto
  rw [wp_bind]
  refine wp_conseq (wp_findSlot dir _ t) ?_
  rintro r t₁ ⟨h₁, q, hdir, hq⟩
  cases r with
  | error e => exact hlast _ t₁ h₁.renames
  | ok offset =>
    dsimp only
    rw [wp_bind]
    refine wp_conseq (wp_renameEntry name offset hdir hq) ?_
    intro r t₂ h₂
    have hback : t.Renames dir i name t₂ r := by
      have hkin₁ : t₁.kin = t.kin := h₁.view
      cases h₂ with
      | failed hg h =>
        rw [hkin₁] at h
        exact .failed hg (h₁.becomes.trans h)
      | moved hi hp hm hd hc hg hu h =>
        rw [hkin₁] at hi hm hd h
        exact .moved hi hp hm hd hc hg hu (h₁.becomes.trans h)
    cases r with
    | error e => exact hlast _ t₂ hback
    | ok _ =>
      dsimp only
      rw [wp_bind]
      refine wp_mono (links_exfatFlushNode (π := Node.kin) dir t₂) ?_ (fun _ _ _ => trivial)
      intro rc t₃ h₃
      cases hback with
      | moved hi hp hm hd hc hg hu h =>
        exact hlast rc t₃ (.moved hi hp hm hd hc hg (h₃.upcase _ hu) (h.same h₃))

/-- `renameInto` moves the node at most. -/
theorem tends_renameInto (dir i : NodeId) (name : List Nat) :
    Tends (Volume.Grown ∅ {i}) (renameInto (δ := δ) dir i name) := fun t ht =>
  wp_conseq (wp_renameInto dir i name t) fun _ _ h => h.linked ht

/-- The target is taken out at most. -/
theorem tends_unlinkTarget (i existing : NodeId) :
    Tends (Volume.Grown {existing} {existing}) (unlinkTarget (δ := δ) i existing) := by
  refine Tends.skip (links_getNode i) fun n => Tends.skip (links_getNode existing) fun e => ?_
  exact Tends.ite (Tends.ite (tends_exfatRmdir existing) (Tends.pure _))
    (Tends.ite (tends_exfatUnlink existing) (Tends.pure _))

/-- The target is taken out and freed at most. -/
theorem tends_removeTarget (i existing : NodeId) :
    Tends (Volume.Grown {existing} {existing}) (removeTarget (δ := δ) i existing) := by
  have hclean : Tends (Volume.Grown {existing} {existing}) (exfatCleanupNode (δ := δ) existing) :=
    (tends_exfatCleanupNode existing).mono fun _ _ h => h.mono subset_rfl (Set.empty_subset _)
  refine Tends.bind (tends_unlinkTarget i existing) fun rc => ?_
  refine Tends.skip (kin_exfatPutNode existing) fun _ => ?_
  cases rc with
  | error e => exact Tends.bind hclean fun _ => Tends.pure _
  | ok _ => exact hclean

/-- `exfat_rename` moves or removes what its paths lead to. -/
theorem tends_exfatRename (oldPath newPath : List UInt8) :
    Tends (Volume.Grown Set.univ Set.univ) (exfatRename (δ := δ) oldPath newPath) := by
  have hput : ∀ (dir i : NodeId) (rc : Rc), Tends (δ := δ) (Volume.Grown Set.univ Set.univ) (do
      putBoth dir i
      pure rc) := fun dir i rc => Tends.skip (kin_putBoth dir i) fun _ => Tends.pure _
  have hinto : ∀ (dir i : NodeId) (name : List Nat),
      Tends (δ := δ) (Volume.Grown Set.univ Set.univ) (renameInto dir i name) := fun dir i name =>
    (tends_renameInto dir i name).mono fun _ _ h => h.mono (Set.subset_univ _) (Set.subset_univ _)
  refine Tends.bind (tends_exfatLookup oldPath) fun r => ?_
  cases r with
  | error e => exact Tends.pure _
  | ok i =>
    refine Tends.bind (tends_exfatSplit newPath) fun r => ?_
    match r with
    | .error e => exact Tends.skip (kin_exfatPutNode i) fun _ => Tends.pure _
    | .ok ⟨dir, existing, name⟩ =>
      refine Tends.skip (links_targetBelow dir i) fun below => Tends.ite ?_ ?_
      · cases existing with
        | none => exact hput dir i _
        | some e => exact Tends.skip (kin_exfatPutNode e) fun _ => hput dir i _
      · cases existing with
        | none => exact hinto dir i name
        | some e =>
          refine Tends.ite (Tends.skip (kin_exfatPutNode e) fun _ => hinto dir i name) ?_
          have hremove : Tends (Volume.Grown Set.univ Set.univ) (removeTarget (δ := δ) i e) :=
            (tends_removeTarget i e).mono fun _ _ h =>
              h.mono (Set.subset_univ _) (Set.subset_univ _)
          refine Tends.bind hremove fun r => ?_
          cases r with
          | error _ => exact hput dir i _
          | ok _ => exact hinto dir i name

/-! ### Mounting -/

/-- The nodes are the root and its children. -/
def Volume.Shallow (t : Volume δ) : Prop :=
  ∀ x k, t.kin x = some k → x = t.root ∨ k.parent = some t.root

/-- The tree begins with the root directory and what has been read of it. -/
theorem mountRoot_linked {t : Volume δ} (ht : t.Vacant) :
    wp (mountRoot (δ := δ)) (fun rc t' => rc = .ok () → t'.Linked ∧ t'.Shallow ∧ t'.Nameless)
      anyStop t := by
  have habandon : ∀ (root : NodeId) (t : Volume δ), wp (abandonMount (δ := δ) root)
      (fun rc t' => rc = .ok () → t'.Linked ∧ t'.Shallow ∧ t'.Nameless) anyStop t := fun _ _ =>
    wp_after fun _ _ => wp_after fun _ _ => wp_after fun _ _ => nofun
  unfold mountRoot
  rw [wp_bind, wp_get]
  dsimp only
  rw [wp_bind, wp_set]
  let cluster := t.ef.sb.rootdirCluster
  let r : Node := { attrib := attribDir, startCluster := cluster, fptrCluster := cluster }
  let t₁ : Volume δ := { t with
    heap := Function.update t.heap t.fresh (some r), root := t.fresh, fresh := t.fresh + 1 }
  have hkin₁ : ∀ {x k}, t₁.kin x = some k → x = t.fresh ∧ k = r.kin := by
    intro x k hx
    have hx : (Function.update t.heap t.fresh (some r) x).map Node.kin = some k := hx
    by_cases heq : x = t.fresh
    · rw [heq, Function.update_self, Option.map_some] at hx
      exact ⟨heq, (Option.some.inj hx).symm⟩
    · rw [Function.update_of_ne heq, ht x] at hx
      cases hx
  have ht₁ : t₁.Linked := by
    refine ⟨fun {x} hx => ?_, fun hx hd => ?_, fun hx hd _ => ?_, fun hm hx => ?_, fun hm => ?_,
      fun hm _ => ?_, fun hx hu => ?_, Nat.lt_succ_self _, ?_, fun hx => ?_, fun hm hc => ?_,
      fun hm => ?_, fun hm => ?_, fun hx _ => ?_⟩
    · by_contra hne
      obtain ⟨k, hk⟩ := Option.ne_none_iff_exists'.1 hne
      rw [(hkin₁ hk).1] at hx
      exact absurd hx (Nat.not_succ_le_self _)
    · rw [(hkin₁ hx).2] at hd
      cases hd
    · rw [(hkin₁ hx).2] at hd
      cases hd
    · rw [(hkin₁ hm).2] at hx
      cases hx
    · rw [(hkin₁ hm).2]
      exact List.nodup_nil
    · rw [(hkin₁ hm).2]
      rfl
    · rw [(hkin₁ hx).2] at hu
      cases hu
    · refine ⟨r.kin, ?_, rfl⟩
      show (Function.update t.heap t.fresh (some r) t.fresh).map Node.kin = _
      rw [Function.update_self, Option.map_some]
    · rw [(hkin₁ hx).2]
      rfl
    · rw [(hkin₁ hm).2] at hc
      cases hc
    · rw [(hkin₁ hm).2]
      rfl
    · rw [(hkin₁ hm).2]
      trivial
    · rw [(hkin₁ hx).2]
      exact ⟨rfl, rfl⟩
  show wp _ _ anyStop t₁
  rw [wp_bind]
  have hsize : Keeps Volume.SameKin (onNode t.fresh (rootdirSize (δ := δ))) :=
    links_onNode _ (keeps_look fun s => links_rootdirLoop _ _ _)
  refine wp_mono (hsize t₁) ?_ (fun _ _ _ => trivial)
  intro size t₂ h₂
  rw [wp_bind]
  have hassign : Keeps Volume.SameKin
      (updateNode (δ := δ) t.fresh fun n => { n with size := size, validSize := size }) :=
    links_updateNode t.fresh fun _ => rfl
  refine wp_mono (hassign t₂) ?_ (fun _ _ _ => trivial)
  intro _ t₃ h₃
  split
  · exact nofun
  rw [wp_bind]
  refine wp_mono (kin_exfatGetNode t.fresh t₃) ?_ (fun _ _ _ => trivial)
  intro _ t₄ h₄
  have h₁₄ : t₁.SameKin t₄ := trans_of Volume.SameKin (trans_of Volume.SameKin h₂ h₃) h₄
  have ht₄ := h₁₄.linked ht₁
  rw [wp_bind]
  refine wp_conseq (wp_exfatCacheDirectory ht₄) ?_
  intro rc t₅ h₅
  have hshallow : t₅.Shallow := by
    intro x k hx
    have hroot : t₅.root = t.fresh := h₅.read.root.trans h₁₄.root
    rw [hroot]
    by_cases hlt : x < t₄.fresh
    · by_cases hne : x = t.fresh
      · exact .inl hne
      · have hview : t₄.kin = t₁.kin := h₁₄.view
        rw [h₅.others hlt hne, hview] at hx
        exact .inl (hkin₁ hx).1
    · exact .inr (h₅.new (Nat.le_of_not_lt hlt) hx).1
  have hnameless : t₅.Nameless := by
    intro k hk
    rw [h₅.read.root, h₁₄.root] at hk
    have hview : t₄.kin = t₁.kin := h₁₄.view
    have hroot : t₄.kin t.fresh = some r.kin := by
      rw [hview]
      show (Function.update t.heap t.fresh (some r) t.fresh).map Node.kin = _
      rw [Function.update_self, Option.map_some]
    rw [h₅.read.grown.same hroot hk (Set.notMem_empty _)]
    rfl
  cases rc with
  | error e => exact habandon _ t₅
  | ok _ =>
    rw [wp_bind, wp_get]
    split
    · exact wp_after fun _ t => habandon _ t
    split
    · exact wp_after fun _ t => habandon _ t
    · exact fun _ => ⟨h₅.linked, hshallow, hnameless⟩

/-- A mounted volume is a linked tree of its root alone. -/
theorem exfatMount_linked {t : Volume δ} (ht : t.Vacant) :
    wp (exfatMount (δ := δ)) (fun rc t' => rc = .ok () → t'.Linked ∧ t'.Shallow ∧ t'.Nameless)
      anyStop t := by
  unfold exfatMount onVolume
  rw [wp_bind, wp_zoom]
  refine wp_of_forall (fun rc ef => ?_) fun _ _ => trivial
  cases rc with
  | error e => exact wp_after fun _ _ => by simp
  | ok _ => exact mountRoot_linked (t := { t with ef := ef }) ht

end Device

end ExFat
