import ExFat.Fs.Upkeep
import ExFat.Fs.References
import ExFat.Fuse.Calls

namespace ExFat

open Program

/-!
# What the front end for FUSE keeps

Between two requests the references to every node are those of the open files, and the one the mount
holds on the root: the lookups of the calls cancel out on every path, the failing ones included.
From this the rest follows.

* A node that a file is open on is in memory, so that no request reaches a node that has been freed.
* `unlink` and `rmdir` succeed only on what nobody has open (`fuseExfatRemove_closed`).  On an open
  file they end in `exfat_cleanup_node`, which stops at references; FUSE keeps such requests back.
* The nodes in memory form a tree below the root.
-/

variable {δ : Type} {α β : Type}

/-! ### The books -/

/-- The nodes that somebody refers to. -/
def Volume.referred (t : Volume δ) : Set NodeId := {i | 0 < t.refs i}

/-- The references that the open files and the mount hold. -/
def Fuse.held (s : Fuse δ) (i : NodeId) : Int := (s.files.count fun j => j == i) + one s.fs.root i

/-- Everything is accounted for, when the files `files` are open and the routine at work holds the
references `x`. -/
structure Fuse.Books (files : Table NodeId) (x : Delta) (s : Fuse δ) : Prop where
  files : s.files = files
  bounded : s.fs.Bounded
  refs : ∀ i, s.fs.refs i = s.held i + x i
  tree : s.fs.Sound False s.fs.referred

/-- Everything is accounted for, and nothing is at work. -/
def Fuse.Balanced (s : Fuse δ) : Prop := s.Books s.files 0

/-- One reference is one to its node. -/
theorem one_pos_iff {i j : NodeId} : 0 < one i j ↔ j = i := by
  unfold one
  split <;> simp_all

/-- No node is held less than not at all. -/
theorem Fuse.held_nonneg (s : Fuse δ) (i : NodeId) : 0 ≤ s.held i := by
  unfold Fuse.held one
  split
  · omega
  · omega

/-- What the routine holds is referred to. -/
theorem Fuse.Books.mem_referred {files : Table NodeId} {x : Delta} {s : Fuse δ}
    (hb : s.Books files x) {i : NodeId} (hi : 0 < x i) : i ∈ s.fs.referred := by
  have hheld := s.held_nonneg i
  have hrefs := hb.refs i
  show 0 < s.fs.refs i
  omega

/-- Fewer nodes may be held. -/
theorem Volume.Sound.mono {D : Prop} {H H' : Set NodeId} {t : Volume δ} (ht : t.Sound D H)
    (h : H' ⊆ H) : t.Sound D H' where
  linked := ht.linked
  rooted := ht.rooted
  distinct := ht.distinct
  bound hx := ht.bound (h hx)
  spent hx := ht.spent (h hx)
  nameless := ht.nameless

/-- What the references are raised on is referred to afterwards, and nothing else that was not. -/
theorem Volume.Counted.referred {t t' : Volume δ} {d : Delta} (h : t.Counted d t') :
    t'.referred ⊆ t.referred ∪ {i | 0 < d i} := by
  intro i hi
  have hrefs := h.refs i
  have hi' : 0 < t'.refs i := hi
  by_cases hold : 0 < t.refs i
  · exact .inl hold
  · right
    show 0 < d i
    omega

/-- A file is opened. -/
theorem Fuse.Books.insert {files : Table NodeId} {x : Delta} {s : Fuse δ} {i : NodeId}
    (hb : s.Books files (x + one i)) :
    Fuse.Books (files.insert i) x { s with files := s.files.insert i } := by
  refine ⟨congrArg (Table.insert · i) hb.files, hb.bounded, fun j => ?_, hb.tree⟩
  have hcount := s.files.count_insert (fun k => k == j) i
  have hrefs := hb.refs j
  rw [Pi.add_apply] at hrefs
  unfold Fuse.held at hrefs ⊢
  dsimp only
  rw [hrefs, hcount]
  by_cases hj : j = i
  · subst hj
    simp [one]
    ring
  · simp [one, hj, Ne.symm hj]

/-- A file is closed, after its reference has been dropped. -/
theorem Fuse.Books.erase {files : Table NodeId} {x : Delta} {s : Fuse δ} {i : NodeId}
    {fi : FileInfo} (hb : s.Books files (x - one i)) (hi : files.get? fi = some i) :
    Fuse.Books (files.erase fi) x { s with files := s.files.erase fi } := by
  refine ⟨congrArg (Table.erase · fi) hb.files, hb.bounded, fun j => ?_, hb.tree⟩
  rw [← hb.files] at hi
  have hcount := s.files.count_erase (fun k => k == j) hi
  have hrefs := hb.refs j
  rw [Pi.sub_apply] at hrefs
  unfold Fuse.held at hrefs ⊢
  dsimp only
  rw [hrefs, ← hcount]
  by_cases hj : j = i
  · subst hj
    simp [one]
    ring
  · simp [one, hj, Ne.symm hj]

/-! ### The calculus -/

/-- The routine, which is called while the files `files` are open and the references `x` are held,
returns with `Q`. -/
def Attends (files : Table NodeId) (x : Delta) (m : FuseM δ α) (Q : α → Fuse δ → Prop) : Prop :=
  ∀ s : Fuse δ, s.Books files x → wp m Q anyStop s

section Calculus

variable {files : Table NodeId} {x : Delta} {y : α → Delta} {Q : β → Fuse δ → Prop}

/-- Returning a value takes no reference. -/
theorem Attends.pure {b : β} (h : ∀ s, s.Books files x → Q b s) :
    Attends files x (pure b : FuseM δ β) Q := h

/-- Two routines in a row. -/
theorem Attends.bind {m : FuseM δ α} {f : α → FuseM δ β}
    (hm : Attends files x m fun a s' => s'.Books files (y a))
    (hf : ∀ a, Attends files (y a) (f a) Q) : Attends files x (m >>= f) Q := by
  intro s hs
  rw [wp_bind]
  exact wp_conseq (hm s hs) fun a s' hs' => hf a s' hs'

/-- A routine that looks at the state first. -/
theorem Attends.look {f : Fuse δ → FuseM δ β} (hf : ∀ s, Attends files x (f s) Q) :
    Attends files x (get >>= f) Q := fun s => hf s s

/-- A branch. -/
theorem Attends.ite {c : Prop} [Decidable c] {m₁ m₂ : FuseM δ β} (h₁ : Attends files x m₁ Q)
    (h₂ : Attends files x m₂ Q) : Attends files x (if c then m₁ else m₂) Q := by
  split
  · exact h₁
  · exact h₂

/-- A routine of libexfat that changes the references by `d`: what it hands out hangs below the
root. -/
theorem attends_inVolume {m : TreeM δ α} {d : α → Delta} (hrefs : Refs m d)
    (hsound : ∀ t : Volume δ, t.Sound False t.referred → (∀ i, 0 < x i → i ∈ t.referred) →
      wp m (fun a t' => t'.Sound False (t.referred ∪ {i | 0 < d a i})) anyStop t) :
    Attends files x (inVolume m) fun a s' => s'.Books files (x + d a) := by
  intro s hs
  unfold inVolume
  rw [wp_zoom]
  have hboth := wp_and (hrefs s.fs hs.bounded) (hsound s.fs hs.tree fun i hi => hs.mem_referred hi)
  refine wp_mono hboth ?_ (fun _ _ _ => trivial)
  rintro a t' ⟨hcount, htree⟩
  refine ⟨hs.files, hcount.bounded, fun i => ?_, htree.mono hcount.referred⟩
  show t'.refs i = (s.files.count fun j => j == i) + one t'.root i + (x i + d a i)
  rw [hcount.refs, hs.refs, hcount.root, ← Int.add_assoc]
  rfl

/-- A routine that leaves the references alone, and with them what is referred to. -/
theorem attends_still {m : TreeM δ α} (hrefs : Refs m 0)
    (hsound : ∀ t : Volume δ, t.Sound False t.referred → (∀ i, 0 < x i → i ∈ t.referred) →
      wp m (fun _ t' => t'.Sound False t.referred) anyStop t) :
    Attends files x (inVolume m) fun _ s' => s'.Books files x := by
  have hstill : Attends files x (inVolume m) fun a s' =>
    s'.Books files (x + (0 : α → Delta) a) := by
    refine attends_inVolume hrefs fun t ht hx => wp_conseq (hsound t ht hx) fun a t' ht' =>
      ht'.mono ?_
    rintro i (hi | hi)
    · exact hi
    · have hzero : (0 : Int) < 0 := hi
      exact absurd hzero (lt_irrefl 0)
  simpa only [Pi.zero_apply, add_zero] using hstill

/-- Drop a reference. -/
theorem attends_put (i : NodeId) :
    Attends files x (inVolume (exfatPutNode (δ := δ) i)) fun _ s' =>
      s'.Books files (x - one i) := by
  simp only [sub_eq_add_neg]
  refine attends_inVolume (refs_exfatPutNode i) fun t ht _ => ?_
  refine wp_mono (kin_exfatPutNode i t) (fun _ t' h => (h.sound ht).mono ?_) (fun _ _ _ => trivial)
  rintro j (hj | hj)
  · exact hj
  · have hj' : 0 < -one i j := hj
    unfold one at hj'
    split at hj' <;> omega

/-- Drop the reference that was taken last. -/
theorem attends_putLast (i : NodeId) :
    Attends files (x + one i) (inVolume (exfatPutNode (δ := δ) i)) fun _ s' =>
      s'.Books files x := by
  have h : Attends files (x + one i) (inVolume (exfatPutNode (δ := δ) i)) fun _ s' =>
      s'.Books files (x + one i - one i) := attends_put i
  simpa only [add_sub_cancel_right] using h

/-- An open file that a request names. -/
theorem attends_fuseNode {fi : FileInfo} {f : NodeId → FuseM δ β}
    (hf : ∀ i, files.get? fi = some i → Attends files x (f i) Q) :
    Attends files x (fuseNode fi >>= f) Q := by
  intro s hs
  unfold fuseNode
  rw [wp_bind, wp_bind, wp_get]
  cases hi : s.files.get? fi with
  | none => exact trivial
  | some i =>
    rw [hs.files] at hi
    exact hf i hi s hs

/-- A file that is opened takes over a reference. -/
theorem attends_setNode {i : NodeId} {f : FileInfo → FuseM δ β}
    (hf : ∀ s, s.Books (files.insert i) x → wp (f files.next) Q anyStop s) :
    Attends files (x + one i) (setNode i >>= f) Q := by
  intro s hs
  have hnext : s.files.next = files.next := congrArg Table.next hs.files
  have hrest := hf _ hs.insert
  rw [← hnext] at hrest
  exact hrest

end Calculus

/-! ### The routines of the library -/

section Routines

variable {files : Table NodeId} {x : Delta}

/-- A routine that takes references only for the time it runs. -/
theorem attends_kin {m : TreeM δ α} (hrefs : Refs m 0) (hkin : Keeps Volume.SameKin m) :
    Attends files x (inVolume m) fun _ s' => s'.Books files x :=
  attends_still hrefs fun t ht _ => wp_mono (hkin t) (fun _ _ h => h.sound ht)
    (fun _ _ _ => trivial)

/-- A routine that works on nodes and leaves them where they are. -/
theorem attends_kept {m : TreeM δ α} (hlinks : Keeps Volume.SameLinks m)
    (hkin : Keeps Volume.SameKin m) : Attends files x (inVolume m) fun _ s' => s'.Books files x :=
      attends_kin (Refs.of_links hlinks) hkin

/-- `getNode` keeps the books. -/
theorem attends_getNode (i : NodeId) :
    Attends files x (inVolume (getNode (δ := δ) i)) fun _ s' => s'.Books files x :=
  attends_kept (links_getNode i) (links_getNode i)

/-- A routine on the volume keeps the books. -/
theorem attends_onVolume (m : EfM δ α) [Calm m] :
    Attends files x (inVolume (onVolume m)) fun _ s' => s'.Books files x :=
  attends_kept (links_onVolume m) (links_onVolume m)

variable [Device δ]

/-- `exfat_flush_node` keeps the books. -/
theorem attends_exfatFlushNode (i : NodeId) :
    Attends files x (inVolume (exfatFlushNode (δ := δ) i)) fun _ s' => s'.Books files x :=
  attends_kept (links_exfatFlushNode i) (links_exfatFlushNode i)

/-- `exfat_truncate` keeps the books. -/
theorem attends_exfatTruncate (i : NodeId) (size : Nat) (erase : Bool) :
    Attends files x (inVolume (onNode i (exfatTruncate (δ := δ) size erase))) fun _ s' =>
      s'.Books files x :=
  attends_kept (links_onNode i (keeps_exfatTruncate _ _)) (links_onNode i (keeps_exfatTruncate _ _))

/-- What a lookup hands out hangs below the root. -/
theorem attends_exfatLookup (path : List UInt8) :
    Attends files x (inVolume (exfatLookup (δ := δ) path)) fun r s' =>
      s'.Books files (x + taken r) := by
  refine attends_inVolume (refs_exfatLookup path) fun t ht _ => ?_
  refine wp_conseq (wp_exfatLookup path ht.linked) ?_
  rintro r t' ⟨-, hexplored, hdepth⟩
  have ht' := (hexplored.ready ⟨ht, False.elim⟩).toSound
  cases r with
  | error e => exact ht'.mono (by simp [taken])
  | ok i =>
    obtain ⟨n, hn⟩ := hdepth i rfl
    exact (ht'.hold hn).mono (Set.union_subset (Set.subset_insert ..) fun j hj =>
      .inl (one_pos_iff.1 hj))

/-- `exfat_mknod` keeps the books. -/
theorem attends_exfatMknod (path : List UInt8) :
    Attends files x (inVolume (exfatMknod (δ := δ) path)) fun _ s' => s'.Books files x :=
  attends_still (refs_create path _) fun _ ht _ =>
    wp_conseq (wp_exfatMknod path ht.linked) fun _ _ h => h.sound ⟨ht, False.elim⟩

/-- `exfat_mkdir` keeps the books. -/
theorem attends_exfatMkdir (path : List UInt8) :
    Attends files x (inVolume (exfatMkdir (δ := δ) path)) fun _ s' => s'.Books files x :=
  attends_still (refs_exfatMkdir path) fun _ ht _ =>
    wp_conseq (wp_exfatMkdir path ht.linked) fun _ _ h => h.sound ⟨ht, False.elim⟩

/-- `exfat_rename` keeps the books. -/
theorem attends_exfatRename (oldPath newPath : List UInt8) :
    Attends files x (inVolume (exfatRename (δ := δ) oldPath newPath)) fun _ s' =>
      s'.Books files x :=
  attends_still (refs_exfatRename oldPath newPath) fun _ ht _ =>
    wp_exfatRename oldPath newPath ⟨ht, False.elim⟩

/-- `exfat_cleanup_node` keeps the books. -/
theorem attends_exfatCleanupNode (i : NodeId) :
    Attends files x (inVolume (exfatCleanupNode (δ := δ) i)) fun _ s' => s'.Books files x :=
  attends_still (refs_exfatCleanupNode i) fun t ht _ =>
    wp_conseq (wp_exfatCleanupNode i t) fun _ _ h => h.sound ht

/-- A directory is opened by somebody who holds it. -/
theorem attends_exfatOpendir {dir : NodeId} (hdir : 0 < x dir) :
    Attends files x (inVolume (exfatOpendir (δ := δ) dir)) fun r s' =>
      s'.Books files (x + taken (r.map fun _ => dir)) := by
  refine attends_inVolume (refs_exfatOpendir dir) fun t ht hx => ?_
  have hput : ∀ {r : Rc} {t' : Volume δ} {m : TreeM δ Rc}, t'.Sound False t.referred →
      Keeps Volume.SameKin m → wp m
        (fun r t'' => t''.Sound False (t.referred ∪ {i | 0 < taken (r.map fun _ => dir) i}))
        anyStop t' := by
    intro r t' m ht' hm
    refine wp_mono (hm t') (fun r t'' h => (h.sound ht').mono ?_) (fun _ _ _ => trivial)
    refine Set.union_subset subset_rfl fun j hj => ?_
    cases r with
    | error e => exact absurd hj (lt_irrefl (0 : Int))
    | ok _ =>
      rw [one_pos_iff.1 hj]
      exact hx dir hdir
  unfold exfatOpendir
  rw [wp_bind]
  refine wp_mono (kin_exfatGetNode dir t) ?_ (fun _ _ _ => trivial)
  intro _ t₁ h₁
  have ht₁ := h₁.sound ht
  rw [wp_bind]
  refine wp_conseq (wp_cacheReadable ht₁.linked (ht₁.readable (hx dir hdir))) ?_
  rintro r t₂ ⟨-, hexplored⟩
  have ht₂ := (hexplored.ready ⟨ht₁, False.elim⟩).toSound
  cases r with
  | error e =>
    exact hput (r := .error e) ht₂ (keeps_bind (kin_exfatPutNode dir) fun _ => keeps_pure _)
  | ok _ => exact hput (r := .ok ()) ht₂ (keeps_pure _)

end Routines

end ExFat
