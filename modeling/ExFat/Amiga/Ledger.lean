import ExFat.Amiga.Packets
import ExFat.Fs.References

namespace ExFat

open Program

/-!
# The books of the handler

Between two packets the references to every node are those of the locks and files that are out, and
the one the mount holds on the root.  `Handler.Books` says so for the states inside a packet too, in
which the routine at work holds references of its own.  The volume is used only while it is mounted,
and only a volume of which nothing is out is unmounted.
-/

variable {δ : Type} {α β : Type}

/-! ### The state -/

/-- The volume is used while it is mounted, and unmounted while nothing is out. -/
def Event.Sound : Event → Prop
  | .use mounted => mounted = true
  | .unmount nlocks nfiles => nlocks = 0 ∧ nfiles = 0

/-- The references the locks, the open files and the mount hold. -/
def Handler.held (h : Handler δ) (i : NodeId) : Int :=
  (h.locks.count fun l => l.node == i) + (h.files.count fun f => f.node == i) + one h.fs.root i

/-- What a packet leaves alone: the two flags, and whether it is known that nothing is out. -/
structure Frame where
  quit : Bool
  inhibited : Bool
  idle : Bool

/-- The volume is mounted and everything is accounted for, when the routine at work holds the
references `x`. -/
structure Handler.Books (φ : Frame) (x : Delta) (h : Handler δ) : Prop where
  mounted : h.mounted = true
  quit : h.quit = φ.quit
  inhibited : h.inhibited = φ.inhibited
  idle : φ.idle = true → h.locks.size = 0 ∧ h.files.size = 0
  nlocks : h.nlocks = h.locks.size
  nfiles : h.nfiles = h.files.size
  listed : ∀ v, h.volume = some v → v.lockList.Perm h.locks.keys
  bounded : h.fs.Bounded
  refs : ∀ i, h.fs.refs i = h.held i + x i
  sound : ∀ e ∈ h.trace, e.Sound

/-- How a run may stop: the events are sound, and nothing is out without a volume. -/
structure Handler.Sane (h : Handler δ) : Prop where
  idle : h.mounted = false → h.locks.size = 0 ∧ h.files.size = 0
  sound : ∀ e ∈ h.trace, e.Sound

/-- Where the books are right nothing is out without a volume. -/
theorem Handler.Books.sane {φ : Frame} {x : Delta} {h : Handler δ} (hb : h.Books φ x) : h.Sane where
  idle hm := absurd (hb.mounted.symm.trans hm) (by decide)
  sound := hb.sound

/-- The routine is called while the references `x` are held, and returns while `y a` are. -/
def Serves (φ : Frame) (m : HandlerM δ α) (x : Delta) (y : α → Delta) : Prop :=
  ∀ h : Handler δ, h.Books φ x → wp m (fun a h' => h'.Books φ (y a)) (fun _ h' => h'.Sane) h

section Calculus

variable {φ : Frame} {x : Delta} {y : α → Delta} {z : β → Delta}

/-- Returning a value holds what is held. -/
theorem Serves.pure {a : α} (h : y a = x) : Serves φ (pure a : HandlerM δ α) x y := fun _ hb => by
  show Handler.Books φ (y a) _
  rw [h]
  exact hb

/-- Two routines in a row. -/
theorem Serves.bind {m : HandlerM δ α} {f : α → HandlerM δ β} (hm : Serves φ m x y)
    (hf : ∀ a, Serves φ (f a) (y a) z) : Serves φ (m >>= f) x z := by
  intro h hb
  rw [wp_bind]
  exact wp_conseq (hm h hb) fun a h' hb' => hf a h' hb'

/-- A routine that looks at the state first. -/
theorem Serves.look {f : Handler δ → HandlerM δ β} (hf : ∀ h, Serves φ (f h) x z) :
    Serves φ (get >>= f) x z := fun h => hf h h

/-- A branch. -/
theorem Serves.ite {c : Prop} [Decidable c] {m₁ m₂ : HandlerM δ α} (h₁ : Serves φ m₁ x y)
    (h₂ : Serves φ m₂ x y) : Serves φ (if c then m₁ else m₂) x y := by
  split
  · exact h₁
  · exact h₂

/-- The references that are held may be written otherwise. -/
theorem Serves.congr {m : HandlerM δ α} {x' : Delta} (hm : Serves φ m x y) (h : x = x') :
    Serves φ m x' y := h ▸ hm

/-- A routine of libexfat on the mounted volume. -/
theorem serves_useFs {m : TreeM δ α} {d : α → Delta} (hm : Refs m d) :
    Serves φ (useFs m) x fun a => x + d a := by
  intro h hb
  unfold useFs note onFs
  rw [wp_bind, wp_get, wp_bind, wp_modify, wp_zoom]
  have hsound : ∀ e ∈ Event.use h.mounted :: h.trace, e.Sound := by
    intro e he
    rcases List.mem_cons.1 he with rfl | he
    · exact hb.mounted
    · exact hb.sound e he
  refine wp_mono (hm h.fs hb.bounded) ?_ ?_
  · intro a t' ht'
    refine ⟨hb.mounted, hb.quit, hb.inhibited, hb.idle, hb.nlocks, hb.nfiles,
      hb.listed, ht'.bounded,
      fun i => ?_, hsound⟩
    show t'.refs i = (h.locks.count fun l => l.node == i) + (h.files.count fun f => f.node == i) +
      one t'.root i + (x i + d a i)
    rw [ht'.refs, hb.refs, ht'.root, ← Int.add_assoc]
    rfl
  · intro e t' _
    exact ⟨fun hm => absurd (hb.mounted.symm.trans hm) (by decide), hsound⟩

/-- A routine of libexfat that leaves the references alone. -/
theorem serves_useFs_links {m : TreeM δ α} (hm : Keeps Volume.SameLinks m) :
    Serves φ (useFs m) x fun _ => x := by
  have hs : Serves φ (useFs m) x fun a => x + (0 : α → Delta) a := serves_useFs (Refs.of_links hm)
  simpa only [Pi.zero_apply, add_zero] using hs

/-- A call of the library that leaves the references alone. -/
theorem serves_useFs_zero {m : TreeM δ α} (hm : Refs m 0) : Serves φ (useFs m) x fun _ => x := by
  have hs : Serves φ (useFs m) x fun a => x + (0 : α → Delta) a := serves_useFs hm
  simpa only [Pi.zero_apply, add_zero] using hs

/-- Asking the outside holds no node. -/
theorem serves_ask (f : Outside δ → Nat → α) : Serves φ (ask f) x fun _ => x := by
  intro h hb
  exact ⟨hb.mounted, hb.quit, hb.inhibited, hb.idle, hb.nlocks, hb.nfiles, hb.listed, hb.bounded,
    hb.refs, hb.sound⟩

/-- An answer holds no node. -/
theorem serves_answer (res1 : Int) (res2 : Option DosError) :
    Serves φ (answer (δ := δ) res1 res2) x fun _ => x := Serves.pure rfl

/-- A refusal holds no node. -/
theorem serves_refuse (e : DosError) : Serves φ (refuse (δ := δ) e) x fun _ => x := Serves.pure rfl

/-- Drop a reference. -/
theorem serves_put (i : NodeId) :
    Serves φ (useFs (exfatPutNode (δ := δ) i)) x fun _ => x - one i := by
  simpa only [sub_eq_add_neg] using serves_useFs (refs_exfatPutNode i)

/-- Take a reference. -/
theorem serves_get (i : NodeId) : Serves φ (useFs (exfatGetNode (δ := δ) i)) x fun _ => x + one i :=
  serves_useFs (refs_exfatGetNode i)

end Calculus

/-! ### The medium -/

section Medium

variable [Device δ]

instance : Calm (commitSuperBlock (δ := δ)) := by
  refine ⟨keeps_look fun ef => keeps_bind (Calm.keeps (m := exfatPwrite _ _)) fun r => ?_⟩
  cases r with
  | none => exact keeps_bind (Calm.keeps (m := exfatError _)) fun _ => keeps_pure _
  | some _ => exact Calm.keeps (m := exfatFsync)

instance : Calm (exfatSoilSuperBlock (δ := δ)) := by
  refine ⟨fun ef => ?_⟩
  unfold exfatSoilSuperBlock
  rw [wp_bind, wp_get]
  split
  · exact refl_of Ef.Settled ef
  · rw [wp_bind, wp_set]
    exact Calm.keeps (m := commitSuperBlock) _

instance : Calm (readBootSector (δ := δ)) := by
  refine ⟨fun ef => ?_⟩
  unfold readBootSector
  rw [wp_bind, wp_get, wp_bind, wp_set]
  cases (Device.pread 512 0 ef.dev).1 with
  | none => exact fun _ hu => hu
  | some bytes => exact fun _ hu => hu

instance (dirty : Bool) : Calm (setVolumeDirty (δ := δ) dirty) := by
  refine ⟨fun ef => ?_⟩
  unfold setVolumeDirty
  rw [wp_bind, wp_get]
  split
  · exact refl_of Ef.Settled ef
  have hwrite : Keeps Ef.Settled (do
      let ef : Ef δ ← get
      match ← exfatPwrite ef.sb.bytes 0 with
      | none => pure false
      | some _ => exfatFsync) := by
    refine keeps_look fun ef => keeps_bind (Calm.keeps (m := exfatPwrite _ _)) fun r => ?_
    cases r with
    | none => exact keeps_pure _
    | some _ => exact Calm.keeps (m := exfatFsync)
  rw [wp_bind, wp_set]
  exact hwrite _

end Medium

instance : Calm (δ := δ) (modify fun ef => { ef with cmap := { ef.cmap with dirty := false } }) :=
  ⟨calm_modify fun _ => rfl⟩

/-! ### Names and scans -/

/-- `safe_get_name` leaves the tree alone. -/
theorem same_safeGetName (n : Node) : Keeps Volume.Same (onVolume (safeGetName (δ := δ) n)) := by
  refine same_onVolume fun ef => ?_
  unfold safeGetName exfatGetName
  split
  · cases nameUtf8 n.name with
    | ok name => exact .inl ⟨_, rfl⟩
    | error e => exact .inr ⟨_, rfl⟩
  · exact .inl ⟨_, rfl⟩

/-- `nodeChain` leaves the tree alone. -/
theorem same_nodeChain (depth : Nat) (i : NodeId) (above : List NodeId) :
    Keeps Volume.Same (nodeChain (δ := δ) depth i above) := by
  induction depth generalizing i above with
  | zero => exact keeps_pure _
  | succ depth ih =>
    refine keeps_look fun t => keeps_ite (keeps_pure _) (keeps_bind (same_getNode i) fun n => ?_)
    cases n.parent with
    | none => exact keeps_pure _
    | some p => exact ih p _

/-- `appendNames` leaves the tree alone. -/
theorem same_appendNames (size : Nat) (abs : List UInt8) (is : List NodeId) :
    Keeps Volume.Same (appendNames (δ := δ) size abs is) := by
  induction is generalizing abs with
  | nil => exact keeps_pure _
  | cons i is ih =>
    refine keeps_bind (same_getNode i) fun n => keeps_bind (same_safeGetName n) fun name => ?_
    exact keeps_ite (keeps_pure _) (ih _)

/-- `node_abs_path` leaves the tree alone. -/
theorem same_nodeAbsPath (i : NodeId) (size : Nat) :
    Keeps Volume.Same (nodeAbsPath (δ := δ) i size) := by
  refine keeps_bind (same_nodeChain _ _ _) fun chain => ?_
  cases chain with
  | none => exact keeps_pure _
  | some chain => exact same_appendNames _ _ _

/-- `resolve_path` leaves the tree alone. -/
theorem same_resolvePath (base : Option NodeId) (bpath : Bstr) :
    Keeps Volume.Same (resolvePath (δ := δ) base bpath) := by
  unfold resolvePath
  dsimp only
  split
  on_goal 1 => refine keeps_bind (keeps_pure _) fun start => ?_
  on_goal 2 => refine keeps_bind (same_nodeAbsPath _ _) fun start => ?_
  -- the rest only computes
  all_goals
    cases start with
    | none => exact keeps_pure _
    | some abs =>
      dsimp only
      split <;> exact keeps_pure _

/-- `fill_fib` leaves the tree alone. -/
theorem same_fillFib (i : NodeId) (diskKey : Int) (isRoot : Bool) :
    Keeps Volume.Same (fillFib (δ := δ) i diskKey isRoot) := by
  refine keeps_bind (same_getNode i) fun n => keeps_look fun t => ?_
  refine keeps_bind ?_ fun _ => keeps_pure _
  cases isRoot with
  | true => exact same_onVolume fun ef => .inl ⟨_, rfl⟩
  | false =>
    refine same_onVolume fun ef => ?_
    unfold fibName safeGetName exfatGetName
    cases nameIsSane n with
    | false => exact .inl ⟨_, rfl⟩
    | true =>
      cases hname : nameUtf8 n.name with
      | ok name => exact .inl ⟨_, rfl⟩
      | error e => exact .inr ⟨_, rfl⟩

/-- `fill_fib` leaves the links alone. -/
theorem links_fillFib (i : NodeId) (diskKey : Int) (isRoot : Bool) :
    Keeps Volume.SameLinks (fillFib (δ := δ) i diskKey isRoot) := links_of_same (same_fillFib _ _ _)

/-- `nextSibling` leaves the tree alone. -/
theorem same_nextSibling (i : NodeId) : Keeps Volume.Same (nextSibling (δ := δ) i) := by
  refine keeps_bind (same_getNode i) fun n => ?_
  cases n.parent with
  | none => exact keeps_pure _
  | some p => exact keeps_bind (same_getNode p) fun _ => keeps_pure _

/-- `nextSibling` leaves the links alone. -/
theorem links_nextSibling (i : NodeId) : Keeps Volume.SameLinks (nextSibling (δ := δ) i) :=
  links_of_same (same_nextSibling i)

/-- `countTo` returns a reference to the child it stops at. -/
theorem refs_countTo (want index : Int) (is : List NodeId) :
    Refs (countTo (δ := δ) want index is) fun r => r.elim 0 one := by
  induction is generalizing index with
  | nil => exact Refs.pure rfl
  | cons i is ih =>
    refine Refs.bind (refs_exfatGetNode i) fun _ => Refs.ite (Refs.pure (sub_self _)) ?_
    exact Refs.bind (refs_exfatPutNode i) fun _ => (ih _).congr fun r => by abel

/-- A loop over nodes shows what its steps show. -/
theorem links_forEach {κ : Type} {π : Node → κ} {f : NodeId → TreeM δ PUnit}
    (hf : ∀ i, Keeps (Volume.SameBy π) (f i))
    (is : List NodeId) : Keeps (Volume.SameBy π) (forEach f is) := by
  induction is with
  | nil => exact keeps_pure _
  | cons i is ih => exact keeps_bind (hf i) fun _ => ih

/-- `discard_dirty_nodes` leaves what it does not clean alone. -/
theorem links_discardDirtyNodes {κ : Type} {π : Node → κ} [Aloof π] (fuel : Nat) (i : NodeId) :
    Keeps (Volume.SameBy π) (discardDirtyNodes (δ := δ) fuel i) := by
  induction fuel generalizing i with
  | zero => exact keeps_throw _
  | succ fuel ih =>
    refine keeps_bind (links_updateNode i fun _ => Aloof.data rfl) fun _ => ?_
    exact keeps_bind (links_getNode i) fun n => links_forEach ih _

section Locks

variable {φ : Frame} {x : Delta}

/-- The node of a lock is not another reference. -/
theorem serves_lockNode (lock : Option Lock) : Serves φ (lockNode (δ := δ) lock) x fun _ => x :=
  Serves.look fun _ => Serves.pure rfl

/-- A packet that names a lock: if it is there, not everything has come back. -/
theorem serves_lockAt {f : Option Lock → HandlerM δ β} {z : β → Delta} (l : Option LockId)
    (hnone : Serves φ (f none) x z)
    (hsome : φ.idle = false → ∀ lock, Serves φ (f (some lock)) x z) :
    Serves φ (lockAt l >>= f) x z := by
  intro h hb
  cases l with
  | none => exact hnone h hb
  | some l =>
    unfold lockAt
    rw [wp_bind, wp_bind, wp_get]
    cases hl : h.locks.get? l with
    | none => exact hb.sane
    | some lock =>
      refine hsome ?_ lock h hb
      by_contra hidle
      rw [Bool.not_eq_false] at hidle
      rw [h.locks.get?_eq_none_of_size (hb.idle hidle).1] at hl
      cases hl

/-- A routine that asks for a file is given one only while files are counted. -/
theorem serves_fileAt {f : Option ExfatFile → HandlerM δ β} {z : β → Delta} (l : Option FileId)
    (hnone : Serves φ (f none) x z)
    (hsome : φ.idle = false → ∀ file, Serves φ (f (some file)) x z) :
    Serves φ (fileAt l >>= f) x z := by
  intro h hb
  cases l with
  | none => exact hnone h hb
  | some l =>
    unfold fileAt
    rw [wp_bind, wp_bind, wp_get]
    cases hl : h.files.get? l with
    | none => exact hb.sane
    | some file =>
      refine hsome ?_ file h hb
      by_contra hidle
      rw [Bool.not_eq_false] at hidle
      rw [h.files.get?_eq_none_of_size (hb.idle hidle).2] at hl
      cases hl

/-- Assignments to locks that leave them on their nodes. -/
theorem serves_setLocks {f : Nat → Lock → Lock} (hf : ∀ k l, (f k l).node = l.node) :
    Serves φ (modify fun h : Handler δ => { h with locks := h.locks.map f }) x fun _ => x := by
  intro h hb
  refine ⟨hb.mounted, hb.quit, hb.inhibited, ?_, ?_, hb.nfiles, ?_, hb.bounded,
    fun i => ?_, hb.sound⟩
  · rw [Table.size_map]
    exact hb.idle
  · rw [Table.size_map]
    exact hb.nlocks
  · rw [Table.keys_map]
    exact hb.listed
  · have hcount := h.locks.count_map (fun l => l.node == i) (f := f) fun k l => by rw [hf]
    show h.fs.refs i = ((h.locks.map f).count fun l => l.node == i) + _ + _ + _
    rw [hcount, hb.refs]
    rfl

/-- Moving a scan holds no node. -/
theorem serves_setScan (lock : Option LockId) (next : Option NodeId) (index : Int) :
    Serves φ (setScan (δ := δ) lock next index) x fun _ => x := by
  cases lock with
  | none => exact Serves.pure rfl
  | some l =>
    refine serves_setLocks fun k lock => ?_
    by_cases hk : k = l
    · rw [if_pos hk]
    · rw [if_neg hk]

/-- `scan_skip_node` holds no node. -/
theorem serves_scanSkipNode (i : NodeId) : Serves φ (scanSkipNode (δ := δ) i) x fun _ => x := by
  refine Serves.look fun h => ?_
  cases h.volume with
  | none => exact Serves.pure rfl
  | some v =>
    refine Serves.bind (serves_useFs_links (links_nextSibling i)) fun next => ?_
    refine serves_setLocks fun k lock => ?_
    by_cases hk : k ∈ v.lockList ∧ lock.scanNext = some i
    · rw [if_pos hk]
    · rw [if_neg hk]

/-- `scan_invalidate_all` holds no node. -/
theorem serves_scanInvalidateAll : Serves φ (scanInvalidateAll (δ := δ)) x fun _ => x := by
  refine Serves.look fun h => ?_
  cases h.volume with
  | none => exact Serves.pure rfl
  | some v =>
    refine serves_setLocks fun k lock => ?_
    by_cases hk : k ∈ v.lockList
    · rw [if_pos hk]
    · rw [if_neg hk]

/-- A lock that is made takes over a reference. -/
theorem serves_exfatAmigaMakelock (hidle : φ.idle = false) (i : NodeId) (access : Access) :
    Serves φ (exfatAmigaMakelock (δ := δ) i access) x
      fun r => r.elim x fun _ => x - one i := by
  refine Serves.bind (serves_ask _) fun ok => Serves.ite (Serves.pure rfl) ?_
  intro h hb
  refine ⟨hb.mounted, hb.quit, hb.inhibited, fun hi => absurd (hidle.symm.trans hi) (by decide), ?_,
    hb.nfiles, ?_, hb.bounded, fun j => ?_, hb.sound⟩
  · show h.nlocks + 1 = h.locks.size + 1
    rw [hb.nlocks]
  · intro v hv
    obtain ⟨v', hv', rfl⟩ := Option.map_eq_some_iff.1 hv
    exact (hb.listed v' hv').cons _
  · show h.fs.refs j = ((h.locks.insert { node := i, access := access }).count fun l =>
      l.node == j) +
      _ + _ + (x j - one i j)
    rw [hb.refs, Table.count_insert]
    unfold Handler.held one
    by_cases hj : j = i
    · subst hj
      simp
      ring
    · have hne : (i == j) = false := beq_false_of_ne (Ne.symm hj)
      simp [hne, hj]

/-- Freeing a lock drops the reference of its node. -/
theorem serves_exfatAmigaFreelock (l : Option LockId) :
    Serves φ (exfatAmigaFreelock (δ := δ) l) x fun _ => x := by
  -- a null lock is nothing to free
  cases l with
  | none => exact Serves.pure rfl
  | some l =>
    intro h hb
    unfold exfatAmigaFreelock
    dsimp only
    rw [wp_bind]
    unfold lockAt
    rw [wp_bind, wp_get]
    cases hl : h.locks.get? l with
    | none => exact hb.sane
    | some lock =>
      rw [wp_pure]
      dsimp only
      rw [wp_bind, wp_modify]
      -- the list is short of the lock until it is freed
      have hput := serves_put (δ := δ) (φ := { φ with idle := false }) (x := x) lock.node
        { h with volume := none }
        ⟨hb.mounted, hb.quit, hb.inhibited, nofun, hb.nlocks, hb.nfiles, nofun, hb.bounded, hb.refs,
          hb.sound⟩
      unfold useFs note onFs at hput ⊢
      simp only [wp_bind, wp_get, wp_modify, wp_zoom] at hput ⊢
      refine wp_mono hput ?_ ?_
      · intro _ t' hb'
        have hsize := h.locks.size_erase hl
        refine ⟨hb.mounted, hb.quit, hb.inhibited, fun hi => ?_, ?_, hb.nfiles, ?_, hb'.bounded,
          fun j => ?_, hb'.sound⟩
        -- a lock is out, so the volume is not idle
        · exact absurd (hb.idle hi).1 (by omega)
        · show h.nlocks - 1 = (h.locks.erase l).size
          rw [hb.nlocks]
          omega
        · intro v hv
          obtain ⟨v', hv', rfl⟩ := Option.map_eq_some_iff.1 hv
          rw [Table.keys_erase]
          exact (hb.listed v' hv').erase l
        · have hcount := h.locks.count_erase (fun l => l.node == j) hl
          have hrefs := hb'.refs j
          unfold Handler.held one at hrefs ⊢
          dsimp only at hrefs ⊢
          rw [hrefs, ← hcount, Pi.sub_apply]
          -- the node of the lock loses one holder, the others none
          by_cases hj : j = lock.node
          · subst hj
            simp
            ring
          · have hne : (lock.node == j) = false := beq_false_of_ne (Ne.symm hj)
            simp [hne, hj]
      · intro e t' hs
        exact ⟨hs.idle, hs.sound⟩

/-- The reference to the node goes into the lock. -/
theorem serves_giveLock (hidle : φ.idle = false) (i : NodeId) (access : Access) :
    Serves φ (giveLock (δ := δ) i access) (x + one i) fun _ => x := by
  refine Serves.bind (serves_exfatAmigaMakelock hidle i access) fun r => ?_
  cases r with
  | none =>
    refine Serves.bind (serves_put i) fun _ => (serves_refuse _).congr ?_
    exact (add_sub_cancel_right x (one i)).symm
  | some lock => exact (serves_answer _ _).congr (add_sub_cancel_right x (one i)).symm

/-- The volume node stays what it is but for its name and its task. -/
theorem serves_setVolume {f : DeviceList → DeviceList} (hf : ∀ v, (f v).lockList = v.lockList) :
    Serves φ (modify fun h : Handler δ => { h with volume := h.volume.map f }) x fun _ => x := by
  intro h hb
  refine ⟨hb.mounted, hb.quit, hb.inhibited, hb.idle, hb.nlocks, hb.nfiles, ?_, hb.bounded, hb.refs,
    hb.sound⟩
  intro v hv
  obtain ⟨v', hv', rfl⟩ := Option.map_eq_some_iff.1 hv
  rw [hf]
  exact hb.listed v' hv'

/-! ### Files -/

/-- The reference to the node goes into the file. -/
theorem serves_insertFile (hidle : φ.idle = false) (i : NodeId) (file : ExfatFile)
    (hfile : file.node = i) (reply : Nat → PacketReply) :
    Serves φ (do
      let h ← get
      set { h with files := h.files.insert file, nfiles := h.nfiles + 1 }
      pure (reply h.files.next) : HandlerM δ PacketReply) (x + one i) fun _ => x := by
  intro h hb
  refine ⟨hb.mounted, hb.quit, hb.inhibited, fun hi => absurd (hidle.symm.trans hi) (by decide),
    hb.nlocks, ?_, hb.listed, hb.bounded, fun j => ?_, hb.sound⟩
  · show h.nfiles + 1 = h.files.size + 1
    rw [hb.nfiles]
  · show h.fs.refs j = _ + ((h.files.insert file).count fun f => f.node == j) + _ + x j
    rw [hb.refs, Table.count_insert, hfile, Pi.add_apply]
    unfold Handler.held one
    by_cases hj : j = i
    · subst hj
      simp
      ring
    · have hne : (i == j) = false := beq_false_of_ne (Ne.symm hj)
      simp [hne, hj]

/-- The reference to the node goes into the file. -/
theorem serves_giveFile (hidle : φ.idle = false) (i : NodeId) (writable : Bool) :
    Serves φ (giveFile (δ := δ) i writable) (x + one i) fun _ => x := by
  refine Serves.bind (serves_ask _) fun ok => Serves.ite ?_ ?_
  · refine Serves.bind (serves_put i) fun _ => (serves_refuse _).congr ?_
    exact (add_sub_cancel_right x (one i)).symm
  · exact serves_insertFile hidle i _ rfl fun f => { res1 := dosTrue, fhArg1 := some f }

/-- Moving a file position holds no node. -/
theorem serves_setPos (f : Option FileId) (pos : Int) :
    Serves φ (setPos (δ := δ) f pos) x fun _ => x := by
  cases f with
  | none => exact Serves.pure rfl
  | some f =>
    intro h hb
    refine ⟨hb.mounted, hb.quit, hb.inhibited, ?_, hb.nlocks, ?_, hb.listed,
      hb.bounded, fun i => ?_,
      hb.sound⟩
    · rw [Table.size_update]
      exact hb.idle
    · rw [Table.size_update]
      exact hb.nfiles
    · have hcount := h.files.count_update (k := f) (fun f => f.node == i)
        (f := fun file => { file with pos := pos }) fun _ => rfl
      show h.fs.refs i = _ + ((h.files.update f _).count fun f => f.node == i) + _ + _
      rw [hcount, hb.refs]
      rfl

end Locks

end ExFat
