import ExFat.Session.Silence
import ExFat.Session.Resolve
import ExFat.Session.Within

namespace ExFat

open Program

/-!
# The tree in runs that say nothing

* `Volume.Clean`: no node has anything to be written back, and the names are of UTF-16.
* `Volume.Sober` is kept by what mounts and reads a volume: no message is taken back, and without
  one a clean volume stays clean.
* `Volume.Hushed` is kept by what looks paths up in a mounted volume: without a message there is
  nothing new in the volume but nodes, directories that have been read, and the references.
* `sober_exfatMount` is for `exfat_mount`; `sober_looks` and `hushed_looks` are for what a lookup is
  made of, and `Volume.Looks.exfatLookup` is then for `exfat_lookup`.
-/

/-! ### Clean volumes -/

/-- There is nothing to be written back, and the names are names. -/
def Volume.Clean (t : Volume Flat) : Prop := ∀ i n, t.heap i = some n → n.Fresh True

/-- The volume after a routine that is silent only if it dirties no node. -/
structure Volume.Sober (t t' : Volume Flat) : Prop where
  le : t.ef.errors ≤ t'.ef.errors
  clean : t'.ef.errors = t.ef.errors → t.Clean → t'.Clean

instance : IsPreorder (Volume Flat) Volume.Sober where
  refl _ := ⟨Nat.le_refl _, fun _ h => h⟩
  trans t t₁ t₂ h h' := by
    have hle := h.le
    have hle' := h'.le
    exact ⟨Nat.le_trans hle hle', fun he hc => h'.clean (by omega) (h.clean (by omega) hc)⟩

section Sober

variable {α : Type} {t : Volume Flat} {i : NodeId} {n : Node}

/-- A node with the same name is as fresh. -/
theorem Node.Fresh.of_same {n n' : Node} {quiet : Prop} (h : n.Fresh quiet)
    (hname : n'.name = n.name) (hdirty : n.isDirty = false → n'.isDirty = false) : n'.Fresh quiet :=
  ⟨fun x hx => h.units x (hname ▸ hx), hname ▸ h.length, fun hq => hdirty (h.clean hq)⟩

/-- Storing a clean node leaves the volume clean. -/
theorem Volume.Clean.store {s : FileState Flat} (h : t.Clean) (hs : s.node.Fresh True) :
    (t.store i s).Clean := by
  intro j n hj
  by_cases hne : j = i
  · subst hne
    rw [store_heap_self] at hj
    cases hj
    exact hs
  · rw [store_heap_of_ne _ hne] at hj
    exact h j n hj

/-- A routine that works on one node keeps its name, and dirties it only with a message. -/
theorem sober_onNode (i : NodeId) {m : FileM Flat α}
    (hm : ∀ s, wp m (fun _ s' => s.Heard s' ∧ s'.node.name = s.node.name) anyStop s) :
    Yields Volume.Sober (onNode i m) := by
  intro t
  cases hi : t.heap i with
  | none =>
    unfold wp onNode
    rw [hi]
    exact trivial
  | some n =>
    rw [wp_onNode hi]
    refine wp_conseq (hm _) ?_
    rintro a s ⟨hheard, hname⟩
    refine ⟨hheard.ef.le, fun he hc => hc.store ?_⟩
    exact (hc i _ hi).of_same hname fun hclean => (hheard.isDirty he).trans hclean

/-- Changing a node that is in memory. -/
theorem wp_update (i : NodeId) (f : Node → Node) {Q : PUnit → Volume Flat → Prop}
    (h : ∀ n, t.heap i = some n → Q ⟨⟩ (t.store i ⟨t.ef, f n⟩)) :
    wp (updateNode i f) Q anyStop t := by
  cases hi : t.heap i with
  | none =>
    unfold wp updateNode onNode
    rw [hi]
    exact trivial
  | some n => exact wp_of_ok (run_updateNode hi f) (h n hi)

/-- A change that keeps the name dirties no node. -/
theorem sober_updateNode (i : NodeId) {f : Node → Node} (hname : ∀ n, (f n).name = n.name)
    (hdirty : ∀ n, n.isDirty = false → (f n).isDirty = false) :
    Yields Volume.Sober (updateNode (δ := Flat) i f) :=
  fun _ => wp_update i f fun n hi =>
    ⟨Nat.le_refl _, fun _ hc => hc.store ((hc i _ hi).of_same (hname n) (hdirty n))⟩

/-- A routine on the volume dirties no node. -/
theorem sober_onVolume {m : EfM Flat α} (hm : Yields Ef.Louder m) :
    Yields Volume.Sober (onVolume m) := by
  intro t
  unfold onVolume
  rw [wp_zoom]
  exact wp_conseq (hm t.ef) fun _ _ h => ⟨h, fun _ hc => hc⟩

/-- A routine that leaves the tree alone dirties no node. -/
theorem sober_of_same {m : TreeM Flat α} (hm : Keeps Volume.Same m) : Yields Volume.Sober m := by
  refine hm.yields.mono fun t t' h => ?_
  cases h
  exact refl_of Volume.Sober t

/-- `getNode` is silent only if it dirties no node. -/
theorem sober_getNode (i : NodeId) : Yields Volume.Sober (getNode (δ := Flat) i) :=
  sober_of_same (same_getNode i)

/-- `exfat_error` is silent only if it dirties no node. -/
theorem sober_exfatError (message : String) :
    Yields Volume.Sober (onVolume (exfatError (δ := Flat) message)) :=
  sober_onVolume fun _ => Nat.le_succ _

/-- `exfat_get_name` takes no message back. -/
theorem louder_exfatGetName (n : Node) : Yields Ef.Louder (exfatGetName (δ := Flat) n) :=
  fun ef => wp_mono (heard_exfatGetName n ef) (fun _ _ h => h.le) fun _ _ _ => trivial

/-- `exfat_get_name` is silent only if it dirties no node. -/
theorem sober_getName (n : Node) : Yields Volume.Sober (onVolume (exfatGetName (δ := Flat) n)) :=
  sober_onVolume (louder_exfatGetName n)

/-- `exfat_get_node` is silent only if it dirties no node. -/
theorem sober_exfatGetNode (i : NodeId) : Yields Volume.Sober (exfatGetNode (δ := Flat) i) :=
  sober_updateNode i (fun _ => rfl) fun _ => id

/-- `exfat_put_node` is silent only if it dirties no node. -/
theorem sober_exfatPutNode (i : NodeId) : Yields Volume.Sober (exfatPutNode (δ := Flat) i) := by
  refine yields_bind (sober_updateNode i (fun _ => rfl) fun _ => id) fun _ =>
    yields_bind (sober_getNode i) fun n => ?_
  refine yields_look fun t => yields_ite ?_ (yields_ite ?_ (yields_pure _))
  · exact yields_bind (sober_getName n) fun _ => yields_throw _
  · exact yields_bind (sober_getName n) fun _ => yields_pure _

/-! ### Reading a directory -/

/-- New nodes are put into memory as they were read. -/
theorem clean_newChildren (dir : NodeId) (current : Option NodeId) (ns : List Node)
    (t : Volume Flat) :
    wp (newChildren dir current ns) (fun _ t' => t'.ef = t.ef ∧
      ((∀ n ∈ ns, n.Fresh True) → t.Clean → t'.Clean)) anyStop t := by
  induction ns generalizing current t with
  | nil => exact ⟨rfl, fun _ hc => hc⟩
  | cons n ns ih =>
    -- to link a node changes the pointers of the directory or of the node before it
    have hlink : ∀ (i : NodeId) (t : Volume Flat), wp (linkBehind dir i current)
        (fun _ t' => t'.ef = t.ef ∧ (t.Clean → t'.Clean)) anyStop t := by
      intro i t
      -- behind the first node the directory points to the new one, behind others the node before it
      cases current with
      | none => exact wp_update dir _ fun n hn =>
        ⟨rfl, fun hc => hc.store ((hc _ _ hn).of_same rfl id)⟩
      | some c => exact wp_update c _ fun n hn =>
        ⟨rfl, fun hc => hc.store ((hc _ _ hn).of_same rfl id)⟩
    unfold newChildren
    rw [wp_bind, wp_get, wp_bind, wp_set, wp_bind]
    refine wp_conseq (hlink _ _) ?_
    rintro _ t₁ ⟨hef₁, hc₁⟩
    rw [wp_bind]
    refine wp_conseq (ih _ t₁) ?_
    rintro ids t₂ ⟨hef₂, hc₂⟩
    refine ⟨hef₂.trans hef₁, fun hns hc => hc₂ (fun m hm => hns m (.tail _ hm)) (hc₁ ?_)⟩
    -- the new node
    intro j m hj
    dsimp only at hj
    by_cases hne : j = t.fresh
    · subst hne
      rw [Function.update_self] at hj
      cases hj
      exact (hns n (.head _)).of_same rfl id
    · rw [Function.update_of_ne hne] at hj
      exact hc j m hj

/-- `exfat_cache_directory` is silent only if it dirties no node. -/
theorem sober_exfatCacheDirectory (dir : NodeId) :
    Yields Volume.Sober (exfatCacheDirectory (δ := Flat) dir) := by
  intro t
  unfold exfatCacheDirectory
  rw [wp_bind]
  refine wp_getNode trivial fun d hd => ?_
  split
  · exact refl_of Volume.Sober t
  rw [wp_bind, wp_onNode hd]
  -- what the scan has to say about the nodes, and that the directory keeps its name in it
  have hall := wp_and (heard_cacheLoop (dirFuel d.size) 0 ⟨t.ef, d⟩)
    (loose_cacheLoop (π := Node.kin) (dirFuel d.size) 0 ⟨t.ef, d⟩)
  refine wp_mono hall ?_ fun _ _ _ => trivial
  rintro r s ⟨⟨hheard, hnodes⟩, hsame, -⟩
  have hstored : t.Sober (t.store dir s) := by
    refine ⟨hheard.ef.le, fun he hc => hc.store ?_⟩
    exact (hc dir d hd).of_same (congrArg Kin.name hsame.view) fun hclean =>
      (hheard.isDirty he).trans hclean
  split
  · -- the nodes that were read are attached
    rw [wp_bind]
    refine wp_conseq (clean_newChildren dir none r.1 _) ?_
    rintro ids t₁ ⟨hef, hc₁⟩
    have h₁ : t.Sober t₁ := by
      refine ⟨hef ▸ hstored.le, fun he hc => ?_⟩
      rw [hef] at he
      exact hc₁ (fun n hn => (hnodes n hn).mono fun _ => he) (hstored.clean he hc)
    apply Yields.after (yields_bind (sober_updateNode dir _ _) fun _ => yields_pure _) h₁
    · exact fun _ => rfl
    · exact fun _ => id
  · -- nothing has been attached
    apply Yields.after (yields_bind (sober_updateNode dir _ _) fun _ => yields_pure _) hstored
    · exact fun _ => rfl
    · exact fun _ => id

/-! ### Dropping the tree -/

/-- `tree_detach` is silent only if it dirties no node. -/
theorem sober_treeDetach (i : NodeId) : Yields Volume.Sober (treeDetach (δ := Flat) i) := by
  have hbefore : ∀ (p : NodeId) (next prev : Option NodeId),
      Yields Volume.Sober (bridgeBefore (δ := Flat) p next prev) := by
    intro p next prev
    cases prev with
    | none => exact sober_updateNode p (fun _ => rfl) fun _ => id
    | some q => exact sober_updateNode q (fun _ => rfl) fun _ => id
  have hbehind : ∀ prev next : Option NodeId,
      Yields Volume.Sober (bridgeBehind (δ := Flat) prev next) := by
    intro prev next
    cases next with
    | none => exact yields_pure _
    | some q => exact sober_updateNode q (fun _ => rfl) fun _ => id
  refine yields_bind (sober_getNode i) fun n => ?_
  cases n.parent with
  | none => exact yields_throw _
  | some p =>
    refine yields_bind (hbefore _ _ _) fun _ => yields_bind (hbehind _ _) fun _ => ?_
    refine yields_bind (sober_updateNode p (fun _ => rfl) fun _ => id) fun _ => ?_
    exact sober_updateNode i (fun _ => rfl) fun _ => id

/-- `freeNode` is silent only if it dirties no node. -/
theorem sober_freeNode (i : NodeId) : Yields Volume.Sober (freeNode (δ := Flat) i) := by
  refine fun t => ⟨Nat.le_refl _, fun _ hc j n hj => ?_⟩
  dsimp only at hj
  by_cases hne : j = i
  · subst hne
    rw [Function.update_self] at hj
    cases hj
  · rw [Function.update_of_ne hne] at hj
    exact hc j n hj

/-- `putLoop` is silent only if it dirties no node. -/
theorem sober_putLoop (i : NodeId) (k : Nat) : Yields Volume.Sober (putLoop (δ := Flat) i k) := by
  induction k with
  | zero => exact yields_pure _
  | succ k ih => exact yields_bind (sober_exfatPutNode i) fun _ => ih

/-- `resetNode` is silent only if it dirties no node. -/
theorem sober_resetNode (i : NodeId) : Yields Volume.Sober (resetNode (δ := Flat) i) := by
  refine yields_bind (sober_updateNode i (fun _ => rfl) fun _ => id) fun _ => ?_
  refine yields_bind (sober_getNode i) fun n => yields_look fun t => yields_bind ?_ fun _ => ?_
  · unfold warnReferences
    split
    · exact sober_onVolume (yields_bind (louder_exfatGetName n) fun _ => yields_pure _)
    · exact sober_onVolume (yields_pure _)
  refine yields_ite (yields_bind (sober_getName n) fun _ => yields_throw _) ?_
  exact yields_ite (sober_exfatPutNode i) (sober_putLoop i _)

/-- `reset_cache` is silent only if it dirties no node. -/
theorem sober_resetCache (fuel : Nat) (i : NodeId) :
    Yields Volume.Sober (resetCache (δ := Flat) fuel i) := by
  induction fuel generalizing i with
  | zero => exact yields_throw _
  | succ fuel ih =>
    refine yields_bind (sober_getNode i) fun n => ?_
    cases n.first with
    | none => exact sober_resetNode i
    | some p =>
      refine yields_bind (ih p) fun _ => yields_bind (sober_treeDetach p) fun _ => ?_
      exact yields_bind (sober_freeNode p) fun _ => ih i

/-- `exfat_reset_cache` is silent only if it dirties no node. -/
theorem sober_exfatResetCache : Yields Volume.Sober (exfatResetCache (δ := Flat)) :=
  yields_look fun _ => sober_resetCache _ _

/-- `exfat_free` is silent only if it dirties no node. -/
theorem sober_exfatFree : Yields Volume.Sober (exfatFree (δ := Flat)) := by
  refine fun t => ⟨Nat.le_refl _, fun _ _ j n hj => ?_⟩
  cases hj

/-! ### Mounting -/

/-- `exfat_error` takes no message back. -/
theorem louder_exfatError (message : String) : Yields Ef.Louder (exfatError (δ := Flat) message) :=
  fun _ => Nat.le_succ _

/-- A report is a message. -/
theorem louder_report (message : String) (a : α) :
    Yields Ef.Louder (do exfatError (δ := Flat) message; pure a) :=
  fun _ => Nat.le_succ _

/-- `mallocOk` takes no message back. -/
theorem louder_mallocOk : Yields Ef.Louder (mallocOk (δ := Flat)) := fun _ => Nat.le_refl _

/-- `exfat_pread` takes no message back. -/
theorem louder_exfatPread (size offset : Nat) :
    Yields Ef.Louder (exfatPread (δ := Flat) size offset) := fun _ =>
  Nat.le_refl _

/-- `exfat_pwrite` takes no message back. -/
theorem louder_exfatPwrite (data : List UInt8) (offset : Nat) :
    Yields Ef.Louder (exfatPwrite (δ := Flat) data offset) :=
  fun _ => Nat.le_refl _

/-- A change that leaves the messages alone. -/
theorem louder_modify {f : Ef Flat → Ef Flat} (h : ∀ ef, (f ef).errors = ef.errors) :
    Yields Ef.Louder (modify f : EfM Flat PUnit) := fun ef => (h ef).ge

/-- `readVbrSectors` takes no message back. -/
theorem louder_readVbrSectors (sectorSize n i : Nat) :
    Yields Ef.Louder (readVbrSectors (δ := Flat) sectorSize n i) := by
  induction n generalizing i with
  | zero => exact yields_pure _
  | succ n ih =>
    refine yields_bind (louder_exfatPread _ _) fun r => ?_
    cases r with
    | none => exact louder_report _ _
    | some sector =>
      refine yields_bind (ih _) fun r => ?_
      cases r with
      | none => exact yields_pure _
      | some sectors => exact yields_pure _

/-- `readVbr` takes no message back. -/
theorem louder_readVbr : Yields Ef.Louder (readVbr (δ := Flat)) := by
  refine yields_look fun ef => yields_ite (yields_bind (louder_exfatPread _ _) fun r => ?_)
    (louder_readVbrSectors _ _ _)
  cases r with
  | none => exact louder_report _ _
  | some bytes => exact yields_pure _

/-- `verifyWords` takes no message back. -/
theorem louder_verifyWords (checksum : Nat) (ws : List Nat) :
    Yields Ef.Louder (verifyWords (δ := Flat) checksum ws) := by
  induction ws with
  | nil => exact yields_pure _
  | cons w ws ih =>
    unfold verifyWords
    split
    on_goal 2 => exact ih
    refine yields_bind (louder_exfatError _) fun _ => ?_
    refine yields_bind louder_exfatAskToFix.yields fun fix => yields_ite (yields_look fun ef => ?_)
      (yields_pure _)
    refine yields_bind (louder_exfatPwrite _ _) fun r => ?_
    cases r with
    | none => exact louder_report _ _
    | some _ => exact yields_bind (louder_modify fun _ => rfl) fun _ => yields_pure _

/-- `mountSuperBlock` takes no message back. -/
theorem louder_mountSuperBlock : Yields Ef.Louder (mountSuperBlock (δ := Flat)) := by
  unfold mountSuperBlock
  apply yields_bind louder_mallocOk
  intro ok
  split
  · exact louder_report _ _
  generalize 512 = size
  refine yields_bind (louder_exfatPread _ _) fun r => ?_
  cases r with
  | none => exact louder_report _ _
  | some bytes =>
    refine yields_bind (louder_modify fun _ => rfl) fun _ => yields_look fun ef => ?_
    cases ef.sb.formatError with
    | some message => exact louder_report _ _
    | none =>
      refine yields_bind louder_mallocOk fun ok => yields_ite (louder_report _ _) ?_
      have hverify : Yields Ef.Louder (verifyVbrChecksum (δ := Flat)) := by
        refine yields_look fun ef => yields_bind louder_readVbr fun r => ?_
        cases r with
        | none => exact yields_pure _
        | some sectors => exact louder_verifyWords _ _
      refine yields_bind hverify fun ok => yields_ite (yields_pure _) ?_
      cases ef.sb.volumeError (Device.getSize ef.dev) with
      | some message => exact louder_report _ _
      | none => exact yields_bind louder_mallocOk fun ok =>
        yields_ite (louder_report _ _) (yields_pure _)

/-- `exfat_next_cluster` has something to say before it writes. -/
theorem heard_exfatNextCluster (cluster : Nat) :
    Keeps FileState.Heard (exfatNextCluster (δ := Flat) cluster) := by
  refine keeps_look fun s => keeps_ite (keeps_throw _) (keeps_ite (keeps_pure _) ?_)
  refine keeps_bind (heard_onEf (heard_exfatPread _ _)) fun next => ?_
  cases next with
  | none => exact keeps_pure _
  | some bytes => exact keeps_pure _

/-- `rootdirLoop` has something to say before it writes. -/
theorem heard_rootdirLoop (fuel clusters cluster : Nat) :
    Keeps FileState.Heard (rootdirLoop (δ := Flat) fuel clusters cluster) := by
  induction fuel generalizing clusters cluster with
  | zero => exact keeps_throw _
  | succ fuel ih =>
    refine keeps_look fun s => keeps_ite (heard_told _ (keeps_pure _)) ?_
    refine keeps_ite (heard_told _ (keeps_pure _)) ?_
    exact keeps_bind (heard_exfatNextCluster _) fun next => keeps_ite (ih _ _) (keeps_pure _)

/-- `abandonMount` is silent only if it dirties no node. -/
theorem sober_abandonMount (root : NodeId) : Yields Volume.Sober (abandonMount (δ := Flat) root) :=
  yields_bind (sober_exfatPutNode root) fun _ => yields_bind sober_exfatResetCache fun _ =>
    yields_bind sober_exfatFree fun _ => yields_pure _

/-- `mountRoot` is silent only if it dirties no node. -/
theorem sober_mountRoot : Yields Volume.Sober (mountRoot (δ := Flat)) := by
  intro t
  unfold mountRoot
  rw [wp_bind, wp_get]
  dsimp only
  rw [wp_bind, wp_set]
  -- the node of the root directory has no name
  have hroot : t.Sober { t with
      heap := Function.update t.heap t.fresh
        (some { attrib := attribDir, startCluster := t.ef.sb.rootdirCluster
                fptrCluster := t.ef.sb.rootdirCluster })
      root := t.fresh
      fresh := t.fresh + 1 } := by
    refine ⟨Nat.le_refl _, fun _ hc j n hj => ?_⟩
    -- the node of the root, or one of those before
    dsimp only at hj
    by_cases hne : j = t.fresh
    · subst hne
      rw [Function.update_self] at hj
      cases hj
      exact ⟨by simp, by simp, fun _ => rfl⟩
    · rw [Function.update_of_ne hne] at hj
      exact hc j n hj
  refine Yields.after ?_ hroot
  -- the size of the root directory is counted, which leaves its name alone
  have hsize : ∀ s : FileState Flat, wp rootdirSize
      (fun _ s' => s.Heard s' ∧ s'.node.name = s.node.name) anyStop s := by
    intro s
    have hheard : Keeps FileState.Heard (rootdirSize (δ := Flat)) :=
      keeps_look fun s => heard_rootdirLoop _ _ _
    have hsame : Keeps (FileState.SameBy Node.kin) (rootdirSize (δ := Flat)) :=
      keeps_look fun s => links_rootdirLoop _ _ _
    refine wp_mono (wp_and (hheard s) (hsame s)) ?_ fun _ _ _ => trivial
    exact fun _ _ h => ⟨h.1, congrArg Kin.name h.2.view⟩
  refine yields_bind (sober_onNode _ hsize) fun size => ?_
  refine yields_bind (sober_updateNode _ (fun _ => rfl) fun _ => id) fun _ => yields_ite ?_ ?_
  · exact yields_bind sober_exfatFree fun _ => yields_pure _
  refine yields_bind (sober_exfatGetNode _) fun _ =>
    yields_bind (sober_exfatCacheDirectory _) fun rc => ?_
  -- the reading of the root has failed, or it has found the table and the bitmap
  cases rc with
  | error e => exact sober_abandonMount _
  | ok _ =>
    refine yields_look fun t => yields_ite ?_ (yields_ite ?_ (yields_pure _))
    · exact yields_bind (sober_exfatError _) fun _ => sober_abandonMount _
    · exact yields_bind (sober_exfatError _) fun _ => sober_abandonMount _

/-- Unless something is said, the nodes that a mount makes are clean. -/
theorem sober_exfatMount : Yields Volume.Sober (exfatMount (δ := Flat)) := by
  refine yields_bind (sober_onVolume louder_mountSuperBlock) fun rc => ?_
  cases rc with
  | error e => exact yields_bind sober_exfatFree fun _ => yields_pure _
  | ok _ => exact sober_mountRoot

/-! ### Looking paths up -/

/-- What a lookup is made of keeps a relation of volumes. -/
structure Volume.Looks (R : Volume Flat → Volume Flat → Prop) : Prop where
  get : ∀ i, Yields R (exfatGetNode (δ := Flat) i)
  put : ∀ i, Yields R (exfatPutNode (δ := Flat) i)
  node : ∀ i, Yields R (getNode (δ := Flat) i)
  cache : ∀ dir, Yields R (exfatCacheDirectory (δ := Flat) dir)

namespace Volume.Looks

variable {R : Volume Flat → Volume Flat → Prop} [IsPreorder (Volume Flat) R]

/-- `exfat_opendir` only looks. -/
theorem exfatOpendir (h : Looks R) (dir : NodeId) :
    Yields R (ExFat.exfatOpendir (δ := Flat) dir) := by
  refine yields_bind (h.get dir) fun _ => yields_bind (h.cache dir) fun r => ?_
  cases r with
  | error e => exact yields_bind (h.put dir) fun _ => yields_pure _
  | ok _ => exact yields_pure _

/-- The loop of `lookup_name` only looks. -/
theorem lookupLoop (h : Looks R) (name : List Nat) (is : List NodeId) :
    Yields R (ExFat.lookupLoop (δ := Flat) name is) := by
  induction is with
  | nil => exact yields_pure _
  | cons i is ih =>
    refine yields_bind (h.get i) fun _ => yields_bind (h.node i) fun n => yields_look fun t => ?_
    cases t.ef.upcase with
    | none => exact yields_throw _
    | some upcase => exact yields_ite (yields_pure _) (yields_bind (h.put i) fun _ => ih)

/-- `lookup_name` only looks. -/
theorem lookupName (h : Looks R) (parent : NodeId) (name : List UInt8) :
    Yields R (ExFat.lookupName (δ := Flat) parent name) := by
  unfold ExFat.lookupName
  cases exfatUtf8ToUtf16 name (nameMax + 1) with
  | error e => exact yields_pure _
  | ok buffer =>
    refine yields_bind (h.exfatOpendir parent) fun r => ?_
    cases r with
    | error e => exact yields_pure _
    | ok _ =>
      refine yields_bind (h.node parent) fun p => yields_bind (h.lookupLoop _ _) fun found => ?_
      cases found with
      | some i => exact yields_bind (h.put parent) fun _ => yields_pure _
      | none => exact yields_bind (h.put parent) fun _ => yields_pure _

/-- The loop of `exfat_lookup` only looks. -/
theorem lookupPath (h : Looks R) (fuel : Nat) (parent : NodeId) (path : List UInt8) :
    Yields R (ExFat.lookupPath (δ := Flat) fuel parent path) := by
  induction fuel generalizing parent path with
  | zero => exact yields_pure _
  | succ fuel ih =>
    unfold ExFat.lookupPath
    dsimp only
    refine yields_ite (yields_pure _) (yields_ite (ih parent _) ?_)
    refine yields_bind (h.lookupName parent _) fun r => ?_
    cases r with
    | error e => exact yields_bind (h.put parent) fun _ => yields_pure _
    | ok node => exact yields_bind (h.put parent) fun _ => ih node _

/-- `exfat_lookup` only looks. -/
theorem exfatLookup (h : Looks R) (path : List UInt8) :
    Yields R (ExFat.exfatLookup (δ := Flat) path) :=
  yields_look fun t => yields_bind (h.get t.root) fun _ => h.lookupPath _ _ _

end Volume.Looks

/-- Looking dirties no node without a message. -/
theorem sober_looks : Volume.Looks Volume.Sober where
  get := sober_exfatGetNode
  put := sober_exfatPutNode
  node := sober_getNode
  cache := sober_exfatCacheDirectory

/-! ### Writing back -/

/-- No message has been taken back. -/
def Volume.Louder (t t' : Volume Flat) : Prop := t.ef.errors ≤ t'.ef.errors

instance : IsPreorder (Volume Flat) Volume.Louder where
  refl _ := Nat.le_refl _
  trans _ _ _ := Nat.le_trans

/-- A routine that dirties no node without a message takes none back. -/
theorem Volume.Sober.louder {m : TreeM Flat α} (hm : Yields Volume.Sober m) :
    Yields Volume.Louder m :=
  hm.mono fun _ _ h => h.le

/-- A routine on the volume takes no message back. -/
theorem louder_onVolume {m : EfM Flat α} (hm : Yields Ef.Louder m) :
    Yields Volume.Louder (onVolume m) :=
  (sober_onVolume hm).mono fun _ _ h => h.le

/-- A routine on a node takes no message back. -/
theorem louder_onNode (i : NodeId) {m : FileM Flat α} (hm : Yields FileState.Louder m) :
    Yields Volume.Louder (onNode i m) := by
  intro t
  cases hi : t.heap i with
  | none =>
    unfold wp onNode
    rw [hi]
    exact trivial
  | some n =>
    rw [wp_onNode hi]
    exact hm _

/-- `exfat_c2o` takes no message back. -/
theorem louder_exfatC2o (cluster : Nat) : Yields Ef.Louder (exfatC2o (δ := Flat) cluster) :=
  fun ef => wp_mono (heard_exfatC2o cluster ef) (fun _ _ h => h.le) fun _ _ _ => trivial

/-- `exfat_flush` takes no message back. -/
theorem louder_exfatFlush : Yields Ef.Louder (exfatFlush (δ := Flat)) := by
  refine yields_look fun ef => yields_ite ?_ (yields_pure _)
  refine yields_bind (louder_exfatC2o _) fun offset => ?_
  refine yields_bind (louder_exfatPwrite _ _) fun r => ?_
  cases r with
  | none => exact louder_report _ _
  | some _ => exact yields_bind (louder_modify fun _ => rfl) fun _ => yields_pure _

/-- `write_entries` takes no message back. -/
theorem louder_writeEntries (entries : List Entry) (offset : Int) :
    Keeps FileState.Louder (writeEntries (δ := Flat) entries offset) := by
  refine keeps_look fun s => keeps_ite (keeps_throw _)
    (keeps_bind (keeps_exfatGenericPwrite _ _) fun r => ?_)
  cases r with
  | error e => exact keeps_pure _
  | ok size => exact keeps_ite (keeps_pure _) fun _ => Nat.le_succ _

/-- `rewriteEntries` takes no message back. -/
theorem louder_rewriteEntries (dir : NodeId) (n : Node) :
    Yields Volume.Louder (rewriteEntries (δ := Flat) dir n) := by
  refine yields_bind (louder_onNode dir (louder_of_heard (heard_readEntries _ _))) fun r => ?_
  cases r with
  | error e => exact yields_pure _
  | ok entries =>
    refine yields_bind (louder_onVolume fun ef => ?_) fun ok => yields_ite (yields_pure _) ?_
    · exact wp_mono (heard_checkEntries entries ef) (fun _ _ h => h.le) fun _ _ _ => trivial
    · exact yields_look fun t => louder_onNode dir (louder_writeEntries _ _).yields

/-- `exfat_flush_node` takes no message back. -/
theorem louder_exfatFlushNode (i : NodeId) :
    Yields Volume.Louder (exfatFlushNode (δ := Flat) i) := by
  refine yields_bind (Volume.Sober.louder (sober_getNode i)) fun n => yields_look fun t => ?_
  refine yields_ite (yields_pure _) (yields_ite (yields_throw _) ?_)
  cases n.parent with
  | none => exact yields_pure _
  | some dir =>
    refine yields_bind (louder_rewriteEntries dir n) fun r => ?_
    cases r with
    | error e => exact yields_pure _
    | ok _ =>
      refine yields_bind (Volume.Sober.louder (sober_updateNode i (fun _ => rfl) ?_)) fun _ => ?_
      · exact fun _ _ => rfl
      · exact louder_onVolume louder_exfatFlush

/-- A node is written back only if there is something to be written. -/
theorem sober_exfatFlushNode (i : NodeId) : Yields Volume.Sober (exfatFlushNode (δ := Flat) i) := by
  intro t
  cases hi : t.heap i with
  | none =>
    unfold exfatFlushNode
    rw [wp_bind]
    refine wp_getNode trivial fun n hn => ?_
    cases hi.symm.trans hn
  | some n =>
    by_cases hdirty : n.isDirty = true
    · -- the volume was not clean
      refine wp_conseq (louder_exfatFlushNode i t) fun _ t' h => ⟨h, fun _ hc => ?_⟩
      cases ((hc i _ hi).clean trivial).symm.trans hdirty
    · exact wp_of_ok (exfatFlushNode_clean hi (Bool.eq_false_iff.2 hdirty)) (refl_of Volume.Sober t)

/-- A loop over nodes whose steps dirty no node without a message. -/
theorem sober_untilError {f : NodeId → TreeM Flat Rc} (hf : ∀ i, Yields Volume.Sober (f i))
    (is : List NodeId) : Yields Volume.Sober (untilError f is) := by
  induction is with
  | nil => exact yields_pure _
  | cons i is ih =>
    refine yields_bind (hf i) fun r => ?_
    cases r with
    | error e => exact yields_pure _
    | ok _ => exact ih

/-- `flush_nodes` is silent only if it dirties no node. -/
theorem sober_flushNodes (fuel : Nat) (i : NodeId) :
    Yields Volume.Sober (flushNodes (δ := Flat) fuel i) := by
  induction fuel generalizing i with
  | zero => exact yields_throw _
  | succ fuel ih =>
    refine yields_bind (sober_getNode i) fun n => ?_
    refine yields_bind (sober_untilError ih n.child) fun r => ?_
    cases r with
    | error e => exact yields_pure _
    | ok _ => exact sober_exfatFlushNode i

/-- `commit_super_block` takes no message back. -/
theorem louder_commitSuperBlock : Yields Ef.Louder (commitSuperBlock (δ := Flat)) := by
  refine yields_look fun ef => yields_bind (louder_exfatPwrite _ _) fun r => ?_
  cases r with
  | none => exact louder_report _ _
  | some _ => exact fun _ => Nat.le_refl _

/-- `exfat_soil_super_block` takes no message back. -/
theorem louder_exfatSoilSuperBlock : Yields Ef.Louder (exfatSoilSuperBlock (δ := Flat)) := by
  intro ef
  unfold exfatSoilSuperBlock
  rw [wp_bind, wp_get]
  split
  · exact refl_of Ef.Louder ef
  · rw [wp_bind, wp_set]
    exact wp_conseq (louder_commitSuperBlock _) fun _ _ h => h

/-- `finalize_super_block` takes no message back. -/
theorem louder_finalizeSuperBlock : Yields Ef.Louder (finalizeSuperBlock (δ := Flat)) := by
  intro ef
  unfold finalizeSuperBlock
  rw [wp_bind, wp_get]
  split
  · exact refl_of Ef.Louder ef
  · rw [wp_bind, wp_set, wp_bind]
    exact wp_conseq (louder_commitSuperBlock _) fun _ _ h => h

/-- `exfat_unmount` is silent only if it dirties no node. -/
theorem sober_exfatUnmount : Yields Volume.Sober (exfatUnmount (δ := Flat)) := by
  refine yields_bind (yields_look fun t => sober_flushNodes _ _) fun _ => ?_
  refine yields_bind (sober_onVolume louder_exfatFlush) fun _ => yields_look fun t => ?_
  refine yields_bind (sober_exfatPutNode _) fun _ => yields_bind sober_exfatResetCache fun _ => ?_
  exact yields_bind (sober_onVolume louder_finalizeSuperBlock) fun _ => sober_exfatFree

end Sober

/-! ### What a walk leaves alone -/

/-- The same volume: time has passed, and something may have been repaired. -/
def Ef.Still (ef ef' : Ef Flat) : Prop :=
  ef' = { ef with ticks := ef'.ticks, errorsFixed := ef'.errorsFixed }

instance : IsPreorder (Ef Flat) Ef.Still where
  refl _ := rfl
  trans _ _ _ h h' := by
    unfold Ef.Still at *
    rw [h', h]

/-- A volume that was only read without a message is still. -/
theorem Ef.Skimmed.still {ef ef' : Ef Flat} (h : ef.Skimmed ef') (hdev : ef'.dev = ef.dev)
    (he : ef'.errors = ef.errors) : ef.Still ef' := by
  unfold Ef.Skimmed at h
  unfold Ef.Still
  rw [h]
  simp only [hdev, he]

/-- Where the contents of a node are. -/
def Node.extent (n : Node) : Nat × Nat × Bool := (n.startCluster, n.size, n.isContiguous)

/-- The volume after a walk that has said nothing. -/
structure Volume.Browsed (t t' : Volume Flat) : Prop where
  read : t.Read t'
  ef : t.ef.Still t'.ef
  extent : ∀ {i n}, t.heap i = some n → ∃ n', t'.heap i = some n' ∧ n'.extent = n.extent

/-- A volume may be browsed twice. -/
theorem Volume.Browsed.trans {t t₁ t₂ : Volume Flat} (ht : t.Linked) (h₁ : t.Browsed t₁)
    (h₂ : t₁.Browsed t₂) : t.Browsed t₂ := by
  refine ⟨TreeRel.trans ht h₁.read h₂.read, trans_of Ef.Still h₁.ef h₂.ef, fun hi => ?_⟩
  obtain ⟨n₁, hi₁, hext₁⟩ := h₁.extent hi
  obtain ⟨n₂, hi₂, hext₂⟩ := h₂.extent hi₁
  exact ⟨n₂, hi₂, hext₂.trans hext₁⟩

/-- What happens in a walk that says nothing: time passes, references are taken and dropped, and
directories are read. -/
inductive Volume.QuietStep : Volume Flat → Volume Flat → Prop
  | tick (t : Volume Flat) (ticks : Nat) : QuietStep t { t with ef := { t.ef with ticks := ticks } }
  | get {t t' : Volume Flat} {i : NodeId} (h : exfatGetNode i t = .ok ⟨⟩ t') : QuietStep t t'
  | put {t t' : Volume Flat} {i : NodeId} (h : exfatPutNode i t = .ok ⟨⟩ t') : QuietStep t t'
  | read {t t' : Volume Flat} {dir : NodeId} (h : exfatCacheDirectory dir t = .ok (.ok ()) t')
    (he : t'.ef.errors = t.ef.errors) : QuietStep t t'

/-- No directory that a walk may read holds the entry of a bitmap or of a label. -/
def Volume.Plain (t : Volume Flat) : Prop :=
  ∀ t₁ dir d e, Relation.ReflTransGen Volume.QuietStep t t₁ → t₁.heap dir = some d →
    d.isCached = false →
    Meets ⟨t₁.ef, d⟩ 0 e → ¬ e.isSpecial

/-- A mounted volume with the upcase table `u` on which nothing has been changed. -/
structure Volume.Steady (u : Nat → Nat) (t : Volume Flat) : Prop where
  linked : t.Linked
  plain : t.Plain
  upcase : t.ef.upcase = some u
  clean : t.Clean
  within : t.Within

/-- The volume after a part of a walk: unless something has been said, it is as it was. -/
structure Volume.Hushed (u : Nat → Nat) (t t' : Volume Flat) : Prop where
  le : t.ef.errors ≤ t'.ef.errors
  quiet : t'.ef.errors = t.ef.errors → t.Steady u → t'.Steady u ∧ t.Browsed t'

section Hushed

variable {α : Type} {u : Nat → Nat} {t t' : Volume Flat} {i : NodeId} {n : Node}

/-- Nothing has been browsed. -/
theorem Volume.Browsed.refl (t : Volume Flat) : t.Browsed t :=
  ⟨TreeRel.refl t, refl_of Ef.Still t.ef, fun hi => ⟨_, hi, rfl⟩⟩

instance : IsPreorder (Volume Flat) (Volume.Hushed u) where
  refl t := ⟨Nat.le_refl _, fun _ ht => ⟨ht, .refl t⟩⟩
  trans t t₁ t₂ h h' := by
    have hle := h.le
    have hle' := h'.le
    -- if the number is the same at the end, it was so in between
    refine ⟨Nat.le_trans hle hle', fun he ht => ?_⟩
    obtain ⟨ht₁, h₁⟩ := h.quiet (by omega) ht
    obtain ⟨ht₂, h₂⟩ := h'.quiet (by omega) ht₁
    exact ⟨ht₂, h₁.trans ht.linked h₂⟩

/-- A still volume has said nothing. -/
theorem Ef.Still.errors {ef ef' : Ef Flat} (h : ef.Still ef') : ef'.errors = ef.errors := by
  unfold Ef.Still at h
  rw [h]

/-- A still volume has the upcase table it had. -/
theorem Ef.Still.upcase {ef ef' : Ef Flat} (h : ef.Still ef') : ef'.upcase = ef.upcase := by
  unfold Ef.Still at h
  rw [h]

/-- A still volume has the superblock it had. -/
theorem Ef.Still.sb {ef ef' : Ef Flat} (h : ef.Still ef') : ef'.sb = ef.sb := by
  unfold Ef.Still at h
  rw [h]

/-- A plain volume stays plain. -/
theorem Volume.Plain.step (h : t.Plain) (hstep : t.QuietStep t') : t'.Plain :=
  fun t₁ dir d e hreach => h t₁ dir d e (.head hstep hreach)

/-- References have no part in the sizes. -/
theorem Volume.SameBy.bounds (hbare : t.SameBare t') (hsb : t'.ef.sb = t.ef.sb) : t.Bounds t' := by
  refine ⟨hsb, fun ht i n hi => ?_⟩
  obtain ⟨m, hm, hsame⟩ := hbare.node hi
  have hsize : n.bare.size = m.bare.size := by rw [hsame]
  have hwithin := ht i m hm
  unfold Node.Within at *
  rw [hsb]
  exact hsize.trans_le hwithin

/-- References are counted and time passes. -/
theorem Volume.Hushed.of_bare (hbare : t.SameBare t') (hef : t.ef.Still t'.ef)
    (hstep : t.QuietStep t') : t.Hushed u t' := by
  refine ⟨hef.errors.ge, fun _ ht => ⟨⟨hbare.sameKin.linked ht.linked, ht.plain.step hstep,
    hef.upcase.trans ht.upcase, fun i n hi => ?_, (hbare.bounds hef.sb).within ht.within⟩,
    TreeRel.kin hbare.sameKin, hef, fun {i n} hi => ?_⟩⟩
  · obtain ⟨m, hm, hsame⟩ := hbare.node hi
    have hname : n.bare.name = m.bare.name := by rw [hsame]
    have hdirty : n.bare.isDirty = m.bare.isDirty := by rw [hsame]
    exact (ht.clean i m hm).of_same hname hdirty.trans
  · obtain ⟨m, hm, hsame⟩ := hbare.alive hi
    have hextent : m.bare.extent = n.bare.extent := by rw [hsame]
    exact ⟨m, hm, hextent⟩

/-- A routine that leaves the nodes bare and the volume alone changes nothing unheard. -/
theorem hushed_of_bare {m : TreeM Flat α} (hbare : Keeps Volume.SameBare m)
    (hef : Keeps Volume.SameEf m) (hstep : ∀ t a t', m t = .ok a t' → t.QuietStep t') :
    Yields (Volume.Hushed u) m := by
  intro t
  refine wp_mono (wp_run (wp_and (hbare t) (hef t))) ?_ fun _ _ _ => trivial
  rintro a t' ⟨hrun, hbare, hsame⟩
  have hstill : t.ef.Still t'.ef := by
    rw [hsame]
    exact refl_of Ef.Still t.ef
  exact .of_bare hbare hstill (hstep t a t' hrun)

/-- A routine that leaves the tree alone changes nothing unheard. -/
theorem hushed_of_same {m : TreeM Flat α} (hm : Keeps Volume.Same m) :
    Yields (Volume.Hushed u) m := by
  refine hm.yields.mono fun t t' h => ?_
  cases h
  exact refl_of (Volume.Hushed u) t

/-- `getNode` changes nothing unheard. -/
theorem hushed_getNode (i : NodeId) : Yields (Volume.Hushed u) (getNode (δ := Flat) i) :=
  hushed_of_same (same_getNode i)

/-- `exfat_get_node` changes nothing unheard. -/
theorem hushed_exfatGetNode (i : NodeId) : Yields (Volume.Hushed u) (exfatGetNode (δ := Flat) i) :=
  hushed_of_bare (links_updateNode i fun _ => rfl) (sameEf_updateNode i _) fun _ _ _ h => .get h

/-- `exfat_put_node` changes references only. -/
theorem bare_exfatPutNode (i : NodeId) : Keeps Volume.SameBare (exfatPutNode (δ := Flat) i) := by
  refine keeps_bind (links_updateNode i fun _ => rfl) fun _ =>
    keeps_bind (links_getNode i) fun n => ?_
  refine keeps_look fun t => keeps_ite ?_ (keeps_ite ?_ (keeps_pure _))
  · exact keeps_bind (links_onVolume _) fun _ => keeps_throw _
  · exact keeps_bind (links_onVolume _) fun _ => keeps_pure _

/-- `exfat_put_node` changes nothing unheard. -/
theorem hushed_exfatPutNode (i : NodeId) : Yields (Volume.Hushed u) (exfatPutNode (δ := Flat) i) :=
  hushed_of_bare (bare_exfatPutNode i) (sameEf_exfatPutNode i) fun _ _ _ h => .put h

/-- `exfat_get_name` changes nothing unheard. -/
theorem hushed_getName (n : Node) :
    Yields (Volume.Hushed u) (onVolume (exfatGetName (δ := Flat) n)) := by
  refine hushed_of_same (same_onVolume fun ef => ?_)
  unfold exfatGetName
  cases nameUtf8 n.name with
  | ok name => exact .inl ⟨name, rfl⟩
  | error e => exact .inr ⟨_, rfl⟩

/-- `mallocOk` changes nothing unheard. -/
theorem hushed_mallocOk : Yields (Volume.Hushed u) (onVolume (mallocOk (δ := Flat))) := fun t =>
  Volume.Hushed.of_bare ⟨rfl, rfl, rfl, fun _ h => h⟩ rfl (.tick t (t.ef.ticks + 1))

/-- After a message nothing is promised. -/
theorem hushed_exfatError (message : String) :
    Yields (Volume.Hushed u) (onVolume (exfatError (δ := Flat) message)) :=
  fun _ => ⟨Nat.le_succ _, fun he => absurd he (Nat.succ_ne_self _)⟩

/-! ### Reading directories -/

/-- A directory is read without a message only to its end, and only the directory changes. -/
theorem wp_cacheQuiet {dir : NodeId} (ht : t.Steady u) :
    wp (exfatCacheDirectory dir) (fun r t' => t'.ef.errors = t.ef.errors →
      r = .ok () ∧ t.ef.Still t'.ef ∧
      ∀ i n, t.heap i = some n → ∃ n', t'.heap i = some n' ∧ n'.extent = n.extent) anyStop t := by
  unfold exfatCacheDirectory
  rw [wp_bind]
  refine wp_getNode trivial fun d hd => ?_
  -- the directory has been read before
  split
  · exact fun _ => ⟨rfl, refl_of Ef.Still t.ef, fun i n hi => ⟨n, hi, rfl⟩⟩
  next hcached =>
  have hup : t.ef.upcase.isSome = true := by rw [ht.upcase, Option.isSome_some]
  have hplain : ∀ e, Meets ⟨t.ef, d⟩ 0 e → ¬ e.isSpecial := fun e =>
    ht.plain t dir d e .refl hd (Bool.eq_false_iff.2 hcached)
  rw [wp_bind, wp_onNode hd]
  -- no table and no bitmap is loaded, a scan that stops early is told of, and without a message no
  -- node is dirty
  have hall := wp_and (skims_cacheLoop (s := ⟨t.ef, d⟩) (dirFuel d.size) 0 hup hplain)
    (wp_and (told_cacheLoop (s := ⟨t.ef, d⟩) (dirFuel d.size) 0 hup hplain)
      (heard_cacheLoop (dirFuel d.size) 0 ⟨t.ef, d⟩))
  refine wp_mono hall ?_ fun _ _ _ => trivial
  rintro r s ⟨hskim, htold, hheard, -⟩
  have hlt : dir < t.fresh := ht.linked.lt (Volume.kin_of_heap hd)
  have hstored : (t.store dir s).heap dir = some s.node := store_heap_self t dir s
  split
  next hend =>
    rw [wp_bind]
    refine wp_conseq (wp_newChildren r.1 hstored hlt fun _ hc => by cases hc) ?_
    rintro ids t₁ ⟨-, h₁⟩
    rw [wp_bind]
    refine wp_update dir _ fun m hm => ?_
    rw [wp_pure]
    intro he
    have hef : t₁.ef = s.ef := h₁.ef
    dsimp only [Volume.store] at he ⊢
    rw [hef] at he ⊢
    refine ⟨rfl, hskim.ef.still (hheard.ef.dev he) he, fun i n hi => ?_⟩
    by_cases hne : i = dir
    · -- the directory has new links and is marked as read
      subst hne
      cases hd.symm.trans hi
      cases h₁.directory.symm.trans hm
      refine ⟨_, Function.update_self .., ?_⟩
      show s.node.extent = d.extent
      rw [hskim.node]
      rfl
    · -- new nodes have new numbers
      have hold : t₁.heap i = (t.store dir s).heap i :=
        h₁.others i hne (Option.some_ne_none i).symm (.inl (ht.linked.lt (Volume.kin_of_heap hi)))
      refine ⟨n, ?_, rfl⟩
      rw [Function.update_of_ne hne, hold, store_heap_of_ne _ hne, hi]
  next hend =>
    -- the scan has been given up, and there was a message about it
    rw [wp_bind]
    refine wp_update dir _ fun m hm => ?_
    rw [wp_pure]
    intro he
    exact absurd he (Nat.ne_of_gt (htold hend))

/-- `exfat_cache_directory` changes nothing unheard. -/
theorem hushed_exfatCacheDirectory (dir : NodeId) :
    Yields (Volume.Hushed u) (exfatCacheDirectory (δ := Flat) dir) := by
  intro t
  refine wp_conseq (wp_run (sober_exfatCacheDirectory dir t)) ?_
  rintro r t' ⟨hrun, hsober⟩
  refine ⟨hsober.le, fun he ht => ?_⟩
  have hcached := wp_anyStop_iff.1 (wp_exfatCacheDirectory ht.linked) _ _ hrun
  obtain ⟨rfl, hef, hextent⟩ := wp_anyStop_iff.1 (wp_cacheQuiet ht) _ _ hrun he
  have hbounds := (bounds_exfatCacheDirectory dir).ok hrun
  have hsteady : t'.Steady u :=
    ⟨hcached.linked, ht.plain.step (.read hrun he), hef.upcase.trans ht.upcase,
    hsober.clean he ht.clean, hbounds.within ht.within⟩
  exact ⟨hsteady, hcached.read, hef, fun hi => hextent _ _ hi⟩

/-- Looking changes nothing unheard. -/
theorem hushed_looks : Volume.Looks (Volume.Hushed u) where
  get := hushed_exfatGetNode
  put := hushed_exfatPutNode
  node := hushed_getNode
  cache := hushed_exfatCacheDirectory

/-- Whatever a lookup says, it makes no node that is larger than the heap. -/
theorem bounds_looks : Volume.Looks Volume.Bounds where
  get i := bounds_updateNode i fun _ => rfl
  put i := by
    intro t
    refine wp_mono (wp_and (bare_exfatPutNode i t) (sameEf_exfatPutNode i t)) ?_ fun _ _ _ =>
      trivial
    rintro _ t' ⟨hbare, hef⟩
    exact hbare.bounds (by rw [hef])
  node i := by
    refine (same_getNode i).yields.mono fun t t' h => ?_
    cases h
    exact refl_of Volume.Bounds t
  cache := bounds_exfatCacheDirectory

/-- On a clean volume nothing is written back. -/
theorem hushed_exfatFlushNode (i : NodeId) :
    Yields (Volume.Hushed u) (exfatFlushNode (δ := Flat) i) := by
  intro t
  refine wp_conseq (wp_run (louder_exfatFlushNode i t)) ?_
  rintro r t' ⟨hrun, hle⟩
  refine ⟨hle, fun _ ht => ?_⟩
  obtain ⟨n, hi⟩ : ∃ n, t.heap i = some n := by
    unfold exfatFlushNode at hrun
    obtain ⟨n, _, hget, -⟩ := run_bind_eq_ok.1 hrun
    exact ⟨n, (run_getNode_eq_ok hget).1⟩
  rw [exfatFlushNode_clean hi ((ht.clean i n hi).clean trivial)] at hrun
  cases hrun
  exact ⟨ht, .refl t⟩

end Hushed

end ExFat
