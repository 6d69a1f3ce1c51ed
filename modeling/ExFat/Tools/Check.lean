import ExFat.Amiga.Ledger
import ExFat.Session.Resolve
import ExFat.Store.FileStore

namespace ExFat

open Chain Program

/-!
# Checking a volume

`exfatfsck` walks the directories from the root down, each by its path, and looks at the clusters of
every node it comes to.

* `nodeck` and `dirck` are the routines of the tool, `fsck` mounts the volume for them, and
  `exitStatus` is what `main` returns.
* `refs_dirck`: the walk gives back every reference it takes, wherever it gives up, and
  `tends_dirck`: it only adds to the tree in memory.  `checking_balanced` puts them together for a
  mounted volume.
* `nodeck_zero_iff`: `nodeck` is silent about a node exactly when the clusters that the size of the
  node asks for can be followed, exist and are marked in the bitmap.
* `exists_file_iff_nodeck`: these are the files that the routines for files work on, but for the
  nodes whose links come back to a cluster, which the tool does not look for.
-/

/-! ### The tool -/

/-- `directories_count` and `files_count`. -/
structure Counts where
  directories : Nat
  files : Nat
  deriving DecidableEq, Repr

namespace Counts

/-- Nothing has been counted. -/
def zero : Counts := ⟨0, 0⟩

/-- The counts of two directories. -/
def add (a b : Counts) : Counts := ⟨a.directories + b.directories, a.files + b.files⟩

end Counts

section Tool

variable {δ : Type} [Device δ]

/-- The loop of `nodeck`: `n` clusters are left, the next is `c`. -/
def nodeckLoop : (n c rc : Nat) → FileM δ Nat
  | 0, _, rc => pure rc
  | n + 1, c, rc => do
    let s ← get
    if s.ef.sb.clusterInvalid c then do
      -- the name is converted for the message, and the check ends
      let _ ← onEf (exfatGetName s.node)
      onEf (exfatError "file has an invalid cluster")
      pure 1
    else if s.ef.cmap.chunk (c - 2) then do
      let next ← exfatNextCluster c
      nodeckLoop n next rc
    else do
      let _ ← onEf (exfatGetName s.node)
      onEf (exfatError "cluster of file is not allocated")
      -- here the check goes on
      let next ← exfatNextCluster c
      nodeckLoop n next 1

/-- `nodeck`. -/
def nodeck : FileM δ Nat := do
  let s ← get
  let n := s.node
  nodeckLoop (u32 (divRoundUp n.size s.ef.sb.clusterSize)) n.startCluster 0

/-- A node that `exfat_readdir` has returned: a directory is checked by its path, which is done by
`enter`. -/
def checkChild (enter : List UInt8 → TreeM δ Counts) (path : List UInt8) (i : NodeId) :
    TreeM δ Counts := do
  let n ← getNode i
  let name ← onVolume (exfatGetName n)
  if n.isDir then do
    let below ← enter (path ++ slash :: name)
    pure (Counts.add ⟨1, 0⟩ below)
  else do
    let _ ← onNode i nodeck
    pure ⟨0, 1⟩

/-- The loop of `dirck` over the nodes that `exfat_readdir` has still to return. -/
def dirckLoop (enter : List UInt8 → TreeM δ Counts) (path : List UInt8) :
    List NodeId → TreeM δ Counts
  | [] => pure .zero
  | i :: is => do
    exfatGetNode i
    let here ← checkChild enter path i
    let _ ← exfatFlushNode i
    exfatPutNode i
    let rest ← dirckLoop enter path is
    pure (here.add rest)

/-- `dirck` on the node that the path has led to. -/
def dirckNode (enter : List UInt8 → TreeM δ Counts) (path : List UInt8) (parent : NodeId) :
    TreeM δ Counts := do
  let p ← getNode parent
  if !p.isDir then exfatBug "path is not a directory"
  else do
    let rc ← onNode parent nodeck
    if rc ≠ 0 then do
      exfatPutNode parent
      pure .zero
    else if !(← onVolume mallocOk) then do
      exfatPutNode parent
      onVolume (exfatError "out of memory")
      pure .zero
    else do
      match ← exfatOpendir parent with
      | .error _ => do
        exfatPutNode parent
        pure .zero
      | .ok _ => do
        let p ← getNode parent
        let counts ← dirckLoop enter path p.child
        -- `exfat_closedir`
        exfatPutNode parent
        let _ ← exfatFlushNode parent
        exfatPutNode parent
        pure counts

/-- `dirck`; the recursion goes down the tree. -/
def dirck : (fuel : Nat) → (path : List UInt8) → TreeM δ Counts
  | 0, _ => throw .fuel
  | fuel + 1, path => do
    match ← exfatLookup path with
    | .error _ => exfatBug "directory is not found"
    | .ok parent => dirckNode (dirck fuel) path parent

/-- What `fsck` does with the volume that it has mounted. -/
def checking (fuel : Nat) : TreeM δ Counts := do
  let _ ← onVolume exfatSoilSuperBlock
  dirck fuel []

/-- `fsck`, once the device is open: what has been counted, or `none` if the checking has stopped
before it began. -/
def fsck (fuel : Nat) : TreeM δ (Option Counts) := do
  match ← exfatMount with
  | .error _ => pure none
  | .ok _ => do
    let counts ← checking fuel
    exfatUnmount
    pure (some counts)

/-- What `main` returns after `fsck`. -/
def exitStatus (t : Volume δ) : Nat := if t.ef.errors ≠ 0 then 1 else 0

end Tool

/-! ### References -/

section References

variable {δ : Type} [Device δ]

section View

variable {κ : Type} {π : Node → κ} [Aloof π]

/-- The loop of `nodeck` leaves the node as it is seen. -/
theorem links_nodeckLoop (n c rc : Nat) :
    Keeps (FileState.SameBy π) (nodeckLoop (δ := δ) n c rc) := by
  induction n generalizing c rc with
  | zero => exact keeps_pure _
  | succ n ih =>
    refine keeps_look fun s => keeps_ite ?_ (keeps_ite ?_ ?_)
    · exact keeps_bind (links_onEf _) fun _ => keeps_bind (links_onEf _) fun _ => keeps_pure _
    · exact keeps_bind (keeps_exfatNextCluster c) fun _ => ih _ _
    · refine keeps_bind (links_onEf _) fun _ => keeps_bind (links_onEf _) fun _ => ?_
      exact keeps_bind (keeps_exfatNextCluster c) fun _ => ih _ _

/-- `nodeck` leaves the node as it is seen. -/
theorem links_nodeck : Keeps (FileState.SameBy π) (nodeck (δ := δ)) :=
  keeps_look fun _ => links_nodeckLoop _ _ _

end View

omit [Device δ] in
/-- A reference is given back, and the rest takes none. -/
theorem refs_put_then (i : NodeId) {α : Type} {m : TreeM δ α} (hm : Refs m 0) :
    Refs (do
      exfatPutNode i
      m) fun _ => -one i :=
  Refs.bind (refs_exfatPutNode i) fun _ => hm.congr fun _ => (sub_self _).symm

variable {enter : List UInt8 → TreeM δ Counts}

/-- Checking a child leaves the references as they were. -/
theorem refs_checkChild (henter : ∀ path, Refs (enter path) 0) (path : List UInt8) (i : NodeId) :
    Refs (checkChild enter path i) 0 := by
  refine Refs.skip_links (links_getNode i) fun n => ?_
  refine Refs.skip_links (links_onVolume _) fun name => ?_
  refine Refs.ite ?_ ?_
  · exact Refs.skip (henter _) fun _ => Refs.pure rfl
  · exact Refs.skip_links (links_onNode i links_nodeck) fun _ => Refs.pure rfl

/-- The loop of `dirck` leaves the references as they were. -/
theorem refs_dirckLoop (henter : ∀ path, Refs (enter path) 0) (path : List UInt8)
    (is : List NodeId) : Refs (dirckLoop enter path is) 0 := by
  induction is with
  | nil => exact Refs.pure rfl
  | cons i is ih =>
    refine Refs.bind (refs_exfatGetNode i) fun _ => ?_
    have hrest : Refs (do
        let here ← checkChild enter path i
        let _ ← exfatFlushNode i
        exfatPutNode i
        let rest ← dirckLoop enter path is
        pure (here.add rest)) fun _ => -one i := by
      refine Refs.skip (refs_checkChild henter path i) fun here => ?_
      refine Refs.skip_links (links_exfatFlushNode i) fun _ => refs_put_then i ?_
      exact Refs.skip ih fun _ => Refs.pure rfl
    exact hrest.congr fun _ => (zero_sub _).symm

/-- The reference that the lookup has taken is given back. -/
theorem refs_dirckNode (henter : ∀ path, Refs (enter path) 0) (path : List UInt8)
    (parent : NodeId) : Refs (dirckNode enter path parent) fun _ => -one parent := by
  refine Refs.skip_links (links_getNode parent) fun p => Refs.ite (Refs.throw _ _) ?_
  refine Refs.skip_links (links_onNode parent links_nodeck) fun rc => Refs.ite ?_ ?_
  · exact refs_put_then parent (Refs.pure rfl)
  refine Refs.skip_links (links_onVolume _) fun ok => Refs.ite ?_ ?_
  · exact refs_put_then parent (Refs.skip_links (links_onVolume _) fun _ => Refs.pure rfl)
  refine Refs.bind (refs_exfatOpendir parent) fun r => ?_
  cases r with
  | error e => exact (refs_put_then parent (Refs.pure rfl)).congr fun _ => (sub_zero _).symm
  | ok _ =>
    refine Refs.skip_links (links_getNode parent) fun p => ?_
    refine Refs.skip (refs_dirckLoop henter path _) fun counts => ?_
    -- the references of `exfat_opendir` and of the lookup
    refine Refs.bind (refs_exfatPutNode parent) fun _ =>
      Refs.skip_links (links_exfatFlushNode parent) fun _ => ?_
    refine (refs_put_then parent (Refs.pure rfl)).congr fun _ => ?_
    simp [taken, Except.map]

/-- `dirck` leaves the references as they were. -/
theorem refs_dirck (fuel : Nat) (path : List UInt8) : Refs (dirck (δ := δ) fuel path) 0 := by
  induction fuel generalizing path with
  | zero => exact Refs.throw _ _
  | succ fuel ih =>
    refine Refs.bind (refs_exfatLookup path) fun r => ?_
    cases r with
    | error e => exact Refs.throw _ _
    | ok parent => exact (refs_dirckNode ih path parent).congr fun _ => (zero_sub _).symm

end References

/-! ### The tree -/

section Tree

variable {δ : Type} [Device δ]

variable {R : Volume δ → Volume δ → Prop} [CacheRel R] {enter : List UInt8 → TreeM δ Counts}

/-- Checking a child does no more to the tree than reading directories. -/
theorem tends_checkChild (henter : ∀ path, Tends R (enter path)) (path : List UInt8) (i : NodeId) :
    Tends R (checkChild enter path i) := by
  apply Tends.skip (links_getNode i)
  intro n
  apply Tends.skip (links_onVolume _)
  intro name
  apply Tends.ite
  · exact Tends.bind (henter _) fun _ => Tends.pure _
  · exact Tends.skip (links_onNode i links_nodeck) fun _ => Tends.pure _

/-- The loop of `dirck` does no more to the tree than reading directories. -/
theorem tends_dirckLoop (henter : ∀ path, Tends R (enter path)) (path : List UInt8)
    (is : List NodeId) : Tends R (dirckLoop enter path is) := by
  induction is with
  | nil => exact Tends.pure _
  | cons i is ih =>
    apply Tends.skip (kin_exfatGetNode i)
    intro _
    apply Tends.bind (tends_checkChild henter path i)
    intro here
    apply Tends.skip (links_exfatFlushNode i)
    intro _
    apply Tends.skip (kin_exfatPutNode i)
    intro _
    exact Tends.bind ih fun _ => Tends.pure _

/-- `dirck` does no more to the tree than reading directories. -/
theorem tends_dirckNode (henter : ∀ path, Tends R (enter path)) (path : List UInt8)
    (parent : NodeId) : Tends R (dirckNode enter path parent) := by
  have hput : ∀ a : Counts, Tends R (do
      exfatPutNode parent
      pure a) := fun a => Tends.skip (kin_exfatPutNode parent) fun _ => Tends.pure a
  refine Tends.skip (links_getNode parent) fun p => Tends.ite (Tends.throw _) ?_
  refine Tends.skip (links_onNode parent links_nodeck) fun rc => Tends.ite (hput _) ?_
  refine Tends.skip (links_onVolume _) fun ok => Tends.ite ?_ ?_
  · exact Tends.skip (kin_exfatPutNode parent) fun _ => Tends.skip (links_onVolume _) fun _ =>
      Tends.pure _
  refine Tends.bind (tends_exfatOpendir parent) fun r => ?_
  cases r with
  | error e => exact hput _
  | ok _ =>
    apply Tends.skip (links_getNode parent)
    intro p
    apply Tends.bind (tends_dirckLoop henter path p.child)
    intro counts
    apply Tends.skip (kin_exfatPutNode parent)
    intro _
    exact Tends.skip (links_exfatFlushNode parent) fun _ => hput counts

/-- The walk reads directories and does nothing else to the tree. -/
theorem tends_dirck (fuel : Nat) (path : List UInt8) : Tends R (dirck (δ := δ) fuel path) := by
  induction fuel generalizing path with
  | zero => exact Tends.throw _
  | succ fuel ih =>
    apply Tends.bind (tends_exfatLookup path)
    intro r
    cases r with
    | error e => exact Tends.throw _
    | ok parent => exact tends_dirckNode ih path parent

/-- When `exfat_unmount` begins there is the reference of the mount to the root and none to any
other node, and no node that was in memory has been lost. -/
theorem checking_balanced {t t₁ t₂ : Volume δ} {fuel : Nat} {counts : Counts} (ht : t.Vacant)
    (hmount : exfatMount t = .ok (.ok ()) t₁) (hrun : checking fuel t₁ = .ok counts t₂) :
    (∀ i, t₂.refs i = one t₁.root i) ∧ t₂.Linked ∧ t₁.Read t₂ := by
  obtain ⟨hbounded, hrefs⟩ := wp_anyStop_iff.1 (exfatMount_refs ht) _ _ hmount
  obtain ⟨hlinked, -⟩ := wp_anyStop_iff.1 (exfatMount_linked ht) _ _ hmount rfl
  have hcount : Refs (checking (δ := δ) fuel) 0 :=
    Refs.skip_links (links_onVolume _) fun _ => refs_dirck fuel []
  have htends : Tends Volume.Read (checking (δ := δ) fuel) :=
    Tends.skip (links_onVolume _) fun _ => tends_dirck fuel []
  have hcounted := wp_anyStop_iff.1 (hcount t₁ hbounded) _ _ hrun
  refine ⟨fun i => ?_, wp_anyStop_iff.1 (htends t₁ hlinked) _ _ hrun⟩
  rw [hcounted.refs, hrefs]
  exact add_zero _

/-- The card with a directory in which there is a file, and an empty one, is checked. -/
theorem balanced_cross : ∃ t₁ counts t₂, crossStart.Vacant ∧
    exfatMount crossStart = .ok (.ok ()) t₁ ∧ checking 2 t₁ = .ok counts t₂ ∧ counts = ⟨2, 1⟩ ∧
    (∀ i, t₂.refs i = one t₁.root i) ∧ t₂.Linked ∧ t₁.Read t₂ := by
  have htest : returns (fun rc t => decide (rc = .ok ()) &&
      returns (fun counts _ => decide (counts = ⟨2, 1⟩)) (checking 2 t))
      (mountRoot crossBooted) = true := by
    decide +kernel
  obtain ⟨rc, t₁, hroot, htest⟩ := of_returns htest
  obtain ⟨hrc, hcheck⟩ := (Bool.and_eq_true_iff ..).1 htest
  obtain rfl := of_decide_eq_true hrc
  obtain ⟨counts, t₂, hrun, hcounts⟩ := of_returns hcheck
  have hvacant : crossStart.Vacant := fun _ => rfl
  have hmount : exfatMount crossStart = .ok (.ok ()) t₁ :=
    (run_exfatMount (fun _ => rfl) bootable_crossStore).trans hroot
  have hbalanced := checking_balanced hvacant hmount hrun
  exact ⟨t₁, counts, t₂, hvacant, hmount, hrun, of_decide_eq_true hcounts, hbalanced⟩

end Tree

/-! ### Clusters -/

section Clusters

variable {ef : Ef Flat} {n : Node} {c k : Nat}

/-- From `c` on there are `k` clusters that exist and are marked in the bitmap. -/
def Node.Holds (ef : Ef Flat) (n : Node) (c k : Nat) : Prop :=
  ∃ L, Follows (nextOf ef.sb ef.dev.bytes n.isContiguous) c L ∧ L.length = k ∧
    (∀ x ∈ L, Valid ef.sb x) ∧
    Taken ef.cmap.chunk L

/-- As many clusters as its size asks for belong to the node. -/
def Node.Allocated (ef : Ef Flat) (n : Node) : Prop :=
  n.Holds ef n.startCluster (u32 (divRoundUp n.size ef.sb.clusterSize))

/-- No clusters are held. -/
@[simp] theorem Node.holds_zero : n.Holds ef c 0 := ⟨[], trivial, rfl, by simp, by simp [Taken]⟩

/-- The first cluster is held, and so are the others. -/
theorem Node.holds_succ_iff : n.Holds ef c (k + 1) ↔ Valid ef.sb c ∧ ef.cmap.chunk (c - 2) = true ∧
    n.Holds ef (nextOf ef.sb ef.dev.bytes n.isContiguous c) k := by
  constructor
  · rintro ⟨L, hfollows, hlen, hvalid, htaken⟩
    cases L with
    | nil => cases hlen
    | cons x xs =>
      obtain ⟨rfl, hfollows⟩ := hfollows
      have hrest : n.Holds ef (nextOf ef.sb ef.dev.bytes n.isContiguous x) k :=
        ⟨xs, hfollows, Nat.succ.inj hlen, fun y hy => hvalid y (.tail _ hy), fun y hy =>
          htaken y (.tail _ hy)⟩
      exact ⟨hvalid x (.head _), htaken x (.head _), hrest⟩
  · rintro ⟨hvalid, htaken, xs, hfollows, rfl, hall, hmarked⟩
    refine ⟨c :: xs, ⟨rfl, hfollows⟩, rfl, ?_, ?_⟩
    · exact List.forall_mem_cons.2 ⟨hvalid, hall⟩
    · exact List.forall_mem_cons.2 ⟨htaken, hmarked⟩

/-- The volume with more messages. -/
def Ef.told (ef : Ef Flat) (errors : Nat) : Ef Flat := { ef with errors := errors }

/-- What `nodeck` says about the clusters from `c` on, and what it returns. -/
inductive Verdict (ef : Ef Flat) (n : Node) (c k rc : Nat) : Nat → FileState Flat → Prop
  | good (h : n.Holds ef c k) : Verdict ef n c k rc rc ⟨ef, n⟩
  | bad {errors : Nat} (h : ¬ n.Holds ef c k) (hmore : ef.errors < errors) :
    Verdict ef n c k rc 1 ⟨ef.told errors, n⟩

/-- The loop of `nodeck` finds what is wrong with the clusters. -/
theorem wp_nodeckLoop (k c rc : Nat) :
    wp (nodeckLoop k c rc) (Verdict ef n c k rc) anyStop ⟨ef, n⟩ := by
  -- on the clusters that are still to be checked
  induction k generalizing c rc ef with
  | zero => exact .good (by simp)
  | succ k ih =>
    unfold nodeckLoop
    rw [wp_bind, wp_get]
    dsimp only
    split
    next hinvalid =>
      -- the chain leaves the heap: the check of the node ends here
      have hnot : ¬ n.Holds ef c (k + 1) := fun h => by
        have hvalid := (Node.holds_succ_iff.1 h).1
        unfold Valid at hvalid
        rw [hinvalid] at hvalid
        cases hvalid
      -- to report it the name is converted
      unfold exfatGetName
      cases nameUtf8 n.name with
      | error e => exact trivial
      | ok name => exact .bad hnot (Nat.lt_succ_self _)
    next hinvalid =>
      have hvalid : Valid ef.sb c := by simpa [Valid] using hinvalid
      split
      next htaken =>
        rw [wp_bind]
        refine wp_of_ok (exfatNextCluster_run hvalid.two_le) (wp_conseq (ih _ rc) ?_)
        intro r s hs
        cases hs with
        | good h => exact .good (Node.holds_succ_iff.2 ⟨hvalid, htaken, h⟩)
        | bad h hmore => exact .bad (fun h' => h (Node.holds_succ_iff.1 h').2.2) hmore
      next htaken =>
        -- the check goes on behind a cluster that is not marked
        have hnot : ¬ n.Holds ef c (k + 1) := fun h => htaken (Node.holds_succ_iff.1 h).2.1
        unfold exfatGetName
        cases nameUtf8 n.name with
        | error e => exact trivial
        | ok name =>
          refine wp_of_eq (run_bind_ok (run_onEf_ok (s := ⟨ef, n⟩) rfl)) ?_
          refine wp_of_eq (run_bind_ok (run_onEf_ok (s := ⟨ef, n⟩) rfl)) ?_
          refine wp_of_eq (run_bind_ok (exfatNextCluster_run hvalid.two_le)) ?_
          refine wp_conseq (@ih (ef.told (ef.errors + 1)) _ 1) ?_
          intro r s hs
          cases hs with
          | good h => exact .bad hnot (Nat.lt_succ_self _)
          | bad h hmore => exact .bad hnot (Nat.lt_of_succ_lt hmore)

/-- `nodeck` finds what is wrong with the clusters of the node. -/
theorem wp_nodeck :
    wp nodeck (Verdict ef n n.startCluster (u32 (divRoundUp n.size ef.sb.clusterSize)) 0) anyStop
    ⟨ef, n⟩ := wp_nodeckLoop _ _ _

/-- Clusters that are held are not complained about. -/
theorem nodeckLoop_of_holds (rc : Nat) (h : n.Holds ef c k) :
    nodeckLoop k c rc ⟨ef, n⟩ = .ok rc ⟨ef, n⟩ := by
  induction k generalizing c with
  | zero => rfl
  | succ k ih =>
    obtain ⟨hvalid, htaken, hrest⟩ := Node.holds_succ_iff.1 h
    have hinvalid : ef.sb.clusterInvalid c = false := hvalid
    unfold nodeckLoop
    rw [run_bind_ok (run_get _), hinvalid, if_neg (by decide), if_pos htaken,
      run_bind_ok (exfatNextCluster_run hvalid.two_le)]
    exact ih hrest

/-- `nodeck` finds nothing wrong with exactly the nodes whose clusters are there. -/
theorem nodeck_zero_iff : (∃ s, nodeck ⟨ef, n⟩ = .ok 0 s) ↔ n.Allocated ef := by
  constructor
  · rintro ⟨s, hrun⟩
    cases wp_anyStop_iff.1 wp_nodeck _ _ hrun with
    | good h => exact h
  · intro h
    exact ⟨_, nodeckLoop_of_holds 0 h⟩

/-- With the pointer at the start, `nodeck` accepts of the nodes that `check_node` lets pass exactly
the files, and besides them the nodes whose links come back to a cluster. -/
theorem exists_file_iff_nodeck (hl : Layout ef.sb) (hc : n.Consistent ef.sb)
    (hindex : n.fptrIndex = 0) (hcluster : n.fptrCluster = n.startCluster) :
    (∃ L, File ef n L) ↔ (∃ s, nodeck ⟨ef, n⟩ = .ok 0 s) ∧
      (List.iterate (nextOf ef.sb ef.dev.bytes n.isContiguous) n.startCluster
        (divRoundUp n.size ef.sb.clusterSize)).Nodup := by
  have hcs := ef.sb.clusterSize_pos
  -- a size that fits into the heap does not wrap around
  have hcount : u32 (divRoundUp n.size ef.sb.clusterSize) =
      divRoundUp n.size ef.sb.clusterSize := by
    have hle := (divRoundUp_le_iff hcs).2 hc.heap
    have hlt := hl.count_lt
    exact Nat.mod_eq_of_lt (by omega)
  rw [nodeck_zero_iff]
  unfold Node.Allocated Node.Holds
  rw [hcount]
  constructor
  · rintro ⟨L, hfile⟩
    refine ⟨⟨L, hfile.chained.follows, hfile.length, hfile.chained.valid, hfile.taken⟩, ?_⟩
    rw [← hfile.length, ← hfile.chained.follows.eq_iterate]
    exact hfile.chained.nodup
  · rintro ⟨⟨L, hfollows, hlen, hvalid, htaken⟩, hnodup⟩
    rw [← hlen, ← hfollows.eq_iterate] at hnodup
    refine ⟨L, ⟨hfollows, hvalid, hnodup, .inl ⟨hindex, hcluster⟩, ?_⟩, htaken, hlen, hc.validSize⟩
    intro hnil
    rw [hnil, List.length_nil] at hlen
    have hle := (divRoundUp_le_iff hcs).1 hlen.ge
    exact (hc.empty (by omega)).1

/-- A file of four clusters whose first link leads back to its first cluster. -/
def loopedFile : FileState Flat where
  ef := { twoFiles.ef with dev := ⟨setFat smallSuperBlock (fun _ => 0) 5 5, 5120⟩ }
  node := { startCluster := 5, fptrCluster := 5, validSize := 2048, size := 2048 }

/-- A file of one cluster is one, and the four clusters that are one are not. -/
theorem exists_file_iff_nodeck_looped : (∃ s, nodeck ⟨twoFiles.ef, threeByteFile⟩ = .ok 0 s) ∧
    (∃ s, nodeck loopedFile = .ok 0 s) ∧ ¬ ∃ L, File loopedFile.ef loopedFile.node L := by
  have hthree : threeByteFile.Consistent twoFiles.ef.sb :=
    ⟨by decide, by decide, by decide, by decide, by decide⟩
  have hlooped : loopedFile.node.Consistent loopedFile.ef.sb :=
    ⟨by decide, by decide, by decide, by decide, by decide⟩
  have hrun : returns (fun rc _ => rc = 0) (nodeck loopedFile) = true := by
    decide +kernel
  obtain ⟨rc, s, hrun, hzero⟩ := of_returns hrun
  obtain rfl := of_decide_eq_true hzero
  refine ⟨?_, ⟨s, hrun⟩, ?_⟩
  · exact ((exists_file_iff_nodeck smallSuperBlock_layout hthree rfl rfl).1 ⟨_,
      twoFiles_chains.file (i := 1) rfl⟩).1
  · intro hfile
    have hnodup := ((exists_file_iff_nodeck smallSuperBlock_layout hlooped rfl rfl).1 hfile).2
    revert hnodup
    decide +kernel

end Clusters

end ExFat
