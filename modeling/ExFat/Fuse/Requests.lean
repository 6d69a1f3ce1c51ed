import ExFat.Amiga.Removal
import ExFat.Fuse.Handles

namespace ExFat

open Program

/-!
# Runs of requests

Whatever requests come in whatever order, the books are balanced after each of them:
`FuseCall.balanced` is the step, `Fuse.Session.balanced` the run.

The requests fall into three groups.

* Those that drop at their end what they have looked up leave the open files alone.
* `open` and `create` add one file when they succeed.
* `release` takes one away.
-/

variable {δ : Type} [Device δ] {files : Table NodeId}

/-! ### One request -/

omit [Device δ] in
/-- Drop the only reference. -/
theorem attends_drop (i : NodeId) :
    Attends files (one i) (inVolume (exfatPutNode (δ := δ) i)) fun _ s' => s'.Books files 0 := by
  have h : Attends files (one i) (inVolume (exfatPutNode (δ := δ) i)) fun _ s' =>
      s'.Books files (one i - one i) := attends_put i
  simpa only [sub_self] using h

/-- A request that is given a path: what has been looked up is held by what follows. -/
theorem attends_withPath {path : List UInt8} {f : NodeId → FuseM δ FuseReply}
    {Q : FuseReply → Fuse δ → Prop} (hfail : ∀ e (s : Fuse δ), s.Books files 0 → Q (.fail e) s)
    (hf : ∀ i, Attends files (one i) (f i) Q) : Attends files 0 (withPath path f) Q := by
  refine (attends_exfatLookup path).bind fun r => ?_
  cases r with
  | error e => exact Attends.pure fun s hs => hfail e s (by simpa [taken] using hs)
  | ok i => simpa [taken] using hf i

/-- The request has been answered, and at most one file has been opened. -/
def Answered (files : Table NodeId) (reply : FuseReply) (s : Fuse δ) : Prop :=
  reply.fi = none ∧ s.Books files 0 ∨ ∃ i, reply.fi = some files.next ∧ s.Books (files.insert i) 0

omit [Device δ] in
/-- A request that opens nothing leaves the books as they were. -/
theorem Answered.idle {s : Fuse δ} {reply : FuseReply} (hs : s.Books files 0)
    (hfi : reply.fi = none) : Answered files reply s := .inl ⟨hfi, hs⟩

omit [Device δ] in
/-- An answer that is a return code opens nothing. -/
theorem answered_ofRc {s : Fuse δ} (rc : Rc) (hs : s.Books files 0) :
    Answered files (.ofRc rc) s := by
  cases rc <;> exact .idle hs rfl

/-- `fuse_exfat_getattr` keeps the books. -/
theorem answered_getattr (path : List UInt8) :
    Attends files 0 (fuseExfatGetattr (δ := δ) path) (Answered files) := by
  refine attends_withPath (fun e s hs => .idle hs rfl) fun node => ?_
  refine (attends_getNode node).bind fun n => Attends.look fun s => ?_
  exact (attends_drop node).bind fun _ => Attends.pure fun s hs => .idle hs rfl

/-- `fuse_exfat_truncate` keeps the books. -/
theorem answered_truncate (path : List UInt8) (size : Nat) :
    Attends files 0 (fuseExfatTruncate (δ := δ) path size) (Answered files) := by
  refine attends_withPath (fun e s hs => .idle hs rfl) fun node => ?_
  refine (attends_exfatTruncate node size true).bind fun rc => ?_
  cases rc with
  | error e =>
    refine (attends_exfatFlushNode node).bind fun _ => ?_
    exact (attends_drop node).bind fun _ => Attends.pure fun s hs => .idle hs rfl
  | ok _ =>
    refine (attends_exfatFlushNode node).bind fun rc => ?_
    exact (attends_drop node).bind fun _ => Attends.pure fun s hs => answered_ofRc rc hs

omit [Device δ] in
/-- Listing a directory leaves the references as they were. -/
theorem refs_fillEntries (options : FuseOptions) (is : List NodeId) :
    Refs (fillEntries (δ := δ) options is) 0 := by
  induction is with
  | nil => exact Refs.pure rfl
  | cons i is ih =>
    refine Refs.bind (refs_exfatGetNode i) fun _ => ?_
    refine Refs.skip_links (links_getNode i) fun n => ?_
    refine Refs.skip_links (links_onVolume _) fun name => ?_
    refine Refs.look fun t => Refs.bind (refs_exfatPutNode i) fun _ => ?_
    refine Refs.congr (d := 0) (Refs.skip ih fun rest => Refs.pure rfl) fun _ => ?_
    show (0 : Delta) = 0 - one i - -one i
    abel

omit [Device δ] in
/-- Listing a directory leaves the family tree alone. -/
theorem kin_fillEntries (options : FuseOptions) (is : List NodeId) :
    Keeps Volume.SameKin (fillEntries (δ := δ) options is) := by
  induction is with
  | nil => exact keeps_pure _
  | cons i is ih =>
    refine keeps_bind (kin_exfatGetNode i) fun _ => keeps_bind (links_getNode i) fun n => ?_
    refine keeps_bind (links_onVolume _) fun name => keeps_look fun t => ?_
    exact keeps_bind (kin_exfatPutNode i) fun _ => keeps_bind ih fun rest => keeps_pure _

/-- `fuse_exfat_readdir` keeps the books. -/
theorem answered_readdir (path : List UInt8) :
    Attends files 0 (fuseExfatReaddir (δ := δ) path) (Answered files) := by
  refine attends_withPath (fun e s hs => .idle hs rfl) fun parent => ?_
  refine (attends_getNode parent).bind fun p => Attends.ite ?_ ?_
  · refine (attends_drop parent).bind fun _ => (attends_onVolume _).bind fun _ => ?_
    exact Attends.pure fun s hs => .idle hs rfl
  · refine (attends_exfatOpendir (one_pos_iff.2 rfl)).bind fun r => ?_
    cases r with
    | error e =>
      rw [show one parent + taken (Except.map (fun _ => parent) (.error e : Rc)) = one parent
        from add_zero _]
      refine (attends_drop parent).bind fun _ => (attends_onVolume _).bind fun _ => ?_
      exact Attends.pure fun s hs => .idle hs rfl
    | ok _ =>
      refine (attends_getNode parent).bind fun p => Attends.look fun s => ?_
      refine (attends_kin (refs_fillEntries _ _) (kin_fillEntries _ _)).bind fun entries => ?_
      -- the directory is closed, and then the lookup is undone
      refine (attends_putLast parent).bind fun _ => (attends_drop parent).bind fun _ => ?_
      exact Attends.pure fun s hs => .idle hs rfl

omit [Device δ] in
/-- What `open` and `create` end with. -/
theorem answered_setNode (i : NodeId) :
    Attends files (one i) (do
      let fi ← setNode i
      pure { fi := some fi } : FuseM δ FuseReply) (Answered files) := by
  rw [← zero_add (one i)]
  exact attends_setNode fun s hs => .inr ⟨i, rfl, hs⟩

/-- `fuse_exfat_open` opens a file, or keeps the books. -/
theorem answered_open (path : List UInt8) (trunc : Bool) :
    Attends files 0 (fuseExfatOpen (δ := δ) path trunc) (Answered files) := by
  refine attends_withPath (fun e s hs => .idle hs rfl) fun node => ?_
  refine Attends.look fun s => Attends.ite ?_ ?_
  · refine (attends_exfatTruncate node 0 true).bind fun rc => ?_
    cases rc with
    | error e => exact (attends_drop node).bind fun _ => Attends.pure fun s hs => .idle hs rfl
    | ok _ => exact answered_setNode node
  · exact answered_setNode node

/-- `fuse_exfat_create` opens a file, or keeps the books. -/
theorem answered_create (path : List UInt8) :
    Attends files 0 (fuseExfatCreate (δ := δ) path) (Answered files) := by
  refine (attends_exfatMknod path).bind fun rc => ?_
  cases rc with
  | error e => exact Attends.pure fun s hs => .idle hs rfl
  | ok _ => exact attends_withPath (fun e s hs => .idle hs rfl) answered_setNode

/-- What `exfat_unlink` and `exfat_rmdir` have in common. -/
structure Removes (remove : NodeId → TreeM δ Rc) : Prop where
  refs : ∀ i, Refs (remove i) 0
  unlinks : ∀ i (t : Volume δ), t.Linked → t.Readable i →
    wp (remove i) (fun r t' => t.Unlinks i r t') anyStop t

/-- `exfat_unlink` removes a node. -/
theorem removes_exfatUnlink : Removes (exfatUnlink (δ := δ)) :=
  ⟨refs_exfatUnlink, fun i _ ht _ => wp_exfatUnlink i ht⟩

/-- `exfat_rmdir` removes a node. -/
theorem removes_exfatRmdir : Removes (exfatRmdir (δ := δ)) :=
  ⟨refs_exfatRmdir, fun i _ ht hi => wp_exfatRmdir i ht hi⟩

/-- The node is held while it is removed. -/
theorem Removes.attends {remove : NodeId → TreeM δ Rc} (h : Removes remove) (i : NodeId) :
    Attends files (one i) (inVolume (remove i)) fun _ s' => s'.Books files (one i) :=
  attends_still (h.refs i) fun t ht hx =>
    wp_conseq (h.unlinks i t ht.linked (ht.readable (hx i (one_pos_iff.2 rfl)))) fun _ _ hu =>
      hu.sound ⟨ht, False.elim⟩

/-- `fuse_exfat_unlink` and `fuse_exfat_rmdir` keep the books. -/
theorem answered_remove {remove : NodeId → TreeM δ Rc} (h : Removes remove) (path : List UInt8) :
    Attends files 0 (fuseExfatRemove remove path) (Answered files) := by
  refine attends_withPath (fun e s hs => .idle hs rfl) fun node => ?_
  refine (h.attends node).bind fun rc => (attends_drop node).bind fun _ => ?_
  cases rc with
  | error e => exact Attends.pure fun s hs => .idle hs rfl
  | ok _ =>
    exact (attends_exfatCleanupNode node).bind fun rc =>
      Attends.pure fun s hs => answered_ofRc rc hs

/-- `fuse_exfat_utimens` keeps the books. -/
theorem answered_utimens (path : List UInt8) (atime mtime : Int) :
    Attends files 0 (fuseExfatUtimens (δ := δ) path atime mtime) (Answered files) := by
  refine attends_withPath (fun e s hs => .idle hs rfl) fun node => ?_
  have hutimes : ∀ {κ : Type} {π : Node → κ} [Aloof π],
      Keeps (Volume.SameBy π) (exfatUtimes (δ := δ) node atime mtime) :=
    links_updateNode node fun _ => Aloof.data rfl
  refine (attends_kept hutimes hutimes).bind fun _ => ?_
  refine (attends_exfatFlushNode node).bind fun rc => ?_
  exact (attends_drop node).bind fun _ => Attends.pure fun s hs => answered_ofRc rc hs

/-- `fuse_exfat_read` keeps the books. -/
theorem answered_read (fi : FileInfo) (size : Nat) (offset : Int) :
    Attends files 0 (fuseExfatRead (δ := δ) fi size offset) (Answered files) := by
  refine attends_fuseNode fun node _ => ?_
  refine (attends_kept (links_onNode node (keeps_exfatGenericPread size offset))
    (links_onNode node (keeps_exfatGenericPread size offset))).bind fun r => ?_
  cases r with
  | error e => exact Attends.pure fun s hs => .idle hs rfl
  | ok r => exact Attends.pure fun s hs => .idle hs rfl

/-- `fuse_exfat_write` keeps the books. -/
theorem answered_write (fi : FileInfo) (data : List UInt8) (offset : Int) :
    Attends files 0 (fuseExfatWrite (δ := δ) fi data offset) (Answered files) := by
  refine attends_fuseNode fun node _ => ?_
  refine (attends_kept (links_onNode node (keeps_exfatGenericPwrite data offset))
    (links_onNode node (keeps_exfatGenericPwrite data offset))).bind fun r => ?_
  cases r with
  | error e => exact Attends.pure fun s hs => .idle hs rfl
  | ok n => exact Attends.pure fun s hs => .idle hs rfl

/-- `fuse_exfat_fsync` keeps the books. -/
theorem answered_fsync : Attends files 0 (fuseExfatFsync (δ := δ)) (Answered files) := by
  refine (attends_kept links_exfatFlushNodes links_exfatFlushNodes).bind fun r => ?_
  cases r with
  | error e => exact Attends.pure fun s hs => .idle hs rfl
  | ok _ =>
    refine (attends_onVolume exfatFlush).bind fun r => ?_
    cases r with
    | error e => exact Attends.pure fun s hs => .idle hs rfl
    | ok _ =>
      refine (attends_onVolume exfatFsync).bind fun b => ?_
      exact Attends.ite (Attends.pure fun s hs => .idle hs rfl)
        (Attends.pure fun s hs => .idle hs rfl)

/-- A request that closes no file. -/
theorem FuseCall.answered {call : FuseCall} (hcall : ∀ fi, call ≠ .release fi) :
    Attends files 0 (call.run (δ := δ)) (Answered files) := by
  -- only `release` closes a file
  cases call with
  | getattr path => exact answered_getattr path
  | truncate path size => exact answered_truncate path size
  | readdir path => exact answered_readdir path
  | openFile path trunc => exact answered_open path trunc
  | create path => exact answered_create path
  | release fi => exact absurd rfl (hcall fi)
  | flush fi =>
    refine attends_fuseNode fun node _ => (attends_exfatFlushNode node).bind fun rc => ?_
    exact Attends.pure fun s hs => answered_ofRc rc hs
  | fsync => exact answered_fsync
  | read fi size offset => exact answered_read fi size offset
  | write fi data offset => exact answered_write fi data offset
  | unlink path => exact answered_remove removes_exfatUnlink path
  | rmdir path => exact answered_remove removes_exfatRmdir path
  | mknod path =>
    exact (attends_exfatMknod path).bind fun rc => Attends.pure fun s hs => answered_ofRc rc hs
  | mkdir path =>
    exact (attends_exfatMkdir path).bind fun rc => Attends.pure fun s hs => answered_ofRc rc hs
  | rename oldPath newPath =>
    exact (attends_exfatRename oldPath newPath).bind fun rc => Attends.pure fun s hs =>
      answered_ofRc rc hs
  | utimens path atime mtime => exact answered_utimens path atime mtime
  | chmod path mode =>
    exact Attends.ite (Attends.pure fun s hs => .idle hs rfl)
      (Attends.pure fun s hs => .idle hs rfl)
  | chown path uid gid =>
    refine Attends.look fun s => ?_
    exact Attends.ite (Attends.pure fun s hs => .idle hs rfl)
      (Attends.pure fun s hs => .idle hs rfl)
  | statfs path => exact Attends.look fun s => Attends.pure fun s hs => .idle hs rfl

/-- `release` drops the reference of the file, and forgets the file. -/
theorem attends_release (fi : FileInfo) :
    Attends files 0 (fuseExfatRelease (δ := δ) fi) fun _ s' => s'.Books (files.erase fi) 0 := by
  refine attends_fuseNode fun node hnode => (attends_exfatFlushNode node).bind fun _ => ?_
  refine (attends_put node).bind fun _ => fun s hs => ?_
  rw [wp_bind, wp_modify]
  exact hs.erase hnode

/-! ### Any number of requests -/

omit [Device δ] in
/-- Where the books are right the references are balanced. -/
theorem Fuse.Books.balanced {s : Fuse δ} (hs : s.Books files 0) : s.Balanced := by
  have hfiles := hs.files
  subst hfiles
  exact hs

/-- The step: a request leaves the books balanced. -/
theorem FuseCall.balanced (call : FuseCall) :
    Attends files 0 (call.run (δ := δ)) fun _ s' => s'.Balanced := by
  intro s hs
  by_cases hcall : ∃ fi, call = .release fi
  · obtain ⟨fi, rfl⟩ := hcall
    exact wp_conseq (attends_release fi s hs) fun _ _ h => h.balanced
  · refine wp_conseq (FuseCall.answered (fun fi heq => hcall ⟨fi, heq⟩) s hs) fun reply s' h => ?_
    obtain ⟨-, h⟩ | ⟨i, -, h⟩ := h
    · exact h.balanced
    · exact h.balanced

/-- What the front end comes to: it has mounted the volume `t₀`, and has answered requests since. -/
inductive Fuse.Session (t₀ : Volume δ) (options : FuseOptions) : Fuse δ → Prop
  | start {t : Volume δ} {s : Fuse δ} (hmount : exfatMount t₀ = .ok (.ok ()) t)
    (hinit : fuseExfatInit { fs := t, options := options } = .ok ⟨⟩ s) : Session t₀ options s
  | call {s s' : Fuse δ} {call : FuseCall} {reply : FuseReply} (h : Session t₀ options s)
    (hrun : call.run s = .ok reply s') : Session t₀ options s'

/-- The run. -/
theorem Fuse.Session.balanced {t₀ : Volume δ} {options : FuseOptions} {s : Fuse δ} (ht₀ : t₀.Vacant)
    (h : Fuse.Session t₀ options s) : s.Balanced := by
  induction h with
  | @start t s hmount hinit =>
    obtain ⟨hbounded, hrefs⟩ := wp_anyStop_iff.1 (exfatMount_refs ht₀) _ _ hmount
    have hsound : t.Sound False {t.root} :=
      wp_anyStop_iff.1 (exfatMount_sound ht₀) _ _ hmount rfl False.elim
    have hbooks : Fuse.Books (.empty : Table NodeId) 0 { fs := t, options := options } := by
      refine ⟨rfl, hbounded, fun i => ?_, hsound.mono fun i hi => ?_⟩
      · rw [hrefs, Pi.zero_apply, add_zero]
        simp [Fuse.held]
      · have hpos : 0 < t.refs i := hi
        rw [hrefs] at hpos
        exact one_pos_iff.1 hpos
    have hsoil : Attends (δ := δ) .empty 0 fuseExfatInit fun _ s' => s'.Books .empty 0 :=
      (attends_onVolume exfatSoilSuperBlock).bind fun _ => Attends.pure fun _ hs => hs
    exact (wp_anyStop_iff.1 (hsoil _ hbooks) _ _ hinit).balanced
  | call _ hrun ih => exact wp_anyStop_iff.1 (FuseCall.balanced _ _ ih) _ _ hrun

/-- More requests. -/
theorem Fuse.Session.calls {t₀ : Volume δ} {options : FuseOptions} {s s' : Fuse δ}
    (h : Fuse.Session t₀ options s) {calls : List FuseCall} {replies : List FuseReply}
    (hrun : runCalls calls s = .ok replies s') : Fuse.Session t₀ options s' := by
  induction calls generalizing s replies with
  | nil =>
    cases hrun
    exact h
  | cons call calls ih =>
    obtain ⟨reply, s₁, hcall, hrest⟩ := run_bind_eq_ok.1 hrun
    obtain ⟨replies, s₂, hrest, hlast⟩ := run_bind_eq_ok.1 hrest
    cases hlast
    exact ih (h.call hcall) hrest

omit [Device δ] in
/-- A node that is referred to is in memory. -/
theorem exists_of_refs {t : Volume δ} {i : NodeId} (hi : 0 < t.refs i) :
    ∃ n, t.heap i = some n ∧ 0 < n.references := by
  unfold Volume.refs at hi
  cases hn : t.heap i with
  | none => simp [hn] at hi
  | some n => exact ⟨n, rfl, by simpa [hn] using hi⟩

omit [Device δ] in
/-- The node of an open file is in memory. -/
theorem Fuse.Balanced.exists_node {s : Fuse δ} (hs : s.Balanced) {fi : FileInfo} {i : NodeId}
    (hi : s.files.get? fi = some i) : ∃ n, s.fs.heap i = some n ∧ 0 < n.references := by
  refine exists_of_refs ?_
  have hmem := s.files.mem_of_get? hi
  have hcount : 0 < s.files.count fun j => j == i :=
    List.countP_pos_iff.2 ⟨_, hmem, by simp⟩
  have hone : 0 ≤ one s.fs.root i := by
    unfold one
    split <;> omega
  rw [hs.refs, Pi.zero_apply, add_zero]
  unfold Fuse.held
  omega

/-- After any number of requests the references to a node are those of the files that are open on
it, and the one of the mount to the root; the nodes of open files are in memory; and the pointers
form a tree. -/
theorem Fuse.Session.references_accounted {t₀ : Volume δ} {options : FuseOptions} {s : Fuse δ}
    (ht₀ : t₀.Vacant) (h : Fuse.Session t₀ options s) :
    (∀ i, s.fs.refs i = (s.files.count fun j => j == i) + if i = s.fs.root then 1 else 0) ∧
      (∀ fi i, s.files.get? fi = some i → ∃ n, s.fs.heap i = some n ∧ 0 < n.references) ∧
      s.fs.IsTree := by
  have hs := h.balanced ht₀
  refine ⟨fun i => ?_, fun fi i hi => hs.exists_node hi, hs.tree.treeOf⟩
  rw [hs.refs, Pi.zero_apply, add_zero]
  rfl

/-- The card is mounted for the user 0. -/
def cardOptions : FuseOptions := { uid := 0, gid := 0, dmask := 0, fmask := 0, fuse3 := true }

/-- A session on the card that ends in a state with the property `p`. -/
theorem session_card {calls : List FuseCall} {p : Fuse Flat → Bool}
    (h : returns (fun rc t => decide (rc = .ok ()) &&
      returns (fun _ s => returns (fun _ s' => p s') (runCalls calls s))
      (fuseExfatInit { fs := t, options := cardOptions })) (mountRoot cardVolumeBooted) = true) :
    ∃ s, Fuse.Session cardVolume cardOptions s ∧ p s = true := by
  obtain ⟨rc, t, hroot, htest⟩ := of_returns h
  obtain ⟨hrc, hinit⟩ := (Bool.and_eq_true_iff ..).1 htest
  obtain rfl := of_decide_eq_true hrc
  obtain ⟨_, s, hinit, hcalls⟩ := of_returns hinit
  obtain ⟨replies, s', hcalls, hp⟩ := of_returns hcalls
  have hmount : exfatMount cardVolume = .ok (.ok ()) t :=
    (run_exfatMount (fun _ => rfl) bootable_cardStore).trans hroot
  exact ⟨s', (Fuse.Session.start hmount hinit).calls hcalls, hp⟩

/-- A file is created and kept open, and a directory is made. -/
theorem accounted_card :
    ∃ s, cardVolume.Vacant ∧ Fuse.Session cardVolume cardOptions s ∧ s.files.get? 1 = some 1 ∧
      (∀ i, s.fs.refs i = (s.files.count fun j => j == i) + if i = s.fs.root then 1 else 0) ∧
      (∀ fi i, s.files.get? fi = some i → ∃ n, s.fs.heap i = some n ∧ 0 < n.references) ∧
      s.fs.IsTree := by
  have htest : returns (fun rc t => decide (rc = .ok ()) && returns (fun _ s => returns
      (fun _ s' => decide (s'.files.get? 1 = some 1))
      (runCalls [.create [0x2f, 0x41], .mkdir [0x2f, 0x44]] s))
      (fuseExfatInit { fs := t, options := cardOptions })) (mountRoot cardVolumeBooted) = true := by
    decide +kernel
  obtain ⟨s, h, hfile⟩ := session_card htest
  exact ⟨s, fun _ => rfl, h, of_decide_eq_true hfile, h.references_accounted fun _ => rfl⟩

/-! ### Open files -/

/-- Only `release` of a file ends it. -/
theorem FuseCall.keeps_file {call : FuseCall} {fi : FileInfo} {i : NodeId}
    (hcall : call ≠ .release fi) (hi : files.get? fi = some i) :
    Attends files 0 (call.run (δ := δ)) fun _ s' => s'.Balanced ∧ s'.files.get? fi = some i := by
  intro s hs
  by_cases hrelease : ∃ other, call = .release other
  · obtain ⟨other, rfl⟩ := hrelease
    refine wp_conseq (attends_release other s hs) fun _ s' h => ⟨h.balanced, ?_⟩
    have hne : fi ≠ other := fun heq => hcall (congrArg FuseCall.release heq.symm)
    rw [h.files, Table.get?_erase_of_ne _ hne]
    exact hi
  · refine wp_conseq (FuseCall.answered (fun fi heq => hrelease ⟨fi, heq⟩) s hs)
      fun reply s' h => ?_
    obtain ⟨-, h⟩ | ⟨j, -, h⟩ := h
    · exact ⟨h.balanced, h.files.symm ▸ hi⟩
    · refine ⟨h.balanced, ?_⟩
      rw [h.files, Table.get?_insert _ _ (files.lt_next hi)]
      exact hi

/-- An open file stays on its node, and the node in memory, until `release` of the file, whatever
other requests come in between. -/
theorem Fuse.Session.keeps_open {t₀ : Volume δ} {options : FuseOptions} {s s' : Fuse δ}
    (ht₀ : t₀.Vacant) (h : Fuse.Session t₀ options s) {fi : FileInfo} {i : NodeId}
    (hi : s.files.get? fi = some i) {calls : List FuseCall} {replies : List FuseReply}
    (hcalls : .release fi ∉ calls) (hrun : runCalls calls s = .ok replies s') :
    s'.files.get? fi = some i ∧ ∃ n, s'.fs.heap i = some n ∧ 0 < n.references := by
  have hs := h.balanced ht₀
  clear h
  -- the state changes from call to call
  induction calls generalizing s replies with
  | nil =>
    cases hrun
    exact ⟨hi, hs.exists_node hi⟩
  | cons call calls ih =>
    rw [List.mem_cons, not_or] at hcalls
    obtain ⟨reply, s₁, hcall, hrest⟩ := run_bind_eq_ok.1 hrun
    obtain ⟨replies, s₂, hrest, hlast⟩ := run_bind_eq_ok.1 hrest
    cases hlast
    obtain ⟨hs₁, hi₁⟩ := wp_anyStop_iff.1 (FuseCall.keeps_file (Ne.symm hcalls.1) hi s hs) _ _ hcall
    exact ih hi₁ hcalls.2 hrest hs₁

/-- The file is written to and read, and another one is made and removed. -/
theorem keeps_open_card :
    ∃ s s' replies, cardVolume.Vacant ∧ Fuse.Session cardVolume cardOptions s ∧
      s.files.get? 1 = some 1 ∧
      runCalls [.write 1 [0x58] 0, .mknod [0x2f, 0x42], .unlink [0x2f, 0x42], .read 1 4 0] s =
      .ok replies s' ∧
      s'.files.get? 1 = some 1 ∧ ∃ n, s'.fs.heap 1 = some n ∧ 0 < n.references := by
  have htest : returns (fun rc t => decide (rc = .ok ()) && returns (fun _ s => returns
      (fun _ s' => decide (s'.files.get? 1 = some 1) && returns (fun _ _ => true)
        (runCalls [.write 1 [0x58] 0, .mknod [0x2f, 0x42], .unlink [0x2f, 0x42], .read 1 4 0] s'))
      (runCalls [.create [0x2f, 0x41]] s)) (fuseExfatInit { fs := t, options := cardOptions }))
      (mountRoot cardVolumeBooted) = true := by
    decide +kernel
  obtain ⟨s, h, htest⟩ := session_card htest
  obtain ⟨hfile, hrun⟩ := (Bool.and_eq_true_iff ..).1 htest
  have hfile : s.files.get? 1 = some 1 := of_decide_eq_true hfile
  obtain ⟨replies, s', hrun, -⟩ := of_returns hrun
  exact ⟨s, s', replies, fun _ => rfl, h, hfile, hrun,
    h.keeps_open (fun _ => rfl) hfile (by simp) hrun⟩

/-! ### Removing -/

/-- A node that has been taken out of its directory is freed. -/
theorem wp_exfatCleanupNode_unlinked {i : NodeId} {t : Volume δ} {k : Kin} (hk : t.kin i = some k)
    (hu : k.isUnlinked = true) :
    wp (exfatCleanupNode i) (fun _ t' => t'.heap i = none) anyStop t := by
  unfold exfatCleanupNode
  rw [wp_bind]
  refine wp_getNode trivial fun n hn => ?_
  cases (Volume.kin_of_heap hn).symm.trans hk
  split
  · exact trivial
  · rw [if_pos (show n.isUnlinked = true from hu)]
    refine wp_after fun rc t₁ => ?_
    rw [wp_bind]
    exact Function.update_self i none t₁.heap

/-- `delete` marks the node. -/
theorem Volume.Unlinks.marked {t t' : Volume δ} {i : NodeId} (h : t.Unlinks i (.ok ()) t') :
    ∃ k, t'.kin i = some k ∧ k.isUnlinked = true := by
  obtain ⟨t₁, -, -, hdel, -⟩ := h.deleted
  cases hdel with
  | @removed k m p _ hi hp hm h =>
    rw [h.kin]
    unfold removed assigned detached
    rw [hi]
    simp

/-- `unlink` and `rmdir` succeed only on what nobody has open, and free the node.  When somebody has
it open they do not return: `exfat_cleanup_node` stops at the reference. -/
theorem wp_fuseExfatRemove {remove : NodeId → TreeM δ Rc} (h : Removes remove) (path : List UInt8)
    {s : Fuse δ} (hs : s.Books files 0) :
    wp (fuseExfatRemove remove path) (fun reply s' => reply.rc = .ok 0 →
      ∃ i t, exfatLookup path s.fs = .ok (.ok i) t ∧ (∀ fi, files.get? fi ≠ some i) ∧
      s'.fs.heap i = none)
      anyStop s := by
  unfold fuseExfatRemove withPath
  rw [wp_bind]
  refine wp_conseq (wp_run (attends_exfatLookup path s hs)) ?_
  rintro r s₁ ⟨hrun, hs₁⟩
  -- the path leads nowhere, or to a node that the lookup has taken
  cases r with
  | error e => exact fun hrc => by cases hrc
  | ok i =>
    have hlookup : exfatLookup path s.fs = .ok (.ok i) s₁.fs := by
      unfold inVolume zoom at hrun
      cases hm : exfatLookup path s.fs with
      | ok r t =>
        rw [hm] at hrun
        cases hrun
        rfl
      | error e t =>
        rw [hm] at hrun
        cases hrun
    rw [show (0 : Delta) + taken (.ok i : Except Errno NodeId) = one i from zero_add _] at hs₁
    -- the request refers to the node
    have hmem : i ∈ s₁.fs.referred := hs₁.mem_referred (one_pos_iff.2 rfl)
    have hunlinks : wp (inVolume (remove i)) (fun r s₂ => s₁.fs.Unlinks i r s₂.fs) anyStop s₁ := by
      unfold inVolume
      rw [wp_zoom]
      exact h.unlinks i s₁.fs hs₁.tree.linked (hs₁.tree.readable hmem)
    dsimp only
    rw [wp_bind]
    refine wp_mono (wp_and (h.attends i s₁ hs₁) hunlinks) ?_ (fun _ _ _ => trivial)
    rintro rc s₂ ⟨hs₂, hun⟩
    have hput : wp (inVolume (exfatPutNode i)) (fun _ s₃ => s₂.fs.SameKin s₃.fs) anyStop s₂ := by
      unfold inVolume
      rw [wp_zoom]
      exact wp_mono (kin_exfatPutNode i s₂.fs) (fun _ _ h => h) (fun _ _ _ => trivial)
    rw [wp_bind]
    refine wp_mono (wp_and (attends_drop i s₂ hs₂) hput) ?_ (fun _ _ _ => trivial)
    rintro _ s₃ ⟨hs₃, hkin⟩
    -- the operation has failed, or the entries of the node are gone
    cases rc with
    | error e => exact fun hrc => by cases hrc
    | ok _ =>
      obtain ⟨k, hk, hu⟩ := hun.marked
      have hview : s₃.fs.kin = s₂.fs.kin := hkin.view
      have hfree := wp_exfatCleanupNode_unlinked (t := s₃.fs) (hview ▸ hk) hu
      dsimp only
      rw [wp_bind]
      unfold inVolume
      rw [wp_zoom]
      -- somebody else has the node open, or nobody does
      by_cases hrefs : 0 < s₃.fs.refs i
      · exact wp_conseq (wp_exfatCleanupNode_refs hrefs) fun _ _ hf => hf.elim
      · refine wp_conseq hfree fun rc t' hnone _ => ⟨i, s₁.fs, hlookup, fun fi hfi => ?_, hnone⟩
        rw [← hs₃.files] at hfi
        obtain ⟨n, hn, hpos⟩ := hs₃.balanced.exists_node hfi
        unfold Volume.refs at hrefs
        rw [hn] at hrefs
        exact hrefs hpos

/-- In any run, what `unlink` or `rmdir` has removed was open for nobody, and its node has been
freed. -/
theorem Fuse.Session.removes_closed {t₀ : Volume δ} {options : FuseOptions} {s s' : Fuse δ}
    (ht₀ : t₀.Vacant) (h : Fuse.Session t₀ options s) {call : FuseCall} {path : List UInt8}
    {reply : FuseReply} (hcall : call = .unlink path ∨ call = .rmdir path)
    (hrun : call.run s = .ok reply s') (hrc : reply.rc = .ok 0) :
    ∃ i t, exfatLookup path s.fs = .ok (.ok i) t ∧ (∀ fi, s.files.get? fi ≠ some i) ∧
      s'.fs.heap i = none := by
  have hs := h.balanced ht₀
  obtain rfl | rfl := hcall
  · exact wp_anyStop_iff.1 (wp_fuseExfatRemove removes_exfatUnlink path hs) _ _ hrun hrc
  · exact wp_anyStop_iff.1 (wp_fuseExfatRemove removes_exfatRmdir path hs) _ _ hrun hrc

/-- A file is made and removed. -/
theorem removes_closed_card :
    ∃ s s' reply, cardVolume.Vacant ∧ Fuse.Session cardVolume cardOptions s ∧
      FuseCall.run (.unlink [0x2f, 0x41]) s = .ok reply s' ∧ reply.rc = .ok 0 ∧
      ∃ i t, exfatLookup [0x2f, 0x41] s.fs = .ok (.ok i) t ∧ (∀ fi, s.files.get? fi ≠ some i) ∧
      s'.fs.heap i = none := by
  have htest : returns (fun rc t => decide (rc = .ok ()) && returns (fun _ s => returns
      (fun _ s' => returns (fun reply _ => decide (reply.rc = .ok 0))
        (FuseCall.run (.unlink [0x2f, 0x41]) s'))
      (runCalls [.mknod [0x2f, 0x41]] s)) (fuseExfatInit { fs := t, options := cardOptions }))
      (mountRoot cardVolumeBooted) = true := by
    decide +kernel
  obtain ⟨s, h, htest⟩ := session_card htest
  obtain ⟨reply, s', hrun, hrc⟩ := of_returns htest
  have hrc : reply.rc = .ok 0 := of_decide_eq_true hrc
  exact ⟨s, s', reply, fun _ => rfl, h, hrun, hrc,
    h.removes_closed (fun _ => rfl) (.inl rfl) hrun hrc⟩

end ExFat
