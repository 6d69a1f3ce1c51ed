import ExFat.Amiga.Ledger

namespace ExFat

open Program

/-!
# Every packet keeps the books

One lemma for each packet that needs the medium: on each of its paths, refused requests included, it
drops the references it has taken or leaves them to a lock or a file.
-/

variable {δ : Type} {α : Type} {φ : Frame} {x : Delta}

/-- A packet that begins and ends without references of its own. -/
def Balanced (φ : Frame) (m : HandlerM δ PacketReply) : Prop := Serves φ m 0 fun _ => 0

/-- `refuse` begins and ends without references of its own. -/
theorem balanced_refuse (e : DosError) : Balanced φ (refuse (δ := δ) e) := serves_refuse e

/-- `answer` begins and ends without references of its own. -/
theorem balanced_answer (res1 : Int) (res2 : Option DosError) :
    Balanced φ (answer (δ := δ) res1 res2) := serves_answer res1 res2

/-- Let go of a node and answer. -/
theorem serves_put_reply (i : NodeId) {m : HandlerM δ PacketReply} (hm : Balanced φ m) :
    Serves φ (do
      useFs (exfatPutNode i)
      m) (one i) fun _ => 0 :=
  Serves.bind (serves_put i) fun _ => hm.congr (sub_self _).symm

/-- The reference goes into the lock. -/
theorem serves_giveLock_one (hidle : φ.idle = false) (i : NodeId) (access : Access) :
    Serves φ (giveLock (δ := δ) i access) (one i) fun _ => 0 :=
  (serves_giveLock (x := 0) hidle i access).congr (zero_add _)

/-- The reference goes into the file. -/
theorem serves_giveFile_one (hidle : φ.idle = false) (i : NodeId) (writable : Bool) :
    Serves φ (giveFile (δ := δ) i writable) (one i) fun _ => 0 :=
  (serves_giveFile (x := 0) hidle i writable).congr (zero_add _)

/-- `exfat_get_node` returns a reference. -/
theorem serves_get_one (i : NodeId) :
    Serves φ (useFs (exfatGetNode (δ := δ) i)) 0 fun _ => one i := by
  simpa only [zero_add] using serves_get (δ := δ) (φ := φ) (x := 0) i

/-- `resolve` returns no reference. -/
theorem serves_resolve (lock : Option LockId) (name : Bstr) :
    Serves φ (resolve (δ := δ) lock name) x fun _ => x :=
  serves_lockAt lock (serves_useFs_links (links_of_same (same_resolvePath _ _)))
    fun _ _ => serves_useFs_links (links_of_same (same_resolvePath _ _))

section Device

variable [Device δ]

/-- A lookup holds the node it finds. -/
theorem serves_lookup (path : List UInt8) :
    Serves φ (useFs (exfatLookup (δ := δ) path)) 0 taken := by
  simpa only [zero_add] using serves_useFs (φ := φ) (x := 0) (refs_exfatLookup (δ := δ) path)

/-! ### Locks -/

/-- `do_locate_object` begins and ends without references of its own. -/
theorem balanced_doLocateObject (hidle : φ.idle = false) (lock : Option LockId) (name : Bstr) :
    Balanced φ (doLocateObject (δ := δ) lock name) := by
  refine Serves.bind (serves_resolve lock name) fun path => ?_
  cases path with
  | none => exact balanced_refuse _
  | some path =>
    refine Serves.bind (serves_lookup path) fun r => ?_
    cases r with
    | error e => exact balanced_refuse _
    | ok i => exact serves_giveLock_one hidle i _

omit [Device δ] in
/-- `do_copy_dir` begins and ends without references of its own. -/
theorem balanced_doCopyDir (hidle : φ.idle = false) (lock : Option LockId) :
    Balanced φ (doCopyDir (δ := δ) lock) := by
  have hgive : ∀ l, Serves φ (do
      let i ← lockNode (δ := δ) l
      useFs (exfatGetNode i)
      giveLock i .shared) 0 fun _ => 0 := fun l =>
    Serves.bind (serves_lockNode l) fun i =>
      Serves.bind (serves_get_one i) fun _ => serves_giveLock_one hidle i _
  exact serves_lockAt lock (hgive none) fun _ l => hgive (some l)

omit [Device δ] in
/-- `do_lock_from_fh` begins and ends without references of its own. -/
theorem balanced_doLockFromFh (file : Option FileId) (wantParent : Bool) :
    Balanced φ (doLockFromFh (δ := δ) file wantParent) := by
  refine serves_fileAt file (balanced_refuse _) fun hidle file => ?_
  have hgive : ∀ i, Serves φ (do
      useFs (exfatGetNode (δ := δ) i)
      giveLock i .shared) 0 fun _ => 0 := fun i =>
    Serves.bind (serves_get_one i) fun _ => serves_giveLock_one hidle i _
  cases wantParent with
  | false => exact Serves.bind (Serves.pure rfl) hgive
  | true =>
    refine Serves.bind (serves_useFs_links ?_) hgive
    exact keeps_bind (links_getNode _) fun _ => keeps_look fun _ => keeps_pure _

omit [Device δ] in
/-- `do_parent` begins and ends without references of its own. -/
theorem balanced_doParent (lock : Option LockId) : Balanced φ (doParent (δ := δ) lock) := by
  refine serves_lockAt lock (balanced_answer _ _) fun hidle src => ?_
  refine Serves.bind (serves_useFs_links ?_) fun parent => ?_
  · refine keeps_look fun t => keeps_ite (keeps_pure _) ?_
    exact keeps_bind (links_getNode _) fun _ => keeps_pure _
  · cases parent with
    | none => exact balanced_answer _ _
    | some p => exact Serves.bind (serves_get_one p) fun _ => serves_giveLock_one hidle p _

omit [Device δ] in
/-- `doSameLock` begins and ends without references of its own. -/
theorem balanced_doSameLock (a b : Option LockId) : Balanced φ (doSameLock (δ := δ) a b) := by
  have hcompare : ∀ la lb, Serves φ (do
      let na ← lockNode (δ := δ) la
      let nb ← lockNode lb
      answer (if na = nb then dosTrue else dosFalse) none) 0 fun _ => 0 := fun la lb =>
    Serves.bind (serves_lockNode la) fun _ => Serves.bind (serves_lockNode lb) fun _ =>
      balanced_answer _ _
  have hb : ∀ la, Serves φ (do
      let na ← lockNode (δ := δ) la
      let lb ← lockAt b
      let nb ← lockNode lb
      answer (if na = nb then dosTrue else dosFalse) none) 0 fun _ => 0 := fun la =>
    Serves.bind (serves_lockNode la) fun _ =>
      serves_lockAt b (Serves.bind (serves_lockNode _) fun _ => balanced_answer _ _)
        fun _ _ => Serves.bind (serves_lockNode _) fun _ => balanced_answer _ _
  exact serves_lockAt a (hb none) fun _ l => hb (some l)

omit [Device δ] in
/-- `do_examine_object` begins and ends without references of its own. -/
theorem balanced_doExamineObject (lock : Option LockId) :
    Balanced φ (doExamineObject (δ := δ) lock) := by
  have hfill : ∀ l, Serves φ (do
      let i ← lockNode (δ := δ) l
      let fib ← useFs do
        let t ← get
        fillFib i 0 (i = t.root)
      setScan lock none (-1)
      pure { res1 := dosTrue, fib := some fib }) 0 fun _ : PacketReply => 0 := fun l =>
    Serves.bind (serves_lockNode l) fun i =>
      Serves.bind (serves_useFs_links (keeps_look fun _ => links_fillFib _ _ _)) fun _ =>
        Serves.bind (serves_setScan _ _ _) fun _ => Serves.pure rfl
  exact serves_lockAt lock (hfill none) fun _ l => hfill (some l)

omit [Device δ] in
/-- `do_examine_fh` begins and ends without references of its own. -/
theorem balanced_doExamineFh (file : Option FileId) (fib : Bool) :
    Balanced φ (doExamineFh (δ := δ) file fib) := by
  refine serves_fileAt file (balanced_refuse _) fun _ file => ?_
  refine Serves.ite (balanced_refuse _) ?_
  exact Serves.bind (serves_useFs_links (links_fillFib _ _ _)) fun _ => Serves.pure rfl

/-! ### Scans -/

omit [Device δ] in
/-- The references to the directory and to the child are given back. -/
theorem serves_examineFound (lock : Option LockId) (dir i : NodeId) (want : Int) :
    Serves φ (examineFound (δ := δ) lock dir i want) (one dir + one i) fun _ => 0 := by
  refine Serves.bind (serves_useFs_links (links_fillFib _ _ _)) fun fib => ?_
  refine Serves.bind (serves_useFs_links (links_nextSibling _)) fun next => ?_
  refine Serves.bind (serves_setScan _ _ _) fun _ => ?_
  have hboth : Refs (δ := δ) (do
      exfatPutNode i
      exfatPutNode dir) fun _ => -one i - one dir := by
    refine Refs.bind (refs_exfatPutNode i) fun _ => (refs_exfatPutNode dir).congr fun _ => ?_
    abel
  refine Serves.bind (serves_useFs hboth) fun _ => Serves.pure ?_
  abel

/-- `examineCounting` begins and ends without references of its own. -/
theorem balanced_examineCounting (lock : Option LockId) (dir : NodeId) (want : Int) :
    Balanced φ (examineCounting (δ := δ) lock dir want) := by
  refine Serves.bind (serves_useFs (refs_exfatOpendir dir)) fun r => ?_
  cases r with
  | error e => exact (balanced_refuse _).congr (add_zero _).symm
  | ok _ =>
    have hcount : Refs (δ := δ) (do
        let d ← getNode dir
        countTo want 0 d.child) fun r => r.elim 0 one :=
      Refs.skip_links (links_getNode dir) fun d => refs_countTo _ _ _
    refine Serves.bind (serves_useFs hcount) fun found => ?_
    cases found with
    | some i =>
      refine (serves_examineFound lock dir i want).congr ?_
      show one dir + one i = 0 + one dir + one i
      abel
    | none =>
      refine Serves.congr (x := one dir) ?_ ?_
      · refine serves_put_reply dir ?_
        exact Serves.bind (serves_setScan _ _ _) fun _ => balanced_refuse _
      · show one dir = 0 + one dir + 0
        abel

/-- `do_examine_next` begins and ends without references of its own. -/
theorem balanced_doExamineNext (lock : Option LockId) (want : Int) :
    Balanced φ (doExamineNext (δ := δ) lock want) := by
  refine serves_lockAt lock ?_ fun _ l => ?_
  -- a scan of the root and a scan of what is locked go on in the same way
  all_goals
    refine Serves.bind (serves_lockNode _) fun dir => ?_
    refine Serves.bind (serves_useFs_links (links_getNode dir)) fun d => ?_
    refine Serves.ite (balanced_refuse _) ?_
    split
    · refine Serves.bind (serves_useFs_links (links_fillFib _ _ _)) fun _ => ?_
      refine Serves.bind (serves_useFs_links (links_nextSibling _)) fun _ => ?_
      exact Serves.bind (serves_setScan _ _ _) fun _ => Serves.pure rfl
    · exact balanced_examineCounting lock dir want

/-! ### Files -/

/-- `openCreate` begins and ends without references of its own. -/
theorem balanced_openCreate (hidle : φ.idle = false) (path : List UInt8) :
    Balanced φ (openCreate (δ := δ) path) := by
  refine Serves.bind (serves_useFs_zero (refs_create path _)) fun r => ?_
  cases r with
  | error e => exact balanced_refuse _
  | ok _ =>
    refine Serves.bind (serves_lookup path) fun r => ?_
    cases r with
    | error e => exact balanced_refuse _
    | ok i => exact serves_giveFile_one hidle i _

/-- The reference goes into the file, or is given back. -/
theorem serves_openExisting (hidle : φ.idle = false) (mode : OpenMode) (i : NodeId) :
    Serves φ (openExisting (δ := δ) mode i) (one i) fun _ => 0 := by
  refine Serves.bind (serves_useFs_links (links_getNode i)) fun n => ?_
  refine Serves.ite (serves_put_reply i (balanced_refuse _))
    (Serves.ite ?_ (serves_giveFile_one hidle i _))
  refine Serves.bind (serves_useFs_links (links_onNode i (keeps_exfatTruncate _ _))) fun r => ?_
  cases r with
  | error e =>
    refine Serves.bind (serves_useFs_links (links_exfatFlushNode i)) fun _ => ?_
    exact serves_put_reply i (balanced_refuse _)
  | ok _ => exact serves_giveFile_one hidle i _

/-- Whether `do_open` can get as far as opening a file. -/
def OpenMode.allowed (mode : OpenMode) (ro : Bool) : Bool := mode = .old || !ro

/-- `do_open` begins and ends without references of its own. -/
theorem balanced_doOpen {mode : OpenMode} {fh : Bool} (hidle : φ.idle = false)
    (lock : Option LockId) (name : Bstr) : Balanced φ (doOpen (δ := δ) mode fh lock name) := by
  refine Serves.ite (balanced_refuse _) (Serves.bind (serves_resolve lock name) fun path => ?_)
  cases path with
  | none => exact balanced_refuse _
  | some path =>
    refine Serves.look fun h => Serves.ite (balanced_refuse _) ?_
    refine Serves.bind (serves_lookup path) fun r => ?_
    cases r with
    | error e => exact Serves.ite (balanced_refuse _) (balanced_openCreate hidle path)
    | ok i => exact serves_openExisting hidle mode i

omit [Device δ] in
/-- `do_fh_from_lock` begins and ends without references of its own. -/
theorem balanced_doFhFromLock (fh : Bool) (lock : Option LockId) :
    Balanced φ (doFhFromLock (δ := δ) fh lock) := by
  refine serves_lockAt lock (balanced_refuse _) fun hidle l => Serves.ite (balanced_refuse _) ?_
  refine Serves.bind (serves_useFs_links (links_getNode l.node)) fun n => ?_
  refine Serves.ite (balanced_refuse _) (Serves.bind (serves_ask _) fun ok => ?_)
  refine Serves.ite (balanced_refuse _) (Serves.bind (serves_get l.node) fun _ => ?_)
  refine Serves.bind (serves_exfatAmigaFreelock lock) fun _ => ?_
  exact serves_insertFile hidle l.node _ rfl fun f => { res1 := dosTrue, fhArg1 := some f }

omit [Device δ] in
/-- libexfat does not touch the open files. -/
theorem wp_useFs_files {m : TreeM δ α} (hm : Refs m 0) {h : Handler δ} (hb : h.Books φ x) :
    wp (useFs m) (fun _ h' => h'.Books φ x ∧ h'.files = h.files) (fun _ h' => h'.Sane) h := by
  have hfiles : wp (useFs m) (fun _ h' => h'.files = h.files) anyStop h := by
    unfold useFs note onFs
    rw [wp_bind, wp_get, wp_bind, wp_modify, wp_zoom]
    exact wp_of_forall (fun _ _ => rfl) fun _ _ => trivial
  exact wp_mono (wp_and (serves_useFs_zero hm h hb) hfiles) (fun _ _ h => h) (fun _ _ h => h.1)

omit [Device δ] in
/-- Closing a file drops the reference of its node. -/
theorem serves_closeFile {f : FileId} {file : ExfatFile} {h : Handler δ} (hb : h.Books φ x)
    (hf : h.files.get? f = some file) :
    wp (do
      useFs (exfatPutNode file.node)
      modify fun h : Handler δ => { h with files := h.files.erase f, nfiles := h.nfiles - 1 })
      (fun _ h' => h'.Books φ x) (fun _ h' => h'.Sane) h := by
  have hput := serves_put file.node h hb
  unfold useFs note onFs at hput ⊢
  simp only [wp_bind, wp_get, wp_modify, wp_zoom] at hput ⊢
  refine wp_mono hput ?_ (fun _ _ hs => hs)
  intro _ t' hb'
  have hsize := h.files.size_erase hf
  refine ⟨hb'.mounted, hb'.quit, hb'.inhibited, fun hi => ?_, hb'.nlocks, ?_,
    hb'.listed, hb'.bounded,
    fun j => ?_, hb'.sound⟩
  · exact absurd (hb.idle hi).2 (by omega)
  · show h.nfiles - 1 = (h.files.erase f).size
    rw [hb.nfiles]
    omega
  -- the node of the file loses one holder, the others none
  · have hcount := h.files.count_erase (fun f => f.node == j) hf
    have hrefs := hb'.refs j
    unfold Handler.held one at hrefs ⊢
    dsimp only at hrefs ⊢
    rw [hrefs, ← hcount, Pi.sub_apply]
    by_cases hj : j = file.node
    · subst hj
      simp
      ring
    · have hne : (file.node == j) = false := beq_false_of_ne (Ne.symm hj)
      simp [hne, hj]

/-- `do_end` begins and ends without references of its own. -/
theorem balanced_doEnd (file : Option FileId) : Balanced φ (doEnd (δ := δ) file) := by
  cases file with
  | none => exact balanced_answer _ _
  | some f =>
    intro h hb
    unfold doEnd
    dsimp only
    rw [wp_bind]
    unfold fileAt
    rw [wp_bind, wp_get]
    cases hf : h.files.get? f with
    | none => exact hb.sane
    | some file =>
      rw [wp_pure]
      dsimp only
      rw [wp_bind, wp_get]
      refine wp_ite_bind (P := fun _ h' => h'.Books φ 0 ∧ h'.files = h.files) ?_ ?_
      · split
        · exact wp_useFs_files (Refs.of_links (links_exfatFlushNode _)) hb
        · exact ⟨hb, rfl⟩
      rintro rc h' ⟨hb', hfiles⟩
      have hrun := serves_closeFile hb' (hfiles ▸ hf)
      rw [wp_bind] at hrun ⊢
      refine wp_conseq hrun fun _ h₁ h₂ => ?_
      rw [wp_bind]
      refine wp_conseq h₂ fun _ h₃ hb₃ => ?_
      cases rc with
      | error e => exact hb₃
      | ok _ => exact hb₃

/-- `do_read` begins and ends without references of its own. -/
theorem balanced_doRead (f : Option FileId) (length : Int) :
    Balanced φ (doRead (δ := δ) f length) := by
  refine serves_fileAt f (balanced_answer _ _) fun _ file => Serves.ite (balanced_answer _ _) ?_
  refine Serves.ite (balanced_answer _ _) ?_
  refine Serves.bind (serves_useFs_links (links_onNode _ (keeps_exfatGenericPread _ _))) fun r => ?_
  cases r with
  | error e => exact balanced_answer _ _
  | ok r => exact Serves.bind (serves_setPos _ _) fun _ => Serves.pure rfl

/-- `do_write` begins and ends without references of its own. -/
theorem balanced_doWrite (f : Option FileId) (buffer : Nat → UInt8) (length : Int) :
    Balanced φ (doWrite (δ := δ) f buffer length) := by
  refine serves_fileAt f (balanced_answer _ _) fun _ file => Serves.look fun h => ?_
  refine Serves.ite (balanced_answer _ _) (Serves.ite (balanced_answer _ _) ?_)
  refine Serves.ite (balanced_answer _ _) ?_
  refine Serves.bind (serves_useFs_links (links_onNode _ (keeps_exfatGenericPwrite _ _)))
    fun r => ?_
  cases r with
  | error e => exact balanced_answer _ _
  | ok n => exact Serves.bind (serves_setPos _ _) fun _ => balanced_answer _ _

/-- `do_set_file_size` begins and ends without references of its own. -/
theorem balanced_doSetFileSize (f : Option FileId) (offset mode : Int) :
    Balanced φ (doSetFileSize (δ := δ) f offset mode) := by
  refine serves_fileAt f (balanced_answer _ _) fun _ file => Serves.look fun h => ?_
  refine Serves.ite (balanced_answer _ _) ?_
  refine Serves.bind (serves_useFs_links (links_getNode _)) fun n => ?_
  cases resolveOffset offset mode file.pos n.size with
  | none => exact balanced_answer _ _
  | some newsize =>
    refine Serves.ite (balanced_answer _ _) ?_
    refine Serves.bind (serves_useFs_links (links_onNode _ (keeps_exfatTruncate _ _))) fun r => ?_
    cases r with
    | error e => exact balanced_answer _ _
    | ok _ => exact Serves.bind (serves_setPos _ _) fun _ => balanced_answer _ _

omit [Device δ] in
/-- `do_seek` begins and ends without references of its own. -/
theorem balanced_doSeek (f : Option FileId) (offset mode : Int) :
    Balanced φ (doSeek (δ := δ) f offset mode) := by
  refine serves_fileAt f (balanced_answer _ _) fun _ file => ?_
  refine Serves.bind (serves_useFs_links (links_getNode _)) fun n => ?_
  cases resolveOffset offset mode file.pos n.size with
  | none => exact balanced_answer _ _
  | some newpos =>
    refine Serves.ite (balanced_answer _ _) ?_
    exact Serves.bind (serves_setPos _ _) fun _ => balanced_answer _ _

/-! ### Attributes -/

/-- What a lookup of a packet holds. -/
theorem serves_lookupArg23 (lock : Option LockId) (name : Bstr) :
    Serves φ (lookupArg23 (δ := δ) lock name) 0 taken := by
  refine Serves.bind (serves_resolve lock name) fun path => ?_
  cases path with
  | none => exact Serves.pure rfl
  | some path =>
    refine Serves.bind (serves_lookup path) fun r => ?_
    cases r with
    | error e => exact Serves.pure rfl
    | ok i => exact Serves.pure rfl

/-- The reference is given back. -/
theorem serves_flushAndPut (i : NodeId) : Serves φ (flushAndPut (δ := δ) i) (one i) fun _ => 0 := by
  refine Serves.bind (serves_useFs_links (links_exfatFlushNode i)) fun rc => ?_
  refine serves_put_reply i ?_
  cases rc with
  | error e => exact balanced_refuse _
  | ok _ => exact balanced_answer _ _

/-- `do_set_protect` begins and ends without references of its own. -/
theorem balanced_doSetProtect (lock : Option LockId) (name : Bstr) (bits : Nat) :
    Balanced φ (doSetProtect (δ := δ) lock name bits) := by
  refine Serves.look fun h => Serves.ite (balanced_refuse _) ?_
  refine Serves.bind (serves_lookupArg23 lock name) fun r => ?_
  cases r with
  | error e => exact balanced_refuse _
  | ok i =>
    refine Serves.bind (serves_useFs_links (links_getNode i)) fun n => Serves.ite ?_ ?_
    · exact serves_put_reply i (balanced_answer _ _)
    · refine Serves.bind (serves_useFs_links (links_updateNode i fun _ => rfl)) fun _ => ?_
      exact serves_flushAndPut i

/-- `do_set_date` begins and ends without references of its own. -/
theorem balanced_doSetDate (lock : Option LockId) (name : Bstr) (ds : Option DateStamp) :
    Balanced φ (doSetDate (δ := δ) lock name ds) := by
  refine Serves.look fun h => Serves.ite (balanced_refuse _) ?_
  cases ds with
  | none => exact balanced_refuse _
  | some ds =>
    refine Serves.bind (serves_lookupArg23 lock name) fun r => ?_
    cases r with
    | error e => exact balanced_refuse _
    | ok i =>
      refine Serves.bind (serves_useFs_links (links_updateNode i fun _ => rfl)) fun _ => ?_
      exact serves_flushAndPut i

/-- `do_set_comment` begins and ends without references of its own. -/
theorem balanced_doSetComment (lock : Option LockId) (name : Bstr) (comment : Option Bstr) :
    Balanced φ (doSetComment (δ := δ) lock name comment) := by
  refine Serves.look fun h => Serves.ite (balanced_refuse _) (Serves.ite (balanced_refuse _) ?_)
  refine Serves.bind (serves_lookupArg23 lock name) fun r => ?_
  cases r with
  | error e => exact balanced_refuse _
  | ok i => exact serves_put_reply i (balanced_answer _ _)

/-! ### Entries -/

/-- The reference is given back. -/
theorem serves_deleteNode (i : NodeId) : Serves φ (deleteNode (δ := δ) i) (one i) fun _ => 0 := by
  refine Serves.bind (serves_scanSkipNode i) fun _ => ?_
  refine Serves.bind (serves_useFs_links (links_getNode i)) fun n => ?_
  have hremove : Refs (if n.isDir then exfatRmdir (δ := δ) i else exfatUnlink i) 0 :=
    Refs.ite (refs_exfatRmdir i) (refs_exfatUnlink i)
  refine Serves.bind (serves_useFs_zero hremove) fun rc => serves_put_reply i ?_
  cases rc with
  | error e => exact balanced_refuse _
  | ok _ =>
    refine Serves.bind (serves_useFs_zero (refs_exfatCleanupNode i)) fun rc => ?_
    cases rc with
    | error e => exact balanced_refuse _
    | ok _ => exact balanced_answer _ _

/-- `do_delete_object` begins and ends without references of its own. -/
theorem balanced_doDeleteObject (lock : Option LockId) (name : Bstr) :
    Balanced φ (doDeleteObject (δ := δ) lock name) := by
  refine Serves.look fun h => Serves.ite (balanced_refuse _) ?_
  refine Serves.bind (serves_resolve lock name) fun path => ?_
  cases path with
  | none => exact balanced_refuse _
  | some path =>
    refine Serves.bind (serves_lookup path) fun r => ?_
    cases r with
    | error e => exact balanced_refuse _
    | ok i =>
      refine Serves.bind (serves_useFs_links (links_getNode i)) fun n => Serves.look fun h => ?_
      refine Serves.ite (serves_put_reply i (balanced_refuse _)) ?_
      exact Serves.ite (serves_put_reply i (balanced_refuse _)) (serves_deleteNode i)

/-- `do_create_dir` begins and ends without references of its own. -/
theorem balanced_doCreateDir (hidle : φ.idle = false) (lock : Option LockId) (name : Bstr) :
    Balanced φ (doCreateDir (δ := δ) lock name) := by
  refine Serves.look fun h => Serves.ite (balanced_refuse _) ?_
  refine Serves.bind (serves_resolve lock name) fun path => ?_
  cases path with
  | none => exact balanced_refuse _
  | some path =>
    refine Serves.bind (serves_useFs_zero (refs_exfatMkdir path)) fun r => ?_
    cases r with
    | error e => exact balanced_refuse _
    | ok _ =>
      refine Serves.bind (serves_lookup path) fun r => ?_
      cases r with
      | error e => exact balanced_refuse _
      | ok i => exact serves_giveLock_one hidle i _

/-- `do_rename_object` begins and ends without references of its own. -/
theorem balanced_doRenameObject (src : Option LockId) (srcName : Bstr) (dst : Option LockId)
    (dstName : Bstr) : Balanced φ (doRenameObject (δ := δ) src srcName dst dstName) := by
  refine Serves.look fun h => Serves.ite (balanced_refuse _) ?_
  refine Serves.bind (serves_resolve src srcName) fun srcPath => ?_
  cases srcPath with
  | none => exact balanced_refuse _
  | some srcPath =>
    refine Serves.bind (serves_resolve dst dstName) fun dstPath => ?_
    cases dstPath with
    | none => exact balanced_refuse _
    | some dstPath =>
      refine Serves.bind (serves_useFs_zero (refs_exfatRename _ _)) fun r => ?_
      cases r with
      | error e => exact balanced_refuse _
      | ok _ => exact Serves.bind serves_scanInvalidateAll fun _ => balanced_answer _ _

/-- `do_rename_disk` begins and ends without references of its own. -/
theorem balanced_doRenameDisk (name : Option Bstr) : Balanced φ (doRenameDisk (δ := δ) name) := by
  refine Serves.look fun h => Serves.ite (balanced_refuse _) ?_
  cases name with
  | none => exact balanced_refuse _
  | some name =>
    refine Serves.ite (balanced_refuse _) ?_
    refine Serves.bind (serves_useFs_links (links_exfatSetLabel _)) fun r => ?_
    cases r with
    | error e => exact balanced_refuse _
    | ok _ =>
      refine Serves.ite (Serves.bind (serves_ask _) fun ok => Serves.ite ?_ ?_)
        (balanced_answer _ _)
      · exact Serves.bind (serves_setVolume fun _ => rfl) fun _ => balanced_answer _ _
      · exact balanced_answer _ _

end Device

end ExFat
