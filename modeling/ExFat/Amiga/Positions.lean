import ExFat.Amiga.Scans
import ExFat.Fs.Sizes

namespace ExFat

open Program

/-!
# Where the open files stand

A position belongs to an open file and a size to a node, and several files may be open on one node.
`do_set_file_size` brings the position of its own file back into the file, and no other; the
truncation of `do_open` brings back none.  Everything else leaves every position between the
beginning and the end:

* `Handler.Fits` is what holds inside a packet, `Handler.PositionsFit` what follows between two
  packets;
* `Handler.Steady` says what a packet has to look out for;
* `serveFrom_positionsFit` is about whole runs.
-/

variable {δ : Type} {α β : Type}

/-! ### The state -/

/-- Every open file stands between the beginning and the end of its file. -/
def Handler.PositionsFit (h : Handler δ) : Prop :=
  ∀ f file, h.files.get? f = some file →
    ∃ n, h.fs.heap file.node = some n ∧ 0 ≤ file.pos ∧ file.pos ≤ n.size

/-- The node is a file, if it is still in memory. -/
structure Volume.OnFile (t : Volume δ) (i : NodeId) : Prop where
  lt : i < t.fresh
  isDir : ∀ {n}, t.heap i = some n → n.isDir = false

/-- The state inside a packet: the open files are on files, and stand inside those that are in
memory. -/
structure Handler.Fits (h : Handler δ) : Prop where
  filed : h.fs.Filed
  onFile : ∀ {f file}, h.files.get? f = some file → h.fs.OnFile file.node
  within : ∀ {f file n}, h.files.get? f = some file → h.fs.heap file.node = some n →
    0 ≤ file.pos ∧ file.pos ≤ n.size

/-- The open files are left alone, and no file gets another size. -/
def Handler.Spares (h h' : Handler δ) : Prop := h.fs.Spares h'.fs ∧ h'.files = h.files

instance : IsPreorder (Handler δ) Handler.Spares where
  refl h := ⟨refl_of Volume.Spares h.fs, rfl⟩
  trans _ _ _ h h' := ⟨trans_of Volume.Spares h.1 h'.1, h'.2.trans h.2⟩

/-- An open file stays on a file. -/
theorem Volume.OnFile.spared {t t' : Volume δ} {i : NodeId} (h : t.OnFile i) (ht : t.Filed)
    (hs : t.Spares t') : t'.OnFile i := by
  have hkept := (hs ht).2
  refine ⟨Nat.lt_of_lt_of_le h.lt hkept.le, fun {n'} hn' => ?_⟩
  cases hn : t.heap i with
  | none => cases (hkept.dead h.lt hn).symm.trans hn'
  | some n => exact (hkept.same hn hn').1.trans (h.isDir hn)

/-- A node in memory that is no directory is a file. -/
theorem Volume.OnFile.of_heap {t : Volume δ} (ht : t.Filed) {i : NodeId} {n : Node}
    (hn : t.heap i = some n) (hdir : n.isDir = false) : t.OnFile i := by
  refine ⟨ht.lt hn, fun {n'} hn' => ?_⟩
  cases hn.symm.trans hn'
  exact hdir

/-- The open files stay inside files that keep their sizes. -/
theorem Handler.Fits.spared {h h' : Handler δ} (ht : h.Fits) (hs : h.Spares h') : h'.Fits := by
  obtain ⟨hfs, hfiles⟩ := hs
  have hkept := (hfs ht.filed).2
  refine ⟨(hfs ht.filed).1, fun hf => ?_, fun {f file n'} hf hn' => ?_⟩
  · exact (ht.onFile (hfiles ▸ hf)).spared ht.filed hfs
  · have hf' : h.files.get? f = some file := hfiles ▸ hf
    have honfile := ht.onFile hf'
    cases hn : h.fs.heap file.node with
    | none => cases (hkept.dead honfile.lt hn).symm.trans hn'
    | some n =>
      rw [(hkept.same hn hn').2 (honfile.isDir hn)]
      exact ht.within hf' hn

/-! ### Files that are opened, moved and closed -/

section Files

variable {h : Handler δ}

/-- Whether the open files fit depends on the tree and the open files. -/
theorem Handler.Fits.congr {h' : Handler δ} (ht : h.Fits) (hfs : h'.fs = h.fs)
    (hfiles : h'.files = h.files) : h'.Fits :=
  ht.spared ⟨hfs ▸ refl_of Volume.Spares h.fs, hfiles⟩

/-- A file that is opened stands at the beginning. -/
theorem Handler.Fits.opened (ht : h.Fits) {i : NodeId} (hi : h.fs.OnFile i) (writable : Bool)
    (k : Nat) :
    Handler.Fits { h with
      files := h.files.insert { node := i, writable := writable }, nfiles := k } := by
  refine ⟨ht.filed, fun hf => ?_, fun hf hn => ?_⟩
  · obtain hold | rfl := h.files.of_get?_insert hf
    · exact ht.onFile hold
    · exact hi
  · obtain hold | rfl := h.files.of_get?_insert hf
    · exact ht.within hold hn
    · exact ⟨le_rfl, Int.natCast_nonneg _⟩

/-- The other files stay open when one is closed. -/
theorem Handler.Fits.closed (ht : h.Fits) (f : FileId) (k : Nat) :
    Handler.Fits { h with files := h.files.erase f, nfiles := k } :=
  ⟨ht.filed, fun hf => ht.onFile (h.files.get?_of_erase hf),
    fun hf hn => ht.within (h.files.get?_of_erase hf) hn⟩

/-- One file is moved. -/
theorem Handler.Fits.moved (ht : h.Fits) {f : FileId} {file : ExfatFile}
    (hf : h.files.get? f = some file) (pos : Int)
    (hpos : ∀ n, h.fs.heap file.node = some n → 0 ≤ pos ∧ pos ≤ n.size) :
    Handler.Fits { h with files := h.files.update f fun file => { file with pos := pos } } := by
  refine ⟨ht.filed, fun hg => ?_, fun hg hn => ?_⟩
  · obtain ⟨rfl, old, hold, rfl⟩ | ⟨-, hold⟩ := h.files.of_get?_update hg
    · exact show h.fs.OnFile old.node from ht.onFile hold
    · exact ht.onFile hold
  · obtain ⟨rfl, old, hold, rfl⟩ | ⟨-, hold⟩ := h.files.of_get?_update hg
    · cases hf.symm.trans hold
      exact hpos _ hn
    · exact ht.within hold hn

/-- A file gets another size, and the open files on it are inside. -/
theorem Handler.Fits.resized (ht : h.Fits) {i : NodeId} {n : Node} {s : FileState δ}
    (hi : h.fs.heap i = some n) (hkin : s.node.kin = n.kin)
    (hin : ∀ {f file}, h.files.get? f = some file → file.node = i → file.pos ≤ s.node.size)
    (tr : List Event) : Handler.Fits { h with fs := h.fs.store i s, trace := tr } := by
  have hisDir : s.node.isDir = n.isDir := congrArg Kin.isDir hkin
  have hcached : s.node.isCached = n.isCached := congrArg Kin.isCached hkin
  refine ⟨ht.filed.store hi fun hc => ?_, fun {f file} hf =>
    ⟨(ht.onFile hf).lt, fun {n'} hn' => ?_⟩,
    fun {f file n'} hf hn' => ?_⟩
  · rw [hisDir]
    exact ht.filed.isDir hi (hcached.symm.trans hc)
  · obtain ⟨hx, rfl⟩ | ⟨-, hold⟩ := Volume.heap_store hn'
    · exact hisDir.trans ((ht.onFile hf).isDir (hx ▸ hi))
    · exact (ht.onFile hf).isDir hold
  · obtain ⟨hx, rfl⟩ | ⟨-, hold⟩ := Volume.heap_store hn'
    · exact ⟨(ht.within hf (hx ▸ hi)).1, hin hf hx⟩
    · exact ht.within hf hold

/-- A routine of libexfat on one node that is in memory. -/
theorem wp_useFs_onNode {i : NodeId} {m : FileM δ α} {Q : α → Handler δ → Prop}
    (hm : ∀ n, h.fs.heap i = some n → wp m (fun a s =>
      Q a { h with fs := h.fs.store i s, trace := .use h.mounted :: h.trace })
        anyStop ⟨h.fs.ef, n⟩) :
    wp (useFs (onNode i m)) Q anyStop h := by
  refine wp_useFs ?_
  cases hi : h.fs.heap i with
  | none =>
    unfold wp onNode
    rw [hi]
    exact trivial
  | some n =>
    rw [wp_onNode hi]
    exact hm n hi

end Files

/-! ### The packets that move no file -/

section Packets

/-- A call of the library that spares the files. -/
theorem spares_useFs {m : TreeM δ α} (hm : Yields Volume.Spares m) :
    Yields Handler.Spares (useFs m) :=
  fun h => wp_useFs <| wp_conseq (hm h.fs) fun _ _ hs => ⟨hs, rfl⟩

/-- A call of the library that leaves the tree alone. -/
theorem spares_useFs_same {m : TreeM δ α} (hm : Keeps Volume.Same m) :
    Yields Handler.Spares (useFs m) :=
  spares_useFs (spares_of_same hm)

/-- Assignments to the rest of the state. -/
theorem spares_modify {f : Handler δ → Handler δ} (hfs : ∀ h, (f h).fs = h.fs)
    (hfiles : ∀ h, (f h).files = h.files) : Yields Handler.Spares (modify f : HandlerM δ PUnit) :=
      fun h =>
  ⟨(hfs h).symm ▸ refl_of Volume.Spares h.fs, hfiles h⟩

/-- Asking the outside leaves the open files alone. -/
theorem spares_ask (f : Outside δ → Nat → α) : Yields Handler.Spares (ask f) := fun h =>
  ⟨refl_of Volume.Spares h.fs, rfl⟩

/-- `exfat_put_node` leaves the open files and their sizes alone. -/
theorem spares_put (i : NodeId) : Yields Handler.Spares (useFs (exfatPutNode (δ := δ) i)) :=
  spares_useFs (spares_exfatPutNode i)

/-- `exfat_get_node` leaves the open files and their sizes alone. -/
theorem spares_get (i : NodeId) : Yields Handler.Spares (useFs (exfatGetNode (δ := δ) i)) :=
  spares_useFs (spares_exfatGetNode i)

/-- `refuse` leaves the open files and their sizes alone. -/
theorem spares_refuse (e : DosError) : Yields Handler.Spares (refuse (δ := δ) e) := yields_pure _

/-- `answer` leaves the open files and their sizes alone. -/
theorem spares_answer (res1 : Int) (res2 : Option DosError) :
    Yields Handler.Spares (answer (δ := δ) res1 res2) := yields_pure _

/-- Let go of a node and answer. -/
theorem spares_put_reply (i : NodeId) {m : HandlerM δ PacketReply} (hm : Yields Handler.Spares m) :
    Yields Handler.Spares (do
      useFs (exfatPutNode i)
      m) := yields_bind (spares_put i) fun _ => hm

/-- `lockAt` leaves the open files and their sizes alone. -/
theorem spares_lockAt (l : Option LockId) : Yields Handler.Spares (lockAt (δ := δ) l) := by
  cases l with
  | none => exact yields_pure _
  | some l =>
    refine yields_look fun h => ?_
    cases h.locks.get? l with
    | none => exact yields_throw _
    | some lock => exact yields_pure _

/-- `fileAt` leaves the open files and their sizes alone. -/
theorem spares_fileAt (f : Option FileId) : Yields Handler.Spares (fileAt (δ := δ) f) := by
  cases f with
  | none => exact yields_pure _
  | some f =>
    refine yields_look fun h => ?_
    cases h.files.get? f with
    | none => exact yields_throw _
    | some file => exact yields_pure _

/-- `lockNode` leaves the open files and their sizes alone. -/
theorem spares_lockNode (lock : Option Lock) : Yields Handler.Spares (lockNode (δ := δ) lock) :=
  yields_look fun _ => yields_pure _

/-- `resolve` leaves the open files and their sizes alone. -/
theorem spares_resolve (lock : Option LockId) (name : Bstr) :
    Yields Handler.Spares (resolve (δ := δ) lock name) :=
  yields_bind (spares_lockAt lock) fun _ => spares_useFs_same (same_resolvePath _ _)

/-- `exfat_amiga_freelock` leaves the open files and their sizes alone. -/
theorem spares_exfatAmigaFreelock (l : Option LockId) :
    Yields Handler.Spares (exfatAmigaFreelock (δ := δ) l) := by
  cases l with
  | none => exact yields_pure _
  | some l =>
    refine yields_bind (spares_lockAt _) fun lock => ?_
    cases lock with
    | none => exact yields_pure _
    | some lock =>
      refine yields_bind (spares_modify (fun _ => rfl) fun _ => rfl) fun _ => ?_
      exact yields_bind (spares_put _) fun _ => spares_modify (fun _ => rfl) fun _ => rfl

/-- `giveLock` leaves the open files and their sizes alone. -/
theorem spares_giveLock (i : NodeId) (access : Access) :
    Yields Handler.Spares (giveLock (δ := δ) i access) := by
  have hmake : Yields Handler.Spares (exfatAmigaMakelock (δ := δ) i access) := by
    refine yields_bind (spares_ask _) fun ok => yields_ite (yields_pure _) fun h => ?_
    exact ⟨refl_of Volume.Spares h.fs, rfl⟩
  refine yields_bind hmake fun r => ?_
  cases r with
  | none => exact spares_put_reply i (spares_refuse _)
  | some lock => exact spares_answer _ _

/-- `setScan` leaves the open files and their sizes alone. -/
theorem spares_setScan (lock : Option LockId) (next : Option NodeId) (index : Int) :
    Yields Handler.Spares (setScan (δ := δ) lock next index) := by
  cases lock with
  | none => exact yields_pure _
  | some l => exact spares_modify (fun _ => rfl) fun _ => rfl

/-- Let somebody have a lock on a node. -/
theorem spares_get_giveLock (i : NodeId) (access : Access) : Yields Handler.Spares (do
    useFs (exfatGetNode (δ := δ) i)
    giveLock i access) := yields_bind (spares_get i) fun _ => spares_giveLock i access

/-- `do_copy_dir` leaves the open files and their sizes alone. -/
theorem spares_doCopyDir (lock : Option LockId) : Yields Handler.Spares (doCopyDir (δ := δ) lock) :=
  yields_bind (spares_lockAt lock) fun l => yields_bind (spares_lockNode l) fun i =>
    spares_get_giveLock i _

/-- `do_lock_from_fh` leaves the open files and their sizes alone. -/
theorem spares_doLockFromFh (file : Option FileId) (wantParent : Bool) :
    Yields Handler.Spares (doLockFromFh (δ := δ) file wantParent) := by
  refine yields_bind (spares_fileAt file) fun file => ?_
  cases file with
  | none => exact spares_refuse _
  | some file =>
    cases wantParent with
    | false => exact yields_bind (yields_pure _) fun i => spares_get_giveLock i _
    | true =>
      refine yields_bind (spares_useFs_same ?_) fun i => spares_get_giveLock i _
      exact keeps_bind (same_getNode _) fun _ => keeps_look fun _ => keeps_pure _

/-- `do_parent` leaves the open files and their sizes alone. -/
theorem spares_doParent (lock : Option LockId) :
    Yields Handler.Spares (doParent (δ := δ) lock) := by
  refine yields_bind (spares_lockAt lock) fun src => ?_
  cases src with
  | none => exact spares_answer _ _
  | some src =>
    refine yields_bind (spares_useFs_same ?_) fun parent => ?_
    · refine keeps_look fun t => keeps_ite (keeps_pure _) ?_
      exact keeps_bind (same_getNode _) fun _ => keeps_pure _
    · cases parent with
      | none => exact spares_answer _ _
      | some p => exact spares_get_giveLock p _

/-- `doSameLock` leaves the open files and their sizes alone. -/
theorem spares_doSameLock (a b : Option LockId) : Yields Handler.Spares (doSameLock (δ := δ) a b) :=
  yields_bind (spares_lockAt a) fun la => yields_bind (spares_lockNode la) fun _ =>
    yields_bind (spares_lockAt b) fun lb => yields_bind (spares_lockNode lb) fun _ =>
      spares_answer _ _

/-- `do_examine_object` leaves the open files and their sizes alone. -/
theorem spares_doExamineObject (lock : Option LockId) :
    Yields Handler.Spares (doExamineObject (δ := δ) lock) := by
  refine yields_bind (spares_lockAt lock) fun l => yields_bind (spares_lockNode l) fun i => ?_
  refine yields_bind (spares_useFs_same (keeps_look fun _ => same_fillFib _ _ _)) fun _ => ?_
  exact yields_bind (spares_setScan _ _ _) fun _ => yields_pure _

/-- `do_examine_fh` leaves the open files and their sizes alone. -/
theorem spares_doExamineFh (file : Option FileId) (fib : Bool) :
    Yields Handler.Spares (doExamineFh (δ := δ) file fib) := by
  refine yields_bind (spares_fileAt file) fun file => ?_
  cases file with
  | none => exact spares_refuse _
  | some file =>
    refine yields_ite (spares_refuse _) ?_
    exact yields_bind (spares_useFs_same (same_fillFib _ _ _)) fun _ => yields_pure _

/-- `countTo` leaves the open files and their sizes alone. -/
theorem spares_countTo (want index : Int) (is : List NodeId) :
    Yields Volume.Spares (countTo (δ := δ) want index is) := by
  induction is generalizing index with
  | nil => exact yields_pure _
  | cons i is ih =>
    refine yields_bind (spares_exfatGetNode i) fun _ => yields_ite (yields_pure _) ?_
    exact yields_bind (spares_exfatPutNode i) fun _ => ih _

/-- `examineFound` leaves the open files and their sizes alone. -/
theorem spares_examineFound (lock : Option LockId) (dir i : NodeId) (want : Int) :
    Yields Handler.Spares (examineFound (δ := δ) lock dir i want) := by
  refine yields_bind (spares_useFs_same (same_fillFib _ _ _)) fun fib => ?_
  refine yields_bind (spares_useFs_same (same_nextSibling _)) fun next => ?_
  refine yields_bind (spares_setScan _ _ _) fun _ => yields_bind (spares_useFs ?_) fun _ =>
    yields_pure _
  exact yields_bind (spares_exfatPutNode i) fun _ => spares_exfatPutNode dir

/-- `scan_skip_node` leaves the open files and their sizes alone. -/
theorem spares_scanSkipNode (i : NodeId) : Yields Handler.Spares (scanSkipNode (δ := δ) i) := by
  refine yields_look fun h => ?_
  cases h.volume with
  | none => exact yields_pure _
  | some v =>
    refine yields_bind (spares_useFs_same (same_nextSibling i)) fun next => ?_
    exact spares_modify (fun _ => rfl) fun _ => rfl

/-- `scan_invalidate_all` leaves the open files and their sizes alone. -/
theorem spares_scanInvalidateAll : Yields Handler.Spares (scanInvalidateAll (δ := δ)) := by
  refine yields_look fun h => ?_
  cases h.volume with
  | none => exact yields_pure _
  | some v => exact spares_modify (fun _ => rfl) fun _ => rfl

variable [Device δ]

/-- `exfat_lookup` leaves the open files and their sizes alone. -/
theorem spares_lookup (path : List UInt8) :
    Yields Handler.Spares (useFs (exfatLookup (δ := δ) path)) :=
  spares_useFs (spares_exfatLookup path)

/-- `exfat_flush_node` leaves the open files and their sizes alone. -/
theorem spares_flush (i : NodeId) : Yields Handler.Spares (useFs (exfatFlushNode (δ := δ) i)) :=
  spares_useFs (spares_exfatFlushNode i)

/-- `do_locate_object` leaves the open files and their sizes alone. -/
theorem spares_doLocateObject (lock : Option LockId) (name : Bstr) :
    Yields Handler.Spares (doLocateObject (δ := δ) lock name) := by
  refine yields_bind (spares_resolve lock name) fun path => ?_
  cases path with
  | none => exact spares_refuse _
  | some path =>
    refine yields_bind (spares_lookup path) fun r => ?_
    cases r with
    | error e => exact spares_refuse _
    | ok i => exact spares_giveLock i _

/-- `examineCounting` leaves the open files and their sizes alone. -/
theorem spares_examineCounting (lock : Option LockId) (dir : NodeId) (want : Int) :
    Yields Handler.Spares (examineCounting (δ := δ) lock dir want) := by
  refine yields_bind (spares_useFs (spares_exfatOpendir dir)) fun r => ?_
  cases r with
  | error e => exact spares_refuse _
  | ok _ =>
    refine yields_bind (spares_useFs ?_) fun found => ?_
    · exact yields_bind (spares_getNode dir) fun d => spares_countTo _ _ _
    · cases found with
      | some i => exact spares_examineFound lock dir i want
      | none =>
        exact spares_put_reply dir (yields_bind (spares_setScan _ _ _) fun _ => spares_refuse _)

/-- `do_examine_next` leaves the open files and their sizes alone. -/
theorem spares_doExamineNext (lock : Option LockId) (want : Int) :
    Yields Handler.Spares (doExamineNext (δ := δ) lock want) := by
  refine yields_bind (spares_lockAt lock) fun l => yields_bind (spares_lockNode l) fun dir => ?_
  refine yields_bind (spares_useFs (spares_getNode dir)) fun d => yields_ite (spares_refuse _) ?_
  cases scanPlace l want d with
  | none => exact spares_examineCounting lock dir want
  | some i =>
    refine yields_bind (spares_useFs_same (same_fillFib _ _ _)) fun fib => ?_
    refine yields_bind (spares_useFs_same (same_nextSibling _)) fun next => ?_
    exact yields_bind (spares_setScan _ _ _) fun _ => yields_pure _

/-- `lookup_arg23` leaves the open files and their sizes alone. -/
theorem spares_lookupArg23 (lock : Option LockId) (name : Bstr) :
    Yields Handler.Spares (lookupArg23 (δ := δ) lock name) := by
  refine yields_bind (spares_resolve lock name) fun path => ?_
  cases path with
  | none => exact yields_pure _
  | some path =>
    refine yields_bind (spares_lookup path) fun r => ?_
    cases r with
    | error e => exact yields_pure _
    | ok i => exact yields_pure _

/-- `flushAndPut` leaves the open files and their sizes alone. -/
theorem spares_flushAndPut (i : NodeId) : Yields Handler.Spares (flushAndPut (δ := δ) i) := by
  refine yields_bind (spares_flush i) fun rc => spares_put_reply i ?_
  cases rc with
  | error e => exact spares_refuse _
  | ok _ => exact spares_answer _ _

/-- `do_set_protect` leaves the open files and their sizes alone. -/
theorem spares_doSetProtect (lock : Option LockId) (name : Bstr) (bits : Nat) :
    Yields Handler.Spares (doSetProtect (δ := δ) lock name bits) := by
  refine yields_look fun h => yields_ite (spares_refuse _) ?_
  refine yields_bind (spares_lookupArg23 lock name) fun r => ?_
  cases r with
  | error e => exact spares_refuse _
  | ok i =>
    refine yields_bind (spares_useFs (spares_getNode i)) fun n => yields_ite ?_ ?_
    · exact spares_put_reply i (spares_answer _ _)
    · refine yields_bind (spares_useFs (spares_updateNode i fun n => ?_)) fun _ =>
        spares_flushAndPut i
      exact ⟨protectAttrib_testBit n.attrib bits, rfl, fun _ => rfl⟩

/-- `do_set_date` leaves the open files and their sizes alone. -/
theorem spares_doSetDate (lock : Option LockId) (name : Bstr) (ds : Option DateStamp) :
    Yields Handler.Spares (doSetDate (δ := δ) lock name ds) := by
  refine yields_look fun h => yields_ite (spares_refuse _) ?_
  cases ds with
  | none => exact spares_refuse _
  | some ds =>
    refine yields_bind (spares_lookupArg23 lock name) fun r => ?_
    cases r with
    | error e => exact spares_refuse _
    | ok i =>
      refine yields_bind (spares_useFs (spares_updateNode i fun n => ?_)) fun _ =>
        spares_flushAndPut i
      exact ⟨rfl, rfl, fun _ => rfl⟩

/-- `do_set_comment` leaves the open files and their sizes alone. -/
theorem spares_doSetComment (lock : Option LockId) (name : Bstr) (comment : Option Bstr) :
    Yields Handler.Spares (doSetComment (δ := δ) lock name comment) := by
  refine yields_look fun h => yields_ite (spares_refuse _) (yields_ite (spares_refuse _) ?_)
  refine yields_bind (spares_lookupArg23 lock name) fun r => ?_
  cases r with
  | error e => exact spares_refuse _
  | ok i => exact spares_put_reply i (spares_answer _ _)

/-- `deleteNode` leaves the open files and their sizes alone. -/
theorem spares_deleteNode (i : NodeId) : Yields Handler.Spares (deleteNode (δ := δ) i) := by
  refine yields_bind (spares_scanSkipNode i) fun _ => ?_
  refine yields_bind (spares_useFs (spares_getNode i)) fun n => ?_
  refine yields_bind (spares_useFs (yields_ite (spares_exfatRmdir i) (spares_exfatUnlink i)))
    fun rc => ?_
  refine spares_put_reply i ?_
  cases rc with
  | error e => exact spares_refuse _
  | ok _ =>
    refine yields_bind (spares_useFs (spares_exfatCleanupNode i)) fun rc => ?_
    cases rc with
    | error e => exact spares_refuse _
    | ok _ => exact spares_answer _ _

/-- `do_delete_object` leaves the open files and their sizes alone. -/
theorem spares_doDeleteObject (lock : Option LockId) (name : Bstr) :
    Yields Handler.Spares (doDeleteObject (δ := δ) lock name) := by
  refine yields_look fun h => yields_ite (spares_refuse _) ?_
  refine yields_bind (spares_resolve lock name) fun path => ?_
  cases path with
  | none => exact spares_refuse _
  | some path =>
    refine yields_bind (spares_lookup path) fun r => ?_
    cases r with
    | error e => exact spares_refuse _
    | ok i =>
      refine yields_bind (spares_useFs (spares_getNode i)) fun n => yields_look fun h => ?_
      refine yields_ite (spares_put_reply i (spares_refuse _)) ?_
      exact yields_ite (spares_put_reply i (spares_refuse _)) (spares_deleteNode i)

/-- `do_rename_object` leaves the open files and their sizes alone. -/
theorem spares_doRenameObject (src : Option LockId) (srcName : Bstr) (dst : Option LockId)
    (dstName : Bstr) : Yields Handler.Spares (doRenameObject (δ := δ) src srcName dst dstName) := by
  refine yields_look fun h => yields_ite (spares_refuse _) ?_
  refine yields_bind (spares_resolve src srcName) fun srcPath => ?_
  cases srcPath with
  | none => exact spares_refuse _
  | some srcPath =>
    refine yields_bind (spares_resolve dst dstName) fun dstPath => ?_
    cases dstPath with
    | none => exact spares_refuse _
    | some dstPath =>
      refine yields_bind (spares_useFs (spares_exfatRename _ _)) fun r => ?_
      cases r with
      | error e => exact spares_refuse _
      | ok _ => exact yields_bind spares_scanInvalidateAll fun _ => spares_answer _ _

/-- `do_rename_disk` leaves the open files and their sizes alone. -/
theorem spares_doRenameDisk (name : Option Bstr) :
    Yields Handler.Spares (doRenameDisk (δ := δ) name) := by
  refine yields_look fun h => yields_ite (spares_refuse _) ?_
  cases name with
  | none => exact spares_refuse _
  | some name =>
    refine yields_ite (spares_refuse _) ?_
    refine yields_bind (spares_useFs (spares_exfatSetLabel _)) fun r => ?_
    cases r with
    | error e => exact spares_refuse _
    | ok _ =>
      refine yields_ite (yields_bind (spares_ask _) fun ok => yields_ite ?_ ?_) (spares_answer _ _)
      · exact yields_bind (spares_modify (fun _ => rfl) fun _ => rfl) fun _ => spares_answer _ _
      · exact spares_answer _ _

/-- A directory is made where the nodes are linked. -/
theorem spares_doCreateDir (lock : Option LockId) (name : Bstr) {h : Handler δ} (hl : h.fs.Linked) :
    wp (doCreateDir lock name) (fun _ h' => h.Spares h') anyStop h := by
  unfold doCreateDir
  rw [wp_bind, wp_get]
  split
  · exact refl_of Handler.Spares h
  rw [wp_bind]
  refine wp_conseq (wp_resolve_same lock name h) ?_
  rintro path _ ⟨tr, rfl⟩
  have hsame : h.Spares { h with trace := tr } := refl_of Handler.Spares h
  cases path with
  | none => exact hsame
  | some path =>
    dsimp only
    rw [wp_bind]
    refine wp_useFs (wp_conseq (spares_exfatMkdir path hl) fun r t ht => ?_)
    have hs : h.Spares { h with fs := t, trace := .use h.mounted :: tr } := ⟨ht, rfl⟩
    cases r with
    | error e => exact hs
    | ok _ =>
      refine Yields.after (yields_bind (spares_lookup path) fun r => ?_) hs
      cases r with
      | error e => exact spares_refuse _
      | ok i => exact spares_giveLock i _

end Packets

/-! ### The packets that open, move and close files -/

section Moving

variable {h : Handler δ}

/-- What a packet has to look out for.  The file it makes shorter must not be open elsewhere at a
position beyond the new end: `ACTION_SET_FILE_SIZE` looks after its own file only, and
`ACTION_FINDOUTPUT` after none.  What is written ends before the largest offset. -/
def Handler.Steady [Device δ] (h : Handler δ) : Packet → Prop
  | .write (some f) _ length => ∀ file, h.files.get? f = some file → file.pos + length < 2 ^ 63
  | .setFileSize (some f) offset mode => ∀ file n newsize, h.files.get? f = some file →
    h.fs.heap file.node = some n → file.writable = true → h.fs.ef.ro = false →
    resolveOffset offset mode file.pos n.size = some newsize → 0 ≤ newsize →
    ∀ g other, g ≠ f → h.files.get? g = some other → other.node = file.node → other.pos ≤ newsize
  | .find .new true lock name => h.fs.ef.ro = false → ∀ path h₁ i t,
    resolve lock name h = .ok (some path) h₁ → exfatLookup path h.fs = .ok (.ok i) t →
    ∀ g other, h.files.get? g = some other → other.node = i → other.pos ≤ 0
  | _ => True

/-- The reference of the packet goes to an open file. -/
theorem fits_giveFile (ht : h.Fits) {i : NodeId} (hi : h.fs.OnFile i) (writable : Bool) :
    wp (giveFile i writable) (fun _ h' => h'.Fits) anyStop h := by
  unfold giveFile
  rw [wp_bind]
  unfold ask
  rw [wp_bind, wp_get, wp_bind, wp_set, wp_pure]
  have ht₁ : Handler.Fits { h with ticks := h.ticks + 1 } := ht.congr rfl rfl
  split
  · exact wp_conseq (spares_put_reply i (spares_refuse .noFreeStore) _) fun _ _ hs => ht₁.spared hs
  · exact ht₁.opened hi writable _

/-- `do_fh_from_lock` leaves the open files inside their files. -/
theorem fits_doFhFromLock (ht : h.Fits) (fh : Bool) (lock : Option LockId) :
    wp (doFhFromLock fh lock) (fun _ h' => h'.Fits) anyStop h := by
  have hrefuse : ∀ (e : DosError) {h' : Handler δ}, h'.Fits →
      wp (refuse e) (fun _ h' => h'.Fits) anyStop h' := fun _ _ ht' => ht'
  unfold doFhFromLock
  rw [wp_bind]
  refine wp_conseq (spares_lockAt lock h) fun l h₁ hs₁ => ?_
  have ht₁ := ht.spared hs₁
  -- No lock, a directory, or a file.
  cases l with
  | none => exact ht₁
  | some l =>
    dsimp only
    split
    · exact ht₁
    rw [wp_bind]
    refine wp_useFs (wp_getNode trivial fun n hn => ?_)
    have ht₂ : Handler.Fits { h₁ with trace := .use h₁.mounted :: h₁.trace } := ht₁.congr rfl rfl
    split
    · exact ht₂
    next hdir =>
    have hi : h₁.fs.OnFile l.node := .of_heap ht₁.filed hn (by simpa using hdir)
    rw [wp_bind]
    -- the node stays a file while its handle is made
    refine wp_conseq (spares_ask Outside.allocVec _) fun ok h₃ hs₃ => ?_
    have ht₃ := ht₂.spared hs₃
    split
    · exact ht₃
    have hi₃ := hi.spared ht₁.filed hs₃.1
    rw [wp_bind]
    -- the reference of the lock passes to the file
    refine wp_conseq (spares_get l.node h₃) fun _ h₄ hs₄ => ?_
    rw [wp_bind]
    refine wp_conseq (spares_exfatAmigaFreelock lock h₄) fun _ h₅ hs₅ => ?_
    have hs := trans_of Handler.Spares hs₄ hs₅
    exact (ht₃.spared hs).opened (hi₃.spared ht₃.filed hs.1) _ _

/-- A packet that names an open file. -/
theorem wp_fileAt {f : Option FileId} {k : Option ExfatFile → HandlerM δ β}
    {Q : β → Handler δ → Prop} (hnone : f = none → wp (k none) Q anyStop h)
    (hsome : ∀ g file, f = some g → h.files.get? g = some file → wp (k (some file)) Q anyStop h) :
    wp (fileAt f >>= k) Q anyStop h := by
  cases f with
  | none => exact hnone rfl
  | some g =>
    unfold fileAt
    rw [wp_bind, wp_bind, wp_get]
    cases hg : h.files.get? g with
    | none => exact trivial
    | some file => exact hsome g file rfl hg

/-- `do_seek` leaves the open files inside their files. -/
theorem fits_doSeek (ht : h.Fits) (f : Option FileId) (offset mode : Int) :
    wp (doSeek f offset mode) (fun _ h' => h'.Fits) anyStop h := by
  refine wp_fileAt (fun _ => ht) fun g file hf hg => ?_
  subst hf
  dsimp only
  rw [wp_bind]
  refine wp_useFs (wp_getNode trivial fun n hn => ?_)
  have ht₁ : Handler.Fits { h with trace := .use h.mounted :: h.trace } := ht.congr rfl rfl
  cases resolveOffset offset mode file.pos n.size with
  | none => exact ht₁
  | some newpos =>
    dsimp only
    split
    · exact ht₁
    next hrange =>
    refine ht₁.moved hg _ fun n' hn' => ?_
    cases hn.symm.trans hn'
    omega

section Device

variable [Device δ]

/-- `do_end` leaves the open files inside their files. -/
theorem fits_doEnd (ht : h.Fits) (file : Option FileId) :
    wp (doEnd file) (fun _ h' => h'.Fits) anyStop h := by
  unfold doEnd
  cases file with
  | none => exact ht
  | some f =>
    dsimp only
    refine wp_fileAt (fun hf => by cases hf) fun g file _ _ => ?_
    dsimp only
    rw [wp_bind, wp_get]
    refine wp_ite_bind (P := fun _ h' => h.Spares h') ?_ fun rc h' hs => ?_
    · split
      · exact spares_flush file.node h
      · exact refl_of Handler.Spares h
    rw [wp_bind]
    refine wp_conseq ((spares_put file.node).after hs) fun _ h₁ hs₁ => ?_
    rw [wp_bind, wp_modify]
    have ht₁ := (ht.spared hs₁).closed f (h₁.nfiles - 1)
    cases rc with
    | error e => exact ht₁
    | ok _ => exact ht₁

/-- `do_read` leaves the open files inside their files. -/
theorem fits_doRead (ht : h.Fits) (f : Option FileId) (length : Int) :
    wp (doRead f length) (fun _ h' => h'.Fits) anyStop h := by
  refine wp_fileAt (fun _ => ht) fun g file hf hg => ?_
  subst hf
  dsimp only
  split
  · exact ht
  split
  · exact ht
  rw [wp_bind]
  refine wp_useFs_onNode fun n hn => ?_
  obtain ⟨hpos, hle⟩ := ht.within hg hn
  refine wp_conseq (wp_exfatGenericPread_size hpos hle) ?_
  rintro r s ⟨hkin, hsize, hread⟩
  have ht₁ := ht.resized hn hkin (fun {g other} hother hnode => ?_) (.use h.mounted :: h.trace)
  · cases r with
    | error e => exact ht₁
    | ok r =>
      refine ht₁.moved hg _ fun n' hn' => ?_
      cases (store_heap_self h.fs file.node s).symm.trans hn'
      have hend := hread _ _ rfl
      have hsize' : s.node.size = n.size := hsize
      omega
  · rw [hsize]
    exact (ht.within hother (hnode ▸ hn)).2

/-- `do_write` leaves the open files inside their files. -/
theorem fits_doWrite (ht : h.Fits) {f : Option FileId} {buffer : Nat → UInt8} {length : Int}
    (hsteady : h.Steady (.write f buffer length)) :
    wp (doWrite f buffer length) (fun _ h' => h'.Fits) anyStop h := by
  refine wp_fileAt (fun _ => ht) fun g file hf hg => ?_
  subst hf
  dsimp only
  rw [wp_bind, wp_get]
  -- the handle may not write, the volume is read-only, or nothing is to be written
  split
  · exact ht
  split
  · exact ht
  split
  · exact ht
  rw [wp_bind]
  refine wp_useFs_onNode fun n hn => ?_
  obtain ⟨hpos, hle⟩ := ht.within hg hn
  -- `Steady` keeps the sum within an `off_t`
  have hlt : file.pos + ((List.range length.toNat).map buffer).length < 2 ^ 63 := by
    rw [List.length_map, List.length_range]
    have := hsteady file hg
    omega
  refine wp_conseq (wp_exfatGenericPwrite_size hpos hle hlt) ?_
  rintro r s ⟨hkin, hgrown, hwritten⟩
  have hgrown' : n.size ≤ s.node.size := hgrown
  have ht₁ := ht.resized hn hkin (fun {g other} hother hnode => ?_) (.use h.mounted :: h.trace)
  · cases r with
    | error e => exact ht₁
    -- the position moves to the end of what has been written
    | ok k =>
      refine ht₁.moved hg _ fun n' hn' => ?_
      cases (store_heap_self h.fs file.node s).symm.trans hn'
      have hend := hwritten _ rfl
      omega
  -- the file has only grown, so the other handles are inside it
  · have hold := (ht.within hother (hnode ▸ hn)).2
    omega

/-- `ACTION_SET_FILE_SIZE` moves its own file to the new end, if it is behind it. -/
theorem fits_doSetFileSize (ht : h.Fits) {f : Option FileId} {offset mode : Int}
    (hsteady : h.Steady (.setFileSize f offset mode)) :
    wp (doSetFileSize f offset mode) (fun _ h' => h'.Fits) anyStop h := by
  refine wp_fileAt (fun _ => ht) fun g file hf hg => ?_
  subst hf
  dsimp only
  rw [wp_bind, wp_get]
  split
  · exact ht
  next hallowed =>
  simp only [not_or, Bool.not_eq_true, Bool.not_eq_false'] at hallowed
  rw [wp_bind]
  refine wp_useFs (wp_getNode trivial fun n hn => ?_)
  have ht₁ : Handler.Fits { h with trace := .use h.mounted :: h.trace } := ht.congr rfl rfl
  cases hresolve : resolveOffset offset mode file.pos n.size with
  | none => exact ht₁
  | some newsize =>
    dsimp only
    split
    · exact ht₁
    next hnonneg =>
    obtain ⟨hpos, hle⟩ := ht.within hg hn
    rw [wp_bind]
    refine wp_useFs_onNode fun n' hn' => ?_
    cases hn.symm.trans hn'
    refine wp_conseq (wp_exfatTruncate_size _ _ _) ?_
    rintro r s ⟨hkin, hsize⟩
    -- A failed truncation leaves the size.
    cases r with
    | error e =>
      refine ht₁.resized hn hkin (fun {g other} hother hnode => ?_) _
      have hsame : s.node.size = n.size := hsize
      rw [hsame]
      exact (ht.within hother (hnode ▸ hn)).2
    | ok _ =>
      have hnew : s.node.size = newsize.toNat := hsize
      -- the file has been moved before the end is where it will be
      have ht₂ := ht₁.moved hg (min file.pos newsize) fun n' hn' => by
        cases hn.symm.trans hn'
        omega
      refine ht₂.resized hn hkin (fun {g' other} hother hnode => ?_) _
      -- the handle of the packet, or another one on the same file
      obtain ⟨rfl, old, hold, rfl⟩ | ⟨hne, hold⟩ := h.files.of_get?_update hother
      · cases hg.symm.trans hold
        show min file.pos newsize ≤ _
        omega
      -- the others are inside the new size by `Steady`: the source does not look at them
      · have hbefore := hsteady file n newsize hg hn hallowed.2.2 hallowed.2.1 hresolve
          (by omega) g' other
          hne hold hnode
        omega

/-- A file that is made is opened at its beginning. -/
theorem fits_openCreate (ht : h.Fits) (hl : h.fs.Linked) (path : List UInt8) :
    wp (openCreate path) (fun _ h' => h'.Fits) anyStop h := by
  unfold openCreate exfatMknod
  rw [wp_bind]
  refine wp_useFs
    (wp_mono (wp_and (wp_create path attribArch hl) (spares_create path attribArch h.fs)) ?_
    (fun _ _ _ => trivial))
  rintro r t₁ ⟨hcreate, hs₁⟩
  have hspares₁ : h.Spares { h with fs := t₁, trace := .use h.mounted :: h.trace } := ⟨hs₁, rfl⟩
  have ht₁ := ht.spared hspares₁
  cases r with
  | error e => exact ht₁
  | ok _ =>
    obtain ⟨dir, last, name, i, k, -, -, hw, hname, hfinds, hk, -, hisDir, -⟩ := hcreate.found
    dsimp only
    rw [wp_bind]
    refine wp_useFs (wp_mono (wp_and (wp_exfatLookup_walks hname hcreate.linked hw hfinds)
      (spares_exfatLookup path t₁)) ?_ (fun _ _ _ => trivial))
    rintro _ t₂ ⟨⟨-, rfl⟩, hs₂⟩
    obtain ⟨n, hn, rfl⟩ := Option.map_eq_some_iff.1 hk
    have hi : t₁.OnFile i := .of_heap ht₁.filed hn (hisDir.trans (by decide))
    have hspares₂ :
        h.Spares { h with fs := t₂, trace := .use h.mounted :: .use h.mounted :: h.trace } :=
      ⟨trans_of Volume.Spares hs₁ hs₂, rfl⟩
    exact fits_giveFile (ht.spared hspares₂) (hi.spared ht₁.filed hs₂) true

/-- A file that is emptied must not be open elsewhere at a position behind its beginning. -/
theorem fits_openExisting (ht : h.Fits) {mode : OpenMode} {i : NodeId}
    (hnew : mode = .new → ∀ g other, h.files.get? g = some other → other.node = i → other.pos ≤ 0) :
    wp (openExisting mode i) (fun _ h' => h'.Fits) anyStop h := by
  unfold openExisting
  rw [wp_bind]
  refine wp_useFs (wp_getNode trivial fun n hn => ?_)
  have ht₁ : Handler.Fits { h with trace := .use h.mounted :: h.trace } := ht.congr rfl rfl
  have hput : ∀ (e : DosError) {h' : Handler δ}, h'.Fits → wp (do
      useFs (exfatPutNode (δ := δ) i)
      refuse e) (fun _ h' => h'.Fits) anyStop h' := fun e h' ht' =>
    wp_conseq (spares_put_reply i (spares_refuse e) h') fun _ _ hs => ht'.spared hs
  -- a directory cannot be opened as a file
  split
  · exact hput _ ht₁
  next hdir =>
  have hi : h.fs.OnFile i := .of_heap ht.filed hn (by simpa using hdir)
  -- `MODE_NEWFILE` empties the file before the handle is made
  split
  next hmode =>
    rw [wp_bind]
    refine wp_useFs_onNode fun n' hn' => ?_
    cases hn.symm.trans hn'
    refine wp_conseq (wp_exfatTruncate_size _ _ _) ?_
    rintro r s ⟨hkin, hsize⟩
    -- the other handles stand at the start by assumption
    have hinside : ∀ {g other}, h.files.get? g = some other → other.node = i →
        other.pos ≤ s.node.size :=
      fun hother hnode => (hnew hmode _ _ hother hnode).trans (Int.natCast_nonneg _)
    have ht₂ := ht₁.resized hn hkin hinside (.use h.mounted :: .use h.mounted :: h.trace)
    cases r with
    | error e =>
      dsimp only
      rw [wp_bind]
      exact wp_conseq (spares_flush i _) fun _ _ hs => hput _ (ht₂.spared hs)
    | ok _ =>
      refine fits_giveFile ht₂ (.of_heap ht₂.filed (store_heap_self h.fs i s) ?_) true
      exact (congrArg Kin.isDir hkin).trans (hi.isDir hn)
  · exact fits_giveFile ht₁ hi _

/-- `do_open` leaves the open files inside their files. -/
theorem fits_doOpen (ht : h.Fits) (hl : h.fs.Linked) {mode : OpenMode} {fh : Bool}
    {lock : Option LockId} {name : Bstr} (hsteady : h.Steady (.find mode fh lock name)) :
    wp (doOpen mode fh lock name) (fun _ h' => h'.Fits) anyStop h := by
  unfold doOpen
  split
  · exact ht
  next hfh =>
  have hfh : fh = true := by simpa using hfh
  subst hfh
  rw [wp_bind]
  refine wp_conseq (wp_run (wp_resolve_same lock name h)) ?_
  rintro path _ ⟨hresolve, tr, rfl⟩
  have ht₁ : Handler.Fits { h with trace := tr } := ht.congr rfl rfl
  cases path with
  | none => exact ht₁
  | some path =>
    dsimp only
    rw [wp_bind, wp_get]
    split
    · exact ht₁
    next hallowed =>
    rw [wp_bind]
    refine wp_useFs (wp_mono (wp_run (wp_mono (wp_and (spares_exfatLookup path h.fs)
      (tends_exfatLookup (R := Volume.Grown ∅ ∅) path h.fs hl)) (fun _ _ hs => hs) fun _ _ _ =>
        trivial)) ?_
      (fun _ _ _ => trivial))
    rintro r t ⟨hlookup, hs, hl₂, -⟩
    have hspares : h.Spares { h with fs := t, trace := .use h.mounted :: tr } := ⟨hs, rfl⟩
    have ht₂ := ht.spared hspares
    cases r with
    | error e =>
      dsimp only
      split
      · exact ht₂
      · exact fits_openCreate ht₂ hl₂ path
    | ok i =>
      refine fits_openExisting ht₂ fun hmode => ?_
      subst hmode
      -- a read-only volume has been refused before the path was looked up
      have hro : h.fs.ef.ro = false := by
        by_contra hro
        exact hallowed ⟨by decide, .inr (by simpa using hro)⟩
      exact hsteady hro path _ i t hresolve hlookup

end Device

end Moving

/-! ### The packets without the medium -/

/-- Between two packets: the open files of a volume that is mounted stand inside their files. -/
def Handler.Seated (h : Handler δ) : Prop := h.mounted = true → h.Fits

/-- Without a volume no file is open on one. -/
theorem Handler.Seated.of_unmounted {h : Handler δ} (hm : h.mounted = false) : h.Seated :=
  fun h' => absurd (hm.symm.trans h') (by decide)

section Step

variable [Device δ] {φ : Frame} {h : Handler δ}

/-- A mount starts without open files. -/
theorem fits_mountFs (he : h.Empty) : wp mountFs (fun ok h' => ok = true → h'.Fits) anyStop h := by
  unfold mountFs ask
  rw [wp_bind, wp_bind, wp_get, wp_bind, wp_set, wp_pure]
  cases h.outside.medium h.ticks with
  | none => exact nofun
  | some m =>
    obtain ⟨dev, ro⟩ := m
    dsimp only
    rw [wp_bind, wp_modify, wp_bind]
    unfold onFs
    rw [wp_zoom]
    have hblank : (blankVolume h.fs dev ro).Filed := ⟨fun _ _ => rfl, nofun⟩
    refine wp_conseq (spares_exfatMount (blankVolume h.fs dev ro)) ?_
    intro rc t hs
    cases rc with
    | error e => exact nofun
    | ok _ =>
      dsimp only
      rw [wp_bind, wp_modify, wp_bind]
      have hnone : ∀ {f file}, h.files.get? f ≠ some file := fun {f file} hf => by
        cases (h.files.get?_eq_none_of_size he.files).symm.trans hf
      have hsoil := spares_useFs (spares_onVolume (exfatSoilSuperBlock (δ := δ)))
      refine wp_conseq (hsoil _) fun _ _ hs' _ => Handler.Fits.spared ?_ hs'
      exact ⟨(hs hblank).1, fun hf => absurd hf hnone, fun hf => absurd hf hnone⟩

/-- `sameVolumeNow` leaves the open files and their sizes alone. -/
theorem spares_sameVolumeNow : Yields Handler.Spares (sameVolumeNow (δ := δ)) := by
  refine yields_look fun h => yields_ite (yields_pure _) ?_
  refine yields_bind (spares_useFs (spares_onVolume _)) fun sb => ?_
  cases sb with
  | none => exact yields_pure _
  | some sb => exact yields_pure _

omit [Device δ] in
/-- `discard_dirty_nodes` leaves the open files and their sizes alone. -/
theorem spares_discardDirtyNodes (fuel : Nat) (i : NodeId) :
    Yields Volume.Spares (discardDirtyNodes (δ := δ) fuel i) := by
  induction fuel generalizing i with
  | zero => exact yields_throw _
  | succ fuel ih =>
    refine yields_bind (spares_updateNode i fun _ => ⟨rfl, rfl, fun _ => rfl⟩) fun _ => ?_
    refine yields_bind (spares_getNode i) fun n => ?_
    induction n.child with
    | nil => exact yields_pure _
    | cons c cs ihcs => exact yields_bind (ih c) fun _ => ihcs

omit [Device δ] in
/-- `discard_dirty_state` leaves the open files and their sizes alone. -/
theorem spares_discardDirtyState : Yields Handler.Spares (discardDirtyState (δ := δ)) := by
  refine yields_look fun h => yields_ite (yields_pure _) (spares_useFs ?_)
  exact yields_look fun t => yields_bind (spares_discardDirtyNodes _ _) fun _ => spares_onVolume _

omit [Device δ] in
/-- `add_volume` leaves the open files and their sizes alone. -/
theorem spares_addVolume : Yields Handler.Spares (addVolume (δ := δ)) := by
  refine yields_look fun h => yields_bind (spares_modify (fun _ => rfl) fun _ => rfl) fun _ => ?_
  refine yields_bind (spares_ask _) fun ok => yields_ite ?_ (yields_pure _)
  exact spares_modify (fun _ => rfl) fun _ => rfl

/-- The nodes and then the rest are written out. -/
theorem spares_flushAll {m : EfM δ Bool} : Yields Volume.Spares (do
    match ← exfatFlushNodes (δ := δ) with
    | .error _ => pure false
    | .ok _ => do
      match ← onVolume exfatFlush with
      | .error _ => pure false
      | .ok _ => onVolume m) := by
  refine yields_bind spares_exfatFlushNodes fun r => ?_
  cases r with
  | error e => exact yields_pure _
  | ok _ =>
    refine yields_bind (spares_onVolume _) fun r => ?_
    cases r with
    | error e => exact yields_pure _
    | ok _ => exact spares_onVolume _

/-- `park` leaves the open files and their sizes alone. -/
theorem spares_park : Yields Handler.Spares (park (δ := δ)) := by
  have hdetach : Yields Handler.Spares (modify fun h : Handler δ => { h with
      volume := h.volume.map fun v : DeviceList => { v with attached := false } }) :=
    spares_modify (fun _ => rfl) fun _ => rfl
  refine yields_look fun h => yields_ite hdetach
    (yields_bind (spares_useFs spares_flushAll) fun _ => ?_)
  exact yields_ite hdetach (yields_bind spares_discardDirtyState fun _ => hdetach)

/-- `doFlush` leaves the open files and their sizes alone. -/
theorem spares_doFlush : Yields Handler.Spares (doFlush (δ := δ)) := by
  refine yields_look fun h => yields_ite ?_ (spares_answer _ _)
  exact yields_bind (spares_useFs spares_flushAll) fun _ =>
    yields_ite (spares_answer _ _) (spares_refuse _)

omit [Device δ] in
/-- `fill_infodata` leaves the open files and their sizes alone. -/
theorem spares_fillInfodata : Yields Handler.Spares (fillInfodata (δ := δ)) := by
  refine yields_look fun h => yields_ite (yields_pure _) ?_
  exact yields_bind (spares_useFs (yields_look fun _ => yields_pure _)) fun _ => yields_pure _

omit [Device δ] in
/-- `do_format` leaves the open files and their sizes alone. -/
theorem spares_doFormat (label : Option Bstr) :
    Yields Handler.Spares (doFormat (δ := δ) label) := by
  refine yields_look fun h => yields_ite (spares_refuse _) (yields_ite (spares_refuse _) ?_)
  exact yields_bind (spares_ask _) fun ok => yields_ite (spares_answer _ _) (spares_refuse _)

omit [Device δ] in
/-- `doDie` leaves the open files and their sizes alone. -/
theorem spares_doDie : Yields Handler.Spares (doDie (δ := δ)) := by
  intro h
  unfold doDie
  rw [wp_bind, wp_get]
  split
  · exact refl_of Handler.Spares h
  · exact ⟨refl_of Volume.Spares h.fs, rfl⟩

/-- The open files of a parked volume that is taken up are inside their files. -/
theorem seated_inhibitOff (hs : h.Seated) (hl : h.Ledger false) :
    wp inhibitOff (fun _ h' => h'.Seated) anyStop h := by
  unfold inhibitOff
  rw [wp_bind, wp_get]
  obtain hb | ⟨he, -⟩ := hl
  · rw [if_neg (by simp [hb.mounted]), wp_bind]
    have ht := hs hb.mounted
    refine wp_conseq (spares_sameVolumeNow h) fun same h₁ hs₁ => ?_
    split
    · exact fun _ => ht.spared hs₁
    · rw [wp_bind]
      have hdirty := (spares_useFs (spares_onVolume (setVolumeDirty (δ := δ) true))).after hs₁
      refine wp_conseq hdirty fun ok h₂ hs₂ => ?_
      split
      · exact fun _ => (ht.spared hs₂).congr rfl rfl
      · exact fun _ => ht.spared hs₂
  · rw [if_pos (by simp [he.mounted]), wp_bind]
    have hfits : wp mountFs (fun ok h' => ok = true → h'.Fits) anyStop h := fits_mountFs he
    refine wp_mono (wp_and hfits (wp_mountFs he)) ?_ (fun _ _ _ => trivial)
    rintro ok h₁ ⟨ht₁, hmount⟩
    cases ok with
    | false => exact .of_unmounted hmount.1.mounted
    | true =>
      rw [if_neg (by decide), wp_bind]
      exact wp_conseq (spares_addVolume h₁) fun _ _ hs₂ _ => ((ht₁ rfl).spared hs₂).congr rfl rfl

/-- A packet that needs the medium. -/
theorem fits_dispatch {p : Packet} (hp : p.needsMedium = true) (ht : h.Fits) (hl : h.fs.Linked)
    (hsteady : h.Steady p) : wp (dispatch p) (fun _ h' => h'.Fits) anyStop h := by
  have hspares : ∀ {m : HandlerM δ PacketReply}, Yields Handler.Spares m →
      wp m (fun _ h' => h'.Fits) anyStop h := fun hm => wp_conseq (hm h) fun _ _ hs => ht.spared hs
  cases p with
  | locateObject lock name => exact hspares (spares_doLocateObject _ _)
  | copyDir lock => exact hspares (spares_doCopyDir _)
  | copyDirFh file => exact hspares (spares_doLockFromFh _ _)
  | parentFh file => exact hspares (spares_doLockFromFh _ _)
  | parent lock => exact hspares (spares_doParent _)
  | examineObject lock => exact hspares (spares_doExamineObject _)
  | examineNext lock key => exact hspares (spares_doExamineNext _ _)
  | examineFh file fib => exact hspares (spares_doExamineFh _ _)
  | find mode fh lock name => exact fits_doOpen ht hl hsteady
  | fhFromLock fh lock => exact fits_doFhFromLock ht fh lock
  | read file length => exact fits_doRead ht file length
  | write file buffer length => exact fits_doWrite ht hsteady
  | seek file offset mode => exact fits_doSeek ht file offset mode
  | setFileSize file offset mode => exact fits_doSetFileSize ht hsteady
  | setProtect lock name bits => exact hspares (spares_doSetProtect _ _ _)
  | setDate lock name ds => exact hspares (spares_doSetDate _ _ _)
  | setComment lock name comment => exact hspares (spares_doSetComment _ _ _)
  | createDir lock name =>
    exact wp_conseq (spares_doCreateDir lock name hl) fun _ _ hs => ht.spared hs
  | renameDisk name => exact hspares (spares_doRenameDisk _)
  | deleteObject lock name => exact hspares (spares_doDeleteObject _ _)
  | renameObject src srcName dst dstName => exact hspares (spares_doRenameObject _ _ _ _)
  | freeLock _ | sameLock _ _ | format _ | endFile _ | info | currentVolume | isFilesystem | flush
  | inhibit _ | die | unknown => cases hp

/-- A packet that needs no medium, while the volume is mounted. -/
theorem seated_dispatch {p : Packet} (hp : p.needsMedium = false) (ht : h.Fits)
    (hb : h.Books ⟨h.quit, h.inhibited, false⟩ 0) :
    wp (dispatch p) (fun _ h' => h'.Seated) anyStop h := by
  have hspares : ∀ {m : HandlerM δ PacketReply}, Yields Handler.Spares m →
      wp m (fun _ h' => h'.Seated) anyStop h := fun hm =>
    wp_conseq (hm h) fun _ _ hs _ => ht.spared hs
  -- The packets that may unmount the volume are those that give something back.
  cases p with
  | freeLock l =>
    show wp (exfatAmigaFreelock l >>= _) _ _ h
    rw [wp_bind]
    refine wp_mono (wp_and (spares_exfatAmigaFreelock l h) (serves_exfatAmigaFreelock l h hb)) ?_
      (fun _ _ _ => trivial)
    rintro _ h₁ ⟨hs₁, hb₁⟩
    rw [wp_bind]
    exact wp_conseq (wp_releaseIfIdle_of hb₁ .of_unmounted fun _ => ht.spared hs₁) fun _ _ hs => hs
  | endFile f =>
    show wp (doEnd f >>= _) _ _ h
    rw [wp_bind]
    refine wp_mono (wp_and (fits_doEnd ht f) (balanced_doEnd f h hb)) ?_ (fun _ _ _ => trivial)
    rintro _ h₁ ⟨ht₁, hb₁⟩
    rw [wp_bind]
    exact wp_conseq (wp_releaseIfIdle_of hb₁ .of_unmounted fun _ => ht₁) fun _ _ hs => hs
  | sameLock a b => exact hspares (spares_doSameLock a b)
  | format label => exact hspares (spares_doFormat label)
  | info => exact hspares (yields_bind spares_fillInfodata fun _ => yields_pure _)
  | flush => exact hspares spares_doFlush
  | die => exact hspares spares_doDie
  | inhibit on =>
    -- the volume is parked, taken up again, or left alone
    show wp (doInhibit on) _ _ h
    unfold doInhibit
    rw [wp_bind, wp_get]
    split
    · refine wp_inhibitOn_of hb .of_unmounted (wp_conseq (spares_park h) fun _ _ hs _ => ?_)
      exact (ht.spared hs).congr rfl rfl
    · split
      · exact seated_inhibitOff (fun _ => ht) (.inl hb)
      · exact fun _ => ht
  | currentVolume | isFilesystem | unknown => exact fun _ => ht
  | locateObject _ _ | copyDir _ | copyDirFh _ | parentFh _ | parent _ | examineObject _
  | examineNext _ _ | examineFh _ _ | find _ _ _ _ | fhFromLock _ _ | read _ _ | write _ _ _
  | seek _ _ _ | setFileSize _ _ _ | setProtect _ _ _ | setDate _ _ _ | setComment _ _ _
  | deleteObject _ _ | createDir _ _ | renameObject _ _ _ _ | renameDisk _ => cases hp

/-- One packet leaves the open files inside their files, if it is steady. -/
theorem seated_servePacket {p : Packet} (hl : h.Ledger false) (hw : h.Watched False) (hs : h.Seated)
    (hsteady : h.Steady p) : wp (servePacket p) (fun _ h' => h'.Seated) anyStop h := by
  unfold servePacket
  rw [wp_bind, wp_get]
  split
  · exact hs
  next hserve =>
    cases hmedium : p.needsMedium with
    | true =>
      have hi : h.inhibited = false := by simpa [hmedium] using hserve
      obtain hb | ⟨-, hi'⟩ := hl
      · have hdispatch := fits_dispatch hmedium (hs hb.mounted) (hw hb.mounted).linked hsteady
        exact wp_conseq hdispatch fun _ _ ht _ => ht
      · exact absurd (hi.symm.trans hi') (by decide)
    | false =>
      obtain hb | ⟨he, hi⟩ := hl
      · exact seated_dispatch hmedium (hs hb.mounted) hb
      · exact wp_dispatch_empty hmedium he hi .of_unmounted (seated_inhibitOff hs (.inr ⟨he, hi⟩))

end Step

/-! ### Whole runs -/

section Run

variable [Device δ] {h : Handler δ}

/-- Every packet is steady when its turn comes. -/
def BatchSteady : List Packet → Handler δ → Prop
  | [], _ => True
  | p :: ps, h => h.Steady p ∧ ∀ r h', servePacket p h = .ok r h' → BatchSteady ps h'

/-- The open files are inside their files after a batch. -/
theorem seated_serveBatch (ps : List Packet) (hl : h.Ledger false) (hw : h.Watched False)
    (hs : h.Seated) (hsteady : BatchSteady ps h) :
    wp (serveBatch ps) (fun _ h' => h'.Ledger false ∧ h'.Seated) anyStop h := by
  induction ps generalizing h with
  | nil => exact ⟨hl, hs⟩
  | cons p ps ih =>
    unfold serveBatch
    rw [wp_bind]
    have hwatched := wp_servePacket_watched hl hw (p := p) False.elim
    have hstep := wp_and hwatched (seated_servePacket hl hw hs hsteady.1)
    have hall := wp_and (wp_servePacket_ledger p hl) hstep
    refine wp_mono (wp_run (wp_mono hall (fun _ _ hs => hs) fun _ _ _ => trivial)) ?_
      (fun _ _ _ => trivial)
    rintro r h' ⟨hrun, hl', hw', hs'⟩
    rw [wp_bind]
    exact wp_conseq (ih hl' hw' hs' (hsteady.2 r h' hrun)) fun _ _ hs => hs

omit [Device δ] in
/-- Between two packets the nodes of the open files are in memory. -/
theorem Handler.Seated.positionsFit (hl : h.Ledger false) (hs : h.Seated) : h.PositionsFit := by
  intro f file hf
  obtain hb | ⟨he, -⟩ := hl
  · obtain ⟨n, hn⟩ := hb.inUse (fun _ => le_rfl) (Handler.inUse_of_file hf)
    exact ⟨n, hn, (hs hb.mounted).within hf hn⟩
  · cases (h.files.get?_eq_none_of_size he.files).symm.trans hf

/-- No file is open at the start. -/
theorem seated_startup (ef : Ef δ) (outside : Outside δ) :
    wp startup (fun _ h => h.Seated) anyStop (Handler.start ef outside) := by
  unfold startup
  rw [wp_bind]
  have he := empty_start ef outside
  have hmount : wp mountFs (fun ok h' => ok = true → h'.Fits) anyStop (Handler.start ef outside) :=
    fits_mountFs he
  refine wp_mono (wp_and hmount (wp_mountFs he)) ?_ (fun _ _ _ => trivial)
  rintro ok h₁ ⟨ht₁, hfail⟩
  cases ok with
  | false => exact .of_unmounted hfail.1.mounted
  | true =>
    rw [if_neg (by decide), wp_bind]
    exact wp_conseq (spares_addVolume h₁) fun _ _ hs₂ _ => (ht₁ rfl).spared hs₂

/-- In a run of steady packets every open file stands between the beginning and the end of its file
after every packet, whatever the medium does. -/
theorem serveFrom_positionsFit (ef : Ef δ) (outside : Outside δ) (ps : List Packet)
    (hsteady : ∀ h₀, startup (Handler.start ef outside) = .ok true h₀ → BatchSteady ps h₀)
    {u : PUnit} (hrun : serveFrom ps (Handler.start ef outside) = .ok u h) : h.PositionsFit := by
  have hserve : wp (serveFrom ps) (fun _ h => h.PositionsFit) anyStop
      (Handler.start ef outside) := by
    unfold serveFrom
    rw [wp_bind]
    have hwatched : wp startup (fun ok h => h.Watched False ∧
        if ok then h.Ledger false else h.Empty)
        anyStop (Handler.start ef outside) := wp_startup_watched ef outside
    refine wp_mono (wp_run (wp_mono (wp_and hwatched (seated_startup ef outside)) (fun _ _ hs => hs)
      fun _ _ _ => trivial)) ?_ (fun _ _ _ => trivial)
    rintro ok h₀ ⟨hrun, ⟨hw, hstart⟩, hs⟩
    cases ok with
    | false =>
      intro f file hf
      have he : h₀.Empty := hstart
      cases (h₀.files.get?_eq_none_of_size he.files).symm.trans hf
    | true =>
      have hl : h₀.Ledger false := hstart
      rw [if_pos rfl, wp_bind]
      refine wp_conseq (seated_serveBatch ps hl hw hs (hsteady h₀ hrun)) ?_
      rintro _ h ⟨hl', hs'⟩
      exact hs'.positionsFit hl'
  exact wp_anyStop_iff.1 hserve u h hrun

end Run

/-! ### Two files on one node -/

/-- Enough for a packet to be steady: where it makes a file shorter, the other open files stand at
the beginning. -/
def Handler.calm (h : Handler Flat) : Packet → Bool
  | .write (some f) _ length => (h.files.get? f).all fun file => decide (file.pos + length < 2 ^ 63)
  | .setFileSize (some f) _ _ => h.files.entries.all fun e => decide (e.1 = f ∨ e.2.pos ≤ 0)
  | .find .new true _ _ => h.files.entries.all fun e => decide (e.2.pos ≤ 0)
  | _ => true

/-- A packet that is found calm is steady. -/
theorem Handler.steady_of_calm {h : Handler Flat} {p : Packet} (hcalm : h.calm p = true) :
    h.Steady p := by
  unfold Handler.Steady
  split
  next f _ length =>
    intro file hfile
    have hall : (h.files.get? f).all (fun file => decide (file.pos + length < 2 ^ 63)) = true :=
      hcalm
    rw [hfile] at hall
    exact of_decide_eq_true hall
  · intro file n newsize _ _ _ _ _ hnew g other hne hother _
    have hall := List.all_eq_true.1 hcalm _ (h.files.mem_of_get? hother)
    exact le_trans ((of_decide_eq_true hall).resolve_left hne) hnew
  · intro _ path h₁ i t _ _ g other hother _
    exact of_decide_eq_true (List.all_eq_true.1 hcalm _ (h.files.mem_of_get? hother))
  · trivial

/-- The packets are served, and each is calm when its turn comes. -/
def calmBatch : List Packet → Handler Flat → Bool
  | [], _ => true
  | p :: ps, h => h.calm p && returns (fun _ h' => calmBatch ps h') (servePacket p h)

/-- A batch that is found calm is steady. -/
theorem batchSteady_of_calm {ps : List Packet} {h : Handler Flat} (hcalm : calmBatch ps h = true) :
    BatchSteady ps h := by
  induction ps generalizing h with
  | nil => trivial
  | cons p ps ih =>
    obtain ⟨hp, hrest⟩ := Bool.and_eq_true_iff.1 hcalm
    refine ⟨Handler.steady_of_calm hp, fun r h' hrun => ih ?_⟩
    rw [hrun] at hrest
    exact hrest

/-- A file is made and opened a second time, and ten bytes are written to it; the first opening goes
back to the beginning before the second makes the file shorter. -/
theorem serveFrom_positionsFit_card :
    ∃ h, serveFrom [.find .new true none nameA, .find .update true none nameA,
      .write (some 1) (fun _ => 0) 10, .seek (some 1) 0 (-1), .setFileSize (some 2) 4 (-1)]
      cardStart = .ok ⟨⟩ h ∧
      h.files.size = 2 ∧ (∀ file ∈ h.files.get? 1, ∀ n ∈ h.fs.heap file.node, n.size = 4) ∧
      h.PositionsFit := by
  have htest : returns (fun _ h => h.files.size = 2 ∧
      ∀ file ∈ h.files.get? 1, ∀ n ∈ h.fs.heap file.node, n.size = 4)
      (serveBatch [.find .new true none nameA, .find .update true none nameA,
        .write (some 1) (fun _ => 0) 10, .seek (some 1) 0 (-1), .setFileSize (some 2) 4 (-1)]
        cardReady) = true := by
    decide +kernel
  have hcalm : calmBatch [.find .new true none nameA, .find .update true none nameA,
      .write (some 1) (fun _ => 0) 10, .seek (some 1) 0 (-1), .setFileSize (some 2) 4 (-1)]
      cardReady = true := by
    decide +kernel
  obtain ⟨rs, h, hrun, hsizes⟩ := of_returns htest
  obtain ⟨htwo, hfour⟩ := of_decide_eq_true hsizes
  have hserve := run_serveFrom startup_cardStart hrun
  refine ⟨_, hserve, htwo, hfour, serveFrom_positionsFit _ _ _ (fun h₀ hstart => ?_) hserve⟩
  obtain ⟨-, rfl⟩ := EStateM.Result.ok.inj (startup_cardStart.symm.trans hstart)
  exact batchSteady_of_calm hcalm

/-- Through its second opening a file of ten bytes is made empty; the first stays behind its end. -/
theorem serveFrom_not_positionsFit :
    ∃ h, serveFrom [.find .new true none nameA, .find .update true none nameA,
      .write (some 1) (fun _ => 0) 10, .setFileSize (some 2) 0 (-1)] cardStart = .ok ⟨⟩ h ∧
      ¬ h.PositionsFit := by
  have htest : returns (fun _ h => (h.files.get? 1).any fun file =>
    (h.fs.heap file.node).any fun n =>
      decide ((n.size : Int) < file.pos))
        (serveBatch [.find .new true none nameA, .find .update true none nameA,
        .write (some 1) (fun _ => 0) 10, .setFileSize (some 2) 0 (-1)] cardReady) = true := by
    decide +kernel
  obtain ⟨rs, h, hrun, htest⟩ := of_returns htest
  obtain ⟨file, hfile, htest⟩ := (Option.any_eq_true ..).1 htest
  obtain ⟨n, hn, hbehind⟩ := (Option.any_eq_true ..).1 htest
  refine ⟨h, run_serveFrom startup_cardStart hrun, fun hfit => ?_⟩
  obtain ⟨n', hn', -, hin⟩ := hfit 1 file hfile
  cases hn.symm.trans hn'
  exact absurd hin (Int.not_le.2 (of_decide_eq_true hbehind))

end ExFat
