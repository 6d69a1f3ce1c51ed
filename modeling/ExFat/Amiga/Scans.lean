import ExFat.Amiga.Lifetime
import ExFat.Fs.Paths

namespace ExFat

open Program

/-!
# Where the scans stand

A lock on a directory remembers the child its scan goes on with.  Nothing counts this pointer as a
reference: `scan_skip_node` and `scan_invalidate_all` move it when an entry goes, and both find the
locks through the volume node.  `Handler.Tidy` says that every scan stands on a child of the
directory its lock is on.  All packets but two leave it so; `ACTION_DELETE_OBJECT` without a volume
node and `ACTION_RENAME_OBJECT` that fails half way do not.
-/

variable {δ : Type} {α β : Type}

/-! ### The state -/

/-- Every scan stands on a child of the directory its lock is on. -/
def Handler.ScansStand (h : Handler δ) : Prop :=
  ∀ l lock s, h.locks.get? l = some lock → lock.scanNext = some s →
    ∃ d n, h.fs.heap lock.node = some d ∧ s ∈ d.child ∧ h.fs.heap s = some n ∧
    n.parent = some lock.node

/-- The state inside a packet: the nodes are linked and, as far as the packets have been careful,
the scans stand on children of their directories.  A directory may be gone until the packet ends. -/
structure Handler.Tidy (careful : Prop) (h : Handler δ) : Prop where
  linked : h.fs.Linked
  scans : careful → ∀ {l lock s}, h.locks.get? l = some lock → lock.scanNext = some s →
    lock.node < h.fs.fresh ∧ ∀ k, h.fs.kin lock.node = some k → s ∈ k.child

/-- The routine leaves the state tidy when it returns. -/
def Tidies (careful : Prop) (m : HandlerM δ α) : Prop :=
  ∀ h : Handler δ, h.Tidy careful → wp m (fun _ h' => h'.Tidy careful) anyStop h

/-- The scans stay on children of their directories when the tree only grows. -/
theorem Handler.Tidy.grown {careful : Prop} {g : Set NodeId} {h h' : Handler δ}
    (ht : h.Tidy careful) (hfs : h'.fs.Linked) (hg : h.fs.Grown g ∅ h'.fs)
    (hl : h'.locks = h.locks) : h'.Tidy careful := by
  refine ⟨hfs, fun hc l lock s hlock hs => ?_⟩
  rw [hl] at hlock
  obtain ⟨hlt, hmem⟩ := ht.scans hc hlock hs
  refine ⟨Nat.lt_of_lt_of_le hlt hg.grown.le, fun k' hk' => ?_⟩
  cases hk : h.fs.kin lock.node with
  | none =>
    rw [hg.grown.dead hlt hk] at hk'
    cases hk'
  | some k => exact hg.grown.child hk hk' (hmem k hk) (Set.notMem_empty _)

/-- Whether the state is tidy depends on the tree and the locks. -/
theorem Handler.Tidy.congr {careful : Prop} {h h' : Handler δ} (ht : h.Tidy careful)
    (hfs : h'.fs = h.fs) (hl : h'.locks = h.locks) : h'.Tidy careful := by
  refine ht.grown (g := ∅) ?_ ?_ hl
  · rw [hfs]
    exact ht.linked
  · rw [hfs]
    exact TreeRel.refl _

section Calculus

variable {careful : Prop}

/-- Returning a value changes nothing. -/
theorem Tidies.pure (a : α) : Tidies careful (pure a : HandlerM δ α) := fun _ ht => ht

/-- A routine that stops leaves no state. -/
theorem Tidies.throw (e : Halt) : Tidies careful (throw e : HandlerM δ α) := fun _ _ => trivial

/-- Two routines in a row. -/
theorem Tidies.bind {m : HandlerM δ α} {f : α → HandlerM δ β} (hm : Tidies careful m)
    (hf : ∀ a, Tidies careful (f a)) : Tidies careful (m >>= f) := by
  intro h ht
  rw [wp_bind]
  exact wp_conseq (hm h ht) fun a h' ht' => hf a h' ht'

/-- A routine that looks at the state first. -/
theorem Tidies.look {f : Handler δ → HandlerM δ β} (hf : ∀ h, Tidies careful (f h)) :
    Tidies careful (get >>= f) := fun h => hf h h

/-- A branch. -/
theorem Tidies.ite {c : Prop} [Decidable c] {m₁ m₂ : HandlerM δ α} (h₁ : Tidies careful m₁)
    (h₂ : Tidies careful m₂) : Tidies careful (if c then m₁ else m₂) := by
  split
  · exact h₁
  · exact h₂

/-- Assignments to the rest of the state. -/
theorem Tidies.modify {f : Handler δ → Handler δ} (hfs : ∀ h, (f h).fs = h.fs)
    (hl : ∀ h, (f h).locks = h.locks) : Tidies careful (modify f) :=
      fun h ht => ht.congr (hfs h) (hl h)

/-- An answer changes nothing. -/
theorem tidies_answer (res1 : Int) (res2 : Option DosError) :
    Tidies careful (answer (δ := δ) res1 res2) := Tidies.pure _

/-- A refusal changes nothing. -/
theorem tidies_refuse (e : DosError) : Tidies careful (refuse (δ := δ) e) := Tidies.pure _

/-- Asking the outside changes nothing. -/
theorem tidies_ask (f : Outside δ → Nat → α) : Tidies careful (ask f) := by
  intro h ht
  exact ht.congr rfl rfl

/-- The state a routine of libexfat leaves. -/
theorem wp_useFs {m : TreeM δ α} {Q : α → Handler δ → Prop} {E : Halt → Handler δ → Prop}
    {h : Handler δ}
    (hm : wp m (fun a t => Q a { h with fs := t, trace := .use h.mounted :: h.trace })
      (fun e t => E e { h with fs := t, trace := .use h.mounted :: h.trace }) h.fs) :
    wp (useFs m) Q E h := by
  unfold useFs note onFs
  rw [wp_bind, wp_get, wp_bind, wp_modify, wp_zoom]
  exact hm

/-- A routine of libexfat that takes nothing out of a directory. -/
theorem tidies_useFs {g : Set NodeId} {m : TreeM δ α} (hm : Tends (Volume.Grown g ∅) m) :
    Tidies careful (useFs m) :=
  fun h ht => wp_useFs <| wp_conseq (hm h.fs ht.linked) fun _ _ hs => ht.grown hs.1 hs.2 rfl

/-- A call of the library that leaves the family tree alone. -/
theorem tidies_useFs_kin {m : TreeM δ α} (hm : Keeps Volume.SameKin m) : Tidies careful (useFs m) :=
  tidies_useFs (g := ∅) (Tends.of_kin hm)

/-- `exfat_get_node` leaves the state tidy. -/
theorem tidies_get (i : NodeId) : Tidies careful (useFs (exfatGetNode (δ := δ) i)) :=
  tidies_useFs_kin (kin_exfatGetNode i)

/-- `exfat_put_node` leaves the state tidy. -/
theorem tidies_put (i : NodeId) : Tidies careful (useFs (exfatPutNode (δ := δ) i)) :=
  tidies_useFs_kin (kin_exfatPutNode i)

/-- `getNode` leaves the state tidy. -/
theorem tidies_getNode (i : NodeId) : Tidies careful (useFs (getNode (δ := δ) i)) :=
  tidies_useFs_kin (links_getNode i)

/-- Let go of a node and answer. -/
theorem tidies_put_reply (i : NodeId) {m : HandlerM δ PacketReply} (hm : Tidies careful m) :
    Tidies careful (do
      useFs (exfatPutNode i)
      m) := Tidies.bind (tidies_put i) fun _ => hm

/-! ### Locks and files -/

/-- `lockAt` leaves the state tidy. -/
theorem tidies_lockAt (l : Option LockId) : Tidies careful (lockAt (δ := δ) l) := by
  cases l with
  | none => exact Tidies.pure _
  | some l =>
    refine Tidies.look fun h => ?_
    cases h.locks.get? l with
    | none => exact Tidies.throw _
    | some lock => exact Tidies.pure _

/-- `fileAt` leaves the state tidy. -/
theorem tidies_fileAt (f : Option FileId) : Tidies careful (fileAt (δ := δ) f) := by
  cases f with
  | none => exact Tidies.pure _
  | some f =>
    refine Tidies.look fun h => ?_
    cases h.files.get? f with
    | none => exact Tidies.throw _
    | some file => exact Tidies.pure _

/-- `lockNode` leaves the state tidy. -/
theorem tidies_lockNode (lock : Option Lock) : Tidies careful (lockNode (δ := δ) lock) :=
  Tidies.look fun _ => Tidies.pure _

/-- `resolve` leaves the state tidy. -/
theorem tidies_resolve (lock : Option LockId) (name : Bstr) :
    Tidies careful (resolve (δ := δ) lock name) :=
  Tidies.bind (tidies_lockAt lock) fun _ => tidies_useFs_kin (links_of_same (same_resolvePath _ _))

/-- A new lock has no scan. -/
theorem tidies_exfatAmigaMakelock (i : NodeId) (access : Access) :
    Tidies careful (exfatAmigaMakelock (δ := δ) i access) := by
  refine Tidies.bind (tidies_ask _) fun ok => Tidies.ite (Tidies.pure _) ?_
  intro h ht
  refine ⟨ht.linked, fun hc l lock s hlock hs => ?_⟩
  obtain hold | rfl := h.locks.of_get?_insert hlock
  · exact ht.scans hc hold hs
  · cases hs

/-- `exfat_amiga_freelock` leaves the state tidy. -/
theorem tidies_exfatAmigaFreelock (l : Option LockId) :
    Tidies careful (exfatAmigaFreelock (δ := δ) l) := by
  cases l with
  | none => exact Tidies.pure _
  | some l =>
    refine Tidies.bind (tidies_lockAt _) fun lock => ?_
    cases lock with
    | none => exact Tidies.pure _
    | some lock =>
      refine Tidies.bind (Tidies.modify (fun _ => rfl) fun _ => rfl) fun _ => ?_
      refine Tidies.bind (tidies_put _) fun _ => ?_
      intro h ht
      refine ⟨ht.linked, fun hc l' lock' s hlock hs => ht.scans hc (l := l') ?_ hs⟩
      exact h.locks.get?_of_erase hlock

/-- `giveLock` leaves the state tidy. -/
theorem tidies_giveLock (i : NodeId) (access : Access) :
    Tidies careful (giveLock (δ := δ) i access) := by
  refine Tidies.bind (tidies_exfatAmigaMakelock i access) fun r => ?_
  cases r with
  | none => exact tidies_put_reply i (tidies_refuse _)
  | some lock => exact tidies_answer _ _

/-- `giveFile` leaves the state tidy. -/
theorem tidies_giveFile (i : NodeId) (writable : Bool) :
    Tidies careful (giveFile (δ := δ) i writable) := by
  refine Tidies.bind (tidies_ask _) fun ok => Tidies.ite (tidies_put_reply i (tidies_refuse _)) ?_
  intro h ht
  exact ht.congr rfl rfl

/-- `setPos` leaves the state tidy. -/
theorem tidies_setPos (f : Option FileId) (pos : Int) : Tidies careful (setPos (δ := δ) f pos) := by
  cases f with
  | none => exact Tidies.pure _
  | some f => exact Tidies.modify (fun _ => rfl) fun _ => rfl

end Calculus

/-! ### The packets that take nothing out of a directory -/

section Packets

variable [Device δ] {careful : Prop}

/-- `exfat_lookup` leaves the state tidy. -/
theorem tidies_lookup (path : List UInt8) : Tidies careful (useFs (exfatLookup (δ := δ) path)) :=
  tidies_useFs (g := ∅) (tends_exfatLookup path)

/-- `do_locate_object` leaves the state tidy. -/
theorem tidies_doLocateObject (lock : Option LockId) (name : Bstr) :
    Tidies careful (doLocateObject (δ := δ) lock name) := by
  refine Tidies.bind (tidies_resolve lock name) fun path => ?_
  cases path with
  | none => exact tidies_refuse _
  | some path =>
    refine Tidies.bind (tidies_lookup path) fun r => ?_
    cases r with
    | error e => exact tidies_refuse _
    | ok i => exact tidies_giveLock i _

omit [Device δ] in
/-- `do_copy_dir` leaves the state tidy. -/
theorem tidies_doCopyDir (lock : Option LockId) : Tidies careful (doCopyDir (δ := δ) lock) :=
  Tidies.bind (tidies_lockAt lock) fun l => Tidies.bind (tidies_lockNode l) fun i =>
    Tidies.bind (tidies_get i) fun _ => tidies_giveLock i _

omit [Device δ] in
/-- `do_lock_from_fh` leaves the state tidy. -/
theorem tidies_doLockFromFh (file : Option FileId) (wantParent : Bool) :
    Tidies careful (doLockFromFh (δ := δ) file wantParent) := by
  refine Tidies.bind (tidies_fileAt file) fun file => ?_
  cases file with
  | none => exact tidies_refuse _
  | some file =>
    have hgive : ∀ i, Tidies careful (do
        useFs (exfatGetNode (δ := δ) i)
        giveLock i .shared) := fun i => Tidies.bind (tidies_get i) fun _ => tidies_giveLock i _
    cases wantParent with
    | false => exact Tidies.bind (Tidies.pure _) hgive
    | true =>
      refine Tidies.bind (tidies_useFs_kin ?_) hgive
      exact keeps_bind (links_getNode _) fun _ => keeps_look fun _ => keeps_pure _

omit [Device δ] in
/-- `do_parent` leaves the state tidy. -/
theorem tidies_doParent (lock : Option LockId) : Tidies careful (doParent (δ := δ) lock) := by
  refine Tidies.bind (tidies_lockAt lock) fun src => ?_
  cases src with
  | none => exact tidies_answer _ _
  | some src =>
    refine Tidies.bind (tidies_useFs_kin ?_) fun parent => ?_
    · refine keeps_look fun t => keeps_ite (keeps_pure _) ?_
      exact keeps_bind (links_getNode _) fun _ => keeps_pure _
    · cases parent with
      | none => exact tidies_answer _ _
      | some p => exact Tidies.bind (tidies_get p) fun _ => tidies_giveLock p _

omit [Device δ] in
/-- `doSameLock` leaves the state tidy. -/
theorem tidies_doSameLock (a b : Option LockId) : Tidies careful (doSameLock (δ := δ) a b) :=
  Tidies.bind (tidies_lockAt a) fun la => Tidies.bind (tidies_lockNode la) fun _ =>
    Tidies.bind (tidies_lockAt b) fun lb => Tidies.bind (tidies_lockNode lb) fun _ =>
      tidies_answer _ _

omit [Device δ] in
/-- `do_examine_fh` leaves the state tidy. -/
theorem tidies_doExamineFh (file : Option FileId) (fib : Bool) :
    Tidies careful (doExamineFh (δ := δ) file fib) := by
  refine Tidies.bind (tidies_fileAt file) fun file => ?_
  cases file with
  | none => exact tidies_refuse _
  | some file =>
    refine Tidies.ite (tidies_refuse _) ?_
    exact Tidies.bind (tidies_useFs_kin (links_of_same (same_fillFib _ _ _))) fun _ => Tidies.pure _

/-- `openCreate` leaves the state tidy. -/
theorem tidies_openCreate (path : List UInt8) : Tidies careful (openCreate (δ := δ) path) := by
  refine Tidies.bind (tidies_useFs (tends_create path _)) fun r => ?_
  cases r with
  | error e => exact tidies_refuse _
  | ok _ =>
    refine Tidies.bind (tidies_lookup path) fun r => ?_
    cases r with
    | error e => exact tidies_refuse _
    | ok i => exact tidies_giveFile i _

/-- `openExisting` leaves the state tidy. -/
theorem tidies_openExisting (mode : OpenMode) (i : NodeId) :
    Tidies careful (openExisting (δ := δ) mode i) := by
  refine Tidies.bind (tidies_getNode i) fun n => ?_
  refine Tidies.ite (tidies_put_reply i (tidies_refuse _)) (Tidies.ite ?_ (tidies_giveFile i _))
  refine Tidies.bind (tidies_useFs_kin (links_onNode i (keeps_exfatTruncate _ _))) fun r => ?_
  cases r with
  | error e =>
    refine Tidies.bind (tidies_useFs_kin (links_exfatFlushNode i)) fun _ => ?_
    exact tidies_put_reply i (tidies_refuse _)
  | ok _ => exact tidies_giveFile i _

/-- `do_open` leaves the state tidy. -/
theorem tidies_doOpen (mode : OpenMode) (fh : Bool) (lock : Option LockId) (name : Bstr) :
    Tidies careful (doOpen (δ := δ) mode fh lock name) := by
  refine Tidies.ite (tidies_refuse _) (Tidies.bind (tidies_resolve lock name) fun path => ?_)
  cases path with
  | none => exact tidies_refuse _
  | some path =>
    refine Tidies.look fun h => Tidies.ite (tidies_refuse _) ?_
    refine Tidies.bind (tidies_lookup path) fun r => ?_
    cases r with
    | error e => exact Tidies.ite (tidies_refuse _) (tidies_openCreate path)
    | ok i => exact tidies_openExisting mode i

omit [Device δ] in
/-- `do_fh_from_lock` leaves the state tidy. -/
theorem tidies_doFhFromLock (fh : Bool) (lock : Option LockId) :
    Tidies careful (doFhFromLock (δ := δ) fh lock) := by
  refine Tidies.bind (tidies_lockAt lock) fun l => ?_
  cases l with
  | none => exact tidies_refuse _
  | some l =>
    refine Tidies.ite (tidies_refuse _) (Tidies.bind (tidies_getNode _) fun n => ?_)
    refine Tidies.ite (tidies_refuse _) (Tidies.bind (tidies_ask _) fun ok => ?_)
    refine Tidies.ite (tidies_refuse _) (Tidies.bind (tidies_get _) fun _ => ?_)
    refine Tidies.bind (tidies_exfatAmigaFreelock lock) fun _ => ?_
    intro h ht
    exact ht.congr rfl rfl

/-- `do_end` leaves the state tidy. -/
theorem tidies_doEnd (file : Option FileId) : Tidies careful (doEnd (δ := δ) file) := by
  cases file with
  | none => exact tidies_answer _ _
  | some f =>
    refine Tidies.bind (tidies_fileAt _) fun file => ?_
    cases file with
    | none => exact tidies_answer _ _
    | some file =>
      refine Tidies.look fun h => Tidies.ite
        (Tidies.bind (tidies_useFs_kin (links_exfatFlushNode _)) ?close)
        (Tidies.bind (Tidies.pure _) ?close)
      intro rc
      refine Tidies.bind (tidies_put _) fun _ => ?_
      refine Tidies.bind (Tidies.modify (fun _ => rfl) fun _ => rfl) fun _ => ?_
      cases rc with
      | error e => exact tidies_refuse _
      | ok _ => exact tidies_answer _ _

/-- `do_read` leaves the state tidy. -/
theorem tidies_doRead (f : Option FileId) (length : Int) :
    Tidies careful (doRead (δ := δ) f length) := by
  refine Tidies.bind (tidies_fileAt f) fun file => ?_
  cases file with
  | none => exact tidies_answer _ _
  | some file =>
    refine Tidies.ite (tidies_answer _ _) (Tidies.ite (tidies_answer _ _) ?_)
    refine Tidies.bind (tidies_useFs_kin (links_onNode _ (keeps_exfatGenericPread _ _))) fun r => ?_
    cases r with
    | error e => exact tidies_answer _ _
    | ok r => exact Tidies.bind (tidies_setPos _ _) fun _ => Tidies.pure _

/-- `do_write` leaves the state tidy. -/
theorem tidies_doWrite (f : Option FileId) (buffer : Nat → UInt8) (length : Int) :
    Tidies careful (doWrite (δ := δ) f buffer length) := by
  refine Tidies.bind (tidies_fileAt f) fun file => ?_
  cases file with
  | none => exact tidies_answer _ _
  | some file =>
    refine Tidies.look fun h => Tidies.ite (tidies_answer _ _) (Tidies.ite (tidies_answer _ _) ?_)
    refine Tidies.ite (tidies_answer _ _) ?_
    refine Tidies.bind (tidies_useFs_kin (links_onNode _ (keeps_exfatGenericPwrite _ _)))
      fun r => ?_
    cases r with
    | error e => exact tidies_answer _ _
    | ok n => exact Tidies.bind (tidies_setPos _ _) fun _ => tidies_answer _ _

/-- `do_set_file_size` leaves the state tidy. -/
theorem tidies_doSetFileSize (f : Option FileId) (offset mode : Int) :
    Tidies careful (doSetFileSize (δ := δ) f offset mode) := by
  refine Tidies.bind (tidies_fileAt f) fun file => ?_
  cases file with
  | none => exact tidies_answer _ _
  | some file =>
    refine Tidies.look fun h => Tidies.ite (tidies_answer _ _)
      (Tidies.bind (tidies_getNode _) fun n => ?_)
    cases resolveOffset offset mode file.pos n.size with
    | none => exact tidies_answer _ _
    | some newsize =>
      refine Tidies.ite (tidies_answer _ _) ?_
      refine Tidies.bind (tidies_useFs_kin (links_onNode _ (keeps_exfatTruncate _ _))) fun r => ?_
      cases r with
      | error e => exact tidies_answer _ _
      | ok _ => exact Tidies.bind (tidies_setPos _ _) fun _ => tidies_answer _ _

omit [Device δ] in
/-- `do_seek` leaves the state tidy. -/
theorem tidies_doSeek (f : Option FileId) (offset mode : Int) :
    Tidies careful (doSeek (δ := δ) f offset mode) := by
  refine Tidies.bind (tidies_fileAt f) fun file => ?_
  cases file with
  | none => exact tidies_answer _ _
  | some file =>
    refine Tidies.bind (tidies_getNode _) fun n => ?_
    cases resolveOffset offset mode file.pos n.size with
    | none => exact tidies_answer _ _
    | some newpos =>
      refine Tidies.ite (tidies_answer _ _) ?_
      exact Tidies.bind (tidies_setPos _ _) fun _ => tidies_answer _ _

/-- `lookup_arg23` leaves the state tidy. -/
theorem tidies_lookupArg23 (lock : Option LockId) (name : Bstr) :
    Tidies careful (lookupArg23 (δ := δ) lock name) := by
  refine Tidies.bind (tidies_resolve lock name) fun path => ?_
  cases path with
  | none => exact Tidies.pure _
  | some path =>
    refine Tidies.bind (tidies_lookup path) fun r => ?_
    cases r with
    | error e => exact Tidies.pure _
    | ok i => exact Tidies.pure _

/-- `flushAndPut` leaves the state tidy. -/
theorem tidies_flushAndPut (i : NodeId) : Tidies careful (flushAndPut (δ := δ) i) := by
  refine Tidies.bind (tidies_useFs_kin (links_exfatFlushNode i)) fun rc => ?_
  refine tidies_put_reply i ?_
  cases rc with
  | error e => exact tidies_refuse _
  | ok _ => exact tidies_answer _ _

/-- The attributes change, but not whether the node is a directory. -/
theorem protectAttrib_testBit (attrib bits : Nat) :
    (protectAttrib attrib bits).testBit 4 = attrib.testBit 4 := by
  unfold protectAttrib
  split_ifs <;> simp only [Nat.testBit_or, Nat.testBit_and] <;> simp [attribRo,
    attribArch, Nat.testBit]

/-- `do_set_protect` leaves the state tidy. -/
theorem tidies_doSetProtect (lock : Option LockId) (name : Bstr) (bits : Nat) :
    Tidies careful (doSetProtect (δ := δ) lock name bits) := by
  refine Tidies.look fun h => Tidies.ite (tidies_refuse _) ?_
  refine Tidies.bind (tidies_lookupArg23 lock name) fun r => ?_
  cases r with
  | error e => exact tidies_refuse _
  | ok i =>
    refine Tidies.bind (tidies_getNode i) fun n => Tidies.ite ?_ ?_
    · exact tidies_put_reply i (tidies_answer _ _)
    · have hkin : ∀ n : Node,
          Node.kin { n with attrib := protectAttrib n.attrib bits, isDirty := true } =
          n.kin := by
        intro n
        unfold Node.kin Node.isDir
        rw [protectAttrib_testBit]
      refine Tidies.bind (tidies_useFs_kin (links_updateNode i hkin)) fun _ => ?_
      exact tidies_flushAndPut i

/-- `do_set_date` leaves the state tidy. -/
theorem tidies_doSetDate (lock : Option LockId) (name : Bstr) (ds : Option DateStamp) :
    Tidies careful (doSetDate (δ := δ) lock name ds) := by
  refine Tidies.look fun h => Tidies.ite (tidies_refuse _) ?_
  cases ds with
  | none => exact tidies_refuse _
  | some ds =>
    refine Tidies.bind (tidies_lookupArg23 lock name) fun r => ?_
    cases r with
    | error e => exact tidies_refuse _
    | ok i =>
      refine Tidies.bind (tidies_useFs_kin (links_updateNode i fun _ => rfl)) fun _ => ?_
      exact tidies_flushAndPut i

/-- `do_set_comment` leaves the state tidy. -/
theorem tidies_doSetComment (lock : Option LockId) (name : Bstr) (comment : Option Bstr) :
    Tidies careful (doSetComment (δ := δ) lock name comment) := by
  refine Tidies.look fun h => Tidies.ite (tidies_refuse _) (Tidies.ite (tidies_refuse _) ?_)
  refine Tidies.bind (tidies_lookupArg23 lock name) fun r => ?_
  cases r with
  | error e => exact tidies_refuse _
  | ok i => exact tidies_put_reply i (tidies_answer _ _)

/-- `do_create_dir` leaves the state tidy. -/
theorem tidies_doCreateDir (lock : Option LockId) (name : Bstr) :
    Tidies careful (doCreateDir (δ := δ) lock name) := by
  refine Tidies.look fun h => Tidies.ite (tidies_refuse _) ?_
  refine Tidies.bind (tidies_resolve lock name) fun path => ?_
  cases path with
  | none => exact tidies_refuse _
  | some path =>
    refine Tidies.bind (tidies_useFs (tends_exfatMkdir path)) fun r => ?_
    cases r with
    | error e => exact tidies_refuse _
    | ok _ =>
      refine Tidies.bind (tidies_lookup path) fun r => ?_
      cases r with
      | error e => exact tidies_refuse _
      | ok i => exact tidies_giveLock i _

/-- `do_rename_disk` leaves the state tidy. -/
theorem tidies_doRenameDisk (name : Option Bstr) : Tidies careful (doRenameDisk (δ := δ) name) := by
  refine Tidies.look fun h => Tidies.ite (tidies_refuse _) ?_
  cases name with
  | none => exact tidies_refuse _
  | some name =>
    refine Tidies.ite (tidies_refuse _) ?_
    refine Tidies.bind (tidies_useFs_kin (links_exfatSetLabel _)) fun r => ?_
    cases r with
    | error e => exact tidies_refuse _
    | ok _ =>
      refine Tidies.ite (Tidies.bind (tidies_ask _) fun ok => Tidies.ite ?_ ?_) (tidies_answer _ _)
      · exact Tidies.bind (Tidies.modify (fun _ => rfl) fun _ => rfl) fun _ => tidies_answer _ _
      · exact tidies_answer _ _

end Packets

/-! ### Scans -/

/-- The next child of the same directory. -/
theorem wp_nextSibling {i : NodeId} {t : Volume δ} (ht : t.Linked) :
    wp (nextSibling i) (fun r t' => t' = t ∧ ∀ s, r = some s →
      s ≠ i ∧ ∀ d k, t.kin d = some k → i ∈ k.child → s ∈ k.child) anyStop t := by
  unfold nextSibling
  rw [wp_bind]
  refine wp_getNode trivial fun n hn => ?_
  cases hp : n.parent with
  | none => exact ⟨rfl, nofun⟩
  | some p =>
    dsimp only
    rw [wp_bind]
    refine wp_getNode trivial fun m hm => ?_
    refine ⟨rfl, fun s hs => ?_⟩
    -- the node lies in the list of its parent, and once
    have hchild : i ∈ m.child := ht.up (Volume.kin_of_heap hn) hp (Volume.kin_of_heap hm)
    obtain ⟨l, r, hsplit⟩ := List.append_of_mem hchild
    have hnodup : m.child.Nodup := ht.nodup (Volume.kin_of_heap hm)
    rw [hsplit] at hnodup
    have hne : ∀ x ∈ l, (x != i) = true := by
      intro x hx
      rw [bne_iff_ne]
      rintro rfl
      exact (List.nodup_append.1 hnodup).2.2 x hx x (List.mem_cons_self ..) rfl
    have hdrop : m.child.dropWhile (· != i) = i :: r := by
      rw [hsplit, List.dropWhile_append_of_pos hne]
      exact List.dropWhile_cons_of_neg (by simp)
    rw [hdrop, List.drop_one, List.tail_cons] at hs
    have hmem : s ∈ r := List.mem_of_mem_head? hs
    refine ⟨?_, fun d k hd hi => ?_⟩
    · rintro rfl
      exact (List.nodup_cons.1 (List.nodup_append.1 hnodup).2.1).1 hmem
    -- a directory with this child is its parent
    · obtain ⟨c, hc, hcp⟩ := ht.down hd hi
      cases hc.symm.trans (Volume.kin_of_heap hn)
      cases hp.symm.trans hcp
      cases hd.symm.trans (Volume.kin_of_heap hm)
      show s ∈ m.child
      rw [hsplit]
      exact List.mem_append_right _ (List.mem_cons_of_mem _ hmem)

section Scans

variable {careful : Prop}

/-- A scan is put on a child of the directory of its lock. -/
theorem wp_setScan {h : Handler δ} (ht : h.Tidy careful) {lock : Option LockId}
    {next : Option NodeId}
    (hnext : careful → ∀ l lk s, lock = some l → h.locks.get? l = some lk → next = some s →
      ∃ k, h.fs.kin lk.node = some k ∧ s ∈ k.child) (index : Int) :
    wp (setScan lock next index) (fun _ h' => h'.Tidy careful) anyStop h := by
  cases lock with
  | none => exact ht
  | some l =>
    refine ⟨ht.linked, fun hc l' lk s hlk hs => ?_⟩
    have hold : ((h.locks.get? l').map fun lk : Lock =>
        if l' = l then { lk with scanNext := next, scanIndex := index } else lk) = some lk :=
      (h.locks.get?_map _).symm.trans hlk
    obtain ⟨lk', hlk', rfl⟩ := Option.map_eq_some_iff.1 hold
    by_cases heq : l' = l
    · subst heq
      rw [if_pos rfl] at hs ⊢
      obtain ⟨k, hk, hmem⟩ := hnext hc l' lk' s rfl hlk' hs
      refine ⟨ht.linked.lt hk, fun k' hk' => ?_⟩
      cases hk.symm.trans hk'
      exact hmem
    · rw [if_neg heq] at hs ⊢
      exact ht.scans hc hlk' hs

/-- A scan that stands on no child is on its directory. -/
theorem tidies_clearScan (lock : Option LockId) (index : Int) :
    Tidies careful (setScan (δ := δ) lock none index) := fun _ ht =>
  wp_setScan ht (fun _ _ _ _ _ _ hs => by cases hs) index

/-- `do_examine_object` leaves the state tidy. -/
theorem tidies_doExamineObject (lock : Option LockId) :
    Tidies careful (doExamineObject (δ := δ) lock) := by
  refine Tidies.bind (tidies_lockAt lock) fun l => Tidies.bind (tidies_lockNode l) fun i => ?_
  refine Tidies.bind (tidies_useFs_kin (keeps_look fun _ => links_of_same (same_fillFib _ _ _)))
    fun _ => ?_
  exact Tidies.bind (tidies_clearScan _ _) fun _ => Tidies.pure _

/-- The scan of a lock on the directory goes past its child `i`. -/
theorem wp_advance {f : FileInfoBlock → HandlerM δ PacketReply} (hf : ∀ fib, Tidies careful (f fib))
    {lock : Option LockId} {dir i : NodeId} {want : Int} {h : Handler δ} {k : Kin}
    (ht : h.Tidy careful) (hd : h.fs.kin dir = some k) (hi : careful → i ∈ k.child)
    (hl : ∀ l lk, lock = some l → h.locks.get? l = some lk → lk.node = dir) :
    wp (do
      let fib ← useFs (fillFib i (want + 1) false)
      let next ← useFs (nextSibling i)
      setScan lock next (want + 1)
      f fib) (fun _ h' => h'.Tidy careful) anyStop h := by
  rw [wp_bind]
  refine wp_useFs (wp_mono (same_fillFib i (want + 1) false h.fs) ?_ (fun _ _ _ => trivial))
  rintro fib t₁ rfl
  rw [wp_bind]
  refine wp_useFs (wp_conseq (wp_nextSibling (t := h.fs) ht.linked) ?_)
  rintro next t₂ ⟨rfl, hnext⟩
  rw [wp_bind]
  refine wp_conseq (wp_setScan ?_ ?_ (want + 1)) fun _ h' ht' => hf fib h' ht'
  · exact ht.congr rfl rfl
  · intro hc l lk s hlock hlk hs
    have hnode := hl l lk hlock hlk
    subst hnode
    exact ⟨k, hd, (hnext s hs).2 _ _ hd (hi hc)⟩

/-- `countTo` stops at one of the children. -/
theorem wp_countTo (want index : Int) (is : List NodeId) (t : Volume δ) :
    wp (countTo want index is) (fun r t' => t.SameKin t' ∧ ∀ i, r = some i → i ∈ is) anyStop t := by
  induction is generalizing index t with
  | nil => exact ⟨refl_of Volume.SameKin t, nofun⟩
  | cons i is ih =>
    unfold countTo
    rw [wp_bind]
    refine wp_mono (kin_exfatGetNode i t) ?_ (fun _ _ _ => trivial)
    intro _ t₁ h₁
    split
    · refine ⟨h₁, fun j hj => ?_⟩
      cases hj
      exact List.mem_cons_self ..
    · rw [wp_bind]
      refine wp_mono (kin_exfatPutNode i t₁) ?_ (fun _ _ _ => trivial)
      intro _ t₂ h₂
      refine wp_conseq (ih (index + 1) t₂) ?_
      rintro r t₃ ⟨h₃, hr⟩
      refine ⟨trans_of Volume.SameKin h₁ (trans_of Volume.SameKin h₂ h₃), fun j hj => ?_⟩
      exact List.mem_cons_of_mem _ (hr j hj)

variable [Device δ]

/-- A scan that counts ends on a child of its directory. -/
theorem wp_examineCounting {lock : Option LockId} {dir : NodeId} {want : Int} {h : Handler δ}
    (ht : h.Tidy careful) (hl : ∀ l lk, lock = some l → h.locks.get? l = some lk → lk.node = dir) :
    wp (examineCounting lock dir want) (fun _ h' => h'.Tidy careful) anyStop h := by
  unfold examineCounting
  rw [wp_bind]
  refine wp_useFs (wp_conseq (tends_exfatOpendir (R := Volume.Grown ∅ ∅) dir h.fs ht.linked) ?_)
  rintro r t₁ ⟨ht₁, h₁⟩
  have htidy₁ : Handler.Tidy careful { h with fs := t₁, trace := .use h.mounted :: h.trace } :=
    ht.grown ht₁ h₁ rfl
  -- the directory cannot be read: the scan stays where it was
  cases r with
  | error e => exact htidy₁
  | ok _ =>
    dsimp only
    rw [wp_bind]
    refine wp_useFs ?_
    dsimp only
    rw [wp_bind]
    refine wp_getNode trivial fun d hd => ?_
    refine wp_conseq (wp_countTo want 0 d.child t₁) ?_
    rintro found t₂ ⟨h₂, hfound⟩
    have hd₂ : t₂.kin dir = some d.kin := by
      have hkin₂ : t₂.kin = t₁.kin := h₂.view
      rw [hkin₂]
      exact Volume.kin_of_heap hd
    have htidy₂ : Handler.Tidy careful { h with
        fs := t₂, trace := .use h.mounted :: .use h.mounted :: h.trace } :=
      htidy₁.grown (g := ∅) (h₂.linked ht₁) h₂.grown rfl
    cases found with
    -- the child with the number; the scan moves behind it
    | some i =>
      have hputs : ∀ fib, Tidies careful (do
          useFs do
            exfatPutNode (δ := δ) i
            exfatPutNode dir
          pure { res1 := dosTrue, fib := some fib } : HandlerM δ PacketReply) := fun fib =>
        Tidies.bind (tidies_useFs_kin (keeps_bind (kin_exfatPutNode i) fun _ =>
          kin_exfatPutNode dir))
          fun _ => Tidies.pure _
      exact wp_advance hputs htidy₂ hd₂ (fun _ => hfound i rfl) hl
    -- no more entries: the scan is taken off the directory
    | none =>
      have hlast : Tidies careful (do
          useFs (exfatPutNode (δ := δ) dir)
          setScan lock none (-1)
          refuse .noMoreEntries) :=
        tidies_put_reply dir (Tidies.bind (tidies_clearScan _ _) fun _ => tidies_refuse _)
      exact hlast _ htidy₂

/-- `do_examine_next` on the directory `dir`, in which the scan of the lock stands. -/
theorem wp_examineNext {lock : Option LockId} {l : Option Lock} {dir : NodeId} {want : Int}
    {h : Handler δ} (ht : h.Tidy careful)
    (hl : ∀ a lk, lock = some a → h.locks.get? a = some lk → lk.node = dir)
    (hplace : careful → ∀ lk i, l = some lk → lk.scanNext = some i →
      ∀ k, h.fs.kin dir = some k → i ∈ k.child) :
    wp (do
      let d ← useFs (getNode dir)
      if !d.isDir then refuse .objectWrongType
      else
        match scanPlace l want d with
        | some i => do
          let fib ← useFs (fillFib i (want + 1) false)
          let next ← useFs (nextSibling i)
          setScan lock next (want + 1)
          pure { res1 := dosTrue, fib := some fib }
        | none => examineCounting lock dir want) (fun _ h' => h'.Tidy careful) anyStop h := by
  rw [wp_bind]
  refine wp_useFs (wp_getNode trivial fun d hd => ?_)
  have ht' : Handler.Tidy careful { h with fs := h.fs, trace := .use h.mounted :: h.trace } :=
    ht.congr rfl rfl
  have hkin : h.fs.kin dir = some d.kin := Volume.kin_of_heap hd
  split
  -- what the lock stands for is no directory
  · exact ht'
  -- The place is remembered in the lock, or it has to be counted.
  cases hscan : scanPlace l want d with
  | none => exact wp_examineCounting ht' hl
  | some i =>
    refine wp_advance (fun _ => Tidies.pure _) ht' hkin (fun hc => ?_) hl
    unfold scanPlace at hscan
    cases l with
    | none => cases hscan
    | some lk =>
      dsimp only at hscan
      split at hscan
      · exact hplace hc lk i rfl hscan _ hkin
      · cases hscan

/-- `do_examine_next` leaves the state tidy. -/
theorem tidies_doExamineNext (lock : Option LockId) (want : Int) :
    Tidies careful (doExamineNext (δ := δ) lock want) := by
  intro h ht
  unfold doExamineNext
  cases lock with
  | none => exact wp_examineNext (l := none) ht nofun nofun
  | some a =>
    rw [wp_bind]
    unfold lockAt
    rw [wp_bind, wp_get]
    cases hlk : h.locks.get? a with
    | none => exact trivial
    | some lk =>
      refine wp_examineNext (l := some lk) ht (fun a' lk' ha hlk' => ?_) fun hc lk' i hlk' hi => ?_
      · cases ha
        cases hlk.symm.trans hlk'
        rfl
      · cases hlk'
        exact (ht.scans hc hlk hi).2

end Scans

/-! ### Removing and renaming -/

/-- A scan stands on the node. -/
def Handler.Scanned (h : Handler δ) (i : NodeId) : Prop :=
  ∃ l lock, h.locks.get? l = some lock ∧ lock.scanNext = some i

/-- A lock or an open file refers to the node. -/
def Handler.InUse (h : Handler δ) (i : NodeId) : Prop :=
  0 < (h.locks.count fun l => l.node == i) + h.files.count fun f => f.node == i

/-- The directory a node is in. -/
def Volume.parentOf (t : Volume δ) (i : NodeId) : Option NodeId := (t.heap i).bind Node.parent

/-- The parent of a node as the family tree has it. -/
theorem Volume.parentOf_kin {t : Volume δ} {i d : NodeId} :
    t.parentOf i = some d ↔ ∃ k, t.kin i = some k ∧ k.parent = some d := by
  unfold Volume.parentOf Volume.kin Volume.view
  cases t.heap i with
  | none => exact ⟨nofun, nofun⟩
  | some n => exact ⟨fun h => ⟨n.kin, rfl, h⟩, fun ⟨k, hk, hp⟩ => by cases hk; exact hp⟩

/-- A node that has its directory is among the children. -/
theorem Volume.Linked.mem_child {t : Volume δ} (ht : t.Linked) {i d : NodeId} {k : Kin}
    (hi : t.parentOf i = some d) (hd : t.kin d = some k) : i ∈ k.child := by
  obtain ⟨c, hc, hp⟩ := Volume.parentOf_kin.1 hi
  exact ht.up hc hp hd

/-- The children of a directory have it as their parent. -/
theorem Volume.Linked.parentOf {t : Volume δ} (ht : t.Linked) {i d : NodeId} {k : Kin}
    (hd : t.kin d = some k) (hi : i ∈ k.child) : t.parentOf i = some d :=
  Volume.parentOf_kin.2 (ht.down hd hi)

section Removing

variable [Device δ] {careful : Prop} {φ : Frame} {h : Handler δ}

omit [Device δ] in
/-- What is in use is in memory. -/
theorem Handler.Books.inUse {x : Delta} (hb : h.Books φ x) (hx : ∀ i, 0 ≤ x i) {i : NodeId}
    (hi : h.InUse i) : ∃ n, h.fs.heap i = some n := by
  have hrefs := hb.refs i
  have hown := hx i
  have hroot : 0 ≤ one h.fs.root i := by
    unfold one
    split <;> decide
  unfold Handler.InUse at hi
  unfold Volume.refs Handler.held at hrefs
  cases hn : h.fs.heap i with
  | some n => exact ⟨n, rfl⟩
  | none =>
    rw [hn, Option.map_none, Option.getD_none] at hrefs
    omega

omit [Device δ] in
/-- The node of a lock is in use. -/
theorem Handler.inUse_of_lock {l : LockId} {lock : Lock} (hl : h.locks.get? l = some lock) :
    h.InUse lock.node := by
  have hcount : 0 < h.locks.count fun l => l.node == lock.node := by
    unfold Table.count
    rw [List.countP_pos_iff]
    exact ⟨_, h.locks.mem_of_get? hl, beq_self_eq_true _⟩
  exact Nat.lt_of_lt_of_le hcount (Nat.le_add_right _ _)

omit [Device δ] in
/-- The node of an open file is in use. -/
theorem Handler.inUse_of_file {f : FileId} {file : ExfatFile} (hf : h.files.get? f = some file) :
    h.InUse file.node := by
  have hcount : 0 < h.files.count fun f => f.node == file.node := by
    unfold Table.count
    rw [List.countP_pos_iff]
    exact ⟨_, h.files.mem_of_get? hf, beq_self_eq_true _⟩
  exact Nat.lt_of_lt_of_le hcount (Nat.le_add_left _ _)

omit [Device δ] in
/-- Every lock is on the list of the volume node. -/
theorem Handler.Books.mem_lockList {x : Delta} (hb : h.Books φ x) {v : DeviceList}
    (hv : h.volume = some v) {l : LockId} {lock : Lock} (hl : h.locks.get? l = some lock) :
    l ∈ v.lockList :=
  (hb.listed v hv).mem_iff.2 (h.locks.mem_keys_of_get? hl)

omit [Device δ] in
/-- After `scan_skip_node` no scan stands on the node if there is a volume node. -/
theorem wp_scanSkipNode {x : Delta} (ht : h.Tidy careful) (hb : h.Books φ x) (i : NodeId) :
    wp (scanSkipNode i) (fun _ h' => h'.Tidy careful ∧ h'.fs = h.fs ∧
      (careful → h'.Scanned i → h.volume = none ∧ h.Scanned i)) anyStop h := by
  unfold scanSkipNode
  rw [wp_bind, wp_get]
  cases hv : h.volume with
  -- without a volume node no lock is looked at: this is the gap in the source
  | none => exact ⟨ht, rfl, fun _ hs => ⟨rfl, hs⟩⟩
  | some v =>
    dsimp only
    rw [wp_bind]
    refine wp_useFs (wp_conseq (wp_nextSibling (i := i) ht.linked) ?_)
    rintro next t ⟨rfl, hnext⟩
    -- each lock that stands on the node is moved to its sibling
    rw [wp_modify]
    have hold : ∀ {l lock}, (h.locks.map fun l lock =>
        if l ∈ v.lockList ∧
          lock.scanNext = some i then { lock with scanNext := next } else lock).get? l =
          some lock → ∃ lock', h.locks.get? l = some lock' ∧ lock.node = lock'.node ∧
        (lock'.scanNext = some i ∧ lock.scanNext = next ∨
          lock'.scanNext ≠ some i ∧ lock.scanNext = lock'.scanNext) := by
      intro l lock hlock
      rw [Table.get?_map] at hlock
      obtain ⟨lock', hlock', rfl⟩ := Option.map_eq_some_iff.1 hlock
      refine ⟨lock', hlock', ?_⟩
      by_cases hscan : lock'.scanNext = some i
      · rw [if_pos ⟨hb.mem_lockList hv hlock', hscan⟩]
        exact ⟨rfl, .inl ⟨hscan, rfl⟩⟩
      · rw [if_neg fun hc => hscan hc.2]
        exact ⟨rfl, .inr ⟨hscan, rfl⟩⟩
    refine ⟨⟨ht.linked, fun hc l lock s hlock hs => ?_⟩, rfl, fun _ hscanned => ?_⟩
    -- a lock that has been moved, or one that stood elsewhere
    · obtain ⟨lock', hlock', hnode, ⟨hi, hnew⟩ | ⟨-, hsame⟩⟩ := hold hlock
      · obtain ⟨hlt, hmem⟩ := ht.scans hc hlock' hi
        rw [hnode]
        exact ⟨hlt, fun k hk => (hnext s (hnew.symm.trans hs)).2 _ _ hk (hmem k hk)⟩
      · rw [hnode]
        exact ht.scans hc hlock' (hsame.symm.trans hs)
    -- none is left on the node, because its sibling is another one
    · obtain ⟨l, lock, hlock, hs⟩ := hscanned
      obtain ⟨lock', hlock', -, ⟨-, hnew⟩ | ⟨hne, hsame⟩⟩ := hold hlock
      · exact absurd rfl (hnext i (hnew.symm.trans hs)).1
      · exact absurd (hsame.symm.trans hs) hne

/-- `do_delete_object` removes a node on which no scan is left, or one that stays. -/
theorem wp_deleteNode {x : Delta} (ht : h.Tidy careful) (hb : h.Books φ x) {i : NodeId}
    (hstay : careful → h.volume = none → h.Scanned i → ∀ n rc t, h.fs.heap i = some n →
      (if n.isDir then exfatRmdir i else exfatUnlink i) h.fs = .ok rc t →
      t.parentOf i = h.fs.parentOf i) :
    wp (deleteNode i) (fun _ h' => h'.Tidy careful) anyStop h := by
  unfold deleteNode
  rw [wp_bind]
  refine wp_conseq (wp_scanSkipNode ht hb i) ?_
  rintro _ h₁ ⟨ht₁, hfs₁, hscan₁⟩
  rw [wp_bind]
  refine wp_useFs (wp_getNode trivial fun n hn => ?_)
  rw [wp_bind]
  -- either call takes out this node, and no other
  have hremove : Tends (Volume.Grown {i} {i})
      (if n.isDir then exfatRmdir (δ := δ) i else exfatUnlink i) :=
    Tends.ite (tends_exfatRmdir i) (tends_exfatUnlink i)
  refine wp_useFs (wp_conseq (wp_run (hremove h₁.fs ht₁.linked)) ?_)
  rintro rc t ⟨hrun, hlinked, hgrown⟩
  -- the scans that were on the node stay with it
  have htidy : Handler.Tidy careful { h₁ with
      fs := t, trace := .use h₁.mounted :: .use h₁.mounted :: h₁.trace } := by
    refine ⟨hlinked, fun hc l lock s hlock hs => ?_⟩
    obtain ⟨hlt, hmem⟩ := ht₁.scans hc hlock hs
    refine ⟨Nat.lt_of_lt_of_le hlt hgrown.grown.le, fun k' hk' => ?_⟩
    cases hk : h₁.fs.kin lock.node with
    | none =>
      rw [hgrown.grown.dead hlt hk] at hk'
      cases hk'
    | some k =>
      -- the scan is on the node that was to be removed: it can only be one that stays
      by_cases hsi : s = i
      · subst hsi
        obtain ⟨hv, hscanned⟩ := hscan₁ hc ⟨l, lock, hlock, hs⟩
        rw [hfs₁] at hn hrun
        refine hlinked.mem_child ?_ hk'
        rw [hstay hc hv hscanned n rc t hn hrun, ← hfs₁]
        exact ht₁.linked.parentOf hk (hmem k hk)
      · exact hgrown.grown.child hk hk' (hmem k hk) hsi
  -- the reference of the lookup is given back, and what is left may be freed
  refine tidies_put_reply i ?_ _ htidy
  cases rc with
  | error e => exact tidies_refuse _
  | ok _ =>
    refine Tidies.bind (tidies_useFs (tends_exfatCleanupNode i)) fun rc => ?_
    cases rc with
    | error e => exact tidies_refuse _
    | ok _ => exact tidies_answer _ _

end Removing

/-! ### Careful packets -/

section Careful

variable [Device δ] {careful : Prop} {φ : Frame} {x : Delta} {h : Handler δ}

/-- What a packet has to look out for.  An object on which a scan stands is deleted only while there
is a volume node, unless it is in use or stays where it is; it is moved or replaced by a renaming
only while there is a volume node and the renaming succeeds. -/
def Handler.Careful (h : Handler δ) : Packet → Prop
  | .deleteObject lock name => h.inhibited = false → h.fs.ef.ro = false → h.volume = none →
    ∀ path h₁ i t₁, resolve lock name h = .ok (some path) h₁ →
    exfatLookup path h.fs = .ok (.ok i) t₁ →
      h.Scanned i → h.InUse i ∨ ∀ n rc t₂, t₁.heap i = some n →
        (if n.isDir then exfatRmdir i else exfatUnlink i) t₁ = .ok rc t₂ →
        t₂.parentOf i = t₁.parentOf i
  | .renameObject src srcName dst dstName => h.inhibited = false → h.fs.ef.ro = false →
    ∀ p q h₁ h₂ rc t, resolve src srcName h = .ok (some p) h₁ →
    resolve dst dstName h₁ = .ok (some q) h₂ →
      exfatRename p q h.fs = .ok rc t →
      (h.volume.isSome = true ∧ rc = .ok ()) ∨ ∀ s, h.Scanned s → t.parentOf s = h.fs.parentOf s
  | _ => True

omit [Device δ] in
/-- Finding out what a path means changes nothing. -/
theorem wp_resolve_same (lock : Option LockId) (name : Bstr) (h : Handler δ) :
    wp (resolve lock name) (fun _ h' => ∃ tr, h' = { h with trace := tr }) anyStop h := by
  have huse : ∀ base, wp (useFs (resolvePath (δ := δ) base name))
      (fun _ h' => ∃ tr, h' = { h with trace := tr }) anyStop h := by
    intro base
    refine wp_useFs (wp_mono (same_resolvePath base name h.fs) ?_ (fun _ _ _ => trivial))
    rintro _ t rfl
    exact ⟨_, rfl⟩
  unfold resolve lockAt
  cases lock with
  | none => exact huse none
  | some l =>
    rw [wp_bind, wp_bind, wp_get]
    cases h.locks.get? l with
    | none => exact trivial
    | some lock => exact huse _

omit [Device δ] in
/-- `resolve` only asks the tree for a path. -/
theorem wp_resolve (hb : h.Books φ x) (lock : Option LockId) (name : Bstr) :
    wp (resolve lock name) (fun r h' => resolve lock name h = .ok r h' ∧ h'.Books φ x ∧
      ∃ tr, h' = { h with trace := tr }) anyStop h :=
  wp_run (wp_mono (wp_and (serves_resolve lock name h hb) (wp_resolve_same lock name h))
    (fun _ _ hs => hs) (fun _ _ _ => trivial))

omit [Device δ] in
/-- A routine of libexfat, with what it returns. -/
theorem wp_useFs_books {m : TreeM δ α} {d : α → Delta} (hm : Refs m d) (hb : h.Books φ x) :
    wp (useFs m) (fun a h' => h'.Books φ (x + d a) ∧
      ∃ t tr, h' = { h with fs := t, trace := tr } ∧ m h.fs = .ok a t) anyStop h := by
  have hrun : wp (useFs m) (fun a h' => ∃ t tr, h' = { h with fs := t, trace := tr } ∧
    m h.fs = .ok a t)
      anyStop h := by
    refine wp_useFs (wp_conseq (wp_run (wp_of_forall (fun _ _ => trivial) fun _ _ => trivial)) ?_)
    rintro a t ⟨hr, -⟩
    exact ⟨t, _, rfl, hr⟩
  exact wp_mono (wp_and (serves_useFs hm h hb) hrun) (fun _ _ hs => hs) fun _ _ _ => trivial

omit [Device δ] in
/-- `getNode` returns the node that is in memory. -/
theorem of_getNode {i : NodeId} {n : Node} {t t' : Volume δ} (hrun : getNode i t = .ok n t') :
    t = t' ∧ t.heap i = some n := by
  unfold getNode at hrun
  split at hrun
  · cases hrun
  next hn =>
    cases hrun
    exact ⟨rfl, hn⟩

omit [Device δ] in
/-- An object in use has more references than the one of the lookup. -/
theorem Handler.Books.inUse_lt {i : NodeId} {n : Node} (hb : h.Books φ x) (hx : x i = 1)
    (hn : h.fs.heap i = some n) (hinuse : h.InUse i) : n.references > 1 := by
  have hrefs := hb.refs i
  have hroot : 0 ≤ one h.fs.root i := by
    unfold one
    split <;> decide
  unfold Handler.InUse at hinuse
  unfold Volume.refs Handler.held at hrefs
  rw [hn, Option.map_some, Option.getD_some, hx] at hrefs
  omega

/-- `do_delete_object` leaves the scans on children, if they could be advanced. -/
theorem wp_doDeleteObject (ht : h.Tidy careful) (hb : h.Books φ 0) {lock : Option LockId}
    {name : Bstr} (hcare : careful → h.Careful (.deleteObject lock name)) :
    wp (doDeleteObject lock name) (fun _ h' => h'.Tidy careful) anyStop h := by
  unfold doDeleteObject
  rw [wp_bind, wp_get]
  split
  · exact ht
  next hallowed =>
  rw [not_or, Bool.not_eq_true, Bool.not_eq_true] at hallowed
  rw [wp_bind]
  refine wp_conseq (wp_resolve hb lock name) ?_
  -- The path is not resolved, leads nowhere, or leads to a node.
  rintro path h₁ ⟨hpath, hb₁, tr₁, rfl⟩
  cases path with
  | none => exact ht.congr rfl rfl
  | some path =>
    have ht₁ : Handler.Tidy careful { h with trace := tr₁ } := ht.congr rfl rfl
    dsimp only
    rw [wp_bind]
    refine wp_mono (wp_and (wp_useFs_books (refs_exfatLookup path) hb₁) (tidies_lookup path _ ht₁))
      ?_
      (fun _ _ _ => trivial)
    rintro r h₂ ⟨⟨hb₂, t, tr₂, rfl, hlookup⟩, ht₂⟩
    cases r with
    | error e => exact ht₂
    | ok i =>
      dsimp only
      rw [wp_bind]
      refine wp_conseq (wp_useFs_books (Refs.of_links (links_getNode i)) hb₂) ?_
      rintro n h₃ ⟨hb₃, t₃, tr₃, rfl, hget⟩
      obtain ⟨rfl, hn⟩ := of_getNode hget
      rw [wp_bind, wp_get]
      have ht₃ : Handler.Tidy careful { h with fs := t, trace := tr₃ } := ht₂.congr rfl rfl
      have hput : ∀ e : DosError, Tidies careful (do
          useFs (exfatPutNode (δ := δ) i)
          refuse e) := fun e => tidies_put_reply i (tidies_refuse e)
      -- a root directory, or a node that is in use, is not deleted
      split
      · exact hput _ _ ht₃
      split
      · exact hput _ _ ht₃
      next hrefs =>
        refine wp_deleteNode ht₃ hb₃ fun hc hv hscanned n' rc t₂ hn' hrun => ?_
        -- `Careful` allows a scan on the node when it is in use, or when it stays
        obtain hinuse | hstay := hcare hc hallowed.1 hallowed.2 hv path _ i t hpath hlookup hscanned
        · exact absurd (hb₃.inUse_lt (by simp [taken, one]) hn hinuse) hrefs
        · exact hstay n' rc t₂ hn' hrun

omit [Device δ] in
/-- Where every lock is on the list of the volume node, no scan is left. -/
theorem tidy_scanInvalidateAll (hl : h.fs.Linked) (hb : h.Books φ x)
    (hscans : careful → h.volume = none → h.Tidy careful) :
    wp (scanInvalidateAll (δ := δ)) (fun _ h' => h'.Tidy careful) anyStop h := by
  unfold scanInvalidateAll
  rw [wp_bind, wp_get]
  cases hv : h.volume with
  | none => exact ⟨hl, fun hc => (hscans hc hv).scans hc⟩
  | some v =>
    refine ⟨hl, fun hc l lock s hlock hs => ?_⟩
    have hold : ((h.locks.get? l).map fun lock : Lock =>
        if l ∈ v.lockList then { lock with scanNext := none } else lock) = some lock :=
      (h.locks.get?_map _).symm.trans hlock
    obtain ⟨lock', hlock', rfl⟩ := Option.map_eq_some_iff.1 hold
    rw [if_pos (hb.mem_lockList hv hlock')] at hs
    cases hs

/-- `do_rename_object` leaves the scans on children, if it moves none of them. -/
theorem wp_doRenameObject (ht : h.Tidy careful) (hb : h.Books φ 0) {src dst : Option LockId}
    {srcName dstName : Bstr} (hcare : careful → h.Careful (.renameObject src srcName dst dstName)) :
    wp (doRenameObject src srcName dst dstName) (fun _ h' => h'.Tidy careful) anyStop h := by
  unfold doRenameObject
  rw [wp_bind, wp_get]
  split
  · exact ht
  next hallowed =>
  rw [not_or, Bool.not_eq_true, Bool.not_eq_true] at hallowed
  rw [wp_bind]
  refine wp_conseq (wp_resolve hb src srcName) ?_
  rintro p h₁ ⟨hp, hb₁, tr₁, rfl⟩
  cases p with
  | none => exact ht.congr rfl rfl
  | some p =>
    dsimp only
    rw [wp_bind]
    refine wp_conseq (wp_resolve hb₁ dst dstName) ?_
    rintro q h₂ ⟨hq, hb₂, tr₂, rfl⟩
    cases q with
    | none => exact ht.congr rfl rfl
    | some q =>
      dsimp only
      rw [wp_bind]
      have hrename := wp_useFs_books (refs_exfatRename p q) hb₂
      have htends : wp (useFs (exfatRename p q)) (fun _ h' => h'.fs.Linked ∧
          h.fs.Grown Set.univ Set.univ h'.fs) anyStop { h with trace := tr₂ } :=
        wp_useFs (tends_exfatRename p q h.fs ht.linked)
      refine wp_mono (wp_and hrename htends) ?_ (fun _ _ _ => trivial)
      rintro rc h₃ ⟨⟨hb₃, t, tr₃, rfl, hrun⟩, hlinked, hgrown⟩
      -- scans whose places have not moved
      have hstay : (careful → ∀ s, h.Scanned s → t.parentOf s = h.fs.parentOf s) →
          Handler.Tidy careful { h with fs := t, trace := tr₃ } := by
        intro hsame
        refine ⟨hlinked, fun hc l lock s hlock hs => ?_⟩
        obtain ⟨hlt, hmem⟩ := ht.scans hc hlock hs
        obtain ⟨n, hn⟩ := hb.inUse (fun _ => le_rfl) (Handler.inUse_of_lock hlock)
        refine ⟨Nat.lt_of_lt_of_le hlt hgrown.grown.le, fun k' hk' => hlinked.mem_child ?_ hk'⟩
        rw [hsame hc s ⟨l, lock, hlock, hs⟩]
        exact ht.linked.parentOf (Volume.kin_of_heap hn) (hmem _ (Volume.kin_of_heap hn))
      -- A failed rename has moved nothing that a scan stands on; one that succeeds stops all scans.
      cases rc with
      | error e =>
        refine hstay fun hc => ?_
        obtain ⟨-, herr⟩ | hsame := hcare hc hallowed.1 hallowed.2 p q _ _ _ t hp hq hrun
        · cases herr
        · exact hsame
      | ok _ =>
        dsimp only
        rw [wp_bind]
        refine wp_conseq (tidy_scanInvalidateAll hlinked hb₃ fun hc hv => ?_) fun _ _ ht' => ht'
        refine hstay fun _ => ?_
        -- without a volume node the scans are not stopped
        obtain ⟨hpub, -⟩ | hsame := hcare hc hallowed.1 hallowed.2 p q _ _ _ t hp hq hrun
        · have hnone : h.volume = none := hv
          rw [hnone] at hpub
          cases hpub
        · exact hsame

end Careful

/-! ### The packets without the medium -/

/-- Between two packets: a volume that is mounted is tidy. -/
def Handler.Watched (careful : Prop) (h : Handler δ) : Prop := h.mounted = true → h.Tidy careful

/-- Without a volume there is nothing to be tidy. -/
theorem Handler.Watched.of_unmounted {careful : Prop} {h : Handler δ} (hm : h.mounted = false) :
    h.Watched careful := fun h' => absurd (hm.symm.trans h') (by decide)

section Step

variable [Device δ] {careful : Prop} {φ : Frame} {h : Handler δ}

/-- A mount starts without locks. -/
theorem tidy_mountFs (he : h.Empty) :
    wp mountFs (fun ok h' => ok = true → h'.Tidy careful) anyStop h := by
  unfold mountFs ask
  rw [wp_bind, wp_bind, wp_get, wp_bind, wp_set, wp_pure]
  cases h.outside.medium h.ticks with
  | none => exact nofun
  | some m =>
    obtain ⟨dev, ro⟩ := m
    dsimp only
    rw [wp_bind, wp_modify, wp_bind]
    unfold onFs
    rw [wp_zoom]
    have hvacant : (blankVolume h.fs dev ro).Vacant := fun _ => rfl
    refine wp_conseq (exfatMount_linked hvacant) ?_
    intro rc t ht
    cases rc with
    | error e => exact nofun
    | ok _ =>
      dsimp only
      rw [wp_bind, wp_modify, wp_bind]
      have hsoil : Tidies careful (useFs (onVolume (exfatSoilSuperBlock (δ := δ)))) :=
        tidies_useFs_kin (links_onVolume _)
      refine wp_conseq (hsoil _ ⟨(ht rfl).1, fun _ l lock s hlock _ => ?_⟩) fun _ _ ht' _ => ht'
      have hnone : h.locks.get? l = none := h.locks.get?_eq_none_of_size he.locks
      cases hnone.symm.trans hlock

/-- `sameVolumeNow` leaves the state tidy. -/
theorem tidies_sameVolumeNow : Tidies careful (sameVolumeNow (δ := δ)) := by
  refine Tidies.look fun h => Tidies.ite (Tidies.pure _) ?_
  refine Tidies.bind (tidies_useFs_kin (links_onVolume _)) fun sb => ?_
  cases sb with
  | none => exact Tidies.pure _
  | some sb => exact Tidies.pure _

omit [Device δ] in
/-- `discard_dirty_state` leaves the state tidy. -/
theorem tidies_discardDirtyState : Tidies careful (discardDirtyState (δ := δ)) := by
  refine Tidies.look fun h => Tidies.ite (Tidies.pure _) (tidies_useFs_kin ?_)
  refine keeps_look fun t => keeps_bind (links_discardDirtyNodes _ _) fun _ => links_onVolume _

omit [Device δ] in
/-- `add_volume` leaves the state tidy. -/
theorem tidies_addVolume : Tidies careful (addVolume (δ := δ)) := by
  refine Tidies.look fun h => Tidies.bind (Tidies.modify (fun _ => rfl) fun _ => rfl) fun _ => ?_
  refine Tidies.bind (tidies_ask _) fun ok => Tidies.ite ?_ (Tidies.pure _)
  exact Tidies.modify (fun _ => rfl) fun _ => rfl

/-- The volume is released, or nothing is done. -/
theorem wp_releaseIfIdle_of {P : Handler δ → Prop} (hb : h.Books φ 0)
    (hreleased : ∀ {h'}, h'.mounted = false → P h') (hkept : P h) :
    wp releaseIfIdle (fun _ h' => P h') anyStop h := by
  unfold releaseIfIdle
  rw [wp_bind, wp_get]
  split
  next hc =>
    rw [wp_bind]
    refine wp_mono (serves_removeVolume h (hb.of_counters hc.2.2.1 hc.2.2.2)) ?_
      (fun _ _ _ => trivial)
    intro _ h₁ hb₁
    refine wp_mono (wp_releaseMount (φ := φ) hb₁) ?_ (fun _ _ _ => trivial)
    rintro _ h₂ ⟨he, -⟩
    exact hreleased he.mounted
  · exact hkept

/-- A packet that needs the medium. -/
theorem wp_dispatch_tidy {p : Packet} (hp : p.needsMedium = true) (ht : h.Tidy careful)
    (hb : h.Books φ 0) (hcare : careful → h.Careful p) :
    wp (dispatch p) (fun _ h' => h'.Watched careful) anyStop h := by
  have htidies : ∀ {m : HandlerM δ PacketReply}, Tidies careful m →
      wp m (fun _ h' => h'.Watched careful) anyStop h := fun hm =>
    wp_conseq (hm h ht) fun _ _ ht' _ => ht'
  -- Two of the packets change the tree under the scans; the others do not.
  cases p with
  | locateObject lock name => exact htidies (tidies_doLocateObject _ _)
  | copyDir lock => exact htidies (tidies_doCopyDir _)
  | copyDirFh file => exact htidies (tidies_doLockFromFh _ _)
  | parentFh file => exact htidies (tidies_doLockFromFh _ _)
  | parent lock => exact htidies (tidies_doParent _)
  | examineObject lock => exact htidies (tidies_doExamineObject _)
  | examineNext lock key => exact htidies (tidies_doExamineNext _ _)
  | examineFh file fib => exact htidies (tidies_doExamineFh _ _)
  | find mode fh lock name => exact htidies (tidies_doOpen _ _ _ _)
  | fhFromLock fh lock => exact htidies (tidies_doFhFromLock _ _)
  | read file length => exact htidies (tidies_doRead _ _)
  | write file buffer length => exact htidies (tidies_doWrite _ _ _)
  | seek file offset mode => exact htidies (tidies_doSeek _ _ _)
  | setFileSize file offset mode => exact htidies (tidies_doSetFileSize _ _ _)
  | setProtect lock name bits => exact htidies (tidies_doSetProtect _ _ _)
  | setDate lock name ds => exact htidies (tidies_doSetDate _ _ _)
  | setComment lock name comment => exact htidies (tidies_doSetComment _ _ _)
  | createDir lock name => exact htidies (tidies_doCreateDir _ _)
  | renameDisk name => exact htidies (tidies_doRenameDisk _)
  | deleteObject lock name => exact wp_conseq (wp_doDeleteObject ht hb hcare) fun _ _ ht' _ => ht'
  | renameObject src srcName dst dstName =>
    exact wp_conseq (wp_doRenameObject ht hb hcare) fun _ _ ht' _ => ht'
  | freeLock _ | sameLock _ _ | format _ | endFile _ | info | currentVolume | isFilesystem | flush
  | inhibit _ | die | unknown => cases hp

/-- `park` leaves the state tidy. -/
theorem tidies_park : Tidies careful (park (δ := δ)) := by
  have hdetach : Tidies careful (modify fun h : Handler δ => { h with
      volume := h.volume.map fun v : DeviceList => { v with attached := false } }) :=
    Tidies.modify (fun _ => rfl) fun _ => rfl
  refine Tidies.look fun h => Tidies.ite hdetach
    (Tidies.bind (tidies_useFs_kin ?_) fun flushed => ?_)
  · refine keeps_bind links_exfatFlushNodes fun r => ?_
    cases r with
    | error e => exact keeps_pure _
    | ok _ =>
      refine keeps_bind (links_onVolume _) fun r => ?_
      cases r with
      | error e => exact keeps_pure _
      | ok _ => exact links_onVolume _
  · exact Tidies.ite hdetach (Tidies.bind tidies_discardDirtyState fun _ => hdetach)

/-- The volume is released, or parked. -/
theorem wp_inhibitOn_of {P : Handler δ → Prop} (hb : h.Books φ 0)
    (hreleased : ∀ {h'}, h'.mounted = false → P h')
    (hparked : wp park (fun _ h' => P { h' with inhibited := true }) anyStop h) :
    wp inhibitOn (fun _ h' => P h') anyStop h := by
  unfold inhibitOn
  rw [wp_bind, wp_get]
  split
  next hc =>
    rw [wp_bind]
    refine wp_mono (serves_removeVolume h (hb.of_counters hc.1 hc.2)) ?_ (fun _ _ _ => trivial)
    intro _ h₁ hb₁
    rw [wp_bind]
    refine wp_mono (wp_releaseMount (φ := φ) hb₁) ?_ (fun _ _ _ => trivial)
    rintro _ h₂ ⟨he, -⟩
    exact hreleased he.mounted
  · rw [wp_bind]
    exact wp_conseq hparked fun _ _ hp => hp

/-- A parked volume that is taken up is tidy. -/
theorem wp_inhibitOff_tidy (hw : h.Watched careful) (hl : h.Ledger false) :
    wp inhibitOff (fun _ h' => h'.Watched careful) anyStop h := by
  unfold inhibitOff
  rw [wp_bind, wp_get]
  obtain hb | ⟨he, -⟩ := hl
  · rw [if_neg (by simp [hb.mounted]), wp_bind]
    refine wp_conseq (tidies_sameVolumeNow h (hw hb.mounted)) ?_
    intro same h₁ ht₁
    split
    · exact fun _ => ht₁
    · rw [wp_bind]
      have hdirty : Tidies careful (useFs (onVolume (setVolumeDirty (δ := δ) true))) :=
        tidies_useFs_kin (links_onVolume _)
      refine wp_conseq (hdirty h₁ ht₁) ?_
      intro ok h₂ ht₂
      split
      · exact fun _ => ht₂.congr rfl rfl
      · exact fun _ => ht₂
  · rw [if_pos (by simp [he.mounted]), wp_bind]
    have htidy : wp mountFs (fun ok h' => ok = true → h'.Tidy careful) anyStop h := tidy_mountFs he
    refine wp_mono (wp_and htidy (wp_mountFs he)) ?_ (fun _ _ _ => trivial)
    rintro ok h₁ ⟨ht₁, hmount⟩
    cases ok with
    | false => exact .of_unmounted hmount.1.mounted
    | true =>
      rw [if_neg (by decide), wp_bind]
      exact wp_conseq (tidies_addVolume h₁ (ht₁ rfl)) fun _ _ ht₂ _ => ht₂.congr rfl rfl

/-- `doFlush` leaves the state tidy. -/
theorem tidies_doFlush : Tidies careful (doFlush (δ := δ)) := by
  refine Tidies.look fun h => Tidies.ite ?_ (tidies_answer _ _)
  refine Tidies.bind (tidies_useFs_kin ?_) fun ok =>
    Tidies.ite (tidies_answer _ _) (tidies_refuse _)
  refine keeps_bind links_exfatFlushNodes fun r => ?_
  cases r with
  | error e => exact keeps_pure _
  | ok _ =>
    refine keeps_bind (links_onVolume _) fun r => ?_
    cases r with
    | error e => exact keeps_pure _
    | ok _ => exact links_onVolume _

omit [Device δ] in
/-- `fill_infodata` leaves the state tidy. -/
theorem tidies_fillInfodata : Tidies careful (fillInfodata (δ := δ)) := by
  refine Tidies.look fun h => Tidies.ite (Tidies.pure _) ?_
  exact Tidies.bind (tidies_useFs_kin (keeps_look fun _ => keeps_pure _)) fun _ => Tidies.pure _

omit [Device δ] in
/-- `do_format` leaves the state tidy. -/
theorem tidies_doFormat (label : Option Bstr) : Tidies careful (doFormat (δ := δ) label) := by
  refine Tidies.look fun h => Tidies.ite (tidies_refuse _) (Tidies.ite (tidies_refuse _) ?_)
  exact Tidies.bind (tidies_ask _) fun ok => Tidies.ite (tidies_answer _ _) (tidies_refuse _)

omit [Device δ] in
/-- `doDie` leaves the state tidy. -/
theorem tidies_doDie : Tidies careful (doDie (δ := δ)) := by
  intro h ht
  unfold doDie
  rw [wp_bind, wp_get]
  split
  · exact ht
  · exact ht.congr rfl rfl

/-- A packet that needs no medium, while the volume is mounted. -/
theorem wp_dispatch_mounted {p : Packet} (hp : p.needsMedium = false) (ht : h.Tidy careful)
    (hb : h.Books ⟨h.quit, h.inhibited, false⟩ 0) :
    wp (dispatch p) (fun _ h' => h'.Watched careful) anyStop h := by
  have htidies : ∀ {m : HandlerM δ PacketReply}, Tidies careful m →
      wp m (fun _ h' => h'.Watched careful) anyStop h := fun hm =>
    wp_conseq (hm h ht) fun _ _ ht' _ => ht'
  -- The packets that may unmount the volume are those that give something back.
  cases p with
  | freeLock l =>
    -- the last lock goes, and with it perhaps the volume
    show wp (exfatAmigaFreelock l >>= _) _ _ h
    rw [wp_bind]
    refine wp_mono (wp_and (tidies_exfatAmigaFreelock l h ht) (serves_exfatAmigaFreelock l h hb)) ?_
      (fun _ _ _ => trivial)
    rintro _ h₁ ⟨ht₁, hb₁⟩
    rw [wp_bind]
    exact wp_conseq (wp_releaseIfIdle_of hb₁ .of_unmounted fun _ => ht₁) fun _ _ hw => hw
  | endFile f =>
    show wp (doEnd f >>= _) _ _ h
    rw [wp_bind]
    refine wp_mono (wp_and (tidies_doEnd f h ht) (balanced_doEnd f h hb)) ?_ (fun _ _ _ => trivial)
    rintro _ h₁ ⟨ht₁, hb₁⟩
    rw [wp_bind]
    exact wp_conseq (wp_releaseIfIdle_of hb₁ .of_unmounted fun _ => ht₁) fun _ _ hw => hw
  | sameLock a b => exact htidies (tidies_doSameLock a b)
  | format label => exact htidies (tidies_doFormat label)
  | info => exact htidies (Tidies.bind tidies_fillInfodata fun _ => Tidies.pure _)
  | flush => exact htidies tidies_doFlush
  | die => exact htidies tidies_doDie
  | inhibit on =>
    -- the volume is parked, taken up again, or left alone
    show wp (doInhibit on) _ _ h
    unfold doInhibit
    rw [wp_bind, wp_get]
    split
    · refine wp_inhibitOn_of hb .of_unmounted (wp_conseq (tidies_park h ht) fun _ _ ht' _ => ?_)
      exact ht'.congr rfl rfl
    · split
      · exact wp_inhibitOff_tidy (fun _ => ht) (.inl hb)
      · exact fun _ => ht
  | currentVolume | isFilesystem | unknown => exact fun _ => ht
  | locateObject _ _ | copyDir _ | copyDirFh _ | parentFh _ | parent _ | examineObject _
  | examineNext _ _ | examineFh _ _ | find _ _ _ _ | fhFromLock _ _ | read _ _ | write _ _ _
  | seek _ _ _ | setFileSize _ _ _ | setProtect _ _ _ | setDate _ _ _ | setComment _ _ _
  | deleteObject _ _ | createDir _ _ | renameObject _ _ _ _ | renameDisk _ => cases hp

/-- A packet that needs no medium, while there is no volume. -/
theorem wp_dispatch_empty {P : Handler δ → Prop} {p : Packet} (hp : p.needsMedium = false)
    (he : h.Empty) (hi : h.inhibited = true) (hempty : ∀ {h'}, h'.mounted = false → P h')
    (hoff : wp inhibitOff (fun _ h' => P h') anyStop h) :
    wp (dispatch p) (fun _ h' => P h') anyStop h := by
  have hsame : P h := hempty he.mounted
  have hidle : wp (releaseIfIdle (δ := δ)) (fun _ h' => h' = h) anyStop h := by
    unfold releaseIfIdle
    rw [wp_bind, wp_get, if_neg (by simp [he.mounted])]
    rfl
  have hsane : ∀ {m : HandlerM δ PacketReply}, wp m (fun _ h' => P h') (fun _ h' => h'.Sane) h →
      wp m (fun _ h' => P h') anyStop h := fun hm =>
    wp_mono hm (fun _ _ hw => hw) fun _ _ _ => trivial
  -- Without a volume no lock and no file is out, so their packets find nothing.
  cases p with
  | freeLock l =>
    cases l with
    | none =>
      show wp (releaseIfIdle >>= _) _ _ h
      rw [wp_bind]
      refine wp_conseq hidle ?_
      rintro _ _ rfl
      exact hsame
    | some l =>
      show wp (exfatAmigaFreelock (some l) >>= _) _ _ h
      unfold exfatAmigaFreelock lockAt
      simp only [wp_bind, wp_get, h.locks.get?_eq_none_of_size he.locks, wp_throw]
      trivial
  | endFile f =>
    cases f with
    | none =>
      show wp (releaseIfIdle >>= _) _ _ h
      rw [wp_bind]
      refine wp_conseq hidle ?_
      rintro _ _ rfl
      exact hsame
    | some f =>
      show wp (doEnd (some f) >>= _) _ _ h
      unfold doEnd fileAt
      simp only [wp_bind, wp_get, h.files.get?_eq_none_of_size he.files, wp_throw]
      trivial
  | sameLock a b =>
    refine hsane (wp_lockAt_empty he a ?_)
    show wp (lockAt b >>= _) _ _ h
    exact wp_lockAt_empty he b hsame
  | format label =>
    show wp (doFormat label) _ _ h
    unfold doFormat ask
    -- the drive is inhibited and nothing is mounted, so the formatter is asked
    rw [wp_bind, wp_get, if_neg (by simp [he.mounted]), if_neg (by simp [he.mounted, hi]), wp_bind,
      wp_bind, wp_get, wp_bind, wp_set, wp_pure]
    split
    · exact hempty he.mounted
    · exact hempty he.mounted
  | info =>
    show wp (fillInfodata >>= _) _ _ h
    unfold fillInfodata
    rw [wp_bind, wp_bind, wp_get, if_pos (by simp [he.mounted])]
    exact hsame
  | flush =>
    show wp doFlush _ _ h
    unfold doFlush
    rw [wp_bind, wp_get, if_neg (by simp [he.mounted])]
    exact hsame
  | die =>
    show wp doDie _ _ h
    unfold doDie
    rw [wp_bind, wp_get]
    split
    · exact hsame
    · exact hempty he.mounted
  | inhibit on =>
    show wp (doInhibit on) _ _ h
    unfold doInhibit
    rw [wp_bind, wp_get, if_neg (by simp [hi])]
    split
    · exact hoff
    · exact hsame
  | currentVolume | isFilesystem | unknown => exact hsame
  | locateObject _ _ | copyDir _ | copyDirFh _ | parentFh _ | parent _ | examineObject _
  | examineNext _ _ | examineFh _ _ | find _ _ _ _ | fhFromLock _ _ | read _ _ | write _ _ _
  | seek _ _ _ | setFileSize _ _ _ | setProtect _ _ _ | setDate _ _ _ | setComment _ _ _
  | deleteObject _ _ | createDir _ _ | renameObject _ _ _ _ | renameDisk _ => cases hp

/-- One packet keeps the scans where they belong, as far as it is careful. -/
theorem wp_servePacket_watched {p : Packet} (hl : h.Ledger false) (hw : h.Watched careful)
    (hcare : careful → h.Careful p) :
    wp (servePacket p) (fun _ h' => h'.Watched careful) anyStop h := by
  unfold servePacket
  rw [wp_bind, wp_get]
  split
  · exact hw
  next hserve =>
    cases hmedium : p.needsMedium with
    | true =>
      have hi : h.inhibited = false := by simpa [hmedium] using hserve
      obtain hb | ⟨-, hi'⟩ := hl
      · exact wp_dispatch_tidy hmedium (hw hb.mounted) hb hcare
      · exact absurd (hi.symm.trans hi') (by decide)
    | false =>
      obtain hb | ⟨he, hi⟩ := hl
      · exact wp_dispatch_mounted hmedium (hw hb.mounted) hb
      · exact wp_dispatch_empty hmedium he hi .of_unmounted (wp_inhibitOff_tidy hw (.inr ⟨he, hi⟩))

end Step

/-! ### Whole runs -/

section Run

variable [Device δ] {careful : Prop} {h : Handler δ}

/-- Every packet is careful when its turn comes. -/
def BatchCareful : List Packet → Handler δ → Prop
  | [], _ => True
  | p :: ps, h => h.Careful p ∧ ∀ r h', servePacket p h = .ok r h' → BatchCareful ps h'

/-- A packet keeps the ledger. -/
theorem wp_servePacket_ledger (p : Packet) (hl : h.Ledger false) :
    wp (servePacket p) (fun _ h' => h'.Ledger false) anyStop h := by
  by_cases hp : p = .die
  · subst hp
    exact wp_mono (wp_die hl) (fun _ _ hs => hs.1) fun _ _ _ => trivial
  · exact wp_mono (wp_servePacket hp hl nofun) (fun _ _ hs => hs.1) fun _ _ _ => trivial

/-- The packets of one batch. -/
theorem wp_serveBatch_watched (ps : List Packet) (hl : h.Ledger false) (hw : h.Watched careful)
    (hcare : careful → BatchCareful ps h) :
    wp (serveBatch ps) (fun _ h' => h'.Ledger false ∧ h'.Watched careful) anyStop h := by
  induction ps generalizing h with
  | nil => exact ⟨hl, hw⟩
  | cons p ps ih =>
    unfold serveBatch
    rw [wp_bind]
    have hstep := wp_servePacket_watched hl hw fun hc => (hcare hc).1
    refine wp_mono
      (wp_run (wp_mono (wp_and (wp_servePacket_ledger p hl) hstep) (fun _ _ hs => hs) fun _ _ _ =>
        trivial)) ?_
      (fun _ _ _ => trivial)
    rintro r h' ⟨hrun, hl', hw'⟩
    rw [wp_bind]
    exact wp_conseq (ih hl' hw' fun hc => (hcare hc).2 r h' hrun) fun _ _ hs => hs

omit [Device δ] in
/-- Between two packets the directories of the locks are in memory. -/
theorem Handler.Watched.scansStand (hl : h.Ledger false) (hw : h.Watched True) : h.ScansStand := by
  intro l lock s hlock hs
  obtain hb | ⟨he, -⟩ := hl
  · have ht := hw hb.mounted
    obtain ⟨d, hd⟩ := hb.inUse (fun _ => le_rfl) (Handler.inUse_of_lock hlock)
    have hmem := (ht.scans trivial hlock hs).2 _ (Volume.kin_of_heap hd)
    obtain ⟨k, hk, hp⟩ := ht.linked.down (Volume.kin_of_heap hd) hmem
    obtain ⟨n, hn, rfl⟩ := Option.map_eq_some_iff.1 hk
    exact ⟨d, n, hd, hmem, hn, hp⟩
  · cases (h.locks.get?_eq_none_of_size he.locks).symm.trans hlock

/-- The state is tidy at the start. -/
theorem wp_startup_watched (ef : Ef δ) (outside : Outside δ) :
    wp startup (fun ok h => h.Watched careful ∧ if ok then h.Ledger false else h.Empty) anyStop
      (Handler.start ef outside) := by
  have htidy : wp startup (fun _ h => h.Watched careful) anyStop (Handler.start ef outside) := by
    unfold startup
    rw [wp_bind]
    have he := empty_start ef outside
    have hmount : wp mountFs (fun ok h' => ok = true → h'.Tidy careful) anyStop
        (Handler.start ef outside) := tidy_mountFs he
    refine wp_mono (wp_and hmount (wp_mountFs he)) ?_ (fun _ _ _ => trivial)
    rintro ok h₁ ⟨ht₁, hfail⟩
    cases ok with
    | false => exact .of_unmounted hfail.1.mounted
    | true =>
      rw [if_neg (by decide), wp_bind]
      exact wp_conseq (tidies_addVolume h₁ (ht₁ rfl)) fun _ _ ht₂ _ => ht₂
  refine wp_mono (wp_and htidy (wp_startup ef outside)) ?_ (fun _ _ _ => trivial)
  rintro ok h ⟨hw, hl, he⟩
  refine ⟨hw, ?_⟩
  cases ok with
  | false => exact he rfl
  | true => exact (hl rfl).imp (fun hb => hb.forget false nofun) id

/-- A handler that has started, and the packets after that. -/
theorem wp_serveFrom_watched (ef : Ef δ) (outside : Outside δ) (ps : List Packet)
    (hcare : careful → ∀ h₀, startup (Handler.start ef outside) = .ok true h₀ →
      BatchCareful ps h₀) :
    wp (serveFrom ps) (fun _ h => h.Watched careful ∧ (h.Ledger false ∨ h.Empty)) anyStop
      (Handler.start ef outside) := by
  unfold serveFrom
  rw [wp_bind]
  have hstartup : wp startup (fun ok h => h.Watched careful ∧
      if ok then h.Ledger false else h.Empty)
      anyStop (Handler.start ef outside) := wp_startup_watched ef outside
  refine wp_conseq (wp_run hstartup) ?_
  rintro ok h₀ ⟨hrun, hw, hstart⟩
  cases ok with
  | false => exact ⟨hw, .inr hstart⟩
  | true =>
    rw [if_pos rfl, wp_bind]
    have hl : h₀.Ledger false := hstart
    refine wp_conseq (wp_serveBatch_watched ps hl hw fun hc => hcare hc h₀ hrun) ?_
    rintro _ h ⟨hl', hw'⟩
    exact ⟨hw', .inl hl'⟩

/-- In a run of careful packets every scan stands on a child of the directory its lock is on, after
every packet, whatever the medium does and whether or not there is a volume node. -/
theorem serveFrom_scansStand (ef : Ef δ) (outside : Outside δ) (ps : List Packet)
    (hcare : ∀ h₀, startup (Handler.start ef outside) = .ok true h₀ → BatchCareful ps h₀)
    {u : PUnit} (hrun : serveFrom ps (Handler.start ef outside) = .ok u h) : h.ScansStand := by
  have hwatched := wp_serveFrom_watched ef outside ps fun _ : True => hcare
  obtain ⟨hw, hl | he⟩ := wp_anyStop_iff.1 hwatched u h hrun
  · exact hw.scansStand hl
  · intro l lock s hlock _
    cases (h.locks.get?_eq_none_of_size he.locks).symm.trans hlock

end Run

/-! ### A scan on the card -/

/-- The packets that take nothing out of a directory. -/
def Packet.tame : Packet → Bool
  | .deleteObject .. | .renameObject .. => false
  | _ => true

/-- A batch is careful if its first packets are tame and the rest is careful. -/
theorem batchCareful_append [Device δ] {ps qs : List Packet} {h : Handler δ}
    (hps : ∀ p ∈ ps, p.tame = true)
    (hqs : ∀ rs h', serveBatch ps h = .ok rs h' → BatchCareful qs h') :
    BatchCareful (ps ++ qs) h := by
  induction ps generalizing h with
  | nil => exact hqs [] h rfl
  | cons p ps ih =>
    refine ⟨?_, fun r h' hrun => ih (fun q hq => hps q (List.mem_cons_of_mem _ hq))
      fun rs h'' hrest => ?_⟩
    · have hp := hps p (List.mem_cons_self ..)
      cases p with
      | deleteObject _ _ | renameObject _ _ _ _ => cases hp
      | _ => trivial
    · refine hqs (r :: rs) h'' ?_
      unfold serveBatch
      rw [run_bind_ok hrun, run_bind_ok hrest]
      rfl

/-- `"a"` and `"b"`. -/
def nameA : Bstr := ⟨[0x61], by decide⟩
/-- The path b. -/
def nameB : Bstr := ⟨[0x62], by decide⟩

/-- Two files are made and closed, and a scan of the root directory gets past the latest, `b`. -/
def scanToA : List Packet :=
  [.find .new true none nameA, .endFile (some 1), .find .new true none nameB, .endFile (some 2),
    .locateObject none emptyName, .examineObject (some 1), .examineNext (some 1) 0]

/-- The handler serves its only batch. -/
theorem run_serveFrom [Device δ] {h h₀ h' : Handler δ} {ps : List Packet} {rs : List PacketReply}
    (hstart : startup h = .ok true h₀) (hrun : serveBatch ps h₀ = .ok rs h') :
    serveFrom ps h = .ok ⟨⟩ h' := by
  unfold serveFrom
  rw [run_bind_ok hstart, if_pos rfl, run_bind_ok hrun]
  rfl

/-- While there is a volume node, the file the scan stands on can be deleted. -/
theorem serveFrom_scansStand_card :
    ∃ h, serveFrom (scanToA ++ [.deleteObject none nameA]) cardStart = .ok ⟨⟩ h ∧ h.ScansStand := by
  have hrun := eq_of_valueOf (r := serveBatch (scanToA ++ [.deleteObject none nameA]) cardReady)
    (Option.some_get (by decide +kernel)).symm
  have hserve := run_serveFrom startup_cardStart hrun
  refine ⟨_, hserve, serveFrom_scansStand _ _ _ (fun h₀ hstart => ?_) hserve⟩
  obtain ⟨-, rfl⟩ := EStateM.Result.ok.inj (startup_cardStart.symm.trans hstart)
  refine batchCareful_append (by decide) fun rs h' hscan => ⟨fun _ _ hv => ?_, fun _ _ _ => trivial⟩
  have hsome : (finalState (serveBatch scanToA cardReady)).volume.isSome = true := by decide +kernel
  have hnone : h'.volume = none := hv
  rw [hscan, finalState, hnone] at hsome
  cases hsome

/-- The card, when no volume node can be made. -/
def bareStart : Handler Flat :=
  Handler.start { dev := ⟨fun _ => 0, 0⟩, sb := ⟨[]⟩ }
    { cardStart.outside with makeDosEntry := fun _ => false }

/-- The handler without a volume node when the card has been mounted. -/
def bareReady : Handler Flat := { cardReady with outside := bareStart.outside, volume := none }

/-- The card is mounted at the start. -/
theorem startup_bareStart : startup bareStart = .ok true bareReady := by
  unfold startup
  rw [run_bind_ok (run_mountFs_card (h := bareStart) rfl rfl), if_neg (by decide),
    run_bind_ok (run_addVolume_none rfl)]
  rfl

/-- Without a volume node the scan is left on a file that has been freed. -/
theorem serveFrom_not_scansStand :
    ∃ h, serveFrom (scanToA ++ [.deleteObject none nameA]) bareStart = .ok ⟨⟩ h ∧
    ¬ h.ScansStand := by
  have hrun := eq_of_valueOf (r := serveBatch (scanToA ++ [.deleteObject none nameA]) bareReady)
    (Option.some_get (by decide +kernel)).symm
  refine ⟨_, run_serveFrom startup_bareStart hrun, fun hstand => ?_⟩
  have hstale :
      ((finalState (serveBatch (scanToA ++ [.deleteObject none nameA]) bareReady)).locks.get? 1).map
        Lock.scanNext = some (some 1) ∧
      ((finalState (serveBatch (scanToA ++ [.deleteObject none nameA]) bareReady)).fs.heap
        1).isNone = true := by
    decide +kernel
  obtain ⟨lock, hlock, hscan⟩ := Option.map_eq_some_iff.1 hstale.1
  obtain ⟨d, n, -, -, hn, -⟩ := hstand 1 lock 1 hlock hscan
  rw [hn] at hstale
  cases hstale.2

end ExFat
