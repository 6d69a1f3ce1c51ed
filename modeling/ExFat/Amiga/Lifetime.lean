import ExFat.Amiga.Service
import ExFat.Fs.Boot

namespace ExFat

open Program

/-!
# What is out, and whether it has a volume

`exfat_handler_main` from its start to its end.  After every packet the books are balanced, the
volume is used only while it is mounted, and the routines behind `ACTION_INHIBIT`,
`ACTION_FREE_LOCK` and `ACTION_END` unmount it only when nothing is out.  The end of the loop does
not look again: what is given out behind an accepted `ACTION_DIE` in the same batch is out when the
volume goes.
-/

variable {δ : Type} {φ : Frame} {x : Delta}

/-! ### A handler without a volume -/

/-- Nothing is mounted, and nothing is out. -/
structure Handler.Empty (h : Handler δ) : Prop where
  mounted : h.mounted = false
  nlocks : h.nlocks = 0
  nfiles : h.nfiles = 0
  locks : h.locks.size = 0
  files : h.files.size = 0
  listed : ∀ v, h.volume = some v → v.lockList = []
  vacant : h.fs.Vacant
  sound : ∀ e ∈ h.trace, e.Sound

/-- A handler without a volume has nothing out. -/
theorem Handler.Empty.sane {h : Handler δ} (he : h.Empty) : h.Sane :=
  ⟨fun _ => ⟨he.locks, he.files⟩, he.sound⟩

/-- An empty table has no keys. -/
theorem Table.keys_eq_nil {α : Type} {t : Table α} (h : t.size = 0) : t.keys = [] :=
  List.length_eq_zero_iff.1 (t.length_keys.trans h)

/-- Nothing in an empty table is counted. -/
theorem Table.count_eq_zero {α : Type} {t : Table α} (h : t.size = 0) (p : α → Bool) :
    t.count p = 0 := by
  unfold Table.count
  rw [List.length_eq_zero_iff.1 h]
  rfl

/-- What is known of the locks and files may be forgotten. -/
theorem Handler.Books.forget {h : Handler δ} (hb : h.Books φ x) (idle : Bool)
    (hidle : idle = true → φ.idle = true) : h.Books { φ with idle := idle } x :=
  ⟨hb.mounted, hb.quit, hb.inhibited, fun hi => hb.idle (hidle hi), hb.nlocks, hb.nfiles, hb.listed,
    hb.bounded, hb.refs, hb.sound⟩

/-- Nothing is out when both counters say so. -/
theorem Handler.Books.of_counters {h : Handler δ} (hb : h.Books φ x) (hl : h.nlocks = 0)
    (hf : h.nfiles = 0) : h.Books { φ with idle := true } x :=
  ⟨hb.mounted, hb.quit, hb.inhibited, fun _ => ⟨hb.nlocks.symm.trans hl, hb.nfiles.symm.trans hf⟩,
    hb.nlocks, hb.nfiles, hb.listed, hb.bounded, hb.refs, hb.sound⟩

/-- `remove_volume` holds no node. -/
theorem serves_removeVolume : Serves φ (removeVolume (δ := δ)) x fun _ => x := fun _ hb =>
  ⟨hb.mounted, hb.quit, hb.inhibited, hb.idle, hb.nlocks, hb.nfiles, nofun, hb.bounded, hb.refs,
    hb.sound⟩

/-- A volume that nothing is out of gets its node. -/
theorem serves_addVolume (hidle : φ.idle = true) : Serves φ (addVolume (δ := δ)) x fun _ => x := by
  intro h hb
  unfold addVolume note
  rw [wp_bind, wp_get, wp_bind, wp_modify, wp_bind]
  unfold ask
  rw [wp_bind, wp_get, wp_bind, wp_set, wp_pure]
  have hsound : ∀ e ∈ Event.use h.mounted :: h.trace, e.Sound := by
    intro e he
    rcases List.mem_cons.1 he with rfl | he
    · exact hb.mounted
    · exact hb.sound e he
  split
  · refine ⟨hb.mounted, hb.quit, hb.inhibited, hb.idle, hb.nlocks, hb.nfiles, ?_, hb.bounded,
      hb.refs, hsound⟩
    intro v hv
    cases hv
    rw [Table.keys_eq_nil (hb.idle hidle).1]
  · exact ⟨hb.mounted, hb.quit, hb.inhibited, hb.idle, hb.nlocks, hb.nfiles, hb.listed, hb.bounded,
      hb.refs, hsound⟩

section Device

variable [Device δ]

/-- Mounting: the books start with the reference of the mount. -/
theorem wp_mountFs {h : Handler δ} (he : h.Empty) :
    wp mountFs (fun ok h' => if ok then h'.Books ⟨h.quit, h.inhibited, true⟩ 0
      else h'.Empty ∧ h'.quit = h.quit ∧ h'.inhibited = h.inhibited) (fun _ h' => h'.Sane) h := by
  unfold mountFs ask
  rw [wp_bind, wp_bind, wp_get, wp_bind, wp_set, wp_pure]
  -- Nothing in the drive, a medium that cannot be mounted, or a volume.
  cases h.outside.medium h.ticks with
  | none =>
    exact ⟨⟨he.mounted, he.nlocks, he.nfiles, he.locks, he.files, he.listed, he.vacant, he.sound⟩,
      rfl, rfl⟩
  | some m =>
    obtain ⟨dev, ro⟩ := m
    dsimp only
    rw [wp_bind, wp_modify, wp_bind]
    unfold onFs
    rw [wp_zoom]
    have hvacant : (blankVolume h.fs dev ro).Vacant := fun _ => rfl
    refine wp_mono (exfatMount_refs hvacant) ?_ ?_
    · intro rc t ht
      cases rc with
      | error e =>
        exact ⟨⟨he.mounted, he.nlocks, he.nfiles, he.locks, he.files, he.listed, ht, he.sound⟩, rfl,
          rfl⟩
      | ok _ =>
        dsimp only
        rw [wp_bind, wp_modify]
        have hsoil : Serves ⟨h.quit, h.inhibited, true⟩
            (useFs (onVolume (exfatSoilSuperBlock (δ := δ)))) 0 fun _ => 0 :=
          serves_useFs_links (links_onVolume _)
        rw [wp_bind]
        refine wp_conseq (hsoil _ ?_) fun _ _ hb => hb
        refine ⟨rfl, rfl, rfl, fun _ => ⟨he.locks, he.files⟩, he.nlocks.trans he.locks.symm,
          he.nfiles.trans he.files.symm, ?_, ht.1, fun i => ?_, he.sound⟩
        · intro v hv
          rw [Table.keys_eq_nil he.locks, he.listed v hv]
        -- no lock and no file is out, so the reference of the mount is all there is
        · show t.refs i = (h.locks.count _ : Nat) + (h.files.count _ : Nat) + one t.root i + 0
          rw [ht.2, Table.count_eq_zero he.locks, Table.count_eq_zero he.files]
          simp
    · intro e t _
      exact ⟨fun _ => ⟨he.locks, he.files⟩, he.sound⟩

/-- Unmounting while nothing is out. -/
theorem wp_unmountFs {h : Handler δ} (hb : h.Books { φ with idle := true } x) :
    wp unmountFs (fun _ h' => h'.Empty ∧ h'.quit = h.quit ∧ h'.inhibited = h.inhibited)
      (fun _ h' => h'.Sane) h := by
  -- what is idle has no locks and no files, so the trace of the unmount is sound
  obtain ⟨hlocks, hfiles⟩ := hb.idle rfl
  have hnote : h.Books { φ with idle := true } x → ∀ e ∈ Event.unmount h.nlocks h.nfiles :: h.trace,
      e.Sound := by
    intro _ e he
    rcases List.mem_cons.1 he with rfl | he
    · exact ⟨hb.nlocks.trans hlocks, hb.nfiles.trans hfiles⟩
    · exact hb.sound e he
  unfold unmountFs note
  rw [wp_bind, wp_get, wp_bind, wp_modify, if_neg (by simp [hb.mounted]), wp_bind]
  unfold useFs note onFs
  rw [wp_bind, wp_get, wp_bind, wp_modify, wp_zoom]
  have hsound : ∀ e ∈ Event.use h.mounted :: Event.unmount h.nlocks h.nfiles :: h.trace,
      e.Sound := by
    intro e he
    rcases List.mem_cons.1 he with rfl | he
    · exact hb.mounted
    · exact hnote hb e he
  -- `exfat_unmount` leaves no node
  refine wp_mono (exfatUnmount_vacant h.fs) ?_ ?_
  · intro _ t ht
    refine ⟨⟨rfl, hb.nlocks.trans hlocks, hb.nfiles.trans hfiles, hlocks, hfiles, ?_, ht, hsound⟩,
      rfl, rfl⟩
    intro v hv
    have hperm := hb.listed v hv
    rw [Table.keys_eq_nil hlocks] at hperm
    exact List.perm_nil.1 hperm
  · intro e t _
    exact ⟨fun _ => ⟨hlocks, hfiles⟩, hsound⟩

/-- `same_volume` holds no node. -/
theorem serves_sameVolumeNow : Serves φ (sameVolumeNow (δ := δ)) x fun _ => x := by
  refine Serves.look fun h => Serves.ite (Serves.pure rfl) ?_
  refine Serves.bind (serves_useFs_links (links_onVolume _)) fun sb => ?_
  cases sb with
  | none => exact Serves.pure rfl
  | some sb => exact Serves.pure rfl

omit [Device δ] in
/-- `discard_dirty_state` holds no node. -/
theorem serves_discardDirtyState : Serves φ (discardDirtyState (δ := δ)) x fun _ => x := by
  refine Serves.look fun h => Serves.ite (Serves.pure rfl) (serves_useFs_links ?_)
  refine keeps_look fun t => keeps_bind (links_discardDirtyNodes _ _) fun _ => links_onVolume _

/-- Letting go of a mount with nothing out leaves nothing behind. -/
theorem wp_releaseMount {h : Handler δ} (hb : h.Books { φ with idle := true } x) :
    wp releaseMount (fun _ h' => h'.Empty ∧ h'.quit = h.quit ∧ h'.inhibited = h.inhibited)
      (fun _ h' => h'.Sane) h := by
  have hflags : ∀ h' : Handler δ, h'.Books { φ with idle := true } x →
      wp unmountFs (fun _ h' => h'.Empty ∧ h'.quit = h.quit ∧ h'.inhibited = h.inhibited)
        (fun _ h' => h'.Sane) h' := by
    intro h' hb'
    refine wp_conseq (wp_unmountFs hb') ?_
    rintro _ h₁ ⟨he, hq, hi⟩
    exact ⟨he, by rw [hq, hb'.quit, hb.quit], by rw [hi, hb'.inhibited, hb.inhibited]⟩
  unfold releaseMount
  rw [wp_bind, wp_get, if_neg (by simp [hb.mounted]), wp_bind]
  refine wp_conseq (serves_sameVolumeNow h hb) ?_
  intro same h₁ hb₁
  split
  · exact hflags h₁ hb₁
  · rw [wp_bind]
    refine wp_conseq (serves_discardDirtyState h₁ hb₁) ?_
    intro _ h₂ hb₂
    rw [wp_bind, wp_modify]
    exact hflags _ ⟨hb₂.mounted, hb₂.quit, hb₂.inhibited, hb₂.idle, hb₂.nlocks, hb₂.nfiles,
      hb₂.listed, hb₂.bounded, hb₂.refs, hb₂.sound⟩

end Device

/-! ### Between two packets -/

/-- The state between two packets: the books are balanced, or the volume has been released.  With
`idle` it is known that nothing is out. -/
def Handler.Ledger (idle : Bool) (h : Handler δ) : Prop :=
  h.Books ⟨h.quit, h.inhibited, idle⟩ 0 ∨ h.Empty ∧ h.inhibited = true

/-- The ledger says that nothing is out without a volume. -/
theorem Handler.Ledger.sane {idle : Bool} {h : Handler δ} (hl : h.Ledger idle) : h.Sane :=
  hl.elim Handler.Books.sane fun he => he.1.sane

/-- The state after a packet that does not end the handler. -/
def Handler.Served (idle : Bool) (h h' : Handler δ) : Prop := h'.Ledger idle ∧ h'.quit = h.quit

/-- A packet whose books are right at its end has been served. -/
theorem Handler.Books.served {idle : Bool} {h h' : Handler δ}
    (hb : h'.Books ⟨h.quit, h.inhibited, idle⟩ 0) : h.Served idle h' := by
  refine ⟨.inl ?_, hb.quit⟩
  rw [hb.quit, hb.inhibited]
  exact hb

section Step

variable [Device δ] {idle : Bool} {h : Handler δ}

omit [Device δ] in
/-- A packet without references of its own is served. -/
theorem wp_of_balanced {m : HandlerM δ PacketReply} (hb : h.Books ⟨h.quit, h.inhibited, idle⟩ 0)
    (hm : Balanced ⟨h.quit, h.inhibited, idle⟩ m) :
    wp m (fun _ h' => h.Served idle h') (fun _ h' => h'.Sane) h :=
  wp_conseq (hm h hb) fun _ _ hb' => hb'.served

/-- The packets that can give out a lock or a file when none is out. -/
def Packet.opens (ro : Bool) : Packet → Bool
  | .locateObject .. => true
  | .copyDir .. => true
  | .find mode fh .. => fh && mode.allowed ro
  | .createDir .. => !ro
  | _ => false

/-- An open that the volume cannot take is served with a refusal. -/
theorem wp_doOpen_refused {mode : OpenMode} {fh : Bool} {lock : Option LockId} {name : Bstr}
    (hb : h.Books ⟨h.quit, h.inhibited, idle⟩ 0) (hopen : (fh && mode.allowed h.fs.ef.ro) = false) :
    wp (doOpen mode fh lock name) (fun _ h' => h.Served idle h') (fun _ h' => h'.Sane) h := by
  unfold doOpen
  -- no file handle, or a read-only volume
  cases fh with
  | false => exact hb.served
  | true =>
    rw [if_neg (by decide), wp_bind]
    -- resolving the path has not made the volume writable
    have hfs : wp (resolve lock name) (fun _ h' => h'.fs = h.fs) anyStop h := by
      unfold resolve lockAt useFs note onFs
      cases lock with
      | none =>
        simp only [wp_bind, wp_pure, wp_get, wp_modify, wp_zoom]
        exact wp_mono (same_resolvePath _ _ h.fs) (fun _ _ h => h) fun _ _ _ => trivial
      | some l =>
        simp only [wp_bind, wp_get]
        cases h.locks.get? l with
        | none => exact trivial
        | some lock =>
          simp only [wp_pure, wp_modify, wp_zoom]
          exact wp_mono (same_resolvePath _ _ h.fs) (fun _ _ h => h) fun _ _ _ => trivial
    refine wp_mono (wp_and (serves_resolve lock name h hb) hfs) ?_ (fun _ _ hs => hs.1)
    rintro path h' ⟨hb', hsame⟩
    cases path with
    | none => exact hb'.served
    | some path =>
      have hro : mode ≠ .old ∧ h.fs.ef.ro = true := by
        simpa [OpenMode.allowed] using hopen
      dsimp only
      rw [wp_bind, wp_get, if_pos ⟨hro.1, Or.inr (hsame ▸ hro.2)⟩]
      exact hb'.served

/-- Serving a packet that needs the medium. -/
theorem wp_dispatch_medium {p : Packet} (hp : p.needsMedium = true)
    (hb : h.Books ⟨h.quit, h.inhibited, idle⟩ 0)
    (hopen : idle = true → p.opens h.fs.ef.ro = false) :
    wp (dispatch p) (fun _ h' => h.Served idle h') (fun _ h' => h'.Sane) h := by
  -- a packet that takes something away from an idle volume has been excluded
  have hfalse : ∀ {ro}, p.opens ro = true → ro = h.fs.ef.ro → idle = false := by
    rintro ro hro rfl
    cases idle with
    | false => rfl
    | true => exact absurd (hopen rfl) (by rw [hro]; decide)
  -- Every other packet gives back what it takes, whether it succeeds or not.
  cases p with
  | locateObject lock name => exact wp_of_balanced hb (balanced_doLocateObject (hfalse rfl rfl) _ _)
  | copyDir lock => exact wp_of_balanced hb (balanced_doCopyDir (hfalse rfl rfl) _)
  | copyDirFh file => exact wp_of_balanced hb (balanced_doLockFromFh _ _)
  | parentFh file => exact wp_of_balanced hb (balanced_doLockFromFh _ _)
  | parent lock => exact wp_of_balanced hb (balanced_doParent _)
  | examineObject lock => exact wp_of_balanced hb (balanced_doExamineObject _)
  | examineNext lock key => exact wp_of_balanced hb (balanced_doExamineNext _ _)
  | examineFh file fib => exact wp_of_balanced hb (balanced_doExamineFh _ _)
  | find mode fh lock name =>
    cases hallowed : fh && mode.allowed h.fs.ef.ro with
    | false => exact wp_doOpen_refused hb hallowed
    | true => exact wp_of_balanced hb (balanced_doOpen (hfalse hallowed rfl) _ _)
  | fhFromLock fh lock => exact wp_of_balanced hb (balanced_doFhFromLock _ _)
  | read file length => exact wp_of_balanced hb (balanced_doRead _ _)
  | write file buffer length => exact wp_of_balanced hb (balanced_doWrite _ _ _)
  | seek file offset mode => exact wp_of_balanced hb (balanced_doSeek _ _ _)
  | setFileSize file offset mode => exact wp_of_balanced hb (balanced_doSetFileSize _ _ _)
  | setProtect lock name bits => exact wp_of_balanced hb (balanced_doSetProtect _ _ _)
  | setDate lock name ds => exact wp_of_balanced hb (balanced_doSetDate _ _ _)
  | setComment lock name comment => exact wp_of_balanced hb (balanced_doSetComment _ _ _)
  | deleteObject lock name => exact wp_of_balanced hb (balanced_doDeleteObject _ _)
  | createDir lock name =>
    cases hro : h.fs.ef.ro with
    | true =>
      show wp (doCreateDir lock name) _ _ h
      unfold doCreateDir
      rw [wp_bind, wp_get, if_pos (Or.inr hro)]
      exact hb.served
    | false =>
      have hidle : idle = false := @hfalse false rfl hro.symm
      exact wp_of_balanced hb (balanced_doCreateDir hidle _ _)
  | renameObject src srcName dst dstName =>
    exact wp_of_balanced hb (balanced_doRenameObject _ _ _ _)
  | renameDisk name => exact wp_of_balanced hb (balanced_doRenameDisk _)
  | freeLock _ | sameLock _ _ | format _ | endFile _ | info | currentVolume | isFilesystem | flush
  | inhibit _ | die | unknown => cases hp

/-! ### The packets an inhibited handler serves -/

omit [Device δ] in
/-- A state without a volume that a packet has left alone. -/
theorem Handler.Empty.served {h' : Handler δ} (he : h'.Empty) (hq : h'.quit = h.quit)
    (hi : h'.inhibited = true) : h.Served idle h' := ⟨.inr ⟨he, hi⟩, hq⟩

/-- `release_if_idle` may let go of a parked volume. -/
theorem wp_releaseIfIdle {h₁ : Handler δ} (hb : h₁.Books ⟨h.quit, h.inhibited, idle⟩ 0) :
    wp releaseIfIdle (fun _ h' => h.Served idle h') (fun _ h' => h'.Sane) h₁ := by
  unfold releaseIfIdle
  rw [wp_bind, wp_get]
  split
  next hc =>
    rw [wp_bind]
    refine wp_conseq (serves_removeVolume h₁ (hb.of_counters hc.2.2.1 hc.2.2.2)) ?_
    intro _ h₂ hb₂
    refine wp_conseq (wp_releaseMount (φ := ⟨h.quit, h.inhibited, idle⟩) hb₂) ?_
    rintro _ h₃ ⟨he, hq, hi⟩
    refine he.served (hq.trans hb₂.quit) ?_
    rw [hi, hb₂.inhibited, ← hb.inhibited]
    exact hc.1
  · exact hb.served

/-- `ACTION_FREE_LOCK` is served. -/
theorem wp_freeLock (hl : h.Ledger idle) (l : Option LockId) :
    wp (dispatch (.freeLock l)) (fun _ h' => h.Served idle h') (fun _ h' => h'.Sane) h := by
  show wp (exfatAmigaFreelock l >>= _) _ _ h
  rw [wp_bind]
  obtain hb | ⟨he, hi⟩ := hl
  · refine wp_conseq (serves_exfatAmigaFreelock l h hb) ?_
    intro _ h₁ hb₁
    rw [wp_bind]
    exact wp_conseq (wp_releaseIfIdle hb₁) fun _ _ hs => hs
  · cases l with
    | none =>
      show wp (releaseIfIdle >>= _) _ _ h
      unfold releaseIfIdle
      rw [wp_bind, wp_bind, wp_get, if_neg (by simp [he.mounted])]
      exact he.served rfl hi
    | some l =>
      unfold exfatAmigaFreelock lockAt
      simp only [wp_bind, wp_get, h.locks.get?_eq_none_of_size he.locks, wp_throw]
      exact he.sane

/-- `ACTION_END` is served. -/
theorem wp_endFile (hl : h.Ledger idle) (f : Option FileId) :
    wp (dispatch (.endFile f)) (fun _ h' => h.Served idle h') (fun _ h' => h'.Sane) h := by
  show wp (doEnd f >>= _) _ _ h
  rw [wp_bind]
  obtain hb | ⟨he, hi⟩ := hl
  · refine wp_conseq (balanced_doEnd f h hb) ?_
    intro _ h₁ hb₁
    rw [wp_bind]
    exact wp_conseq (wp_releaseIfIdle hb₁) fun _ _ hs => hs
  · cases f with
    | none =>
      show wp (releaseIfIdle >>= _) _ _ h
      unfold releaseIfIdle
      rw [wp_bind, wp_bind, wp_get, if_neg (by simp [he.mounted])]
      exact he.served rfl hi
    | some f =>
      unfold doEnd fileAt
      simp only [wp_bind, wp_get, h.files.get?_eq_none_of_size he.files, wp_throw]
      exact he.sane

omit [Device δ] in
/-- Naming a lock when there is none. -/
theorem wp_lockAt_empty {β : Type} {f : Option Lock → HandlerM δ β} {Q : β → Handler δ → Prop}
    (he : h.Empty) (l : Option LockId) (hf : wp (f none) Q (fun _ h' => h'.Sane) h) :
    wp (lockAt l >>= f) Q (fun _ h' => h'.Sane) h := by
  cases l with
  | none => exact hf
  | some l =>
    unfold lockAt
    simp only [wp_bind, wp_get, h.locks.get?_eq_none_of_size he.locks, wp_throw]
    exact he.sane

/-- `ACTION_SAME_LOCK` is served. -/
theorem wp_sameLock (hl : h.Ledger idle) (a b : Option LockId) :
    wp (dispatch (.sameLock a b)) (fun _ h' => h.Served idle h') (fun _ h' => h'.Sane) h := by
  obtain hb | ⟨he, hi⟩ := hl
  · exact wp_of_balanced hb (balanced_doSameLock a b)
  · refine wp_lockAt_empty he a ?_
    show wp (lockAt b >>= _) _ _ h
    exact wp_lockAt_empty he b (he.served rfl hi)

/-- `ACTION_FORMAT` is served. -/
theorem wp_format (hl : h.Ledger idle) (label : Option Bstr) :
    wp (dispatch (.format label)) (fun _ h' => h.Served idle h') (fun _ h' => h'.Sane) h := by
  show wp (doFormat label) _ _ h
  unfold doFormat ask
  rw [wp_bind, wp_get]
  obtain hb | ⟨he, hi⟩ := hl
  · split
    · exact hb.served
    · rw [if_pos (Or.inr hb.mounted)]
      exact hb.served
  · rw [if_neg (by simp [he.mounted]), if_neg (by simp [he.mounted, hi]), wp_bind, wp_bind, wp_get,
      wp_bind, wp_set, wp_pure]
    have he' : Handler.Empty { h with ticks := h.ticks + 1 } :=
      ⟨he.mounted, he.nlocks, he.nfiles, he.locks, he.files, he.listed, he.vacant, he.sound⟩
    split
    · exact he'.served rfl hi
    · exact he'.served rfl hi

/-- `ACTION_INFO` is served. -/
theorem wp_info (hl : h.Ledger idle) :
    wp (dispatch .info) (fun _ h' => h.Served idle h') (fun _ h' => h'.Sane) h := by
  show wp (fillInfodata >>= _) _ _ h
  unfold fillInfodata
  rw [wp_bind, wp_bind, wp_get]
  obtain hb | ⟨he, hi⟩ := hl
  · rw [if_neg (by simp [hb.mounted]), wp_bind]
    have hread : Serves (δ := δ) ⟨h.quit, h.inhibited, idle⟩ (useFs do
        let t ← get
        pure (t.ef.sb.clusterCount, exfatCountFreeClusters t.ef.cmap, t.ef.sb.clusterSize)) 0
        fun _ => 0 := serves_useFs_links (keeps_look fun _ => keeps_pure _)
    exact wp_conseq (hread h hb) fun _ _ hb' => hb'.served
  · rw [if_pos (by simp [he.mounted])]
    exact he.served rfl hi

/-- `do_flush` begins and ends without references of its own. -/
theorem balanced_doFlush : Balanced φ (doFlush (δ := δ)) := by
  refine Serves.look fun h => Serves.ite ?_ (balanced_answer _ _)
  refine Serves.bind (serves_useFs_links ?_) fun ok =>
    Serves.ite (balanced_answer _ _) (balanced_refuse _)
  refine keeps_bind links_exfatFlushNodes fun r => ?_
  cases r with
  | error e => exact keeps_pure _
  | ok _ =>
    refine keeps_bind (links_onVolume _) fun r => ?_
    cases r with
    | error e => exact keeps_pure _
    | ok _ => exact links_onVolume _

/-- `ACTION_FLUSH` is served. -/
theorem wp_flush (hl : h.Ledger idle) :
    wp (dispatch .flush) (fun _ h' => h.Served idle h') (fun _ h' => h'.Sane) h := by
  obtain hb | ⟨he, hi⟩ := hl
  · exact wp_of_balanced hb balanced_doFlush
  · show wp doFlush _ _ h
    unfold doFlush
    rw [wp_bind, wp_get, if_neg (by simp [he.mounted])]
    exact he.served rfl hi

/-! ### Inhibiting -/

/-- Parking a volume holds no node. -/
theorem serves_park : Serves φ (park (δ := δ)) 0 fun _ => 0 := by
  have hdetach : Serves φ (modify fun h : Handler δ => { h with
      volume := h.volume.map fun v : DeviceList => { v with attached := false } }) 0 fun _ => 0 :=
    serves_setVolume fun _ => rfl
  refine Serves.look fun h => Serves.ite hdetach ?_
  refine Serves.bind (serves_useFs_links ?_) fun flushed => ?_
  · refine keeps_bind links_exfatFlushNodes fun r => ?_
    cases r with
    | error e => exact keeps_pure _
    | ok _ =>
      refine keeps_bind (links_onVolume _) fun r => ?_
      cases r with
      | error e => exact keeps_pure _
      | ok _ => exact links_onVolume _
  · exact Serves.ite hdetach (Serves.bind serves_discardDirtyState fun _ => hdetach)

/-- The volume is let go of, or parked while something is out. -/
theorem wp_inhibitOn (hb : h.Books ⟨h.quit, h.inhibited, idle⟩ 0) :
    wp inhibitOn (fun _ h' => h.Served idle h') (fun _ h' => h'.Sane) h := by
  unfold inhibitOn
  rw [wp_bind, wp_get]
  split
  next hc =>
    rw [wp_bind]
    refine wp_conseq (serves_removeVolume h (hb.of_counters hc.1 hc.2)) ?_
    intro _ h₁ hb₁
    rw [wp_bind]
    refine wp_conseq (wp_releaseMount (φ := ⟨h.quit, h.inhibited, idle⟩) hb₁) ?_
    rintro _ h₂ ⟨he, hq, -⟩
    have he' : Handler.Empty { h₂ with inhibited := true } :=
      ⟨he.mounted, he.nlocks, he.nfiles, he.locks, he.files, he.listed, he.vacant, he.sound⟩
    exact he'.served (hq.trans hb₁.quit) rfl
  · rw [wp_bind]
    refine wp_conseq (serves_park h hb) ?_
    intro _ h₁ hb₁
    refine ⟨.inl ?_, hb₁.quit⟩
    exact ⟨hb₁.mounted, rfl, rfl, hb₁.idle, hb₁.nlocks, hb₁.nfiles, hb₁.listed,
      hb₁.bounded, hb₁.refs,
      hb₁.sound⟩

/-- The volume is mounted again, or the parked one is taken up. -/
theorem wp_inhibitOff (hl : h.Ledger idle) (hi : h.inhibited = true) :
    wp inhibitOff (fun _ h' => h.Served idle h') (fun _ h' => h'.Sane) h := by
  unfold inhibitOff
  rw [wp_bind, wp_get]
  -- A volume that is parked, or none.
  obtain hb | ⟨he, -⟩ := hl
  · rw [if_neg (by simp [hb.mounted]), wp_bind]
    refine wp_conseq (serves_sameVolumeNow h hb) ?_
    intro same h₁ hb₁
    split
    -- the medium has been changed in the meantime: the volume stays parked
    · exact hb₁.served
    · rw [wp_bind]
      have hdirty : Serves ⟨h.quit, h.inhibited, idle⟩
          (useFs (onVolume (setVolumeDirty (δ := δ) true))) 0 fun _ => 0 :=
        serves_useFs_links (links_onVolume _)
      refine wp_conseq (hdirty h₁ hb₁) ?_
      intro ok h₂ hb₂
      split
      -- it is the same medium: the volume is taken up where it was left
      · refine ⟨.inl ⟨hb₂.mounted, rfl, rfl, hb₂.idle, hb₂.nlocks, hb₂.nfiles, ?_,
          hb₂.bounded, hb₂.refs,
          hb₂.sound⟩, hb₂.quit⟩
        intro v hv
        obtain ⟨v', hv', rfl⟩ := Option.map_eq_some_iff.1 hv
        exact hb₂.listed v' hv'
      · exact hb₂.served
  -- nothing is mounted, so the medium is mounted afresh
  · rw [if_pos (by simp [he.mounted]), wp_bind]
    refine wp_conseq (wp_mountFs he) ?_
    intro ok h₁ hmount
    cases ok with
    | false => exact hmount.1.served hmount.2.1 (hmount.2.2.trans hi)
    | true =>
      have hb₁ : h₁.Books ⟨h.quit, h.inhibited, true⟩ 0 := hmount
      rw [if_neg (by decide), wp_bind]
      refine wp_conseq (serves_addVolume rfl h₁ hb₁) ?_
      intro _ h₂ hb₂
      refine ⟨.inl ?_, hb₂.quit⟩
      exact ⟨hb₂.mounted, rfl, rfl, fun _ => hb₂.idle rfl, hb₂.nlocks, hb₂.nfiles, hb₂.listed,
        hb₂.bounded, hb₂.refs, hb₂.sound⟩

/-- `ACTION_INHIBIT` is served. -/
theorem wp_inhibit (hl : h.Ledger idle) (on : Bool) :
    wp (dispatch (.inhibit on)) (fun _ h' => h.Served idle h') (fun _ h' => h'.Sane) h := by
  show wp (doInhibit on) _ _ h
  unfold doInhibit
  rw [wp_bind, wp_get]
  split
  next hc =>
    obtain hb | ⟨-, hi⟩ := hl
    · exact wp_inhibitOn hb
    · simp [hi] at hc
  · split
    next hc => exact wp_inhibitOff hl hc.2
    · exact ⟨hl, rfl⟩

/-! ### One packet -/

/-- The packet is not served while it is known that nothing may be given out, or it gives out
nothing. -/
def Handler.Allows (idle : Bool) (h : Handler δ) (p : Packet) : Prop :=
  idle = true → h.inhibited = false → p.opens h.fs.ef.ro = false

/-- Every packet but `ACTION_DIE` is served. -/
theorem wp_servePacket {p : Packet} (hp : p ≠ .die) (hl : h.Ledger idle)
    (hallow : h.Allows idle p) :
    wp (servePacket p) (fun _ h' => h.Served idle h') (fun _ h' => h'.Sane) h := by
  unfold servePacket
  rw [wp_bind, wp_get]
  split
  · exact ⟨hl, rfl⟩
  next hserve =>
    cases hmedium : p.needsMedium with
    | true =>
      have hi : h.inhibited = false := by simpa [hmedium] using hserve
      obtain hb | ⟨-, hi'⟩ := hl
      · exact wp_dispatch_medium hmedium hb fun hidle => hallow hidle hi
      · exact absurd (hi.symm.trans hi') (by decide)
    | false =>
      cases p with
      | freeLock l => exact wp_freeLock hl l
      | sameLock a b => exact wp_sameLock hl a b
      | format label => exact wp_format hl label
      | endFile f => exact wp_endFile hl f
      | info => exact wp_info hl
      | flush => exact wp_flush hl
      | inhibit on => exact wp_inhibit hl on
      | currentVolume | isFilesystem | unknown => exact ⟨hl, rfl⟩
      | die => exact absurd rfl hp
      | locateObject _ _ | copyDir _ | copyDirFh _ | parentFh _ | parent _ | examineObject _
      | examineNext _ _ | examineFh _ _ | find _ _ _ _ | fhFromLock _ _ | read _ _ | write _ _ _
      | seek _ _ _ | setFileSize _ _ _ | setProtect _ _ _ | setDate _ _ _ | setComment _ _ _
      | deleteObject _ _ | createDir _ _ | renameObject _ _ _ _ | renameDisk _ => cases hmedium

/-- `ACTION_DIE` is accepted only when nothing is out. -/
theorem wp_die (hl : h.Ledger idle) :
    wp (servePacket .die) (fun _ h' => h'.Ledger idle ∧ (h'.quit = h.quit ∨ h'.Ledger true))
      (fun _ h' => h'.Sane) h := by
  unfold servePacket
  rw [wp_bind, wp_get, if_neg (by simp [Packet.needsMedium])]
  show wp doDie _ _ h
  unfold doDie
  rw [wp_bind, wp_get]
  split
  · exact ⟨hl, .inl rfl⟩
  next hc =>
    rw [not_or, not_not, not_not] at hc
    obtain hb | ⟨he, hi⟩ := hl
    · have hb' : Handler.Books ⟨true, h.inhibited, true⟩ 0 { h with quit := true } := by
        have hidle := hb.of_counters hc.1 hc.2
        exact ⟨hb.mounted, rfl, rfl, hidle.idle, hb.nlocks, hb.nfiles,
          hb.listed, hb.bounded, hb.refs,
          hb.sound⟩
      exact ⟨.inl (hb'.forget idle fun _ => rfl), .inr (.inl hb')⟩
    · have he' : Handler.Empty { h with quit := true } :=
        ⟨he.mounted, he.nlocks, he.nfiles, he.locks, he.files, he.listed, he.vacant, he.sound⟩
      exact ⟨.inr ⟨he', hi⟩, .inr (.inr ⟨he', hi⟩)⟩

end Step

/-! ### Whole runs -/

/-- The handler as it is allocated, before it has read the startup packet. -/
def Handler.start (ef : Ef δ) (outside : Outside δ) : Handler δ :=
  { fs := { ef := ef, heap := fun _ => none, root := 0, fresh := 0 }, outside := outside }

/-- The handler starts without a volume. -/
theorem empty_start (ef : Ef δ) (outside : Outside δ) : (Handler.start ef outside).Empty :=
  ⟨rfl, rfl, rfl, rfl, rfl, nofun, fun _ => rfl, nofun⟩

/-- A ledger that lets nothing be out is a ledger that lets something be out. -/
theorem Handler.Ledger.forget {h : Handler δ} (hl : h.Ledger true) (idle : Bool) : h.Ledger idle :=
  hl.imp (fun hb => hb.forget idle fun _ => rfl) id

section Run

variable [Device δ] {h : Handler δ}

/-- The handler starts with a volume, or without one. -/
theorem wp_startup (ef : Ef δ) (outside : Outside δ) :
    wp startup (fun ok h' => (ok = true → h'.Ledger h'.quit) ∧ (ok = false → h'.Empty))
      (fun _ h' => h'.Sane) (Handler.start ef outside) := by
  unfold startup
  rw [wp_bind]
  refine wp_conseq (wp_mountFs (empty_start ef outside)) ?_
  intro ok h₁ hmount
  cases ok with
  | false => exact ⟨nofun, fun _ => hmount.1⟩
  | true =>
    have hb₁ : h₁.Books ⟨false, false, true⟩ 0 := hmount
    rw [if_neg (by decide), wp_bind]
    refine wp_conseq (serves_addVolume rfl h₁ hb₁) ?_
    intro _ h₂ hb₂
    refine ⟨fun _ => .inl ?_, nofun⟩
    rw [hb₂.quit, hb₂.inhibited]
    exact hb₂.forget false nofun

/-- Every packet of a batch may be served when its turn comes. -/
def BatchAllows : List Packet → Handler δ → Prop
  | [], _ => True
  | p :: ps, h => h.Allows h.quit p ∧ ∀ r h', servePacket p h = .ok r h' → BatchAllows ps h'

/-- Every packet the loop serves may be served when its turn comes. -/
def LoopAllows : List (List Packet) → Handler δ → Prop
  | [], _ => True
  | batch :: batches, h => h.quit = false →
    BatchAllows batch h ∧ ∀ rs h', serveBatch batch h = .ok rs h' → LoopAllows batches h'

/-- One packet, with or without anything known of what is out. -/
theorem wp_servePacket_quit (hl : h.Ledger h.quit) {p : Packet} (hallow : h.Allows h.quit p) :
    wp (servePacket p) (fun _ h' => h'.Ledger h'.quit) (fun _ h' => h'.Sane) h := by
  by_cases hp : p = .die
  · subst hp
    refine wp_conseq (wp_die hl) ?_
    rintro _ h' ⟨hl', hquit | htrue⟩
    · rw [hquit]
      exact hl'
    · exact htrue.forget _
  · refine wp_conseq (wp_servePacket hp hl hallow) ?_
    rintro _ h' ⟨hl', hquit⟩
    rw [hquit]
    exact hl'

/-- The packets of one batch, `ACTION_DIE` among them. -/
theorem wp_serveBatch_quit (ps : List Packet) (hl : h.Ledger h.quit) (hallow : BatchAllows ps h) :
    wp (serveBatch ps) (fun _ h' => h'.Ledger h'.quit) (fun _ h' => h'.Sane) h := by
  induction ps generalizing h with
  | nil => exact hl
  | cons p ps ih =>
    unfold serveBatch
    rw [wp_bind]
    have hstep := wp_servePacket_quit hl hallow.1
    unfold wp at hstep ⊢
    cases hr : servePacket p h with
    | error e h' =>
      rw [hr] at hstep
      exact hstep
    | ok r h' =>
      rw [hr] at hstep
      dsimp only at hstep ⊢
      show wp (serveBatch ps >>= _) _ _ h'
      rw [wp_bind]
      exact wp_conseq (ih hstep (hallow.2 r h' hr)) fun _ _ hl' => hl'

/-- The packets of all batches. -/
theorem wp_packetLoop (batches : List (List Packet)) (hl : h.Ledger h.quit)
    (hallow : LoopAllows batches h) :
    wp (packetLoop batches) (fun _ h' => h'.Ledger h'.quit) (fun _ h' => h'.Sane) h := by
  induction batches generalizing h with
  | nil => exact hl
  | cons batch batches ih =>
    unfold packetLoop
    rw [wp_bind, wp_get]
    split
    · exact hl
    next hquit =>
      obtain ⟨hbatch, hrest⟩ := hallow (Bool.not_eq_true _ ▸ hquit)
      rw [wp_bind]
      have hstep := wp_serveBatch_quit batch hl hbatch
      unfold wp at hstep ⊢
      cases hr : serveBatch batch h with
      | error e h' =>
        rw [hr] at hstep
        exact hstep
      | ok rs h' =>
        rw [hr] at hstep
        exact ih hstep (hrest rs h' hr)

/-- The end of the handler, when nothing is out. -/
theorem wp_shutdown (hl : h.Ledger true) :
    wp shutdown (fun _ h' => h'.Sane) (fun _ h' => h'.Sane) h := by
  unfold shutdown
  rw [wp_bind]
  obtain hb | ⟨he, -⟩ := hl
  · refine wp_conseq (serves_removeVolume h hb) ?_
    intro _ h₁ hb₁
    exact wp_conseq (wp_unmountFs (φ := ⟨h.quit, h.inhibited, true⟩) hb₁) fun _ _ he => he.1.sane
  · show wp unmountFs _ _ { h with volume := none }
    unfold unmountFs note
    rw [wp_bind, wp_get, wp_bind, wp_modify, if_pos (by simp [he.mounted])]
    refine ⟨fun _ => ⟨he.locks, he.files⟩, ?_⟩
    intro e hmem
    rcases List.mem_cons.1 hmem with rfl | hmem
    · exact ⟨he.nlocks, he.nfiles⟩
    · exact he.sound e hmem

/-- In a run in which nothing is asked for behind an accepted `ACTION_DIE`, the volume is unmounted
only when nothing is out, it is used only while it is mounted, and no lock or file outlives it. -/
theorem exfatHandlerMain_sound (ef : Ef δ) (outside : Outside δ) (batches : List (List Packet))
    (hallow : ∀ h₀, startup (Handler.start ef outside) = .ok true h₀ → LoopAllows batches h₀) :
    (finalState (exfatHandlerMain batches (Handler.start ef outside))).Sane := by
  refine finalState_of_wp ?_
  unfold exfatHandlerMain
  rw [wp_bind]
  have hstart := wp_startup ef outside
  unfold wp at hstart ⊢
  cases hr : startup (Handler.start ef outside) with
  | error e h' =>
    rw [hr] at hstart
    exact hstart
  | ok ok h' =>
    rw [hr] at hstart
    cases ok with
    | false => exact (hstart.2 rfl).sane
    | true =>
      show wp (handlerLoop batches) _ _ h'
      unfold handlerLoop
      rw [wp_bind]
      refine wp_conseq (wp_packetLoop batches (hstart.1 rfl) (hallow h' hr)) ?_
      intro _ h₁ hl
      rw [wp_bind, wp_get]
      split
      next hquit => exact wp_shutdown (hquit ▸ hl)
      · exact hl.sane

/-! ### Everything is accounted for -/

/-- The references to the nodes in memory, the counters and the list of locks agree with what is
out. -/
structure Handler.Accounted (h : Handler δ) : Prop where
  references : ∀ i n, h.fs.heap i = some n → n.references = (h.locks.count fun l => l.node == i) +
    (h.files.count fun f => f.node == i) + if i = h.fs.root then 1 else 0
  nlocks : h.nlocks = h.locks.size
  nfiles : h.nfiles = h.files.size
  lockList : ∀ v, h.volume = some v → v.lockList.Nodup ∧ ∀ l, l ∈ v.lockList ↔ l ∈ h.locks.keys

omit [Device δ] in
/-- Without a volume everything is accounted for. -/
theorem Handler.Empty.accounted (he : h.Empty) : h.Accounted := by
  refine ⟨fun i n hi => ?_, he.nlocks.trans he.locks.symm, he.nfiles.trans he.files.symm,
    fun v hv => ?_⟩
  · rw [he.vacant i] at hi
    cases hi
  · rw [he.listed v hv, Table.keys_eq_nil he.locks]
    simp

omit [Device δ] in
/-- The ledger says that everything is accounted for. -/
theorem Handler.Ledger.accounted {idle : Bool} (hl : h.Ledger idle) : h.Accounted := by
  obtain hb | ⟨he, -⟩ := hl
  · refine ⟨fun i n hi => ?_, hb.nlocks, hb.nfiles, fun v hv => ?_⟩
    · have hrefs := hb.refs i
      unfold Volume.refs Handler.held one at hrefs
      rw [hi] at hrefs
      simpa using hrefs
    · have hperm := hb.listed v hv
      exact ⟨hperm.nodup_iff.2 h.locks.nodup, fun l => hperm.mem_iff⟩
  · exact he.accounted

/-- The packets of one batch. -/
theorem wp_serveBatch (ps : List Packet) (hl : h.Ledger false) :
    wp (serveBatch ps) (fun _ h' => h'.Ledger false) (fun _ h' => h'.Sane) h := by
  induction ps generalizing h with
  | nil => exact hl
  | cons p ps ih =>
    unfold serveBatch
    rw [wp_bind]
    have hstep : wp (servePacket p) (fun _ h' => h'.Ledger false) (fun _ h' => h'.Sane) h := by
      by_cases hp : p = .die
      · subst hp
        exact wp_conseq (wp_die hl) fun _ _ hs => hs.1
      · exact wp_conseq (wp_servePacket hp hl nofun) fun _ _ hs => hs.1
    refine wp_conseq hstep ?_
    intro r h' hl'
    rw [wp_bind]
    exact wp_conseq (ih hl') fun _ _ hl'' => hl''

/-- `exfat_handler_main` until it has served the packets `ps`. -/
def serveFrom (ps : List Packet) : HandlerM δ PUnit := do
  if ← startup then do
    let _ ← serveBatch ps
    pure ⟨⟩
  else pure ⟨⟩

/-- Between startup and shutdown, after every sequence of packets, everything is accounted for. -/
theorem serveFrom_accounted (ef : Ef δ) (outside : Outside δ) (ps : List Packet) :
    wp (serveFrom ps) (fun _ h => h.Accounted) anyStop (Handler.start ef outside) := by
  unfold serveFrom
  rw [wp_bind]
  refine wp_mono (wp_startup ef outside) ?_ (fun _ _ _ => trivial)
  rintro ok h₀ ⟨hl, hfail⟩
  cases ok with
  | false => exact (hfail rfl).accounted
  | true =>
    have hl₀ : h₀.Ledger false := (hl rfl).imp (fun hb => hb.forget false nofun) id
    rw [if_pos rfl, wp_bind]
    exact wp_mono (wp_serveBatch ps hl₀) (fun _ _ hl' => hl'.accounted) (fun _ _ _ => trivial)

/-! ### A start that succeeds -/

omit [Device δ] in
/-- A call of the library that returns. -/
theorem run_useFs {m : TreeM δ α} {a : α} {t : Volume δ} (hm : m h.fs = .ok a t) :
    useFs m h = .ok a { h with fs := t, trace := .use h.mounted :: h.trace } := by
  unfold useFs
  rw [run_bind_ok (run_get h)]
  have hnote : note (.use h.mounted) h = .ok ⟨⟩ { h with trace := .use h.mounted :: h.trace } := rfl
  rw [run_bind_ok hnote]
  exact run_zoom_ok hm

/-- A medium that can be mounted and marked. -/
theorem run_mountFs {dev : δ} {ro ok : Bool} {t t' : Volume δ}
    (hmedium : h.outside.medium h.ticks = some (dev, ro))
    (hmount : exfatMount (blankVolume h.fs dev ro) = .ok (.ok ()) t)
    (hsoil : onVolume exfatSoilSuperBlock t = .ok ok t') :
    mountFs h = .ok true { h with
      fs := t', mounted := true, ticks := h.ticks + 1, trace := .use true :: h.trace } := by
  have hask : ask Outside.medium h = .ok (some (dev, ro)) { h with ticks := h.ticks + 1 } := by
    rw [← hmedium]
    rfl
  have hfs : onFs exfatMount { h with fs := blankVolume h.fs dev ro, ticks := h.ticks + 1 } =
      .ok (.ok ()) { h with fs := t, ticks := h.ticks + 1 } := run_zoom_ok hmount
  have huse := run_useFs (h := { h with fs := t, mounted := true, ticks := h.ticks + 1 }) hsoil
  unfold mountFs
  rw [run_bind_ok hask]
  dsimp only
  rw [run_bind_ok (run_modify _ _), run_bind_ok hfs]
  dsimp only
  rw [run_bind_ok (run_modify _ _), run_bind_ok huse]
  rfl

omit [Device δ] in
/-- The volume is published under its label. -/
theorem run_addVolume (hentry : h.outside.makeDosEntry h.ticks = true) :
    addVolume h = .ok ⟨⟩ { h with
      volume := some { name := (if h.fs.ef.label = [] then untitled else h.fs.ef.label).take 63 }
      ticks := h.ticks + 1
      trace := .use h.mounted :: h.trace } := by
  have hask : ask Outside.makeDosEntry { h with trace := .use h.mounted :: h.trace } =
      .ok true { h with ticks := h.ticks + 1, trace := .use h.mounted :: h.trace } := by
    rw [← hentry]
    rfl
  have hnote : note (.use h.mounted) h = .ok ⟨⟩ { h with trace := .use h.mounted :: h.trace } := rfl
  unfold addVolume
  rw [run_bind_ok (run_get h), run_bind_ok hnote, run_bind_ok hask, if_pos rfl]
  rfl

omit [Device δ] in
/-- There is no volume node. -/
theorem run_addVolume_none (hentry : h.outside.makeDosEntry h.ticks = false) :
    addVolume h = .ok ⟨⟩ { h with ticks := h.ticks + 1, trace := .use h.mounted :: h.trace } := by
  have hask : ask Outside.makeDosEntry { h with trace := .use h.mounted :: h.trace } =
      .ok false { h with ticks := h.ticks + 1, trace := .use h.mounted :: h.trace } := by
    rw [← hentry]
    rfl
  have hnote : note (.use h.mounted) h = .ok ⟨⟩ { h with trace := .use h.mounted :: h.trace } := rfl
  unfold addVolume
  rw [run_bind_ok (run_get h), run_bind_ok hnote, run_bind_ok hask]
  exact run_pure _ _

end Run

/-! ### A run from the card on which nothing is stored -/

/-- The card, and nothing else that could go wrong. -/
def cardStart : Handler Flat :=
  Handler.start { dev := ⟨fun _ => 0, 0⟩, sb := ⟨[]⟩ }
    { medium := fun _ => some (⟨withChecksum cardStore, 2 ^ 20⟩, false), allocVec := fun _ => true
      makeDosEntry := fun _ => true, format := fun _ => true }

/-- The volume when the boot region has been read. -/
def cardBooted : Volume Flat :=
  let t := blankVolume cardStart.fs ⟨withChecksum cardStore, 2 ^ 20⟩ false
  { t with ef := { t.ef with sb := bootSector (withChecksum cardStore), ticks := 3 } }

/-- The volume when it has been mounted and marked dirty. -/
def cardMounted : Volume Flat :=
  finalState (onVolume exfatSoilSuperBlock (finalState (mountRoot cardBooted)))

/-- The handler when the card has been mounted. -/
def cardReady : Handler Flat :=
  { cardStart with
    fs := cardMounted, volume := some { name := untitled }, mounted := true, ticks := 2,
    trace := [.use true, .use true] }

/-- The card can be mounted and marked dirty. -/
theorem run_mountFs_card {h : Handler Flat} (hfs : h.fs = cardStart.fs)
    (hmedium : h.outside.medium h.ticks = some (⟨withChecksum cardStore, 2 ^ 20⟩, false)) :
    mountFs h = .ok true { h with
      fs := cardMounted, mounted := true, ticks := h.ticks + 1,
      trace := .use true :: h.trace } := by
  have hroot : mountRoot cardBooted = .ok (.ok ()) (finalState (mountRoot cardBooted)) :=
    eq_of_valueOf (by decide +kernel)
  have hsoil : onVolume exfatSoilSuperBlock (finalState (mountRoot cardBooted)) =
      .ok true cardMounted :=
    eq_of_valueOf (by decide +kernel)
  have hmount : exfatMount (blankVolume h.fs ⟨withChecksum cardStore, 2 ^ 20⟩ false) =
      .ok (.ok ()) (finalState (mountRoot cardBooted)) := by
    rw [hfs]
    exact (run_exfatMount (fun _ => rfl) bootable_cardStore).trans hroot
  exact run_mountFs hmedium hmount hsoil

/-- The card is mounted at the start. -/
theorem startup_cardStart : startup cardStart = .ok true cardReady := by
  have hlabel : cardMounted.ef.label = [] := by decide +kernel
  unfold startup
  rw [run_bind_ok (run_mountFs_card (h := cardStart) rfl rfl), if_neg (by decide),
    run_bind_ok (run_addVolume (by rfl))]
  show EStateM.Result.ok true _ = _
  unfold cardReady
  dsimp only
  rw [hlabel, if_pos rfl]
  rfl

/-- The handler of the card is its loop. -/
theorem exfatHandlerMain_cardStart (batches : List (List Packet)) :
    exfatHandlerMain batches cardStart = handlerLoop batches cardReady := by
  unfold exfatHandlerMain
  rw [run_bind_ok startup_cardStart, if_pos rfl]

/-- The empty name. -/
def emptyName : Bstr := ⟨[], by decide⟩

/-- A lock on the root is taken and freed before the handler is told to go; what it is asked for
behind the packet that says so gives nothing out. -/
theorem exfatHandlerMain_sound_card :
    startup cardStart = .ok true cardReady ∧
      (finalState (exfatHandlerMain [[.locateObject none emptyName, .freeLock (some 1)],
        [.die, .flush, .read none 4]] cardStart)).Sane := by
  refine ⟨startup_cardStart, exfatHandlerMain_sound _ _ _ fun h₀ _ hquit => ⟨⟨?_, ?_⟩, ?_⟩⟩
  · exact fun hidle => absurd (hquit.symm.trans hidle) (by decide)
  · exact fun _ _ _ => ⟨fun _ _ => rfl, fun _ _ _ => trivial⟩
  · exact fun _ _ _ _ => ⟨⟨fun _ _ => rfl, fun _ _ _ => ⟨fun _ _ => rfl, fun _ _ _ =>
      ⟨fun _ _ => rfl, fun _ _ _ => trivial⟩⟩⟩, fun _ _ _ => trivial⟩

/-- A lock on the root that is asked for behind an accepted `ACTION_DIE` is out when the volume is
unmounted. -/
theorem exfatHandlerMain_not_sound :
    ¬ (finalState (exfatHandlerMain [[.die, .locateObject none emptyName]] cardStart)).Sane := by
  rw [exfatHandlerMain_cardStart]
  have hrun : (finalState (handlerLoop [[.die, .locateObject none emptyName]] cardReady)).mounted =
      false ∧
      (finalState (handlerLoop [[.die, .locateObject none emptyName]] cardReady)).locks.size =
        1 := by
    decide +kernel
  intro hsane
  exact absurd (hsane.idle hrun.1).1 (by rw [hrun.2]; decide)

end ExFat
