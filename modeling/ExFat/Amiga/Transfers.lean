import ExFat.Amiga.Faults
import ExFat.Alloc.Transfer
import ExFat.Fs.Calls
import ExFat.Fs.Mount

namespace ExFat

open Bytes Program

/-!
# What a non-negative result of the device layer means

libexfat takes every non-negative result of `exfat_pread` and `exfat_pwrite` for a full transfer.
`partition_io` returns its size after a full transfer and `-1` for a range that runs over the end of
the partition, but `0` for one that starts behind the end.  So the rule holds for the calls that
start inside the partition; and for the files of a volume it holds if the cluster heap ends inside
the partition.
-/

variable {d d₁ d₂ d' : AmigaDev} {data bytes rest : List UInt8} {offset size : Nat}

/-! ### Calls -/

/-- The number of bytes a call is asked to transfer. -/
def DevOp.len : DevOp → Nat
  | .pread _ size _ => size
  | .pwrite _ data _ => data.length
  | .read _ size => size
  | .write _ data => data.length
  | .seek _ => 0

/-- Where the range of a call starts in the partition. -/
def DevOp.start (d : AmigaDev) : DevOp → Int
  | .pread _ _ offset => offset
  | .pwrite _ _ offset => offset
  | _ => d.pos

/-- The bytes of the call are in the caller's buffer, or on the medium. -/
def DevOp.Transferred (d : AmigaDev) (r : Nat × List UInt8) (d' : AmigaDev) : DevOp → Prop
  | .pread _ size _ => r.2.length = size
  | .read _ size => r.2.length = size
  | .pwrite _ data offset => Stored d'.medium (d.firstbyte + offset.toNat) data
  | .write _ data => Stored d'.medium (d.firstbyte + d.pos.toNat) data
  | .seek _ => True

/-- What libexfat takes a non-negative result of a call for: the range lies in the partition and all
its bytes were transferred. -/
def DevOp.Honest (d : AmigaDev) (op : DevOp) : Prop :=
  ∀ r d', op.run d = .ok r d' →
    0 ≤ op.start d ∧ op.start d + op.len ≤ d.size ∧ r.1 = op.len ∧ op.Transferred d r d'

/-- A range that does not start inside the partition is answered with 0. -/
theorem refuse_of_outside {offset : Int} (h : ¬ (0 ≤ offset ∧ offset < d.size)) :
    d.refuse size offset = some (.ok 0) := by
  unfold AmigaDev.refuse
  split
  · rfl
  · split
    · rfl
    · omega

/-- A read that begins outside the partition returns zero. -/
theorem amigaPread_of_outside (addr : Nat) {offset : Int} (h : ¬ (0 ≤ offset ∧ offset < d.size)) :
    amigaPread addr size offset d = .ok (0, []) d := by
  unfold amigaPread
  rw [run_bind_ok (run_get d), refuse_of_outside h]
  rfl

/-- A write that begins outside the partition returns zero. -/
theorem amigaPwrite_of_outside (addr : Nat) {offset : Int} (h : ¬ (0 ≤ offset ∧ offset < d.size)) :
    amigaPwrite addr data offset d = .ok 0 d := by
  unfold amigaPwrite
  rw [run_bind_ok (run_get d), refuse_of_outside h]
  rfl

/-- A read that begins inside the partition and returns has read all of it. -/
theorem amigaPread_of_inside (ho : Opened d) {addr : Nat} {offset : Int} {r : Nat × List UInt8}
    (hpos : 0 < size) (h : 0 ≤ offset ∧ offset < d.size)
    (hrun : amigaPread addr size offset d = .ok r d') :
    offset + size ≤ d.size ∧ r.1 = size ∧ r.2.length = size := by
  have hwp := wp_anyStop_iff.mp (wp_mono (amigaPread_wp ho addr size offset) (fun _ _ h => h)
    (fun _ _ _ => trivial)) r d' hrun
  obtain ⟨-, -, ⟨-, hout⟩ | ⟨hn, hlen, -, hend⟩, -⟩ := hwp
  · omega
  · exact ⟨hend, hn, hlen⟩

/-- A write that begins inside the partition and returns has stored all of it. -/
theorem amigaPwrite_of_inside (ho : Opened d) {addr n : Nat} {offset : Int}
    (hpos : 0 < data.length) (h : 0 ≤ offset ∧ offset < d.size)
    (hrun : amigaPwrite addr data offset d = .ok n d') :
    offset + data.length ≤ d.size ∧ n = data.length ∧
      Stored d'.medium (d.firstbyte + offset.toNat) data := by
  have hwp := wp_anyStop_iff.mp (wp_mono (amigaPwrite_wp ho addr data offset) (fun _ _ h => h)
    (fun _ _ _ => trivial)) n d' hrun
  obtain ⟨-, ⟨-, hout⟩ | ⟨hn, hst, -, hend⟩, -⟩ := hwp
  · omega
  · exact ⟨hend, hn, hst⟩

/-- `exfat_read` and `exfat_write` are the positioned calls at the file position. -/
theorem amigaRead_eq (addr size : Nat) : amigaRead addr size d =
    match amigaPread addr size d.pos d with
    | .ok r d' => .ok r { d' with pos := d'.pos + r.1 }
    | .error e d' => .error e d' := by
  unfold amigaRead
  rw [run_bind_ok (run_get d), run_bind]
  cases amigaPread addr size d.pos d <;> rfl

/-- `exfat_write` writes at the file position. -/
theorem amigaWrite_eq (addr : Nat) (data : List UInt8) : amigaWrite addr data d =
    match amigaPwrite addr data d.pos d with
    | .ok n d' => .ok n { d' with pos := d'.pos + n }
    | .error e d' => .error e d' := by
  unfold amigaWrite
  rw [run_bind_ok (run_get d), run_bind]
  cases amigaPwrite addr data d.pos d <;> rfl

/-- A transfer that starts inside the partition, and no other, is honest. -/
theorem DevOp.honest_iff (ho : Opened d) {op : DevOp} (hpos : 0 < op.len) :
    op.Honest d ↔ 0 ≤ op.start d ∧ op.start d < d.size := by
  -- Outside the partition the call returns 0, which is short of what was asked for.
  constructor
  · intro h
    by_contra hout
    have hzero : ∃ r d', op.run d = .ok r d' ∧ r.1 = 0 := by
      cases op with
      | pread addr size offset => exact ⟨_, _, amigaPread_of_outside addr hout, rfl⟩
      | pwrite addr data offset =>
        exact ⟨_, _, run_bind_ok (amigaPwrite_of_outside addr hout), rfl⟩
      | read addr size =>
        change ¬ (0 ≤ d.pos ∧ d.pos < d.size) at hout
        refine ⟨(0, []), { d with pos := d.pos + (0 : Nat) }, ?_, rfl⟩
        show amigaRead addr size d = _
        rw [amigaRead_eq, amigaPread_of_outside addr hout]
      | write addr data =>
        change ¬ (0 ≤ d.pos ∧ d.pos < d.size) at hout
        have hw : amigaWrite addr data d = .ok 0 { d with pos := d.pos + (0 : Nat) } := by
          rw [amigaWrite_eq, amigaPwrite_of_outside addr hout]
        exact ⟨_, _, run_bind_ok hw, rfl⟩
      | seek offset => exact absurd hpos (Nat.lt_irrefl 0)
    obtain ⟨r, d', hrun, hr⟩ := hzero
    have := (h r d' hrun).2.2.1
    omega
  · intro h r d' hrun
    refine ⟨h.1, ?_⟩
    -- Inside it, whatever the call returns has been transferred.
    cases op with
    | pread addr size offset => exact amigaPread_of_inside ho hpos h hrun
    | pwrite addr data offset =>
      change (amigaPwrite addr data offset >>= fun n => pure (n, [])) d = _ at hrun
      rw [run_bind] at hrun
      cases hw : amigaPwrite addr data offset d with
      | ok n d₁ =>
        rw [hw] at hrun
        cases hrun
        exact amigaPwrite_of_inside ho hpos h hw
      | error e d₁ =>
        rw [hw] at hrun
        cases hrun
    | read addr size =>
      change amigaRead addr size d = _ at hrun
      rw [amigaRead_eq] at hrun
      cases hr : amigaPread addr size d.pos d with
      | ok r₁ d₁ =>
        rw [hr] at hrun
        cases hrun
        exact amigaPread_of_inside ho hpos h hr
      | error e d₁ =>
        rw [hr] at hrun
        cases hrun
    | write addr data =>
      change (amigaWrite addr data >>= fun n => pure (n, [])) d = _ at hrun
      rw [run_bind, amigaWrite_eq] at hrun
      cases hw : amigaPwrite addr data d.pos d with
      | ok n d₁ =>
        rw [hw] at hrun
        cases hrun
        obtain ⟨hend, hn, hst⟩ := amigaPwrite_of_inside ho hpos h hw
        exact ⟨hend, hn, hst⟩
      | error e d₁ =>
        rw [hw] at hrun
        cases hrun
    | seek offset => exact absurd hpos (Nat.lt_irrefl 0)

/-! ### The calls of libexfat -/

/-- The device after its next buffer has been passed. -/
def AmigaDev.called (d : AmigaDev) : AmigaDev := { d with calls := d.calls + 1 }

/-- A unit stays open when it is called. -/
theorem Opened.called (ho : Opened d) : Opened d.called := ⟨ho.block, ho.aligned, ho.length⟩

/-- What every call of the device keeps; `UnitKept` without the file position. -/
theorem devCall_kept (ho : Opened d) (h : DevCall d d') :
    SameUnit d d' ∧ Opened d' ∧ (d.medium = none → d'.medium = none) := by
  -- a transfer sets the address of the buffer first, which nothing here looks at
  have hkept : ∀ d', UnitKept d.called d' →
      SameUnit d d' ∧ Opened d' ∧ (d.medium = none → d'.medium = none) := fun d' hk =>
    ⟨⟨hk.same.firstbyte, hk.same.size, hk.same.blocksize, hk.same.maxtransfer, hk.same.mask⟩,
      hk.opened ho.called, hk.empty⟩
  cases h with
  | pread size offset =>
    apply hkept
    have hwp := amigaPread_wp ho.called d.addr size offset
    unfold wp at hwp
    unfold Device.pread instDeviceAmigaDev
    unfold AmigaDev.called at hwp ⊢
    dsimp only
    generalize amigaPread d.addr size offset _ = run at hwp ⊢
    cases run with
    | ok r d' => exact hwp.1
    | error e d' => exact hwp.1
  | pwrite data offset =>
    apply hkept
    have hwp := amigaPwrite_wp ho.called d.addr data offset
    unfold wp at hwp
    unfold Device.pwrite instDeviceAmigaDev
    unfold AmigaDev.called at hwp ⊢
    dsimp only
    generalize amigaPwrite d.addr data offset _ = run at hwp ⊢
    cases run with
    | ok n d' => exact hwp.1
    | error e d' => exact hwp.1
  -- the update of the unit moves no data
  | fsync =>
    by_cases hro : d.readOnly = true
    · have hsync : Device.fsync d = (true, d) := by
        unfold Device.fsync instDeviceAmigaDev amigaUpdate
        dsimp only
        rw [run_bind_ok (run_get d), if_pos hro]
        rfl
      rw [hsync]
      exact ⟨SameUnit.refl d, ho, id⟩
    · have hsync : (Device.fsync d).2 = { d with transfers := d.transfers + 1 } := by
        unfold Device.fsync instDeviceAmigaDev amigaUpdate
        dsimp only
        rw [run_bind_ok (run_get d), if_neg hro]
        rfl
      rw [hsync]
      exact ⟨⟨rfl, rfl, rfl, rfl, rfl⟩, ⟨ho.block, ho.aligned, ho.length⟩, id⟩

/-- Calls leave the unit open. -/
theorem devCalls_kept (ho : Opened d) (h : DevCalls d d') :
    SameUnit d d' ∧ Opened d' ∧ (d.medium = none → d'.medium = none) := by
  induction h with
  | refl => exact ⟨SameUnit.refl d, ho, id⟩
  | tail _ hstep ih =>
    obtain ⟨hsame, ho', hempty⟩ := devCall_kept ih.2.1 hstep
    exact ⟨ih.1.trans hsame, ho', fun hm => hempty (ih.2.2 hm)⟩

/-- A read of libexfat that starts inside the partition and does not fail fills its buffer. -/
theorem pread_inside (ho : Opened d) (hpos : 0 < size) (hin : (offset : Int) < d.size)
    (h : (Device.pread size offset d).1 = some bytes) :
    bytes.length = size ∧ (offset + size : Int) ≤ d.size := by
  change (match amigaPread d.addr size offset d.called with
    | .ok r d' => (some r.2, d') | .error _ d' => (none, d')).1 = some bytes at h
  cases hrun : amigaPread d.addr size offset d.called with
  | ok r d' =>
    rw [hrun] at h
    cases h
    obtain ⟨hend, -, hlen⟩ := amigaPread_of_inside ho.called hpos ⟨Int.natCast_nonneg _, hin⟩ hrun
    exact ⟨hlen, hend⟩
  | error e d' =>
    rw [hrun] at h
    cases h

/-- A write of libexfat that starts inside the partition and does not fail is on the medium. -/
theorem pwrite_inside {n : Nat} (ho : Opened d) (hpos : 0 < data.length)
    (hin : (offset : Int) < d.size) (h : Device.pwrite data offset d = (some n, d')) :
    n = data.length ∧ (offset + data.length : Int) ≤ d.size ∧
      Stored d'.medium (d.firstbyte + offset) data := by
  change (match amigaPwrite d.addr data offset d.called with
    | .ok n d' => (some n, d') | .error _ d' => (none, d')) = (some n, d') at h
  cases hrun : amigaPwrite d.addr data offset d.called with
  | ok m d₁ =>
    rw [hrun] at h
    cases h
    obtain ⟨hend, hn, hst⟩ := amigaPwrite_of_inside ho.called hpos ⟨Int.natCast_nonneg _, hin⟩ hrun
    exact ⟨hn, hend, hst⟩
  | error e d₁ =>
    rw [hrun] at h
    cases h

/-! ### Reads and writes of files -/

/-- A run of the device in which `data` was written piece by piece, each piece by a write that
stored all of it; other calls may stand in between. -/
inductive StoredRun : AmigaDev → List UInt8 → AmigaDev → Prop
  | done {d d' : AmigaDev} (calls : DevCalls d d') : StoredRun d [] d'
  | piece {d d₁ d₂ d' : AmigaDev} {bytes rest : List UInt8} {offset : Nat} (calls : DevCalls d d₁)
      (write : Device.pwrite bytes offset d₁ = (some bytes.length, d₂))
      (inside : (offset + bytes.length : Int) ≤ d₁.size)
      (stored : Stored d₂.medium (d₁.firstbyte + offset) bytes) (run : StoredRun d₂ rest d') :
      StoredRun d (bytes ++ rest) d'

/-- A run of the device in which `data` was read piece by piece, each piece by a read that filled
all of it. -/
inductive FilledRun : AmigaDev → List UInt8 → AmigaDev → Prop
  | done {d d' : AmigaDev} (calls : DevCalls d d') : FilledRun d [] d'
  | piece {d d₁ d₂ d' : AmigaDev} {bytes rest : List UInt8} {offset : Nat} (calls : DevCalls d d₁)
      (read : Device.pread bytes.length offset d₁ = (some bytes, d₂))
      (inside : (offset + bytes.length : Int) ≤ d₁.size) (run : FilledRun d₂ rest d') :
      FilledRun d (bytes ++ rest) d'

/-- What is stored after some calls. -/
theorem StoredRun.after (h : DevCalls d d₁) (hrun : StoredRun d₁ data d') :
    StoredRun d data d' := by
  cases hrun with
  | done calls => exact .done (Relation.ReflTransGen.trans h calls)
  | piece calls write inside stored run =>
    exact .piece (Relation.ReflTransGen.trans h calls) write inside stored run

/-- What is stored before some calls. -/
theorem StoredRun.before (hrun : StoredRun d data d₁) (h : DevCalls d₁ d') :
    StoredRun d data d' := by
  induction hrun with
  | done calls => exact .done (Relation.ReflTransGen.trans calls h)
  | piece calls write inside stored _ ih => exact .piece calls write inside stored (ih h)

/-- What is read after some calls. -/
theorem FilledRun.after (h : DevCalls d d₁) (hrun : FilledRun d₁ data d') :
    FilledRun d data d' := by
  cases hrun with
  | done calls => exact .done (Relation.ReflTransGen.trans h calls)
  | piece calls read inside run =>
    exact .piece (Relation.ReflTransGen.trans h calls) read inside run

/-- What is read before some calls. -/
theorem FilledRun.before (hrun : FilledRun d data d₁) (h : DevCalls d₁ d') :
    FilledRun d data d' := by
  induction hrun with
  | done calls => exact .done (Relation.ReflTransGen.trans calls h)
  | piece calls read inside _ ih => exact .piece calls read inside (ih h)

/-- The cluster heap ends inside the partition. -/
def HeapInside (sb : SuperBlock) (size : Int) : Prop :=
  (clusterOffset sb (sb.clusterCount + firstDataCluster) : Int) ≤ size

/-- The bytes of a cluster lie before the end of the heap. -/
theorem HeapInside.lt {sb : SuperBlock} {limit : Int} (h : HeapInside sb limit) {c loffset : Nat}
    (hc : sb.clusterInvalid c = false) (hlo : loffset < sb.clusterSize) :
    ((clusterOffset sb c + loffset : Nat) : Int) < limit := by
  obtain ⟨h2, hlt⟩ := clusterInvalid_eq_false.mp hc
  have hoff : clusterOffset sb c + sb.clusterSize ≤
      clusterOffset sb (sb.clusterCount + firstDataCluster) := clusterOffset_apart sb h2 hlt
  unfold HeapInside at h
  omega

/-- The offset of a data cluster can be computed. -/
theorem wp_exfatC2o {cluster : Nat} {s : FileState AmigaDev} {Q : Nat → FileState AmigaDev → Prop}
    {E : Halt → FileState AmigaDev → Prop} (h : 2 ≤ cluster) :
    wp (onEf (exfatC2o cluster)) Q E s ↔ Q (clusterOffset s.ef.sb cluster) s := by
  unfold onEf exfatC2o
  rw [wp_zoom, wp_bind, wp_get, if_neg (by unfold firstDataCluster; omega)]
  rfl

/-- An open partition that the cluster heap of the volume lies in. -/
def HeapOpen (s : FileState AmigaDev) : Prop :=
  Opened s.ef.dev ∧ HeapInside s.ef.sb s.ef.dev.size

/-- The heap stays inside the partition. -/
theorem HeapOpen.moved {s s' : FileState AmigaDev} (h : HeapOpen s) (hm : s.Moved s') :
    HeapOpen s' := by
  obtain ⟨hsame, ho, -⟩ := devCalls_kept h.1 hm.1
  refine ⟨ho, ?_⟩
  rw [hm.2, hsame.size]
  exact h.2

/-- The loop of `exfat_generic_pwrite` stores all the data. -/
theorem pwriteLoop_stored (uoffset n cluster loffset done : Nat) (data : List UInt8)
    {s : FileState AmigaDev} (ho : HeapOpen s)
    (hn : n = clusterSpan s.ef.sb.clusterSize loffset data.length)
    (hlo : loffset < s.ef.sb.clusterSize) :
    wp (pwriteLoop uoffset n cluster loffset done data)
      (fun r s' => r = .ok () → StoredRun s.ef.dev data s'.ef.dev) anyStop s := by
  -- On the clusters that the data still touches.
  induction n generalizing s cluster loffset done data with
  | zero =>
    have h0 : data = [] :=
      List.length_eq_zero_iff.mp ((clusterSpan_eq_zero s.ef.sb.clusterSize_pos).mp hn.symm)
    subst h0
    exact fun _ => .done .refl
  | succ n ih =>
    have hpos : 0 < data.length := by
      by_contra h0
      have : clusterSpan s.ef.sb.clusterSize loffset data.length = 0 :=
        (clusterSpan_eq_zero s.ef.sb.clusterSize_pos).mpr (by omega)
      omega
    rw [clusterSpan_succ s.ef.sb.clusterSize_pos hlo hpos] at hn
    unfold pwriteLoop
    simp only [wp_bind, wp_get]
    -- an invalid cluster ends the loop with an error, and nothing is claimed then
    by_cases hc : s.ef.sb.clusterInvalid cluster = true
    · rw [if_pos hc]
      intro hr
      cases hr
    · rw [if_neg hc]
      have hvalid : s.ef.sb.clusterInvalid cluster = false := Bool.not_eq_true _ ▸ hc
      obtain ⟨h2, -⟩ := clusterInvalid_eq_false.mp hvalid
      simp only [wp_bind, wp_exfatC2o h2]
      generalize hl : min (s.ef.sb.clusterSize - loffset) data.length = lsize at hn ⊢
      have htake : (data.take lsize).length = lsize := by
        rw [List.length_take]
        omega
      -- the piece of this cluster goes to the device in one call
      cases hw : Device.pwrite (data.take lsize) (clusterOffset s.ef.sb cluster + loffset)
        s.ef.dev with
      | mk r d₁ =>
      -- the transfer, and the state it leaves
      have hrun : onEf (exfatPwrite (data.take lsize) (clusterOffset s.ef.sb cluster + loffset)) s =
          .ok r { s with ef := { s.ef with dev := d₁ } } := by
        rw [run_onEf]
        show EStateM.Result.ok (Device.pwrite _ _ s.ef.dev).1
          { s with ef := { s.ef with dev := (Device.pwrite _ _ s.ef.dev).2 } } = _
        rw [hw]
      refine wp_of_ok hrun ?_
      · cases r with
        | none =>
          intro hr
          cases hr
        | some m =>
          obtain ⟨hm, hend, hst⟩ := pwrite_inside ho.1 (by omega) (ho.2.lt hvalid hlo) hw
          have hcall : DevCall s.ef.dev d₁ := by
            have := DevCall.pwrite (data.take lsize)
              (clusterOffset s.ef.sb cluster + loffset) s.ef.dev
            rw [hw] at this
            exact this
          have ho₁ : HeapOpen { s with ef := { s.ef with dev := d₁ } } :=
            ho.moved ⟨.single hcall, rfl⟩
          simp only [wp_bind]
          refine wp_of_ok (run_modifyNode _ _) ?_
          refine wp_mono (keeps_exfatNextCluster (R := FileState.Moved) cluster _) ?_
            (fun _ _ _ => trivial)
          -- finding the next cluster may read the FAT, which stores nothing
          rintro next s₂ hmoved
          have hcalls : DevCalls d₁ s₂.ef.dev := hmoved.1
          have hsb : s₂.ef.sb = s.ef.sb := hmoved.2
          have ho₂ : HeapOpen s₂ := ho₁.moved hmoved
          have hrest := ih next 0 (done + lsize) (data.drop lsize) ho₂
            (by rw [hsb, List.length_drop]; omega) (by rw [hsb]; exact s.ef.sb.clusterSize_pos)
          refine wp_conseq hrest ?_
          intro r s' hloop hr
          -- this piece, and then those of the rest
          have hpiece : StoredRun s.ef.dev (data.take lsize ++ data.drop lsize) s'.ef.dev :=
            .piece .refl (hm ▸ hw) hend hst (StoredRun.after hcalls (hloop hr))
          rw [List.take_append_drop] at hpiece
          exact hpiece

/-- The loop of `exfat_generic_pread` fills the whole range. -/
theorem preadLoop_filled (n cluster loffset remainder : Nat) {s : FileState AmigaDev}
    (ho : HeapOpen s)
    (hn : n = clusterSpan s.ef.sb.clusterSize loffset remainder)
    (hlo : loffset < s.ef.sb.clusterSize) :
    wp (preadLoop n cluster loffset remainder)
      (fun r s' => ∀ bytes, r = .ok bytes →
        bytes.length = remainder ∧ FilledRun s.ef.dev bytes s'.ef.dev) anyStop s := by
  -- On the clusters that the range still touches.
  induction n generalizing s cluster loffset remainder with
  | zero =>
    have h0 : remainder = 0 := (clusterSpan_eq_zero s.ef.sb.clusterSize_pos).mp hn.symm
    rintro bytes ⟨⟩
    exact ⟨h0.symm, .done .refl⟩
  | succ n ih =>
    have hpos : 0 < remainder := by
      by_contra h0
      have : clusterSpan s.ef.sb.clusterSize loffset remainder = 0 :=
        (clusterSpan_eq_zero s.ef.sb.clusterSize_pos).mpr (by omega)
      omega
    rw [clusterSpan_succ s.ef.sb.clusterSize_pos hlo hpos] at hn
    unfold preadLoop
    simp only [wp_bind, wp_get]
    by_cases hc : s.ef.sb.clusterInvalid cluster = true
    · rw [if_pos hc]
      rintro bytes ⟨⟩
    · rw [if_neg hc]
      have hvalid : s.ef.sb.clusterInvalid cluster = false := Bool.not_eq_true _ ▸ hc
      obtain ⟨h2, -⟩ := clusterInvalid_eq_false.mp hvalid
      simp only [wp_bind, wp_exfatC2o h2]
      generalize hl : min (s.ef.sb.clusterSize - loffset) remainder = lsize at hn ⊢
      cases hr : Device.pread lsize (clusterOffset s.ef.sb cluster + loffset) s.ef.dev with
      | mk r d₁ =>
      have hrun : onEf (exfatPread lsize (clusterOffset s.ef.sb cluster + loffset)) s =
          .ok (r.map fun bytes => bytes ++ List.replicate (lsize - bytes.length) 0)
            { s with ef := { s.ef with dev := d₁ } } := by
        rw [run_onEf]
        show EStateM.Result.ok ((Device.pread _ _ s.ef.dev).1.map _)
          { s with ef := { s.ef with dev := (Device.pread _ _ s.ef.dev).2 } } = _
        rw [hr]
      refine wp_of_ok hrun ?_
      · cases r with
        | none =>
          rintro bytes ⟨⟩
        | some piece =>
          obtain ⟨hlen, hend⟩ := pread_inside ho.1 (by omega) (ho.2.lt hvalid hlo)
            (congrArg Prod.fst hr)
          have hcall : DevCall s.ef.dev d₁ := by
            have := DevCall.pread lsize (clusterOffset s.ef.sb cluster + loffset) s.ef.dev
            rw [hr] at this
            exact this
          have ho₁ : HeapOpen { s with ef := { s.ef with dev := d₁ } } :=
            ho.moved ⟨.single hcall, rfl⟩
          -- inside the partition a read returns all that was asked for, so nothing is padded
          have hpad : piece ++ List.replicate (lsize - piece.length) (0 : UInt8) = piece := by
            rw [hlen, Nat.sub_self, List.replicate_zero, List.append_nil]
          simp only [Option.map_some, hpad, wp_bind]
          refine wp_mono (keeps_exfatNextCluster (R := FileState.Moved) cluster _) ?_
            (fun _ _ _ => trivial)
          rintro next s₂ hmoved
          have hcalls : DevCalls d₁ s₂.ef.dev := hmoved.1
          have hsb : s₂.ef.sb = s.ef.sb := hmoved.2
          have ho₂ : HeapOpen s₂ := ho₁.moved hmoved
          have hrest := ih next 0 (remainder - lsize) ho₂
            (by rw [hsb]; omega) (by rw [hsb]; exact s.ef.sb.clusterSize_pos)
          refine wp_conseq hrest ?_
          intro r s' hloop
          cases r with
          | error e =>
            rintro bytes ⟨⟩
          | ok rest =>
            rintro bytes ⟨⟩
            obtain ⟨hrlen, hfilled⟩ := hloop rest rfl
            refine ⟨?_, .piece .refl (hlen ▸ hr) (hlen ▸ hend) (FilledRun.after hcalls hfilled)⟩
            rw [List.length_append, hlen, hrlen]
            omega

/-- Each piece that a write inside the valid data counts is stored. -/
theorem pwriteValid_stored (data : List UInt8) (uoffset : Nat) {s : FileState AmigaDev}
    (ho : HeapOpen s) :
    wp (pwriteValid data uoffset)
      (fun r s' => ∀ n, r = .ok n → n = data.length ∧ StoredRun s.ef.dev data s'.ef.dev)
      anyStop s := by
  unfold pwriteValid
  simp only [wp_bind, wp_get]
  -- nothing to write, or the loop
  by_cases h0 : data.length = 0
  · rw [if_pos h0]
    rintro n ⟨⟩
    rw [List.length_eq_zero_iff.mp h0]
    exact ⟨rfl, .done .refl⟩
  · rw [if_neg h0]
    simp only [wp_bind]
    refine wp_mono (keeps_exfatAdvanceCluster (R := FileState.Moved) _ s) ?_ (fun _ _ _ => trivial)
    intro cluster s₁ hm₁
    have ho₁ := ho.moved hm₁
    have hcs : s₁.ef.sb = s.ef.sb := hm₁.2
    -- the cached cluster is invalid
    split
    · rintro n ⟨⟩
    · simp only [wp_bind]
      have hloop := pwriteLoop_stored uoffset
        (clusterSpan s.ef.sb.clusterSize (uoffset % s.ef.sb.clusterSize) data.length) cluster
        (uoffset % s.ef.sb.clusterSize) 0 data ho₁ (by rw [hcs])
        (by rw [hcs]; exact Nat.mod_lt _ s.ef.sb.clusterSize_pos)
      refine wp_conseq hloop ?_
      intro r s₂ hstored
      cases r with
      | error e =>
        rintro n ⟨⟩
      | ok _ =>
        have hrun := StoredRun.after hm₁.1 (hstored rfl)
        simp only [wp_bind, wp_get]
        -- a file gets a new modification time, which calls no device
        split
        · rw [wp_bind]
          refine wp_mono (keeps_exfatUpdateMtime (R := FileState.Moved) s₂) ?_
            (fun _ _ _ => trivial)
          rintro _ s₃ hm₃ n ⟨⟩
          exact ⟨rfl, hrun.before hm₃.1⟩
        · rintro n ⟨⟩
          exact ⟨rfl, hrun⟩

/-- What a truncation leaves to `pwriteValid`. -/
theorem pwriteValid_stored_after (data : List UInt8) (uoffset : Nat) {s s₁ : FileState AmigaDev}
    (ho : HeapOpen s) (hm : s.Moved s₁) :
    wp (pwriteValid data uoffset)
      (fun r s' => ∀ n, r = .ok n → n = data.length ∧ StoredRun s.ef.dev data s'.ef.dev)
      anyStop s₁ := by
  refine wp_conseq (pwriteValid_stored data uoffset (ho.moved hm)) ?_
  intro r s' h n hn
  exact ⟨(h n hn).1, StoredRun.after hm.1 (h n hn).2⟩

/-- Each piece that a write behind the valid data counts is stored. -/
theorem pwriteExtend_stored (data : List UInt8) (uoffset : Nat) {s s₁ : FileState AmigaDev}
    (ho : HeapOpen s) (hm : s.Moved s₁) :
    wp (pwriteExtend data uoffset)
      (fun r s' => ∀ n, r = .ok n → n = data.length ∧ StoredRun s.ef.dev data s'.ef.dev)
      anyStop s₁ := by
  unfold pwriteExtend
  simp only [wp_bind, wp_get]
  split
  · rw [wp_bind]
    refine wp_mono (keeps_exfatTruncate (R := FileState.Moved) _ _ s₁) ?_ (fun _ _ _ => trivial)
    intro r s₂ hm₂
    cases r with
    | error e =>
      rintro n ⟨⟩
    | ok _ => exact pwriteValid_stored_after data uoffset ho (hm.trans hm₂)
  · exact pwriteValid_stored_after data uoffset ho hm

/-- `exfat_generic_pwrite` on a volume whose heap lies in the partition stores what it returns. -/
theorem exfatGenericPwrite_stored (data : List UInt8) (offset : Int) {s : FileState AmigaDev}
    (ho : HeapOpen s) :
    wp (exfatGenericPwrite data offset)
      (fun r s' => ∀ n, r = .ok n → n = data.length ∧ StoredRun s.ef.dev data s'.ef.dev)
      anyStop s := by
  unfold exfatGenericPwrite
  simp only [wp_bind, wp_get]
  split
  · rintro n ⟨⟩
  · split
    · rw [wp_bind]
      refine wp_mono (keeps_exfatTruncate (R := FileState.Moved) _ _ s) ?_ (fun _ _ _ => trivial)
      intro r s₁ hm₁
      cases r with
      | error e =>
        rintro n ⟨⟩
      | ok _ => exact pwriteExtend_stored data _ ho hm₁
    · exact pwriteExtend_stored data _ ho (Ef.Moved.refl s.ef)

/-- Each piece that a read inside the valid data counts has been read. -/
theorem preadValid_filled (size uoffset : Nat) {s : FileState AmigaDev} (ho : HeapOpen s) :
    wp (preadValid size uoffset)
      (fun r s' => ∀ n buffer, r = .ok (n, buffer) → n = min size (s.node.size - uoffset) ∧
        buffer.length = n ∧ FilledRun s.ef.dev buffer s'.ef.dev)
      anyStop s := by
  unfold preadValid
  simp only [wp_bind, wp_get]
  refine wp_mono (keeps_exfatAdvanceCluster (R := FileState.Moved) _ s) ?_ (fun _ _ _ => trivial)
  intro cluster s₁ hm₁
  have ho₁ := ho.moved hm₁
  have hcs : s₁.ef.sb = s.ef.sb := hm₁.2
  -- the cached cluster is invalid
  split
  · rintro n buffer ⟨⟩
  · simp only [wp_bind]
    generalize min size (s.node.size - uoffset) = length
    have hloop := preadLoop_filled
      (clusterSpan s.ef.sb.clusterSize (uoffset % s.ef.sb.clusterSize) length) cluster
      (uoffset % s.ef.sb.clusterSize) length ho₁ (by rw [hcs])
      (by rw [hcs]; exact Nat.mod_lt _ s.ef.sb.clusterSize_pos)
    refine wp_conseq hloop ?_
    intro r s₂ hfilled
    cases r with
    | error e =>
      rintro n buffer ⟨⟩
    | ok bytes =>
      obtain ⟨hlen, hrun⟩ := hfilled bytes rfl
      have hrun₂ := FilledRun.after hm₁.1 hrun
      simp only [wp_bind, wp_get]
      -- the access time is written for a file, which calls no device
      split
      · rw [wp_bind]
        refine wp_mono (keeps_exfatUpdateAtime (R := FileState.Moved) s₂) ?_ (fun _ _ _ => trivial)
        rintro _ s₃ hm₃ n buffer ⟨⟩
        exact ⟨rfl, hlen, hrun₂.before hm₃.1⟩
      · rintro n buffer ⟨⟩
        exact ⟨rfl, hlen, hrun₂⟩

/-- What a read of a file that returns `n` has put into the buffer: bytes of the device, and behind
`valid_size` zeros. -/
def ReadFilled (s : FileState AmigaDev) (uoffset n : Nat) (buffer : List UInt8)
    (s' : FileState AmigaDev) : Prop :=
  n ≤ buffer.length ∧ ∃ bytes zeros, buffer = bytes ++ List.replicate zeros 0 ∧
    FilledRun s.ef.dev bytes s'.ef.dev ∧ (0 < zeros → s.node.validSize ≤ uoffset + bytes.length)

/-- A 64-bit difference that does not wrap. -/
theorem sub64_of_le {a b : Nat} (h : b ≤ a) (ha : a < 2 ^ 64) : sub64 a b = a - b := by
  unfold sub64
  rw [Nat.sub_add_comm h, Nat.add_mod_right, Nat.mod_eq_of_lt (by omega)]

/-- `exfat_generic_pread` on a volume whose heap lies in the partition fills what it returns. -/
theorem exfatGenericPread_filled (size : Nat) (offset : Int) {s : FileState AmigaDev}
    (ho : HeapOpen s) (hsize : size < 2 ^ 32) (hoff : offset < 2 ^ 63)
    (hnode : s.node.size < 2 ^ 64) :
    wp (exfatGenericPread size offset)
      (fun r s' => ∀ n buffer, r = .ok (n, buffer) → ReadFilled s offset.toNat n buffer s')
      anyStop s := by
  unfold exfatGenericPread
  simp only [wp_bind, wp_get]
  have hnothing : ReadFilled s offset.toNat 0 [] s :=
    ⟨Nat.le_refl _, [], 0, rfl, .done .refl, fun h => absurd h (Nat.lt_irrefl 0)⟩
  -- The offset is negative, behind the end, or nothing is asked for.
  split
  · rintro n buffer ⟨⟩
  generalize hu : offset.toNat = uoffset at hnothing ⊢
  split
  · rintro n buffer ⟨⟩
    exact hnothing
  split
  · rintro n buffer ⟨⟩
    exact hnothing
  -- then the range is compared with `valid_size`
  have hwrap : u64 (uoffset + size) = uoffset + size := Nat.mod_eq_of_lt (by omega)
  rw [hwrap]
  split
  · split
    · -- bytes up to `valid_size`, zeros behind it
      rw [wp_bind]
      refine wp_conseq (preadValid_filled _ _ ho) ?_
      intro r s' hread
      cases r with
      | error e =>
        rintro n buffer ⟨⟩
      | ok nb =>
        obtain ⟨hn, hlen, hrun⟩ := hread nb.1 nb.2 rfl
        show wp (if nb.1 < s.node.validSize - uoffset then _ else _) _ _ s'
        split
        · rintro n buffer ⟨⟩
          exact ⟨by omega, nb.2, 0, (List.append_nil _).symm, hrun,
            fun h => absurd h (Nat.lt_irrefl 0)⟩
        · rintro n buffer ⟨⟩
          rw [sub64_of_le (by omega) (by omega), sub64_of_le (by omega) hnode]
          refine ⟨?_, nb.2, _, rfl, hrun, fun _ => by omega⟩
          rw [List.length_append, List.length_replicate]
          omega
    -- nothing of the range is valid: only zeros
    · rintro n buffer ⟨⟩
      rw [sub64_of_le (by omega) hnode]
      refine ⟨?_, [], _, rfl, .done .refl, fun _ => by simp; omega⟩
      rw [List.length_replicate]
      omega
  -- all of it is valid
  · refine wp_conseq (preadValid_filled _ _ ho) ?_
    rintro r s' hread n buffer hr
    obtain ⟨hn, hlen, hrun⟩ := hread n buffer hr
    exact ⟨by omega, buffer, 0, (List.append_nil _).symm, hrun, fun h => absurd h (Nat.lt_irrefl 0)⟩

/-! ### Volumes whose heap runs over the end of the partition -/

/-- Nothing is stored in an empty slot. -/
theorem StoredRun.eq_nil (ho : Opened d) (hm : d.medium = none) (h : StoredRun d data d') :
    data = [] := by
  induction h with
  | done _ => rfl
  | @piece d d₁ d₂ d' bytes rest offset calls write _ stored _ ih =>
    obtain ⟨-, ho₁, hempty₁⟩ := devCalls_kept ho calls
    have hcall : DevCall d₁ d₂ := by
      have := DevCall.pwrite bytes offset d₁
      rw [write] at this
      exact this
    obtain ⟨-, ho₂, hempty₂⟩ := devCall_kept ho₁ hcall
    have hm₂ := hempty₂ (hempty₁ hm)
    have hbytes : bytes = [] := by
      by_contra hne
      obtain ⟨b, hb, -⟩ := stored (List.length_pos_iff.mpr hne)
      rw [hm₂] at hb
      cases hb
    rw [hbytes, ih ho₂ hm₂]
    rfl

/-- A file that fills the last cluster of the heap, with the slot empty. -/
def lastClusterFile (sb : SuperBlock) (d : AmigaDev) : FileState AmigaDev where
  ef := { dev := { d with medium := none }, sb := sb }
  node := {
    references := 1
    startCluster := sb.clusterCount + 1
    fptrCluster := sb.clusterCount + 1
    isContiguous := true
    validSize := sb.clusterSize
    size := sb.clusterSize }

/-- The last byte of that file is written behind the end of the partition, and the call returns 1.
-/
theorem lastClusterFile_pwrite {sb : SuperBlock}
    (hroot : sb.clusterInvalid sb.rootdirCluster = false) (hout : ¬ HeapInside sb d.size) :
    ∃ s', exfatGenericPwrite [0] ((sb.clusterSize - 1 : Nat) : Int) (lastClusterFile sb d) =
      .ok (.ok 1) s' := by
  have hcount : 0 < sb.clusterCount := by
    obtain ⟨h2, hlt⟩ := clusterInvalid_eq_false.mp hroot
    omega
  have hcs := sb.clusterSize_pos
  have hvalid : sb.clusterInvalid (sb.clusterCount + 1) = false :=
    clusterInvalid_eq_false.mpr (by omega)
  -- the byte lies behind the end
  have hoff : ¬ (0 ≤ ((clusterOffset sb (sb.clusterCount + 1) + (sb.clusterSize - 1) : Nat) : Int) ∧
      ((clusterOffset sb (sb.clusterCount + 1) + (sb.clusterSize - 1) : Nat) : Int) < d.size) := by
    have hlast : clusterOffset sb (sb.clusterCount + firstDataCluster) =
        clusterOffset sb (sb.clusterCount + 1) + sb.clusterSize := by
      rw [clusterOffset_eq, clusterOffset_eq sb (sb.clusterCount + 1)]
      have : sb.clusterCount + firstDataCluster - 2 = sb.clusterCount + 1 - 2 + 1 := by
        unfold firstDataCluster
        omega
      rw [this, Nat.succ_mul, Nat.add_assoc]
    unfold HeapInside at hout
    omega
  have hwrite : ∀ d' : AmigaDev, d'.size = d.size →
      Device.pwrite [0] (clusterOffset sb (sb.clusterCount + 1) + (sb.clusterSize - 1)) d' =
        (some 0, d'.called) := by
    intro d' hd'
    have hrefused : amigaPwrite d'.addr [0]
        ((clusterOffset sb (sb.clusterCount + 1) + (sb.clusterSize - 1) : Nat) : Int) d'.called =
        .ok 0 d'.called :=
      amigaPwrite_of_outside _ (by show ¬ (_ ∧ _ < d'.size); rw [hd']; exact hoff)
    show (match amigaPwrite d'.addr [0] _ d'.called with
      | .ok n d' => (some n, d') | .error _ d' => (none, d')) = _
    rw [hrefused]
  -- one cluster, and one byte of it
  have hspan : clusterSpan sb.clusterSize (sb.clusterSize - 1) 1 = 1 := by
    rw [clusterSpan_succ hcs (by omega) (by decide), Nat.sub_sub_self (by omega), Nat.min_self,
      Nat.sub_self]
    rfl
  have hindex : u32 ((sb.clusterSize - 1) / sb.clusterSize) = 0 := by
    rw [Nat.div_eq_of_lt (by omega)]
    rfl
  -- the loop makes the one transfer and takes its 0 for a success
  have hloop : ∀ s : FileState AmigaDev, s.ef.sb = sb → s.ef.dev.size = d.size →
      s.node.isContiguous = true →
      wp (pwriteLoop (sb.clusterSize - 1) 1 (sb.clusterCount + 1) (sb.clusterSize - 1) 0 [0])
        (fun r _ => r = .ok ()) never s := by
    intro s hsb hsize hcont
    unfold pwriteLoop
    simp only [wp_bind, wp_get, hsb, hvalid, Bool.false_eq_true, if_false]
    rw [wp_exfatC2o (by omega), hsb]
    have hmin : min (sb.clusterSize - (sb.clusterSize - 1)) [(0 : UInt8)].length = 1 := by
      rw [Nat.sub_sub_self (by omega)]
      rfl
    rw [hmin]
    have hpw : onEf (exfatPwrite (List.take 1 [0])
        (clusterOffset sb (sb.clusterCount + 1) + (sb.clusterSize - 1))) s =
        .ok (some 0) { s with ef := { s.ef with dev := s.ef.dev.called } } := by
      rw [run_onEf]
      show EStateM.Result.ok (Device.pwrite [0] _ s.ef.dev).1
        { s with ef := { s.ef with dev := (Device.pwrite [0] _ s.ef.dev).2 } } = _
      rw [hwrite s.ef.dev hsize]
    refine wp_of_ok hpw ?_
    simp only [wp_bind]
    refine wp_of_ok (run_modifyNode _ _) ?_
    have hnext : ∀ s₁ : FileState AmigaDev, s₁.node.isContiguous = true →
        exfatNextCluster (sb.clusterCount + 1) s₁ = .ok (u32 (sb.clusterCount + 1 + 1)) s₁ := by
      intro s₁ hcont₁
      unfold exfatNextCluster
      rw [run_bind_ok (run_get s₁), if_neg (by unfold firstDataCluster; omega), if_pos hcont₁]
      rfl
    exact wp_of_ok (hnext _ hcont) rfl
  -- the call accepts the 0 as well, and counts the byte as written
  have hwp : wp (exfatGenericPwrite [0] ((sb.clusterSize - 1 : Nat) : Int)) (fun r _ => r = .ok 1)
      never (lastClusterFile sb d) := by
    unfold exfatGenericPwrite pwriteExtend pwriteValid
    simp only [wp_bind, wp_get]
    have hle : ¬ sb.clusterSize - 1 > (lastClusterFile sb d).node.size := by
      show ¬ sb.clusterSize - 1 > sb.clusterSize
      omega
    have hfits : ¬ u64 (sb.clusterSize - 1 + [(0 : UInt8)].length) >
        (lastClusterFile sb d).node.size := by
      show ¬ u64 (sb.clusterSize - 1 + 1) > sb.clusterSize
      have : u64 (sb.clusterSize - 1 + 1) ≤ sb.clusterSize - 1 + 1 := Nat.mod_le _ _
      omega
    have hsb : (lastClusterFile sb d).ef.sb = sb := rfl
    have hadvance : exfatAdvanceCluster 0 (lastClusterFile sb d) =
        .ok (sb.clusterCount + 1) (lastClusterFile sb d) := rfl
    rw [if_neg (by omega), Int.toNat_natCast, if_neg hle]
    simp only [wp_bind, wp_get]
    rw [if_neg hfits]
    simp only [wp_bind, wp_get]
    rw [if_neg (by decide), hsb, hindex, wp_bind]
    refine wp_of_ok hadvance ?_
    simp only [hvalid, Bool.false_eq_true, if_false, wp_bind]
    rw [Nat.mod_eq_of_lt (show sb.clusterSize - 1 < sb.clusterSize by omega),
      show clusterSpan sb.clusterSize (sb.clusterSize - 1) [(0 : UInt8)].length = 1 from hspan]
    refine wp_of_total (hloop (lastClusterFile sb d) rfl rfl rfl) ?_
    rintro r s' rfl
    simp only [wp_bind, wp_get]
    split
    · obtain ⟨s'', hs''⟩ : ∃ s'', exfatUpdateMtime s' = .ok ⟨⟩ s'' := ⟨_, rfl⟩
      rw [wp_bind]
      exact wp_of_ok hs'' rfl
    · rfl
  obtain ⟨r, s', hrun, rfl⟩ := wp_never_iff.mp hwp
  exact ⟨s', hrun⟩

/-- Every write of a file that returns `n` has stored `n` bytes of its data. -/
def PwriteHonest (sb : SuperBlock) (d : AmigaDev) : Prop :=
  ∀ (s s' : FileState AmigaDev) (data : List UInt8) (offset : Int) (n : Nat), s.ef.sb = sb →
    SameUnit d s.ef.dev → Opened s.ef.dev → exfatGenericPwrite data offset s = .ok (.ok n) s' →
    n ≤ data.length ∧ StoredRun s.ef.dev (data.take n) s'.ef.dev

/-- Every read of a file that returns `n` has filled `n` bytes, from the device or with the zeros
beyond `valid_size`. -/
def PreadHonest (sb : SuperBlock) (d : AmigaDev) : Prop :=
  ∀ (s s' : FileState AmigaDev) (size : Nat) (offset : Int) (n : Nat) (buffer : List UInt8),
    s.ef.sb = sb → SameUnit d s.ef.dev → Opened s.ef.dev → size < 2 ^ 32 → offset < 2 ^ 63 →
    s.node.size < 2 ^ 64 → exfatGenericPread size offset s = .ok (.ok (n, buffer)) s' →
    ReadFilled s offset.toNat n buffer s'

/-- The files of a volume can be trusted exactly if its cluster heap ends inside the partition. -/
theorem files_honest_iff {sb : SuperBlock} (ho : Opened d)
    (hroot : sb.clusterInvalid sb.rootdirCluster = false) :
    PwriteHonest sb d ∧ PreadHonest sb d ↔ HeapInside sb d.size := by
  constructor
  · rintro ⟨hpw, -⟩
    by_contra hout
    obtain ⟨s', hrun⟩ := lastClusterFile_pwrite hroot hout
    have ho' : Opened (lastClusterFile sb d).ef.dev := ⟨ho.block, ho.aligned, ho.length⟩
    obtain ⟨-, hst⟩ := hpw (lastClusterFile sb d) s' [0] _ 1 rfl ⟨rfl, rfl, rfl, rfl, rfl⟩ ho' hrun
    have hnil : List.take 1 [(0 : UInt8)] = [] := hst.eq_nil ho' rfl
    cases hnil
  · intro hin
    have hopen : ∀ s : FileState AmigaDev, s.ef.sb = sb → SameUnit d s.ef.dev → Opened s.ef.dev →
        HeapOpen s := by
      intro s hsb hsame ho'
      refine ⟨ho', ?_⟩
      rw [hsb, hsame.size]
      exact hin
    refine ⟨?_, ?_⟩
    · intro s s' data offset n hsb hsame ho' hrun
      have hwp := exfatGenericPwrite_stored data offset (hopen s hsb hsame ho')
      obtain ⟨hn, hst⟩ := wp_anyStop_iff.mp hwp _ s' hrun n rfl
      rw [hn, List.take_length]
      exact ⟨Nat.le_refl _, hst⟩
    · intro s s' size offset n buffer hsb hsame ho' hsize hoff hnode hrun
      have hwp := exfatGenericPread_filled size offset (hopen s hsb hsame ho') hsize hoff hnode
      exact wp_anyStop_iff.mp hwp _ s' hrun n buffer rfl

/-- A non-negative result of the device layer means a full transfer exactly for the calls that start
inside the partition, and for the files of a mounted volume exactly if its cluster heap ends there.
-/
theorem transfers_honest_iff (ho : Opened d) :
    (∀ op : DevOp, 0 < op.len → (op.Honest d ↔ 0 ≤ op.start d ∧ op.start d < d.size)) ∧
    ∀ sb : SuperBlock, sb.clusterInvalid sb.rootdirCluster = false →
      (PwriteHonest sb d ∧ PreadHonest sb d ↔ HeapInside sb d.size) :=
  ⟨fun _ hpos => DevOp.honest_iff ho hpos, fun _ hroot => files_honest_iff ho hroot⟩

/-! A partition of 4096 bytes with a volume of one cluster at its end. -/

/-- A volume with two clusters of one sector. -/
def smallVolumeSb (clusterSectorStart : Nat) : SuperBlock :=
  (SuperBlock.mk (List.replicate 512 0)).setFields
    [(0x58, 4, clusterSectorStart), (0x5c, 4, 1), (0x60, 4, 2), (0x6c, 1, 9)]

/-- A partition of eight blocks of zeroes. -/
def smallDev : AmigaDev where
  medium := some fun _ => 0
  firstbyte := 0
  size := 4096
  blocksize := 512

/-- The partition is open. -/
theorem smallDev_opened : Opened smallDev := ⟨⟨9, rfl⟩, rfl, List.length_replicate ..⟩

/-- With its heap at the seventh sector the volume ends with the partition. -/
theorem transfers_honest_smallVolume :
    DevOp.Honest smallDev (.pread 0 16 4080) ∧ ¬ DevOp.Honest smallDev (.pread 0 16 4096) ∧
      PwriteHonest (smallVolumeSb 7) smallDev ∧ ¬ (PwriteHonest (smallVolumeSb 8) smallDev ∧
        PreadHonest (smallVolumeSb 8) smallDev) := by
  obtain ⟨hcalls, hfiles⟩ := transfers_honest_iff smallDev_opened
  refine ⟨(hcalls (.pread 0 16 4080) (by decide)).mpr ⟨by decide, by decide⟩, ?_, ?_, ?_⟩
  · intro h
    exact absurd ((hcalls (.pread 0 16 4096) (by decide)).mp h).2 (by decide)
  · refine ((hfiles (smallVolumeSb 7) (by decide +kernel)).mpr ?_).1
    show (_ : Int) ≤ _
    decide +kernel
  · intro h
    have hin := (hfiles (smallVolumeSb 8) (by decide +kernel)).mp h
    exact absurd hin (by show ¬ (_ : Int) ≤ _; decide +kernel)

/-- Neither the calls nor the files can be trusted on every volume: a read behind the end returns 0,
and a byte of a cluster behind the end is written nowhere. -/
theorem transfers_not_honest :
    ¬ ∀ d : AmigaDev, Opened d → (∀ op : DevOp, 0 < op.len → op.Honest d) ∧
      ∀ sb : SuperBlock, sb.clusterInvalid sb.rootdirCluster = false →
        PwriteHonest sb d ∧ PreadHonest sb d := by
  intro h
  obtain ⟨hcalls, -⟩ := h smallDev smallDev_opened
  have hread : DevOp.run (.pread 0 16 4096) smallDev = .ok (0, []) smallDev := rfl
  have := (hcalls (.pread 0 16 4096) (by decide) _ _ hread).2.2.1
  exact absurd this (by decide)

end ExFat
