import ExFat.Fs.Io
import Mathlib.Logic.Relation

namespace ExFat

open Program Bytes

/-!
# How the library moves its device

libexfat reaches its device through `exfat_pread`, `exfat_pwrite` and `exfat_fsync` and in no other
way, and it leaves the superblock in memory alone while it works on files.  So whatever every call
of the device keeps, every routine of `cluster.c` and `io.c` keeps, however it ends.
-/

variable {δ α : Type} [Device δ]

/-- One call of the device. -/
inductive DevCall : δ → δ → Prop
  | pread (size offset : Nat) (d : δ) : DevCall d (Device.pread size offset d).2
  | pwrite (data : List UInt8) (offset : Nat) (d : δ) : DevCall d (Device.pwrite data offset d).2
  | fsync (d : δ) : DevCall d (Device.fsync d).2

/-- Any number of calls. -/
def DevCalls : δ → δ → Prop := Relation.ReflTransGen DevCall

/-- The volume after some calls of its device, with the superblock it had. -/
def Ef.Moved (ef ef' : Ef δ) : Prop := DevCalls ef.dev ef'.dev ∧ ef'.sb = ef.sb

/-- The device has been called, and the geometry is as before. -/
def FileState.Moved (s s' : FileState δ) : Prop := s.ef.Moved s'.ef

/-- Nothing has moved. -/
theorem Ef.Moved.refl (ef : Ef δ) : ef.Moved ef := ⟨.refl, rfl⟩

/-- Moves add up. -/
theorem Ef.Moved.trans {ef ef' ef'' : Ef δ} (h : ef.Moved ef') (h' : ef'.Moved ef'') :
    ef.Moved ef'' :=
  ⟨Relation.ReflTransGen.trans h.1 h'.1, h'.2.trans h.2⟩

instance : IsPreorder (FileState δ) FileState.Moved where
  refl s := Ef.Moved.refl s.ef
  trans _ _ _ := Ef.Moved.trans

/-! ### Relations the routines on a file keep -/

/-- A relation that allows what walking along the clusters of a file does: calls of the device,
messages, and moves of the cursor. -/
class WalkRel (R : FileState δ → FileState δ → Prop) : Prop extends IsPreorder (FileState δ) R where
  call : ∀ {s : FileState δ} {d : δ}, DevCall s.ef.dev d →
    R s { s with ef := { s.ef with dev := d } }
  report : ∀ s : FileState δ, R s { s with ef := { s.ef with errors := s.ef.errors + 1 } }
  cursor : ∀ (s : FileState δ) (i c : Nat),
    R s { s with node := { s.node with fptrIndex := i, fptrCluster := c } }

/-- A relation that allows what reading and writing within a file does: it moves `valid_size` too.
-/
class ScanRel (R : FileState δ → FileState δ → Prop) : Prop extends WalkRel R where
  valid : ∀ (s : FileState δ) (v : Nat), R s { s with node := { s.node with validSize := v } }

/-- The node with other contents: its clusters, its sizes and its times. -/
def Node.SameLinks (n n' : Node) : Prop :=
  n' = { n with
    fptrIndex := n'.fptrIndex, fptrCluster := n'.fptrCluster, startCluster := n'.startCluster
    isContiguous := n'.isContiguous, isDirty := n'.isDirty, validSize := n'.validSize
    size := n'.size, mtime := n'.mtime, atime := n'.atime }

/-- A relation that allows what resizing a file does besides: it asks for the time, marks clusters
in the bitmap and changes the contents of the node. -/
class MoveRel (R : FileState δ → FileState δ → Prop) : Prop extends ScanRel R where
  tick : ∀ s : FileState δ, R s { s with ef := { s.ef with ticks := s.ef.ticks + 1 } }
  bits : ∀ (s : FileState δ) (chunk : Nat → Bool) (dirty : Bool),
    R s { s with ef := { s.ef with cmap := { s.ef.cmap with chunk := chunk, dirty := dirty } } }
  data : ∀ (s : FileState δ) (n : Node), s.node.SameLinks n → R s { s with node := n }

/-- The same, but for the size that is set when all is done. -/
class ResizeRel (R : FileState δ → FileState δ → Prop) : Prop extends ScanRel R where
  tick : ∀ s : FileState δ, R s { s with ef := { s.ef with ticks := s.ef.ticks + 1 } }
  bits : ∀ (s : FileState δ) (chunk : Nat → Bool) (dirty : Bool),
    R s { s with ef := { s.ef with cmap := { s.ef.cmap with chunk := chunk, dirty := dirty } } }
  contents : ∀ (s : FileState δ) (n : Node), s.node.SameLinks n → n.size = s.node.size →
    R s { s with node := n }

instance {R : FileState δ → FileState δ → Prop} [MoveRel R] : ResizeRel R where
  tick := MoveRel.tick
  bits := MoveRel.bits
  contents s n h _ := MoveRel.data s n h

instance : MoveRel (δ := δ) FileState.Moved where
  call h := ⟨.single h, rfl⟩
  report _ := ⟨.refl, rfl⟩
  cursor _ _ _ := ⟨.refl, rfl⟩
  valid _ _ := ⟨.refl, rfl⟩
  tick _ := ⟨.refl, rfl⟩
  bits _ _ _ := ⟨.refl, rfl⟩
  data _ _ _ := ⟨.refl, rfl⟩

/-- The state after walking along the clusters of a file. -/
structure FileState.Walked (s s' : FileState δ) : Prop where
  calls : DevCalls s.ef.dev s'.ef.dev
  ef : s'.ef = { s.ef with dev := s'.ef.dev, errors := s'.ef.errors }
  node : s'.node = { s.node with
    fptrIndex := s'.node.fptrIndex, fptrCluster := s'.node.fptrCluster }

instance : WalkRel (δ := δ) FileState.Walked where
  refl _ := ⟨.refl, rfl, rfl⟩
  trans a b c hab hbc := by
    refine ⟨Relation.ReflTransGen.trans hab.calls hbc.calls, ?_, ?_⟩
    · rw [hbc.ef, hab.ef]
    · rw [hbc.node, hab.node]
  call h := ⟨.single h, rfl, rfl⟩
  report _ := ⟨.refl, rfl, rfl⟩
  cursor _ _ _ := ⟨.refl, rfl, rfl⟩

/-- The state after reading and writing within a file. -/
structure FileState.Scanned (s s' : FileState δ) : Prop where
  calls : DevCalls s.ef.dev s'.ef.dev
  ef : s'.ef = { s.ef with dev := s'.ef.dev, errors := s'.ef.errors }
  node : s'.node = { s.node with
    fptrIndex := s'.node.fptrIndex, fptrCluster := s'.node.fptrCluster
    validSize := s'.node.validSize }

instance : ScanRel (δ := δ) FileState.Scanned where
  refl _ := ⟨.refl, rfl, rfl⟩
  trans a b c hab hbc := by
    refine ⟨Relation.ReflTransGen.trans hab.calls hbc.calls, ?_, ?_⟩
    · rw [hbc.ef, hab.ef]
    · rw [hbc.node, hab.node]
  call h := ⟨.single h, rfl, rfl⟩
  report _ := ⟨.refl, rfl, rfl⟩
  cursor _ _ _ := ⟨.refl, rfl, rfl⟩
  valid _ _ := ⟨.refl, rfl, rfl⟩

/-- A walk is a scan. -/
theorem FileState.Walked.scanned {s s' : FileState δ} (h : s.Walked s') : s.Scanned s' := by
  refine ⟨h.calls, h.ef, ?_⟩
  have hvalid : s'.node.validSize = s.node.validSize := by rw [h.node]
  rw [hvalid]
  exact h.node

/-! ### Walking along the clusters of a file -/

section Walk

variable {R : FileState δ → FileState δ → Prop} [WalkRel R]

/-- `exfat_pread` keeps the relation. -/
theorem keeps_exfatPread (size offset : Nat) : Keeps R (onEf (exfatPread (δ := δ) size offset)) :=
  fun s => WalkRel.call (.pread size offset s.ef.dev)

/-- `exfat_pwrite` keeps the relation. -/
theorem keeps_exfatPwrite (data : List UInt8) (offset : Nat) :
    Keeps R (onEf (exfatPwrite (δ := δ) data offset)) :=
  fun s => WalkRel.call (.pwrite data offset s.ef.dev)

/-- `exfat_error` keeps the relation. -/
theorem keeps_exfatError (message : String) : Keeps R (onEf (exfatError (δ := δ) message)) :=
  fun s => WalkRel.report s

/-- The way an error path ends: a message and a return code. -/
theorem keeps_report {β : Type} (message : String) (r : β) :
    Keeps R (do onEf (exfatError (δ := δ) message); pure r) :=
  keeps_bind (keeps_exfatError message) fun _ => keeps_pure r

/-- Moving the cursor of the node keeps the relation. -/
theorem keeps_cursor {f : Node → Node}
    (h : ∀ n, f n = { n with fptrIndex := (f n).fptrIndex, fptrCluster := (f n).fptrCluster }) :
    Keeps R (modifyNode (δ := δ) f) := by
  intro s
  show R s { s with node := f s.node }
  rw [h]
  exact WalkRel.cursor s _ _

/-- `exfat_c2o` keeps the relation. -/
theorem keeps_exfatC2o (cluster : Nat) : Keeps R (onEf (exfatC2o (δ := δ) cluster)) := by
  intro s
  unfold onEf exfatC2o
  rw [wp_zoom, wp_bind, wp_get]
  split
  · exact refl_of R s
  · exact refl_of R s

/-- `exfat_next_cluster` keeps the relation. -/
theorem keeps_exfatNextCluster (cluster : Nat) : Keeps R (exfatNextCluster (δ := δ) cluster) := by
  refine keeps_look fun s => keeps_ite (keeps_throw _) (keeps_ite (keeps_pure _) ?_)
  refine keeps_bind (keeps_exfatPread _ _) fun next => ?_
  cases next with
  | none => exact keeps_pure _
  | some bytes => exact keeps_pure _

/-- `advanceLoop` keeps the relation. -/
theorem keeps_advanceLoop (k : Nat) : Keeps R (advanceLoop (δ := δ) k) := by
  induction k with
  | zero => exact keeps_pure _
  | succ k ih =>
    refine keeps_look fun s => keeps_bind (keeps_exfatNextCluster _) fun next => ?_
    exact keeps_bind (keeps_cursor fun _ => rfl) fun _ => keeps_ite (keeps_pure _) ih

/-- `exfat_advance_cluster` keeps the relation. -/
theorem keeps_exfatAdvanceCluster (count : Nat) : Keeps R (exfatAdvanceCluster (δ := δ) count) := by
  refine keeps_bind (keeps_cursor fun n => ?_) fun _ => keeps_look fun s => ?_
  · split
    · rfl
    · rfl
  · refine keeps_bind (keeps_advanceLoop _) fun _ => ?_
    refine keeps_bind (keeps_cursor fun _ => rfl) fun _ => ?_
    exact keeps_look fun s => keeps_pure _

/-- `set_next_cluster` keeps the relation. -/
theorem keeps_setNextCluster (contiguous : Bool) (current next : Nat) :
    Keeps R (onEf (setNextCluster (δ := δ) contiguous current next)) := by
  intro s
  have hcall : R s _ := WalkRel.call (.pwrite (natLe 4 next) (fatOffset s.ef.sb current) s.ef.dev)
  unfold onEf setNextCluster exfatPwrite
  rw [wp_zoom, wp_bind, wp_get]
  split
  · exact refl_of R s
  · simp only [wp_bind, wp_get, wp_set, wp_pure]
    cases (Device.pwrite (natLe 4 next) (fatOffset s.ef.sb current) s.ef.dev).1 with
    | none => exact trans_of R hcall (WalkRel.report _)
    | some _ => exact hcall

/-- `make_noncontiguous` keeps the relation. -/
theorem keeps_makeNoncontiguous (c n : Nat) :
    Keeps R (onEf (makeNoncontiguous (δ := δ) c n)) := by
  induction n generalizing c with
  | zero => exact fun s => refl_of R s
  | succ n ih =>
    intro s
    unfold onEf makeNoncontiguous
    rw [wp_zoom, wp_bind]
    refine wp_mono (wp_zoom.mp (keeps_setNextCluster (R := R) false c (c + 1) s)) ?_
      (fun _ _ h => h)
    intro done ef hef
    split
    · have hrest := wp_zoom.mp (ih (c + 1) { s with ef := ef })
      exact wp_mono hrest (fun _ _ h => trans_of R hef h) (fun _ _ h => trans_of R hef h)
    · exact hef

/-- `erase_raw` keeps the relation. -/
theorem keeps_eraseRaw (size offset : Nat) : Keeps R (onEf (eraseRaw (δ := δ) size offset)) := by
  intro s
  have hcall : R s _ := WalkRel.call (.pwrite (List.replicate size 0) offset s.ef.dev)
  unfold onEf eraseRaw exfatPwrite
  simp only [wp_zoom, wp_bind, wp_get, wp_set, wp_pure]
  cases (Device.pwrite (List.replicate size 0) offset s.ef.dev).1 with
  | none => exact trans_of R hcall (WalkRel.report _)
  | some _ => exact hcall

/-- `eraseLoop` keeps the relation. -/
theorem keeps_eraseLoop (n cluster : Nat) : Keeps R (eraseLoop (δ := δ) n cluster) := by
  induction n generalizing cluster with
  | zero => exact keeps_pure _
  | succ n ih =>
    refine keeps_bind (keeps_exfatNextCluster _) fun next => keeps_look fun s => ?_
    refine keeps_ite (keeps_throw _) (keeps_bind (keeps_exfatC2o _) fun offset => ?_)
    refine keeps_bind (keeps_eraseRaw _ _) fun done => ?_
    exact keeps_ite (ih next) (keeps_pure _)

/-- `erase_range` keeps the relation. -/
theorem keeps_eraseRange (start stop : Nat) : Keeps R (eraseRange (δ := δ) start stop) := by
  refine keeps_look fun s => keeps_ite (keeps_pure _) ?_
  refine keeps_bind (keeps_exfatAdvanceCluster _) fun cluster => keeps_ite (keeps_report _ _) ?_
  refine keeps_bind (keeps_exfatC2o _) fun offset => ?_
  refine keeps_bind (keeps_eraseRaw _ _) fun done => ?_
  exact keeps_ite (keeps_eraseLoop _ _) (keeps_pure _)

/-- `preadLoop` keeps the relation. -/
theorem keeps_preadLoop (n cluster loffset remainder : Nat) :
    Keeps R (preadLoop (δ := δ) n cluster loffset remainder) := by
  induction n generalizing cluster loffset remainder with
  | zero => exact keeps_pure _
  | succ n ih =>
    refine keeps_look fun s => keeps_ite (keeps_report _ _) ?_
    refine keeps_bind (keeps_exfatC2o _) fun offset => keeps_bind (keeps_exfatPread _ _) fun r => ?_
    cases r with
    | none => exact keeps_report _ _
    | some bytes =>
      refine keeps_bind (keeps_exfatNextCluster _) fun next => keeps_bind (ih _ _ _) fun rest => ?_
      cases rest with
      | error e => exact keeps_pure _
      | ok rest => exact keeps_pure _

end Walk

/-! ### Writing within a file -/

section Scan

variable {R : FileState δ → FileState δ → Prop} [ScanRel R]

/-- Raising the valid size keeps the relation. -/
theorem keeps_raise {f : Node → Node} (h : ∀ n, f n = { n with validSize := (f n).validSize }) :
    Keeps R (modifyNode (δ := δ) f) := by
  intro s
  show R s { s with node := f s.node }
  rw [h]
  exact ScanRel.valid s _

/-- `pwriteLoop` keeps the relation. -/
theorem keeps_pwriteLoop (uoffset n cluster loffset done : Nat) (data : List UInt8) :
    Keeps R (pwriteLoop (δ := δ) uoffset n cluster loffset done data) := by
  induction n generalizing cluster loffset done data with
  | zero => exact keeps_pure _
  | succ n ih =>
    refine keeps_look fun s => keeps_ite (keeps_report _ _) ?_
    refine keeps_bind (keeps_exfatC2o _) fun offset => ?_
    refine keeps_bind (keeps_exfatPwrite _ _) fun r => ?_
    cases r with
    | none => exact keeps_report _ _
    | some _ =>
      refine keeps_bind (keeps_raise fun _ => rfl) fun _ => ?_
      exact keeps_bind (keeps_exfatNextCluster _) fun next => ih _ _ _ _

end Scan

/-! ### Resizing a file -/

section Resize

variable {R : FileState δ → FileState δ → Prop} [ResizeRel R]

/-- A change of the node that leaves its links and its size alone keeps the relation. -/
theorem keeps_contents {f : Node → Node} (h : ∀ n : Node, n.SameLinks (f n))
    (hs : ∀ n : Node, (f n).size = n.size) : Keeps R (modifyNode (δ := δ) f) :=
  fun s => ResizeRel.contents s _ (h s.node) (hs s.node)

/-- `timeNow` keeps the relation. -/
theorem keeps_timeNow : Keeps R (onEf (timeNow (δ := δ))) := fun s => ResizeRel.tick s

/-- `allocate_cluster` keeps the relation. -/
theorem keeps_allocateCluster (hint : Nat) : Keeps R (onEf (allocateCluster (δ := δ) hint)) := by
  intro s
  unfold onEf allocateCluster
  simp only [wp_zoom, wp_bind, wp_get, wp_set]
  split
  · exact trans_of R (ResizeRel.bits s _ s.ef.cmap.dirty) (WalkRel.report _)
  · exact ResizeRel.bits s _ true

/-- `free_cluster` keeps the relation. -/
theorem keeps_freeCluster (cluster : Nat) : Keeps R (onEf (freeCluster (δ := δ) cluster)) := by
  intro s
  unfold onEf freeCluster
  simp only [wp_zoom, wp_bind, wp_get]
  split
  · exact refl_of R s
  · exact ResizeRel.bits s _ true

/-- `freeLoop` keeps the relation. -/
theorem keeps_freeLoop (difference previous : Nat) :
    Keeps R (freeLoop (δ := δ) difference previous) := by
  induction difference generalizing previous with
  | zero => exact keeps_pure _
  | succ k ih =>
    refine keeps_look fun s => keeps_ite (keeps_report _ _) ?_
    refine keeps_bind (keeps_exfatNextCluster _) fun next => ?_
    refine keeps_bind (keeps_setNextCluster _ _ _) fun done => keeps_ite ?_ (keeps_pure _)
    exact keeps_bind (keeps_freeCluster _) fun _ => ih next

/-- `shrinkTail` keeps the relation. -/
theorem keeps_shrinkTail (difference previous : Nat) :
    Keeps R (shrinkTail (δ := δ) difference previous) :=
  keeps_bind (keeps_contents (fun _ => rfl) fun _ => rfl) fun _ => keeps_freeLoop _ _

/-- `shrink_file` keeps the relation. -/
theorem keeps_shrinkFile (current difference : Nat) :
    Keeps R (shrinkFile (δ := δ) current difference) := by
  refine keeps_look fun s => keeps_ite (keeps_throw _) (keeps_ite (keeps_throw _)
    (keeps_ite (keeps_throw _) (keeps_ite ?_ ?_)))
  · refine keeps_bind (keeps_exfatAdvanceCluster _) fun last => keeps_ite (keeps_report _ _) ?_
    refine keeps_bind (keeps_exfatNextCluster _) fun previous => ?_
    refine keeps_bind (keeps_setNextCluster _ _ _) fun done => ?_
    exact keeps_ite (keeps_shrinkTail _ _) (keeps_pure _)
  · exact keeps_bind (keeps_contents (fun _ => rfl) fun _ => rfl) fun _ => keeps_shrinkTail _ _

/-- `linkCluster` keeps the relation. -/
theorem keeps_linkCluster (previous next : Nat) : Keeps R (linkCluster (δ := δ) previous next) := by
  refine keeps_look fun s => keeps_ite ?_ (keeps_setNextCluster _ _ _)
  refine keeps_bind (keeps_makeNoncontiguous _ _) fun done => keeps_ite ?_ (keeps_pure _)
  exact keeps_bind (keeps_contents (fun _ => rfl) fun _ => rfl) fun _ => keeps_setNextCluster _ _ _

/-- `growLoop` keeps the relation. -/
theorem keeps_growLoop (current k previous allocated : Nat) :
    Keeps R (growLoop (δ := δ) current k previous allocated) := by
  induction k generalizing previous allocated with
  | zero =>
    refine keeps_look fun s => keeps_bind (keeps_setNextCluster _ _ _) fun done => ?_
    exact keeps_ite (keeps_pure _) (keeps_pure _)
  | succ k ih =>
    refine keeps_bind (keeps_allocateCluster _) fun next => keeps_look fun s => ?_
    refine keeps_ite (keeps_ite ?_ (keeps_pure _)) ?_
    · exact keeps_bind (keeps_shrinkFile _ _) fun _ => keeps_pure _
    · exact keeps_bind (keeps_linkCluster _ _) fun linked => keeps_ite (ih _ _) (keeps_pure _)

/-- `grow_file` keeps the relation. -/
theorem keeps_growFile (current difference : Nat) :
    Keeps R (growFile (δ := δ) current difference) := by
  refine keeps_look fun s => keeps_ite (keeps_throw _) (keeps_ite ?_ (keeps_ite (keeps_throw _) ?_))
  · refine keeps_bind (keeps_exfatAdvanceCluster _) fun previous => ?_
    exact keeps_ite (keeps_report _ _) (keeps_growLoop _ _ _ _)
  · refine keeps_bind (keeps_allocateCluster _) fun previous => keeps_ite (keeps_pure _) ?_
    exact keeps_bind (keeps_contents (fun _ => rfl) fun _ => rfl) fun _ => keeps_growLoop _ _ _ _

/-- `exfat_update_mtime` keeps the relation. -/
theorem keeps_exfatUpdateMtime : Keeps R (exfatUpdateMtime (δ := δ)) :=
  keeps_bind keeps_timeNow fun _ => keeps_contents (fun _ => rfl) fun _ => rfl

/-- `exfat_update_atime` keeps the relation. -/
theorem keeps_exfatUpdateAtime : Keeps R (exfatUpdateAtime (δ := δ)) :=
  keeps_bind keeps_timeNow fun _ => keeps_contents (fun _ => rfl) fun _ => rfl

/-- `resizeFile` keeps the relation. -/
theorem keeps_resizeFile (c1 c2 : Nat) : Keeps R (resizeFile (δ := δ) c1 c2) :=
  keeps_ite (keeps_growFile _ _) (keeps_ite (keeps_shrinkFile _ _) (keeps_pure _))

/-! ### `io.c` -/

/-- `preadValid` keeps the relation. -/
theorem keeps_preadValid (size uoffset : Nat) : Keeps R (preadValid (δ := δ) size uoffset) := by
  refine keeps_look fun s => keeps_bind (keeps_exfatAdvanceCluster _) fun cluster => ?_
  refine keeps_ite (keeps_report _ _) (keeps_bind (keeps_preadLoop _ _ _ _) fun r => ?_)
  cases r with
  | error e => exact keeps_pure _
  | ok bytes =>
    refine keeps_look fun s => keeps_ite ?_ (keeps_pure _)
    exact keeps_bind keeps_exfatUpdateAtime fun _ => keeps_pure _

/-- `exfat_generic_pread` keeps the relation. -/
theorem keeps_exfatGenericPread (size : Nat) (offset : Int) :
    Keeps R (exfatGenericPread (δ := δ) size offset) := by
  refine keeps_look fun s => keeps_ite (keeps_pure _) (keeps_ite (keeps_pure _)
    (keeps_ite (keeps_pure _) (keeps_ite (keeps_ite ?_ (keeps_pure _)) (keeps_preadValid _ _))))
  refine keeps_bind (keeps_preadValid _ _) fun r => ?_
  cases r with
  | error e => exact keeps_pure _
  | ok r => exact keeps_ite (keeps_pure _) (keeps_pure _)

/-- `pwriteValid` keeps the relation. -/
theorem keeps_pwriteValid (data : List UInt8) (uoffset : Nat) :
    Keeps R (pwriteValid (δ := δ) data uoffset) := by
  refine keeps_look fun s => keeps_ite (keeps_pure _) ?_
  refine keeps_bind (keeps_exfatAdvanceCluster _) fun cluster => ?_
  refine keeps_ite (keeps_report _ _) (keeps_bind (keeps_pwriteLoop _ _ _ _ _ _) fun r => ?_)
  cases r with
  | error e => exact keeps_pure _
  | ok _ =>
    refine keeps_look fun s => keeps_ite ?_ (keeps_pure _)
    exact keeps_bind keeps_exfatUpdateMtime fun _ => keeps_pure _

end Resize

section Move

variable {R : FileState δ → FileState δ → Prop} [MoveRel R]

/-- A change of the node that leaves its links alone keeps the relation. -/
theorem keeps_data {f : Node → Node} (h : ∀ n : Node, n.SameLinks (f n)) :
    Keeps R (modifyNode (δ := δ) f) :=
  fun s => MoveRel.data s _ (h s.node)

/-- `setSize` keeps the relation. -/
theorem keeps_setSize (size : Nat) : Keeps R (setSize (δ := δ) size) := by
  refine keeps_bind keeps_exfatUpdateMtime fun _ => ?_
  exact keeps_bind (keeps_data fun _ => rfl) fun _ => keeps_pure _

/-- `exfat_truncate` keeps the relation. -/
theorem keeps_exfatTruncate (size : Nat) (erase : Bool) :
    Keeps R (exfatTruncate (δ := δ) size erase) := by
  refine keeps_look fun s => keeps_ite (keeps_throw _) (keeps_ite (keeps_pure _) ?_)
  refine keeps_bind (keeps_resizeFile _ _) fun r => ?_
  cases r with
  | error e => exact keeps_pure _
  | ok _ =>
    refine keeps_ite (keeps_look fun s => keeps_bind (keeps_eraseRange _ _) fun r => ?_) ?_
    · cases r with
      | error e => exact keeps_pure _
      | ok _ => exact keeps_bind (keeps_data fun _ => rfl) fun _ => keeps_setSize _
    · exact keeps_bind (keeps_data fun _ => rfl) fun _ => keeps_setSize _

/-- `pwriteExtend` keeps the relation. -/
theorem keeps_pwriteExtend (data : List UInt8) (uoffset : Nat) :
    Keeps R (pwriteExtend (δ := δ) data uoffset) := by
  refine keeps_look fun s => keeps_ite (keeps_bind (keeps_exfatTruncate _ _) fun r => ?_)
    (keeps_pwriteValid _ _)
  cases r with
  | error e => exact keeps_pure _
  | ok _ => exact keeps_pwriteValid _ _

/-- `exfat_generic_pwrite` keeps the relation. -/
theorem keeps_exfatGenericPwrite (data : List UInt8) (offset : Int) :
    Keeps R (exfatGenericPwrite (δ := δ) data offset) := by
  refine keeps_look fun s => keeps_ite (keeps_pure _)
    (keeps_ite (keeps_bind (keeps_exfatTruncate _ _) fun r => ?_) (keeps_pwriteExtend _ _))
  cases r with
  | error e => exact keeps_pure _
  | ok _ => exact keeps_pwriteExtend _ _

end Move

end ExFat
