import ExFat.Session.Special
import ExFat.Session.WriteBack
import ExFat.Alloc.Walk

namespace ExFat

open Program

/-!
# Runs that say nothing

`exfat_error` counts every message.  What reads directories writes, repairs or gives up only after a
message, so a run at whose end the count is what it was has changed nothing but the nodes in memory.

* `Ef.Heard` is the relation that reading entries keeps: if no message was written then nothing was
  written to the device either.
* `heard_cacheLoop`: `exfat_cache_directory` keeps it, wherever it ends.
* `told_cacheLoop`: a directory that could not be read to its end has given rise to a message.
-/

/-! ### Messages are not taken back -/

section Louder

variable {δ : Type} [Device δ] {α : Type}

/-- No message has been taken back. -/
def Ef.Louder (ef ef' : Ef δ) : Prop := ef.errors ≤ ef'.errors

instance : IsPreorder (Ef δ) Ef.Louder where
  refl _ := Nat.le_refl _
  trans _ _ _ := Nat.le_trans

/-- The same of a routine that works on a node besides. -/
def FileState.Louder (s s' : FileState δ) : Prop := s.ef.Louder s'.ef

instance : MoveRel (δ := δ) FileState.Louder where
  refl s := refl_of Ef.Louder s.ef
  trans _ _ _ := trans_of Ef.Louder
  call _ := Nat.le_refl _
  report _ := Nat.le_succ _
  cursor _ _ _ := Nat.le_refl _
  valid _ _ := Nat.le_refl _
  tick _ := Nat.le_refl _
  bits _ _ _ := Nat.le_refl _
  data _ _ _ := Nat.le_refl _

omit [Device δ] in
/-- A routine on the volume takes no message back. -/
theorem louder_onEf {m : EfM δ α} (hm : Keeps Ef.Louder m) : Keeps FileState.Louder (onEf m) :=
  keeps_zoom hm fun _ _ h => h

omit [Device δ] in
/-- `exfat_ask_to_fix` takes no message back. -/
theorem louder_exfatAskToFix : Keeps Ef.Louder (exfatAskToFix (δ := δ)) := by
  intro ef
  unfold exfatAskToFix
  rw [wp_bind, wp_get]
  split
  · exact refl_of Ef.Louder ef
  · exact refl_of Ef.Louder ef
  · exact Nat.le_refl _

/-- `exfat_fix_unknown_entry` takes no message back. -/
theorem louder_exfatFixUnknownEntry (entry : Entry) (offset : Int) :
    Keeps FileState.Louder (exfatFixUnknownEntry (δ := δ) entry offset) := by
  refine keeps_bind (keeps_exfatGenericPwrite _ _) fun r => ?_
  cases r with
  | error e => exact keeps_pure _
  | ok size =>
    exact keeps_ite (keeps_pure _)
      (keeps_bind (louder_onEf fun _ => Nat.le_refl _) fun _ => keeps_pure _)

end Louder

/-! ### What is heard of a change -/

/-- The volume after a routine that has something to say before it writes. -/
structure Ef.Heard (ef ef' : Ef Flat) : Prop where
  le : ef.errors ≤ ef'.errors
  dev : ef'.errors = ef.errors → ef'.dev = ef.dev

instance : IsPreorder (Ef Flat) Ef.Heard where
  refl _ := ⟨Nat.le_refl _, fun _ => rfl⟩
  trans ef ef' ef'' h h' := by
    have hle := h.le
    have hle' := h'.le
    exact ⟨Nat.le_trans hle hle', fun he => (h'.dev (by omega)).trans (h.dev (by omega))⟩

/-- The same of a routine that works on a node besides: it marks the node only after a message. -/
structure FileState.Heard (s s' : FileState Flat) : Prop where
  ef : s.ef.Heard s'.ef
  isDirty : s'.ef.errors = s.ef.errors → s'.node.isDirty = s.node.isDirty

instance : IsPreorder (FileState Flat) FileState.Heard where
  refl s := ⟨refl_of Ef.Heard s.ef, fun _ => rfl⟩
  trans s s' s'' h h' := by
    have hle := h.ef.le
    have hle' := h'.ef.le
    exact ⟨trans_of Ef.Heard h.ef h'.ef, fun he =>
      (h'.isDirty (by omega)).trans (h.isDirty (by omega))⟩

section Heard

variable {α : Type}

/-- A routine on the volume that says something before it writes. -/
theorem heard_onEf {m : EfM Flat α} (hm : Keeps Ef.Heard m) : Keeps FileState.Heard (onEf m) :=
  keeps_zoom hm fun _ _ h => ⟨h, fun _ => rfl⟩

/-- A change of the node that does not dirty it. -/
theorem heard_modifyNode {f : Node → Node} (h : ∀ n, (f n).isDirty = n.isDirty) :
    Keeps FileState.Heard (modifyNode (δ := Flat) f) :=
      fun s => ⟨refl_of Ef.Heard s.ef, fun _ => h s.node⟩

/-- What leaves the counter and the device alone. -/
theorem Ef.Heard.of_same {ef ef' : Ef Flat} (he : ef'.errors = ef.errors) (hd : ef'.dev = ef.dev) :
    ef.Heard ef' :=
  ⟨he.ge, fun _ => hd⟩

/-- A change of the volume that writes nothing. -/
theorem heard_modify {f : Ef Flat → Ef Flat} (he : ∀ ef, (f ef).errors = ef.errors)
    (hd : ∀ ef, (f ef).dev = ef.dev) : Keeps Ef.Heard (modify f : EfM Flat PUnit) :=
  keeps_modify fun ef => .of_same (he ef) (hd ef)

/-- After a message anything may be done that takes none back. -/
theorem heard_told {m : FileM Flat α} (message : String) (hm : Keeps FileState.Louder m) :
    Keeps FileState.Heard (do
      onEf (exfatError message)
      m) := by
  intro s
  have hmore : ∀ s' : FileState Flat, s.ef.errors + 1 ≤ s'.ef.errors → s.Heard s' := fun s' hs' =>
    ⟨⟨by omega, fun he => by omega⟩, fun he => by omega⟩
  refine wp_of_eq (run_bind_ok (run_onEf_ok (run_exfatError message s.ef))) ?_
  exact wp_mono (hm _) (fun _ s' h => hmore s' h) fun _ s' h => hmore s' h

/-- `exfat_error` has something to say before it writes. -/
theorem heard_exfatError (message : String) : Keeps Ef.Heard (exfatError (δ := Flat) message) :=
  fun _ => ⟨Nat.le_succ _, fun he => absurd he (Nat.succ_ne_self _)⟩

/-- A report is a message. -/
theorem heard_report (message : String) (a : α) :
    Keeps Ef.Heard (do exfatError (δ := Flat) message; pure a) :=
  keeps_bind (heard_exfatError message) fun _ => keeps_pure a

/-- `mallocOk` has something to say before it writes. -/
theorem heard_mallocOk : Keeps Ef.Heard (mallocOk (δ := Flat)) := fun _ => .of_same rfl rfl

/-- `exfat_get_name` has something to say before it writes. -/
theorem heard_exfatGetName (n : Node) : Keeps Ef.Heard (exfatGetName (δ := Flat) n) := by
  unfold exfatGetName
  cases nameUtf8 n.name with
  | ok name => exact keeps_pure _
  | error e => exact keeps_throw _

/-- `exfat_pread` has something to say before it writes. -/
theorem heard_exfatPread (size offset : Nat) :
    Keeps Ef.Heard (exfatPread (δ := Flat) size offset) := fun _ =>
  .of_same rfl rfl

/-- `exfat_c2o` has something to say before it writes. -/
theorem heard_exfatC2o (cluster : Nat) : Keeps Ef.Heard (exfatC2o (δ := Flat) cluster) :=
  keeps_look fun _ => keeps_ite (keeps_throw _) (keeps_pure _)

/-! ### Reading a file -/

/-- The volume after a routine that writes nothing at all. -/
structure FileState.Listens (s s' : FileState Flat) : Prop where
  le : s.ef.errors ≤ s'.ef.errors
  dev : s'.ef.dev = s.ef.dev

instance : IsPreorder (FileState Flat) FileState.Listens where
  refl _ := ⟨Nat.le_refl _, rfl⟩
  trans _ _ _ h h' := ⟨Nat.le_trans h.le h'.le, h'.dev.trans h.dev⟩

/-- A routine that writes nothing says something before it writes. -/
theorem FileState.Listens.heard {s s' : FileState Flat} (h : s.Listens s') : s.ef.Heard s'.ef :=
  ⟨h.le, fun _ => h.dev⟩

/-- A report writes nothing. -/
theorem listens_report (message : String) (a : α) :
    Keeps FileState.Listens (do onEf (exfatError (δ := Flat) message); pure a) :=
      fun _ => ⟨Nat.le_succ _, rfl⟩

/-- Changing the node writes nothing. -/
theorem listens_modifyNode (f : Node → Node) : Keeps FileState.Listens (modifyNode (δ := Flat) f) :=
  fun _ => ⟨Nat.le_refl _, rfl⟩

/-- `exfat_c2o` writes nothing. -/
theorem listens_exfatC2o (cluster : Nat) :
    Keeps FileState.Listens (onEf (exfatC2o (δ := Flat) cluster)) := by
  intro s
  unfold onEf exfatC2o
  rw [wp_zoom, wp_bind, wp_get]
  split
  · exact refl_of FileState.Listens s
  · exact refl_of FileState.Listens s

/-- `exfat_pread` writes nothing. -/
theorem listens_exfatPread (size offset : Nat) :
    Keeps FileState.Listens (onEf (exfatPread (δ := Flat) size offset)) :=
      fun _ => ⟨Nat.le_refl _, rfl⟩

/-- `exfat_next_cluster` writes nothing. -/
theorem listens_exfatNextCluster (cluster : Nat) :
    Keeps FileState.Listens (exfatNextCluster (δ := Flat) cluster) := by
  refine keeps_look fun s => keeps_ite (keeps_throw _) (keeps_ite (keeps_pure _) ?_)
  refine keeps_bind (listens_exfatPread _ _) fun next => ?_
  cases next with
  | none => exact keeps_pure _
  | some bytes => exact keeps_pure _

/-- `advanceLoop` writes nothing. -/
theorem listens_advanceLoop (k : Nat) : Keeps FileState.Listens (advanceLoop (δ := Flat) k) := by
  induction k with
  | zero => exact keeps_pure _
  | succ k ih =>
    refine keeps_look fun s => keeps_bind (listens_exfatNextCluster _) fun next => ?_
    exact keeps_bind (listens_modifyNode _) fun _ => keeps_ite (keeps_pure _) ih

/-- `exfat_advance_cluster` writes nothing. -/
theorem listens_exfatAdvanceCluster (count : Nat) :
    Keeps FileState.Listens (exfatAdvanceCluster (δ := Flat) count) := by
  refine keeps_bind (listens_modifyNode _) fun _ => keeps_look fun s => ?_
  refine keeps_bind (listens_advanceLoop _) fun _ => keeps_bind (listens_modifyNode _) fun _ => ?_
  exact keeps_look fun s => keeps_pure _

/-- `preadLoop` writes nothing. -/
theorem listens_preadLoop (n cluster loffset remainder : Nat) :
    Keeps FileState.Listens (preadLoop (δ := Flat) n cluster loffset remainder) := by
  induction n generalizing cluster loffset remainder with
  | zero => exact keeps_pure _
  | succ n ih =>
    refine keeps_look fun s => keeps_ite (listens_report _ _) ?_
    refine keeps_bind (listens_exfatC2o _) fun offset =>
      keeps_bind (listens_exfatPread _ _) fun r => ?_
    cases r with
    | none => exact listens_report _ _
    | some bytes =>
      refine keeps_bind (listens_exfatNextCluster _) fun next =>
        keeps_bind (ih _ _ _) fun rest => ?_
      cases rest with
      | error e => exact keeps_pure _
      | ok rest => exact keeps_pure _

/-- `preadValid` writes nothing. -/
theorem listens_preadValid (size uoffset : Nat) :
    Keeps FileState.Listens (preadValid (δ := Flat) size uoffset) := by
  refine keeps_look fun s => keeps_bind (listens_exfatAdvanceCluster _) fun cluster => ?_
  refine keeps_ite (listens_report _ _) (keeps_bind (listens_preadLoop _ _ _ _) fun r => ?_)
  cases r with
  | error e => exact keeps_pure _
  | ok bytes =>
    refine keeps_look fun s => keeps_ite ?_ (keeps_pure _)
    exact keeps_bind (fun _ => ⟨Nat.le_refl _, rfl⟩) fun _ => keeps_pure _

/-- `exfat_generic_pread` writes nothing. -/
theorem listens_exfatGenericPread (size : Nat) (offset : Int) :
    Keeps FileState.Listens (exfatGenericPread (δ := Flat) size offset) := by
  refine keeps_look fun s => keeps_ite (keeps_pure _) (keeps_ite (keeps_pure _)
    (keeps_ite (keeps_pure _) (keeps_ite (keeps_ite ?_ (keeps_pure _)) (listens_preadValid _ _))))
  refine keeps_bind (listens_preadValid _ _) fun r => ?_
  cases r with
  | error e => exact keeps_pure _
  | ok r => exact keeps_ite (keeps_pure _) (keeps_pure _)

/-- `read_entries` has something to say before it writes. -/
theorem heard_readEntries (n : Nat) (offset : Int) :
    Keeps FileState.Heard (readEntries (δ := Flat) n offset) := by
  have hlistens : Keeps FileState.Listens (readEntries (δ := Flat) n offset) := by
    refine keeps_look fun s => keeps_ite (keeps_throw _) ?_
    refine keeps_bind (listens_exfatGenericPread _ _) fun r => ?_
    cases r with
    | error e => exact keeps_pure _
    | ok r => exact keeps_ite (keeps_pure _) (keeps_ite (keeps_pure _) (listens_report _ _))
  have hboth : ∀ {s s' : FileState Flat}, s.Listens s' ∧ s.Walked s' → s.Heard s' := by
    rintro s s' ⟨hlistens, hwalked⟩
    refine ⟨hlistens.heard, fun _ => ?_⟩
    rw [hwalked.node]
  exact fun s => wp_mono (wp_and (hlistens s) (walked_readEntries n offset s))
    (fun _ _ h => hboth h) fun _ _ h => hboth h

/-! ### A node made of entries -/

/-- `check_entries` has something to say before it writes. -/
theorem heard_checkEntries (entries : List Entry) :
    Keeps Ef.Heard (checkEntries (δ := Flat) entries) :=
  keeps_ite (keeps_pure _) (heard_report _ _)

/-- `allocate_node` has something to say before it writes. -/
theorem heard_allocateNode : Keeps Ef.Heard (allocateNode (δ := Flat)) :=
  keeps_bind heard_mallocOk fun _ => keeps_ite (keeps_pure _) (heard_report _ _)

/-- `readTime` has something to say before it writes. -/
theorem heard_readTime (date time centisec tzoffset : Nat) :
    Keeps Ef.Heard (readTime (δ := Flat) date time centisec tzoffset) := by
  refine keeps_look fun ef => ?_
  cases exfat2unix ef.timezone date time centisec tzoffset with
  | some t => exact keeps_pure _
  | none => exact heard_report _ _

/-- `checkNodeRule` has something to say before it writes. -/
theorem heard_checkNodeRule (bad : Bool) (message : String) :
    Keeps FileState.Heard (checkNodeRule (δ := Flat) bad message) := by
  refine keeps_look fun s => keeps_ite ?_ (keeps_pure _)
  exact keeps_bind (heard_onEf (heard_exfatGetName _)) fun _ => heard_told _ (keeps_pure _)

/-- The node is marked after the message about its checksum. -/
theorem heard_checkNodeChecksum (actual stored : Nat) :
    Keeps FileState.Heard (checkNodeChecksum (δ := Flat) actual stored) := by
  refine keeps_look fun s => keeps_ite ?_ (keeps_pure _)
  refine keeps_bind (heard_onEf (heard_exfatGetName _)) fun _ => heard_told _ ?_
  refine keeps_bind (louder_onEf louder_exfatAskToFix) fun fix => keeps_ite ?_ (keeps_pure _)
  refine keeps_bind (fun s => refl_of FileState.Louder s) fun _ => ?_
  exact keeps_bind (louder_onEf fun _ => Nat.le_refl _) fun _ => keeps_pure _

/-- `check_node` has something to say before it writes. -/
theorem heard_checkNode (actual stored : Nat) :
    Keeps FileState.Heard (checkNode (δ := Flat) actual stored) := by
  refine keeps_look fun s => keeps_bind (heard_checkNodeChecksum _ _) fun _ => ?_
  refine keeps_bind (heard_checkNodeRule _ _) fun _ => ?_
  refine keeps_bind (heard_checkNodeRule _ _) fun _ => ?_
  refine keeps_bind (heard_checkNodeRule _ _) fun _ => ?_
  refine keeps_bind (heard_checkNodeRule _ _) fun _ => ?_
  refine keeps_bind (heard_checkNodeRule _ _) fun _ => ?_
  refine keeps_bind (heard_checkNodeRule _ _) fun _ => ?_
  exact keeps_pure _

/-- `init_node_meta1` has something to say before it writes. -/
theorem heard_initNodeMeta1 (meta1 : Entry) :
    Keeps FileState.Heard (initNodeMeta1 (δ := Flat) meta1) := by
  refine keeps_bind (heard_modifyNode fun _ => rfl) fun _ => ?_
  refine keeps_bind (heard_onEf (heard_readTime _ _ _ _)) fun _ =>
    keeps_bind (heard_modifyNode fun _ => rfl) fun _ => ?_
  exact keeps_bind (heard_onEf (heard_readTime _ _ _ _)) fun _ => heard_modifyNode fun _ => rfl

/-- `parse_file_entries` has something to say before it writes. -/
theorem heard_parseFileEntries (entries : List Entry) :
    Keeps FileState.Heard (parseFileEntries (δ := Flat) entries) := by
  refine keeps_bind (heard_onEf (heard_checkEntries _)) fun ok => keeps_ite (keeps_pure _) ?_
  refine keeps_ite (heard_told _ (keeps_pure _)) (keeps_ite (heard_told _ (keeps_pure _)) ?_)
  refine keeps_ite (heard_told _ (keeps_pure _)) ?_
  refine keeps_bind (heard_initNodeMeta1 _) fun _ =>
    keeps_bind (heard_modifyNode fun _ => rfl) fun _ => ?_
  refine keeps_bind (heard_modifyNode fun _ => rfl) fun _ =>
    keeps_bind (heard_checkNode _ _) fun ok => ?_
  exact keeps_ite (keeps_pure _) (keeps_pure _)

/-- A node that is dirtied has been talked about. -/
theorem heard_withNode {node : Node} {m : FileM Flat α} (hm : Keeps FileState.Heard m)
    (ef : Ef Flat) :
    wp (withNode node m) (fun r ef' => ef.Heard ef' ∧
      (ef'.errors = ef.errors → r.2.isDirty = node.isDirty))
      (fun _ ef' => ef.Heard ef') ef := by
  have hrun := hm ⟨ef, node⟩
  unfold wp withNode at *
  cases hm : m ⟨ef, node⟩ with
  | ok a s =>
    rw [hm] at hrun
    exact ⟨hrun.ef, hrun.isDirty⟩
  | error e s =>
    rw [hm] at hrun
    exact hrun.ef

/-! ### Entries without a node -/

/-- `readUpcase` has something to say before it writes. -/
theorem heard_readUpcase (entry : Entry) : Keeps Ef.Heard (readUpcase (δ := Flat) entry) := by
  refine keeps_look fun ef => ?_
  split
  · exact keeps_pure _
  split
  · exact heard_report _ _
  split
  · exact heard_report _ _
  refine keeps_bind heard_mallocOk fun ok => keeps_ite (heard_report _ _) ?_
  refine keeps_bind (heard_exfatC2o _) fun offset => keeps_bind (heard_exfatPread _ _) fun r => ?_
  cases r with
  | none => exact heard_report _ _
  | some bytes =>
    refine keeps_bind heard_mallocOk fun ok => keeps_ite (heard_report _ _) ?_
    exact keeps_bind (heard_modify (fun _ => rfl) fun _ => rfl) fun _ => keeps_pure _

/-- `readBitmap` has something to say before it writes. -/
theorem heard_readBitmap (entry : Entry) : Keeps Ef.Heard (readBitmap (δ := Flat) entry) := by
  have hmodify : ∀ {f : Ef Flat → Ef Flat} {m : EfM Flat Rc},
      (∀ ef, (f ef).errors = ef.errors ∧ (f ef).dev = ef.dev) →
      Keeps Ef.Heard m → Keeps Ef.Heard (do modify f; m) := fun hf hm =>
    keeps_bind (heard_modify (fun ef => (hf ef).1) fun ef => (hf ef).2) fun _ => hm
  refine hmodify (fun _ => ⟨rfl, rfl⟩) (keeps_look fun ef => keeps_ite (heard_report _ _) ?_)
  refine hmodify (fun _ => ⟨rfl, rfl⟩) (keeps_ite (heard_report _ _) ?_)
  refine hmodify (fun _ => ⟨rfl, rfl⟩) (keeps_bind heard_mallocOk fun ok => keeps_ite ?_ ?_)
  · exact hmodify (fun _ => ⟨rfl, rfl⟩) (heard_report _ _)
  refine hmodify (fun _ => ⟨rfl, rfl⟩) ?_
  refine keeps_bind (heard_exfatC2o _) fun offset => keeps_bind (heard_exfatPread _ _) fun r => ?_
  cases r with
  | none => exact heard_report _ _
  | some bytes => exact hmodify (fun _ => ⟨rfl, rfl⟩) (keeps_pure _)

/-- `readLabel` has something to say before it writes. -/
theorem heard_readLabel (entry : Entry) : Keeps Ef.Heard (readLabel (δ := Flat) entry) := by
  unfold readLabel
  refine keeps_ite (heard_report _ _) ?_
  cases exfatUtf16ToUtf8 entry.units utf8EnameBufferMax with
  | error e => exact keeps_bind (heard_modify (fun _ => rfl) fun _ => rfl) fun _ => keeps_pure _
  | ok label => exact keeps_bind (heard_modify (fun _ => rfl) fun _ => rfl) fun _ => keeps_pure _

/-- An unknown entry is erased only after a message about it. -/
theorem heard_readUnknown (entry : Entry) (offset : Int) :
    Keeps FileState.Heard (readUnknown (δ := Flat) entry offset) := by
  refine keeps_ite (keeps_pure _) (heard_told _ ?_)
  refine keeps_bind (louder_onEf louder_exfatAskToFix) fun fix => keeps_ite ?_ (keeps_pure _)
  refine keeps_bind (louder_exfatFixUnknownEntry _ _) fun done => ?_
  exact keeps_ite (keeps_pure _) (keeps_pure _)

/-- `skipEntry` has something to say before it writes. -/
theorem heard_skipEntry (entry : Entry) (offset : Int) :
    Keeps FileState.Heard (skipEntry (δ := Flat) entry offset) :=
  keeps_ite (heard_onEf (heard_readUpcase _)) (keeps_ite (heard_onEf (heard_readBitmap _))
    (keeps_ite (heard_onEf (heard_readLabel _)) (heard_readUnknown _ _)))

/-! ### A directory -/

/-- A node that has just been made of its entries: its name is one of UTF-16, and without a message
there is nothing to be written back. -/
structure Node.Fresh (quiet : Prop) (n : Node) : Prop where
  units : ∀ x ∈ n.name, x < 2 ^ 16
  length : n.name.length ≤ nameMax
  clean : quiet → n.isDirty = false

/-- A node is as fresh when less is known. -/
theorem Node.Fresh.mono {quiet quiet' : Prop} {n : Node} (h : n.Fresh quiet) (hq : quiet' → quiet) :
    n.Fresh quiet' :=
  ⟨h.units, h.length, fun hquiet => h.clean (hq hquiet)⟩

/-- The name of a node that is accepted has at most 255 units of 16 bits. -/
theorem Accepted.named {ef : Ef Flat} {entries : List Entry} {n : Node}
    (h : Accepted ef entries n) : (∀ x ∈ n.name, x < 2 ^ 16) ∧ n.name.length ≤ nameMax := by
  rw [h.name]
  refine ⟨fun x hx => ?_, (length_nameFields_le _ _).trans ?_⟩
  · unfold nameFields at hx
    simp only [List.mem_flatten, List.mem_map, exists_exists_and_eq_and] at hx
    obtain ⟨e, -, hx⟩ := hx
    unfold Entry.units at hx
    obtain ⟨i, -, rfl⟩ := List.mem_map.1 hx
    exact Bytes.leAt_lt _ _ _
  · -- the length is stored in a byte
    have hbyte : (entries.getD 1 []).nameLength < 256 := Bytes.leAt_lt _ _ _
    have hup : divRoundUp (entries.getD 1 []).nameLength enameMax ≤ 17 := by
      unfold divRoundUp enameMax
      omega
    exact Nat.mul_le_mul_right enameMax hup

/-- A node that is parsed without a message is clean. -/
theorem heard_parseFileEntry (offset n : Nat) (s : FileState Flat) :
    wp (parseFileEntry offset n)
      (fun r s' => s.Heard s' ∧ ∀ node, r = .ok node → node.Fresh (s'.ef.errors = s.ef.errors))
      (fun _ s' => s.Heard s') s := by
  unfold parseFileEntry
  rw [wp_bind]
  refine wp_mono (heard_readEntries _ _ s) ?_ fun _ _ h => h
  intro r s₁ h₁
  -- the entries cannot be read, or a node is made for them
  cases r with
  | error e => exact ⟨h₁, by simp⟩
  | ok entries =>
    rw [wp_bind]
    refine wp_mono (heard_onEf heard_allocateNode s₁) ?_ fun _ _ h => trans_of FileState.Heard h₁ h
    intro ok s₂ h₂
    have h₁₂ := trans_of FileState.Heard h₁ h₂
    split
    · exact ⟨h₁₂, by simp⟩
    rw [wp_bind]
    unfold onEf
    rw [wp_zoom]
    -- the new node is filled in beside the directory, of which only the volume changes
    have hzoom : ∀ {ef : Ef Flat}, s₂.ef.Heard ef → s.Heard { s₂ with ef := ef } := by
      intro ef h
      have hstep : s₂.Heard { s₂ with ef := ef } := ⟨h, fun _ => rfl⟩
      exact trans_of FileState.Heard h₁₂ hstep
    have hnode := @heard_withNode _ { entryOffset := offset } _
      (heard_parseFileEntries entries) s₂.ef
    refine wp_mono (wp_run hnode) ?_ fun _ _ h => hzoom h
    rintro ⟨rc, node⟩ ef ⟨hrun, hheard, hclean⟩
    -- the set is refused, or the node is filled in
    cases rc with
    | error e => exact ⟨hzoom hheard, by simp⟩
    | ok _ =>
      refine ⟨hzoom hheard, ?_⟩
      rintro _ ⟨⟩
      -- the name is that of the entries
      obtain ⟨hunits, hlength⟩ := (accepted_of_withNode hrun).named
      refine ⟨hunits, hlength, fun hquiet => ?_⟩
      have hle := h₁₂.ef.le
      have hle' := hheard.le
      dsimp only at hquiet
      exact hclean (by omega)

/-- A node that is read without a message is clean. -/
theorem heard_readdirLoop (fuel offset : Nat) (s : FileState Flat) :
    wp (readdirLoop fuel offset) (fun r s' => s.Heard s' ∧ ∀ node next, r = .ok (node, next) →
        node.Fresh (s'.ef.errors = s.ef.errors))
      (fun _ s' => s.Heard s') s := by
  -- on the entries that are left of the directory
  induction fuel generalizing offset s with
  | zero => exact refl_of FileState.Heard s
  | succ fuel ih =>
    unfold readdirLoop
    rw [wp_bind]
    refine wp_mono (heard_readEntries _ _ s) ?_ fun _ _ h => h
    intro r s₁ h₁
    have hle := h₁.ef.le
    cases r with
    | error e => exact ⟨h₁, by simp⟩
    | ok entries =>
      dsimp only
      split
      · -- the entries of an object
        rw [wp_bind]
        refine wp_mono (heard_parseFileEntry _ _ s₁) ?_ fun _ _ h => trans_of FileState.Heard h₁ h
        rintro r s₂ ⟨h₂, hnode⟩
        have hle' := h₂.ef.le
        cases r with
        | error e => exact ⟨trans_of FileState.Heard h₁ h₂, by simp⟩
        | ok node =>
          refine ⟨trans_of FileState.Heard h₁ h₂, ?_⟩
          rintro _ _ ⟨⟩
          exact (hnode node rfl).mono fun hquiet => by omega
      · -- an entry of its own, behind which the loop goes on
        rw [wp_bind]
        refine wp_mono (heard_skipEntry _ _ s₁) ?_ fun _ _ h => trans_of FileState.Heard h₁ h
        intro r s₂ h₂
        have h₁₂ := trans_of FileState.Heard h₁ h₂
        have hle' := h₂.ef.le
        cases r with
        | error e => exact ⟨h₁₂, by simp⟩
        | ok _ =>
          refine wp_mono (ih (offset + entrySize) s₂) ?_ fun _ _ h => trans_of FileState.Heard h₁₂ h
          rintro r s₃ ⟨h₃, hnode⟩
          have hle'' := h₃.ef.le
          refine ⟨trans_of FileState.Heard h₁₂ h₃, fun node next hr => ?_⟩
          exact (hnode node next hr).mono fun hquiet => by omega

/-- Reading a directory to its end or until it cannot be read on. -/
theorem heard_cacheLoop (fuel offset : Nat) (s : FileState Flat) :
    wp (cacheLoop fuel offset)
      (fun r s' => s.Heard s' ∧ ∀ node ∈ r.1, node.Fresh (s'.ef.errors = s.ef.errors))
      (fun _ s' => s.Heard s') s := by
  induction fuel generalizing offset s with
  | zero => exact refl_of FileState.Heard s
  | succ fuel ih =>
    unfold cacheLoop
    rw [wp_bind, wp_get, wp_bind]
    refine wp_mono (heard_readdirLoop _ _ s) ?_ fun _ _ h => h
    rintro r s₁ ⟨h₁, hnode⟩
    have hle := h₁.ef.le
    cases r with
    | error e => exact ⟨h₁, by simp⟩
    | ok x =>
      dsimp only
      rw [wp_bind]
      refine wp_mono (ih x.2 s₁) ?_ fun _ _ h => trans_of FileState.Heard h₁ h
      rintro r s₂ ⟨h₂, hnodes⟩
      have hle' := h₂.ef.le
      refine ⟨trans_of FileState.Heard h₁ h₂, ?_⟩
      simp only [List.mem_cons, forall_eq_or_imp]
      refine ⟨(hnode x.1 x.2 rfl).mono fun hquiet => ?_, fun node hmem =>
        (hnodes node hmem).mono fun hquiet => ?_⟩
      · omega
      · omega

end Heard

/-! ### What is told -/

/-- The errors that are returned, but for those in `silent`, come after a message. -/
def Tells {α : Type} (silent : Set Errno) (m : FileM Flat (Except Errno α)) : Prop :=
  ∀ s, wp m (fun r s' => s.Louder s' ∧ ∀ e, r = .error e → e ∉ silent →
    s.ef.errors < s'.ef.errors) anyStop s

section Told

variable {α β : Type} {silent : Set Errno}

/-- Success needs no message. -/
theorem tells_ok (a : α) : Tells silent (pure (.ok a)) :=
  fun s => ⟨refl_of FileState.Louder s, by simp⟩

/-- A silent error needs no message. -/
theorem tells_silent {e : Errno} (he : e ∈ silent) : Tells (α := α) silent (pure (.error e)) := by
  refine fun s => ⟨refl_of FileState.Louder s, ?_⟩
  rintro _ ⟨⟩ hne
  exact absurd he hne

/-- A routine that stops does not return. -/
theorem tells_throw (h : Halt) : Tells (α := α) silent (throw h) := fun _ => trivial

/-- An error that is reported has its message. -/
theorem tells_report (message : String) (r : Except Errno α) :
    Tells silent (do onEf (exfatError message); pure r) :=
      fun _ => ⟨Nat.le_succ _, fun _ _ _ => Nat.lt_succ_self _⟩

/-- A branch. -/
theorem Tells.ite {c : Prop} [Decidable c] {m₁ m₂ : FileM Flat (Except Errno α)}
    (h₁ : Tells silent m₁) (h₂ : Tells silent m₂) : Tells silent (if c then m₁ else m₂) := by
  split
  · exact h₁
  · exact h₂

/-- A first routine that returns no error. -/
theorem Tells.skip {m : FileM Flat α} {f : α → FileM Flat (Except Errno β)}
    (hm : Yields FileState.Louder m) (hf : ∀ a, Tells silent (f a)) : Tells silent (m >>= f) := by
  intro s
  rw [wp_bind]
  refine wp_conseq (hm s) fun a s₁ h₁ => wp_conseq (hf a s₁) ?_
  rintro r s₂ ⟨h₂, htold⟩
  exact ⟨trans_of FileState.Louder h₁ h₂, fun e hr he => Nat.lt_of_le_of_lt h₁ (htold e hr he)⟩

/-- A first routine whose errors end the whole. -/
theorem Tells.bind {silent' : Set Errno} {m : FileM Flat (Except Errno α)}
    {f : Except Errno α → FileM Flat (Except Errno β)} (hm : Tells silent' m)
    (herror : ∀ e, ∃ e', f (.error e) = pure (.error e') ∧ (e ∈ silent' → e' ∈ silent))
    (hok : ∀ a, Tells silent (f (.ok a))) : Tells silent (m >>= f) := by
  intro s
  rw [wp_bind]
  refine wp_conseq (hm s) ?_
  rintro r s₁ ⟨h₁, htold₁⟩
  cases r with
  | error e =>
    obtain ⟨e', heq, hsilent⟩ := herror e
    rw [heq]
    refine ⟨h₁, ?_⟩
    rintro _ ⟨⟩ hne
    exact htold₁ e rfl fun he => hne (hsilent he)
  | ok a =>
    refine wp_conseq (hok a s₁) ?_
    rintro r s₂ ⟨h₂, htold⟩
    exact ⟨trans_of FileState.Louder h₁ h₂, fun e hr he => Nat.lt_of_le_of_lt h₁ (htold e hr he)⟩

/-- A routine that writes nothing takes no message back. -/
theorem louder_of_listens {m : FileM Flat α} (hm : Keeps FileState.Listens m) :
    Yields FileState.Louder m :=
  fun s => wp_mono (hm s) (fun _ _ h => h.le) fun _ _ _ => trivial

/-- A routine that says something before it writes takes no message back. -/
theorem louder_of_heard {m : FileM Flat α} (hm : Keeps FileState.Heard m) :
    Yields FileState.Louder m :=
  fun s => wp_mono (hm s) (fun _ _ h => h.ef.le) fun _ _ _ => trivial

/-- The error of a read goes on to the caller. -/
theorem pass_on {e : Errno} {f : Except Errno α → FileM Flat (Except Errno β)}
    (h : f (.error e) = pure (.error e)) :
    ∃ e', f (.error e) = pure (.error e') ∧ (e ∈ silent → e' ∈ silent) := ⟨e, h, id⟩

/-- `preadLoop` reports its errors. -/
theorem tells_preadLoop (n cluster loffset remainder : Nat) :
    Tells silent (preadLoop n cluster loffset remainder) := by
  induction n generalizing cluster loffset remainder with
  | zero => exact tells_ok _
  | succ n ih =>
    apply Tells.skip (yields_look fun s => yields_pure s)
    intro s
    apply Tells.ite (tells_report _ _)
    apply Tells.skip (louder_of_listens (listens_exfatC2o _))
    intro offset
    apply Tells.skip (louder_of_listens (listens_exfatPread _ _))
    intro r
    cases r with
    | none => exact tells_report _ _
    | some bytes =>
      apply Tells.skip (louder_of_listens (listens_exfatNextCluster _))
      intro next
      exact Tells.bind (ih _ _ _) (fun _ => pass_on rfl) fun rest => tells_ok _

/-- `preadValid` reports its errors. -/
theorem tells_preadValid (size uoffset : Nat) : Tells silent (preadValid size uoffset) := by
  apply Tells.skip (yields_look fun s => yields_pure s)
  intro s
  apply Tells.skip (louder_of_listens (listens_exfatAdvanceCluster _))
  intro cluster
  apply Tells.ite (tells_report _ _)
  refine Tells.bind (tells_preadLoop _ _ _ _) (fun _ => pass_on rfl) fun bytes => ?_
  apply Tells.skip (yields_look fun s => yields_pure s)
  intro s
  apply Tells.ite
  · exact Tells.skip (louder_of_listens fun _ => ⟨Nat.le_refl _, rfl⟩) fun _ => tells_ok _
  · exact tells_ok _

/-- Only a negative offset is refused without a message. -/
theorem tells_exfatGenericPread (size offset : Nat) :
    Tells silent (exfatGenericPread size offset) := by
  apply Tells.skip (yields_look fun s => yields_pure s)
  intro s
  rw [if_neg (Int.not_lt.2 (Int.natCast_nonneg offset))]
  apply Tells.ite (tells_ok _)
  apply Tells.ite (tells_ok _)
  refine Tells.ite (Tells.ite ?_ (tells_ok _)) (tells_preadValid _ _)
  refine Tells.bind (tells_preadValid _ _) (fun _ => pass_on rfl) fun r => ?_
  exact Tells.ite (tells_ok _) (tells_ok _)

/-- `read_entries` reports its errors. -/
theorem tells_readEntries (n offset : Nat) : Tells {.enoent} (readEntries n offset) := by
  apply Tells.skip (yields_look fun s => yields_pure s)
  intro s
  apply Tells.ite (tells_throw _)
  have hread : ∀ size, Tells ∅ (exfatGenericPread size offset) :=
    fun size => tells_exfatGenericPread size offset
  refine Tells.bind (hread _) (fun e => ⟨.eio, rfl, False.elim⟩) fun r => ?_
  exact Tells.ite (tells_ok _) (Tells.ite (tells_silent rfl) (tells_report _ _))

/-- A test fails only after a message, unless it was lost before: then `b` is `false`. -/
def Warns (b : Bool) (m : FileM Flat Bool) : Prop :=
  ∀ s, wp m (fun ok s' => s.Louder s' ∧ (ok = false → b = false ∨ s.ef.errors < s'.ef.errors))
    anyStop s

/-- An answer that is known needs no message. -/
theorem warns_pure (b : Bool) : Warns b (pure b) := fun s => ⟨refl_of FileState.Louder s, .inl⟩

/-- A refusal that is reported has its message. -/
theorem warns_report (b : Bool) (message : String) :
    Warns b (do onEf (exfatError message); pure false) := fun _ =>
  ⟨Nat.le_succ _, fun _ => .inr (Nat.lt_succ_self _)⟩

/-- A branch. -/
theorem Warns.ite {b : Bool} {c : Prop} [Decidable c] {m₁ m₂ : FileM Flat Bool} (h₁ : Warns b m₁)
    (h₂ : Warns b m₂) : Warns b (if c then m₁ else m₂) := by
  split
  · exact h₁
  · exact h₂

/-- A routine that first takes no message back. -/
theorem Warns.skip {b : Bool} {m : FileM Flat α} {f : α → FileM Flat Bool}
    (hm : Yields FileState.Louder m) (hf : ∀ a, Warns b (f a)) : Warns b (m >>= f) := by
  intro s
  rw [wp_bind]
  refine wp_conseq (hm s) fun a s₁ h₁ => wp_conseq (hf a s₁) ?_
  rintro ok s₂ ⟨h₂, hwarns⟩
  exact ⟨trans_of FileState.Louder h₁ h₂, fun hok => (hwarns hok).imp_right fun h =>
    Nat.lt_of_le_of_lt h₁ h⟩

/-- One test after the other. -/
theorem Warns.also {b : Bool} {m : FileM Flat Bool} {f : Bool → FileM Flat Bool} (hm : Warns true m)
    (hf : ∀ ok, Warns (b && ok) (f ok)) : Warns b (m >>= f) := by
  intro s
  rw [wp_bind]
  refine wp_conseq (hm s) ?_
  rintro ok s₁ ⟨h₁, hwarns₁⟩
  refine wp_conseq (hf ok s₁) ?_
  rintro ok' s₂ ⟨h₂, hwarns₂⟩
  refine ⟨trans_of FileState.Louder h₁ h₂, fun hok => ?_⟩
  obtain hlost | hmore := hwarns₂ hok
  · rw [Bool.and_eq_false_iff] at hlost
    refine hlost.imp_right fun hok => ?_
    obtain h | h := hwarns₁ hok
    · cases h
    · exact Nat.lt_of_lt_of_le h h₂
  · exact .inr (Nat.lt_of_le_of_lt h₁ hmore)

/-- The routine goes on if the test has been passed. -/
theorem Tells.test {m : FileM Flat Bool} {f : Bool → FileM Flat (Except Errno α)}
    (hm : Warns true m) (hlost : ∃ e, f false = pure (.error e)) (hf : Tells silent (f true)) :
    Tells silent (m >>= f) := by
  intro s
  rw [wp_bind]
  refine wp_conseq (hm s) ?_
  rintro ok s₁ ⟨h₁, hwarns⟩
  cases ok with
  | false =>
    obtain ⟨e, heq⟩ := hlost
    rw [heq]
    refine ⟨h₁, fun _ _ _ => ?_⟩
    obtain h | h := hwarns rfl
    · cases h
    · exact h
  | true =>
    refine wp_conseq (hf s₁) ?_
    rintro r s₂ ⟨h₂, htold⟩
    exact ⟨trans_of FileState.Louder h₁ h₂, fun e hr he => Nat.lt_of_le_of_lt h₁ (htold e hr he)⟩

/-- `check_entries` reports its refusals. -/
theorem warns_checkEntries (entries : List Entry) : Warns true (onEf (checkEntries entries)) := by
  unfold checkEntries
  split
  · exact warns_pure true
  · exact warns_report true "unexpected entry type"

/-- `allocate_node` reports its refusals. -/
theorem warns_allocateNode : Warns true (onEf allocateNode) := by
  intro s
  unfold onEf allocateNode
  rw [wp_zoom, wp_bind]
  refine wp_of_ok (run_mallocOk s.ef) ?_
  split
  · exact ⟨Nat.le_refl _, by simp⟩
  · exact ⟨Nat.le_succ _, fun _ => .inr (Nat.lt_succ_self _)⟩

/-- `checkNodeRule` reports its refusals. -/
theorem warns_checkNodeRule (bad : Bool) (message : String) :
    Warns true (checkNodeRule bad message) := by
  apply Warns.skip (yields_look fun s => yields_pure s)
  intro s
  refine Warns.ite (Warns.skip (louder_of_heard (heard_onEf (heard_exfatGetName _))) fun _ => ?_)
    (warns_pure true)
  exact warns_report true message

/-- `checkNodeChecksum` reports its refusals. -/
theorem warns_checkNodeChecksum (actual stored : Nat) :
    Warns true (checkNodeChecksum actual stored) := by
  apply Warns.skip (yields_look fun s => yields_pure s)
  intro s
  refine Warns.ite (Warns.skip (louder_of_heard (heard_onEf (heard_exfatGetName _))) fun _ => ?_)
    (warns_pure true)
  -- whatever is answered, the message stands before
  intro s
  have hrest : Yields FileState.Louder (do
      if ← onEf (exfatAskToFix (δ := Flat)) then do
        modifyNode fun n => { n with isDirty := true }
        onEf exfatErrorsFixedBump
        pure true
      else pure false) := by
    refine (keeps_bind (louder_onEf louder_exfatAskToFix) fun fix =>
      keeps_ite ?_ (keeps_pure _)).yields
    refine keeps_bind (fun s => refl_of FileState.Louder s) fun _ => ?_
    exact keeps_bind (louder_onEf fun _ => Nat.le_refl _) fun _ => keeps_pure _
  refine wp_of_eq (run_bind_ok (run_onEf_ok (run_exfatError "invalid checksum" s.ef))) ?_
  refine wp_conseq (hrest _) fun ok s' h => ⟨?_, fun _ => .inr ?_⟩
  · exact Nat.le_trans (Nat.le_succ _) h
  · exact Nat.lt_of_lt_of_le (Nat.lt_succ_self _) h

/-- `check_node` reports its refusals. -/
theorem warns_checkNode (actual stored : Nat) : Warns true (checkNode actual stored) := by
  apply Warns.skip (yields_look fun s => yields_pure s)
  intro s
  refine Warns.also (warns_checkNodeChecksum _ _) fun ok₁ =>
    Warns.also (warns_checkNodeRule _ _) fun ok₂ => ?_
  refine Warns.also (warns_checkNodeRule _ _) fun ok₃ =>
    Warns.also (warns_checkNodeRule _ _) fun ok₄ => ?_
  refine Warns.also (warns_checkNodeRule _ _) fun ok₅ =>
    Warns.also (warns_checkNodeRule _ _) fun ok₆ => ?_
  refine Warns.also (warns_checkNodeRule _ _) fun ok₇ => ?_
  rw [Bool.true_and]
  exact warns_pure _

/-- A set of entries is rejected with a message. -/
theorem tells_parseFileEntries (entries : List Entry) :
    Tells silent (parseFileEntries entries) := by
  refine Tells.test (warns_checkEntries entries) ⟨.eio, rfl⟩ ?_
  rw [if_neg (by decide)]
  refine Tells.ite (tells_report _ _)
    (Tells.ite (tells_report _ _) (Tells.ite (tells_report _ _) ?_))
  apply Tells.skip (louder_of_heard (heard_initNodeMeta1 _))
  intro _
  refine Tells.skip (louder_of_heard (heard_modifyNode fun _ => rfl)) fun _ => ?_
  refine Tells.skip (louder_of_heard (heard_modifyNode fun _ => rfl)) fun _ => ?_
  exact Tells.test (warns_checkNode _ _) ⟨.eio, rfl⟩ (tells_ok _)

/-- A routine on another node reports its errors. -/
theorem told_withNode {node : Node} {m : FileM Flat Rc} (hm : Tells silent m) (ef : Ef Flat) :
    wp (withNode node m) (fun r ef' => ef.Louder ef' ∧
      ∀ e, r.1 = .error e → e ∉ silent → ef.errors < ef'.errors) anyStop ef := by
  have hrun := hm ⟨ef, node⟩
  unfold wp withNode at *
  cases hm : m ⟨ef, node⟩ with
  | ok r s =>
    rw [hm] at hrun
    exact hrun
  | error e s => exact trivial

/-- `parse_file_entry` reports its errors. -/
theorem tells_parseFileEntry (offset n : Nat) : Tells {.enoent} (parseFileEntry offset n) := by
  refine Tells.bind (tells_readEntries _ _) (fun _ => pass_on rfl) fun entries => ?_
  refine Tells.test warns_allocateNode ⟨.enomem, rfl⟩ ?_
  rw [if_neg (by decide)]
  intro s
  unfold onEf
  rw [wp_bind, wp_zoom]
  have hparse : Tells {.enoent} (parseFileEntries entries) := tells_parseFileEntries entries
  refine wp_conseq (told_withNode hparse s.ef) ?_
  rintro ⟨rc, node⟩ ef ⟨hlouder, htold⟩
  cases rc with
  | ok _ => exact ⟨hlouder, by simp⟩
  | error e =>
    refine ⟨hlouder, ?_⟩
    rintro _ ⟨⟩ hne
    exact htold e rfl hne

/-- `readUnknown` reports its errors. -/
theorem tells_readUnknown (entry : Entry) (offset : Int) :
    Tells silent (readUnknown entry offset) := by
  unfold readUnknown
  refine Tells.ite (tells_ok _) fun s => ?_
  have hrest : Yields FileState.Louder (do
      if ← onEf (exfatAskToFix (δ := Flat)) then
        if ← exfatFixUnknownEntry entry offset then pure (.ok ()) else pure (.error .eio)
      else pure (.error .eio) : FileM Flat Rc) := by
    refine (keeps_bind (louder_onEf louder_exfatAskToFix) fun fix =>
      keeps_ite ?_ (keeps_pure _)).yields
    exact keeps_bind (louder_exfatFixUnknownEntry _ _) fun done =>
      keeps_ite (keeps_pure _) (keeps_pure _)
  -- the message comes first, whatever is answered to the question
  refine wp_of_eq (run_bind_ok (run_onEf_ok (run_exfatError "unknown entry type" s.ef))) ?_
  refine wp_conseq (hrest _) fun r s' h => ⟨?_, fun _ _ _ => ?_⟩
  · exact Nat.le_trans (Nat.le_succ _) h
  · exact Nat.lt_of_lt_of_le (Nat.lt_succ_self _) h

/-- Behind the root directory, the labels apart, an entry that cannot be skipped is told of. -/
theorem told_skipEntry {entry : Entry} {offset : Nat} {s : FileState Flat}
    (hup : s.ef.upcase.isSome = true) (hplain : ¬ entry.isSpecial) :
    wp (skipEntry entry offset) (fun r s' => ∀ e, r = .error e → s.ef.errors < s'.ef.errors)
      anyStop s := by
  unfold skipEntry
  split
  · -- the table is loaded already
    unfold onEf readUpcase
    rw [wp_zoom, wp_bind, wp_get, if_pos hup]
    exact fun _ he => by cases he
  · rw [if_neg fun h => hplain (.inl h), if_neg fun h => hplain (.inr h)]
    have hunknown : Tells ∅ (readUnknown entry offset) := tells_readUnknown entry offset
    refine wp_conseq (hunknown s) ?_
    exact fun r s' h e he => h.2 e he (Set.notMem_empty e)

/-- A directory that cannot be read to its end is told of. -/
theorem told_readdirLoop (fuel offset : Nat) {s : FileState Flat} (hup : s.ef.upcase.isSome = true)
    (hplain : ∀ e, Meets s offset e → ¬ e.isSpecial) :
    wp (readdirLoop fuel offset) (fun r s' => ∀ e, r = .error e → e ≠ .enoent →
      s.ef.errors < s'.ef.errors)
      anyStop s := by
  -- on the entries that are left of the directory
  induction fuel generalizing offset s with
  | zero => exact trivial
  | succ fuel ih =>
    unfold readdirLoop
    rw [wp_bind]
    refine wp_conseq (wp_run (tells_readEntries 1 offset s)) ?_
    rintro r s₁ ⟨hread, hlouder₁, htold₁⟩
    have hle₁ : s.ef.errors ≤ s₁.ef.errors := hlouder₁
    cases r with
    | error e =>
      rintro _ ⟨⟩ hne
      exact htold₁ e rfl hne
    | ok entries =>
      obtain ⟨h₁, hd, hin, hlen⟩ := readEntries_one hread
      have hup₁ : s₁.ef.upcase.isSome = true := by rwa [h₁.ef.upcase]
      dsimp only
      split
      -- the entries of an object
      next hfile =>
        rw [wp_bind]
        refine wp_conseq (tells_parseFileEntry _ _ s₁) ?_
        rintro r s₂ ⟨hlouder₂, htold₂⟩
        cases r with
        | ok node => exact fun _ he => by cases he
        | error e =>
          rintro _ ⟨⟩ hne
          exact Nat.lt_of_le_of_lt hle₁ (htold₂ e rfl hne)
      -- an entry of its own, behind which the loop goes on
      next hfile =>
        rw [wp_bind]
        have hplain₀ : ¬ (entries.getD 0 []).isSpecial := hplain _ (.here hread)
        have hin₁ : offset + entrySize ≤ s₁.node.size := h₁.size ▸ hin
        have hskim := skims_skipEntry hup₁ hplain₀ (h₁.isDir ▸ hd) hlen hin₁
        have hall := wp_and hskim (wp_and (told_skipEntry hup₁ hplain₀) (heard_skipEntry _ _ s₁))
        refine wp_mono (wp_run hall) ?_ fun _ _ _ => trivial
        rintro r s₂ ⟨hskipped, h₂, htold₂, hheard₂⟩
        have hle₂ := hheard₂.ef.le
        cases r with
        | error e =>
          rintro _ ⟨⟩ -
          exact Nat.lt_of_le_of_lt hle₁ (htold₂ e rfl)
        | ok _ =>
          have hup₂ : s₂.ef.upcase.isSome = true := by rwa [h₂.ef.upcase]
          have hrest := ih (offset + entrySize) hup₂ fun e he =>
            hplain e (.behind hread hfile hskipped he)
          exact wp_conseq hrest fun r s₃ h e hr hne =>
            Nat.lt_of_le_of_lt (Nat.le_trans hle₁ hle₂) (h e hr hne)

/-- A directory that cannot be read to its end is reported. -/
theorem told_cacheLoop (fuel offset : Nat) {s : FileState Flat} (hup : s.ef.upcase.isSome = true)
    (hplain : ∀ e, Meets s offset e → ¬ e.isSpecial) :
    wp (cacheLoop fuel offset) (fun r s' => r.2 ≠ .enoent → s.ef.errors < s'.ef.errors)
      anyStop s := by
  induction fuel generalizing offset s with
  | zero => exact trivial
  | succ fuel ih =>
    unfold cacheLoop
    rw [wp_bind, wp_get, wp_bind]
    have hall := wp_and (skims_readdirLoop (dirFuel s.node.size) offset hup hplain)
      (wp_and (told_readdirLoop (dirFuel s.node.size) offset hup hplain) (heard_readdirLoop _ _ s))
    refine wp_mono hall ?_ fun _ _ _ => trivial
    rintro r s₁ ⟨⟨h₁, hplain₁⟩, htold, hheard, -⟩
    have hle := hheard.ef.le
    cases r with
    | error e => exact fun hne => htold e rfl hne
    | ok x =>
      obtain ⟨node, next⟩ := x
      dsimp only
      rw [wp_bind]
      have hup₁ : s₁.ef.upcase.isSome = true := by rwa [h₁.ef.upcase]
      exact wp_conseq (ih next hup₁ (hplain₁ node next rfl)) fun r s₂ h hne =>
        Nat.lt_of_le_of_lt hle (h hne)

end Told

end ExFat
