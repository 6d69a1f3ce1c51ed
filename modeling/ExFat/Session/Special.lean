import ExFat.Session.WriteBack
import ExFat.Fs.Tending
import ExFat.Fs.Boot

namespace ExFat

open Program Bytes

/-!
# Special entries outside the root directory

`readdir` interprets the entries of the allocation bitmap and of the label wherever it meets them;
only the upcase table is left alone once there is one.  Reading a directory that holds neither of
the two changes nothing but the directory: its children, its cache flag and its cursor.
-/

variable {δ : Type} {α : Type}

/-! ### What reading entries does to the volume -/

/-- The volume after entries were read: calls of the device were made, messages were written and
memory was asked for. -/
def Ef.Skimmed (ef ef' : Ef δ) : Prop :=
  ef' = { ef with
    dev := ef'.dev, ticks := ef'.ticks, errors := ef'.errors, errorsFixed := ef'.errorsFixed }

instance : IsPreorder (Ef δ) Ef.Skimmed where
  refl _ := rfl
  trans _ _ _ h h' := by
    unfold Ef.Skimmed at *
    rw [h', h]

/-- `exfat_error` calls the device, writes messages and asks for memory at most. -/
theorem skims_exfatError (message : String) : Keeps Ef.Skimmed (exfatError (δ := δ) message) :=
  fun _ => rfl

/-- `mallocOk` calls the device, writes messages and asks for memory at most. -/
theorem skims_mallocOk : Keeps Ef.Skimmed (mallocOk (δ := δ)) := fun _ => rfl

/-- `exfat_errors_fixed_bump` calls the device, writes messages and asks for memory at most. -/
theorem skims_exfatErrorsFixedBump : Keeps Ef.Skimmed (exfatErrorsFixedBump (δ := δ)) :=
  fun _ => rfl

/-- `exfat_get_name` calls the device, writes messages and asks for memory at most. -/
theorem skims_exfatGetName (n : Node) : Keeps Ef.Skimmed (exfatGetName (δ := δ) n) := by
  unfold exfatGetName
  cases nameUtf8 n.name with
  | ok name => exact keeps_pure _
  | error e => exact keeps_throw _

/-- `exfat_ask_to_fix` calls the device, writes messages and asks for memory at most. -/
theorem skims_exfatAskToFix : Keeps Ef.Skimmed (exfatAskToFix (δ := δ)) := by
  intro ef
  unfold exfatAskToFix
  rw [wp_bind, wp_get]
  split
  · exact refl_of Ef.Skimmed ef
  · exact refl_of Ef.Skimmed ef
  · exact rfl

/-- A message and a return code. -/
theorem skims_report (message : String) (a : α) :
    Keeps Ef.Skimmed (do exfatError (δ := δ) message; pure a) :=
  keeps_bind (skims_exfatError message) fun _ => keeps_pure a

/-- `check_entries` calls the device, writes messages and asks for memory at most. -/
theorem skims_checkEntries (entries : List Entry) :
    Keeps Ef.Skimmed (checkEntries (δ := δ) entries) := keeps_ite (keeps_pure _) (skims_report _ _)

/-- `allocate_node` calls the device, writes messages and asks for memory at most. -/
theorem skims_allocateNode : Keeps Ef.Skimmed (allocateNode (δ := δ)) :=
  keeps_bind skims_mallocOk fun _ => keeps_ite (keeps_pure _) (skims_report _ _)

/-- `readTime` calls the device, writes messages and asks for memory at most. -/
theorem skims_readTime (date time centisec tzoffset : Nat) :
    Keeps Ef.Skimmed (readTime (δ := δ) date time centisec tzoffset) := by
  refine keeps_look fun ef => ?_
  cases exfat2unix ef.timezone date time centisec tzoffset with
  | some t => exact keeps_pure _
  | none => exact skims_report _ _

/-! ### Making a node of entries -/

/-- The same of a routine that works on a node besides. -/
def FileState.EfSkimmed (s s' : FileState δ) : Prop := s.ef.Skimmed s'.ef

instance : IsPreorder (FileState δ) FileState.EfSkimmed where
  refl s := refl_of Ef.Skimmed s.ef
  trans _ _ _ := trans_of Ef.Skimmed

/-- `onEf` calls the device, writes messages and asks for memory at most. -/
theorem skims_onEf {m : EfM δ α} (hm : Keeps Ef.Skimmed m) : Keeps FileState.EfSkimmed (onEf m) :=
  keeps_zoom hm fun _ _ h => h

/-- `modifyNode` calls the device, writes messages and asks for memory at most. -/
theorem skims_modifyNode (f : Node → Node) : Keeps FileState.EfSkimmed (modifyNode (δ := δ) f) :=
  fun s => refl_of FileState.EfSkimmed s

/-- `checkNodeRule` calls the device, writes messages and asks for memory at most. -/
theorem skims_checkNodeRule (bad : Bool) (message : String) :
    Keeps FileState.EfSkimmed (checkNodeRule (δ := δ) bad message) := by
  refine keeps_look fun s => keeps_ite ?_ (keeps_pure _)
  refine keeps_bind (skims_onEf (skims_exfatGetName _)) fun _ => ?_
  exact keeps_bind (skims_onEf (skims_exfatError _)) fun _ => keeps_pure _

/-- `checkNodeChecksum` calls the device, writes messages and asks for memory at most. -/
theorem skims_checkNodeChecksum (actual stored : Nat) :
    Keeps FileState.EfSkimmed (checkNodeChecksum (δ := δ) actual stored) := by
  refine keeps_look fun s => keeps_ite ?_ (keeps_pure _)
  refine keeps_bind (skims_onEf (skims_exfatGetName _)) fun _ => ?_
  refine keeps_bind (skims_onEf (skims_exfatError _)) fun _ => ?_
  refine keeps_bind (skims_onEf skims_exfatAskToFix) fun fix => keeps_ite ?_ (keeps_pure _)
  refine keeps_bind (skims_modifyNode _) fun _ => ?_
  exact keeps_bind (skims_onEf skims_exfatErrorsFixedBump) fun _ => keeps_pure _

/-- `check_node` calls the device, writes messages and asks for memory at most. -/
theorem skims_checkNode (actual stored : Nat) :
    Keeps FileState.EfSkimmed (checkNode (δ := δ) actual stored) := by
  refine keeps_look fun s => keeps_bind (skims_checkNodeChecksum _ _) fun _ => ?_
  refine keeps_bind (skims_checkNodeRule _ _) fun _ => ?_
  refine keeps_bind (skims_checkNodeRule _ _) fun _ => ?_
  refine keeps_bind (skims_checkNodeRule _ _) fun _ => ?_
  refine keeps_bind (skims_checkNodeRule _ _) fun _ => ?_
  refine keeps_bind (skims_checkNodeRule _ _) fun _ => ?_
  refine keeps_bind (skims_checkNodeRule _ _) fun _ => ?_
  exact keeps_pure _

/-- `init_node_meta1` calls the device, writes messages and asks for memory at most. -/
theorem skims_initNodeMeta1 (meta1 : Entry) :
    Keeps FileState.EfSkimmed (initNodeMeta1 (δ := δ) meta1) := by
  refine keeps_bind (skims_modifyNode _) fun _ => ?_
  refine keeps_bind (skims_onEf (skims_readTime _ _ _ _)) fun _ =>
    keeps_bind (skims_modifyNode _) fun _ => ?_
  exact keeps_bind (skims_onEf (skims_readTime _ _ _ _)) fun _ => skims_modifyNode _

/-- `parse_file_entries` calls the device, writes messages and asks for memory at most. -/
theorem skims_parseFileEntries (entries : List Entry) :
    Keeps FileState.EfSkimmed (parseFileEntries (δ := δ) entries) := by
  have hreport : ∀ (message : String) (r : Rc),
      Keeps FileState.EfSkimmed (do onEf (exfatError (δ := δ) message); pure r) := fun message r =>
    keeps_bind (skims_onEf (skims_exfatError message)) fun _ => keeps_pure r
  refine keeps_bind (skims_onEf (skims_checkEntries _)) fun ok => keeps_ite (keeps_pure _) ?_
  refine keeps_ite (hreport _ _) (keeps_ite (hreport _ _) (keeps_ite (hreport _ _) ?_))
  refine keeps_bind (skims_initNodeMeta1 _) fun _ => keeps_bind (skims_modifyNode _) fun _ => ?_
  refine keeps_bind (skims_modifyNode _) fun _ => ?_
  exact keeps_bind (skims_checkNode _ _) fun ok => keeps_ite (keeps_pure _) (keeps_pure _)

/-- A routine on another node that calls, writes and asks for no more. -/
theorem skims_withNode {node : Node} {m : FileM δ α} (hm : Keeps FileState.EfSkimmed m) :
    Keeps Ef.Skimmed (withNode node m) := by
  intro ef
  have hrun := hm ⟨ef, node⟩
  unfold wp withNode at *
  cases hm : m ⟨ef, node⟩ with
  | ok a s =>
    rw [hm] at hrun
    exact hrun
  | error e s =>
    rw [hm] at hrun
    exact hrun

/-! ### Scanning a directory -/

/-- The state after entries of a directory were read.  Only a repair writes into the directory, and
so can move its valid size. -/
structure FileState.Skimmed (s s' : FileState δ) : Prop where
  ef : s.ef.Skimmed s'.ef
  node : s'.node = { s.node with
    fptrIndex := s'.node.fptrIndex, fptrCluster := s'.node.fptrCluster
    validSize := s'.node.validSize }
  valid : s.ef.repair = .no → s'.node.validSize = s.node.validSize

/-- The repair mode is as it was. -/
theorem Ef.Skimmed.repair {ef ef' : Ef δ} (h : ef.Skimmed ef') : ef'.repair = ef.repair := by
  unfold Ef.Skimmed at h
  rw [h]

/-- The upcase table is as it was. -/
theorem Ef.Skimmed.upcase {ef ef' : Ef δ} (h : ef.Skimmed ef') : ef'.upcase = ef.upcase := by
  unfold Ef.Skimmed at h
  rw [h]

instance : IsPreorder (FileState δ) FileState.Skimmed where
  refl s := ⟨refl_of Ef.Skimmed s.ef, rfl, fun _ => rfl⟩
  trans _ _ _ h h' := by
    refine ⟨trans_of Ef.Skimmed h.ef h'.ef, ?_, ?_⟩
    · rw [h'.node, h.node]
    · intro hrepair
      exact (h'.valid (h.ef.repair.trans hrepair)).trans (h.valid hrepair)

/-- Two readings are one. -/
theorem FileState.Skimmed.trans {s s' s'' : FileState δ} (h : s.Skimmed s') (h' : s'.Skimmed s'') :
    s.Skimmed s'' := trans_of FileState.Skimmed h h'

/-- A reading of the volume leaves the node alone. -/
theorem FileState.Skimmed.of_ef {s : FileState δ} {ef : Ef δ} (h : s.ef.Skimmed ef) :
    s.Skimmed { s with ef := ef } := ⟨h, rfl, fun _ => rfl⟩

/-- A directory stays one. -/
theorem FileState.Skimmed.isDir {s s' : FileState δ} (h : s.Skimmed s') :
    s'.node.isDir = s.node.isDir := by
  rw [h.node]
  rfl

/-- The size is as it was. -/
theorem FileState.Skimmed.size {s s' : FileState δ} (h : s.Skimmed s') :
    s'.node.size = s.node.size := by
  rw [h.node]

section Scan

variable [Device δ]

/-- A walk along the clusters only reads. -/
theorem FileState.Walked.skimmed {s s' : FileState δ} (h : s.Walked s') : s.Skimmed s' := by
  have hvalid : s'.node.validSize = s.node.validSize := by rw [h.node]
  refine ⟨?_, h.scanned.node, fun _ => hvalid⟩
  unfold Ef.Skimmed
  rw [h.ef]

/-- The scan of a directory from `offset` on, started in `s`, comes upon `entry` among those that
`readdir` looks at one by one. -/
inductive Meets : FileState δ → Nat → Entry → Prop
  | here {s s₁ : FileState δ} {offset : Nat} {entries : List Entry} :
    readEntries 1 offset s = .ok (.ok entries) s₁ → Meets s offset (entries.getD 0 [])
  | behindFile {s s₁ s₂ : FileState δ} {offset : Nat} {entries : List Entry}
    {node : Node} {e : Entry} :
    readEntries 1 offset s = .ok (.ok entries) s₁ → (entries.getD 0 []).type = entryFile →
    parseFileEntry offset (1 + (entries.getD 0 []).continuations) s₁ = .ok (.ok node) s₂ →
    Meets s₂ (offset + entrySize * (1 + (entries.getD 0 []).continuations)) e → Meets s offset e
  | behind {s s₁ s₂ : FileState δ} {offset : Nat} {entries : List Entry} {e : Entry} :
    readEntries 1 offset s = .ok (.ok entries) s₁ → (entries.getD 0 []).type ≠ entryFile →
    skipEntry (entries.getD 0 []) offset s₁ = .ok (.ok ()) s₂ →
    Meets s₂ (offset + entrySize) e → Meets s offset e

/-- An entry of the allocation bitmap or of the label. -/
def Entry.isSpecial (e : Entry) : Prop := e.type = entryBitmap ∨ e.type = entryLabel

/-- `parse_file_entry` calls the device, writes messages and asks for memory at most. -/
theorem skims_parseFileEntry (offset n : Nat) :
    Keeps FileState.Skimmed (parseFileEntry (δ := δ) offset n) := by
  refine keeps_bind (fun s => ?_) fun r => ?_
  · exact wp_mono (walked_readEntries n offset s) (fun _ _ h => h.skimmed) (fun _ _ h => h.skimmed)
  cases r with
  | error e => exact keeps_pure _
  | ok entries =>
    refine keeps_bind (keeps_zoom skims_allocateNode fun _ _ h => .of_ef h) fun ok => ?_
    refine keeps_ite (keeps_pure _) ?_
    refine keeps_bind (keeps_zoom (skims_withNode (skims_parseFileEntries _)) fun _ _ h => .of_ef h)
      fun r => ?_
    cases r.1 with
    | error e => exact keeps_pure _
    | ok _ => exact keeps_pure _

/-- Invalidating an entry writes within the directory. -/
theorem skims_exfatFixUnknownEntry {entry : Entry} {offset : Nat} {s : FileState δ}
    (hd : s.node.isDir = true) (hlen : entry.length ≤ entrySize)
    (hin : offset + entrySize ≤ s.node.size) (hrepair : s.ef.repair ≠ .no) :
    wp (exfatFixUnknownEntry entry offset) (fun _ s' => s.Skimmed s')
      (fun _ s' => s.Skimmed s') s := by
  have hdata : offset + entry.invalidate.length ≤ s.node.size :=
    (Nat.add_le_add_left (length_set_le _ hlen (by decide)) _).trans hin
  have hskim : ∀ {s' : FileState δ}, s.Scanned s' → s.Skimmed s' := by
    intro s' h
    refine ⟨?_, h.node, fun hno => absurd hno hrepair⟩
    unfold Ef.Skimmed
    rw [h.ef]
  unfold exfatFixUnknownEntry
  rw [wp_bind]
  refine wp_mono (scanned_exfatGenericPwrite hd hdata) ?_ (fun _ _ h => hskim h)
  intro r s₁ h₁
  cases r with
  | error e => exact hskim h₁
  | ok size =>
    dsimp only
    split
    · exact hskim h₁
    · exact (hskim h₁).trans (.of_ef rfl)

/-- An entry of an unknown kind is at most repaired. -/
theorem skims_readUnknown {entry : Entry} {offset : Nat} {s : FileState δ}
    (hd : s.node.isDir = true) (hlen : entry.length ≤ entrySize)
    (hin : offset + entrySize ≤ s.node.size) :
    wp (readUnknown entry offset) (fun _ s' => s.Skimmed s') (fun _ s' => s.Skimmed s') s := by
  unfold readUnknown
  -- an entry of a benign kind is passed over without a word
  split
  · exact refl_of FileState.Skimmed s
  rw [wp_bind]
  let s₁ : FileState δ := { s with ef := { s.ef with errors := s.ef.errors + 1 } }
  have h₁ : s.Skimmed s₁ := .of_ef rfl
  show wp _ _ _ s₁
  rw [wp_bind]
  unfold onEf
  rw [wp_zoom]
  refine wp_mono (wp_run (skims_exfatAskToFix s₁.ef)) ?_ (fun _ _ h => h₁.trans (.of_ef h))
  rintro fix ef ⟨hfix, h₂⟩
  have h₁₂ : s.Skimmed { s₁ with ef := ef } := h₁.trans (.of_ef h₂)
  -- the message has been written; the entry is cleared only if the answer is yes
  cases fix with
  | false => exact h₁₂
  | true =>
    -- with the answer no the question returns `false`
    have hrepair : ef.repair ≠ .no := by
      rw [h₂.repair]
      intro hno
      unfold exfatAskToFix at hfix
      rw [run_bind_ok (run_get _), hno] at hfix
      cases hfix
    rw [if_pos rfl, wp_bind]
    have hfixed := skims_exfatFixUnknownEntry (s := { s₁ with ef := ef }) hd hlen hin hrepair
    refine wp_mono hfixed ?_ (fun _ _ h => h₁₂.trans h)
    intro done s₃ h₃
    cases done with
    | false => exact h₁₂.trans h₃
    | true => exact h₁₂.trans h₃

/-- Behind the root directory only the bitmap and the label are interpreted. -/
theorem skims_skipEntry {entry : Entry} {offset : Nat} {s : FileState δ}
    (hup : s.ef.upcase.isSome = true) (hplain : ¬ entry.isSpecial) (hd : s.node.isDir = true)
    (hlen : entry.length ≤ entrySize) (hin : offset + entrySize ≤ s.node.size) :
    wp (skipEntry entry offset) (fun _ s' => s.Skimmed s') (fun _ s' => s.Skimmed s') s := by
  unfold skipEntry
  split
  · unfold onEf readUpcase
    rw [wp_zoom, wp_bind, wp_get, if_pos hup]
    exact refl_of FileState.Skimmed s
  · rw [if_neg fun h => hplain (.inl h), if_neg fun h => hplain (.inr h)]
    exact skims_readUnknown hd hlen hin

/-- One entry that could be read lies in the directory. -/
theorem readEntries_one {offset : Nat} {entries : List Entry} {s s₁ : FileState δ}
    (h : readEntries 1 offset s = .ok (.ok entries) s₁) :
    s.Skimmed s₁ ∧ s.node.isDir = true ∧ offset + entrySize ≤ s.node.size ∧
      (entries.getD 0 []).length ≤ entrySize := by
  have hd : s.node.isDir = true := by
    by_contra hfile
    unfold readEntries at h
    rw [run_bind_ok (run_get s), if_pos (by simpa using hfile)] at h
    cases h
  obtain ⟨hsize, hlen, hall⟩ := wp_anyStop_iff.1 (inside_readEntries 1 offset s) _ _ h entries rfl
  refine ⟨((walked_readEntries 1 offset).ok h).skimmed, hd, ?_, ?_⟩
  · unfold entrySize at hsize ⊢
    omega
  · match entries, hlen with
    | [e], _ => exact hall e (List.mem_singleton.2 rfl)

/-! ### What a scan does to the volume -/

section Relation

variable {R : Ef δ → Ef δ → Prop} [IsPreorder (Ef δ) R]

/-- What reading the entry does to the volume, if it has no node, is kept. -/
structure Entry.Preserves (R : Ef δ → Ef δ → Prop) (e : Entry) : Prop where
  upcase : e.type = entryUpcase → Keeps R (readUpcase e)
  bitmap : e.type = entryBitmap → Keeps R (readBitmap e)
  label : e.type = entryLabel → Keeps R (readLabel e)

omit [IsPreorder (Ef δ) R] in
/-- An entry that is no set preserves what it should. -/
theorem wp_skipEntry_of (hskim : ∀ {ef ef' : Ef δ}, ef.Skimmed ef' → R ef ef') {entry : Entry}
    (he : entry.Preserves R) {offset : Nat} {s : FileState δ} (hd : s.node.isDir = true)
    (hlen : entry.length ≤ entrySize) (hin : offset + entrySize ≤ s.node.size) :
    wp (skipEntry entry offset) (fun _ s' => R s.ef s'.ef) (fun _ s' => R s.ef s'.ef) s := by
  have honEf : ∀ {m : EfM δ Rc}, Keeps R m →
      wp (onEf m) (fun _ s' => R s.ef s'.ef) (fun _ s' => R s.ef s'.ef) s := fun hm => by
    unfold onEf
    rw [wp_zoom]
    exact hm s.ef
  unfold skipEntry
  split
  next htype => exact honEf (he.upcase htype)
  split
  next htype => exact honEf (he.bitmap htype)
  split
  next htype => exact honEf (he.label htype)
  · exact wp_mono (skims_readUnknown hd hlen hin) (fun _ _ h => hskim h.ef)
      (fun _ _ h => hskim h.ef)

/-- What every entry that `readdir` meets keeps, `readdir` keeps. -/
theorem wp_readdirLoop_of (hskim : ∀ {ef ef' : Ef δ}, ef.Skimmed ef' → R ef ef') (fuel offset : Nat)
    {s : FileState δ} (hmet : ∀ e, Meets s offset e → e.Preserves R) :
    wp (readdirLoop fuel offset)
      (fun r s' => R s.ef s'.ef ∧
        ∀ node next, r = .ok (node, next) → ∀ e, Meets s' next e → e.Preserves R)
      (fun _ s' => R s.ef s'.ef) s := by
  -- On the fuel.  `Meets` names the entries that this call and the later ones come to.
  induction fuel generalizing offset s with
  | zero => exact refl_of R s.ef
  | succ fuel ih =>
    unfold readdirLoop
    rw [wp_bind]
    refine wp_mono (wp_run (walked_readEntries 1 offset s)) ?_ (fun _ _ h => hskim h.skimmed.ef)
    rintro r s₁ ⟨hread, h₁⟩
    cases r with
    | error e => exact ⟨hskim h₁.skimmed.ef, by simp⟩
    | ok entries =>
      obtain ⟨h₁, hd, hin, hlen⟩ := readEntries_one hread
      have hR₁ := hskim h₁.ef
      dsimp only
      -- a file entry ends the call; what lies behind its set is met later
      split
      next hfile =>
        rw [wp_bind]
        refine wp_mono (wp_run (skims_parseFileEntry _ _ s₁)) ?_
          (fun _ _ h => trans_of R hR₁ (hskim h.ef))
        rintro r s₂ ⟨hparse, h₂⟩
        have hR₂ := trans_of R hR₁ (hskim h₂.ef)
        cases r with
        | error e => exact ⟨hR₂, by simp⟩
        | ok node =>
          refine ⟨hR₂, ?_⟩
          intro node' next hnext e he
          cases hnext
          exact hmet e (.behindFile hread hfile hparse he)
      -- any other entry is handled, and the call goes on behind it
      next hfile =>
        rw [wp_bind]
        have hskip := wp_skipEntry_of hskim (hmet _ (.here hread)) (h₁.isDir ▸ hd) hlen
          (h₁.size ▸ hin)
        refine wp_mono (wp_run hskip) ?_ (fun _ _ h => trans_of R hR₁ h)
        rintro r s₂ ⟨hskipped, h₂⟩
        have hR₂ := trans_of R hR₁ h₂
        cases r with
        | error e => exact ⟨hR₂, by simp⟩
        | ok _ =>
          have hrest := ih (offset + entrySize) fun e he => hmet e (.behind hread hfile hskipped he)
          exact wp_mono hrest (fun _ _ h => ⟨trans_of R hR₂ h.1, h.2⟩)
            (fun _ _ h => trans_of R hR₂ h)

/-- A directory is read when its entries preserve what they should. -/
theorem wp_cacheLoop_of (hskim : ∀ {ef ef' : Ef δ}, ef.Skimmed ef' → R ef ef') (fuel offset : Nat)
    {s : FileState δ} (hmet : ∀ e, Meets s offset e → e.Preserves R) :
    wp (cacheLoop fuel offset) (fun _ s' => R s.ef s'.ef) (fun _ s' => R s.ef s'.ef) s := by
  induction fuel generalizing offset s with
  | zero => exact refl_of R s.ef
  | succ fuel ih =>
    unfold cacheLoop
    rw [wp_bind, wp_get, wp_bind]
    refine wp_mono (wp_readdirLoop_of hskim _ offset hmet) ?_ (fun _ _ h => h)
    rintro r s₁ ⟨h₁, hmet₁⟩
    cases r with
    | error e => exact h₁
    | ok x =>
      dsimp only
      rw [wp_bind]
      have hrest := ih x.2 (hmet₁ x.1 x.2 rfl)
      exact wp_mono hrest (fun _ _ h => trans_of R h₁ h) (fun _ _ h => trans_of R h₁ h)

end Relation

/-! ### A directory without special entries -/

/-- What `readdir` does in a directory that holds no special entry. -/
theorem skims_readdirLoop (fuel offset : Nat) {s : FileState δ} (hup : s.ef.upcase.isSome = true)
    (hplain : ∀ e, Meets s offset e → ¬ e.isSpecial) :
    wp (readdirLoop fuel offset)
      (fun r s' => s.Skimmed s' ∧
        ∀ node next, r = .ok (node, next) → ∀ e, Meets s' next e → ¬ e.isSpecial)
      (fun _ s' => s.Skimmed s') s := by
  -- On the fuel, as in `wp_readdirLoop_of`.
  induction fuel generalizing offset s with
  | zero => exact refl_of FileState.Skimmed s
  | succ fuel ih =>
    unfold readdirLoop
    rw [wp_bind]
    refine wp_mono (wp_run (walked_readEntries 1 offset s)) ?_ (fun _ _ h => h.skimmed)
    rintro r s₁ ⟨hread, h₁⟩
    cases r with
    | error e => exact ⟨h₁.skimmed, by simp⟩
    | ok entries =>
      obtain ⟨h₁, hd, hin, hlen⟩ := readEntries_one hread
      have hup₁ : s₁.ef.upcase.isSome = true := by rwa [h₁.ef.upcase]
      dsimp only
      -- a file entry ends the call
      split
      next hfile =>
        rw [wp_bind]
        refine wp_mono (wp_run (skims_parseFileEntry _ _ s₁)) ?_ (fun _ _ h => h₁.trans h)
        rintro r s₂ ⟨hparse, h₂⟩
        cases r with
        | error e => exact ⟨h₁.trans h₂, by simp⟩
        | ok node =>
          refine ⟨h₁.trans h₂, ?_⟩
          intro node' next hnext e he
          cases hnext
          exact hplain e (.behindFile hread hfile hparse he)
      -- the entry is not special, so it changes neither the table nor the bitmap nor the label
      next hfile =>
        rw [wp_bind]
        have hplain₀ : ¬ (entries.getD 0 []).isSpecial := hplain _ (.here hread)
        have hin₁ : offset + entrySize ≤ s₁.node.size := h₁.size ▸ hin
        have hskip := skims_skipEntry hup₁ hplain₀ (h₁.isDir ▸ hd) hlen hin₁
        refine wp_mono (wp_run hskip) ?_ (fun _ _ h => h₁.trans h)
        rintro r s₂ ⟨hskipped, h₂⟩
        have h₁₂ := h₁.trans h₂
        cases r with
        | error e => exact ⟨h₁₂, by simp⟩
        | ok _ =>
          have hup₂ : s₂.ef.upcase.isSome = true := by rwa [h₂.ef.upcase]
          have hrest := ih (offset + entrySize) hup₂ fun e he =>
            hplain e (.behind hread hfile hskipped he)
          exact wp_mono hrest (fun _ _ h => ⟨h₁₂.trans h.1, h.2⟩) (fun _ _ h => h₁₂.trans h)

/-- Without special entries a directory is only read. -/
theorem skims_cacheLoop (fuel offset : Nat) {s : FileState δ} (hup : s.ef.upcase.isSome = true)
    (hplain : ∀ e, Meets s offset e → ¬ e.isSpecial) :
    wp (cacheLoop fuel offset) (fun _ s' => s.Skimmed s') (fun _ s' => s.Skimmed s') s := by
  induction fuel generalizing offset s with
  | zero => exact refl_of FileState.Skimmed s
  | succ fuel ih =>
    unfold cacheLoop
    rw [wp_bind, wp_get, wp_bind]
    refine wp_mono (skims_readdirLoop _ offset hup hplain) ?_ (fun _ _ h => h)
    rintro r s₁ ⟨h₁, hplain₁⟩
    cases r with
    | error e => exact h₁
    | ok x =>
      obtain ⟨node, next⟩ := x
      dsimp only
      rw [wp_bind]
      have hup₁ : s₁.ef.upcase.isSome = true := by rwa [h₁.ef.upcase]
      have hrest := ih next hup₁ (hplain₁ node next rfl)
      exact wp_mono hrest (fun _ _ h => h₁.trans h) (fun _ _ h => h₁.trans h)

end Scan

/-! ### The volume -/

/-- Nothing has changed but the directory `dir`, whose node was `d`: in memory are its children and
the pointer to the first of them, its cache flag and its cursor, and a valid size a repair may have
moved. -/
structure Volume.OnlyCached (t : Volume δ) (dir : NodeId) (d : Node) (t' : Volume δ) : Prop where
  cmap : t'.ef.cmap = t.ef.cmap
  upcase : t'.ef.upcase = t.ef.upcase
  label : t'.ef.label = t.ef.label
  sb : t'.ef.sb = t.ef.sb
  root : t'.root = t.root
  others : ∀ x, x < t.fresh → x ≠ dir → t'.heap x = t.heap x
  self : ∃ d', t'.heap dir = some d' ∧
    d' = { d with
      child := d'.child, first := d'.first, isCached := d'.isCached, fptrIndex := d'.fptrIndex
      fptrCluster := d'.fptrCluster, validSize := d'.validSize } ∧
    (t.ef.repair = .no → d'.validSize = d.validSize)

/-- Nothing has been read. -/
theorem Volume.OnlyCached.refl {t : Volume δ} {dir : NodeId} {d : Node} (hd : t.heap dir = some d) :
    t.OnlyCached dir d t where
  cmap := rfl
  upcase := rfl
  label := rfl
  sb := rfl
  root := rfl
  others _ _ _ := rfl
  self := ⟨d, hd, rfl, fun _ => rfl⟩

/-- The directory has been read, and its node is then put into place. -/
theorem Volume.OnlyCached.of_skimmed {t t' : Volume δ} {dir : NodeId} {d : Node} {s : FileState δ}
    {child : List NodeId} {first : Option NodeId} {isCached : Bool}
    (hs : FileState.Skimmed ⟨t.ef, d⟩ s) (hef : t'.ef = s.ef) (hroot : t'.root = t.root)
    (hothers : ∀ x, x < t.fresh → x ≠ dir → t'.heap x = t.heap x)
    (hself : t'.heap dir =
      some { s.node with child := child, first := first, isCached := isCached }) :
    t.OnlyCached dir d t' := by
  have hs' := hs.ef
  unfold Ef.Skimmed at hs'
  refine ⟨?_, ?_, ?_, ?_, hroot, hothers, _, hself, ?_, hs.valid⟩
  · rw [hef, hs']
  · rw [hef, hs']
  · rw [hef, hs']
  · rw [hef, hs']
  · dsimp only
    rw [hs.node]

variable [Device δ]

/-- However `exfat_cache_directory` ends, it has changed nothing but the directory if the scan meets
neither a bitmap nor a label in it. -/
theorem exfatCacheDirectory_onlyCached {t : Volume δ} {dir : NodeId} {d : Node} (ht : t.Bounded)
    (hup : t.ef.upcase.isSome = true) (hd : t.heap dir = some d)
    (hplain : d.isCached = false → ∀ e, Meets ⟨t.ef, d⟩ 0 e → ¬ e.isSpecial) :
    wp (exfatCacheDirectory dir) (fun _ t' => t.OnlyCached dir d t')
      (fun _ t' => t.OnlyCached dir d t') t := by
  -- the new nodes get higher identifiers, so none of them is the directory
  have hlt : dir < t.fresh := by
    by_contra hge
    rw [ht dir (Nat.le_of_not_lt hge)] at hd
    cases hd
  have hget : getNode dir t = .ok d t := by
    unfold getNode
    rw [hd]
  unfold exfatCacheDirectory
  refine wp_of_eq (run_bind_ok hget) ?_
  split
  · exact .refl hd
  next hcached =>
    rw [wp_bind, wp_onNode hd]
    have hscan := skims_cacheLoop (dirFuel d.size) 0 (s := ⟨t.ef, d⟩) hup
      (hplain (Bool.eq_false_iff.2 hcached))
    refine wp_mono hscan ?_ ?_
    · intro r s hs
      have hstored : (t.store dir s).heap dir = some s.node := store_heap_self t dir s
      -- The nodes that have been read are linked, or the directory stays unread.
      split
      · rw [wp_bind]
        refine wp_conseq (wp_newChildren r.1 hstored hlt fun _ hc => by cases hc) ?_
        rintro ids t₂ ⟨-, h₂⟩
        rw [wp_bind]
        unfold updateNode
        rw [wp_onNode h₂.directory]
        refine .of_skimmed hs h₂.ef h₂.root ?_ (store_heap_self _ _ _)
        intro x hx hne
        have hold : t₂.heap x = (t.store dir s).heap x :=
          h₂.others x hne (Option.some_ne_none x).symm (.inl hx)
        rw [store_heap_of_ne _ hne, hold, store_heap_of_ne _ hne]
      · rw [wp_bind]
        unfold updateNode
        rw [wp_onNode hstored]
        refine .of_skimmed hs rfl rfl ?_ (store_heap_self _ _ _)
        intro x hx hne
        rw [store_heap_of_ne _ hne, store_heap_of_ne _ hne]
    -- an exception in the scan leaves what the scan had changed
    · intro e s hs
      have hself : (t.store dir s).heap dir = some { s.node with
          child := s.node.child, first := s.node.first, isCached := s.node.isCached } :=
        store_heap_self _ _ _
      refine .of_skimmed hs rfl rfl ?_ hself
      intro x hx hne
      exact store_heap_of_ne _ hne

/-- A volume that could be mounted has an upcase table. -/
theorem exfatMount_upcase {t : Volume δ} (ht : t.Vacant) :
    wp (exfatMount (δ := δ)) (fun rc t' => rc = .ok () → t'.Bounded ∧ t'.ef.upcase.isSome = true)
      anyStop t := by
  have habandon : ∀ (root : NodeId) (t : Volume δ), wp (abandonMount (δ := δ) root)
      (fun rc t' => rc = .ok () → t'.ef.upcase.isSome = true) anyStop t := fun _ _ =>
    wp_after fun _ _ => wp_after fun _ _ => wp_after fun _ _ => by simp
  have hup : wp (exfatMount (δ := δ)) (fun rc t' => rc = .ok () →
    t'.ef.upcase.isSome = true) anyStop
      t := by
    refine wp_after fun rc _ => ?_
    cases rc with
    | error e => exact wp_after fun _ _ => by simp
    | ok _ =>
      refine wp_after fun _ _ => wp_after fun _ _ => wp_after fun size _ => wp_after fun _ _ => ?_
      -- the root directory has a cluster, and it is read
      split
      · exact wp_after fun _ _ => by simp
      refine wp_after fun _ _ => wp_after fun rc _ => ?_
      cases rc with
      | error e => exact habandon _ _
      | ok _ =>
        -- without an up-case table or a bitmap the mount is given up
        rw [wp_bind, wp_get]
        split
        · exact wp_after fun _ t => habandon _ t
        next hsome =>
          split
          · exact wp_after fun _ t => habandon _ t
          · exact fun _ => Option.isSome_iff_ne_none.2 fun hnone => hsome (by rw [hnone]; rfl)
  refine wp_mono (wp_and (exfatMount_linked ht) hup) ?_ (fun _ _ _ => trivial)
  rintro rc t' ⟨hlinked, hup⟩ hrc
  exact ⟨(hlinked hrc).1.toBounded, hup hrc⟩

/-! ### A directory with entries of its own -/

/-- Whether the scan of at most `fuel` entries or sets ends and meets only entries that pass `p`. -/
def allMet (p : Entry → Bool) : (fuel offset : Nat) → FileState δ → Bool
  | 0, _, _ => false
  | fuel + 1, offset, s =>
    match readEntries 1 offset s with
    | .ok (.ok entries) s₁ =>
      -- the entry is tested before the loop goes on
      let entry := entries.getD 0 []
      p entry &&
        if entry.type = entryFile then
          match parseFileEntry offset (1 + entry.continuations) s₁ with
          | .ok (.ok _) s₂ => allMet p fuel (offset + entrySize * (1 + entry.continuations)) s₂
          -- an object that cannot be parsed ends the scan
          | _ => true
        else
          match skipEntry entry offset s₁ with
          | .ok (.ok _) s₂ => allMet p fuel (offset + entrySize) s₂
          | _ => true
    | _ => true

/-- What is found of all entries holds of each of them. -/
theorem of_allMet {p : Entry → Bool} {fuel offset : Nat} {s : FileState δ} {e : Entry}
    (h : allMet p fuel offset s = true) (he : Meets s offset e) : p e = true := by
  induction he generalizing fuel with
  | here hread =>
    cases fuel with
    | zero => cases h
    | succ fuel =>
      unfold allMet at h
      rw [hread] at h
      exact (Bool.and_eq_true_iff.1 h).1
  | behindFile hread hfile hparse _ ih =>
    cases fuel with
    | zero => cases h
    | succ fuel =>
      unfold allMet at h
      rw [hread] at h
      have hrest := (Bool.and_eq_true_iff.1 h).2
      rw [if_pos hfile, hparse] at hrest
      exact ih hrest
  | behind hread hfile hskip _ ih =>
    cases fuel with
    | zero => cases h
    | succ fuel =>
      unfold allMet at h
      rw [hread] at h
      have hrest := (Bool.and_eq_true_iff.1 h).2
      rw [if_neg hfile, hskip] at hrest
      exact ih hrest

/-- The entries of an object of the name `ch`. -/
def objectSet (ch attrib start size : Nat) : List Entry :=
  let zero : Entry := List.replicate entrySize 0
  sealEntries [Entry.setFields zero [(0, 1, entryFile), (1, 1, 2), (4, 2, attrib)],
    Entry.setFields zero [(0, 1, entryFileInfo), (1, 1, if size = 0 then 1 else 3),
      (3, 1, 1), (8, 8, size),
      (20, 4, start), (24, 8, size)],
    Entry.setFields zero [(0, 1, entryFileName), (2, 2, ch)]]

/-- The entries of a directory `"D"` in cluster 5. -/
def dirSet : List Entry :=
  let zero : Entry := List.replicate entrySize 0
  sealEntries [Entry.setFields zero [(0, 1, entryFile), (1, 1, 2), (4, 2, attribDir)],
    Entry.setFields zero [(0, 1, entryFileInfo), (1, 1, 3), (3, 1, 1), (8, 8, 512),
      (20, 4, 5), (24, 8, 512)],
    Entry.setFields zero [(0, 1, entryFileName), (2, 2, 0x44)]]

/-- The card with the directory, whose cluster begins with the bytes `contents`. -/
def dirStore (contents : List UInt8) : Store := fun a =>
  if a = 6656 then 15
  else if 7744 ≤ a ∧ a < 7840 then dirSet.flatten.getD (a - 7744) 0
  else if 8192 ≤ a ∧ a < 8704 then contents.getD (a - 8192) 0
  else cardStore a

/-- The volume can be booted from when its checksum is stored. -/
theorem bootable_dirStore (contents : List UInt8) :
    Bootable (withChecksum (dirStore contents)) (2 ^ 20) := by
  have hboot : bootSector (dirStore contents) = bootSector cardStore := by
    refine congrArg SuperBlock.mk (readBytes_congr fun i hi => ?_)
    unfold dirStore
    rw [if_neg (by omega), if_neg (by omega), if_neg (by omega)]
  refine bootable_withChecksum ?_ ?_ ?_
  · rw [hboot]
    decide +kernel
  · rw [hboot]
    decide +kernel
  · rw [hboot]
    decide +kernel

/-- A volume that is about to be mounted from the card. -/
def dirStart (contents : List UInt8) : Volume Flat where
  ef := { dev := ⟨withChecksum (dirStore contents), 2 ^ 20⟩, sb := ⟨[]⟩ }
  heap _ := none
  root := 0
  fresh := 0

/-- The volume when the boot region has been read. -/
def dirBooted (contents : List UInt8) : Volume Flat :=
  let t := dirStart contents
  { t with ef := { t.ef with sb := bootSector (withChecksum (dirStore contents)), ticks := 3 } }

/-- The volume is mounted up to its root directory. -/
theorem exfatMount_dirStart (contents : List UInt8) :
    exfatMount (dirStart contents) = mountRoot (dirBooted contents) :=
  run_exfatMount (fun _ => rfl) (bootable_dirStore contents)

/-- A file `"x"`, an entry that has been deleted, and a file `"y"`. -/
def fileEntries : List UInt8 :=
  (objectSet 0x78 attribArch 0 0 ++ [List.replicate entrySize 5] ++
    objectSet 0x79 attribArch 0 0).flatten

/-- The directory holds two files, which are in memory when it has been read. -/
theorem exfatCacheDirectory_onlyCached_files :
    ∃ t d t', exfatMount (dirStart fileEntries) = .ok (.ok ()) t ∧ t.heap 1 = some d ∧
      d.isCached = false ∧ exfatCacheDirectory 1 t = .ok (.ok ()) t' ∧ t.OnlyCached 1 d t' ∧
      (t'.heap 1).any (fun n => n.child.length = 2) = true := by
  have htest : returns (fun rc t => rc = .ok () ∧ ((t.heap 1).any fun d => !d.isCached &&
      allMet (fun e => e.type ≠ entryBitmap ∧ e.type ≠ entryLabel) 17 0 ⟨t.ef, d⟩) ∧
      returns (fun rc t' => rc = .ok () ∧ (t'.heap 1).any fun n => n.child.length = 2)
        (exfatCacheDirectory 1 t))
      (mountRoot (dirBooted fileEntries)) = true := by
    decide +kernel
  obtain ⟨rc, t, hroot, htest⟩ := of_returns htest
  obtain ⟨rfl, hscan, hread⟩ := of_decide_eq_true htest
  obtain ⟨d, hd, hscan⟩ := (Option.any_eq_true ..).1 hscan
  obtain ⟨rc, t', hread, htest⟩ := of_returns hread
  obtain ⟨rfl, htwo⟩ := of_decide_eq_true htest
  have hrun : exfatMount (dirStart fileEntries) = .ok (.ok ()) t :=
    (exfatMount_dirStart _).trans hroot
  obtain ⟨hbounded, hup⟩ := wp_anyStop_iff.1 (exfatMount_upcase fun _ => rfl) _ _ hrun rfl
  obtain ⟨hcached, hmet⟩ := Bool.and_eq_true_iff.1 hscan
  have hkept : wp (exfatCacheDirectory 1) (fun _ t' => t.OnlyCached 1 d t')
      (fun _ t' => t.OnlyCached 1 d t') t := by
    refine exfatCacheDirectory_onlyCached hbounded hup hd fun _ e he hspecial => ?_
    have hplain := of_decide_eq_true (of_allMet hmet he)
    exact hspecial.elim hplain.1 hplain.2
  have hsame : t.OnlyCached 1 d t' :=
    wp_anyStop_iff.1 (wp_mono hkept (fun _ _ h => h) fun _ _ _ => trivial) _ _ hread
  exact ⟨t, d, t', hrun, hd, by simpa using hcached, hread, hsame, htwo⟩

/-- An entry of the label `"X"` and one of a bitmap in cluster 3. -/
def specialEntries : List UInt8 :=
  patch (patch (patch (patch (List.replicate 64 0) 0 [0x83, 1, 0x58]) 32 [0x81]) 52 [3]) 56 [1]

/-- Reading the directory replaces the label and the bitmap. -/
theorem exfatCacheDirectory_special :
    ∃ t t', exfatMount (dirStart specialEntries) = .ok (.ok ()) t ∧ t.root ≠ 1 ∧
      (t.heap 1).any Node.isDir = true ∧ exfatCacheDirectory 1 t = .ok (.ok ()) t' ∧
      t'.ef.label ≠ t.ef.label ∧ t'.ef.cmap.startCluster ≠ t.ef.cmap.startCluster := by
  have htest : returns (fun rc t => rc = .ok () ∧ t.root ≠ 1 ∧ (t.heap 1).any Node.isDir ∧
      returns (fun rc t' => rc = .ok () ∧ t'.ef.label ≠ t.ef.label ∧
        t'.ef.cmap.startCluster ≠ t.ef.cmap.startCluster) (exfatCacheDirectory 1 t))
      (mountRoot (dirBooted specialEntries)) = true := by
    decide +kernel
  obtain ⟨rc, t, hroot, htest⟩ := of_returns htest
  obtain ⟨rfl, hne, hdir, hread⟩ := of_decide_eq_true htest
  obtain ⟨rc, t', hread, hchanged⟩ := of_returns hread
  obtain ⟨rfl, hlabel, hbitmap⟩ := of_decide_eq_true hchanged
  exact ⟨t, t', (exfatMount_dirStart _).trans hroot, hne, hdir, hread, hlabel, hbitmap⟩

end ExFat
