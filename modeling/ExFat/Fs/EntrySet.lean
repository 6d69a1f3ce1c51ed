import ExFat.Fs.Node

namespace ExFat

open Bytes Program

/-!
# What a set of entries must be to become a node

`parse_file_entries` looks at the types one after the other, at the number of entries, at the flags
and the sizes, and at the checksum, and copies the name out in whole entries.
-/

variable {δ : Type}

/-! ### Setting fields -/

/-- Setting a field of an entry leaves an entry. -/
theorem length_set_eq {e : Entry} {off k : Nat} (v : Nat) (he : e.length = entrySize)
    (h : off + k ≤ entrySize) : (Entry.set e off k v).length = entrySize :=
  length_patch_eq he (by rw [length_natLe]; exact h)

/-- Setting fields of an entry leaves an entry. -/
theorem length_setFields_eq {e : Entry} {fields : List (Nat × Nat × Nat)}
    (he : e.length = entrySize) (h : ∀ f ∈ fields, f.1 + f.2.1 ≤ entrySize) :
    (e.setFields fields).length = entrySize := by
  unfold Entry.setFields
  induction fields generalizing e with
  | nil => exact he
  | cons f fields ih =>
    obtain ⟨hf, hrest⟩ := List.forall_mem_cons.1 h
    exact ih (length_set_eq f.2.2 he hf) hrest

/-- A field that is apart from those that are set is as before. -/
theorem leAt_setFields_of_apart {e : Entry} {fields : List (Nat × Nat × Nat)} {off k : Nat}
    (he : e.length = entrySize) (h : ∀ f ∈ fields, f.1 + f.2.1 ≤ entrySize)
    (hapart : ∀ f ∈ fields, f.1 + f.2.1 ≤ off ∨ off + k ≤ f.1) :
    leAt (e.setFields fields) off k = leAt e off k := by
  unfold Entry.setFields
  induction fields generalizing e with
  | nil => rfl
  | cons f fields ih =>
    obtain ⟨hf, hrest⟩ := List.forall_mem_cons.1 h
    obtain ⟨hf', hrest'⟩ := List.forall_mem_cons.1 hapart
    refine (ih (length_set_eq f.2.2 he hf) hrest hrest').trans ?_
    exact leAt_patch_of_disjoint (by rw [length_natLe, he]; exact hf)
      (by rw [length_natLe]; exact hf')

/-- A field that has been set is read back. -/
theorem Entry.leAt_setFields {e : Entry} {fields : List (Nat × Nat × Nat)} {f : Nat × Nat × Nat}
    (he : e.length = entrySize) (h : ∀ f ∈ fields, f.1 + f.2.1 ≤ entrySize)
    (hpair : fields.Pairwise fun f g => f.1 + f.2.1 ≤ g.1 ∨ g.1 + g.2.1 ≤ f.1) (hf : f ∈ fields) :
    leAt (e.setFields fields) f.1 f.2.1 = f.2.2 % 256 ^ f.2.1 := by
  induction fields generalizing e with
  | nil => exact absurd hf List.not_mem_nil
  | cons g fields ih =>
    obtain ⟨hg, hrest⟩ := List.forall_mem_cons.1 h
    obtain ⟨hpg, hprest⟩ := List.pairwise_cons.1 hpair
    have hlen := length_set_eq g.2.2 he hg
    rcases List.mem_cons.1 hf with rfl | hf
    · refine (leAt_setFields_of_apart hlen hrest fun x hx => (hpg x hx).symm).trans ?_
      exact leAt_patch_self (by rw [he]; exact hg)
    · exact ih hlen hrest hprest hf

/-! ### The order of the types -/

/-- A file, its second entry, `k` entries of its name, and then tails. -/
def FileSet (types : List Nat) (k : Nat) : Prop :=
  ∃ tails, types = entryFile :: entryFileInfo :: (List.replicate k entryFileName ++ tails) ∧
    ∀ x ∈ tails, entryFileTail ≤ x

/-- Behind an entry of the tail come entries of the tail. -/
theorem validTransition_tail {previous current : Nat} (hp : entryFileTail ≤ previous)
    (h : validTransition previous current = true) : entryFileTail ≤ current := by
  unfold validTransition entryNone entryFile entryFileInfo entryFileName at h
  unfold entryFileTail at *
  rw [if_neg (by omega), if_neg (by omega), if_neg (by omega), if_neg (by omega)] at h
  split at h
  · -- a type is never `EXFAT_ENTRY_NONE`, which is negative
    have hnone : ((current : Int) == -1) = false := beq_eq_false_iff_ne.mpr (by omega)
    rw [hnone, Bool.or_false, decide_eq_true_eq] at h
    omega
  · cases h

/-- Behind an entry of the tail come entries of the tail only. -/
theorem checkTransitions_tail {previous : Nat} {types : List Nat} (hp : entryFileTail ≤ previous)
    (h : checkTransitions previous types = true) : ∀ x ∈ types, entryFileTail ≤ x := by
  induction types generalizing previous with
  | nil => exact fun _ hx => absurd hx List.not_mem_nil
  | cons current types ih =>
    rw [checkTransitions, Bool.and_eq_true] at h
    have hc := validTransition_tail hp h.1
    intro x hx
    obtain rfl | hx := List.mem_cons.mp hx
    · exact hc
    · exact ih hc h.2 x hx

/-- Behind a name entry comes a name entry or the tail. -/
theorem validTransition_name {current : Nat}
    (h : validTransition entryFileName current = true) :
    current = entryFileName ∨ entryFileTail ≤ current := by
  unfold validTransition at h
  rw [if_neg (by decide), if_neg (by decide), if_neg (by decide), if_pos rfl] at h
  have hnone : ((current : Int) == entryNone) = false :=
    beq_eq_false_iff_ne.mpr (by unfold entryNone; omega)
  rw [hnone, Bool.or_false, Bool.or_eq_true, beq_iff_eq, decide_eq_true_eq] at h
  exact h.imp Int.ofNat.inj Int.ofNat_le.mp

/-- Behind a name entry come name entries and then the tail. -/
theorem checkTransitions_name {types : List Nat}
    (h : checkTransitions entryFileName types = true) :
    ∃ k tails, types = List.replicate k entryFileName ++ tails ∧
      ∀ x ∈ tails, entryFileTail ≤ x := by
  induction types with
  | nil => exact ⟨0, [], rfl, fun _ hx => absurd hx List.not_mem_nil⟩
  | cons current types ih =>
    rw [checkTransitions, Bool.and_eq_true] at h
    obtain rfl | htail := validTransition_name h.1
    · obtain ⟨k, tails, rfl, htails⟩ := ih h.2
      exact ⟨k + 1, tails, rfl, htails⟩
    · refine ⟨0, current :: types, rfl, fun x hx => ?_⟩
      obtain rfl | hx := List.mem_cons.mp hx
      · exact htail
      · exact checkTransitions_tail htail h.2 x hx

/-- The first three types are fixed. -/
theorem checkTransitions_begin {types : List Nat}
    (h : checkTransitions entryNone types = true) :
    ∃ rest, types = entryFile :: entryFileInfo :: entryFileName :: rest ∧
      checkTransitions entryFileName rest = true := by
  cases types with
  | nil => exact absurd h (by decide)
  -- each step of `check_entries` allows one type only as long as the name has not begun
  | cons a types =>
  rw [checkTransitions, Bool.and_eq_true] at h
  obtain ⟨ha, h⟩ := h
  have ha' : a = entryFile := by
    rw [validTransition, if_pos rfl, beq_iff_eq] at ha
    exact Int.ofNat.inj ha
  subst ha'
  cases types with
  | nil => exact absurd h (by decide)
  | cons b types =>
  rw [checkTransitions, Bool.and_eq_true] at h
  obtain ⟨hb, h⟩ := h
  have hb' : b = entryFileInfo := by
    rw [validTransition, if_neg (by decide), if_pos rfl, beq_iff_eq] at hb
    exact Int.ofNat.inj hb
  subst hb'
  cases types with
  | nil => exact absurd h (by decide)
  | cons c types =>
  rw [checkTransitions, Bool.and_eq_true] at h
  obtain ⟨hc, h⟩ := h
  have hc' : c = entryFileName := by
    rw [validTransition, if_neg (by decide), if_neg (by decide), if_pos rfl, beq_iff_eq] at hc
    exact Int.ofNat.inj hc
  subst hc'
  exact ⟨types, rfl, h⟩

/-- The types of a set that `check_entries` lets through are those of one file. -/
theorem fileSet_of_checkTransitions {types : List Nat}
    (h : checkTransitions entryNone types = true) : ∃ k, 1 ≤ k ∧ FileSet types k := by
  obtain ⟨rest, rfl, hrest⟩ := checkTransitions_begin h
  obtain ⟨k, tails, rfl, htails⟩ := checkTransitions_name hrest
  exact ⟨k + 1, by omega, tails, rfl, htails⟩

/-! ### The checks of the node -/

/-- The repair of a checksum is granted, by the option or by the next answer. -/
def Ef.grants (ef : Ef δ) : Bool :=
  match ef.repair with
  | .no => false
  | .yes => true
  | .ask => ef.answers ef.ticks

/-- A rule that holds leaves the state alone. -/
theorem checkNodeRule_true {bad : Bool} {message : String} {s s' : FileState δ}
    (h : checkNodeRule bad message s = .ok true s') : bad = false ∧ s' = s := by
  unfold checkNodeRule at h
  rw [run_bind_ok (run_get s)] at h
  cases bad with
  | true =>
    rw [if_pos rfl] at h
    obtain ⟨_, _, -, h⟩ := run_bind_eq_ok.mp h
    obtain ⟨_, _, -, h⟩ := run_bind_eq_ok.mp h
    cases h
  | false =>
    rw [if_neg Bool.false_ne_true] at h
    cases h
    exact ⟨rfl, rfl⟩

/-- A routine on the volume that returned. -/
theorem run_onEf_eq_ok {α : Type} {m : EfM δ α} {s s' : FileState δ} {a : α}
    (h : onEf m s = .ok a s') : ∃ ef, m s.ef = .ok a ef ∧ s' = { s with ef := ef } := by
  unfold onEf zoom at h
  cases hm : m s.ef with
  | ok a' ef =>
    rw [hm] at h
    cases h
    exact ⟨ef, rfl, rfl⟩
  | error e ef =>
    rw [hm] at h
    cases h

/-- The name of a node in a message changes nothing. -/
theorem run_exfatGetName_eq_ok {n : Node} {ef ef' : Ef δ} {r : List UInt8}
    (h : exfatGetName n ef = .ok r ef') : ef' = ef := by
  unfold exfatGetName at h
  cases hname : nameUtf8 n.name with
  | ok name =>
    rw [hname] at h
    cases h
    rfl
  | error e =>
    rw [hname] at h
    cases h

/-- What is fixed has been granted. -/
theorem run_exfatAskToFix_eq_ok {ef ef' : Ef δ} (h : exfatAskToFix ef = .ok true ef') :
    ef.grants = true ∧ ef'.sb = ef.sb := by
  unfold exfatAskToFix at h
  unfold Ef.grants
  rw [run_bind_ok (run_get ef)] at h
  cases hrepair : ef.repair with
  | no =>
    rw [hrepair] at h
    cases h
  | yes =>
    rw [hrepair] at h
    cases h
    exact ⟨rfl, rfl⟩
  | ask =>
    rw [hrepair] at h
    dsimp only at h
    rw [run_bind_ok (run_set ef _), run_pure] at h
    have hans := (EStateM.Result.ok.inj h).1
    have hef := (EStateM.Result.ok.inj h).2
    exact ⟨hans, by rw [← hef]⟩

/-- The checksum is right, or its repair is granted. -/
theorem checkNodeChecksum_true {actual stored : Nat} {s s' : FileState δ}
    (h : checkNodeChecksum actual stored s = .ok true s') :
    (actual = stored ∨ s.ef.grants = true) ∧ s'.ef.sb = s.ef.sb ∧
      s'.node = { s.node with isDirty := s'.node.isDirty } := by
  unfold checkNodeChecksum at h
  rw [run_bind_ok (run_get s)] at h
  split at h
  next hne =>
    obtain ⟨_, s₁, h₁, h⟩ := run_bind_eq_ok.mp h
    obtain ⟨ef₁, hname, rfl⟩ := run_onEf_eq_ok h₁
    rw [run_exfatGetName_eq_ok hname] at h
    obtain ⟨_, s₂, h₂, h⟩ := run_bind_eq_ok.mp h
    obtain ⟨ef₂, herror, rfl⟩ := run_onEf_eq_ok h₂
    cases herror
    obtain ⟨answer, s₃, h₃, h⟩ := run_bind_eq_ok.mp h
    obtain ⟨ef₃, hask, rfl⟩ := run_onEf_eq_ok h₃
    cases answer with
    | false => cases h
    | true =>
      obtain ⟨hgrants, hsb⟩ := run_exfatAskToFix_eq_ok hask
      rw [if_pos rfl] at h
      cases h
      exact ⟨.inr hgrants, hsb, rfl⟩
  next heq =>
    cases h
    exact ⟨.inl (not_not.mp heq), rfl, rfl⟩

/-- The sizes of a node agree with each other and with the volume. -/
structure Node.Consistent (n : Node) (sb : SuperBlock) : Prop where
  validSize : n.validSize ≤ n.size
  empty : n.size = 0 → n.startCluster = clusterFree ∧ n.isContiguous = false
  cluster : 0 < n.size → sb.clusterInvalid n.startCluster = false
  heap : n.size ≤ sb.clusterCount * sb.clusterSize
  aligned : n.isDir = true → n.size % sb.clusterSize = 0

/-- A node that `check_node` accepts meets its demands. -/
theorem checkNode_true {actual stored : Nat} {s s' : FileState δ}
    (h : checkNode actual stored s = .ok true s') :
    (actual = stored ∨ s.ef.grants = true) ∧ s.node.Consistent s.ef.sb ∧
      s'.node = { s.node with isDirty := s'.node.isDirty } := by
  unfold checkNode at h
  rw [run_bind_ok (run_get s)] at h
  obtain ⟨ok₁, s₁, h₁, h⟩ := run_bind_eq_ok.mp h
  obtain ⟨ok₂, s₂, h₂, h⟩ := run_bind_eq_ok.mp h
  obtain ⟨ok₃, s₃, h₃, h⟩ := run_bind_eq_ok.mp h
  obtain ⟨ok₄, s₄, h₄, h⟩ := run_bind_eq_ok.mp h
  obtain ⟨ok₅, s₅, h₅, h⟩ := run_bind_eq_ok.mp h
  obtain ⟨ok₆, s₆, h₆, h⟩ := run_bind_eq_ok.mp h
  obtain ⟨ok₇, s₇, h₇, h⟩ := run_bind_eq_ok.mp h
  rw [run_pure] at h
  have hall := (EStateM.Result.ok.inj h).1
  have hs : s₇ = s' := (EStateM.Result.ok.inj h).2
  simp only [Bool.and_eq_true] at hall
  -- all seven checks have passed: their flags are `true`
  obtain ⟨⟨⟨⟨⟨⟨rfl, rfl⟩, rfl⟩, rfl⟩, rfl⟩, rfl⟩, rfl⟩ := hall
  obtain ⟨hsum, -, hnode⟩ := checkNodeChecksum_true h₁
  obtain ⟨r₂, rfl⟩ := checkNodeRule_true h₂
  obtain ⟨r₃, rfl⟩ := checkNodeRule_true h₃
  obtain ⟨r₄, rfl⟩ := checkNodeRule_true h₄
  obtain ⟨r₅, rfl⟩ := checkNodeRule_true h₅
  obtain ⟨r₆, rfl⟩ := checkNodeRule_true h₆
  obtain ⟨r₇, rfl⟩ := checkNodeRule_true h₇
  subst hs
  simp only [decide_eq_false_iff_not, Bool.and_eq_false_iff, not_lt] at r₂ r₃ r₄ r₅ r₆ r₇
  -- Each rule of `check_node` becomes a clause of `Consistent`.
  refine ⟨hsum, ⟨r₂, fun hz => ⟨?_, ?_⟩, fun hpos => ?_, r₅, fun hdir => ?_⟩, hnode⟩
  · simpa [hz] using r₃
  · simpa [hz] using r₆
  · simpa [Nat.not_le.mpr hpos] using r₄
  · simpa [hdir] using r₇

/-! ### From the entries to the node -/

/-- Reading a time at most counts an error. -/
theorem run_readTime_eq_ok {date time centisec tzoffset : Nat} {ef ef' : Ef δ} {r : Int}
    (h : readTime date time centisec tzoffset ef = .ok r ef') :
    ef' = { ef with errors := ef'.errors } ∧
      r = (exfat2unix ef.timezone date time centisec tzoffset).getD 0 := by
  unfold readTime at h
  rw [run_bind_ok (run_get ef)] at h
  cases htime : exfat2unix ef.timezone date time centisec tzoffset with
  | some t =>
    rw [htime] at h
    cases h
    exact ⟨rfl, rfl⟩
  | none =>
    rw [htime] at h
    cases h
    exact ⟨rfl, rfl⟩

/-- The time of the last change that an entry says. -/
def Entry.mtimeUnix (tz : Int) (meta1 : Entry) : Int :=
  (exfat2unix tz meta1.mdate meta1.mtime meta1.mtimeCs meta1.mtimeTzo).getD 0

/-- `init_node_meta1` reads the fields of the first entry. -/
theorem run_initNodeMeta1_eq_ok {meta1 : Entry} {s s' : FileState δ}
    (h : initNodeMeta1 meta1 s = .ok ⟨⟩ s') :
    s'.ef = { s.ef with errors := s'.ef.errors } ∧
      s'.node = { s.node with
        attrib := meta1.attrib, continuations := meta1.continuations
        mtime := meta1.mtimeUnix s.ef.timezone, atime := s'.node.atime } := by
  unfold initNodeMeta1 modifyNode at h
  rw [run_bind_ok (run_modify _ s)] at h
  obtain ⟨mtime, s₁, h₁, h⟩ := run_bind_eq_ok.mp h
  obtain ⟨ef₁, hm, rfl⟩ := run_onEf_eq_ok h₁
  rw [run_bind_ok (run_modify _ _)] at h
  obtain ⟨atime, s₂, h₂, h⟩ := run_bind_eq_ok.mp h
  obtain ⟨ef₂, ha, rfl⟩ := run_onEf_eq_ok h₂
  cases h
  obtain ⟨hm', rfl⟩ := run_readTime_eq_ok hm
  obtain ⟨ha', rfl⟩ := run_readTime_eq_ok ha
  dsimp only at hm' ha' ⊢
  exact ⟨by rw [ha', hm'], rfl⟩

/-- The units that the first `k` entries of the name hold. -/
def nameFields (entries : List Entry) (k : Nat) : List Nat :=
  (((entries.drop 2).take k).map Entry.units).flatten

/-- What `parse_file_entries` has made sure of when it accepts a set and fills in the node `n`. -/
structure Accepted (ef : Ef δ) (entries : List Entry) (n : Node) : Prop where
  types : checkTransitions entryNone (entries.map Entry.type) = true
  enough : mandatoryEntries (entries.getD 1 []).nameLength ≤ 1 + (entries.getD 0 []).continuations
  flags : (entries.getD 1 []).flags &&& 0xfc = 0
  checksum : exfatCalcChecksum entries = (entries.getD 0 []).checksum ∨ ef.grants = true
  attrib : n.attrib = (entries.getD 0 []).attrib
  validSize : n.validSize = (entries.getD 1 []).validSize
  size : n.size = (entries.getD 1 []).size
  startCluster : n.startCluster = (entries.getD 1 []).startCluster
  isContiguous : n.isContiguous = (entries.getD 1 []).flags.testBit 1
  consistent : n.Consistent ef.sb
  name : n.name = nameFields entries (divRoundUp (entries.getD 1 []).nameLength enameMax)

/-- The flag for dirty nodes is not looked at. -/
theorem Node.Consistent.dirty {n : Node} {sb : SuperBlock} (h : n.Consistent sb) (dirty : Bool) :
    { n with isDirty := dirty }.Consistent sb :=
  ⟨h.validSize, h.empty, h.cluster, h.heap, h.aligned⟩

/-- What `parse_file_entries` goes through when it accepts a set. -/
theorem run_parseFileEntries_eq_ok {entries : List Entry} {ef : Ef δ} {node : Node}
    {s' : FileState δ} (h : parseFileEntries entries ⟨ef, node⟩ = .ok (.ok ()) s') :
    checkTransitions entryNone (entries.map Entry.type) = true ∧
      mandatoryEntries (entries.getD 1 []).nameLength ≤ 1 + (entries.getD 0 []).continuations ∧
      (entries.getD 1 []).flags &&& 0xfc = 0 ∧ ∃ ef₁ atime, ef₁ = { ef with errors := ef₁.errors } ∧
        checkNode (exfatCalcChecksum entries) (entries.getD 0 []).checksum ⟨ef₁, { node with
          attrib := (entries.getD 0 []).attrib, continuations := (entries.getD 0 []).continuations
          mtime := (entries.getD 0 []).mtimeUnix ef.timezone, atime := atime
          validSize := (entries.getD 1 []).validSize, size := (entries.getD 1 []).size
          startCluster := (entries.getD 1 []).startCluster, fptrCluster :=
            (entries.getD 1 []).startCluster
          isContiguous := (entries.getD 1 []).flags.testBit 1
          name := nameFields entries (divRoundUp (entries.getD 1 []).nameLength enameMax) }⟩ =
            .ok true s' := by
  unfold parseFileEntries at h
  obtain ⟨ok, s₁, h₁, h⟩ := run_bind_eq_ok.mp h
  obtain ⟨ef₁, hcheck, rfl⟩ := run_onEf_eq_ok h₁
  -- the transitions of the types
  unfold checkEntries at hcheck
  split at hcheck
  swap
  · cases hcheck
    cases h
  next htypes =>
  cases hcheck
  rw [if_neg (by decide)] at h
  dsimp only at h
  -- then the number of entries, the flags and the length of the name, in this order
  split at h
  · cases h
  next hcont =>
  split at h
  · cases h
  next hflags =>
  split at h
  · cases h
  next henough =>
  obtain ⟨_, s₂, h₂, h⟩ := run_bind_eq_ok.mp h
  obtain ⟨hef₂, hnode₂⟩ := run_initNodeMeta1_eq_ok h₂
  unfold initNodeMeta2 initNodeName modifyNode at h
  rw [run_bind_ok (run_modify _ s₂), run_bind_ok (run_modify _ _)] at h
  obtain ⟨ok, s₃, h₃, h⟩ := run_bind_eq_ok.mp h
  -- what has been read into the node stands when `check_node` is asked
  cases ok with
  | false => cases h
  | true =>
  cases h
  -- the two entries before the name are counted among the mandatory ones
  have hm : ∀ len, mandatoryEntries len - 2 = divRoundUp len enameMax := fun len => by
    unfold mandatoryEntries
    omega
  dsimp only at h₃
  rw [hnode₂, hm] at h₃
  exact ⟨htypes, by omega, not_not.mp hflags, s₂.ef, s₂.node.atime, hef₂, h₃⟩

/-- What `parse_file_entries` accepts is a set of entries. -/
theorem accepted_of_parseFileEntries {entries : List Entry} {ef : Ef δ} {node : Node}
    {s' : FileState δ} (h : parseFileEntries entries ⟨ef, node⟩ = .ok (.ok ()) s') :
    Accepted ef entries s'.node := by
  obtain ⟨htypes, henough, hflags, ef₁, atime, hef₁, hcheck⟩ := run_parseFileEntries_eq_ok h
  obtain ⟨hsum, hcons, hnode⟩ := checkNode_true hcheck
  dsimp only at hsum hcons hnode
  have hgrants : ef₁.grants = ef.grants := by
    rw [hef₁]
    rfl
  have hsb : ef₁.sb = ef.sb := by rw [hef₁]
  rw [hgrants] at hsum
  rw [hsb] at hcons
  refine ⟨htypes, henough, hflags, hsum, ?_, ?_, ?_, ?_, ?_, ?_, ?_⟩
  · rw [hnode]
  · rw [hnode]
  · rw [hnode]
  · rw [hnode]
  · rw [hnode]
  · rw [hnode]
    exact hcons.dirty _
  · rw [hnode]

/-- What is filled in besides the directory has been accepted. -/
theorem accepted_of_withNode {entries : List Entry} {ef ef' : Ef δ} {node n : Node}
    (h : withNode node (parseFileEntries entries) ef = .ok (.ok (), n) ef') :
    Accepted ef entries n := by
  unfold withNode at h
  cases hparse : parseFileEntries entries ⟨ef, node⟩ with
  | error e s =>
    rw [hparse] at h
    cases h
  | ok rc s =>
    rw [hparse] at h
    cases h
    exact accepted_of_parseFileEntries hparse

/-- The time of the last change is the one that the first entry says. -/
theorem mtime_of_parseFileEntries {entries : List Entry} {ef : Ef δ} {node : Node}
    {s' : FileState δ} (h : parseFileEntries entries ⟨ef, node⟩ = .ok (.ok ()) s') :
    s'.node.mtime = (entries.getD 0 []).mtimeUnix ef.timezone := by
  obtain ⟨-, -, -, ef₁, atime, -, hcheck⟩ := run_parseFileEntries_eq_ok h
  obtain ⟨-, -, hnode⟩ := checkNode_true hcheck
  rw [hnode]

/-! ### The name -/

/-- A name entry holds fifteen units. -/
theorem length_units (e : Entry) : e.units.length = enameMax := by
  rw [Entry.units, List.length_map, List.length_range]

/-- The units of fewer entries are the first ones of those of more. -/
theorem flatten_units_take (es : List Entry) {m k : Nat} (h : m ≤ k) :
    ((es.take m).map Entry.units).flatten = (((es.take k).map Entry.units).flatten).take
    (m * enameMax) := by
  induction m generalizing es k with
  | zero => simp
  | succ m ih =>
    obtain ⟨k, rfl⟩ : ∃ j, k = j + 1 := ⟨k - 1, by omega⟩
    cases es with
    | nil => simp
    | cons e es =>
      have hle : e.units.length ≤ (m + 1) * enameMax := by
        rw [length_units]
        exact Nat.le_mul_of_pos_left _ (Nat.succ_pos m)
      have hrest : (m + 1) * enameMax - enameMax = m * enameMax := by
        rw [Nat.succ_mul, Nat.add_sub_cancel]
      rw [List.take_succ_cons, List.take_succ_cons, List.map_cons, List.map_cons, List.flatten_cons,
        List.flatten_cons, ih es (k := k) (by omega), List.take_append, List.take_of_length_le hle,
        length_units, hrest]

/-- The name entries hold fifteen units each. -/
theorem length_nameFields_le (entries : List Entry) (k : Nat) :
    (nameFields entries k).length ≤ k * enameMax := by
  unfold nameFields
  rw [flatten_units_take _ (le_refl k), List.length_take]
  omega

/-- The name is cut at its length if as many entries as it takes hold it, and nothing stands behind
it in the last of them. -/
theorem nameFields_exact {entries : List Entry} {len k : Nat} (hk : divRoundUp len enameMax ≤ k)
    (hpad : len % enameMax = 0 ∨ (nameFields entries k).getD len 0 = 0) :
    (nameFields entries (divRoundUp len enameMax)).take len = (nameFields entries k).take len ∧
      (nameFields entries (divRoundUp len enameMax)).getD len 0 = 0 := by
  have hle : len ≤ divRoundUp len enameMax * enameMax := le_divRoundUp_mul len (by decide)
  have hcut : nameFields entries (divRoundUp len enameMax) =
      (nameFields entries k).take (divRoundUp len enameMax * enameMax) := flatten_units_take _ hk
  constructor
  · rw [hcut, List.take_take, Nat.min_eq_left hle]
  · by_cases hlt : len < divRoundUp len enameMax * enameMax
    · obtain hpad | hpad := hpad
      · -- a length that fills its entries is not below their end
        have := divRoundUp_mul_lt (x := len) (d := enameMax) (by decide)
        have hmod : divRoundUp len enameMax * enameMax % enameMax = 0 := Nat.mul_mod_left _ _
        unfold enameMax at *
        omega
      · rw [hcut, List.getD_eq_getElem?_getD,
          List.getElem?_take_of_lt hlt, ← List.getD_eq_getElem?_getD]
        exact hpad
    · have hend := length_nameFields_le entries (divRoundUp len enameMax)
      rw [List.getD_eq_getElem?_getD, List.getElem?_eq_none (by omega)]
      rfl

/-- What `parse_file_entries` accepts, and the name it takes from it.  A checksum may be wrong only
if its repair is granted. -/
theorem parseFileEntries_accepts {entries : List Entry} {ef : Ef δ} {node : Node}
    {s' : FileState δ} (hlen : entries.length = 1 + (entries.getD 0 []).continuations)
    (h : parseFileEntries entries ⟨ef, node⟩ = .ok (.ok ()) s') :
    Accepted ef entries s'.node ∧
    mandatoryEntries (entries.getD 1 []).nameLength ≤ entries.length ∧
    ∃ k, 1 ≤ k ∧ FileSet (entries.map Entry.type) k ∧
      (divRoundUp (entries.getD 1 []).nameLength enameMax ≤ k →
        (entries.getD 1 []).nameLength % enameMax = 0 ∨
          (nameFields entries k).getD (entries.getD 1 []).nameLength 0 = 0 →
        s'.node.name.take (entries.getD 1 []).nameLength =
            (nameFields entries k).take (entries.getD 1 []).nameLength ∧
          s'.node.name.getD (entries.getD 1 []).nameLength 0 = 0) := by
  have hacc := accepted_of_parseFileEntries h
  obtain ⟨k, hk, hset⟩ := fileSet_of_checkTransitions hacc.types
  refine ⟨hacc, by rw [hlen]; exact hacc.enough, k, hk, hset, fun henough hpad => ?_⟩
  rw [hacc.name]
  exact nameFields_exact henough hpad

/-- A first entry with `continuations` more behind it, a second entry with the length of a name, and
then `rest`. -/
def setOf (continuations sum length : Nat) (rest : List Entry) : List Entry :=
  let zero : Entry := List.replicate entrySize 0
  Entry.setFields zero [(0, 1, entryFile), (1, 1, continuations), (2, 2, sum), (4, 2, 0x20)] ::
    Entry.setFields zero [(0, 1, entryFileInfo), (1, 1, 1), (3, 1, length)] :: rest

/-- An entry of the given type that holds the given units. -/
def unitsEntry (type : Nat) (units : List (Nat × Nat × Nat)) : Entry :=
  Entry.setFields (List.replicate entrySize 0) ((0, 1, type) :: units)

/-- The entries of a file `"a"` that is empty, with the checksum `sum`. -/
def smallSet (sum : Nat) : List Entry := setOf 2 sum 1 [unitsEntry entryFileName [(2, 2, 0x61)]]

/-- A name of sixteen units, of which an entry of type `FILE_TAIL` holds the last one. -/
def tailSet : List Entry :=
  setOf 3 5174 16 [unitsEntry entryFileName [(2, 2, 0x61)], unitsEntry entryFileTail [(2, 2, 0x62)]]

/-- A name of one unit, with another one behind it. -/
def paddedSet : List Entry :=
  setOf 2 6822 1 [unitsEntry entryFileName [(2, 2, 0x61), (4, 2, 0x62)]]

/-- A volume in which `repair` says what to do with errors. -/
def repairing (repair : RepairMode) : FileState Flat :=
  ⟨{ dev := ⟨fun _ => 0, 0⟩, sb := ⟨[]⟩, repair := repair }, {}⟩

/-- The set with its own checksum. -/
theorem parseFileEntries_accepts_small :
    ∃ s', parseFileEntries (smallSet 3686) (repairing .no) = .ok (.ok ()) s' ∧
      Accepted (repairing .no).ef (smallSet 3686) s'.node ∧
      ∃ k, 1 ≤ k ∧ FileSet ((smallSet 3686).map Entry.type) k := by
  have hrun := eq_of_valueOf (r := parseFileEntries (smallSet 3686) (repairing .no)) (a := .ok ())
    (by decide +kernel)
  obtain ⟨hacc, -, k, hk, hfile, -⟩ := parseFileEntries_accepts (by decide) hrun
  exact ⟨_, hrun, hacc, k, hk, hfile⟩

/-- A set whose checksum is wrong is accepted when it is to be repaired.  With the right checksum
the entry behind the only one of the name gives the last unit of the name, and the unit behind the
name becomes a part of it. -/
theorem parseFileEntries_repairs :
    ((smallSet 0).length = 1 + ((smallSet 0).getD 0 []).continuations ∧
      (∃ s', parseFileEntries (smallSet 0) (repairing .yes) = .ok (.ok ()) s') ∧
      exfatCalcChecksum (smallSet 0) ≠ ((smallSet 0).getD 0 []).checksum) ∧
    (tailSet.length = 1 + (tailSet.getD 0 []).continuations ∧
      (∃ s', parseFileEntries tailSet (repairing .no) = .ok (.ok ()) s' ∧
        s'.node.name.getD 15 0 = 0x62) ∧
      FileSet (tailSet.map Entry.type) 1 ∧
      1 < divRoundUp (tailSet.getD 1 []).nameLength enameMax) ∧
    (paddedSet.length = 1 + (paddedSet.getD 0 []).continuations ∧
      (∃ s', parseFileEntries paddedSet (repairing .no) = .ok (.ok ()) s' ∧
        s'.node.name.getD (paddedSet.getD 1 []).nameLength 0 = 0x62) ∧
      FileSet (paddedSet.map Entry.type) 1) := by
  have hsmall : valueOf (parseFileEntries (smallSet 0) (repairing .yes)) = some (.ok ()) := by
    decide +kernel
  have htail := eq_of_valueOf (r := parseFileEntries tailSet (repairing .no)) (a := .ok ())
    (by decide +kernel)
  have hpadded := eq_of_valueOf (r := parseFileEntries paddedSet (repairing .no)) (a := .ok ())
    (by decide +kernel)
  refine ⟨⟨by decide, ⟨_, eq_of_valueOf hsmall⟩, by decide +kernel⟩,
    ⟨by decide, ⟨_, htail, ?_⟩, ⟨[entryFileTail], by decide, by decide⟩, by decide⟩,
    ⟨by decide, ⟨_, hpadded, ?_⟩, ⟨[], by decide, by decide⟩⟩⟩
  · rw [(accepted_of_parseFileEntries htail).name]
    decide +kernel
  · rw [(accepted_of_parseFileEntries hpadded).name]
    decide +kernel

end ExFat
