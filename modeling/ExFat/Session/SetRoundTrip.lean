import ExFat.Amiga.SetDate
import ExFat.Fs.Create
import ExFat.Fs.Transcode

namespace ExFat

open Bytes Program

/-!
# Sets of entries are read as they were written

Three routines write the set of entries of a file, and one reads it.

* `newEntries` is what `commit_entry` writes: `newEntries_accepted_iff` says that it is accepted if
  and only if the name is not empty.
* `flushedEntries` is what `exfat_flush_node` makes of a set: `flushedEntries_accepted_iff`.
* `renamedEntries` is what `rename_entry` makes of one: `renamedEntries_accepted_iff`.

`parse_file_entries` fills in the node that `parsedNode` says.
-/

variable {δ : Type}

/-! ### Sums -/

/-- A checksum has 16 bits. -/
theorem addChecksumByte_lt (sum : Nat) (byte : UInt8) : addChecksumByte sum byte < 2 ^ 16 :=
  Nat.mod_lt _ (by decide)

/-- A checksum has 16 bits. -/
theorem exfatAddChecksum_lt {entry : List UInt8} {sum : Nat} (h : sum < 2 ^ 16) :
    exfatAddChecksum entry sum < 2 ^ 16 := by
  unfold exfatAddChecksum
  induction entry generalizing sum with
  | nil => exact h
  | cons b bs ih => exact ih (addChecksumByte_lt sum b)

/-- A checksum has 16 bits. -/
theorem exfatStartChecksum_lt (entry : List UInt8) : exfatStartChecksum entry < 2 ^ 16 := by
  unfold exfatStartChecksum
  suffices h : ∀ (l : List Nat) (sum : Nat), sum < 2 ^ 16 → l.foldl
      (fun sum i => if i ≠ 2 ∧ i ≠ 3 then addChecksumByte sum (entry.getD i 0) else sum) sum <
      2 ^ 16 from
    h _ 0 (by decide)
  intro l
  induction l with
  | nil => exact fun _ h => h
  | cons i l ih =>
    intro sum h
    refine ih _ ?_
    dsimp only
    split
    · exact addChecksumByte_lt _ _
    · exact h

/-- A checksum has 16 bits. -/
theorem exfatCalcChecksum_lt (entries : List Entry) : exfatCalcChecksum entries < 2 ^ 16 := by
  cases entries with
  | nil => decide
  | cons entry entries =>
    unfold exfatCalcChecksum
    suffices h : ∀ sum, sum < 2 ^ 16 →
        entries.foldl (fun sum e => exfatAddChecksum e sum) sum < 2 ^ 16 from h _
        (exfatStartChecksum_lt _)
    induction entries with
    | nil => exact fun _ h => h
    | cons e es ih => exact fun sum h => ih _ (exfatAddChecksum_lt h)

/-- The sum leaves out the bytes it is stored in. -/
theorem exfatStartChecksum_set {e : Entry} (he : e.length = entrySize) (v : Nat) :
    exfatStartChecksum (e.set 2 2 v) = exfatStartChecksum e := by
  unfold exfatStartChecksum
  refine List.foldl_ext _ _ _ fun sum i _ => ?_
  split
  next hi =>
    unfold Entry.set
    rw [getD_patch (by rw [length_natLe, he]; decide), length_natLe, if_neg (by omega)]
  · rfl

/-- A set that has been sealed has the sum it says. -/
theorem exfatCalcChecksum_sealEntries {es : List Entry} (hes : ∀ e ∈ es, e.length = entrySize)
    (hne : es ≠ []) :
    exfatCalcChecksum (sealEntries es) = ((sealEntries es).getD 0 []).checksum := by
  cases es with
  | nil => exact absurd rfl hne
  | cons meta1 rest =>
    have hlen : meta1.length = entrySize := hes meta1 List.mem_cons_self
    have hsum : exfatCalcChecksum (sealEntries (meta1 :: rest)) =
        exfatCalcChecksum (meta1 :: rest) :=
      congrArg (fun sum => rest.foldl (fun sum e => exfatAddChecksum e sum) sum)
        (exfatStartChecksum_set hlen _)
    have hstored : ((sealEntries (meta1 :: rest)).getD 0 []).checksum =
        exfatCalcChecksum (meta1 :: rest) % 256 ^ 2 := leAt_patch_self (by rw [hlen]; decide)
    rw [hsum, hstored]
    exact (Nat.mod_eq_of_lt (exfatCalcChecksum_lt _)).symm

/-- Sealing a set changes no field but the sum. -/
theorem leAt_seal {e : Entry} (he : e.length = entrySize) {off k : Nat} (h : off + k ≤ 2 ∨ 4 ≤ off)
    (v : Nat) : leAt (e.set 2 2 v) off k = leAt e off k := by
  refine leAt_patch_of_disjoint (by rw [length_natLe, he]; decide) ?_
  rw [length_natLe]
  omega

/-! ### Reading a set -/

/-- The time of the last access that an entry says; there are no centiseconds for it. -/
def Entry.atimeUnix (tz : Int) (meta1 : Entry) : Int :=
  (exfat2unix tz meta1.adate meta1.atime 0 meta1.atimeTzo).getD 0

/-- The node that `parse_file_entries` makes of a set. -/
def parsedNode (tz : Int) (entries : List Entry) (node : Node) : Node :=
  let meta1 := entries.getD 0 []
  let meta2 := entries.getD 1 []
  { node with
    attrib := meta1.attrib, continuations := meta1.continuations
    mtime := meta1.mtimeUnix tz, atime := meta1.atimeUnix tz
    validSize := meta2.validSize, size := meta2.size
    startCluster := meta2.startCluster, fptrCluster := meta2.startCluster
    isContiguous := meta2.flags.testBit 1
    name := nameFields entries (divRoundUp meta2.nameLength enameMax) }

/-- Reading a time at most counts an error. -/
theorem run_readTime (date time centisec tzoffset : Nat) (ef : Ef δ) :
    ∃ errors, readTime date time centisec tzoffset ef =
      .ok ((exfat2unix ef.timezone date time centisec tzoffset).getD 0)
      { ef with errors := errors } := by
  unfold readTime
  rw [run_bind_ok (run_get ef)]
  cases exfat2unix ef.timezone date time centisec tzoffset with
  | some t => exact ⟨ef.errors, rfl⟩
  | none => exact ⟨ef.errors + 1, rfl⟩

/-- `init_node_meta1` reads the fields of the first entry. -/
theorem run_initNodeMeta1 (meta1 : Entry) (s : FileState δ) :
    ∃ errors, initNodeMeta1 meta1 s = .ok ⟨⟩ ⟨{ s.ef with errors := errors }, { s.node with
      attrib := meta1.attrib, continuations := meta1.continuations
      mtime := meta1.mtimeUnix s.ef.timezone, atime := meta1.atimeUnix s.ef.timezone }⟩ := by
  obtain ⟨errors₁, hm⟩ := run_readTime meta1.mdate meta1.mtime meta1.mtimeCs meta1.mtimeTzo s.ef
  obtain ⟨errors₂, ha⟩ := run_readTime meta1.adate meta1.atime 0 meta1.atimeTzo
    { s.ef with errors := errors₁ }
  have hm' : ∀ n : Node, onEf (readTime meta1.mdate meta1.mtime meta1.mtimeCs meta1.mtimeTzo)
      ⟨s.ef, n⟩ =
      .ok (meta1.mtimeUnix s.ef.timezone) ⟨{ s.ef with errors := errors₁ }, n⟩ := fun n =>
    run_onEf_ok (s := ⟨s.ef, n⟩) hm
  have ha' : ∀ n : Node, onEf (readTime meta1.adate meta1.atime 0 meta1.atimeTzo)
      ⟨{ s.ef with errors := errors₁ }, n⟩ =
      .ok (meta1.atimeUnix s.ef.timezone) ⟨{ s.ef with errors := errors₂ }, n⟩ := fun n =>
    run_onEf_ok (s := ⟨{ s.ef with errors := errors₁ }, n⟩) ha
  refine ⟨errors₂, ?_⟩
  unfold initNodeMeta1 modifyNode
  rw [run_bind_ok (run_modify _ s), run_bind_ok (hm' _), run_bind_ok (run_modify _ _),
    run_bind_ok (ha' _)]
  rfl

/-- A node whose sizes agree passes, if the sum is right. -/
theorem run_checkNode {s : FileState δ} (sum : Nat) (h : s.node.Consistent s.ef.sb) :
    checkNode sum sum s = .ok true s := by
  have hsum : checkNodeChecksum sum sum s = .ok true s := by
    unfold checkNodeChecksum
    rw [run_bind_ok (run_get s), if_neg (not_not.2 rfl)]
    rfl
  have h₂ : decide (s.node.validSize > s.node.size) = false :=
    decide_eq_false (Nat.not_lt.2 h.validSize)
  have h₃ : (decide (s.node.size = 0) && decide (s.node.startCluster ≠ clusterFree)) = false := by
    by_cases hz : s.node.size = 0
    · simp [(h.empty hz).1]
    · simp [hz]
  have h₄ : (decide (s.node.size > 0) && s.ef.sb.clusterInvalid s.node.startCluster) = false := by
    by_cases hpos : 0 < s.node.size
    · simp [h.cluster hpos]
    · simp [Nat.eq_zero_of_not_pos hpos]
  have h₅ : decide (s.node.size > s.ef.sb.clusterCount * s.ef.sb.clusterSize) = false :=
    decide_eq_false (Nat.not_lt.2 h.heap)
  have h₆ : (decide (s.node.size = 0) && s.node.isContiguous) = false := by
    by_cases hz : s.node.size = 0
    · simp [(h.empty hz).2]
    · simp [hz]
  have h₇ : (s.node.isDir && decide (s.node.size % s.ef.sb.clusterSize ≠ 0)) = false := by
    by_cases hd : s.node.isDir = true
    · simp [h.aligned hd]
    · simp [hd]
  unfold checkNode
  rw [run_bind_ok (run_get s), run_bind_ok hsum, h₂, h₃, h₄, h₅, h₆, h₇]
  rfl

/-- What a set needs to be accepted, its sum and its sizes apart. -/
structure WellFormedSet (entries : List Entry) : Prop where
  types : checkTransitions entryNone (entries.map Entry.type) = true
  continuations : 2 ≤ (entries.getD 0 []).continuations
  flags : (entries.getD 1 []).flags &&& 0xfc = 0
  enough : mandatoryEntries (entries.getD 1 []).nameLength ≤ 1 + (entries.getD 0 []).continuations

/-- A set with the right sum and sizes that agree is accepted. -/
theorem run_parseFileEntries {entries : List Entry} {ef : Ef δ} {node : Node}
    (h : WellFormedSet entries) (hsum : exfatCalcChecksum entries = (entries.getD 0 []).checksum)
    (hcons : (parsedNode ef.timezone entries node).Consistent ef.sb) :
    ∃ errors, parseFileEntries entries ⟨ef, node⟩ =
      .ok (.ok ()) ⟨{ ef with errors := errors }, parsedNode ef.timezone entries node⟩ := by
  obtain ⟨errors, hmeta1⟩ := run_initNodeMeta1 (entries.getD 0 []) ⟨ef, node⟩
  have hcheck : checkEntries entries ef = .ok true ef := by
    unfold checkEntries
    rw [h.types]
    rfl
  have hm : ∀ len, mandatoryEntries len - 2 = divRoundUp len enameMax := fun len => by
    unfold mandatoryEntries
    omega
  have henough := h.enough
  have hcont := h.continuations
  refine ⟨errors, ?_⟩
  unfold parseFileEntries
  rw [run_bind_ok (run_onEf_ok (s := ⟨ef, node⟩) hcheck), if_neg (by decide)]
  dsimp only
  rw [if_neg (by omega), if_neg (not_not.2 h.flags), if_neg (by omega), run_bind_ok hmeta1]
  unfold initNodeMeta2 initNodeName modifyNode
  rw [run_bind_ok (run_modify _ _), run_bind_ok (run_modify _ _), hm, hsum]
  have hnode : checkNode (entries.getD 0 []).checksum (entries.getD 0 []).checksum
      ⟨{ ef with errors := errors }, parsedNode ef.timezone entries node⟩ =
        .ok true ⟨{ ef with errors := errors }, parsedNode ef.timezone entries node⟩ :=
          run_checkNode _ hcons
  exact run_bind_ok hnode

instance (n : Node) (sb : SuperBlock) : Decidable (n.Consistent sb) :=
  decidable_of_iff (n.validSize ≤ n.size ∧
    (n.size = 0 → n.startCluster = clusterFree ∧ n.isContiguous = false) ∧
      (0 < n.size → sb.clusterInvalid n.startCluster = false) ∧
      n.size ≤ sb.clusterCount * sb.clusterSize ∧
      (n.isDir = true → n.size % sb.clusterSize = 0))
    ⟨fun ⟨h₁, h₂, h₃, h₄, h₅⟩ => ⟨h₁, h₂, h₃, h₄, h₅⟩, fun ⟨h₁, h₂, h₃, h₄, h₅⟩ =>
      ⟨h₁, h₂, h₃, h₄, h₅⟩⟩

/-- The fields of a node that `check_node` looks at. -/
theorem Node.Consistent.congr {n m : Node} {sb : SuperBlock} (h : n.Consistent sb)
    (hattrib : m.attrib = n.attrib) (hvalid : m.validSize = n.validSize) (hsize : m.size = n.size)
    (hstart : m.startCluster = n.startCluster) (hcontig : m.isContiguous = n.isContiguous) :
    m.Consistent sb := by
  have hdir : m.isDir = n.isDir := by
    unfold Node.isDir
    rw [hattrib]
  refine ⟨?_, fun hz => ?_, fun hpos => ?_, ?_, fun hd => ?_⟩
  · rw [hvalid, hsize]
    exact h.validSize
  · rw [hstart, hcontig]
    exact h.empty (hsize ▸ hz)
  · rw [hstart]
    exact h.cluster (hsize ▸ hpos)
  · rw [hsize]
    exact h.heap
  · rw [hsize]
    exact h.aligned (hdir ▸ hd)

/-- A set with the right sum and the right number of entries. -/
structure SealedSet (entries : List Entry) : Prop where
  sum : exfatCalcChecksum entries = (entries.getD 0 []).checksum
  count : entries.length = 1 + (entries.getD 0 []).continuations

/-- A sealed set is accepted exactly if it is well formed and its sizes agree. -/
theorem SealedSet.accepted_iff {entries : List Entry} {ef : Ef δ} {node : Node}
    (hsealed : SealedSet entries) :
    (∃ s, parseFileEntries entries ⟨ef, node⟩ = .ok (.ok ()) s) ↔
      WellFormedSet entries ∧ (parsedNode ef.timezone entries node).Consistent ef.sb := by
  have hcount := hsealed.count
  constructor
  · rintro ⟨s, hrun⟩
    have hacc := accepted_of_parseFileEntries hrun
    obtain ⟨rest, htypes, -⟩ := checkTransitions_begin hacc.types
    have hlen := congrArg List.length htypes
    rw [List.length_map, hcount] at hlen
    simp only [List.length_cons] at hlen
    refine ⟨⟨hacc.types, by omega, hacc.flags, hacc.enough⟩, ?_⟩
    exact hacc.consistent.congr hacc.attrib.symm hacc.validSize.symm hacc.size.symm
      hacc.startCluster.symm
      hacc.isContiguous.symm
  · rintro ⟨h, hcons⟩
    obtain ⟨errors, hrun⟩ := run_parseFileEntries h hsealed.sum hcons
    exact ⟨_, hrun⟩

/-- What is accepted of a sealed set is what it says. -/
theorem SealedSet.node_eq {entries : List Entry} {ef : Ef δ} {node : Node} {s : FileState δ}
    (hsealed : SealedSet entries) (hrun : parseFileEntries entries ⟨ef, node⟩ = .ok (.ok ()) s) :
    s.node = parsedNode ef.timezone entries node := by
  obtain ⟨h, hcons⟩ := hsealed.accepted_iff.1 ⟨s, hrun⟩
  obtain ⟨errors, hrun'⟩ := run_parseFileEntries h hsealed.sum hcons
  rw [hrun] at hrun'
  cases hrun'
  rfl

/-! ### The name -/

/-- The units of an entry of the name are read back. -/
theorem units_nameEntry {us : List Nat} (hlen : us.length = enameMax) (h : ∀ x ∈ us, x < 2 ^ 16) :
    (nameEntry us).units = us := by
  refine List.ext_getElem ((length_units _).trans hlen.symm) fun i hi hi' => ?_
  have hat : ∀ j < 2, (nameEntry us).getD (2 + 2 * i + j) 0 = (natLe 2 (us.getD i 0)).getD j 0 := by
    intro j hj
    rw [← getD_flatten_natLe 2 us hi' hj, ← List.flatMap_def]
    unfold nameEntry
    rw [show 2 + 2 * i + j = 2 * i + j + 1 + 1 by omega]
    rfl
  have hlt : us.getD i 0 < 256 ^ 2 := by
    rw [List.getD_eq_getElem us 0 hi']
    exact h _ (List.getElem_mem hi')
  have hword : leAt (nameEntry us) (2 + 2 * i) 2 = us.getD i 0 := by
    rw [← leNat_natLe_of_lt (k := 2) hlt]
    unfold leAt
    congr 1
    refine List.ext_getElem (by simp) fun j hj hj' => ?_
    rw [length_natLe] at hj'
    simp only [List.getElem_map, List.getElem_range]
    rw [hat j hj', List.getD_eq_getElem _ _ (by rwa [length_natLe])]
  rw [← List.getD_eq_getElem us 0 hi']
  simp only [Entry.units, List.getElem_map, List.getElem_range]
  exact hword

/-- A name entry has the type of one. -/
theorem type_nameEntry (us : List Nat) : (nameEntry us).type = entryFileName := rfl

/-- A name entry holds its units. -/
theorem length_nameEntry (us : List Nat) : (nameEntry us).length = 2 + 2 * us.length := by
  unfold nameEntry
  rw [List.length_append]
  congr 1
  induction us with
  | nil => rfl
  | cons x us ih =>
    rw [List.flatMap_cons, List.length_append, length_natLe, ih, List.length_cons]
    omega

/-- The chunks of a list, put together again. -/
theorem flatten_chunks {α : Type} (l : List α) (k m : Nat) :
    ((List.range m).map fun i => (l.drop (i * k)).take k).flatten = l.take (m * k) := by
  induction m with
  | zero => simp
  | succ m ih =>
    rw [List.range_succ, List.map_append, List.flatten_append, ih, Nat.succ_mul, List.take_add]
    simp

section Name

variable {name : List Nat}

/-- The name is cut into pieces of fifteen units. -/
theorem length_nameChunk (hlen : utf16Length name ≤ nameMax) {i : Nat} (hi : i < nameEntries name) :
    (((nameUnits name).drop (i * enameMax)).take enameMax).length = enameMax := by
  have hk : nameEntries name ≤ 17 := by
    unfold nameEntries
    rw [divRoundUp_le_iff (by decide)]
    exact hlen
  have hi' : i ≤ 16 := by omega
  rw [List.length_take, List.length_drop, length_nameUnits]
  unfold nameMax enameMax
  omega

/-- The name entries are entries. -/
theorem length_of_mem_entriesOfName (hlen : utf16Length name ≤ nameMax) :
    ∀ e ∈ entriesOfName name, e.length = entrySize := by
  intro e he
  obtain ⟨i, hi, rfl⟩ := List.mem_map.1 he
  rw [length_nameEntry, length_nameChunk hlen (List.mem_range.1 hi)]
  rfl

/-- There are as many name entries as the name needs. -/
theorem length_entriesOfName (name : List Nat) :
    (entriesOfName name).length = nameEntries name := by
  unfold entriesOfName
  rw [List.length_map, List.length_range]

/-- The name entries have the type of one. -/
theorem types_entriesOfName (name : List Nat) :
    (entriesOfName name).map Entry.type = List.replicate (nameEntries name) entryFileName := by
  refine List.eq_replicate_iff.2 ⟨?_, fun x hx => ?_⟩
  · rw [List.length_map, length_entriesOfName]
  · obtain ⟨e, he, rfl⟩ := List.mem_map.1 hx
    obtain ⟨i, -, rfl⟩ := List.mem_map.1 he
    exact type_nameEntry _

/-- The name that is read from its entries. -/
theorem units_entriesOfName (hlen : utf16Length name ≤ nameMax) (h : ∀ x ∈ name, x < 2 ^ 16) :
    ((entriesOfName name).map Entry.units).flatten = (nameUnits name).take
    (nameEntries name * enameMax) := by
  rw [← flatten_chunks]
  unfold entriesOfName
  rw [List.map_map]
  congr 1
  refine List.map_congr_left fun i hi => ?_
  refine units_nameEntry (length_nameChunk hlen (List.mem_range.1 hi)) fun x hx => ?_
  obtain hx | rfl := mem_nameUnits (List.mem_of_mem_drop (List.mem_of_mem_take hx))
  · exact h x hx
  · decide

/-- A list that is cut behind the first zero, or before it has one, has the same string. -/
theorem nameString_take {l : List Nat} {k : Nat} (h : (nameString l).length ≤ k) :
    nameString (l.take k) = nameString l := by
  obtain ⟨post, hl, hpost⟩ := exists_nameString_append l
  have htake : l.take k = nameString l ++ post.take (k - (nameString l).length) := by
    conv_lhs => rw [hl]
    rw [List.take_append, List.take_of_length_le h]
  rw [htake]
  refine nameString_append (fun x hx => nameString_pos hx) ?_
  obtain rfl | ⟨junk, rfl⟩ := hpost
  · rw [List.take_nil]
    exact .inl rfl
  · cases k - (nameString l).length with
    | zero => exact .inl (List.take_zero ..)
    | succ k => exact .inr ⟨_, List.take_succ_cons ..⟩

/-- The string of the name survives. -/
theorem nameString_entriesOfName (hlen : utf16Length name ≤ nameMax) (h : ∀ x ∈ name, x < 2 ^ 16) :
    nameString ((entriesOfName name).map Entry.units).flatten = nameString name := by
  have hstring := @nameString_nameUnits name hlen
  rw [units_entriesOfName hlen h, nameString_take, hstring]
  rw [hstring]
  exact le_divRoundUp_mul _ (by decide)

end Name

/-! ### What a set holds -/

/-- What the set of a file says about it.  Units behind the terminator of the name say nothing. -/
structure NodeData where
  attrib : Nat
  continuations : Nat
  size : Nat
  validSize : Nat
  startCluster : Nat
  isContiguous : Bool
  mtime : Int
  atime : Int
  name : List Nat

/-- What a set of entries holds of a node. -/
def Node.data (n : Node) : NodeData :=
  ⟨n.attrib, n.continuations, n.size, n.validSize, n.startCluster, n.isContiguous, n.mtime, n.atime,
    nameString n.name⟩

/-- The types of a set with `k` entries of a name. -/
theorem checkTransitions_fileSet {k : Nat} (hk : 0 < k) :
    checkTransitions entryNone (entryFile :: entryFileInfo :: List.replicate k entryFileName) =
    true := by
  have hnames : ∀ k, checkTransitions entryFileName (List.replicate k entryFileName) = true := by
    intro k
    induction k with
    | zero => rfl
    | succ k ih =>
      rw [List.replicate_succ, checkTransitions, ih]
      rfl
  obtain ⟨k, rfl⟩ := Nat.exists_eq_succ_of_ne_zero (Nat.ne_of_gt hk)
  rw [List.replicate_succ, checkTransitions, checkTransitions, checkTransitions, hnames]
  rfl

/-- A set as it stands in a directory. -/
structure StoredSet (es : List Entry) : Prop where
  lengths : ∀ e ∈ es, e.length = entrySize
  types : checkTransitions entryNone (es.map Entry.type) = true
  count : es.length = 1 + (es.getD 0 []).continuations
  enough : mandatoryEntries (es.getD 1 []).nameLength ≤ es.length

/-- A set has at least two entries behind the first. -/
theorem StoredSet.two_le {es : List Entry} (h : StoredSet es) :
    2 ≤ (es.getD 0 []).continuations := by
  obtain ⟨rest, htypes, -⟩ := checkTransitions_begin h.types
  have hlen := congrArg List.length htypes
  have hcount := h.count
  simp only [List.length_map, List.length_cons] at hlen
  omega

/-- The string of the name that a set says. -/
def setName (es : List Entry) : List Nat :=
  nameString (nameFields es (divRoundUp (es.getD 1 []).nameLength enameMax))

/-- The entries are the set of a node: as many as it says, under its name. -/
structure SetFor (n : Node) (es : List Entry) : Prop extends StoredSet es where
  counted : es.length = 1 + n.continuations
  name : setName es = nameString n.name

instance (n : Node) (es : List Entry) : Decidable (SetFor n es) :=
  decidable_of_iff ((∀ e ∈ es, e.length = entrySize) ∧
    checkTransitions entryNone (es.map Entry.type) = true ∧
      es.length = 1 + (es.getD 0 []).continuations ∧ mandatoryEntries (es.getD 1 []).nameLength ≤
      es.length ∧
      es.length = 1 + n.continuations ∧ setName es = nameString n.name)
    ⟨fun ⟨h₁, h₂, h₃, h₄, h₅, h₆⟩ => ⟨⟨h₁, h₂, h₃, h₄⟩, h₅, h₆⟩,
      fun ⟨⟨h₁, h₂, h₃, h₄⟩, h₅, h₆⟩ => ⟨h₁, h₂, h₃, h₄, h₅, h₆⟩⟩

/-! ### New sets -/

section New

variable (upcase : Nat → Nat) (now : ExfatTime) (name : List Nat) (attrib : Nat)

/-- The fields of the first entry of a new set. -/
def newFields1 : List (Nat × Nat × Nat) :=
  [(0, 1, entryFile), (1, 1, 1 + nameEntries name), (4, 2, attrib),
    (8, 2, now.time), (10, 2, now.date),
    (12, 2, now.time), (14, 2, now.date), (16, 2, now.time), (18, 2, now.date),
      (20, 1, now.centisec),
    (21, 1, now.centisec), (22, 1, now.tzoffset), (23, 1, now.tzoffset), (24, 1, now.tzoffset)]

/-- The fields of the second one. -/
def newFields2 : List (Nat × Nat × Nat) :=
  [(0, 1, entryFileInfo), (1, 1, flagAlways1), (3, 1, utf16Length name),
    (4, 2, exfatCalcNameHash upcase (name.take (utf16Length name))), (20, 4, clusterFree)]

/-- An entry with some fields set, and nothing else in it. -/
def entryOf (fields : List (Nat × Nat × Nat)) : Entry :=
  Entry.setFields (List.replicate entrySize 0) fields

/-- A new set is sealed with its checksum. -/
theorem newEntries_eq :
    newEntries upcase now name attrib =
      sealEntries (entryOf (newFields1 now name attrib) :: entryOf (newFields2 upcase name) ::
      entriesOfName name) :=
  rfl

/-- The fields of the first entry lie inside it. -/
theorem fits_newFields1 : ∀ f ∈ newFields1 now name attrib, f.1 + f.2.1 ≤ entrySize := by
  simp only [newFields1, List.forall_mem_cons, entrySize]
  simp

/-- The fields of the second entry lie inside it. -/
theorem fits_newFields2 : ∀ f ∈ newFields2 upcase name, f.1 + f.2.1 ≤ entrySize := by
  simp only [newFields2, List.forall_mem_cons, entrySize]
  simp

/-- A field that has been set. -/
theorem leAt_newFields1 {off k v : Nat} (h : (off, k, v) ∈ newFields1 now name attrib) :
    leAt (entryOf (newFields1 now name attrib)) off k = v % 256 ^ k :=
  Entry.leAt_setFields (f := (off, k, v)) List.length_replicate (fits_newFields1 now name attrib)
    (by simp [newFields1]) h

/-- A field of the second entry is read back. -/
theorem leAt_newFields2 {off k v : Nat} (h : (off, k, v) ∈ newFields2 upcase name) :
    leAt (entryOf (newFields2 upcase name)) off k = v % 256 ^ k :=
  Entry.leAt_setFields (f := (off, k, v)) List.length_replicate (fits_newFields2 upcase name)
    (by simp [newFields2]) h

/-- The sizes have not been set. -/
theorem leAt_newFields2_zero {off k : Nat}
    (h : ∀ f ∈ newFields2 upcase name, f.1 + f.2.1 ≤ off ∨ off + k ≤ f.1) :
    leAt (entryOf (newFields2 upcase name)) off k = leAt (List.replicate entrySize 0) off k :=
  leAt_setFields_of_apart List.length_replicate (fits_newFields2 upcase name) h

/-- An entry with fields inside it is an entry. -/
theorem length_entryOf {fields : List (Nat × Nat × Nat)}
    (h : ∀ f ∈ fields, f.1 + f.2.1 ≤ entrySize) : (entryOf fields).length = entrySize :=
  length_setFields_eq List.length_replicate h

end New

/-! #### The times -/

/-- The parts of a timestamp fit their fields. -/
theorem unix2exfat_fits (tz t : Int) :
    (unix2exfat tz t).date < 256 ^ 2 ∧ (unix2exfat tz t).time < 256 ^ 2 ∧
      (unix2exfat tz t).centisec < 256 ^ 1 ∧ (unix2exfat tz t).tzoffset < 256 ^ 1 := by
  refine ⟨Nat.mod_lt _ (by decide), Nat.mod_lt _ (by decide), ?_, ?_⟩
  · show (_ % 2 : Int).toNat * 100 < 256 ^ 1
    omega
  · show _ ||| 0x80 < 2 ^ 8
    exact Nat.or_lt_two_pow (by omega) (by decide)

/-- The times of an entry that has the parts of two timestamps in its fields. -/
theorem times_of_fields {tz m a : Int} {e : Entry} (hmdate : e.mdate = (unix2exfat tz m).date)
    (hmtime : e.mtime = (unix2exfat tz m).time) (hmcs : e.mtimeCs = (unix2exfat tz m).centisec)
    (hmtzo : e.mtimeTzo = (unix2exfat tz m).tzoffset) (hadate : e.adate = (unix2exfat tz a).date)
    (hatime : e.atime = (unix2exfat tz a).time) (hatzo : e.atimeTzo = (unix2exfat tz a).tzoffset) :
    e.mtimeUnix tz = (reread tz true m).getD 0 ∧ e.atimeUnix tz = (reread tz false a).getD 0 := by
  unfold Entry.mtimeUnix Entry.atimeUnix
  rw [hmdate, hmtime, hmcs, hmtzo, hadate, hatime, hatzo]
  exact ⟨rfl, rfl⟩

/-! #### What is read -/

section New

variable {upcase : Nat → Nat} {name : List Nat} {tz t : Int} {attrib : Nat}

/-- A name needs at most seventeen entries. -/
theorem nameEntries_le (hlen : utf16Length name ≤ nameMax) : nameEntries name ≤ 17 := by
  unfold nameEntries
  rw [divRoundUp_le_iff (by decide)]
  exact hlen

/-- Only the empty name needs no entry. -/
theorem nameEntries_pos_iff : 0 < nameEntries name ↔ utf16Length name ≠ 0 := by
  unfold nameEntries
  rw [lt_divRoundUp_iff (by decide)]
  omega

/-- The set up to its sum. -/
theorem exists_newEntries (upcase : Nat → Nat) (now : ExfatTime) (name : List Nat) (attrib : Nat) :
    ∃ sum, newEntries upcase now name attrib =
      Entry.set (entryOf (newFields1 now name attrib)) 2 2 sum :: entryOf
      (newFields2 upcase name) :: entriesOfName name := ⟨_, rfl⟩

/-- The fields of the first entry. -/
theorem leAt_newEntries_zero {now : ExfatTime} {off k v : Nat}
    (hmem : (off, k, v) ∈ newFields1 now name attrib) (hoff : off + k ≤ 2 ∨ 4 ≤ off)
    (hv : v < 256 ^ k) : leAt ((newEntries upcase now name attrib).getD 0 []) off k = v := by
  obtain ⟨sum, hset⟩ := exists_newEntries upcase now name attrib
  rw [hset, List.getD_cons_zero, leAt_seal (length_entryOf (fits_newFields1 now name attrib)) hoff,
    leAt_newFields1 now name attrib hmem, Nat.mod_eq_of_lt hv]

/-- The fields of the second one. -/
theorem leAt_newEntries_one {now : ExfatTime} {off k v : Nat}
    (hmem : (off, k, v) ∈ newFields2 upcase name) (hv : v < 256 ^ k) :
    leAt ((newEntries upcase now name attrib).getD 1 []) off k = v := by
  obtain ⟨sum, hset⟩ := exists_newEntries upcase now name attrib
  rw [hset, List.getD_cons_succ, List.getD_cons_zero, leAt_newFields2 upcase name hmem,
    Nat.mod_eq_of_lt hv]

/-- The types of a new set. -/
theorem types_newEntries (now : ExfatTime) : (newEntries upcase now name attrib).map Entry.type =
    entryFile :: entryFileInfo :: List.replicate (nameEntries name) entryFileName := by
  have h₀ : Entry.type ((newEntries upcase now name attrib).getD 0 []) = entryFile :=
    leAt_newEntries_zero (by simp [newFields1]) (by omega) (by decide)
  have h₁ : Entry.type ((newEntries upcase now name attrib).getD 1 []) = entryFileInfo :=
    leAt_newEntries_one (by simp [newFields2]) (by decide)
  obtain ⟨sum, hset⟩ := exists_newEntries upcase now name attrib
  rw [hset] at h₀ h₁ ⊢
  rw [List.getD_cons_zero] at h₀
  rw [List.getD_cons_succ, List.getD_cons_zero] at h₁
  rw [List.map_cons, List.map_cons, types_entriesOfName, h₀, h₁]

/-- The first entry counts the others. -/
theorem continuations_newEntries (hlen : utf16Length name ≤ nameMax) (now : ExfatTime) :
    Entry.continuations ((newEntries upcase now name attrib).getD 0 []) = 1 + nameEntries name := by
  have hk := nameEntries_le hlen
  exact leAt_newEntries_zero (by simp [newFields1]) (by omega) (by omega)

/-- A new file has no clusters. -/
theorem flags_newEntries (now : ExfatTime) :
    Entry.flags ((newEntries upcase now name attrib).getD 1 []) = flagAlways1 :=
  leAt_newEntries_one (by simp [newFields2]) (by decide)

/-- The second entry holds the length of the name. -/
theorem nameLength_newEntries (hlen : utf16Length name ≤ nameMax) (now : ExfatTime) :
    Entry.nameLength ((newEntries upcase now name attrib).getD 1 []) = utf16Length name := by
  refine leAt_newEntries_one (by simp [newFields2]) ?_
  unfold nameMax at hlen
  omega

/-- A new file is empty. -/
theorem sizes_newEntries (now : ExfatTime) :
    Entry.size ((newEntries upcase now name attrib).getD 1 []) = 0 ∧
      Entry.validSize ((newEntries upcase now name attrib).getD 1 []) = 0 ∧
      Entry.startCluster ((newEntries upcase now name attrib).getD 1 []) = clusterFree := by
  have hzero : ∀ {off k : Nat}, (∀ f ∈ newFields2 upcase name, f.1 + f.2.1 ≤ off ∨ off + k ≤ f.1) →
      leAt (List.replicate entrySize 0) off k = 0 →
      leAt ((newEntries upcase now name attrib).getD 1 []) off k = 0 := by
    intro off k h h₀
    obtain ⟨sum, hset⟩ := exists_newEntries upcase now name attrib
    rw [hset, List.getD_cons_succ, List.getD_cons_zero, leAt_newFields2_zero upcase name h, h₀]
  refine ⟨hzero (by simp [newFields2]) (by decide), hzero (by simp [newFields2]) (by decide), ?_⟩
  exact leAt_newEntries_one (by simp [newFields2]) (by decide)

/-- The name is read back. -/
theorem nameString_newEntries (hlen : utf16Length name ≤ nameMax) (hunits : ∀ x ∈ name, x < 2 ^ 16)
    (now : ExfatTime) :
    nameString (nameFields (newEntries upcase now name attrib) (nameEntries name)) =
      nameString name := by
  obtain ⟨sum, hset⟩ := exists_newEntries upcase now name attrib
  have hfields : nameFields (newEntries upcase now name attrib) (nameEntries name) =
      ((entriesOfName name).map Entry.units).flatten := by
    rw [hset]
    show (((entriesOfName name).take _).map Entry.units).flatten = _
    rw [List.take_of_length_le (length_entriesOfName name).le]
  rw [hfields]
  exact nameString_entriesOfName hlen hunits

/-- What `commit_entry` writes says what it was given. -/
theorem data_newEntries (hlen : utf16Length name ≤ nameMax) (hunits : ∀ x ∈ name, x < 2 ^ 16)
    (hattrib : attrib < 2 ^ 16) (node : Node) :
    (parsedNode tz (newEntries upcase (unix2exfat tz t) name attrib) node).data =
      ⟨attrib, 1 + nameEntries name, 0, 0, clusterFree, false, (reread tz true t).getD 0,
        (reread tz false t).getD 0, nameString name⟩ := by
  obtain ⟨hdate, htime, hcentisec, htzo⟩ := unix2exfat_fits tz t
  have hat : Entry.attrib ((newEntries upcase (unix2exfat tz t) name attrib).getD 0 []) = attrib :=
    leAt_newEntries_zero (by simp [newFields1]) (by omega) hattrib
  obtain ⟨hm, ha⟩ := times_of_fields (m := t) (a := t)
    (e := (newEntries upcase (unix2exfat tz t) name attrib).getD 0 [])
    (leAt_newEntries_zero (by simp [newFields1]) (by omega) hdate)
    (leAt_newEntries_zero (by simp [newFields1]) (by omega) htime)
    (leAt_newEntries_zero (by simp [newFields1]) (by omega) hcentisec)
    (leAt_newEntries_zero (by simp [newFields1]) (by omega) htzo)
    (leAt_newEntries_zero (by simp [newFields1]) (by omega) hdate)
    (leAt_newEntries_zero (by simp [newFields1]) (by omega) htime)
    (leAt_newEntries_zero (by simp [newFields1]) (by omega) htzo)
  obtain ⟨hsize, hvalid, hstart⟩ := @sizes_newEntries upcase name attrib (unix2exfat tz t)
  unfold parsedNode Node.data
  dsimp only
  rw [hat, continuations_newEntries hlen, hsize, hvalid, hstart, flags_newEntries,
    nameLength_newEntries hlen, hm,
    ha]
  show NodeData.mk _ _ _ _ _ _ _ _ (nameString (nameFields _ (nameEntries name))) = _
  rw [nameString_newEntries hlen hunits]
  rfl

/-- A file without clusters is consistent. -/
theorem Node.consistent_empty {n : Node} (sb : SuperBlock) (hsize : n.size = 0)
    (hvalid : n.validSize = 0) (hstart : n.startCluster = clusterFree)
    (hcontig : n.isContiguous = false) : n.Consistent sb := by
  refine ⟨by rw [hvalid]; exact Nat.zero_le _, fun _ => ⟨hstart, hcontig⟩,
    fun hpos => ?_, ?_, fun _ => ?_⟩
  · omega
  · rw [hsize]
    exact Nat.zero_le _
  · rw [hsize]
    exact Nat.zero_mod _

/-- The entries of a new set are entries. -/
theorem length_of_mem_newEntries (hlen : utf16Length name ≤ nameMax) (now : ExfatTime) :
    ∀ e ∈ newEntries upcase now name attrib, e.length = entrySize := by
  rw [newEntries_eq]
  apply length_of_mem_sealEntries
  refine List.forall_mem_cons.2 ⟨length_entryOf (fits_newFields1 now name attrib), ?_⟩
  exact List.forall_mem_cons.2 ⟨length_entryOf (fits_newFields2 upcase name),
    length_of_mem_entriesOfName hlen⟩

/-- A new set has the entries its name needs. -/
theorem length_newEntries (now : ExfatTime) :
    (newEntries upcase now name attrib).length = 2 + nameEntries name := by
  rw [newEntries_eq, length_sealEntries, List.length_cons, List.length_cons, length_entriesOfName]
  omega

/-- A new set is sealed. -/
theorem sealedSet_newEntries (hlen : utf16Length name ≤ nameMax) (now : ExfatTime) :
    SealedSet (newEntries upcase now name attrib) := by
  refine ⟨?_, ?_⟩
  · rw [newEntries_eq]
    refine exfatCalcChecksum_sealEntries
      (List.forall_mem_cons.2 ⟨?_, List.forall_mem_cons.2 ⟨?_, ?_⟩⟩)
      (List.cons_ne_nil _ _)
    · exact length_entryOf (fits_newFields1 now name attrib)
    · exact length_entryOf (fits_newFields2 upcase name)
    · exact length_of_mem_entriesOfName hlen
  · rw [length_newEntries, continuations_newEntries hlen]
    omega

/-- A new set is a set that can be stored. -/
theorem storedSet_newEntries (hlen : utf16Length name ≤ nameMax) (hname : utf16Length name ≠ 0)
    (now : ExfatTime) : StoredSet (newEntries upcase now name attrib) := by
  refine ⟨length_of_mem_newEntries hlen now, ?_, (sealedSet_newEntries hlen now).count, ?_⟩
  · rw [types_newEntries]
    exact checkTransitions_fileSet (nameEntries_pos_iff.2 hname)
  · rw [nameLength_newEntries hlen, length_newEntries]
    unfold mandatoryEntries nameEntries
    omega

/-- The name of a new set. -/
theorem setName_newEntries (hlen : utf16Length name ≤ nameMax) (hunits : ∀ x ∈ name, x < 2 ^ 16)
    (now : ExfatTime) : setName (newEntries upcase now name attrib) = nameString name := by
  unfold setName
  rw [nameLength_newEntries hlen]
  exact nameString_newEntries hlen hunits now

/-- The set that `commit_entry` writes is accepted when it is read, unless the name is empty. -/
theorem newEntries_accepted_iff (hlen : utf16Length name ≤ nameMax) (now : ExfatTime) (ef : Ef δ)
    (node : Node) :
    (∃ s, parseFileEntries (newEntries upcase now name attrib) ⟨ef, node⟩ = .ok (.ok ()) s) ↔
      utf16Length name ≠ 0 := by
  have hcont := @continuations_newEntries upcase name attrib hlen now
  rw [(sealedSet_newEntries hlen now).accepted_iff, ← nameEntries_pos_iff]
  constructor
  · rintro ⟨h, -⟩
    have := h.continuations
    omega
  · intro hpos
    obtain ⟨hsize, hvalid, hstart⟩ := @sizes_newEntries upcase name attrib now
    refine ⟨⟨types_newEntries now ▸ checkTransitions_fileSet hpos, by omega, ?_, ?_⟩, ?_⟩
    · rw [flags_newEntries]
      decide
    · rw [nameLength_newEntries hlen, hcont]
      unfold mandatoryEntries nameEntries
      omega
    · refine Node.consistent_empty _ hsize hvalid hstart ?_
      show Nat.testBit (Entry.flags _) 1 = false
      rw [flags_newEntries]
      decide

end New

/-! ### Sets that are written back -/

/-- The fields of a node fit the fields of an entry. -/
structure Node.Fits (n : Node) : Prop where
  attrib : n.attrib < 2 ^ 16
  size : n.size < 2 ^ 64
  validSize : n.validSize < 2 ^ 64
  startCluster : n.startCluster < 2 ^ 32

instance (n : Node) : Decidable n.Fits :=
  decidable_of_iff (n.attrib < 2 ^ 16 ∧ n.size < 2 ^ 64 ∧ n.validSize < 2 ^ 64 ∧
    n.startCluster < 2 ^ 32)
    ⟨fun ⟨h₁, h₂, h₃, h₄⟩ => ⟨h₁, h₂, h₃, h₄⟩, fun ⟨h₁, h₂, h₃, h₄⟩ => ⟨h₁, h₂, h₃, h₄⟩⟩

/-- The node as it is stored: an empty file is never marked as contiguous. -/
def Node.written (n : Node) : Node :=
  { n with isContiguous := decide (n.size ≠ 0) && n.isContiguous }

section Flush

variable (tz : Int) (n : Node)

/-- The fields that `exfat_flush_node` sets in the first entry. -/
def flushFields1 : List (Nat × Nat × Nat) :=
  let m := unix2exfat tz n.mtime
  let a := unix2exfat tz n.atime
  [(4, 2, n.attrib), (21, 1, m.centisec), (23, 1, m.tzoffset), (14, 2, m.date), (12, 2, m.time),
    (24, 1, a.tzoffset), (18, 2, a.date), (16, 2, a.time)]

/-- The fields that it sets in the second one. -/
def flushFields2 : List (Nat × Nat × Nat) :=
  [(8, 8, n.validSize), (24, 8, n.size), (20, 4, n.startCluster),
    (1, 1, if n.size ≠ 0 ∧ n.isContiguous then flagAlways1 ||| flagContiguous else flagAlways1)]

/-- The fields that are flushed lie inside the first entry. -/
theorem fits_flushFields1 : ∀ f ∈ flushFields1 tz n, f.1 + f.2.1 ≤ entrySize := by
  simp only [flushFields1, List.forall_mem_cons, entrySize]
  simp

/-- The fields that are flushed lie inside the second entry. -/
theorem fits_flushFields2 : ∀ f ∈ flushFields2 n, f.1 + f.2.1 ≤ entrySize := by
  simp only [flushFields2, List.forall_mem_cons, entrySize]
  simp

variable {tz n} {meta1 meta2 : Entry} {rest : List Entry}

/-- The set up to its sum. -/
theorem exists_flushedEntries (tz : Int) (n : Node) (meta1 meta2 : Entry) (rest : List Entry) :
    ∃ sum, flushedEntries tz n (meta1 :: meta2 :: rest) =
      Entry.set (meta1.setFields (flushFields1 tz n)) 2 2 sum :: meta2.setFields
      (flushFields2 n) :: rest := ⟨_, rfl⟩

/-- A field of the first entry that has been set. -/
theorem leAt_flushed_zero (h₁ : meta1.length = entrySize) {off k v : Nat}
    (hmem : (off, k, v) ∈ flushFields1 tz n) (hoff : off + k ≤ 2 ∨ 4 ≤ off) (hv : v < 256 ^ k) :
    leAt ((flushedEntries tz n (meta1 :: meta2 :: rest)).getD 0 []) off k = v := by
  obtain ⟨sum, hset⟩ := exists_flushedEntries tz n meta1 meta2 rest
  have hlen := length_setFields_eq h₁ (fits_flushFields1 tz n)
  rw [hset, List.getD_cons_zero, leAt_seal hlen hoff]
  refine (Entry.leAt_setFields (f := (off, k, v)) h₁ (fits_flushFields1 tz n) ?_ hmem).trans
    (Nat.mod_eq_of_lt hv)
  simp [flushFields1]

/-- A field of the first entry that has not been set. -/
theorem leAt_flushed_zero_of_apart (h₁ : meta1.length = entrySize) {off k : Nat}
    (hoff : off + k ≤ 2 ∨ 4 ≤ off)
    (hapart : ∀ f ∈ flushFields1 tz n, f.1 + f.2.1 ≤ off ∨ off + k ≤ f.1) :
    leAt ((flushedEntries tz n (meta1 :: meta2 :: rest)).getD 0 []) off k = leAt meta1 off k := by
  obtain ⟨sum, hset⟩ := exists_flushedEntries tz n meta1 meta2 rest
  have hlen := length_setFields_eq h₁ (fits_flushFields1 tz n)
  rw [hset, List.getD_cons_zero, leAt_seal hlen hoff]
  exact leAt_setFields_of_apart h₁ (fits_flushFields1 tz n) hapart

/-- A field of the second entry that has been set. -/
theorem leAt_flushed_one (h₂ : meta2.length = entrySize) {off k v : Nat}
    (hmem : (off, k, v) ∈ flushFields2 n) (hv : v < 256 ^ k) :
    leAt ((flushedEntries tz n (meta1 :: meta2 :: rest)).getD 1 []) off k = v := by
  obtain ⟨sum, hset⟩ := exists_flushedEntries tz n meta1 meta2 rest
  rw [hset, List.getD_cons_succ, List.getD_cons_zero]
  refine (Entry.leAt_setFields (f := (off, k, v)) h₂ (fits_flushFields2 n) ?_ hmem).trans
    (Nat.mod_eq_of_lt hv)
  simp [flushFields2]

/-- A field of the second entry that has not been set. -/
theorem leAt_flushed_one_of_apart (h₂ : meta2.length = entrySize) {off k : Nat}
    (hapart : ∀ f ∈ flushFields2 n, f.1 + f.2.1 ≤ off ∨ off + k ≤ f.1) :
    leAt ((flushedEntries tz n (meta1 :: meta2 :: rest)).getD 1 []) off k = leAt meta2 off k := by
  obtain ⟨sum, hset⟩ := exists_flushedEntries tz n meta1 meta2 rest
  rw [hset, List.getD_cons_succ, List.getD_cons_zero]
  exact leAt_setFields_of_apart h₂ (fits_flushFields2 n) hapart

/-! #### What is left as it was, and what is not -/

/-- The name is in the entries behind the second. -/
theorem nameFields_cons_cons (meta1 meta2 : Entry) (rest : List Entry) (k : Nat) :
    nameFields (meta1 :: meta2 :: rest) k = ((rest.take k).map Entry.units).flatten := rfl

/-- The name is not flushed. -/
theorem nameFields_flushedEntries (k : Nat) :
    nameFields (flushedEntries tz n (meta1 :: meta2 :: rest)) k =
    nameFields (meta1 :: meta2 :: rest) k := by
  obtain ⟨sum, hset⟩ := exists_flushedEntries tz n meta1 meta2 rest
  rw [hset, nameFields_cons_cons, nameFields_cons_cons]

/-- The number of entries is not flushed. -/
theorem continuations_flushedEntries (h₁ : meta1.length = entrySize) :
    Entry.continuations ((flushedEntries tz n (meta1 :: meta2 :: rest)).getD 0 []) =
    meta1.continuations :=
  leAt_flushed_zero_of_apart h₁ (by omega) (by simp [flushFields1])

/-- The length of the name is not flushed. -/
theorem nameLength_flushedEntries (h₂ : meta2.length = entrySize) :
    Entry.nameLength ((flushedEntries tz n (meta1 :: meta2 :: rest)).getD 1 []) =
    meta2.nameLength :=
  leAt_flushed_one_of_apart h₂ (by simp [flushFields2])

/-- The second entry holds whether the clusters are contiguous. -/
theorem flags_flushedEntries (h₂ : meta2.length = entrySize) :
    Entry.flags ((flushedEntries tz n (meta1 :: meta2 :: rest)).getD 1 []) =
      if n.size ≠ 0 ∧ n.isContiguous then flagAlways1 ||| flagContiguous else flagAlways1 :=
  leAt_flushed_one h₂ (by simp [flushFields2]) (by split <;> decide)

/-- The types of the entries are not flushed. -/
theorem types_flushedEntries (h₁ : meta1.length = entrySize) (h₂ : meta2.length = entrySize) :
    (flushedEntries tz n (meta1 :: meta2 :: rest)).map Entry.type =
    (meta1 :: meta2 :: rest).map Entry.type := by
  have htype₁ : Entry.type ((flushedEntries tz n (meta1 :: meta2 :: rest)).getD 0 []) =
      meta1.type :=
    leAt_flushed_zero_of_apart h₁ (by omega) (by simp [flushFields1])
  have htype₂ : Entry.type ((flushedEntries tz n (meta1 :: meta2 :: rest)).getD 1 []) =
      meta2.type :=
    leAt_flushed_one_of_apart h₂ (by simp [flushFields2])
  obtain ⟨sum, hset⟩ := exists_flushedEntries tz n meta1 meta2 rest
  rw [hset] at htype₁ htype₂ ⊢
  rw [List.getD_cons_zero] at htype₁
  rw [List.getD_cons_succ, List.getD_cons_zero] at htype₂
  rw [List.map_cons, List.map_cons, List.map_cons, List.map_cons, htype₁, htype₂]

/-- The contiguous flag that is read. -/
theorem testBit_flushFlags (n : Node) :
    (if n.size ≠ 0 ∧
      n.isContiguous then flagAlways1 ||| flagContiguous else flagAlways1).testBit 1 =
      n.written.isContiguous := by
  have hempty : Nat.testBit flagAlways1 1 = false := by decide
  have hfull : Nat.testBit (flagAlways1 ||| flagContiguous) 1 = true := by decide
  unfold Node.written
  by_cases hz : n.size = 0
  · simp [hz, hempty]
  · by_cases hc : n.isContiguous = true
    · simp [hz, hc, hfull]
    · simp [hz, hc, hempty]

/-- The data in the fields of the set, but for the times. -/
theorem fields_flushedEntries (h₁ : meta1.length = entrySize) (h₂ : meta2.length = entrySize)
    (hn : n.Fits) :
    Entry.attrib ((flushedEntries tz n (meta1 :: meta2 :: rest)).getD 0 []) = n.attrib ∧
      Entry.size ((flushedEntries tz n (meta1 :: meta2 :: rest)).getD 1 []) = n.size ∧
      Entry.validSize ((flushedEntries tz n (meta1 :: meta2 :: rest)).getD 1 []) = n.validSize ∧
      Entry.startCluster ((flushedEntries tz n (meta1 :: meta2 :: rest)).getD 1 []) =
        n.startCluster := by
  refine ⟨?_, ?_, ?_, ?_⟩
  · exact leAt_flushed_zero h₁ (by simp [flushFields1]) (by omega) hn.attrib
  · exact leAt_flushed_one h₂ (by simp [flushFields2]) hn.size
  · exact leAt_flushed_one h₂ (by simp [flushFields2]) hn.validSize
  · exact leAt_flushed_one h₂ (by simp [flushFields2]) hn.startCluster

/-- The times that are read back. -/
theorem times_flushedEntries (h₁ : meta1.length = entrySize) :
    Entry.mtimeUnix tz ((flushedEntries tz n (meta1 :: meta2 :: rest)).getD 0 []) =
        (reread tz true n.mtime).getD 0 ∧
      Entry.atimeUnix tz ((flushedEntries tz n (meta1 :: meta2 :: rest)).getD 0 []) =
        (reread tz false n.atime).getD 0 := by
  obtain ⟨hmdate, hmtime, hmcs, hmtzo⟩ := unix2exfat_fits tz n.mtime
  obtain ⟨hadate, hatime, -, hatzo⟩ := unix2exfat_fits tz n.atime
  refine times_of_fields ?_ ?_ ?_ ?_ ?_ ?_ ?_
  · exact leAt_flushed_zero h₁ (by simp [flushFields1]) (by omega) hmdate
  · exact leAt_flushed_zero h₁ (by simp [flushFields1]) (by omega) hmtime
  · exact leAt_flushed_zero h₁ (by simp [flushFields1]) (by omega) hmcs
  · exact leAt_flushed_zero h₁ (by simp [flushFields1]) (by omega) hmtzo
  · exact leAt_flushed_zero h₁ (by simp [flushFields1]) (by omega) hadate
  · exact leAt_flushed_zero h₁ (by simp [flushFields1]) (by omega) hatime
  · exact leAt_flushed_zero h₁ (by simp [flushFields1]) (by omega) hatzo

end Flush

section Stored

variable {es : List Entry} {n : Node} {tz : Int}

/-- What the set of a node says after the node has been written back. -/
theorem data_flushedEntries (h : StoredSet es) (hn : n.Fits) (node : Node) :
    (parsedNode tz (flushedEntries tz n es) node).data =
      { n.written.data with
        continuations := (es.getD 0 []).continuations
        mtime := (reread tz true n.mtime).getD 0, atime := (reread tz false n.atime).getD 0
        name := setName es } := by
  obtain ⟨meta1, meta2, rest, rfl⟩ := two_of_checkTransitions h.types
  have h₁ : meta1.length = entrySize := h.lengths _ (by simp)
  have h₂ : meta2.length = entrySize := h.lengths _ (by simp)
  obtain ⟨hat, hsize, hvalid, hstart⟩ := @fields_flushedEntries tz n meta1 meta2 rest h₁ h₂ hn
  obtain ⟨hm, ha⟩ := @times_flushedEntries tz n meta1 meta2 rest h₁
  unfold parsedNode Node.data
  dsimp only
  rw [hat, continuations_flushedEntries h₁, hsize, hvalid, hstart, nameLength_flushedEntries h₂,
    flags_flushedEntries h₂, testBit_flushFlags, hm, ha, nameFields_flushedEntries]
  rfl

/-- A set that has been flushed is sealed. -/
theorem sealedSet_flushedEntries (h : StoredSet es) (tz : Int) (n : Node) :
    SealedSet (flushedEntries tz n es) := by
  have hcount := h.count
  have hlength := length_flushedEntries tz n es
  obtain ⟨meta1, meta2, rest, rfl⟩ := two_of_checkTransitions h.types
  have h₁ : meta1.length = entrySize := h.lengths _ (by simp)
  have h₂ : meta2.length = entrySize := h.lengths _ (by simp)
  refine ⟨?_, ?_⟩
  · refine exfatCalcChecksum_sealEntries (List.forall_mem_cons.2 ⟨length_flushMeta1_eq _ n h₁, ?_⟩)
      (List.cons_ne_nil _ _)
    exact List.forall_mem_cons.2 ⟨length_flushMeta2_eq n h₂, fun e he => h.lengths e (by simp [he])⟩
  · rw [hlength, hcount, continuations_flushedEntries h₁]
    rfl

/-- A set that has been flushed can be stored. -/
theorem storedSet_flushedEntries (h : StoredSet es) (tz : Int) (n : Node) :
    StoredSet (flushedEntries tz n es) := by
  have hcount := (sealedSet_flushedEntries h tz n).count
  have hlength := length_flushedEntries tz n es
  refine ⟨length_of_mem_flushedEntries tz n h.lengths, ?_, hcount, ?_⟩
  · obtain ⟨meta1, meta2, rest, rfl⟩ := two_of_checkTransitions h.types
    rw [types_flushedEntries (h.lengths _ (by simp)) (h.lengths _ (by simp))]
    exact h.types
  · have henough := h.enough
    obtain ⟨meta1, meta2, rest, rfl⟩ := two_of_checkTransitions h.types
    rw [nameLength_flushedEntries (h.lengths _ (by simp)), hlength]
    exact henough

/-- The name of a set that has been flushed is as before. -/
theorem setName_flushedEntries (h : StoredSet es) (tz : Int) (n : Node) :
    setName (flushedEntries tz n es) = setName es := by
  obtain ⟨meta1, meta2, rest, rfl⟩ := two_of_checkTransitions h.types
  unfold setName
  rw [nameFields_flushedEntries, nameLength_flushedEntries (h.lengths _ (by simp))]
  rfl

/-- A set that is written back is accepted when it is read exactly if the sizes of the node agree.
-/
theorem flushedEntries_accepted_iff (h : StoredSet es) (hn : n.Fits) (ef : Ef δ) (node : Node) :
    (∃ s, parseFileEntries (flushedEntries tz n es) ⟨ef, node⟩ = .ok (.ok ()) s) ↔
      n.written.Consistent ef.sb := by
  have htwo := h.two_le
  have hcount := h.count
  have henough := h.enough
  have htypes := h.types
  have hsealed := sealedSet_flushedEntries h tz n
  obtain ⟨meta1, meta2, rest, rfl⟩ := two_of_checkTransitions h.types
  have h₁ : meta1.length = entrySize := h.lengths _ (by simp)
  have h₂ : meta2.length = entrySize := h.lengths _ (by simp)
  have hcont := @continuations_flushedEntries tz n meta1 meta2 rest h₁
  have hnlen := @nameLength_flushedEntries tz n meta1 meta2 rest h₂
  have hflags := @flags_flushedEntries tz n meta1 meta2 rest h₂
  have htypes' := @types_flushedEntries tz n meta1 meta2 rest h₁ h₂
  obtain ⟨hat, hsize, hvalid, hstart⟩ := @fields_flushedEntries tz n meta1 meta2 rest h₁ h₂ hn
  generalize flushedEntries tz n (meta1 :: meta2 :: rest) = written at *
  rw [List.getD_cons_zero] at hcount htwo
  rw [List.getD_cons_succ, List.getD_cons_zero] at henough
  have hcontig : (parsedNode tz written node).isContiguous = n.written.isContiguous := by
    show Nat.testBit (Entry.flags _) 1 = _
    rw [hflags, testBit_flushFlags]
  rw [hsealed.accepted_iff]
  -- the entries are well formed whatever the node, so what `check_node` asks for decides
  constructor
  · rintro ⟨-, hcons⟩
    exact hcons.congr hat.symm hvalid.symm hsize.symm hstart.symm hcontig.symm
  · intro hcons
    refine ⟨⟨htypes' ▸ htypes, by omega, ?_, ?_⟩, hcons.congr hat hvalid hsize hstart hcontig⟩
    · rw [hflags]
      split <;> decide
    · rw [hnlen, hcont]
      omega

end Stored

/-! ### Sets that get a new name -/

section Rename

variable {upcase : Nat → Nat} {name : List Nat} {meta1 meta2 : Entry} {tz : Int}

/-- The fields that `rename_entry` sets in the second entry. -/
def renameFields2 (upcase : Nat → Nat) (name : List Nat) : List (Nat × Nat × Nat) :=
  [(3, 1, utf16Length name), (4, 2, exfatCalcNameHash upcase (name.take (utf16Length name)))]

/-- The fields of the new name lie inside the second entry. -/
theorem fits_renameFields2 : ∀ f ∈ renameFields2 upcase name, f.1 + f.2.1 ≤ entrySize := by
  simp only [renameFields2, List.forall_mem_cons, entrySize]
  simp

/-- A set with its new name and some checksum. -/
theorem exists_renamedEntries (upcase : Nat → Nat) (name : List Nat) (meta1 meta2 : Entry) :
    ∃ sum, renamedEntries upcase name meta1 meta2 =
      Entry.set (meta1.set 1 1 (1 + nameEntries name)) 2 2 sum :: meta2.setFields
      (renameFields2 upcase name) :: entriesOfName name := ⟨_, rfl⟩

/-- The first entry says how many follow, and is otherwise the old one. -/
theorem continuations_renamedEntries (h₁ : meta1.length = entrySize)
    (hlen : utf16Length name ≤ nameMax) :
    Entry.continuations ((renamedEntries upcase name meta1 meta2).getD 0 []) =
      1 + nameEntries name := by
  have hk := nameEntries_le hlen
  obtain ⟨sum, hset⟩ := exists_renamedEntries upcase name meta1 meta2
  have hlen₁ : (meta1.set 1 1 (1 + nameEntries name)).length = entrySize :=
    length_set_eq _ h₁ (by decide)
  rw [hset, List.getD_cons_zero]
  refine (leAt_seal hlen₁ (by omega) _).trans ((leAt_patch_self (by rw [h₁]; decide)).trans ?_)
  exact Nat.mod_eq_of_lt (by omega)

/-- The other fields of the first entry are as before. -/
theorem leAt_renamed_zero (h₁ : meta1.length = entrySize) {off k : Nat}
    (hoff : off + k ≤ 1 ∨ 4 ≤ off) :
    leAt ((renamedEntries upcase name meta1 meta2).getD 0 []) off k = leAt meta1 off k := by
  obtain ⟨sum, hset⟩ := exists_renamedEntries upcase name meta1 meta2
  have hlen₁ : (meta1.set 1 1 (1 + nameEntries name)).length = entrySize :=
    length_set_eq _ h₁ (by decide)
  rw [hset, List.getD_cons_zero, leAt_seal hlen₁ (by omega)]
  refine leAt_patch_of_disjoint (by rw [length_natLe, h₁]; decide) ?_
  rw [length_natLe]
  omega

/-- The second entry has the length and the hash of the name, and is otherwise the old one. -/
theorem nameLength_renamedEntries (h₂ : meta2.length = entrySize)
    (hlen : utf16Length name ≤ nameMax) :
    Entry.nameLength ((renamedEntries upcase name meta1 meta2).getD 1 []) = utf16Length name := by
  obtain ⟨sum, hset⟩ := exists_renamedEntries upcase name meta1 meta2
  rw [hset, List.getD_cons_succ, List.getD_cons_zero]
  refine (Entry.leAt_setFields (f := (3, 1, utf16Length name))
    h₂ fits_renameFields2 (by simp [renameFields2])
    (by simp [renameFields2])).trans (Nat.mod_eq_of_lt ?_)
  show utf16Length name < 256 ^ 1
  unfold nameMax at hlen
  omega

/-- The other fields of the second entry are as before. -/
theorem leAt_renamed_one (h₂ : meta2.length = entrySize) {off k : Nat}
    (hoff : off + k ≤ 3 ∨ 6 ≤ off) :
    leAt ((renamedEntries upcase name meta1 meta2).getD 1 []) off k = leAt meta2 off k := by
  obtain ⟨sum, hset⟩ := exists_renamedEntries upcase name meta1 meta2
  rw [hset, List.getD_cons_succ, List.getD_cons_zero]
  refine leAt_setFields_of_apart h₂ fits_renameFields2 fun f hf => ?_
  simp only [renameFields2, List.mem_cons, List.not_mem_nil, or_false] at hf
  obtain rfl | rfl := hf
  · dsimp only
    omega
  · dsimp only
    omega

/-- The times are the old ones. -/
theorem times_renamedEntries (h₁ : meta1.length = entrySize) :
    Entry.mtimeUnix tz ((renamedEntries upcase name meta1 meta2).getD 0 []) = meta1.mtimeUnix tz ∧
      Entry.atimeUnix tz ((renamedEntries upcase name meta1 meta2).getD 0 []) =
      meta1.atimeUnix tz := by
  have hsame : ∀ {off k : Nat}, 4 ≤ off →
      leAt ((renamedEntries upcase name meta1 meta2).getD 0 []) off k = leAt meta1 off k :=
        fun hoff =>
    leAt_renamed_zero h₁ (.inr hoff)
  constructor
  · unfold Entry.mtimeUnix Entry.mdate Entry.mtime Entry.mtimeCs Entry.mtimeTzo
    rw [hsame (by omega), hsame (by omega), hsame (by omega), hsame (by omega)]
  · unfold Entry.atimeUnix Entry.adate Entry.atime Entry.atimeTzo
    rw [hsame (by omega), hsame (by omega), hsame (by omega)]

/-- The new name is read back. -/
theorem nameString_renamedEntries (hlen : utf16Length name ≤ nameMax)
    (hunits : ∀ x ∈ name, x < 2 ^ 16) :
    nameString (nameFields (renamedEntries upcase name meta1 meta2) (nameEntries name)) =
      nameString name := by
  obtain ⟨sum, hset⟩ := exists_renamedEntries upcase name meta1 meta2
  rw [hset, nameFields_cons_cons, List.take_of_length_le (length_entriesOfName name).le]
  exact nameString_entriesOfName hlen hunits

variable {es : List Entry}

/-- A set says after it has been renamed what it said before, with the new name. -/
theorem data_renamedEntries (h : StoredSet es) (hlen : utf16Length name ≤ nameMax)
    (hunits : ∀ x ∈ name, x < 2 ^ 16) (node : Node) :
    (parsedNode tz (renamedEntries upcase name (es.getD 0 []) (es.getD 1 [])) node).data =
      { (parsedNode tz es node).data with
        continuations := 1 + nameEntries name, name := nameString name } := by
  obtain ⟨meta1, meta2, rest, rfl⟩ := two_of_checkTransitions h.types
  have h₁ : meta1.length = entrySize := h.lengths _ (by simp)
  have h₂ : meta2.length = entrySize := h.lengths _ (by simp)
  obtain ⟨hm, ha⟩ := @times_renamedEntries upcase name meta1 meta2 tz h₁
  have hattrib : Entry.attrib ((renamedEntries upcase name meta1 meta2).getD 0 []) = meta1.attrib :=
    leAt_renamed_zero h₁ (by omega)
  have hsize : Entry.size ((renamedEntries upcase name meta1 meta2).getD 1 []) = meta2.size :=
    leAt_renamed_one h₂ (by omega)
  have hvalid : Entry.validSize ((renamedEntries upcase name meta1 meta2).getD 1 []) =
      meta2.validSize :=
    leAt_renamed_one h₂ (by omega)
  have hstart : Entry.startCluster ((renamedEntries upcase name meta1 meta2).getD 1 []) =
      meta2.startCluster :=
    leAt_renamed_one h₂ (by omega)
  have hflags : Entry.flags ((renamedEntries upcase name meta1 meta2).getD 1 []) = meta2.flags :=
    leAt_renamed_one h₂ (by omega)
  unfold parsedNode Node.data
  simp only [List.getD_cons_zero, List.getD_cons_succ]
  rw [hattrib, continuations_renamedEntries h₁ hlen, hsize, hvalid, hstart, hflags,
    nameLength_renamedEntries h₂ hlen, hm, ha]
  show NodeData.mk _ _ _ _ _ _ _ _ (nameString (nameFields _ (nameEntries name))) = _
  rw [nameString_renamedEntries hlen hunits]

/-- The types are those of the set of a file. -/
theorem types_renamedEntries (h : StoredSet es) :
    (renamedEntries upcase name (es.getD 0 []) (es.getD 1 [])).map Entry.type =
      entryFile :: entryFileInfo :: List.replicate (nameEntries name) entryFileName := by
  obtain ⟨meta1, meta2, rest, rfl⟩ := two_of_checkTransitions h.types
  have h₁ : meta1.length = entrySize := h.lengths _ (by simp)
  have h₂ : meta2.length = entrySize := h.lengths _ (by simp)
  rw [List.getD_cons_zero, List.getD_cons_succ, List.getD_cons_zero]
  have htype₁ : Entry.type ((renamedEntries upcase name meta1 meta2).getD 0 []) = meta1.type :=
    leAt_renamed_zero h₁ (by omega)
  have htype₂ : Entry.type ((renamedEntries upcase name meta1 meta2).getD 1 []) = meta2.type :=
    leAt_renamed_one h₂ (by omega)
  obtain ⟨rest', hbegin, -⟩ := checkTransitions_begin h.types
  rw [List.map_cons, List.map_cons] at hbegin
  obtain ⟨hfirst, hbegin⟩ := List.cons.inj hbegin
  obtain ⟨hsecond, -⟩ := List.cons.inj hbegin
  obtain ⟨sum, hset⟩ := exists_renamedEntries upcase name meta1 meta2
  rw [hset] at htype₁ htype₂ ⊢
  rw [List.getD_cons_zero] at htype₁
  rw [List.getD_cons_succ, List.getD_cons_zero] at htype₂
  rw [List.map_cons, List.map_cons, types_entriesOfName, htype₁, htype₂, hfirst, hsecond]

/-- The entries with the new name are entries. -/
theorem length_of_mem_renamedEntries (h₁ : meta1.length = entrySize) (h₂ : meta2.length = entrySize)
    (hlen : utf16Length name ≤ nameMax) :
    ∀ e ∈ renamedEntries upcase name meta1 meta2, e.length = entrySize := by
  apply length_of_mem_sealEntries
  refine List.forall_mem_cons.2 ⟨length_set_eq _ h₁ (by decide), ?_⟩
  exact List.forall_mem_cons.2 ⟨length_setFields_eq h₂ fits_renameFields2,
    length_of_mem_entriesOfName hlen⟩

/-- The set has the entries its new name needs. -/
theorem length_renamedEntries (upcase : Nat → Nat) (name : List Nat) (meta1 meta2 : Entry) :
    (renamedEntries upcase name meta1 meta2).length = 2 + nameEntries name := by
  obtain ⟨sum, hset⟩ := exists_renamedEntries upcase name meta1 meta2
  rw [hset, List.length_cons, List.length_cons, length_entriesOfName]
  omega

/-- A set with its new name is sealed. -/
theorem sealedSet_renamedEntries (h : StoredSet es) (hlen : utf16Length name ≤ nameMax) :
    SealedSet (renamedEntries upcase name (es.getD 0 []) (es.getD 1 [])) := by
  obtain ⟨meta1, meta2, rest, rfl⟩ := two_of_checkTransitions h.types
  have h₁ : meta1.length = entrySize := h.lengths _ (by simp)
  have h₂ : meta2.length = entrySize := h.lengths _ (by simp)
  rw [List.getD_cons_zero, List.getD_cons_succ, List.getD_cons_zero]
  refine ⟨?_, ?_⟩
  · refine exfatCalcChecksum_sealEntries
      (List.forall_mem_cons.2 ⟨length_set_eq _ h₁ (by decide), ?_⟩)
      (List.cons_ne_nil _ _)
    exact List.forall_mem_cons.2 ⟨length_setFields_eq h₂ fits_renameFields2,
      length_of_mem_entriesOfName hlen⟩
  · rw [length_renamedEntries, continuations_renamedEntries h₁ hlen]
    omega

/-- A set with its new name can be stored. -/
theorem storedSet_renamedEntries (h : StoredSet es) (hlen : utf16Length name ≤ nameMax)
    (hname : utf16Length name ≠ 0) :
    StoredSet (renamedEntries upcase name (es.getD 0 []) (es.getD 1 [])) := by
  have hcount := (@sealedSet_renamedEntries upcase name es h hlen).count
  have htypes := @types_renamedEntries upcase name es h
  obtain ⟨meta1, meta2, rest, rfl⟩ := two_of_checkTransitions h.types
  have h₁ : meta1.length = entrySize := h.lengths _ (by simp)
  have h₂ : meta2.length = entrySize := h.lengths _ (by simp)
  refine ⟨length_of_mem_renamedEntries h₁ h₂ hlen, ?_, hcount, ?_⟩
  · rw [htypes]
    exact checkTransitions_fileSet (nameEntries_pos_iff.2 hname)
  · rw [length_renamedEntries]
    refine (congrArg mandatoryEntries (nameLength_renamedEntries h₂ hlen)).trans_le ?_
    unfold mandatoryEntries nameEntries
    omega

/-- The name of the set is the new one. -/
theorem setName_renamedEntries (h : StoredSet es) (hlen : utf16Length name ≤ nameMax)
    (hunits : ∀ x ∈ name, x < 2 ^ 16) :
    setName (renamedEntries upcase name (es.getD 0 []) (es.getD 1 [])) = nameString name := by
  obtain ⟨meta1, meta2, rest, rfl⟩ := two_of_checkTransitions h.types
  unfold setName
  rw [List.getD_cons_zero, List.getD_cons_succ, List.getD_cons_zero,
    nameLength_renamedEntries (h.lengths _ (by simp)) hlen]
  exact nameString_renamedEntries hlen hunits

/-- A set that could be read can be read after it has been renamed, unless the name is empty. -/
theorem renamedEntries_accepted_iff (h : StoredSet es) (hlen : utf16Length name ≤ nameMax)
    {ef₀ ef : Ef δ} {node₀ node : Node} {s : FileState δ}
    (hread : parseFileEntries es ⟨ef₀, node₀⟩ = .ok (.ok ()) s) (hsb : ef.sb = ef₀.sb) :
    (∃ s, parseFileEntries (renamedEntries upcase name (es.getD 0 []) (es.getD 1 [])) ⟨ef, node⟩ =
      .ok (.ok ()) s) ↔ utf16Length name ≠ 0 := by
  have hacc := accepted_of_parseFileEntries hread
  have hsealed := @sealedSet_renamedEntries upcase name es h hlen
  have htypes := @types_renamedEntries upcase name es h
  obtain ⟨meta1, meta2, rest, rfl⟩ := two_of_checkTransitions h.types
  have h₁ : meta1.length = entrySize := h.lengths _ (by simp)
  have h₂ : meta2.length = entrySize := h.lengths _ (by simp)
  rw [List.getD_cons_zero, List.getD_cons_succ, List.getD_cons_zero] at hsealed htypes ⊢
  have hcont := @continuations_renamedEntries upcase name meta1 meta2 h₁ hlen
  have hnlen := @nameLength_renamedEntries upcase name meta1 meta2 h₂ hlen
  have hattrib : Entry.attrib ((renamedEntries upcase name meta1 meta2).getD 0 []) = meta1.attrib :=
    leAt_renamed_zero h₁ (by omega)
  have hsize : Entry.size ((renamedEntries upcase name meta1 meta2).getD 1 []) = meta2.size :=
    leAt_renamed_one h₂ (by omega)
  have hvalid : Entry.validSize ((renamedEntries upcase name meta1 meta2).getD 1 []) =
      meta2.validSize :=
    leAt_renamed_one h₂ (by omega)
  have hstart : Entry.startCluster ((renamedEntries upcase name meta1 meta2).getD 1 []) =
      meta2.startCluster :=
    leAt_renamed_one h₂ (by omega)
  have hflags : Entry.flags ((renamedEntries upcase name meta1 meta2).getD 1 []) = meta2.flags :=
    leAt_renamed_one h₂ (by omega)
  have hoff : Nat.testBit (Entry.flags ((renamedEntries upcase name meta1 meta2).getD 1 [])) 1 =
      s.node.isContiguous := by
    rw [hflags, hacc.isContiguous]
    rfl
  generalize renamedEntries upcase name meta1 meta2 = renamed at *
  rw [hsealed.accepted_iff, ← nameEntries_pos_iff]
  -- an empty name leaves one entry too few
  constructor
  · rintro ⟨hwell, -⟩
    have := hwell.continuations
    omega
  · intro hpos
    refine ⟨⟨htypes ▸ checkTransitions_fileSet hpos, by omega, ?_, ?_⟩, ?_⟩
    · rw [hflags]
      exact hacc.flags
    · rw [hnlen, hcont]
      unfold mandatoryEntries nameEntries
      omega
    · rw [hsb]
      exact hacc.consistent.congr (hattrib.trans hacc.attrib.symm)
        (hvalid.trans hacc.validSize.symm)
        (hsize.trans hacc.size.symm) (hstart.trans hacc.startCluster.symm) hoff

end Rename

end ExFat
