import ExFat.Session.Listing
import ExFat.Session.SetRoundTrip
import ExFat.Store.FileStore

namespace ExFat

open Bytes Chain Program

/-!
# Sets are found again in their directory

`ReadsBack` says what a directory gives when a set of it is read with `parse_file_entry`.

* `commitEntry_rereads`: after `commit_entry` the directory gives the node that has been put into
  memory.
* `exfatFlushNode_rereads`: after `exfat_flush_node` it gives the node as it is stored.
* `renameEntry_rereads`: after `rename_entry` it gives the old data under the new name.
-/

/-- A set at a place in the directory with the clusters `L` gives a node with these data, whoever
reads it, as long as there is memory for the node. -/
def ReadsBack (ef : Ef Flat) (L : List Nat) (off k : Nat) (data : NodeData) : Prop :=
  ∀ d, HeldDir ef d L → off + entrySize * k ≤ d.size → ∃ r s,
    parseFileEntry off k ⟨ef, d⟩ = .ok r s ∧
    (r = .error .enomem ∨ ∃ m, r = .ok m ∧ m.data = data ∧ m.entryOffset = off)

section Parse

variable {ef : Ef Flat} {d : Node} {L : List Nat} {off k : Nat}

/-- The clock and the log do not matter. -/
theorem HeldDir.retick (h : HeldDir ef d L) (ticks errors : Nat) :
    HeldDir { ef with ticks := ticks, errors := errors } d L :=
  ⟨⟨h.ready.layout, h.ready.word, h.ready.chunkSize, h.ready.size⟩,
    ⟨h.file.chained, h.file.taken, h.file.length, h.file.valid⟩, h.isDir, h.filled, h.zone, h.apart⟩

/-- There is memory for a node, or there is not. -/
theorem run_allocateNode {δ : Type} (ef : Ef δ) :
    ∃ ok ticks errors, allocateNode ef = .ok ok { ef with ticks := ticks, errors := errors } := by
  unfold allocateNode
  rw [run_bind_ok (run_mallocOk _)]
  split
  · exact ⟨_, _, _, rfl⟩
  · exact ⟨_, _, _, rfl⟩

/-- A set that is accepted wherever it is read can be read from the directory. -/
theorem ReadsBack.of_accepted {es : List Entry} {data : NodeData}
    (hes : HeldDir.entriesAt ef L off k = es) (hsealed : SealedSet es)
    (hacc : ∀ (ef' : Ef Flat) (node : Node), ef'.sb = ef.sb → ef'.timezone = 0 →
      ∃ s, parseFileEntries es ⟨ef', node⟩ = .ok (.ok ()) s)
    (hdata : ∀ node, (parsedNode 0 es node).data = data) : ReadsBack ef L off k data := by
  intro d h hin
  obtain ⟨ef₁, d₁, hread, h₁, hsb₁, -⟩ := h.readEntries_run hin
  rw [hes] at hread
  unfold parseFileEntry
  rw [run_bind_ok hread]
  dsimp only
  obtain ⟨ok, ticks, errors, halloc⟩ := run_allocateNode ef₁
  rw [run_bind_ok (run_onEf_ok (s := ⟨ef₁, d₁⟩) halloc)]
  -- the allocation fails, or the node is parsed
  cases ok with
  | false => exact ⟨_, _, rfl, .inl rfl⟩
  | true =>
    rw [if_neg (by decide)]
    obtain ⟨s, hparse⟩ := hacc { ef₁ with ticks := ticks, errors := errors }
      { entryOffset := off } hsb₁ h₁.zone
    have hnode := hsealed.node_eq hparse
    rw [(h₁.retick ticks errors).zone] at hnode
    have hwith : withNode { entryOffset := off } (parseFileEntries es)
      { ef₁ with ticks := ticks, errors := errors } =
        .ok (.ok (), s.node) s.ef := by
      unfold withNode
      rw [hparse]
    rw [run_bind_ok (run_onEf_ok (s := ⟨_, d₁⟩) hwith)]
    refine ⟨_, _, rfl, .inr ⟨s.node, rfl, ?_, ?_⟩⟩
    · rw [hnode]
      exact hdata _
    · rw [hnode]
      rfl

end Parse

/-! ### A directory is read and written -/

section Access

variable {ef ef' ef'' : Ef Flat} {d d' d'' d₂ : Node} {L K : List Nat} {off k : Nat}

/-- The node has not been marked as dirty. -/
structure FileState.SameDirt (s s' : FileState Flat) : Prop where
  attrib : s'.node.attrib = s.node.attrib
  isDirty : s'.node.isDirty = s.node.isDirty

instance : ScanRel FileState.SameDirt where
  refl _ := ⟨rfl, rfl⟩
  trans _ _ _ h h' := ⟨h'.attrib.trans h.attrib, h'.isDirty.trans h.isDirty⟩
  call _ := ⟨rfl, rfl⟩
  report _ := ⟨rfl, rfl⟩
  cursor _ _ _ := ⟨rfl, rfl⟩
  valid _ _ := ⟨rfl, rfl⟩

/-- A directory is not marked as dirty when something is written into it. -/
theorem dirt_pwriteValid (data : List UInt8) (uoffset : Nat) {s : FileState Flat}
    (hs : s.node.isDir = true) :
    wp (pwriteValid data uoffset) (fun _ s' => s.SameDirt s') anyStop s := by
  have hrefl := refl_of FileState.SameDirt s
  unfold pwriteValid
  rw [wp_bind, wp_get]
  split
  · exact hrefl
  rw [wp_bind]
  refine wp_mono (keeps_exfatAdvanceCluster (R := FileState.SameDirt) _ s) ?_ (fun _ _ _ => trivial)
  intro cluster s₁ h₁
  split
  · exact trans_of FileState.SameDirt h₁ (WalkRel.report s₁)
  dsimp only
  rw [wp_bind]
  refine wp_mono (keeps_pwriteLoop (R := FileState.SameDirt) _ _ _ _ _ _ s₁) ?_
    (fun _ _ _ => trivial)
  intro rc s₂ h₂
  have h := trans_of FileState.SameDirt h₁ h₂
  cases rc with
  | error e => exact h
  | ok _ =>
    have hdir : s₂.node.isDir = true := by
      unfold Node.isDir at hs ⊢
      rw [h.attrib]
      exact hs
    dsimp only
    rw [wp_bind, wp_get, hdir, if_neg (by decide)]
    exact h

/-- A directory has been read or written within its size. -/
structure DirStep (ef : Ef Flat) (d : Node) (L : List Nat) (ef' : Ef Flat) (d' : Node) : Prop where
  step : FileStep ef d L ef' d' L
  held : HeldDir ef' d' L
  size : d'.size = d.size
  isDirty : d'.isDirty = d.isDirty

/-- The superblock is as before. -/
theorem DirStep.sb (h : DirStep ef d L ef' d') : ef'.sb = ef.sb := h.step.sb

/-- Two steps on a directory are one. -/
theorem DirStep.trans (h : DirStep ef d L ef' d') (h' : DirStep ef' d' L ef'' d'') :
    DirStep ef d L ef'' d'' :=
  ⟨h.step.trans h'.step, h'.held, h'.size.trans h.size, h'.isDirty.trans h.isDirty⟩

/-- Another directory is as it was. -/
theorem DirStep.other (h : DirStep ef d L ef' d') (h₂ : HeldDir ef d₂ K) (hd : L.Disjoint K) :
    HeldDir ef' d₂ K := by
  have hfile := (File.other h.step h₂.file hd).1
  have hready := h.step.ready h₂.ready
  obtain ⟨b, chunk, dirty, errors, ticks, rfl⟩ := h.step.upd
  exact ⟨hready, hfile, h₂.isDir, h₂.filled, h₂.zone, h₂.apart⟩

/-- `read_entries` reads the entries of a sound directory. -/
theorem HeldDir.readEntries_step (h : HeldDir ef d L) (hin : off + entrySize * k ≤ d.size) :
    ∃ ef' d', readEntries k off ⟨ef, d⟩ = .ok (.ok (entriesAt ef L off k)) ⟨ef', d'⟩ ∧
    DirStep ef d L ef' d' ∧ ef'.dev.bytes = ef.dev.bytes := by
  have hlt := h.size_lt
  obtain ⟨ef', d', hpread, hstep, -, hsize, hvalid, hbytes⟩ :=
    exfatGenericPread_run h.ready h.file h.filled (entrySize * k) off (by omega)
  obtain ⟨ef₁, d₁, hrun, h₁, -⟩ := h.readEntries_run hin
  have hdirt := (walked_readEntries k off).ok hrun
  have hsame : (⟨ef₁, d₁⟩ : FileState Flat) = ⟨ef', d'⟩ := by
    unfold readEntries at hrun
    rw [run_bind_ok (run_get _), h.isDir, if_neg (by decide), run_bind_ok hpread,
      Nat.min_eq_left (by omega)] at hrun
    dsimp only at hrun
    rw [if_pos rfl] at hrun
    cases hrun
    rfl
  cases hsame
  exact ⟨ef', d', hrun, ⟨hstep, h₁, hsize, (congrArg Node.isDirty hdirt.node).trans rfl⟩, hbytes⟩

/-- `write_entries` writes the entries of a sound directory. -/
theorem HeldDir.writeEntries_step (h : HeldDir ef d L) {es : List Entry}
    (hall : ∀ e ∈ es, e.length = entrySize) (hin : off + entrySize * es.length ≤ d.size) :
    ∃ ef' d', writeEntries es off ⟨ef, d⟩ = .ok (.ok ()) ⟨ef', d'⟩ ∧ DirStep ef d L ef' d' ∧
      entriesAt ef' L off es.length = es := by
  have hflat := length_flatten_eq hall
  have hin' : off + es.flatten.length ≤ d.size := by rwa [hflat]
  obtain ⟨ef', d', hpwrite, hstep, -, hsize, -⟩ :=
    pwriteValid_run h.ready h.file es.flatten off hin'
  have hdirt :=
    wp_anyStop_iff.1 (dirt_pwriteValid es.flatten off (s := ⟨ef, d⟩) h.isDir) _ _ hpwrite
  obtain ⟨ef₁, d₁, hrun, h₁, -, hcontent⟩ := h.writeEntries_run hflat hin'
  have hsame : (⟨ef₁, d₁⟩ : FileState Flat) = ⟨ef', d'⟩ := by
    unfold writeEntries at hrun
    rw [run_bind_ok (run_get _), h.isDir, if_neg (by decide),
      run_bind_ok ((h.exfatGenericPwrite_inside hin').trans hpwrite)] at hrun
    dsimp only at hrun
    rw [if_pos hflat] at hrun
    cases hrun
    rfl
  cases hsame
  refine ⟨ef', d', hrun, ⟨hstep, h₁, hsize, hdirt.isDirty⟩, ?_⟩
  unfold entriesAt
  rw [hcontent, ← hflat, readBytes_writeBytes_self, splitEntries_flatten hall]

end Access

/-! ### What the tree does not touch -/

section Tree

variable {δ : Type}

/-- A node without its place in the tree, without its references and without the mark of being
dirty. -/
def Node.filed (n : Node) : Node :=
  { n with
    parent := none, child := [], first := none, next := none, prev := none, references := 0
    isDirty := false }

/-- `linkFirst` leaves what is filed about the nodes alone. -/
theorem filed_linkFirst (i : NodeId) (first : Option NodeId) :
    Keeps (Volume.SameBy Node.filed) (linkFirst (δ := δ) i first) := by
  cases first with
  | none => exact keeps_pure _
  | some f => exact keeps_bind (links_updateNode f fun _ => rfl) fun _ =>
    links_updateNode i fun _ => rfl

/-- `tree_attach` leaves what is filed about the nodes alone. -/
theorem filed_treeAttach (dir i : NodeId) :
    Keeps (Volume.SameBy Node.filed) (treeAttach (δ := δ) dir i) :=
  keeps_bind (links_updateNode i fun _ => rfl) fun _ =>
    keeps_bind (links_of_same (same_getNode dir)) fun d =>
    keeps_bind (filed_linkFirst i d.first) fun _ => links_updateNode dir fun _ => rfl

/-- `bridgeBefore` leaves what is filed about the nodes alone. -/
theorem filed_bridgeBefore (p : NodeId) (next prev : Option NodeId) :
    Keeps (Volume.SameBy Node.filed) (bridgeBefore (δ := δ) p next prev) := by
  cases prev with
  | none => exact links_updateNode p fun _ => rfl
  | some q => exact links_updateNode q fun _ => rfl

/-- `bridgeBehind` leaves what is filed about the nodes alone. -/
theorem filed_bridgeBehind (prev next : Option NodeId) :
    Keeps (Volume.SameBy Node.filed) (bridgeBehind (δ := δ) prev next) := by
  cases next with
  | none => exact keeps_pure _
  | some q => exact links_updateNode q fun _ => rfl

/-- `tree_detach` leaves what is filed about the nodes alone. -/
theorem filed_treeDetach (i : NodeId) :
    Keeps (Volume.SameBy Node.filed) (treeDetach (δ := δ) i) := by
  refine keeps_bind (links_of_same (same_getNode i)) fun n => ?_
  cases n.parent with
  | none => exact keeps_throw _
  | some p =>
    exact keeps_bind (filed_bridgeBefore p _ _) fun _ =>
      keeps_bind (filed_bridgeBehind _ _) fun _ =>
      keeps_bind (links_updateNode p fun _ => rfl) fun _ => links_updateNode i fun _ => rfl

/-- `exfat_put_node` leaves what is filed about the nodes alone. -/
theorem filed_exfatPutNode (i : NodeId) :
    Keeps (Volume.SameBy Node.filed) (exfatPutNode (δ := δ) i) := by
  refine keeps_bind (links_updateNode i fun _ => rfl) fun _ =>
    keeps_bind (links_of_same (same_getNode i)) fun n => ?_
  refine keeps_look fun t => keeps_ite ?_ (keeps_ite ?_ (keeps_pure _))
  · exact keeps_bind (links_onVolume _) fun _ => keeps_throw _
  · exact keeps_bind (links_onVolume _) fun _ => keeps_pure _

/-- The nodes in memory hold what they held. -/
theorem Volume.SameBy.filed {t t' : Volume δ} (h : t.SameBy Node.filed t') {i : NodeId} {n : Node}
    (hi : t.heap i = some n) : ∃ n', t'.heap i = some n' ∧ n'.filed = n.filed := by
  have hview := congrFun h.view i
  unfold Volume.view at hview
  rw [hi, Option.map_some] at hview
  exact Option.map_eq_some_iff.1 hview

/-- A node that has been put into a directory: it has a parent, and the other nodes hold what they
held. -/
theorem attach_spec {dir i : NodeId} {t t' : Volume δ} {a : PUnit}
    (hrun : treeAttach dir i t = .ok a t') :
    t'.ef = t.ef ∧ t.SameBy Node.filed t' ∧ ∀ n, t'.heap i = some n → n.parent = some dir := by
  have hassigned : wp (treeAttach dir i) (fun _ t' => t.Assigned (attached t.kin dir i) t')
      anyStop t :=
    wp_treeAttach fun _ h => h
  have h := wp_anyStop_iff.1 hassigned _ _ hrun
  refine ⟨h.ef, (filed_treeAttach dir i).ok hrun, fun n hn => ?_⟩
  have hkin := congrFun h.kin i
  have hleft : t'.kin i = some n.kin := by
    show (t'.heap i).map Node.kin = _
    rw [hn, Option.map_some]
  rw [hleft] at hkin
  unfold attached at hkin
  obtain ⟨k, -, hk⟩ := Option.map_eq_some_iff.1 hkin.symm
  rw [if_pos rfl] at hk
  exact (congrArg Kin.parent hk).symm

/-- Nodes that are filed alike have the same data. -/
theorem Node.data_of_filed {n n' : Node} (h : n'.filed = n.filed) :
    n'.data = n.data ∧ n'.entryOffset = n.entryOffset := by
  have hdata : n'.filed.data = n.filed.data := congrArg Node.data h
  have hoffset : n'.filed.entryOffset = n.filed.entryOffset := congrArg Node.entryOffset h
  exact ⟨hdata, hoffset⟩

/-- A node that is filed alike is as sound a directory. -/
theorem HeldDir.of_filed {ef : Ef Flat} {d d' : Node} {L : List Nat} (h : HeldDir ef d L)
    (hsame : d'.filed = d.filed) : HeldDir ef d' L ∧ d'.size = d.size := by
  have hdir : d'.isDir = d.filed.isDir := hsame ▸ rfl
  have hfile : File ef d'.filed L :=
    hsame ▸ ⟨⟨h.file.chained.follows, h.file.chained.valid, h.file.chained.nodup,
    h.file.chained.fptr, h.file.chained.empty⟩, h.file.taken, h.file.length, h.file.valid⟩
  have hfilled : d'.filed.validSize = d'.filed.size := hsame ▸ h.filled
  have hsize : d'.filed.size = d.filed.size := congrArg Node.size hsame
  exact ⟨⟨h.ready,
    ⟨⟨hfile.chained.follows, hfile.chained.valid, hfile.chained.nodup, hfile.chained.fptr,
    hfile.chained.empty⟩, hfile.taken, hfile.length, hfile.valid⟩, hdir.trans h.isDir, hfilled,
      h.zone, h.apart⟩, hsize⟩

end Tree

/-! ### A new set -/

/-- The name `b`, in units. -/
def unitsB : List Nat := [0x62]

section Commit

/-- Cutting off the padding leaves the name. -/
theorem nameString_take_utf16Length (name : List Nat) :
    nameString (name.take (utf16Length name)) = nameString name := by
  rw [take_utf16Length, nameString_nameString]

/-- `newNode` gives the node the fresh identifier. -/
theorem newNode_run {δ : Type} (n : Node) (t : Volume δ) : newNode n t =
    .ok t.fresh { t with heap := Function.update t.heap t.fresh (some n), fresh := t.fresh + 1 } :=
      rfl

/-- The node that `commit_entry` puts into memory: the entries it has made say what is in it. -/
theorem run_initNewNode {δ : Type} (entries : List Entry) (node : Node) (ef : Ef δ) :
    ∃ errors, withNode node (do
      initNodeMeta1 (entries.getD 0 [])
      initNodeMeta2 (entries.getD 1 [])) ef =
        .ok (⟨⟩, { parsedNode ef.timezone entries node with name := node.name })
        { ef with errors := errors } := by
  obtain ⟨errors, hmeta1⟩ := run_initNodeMeta1 (entries.getD 0 []) ⟨ef, node⟩
  refine ⟨errors, ?_⟩
  unfold withNode
  rw [run_bind_ok hmeta1]
  rfl

variable {t t' : Volume Flat} {dir : NodeId} {d : Node} {L : List Nat} {name : List Nat}
  {offset attrib : Nat}

/-- What a new node says: no clusters, the attributes, the time and the name it was given. -/
def newData (now : Int) (name : List Nat) (attrib : Nat) : NodeData :=
  ⟨attrib, 1 + nameEntries name, 0, 0, clusterFree, false, (reread 0 true now).getD 0,
    (reread 0 false now).getD 0,
    nameString name⟩

/-- The node `i` is in the directory `dir`, whose clusters are `L`, and its set is there. -/
structure OwnsSet (t : Volume Flat) (dir i : NodeId) (L : List Nat) (n : Node) : Prop where
  node : t.heap i = some n
  parent : n.parent = some dir
  apart : dir ≠ i
  dir : ∃ d, t.heap dir = some d ∧ HeldDir t.ef d L ∧
    n.entryOffset + entrySize * (1 + n.continuations) ≤ d.size
  set : SetFor n (HeldDir.entriesAt t.ef L n.entryOffset (1 + n.continuations))

/-- A node that has been put into a directory owns the set at its place in it. -/
theorem OwnsSet.of_attached {i : NodeId} {m : Node} {es : List Entry} (data : NodeData)
    (hne : dir ≠ i) (hi : t.heap i = some m) (hdir : t.heap dir = some d)
    (hsame : t.SameBy Node.filed t') (hparent : ∀ n, t'.heap i = some n → n.parent = some dir)
    (hheld : HeldDir t'.ef d L) (hoffset : m.entryOffset = offset) (hdata : m.data = data)
    (hin : offset + entrySize * es.length ≤ d.size)
    (hes : HeldDir.entriesAt t'.ef L offset es.length = es) (hstored : StoredSet es)
    (hcount : es.length = 1 + data.continuations) (hname : setName es = data.name) :
    ∃ n, OwnsSet t' dir i L n ∧ n.entryOffset = offset ∧ n.data = data := by
  obtain ⟨n, hi', hn⟩ := hsame.filed hi
  obtain ⟨d', hd', hd⟩ := hsame.filed hdir
  obtain ⟨hndata, hnoffset⟩ := Node.data_of_filed hn
  obtain ⟨hheld', hsize⟩ := hheld.of_filed hd
  have hdata' : n.data = data := hndata.trans hdata
  have hoffset' : n.entryOffset = offset := hnoffset.trans hoffset
  have hcont : es.length = 1 + n.continuations :=
    hcount.trans (congrArg (fun data : NodeData => 1 + data.continuations) hdata'.symm)
  have hstring : nameString n.name = data.name := congrArg NodeData.name hdata'
  refine ⟨n, ⟨hi', hparent n hi', hne, ⟨d', hd', hheld', ?_⟩, ?_⟩, hoffset', hdata'⟩
  · rw [hoffset', ← hcont, hsize]
    exact hin
  · rw [hoffset', ← hcont, hes]
    exact ⟨hstored, hcont, hname.trans hstring.symm⟩

/-- After `commit_entry` the directory gives the node that has been put into memory. -/
theorem commitEntry_rereads (hfresh : t.heap t.fresh = none) (hdir : t.heap dir = some d)
    (hheld : HeldDir t.ef d L) (hin : offset + entrySize * (2 + nameEntries name) ≤ d.size)
    (hlen : utf16Length name ≤ nameMax) (hname : utf16Length name ≠ 0)
    (hunits : ∀ x ∈ name, x < 2 ^ 16) (hattrib : attrib < 2 ^ 16)
    (hrun : commitEntry dir name offset attrib t = .ok (.ok ()) t') :
    ∃ n, OwnsSet t' dir t.fresh L n ∧ n.entryOffset = offset ∧
      n.data = newData (t.ef.time t.ef.ticks) name attrib ∧
      ReadsBack t'.ef L offset (2 + nameEntries name) n.data := by
  -- the node is new, so it is not the directory
  have hne : dir ≠ t.fresh := fun h => by
    rw [h, hfresh] at hdir
    cases hdir
  unfold commitEntry at hrun
  obtain ⟨now, t₁, htime, hrun⟩ := run_bind_eq_ok.1 hrun
  obtain ⟨ef₁, htime, rfl⟩ := run_onVolume_eq_ok htime
  have hnow : t.ef.time t.ef.ticks = now := by
    cases htime
    rfl
  have h₁ : HeldDir ef₁ d L := by
    cases htime
    exact hheld.retick _ t.ef.errors
  rw [run_bind_ok (run_get _)] at hrun
  dsimp only at hrun
  rw [hnow]
  -- without the up-case table the hash cannot be computed
  cases hupcase : ef₁.upcase with
  | none =>
    rw [hupcase] at hrun
    cases hrun
  | some upcase =>
    rw [hupcase, h₁.zone] at hrun
    dsimp only at hrun
    have hall := @length_of_mem_newEntries upcase name attrib hlen (unix2exfat 0 now)
    have hcount := @length_newEntries upcase name attrib (unix2exfat 0 now)
    have hstored := @storedSet_newEntries upcase name attrib hlen hname (unix2exfat 0 now)
    have hsetName := @setName_newEntries upcase name attrib hlen hunits (unix2exfat 0 now)
    have hsealed := @sealedSet_newEntries upcase name attrib hlen (unix2exfat 0 now)
    have hdata := @data_newEntries upcase name 0 now attrib hlen hunits hattrib
    have hacc := fun (ef : Ef Flat) node =>
      (@newEntries_accepted_iff _ upcase name attrib hlen (unix2exfat 0 now) ef node).2 hname
    generalize newEntries upcase (unix2exfat 0 now) name attrib = es at *
    -- the set is written
    obtain ⟨ef₂, d₂, hwrite, hstep, hentries⟩ := h₁.writeEntries_step hall (hcount ▸ hin)
    have h₂ := hstep.held
    rw [run_bind_ok (run_onNode (t := { t with ef := ef₁ }) hdir hwrite)] at hrun
    dsimp only at hrun
    obtain ⟨ok, ticks, errors, halloc⟩ := run_allocateNode ef₂
    rw [run_bind_ok (run_onVolume_ok (t := Volume.store { t with ef := ef₁ } dir ⟨ef₂, d₂⟩)
      halloc)] at hrun
    -- the set has been written, and the node is allocated last
    cases ok with
    | false => cases hrun
    | true =>
      have h₃ := h₂.retick ticks errors
      rw [if_neg (by decide)] at hrun
      -- the node is made
      generalize hef₃ : ({ ef₂ with ticks := ticks, errors := errors } : Ef Flat) = ef₃ at h₃ hrun
      obtain ⟨errors', hnode⟩ :=
        run_initNewNode es { entryOffset := offset, name := name.take (utf16Length name) } ef₃
      rw [run_bind_ok
        (run_onVolume_ok (t := { Volume.store { t with ef := ef₁ } dir ⟨ef₂, d₂⟩ with ef := ef₃ })
          hnode)] at hrun
      rw [run_bind_ok (newNode_run _ _)] at hrun
      obtain ⟨_, t₅, hattach, hrun⟩ := run_bind_eq_ok.1 hrun
      cases hrun
      obtain ⟨hef, hsame, hparent⟩ := attach_spec hattach
      dsimp only [Volume.store] at hsame hef
      have h₄ : HeldDir t'.ef d₂ L := hef ▸ h₃.retick ef₃.ticks errors'
      have hes : HeldDir.entriesAt t'.ef L offset es.length = es := by
        rw [hef, ← hef₃]
        exact hentries
      obtain ⟨n, howns, hoffset, hdata'⟩ := OwnsSet.of_attached (newData now name attrib)
        hne (Function.update_self ..)
        ((Function.update_of_ne hne ..).trans (Function.update_self ..)) hsame hparent h₄ rfl
        (by
          show NodeData.mk _ _ _ _ _ _ _ _ (nameString (name.take (utf16Length name))) = _
          rw [h₃.zone, nameString_take_utf16Length]
          exact congrArg (fun data : NodeData => { data with name := nameString name }) (hdata {}))
        (by rw [hcount, hstep.size]; exact hin) hes hstored
        (hcount.trans (Nat.add_assoc 1 1 _)) hsetName
      refine ⟨n, howns, hoffset, hdata', ?_⟩
      rw [hdata']
      exact ReadsBack.of_accepted (hcount ▸ hes) hsealed (fun ef node _ _ => hacc ef node) hdata

end Commit

/-- A file is made in the root directory of the card. -/
theorem commitEntry_rereads_card :
    ∃ t' n, commitEntry 0 unitsB 256 attribArch lockedA.fs = .ok (.ok ()) t' ∧
      OwnsSet t' 0 lockedA.fs.fresh [4] n ∧ ReadsBack t'.ef [4] 256 3 n.data := by
  have htest : (lockedA.fs.heap lockedA.fs.fresh = none ∧ utf16Length unitsB ≠ 0) ∧
      ((lockedA.fs.heap 0).any fun d => decide (OneCluster lockedA.fs.ef d 4 ∧
        256 + entrySize * 3 ≤ d.size) &&
        returns (fun r _ => decide (r = .ok ())) (commitEntry 0 unitsB 256 attribArch lockedA.fs)) =
          true := by
    decide +kernel
  obtain ⟨⟨hfresh, hname⟩, htest⟩ := htest
  obtain ⟨d, hdir, htest⟩ := (Option.any_eq_true ..).1 htest
  obtain ⟨hone, htest⟩ := Bool.and_eq_true_iff.1 htest
  obtain ⟨hone, hin⟩ := of_decide_eq_true hone
  obtain ⟨r, t', hrun, hr⟩ := of_returns htest
  cases of_decide_eq_true hr
  obtain ⟨n, howns, -, -, hreads⟩ := commitEntry_rereads hfresh hdir hone.held hin
    (by decide) hname (by decide)
    (by decide) hrun
  exact ⟨t', n, hrun, howns, hreads⟩

/-! ### A set that is written back -/

section Flush

variable {t t' : Volume Flat} {i dir : NodeId} {n d : Node} {L : List Nat}

/-- Writing the bitmap does not change the directory. -/
theorem HeldDir.flushed {ef ef' : Ef Flat} (h : HeldDir ef d L) {r : Rc}
    (hrun : exfatFlush ef = .ok r ef') : HeldDir ef' d L ∧ ef'.sb = ef.sb := by
  cases hdirty : ef.cmap.dirty with
  | false =>
    rw [exfatFlush_clean hdirty] at hrun
    cases hrun
    exact ⟨h, rfl⟩
  | true =>
    have hstart : ¬ ef.cmap.startCluster < 2 := by
      intro hlt
      rw [exfatFlush_bug hdirty hlt] at hrun
      cases hrun
    rw [exfatFlush_write hdirty (Nat.le_of_not_lt hstart)] at hrun
    cases hrun
    have hfollows :
        Follows (nextOf ef.sb (writeBytes ef.dev.bytes (clusterOffset ef.sb ef.cmap.startCluster +
          0)
        (bitmapBytes ef)) d.isContiguous) d.startCluster L := by
      refine h.file.chained.follows.congr_of_mem fun c hc => ?_
      unfold nextOf
      rw [fatEntry_writeCluster h.ready.layout (h.file.chained.valid c hc)]
    exact ⟨⟨⟨h.ready.layout, h.ready.word, h.ready.chunkSize, h.ready.size⟩,
      ⟨⟨hfollows, h.file.chained.valid, h.file.chained.nodup, h.file.chained.fptr,
        h.file.chained.empty⟩,
        h.file.taken, h.file.length, h.file.valid⟩, h.isDir, h.filled, h.zone, h.apart⟩, rfl⟩

/-- The set is rewritten as it was found, with the fields of the node. -/
theorem rewriteEntries_entries (hdir : t.heap dir = some d) (h : HeldDir t.ef d L)
    (hin : n.entryOffset + entrySize * (1 + n.continuations) ≤ d.size)
    (hrun : rewriteEntries dir n t = .ok (.ok ()) t') :
    ∃ ef' d', t' = t.store dir ⟨ef', d'⟩ ∧ DirStep t.ef d L ef' d' ∧
      HeldDir.entriesAt ef' L n.entryOffset (1 + n.continuations) =
        flushedEntries 0 n (HeldDir.entriesAt t.ef L n.entryOffset (1 + n.continuations)) := by
  obtain ⟨ef₁, d₁, hread, h₁, -⟩ := h.readEntries_step hin
  have hall : ∀ e ∈ HeldDir.entriesAt t.ef L n.entryOffset (1 + n.continuations),
      e.length = entrySize :=
    length_of_mem_splitEntries (length_readBytes ..)
  have hcount : (HeldDir.entriesAt t.ef L n.entryOffset (1 + n.continuations)).length =
      1 + n.continuations := by
    unfold HeldDir.entriesAt splitEntries
    rw [List.length_map, List.length_range]
  generalize HeldDir.entriesAt t.ef L n.entryOffset (1 + n.continuations) = es at hread hall hcount
  unfold rewriteEntries at hrun
  rw [run_bind_ok (run_onNode hdir hread)] at hrun
  obtain ⟨ok, t₂, hcheck, hrun⟩ := run_bind_eq_ok.1 hrun
  obtain ⟨ef₂, hcheck, rfl⟩ := run_onVolume_eq_ok hcheck
  -- a set that is refused ends the call before anything is written
  cases ok with
  | false => cases hrun
  | true =>
    have hef₂ : ef₂ = ef₁ := by
      unfold checkEntries at hcheck
      split at hcheck
      · cases hcheck
        rfl
      · cases hcheck
    subst hef₂
    have hlen := length_flushedEntries 0 n es
    obtain ⟨ef₃, d₃, hwrite, h₃, hentries⟩ := h₁.held.writeEntries_step
      (length_of_mem_flushedEntries 0 n hall) (show n.entryOffset + _ ≤ _ by
        rw [hlen, hcount, h₁.size]; exact hin)
    rw [hlen, hcount] at hentries
    rw [if_neg (by decide), run_bind_ok (run_get _)] at hrun
    dsimp only at hrun
    rw [h₁.held.zone] at hrun
    cases hrun.symm.trans (run_onNode (store_heap_self t dir ⟨ef₂, d₁⟩) hwrite)
    exact ⟨ef₃, d₃, store_store .., h₁.trans h₃, hentries⟩

/-- What a node says once it has been stored: its times are those that an entry can hold. -/
def Node.stored (n : Node) : NodeData :=
  { n.written.data with
    mtime := (reread 0 true n.mtime).getD 0, atime := (reread 0 false n.atime).getD 0 }

/-- After `exfat_flush_node` the directory gives the node as it is stored, and the set is still its
set. -/
theorem exfatFlushNode_rereads (h : OwnsSet t dir i L n) (hdirty : n.isDirty = true)
    (hfits : n.Fits) (hcons : n.written.Consistent t.ef.sb)
    (hrun : exfatFlushNode i t = .ok (.ok ()) t') :
    OwnsSet t' dir i L { n with isDirty := false } ∧
      ReadsBack t'.ef L n.entryOffset (1 + n.continuations) n.stored := by
  obtain ⟨d, hdir, hheld, hin⟩ := h.dir
  have hset := h.set
  -- on a read-only volume the call stops
  have hro : t.ef.ro = false := by
    cases hro : t.ef.ro with
    | false => rfl
    | true =>
      rw [exfatFlushNode_ro h.node hdirty hro] at hrun
      cases hrun
  rw [exfatFlushNode_dirty h.node hdirty hro h.parent] at hrun
  cases hwrite : rewriteEntries dir n t with
  | error e t₁ =>
    rw [hwrite] at hrun
    cases hrun
  | ok r t₁ =>
    rw [hwrite] at hrun
    cases r with
    | error e => cases hrun
    | ok _ =>
      obtain ⟨ef₁, d₁, rfl, hstep, hentries⟩ := rewriteEntries_entries hdir hheld hin hwrite
      have h₁ := hstep.held
      generalize HeldDir.entriesAt t.ef L n.entryOffset (1 + n.continuations) = es at hset hentries
      have hnode : (t.store dir ⟨ef₁, d₁⟩).heap i = some n :=
        (store_heap_of_ne _ h.apart.symm).trans h.node
      dsimp only at hrun
      unfold settle at hrun
      rw [run_bind_ok (run_updateNode hnode _)] at hrun
      obtain ⟨ef₂, hflush, rfl⟩ := run_onVolume_eq_ok hrun
      obtain ⟨h₂, hsb₂⟩ := h₁.flushed hflush
      have hes : HeldDir.entriesAt ef₂ L n.entryOffset (1 + n.continuations) =
          flushedEntries 0 n es := by
        rw [← hentries]
        exact congrArg (fun b => splitEntries _ (readBytes b _ _)) (h₁.content_exfatFlush hflush)
      have hstored := hset.toStoredSet
      have hcont : 1 + n.continuations = 1 + (es.getD 0 []).continuations :=
        hset.counted.symm.trans hset.count
      -- the node owns its set again, and the set reads back as the node
      refine ⟨⟨Function.update_self .., h.parent, h.apart, ⟨d₁, ?_, h₂, ?_⟩, ?_⟩, ?_⟩
      · exact (store_heap_of_ne _ h.apart).trans (store_heap_self ..)
      · dsimp only
        rw [hstep.size]
        exact hin
      · dsimp only
        rw [hes]
        exact ⟨storedSet_flushedEntries hstored 0 n,
          (length_flushedEntries 0 n es).trans hset.counted,
          (setName_flushedEntries hstored 0 n).trans hset.name⟩
      · refine ReadsBack.of_accepted hes (sealedSet_flushedEntries hstored 0 n)
          (fun ef node hsb _ => ?_) fun node => ?_
        · have hsb' : ef.sb = t.ef.sb := hsb.trans (hsb₂.trans hstep.sb)
          have hiff := @flushedEntries_accepted_iff _ es n 0 hstored hfits ef node
          rw [hsb'] at hiff
          exact hiff.2 hcons
        · rw [data_flushedEntries hstored hfits, hset.name]
          rw [show (es.getD 0 []).continuations = n.continuations by omega]
          rfl

end Flush

/-- The file on the card gets another attribute. -/
def touchedA : Volume Flat :=
  finalState (updateNode 1 (fun n => { n with attrib := 0x21, isDirty := true }) lockedA.fs)

/-- The file is written back. -/
theorem exfatFlushNode_rereads_card : ∃ t' n, OwnsSet touchedA 0 1 [4] n ∧
    exfatFlushNode 1 touchedA = .ok (.ok ()) t' ∧ n.stored.attrib = 0x21 ∧
    ReadsBack t'.ef [4] n.entryOffset (1 + n.continuations) n.stored := by
  have htest : ((touchedA.heap 1).any fun n => (touchedA.heap 0).any fun d =>
      decide ((n.parent = some 0 ∧ n.isDirty = true ∧ n.stored.attrib = 0x21) ∧
        (OneCluster touchedA.ef d 4 ∧ n.entryOffset + entrySize * (1 + n.continuations) ≤ d.size) ∧
        SetFor n (HeldDir.entriesAt touchedA.ef [4] n.entryOffset (1 + n.continuations)) ∧ n.Fits ∧
        n.written.Consistent touchedA.ef.sb)) = true ∧
      returns (fun r _ => decide (r = .ok ())) (exfatFlushNode 1 touchedA) = true := by
    decide +kernel
  obtain ⟨hnode, hflush⟩ := htest
  obtain ⟨n, hi, hnode⟩ := (Option.any_eq_true ..).1 hnode
  obtain ⟨d, hdir, hnode⟩ := (Option.any_eq_true ..).1 hnode
  obtain ⟨⟨hp, hdirty, hattrib⟩, ⟨hone, hin⟩, hset, hfits, hcons⟩ := of_decide_eq_true hnode
  obtain ⟨r, t', hrun, hr⟩ := of_returns hflush
  cases of_decide_eq_true hr
  have howns : OwnsSet touchedA 0 1 [4] n := ⟨hi, hp, by decide, ⟨d, hdir, hone.held, hin⟩, hset⟩
  exact ⟨t', n, howns, hrun, hattrib, (exfatFlushNode_rereads howns hdirty hfits hcons hrun).2⟩

/-! ### A set that gets a new name -/

section Rename

variable {t t' : Volume Flat} {p dir i : NodeId} {n d dp : Node} {L K : List Nat}
  {name : List Nat} {offset : Nat}

/-- Entries are erased within a directory. -/
theorem HeldDir.eraseEntries_step {ef : Ef Flat} {off k : Nat} (h : HeldDir ef d L)
    (hin : off + entrySize * k ≤ d.size) :
    ∃ ef' d', eraseEntries k off ⟨ef, d⟩ = .ok (.ok ()) ⟨ef', d'⟩ ∧ DirStep ef d L ef' d' := by
  obtain ⟨ef₁, d₁, hread, h₁, -⟩ := h.readEntries_step hin
  have hall : ∀ e ∈ entriesAt ef L off k, e.length = entrySize :=
    length_of_mem_splitEntries (length_readBytes ..)
  have hcount : (entriesAt ef L off k).length = k := by
    unfold entriesAt splitEntries
    rw [List.length_map, List.length_range]
  have herased : ∀ e ∈ (entriesAt ef L off k).map Entry.invalidate, e.length = entrySize := by
    intro e he
    obtain ⟨e₀, he₀, rfl⟩ := List.mem_map.1 he
    exact length_set_eq _ (hall e₀ he₀) (by decide)
  obtain ⟨ef₂, d₂, hwrite, h₂, -⟩ := h₁.held.writeEntries_step herased
    (show off + _ ≤ _ by rw [List.length_map, hcount, h₁.size]; exact hin)
  refine ⟨ef₂, d₂, ?_, h₁.trans h₂⟩
  unfold eraseEntries
  rw [run_bind_ok hread]
  exact hwrite

/-- The directories `dirs` are in memory and sound, and each has clusters of its own. -/
structure SoundDirs (t : Volume Flat) (dirs : List NodeId) (clusters : NodeId → List Nat) :
    Prop where
  held : ∀ x ∈ dirs, ∃ d, t.heap x = some d ∧ HeldDir t.ef d (clusters x)
  apart : ∀ x ∈ dirs, ∀ y ∈ dirs, x ≠ y → (clusters x).Disjoint (clusters y)

/-- The set of the node `x`, if it has one, lies in a directory that is one of `dirs`. -/
def InParent (t : Volume Flat) (dirs : List NodeId) (x : NodeId) (n : Node) : Prop :=
  ∀ g, n.parent = some g → g ∈ dirs ∧ g ≠ x ∧
    ∃ d, t.heap g = some d ∧ n.entryOffset + entrySize * (1 + n.continuations) ≤ d.size

variable {dirs : List NodeId} {clusters : NodeId → List Nat} {x : NodeId} {t₁ t₂ : Volume Flat}

/-- The directories of the list are sound. -/
theorem SoundDirs.heldDir (hs : SoundDirs t dirs clusters) (hmem : x ∈ dirs)
    (hx : t.heap x = some d) : HeldDir t.ef d (clusters x) := by
  obtain ⟨d', hx', hheld⟩ := hs.held x hmem
  cases hx.symm.trans hx'
  exact hheld

/-- Work on sound directories that keeps them sound, and that leaves the data of the node `i` alone.
-/
structure DirWork (dirs : List NodeId) (clusters : NodeId → List Nat) (i : NodeId)
    (t t' : Volume Flat) :
    Prop where
  sound : SoundDirs t' dirs clusters
  size : ∀ x ∈ dirs, ∀ d, t.heap x = some d → ∃ d', t'.heap x = some d' ∧ d'.size = d.size
  node : ∀ n, t.heap i = some n → ∃ n', t'.heap i = some n' ∧ n'.filed = n.filed
  sb : t'.ef.sb = t.ef.sb

/-- Two pieces of work on the directories are one. -/
theorem DirWork.trans (h : DirWork dirs clusters i t t₁) (h' : DirWork dirs clusters i t₁ t₂) :
    DirWork dirs clusters i t t₂ := by
  refine ⟨h'.sound, fun x hmem d hx => ?_, fun n hn => ?_, h'.sb.trans h.sb⟩
  · obtain ⟨d₁, hx₁, hsize₁⟩ := h.size x hmem d hx
    obtain ⟨d₂, hx₂, hsize₂⟩ := h'.size x hmem d₁ hx₁
    exact ⟨d₂, hx₂, hsize₂.trans hsize₁⟩
  · obtain ⟨n₁, hn₁, heq₁⟩ := h.node n hn
    obtain ⟨n₂, hn₂, heq₂⟩ := h'.node n₁ hn₁
    exact ⟨n₂, hn₂, heq₂.trans heq₁⟩

/-- A set keeps its place. -/
theorem DirWork.inParent (h : DirWork dirs clusters i t t') {n' : Node}
    (hparent : n'.parent = n.parent) (hoffset : n'.entryOffset = n.entryOffset)
    (hcount : n'.continuations = n.continuations) (hplace : InParent t dirs x n) :
    InParent t' dirs x n' := by
  intro g hg
  obtain ⟨hmem, hgx, e, hge, hin⟩ := hplace g (hparent.symm.trans hg)
  obtain ⟨e', hge', hsize⟩ := h.size g hmem e hge
  refine ⟨hmem, hgx, e', hge', ?_⟩
  rw [hsize, hoffset, hcount]
  exact hin

/-- A directory is read or written: the others are as they were. -/
theorem DirWork.store (hs : SoundDirs t dirs clusters) (hi : i ∉ dirs) (hmem : x ∈ dirs)
    (hx : t.heap x = some d) {ef' : Ef Flat} {d' : Node}
    (hstep : DirStep t.ef d (clusters x) ef' d') :
    DirWork dirs clusters i t (t.store x ⟨ef', d'⟩) := by
  refine ⟨⟨fun y hy => ?_, hs.apart⟩, fun y hy e hye => ?_, fun n hn => ?_, hstep.sb⟩
  · by_cases hyx : y = x
    · subst hyx
      exact ⟨d', store_heap_self .., hstep.held⟩
    · obtain ⟨e, hye, hheld⟩ := hs.held y hy
      exact ⟨e, (store_heap_of_ne _ hyx).trans hye,
        hstep.other hheld (hs.apart x hmem y hy (Ne.symm hyx))⟩
  · by_cases hyx : y = x
    · subst hyx
      cases hx.symm.trans hye
      exact ⟨d', store_heap_self .., hstep.size⟩
    · exact ⟨e, (store_heap_of_ne _ hyx).trans hye, rfl⟩
  · have hne : i ≠ x := fun h => hi (h.symm ▸ hmem)
    exact ⟨n, (store_heap_of_ne _ hne).trans hn, rfl⟩

/-- The nodes change their places in the tree. -/
theorem DirWork.filed (hs : SoundDirs t dirs clusters) (hef : t'.ef = t.ef)
    (hsame : t.SameBy Node.filed t') : DirWork dirs clusters i t t' := by
  refine ⟨⟨fun x hmem => ?_, hs.apart⟩, fun x _ d hx => ?_, fun n hn => hsame.filed hn,
    congrArg Ef.sb hef⟩
  · obtain ⟨d, hx, hheld⟩ := hs.held x hmem
    obtain ⟨d', hx', heq⟩ := hsame.filed hx
    rw [hef]
    exact ⟨d', hx', (hheld.of_filed heq).1⟩
  · obtain ⟨d', hx', heq⟩ := hsame.filed hx
    have hsize : d'.filed.size = d.filed.size := congrArg Node.size heq
    exact ⟨d', hx', hsize⟩

/-- The bitmap is written. -/
theorem DirWork.flushed (hs : SoundDirs t dirs clusters) (hmem : x ∈ dirs) {ef' : Ef Flat} {r : Rc}
    (hrun : exfatFlush t.ef = .ok r ef') : DirWork dirs clusters i t { t with ef := ef' } := by
  refine ⟨⟨fun y hy => ?_, hs.apart⟩, fun y _ d hy => ⟨d, hy, rfl⟩, fun n hn => ⟨n, hn, rfl⟩, ?_⟩
  · obtain ⟨d, hyd, hheld⟩ := hs.held y hy
    exact ⟨d, hyd, (hheld.flushed hrun).1⟩
  · obtain ⟨d, -, hheld⟩ := hs.held x hmem
    exact (hheld.flushed hrun).2

/-- Marking a node clean leaves what is filed about the nodes alone. -/
theorem filed_markClean (x : NodeId) :
    Keeps (Volume.SameBy Node.filed) (updateNode (δ := Flat) x fun n =>
      { n with isDirty := false }) :=
  links_updateNode x fun _ => rfl

/-- `exfat_get_node` leaves what is filed about the nodes alone. -/
theorem filed_exfatGetNode (x : NodeId) :
    Keeps (Volume.SameBy Node.filed) (exfatGetNode (δ := Flat) x) := links_updateNode x fun _ => rfl

/-- `exfat_flush_node` of a directory: a dirty one has its set in its own directory. -/
theorem exfatFlushNode_work (hs : SoundDirs t dirs clusters) (hi : i ∉ dirs)
    (hx : t.heap x = some d) (hplace : d.isDirty = true → InParent t dirs x d)
    (hrun : exfatFlushNode x t = .ok (.ok ()) t') : DirWork dirs clusters i t t' := by
  have hrefl : DirWork dirs clusters i t t := .filed hs rfl (refl_of (Volume.SameBy Node.filed) t)
  -- a clean directory is left as it is
  cases hdirty : d.isDirty with
  | false =>
    rw [exfatFlushNode_clean hx hdirty] at hrun
    cases hrun
    exact hrefl
  | true =>
  cases hro : t.ef.ro with
  | true =>
    rw [exfatFlushNode_ro hx hdirty hro] at hrun
    cases hrun
  | false =>
  cases hparent : d.parent with
  | none =>
    rw [exfatFlushNode_root hx hro hparent] at hrun
    cases hrun
    exact hrefl
  | some g =>
    obtain ⟨hmem, -, e, hg, hin⟩ := hplace hdirty g hparent
    rw [exfatFlushNode_dirty hx hdirty hro hparent] at hrun
    cases hwrite : rewriteEntries g d t with
    | error e t₁ =>
      rw [hwrite] at hrun
      cases hrun
    | ok r t₁ =>
      rw [hwrite] at hrun
      cases r with
      | error e => cases hrun
      | ok _ =>
        obtain ⟨ef₁, e₁, rfl, hstep, -⟩ := rewriteEntries_entries hg (hs.heldDir hmem hg) hin hwrite
        have hwork := DirWork.store hs hi hmem hg hstep
        dsimp only at hrun
        unfold settle at hrun
        obtain ⟨_, t₂, hclean, hrun⟩ := run_bind_eq_ok.1 hrun
        have hwork₂ := DirWork.filed (i := i) hwork.sound ((sameEf_updateNode x _).ok hclean)
          ((filed_markClean x).ok hclean)
        obtain ⟨ef₃, hflush, rfl⟩ := run_onVolume_eq_ok hrun
        exact (hwork.trans hwork₂).trans (.flushed hwork₂.sound hmem hflush)

/-- `erase_node`: the directory that loses the entries is written back if it is dirty. -/
theorem eraseNode_work (hs : SoundDirs t dirs clusters) (hi : i ∉ dirs) (hn : t.heap i = some n)
    (hp : n.parent = some p) (hmem : p ∈ dirs) (hdp : t.heap p = some dp)
    (hin : n.entryOffset + entrySize * (1 + n.continuations) ≤ dp.size)
    (hup : dp.isDirty = true → InParent t dirs p dp) (hrun : eraseNode i t = .ok (.ok ()) t') :
    DirWork dirs clusters i t t' := by
  unfold eraseNode at hrun
  rw [run_bind_ok (run_getNode hn), hp] at hrun
  dsimp only at hrun
  -- the directory is held while its entries are erased
  have hget : exfatGetNode p t = .ok ⟨⟩
      (t.store p ⟨t.ef, { dp with references := dp.references + 1 }⟩) :=
    run_updateNode hdp _
  have hwork₁ : DirWork dirs clusters i t
      (t.store p ⟨t.ef, { dp with references := dp.references + 1 }⟩) :=
    .filed hs rfl ((filed_exfatGetNode p).ok hget)
  have hself₁ := store_heap_self t p ⟨t.ef, { dp with references := dp.references + 1 }⟩
  rw [run_bind_ok hget] at hrun
  generalize t.store p ⟨t.ef, { dp with references := dp.references + 1 }⟩ =
    t₁ at hrun hwork₁ hself₁
  obtain ⟨ef₂, d₂, herase, hstep⟩ := (hwork₁.sound.heldDir hmem hself₁).eraseEntries_step hin
  have hwork₂ := hwork₁.trans (.store hwork₁.sound hi hmem hself₁ hstep)
  rw [run_bind_ok (run_onNode hself₁ herase)] at hrun
  dsimp only at hrun
  obtain ⟨rc, t₃, hflush, hrun⟩ := run_bind_eq_ok.1 hrun
  obtain ⟨_, t₄, hput, hrun⟩ := run_bind_eq_ok.1 hrun
  cases hrun
  have hkept := hstep.step.kept
  have hwork₃ := hwork₂.trans (exfatFlushNode_work hwork₂.sound hi (store_heap_self t₁ p ⟨ef₂, d₂⟩)
    (fun hdirty => hwork₂.inParent hkept.parent hkept.entryOffset hkept.continuations
      (hup (hstep.isDirty.symm.trans hdirty))) hflush)
  exact hwork₃.trans
    (.filed hwork₃.sound ((sameEf_exfatPutNode p).ok hput) ((filed_exfatPutNode p).ok hput))

/-- An entry of the directory, read with more or fewer that follow it. -/
theorem HeldDir.getD_entriesAt {ef : Ef Flat} {off j k : Nat} (hj : j < k) :
    (entriesAt ef L off k).getD j [] =
      readBytes (content ef.sb ef.dev.bytes L) (off + entrySize * j) entrySize := by
  have hle : entrySize * (j + 1) ≤ entrySize * k := Nat.mul_le_mul_left _ hj
  rw [Nat.mul_succ] at hle
  unfold entriesAt splitEntries
  rw [List.getD_eq_getElem _ _ (by simpa using hj), List.getElem_map,
    List.getElem_range, take_drop_readBytes,
    Nat.min_eq_left (by omega)]

/-- After `rename_entry` the directory gives the old data under the new name, and the node in memory
has them.  An old directory that is dirty is written back on the way. -/
theorem renameEntry_rereads (hs : SoundDirs t dirs clusters) (hi : i ∉ dirs)
    (h : OwnsSet t p i (clusters p) n) (hp : p ∈ dirs)
    (hup : ∀ dp, t.heap p = some dp → dp.isDirty = true → InParent t dirs p dp) (hmem : dir ∈ dirs)
    (hdir : t.heap dir = some d) (hin : offset + entrySize * (2 + nameEntries name) ≤ d.size)
    (hlen : utf16Length name ≤ nameMax) (hname : utf16Length name ≠ 0)
    (hunits : ∀ x ∈ name, x < 2 ^ 16) {es : List Entry}
    (hes : HeldDir.entriesAt t.ef (clusters p) n.entryOffset (1 + n.continuations) = es)
    (hread : ∃ s, parseFileEntries es ⟨t.ef, {}⟩ = .ok (.ok ()) s)
    (hrun : renameEntry dir i name offset t = .ok (.ok ()) t') :
    ∃ n', OwnsSet t' dir i (clusters dir) n' ∧ n'.entryOffset = offset ∧
      n'.data = { n.data with continuations := 1 + nameEntries name, name := nameString name } ∧
      ReadsBack t'.ef (clusters dir) offset (2 + nameEntries name) { (parsedNode 0 es {}).data with
          continuations := 1 + nameEntries name, name := nameString name } := by
  have hne : dir ≠ i := fun h => hi (h ▸ hmem)
  obtain ⟨dp, hdp, hheldp, hinp⟩ := h.dir
  have hset := h.set
  rw [hes] at hset
  have hstored := hset.toStoredSet
  have htwo : 2 ≤ 1 + n.continuations := by
    have htwo := hstored.two_le
    have hcount := hset.counted.symm.trans hset.count
    omega
  -- the first two entries of the old set
  obtain ⟨ef₁, dp₁, hread₁, hstep₁, -⟩ := hheldp.readEntries_step
    (show n.entryOffset + entrySize * 2 ≤
      _ from le_trans (Nat.add_le_add_left (Nat.mul_le_mul_left _ htwo) _) hinp)
  have hwork₁ := DirWork.store hs hi hp hdp hstep₁
  have hmeta : ∀ j < 2,
      (HeldDir.entriesAt t.ef (clusters p) n.entryOffset 2).getD j [] = es.getD j [] :=
    fun j hj => by
      rw [← hes, HeldDir.getD_entriesAt hj, HeldDir.getD_entriesAt (Nat.lt_of_lt_of_le hj htwo)]
  unfold renameEntry at hrun
  rw [run_bind_ok (run_getNode h.node), h.parent] at hrun
  dsimp only at hrun
  rw [run_bind_ok (run_onNode hdp hread₁)] at hrun
  dsimp only at hrun
  rw [run_bind_ok (run_get _), hmeta 0 (by omega), hmeta 1 (by omega)] at hrun
  -- as above, the hash needs the up-case table
  cases hupcase : (t.store p ⟨ef₁, dp₁⟩).ef.upcase with
  | none =>
    rw [hupcase] at hrun
    cases hrun
  | some upcase =>
    rw [hupcase] at hrun
    dsimp only at hrun
    obtain ⟨rc, t₂, herase, hrun⟩ := run_bind_eq_ok.1 hrun
    cases rc with
    | error e => cases hrun
    | ok _ =>
      -- the old set is erased
      have hi₁ : (t.store p ⟨ef₁, dp₁⟩).heap i = some n :=
        (store_heap_of_ne _ h.apart.symm).trans h.node
      have hkept := hstep₁.step.kept
      have hwork₂ :=
        hwork₁.trans (eraseNode_work hwork₁.sound hi hi₁ h.parent hp (store_heap_self t p _)
        (hstep₁.size.symm ▸ hinp) (fun hdirty => hwork₁.inParent hkept.parent hkept.entryOffset
          hkept.continuations (hup dp hdp (hstep₁.isDirty.symm.trans hdirty))) herase)
      obtain ⟨n₂, hi₂, hn₂⟩ := hwork₂.node n h.node
      obtain ⟨d₂, hd₂, hsize₂⟩ := hwork₂.size dir hmem d hdir
      have hheld₂ := hwork₂.sound.heldDir hmem hd₂
      dsimp only at hrun
      rw [run_bind_ok (run_updateNode hi₂ _)] at hrun
      -- the new set is written
      have hnew := @storedSet_renamedEntries upcase name es hstored hlen hname
      have hnewName := @setName_renamedEntries upcase name es hstored hlen hunits
      have hsealed := @sealedSet_renamedEntries upcase name es hstored hlen
      have hdata := @data_renamedEntries upcase name 0 es hstored hlen hunits
      have hcount := length_renamedEntries upcase name (es.getD 0 []) (es.getD 1 [])
      have hacc : ∀ (ef : Ef Flat) (node : Node), ef.sb = t.ef.sb → ∃ s, parseFileEntries
          (renamedEntries upcase name (es.getD 0 []) (es.getD 1 []))
          ⟨ef, node⟩ = .ok (.ok ()) s := by
        intro ef node hsb
        obtain ⟨s, hread⟩ := hread
        exact (renamedEntries_accepted_iff hstored hlen hread hsb).2 hname
      generalize renamedEntries upcase name (es.getD 0 []) (es.getD 1 []) = es' at *
      obtain ⟨ef₄, d₄, hwrite, hstep₄, hentries⟩ := hheld₂.writeEntries_step hnew.lengths
        (show offset + _ ≤ _ by rw [hcount, hsize₂]; exact hin)
      have hd₃ : (t₂.store i ⟨t₂.ef,
          { n₂ with entryOffset := offset, continuations := 1 + nameEntries name }⟩).heap dir =
          some d₂ := (store_heap_of_ne _ hne).trans hd₂
      rw [run_bind_ok (run_onNode hd₃ hwrite)] at hrun
      dsimp only at hrun
      rw [run_bind_ok (run_updateNode ((store_heap_of_ne _ hne.symm).trans (store_heap_self ..))
        _)] at hrun
      -- the node changes its directory
      obtain ⟨_, t₆, hdetach, hrun⟩ := run_bind_eq_ok.1 hrun
      obtain ⟨_, t₇, hattach, hrun⟩ := run_bind_eq_ok.1 hrun
      cases hrun
      have hef₆ := (sameEf_treeDetach i).ok hdetach
      obtain ⟨hef₇, hsame₇, hparent⟩ := attach_spec hattach
      have hsame := trans_of (Volume.SameBy Node.filed) ((filed_treeDetach i).ok hdetach) hsame₇
      have hef : t'.ef = ef₄ := hef₇.trans hef₆
      have hes' : HeldDir.entriesAt t'.ef (clusters dir) offset es'.length = es' := by
        rw [hef]
        exact hentries
      have hsb : t'.ef.sb = t.ef.sb := by
        rw [hef, hstep₄.sb]
        exact hwork₂.sb
      -- the node is found at its new place with the name of the call
      obtain ⟨n', howns, hoffset, hdata'⟩ := OwnsSet.of_attached
        { n.data with continuations := 1 + nameEntries name, name := nameString name }
        hne (store_heap_self ..) ((store_heap_of_ne _ hne).trans (store_heap_self ..)) hsame hparent
        (hef ▸ hstep₄.held) rfl (by rw [← (Node.data_of_filed hn₂).1]; rfl)
        (by rw [hcount, hstep₄.size, hsize₂]; exact hin) hes' hnew
        (hcount.trans (Nat.add_assoc 1 1 _)) hnewName
      refine ⟨n', howns, hoffset, hdata', ?_⟩
      refine ReadsBack.of_accepted (hcount ▸ hes') hsealed
        (fun ef node hsb' _ => hacc ef node (hsb'.trans hsb)) fun node => ?_
      rw [hdata]
      rfl

end Rename

/-- A directory is made on the card, and a file in it. -/
def makeD : TreeM Flat PUnit := do
  let _ ← exfatMkdir [0x2f, 0x64]
  let _ ← exfatMknod [0x2f, 0x64, 0x2f, 0x78]
  updateNode 2 fun n => { n with isDirty := true }

/-- The card with the directory, which has still to be written back. -/
def dirtyD : Volume Flat := finalState (makeD lockedA.fs)

/-- The file is moved from the directory to the root, under another name. -/
theorem renameEntry_rereads_card : ∃ t' n n' d, OwnsSet dirtyD 2 3 [5] n ∧
    dirtyD.heap 2 = some d ∧ d.isDirty = true ∧ d.parent = some 0 ∧
    renameEntry 0 3 unitsB 256 dirtyD = .ok (.ok ()) t' ∧ OwnsSet t' 0 3 [4] n' ∧
    n'.data = { n.data with name := unitsB } := by
  have htest : ((dirtyD.heap 3).any fun n => (dirtyD.heap 2).any fun d =>
    (dirtyD.heap 0).any fun r =>
      decide ((n.parent = some 2 ∧ d.parent = some 0 ∧ n.data.continuations = 2 ∧
        d.isDirty = true) ∧
        (OneCluster dirtyD.ef r 4 ∧ OneCluster dirtyD.ef d 5 ∧
          n.entryOffset + entrySize * (1 + n.continuations) ≤ d.size ∧
          d.entryOffset + entrySize * (1 + d.continuations) ≤ r.size ∧
            256 + entrySize * 3 ≤ r.size) ∧
        SetFor n (HeldDir.entriesAt dirtyD.ef [5] n.entryOffset (1 + n.continuations))) &&
      returns (fun r _ => decide (r = .ok ()))
        (parseFileEntries (HeldDir.entriesAt dirtyD.ef [5] n.entryOffset (1 + n.continuations))
          ⟨dirtyD.ef, {}⟩)) = true ∧
      returns (fun r _ => decide (r = .ok ())) (renameEntry 0 3 unitsB 256 dirtyD) = true := by
    decide +kernel
  obtain ⟨hnode, hrename⟩ := htest
  obtain ⟨n, hi, hnode⟩ := (Option.any_eq_true ..).1 hnode
  obtain ⟨d, hd, hnode⟩ := (Option.any_eq_true ..).1 hnode
  obtain ⟨r, hr, hnode⟩ := (Option.any_eq_true ..).1 hnode
  obtain ⟨hnode, hread⟩ := Bool.and_eq_true_iff.1 hnode
  obtain ⟨⟨hp, hup, hcont, hdirty⟩, ⟨hroot, hone, hin, hplace, hin'⟩, hset⟩ :=
    of_decide_eq_true hnode
  obtain ⟨rc, s, hread, hok⟩ := of_returns hread
  cases of_decide_eq_true hok
  obtain ⟨rc, t', hrun, hok⟩ := of_returns hrename
  cases of_decide_eq_true hok
  let clusters : NodeId → List Nat := fun x => if x = 0 then [4] else [5]
  have howns : OwnsSet dirtyD 2 3 [5] n := ⟨hi, hp, by decide, ⟨d, hd, hone.held, hin⟩, hset⟩
  have hs : SoundDirs dirtyD [0, 2] clusters := by
    refine ⟨fun x hx => ?_, fun x hx y hy hne => ?_⟩
    · rcases List.mem_cons.1 hx with rfl | hx
      · exact ⟨r, hr, hroot.held⟩
      · cases List.mem_singleton.1 hx
        exact ⟨d, hd, hone.held⟩
    · rcases List.mem_cons.1 hx with rfl | hx <;> rcases List.mem_cons.1 hy with rfl | hy
      · exact absurd rfl hne
      · cases List.mem_singleton.1 hy
        exact List.disjoint_singleton.2 (by decide)
      · cases List.mem_singleton.1 hx
        exact List.disjoint_singleton.2 (by decide)
      · exact absurd ((List.mem_singleton.1 hx).trans (List.mem_singleton.1 hy).symm) hne
  have hsaved : ∀ dp, dirtyD.heap 2 = some dp → dp.isDirty = true →
      InParent dirtyD [0, 2] 2 dp := by
    intro dp hdp _ g hg
    cases hd.symm.trans hdp
    cases hup.symm.trans hg
    exact ⟨by decide, by decide, r, hr, hplace⟩
  obtain ⟨n', howns', -, hdata, -⟩ := renameEntry_rereads hs (by decide) howns (by decide) hsaved
    (show 0 ∈ [0, 2] by decide) hr hin' (by decide) (by decide) (by decide) rfl ⟨s, hread⟩ hrun
  refine ⟨t', n, n', d, howns, hd, hdirty, hup, hrun, howns', ?_⟩
  rw [hdata, show 1 + nameEntries unitsB = n.data.continuations by rw [hcont]; decide]
  rfl

end ExFat
