import ExFat.Mkfs.BootRegion
import ExFat.Fs.Boot
import ExFat.Fs.Label
import ExFat.Session.Listing
import ExFat.Store.Directories

namespace ExFat.Mkfs

open ExFat Bytes Program Chain

/-!
# A new file system is mounted

`exfat_mount` is the reader of what mkfs writes: it checks the sum over the boot region, counts the
clusters of the root directory, and finds the label, the bitmap and the upcase table there.  On the
image that the host mkfs leaves it finds exactly what was meant.
-/

variable {p : Param}

/-! ### The root directory -/

/-- The chain of a root directory of one cluster ends there. -/
theorem rootdirLoop_end {ef : Ef Flat} {n : Node} {c : Nat} (fuel : Nat) (hvalid : Valid ef.sb c)
    (hnext : exfatNextCluster c ⟨ef, n⟩ = .ok clusterEnd (⟨ef, n⟩ : FileState Flat)) :
    rootdirLoop (fuel + 1) 0 c ⟨ef, n⟩ = .ok ef.sb.clusterSize (⟨ef, n⟩ : FileState Flat) := by
  have hgood : ef.sb.clusterInvalid c = false := hvalid
  have hcount : 0 ≠ ef.sb.clusterCount := by
    have := hvalid.lt
    have := hvalid.two_le
    omega
  unfold rootdirLoop
  rw [run_bind_ok (run_get _)]
  dsimp only
  rw [if_neg hcount, hgood, if_neg (by decide), run_bind_ok hnext, if_neg (not_not.2 rfl),
    Nat.zero_add,
    Nat.one_mul]
  rfl

/-- The chain of the root directory is one cluster. -/
theorem Feasible.fatEntry_root (h : Feasible p) (b : Store) :
    fatEntry p.initSb (image p b) p.initSb.rootdirCluster = clusterEnd := by
  have hchain := h.chain_rootdir b
  rw [← h.geometry.root] at hchain
  exact hchain.2.1.symm

/-- The root directory is in the heap. -/
theorem Feasible.valid_root (h : Feasible p) : Valid p.initSb p.initSb.rootdirCluster := by
  have hused := h.used_le
  unfold Param.used at hused
  rw [h.valid_iff, h.geometry.root]
  omega

/-- The node that `exfat_mount` makes for the root directory reads its one cluster. -/
theorem Feasible.directory_root (h : Feasible p) {ef : Ef Flat} {n : Node} (hsb : ef.sb = p.initSb)
    (hdir : n.isDir = true) (hstart : n.startCluster = p.initSb.rootdirCluster)
    (hsize : n.size = p.clusterSize) (hvalid : n.validSize = p.clusterSize)
    (hindex : n.fptrIndex = 0) (hptr : n.fptrCluster = p.initSb.rootdirCluster) :
    Directory ef n [p.initSb.rootdirCluster] := by
  have hle := h.clusterSize_le
  refine ⟨⟨?_, ?_, ?_, ?_, ?_⟩, hdir, ?_, hvalid.trans hsize.symm, ?_, ?_⟩
  · exact ⟨hstart.symm, trivial⟩
  · intro c hc
    rw [List.mem_singleton.1 hc, hsb]
    exact h.valid_root
  · exact List.nodup_singleton _
  · exact .inl ⟨hindex, hptr.trans hstart.symm⟩
  · simp
  · rw [hsize, hsb, h.clusterSize_eq]
    simp
  · rw [hsize]
    omega
  · rw [hsb, h.clusterSize_eq]
    exact Dvd.dvd.mul_right ((by decide : entrySize ∣ 2 ^ 9).trans (Nat.pow_dvd_pow 2 h.sector)) _

/-- `rootdir_size` counts one cluster. -/
theorem Feasible.run_rootdirSize (h : Feasible p) {b : Store} {ef : Ef Flat} {n : Node}
    (hsb : ef.sb = p.initSb) (hdev : ef.dev.bytes = image p b) (hcont : n.isContiguous = false) :
    rootdirSize ⟨ef, n⟩ = .ok p.clusterSize (⟨ef, n⟩ : FileState Flat) := by
  have hvalid := h.valid_root
  have hnext : exfatNextCluster p.initSb.rootdirCluster ⟨ef, n⟩ =
      .ok clusterEnd (⟨ef, n⟩ : FileState Flat) := by
    rw [exfatNextCluster_run hvalid.two_le, hsb, hdev, hcont]
    show EStateM.Result.ok (fatEntry _ _ _) _ = _
    rw [h.fatEntry_root b]
  rw [← h.clusterSize_eq, ← hsb]
  rw [← hsb] at hvalid hnext
  unfold rootdirSize
  rw [run_bind_ok (run_get _)]
  exact rootdirLoop_end _ hvalid hnext

/-- The entries of the root directory. -/
theorem Feasible.entryAt_root (h : Feasible p) (b : Store) {k : Nat} (hk : k < 3) :
    entryAt p.initSb (image p b) [p.initSb.rootdirCluster] k =
      [p.labelEntry, p.bitmapEntry, p.upcaseEntry].getD k [] := by
  have hss := h.le_sectorSize
  have hle := sectorSize_le p
  have hfit : entrySize * k + entrySize ≤ p.initSb.clusterSize := by
    rw [h.clusterSize_eq]
    unfold entrySize
    omega
  have hi : 0 < [p.initSb.rootdirCluster].length := Nat.one_pos
  have hread := readBytes_cluster (b := image p b) hi hfit
  rw [Nat.zero_mul, Nat.zero_add] at hread
  have hentry := h.rootEntry_image b hk
  unfold rootEntry at hentry
  rw [h.sbAt_image] at hentry
  exact hread.symm.trans hentry

/-- Behind them nothing is in use. -/
theorem Feasible.type_root (h : Feasible p) (b : Store) {k : Nat} (hk : 3 ≤ k)
    (hend : entrySize * (k + 1) ≤ p.clusterSize) :
    (entryAt p.initSb (image p b) [p.initSb.rootdirCluster] k).type = 0 := by
  have hq : (clusterOffset p.initSb p.initSb.rootdirCluster, Object.rootdir) ∈
      placements p 0 objects := by
    rw [h.clusterOffset_eq, p.placements_objects, p.position_rootdir, h.geometry.root,
      Nat.add_sub_cancel, ← Nat.add_assoc]
    simp
  have hlen := length_rootdir p
  have hzero : content p.initSb (image p b) [p.initSb.rootdirCluster] (entrySize * k) = 0 := by
    have hroot := h.content_object b hq (n := 1) h.valid_root.two_le (i := entrySize * k)
      (by unfold entrySize at *; omega) (.inl (by
        show _ < p.clusterSize
        unfold entrySize at *
        omega))
    rw [List.getD_eq_default _ _ (by rw [hlen]; unfold entrySize; omega)] at hroot
    exact hroot
  have hfirst : 0 + 1 ≤ entrySize := by decide
  have htype :
      leAt (readBytes (content p.initSb (image p b) [p.initSb.rootdirCluster]) (entrySize * k)
      entrySize) 0 1 =
      leNat (readBytes (content p.initSb (image p b) [p.initSb.rootdirCluster])
        (entrySize * k + 0) 1) :=
    leAt_readBytes hfirst
  unfold entryAt Entry.type
  rw [htype, Nat.add_zero]
  simp [readBytes, hzero, leNat]

/-! ### The label, the bitmap and the upcase table -/

/-- The units of the label entry. -/
theorem labelUnits_eq (units : List Nat) :
    labelUnits units = (List.range enameMax).map fun i => units.getD i 0 := by
  unfold labelUnits
  apply List.ext_getElem
  · simp
    omega
  · intro i hi hi'
    rw [List.length_map, List.length_range] at hi'
    simp only [List.getElem_map, List.getElem_range]
    by_cases hlt : i < units.length
    · rw [List.getElem_append_left (by rw [List.length_take]; omega), List.getElem_take,
        List.getD_eq_getElem _ _ hlt]
    · rw [List.getElem_append_right (by rw [List.length_take]; omega), List.getElem_replicate,
        List.getD_eq_default _ _ (by omega)]

/-- A label that is not empty is stored as `exfat_set_label` stores it. -/
theorem labelEntry_of_label (h : utf16Length p.volumeLabel ≠ 0) :
    p.labelEntry = labelEntry p.volumeLabel := by
  have hname : ((List.range enameMax).map fun i => natLe 2 (p.volumeLabel.getD i 0)).flatten =
      (labelUnits p.volumeLabel).flatMap (natLe 2) := by
    rw [labelUnits_eq, List.flatMap_def, List.map_map]
    rfl
  have hlen : ((labelUnits p.volumeLabel).flatMap (natLe 2)).length = 30 := by
    have h30 := length_flatten_natLe 2 (labelUnits p.volumeLabel)
    rw [length_labelUnits] at h30
    rw [List.flatMap_def]
    exact h30
  rw [labelEntry_eq, if_neg h]
  unfold Param.labelEntry
  dsimp only
  rw [if_neg h, hname]
  generalize (labelUnits p.volumeLabel).flatMap (natLe 2) = name at hlen ⊢
  unfold patch
  simp [hlen, natLe, List.drop_eq_nil_of_le]
  rfl

/-- What `readdir` makes of the label that mkfs stores. -/
def Param.labelText (p : Param) : Except Errno (List UInt8) :=
  if utf16Length p.volumeLabel = 0 then .ok []
  else exfatUtf16ToUtf8 (labelUnits p.volumeLabel) utf8EnameBufferMax

/-- The label as `setup_volume_label` leaves it: units, with a terminator behind the last. -/
structure LabelArray (label : List Nat) : Prop where
  unit : ∀ x ∈ label, x < 2 ^ 16
  length : utf16Length label ≤ enameMax

/-- The label entry is in use if the label is not empty. -/
theorem type_label (p : Param) :
    Entry.type p.labelEntry = if utf16Length p.volumeLabel = 0 then 3 else entryLabel := by
  by_cases h : utf16Length p.volumeLabel = 0
  · rw [if_pos h]
    unfold Param.labelEntry
    dsimp only
    rw [if_pos h]
    decide
  · rw [if_neg h, labelEntry_of_label h, type_labelEntry, if_neg h]

/-- The label is found. -/
theorem skip_label {label : List UInt8} (hl : LabelArray p.volumeLabel)
    (htext : p.labelText = .ok label) {ef : Ef Flat} (hempty : ef.label = []) (offset : Int)
    (n : Node) :
    skipEntry p.labelEntry offset ⟨ef, n⟩ = .ok (.ok ()) ⟨{ ef with label := label }, n⟩ := by
  have htype := type_label p
  unfold Param.labelText at htext
  by_cases h : utf16Length p.volumeLabel = 0
  · rw [if_pos h] at htype htext
    cases htext
    rw [← hempty]
    apply skipEntry_unused
    rw [htype]
    decide
  · rw [if_neg h] at htype htext
    have hread : readLabel p.labelEntry ef = .ok (.ok ()) { ef with label := label } := by
      have hlong : ¬ utf16Length p.volumeLabel > enameMax := Nat.not_lt.2 hl.length
      unfold readLabel
      rw [labelEntry_of_label h, length_of_labelEntry hl.length, if_neg hlong,
        units_labelEntry hl.unit, htext]
      rfl
    unfold skipEntry
    rw [htype, if_neg (by decide), if_neg (by decide), if_pos rfl]
    exact run_onEf_ok hread

/-- A label that does not convert ends the reading of the directory. -/
theorem skip_label_error {e : Errno} (hl : LabelArray p.volumeLabel)
    (htext : p.labelText = .error e) (ef : Ef Flat) :
    ∃ ef', ∀ (offset : Int) (n : Node), skipEntry p.labelEntry offset ⟨ef, n⟩ =
      .ok (.error .eio) ⟨ef', n⟩ := by
  have htype := type_label p
  unfold Param.labelText at htext
  by_cases h : utf16Length p.volumeLabel = 0
  · rw [if_pos h] at htext
    cases htext
  · rw [if_neg h] at htype htext
    have hread : ∃ ef', readLabel p.labelEntry ef = .ok (.error .eio) ef' := by
      have hlong : ¬ utf16Length p.volumeLabel > enameMax := Nat.not_lt.2 hl.length
      unfold readLabel
      rw [labelEntry_of_label h, length_of_labelEntry hl.length, if_neg hlong,
        units_labelEntry hl.unit, htext]
      exact ⟨_, rfl⟩
    obtain ⟨ef', hread⟩ := hread
    refine ⟨ef', fun offset n => ?_⟩
    unfold skipEntry
    rw [htype, if_neg (by decide), if_neg (by decide), if_pos rfl]
    exact run_onEf_ok hread

/-- The volume when the bitmap has been found. -/
def bitmapFound (ef : Ef Flat) : Ef Flat :=
  { ef with
    cmap := { ef.cmap with
      startCluster := 2, size := ef.sb.clusterCount, chunkSize :=
        ef.sb.clusterCount, present := true
      chunk := bitOf
        (readBytes ef.dev.bytes (clusterOffset ef.sb 2) (bmapSize ef.wordBits ef.sb.clusterCount)) }
    ticks := ef.ticks + 1 }

/-- The bitmap entry is read. -/
theorem Feasible.skip_bitmap (h : Feasible p) {ef : Ef Flat} (hsb : ef.sb = p.initSb)
    (hmalloc : ∀ k, ef.malloc k = true) (offset : Int) (n : Node) :
    skipEntry p.bitmapEntry offset ⟨ef, n⟩ = .ok (.ok ()) ⟨bitmapFound ef, n⟩ := by
  obtain ⟨htype, hstart, hsize⟩ := leAt_bitmapEntry p
  have hused := h.used_le
  have hfit := h.fit_lt
  unfold Param.used at hused
  -- cluster 2, where the bitmap starts, is a cluster of the heap
  have hgood : ef.sb.clusterInvalid 2 = false := by
    have hvalid : Valid p.initSb 2 := by
      rw [h.valid_iff]
      omega
    rw [hsb]
    exact hvalid
  -- the size of the bitmap covers all clusters
  have hcover : ¬ p.size .cbm % 256 ^ 8 < divRoundUp ef.sb.clusterCount 8 := by
    have hlt := divRoundUp_mul_lt (x := p.fit - p.heapIndex) (d := 8) (by decide)
    rw [hsb, h.geometry.count, p.size_cbm, Nat.mod_eq_of_lt (by omega)]
    omega
  have hread : readBitmap p.bitmapEntry ef = .ok (.ok ()) (bitmapFound ef) := by
    have hstart' : Entry.startCluster p.bitmapEntry = 2 := hstart
    have hsize' : Entry.size p.bitmapEntry = p.size .cbm % 256 ^ 8 := hsize
    unfold readBitmap
    rw [run_bind_ok (run_modify _ _), run_bind_ok (run_get _)]
    dsimp only
    rw [hstart', hgood, if_neg (by decide), run_bind_ok (run_modify _ _), hsize', if_neg hcover,
      run_bind_ok (run_modify _ _), run_bind_ok (run_mallocOk _)]
    dsimp only
    rw [hmalloc, if_neg (by decide), run_bind_ok (run_modify _ _),
      run_bind_ok (run_exfatC2o (by decide)),
      run_bind_ok (run_exfatPread _ _ _)]
    rfl
  unfold skipEntry
  rw [show Entry.type p.bitmapEntry = entryBitmap from htype, if_neg (by decide), if_pos rfl]
  exact run_onEf_ok hread

/-- The units of the compressed upcase table. -/
def Param.upcaseUnits (p : Param) : List Nat :=
  (List.range (upcaseTableSize / 2)).map fun i => leAt p.upcaseTable (2 * i) 2

/-- The upcase entry is read. -/
theorem Feasible.skip_upcase (h : Feasible p) {b : Store} {ef : Ef Flat} (hsb : ef.sb = p.initSb)
    (hdev : ef.dev.bytes = image p b) (hmalloc : ∀ k, ef.malloc k = true) (hnone : ef.upcase = none)
    (offset : Int) (n : Node) :
    skipEntry p.upcaseEntry offset ⟨ef, n⟩ = .ok (.ok ()) ⟨{ ef with
        upcase := some (decompressUpcase p.upcaseUnits), ticks := ef.ticks + 1 + 1 }, n⟩ := by
  obtain ⟨htype, -, hstart, hsize⟩ := leAt_upcaseEntry p
  have hcs := p.clusterSize_pos
  have hused := h.used_le
  have hfit := h.fit_lt
  unfold Param.used at hused
  -- the table follows the bitmap on the device, so its cluster number does as well
  have hcluster : (p.position .uct - p.position .cbm) / p.clusterSize + firstDataCluster =
      p.clusters .cbm + 2 := by
    rw [p.position_uct, p.position_cbm, ← Nat.sub_mul, Nat.add_sub_cancel_left,
      Nat.mul_div_cancel _ hcs]
    rfl
  rw [hcluster, Nat.mod_eq_of_lt (by omega)] at hstart
  have hvalid : Valid p.initSb (p.clusters .cbm + 2) := by
    rw [h.valid_iff]
    omega
  have hgood : ef.sb.clusterInvalid (p.clusters .cbm + 2) = false := by
    rw [hsb]
    exact hvalid
  have hq : (clusterOffset p.initSb (p.clusters .cbm + 2), Object.uct) ∈
      placements p 0 objects := by
    rw [h.clusterOffset_eq, p.placements_objects, p.position_uct, Nat.add_sub_cancel]
    simp
  have hdata : p.data .uct = p.upcaseTable := List.flatten_singleton
  have hbytes : readBytes ef.dev.bytes (clusterOffset ef.sb (p.clusters .cbm + 2)) upcaseTableSize =
      p.upcaseTable := by
    have hall := h.readBytes_image b hq 0 upcaseTableSize (by rw [hdata, h.table, Nat.zero_add])
    rw [hdata, List.drop_zero, List.take_of_length_le (by rw [h.table]), Nat.add_zero] at hall
    rw [hdev, hsb]
    exact hall
  have hread : readUpcase p.upcaseEntry ef =
      .ok (.ok ()) { ef with
        upcase := some (decompressUpcase p.upcaseUnits), ticks := ef.ticks + 1 + 1 } := by
    have hstart' : Entry.startCluster p.upcaseEntry = p.clusters .cbm + 2 := hstart
    have hsize' : Entry.size p.upcaseEntry = upcaseTableSize := hsize
    unfold readUpcase
    rw [run_bind_ok (run_get _), hnone, if_neg (by decide), hstart', hgood, if_neg (by decide),
      hsize', if_neg (by decide),
      run_bind_ok (run_mallocOk _), hmalloc, if_neg (by decide),
        run_bind_ok (run_exfatC2o (by omega)),
      run_bind_ok (run_exfatPread _ _ _)]
    dsimp only
    rw [hbytes, run_bind_ok (run_mallocOk _)]
    dsimp only
    rw [hmalloc, if_neg (by decide)]
    rfl
  unfold skipEntry
  rw [show Entry.type p.upcaseEntry = entryUpcase from htype, if_pos rfl]
  exact run_onEf_ok hread

/-! ### The mount -/

/-- The volume when everything has been found. -/
def volumeFound (p : Param) (label : List UInt8) (ef : Ef Flat) : Ef Flat :=
  { bitmapFound { ef with label := label } with
    upcase := some (decompressUpcase p.upcaseUnits), ticks := ef.ticks + 1 + 1 + 1 }

/-- A volume on which the image of mkfs is about to be read. -/
structure OnImage (p : Param) (b : Store) (ef : Ef Flat) : Prop where
  sb : ef.sb = p.initSb
  bytes : ef.dev.bytes = image p b
  malloc : ∀ k, ef.malloc k = true
  word : 0 < ef.wordBits ∧ 8 ∣ ef.wordBits
  upcase : ef.upcase = none
  label : ef.label = []

/-- `readdir` passes over one of the three entries. -/
theorem Feasible.readdirLoop_root (h : Feasible p) {b : Store} {ef ef' : Ef Flat} {n : Node}
    {k : Nat} (hd : Directory ef n [p.initSb.rootdirCluster]) (hsb : ef.sb = p.initSb)
    (hdev : ef.dev.bytes = image p b) (hsize : n.size = p.clusterSize) (hk : k < 3) {e : Entry}
    (he : [p.labelEntry, p.bitmapEntry, p.upcaseEntry].getD k [] = e) (htype : e.type ≠ entryFile)
    (hskip : ∀ (offset : Int) (n' : Node), skipEntry e offset ⟨ef, n'⟩ = .ok (.ok ()) ⟨ef', n'⟩)
    (fuel : Nat) :
    ∃ i c, readdirLoop (fuel + 1) (entrySize * k) ⟨ef, n⟩ =
      readdirLoop fuel (entrySize * (k + 1)) ⟨ef', n.pointAt i c⟩ ∧
      Directory ef (n.pointAt i c) [p.initSb.rootdirCluster] := by
  have hss := h.le_sectorSize
  have hle := sectorSize_le p
  have hentry : entryAt ef.sb ef.dev.bytes [p.initSb.rootdirCluster] k = e := by
    rw [hsb, hdev, h.entryAt_root b hk, he]
  obtain ⟨i, hi, hstep⟩ :=
    hd.readdirLoop_skip (k := k) fuel (by rw [hsize]; unfold entrySize; omega)
    (by rw [hentry]; exact htype) (by rw [hentry]; exact hskip _)
  exact ⟨i, _, hstep, hd.pointAt hi⟩

/-- Reading the root directory finds the three entries and no file. -/
theorem Feasible.cacheLoop_root (h : Feasible p) {b : Store} {ef : Ef Flat} {n : Node}
    {label : List UInt8} (hd : Directory ef n [p.initSb.rootdirCluster]) (hi : OnImage p b ef)
    (hsize : n.size = p.clusterSize) (hl : LabelArray p.volumeLabel)
    (htext : p.labelText = .ok label) :
    ∃ i c, cacheLoop (dirFuel n.size) 0 ⟨ef, n⟩ =
      .ok ([], .enoent) ⟨volumeFound p label ef, n.pointAt i c⟩ := by
  have hss := h.le_sectorSize
  have hle := sectorSize_le p
  -- the fuel is enough for the three entries and for what is behind them
  obtain ⟨fuel, hfuel⟩ : ∃ fuel, n.size / entrySize + 2 = fuel + 1 + 1 + 1 :=
    ⟨n.size / entrySize - 1, by rw [hsize]; unfold entrySize; omega⟩
  have hlabel := skip_label hl htext hi.label
  have hlabelType : Entry.type p.labelEntry ≠ entryFile := by
    rw [type_label]
    split
    · decide
    · decide
  obtain ⟨i₀, c₀, hstep₀, hd₀⟩ := h.readdirLoop_root hd hi.sb hi.bytes hsize (k := 0)
    (by decide) rfl hlabelType
    hlabel (fuel + 1 + 1)
  -- the superblock and the medium stay, so the directory does
  have hd₁ : Directory { ef with label := label } (n.pointAt i₀ c₀) [p.initSb.rootdirCluster] :=
    hd₀.congr rfl rfl
  have hbitmapType : Entry.type p.bitmapEntry ≠ entryFile := by
    rw [show Entry.type p.bitmapEntry = entryBitmap from (leAt_bitmapEntry p).1]
    decide
  obtain ⟨i₁, c₁, hstep₁, hd₁⟩ := h.readdirLoop_root hd₁ hi.sb hi.bytes hsize
    (k := 1) (by decide) rfl
    hbitmapType (h.skip_bitmap hi.sb hi.malloc) (fuel + 1)
  have hd₂ : Directory (bitmapFound { ef with label := label }) ((n.pointAt i₀ c₀).pointAt i₁ c₁)
      [p.initSb.rootdirCluster] := hd₁.congr rfl rfl
  have hupcaseType : Entry.type p.upcaseEntry ≠ entryFile := by
    rw [show Entry.type p.upcaseEntry = entryUpcase from (leAt_upcaseEntry p).1]
    decide
  obtain ⟨i₂, c₂, hstep₂, hd₂⟩ := h.readdirLoop_root hd₂ hi.sb hi.bytes hsize
    (k := 2) (by decide) rfl
    hupcaseType (h.skip_upcase hi.sb hi.bytes hi.malloc hi.upcase) fuel
  have hd₃ : Directory (volumeFound p label ef) (((n.pointAt i₀ c₀).pointAt i₁ c₁).pointAt i₂ c₂)
      [p.initSb.rootdirCluster] := hd₂.congr rfl rfl
  have hthree : entrySize * 3 ≤ n.size := by
    rw [hsize]
    unfold entrySize
    omega
  -- behind the three entries there are only unused ones
  have henough : n.size < entrySize * (3 + fuel) := by
    unfold entrySize at *
    omega
  have hunused : ∀ j, 3 ≤ j → entrySize * (j + 1) ≤ n.size →
      (entryAt (volumeFound p label ef).sb (volumeFound p label ef).dev.bytes
        [p.initSb.rootdirCluster] j).type
        &&& entryValid = 0 := by
    intro j hj hend
    have hsb : (volumeFound p label ef).sb = p.initSb := hi.sb
    have hdev : (volumeFound p label ef).dev.bytes = image p b := hi.bytes
    rw [hsb, hdev, h.type_root b hj (by rw [← hsize]; exact hend)]
    decide
  obtain ⟨n', hrest, hn', -⟩ := hd₃.readdirLoop_unused hthree henough hunused
  have hdir : readdirLoop (dirFuel n.size) 0 ⟨ef, n⟩ =
      .ok (.error .enoent) ⟨volumeFound p label ef, n'⟩ := by
    unfold dirFuel
    rw [hfuel]
    exact hstep₀.trans (hstep₁.trans (hstep₂.trans hrest))
  refine ⟨n'.fptrIndex, n'.fptrCluster, ?_⟩
  have hnode : n' = n.pointAt n'.fptrIndex n'.fptrCluster := hn'
  rw [← hnode]
  conv_lhs => unfold dirFuel
  rw [hfuel]
  unfold cacheLoop
  rw [run_bind_ok (run_get _)]
  dsimp only
  rw [run_bind_ok hdir]
  rfl

/-- A label that does not convert ends the reading of the root directory. -/
theorem Feasible.cacheLoop_root_error (h : Feasible p) {b : Store} {ef : Ef Flat} {n : Node}
    {e : Errno} (hd : Directory ef n [p.initSb.rootdirCluster]) (hi : OnImage p b ef)
    (hsize : n.size = p.clusterSize) (hl : LabelArray p.volumeLabel)
    (htext : p.labelText = .error e) :
    ∃ s, cacheLoop (dirFuel n.size) 0 ⟨ef, n⟩ = .ok ([], .eio) s := by
  have hss := h.le_sectorSize
  have hle := sectorSize_le p
  have hlabelType : Entry.type p.labelEntry ≠ entryFile := by
    rw [type_label]
    split
    · decide
    · decide
  have hentry : entryAt ef.sb ef.dev.bytes [p.initSb.rootdirCluster] 0 = p.labelEntry := by
    rw [hi.sb, hi.bytes, h.entryAt_root b (by decide)]
    rfl
  obtain ⟨ef', hskip⟩ := skip_label_error hl htext ef
  obtain ⟨n', hdir⟩ := hd.readdirLoop_stop (k := 0) (n.size / entrySize + 1)
    (by rw [hsize]; unfold entrySize; omega) (by rw [hentry]; exact hlabelType)
    (by rw [hentry]; exact hskip _)
  refine ⟨⟨ef', n'⟩, ?_⟩
  conv_lhs => unfold dirFuel
  unfold cacheLoop
  rw [run_bind_ok (run_get _)]
  dsimp only
  rw [run_bind_ok (show readdirLoop (dirFuel n.size) 0 ⟨ef, n⟩ = _ from hdir)]
  rfl

/-- The root directory while it is being mounted. -/
def rootNode (p : Param) (size : Nat) (references : Int) : Node where
  attrib := attribDir
  startCluster := p.initSb.rootdirCluster
  fptrCluster := p.initSb.rootdirCluster
  size := size
  validSize := size
  references := references

/-- The root node is a directory of one cluster. -/
theorem Feasible.directory_rootNode (h : Feasible p) {ef : Ef Flat} (hsb : ef.sb = p.initSb)
    (references : Int) :
    Directory ef (rootNode p p.clusterSize references) [p.initSb.rootdirCluster] :=
  h.directory_root hsb (by show Nat.testBit attribDir 4 = true; decide) rfl rfl rfl rfl rfl

/-- The volume when the root directory has a node of its own. -/
def withRoot (t : Volume Flat) (n : Node) : Volume Flat where
  ef := t.ef
  heap := Function.update t.heap t.fresh (some n)
  root := t.fresh
  fresh := t.fresh + 1

/-- The root node is in memory. -/
theorem withRoot_heap (t : Volume Flat) (n : Node) : (withRoot t n).heap t.fresh = some n :=
  Function.update_self ..

/-- Storing the root node. -/
theorem withRoot_store (t : Volume Flat) (n : Node) (s : FileState Flat) :
    (withRoot t n).store t.fresh s = withRoot { t with ef := s.ef } s.node := by
  unfold withRoot Volume.store
  simp

/-- Changing the root node. -/
theorem run_updateNode_withRoot (t : Volume Flat) (n : Node) (f : Node → Node) :
    updateNode t.fresh f (withRoot t n) = .ok ⟨⟩ (withRoot t (f n)) := by
  have hrun := run_updateNode (withRoot_heap t n) f
  rw [withRoot_store] at hrun
  exact hrun

/-- `exfat_mount` goes by what the reading of the root directory has given. -/
theorem Feasible.mountRoot_of (h : Feasible p) {b : Store} {t : Volume Flat} (hi : OnImage p b t.ef)
    {Q : Rc → Volume Flat → Prop} {E : Halt → Volume Flat → Prop}
    (hcache : wp (exfatCacheDirectory t.fresh) (fun r t' =>
      (∀ e, r = .error e → wp (abandonMount t.fresh) Q E t') ∧
        (r = .ok () → t'.ef.upcase.isNone = false ∧ t'.ef.cmap.present = true ∧ Q (.ok ()) t')) E
      (withRoot t (rootNode p p.clusterSize 1))) :
    wp mountRoot Q E t := by
  have hcluster : t.ef.sb.rootdirCluster = p.initSb.rootdirCluster := by rw [hi.sb]
  have hne : p.clusterSize ≠ 0 := Nat.pos_iff_ne_zero.1 p.clusterSize_pos
  have hsize : onNode t.fresh rootdirSize (withRoot t (rootNode p 0 0)) =
      .ok p.clusterSize (withRoot t (rootNode p 0 0)) := by
    have hrun := run_onNode (withRoot_heap t (rootNode p 0 0))
      (h.run_rootdirSize hi.sb hi.bytes rfl)
    rw [withRoot_store] at hrun
    exact hrun
  unfold mountRoot
  rw [wp_bind, wp_get]
  dsimp only
  rw [wp_bind, wp_set, wp_bind, hcluster]
  refine wp_of_ok hsize ?_
  rw [wp_bind]
  refine wp_of_ok (run_updateNode_withRoot t _ _) ?_
  rw [if_neg hne, wp_bind]
  refine wp_of_ok (run_updateNode_withRoot t _ _) ?_
  rw [wp_bind]
  refine wp_conseq hcache fun r t' hr => ?_
  -- either the reading of the root has failed, or it has found the table and the bitmap
  cases r with
  | error e => exact hr.1 e rfl
  | ok u =>
    obtain ⟨hup, hmap, hQ⟩ := hr.2 rfl
    dsimp only
    rw [wp_bind, wp_get, hup, if_neg (by decide), hmap, if_neg (by decide)]
    exact hQ

/-- What `exfat_mount` makes of the image of mkfs, from a volume `t` on which nothing is known. -/
structure NewVolume (p : Param) (label : List UInt8) (t t' : Volume Flat) : Prop where
  sb : t'.ef.sb = p.initSb
  dev : t'.ef.dev = t.ef.dev
  label : t'.ef.label = label
  upcase : t'.ef.upcase = some (decompressUpcase p.upcaseUnits)
  count : t'.ef.cmap.size = p.initSb.clusterCount
  bits : ∀ i < t'.ef.cmap.size, t'.ef.cmap.chunk i = decide (i < p.used)
  free : exfatCountFreeClusters t'.ef.cmap = p.initSb.clusterCount - p.used
  root : ∃ n, t'.heap t'.root = some n ∧ n.isDir = true ∧ n.isCached = true ∧ n.child = [] ∧
    n.first = none ∧ n.references = 1 ∧ n.size = p.clusterSize
  others : ∀ i, i ≠ t'.root → t'.heap i = t.heap i

/-- The bits that are found are those of the clusters in use. -/
theorem Feasible.chunk_found (h : Feasible p) {b : Store} {ef : Ef Flat} (hi : OnImage p b ef)
    {i : Nat} (hlt : i < p.initSb.clusterCount) (label : List UInt8) :
    (volumeFound p label ef).cmap.chunk i = decide (i < p.used) := by
  have hcs := p.clusterSize_pos
  rw [h.geometry.count] at hlt
  have hq : (clusterOffset p.initSb 2, Object.cbm) ∈ placements p 0 objects := by
    rw [h.clusterOffset_eq, p.placements_objects, p.position_cbm]
    simp
  have hsize : i / 8 < p.size .cbm := by
    rw [p.size_cbm, lt_divRoundUp_iff (by decide)]
    omega
  have hroom : p.size .cbm ≤ p.clusters .cbm * p.clusterSize := le_divRoundUp_mul _ hcs
  -- the bytes that are read cover the bit
  have hcover : i / 8 < bmapSize ef.wordBits ef.sb.clusterCount := by
    obtain ⟨hpos, m, hm⟩ := hi.word
    have hle := le_roundUp ef.sb.clusterCount hpos
    unfold bmapSize
    rw [hi.sb, h.geometry.count] at hle ⊢
    unfold roundUp at hle ⊢
    rw [hm] at hle ⊢
    rw [Nat.mul_left_comm, Nat.mul_div_cancel_left _ (by decide)]
    rw [Nat.mul_left_comm] at hle
    omega
  have hbit := h.bit_image b hlt
  unfold bitmapBit at hbit
  rw [h.content_object b hq (Nat.le_refl 2) (by omega)
    (.inl hsize), ← h.image_apply b hq (.inl hsize)] at hbit
  show bitOf (readBytes ef.dev.bytes (clusterOffset ef.sb 2)
      (bmapSize ef.wordBits ef.sb.clusterCount)) i = _
  unfold bitOf
  rw [getD_readBytes, if_pos hcover, hi.bytes, hi.sb]
  exact hbit

/-- The bits that are set are the first ones. -/
theorem usedBits_below {chunk : Nat → Bool} {n m : Nat} (h : ∀ i < n, chunk i = decide (i < m))
    (hm : m ≤ n) : usedBits chunk n = m := by
  obtain ⟨k, rfl⟩ := Nat.exists_eq_add_of_le hm
  have hset : ∀ i < m, chunk i = true := fun i hi => by
    rw [h i (by omega)]
    exact decide_eq_true hi
  have hclear : ∀ i < k, ¬ chunk (m + i) = true := fun i hi => by
    rw [h (m + i) (by omega), decide_eq_true_eq]
    omega
  rw [usedBits_add]
  unfold usedBits
  rw [Nat.count_of_forall hset, Nat.count_of_forall_not hclear, Nat.add_zero]

/-- Reading the root directory into memory. -/
theorem Feasible.run_cacheRoot (h : Feasible p) {b : Store} {t : Volume Flat} {label : List UInt8}
    (hi : OnImage p b t.ef) (hl : LabelArray p.volumeLabel) (htext : p.labelText = .ok label) :
    ∃ i c, exfatCacheDirectory t.fresh (withRoot t (rootNode p p.clusterSize 1)) =
      .ok (.ok ()) (withRoot { t with ef := volumeFound p label t.ef }
        { (rootNode p p.clusterSize 1).pointAt i c with isCached := true }) := by
  obtain ⟨i, c, hcache⟩ := h.cacheLoop_root (h.directory_rootNode hi.sb 1) hi rfl hl htext
  refine ⟨i, c, ?_⟩
  have hread := run_onNode (withRoot_heap t (rootNode p p.clusterSize 1)) hcache
  rw [withRoot_store] at hread
  unfold exfatCacheDirectory
  rw [run_bind_ok (run_getNode (withRoot_heap ..))]
  show (onNode t.fresh (cacheLoop _ 0) >>= _) _ = _
  rw [run_bind_ok hread, if_pos rfl]
  show (updateNode t.fresh _ >>= _) _ = _
  exact run_bind_ok (run_updateNode_withRoot { t with ef := volumeFound p label t.ef } _ _)

/-- The volume is mounted, and holds what mkfs was given. -/
theorem Feasible.wp_mountRoot (h : Feasible p) {b : Store} {t : Volume Flat} {label : List UInt8}
    (hi : OnImage p b t.ef) (hl : LabelArray p.volumeLabel) (htext : p.labelText = .ok label) :
    wp mountRoot (fun r t' => r = .ok () ∧ NewVolume p label t t') never t := by
  obtain ⟨i, c, hcache⟩ := h.run_cacheRoot hi hl htext
  have hbits : ∀ i < (volumeFound p label t.ef).cmap.size,
      (volumeFound p label t.ef).cmap.chunk i = decide (i < p.used) := by
    intro i hlt
    have hcount : (volumeFound p label t.ef).cmap.size = p.initSb.clusterCount := by
      show t.ef.sb.clusterCount = _
      rw [hi.sb]
    rw [hcount] at hlt
    exact h.chunk_found hi hlt label
  have hcount : (volumeFound p label t.ef).cmap.size = p.initSb.clusterCount := by
    show t.ef.sb.clusterCount = _
    rw [hi.sb]
  have hused : p.used ≤ p.initSb.clusterCount := by
    have := h.used_le
    rw [h.geometry.count]
    omega
  apply h.mountRoot_of hi
  refine wp_of_ok hcache ?_
  refine ⟨fun e he => (by cases he), fun _ => ⟨rfl, rfl, rfl, ?_⟩⟩
  refine ⟨hi.sb, rfl, rfl, rfl, hcount, hbits, ?_,
    ⟨_, withRoot_heap .., ?_, rfl, rfl, rfl, rfl, rfl⟩, ?_⟩
  · show exfatCountFreeClusters (volumeFound p label t.ef).cmap = _
    rw [exfatCountFreeClusters_eq (by rw [hcount]; exact p.initSb.clusterCount_lt),
      usedBits_below hbits (by rw [hcount]; exact hused), hcount]
  · show Nat.testBit attribDir 4 = true
    decide
  · intro j hj
    exact Function.update_of_ne hj ..

/-- A label that does not convert keeps the volume from being mounted. -/
theorem Feasible.wp_mountRoot_error (h : Feasible p) {b : Store} {t : Volume Flat} {e : Errno}
    (hi : OnImage p b t.ef) (hl : LabelArray p.volumeLabel) (htext : p.labelText = .error e) :
    wp mountRoot (fun r _ => r = .error .eio) anyStop t := by
  obtain ⟨s, hcache⟩ := h.cacheLoop_root_error (h.directory_rootNode hi.sb 1) hi rfl hl htext
  have hread := run_onNode (withRoot_heap t (rootNode p p.clusterSize 1)) hcache
  rw [withRoot_store] at hread
  have herror : exfatCacheDirectory t.fresh (withRoot t (rootNode p p.clusterSize 1)) =
      .ok (.error .eio)
      (withRoot { t with ef := s.ef } { s.node with first := none, child := [] }) := by
    unfold exfatCacheDirectory
    rw [run_bind_ok (run_getNode (withRoot_heap ..))]
    show (onNode t.fresh (cacheLoop _ 0) >>= _) _ = _
    rw [run_bind_ok hread, if_neg (by decide)]
    exact run_bind_ok (run_updateNode_withRoot { t with ef := s.ef } _ _)
  apply h.mountRoot_of hi
  refine wp_of_ok herror ?_
  refine ⟨fun e he => ?_, fun hok => (by cases hok)⟩
  unfold abandonMount
  rw [wp_bind]
  refine wp_of_forall (fun _ _ => ?_) fun _ _ => trivial
  rw [wp_bind]
  refine wp_of_forall (fun _ _ => ?_) fun _ _ => trivial
  rw [wp_bind]
  refine wp_of_forall (fun _ _ => ?_) fun _ _ => trivial
  exact (wp_pure _).2 rfl

/-! ### The host mkfs and the mount -/

/-- What `setup_volume_label` accepts. -/
theorem labelArray_of_setup {label : Option (List UInt8)} {units : List Nat}
    (h : setupVolumeLabel label = some units) : LabelArray units := by
  -- the array that is stored is terminated by a zero, whatever the label
  have harray : ∀ us : List Nat, (∀ x ∈ us, x < 2 ^ 16) → us.length < enameMax + 1 →
      LabelArray (labelArray us) := by
    intro us hunit hlen
    refine ⟨fun x hx => ?_, ?_⟩
    · rw [labelArray, List.mem_append] at hx
      obtain hx | hx := hx
      · exact hunit x (List.mem_of_mem_take hx)
      · rw [List.eq_of_mem_replicate hx]
        decide
    · have htake : us.take (enameMax + 1) = us := List.take_of_length_le (Nat.le_of_lt hlen)
      obtain ⟨k, hk⟩ : ∃ k, enameMax + 1 - us.length = k + 1 := ⟨enameMax - us.length, by omega⟩
      have hle := (List.takeWhile_prefix (fun x => decide (x ≠ 0)) (l := us)).length_le
      unfold utf16Length labelArray
      rw [htake, hk, List.replicate_succ, List.takeWhile_append]
      split
      · rw [List.length_append, List.takeWhile_cons_of_neg (by decide), List.length_nil]
        omega
      · omega
  cases label with
  | none =>
    cases h
    exact harray [] (fun _ hx => absurd hx List.not_mem_nil) (by decide)
  | some s =>
    unfold setupVolumeLabel at h
    dsimp only at h
    cases hs : exfatUtf8ToUtf16 s (enameMax + 1) with
    | error e =>
      rw [hs] at h
      cases h
    | ok us =>
      rw [hs] at h
      cases h
      obtain ⟨hunit, hlen⟩ := utf8ToUtf16Loop_units _ hs
      exact harray us hunit hlen

/-- The label can be read back if its surrogates are paired. -/
theorem labelText_ok_iff (hl : LabelArray p.volumeLabel) :
    (∃ label, p.labelText = .ok label) ↔ paired (nameString p.volumeLabel) = true := by
  have hlen : (nameString p.volumeLabel).length ≤ enameMax := hl.length
  have hstring := nameString_labelUnits hlen
  have hunit : ∀ x ∈ nameString (labelUnits p.volumeLabel), x < 2 ^ 16 := by
    rw [hstring]
    exact fun x hx => hl.unit x (mem_of_mem_nameString hx)
  have hroom : 3 * (nameString (labelUnits p.volumeLabel)).length < utf8EnameBufferMax := by
    rw [hstring]
    unfold utf8EnameBufferMax
    omega
  unfold Param.labelText
  by_cases h : utf16Length p.volumeLabel = 0
  · rw [if_pos h]
    have hnil : nameString p.volumeLabel = [] := List.length_eq_zero_iff.1 h
    rw [hnil]
    exact ⟨fun _ => by decide, fun _ => ⟨[], rfl⟩⟩
  · rw [if_neg h]
    constructor
    · rintro ⟨label, htext⟩
      by_contra hpair
      rw [← hstring, Bool.not_eq_true] at hpair
      cases (exfatUtf16ToUtf8_unpaired hunit hpair hroom).symm.trans htext
    · intro hpair
      rw [← hstring] at hpair
      obtain ⟨out, hout, -⟩ := exfatUtf16ToUtf8_paired hunit hpair hroom
      exact ⟨out, hout⟩

/-- The parameters of a successful run. -/
theorem label_of_hostParam {size serial firstSector : Nat} {spcBits : Option Nat}
    {label : Option (List UInt8)} {upcaseTable : List UInt8}
    (h : hostParam size spcBits label serial firstSector upcaseTable = some p) :
    setupVolumeLabel label = some p.volumeLabel := by
  unfold hostParam at h
  obtain ⟨bits, -, h⟩ := Option.bind_eq_some_iff.mp h
  obtain ⟨units, hunits, h⟩ := Option.bind_eq_some_iff.mp h
  split at h
  · cases h
  · cases h
    exact hunits

/-- Clusters that are too large are refused. -/
theorem Feasible.run_exfatMount_error (h : Feasible p) {b : Store} {t : Volume Flat}
    (hmalloc : ∀ k, t.ef.malloc k = true) (hdev : t.ef.dev.bytes = image p b)
    (hbits : ¬ p.sectorBits + p.spcBits ≤ 25) :
    wp exfatMount (fun r _ => r = .error .eio) anyStop t := by
  have hg := h.geometry
  have hboot : (⟨readBytes t.ef.dev.bytes 0 512⟩ : SuperBlock) = p.initSb := by
    rw [hdev]
    exact h.sbAt_image b
  obtain ⟨message, hmessage⟩ : ∃ message, p.initSb.formatError = some message := by
    cases hformat : p.initSb.formatError with
    | some message => exact ⟨message, rfl⟩
    | none =>
      rw [SuperBlock.formatError_eq_none, hg.sectorBits, hg.spcBits] at hformat
      exact absurd hformat.2.2 hbits
  -- the format check refuses the super block
  have hsuper : ∃ ef, mountSuperBlock t.ef = .ok (.error .eio) ef := by
    unfold mountSuperBlock
    rw [run_bind_ok (run_mallocOk _), hmalloc, if_neg (by decide),
      run_bind_ok (run_exfatPread _ _ _)]
    dsimp only
    rw [run_bind_ok (run_modify _ _), run_bind_ok (run_get _)]
    dsimp only
    rw [hboot, hmessage]
    exact ⟨_, rfl⟩
  obtain ⟨ef, hsuper⟩ := hsuper
  unfold exfatMount
  rw [wp_bind]
  refine wp_of_ok (run_zoom_ok hsuper) ?_
  rw [wp_bind]
  refine wp_of_forall (fun _ _ => ?_) fun _ _ => trivial
  exact (wp_pure _).2 rfl

section Host

variable {spcBits : Option Nat} {label : Option (List UInt8)} {serial firstSector : Nat}
  {upcaseTable : List UInt8} {s s' : MkState Flat} {t t' : Volume Flat}

/-- A volume that is about to be mounted from the device: nothing of it is in memory. -/
structure Unmounted (t : Volume Flat) : Prop where
  malloc : ∀ k, t.ef.malloc k = true
  word : 0 < t.ef.wordBits ∧ 8 ∣ t.ef.wordBits
  upcase : t.ef.upcase = none
  label : t.ef.label = []

/-- The volume when its boot region has been read. -/
def booted (t : Volume Flat) : Volume Flat :=
  { t with ef := { t.ef with sb := bootSector t.ef.dev.bytes, ticks := t.ef.ticks + 1 + 1 + 1 } }

/-- The device is as it was. -/
theorem booted_dev (t : Volume Flat) : (booted t).ef.dev = t.ef.dev := by
  unfold booted
  rfl

/-- The volume is on the image when its superblock has been read. -/
theorem Feasible.onImage (h : Feasible p) {b : Store} (ht : Unmounted t)
    (hdev : t.ef.dev.bytes = image p b) : OnImage p b (booted t).ef := by
  unfold booted
  refine ⟨?_, hdev, ht.malloc, ht.word, ht.upcase, ht.label⟩
  show bootSector t.ef.dev.bytes = p.initSb
  rw [hdev]
  exact h.sbAt_image b

/-- Mounting the image of mkfs, when the boot region is accepted. -/
theorem exfatMount_image {b : Store} (ht : Unmounted t)
    (hb : Bootable (image p b) p.volumeSize) (hdev : t.ef.dev = ⟨image p b, p.volumeSize⟩) :
    exfatMount t = mountRoot (booted t) := by
  apply run_exfatMount ht.malloc
  rw [hdev]
  exact hb

/-- The mount succeeds. -/
theorem Feasible.exists_mount (h : Feasible p) {b : Store} (ht : Unmounted t)
    (hb : Bootable (image p b) p.volumeSize) (hdev : t.ef.dev = ⟨image p b, p.volumeSize⟩)
    (hl : LabelArray p.volumeLabel) {text : List UInt8} (htext : p.labelText = .ok text) :
    ∃ t', exfatMount t = .ok (.ok ()) t' ∧ NewVolume p text t t' := by
  have hi := h.onImage ht (congrArg Flat.bytes hdev)
  obtain ⟨r, t', hrun, rfl, hnew⟩ := wp_never_iff.1 (h.wp_mountRoot hi hl htext)
  refine ⟨t', ?_, ?_⟩
  · rw [exfatMount_image ht hb hdev]
    exact hrun
  · exact ⟨hnew.sb, hnew.dev.trans (booted_dev t), hnew.label, hnew.upcase, hnew.count,
      hnew.bits, hnew.free,
      hnew.root, hnew.others⟩

/-- The volume that a successful run of the host mkfs leaves is mounted if and only if its clusters
are not larger than 32 MB and the surrogates in its label are paired. -/
theorem hostMkfs_mounts_iff (htable : upcaseTable.length = upcaseTableSize)
    (h : hostMkfs spcBits label serial firstSector upcaseTable s = .ok ⟨⟩ s')
    (hdev : t.ef.dev = s'.dev) (ht : Unmounted t) :
    (∃ t', exfatMount t = .ok (.ok ()) t') ↔
      ∀ bits units, setupSpcBits 9 spcBits s.dev.size = some bits →
      setupVolumeLabel label = some units → bits ≤ 16 ∧ paired (nameString units) = true := by
  obtain ⟨p, hp, hf, hdev'⟩ := hostMkfs_ok htable h
  obtain ⟨hbits, hsector, hsize, -⟩ := hostParam_eq hp
  have hunits := label_of_hostParam hp
  have hl := labelArray_of_setup hunits
  have hbytes : t.ef.dev = ⟨image p s.dev.bytes, p.volumeSize⟩ := by
    rw [hdev, hdev', hsize]
  have hi := hf.onImage ht (congrArg Flat.bytes hbytes)
  constructor
  -- the mount fails for two reasons only: the cluster size and the label
  · rintro ⟨t', hmount⟩ bits units hb hu
    cases hbits.symm.trans hb
    cases hunits.symm.trans hu
    by_cases hle : p.sectorBits + p.spcBits ≤ 25
    · refine ⟨by omega, (labelText_ok_iff hl).1 ?_⟩
      cases htext : p.labelText with
      | ok text => exact ⟨text, rfl⟩
      | error e =>
        rw [exfatMount_image ht ((hf.bootable_image_iff _).2 ⟨hle, .inl hsector⟩) hbytes] at hmount
        cases wp_anyStop_iff.1 (hf.wp_mountRoot_error hi hl htext) _ _ hmount
    · cases wp_anyStop_iff.1 (hf.run_exfatMount_error ht.malloc (congrArg Flat.bytes hbytes) hle)
        _ _ hmount
  · intro hall
    obtain ⟨hle, hpair⟩ := hall _ _ hbits hunits
    obtain ⟨text, htext⟩ := (labelText_ok_iff hl).2 hpair
    obtain ⟨t', hmount, -⟩ :=
      hf.exists_mount ht ((hf.bootable_image_iff _).2 ⟨by omega, .inl hsector⟩) hbytes hl htext
    exact ⟨t', hmount⟩

/-- A volume of which nothing is in memory. -/
def unmountedVolume (dev : Flat) : Volume Flat where
  ef := { dev := dev, sb := ⟨[]⟩ }
  heap _ := none
  root := 0
  fresh := 0

/-- The volume is not mounted. -/
theorem unmounted_unmountedVolume (dev : Flat) : Unmounted (unmountedVolume dev) :=
  ⟨fun _ => rfl, (by decide : 0 < 64 ∧ 8 ∣ 64), rfl, rfl⟩

/-- A volume of a megabyte with clusters of 4 KB is mounted. -/
theorem hostMkfs_mounts_megabyte :
    ∃ s' t', hostMkfs (some 3) none 1 0 (List.replicate upcaseTableSize 0) (blankDevice (2 ^ 20)) =
      .ok ⟨⟩ s' ∧
      exfatMount (unmountedVolume s'.dev) = .ok (.ok ()) t' := by
  have hp : hostParam (2 ^ 20) (some 3) none 1 0 (List.replicate upcaseTableSize 0) =
      some (plainParam (2 ^ 20) 3) := rfl
  obtain ⟨s', hrun, -⟩ := hostMkfs_blank hp (by decide +kernel)
  obtain ⟨t', hmount⟩ := (hostMkfs_mounts_iff (List.length_replicate ..) hrun rfl
    (unmounted_unmountedVolume s'.dev)).2 (by
      intro bits units hb hu
      have hbits : setupSpcBits 9 (some 3) (2 ^ 20) = some 3 := rfl
      cases hbits.symm.trans hb
      cases hu
      exact ⟨by decide, by decide⟩)
  exact ⟨s', t', hrun, hmount⟩

/-- The text of a label takes at most three bytes a unit. -/
theorem length_spelling_le {wcs : List Nat} (h : ∀ wc ∈ wcs, Scalar wc) :
    (spelling wcs).length ≤ 3 * (unitString wcs).length := by
  induction wcs with
  | nil => simp [spelling]
  | cons wc wcs ih =>
    have hroom := (h wc List.mem_cons_self).room
    have ih' := ih fun x hx => h x (List.mem_cons_of_mem _ hx)
    rw [spelling_cons, unitString_cons, List.length_append, List.length_append, length_charBytes]
    omega

/-- A label that spells characters is the text that is read. -/
theorem labelText_spelling {wcs : List Nat} (h : ∀ wc ∈ wcs, Scalar wc)
    (hsetup : setupVolumeLabel (some (spelling wcs)) = some p.volumeLabel) :
    p.labelText = .ok (spelling wcs) := by
  have hread := utf8ToUtf16Loop_spelling h (spelling wcs).length (enameMax + 1) le_rfl
  have hread' : exfatUtf8ToUtf16 (spelling wcs) (enameMax + 1) = _ := hread
  unfold setupVolumeLabel at hsetup
  dsimp only at hsetup
  rw [hread'] at hsetup
  -- the units fit into the array, or the label is refused
  by_cases hfit : (unitString wcs).length < enameMax + 1
  · rw [if_pos hfit] at hsetup
    have harray : labelArray (unitString wcs) = p.volumeLabel := Option.some.inj hsetup
    have hshort := length_spelling_le h
    have hchars := length_le_unitString wcs
    have hunits : labelUnits p.volumeLabel =
        unitString wcs ++ List.replicate (enameMax - (unitString wcs).length) 0 := by
      rw [← harray, labelUnits, labelArray, List.take_of_length_le (Nat.le_of_lt hfit),
        List.take_append,
        List.take_of_length_le (Nat.lt_succ_iff.1 hfit), List.take_replicate, List.length_append,
        List.length_replicate, List.append_assoc, ← List.replicate_add]
      congr 2
      omega
    unfold Param.labelText
    by_cases hempty : utf16Length p.volumeLabel = 0
    · -- the characters have units other than zero
      have hpos : ∀ x ∈ unitString wcs, 0 < x := by
        intro x hx
        obtain ⟨wc, hwc, hx⟩ := List.mem_flatMap.1 hx
        exact wcharToUtf16_pos (h wc hwc).pos.ne' hx
      have hstring :=
        nameString_append hpos (terminated_replicate (enameMax - (unitString wcs).length))
      rw [← hunits, nameString_labelUnits (by show utf16Length _ ≤ _; omega)] at hstring
      have hnil : nameString p.volumeLabel = [] := List.length_eq_zero_iff.1 hempty
      rw [hnil] at hstring
      rw [← hstring, List.length_nil] at hchars
      obtain rfl := List.length_eq_zero_iff.1 (Nat.le_zero.1 hchars)
      rw [if_pos hempty]
      rfl
    · rw [if_neg hempty, exfatUtf16ToUtf8, length_labelUnits, hunits]
      exact utf16ToUtf8Loop_unitString h (terminated_replicate _) enameMax utf8EnameBufferMax
        (by omega) (by unfold utf8EnameBufferMax; omega)
  · rw [if_neg hfit] at hsetup
    cases hsetup

/-- What is mounted from the volume that a successful run of the host mkfs leaves. -/
theorem hostMkfs_mounted (htable : upcaseTable.length = upcaseTableSize)
    (h : hostMkfs spcBits label serial firstSector upcaseTable s = .ok ⟨⟩ s')
    (hdev : t.ef.dev = s'.dev) (ht : Unmounted t) (hmount : exfatMount t = .ok (.ok ()) t') :
    ∃ p text, hostParam s.dev.size spcBits label serial firstSector upcaseTable = some p ∧
      NewVolume p text t t' ∧
      ∀ wcs, (∀ wc ∈ wcs, Scalar wc) → label.getD [] = spelling wcs → text = spelling wcs := by
  obtain ⟨p, hp, hf, hdev'⟩ := hostMkfs_ok htable h
  obtain ⟨hbits, hsector, hsize, -⟩ := hostParam_eq hp
  have hunits := label_of_hostParam hp
  have hl := labelArray_of_setup hunits
  have hbytes : t.ef.dev = ⟨image p s.dev.bytes, p.volumeSize⟩ := by
    rw [hdev, hdev', hsize]
  obtain ⟨hle, hpair⟩ := (hostMkfs_mounts_iff htable h hdev ht).1 ⟨t', hmount⟩ _ _ hbits hunits
  obtain ⟨text, htext⟩ := (labelText_ok_iff hl).2 hpair
  obtain ⟨t'', hrun, hnew⟩ :=
    hf.exists_mount ht ((hf.bootable_image_iff _).2 ⟨by omega, .inl hsector⟩) hbytes hl htext
  have heq : t'' = t' := by
    injection hrun.symm.trans hmount
  subst heq
  refine ⟨p, text, hp, hnew, fun wcs hwcs hlabel => ?_⟩
  have hsetup : setupVolumeLabel (some (spelling wcs)) = some p.volumeLabel := by
    cases label with
    | none =>
      rw [← hlabel]
      exact hunits
    | some bytes =>
      rw [← hlabel]
      exact hunits
  cases htext.symm.trans (labelText_spelling hwcs hsetup)
  rfl

/-- The volume of a megabyte has no label and a root directory with nothing in it. -/
theorem hostMkfs_mounted_megabyte :
    ∃ s' t', hostMkfs (some 3) none 1 0 (List.replicate upcaseTableSize 0) (blankDevice (2 ^ 20)) =
      .ok ⟨⟩ s' ∧
      exfatMount (unmountedVolume s'.dev) = .ok (.ok ()) t' ∧ t'.ef.label = [] ∧
      ∃ n, t'.heap t'.root = some n ∧ n.isCached = true ∧ n.child = [] := by
  have hp : hostParam (2 ^ 20) (some 3) none 1 0 (List.replicate upcaseTableSize 0) =
      some (plainParam (2 ^ 20) 3) := rfl
  have hcheck : (plainParam (2 ^ 20) 3).checkSize = true := by decide +kernel
  have hf := feasible_of_hostParam hp (List.length_replicate ..) hcheck
  obtain ⟨s', hrun, hdev⟩ := hostMkfs_blank hp hcheck
  have hbits : (plainParam (2 ^ 20) 3).sectorBits + (plainParam (2 ^ 20) 3).spcBits ≤ 25 := by
    decide
  have hbytes : (unmountedVolume s'.dev).ef.dev =
    ⟨image (plainParam (2 ^ 20) 3) fun _ => 0, (plainParam (2 ^ 20) 3).volumeSize⟩ := hdev
  have hl : LabelArray (plainParam (2 ^ 20) 3).volumeLabel :=
    labelArray_of_setup (show setupVolumeLabel none = some _ from rfl)
  have hempty : (plainParam (2 ^ 20) 3).labelText = .ok [] := if_pos (by decide)
  obtain ⟨t', hmount, -⟩ := hf.exists_mount (unmounted_unmountedVolume s'.dev)
    ((hf.bootable_image_iff _).2 ⟨hbits, .inl rfl⟩) hbytes hl hempty
  obtain ⟨p, text, -, hnew, htext⟩ := hostMkfs_mounted (List.length_replicate ..) hrun rfl
    (unmounted_unmountedVolume s'.dev) hmount
  obtain ⟨n, hn, -, hcached, hchild, -⟩ := hnew.root
  exact ⟨s', t', hrun, hmount, hnew.label.trans (htext [] (by simp) rfl), n, hn, hcached, hchild⟩

end Host

end ExFat.Mkfs
