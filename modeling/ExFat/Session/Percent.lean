import ExFat.Session.Special
import ExFat.Session.Unmount
import ExFat.Alloc.Words

namespace ExFat

open Program Bytes

/-!
# The percentage of allocated space

`exfat_unmount` stores in the superblock how much of the volume is allocated.  The bitmap of a
mounted volume has a bit for every cluster, so that the count is that of the clusters in use; the
percentage is computed in 32 bits, which is not enough for the volumes with the most clusters.
-/

variable {δ : Type} {α : Type}

/-! ### The bitmap covers the volume -/

/-- A bitmap in memory has a bit for every cluster. -/
def Ef.Charted (ef : Ef δ) : Prop := ef.cmap.present = true → ef.cmap.size = ef.sb.clusterCount

/-- The superblock is the one it was, and so is the bitmap, or it is another one that covers the
volume. -/
def Ef.Charts (ef ef' : Ef δ) : Prop := ef'.sb = ef.sb ∧ (ef.Charted → ef'.Charted)

instance : IsPreorder (Ef δ) Ef.Charts where
  refl _ := ⟨rfl, id⟩
  trans _ _ _ h h' := ⟨h'.1.trans h.1, fun hc => h'.2 (h.2 hc)⟩

/-- A volume with the same superblock and bitmap is charted as it was. -/
theorem Ef.Charts.of_same {ef ef' : Ef δ} (hsb : ef'.sb = ef.sb) (hcmap : ef'.cmap = ef.cmap) :
    ef.Charts ef' := by
  refine ⟨hsb, fun h => ?_⟩
  unfold Ef.Charted at *
  rw [hsb, hcmap]
  exact h

/-- A volume that was only read is charted as it was. -/
theorem Ef.Skimmed.charts {ef ef' : Ef δ} (h : ef.Skimmed ef') : ef.Charts ef' := by
  unfold Ef.Skimmed at h
  exact .of_same (by rw [h]) (by rw [h])

/-- A routine that only reads leaves the chart of the volume alone. -/
theorem charts_of_skims {m : EfM δ α} (hm : Keeps Ef.Skimmed m) : Keeps Ef.Charts m := fun ef =>
  wp_mono (hm ef) (fun _ _ h => h.charts) (fun _ _ h => h.charts)

/-- A report leaves the chart of the volume alone. -/
theorem charts_report (message : String) (a : α) :
    Keeps Ef.Charts (do exfatError (δ := δ) message; pure a) :=
      charts_of_skims (skims_report message a)

section Device

variable [Device δ]

/-- `exfat_pread` leaves the superblock alone, and with it a bitmap that covers the volume. -/
theorem charts_exfatPread (size offset : Nat) : Keeps Ef.Charts (exfatPread (δ := δ) size offset) :=
  fun _ => Ef.Charts.of_same rfl rfl

omit [Device δ] in
/-- `exfat_c2o` leaves the superblock alone, and with it a bitmap that covers the volume. -/
theorem charts_exfatC2o (cluster : Nat) : Keeps Ef.Charts (exfatC2o (δ := δ) cluster) :=
  keeps_look fun _ => keeps_ite (keeps_throw _) (keeps_pure _)

/-- `readUpcase` leaves the superblock alone, and with it a bitmap that covers the volume. -/
theorem charts_readUpcase (entry : Entry) : Keeps Ef.Charts (readUpcase (δ := δ) entry) := by
  refine keeps_look fun ef => ?_
  split
  · exact keeps_pure _
  split
  · exact charts_report _ _
  split
  · exact charts_report _ _
  refine keeps_bind (charts_of_skims skims_mallocOk) fun ok => ?_
  split
  · exact charts_report _ _
  refine keeps_bind (charts_exfatC2o _) fun offset =>
    keeps_bind (charts_exfatPread _ _) fun bytes => ?_
  cases bytes with
  | none => exact charts_report _ _
  | some bytes =>
    refine keeps_bind (charts_of_skims skims_mallocOk) fun ok => ?_
    split
    · exact charts_report _ _
    · exact keeps_bind (keeps_modify fun ef => Ef.Charts.of_same rfl rfl) fun _ => keeps_pure _

omit [Device δ] in
/-- The superblock and the size of the bitmap are what they were. -/
def Ef.Sized (ef ef' : Ef δ) : Prop := ef'.sb = ef.sb ∧ ef'.cmap.size = ef.cmap.size

instance : IsPreorder (Ef δ) Ef.Sized where
  refl _ := ⟨rfl, rfl⟩
  trans _ _ _ h h' := ⟨h'.1.trans h.1, h'.2.trans h.2⟩

omit [Device δ] in
/-- A routine that only reads leaves the size of the bitmap alone. -/
theorem sized_of_skims {m : EfM δ α} (hm : Keeps Ef.Skimmed m) : Keeps Ef.Sized m := by
  have hsized : ∀ {ef ef' : Ef δ}, ef.Skimmed ef' → ef.Sized ef' := by
    intro ef ef' h
    unfold Ef.Skimmed at h
    exact ⟨by rw [h], by rw [h]⟩
  exact fun ef => wp_mono (hm ef) (fun _ _ h => hsized h) (fun _ _ h => hsized h)

/-- Wherever a bitmap is read, its size is set before its bits are there. -/
theorem charts_readBitmap (entry : Entry) : Keeps Ef.Charts (readBitmap (δ := δ) entry) := by
  refine keeps_bind (keeps_modify fun ef => ⟨rfl, id⟩) fun _ => keeps_look fun ef => ?_
  split
  · exact charts_report _ _
  intro ef'
  rw [wp_bind, wp_modify]
  generalize hef₁ :
    ({ ef' with cmap := { ef'.cmap with size := ef'.sb.clusterCount } } : Ef δ) = ef₁
  have hsized : ∀ {ef₂ : Ef δ}, ef₁.Sized ef₂ → ef'.Charts ef₂ := by
    rintro ef₂ ⟨hsb, hsize⟩
    subst hef₁
    refine ⟨hsb, fun _ _ => ?_⟩
    rw [hsize, hsb]
  suffices htail : Keeps Ef.Sized _ from
    wp_mono (htail ef₁) (fun _ _ h => hsized h) (fun _ _ h => hsized h)
  refine keeps_ite (sized_of_skims (skims_report _ _)) ?_
  refine keeps_bind (keeps_modify fun ef => ⟨rfl, rfl⟩) fun _ => ?_
  refine keeps_bind (sized_of_skims skims_mallocOk) fun ok => keeps_ite ?_ ?_
  · exact keeps_bind (keeps_modify fun ef => ⟨rfl, rfl⟩) fun _ => sized_of_skims (skims_report _ _)
  refine keeps_bind (keeps_modify fun ef => ⟨rfl, rfl⟩) fun _ => ?_
  refine keeps_bind (keeps_look fun _ => keeps_ite (keeps_throw _) (keeps_pure _)) fun offset => ?_
  refine keeps_bind (fun _ => ⟨rfl, rfl⟩) fun bytes => ?_
  cases bytes with
  | none => exact sized_of_skims (skims_report _ _)
  | some bytes => exact keeps_bind (keeps_modify fun ef => ⟨rfl, rfl⟩) fun _ => keeps_pure _

omit [Device δ] in
/-- `readLabel` leaves the superblock alone, and with it a bitmap that covers the volume. -/
theorem charts_readLabel (entry : Entry) : Keeps Ef.Charts (readLabel (δ := δ) entry) := by
  refine keeps_ite (charts_report _ _) ?_
  cases exfatUtf16ToUtf8 entry.units utf8EnameBufferMax with
  | error e =>
    exact keeps_bind (keeps_modify fun ef => Ef.Charts.of_same rfl rfl) fun _ => keeps_pure _
  | ok label =>
    exact keeps_bind (keeps_modify fun ef => Ef.Charts.of_same rfl rfl) fun _ => keeps_pure _

/-- Every entry leaves a bitmap that covers the volume. -/
theorem Entry.preserves_charts (e : Entry) : e.Preserves (Ef.Charts (δ := δ)) :=
  ⟨fun _ => charts_readUpcase e, fun _ => charts_readBitmap e, fun _ => charts_readLabel e⟩

omit [Device δ] in
/-- Linking new nodes leaves the volume alone. -/
theorem sameEf_newChildren (dir : NodeId) (current : Option NodeId) (ns : List Node) :
    Keeps Volume.SameEf (newChildren (δ := δ) dir current ns) := by
  induction ns generalizing current with
  | nil => exact keeps_pure _
  | cons n ns ih =>
    have hlink : ∀ i, Keeps Volume.SameEf (linkBehind (δ := δ) dir i current) := by
      intro i
      unfold linkBehind
      cases current with
      | none => exact sameEf_updateNode _ _
      | some c => exact sameEf_updateNode _ _
    intro t
    unfold newChildren
    rw [wp_bind, wp_get, wp_bind, wp_set]
    have hrest : Keeps Volume.SameEf (do
        linkBehind (δ := δ) dir t.fresh current
        let ids ← newChildren dir (some t.fresh) ns
        pure (t.fresh :: ids)) :=
      keeps_bind (hlink _) fun _ => keeps_bind (ih _) fun _ => keeps_pure _
    exact hrest _

/-- What every entry keeps that the scan of a directory meets, reading the directory keeps. -/
theorem wp_exfatCacheDirectory_of {R : Ef δ → Ef δ → Prop} [IsPreorder (Ef δ) R]
    (hskim : ∀ {ef ef' : Ef δ}, ef.Skimmed ef' → R ef ef') {dir : NodeId} {t : Volume δ}
    (hmet : ∀ d, t.heap dir = some d → ∀ e, Meets ⟨t.ef, d⟩ 0 e → e.Preserves R) :
    wp (exfatCacheDirectory dir) (fun _ t' => R t.ef t'.ef) anyStop t := by
  unfold exfatCacheDirectory
  rw [wp_bind]
  refine wp_getNode trivial fun n hn => ?_
  split
  · exact refl_of R t.ef
  rw [wp_bind, wp_onNode hn]
  refine wp_mono (wp_cacheLoop_of hskim _ 0 (hmet n hn)) ?_ (fun _ _ _ => trivial)
  intro r s hs
  have hrest : ∀ {m : TreeM δ Rc}, Keeps Volume.SameEf m →
      wp m (fun _ t' => R t.ef t'.ef) anyStop (t.store dir s) := by
    intro m hm
    refine wp_mono (hm _) (fun _ t' h => ?_) (fun _ _ _ => trivial)
    have hef : t'.ef = s.ef := h
    rw [hef]
    exact hs
  split
  · refine hrest (keeps_bind (sameEf_newChildren _ _ _) fun ids => ?_)
    exact keeps_bind (sameEf_updateNode _ _) fun _ => keeps_pure _
  · exact hrest (keeps_bind (sameEf_updateNode _ _) fun _ => keeps_pure _)

/-! ### A volume that has been mounted -/

/-- `exfat_pread` calls the device, writes messages and asks for memory at most. -/
theorem skims_exfatPread (size offset : Nat) : Keeps Ef.Skimmed (exfatPread (δ := δ) size offset) :=
  fun _ => rfl

/-- `exfat_fix_invalid_vbr_checksum` calls the device, writes messages and asks for memory at most.
-/
theorem skims_exfatFixInvalidVbrChecksum (checksum : Nat) :
    Keeps Ef.Skimmed (exfatFixInvalidVbrChecksum (δ := δ) checksum) := by
  have hpwrite : ∀ data offset, Keeps Ef.Skimmed (exfatPwrite (δ := δ) data offset) :=
    fun _ _ _ => rfl
  refine keeps_look fun ef => keeps_bind (hpwrite _ _) fun r => ?_
  cases r with
  | none => exact skims_report _ _
  | some _ => exact keeps_bind skims_exfatErrorsFixedBump fun _ => keeps_pure _

/-- `verify_vbr_checksum` calls the device, writes messages and asks for memory at most. -/
theorem skims_verifyVbrChecksum : Keeps Ef.Skimmed (verifyVbrChecksum (δ := δ)) := by
  -- each part of the verification reads, or repairs a word of the boot region
  have hsectors : ∀ sectorSize n i, Keeps Ef.Skimmed (readVbrSectors (δ := δ) sectorSize n i) := by
    intro sectorSize n
    induction n with
    | zero => exact fun _ => keeps_pure _
    | succ n ih =>
      intro i
      refine keeps_bind (skims_exfatPread _ _) fun r => ?_
      cases r with
      | none => exact skims_report _ _
      | some sector =>
        refine keeps_bind (ih _) fun r => ?_
        cases r with
        | none => exact keeps_pure _
        | some sectors => exact keeps_pure _
  have hread : Keeps Ef.Skimmed (readVbr (δ := δ)) := by
    refine keeps_look fun ef => keeps_ite (keeps_bind (skims_exfatPread _ _) fun r => ?_)
      (hsectors _ _ _)
    cases r with
    | none => exact skims_report _ _
    | some bytes => exact keeps_pure _
  have hwords : ∀ checksum words, Keeps Ef.Skimmed (verifyWords (δ := δ) checksum words) := by
    intro checksum words
    induction words with
    | nil => exact keeps_pure _
    | cons w ws ih =>
      refine keeps_ite (keeps_bind (skims_exfatError _) fun _ => ?_) ih
      refine keeps_bind skims_exfatAskToFix fun fix => keeps_ite ?_ (keeps_pure _)
      exact skims_exfatFixInvalidVbrChecksum _
  refine keeps_look fun ef => keeps_bind hread fun r => ?_
  cases r with
  | none => exact keeps_pure _
  | some sectors => exact hwords _ _

/-- The boot sector that is kept is a whole one. -/
theorem wp_mountSuperBlock (ef : Ef δ) :
    wp (mountSuperBlock (δ := δ)) (fun rc ef' => rc = .ok () →
      512 ≤ ef'.sb.bytes.length ∧ ef'.cmap = ef.cmap ∧ ef'.sb.formatError = none) anyStop ef := by
  have hfail : ∀ (message : String) (e : Errno) (ef₁ : Ef δ),
      wp (do exfatError message; pure (.error e) : EfM δ Rc) (fun rc ef' => rc = .ok () →
        512 ≤ ef'.sb.bytes.length ∧ ef'.cmap = ef.cmap ∧ ef'.sb.formatError = none)
        anyStop ef₁ := by
    intro message e ef₁
    exact wp_after fun _ _ => by simp
  unfold mountSuperBlock
  rw [wp_bind]
  refine wp_mono (skims_mallocOk ef) ?_ (fun _ _ _ => trivial)
  intro ok ef₁ h₁
  -- Each failure leaves through `hfail`.
  split
  · exact hfail _ _ _
  rw [wp_bind]
  unfold exfatPread
  rw [wp_bind, wp_get, wp_bind, wp_set, wp_pure]
  cases hread : (Device.pread 512 0 ef₁.dev).1 with
  | none => exact hfail "failed to read boot sector" .eio _
  | some bytes =>
    rw [Option.map_some, wp_bind, wp_modify, wp_bind, wp_get]
    generalize hef₂ : ({ ({ ef₁ with dev := (Device.pread 512 0 ef₁.dev).2 } : Ef δ) with
      sb := ⟨bytes ++ List.replicate (512 - bytes.length) 0⟩ } : Ef δ) = ef₂
    cases hformat : ef₂.sb.formatError with
    | some message => exact hfail message .eio _
    | none =>
      -- what comes behind the check of the format does not touch the boot sector
      have hkeep : ∀ {ef₃ : Ef δ}, ef₂.Skimmed ef₃ →
          512 ≤ ef₃.sb.bytes.length ∧ ef₃.cmap = ef.cmap ∧ ef₃.sb.formatError = none := by
        intro ef₃ h₃
        unfold Ef.Skimmed at h₁ h₃
        subst hef₂
        rw [h₃]
        refine ⟨?_, ?_, hformat⟩
        · show 512 ≤ (bytes ++ List.replicate (512 - bytes.length) 0).length
          rw [List.length_append, List.length_replicate]
          omega
        · show ef₁.cmap = ef.cmap
          rw [h₁]
      -- the rest of the function is checks
      suffices hrest : Keeps Ef.Skimmed _ from
        wp_mono (hrest ef₂) (fun _ _ h _ => hkeep h) (fun _ _ _ => trivial)
      refine keeps_bind skims_mallocOk fun ok => keeps_ite (skims_report _ _) ?_
      refine keeps_bind skims_verifyVbrChecksum fun ok => keeps_ite (keeps_pure _) ?_
      cases ef₂.sb.volumeError (Device.getSize ef₂.dev) with
      | some message => exact skims_report message _
      | none =>
        exact keeps_bind skims_mallocOk fun ok => keeps_ite (skims_report _ _) (keeps_pure _)

/-- `exfat_next_cluster` calls the device, writes messages and asks for memory at most. -/
theorem skims_exfatNextCluster (cluster : Nat) :
    Keeps FileState.EfSkimmed (exfatNextCluster (δ := δ) cluster) := by
  refine keeps_look fun s => keeps_ite (keeps_throw _) (keeps_ite (keeps_pure _) ?_)
  refine keeps_bind (skims_onEf (skims_exfatPread _ _)) fun r => ?_
  cases r with
  | none => exact keeps_pure _
  | some bytes => exact keeps_pure _

/-- `rootdirLoop` calls the device, writes messages and asks for memory at most. -/
theorem skims_rootdirLoop (fuel clusters cluster : Nat) :
    Keeps FileState.EfSkimmed (rootdirLoop (δ := δ) fuel clusters cluster) := by
  have hfail : ∀ message : String, Keeps FileState.EfSkimmed
      (do onEf (exfatError (δ := δ) message); pure 0 : FileM δ Nat) := fun message =>
    keeps_bind (skims_onEf (skims_exfatError message)) fun _ => keeps_pure _
  induction fuel generalizing clusters cluster with
  | zero => exact keeps_throw _
  | succ fuel ih =>
    refine keeps_look fun s => keeps_ite (hfail _) (keeps_ite (hfail _) ?_)
    exact keeps_bind (skims_exfatNextCluster _) fun next => keeps_ite (ih _ _) (keeps_pure _)

/-- A root directory is found on a volume that has clusters only. -/
theorem wp_rootdirSize (s : FileState δ) :
    wp (rootdirSize (δ := δ)) (fun size s' => s.ef.Skimmed s'.ef ∧
      (size ≠ 0 → 0 < s.ef.sb.clusterCount)) anyStop s := by
  unfold rootdirSize
  rw [wp_bind, wp_get]
  by_cases hcount : s.ef.sb.clusterCount = 0
  · unfold rootdirLoop
    rw [wp_bind, wp_get, if_pos hcount.symm, wp_bind]
    exact wp_mono (skims_onEf (skims_exfatError _) s) (fun _ _ h => ⟨h, fun hne => absurd rfl hne⟩)
      (fun _ _ _ => trivial)
  · exact wp_mono (skims_rootdirLoop _ _ _ s) (fun _ _ h => ⟨h, fun _ => Nat.pos_of_ne_zero hcount⟩)
      (fun _ _ _ => trivial)

/-- What `exfat_mount` leaves of the superblock and the bitmap. -/
structure Ef.MountedWell (ef : Ef δ) : Prop where
  length : 512 ≤ ef.sb.bytes.length
  count : 0 < ef.sb.clusterCount
  size : ef.cmap.size = ef.sb.clusterCount

/-- The node `exfat_mount` makes for the root directory. -/
def rootdirNode (sb : SuperBlock) : Node :=
  { attrib := attribDir, startCluster := sb.rootdirCluster, fptrCluster := sb.rootdirCluster }

/-- The state in which the root directory is read, when its size is known. -/
def FileState.ofSize (s : FileState δ) (size : Nat) : FileState δ :=
  ⟨s.ef, { s.node with size := size, validSize := size, references := s.node.references + 1 }⟩

/-- The root directory is read on a volume that has clusters, and the bitmap is found in it.  What
every entry keeps that is met there, the mount keeps. -/
theorem wp_mountRoot_of {R : Ef δ → Ef δ → Prop} [IsPreorder (Ef δ) R]
    (hskim : ∀ {ef ef' : Ef δ}, ef.Skimmed ef' → R ef ef') {t : Volume δ}
    (hmet : ∀ size s, rootdirSize ⟨t.ef, rootdirNode t.ef.sb⟩ = .ok size s →
      ∀ e, Meets (s.ofSize size) 0 e → e.Preserves R) :
    wp (mountRoot (δ := δ)) (fun rc t' => rc = .ok () →
      R t.ef t'.ef ∧ 0 < t.ef.sb.clusterCount ∧ t'.ef.cmap.present = true) anyStop t := by
  -- a mount that is given up does not return 0
  have habandon : ∀ (root : NodeId) (t₁ : Volume δ), wp (abandonMount (δ := δ) root)
      (fun rc t' => rc = .ok () →
        R t.ef t'.ef ∧ 0 < t.ef.sb.clusterCount ∧ t'.ef.cmap.present = true) anyStop t₁ :=
          fun _ _ =>
    wp_after fun _ _ => wp_after fun _ _ => wp_after fun _ _ => nofun
  unfold mountRoot
  rw [wp_bind, wp_get, wp_bind, wp_set, wp_bind, wp_onNode (Function.update_self ..)]
  refine wp_mono (wp_run (wp_rootdirSize _)) ?_ (fun _ _ _ => trivial)
  rintro size s ⟨hsize, hskimmed, hcount⟩
  rw [wp_bind]
  unfold updateNode
  rw [wp_onNode (store_heap_self ..)]
  unfold modifyNode
  rw [wp_modify]
  -- a root directory of size 0 is refused
  split
  · exact wp_after fun _ _ => nofun
  next hne =>
  rw [wp_bind]
  unfold exfatGetNode updateNode
  rw [wp_onNode (store_heap_self ..)]
  unfold modifyNode
  rw [wp_modify, wp_bind]
  refine wp_mono (wp_exfatCacheDirectory_of hskim fun d hd => ?_) ?_ (fun _ _ _ => trivial)
  -- the entries met are those of the directory in the size that has been found
  · rw [store_heap_self] at hd
    cases hd
    exact hmet size s hsize
  intro rc t₃ h₃
  have hR : R t.ef t₃.ef := trans_of R (hskim hskimmed) h₃
  cases rc with
  | error e => exact habandon _ t₃
  -- the up-case table and the bitmap have to be there
  | ok _ =>
    rw [wp_bind, wp_get]
    split
    · exact wp_after fun _ t₄ => habandon _ t₄
    split
    · exact wp_after fun _ t₄ => habandon _ t₄
    next hpresent => exact fun _ => ⟨hR, hcount hne, by simpa using hpresent⟩

/-- The superblock has passed the tests, and the bitmap has a bit for every cluster. -/
theorem exfatMount_well {t : Volume δ} (h : t.ef.cmap.present = false) :
    wp (exfatMount (δ := δ)) (fun rc t' => rc = .ok () →
      t'.ef.MountedWell ∧ t'.ef.sb.formatError = none) anyStop t := by
  unfold exfatMount
  rw [wp_bind]
  unfold onVolume
  rw [wp_zoom]
  refine wp_mono (wp_mountSuperBlock t.ef) ?_ (fun _ _ _ => trivial)
  intro rc ef hrc
  cases rc with
  | error e => exact wp_after fun _ _ => by simp
  | ok _ =>
    obtain ⟨hlength, hcmap, hformat⟩ := hrc rfl
    have hroot := wp_mountRoot_of (t := { t with ef := ef }) Ef.Skimmed.charts
      fun _ _ _ e _ => e.preserves_charts
    refine wp_conseq hroot fun rc t' hroot hrc => ?_
    obtain ⟨⟨hsb, hchart⟩, hcount, hpresent⟩ := hroot hrc
    have hcharted : ef.Charted := by
      intro hp
      rw [hcmap, h] at hp
      cases hp
    refine ⟨⟨?_, ?_, hchart hcharted hpresent⟩, ?_⟩
    · rw [hsb]
      exact hlength
    · rw [hsb]
      exact hcount
    · rw [hsb]
      exact hformat

end Device

/-! ### The percentage -/

/-- A percentage is as near to `100 * used / total` as an integer can be. -/
def NearestPercent (p used total : Nat) : Prop :=
  2 * (100 * used) ≤ 2 * (p * total) + total ∧ 2 * (p * total) ≤ 2 * (100 * used) + total

/-- What is computed is right while 32 bits hold it. -/
theorem allocatedPercent_nearest_iff {used total : Nat} (hused : used ≤ total) (htotal : 0 < total)
    (hlt : total < 2 ^ 32) :
    (NearestPercent (allocatedPercent total (total - used) % 256) used total ∧
      allocatedPercent total (total - used) % 256 ≤ 100) ↔ 100 * used + total / 2 < 2 ^ 32 := by
  have hsub : sub32 total (total - used) = used := by
    unfold sub32
    omega
  -- all three operations are taken modulo 2 ^ 32
  have hsum : u32 (u32 (used * 100) + total / 2) = (100 * used + total / 2) % 2 ^ 32 := by
    unfold u32
    omega
  have hvalue : allocatedPercent total (total - used) =
      (100 * used + total / 2) % 2 ^ 32 / total := by
    unfold allocatedPercent
    rw [hsub, hsum]
  have hbound : (100 * used + total / 2) / total ≤ 100 := by
    have hlt' : 100 * used + total / 2 < 101 * total := by omega
    exact Nat.le_of_lt_succ ((Nat.div_lt_iff_lt_mul htotal).2 hlt')
  have hmono : (100 * used + total / 2) % 2 ^ 32 / total ≤ (100 * used + total / 2) / total :=
    Nat.div_le_div_right (Nat.mod_le _ _)
  rw [hvalue, Nat.mod_eq_of_lt (hmono.trans_lt (by omega))]
  unfold NearestPercent
  generalize hp : (100 * used + total / 2) % 2 ^ 32 / total = p at hmono ⊢
  have hle : p * total ≤ (100 * used + total / 2) % 2 ^ 32 := hp ▸ Nat.div_mul_le_self ..
  -- If the sum wraps, the quotient is too small by far; otherwise it is rounded to the nearest.
  constructor
  · rintro ⟨⟨hnear, -⟩, -⟩
    by_contra hwrap
    omega
  · intro hfit
    rw [Nat.mod_eq_of_lt hfit] at hp hle
    have hlt' : 100 * used + total / 2 < (p + 1) * total := by
      rw [← Nat.div_lt_iff_lt_mul htotal, hp]
      exact Nat.lt_succ_self p
    rw [Nat.add_mul, Nat.one_mul] at hlt'
    exact ⟨⟨by omega, by omega⟩, hmono.trans hbound⟩

section Device

variable [Device δ]

/-- The superblock that is written at the end. -/
theorem finalizeSuperBlock_sb {ef ef' : Ef δ} (hro : ef.ro = false)
    (h : finalizeSuperBlock ef = .ok ⟨⟩ ef') : ef'.sb = finalSuperBlock ef := by
  have hcommit : Keeps Ef.Skimmed (commitSuperBlock (δ := δ)) := by
    have hpwrite : ∀ data offset, Keeps Ef.Skimmed (exfatPwrite (δ := δ) data offset) :=
      fun _ _ _ => rfl
    refine keeps_look fun ef => keeps_bind (hpwrite _ _) fun r => ?_
    cases r with
    | none => exact skims_report _ _
    | some _ => exact fun _ => rfl
  unfold finalizeSuperBlock at h
  rw [run_bind_ok (run_get ef), if_neg (by rw [hro]; exact Bool.false_ne_true),
    run_bind_ok (run_set _ _)] at h
  obtain ⟨b, ef₁, hrun, h⟩ := run_bind_eq_ok.1 h
  cases h
  have hskim := hcommit.ok hrun
  unfold Ef.Skimmed at hskim
  rw [hskim]

omit [Device δ] in
/-- The percentage that is stored at the end. -/
theorem finalSuperBlock_percent {ef : Ef δ} (hlength : 512 ≤ ef.sb.bytes.length)
    (hpercent : ef.sb.allocatedPercent ≠ 0xff) : (finalSuperBlock ef).allocatedPercent =
      allocatedPercent ef.sb.clusterCount (exfatCountFreeClusters ef.cmap) % 256 := by
  have hstate : ∀ {off n}, off + n ≤ 0x6a ∨ 0x6c ≤ off →
      leAt (ef.sb.setField 0x6a 2 (ef.sb.volumeState &&& 0xfffd)).bytes off n =
      leAt ef.sb.bytes off n :=
    fun h => SuperBlock.leAt_setField_of_disjoint _ _ (by omega) h.symm
  have hsame : (ef.sb.setField 0x6a 2 (ef.sb.volumeState &&& 0xfffd)).allocatedPercent =
      ef.sb.allocatedPercent := hstate (.inr (by decide))
  have hcount : (ef.sb.setField 0x6a 2 (ef.sb.volumeState &&& 0xfffd)).clusterCount =
      ef.sb.clusterCount := hstate (.inl (by decide))
  unfold finalSuperBlock
  dsimp only
  rw [if_pos (by rw [hsame]; exact hpercent), hcount]
  exact SuperBlock.leAt_setField_self _ _ (by rw [SuperBlock.length_setField _ _ (by omega)]; omega)

/-- The percentage that is stored for a volume and a bitmap. -/
theorem finalizeSuperBlock_percent {ef ef' : Ef δ} (hwell : ef.MountedWell) (hro : ef.ro = false)
    (hpercent : ef.sb.allocatedPercent ≠ 0xff) (h : finalizeSuperBlock ef = .ok ⟨⟩ ef') :
    (NearestPercent ef'.sb.allocatedPercent (usedBits ef.cmap.chunk ef.sb.clusterCount)
      ef.sb.clusterCount ∧
      ef'.sb.allocatedPercent ≤ 100) ↔
    100 * usedBits ef.cmap.chunk ef.sb.clusterCount + ef.sb.clusterCount / 2 < 2 ^ 32 := by
  have hlt : ef.sb.clusterCount < 2 ^ 32 := leAt_lt ef.sb.bytes 0x5c 4
  rw [finalizeSuperBlock_sb hro h, finalSuperBlock_percent hwell.length hpercent,
    exfatCountFreeClusters_eq (hwell.size ▸ hlt), hwell.size]
  exact allocatedPercent_nearest_iff (usedBits_le _ _) hwell.count hlt

/-- The volume at the end of a session: its state and its bitmap have changed. -/
def Ef.atEnd (ef : Ef δ) (state : Nat) (chunk : Nat → Bool) : Ef δ :=
  { ef with sb := ef.sb.setField 0x6a 2 state, cmap := { ef.cmap with chunk := chunk } }

omit [Device δ] in
/-- A volume stays well mounted to the end. -/
theorem Ef.MountedWell.atEnd {ef : Ef δ} (h : ef.MountedWell) (state : Nat) (chunk : Nat → Bool) :
    (ef.atEnd state chunk).MountedWell ∧
    (ef.atEnd state chunk).sb.clusterCount = ef.sb.clusterCount ∧
      (ef.atEnd state chunk).sb.allocatedPercent = ef.sb.allocatedPercent := by
  have hlength := h.length
  have hcount : (ef.atEnd state chunk).sb.clusterCount = ef.sb.clusterCount :=
    SuperBlock.leAt_setField_of_disjoint _ _ (by omega) (.inr (by decide))
  have hpercent : (ef.atEnd state chunk).sb.allocatedPercent = ef.sb.allocatedPercent :=
    SuperBlock.leAt_setField_of_disjoint _ _ (by omega) (.inl (by decide))
  refine ⟨⟨?_, hcount ▸ h.count, h.size.trans hcount.symm⟩, hcount, hpercent⟩
  exact (SuperBlock.length_setField _ _ (by omega)).ge.trans' hlength

/-- Whatever volume has been mounted and whatever its bitmap is at the end, the percentage is right
if 32 bits hold what is computed, and only then. -/
theorem exfatUnmount_percent_iff {t t' : Volume δ} (hfresh : t.ef.cmap.present = false)
    (hmount : exfatMount t = .ok (.ok ()) t') (hro : t'.ef.ro = false)
    (hpercent : t'.ef.sb.allocatedPercent ≠ 0xff) (state : Nat) (chunk : Nat → Bool) {ef' : Ef δ}
    (h : finalizeSuperBlock (t'.ef.atEnd state chunk) = .ok ⟨⟩ ef') :
    (NearestPercent ef'.sb.allocatedPercent (usedBits chunk t'.ef.sb.clusterCount)
      t'.ef.sb.clusterCount ∧
      ef'.sb.allocatedPercent ≤ 100) ↔
    100 * usedBits chunk t'.ef.sb.clusterCount + t'.ef.sb.clusterCount / 2 < 2 ^ 32 := by
  obtain ⟨hwell, -⟩ := wp_anyStop_iff.1 (exfatMount_well hfresh) _ _ hmount rfl
  obtain ⟨hwell', hcount, hsame⟩ := hwell.atEnd state chunk
  have hiff := finalizeSuperBlock_percent hwell' hro (hsame ▸ hpercent) h
  rw [hcount] at hiff
  exact hiff

end Device

/-! ### Two volumes -/

/-- The card with another number of clusters, none of which is counted as allocated, and a bitmap
for them. -/
def percentStore (count : Nat) : Store := fun a =>
  if a = 0x70 then 0
  else if 0x5c ≤ a ∧ a < 0x60 then (natLe 4 count).getD (a - 0x5c) 0
  else if 7704 ≤ a ∧ a < 7712 then (natLe 8 (count / 8 + 1)).getD (a - 7704) 0
  else cardStore a

/-- A volume that is about to be mounted from it. -/
def percentStart (count : Nat) : Volume Flat where
  ef := { dev := ⟨withChecksum (percentStore count), 2 ^ 40⟩, sb := ⟨[]⟩ }
  heap _ := none
  root := 0
  fresh := 0

/-- The volume when the boot region has been read. -/
def percentBooted (count : Nat) : Volume Flat :=
  let t := percentStart count
  { t with ef := { t.ef with sb := bootSector (withChecksum (percentStore count)), ticks := 3 } }

/-- All four clusters of a volume are in use. -/
theorem exfatUnmount_percent_four : ∃ t' ef', exfatMount (percentStart 4) = .ok (.ok ()) t' ∧
    finalizeSuperBlock (t'.ef.atEnd 0 fun _ => true) = .ok ⟨⟩ ef' ∧
    NearestPercent ef'.sb.allocatedPercent (usedBits (fun _ => true) 4) 4 ∧
      ef'.sb.allocatedPercent ≤ 100 := by
  have htest : returns (fun rc t => rc = .ok () ∧ t.ef.ro = false ∧
      t.ef.sb.allocatedPercent ≠ 0xff ∧
      t.ef.sb.clusterCount = 4) (mountRoot (percentBooted 4)) = true := by
    decide +kernel
  obtain ⟨rc, t, hroot, htest⟩ := of_returns htest
  obtain ⟨rfl, hro, hpercent, hcount⟩ := of_decide_eq_true htest
  have hmount : exfatMount (percentStart 4) = .ok (.ok ()) t :=
    (run_exfatMount (fun _ => rfl) (bootable_withChecksum (by decide +kernel) (by decide +kernel)
      (by decide +kernel))).trans hroot
  obtain ⟨ef', hfinal, -⟩ := finalizeSuperBlock_ok (t.ef.atEnd 0 fun _ => true)
  have hiff := exfatUnmount_percent_iff rfl hmount hro hpercent 0 (fun _ => true) hfinal
  rw [hcount] at hiff
  exact ⟨t, ef', hmount, hfinal, hiff.2 (by decide +kernel)⟩

/-- With 2 ^ 26 clusters in use 36 percent are stored. -/
theorem exfatUnmount_not_percent : ∃ t' ef', exfatMount (percentStart (2 ^ 26)) = .ok (.ok ()) t' ∧
    t'.ef.ro = false ∧ t'.ef.sb.allocatedPercent ≠ 0xff ∧
    finalizeSuperBlock (t'.ef.atEnd 0 fun _ => true) = .ok ⟨⟩ ef' ∧ ef'.sb.allocatedPercent = 36 ∧
    usedBits (fun _ => true) t'.ef.sb.clusterCount = t'.ef.sb.clusterCount ∧
    ¬ NearestPercent ef'.sb.allocatedPercent (usedBits (fun _ => true) t'.ef.sb.clusterCount)
      t'.ef.sb.clusterCount := by
  have htest : returns (fun rc t => rc = .ok () ∧ t.ef.ro = false ∧
      t.ef.sb.allocatedPercent ≠ 0xff ∧
      t.ef.sb.clusterCount = 2 ^ 26) (mountRoot (percentBooted (2 ^ 26))) = true := by
    decide +kernel
  obtain ⟨rc, t, hroot, htest⟩ := of_returns htest
  obtain ⟨rfl, hro, hpercent, hcount⟩ := of_decide_eq_true htest
  have hmount : exfatMount (percentStart (2 ^ 26)) = .ok (.ok ()) t :=
    (run_exfatMount (fun _ => rfl) (bootable_withChecksum (by decide +kernel) (by decide +kernel)
      (by decide +kernel))).trans hroot
  -- on this volume all bits are set, and all of it is in use
  obtain ⟨ef', hfinal, -⟩ := finalizeSuperBlock_ok (t.ef.atEnd 0 fun _ => true)
  obtain ⟨hwell, -⟩ := wp_anyStop_iff.1 (exfatMount_well rfl) _ _ hmount rfl
  obtain ⟨hwell', hcount', hsame⟩ := hwell.atEnd 0 fun _ => true
  have hused : ∀ n, usedBits (fun _ => true) n = n := fun n => Nat.count_of_forall fun _ _ => rfl
  have hlt : (t.ef.atEnd 0 fun _ => true).cmap.size < 2 ^ 32 := by
    rw [hwell'.size, hcount', hcount]
    decide
  have hro' : (t.ef.atEnd 0 fun _ => true).ro = false := hro
  -- 100 times 2 ^ 26 does not fit into 32 bits
  have hvalue : ef'.sb.allocatedPercent = 36 := by
    rw [finalizeSuperBlock_sb hro' hfinal, finalSuperBlock_percent hwell'.length (hsame ▸ hpercent),
      exfatCountFreeClusters_eq hlt]
    rw [show (t.ef.atEnd 0 fun _ => true).cmap.chunk = fun _ => true from rfl,
      hused, hcount', hcount,
      Nat.sub_self]
    decide
  refine ⟨t, ef', hmount, hro, hpercent, hfinal, hvalue, hused _, ?_⟩
  rw [hvalue, hused, hcount]
  unfold NearestPercent
  decide

end ExFat
