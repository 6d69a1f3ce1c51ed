import ExFat.Amiga.SetDate
import ExFat.Fs.Upkeep
import ExFat.Fs.MountVolume
import ExFat.Session.Quiet
import ExFat.Store.FileStore
import Mathlib.Data.List.Chain

namespace ExFat

open Bytes Chain Program

/-!
# The fragments of a file

`dumpexfat -f` prints where the parts of a file lie on the device.

* `dumpFileFragments` is the tool, `fragmentLoop` its loop over the clusters of the file.
* `fragmentLoop_run`: the loop follows a chain of valid clusters to its end, and what it prints is
  `Printed`.
* `dumpFileFragments_cover`: the parts, one after the other, are the file; each is as long as it can
  be.
-/

/-- A line of `dump_file_fragments`: where a part of the file begins, and how many bytes it has. -/
structure Fragment where
  offset : Nat
  size : Nat
  deriving DecidableEq, Repr

/-! ### The tool -/

section Tool

variable {δ : Type} [Device δ]

/-- The loop of `dump_file_fragments`: the lines that are printed and the value that is returned.
`n` clusters are left, the fragment that begins in the cluster `first` has `size` bytes so far, and
`remainder` bytes follow. -/
def fragmentLoop : (n cluster first size remainder : Nat) → FileM δ (List Fragment × Nat)
  | 0, _, _, _, _ => pure ([], 0)
  | n + 1, cluster, first, size, remainder => do
    let s ← get
    if s.ef.sb.clusterInvalid cluster then do
      onEf (exfatError "invalid cluster")
      pure ([], 1)
    else do
      let lsize := min s.ef.sb.clusterSize remainder
      let next ← exfatNextCluster cluster
      if next ≠ u32 (cluster + 1) ∨ remainder - lsize = 0 then do
        -- the next cluster is not contiguous, or this is the end of the file
        let offset ← onEf (exfatC2o first)
        let r ← fragmentLoop n next next 0 (remainder - lsize)
        pure (⟨offset, size + lsize⟩ :: r.1, r.2)
      else fragmentLoop n next first (size + lsize) (remainder - lsize)

/-- The fragments of a node. -/
def nodeFragments : FileM δ (List Fragment × Nat) := do
  let s ← get
  let n := s.node
  fragmentLoop (divRoundUp n.size s.ef.sb.clusterSize) n.startCluster n.startCluster 0 n.size

/-- `dump_file_fragments`, once the volume is mounted. -/
def printFragments (path : List UInt8) : TreeM δ (List Fragment × Nat) := do
  match ← exfatLookup path with
  | .error _ => do
    exfatUnmount
    onVolume (exfatError "lookup failed")
    pure ([], 1)
  | .ok node => do
    let r ← onNode node nodeFragments
    exfatPutNode node
    exfatUnmount
    pure r

/-- `dump_file_fragments`, once the device is open: the lines that are printed and the value that is
returned. -/
def dumpFileFragments (path : List UInt8) : TreeM δ (List Fragment × Nat) := do
  match ← exfatMount with
  | .error _ => pure ([], 1)
  | .ok _ => printFragments path

end Tool

/-! ### What it prints -/

section Covers

variable {ef : Ef Flat} {n : Node} {sb : SuperBlock} {b : Store} {c r : Nat} {L : List Nat}

/-- The bytes of the device that a list of fragments names. -/
def fragmentBytes (b : Store) (fs : List Fragment) : List UInt8 :=
  fs.flatMap fun f => readBytes b f.offset f.size

/-- The next fragment does not begin where the last one ends. -/
def Fragment.Apart (f g : Fragment) : Prop := f.offset + f.size ≠ g.offset

/-- What is in the first cluster, and what follows it. -/
theorem readBytes_content_cons (sb : SuperBlock) (b : Store) (c r : Nat) (L : List Nat) :
    readBytes (content sb b (c :: L)) 0 r =
      readBytes b (clusterOffset sb c) (min sb.clusterSize r) ++
        readBytes (content sb b L) 0 (r - min sb.clusterSize r) := by
  have hcs := sb.clusterSize_pos
  have hfirst : readBytes b (clusterOffset sb c) (min sb.clusterSize r) =
      readBytes (content sb b (c :: L)) 0 (min sb.clusterSize r) := by
    have h := @readBytes_cluster sb b (c :: L) 0 0 (min sb.clusterSize r) (by simp) (by omega)
    simpa using h
  have hrest : readBytes (content sb b L) 0 (r - min sb.clusterSize r) =
      readBytes (content sb b (c :: L)) (min sb.clusterSize r) (r - min sb.clusterSize r) := by
    refine readBytes_congr fun i hi => ?_
    have hmin : min sb.clusterSize r = sb.clusterSize := by omega
    unfold content
    rw [hmin, Nat.zero_add, Nat.add_div_left _ hcs, Nat.add_mod_left, List.getElem?_cons_succ]
  rw [hfirst, hrest]
  conv_lhs => rw [show r = min sb.clusterSize r + (r - min sb.clusterSize r) by
    omega, readBytes_add, Nat.zero_add]

/-- Clusters that follow each other lie one behind the other. -/
theorem clusterOffset_add (sb : SuperBlock) (hc : 2 ≤ c) (j : Nat) :
    clusterOffset sb (c + j) = clusterOffset sb c + j * sb.clusterSize := by
  rw [clusterOffset_eq sb (c + j), clusterOffset_eq sb c, show c + j - 2 = c - 2 + j by
    omega, Nat.add_mul]
  omega

/-- Different clusters have different offsets. -/
theorem clusterOffset_inj {c' : Nat} (hc : 2 ≤ c) (hc' : 2 ≤ c')
    (h : clusterOffset sb c = clusterOffset sb c') : c = c' := by
  have hcs := sb.clusterSize_pos
  rcases Nat.lt_trichotomy c c' with hlt | heq | hgt
  · have := clusterOffset_apart sb hc hlt
    omega
  · exact heq
  · have := clusterOffset_apart sb hc' hgt
    omega

/-- What the loop makes of a chain, from the cluster `c` on. -/
structure Printed (b : Store) (sb : SuperBlock) (first j r : Nat) (L : List Nat)
    (fs : List Fragment) : Prop where
  bytes : fragmentBytes b fs =
    readBytes b (clusterOffset sb first) (j * sb.clusterSize) ++ readBytes (content sb b L) 0 r
  apart : fs.IsChain Fragment.Apart
  begins : ∀ f ∈ fs.head?, f.offset = clusterOffset sb first
  filled : ∀ f ∈ fs, 0 < f.size

/-- One more cluster has been passed: it belongs to the fragment that has begun. -/
theorem Printed.extend {first j d : Nat} {fs : List Fragment} (hfirst : 2 ≤ first)
    (hlast : sb.clusterSize < r) (h : Printed b sb first (j + 1) (r - sb.clusterSize) (d :: L) fs) :
    Printed b sb first j r ((first + j) :: d :: L) fs := by
  refine ⟨?_, h.apart, h.begins, h.filled⟩
  rw [h.bytes, readBytes_content_cons sb b (first + j), Nat.min_eq_left hlast.le,
    clusterOffset_add sb hfirst,
    ← List.append_assoc, ← readBytes_add]
  congr 2
  rw [Nat.add_mul, Nat.one_mul]

/-- The fragment ends, and the next one begins elsewhere. -/
theorem Printed.close {first j d : Nat} {fs : List Fragment} (hfirst : 2 ≤ first)
    (hlast : sb.clusterSize < r) (hd : 2 ≤ d) (hne : d ≠ first + j + 1)
    (h : Printed b sb d 0 (r - sb.clusterSize) (d :: L) fs) :
    Printed b sb first j r ((first + j) :: d :: L)
      (⟨clusterOffset sb first, j * sb.clusterSize + sb.clusterSize⟩ :: fs) := by
  have hcs := sb.clusterSize_pos
  have hend : clusterOffset sb first + (j * sb.clusterSize + sb.clusterSize) = clusterOffset sb
      (first + j + 1) := by
    rw [clusterOffset_add sb (by omega) 1, clusterOffset_add sb hfirst]
    omega
  refine ⟨?_, List.isChain_cons.2 ⟨fun g hg => ?_, h.apart⟩, ?_, ?_⟩
  · have hbytes := h.bytes
    rw [Nat.zero_mul, readBytes_zero, List.nil_append] at hbytes
    unfold fragmentBytes at hbytes ⊢
    rw [List.flatMap_cons, hbytes, readBytes_content_cons sb b (first + j),
      Nat.min_eq_left hlast.le,
      clusterOffset_add sb hfirst, ← List.append_assoc, ← readBytes_add]
  · intro happart
    rw [hend, h.begins g hg] at happart
    exact hne (clusterOffset_inj hd (by omega) happart.symm)
  · rintro f ⟨⟩
    rfl
  · exact List.forall_mem_cons.2 ⟨Nat.add_pos_right _ hcs, h.filled⟩

/-- The file ends. -/
theorem Printed.last {first j : Nat} (hfirst : 2 ≤ first) (hpos : 0 < r)
    (hlast : r ≤ sb.clusterSize) :
    Printed b sb first j r [first + j] [⟨clusterOffset sb first, j * sb.clusterSize + r⟩] := by
  refine ⟨?_, List.isChain_singleton _, ?_, ?_⟩
  · unfold fragmentBytes
    rw [readBytes_content_cons sb b (first + j), Nat.min_eq_right hlast,
      Nat.sub_self, readBytes_zero,
      clusterOffset_add sb hfirst, List.append_nil, ← readBytes_add, List.flatMap_singleton]
  · rintro f ⟨⟩
    rfl
  · rintro f hf
    rw [List.mem_singleton.1 hf]
    exact Nat.add_pos_right _ hpos

/-- The loop over a chain prints it, from the cluster `c` on; the fragment it is in began `j`
clusters before. -/
theorem fragmentLoop_run (hr : Ready ef) {first j : Nat} (hfirst : 2 ≤ first) (hc : first + j = c)
    (hfollows : Follows (nextOf ef.sb ef.dev.bytes n.isContiguous) c (c :: L))
    (hvalid : ∀ x ∈ c :: L, Valid ef.sb x) (hlow : L.length * ef.sb.clusterSize < r)
    (hhigh : r ≤ (L.length + 1) * ef.sb.clusterSize) :
    ∃ fs, fragmentLoop (L.length + 1) c first (j * ef.sb.clusterSize) r ⟨ef, n⟩ =
      .ok (fs, 0) ⟨ef, n⟩ ∧
      Printed ef.dev.bytes ef.sb first j r (c :: L) fs ∧
        (n.isContiguous = true → fs.length = 1) := by
  -- on the clusters behind `c`
  induction L generalizing c first j r with
  | nil =>
    subst hc
    have hvc : ef.sb.clusterInvalid (first + j) = false := hvalid _ List.mem_cons_self
    have hpos : 0 < r := by omega
    have hlast : r ≤ ef.sb.clusterSize := by simpa using hhigh
    -- the last cluster ends the last fragment
    refine ⟨_, ?_, Printed.last hfirst hpos hlast, fun _ => rfl⟩
    unfold fragmentLoop
    rw [run_bind_ok (run_get _), hvc, if_neg (by decide)]
    dsimp only
    rw [run_bind_ok (exfatNextCluster_run (by omega)), Nat.min_eq_right hlast,
      Nat.sub_self, if_pos (.inr rfl),
      run_bind_ok (run_onEf_ok (s := ⟨ef, n⟩) (run_exfatC2o hfirst))]
    rfl
  | cons d L ih =>
    subst hc
    have hvc : ef.sb.clusterInvalid (first + j) = false := hvalid _ List.mem_cons_self
    have hword := Valid.lt_word (hvalid _ List.mem_cons_self) hr.layout
    have hvd := List.forall_mem_cons.1 hvalid
    obtain ⟨-, hnext⟩ := hfollows
    obtain ⟨hd, -⟩ := id hnext
    rw [List.length_cons, Nat.add_mul, Nat.one_mul] at hlow
    rw [List.length_cons, Nat.add_mul _ 1, Nat.one_mul] at hhigh
    have hlast : ef.sb.clusterSize < r := by
      have := Nat.zero_le (L.length * ef.sb.clusterSize)
      omega
    have hstep : fragmentLoop ((d :: L).length + 1) (first + j) first (j * ef.sb.clusterSize)
        r ⟨ef, n⟩ =
        (if d ≠ u32 (first + j + 1) ∨ r - ef.sb.clusterSize = 0 then do
          let offset ← onEf (exfatC2o first)
          let x ← fragmentLoop (L.length + 1) d d 0 (r - ef.sb.clusterSize)
          pure (⟨offset, j * ef.sb.clusterSize + ef.sb.clusterSize⟩ :: x.1, x.2)
        else fragmentLoop (L.length + 1) d first (j * ef.sb.clusterSize + ef.sb.clusterSize)
          (r - ef.sb.clusterSize)) ⟨ef, n⟩ := by
      rw [List.length_cons]
      conv_lhs => unfold fragmentLoop
      rw [run_bind_ok (run_get _), hvc, if_neg (by decide)]
      dsimp only
      rw [run_bind_ok (exfatNextCluster_run (by omega)), Nat.min_eq_left hlast.le, ← hd]
    -- does the next cluster lie behind this one?
    rw [hstep]
    by_cases hrun : d = u32 (first + j + 1)
    · -- the cluster lies behind the last one
      have hsucc : first + (j + 1) = d := by
        rw [hrun]
        exact (Nat.mod_eq_of_lt (by omega)).symm
      obtain ⟨fs, hfs, hprinted, hone⟩ :=
        ih (r := r - ef.sb.clusterSize) hfirst hsucc (hd ▸ hnext) hvd.2
        (by omega) (by omega)
      rw [if_neg (by omega), ← Nat.succ_mul]
      exact ⟨fs, hfs, hprinted.extend hfirst hlast, hone⟩
    · -- the cluster lies elsewhere: a fragment ends
      obtain ⟨fs, hfs, hprinted, hone⟩ := ih (r := r - ef.sb.clusterSize) (j := 0)
        (hvd.2 d List.mem_cons_self).two_le (Nat.add_zero d) (hd ▸ hnext) hvd.2
        (by omega) (by omega)
      rw [Nat.zero_mul] at hfs
      rw [if_pos (.inl hrun), run_bind_ok (run_onEf_ok (s := ⟨ef, n⟩) (run_exfatC2o hfirst)),
        run_bind_ok hfs]
      refine ⟨_, rfl, hprinted.close hfirst hlast (hvd.2 d List.mem_cons_self).two_le fun hne =>
        hrun ?_,
        fun hcont => absurd ?_ hrun⟩
      · rw [hne]
        exact (Nat.mod_eq_of_lt (by omega)).symm
      · rw [hd, hcont]
        rfl

/-- The parts that `dump_file_fragments` prints for a file are its bytes, one part after the other;
no part is empty, and none begins where the one before ends, so that there are no fewer. -/
theorem nodeFragments_cover (hr : Ready ef) (hf : File ef n L) :
    ∃ fs, nodeFragments ⟨ef, n⟩ = .ok (fs, 0) ⟨ef, n⟩ ∧
      fragmentBytes ef.dev.bytes fs = readBytes (content ef.sb ef.dev.bytes L) 0 n.size ∧
      fs.IsChain Fragment.Apart ∧ (∀ f ∈ fs, 0 < f.size) ∧
        (n.isContiguous = true → fs.length ≤ 1) := by
  have hcs := ef.sb.clusterSize_pos
  have hlen := hf.length
  unfold nodeFragments
  rw [run_bind_ok (run_get _)]
  dsimp only
  rw [← hlen]
  -- an empty file has no fragments
  cases L with
  | nil =>
    have hzero : n.size = 0 := by
      have := le_divRoundUp_mul n.size hcs
      rw [← hlen] at this
      simpa using this
    rw [hzero]
    exact ⟨[], rfl, rfl, List.isChain_nil, fun f hf => absurd hf List.not_mem_nil,
      fun _ => Nat.zero_le _⟩
  | cons c L =>
    have hfollows := hf.chained.follows
    obtain ⟨hc, -⟩ := id hfollows
    have hlow : L.length * ef.sb.clusterSize < n.size := by
      rw [← lt_divRoundUp_iff hcs, ← hlen]
      exact Nat.lt_succ_self _
    have hhigh : n.size ≤ (L.length + 1) * ef.sb.clusterSize := by
      rw [← divRoundUp_le_iff hcs, ← hlen]
      rfl
    rw [← hc] at hfollows
    obtain ⟨fs, hrun, hprinted, hone⟩ :=
      fragmentLoop_run (j := 0) hr (hf.chained.valid c List.mem_cons_self).two_le
      (Nat.add_zero c) hfollows hf.chained.valid hlow hhigh
    rw [Nat.zero_mul] at hrun
    rw [← hc]
    refine ⟨fs, hrun, ?_, hprinted.apart, hprinted.filled, fun h => (hone h).le⟩
    rw [hprinted.bytes, Nat.zero_mul, readBytes_zero, List.nil_append]

end Covers

/-! ### The whole tool -/

section Returns

variable {path : List UInt8} {v t t' : Volume Flat} {i : NodeId} {n : Node} {L : List Nat}

/-- If nothing was said while the volume was mounted and the path looked up, the reference to the
node can be dropped and the volume unmounted. -/
theorem unmount_after_lookup (hv : v.Vacant) (hmount : exfatMount v = .ok (.ok ()) t)
    (hlookup : exfatLookup path t = .ok (.ok i) t') (hi : t'.heap i = some n)
    (hquiet : t'.ef.errors = v.ef.errors) (hbitmap : t'.ef.cmap.dirty = false) :
    ∃ t₁ t₂, exfatPutNode i t' = .ok ⟨⟩ t₁ ∧ exfatUnmount t₁ = .ok ⟨⟩ t₂ := by
  -- nothing is to be written back
  have hsober : v.Sober t' :=
    trans_of Volume.Sober (sober_exfatMount.ok hmount) ((sober_looks.exfatLookup path).ok hlookup)
  have hclean : t'.Clean := hsober.clean hquiet fun x m hx => by cases (hv x).symm.trans hx
  have hnamed : t'.Named := by
    intro x m hx hdirty
    cases ((hclean x m hx).clean trivial).symm.trans hdirty
  -- the mount and the lookup have taken one reference each
  obtain ⟨hbounded, hrefs⟩ := wp_anyStop_iff.1 (exfatMount_refs hv) _ _ hmount
  have hcounted : t.Counted (one i) t' :=
    wp_anyStop_iff.1 (refs_exfatLookup path t hbounded) _ _ hlookup
  have hnonneg := one_nonneg t.root i
  have hself : one i i = 1 := if_pos rfl
  have hpos : 1 ≤ t'.refs i := by
    rw [hcounted.refs, hrefs, hself]
    omega
  obtain ⟨⟨⟩, t₁, hput, hbare, hrefs₁⟩ := wp_never_iff.1 (wp_put_bare hi hpos hnamed)
  have hroot₁ : t₁.root = t.root := hbare.root.trans hcounted.root
  have hone : ∀ x, t₁.refs x = one t₁.root x := by
    intro x
    rw [hrefs₁, hcounted.refs, hrefs, hroot₁]
    omega
  have hfirst : (TreeOp.lookup path).run t = .ok (some i) t' := by
    rw [TreeOp.run, run_bind_ok hlookup]
    rfl
  have hsecond : (TreeOp.put i).run t' = .ok none t₁ := by
    rw [TreeOp.run, run_bind_ok hput]
    rfl
  have hreached : v.Reached False ({t.root} ∪ {j | some i = some j}) t' :=
    .call (.mount hmount False.elim) False.elim (fun _ htarget => by cases htarget) hfirst
  have hreached₁ := Volume.Reached.call hreached False.elim (fun x htarget => by
    cases htarget
    exact .inr rfl) hsecond
  obtain ⟨f, hmounted⟩ := hreached₁.mounted hv (by rw [hone, one, if_pos rfl])
  have hef : t₁.ef = t'.ef := (sameEf_exfatPutNode i).ok hput
  have hclean₁ : ∀ x m, t₁.heap x = some m → m.isDirty = false := by
    intro x m hx
    obtain ⟨m', hx', hsame⟩ := hbare.node hx
    have hdirty : m.bare.isDirty = m'.bare.isDirty := by rw [hsame]
    exact hdirty.trans ((hclean x m' hx').clean trivial)
  have hidle : ∀ x m, t₁.heap x = some m → x ≠ t₁.root → m.references = 0 := by
    intro x m hx hne
    rw [← Volume.refs_of_heap hx, hone, one, if_neg hne]
  obtain ⟨t₂, hunmount⟩ := exfatUnmount_of_clean hmounted hclean₁ (by rw [hef]; exact hbitmap) hidle
  exact ⟨t₁, t₂, hput, hunmount⟩

end Returns

/-- What `dumpexfat -f` prints for a path that leads to a file; and it does return, if nothing was
said before it begins to print. -/
theorem dumpFileFragments_cover {path : List UInt8} {v t t' : Volume Flat} {i : NodeId} {n : Node}
    {L : List Nat} (hmount : exfatMount v = .ok (.ok ()) t)
    (hlookup : exfatLookup path t = .ok (.ok i) t') (hi : t'.heap i = some n) (hr : Ready t'.ef)
    (hf : File t'.ef n L) :
    (∀ fs rc v', dumpFileFragments path v = .ok (fs, rc) v' →
      rc = 0 ∧ fragmentBytes t'.ef.dev.bytes fs = readBytes
      (content t'.ef.sb t'.ef.dev.bytes L) 0 n.size ∧
        fs.IsChain Fragment.Apart ∧ (∀ f ∈ fs, 0 < f.size) ∧
        (n.isContiguous = true → fs.length ≤ 1)) ∧
    (v.Vacant → t'.ef.errors = v.ef.errors → t'.ef.cmap.dirty = false →
      ∃ fs v', dumpFileFragments path v = .ok (fs, 0) v') := by
  obtain ⟨fs', hnode, hcover⟩ := nodeFragments_cover hr hf
  have hnode' := run_onNode hi hnode
  -- the node is left as it was
  rw [store_self hi] at hnode'
  have hsteps : dumpFileFragments path v = (do
      exfatPutNode i
      exfatUnmount
      pure (fs', 0)) t' := by
    unfold dumpFileFragments
    rw [run_bind_ok hmount]
    dsimp only
    unfold printFragments
    rw [run_bind_ok hlookup]
    dsimp only
    rw [run_bind_ok hnode']
  -- what is printed is what `nodeFragments` says, whatever comes behind it
  refine ⟨fun fs rc v' hrun => ?_, fun hv hquiet hbitmap => ?_⟩
  · rw [hsteps] at hrun
    obtain ⟨_, t₁, -, hrun⟩ := run_bind_eq_ok.1 hrun
    obtain ⟨_, t₂, -, hrun⟩ := run_bind_eq_ok.1 hrun
    cases hrun
    exact ⟨rfl, hcover⟩
  -- and nothing behind it stops the program
  · obtain ⟨t₁, t₂, hput, hunmount⟩ := unmount_after_lookup hv hmount hlookup hi hquiet hbitmap
    rw [hsteps, run_bind_ok hput, run_bind_ok hunmount]
    exact ⟨fs', t₂, rfl⟩

/-- The boot sector of a volume of six clusters. -/
def fragmentedBoot : SuperBlock := cardBoot.setFields [(0x5c, 4, 6)]

/-- The entries of a file `"x"` of 1200 bytes, whose first cluster is 6. -/
def fragmentedSet : List Entry :=
  let zero : Entry := List.replicate entrySize 0
  sealEntries [Entry.setFields zero [(0, 1, entryFile), (1, 1, 2), (4, 2, attribArch),
    (14, 2, 0x21), (18, 2, 0x21)],
    Entry.setFields zero [(0, 1, entryFileInfo), (1, 1, 1), (3, 1, 1), (8, 8, 1200),
      (20, 4, 6), (24, 8, 1200)],
    Entry.setFields zero [(0, 1, entryFileName), (2, 2, 0x78)]]

/-- The card with the file, which has the clusters 6, 7 and 5. -/
def fragmentedStore : Store := fun a =>
  if a < 512 then fragmentedBoot.bytes.getD a 0
  else if 6164 ≤ a ∧ a < 6168 then 0xff
  else if a = 6168 then 7
  else if a = 6172 then 5
  else if a = 6656 then 63
  else if 7744 ≤ a ∧ a < 7840 then fragmentedSet.flatten.getD (a - 7744) 0
  else cardStore a

/-- The volume can be booted from when its checksum is stored. -/
theorem bootable_fragmentedStore : Bootable (withChecksum fragmentedStore) (2 ^ 20) :=
  bootable_withChecksum (by decide +kernel) (by decide +kernel) (by decide +kernel)

/-- The card, opened read-only. -/
def fragmentedStart : Volume Flat where
  ef := { dev := ⟨withChecksum fragmentedStore, 2 ^ 20⟩, sb := ⟨[]⟩, ro := true }
  heap _ := none
  root := 0
  fresh := 0

/-- The volume when the boot region has been read. -/
def fragmentedBooted : Volume Flat :=
  { fragmentedStart with ef := { fragmentedStart.ef with
      sb := bootSector (withChecksum fragmentedStore), ticks := 3 } }

/-- The file is printed in two fragments, the first of two clusters. -/
theorem dumpFileFragments_cover_fragmented : ∃ t v' : Volume Flat,
    dumpFileFragments [0x78] fragmentedStart = .ok ([⟨8704, 1024⟩, ⟨8192, 176⟩], 0) v' ∧
    fragmentBytes t.ef.dev.bytes [⟨8704, 1024⟩, ⟨8192, 176⟩] =
      readBytes (content t.ef.sb t.ef.dev.bytes [6, 7, 5]) 0 1200 := by
  have htest : returns (fun rc t => decide (rc = .ok ()) &&
      returns (fun r t' => decide (r = .ok 1) && decide (t'.ef.errors = 0 ∧
        t'.ef.cmap.dirty = false) &&
        (t'.heap 1).any fun n => decide (Ready t'.ef ∧ File t'.ef n [6, 7, 5] ∧ n.size = 1200))
        (exfatLookup [0x78] t) &&
      returns (fun r _ => decide (r = ([⟨8704, 1024⟩, ⟨8192, 176⟩], 0))) (printFragments [0x78] t))
      (mountRoot fragmentedBooted) = true := by
    decide +kernel
  obtain ⟨rc, t, hroot, htest⟩ := of_returns htest
  obtain ⟨htest, hprint⟩ := Bool.and_eq_true_iff.1 htest
  obtain ⟨hrc, hlookup⟩ := Bool.and_eq_true_iff.1 htest
  cases of_decide_eq_true hrc
  obtain ⟨r, t', hlookup, hfound⟩ := of_returns hlookup
  obtain ⟨hfound, hnode⟩ := Bool.and_eq_true_iff.1 hfound
  obtain ⟨hr, hquiet⟩ := Bool.and_eq_true_iff.1 hfound
  have hr := of_decide_eq_true hr
  subst hr
  obtain ⟨herrors, hbitmap⟩ := of_decide_eq_true hquiet
  obtain ⟨n, hi, hfile⟩ := (Option.any_eq_true ..).1 hnode
  obtain ⟨hready, hfile, hsize⟩ := of_decide_eq_true hfile
  obtain ⟨p, v₁, hprint, hp⟩ := of_returns hprint
  cases of_decide_eq_true hp
  have hmount : exfatMount fragmentedStart = .ok (.ok ()) t :=
    -- the lookup finds the file
    (run_exfatMount (fun _ => rfl) bootable_fragmentedStore).trans hroot
  obtain ⟨hcover, hreturns⟩ := dumpFileFragments_cover hmount hlookup hi hready hfile
  obtain ⟨fs, v', hrun⟩ := hreturns (fun _ => rfl) herrors hbitmap
  have hlines : fs = [⟨8704, 1024⟩, ⟨8192, 176⟩] := by
    unfold dumpFileFragments at hrun
    rw [run_bind_ok hmount] at hrun
    cases hrun.symm.trans hprint
    rfl
  subst hlines
  -- the general theorem gives the bytes
  obtain ⟨-, hbytes, -⟩ := hcover _ _ _ hrun
  rw [hsize] at hbytes
  exact ⟨t', v', hrun, hbytes⟩

end ExFat
