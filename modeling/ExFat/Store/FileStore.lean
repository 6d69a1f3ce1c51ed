import ExFat.Alloc.Transfer
import ExFat.Fs.Tree

namespace ExFat

open Bytes Program Chain

/-!
# Files as byte lists

What a set of files is for: each is a list of bytes, a write overlays bytes and fills a gap with
zeros, a truncation cuts or fills, a read returns the part asked for, and no operation on one file
shows in another (`AbsStep`).  The volume refines this store: a run of `exfat_generic_pwrite`,
`exfat_truncate` and `exfat_generic_pread` on its files is a run of the store with the same
replies.

The invariant is `Chains`: the clusters of the nodes are chains of the heap that are marked in the
bitmap and that no two nodes share.  A step on one node is a `FileStep`, and that is all the
invariant needs to know of it.
-/

/-! ### The abstract store -/

/-- A list of bytes, extended with zeros to at least `k` bytes. -/
def extend (l : List UInt8) (k : Nat) : List UInt8 := l ++ List.replicate (k - l.length) 0

/-- A list of bytes, cut or extended with zeros to `k` bytes. -/
def resize (l : List UInt8) (k : Nat) : List UInt8 := extend (l.take k) k

/-- A list of bytes with `data` written over it at `off`. -/
def overlay (l : List UInt8) (off : Nat) (data : List UInt8) : List UInt8 :=
  patch (extend l (off + data.length)) off data

section Lists

variable (f : Store) (size : Nat)

/-- A file that is extended reads as zeroes behind its end. -/
theorem extend_readBytes (k : Nat) :
    extend (readBytes f 0 size) k =
      readBytes (fun q => if q < size then f q else 0) 0 (max size k) := by
  apply eq_readBytes
  · simp only [extend, List.length_append, length_readBytes, List.length_replicate]
    omega
  · intro i hi
    unfold extend
    by_cases h : i < size
    · rw [List.getD_append _ _ _ _ (by simpa using h), getD_readBytes, if_pos h]
      simp [h]
    · rw [List.getD_append_right _ _ _ _ (by simpa using h)]
      have hzero : i - size < k - size := by omega
      simp [List.getD_eq_getElem?_getD, hzero, h]

/-- A file that is written to. -/
theorem overlay_readBytes (off : Nat) (data : List UInt8) :
    overlay (readBytes f 0 size) off data =
      readBytes (writeBytes (fun q => if q < size then f q else 0) off data) 0
        (max size (off + data.length)) := by
  have hlen : (readBytes (fun q => if q < size then f q else 0) 0
      (max size (off + data.length))).length = max size (off + data.length) := length_readBytes ..
  unfold overlay
  rw [extend_readBytes]
  apply eq_readBytes
  · rw [length_patch (by omega), hlen]
  · intro i hi
    rw [getD_patch (by omega), writeBytes_apply, getD_readBytes, if_pos hi, Nat.zero_add]

/-- A file that is given another size. -/
theorem resize_readBytes (k : Nat) :
    resize (readBytes f 0 size) k = readBytes (fun q => if q < size then f q else 0) 0 k := by
  have htake := take_drop_readBytes f 0 size 0 k
  rw [List.drop_zero, Nat.sub_zero, Nat.add_zero] at htake
  unfold resize
  rw [htake, extend_readBytes, Nat.max_eq_right (by omega)]
  apply readBytes_congr
  intro i hi
  have hiff : 0 + i < min k size ↔ 0 + i < size := by omega
  simp only [hiff]

end Lists

/-- A call on a file. -/
inductive FileOp
  | pwrite (i : NodeId) (data : List UInt8) (offset : Int)
  | truncate (i : NodeId) (size : Nat)
  | pread (i : NodeId) (size : Nat) (offset : Int)

/-- What a call returns. -/
inductive Reply
  | pwrote (r : Except Errno Nat)
  | truncated (r : Rc)
  | preads (r : Except Errno (Nat × List UInt8))

/-- The file a call is about. -/
def FileOp.node : FileOp → NodeId
  | .pwrite i _ _ => i
  | .truncate i _ => i
  | .pread i _ _ => i

/-- What a call may do to the store, and what it then returns. -/
inductive AbsStep (σ : NodeId → List UInt8) : FileOp → Reply → (NodeId → List UInt8) → Prop
  | pwriteNegative {i data offset} (h : offset < 0) :
      AbsStep σ (.pwrite i data offset) (.pwrote (.error .einval)) σ
  | pwrite {i data} {off : Nat} :
      AbsStep σ (.pwrite i data off) (.pwrote (.ok data.length))
        (Function.update σ i (overlay (σ i) off data))
  | pwriteFull {i data} {off : Nat} :
      AbsStep σ (.pwrite i data off) (.pwrote (.error .enospc)) σ
  | pwriteFullExtended {i data} {off : Nat} (h : (σ i).length < off) :
      AbsStep σ (.pwrite i data off) (.pwrote (.error .enospc))
        (Function.update σ i (extend (σ i) off))
  | truncate {i size} :
      AbsStep σ (.truncate i size) (.truncated (.ok ())) (Function.update σ i (resize (σ i) size))
  | truncateFull {i size} (h : (σ i).length < size) :
      AbsStep σ (.truncate i size) (.truncated (.error .enospc)) σ
  | preadNegative {i size offset} (h : offset < 0) :
      AbsStep σ (.pread i size offset) (.preads (.error .einval)) σ
  | pread {i size} {off : Nat} :
      AbsStep σ (.pread i size off)
        (.preads (.ok (min size ((σ i).length - off), ((σ i).drop off).take size))) σ

/-- A run of the store. -/
inductive AbsRun : (NodeId → List UInt8) → List FileOp → List Reply → (NodeId → List UInt8) → Prop
  | nil {σ} : AbsRun σ [] [] σ
  | cons {σ σ' σ'' op r ops rs} (h : AbsStep σ op r σ') (hs : AbsRun σ' ops rs σ'') :
      AbsRun σ (op :: ops) (r :: rs) σ''

/-! ### The calls on the volume -/

section Run

variable {δ : Type} [Device δ]

/-- The call on the volume. -/
def FileOp.run : FileOp → TreeM δ Reply
  | .pwrite i data offset => do
    let r ← onNode i (exfatGenericPwrite data offset)
    pure (.pwrote r)
  | .truncate i size => do
    let r ← onNode i (exfatTruncate size true)
    pure (.truncated r)
  | .pread i size offset => do
    let r ← onNode i (exfatGenericPread size offset)
    pure (.preads r)

/-- Calls one after the other. -/
def runFileOps : List FileOp → TreeM δ (List Reply)
  | [] => pure []
  | op :: ops => do
    let r ← op.run
    let rs ← runFileOps ops
    pure (r :: rs)

end Run

/-- The sizes of a call need fewer than `2^32` clusters. -/
def FileOp.Fits (sb : SuperBlock) : FileOp → Prop
  | .pwrite _ data offset => divRoundUp (offset.toNat + data.length) sb.clusterSize < 2 ^ 32
  | .truncate _ size => divRoundUp size sb.clusterSize < 2 ^ 32
  | .pread _ size offset => divRoundUp (offset.toNat + size) sb.clusterSize < 2 ^ 32

/-- The clusters of the nodes in memory are chains of the heap, marked in the bitmap, that no two
nodes share. -/
structure Chains (t : Volume Flat) (chain : NodeId → List Nat) : Prop where
  ready : Ready t.ef
  file : ∀ {i n}, t.heap i = some n → File t.ef n (chain i)
  apart : ∀ {i j n m}, t.heap i = some n → t.heap j = some m → i ≠ j → (chain i).Disjoint (chain j)

/-- A file that is open: somebody holds a reference to its node. -/
def OpenFile (t : Volume Flat) (i : NodeId) : Prop :=
  ∃ n, t.heap i = some n ∧ n.isDir = false ∧ n.references ≠ 0

/-- The bytes of a file. -/
def fileBytes (t : Volume Flat) (n : Node) (L : List Nat) : List UInt8 :=
  readBytes (content t.ef.sb t.ef.dev.bytes L) 0 n.size

/-- The files of the volume hold what the store says, and all their bytes are valid. -/
def Holds (t : Volume Flat) (chain : NodeId → List Nat) (σ : NodeId → List UInt8) : Prop :=
  ∀ i n, t.heap i = some n → n.isDir = false →
    n.validSize = n.size ∧ σ i = fileBytes t n (chain i)

/-! ### One call -/

section Step

variable {t : Volume Flat} {chain : NodeId → List Nat} {σ : NodeId → List UInt8} {i : NodeId}
  {n n' : Node} {ef' : Ef Flat} {L' : List Nat}

/-- A chain all of whose clusters are left alone. -/
theorem Chained.untouched {sb : SuperBlock} {b b' : Store} {L : List Nat} (h : Chained sb b n L)
    (hu : ∀ c ∈ L, Untouched sb b b' c) : Chained sb b' n L := by
  refine ⟨h.follows.congr_of_mem ?_, h.valid, h.nodup, h.fptr, h.empty⟩
  intro c hc
  unfold nextOf
  rw [(hu c hc).1]

/-- A file is not affected by a step on clusters it does not have. -/
theorem File.other {ef : Ef Flat} {m : Node} {L K : List Nat} (hs : FileStep ef n L ef' n' L')
    (hf : File ef m K) (hd : L.Disjoint K) :
    File ef' m K ∧ content ef.sb ef'.dev.bytes K = content ef.sb ef.dev.bytes K := by
  have hsb := hs.sb
  have hu : ∀ c ∈ K, Untouched ef.sb ef.dev.bytes ef'.dev.bytes c := fun c hc =>
    hs.moved.frame c (hf.chained.valid c hc) (hf.taken c hc) (fun hL => hd hL hc)
  refine ⟨⟨?_, ?_, ?_, hf.valid⟩, content_congr fun c hc o ho => (hu c hc).2 o ho⟩
  · rw [hsb]
    exact hf.chained.untouched hu
  · intro c hc
    exact (hs.moved.bits c (hf.chained.valid c hc)).mpr
      (Or.inr ⟨hf.taken c hc, fun hL => hd hL hc⟩)
  · rw [hsb]
    exact hf.length

/-- The chains after a step on one file. -/
theorem Chains.store (hc : Chains t chain) (hi : t.heap i = some n)
    (hs : FileStep t.ef n (chain i) ef' n' L') :
    Chains (t.store i ⟨ef', n'⟩) (Function.update chain i L') := by
  have hheap : ∀ {j m}, j ≠ i → (t.store i ⟨ef', n'⟩).heap j = some m → t.heap j = some m := by
    intro j m hj h
    simpa [Volume.store, Function.update_of_ne hj] using h
  -- another node's clusters are not among the new ones
  have hapart : ∀ {j m}, j ≠ i → t.heap j = some m → L'.Disjoint (chain j) := by
    intro j m hj hm c hc' hcj
    have hf := hc.file hm
    exact hs.moved.not_mem (hf.taken c hcj) (fun hL => hc.apart hi hm (Ne.symm hj) hL hcj) hc'
  -- The file itself, and then each of the others.
  refine ⟨hs.ready hc.ready, ?_, ?_⟩
  · intro j m hm
    by_cases hj : j = i
    · subst hj
      simp only [Volume.store, Function.update_self, Option.some.injEq] at hm
      rw [← hm, Function.update_self]
      exact hs.file
    · rw [Function.update_of_ne hj]
      have hm' := hheap hj hm
      exact (File.other hs (hc.file hm') (hc.apart hi hm' (Ne.symm hj))).1
  -- two files: one of them is the one that has changed, or none is
  · intro j k m l hm hl hjk
    by_cases hj : j = i
    · subst hj
      rw [Function.update_self, Function.update_of_ne (Ne.symm hjk)]
      exact hapart (Ne.symm hjk) (hheap (Ne.symm hjk) hl)
    · rw [Function.update_of_ne hj]
      by_cases hk : k = i
      · subst hk
        rw [Function.update_self]
        exact fun c hcj hc' => hapart hj (hheap hj hm) hc' hcj
      · rw [Function.update_of_ne hk]
        exact hc.apart (hheap hj hm) (hheap hk hl) hjk

/-- After a step on a file the store holds for it what the step has made of it, and for the others
what it held before. -/
theorem Holds.store (hc : Chains t chain) (hh : Holds t chain σ) (hi : t.heap i = some n)
    (hs : FileStep t.ef n (chain i) ef' n' L') (hv : n'.validSize = n'.size) {l : List UInt8}
    (hl : l = readBytes (content t.ef.sb ef'.dev.bytes L') 0 n'.size) :
    Holds (t.store i ⟨ef', n'⟩) (Function.update chain i L') (Function.update σ i l) := by
  have hsb := hs.sb
  intro j m hm hdir
  by_cases hj : j = i
  · subst hj
    simp only [Volume.store, Function.update_self, Option.some.injEq] at hm
    subst hm
    simp only [Function.update_self, fileBytes, Volume.store, hsb]
    exact ⟨hv, hl⟩
  · have hm' : t.heap j = some m := by simpa [Volume.store, Function.update_of_ne hj] using hm
    obtain ⟨hvalid, hbytes⟩ := hh j m hm' hdir
    have hcont := (File.other hs (hc.file hm') (hc.apart hi hm' (Ne.symm hj))).2
    simp only [Function.update_of_ne hj, fileBytes, Volume.store, hsb, hcont]
    exact ⟨hvalid, hbytes⟩

/-- The clusters of the heap that are marked in the bitmap and belong to no node in memory: the
bitmap, the upcase table, and the nodes of directories that have not been read. -/
def Foreign (t : Volume Flat) (chain : NodeId → List Nat) (c : Nat) : Prop :=
  Valid t.ef.sb c ∧ t.ef.cmap.chunk (c - 2) = true ∧ ∀ {i n}, t.heap i = some n → c ∉ chain i

/-- What a call leaves alone: the superblock, the open files, and the clusters of nobody. -/
structure Stays (t : Volume Flat) (chain : NodeId → List Nat) (t' : Volume Flat)
    (chain' : NodeId → List Nat) : Prop where
  sb : t'.ef.sb = t.ef.sb
  opened : ∀ {i}, OpenFile t i → OpenFile t' i
  foreign : ∀ {c}, Foreign t chain c →
    Foreign t' chain' c ∧ Untouched t.ef.sb t.ef.dev.bytes t'.ef.dev.bytes c

/-- The other files are as they were. -/
theorem Stays.refl (t : Volume Flat) (chain : NodeId → List Nat) : Stays t chain t chain :=
  ⟨rfl, id, fun h => ⟨h, Untouched.refl ..⟩⟩

/-- What stays twice stays. -/
theorem Stays.trans {t' t'' : Volume Flat} {chain' chain'' : NodeId → List Nat}
    (h : Stays t chain t' chain') (h' : Stays t' chain' t'' chain'') :
    Stays t chain t'' chain'' := by
  refine ⟨h'.sb.trans h.sb, fun ho => h'.opened (h.opened ho), ?_⟩
  intro c hc
  obtain ⟨hc₁, hu₁⟩ := h.foreign hc
  obtain ⟨hc₂, hu₂⟩ := h'.foreign hc₁
  rw [h.sb] at hu₂
  exact ⟨hc₂, hu₁.trans hu₂⟩

/-- A step on one file leaves the others alone. -/
theorem Stays.store (hi : t.heap i = some n) (hs : FileStep t.ef n (chain i) ef' n' L') :
    Stays t chain (t.store i ⟨ef', n'⟩) (Function.update chain i L') := by
  have hsb := hs.sb
  -- The superblock, the other open files, and the clusters that belong to nobody.
  refine ⟨hsb, ?_, ?_⟩
  · rintro j ⟨m, hm, hdir, href⟩
    by_cases hj : j = i
    · subst hj
      rw [hi] at hm
      cases hm
      refine ⟨n', by simp [Volume.store], ?_, ?_⟩
      · unfold Node.isDir at hdir ⊢
        rw [hs.kept.attrib]
        exact hdir
      · rw [hs.kept.references]
        exact href
    · exact ⟨m, by simpa [Volume.store, Function.update_of_ne hj] using hm, hdir, href⟩
  -- such a cluster is neither given away nor written
  · rintro c ⟨hv, hbit, hno⟩
    have hci := hno hi
    refine ⟨⟨?_, ?_, ?_⟩, hs.moved.frame c hv hbit hci⟩
    · show Valid ef'.sb c
      rw [hsb]
      exact hv
    · exact (hs.moved.bits c hv).mpr (Or.inr ⟨hbit, hci⟩)
    · intro j m hm
      by_cases hj : j = i
      · subst hj
        rw [Function.update_self]
        exact hs.moved.not_mem hbit hci
      · rw [Function.update_of_ne hj]
        exact hno (by simpa [Volume.store, Function.update_of_ne hj] using hm)

/-- Every call on an open file does what the store does. -/
theorem FileOp.run_refines {op : FileOp} (hc : Chains t chain) (hh : Holds t chain σ)
    (ho : OpenFile t op.node) (hfit : op.Fits t.ef.sb) :
    ∃ r t' chain' σ', op.run t = .ok r t' ∧ AbsStep σ op r σ' ∧ Chains t' chain' ∧
      Holds t' chain' σ' ∧ Stays t chain t' chain' := by
  obtain ⟨n, hi, hdir, href⟩ := ho
  have hf := hc.file hi
  obtain ⟨hvs, hσ⟩ := hh _ n hi hdir
  unfold fileBytes at hσ
  have href' : n.references = 0 → n.parent = none := fun h => absurd h href
  have hlen : (σ op.node).length = n.size := by rw [hσ, length_readBytes]
  -- a step that leaves the bytes of the file leaves the store
  have hsame : ∀ {ef' n' L'}, FileStep t.ef n (chain op.node) ef' n' L' →
      n'.validSize = n'.size → n'.size = n.size →
      (∀ p, p < n.size → content t.ef.sb ef'.dev.bytes L' p =
        content t.ef.sb t.ef.dev.bytes (chain op.node) p) →
      Chains (t.store op.node ⟨ef', n'⟩) (Function.update chain op.node L') ∧
        Holds (t.store op.node ⟨ef', n'⟩) (Function.update chain op.node L') σ ∧
        Stays t chain (t.store op.node ⟨ef', n'⟩) (Function.update chain op.node L') := by
    intro ef' n' L' hs hv hsize hbytes
    have hl : σ op.node = readBytes (content t.ef.sb ef'.dev.bytes L') 0 n'.size := by
      rw [hσ, hsize]
      apply readBytes_congr
      intro p hp
      rw [Nat.zero_add, hbytes p hp]
    have hstore := Holds.store hc hh hi hs hv hl
    rw [Function.update_eq_self] at hstore
    exact ⟨hc.store hi hs, hstore, Stays.store hi hs⟩
  -- Each call is carried out in full, refused, or stopped for want of space.
  cases op with
  | pwrite i data offset =>
    dsimp only [FileOp.node] at hi hf hσ hlen hsame
    by_cases hneg : offset < 0
    · have hrun : exfatGenericPwrite data offset ⟨t.ef, n⟩ = .ok (.error .einval) ⟨t.ef, n⟩ := by
        unfold exfatGenericPwrite
        simp only [run_bind, run_get, if_pos hneg, run_pure]
      obtain ⟨h1, h2, h3⟩ := hsame (FileStep.refl hf) hvs rfl fun _ _ => rfl
      exact ⟨_, _, _, σ, run_bind_ok (run_onNode hi hrun), .pwriteNegative hneg, h1, h2, h3⟩
    · obtain ⟨off, rfl⟩ := Int.eq_ofNat_of_zero_le (not_lt.mp hneg)
      obtain ⟨r, ef', n', L', hrun, hs, _, hv, hwr⟩ :=
        exfatGenericPwrite_run hc.ready hf hvs data off hfit href'
      have hrun' : FileOp.run (.pwrite i data off) t = .ok (.pwrote r) (t.store i ⟨ef', n'⟩) :=
        run_bind_ok (run_onNode hi hrun)
      -- written; not extended; or extended, and then there was no space for the rest
      rcases hwr with ⟨rfl, hsize, hbytes⟩ | ⟨rfl, hsize | ⟨hlt, hsize⟩, hbytes⟩
      · refine ⟨_, _, _, _, hrun', .pwrite, hc.store hi hs, Holds.store hc hh hi hs hv ?_,
          Stays.store hi hs⟩
        rw [hσ, overlay_readBytes, hsize]
        apply readBytes_congr
        intro p hp
        rw [Nat.zero_add, hbytes p (by omega)]
      · obtain ⟨h1, h2, h3⟩ := hsame hs hv hsize fun p hp => by
          rw [hbytes p (by omega), if_pos hp]
        exact ⟨_, _, _, σ, hrun', .pwriteFull, h1, h2, h3⟩
      · refine ⟨_, _, _, _, hrun', .pwriteFullExtended (by rw [hlen]; exact hlt), hc.store hi hs,
          Holds.store hc hh hi hs hv ?_, Stays.store hi hs⟩
        rw [hσ, extend_readBytes, hsize, Nat.max_eq_right (by omega)]
        apply readBytes_congr
        intro p hp
        rw [Nat.zero_add, hbytes p (by omega)]
  | truncate i size =>
    dsimp only [FileOp.node] at hi hf hσ hlen hsame
    obtain ⟨r, ef', n', L', hrun, hs, -, -, -, htr, -, hbytes⟩ :=
      exfatTruncate_run hc.ready hf hfit href' true
    have hrun' : FileOp.run (.truncate i size) t = .ok (.truncated r) (t.store i ⟨ef', n'⟩) :=
      run_bind_ok (run_onNode hi hrun)
    -- the new size, or the old one for want of space
    rcases htr with ⟨rfl, hsize, hvalid⟩ | ⟨rfl, hlt, hsize, hvalid⟩
    · have hv : n'.validSize = n'.size := by
        rw [hvalid]
        split <;> simp_all
      refine ⟨_, _, _, _, hrun', .truncate, hc.store hi hs, Holds.store hc hh hi hs hv ?_,
        Stays.store hi hs⟩
      rw [hσ, resize_readBytes, hsize]
      apply readBytes_congr
      intro p hp
      rw [Nat.zero_add, hbytes p (by omega), hvs]
    · obtain ⟨h1, h2, h3⟩ := hsame hs (by omega) hsize fun p hp => by
        rw [hbytes p (by omega), if_pos (by omega)]
      exact ⟨_, _, _, σ, hrun', .truncateFull (by rw [hlen]; exact hlt), h1, h2, h3⟩
  | pread i size offset =>
    dsimp only [FileOp.node] at hi hf hσ hlen hsame
    by_cases hneg : offset < 0
    · have hrun : exfatGenericPread size offset ⟨t.ef, n⟩ = .ok (.error .einval) ⟨t.ef, n⟩ := by
        unfold exfatGenericPread
        simp only [run_bind, run_get, if_pos hneg, run_pure]
      obtain ⟨h1, h2, h3⟩ := hsame (FileStep.refl hf) hvs rfl fun _ _ => rfl
      exact ⟨_, _, _, σ, run_bind_ok (run_onNode hi hrun), .preadNegative hneg, h1, h2, h3⟩
    · obtain ⟨off, rfl⟩ := Int.eq_ofNat_of_zero_le (not_lt.mp hneg)
      have hlt : off + size < 2 ^ 64 := by
        have := lt_of_divRoundUp_lt hc.ready.layout hfit
        have hnat : (off : Int).toNat = off := rfl
        omega
      -- a read leaves the bytes as they are
      obtain ⟨ef', n', hrun, hs, _, hsize, hvalid, hbytes⟩ :=
        exfatGenericPread_run hc.ready hf hvs size off hlt
      obtain ⟨h1, h2, h3⟩ := hsame hs (by omega) hsize fun p _ => by
        rw [hbytes]
      refine ⟨_, _, _, σ, run_bind_ok (run_onNode hi hrun), ?_, h1, h2, h3⟩
      have hread := take_drop_readBytes (content t.ef.sb t.ef.dev.bytes (chain i)) 0 n.size off size
      have hσi : σ i = readBytes (content t.ef.sb t.ef.dev.bytes (chain i)) 0 n.size := hσ
      rw [← hσi, Nat.zero_add] at hread
      have hleni : (σ i).length = n.size := hlen
      have hstep := @AbsStep.pread σ i size off
      rw [hread, hleni] at hstep
      exact hstep

end Step

/-! ### Whole runs -/

/-- Every run of calls on open files of a volume, whose chains are valid, disjoint and allocated
and whose files have only valid bytes, is a run of the store of byte lists with the same replies:
none of the calls stops, each returns what the store returns, and clusters that belong to no node
in memory are left alone. -/
theorem runFileOps_refines (ops : List FileOp) {t : Volume Flat} {chain : NodeId → List Nat}
    {σ : NodeId → List UInt8} (hc : Chains t chain) (hh : Holds t chain σ)
    (ho : ∀ op ∈ ops, OpenFile t op.node ∧ op.Fits t.ef.sb) :
    ∃ rs t' chain' σ', runFileOps ops t = .ok rs t' ∧ AbsRun σ ops rs σ' ∧ Chains t' chain' ∧
      Holds t' chain' σ' ∧ Stays t chain t' chain' := by
  induction ops generalizing t chain σ with
  | nil => exact ⟨[], t, chain, σ, rfl, .nil, hc, hh, Stays.refl ..⟩
  | cons op ops ih =>
    obtain ⟨hop, hfit⟩ := ho op (by simp)
    obtain ⟨r, t₁, chain₁, σ₁, hrun, habs, hc₁, hh₁, hst⟩ := op.run_refines hc hh hop hfit
    have ho₁ : ∀ op ∈ ops, OpenFile t₁ op.node ∧ op.Fits t₁.ef.sb := by
      intro op' hop'
      obtain ⟨h1, h2⟩ := ho op' (List.mem_cons_of_mem _ hop')
      rw [hst.sb]
      exact ⟨hst.opened h1, h2⟩
    obtain ⟨rs, t', chain', σ', hruns, habss, hc', hh', hst'⟩ := ih hc₁ hh₁ ho₁
    refine ⟨r :: rs, t', chain', σ', ?_, .cons habs habss, hc', hh', hst.trans hst'⟩
    unfold runFileOps
    rw [run_bind_ok hrun, run_bind_ok hruns]
    rfl

/-! A volume of eight clusters of one sector, with two files on it: one of three bytes in cluster 5,
and an empty one. -/

/-- A volume of eight clusters of one sector. -/
def smallSuperBlock : SuperBlock :=
  (((((⟨List.replicate 512 0⟩ : SuperBlock).setField 0x50 4 1).setField 0x58 4 2).setField 0x5c 4
    8).setField 0x60 4 4).setField 0x6c 1 9

/-- The superblock is sound. -/
theorem smallSuperBlock_layout : Layout smallSuperBlock :=
  ⟨by decide, by decide, by decide, by decide⟩

/-- A file of three bytes in the cluster 5. -/
def threeByteFile : Node where
  parent := some 0
  references := 1
  startCluster := 5
  fptrCluster := 5
  isContiguous := true
  validSize := 3
  size := 3

/-- An empty file. -/
def emptyFile : Node where
  parent := some 0
  references := 1

/-- A volume with these two files. -/
def twoFiles : Volume Flat where
  ef :=
    { dev := { bytes := fun _ => 0, size := 5120 }
      sb := smallSuperBlock
      cmap :=
        { startCluster := 2, size := 8, present := true, chunkSize := 8
          chunk := fun i => i == 3 } }
  heap := fun i =>
    if i = 1 then some threeByteFile else if i = 2 then some emptyFile else none
  root := 0
  fresh := 3

/-- The clusters of the two files. -/
def twoChains (i : NodeId) : List Nat := if i = 1 then [5] else []

/-- The two files are all that is in memory. -/
theorem twoFiles_heap {i : NodeId} {n : Node} (h : twoFiles.heap i = some n) :
    (i = 1 ∧ n = threeByteFile) ∨ (i = 2 ∧ n = emptyFile) := by
  unfold twoFiles at h
  simp only at h
  split at h
  case isTrue h1 => exact Or.inl ⟨h1, (Option.some.inj h).symm⟩
  case isFalse =>
    split at h
    case isTrue h2 => exact Or.inr ⟨h2, (Option.some.inj h).symm⟩
    case isFalse => cases h

/-- The files have these clusters. -/
theorem twoFiles_chains : Chains twoFiles twoChains := by
  refine ⟨⟨smallSuperBlock_layout, by decide, by decide, by decide⟩, ?_, ?_⟩
  · intro i n h
    rcases twoFiles_heap h with ⟨rfl, rfl⟩ | ⟨rfl, rfl⟩
    · refine ⟨⟨⟨rfl, trivial⟩, ?_, by decide, Or.inl ⟨rfl, rfl⟩, by decide⟩,
        ?_, by decide, by decide⟩
      · intro c hc
        rw [List.mem_singleton.mp hc]
        decide
      · intro c hc
        rw [List.mem_singleton.mp hc]
        decide
    · exact ⟨⟨trivial, by simp [twoChains], by decide, Or.inl ⟨rfl, rfl⟩, fun _ => rfl⟩,
        by simp [twoChains, Taken], by decide, by decide⟩
  · intro i j n m hi hj hij c hci hcj
    rcases twoFiles_heap hi with ⟨rfl, _⟩ | ⟨rfl, _⟩
    · rcases twoFiles_heap hj with ⟨rfl, _⟩ | ⟨rfl, _⟩
      · exact hij rfl
      · simp [twoChains] at hcj
    · simp [twoChains] at hci

/-- What is in the two files. -/
def twoStore (i : NodeId) : List UInt8 := if i = 1 then [0, 0, 0] else []

/-- The files hold this. -/
theorem twoFiles_holds : Holds twoFiles twoChains twoStore := by
  intro i n h _
  rcases twoFiles_heap h with ⟨rfl, rfl⟩ | ⟨rfl, rfl⟩
  · exact ⟨rfl, by decide⟩
  · exact ⟨rfl, by decide⟩

/-- A write past the end of the empty file, a read across the gap, and the other file cut. -/
def twoFilesOps : List FileOp :=
  [.pwrite 2 [1, 2] 4, .pread 2 10 1, .truncate 1 1, .pread 1 5 0]

/-- A run over both files behaves as on two lists of bytes. -/
theorem runFileOps_refines_twoFiles :
    ∃ rs t' chain' σ', runFileOps twoFilesOps twoFiles = .ok rs t' ∧
      AbsRun twoStore twoFilesOps rs σ' ∧ Chains t' chain' ∧ Holds t' chain' σ' ∧
      Stays twoFiles twoChains t' chain' := by
  refine runFileOps_refines twoFilesOps twoFiles_chains twoFiles_holds ?_
  have h1 : OpenFile twoFiles 1 := ⟨threeByteFile, rfl, by decide, by decide⟩
  have h2 : OpenFile twoFiles 2 := ⟨emptyFile, rfl, by decide, by decide⟩
  intro op hop
  simp only [twoFilesOps, List.mem_cons, List.not_mem_nil, or_false] at hop
  rcases hop with rfl | rfl | rfl | rfl
  · exact ⟨h2, by show _ < _; decide⟩
  · exact ⟨h2, by show _ < _; decide⟩
  · exact ⟨h1, by show _ < _; decide⟩
  · exact ⟨h1, by show _ < _; decide⟩

end ExFat
