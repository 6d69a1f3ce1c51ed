import ExFat.Alloc.Resize

namespace ExFat

open Bytes Program Chain

/-!
# The content of a file, and `exfat_truncate`

The bytes in the clusters of a file, one after the other, are a store of their own (`content`).
Writing into a cluster of the file is writing into that store, growing and shrinking the file leave
the store alone as far as it goes, and so `exfat_truncate` can be described without clusters: it
cuts the file, or extends it, by zeros if it is asked to erase.
-/

/-- The bytes of the clusters `L`, one after the other. -/
def content (sb : SuperBlock) (b : Store) (L : List Nat) : Store := fun p =>
  match L[p / sb.clusterSize]? with
  | some c => clusterByte sb b c (p % sb.clusterSize)
  | none => 0

/-- A step of the medium changes nothing but data of the clusters `L`. -/
structure Inside (sb : SuperBlock) (L : List Nat) (b b' : Store) : Prop where
  fat : ∀ c, Valid sb c → fatEntry sb b' c = fatEntry sb b c
  data : ∀ c, Valid sb c → c ∉ L → ∀ o, o < sb.clusterSize →
    clusterByte sb b' c o = clusterByte sb b c o

section Content

variable {sb : SuperBlock} {b b' b'' : Store} {L : List Nat} {n : Node} {chunk : Nat → Bool}

/-- Nothing has been written outside the list. -/
theorem Inside.refl (sb : SuperBlock) (L : List Nat) (b : Store) : Inside sb L b b :=
  ⟨fun _ _ => rfl, fun _ _ _ _ _ => rfl⟩

/-- Two steps that write inside the list write inside the list. -/
theorem Inside.trans (h : Inside sb L b b') (h' : Inside sb L b' b'') : Inside sb L b b'' :=
  ⟨fun c hc => (h'.fat c hc).trans (h.fat c hc),
    fun c hc hL o ho => (h'.data c hc hL o ho).trans (h.data c hc hL o ho)⟩

/-- A step that writes inside the list leaves the list and the bitmap alone. -/
theorem Inside.moved (h : Inside sb L b b') (ht : Taken chunk L) : Moved sb L L b b' chunk chunk :=
  ⟨fun _ hc => Or.inl hc, (Moved.refl sb b ht).bits,
    fun c hv _ hc => ⟨h.fat c hv, fun o ho => h.data c hv hc o ho⟩⟩

/-- The list stays the chain of the node. -/
theorem Inside.chained (h : Inside sb L b b') (hch : Chained sb b n L) : Chained sb b' n L := by
  refine ⟨hch.follows.congr_of_mem ?_, hch.valid, hch.nodup, hch.fptr, hch.empty⟩
  intro c hc
  unfold nextOf
  rw [h.fat c (hch.valid c hc)]

/-- The end of the chain stays the end. -/
theorem Inside.ended (h : Inside sb L b b') (hv : ∀ c ∈ L, Valid sb c) (he : Ended sb b n L) :
    Ended sb b' n L := by
  intro hcont c hc
  rw [h.fat c (hv c (List.mem_of_getLast? hc))]
  exact he hcont c hc

/-- Writing within a cluster of the list is a step inside the list. -/
theorem inside_writeCluster (hl : Layout sb) {c o : Nat} {data : List UInt8} (hc : Valid sb c)
    (hcL : c ∈ L) (hfit : o + data.length ≤ sb.clusterSize) :
    Inside sb L b (writeBytes b (clusterOffset sb c + o) data) := by
  refine ⟨fun c' hc' => fatEntry_writeCluster hl hc' c o data, ?_⟩
  intro c' hc' hc'L o' ho'
  refine clusterByte_writeCluster_of_ne hc.two_le hc'.two_le ?_ hfit ho'
  rintro rfl
  exact hc'L hcL

/-- Writing into the `i`-th cluster of a file is writing into its content. -/
theorem content_writeCluster (hv : ∀ c ∈ L, Valid sb c) (hnd : L.Nodup) {i o : Nat}
    {data : List UInt8} (hi : i < L.length) (hfit : o + data.length ≤ sb.clusterSize) :
    content sb (writeBytes b (clusterOffset sb L[i] + o) data) L =
      writeBytes (content sb b L) (i * sb.clusterSize + o) data := by
  have hcs := sb.clusterSize_pos
  funext p
  have hdm := Nat.div_add_mod' p sb.clusterSize
  have hmod := Nat.mod_lt p hcs
  unfold content
  rw [writeBytes_apply]
  -- A byte of the cluster that is written, or of another one: no cluster is there twice.
  by_cases hpi : p / sb.clusterSize = i
  · rw [hpi, List.getElem?_eq_getElem hi]
    simp only [clusterByte_writeCluster_self]
    rw [hpi] at hdm
    by_cases hin : o ≤ p % sb.clusterSize ∧ p % sb.clusterSize < o + data.length
    · rw [if_pos hin, if_pos (by omega)]
      congr 1
      omega
    · rw [if_neg hin, if_neg (by omega)]
  · have hout : ¬ (i * sb.clusterSize + o ≤ p ∧ p < i * sb.clusterSize + o + data.length) := by
      rintro ⟨h1, h2⟩
      apply hpi
      apply Nat.div_eq_of_lt_le
      · omega
      · rw [Nat.add_mul, Nat.one_mul]
        omega
    rw [if_neg hout]
    cases hget : L[p / sb.clusterSize]? with
    | none => rfl
    | some c =>
      obtain ⟨hlt, rfl⟩ := List.getElem?_eq_some_iff.mp hget
      refine clusterByte_writeCluster_of_ne (hv _ (List.getElem_mem hi)).two_le
        (hv _ (List.getElem_mem hlt)).two_le ?_ hfit hmod
      intro heq
      exact hpi ((List.Nodup.getElem_inj_iff hnd).mp heq)

/-- Clusters added at the end, or cut off there, leave the content of the others. -/
theorem content_append (sb : SuperBlock) {A : List Nat} {p : Nat}
    (h : p < L.length * sb.clusterSize) : content sb b (L ++ A) p = content sb b L p := by
  have hlt : p / sb.clusterSize < L.length := Nat.div_lt_of_lt_mul (by rwa [Nat.mul_comm])
  unfold content
  rw [List.getElem?_append_left hlt]

/-- The content of a file is the bytes of its clusters. -/
theorem content_congr
    (h : ∀ c ∈ L, ∀ o, o < sb.clusterSize → clusterByte sb b' c o = clusterByte sb b c o) :
    content sb b' L = content sb b L := by
  funext p
  unfold content
  cases hget : L[p / sb.clusterSize]? with
  | none => rfl
  | some c => exact h c (List.mem_of_getElem? hget) _ (Nat.mod_lt _ sb.clusterSize_pos)

end Content

/-! ### Sizes in clusters -/

/-- A cluster has at most 32 MB. -/
theorem Layout.clusterSize_le {sb : SuperBlock} (hl : Layout sb) : sb.clusterSize ≤ 2 ^ 25 := by
  have h := hl.clusterBits
  unfold SuperBlock.clusterSize SuperBlock.sectorSize
  rw [← pow_add]
  exact Nat.pow_le_pow_right (by omega) h

/-- A number of bytes that fewer than `2^32` clusters hold fits in 64 bits. -/
theorem lt_of_divRoundUp_lt {sb : SuperBlock} (hl : Layout sb) {size : Nat}
    (h : divRoundUp size sb.clusterSize < 2 ^ 32) : size ≤ 2 ^ 57 := by
  have h1 := le_divRoundUp_mul size sb.clusterSize_pos
  have h2 : divRoundUp size sb.clusterSize * sb.clusterSize ≤ 2 ^ 32 * 2 ^ 25 :=
    Nat.mul_le_mul (by omega) hl.clusterSize_le
  omega

/-- A number of bytes that fewer than `2^32` clusters hold is counted right. -/
theorem bytes2clusters_eq {sb : SuperBlock} (hl : Layout sb) {size : Nat}
    (h : divRoundUp size sb.clusterSize < 2 ^ 32) :
    bytes2clusters sb size = divRoundUp size sb.clusterSize := by
  have hle := hl.clusterSize_le
  have hlt := lt_of_divRoundUp_lt hl h
  unfold bytes2clusters u64 u32
  rw [Nat.mod_eq_of_lt (by omega : size + sb.clusterSize - 1 < 2 ^ 64)]
  exact Nat.mod_eq_of_lt h

/-! ### `erase_range` -/

/-- The boundary of `erase_range` is the end of the cluster the range starts in. -/
theorem or_clusterSize {sb : SuperBlock} (start : Nat) :
    (start ||| (sb.clusterSize - 1)) + 1 = (start / sb.clusterSize + 1) * sb.clusterSize := by
  have hcs : sb.clusterSize = 2 ^ (sb.sectorBits + sb.spcBits) := (pow_add ..).symm
  rw [hcs]
  generalize sb.sectorBits + sb.spcBits = k
  have hpos : 0 < 2 ^ k := Nat.two_pow_pos k
  have hor : start ||| (2 ^ k - 1) = 2 ^ k * (start / 2 ^ k) + (2 ^ k - 1) := by
    apply Nat.eq_of_testBit_eq
    intro i
    rw [Nat.testBit_or, Nat.testBit_two_pow_sub_one, Nat.testBit_two_pow_mul_add _ (by omega),
      Nat.testBit_two_pow_sub_one, Nat.testBit_div_two_pow]
    by_cases hi : i < k
    · simp [hi]
    · simp [hi, Nat.sub_add_cancel (not_lt.mp hi)]
  rw [hor, Nat.add_mul, Nat.one_mul, Nat.mul_comm]
  omega

variable {ef : Ef Flat} {n : Node} {L : List Nat}

/-- `erase_raw` writes zeroes. -/
@[simp] theorem run_eraseRaw (size offset : Nat) :
    eraseRaw size offset ef = .ok true (ef.upd
      (writeBytes ef.dev.bytes offset (List.replicate size 0)) ef.cmap.chunk ef.cmap.dirty ef.errors
      ef.ticks) := rfl

/-- The loop of `erase_range` puts zeros into the clusters after the `i`-th. -/
theorem eraseLoop_run (ef : Ef Flat) (hl : Layout ef.sb) (hch : Chained ef.sb ef.dev.bytes n L)
    (m i : Nat) (h : i + m < L.length) :
    ∃ b', eraseLoop m L[i] ⟨ef, n⟩ =
        .ok (.ok ()) ⟨ef.upd b' ef.cmap.chunk ef.cmap.dirty ef.errors ef.ticks, n⟩ ∧
      Inside ef.sb L ef.dev.bytes b' ∧
      content ef.sb b' L = writeBytes (content ef.sb ef.dev.bytes L) ((i + 1) * ef.sb.clusterSize)
        (List.replicate (m * ef.sb.clusterSize) 0) := by
  -- On the clusters still to be erased; the cached cluster is the one before them.
  induction m generalizing i ef with
  | zero =>
    refine ⟨ef.dev.bytes, rfl, Inside.refl .., ?_⟩
    simp
  | succ m ih =>
    have hcv : Valid ef.sb L[i] := hch.valid _ (List.getElem_mem _)
    have hnv : Valid ef.sb L[i + 1] := hch.valid _ (List.getElem_mem _)
    have hni : ef.sb.clusterInvalid L[i + 1] = false := hnv
    have hnext : nextOf ef.sb ef.dev.bytes n.isContiguous L[i] = L[i + 1] :=
      hch.follows.succ_getElem (by omega)
    have hfit : 0 + (List.replicate ef.sb.clusterSize (0 : UInt8)).length ≤ ef.sb.clusterSize := by
      simp
    have hin : Inside ef.sb L ef.dev.bytes (writeBytes ef.dev.bytes
        (clusterOffset ef.sb L[i + 1] + 0) (List.replicate ef.sb.clusterSize 0)) :=
      inside_writeCluster hl hnv (List.getElem_mem _) hfit
    have hwrite := content_writeCluster (b := ef.dev.bytes) hch.valid hch.nodup
      (i := i + 1) (by omega) hfit
    rw [Nat.add_zero] at hin hwrite
    obtain ⟨b', hrun, hin', hcont⟩ := ih (ef.upd (writeBytes ef.dev.bytes
        (clusterOffset ef.sb L[i + 1]) (List.replicate ef.sb.clusterSize 0)) ef.cmap.chunk
        ef.cmap.dirty ef.errors ef.ticks) hl (hin.chained hch) (i + 1) (by omega)
    -- the clusters behind are erased in the state that this one leaves
    refine ⟨b', ?_, hin.trans hin', ?_⟩
    · unfold eraseLoop
      simp only [run_bind, exfatNextCluster_run hcv.two_le, hnext, run_get, hni, Bool.false_eq_true,
        if_false, run_onEf, run_exfatC2o hnv.two_le, run_eraseRaw, if_true]
      exact hrun
    · simp only [Ef.upd_sb, Ef.upd_bytes] at hcont
      rw [hcont, hwrite, Nat.add_zero]
      have happ := writeBytes_append (content ef.sb ef.dev.bytes L) ((i + 1) * ef.sb.clusterSize)
        (List.replicate ef.sb.clusterSize 0) (List.replicate (m * ef.sb.clusterSize) 0)
      rw [List.length_replicate, List.replicate_append_replicate] at happ
      rw [show (i + 1 + 1) * ef.sb.clusterSize = (i + 1) * ef.sb.clusterSize + ef.sb.clusterSize by
        ring, happ, show (m + 1) * ef.sb.clusterSize = ef.sb.clusterSize + m * ef.sb.clusterSize by
        ring]

/-- `erase_range` puts zeros into the content from `start` on, at least up to `stop`. -/
theorem eraseRange_run (ef : Ef Flat) (hl : Layout ef.sb) (hch : Chained ef.sb ef.dev.bytes n L)
    (start stop : Nat)
    (hstop : stop ≤ L.length * ef.sb.clusterSize) :
    ∃ b' index cluster zeros, eraseRange start stop ⟨ef, n⟩ =
        .ok (.ok ()) ⟨ef.upd b' ef.cmap.chunk ef.cmap.dirty ef.errors ef.ticks,
          n.place n.startCluster n.isContiguous index cluster n.isDirty⟩ ∧
      PointsInto L n.startCluster index cluster ∧ Inside ef.sb L ef.dev.bytes b' ∧
      stop ≤ start + zeros ∧
      content ef.sb b' L =
        writeBytes (content ef.sb ef.dev.bytes L) start (List.replicate zeros 0) := by
  have hcs := ef.sb.clusterSize_pos
  unfold eraseRange
  simp only [run_bind, run_get]
  by_cases hge : start ≥ stop
  · rw [if_pos hge]
    refine ⟨ef.dev.bytes, n.fptrIndex, n.fptrCluster, 0, rfl, hch.fptr,
      Inside.refl .., by omega, ?_⟩
    simp
  · rw [if_neg hge]
    have hdm := Nat.div_add_mod' start ef.sb.clusterSize
    have hmod := Nat.mod_lt start hcs
    have hq : start / ef.sb.clusterSize < L.length :=
      Nat.div_lt_of_lt_mul (by rw [Nat.mul_comm]; omega)
    have hqu : u32 (start / ef.sb.clusterSize) = start / ef.sb.clusterSize := by
      have h1 := hch.length_le
      have h2 := hl.count_lt
      exact Nat.mod_eq_of_lt (by omega)
    rw [hqu, or_clusterSize]
    -- the range begins in the cluster with the index `q`
    generalize hqd : start / ef.sb.clusterSize = q at *
    have hcv : Valid ef.sb L[q] := hch.valid _ (List.getElem_mem _)
    have hci : ef.sb.clusterInvalid L[q] = false := hcv
    have hnext : (q + 1) * ef.sb.clusterSize = q * ef.sb.clusterSize + ef.sb.clusterSize := by ring
    simp only [run_bind, exfatAdvanceCluster_run hch hq, hci,
      Bool.false_eq_true, if_false, run_onEf,
      run_exfatC2o hcv.two_le, run_eraseRaw, if_true]
    -- the part of the range in its first cluster
    have hfit : start % ef.sb.clusterSize + (List.replicate
        (min ((q + 1) * ef.sb.clusterSize) stop - start) (0 : UInt8)).length ≤
        ef.sb.clusterSize := by
      rw [List.length_replicate]
      omega
    have hin : Inside ef.sb L ef.dev.bytes _ :=
      inside_writeCluster hl hcv (List.getElem_mem hq) hfit
    have hwrite := content_writeCluster (b := ef.dev.bytes) hch.valid hch.nodup hq hfit
    rw [hdm] at hwrite
    -- the whole clusters after it
    have hm : q + divRoundUp (stop - (q + 1) * ef.sb.clusterSize) ef.sb.clusterSize < L.length := by
      have h1 : (q + 1) + divRoundUp (stop - (q + 1) * ef.sb.clusterSize) ef.sb.clusterSize ≤
          max (q + 1) L.length := by
        by_cases hle : stop ≤ (q + 1) * ef.sb.clusterSize
        · have h0 : divRoundUp (stop - (q + 1) * ef.sb.clusterSize) ef.sb.clusterSize ≤ 0 :=
            (divRoundUp_le_iff hcs).mpr (by omega)
          omega
        · have h0 : divRoundUp (stop - (q + 1) * ef.sb.clusterSize) ef.sb.clusterSize ≤
              L.length - (q + 1) := by
            rw [divRoundUp_le_iff hcs, Nat.sub_mul]
            omega
          omega
      omega
    obtain ⟨b', hrun, hin', hcont⟩ := eraseLoop_run (ef.upd (writeBytes ef.dev.bytes
        (clusterOffset ef.sb L[q] + start % ef.sb.clusterSize)
        (List.replicate (min ((q + 1) * ef.sb.clusterSize) stop - start) 0)) ef.cmap.chunk
        ef.cmap.dirty ef.errors ef.ticks) hl (hin.chained (hch.move hq)) _ q hm
    -- the last cluster is erased as a whole, so the zeros may go past `stop`
    refine ⟨b', q, L[q], min ((q + 1) * ef.sb.clusterSize) stop - start +
        divRoundUp (stop - (q + 1) * ef.sb.clusterSize) ef.sb.clusterSize * ef.sb.clusterSize,
      hrun, Or.inr (List.getElem?_eq_getElem hq), hin.trans hin', ?_, ?_⟩
    · have := le_divRoundUp_mul (stop - (q + 1) * ef.sb.clusterSize) hcs
      omega
    · simp only [Ef.upd_sb, Ef.upd_bytes] at hcont
      rw [hcont, hwrite, ← List.replicate_append_replicate, ← writeBytes_append,
        List.length_replicate]
      by_cases hle : stop ≤ (q + 1) * ef.sb.clusterSize
      · have h0 : divRoundUp (stop - (q + 1) * ef.sb.clusterSize) ef.sb.clusterSize ≤ 0 :=
          (divRoundUp_le_iff hcs).mpr (by omega)
        simp [Nat.le_zero.mp h0]
      · congr 1
        omega

/-! ### Steps on one file -/

/-- What the routines on the content of a node leave alone. -/
structure Kept (n n' : Node) : Prop where
  parent : n'.parent = n.parent
  child : n'.child = n.child
  references : n'.references = n.references
  entryOffset : n'.entryOffset = n.entryOffset
  attrib : n'.attrib = n.attrib
  continuations : n'.continuations = n.continuations
  isCached : n'.isCached = n.isCached
  isUnlinked : n'.isUnlinked = n.isUnlinked
  name : n'.name = n.name

/-- A node keeps what it has. -/
theorem Kept.refl (n : Node) : Kept n n := ⟨rfl, rfl, rfl, rfl, rfl, rfl, rfl, rfl, rfl⟩

/-- What is kept twice is kept. -/
theorem Kept.trans {n n' n'' : Node} (h : Kept n n') (h' : Kept n' n'') : Kept n n'' :=
  ⟨h'.parent.trans h.parent, h'.child.trans h.child, h'.references.trans h.references,
    h'.entryOffset.trans h.entryOffset, h'.attrib.trans h.attrib,
    h'.continuations.trans h.continuations, h'.isCached.trans h.isCached,
    h'.isUnlinked.trans h.isUnlinked, h'.name.trans h.name⟩

/-- A node that is moved to other clusters keeps the rest. -/
theorem Placed.kept {n n' : Node} (h : Placed n n') : Kept n n' := by
  rw [h]
  exact ⟨rfl, rfl, rfl, rfl, rfl, rfl, rfl, rfl, rfl⟩

/-- A node that is moved to other clusters keeps its size. -/
theorem Placed.size {n n' : Node} (h : Placed n n') : n'.size = n.size := by
  rw [h]
  rfl

/-- A node that is moved to other clusters keeps its valid size. -/
theorem Placed.validSize {n n' : Node} (h : Placed n n') : n'.validSize = n.validSize := by
  rw [h]
  rfl

/-- What is stored of the node on disk has not changed, or the node is dirty. -/
def Tracked (n n' : Node) : Prop :=
  n'.isDirty = true ∨
    (n'.isDirty = n.isDirty ∧ n'.startCluster = n.startCluster ∧
      n'.isContiguous = n.isContiguous ∧ n'.size = n.size ∧ n'.validSize = n.validSize ∧
      n'.mtime = n.mtime ∧ n'.atime = n.atime)

/-- A node that is as before needs no mark. -/
theorem Tracked.refl (n : Node) : Tracked n n := Or.inr ⟨rfl, rfl, rfl, rfl, rfl, rfl, rfl⟩

/-- A node stays marked when it is changed again. -/
theorem Tracked.trans {n n' n'' : Node} (h : Tracked n n') (h' : Tracked n' n'') :
    Tracked n n'' := by
  rcases h' with h' | ⟨h1, h2, h3, h4, h5, h6, h7⟩
  · exact Or.inl h'
  · rcases h with h | ⟨g1, g2, g3, g4, g5, g6, g7⟩
    · exact Or.inl (h1.trans h)
    · exact Or.inr ⟨h1.trans g1, h2.trans g2, h3.trans g3, h4.trans g4, h5.trans g5, h6.trans g6,
        h7.trans g7⟩

/-- A node that is moved to other clusters, and marked if it was, is tracked. -/
theorem Placed.tracked {n n' : Node} (h : Placed n n') (hm : Marked n n') : Tracked n n' := by
  rcases hm with hm | ⟨h1, h2, h3⟩
  · exact Or.inl hm
  · refine Or.inr ⟨h3, h1, h2, h.size, h.validSize, ?_, ?_⟩ <;> rw [h] <;> rfl

/-- A node with its clusters: a chain of the right length, marked in the bitmap. -/
structure File (ef : Ef Flat) (n : Node) (L : List Nat) : Prop where
  chained : Chained ef.sb ef.dev.bytes n L
  taken : Taken ef.cmap.chunk L
  length : L.length = divRoundUp n.size ef.sb.clusterSize
  valid : n.validSize ≤ n.size

instance (ef : Ef Flat) (n : Node) (L : List Nat) : Decidable (File ef n L) :=
  decidable_of_iff (Chained ef.sb ef.dev.bytes n L ∧ (∀ c ∈ L, ef.cmap.chunk (c - 2) = true) ∧
      L.length = divRoundUp n.size ef.sb.clusterSize ∧ n.validSize ≤ n.size)
    ⟨fun ⟨hchained, htaken, hlength, hvalid⟩ => ⟨hchained, htaken, hlength, hvalid⟩,
      fun h => ⟨h.chained, h.taken, h.length, h.valid⟩⟩

/-- A routine has worked on the file `n` with clusters `L`: the file has the clusters `L'` now, and
the rest of the volume is as it was. -/
structure FileStep (ef : Ef Flat) (n : Node) (L : List Nat) (ef' : Ef Flat) (n' : Node)
    (L' : List Nat) : Prop where
  upd : ∃ b chunk dirty errors ticks, ef' = ef.upd b chunk dirty errors ticks
  kept : Kept n n'
  file : File ef' n' L'
  moved : Moved ef.sb L L' ef.dev.bytes ef'.dev.bytes ef.cmap.chunk ef'.cmap.chunk

section FileStep

variable {ef ef' ef'' : Ef Flat} {n n' n'' : Node} {L L' L'' : List Nat}

/-- A file is a step of itself. -/
theorem FileStep.refl (h : File ef n L) : FileStep ef n L ef n L :=
  ⟨⟨_, _, _, _, _, ef.upd_self.symm⟩, Kept.refl n, h, Moved.refl _ _ h.taken⟩

/-- The steps on a file leave the superblock alone. -/
theorem FileStep.sb (h : FileStep ef n L ef' n' L') : ef'.sb = ef.sb := by
  obtain ⟨b, chunk, dirty, errors, ticks, rfl⟩ := h.upd
  rfl

/-- The steps on a file leave the volume ready. -/
theorem FileStep.ready (h : FileStep ef n L ef' n' L') (hr : Ready ef) : Ready ef' := by
  obtain ⟨b, chunk, dirty, errors, ticks, rfl⟩ := h.upd
  exact hr.upd ..

/-- Two steps on a file are one. -/
theorem FileStep.trans (h : FileStep ef n L ef' n' L') (h' : FileStep ef' n' L' ef'' n'' L'') :
    FileStep ef n L ef'' n'' L'' := by
  have hsb := h.sb
  have hsb' := h'.sb
  refine ⟨?_, h.kept.trans h'.kept, h'.file, ?_⟩
  · obtain ⟨b, chunk, dirty, errors, ticks, rfl⟩ := h.upd
    obtain ⟨b', chunk', dirty', errors', ticks', rfl⟩ := h'.upd
    exact ⟨b', chunk', dirty', errors', ticks', by simp⟩
  · have hm := h'.moved
    have hv := h'.file.chained.valid
    rw [hsb] at hm
    rw [hsb', hsb] at hv
    exact h.moved.trans hm hv

end FileStep

/-! ### `exfat_truncate` -/

/-- What adding or removing clusters does to a file: nothing to the content that stays. -/
theorem resizeFile_run (hr : Ready ef) (hch : Chained ef.sb ef.dev.bytes n L)
    (ht : Taken ef.cmap.chunk L) (c2 : Nat) :
    ∃ r b' chunk' dirty' errors' n' L', resizeFile L.length c2 ⟨ef, n⟩ =
        .ok r ⟨ef.upd b' chunk' dirty' errors' ef.ticks, n'⟩ ∧
      Placed n n' ∧ Chained ef.sb b' n' L' ∧
      Moved ef.sb L L' ef.dev.bytes b' ef.cmap.chunk chunk' ∧
      (∀ p, p < min L.length L'.length * ef.sb.clusterSize →
        content ef.sb b' L' p = content ef.sb ef.dev.bytes L p) ∧
      ((r = .ok () ∧ L'.length = c2 ∧ (L <+: L' ∨ L' <+: L) ∧
          (Ended ef.sb ef.dev.bytes n L → Ended ef.sb b' n' L')) ∨
        (r = .error .enospc ∧ L.length < c2 ∧ L' = L ∧ Marked n n')) := by
  unfold resizeFile
  -- More clusters, fewer, or as many as there are.
  by_cases hlt : L.length < c2
  · rw [if_pos hlt]
    obtain ⟨r, s, b', chunk', dirty', errors', n', L', hrun, rfl, hpl, hch', hmv, hdata, hcase⟩ :=
      growFile_run hr hch ht (k := c2 - L.length) (by omega)
    have hcont : ∀ M, content ef.sb b' M = content ef.sb ef.dev.bytes M :=
      fun M => content_congr fun c _ o _ => hdata c o
    refine ⟨r, b', chunk', dirty', errors', n', L', hrun, hpl, hch', hmv, ?_, ?_⟩
    · intro p hp
      rw [hcont]
      -- the clusters that were there keep their bytes, in either outcome
      rcases hcase with ⟨_, ⟨A, rfl, _⟩, _, _⟩ | ⟨_, rfl, _⟩
      · rw [List.length_append, Nat.min_eq_left (by omega)] at hp
        exact content_append _ hp
      · rfl
    · rcases hcase with ⟨rfl, ⟨A, rfl, hA⟩, _, hended⟩ | ⟨rfl, rfl, hmk⟩
      · left
        refine ⟨rfl, ?_, Or.inl (List.prefix_append L A), fun _ => hended⟩
        rw [List.length_append, hA]
        omega
      · exact Or.inr ⟨rfl, hlt, rfl, hmk⟩
  · rw [if_neg hlt]
    by_cases hgt : L.length > c2
    · rw [if_pos hgt]
      have hsplit := List.take_append_drop c2 L
      have hdrop : (L.drop c2).length = L.length - c2 := List.length_drop
      have htake : (L.take c2).length = c2 := by
        rw [List.length_take]
        omega
      rw [← hsplit] at hch ht
      obtain ⟨b', chunk', dirty', n', hrun, hpl, hmk, _, hch', hmv, hended, hdata⟩ :=
        shrinkFile_run hr hch ht (by rw [← List.length_pos_iff_ne_nil]; omega)
      rw [hsplit, hdrop] at hrun
      rw [hsplit] at hmv
      refine ⟨.ok (), b', chunk', dirty', ef.errors, n', L.take c2, hrun, hpl, hch', hmv, ?_,
        Or.inl ⟨rfl, htake, Or.inr (List.take_prefix c2 L), fun _ => hended⟩⟩
      intro p hp
      rw [htake, Nat.min_eq_right (by omega)] at hp
      rw [content_congr fun c _ o _ => hdata c o]
      have happ := content_append ef.sb (b := ef.dev.bytes) (L := L.take c2)
        (A := L.drop c2) (p := p) (by rwa [htake])
      rw [hsplit] at happ
      exact happ.symm
    -- nothing to do for the clusters
    · rw [if_neg hgt]
      exact ⟨.ok (), ef.dev.bytes, ef.cmap.chunk, ef.cmap.dirty, ef.errors, n, L, rfl,
        Placed.refl n, hch, Moved.refl _ _ ht, fun _ _ => rfl,
        Or.inl ⟨rfl, by omega, Or.inl (List.prefix_refl L), id⟩⟩

/-- What `exfat_truncate` returns, and the sizes of the node after it. -/
def Truncated (size : Nat) (erase : Bool) (n : Node) (r : Rc) (n' : Node) : Prop :=
  (r = .ok () ∧ n'.size = size ∧
    n'.validSize = if n.size =
    size then n.validSize else if erase then size else min n.validSize size) ∨
  (r = .error .enospc ∧ n.size < size ∧ n'.size = n.size ∧ n'.validSize = n.validSize)

/-- `exfat_truncate` sets the size, or finds no space and leaves the file as it was.  Bytes that
were valid before and are valid now are the same; those that have become valid are zeros. -/
theorem exfatTruncate_run (hr : Ready ef) (hf : File ef n L) {size : Nat}
    (hsize : divRoundUp size ef.sb.clusterSize < 2 ^ 32) (href : n.references = 0 → n.parent = none)
    (erase : Bool) :
    ∃ r ef' n' L', exfatTruncate size erase ⟨ef, n⟩ = .ok r ⟨ef', n'⟩ ∧
      FileStep ef n L ef' n' L' ∧ (L <+: L' ∨ L' <+: L) ∧
      (r = .ok () → Ended ef.sb ef.dev.bytes n L → Ended ef.sb ef'.dev.bytes n' L') ∧ Tracked n n' ∧
        Truncated size erase n r n' ∧
      (erase = false → ∀ p, p < min L.length L'.length * ef.sb.clusterSize →
        content ef.sb ef'.dev.bytes L' p = content ef.sb ef.dev.bytes L p) ∧
      ∀ p, p < n'.validSize → content ef.sb ef'.dev.bytes L' p =
        if p < n.validSize then content ef.sb ef.dev.bytes L p else 0 := by
  have hcs := ef.sb.clusterSize_pos
  have hl := hr.layout
  have hlen := hf.chained.length_le
  have hcount := hl.count_lt
  have hc1 : bytes2clusters ef.sb n.size = L.length := by
    rw [bytes2clusters_eq hl (by rw [← hf.length]; omega), hf.length]
  have hc2 := bytes2clusters_eq hl hsize
  have hold : n.size ≤ L.length * ef.sb.clusterSize := by
    rw [hf.length]
    exact le_divRoundUp_mul _ hcs
  unfold exfatTruncate
  simp only [run_bind, run_get]
  -- the assertion at the head of the function: a node without references has no parent
  rw [if_neg (by rintro ⟨h0, h1⟩; rw [href h0] at h1; cases h1)]
  by_cases hsame : n.size = size
  · rw [if_pos hsame]
    refine ⟨_, ef, n, L, rfl, FileStep.refl hf, Or.inl (List.prefix_refl L),
      fun _ => id, Tracked.refl n,
      Or.inl ⟨rfl, hsame, ?_⟩, fun _ _ _ => rfl, ?_⟩
    · rw [if_pos hsame]
    · intro p hp
      rw [if_pos hp]
  · rw [if_neg hsame, hc1, hc2]
    obtain ⟨r, b₁, chunk₁, dirty₁, errors₁, n₁, L₁, hrun, hpl, hch₁, hmv, hcont, hcase⟩ :=
      resizeFile_run hr hf.chained hf.taken (divRoundUp size ef.sb.clusterSize)
    rw [run_bind, hrun]
    -- The clusters are there, or there was no space and nothing has changed.
    rcases hcase with ⟨rfl, hlen₁, hpre, hended⟩ | ⟨rfl, hgrow, rfl, hmk⟩
    · have hnew : size ≤ L₁.length * ef.sb.clusterSize := by
        rw [hlen₁]
        exact le_divRoundUp_mul _ hcs
      have hcont₁ : ∀ p, p < n.validSize → p < size →
          content ef.sb b₁ L₁ p = content ef.sb ef.dev.bytes L p := by
        intro p hp1 hp2
        apply hcont
        have := hf.valid
        rw [← Nat.mul_min_mul_right]
        omega
      have htaken := hmv.taken hch₁.valid
      -- What becomes valid is erased, or stays invalid behind `valid_size`.
      cases erase with
      | true =>
        obtain ⟨b₂, index, cluster, zeros, herase, hfptr, hin, hzeros, hcont₂⟩ := eraseRange_run
          (ef.upd b₁ chunk₁ dirty₁ errors₁ ef.ticks) hl hch₁ n₁.validSize size hnew
        simp only [Ef.upd_sb, Ef.upd_bytes] at hin hcont₂
        have hch₂ := hin.chained hch₁
        simp only [if_true, run_bind, run_get, herase, run_modifyNode, setSize, exfatUpdateMtime,
          run_onEf, run_timeNow, run_pure]
        refine ⟨_, _, _, L₁, rfl, ⟨⟨b₂, chunk₁, dirty₁, errors₁, ef.ticks + 1, rfl⟩, ?_, ?_, ?_⟩,
          hpre, fun _ he => hin.ended hch₁.valid (hended he), Or.inl rfl,
          Or.inl ⟨rfl, rfl, ?_⟩, nofun, ?_⟩
        · exact hpl.kept.trans ⟨rfl, rfl, rfl, rfl, rfl, rfl, rfl, rfl, rfl⟩
        · exact ⟨⟨hch₂.follows, hch₂.valid, hch₂.nodup, hfptr, hch₂.empty⟩, htaken, hlen₁,
            Nat.le_refl size⟩
        · exact hmv.trans (hin.moved htaken) hch₁.valid
        · rw [if_neg hsame]
          rfl
        · intro p (hp : p < size)
          show content ef.sb b₂ L₁ p = _
          have hvalid := hpl.validSize
          rw [hcont₂, writeBytes_apply, List.length_replicate, hvalid]
          by_cases hpv : p < n.validSize
          · rw [if_neg (by omega), if_pos hpv, hcont₁ p hpv hp]
          · rw [if_pos (by omega), if_neg hpv, List.getD_eq_getElem _ _ (by simp; omega)]
            simp
      | false =>
        simp only [Bool.false_eq_true, if_false, run_bind, run_modifyNode, setSize,
          exfatUpdateMtime, run_onEf, run_timeNow, run_pure]
        refine ⟨_, _, _, L₁, rfl, ⟨⟨b₁, chunk₁, dirty₁, errors₁, ef.ticks + 1, rfl⟩, ?_, ?_, hmv⟩,
          hpre, fun _ => hended, Or.inl rfl, Or.inl ⟨rfl, rfl, ?_⟩, fun _ p hp => hcont p hp, ?_⟩
        · exact hpl.kept.trans ⟨rfl, rfl, rfl, rfl, rfl, rfl, rfl, rfl, rfl⟩
        · exact ⟨⟨hch₁.follows, hch₁.valid, hch₁.nodup, hch₁.fptr, hch₁.empty⟩, htaken, hlen₁,
            Nat.min_le_right _ _⟩
        · rw [if_neg hsame]
          simp [hpl.validSize]
        · intro p (hp : p < min n₁.validSize size)
          rw [hpl.validSize] at hp
          rw [if_pos (by omega)]
          exact hcont₁ p (by omega) (by omega)
    -- only a growth can fail for want of space
    · have hgrow' : n.size < size := by
        by_contra hge
        have h1 : divRoundUp size ef.sb.clusterSize ≤ L₁.length :=
          (divRoundUp_le_iff hcs).mpr (by omega)
        omega
      refine ⟨_, _, n₁, L₁, rfl, ⟨⟨b₁, chunk₁, dirty₁, errors₁, ef.ticks, rfl⟩, hpl.kept, ?_, hmv⟩,
        Or.inl (List.prefix_refl L₁), nofun, hpl.tracked hmk,
        Or.inr ⟨rfl, hgrow', hpl.size, hpl.validSize⟩, fun _ p hp => hcont p hp, ?_⟩
      · refine ⟨hch₁, hmv.taken hch₁.valid, ?_, ?_⟩
        · rw [hpl.size]
          exact hf.length
        · rw [hpl.size, hpl.validSize]
          exact hf.valid
      · intro p hp
        rw [hpl.validSize] at hp
        rw [if_pos hp]
        apply hcont
        have := hf.valid
        rw [Nat.min_self]
        omega

end ExFat
