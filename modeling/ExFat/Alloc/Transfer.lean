import ExFat.Alloc.Truncate

namespace ExFat

open Bytes Program Chain

/-!
# Reading and writing through the chain

The loops of `exfat_generic_pread` and `exfat_generic_pwrite` go from cluster to cluster with a
part of one at either end.  In terms of the content of the file they are one read and one write.
-/

section Span

variable {cs loffset size : Nat}

/-- The first cluster of a range takes what fits in it. -/
theorem clusterSpan_succ (hcs : 0 < cs) (hlo : loffset < cs) (hsize : 0 < size) :
    clusterSpan cs loffset size = clusterSpan cs 0 (size - min (cs - loffset) size) + 1 := by
  unfold clusterSpan
  rw [if_neg (by omega)]
  by_cases hle : size ≤ cs - loffset
  · rw [Nat.min_eq_right hle, Nat.sub_self, if_pos rfl]
    have h1 : divRoundUp (loffset + size) cs ≤ 1 := (divRoundUp_le_iff hcs).mpr (by omega)
    have h2 : 0 < divRoundUp (loffset + size) cs := (lt_divRoundUp_iff hcs).mpr (by omega)
    omega
  · rw [Nat.min_eq_left (by omega), if_neg (by omega)]
    unfold divRoundUp
    rw [show loffset + size + cs - 1 = 0 + (size - (cs - loffset)) + cs - 1 + cs by omega,
      Nat.add_div_right _ hcs]

/-- Only an empty transfer touches no cluster. -/
theorem clusterSpan_eq_zero (hcs : 0 < cs) : clusterSpan cs loffset size = 0 ↔ size = 0 := by
  unfold clusterSpan
  by_cases h : size = 0
  · simp [h]
  · have : 0 < divRoundUp (loffset + size) cs := (lt_divRoundUp_iff hcs).mpr (by omega)
    simp only [h, if_false, iff_false]
    omega

/-- After its first cluster a range goes on, if it does, at the start of the next one. -/
theorem range_next {i len : Nat} (hlo : loffset < cs) (hi : i < len)
    (hend : i * cs + loffset + size ≤ len * cs) :
    (i + 1) * cs + 0 + (size - min (cs - loffset) size) ≤ len * cs ∧
      (0 < size - min (cs - loffset) size → i + 1 < len) := by
  have hle : (i + 1) * cs ≤ len * cs := Nat.mul_le_mul_right _ hi
  have hsucc : (i + 1) * cs = i * cs + cs := by rw [Nat.add_mul, Nat.one_mul]
  refine ⟨by omega, ?_⟩
  intro hrest
  by_contra hge
  have h1 : len * cs ≤ (i + 1) * cs := Nat.mul_le_mul_right _ (by omega)
  omega

end Span

/-- What lies in one cluster of a file is read from its content. -/
theorem readBytes_cluster {sb : SuperBlock} {b : Store} {L : List Nat} {i o len : Nat}
    (hi : i < L.length) (hfit : o + len ≤ sb.clusterSize) :
    readBytes b (clusterOffset sb L[i] + o) len =
      readBytes (content sb b L) (i * sb.clusterSize + o) len := by
  have hcs := sb.clusterSize_pos
  apply readBytes_congr
  intro j hj
  have hdiv : (i * sb.clusterSize + o + j) / sb.clusterSize = i := by
    apply Nat.div_eq_of_lt_le
    · omega
    · rw [Nat.add_mul, Nat.one_mul]
      omega
  have hmod : (i * sb.clusterSize + o + j) % sb.clusterSize = o + j := by
    rw [Nat.add_assoc, Nat.mul_comm, Nat.mul_add_mod, Nat.mod_eq_of_lt (by omega)]
  unfold content
  rw [hdiv, List.getElem?_eq_getElem hi, hmod]
  show b _ = b _
  rw [Nat.add_assoc]

variable {ef : Ef Flat} {n : Node} {L : List Nat}

/-- Only the place of a node matters for its chain. -/
theorem Chained.of_place {sb : SuperBlock} {b : Store} {n' : Node} (h : Chained sb b n L)
    (hs : n'.startCluster = n.startCluster) (hc : n'.isContiguous = n.isContiguous)
    (hi : n'.fptrIndex = n.fptrIndex) (hf : n'.fptrCluster = n.fptrCluster) :
    Chained sb b n' L := by
  refine ⟨?_, h.valid, h.nodup, ?_, ?_⟩
  · rw [hs, hc]
    exact h.follows
  · rw [hs, hi, hf]
    exact h.fptr
  · rw [hs]
    exact h.empty

/-- The cluster after the `i`-th, when the range goes on there. -/
theorem next_getElem {sb : SuperBlock} {b : Store} (h : Chained sb b n L) {i : Nat}
    (hi : i < L.length) {P : Prop} (hlt : P → i + 1 < L.length) :
    P → L[i + 1]? = some (nextOf sb b n.isContiguous L[i]) := by
  intro hp
  rw [List.getElem?_eq_getElem (hlt hp), h.follows.succ_getElem (hlt hp)]

/-! ### Reading -/

/-- The read loop returns the bytes of the range and changes nothing. -/
theorem preadLoop_run (hch : Chained ef.sb ef.dev.bytes n L) (m i cluster loffset remainder : Nat)
    (hm : m = clusterSpan ef.sb.clusterSize loffset remainder) (hlo : loffset < ef.sb.clusterSize)
    (hend : i * ef.sb.clusterSize + loffset + remainder ≤ L.length * ef.sb.clusterSize)
    (hi : 0 < remainder → L[i]? = some cluster) :
    preadLoop m cluster loffset remainder ⟨ef, n⟩ =
      .ok (.ok (readBytes (content ef.sb ef.dev.bytes L) (i * ef.sb.clusterSize + loffset)
        remainder)) ⟨ef, n⟩ := by
  have hcs := ef.sb.clusterSize_pos
  -- On the clusters that the range still touches.
  induction m generalizing i cluster loffset remainder with
  | zero =>
    have h0 : remainder = 0 := (clusterSpan_eq_zero hcs).mp hm.symm
    rw [h0, readBytes_zero]
    rfl
  | succ m ih =>
    have hpos : 0 < remainder := by
      by_contra h0
      have : clusterSpan ef.sb.clusterSize loffset remainder = 0 :=
        (clusterSpan_eq_zero hcs).mpr (by omega)
      omega
    obtain ⟨hlt, rfl⟩ := List.getElem?_eq_some_iff.mp (hi hpos)
    have hcv : Valid ef.sb L[i] := hch.valid _ (List.getElem_mem _)
    have hci : ef.sb.clusterInvalid L[i] = false := hcv
    rw [clusterSpan_succ hcs hlo hpos] at hm
    have hlsize : loffset + min (ef.sb.clusterSize - loffset) remainder ≤ ef.sb.clusterSize := by
      omega
    unfold preadLoop
    simp only [run_bind, run_get, hci, Bool.false_eq_true, if_false, run_onEf,
      run_exfatC2o hcv.two_le, run_exfatPread, exfatNextCluster_run hcv.two_le]
    -- the next step starts at the beginning of the next cluster
    obtain ⟨hnext, hgo⟩ := range_next hlo hlt hend
    rw [ih (i + 1) _ 0 _ (by omega) hcs hnext (next_getElem hch hlt hgo),
      readBytes_cluster hlt hlsize]
    simp only [run_pure]
    -- a range that ends in this cluster, or goes on behind it
    by_cases hrest : remainder ≤ ef.sb.clusterSize - loffset
    · simp [Nat.min_eq_right hrest, readBytes_zero]
    · rw [Nat.min_eq_left (by omega)]
      have hadd := readBytes_add (content ef.sb ef.dev.bytes L) (i * ef.sb.clusterSize + loffset)
        (ef.sb.clusterSize - loffset) (remainder - (ef.sb.clusterSize - loffset))
      rw [show ef.sb.clusterSize - loffset + (remainder - (ef.sb.clusterSize - loffset)) = remainder
        by omega] at hadd
      rw [hadd, Nat.add_zero, show (i + 1) * ef.sb.clusterSize =
        i * ef.sb.clusterSize + loffset + (ef.sb.clusterSize - loffset) by
          rw [Nat.add_mul, Nat.one_mul]; omega]

/-- Moving the file pointer of a file. -/
theorem File.move (hf : File ef n L) {i : Nat} (hi : i < L.length) :
    File ef { n with fptrIndex := i, fptrCluster := L[i] } L :=
  ⟨hf.chained.move hi, hf.taken, hf.length, hf.valid⟩

/-- The cluster that holds a byte of the file, as `exfat_advance_cluster` counts it. -/
theorem File.index_lt (hf : File ef n L) {p : Nat} (hp : p < n.size) :
    p / ef.sb.clusterSize < L.length := by
  have h := le_divRoundUp_mul n.size ef.sb.clusterSize_pos
  rw [← hf.length] at h
  exact Nat.div_lt_of_lt_mul (by rw [Nat.mul_comm]; omega)

/-- The index of a cluster of a file fits into 32 bits. -/
theorem File.u32_index (hr : Ready ef) (hf : File ef n L) {p : Nat} (hp : p < n.size) :
    u32 (p / ef.sb.clusterSize) = p / ef.sb.clusterSize := by
  have h1 := hf.index_lt hp
  have h2 := hf.chained.length_le
  have h3 := hr.layout.count_lt
  exact Nat.mod_eq_of_lt (by omega)

/-- `exfat_generic_pread` within the valid bytes: they are read, and `atime` may be updated. -/
theorem preadValid_run (hr : Ready ef) (hf : File ef n L) (size uoffset : Nat)
    (hoff : uoffset < n.size) :
    ∃ ef' n', preadValid size uoffset ⟨ef, n⟩ = .ok (.ok (min size (n.size - uoffset),
        readBytes (content ef.sb ef.dev.bytes L) uoffset (min size (n.size - uoffset)))) ⟨ef', n'⟩ ∧
      FileStep ef n L ef' n' L ∧ Tracked n n' ∧ n'.size = n.size ∧ n'.validSize = n.validSize ∧
      ef'.dev.bytes = ef.dev.bytes := by
  have hcs := ef.sb.clusterSize_pos
  have hq := hf.index_lt hoff
  have hmove := hf.move hq
  have hcv : Valid ef.sb L[uoffset / ef.sb.clusterSize] := hf.chained.valid _ (List.getElem_mem _)
  have hci : ef.sb.clusterInvalid L[uoffset / ef.sb.clusterSize] = false := hcv
  have hdm := Nat.div_add_mod' uoffset ef.sb.clusterSize
  have hend : n.size ≤ L.length * ef.sb.clusterSize := by
    rw [hf.length]
    exact le_divRoundUp_mul _ hcs
  have hread := preadLoop_run hmove.chained _ (uoffset / ef.sb.clusterSize)
    L[uoffset / ef.sb.clusterSize] (uoffset % ef.sb.clusterSize) (min size (n.size - uoffset)) rfl
    (Nat.mod_lt _ hcs) (by rw [hdm]; omega) (fun _ => List.getElem?_eq_getElem hq)
  rw [hdm] at hread
  unfold preadValid
  simp only [run_bind, run_get, hf.u32_index hr hoff, exfatAdvanceCluster_run hf.chained hq, hci,
    Bool.false_eq_true, if_false, hread]
  have hkept : Kept n { n with
      fptrIndex := uoffset / ef.sb.clusterSize
      fptrCluster := L[uoffset / ef.sb.clusterSize] } :=
        ⟨rfl, rfl, rfl, rfl, rfl, rfl, rfl, rfl, rfl⟩
  -- the access time is written for a file on a volume that allows it
  by_cases hup : (!n.isDir && !ef.ro && !ef.noatime) = true
  · have hup' : (!Node.isDir { n with
        fptrIndex := uoffset / ef.sb.clusterSize
        fptrCluster := L[uoffset / ef.sb.clusterSize] } && !ef.ro && !ef.noatime) = true := hup
    rw [if_pos hup']
    refine ⟨_, _, rfl, ⟨⟨_, _, _, _, _, rfl⟩, ?_, ?_, Moved.refl _ _ hf.taken⟩,
      Or.inl rfl, rfl, rfl,
      rfl⟩
    · exact hkept.trans ⟨rfl, rfl, rfl, rfl, rfl, rfl, rfl, rfl, rfl⟩
    · exact ⟨hmove.chained.of_place rfl rfl rfl rfl, hf.taken, hf.length, hf.valid⟩
  · have hup' : ¬ (!Node.isDir { n with
        fptrIndex := uoffset / ef.sb.clusterSize
        fptrCluster := L[uoffset / ef.sb.clusterSize] } && !ef.ro && !ef.noatime) = true := hup
    rw [if_neg hup']
    exact ⟨_, _, rfl, ⟨⟨_, _, _, _, _, ef.upd_self.symm⟩, hkept, hmove, Moved.refl _ _ hf.taken⟩,
      Or.inr ⟨rfl, rfl, rfl, rfl, rfl, rfl, rfl⟩, rfl, rfl, rfl⟩

/-- `exfat_generic_pread` on a file all of whose bytes are valid returns the bytes of the range
that lie in the file. -/
theorem exfatGenericPread_run (hr : Ready ef) (hf : File ef n L) (hvs : n.validSize = n.size)
    (size uoffset : Nat) (hfit : uoffset + size < 2 ^ 64) :
    ∃ ef' n', exfatGenericPread size uoffset ⟨ef, n⟩ = .ok (.ok (min size (n.size - uoffset),
        readBytes (content ef.sb ef.dev.bytes L) uoffset (min size (n.size - uoffset)))) ⟨ef', n'⟩ ∧
      FileStep ef n L ef' n' L ∧ Tracked n n' ∧ n'.size = n.size ∧ n'.validSize = n.validSize ∧
      ef'.dev.bytes = ef.dev.bytes := by
  have hdone : FileStep ef n L ef n L ∧ Tracked n n ∧ n.size = n.size ∧ n.validSize = n.validSize ∧
      ef.dev.bytes = ef.dev.bytes := ⟨FileStep.refl hf, Tracked.refl n, rfl, rfl, rfl⟩
  have hnat : (uoffset : Int).toNat = uoffset := rfl
  have hu64 : u64 (uoffset + size) = uoffset + size := Nat.mod_eq_of_lt hfit
  unfold exfatGenericPread
  simp only [run_bind, run_get, hnat, hu64]
  rw [if_neg (by omega)]
  -- Behind the end, nothing asked for, reaching over the valid part, or within it.
  by_cases hge : uoffset ≥ n.size
  · rw [if_pos hge]
    refine ⟨ef, n, ?_, hdone⟩
    simp [Nat.sub_eq_zero_of_le hge, readBytes_zero]
  · rw [if_neg hge]
    by_cases h0 : size = 0
    · rw [if_pos h0]
      refine ⟨ef, n, ?_, hdone⟩
      simp [h0, readBytes_zero]
    · rw [if_neg h0]
      by_cases hgt : uoffset + size > n.validSize
      · -- the source asks itself for the valid part and fills the rest with zeros: there is no rest
        rw [if_pos hgt, if_pos (by omega)]
        obtain ⟨ef', n', hrun, hstep⟩ := preadValid_run hr hf (n.validSize - uoffset) uoffset
          (by omega)
        refine ⟨ef', n', ?_, hstep⟩
        rw [hvs, Nat.min_self] at hrun
        rw [run_bind, hvs, hrun]
        simp only [Nat.lt_irrefl, if_false]
        have hzero : sub64 n.size n.size = 0 := by
          unfold sub64
          rw [Nat.add_sub_cancel_left, Nat.mod_self]
        rw [hzero, Nat.min_zero, List.replicate_zero, List.append_nil,
          Nat.min_eq_right (by omega)]
        rfl
      · rw [if_neg hgt]
        exact preadValid_run hr hf size uoffset (by omega)

/-! ### Writing -/

/-- The write loop writes its data into the content and raises `valid_size`. -/
theorem pwriteLoop_run (hl : Layout ef.sb) (hch : Chained ef.sb ef.dev.bytes n L)
    (m i cluster loffset done uoffset : Nat) (data : List UInt8)
    (hm : m = clusterSpan ef.sb.clusterSize loffset data.length)
    (hlo : loffset < ef.sb.clusterSize)
    (hend : i * ef.sb.clusterSize + loffset + data.length ≤ L.length * ef.sb.clusterSize)
    (hi : 0 < data.length → L[i]? = some cluster) :
    ∃ b', pwriteLoop uoffset m cluster loffset done data ⟨ef, n⟩ =
        .ok (.ok ()) ⟨ef.upd b' ef.cmap.chunk ef.cmap.dirty ef.errors ef.ticks,
          { n with validSize := if data = [] then n.validSize
              else max n.validSize (uoffset + (done + data.length)) }⟩ ∧
      Inside ef.sb L ef.dev.bytes b' ∧
      content ef.sb b' L = writeBytes (content ef.sb ef.dev.bytes L)
        (i * ef.sb.clusterSize + loffset) data := by
  have hcs := ef.sb.clusterSize_pos
  -- On the clusters that the data still touches; `done` counts the bytes already written.
  induction m generalizing ef n i cluster loffset done data with
  | zero =>
    have h0 : data = [] := List.length_eq_zero_iff.mp ((clusterSpan_eq_zero hcs).mp hm.symm)
    subst h0
    exact ⟨ef.dev.bytes, rfl, Inside.refl .., by simp⟩
  | succ m ih =>
    have hpos : 0 < data.length := by
      by_contra h0
      have : clusterSpan ef.sb.clusterSize loffset data.length = 0 :=
        (clusterSpan_eq_zero hcs).mpr (by omega)
      omega
    have hne : data ≠ [] := List.length_pos_iff_ne_nil.mp hpos
    obtain ⟨hlt, rfl⟩ := List.getElem?_eq_some_iff.mp (hi hpos)
    have hcv : Valid ef.sb L[i] := hch.valid _ (List.getElem_mem _)
    have hci : ef.sb.clusterInvalid L[i] = false := hcv
    rw [clusterSpan_succ hcs hlo hpos] at hm
    obtain ⟨hnext, hgo⟩ := range_next hlo hlt hend
    -- `k` bytes go into this cluster
    generalize hk : min (ef.sb.clusterSize - loffset) data.length = k at *
    have htake : (data.take k).length = k := by
      rw [List.length_take]
      omega
    have hdrop : (data.drop k).length = data.length - k := List.length_drop
    have hfit : loffset + (data.take k).length ≤ ef.sb.clusterSize := by omega
    have hin : Inside ef.sb L ef.dev.bytes _ :=
      inside_writeCluster hl hcv (List.getElem_mem hlt) hfit
    have hwrite := content_writeCluster (b := ef.dev.bytes) hch.valid hch.nodup hlt hfit
    -- the state after the first cluster has been written
    let ef1 := ef.upd (writeBytes ef.dev.bytes (clusterOffset ef.sb L[i] + loffset) (data.take k))
      ef.cmap.chunk ef.cmap.dirty ef.errors ef.ticks
    let n1 := { n with validSize := max n.validSize (uoffset + (done + k)) }
    have hch1 : Chained ef1.sb ef1.dev.bytes n1 L := (hin.chained hch).of_place rfl rfl rfl rfl
    obtain ⟨b', hrun, hin', hcont⟩ := @ih ef1 n1 hl hch1 (i + 1)
      (nextOf ef1.sb ef1.dev.bytes n1.isContiguous L[i]) 0 (done + k) (data.drop k)
      (by rw [hdrop]; exact Nat.succ.inj hm) hcs (by rw [hdrop]; exact hnext)
      (next_getElem hch1 hlt (by rw [hdrop]; exact hgo)) hcs
    refine ⟨b', ?_, hin.trans hin', ?_⟩
    · unfold pwriteLoop
      simp only [run_bind, run_get, hci, Bool.false_eq_true, if_false, run_onEf,
        run_exfatC2o hcv.two_le, run_exfatPwrite, run_modifyNode, hk]
      rw [exfatNextCluster_run (by exact hcv.two_le)]
      -- `valid_size` has been raised by each step, and stands at the end of the data
      refine hrun.trans ?_
      have hvalid : (if data.drop k = [] then n1.validSize
          else max n1.validSize (uoffset + (done + k + (data.drop k).length))) =
          if data = [] then n.validSize else max n.validSize (uoffset + (done + data.length)) := by
        rw [if_neg hne]
        by_cases hrest : data.drop k = []
        · have : data.length ≤ k := List.drop_eq_nil_iff.mp hrest
          rw [if_pos hrest]
          show max n.validSize (uoffset + (done + k)) = _
          omega
        · rw [if_neg hrest, hdrop]
          show max (max n.validSize (uoffset + (done + k))) _ = _
          omega
      rw [hvalid]
      rfl
    · simp only [ef1, Ef.upd_sb, Ef.upd_bytes] at hcont
      rw [hcont, hwrite]
      have happ := writeBytes_append (content ef.sb ef.dev.bytes L)
        (i * ef.sb.clusterSize + loffset) (data.take k) (data.drop k)
      rw [List.take_append_drop, htake] at happ
      rw [← happ, Nat.add_zero]
      by_cases hrest : data.drop k = []
      · simp [hrest]
      · have : k < data.length := by
          by_contra hge
          exact hrest (List.drop_eq_nil_iff.mpr (by omega))
        congr 1
        rw [Nat.add_mul, Nat.one_mul]
        omega

/-- `exfat_generic_pwrite` into a file that is large enough: the data is in the content. -/
theorem pwriteValid_run (hr : Ready ef) (hf : File ef n L) (data : List UInt8) (uoffset : Nat)
    (hend : uoffset + data.length ≤ n.size) :
    ∃ ef' n', pwriteValid data uoffset ⟨ef, n⟩ = .ok (.ok data.length) ⟨ef', n'⟩ ∧
      FileStep ef n L ef' n' L ∧
      (n.isDir = false ∨ n.validSize = n.size ∨ n.isDirty = true → Tracked n n') ∧
      n'.size = n.size ∧
      n'.validSize = (if data = [] then n.validSize else max n.validSize (uoffset + data.length)) ∧
      content ef.sb ef'.dev.bytes L = writeBytes (content ef.sb ef.dev.bytes L) uoffset data := by
  have hcs := ef.sb.clusterSize_pos
  unfold pwriteValid
  simp only [run_bind, run_get]
  by_cases h0 : data.length = 0
  · have hnil : data = [] := List.length_eq_zero_iff.mp h0
    subst hnil
    rw [if_pos rfl]
    exact ⟨ef, n, rfl, FileStep.refl hf, fun _ => Tracked.refl n, rfl, rfl, by simp⟩
  · have hne : data ≠ [] := by
      rintro rfl
      exact h0 rfl
    have hoff : uoffset < n.size := by omega
    have hq := hf.index_lt hoff
    have hmove := hf.move hq
    have hci : ef.sb.clusterInvalid L[uoffset / ef.sb.clusterSize] = false :=
      hf.chained.valid _ (List.getElem_mem _)
    have hdm := Nat.div_add_mod' uoffset ef.sb.clusterSize
    have hlen : n.size ≤ L.length * ef.sb.clusterSize := by
      rw [hf.length]
      exact le_divRoundUp_mul _ hcs
    obtain ⟨b', hrun, hin, hcont⟩ := pwriteLoop_run hr.layout hmove.chained _
      (uoffset / ef.sb.clusterSize) L[uoffset / ef.sb.clusterSize] (uoffset % ef.sb.clusterSize) 0
      uoffset data rfl (Nat.mod_lt _ hcs) (by rw [hdm]; omega)
      (fun _ => List.getElem?_eq_getElem hq)
    rw [hdm] at hcont
    rw [if_neg h0]
    simp only [run_bind, hf.u32_index hr hoff, exfatAdvanceCluster_run hf.chained hq, hci,
      Bool.false_eq_true, if_false, hrun, run_get]
    simp only [if_neg hne, Nat.zero_add]
    have hvalid : max n.validSize (uoffset + data.length) ≤ n.size := by
      have := hf.valid
      omega
    have hch' := hin.chained hmove.chained
    -- only a file gets a new modification time here
    cases hdir : n.isDir with
    | false =>
      have hdir' : Node.isDir { n with
          fptrIndex := uoffset / ef.sb.clusterSize
          fptrCluster := L[uoffset / ef.sb.clusterSize]
          validSize := max n.validSize (uoffset + data.length) } = false := hdir
      rw [hdir', if_pos (by rfl)]
      refine ⟨_, _, rfl, ⟨⟨_, _, _, _, _, rfl⟩, ?_, ?_, hin.moved hf.taken⟩,
        fun _ => Or.inl rfl, rfl,
        rfl, hcont⟩
      · exact ⟨rfl, rfl, rfl, rfl, rfl, rfl, rfl, rfl, rfl⟩
      · exact ⟨hch'.of_place rfl rfl rfl rfl, hf.taken, hf.length, hvalid⟩
    | true =>
      have hdir' : Node.isDir { n with
          fptrIndex := uoffset / ef.sb.clusterSize
          fptrCluster := L[uoffset / ef.sb.clusterSize]
          validSize := max n.validSize (uoffset + data.length) } = true := hdir
      rw [hdir', if_neg (by simp)]
      refine ⟨_, _, rfl, ⟨⟨_, _, _, _, _, rfl⟩, ?_, ?_, hin.moved hf.taken⟩, ?_, rfl, rfl, hcont⟩
      · exact ⟨rfl, rfl, rfl, rfl, rfl, rfl, rfl, rfl, rfl⟩
      · exact ⟨hch'.of_place rfl rfl rfl rfl, hf.taken, hf.length, hvalid⟩
      -- a directory is marked when its valid size has changed
      · rintro (h | h | h)
        · cases h
        · exact Or.inr ⟨rfl, rfl, rfl, rfl, by show max _ _ = _; omega, rfl, rfl⟩
        · exact Or.inl h

/-- What a write of `data` at `off` makes of a file of `size` bytes `f`: the file has `size'` bytes
`f'`, the gap before the data being zeros; or there was no space, and the file is unchanged or
extended with zeros up to the data. -/
def Written (data : List UInt8) (off : Nat) (f : Store) (size : Nat) (r : Except Errno Nat)
    (f' : Store) (size' : Nat) : Prop :=
  (r = .ok data.length ∧ size' = max size (off + data.length) ∧
    ∀ p, p < size' → f' p = writeBytes (fun q => if q < size then f q else 0) off data p) ∨
  (r = .error .enospc ∧ (size' = size ∨ size < off ∧ size' = off) ∧
    ∀ p, p < size' → f' p = if p < size then f p else 0)

/-- The second half of `exfat_generic_pwrite`, from a file that reaches up to the data. -/
theorem pwriteExtend_run (hr : Ready ef) (hf : File ef n L) (hvs : n.validSize = n.size)
    (data : List UInt8) (uoffset : Nat)
    (hfit : divRoundUp (uoffset + data.length) ef.sb.clusterSize < 2 ^ 32)
    (href : n.references = 0 → n.parent = none) (hoff : uoffset ≤ n.size) :
    ∃ r ef' n' L', pwriteExtend data uoffset ⟨ef, n⟩ = .ok r ⟨ef', n'⟩ ∧
      FileStep ef n L ef' n' L' ∧ Tracked n n' ∧ n'.validSize = n'.size ∧
      Written data uoffset (content ef.sb ef.dev.bytes L) n.size r
        (content ef.sb ef'.dev.bytes L') n'.size := by
  have hu64 : u64 (uoffset + data.length) = uoffset + data.length := by
    have := lt_of_divRoundUp_lt hr.layout hfit
    exact Nat.mod_eq_of_lt (by omega)
  unfold pwriteExtend
  simp only [run_bind, run_get, hu64]
  -- The file is extended to the end of the data, or it reaches there.
  by_cases hgt : uoffset + data.length > n.size
  · rw [if_pos hgt]
    obtain ⟨r, ef₁, n₁, L₁, hrun, hstep, -, -, htr, htrunc, -, hcont⟩ :=
      exfatTruncate_run hr hf hfit href false
    rw [run_bind, hrun]
    have hne : data ≠ [] := by
      rintro rfl
      rw [List.length_nil] at hgt
      omega
    -- with room the data is written, without it the file is as it was
    rcases htrunc with ⟨rfl, hsize, hvalid⟩ | ⟨rfl, _, hsize, hvalid⟩
    · rw [if_neg (by omega), if_neg (by simp)] at hvalid
      have hsb := hstep.sb
      obtain ⟨ef₂, n₂, hrun₂, hstep₂, htr₂, hsize₂, hvalid₂, hcont₂⟩ :=
        pwriteValid_run (hstep.ready hr) hstep.file data uoffset (by omega)
      have htracked : Tracked n n₂ := by
        rcases htr with h | ⟨_, _, _, h, _⟩
        · exact Tracked.trans (Or.inl h) (htr₂ (Or.inr (Or.inr h)))
        · omega
      rw [if_neg hne] at hvalid₂
      rw [hsb] at hcont₂
      refine ⟨_, ef₂, n₂, L₁, hrun₂, hstep.trans hstep₂, htracked, by omega,
        Or.inl ⟨rfl, by omega, ?_⟩⟩
      intro p hp
      rw [hcont₂, writeBytes_apply, writeBytes_apply]
      by_cases hin : uoffset ≤ p ∧ p < uoffset + data.length
      · rw [if_pos hin, if_pos hin]
      · rw [if_neg hin, if_neg hin, hcont p (by omega), if_pos (by omega), if_pos (by omega)]
    · refine ⟨_, ef₁, n₁, L₁, rfl, hstep, htr, by omega, Or.inr ⟨rfl, Or.inl hsize, ?_⟩⟩
      intro p hp
      rw [hcont p (by omega), if_pos (by omega), if_pos (by omega)]
  -- all bytes of the file are valid, so the data lies within them
  · rw [if_neg hgt]
    obtain ⟨ef₂, n₂, hrun₂, hstep₂, htr₂, hsize₂, hvalid₂, hcont₂⟩ :=
      pwriteValid_run hr hf data uoffset (by omega)
    have hvalid : n₂.validSize = n.size := by
      rw [hvalid₂]
      split
      · exact hvs
      · omega
    refine ⟨_, ef₂, n₂, L, hrun₂, hstep₂, htr₂ (Or.inr (Or.inl hvs)), by omega,
      Or.inl ⟨rfl, by omega, ?_⟩⟩
    intro p hp
    rw [hcont₂, writeBytes_apply, writeBytes_apply, if_pos (by omega : p < n.size)]

/-- `exfat_generic_pwrite` on a file all of whose bytes are valid. -/
theorem exfatGenericPwrite_run (hr : Ready ef) (hf : File ef n L) (hvs : n.validSize = n.size)
    (data : List UInt8) (uoffset : Nat)
    (hfit : divRoundUp (uoffset + data.length) ef.sb.clusterSize < 2 ^ 32)
    (href : n.references = 0 → n.parent = none) :
    ∃ r ef' n' L', exfatGenericPwrite data uoffset ⟨ef, n⟩ = .ok r ⟨ef', n'⟩ ∧
      FileStep ef n L ef' n' L' ∧ Tracked n n' ∧ n'.validSize = n'.size ∧
      Written data uoffset (content ef.sb ef.dev.bytes L) n.size r
        (content ef.sb ef'.dev.bytes L') n'.size := by
  have hnat : (uoffset : Int).toNat = uoffset := rfl
  unfold exfatGenericPwrite
  simp only [run_bind, run_get, hnat]
  rw [if_neg (by omega)]
  -- A write behind the end: the gap is filled with zeros first.
  by_cases hgt : uoffset > n.size
  · rw [if_pos hgt]
    have hfit' : divRoundUp uoffset ef.sb.clusterSize < 2 ^ 32 := by
      refine lt_of_le_of_lt ?_ hfit
      exact Nat.div_le_div_right (by omega)
    obtain ⟨r, ef₁, n₁, L₁, hrun, hstep, -, -, htr, htrunc, -, hcont⟩ :=
      exfatTruncate_run hr hf hfit' href true
    rw [run_bind, hrun]
    rcases htrunc with ⟨rfl, hsize, hvalid⟩ | ⟨rfl, _, hsize, hvalid⟩
    · rw [if_neg (by omega), if_pos rfl] at hvalid
      have hsb := hstep.sb
      have href₁ : n₁.references = 0 → n₁.parent = none := by
        rw [hstep.kept.references, hstep.kept.parent]
        exact href
      obtain ⟨r, ef₂, n₂, L₂, hrun₂, hstep₂, htr₂, hvalid₂, hwr⟩ := pwriteExtend_run
        (hstep.ready hr) hstep.file (by omega) data uoffset
        (by rw [hsb]; exact hfit) href₁ (by omega)
      rw [hsb] at hwr
      refine ⟨r, ef₂, n₂, L₂, hrun₂, hstep.trans hstep₂, htr.trans htr₂, hvalid₂, ?_⟩
      -- the file was extended with zeros before: what is zero past its new end is zero anyway
      have hzero : ∀ p, (if p < n₁.size then content ef.sb ef₁.dev.bytes L₁ p else 0) =
          if p < n.size then content ef.sb ef.dev.bytes L p else 0 := by
        intro p
        by_cases hp : p < n₁.size
        · rw [if_pos hp, hcont p (by omega), hvs]
        · rw [if_neg hp, if_neg (by omega)]
      -- whether the second extension succeeds or not, the gap reads as zeros
      rcases hwr with ⟨rfl, hsize', hbytes⟩ | ⟨rfl, hsize', hbytes⟩
      · refine Or.inl ⟨rfl, by omega, ?_⟩
        intro p hp
        rw [hbytes p hp]
        simp only [hzero]
      · refine Or.inr ⟨rfl, by omega, ?_⟩
        intro p hp
        rw [hbytes p hp]
        exact hzero p
    · refine ⟨_, ef₁, n₁, L₁, rfl, hstep, htr, by omega, Or.inr ⟨rfl, Or.inl hsize, ?_⟩⟩
      intro p hp
      rw [hcont p (by omega), hvs]
  · rw [if_neg hgt]
    exact pwriteExtend_run hr hf hvs data uoffset hfit href (by omega)

end ExFat
