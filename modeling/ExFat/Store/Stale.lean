import ExFat.Store.Pointer
import ExFat.Store.Space

namespace ExFat

open Bytes Program Chain

/-!
# Bytes that were never written

The bytes of a file between `valid_size` and its size read as zeros, whatever its clusters hold.
`exfat_generic_pwrite` raises `valid_size` to the end of what it writes; it puts zeros before that
only when it starts behind the end of the file.
-/

variable {ef : Ef Flat} {n : Node} {L : List Nat}

/-! ### Walks are shorter than the heap -/

/-- A walk through good clusters of a chain that ends is shorter than the heap. -/
theorem Chained.walk_lt {sb : SuperBlock} {b : Store} (hl : Layout sb) (hch : Chained sb b n L)
    (he : Ended sb b n L) {k : Nat}
    (hk : ∀ j, j ≤ k → Valid sb ((nextOf sb b n.isContiguous)^[j] n.startCluster)) :
    k < sb.clusterCount := by
  have hstart : Valid sb n.startCluster := hk 0 (Nat.zero_le k)
  -- a contiguous file takes the clusters one behind the other
  cases hcont : n.isContiguous with
  | true =>
    rw [hcont] at hk
    have hiter : ∀ j, j ≤ k → (nextOf sb b true)^[j] n.startCluster = n.startCluster + j := by
      intro j
      induction j with
      | zero => exact fun _ => rfl
      | succ j ih =>
        intro hj
        have hprev := ih (by omega)
        have hlt := (hk j (by omega)).lt_word hl
        rw [hprev] at hlt
        rw [Function.iterate_succ_apply', hprev]
        exact Nat.mod_eq_of_lt (by omega)
    have hlast := (hk k (Nat.le_refl k)).lt
    rw [hiter k (Nat.le_refl k)] at hlast
    have htwo := hstart.two_le
    omega
  | false =>
    -- otherwise the walk goes along the chain and leaves it at its end
    by_contra hge
    have hlen := hch.length_le
    rcases List.eq_nil_or_concat L with rfl | ⟨L₀, c, rfl⟩
    · have htwo := hstart.two_le
      rw [hch.empty rfl] at htwo
      cases htwo
    · rw [List.concat_eq_append] at *
      have hlt : L₀.length < (L₀ ++ [c]).length := by simp
      have hc : (L₀ ++ [c])[L₀.length] = c := by simp
      have hget := hch.follows.getElem hlt
      rw [hc] at hget
      -- the step behind the last cluster
      have hnext :=
        hk (L₀.length + 1) (by rw [List.length_append, List.length_singleton] at hlen; omega)
      rw [Function.iterate_succ_apply', ← hget, hcont] at hnext
      have hbad := he hcont c List.getLast?_concat
      exact absurd hbad (Bool.eq_false_iff.mp hnext)

/-- The cursor of a sound file points into its chain. -/
theorem Chained.pointed (hch : Chained ef.sb ef.dev.bytes n L) : Pointed ef n := by
  unfold Pointed
  rcases hch.fptr with ⟨h0, hs⟩ | hsome
  · rw [h0, hs]
    rfl
  · obtain ⟨hlt, hget⟩ := List.getElem?_eq_some_iff.mp hsome
    rw [walk_of_valid, ← hget]
    · exact hch.follows.getElem hlt
    · intro j hj
      have hj' : j + 1 < L.length := by omega
      have hmem := List.getElem_mem hj'
      rw [hch.follows.getElem hj'] at hmem
      exact hch.valid _ hmem

/-- The pointer of a chain that has clusters is at one of them. -/
theorem Chained.fptr_mem {sb : SuperBlock} {b : Store} (hch : Chained sb b n L) (hne : L ≠ []) :
    Valid sb n.startCluster ∧ Valid sb n.fptrCluster := by
  have hpos : 0 < L.length := List.length_pos_iff.mpr hne
  have hstart : Valid sb n.startCluster := by
    have hmem := List.getElem_mem hpos
    rw [hch.follows.getElem hpos] at hmem
    exact hch.valid _ hmem
  refine ⟨hstart, ?_⟩
  rcases hch.fptr with ⟨-, hs⟩ | hsome
  · rw [hs]
    exact hstart
  · exact hch.valid _ (List.mem_of_getElem? hsome)

/-- If `exfat_advance_cluster` comes to a good cluster, all those before it are good. -/
theorem exfatAdvanceCluster_valid (hch : Chained ef.sb ef.dev.bytes n L) (count : Nat) :
    wp (exfatAdvanceCluster count) (fun c s => s = ⟨ef, n.pointAt count c⟩ ∧ (Valid ef.sb c →
      c = (nextIn ef n)^[count] n.startCluster ∧
        ∀ j, j ≤ count → Valid ef.sb ((nextIn ef n)^[j] n.startCluster))) anyStop ⟨ef, n⟩ := by
  by_cases hne : L = []
  · subst hne
    have hstart := hch.empty rfl
    have hfptr : n.fptrIndex = 0 ∧ n.fptrCluster = n.startCluster := by
      rcases hch.fptr with h | h
      · exact h
      · simp at h
    rcases Nat.eq_zero_or_pos count with rfl | hpos
    · have hsame : n.pointAt 0 n.fptrCluster = n := by
        rw [← hfptr.1]
        rfl
      refine wp_of_ok (exfatAdvanceCluster_zero hfptr.1) ⟨by rw [hsame], fun hvalid => ?_⟩
      have htwo := hvalid.two_le
      rw [hfptr.2, hstart] at htwo
      cases htwo
    · exact wp_of_error (exfatAdvanceCluster_free hfptr.1 (hfptr.2.trans hstart) hpos) trivial
  · obtain ⟨hstart, hfptr⟩ := hch.fptr_mem hne
    refine wp_of_ok (exfatAdvanceCluster_walk hch.pointed hstart fun _ => hfptr) ⟨rfl, ?_⟩
    exact fun hvalid => walk_valid hstart hvalid

/-- The links of the good clusters are as `f` says. -/
def Linked (sb : SuperBlock) (b : Store) (contiguous : Bool) (f : Nat → Nat) : Prop :=
  ∀ c, Valid sb c → nextOf sb b contiguous c = f c

/-- Writing into a cluster leaves the links alone. -/
theorem Linked.write {sb : SuperBlock} {b : Store} {contiguous : Bool} {f : Nat → Nat}
    (hl : Layout sb) (h : Linked sb b contiguous f) (c o : Nat) (data : List UInt8) :
    Linked sb (writeBytes b (clusterOffset sb c + o) data) contiguous f := by
  intro x hx
  rw [← h x hx]
  unfold nextOf
  rw [fatEntry_writeCluster hl hx]

/-- The write loop succeeds only if all the clusters it comes to are good. -/
theorem pwriteLoop_valid (ef : Ef Flat) (n : Node) {f : Nat → Nat} (hl : Layout ef.sb)
    (hf : Linked ef.sb ef.dev.bytes n.isContiguous f) {uoffset m cluster loffset done : Nat}
    {data : List UInt8} {s : FileState Flat}
    (hrun : pwriteLoop uoffset m cluster loffset done data ⟨ef, n⟩ = .ok (.ok ()) s) :
    ∀ j, j < m → Valid ef.sb (f^[j] cluster) := by
  -- on the clusters that are still to be written
  induction m generalizing ef n cluster loffset done data with
  | zero => exact fun j hj => absurd hj (Nat.not_lt_zero j)
  | succ m ih =>
    unfold pwriteLoop at hrun
    rw [run_bind_ok (run_get _)] at hrun
    dsimp only at hrun
    cases hbad : ef.sb.clusterInvalid cluster with
    | true =>
      rw [hbad, if_pos rfl] at hrun
      cases hrun
    | false =>
      have hvalid : Valid ef.sb cluster := hbad
      rw [hbad, if_neg (by decide), run_bind_ok (run_onEf_ok (run_exfatC2o hvalid.two_le)),
        run_bind_ok (run_onEf_ok (run_exfatPwrite _ _ _))] at hrun
      dsimp only at hrun
      rw [run_bind_ok (run_modifyNode _ _),
        run_bind_ok (exfatNextCluster_run hvalid.two_le)] at hrun
      -- the data is written to a good cluster, so it leaves the FAT alone
      have hf' := hf.write hl cluster loffset
        (data.take (min (ef.sb.clusterSize - loffset) data.length))
      have hrest := ih _ _ (by exact hl) (by exact hf') hrun
      dsimp only at hrest
      rw [hf' cluster hvalid] at hrest
      intro j hj
      cases j with
      | zero => exact hvalid
      | succ j => exact hrest j (by omega)

/-- The loop that erases succeeds only if all the clusters it comes to are good. -/
theorem eraseLoop_valid (ef : Ef Flat) {f : Nat → Nat} (hl : Layout ef.sb)
    (hf : Linked ef.sb ef.dev.bytes n.isContiguous f) {m cluster : Nat} (hc : Valid ef.sb cluster)
    {s : FileState Flat} (hrun : eraseLoop m cluster ⟨ef, n⟩ = .ok (.ok ()) s) :
    ∀ j, j ≤ m → Valid ef.sb (f^[j] cluster) := by
  induction m generalizing ef cluster with
  | zero =>
    intro j hj
    rw [Nat.le_zero.mp hj]
    exact hc
  | succ m ih =>
    unfold eraseLoop at hrun
    rw [run_bind_ok (exfatNextCluster_run hc.two_le), run_bind_ok (run_get _),
      hf cluster hc] at hrun
    dsimp only at hrun
    cases hbad : ef.sb.clusterInvalid (f cluster) with
    | true =>
      rw [hbad, if_pos rfl] at hrun
      cases hrun
    | false =>
      have hvalid : Valid ef.sb (f cluster) := hbad
      rw [hbad, if_neg (by decide), run_bind_ok (run_onEf_ok (run_exfatC2o hvalid.two_le)),
        run_bind_ok (run_onEf_ok (run_eraseRaw _ _)), if_pos rfl] at hrun
      have hf' := hf.write hl (f cluster) 0 (List.replicate ef.sb.clusterSize 0)
      have hrest := ih _ (by exact hl) (by exact hf') (by exact hvalid) hrun
      intro j hj
      cases j with
      | zero => exact hc
      | succ j => exact hrest j (by omega)

/-- A write that succeeds ends within the heap. -/
theorem pwriteValid_fits (hl : Layout ef.sb) (hch : Chained ef.sb ef.dev.bytes n L)
    (he : Ended ef.sb ef.dev.bytes n L) {data : List UInt8} (hdata : data ≠ []) {uoffset k : Nat}
    (hoff : uoffset / ef.sb.clusterSize < 2 ^ 32) {s : FileState Flat}
    (hrun : pwriteValid data uoffset ⟨ef, n⟩ = .ok (.ok k) s) :
    divRoundUp (uoffset + data.length) ef.sb.clusterSize ≤ ef.sb.clusterCount := by
  have hcs := ef.sb.clusterSize_pos
  have hlen : 0 < data.length := List.length_pos_iff.mpr hdata
  have hadvance :=
    wp_anyStop_iff.mp (exfatAdvanceCluster_valid hch (u32 (uoffset / ef.sb.clusterSize)))
  unfold pwriteValid at hrun
  rw [run_bind_ok (run_get _), if_neg (by omega)] at hrun
  dsimp only at hrun
  -- the walk to the first cluster
  cases hadv : exfatAdvanceCluster (u32 (uoffset / ef.sb.clusterSize))
    (⟨ef, n⟩ : FileState Flat) with
  | error e s₁ =>
    rw [run_bind_error hadv] at hrun
    cases hrun
  | ok c s₁ =>
    obtain ⟨rfl, hgood⟩ := hadvance c s₁ hadv
    rw [run_bind_ok hadv] at hrun
    cases hbad : ef.sb.clusterInvalid c with
    | true =>
      rw [hbad, if_pos rfl] at hrun
      cases hrun
    | false =>
      rw [hbad, if_neg (by decide)] at hrun
      obtain ⟨hc, hbefore⟩ := hgood hbad
      have hu32 : u32 (uoffset / ef.sb.clusterSize) = uoffset / ef.sb.clusterSize :=
        Nat.mod_eq_of_lt hoff
      rw [hu32] at hc hbefore
      -- and from there on the loop
      cases hloop : pwriteLoop uoffset (clusterSpan ef.sb.clusterSize (uoffset % ef.sb.clusterSize)
          data.length) c (uoffset % ef.sb.clusterSize) 0 data
          (⟨ef, n.pointAt (u32 (uoffset / ef.sb.clusterSize)) c⟩ : FileState Flat) with
      | error e s₂ =>
        rw [run_bind_error hloop] at hrun
        cases hrun
      | ok r s₂ =>
        rw [run_bind_ok hloop] at hrun
        cases r with
        | error e => cases hrun
        | ok =>
          have hafter := pwriteLoop_valid ef _ (f := nextIn ef n) hl (by exact fun _ _ => rfl) hloop
          have hspan : clusterSpan ef.sb.clusterSize (uoffset % ef.sb.clusterSize) data.length =
              divRoundUp (uoffset % ef.sb.clusterSize + data.length) ef.sb.clusterSize :=
            if_neg (by omega)
          have htotal : divRoundUp (uoffset + data.length) ef.sb.clusterSize =
              uoffset / ef.sb.clusterSize +
                divRoundUp (uoffset % ef.sb.clusterSize + data.length) ef.sb.clusterSize := by
            rw [← divRoundUp_mul_add hcs, ← Nat.add_assoc, Nat.div_add_mod']
          rw [hspan] at hafter
          have hpos : 0 < divRoundUp (uoffset % ef.sb.clusterSize + data.length)
              ef.sb.clusterSize :=
            divRoundUp_pos hcs (by omega)
          -- the last cluster of the write is reached by a walk that has met no bad cluster
          have hwalk : divRoundUp (uoffset + data.length) ef.sb.clusterSize - 1 <
              ef.sb.clusterCount := by
            refine hch.walk_lt hl he fun j hj => ?_
            rcases Nat.lt_or_ge j (uoffset / ef.sb.clusterSize) with hlt | hge
            · exact hbefore j (Nat.le_of_lt hlt)
            · have hj' := hafter (j - uoffset / ef.sb.clusterSize) (by omega)
              rw [hc, ← Function.iterate_add_apply, Nat.sub_add_cancel hge] at hj'
              exact hj'
          omega

/-- Bytes that are erased lie within the heap. -/
theorem eraseRange_fits (hl : Layout ef.sb) (hch : Chained ef.sb ef.dev.bytes n L)
    (he : Ended ef.sb ef.dev.bytes n L) {start stop : Nat} (hlt : start < stop)
    (hstart : start / ef.sb.clusterSize < 2 ^ 32) {s : FileState Flat}
    (hrun : eraseRange start stop ⟨ef, n⟩ = .ok (.ok ()) s) :
    divRoundUp stop ef.sb.clusterSize ≤ ef.sb.clusterCount := by
  have hcs := ef.sb.clusterSize_pos
  have hadvance :=
    wp_anyStop_iff.mp (exfatAdvanceCluster_valid hch (u32 (start / ef.sb.clusterSize)))
  unfold eraseRange at hrun
  rw [run_bind_ok (run_get _), if_neg (by omega)] at hrun
  dsimp only at hrun
  cases hadv : exfatAdvanceCluster (u32 (start / ef.sb.clusterSize)) (⟨ef, n⟩ : FileState Flat) with
  | error e s₁ =>
    rw [run_bind_error hadv] at hrun
    cases hrun
  | ok c s₁ =>
    obtain ⟨rfl, hgood⟩ := hadvance c s₁ hadv
    rw [run_bind_ok hadv] at hrun
    cases hbad : ef.sb.clusterInvalid c with
    | true =>
      rw [hbad, if_pos rfl] at hrun
      cases hrun
    | false =>
      have hvalid : Valid ef.sb c := hbad
      obtain ⟨hc, hbefore⟩ := hgood hvalid
      have hu32 : u32 (start / ef.sb.clusterSize) = start / ef.sb.clusterSize :=
        Nat.mod_eq_of_lt hstart
      rw [hu32] at hc hbefore
      rw [hbad, if_neg (by decide), run_bind_ok (run_onEf_ok (run_exfatC2o hvalid.two_le)),
        run_bind_ok (run_onEf_ok (run_eraseRaw _ _)), if_pos rfl, or_clusterSize] at hrun
      -- erasing leaves the FAT alone as well
      have hf : Linked ef.sb ef.dev.bytes n.isContiguous (nextIn ef n) := fun _ _ => rfl
      have hafter := eraseLoop_valid _ (by exact hl) (by exact hf.write hl c _ _)
        (by exact hvalid) hrun
      generalize hm : divRoundUp (stop - (start / ef.sb.clusterSize + 1) * ef.sb.clusterSize)
        ef.sb.clusterSize = m at hafter
      have htotal : divRoundUp stop ef.sb.clusterSize ≤ start / ef.sb.clusterSize + 1 + m := by
        rw [divRoundUp_le_iff hcs, Nat.add_mul, ← hm]
        have := le_divRoundUp_mul (stop - (start / ef.sb.clusterSize + 1) * ef.sb.clusterSize) hcs
        omega
      have hwalk : start / ef.sb.clusterSize + m < ef.sb.clusterCount := by
        refine hch.walk_lt hl he fun j hj => ?_
        rcases Nat.lt_or_ge j (start / ef.sb.clusterSize) with hj' | hj'
        · exact hbefore j (Nat.le_of_lt hj')
        · have hvj := hafter (j - start / ef.sb.clusterSize) (by omega)
          rw [hc, ← Function.iterate_add_apply, Nat.sub_add_cancel hj'] at hvj
          exact hvj
      omega

/-- `exfat_truncate` of any size: what a call that succeeds has done to the clusters. -/
theorem exfatTruncate_resize (hr : Ready ef) (hf : File ef n L) {size : Nat} {erase : Bool}
    (hne : n.size ≠ size) {s : FileState Flat}
    (hrun : exfatTruncate size erase ⟨ef, n⟩ = .ok (.ok ()) s) :
    ∃ b chunk dirty errors n' L', Placed n n' ∧ Chained ef.sb b n' L' ∧
      (Ended ef.sb ef.dev.bytes n L → Ended ef.sb b n' L') ∧
      finishTruncate size erase ⟨ef.upd b chunk dirty errors ef.ticks, n'⟩ = .ok (.ok ()) s := by
  unfold exfatTruncate at hrun
  rw [run_bind_ok (run_get _)] at hrun
  dsimp only at hrun
  split at hrun
  · cases hrun
  · rw [hf.clusters hr] at hrun
    obtain ⟨r, b', chunk', dirty', errors', n', L', hresize, hpl, hch, -, -, hcase⟩ :=
      resizeFile_run hr hf.chained hf.taken (bytes2clusters ef.sb size)
    rw [run_bind_ok hresize] at hrun
    rcases hcase with ⟨rfl, -, -, hended⟩ | ⟨rfl, -⟩
    · exact ⟨b', chunk', dirty', errors', n', L', hpl, hch, hended, hrun⟩
    · cases hrun

/-- A file that was extended and erased lies within the heap. -/
theorem exfatTruncate_erase_fits (hr : Ready ef) (hf : File ef n L)
    (he : Ended ef.sb ef.dev.bytes n L) {size : Nat} (hlt : n.size < size) {s : FileState Flat}
    (hrun : exfatTruncate size true ⟨ef, n⟩ = .ok (.ok ()) s) :
    divRoundUp size ef.sb.clusterSize ≤ ef.sb.clusterCount := by
  have hvalid := hf.valid
  obtain ⟨b, chunk, dirty, errors, n', L', hpl, hch, hended, hrest⟩ :=
    exfatTruncate_resize hr hf (by omega) hrun
  unfold finishTruncate at hrest
  rw [if_pos rfl, run_bind_ok (run_get _)] at hrest
  dsimp only at hrest
  cases herase : eraseRange n'.validSize size
      (⟨ef.upd b chunk dirty errors ef.ticks, n'⟩ : FileState Flat) with
  | error e s₁ =>
    rw [run_bind_error herase] at hrest
    cases hrest
  | ok r s₁ =>
    rw [run_bind_ok herase] at hrest
    cases r with
    | error e => cases hrest
    | ok =>
      have hsize := hpl.validSize
      have hle := eraseRange_fits (by exact hr.layout) (by exact hch) (by exact hended he)
        (by rw [hsize]; omega) (by rw [hsize]; exact hf.index_lt_word hr hf.valid) herase
      exact hle

/-- A file that was extended without being erased is a chain, and its size is set. -/
theorem exfatTruncate_extend (hr : Ready ef) (hf : File ef n L) (he : Ended ef.sb ef.dev.bytes n L)
    {size : Nat} (hne : n.size ≠ size) {s : FileState Flat}
    (hrun : exfatTruncate size false ⟨ef, n⟩ = .ok (.ok ()) s) :
    ∃ L', Chained ef.sb s.ef.dev.bytes s.node L' ∧ Ended ef.sb s.ef.dev.bytes s.node L' ∧
      s.ef.sb = ef.sb := by
  obtain ⟨b, chunk, dirty, errors, n', L', hpl, hch, hended, hrest⟩ :=
    exfatTruncate_resize hr hf hne hrun
  cases hrest
  exact ⟨L', ⟨hch.follows, hch.valid, hch.nodup, hch.fptr, hch.empty⟩, hended he, rfl⟩

/-! ### What a write that succeeds has done -/

/-- `exfat_truncate` insists on a reference to a node that is in the tree. -/
theorem exfatTruncate_referenced {size : Nat} {erase : Bool} {r : Rc} {s : FileState Flat}
    (hrun : exfatTruncate size erase ⟨ef, n⟩ = .ok r s) : n.references = 0 → n.parent = none := by
  intro href
  cases hparent : n.parent with
  | none => rfl
  | some p =>
    unfold exfatTruncate at hrun
    rw [run_bind_ok (run_get _)] at hrun
    dsimp only at hrun
    rw [if_pos ⟨href, by rw [hparent]; rfl⟩] at hrun
    cases hrun

/-- The file after a write at `off` that has succeeded.  Before the data was written its clusters
held `old`, and `base` bytes of it were valid. -/
structure Overwritten (sb : SuperBlock) (old : Store) (base off : Nat) (data : List UInt8)
    (s : FileState Flat) (L' : List Nat) : Prop where
  ready : Ready s.ef
  file : File s.ef s.node L'
  superBlock : s.ef.sb = sb
  room : off + data.length ≤ s.node.size
  valid : s.node.validSize = if data = [] then base else max base (off + data.length)
  content : ∀ p, p < s.node.validSize → content sb s.ef.dev.bytes L' p =
    if off ≤ p ∧ p < off + data.length then data.getD (p - off) 0 else old p

/-- A write into a file that is large enough. -/
theorem pwriteValid_overwritten (hr : Ready ef) (hf : File ef n L) {data : List UInt8} {off k : Nat}
    (hend : off + data.length ≤ n.size) {s : FileState Flat}
    (hrun : pwriteValid data off ⟨ef, n⟩ = .ok (.ok k) s) :
    Overwritten ef.sb (content ef.sb ef.dev.bytes L) n.validSize off data s L ∧
      s.node.size = n.size := by
  obtain ⟨ef', n', hrun', hstep, -, hsize, hvalid, hcont⟩ := pwriteValid_run hr hf data off hend
  cases hrun'.symm.trans hrun
  refine ⟨⟨hstep.ready hr, hstep.file, hstep.sb, hsize ▸ hend, hvalid, fun p _ => ?_⟩, hsize⟩
  rw [hcont, writeBytes_apply]

/-- The second half of `exfat_generic_pwrite`, from a file that reaches up to the data. -/
theorem pwriteExtend_overwritten (hr : Ready ef) (hf : File ef n L)
    (he : Ended ef.sb ef.dev.bytes n L) {data : List UInt8} {off k : Nat} (hoff : off ≤ n.size)
    (hbound : off + data.length < 2 ^ 64) {s : FileState Flat}
    (hrun : pwriteExtend data off ⟨ef, n⟩ = .ok (.ok k) s) :
    ∃ L', Overwritten ef.sb (content ef.sb ef.dev.bytes L) n.validSize off data s L' ∧
      n.size ≤ s.node.size := by
  have hcs := ef.sb.clusterSize_pos
  have hu64 : u64 (off + data.length) = off + data.length := Nat.mod_eq_of_lt hbound
  unfold pwriteExtend at hrun
  rw [run_bind_ok (run_get _), hu64] at hrun
  dsimp only at hrun
  -- the data ends behind the file, or within it
  by_cases hgt : off + data.length > n.size
  · have hdata : data ≠ [] := by
      rintro rfl
      rw [List.length_nil] at hgt
      omega
    rw [if_pos hgt] at hrun
    cases htrunc : exfatTruncate (off + data.length) false (⟨ef, n⟩ : FileState Flat) with
    | error e s₁ =>
      rw [run_bind_error htrunc] at hrun
      cases hrun
    | ok r s₁ =>
      rw [run_bind_ok htrunc] at hrun
      cases r with
      | error e => cases hrun
      | ok =>
        -- the write succeeds only if the new size fits in the heap
        have hfits : divRoundUp (off + data.length) ef.sb.clusterSize < 2 ^ 32 := by
          obtain ⟨L₁, hch₁, he₁, hsb₁⟩ := exfatTruncate_extend hr hf he (by omega) htrunc
          have hcount := hr.layout.count_lt
          rw [← hsb₁] at hch₁ he₁
          have hle := pwriteValid_fits (hsb₁ ▸ hr.layout) hch₁ he₁ hdata
            (by rw [hsb₁]; exact hf.index_lt_word hr hoff) hrun
          rw [hsb₁] at hle
          omega
        obtain ⟨r, ef₁, n₁, L₁, hrun₁, hstep, hpre, -, -, hres, hold, -⟩ :=
          exfatTruncate_run hr hf hfits (exfatTruncate_referenced htrunc) false
        cases hrun₁.symm.trans htrunc
        -- the truncation has succeeded, so the file ends where the data does
        rcases hres with ⟨-, hsize, hvalid⟩ | ⟨hne, -⟩
        · rw [if_neg (by omega), if_neg (by decide),
            Nat.min_eq_left (by have := hf.valid; omega)] at hvalid
          obtain ⟨hover, hsize'⟩ := pwriteValid_overwritten (hstep.ready hr) hstep.file
            (by rw [hsize]) hrun
          have hsb := hstep.sb
          refine ⟨L₁, ⟨hover.ready, hover.file, hover.superBlock.trans hsb, hover.room, ?_, ?_⟩, by
            omega⟩
          · rw [hover.valid, hvalid]
          · intro p hp
            have hcont := hover.content p hp
            rw [hsb] at hcont
            rw [hcont]
            -- a byte is written, or it is an old one
            by_cases hin : off ≤ p ∧ p < off + data.length
            · rw [if_pos hin, if_pos hin]
            · rw [if_neg hin, if_neg hin]
              refine hold rfl p ?_
              have hlen₁ := hstep.file.length
              rw [hsize, hsb] at hlen₁
              have h1 := le_divRoundUp_mul n.size hcs
              have h2 := le_divRoundUp_mul (off + data.length) hcs
              have hp' := hover.valid ▸ hp
              rw [if_neg hdata, hvalid] at hp'
              rw [← Nat.mul_min_mul_right, hf.length, hlen₁]
              have := hf.valid
              omega
        · cases hne
  · rw [if_neg hgt] at hrun
    obtain ⟨hover, hsize⟩ := pwriteValid_overwritten hr hf (Nat.le_of_not_gt hgt) hrun
    exact ⟨L, hover, Nat.le_of_eq hsize.symm⟩

/-- What the clusters of a file hold once it reaches up to `off`: a file that had to be extended for
that has zeros behind its valid bytes. -/
def reached (ef : Ef Flat) (n : Node) (L : List Nat) (off : Nat) : Store := fun p =>
  if n.size < off ∧ n.validSize ≤ p then 0 else content ef.sb ef.dev.bytes L p

/-- `exfat_generic_pwrite` that succeeds. -/
theorem exfatGenericPwrite_overwritten (hr : Ready ef) (hf : File ef n L)
    (he : Ended ef.sb ef.dev.bytes n L) {data : List UInt8} {off k : Nat}
    (hbound : off + data.length < 2 ^ 64) {s : FileState Flat}
    (hrun : exfatGenericPwrite data off ⟨ef, n⟩ = .ok (.ok k) s) :
    ∃ L', Overwritten ef.sb (reached ef n L off)
      (if n.size < off then off else n.validSize) off data s
      L' ∧ n.size ≤ s.node.size := by
  have hnat : (off : Int).toNat = off := rfl
  unfold exfatGenericPwrite at hrun
  rw [run_bind_ok (run_get _), if_neg (by omega), hnat] at hrun
  dsimp only at hrun
  -- the write starts behind the end of the file, or within it
  by_cases hgt : off > n.size
  · rw [if_pos hgt] at hrun
    cases htrunc : exfatTruncate off true (⟨ef, n⟩ : FileState Flat) with
    | error e s₁ =>
      rw [run_bind_error htrunc] at hrun
      cases hrun
    | ok r s₁ =>
      rw [run_bind_ok htrunc] at hrun
      cases r with
      | error e => cases hrun
      | ok =>
        have hheap := exfatTruncate_erase_fits hr hf he hgt htrunc
        have hcount := hr.layout.count_lt
        have hfits : divRoundUp off ef.sb.clusterSize < 2 ^ 32 := by omega
        obtain ⟨r, ef₁, n₁, L₁, hrun₁, hstep, -, hended, -, hres, -, hcont⟩ :=
          exfatTruncate_run hr hf hfits (exfatTruncate_referenced htrunc) true
        cases hrun₁.symm.trans htrunc
        -- the gap has been erased
        rcases hres with ⟨-, hsize, hvalid⟩ | ⟨hne, -⟩
        · rw [if_neg (by omega), if_pos rfl] at hvalid
          have hsb := hstep.sb
          have he₁ := hended rfl he
          rw [← hsb] at he₁
          obtain ⟨L', hover, hle⟩ := pwriteExtend_overwritten (hstep.ready hr) hstep.file he₁
            (by rw [hsize]) hbound hrun
          rw [hsb, hvalid] at hover
          refine ⟨L', ⟨hover.ready, hover.file, hover.superBlock, hover.room, ?_, ?_⟩, by omega⟩
          · rw [if_pos hgt]
            exact hover.valid
          · intro p hp
            rw [hover.content p hp]
            -- a byte is written, an old one, or one of the gap
            by_cases hin : off ≤ p ∧ p < off + data.length
            · rw [if_pos hin, if_pos hin]
            · rw [if_neg hin, if_neg hin]
              have hp' := hover.valid ▸ hp
              have hlt : p < n₁.validSize := by
                split at hp' <;> omega
              rw [hcont p hlt]
              unfold reached
              by_cases hpv : p < n.validSize
              · rw [if_pos hpv, if_neg (by omega)]
              · rw [if_neg hpv, if_pos ⟨hgt, Nat.le_of_not_lt hpv⟩]
        · cases hne
  -- no gap
  · rw [if_neg hgt] at hrun
    have hold : reached ef n L off = content ef.sb ef.dev.bytes L :=
      funext fun p => if_neg fun h => hgt h.1
    rw [if_neg hgt, hold]
    exact pwriteExtend_overwritten hr hf he (Nat.le_of_not_gt hgt) hbound hrun

/-! ### What a read sees -/

/-- A byte of a file reads as `b`. -/
def ReadsAs (s : FileState Flat) (p : Nat) (b : UInt8) : Prop :=
  ∃ s', exfatGenericPread 1 p s = .ok (.ok (1, [b])) s'

/-- A byte that is not valid reads as zero, whatever the cluster holds. -/
theorem readsAs_iff (hr : Ready ef) (hf : File ef n L) {p : Nat} (hp : p < n.size) {b : UInt8} :
    ReadsAs ⟨ef, n⟩ p b ↔ b = if p < n.validSize then content ef.sb ef.dev.bytes L p else 0 := by
  have hbound : n.size ≤ 2 ^ 57 := by
    have hlen := hf.chained.length_le
    have hcount := hr.layout.count_lt
    exact lt_of_divRoundUp_lt hr.layout (by rw [← hf.length]; omega)
  suffices hread : ∃ s, exfatGenericPread 1 p (⟨ef, n⟩ : FileState Flat) =
      .ok (.ok (1, [if p < n.validSize then content ef.sb ef.dev.bytes L p else 0])) s by
    -- reading has one result, so it is enough to find it
    obtain ⟨s, hrun⟩ := hread
    constructor
    · rintro ⟨s', hrun'⟩
      cases hrun.symm.trans hrun'
      rfl
    · rintro rfl
      exact ⟨s, hrun⟩
  have hnat : (p : Int).toNat = p := rfl
  have hu64 : u64 (p + 1) = p + 1 := Nat.mod_eq_of_lt (by omega)
  unfold exfatGenericPread
  rw [run_bind_ok (run_get _), if_neg (by omega), hnat, hu64]
  dsimp only
  rw [if_neg (by omega), if_neg (by decide)]
  -- the byte is read from the device
  by_cases hpv : p < n.validSize
  · obtain ⟨ef', n', hrun, -⟩ := preadValid_run hr hf 1 p hp
    have hone : min 1 (n.size - p) = 1 := by omega
    rw [if_neg (by omega), hrun, hone]
    exact ⟨_, by rw [if_pos hpv]; rfl⟩
  -- the byte is padded
  · have hpad : min 1 (sub64 n.size n.validSize) = 1 := by
      have hle := hf.valid
      unfold sub64
      omega
    have hone : min 1 (n.size - p) = 1 := by omega
    rw [if_neg hpv, if_pos (by omega), if_neg hpv, hpad, hone]
    exact ⟨_, rfl⟩

/-- What a write is to leave of a file: zeros between the bytes that were valid before and the data
and behind them, the bytes that were valid before, and the data. -/
structure Unexposed (s : FileState Flat) (off : Nat) (data : List UInt8) (s' : FileState Flat) :
    Prop where
  gap : ∀ p, s.node.validSize ≤ p → p < off → ReadsAs s' p 0
  tail : ∀ p, s.node.validSize ≤ p → off + data.length ≤ p → p < s'.node.size → ReadsAs s' p 0
  kept : ∀ p b, p < s.node.validSize → p < off ∨ off + data.length ≤ p →
    ReadsAs s p b → ReadsAs s' p b
  written : ∀ p, off ≤ p → p < off + data.length → ReadsAs s' p (data.getD (p - off) 0)

/-- A write shows nothing that was not written exactly if it is empty, or starts behind the end of
the file, or the clusters hold zeros between the valid bytes and the data. -/
theorem exfatGenericPwrite_unexposed_iff (hr : Ready ef) (hf : File ef n L)
    (he : Ended ef.sb ef.dev.bytes n L) {data : List UInt8} {offset : Int} (hoff : offset < 2 ^ 63)
    (hdata : data.length < 2 ^ 63) {k : Nat} {s : FileState Flat}
    (hrun : exfatGenericPwrite data offset ⟨ef, n⟩ = .ok (.ok k) s) :
    Unexposed ⟨ef, n⟩ offset.toNat data s ↔
      (data = [] ∨ n.size < offset.toNat ∨
        ∀ p, n.validSize ≤ p → p < offset.toNat → content ef.sb ef.dev.bytes L p = 0) := by
  have hneg : ¬ offset < 0 := by
    intro hneg
    unfold exfatGenericPwrite at hrun
    rw [run_bind_ok (run_get _), if_pos hneg] at hrun
    cases hrun
  obtain ⟨off, rfl⟩ := Int.eq_ofNat_of_zero_le (not_lt.mp hneg)
  have hnat : (off : Int).toNat = off := rfl
  rw [hnat]
  obtain ⟨L', hover, hsize⟩ := exfatGenericPwrite_overwritten hr hf he (by omega) hrun
  have hroom := hover.room
  have hle := hf.valid
  have hvalid := hover.valid
  -- what a byte of the new file reads as
  have hread : ∀ {p b}, p < s.node.size → (ReadsAs s p b ↔ b = if p < s.node.validSize then
      (if off ≤ p ∧ p < off + data.length then data.getD (p - off)
        0 else reached ef n L off p) else 0) := by
    intro p b hp
    rw [readsAs_iff hover.ready hover.file hp, hover.superBlock]
    by_cases hpv : p < s.node.validSize
    · rw [if_pos hpv, if_pos hpv, hover.content p hpv]
    · rw [if_neg hpv, if_neg hpv]
  -- if nothing shows, the bytes before the data read as zeros
  constructor
  · intro h
    by_contra hcond
    rw [not_or, not_or] at hcond
    obtain ⟨hne, hin, hstale⟩ := hcond
    refine hstale fun p hp hpo => ?_
    rw [if_neg hne] at hvalid
    have hzero := (hread (by omega)).mp (h.gap p hp hpo)
    rw [if_pos (by omega), if_neg (by omega)] at hzero
    unfold reached at hzero
    rw [if_neg fun hgap => hin hgap.1] at hzero
    exact hzero.symm
  · intro hcond
    -- the bytes that become valid without being written are zeros
    have hzero : ∀ p, n.validSize ≤ p → p < s.node.validSize → (p < off ∨ off + data.length ≤ p) →
        reached ef n L off p = 0 := by
      intro p hp hpv hout
      unfold reached
      by_cases hgap : n.size < off
      · exact if_pos ⟨hgap, hp⟩
      · rw [if_neg fun h => hgap h.1]
        rw [if_neg hgap] at hvalid
        rcases hcond with rfl | hlt | hzeros
        · rw [if_pos rfl] at hvalid
          omega
        · exact absurd hlt hgap
        · refine hzeros p hp ?_
          split at hvalid <;> omega
    refine ⟨?_, ?_, ?_, ?_⟩
    -- the bytes before the data
    · intro p hp hpo
      dsimp only at hp
      rw [hread (by omega)]
      by_cases hpv : p < s.node.validSize
      · rw [if_pos hpv, if_neg (by omega), hzero p hp hpv (Or.inl hpo)]
      · rw [if_neg hpv]
    -- the bytes behind the data
    · intro p hp hpo hps
      rw [hread hps]
      by_cases hpv : p < s.node.validSize
      · rw [if_pos hpv, if_neg (by omega), hzero p hp hpv (Or.inr hpo)]
      · rw [if_neg hpv]
    -- the bytes that were valid before
    · intro p b hp hout hb
      dsimp only at hp
      rw [readsAs_iff hr hf (by omega), if_pos hp] at hb
      have hpv : p < s.node.validSize := by
        split at hvalid <;> split at hvalid <;> omega
      rw [hread (by omega), if_pos hpv, if_neg (by omega), hb]
      unfold reached
      rw [if_neg (by omega)]
    -- the data itself
    · intro p hp hpe
      have hpv : p < s.node.validSize := by
        rw [if_neg (by rintro rfl; rw [List.length_nil] at hpe; omega)] at hvalid
        omega
      rw [hread (by omega), if_pos hpv, if_pos ⟨hp, hpe⟩]

/-! A file of three bytes of which one is valid, in a cluster that holds something else. -/

/-- The volume with its clusters full of 255. -/
def staleEf : Ef Flat := { twoFiles.ef with dev := { bytes := fun _ => 255, size := 5120 } }

/-- The file of three bytes with one valid byte. -/
def staleFile : Node := { threeByteFile with validSize := 1 }

/-- The volume is ready. -/
theorem staleEf_ready : Ready staleEf := ⟨smallSuperBlock_layout, by decide, by decide, by decide⟩

/-- The file has its cluster. -/
theorem staleFile_file : File staleEf staleFile [5] := by
  refine ⟨⟨⟨rfl, trivial⟩, ?_, by decide, Or.inl ⟨rfl, rfl⟩, by decide⟩, ?_, by decide, by decide⟩
  · intro c hc
    rw [List.mem_singleton.mp hc]
    decide
  · intro c hc
    rw [List.mem_singleton.mp hc]
    decide

/-- A write at the end of the valid bytes shows nothing else; one a byte further on does. -/
theorem exfatGenericPwrite_unexposed_staleFile :
    Unexposed ⟨staleEf, staleFile⟩ 1 [7]
      (finalState (exfatGenericPwrite [7] 1 ⟨staleEf, staleFile⟩)) ∧
    ¬ Unexposed ⟨staleEf, staleFile⟩ 2 [7]
      (finalState (exfatGenericPwrite [7] 2 ⟨staleEf, staleFile⟩)) := by
  have he : Ended staleEf.sb staleEf.dev.bytes staleFile [5] :=
    fun hcont => absurd hcont (by decide)
  have hiff := fun (offset : Int) (hoff : offset < 2 ^ 63) k s
      (hrun : exfatGenericPwrite [7] offset (⟨staleEf, staleFile⟩ : FileState Flat) =
        .ok (.ok k) s) =>
    exfatGenericPwrite_unexposed_iff staleEf_ready staleFile_file he hoff (by decide) hrun
  have hrun₁ := hiff 1 (by decide) 1 _ (eq_of_valueOf (by decide +kernel))
  have hrun₂ := hiff 2 (by decide) 1 _ (eq_of_valueOf (by decide +kernel))
  refine ⟨hrun₁.mpr (Or.inr (Or.inr ?_)), fun h => ?_⟩
  · intro p hp hp'
    have hp₁ : 1 ≤ p := hp
    have hp₂ : p < 1 := hp'
    omega
  · rcases hrun₂.mp h with h0 | hlt | hzeros
    · cases h0
    · exact absurd hlt (by decide)
    · exact absurd (hzeros 1 (by decide) (by decide)) (by decide)

/-- A write into the file behind its valid bytes succeeds, and what the cluster held before it can
then be read. -/
theorem exfatGenericPwrite_exposed : ∃ k s,
    exfatGenericPwrite [7] 2 ⟨staleEf, staleFile⟩ = .ok (.ok k) s ∧
      ¬ Unexposed ⟨staleEf, staleFile⟩ 2 [7] s := by
  have hrun : exfatGenericPwrite [7] 2 ⟨staleEf, staleFile⟩ =
      .ok (.ok 1) (finalState (exfatGenericPwrite [7] 2 ⟨staleEf, staleFile⟩)) :=
    eq_of_valueOf (by decide +kernel)
  refine ⟨1, _, hrun, fun h => ?_⟩
  obtain ⟨s', hread⟩ := h.gap 1 (by decide) (by decide)
  have hvalue : valueOf (exfatGenericPread 1 1
      (finalState (exfatGenericPwrite [7] 2 ⟨staleEf, staleFile⟩))) = some (.ok (1, [255])) := by
    decide +kernel
  have hzero := hvalue.symm.trans (congrArg valueOf hread)
  simp [valueOf] at hzero

end ExFat
