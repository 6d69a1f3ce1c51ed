import ExFat.Alloc.Walk

namespace ExFat

open Bytes Program Chain

/-!
# Growing and shrinking a node

`shrink_file` and `grow_file` change the FAT, the bitmap and the links of one node.  What they do
to the volume as a whole is the relation `Moved`: the node's clusters were `L` and are `L'`, the
bits follow them, the clusters that came in were free, and every cluster somebody else uses is as
it was.  `Moved` composes, so the same relation describes a whole run.

A growth that finds no free cluster gives back what it has taken: the list of clusters is the old
one again, but the node may have become fragmented on the way.
-/

/-- The node with other clusters: its first one, the flag, the file pointer, and the dirty flag. -/
def Node.place (n : Node) (start : Nat) (contiguous : Bool) (index cluster : Nat) (dirty : Bool) :
    Node :=
  { n with
    startCluster := start
    isContiguous := contiguous
    fptrIndex := index
    fptrCluster := cluster
    isDirty := dirty }

section Place

variable (n : Node) (start start' : Nat) (contiguous contiguous' : Bool)
  (index cluster index' cluster' : Nat) (dirty dirty' : Bool)

/-- Of two places the later one counts. -/
@[simp] theorem Node.place_place : (n.place start contiguous index cluster dirty).place start'
    contiguous' index' cluster' dirty' = n.place start' contiguous' index' cluster' dirty' := rfl

end Place

/-- Nothing of the node but its place has changed. -/
def Placed (n n' : Node) : Prop :=
  n' = n.place n'.startCluster n'.isContiguous n'.fptrIndex n'.fptrCluster n'.isDirty

/-- A node is where it was. -/
theorem Placed.refl (n : Node) : Placed n n := rfl

/-- Nodes may be moved twice. -/
theorem Placed.trans {n n' n'' : Node} (h : Placed n n') (h' : Placed n' n'') : Placed n n'' := by
  unfold Placed at *
  rw [h, Node.place_place] at h'
  exact h'

/-- What is stored of the node's place on disk has not changed, or the node is dirty. -/
def Marked (n n' : Node) : Prop :=
  n'.isDirty = true ∨
    (n'.startCluster = n.startCluster ∧ n'.isContiguous = n.isContiguous ∧ n'.isDirty = n.isDirty)

/-- A node whose mapping is as before needs no mark. -/
theorem Marked.refl (n : Node) : Marked n n := Or.inr ⟨rfl, rfl, rfl⟩

/-- A node stays marked when it is moved again. -/
theorem Marked.trans {n n' n'' : Node} (h : Marked n n') (h' : Marked n' n'') : Marked n n'' := by
  rcases h' with h' | ⟨h1, h2, h3⟩
  · exact Or.inl h'
  · rcases h with h | ⟨g1, g2, g3⟩
    · exact Or.inl (h3.trans h)
    · exact Or.inr ⟨h1.trans g1, h2.trans g2, h3.trans g3⟩

/-- Every cluster of the list has its bit set. -/
def Taken (chunk : Nat → Bool) (L : List Nat) : Prop := ∀ c ∈ L, chunk (c - 2) = true

/-- The bitmap with the bits of the clusters of a list cleared. -/
def clearBits (chunk : Nat → Bool) (R : List Nat) : Nat → Bool :=
  fun i => chunk i && !decide (i + 2 ∈ R)

/-- Bits may be cleared one by one. -/
theorem clearBits_cons (chunk : Nat → Bool) {c : Nat} (hc : 2 ≤ c) (R : List Nat) :
    clearBits (Function.update chunk (c - 2) false) R = clearBits chunk (c :: R) := by
  funext i
  unfold clearBits
  by_cases hi : i = c - 2
  · subst hi
    have hc2 : c - 2 + 2 = c := by omega
    simp [hc2]
  · have hne : i + 2 ≠ c := by omega
    simp [Function.update_of_ne hi, hne]

/-- A node's clusters change from `L` to `L'`, the medium from `b` to `b'` and the bitmap from
`chunk` to `chunk'`, and what is not the node's is left alone. -/
structure Moved (sb : SuperBlock) (L L' : List Nat) (b b' : Store) (chunk chunk' : Nat → Bool) :
    Prop where
  fresh : ∀ c ∈ L', c ∈ L ∨ chunk (c - 2) = false
  bits : ∀ c, Valid sb c → (chunk' (c - 2) = true ↔ c ∈ L' ∨ (chunk (c - 2) = true ∧ c ∉ L))
  frame : ∀ c, Valid sb c → chunk (c - 2) = true → c ∉ L → Untouched sb b b' c

section Moved

variable {sb : SuperBlock} {L L' L'' : List Nat} {b b' b'' : Store}
  {chunk chunk' chunk'' : Nat → Bool}

/-- A list of clusters that is in use has been moved to itself. -/
theorem Moved.refl (sb : SuperBlock) (b : Store) (h : Taken chunk L) :
    Moved sb L L b b chunk chunk := by
  refine ⟨fun c hc => Or.inl hc, ?_, fun c _ _ _ => Untouched.refl sb b c⟩
  intro c _
  constructor
  · intro hbit
    by_cases hc : c ∈ L
    · exact Or.inl hc
    · exact Or.inr ⟨hbit, hc⟩
  · rintro (hc | ⟨hbit, _⟩)
    · exact h c hc
    · exact hbit

/-- The clusters of the new list are in use. -/
theorem Moved.taken (h : Moved sb L L' b b' chunk chunk') (hv : ∀ c ∈ L', Valid sb c) :
    Taken chunk' L' := fun c hc => (h.bits c (hv c hc)).mpr (Or.inl hc)

/-- A cluster somebody else uses is not among the node's clusters afterwards. -/
theorem Moved.not_mem (h : Moved sb L L' b b' chunk chunk') {c : Nat} (hbit : chunk (c - 2) = true)
    (hc : c ∉ L) : c ∉ L' := by
  intro hc'
  rcases h.fresh c hc' with hL | hfree
  · exact hc hL
  · rw [hbit] at hfree
    cases hfree

/-- Lists of clusters may be changed twice. -/
theorem Moved.trans (h : Moved sb L L' b b' chunk chunk')
    (h' : Moved sb L' L'' b' b'' chunk' chunk'') (hv : ∀ c ∈ L'', Valid sb c) :
    Moved sb L L'' b b'' chunk chunk'' := by
  refine ⟨?_, ?_, ?_⟩
  · intro c hc
    rcases h'.fresh c hc with hL' | hfree
    · exact h.fresh c hL'
    · by_cases hL : c ∈ L
      · exact Or.inl hL
      · right
        by_contra hbit
        have := (h.bits c (hv c hc)).mpr (Or.inr ⟨by simpa using hbit, hL⟩)
        rw [hfree] at this
        cases this
  · intro c hvc
    rw [h'.bits c hvc, h.bits c hvc]
    constructor
    · rintro (hc | ⟨hc | hc, hne⟩)
      · exact Or.inl hc
      · exact absurd hc hne
      · exact Or.inr hc
    · rintro (hc | hc)
      · exact Or.inl hc
      · exact Or.inr ⟨Or.inr hc, h.not_mem hc.1 hc.2⟩
  · intro c hvc hbit hc
    have hbit' : chunk' (c - 2) = true := (h.bits c hvc).mpr (Or.inr ⟨hbit, hc⟩)
    exact (h.frame c hvc hbit hc).trans (h'.frame c hvc hbit' (h.not_mem hbit hc))

/-- A step that changes links of the node's own clusters only. -/
theorem Moved.of_fat (ht : Taken chunk L)
    (hfat : ∀ x, x ∉ L → fatEntry sb b' x = fatEntry sb b x)
    (hdata : ∀ x o, clusterByte sb b' x o = clusterByte sb b x o) : Moved sb L L b b' chunk chunk :=
  ⟨fun _ hc => Or.inl hc, (Moved.refl sb b ht).bits,
    fun c _ _ hc => ⟨hfat c hc, fun o _ => hdata c o⟩⟩

/-- A free cluster is added to the node. -/
theorem Moved.add {c : Nat} (hc : Valid sb c) (ht : Taken chunk L) (hfree : chunk (c - 2) = false) :
    Moved sb L (L ++ [c]) b b chunk (Function.update chunk (c - 2) true) := by
  have hc2 := hc.two_le
  refine ⟨?_, ?_, fun x _ _ _ => Untouched.refl sb b x⟩
  · intro x hx
    rcases List.mem_append.mp hx with hx | hx
    · exact Or.inl hx
    · rw [List.mem_singleton.mp hx]
      exact Or.inr hfree
  · intro x hx
    have hx2 := hx.two_le
    by_cases hxc : x = c
    · subst hxc
      simp
    · rw [Function.update_of_ne (by omega)]
      simp only [List.mem_append, List.mem_singleton, hxc, or_false]
      exact (Moved.refl sb b ht).bits x hx

/-- The clusters at the end of the list are given up. -/
theorem Moved.cut {K R : List Nat} (ht : Taken chunk (K ++ R)) (hnd : (K ++ R).Nodup)
    (hfat : ∀ x, x ∉ K ++ R → fatEntry sb b' x = fatEntry sb b x)
    (hdata : ∀ x o, clusterByte sb b' x o = clusterByte sb b x o) :
    Moved sb (K ++ R) K b b' chunk (clearBits chunk R) := by
  refine ⟨fun c hc => Or.inl (List.mem_append_left R hc), ?_,
    fun c _ _ hc => ⟨hfat c hc, fun o _ => hdata c o⟩⟩
  intro c hv
  have hc2 : c - 2 + 2 = c := by
    have := hv.two_le
    omega
  simp only [clearBits, hc2, Bool.and_eq_true, Bool.not_eq_true', decide_eq_false_iff_not,
    List.mem_append, not_or]
  constructor
  · rintro ⟨hbit, hR⟩
    by_cases hK : c ∈ K
    · exact Or.inl hK
    · exact Or.inr ⟨hbit, hK, hR⟩
  · rintro (hK | ⟨hbit, _, hR⟩)
    · exact ⟨ht c (List.mem_append_left R hK), fun hR => (List.disjoint_of_nodup_append hnd) hK hR⟩
    · exact ⟨hbit, hR⟩

end Moved

/-- What the routines need of the volume: the layout, and a bitmap of one bit per cluster. -/
structure Ready (ef : Ef Flat) : Prop where
  layout : Layout ef.sb
  word : 0 < ef.wordBits
  chunkSize : ef.cmap.chunkSize = ef.sb.clusterCount
  size : ef.cmap.size = ef.sb.clusterCount

instance (ef : Ef Flat) : Decidable (Ready ef) :=
  decidable_of_iff (Layout ef.sb ∧ 0 < ef.wordBits ∧ ef.cmap.chunkSize = ef.sb.clusterCount ∧
      ef.cmap.size = ef.sb.clusterCount)
    ⟨fun ⟨hlayout, hword, hchunk, hsize⟩ => ⟨hlayout, hword, hchunk, hsize⟩,
      fun h => ⟨h.layout, h.word, h.chunkSize, h.size⟩⟩

/-- A volume stays ready whatever is written to it. -/
theorem Ready.upd {ef : Ef Flat} (h : Ready ef) (b : Store) (chunk : Nat → Bool) (dirty : Bool)
    (errors ticks : Nat) : Ready (ef.upd b chunk dirty errors ticks) :=
  ⟨h.layout, h.word, h.chunkSize, h.size⟩

/-- The end mark is no cluster. -/
theorem clusterInvalid_linkTo_end {sb : SuperBlock} {b : Store} {c : Nat} (hl : Layout sb) :
    sb.clusterInvalid (fatEntry sb (linkTo sb b false c clusterEnd) c) = true := by
  have hentry : fatEntry sb (linkTo sb b false c clusterEnd) c = clusterEnd :=
    fatEntry_setFat_self _
  rw [hentry]
  exact clusterEnd_not_valid hl

/-! ### `shrink_file` -/

variable {ef : Ef Flat} {n : Node}

/-- The freeing loop clears the bits and the links of the clusters it passes, and nothing else. -/
theorem freeLoop_run (hr : Ready ef) (R : List Nat) (previous : Nat)
    (hf : Follows (nextOf ef.sb ef.dev.bytes n.isContiguous) previous R)
    (hv : ∀ c ∈ R, Valid ef.sb c) (hnd : R.Nodup) :
    ∃ b' dirty', freeLoop R.length previous ⟨ef, n⟩ =
        .ok (.ok ()) ⟨ef.upd b' (clearBits ef.cmap.chunk R) dirty' ef.errors ef.ticks, n⟩ ∧
      (∀ x, x ∉ R → fatEntry ef.sb b' x = fatEntry ef.sb ef.dev.bytes x) ∧
      ∀ x o, clusterByte ef.sb b' x o = clusterByte ef.sb ef.dev.bytes x o := by
  -- On the clusters that are left; the next one is read before its link is cleared.
  induction R generalizing previous ef with
  | nil =>
    refine ⟨ef.dev.bytes, ef.cmap.dirty, ?_, fun _ _ => rfl, fun _ _ => rfl⟩
    have hchunk : clearBits ef.cmap.chunk [] = ef.cmap.chunk := by
      funext i
      simp [clearBits]
    rw [hchunk]
    rfl
  | cons c R ih =>
    obtain ⟨rfl, hf⟩ := hf
    have hc : Valid ef.sb c := hv c (by simp)
    have hcR : c ∉ R := (List.nodup_cons.mp hnd).1
    -- the volume after one cluster has been freed
    let ef1 := ef.upd (linkTo ef.sb ef.dev.bytes n.isContiguous c clusterFree)
      (Function.update ef.cmap.chunk (c - 2) false) true ef.errors ef.ticks
    have hr1 : Ready ef1 := hr.upd ..
    -- clearing the link of `c` does not disturb the rest of the chain
    have hf1 : Follows (nextOf ef1.sb ef1.dev.bytes n.isContiguous)
        (nextOf ef.sb ef.dev.bytes n.isContiguous c) R := by
      apply hf.congr_of_mem
      intro x hx
      refine (nextOf_linkTo_of_ne ?_).symm
      rintro rfl
      exact hcR hx
    obtain ⟨b', dirty', hrun, hfat, hdata⟩ :=
      ih hr1 _ hf1 (fun x hx => hv x (List.mem_cons_of_mem _ hx)) (List.nodup_cons.mp hnd).2
    simp only [ef1, Ef.upd_sb, Ef.upd_bytes] at hfat hdata
    refine ⟨b', dirty', ?_, ?_, ?_⟩
    · have hvalid : ef.sb.clusterInvalid c = false := hc
      rw [List.length_cons, freeLoop]
      simp only [run_bind, run_get, hvalid, Bool.false_eq_true, if_false,
        exfatNextCluster_run hc.two_le, run_onEf, run_setNextCluster, if_true]
      rw [freeCluster_run (by exact hr.layout) (by exact hc) (by exact hr.size)]
      refine hrun.trans ?_
      simp only [ef1, Ef.upd_upd, Ef.upd_chunk, Ef.upd_errors, Ef.upd_ticks,
        clearBits_cons _ hc.two_le]
    · intro x hx
      rw [List.mem_cons, not_or] at hx
      rw [hfat x hx.2, fatEntry_linkTo_of_ne hx.1]
    · intro x o
      rw [hdata, clusterByte_linkTo hr.layout hc]

/-- `shrink_file` takes the last `d` clusters from a node, and returns them to the bitmap. -/
theorem shrinkFile_run {K R : List Nat} (hr : Ready ef)
    (hch : Chained ef.sb ef.dev.bytes n (K ++ R)) (ht : Taken ef.cmap.chunk (K ++ R))
    (hR : R ≠ []) :
    ∃ b' chunk' dirty' n', shrinkFile (K ++ R).length R.length ⟨ef, n⟩ =
        .ok (.ok ()) ⟨ef.upd b' chunk' dirty' ef.errors ef.ticks, n'⟩ ∧
      Placed n n' ∧ Marked n n' ∧ (K = [] → n'.isDirty = true) ∧
      Chained ef.sb b' n' K ∧ Moved ef.sb (K ++ R) K ef.dev.bytes b' ef.cmap.chunk chunk' ∧
      Ended ef.sb b' n' K ∧ ∀ x o, clusterByte ef.sb b' x o =
        clusterByte ef.sb ef.dev.bytes x o := by
  -- the start cluster of the node is the first one of the chain
  have hRpos : R.length ≠ 0 := by simpa using hR
  have hstart : (K ++ R)[0]? = some n.startCluster := by
    have hpos : 0 < (K ++ R).length := by
      rw [List.length_append]
      omega
    rw [List.getElem?_eq_getElem hpos, hch.follows.getElem hpos]
    rfl
  have hstartValid : Valid ef.sb n.startCluster := hch.valid _ (List.mem_of_getElem? hstart)
  have hstartNe : n.startCluster ≠ clusterFree := by
    have := hstartValid.two_le
    unfold clusterFree
    omega
  have hvR : ∀ c ∈ R, Valid ef.sb c := fun c hc => hch.valid c (List.mem_append_right K hc)
  have hndR : R.Nodup := (List.nodup_append.mp hch.nodup).2.1
  have hfollows := follows_append.mp hch.follows
  unfold shrinkFile
  simp only [run_bind, run_get]
  rw [if_neg hRpos, if_neg hstartNe, if_neg (by rw [List.length_append]; omega)]
  rcases List.eq_nil_or_concat K with rfl | ⟨K0, p, rfl⟩
  · -- nothing is left of the node
    simp only [List.nil_append] at hch ht hstart ⊢
    rw [if_neg (by omega)]
    simp only [shrinkTail, run_bind, run_modifyNode]
    obtain ⟨b', dirty', hrun, hfat, hdata⟩ := freeLoop_run
      (n := n.place clusterFree n.isContiguous 0 clusterFree true) hr R n.startCluster hch.follows
      hvR hndR
    refine ⟨b', _, dirty', _, hrun, rfl, Or.inl rfl, fun _ => rfl, ?_,
      Moved.cut (K := []) ht hch.nodup hfat hdata, fun _ => nofun, hdata⟩
    exact ⟨trivial, by simp, List.nodup_nil, Or.inl ⟨rfl, rfl⟩, fun _ => rfl⟩
  -- the last cluster that is kept is found by walking, and its link is cut
  · rw [List.concat_eq_append] at hch ht hfollows ⊢
    have hlen : (K0 ++ [p] ++ R).length - R.length - 1 = K0.length := by
      simp only [List.length_append, List.length_singleton]
      omega
    have hlt : K0.length < (K0 ++ [p] ++ R).length := by
      simp only [List.length_append, List.length_singleton]
      omega
    have hp : (K0 ++ [p] ++ R)[K0.length] = p := by simp
    have hpv : Valid ef.sb p := hch.valid p (by simp)
    have hpi : ef.sb.clusterInvalid p = false := hpv
    have hpR : p ∉ R := fun h => (List.disjoint_of_nodup_append hch.nodup) (by simp) h
    have hpK : p ∉ K0 := by
      have := (List.nodup_append.mp hch.nodup).1
      rw [List.nodup_append] at this
      intro h
      exact this.2.2 p h p (by simp) rfl
    rw [if_pos (by rw [List.length_append, List.length_append, List.length_singleton]; omega), hlen]
    simp only [run_bind, exfatAdvanceCluster_run hch hlt, hp, hpi, Bool.false_eq_true, if_false,
      exfatNextCluster_run hpv.two_le, run_onEf, run_setNextCluster, if_true, shrinkTail,
      run_modifyNode]
    -- the first cluster that is cut off is the one the last one kept was linked to
    have hnext : (nextOf ef.sb ef.dev.bytes n.isContiguous)^[(K0 ++ [p]).length] n.startCluster =
        nextOf ef.sb ef.dev.bytes n.isContiguous p := by
      have hpe := hch.follows.getElem hlt
      rw [hp] at hpe
      rw [List.length_append, List.length_singleton, Function.iterate_succ_apply', ← hpe]
    rw [hnext] at hfollows
    have hr1 : Ready (ef.upd (linkTo ef.sb ef.dev.bytes n.isContiguous p clusterEnd) ef.cmap.chunk
      ef.cmap.dirty ef.errors ef.ticks) := hr.upd ..
    obtain ⟨b', dirty', hrun, hfat, hdata⟩ := freeLoop_run
      (n := n.place n.startCluster n.isContiguous 0 n.startCluster n.isDirty) hr1 R _
      (hfollows.2.congr_of_mem fun x hx => (nextOf_linkTo_of_ne (by rintro rfl; exact hpR hx)).symm)
      hvR hndR
    simp only [Ef.upd_sb, Ef.upd_bytes] at hfat hdata
    have hdata' : ∀ x o, clusterByte ef.sb b' x o = clusterByte ef.sb ef.dev.bytes x o := by
      intro x o
      rw [hdata, clusterByte_linkTo hr.layout hpv]
    -- in the FAT it is the end of the chain now
    have hended : Ended ef.sb b' (n.place n.startCluster n.isContiguous 0 n.startCluster n.isDirty)
        (K0 ++ [p]) := by
      intro (hcont : n.isContiguous = false) c hc
      rw [List.getLast?_concat] at hc
      cases hc
      rw [hfat p hpR, hcont]
      exact clusterInvalid_linkTo_end hr.layout
    refine ⟨b', _, dirty', _, hrun, rfl, Or.inr ⟨rfl, rfl, rfl⟩, by simp, ?_,
      Moved.cut ht hch.nodup ?_ hdata', hended, hdata'⟩
    -- what is kept is still a chain: none of its links has been touched
    · refine ⟨?_, fun c hc => hch.valid c (List.mem_append_left R hc),
        (List.nodup_append.mp hch.nodup).1, Or.inl ⟨rfl, rfl⟩, by simp⟩
      apply hfollows.1.congr
      intro x hx
      rw [List.dropLast_concat] at hx
      have hxR : x ∉ R := fun h => (List.disjoint_of_nodup_append hch.nodup)
        (List.mem_append_left _ hx) h
      have hxp : x ≠ p := by
        rintro rfl
        exact hpK hx
      show _ = nextOf ef.sb b' n.isContiguous x
      unfold nextOf
      rw [hfat x hxR, fatEntry_linkTo_of_ne hxp]
    · intro x hx
      simp only [List.mem_append, List.mem_singleton, not_or] at hx
      rw [hfat x hx.2, fatEntry_linkTo_of_ne hx.1.2]

/-! ### `grow_file` -/

section Link

variable {sb : SuperBlock} {b : Store} {start p c : Nat} {M : List Nat}

/-- The clusters of a contiguous node are consecutive numbers. -/
theorem Chained.eq_range' (hl : Layout sb) (h : Follows (nextOf sb b true) start M)
    (hv : ∀ c ∈ M, Valid sb c) : M = List.range' start M.length := by
  have hsucc : Follows (· + 1) start M := by
    apply h.congr_of_mem
    intro x hx
    have := (hv x hx).lt_word hl
    exact Nat.mod_eq_of_lt (by omega)
  exact hsucc.ext (follows_range' start M.length) (by simp)

/-- Linking a new cluster after the last one. -/
theorem follows_link {contiguous : Bool} (h : Follows (nextOf sb b contiguous) start (M ++ [p]))
    (hnd : (M ++ [p]).Nodup) (hc : c < 2 ^ 32) (hcont : contiguous = true → c = u32 (p + 1)) :
    Follows (nextOf sb (linkTo sb b contiguous p c) contiguous) start (M ++ [p] ++ [c]) := by
  apply h.snoc
  · intro x hx
    refine (nextOf_linkTo_of_ne ?_).symm
    rintro rfl
    exact (List.nodup_append.mp hnd).2.2 x hx x (by simp) rfl
  · cases contiguous with
    | true => exact (hcont rfl).symm
    | false => exact (fatEntry_setFat_self c).trans (Nat.mod_eq_of_lt hc)

/-- Ending the chain at the last cluster. -/
theorem follows_end {contiguous : Bool} (v : Nat)
    (h : Follows (nextOf sb b contiguous) start (M ++ [p])) (hnd : (M ++ [p]).Nodup) :
    Follows (nextOf sb (linkTo sb b contiguous p v) contiguous) start (M ++ [p]) := by
  apply h.congr
  intro x hx
  rw [List.dropLast_concat] at hx
  refine (nextOf_linkTo_of_ne ?_).symm
  rintro rfl
  exact (List.nodup_append.mp hnd).2.2 x hx x (by simp) rfl

end Link

/-- The switch to the FAT in the middle of a growth: the links of a contiguous chain are written
out, and the chain can go on anywhere. -/
theorem makeNoncontiguous_chain {start p : Nat} {M : List Nat} (hl : Layout ef.sb)
    (h : Follows (nextOf ef.sb ef.dev.bytes true) start (M ++ [p]))
    (hv : ∀ c ∈ M ++ [p], Valid ef.sb c) :
    ∃ b', makeNoncontiguous start (p - start) ef =
        .ok true (ef.upd b' ef.cmap.chunk ef.cmap.dirty ef.errors ef.ticks) ∧
      Follows (nextOf ef.sb b' false) start (M ++ [p]) ∧
      (∀ x, x ∉ M ++ [p] → fatEntry ef.sb b' x = fatEntry ef.sb ef.dev.bytes x) ∧
      ∀ x o, clusterByte ef.sb b' x o = clusterByte ef.sb ef.dev.bytes x o := by
  -- the chain is consecutive, so its links can be written from the numbers alone
  have hrange := Chained.eq_range' hl h hv
  rw [List.length_append, List.length_singleton] at hrange
  have hp : p = start + M.length := by
    have h1 : (M ++ [p])[M.length]? = some p := by simp
    rw [hrange, List.getElem?_range' (by omega)] at h1
    simpa using h1.symm
  have hM : M = List.range' start M.length := by
    rw [List.range'_concat] at hrange
    exact (List.append_inj' hrange rfl).1
  have hpv := hv p (by simp)
  have hsv : Valid ef.sb start := by
    apply hv
    rw [hrange]
    exact List.mem_range'_1.mpr (by omega)
  obtain ⟨b', hrun, hlinks, hothers, hdata⟩ := makeNoncontiguous_run hl start M.length hsv.two_le
    (by have := hpv.lt; omega)
  have hsub : p - start = M.length := by omega
  rw [hsub]
  refine ⟨b', hrun, ?_, ?_, hdata⟩
  -- the links that have been written are those the flag stood for
  · apply h.congr
    intro x hx
    rw [List.dropLast_concat] at hx
    have hxw := (hv x (List.mem_append_left _ hx)).lt_word hl
    rw [hM] at hx
    have hx' := List.mem_range'_1.mp hx
    have hlink := hlinks (x - start) (by omega)
    rw [show start + (x - start) = x by omega] at hlink
    exact (Nat.mod_eq_of_lt (by omega)).trans hlink.symm
  · intro x hx
    apply hothers
    by_contra hin
    apply hx
    rw [List.mem_append]
    left
    rw [hM]
    exact List.mem_range'_1.mpr (by omega)

/-- Linking a new cluster, contiguous or not. -/
theorem linkCluster_run (ef : Ef Flat) {p c : Nat} {M : List Nat} (hl : Layout ef.sb)
    (hch : Chained ef.sb ef.dev.bytes n (M ++ [p])) (hc : Valid ef.sb c) (hcM : c ∉ M ++ [p]) :
    ∃ b' n', linkCluster p c ⟨ef, n⟩ =
        .ok true ⟨ef.upd b' ef.cmap.chunk ef.cmap.dirty ef.errors ef.ticks, n'⟩ ∧
      Placed n n' ∧ Marked n n' ∧ Chained ef.sb b' n' (M ++ [p] ++ [c]) ∧
      (∀ x, x ∉ M ++ [p] → fatEntry ef.sb b' x = fatEntry ef.sb ef.dev.bytes x) ∧
      ∀ x o, clusterByte ef.sb b' x o = clusterByte ef.sb ef.dev.bytes x o := by
  have hpv : Valid ef.sb p := hch.valid p (by simp)
  have hcw : c < 2 ^ 32 := by
    have := hc.lt_word hl
    omega
  have hvalid : ∀ x ∈ M ++ [p] ++ [c], Valid ef.sb x := by
    intro x hx
    rcases List.mem_append.mp hx with hx | hx
    · exact hch.valid x hx
    · rw [List.mem_singleton.mp hx]
      exact hc
  have hnodup : (M ++ [p] ++ [c]).Nodup := by
    rw [List.nodup_append]
    refine ⟨hch.nodup, by simp, ?_⟩
    intro x hx y hy
    rw [List.mem_singleton.mp hy]
    rintro rfl
    exact hcM hx
  -- the cached cluster is not moved
  have hfptr : PointsInto (M ++ [p] ++ [c]) n.startCluster n.fptrIndex n.fptrCluster := by
    rcases hch.fptr with h | h
    · exact Or.inl h
    · right
      rw [List.getElem?_append_left (List.getElem?_eq_some_iff.mp h).1]
      exact h
  unfold linkCluster
  simp only [run_bind, run_get]
  -- The only case that rewrites the FAT is a contiguous chain that cannot go on.
  by_cases hsw : c ≠ u32 (p + 1) ∧ n.isContiguous = true
  · rw [if_pos hsw]
    have hfollows := hch.follows
    rw [hsw.2] at hfollows
    obtain ⟨b₁, hrun, hf₁, hfat₁, hdata₁⟩ := makeNoncontiguous_chain hl hfollows hch.valid
    simp only [run_bind, run_onEf, hrun, if_true, run_modifyNode, run_setNextCluster]
    refine ⟨_, _, rfl, rfl, Or.inl rfl, ⟨?_, hvalid, hnodup, hfptr, by simp⟩, ?_, ?_⟩
    · exact follows_link hf₁ hch.nodup hcw (by simp)
    · intro x hx
      simp only [Ef.upd_sb, Ef.upd_bytes]
      rw [fatEntry_linkTo_of_ne (by rintro rfl; exact hx (by simp)), hfat₁ x hx]
    · intro x o
      simp only [Ef.upd_sb, Ef.upd_bytes]
      rw [clusterByte_linkTo hl hpv, hdata₁]
  -- otherwise one link is written, or none if the chain stays contiguous
  · rw [if_neg hsw]
    simp only [run_onEf, run_setNextCluster]
    refine ⟨_, _, rfl, Placed.refl n, Marked.refl n, ⟨?_, hvalid, hnodup, hfptr, by simp⟩, ?_, ?_⟩
    · refine follows_link hch.follows hch.nodup hcw ?_
      intro hcont
      by_contra hne
      exact hsw ⟨hne, hcont⟩
    · intro x hx
      exact fatEntry_linkTo_of_ne (by rintro rfl; exact hx (by simp))
    · intro x o
      exact clusterByte_linkTo hl hpv o

/-- What a growth does: the result, the new clusters, and everything else.  `k` clusters were asked
for; `current` were there before the growth began. -/
def Grown (ef : Ef Flat) (n : Node) (M : List Nat) (current k : Nat) (r : Rc)
    (s : FileState Flat) : Prop :=
  ∃ b' chunk' dirty' errors' n' M', s = ⟨ef.upd b' chunk' dirty' errors' ef.ticks, n'⟩ ∧
    Placed n n' ∧ Chained ef.sb b' n' M' ∧
    Moved ef.sb M M' ef.dev.bytes b' ef.cmap.chunk chunk' ∧
    (∀ x o, clusterByte ef.sb b' x o = clusterByte ef.sb ef.dev.bytes x o) ∧
    ((r = .ok () ∧ (∃ A, M' = M ++ A ∧ A.length = k) ∧ Marked n n' ∧ Ended ef.sb b' n' M') ∨
      (r = .error .enospc ∧ M' = M.take current ∧ Marked n n' ∧
        (current = 0 → n'.isDirty = true)))

/-- The loop of `grow_file`.  `M₀ ++ [previous]` are the clusters of the node so far, the last
`allocated` of them new. -/
theorem growLoop_run (hr : Ready ef) (k previous allocated current : Nat) (M₀ : List Nat)
    (hch : Chained ef.sb ef.dev.bytes n (M₀ ++ [previous]))
    (ht : Taken ef.cmap.chunk (M₀ ++ [previous]))
    (hlen : (M₀ ++ [previous]).length = current + allocated) :
    ∃ r s, growLoop current k previous allocated ⟨ef, n⟩ = .ok r s ∧
      Grown ef n (M₀ ++ [previous]) current k r s := by
  -- On the clusters still to be added.
  induction k generalizing ef n previous allocated M₀ with
  -- all are there: the chain is closed
  | zero =>
    have hpv : Valid ef.sb previous := hch.valid previous (by simp)
    have hdata : ∀ x o, clusterByte ef.sb (linkTo ef.sb ef.dev.bytes n.isContiguous previous
        clusterEnd) x o = clusterByte ef.sb ef.dev.bytes x o :=
      fun x o => clusterByte_linkTo hr.layout hpv o
    refine ⟨.ok (), _, ?_, _, _, ef.cmap.dirty, ef.errors, _, M₀ ++ [previous], rfl, Placed.refl n,
      ⟨follows_end clusterEnd hch.follows hch.nodup, hch.valid, hch.nodup, hch.fptr, hch.empty⟩,
      Moved.of_fat ht ?_ hdata, hdata, Or.inl ⟨rfl, ⟨[], by simp⟩, Marked.refl n, ?_⟩⟩
    · unfold growLoop
      simp only [run_bind, run_get, run_onEf, run_setNextCluster, if_true, run_pure]
    · intro x hx
      exact fatEntry_linkTo_of_ne (by rintro rfl; exact hx (by simp))
    · intro hcont c hc
      rw [List.getLast?_concat] at hc
      cases hc
      rw [hcont]
      exact clusterInvalid_linkTo_end hr.layout
  | succ k ih =>
    have hl := hr.layout
    unfold growLoop
    simp only [run_bind, run_onEf]
    rcases allocateCluster_run ef (u32 (previous + 1)) hl hr.word hr.chunkSize with
      ⟨c, hc, hfree, hrun⟩ | ⟨_, hrun⟩
    -- a cluster was free; it is linked behind the chain, and the loop goes on with it
    · have hci : ef.sb.clusterInvalid c = false := hc
      have hcM : c ∉ M₀ ++ [previous] := by
        intro h
        have := ht c h
        rw [hfree] at this
        cases this
      let ef1 := ef.upd ef.dev.bytes (Function.update ef.cmap.chunk (c - 2) true) true ef.errors
        ef.ticks
      obtain ⟨b₁, n₁, hlink, hpl, hmk, hch₁, hfat₁, hdata₁⟩ :=
        linkCluster_run ef1 hl hch hc hcM
      let ef2 := ef1.upd b₁ ef1.cmap.chunk ef1.cmap.dirty ef1.errors ef1.ticks
      have hmv : Moved ef.sb (M₀ ++ [previous]) (M₀ ++ [previous] ++ [c]) ef.dev.bytes b₁
          ef.cmap.chunk (Function.update ef.cmap.chunk (c - 2) true) :=
        (Moved.of_fat ht hfat₁ hdata₁).trans (Moved.add hc ht hfree) hch₁.valid
      obtain ⟨r, s, hrec, b', chunk', dirty', errors', n', M', rfl, hpl', hch',
          hmv', hdata', hcase⟩ :=
        ih (n := n₁) (show Ready ef2 from hr.upd ..) c (allocated + 1) (M₀ ++ [previous]) hch₁
          (hmv.taken hch₁.valid) (by rw [List.length_append, hlen]; rfl)
      refine ⟨r, _, ?_, b', chunk', dirty', errors', n', M', rfl, hpl.trans hpl', hch',
        hmv.trans hmv' hch'.valid, fun x o => (hdata' x o).trans (hdata₁ x o), ?_⟩
      · rw [hrun]
        simp only [run_get, withBitmap, hci, Bool.false_eq_true, if_false]
        exact (run_bind_ok hlink).trans hrec
      · rcases hcase with ⟨rfl, ⟨A, rfl, hA⟩, hmk', hended⟩ | ⟨rfl, hM', hmk', hdirty⟩
        · exact Or.inl ⟨rfl, ⟨c :: A, by simp, by simp [hA]⟩, hmk.trans hmk', hended⟩
        · refine Or.inr ⟨rfl, ?_, hmk.trans hmk', hdirty⟩
          rw [hM', List.take_append_of_le_length (by omega)]
    -- the bitmap is full; what has been added is given back
    · have hend := clusterEnd_not_valid hl
      rw [hrun]
      simp only [run_get, withBitmap, hend, if_true]
      let ef1 := ef.upd ef.dev.bytes ef.cmap.chunk ef.cmap.dirty (ef.errors + 1) ef.ticks
      by_cases hall : allocated = 0
      · rw [if_neg (by simpa using hall)]
        refine ⟨_, _, rfl, ef.dev.bytes, ef.cmap.chunk, ef.cmap.dirty, ef.errors + 1, n,
          M₀ ++ [previous], rfl, Placed.refl n, hch, Moved.refl _ _ ht, fun _ _ => rfl,
          Or.inr ⟨rfl, ?_, Marked.refl n, ?_⟩⟩
        · rw [List.take_of_length_le (by omega)]
        · intro h0
          simp only [List.length_append, List.length_singleton] at hlen
          omega
      · rw [if_pos hall]
        -- give back the clusters allocated so far
        have hsplit := List.take_append_drop current (M₀ ++ [previous])
        have hdrop : ((M₀ ++ [previous]).drop current).length = allocated := by
          rw [List.length_drop]
          omega
        rw [← hsplit] at hch ht
        obtain ⟨b', chunk', dirty', n', hshrink, hpl, hmk, hdirty, hch', hmv, -, hdata⟩ :=
          shrinkFile_run (show Ready ef1 from hr.upd ..) hch ht
            (by rw [← List.length_pos_iff_ne_nil]; omega)
        rw [hsplit, hdrop, hlen] at hshrink
        rw [hsplit] at hmv
        refine ⟨_, _, run_bind_ok hshrink, b', chunk', dirty', ef.errors + 1, n',
          (M₀ ++ [previous]).take current, rfl, hpl, hch', hmv, hdata,
          Or.inr ⟨rfl, rfl, hmk, ?_⟩⟩
        rintro rfl
        exact hdirty rfl

/-- `grow_file` adds `k` clusters to a node, or leaves its clusters as they are and returns
`-ENOSPC`. -/
theorem growFile_run {L : List Nat} (hr : Ready ef) (hch : Chained ef.sb ef.dev.bytes n L)
    (ht : Taken ef.cmap.chunk L) {k : Nat} (hk : k ≠ 0) :
    ∃ r s b' chunk' dirty' errors' n' L', growFile L.length k ⟨ef, n⟩ = .ok r s ∧
      s = ⟨ef.upd b' chunk' dirty' errors' ef.ticks, n'⟩ ∧ Placed n n' ∧
      Chained ef.sb b' n' L' ∧ Moved ef.sb L L' ef.dev.bytes b' ef.cmap.chunk chunk' ∧
      (∀ x o, clusterByte ef.sb b' x o = clusterByte ef.sb ef.dev.bytes x o) ∧
      ((r = .ok () ∧ (∃ A, L' = L ++ A ∧ A.length = k) ∧ (n.isDirty = true → n'.isDirty = true) ∧
          Ended ef.sb b' n' L') ∨
        (r = .error .enospc ∧ L' = L ∧ Marked n n')) := by
  have hl := hr.layout
  unfold growFile
  simp only [run_bind, run_get]
  rw [if_neg hk]
  -- A file without clusters gets its first one here, marked as contiguous.
  rcases List.eq_nil_or_concat L with rfl | ⟨L₀, p, rfl⟩
  · have hstart := hch.empty rfl
    have hindex : n.fptrIndex = 0 := by
      rcases hch.fptr with h | h
      · exact h.1
      · simp at h
    rw [if_neg (by simpa using hstart), if_neg (by simpa using hindex)]
    simp only [run_bind, run_onEf]
    rcases allocateCluster_run ef 0 hl hr.word hr.chunkSize with ⟨c, hc, hfree, hrun⟩ | ⟨_, hrun⟩
    · have hci : ef.sb.clusterInvalid c = false := hc
      have hmv : Moved ef.sb [] ([] ++ [c]) ef.dev.bytes ef.dev.bytes ef.cmap.chunk
          (Function.update ef.cmap.chunk (c - 2) true) := Moved.add hc ht hfree
      have hch₁ : Chained ef.sb ef.dev.bytes (n.place c true n.fptrIndex c n.isDirty) ([] ++ [c]) :=
        ⟨⟨rfl, trivial⟩, by simpa using hc, by simp, Or.inl ⟨hindex, rfl⟩, by simp⟩
      let ef1 := ef.upd ef.dev.bytes (Function.update ef.cmap.chunk (c - 2) true) true ef.errors
        ef.ticks
      obtain ⟨r, s, hrec, b', chunk', dirty', errors', n', M', rfl, hpl, hch',
          hmv', hdata, hcase⟩ :=
        growLoop_run (show Ready ef1 from hr.upd ..) (k - 1) c 1 0 [] hch₁
          (hmv.taken hch₁.valid) rfl
      refine ⟨r, _, b', chunk', dirty', errors', n', M', ?_, rfl, hpl, hch',
        hmv.trans hmv' hch'.valid, hdata, ?_⟩
      · rw [hrun]
        simp only [hci, Bool.false_eq_true, if_false]
        exact hrec
      · rcases hcase with ⟨rfl, ⟨A, rfl, hA⟩, hmk, hended⟩ | ⟨rfl, hM', hmk, hdirty⟩
        · refine Or.inl ⟨rfl, ⟨c :: A, by simp, by simp [hA]; omega⟩, ?_, hended⟩
          intro hd
          rcases hmk with h | ⟨_, _, h⟩
          · exact h
          · exact h.trans hd
        · exact Or.inr ⟨rfl, by simpa using hM', Or.inl (hdirty rfl)⟩
    · have hend := clusterEnd_not_valid hl
      rw [hrun]
      simp only [hend, if_true]
      exact ⟨_, _, ef.dev.bytes, ef.cmap.chunk, ef.cmap.dirty, ef.errors + 1, n, [], rfl, rfl,
        Placed.refl n, hch, Moved.refl _ _ ht, fun _ _ => rfl, Or.inr ⟨rfl, rfl, Marked.refl n⟩⟩
  · rw [List.concat_eq_append] at hch ht ⊢
    -- otherwise the loop goes on behind the last cluster
    have hpv : Valid ef.sb p := hch.valid p (by simp)
    have hpi : ef.sb.clusterInvalid p = false := hpv
    have hstartNe : n.startCluster ≠ clusterFree := by
      have hpos : 0 < (L₀ ++ [p]).length := by simp
      have hmem := List.getElem_mem hpos
      rw [hch.follows.getElem hpos] at hmem
      have := (hch.valid _ hmem).two_le
      simp only [Function.iterate_zero, id_eq] at this
      unfold clusterFree
      omega
    -- the index of the last cluster, which does not wrap
    have hsub : sub32 (L₀ ++ [p]).length 1 = L₀.length := by
      have := hch.length_le
      have := hl.count_lt
      simp only [List.length_append, List.length_singleton] at *
      unfold sub32
      omega
    rw [if_pos hstartNe, hsub]
    have hlt : L₀.length < (L₀ ++ [p]).length := by simp
    have hp : (L₀ ++ [p])[L₀.length] = p := by simp
    simp only [run_bind, exfatAdvanceCluster_run hch hlt, hp, hpi, Bool.false_eq_true, if_false]
    have hmove := hch.move hlt
    rw [hp] at hmove
    obtain ⟨r, s, hrec, b', chunk', dirty', errors', n', M', rfl, hpl, hch', hmv', hdata, hcase⟩ :=
      growLoop_run hr k p 0 (L₀ ++ [p]).length L₀ hmove ht (by simp)
    refine ⟨r, _, b', chunk', dirty', errors', n', M', hrec, rfl, hpl, hch', hmv', hdata, ?_⟩
    rcases hcase with ⟨rfl, hA, hmk, hended⟩ | ⟨rfl, hM', hmk, _⟩
    · refine Or.inl ⟨rfl, hA, ?_, hended⟩
      intro hd
      rcases hmk with h | ⟨_, _, h⟩
      · exact h
      · exact h.trans hd
    · exact Or.inr ⟨rfl, hM'.trans (List.take_length), hmk⟩

end ExFat
