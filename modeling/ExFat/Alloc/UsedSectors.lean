import ExFat.Fs.Boot
import ExFat.Alloc.Layout

namespace ExFat

/-!
# The sectors in use

`exfat_find_used_sectors` is called again and again, from sectors 0 and 0 on, and reports an
interval of sectors at each call.  Between the calls the place reached is kept as sector numbers.
On the volumes `exfat_mount` accepts a cluster has no more than 32 MiB, so that no sector number
overflows.
-/

/-! ### The search -/

/-- Sector to cluster. -/
def s2c (sb : SuperBlock) (sector : Nat) : Nat :=
  u32 ((sector - sb.clusterSectorStart) / 2 ^ sb.spcBits + firstDataCluster)

/-- Cluster to sector. -/
def c2s (sb : SuperBlock) (cluster : Nat) : Except Halt Nat :=
  if cluster < firstDataCluster then .error (.bug "invalid cluster number")
  else .ok (clusterSector sb cluster)

/-- The first loop of `find_used_clusters`: the first used cluster among the next `n`. -/
def firstUsed (cmap : Cmap) : (a n : Nat) → Nat
  | a, 0 => a
  | a, n + 1 => if cmap.chunk (sub32 a firstDataCluster) then a else firstUsed cmap (a + 1) n

/-- Its second loop: the last one of the run, or the end if no cluster on the way is free. -/
def lastUsed (cmap : Cmap) : (b n : Nat) → Nat
  | b, 0 => b
  | b, n + 1 =>
    if cmap.chunk (sub32 b firstDataCluster) = false then sub32 b 1 else lastUsed cmap (b + 1) n

/-- `find_used_clusters`: the run behind cluster `b`. -/
def findUsedClusters (sb : SuperBlock) (cmap : Cmap) (b : Nat) : Option (Nat × Nat) :=
  let stop := sb.clusterCount
  let start := u32 (b + 1)
  let a := firstUsed cmap start (stop - start)
  if a ≥ stop then none else some (a, lastUsed cmap a (stop - a))

/-- `exfat_find_used_sectors`: the new values of `*a` and `*b`. -/
def exfatFindUsedSectors (sb : SuperBlock) (cmap : Cmap) (a b : Nat) :
    Except Halt (Option (Nat × Nat)) :=
  let cb := if a = 0 ∧ b = 0 then firstDataCluster - 1 else s2c sb b
  match findUsedClusters sb cmap cb with
  | none => pure none
  | some (ca, cb) => do
    let a ← if a ≠ 0 ∨ b ≠ 0 then c2s sb ca else pure a
    let b ← c2s sb cb
    pure (some (a, b + (sb.clusterSize - 1) / sb.sectorSize))

/-- The loop of `dump_sectors`, with the number of calls it may make: the intervals it prints. -/
def dumpSectors (sb : SuperBlock) (cmap : Cmap) : (fuel a b : Nat) → Except Halt (List (Nat × Nat))
  | 0, _, _ => .error .fuel
  | fuel + 1, a, b => do
    match ← exfatFindUsedSectors sb cmap a b with
    | none => pure []
    | some (a, b) =>
      let rest ← dumpSectors sb cmap fuel a b
      pure ((a, b) :: rest)

/-! ### What the intervals are for -/

/-- The bit of a cluster is set. -/
def Cmap.Used (cmap : Cmap) (c : Nat) : Prop := cmap.chunk (c - firstDataCluster) = true

instance (cmap : Cmap) (c : Nat) : Decidable (cmap.Used c) := inferInstanceAs (Decidable (_ = _))

/-- A sector of a cluster. -/
def InCluster (sb : SuperBlock) (c sector : Nat) : Prop :=
  clusterSector sb c ≤ sector ∧ sector < clusterSector sb c + 2 ^ sb.spcBits

/-- The calls end.  The intervals follow each other, the sectors of the used clusters are in them,
and those of the free ones are in none but the first. -/
def SectorsFound (sb : SuperBlock) (cmap : Cmap) : Prop :=
  ∃ fuel l, dumpSectors sb cmap fuel 0 0 = .ok l ∧
    (∀ i ∈ l, i.1 ≤ i.2) ∧ l.Pairwise (fun i j => i.2 < j.1) ∧
    (∀ c sector, sb.clusterInvalid c = false → cmap.Used c → InCluster sb c sector →
      ∃ i ∈ l, i.1 ≤ sector ∧ sector ≤ i.2) ∧
    ∀ i ∈ l.tail, ∀ c sector, sb.clusterInvalid c = false → ¬ cmap.Used c → InCluster sb c sector →
      ¬ (i.1 ≤ sector ∧ sector ≤ i.2)

/-- The first run does not end in sector 0, which says that no call has been made. -/
def NoRestart (sb : SuperBlock) (cmap : Cmap) : Prop :=
  ¬ (sb.clusterSectorStart = 0 ∧ sb.spcBits = 0 ∧ 4 ≤ sb.clusterCount ∧ cmap.Used 2 ∧ ¬ cmap.Used 3)

/-- The search does not go on behind the last number of 32 bits. -/
def NoWrap (sb : SuperBlock) (cmap : Cmap) : Prop :=
  sb.clusterCount = 2 ^ 32 - 1 → ¬ cmap.Used (sb.clusterCount - 1)

/-- The search stops at cluster `clusterCount`, two clusters before the end of the heap, and takes a
run that reaches it one cluster further. -/
structure EndUnused (sb : SuperBlock) (cmap : Cmap) : Prop where
  /-- The last cluster is free. -/
  last : 1 ≤ sb.clusterCount → ¬ cmap.Used (sb.clusterCount + 1)
  /-- The one before it is used only at the end of a run. -/
  previous : 2 ≤ sb.clusterCount → cmap.Used sb.clusterCount →
    3 ≤ sb.clusterCount ∧ cmap.Used (sb.clusterCount - 1)
  /-- It is free behind a used one only if there is but one run. -/
  behind : 3 ≤ sb.clusterCount → cmap.Used (sb.clusterCount - 1) → cmap.Used sb.clusterCount ∨
    ∀ c d, 2 ≤ c → c ≤ d → d < sb.clusterCount → cmap.Used c → cmap.Used d
  restart : NoRestart sb cmap
  wrap : NoWrap sb cmap

/-! ### One call -/

section Search

variable {cmap : Cmap} {sb : SuperBlock}

/-- The bit that is looked at for a cluster says whether it is used. -/
theorem chunk_sub32 {c : Nat} (hc : 2 ≤ c) (hc' : c ≤ 2 ^ 32) :
    cmap.chunk (sub32 c firstDataCluster) = true ↔ cmap.Used c := by
  have hsub : sub32 c firstDataCluster = c - firstDataCluster := by
    unfold sub32 firstDataCluster
    omega
  rw [hsub]
  exact Iff.rfl

/-- `firstUsed` stops at the first used cluster of its range, or behind the range. -/
theorem firstUsed_spec {a n : Nat} (ha : 2 ≤ a) (hn : a + n ≤ 2 ^ 32) :
    a ≤ firstUsed cmap a n ∧ firstUsed cmap a n ≤ a + n ∧
      (∀ c, a ≤ c → c < firstUsed cmap a n → ¬ cmap.Used c) ∧
      (firstUsed cmap a n < a + n → cmap.Used (firstUsed cmap a n)) := by
  induction n generalizing a with
  | zero =>
    unfold firstUsed
    exact ⟨le_rfl, le_rfl, fun c hc hc' => by omega, fun h => by omega⟩
  | succ n ih =>
    unfold firstUsed
    by_cases hused : cmap.chunk (sub32 a firstDataCluster) = true
    · rw [if_pos hused]
      exact ⟨le_rfl, by omega, fun c hc hc' => by
        omega, fun _ => (chunk_sub32 ha (by omega)).1 hused⟩
    · rw [if_neg hused]
      obtain ⟨hle, hle', hclear, hfound⟩ := @ih (a + 1) (by omega) (by omega)
      refine ⟨by omega, by omega, fun c hc hc' => ?_, fun h => hfound (by omega)⟩
      obtain rfl | hlt := Nat.eq_or_lt_of_le hc
      · exact fun h => hused ((chunk_sub32 ha (by omega)).2 h)
      · exact hclear c hlt hc'

/-- `lastUsed` returns the last cluster of the used clusters at the start of its range. -/
theorem lastUsed_spec {b n : Nat} (hb : 2 ≤ b) (hn : b + n ≤ 2 ^ 32) :
    lastUsed cmap b n = b + n ∧ (∀ c, b ≤ c → c < b + n → cmap.Used c) ∨
      b ≤ lastUsed cmap b n + 1 ∧ lastUsed cmap b n + 1 < b + n ∧
      ¬ cmap.Used (lastUsed cmap b n + 1) ∧ ∀ c, b ≤ c → c ≤ lastUsed cmap b n → cmap.Used c := by
  induction n generalizing b with
  | zero =>
    unfold lastUsed
    exact .inl ⟨rfl, fun c hc hc' => by omega⟩
  | succ n ih =>
    unfold lastUsed
    by_cases hfree : cmap.chunk (sub32 b firstDataCluster) = false
    · have hsub : sub32 b 1 + 1 = b := by
        unfold sub32
        omega
      rw [if_pos hfree, hsub]
      refine .inr ⟨le_rfl, by omega, fun h => ?_, fun c hc hc' => by omega⟩
      rw [(chunk_sub32 hb (by omega)).2 h] at hfree
      exact absurd hfree (by decide)
    · have hused : cmap.Used b := (chunk_sub32 hb (by omega)).1 (by simpa using hfree)
      have hrest : ∀ {c}, (b + 1 ≤ c → cmap.Used c) → b ≤ c → cmap.Used c := by
        intro c h hc
        obtain rfl | hlt := Nat.eq_or_lt_of_le hc
        · exact hused
        · exact h hlt
      rw [if_neg hfree]
      obtain ⟨hend, hall⟩ | ⟨hle, hlt, hstop, hall⟩ := @ih (b + 1) (by omega) (by omega)
      · exact .inl ⟨by omega, fun c hc hc' => hrest (fun h => hall c h (by omega)) hc⟩
      · exact .inr ⟨by omega, by omega, hstop, fun c hc hc' => hrest (fun h => hall c h hc') hc⟩

/-- The run of used clusters `a .. e` is the first one behind cluster `b`.  Clusters from `stop` on
are not looked at, and one that reaches this end is taken to go one cluster further. -/
structure RunBehind (cmap : Cmap) (stop b a e : Nat) : Prop where
  behind : b < a
  inside : a < stop
  le : a ≤ e
  clear : ∀ c, b < c → c < a → ¬ cmap.Used c
  used : ∀ c, a ≤ c → c ≤ e → c < stop → cmap.Used c
  ends : e = stop ∨ e + 1 < stop ∧ ¬ cmap.Used (e + 1)

/-- A run ends inside the heap. -/
theorem RunBehind.le_stop {stop b a e : Nat} (h : RunBehind cmap stop b a e) : e ≤ stop := by
  rcases h.ends with h | ⟨h, -⟩ <;> omega

/-- A run that reaches the end of the search has the last cluster that is looked at. -/
theorem RunBehind.used_last {stop b a e : Nat} (h : RunBehind cmap stop b a e) (he : e = stop) :
    cmap.Used (stop - 1) := by
  have := h.inside
  exact h.used (stop - 1) (by omega) (by omega) (by omega)

/-- A step of the search: the next run is found, or no cluster of those that are looked at is used.
-/
theorem findUsedClusters_cases {b : Nat} (hb : 1 ≤ b) (hb' : b + 1 < 2 ^ 32) :
    (∃ a e, findUsedClusters sb cmap b = some (a, e) ∧ RunBehind cmap sb.clusterCount b a e) ∨
      findUsedClusters sb cmap b = none ∧ ∀ c, b < c → c < sb.clusterCount → ¬ cmap.Used c := by
  have hcount := sb.clusterCount_lt
  unfold findUsedClusters
  dsimp only
  rw [show u32 (b + 1) = b + 1 from Nat.mod_eq_of_lt hb']
  obtain ⟨hle, hle', hclear, hused⟩ :=
    @firstUsed_spec cmap (b + 1) (sb.clusterCount - (b + 1)) (by omega) (by omega)
  generalize firstUsed cmap (b + 1) (sb.clusterCount - (b + 1)) = a at hle hle' hclear hused ⊢
  by_cases ha : a ≥ sb.clusterCount
  · rw [if_pos ha]
    exact .inr ⟨rfl, fun c hc hc' => hclear c hc (by omega)⟩
  rw [if_neg ha]
  have hstop : a + (sb.clusterCount - a) = sb.clusterCount := by omega
  have haUsed : cmap.Used a := hused (by omega)
  refine .inl ⟨a, _, rfl, ?_⟩
  have hlast := @lastUsed_spec cmap a (sb.clusterCount - a) (by omega) (by omega)
  rw [hstop] at hlast
  generalize lastUsed cmap a (sb.clusterCount - a) = e at hlast ⊢
  obtain ⟨rfl, hall⟩ | ⟨hle₁, hlt₁, hfree, hall⟩ := hlast
  · exact ⟨hle, by omega, by omega, hclear, fun c hc _ hc' => hall c hc hc', .inl rfl⟩
  · have hae : a ≤ e := by
      by_contra h
      obtain rfl : a = e + 1 := by omega
      exact hfree haUsed
    exact ⟨hle, by omega, hae, hclear, fun c hc hc' _ => hall c hc hc', .inr ⟨hlt₁, hfree⟩⟩

/-- The last sector of a cluster. -/
def lastSector (sb : SuperBlock) (c : Nat) : Nat := clusterSector sb c + (2 ^ sb.spcBits - 1)

/-- The sectors of the clusters lie one behind the other. -/
theorem clusterSector_add (sb : SuperBlock) {c d : Nat} (hc : 2 ≤ c) (h : c ≤ d) :
    clusterSector sb d = clusterSector sb c + (d - c) * 2 ^ sb.spcBits := by
  unfold clusterSector firstDataCluster
  rw [show d - 2 = c - 2 + (d - c) by omega, Nat.add_mul, Nat.add_assoc]

/-- Later clusters have later sectors. -/
theorem clusterSector_le (sb : SuperBlock) {c d : Nat} (hc : 2 ≤ c) (h : c ≤ d) :
    clusterSector sb c ≤ clusterSector sb d := by
  rw [clusterSector_add sb hc h]
  exact Nat.le_add_right _ _

/-- A cluster ends before the later clusters begin. -/
theorem lastSector_lt (sb : SuperBlock) {c d : Nat} (hc : 2 ≤ c) (h : c < d) :
    lastSector sb c < clusterSector sb d := by
  have hpos := Nat.two_pow_pos sb.spcBits
  have hmul : 1 * 2 ^ sb.spcBits ≤ (d - c) * 2 ^ sb.spcBits := Nat.mul_le_mul_right _ (by omega)
  unfold lastSector
  rw [clusterSector_add sb hc h.le]
  omega

/-- A sector between two clusters is in one of the clusters from the first to the last. -/
theorem InCluster.between {c a e sector : Nat} (h : InCluster sb c sector) (hc : 2 ≤ c) (ha : 2 ≤ a)
    (he : 2 ≤ e) : clusterSector sb a ≤ sector ∧ sector ≤ lastSector sb e ↔ a ≤ c ∧ c ≤ e := by
  have hpos := Nat.two_pow_pos sb.spcBits
  obtain ⟨h₁, h₂⟩ := h
  constructor
  · rintro ⟨hle, hle'⟩
    constructor
    · by_contra hlt
      have := lastSector_lt sb hc (Nat.lt_of_not_le hlt)
      unfold lastSector at this
      omega
    · by_contra hlt
      have := lastSector_lt sb he (Nat.lt_of_not_le hlt)
      omega
  · rintro ⟨hle, hle'⟩
    have hlow := clusterSector_le sb ha hle
    have hhigh := clusterSector_le sb hc hle'
    unfold lastSector
    omega

/-- The last sector of a cluster as `exfat_find_used_sectors` computes it. -/
theorem lastSector_eq (sb : SuperBlock) (c : Nat) :
    clusterSector sb c + (sb.clusterSize - 1) / sb.sectorSize = lastSector sb c := by
  have hdiv : (sb.sectorSize * 2 ^ sb.spcBits - (0 + 1)) / sb.sectorSize =
      2 ^ sb.spcBits - (0 / sb.sectorSize + 1) :=
    Nat.mul_sub_div 0 _ _ (Nat.mul_pos (Nat.two_pow_pos _) (Nat.two_pow_pos _))
  unfold lastSector SuperBlock.clusterSize
  rw [show (1 : Nat) = 0 + 1 by rfl, hdiv, Nat.zero_div]

/-- The place reached is found again from its sector number. -/
theorem s2c_lastSector {c : Nat} (hc : 2 ≤ c) (hc' : c < 2 ^ 32) :
    s2c sb (lastSector sb c) = c := by
  have hpos := Nat.two_pow_pos sb.spcBits
  have hdiv : ((c - 2) * 2 ^ sb.spcBits + (2 ^ sb.spcBits - 1)) / 2 ^ sb.spcBits = c - 2 := by
    rw [Nat.mul_comm, Nat.mul_add_div hpos, Nat.div_eq_of_lt (by omega)]
    rfl
  unfold s2c lastSector clusterSector firstDataCluster u32
  rw [Nat.add_assoc, Nat.add_sub_cancel_left, hdiv, Nat.mod_eq_of_lt (by omega)]
  omega

/-! ### The calls one after the other -/

/-- The runs that are found one after the other, behind cluster `b`. -/
inductive Runs (cmap : Cmap) (stop : Nat) : (b : Nat) → List (Nat × Nat) → Prop
  | stop {b : Nat} (h : ∀ c, b < c → c < stop → ¬ cmap.Used c) : Runs cmap stop b []
  | run {b a e : Nat} {l : List (Nat × Nat)} (h : RunBehind cmap stop b a e)
    (hl : Runs cmap stop e l) :
    Runs cmap stop b ((a, e) :: l)

namespace Runs

variable {stop b : Nat} {l : List (Nat × Nat)}

/-- Each run of the list is the first one behind a point. -/
theorem behind (h : Runs cmap stop b l) {i : Nat × Nat} (hi : i ∈ l) :
    ∃ b', b ≤ b' ∧ RunBehind cmap stop b' i.1 i.2 := by
  induction h with
  | stop _ => exact absurd hi List.not_mem_nil
  | run hrun _ ih =>
    rcases List.mem_cons.1 hi with rfl | hi
    · exact ⟨_, le_rfl, hrun⟩
    · obtain ⟨b', hb', hrun'⟩ := ih hi
      have := hrun.behind
      have := hrun.le
      exact ⟨b', by omega, hrun'⟩

/-- The runs of the list lie one behind the other. -/
theorem pairwise (h : Runs cmap stop b l) : l.Pairwise fun i j => i.2 < j.1 := by
  induction h with
  | stop _ => exact .nil
  | run hrun hl ih =>
    refine List.pairwise_cons.2 ⟨fun i hi => ?_, ih⟩
    obtain ⟨b', hb', hrun'⟩ := hl.behind hi
    have := hrun'.behind
    omega

/-- The used clusters that are looked at are in the runs. -/
theorem covers (h : Runs cmap stop b l) {c : Nat} (hb : b < c) (hc : c < stop)
    (hused : cmap.Used c) : ∃ i ∈ l, i.1 ≤ c ∧ c ≤ i.2 := by
  induction h with
  | stop hnone => exact absurd hused (hnone c hb hc)
  | @run b a e l hrun _ ih =>
    by_cases hce : c ≤ e
    · have hac : a ≤ c := by
        by_contra hlt
        exact hrun.clear c hb (by omega) hused
      exact ⟨_, List.mem_cons_self, hac, hce⟩
    · obtain ⟨i, hi, h⟩ := ih (by omega)
      exact ⟨i, List.mem_cons_of_mem _ hi, h⟩

/-- If the last cluster that is looked at is used, the last run goes one cluster further. -/
theorem covers_stop (h : Runs cmap stop b l) (hb : b < stop - 1) (hused : cmap.Used (stop - 1)) :
    ∃ i ∈ l, i.1 ≤ stop - 1 ∧ i.2 = stop := by
  obtain ⟨i, hi, hle, hle'⟩ := h.covers hb (by omega) hused
  obtain ⟨b', -, hrun⟩ := h.behind hi
  exact ⟨i, hi, hle, hrun.ends.resolve_right fun h => by omega⟩

end Runs

/-- The sectors of a run of clusters. -/
def sectors (sb : SuperBlock) (i : Nat × Nat) : Nat × Nat :=
  (clusterSector sb i.1, lastSector sb i.2)

/-- The list with the first interval from sector 0 on. -/
def fromZero : List (Nat × Nat) → List (Nat × Nat)
  | [] => []
  | i :: l => (0, i.2) :: l

/-- The sector of a data cluster can be computed. -/
theorem c2s_eq {c : Nat} (hc : 2 ≤ c) : c2s sb c = .ok (clusterSector sb c) :=
  if_neg (Nat.not_lt.2 hc)

/-- A call behind a sector that is not 0 finds the run behind its cluster. -/
theorem exfatFindUsedSectors_of_some {a b ca cb : Nat} (hb : b ≠ 0)
    (h : findUsedClusters sb cmap (s2c sb b) = some (ca, cb)) (hca : 2 ≤ ca) (hcb : 2 ≤ cb) :
    exfatFindUsedSectors sb cmap a b = .ok (some (sectors sb (ca, cb))) := by
  unfold exfatFindUsedSectors
  simp only [hb, and_false, if_false, h, ne_eq, not_false_eq_true, or_true, if_true]
  rw [c2s_eq hca, c2s_eq hcb]
  exact congrArg (fun s => Except.ok (some (clusterSector sb ca, s))) (lastSector_eq sb cb)

/-- Behind the last run `exfat_find_used_sectors` finds nothing. -/
theorem exfatFindUsedSectors_of_none {a b : Nat} (hb : b ≠ 0)
    (h : findUsedClusters sb cmap (s2c sb b) = none) :
    exfatFindUsedSectors sb cmap a b = .ok none := by
  unfold exfatFindUsedSectors
  simp only [hb, and_false, if_false, h]
  rfl

/-- The first call finds the run behind cluster 1, and leaves the start at sector 0. -/
theorem exfatFindUsedSectors_first_of_some {ca cb : Nat}
    (h : findUsedClusters sb cmap 1 = some (ca, cb)) (hcb : 2 ≤ cb) :
    exfatFindUsedSectors sb cmap 0 0 = .ok (some (0, lastSector sb cb)) := by
  have hfirst : firstDataCluster - 1 = 1 := rfl
  unfold exfatFindUsedSectors
  simp only [and_self, if_true, hfirst, h, ne_eq, not_true_eq_false, or_self, if_false]
  rw [c2s_eq hcb]
  exact congrArg (fun s => Except.ok (some (0, s))) (lastSector_eq sb cb)

/-- In an empty bitmap `exfat_find_used_sectors` finds nothing. -/
theorem exfatFindUsedSectors_first_of_none (h : findUsedClusters sb cmap 1 = none) :
    exfatFindUsedSectors sb cmap 0 0 = .ok none := by
  have hfirst : firstDataCluster - 1 = 1 := rfl
  unfold exfatFindUsedSectors
  simp only [and_self, if_true, hfirst, h]
  rfl

/-- The loop of `dump_sectors` ends when nothing is found. -/
theorem dumpSectors_of_none {fuel a b : Nat} (h : exfatFindUsedSectors sb cmap a b = .ok none) :
    dumpSectors sb cmap (fuel + 1) a b = .ok [] := by
  unfold dumpSectors
  rw [h]
  rfl

/-- The loop of `dump_sectors` goes on behind the interval that is found. -/
theorem dumpSectors_of_some {fuel a b : Nat} {i : Nat × Nat}
    (h : exfatFindUsedSectors sb cmap a b = .ok (some i)) :
    dumpSectors sb cmap (fuel + 1) a b = (dumpSectors sb cmap fuel i.1 i.2).map (i :: ·) := by
  obtain ⟨x, y⟩ := i
  conv_lhs => unfold dumpSectors
  rw [h]
  show (do
    let rest ← dumpSectors sb cmap fuel x y
    pure ((x, y) :: rest)) = _
  cases dumpSectors sb cmap fuel x y <;> rfl

/-- Only one cluster can end with sector zero: the first, of one sector, on a heap at zero. -/
theorem lastSector_eq_zero {c : Nat} (hc : 2 ≤ c) :
    lastSector sb c = 0 ↔ sb.clusterSectorStart = 0 ∧ sb.spcBits = 0 ∧ c = 2 := by
  have hpos := Nat.two_pow_pos sb.spcBits
  unfold lastSector clusterSector firstDataCluster
  constructor
  · intro h
    have hbits : sb.spcBits = 0 := by
      by_contra hne
      have := Nat.one_lt_two_pow hne
      omega
    have hmul : (c - 2) * 2 ^ sb.spcBits = 0 := by omega
    have hzero := (Nat.mul_eq_zero.1 hmul).resolve_right hpos.ne'
    exact ⟨by omega, hbits, by omega⟩
  · rintro ⟨hstart, hbits, rfl⟩
    rw [hstart, hbits]
    rfl

/-- The search can go on behind a run. -/
theorem RunBehind.succ_lt {b a e : Nat} (hwrap : NoWrap sb cmap)
    (h : RunBehind cmap sb.clusterCount b a e) : e + 1 < 2 ^ 32 := by
  have hcount := sb.clusterCount_lt
  have hle := h.le_stop
  by_contra hge
  exact hwrap (by omega) (h.used_last (by omega))

/-- What is printed behind a cluster are the runs behind it. -/
theorem runs_of_dumpSectors (hwrap : NoWrap sb cmap) {fuel a y b : Nat} {l : List (Nat × Nat)}
    (hb : 2 ≤ b) (hb' : b + 1 < 2 ^ 32) (hy : y ≠ 0) (hs : s2c sb y = b)
    (h : dumpSectors sb cmap fuel a y = .ok l) :
    ∃ runs, Runs cmap sb.clusterCount b runs ∧ l = runs.map (sectors sb) := by
  -- On the fuel: each call starts at the last sector of the run before.
  induction fuel generalizing a y b l with
  | zero => exact absurd h (by unfold dumpSectors; exact nofun)
  | succ fuel ih =>
    obtain ⟨ca, cb, hfound, hrun⟩ | ⟨hfound, hnone⟩ :=
      @findUsedClusters_cases cmap sb b (by omega) hb'
    -- a run is found, and its sectors are not zero
    · have hca := hrun.behind
      have hle := hrun.le
      have hlt := hrun.succ_lt hwrap
      have hne : lastSector sb cb ≠ 0 := by
        rw [Ne, lastSector_eq_zero (by omega)]
        omega
      rw [dumpSectors_of_some
        (exfatFindUsedSectors_of_some hy (hs ▸ hfound) (by omega) (by omega))] at h
      cases hrest : dumpSectors sb cmap fuel (clusterSector sb ca) (lastSector sb cb) with
      | error e =>
        unfold sectors at h
        rw [hrest] at h
        cases h
      | ok rest =>
        obtain ⟨runs, hruns, rfl⟩ :=
          ih (by omega) hlt hne (s2c_lastSector (by omega) (by omega)) hrest
        unfold sectors at h
        rw [hrest] at h
        cases h
        exact ⟨_, .run hrun hruns, rfl⟩
    -- nothing is used behind `b`
    · rw [dumpSectors_of_none (exfatFindUsedSectors_of_none hy (hs ▸ hfound))] at h
      cases h
      exact ⟨[], .stop hnone, rfl⟩

/-- The calls behind a cluster end. -/
theorem dumpSectors_ends (hwrap : NoWrap sb cmap) {a y b : Nat} (hb : 2 ≤ b) (hb' : b + 1 < 2 ^ 32)
    (hy : y ≠ 0) (hs : s2c sb y = b) : ∃ fuel l, dumpSectors sb cmap fuel a y = .ok l := by
  induction hn : sb.clusterCount - b using Nat.strong_induction_on generalizing a y b with
  | _ n ih =>
    obtain ⟨ca, cb, hfound, hrun⟩ | ⟨hfound, -⟩ :=
      @findUsedClusters_cases cmap sb b (by omega) hb'
    · have hca := hrun.behind
      have hle := hrun.le
      have hinside := hrun.inside
      have hlt := hrun.succ_lt hwrap
      have hne : lastSector sb cb ≠ 0 := by
        rw [Ne, lastSector_eq_zero (by omega)]
        omega
      obtain ⟨fuel, l, hrest⟩ := @ih (sb.clusterCount - cb) (by omega) (clusterSector sb ca)
        (lastSector sb cb) cb (by omega) hlt hne (s2c_lastSector (by omega) (by omega)) rfl
      have hcall := exfatFindUsedSectors_of_some (a := a) hy (hs ▸ hfound) (by omega) (by omega)
      refine ⟨fuel + 1, sectors sb (ca, cb) :: l, ?_⟩
      rw [dumpSectors_of_some hcall]
      unfold sectors
      rw [hrest]
      rfl
    · exact ⟨1, [], dumpSectors_of_none (exfatFindUsedSectors_of_none hy (hs ▸ hfound))⟩

/-! ### From the start -/

/-- No run ends with sector zero when the search cannot restart. -/
theorem RunBehind.lastSector_ne_zero {a e : Nat} (hrestart : NoRestart sb cmap)
    (h : RunBehind cmap sb.clusterCount 1 a e) : lastSector sb e ≠ 0 := by
  have hbehind := h.behind
  have hinside := h.inside
  have hle := h.le
  rw [Ne, lastSector_eq_zero (by omega)]
  rintro ⟨hstart, hbits, rfl⟩
  obtain rfl : a = 2 := by omega
  have hused := h.used 2 le_rfl le_rfl hinside
  rcases h.ends with hend | ⟨hlt, hfree⟩
  · omega
  · exact hrestart ⟨hstart, hbits, by omega, hused, hfree⟩

/-- What is printed, if there is an end to it, are the runs, with the first one from sector 0 on. -/
theorem runs_of_dumpSectors_zero (hwrap : NoWrap sb cmap) (hrestart : NoRestart sb cmap)
    {fuel : Nat} {l : List (Nat × Nat)} (h : dumpSectors sb cmap fuel 0 0 = .ok l) :
    ∃ runs, Runs cmap sb.clusterCount 1 runs ∧ l = fromZero (runs.map (sectors sb)) := by
  cases fuel with
  | zero => exact absurd h (by unfold dumpSectors; exact nofun)
  | succ fuel =>
    obtain ⟨ca, cb, hfound, hrun⟩ | ⟨hfound, hnone⟩ :=
      @findUsedClusters_cases cmap sb 1 le_rfl (by decide)
    · have hca := hrun.behind
      have hle := hrun.le
      have hlt := hrun.succ_lt hwrap
      rw [dumpSectors_of_some (exfatFindUsedSectors_first_of_some hfound (by omega))] at h
      cases hrest : dumpSectors sb cmap fuel 0 (lastSector sb cb) with
      | error e =>
        rw [hrest] at h
        cases h
      | ok rest =>
        obtain ⟨runs, hruns, rfl⟩ := runs_of_dumpSectors hwrap (by omega) hlt
          (hrun.lastSector_ne_zero hrestart) (s2c_lastSector (by omega) (by omega)) hrest
        rw [hrest] at h
        cases h
        exact ⟨_, .run hrun hruns, rfl⟩
    · rw [dumpSectors_of_none (exfatFindUsedSectors_first_of_none hfound)] at h
      cases h
      exact ⟨[], .stop hnone, rfl⟩

/-- The loop ends when the search neither wraps nor restarts. -/
theorem dumpSectors_ends_zero (hwrap : NoWrap sb cmap) (hrestart : NoRestart sb cmap) :
    ∃ fuel l, dumpSectors sb cmap fuel 0 0 = .ok l := by
  obtain ⟨ca, cb, hfound, hrun⟩ | ⟨hfound, -⟩ :=
    @findUsedClusters_cases cmap sb 1 le_rfl (by decide)
  · have hca := hrun.behind
    have hle := hrun.le
    have hlt := hrun.succ_lt hwrap
    obtain ⟨fuel, l, hrest⟩ := @dumpSectors_ends cmap sb hwrap 0 _ cb (by omega) hlt
      (hrun.lastSector_ne_zero hrestart) (s2c_lastSector (by omega) (by omega))
    refine ⟨fuel + 1, (0, lastSector sb cb) :: l, ?_⟩
    rw [dumpSectors_of_some (exfatFindUsedSectors_first_of_some hfound (by omega)), hrest]
    rfl
  · exact ⟨1, [], dumpSectors_of_none (exfatFindUsedSectors_first_of_none hfound)⟩

/-- With one sector a cluster, and the heap at sector 0, a run of cluster 2 alone is found for ever.
-/
theorem dumpSectors_of_restart (h : ¬ NoRestart sb cmap) (fuel : Nat) :
    dumpSectors sb cmap fuel 0 0 = .error .fuel := by
  obtain ⟨hstart, hbits, hcount, hused, hfree⟩ := not_not.1 h
  have hcall : exfatFindUsedSectors sb cmap 0 0 = .ok (some (0, 0)) := by
    obtain ⟨a, e, hfound, hrun⟩ | ⟨-, hnone⟩ := @findUsedClusters_cases cmap sb 1 le_rfl (by decide)
    · have hbehind := hrun.behind
      have hle := hrun.le
      have ha : a = 2 := by
        by_contra hne
        exact hrun.clear 2 (by omega) (by omega) hused
      have he : e = 2 := by
        by_contra hne
        exact hfree (hrun.used 3 (by omega) (by omega) (by omega))
      rw [ha, he] at hfound
      rw [exfatFindUsedSectors_first_of_some hfound le_rfl,
        (lastSector_eq_zero le_rfl).2 ⟨hstart, hbits, rfl⟩]
    · exact absurd hused (hnone 2 (by omega) (by omega))
  induction fuel with
  | zero => rfl
  | succ fuel ih =>
    rw [dumpSectors_of_some hcall, ih]
    rfl

/-! ### Behind the last number of 32 bits -/

/-- `firstUsed` stops at a used cluster at the latest. -/
theorem firstUsed_le {a n c : Nat} (ha : a ≤ c) (hc : c < a + n)
    (hused : cmap.chunk (sub32 c firstDataCluster) = true) : firstUsed cmap a n ≤ c := by
  induction n generalizing a with
  | zero => omega
  | succ n ih =>
    unfold firstUsed
    by_cases hbit : cmap.chunk (sub32 a firstDataCluster) = true
    · rw [if_pos hbit]
      exact ha
    · rw [if_neg hbit]
      have hne : a ≠ c := fun he => hbit (he ▸ hused)
      exact ih (by omega) (by omega)

/-- A run that begins before the heap stops the program. -/
theorem exfatFindUsedSectors_of_invalid {a b ca cb : Nat} (hb : b ≠ 0)
    (h : findUsedClusters sb cmap (s2c sb b) = some (ca, cb)) (hinvalid : ¬ (2 ≤ ca ∧ 2 ≤ cb)) :
    ∃ e, exfatFindUsedSectors sb cmap a b = .error e := by
  unfold exfatFindUsedSectors
  simp only [hb, and_false, if_false, h, ne_eq, not_false_eq_true, or_true, if_true]
  unfold c2s
  by_cases hca : ca < firstDataCluster
  · rw [if_pos hca]
    exact ⟨_, rfl⟩
  · have hcb : cb < firstDataCluster := by
      unfold firstDataCluster at hca ⊢
      omega
    rw [if_neg hca, if_pos hcb]
    exact ⟨_, rfl⟩

/-- An error of the search ends the loop. -/
theorem dumpSectors_of_error {fuel a b : Nat} {e : Halt}
    (h : exfatFindUsedSectors sb cmap a b = .error e) :
    dumpSectors sb cmap (fuel + 1) a b = .error e := by
  unfold dumpSectors
  rw [h]
  rfl

/-- The search has come to the last number, and starts again. -/
theorem dumpSectors_of_wrap (hcount : sb.clusterCount = 2 ^ 32 - 1)
    (hused : cmap.Used (sb.clusterCount - 1)) {fuel a y : Nat} {l : List (Nat × Nat)} (hy : y ≠ 0)
    (hs : s2c sb y = sb.clusterCount) (h : dumpSectors sb cmap fuel a y = .ok l) :
    ∃ i rest, l = i :: rest ∧ i.1 ≤ clusterSector sb (sb.clusterCount - 1) := by
  cases fuel with
  | zero => exact absurd h (by unfold dumpSectors; exact nofun)
  | succ fuel =>
    -- the cluster behind the last one has the number zero
    have hstart : u32 (sb.clusterCount + 1) = 0 := by
      rw [hcount]
      rfl
    have hle : firstUsed cmap 0 sb.clusterCount ≤ sb.clusterCount - 1 :=
      firstUsed_le (Nat.zero_le _) (by omega) ((chunk_sub32 (by omega) (by omega)).2 hused)
    have hfound : findUsedClusters sb cmap (s2c sb y) = some (firstUsed cmap 0 sb.clusterCount,
        lastUsed cmap (firstUsed cmap 0 sb.clusterCount)
          (sb.clusterCount - firstUsed cmap 0 sb.clusterCount)) := by
      unfold findUsedClusters
      dsimp only
      rw [hs, hstart, Nat.sub_zero, if_neg (by omega)]
    generalize firstUsed cmap 0 sb.clusterCount = ca at hle hfound
    generalize lastUsed cmap ca (sb.clusterCount - ca) = cb at hfound
    -- the first run may begin at a cluster that is no data cluster; then the call fails
    by_cases hvalid : 2 ≤ ca ∧ 2 ≤ cb
    · obtain ⟨hca, hcb⟩ := hvalid
      rw [dumpSectors_of_some (exfatFindUsedSectors_of_some hy hfound hca hcb)] at h
      cases hrest : dumpSectors sb cmap fuel (sectors sb (ca, cb)).1 (sectors sb (ca, cb)).2 with
      | error e =>
        rw [hrest] at h
        cases h
      | ok rest =>
        rw [hrest] at h
        cases h
        exact ⟨_, _, rfl, clusterSector_le sb hca hle⟩
    · obtain ⟨e, he⟩ := exfatFindUsedSectors_of_invalid hy hfound hvalid
      rw [dumpSectors_of_error he] at h
      cases h

/-- The intervals behind a run do not follow it. -/
theorem not_pairwise_of_wrap (hcount : sb.clusterCount = 2 ^ 32 - 1)
    (hused : cmap.Used (sb.clusterCount - 1)) {fuel a y e : Nat} {l : List (Nat × Nat)} (he : 2 ≤ e)
    (hy : y ≠ 0) (hs : s2c sb y = e) (hend : e = sb.clusterCount ∨ e + 1 < sb.clusterCount)
    (h : dumpSectors sb cmap fuel a y = .ok l) (x : Nat) :
    ¬ ((x, lastSector sb e) :: l).Pairwise fun i j => i.2 < j.1 := by
  induction fuel generalizing a y e l x with
  | zero => exact absurd h (by unfold dumpSectors; exact nofun)
  | succ fuel ih =>
    -- The run before ends at the last cluster, or a later one does.
    rcases hend with rfl | hlt
    · obtain ⟨i, rest, rfl, hi⟩ := dumpSectors_of_wrap hcount hused hy hs h
      intro hpair
      have hlt : lastSector sb sb.clusterCount < i.1 :=
        List.rel_of_pairwise_cons hpair List.mem_cons_self
      have hle := clusterSector_le sb (c := sb.clusterCount - 1) (by omega)
        (Nat.sub_le sb.clusterCount 1)
      unfold lastSector at hlt
      omega
    -- the next run does not end there yet, so the interval that comes back is behind it
    · obtain ⟨ca, cb, hfound, hrun⟩ | ⟨-, hnone⟩ :=
        @findUsedClusters_cases cmap sb e (by omega) (by omega)
      · have hca := hrun.behind
        have hle := hrun.le
        have hstop := hrun.le_stop
        have hne : lastSector sb cb ≠ 0 := by
          rw [Ne, lastSector_eq_zero (by omega)]
          omega
        rw [dumpSectors_of_some (exfatFindUsedSectors_of_some hy (hs ▸ hfound)
          (by omega) (by omega))] at h
        cases hrest : dumpSectors sb cmap fuel (clusterSector sb ca) (lastSector sb cb) with
        | error e =>
          unfold sectors at h
          rw [hrest] at h
          cases h
        | ok rest =>
          unfold sectors at h
          rw [hrest] at h
          cases h
          intro hpair
          exact ih (by omega) hne (s2c_lastSector (by omega) (by omega))
            (hrun.ends.imp_right And.left) hrest
            (clusterSector sb ca) (List.Pairwise.of_cons hpair)
      · exact absurd hused (hnone _ (by omega) (by omega))

/-- Where the intervals lie one behind the other the search has not wrapped. -/
theorem noWrap_of_pairwise (hrestart : NoRestart sb cmap) {fuel : Nat} {l : List (Nat × Nat)}
    (h : dumpSectors sb cmap fuel 0 0 = .ok l) (hpair : l.Pairwise fun i j => i.2 < j.1) :
    NoWrap sb cmap := by
  intro hcount hused
  cases fuel with
  | zero => exact absurd h (by unfold dumpSectors; exact nofun)
  | succ fuel =>
    obtain ⟨ca, cb, hfound, hrun⟩ | ⟨-, hnone⟩ :=
      @findUsedClusters_cases cmap sb 1 le_rfl (by decide)
    · have hca := hrun.behind
      have hle := hrun.le
      have hstop := hrun.le_stop
      rw [dumpSectors_of_some (exfatFindUsedSectors_first_of_some hfound (by omega))] at h
      cases hrest : dumpSectors sb cmap fuel 0 (lastSector sb cb) with
      | error e =>
        rw [hrest] at h
        cases h
      | ok rest =>
        rw [hrest] at h
        cases h
        exact not_pairwise_of_wrap hcount hused (by omega) (hrun.lastSector_ne_zero hrestart)
          (s2c_lastSector (by omega) (by omega)) (hrun.ends.imp_right And.left) hrest 0 hpair
    · exact hnone _ (by omega) (by omega) hused

/-! ### When the intervals are right -/

/-- Only the first interval begins earlier. -/
theorem tail_fromZero (l : List (Nat × Nat)) : (fromZero l).tail = l.tail := by
  cases l <;> rfl

/-- An interval of the list that begins earlier ends as one of the list. -/
theorem mem_fromZero {l : List (Nat × Nat)} {i : Nat × Nat} (hi : i ∈ fromZero l) :
    ∃ j ∈ l, i.1 ≤ j.1 ∧ i.2 = j.2 := by
  cases l with
  | nil => exact absurd hi List.not_mem_nil
  | cons j l =>
    rcases List.mem_cons.1 hi with rfl | hi
    · exact ⟨j, List.mem_cons_self, Nat.zero_le _, rfl⟩
    · exact ⟨i, List.mem_cons_of_mem _ hi, le_rfl, rfl⟩

/-- An interval of the list lies in one of the list that begins earlier. -/
theorem exists_mem_fromZero {l : List (Nat × Nat)} {j : Nat × Nat} (hj : j ∈ l) :
    ∃ i ∈ fromZero l, i.1 ≤ j.1 ∧ i.2 = j.2 := by
  cases l with
  | nil => exact absurd hj List.not_mem_nil
  | cons k l =>
    rcases List.mem_cons.1 hj with rfl | hj
    · exact ⟨_, List.mem_cons_self, Nat.zero_le _, rfl⟩
    · exact ⟨j, List.mem_cons_of_mem _ hj, le_rfl, rfl⟩

/-- The first sector of a cluster is in it. -/
theorem clusterSector_inCluster (sb : SuperBlock) (c : Nat) : InCluster sb c (clusterSector sb c) :=
  ⟨le_rfl, Nat.lt_add_of_pos_right (Nat.two_pow_pos _)⟩

namespace Runs

variable {runs : List (Nat × Nat)}

/-- The runs lie inside the heap. -/
theorem bounds {stop : Nat} (h : Runs cmap stop 1 runs) {r : Nat × Nat} (hr : r ∈ runs) :
    2 ≤ r.1 ∧ r.1 < stop ∧ r.1 ≤ r.2 ∧ r.2 ≤ stop := by
  obtain ⟨b, hb, hrun⟩ := h.behind hr
  have hbehind := hrun.behind
  exact ⟨by omega, hrun.inside, hrun.le, hrun.le_stop⟩

/-- The sectors of the runs lie one behind the other. -/
theorem sectors_pairwise {stop : Nat} (h : Runs cmap stop 1 runs) :
    (fromZero (runs.map (sectors sb))).Pairwise fun i j => i.2 < j.1 := by
  have hmap : (runs.map (sectors sb)).Pairwise fun i j => i.2 < j.1 := by
    refine List.pairwise_map.2 (h.pairwise.imp_of_mem fun {i j} hi _ hlt => ?_)
    obtain ⟨hi₁, -, hi₂, -⟩ := h.bounds hi
    exact lastSector_lt sb (by omega) hlt
  cases runs with
  | nil => exact .nil
  | cons r runs => exact List.pairwise_cons.2 (List.pairwise_cons.1 hmap)

/-- A cluster with a sector in an interval is in a run, unless the interval is the first one. -/
theorem of_tail {stop : Nat} (h : Runs cmap stop 1 runs) {i : Nat × Nat}
    (hi : i ∈ (fromZero (runs.map (sectors sb))).tail) {c sector : Nat} (hc : 2 ≤ c)
    (hin : InCluster sb c sector) (hmem : i.1 ≤ sector ∧ sector ≤ i.2) :
    ∃ r ∈ runs.tail, r.1 ≤ c ∧ c ≤ r.2 := by
  rw [tail_fromZero, ← List.map_tail] at hi
  obtain ⟨r, hr, rfl⟩ := List.mem_map.1 hi
  obtain ⟨hr₁, -, hr₂, -⟩ := h.bounds (List.mem_of_mem_tail hr)
  exact ⟨r, hr, (hin.between hc hr₁ (by omega)).1 hmem⟩

/-- A cluster whose first sector is in an interval is not behind all runs. -/
theorem le_of_sector {stop : Nat} (h : Runs cmap stop 1 runs) {c : Nat}
    (hfound : ∃ i ∈ fromZero (runs.map (sectors sb)), i.1 ≤ clusterSector sb c ∧
      clusterSector sb c ≤ i.2) :
    ∃ r ∈ runs, c ≤ r.2 := by
  obtain ⟨i, hi, -, hle⟩ := hfound
  obtain ⟨j, hj, -, he⟩ := mem_fromZero hi
  obtain ⟨r, hr, rfl⟩ := List.mem_map.1 hj
  obtain ⟨hr₁, -, hr₂, -⟩ := h.bounds hr
  refine ⟨r, hr, ?_⟩
  by_contra hlt
  have hlast := lastSector_lt sb (by omega) (Nat.lt_of_not_le hlt)
  have he' : i.2 = lastSector sb r.2 := he
  omega

/-- A sector of a cluster of a run is in one of the intervals. -/
theorem inside_sectors {stop : Nat} (h : Runs cmap stop 1 runs) {r : Nat × Nat} (hr : r ∈ runs)
    {c sector : Nat} (hc : 2 ≤ c) (hin : InCluster sb c sector) (hle : r.1 ≤ c) (hle' : c ≤ r.2) :
    ∃ i ∈ fromZero (runs.map (sectors sb)), i.1 ≤ sector ∧ sector ≤ i.2 := by
  obtain ⟨hr₁, -, hr₂, -⟩ := h.bounds hr
  obtain ⟨hlow, hhigh⟩ := (hin.between hc hr₁ (by omega)).2 ⟨hle, hle'⟩
  obtain ⟨i, hi, hi₁, hi₂⟩ := exists_mem_fromZero (List.mem_map_of_mem hr)
  exact ⟨i, hi, hi₁.trans hlow, hi₂ ▸ hhigh⟩

end Runs

/-- The end of the heap is as the search takes it: the intervals are right. -/
theorem EndUnused.sectorsFound (h : EndUnused sb cmap) : SectorsFound sb cmap := by
  obtain ⟨fuel, l, hl⟩ := dumpSectors_ends_zero h.wrap h.restart
  obtain ⟨runs, hruns, rfl⟩ := runs_of_dumpSectors_zero h.wrap h.restart hl
  refine ⟨fuel, _, hl, fun i hi => ?_, hruns.sectors_pairwise, fun c sector hvalid hused hin => ?_,
    fun i hi c sector hvalid hfree hin hmem => ?_⟩
  -- an interval that begins at the start of the device
  · obtain ⟨j, hj, hle, he⟩ := mem_fromZero hi
    obtain ⟨r, hr, rfl⟩ := List.mem_map.1 hj
    obtain ⟨hr₁, -, hr₂, -⟩ := hruns.bounds hr
    have hmono := clusterSector_le sb hr₁ hr₂
    have he' : i.2 = lastSector sb r.2 := he
    have hle' : i.1 ≤ clusterSector sb r.1 := hle
    unfold lastSector at he'
    omega
  · obtain ⟨hc, hc'⟩ := clusterInvalid_eq_false.1 hvalid
    suffices ∃ r ∈ runs, r.1 ≤ c ∧ c ≤ r.2 by
      obtain ⟨r, hr, hle, hle'⟩ := this
      exact hruns.inside_sectors hr hc hin hle hle'
    -- a used cluster is before the end of the heap, or one of its last two
    obtain hlt | rfl | rfl : c < sb.clusterCount ∨ c = sb.clusterCount ∨
        c = sb.clusterCount + 1 := by omega
    · exact hruns.covers (by omega) hlt hused
    · obtain ⟨hcount, hprevious⟩ := h.previous hc hused
      obtain ⟨r, hr, hle, he⟩ := hruns.covers_stop (by omega) hprevious
      exact ⟨r, hr, by omega, by omega⟩
    · exact absurd hused (h.last (by omega))
  -- A sector of a free cluster is in no interval.
  · obtain ⟨hc, -⟩ := clusterInvalid_eq_false.1 hvalid
    obtain ⟨r, hr, hle, hle'⟩ := hruns.of_tail hi hc hin hmem
    obtain ⟨hr₀, hr₁, hr₂, hr₃⟩ := hruns.bounds (List.mem_of_mem_tail hr)
    obtain ⟨b, -, hrun⟩ := hruns.behind (List.mem_of_mem_tail hr)
    by_cases hlt : c < sb.clusterCount
    · exact hfree (hrun.used c hle hle' hlt)
    -- the last run goes one cluster too far
    obtain rfl : c = sb.clusterCount := by omega
    have hlast := hrun.used_last (by omega)
    rcases h.behind (by omega) hlast with hused | hone
    · exact hfree hused
    · cases hruns with
      | stop _ => exact absurd hr List.not_mem_nil
      | @run _ a e rest hfirst hrest =>
        -- the run before the last one ends where its first clear bit is
        obtain ⟨b', hb', hrun'⟩ := hrest.behind hr
        have hbehind := hrun'.behind
        rcases hfirst.ends with hend | ⟨hend, hclear⟩
        · omega
        · have ha := hfirst.behind
          have hae := hfirst.le
          exact hclear (hone a (e + 1) ha (by omega) hend (hfirst.used a le_rfl hae hfirst.inside))

/-- Where the sectors are found the last bit of the bitmap is clear. -/
theorem SectorsFound.endUnused (h : SectorsFound sb cmap) : EndUnused sb cmap := by
  obtain ⟨fuel, l, hl, -, hpair, hcovers, hfree⟩ := h
  have hrestart : NoRestart sb cmap := by
    by_contra hrestart
    rw [dumpSectors_of_restart hrestart] at hl
    cases hl
  have hwrap := noWrap_of_pairwise hrestart hl hpair
  obtain ⟨runs, hruns, rfl⟩ := runs_of_dumpSectors_zero hwrap hrestart hl
  have hreach : ∀ c, sb.clusterInvalid c = false → cmap.Used c → ∃ r ∈ runs, c ≤ r.2 :=
    fun c hvalid hused =>
    hruns.le_of_sector (hcovers c _ hvalid hused (clusterSector_inCluster sb c))
  -- Three conditions on the last clusters, each from the interval that would be wrong.
  refine ⟨fun hcount hused => ?_, fun hcount hused => ?_, fun hcount hlast => ?_, hrestart, hwrap⟩
  · obtain ⟨r, hr, hle⟩ := hreach _ (clusterInvalid_eq_false.2 ⟨by omega, by omega⟩) hused
    obtain ⟨-, -, -, hr'⟩ := hruns.bounds hr
    omega
  · obtain ⟨r, hr, hle⟩ := hreach _ (clusterInvalid_eq_false.2 ⟨hcount, by omega⟩) hused
    obtain ⟨hr₁, hr₂, -, hr₃⟩ := hruns.bounds hr
    obtain ⟨b, -, hrun⟩ := hruns.behind hr
    exact ⟨by omega, hrun.used_last (by omega)⟩
  -- if the bit of the last cluster is clear, its sectors would be reported
  · by_contra hnot
    obtain ⟨hunused, hgap⟩ := not_or.1 hnot
    obtain ⟨r, hr, hle, he⟩ := hruns.covers_stop (by omega) hlast
    cases hruns with
    | stop _ => exact absurd hr List.not_mem_nil
    | @run _ a e rest hfirst hrest =>
      rcases List.mem_cons.1 hr with rfl | hr
      · refine hgap fun c d hc hcd hd hused => ?_
        refine hfirst.used d ?_ (by omega) hd
        by_contra hlt
        exact hfirst.clear c (by omega) (by omega) hused
      · have hin := clusterSector_inCluster sb sb.clusterCount
        obtain ⟨b', hb', hrun'⟩ := hrest.behind hr
        have hbehind := hrun'.behind
        have ha := hfirst.behind
        have hae := hfirst.le
        refine hfree (sectors sb r) (List.mem_map_of_mem hr) _ _
          (clusterInvalid_eq_false.2 ⟨by omega, by omega⟩) hunused hin ?_
        exact (hin.between (by omega) (by omega) (by omega)).2 ⟨by omega, by omega⟩

/-- The intervals are right if and only if the end of the heap is as the search takes it. -/
theorem sectorsFound_iff (sb : SuperBlock) (cmap : Cmap) :
    SectorsFound sb cmap ↔ EndUnused sb cmap :=
  ⟨SectorsFound.endUnused, EndUnused.sectorsFound⟩

/-- On a full volume the last cluster is missed. -/
theorem not_sectorsFound : ¬ SectorsFound cardBoot { size := 4, chunk := fun _ => true } :=
  fun h => h.endUnused.last (by decide) rfl

end Search

end ExFat
