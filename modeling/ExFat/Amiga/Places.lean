import ExFat.Amiga.Partitions
import Mathlib.Data.List.Nodup
import Mathlib.Data.List.ReduceOption
import Mathlib.Data.Set.Pairwise.List

namespace ExFat

open Bytes Program

/-!
# The places of the slots

A partition is reported twice when two places of the tables name the same block: the same link of a
chain that comes back to itself, two entries of the array, or slots of different tables.

* `mbrSteps`: the links of the chain, or the entries of the array, that the scan comes to behind a
  slot of the MBR, with what each of them names.
* `exfatPlaces`: the places whose slot shows an exFAT volume when it is probed.
* `exfatSlots_eq_places`: what the scan reports are the slots at these places, in their order.
-/

variable (d : Disk) (m : ScanMemory)

/-! ### Links and entries -/

/-- The links of an extended partition that are followed, each with the slot it names. -/
def ebrSteps (extStart : Nat) : (links here : Nat) → (ebr : List UInt8) →
    List (Option ExfatPartition)
  | 0, _, _ => []
  | links + 1, here, ebr =>
    match d.readAt ebr here with
    | none => []
    | some ebr =>
      if le16at m.behindEbr ebr mbrSig ≠ 0xaa55 then []
      else
        (if ebrUsed m ebr then some (ebrSlot m here ebr) else none) ::
          match ebrNext m extStart ebr with
          | none => []
          | some next => ebrSteps extStart links next ebr

/-- The entries of a GPT that can be read, each with the slot it names. -/
def gptEntries (entLba entSize : Nat) : (left i : Nat) → (hdr : List UInt8) →
    List (Option ExfatPartition)
  | 0, _, _ => []
  | left + 1, i, hdr =>
    match d.readAt hdr ((entLba + gptOffset entSize i / d.blocksize) % 2 ^ 64) with
    | none => []
    | some hdr =>
      gptSlot m hdr (gptOffset entSize i % d.blocksize) ::
        gptEntries entLba entSize left (i + 1) hdr

/-- The entries of the GPT, if there is one. -/
def gptSteps (i : Nat) : List (Option ExfatPartition) :=
  if !m.allocScan i then []
  else
    match d.pread (List.replicate d.blocksize 0) d.blocksize with
    | none => []
    | some hdr =>
      if !textAt m.behindHdr hdr 0 gptSignature then []
      else
        let entCount := le32at m.behindHdr hdr gptEntCount
        gptEntries d m (le64at m.behindHdr hdr gptEntLba) (le32at m.behindHdr hdr gptEntSize)
          (if entCount > 128 then 128 else entCount) 0 hdr

/-- What the scan comes to behind slot `i` of the MBR. -/
def mbrSteps (mbr : List UInt8) (i : Nat) : List (Option ExfatPartition) :=
  let e := mbrTable + i * mbrEntrySize
  let type := byteAt m.behindBuf mbr (e + 4)
  let first := le32at m.behindBuf mbr (e + 8)
  let count := le32at m.behindBuf mbr (e + 12)
  if type = 0 ∨ count = 0 then []
  else if type = mbrTypeGpt then gptSteps d m i
  else if isExtendedType type then
    if !m.allocScan i then []
    else ebrSteps d m first ebrMaxLinks first (List.replicate d.blocksize 0)
  else [some ⟨first, count⟩]

variable {d m}

/-- The slots of an extended partition are those of the links that are visited. -/
theorem ebrSlots_eq_steps (extStart links here : Nat) (ebr : List UInt8) :
    ebrSlots d m extStart links here ebr = (ebrSteps d m extStart links here ebr).reduceOption := by
  induction links generalizing here ebr with
  | zero => rfl
  | succ links ih =>
    unfold ebrSlots ebrSteps
    cases d.readAt ebr here with
    | none => rfl
    | some ebr =>
      dsimp only
      split
      · rfl
      cases ebrNext m extStart ebr with
      | none => split <;> rfl
      | some next =>
        dsimp only
        rw [ih]
        split
        · rfl
        · rfl

/-- The slots of a GPT are those of the entries that are visited. -/
theorem gptSlots_eq_entries (entLba entSize left i : Nat) (hdr : List UInt8) :
    gptSlots d m entLba entSize left i hdr =
    (gptEntries d m entLba entSize left i hdr).reduceOption := by
  induction left generalizing i hdr with
  | zero => rfl
  | succ left ih =>
    unfold gptSlots gptEntries
    cases d.readAt hdr ((entLba + gptOffset entSize i / d.blocksize) % 2 ^ 64) with
    | none => rfl
    | some hdr =>
      dsimp only
      rw [ih]
      cases gptSlot m hdr (gptOffset entSize i % d.blocksize) with
      | none => rfl
      | some p => rfl

/-- The slots of the partition table are those of its four entries. -/
theorem mbrSlots_eq_steps (mbr : List UInt8) (i : Nat) :
    mbrSlots d m mbr i = (mbrSteps d m mbr i).reduceOption := by
  have hgpt : gptTable d m i = (gptSteps d m i).reduceOption := by
    unfold gptTable gptSteps
    split
    · rfl
    cases d.pread (List.replicate d.blocksize 0) d.blocksize with
    | none => rfl
    | some hdr =>
      dsimp only
      split
      · rfl
      · exact gptSlots_eq_entries ..
  unfold mbrSlots mbrSteps
  dsimp only
  rw [hgpt, ebrSlots_eq_steps]
  split
  · rfl
  split
  · rfl
  split
  · split
    · rfl
    · rfl
  · rfl

/-! ### What is shown -/

variable (d m)

/-- The probe buffer when the slots have been probed one after the other. -/
def probed (buf : List UInt8) (steps : List (Option ExfatPartition)) : List UInt8 :=
  steps.reduceOption.foldl (fun buf p => (isExfatAt d m p.firstLba buf).2) buf

/-- The slot of step `k` shows an exFAT volume when its turn comes. -/
def stepShows (buf : List UInt8) (steps : List (Option ExfatPartition)) (k : Nat) : Bool :=
  steps[k]?.join.any fun p => (isExfatAt d m p.firstLba (probed d m buf (steps.take k))).1

variable {d m}

/-- The first step, and those after it with the buffer it leaves. -/
theorem filter_stepShows_cons (buf : List UInt8) (step : Option ExfatPartition)
    (steps : List (Option ExfatPartition)) :
    ((List.range (step :: steps).length).filter (stepShows d m buf (step :: steps))).filterMap
        (fun k => (step :: steps)[k]?.join) =
      (if stepShows d m buf [step] 0 then step.toList else []) ++
        ((List.range steps.length).filter (stepShows d m (probed d m buf [step]) steps)).filterMap
          fun k => steps[k]?.join := by
  -- what a later step sees of the buffer depends on the steps before it
  have hlater : ∀ k, stepShows d m buf (step :: steps) (k + 1) = stepShows d m
      (probed d m buf [step]) steps k := by
    intro k
    unfold stepShows
    have htake : probed d m buf ((step :: steps).take (k + 1)) =
        probed d m (probed d m buf [step]) (steps.take k) := by
      unfold probed
      rw [List.take_succ_cons, ← List.foldl_append, ← List.reduceOption_append]
      rfl
    rw [htake, List.getElem?_cons_succ]
  have hfirst : stepShows d m buf (step :: steps) 0 = stepShows d m buf [step] 0 := rfl
  rw [List.length_cons, List.range_succ_eq_map, List.filter_cons, hfirst, List.filter_map]
  have hcomp : stepShows d m buf (step :: steps) ∘ Nat.succ = stepShows d m
      (probed d m buf [step]) steps :=
    funext hlater
  rw [hcomp]
  -- the first step shows its partition, or shows nothing
  split
  · rw [List.filterMap_cons, List.filterMap_map]
    cases step with
    | none => rfl
    | some p => rfl
  · rw [List.filterMap_map]
    rfl

/-- What is listed is what the visited places show. -/
theorem showing_reduceOption (buf : List UInt8) (steps : List (Option ExfatPartition)) :
    showing d m buf steps.reduceOption =
      ((List.range steps.length).filter (stepShows d m buf steps)).filterMap fun k =>
        steps[k]?.join := by
  induction steps generalizing buf with
  | nil => rfl
  | cons step steps ih =>
    rw [filter_stepShows_cons, ← ih]
    cases step with
    | none => rfl
    | some p =>
      rw [List.reduceOption_cons_of_some, showing]
      have hshows : stepShows d m buf [some p] 0 = (isExfatAt d m p.firstLba buf).1 := rfl
      have hprobed : probed d m buf [some p] = (isExfatAt d m p.firstLba buf).2 := rfl
      rw [hshows, hprobed]
      split
      · rfl
      · rfl

/-! ### The places -/

/-- A slot of the MBR and, behind it, a link of the chain or an entry of the array. -/
structure Place where
  slot : Nat
  step : Nat
  deriving DecidableEq, Repr

variable (d m)

/-- What the tables name at a place. -/
def slotAt (mbr : List UInt8) (a : Place) : Option ExfatPartition :=
  (mbrSteps d m mbr a.slot)[a.step]?.join

/-- The places behind slot `i` of the MBR that show an exFAT volume. -/
def placesBehind (mbr : List UInt8) (i : Nat) : List Place :=
  ((List.range (mbrSteps d m mbr i).length).filter (stepShows d m mbr (mbrSteps d m mbr i))).map
    (Place.mk i)

/-- The places of the tables that show an exFAT volume, in the order in which they are probed. -/
def exfatPlaces (mbr : List UInt8) : List Place :=
  (List.range mbrEntries).flatMap (placesBehind d m mbr)

variable {d m}

/-- What the partition table lists is what the places of its entries show. -/
theorem mbrShowing_eq_places (mbr : List UInt8) (left i : Nat) :
    mbrShowing d m mbr left i =
      ((List.range' i left).flatMap (placesBehind d m mbr)).filterMap (slotAt d m mbr) := by
  induction left generalizing i with
  | zero => rfl
  | succ left ih =>
    rw [mbrShowing, ih, List.range'_succ, List.flatMap_cons, List.filterMap_append,
      mbrSlots_eq_steps,
      showing_reduceOption]
    congr 1
    unfold placesBehind
    rw [List.filterMap_map]
    rfl

/-- At a place that shows an exFAT volume there is a slot. -/
theorem slotAt_of_mem {mbr : List UInt8} {a : Place} (ha : a ∈ exfatPlaces d m mbr) :
    ∃ p, slotAt d m mbr a = some p := by
  unfold exfatPlaces placesBehind at ha
  simp only [List.mem_flatMap, List.mem_map, List.mem_filter] at ha
  obtain ⟨i, -, k, ⟨-, hshows⟩, rfl⟩ := ha
  unfold stepShows at hshows
  obtain ⟨p, hp, -⟩ := (Option.any_eq_true ..).1 hshows
  exact ⟨p, hp⟩

/-- No place comes twice. -/
theorem nodup_exfatPlaces (mbr : List UInt8) : (exfatPlaces d m mbr).Nodup := by
  have hmk : ∀ i, Function.Injective (Place.mk i) := fun i k k' h => by
    cases h
    rfl
  refine List.nodup_flatMap.2 ⟨fun i _ => ?_, ?_⟩
  · exact (List.nodup_range.filter _).map (hmk i)
  · refine List.nodup_range.imp ?_
    intro i j hne a ha hb
    unfold placesBehind at ha hb
    obtain ⟨k, -, rfl⟩ := List.mem_map.1 ha
    obtain ⟨k', -, heq⟩ := List.mem_map.1 hb
    cases heq
    exact hne rfl

/-- What the scan finds in the tables are the slots at the places that show an exFAT volume. -/
theorem exfatSlots_eq_places {mbr : List UInt8}
    (hmbr : d.pread (List.replicate d.blocksize 0) 0 = some mbr)
    (hexfat : textAt m.behindBuf mbr 3 exfatSignature = false)
    (hsig : le16at m.behindBuf mbr mbrSig = 0xaa55) :
    exfatSlots d m = (exfatPlaces d m mbr).filterMap (slotAt d m mbr) := by
  unfold exfatSlots exfatPlaces
  rw [hmbr]
  dsimp only
  rw [hexfat, if_neg (by decide), if_neg (not_not.2 hsig), mbrShowing_eq_places,
    List.range_eq_range']

/-! ### No partition twice -/

/-- Where there is something for every place, what is taken first is there at the first places. -/
theorem take_filterMap {α β : Type} {f : α → Option β} {as : List α}
    (h : ∀ a ∈ as, ∃ b, f a = some b) (n : Nat) :
    (as.filterMap f).take n = (as.take n).filterMap f := by
  induction as generalizing n with
  | nil => simp
  | cons a as ih =>
    obtain ⟨b, hb⟩ := h a (.head _)
    cases n with
    | zero => rfl
    | succ n => rw [List.filterMap_cons_some hb, List.take_succ_cons,
      ih (fun x hx => h x (.tail _ hx)) n,
        List.take_succ_cons, List.filterMap_cons_some hb]

/-- The partitions reported start at different blocks exactly if no two of the places that are
probed first with success (as many as there is room for) name the same block. -/
theorem scanPartitions_nodup_iff (d : Disk) (m : ScanMemory) (totalSectors max : Nat) :
    ((exfatAmigaScanPartitions d m totalSectors max).map ExfatPartition.firstLba).Nodup ↔
      (m.allocBuf = true → superfloppy d m = false →
        ∀ mbr, d.pread (List.replicate d.blocksize 0) 0 = some mbr →
        le16at m.behindBuf mbr mbrSig = 0xaa55 →
          ∀ a ∈ (exfatPlaces d m mbr).take max, ∀ b ∈ (exfatPlaces d m mbr).take max, a ≠ b →
            ∀ p q, slotAt d m mbr a = some p → slotAt d m mbr b = some q →
            p.firstLba ≠ q.firstLba) := by
  rw [exfatAmigaScanPartitions_eq]
  -- No buffer, a volume without a table, or the tables.
  cases halloc : m.allocBuf with
  | false => simp
  | true =>
  cases hfloppy : superfloppy d m with
  | true =>
    cases max with
    | zero => simp
    | succ max => simp
  | false =>
  rw [if_neg (by decide), if_neg (by decide)]
  -- a table that cannot be read has no slots
  cases hmbr : d.pread (List.replicate d.blocksize 0) 0 with
  | none =>
    have hnone : exfatSlots d m = [] := by
      unfold exfatSlots
      rw [hmbr]
    simp [hnone]
  | some mbr =>
  have hexfat : textAt m.behindBuf mbr 3 exfatSignature = false := by
    unfold superfloppy at hfloppy
    rw [hmbr, Option.any_some] at hfloppy
    exact hfloppy
  -- the signature of the MBR, or no table at all
  by_cases hsig : le16at m.behindBuf mbr mbrSig = 0xaa55
  · rw [exfatSlots_eq_places hmbr hexfat hsig, take_filterMap fun a ha => slotAt_of_mem ha,
      List.Nodup,
      List.pairwise_map, List.pairwise_filterMap]
    -- no place comes twice, so that a pair of places in the list is a pair of different places
    have hnodup := (nodup_exfatPlaces (d := d) (m := m) mbr).sublist (List.take_sublist max _)
    have hsymm : Std.Symm fun a b => ∀ p, slotAt d m mbr a = some p → ∀ q,
        slotAt d m mbr b = some q →
        p.firstLba ≠ q.firstLba := ⟨fun a b h q hq p hp => (h p hp q hq).symm⟩
    rw [← hnodup.pairwise_coe]
    constructor
    · rintro h - - mbr' hmbr' - a ha b hb hne p q hp hq
      cases hmbr'
      exact h ha hb hne p hp q hq
    · intro h a ha b hb hne p hp q hq
      exact h rfl rfl mbr rfl hsig a ha b hb hne p q hp hq
  · have hnone : exfatSlots d m = [] := by
      unfold exfatSlots
      rw [hmbr]
      dsimp only
      rw [hexfat, if_neg (by decide), if_pos hsig]
    rw [hnone, List.take_nil]
    refine iff_of_true List.nodup_nil fun _ _ mbr' hmbr' hsig' => ?_
    cases hmbr'
    exact absurd hsig' hsig

/-- The second table links to itself, and its partition is the first one again. -/
theorem scanPartitions_not_nodup :
    ¬ ((exfatAmigaScanPartitions (fourBlockDisk [tableSlot 0x07 1 1, tableSlot 0x05 1 1])
      clearMemory 4
      exfatMaxPartitions).map ExfatPartition.firstLba).Nodup := by
  have hscan : exfatAmigaScanPartitions (fourBlockDisk [tableSlot 0x07 1 1, tableSlot 0x05 1 1])
      clearMemory 4 exfatMaxPartitions = List.replicate 8 ⟨3, 1⟩ := by decide +kernel
  rw [hscan]
  decide

end ExFat
