import ExFat.Fs.Create
import ExFat.Fs.Characters

namespace ExFat

open Bytes Program

/-!
# The entry of the label

`exfat_set_label` stores fifteen units, padded with zeros, and marks an empty label as deleted;
`readdir` converts them back when the root directory is read at the next mount.
-/

variable {δ : Type}

/-! ### The units that are stored -/

/-- The fifteen units of a label. -/
def labelUnits (units : List Nat) : List Nat :=
  units.take enameMax ++ List.replicate (enameMax - units.length) 0

/-- The label has fifteen units with the padding. -/
theorem length_labelUnits (units : List Nat) : (labelUnits units).length = enameMax := by
  rw [labelUnits, List.length_append, List.length_take, List.length_replicate]
  omega

/-- The label is padded with zeroes. -/
theorem mem_labelUnits {units : List Nat} {x : Nat} (hx : x ∈ labelUnits units) :
    x ∈ units ∨ x = 0 := by
  rw [labelUnits, List.mem_append] at hx
  exact hx.imp (fun h => List.mem_of_mem_take h) (fun h => List.eq_of_mem_replicate h)

/-- The string is stored as a whole. -/
theorem nameString_labelUnits {units : List Nat} (h : (nameString units).length ≤ enameMax) :
    nameString (labelUnits units) = nameString units := by
  obtain ⟨post, hunits, hpost⟩ := exists_nameString_append units
  have htake : units.take enameMax = nameString units ++ post.take
      (enameMax - (nameString units).length) := by
    conv_lhs => rw [hunits]
    rw [List.take_append, List.take_of_length_le h]
  rw [labelUnits, htake, List.append_assoc]
  refine nameString_append (fun x hx => nameString_pos hx) ?_
  obtain rfl | ⟨junk, rfl⟩ := hpost
  · rw [List.take_nil, List.nil_append]
    exact terminated_replicate _
  · cases enameMax - (nameString units).length with
    | zero =>
      rw [List.take_zero, List.nil_append]
      exact terminated_replicate _
    | succ k => exact .inr ⟨_, by rw [List.take_succ_cons, List.cons_append]⟩

/-- The bytes of the label entry. -/
theorem labelEntry_eq (units : List Nat) :
    labelEntry units =
      UInt8.ofNat (if utf16Length units = 0 then entryLabel ^^^ entryValid else entryLabel) ::
        UInt8.ofNat (utf16Length units) :: (labelUnits units).flatMap (natLe 2) :=
  rfl

/-- The entry is in use if the label is not empty. -/
theorem type_labelEntry (units : List Nat) :
    (labelEntry units).type = if utf16Length units =
    0 then entryLabel ^^^ entryValid else entryLabel := by
  rw [labelEntry_eq]
  by_cases h : utf16Length units = 0
  · rw [if_pos h, show entryLabel ^^^ entryValid = 3 by decide]
    rfl
  · rw [if_neg h]
    rfl

/-- The entry holds the length of the label. -/
theorem length_of_labelEntry {units : List Nat} (h : utf16Length units ≤ enameMax) :
    leAt (labelEntry units) 1 1 = utf16Length units := by
  unfold enameMax at h
  rw [labelEntry_eq]
  show (UInt8.ofNat (utf16Length units)).toNat + 256 * 0 = utf16Length units
  rw [UInt8.toNat_ofNat']
  omega

/-- The entry holds the units of the label. -/
theorem units_labelEntry {units : List Nat} (h : ∀ x ∈ units, x < 2 ^ 16) :
    (labelEntry units).units = labelUnits units := by
  refine List.ext_getElem ?_ fun i hi hi' => ?_
  · rw [length_labelUnits, Entry.units, List.length_map, List.length_range]
  rw [length_labelUnits] at hi'
  -- a unit of the entry is two of its bytes, in the order of the disk
  have hat : ∀ j < 2, (labelEntry units).getD (2 + 2 * i + j) 0 =
      (natLe 2 ((labelUnits units).getD i 0)).getD j 0 := by
    intro j hj
    have hcells := getD_flatten_natLe 2 (labelUnits units) (i := i) (by rwa [length_labelUnits]) hj
    rw [← hcells, ← List.flatMap_def]
    rw [labelEntry_eq, show 2 + 2 * i + j = 2 * i + j + 1 + 1 by omega, List.getD_cons_succ,
      List.getD_cons_succ]
  have hlt : (labelUnits units).getD i 0 < 2 ^ 16 := by
    have hin : i < (labelUnits units).length := by rwa [length_labelUnits]
    rw [List.getD_eq_getElem (labelUnits units) 0 hin]
    obtain hx | hx := mem_labelUnits (List.getElem_mem hin)
    · exact h _ hx
    · rw [hx]
      decide
  have hword : leAt (labelEntry units) (2 + 2 * i) 2 = (labelUnits units).getD i 0 := by
    rw [← leNat_natLe_of_lt (k := 2) hlt]
    unfold leAt
    congr 1
    refine List.ext_getElem (by simp) fun j hj hj' => ?_
    rw [length_natLe] at hj'
    simp only [List.getElem_map, List.getElem_range]
    rw [hat j hj', List.getD_eq_getElem _ _ (by rwa [length_natLe])]
  rw [← List.getD_eq_getElem (labelUnits units) 0 (by rwa [length_labelUnits])]
  simp only [Entry.units, List.getElem_map, List.getElem_range]
  exact hword

/-! ### Reading it back -/

/-- A mount that meets the entry finds the label, if there has been none before. -/
def FindsLabel [Device δ] (entry : Entry) (label : List UInt8) : Prop :=
  ∀ (offset : Int) (s : FileState δ), s.ef.label = [] →
    ∃ s', skipEntry entry offset s = .ok (.ok ()) s' ∧ s'.ef.label = label

/-- What `exfat_set_label` has written for the units is found. -/
theorem findsLabel_labelEntry [Device δ] {units : List Nat} {label : List UInt8}
    (hunit : ∀ x ∈ units, x < 2 ^ 16) (hlen : (nameString units).length ≤ enameMax)
    (h : exfatUtf16ToUtf8 (labelUnits units) utf8EnameBufferMax = .ok label) :
    FindsLabel (δ := δ) (labelEntry units) label := by
  intro offset s hs
  -- an empty label has an entry that is not in use, and none is read from it
  by_cases hempty : utf16Length units = 0
  · have htype : (labelEntry units).type = 3 := by
      rw [type_labelEntry, if_pos hempty]
      rfl
    have hlabel : label = [] := by
      obtain ⟨wcs, -, hwcs, hlabel, -⟩ := exists_spelling_of_exfatUtf16ToUtf8
        (fun x hx => (mem_labelUnits hx).elim (hunit x) (fun h => by rw [h]; decide)) h
      have hnil : nameString units = [] := List.length_eq_zero_iff.1 hempty
      rw [nameString_labelUnits hlen, hnil] at hwcs
      have hle := length_le_unitString wcs
      rw [← hwcs] at hle
      obtain rfl := List.length_eq_zero_iff.1 (Nat.le_zero.1 hle)
      exact hlabel
    refine ⟨s, ?_, hs.trans hlabel.symm⟩
    unfold skipEntry
    rw [htype, if_neg (by decide), if_neg (by decide), if_neg (by decide)]
    unfold readUnknown
    rw [htype, if_pos (by decide)]
    rfl
  -- otherwise `exfat_mount` takes the label from the entry
  · have htype : (labelEntry units).type = entryLabel := by
      rw [type_labelEntry, if_neg hempty]
    have hread : readLabel (labelEntry units) s.ef = .ok (.ok ()) { s.ef with label := label } := by
      unfold readLabel
      rw [length_of_labelEntry hlen,
        if_neg (show ¬ utf16Length units > enameMax from Nat.not_lt.2 hlen),
        units_labelEntry hunit, h]
      rfl
    refine ⟨{ s with ef := { s.ef with label := label } }, ?_, rfl⟩
    unfold skipEntry
    rw [htype, if_neg (by decide), if_neg (by decide), if_pos rfl]
    exact run_zoom_ok hread

end ExFat
