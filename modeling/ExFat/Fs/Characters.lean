import ExFat.Fs.Spelling

namespace ExFat

open Bytes

/-!
# Strings as lists of characters

What the transcoders write is the spelling of a list of characters, each in as few bytes as it
takes, and a string that is spelled so can be read by every decoder: by that of `utf.c`, and up to
four bytes a character by that of `amigaos.c`.
-/

/-! ### Characters that UTF-16 can hold -/

/-- A character that comes out of well-paired units. -/
structure Scalar (wc : Nat) : Prop where
  pos : 0 < wc
  le : wc ≤ 0x10ffff
  notLead : wc ≤ 0xffff → isLead wc = false

/-- The bytes of one character. -/
def charBytes (wc : Nat) : List UInt8 := leadByte wc (tailLength wc) :: tailBytes wc (tailLength wc)

/-- The UTF-8 string of characters. -/
def spelling (wcs : List Nat) : List UInt8 := wcs.flatMap charBytes

/-- The UTF-16 string of characters. -/
def unitString (wcs : List Nat) : List Nat := wcs.flatMap wcharToUtf16

/-- The characters are spelled one after the other. -/
theorem spelling_cons (wc : Nat) (wcs : List Nat) :
    spelling (wc :: wcs) = charBytes wc ++ spelling wcs :=
  List.flatMap_cons

/-- The characters are written in units one after the other. -/
theorem unitString_cons (wc : Nat) (wcs : List Nat) :
    unitString (wc :: wcs) = wcharToUtf16 wc ++ unitString wcs :=
  List.flatMap_cons

/-- A character has one byte more than it has continuation bytes. -/
theorem length_charBytes (wc : Nat) : (charBytes wc).length = tailLength wc + 1 := by
  rw [charBytes, List.length_cons, length_tailBytes]

/-- A character has at least one unit. -/
theorem length_wcharToUtf16_pos (wc : Nat) : 0 < (wcharToUtf16 wc).length := by
  unfold wcharToUtf16
  split_ifs
  all_goals exact Nat.succ_pos _

/-- A Unicode character is below the limit of `wchar_to_utf8`. -/
theorem Scalar.le_limit {wc : Nat} (h : Scalar wc) : wc ≤ 0x7fffffff := h.le.trans (by decide)

/-- `wchar_to_utf8` writes the bytes of a Unicode character. -/
theorem Scalar.wcharToUtf8 {wc : Nat} (h : Scalar wc) : wcharToUtf8 wc = some (charBytes wc) :=
  wcharToUtf8_eq h.le_limit

/-- A character takes at most three bytes for each of its units. -/
theorem Scalar.room {wc : Nat} (h : Scalar wc) :
    tailLength wc + 1 ≤ 3 * (wcharToUtf16 wc).length := by
  have hle := h.le
  unfold tailLength wcharToUtf16
  split_ifs
  all_goals simp

/-- A text has at least as many bytes as characters. -/
theorem length_le_spelling (wcs : List Nat) : wcs.length ≤ (spelling wcs).length := by
  induction wcs with
  | nil => exact le_rfl
  | cons wc wcs ih =>
    rw [spelling_cons, List.length_append, length_charBytes, List.length_cons]
    omega

/-- A text has at least as many units as characters. -/
theorem length_le_unitString (wcs : List Nat) : wcs.length ≤ (unitString wcs).length := by
  induction wcs with
  | nil => exact le_rfl
  | cons wc wcs ih =>
    have hpos := length_wcharToUtf16_pos wc
    rw [unitString_cons, List.length_append, List.length_cons]
    omega

/-- The first byte of a character of one byte is the character; of a longer one it has the top bit.
-/
theorem leadByte_lt_iff {wc : Nat} (h : wc ≤ 0x7fffffff) :
    leadByte wc (tailLength wc) < 0x80 ↔ tailLength wc = 0 := by
  have hlead := utf8Lead_leadByte h
  have hall : ∀ n < 256, UInt8.ofNat n < 0x80 ↔ (utf8Lead n).map Prod.fst = some 1 := by
    decide +kernel
  have hb := hall (leadByte wc (tailLength wc)).toNat (leadByte wc (tailLength wc)).toNat_lt
  rw [UInt8.ofNat_toNat, hlead, Option.map_some, Option.some.injEq] at hb
  rw [hb]
  omega

/-- A byte without the top bit is a character of its own. -/
theorem mem_charBytes_iff {wc : Nat} (h : wc ≤ 0x7fffffff) {b : UInt8} (hb : b < 0x80) :
    b ∈ charBytes wc ↔ wc = b.toNat := by
  have hb' : b.toNat < 0x80 := hb
  constructor
  · intro hmem
    rcases List.mem_cons.1 hmem with rfl | hmem
    · have hzero := (leadByte_lt_iff h).1 hb
      have hwc : wc ≤ 0x7f := by
        unfold tailLength at hzero
        split at hzero
        · assumption
        · split_ifs at hzero
      rw [hzero]
      show wc = (UInt8.ofNat wc).toNat
      rw [UInt8.toNat_ofNat']
      omega
    · exact absurd (UInt8.not_lt.2 (le_of_mem_tailBytes hmem)) (not_not.2 hb)
  · rintro rfl
    have hzero : tailLength b.toNat = 0 := if_pos (by omega)
    rw [charBytes, hzero]
    exact List.mem_cons.2 (.inl (UInt8.ofNat_toNat).symm)

/-- A string of characters is as long as their number where each of them takes one byte. -/
theorem length_spelling_iff {wcs : List Nat} (h : ∀ wc ∈ wcs, Scalar wc) :
    (spelling wcs).length = wcs.length ↔ ∀ b ∈ spelling wcs, b < 0x80 := by
  induction wcs with
  | nil => exact ⟨fun _ _ hb => (List.not_mem_nil hb).elim, fun _ => rfl⟩
  | cons wc wcs ih =>
    have hle := length_le_spelling wcs
    have hlead := leadByte_lt_iff (h wc List.mem_cons_self).le_limit
    have ih' := ih fun x hx => h x (List.mem_cons_of_mem _ hx)
    rw [spelling_cons, List.length_append, length_charBytes, List.length_cons]
    constructor
    · intro hlen b hb
      have hzero : tailLength wc = 0 := by omega
      rcases List.mem_append.1 hb with hb | hb
      · rw [charBytes, hzero] at hb
        rw [hzero] at hlead
        rw [List.mem_singleton.1 hb]
        exact hlead.2 rfl
      · exact ih'.1 (by omega) b hb
    · intro hall
      have hzero := hlead.1 (hall _ (List.mem_append_left _ List.mem_cons_self))
      have hrest := ih'.2 fun b hb => hall b (List.mem_append_right _ hb)
      omega

/-- Characters of one byte are their own bytes. -/
theorem spelling_of_lt {wcs : List Nat} (h : ∀ wc ∈ wcs, wc < 0x80) :
    spelling wcs = wcs.map UInt8.ofNat := by
  induction wcs with
  | nil => rfl
  | cons wc wcs ih =>
    have hzero : tailLength wc = 0 := by
      have := h wc List.mem_cons_self
      unfold tailLength
      rw [if_pos (by omega)]
    rw [spelling_cons, List.map_cons, ih fun x hx => h x (List.mem_cons_of_mem _ hx),
      charBytes, hzero]
    rfl

/-- A text without the character zero holds no zero byte. -/
theorem zero_notMem_spelling {wcs : List Nat} (h : ∀ wc ∈ wcs, Scalar wc) :
    (0 : UInt8) ∉ spelling wcs := by
  intro hmem
  obtain ⟨wc, hwc, hzero⟩ := List.mem_flatMap.1 hmem
  have hs := h wc hwc
  exact zero_notMem_wcharToUtf8 hs.wcharToUtf8 hs.le_limit hs.pos hzero

/-! ### The transcoders on characters -/

/-- `utf16_to_wchar` reads back the units of a character. -/
theorem Scalar.utf16ToWchar {wc : Nat} (h : Scalar wc) (rest : List Nat) :
    utf16ToWchar (wcharToUtf16 wc ++ rest) = some (wc, rest) := by
  by_cases hle : wc ≤ 0xffff
  · rw [wcharToUtf16, if_pos hle, List.singleton_append]
    exact utf16ToWchar_single (h.notLead hle) rest
  · have hwc := h.le
    rw [wcharToUtf16_pair hle, List.cons_append, List.singleton_append,
      utf16ToWchar_pair ((isLead_iff _).2 (by omega)) ((isTrail_iff _).2 (by omega))]
    congr 2
    omega

/-- What is taken off the front of the units is such a character. -/
theorem TakenChar.scalar {us rest : List Nat} {wc : Nat} (h : TakenChar us wc rest) :
    Scalar wc := by
  refine ⟨h.pos, h.le, fun hle => ?_⟩
  have hread := h.read []
  rw [h.units, wcharToUtf16, if_pos hle, List.append_nil, List.append_nil,
    List.singleton_append] at hread
  by_contra hlead
  have hlead' := Bool.eq_true_of_not_eq_false hlead
  cases rest with
  | nil =>
    rw [ExFat.utf16ToWchar, if_pos hlead'] at hread
    cases hread
  | cons v rest =>
    by_cases htrail : isTrail v = true
    · rw [utf16ToWchar_pair hlead' htrail, Option.some.injEq, Prod.mk.injEq] at hread
      omega
    · rw [ExFat.utf16ToWchar, if_pos hlead', if_neg htrail] at hread
      cases hread

/-- Characters are written out where there is room for them. -/
theorem utf16ToUtf8Loop_unitString {wcs : List Nat} {post : List Nat} (h : ∀ wc ∈ wcs, Scalar wc)
    (hpost : Terminated post) (fuel room : Nat) (hfuel : wcs.length ≤ fuel)
    (hroom : (spelling wcs).length < room) :
    utf16ToUtf8Loop fuel (unitString wcs ++ post) room = .ok (spelling wcs) := by
  -- On the characters; each takes its bytes of the room.
  induction wcs generalizing fuel room with
  | nil => exact utf16ToUtf8Loop_terminated hpost fuel (Nat.zero_lt_of_lt hroom)
  | cons wc wcs ih =>
    have hs := h wc List.mem_cons_self
    rw [spelling_cons, List.length_append] at hroom
    obtain ⟨fuel, rfl⟩ : ∃ f, fuel = f + 1 := ⟨fuel - 1, by rw [List.length_cons] at hfuel; omega⟩
    have hrest := ih (fun x hx => h x (List.mem_cons_of_mem _ hx)) fuel
      (room - (charBytes wc).length)
      (by simpa using hfuel) (by omega)
    have hread := hs.utf16ToWchar (unitString wcs ++ post)
    have hpos := hs.pos
    rw [unitString_cons, List.append_assoc]
    -- a character has at least one unit, so the list is not empty
    cases hunits : wcharToUtf16 wc ++ (unitString wcs ++ post) with
    | nil =>
      have := length_wcharToUtf16_pos wc
      rw [List.append_eq_nil_iff] at hunits
      rw [hunits.1] at this
      exact absurd this (lt_irrefl 0)
    | cons u us =>
      rw [hunits] at hread
      rw [utf16ToUtf8Loop, hread]
      dsimp only
      rw [hs.wcharToUtf8]
      dsimp only
      rw [if_neg (by omega), if_neg (by omega), hrest, spelling_cons]
      rfl

/-- What has been written out is the spelling of the characters of the units. -/
theorem exists_spelling_of_utf16ToUtf8Loop {us post : List Nat} {fuel room : Nat} {out : List UInt8}
    (hunit : ∀ x ∈ us, 0 < x ∧ x < 2 ^ 16) (hpost : Terminated post) (hfuel : us.length ≤ fuel)
    (h : utf16ToUtf8Loop fuel (us ++ post) room = .ok out) :
    ∃ wcs, (∀ wc ∈ wcs, Scalar wc) ∧ us = unitString wcs ∧ out = spelling wcs ∧
      out.length < room := by
  -- By strong induction on the number of units: a pair takes two of them.
  induction hn : us.length using Nat.strong_induction_on generalizing us fuel room out with
  | _ n ih =>
    cases us with
    | nil =>
      -- even the empty spelling needs room for its end
      by_cases hroom : 0 < room
      · rw [List.nil_append, utf16ToUtf8Loop_terminated hpost fuel hroom] at h
        cases h
        exact ⟨[], fun _ hwc => (List.not_mem_nil hwc).elim, rfl, rfl, hroom⟩
      · obtain rfl : room = 0 := by omega
        exfalso
        obtain rfl | ⟨junk, rfl⟩ := hpost
        · cases fuel <;> cases h
        · cases fuel with
          | zero => cases h
          | succ fuel =>
            rw [List.nil_append, utf16ToUtf8Loop, utf16ToWchar_single isLead_zero] at h
            cases h
    | cons u us =>
      obtain ⟨fuel, rfl⟩ : ∃ f, fuel = f + 1 := ⟨fuel - 1, by rw [List.length_cons] at hfuel; omega⟩
      by_cases hhead : isLead u = true → isTrail (us.headD 0) = true
      · obtain ⟨wc, rest, ht⟩ := exists_takenChar hunit hhead
        have hs := ht.scalar
        have hlen := ht.length
        have hunits := length_wcharToUtf16_pos wc
        by_cases hroom : (charBytes wc).length ≤ room
        · rw [ht.loop hs.wcharToUtf8 post fuel hroom] at h
          cases hrest : utf16ToUtf8Loop fuel (rest ++ post) (room - (charBytes wc).length) with
          | error e =>
            rw [hrest] at h
            cases h
          | ok out' =>
            rw [hrest] at h
            cases h
            obtain ⟨wcs, hall, hunits', hspell, hshort⟩ :=
              ih rest.length (by omega) (ht.unit hunit) (by omega) hrest rfl
            refine ⟨wc :: wcs, ?_, ?_, ?_, ?_⟩
            · intro x hx
              rcases List.mem_cons.1 hx with rfl | hx
              · exact hs
              · exact hall x hx
            · rw [ht.units, unitString_cons, ← hunits']
            · rw [spelling_cons, ← hspell]
            · rw [List.length_append]
              omega
        · -- the character itself does not fit
          have hread := ht.read post
          rw [List.cons_append] at h hread
          rw [utf16ToUtf8Loop, hread] at h
          dsimp only at h
          rw [hs.wcharToUtf8] at h
          dsimp only at h
          rw [if_pos (by omega)] at h
          cases h
      -- a leading unit without the other one ends the loop with `EILSEQ`
      · obtain ⟨hlead, htrail⟩ := Classical.not_imp.mp hhead
        have hnone : ExFat.utf16ToWchar (u :: (us ++ post)) = none := by
          refine utf16ToWchar_unpaired hlead ?_
          cases us with
          | nil =>
            obtain rfl | ⟨junk, rfl⟩ := hpost
            · rfl
            · exact isTrail_zero
          | cons v us => exact Bool.eq_false_of_not_eq_true htrail
        rw [List.cons_append, utf16ToUtf8Loop, hnone] at h
        cases h

/-- The same of an array. -/
theorem exists_spelling_of_exfatUtf16ToUtf8 {us : List Nat} {room : Nat} {out : List UInt8}
    (hunit : ∀ x ∈ us, x < 2 ^ 16) (h : exfatUtf16ToUtf8 us room = .ok out) :
    ∃ wcs, (∀ wc ∈ wcs, Scalar wc) ∧ nameString us = unitString wcs ∧ out = spelling wcs ∧
      out.length < room := by
  obtain ⟨post, hus, hpost⟩ := exists_nameString_append us
  have hlen : (nameString us).length ≤ us.length := (List.takeWhile_prefix _).length_le
  refine exists_spelling_of_utf16ToUtf8Loop
    (fun x hx => ⟨nameString_pos hx, hunit x (mem_of_mem_nameString hx)⟩) hpost hlen ?_
  rw [← hus]
  exact h

/-- A spelling is read back, if its units fit. -/
theorem utf8ToUtf16Loop_spelling {wcs : List Nat} (h : ∀ wc ∈ wcs, Scalar wc) (fuel room : Nat)
    (hfuel : (spelling wcs).length ≤ fuel) :
    utf8ToUtf16Loop fuel (spelling wcs) room =
      if (unitString wcs).length < room then .ok (unitString wcs) else .error .enametoolong := by
  -- On the characters.  The end of the name needs one unit of room more.
  induction wcs generalizing fuel room with
  | nil =>
    have hnil : utf8ToUtf16Loop fuel [] room = if room =
        0 then .error .enametoolong else .ok [] := by
      cases fuel <;> rfl
    show utf8ToUtf16Loop fuel [] room = if 0 < room then .ok [] else .error .enametoolong
    rw [hnil]
    by_cases hroom : room = 0
    · rw [if_pos hroom, if_neg (by omega)]
    · rw [if_neg hroom, if_pos (by omega)]
  | cons wc wcs ih =>
    have hs := h wc List.mem_cons_self
    have hpos := hs.pos
    rw [spelling_cons, List.length_append, length_charBytes] at hfuel
    obtain ⟨fuel, rfl⟩ : ∃ f, fuel = f + 1 := ⟨fuel - 1, by omega⟩
    have hread := utf8ToWchar_wcharToUtf8 hs.wcharToUtf8 (spelling wcs)
    have hrest := ih (fun x hx => h x (List.mem_cons_of_mem _ hx)) fuel
      (room - (wcharToUtf16 wc).length) (by omega)
    rw [charBytes, List.cons_append] at hread
    rw [spelling_cons, charBytes, List.cons_append, utf8ToUtf16Loop, hread]
    dsimp only
    rw [unitString_cons, List.length_append, hrest]
    by_cases hroom : room < (wcharToUtf16 wc).length
    · rw [if_pos hroom, if_neg (by omega)]
    · rw [if_neg hroom, if_neg (by omega)]
      by_cases hfit : (unitString wcs).length < room - (wcharToUtf16 wc).length
      · rw [if_pos hfit, if_pos (by omega)]
        rfl
      · rw [if_neg hfit, if_neg (by omega)]
        rfl

end ExFat
