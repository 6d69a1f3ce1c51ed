import ExFat.Amiga.Names

namespace ExFat

/-!
# The transcoders of `utf.c` against each other

A name is stored in UTF-16 and listed in UTF-8.  Whatever is written out of well-paired units is
read back as the same units, in the room the callers provide; units that are not well paired cannot
be written out at all.  The decoder on the other hand reads more than the encoder writes.
-/

/-! ### Surrogates -/

/-- The upper six bits of a unit. -/
theorem and_fc00 (u : Nat) : u &&& 0xfc00 = u / 1024 % 64 * 1024 := by
  have h : u &&& 0xfc00 = ((u >>> 10) &&& (2 ^ 6 - 1)) <<< 10 := by
    apply Nat.eq_of_testBit_eq
    intro i
    rw [show 0xfc00 = (2 ^ 6 - 1) <<< 10 by rfl]
    simp only [Nat.testBit_and, Nat.testBit_shiftLeft, Nat.testBit_shiftRight]
    by_cases hi : 10 ≤ i
    · simp [hi]
    · simp [hi]
  rw [h, Nat.and_two_pow_sub_one_eq_mod, Nat.shiftLeft_eq, Nat.shiftRight_eq_div_pow]

/-- The leading units of a pair begin with the bits of 0xd800. -/
theorem isLead_iff (u : Nat) : isLead u = true ↔ u / 1024 % 64 = 54 := by
  unfold isLead
  rw [and_fc00, beq_iff_eq]
  omega

/-- The trailing units of a pair begin with the bits of 0xdc00. -/
theorem isTrail_iff (u : Nat) : isTrail u = true ↔ u / 1024 % 64 = 55 := by
  unfold isTrail
  rw [and_fc00, beq_iff_eq]
  omega

/-- The end of a name is not a leading unit. -/
theorem isLead_zero : isLead 0 = false := rfl

/-- The end of a name is not a trailing unit. -/
theorem isTrail_zero : isTrail 0 = false := rfl

/-- A trailing unit is not a leading one. -/
theorem not_isLead_of_isTrail {u : Nat} (h : isTrail u = true) : isLead u = false := by
  rw [isTrail_iff] at h
  rw [Bool.eq_false_iff, Ne, isLead_iff]
  omega

/-- Every lead surrogate is followed by a trail surrogate. -/
def paired : List Nat → Bool
  | [] => true
  | u :: us => (!isLead u || isTrail (us.headD 0)) && paired us

/-- The units behind the first one are paired too. -/
theorem paired_cons {u : Nat} {us : List Nat} :
    paired (u :: us) = true ↔ (isLead u = true → isTrail (us.headD 0) = true) ∧
    paired us = true := by
  rw [paired, Bool.and_eq_true, Bool.or_eq_true, Bool.not_eq_true']
  cases isLead u <;> simp

/-! ### One character -/

/-- The `n` bytes that follow the first one of a character. -/
def tailBytes (wc : Nat) : Nat → List UInt8
  | 0 => []
  | n + 1 => UInt8.ofNat (0x80 ||| ((wc >>> (n * 6)) &&& 0x3f)) :: tailBytes wc n

/-- There are as many continuation bytes as asked for. -/
theorem length_tailBytes (wc n : Nat) : (tailBytes wc n).length = n := by
  induction n with
  | zero => rfl
  | succ n ih => rw [tailBytes, List.length_cons, ih]

/-- The first byte of a character that takes `n + 1` bytes. -/
def leadByte (wc : Nat) : Nat → UInt8
  | 0 => UInt8.ofNat wc
  | 1 => UInt8.ofNat (0xc0 ||| (wc >>> 6))
  | 2 => UInt8.ofNat (0xe0 ||| (wc >>> 12))
  | 3 => UInt8.ofNat (0xf0 ||| (wc >>> 18))
  | 4 => UInt8.ofNat (0xf8 ||| (wc >>> 24))
  | _ => UInt8.ofNat (0xfc ||| (wc >>> 30))

/-- How many bytes follow the first one. -/
def tailLength (wc : Nat) : Nat :=
  if wc ≤ 0x7f then 0 else if wc ≤ 0x7ff then 1 else if wc ≤ 0xffff then 2
  else if wc ≤ 0x1fffff then 3 else if wc ≤ 0x3ffffff then 4 else 5

/-- `wchar_to_utf8` writes the first byte and the continuation bytes. -/
theorem wcharToUtf8_eq {wc : Nat} (h : wc ≤ 0x7fffffff) :
    wcharToUtf8 wc = some (leadByte wc (tailLength wc) :: tailBytes wc (tailLength wc)) := by
  unfold wcharToUtf8 tailLength
  simp only [h, if_true]
  split_ifs <;> rfl

/-- The bits of a continuation byte come back. -/
theorem tailByte_bits : ∀ x < 64, (UInt8.ofNat (0x80 ||| x)).toNat &&& 0xc0 = 0x80 ∧
    (UInt8.ofNat (0x80 ||| x)).toNat &&& 0x3f = x := by
  decide

/-- The first byte of a character of one byte. -/
theorem utf8Lead_one : ∀ x < 0x80, utf8Lead (UInt8.ofNat x).toNat = some (1, x) := by decide

/-- The first byte of a character of two bytes. -/
theorem utf8Lead_two :
    ∀ x < 0x20, utf8Lead (UInt8.ofNat (0xc0 ||| x)).toNat = some (2, x <<< 6) := by
  decide

/-- The first byte of a character of three bytes. -/
theorem utf8Lead_three :
    ∀ x < 0x10, utf8Lead (UInt8.ofNat (0xe0 ||| x)).toNat = some (3, x <<< 12) := by
  decide

/-- The first byte of a character of four bytes. -/
theorem utf8Lead_four :
    ∀ x < 0x8, utf8Lead (UInt8.ofNat (0xf0 ||| x)).toNat = some (4, x <<< 18) := by
  decide

/-- The first byte of a character of five bytes. -/
theorem utf8Lead_five :
    ∀ x < 0x4, utf8Lead (UInt8.ofNat (0xf8 ||| x)).toNat = some (5, x <<< 24) := by
  decide

/-- The first byte of a character of six bytes. -/
theorem utf8Lead_six :
    ∀ x < 0x2, utf8Lead (UInt8.ofNat (0xfc ||| x)).toNat = some (6, x <<< 30) := by
  decide

/-- The first byte tells the length and carries the high bits. -/
theorem utf8Lead_leadByte {wc : Nat} (h : wc ≤ 0x7fffffff) :
    utf8Lead (leadByte wc (tailLength wc)).toNat =
      some (tailLength wc + 1, (wc >>> (tailLength wc * 6)) <<< (tailLength wc * 6)) := by
  unfold tailLength
  simp only [leadByte, Nat.shiftRight_eq_div_pow]
  split_ifs
  · simpa using utf8Lead_one wc (by omega)
  · exact utf8Lead_two _ (by omega)
  · exact utf8Lead_three _ (by omega)
  · exact utf8Lead_four _ (by omega)
  · exact utf8Lead_five _ (by omega)
  · exact utf8Lead_six _ (by omega)

/-- Six more bits below those that are there. -/
theorem shift_or_bits (wc k : Nat) :
    ((wc >>> (k + 6)) <<< (k + 6)) ||| (((wc >>> k) &&& 0x3f) <<< k) = (wc >>> k) <<< k := by
  apply Nat.eq_of_testBit_eq
  intro i
  rw [show 0x3f = 2 ^ 6 - 1 by rfl]
  simp only [Nat.testBit_or, Nat.testBit_and, Nat.testBit_shiftLeft, Nat.testBit_shiftRight,
    Nat.testBit_two_pow_sub_one]
  by_cases hk : k ≤ i
  · by_cases hk6 : k + 6 ≤ i
    · have hlow : ¬ i - k < 6 := by omega
      simp [hk, hk6, hlow]
    · have hlow : i - k < 6 := by omega
      simp [hk, hk6, hlow]
  · have hk6 : ¬ k + 6 ≤ i := by omega
    simp [hk, hk6]

/-- The loop of `utf8_to_wchar` puts the low bits below the high ones. -/
theorem utf8Tail_tailBytes (wc n : Nat) (rest : List UInt8) :
    utf8Tail n ((wc >>> (n * 6)) <<< (n * 6)) (tailBytes wc n ++ rest) = some (wc, rest) := by
  induction n with
  | zero => simp [utf8Tail, tailBytes]
  | succ n ih =>
    have hlt : (wc >>> (n * 6)) &&& 0x3f < 64 := Nat.and_lt_two_pow _ (n := 6) (by decide)
    obtain ⟨htop, hbits⟩ := tailByte_bits _ hlt
    rw [tailBytes, List.cons_append, utf8Tail, if_neg (not_not.mpr htop), hbits,
      show (n + 1) * 6 = n * 6 + 6 by omega, shift_or_bits, ih]

/-- `utf8_to_wchar` reads the character that `wchar_to_utf8` has written. -/
theorem utf8ToWchar_wcharToUtf8 {wc : Nat} {bytes : List UInt8} (h : wcharToUtf8 wc = some bytes)
    (rest : List UInt8) : utf8ToWchar (bytes ++ rest) = some (wc, rest) := by
  have hle : wc ≤ 0x7fffffff := by
    by_contra hlt
    have hnone : wcharToUtf8 wc = none := by
      unfold wcharToUtf8
      simp only
      rw [if_neg (by omega), if_neg (by omega), if_neg (by omega),
        if_neg (by omega), if_neg (by omega),
        if_neg hlt]
    rw [hnone] at h
    cases h
  rw [wcharToUtf8_eq hle] at h
  cases h
  rw [List.cons_append, utf8ToWchar, utf8Lead_leadByte hle]
  exact utf8Tail_tailBytes wc (tailLength wc) rest

/-- A character has one byte more than it has continuation bytes. -/
theorem length_wcharToUtf8 {wc : Nat} {bytes : List UInt8} (h : wcharToUtf8 wc = some bytes)
    (hle : wc ≤ 0x7fffffff) : bytes.length = tailLength wc + 1 := by
  rw [wcharToUtf8_eq hle] at h
  cases h
  rw [List.length_cons, length_tailBytes]

/-- Continuation bytes have the top bit set. -/
theorem tailByte_top : ∀ x < 64, 0x80 ≤ UInt8.ofNat (0x80 ||| x) := by decide

/-- The bytes after the first have the top bit. -/
theorem le_of_mem_tailBytes {wc n : Nat} {b : UInt8} (h : b ∈ tailBytes wc n) : 0x80 ≤ b := by
  induction n with
  | zero => exact (List.not_mem_nil h).elim
  | succ n ih =>
    rw [tailBytes, List.mem_cons] at h
    rcases h with rfl | h
    · exact tailByte_top _ (Nat.and_lt_two_pow _ (n := 6) (by decide))
    · exact ih h

/-- Only the character zero has a zero among its bytes. -/
theorem zero_notMem_wcharToUtf8 {wc : Nat} {bytes : List UInt8} (h : wcharToUtf8 wc = some bytes)
    (hle : wc ≤ 0x7fffffff) (hpos : 0 < wc) : (0 : UInt8) ∉ bytes := by
  rw [wcharToUtf8_eq hle] at h
  cases h
  rw [List.mem_cons, not_or]
  refine ⟨fun h => ?_, fun h => absurd (le_of_mem_tailBytes h) (by decide)⟩
  have hlead := utf8Lead_leadByte hle
  rw [← h, show utf8Lead (0 : UInt8).toNat = some (1, 0) by decide, Option.some.injEq,
    Prod.mk.injEq] at hlead
  obtain ⟨hlen, hbits⟩ := hlead
  have hzero : tailLength wc = 0 := by omega
  rw [hzero] at hbits
  simp at hbits
  omega

/-! ### The units of a character -/

/-- The upper ten bits go into the leading unit. -/
theorem or_d800 {x : Nat} (hx : x < 1024) : 0xd800 ||| x = 0xd800 + x :=
  (Nat.two_pow_add_eq_or_of_lt (i := 10) hx 54).symm

/-- The lower ten bits go into the trailing unit. -/
theorem or_dc00 {x : Nat} (hx : x < 1024) : 0xdc00 ||| x = 0xdc00 + x :=
  (Nat.two_pow_add_eq_or_of_lt (i := 10) hx 55).symm

/-- The units `wchar_to_utf16` writes for a character beyond the first plane. -/
theorem wcharToUtf16_pair {wc : Nat} (h : ¬ wc ≤ 0xffff) :
    wcharToUtf16 wc =
      [0xd800 + (wc - 0x10000) / 1024 % 1024, 0xdc00 + (wc - 0x10000) % 1024] := by
  unfold wcharToUtf16
  rw [if_neg h, show 0x3ff = 2 ^ 10 - 1 by rfl, Nat.and_two_pow_sub_one_eq_mod,
    Nat.and_two_pow_sub_one_eq_mod, Nat.shiftRight_eq_div_pow,
    or_d800 (Nat.mod_lt _ (by decide)), or_dc00 (Nat.mod_lt _ (by decide))]

/-- `utf16_to_wchar` on a surrogate pair. -/
theorem utf16ToWchar_pair {u v : Nat} (hu : isLead u = true) (hv : isTrail v = true)
    (rest : List Nat) :
    utf16ToWchar (u :: v :: rest) = some (u % 1024 * 1024 + v % 1024 + 0x10000, rest) := by
  have hor := Nat.two_pow_add_eq_or_of_lt (i := 10)
    (Nat.mod_lt v (by decide : 0 < 2 ^ 10)) (u % 1024)
  rw [utf16ToWchar, if_pos hu, if_pos hv, show 0x3ff = 2 ^ 10 - 1 by rfl,
    Nat.and_two_pow_sub_one_eq_mod, Nat.and_two_pow_sub_one_eq_mod, Nat.shiftLeft_eq]
  rw [Nat.mul_comm, ← hor, Nat.mul_comm (2 ^ 10)]

/-- A unit that leads no pair is a character. -/
theorem utf16ToWchar_single {u : Nat} (hu : isLead u = false) (rest : List Nat) :
    utf16ToWchar (u :: rest) = some (u, rest) := by
  cases rest with
  | nil => rw [utf16ToWchar, if_neg (by rw [hu]; exact Bool.false_ne_true)]
  | cons v rest => rw [utf16ToWchar, if_neg (by rw [hu]; exact Bool.false_ne_true)]

/-- A leading unit without a trailing one is refused. -/
theorem utf16ToWchar_unpaired {u : Nat} {rest : List Nat} (hu : isLead u = true)
    (hv : isTrail (rest.headD 0) = false) : utf16ToWchar (u :: rest) = none := by
  cases rest with
  | nil => rw [utf16ToWchar, if_pos hu]
  | cons v rest =>
    rw [utf16ToWchar, if_pos hu,
      if_neg (by rw [List.headD_cons] at hv; rw [hv]; exact Bool.false_ne_true)]

/-- What `utf16_to_wchar` takes off the front of the units: a character whose units these are. -/
structure TakenChar (us : List Nat) (wc : Nat) (rest : List Nat) : Prop where
  units : us = wcharToUtf16 wc ++ rest
  pos : 0 < wc
  le : wc ≤ 0x10ffff
  room : tailLength wc + 1 ≤ 3 * (wcharToUtf16 wc).length
  paired : paired us = paired rest
  read : ∀ post, utf16ToWchar (us ++ post) = some (wc, rest ++ post)

/-- A character can be taken from the units unless a leading one has no other behind it. -/
theorem exists_takenChar {u : Nat} {us : List Nat} (hunit : ∀ x ∈ u :: us, 0 < x ∧ x < 2 ^ 16)
    (hhead : isLead u = true → isTrail (us.headD 0) = true) :
    ∃ wc rest, TakenChar (u :: us) wc rest := by
  have hu := hunit u List.mem_cons_self
  -- A leading unit forms a pair with the one behind it; any other stands for itself.
  by_cases hlead : isLead u = true
  · have htrail := hhead hlead
    cases us with
    | nil => exact absurd htrail (by decide)
    | cons v us =>
      rw [List.headD_cons] at htrail
      have hv := hunit v (List.mem_cons_of_mem _ List.mem_cons_self)
      have hu' := (isLead_iff u).mp hlead
      have hv' := (isTrail_iff v).mp htrail
      have hbig : ¬ u % 1024 * 1024 + v % 1024 + 0x10000 ≤ 0xffff := by omega
      refine ⟨u % 1024 * 1024 + v % 1024 + 0x10000, us, ?_, by omega, by
        omega, ?_, ?_, fun post => ?_⟩
      · rw [wcharToUtf16_pair hbig, Nat.add_sub_cancel]
        simp only [List.cons_append, List.nil_append, List.cons.injEq, and_true]
        omega
      · rw [wcharToUtf16_pair hbig]
        unfold tailLength
        split_ifs
        all_goals simp
      · have hnot := not_isLead_of_isTrail htrail
        simp [paired, hlead, htrail, hnot]
      · exact utf16ToWchar_pair hlead htrail (us ++ post)
  · have hlead' := Bool.eq_false_of_not_eq_true hlead
    have hsmall : u ≤ 0xffff := by omega
    have hunits : wcharToUtf16 u = [u] := by rw [wcharToUtf16, if_pos hsmall]
    refine ⟨u, us, ?_, hu.1, by omega, ?_, ?_, fun post => utf16ToWchar_single hlead' (us ++ post)⟩
    · rw [hunits, List.singleton_append]
    · rw [hunits]
      unfold tailLength
      split_ifs
      all_goals simp
    · simp [paired, hlead']

/-! ### Strings -/

/-- The units of a name, up to its terminator. -/
def nameString (name : List Nat) : List Nat := name.takeWhile (· ≠ 0)

/-- The units of a name are not zero. -/
theorem nameString_pos {name : List Nat} {x : Nat} (hx : x ∈ nameString name) : 0 < x := by
  have := List.mem_takeWhile_imp hx
  simp only [ne_eq, decide_eq_true_eq] at this
  omega

/-- A unit that is not zero belongs to the name. -/
theorem nameString_cons {x : Nat} (hx : x ≠ 0) (us : List Nat) :
    nameString (x :: us) = x :: nameString us :=
  List.takeWhile_cons_of_pos (by simpa using hx)

/-- The units of a name are units of the array. -/
theorem mem_of_mem_nameString {name : List Nat} {x : Nat} (hx : x ∈ nameString name) : x ∈ name :=
  (List.takeWhile_prefix _).subset hx

/-- The array behind the units of a name: nothing, or the terminator and whatever follows it. -/
def Terminated (post : List Nat) : Prop := post = [] ∨ ∃ junk, post = 0 :: junk

/-- An array is the name and what is behind its end. -/
theorem exists_nameString_append (us : List Nat) :
    ∃ post, us = nameString us ++ post ∧ Terminated post := by
  refine ⟨us.dropWhile (· ≠ 0), List.takeWhile_append_dropWhile.symm, ?_⟩
  cases h : us.dropWhile (· ≠ 0) with
  | nil => exact .inl rfl
  | cons x junk =>
    have hne : us.dropWhile (· ≠ 0) ≠ [] := by
      rw [h]
      exact List.cons_ne_nil _ _
    have hx := List.head_dropWhile_not (fun x : Nat => decide (x ≠ 0)) hne
    simp only [h, List.head_cons] at hx
    have hzero : x = 0 := by simpa using hx
    exact .inr ⟨junk, by rw [hzero]⟩

/-- The name in an array is what stands before its end. -/
theorem nameString_append {us post : List Nat} (hpos : ∀ x ∈ us, 0 < x) (hpost : Terminated post) :
    nameString (us ++ post) = us := by
  have hus : ∀ x ∈ us, decide (x ≠ 0) = true := by
    intro x hx
    have := hpos x hx
    simp only [decide_eq_true_eq]
    omega
  obtain rfl | ⟨junk, rfl⟩ := hpost
  · rw [List.append_nil]
    exact List.takeWhile_eq_self_iff.mpr hus
  · unfold nameString
    rw [List.takeWhile_append_of_pos hus, List.takeWhile_cons_of_neg (by decide), List.append_nil]

/-- The loop of `utf16_to_utf8` stops at the end of the name. -/
theorem utf16ToUtf8Loop_terminated {post : List Nat} (hpost : Terminated post) (fuel : Nat)
    {room : Nat} (hroom : 0 < room) : utf16ToUtf8Loop fuel post room = .ok [] := by
  have hne : room ≠ 0 := by omega
  obtain rfl | ⟨junk, rfl⟩ := hpost
  · cases fuel with
    | zero => rw [utf16ToUtf8Loop, if_neg hne]
    | succ fuel => rw [utf16ToUtf8Loop, if_neg hne]
  · cases fuel with
    | zero => rw [utf16ToUtf8Loop, if_neg hne]
    | succ fuel =>
      have hlen : ¬ room < [UInt8.ofNat 0].length := by
        rw [List.length_singleton]
        omega
      rw [utf16ToUtf8Loop, utf16ToWchar_single isLead_zero]
      show (if room < [UInt8.ofNat 0].length then _ else _) = _
      rw [if_neg hlen]
      rfl

/-- The string that `exfat_utf16_to_utf8` writes for well-paired units, and what becomes of it. -/
structure WrittenName (us : List Nat) (out : List UInt8) : Prop where
  length : out.length ≤ 3 * us.length
  string : (0 : UInt8) ∉ out
  read : ∀ fuel room, out.length ≤ fuel → us.length < room → utf8ToUtf16Loop fuel out room = .ok us

/-- An empty name is written as no bytes. -/
theorem WrittenName.nil : WrittenName [] [] := by
  refine ⟨le_rfl, List.not_mem_nil, fun fuel room _ hroom => ?_⟩
  have hne : room ≠ 0 := by
    rw [List.length_nil] at hroom
    omega
  cases fuel with
  | zero => rw [utf8ToUtf16Loop, if_neg hne]
  | succ fuel => rw [utf8ToUtf16Loop, if_neg hne]

/-- One character more in front. -/
theorem WrittenName.cons {us rest : List Nat} {wc : Nat} {bytes out : List UInt8}
    (ht : TakenChar us wc rest) (hb : wcharToUtf8 wc = some bytes) (h : WrittenName rest out) :
    WrittenName us (bytes ++ out) := by
  have hle : wc ≤ 0x7fffffff := ht.le.trans (by decide)
  have hlen : bytes.length = tailLength wc + 1 := length_wcharToUtf8 hb hle
  have hus : us.length = (wcharToUtf16 wc).length + rest.length := by
    rw [ht.units, List.length_append]
  refine ⟨?_, ?_, fun fuel room hfuel hroom => ?_⟩
  · have := ht.room
    have := h.length
    rw [List.length_append]
    omega
  · rw [List.mem_append, not_or]
    exact ⟨zero_notMem_wcharToUtf8 hb hle ht.pos, h.string⟩
  -- one more step reads the bytes of the character and writes its units
  · rw [List.length_append] at hfuel
    obtain ⟨fuel, rfl⟩ : ∃ f, fuel = f + 1 := ⟨fuel - 1, by omega⟩
    have hread := utf8ToWchar_wcharToUtf8 hb out
    have hrest : utf8ToUtf16Loop fuel out (room - (wcharToUtf16 wc).length) = .ok rest :=
      h.read _ _ (by omega) (by omega)
    have hroom' : ¬ room < (wcharToUtf16 wc).length := by omega
    have hpos : wc ≠ 0 := by
      have := ht.pos
      omega
    cases bytes with
    | nil => simp at hlen
    | cons b bs =>
      rw [List.cons_append] at hread ⊢
      rw [utf8ToUtf16Loop, hread]
      dsimp only
      rw [if_neg hroom', if_neg hpos, hrest, ht.units]
      rfl

/-- Taking a character takes its units. -/
theorem TakenChar.length {us rest : List Nat} {wc : Nat} (h : TakenChar us wc rest) :
    us.length = (wcharToUtf16 wc).length + rest.length := by
  rw [h.units, List.length_append]

/-- What is left has units of the same kind. -/
theorem TakenChar.unit {us rest : List Nat} {wc : Nat} (h : TakenChar us wc rest) {P : Nat → Prop}
    (hunit : ∀ x ∈ us, P x) : ∀ x ∈ rest, P x := by
  intro x hx
  refine hunit x ?_
  rw [h.units]
  exact List.mem_append_right _ hx

/-- One character in the loop of `exfat_utf16_to_utf8`. -/
theorem TakenChar.loop {us rest : List Nat} {wc : Nat} {bytes : List UInt8}
    (h : TakenChar us wc rest) (hb : wcharToUtf8 wc = some bytes) (post : List Nat) (fuel : Nat)
    {room : Nat} (hroom : bytes.length ≤ room) :
    utf16ToUtf8Loop (fuel + 1) (us ++ post) room =
      (utf16ToUtf8Loop fuel (rest ++ post) (room - bytes.length)).map (bytes ++ ·) := by
  have hread := h.read post
  have hpos := h.pos
  cases us with
  | nil =>
    have hunits := h.room
    have hlen := h.length
    rw [List.length_nil] at hlen
    omega
  | cons u us =>
    rw [List.cons_append] at hread ⊢
    rw [utf16ToUtf8Loop, hread]
    dsimp only
    rw [hb]
    dsimp only
    rw [if_neg (by omega), if_neg (by omega)]

/-- Well-paired units are written out, and what is written is read back as these units. -/
theorem utf16ToUtf8Loop_paired {us post : List Nat} (hunit : ∀ x ∈ us, 0 < x ∧ x < 2 ^ 16)
    (hpair : paired us = true) (hpost : Terminated post) (fuel room : Nat)
    (hfuel : us.length ≤ fuel) (hroom : 3 * us.length < room) :
    ∃ out, utf16ToUtf8Loop fuel (us ++ post) room = .ok out ∧ WrittenName us out := by
  induction hn : us.length using Nat.strong_induction_on generalizing us fuel room with
  | _ n ih =>
    cases us with
    | nil => exact ⟨[], utf16ToUtf8Loop_terminated hpost fuel (by omega), WrittenName.nil⟩
    | cons u us =>
      obtain ⟨wc, rest, ht⟩ := exists_takenChar hunit (paired_cons.mp hpair).1
      have hle : wc ≤ 0x7fffffff := ht.le.trans (by decide)
      obtain ⟨bytes, hb⟩ : ∃ bytes, wcharToUtf8 wc = some bytes := ⟨_, wcharToUtf8_eq hle⟩
      have hlen := length_wcharToUtf8 hb hle
      have hus := ht.length
      have hunits := ht.room
      obtain ⟨fuel, rfl⟩ : ∃ f, fuel = f + 1 := ⟨fuel - 1, by rw [List.length_cons] at hfuel; omega⟩
      obtain ⟨out, hout, hw⟩ := ih rest.length (by omega) (ht.unit hunit)
        (by rw [← ht.paired]; exact hpair) fuel (room - bytes.length) (by omega) (by omega) rfl
      refine ⟨bytes ++ out, ?_, hw.cons ht hb⟩
      rw [ht.loop hb post fuel (by omega), hout]
      rfl

/-- Units that are not well paired are refused. -/
theorem utf16ToUtf8Loop_unpaired {us post : List Nat} (hunit : ∀ x ∈ us, 0 < x ∧ x < 2 ^ 16)
    (hpair : paired us = false) (hpost : Terminated post) (fuel room : Nat)
    (hfuel : us.length ≤ fuel) (hroom : 3 * us.length < room) :
    utf16ToUtf8Loop fuel (us ++ post) room = .error .eilseq := by
  -- By strong induction: a character that can be taken may be two units.
  induction hn : us.length using Nat.strong_induction_on generalizing us fuel room with
  | _ n ih =>
    cases us with
    | nil => exact absurd hpair (by decide)
    | cons u us =>
      obtain ⟨fuel, rfl⟩ : ∃ f, fuel = f + 1 := ⟨fuel - 1, by rw [List.length_cons] at hfuel; omega⟩
      by_cases hhead : isLead u = true → isTrail (us.headD 0) = true
      -- the fault lies further behind
      · obtain ⟨wc, rest, ht⟩ := exists_takenChar hunit hhead
        have hle : wc ≤ 0x7fffffff := ht.le.trans (by decide)
        obtain ⟨bytes, hb⟩ : ∃ bytes, wcharToUtf8 wc = some bytes := ⟨_, wcharToUtf8_eq hle⟩
        have hlen := length_wcharToUtf8 hb hle
        have hus := ht.length
        have hunits := ht.room
        have hout := ih rest.length (by omega) (ht.unit hunit)
          (by rw [← ht.paired]; exact hpair) fuel (room - bytes.length) (by omega) (by omega) rfl
        rw [ht.loop hb post fuel (by omega), hout]
        rfl
      · -- the lead at the front has no trail behind it
        obtain ⟨hlead, htrail⟩ := Classical.not_imp.mp hhead
        have hnone : utf16ToWchar (u :: (us ++ post)) = none := by
          refine utf16ToWchar_unpaired hlead ?_
          cases us with
          | nil =>
            obtain rfl | ⟨junk, rfl⟩ := hpost
            · rfl
            · exact isTrail_zero
          | cons v us => exact Bool.eq_false_of_not_eq_true htrail
        rw [List.cons_append, utf16ToUtf8Loop, hnone]

/-- What `exfat_utf16_to_utf8` makes of an array whose string is well paired. -/
theorem exfatUtf16ToUtf8_paired {us : List Nat} {room : Nat}
    (hunit : ∀ x ∈ nameString us, x < 2 ^ 16) (hpair : paired (nameString us) = true)
    (hroom : 3 * (nameString us).length < room) :
    ∃ out, exfatUtf16ToUtf8 us room = .ok out ∧ WrittenName (nameString us) out := by
  obtain ⟨post, hus, hpost⟩ := exists_nameString_append us
  have hlen : (nameString us).length ≤ us.length := (List.takeWhile_prefix _).length_le
  have h := utf16ToUtf8Loop_paired (fun x hx => ⟨nameString_pos hx, hunit x hx⟩)
    hpair hpost _ _ hlen hroom
  rwa [← hus] at h

/-- An array whose string is not well paired is refused. -/
theorem exfatUtf16ToUtf8_unpaired {us : List Nat} {room : Nat}
    (hunit : ∀ x ∈ nameString us, x < 2 ^ 16) (hpair : paired (nameString us) = false)
    (hroom : 3 * (nameString us).length < room) : exfatUtf16ToUtf8 us room = .error .eilseq := by
  obtain ⟨post, hus, hpost⟩ := exists_nameString_append us
  have hlen : (nameString us).length ≤ us.length := (List.takeWhile_prefix _).length_le
  have h := utf16ToUtf8Loop_unpaired (fun x hx => ⟨nameString_pos hx, hunit x hx⟩)
    hpair hpost _ _ hlen hroom
  rwa [← hus] at h

/-! ### The name of a node -/

/-- The array for a name has 255 units. -/
theorem length_nameUnits (name : List Nat) : (nameUnits name).length = nameMax := by
  rw [nameUnits, List.length_append, List.length_take, List.length_replicate]
  omega

/-- Zeroes are the end of a name. -/
theorem terminated_replicate (k : Nat) : Terminated (List.replicate k 0) := by
  cases k with
  | zero => exact .inl rfl
  | succ k => exact .inr ⟨_, rfl⟩

/-- The array of a name that fits holds the name. -/
theorem nameString_nameUnits {name : List Nat} (h : (nameString name).length ≤ nameMax) :
    nameString (nameUnits name) = nameString name := by
  obtain ⟨post, hname, hpost⟩ := exists_nameString_append name
  have htake : name.take nameMax = nameString name ++ post.take
      (nameMax - (nameString name).length) := by
    conv_lhs => rw [hname]
    rw [List.take_append, List.take_of_length_le h]
  rw [nameUnits, htake, List.append_assoc]
  refine nameString_append (fun x hx => nameString_pos hx) ?_
  obtain rfl | ⟨junk, rfl⟩ := hpost
  · rw [List.take_nil, List.nil_append]
    exact terminated_replicate _
  · cases nameMax - (nameString name).length with
    | zero =>
      rw [List.take_zero, List.nil_append]
      exact terminated_replicate _
    | succ k => exact .inr ⟨_, by rw [List.take_succ_cons, List.cons_append]⟩

/-- A name in the array has at most 255 units. -/
theorem length_nameString_nameUnits (name : List Nat) :
    (nameString (nameUnits name)).length ≤ nameMax := by
  rw [← length_nameUnits name]
  exact (List.takeWhile_prefix _).length_le

/-- The array is padded with zeroes. -/
theorem mem_nameUnits {name : List Nat} {x : Nat} (hx : x ∈ nameUnits name) : x ∈ name ∨ x = 0 := by
  rw [nameUnits, List.mem_append] at hx
  exact hx.imp (fun h => List.mem_of_mem_take h) (fun h => List.eq_of_mem_replicate h)

/-- A name that is well paired is listed, within the buffer for it. -/
theorem nameUtf8_paired {name : List Nat} (hunit : ∀ x ∈ name, x < 2 ^ 16)
    (hpair : paired (nameString (nameUnits name)) = true) :
    ∃ out, nameUtf8 name = .ok out ∧ WrittenName (nameString (nameUnits name)) out := by
  have hlen := length_nameString_nameUnits name
  refine exfatUtf16ToUtf8_paired (fun x hx => ?_) hpair ?_
  · obtain hx | rfl := mem_nameUnits (mem_of_mem_nameString hx)
    · exact hunit x hx
    · decide
  · unfold utf8NameBufferMax
    omega

/-- A name that is not well paired is refused. -/
theorem nameUtf8_unpaired {name : List Nat} (hunit : ∀ x ∈ name, x < 2 ^ 16)
    (hpair : paired (nameString (nameUnits name)) = false) : nameUtf8 name = .error .eilseq := by
  have hlen := length_nameString_nameUnits name
  refine exfatUtf16ToUtf8_unpaired (fun x hx => ?_) hpair ?_
  · obtain hx | rfl := mem_nameUnits (mem_of_mem_nameString hx)
    · exact hunit x hx
    · decide
  · unfold utf8NameBufferMax
    omega

/-- A name matches its own units, whatever the upcase table. -/
theorem compareName_nameString (upcase : Nat → Nat) (name : List Nat) :
    compareName upcase (nameString name) name = true := by
  induction name with
  | nil => rfl
  | cons x name ih =>
    by_cases hx : x = 0
    · subst hx
      exact beq_self_eq_true (upcase 0)
    · rw [nameString_cons hx, compareName, if_pos ⟨hx, hx⟩, if_neg (fun h => h rfl)]
      exact ih

/-- `name_is_sane` asks for more than the pairs: no trail stands alone. -/
theorem paired_of_unitsSane (us : List Nat) (h : unitsSane us = true) :
    paired (nameString us) = true := by
  fun_induction unitsSane us with
  | case1 => rfl
  | case2 u =>
    by_cases hu : u = 0
    · subst hu
      rfl
    · have hlead : isLead u = false := by
        rw [Bool.or_eq_true, beq_iff_eq, Bool.and_eq_true, Bool.not_eq_true'] at h
        exact (h.resolve_left hu).1
      rw [nameString_cons hu, paired, hlead]
      rfl
  | case3 v rest => rfl
  | case4 u v rest hu hlead ih =>
    rw [Bool.and_eq_true] at h
    have hv : v ≠ 0 := by
      rintro rfl
      exact absurd h.1 (by decide)
    rw [nameString_cons hu, nameString_cons hv, paired_cons, paired_cons, List.headD_cons]
    have hnot := not_isLead_of_isTrail h.1
    exact ⟨fun _ => h.1, fun hl => absurd hl (by rw [hnot]; exact Bool.false_ne_true), ih h.2⟩
  | case5 u v rest hu hlead ih =>
    rw [Bool.and_eq_true] at h
    rw [nameString_cons hu, paired_cons]
    exact ⟨fun hl => absurd hl hlead, ih h.2⟩

variable {δ : Type}

/-- `exfat_get_name` returns the name in UTF-8. -/
theorem exfatGetName_eq {n : Node} {out : List UInt8} (h : nameUtf8 n.name = .ok out) (ef : Ef δ) :
    exfatGetName n ef = .ok out ef := by
  unfold exfatGetName
  rw [h]
  rfl

/-- A name of well-paired units is listed, and what is listed is read back as the same units; a name
that `name_is_sane` lets pass is always listed. -/
theorem exfatGetName_roundTrip (n : Node) (hunit : ∀ x ∈ n.name, x < 2 ^ 16) :
    ((nameString n.name).length ≤ nameMax → paired (nameString n.name) = true →
      ∃ out, (∀ ef : Ef δ, exfatGetName n ef = .ok out ef) ∧ out.length + 1 ≤ utf8NameBufferMax ∧
        0 ∉ out ∧ exfatUtf8ToUtf16 out (nameMax + 1) = .ok (nameString n.name) ∧
        ∀ upcase, compareName upcase (nameString n.name) n.name = true) ∧
    (nameIsSane n = true → ∀ ef : Ef δ, ∃ out, safeGetName n ef = .ok out ef) := by
  constructor
  · intro hlen hpair
    rw [← nameString_nameUnits hlen] at hpair
    obtain ⟨out, hout, hw⟩ := nameUtf8_paired hunit hpair
    rw [nameString_nameUnits hlen] at hw
    have hshort := hw.length
    refine ⟨out, exfatGetName_eq hout, ?_, hw.string, ?_, fun upcase =>
      compareName_nameString upcase n.name⟩
    · unfold utf8NameBufferMax
      omega
    · exact hw.read _ _ le_rfl (by omega)
  · intro hsane ef
    obtain ⟨out, hout, -⟩ := nameUtf8_paired hunit (paired_of_unitsSane _ hsane)
    refine ⟨out, ?_⟩
    unfold safeGetName
    rw [if_pos hsane]
    exact exfatGetName_eq hout ef

/-- `"a"`, `"é"`, a surrogate pair and a trail on its own. -/
def mixedName : Node := { name := [0x61, 0xe9, 0xd83d, 0xde00, 0xdc00] }

/-- `"é"` and a surrogate pair. -/
def saneName : Node := { name := [0xe9, 0xd83d, 0xde00] }

/-- A name with one-byte, two-byte and paired characters, and a name with an unpaired unit. -/
theorem exfatGetName_roundTrip_mixed :
    (∃ out, (∀ ef : Ef Flat, exfatGetName mixedName ef = .ok out ef) ∧
      out.length + 1 ≤ utf8NameBufferMax ∧ 0 ∉ out ∧
      exfatUtf8ToUtf16 out (nameMax + 1) = .ok (nameString mixedName.name) ∧
      ∀ upcase, compareName upcase (nameString mixedName.name) mixedName.name = true) ∧
    ∀ ef : Ef Flat, ∃ out, safeGetName saneName ef = .ok out ef :=
  ⟨(exfatGetName_roundTrip mixedName (by decide)).1 (by decide) (by decide),
    (exfatGetName_roundTrip saneName (by decide)).2 (by decide)⟩

end ExFat
