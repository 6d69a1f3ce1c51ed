import ExFat.Amiga.Names
import ExFat.Fs.Characters

namespace ExFat

open Bytes

/-!
# The 8-bit character set

AmigaDOS has 256 characters, the first ones of Unicode.  A string of them is encoded by the rules of
UTF-8, and the decoder of `amigaos.c` reads what those of `utf.c` read of up to four bytes.
-/

/-! ### Decoding -/

/-- A continuation byte: what the loop of `utf8_to_wchar` takes in when it goes on. -/
theorem utf8Tail_succ_eq_some {n wc : Nat} {bs : List UInt8} {r : Nat × List UInt8}
    (h : utf8Tail (n + 1) wc bs = some r) :
    ∃ rest, bs = bs.getD 0 0 :: rest ∧ utf8Tail n (wc ||| (contBits bs 0 <<< (n * 6))) rest =
      some r := by
  cases bs with
  | nil => cases h
  | cons b rest =>
    rw [utf8Tail] at h
    by_cases hcont : b.toNat &&& 0xc0 ≠ 0x80
    · rw [if_pos hcont] at h
      cases h
    · rw [if_neg hcont] at h
      exact ⟨rest, rfl, h⟩

/-- The bits of the continuation bytes behind the first byte. -/
theorem contBits_cons (b : UInt8) (bs : List UInt8) (i : Nat) :
    contBits (b :: bs) (i + 1) = contBits bs i := rfl

/-- The tests of `utf8_next` and of `utf8_to_wchar` on a first byte. -/
theorem leadTest (b : UInt8) : (b.toNat < 0x80 ↔ b.toNat &&& 0x80 = 0) := by
  have hall : ∀ n < 256, (n < 0x80 ↔ n &&& 0x80 = 0) := by decide +kernel
  exact hall _ b.toNat_lt

/-- `utf8_next` agrees with `utf8_to_wchar` on characters of up to four bytes. -/
theorem utf8Next_eq {b : UInt8} {bs rest : List UInt8} {wc : Nat}
    (h : utf8ToWchar (b :: bs) = some (wc, rest)) (hlen : bs.length < rest.length + 4) :
    utf8Next (b :: bs) = (wc, rest) := by
  rw [utf8ToWchar] at h
  have htest := leadTest b
  unfold utf8Next
  simp only [List.getD_cons_zero]
  unfold utf8Lead at h
  -- The first byte says how many follow it; each case compares the bits that are taken.
  by_cases h1 : b.toNat &&& 0x80 = 0
  · rw [if_pos h1] at h
    rw [if_pos (htest.2 h1)]
    exact Option.some.inj h
  rw [if_neg h1] at h
  rw [if_neg fun hlt => h1 (htest.1 hlt)]
  by_cases h2 : b.toNat &&& 0xe0 = 0xc0
  · rw [if_pos h2] at h
    rw [if_pos h2]
    obtain ⟨r₁, e₁, h⟩ := utf8Tail_succ_eq_some h
    rw [e₁, contBits_cons]
    rw [Nat.zero_mul, Nat.shiftLeft_zero] at h
    rw [e₁] at h
    exact Option.some.inj h
  rw [if_neg h2] at h ⊢
  by_cases h3 : b.toNat &&& 0xf0 = 0xe0
  · rw [if_pos h3] at h
    rw [if_pos h3]
    obtain ⟨r₁, e₁, h⟩ := utf8Tail_succ_eq_some h
    obtain ⟨r₂, e₂, h⟩ := utf8Tail_succ_eq_some h
    rw [e₁, e₂] at h ⊢
    simpa [contBits, utf8Tail] using h
  rw [if_neg h3] at h ⊢
  by_cases h4 : b.toNat &&& 0xf8 = 0xf0
  · rw [if_pos h4] at h
    rw [if_pos h4]
    obtain ⟨r₁, e₁, h⟩ := utf8Tail_succ_eq_some h
    obtain ⟨r₂, e₂, h⟩ := utf8Tail_succ_eq_some h
    obtain ⟨r₃, e₃, h⟩ := utf8Tail_succ_eq_some h
    rw [e₁, e₂, e₃] at h ⊢
    simpa [contBits, utf8Tail] using h
  rw [if_neg h4] at h
  -- five or six bytes
  exfalso
  -- they would leave less behind than the hypothesis allows
  have hmore : ∀ {n v : Nat}, 4 ≤ n → utf8Tail n v bs = some (wc, rest) → False := by
    intro n v hn ht
    have := (utf8Tail_suffix n v bs ht).1
    dsimp only at this
    omega
  by_cases h5 : b.toNat &&& 0xfc = 0xf8
  · rw [if_pos h5] at h
    exact hmore le_rfl h
  rw [if_neg h5] at h
  by_cases h6 : b.toNat &&& 0xfe = 0xfc
  · rw [if_pos h6] at h
    exact hmore (by decide : 4 ≤ 6 - 1) h
  rw [if_neg h6] at h
  cases h

/-- `utf8_next` reads a character that UTF-16 can hold. -/
theorem Scalar.utf8Next {wc : Nat} (h : Scalar wc) (rest : List UInt8) :
    utf8Next (charBytes wc ++ rest) = (wc, rest) := by
  have hread := utf8ToWchar_wcharToUtf8 h.wcharToUtf8 rest
  have hle := h.le
  have hshort : tailLength wc < 4 := by
    unfold tailLength
    split_ifs
    all_goals omega
  rw [charBytes, List.cons_append] at hread ⊢
  refine utf8Next_eq hread ?_
  rw [List.length_append, length_tailBytes]
  omega

/-- The character AmigaDOS shows for one of Unicode. -/
def latinChar (wc : Nat) : UInt8 := if wc < 0x100 then UInt8.ofNat wc else amigaSubst

/-- `exfat_amiga_name_to_bstr` on the spelling of characters. -/
theorem exfatAmigaNameToBstr_spelling {wcs : List Nat} (h : ∀ wc ∈ wcs, Scalar wc) (maxlen : Nat) :
    exfatAmigaNameToBstr maxlen (spelling wcs) = (wcs.take maxlen).map latinChar := by
  induction wcs generalizing maxlen with
  | nil => cases maxlen <;> rfl
  | cons wc wcs ih =>
    cases maxlen with
    | zero => rfl
    | succ maxlen =>
      have hnext := (h wc List.mem_cons_self).utf8Next (spelling wcs)
      rw [charBytes, List.cons_append] at hnext
      rw [spelling_cons, charBytes, List.cons_append, exfatAmigaNameToBstr, hnext]
      dsimp only
      rw [ih (fun x hx => h x (List.mem_cons_of_mem _ hx)), List.take_succ_cons,
        List.map_cons, latinChar]

/-! ### Encoding -/

/-- A character of ISO-8859-1 is a Unicode character. -/
theorem scalar_of_latin {c : UInt8} (h : c ≠ 0) : Scalar c.toNat := by
  have hlt := c.toNat_lt
  refine ⟨Nat.pos_of_ne_zero fun hzero => h (UInt8.toNat_inj.1 hzero), by omega, fun _ => ?_⟩
  rw [Bool.eq_false_iff, Ne, isLead_iff]
  omega

/-- One character is encoded as UTF-8 would have it. -/
theorem latinBytes_eq (c : UInt8) : latinBytes c = charBytes c.toNat := by
  have hall : ∀ n < 256, latinBytes (UInt8.ofNat n) = charBytes (UInt8.ofNat n).toNat := by
    decide +kernel
  have hc := hall c.toNat c.toNat_lt
  rwa [UInt8.ofNat_toNat] at hc

/-- A character of ISO-8859-1 is shown as itself. -/
theorem latinChar_toNat (c : UInt8) : latinChar c.toNat = c := by
  unfold latinChar
  rw [if_pos c.toNat_lt, UInt8.ofNat_toNat]

/-- A character of ISO-8859-1 takes at most two bytes of UTF-8. -/
theorem length_latinBytes_le (c : UInt8) : (latinBytes c).length ≤ 2 := by
  unfold latinBytes
  split_ifs
  · exact Nat.le_succ 1
  · exact le_rfl

/-- The characters of a text in ISO-8859-1 are Unicode characters. -/
theorem scalar_latin {cs : List UInt8} (h : (0 : UInt8) ∉ cs) :
    ∀ wc ∈ cs.map UInt8.toNat, Scalar wc := by
  intro wc hwc
  obtain ⟨c, hc, rfl⟩ := List.mem_map.1 hwc
  exact scalar_of_latin fun hc0 => h (hc0 ▸ hc)

/-- A text in ISO-8859-1 at most doubles its length in UTF-8. -/
theorem length_spelling_latin_le (cs : List UInt8) :
    (spelling (cs.map UInt8.toNat)).length ≤ 2 * cs.length := by
  induction cs with
  | nil => exact le_rfl
  | cons c cs ih =>
    have := length_latinBytes_le c
    rw [List.map_cons, spelling_cons, List.length_append, ← latinBytes_eq, List.length_cons]
    omega

/-- `exfat_amiga_bstr_to_utf8` stops after a number of characters that fill the buffer. -/
theorem latinLoop_eq (maxlen n : Nat) (cs : List UInt8) :
    ∃ k, latinLoop maxlen n cs = spelling ((cs.take k).map UInt8.toNat) ∧
      (k = cs.length ∨ k < cs.length ∧ maxlen - 3 ≤ n + 2 * k) := by
  induction cs generalizing n with
  | nil => exact ⟨0, rfl, .inl rfl⟩
  | cons c cs ih =>
    by_cases hroom : n < maxlen - 3
    · obtain ⟨k, hk, hstop⟩ := ih (n + (latinBytes c).length)
      have hle := length_latinBytes_le c
      refine ⟨k + 1, ?_, ?_⟩
      · rw [latinLoop, if_pos hroom, hk, List.take_succ_cons, List.map_cons,
          spelling_cons, latinBytes_eq]
      · rw [List.length_cons]
        omega
    · refine ⟨0, ?_, .inr ⟨Nat.succ_pos _, by omega⟩⟩
      rw [latinLoop, if_neg hroom]
      rfl

/-- A string without a zero is its own C string. -/
theorem cString_of_notMem {s : List UInt8} (h : (0 : UInt8) ∉ s) : cString s = s := by
  refine List.takeWhile_eq_self_iff.2 fun b hb => ?_
  rw [bne_iff_ne]
  rintro rfl
  exact h hb

/-- The units of 8-bit characters are the characters. -/
theorem unitString_latin (cs : List UInt8) :
    unitString (cs.map UInt8.toNat) = cs.map UInt8.toNat := by
  induction cs with
  | nil => rfl
  | cons c cs ih =>
    have hlt := c.toNat_lt
    rw [List.map_cons, unitString_cons, ih, wcharToUtf16, if_pos (by omega)]
    rfl

end ExFat
