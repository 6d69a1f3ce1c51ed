import ExFat.Fs.Types

namespace ExFat

open Bytes

/-!
# `utf.c` and the sums of `utils.c`

Names are UTF-16 on disk and UTF-8 everywhere else.  The decoder takes what the bit patterns give
it: overlong sequences, encoded surrogates and numbers past the last character are all accepted.

A list stands for an array; the loops are recursions with a bound on their iterations, which is the
length of what is left of the input.
-/

/-! ### One character -/

/-- `wchar_to_utf8` without the test for room: the bytes of a character. -/
def wcharToUtf8 (wc : Nat) : Option (List UInt8) :=
  let tail (shift : Nat) : UInt8 := UInt8.ofNat (0x80 ||| ((wc >>> shift) &&& 0x3f))
  if wc ≤ 0x7f then some [UInt8.ofNat wc]
  else if wc ≤ 0x7ff then some [UInt8.ofNat (0xc0 ||| (wc >>> 6)), tail 0]
  else if wc ≤ 0xffff then some [UInt8.ofNat (0xe0 ||| (wc >>> 12)), tail 6, tail 0]
  else if wc ≤ 0x1fffff then some [UInt8.ofNat (0xf0 ||| (wc >>> 18)), tail 12, tail 6, tail 0]
  else if wc ≤ 0x3ffffff then
    some [UInt8.ofNat (0xf8 ||| (wc >>> 24)), tail 18, tail 12, tail 6, tail 0]
  else if wc ≤ 0x7fffffff then
    some [UInt8.ofNat (0xfc ||| (wc >>> 30)), tail 24, tail 18, tail 12, tail 6, tail 0]
  -- nothing above has a spelling
  else none

/-- `(unit & 0xfc00) == 0xd800`. -/
def isLead (unit : Nat) : Bool := unit &&& 0xfc00 == 0xd800

/-- `(unit & 0xfc00) == 0xdc00`. -/
def isTrail (unit : Nat) : Bool := unit &&& 0xfc00 == 0xdc00

/-- `utf16_to_wchar`: the character and the rest of the input, or `none` at an unpaired lead. -/
def utf16ToWchar : List Nat → Option (Nat × List Nat)
  | [] => none
  -- a lead surrogate at the end has no trail
  | [u] => if isLead u then none else some (u, [])
  | u :: v :: rest =>
    if isLead u then
      if isTrail v then some ((((u &&& 0x3ff) <<< 10) ||| (v &&& 0x3ff)) + 0x10000, rest) else none
    else some (u, v :: rest)

/-- The length of the sequence a first byte announces, and the bits it carries in their place. -/
def utf8Lead (b : Nat) : Option (Nat × Nat) :=
  if b &&& 0x80 = 0 then some (1, b)
  else if b &&& 0xe0 = 0xc0 then some (2, (b &&& 0x1f) <<< 6)
  else if b &&& 0xf0 = 0xe0 then some (3, (b &&& 0x0f) <<< 12)
  else if b &&& 0xf8 = 0xf0 then some (4, (b &&& 0x07) <<< 18)
  else if b &&& 0xfc = 0xf8 then some (5, (b &&& 0x03) <<< 24)
  else if b &&& 0xfe = 0xfc then some (6, (b &&& 0x01) <<< 30)
  else none

/-- The loop of `utf8_to_wchar` over the `n` bytes after the first. -/
def utf8Tail : (n wc : Nat) → List UInt8 → Option (Nat × List UInt8)
  | 0, wc, rest => some (wc, rest)
  | _ + 1, _, [] => none
  | n + 1, wc, b :: rest =>
    if b.toNat &&& 0xc0 ≠ 0x80 then none
    else utf8Tail n (wc ||| ((b.toNat &&& 0x3f) <<< (n * 6))) rest

/-- `utf8_to_wchar`: the character and the rest of the input. -/
def utf8ToWchar : List UInt8 → Option (Nat × List UInt8)
  | [] => none
  | b :: rest =>
    match utf8Lead b.toNat with
    | none => none
    | some (size, wc) => utf8Tail (size - 1) wc rest

/-- `wchar_to_utf16` without the test for room: the units of a character. -/
def wcharToUtf16 (wc : Nat) : List Nat :=
  if wc ≤ 0xffff then [wc]
  else
    [0xd800 ||| (((wc - 0x10000) >>> 10) &&& 0x3ff), 0xdc00 ||| ((wc - 0x10000) &&& 0x3ff)]

/-! ### Strings -/

/-- The loop of `exfat_utf16_to_utf8`; `room` is what is left of the output.  The result is the
string that was written, without its terminator. -/
def utf16ToUtf8Loop : (fuel : Nat) → List Nat → (room : Nat) → Except Errno (List UInt8)
  -- the terminating zero needs room as well
  | 0, _, room => if room = 0 then .error .enametoolong else .ok []
  | _ + 1, [], room => if room = 0 then .error .enametoolong else .ok []
  | fuel + 1, u :: us, room =>
    match utf16ToWchar (u :: us) with
    | none => .error .eilseq
    | some (wc, rest) =>
      match wcharToUtf8 wc with
      | none => .error .enametoolong
      | some bytes =>
        if room < bytes.length then .error .enametoolong
        -- the zero ends the string
        else if wc = 0 then .ok []
        else (utf16ToUtf8Loop fuel rest (room - bytes.length)).map (bytes ++ ·)

/-- `exfat_utf16_to_utf8`, for the input array `input`. -/
def exfatUtf16ToUtf8 (input : List Nat) (outsize : Nat) : Except Errno (List UInt8) :=
  utf16ToUtf8Loop input.length input outsize

/-- The bytes the loop of `exfat_utf16_to_utf8` has stored when it gives up. -/
def utf16ToUtf8Stored : (fuel : Nat) → List Nat → (room : Nat) → List UInt8
  | 0, _, _ => []
  | _ + 1, [], _ => []
  | fuel + 1, u :: us, room =>
    match utf16ToWchar (u :: us) with
    | none => []
    | some (wc, rest) =>
      match wcharToUtf8 wc with
      | none => []
      | some bytes =>
        -- what does not fit is not stored
        if room < bytes.length then []
        else bytes ++ utf16ToUtf8Stored fuel rest (room - bytes.length)

/-- The loop of `exfat_utf8_to_utf16`.  The result is the units written before the terminator; the
last of them is a zero if a character zero has ended the loop. -/
def utf8ToUtf16Loop : (fuel : Nat) → List UInt8 → (room : Nat) → Except Errno (List Nat)
  | 0, _, room => if room = 0 then .error .enametoolong else .ok []
  | _ + 1, [], room => if room = 0 then .error .enametoolong else .ok []
  | fuel + 1, b :: bs, room =>
    match utf8ToWchar (b :: bs) with
    | none => .error .eilseq
    | some (wc, rest) =>
      let units := wcharToUtf16 wc
      if room < units.length then .error .enametoolong
      -- the zero takes one place and the terminating zero another
      else if wc = 0 then if room = 1 then .error .enametoolong else .ok [0]
      else (utf8ToUtf16Loop fuel rest (room - units.length)).map (units ++ ·)

/-- `exfat_utf8_to_utf16`. -/
def exfatUtf8ToUtf16 (input : List UInt8) (outsize : Nat) : Except Errno (List Nat) :=
  utf8ToUtf16Loop input.length input outsize

/-- `exfat_utf16_length`: the units before the terminator. -/
def utf16Length (str : List Nat) : Nat := (str.takeWhile (· ≠ 0)).length

/-! ### Names -/

/-- The first `EXFAT_NAME_MAX` units of the array a name is stored in. -/
def nameUnits (name : List Nat) : List Nat :=
  name.take nameMax ++ List.replicate (nameMax - name.length) 0

/-- `exfat_get_name` converts a name. -/
def nameUtf8 (name : List Nat) : Except Errno (List UInt8) :=
  exfatUtf16ToUtf8 (nameUnits name) utf8NameBufferMax

/-! ### Sums -/

/-- `add_checksum_byte`. -/
def addChecksumByte (sum : Nat) (byte : UInt8) : Nat :=
  ((sum * 2 ^ 15 % 2 ^ 16 ||| sum / 2) + byte.toNat) % 2 ^ 16

/-- `exfat_start_checksum`, of the first entry of a set. -/
def exfatStartChecksum (entry : List UInt8) : Nat :=
  (List.range entrySize).foldl
    (fun sum i => if i ≠ 2 ∧ i ≠ 3 then addChecksumByte sum (entry.getD i 0) else sum) 0

/-- `exfat_add_checksum`. -/
def exfatAddChecksum (entry : List UInt8) (sum : Nat) : Nat := entry.foldl addChecksumByte sum

/-- `exfat_calc_checksum`, of a set of entries. -/
def exfatCalcChecksum : List (List UInt8) → Nat
  | [] => 0
  | entry :: entries => entries.foldl (fun sum e => exfatAddChecksum e sum)
    (exfatStartChecksum entry)

/-- One step of the sum over the boot region. -/
def addVbrByte (sum : Nat) (byte : UInt8) : Nat :=
  ((sum * 2 ^ 31 % 2 ^ 32 ||| sum / 2) + byte.toNat) % 2 ^ 32

/-- `exfat_vbr_start_checksum`: `volume_state` and `allocated_percent` are left out. -/
def exfatVbrStartChecksum (sector : List UInt8) : Nat :=
  (List.range sector.length).foldl
    (fun sum i =>
      if i ≠ 0x6a ∧ i ≠ 0x6b ∧ i ≠ 0x70 then addVbrByte sum (sector.getD i 0) else sum) 0

/-- `exfat_vbr_add_checksum`. -/
def exfatVbrAddChecksum (sector : List UInt8) (sum : Nat) : Nat := sector.foldl addVbrByte sum

/-- `exfat_calc_name_hash`. -/
def exfatCalcNameHash (upcase : Nat → Nat) (name : List Nat) : Nat :=
  name.foldl
    (fun hash u =>
      addChecksumByte (addChecksumByte hash (UInt8.ofNat (upcase u % 256)))
        (UInt8.ofNat (upcase u / 256))) 0

end ExFat
