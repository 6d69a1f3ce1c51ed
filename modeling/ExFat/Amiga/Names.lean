import ExFat.Fs.Lookup
import Mathlib.Data.List.DropRight

namespace ExFat

/-!
# Names and paths on the Amiga side

AmigaDOS names are strings of 8-bit characters with a length byte; libexfat takes paths in UTF-8.
`amigaos.c` converts the characters, `handler.c` turns a name relative to a lock into an absolute
path.  A C string is the list of its bytes up to the terminator.
-/

variable {δ : Type}

/-! ### Characters -/

/-- A BSTR: the characters behind the length byte. -/
structure Bstr where
  chars : List UInt8
  short : chars.length < 256
  deriving DecidableEq

/-- The part of a buffer before its terminator. -/
def cString (buffer : List UInt8) : List UInt8 := buffer.takeWhile (· != 0)

/-- `EXFAT_AMIGA_SUBST`. -/
def amigaSubst : UInt8 := 0x3f

/-- The six bits of a continuation byte, taken without a test; 0 behind the end of the string. -/
def contBits (s : List UInt8) (i : Nat) : Nat := (s.getD i 0).toNat &&& 0x3f

/-- `utf8_next`: the character at the start of a non-empty string, and what follows it. -/
def utf8Next (s : List UInt8) : Nat × List UInt8 :=
  let c := (s.getD 0 0).toNat
  -- ASCII
  if c < 0x80 then (c, s.drop 1)
  else if c &&& 0xe0 = 0xc0 then (((c &&& 0x1f) <<< 6) ||| contBits s 1, s.drop 2)
  else if c &&& 0xf0 = 0xe0 then
    (((c &&& 0x0f) <<< 12) ||| (contBits s 1 <<< 6) ||| contBits s 2, s.drop 3)
  else if c &&& 0xf8 = 0xf0 then
    (((c &&& 0x07) <<< 18) ||| (contBits s 1 <<< 12) ||| (contBits s 2 <<< 6) ||| contBits s 3,
      s.drop 4)
  -- any other byte is replaced by one character
  else (amigaSubst.toNat, s.drop 1)

/-- `exfat_amiga_name_to_bstr`: the characters of the BSTR; `maxlen` are left to be written. -/
def exfatAmigaNameToBstr : (maxlen : Nat) → (utf8 : List UInt8) → List UInt8
  | 0, _ => []
  | _ + 1, [] => []
  | maxlen + 1, b :: bs =>
    let (c, rest) := utf8Next (b :: bs)
    (if c < 0x100 then UInt8.ofNat c else amigaSubst) :: exfatAmigaNameToBstr maxlen rest

/-- The bytes `exfat_amiga_bstr_to_utf8` writes for one character. -/
def latinBytes (c : UInt8) : List UInt8 :=
  if c < 0x80 then [c] else [(0xc0 : UInt8) ||| (c >>> 6), (0x80 : UInt8) ||| (c &&& 0x3f)]

/-- The loop of `exfat_amiga_bstr_to_utf8`: `n` bytes have been written. -/
def latinLoop (maxlen : Nat) : (n : Nat) → List UInt8 → List UInt8
  | _, [] => []
  | n, c :: cs =>
    if n < maxlen - 3 then latinBytes c ++ latinLoop maxlen (n + (latinBytes c).length) cs else []

/-- `exfat_amiga_bstr_to_utf8`, as a C string. -/
def exfatAmigaBstrToUtf8 (bstr : Bstr) (maxlen : Nat) : List UInt8 :=
  cString (latinLoop maxlen 0 bstr.chars)

/-! ### The name of a node -/

/-- The loop of `name_is_sane` over the units that are left. -/
def unitsSane : List Nat → Bool
  | [] => true
  -- in the last place a lead surrogate has no trail
  | [u] => u == 0 || !isLead u && !isTrail u
  | u :: v :: rest =>
    -- nothing behind the zero is looked at
    if u = 0 then true
    else if isLead u then isTrail v && unitsSane rest
    else !isTrail u && unitsSane (v :: rest)

/-- `name_is_sane`. -/
def nameIsSane (n : Node) : Bool := unitsSane (nameUnits n.name)

/-- `"<bad name>"`. -/
def badName : List UInt8 := [0x3c, 0x62, 0x61, 0x64, 0x20, 0x6e, 0x61, 0x6d, 0x65, 0x3e]

/-- `safe_get_name`. -/
def safeGetName (n : Node) : EfM δ (List UInt8) :=
  if nameIsSane n then exfatGetName n else pure badName

/-! ### Paths -/

/-- `MAX_PATH_UTF8`. -/
def maxPathUtf8 : Nat := 1024

/-- The byte `':'`. -/
def colon : UInt8 := 0x3a

/-- The loop of `node_abs_path` that climbs from `i` to the root, `depth` being left of the array
`chain`: the nodes on the way, the topmost first, or `none` if the array has been filled. -/
def nodeChain : (depth : Nat) → (i : NodeId) → (above : List NodeId) →
    TreeM δ (Option (List NodeId))
  | 0, _, _ => pure none
  | depth + 1, i, above => do
    let t ← get
    if i = t.root then pure (some above)
    else do
      let n ← getNode i
      match n.parent with
      -- a node without a parent that is not the root
      | none => pure (if depth = 0 then none else some (i :: above))
      | some p => nodeChain depth p (i :: above)

/-- The loop of `node_abs_path` that writes the names; `abs` is what has been written. -/
def appendNames (size : Nat) (abs : List UInt8) : List NodeId → TreeM δ (Option (List UInt8))
  | [] => pure (some abs)
  | i :: is => do
    let n ← getNode i
    let name ← onVolume (safeGetName n)
    -- the path would be too long
    if abs.length + name.length + 2 > size then pure none
    else appendNames size (abs ++ name ++ if is.isEmpty then [] else [slash]) is

/-- `node_abs_path`. -/
def nodeAbsPath (i : NodeId) (size : Nat) : TreeM δ (Option (List UInt8)) := do
  match ← nodeChain 64 i [] with
  | none => pure none
  | some chain => appendNames size [slash] chain

/-- One level up: `resolve_path` cuts the last component and the slash before it. -/
def climb (abs : List UInt8) : List UInt8 := (abs.rdropWhile (· != slash)).dropLast

/-- The loop of `resolve_path`; a path has no more components than bytes. -/
def resolveLoop : (fuel : Nat) → (abs p : List UInt8) → Option (List UInt8)
  | _, abs, [] => some abs
  | 0, abs, _ :: _ => some abs
  | fuel + 1, abs, c :: p =>
    -- a slash where a component could begin leads to the parent
    if c = slash then resolveLoop fuel (climb abs) p
    else
      let comp := (c :: p).takeWhile (· != slash)
      let rest := (c :: p).dropWhile (· != slash)
      -- the component and two bytes more have to fit
      if abs.length + comp.length + 2 > maxPathUtf8 then none
      -- the slash behind the component only separates
      else resolveLoop fuel (abs ++ slash :: comp) (rest.drop 1)

/-- The path to start from: without its trailing slash, and empty for the root. -/
def trimSlash (abs : List UInt8) : List UInt8 :=
  let abs := if abs.length > 1 ∧ abs.getLast? = some slash then abs.dropLast else abs
  if abs.length = 1 then [] else abs

/-- `resolve_path`; `base` is the node of the lock. -/
def resolvePath (base : Option NodeId) (bpath : Bstr) : TreeM δ (Option (List UInt8)) := do
  let rel := exfatAmigaBstrToUtf8 bpath maxPathUtf8
  -- a leading colon means the root, whatever the lock
  let base := if rel.head? = some colon then none else base
  let p := if colon ∈ rel then (rel.dropWhile (· != colon)).drop 1 else rel
  let start ← match base with
    | none => pure (some [slash])
    | some i => nodeAbsPath i maxPathUtf8
  match start with
  | none => pure none
  | some abs =>
    match resolveLoop p.length (trimSlash abs) p with
    | none => pure none
    | some abs => pure (some (if abs.isEmpty then [slash] else abs))

end ExFat
