import ExFat.Fs.Transcode

namespace ExFat

open Program

/-!
# What a path spells

`exfat_split` looks at the bytes of the last component and stores the text they decode to.  The two
are the same for plain bytes; a sequence of several bytes is tested byte by byte and stored as one
character.
-/

variable {δ : Type}

/-! ### Characters and the bytes they come from -/

/-- The units `is_allowed` means to keep out of a name: control characters and the characters it
lists.  Zero ends a name and is none of them. -/
def forbiddenUnit (u : Nat) : Bool :=
  (0x01 ≤ u && u ≤ 0x1f) || u == 0x2f || u == 0x5c || u == 0x3a || u == 0x2a || u == 0x3f ||
    u == 0x22 || u == 0x3c || u == 0x3e || u == 0x7c

/-- A byte of ASCII is forbidden as a byte and as a unit. -/
theorem forbiddenUnit_toNat (b : UInt8) : forbiddenUnit b.toNat = forbiddenByte b := by
  have h : ∀ n < 256, forbiddenUnit (UInt8.ofNat n).toNat = forbiddenByte (UInt8.ofNat n) := by
    decide +kernel
  have hb := h b.toNat b.toNat_lt
  rwa [UInt8.ofNat_toNat] at hb

/-- The forbidden units are in ASCII. -/
theorem forbiddenUnit_bounds {u : Nat} (h : forbiddenUnit u = true) : 0 < u ∧ u < 0x80 := by
  unfold forbiddenUnit at h
  simp only [Bool.or_eq_true, Bool.and_eq_true, decide_eq_true_eq, beq_iff_eq] at h
  omega

/-- The characters of a string, each with the number of bytes it takes, up to a zero or to bytes
that are no character. -/
def utf8Chars : (fuel : Nat) → List UInt8 → List (Nat × Nat)
  | 0, _ => []
  | _ + 1, [] => []
  | fuel + 1, b :: bs =>
    match utf8ToWchar (b :: bs) with
    | none => []
    | some (wc, rest) =>
      (bs.length + 1 - rest.length, wc) :: if wc = 0 then [] else utf8Chars fuel rest

/-- The units of a character other than zero. -/
theorem wcharToUtf16_pos {wc u : Nat} (hwc : wc ≠ 0) (hu : u ∈ wcharToUtf16 wc) : 0 < u := by
  by_cases hle : wc ≤ 0xffff
  · rw [wcharToUtf16, if_pos hle, List.mem_singleton] at hu
    omega
  · rw [wcharToUtf16_pair hle] at hu
    simp only [List.mem_cons, List.not_mem_nil, or_false] at hu
    omega

/-- A forbidden unit is a character of its own. -/
theorem eq_of_forbiddenUnit {wc u : Nat} (hu : u ∈ wcharToUtf16 wc) (h : forbiddenUnit u = true) :
    wc = u := by
  have := (forbiddenUnit_bounds h).2
  by_cases hle : wc ≤ 0xffff
  · rw [wcharToUtf16, if_pos hle, List.mem_singleton] at hu
    exact hu.symm
  · rw [wcharToUtf16_pair hle] at hu
    simp only [List.mem_cons, List.not_mem_nil, or_false] at hu
    omega

/-- A forbidden unit is its own character. -/
theorem mem_wcharToUtf16 {u : Nat} (h : forbiddenUnit u = true) : u ∈ wcharToUtf16 u := by
  have := (forbiddenUnit_bounds h).2
  rw [wcharToUtf16, if_pos (by omega)]
  exact List.mem_singleton_self u

/-- The units `exfat_utf8_to_utf16` writes are those of the characters it reads. -/
theorem mem_nameString_utf8ToUtf16Loop (fuel : Nat) {comp : List UInt8} {room : Nat}
    {name : List Nat} (h : utf8ToUtf16Loop fuel comp room = .ok name) (u : Nat) :
    u ∈ nameString name ↔ ∃ c ∈ utf8Chars fuel comp, c.2 ≠ 0 ∧ u ∈ wcharToUtf16 c.2 := by
  -- On the fuel; each step reads one character.
  induction fuel generalizing comp room name with
  | zero =>
    rw [utf8ToUtf16Loop] at h
    split at h
    · cases h
    · cases h
      simp [nameString, utf8Chars]
  | succ fuel ih =>
    cases comp with
    | nil =>
      rw [utf8ToUtf16Loop] at h
      split at h
      · cases h
      · cases h
        simp [nameString, utf8Chars]
    | cons b bs =>
      rw [utf8ToUtf16Loop] at h
      rw [utf8Chars]
      cases hread : utf8ToWchar (b :: bs) with
      -- the bytes are no character, so there is no name
      | none =>
        rw [hread] at h
        cases h
      | some r =>
        obtain ⟨wc, rest⟩ := r
        rw [hread] at h
        dsimp only at h ⊢
        -- the units of the character do not fit
        split at h
        · cases h
        · split at h
          -- a zero ends the name
          next hzero =>
            subst hzero
            split at h
            · cases h
            · cases h
              simp [nameString]
          -- the character in front, and those behind it
          next hzero =>
            rw [if_neg hzero]
            cases hloop : utf8ToUtf16Loop fuel rest (room - (wcharToUtf16 wc).length) with
            | error e =>
              rw [hloop] at h
              cases h
            | ok tail =>
              rw [hloop] at h
              cases h
              have hpos : ∀ x ∈ wcharToUtf16 wc, decide (x ≠ 0) = true := by
                intro x hx
                have := wcharToUtf16_pos hzero hx
                simp only [decide_eq_true_eq]
                omega
              have happ : nameString (wcharToUtf16 wc ++ tail) =
                  wcharToUtf16 wc ++ nameString tail :=
                List.takeWhile_append_of_pos hpos
              rw [happ, List.mem_append, ih hloop]
              simp [hzero]

/-- A tail of the string is left after a character. -/
theorem utf8Tail_suffix (n wc : Nat) (bytes : List UInt8) {r : Nat × List UInt8}
    (h : utf8Tail n wc bytes = some r) : bytes.length = n + r.2.length ∧ r.2 <:+ bytes := by
  induction n generalizing wc bytes with
  | zero =>
    rw [utf8Tail] at h
    cases h
    exact ⟨(Nat.zero_add _).symm, List.suffix_rfl⟩
  | succ n ih =>
    cases bytes with
    | nil => cases h
    | cons b bytes =>
      rw [utf8Tail] at h
      split at h
      · cases h
      · obtain ⟨hlen, hsuf⟩ := ih _ _ h
        refine ⟨?_, hsuf.trans (List.suffix_cons b bytes)⟩
        rw [List.length_cons, hlen]
        omega

/-- A character that takes one byte is this byte. -/
theorem utf8ToWchar_single {b : UInt8} {bs rest : List UInt8} {wc : Nat}
    (h : utf8ToWchar (b :: bs) = some (wc, rest)) (hlen : bs.length + 1 - rest.length ≤ 1) :
    wc = b.toNat := by
  rw [utf8ToWchar] at h
  unfold utf8Lead at h
  split_ifs at h
  · dsimp only at h
    rw [utf8Tail] at h
    cases h
    rfl
  all_goals dsimp only at h
  all_goals have hs := (utf8Tail_suffix _ _ _ h).1
  all_goals dsimp only at hs
  all_goals omega

/-- What is left of a text is the end of it. -/
theorem utf8ToWchar_suffix {b : UInt8} {bs rest : List UInt8} {wc : Nat}
    (h : utf8ToWchar (b :: bs) = some (wc, rest)) : rest <:+ bs := by
  rw [utf8ToWchar] at h
  split at h
  · cases h
  · exact (utf8Tail_suffix _ _ _ h).2

/-- The characters that take one byte are among the bytes of the string. -/
theorem mem_of_mem_utf8Chars (fuel : Nat) {comp : List UInt8} {n wc : Nat}
    (h : (n, wc) ∈ utf8Chars fuel comp) (hn : n ≤ 1) : ∃ b ∈ comp, wc = b.toNat := by
  induction fuel generalizing comp with
  | zero => cases h
  | succ fuel ih =>
    cases comp with
    | nil => cases h
    | cons b bs =>
      rw [utf8Chars] at h
      cases hread : utf8ToWchar (b :: bs) with
      | none =>
        rw [hread] at h
        cases h
      | some r =>
        obtain ⟨c, rest⟩ := r
        rw [hread] at h
        rw [List.mem_cons] at h
        obtain h | h := h
        · cases h
          exact ⟨b, List.mem_cons_self, utf8ToWchar_single hread hn⟩
        · split at h
          · cases h
          · obtain ⟨x, hx, rfl⟩ := ih h
            exact ⟨x, List.mem_cons_of_mem b ((utf8ToWchar_suffix hread).subset hx), rfl⟩

/-! ### The last component -/

/-- The last component of a path; a path has no more components than bytes. -/
def lastComponent : (fuel : Nat) → (path : List UInt8) → List UInt8
  | 0, _ => []
  | fuel + 1, path =>
    if isLastComp (getComp path).2 then (getComp path).1 else lastComponent fuel (getComp path).2

/-- Several bytes of the string stand for a character that is not allowed in a name. -/
def hidesForbidden (comp : List UInt8) : Bool :=
  (utf8Chars comp.length comp).any fun c => 1 < c.1 && forbiddenUnit c.2

/-- The name made of bytes that are allowed has a forbidden unit only where several bytes hide it.
-/
theorem clean_iff {comp : List UInt8} {name : List Nat} {room : Nat}
    (hallowed : isAllowed comp = true) (hname : exfatUtf8ToUtf16 comp room = .ok name) :
    (∀ u ∈ nameString name, forbiddenUnit u = false) ↔ hidesForbidden comp = false := by
  have hmem := mem_nameString_utf8ToUtf16Loop comp.length hname
  unfold hidesForbidden
  rw [List.any_eq_false]
  constructor
  · intro h c hc hbad
    rw [Bool.and_eq_true] at hbad
    have hu : c.2 ∈ nameString name := by
      have := (forbiddenUnit_bounds hbad.2).1
      exact (hmem c.2).mpr ⟨c, hc, by omega, mem_wcharToUtf16 hbad.2⟩
    rw [h _ hu] at hbad
    exact Bool.false_ne_true hbad.2
  -- the other direction: a forbidden unit comes from the character with that code
  · intro h u hu
    by_contra hbad
    rw [Bool.not_eq_false] at hbad
    obtain ⟨c, hc, -, hcu⟩ := (hmem u).mp hu
    have hwc : c.2 = u := eq_of_forbiddenUnit hcu hbad
    by_cases hn : c.1 ≤ 1
    · -- a byte of its own, which `is_allowed` has seen
      obtain ⟨b, hb, hwb⟩ := mem_of_mem_utf8Chars comp.length hc hn
      unfold isAllowed at hallowed
      rw [Bool.not_eq_true', List.any_eq_false] at hallowed
      refine hallowed b hb ?_
      rw [← forbiddenUnit_toNat, ← hwb, hwc]
      exact hbad
    -- several bytes stand for a unit that one byte would have spelled
    · refine h c hc ?_
      rw [Bool.and_eq_true, decide_eq_true_eq, hwc]
      exact ⟨by omega, hbad⟩

section Device

variable [Device δ]

/-- The name that is returned is allowed and is that of the last component. -/
theorem splitLast_name {parent : NodeId} {comp : List UInt8} {s : Split} {t t' : Volume δ}
    (h : splitLast parent comp t = .ok (.ok s) t') :
    isAllowed comp = true ∧ exfatUtf8ToUtf16 comp (nameMax + 1) = .ok s.name := by
  have hfail : ∀ (e : Errno) {t₁ : Volume δ}, (do
      exfatPutNode parent
      pure (.error e : Except Errno Split)) t₁ ≠ .ok (.ok s) t' := by
    intro e t₁ h
    obtain ⟨_, _, -, h⟩ := run_bind_eq_ok.mp h
    cases h
  rw [splitLast] at h
  split at h
  · exact absurd h (hfail _)
  next hallowed =>
  refine ⟨by simpa using hallowed, ?_⟩
  cases hname : exfatUtf8ToUtf16 comp (nameMax + 1) with
  | error e =>
    rw [hname] at h
    exact absurd h (hfail e)
  | ok name =>
    rw [hname] at h
    obtain ⟨r, t₁, -, h⟩ := run_bind_eq_ok.mp h
    split at h
    · cases h
      rfl
    · cases h
      rfl
    · exact absurd h (hfail _)

/-- A path without a component ends the loop of `exfat_split` in `exfat_bug`. -/
theorem splitPath_empty {fuel : Nat} {parent : NodeId} {path : List UInt8} {t t' : Volume δ}
    {r : Except Errno Split} (hlast : isLastComp path = true) :
    splitPath fuel parent path t ≠ .ok r t' := by
  cases fuel with
  | zero => exact nofun
  | succ fuel =>
    rw [splitPath]
    dsimp only
    rw [if_pos (by exact hlast)]
    exact nofun

/-- `exfat_split` returns the name that the last component decodes to. -/
theorem splitPath_name (fuel : Nat) {parent : NodeId} {path : List UInt8} {s : Split}
    {t t' : Volume δ} (h : splitPath fuel parent path t = .ok (.ok s) t') :
    isAllowed (lastComponent fuel path) = true ∧
      exfatUtf8ToUtf16 (lastComponent fuel path) (nameMax + 1) = .ok s.name := by
  -- On the components; both functions skip a dot in the same way.
  induction fuel generalizing parent path t with
  | zero => cases h
  | succ fuel ih =>
    rw [splitPath] at h
    dsimp only at h
    split at h
    · cases h
    split at h
    next hdot =>
      by_cases hlast : isLastComp (getComp path).2 = true
      · exact absurd h (splitPath_empty hlast)
      · rw [lastComponent, if_neg hlast]
        exact ih h
    next hdot =>
    split at h
    next hlast =>
      rw [lastComponent, if_pos hlast]
      exact splitLast_name h
    next hlast =>
      rw [lastComponent, if_neg hlast]
      obtain ⟨r, t₁, -, h⟩ := run_bind_eq_ok.mp h
      cases r with
      | error e =>
        obtain ⟨_, _, -, h⟩ := run_bind_eq_ok.mp h
        cases h
      | ok i =>
        obtain ⟨_, t₂, -, h⟩ := run_bind_eq_ok.mp h
        exact ih h

/-- The name that is returned is allowed and is that of the last component. -/
theorem exfatSplit_name {path : List UInt8} {s : Split} {t t' : Volume δ}
    (h : exfatSplit path t = .ok (.ok s) t') :
    isAllowed (lastComponent path.length path) = true ∧
      exfatUtf8ToUtf16 (lastComponent path.length path) (nameMax + 1) = .ok s.name := by
  rw [exfatSplit] at h
  obtain ⟨_, _, -, h⟩ := run_bind_eq_ok.mp h
  obtain ⟨_, _, -, h⟩ := run_bind_eq_ok.mp h
  exact splitPath_name path.length h

/-- A name that `exfat_split` returns is free of forbidden characters exactly if no character of the
last component hides one of them behind several bytes. -/
theorem exfatSplit_clean_iff {path : List UInt8} {s : Split} {t t' : Volume δ}
    (h : exfatSplit path t = .ok (.ok s) t') :
    (∀ u ∈ nameString s.name, forbiddenUnit u = false) ↔
      hidesForbidden (lastComponent path.length path) = false := by
  obtain ⟨hallowed, hname⟩ := exfatSplit_name h
  exact clean_iff hallowed hname

end Device

/-- A volume whose root directory has been read and holds nothing. -/
def emptyRoot : Volume Flat where
  ef := { dev := ⟨fun _ => 0, 0⟩, sb := ⟨[]⟩, upcase := some id }
  heap i := if i = 0 then some { attrib := 0x10, isCached := true } else none
  root := 0
  fresh := 1

/-- `"/a"`. -/
theorem exfatSplit_clean_iff_plain :
    ∃ s t', exfatSplit [slash, 0x61] emptyRoot = .ok (.ok s) t' ∧
      ((∀ u ∈ nameString s.name, forbiddenUnit u = false) ↔
        hidesForbidden (lastComponent [slash, 0x61].length [slash, 0x61]) = false) := by
  have hrun : valueOf (exfatSplit [slash, 0x61] emptyRoot) = some (.ok ⟨0, none, [0x61]⟩) := by
    decide
  exact ⟨_, _, eq_of_valueOf hrun, exfatSplit_clean_iff (eq_of_valueOf hrun)⟩

/-- `"/"` and the slash in two bytes: the name that comes back is a slash. -/
theorem exfatSplit_not_clean :
    ∃ s t', exfatSplit [slash, 0xc0, 0xaf] emptyRoot = .ok (.ok s) t' ∧
      ¬ ∀ u ∈ nameString s.name, forbiddenUnit u = false := by
  have hrun : valueOf (exfatSplit [slash, 0xc0, 0xaf] emptyRoot) = some
      (.ok ⟨0, none, [0x2f]⟩) := by
    decide
  exact ⟨_, _, eq_of_valueOf hrun, by decide⟩

end ExFat
