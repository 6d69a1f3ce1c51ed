import ExFat.Fs.Characters
import ExFat.Session.Resolve
import Mathlib.Data.List.Flatten

namespace ExFat

open Program Bytes

/-!
# What has been named can be listed

A name comes in as UTF-8, is stored as UTF-16 and goes out as UTF-8 again.  The decoder on the way
in takes sequences that the encoder on the way out does not give back: surrogates on their own, and
characters that are spelled with more bytes than they need.

* `Listable` says which stored names come back as they are;
* `Volume.Reached.shown_after_naming` is about the name that `exfat_mknod`, `exfat_mkdir` or
  `exfat_rename` has given to a node.
-/

variable {δ : Type} {α β : Type} {D : Prop} {H : Set NodeId}

/-! ### Units -/

/-- The units of a character have 16 bits. -/
theorem mem_wcharToUtf16_lt {wc x : Nat} (hx : x ∈ wcharToUtf16 wc) : x < 2 ^ 16 := by
  unfold wcharToUtf16 at hx
  split at hx
  · rw [List.mem_singleton] at hx
    omega
  · have hlow : ∀ a b : Nat, a < 2 ^ 16 → b &&& 0x3ff < 2 ^ 16 := fun _ b _ =>
      Nat.lt_of_le_of_lt Nat.and_le_right (by decide)
    rcases List.mem_cons.1 hx with rfl | hx
    · exact Nat.or_lt_two_pow (by decide) (Nat.lt_of_le_of_lt Nat.and_le_right (by decide))
    · rw [List.mem_singleton] at hx
      subst hx
      exact Nat.or_lt_two_pow (by decide) (Nat.lt_of_le_of_lt Nat.and_le_right (by decide))

/-- What `exfat_utf8_to_utf16` writes are units, and leaves room for a terminator. -/
theorem utf8ToUtf16Loop_units (fuel : Nat) {comp : List UInt8} {room : Nat} {name : List Nat}
    (h : utf8ToUtf16Loop fuel comp room = .ok name) :
    (∀ x ∈ name, x < 2 ^ 16) ∧ name.length < room := by
  -- the end of the name needs one unit of room
  have hnil : ∀ {room : Nat} {name : List Nat},
      (if room = 0 then (.error .enametoolong : Except Errno _)
      else .ok []) = .ok name → (∀ x ∈ name, x < 2 ^ 16) ∧ name.length < room := by
    intro room name h
    split at h
    · cases h
    next hroom =>
      cases h
      exact ⟨fun _ hx => absurd hx List.not_mem_nil, Nat.pos_of_ne_zero hroom⟩
  -- On the fuel; each step reads one character.
  induction fuel generalizing comp room name with
  | zero => exact hnil h
  | succ fuel ih =>
    cases comp with
    | nil => exact hnil h
    | cons b bs =>
      unfold utf8ToUtf16Loop at h
      cases hread : utf8ToWchar (b :: bs) with
      | none =>
        rw [hread] at h
        cases h
      | some r =>
        obtain ⟨wc, rest⟩ := r
        rw [hread] at h
        dsimp only at h
        split at h
        · cases h
        next hroom =>
        -- a zero ends the name, and is written to it
        split at h
        · split at h
          · cases h
          next hone =>
            cases h
            refine ⟨fun x hx => ?_, ?_⟩
            · rw [List.mem_singleton.1 hx]
              decide
            · have hpos := length_wcharToUtf16_pos wc
              rw [List.length_singleton]
              omega
        -- the units of the character, and those of the rest
        · cases hrest : utf8ToUtf16Loop fuel rest (room - (wcharToUtf16 wc).length) with
          | error e =>
            rw [hrest] at h
            cases h
          | ok units =>
            rw [hrest] at h
            cases h
            obtain ⟨hunits, hlength⟩ := ih hrest
            refine ⟨fun x hx => ?_, ?_⟩
            · rcases List.mem_append.1 hx with hx | hx
              · exact mem_wcharToUtf16_lt hx
              · exact hunits x hx
            · rw [List.length_append]
              omega

/-- A name that fits into its array has at most 255 units. -/
theorem length_nameString_le {comp : List UInt8} {name : List Nat}
    (h : exfatUtf8ToUtf16 comp (nameMax + 1) = .ok name) : (nameString name).length ≤ nameMax :=
  (List.takeWhile_prefix _).length_le.trans (Nat.le_of_lt_succ (utf8ToUtf16Loop_units _ h).2)

/-- The name in an array is its first units. -/
theorem take_utf16Length (name : List Nat) : name.take (utf16Length name) = nameString name :=
  (List.prefix_iff_eq_take.1 (List.takeWhile_prefix _)).symm

/-- A name is its own name. -/
theorem nameString_nameString (name : List Nat) : nameString (nameString name) = nameString name :=
  List.takeWhile_idem

/-- What stands behind the terminator does not matter. -/
theorem compareName_nameString_left (u : Nat → Nat) (name other : List Nat) :
    compareName u (nameString name) other = compareName u name other := by
  induction name generalizing other with
  | nil => rfl
  | cons x xs ih =>
    by_cases hx : x = 0
    · subst hx
      cases other with
      | nil => exact (beq_self_eq_true (u 0)).symm
      | cons b bs =>
        show (u 0 == u b) = compareName u (0 :: xs) (b :: bs)
        rw [compareName, if_neg fun h => h.1 rfl]
    · rw [nameString_cons hx]
      cases other with
      | nil => rfl
      | cons b bs =>
        unfold compareName
        rw [ih]

/-- A name compares equal to itself. -/
theorem compareName_refl (u : Nat → Nat) (name : List Nat) : compareName u name name = true := by
  rw [← compareName_nameString_left]
  exact compareName_nameString u name

/-! ### Components of a spelling -/

/-- The stored name is listed and found under what is listed. -/
structure Listable (us : List Nat) : Prop where
  paired : paired us = true
  nonempty : us ≠ []
  notDot : us ≠ [0x2e]
  noSlash : 0x2f ∉ us

instance (us : List Nat) : Decidable (Listable us) :=
  decidable_of_iff (paired us = true ∧ us ≠ [] ∧ us ≠ [0x2e] ∧ 0x2f ∉ us)
    ⟨fun ⟨h₁, h₂, h₃, h₄⟩ => ⟨h₁, h₂, h₃, h₄⟩, fun h => ⟨h.paired, h.nonempty, h.notDot, h.noSlash⟩⟩

/-- Only the slash is spelled with one. -/
theorem slash_mem_charBytes {wc : Nat} (h : Scalar wc) : slash ∈ charBytes wc ↔ wc = 0x2f :=
  mem_charBytes_iff h.le_limit (by decide)

/-- Only the slash has its unit. -/
theorem mem_wcharToUtf16_slash {wc : Nat} : 0x2f ∈ wcharToUtf16 wc ↔ wc = 0x2f := by
  constructor
  · intro h
    exact eq_of_forbiddenUnit h (by decide)
  · rintro rfl
    decide

/-- A text has the unit of a slash when it has a slash. -/
theorem mem_unitString_slash {wcs : List Nat} : 0x2f ∈ unitString wcs ↔ 0x2f ∈ wcs := by
  unfold unitString
  simp only [List.mem_flatMap, mem_wcharToUtf16_slash, exists_eq_right]

/-- No character is spelled with a terminator. -/
theorem nameString_unitString {wcs : List Nat} (h : ∀ wc ∈ wcs, Scalar wc) :
    nameString (unitString wcs) = unitString wcs := by
  refine List.takeWhile_eq_self_iff.2 fun x hx => ?_
  obtain ⟨wc, hwc, hx⟩ := List.mem_flatMap.1 hx
  simpa using (wcharToUtf16_pos (h wc hwc).pos.ne' hx).ne'

/-- What stands before the first slash is the spelling of the characters before it. -/
theorem takeWhile_spelling {wcs : List Nat} (h : ∀ wc ∈ wcs, Scalar wc) :
    (spelling wcs).takeWhile (· != slash) = spelling (wcs.takeWhile (· != 0x2f)) ∧
      (spelling wcs).dropWhile (· != slash) = spelling (wcs.dropWhile (· != 0x2f)) := by
  induction wcs with
  | nil => exact ⟨rfl, rfl⟩
  | cons wc wcs ih =>
    obtain ⟨htake, hdrop⟩ := ih fun x hx => h x (List.mem_cons_of_mem _ hx)
    rw [spelling_cons]
    by_cases hwc : wc = 0x2f
    · subst hwc
      exact ⟨rfl, rfl⟩
    · have hall : ∀ b ∈ charBytes wc, (b != slash) = true := by
        intro b hb
        rw [bne_iff_ne]
        rintro rfl
        exact hwc ((slash_mem_charBytes (h wc List.mem_cons_self)).1 hb)
      have hne : (wc != 0x2f) = true := bne_iff_ne.2 hwc
      rw [List.takeWhile_append_of_pos hall, List.dropWhile_append_of_pos hall, htake, hdrop,
        List.takeWhile_cons, List.dropWhile_cons, if_pos hne, if_pos hne, spelling_cons]
      exact ⟨rfl, rfl⟩

/-- Leading slashes are dropped as characters or as bytes. -/
theorem dropWhile_spelling {wcs : List Nat} (h : ∀ wc ∈ wcs, Scalar wc) :
    (spelling wcs).dropWhile (· == slash) = spelling (wcs.dropWhile (· == 0x2f)) := by
  induction wcs with
  | nil => rfl
  | cons wc wcs ih =>
    have hs := h wc List.mem_cons_self
    by_cases hwc : wc = 0x2f
    · subst hwc
      exact ih fun x hx => h x (List.mem_cons_of_mem _ hx)
    · have hlead : ¬ (leadByte wc (tailLength wc) == slash) = true := by
        rw [beq_iff_eq]
        intro heq
        exact hwc ((slash_mem_charBytes hs).1 (heq ▸ List.mem_cons_self))
      rw [spelling_cons, charBytes, List.cons_append, List.dropWhile_cons, if_neg hlead,
        List.dropWhile_cons, if_neg (by simpa using hwc), spelling_cons,
        charBytes, List.cons_append]

/-- The first component of a spelling spells some of its characters. -/
theorem getComp_spelling {wcs : List Nat} (h : ∀ wc ∈ wcs, Scalar wc) :
    ∃ pre sub rest, wcs = pre ++ (sub ++ rest) ∧ getComp (spelling wcs) =
    (spelling sub, spelling rest) ∧ 0x2f ∉ sub := by
  have hmid : ∀ wc ∈ wcs.dropWhile (· == 0x2f), Scalar wc := fun wc hwc =>
    h wc ((List.dropWhile_sublist _).subset hwc)
  obtain ⟨htake, hdrop⟩ := takeWhile_spelling hmid
  refine ⟨wcs.takeWhile (· == 0x2f), (wcs.dropWhile (· == 0x2f)).takeWhile (· != 0x2f),
    (wcs.dropWhile (· == 0x2f)).dropWhile (· != 0x2f), ?_, ?_, fun hmem => ?_⟩
  · rw [List.takeWhile_append_dropWhile, List.takeWhile_append_dropWhile]
  · unfold getComp
    dsimp only
    rw [dropWhile_spelling h, htake, hdrop]
  · simpa using List.mem_takeWhile_imp hmem

/-- A spelling without a slash is one component. -/
theorem getComp_of_notMem {comp : List UInt8} (h : slash ∉ comp) : getComp comp = (comp, []) := by
  have hdrop : comp.dropWhile (· == slash) = comp := by
    refine List.dropWhile_eq_self_iff.2 fun hpos => ?_
    rw [beq_iff_eq]
    exact fun heq => h (heq ▸ List.getElem_mem hpos)
  have hall : ∀ b ∈ comp, (b != slash) = true := fun b hb => bne_iff_ne.2 fun heq => h (heq ▸ hb)
  unfold getComp
  dsimp only
  rw [hdrop, List.takeWhile_eq_self_iff.2 hall, List.dropWhile_eq_nil_iff.2 hall]

/-- A text is spelled with a slash when it has one. -/
theorem slash_mem_spelling {wcs : List Nat} (h : ∀ wc ∈ wcs, Scalar wc) :
    slash ∈ spelling wcs ↔ 0x2f ∈ wcs := by
  unfold spelling
  rw [List.mem_flatMap]
  constructor
  · rintro ⟨wc, hwc, hmem⟩
    exact (slash_mem_charBytes (h wc hwc)).1 hmem ▸ hwc
  · exact fun hmem => ⟨0x2f, hmem, by decide⟩

/-- A dot is spelled in one way. -/
theorem spelling_eq_dot {wcs : List Nat} (h : ∀ wc ∈ wcs, Scalar wc) :
    spelling wcs = [dot] ↔ unitString wcs = [0x2e] := by
  cases wcs with
  | nil => decide
  | cons wc wcs =>
    have hspell := length_le_spelling wcs
    have hunits := length_le_unitString wcs
    rw [spelling_cons, unitString_cons]
    constructor
    -- the byte of a dot stands for itself only
    · intro heq
      have hmem : dot ∈ charBytes wc := by
        cases hchar : charBytes wc with
        | nil => cases hchar
        | cons b bs =>
          rw [hchar, List.cons_append] at heq
          exact (List.cons.inj heq).1 ▸ List.mem_cons_self
      obtain rfl := (mem_charBytes_iff (h wc List.mem_cons_self).le_limit (by decide)).1 hmem
      have hlength := congrArg List.length heq
      rw [List.length_append, length_charBytes, List.length_singleton] at hlength
      obtain rfl := List.eq_nil_of_length_eq_zero (l := wcs) (by omega)
      rfl
    -- and so does its unit
    · intro heq
      have hpos := length_wcharToUtf16_pos wc
      have hlength := congrArg List.length heq
      rw [List.length_append, List.length_singleton] at hlength
      obtain rfl := List.eq_nil_of_length_eq_zero (l := wcs) (by omega)
      rw [show unitString [] = [] from rfl, List.append_nil] at heq
      unfold wcharToUtf16 at heq
      split at heq
      · cases heq
        rfl
      · simp at heq

/-! ### What is listed -/

/-- A spelling of characters that fit is read back as their units. -/
theorem exfatUtf8ToUtf16_spelling {wcs : List Nat} (h : ∀ wc ∈ wcs, Scalar wc) :
    exfatUtf8ToUtf16 (spelling wcs) (nameMax + 1) =
      if (unitString wcs).length ≤ nameMax then .ok (unitString wcs) else .error .enametoolong := by
  have hread := utf8ToUtf16Loop_spelling h (spelling wcs).length (nameMax + 1) le_rfl
  simp only [Nat.lt_succ_iff] at hread
  exact hread

/-- What is listed spells the stored name. -/
theorem exists_spelling_of_nameUtf8 {name : List Nat} {out : List UInt8}
    (hunit : ∀ x ∈ name, x < 2 ^ 16) (hlen : (nameString name).length ≤ nameMax)
    (h : nameUtf8 name = .ok out) :
    ∃ wcs, (∀ wc ∈ wcs, Scalar wc) ∧ nameString name = unitString wcs ∧ out = spelling wcs := by
  have hunits : ∀ x ∈ nameUnits name, x < 2 ^ 16 := by
    intro x hx
    rcases mem_nameUnits hx with hx | rfl
    · exact hunit x hx
    · decide
  obtain ⟨wcs, hall, hstring, hout, -⟩ := exists_spelling_of_exfatUtf16ToUtf8 hunits h
  rw [nameString_nameUnits hlen] at hstring
  exact ⟨wcs, hall, hstring, hout⟩

/-- The names that can be shown are those whose units are paired. -/
theorem exists_nameUtf8_iff {name : List Nat} (hunit : ∀ x ∈ name, x < 2 ^ 16)
    (hlen : (nameString name).length ≤ nameMax) :
    (∃ out, nameUtf8 name = .ok out) ↔ paired (nameString name) = true := by
  constructor
  · rintro ⟨out, h⟩
    by_contra hpair
    rw [← nameString_nameUnits hlen, Bool.not_eq_true] at hpair
    cases (nameUtf8_unpaired hunit hpair).symm.trans h
  · intro hpair
    rw [← nameString_nameUnits hlen] at hpair
    obtain ⟨out, h, -⟩ := nameUtf8_paired hunit hpair
    exact ⟨out, h⟩

/-! ### Looking up what is listed -/

/-- What looking up `wcs` from `parent` may lead to: the directory itself, a child found under a
part without a slash, or something further down. -/
inductive Volume.Spelled (t : Volume δ) (parent : NodeId) (m : Nat) (wcs : List Nat) (j : NodeId) :
    Prop
  | here (h : j = parent)
  | child {sub : List Nat} (hsub : sub.Sublist wcs) (hslash : 0x2f ∉ sub) (hne : sub ≠ [])
      (hdot : spelling sub ≠ [dot]) (h : t.Finds parent (unitString sub) (some j))
  | below {d : Nat} (hd : m + 2 ≤ d) (h : t.Depth j d)

/-- A spelling may be a part of a longer one. -/
theorem Volume.Spelled.mono {t : Volume δ} {parent j : NodeId} {m : Nat} {wcs wcs' : List Nat}
    (h : t.Spelled parent m wcs j) (hsub : wcs.Sublist wcs') : t.Spelled parent m wcs' j := by
  cases h with
  | here h => exact .here h
  | child hs hslash hne hdot h => exact .child (hs.trans hsub) hslash hne hdot h
  | below hd h => exact .below hd h

variable [Device δ]

/-- A path that is found leads to nodes with the names in it. -/
theorem wp_lookupPath_spelling (fuel : Nat) {parent : NodeId} {wcs : List Nat}
    (hall : ∀ wc ∈ wcs, Scalar wc) {t : Volume δ} (ht : t.Linked) {m : Nat}
    (hd : t.Depth parent m) :
    wp (lookupPath fuel parent (spelling wcs)) (fun r t' => t'.Linked ∧ t.Explored t' ∧
      ∀ j, r = .ok j → t'.Spelled parent m wcs j) anyStop t := by
  -- On the components.  The characters that are looked up are a part of those of the path.
  induction fuel generalizing parent wcs m t with
  | zero => exact ⟨ht, .refl t, fun j hj => .here (Except.ok.inj hj).symm⟩
  | succ fuel ih =>
    obtain ⟨pre, sub, rest, rfl, hcomp, hslash⟩ := getComp_spelling hall
    have hsub : sub.Sublist (pre ++ (sub ++ rest)) :=
      (List.sublist_append_left sub rest).trans (List.sublist_append_right pre _)
    have hrest : rest.Sublist (pre ++ (sub ++ rest)) :=
      (List.sublist_append_right sub rest).trans (List.sublist_append_right pre _)
    have hallsub : ∀ wc ∈ sub, Scalar wc := fun wc hwc => hall wc (hsub.subset hwc)
    have hallrest : ∀ wc ∈ rest, Scalar wc := fun wc hwc => hall wc (hrest.subset hwc)
    unfold lookupPath
    rw [hcomp]
    dsimp only
    -- nothing is left of the path
    split
    · exact ⟨ht, .refl t, fun j hj => .here (Except.ok.inj hj).symm⟩
    next hempty =>
    have hne : sub ≠ [] := by
      rintro rfl
      exact hempty rfl
    -- a dot, which is skipped
    split
    · refine wp_conseq (ih hallrest ht hd) ?_
      rintro r t' ⟨ht', h', hr⟩
      exact ⟨ht', h', fun j hj => (hr j hj).mono hrest⟩
    next hdot =>
      rw [wp_bind]
      refine wp_conseq (wp_lookupName ht hd) ?_
      intro r t₁ h₁
      have ht₁ := h₁.linked
      cases r with
      | error e =>
        dsimp only
        rw [wp_bind]
        refine wp_conseq (wp_exfatPutNode parent t₁) ?_
        rintro _ t₂ ⟨h₂, hexplored₂⟩
        exact ⟨h₂.linked ht₁, h₁.explored.trans ht hexplored₂, by simp⟩
      | ok i =>
        obtain ⟨name, hname, hf⟩ := h₁.found rfl
        rw [exfatUtf8ToUtf16_spelling hallsub] at hname
        split at hname
        on_goal 2 => cases hname
        cases hname
        dsimp only
        rw [wp_bind]
        refine wp_conseq (wp_exfatPutNode parent t₁) ?_
        rintro _ t₂ ⟨h₂, hexplored₂⟩
        have ht₂ := h₂.linked ht₁
        have h₁₂ : t.Explored t₂ := h₁.explored.trans ht hexplored₂
        have hf₂ : t₂.Finds parent (unitString sub) (some i) := hf.read ht₁ hexplored₂.toRead
        have hi : t₂.Depth i (m + 1) := hf₂.depth ht₂ (h₁₂.toGrown.depth hd)
        refine wp_conseq (ih hallrest ht₂ hi) ?_
        rintro r t₃ ⟨ht₃, h₃, hr⟩
        refine ⟨ht₃, h₁₂.trans ht h₃, fun j hj => ?_⟩
        -- the child that has been found, or something below it
        cases hr j hj with
        | here h =>
          subst h
          exact .child hsub hslash hne hdot (hf₂.read ht₂ h₃.toRead)
        | child _ _ _ _ h => exact .below le_rfl (h.depth ht₃ (h₃.toGrown.depth hi))
        | below hd h => exact .below (by omega) h

/-- The node is listed, and `exfat_lookup` in its directory leads to it from what is listed. -/
def Volume.Shows (t : Volume δ) (dir i : NodeId) : Prop :=
  ∃ n out, t.heap i = some n ∧ exfatGetName n t.ef = .ok out t.ef ∧
    ∃ t', lookupFrom dir out t = .ok (.ok i) t'

/-- The directory `dir` has the node `i` under the name `name`. -/
structure Volume.Placed (t : Volume δ) (dir i : NodeId) (name : List Nat) (n : Node) : Prop where
  node : t.heap i = some n
  string : nameString n.name = nameString name
  units : ∀ x ∈ n.name, x < 2 ^ 16
  length : (nameString name).length ≤ nameMax
  finds : t.Finds dir name (some i)
  depth : ∃ m, t.Depth dir m

omit [Device δ] in
/-- A name that is shown spells its characters. -/
theorem Volume.Placed.spelled {t : Volume δ} {dir i : NodeId} {name : List Nat} {n : Node}
    (h : t.Placed dir i name n) {out : List UInt8} (hout : nameUtf8 n.name = .ok out) :
    ∃ wcs, (∀ wc ∈ wcs, Scalar wc) ∧ nameString name = unitString wcs ∧ out = spelling wcs := by
  obtain ⟨wcs, hall, hstring, hspell⟩ :=
    exists_spelling_of_nameUtf8 h.units (h.string ▸ h.length) hout
  exact ⟨wcs, hall, h.string.symm.trans hstring, hspell⟩

omit [Device δ] in
/-- What stands behind the terminator of the name does not matter. -/
theorem Volume.Finds.string {t : Volume δ} {d : NodeId} {name : List Nat} {o : Option NodeId}
    (h : t.Finds d name o) : t.Finds d (nameString name) o := by
  obtain ⟨k, u, hk, hc, hu, ho⟩ := h
  simp only [← compareName_nameString_left u name] at ho
  exact ⟨k, u, hk, hc, hu, ho⟩

/-- A name that is in order is shown. -/
theorem Volume.Placed.shows {t : Volume δ} {dir i : NodeId} {name : List Nat} {n : Node}
    (h : t.Placed dir i name n) (ht : t.Linked) (hs : t.Solvent) (hn : t.Named)
    (hl : Listable (nameString name)) : t.Shows dir i := by
  -- the name can be shown: its units are well paired
  obtain ⟨out, hout⟩ := (exists_nameUtf8_iff h.units (h.string ▸ h.length)).2 (h.string ▸ hl.paired)
  obtain ⟨wcs, hall, hname, rfl⟩ := h.spelled hout
  have hnonempty : wcs ≠ [] := by
    rintro rfl
    exact hl.nonempty hname
  have hdot : spelling wcs ≠ [dot] := fun heq =>
    hl.notDot (hname.trans ((spelling_eq_dot hall).1 heq))
  have hslash : slash ∉ spelling wcs := by
    rw [slash_mem_spelling hall, ← mem_unitString_slash, ← hname]
    exact hl.noSlash
  -- and what is shown decodes to the name again
  have hread : exfatUtf8ToUtf16 (spelling wcs) (nameMax + 1) = .ok (nameString name) := by
    rw [exfatUtf8ToUtf16_spelling hall, ← hname, if_pos h.length]
  have hpos : 0 < (spelling wcs).length :=
    (List.length_pos_of_ne_nil hnonempty).trans_le (length_le_spelling wcs)
  obtain ⟨fuel, hfuel⟩ := Nat.exists_eq_succ_of_ne_zero hpos.ne'
  -- it is one component, so the lookup goes one step
  have hw : t.Walks dir (spelling wcs) (spelling wcs).length dir (spelling wcs) := by
    rw [hfuel]
    unfold Volume.Walks
    rw [getComp_of_notMem hslash]
    dsimp only
    rw [if_neg hdot]
    refine ⟨?_, rfl, rfl⟩
    rw [List.isEmpty_iff]
    exact List.length_pos_iff.1 hpos
  obtain ⟨m, hd⟩ := h.depth
  obtain ⟨r, t', hrun, rfl⟩ :=
    wp_never_iff.1 (wp_lookupFrom_bare hread ht hw hd h.finds.string hs hn)
  exact ⟨n, _, h.node, exfatGetName_eq hout _, t', hrun⟩

/-- Only a name that is in order is shown, if no other unit matches the terminator. -/
theorem Volume.Placed.listable {t : Volume δ} {dir i : NodeId} {name : List Nat} {n : Node}
    {u : Nat → Nat} (h : t.Placed dir i name n) (ht : t.Linked) (hu : t.ef.upcase = some u)
    (hfolds : Folds u) (hshows : t.Shows dir i) : Listable (nameString name) := by
  obtain ⟨n', out, hn', hget, t', hrun⟩ := hshows
  cases h.node.symm.trans hn'
  obtain ⟨m, hd⟩ := h.depth
  have hi := h.finds.depth ht hd
  -- a node is not its own directory
  have hne : i ≠ dir := by
    rintro rfl
    have := KinDepth.unique ht hd hi
    omega
  -- the name has been shown
  have hout : nameUtf8 n.name = .ok out := by
    unfold exfatGetName at hget
    cases hname : nameUtf8 n.name with
    | ok name' =>
      rw [hname] at hget
      cases hget
      rfl
    | error e =>
      rw [hname] at hget
      cases hget
  obtain ⟨wcs, hall, hname, rfl⟩ := h.spelled hout
  -- where the lookup has gone
  obtain ⟨ht', hexplored, hspelled⟩ : t'.Linked ∧ t.Explored t' ∧ t'.Spelled dir m wcs i := by
    have hlookup : wp (lookupFrom dir (spelling wcs)) (fun r t' => t'.Linked ∧ t.Explored t' ∧
        ∀ j, r = .ok j → t'.Spelled dir m wcs j) anyStop t := by
      unfold lookupFrom
      rw [wp_bind]
      refine wp_conseq (wp_exfatGetNode dir t) ?_
      rintro _ t₁ ⟨h₁, hexplored₁⟩
      refine wp_conseq (wp_lookupPath_spelling _ hall (h₁.linked ht) (hexplored₁.toGrown.depth hd))
        ?_
      rintro r t₂ ⟨ht₂, h₂, hr⟩
      exact ⟨ht₂, hexplored₁.trans ht h₂, hr⟩
    obtain ⟨ht', hexplored, hr⟩ := wp_anyStop_iff.1 hlookup _ _ hrun
    exact ⟨ht', hexplored, hr i rfl⟩
  have hi' : t'.Depth i (m + 1) := hexplored.toGrown.depth hi
  -- the directory itself, something deeper, or a child with the name
  cases hspelled with
  | here heq => exact absurd heq hne
  -- what is deeper is not the node: its depth is known
  | below hd' hdeep =>
    have := KinDepth.unique ht' hi' hdeep
    omega
  | @child sub hsub hslash hnonempty hdot hfinds =>
    have hallsub : ∀ wc ∈ sub, Scalar wc := fun wc hwc => hall wc (hsub.subset hwc)
    -- the part that has been found has as many units as the name
    obtain ⟨k, u', hk, -, hu', hfind⟩ := hfinds
    cases hu'.symm.trans (hexplored.upcase u hu)
    have hcmp := List.find?_some hfind.symm
    obtain ⟨c, hc, hname'⟩ := hexplored.names (Volume.kin_of_heap h.node)
    rw [hc, Option.any_some, compareName_iff hfolds, hname'] at hcmp
    have hlength := congrArg List.length hcmp
    unfold foldName at hlength
    rw [List.length_map, List.length_map] at hlength
    have hself : (unitString sub).takeWhile (· ≠ 0) = unitString sub :=
      nameString_unitString hallsub
    have hstring : n.kin.name.takeWhile (· ≠ 0) = unitString wcs := h.string.trans hname
    rw [hself, hstring] at hlength
    have heq : unitString sub = unitString wcs := (hsub.flatMap wcharToUtf16).eq_of_length hlength
    -- the units of the part are those of the name
    refine ⟨?_, ?_, ?_, ?_⟩
    · rw [← h.string]
      exact (exists_nameUtf8_iff h.units (h.string ▸ h.length)).1 ⟨_, hout⟩
    · rw [hname, ← heq]
      have := length_le_unitString sub
      exact List.length_pos_iff.1 ((List.length_pos_iff.2 hnonempty).trans_le this)
    · rw [hname, ← heq]
      exact fun h => hdot ((spelling_eq_dot hallsub).2 h)
    · rw [hname, ← heq, mem_unitString_slash]
      exact hslash

/-! ### Giving a name -/

omit [Device δ] in
/-- A path that goes on is not at its last component. -/
theorem Volume.Walks.notLast {t : Volume δ} {dir d : NodeId} {last path : List UInt8} {fuel : Nat}
    (h : t.Walks dir last fuel d path) : ¬ isLastComp path = true := by
  cases fuel with
  | zero => exact h.elim
  | succ fuel => exact h.1

omit [Device δ] in
/-- A path ends with its last component. -/
theorem Volume.Walks.last_eq {t : Volume δ} {dir d : NodeId} {last path : List UInt8} {fuel : Nat}
    (h : t.Walks dir last fuel d path) : lastComponent fuel path = last := by
  induction fuel generalizing d path with
  | zero => exact h.elim
  | succ fuel ih =>
    obtain ⟨hcomp, hw⟩ := h
    unfold lastComponent
    split at hw
    · rw [if_neg hw.notLast]
      exact ih hw
    split at hw
    next hlast =>
      rw [if_pos hlast]
      exact hw.2
    next hlast =>
      obtain ⟨_, i, -, -, hw⟩ := hw
      rw [if_neg hlast]
      exact ih hw

/-- A rename that succeeds ends in `rename_entry`. -/
theorem exfatRename_into {oldPath newPath : List UInt8} {t t' : Volume δ}
    (h : exfatRename oldPath newPath t = .ok (.ok ()) t') :
    ∃ i s t₁ t₂ t₃, exfatLookup oldPath t = .ok (.ok i) t₁ ∧
      exfatSplit newPath t₁ = .ok (.ok s) t₂ ∧
      renameInto s.parent i s.name t₃ = .ok (.ok ()) t' := by
  -- every failure returns an error, so it is none of them
  have hput : ∀ (dir i : NodeId) (e : Errno) {t₁ : Volume δ}, (do
      putBoth dir i
      pure (.error e : Rc)) t₁ ≠ .ok (.ok ()) t' := by
    intro dir i e t₁ h
    obtain ⟨_, _, -, h⟩ := run_bind_eq_ok.mp h
    cases h
  obtain ⟨r, t₁, hlookup, h⟩ := run_bind_eq_ok.mp h
  cases r with
  | error e => cases h
  | ok i =>
    obtain ⟨r, t₂, hsplit, h⟩ := run_bind_eq_ok.mp h
    cases r with
    | error e =>
      obtain ⟨_, _, -, h⟩ := run_bind_eq_ok.mp h
      cases h
    | ok s =>
      obtain ⟨dir, existing, name⟩ := s
      obtain ⟨below, t₃, -, h⟩ := run_bind_eq_ok.mp h
      refine ⟨i, ⟨dir, existing, name⟩, t₁, t₂, ?_⟩
      -- below itself: refused
      cases below with
      | true =>
        rw [if_pos rfl] at h
        cases existing with
        | none => exact absurd h (hput dir i _)
        | some e =>
          obtain ⟨_, _, -, h⟩ := run_bind_eq_ok.mp h
          exact absurd h (hput dir i _)
      | false =>
        rw [if_neg Bool.false_ne_true] at h
        -- no target, the node itself, or a target that has been removed
        cases existing with
        | none => exact ⟨t₃, hlookup, hsplit, h⟩
        | some e =>
          dsimp only at h
          split at h
          · obtain ⟨_, t₄, -, h⟩ := run_bind_eq_ok.mp h
            exact ⟨t₄, hlookup, hsplit, h⟩
          · obtain ⟨r, t₄, -, h⟩ := run_bind_eq_ok.mp h
            cases r with
            | error e => exact absurd h (hput dir i _)
            | ok _ => exact ⟨t₄, hlookup, hsplit, h⟩

omit [Device δ] in
/-- The node that has been moved is the first one with its name. -/
theorem Volume.Renames.finds {t t' : Volume δ} {dir i : NodeId} {name : List Nat}
    (h : t.Renames dir i name t' (.ok ())) :
    t'.Finds dir name (some i) ∧ ∃ k, t'.kin i = some k ∧ k.name = name := by
  cases h with
  | @moved k m q p g _ u hi hp hm hdir hq hg hu h =>
    have hnew : ∃ k, t'.kin i = some k ∧ k.name = name := by
      rw [h.kin, attached, detached, assigned_self hi, Option.map_some, Option.map_some]
      refine ⟨_, rfl, ?_⟩
      show (g k).name = name
      rw [hg k]
    have hdir' : ∃ q' l, t'.kin dir = some q' ∧ q'.child = i :: l ∧ q'.isCached = true := by
      rw [h.kin, attached, detached, assigned, hdir, Option.map_some,
        Option.map_some, Option.map_some]
      refine ⟨_, _, rfl, if_pos rfl, ?_⟩
      show (if dir = i then g q else q).isCached = true
      split
      · rw [hg q]
        exact hq
      · exact hq
    obtain ⟨k', hk', hname⟩ := hnew
    obtain ⟨q', l, hq', hchild, hc⟩ := hdir'
    refine ⟨⟨q', u, hq', hc, hu, ?_⟩, k', hk', hname⟩
    have hmatch : (t'.kin i).any (fun c => compareName u name c.name) = true := by
      rw [hk', Option.any_some, hname]
      exact compareName_refl u name
    rw [hchild, List.find?_cons, hmatch]

/-- A call that has given a node the name at the end of `path`. -/
def Volume.Naming (t : Volume δ) (path : List UInt8) (t' : Volume δ) : Prop :=
  exfatMknod path t = .ok (.ok ()) t' ∨ exfatMkdir path t = .ok (.ok ()) t' ∨
    ∃ oldPath, exfatRename oldPath path t = .ok (.ok ()) t'

/-- The node that has got it: the last one that memory was taken for, which the path leads to, or
the one the old path has led to. -/
def Volume.Gets (t : Volume δ) (path : List UInt8) (t' : Volume δ) (i : NodeId) : Prop :=
  (t.heap i = none ∧ t'.fresh = i + 1 ∧ ∀ r t'', exfatLookup path t' = .ok r t'' → r = .ok i) ∨
    ∃ oldPath t₁, exfatRename oldPath path t = .ok (.ok ()) t' ∧
    exfatLookup oldPath t = .ok (.ok i) t₁

omit [Device δ] in
/-- The parent of a node below the root is no deeper than the node. -/
theorem Volume.Finds.parent_depth {t : Volume δ} {dir i : NodeId} {name : List Nat} (ht : t.Linked)
    (hr : t.Rooted) (h : t.Finds dir name (some i)) : ∃ m, t.Depth dir m := by
  obtain ⟨k, u, hk, -, -, hfind⟩ := h
  obtain ⟨c, hc, hp⟩ := ht.down hk (List.mem_of_find?_eq_some hfind.symm)
  obtain ⟨m, hi⟩ := hr i c dir hc hp
  cases hi with
  | root => exact absurd rfl (ht.ne_root hc hp)
  | child hx hp' hd =>
    cases hc.symm.trans hx
    cases hp.symm.trans hp'
    exact ⟨_, hd⟩

/-- What `exfat_mknod` and `exfat_mkdir` leave behind. -/
theorem Volume.Makes.placed {t t' : Volume δ} {path : List UInt8} (h : t.Makes path (.ok ()) t')
    (ht : t.Linked) (ht' : t'.Linked) :
    ∃ i dir n name, t.Gets path t' i ∧
      exfatUtf8ToUtf16 (lastComponent path.length path) (nameMax + 1) = .ok name ∧
      t'.Placed dir i name n := by
  obtain ⟨dir, last, name, i, k, hi, hlast, hw, hname, hfinds, hk, hkname⟩ := h.found rfl
  obtain ⟨n, hn, rfl⟩ := Option.map_eq_some_iff.1 hk
  obtain ⟨m, -, hd⟩ := hw.depth ht' .root
  rw [take_utf16Length] at hkname
  have hstring : n.name = nameString name := hkname
  refine ⟨i, dir, n, name, .inl ⟨ht.toBounded i hi, hlast, fun r t'' hlookup => ?_⟩,
    hw.last_eq ▸ hname,
    hn, hstring ▸ nameString_nameString name, fun x hx => ?_, length_nameString_le hname,
      hfinds, m, hd⟩
  · exact (wp_anyStop_iff.1 (wp_exfatLookup_walks hname ht' hw hfinds) _ _ hlookup).2
  · rw [hstring] at hx
    exact (utf8ToUtf16Loop_units _ hname).1 x (mem_of_mem_nameString hx)

/-- What a call that gives a name leaves behind. -/
theorem Volume.Naming.placed {t t' : Volume δ} {path : List UInt8} (h : t.Naming path t')
    (hs : t.Sound D H) (hsolvent : t.Solvent) :
    ∃ i dir n name, t.Gets path t' i ∧
      exfatUtf8ToUtf16 (lastComponent path.length path) (nameMax + 1) = .ok name ∧
      t'.Linked ∧ t'.Solvent ∧ t'.Placed dir i name n := by
  have ht := hs.linked
  -- which directories may be read later does not matter here
  have hready : t.Ready False ∅ :=
    ⟨⟨ht, hs.rooted, False.elim, fun hx => hx.elim, fun hx => hx.elim, hs.nameless⟩, False.elim⟩
  -- `mknod` and `mkdir` make the node in the same way
  have hmade : ∀ {t' : Volume δ}, t.Makes path (.ok ()) t' → t.Counted 0 t' → ∃ i dir n name,
      t.Gets path t' i ∧ exfatUtf8ToUtf16 (lastComponent path.length path)
      (nameMax + 1) = .ok name ∧
      t'.Linked ∧ t'.Solvent ∧ t'.Placed dir i name n := by
    intro t' hmakes hcounted
    have ht' := (hmakes.sound hready).linked
    obtain ⟨i, dir, n, name, hgets, hname, hplaced⟩ := hmakes.placed ht ht'
    exact ⟨i, dir, n, name, hgets, hname, ht', hcounted.solvent hsolvent fun _ => le_rfl, hplaced⟩
  rcases h with hrun | hrun | ⟨oldPath, hrun⟩
  · exact hmade (wp_anyStop_iff.1 (wp_exfatMknod path ht) _ _ hrun)
      (wp_anyStop_iff.1 (refs_create path _ t ht.toBounded) _ _ hrun)
  · exact hmade (wp_anyStop_iff.1 (wp_exfatMkdir path ht) _ _ hrun)
      (wp_anyStop_iff.1 (refs_exfatMkdir path t ht.toBounded) _ _ hrun)
  -- a rename gives an existing node its name
  · obtain ⟨i, s, t₁, t₂, t₃, hlookup, hsplit, hinto⟩ := exfatRename_into hrun
    obtain ⟨-, hname⟩ := exfatSplit_name hsplit
    have hrenames := wp_anyStop_iff.1 (wp_renameInto s.parent i s.name t₃) _ _ hinto
    obtain ⟨hfinds, k, hk, hkname⟩ := hrenames.finds
    obtain ⟨n, hn, rfl⟩ := Option.map_eq_some_iff.1 hk
    have hsound' := wp_anyStop_iff.1 (wp_exfatRename oldPath path hready) _ _ hrun
    have hcounted := wp_anyStop_iff.1 (refs_exfatRename oldPath path t ht.toBounded) _ _ hrun
    refine ⟨i, s.parent, n, s.name, .inr ⟨oldPath, t₁, hrun, hlookup⟩, hname, hsound'.linked,
      hcounted.solvent hsolvent fun _ => le_rfl, hn, congrArg nameString hkname, fun x hx => ?_,
      length_nameString_le hname, hfinds, hfinds.parent_depth hsound'.linked hsound'.rooted⟩
    exact (utf8ToUtf16Loop_units _ hname).1 x (hkname ▸ hx)

/-- When `exfat_mknod`, `exfat_mkdir` or `exfat_rename` has given a node its name, the node is
listed and found under what is listed exactly if the name is in order: every lead surrogate is
followed by a trail surrogate, and the characters are neither none nor a single dot, and no slash is
among them. -/
theorem Volume.Reached.shown_after_naming {t₀ t t' : Volume δ} (ht₀ : t₀.Vacant)
    (h : t₀.Reached D H t) {path : List UInt8} (hrun : t.Naming path t') :
    ∃ i dir n name u, t.Gets path t' i ∧
      exfatUtf8ToUtf16 (lastComponent path.length path) (nameMax + 1) = .ok name ∧
      t'.heap i = some n ∧ n.parent = some dir ∧ t'.ef.upcase = some u ∧
      (t'.Named → Listable (nameString name) → t'.Shows dir i) ∧
      (Folds u → t'.Shows dir i → Listable (nameString name)) := by
  obtain ⟨i, dir, n, name, hgets, hname, ht', hs', hplaced⟩ :=
    hrun.placed (h.sound ht₀) (h.solvent ht₀)
  obtain ⟨k, u, hk, -, hu, hfind⟩ := hplaced.finds
  obtain ⟨c, hc, hp⟩ := ht'.down hk (List.mem_of_find?_eq_some hfind.symm)
  cases (Volume.kin_of_heap hplaced.node).symm.trans hc
  exact ⟨i, dir, n, name, u, hgets, hname, hplaced.node, hp, hu, hplaced.shows ht' hs',
    hplaced.listable ht' hu⟩

/-! ### A name on the card -/

/-- The name of a file on the card is shown. -/
theorem shown_card : ∃ t t' i dir n, cardVolume.Reached False {t.root} t ∧
    exfatMknod [0x2f, 0x78] t = .ok (.ok ()) t' ∧ t'.heap i = some n ∧ n.parent = some dir ∧
    t'.Shows dir i := by
  have htest : returns (fun rc t => rc = .ok () ∧ returns (fun rc t' => rc = .ok () ∧
      (List.range t'.fresh).all fun x => (t'.heap x).all fun n => (nameUtf8 n.name).toOption.isSome)
      (exfatMknod [0x2f, 0x78] t)) (mountRoot cardVolumeBooted) = true := by
    decide +kernel
  obtain ⟨rc, t, hroot, htest⟩ := of_returns htest
  obtain ⟨rfl, hmknod⟩ := of_decide_eq_true htest
  obtain ⟨rc, t', hmknod, htest⟩ := of_returns hmknod
  obtain ⟨rfl, hnames⟩ := of_decide_eq_true htest
  have hmount : exfatMount cardVolume = .ok (.ok ()) t :=
    (run_exfatMount (fun _ => rfl) bootable_cardStore).trans hroot
  have hreached : cardVolume.Reached False {t.root} t := .mount hmount False.elim
  have hnaming : t.Naming [0x2f, 0x78] t' := .inl hmknod
  obtain ⟨-, -, -, -, -, -, ht', -, -⟩ :=
    hnaming.placed (hreached.sound fun _ => rfl) (hreached.solvent fun _ => rfl)
  -- the names of all nodes can be shown
  have hnamed : t'.Named := by
    intro x n hx _
    have hlt : x < t'.fresh := by
      by_contra hge
      cases (ht'.toBounded x (Nat.le_of_not_lt hge)).symm.trans hx
    have hall := List.all_eq_true.1 hnames x (List.mem_range.2 hlt)
    rw [hx, Option.all_some] at hall
    cases hname : nameUtf8 n.name with
    | ok name => exact ⟨name, rfl⟩
    | error e =>
      rw [hname] at hall
      cases hall
  obtain ⟨i, dir, n, name, u, -, hname, hn, hp, -, hshows, -⟩ :=
    Volume.Reached.shown_after_naming (fun _ => rfl) hreached hnaming
  have hx : exfatUtf8ToUtf16 (lastComponent 2 [0x2f, 0x78]) (nameMax + 1) = .ok [0x78] := by
    decide +kernel
  cases hx.symm.trans hname
  exact ⟨t, t', i, dir, n, hreached, hmknod, hn, hp, hshows hnamed (by decide)⟩

/-- `exfat_mknod` makes a file whose name is a lone surrogate, and `exfat_get_name` stops at it. -/
theorem not_shown_card : ∃ t t' i n, cardVolume.Reached False {t.root} t ∧
    exfatMknod [0x2f, 0xed, 0xa0, 0x80] t = .ok (.ok ()) t' ∧ t.Gets [0x2f, 0xed, 0xa0, 0x80] t' i ∧
    t'.heap i = some n ∧
    exfatGetName n t'.ef = .error (.bug "failed to convert name to UTF-8") t'.ef := by
  have htest : returns (fun rc t => rc = .ok () ∧
      returns (fun rc _ => rc = .ok ()) (exfatMknod [0x2f, 0xed, 0xa0, 0x80] t))
      (mountRoot cardVolumeBooted) = true := by
    decide +kernel
  obtain ⟨rc, t, hroot, htest⟩ := of_returns htest
  obtain ⟨rfl, hmknod⟩ := of_decide_eq_true htest
  obtain ⟨rc, t', hmknod, hok⟩ := of_returns hmknod
  obtain rfl := of_decide_eq_true hok
  have hmount : exfatMount cardVolume = .ok (.ok ()) t :=
    (run_exfatMount (fun _ => rfl) bootable_cardStore).trans hroot
  have hreached : cardVolume.Reached False {t.root} t := .mount hmount False.elim
  have hnaming : t.Naming [0x2f, 0xed, 0xa0, 0x80] t' := .inl hmknod
  obtain ⟨i, dir, n, name, hgets, hname, -, -, hplaced⟩ :=
    hnaming.placed (hreached.sound fun _ => rfl) (hreached.solvent fun _ => rfl)
  have hlone : exfatUtf8ToUtf16 (lastComponent 4 [0x2f, 0xed, 0xa0, 0x80])
      (nameMax + 1) = .ok [0xd800] := by
    decide +kernel
  -- a lone surrogate has three bytes that `utf8_to_wchar` accepts
  cases hlone.symm.trans hname
  have hstring : nameString (nameUnits n.name) = [0xd800] := by
    rw [nameString_nameUnits (hplaced.string ▸ hplaced.length), hplaced.string]
    decide
  have hstop : nameUtf8 n.name = .error .eilseq :=
    nameUtf8_unpaired hplaced.units (by rw [hstring]; decide)
  refine ⟨t, t', i, n, hreached, hmknod, hgets, hplaced.node, ?_⟩
  unfold exfatGetName
  rw [hstop]
  rfl

end ExFat
