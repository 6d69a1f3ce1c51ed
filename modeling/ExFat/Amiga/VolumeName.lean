import ExFat.Amiga.Charset
import ExFat.Amiga.SetDate
import ExFat.Fs.Label

namespace ExFat

open Bytes Program

/-!
# The name of the volume

`add_volume` takes the bytes of the label for characters, `fill_fib` decodes them, and
`do_rename_disk` hands out the name it was given.  The three agree on labels of plain characters
alone.
-/

variable {δ : Type}

/-! ### The names of one label -/

/-- The name under which `add_volume` publishes a label. -/
def publishedName (label : List UInt8) : List UInt8 :=
  (if label = [] then untitled else label).take 63

/-- A label whose characters are their own bytes, and that is there. -/
def PlainLabel (label : List UInt8) : Prop := label ≠ [] ∧ ∀ b ∈ label, b ≠ 0 ∧ b < 0x80

/-- A mount has found the label: there is none, or an entry of the root directory holds it. -/
def MountedLabel (label : List UInt8) : Prop :=
  label = [] ∨ ∃ (entry : Entry) (ef ef' : Ef δ), readLabel entry ef = .ok (.ok ()) ef' ∧
    ef'.label = label

/-- A label is the spelling of at most fifteen characters. -/
theorem exists_spelling_of_exfatUtf16ToUtf8_label {us : List Nat} {label : List UInt8}
    (hunit : ∀ x ∈ us, x < 2 ^ 16) (hlen : us.length = enameMax)
    (h : exfatUtf16ToUtf8 us utf8EnameBufferMax = .ok label) :
    ∃ wcs, (∀ wc ∈ wcs, Scalar wc) ∧ label = spelling wcs ∧ wcs.length ≤ enameMax ∧
      label.length < utf8EnameBufferMax := by
  obtain ⟨wcs, hall, hunits, hlabel, hroom⟩ := exists_spelling_of_exfatUtf16ToUtf8 hunit h
  have hle := length_le_unitString wcs
  have hprefix : (nameString us).length ≤ us.length := (List.takeWhile_prefix _).length_le
  rw [hunits, hlen] at hprefix
  exact ⟨wcs, hall, hlabel, hle.trans hprefix, hroom⟩

/-- The label of a mounted volume is the spelling of some characters. -/
theorem MountedLabel.exists_spelling {label : List UInt8} (h : MountedLabel (δ := δ) label) :
    ∃ wcs, (∀ wc ∈ wcs, Scalar wc) ∧ label = spelling wcs ∧ wcs.length ≤ enameMax ∧
      label.length < utf8EnameBufferMax := by
  obtain rfl | ⟨entry, ef, ef', hread, rfl⟩ := h
  · exact ⟨[], fun _ hx => (List.not_mem_nil hx).elim, rfl, Nat.zero_le _, by decide⟩
  unfold readLabel at hread
  by_cases hlong : leAt entry 1 1 > enameMax
  · rw [if_pos hlong] at hread
    obtain ⟨_, _, _, hread⟩ := run_bind_eq_ok.1 hread
    cases hread
  rw [if_neg hlong] at hread
  cases hlabel : exfatUtf16ToUtf8 entry.units utf8EnameBufferMax with
  | error e =>
    rw [hlabel] at hread
    cases hread
  | ok label =>
    rw [hlabel] at hread
    cases hread
    refine exists_spelling_of_exfatUtf16ToUtf8_label (fun x hx => ?_) (length_units entry) hlabel
    obtain ⟨i, -, rfl⟩ := List.mem_map.1 hx
    exact leAt_lt entry _ 2

/-- A label without characters beyond the first 128 is published under the name `fill_fib` reports,
and no other label is. -/
theorem publishedName_eq_iff {wcs : List Nat} (h : ∀ wc ∈ wcs, Scalar wc)
    (hlen : wcs.length ≤ enameMax) (hshort : (spelling wcs).length < utf8EnameBufferMax) {k : Nat}
    (hk : 30 ≤ k) :
    (publishedName (spelling wcs)).take k = wcs.map latinChar ↔ PlainLabel (spelling wcs) := by
  have hzero := zero_notMem_spelling h
  unfold utf8EnameBufferMax at hshort
  unfold enameMax at hlen hshort
  -- Without a label the node is called Untitled, and `fill_fib` reports the empty name.
  by_cases hempty : spelling wcs = []
  · have hle := length_le_spelling wcs
    rw [hempty] at hle
    obtain rfl := List.length_eq_zero_iff.1 (Nat.le_zero.1 hle)
    constructor
    · intro heq
      have hlen' := congrArg List.length heq
      rw [show publishedName (spelling []) = untitled by rfl, List.length_take] at hlen'
      have : untitled.length = 8 := rfl
      rw [this, List.map_nil, List.length_nil] at hlen'
      omega
    · exact fun hplain => absurd rfl hplain.1
  have hname : publishedName (spelling wcs) = spelling wcs := by
    rw [publishedName, if_neg hempty, List.take_of_length_le (by omega)]
  rw [hname]
  constructor
  -- one byte for each character means that all of them are in the first 128
  · intro heq
    have hlen' := congrArg List.length heq
    rw [List.length_take, List.length_map] at hlen'
    have hall := (length_spelling_iff h).1 (by omega)
    exact ⟨hempty, fun b hb => ⟨fun hb0 => hzero (hb0 ▸ hb), hall b hb⟩⟩
  -- and such characters are their own spelling
  · rintro ⟨-, hplain⟩
    have hlen' := (length_spelling_iff h).2 fun b hb => (hplain b hb).2
    have hsmall : ∀ wc ∈ wcs, wc < 0x80 := by
      intro wc hwc
      have hb := (hplain _ (List.mem_flatMap.2 ⟨wc, hwc, List.mem_cons_self⟩)).2
      have hone := (leadByte_lt_iff (h wc hwc).le_limit).1 hb
      unfold tailLength at hone
      split_ifs at hone
      omega
    rw [List.take_of_length_le (by omega), spelling_of_lt hsmall]
    refine List.map_congr_left fun wc hwc => ?_
    have := hsmall wc hwc
    rw [latinChar, if_pos (by omega)]

/-! ### Relabelling -/

/-- A label that has been stored was decoded, and its entry written. -/
theorem exfatSetLabel_eq_ok [Device δ] {label : List UInt8} {t t' : Volume δ}
    (h : exfatSetLabel label t = .ok (.ok ()) t') :
    ∃ (units : List Nat) (offset : Nat) (t₁ t₂ : Volume δ),
      exfatUtf8ToUtf16 label (enameMax + 1) = .ok units ∧
      onNode t₁.root (writeEntries [labelEntry units] offset) t₁ = .ok (.ok ()) t₂ ∧
        t'.ef.label = label := by
  unfold exfatSetLabel at h
  cases hunits : exfatUtf8ToUtf16 label (enameMax + 1) with
  | error e =>
    rw [hunits] at h
    cases h
  | ok units =>
    rw [hunits] at h
    dsimp only at h
    obtain ⟨slot, t₁, -, h⟩ := run_bind_eq_ok.1 h
    cases slot with
    | error e => cases h
    | ok offset =>
      dsimp only at h
      rw [run_bind_ok (run_get t₁)] at h
      obtain ⟨r, t₂, hwrite, h⟩ := run_bind_eq_ok.1 h
      cases r with
      | error e => cases h
      | ok _ =>
        cases h
        exact ⟨units, offset, t₁, t₂, rfl, hwrite, rfl⟩

/-- What `exfat_amiga_bstr_to_utf8` makes of a string ends where the string has a zero. -/
theorem cString_spelling (cs : List UInt8) :
    cString (spelling (cs.map UInt8.toNat)) = spelling ((cString cs).map UInt8.toNat) := by
  induction cs with
  | nil => rfl
  | cons c cs ih =>
    rw [List.map_cons, spelling_cons]
    by_cases hc : c = 0
    · subst hc
      rfl
    · have hs := scalar_of_latin hc
      have hchar := zero_notMem_wcharToUtf8 hs.wcharToUtf8 hs.le_limit hs.pos
      have hbytes : ∀ b ∈ charBytes c.toNat, (b != 0) = true := by
        intro b hb
        rw [bne_iff_ne]
        rintro rfl
        exact hchar hb
      have hstring : cString (c :: cs) = c :: cString cs :=
        List.takeWhile_cons_of_pos (by rw [bne_iff_ne]; exact hc)
      rw [hstring, List.map_cons, spelling_cons, ← ih]
      exact List.takeWhile_append_of_pos hbytes

/-- A C string holds no zero byte. -/
theorem zero_notMem_cString (s : List UInt8) : (0 : UInt8) ∉ cString s := by
  intro h
  have := List.mem_takeWhile_imp h
  simp at this

/-- The characters of a name that a relabel has stored: all of them up to a zero. -/
theorem exists_chars_of_exfatUtf8ToUtf16 {name : Bstr} {units : List Nat}
    (h : exfatUtf8ToUtf16 (exfatAmigaBstrToUtf8 name utf8EnameBufferMax) (enameMax + 1) =
      .ok units) :
    ∃ cs : List UInt8, (0 : UInt8) ∉ cs ∧ cs.length ≤ enameMax ∧ units = cs.map UInt8.toNat ∧
      ((0 : UInt8) ∉ name.chars → cs = name.chars) := by
  obtain ⟨k, hloop, hstop⟩ := latinLoop_eq utf8EnameBufferMax 0 name.chars
  have hzero := zero_notMem_cString (name.chars.take k)
  have hlabel : exfatAmigaBstrToUtf8 name utf8EnameBufferMax =
      spelling ((cString (name.chars.take k)).map UInt8.toNat) := by
    rw [exfatAmigaBstrToUtf8, hloop, cString_spelling]
  rw [exfatUtf8ToUtf16, hlabel, utf8ToUtf16Loop_spelling (scalar_latin hzero) _ _ le_rfl,
    unitString_latin] at h
  by_cases hfit : ((cString (name.chars.take k)).map UInt8.toNat).length < enameMax + 1
  · rw [if_pos hfit] at h
    cases h
    rw [List.length_map] at hfit
    refine ⟨cString (name.chars.take k), hzero, by omega, rfl, fun hnone => ?_⟩
    have htake : cString (name.chars.take k) = name.chars.take k :=
      cString_of_notMem fun hmem => hnone (List.mem_of_mem_take hmem)
    rw [htake, List.length_take] at hfit
    rw [htake]
    refine List.take_of_length_le ?_
    -- a string that has been cut has too many characters for a label
    unfold enameMax utf8EnameBufferMax enameMax at *
    omega
  · rw [if_neg hfit] at h
    cases h

/-- The next mount finds the characters that have been stored. -/
theorem findsLabel_latin [Device δ] (cs : List UInt8) (hzero : (0 : UInt8) ∉ cs)
    (hlen : cs.length ≤ enameMax) :
    FindsLabel (δ := δ) (labelEntry (cs.map UInt8.toNat)) (spelling (cs.map UInt8.toNat)) := by
  have hall := scalar_latin hzero
  have hpos : ∀ x ∈ cs.map UInt8.toNat, 0 < x := fun x hx => (hall x hx).pos
  have hstring : nameString (cs.map UInt8.toNat) = cs.map UInt8.toNat := by
    have := nameString_append hpos (.inl rfl)
    rwa [List.append_nil] at this
  have hlen' : (cs.map UInt8.toNat).length ≤ enameMax := by rwa [List.length_map]
  have hunit : ∀ x ∈ cs.map UInt8.toNat, x < 2 ^ 16 := by
    intro x hx
    obtain ⟨c, -, rfl⟩ := List.mem_map.1 hx
    have := c.toNat_lt
    omega
  have hshort := length_spelling_latin_le cs
  refine findsLabel_labelEntry hunit (by rw [hstring]; exact hlen') ?_
  rw [exfatUtf16ToUtf8, length_labelUnits, labelUnits, List.take_of_length_le hlen']
  have hloop :=
    utf16ToUtf8Loop_unitString hall (terminated_replicate (enameMax - (cs.map UInt8.toNat).length))
    enameMax utf8EnameBufferMax hlen' (by unfold utf8EnameBufferMax; omega)
  rwa [unitString_latin] at hloop

/-- The name on the node after a relabel and the name the label has at the next mount. -/
theorem relabelled_eq_iff {name : Bstr} {cs : List UInt8} (hzero : (0 : UInt8) ∉ cs)
    (hlen : cs.length ≤ enameMax) (hall : (0 : UInt8) ∉ name.chars → cs = name.chars) :
    name.chars = publishedName (spelling (cs.map UInt8.toNat)) ↔ PlainLabel name.chars := by
  have hscalar := scalar_latin hzero
  -- a Latin 1 character takes two bytes at most
  have hshort : (spelling (cs.map UInt8.toNat)).length < utf8EnameBufferMax := by
    have hle := length_spelling_latin_le cs
    unfold utf8EnameBufferMax
    omega
  have hchars : (cs.map UInt8.toNat).map latinChar = cs := by
    rw [List.map_map]
    exact (List.map_congr_left fun c _ => latinChar_toNat c).trans (List.map_id cs)
  have hiff := publishedName_eq_iff hscalar (by rwa [List.length_map]) hshort (k := 63) (by decide)
  have htake : (publishedName (spelling (cs.map UInt8.toNat))).take 63 =
      publishedName (spelling (cs.map UInt8.toNat)) := by
    rw [publishedName, List.take_take]
    rfl
  rw [htake, hchars] at hiff
  -- the name on the node holds no zero byte, so it is the whole name of the packet
  constructor
  · intro heq
    have hnone : (0 : UInt8) ∉ name.chars := by
      rw [heq, publishedName]
      intro hmem
      have hmem := List.mem_of_mem_take hmem
      by_cases hempty : spelling (cs.map UInt8.toNat) = []
      · rw [if_pos hempty] at hmem
        exact absurd hmem (by decide)
      · rw [if_neg hempty] at hmem
        exact zero_notMem_spelling hscalar hmem
    obtain rfl := hall hnone
    have hplain := hiff.1 heq.symm
    have hsame : publishedName (spelling (name.chars.map UInt8.toNat)) =
        spelling (name.chars.map UInt8.toNat) := by
      rw [publishedName, if_neg hplain.1, List.take_of_length_le]
      unfold utf8EnameBufferMax enameMax at hshort
      omega
    rw [heq, hsame]
    exact hplain
  · intro hplain
    obtain rfl := hall fun hmem => (hplain.2 _ hmem).1 rfl
    have hspell : spelling (name.chars.map UInt8.toNat) = name.chars := by
      rw [spelling_of_lt, List.map_map]
      · exact (List.map_congr_left fun c _ => UInt8.ofNat_toNat).trans (List.map_id _)
      · intro wc hwc
        obtain ⟨c, hc, rfl⟩ := List.mem_map.1 hwc
        exact (hplain.2 c hc).2
    exact (hiff.2 (by rw [hspell]; exact hplain)).symm

/-- A relabel that has succeeded: the label was stored, and the node has the name of the packet. -/
theorem doRenameDisk_eq_ok [Device δ] {h h' : Handler δ} {name : Bstr} {reply : PacketReply}
    {v v' : DeviceList} (hrun : doRenameDisk (some name) h = .ok reply h')
    (htrue : reply.res1 = dosTrue) (hvolume : h.volume = some v)
    (halloc : h.outside.allocVec h.ticks = true) (hv : h'.volume = some v') :
    v'.name = name.chars ∧ h'.fs.ef.label = exfatAmigaBstrToUtf8 name utf8EnameBufferMax ∧
      ∃ (units : List Nat) (offset : Nat) (t₁ t₂ : Volume δ),
        exfatUtf8ToUtf16 (exfatAmigaBstrToUtf8 name utf8EnameBufferMax) (enameMax + 1) = .ok units ∧
        onNode t₁.root (writeEntries [labelEntry units] offset) t₁ = .ok (.ok ()) t₂ := by
  -- `dosTrue` is answered at the end only
  have hrefused : ∀ {e : DosError} {g : Handler δ}, refuse e g ≠ .ok reply h' := by
    intro e g hrefuse
    cases hrefuse
    exact absurd (show dosFalse = dosTrue from htrue) (by decide)
  unfold doRenameDisk at hrun
  rw [run_bind_ok (run_get h)] at hrun
  -- the volume is inhibited or read-only, the name is empty, or the label is stored
  by_cases hro : h.inhibited ∨ h.fs.ef.ro
  · rw [if_pos hro] at hrun
    exact absurd hrun hrefused
  rw [if_neg hro] at hrun
  dsimp only at hrun
  by_cases hempty : name.chars.isEmpty
  · rw [if_pos hempty] at hrun
    exact absurd hrun hrefused
  rw [if_neg hempty] at hrun
  cases hset : exfatSetLabel (exfatAmigaBstrToUtf8 name utf8EnameBufferMax) h.fs with
  | error e t =>
    have hstop : useFs (exfatSetLabel (exfatAmigaBstrToUtf8 name utf8EnameBufferMax)) h =
        .error e { h with fs := t, trace := .use h.mounted :: h.trace } := by
      have hnote : note (.use h.mounted) h =
          .ok ⟨⟩ { h with trace := .use h.mounted :: h.trace } := rfl
      unfold useFs
      rw [run_bind_ok (run_get h), run_bind_ok hnote]
      exact run_zoom_error hset
    rw [run_bind_error hstop] at hrun
    cases hrun
  | ok r t =>
    rw [run_bind_ok (run_useFs hset)] at hrun
    cases r with
    | error e => exact absurd hrun hrefused
    | ok _ =>
      dsimp only at hrun
      have hsome : h.volume.isSome = true := by rw [hvolume]; rfl
      obtain ⟨units, offset, t₁, t₂, hunits, hwrite, hlabel⟩ := exfatSetLabel_eq_ok hset
      rw [if_pos hsome] at hrun
      -- the memory for the new name is there
      have hask : ask Outside.allocVec { h with fs := t, trace := .use h.mounted :: h.trace } =
          .ok true { h with
            fs := t, trace := .use h.mounted :: h.trace, ticks := h.ticks + 1 } := by
        rw [← halloc]
        rfl
      rw [run_bind_ok hask, if_pos rfl, run_bind_ok (run_modify _ _)] at hrun
      cases hrun
      rw [hvolume] at hv
      cases hv
      exact ⟨rfl, hlabel, units, offset, t₁, t₂, hunits, hwrite⟩

/-! ### The three names -/

/-- `add_volume` publishes the label. -/
theorem addVolume_eq_ok {h h' : Handler δ} {v : DeviceList} (hvolume : h.volume = none)
    (hrun : addVolume h = .ok ⟨⟩ h') (hv : h'.volume = some v) :
    v.name = publishedName h.fs.ef.label ∧ h'.fs = h.fs := by
  cases hentry : h.outside.makeDosEntry h.ticks with
  | true =>
    rw [run_addVolume hentry] at hrun
    cases hrun
    cases hv
    exact ⟨rfl, rfl⟩
  | false =>
    have hask : ask Outside.makeDosEntry { h with trace := .use h.mounted :: h.trace } =
        .ok false { h with ticks := h.ticks + 1, trace := .use h.mounted :: h.trace } := by
      rw [← hentry]
      rfl
    have hnote : note (.use h.mounted) h = .ok ⟨⟩ { h with trace := .use h.mounted :: h.trace } :=
      rfl
    unfold addVolume at hrun
    rw [run_bind_ok (run_get h), run_bind_ok hnote, run_bind_ok hask, if_neg (by decide)] at hrun
    cases hrun
    rw [hvolume] at hv
    cases hv

/-- The name `fill_fib` reports for the root directory. -/
theorem fileName_of_fillFib_root {t t' : Volume δ} {i : NodeId} {key : Int} {fib : FileInfoBlock}
    (hrun : fillFib i key true t = .ok fib t') :
    fib.fileName = exfatAmigaNameToBstr 30 t.ef.label := by
  unfold fillFib at hrun
  obtain ⟨n, t₁, hnode, hrest⟩ := run_bind_eq_ok.1 hrun
  unfold getNode at hnode
  cases hheap : t.heap i with
  | none =>
    rw [hheap] at hnode
    cases hnode
  | some n =>
    rw [hheap] at hnode
    cases hnode
    rw [run_bind_ok (run_get t)] at hrest
    cases hrest
    rfl

/-- The volume is published under the name the root directory is listed under, and a relabel gives
the node the name that the next mount will give it, for plain labels and for no others. -/
theorem volumeName_iff [Device δ] :
    (∀ (h h' : Handler δ) (v : DeviceList) (i : NodeId) (key : Int) (fib : FileInfoBlock)
      (t : Volume δ),
      MountedLabel (δ := δ) h.fs.ef.label → h.volume = none → addVolume h = .ok ⟨⟩ h' →
        h'.volume = some v →
      fillFib i key true h'.fs = .ok fib t →
      (v.name.take 30 = fib.fileName ↔ PlainLabel h.fs.ef.label)) ∧
    ∀ (h h' : Handler δ) (name : Bstr) (reply : PacketReply) (v v' : DeviceList),
      doRenameDisk (some name) h = .ok reply h' → reply.res1 = dosTrue → h.volume = some v →
      h.outside.allocVec h.ticks = true → h'.volume = some v' →
      ∃ units label, exfatUtf8ToUtf16 h'.fs.ef.label (enameMax + 1) = .ok units ∧
        FindsLabel (δ := δ) (labelEntry units) label ∧
        (v'.name = publishedName label ↔ PlainLabel name.chars) := by
  constructor
  · intro h h' v i key fib t hmounted hvolume hadd hv hfib
    obtain ⟨hname, hfs⟩ := addVolume_eq_ok hvolume hadd hv
    obtain ⟨wcs, hall, hlabel, hlen, hshort⟩ := hmounted.exists_spelling
    rw [fileName_of_fillFib_root hfib, hfs, hname, hlabel, exfatAmigaNameToBstr_spelling hall,
      List.take_of_length_le (l := wcs) (by unfold enameMax at hlen; omega)]
    exact publishedName_eq_iff hall hlen (by rwa [← hlabel]) le_rfl
  · intro h h' name reply v v' hrun htrue hvolume halloc hv
    obtain ⟨hname, hlabel, units, _, _, _, hunits, -⟩ :=
      doRenameDisk_eq_ok hrun htrue hvolume halloc hv
    obtain ⟨cs, hzero, hlen, rfl, hall⟩ := exists_chars_of_exfatUtf8ToUtf16 hunits
    refine ⟨_, _, ?_, findsLabel_latin cs hzero hlen, ?_⟩
    · rw [hlabel]
      exact hunits
    · rw [hname]
      exact relabelled_eq_iff hzero hlen hall

/-- `"AB"`. -/
def plainName : Bstr := ⟨[0x41, 0x42], by decide⟩

/-- The card before its volume is published. -/
def bareCard : Handler Flat := { cardReady with volume := none }

/-- The card, which has no label, and the card relabelled to `"AB"`. -/
theorem volumeName_iff_card :
    (∃ (h' : Handler Flat) (v : DeviceList) (fib : FileInfoBlock) (t : Volume Flat),
      addVolume bareCard = .ok ⟨⟩ h' ∧ h'.volume = some v ∧
      fillFib 0 0 true h'.fs = .ok fib t ∧ v.name.take 30 ≠ fib.fileName) ∧
    ∃ (h' : Handler Flat) (v : DeviceList) (units : List Nat) (label : List UInt8),
      h'.volume = some v ∧ exfatUtf8ToUtf16 h'.fs.ef.label (enameMax + 1) = .ok units ∧
      FindsLabel (δ := Flat) (labelEntry units) label ∧ v.name = publishedName label := by
  constructor
  -- the card has no label, so the two names differ
  · have htest :
        returns (fun _ h' => h'.volume.isSome && returns (fun _ _ => true) (fillFib 0 0 true h'.fs))
        (addVolume bareCard) = true := by decide +kernel
    obtain ⟨_, h', hadd, htest⟩ := of_returns htest
    obtain ⟨hsome, htest⟩ := Bool.and_eq_true_iff.1 htest
    obtain ⟨v, hv⟩ := Option.isSome_iff_exists.1 hsome
    obtain ⟨fib, t, hfib, -⟩ := of_returns htest
    have hlabel : bareCard.fs.ef.label = [] := by decide +kernel
    exact ⟨h', v, fib, t, hadd, hv, hfib, fun heq =>
      ((volumeName_iff.1 bareCard h' v 0 0 fib t (.inl hlabel) rfl hadd hv hfib).1 heq).1 hlabel⟩
  · have htest : returns (fun reply h' => decide (reply.res1 = dosTrue) && h'.volume.isSome)
        (doRenameDisk (some plainName) cardReady) = true := by decide +kernel
    obtain ⟨reply, h', hrun, htest⟩ := of_returns htest
    obtain ⟨htrue, hsome⟩ := Bool.and_eq_true_iff.1 htest
    obtain ⟨v, hv⟩ := Option.isSome_iff_exists.1 hsome
    have hvolume : cardReady.volume = some { name := untitled } := rfl
    have halloc : cardReady.outside.allocVec cardReady.ticks = true := by decide +kernel
    obtain ⟨units, label, hunits, hfinds, hiff⟩ :=
      volumeName_iff.2 cardReady h' plainName reply _ v hrun
        (of_decide_eq_true htrue) hvolume halloc hv
    exact ⟨h', v, units, label, hv, hunits, hfinds,
      hiff.2 ⟨List.cons_ne_nil _ _, by decide +kernel⟩⟩

/-- `"é"` in the character set of AmigaDOS. -/
def accentName : Bstr := ⟨[0xe9], by decide⟩

/-- The card relabelled to `"é"`: the node has the one character, the next mount publishes two, and
the root directory is listed under the one. -/
theorem volumeName_differs :
    ∃ (reply : PacketReply) (h' h₁ : Handler Flat) (v v₁ : DeviceList) (fib : FileInfoBlock)
    (t : Volume Flat) (units : List Nat) (label : List UInt8),
      doRenameDisk (some accentName) cardReady = .ok reply h' ∧ reply.res1 = dosTrue ∧
        h'.volume = some v ∧
      exfatUtf8ToUtf16 h'.fs.ef.label (enameMax + 1) = .ok units ∧
      FindsLabel (δ := Flat) (labelEntry units) label ∧ h'.fs.ef.label = label ∧
      addVolume { h' with volume := none } = .ok ⟨⟩ h₁ ∧ h₁.volume = some v₁ ∧
      fillFib 0 0 true h₁.fs = .ok fib t ∧ v.name ≠ v₁.name ∧ v₁.name.take 30 ≠ fib.fileName := by
  have htest :
      returns (fun reply h' => decide (reply.res1 = dosTrue ∧ h'.fs.ef.label = [0xc3, 0xa9]) &&
        h'.volume.any fun v => returns (fun _ h₁ => h₁.volume.any fun v₁ =>
          returns (fun fib _ => decide (v.name ≠ v₁.name ∧ v₁.name.take 30 ≠ fib.fileName))
            (fillFib 0 0 true h₁.fs)) (addVolume { h' with volume := none }))
      (doRenameDisk (some accentName) cardReady) = true := by decide +kernel
  obtain ⟨reply, h', hrun, htest⟩ := of_returns htest
  obtain ⟨hdecide, htest⟩ := Bool.and_eq_true_iff.1 htest
  obtain ⟨htrue, hlabel⟩ := of_decide_eq_true hdecide
  obtain ⟨v, hv, htest⟩ := (Option.any_eq_true ..).1 htest
  obtain ⟨_, h₁, hadd, htest⟩ := of_returns htest
  obtain ⟨v₁, hv₁, htest⟩ := (Option.any_eq_true ..).1 htest
  obtain ⟨fib, t, hfib, htest⟩ := of_returns htest
  obtain ⟨hnames, hlisted⟩ := of_decide_eq_true htest
  refine ⟨reply, h', h₁, v, v₁, fib, t, [0xe9], [0xc3, 0xa9], hrun, htrue, hv, ?_,
    findsLabel_latin [0xe9] (by decide) (by decide), hlabel, hadd, hv₁, hfib, hnames, hlisted⟩
  rw [hlabel]
  decide

end ExFat
