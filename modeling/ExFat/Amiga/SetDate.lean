import ExFat.Alloc.Transfer
import ExFat.Amiga.Removal
import ExFat.Fs.EntrySet
import ExFat.Fs.Timestamps
import ExFat.Session.Unmount
import Mathlib.Algebra.Order.BigOperators.Group.List

namespace ExFat

open Bytes Program

/-!
# Dates that are set

A date comes as a `DateStamp`, is kept as a `time_t`, is stored as an exFAT timestamp and comes back
the same way.  `time_t` has 32 bits here, and so have the numbers the handler computes with.  The
values that are stored into such numbers on the way are listed, and none of them overflows.
-/

/-! ### The conversions -/

namespace DateStamp

/-- A date from 1980 on that is a signed `time_t` of 32 bits. -/
structure Storable (ds : DateStamp) : Prop where
  minute : 0 ≤ ds.minute ∧ ds.minute < 1440
  tick : 0 ≤ ds.tick ∧ ds.tick < 3000
  first : 730 ≤ ds.days
  last : (ds.days + 2922) * 86400 + ds.minute * 60 + ds.tick / 50 < 2 ^ 31

/-- The date to the whole second. -/
def wholeSecond (ds : DateStamp) : DateStamp := { ds with tick := ds.tick / 50 * 50 }

end DateStamp

/-- What `exfat_amiga_datestamp_to_time` computes on its way. -/
def datestampToTimeLongs (ds : DateStamp) : List Int :=
  let days := max ds.days 0
  let secs := ds.minute * 60 + ds.tick.tdiv 50
  [days, ds.minute * 60, ds.tick.tdiv 50, secs, days + 2922, (days + 2922) * 86400,
    (days + 2922) * 86400 + secs]

/-- What `exfat_amiga_time_to_datestamp` computes on its way. -/
def timeToDatestampLongs (t : Int) : List Int :=
  let secs := max t 0
  let days := secs.tdiv 86400
  let rest := secs - days * 86400
  [secs, days, days * 86400, rest, days - 2922, rest.tdiv 60, rest.tmod 60, rest.tmod 60 * 50]

/-- What `exfat_unix2exfat` stores into a `time_t` or an `int` on its way. -/
def unix2exfatLongs (tz unixTime : Int) : List Int :=
  let shift := epochDiffSec + tz
  let t := max unixTime shift - shift
  let days := t / secInDay
  let year : Int := uint16 ((4 * days).tdiv (4 * 365 + 1))
  [shift, max unixTime shift, t, days, 4 * days, year * 365 + leapYears year,
    days - (year * 365 + leapYears year)]

/-- What `exfat_exfat2unix` adds to its `time_t`, one after the other. -/
def exfat2unixTerms (date time centisec : Nat) : List Int :=
  let day := date &&& 0x1f
  let month := date >>> 5 &&& 0xf
  let year := date >>> 9
  let twosec := time &&& 0x1f
  let min := time >>> 5 &&& 0x3f
  let hour := time >>> 11
  [year * secInYear + leapYears year * secInDay, daysInYear.getD month 0 * secInDay,
    if isLeapYear year ∧ month > 2 then secInDay else 0, ((day : Int) - 1) * secInDay,
      hour * secInHour,
    min * secInMin, twosec * 2, (centisec / 100 : Nat)]

/-- What its `time_t` is on the way. -/
def exfat2unixLongs (date time centisec : Nat) : List Int :=
  (exfat2unixTerms date time centisec).scanl (· + ·) epochDiffSec

/-- The values a date goes through while it is set, stored, read and examined. -/
def dateLongs (ds : DateStamp) : List Int :=
  let t := exfatAmigaDatestampToTime ds
  let stored := unix2exfat 0 t
  datestampToTimeLongs ds ++ unix2exfatLongs 0 t ++
    exfat2unixLongs stored.date stored.time stored.centisec ++ timeToDatestampLongs t

/-- A number is a signed one of 32 bits. -/
def IsLong (n : Int) : Prop := -2 ^ 31 ≤ n ∧ n < 2 ^ 31

/-- What is added for the fields of a timestamp. -/
theorem exfat2unixTerms_packed {month day min twosec : Nat} (year hour centisec : Nat)
    (hm₂ : month ≤ 12) (hd₂ : day ≤ 31) (hmin : min ≤ 59) (htwosec : twosec ≤ 29) :
    exfat2unixTerms (year * 2 ^ 9 + month * 2 ^ 5 + day)
      (hour * 2 ^ 11 + min * 2 ^ 5 + twosec) centisec =
      [year * secInYear + leapYears year * secInDay, daysInYear.getD month 0 * secInDay,
        if isLeapYear year ∧ month > 2 then secInDay else 0, ((day : Int) - 1) * secInDay,
        hour * secInHour, min * secInMin, twosec * 2, (centisec / 100 : Nat)] := by
  obtain ⟨hd, hm, hy⟩ := dateFields year hm₂ hd₂
  obtain ⟨hs, hi, hh⟩ := timeFields hour hmin htwosec
  unfold exfat2unixTerms
  dsimp only
  rw [hd, hm, hy, hs, hi, hh]

section Storable

variable {ds : DateStamp}

/-- The second a date stands for. -/
def DateStamp.second (ds : DateStamp) : Int :=
  (ds.days + 2922) * 86400 + ds.minute * 60 + ds.tick / 50

namespace DateStamp.Storable

/-- The ticks of a date stamp are not negative. -/
theorem tick_tdiv (h : ds.Storable) : ds.tick.tdiv 50 = ds.tick / 50 :=
  Int.tdiv_eq_ediv_of_nonneg h.tick.1

/-- A date stamp that can be stored is its second. -/
theorem toTime (h : ds.Storable) : exfatAmigaDatestampToTime ds = ds.second := by
  have htick := h.tick_tdiv
  obtain ⟨⟨hm₀, -⟩, ⟨ht₀, -⟩, hfirst, hlast⟩ := h
  unfold exfatAmigaDatestampToTime DateStamp.second
  rw [htick, max_eq_left (by omega), int32_of_lt (by omega) (by omega)]
  omega

/-- A date stamp that can be stored is a time of exFAT, below 2^31. -/
theorem second_bounds (h : ds.Storable) : firstTime 0 ≤ ds.second ∧ ds.second < 2 ^ 31 := by
  obtain ⟨⟨hm₀, -⟩, ⟨ht₀, -⟩, hfirst, hlast⟩ := h
  unfold DateStamp.second firstTime epochDiffSec secInDay secInHour secInMin
  omega

/-- The second is read back as the date. -/
theorem ofTime (h : ds.Storable) : exfatAmigaTimeToDatestamp ds.second = ds.wholeSecond := by
  obtain ⟨hlow, hhigh⟩ := h.second_bounds
  obtain ⟨⟨hm₀, hm₁⟩, ⟨ht₀, ht₁⟩, hfirst, hlast⟩ := h
  have hpos : 0 ≤ ds.second := by
    unfold firstTime epochDiffSec secInDay secInHour secInMin at hlow
    omega
  have hdays : ds.second.tdiv 86400 = ds.days + 2922 := by
    rw [Int.tdiv_eq_ediv_of_nonneg hpos]
    unfold DateStamp.second
    omega
  have hrest : ds.second - (ds.days + 2922) * 86400 = ds.minute * 60 + ds.tick / 50 := by
    unfold DateStamp.second
    omega
  unfold exfatAmigaTimeToDatestamp wholeSecond
  dsimp only
  rw [int32_of_lt hpos hhigh, max_eq_left hpos, hdays, hrest, if_neg (by omega),
    Int.tdiv_eq_ediv_of_nonneg (by omega), Int.tmod_eq_emod_of_nonneg (by omega),
    DateStamp.mk.injEq]
  exact ⟨by omega, by omega, by omega⟩

/-- What is stored of the second is read as the second. -/
theorem exfat2unix (h : ds.Storable) : reread 0 true ds.second = some ds.second := by
  obtain ⟨hlow, hhigh⟩ := h.second_bounds
  have hlast : ds.second ≤ lastTime 0 := by
    unfold lastTime epochDiffSec calendarDays secInDay secInHour secInMin
    omega
  have hzone := @zoneSeconds_zoneByte 0 (by decide) (by decide) (by decide)
  have hkept := (exfat2unix_unix2exfat hlow hlast).1
  rw [hzone] at hkept
  unfold reread
  dsimp only
  rw [if_pos rfl, hkept]
  congr 1
  omega

/-! #### No overflow -/

/-- What `exfat_amiga_datestamp_to_time` computes fits into 32 bits. -/
theorem datestampToTimeLongs (h : ds.Storable) : ∀ n ∈ datestampToTimeLongs ds, IsLong n := by
  have htick := h.tick_tdiv
  obtain ⟨⟨hm₀, hm₁⟩, ⟨ht₀, ht₁⟩, hfirst, hlast⟩ := h
  have hdays : max ds.days 0 = ds.days := max_eq_left (by omega)
  unfold ExFat.datestampToTimeLongs IsLong
  dsimp only
  rw [hdays, htick]
  simp only [List.forall_mem_cons, List.not_mem_nil, false_implies, implies_true, and_true]
  omega

/-- What `exfat_amiga_time_to_datestamp` computes fits into 32 bits. -/
theorem timeToDatestampLongs (h : ds.Storable) :
    ∀ n ∈ timeToDatestampLongs ds.second, IsLong n := by
  obtain ⟨hlow, hhigh⟩ := h.second_bounds
  have hpos : 0 ≤ ds.second := by
    unfold firstTime epochDiffSec secInDay secInHour secInMin at hlow
    omega
  generalize ds.second = t at hlow hhigh hpos
  unfold ExFat.timeToDatestampLongs IsLong
  dsimp only
  rw [max_eq_left hpos, Int.tdiv_eq_ediv_of_nonneg hpos]
  have hrest : 0 ≤ t - t / 86400 * 86400 := by omega
  rw [Int.tdiv_eq_ediv_of_nonneg hrest, Int.tmod_eq_emod_of_nonneg hrest]
  simp only [List.forall_mem_cons, List.not_mem_nil, false_implies, implies_true, and_true]
  omega

/-- What `exfat_unix2exfat` computes fits into 32 bits. -/
theorem unix2exfatLongs (h : ds.Storable) : ∀ n ∈ unix2exfatLongs 0 ds.second, IsLong n := by
  obtain ⟨hlow, hhigh⟩ := h.second_bounds
  generalize ds.second = t at hlow hhigh
  unfold firstTime at hlow
  obtain ⟨s, hs⟩ := Int.eq_ofNat_of_zero_le (show 0 ≤ t - (epochDiffSec + 0) by omega)
  have hsmall : s < 2 ^ 31 := by
    unfold epochDiffSec secInDay secInHour secInMin at hs
    omega
  have hdays : (s : Int) / secInDay = (s / 86400 : Nat) := rfl
  have hyear : uint16 ((4 * ((s / 86400 : Nat) : Int)).tdiv (4 * 365 + 1)) =
      4 * (s / 86400) / 1461 := by
    rw [show (4 * ((s / 86400 : Nat) : Int)).tdiv (4 * 365 + 1) =
      (4 * (s / 86400) / 1461 : Nat) from rfl]
    exact uint16_natCast (by omega)
  unfold ExFat.unix2exfatLongs IsLong
  dsimp only
  rw [max_eq_left hlow, hs, hdays, hyear, leapYears_natCast]
  simp only [List.forall_mem_cons, List.not_mem_nil, false_implies, implies_true, and_true]
  unfold epochDiffSec secInDay secInHour secInMin at *
  omega

/-- The sums of numbers that are not negative are between the first and the last. -/
theorem scanl_bounds {l : List Int} (h : ∀ x ∈ l, 0 ≤ x) (a : Int) :
    ∀ n ∈ l.scanl (· + ·) a, a ≤ n ∧ n ≤ a + l.sum := by
  induction l generalizing a with
  | nil => simp
  | cons x l ih =>
    obtain ⟨hx, hl⟩ := List.forall_mem_cons.1 h
    have hsum : 0 ≤ l.sum := List.sum_nonneg hl
    rw [List.scanl_cons, List.sum_cons]
    refine List.forall_mem_cons.2 ⟨by omega, fun n hn => ?_⟩
    have := ih hl (a + x) n hn
    omega

/-- What `exfat_exfat2unix` computes fits into 32 bits. -/
theorem exfat2unixLongs (h : ds.Storable) :
    ∀ n ∈ exfat2unixLongs (unix2exfat 0 ds.second).date (unix2exfat 0 ds.second).time
      (unix2exfat 0 ds.second).centisec, IsLong n := by
  obtain ⟨hlow, hhigh⟩ := h.second_bounds
  have hlast : ds.second ≤ lastTime 0 := by
    unfold lastTime epochDiffSec calendarDays secInDay secInHour secInMin
    omega
  obtain ⟨year, month, day, hour, min, twosec, hm₁, hm₂, hd₁, hd₂, hhour, hmin,
      htwosec, ht, hstored⟩ :=
    unix2exfat_eq hlow hlast
  -- the odd second is in the hundredths
  have hparity : 0 ≤ (ds.second - firstTime 0) % 2 ∧ (ds.second - firstTime 0) % 2 < 2 := by omega
  generalize (ds.second - firstTime 0) % 2 = parity at hparity ht hstored
  have hfields := exfat2unixTerms_packed year hour (parity.toNat * 100) hm₂ hd₂ hmin htwosec
  rw [hstored]
  unfold ExFat.exfat2unixLongs
  rw [hfields]
  -- all terms are non-negative, so the partial sums lie between the first and the last
  have hterms : ∀ x ∈ [(year : Int) * secInYear + leapYears year * secInDay,
      daysInYear.getD month 0 * secInDay,
      if isLeapYear year ∧ month > 2 then secInDay else 0, ((day : Int) - 1) * secInDay,
      hour * secInHour, min * secInMin, twosec * 2, (parity.toNat * 100 / 100 : Nat)], 0 ≤ x := by
    have hmonth : ∀ m ≤ 12, 0 ≤ daysInYear.getD m 0 := by decide
    have hmonth' := hmonth month hm₂
    simp only [List.forall_mem_cons, List.not_mem_nil, false_implies, implies_true, and_true]
    rw [leapYears_natCast]
    unfold secInYear secInDay secInHour secInMin
    refine ⟨by omega, by omega, ?_, by omega, by omega, by omega, by omega, by omega⟩
    split <;> decide
  intro n hn
  obtain ⟨hn₀, hn₁⟩ := scanl_bounds hterms epochDiffSec n hn
  -- the last one is the time itself
  have hsum : epochDiffSec + [(year : Int) * secInYear + leapYears year * secInDay,
      daysInYear.getD month 0 * secInDay, if isLeapYear year ∧ month > 2 then secInDay else 0,
      ((day : Int) - 1) * secInDay, hour * secInHour, min * secInMin, twosec * 2,
      (parity.toNat * 100 / 100 : Nat)].sum = ds.second := by
    rw [← ht]
    unfold localSeconds dayNumber
    simp only [List.sum_cons, List.sum_nil]
    unfold secInYear secInDay secInHour secInMin
    split <;> omega
  unfold IsLong
  unfold epochDiffSec secInDay secInHour secInMin at hn₀
  omega

end DateStamp.Storable

end Storable

/-! ### Entries in a directory that is all there -/

/-- The directory `d` is in memory, its clusters are `L`, and the bitmap is stored elsewhere.  Times
are local ones on this machine, so that `exfat_timezone` is 0. -/
structure HeldDir (ef : Ef Flat) (d : Node) (L : List Nat) : Prop where
  ready : Ready ef
  file : File ef d L
  isDir : d.isDir = true
  filled : d.validSize = d.size
  zone : ef.timezone = 0
  apart : ∀ c ∈ L, ∀ o, o < ef.sb.clusterSize →
    ¬ (clusterOffset ef.sb ef.cmap.startCluster ≤ clusterOffset ef.sb c + o ∧
      clusterOffset ef.sb c + o <
        clusterOffset ef.sb ef.cmap.startCluster + bmapSize ef.wordBits ef.cmap.chunkSize)

namespace HeldDir

variable {ef ef' : Ef Flat} {d d' : Node} {L : List Nat} {k off : Nat}

/-- A transfer of entries leaves the directory as it is, but for the bytes. -/
theorem step (h : HeldDir ef d L) (hs : FileStep ef d L ef' d' L)
    (hvalid : d'.validSize = d'.size) : HeldDir ef' d' L ∧ ef'.sb = ef.sb := by
  obtain ⟨b, chunk, dirty, errors, ticks, rfl⟩ := hs.upd
  have hdir : d'.isDir = d.isDir := by
    unfold Node.isDir
    rw [hs.kept.attrib]
  exact ⟨⟨hs.ready h.ready, hs.file, hdir.trans h.isDir, hvalid, h.zone, h.apart⟩, rfl⟩

/-- The end of a directory is a 64-bit number, with room for a set behind. -/
theorem size_lt (h : HeldDir ef d L) : d.size + 64 < 2 ^ 64 := by
  have hlen := h.file.chained.length_le
  have hcount := h.ready.layout.count_lt
  have hcs := h.ready.layout.clusterSize_le
  have hsize : d.size ≤ L.length * ef.sb.clusterSize := by
    rw [h.file.length]
    exact le_divRoundUp_mul _ ef.sb.clusterSize_pos
  have hmul : L.length * ef.sb.clusterSize ≤ 2 ^ 32 * 2 ^ 25 := Nat.mul_le_mul (by omega) hcs
  omega

/-- The entries at a place in the directory. -/
def entriesAt (ef : Ef Flat) (L : List Nat) (off k : Nat) : List Entry :=
  splitEntries k (readBytes (content ef.sb ef.dev.bytes L) off (entrySize * k))

/-- `read_entries` reads the entries of the directory. -/
theorem readEntries_run (h : HeldDir ef d L) (hin : off + entrySize * k ≤ d.size) :
    ∃ ef' d', readEntries k off ⟨ef, d⟩ = .ok (.ok (entriesAt ef L off k)) ⟨ef', d'⟩ ∧
      HeldDir ef' d' L ∧ ef'.sb = ef.sb ∧ d'.size = d.size ∧ ef'.dev.bytes = ef.dev.bytes := by
  have hlt := h.size_lt
  obtain ⟨ef', d', hrun, hstep, -, hsize, hvalid, hbytes⟩ :=
    exfatGenericPread_run h.ready h.file h.filled (entrySize * k) off (by omega)
  obtain ⟨hheld, hsb⟩ := h.step hstep (by rw [hvalid, hsize, h.filled])
  refine ⟨ef', d', ?_, hheld, hsb, hsize, hbytes⟩
  rw [Nat.min_eq_left (by omega)] at hrun
  unfold readEntries
  rw [run_bind_ok (run_get _), h.isDir, if_neg (by decide), run_bind_ok hrun]
  dsimp only
  rw [if_pos rfl]
  rfl

/-- A write that ends within the directory. -/
theorem exfatGenericPwrite_inside (h : HeldDir ef d L) {data : List UInt8}
    (hin : off + data.length ≤ d.size) :
    exfatGenericPwrite data off ⟨ef, d⟩ = pwriteValid data off ⟨ef, d⟩ := by
  have hlt := h.size_lt
  have hu64 : u64 (off + data.length) = off + data.length := Nat.mod_eq_of_lt (by omega)
  have hnat : (off : Int).toNat = off := rfl
  unfold exfatGenericPwrite
  rw [run_bind_ok (run_get _), if_neg (by omega)]
  dsimp only
  rw [hnat, if_neg (by omega)]
  unfold pwriteExtend
  rw [run_bind_ok (run_get _), hu64, if_neg (by dsimp only; omega)]

/-- `write_entries` writes the entries of the directory. -/
theorem writeEntries_run (h : HeldDir ef d L) {es : List Entry}
    (hlen : es.flatten.length = entrySize * es.length) (hin : off + es.flatten.length ≤ d.size) :
    ∃ ef' d', writeEntries es off ⟨ef, d⟩ = .ok (.ok ()) ⟨ef', d'⟩ ∧
      HeldDir ef' d' L ∧ ef'.sb = ef.sb ∧
      content ef'.sb ef'.dev.bytes L = writeBytes
        (content ef.sb ef.dev.bytes L) off es.flatten := by
  obtain ⟨ef', d', hrun, hstep, -, hsize, hvalid, hcontent⟩ :=
    pwriteValid_run h.ready h.file es.flatten off hin
  have hfilled := h.filled
  have hvalid' : d'.validSize = d'.size := by
    rw [hvalid, hsize]
    split <;> omega
  obtain ⟨hheld, hsb⟩ := h.step hstep hvalid'
  refine ⟨ef', d', ?_, hheld, hsb, by rw [hsb]; exact hcontent⟩
  unfold writeEntries
  rw [run_bind_ok (run_get _), h.isDir, if_neg (by decide),
    run_bind_ok ((h.exfatGenericPwrite_inside hin).trans hrun)]
  dsimp only
  rw [if_pos hlen]
  rfl

/-- Writing the bitmap leaves the directory as it is. -/
theorem content_exfatFlush (h : HeldDir ef d L) {r : Rc} (hrun : exfatFlush ef = .ok r ef') :
    content ef'.sb ef'.dev.bytes L = content ef.sb ef.dev.bytes L := by
  cases hdirty : ef.cmap.dirty with
  | false =>
    rw [exfatFlush_clean hdirty] at hrun
    cases hrun
    rfl
  | true =>
    have hstart : ¬ ef.cmap.startCluster < 2 := by
      intro hlt
      rw [exfatFlush_bug hdirty hlt] at hrun
      cases hrun
    rw [exfatFlush_write hdirty (Nat.le_of_not_lt hstart)] at hrun
    cases hrun
    show content ef.sb (writeBytes ef.dev.bytes (clusterOffset ef.sb ef.cmap.startCluster)
        (bitmapBytes ef)) L = _
    refine content_congr fun c hc o ho => ?_
    have hlen : (bitmapBytes ef).length = bmapSize ef.wordBits ef.cmap.chunkSize := by
      unfold bitmapBytes
      rw [List.length_map, List.length_range]
    have hout := h.apart c hc o ho
    exact writeBytes_outside (by rw [hlen]; omega)

end HeldDir

/-! ### The set that is written -/

/-- The time that is written into the first entry is the one that is read from it. -/
theorem mtimeUnix_flushMeta1 (n : Node) {e : Entry} (he : e.length = entrySize) (sum : Nat) :
    (Entry.set (flushMeta1 0 n e) 2 2 sum).mtimeUnix 0 = (reread 0 true n.mtime).getD 0 := by
  let m := unix2exfat 0 n.mtime
  let a := unix2exfat 0 n.atime
  -- the fields that are written do not overlap
  have hset : Entry.set (flushMeta1 0 n e) 2 2 sum = e.setFields
      [(4, 2, n.attrib), (21, 1, m.centisec),
      (23, 1, m.tzoffset), (14, 2, m.date), (12, 2, m.time), (24, 1, a.tzoffset), (18, 2, a.date),
      (16, 2, a.time), (2, 2, sum)] := rfl
  have hfit : ∀ f ∈ [(4, 2, n.attrib), (21, 1, m.centisec), (23, 1, m.tzoffset), (14, 2, m.date),
      (12, 2, m.time), (24, 1, a.tzoffset), (18, 2, a.date), (16, 2, a.time), (2, 2, sum)],
      f.1 + f.2.1 ≤ entrySize := by
    simp only [List.forall_mem_cons, entrySize]
    simp
  -- so each is read back as it was written
  have hread : ∀ off k v, (off, k, v) ∈ [(4, 2, n.attrib), (21, 1, m.centisec), (23, 1, m.tzoffset),
      (14, 2, m.date), (12, 2, m.time), (24, 1, a.tzoffset), (18, 2, a.date),
      (16, 2, a.time), (2, 2, sum)] →
      v < 256 ^ k → leAt (Entry.set (flushMeta1 0 n e) 2 2 sum) off k = v := by
    intro off k v hmem hv
    rw [hset]
    refine (Entry.leAt_setFields (f := (off, k, v)) he hfit ?_ hmem).trans (Nat.mod_eq_of_lt hv)
    simp
  have hdate : m.date < 256 ^ 2 := Nat.mod_lt _ (by decide)
  have htime : m.time < 256 ^ 2 := Nat.mod_lt _ (by decide)
  have hcentisec : m.centisec < 256 ^ 1 := by
    show (_ % 2 : Int).toNat * 100 < 256 ^ 1
    omega
  have hzone : m.tzoffset < 256 ^ 1 := by
    show _ ||| 0x80 < 2 ^ 8
    exact Nat.or_lt_two_pow (by omega) (by decide)
  -- the four that make up the modification time
  unfold Entry.mtimeUnix Entry.mdate Entry.mtime Entry.mtimeCs Entry.mtimeTzo
  rw [hread 14 2 m.date (by simp) hdate, hread 12 2 m.time (by simp) htime,
    hread 21 1 m.centisec (by simp) hcentisec, hread 23 1 m.tzoffset (by simp) hzone]
  rfl

/-- The buffer is split into whole entries. -/
theorem length_of_mem_splitEntries {k : Nat} {buffer : List UInt8}
    (h : buffer.length = entrySize * k) : ∀ e ∈ splitEntries k buffer, e.length = entrySize := by
  intro e he
  obtain ⟨i, hi, rfl⟩ := List.mem_map.1 he
  have hle : entrySize * (i + 1) ≤ entrySize * k := Nat.mul_le_mul_left _ (List.mem_range.1 hi)
  rw [List.length_take, List.length_drop, h]
  rw [Nat.mul_succ] at hle
  omega

/-- Whole entries have 32 bytes each. -/
theorem length_flatten_eq {es : List Entry} (h : ∀ e ∈ es, e.length = entrySize) :
    es.flatten.length = entrySize * es.length := by
  induction es with
  | nil => rfl
  | cons e es ih =>
    obtain ⟨he, hes⟩ := List.forall_mem_cons.1 h
    rw [List.flatten_cons, List.length_append, he, ih hes, List.length_cons, Nat.mul_succ]
    omega

/-- Entries that were put into a buffer are found in it. -/
theorem splitEntries_flatten {es : List Entry} (h : ∀ e ∈ es, e.length = entrySize) :
    splitEntries es.length es.flatten = es := by
  induction es with
  | nil => rfl
  | cons e es ih =>
    obtain ⟨he, hes⟩ := List.forall_mem_cons.1 h
    have hrest := ih hes
    unfold splitEntries at hrest ⊢
    rw [List.length_cons, List.range_succ_eq_map, List.map_cons, List.map_map, List.flatten_cons]
    congr 1
    · rw [Nat.mul_zero, List.drop_zero, ← he, List.take_left]
    · conv_rhs => rw [← hrest]
      refine List.map_congr_left fun i _ => ?_
      have hoff : entrySize * (i + 1) = e.length + entrySize * i := by
        rw [he, Nat.mul_succ, Nat.add_comm]
      show (List.drop (entrySize * (i + 1)) _).take entrySize = _
      rw [hoff, ← List.drop_drop, List.drop_left]

/-- The first entry stays an entry. -/
theorem length_flushMeta1_eq (tz : Int) (n : Node) {e : Entry} (he : e.length = entrySize) :
    (flushMeta1 tz n e).length = entrySize := by
  unfold flushMeta1
  refine length_setFields_eq he ?_
  simp only [List.forall_mem_cons, entrySize]
  simp

/-- The second entry stays an entry. -/
theorem length_flushMeta2_eq (n : Node) {e : Entry} (he : e.length = entrySize) :
    (flushMeta2 n e).length = entrySize := by
  unfold flushMeta2
  refine length_setFields_eq he ?_
  simp only [List.forall_mem_cons, entrySize]
  simp

/-- The entries of a set with its checksum are whole entries. -/
theorem length_of_mem_sealEntries {es : List Entry} (h : ∀ e ∈ es, e.length = entrySize) :
    ∀ e ∈ sealEntries es, e.length = entrySize := by
  cases es with
  | nil => exact h
  | cons meta1 rest =>
    obtain ⟨h₁, hrest⟩ := List.forall_mem_cons.1 h
    unfold sealEntries
    exact List.forall_mem_cons.2 ⟨length_set_eq _ h₁ (by decide), hrest⟩

/-- The entries that are written back are whole entries. -/
theorem length_of_mem_flushedEntries (tz : Int) (n : Node) {es : List Entry}
    (h : ∀ e ∈ es, e.length = entrySize) : ∀ e ∈ flushedEntries tz n es, e.length = entrySize := by
  cases es with
  | nil => exact h
  | cons meta1 rest =>
    cases rest with
    | nil => exact h
    | cons meta2 rest =>
      obtain ⟨h₁, hrest⟩ := List.forall_mem_cons.1 h
      obtain ⟨h₂, hrest⟩ := List.forall_mem_cons.1 hrest
      refine length_of_mem_sealEntries (List.forall_mem_cons.2 ⟨length_flushMeta1_eq tz n h₁, ?_⟩)
      exact List.forall_mem_cons.2 ⟨length_flushMeta2_eq n h₂, hrest⟩

/-- As many entries are written back as have been read. -/
theorem length_flushedEntries (tz : Int) (n : Node) (es : List Entry) :
    (flushedEntries tz n es).length = es.length := by
  unfold flushedEntries
  split
  · rw [length_sealEntries, List.length_cons, List.length_cons, List.length_cons, List.length_cons]
  · rfl

/-! ### The node is written back -/

section WriteBack

variable {t t' : Volume Flat} {i dir : NodeId} {n d : Node} {L : List Nat}

/-- A set that `check_entries` accepts has two entries at least. -/
theorem two_of_checkTransitions {es : List Entry}
    (h : checkTransitions entryNone (es.map Entry.type) = true) :
    ∃ meta1 meta2 rest, es = meta1 :: meta2 :: rest := by
  cases es with
  | nil => exact absurd h (by decide)
  | cons meta1 rest =>
    cases rest with
    | nil =>
      obtain ⟨rest, htypes, -⟩ := checkTransitions_begin h
      exact absurd (List.cons.inj htypes).2 (List.cons_ne_nil _ _).symm
    | cons meta2 rest => exact ⟨meta1, meta2, rest, rfl⟩

/-- Changing a node in memory leaves the volume alone. -/
theorem ef_of_updateNode {f : Node → Node} {a : PUnit} (h : updateNode i f t = .ok a t') :
    t'.ef = t.ef := by
  have hsame := sameEf_updateNode i f t
  unfold wp at hsame
  rw [h] at hsame
  exact hsame

/-- The set is rewritten as it was found, with the fields of the node. -/
theorem rewriteEntries_run (hdir : t.heap dir = some d) (h : HeldDir t.ef d L)
    (hin : n.entryOffset + entrySize * (1 + n.continuations) ≤ d.size)
    (hrun : rewriteEntries dir n t = .ok (.ok ()) t') :
    ∃ d' meta1 meta2 rest, HeldDir t'.ef d' L ∧
      (∀ e ∈ meta1 :: meta2 :: rest, e.length = entrySize) ∧
      HeldDir.entriesAt t'.ef L n.entryOffset (1 + n.continuations) =
        flushedEntries 0 n (meta1 :: meta2 :: rest) := by
  obtain ⟨ef₁, d₁, hread, h₁, hsb₁, hsize₁, -⟩ := h.readEntries_run hin
  have hall : ∀ e ∈ HeldDir.entriesAt t.ef L n.entryOffset (1 + n.continuations),
      e.length = entrySize :=
    length_of_mem_splitEntries (length_readBytes ..)
  have hcount : (HeldDir.entriesAt t.ef L n.entryOffset (1 + n.continuations)).length =
      1 + n.continuations := by
    -- the entries are cut out of the content of the directory
    unfold HeldDir.entriesAt splitEntries
    rw [List.length_map, List.length_range]
  generalize HeldDir.entriesAt t.ef L n.entryOffset (1 + n.continuations) = es at hread hall hcount
  unfold rewriteEntries at hrun
  rw [run_bind_ok (run_onNode hdir hread)] at hrun
  dsimp only at hrun
  -- Only a set that `check_entries` accepts is rewritten.
  cases hcheck : checkTransitions entryNone (es.map Entry.type) with
  | false =>
    have hno : onVolume (checkEntries es) (t.store dir ⟨ef₁, d₁⟩) =
        .ok false { t.store dir ⟨ef₁, d₁⟩ with ef := { ef₁ with errors := ef₁.errors + 1 } } := by
      refine run_onVolume_ok ?_
      unfold checkEntries
      rw [hcheck]
      rfl
    rw [run_bind_ok hno] at hrun
    cases hrun
  | true =>
    obtain ⟨meta1, meta2, rest, rfl⟩ := two_of_checkTransitions hcheck
    have hyes : onVolume (checkEntries (meta1 :: meta2 :: rest)) (t.store dir ⟨ef₁, d₁⟩) =
        .ok true (t.store dir ⟨ef₁, d₁⟩) := by
      refine run_onVolume_ok ?_
      unfold checkEntries
      rw [hcheck]
      rfl
    have hflushed := length_of_mem_flushedEntries 0 n hall
    have hlen := (length_flushedEntries 0 n (meta1 :: meta2 :: rest)).trans hcount
    have hflat := length_flatten_eq hflushed
    -- it is as long as before, so it stays within the directory
    have hfit : n.entryOffset + (flushedEntries 0 n (meta1 :: meta2 :: rest)).flatten.length ≤
        d₁.size := by
      rw [hflat, hlen, hsize₁]
      exact hin
    obtain ⟨ef₂, d₂, hwrite, h₂, hsb₂, hcontent⟩ := h₁.writeEntries_run hflat hfit
    have hzone : (t.store dir ⟨ef₁, d₁⟩).ef.timezone = 0 := h₁.zone
    rw [run_bind_ok hyes, if_neg (by decide), run_bind_ok (run_get _), hzone,
      run_onNode (store_heap_self t dir _) hwrite] at hrun
    cases hrun
    refine ⟨d₂, meta1, meta2, rest, h₂, hall, ?_⟩
    show splitEntries _ (readBytes (content ef₂.sb ef₂.dev.bytes L) _ _) = _
    rw [hcontent, ← hlen, ← hflat, readBytes_writeBytes_self, splitEntries_flatten hflushed]

/-- What `exfat_flush_node` leaves in the directory. -/
theorem exfatFlushNode_entries (hi : t.heap i = some n) (hdirty : n.isDirty = true)
    (hp : n.parent = some dir) (hdir : t.heap dir = some d) (h : HeldDir t.ef d L)
    (hin : n.entryOffset + entrySize * (1 + n.continuations) ≤ d.size)
    (hrun : exfatFlushNode i t = .ok (.ok ()) t') :
    ∃ meta1 meta2 rest, (∀ e ∈ meta1 :: meta2 :: rest, e.length = entrySize) ∧
      HeldDir.entriesAt t'.ef L n.entryOffset (1 + n.continuations) =
        flushedEntries 0 n (meta1 :: meta2 :: rest) := by
  -- a read-only volume has no dirty nodes
  have hro : t.ef.ro = false := by
    cases hro : t.ef.ro with
    | false => rfl
    | true =>
      rw [exfatFlushNode_ro hi hdirty hro] at hrun
      cases hrun
  rw [exfatFlushNode_dirty hi hdirty hro hp] at hrun
  cases hwrite : rewriteEntries dir n t with
  | error e t₁ =>
    rw [hwrite] at hrun
    cases hrun
  | ok r t₁ =>
    rw [hwrite] at hrun
    cases r with
    | error e => cases hrun
    | ok _ =>
      obtain ⟨d', meta1, meta2, rest, h', hall, hentries⟩ := rewriteEntries_run hdir h hin hwrite
      refine ⟨meta1, meta2, rest, hall, ?_⟩
      -- clearing the mark and flushing the bitmap leave the entries alone
      unfold settle at hrun
      obtain ⟨_, t₂, hclear, hrun⟩ := run_bind_eq_ok.1 hrun
      have hef := ef_of_updateNode hclear
      obtain ⟨ef₃, hflush, rfl⟩ := run_onVolume_eq_ok hrun
      rw [hef] at hflush
      unfold HeldDir.entriesAt at hentries ⊢
      rw [← hentries]
      exact congrArg (fun b => splitEntries _ (readBytes b _ _)) (h'.content_exfatFlush hflush)

end WriteBack

/-! ### The packet -/

section Packet

variable {h h₁ h' : Handler Flat} {i dir : NodeId} {n d : Node} {L : List Nat}

/-- A call of the library that returned. -/
theorem run_useFs_eq_ok {α : Type} {m : TreeM Flat α} {a : α} (hrun : useFs m h = .ok a h') :
    ∃ t, m h.fs = .ok a t ∧ h'.fs = t := by
  cases hm : m h.fs with
  | ok a' t =>
    rw [run_useFs hm] at hrun
    cases hrun
    exact ⟨t, rfl, rfl⟩
  | error e t =>
    have herror : useFs m h = .error e { h with fs := t, trace := .use h.mounted :: h.trace } := by
      unfold useFs
      rw [run_bind_ok (run_get h)]
      have hnote : note (.use h.mounted) h = .ok ⟨⟩ { h with trace := .use h.mounted :: h.trace } :=
        rfl
      rw [run_bind_ok hnote]
      exact run_zoom_error hm
    rw [herror] at hrun
    cases hrun

/-- `exfat_put_node` leaves the volume alone. -/
theorem ef_of_exfatPutNode {t t' : Volume Flat} {a : PUnit} (hrun : exfatPutNode i t = .ok a t') :
    t'.ef = t.ef := by
  have hsame := sameEf_exfatPutNode i t
  unfold wp at hsame
  rw [hrun] at hsame
  exact hsame

/-- The node with the time a date stands for. -/
def Node.dated (n : Node) (ds : DateStamp) : Node :=
  { n with mtime := exfatAmigaDatestampToTime ds, isDirty := true }

/-- A date has been set: the set of the object holds the time. -/
theorem doSetDate_entries {lock : Option LockId} {name : Bstr} {ds : DateStamp}
    {reply : PacketReply} (hlookup : lookupArg23 lock name h = .ok (.ok i) h₁)
    (hi : h₁.fs.heap i = some n) (hp : n.parent = some dir) (hne : dir ≠ i)
    (hdir : h₁.fs.heap dir = some d) (hheld : HeldDir h₁.fs.ef d L)
    (hin : n.entryOffset + entrySize * (1 + n.continuations) ≤ d.size)
    (hrun : doSetDate lock name (some ds) h = .ok reply h') (htrue : reply.res1 = dosTrue) :
    ∃ meta1 meta2 rest, (∀ e ∈ meta1 :: meta2 :: rest, e.length = entrySize) ∧
      HeldDir.entriesAt h'.fs.ef L n.entryOffset (1 + n.continuations) =
        flushedEntries 0 (n.dated ds) (meta1 :: meta2 :: rest) := by
  -- `dosTrue` is answered at the end only
  have hrefused : ∀ {e : DosError} {g : Handler Flat}, refuse e g ≠ .ok reply h' := by
    intro e g hrefuse
    cases hrefuse
    exact absurd (show dosFalse = dosTrue from htrue) (by decide)
  unfold doSetDate at hrun
  rw [run_bind_ok (run_get h)] at hrun
  -- the volume is read-only, or the date is set, flushed and the node put
  cases hro : h.fs.ef.ro with
  | true =>
    rw [hro, if_pos rfl] at hrun
    exact absurd hrun hrefused
  | false =>
    rw [hro, if_neg (by decide)] at hrun
    dsimp only at hrun
    rw [run_bind_ok hlookup] at hrun
    dsimp only at hrun
    rw [run_bind_ok (run_useFs (run_updateNode hi _))] at hrun
    unfold flushAndPut at hrun
    obtain ⟨rc, h₃, huse₃, hrun⟩ := run_bind_eq_ok.1 hrun
    obtain ⟨_, h₄, huse₄, hrun⟩ := run_bind_eq_ok.1 hrun
    cases rc with
    | error e => exact absurd hrun hrefused
    | ok _ =>
      obtain ⟨t₃, hflush, ht₃⟩ := run_useFs_eq_ok huse₃
      obtain ⟨t₄, hput, ht₄⟩ := run_useFs_eq_ok huse₄
      have hef : h'.fs.ef = t₃.ef := by
        cases hrun
        rw [ht₄, ef_of_exfatPutNode hput, ht₃]
      rw [hef]
      have hdir' : (h₁.fs.store i ⟨h₁.fs.ef, n.dated ds⟩).heap dir = some d :=
        (store_heap_of_ne _ hne).trans hdir
      exact exfatFlushNode_entries (n := n.dated ds) (store_heap_self h₁.fs i _)
        rfl hp hdir' hheld hin hflush

end Packet

/-! ### The object is examined -/

section Examine

variable {ef : Ef Flat} {d m : Node} {L : List Nat} {off k : Nat}

/-- A node that is made of the entries of a directory has the time of the first one. -/
theorem mtime_of_parseFileEntry {s : FileState Flat} (h : HeldDir ef d L) (hk : 0 < k)
    (hrun : parseFileEntry off k ⟨ef, d⟩ = .ok (.ok m) s) :
    m.mtime = ((HeldDir.entriesAt ef L off k).getD 0 []).mtimeUnix 0 := by
  unfold parseFileEntry at hrun
  obtain ⟨r, s₁, hread, hrun⟩ := run_bind_eq_ok.1 hrun
  cases r with
  | error e => cases hrun
  | ok entries =>
    -- a set that could be read lies within the directory
    have hinside := inside_readEntries k off ⟨ef, d⟩
    unfold wp at hinside
    rw [hread] at hinside
    obtain ⟨hsize, -, -⟩ := hinside entries rfl
    have hin : off + entrySize * k ≤ d.size := by
      have hpos : 0 < entrySize * k := Nat.mul_pos (by decide) hk
      dsimp only at hsize
      omega
    obtain ⟨ef₁, d₁, hread', h₁, -⟩ := h.readEntries_run hin
    rw [hread'] at hread
    cases hread
    dsimp only at hrun
    obtain ⟨ok, s₂, hon₂, hrun⟩ := run_bind_eq_ok.1 hrun
    obtain ⟨ef₂, halloc, rfl⟩ := run_onEf_eq_ok hon₂
    -- allocating the node does not change the time zone
    have hzone : ef₂.timezone = 0 := by
      unfold allocateNode at halloc
      rw [run_bind_ok (run_mallocOk _)] at halloc
      refine Eq.trans ?_ h₁.zone
      split at halloc <;> cases halloc <;> rfl
    cases ok with
    | false => cases hrun
    | true =>
      rw [if_neg (by decide)] at hrun
      obtain ⟨r, s₃, hon₃, hrun⟩ := run_bind_eq_ok.1 hrun
      obtain ⟨ef₃, hnode, rfl⟩ := run_onEf_eq_ok hon₃
      unfold withNode at hnode
      cases hparse : parseFileEntries (HeldDir.entriesAt ef L off k)
        ⟨ef₂, { entryOffset := off }⟩ with
      | error e s =>
        dsimp only at hnode
        rw [hparse] at hnode
        cases hnode
      | ok rc s =>
        dsimp only at hnode
        rw [hparse] at hnode
        cases hnode
        cases rc with
        | error e => cases hrun
        | ok _ =>
          cases hrun
          rw [← hzone]
          exact mtime_of_parseFileEntries hparse

/-- `fill_fib` shows the time of the last change. -/
theorem date_of_fillFib {t t' : Volume Flat} {j : NodeId} {key : Int} {isRoot : Bool}
    {fib : FileInfoBlock} (hj : t.heap j = some m) (hrun : fillFib j key isRoot t = .ok fib t') :
    fib.date = exfatAmigaTimeToDatestamp m.mtime := by
  unfold fillFib at hrun
  rw [run_bind_ok (run_getNode hj), run_bind_ok (run_get t)] at hrun
  obtain ⟨name, t₁, -, hrun⟩ := run_bind_eq_ok.1 hrun
  cases hrun
  rfl

end Examine

/-! ### A date that is set is found again -/

/-- The date of an object that has a set of entries is found again, to the second, in any later
state of the volume whose directory has the same entries at its place, and no number overflows on
the way. -/
theorem setDate_examined {h h₁ h' : Handler Flat} {lock : Option LockId}
    {name : Bstr} {ds : DateStamp} {reply : PacketReply} {i dir j : NodeId} {n d d₂ m : Node}
    {L L₂ : List Nat} {ef₂ : Ef Flat} {s : FileState Flat} {t t' : Volume Flat} {key : Int}
    {isRoot : Bool} {fib : FileInfoBlock} (hds : ds.Storable)
    -- the object is in a directory
    (hlookup : lookupArg23 lock name h = .ok (.ok i) h₁) (hi : h₁.fs.heap i = some n)
    (hp : n.parent = some dir) (hne : dir ≠ i) (hdir : h₁.fs.heap dir = some d)
    (hheld : HeldDir h₁.fs.ef d L)
    (hin : n.entryOffset + entrySize * (1 + n.continuations) ≤ d.size)
    -- its date is set
    (hrun : doSetDate lock name (some ds) h = .ok reply h') (htrue : reply.res1 = dosTrue)
    -- the directory is read later
    (hheld₂ : HeldDir ef₂ d₂ L₂)
    (hsame : HeldDir.entriesAt ef₂ L₂ n.entryOffset (1 + n.continuations) =
      HeldDir.entriesAt h'.fs.ef L n.entryOffset (1 + n.continuations))
    (hparse : parseFileEntry n.entryOffset (1 + n.continuations) ⟨ef₂, d₂⟩ = .ok (.ok m) s)
    -- and the object examined
    (hj : t.heap j = some m) (hexamine : fillFib j key isRoot t = .ok fib t') :
    fib.date = ds.wholeSecond ∧ ∀ v ∈ dateLongs ds, IsLong v := by
  obtain ⟨meta1, meta2, rest, hall, hentries⟩ :=
    doSetDate_entries hlookup hi hp hne hdir hheld hin hrun htrue
  -- the time that is read is the one that was written
  have hm : m.mtime = ds.second := by
    rw [mtime_of_parseFileEntry hheld₂ (by omega) hparse, hsame, hentries]
    unfold flushedEntries sealEntries
    rw [List.getD_cons_zero, mtimeUnix_flushMeta1 _ (hall meta1 List.mem_cons_self)]
    show (reread 0 true (exfatAmigaDatestampToTime ds)).getD 0 = _
    rw [hds.toTime, hds.exfat2unix]
    rfl
  refine ⟨by rw [date_of_fillFib hj hexamine, hm, hds.ofTime], ?_⟩
  -- each step of the way is computed in 32 bits
  unfold dateLongs
  dsimp only
  rw [hds.toTime]
  intro v hv
  rcases List.mem_append.1 hv with hv | hv
  · rcases List.mem_append.1 hv with hv | hv
    · rcases List.mem_append.1 hv with hv | hv
      · exact hds.datestampToTimeLongs v hv
      · exact hds.unix2exfatLongs v hv
    · exact hds.exfat2unixLongs v hv
  · exact hds.timeToDatestampLongs v hv

/-- A directory of one cluster that is all there. -/
def OneCluster (ef : Ef Flat) (d : Node) (c : Nat) : Prop :=
  (9 ≤ ef.sb.sectorBits ∧ ef.sb.sectorBits + ef.sb.spcBits ≤ 25 ∧
    ef.sb.clusterCount + 1 ≤ lastDataCluster ∧
    fatOffset ef.sb (ef.sb.clusterCount + firstDataCluster) ≤
      clusterOffset ef.sb firstDataCluster) ∧
  (0 < ef.wordBits ∧ ef.cmap.chunkSize = ef.sb.clusterCount ∧ ef.cmap.size = ef.sb.clusterCount) ∧
  (d.startCluster = c ∧ d.fptrIndex = 0 ∧ d.fptrCluster = c ∧ ef.sb.clusterInvalid c = false ∧
    ef.cmap.chunk (c - 2) = true) ∧
  (d.size = ef.sb.clusterSize ∧ d.validSize = d.size ∧ d.isDir = true ∧ ef.timezone = 0) ∧
  (clusterOffset ef.sb ef.cmap.startCluster + bmapSize ef.wordBits ef.cmap.chunkSize ≤
    clusterOffset ef.sb c ∨
    clusterOffset ef.sb c + ef.sb.clusterSize ≤ clusterOffset ef.sb ef.cmap.startCluster)

instance (ef : Ef Flat) (d : Node) (c : Nat) : Decidable (OneCluster ef d c) :=
  inferInstanceAs (Decidable (_ ∧ _))

/-- A directory of one cluster is sound. -/
theorem OneCluster.held {ef : Ef Flat} {d : Node} {c : Nat} (h : OneCluster ef d c) :
    HeldDir ef d [c] := by
  obtain ⟨⟨hsector, hcluster, hlimit, hroom⟩, ⟨hword, hchunk, hsize⟩,
      ⟨hstart, hindex, hfptr, hvalid, htaken⟩,
    ⟨hd, hfilled, hdir, hzone⟩, hapart⟩ := h
  have hpos := ef.sb.clusterSize_pos
  have hone : divRoundUp d.size ef.sb.clusterSize = 1 := by
    rw [hd]
    unfold divRoundUp
    rw [Nat.div_eq_of_lt_le] <;> omega
  refine ⟨⟨⟨hsector, hcluster, hlimit, hroom⟩, hword, hchunk, hsize⟩,
    ⟨?_, ?_, hone.symm, hfilled.le⟩, hdir,
    hfilled, hzone, ?_⟩
  · refine ⟨⟨hstart.symm, trivial⟩, ?_, List.nodup_singleton c,
      .inl ⟨hindex, hfptr.trans hstart.symm⟩, nofun⟩
    intro x hx
    rw [List.mem_singleton.1 hx]
    exact hvalid
  · intro x hx
    rw [List.mem_singleton.1 hx]
    exact htaken
  · intro x hx o ho
    rw [List.mem_singleton.1 hx]
    omega

/-- 29 February 2024, 12:34:56 and a half. -/
def leapDate : DateStamp := ⟨16860, 754, 2825⟩

/-- The date of the file on the card is set and examined. -/
theorem setDate_examined_card : ∃ (reply : PacketReply) (h' : Handler Flat) (t t' : Volume Flat)
    (fib : FileInfoBlock), doSetDate none nameA (some leapDate) lockedA = .ok reply h' ∧
      fillFib 1 0 false t = .ok fib t' ∧ fib.date = ⟨16860, 754, 2800⟩ ∧
      ∀ v ∈ dateLongs leapDate, IsLong v := by
  have hds : leapDate.Storable := ⟨by decide, by decide, by decide, by decide⟩
  have htest : returns (fun r h₁ => decide (r = .ok 1) && (h₁.fs.heap 1).any fun n =>
    (h₁.fs.heap 0).any fun d =>
      decide (n.parent = some 0 ∧ OneCluster h₁.fs.ef d 4 ∧
        n.entryOffset + entrySize * (1 + n.continuations) ≤ d.size) &&
      returns (fun reply h' => decide (reply.res1 = dosTrue) && (h'.fs.heap 0).any fun d' =>
        decide (OneCluster h'.fs.ef d' 4) &&
        returns (fun m _ => m.toOption.any fun m =>
            returns (fun _ _ => true) (fillFib 1 0 false { h'.fs with heap := fun _ => some m }))
          (parseFileEntry n.entryOffset (1 + n.continuations) ⟨h'.fs.ef, d'⟩))
        (doSetDate none nameA (some leapDate) lockedA))
          (lookupArg23 none nameA lockedA) = true := by
    decide +kernel
  obtain ⟨r, h₁, hlookup, htest⟩ := of_returns htest
  obtain ⟨hr, htest⟩ := Bool.and_eq_true_iff.1 htest
  obtain ⟨n, hi, htest⟩ := (Option.any_eq_true ..).1 htest
  obtain ⟨d, hdir, htest⟩ := (Option.any_eq_true ..).1 htest
  obtain ⟨hnode, htest⟩ := Bool.and_eq_true_iff.1 htest
  obtain ⟨hp, hone, hin⟩ := of_decide_eq_true hnode
  obtain ⟨reply, h', hrun, htest⟩ := of_returns htest
  obtain ⟨htrue, htest⟩ := Bool.and_eq_true_iff.1 htest
  obtain ⟨d', -, htest⟩ := (Option.any_eq_true ..).1 htest
  obtain ⟨hone', htest⟩ := Bool.and_eq_true_iff.1 htest
  obtain ⟨parsed, s, hparse, htest⟩ := of_returns htest
  obtain ⟨m, hm, htest⟩ := (Option.any_eq_true ..).1 htest
  obtain ⟨fib, t', hfib, -⟩ := of_returns htest
  cases of_decide_eq_true hr
  cases parsed with
  | error e => cases hm
  | ok m =>
    cases hm
    exact ⟨reply, h', _, t', fib, hrun, hfib, setDate_examined hds hlookup hi hp (by decide)
      hdir hone.held hin hrun (of_decide_eq_true htrue)
      (of_decide_eq_true hone').held rfl hparse rfl hfib⟩

/-! ### The root directory -/

/-- The root directory has no entry: its date is not stored. -/
theorem doSetDate_root {h h₁ : Handler Flat} {lock : Option LockId} {name : Bstr} {n : Node}
    (hro : h.fs.ef.ro = false) (hlookup : lookupArg23 lock name h = .ok (.ok h₁.fs.root) h₁)
    (hi : h₁.fs.heap h₁.fs.root = some n) (hp : n.parent = none) (hr : 1 ≤ n.references)
    (hro₁ : h₁.fs.ef.ro = false) (ds : DateStamp) :
    ∃ h', doSetDate lock name (some ds) h = .ok { res1 := dosTrue, res2 := none } h' ∧
      h'.fs.ef = h₁.fs.ef := by
  have hself := store_heap_self h₁.fs h₁.fs.root ⟨h₁.fs.ef, n.dated ds⟩
  have hflush := exfatFlushNode_root hself hro₁ hp
  have hput := run_exfatPutNode hself hr fun hne => absurd rfl hne
  have hrun : doSetDate lock name (some ds) h = flushAndPut h₁.fs.root { h₁ with
      fs := h₁.fs.store h₁.fs.root ⟨h₁.fs.ef, n.dated ds⟩,
        trace := .use h₁.mounted :: h₁.trace } := by
    unfold doSetDate
    rw [run_bind_ok (run_get h), hro, if_neg (by decide)]
    dsimp only
    rw [run_bind_ok hlookup]
    dsimp only
    rw [run_bind_ok (run_useFs (run_updateNode hi _))]
    rfl
  rw [hrun]
  unfold flushAndPut
  rw [run_bind_ok (run_useFs hflush), run_bind_ok (run_useFs hput)]
  exact ⟨_, rfl, rfl⟩

/-- Two dates are set on the root directory and leave the same medium: whatever is read from it, it
is not the date that was set. -/
theorem setDate_root_lost :
    ∃ (ds ds' : DateStamp) (h h' : Handler Flat), ds.Storable ∧ ds'.Storable ∧
      doSetDate none emptyName (some ds) cardReady = .ok { res1 := dosTrue, res2 := none } h ∧
      doSetDate none emptyName (some ds') cardReady = .ok { res1 := dosTrue, res2 := none } h' ∧
      h.fs.ef.dev = h'.fs.ef.dev ∧ ds.wholeSecond ≠ ds'.wholeSecond := by
  have htest : returns (fun r h₁ => decide (r = .ok h₁.fs.root ∧ h₁.fs.ef.ro = false) &&
      (h₁.fs.heap h₁.fs.root).any fun n => decide (n.parent = none ∧ 1 ≤ n.references))
      (lookupArg23 none emptyName cardReady) = true := by
    decide +kernel
  have hro : cardReady.fs.ef.ro = false := by decide +kernel
  obtain ⟨r, h₁, hlookup, htest⟩ := of_returns htest
  obtain ⟨hr, htest⟩ := Bool.and_eq_true_iff.1 htest
  obtain ⟨n, hi, hn⟩ := (Option.any_eq_true ..).1 htest
  obtain ⟨rfl, hro₁⟩ := of_decide_eq_true hr
  obtain ⟨hp, href⟩ := of_decide_eq_true hn
  obtain ⟨h, hrun, hef⟩ := doSetDate_root hro hlookup hi hp href hro₁ ⟨8035, 0, 0⟩
  obtain ⟨h', hrun', hef'⟩ := doSetDate_root hro hlookup hi hp href hro₁ ⟨8036, 0, 0⟩
  have hstorable : ∀ days : Int, days = 8035 ∨ days = 8036 →
      (⟨days, 0, 0⟩ : DateStamp).Storable := by
    rintro days (rfl | rfl)
    · exact ⟨by decide, by decide, by decide, by decide⟩
    · exact ⟨by decide, by decide, by decide, by decide⟩
  refine ⟨_, _, h, h', hstorable _ (.inl rfl), hstorable _ (.inr rfl), hrun, hrun', ?_, by decide⟩
  rw [hef, hef']

end ExFat
