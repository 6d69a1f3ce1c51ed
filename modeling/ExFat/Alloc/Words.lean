import ExFat.Alloc.Bitmap
import ExFat.Fs.MountVolume
import Mathlib.Data.Nat.Bitwise
import Mathlib.Data.Nat.Count

namespace ExFat

open Bytes

/-!
# The bitmap in memory

A `bitmap_t` is a `size_t` on little-endian machines and a byte on the others, so that bit `i` of
the bitmap is bit `i % 8` of byte `i / 8` on all of them.  The searches and the counts of
`cluster.c` are stated here on the bytes in memory, for each kind of machine, with its arithmetic on
`size_t`.
-/

/-- A kind of machine, by its byte order and the width of its `size_t`. -/
inductive Build
  | le32 | le64 | be32 | be64
  deriving DecidableEq, Repr

namespace Build

/-- `sizeof(bitmap_t)`. -/
def wordBytes : Build → Nat
  | le32 => 4
  | le64 => 8
  | be32 | be64 => 1

/-- `sizeof(bitmap_t) * 8`. -/
def wordBits (b : Build) : Nat := b.wordBytes * 8

/-- A number stored into a `size_t`. -/
def sizeT : Build → Nat → Nat
  | le32, n | be32, n => n % 2 ^ 32
  | le64, n | be64, n => n % 2 ^ 64

/-- `bitmap[i]`. -/
def word (b : Build) (bitmap : List UInt8) (i : Nat) : Nat :=
  leAt bitmap (b.wordBytes * i) b.wordBytes

/-- `BMAP_BLOCK`. -/
def bmapBlock (b : Build) (index : Nat) : Nat := index / b.wordBytes / 8

/-- `BMAP_MASK`. -/
def bmapMask (b : Build) (index : Nat) : Nat := 1 <<< (index % b.wordBits)

/-- `BMAP_GET`. -/
def bmapGet (b : Build) (bitmap : List UInt8) (index : Nat) : Bool :=
  b.word bitmap (b.bmapBlock index) &&& b.bmapMask index ≠ 0

/-- `BMAP_SET`. -/
def bmapSet (b : Build) (bitmap : List UInt8) (index : Nat) : List UInt8 :=
  patch bitmap (b.wordBytes * b.bmapBlock index)
    (natLe b.wordBytes (b.word bitmap (b.bmapBlock index) ||| b.bmapMask index))

/-- The outer loop of `find_bit_and_set`, over the `n` words from word `i` on: the bit that is
found. -/
def scanBlocks (b : Build) (bitmap : List UInt8) (start stop : Nat) : (i n : Nat) → Option Nat
  | _, 0 => none
  | i, n + 1 =>
    if b.word bitmap i = 2 ^ b.wordBits - 1 then scanBlocks b bitmap start stop (i + 1) n
    else
      let startBitindex := max (i * b.wordBits) start
      let endBitindex := min (b.sizeT ((i + 1) * b.wordBits)) stop
      match scanBits (b.bmapGet bitmap) startBitindex (endBitindex - startBitindex) with
      | some c => some c
      | none => scanBlocks b bitmap start stop (i + 1) n

/-- `end_index` of `find_bit_and_set`. -/
def endIndex (b : Build) (stop : Nat) : Nat := b.sizeT (stop + b.wordBits - 1) / b.wordBits

/-- `find_bit_and_set`: the cluster that is returned and the bitmap after. -/
def findBitAndSet (b : Build) (bitmap : List UInt8) (start stop : Nat) : Nat × List UInt8 :=
  match b.scanBlocks bitmap start stop (b.bmapBlock start)
    (b.endIndex stop - b.bmapBlock start) with
  | some c => (u32 (c + firstDataCluster), b.bmapSet bitmap c)
  | none => (clusterEnd, bitmap)

/-- The search of `allocate_cluster`: the cluster that is returned and the bitmap after. -/
def allocateCluster (b : Build) (bitmap : List UInt8) (size hint : Nat) : Nat × List UInt8 :=
  let first := b.findBitAndSet bitmap (hintBit hint size) size
  if first.1 = clusterEnd then b.findBitAndSet first.2 0 (hintBit hint size) else first

/-- `exfat_count_free_clusters`. -/
def exfatCountFreeClusters (b : Build) (bitmap : List UInt8) (size : Nat) : Nat :=
  let whole := size / 8
  let bytes := (List.range whole).foldl (fun used i =>
    let byte := (bitmap.getD i 0).toNat
    used + nibbleBits.getD (byte &&& 0xf) 0 + nibbleBits.getD (byte >>> 4) 0) 0
  let used := (List.range (size - whole * 8)).foldl (fun used i =>
    if b.bmapGet bitmap (whole * 8 + i) then used + 1 else used) bytes
  sub32 size used

/-- The words that `BMAP_SIZE` allocates room for are in memory. -/
def Covers (b : Build) (bitmap : List UInt8) (size : Nat) : Prop :=
  b.wordBytes * divRoundUp size b.wordBits ≤ bitmap.length

end Build

/-! ### Bits of numbers and of bytes -/

/-- The bits of a little-endian number are the bits of its bytes. -/
theorem testBit_leNat (l : List UInt8) (i : Nat) : (leNat l).testBit i = bitOf l i := by
  induction l generalizing i with
  | nil => simp [leNat, bitOf]
  | cons a l ih =>
    unfold leNat
    rw [Nat.add_comm, show 256 * leNat l = 2 ^ 8 * leNat l by rfl,
      Nat.testBit_two_pow_mul_add _ (UInt8.toNat_lt a)]
    unfold bitOf
    by_cases hi : i < 8
    · rw [if_pos hi, Nat.div_eq_of_lt hi, Nat.mod_eq_of_lt hi, List.getD_cons_zero]
    · rw [if_neg hi, ih]
      obtain ⟨j, rfl⟩ := Nat.exists_eq_add_of_le (Nat.le_of_not_lt hi)
      have hdiv : (8 + j) / 8 = j / 8 + 1 := by omega
      have hmod : (8 + j) % 8 = j % 8 := by omega
      rw [hdiv, hmod, List.getD_cons_succ, Nat.add_sub_cancel_left]
      rfl

/-- The bits of a number that is read from bytes are the bits of those bytes. -/
theorem testBit_leAt (l : List UInt8) (off n i : Nat) :
    (leAt l off n).testBit i = (decide (i < 8 * n) && bitOf l (8 * off + i)) := by
  unfold leAt
  rw [testBit_leNat]
  unfold bitOf
  have hdiv : (8 * off + i) / 8 = off + i / 8 := by omega
  have hmod : (8 * off + i) % 8 = i % 8 := by omega
  rw [hdiv, hmod]
  by_cases hi : i < 8 * n
  · have hlt : i / 8 < n := by omega
    rw [List.getD_eq_getElem _ _ (by simpa using hlt)]
    simp [hi]
  · have hge : n ≤ i / 8 := by omega
    rw [List.getD_eq_default _ _ (by simpa using hge)]
    simp [hi]

/-- The bits of the bytes of a number are its bits. -/
theorem bitOf_natLe {n v i : Nat} (hi : i < 8 * n) : bitOf (natLe n v) i = v.testBit i := by
  have hpow : 256 ^ n = 2 ^ (8 * n) := by rw [show 256 = 2 ^ 8 by rfl, ← Nat.pow_mul]
  rw [← testBit_leNat, leNat_natLe, hpow, Nat.testBit_mod_two_pow]
  simp [hi]

/-- Bytes are replaced: a bit is one of the new bytes, or as it was. -/
theorem bitOf_patch {l data : List UInt8} {off : Nat} (h : off + data.length ≤ l.length) (i : Nat) :
    bitOf (patch l off data) i = if 8 * off ≤ i ∧ i < 8 * (off + data.length) then bitOf data
        (i - 8 * off) else bitOf l i := by
  unfold bitOf
  rw [getD_patch h]
  by_cases hi : 8 * off ≤ i ∧ i < 8 * (off + data.length)
  · have hdiv : (i - 8 * off) / 8 = i / 8 - off := by omega
    have hmod : (i - 8 * off) % 8 = i % 8 := by omega
    rw [if_pos hi, if_pos (by omega), hdiv, hmod]
  · rw [if_neg hi, if_neg (by omega)]

namespace Build

variable (b : Build) (bitmap : List UInt8)

/-- A word has bits. -/
theorem wordBits_pos : 0 < b.wordBits := by cases b <;> decide

/-- `BMAP_BLOCK` divides by the bits of a word. -/
theorem bmapBlock_eq (index : Nat) : b.bmapBlock index = index / b.wordBits := by
  unfold bmapBlock wordBits
  rw [Nat.div_div_eq_div_mul]

/-- The bits of a word are the bits of the bitmap at its place. -/
theorem testBit_word (i j : Nat) :
    (b.word bitmap i).testBit j =
    (decide (j < b.wordBits) && bitOf bitmap (i * b.wordBits + j)) := by
  have hoff : 8 * (b.wordBytes * i) = i * b.wordBits := by
    unfold wordBits
    rw [Nat.mul_comm 8, Nat.mul_comm b.wordBytes, Nat.mul_assoc]
  unfold word
  rw [testBit_leAt, hoff, Nat.mul_comm 8]
  rfl

/-- What `BMAP_GET` reads is the bit of the bytes. -/
theorem bmapGet_eq (index : Nat) : b.bmapGet bitmap index = bitOf bitmap index := by
  have hpos := b.wordBits_pos
  have hsplit : index / b.wordBits * b.wordBits + index % b.wordBits = index := Nat.div_add_mod' ..
  have hbit : (b.word bitmap (b.bmapBlock index)).testBit (index % b.wordBits) =
      bitOf bitmap index := by
    rw [testBit_word, bmapBlock_eq, hsplit, decide_eq_true (Nat.mod_lt _ hpos), Bool.true_and]
  unfold bmapGet bmapMask
  rw [Nat.one_shiftLeft, Nat.and_two_pow, hbit]
  cases bitOf bitmap index <;> simp

/-- What `BMAP_SET` writes is the bit of the bytes. -/
theorem bitOf_bmapSet {index size : Nat} (hcovers : b.Covers bitmap size) (hindex : index < size) :
    (b.bmapSet bitmap index).length = bitmap.length ∧
      bitOf (b.bmapSet bitmap index) = Function.update (bitOf bitmap) index true := by
  have hpos := b.wordBits_pos
  have hblock : b.bmapBlock index < divRoundUp size b.wordBits := by
    rw [bmapBlock_eq, Nat.div_lt_iff_lt_mul hpos]
    exact hindex.trans_le (le_divRoundUp_mul size hpos)
  have hroom : b.wordBytes * b.bmapBlock index + b.wordBytes ≤ bitmap.length := by
    have hle := Nat.mul_le_mul_left b.wordBytes (Nat.succ_le_of_lt hblock)
    unfold Covers at hcovers
    rw [Nat.mul_succ] at hle
    omega
  -- The word with the bit is written back; its other bits are as they were read.
  unfold bmapSet
  refine ⟨length_patch (by rw [length_natLe]; exact hroom), funext fun j => ?_⟩
  rw [bitOf_patch (by rw [length_natLe]; exact hroom), length_natLe]
  have hoff : 8 * (b.wordBytes * b.bmapBlock index) = b.bmapBlock index * b.wordBits := by
    unfold wordBits
    rw [Nat.mul_comm 8, Nat.mul_comm b.wordBytes, Nat.mul_assoc]
  have hend : 8 * (b.wordBytes * b.bmapBlock index + b.wordBytes) =
      b.bmapBlock index * b.wordBits + b.wordBits := by
    rw [Nat.mul_add, hoff, Nat.mul_comm 8]
    rfl
  have hsplit : b.bmapBlock index * b.wordBits + index % b.wordBits = index := by
    rw [bmapBlock_eq]
    exact Nat.div_add_mod' ..
  have hmod := Nat.mod_lt index hpos
  rw [hoff, hend]
  -- a bit of the word, or of another word
  by_cases hj : b.bmapBlock index * b.wordBits ≤ j ∧ j < b.bmapBlock index * b.wordBits + b.wordBits
  · obtain ⟨k, rfl⟩ := Nat.exists_eq_add_of_le hj.1
    rw [if_pos hj, Nat.add_sub_cancel_left, bitOf_natLe (by unfold wordBits at hj; omega),
      Nat.testBit_or, testBit_word, decide_eq_true (show k < b.wordBits by omega), Bool.true_and]
    unfold bmapMask
    rw [Nat.one_shiftLeft, Nat.testBit_two_pow]
    by_cases hk : index % b.wordBits = k
    · rw [decide_eq_true hk, Bool.or_true, ← hk, hsplit, Function.update_self]
    · rw [decide_eq_false hk, Bool.or_false, Function.update_of_ne (by omega)]
  · rw [if_neg hj, Function.update_of_ne (by omega)]

/-- A word has all its bits set. -/
theorem word_eq_iff (i : Nat) :
    b.word bitmap i = 2 ^ b.wordBits - 1 ↔ wordFull (bitOf bitmap) b.wordBits i = true := by
  unfold wordFull
  rw [List.all_eq_true]
  constructor
  · intro h j hj
    have hbit := b.testBit_word bitmap i j
    rw [h, Nat.testBit_two_pow_sub_one, decide_eq_true (List.mem_range.1 hj), Bool.true_and] at hbit
    exact hbit.symm
  · intro h
    refine Nat.eq_of_testBit_eq fun j => ?_
    rw [testBit_word, Nat.testBit_two_pow_sub_one]
    by_cases hj : j < b.wordBits
    · rw [h j (List.mem_range.2 hj), Bool.and_true]
    · rw [decide_eq_false hj, Bool.false_and]

/-- While `size_t` is wide enough the loop over the words looks for a clear bit of the bytes. -/
theorem scanBlocks_eq {start stop i n : Nat} (hfit : ∀ k, i ≤ k → k < i + n →
    b.sizeT ((k + 1) * b.wordBits) = (k + 1) * b.wordBits) :
    b.scanBlocks bitmap start stop i n = scanWords (bitOf bitmap) b.wordBits start stop i n := by
  induction n generalizing i with
  | zero => rfl
  | succ n ih =>
    have hget : b.bmapGet bitmap = bitOf bitmap := funext fun j => b.bmapGet_eq bitmap j
    have hrest := ih (i := i + 1) fun k hk hk' => hfit k (by omega) (by omega)
    unfold scanBlocks scanWords
    dsimp only
    rw [hfit i (Nat.le_refl i) (by omega), hget, hrest]
    by_cases hfull : wordFull (bitOf bitmap) b.wordBits i = true
    · rw [if_pos hfull, if_pos ((b.word_eq_iff bitmap i).2 hfull)]
    · exact (if_neg fun h => hfull ((b.word_eq_iff bitmap i).1 h)).trans (if_neg hfull).symm

/-- The numbers of bits that a `size_t` can round up to words. -/
def roundable : Nat := 2 ^ 32 - 32

/-- A number that can be rounded up to words fits into a `size_t`. -/
theorem sizeT_of_le {n stop : Nat} (hstop : stop ≤ roundable) (h : n ≤ stop + b.wordBits - 1) :
    b.sizeT n = n := by
  unfold roundable at hstop
  cases b with
  | le32 =>
    have hwide : le32.wordBits = 32 := rfl
    exact Nat.mod_eq_of_lt (by omega)
  | le64 =>
    have hwide : le64.wordBits = 64 := rfl
    exact Nat.mod_eq_of_lt (by omega)
  | be32 =>
    have hwide : be32.wordBits = 8 := rfl
    exact Nat.mod_eq_of_lt (by omega)
  | be64 =>
    have hwide : be64.wordBits = 8 := rfl
    exact Nat.mod_eq_of_lt (by omega)

end Build

/-- The first clear bit of a range. -/
def FirstClear (chunk : Nat → Bool) (start stop i : Nat) : Prop :=
  start ≤ i ∧ i < stop ∧ chunk i = false ∧ ∀ j, start ≤ j → j < i → chunk j = true

namespace Build

variable (b : Build) {bitmap : List UInt8} {size stop : Nat}

/-- `find_bit_and_set` on a range that a `size_t` can round up. -/
theorem findBitAndSet_cases (start : Nat) (hcovers : b.Covers bitmap size) (hstop : stop ≤ size)
    (hround : stop ≤ roundable) :
    (∃ i, FirstClear (bitOf bitmap) start stop i ∧ (b.findBitAndSet bitmap start stop).1 = i + 2 ∧
      i + 2 ≠ clusterEnd ∧ (b.findBitAndSet bitmap start stop).2.length = bitmap.length ∧
      bitOf (b.findBitAndSet bitmap start stop).2 = Function.update (bitOf bitmap) i true) ∨
    ((∀ j, start ≤ j → j < stop → bitOf bitmap j = true) ∧
      b.findBitAndSet bitmap start stop = (clusterEnd, bitmap)) := by
  have hpos := b.wordBits_pos
  have hend : b.endIndex stop = divRoundUp stop b.wordBits := by
    unfold endIndex divRoundUp
    rw [b.sizeT_of_le hround (Nat.le_refl _)]
  -- the words are those of a scan over the bits, because the bound does not wrap
  have hwords : b.scanBlocks bitmap start stop (b.bmapBlock start)
      (b.endIndex stop - b.bmapBlock start) =
      scanWords (bitOf bitmap) b.wordBits start stop (start / b.wordBits)
        (divRoundUp stop b.wordBits - start / b.wordBits) := by
    rw [hend, bmapBlock_eq]
    refine b.scanBlocks_eq bitmap fun k _ hk => b.sizeT_of_le hround ?_
    have hlast : k + 1 ≤ divRoundUp stop b.wordBits := by omega
    calc (k + 1) * b.wordBits ≤ divRoundUp stop b.wordBits * b.wordBits :=
      Nat.mul_le_mul_right _ hlast
      _ ≤ stop + b.wordBits - 1 := Nat.div_mul_le_self ..
  have hstart := Nat.div_mul_le_self start b.wordBits
  unfold findBitAndSet
  rw [hwords]
  cases h : scanWords (bitOf bitmap) b.wordBits start stop (start / b.wordBits)
    (divRoundUp stop b.wordBits - start / b.wordBits) with
  -- a bit before the start may lie in the first word, but the scan leaves it out
  | some i =>
    obtain ⟨h₁, h₂, h₃, h₄⟩ := scanWords_some h
    obtain ⟨hlength, hbits⟩ := b.bitOf_bmapSet bitmap hcovers (h₂.trans_le hstop)
    have hbound : i + 2 < 2 ^ 32 - 1 := by
      unfold roundable at hround
      omega
    refine .inl ⟨i, ⟨h₁, h₂, h₃, fun j hj hj' => h₄ j (by omega) hj'⟩, ?_, ?_, hlength, hbits⟩
    · exact Nat.mod_eq_of_lt (by unfold firstDataCluster; omega)
    · unfold clusterEnd
      omega
  | none =>
    refine .inr ⟨fun j hj hj' => scanWords_none h (by omega) ?_ hj', rfl⟩
    have hround := le_divRoundUp_mul stop hpos
    have hle : divRoundUp stop b.wordBits * b.wordBits ≤
        (start / b.wordBits + (divRoundUp stop b.wordBits - start / b.wordBits)) * b.wordBits :=
      Nat.mul_le_mul_right _ (by omega)
    omega

end Build

/-! ### Allocating -/

/-- The first free bit from the hint on, or else from the start on. -/
def FirstFree (chunk : Nat → Bool) (size hint i : Nat) : Prop :=
  FirstClear chunk (hintBit hint size) size i ∨
    ((∀ j, hintBit hint size ≤ j → j < size → chunk j = true) ∧ FirstClear chunk 0 size i)

/-- A cluster and the bitmap after: the first free cluster has been taken, or there is none. -/
def Allocated (bitmap : List UInt8) (size hint : Nat) (r : Nat × List UInt8) : Prop :=
  (∃ i, FirstFree (bitOf bitmap) size hint i ∧ r.1 = i + 2 ∧ r.1 ≠ clusterEnd ∧
    r.2.length = bitmap.length ∧ bitOf r.2 = Function.update (bitOf bitmap) i true) ∨
  ((∀ j < size, bitOf bitmap j = true) ∧ r = (clusterEnd, bitmap))

/-- The hint is inside the bitmap. -/
theorem hintBit_le (hint size : Nat) : hintBit hint size ≤ size := by
  unfold hintBit
  split <;> omega

/-- The first free bit is a clear bit of the bitmap. -/
theorem FirstFree.clear {chunk : Nat → Bool} {size hint i : Nat} (h : FirstFree chunk size hint i) :
    i < size ∧ chunk i = false := by
  obtain ⟨-, hi, hclear, -⟩ | ⟨-, -, hi, hclear, -⟩ := h
  · exact ⟨hi, hclear⟩
  · exact ⟨hi, hclear⟩

/-- A range has one first clear bit. -/
theorem FirstClear.unique {chunk : Nat → Bool} {start stop i j : Nat}
    (hi : FirstClear chunk start stop i) (hj : FirstClear chunk start stop j) : i = j := by
  obtain ⟨hi₁, -, hi₂, hi₃⟩ := hi
  obtain ⟨hj₁, -, hj₂, hj₃⟩ := hj
  rcases Nat.lt_trichotomy i j with hlt | heq | hlt
  · exact absurd (hj₃ i hi₁ hlt) (by rw [hi₂]; exact Bool.false_ne_true)
  · exact heq
  · exact absurd (hi₃ j hj₁ hlt) (by rw [hj₂]; exact Bool.false_ne_true)

/-- A bitmap has one first free bit for a hint. -/
theorem FirstFree.unique {chunk : Nat → Bool} {size hint i j : Nat}
    (hi : FirstFree chunk size hint i) (hj : FirstFree chunk size hint j) : i = j := by
  have hcross : ∀ {k}, FirstClear chunk (hintBit hint size) size k →
      ¬ ∀ l, hintBit hint size ≤ l → l < size → chunk l = true := by
    rintro k ⟨hk, hlt, hclear, -⟩ hfull
    exact absurd (hfull k hk hlt) (by rw [hclear]; exact Bool.false_ne_true)
  rcases hi with hi | ⟨hfull, hi⟩ <;> rcases hj with hj | ⟨hfull', hj⟩
  · exact hi.unique hj
  · exact absurd hfull' (hcross hi)
  · exact absurd hfull (hcross hj)
  · exact hi.unique hj

namespace Build

variable (b : Build) {bitmap : List UInt8} {size : Nat}

/-- `allocate_cluster` takes the first free cluster. -/
theorem allocateCluster_allocated (hcovers : b.Covers bitmap size) (hround : size ≤ roundable)
    (hint : Nat) : Allocated bitmap size hint (b.allocateCluster bitmap size hint) := by
  have hhint := hintBit_le hint size
  unfold allocateCluster
  dsimp only
  obtain ⟨i, hi, hfound, hne, hlength, hbits⟩ | ⟨hfull, hnone⟩ :=
    b.findBitAndSet_cases (hintBit hint size) hcovers (Nat.le_refl size) hround
  · rw [if_neg (by rw [hfound]; exact hne)]
    exact .inl ⟨i, .inl hi, hfound, by rw [hfound]; exact hne, hlength, hbits⟩
  · rw [hnone, if_pos rfl]
    obtain ⟨i, hi, hfound, hne, hlength, hbits⟩ | ⟨hfull', hnone'⟩ :=
      b.findBitAndSet_cases 0 hcovers hhint (hhint.trans hround)
    · obtain ⟨h₁, h₂, h₃, h₄⟩ := hi
      exact .inl ⟨i, .inr ⟨hfull, h₁, h₂.trans_le hhint, h₃, h₄⟩, hfound, by rw [hfound]; exact hne,
        hlength, hbits⟩
    · refine .inr ⟨fun j hj => ?_, hnone'⟩
      by_cases hlt : j < hintBit hint size
      · exact hfull' j (Nat.zero_le j) hlt
      · exact hfull j (Nat.le_of_not_lt hlt) hj

end Build

/-! ### Counting -/

/-- The number of bits that are set below `n`. -/
def usedBits (chunk : Nat → Bool) (n : Nat) : Nat := Nat.count (fun i => chunk i = true) n

/-- The two lookups in the table count the set bits of a byte. -/
theorem nibbleBits_byte :
    ∀ v : Nat, v < 256 → nibbleBits.getD (v &&& 0xf) 0 + nibbleBits.getD (v >>> 4) 0 =
      usedBits (fun j => v.testBit j) 8 := by
  decide +kernel

/-- The bits may be counted in two parts. -/
theorem usedBits_add (chunk : Nat → Bool) (m n : Nat) :
    usedBits chunk (m + n) = usedBits chunk m + usedBits (fun i => chunk (m + i)) n :=
  Nat.count_add _ m n

/-- The count depends on the bits that are counted. -/
theorem usedBits_congr {chunk chunk' : Nat → Bool} {n : Nat} (h : ∀ i < n, chunk i = chunk' i) :
    usedBits chunk n = usedBits chunk' n :=
  Nat.le_antisymm (Nat.count_mono_left fun i hi hbit => (h i hi).symm.trans hbit)
    (Nat.count_mono_left fun i hi hbit => (h i hi).trans hbit)

/-- No more bits are set than are counted. -/
theorem usedBits_le (chunk : Nat → Bool) (n : Nat) : usedBits chunk n ≤ n := Nat.count_le _

/-- Counting whole bytes through the table, and the rest bit by bit. -/
theorem count_bits {chunk get : Nat → Bool} {byte : Nat → Nat} (hbyte : ∀ i, byte i < 256)
    (hbits : ∀ i j, j < 8 → (byte i).testBit j = chunk (8 * i + j)) (hget : ∀ i, get i = chunk i)
    (size : Nat) :
    (List.range (size - size / 8 * 8)).foldl (fun used i =>
        if get (size / 8 * 8 + i) then used + 1 else used)
      ((List.range (size / 8)).foldl (fun used i =>
        used + nibbleBits.getD (byte i &&& 0xf) 0 + nibbleBits.getD (byte i >>> 4) 0) 0) =
      usedBits chunk size := by
  have hwhole : ∀ n, (List.range n).foldl (fun used i =>
      used + nibbleBits.getD (byte i &&& 0xf) 0 + nibbleBits.getD (byte i >>> 4) 0) 0 =
      usedBits chunk (8 * n) := by
    intro n
    induction n with
    | zero => rfl
    | succ n ih =>
      have hsame : usedBits (fun j => (byte n).testBit j) 8 = usedBits
          (fun j => chunk (8 * n + j)) 8 :=
        usedBits_congr fun j hj => hbits n j hj
      rw [List.range_succ, List.foldl_append, ih, List.foldl_cons, List.foldl_nil, Nat.add_assoc,
        nibbleBits_byte _ (hbyte n), hsame, Nat.mul_succ, usedBits_add]
  have hrest : ∀ (start : Nat) (n m : Nat), (List.range n).foldl (fun used i =>
      if get (m + i) then used + 1 else used) start = start + usedBits
        (fun i => chunk (m + i)) n := by
    intro start n m
    induction n with
    | zero => rfl
    | succ n ih =>
      rw [List.range_succ, List.foldl_append, ih, List.foldl_cons, List.foldl_nil, hget]
      unfold usedBits
      rw [Nat.count_succ]
      split <;> omega
  -- the whole bytes, and the bits behind them
  have hsplit : size = 8 * (size / 8) + (size - size / 8 * 8) := by omega
  rw [hwhole, hrest, Nat.mul_comm (size / 8) 8, ← usedBits_add]
  congr 1
  omega

/-- Another bit has been set. -/
theorem usedBits_update {chunk : Nat → Bool} {n i : Nat} (hi : i < n) (hclear : chunk i = false) :
    usedBits (Function.update chunk i true) n = usedBits chunk n + 1 := by
  obtain ⟨k, rfl⟩ : ∃ k, n = i + 1 + k := ⟨n - (i + 1), by omega⟩
  have hbelow : usedBits (Function.update chunk i true) i = usedBits chunk i :=
    usedBits_congr fun j hj => Function.update_of_ne (Nat.ne_of_lt hj) ..
  have habove : usedBits (fun j => Function.update chunk i true (i + 1 + j)) k =
      usedBits (fun j => chunk (i + 1 + j)) k :=
    usedBits_congr fun j _ => Function.update_of_ne (by omega) ..
  have hset : usedBits (fun j => Function.update chunk i true (i + j)) 1 = 1 := by
    unfold usedBits
    rw [Nat.count_one]
    exact if_pos (Function.update_self ..)
  have hnot : usedBits (fun j => chunk (i + j)) 1 = 0 := by
    unfold usedBits
    rw [Nat.count_one]
    refine if_neg ?_
    show ¬ chunk i = true
    rw [hclear]
    exact Bool.false_ne_true
  rw [usedBits_add _ (i + 1), usedBits_add _ i, hbelow, hset, habove, usedBits_add chunk (i + 1),
    usedBits_add chunk i, hnot]
  omega

/-- `exfat_count_free_clusters` on the bitmap of a mounted volume. -/
theorem exfatCountFreeClusters_eq {cmap : Cmap} (h : cmap.size < 2 ^ 32) :
    exfatCountFreeClusters cmap = cmap.size - usedBits cmap.chunk cmap.size := by
  have hbits : ∀ i j, j < 8 → (chunkByte cmap.chunk i).toNat.testBit j =
      cmap.chunk (8 * i + j) := by
    intro i j hj
    have hlt := bitsNat_lt (fun b => cmap.chunk (8 * i + b)) 8
    have hbyte : (chunkByte cmap.chunk i).toNat = bitsNat (fun b => cmap.chunk (8 * i + b)) 8 :=
      Nat.mod_eq_of_lt hlt
    rw [hbyte, testBit_bitsNat, decide_eq_true hj, Bool.true_and]
  have hget : ∀ i, cmap.chunk i = cmap.chunk i := fun _ => rfl
  have hcount := count_bits (fun i => UInt8.toNat_lt (chunkByte cmap.chunk i)) hbits hget cmap.size
  have hle := usedBits_le cmap.chunk cmap.size
  unfold exfatCountFreeClusters
  dsimp only
  rw [hcount]
  unfold sub32
  omega

namespace Build

variable (b : Build) {bitmap : List UInt8} {size : Nat}

/-- `exfat_count_free_clusters` on the bytes in memory. -/
theorem exfatCountFreeClusters_eq (h : size < 2 ^ 32) :
    b.exfatCountFreeClusters bitmap size = size - usedBits (bitOf bitmap) size := by
  have hbits : ∀ i j, j < 8 → ((bitmap.getD i 0).toNat).testBit j = bitOf bitmap (8 * i + j) := by
    intro i j hj
    unfold bitOf
    have hdiv : (8 * i + j) / 8 = i := by omega
    have hmod : (8 * i + j) % 8 = j := by omega
    rw [hdiv, hmod]
  have hcount := count_bits (fun i => UInt8.toNat_lt (bitmap.getD i 0)) hbits
    (b.bmapGet_eq bitmap) size
  have hle := usedBits_le (bitOf bitmap) size
  unfold exfatCountFreeClusters
  dsimp only
  rw [hcount]
  unfold sub32
  omega

/-- On every machine an allocation takes the first free cluster and sets its bit, the count is the
number of clear bits and drops by one when a cluster is taken, and where the bits of the clusters
are the same the machines do the same. -/
structure Agree (size : Nat) : Prop where
  allocates : ∀ (b : Build) (bitmap : List UInt8) (hint : Nat), b.Covers bitmap size →
    Allocated bitmap size hint (b.allocateCluster bitmap size hint)
  counts : ∀ (b : Build) (bitmap : List UInt8),
    b.exfatCountFreeClusters bitmap size = size - usedBits (bitOf bitmap) size
  drops : ∀ (b : Build) (bitmap : List UInt8) (hint : Nat), b.Covers bitmap size →
    (b.allocateCluster bitmap size hint).1 ≠ clusterEnd →
    b.exfatCountFreeClusters (b.allocateCluster bitmap size hint).2 size + 1 =
      b.exfatCountFreeClusters bitmap size
  same : ∀ (b b' : Build) (bitmap bitmap' : List UInt8) (hint : Nat), b.Covers bitmap size →
    b'.Covers bitmap' size → (∀ i < size, bitOf bitmap i = bitOf bitmap' i) →
    (b.allocateCluster bitmap size hint).1 = (b'.allocateCluster bitmap' size hint).1 ∧
      ∀ i < size, bitOf (b.allocateCluster bitmap size hint).2 i =
        bitOf (b'.allocateCluster bitmap' size hint).2 i

/-- The first clear bit of a range depends on the bits up to its end. -/
theorem FirstClear.congr {chunk chunk' : Nat → Bool} {start stop i : Nat}
    (h : ∀ j < stop, chunk j = chunk' j) (hi : FirstClear chunk start stop i) :
    FirstClear chunk' start stop i := by
  obtain ⟨h₁, h₂, h₃, h₄⟩ := hi
  exact ⟨h₁, h₂, (h i h₂).symm.trans h₃, fun j hj hj' =>
    (h j (hj'.trans h₂)).symm.trans (h₄ j hj hj')⟩

/-- The first free bit depends on the bits of the bitmap. -/
theorem FirstFree.congr {chunk chunk' : Nat → Bool} {size hint i : Nat}
    (h : ∀ j < size, chunk j = chunk' j) (hi : FirstFree chunk size hint i) :
    FirstFree chunk' size hint i := by
  obtain hi | ⟨hfull, hi⟩ := hi
  · exact .inl (FirstClear.congr h hi)
  · exact .inr ⟨fun j hj hj' => (h j hj').symm.trans (hfull j hj hj'), FirstClear.congr h hi⟩

/-- What is taken from bitmaps with the same bits. -/
theorem Allocated.same {bitmap bitmap' : List UInt8} {size hint : Nat} {r r' : Nat × List UInt8}
    (h : Allocated bitmap size hint r) (h' : Allocated bitmap' size hint r')
    (hbits : ∀ i < size, bitOf bitmap i = bitOf bitmap' i) :
    r.1 = r'.1 ∧ ∀ i < size, bitOf r.2 i = bitOf r'.2 i := by
  obtain ⟨i, hi, hfound, -, -, hset⟩ | ⟨hfull, rfl⟩ := h
  · obtain ⟨j, hj, hfound', -, -, hset'⟩ | ⟨hfull', -⟩ := h'
    · obtain rfl := (FirstFree.congr hbits hi).unique hj
      refine ⟨hfound.trans hfound'.symm, fun k hk => ?_⟩
      rw [hset, hset']
      by_cases hki : k = i
      · rw [hki, Function.update_self, Function.update_self]
      · rw [Function.update_of_ne hki, Function.update_of_ne hki, hbits k hk]
    · obtain ⟨hlt, hclear⟩ := hi.clear
      exact absurd ((hbits i hlt).trans (hfull' i hlt)) (by rw [hclear]; exact Bool.false_ne_true)
  · obtain ⟨j, hj, -⟩ | ⟨-, rfl⟩ := h'
    · obtain ⟨hlt, hclear⟩ := hj.clear
      exact absurd ((hbits j hlt).symm.trans (hfull j hlt))
        (by rw [hclear]; exact Bool.false_ne_true)
    · exact ⟨rfl, hbits⟩

/-- A bitmap that 32 bits cannot round up to words is not searched on a machine with such a
`size_t`. -/
theorem not_allocated (size : Nat) (h : roundable < size) (h' : size < 2 ^ 32) :
    ∃ bitmap, le32.Covers bitmap size ∧
    ¬ Allocated bitmap size 2 (le32.allocateCluster bitmap size 2) := by
  unfold roundable at h
  -- The bitmap is empty, and yet nothing is found.
  let bitmap : List UInt8 := List.replicate (4 * divRoundUp size 32) 0
  have hclear : bitOf bitmap 0 = false := by
    unfold bitOf
    rw [List.getD_eq_getElem?_getD, List.getElem?_getD_replicate_default_eq]
    rfl
  have hnone : ∀ stop, le32.endIndex stop = 0 → le32.findBitAndSet bitmap 0 stop =
      (clusterEnd, bitmap) := by
    intro stop hend
    unfold findBitAndSet
    rw [hend, Nat.zero_sub]
    rfl
  -- rounding up wraps round to zero words
  have hwrap : le32.endIndex size = 0 := by
    show (size + 32 - 1) % 2 ^ 32 / 32 = 0
    omega
  have hhint : hintBit 2 size = 0 := by
    have hsub : sub32 2 firstDataCluster = 0 := by decide
    unfold hintBit
    rw [hsub, ite_self]
  have hresult : le32.allocateCluster bitmap size 2 = (clusterEnd, bitmap) := by
    unfold allocateCluster
    dsimp only
    rw [hhint, hnone size hwrap, if_pos rfl]
    exact hnone 0 (by decide)
  refine ⟨bitmap, (List.length_replicate ..).ge, ?_⟩
  rw [hresult]
  rintro (⟨i, -, -, hne, -⟩ | ⟨hfull, -⟩)
  · exact hne rfl
  · exact absurd (hfull 0 (by omega)) (by rw [hclear]; exact Bool.false_ne_true)

/-- The machines agree on the bitmaps that 32 bits can round up to words. -/
theorem agree_iff {size : Nat} (hsize : size < 2 ^ 32) : Agree size ↔ size ≤ roundable := by
  constructor
  · intro h
    by_contra hround
    obtain ⟨bitmap, hcovers, hnot⟩ := not_allocated size (Nat.lt_of_not_le hround) hsize
    exact hnot (h.allocates le32 bitmap 2 hcovers)
  · intro hround
    have hallocates : ∀ (b : Build) (bitmap : List UInt8) (hint : Nat), b.Covers bitmap size →
        Allocated bitmap size hint (b.allocateCluster bitmap size hint) := fun b _ hint hcovers =>
      b.allocateCluster_allocated hcovers hround hint
    refine ⟨hallocates, fun b _ => b.exfatCountFreeClusters_eq hsize,
      fun b bitmap hint hcovers hne => ?_,
      fun b b' bitmap bitmap' hint hcovers hcovers' hbits =>
        Allocated.same (hallocates b bitmap hint hcovers)
          (hallocates b' bitmap' hint hcovers') hbits⟩
    obtain ⟨i, hi, -, -, -, hset⟩ | ⟨-, hnone⟩ := hallocates b bitmap hint hcovers
    · obtain ⟨hlt, hclear⟩ := hi.clear
      have hused := usedBits_update hlt hclear
      have hle := usedBits_le (Function.update (bitOf bitmap) i true) size
      rw [b.exfatCountFreeClusters_eq hsize, b.exfatCountFreeClusters_eq hsize, hset]
      omega
    · exact absurd (congrArg Prod.fst hnone) hne

/-- Bitmaps of twelve clusters. -/
theorem agree_twelve : Agree 12 := (agree_iff (by decide)).2 (by decide)

/-- With 31 bits more than 32 bits can round up, a free cluster is not found. -/
theorem not_agree : ¬ Agree 4294967265 := by
  obtain ⟨bitmap, hcovers, hnot⟩ := not_allocated 4294967265 (by decide) (by decide)
  exact fun h => hnot (h.allocates le32 bitmap 2 hcovers)

end Build

end ExFat
