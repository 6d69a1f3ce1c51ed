import Mathlib.Data.List.GetD
import Mathlib.Tactic.Common
import Mathlib.Tactic.Ring

namespace ExFat.Bytes

/-!
# Byte stores, buffers and little-endian numbers

A `Store` is an addressable medium: a byte at every address.  `readBytes` and `writeBytes` are the
two transfers, and the lemmas say how they compose: what was written is read back, and what a write
does not cover it does not change.  A buffer is a list of bytes; `patch` writes into one.

Numbers are stored least significant byte first (`natLe`), and `leNat` reads them back.
-/

/-- A medium: a byte at every address. -/
abbrev Store := Nat → UInt8

/-- The `len` bytes from `off` on. -/
def readBytes (b : Store) (off len : Nat) : List UInt8 :=
  (List.range len).map fun i => b (off + i)

/-- The medium with `data` written from `off` on. -/
def writeBytes (b : Store) (off : Nat) (data : List UInt8) : Store := fun a =>
  if off ≤ a ∧ a < off + data.length then data.getD (a - off) 0 else b a

/-- As many bytes are read as asked for. -/
@[simp] theorem length_readBytes (b : Store) (off len : Nat) :
    (readBytes b off len).length = len := by
  simp [readBytes]

/-- The bytes that are read are those of the store. -/
theorem getD_readBytes (b : Store) (off len i : Nat) :
    (readBytes b off len).getD i 0 = if i < len then b (off + i) else 0 := by
  by_cases h : i < len
  · simp [readBytes, h]
  · simp [readBytes, h]

/-- Reading no bytes. -/
theorem readBytes_zero (b : Store) (off : Nat) : readBytes b off 0 = [] := rfl

/-- Reading in two parts. -/
theorem readBytes_add (b : Store) (off m n : Nat) :
    readBytes b off (m + n) = readBytes b off m ++ readBytes b (off + m) n := by
  unfold readBytes
  rw [List.range_add, List.map_append, List.map_map]
  congr 1
  apply List.map_congr_left
  intro i _
  simp [Nat.add_assoc]

/-- Two ranges, of one medium or of two, that agree byte by byte read the same. -/
theorem readBytes_congr {b b' : Store} {off off' len : Nat}
    (h : ∀ i, i < len → b (off + i) = b' (off' + i)) :
    readBytes b off len = readBytes b' off' len := by
  unfold readBytes
  apply List.map_congr_left
  intro i hi
  exact h i (List.mem_range.mp hi)

/-- A list is what is read from a medium that has its bytes. -/
theorem eq_readBytes {l : List UInt8} {b : Store} {off len : Nat} (hlen : l.length = len)
    (h : ∀ i, i < len → l.getD i 0 = b (off + i)) : l = readBytes b off len := by
  apply List.ext_getElem
  · rw [hlen, length_readBytes]
  · intro i h1 h2
    rw [← List.getD_eq_getElem l 0 h1, ← List.getD_eq_getElem _ 0 h2, getD_readBytes,
      h i (by omega), if_pos (by omega)]

/-- A part of what was read. -/
theorem take_drop_readBytes (b : Store) (base size off len : Nat) :
    ((readBytes b base size).drop off).take len = readBytes b (base + off)
    (min len (size - off)) := by
  apply eq_readBytes
  · simp only [List.length_take, List.length_drop, length_readBytes]
  · intro i hi
    have h1 : i < len := by omega
    have h2 : off + i < size := by omega
    simp [List.getD_eq_getElem?_getD, h1, readBytes, h2, Nat.add_assoc]

/-- The bytes after a write. -/
theorem writeBytes_apply (b : Store) (off : Nat) (data : List UInt8) (a : Nat) :
    writeBytes b off data a =
      if off ≤ a ∧ a < off + data.length then data.getD (a - off) 0 else b a := rfl

/-- Writing no bytes changes nothing. -/
@[simp] theorem writeBytes_nil (b : Store) (off : Nat) : writeBytes b off [] = b := by
  funext a
  unfold writeBytes
  rw [if_neg]
  simp only [List.length_nil, Nat.add_zero]
  omega

/-- The bytes outside a write are as before. -/
theorem writeBytes_outside {b : Store} {off : Nat} {data : List UInt8} {a : Nat}
    (h : a < off ∨ off + data.length ≤ a) : writeBytes b off data a = b a := by
  unfold writeBytes
  rw [if_neg (by omega)]

/-- The bytes inside a write are those that were written. -/
theorem writeBytes_inside {b : Store} {off : Nat} {data : List UInt8} {i : Nat}
    (h : i < data.length) : writeBytes b off data (off + i) = data.getD i 0 := by
  unfold writeBytes
  rw [if_pos (by omega)]
  congr 1
  omega

/-- What was written is read back. -/
theorem readBytes_writeBytes_self (b : Store) (off : Nat) (data : List UInt8) :
    readBytes (writeBytes b off data) off data.length = data := by
  apply List.ext_getElem
  · simp
  · intro i h1 h2
    simp only [readBytes, List.getElem_map, List.getElem_range]
    rw [writeBytes_inside h2, List.getD_eq_getElem _ _ h2]

/-- A write outside a range leaves what is read there alone. -/
theorem readBytes_writeBytes_of_disjoint {b : Store} {off len off' : Nat} {data : List UInt8}
    (h : off' + data.length ≤ off ∨ off + len ≤ off') :
    readBytes (writeBytes b off' data) off len = readBytes b off len := by
  apply readBytes_congr
  intro i hi
  exact writeBytes_outside (by omega)

/-- Writing in two parts is writing the whole. -/
theorem writeBytes_append (b : Store) (off : Nat) (d₁ d₂ : List UInt8) :
    writeBytes (writeBytes b off d₁) (off + d₁.length) d₂ = writeBytes b off (d₁ ++ d₂) := by
  funext a
  simp only [writeBytes_apply, List.length_append]
  by_cases h₂ : off + d₁.length ≤ a ∧ a < off + d₁.length + d₂.length
  · rw [if_pos h₂, if_pos (by omega), List.getD_append_right _ _ _ _ (by omega)]
    congr 1
    omega
  · rw [if_neg h₂]
    by_cases h₁ : off ≤ a ∧ a < off + d₁.length
    · rw [if_pos h₁, if_pos (by omega), List.getD_append _ _ _ _ (by omega)]
    · rw [if_neg h₁, if_neg (by omega)]

/-! ### Layouts -/

/-- The medium after writes made one after the other, each given by its offset and its data. -/
def writeAll (b : Store) (writes : List (Nat × List UInt8)) : Store :=
  writes.foldl (fun b w => writeBytes b w.1 w.2) b

/-- The first of some writes is done first. -/
theorem writeAll_cons (b : Store) (w : Nat × List UInt8) (ws : List (Nat × List UInt8)) :
    writeAll b (w :: ws) = writeAll (writeBytes b w.1 w.2) ws := rfl

/-- The bytes outside some writes are as before. -/
theorem writeAll_outside {b : Store} {writes : List (Nat × List UInt8)} {a : Nat}
    (h : ∀ w ∈ writes, a < w.1 ∨ w.1 + w.2.length ≤ a) : writeAll b writes a = b a := by
  induction writes generalizing b with
  | nil => rfl
  | cons w ws ih =>
    rw [writeAll_cons, ih fun v hv => h v (List.mem_cons_of_mem _ hv)]
    exact writeBytes_outside (h w (by simp))

/-- Things are written to places that lie one after the other: in the place of one of them stands
what was written of it. -/
theorem writeAll_apart {ι : Type} {b : Store} {l : List ι} {start room : ι → Nat}
    {data : ι → List UInt8} (hp : l.Pairwise fun i j => start i + room i ≤ start j)
    (hd : ∀ i ∈ l, (data i).length ≤ room i) {i : ι} (hi : i ∈ l) {k : Nat} (hk : k < room i) :
    writeAll b (l.map fun i => (start i, data i)) (start i + k) =
      writeBytes b (start i) (data i) (start i + k) := by
  induction l generalizing b with
  | nil => cases hi
  | cons j l ih =>
    have hp' := List.pairwise_cons.mp hp
    rw [List.map_cons, writeAll_cons]
    rcases List.mem_cons.mp hi with rfl | hmem
    · apply writeAll_outside
      intro w hw
      obtain ⟨j, hj, rfl⟩ := List.mem_map.mp hw
      have := hp'.1 j hj
      exact Or.inl (by show start i + k < start j; omega)
    · rw [ih hp'.2 (fun x hx => hd x (List.mem_cons_of_mem _ hx)) hmem]
      have h1 := hp'.1 i hmem
      have h2 := hd j (by simp)
      have hout : writeBytes b (start j) (data j) (start i + k) = b (start i + k) :=
        writeBytes_outside (Or.inr (by omega))
      show (if _ then _ else writeBytes b (start j) (data j) (start i + k)) = _
      rw [hout]
      rfl

/-! ### Buffers -/

/-- The buffer with `data` copied over its bytes from `off` on. -/
def patch (l : List UInt8) (off : Nat) (data : List UInt8) : List UInt8 :=
  l.take off ++ data ++ l.drop (off + data.length)

/-- Patching bytes leaves their number. -/
theorem length_patch {l : List UInt8} {off : Nat} {data : List UInt8}
    (h : off + data.length ≤ l.length) : (patch l off data).length = l.length := by
  simp only [patch, List.length_append, List.length_take, List.length_drop]
  omega

/-- Patching bytes leaves their number. -/
theorem length_patch_eq {l : List UInt8} {off n : Nat} {data : List UInt8} (hl : l.length = n)
    (h : off + data.length ≤ n) : (patch l off data).length = n := by
  rw [length_patch (by omega), hl]

/-- The bytes that were put in are read back. -/
theorem take_drop_patch {l data : List UInt8} {start : Nat} (h : start + data.length ≤ l.length) :
    ((patch l start data).drop start).take data.length = data := by
  unfold patch
  have htake : (l.take start).length = start := by
    rw [List.length_take]
    omega
  rw [List.append_assoc, List.drop_append_of_le_length (by omega),
    List.drop_of_length_le (by omega),
    List.nil_append, List.take_left]

/-- The bytes after a patch. -/
theorem getD_patch {l : List UInt8} {off : Nat} {data : List UInt8}
    (h : off + data.length ≤ l.length) (i : Nat) :
    (patch l off data).getD i 0 =
      if off ≤ i ∧ i < off + data.length then data.getD (i - off) 0 else l.getD i 0 := by
  have htake : (l.take off).length = off := by
    rw [List.length_take]
    omega
  unfold patch
  rw [List.append_assoc]
  by_cases h1 : i < off
  · rw [List.getD_append _ _ _ _ (by omega), if_neg (by omega)]
    simp only [List.getD_eq_getElem?_getD, List.getElem?_take, h1, if_true]
  · rw [List.getD_append_right _ _ _ _ (by omega), htake]
    by_cases h2 : i < off + data.length
    · rw [List.getD_append _ _ _ _ (by omega), if_pos (by omega)]
    · rw [List.getD_append_right _ _ _ _ (by omega), if_neg (by omega)]
      simp only [List.getD_eq_getElem?_getD, List.getElem?_drop]
      congr 2
      omega

/-- Reading a range, changing a part of it and writing it back is writing the part. -/
theorem writeBytes_patch {b : Store} {off len start : Nat} {data : List UInt8}
    (h : start + data.length ≤ len) :
    writeBytes b off (patch (readBytes b off len) start data) = writeBytes b
      (off + start) data := by
  have hlen : (patch (readBytes b off len) start data).length = len := by
    rw [length_patch (by simpa using h), length_readBytes]
  funext a
  rw [writeBytes_apply, writeBytes_apply, hlen, getD_patch (by simpa using h)]
  by_cases hin : off + start ≤ a ∧ a < off + start + data.length
  · rw [if_pos (by omega), if_pos (by omega), if_pos hin]
    congr 1
    omega
  · rw [if_neg hin]
    by_cases hout : off ≤ a ∧ a < off + len
    · rw [if_pos hout, if_neg (by omega), getD_readBytes, if_pos (by omega)]
      congr 1
      omega
    · rw [if_neg hout]

/-! ### Little-endian numbers -/

/-- The number stored in a list of bytes, least significant byte first. -/
def leNat : List UInt8 → Nat
  | [] => 0
  | b :: bs => b.toNat + 256 * leNat bs

/-- The `k` bytes a number is stored in, least significant byte first. -/
def natLe : Nat → Nat → List UInt8
  | 0, _ => []
  | k + 1, n => UInt8.ofNat n :: natLe k (n / 256)

/-- A number is written in as many bytes as asked for. -/
@[simp] theorem length_natLe (k n : Nat) : (natLe k n).length = k := by
  induction k generalizing n with
  | zero => rfl
  | succ k ih => simp [natLe, ih]

/-- The number in some bytes is below their power. -/
theorem leNat_lt (l : List UInt8) : leNat l < 256 ^ l.length := by
  induction l with
  | nil => simp [leNat]
  | cons b bs ih =>
    have hb : b.toNat < 256 := b.toNat_lt
    simp only [leNat, List.length_cons, pow_succ]
    omega

/-- Reading back a stored number gives the number, as far as it fits. -/
theorem leNat_natLe (k n : Nat) : leNat (natLe k n) = n % 256 ^ k := by
  induction k generalizing n with
  | zero => simp [natLe, leNat, Nat.mod_one]
  | succ k ih =>
    simp only [natLe, leNat, ih]
    have h1 : (UInt8.ofNat n).toNat = n % 256 := by simp
    rw [h1, pow_succ, mul_comm (256 ^ k) 256, Nat.mod_mul]

/-- A number that fits is read back. -/
theorem leNat_natLe_of_lt {k n : Nat} (h : n < 256 ^ k) : leNat (natLe k n) = n := by
  rw [leNat_natLe, Nat.mod_eq_of_lt h]

/-- Numbers stored one after the other: each of them is found in its place. -/
theorem getD_flatten_natLe (k : Nat) (l : List Nat) {i j : Nat} (hi : i < l.length) (hj : j < k) :
    (l.map (natLe k)).flatten.getD (k * i + j) 0 = (natLe k (l.getD i 0)).getD j 0 := by
  induction l generalizing i with
  | nil => exact absurd hi (Nat.not_lt_zero _)
  | cons x l ih =>
    rw [List.map_cons, List.flatten_cons]
    cases i with
    | zero =>
      rw [Nat.mul_zero, Nat.zero_add, List.getD_append _ _ _ _ (by rwa [length_natLe])]
      rfl
    | succ i =>
      rw [List.getD_append_right _ _ _ _ (by rw [length_natLe, Nat.mul_succ]; omega), length_natLe,
        show k * (i + 1) + j - k = k * i + j by rw [Nat.mul_succ]; omega,
        ih (by simpa using hi)]
      rfl

/-! ### Bits -/

/-- The number whose `n` lowest bits are given by `f`, as a sum. -/
def bitsNat (f : Nat → Bool) (n : Nat) : Nat :=
  (List.range n).foldl (fun v b => v + if f b then 2 ^ b else 0) 0

/-- The number of some bits, the last one apart. -/
theorem bitsNat_succ (f : Nat → Bool) (n : Nat) :
    bitsNat f (n + 1) = bitsNat f n + if f n then 2 ^ n else 0 := by
  unfold bitsNat
  rw [List.range_succ, List.foldl_append]
  rfl

/-- The number of some bits is below their power of two. -/
theorem bitsNat_lt (f : Nat → Bool) (n : Nat) : bitsNat f n < 2 ^ n := by
  induction n with
  | zero => exact Nat.one_pos
  | succ n ih =>
    rw [bitsNat_succ, pow_succ]
    split <;> omega

/-- The bits of the number of some bits. -/
theorem testBit_bitsNat (f : Nat → Bool) (n j : Nat) :
    (bitsNat f n).testBit j = (decide (j < n) && f j) := by
  induction n with
  | zero => simp [bitsNat]
  | succ n ih =>
    have hlt := bitsNat_lt f n
    rw [bitsNat_succ]
    by_cases hf : f n = true
    · rw [if_pos hf, Nat.add_comm]
      rcases Nat.lt_trichotomy j n with h | rfl | h
      · rw [Nat.testBit_two_pow_add_gt h, ih]
        simp [h, Nat.lt_succ_of_lt h]
      · rw [Nat.testBit_two_pow_add_eq, Nat.testBit_lt_two_pow hlt]
        simp [hf]
      · have hle : 2 ^ (n + 1) ≤ 2 ^ j := Nat.pow_le_pow_right (by omega) h
        rw [Nat.testBit_lt_two_pow (by rw [pow_succ] at hle; omega)]
        simp
        omega
    · rw [if_neg hf, Nat.add_zero, ih]
      by_cases hj : j = n
      · subst hj
        simp [hf]
      · rw [decide_eq_decide.mpr (show j < n ↔ j < n + 1 by omega)]

/-- The number in the `n` bytes of a buffer from `off` on; bytes past its end count as zero. -/
def leAt (l : List UInt8) (off n : Nat) : Nat :=
  leNat ((List.range n).map fun i => l.getD (off + i) 0)

/-- A field is below the power of its bytes. -/
theorem leAt_lt (l : List UInt8) (off n : Nat) : leAt l off n < 256 ^ n := by
  have h := leNat_lt ((List.range n).map fun i => l.getD (off + i) 0)
  simpa [leAt] using h

/-- Buffers that agree on the bytes of a number hold the same number. -/
theorem leAt_congr {l l' : List UInt8} {off n : Nat}
    (h : ∀ i, off ≤ i → i < off + n → l.getD i 0 = l'.getD i 0) : leAt l off n = leAt l' off n := by
  unfold leAt
  congr 1
  apply List.map_congr_left
  intro i hi
  have hi' := List.mem_range.mp hi
  exact h _ (by omega) (by omega)

/-- Bytes of the same length with the same number are the same. -/
theorem leNat_injective {l l' : List UInt8} (hlen : l.length = l'.length) (h : leNat l = leNat l') :
    l = l' := by
  induction l generalizing l' with
  | nil => exact (List.length_eq_zero_iff.mp hlen.symm).symm
  | cons x l ih =>
    cases l' with
    | nil => exact absurd hlen (by simp)
    | cons y l' =>
      have hx : x.toNat < 256 := x.toNat_lt
      have hy : y.toNat < 256 := y.toNat_lt
      simp only [leNat] at h
      have hhead : x = y := UInt8.toNat_inj.mp (by omega)
      have htail : l = l' := ih (by simpa using hlen) (by omega)
      rw [hhead, htail]

/-- A field inside some bytes is the number of its bytes. -/
theorem leAt_eq_leNat {l : List UInt8} {off n : Nat} (h : off + n ≤ l.length) :
    leAt l off n = leNat ((l.drop off).take n) := by
  unfold leAt
  congr 1
  apply List.ext_getElem
  · simp only [List.length_map, List.length_range, List.length_take, List.length_drop]
    omega
  · intro i h1 h2
    simp only [List.length_map, List.length_range] at h1
    simp [List.getD_eq_getElem?_getD, show off + i < l.length by omega]

/-- A field of bytes that were read is the number of the bytes of the store. -/
theorem leAt_readBytes {b : Store} {off len k n : Nat} (h : k + n ≤ len) :
    leAt (readBytes b off len) k n = leNat (readBytes b (off + k) n) := by
  show leNat _ = leNat ((List.range n).map fun i => b (off + k + i))
  congr 1
  apply List.map_congr_left
  intro i hi
  have hi' := List.mem_range.mp hi
  rw [getD_readBytes, if_pos (by omega), Nat.add_assoc]

/-- A number written into a buffer is read back from it. -/
theorem leAt_patch_self {l : List UInt8} {off k n : Nat} (h : off + k ≤ l.length) :
    leAt (patch l off (natLe k n)) off k = n % 256 ^ k := by
  rw [← leNat_natLe]
  unfold leAt
  congr 1
  apply List.ext_getElem
  · simp
  · intro i h1 h2
    rw [length_natLe] at h2
    simp only [List.getElem_map, List.getElem_range]
    rw [getD_patch (by simpa using h), if_pos (by simp; omega)]
    rw [List.getD_eq_getElem _ _ (by simp; omega)]
    congr 1
    omega

/-- A write beside a number leaves it alone. -/
theorem leAt_patch_of_disjoint {l data : List UInt8} {off off' n : Nat}
    (h : off' + data.length ≤ l.length) (hd : off' + data.length ≤ off ∨ off + n ≤ off') :
    leAt (patch l off' data) off n = leAt l off n := by
  apply leAt_congr
  intro i h1 h2
  rw [getD_patch h, if_neg (by omega)]

end ExFat.Bytes
