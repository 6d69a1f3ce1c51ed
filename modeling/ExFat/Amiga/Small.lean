import Mathlib.Data.Nat.Log
import Mathlib.Data.Int.Basic
import Mathlib.Tactic.Ring

namespace ExFat

/-!
# `small.c`: the division the handler is linked with

Every 64-bit division of the handler goes through `exfat_small_udivmod64`.  The words are `BitVec
64`: a shift drops the bits that leave the word, and the negation of a signed word wraps around, as
the `neg` of the processor does.
-/

/-! ### The code -/

/-- `while ((d >> shift) != 1) shift++`, from `shift` on. -/
def shiftLoop (d : BitVec 64) : (fuel shift : Nat) → Option Nat
  | 0, _ => none
  | fuel + 1, shift => if d >>> shift = 1 then some shift else shiftLoop d fuel (shift + 1)

/-- The body of the shift-subtract loop, for bit `i`. -/
def divStep (n d : BitVec 64) (i : Nat) (q r : BitVec 64) : BitVec 64 × BitVec 64 :=
  let r := r <<< 1 ||| (n >>> i &&& 1)
  if d ≤ r then (q ||| (1 : BitVec 64) <<< i, r - d) else (q, r)

/-- `q` and `r` after the first `k` rounds of the loop. -/
def divLoop (n d : BitVec 64) : (k : Nat) → BitVec 64 × BitVec 64
  | 0 => (0, 0)
  | k + 1 => divStep n d (63 - k) (divLoop n d k).1 (divLoop n d k).2

/-- `exfat_small_udivmod64`: the quotient and what is stored in `*rem`. -/
def exfatSmallUdivmod64 (n d : BitVec 64) : Option (BitVec 64 × BitVec 64) :=
  if d = 0 then some (0, 0)
  else if d &&& (d - 1) = 0 then (shiftLoop d 64 0).map fun shift => (n >>> shift, n &&& (d - 1))
  else if n >>> 32 = 0 ∧ d >>> 32 = 0 then
    let a := n.setWidth 32
    let b := d.setWidth 32
    some ((a / b).setWidth 64, (a % b).setWidth 64)
  else some (divLoop n d 64)

/-- `__udivdi3`. -/
def udivdi3 (n d : BitVec 64) : Option (BitVec 64) := (exfatSmallUdivmod64 n d).map Prod.fst

/-- `__divdi3`. -/
def divdi3 (n d : BitVec 64) : Option (BitVec 64) :=
  let neg := n.slt 0 ^^ d.slt 0
  let n := if n.slt 0 then -n else n
  let d := if d.slt 0 then -d else d
  (udivdi3 n d).map fun q => if neg then -q else q

/-! ### A power of two -/

/-- The loop finds the power of two. -/
theorem shiftLoop_eq {d : BitVec 64} {k : Nat} (hd : d.toNat = 2 ^ k) {fuel shift : Nat}
    (hle : shift ≤ k) (hfuel : k < shift + fuel) : shiftLoop d fuel shift = some k := by
  induction fuel generalizing shift with
  | zero => omega
  | succ fuel ih =>
    have hshift : (d >>> shift).toNat = 2 ^ (k - shift) := by
      rw [BitVec.toNat_ushiftRight, hd, Nat.shiftRight_eq_div_pow, Nat.pow_div hle (by decide)]
    unfold shiftLoop
    split
    next h =>
      rw [h] at hshift
      have hzero : k - shift = 0 := by
        by_contra hne
        have := Nat.one_lt_two_pow hne
        rw [← hshift] at this
        exact absurd this (by decide)
      exact congrArg some (by omega)
    next h =>
      have hne : shift ≠ k := by
        rintro rfl
        refine h (BitVec.eq_of_toNat_eq ?_)
        rw [hshift, Nat.sub_self]
        rfl
      exact ih (by omega) (by omega)

/-- The divisors that take the first path. -/
theorem toNat_eq_two_pow {d : BitVec 64} (hd : d ≠ 0) (h : d &&& (d - 1) = 0) :
    ∃ k < 64, d.toNat = 2 ^ k := by
  have hne : d.toNat ≠ 0 := fun hz => hd (BitVec.eq_of_toNat_eq hz)
  have hsub : (d - 1).toNat = d.toNat - 1 := by
    rw [BitVec.toNat_sub_of_le]
    · rfl
    · exact BitVec.le_def.2 (Nat.one_le_iff_ne_zero.2 hne)
  have hand : d.toNat &&& (d.toNat - 1) = 0 := by
    rw [← hsub, ← BitVec.toNat_and, h]
    rfl
  obtain ⟨k, hk⟩ := (Nat.and_sub_one_eq_zero_iff_isPowerOfTwo hne).1 hand
  refine ⟨k, ?_, hk⟩
  rw [← Nat.pow_lt_pow_iff_right (a := 2) (by decide), ← hk]
  exact d.isLt

/-! ### The shift-subtract loop -/

/-- Division of a prefix of the dividend that is one bit longer. -/
theorem divMod_bit {p d bit : Nat} (hd : 0 < d) (hbit : bit < 2) :
    (2 * p + bit) / d = 2 * (p / d) + (if d ≤ 2 * (p % d) + bit then 1 else 0) ∧
      (2 * p + bit) % d = 2 * (p % d) + bit - (if d ≤ 2 * (p % d) + bit then d else 0) := by
  have hp := Nat.div_add_mod p d
  have hlt := Nat.mod_lt p hd
  rw [Nat.div_mod_unique hd]
  split
  next hle =>
    refine ⟨?_, by omega⟩
    have : d * (2 * (p / d) + 1) = 2 * (d * (p / d)) + d := by ring
    omega
  next hgt =>
    refine ⟨?_, by omega⟩
    have : d * (2 * (p / d) + 0) = 2 * (d * (p / d)) := by ring
    omega

/-- The state before bit `left - 1`: the remainder of the bits above it, and their quotient at its
place. -/
structure DivState (n d : BitVec 64) (left : Nat) (q r : BitVec 64) : Prop where
  quotient : q.toNat = n.toNat / 2 ^ left / d.toNat * 2 ^ left
  remainder : r.toNat = n.toNat / 2 ^ left % d.toNat

/-- Before bit `i` the remainder is below 2^63, so that the shift drops nothing. -/
theorem DivState.lt {n d : BitVec 64} {i : Nat} {q r : BitVec 64} (h : DivState n d (i + 1) q r) :
    2 * r.toNat + 1 < 2 ^ 64 := by
  have hle : r.toNat ≤ n.toNat / 2 := by
    rw [h.remainder, Nat.pow_succ', ← Nat.div_div_eq_div_mul]
    exact (Nat.mod_le _ _).trans (Nat.div_le_self _ _)
  have hn := n.isLt
  omega

/-- A step of the long division brings down one bit. -/
theorem DivState.step {n d : BitVec 64} (hd : d ≠ 0) {i : Nat} (hi : i < 64) {q r : BitVec 64}
    (h : DivState n d (i + 1) q r) :
    DivState n d i (divStep n d i q r).1 (divStep n d i q r).2 := by
  have hpos : 0 < d.toNat := Nat.pos_of_ne_zero fun hz => hd (BitVec.eq_of_toNat_eq hz)
  let p := n.toNat / 2 ^ (i + 1)
  let bit := n.toNat / 2 ^ i % 2
  have hbit : bit < 2 := Nat.mod_lt _ (by decide)
  have hprefix : n.toNat / 2 ^ i = 2 * p + bit := by
    -- the prefix of `i + 1` bits is that of `i` bits without the last one
    have hp : p = n.toNat / 2 ^ i / 2 := by
      show n.toNat / 2 ^ (i + 1) = _
      rw [Nat.pow_succ, Nat.div_div_eq_div_mul]
    rw [hp]
    exact (Nat.div_add_mod _ 2).symm
  -- the remainder with the next bit behind it
  have hshift : (r <<< 1 ||| (n >>> i &&& 1)).toNat = 2 * (p % d.toNat) + bit := by
    have hlt := h.lt
    have hone : (1 : BitVec 64).toNat = 1 := rfl
    rw [BitVec.toNat_or, BitVec.toNat_shiftLeft, BitVec.toNat_and, BitVec.toNat_ushiftRight, hone,
      Nat.and_one_is_mod, Nat.shiftRight_eq_div_pow, Nat.shiftLeft_eq, Nat.pow_one,
      Nat.mod_eq_of_lt (by omega), ← h.remainder]
    have hadd := Nat.shiftLeft_add_eq_or_of_lt (i := 1) hbit r.toNat
    rw [Nat.shiftLeft_eq, Nat.pow_one] at hadd
    rw [← hadd, Nat.mul_comm]
  obtain ⟨hdiv, hmod⟩ := divMod_bit (p := p) hpos hbit
  unfold divStep
  dsimp only
  -- The divisor goes into it once more, or not.
  split
  next hle =>
    have hle' : d.toNat ≤ 2 * (p % d.toNat) + bit := hshift ▸ BitVec.le_def.1 hle
    rw [if_pos hle'] at hdiv hmod
    refine ⟨?_, ?_⟩
    · -- the new bit is below those of the prefix
      have hbitq : ((1 : BitVec 64) <<< i).toNat = 2 ^ i := by
        rw [BitVec.toNat_shiftLeft, Nat.shiftLeft_eq]
        show 1 * 2 ^ i % 2 ^ 64 = _
        rw [Nat.one_mul, Nat.mod_eq_of_lt (Nat.pow_lt_pow_right (by decide) hi)]
      have hadd := Nat.shiftLeft_add_eq_or_of_lt (b := 2 ^ i) (i := i + 1)
        (Nat.pow_lt_pow_right (by decide) (Nat.lt_succ_self i)) (p / d.toNat)
      rw [Nat.shiftLeft_eq] at hadd
      rw [BitVec.toNat_or, hbitq, h.quotient, ← hadd, hprefix, hdiv]
      ring
    · rw [BitVec.toNat_sub_of_le hle, hshift, hprefix, hmod]
  next hgt =>
    have hgt' : ¬ d.toNat ≤ 2 * (p % d.toNat) + bit := hshift ▸ fun hle => hgt (BitVec.le_def.2 hle)
    rw [if_neg hgt'] at hdiv hmod
    refine ⟨?_, ?_⟩
    · rw [h.quotient, hprefix, hdiv]
      show p / d.toNat * 2 ^ (i + 1) = (2 * (p / d.toNat) + 0) * 2 ^ i
      ring
    · rw [hshift, hprefix, hmod, Nat.sub_zero]

/-- What every round of the loop finds. -/
theorem divState_divLoop (n : BitVec 64) {d : BitVec 64} (hd : d ≠ 0) {k : Nat} (hk : k ≤ 64) :
    DivState n d (64 - k) (divLoop n d k).1 (divLoop n d k).2 := by
  induction k with
  | zero =>
    have hzero : n.toNat / 2 ^ 64 = 0 := Nat.div_eq_of_lt n.isLt
    refine ⟨?_, ?_⟩
    · rw [Nat.sub_zero, hzero, Nat.zero_div, Nat.zero_mul]
      rfl
    · rw [Nat.sub_zero, hzero, Nat.zero_mod]
      rfl
  | succ k ih =>
    have hleft : 64 - k = 63 - k + 1 := by omega
    have hstate := ih (by omega)
    rw [hleft] at hstate
    rw [show 64 - (k + 1) = 63 - k by omega]
    exact hstate.step hd (by omega)

/-- The long division divides. -/
theorem divLoop_eq (n : BitVec 64) {d : BitVec 64} (hd : d ≠ 0) :
    divLoop n d 64 = (n / d, n % d) := by
  have h := divState_divLoop n hd le_rfl
  refine Prod.ext (BitVec.eq_of_toNat_eq ?_) (BitVec.eq_of_toNat_eq ?_)
  · rw [h.quotient, BitVec.toNat_udiv]
    simp
  · rw [h.remainder, BitVec.toNat_umod]
    simp

/-- The shift keeps all bits of the remainder, whatever the divisor is. -/
theorem divLoop_shift (n : BitVec 64) {d : BitVec 64} (hd : d ≠ 0) {k : Nat} (hk : k < 64) :
    ((divLoop n d k).2 <<< 1).toNat = 2 * (divLoop n d k).2.toNat := by
  have hstate := divState_divLoop n hd hk.le
  rw [show 64 - k = 63 - k + 1 by omega] at hstate
  have hlt := hstate.lt
  rw [BitVec.toNat_shiftLeft, Nat.shiftLeft_eq, Nat.pow_one, Nat.mul_comm,
    Nat.mod_eq_of_lt (by omega)]

/-! ### The three paths -/

/-- `exfat_small_udivmod64` divides, with a remainder. -/
theorem exfatSmallUdivmod64_eq (n : BitVec 64) {d : BitVec 64} (hd : d ≠ 0) :
    exfatSmallUdivmod64 n d = some (n / d, n % d) := by
  unfold exfatSmallUdivmod64
  rw [if_neg hd]
  -- a power of two: a shift and a mask
  split
  next hpow =>
    obtain ⟨k, hk, hdk⟩ := toNat_eq_two_pow hd hpow
    rw [shiftLoop_eq hdk (Nat.zero_le k) (by omega), Option.map_some]
    have hsub : (d - 1).toNat = 2 ^ k - 1 := by
      rw [BitVec.toNat_sub_of_le, hdk]
      · rfl
      · rw [BitVec.le_def, hdk]
        exact Nat.one_le_two_pow
    refine congrArg some (Prod.ext (BitVec.eq_of_toNat_eq ?_) (BitVec.eq_of_toNat_eq ?_))
    · rw [BitVec.toNat_ushiftRight, BitVec.toNat_udiv, Nat.shiftRight_eq_div_pow, hdk]
    · rw [BitVec.toNat_and, BitVec.toNat_umod, hsub, Nat.and_two_pow_sub_one_eq_mod, hdk]
  -- two numbers of 32 bits: the division of the machine
  next =>
    split
    next hsmall =>
      have hlow : ∀ {x : BitVec 64}, x >>> 32 = 0 → x.toNat < 2 ^ 32 := by
        intro x hx
        have hzero : x.toNat / 2 ^ 32 = 0 := by
          rw [← Nat.shiftRight_eq_div_pow, ← BitVec.toNat_ushiftRight, hx]
          rfl
        exact (Nat.div_eq_zero_iff.1 hzero).resolve_left (by decide)
      have hn := hlow hsmall.1
      have hd' := hlow hsmall.2
      refine congrArg some (Prod.ext (BitVec.eq_of_toNat_eq ?_) (BitVec.eq_of_toNat_eq ?_))
      · have hle : n.toNat / d.toNat ≤ n.toNat := Nat.div_le_self _ _
        simp only [BitVec.toNat_setWidth, BitVec.toNat_udiv]
        rw [Nat.mod_eq_of_lt hn, Nat.mod_eq_of_lt hd', Nat.mod_eq_of_lt (by omega)]
      · have hle : n.toNat % d.toNat ≤ n.toNat := Nat.mod_le _ _
        simp only [BitVec.toNat_setWidth, BitVec.toNat_umod]
        rw [Nat.mod_eq_of_lt hn, Nat.mod_eq_of_lt hd', Nat.mod_eq_of_lt (by omega)]
    -- anything else: bit by bit
    next => exact congrArg some (divLoop_eq n hd)

/-- `__udivdi3` divides. -/
theorem udivdi3_eq (n : BitVec 64) {d : BitVec 64} (hd : d ≠ 0) : udivdi3 n d = some (n / d) := by
  unfold udivdi3
  rw [exfatSmallUdivmod64_eq n hd, Option.map_some]

/-- The signs are taken off, and the quotient gets the one it has to have. -/
theorem divdi3_eq (n : BitVec 64) {d : BitVec 64} (hd : d ≠ 0) : divdi3 n d = some (n.sdiv d) := by
  have hneg : -d ≠ 0 := fun h => hd (BitVec.neg_eq_zero_iff.1 h)
  unfold divdi3
  dsimp only
  rw [BitVec.sdiv_eq, show n.slt 0 = n.msb from BitVec.slt_zero_eq_msb,
    show d.slt 0 = d.msb from BitVec.slt_zero_eq_msb]
  cases n.msb with
  | false =>
    cases d.msb with
    | false => simp [udivdi3_eq _ hd]
    | true => simp [udivdi3_eq _ hneg]
  | true =>
    cases d.msb with
    | false => simp [udivdi3_eq _ hd]
    | true => simp [udivdi3_eq _ hneg]

/-- The division of the handler is the division of whole numbers. -/
theorem exfatSmallUdivmod64_euclidean (n d : BitVec 64) (hd : d ≠ 0) :
    (∃ q r, exfatSmallUdivmod64 n d = some (q, r) ∧ n.toNat = q.toNat * d.toNat + r.toNat ∧
      r.toNat < d.toNat) ∧
    (∀ k < 64, ((divLoop n d k).2 <<< 1).toNat = 2 * (divLoop n d k).2.toNat) ∧
    (n ≠ BitVec.intMin 64 ∨ d ≠ -1 → ∃ q, divdi3 n d = some q ∧
      q.toInt = n.toInt.tdiv d.toInt) := by
  have hpos : 0 < d.toNat := Nat.pos_of_ne_zero fun hz => hd (BitVec.eq_of_toNat_eq hz)
  refine ⟨⟨_, _, exfatSmallUdivmod64_eq n hd, ?_, ?_⟩, fun k hk => divLoop_shift n hd hk,
    fun hfits => ⟨_, divdi3_eq n hd, BitVec.toInt_sdiv_of_ne_or_ne n d hfits⟩⟩
  · rw [BitVec.toNat_udiv, BitVec.toNat_umod, Nat.mul_comm]
    exact (Nat.div_add_mod _ _).symm
  · rw [BitVec.toNat_umod]
    exact Nat.mod_lt _ hpos

/-- A divisor above 2^63. -/
theorem exfatSmallUdivmod64_euclidean_wide :
    (∃ q r, exfatSmallUdivmod64 (-1) (BitVec.intMin 64 + 1) = some (q, r) ∧
      (-1 : BitVec 64).toNat = q.toNat * (BitVec.intMin 64 + 1).toNat + r.toNat ∧
      r.toNat < (BitVec.intMin 64 + 1).toNat) ∧
    (∀ k < 64, ((divLoop (-1) (BitVec.intMin 64 + 1) k).2 <<< 1).toNat =
      2 * (divLoop (-1) (BitVec.intMin 64 + 1) k).2.toNat) ∧
    ∃ q, divdi3 (-1) (BitVec.intMin 64 + 1) = some q ∧
      q.toInt = (-1 : BitVec 64).toInt.tdiv (BitVec.intMin 64 + 1).toInt := by
  obtain ⟨hdiv, hshift, hsigned⟩ :=
    exfatSmallUdivmod64_euclidean (-1) (BitVec.intMin 64 + 1) (by decide)
  exact ⟨hdiv, hshift, hsigned (.inl (by decide))⟩

end ExFat
