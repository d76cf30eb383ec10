import Mathlib.Algebra.Order.Field.Power
import Mathlib.Data.Nat.Cast.Order.Field
import Mathlib.Data.Rat.Cast.Order
import Mathlib.Data.UInt
import Mathlib.Tactic.FieldSimp
import Mathlib.Tactic.GCongr
import Mathlib.Tactic.NormNum
import Mathlib.Tactic.Positivity
import Mathlib.Tactic.Ring

/-!
# `double` arithmetic

`computeFreqHist` computes how many keys to ignore in `double`:

    int64_t totalUniqueMinmers = this->minmerPosLookupIndex.size();
    int64_t minmerToIgnore = totalUniqueMinmers * param.kmer_pct_threshold / 100;

`totalUniqueMinmers` and `100` are converted to `double`; the product and the quotient
are each rounded to the nearest `double` (IEEE 754 binary64, ties to even; a result of
`2^1024` or more is an infinity); and the quotient is converted back to `int64_t` by
truncation toward zero. That conversion is undefined behaviour for NaN, the infinities
and every value whose truncation does not fit `int64_t`.

`kmer_pct_threshold` is kept as its 64 bits (`decode`). A `double` is a sign and a
magnitude `m · 2^e`, an infinity, or NaN (`DoubleVal`); zero keeps its sign, as IEEE
division by zero needs it. Rounding works on magnitudes, exactly and in natural numbers,
so that a proof can evaluate it (`roundMag`): the last bit a `double` keeps at the
magnitude `x` is at `max (-1074) (⌊log₂ x⌋ - 52)`, subnormals included, and the
quotient at that place is rounded half to even.

## What is proved

* `roundMag_le` — rounding never passes a `double` at or above the exact value, and so
  stays finite below `2^1024`.
* `minmerToIgnore_of_percentile` — for a `kmer_pct_threshold` in `[0, 100]` and fewer
  than `2^62` keys, the conversion to `int64_t` is defined and `minmerToIgnore` is not
  negative.
-/

namespace Wfmash.Skch

/-! ### `⌊log₂⌋` -/

/-- `⌊log₂ n⌋` (`0` below `2`), taking eight bits at a time while it can, then one;
`fuel` bounds the steps. -/
def log2Fuel : Nat → Nat → Nat
  | 0, _ => 0
  | fuel + 1, n =>
    if n >>> 8 ≠ 0 then log2Fuel fuel (n >>> 8) + 8
    else if n < 2 then 0 else log2Fuel fuel (n >>> 1) + 1

/-- `⌊log₂ n⌋`, by structural recursion, so that a proof can evaluate it. -/
def log2 (n : Nat) : Nat := log2Fuel n n

theorem log2_div_two_pow {n k : Nat} (h : 2 ^ k ≤ n) :
    Nat.log2 (n / 2 ^ k) + k = Nat.log2 n := by
  have hn : n ≠ 0 := by have := Nat.one_le_two_pow (n := k); omega
  have hq : n / 2 ^ k ≠ 0 := (Nat.div_pos h (Nat.two_pow_pos k)).ne'
  apply le_antisymm
  · rw [Nat.le_log2 hn, pow_add]
    calc 2 ^ (n / 2 ^ k).log2 * 2 ^ k ≤ n / 2 ^ k * 2 ^ k :=
          Nat.mul_le_mul_right _ (Nat.log2_self_le hq)
      _ ≤ n := Nat.div_mul_le_self _ _
  · have hlt : n < 2 ^ ((n / 2 ^ k).log2 + 1 + k) := by
      rw [pow_add]
      exact (Nat.div_lt_iff_lt_mul (Nat.two_pow_pos k)).mp Nat.lt_log2_self
    have := (Nat.log2_lt hn).mpr hlt
    omega

theorem log2Fuel_eq (fuel n : Nat) (h : n ≤ fuel) : log2Fuel fuel n = Nat.log2 n := by
  induction fuel generalizing n with
  | zero =>
    obtain rfl : n = 0 := by omega
    rw [Nat.log2.eq_1, if_neg (by omega)]
    rfl
  | succ fuel ih =>
    unfold log2Fuel
    rw [Nat.shiftRight_eq_div_pow, Nat.shiftRight_eq_div_pow]
    split
    · -- eight bits
      rename_i h8
      have h256 : 2 ^ 8 ≤ n := by
        by_contra hlt
        exact h8 (Nat.div_eq_of_lt (by omega))
      rw [ih _ (by omega), log2_div_two_pow h256]
    · split
      · rw [Nat.log2.eq_1, if_neg (by omega)]
      · rw [ih _ (by omega), log2_div_two_pow (k := 1) (by omega)]

@[simp] theorem log2_eq (n : Nat) : log2 n = Nat.log2 n := log2Fuel_eq n n le_rfl

/-- `⌊log₂ (a / b)⌋` for `0 < a` and `0 < b`: `⌊log₂ a⌋ - ⌊log₂ b⌋`, or one less. -/
def flog (a b : Nat) : Int :=
  let k : Int := (log2 a : Int) - log2 b
  if b * 2 ^ k.toNat ≤ a * 2 ^ (-k).toNat then k else k - 1

/-- `2^d` as a quotient of natural powers. -/
theorem two_zpow_eq (d : Int) : (2 : ℚ) ^ d = 2 ^ d.toNat / 2 ^ (-d).toNat := by
  obtain ⟨n, rfl | rfl⟩ := Int.eq_nat_or_neg d
  · simp
  · rw [zpow_neg, zpow_natCast, neg_neg, Int.toNat_natCast, Int.toNat_neg_nat, pow_zero, one_div]

theorem two_zpow_flog_le {a b : Nat} (ha : a ≠ 0) (hb : b ≠ 0) : (2 : ℚ) ^ flog a b ≤ a / b := by
  dsimp only [flog]
  split
  · rename_i h
    rw [two_zpow_eq, div_le_div_iff₀ (by positivity) (by positivity)]
    exact_mod_cast (Nat.mul_comm _ _).trans_le h
  · -- one less: `2^⌊log₂ a⌋ ≤ a` and `b < 2^(⌊log₂ b⌋ + 1)`
    rw [log2_eq, log2_eq, show ((Nat.log2 a : Int) - Nat.log2 b - 1) =
      (Nat.log2 a : Int) - (Nat.log2 b + 1 : Nat) by push_cast; ring, zpow_sub₀ two_ne_zero,
      zpow_natCast, zpow_natCast]
    apply div_le_div₀ (by positivity)
    · exact_mod_cast Nat.log2_self_le ha
    · exact_mod_cast Nat.pos_of_ne_zero hb
    · exact_mod_cast Nat.lt_log2_self.le

/-! ### Rounding a magnitude -/

/-- `n / den` rounded half to even. -/
def roundHalfEven (n den : Nat) : Nat :=
  if den < 2 * (n % den) ∨ 2 * (n % den) = den ∧ n / den % 2 = 1 then n / den + 1 else n / den

/-- Rounding a quotient never passes a natural number at or above it. -/
theorem roundHalfEven_le {n den M : Nat} (hden : 0 < den) (h : n ≤ M * den) :
    roundHalfEven n den ≤ M := by
  have hq : n / den ≤ M := Nat.div_le_of_le_mul (by rwa [Nat.mul_comm])
  unfold roundHalfEven
  split
  · rename_i hup
    -- rounding up needs a remainder, so the quotient was below `M`
    have hr : 0 < n % den := by omega
    by_contra hM
    have heq : n / den = M := by omega
    have := Nat.div_add_mod n den
    rw [heq, Nat.mul_comm] at this
    omega
  · exact hq

/-- The place of the last bit a `double` keeps at the magnitude `a / b · 2^e`. -/
def lastPlace (a b : Nat) (e : Int) : Int := max (-1074) (flog a b + e - 52)

/-- The magnitude `a / b · 2^e` rounded to the nearest `double`, ties to even: `some (q, f)`
for `q · 2^f`, or `none` when the result reaches `2^1024` (an infinity). -/
def roundMag (a b : Nat) (e : Int) : Option (Nat × Int) :=
  if a = 0 then some (0, 0)
  else
    let f := lastPlace a b e
    let q := roundHalfEven (a * 2 ^ (e - f).toNat) (b * 2 ^ (f - e).toNat)
    if q ≠ 0 ∧ 1024 ≤ (log2 q : Int) + f then none else some (q, f)

@[simp] theorem roundMag_zero (b : Nat) (e : Int) : roundMag 0 b e = some (0, 0) := rfl

/-- **Rounding stays below a `double` above it.** When the exact magnitude is at most
`c · 2^k`, a `double` (`c < 2^53`, `-1074 ≤ k`) below `2^1024`, its rounding is finite
and at most `c · 2^k`. -/
theorem roundMag_le {a b c : Nat} {e k : Int} (hb : b ≠ 0) (hc : c < 2 ^ 53) (hk : -1074 ≤ k)
    (hk' : k ≤ 970) (hx : (a : ℚ) / b * 2 ^ e ≤ c * 2 ^ k) :
    ∃ q f, roundMag a b e = some (q, f) ∧ (q : ℚ) * 2 ^ f ≤ c * 2 ^ k := by
  by_cases ha : a = 0
  · exact ⟨0, 0, by rw [ha]; rfl, by simp only [Nat.cast_zero, zero_mul]; positivity⟩
  simp only [roundMag, if_neg ha]
  set f := lastPlace a b e with hf
  have hc' : (c : ℚ) < 2 ^ (53 : Int) := by exact_mod_cast hc
  -- the last place kept is at most `k`
  have hfk : f ≤ k := by
    have hlow : (2 : ℚ) ^ (flog a b + e) ≤ c * 2 ^ k := calc
      (2 : ℚ) ^ (flog a b + e) = 2 ^ flog a b * 2 ^ e := zpow_add₀ two_ne_zero _ _
      _ ≤ a / b * 2 ^ e := mul_le_mul_of_nonneg_right (two_zpow_flog_le ha hb) (by positivity)
      _ ≤ c * 2 ^ k := hx
    have hhigh : (c : ℚ) * 2 ^ k < 2 ^ (53 + k) := by
      rw [zpow_add₀ two_ne_zero]
      gcongr
    have := (zpow_lt_zpow_iff_right₀ one_lt_two).mp (hlow.trans_lt hhigh)
    rw [hf, lastPlace]
    omega
  -- at that place the exact magnitude is at most `M = c · 2^(k - f)`
  set M := c * 2 ^ (k - f).toNat with hM
  have hMq : (M : ℚ) = c * 2 ^ k * 2 ^ (-f) := by
    rw [hM, Nat.cast_mul, Nat.cast_pow, Nat.cast_ofNat, mul_assoc, ← zpow_add₀ two_ne_zero,
      ← zpow_natCast, Int.toNat_of_nonneg (by omega), Int.sub_eq_add_neg]
  have hle : a * 2 ^ (e - f).toNat ≤ M * (b * 2 ^ (f - e).toNat) := by
    have hscale : (2 : ℚ) ^ (e - f) = 2 ^ (e - f).toNat / 2 ^ (f - e).toNat := by
      rw [two_zpow_eq, Int.neg_sub]
    have hq : ((a * 2 ^ (e - f).toNat : Nat) : ℚ) / (b * 2 ^ (f - e).toNat : Nat) ≤ M := by
      push_cast
      rw [mul_div_mul_comm, ← hscale, hMq, Int.sub_eq_add_neg, zpow_add₀ two_ne_zero, ← mul_assoc]
      exact mul_le_mul_of_nonneg_right hx (by positivity)
    exact_mod_cast (div_le_iff₀ (by positivity)).mp hq
  have hround := roundHalfEven_le (by positivity) hle
  set q := roundHalfEven (a * 2 ^ (e - f).toNat) (b * 2 ^ (f - e).toNat)
  have hv : (q : ℚ) * 2 ^ f ≤ c * 2 ^ k := calc
    (q : ℚ) * 2 ^ f ≤ M * 2 ^ f := by gcongr
    _ = c * 2 ^ k := by
      rw [hMq, mul_assoc, ← zpow_add₀ two_ne_zero, neg_add_cancel, zpow_zero, mul_one]
  refine ⟨q, f, if_neg ?_, hv⟩
  -- no infinity: `2^(⌊log₂ q⌋ + f) ≤ q · 2^f < 2^(53 + k) ≤ 2^1023`
  rintro ⟨hq0, hover⟩
  have hpow : (2 : ℚ) ^ ((Nat.log2 q : Int) + f) ≤ q * 2 ^ f := by
    rw [zpow_add₀ two_ne_zero, zpow_natCast]
    gcongr
    exact_mod_cast Nat.log2_self_le hq0
  have hlt : (2 : ℚ) ^ ((Nat.log2 q : Int) + f) < 2 ^ (53 + k) := by
    refine hpow.trans_lt (hv.trans_lt ?_)
    rw [zpow_add₀ two_ne_zero]
    gcongr
  have := (zpow_lt_zpow_iff_right₀ one_lt_two).mp hlt
  rw [log2_eq] at hover
  omega

/-! ### `double` values -/

/-- What a `double` holds: a sign and a magnitude `m · 2^e`, an infinity, or NaN. -/
inductive DoubleVal where
  | finite (neg : Bool) (m : Nat) (e : Int)
  | inf (neg : Bool)
  | nan
  deriving DecidableEq, Repr

/-- The `double` nearest to `±a / b · 2^e`. -/
def rounded (neg : Bool) (a b : Nat) (e : Int) : DoubleVal :=
  match roundMag a b e with
  | some (q, f) => .finite neg q f
  | none => .inf neg

/-- The conversion of an integer to `double`. -/
def DoubleVal.ofInt (z : Int) : DoubleVal := rounded (decide (z < 0)) z.natAbs 1 0

/-- A `double` from its 64 bits: the sign bit, the 11-bit biased exponent and the 52-bit
fraction; the exponent `2047` holds the infinities and NaN, `0` the subnormals. -/
def decode (bits : UInt64) : DoubleVal :=
  let raw := bits.toNat
  let neg := decide (2 ^ 63 ≤ raw)
  let exponent : Nat := raw / 2 ^ 52 % 2 ^ 11
  let fraction := raw % 2 ^ 52
  if exponent = 2047 then (if fraction = 0 then .inf neg else .nan)
  else if exponent = 0 then .finite neg fraction (-1074)
  else .finite neg (2 ^ 52 + fraction) ((exponent : Int) - 1075)

/-- `x * y` in `double`. -/
def DoubleVal.mul : DoubleVal → DoubleVal → DoubleVal
  | .finite s m e, .finite t n f => rounded (s != t) (m * n) 1 (e + f)
  | .finite s m _, .inf t | .inf t, .finite s m _ => if m = 0 then .nan else .inf (s != t)
  | .inf s, .inf t => .inf (s != t)
  | _, _ => .nan

/-- `x / y` in `double`. -/
def DoubleVal.div : DoubleVal → DoubleVal → DoubleVal
  | .finite s m e, .finite t n f =>
    if n = 0 then (if m = 0 then .nan else .inf (s != t)) else rounded (s != t) m n (e - f)
  | .finite s _ _, .inf t => .finite (s != t) 0 0
  | .inf s, .finite t _ _ => .inf (s != t)
  | _, _ => .nan

/-- The conversion of a `double` to `int64_t`: truncation toward zero; `none` where it is
undefined, for NaN, the infinities and a truncated value outside `int64_t`. -/
def DoubleVal.toInt64? : DoubleVal → Option Int
  | .finite neg m e =>
    let t : Nat := m * 2 ^ e.toNat / 2 ^ (-e).toNat
    let z : Int := if neg then -(t : Int) else t
    if -2 ^ 63 ≤ z ∧ z < 2 ^ 63 then some z else none
  | _ => none

/-- A `size_t` stored into an `int64_t`: modulo `2^64`, in two's complement. -/
def toInt64 (n : Nat) : Int :=
  if n % 2 ^ 64 < 2 ^ 63 then (n % 2 ^ 64 : Nat) else ((n % 2 ^ 64 : Nat) : Int) - 2 ^ 64

theorem toInt64_of_lt {n : Nat} (h : n < 2 ^ 63) : toInt64 n = n := by
  unfold toInt64
  rw [Nat.mod_eq_of_lt (by omega), if_pos h]

/-- `int64_t minmerToIgnore = totalUniqueMinmers * param.kmer_pct_threshold / 100`, or
`none` where the conversion to `int64_t` is undefined. -/
def minmerToIgnore (totalUniqueMinmers : Int) (kmerPctThreshold : UInt64) : Option Int :=
  (((DoubleVal.ofInt totalUniqueMinmers).mul (decode kmerPctThreshold)).div
    (DoubleVal.ofInt 100)).toInt64?

/-- `2.3`: `1000 · 2.3` rounds to `2300`, and `23` is kept, although `2.3` is stored
below `23/10`. -/
example : minmerToIgnore 1000 0x4002666666666666 = some 23 := by decide

/-- `2.3`: `3000 · 2.3` rounds below `6900`, and `68` is kept. -/
example : minmerToIgnore 3000 0x4002666666666666 = some 68 := by decide

/-! ### Percentiles -/

/-- `kmer_pct_threshold` is a percentile: a `double` in `[0, 100]`, that is a zero of
either sign, or positive and at most `100`. -/
def isPercentile (bits : UInt64) : Bool :=
  match decode bits with
  | .finite neg m e => m == 0 || !neg && decide (m * 2 ^ e.toNat ≤ 100 * 2 ^ (-e).toNat)
  | _ => false

theorem decode_of_isPercentile {pct : UInt64} (hp : isPercentile pct = true) :
    ∃ neg m e, decode pct = .finite neg m e ∧ (neg = true → m = 0) ∧ (m : ℚ) * 2 ^ e ≤ 100 := by
  unfold isPercentile at hp
  split at hp
  · rename_i neg m e hd
    simp only [Bool.or_eq_true, beq_iff_eq, Bool.and_eq_true, Bool.not_eq_true',
      decide_eq_true_eq] at hp
    rcases hp with rfl | ⟨rfl, hp⟩
    · exact ⟨neg, 0, e, hd, fun _ => rfl, by simp⟩
    · refine ⟨false, m, e, hd, fun h => absurd h Bool.false_ne_true, ?_⟩
      rw [two_zpow_eq, ← mul_div_assoc, div_le_iff₀ (by positivity)]
      exact_mod_cast hp
  · cases hp

theorem toInt64?_finite_le {neg : Bool} {m : Nat} {e : Int} (hv : (m : ℚ) * 2 ^ e ≤ 2 ^ (62 : Int))
    (hneg : neg = true → m = 0) :
    ∃ z, (DoubleVal.finite neg m e).toInt64? = some z ∧ 0 ≤ z := by
  have ht : m * 2 ^ e.toNat / 2 ^ (-e).toNat ≤ 2 ^ 62 := by
    have : ((m * 2 ^ e.toNat / 2 ^ (-e).toNat : Nat) : ℚ) ≤ 2 ^ 62 := calc
      _ ≤ ((m * 2 ^ e.toNat : Nat) : ℚ) / (2 ^ (-e).toNat : Nat) := Nat.cast_div_le
      _ = m * 2 ^ e := by push_cast; rw [two_zpow_eq, mul_div_assoc]
      _ ≤ 2 ^ (62 : Int) := hv
      _ = 2 ^ 62 := zpow_natCast 2 62
    exact_mod_cast this
  cases neg with
  | false =>
    refine ⟨_, ?_, Int.natCast_nonneg (m * 2 ^ e.toNat / 2 ^ (-e).toNat)⟩
    simp only [DoubleVal.toInt64?, Bool.false_eq_true, if_false]
    generalize m * 2 ^ e.toNat / 2 ^ (-e).toNat = t at ht ⊢
    rw [if_pos ⟨by omega, by omega⟩]
  | true =>
    obtain rfl := hneg rfl
    exact ⟨0, by simp [DoubleVal.toInt64?], le_rfl⟩

/-- **The conversion is defined on percentiles.** For a `kmer_pct_threshold` in
`[0, 100]` and fewer than `2^62` keys, `N · pct` rounds to at most `25 · 2^64`, its
quotient by `100` to at most `2^62`, so the conversion to `int64_t` is defined, and
`minmerToIgnore` is not negative. -/
theorem minmerToIgnore_of_percentile {N : Nat} (hN : N < 2 ^ 62) {pct : UInt64}
    (hp : isPercentile pct = true) : ∃ m, minmerToIgnore N pct = some m ∧ 0 ≤ m := by
  -- `N` as a `double`: at most `2^62`
  obtain ⟨q₁, f₁, h₁, hv₁⟩ := roundMag_le (a := N) (b := 1) (e := 0) (c := 1) (k := 62)
    one_ne_zero (by norm_num) (by norm_num) (by norm_num) (by simp; exact_mod_cast hN.le)
  have hN' : DoubleVal.ofInt N = .finite false q₁ f₁ := by
    simp only [DoubleVal.ofInt, Int.natAbs_ofNat, rounded, h₁, Int.natCast_nonneg, not_lt,
      decide_False]
    simp
  -- the percentage: at most `100`, negative only as `-0.0`
  obtain ⟨neg, m, e, hd, hzero, hv₂⟩ := decode_of_isPercentile hp
  -- the product: at most `25 · 2^64`
  obtain ⟨q₂, f₂, h₂, hv₃⟩ := roundMag_le (a := q₁ * m) (b := 1) (e := f₁ + e) (c := 25)
    (k := 64) one_ne_zero (by norm_num) (by norm_num) (by norm_num) (by
      rw [Nat.cast_one, div_one, Nat.cast_mul, zpow_add₀ two_ne_zero]
      calc (q₁ : ℚ) * m * (2 ^ f₁ * 2 ^ e) = (q₁ * 2 ^ f₁) * (m * 2 ^ e) := by ring
        _ ≤ 1 * 2 ^ (62 : Int) * 100 := mul_le_mul hv₁ hv₂ (by positivity) (by positivity)
        _ = (25 : Nat) * 2 ^ (64 : Int) := by norm_num)
  -- the quotient by `100`, which is `(100 · 2^46) · 2^-46`: at most `2^62`
  obtain ⟨q₃, f₃, h₃, hv₄⟩ := roundMag_le (a := q₂) (b := 100 * 2 ^ 46) (e := f₂ - -46)
    (c := 1) (k := 62) (by norm_num) (by norm_num) (by norm_num) (by norm_num) (by
      rw [Int.sub_neg, zpow_add₀ two_ne_zero]
      calc (q₂ : ℚ) / ((100 * 2 ^ 46 : Nat) : ℚ) * (2 ^ f₂ * 2 ^ (46 : Int))
          = q₂ * 2 ^ f₂ / 100 := by push_cast; field_simp; ring
        _ ≤ (25 : Nat) * 2 ^ (64 : Int) / 100 := by gcongr
        _ = (1 : Nat) * 2 ^ (62 : Int) := by norm_num)
  have h100 : DoubleVal.ofInt 100 = .finite false (100 * 2 ^ 46) (-46) := by decide
  simp only [minmerToIgnore, hN', hd, h100, DoubleVal.mul, DoubleVal.div, rounded, h₂]
  rw [if_neg (by positivity), Bool.bne_false, h₃]
  refine toInt64?_finite_le (by simpa using hv₄) fun hn => ?_
  -- `-0.0`: the product and the quotient are zero
  obtain rfl := hzero (by simpa using hn)
  rw [Nat.mul_zero, roundMag_zero] at h₂
  obtain ⟨rfl, rfl⟩ := Prod.mk.inj (Option.some.inj h₂.symm)
  exact Prod.mk.inj (Option.some.inj h₃.symm) |>.1

end Wfmash.Skch
