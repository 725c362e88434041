import Mathlib.Tactic.Ring
import Mathlib.Tactic.Linarith
import TaskContract.Decimal.Shortest

/-!
# Rounding to the nearest number

A ratio that lies in the interval of a number is rounded to that number: at its own count of
doublings the significand is the nearest one, and at every smaller count the significand would be
too large.
-/

namespace TaskContract

theorem twoTo_eq (k : Nat) : twoTo k = 2 ^ k :=
  rfl

theorem twoTo_pos (k : Nat) : 0 < twoTo k :=
  Nat.pow_pos (by decide)

theorem tenTo_pos (k : Nat) : 0 < tenTo k :=
  Nat.pow_pos (by decide)

theorem twoTo_lt {j k : Nat} (h : j < k) : twoTo j < twoTo k :=
  Nat.pow_lt_pow_right (by decide) h

theorem tenTo_le {j k : Nat} (h : j ≤ k) : tenTo j ≤ tenTo k :=
  Nat.pow_le_pow_right (by decide) h

theorem twoTo_add (j k : Nat) : twoTo (j + k) = twoTo j * twoTo k :=
  Nat.pow_add 2 j k

theorem tenTo_add (j k : Nat) : tenTo (j + k) = tenTo j * tenTo k :=
  Nat.pow_add 10 j k

/-- The scale of the intervals is four times the one of the significands. -/
theorem twoTo_scale : twoTo 1076 = 4 * twoTo 1074 := by
  have hsplit := twoTo_add 2 1074
  rwa [show twoTo 2 = 4 from rfl] at hsplit

namespace Binary64

/-! ## Quotients -/

/-- A quotient from half below a natural on is rounded to that or to more; from the half itself an
odd one is not. -/
theorem le_roundDiv {num den m : Nat} (hden : 0 < den)
    (h : (2 * m - 1) * den + m % 2 ≤ 2 * num) : m ≤ roundDiv num den := by
  rcases Nat.eq_zero_or_pos m with rfl | hm
  · exact Nat.zero_le _
  obtain ⟨n, rfl⟩ : ∃ n, m = n + 1 := ⟨m - 1, by omega⟩
  have hhalf : (2 * (n + 1) - 1) * den = 2 * (den * n) + den := by
    rw [show 2 * (n + 1) - 1 = 2 * n + 1 by omega]
    ring
  have hdiv := Nat.div_add_mod num den
  have hmod := Nat.mod_lt num hden
  rw [hhalf] at h
  unfold roundDiv
  dsimp only
  generalize num / den = q at hdiv ⊢
  generalize num % den = r at hdiv hmod ⊢
  rcases Nat.lt_trichotomy q n with hq | rfl | hq
  · -- then even the next natural would be above the quotient
    exfalso
    have hnext : den * (q + 1) ≤ den * n := Nat.mul_le_mul_left den hq
    rw [Nat.mul_succ] at hnext
    omega
  · split
    · omega
    · split
      · exact Nat.le_refl _
      · split
        · omega
        · exact Nat.le_refl _
  · split
    · exact hq
    · split
      · omega
      · split <;> omega

/-- A quotient up to half above a natural is rounded to that or to less; from the half itself an
odd one is not. -/
theorem roundDiv_le {num den m : Nat} (hden : 0 < den)
    (h : 2 * num + m % 2 ≤ (2 * m + 1) * den) : roundDiv num den ≤ m := by
  have hhalf : (2 * m + 1) * den = 2 * (den * m) + den := by ring
  have hdiv := Nat.div_add_mod num den
  have hmod := Nat.mod_lt num hden
  rw [hhalf] at h
  unfold roundDiv
  dsimp only
  generalize num / den = q at hdiv ⊢
  generalize num % den = r at hdiv hmod ⊢
  rcases Nat.lt_trichotomy q m with hq | rfl | hq
  · split
    · omega
    · split
      · omega
      · split <;> omega
  · split
    · exact Nat.le_refl _
    · split
      · omega
      · split
        · exact Nat.le_refl _
        · omega
  · -- then the quotient is above the next natural
    exfalso
    have hnext : den * (m + 1) ≤ den * q := Nat.mul_le_mul_left den hq
    rw [Nat.mul_succ] at hnext
    omega

/-! ## Ratios -/

def Rounds (num den m k : Nat) : Prop :=
  (rounding m k).low * den + m % 2 ≤ num * twoTo 1076
    ∧ num * twoTo 1076 + m % 2 ≤ (rounding m k).high * den

theorem rounding_den (m k : Nat) : (rounding m k).den = twoTo 1076 := by
  simp only [rounding]

theorem holds_iff (m k digits : Nat) (exponent : Int) :
    (rounding m k).holds digits exponent = true
      ↔ Rounds (digits * tenTo exponent.toNat) (tenTo (-exponent).toNat) m k := by
  unfold Rounding.holds Rounds
  dsimp only
  have hclosed : (rounding m k).closed = decide (m % 2 = 0) := rfl
  rw [hclosed, rounding_den]
  generalize twoTo 1076 = s
  by_cases heven : m % 2 = 0
  · rw [decide_eq_true heven, if_pos rfl, heven, Bool.and_eq_true, decide_eq_true_iff,
      decide_eq_true_iff]
    exact Iff.rfl
  · have hodd : m % 2 = 1 := by omega
    rw [decide_eq_false heven, if_neg Bool.false_ne_true, hodd, Bool.and_eq_true,
      decide_eq_true_iff, decide_eq_true_iff]
    exact Iff.rfl

/-- Both parts of a ratio may be multiplied. -/
theorem rounds_scale {c : Nat} (hc : 0 < c) (num den m k : Nat) :
    Rounds (c * num) (c * den) m k ↔ Rounds num den m k := by
  have hcancel : ∀ x y p : Nat, p < 2 → (c * x + p ≤ c * y ↔ x + p ≤ y) := by
    intro x y p hp
    constructor
    · intro h
      rcases Nat.lt_or_ge y (x + p) with hlt | hge
      · exfalso
        rcases Nat.lt_or_ge y x with hyx | hyx
        · have hmul := Nat.mul_le_mul_left c (show y + 1 ≤ x from hyx)
          rw [Nat.mul_succ] at hmul
          omega
        · obtain rfl : y = x := by omega
          omega
      · exact hge
    · intro h
      have hmul := Nat.mul_le_mul_left c h
      rw [Nat.mul_add] at hmul
      have hp' : p ≤ c * p := Nat.le_mul_of_pos_left p hc
      omega
  unfold Rounds
  generalize twoTo 1076 = s
  have hlow : (rounding m k).low * (c * den) = c * ((rounding m k).low * den) := by ring
  have hhigh : (rounding m k).high * (c * den) = c * ((rounding m k).high * den) := by ring
  rw [hlow, hhigh, Nat.mul_assoc, hcancel _ _ _ (Nat.mod_lt m (by decide)),
    hcancel _ _ _ (Nat.mod_lt m (by decide))]

/-- The parts of a finite number of the format: the significand is of full length unless the number
is among the smallest. -/
structure IsFinite (m k : Nat) : Prop where
  significand : m < 2 ^ 53
  normal : 0 < k → 2 ^ 52 ≤ m
  doublings : k ≤ 2045

instance (m k : Nat) : Decidable (IsFinite m k) :=
  decidable_of_iff (m < 2 ^ 53 ∧ (0 < k → 2 ^ 52 ≤ m) ∧ k ≤ 2045)
    ⟨fun h => ⟨h.1, h.2.1, h.2.2⟩, fun h => ⟨h.significand, h.normal, h.doublings⟩⟩

def isCanonical : Binary64 → Bool
  | .finite _ m k => IsFinite m k
  | _ => true

variable {num den m k : Nat}

theorem low_pos (hm : 0 < m) : 0 < (rounding m k).low := by
  refine Nat.mul_pos ?_ (twoTo_pos k)
  split <;> omega

section

variable (hden : 0 < den) (h : Rounds num den m k) (hm : 0 < m)
  (hfinite : IsFinite m k)

include hden h

include hfinite in
theorem significandAt_below {j : Nat} (hj : j < k) : 2 ^ 53 ≤ significandAt num den j := by
  obtain ⟨hlow, -⟩ := h
  have hnormal := hfinite.normal (Nat.zero_lt_of_lt hj)
  have hfour : 2 ^ 54 - 1 ≤ if m = twoTo 52 ∧ 0 < k then 4 * m - 1 else 4 * m - 2 := by
    split
    · omega
    · rename_i hne
      have hother : m ≠ 2 ^ 52 := fun heq => hne ⟨heq, Nat.zero_lt_of_lt hj⟩
      omega
  have hdouble : 2 * twoTo j ≤ twoTo k := by
    rw [twoTo_eq, twoTo_eq, ← Nat.pow_succ']
    exact Nat.pow_le_pow_right (by decide) hj
  have hleast : 2 * ((2 * 2 ^ 53 - 1) * (den * twoTo j)) ≤ (rounding m k).low * den := by
    calc 2 * ((2 * 2 ^ 53 - 1) * (den * twoTo j))
        = (2 * 2 ^ 53 - 1) * (2 * twoTo j) * den := by ring
      _ ≤ (2 ^ 54 - 1) * twoTo k * den :=
          Nat.mul_le_mul_right den (Nat.mul_le_mul_left _ hdouble)
      _ ≤ _ := Nat.mul_le_mul_right den (Nat.mul_le_mul_right (twoTo k) hfour)
  unfold significandAt
  apply le_roundDiv (Nat.mul_pos hden (twoTo_pos j))
  rw [twoTo_scale] at hlow
  have hnum : num * (4 * twoTo 1074) = 2 * (2 * (num * twoTo 1074)) := by ring
  rw [hnum] at hlow
  generalize num * twoTo 1074 = x at hlow ⊢
  omega

include hm

/-- At its own count of doublings the significand of a number is found. -/
theorem significandAt_self : significandAt num den k = m := by
  obtain ⟨hlow, hhigh⟩ := h
  have hpos : 0 < den * twoTo k := Nat.mul_pos hden (twoTo_pos k)
  have hleast : 2 * ((2 * m - 1) * (den * twoTo k)) ≤ (rounding m k).low * den := by
    have hfour : 2 * (2 * m - 1) ≤ if m = twoTo 52 ∧ 0 < k then 4 * m - 1 else 4 * m - 2 := by
      split <;> omega
    calc 2 * ((2 * m - 1) * (den * twoTo k)) = 2 * (2 * m - 1) * twoTo k * den := by ring
      _ ≤ _ := Nat.mul_le_mul_right den (Nat.mul_le_mul_right (twoTo k) hfour)
  have hmost : (rounding m k).high * den = 2 * ((2 * m + 1) * (den * twoTo k)) := by
    show (4 * m + 2) * twoTo k * den = _
    ring
  rw [twoTo_scale] at hlow hhigh
  rw [hmost] at hhigh
  unfold significandAt
  have hnum : num * (4 * twoTo 1074) = 2 * (2 * (num * twoTo 1074)) := by ring
  rw [hnum] at hlow hhigh
  generalize num * twoTo 1074 = x at hlow hhigh ⊢
  apply Nat.le_antisymm
  · exact roundDiv_le hpos (by omega)
  · exact le_roundDiv hpos (by omega)

theorem num_pos : 0 < num := by
  obtain ⟨hlow, -⟩ := h
  rcases Nat.eq_zero_or_pos num with rfl | hpos
  · exfalso
    have hproduct := Nat.mul_pos (low_pos hm (k := k)) hden
    omega
  · exact hpos

include hfinite

/-- The search for the count of doublings starts at most three below it. -/
theorem leastDoublings_near : leastDoublings num den ≤ k ∧ k ≤ leastDoublings num den + 3 := by
  have hpos := num_pos hden h hm
  obtain ⟨hlow, hhigh⟩ := h
  have hnumLow := Nat.log2_self_le (Nat.pos_iff_ne_zero.mp hpos)
  have hnumHigh : num < 2 ^ (num.log2 + 1) := Nat.lt_log2_self
  have hdenLow := Nat.log2_self_le (Nat.pos_iff_ne_zero.mp hden)
  have hdenHigh : den < 2 ^ (den.log2 + 1) := Nat.lt_log2_self
  unfold leastDoublings
  generalize num.log2 = a at hnumLow hnumHigh ⊢
  generalize den.log2 = b at hdenLow hdenHigh ⊢
  have hsignificand := hfinite.significand
  -- the scale is named, for the powers are too large to be computed
  obtain ⟨n, hn⟩ : ∃ n, n = 1076 := ⟨1076, rfl⟩
  rw [← hn] at hlow hhigh
  constructor
  · by_contra hlarge
    have hexponent : b + 57 + k ≤ a + n := by omega
    have hbelow : num * twoTo n < 2 ^ (b + 57 + k) := by
      have hhighBound : (rounding m k).high ≤ 2 ^ 55 * 2 ^ k :=
        Nat.mul_le_mul_right _ (show 4 * m + 2 ≤ 2 ^ 55 by omega)
      calc num * twoTo n ≤ (rounding m k).high * den := by omega
        _ ≤ 2 ^ 55 * 2 ^ k * den := Nat.mul_le_mul_right den hhighBound
        _ < 2 ^ 55 * 2 ^ k * 2 ^ (b + 1) :=
            Nat.mul_lt_mul_of_pos_left hdenHigh (by positivity)
        _ = 2 ^ (b + 56 + k) := by rw [← Nat.pow_add, ← Nat.pow_add]; congr 1; omega
        _ ≤ 2 ^ (b + 57 + k) := Nat.pow_le_pow_right (by decide) (by omega)
    have habove : 2 ^ (b + 57 + k) ≤ num * twoTo n := by
      calc 2 ^ (b + 57 + k) ≤ 2 ^ (a + n) := Nat.pow_le_pow_right (by decide) hexponent
        _ = 2 ^ a * twoTo n := Nat.pow_add 2 a n
        _ ≤ num * twoTo n := Nat.mul_le_mul_right _ hnumLow
    omega
  · rcases Nat.eq_zero_or_pos k with rfl | hk
    · exact Nat.zero_le _
    · have hnormal := hfinite.normal hk
      have habove : 2 ^ (53 + k + b) ≤ num * twoTo n := by
        have hlowBound : 2 ^ 53 * 2 ^ k ≤ (rounding m k).low := by
          refine Nat.mul_le_mul_right _ ?_
          split <;> omega
        calc 2 ^ (53 + k + b) = 2 ^ 53 * 2 ^ k * 2 ^ b := by rw [Nat.pow_add, Nat.pow_add]
          _ ≤ (rounding m k).low * den := Nat.mul_le_mul hlowBound hdenLow
          _ ≤ num * twoTo n := by omega
      have hbelow : num * twoTo n < 2 ^ (a + 1 + n) := by
        rw [Nat.pow_add]
        exact Nat.mul_lt_mul_of_pos_right hnumHigh (twoTo_pos n)
      have hexponent : 53 + k + b < a + 1 + n :=
        (Nat.pow_lt_pow_iff_right (by decide)).mp (habove.trans_lt hbelow)
      omega

/-- **A ratio in the interval of a number is rounded to that number.** -/
theorem ofRatio_of_rounds (negative : Bool) : ofRatio negative num den = .finite negative m k := by
  obtain ⟨hstart, hstop⟩ := leastDoublings_near hden h hm hfinite
  have hself := significandAt_self hden h hm
  have hfits : significandAt num den k < twoTo 53 := by
    rw [hself]
    exact hfinite.significand
  have hbelow : ∀ j < k, ¬significandAt num den j < twoTo 53 := fun j hj =>
    Nat.not_lt.mpr (significandAt_below hden h hfinite hj)
  have hrange : ¬2045 < k := Nat.not_lt.mpr hfinite.doublings
  unfold ofRatio
  dsimp only
  generalize leastDoublings num den = start at hstart hstop ⊢
  -- the first count that fits is the one of the number
  have hcount : (if significandAt num den start < twoTo 53 then start
      else if significandAt num den (start + 1) < twoTo 53 then start + 1
      else if significandAt num den (start + 2) < twoTo 53 then start + 2 else start + 3) = k := by
    rcases Nat.eq_or_lt_of_le hstart with rfl | hnext
    · rw [if_pos hfits]
    · rw [if_neg (hbelow start hnext)]
      rcases Nat.eq_or_lt_of_le (show start + 1 ≤ k from hnext) with rfl | hnext
      · rw [if_pos hfits]
      · rw [if_neg (hbelow (start + 1) hnext)]
        rcases Nat.eq_or_lt_of_le (show start + 2 ≤ k from hnext) with rfl | hnext
        · rw [if_pos hfits]
        · rw [if_neg (hbelow (start + 2) hnext)]
          omega
  rw [hcount, if_neg hrange, hself]

end

/-! ## Decimals -/

/-- Three bits are less than a digit. -/
theorem lt_tenTo_log2 (n : Nat) : n < tenTo (n.log2 / 3 + 1) := by
  calc n < 2 ^ (n.log2 + 1) := Nat.lt_log2_self
    _ ≤ 2 ^ (3 * (n.log2 / 3 + 1)) := Nat.pow_le_pow_right (by decide) (by omega)
    _ = 8 ^ (n.log2 / 3 + 1) := Nat.pow_mul 2 3 _
    _ ≤ tenTo (n.log2 / 3 + 1) := Nat.pow_le_pow_left (by decide) _

/-- The powers of ten at the bounds of the exponents are out of the range of the format. -/
theorem range_lt_tenTo : twoTo 1076 < tenTo 400 := by
  decide +kernel

theorem high_lt (hfinite : IsFinite m k) : (rounding m k).high < twoTo 1076 * twoTo 1076 := by
  have hsignificand := hfinite.significand
  have hdoublings := hfinite.doublings
  calc (rounding m k).high ≤ twoTo 55 * twoTo k :=
        Nat.mul_le_mul_right _ (show 4 * m + 2 ≤ twoTo 55 by
          have := twoTo_eq 55
          omega)
    _ = twoTo (55 + k) := (twoTo_add 55 k).symm
    _ < twoTo (1076 + 1076) := twoTo_lt (by omega)
    _ = twoTo 1076 * twoTo 1076 := twoTo_add 1076 1076

/-- Behind the largest exponent everything is infinite. -/
theorem not_beyond_of_rounds (hfinite : IsFinite m k) {digits : Nat} (hdigits : digits ≠ 0)
    {exponent : Int}
    (hrounds : Rounds (digits * tenTo exponent.toNat) (tenTo (-exponent).toNat) m k) :
    ¬400 < exponent := by
  intro hlarge
  obtain ⟨-, hhigh⟩ := hrounds
  have hone : (-exponent).toNat = 0 := by omega
  rw [hone, show tenTo 0 = 1 from rfl, Nat.mul_one] at hhigh
  have hpower : tenTo 400 ≤ digits * tenTo exponent.toNat :=
    Nat.le_trans (tenTo_le (by omega)) (Nat.le_mul_of_pos_left _ (Nat.pos_of_ne_zero hdigits))
  have hrange := high_lt hfinite
  have hproduct := Nat.mul_lt_mul_of_pos_right
    (Nat.lt_of_lt_of_le range_lt_tenTo hpower) (twoTo_pos 1076)
  omega

/-- Before the least exponent, which the digits can make up for, everything is zero. -/
theorem not_below_of_rounds (hm : 0 < m) {digits : Nat} {exponent : Int}
    (hrounds : Rounds (digits * tenTo exponent.toNat) (tenTo (-exponent).toNat) m k) :
    ¬exponent + (digits.log2 / 3 : Nat) < -400 := by
  intro hsmall
  obtain ⟨hlow, -⟩ := hrounds
  have hzero : exponent.toNat = 0 := by omega
  rw [hzero, show tenTo 0 = 1 from rfl, Nat.mul_one] at hlow
  have hlowPos : 1 ≤ (rounding m k).low := low_pos hm
  have hpower : tenTo (digits.log2 / 3 + 1) * tenTo 400 ≤ tenTo (-exponent).toNat := by
    rw [← tenTo_add]
    exact tenTo_le (by omega)
  have hlowDen := Nat.le_mul_of_pos_left (tenTo (-exponent).toNat) hlowPos
  have hproduct := Nat.mul_lt_mul'' (lt_tenTo_log2 digits) range_lt_tenTo
  omega

/-- **A decimal in the interval of a number is rounded to that number.** -/
theorem ofDecimal_of_holds (hm : 0 < m) (hfinite : IsFinite m k) {digits : Nat} {exponent : Int}
    (h : (rounding m k).holds digits exponent = true) (negative : Bool) :
    ofDecimal negative digits exponent = .finite negative m k := by
  have hrounds := (holds_iff m k digits exponent).mp h
  have hden : 0 < tenTo (-exponent).toNat := tenTo_pos _
  have hnum := num_pos hden hrounds hm
  have hdigits : digits ≠ 0 := by
    rintro rfl
    rw [Nat.zero_mul] at hnum
    exact Nat.lt_irrefl 0 hnum
  have hlarge := not_beyond_of_rounds hfinite hdigits hrounds
  have hsmall := not_below_of_rounds hm hrounds
  unfold ofDecimal
  dsimp only
  rw [if_neg hdigits, if_neg hlarge, if_neg hsmall]
  by_cases hsign : 0 ≤ exponent
  · have hone : (-exponent).toNat = 0 := by omega
    rw [hone] at hrounds
    rw [if_pos hsign]
    exact ofRatio_of_rounds Nat.one_pos hrounds hm hfinite negative
  · have hzero : exponent.toNat = 0 := by omega
    rw [hzero, show tenTo 0 = 1 from rfl, Nat.mul_one] at hrounds
    rw [if_neg hsign]
    exact ofRatio_of_rounds hden hrounds hm hfinite negative

/-! ## Results of a rounding -/

/-- Where the significand is too large, one more doubling leaves it at full length. -/
theorem significandAt_next {j : Nat} (hden : 0 < den) (h : ¬significandAt num den j < twoTo 53) :
    2 ^ 52 ≤ significandAt num den (j + 1) := by
  have hpos : 0 < den * twoTo j := Nat.mul_pos hden (twoTo_pos j)
  have hdouble : den * twoTo (j + 1) = 2 * (den * twoTo j) := by
    rw [twoTo_add, show twoTo 1 = 2 from rfl]
    ring
  have hlarge : ¬2 * (num * twoTo 1074) + (2 ^ 53 - 1) % 2
      ≤ (2 * (2 ^ 53 - 1) + 1) * (den * twoTo j) := by
    intro hle
    have hsmall : significandAt num den j ≤ 2 ^ 53 - 1 := roundDiv_le hpos hle
    have htwo := twoTo_eq 53
    omega
  unfold significandAt
  rw [hdouble]
  generalize num * twoTo 1074 = x at hlarge ⊢
  exact le_roundDiv (by omega) (by omega)

/-- The search starts at no more doublings than there are: but at none, the significand is still
too large there. -/
theorem significandAt_start (hnum : 0 < num) (hden : 0 < den) (h : 0 < leastDoublings num den) :
    ¬significandAt num den (leastDoublings num den) < twoTo 53 := by
  have hnumLow := Nat.log2_self_le (Nat.pos_iff_ne_zero.mp hnum)
  have hdenHigh : den < 2 ^ (den.log2 + 1) := Nat.lt_log2_self
  have hstart : den.log2 + 1 + leastDoublings num den + 53 = num.log2 + 1074 := by
    unfold leastDoublings at h ⊢
    omega
  generalize leastDoublings num den = start at hstart ⊢
  obtain ⟨n, hn⟩ : ∃ n, n = 1074 := ⟨1074, rfl⟩
  have hratio : 2 ^ 53 * (den * twoTo start) ≤ num * twoTo n := by
    calc 2 ^ 53 * (den * twoTo start)
        ≤ 2 ^ 53 * (2 ^ (den.log2 + 1) * 2 ^ start) :=
          Nat.mul_le_mul_left _ (Nat.mul_le_mul_right _ (Nat.le_of_lt hdenHigh))
      _ = 2 ^ (num.log2 + n) := by
          rw [← Nat.pow_add, ← Nat.pow_add]
          congr 1
          omega
      _ = 2 ^ num.log2 * twoTo n := Nat.pow_add 2 _ n
      _ ≤ num * twoTo n := Nat.mul_le_mul_right _ hnumLow
  rw [hn] at hratio
  have hfull : 2 ^ 53 ≤ significandAt num den start := by
    refine le_roundDiv (Nat.mul_pos hden (twoTo_pos start)) ?_
    generalize num * twoTo 1074 = x at hratio ⊢
    omega
  rw [twoTo_eq]
  omega

/-- The search need not look further than three doublings. -/
theorem significandAt_stop (hden : 0 < den) :
    significandAt num den (leastDoublings num den + 3) < twoTo 53 := by
  have hnumHigh : num < 2 ^ (num.log2 + 1) := Nat.lt_log2_self
  have hdenLow := Nat.log2_self_le (Nat.pos_iff_ne_zero.mp hden)
  have hstart : num.log2 + 1074 ≤ den.log2 + leastDoublings num den + 54 := by
    unfold leastDoublings
    omega
  generalize leastDoublings num den = start at hstart ⊢
  obtain ⟨n, hn⟩ : ∃ n, n = 1074 := ⟨1074, rfl⟩
  have hratio : num * twoTo n ≤ 2 ^ 52 * (den * twoTo (start + 3)) := by
    calc num * twoTo n ≤ 2 ^ (num.log2 + 1) * twoTo n :=
          Nat.mul_le_mul_right _ (Nat.le_of_lt hnumHigh)
      _ = 2 ^ (num.log2 + 1 + n) := (Nat.pow_add 2 _ n).symm
      _ ≤ 2 ^ (52 + (den.log2 + (start + 3))) := Nat.pow_le_pow_right (by decide) (by omega)
      _ = 2 ^ 52 * (2 ^ den.log2 * twoTo (start + 3)) := by
          rw [Nat.pow_add 2 52, Nat.pow_add 2 den.log2, twoTo_eq]
      _ ≤ 2 ^ 52 * (den * twoTo (start + 3)) :=
          Nat.mul_le_mul_left _ (Nat.mul_le_mul_right _ hdenLow)
  rw [hn] at hratio
  have hfits : significandAt num den (start + 3) ≤ 2 ^ 52 := by
    refine roundDiv_le (Nat.mul_pos hden (twoTo_pos _)) ?_
    generalize num * twoTo 1074 = x at hratio ⊢
    omega
  rw [twoTo_eq]
  omega

/-- **A ratio is rounded to a number of the format.** -/
theorem isCanonical_ofRatio (hnum : 0 < num) (hden : 0 < den) (negative : Bool) :
    (ofRatio negative num den).isCanonical = true := by
  have hstart := significandAt_start hnum hden
  have hstop : significandAt num den (leastDoublings num den + 3) < twoTo 53 :=
    significandAt_stop hden
  have hnext : ∀ j, ¬significandAt num den j < twoTo 53 →
      2 ^ 52 ≤ significandAt num den (j + 1) := fun _ => significandAt_next hden
  unfold ofRatio
  dsimp only
  generalize leastDoublings num den = start at hstart hstop ⊢
  have hfinite : ∀ {k : Nat}, significandAt num den k < twoTo 53 →
      (0 < k → 2 ^ 52 ≤ significandAt num den k) →
      (if 2045 < k then Binary64.infinite negative
        else .finite negative (significandAt num den k) k).isCanonical = true := by
    intro k hfits hnormal
    split
    · rfl
    · exact decide_eq_true ⟨hfits, hnormal, by omega⟩
  split
  · refine hfinite (by assumption) fun hpos => ?_
    exact absurd (by assumption) (hstart hpos)
  · split
    · exact hfinite (by assumption) fun _ => hnext _ (by assumption)
    · split
      · exact hfinite (by assumption) fun _ => hnext _ (by assumption)
      · exact hfinite hstop fun _ => hnext _ (by assumption)

/-- **A decimal is rounded to a number of the format.** -/
theorem isCanonical_ofDecimal (negative : Bool) (digits : Nat) (exponent : Int) :
    (ofDecimal negative digits exponent).isCanonical = true := by
  unfold ofDecimal
  dsimp only
  split
  · rfl
  · have hpos : 0 < digits := Nat.pos_of_ne_zero (by assumption)
    split
    · rfl
    · split
      · rfl
      · split
        · exact isCanonical_ofRatio (Nat.mul_pos hpos (tenTo_pos _)) Nat.one_pos negative
        · exact isCanonical_ofRatio hpos (tenTo_pos _) negative

end Binary64

end TaskContract
