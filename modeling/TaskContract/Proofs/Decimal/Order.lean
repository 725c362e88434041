import Mathlib.Algebra.Order.Field.Rat
import Mathlib.Tactic.Positivity
import TaskContract.Proofs.Decimal.Rounding

/-!
# The order of numbers

The exact value of a finite number is rational, and the comparisons of numbers are those of their
values. Rounding an integer may change its value, but never moves it into the open interval from
zero to one or across it.
-/

namespace TaskContract.Binary64

def value? : Binary64 → Option ℚ
  | .finite negative m k => some (units negative m k / (twoTo 1074 : ℕ))
  | _ => none

def one : Binary64 := ofRatio false 1 1

variable {x y : Binary64} {p q : ℚ}

theorem value_zero : zero.value? = some 0 := by
  have hunits : units false 0 0 = 0 := by decide
  rw [zero, value?, hunits, Int.cast_zero, zero_div]

theorem one_eq : one = .finite false (twoTo 52) 1022 := by
  decide +kernel

theorem value_one : one.value? = some 1 := by
  have hscale : twoTo 52 * twoTo 1022 = twoTo 1074 := (twoTo_add 52 1022).symm
  have hpos : ((twoTo 1074 : ℕ) : ℚ) ≠ 0 := Nat.cast_ne_zero.mpr (twoTo_pos 1074).ne'
  rw [one_eq, value?, units, if_neg (by decide), hscale, Int.cast_natCast, div_self hpos]

/-! ## Comparisons -/

theorem value_eq_some_iff : x.value? = some q
    ↔ ∃ negative m k, x = .finite negative m k ∧ q = units negative m k / (twoTo 1074 : ℕ) := by
  constructor
  · intro h
    cases x with
    | finite negative m k => exact ⟨negative, m, k, rfl, (Option.some.inj h).symm⟩
    | _ => cases h
  · rintro ⟨negative, m, k, rfl, rfl⟩
    rw [value?]

theorem units_le_iff {a b : Bool} {m k n l : ℕ} :
    (units a m k : ℚ) / (twoTo 1074 : ℕ) ≤ units b n l / (twoTo 1074 : ℕ)
      ↔ units a m k ≤ units b n l := by
  have hpos : (0 : ℚ) < (twoTo 1074 : ℕ) := Nat.cast_pos.mpr (twoTo_pos 1074)
  rw [div_le_div_iff_of_pos_right hpos, Int.cast_le]

theorem le_iff (hx : x.value? = some p) (hy : y.value? = some q) : x.le y = true ↔ p ≤ q := by
  obtain ⟨a, m, k, rfl, rfl⟩ := value_eq_some_iff.mp hx
  obtain ⟨b, n, l, rfl, rfl⟩ := value_eq_some_iff.mp hy
  rw [units_le_iff, le_iff_lt_or_eq, ← compare_lt_iff_lt, ← compare_eq_iff_eq]
  simp [le, compare?]

theorem lt_iff (hx : x.value? = some p) (hy : y.value? = some q) : x.lt y = true ↔ p < q := by
  obtain ⟨a, m, k, rfl, rfl⟩ := value_eq_some_iff.mp hx
  obtain ⟨b, n, l, rfl, rfl⟩ := value_eq_some_iff.mp hy
  rw [← not_le, units_le_iff, not_le, ← compare_lt_iff_lt]
  simp [lt, compare?]

/-! ## Integers -/

theorem div_le_roundDiv (num den : ℕ) : num / den ≤ roundDiv num den := by
  unfold roundDiv
  dsimp only
  split
  · exact le_refl _
  · split
    · exact Nat.le_succ _
    · split
      · exact le_refl _
      · exact Nat.le_succ _

theorem twoTo_le_roundDiv {n e k : ℕ} (hn : 0 < n) (hk : k ≤ e) :
    twoTo e ≤ roundDiv (n * twoTo e) (1 * twoTo k) * twoTo k := by
  have hsplit : twoTo e = twoTo (e - k) * twoTo k := by
    rw [← twoTo_add, Nat.sub_add_cancel hk]
  have hquotient : n * twoTo e / (1 * twoTo k) = n * twoTo (e - k) := by
    rw [hsplit, ← Nat.mul_assoc, Nat.one_mul, Nat.mul_div_cancel _ (twoTo_pos k)]
  calc twoTo e = twoTo (e - k) * twoTo k := hsplit
    _ ≤ n * twoTo (e - k) * twoTo k := Nat.mul_le_mul_right _ (Nat.le_mul_of_pos_left _ hn)
    _ ≤ roundDiv (n * twoTo e) (1 * twoTo k) * twoTo k := by
      rw [← hquotient]
      exact Nat.mul_le_mul_right _ (div_le_roundDiv _ _)

theorem twoTo_le_mul {m e k : ℕ} (hm : 0 < m) (hk : e < k) : twoTo e ≤ m * twoTo k :=
  (twoTo_lt hk).le.trans (Nat.le_mul_of_pos_left _ hm)

theorem ofRatio_eq_finite {negative sign : Bool} {num den m k : ℕ}
    (h : ofRatio negative num den = .finite sign m k) :
    sign = negative ∧ m = significandAt num den k := by
  unfold ofRatio at h
  dsimp only at h
  generalize (if significandAt num den (leastDoublings num den) < twoTo 53 then _ else _) = j at h
  by_cases hj : 2045 < j
  · simp [hj] at h
  · rw [if_neg hj] at h
    injection h with hsign hm hk
    exact ⟨hsign.symm, hk ▸ hm.symm⟩

theorem units_ofRatio {negative sign : Bool} {n m k : ℕ} (hn : 0 < n)
    (h : ofRatio negative n 1 = .finite sign m k) : twoTo 1074 ≤ m * twoTo k := by
  obtain ⟨-, hm⟩ := ofRatio_eq_finite h
  by_cases hk : k ≤ 1074
  · rw [hm]
    exact twoTo_le_roundDiv hn hk
  · have hcanonical := isCanonical_ofRatio hn Nat.one_pos negative
    rw [h] at hcanonical
    have hfinite : IsFinite m k := of_decide_eq_true hcanonical
    have hnormal := hfinite.normal (by omega)
    exact twoTo_le_mul (by omega) (by omega)

theorem significandAt_zero (den k : ℕ) : significandAt 0 den k = 0 := by
  simp [significandAt, roundDiv]

theorem one_le_units {e m k : ℕ} (h : twoTo e ≤ m * twoTo k) :
    (1 : ℚ) ≤ units false m k / (twoTo e : ℕ) := by
  have hpos : (0 : ℚ) < (twoTo e : ℕ) := Nat.cast_pos.mpr (twoTo_pos e)
  rw [one_le_div hpos, units, if_neg Bool.false_ne_true, Int.cast_natCast]
  exact Nat.cast_le.mpr h

theorem units_nonpos {negative : Bool} (e : ℕ) {m k : ℕ} (h : negative = true ∨ m = 0) :
    (units negative m k : ℚ) / (twoTo e : ℕ) ≤ 0 := by
  refine div_nonpos_of_nonpos_of_nonneg ?_ (Nat.cast_nonneg _)
  rcases h with rfl | rfl
  · simp [units, mul_nonneg]
  · simp [units]

theorem finite_eq_some_iff : x.finite? = some y
    ↔ ∃ negative m k, x = .finite negative m k ∧ y = .finite negative m k := by
  cases x with
  | finite negative m k => simp [finite?, eq_comm]
  | _ => simp [finite?]

/-- A positive integer is at least one, and the others are at most zero, also when they are
rounded. -/
theorem value_ofInt {n : ℤ} (h : ofInt? n = some x) :
    ∃ q, x.value? = some q ∧ (0 < n → 1 ≤ q) ∧ (n ≤ 0 → q ≤ 0) := by
  rw [ofInt?, finite_eq_some_iff] at h
  obtain ⟨sign, m, k, hratio, rfl⟩ := h
  obtain ⟨rfl, hm⟩ := ofRatio_eq_finite hratio
  refine ⟨_, rfl, ?_, ?_⟩
  · intro hn
    have hsign : decide (n < 0) = false := decide_eq_false hn.not_gt
    rw [hsign]
    exact one_le_units (units_ofRatio (Int.natAbs_pos.mpr hn.ne') hratio)
  · intro hn
    refine units_nonpos 1074 ?_
    rcases hn.lt_or_eq with hn | rfl
    · exact .inl (decide_eq_true hn)
    · exact .inr (hm.trans (significandAt_zero 1 k))

end TaskContract.Binary64
