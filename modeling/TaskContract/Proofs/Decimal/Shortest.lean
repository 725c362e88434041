import TaskContract.Proofs.Decimal.Rounding

/-!
# The shortest decimal reads back

The decimal that is written for a positive number lies in the interval of the number, so that it is
rounded to it when it is read. With seventeen digits there always is one: the decimal grid of that
length is finer than the interval is wide.
-/

namespace TaskContract

namespace Binary64

/-! ## The same decimal in other forms -/

theorem holds_ten (m k digits : Nat) (exponent : Int) :
    (rounding m k).holds (10 * digits) exponent = (rounding m k).holds digits (exponent + 1) := by
  rw [Bool.eq_iff_iff, holds_iff, holds_iff]
  by_cases hsign : 0 ≤ exponent
  · have hup : (exponent + 1).toNat = exponent.toNat + 1 := by omega
    have hdown : (-(exponent + 1)).toNat = (-exponent).toNat := by omega
    have hnum : 10 * digits * tenTo exponent.toNat = digits * (tenTo exponent.toNat * tenTo 1) := by
      rw [show tenTo 1 = 10 from rfl]
      ring
    rw [hup, hdown, tenTo_add, hnum]
  · have hup : exponent.toNat = 0 ∧ (exponent + 1).toNat = 0 := by omega
    have hdown : (-exponent).toNat = 1 + (-(exponent + 1)).toNat := by omega
    rw [hup.1, hup.2, hdown, tenTo_add, Nat.mul_assoc]
    exact rounds_scale (by decide) _ _ m k

theorem holds_tenTo (m k digits count : Nat) (exponent : Int) :
    (rounding m k).holds (digits * tenTo count) (exponent - count)
      = (rounding m k).holds digits exponent := by
  induction count with
  | zero =>
      rw [show tenTo 0 = 1 from rfl, Nat.mul_one, Int.natCast_zero, Int.sub_zero]
  | succ n ih =>
      have hdigits : digits * tenTo (n + 1) = 10 * (digits * tenTo n) := by
        rw [tenTo_add, show tenTo 1 = 10 from rfl]
        ring
      have hexponent : exponent - (n + 1 : Nat) + 1 = exponent - n := by omega
      rw [hdigits, holds_ten, hexponent, ih]

theorem stripZeros_holds {m k : Nat} (fuel : Nat) {digits : Nat} {exponent : Int}
    (h : (rounding m k).holds digits exponent = true) :
    (rounding m k).holds (stripZeros fuel digits exponent).1 (stripZeros fuel digits exponent).2
      = true := by
  induction fuel generalizing digits exponent with
  | zero => exact h
  | succ fuel ih =>
      rw [stripZeros]
      split
      · apply ih
        rw [← holds_ten]
        rwa [show 10 * (digits / 10) = digits by omega]
      · exact h

/-! ## The leading digit -/

def Reaches (num den : Nat) (e : Int) : Prop :=
  den * tenTo e.toNat ≤ num * tenTo (-e).toNat

/-- The search for the power of the leading digit ends at one that the ratio reaches. -/
theorem reaches_leadingPower {num den fuel : Nat} {e : Int} (h : Reaches num den (e - fuel)) :
    Reaches num den (leadingPower num den fuel e) := by
  induction fuel generalizing e with
  | zero =>
      rw [leadingPower]
      rwa [Int.natCast_zero, Int.sub_zero] at h
  | succ fuel ih =>
      rw [leadingPower]
      split
      · assumption
      · apply ih
        rwa [show e - 1 - fuel = e - (fuel + 1 : Nat) by omega]

/-- The power from which the search for the leading digit starts, less the steps it may take, for
a number of units with so many bits. -/
def lastPower (bits : Nat) : Int :=
  let distance : Int := (bits : Int) - 1076
  (if 0 ≤ distance then distance * 30103 / 100000 + 1 else distance * 30102 / 100000 + 1) - 4

theorem lastPower_le {few many : Nat} (h : few ≤ many) : lastPower few ≤ lastPower many := by
  unfold lastPower
  dsimp only
  split <;> split <;> omega

/-- A power of ten that is reached is reached with a smaller exponent as well. -/
theorem Reaches.of_le {num den : Nat} {e f : Int} (h : Reaches num den f) (hle : e ≤ f) :
    Reaches num den e := by
  have hdown : tenTo (-f).toNat ≤ tenTo (-e).toNat := tenTo_le (by omega)
  unfold Reaches at h ⊢
  calc den * tenTo e.toNat ≤ den * tenTo f.toNat := Nat.mul_le_mul_left den (tenTo_le (by omega))
    _ ≤ num * tenTo (-f).toNat := h
    _ ≤ num * tenTo (-e).toNat := Nat.mul_le_mul_left num hdown

/-- For eight lengths at a time it is enough to look at the least number and the greatest power. -/
theorem reaches_lastPower {bits : Nat} (h : bits < 2104) :
    Reaches (twoTo bits) (twoTo 1076) (lastPower bits) := by
  have hblocks : ∀ i < 263, twoTo 1076 * tenTo (lastPower (8 * i + 7)).toNat
      ≤ twoTo (8 * i) * tenTo (-lastPower (8 * i + 7)).toNat := by
    decide +kernel
  have hblock : Reaches (twoTo (8 * (bits / 8))) (twoTo 1076) (lastPower (8 * (bits / 8) + 7)) :=
    hblocks (bits / 8) (by omega)
  have hbits : twoTo (8 * (bits / 8)) ≤ twoTo bits := Nat.pow_le_pow_right (by decide) (by omega)
  exact Nat.le_trans (hblock.of_le (lastPower_le (by omega))) (Nat.mul_le_mul_right _ hbits)

variable {m k : Nat}

theorem reaches_powerBound (hm : 0 < m) (hfinite : IsFinite m k) :
    Reaches (rounding m k).value (rounding m k).den
      (powerBound (rounding m k).value (rounding m k).den - (4 : Nat)) := by
  have hvalue : (rounding m k).value = 4 * m * twoTo k := rfl
  have hpos : 0 < 4 * m * twoTo k := Nat.mul_pos (by omega) (twoTo_pos k)
  have hbits : (4 * m * twoTo k).log2 < 2104 := by
    have hsignificand := hfinite.significand
    have hdoublings := hfinite.doublings
    rw [Nat.log2_lt (Nat.pos_iff_ne_zero.mp hpos)]
    calc 4 * m * twoTo k < twoTo 55 * twoTo k :=
          Nat.mul_lt_mul_of_pos_right (show 4 * m < 2 ^ 55 by omega) (twoTo_pos k)
      _ = twoTo (55 + k) := (twoTo_add 55 k).symm
      _ ≤ 2 ^ 2104 := Nat.pow_le_pow_right (by decide) (by omega)
  have hpower : twoTo (4 * m * twoTo k).log2 ≤ 4 * m * twoTo k :=
    Nat.log2_self_le (Nat.pos_iff_ne_zero.mp hpos)
  have hlog : ∀ n, (twoTo n).log2 = n := fun n => Nat.log2_two_pow
  rw [hvalue, rounding_den]
  have hbound : powerBound (4 * m * twoTo k) (twoTo 1076) - (4 : Nat)
      = lastPower (4 * m * twoTo k).log2 := by
    unfold powerBound lastPower
    rw [hlog]
    rfl
  rw [hbound]
  exact Nat.le_trans (reaches_lastPower hbits) (Nat.mul_le_mul_right _ hpower)

/-- A grid that is finer than the leading digit by some places. -/
theorem reaches_sub {num den : Nat} {e : Int} (h : Reaches num den e) (places : Nat) :
    den * tenTo (e - places).toNat * tenTo places ≤ num * tenTo (-(e - places)).toNat := by
  obtain ⟨n, hn⟩ : ∃ n, (-(e - places)).toNat = (-e).toNat + n :=
    ⟨(-(e - places)).toNat - (-e).toNat, by omega⟩
  have hup : (e - places).toNat + places = e.toNat + n := by omega
  calc den * tenTo (e - places).toNat * tenTo places
      = den * tenTo (e.toNat + n) := by rw [Nat.mul_assoc, ← tenTo_add, hup]
    _ = den * tenTo e.toNat * tenTo n := by rw [tenTo_add, Nat.mul_assoc]
    _ ≤ num * tenTo (-e).toNat * tenTo n := Nat.mul_le_mul_right _ h
    _ = num * tenTo (-(e - places)).toNat := by rw [hn, tenTo_add, Nat.mul_assoc]

/-! ## Candidates -/

/-- A candidate is one of the neighbours of the value that lie in the interval. -/
theorem candidate_holds {r : Rounding} {exponent : Int} {digits : Nat}
    (h : r.candidate? exponent = some digits) : r.holds digits exponent = true := by
  unfold Rounding.candidate? at h
  grind

theorem candidate_ne_none {r : Rounding} {exponent : Int} {below : Nat}
    (hbelow : r.value * tenTo (-exponent).toNat / (r.den * tenTo exponent.toNat) = below)
    (h : r.holds below exponent = true ∨ r.holds (below + 1) exponent = true) :
    r.candidate? exponent ≠ none := by
  unfold Rounding.candidate?
  grind

/-- A decimal strictly between the ends is in the interval. -/
theorem holds_of_lt {digits : Nat} {exponent : Int}
    (hlow : (rounding m k).low * tenTo (-exponent).toNat
      < (rounding m k).den * tenTo exponent.toNat * digits)
    (hhigh : (rounding m k).den * tenTo exponent.toNat * digits
      < (rounding m k).high * tenTo (-exponent).toNat) :
    (rounding m k).holds digits exponent = true := by
  have hproduct : digits * tenTo exponent.toNat * (rounding m k).den
      = (rounding m k).den * tenTo exponent.toNat * digits := by ring
  unfold Rounding.holds
  dsimp only
  rw [hproduct, decide_eq_true hlow, decide_eq_true hhigh, decide_eq_true (Nat.le_of_lt hlow),
    decide_eq_true (Nat.le_of_lt hhigh)]
  split <;> rfl

/-- Downwards the interval is wider than half a step of a grid that is finer than the leading digit
by sixteen places. Widths are measured in quarters of the distance between two significands. -/
theorem low_sixteen (hfinite : IsFinite m k) {exponent : Int} {unit : Nat}
    (hunit : twoTo k * tenTo (-exponent).toNat = unit) (hpositive : 0 < unit)
    (hgrid : (rounding m k).den * tenTo exponent.toNat * tenTo 16 ≤ 4 * (m * unit)) :
    ∃ width, width ≤ 2 * unit
      ∧ (rounding m k).low * tenTo (-exponent).toNat = 4 * (m * unit) - width
      ∧ (rounding m k).den * tenTo exponent.toNat < 2 * width := by
  rw [show tenTo 16 = 10 ^ 16 from rfl] at hgrid
  by_cases hnarrow : m = twoTo 52 ∧ 0 < k
  · refine ⟨unit, by omega, ?_, ?_⟩
    · rw [← hunit]
      show (if _ then _ else _) * twoTo k * _ = _
      rw [if_pos hnarrow, Nat.mul_assoc, Nat.sub_mul]
      ring_nf
    · have hm52 : m * unit = 2 ^ 52 * unit := by rw [hnarrow.1]; rfl
      omega
  · refine ⟨2 * unit, Nat.le_refl _, ?_, ?_⟩
    · rw [← hunit]
      show (if _ then _ else _) * twoTo k * _ = _
      rw [if_neg hnarrow, Nat.mul_assoc, Nat.sub_mul]
      ring_nf
    · have hbound : m * unit < 2 ^ 53 * unit :=
        Nat.mul_lt_mul_of_pos_right hfinite.significand hpositive
      omega

/-- **A grid that is finer than the leading digit by sixteen places has a candidate.** -/
theorem candidate_sixteen (hm : 0 < m) (hfinite : IsFinite m k) {leading : Int}
    (h : Reaches (rounding m k).value (rounding m k).den leading) :
    (rounding m k).candidate? (leading - (16 : Nat)) ≠ none := by
  have hgrid := reaches_sub h 16
  generalize leading - (16 : Nat) = exponent at hgrid ⊢
  have hstep : 0 < (rounding m k).den * tenTo exponent.toNat := by
    rw [rounding_den]
    exact Nat.mul_pos (twoTo_pos _) (tenTo_pos _)
  have hdiv := Nat.div_add_mod ((rounding m k).value * tenTo (-exponent).toNat)
    ((rounding m k).den * tenTo exponent.toNat)
  have hmod := Nat.mod_lt ((rounding m k).value * tenTo (-exponent).toNat) hstep
  apply candidate_ne_none rfl
  generalize (rounding m k).value * tenTo (-exponent).toNat
    / ((rounding m k).den * tenTo exponent.toNat) = below at hdiv ⊢
  generalize (rounding m k).value * tenTo (-exponent).toNat
    % ((rounding m k).den * tenTo exponent.toNat) = rest at hdiv hmod
  obtain ⟨unit, hunit⟩ : ∃ u, twoTo k * tenTo (-exponent).toNat = u := ⟨_, rfl⟩
  have hproduct : unit ≤ m * unit := Nat.le_mul_of_pos_left _ hm
  have hpositive : 0 < unit := hunit ▸ Nat.mul_pos (twoTo_pos k) (tenTo_pos _)
  have hvalue : (rounding m k).value * tenTo (-exponent).toNat = 4 * (m * unit) := by
    rw [← hunit]
    show 4 * m * twoTo k * _ = _
    ring
  have hhigh : (rounding m k).high * tenTo (-exponent).toNat = 4 * (m * unit) + 2 * unit := by
    rw [← hunit]
    show (4 * m + 2) * twoTo k * _ = _
    ring
  rw [hvalue] at hgrid
  obtain ⟨width, hwidth, hlow, hnarrow⟩ := low_sixteen hfinite hunit hpositive hgrid
  have habove : (rounding m k).den * tenTo exponent.toNat * (below + 1)
      = (rounding m k).den * tenTo exponent.toNat * below
        + (rounding m k).den * tenTo exponent.toNat := Nat.mul_succ _ _
  -- the grid is so fine that one of the neighbours is inside, by how near the lower one is
  by_cases hnear : rest < width
  · refine Or.inl (holds_of_lt ?_ ?_)
    · omega
    · omega
  · refine Or.inr (holds_of_lt ?_ ?_)
    · omega
    · omega

/-- The search for a length ends at a candidate if the last length it tries has one. -/
theorem shortestFrom_holds {r : Rounding} {leading : Int} (more count : Nat)
    (h : r.candidate? (leading - (count + more : Nat) + 1) ≠ none) :
    r.holds (shortestFrom r leading (more + 1) count).1 (shortestFrom r leading (more + 1) count).2
      = true := by
  induction more generalizing count with
  | zero =>
      rw [shortestFrom]
      split
      case h_1 hcandidate => exact candidate_holds hcandidate
      case h_2 hnone => exact absurd hnone h
  | succ more ih =>
      rw [shortestFrom]
      split
      case h_1 hcandidate => exact candidate_holds hcandidate
      case h_2 =>
        apply ih
        rwa [show count + 1 + more = count + (more + 1) by omega]

/-- **The shortest decimal of a positive number lies in its interval.** -/
theorem shortest_holds (hm : 0 < m) (hfinite : IsFinite m k) :
    (rounding m k).holds (shortest m k).1 (shortest m k).2 = true := by
  have hleading := reaches_leadingPower (reaches_powerBound hm hfinite)
  unfold shortest
  dsimp only
  generalize leadingPower _ _ _ _ = leading at hleading ⊢
  apply stripZeros_holds
  have hlast := candidate_sixteen hm hfinite hleading
  rw [show leading - (16 : Nat) = leading - (1 + 16 : Nat) + 1 by omega] at hlast
  exact shortestFrom_holds 16 1 hlast

theorem shortest_pos (hm : 0 < m) (hfinite : IsFinite m k) : 0 < (shortest m k).1 := by
  have hrounds := (holds_iff m k _ _).mp (shortest_holds hm hfinite)
  exact Nat.pos_of_mul_pos_right (num_pos (tenTo_pos _) hrounds hm)

end Binary64

end TaskContract
