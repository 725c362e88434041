import TaskContract.Proofs.Json.Literals
import TaskContract.Proofs.Decimal.Shortest

/-!
# Floating-point numbers read back

The text of a floating-point number is a sign, digits, a point with further digits and an exponent,
of which the point or the exponent may be missing. The reader takes the parts off one after another,
and from their digits it computes the number of which they are the shortest decimal.
-/

namespace TaskContract

open Binary64 (zeros exponentText decimalText ofDecimal)

/-! ## Values of digits -/

namespace Text

theorem foldl_digits (t : Text) (n : Nat) :
    t.foldl (fun n c => 10 * n + (c.val - '0'.toNat)) n = n * tenTo t.length + digitsValue t := by
  induction t generalizing n with
  | nil => simp [tenTo, digitsValue]
  | cons c rest ih =>
      rw [digitsValue, List.foldl_cons, List.foldl_cons, ih, ih (10 * 0 + _), List.length_cons,
        tenTo_add, show tenTo 1 = 10 from rfl]
      ring

theorem digitsValue_append (s t : Text) :
    digitsValue (s ++ t) = digitsValue s * tenTo t.length + digitsValue t := by
  rw [digitsValue, List.foldl_append, foldl_digits]
  rfl

theorem areDigits_append {s t : Text} : AreDigits (s ++ t) ↔ s.AreDigits ∧ t.AreDigits :=
  List.forall_mem_append

theorem length_zeros (count : Nat) : (zeros count).length = count :=
  List.length_replicate

theorem areDigits_zeros (count : Nat) : (zeros count).AreDigits := by
  intro c hc
  rw [List.eq_of_mem_replicate hc]
  rfl

theorem digitsValue_zeros (count : Nat) : digitsValue (zeros count) = 0 := by
  induction count with
  | zero => rfl
  | succ n ih =>
      have hcons : zeros (n + 1) = Text.ofString "0" ++ zeros n := List.replicate_succ
      have hzero : digitsValue (Text.ofString "0") = 0 := rfl
      rw [hcons, digitsValue_append, ih, hzero, Nat.zero_mul]

end Text

namespace Json

/-! ## The parts of a number -/

theorem fraction_digits {ds t : Text} (hds : ds.AreDigits) (hne : ds ≠ []) (ht : EndsDigits t) :
    fraction? (CodePoint.ofChar '.' :: (ds ++ t)) = some (ds, t) := by
  rw [fraction?, (span_digits hds ht).1, List.isEmpty_eq_false_iff.mpr hne, List.drop_left]
  rfl

theorem exponent_signed {ds t : Text} (hds : ds.AreDigits) (hne : ds ≠ []) (ht : EndsDigits t)
    (negative : Bool) :
    exponent? (CodePoint.ofChar 'e' :: CodePoint.ofChar (if negative then '-' else '+')
        :: (ds ++ t))
      = some (if negative then -(ds.digitsValue : Int) else ds.digitsValue, t) := by
  have htake := (span_digits hds ht).1
  have hsome := List.isEmpty_eq_false_iff.mpr hne
  have hplus : CodePoint.ofChar '+' ≠ CodePoint.ofChar '-' := by decide
  cases negative
  all_goals
    unfold exponent?
    simp [htake, hsome, hplus]

theorem exponent_exponentText (e : Int) {t : Text} (ht : EndsDigits t) :
    exponent? (exponentText e ++ t) = some (e, t) := by
  have hdigits := Text.areDigits_ofNat e.natAbs
  have hvalue := Text.digitsValue_ofNat e.natAbs
  have hne := Text.ofNat_ne_nil e.natAbs
  -- a single digit gets a zero in front, which does not change its value
  obtain ⟨ds, hds, hsome, hsame, hpadded⟩ : ∃ ds : Text, ds.AreDigits ∧ ds ≠ []
      ∧ ds.digitsValue = e.natAbs
      ∧ (if (Text.ofNat e.natAbs).length < 2 then Text.ofString "0" ++ Text.ofNat e.natAbs
          else Text.ofNat e.natAbs) = ds := by
    split
    · have hzero : (Text.ofString "0").digitsValue = 0 := rfl
      refine ⟨_, Text.areDigits_append.mpr ⟨by decide, hdigits⟩, List.cons_ne_nil _ _, ?_, rfl⟩
      rw [Text.digitsValue_append, hvalue, hzero, Nat.zero_mul, Nat.zero_add]
    · exact ⟨_, hdigits, hne, hvalue, rfl⟩
  unfold exponentText
  dsimp only
  rw [hpadded]
  by_cases hneg : e < 0
  · have hread := exponent_signed hds hsome ht true
    rw [if_pos rfl, if_pos rfl, hsame, show -(e.natAbs : Int) = e by omega] at hread
    rw [if_pos hneg]
    exact hread
  · have hread := exponent_signed hds hsome ht false
    rw [if_neg Bool.false_ne_true, if_neg Bool.false_ne_true, hsame,
      show (e.natAbs : Int) = e by omega] at hread
    rw [if_neg hneg]
    exact hread

/-- The parts of a number make up its value. -/
theorem readNumber_parts (negative : Bool) {unsigned ds rest places rest' after : Text} {e : Int}
    (hwhole : whole? unsigned = some (ds, rest))
    (hplaces : (fraction? rest).getD ([], rest) = (places, rest'))
    (hpower : (exponent? rest').getD (0, rest') = (e, after))
    (hfloat : (places.isEmpty && (exponent? rest').isNone) = false) :
    readNumber (Text.ofString (if negative then "-" else "") ++ unsigned)
      = .ok (.float (ofDecimal negative (ds ++ places).digitsValue (e - places.length)), after) := by
  cases negative with
  | true =>
      show readNumber (CodePoint.ofChar '-' :: unsigned) = _
      simp [readNumber, hwhole, hplaces, hpower, hfloat]
  | false =>
      cases unsigned with
      | nil => cases hwhole
      | cons c more =>
          have hsign : c ≠ CodePoint.ofChar '-' := by
            rintro rfl
            cases hwhole
          show readNumber (c :: more) = _
          simp [readNumber, hsign, hwhole, hplaces, hpower, hfloat]

theorem exponentText_head (e : Int) : ∃ t, exponentText e = CodePoint.ofChar 'e' :: t := by
  unfold exponentText
  dsimp only
  split <;> exact ⟨_, rfl⟩

section

variable {c : CodePoint} {rest places tail : Text} (hds : Text.AreDigits (c :: rest))
  (hc : c = CodePoint.ofChar '0' → rest = []) (hplaces : places.AreDigits) (hne : places ≠ [])
  (ht : EndsNumber tail) (negative : Bool) (e : Int)

include hds hc ht

theorem readNumber_exponent :
    readNumber (Text.ofString (if negative then "-" else "")
        ++ (c :: rest ++ (exponentText e ++ tail)))
      = .ok (.float (ofDecimal negative (Text.digitsValue (c :: rest)) e), tail) := by
  obtain ⟨t, hhead⟩ := exponentText_head e
  have hwhole := whole_digits hds hc (t := exponentText e ++ tail)
    (by rw [hhead]; exact endsDigits_cons rfl _)
  have hfraction : (fraction? (exponentText e ++ tail)).getD ([], exponentText e ++ tail)
      = ([], exponentText e ++ tail) := by
    rw [hhead]
    rfl
  have hexponent := exponent_exponentText e ht.endsDigits
  have hpower : (exponent? (exponentText e ++ tail)).getD (0, exponentText e ++ tail)
      = (e, tail) := by
    rw [hexponent]
    rfl
  have hread := readNumber_parts negative hwhole hfraction hpower (by rw [hexponent]; rfl)
  rw [List.append_nil, List.length_nil, Int.natCast_zero, Int.sub_zero] at hread
  exact hread

include hplaces hne

theorem readNumber_point :
    readNumber (Text.ofString (if negative then "-" else "")
        ++ (c :: rest ++ CodePoint.ofChar '.' :: (places ++ tail)))
      = .ok (.float (ofDecimal negative (Text.digitsValue (c :: rest ++ places))
          (0 - places.length)), tail) := by
  have hfraction := fraction_digits hplaces hne ht.endsDigits
  refine readNumber_parts negative (whole_digits hds hc (endsDigits_cons rfl _))
    (by rw [hfraction]; rfl) (by rw [ht.exponent]; rfl) ?_
  rw [List.isEmpty_eq_false_iff.mpr hne]
  rfl

theorem readNumber_point_exponent :
    readNumber (Text.ofString (if negative then "-" else "")
        ++ (c :: rest ++ CodePoint.ofChar '.' :: (places ++ (exponentText e ++ tail))))
      = .ok (.float (ofDecimal negative (Text.digitsValue (c :: rest ++ places))
          (e - places.length)), tail) := by
  obtain ⟨t, hhead⟩ := exponentText_head e
  have hfraction := fraction_digits hplaces hne (t := exponentText e ++ tail)
    (by rw [hhead]; exact endsDigits_cons rfl _)
  have hexponent := exponent_exponentText e ht.endsDigits
  refine readNumber_parts negative (whole_digits hds hc (endsDigits_cons rfl _))
    (by rw [hfraction]; rfl) (by rw [hexponent]; rfl) ?_
  rw [hexponent]
  exact Bool.and_false _

end

section

variable {c : CodePoint} {rest tail : Text} {digits : Nat}
  (hds : Text.AreDigits (c :: rest)) (hc : c ≠ CodePoint.ofChar '0')
  (hvalue : Text.digitsValue (c :: rest) = digits) (ht : EndsNumber tail) (negative : Bool)

include hds hvalue ht

/-- All digits stand behind the point, and some zeros between. -/
theorem readNumber_behind (n : Nat) :
    readNumber (Text.ofString (if negative then "-" else "")
        ++ (Text.ofString "0." ++ zeros n ++ c :: rest ++ tail))
      = .ok (.float (ofDecimal negative digits (-(n + rest.length + 1 : Nat))), tail) := by
  have hzero : Text.AreDigits [CodePoint.ofChar '0'] := by decide
  have hread := readNumber_point hzero (fun _ => rfl)
    (Text.areDigits_append.mpr ⟨Text.areDigits_zeros n, hds⟩)
    (List.append_ne_nil_of_right_ne_nil _ (List.cons_ne_nil _ _)) ht negative
  have hvalueZero : Text.digitsValue [CodePoint.ofChar '0'] = 0 := rfl
  have hexponent : (0 : Int) - (zeros n ++ c :: rest).length = -(n + rest.length + 1 : Nat) := by
    rw [List.length_append, Text.length_zeros, List.length_cons]
    omega
  rw [Text.digitsValue_append, Text.digitsValue_append, Text.digitsValue_zeros, hvalue,
    hvalueZero, hexponent, Nat.zero_mul, Nat.zero_mul, Nat.zero_add, Nat.zero_add] at hread
  rw [← hread]
  simp only [List.append_assoc]
  rfl

include hc

/-- All digits and some zeros stand before the point. -/
theorem readNumber_before (n : Nat) :
    readNumber (Text.ofString (if negative then "-" else "")
        ++ (c :: rest ++ zeros n ++ Text.ofString ".0" ++ tail))
      = .ok (.float (ofDecimal negative (digits * tenTo (n + 1)) (-1)), tail) := by
  have hall : Text.AreDigits (c :: (rest ++ zeros n)) :=
    Text.areDigits_append.mpr ⟨hds, Text.areDigits_zeros _⟩
  have hzero : Text.AreDigits (Text.ofString "0") := by decide
  have hread := readNumber_point hall (fun h => absurd h hc) hzero (List.cons_ne_nil _ _) ht
    negative
  have hmoved : Text.digitsValue (c :: rest ++ zeros n ++ Text.ofString "0")
      = digits * tenTo (n + 1) := by
    rw [Text.digitsValue_append, Text.digitsValue_append, Text.digitsValue_zeros, hvalue,
      Text.length_zeros, tenTo_add, Nat.add_zero, Nat.mul_assoc]
    rfl
  rw [← List.cons_append, hmoved] at hread
  rw [show (-1 : Int) = 0 - (Text.ofString "0").length from rfl, ← hread]
  simp only [List.append_assoc]
  rfl

/-- The point stands between two digits. -/
theorem readNumber_between {n : Nat} (hn : n < rest.length) :
    readNumber (Text.ofString (if negative then "-" else "")
        ++ ((c :: rest).take (n + 1) ++ Text.ofString "." ++ (c :: rest).drop (n + 1) ++ tail))
      = .ok (.float (ofDecimal negative digits (n - rest.length : Int)), tail) := by
  obtain ⟨hbefore, hbehind⟩ : Text.AreDigits (c :: rest.take n)
      ∧ Text.AreDigits (rest.drop n) := by
    rw [← Text.areDigits_append, List.cons_append, List.take_append_drop]
    exact hds
  have hread := readNumber_point hbefore (fun h => absurd h hc) hbehind
    (List.drop_eq_nil_iff.not.mpr (Nat.not_le.mpr hn)) ht negative
  have hexponent : (0 : Int) - (rest.drop n).length = n - rest.length := by
    rw [List.length_drop]
    omega
  have hsplit : Text.digitsValue (c :: rest.take n ++ rest.drop n) = digits := by
    rw [List.cons_append, List.take_append_drop, hvalue]
  rw [hsplit, hexponent] at hread
  rw [← hread]
  simp only [List.append_assoc]
  rfl

end

/-- **The text of a decimal is read back as that decimal**, of which zeros may have moved from the
exponent to the digits. -/
theorem readNumber_decimalText {digits : Nat} (hdigits : 0 < digits) (exponent : Int)
    (negative : Bool) {tail : Text} (ht : EndsNumber tail) :
    ∃ n : Nat, readNumber (Text.ofString (if negative then "-" else "")
        ++ (decimalText digits exponent ++ tail))
      = .ok (.float (ofDecimal negative (digits * tenTo n) (exponent - n)), tail) := by
  obtain ⟨c, rest, hfront, hc⟩ := Text.ofNat_head hdigits
  have hds := Text.areDigits_ofNat digits
  have hvalue := Text.digitsValue_ofNat digits
  have hsame : digits * tenTo 0 = digits := Nat.mul_one digits
  have hlead : ∀ more : Text, c = CodePoint.ofChar '0' → more = [] :=
    fun _ hzero => absurd hzero hc
  unfold decimalText
  dsimp only
  rw [hfront] at hds hvalue ⊢
  have hlength : (c :: rest).length = rest.length + 1 := List.length_cons
  obtain ⟨leading, hleading⟩ : ∃ l, exponent + (c :: rest).length - 1 = l := ⟨_, rfl⟩
  rw [hleading]
  -- the point stands behind the digits, among them or in front of them, or there is an exponent
  by_cases hpositional : -4 ≤ leading ∧ leading < 16
  · rw [if_pos hpositional]
    by_cases hwhole : 0 ≤ exponent
    · refine ⟨exponent.toNat + 1, ?_⟩
      rw [if_pos hwhole, readNumber_before hds hc hvalue ht,
        show exponent - (exponent.toNat + 1 : Nat) = -1 by omega]
    · rw [if_neg hwhole]
      refine ⟨0, ?_⟩
      rw [hsame, Int.natCast_zero, Int.sub_zero]
      by_cases hinside : 0 ≤ leading
      · rw [if_pos hinside, readNumber_between hds hc hvalue ht negative (by omega),
          show (leading.toNat - rest.length : Int) = exponent by omega]
      · rw [if_neg hinside, readNumber_behind hds hvalue ht,
          show (-((-leading - 1).toNat + rest.length + 1 : Nat) : Int) = exponent by omega]
  · rw [if_neg hpositional]
    refine ⟨0, ?_⟩
    rw [hsame, Int.natCast_zero, Int.sub_zero]
    cases rest with
    | nil =>
        have hread := readNumber_exponent hds (hlead _) ht negative leading
        rw [hvalue, show leading = exponent by simp at hleading; omega] at hread
        rw [show leading = exponent by simp at hleading; omega]
        exact hread
    | cons d more =>
        obtain ⟨hfirst, hmore⟩ : Text.AreDigits [c] ∧ Text.AreDigits (d :: more) :=
          Text.areDigits_append.mp hds
        have hread := readNumber_point_exponent hfirst (hlead _) hmore (List.cons_ne_nil _ _) ht
          negative leading
        have hexponent : leading - (d :: more).length = exponent := by omega
        rw [show Text.digitsValue ([c] ++ d :: more) = digits from hvalue, hexponent] at hread
        rw [← hread]
        show readNumber (_ ++ (c :: (CodePoint.ofChar '.' :: (d :: more)
          ++ exponentText leading) ++ tail)) = _
        simp only [List.append_assoc, List.cons_append, List.nil_append]

/-- **The text of a finite number of the format is read back as the number.** -/
theorem readNumber_text {negative : Bool} {m k : Nat} (h : Binary64.IsFinite m k) {tail : Text}
    (ht : EndsNumber tail) :
    readNumber ((Binary64.finite negative m k).text Binary64.jsonNames ++ tail)
      = .ok (.float (.finite negative m k), tail) := by
  unfold Binary64.text
  dsimp only
  rcases Nat.eq_zero_or_pos m with rfl | hm
  · have hk : k = 0 := by
      by_contra hk
      exact absurd (h.normal (Nat.pos_of_ne_zero hk)) (by decide)
    have hzero : Text.AreDigits [CodePoint.ofChar '0'] := by decide
    have hread := readNumber_point hzero (fun _ => rfl) hzero (List.cons_ne_nil _ _) ht negative
    rw [if_pos rfl, List.append_assoc, hk]
    exact hread
  · obtain ⟨n, hread⟩ := readNumber_decimalText (Binary64.shortest_pos hm h)
      (Binary64.shortest m k).2 negative ht
    have hmoved := Binary64.ofDecimal_of_holds hm h
      ((Binary64.holds_tenTo m k _ n _).trans (Binary64.shortest_holds hm h)) negative
    rw [if_neg (Nat.pos_iff_ne_zero.mp hm), List.append_assoc, hread, hmoved]

end Json

end TaskContract
