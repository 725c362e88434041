import TaskContract.Json.Printer
import TaskContract.Json.Reader
import Mathlib.Data.Nat.Digits.Defs
import Mathlib.Data.List.TakeDrop

/-!
# Strings and integers read back

What the printer writes for one code point of a string and for an integer is read back by the
reader, whatever stands behind it. For an integer that must not go on with a digit, a point or an
exponent.
-/

namespace TaskContract

/-! ## Escapes -/

theorem CodePoint.hexValue_digitChar :
    ∀ d, d < 16 → (CodePoint.ofChar (Nat.digitChar d)).hexValue? = some d := by
  decide

/-- The last digit stands behind the others, as long as there is room for one of those. -/
theorem Text.hex_succ (width n : Nat) :
    Text.hex (width + 2) n
      = Text.hex (width + 1) (n / 16) ++ [CodePoint.ofChar (Nat.digitChar (n % 16))] := by
  unfold Text.hex Text.ofChars
  rw [Nat.toDigits_eq_if (by decide)]
  by_cases h : n < 16
  · have hzero : n / 16 = 0 := Nat.div_eq_of_lt h
    rw [if_pos h, hzero, Nat.mod_eq_of_lt h, Nat.toDigits_zero]
    simp only [List.map_cons, List.map_nil, List.length_cons, List.length_nil]
    show List.replicate (width + 1) (CodePoint.ofChar '0') ++ _
      = List.replicate width (CodePoint.ofChar '0') ++ [CodePoint.ofChar '0'] ++ _
    rw [List.replicate_succ']
  · rw [if_neg h]
    simp only [List.map_append, List.map_cons, List.map_nil, List.length_append, List.length_cons,
      List.length_nil]
    rw [← List.append_assoc]
    congr 3
    omega

theorem Text.hex_one {n : Nat} (h : n < 16) :
    Text.hex 1 n = [CodePoint.ofChar (Nat.digitChar n)] := by
  unfold Text.hex Text.ofChars
  rw [Nat.toDigits_of_lt_base h]
  rfl

/-- An escape is a backslash, a letter and four digits. -/
theorem Text.forall_mem_unitEscape {p : CodePoint → Prop}
    (hfront : ∀ c ∈ Text.ofString "\\u", p c)
    (hdigit : ∀ d < 16, p (CodePoint.ofChar (Nat.digitChar d))) {n : Nat} (hn : n < 0x10000) :
    ∀ c ∈ Text.unitEscape n, p c := by
  rw [unitEscape, hex_succ, hex_succ, hex_succ, hex_one (by omega)]
  simp only [List.forall_mem_append, List.forall_mem_singleton]
  refine ⟨hfront, ⟨⟨?_, ?_⟩, ?_⟩, ?_⟩
  all_goals exact hdigit _ (by omega)

theorem Text.unitEscape_append (n : Nat) (t : Text) :
    Text.unitEscape n ++ t
      = CodePoint.ofChar '\\' :: CodePoint.ofChar 'u' :: (Text.hex 4 n ++ t) :=
  rfl

namespace Json

theorem hex4_append {n : Nat} (h : n < 0x10000) (t : Text) :
    hex4? (Text.hex 4 n ++ t) = some (n, t) := by
  rw [Text.hex_succ, Text.hex_succ, Text.hex_succ, Text.hex_one (by omega)]
  simp only [List.cons_append, List.nil_append, hex4?]
  rw [CodePoint.hexValue_digitChar _ (by omega), CodePoint.hexValue_digitChar _ (by omega),
    CodePoint.hexValue_digitChar _ (by omega), CodePoint.hexValue_digitChar _ (by omega)]
  have hvalue : ((n / 16 / 16 / 16 * 16 + n / 16 / 16 % 16) * 16 + n / 16 % 16) * 16 + n % 16 = n :=
    by omega
  simp only [Option.bind_eq_bind, Option.bind_some, Option.pure_def, hvalue]

theorem length_hex {n : Nat} (h : n < 0x10000) : (Text.hex 4 n).length = 4 := by
  rw [Text.hex_succ, Text.hex_succ, Text.hex_succ, Text.hex_one (by omega)]
  rfl

theorem readUnicodeEscape_unit {n : Nat} (hn : n < 0x10000) (hhigh : isHighSurrogate n = false)
    {t : Text} (ht : t ≠ []) :
    readUnicodeEscape (Text.hex 4 n ++ t) = .ok (CodePoint.ofNat n, t) := by
  have hlength : ¬(Text.hex 4 n ++ t).length ≤ 4 := by
    have := List.length_pos_iff.mpr ht
    rw [List.length_append, length_hex hn]
    omega
  unfold readUnicodeEscape
  rw [if_neg hlength, hex4_append hn]
  dsimp only
  split
  · rw [hhigh]
    rfl
  · rfl

/-- The two escapes of a code point beyond the first plane are read as one code point. -/
theorem readUnicodeEscape_pair {n : Nat} (hn : n < 0x100000) {t : Text} (ht : t ≠ []) :
    readUnicodeEscape (Text.hex 4 (0xD800 + n / 0x400)
        ++ (Text.unitEscape (0xDC00 + n % 0x400) ++ t))
      = .ok (CodePoint.ofNat (0x10000 + n), t) := by
  have hhigh : 0xD800 + n / 0x400 < 0x10000 := by omega
  have hlow : 0xDC00 + n % 0x400 < 0x10000 := by omega
  have hmore : 4 < (Text.hex 4 (0xDC00 + n % 0x400) ++ t).length := by
    have := List.length_pos_iff.mpr ht
    rw [List.length_append, length_hex hlow]
    omega
  have hlength : ¬(Text.hex 4 (0xD800 + n / 0x400) ++ (CodePoint.ofChar '\\'
      :: CodePoint.ofChar 'u' :: (Text.hex 4 (0xDC00 + n % 0x400) ++ t))).length ≤ 4 := by
    rw [List.length_append, length_hex hhigh, List.length_cons]
    omega
  have hisHigh : isHighSurrogate (0xD800 + n / 0x400) = true := by
    unfold isHighSurrogate
    simp only [Bool.and_eq_true, decide_eq_true_eq]
    omega
  have hisLow : isLowSurrogate (0xDC00 + n % 0x400) = true := by
    unfold isLowSurrogate
    simp only [Bool.and_eq_true, decide_eq_true_eq]
    omega
  have hvalue : 0x10000 + (0xD800 + n / 0x400 - 0xD800) * 0x400 + (0xDC00 + n % 0x400 - 0xDC00)
      = 0x10000 + n := by omega
  unfold readUnicodeEscape
  rw [Text.unitEscape_append, if_neg hlength, hex4_append hhigh]
  dsimp only
  rw [hisHigh, decide_eq_true hmore, if_pos (by decide), hex4_append hlow]
  dsimp only
  rw [if_pos hisLow, hvalue]

/-! ## Strings -/

section

variable {start t s after : Text} {fuel : Nat}

theorem readString_simple {e d : CodePoint} (he : e ≠ CodePoint.ofChar 'u')
    (hd : simpleEscape? e = some d) (h : readString start fuel t = .ok (s, after)) :
    readString start (fuel + 1) (CodePoint.ofChar '\\' :: e :: t) = .ok (d :: s, after) := by
  rw [readString]
  dsimp only
  rw [if_neg (by decide), if_pos rfl, if_neg he, hd]
  dsimp only
  rw [h]
  rfl

theorem readString_unicode {u : Text} {d : CodePoint} (hd : readUnicodeEscape u = .ok (d, t))
    (h : readString start fuel t = .ok (s, after)) :
    readString start (fuel + 1) (CodePoint.ofChar '\\' :: CodePoint.ofChar 'u' :: u)
      = .ok (d :: s, after) := by
  rw [readString]
  dsimp only
  rw [if_neg (by decide), if_pos rfl, if_pos rfl, hd]
  show (readString start fuel t >>= fun r => pure (d :: r.1, r.2)) = .ok (d :: s, after)
  rw [h]
  rfl

theorem readString_plain {c : CodePoint} (hquote : c ≠ CodePoint.ofChar '"')
    (hslash : c ≠ CodePoint.ofChar '\\') (hcontrol : ¬c.val < 0x20)
    (h : readString start fuel t = .ok (s, after)) :
    readString start (fuel + 1) (c :: t) = .ok (c :: s, after) := by
  unfold readString
  dsimp only
  rw [if_neg hquote, if_neg hslash, if_neg hcontrol, h]
  rfl

/-- What is written for a code point is read back to it. In ASCII a surrogate could be read as half
of a pair. -/
theorem readString_jsonCodePoint {ascii : Bool} {c : CodePoint}
    (hc : ascii = true → c.isSurrogate = false) (ht : t ≠ [])
    (h : readString start fuel t = .ok (s, after)) :
    readString start (fuel + 1) (Text.jsonCodePoint ascii c ++ t) = .ok (c :: s, after) := by
  have hofNat : CodePoint.ofNat c.val = c := by
    rw [CodePoint.ofNat, dif_pos c.isLt]
  have hval : ∀ d : Char, c.val = d.toNat → c = CodePoint.ofChar d := by
    intro d hd
    obtain ⟨n, hn⟩ := c
    cases hd
    rfl
  have hsimple : ∀ e d : Char, simpleEscape? (CodePoint.ofChar e) = some (CodePoint.ofChar d) →
      CodePoint.ofChar e ≠ CodePoint.ofChar 'u' → c = CodePoint.ofChar d →
      readString start (fuel + 1) (CodePoint.ofChar '\\' :: CodePoint.ofChar e :: t)
        = .ok (c :: s, after) := by
    rintro e d hd he rfl
    exact readString_simple he hd h
  -- a code point in one unit is read back from it, unless that could begin a pair
  have hunit : c.val < 0x10000 → isHighSurrogate c.val = false →
      readString start (fuel + 1) (Text.unitEscape c.val ++ t) = .ok (c :: s, after) := by
    intro hn hhigh
    have hread := readUnicodeEscape_unit hn hhigh ht
    rw [hofNat] at hread
    rw [Text.unitEscape_append]
    exact readString_unicode hread h
  fun_cases Text.jsonCodePoint ascii c with
  | case1 hchar => exact hsimple '"' '"' (by decide) (by decide) hchar
  | case2 _ hchar => exact hsimple '\\' '\\' (by decide) (by decide) hchar
  | case3 _ _ hchar => exact hsimple 'n' '\n' (by decide) (by decide) hchar
  | case4 _ _ _ hchar => exact hsimple 'r' '\r' (by decide) (by decide) hchar
  | case5 _ _ _ _ hchar => exact hsimple 't' '\t' (by decide) (by decide) hchar
  | case6 _ _ _ _ _ hchar => exact hsimple 'b' '\x08' (by decide) (by decide) (hval _ hchar)
  | case7 _ _ _ _ _ _ hchar => exact hsimple 'f' '\x0c' (by decide) (by decide) (hval _ hchar)
  | case8 _ _ _ _ _ _ _ hcontrol =>
      refine hunit (by omega) ?_
      simp only [isHighSurrogate, Bool.and_eq_false_iff, decide_eq_false_iff_not]
      omega
  | case9 _ _ _ _ _ _ _ _ hascii hplane =>
      refine hunit hplane ?_
      have hscalar := hc (Bool.and_eq_true_iff.mp hascii).1
      simp only [CodePoint.isSurrogate, isHighSurrogate, Bool.and_eq_false_iff,
        decide_eq_false_iff_not] at hscalar ⊢
      omega
  | case10 _ _ _ _ _ _ _ _ _ hplane n =>
      have hvalue : 0x10000 + n = c.val := by omega
      have hn : n < 0x100000 := by
        have := c.isLt
        omega
      have hread := readUnicodeEscape_pair hn ht
      rw [hvalue, hofNat] at hread
      rw [List.append_assoc, Text.unitEscape_append]
      exact readString_unicode hread h
  | case11 hquote hslash _ _ _ _ _ hcontrol => exact readString_plain hquote hslash hcontrol h

end

theorem length_le_flatMap_jsonCodePoint (ascii : Bool) (s : Text) :
    s.length ≤ (s.flatMap (Text.jsonCodePoint ascii)).length := by
  induction s with
  | nil => exact Nat.le_refl 0
  | cons c rest ih =>
      have hc : 0 < (Text.jsonCodePoint ascii c).length := by
        fun_cases Text.jsonCodePoint ascii c
        all_goals exact Nat.succ_pos _
      rw [List.flatMap_cons, List.length_append, List.length_cons]
      omega

/-- A string is read back up to its closing quote. -/
theorem readString_written {ascii : Bool} {s : Text} (hs : ascii = true → s.isScalar = true)
    {fuel : Nat} (hfuel : s.length < fuel) (start tail : Text) :
    readString start fuel (s.flatMap (Text.jsonCodePoint ascii) ++ CodePoint.ofChar '"' :: tail)
      = .ok (s, tail) := by
  induction s generalizing fuel with
  | nil =>
      obtain ⟨fuel, rfl⟩ : ∃ n, fuel = n + 1 := ⟨fuel - 1, by omega⟩
      rw [List.flatMap_nil, List.nil_append]
      unfold readString
      dsimp only
      rw [if_pos rfl]
  | cons c rest ih =>
      obtain ⟨fuel, rfl⟩ : ∃ n, fuel = n + 1 := ⟨fuel - 1, by omega⟩
      have hscalar : ascii = true → c.isSurrogate = false ∧ Text.isScalar rest = true := by
        intro h
        simpa [Text.isScalar] using hs h
      have hrest := ih (fun h => (hscalar h).2) (Nat.lt_of_succ_lt_succ hfuel)
      rw [List.flatMap_cons, List.append_assoc]
      exact readString_jsonCodePoint (fun h => (hscalar h).1) (by simp) hrest

/-! ## Integers -/

end Json

theorem Text.ofNat_eq (n : Nat) : Text.ofNat n = (Nat.toDigits 10 n).map CodePoint.ofChar := by
  rw [Text.ofNat, Text.ofString, Nat.toList_repr]

theorem Text.ofNat_ne_nil (n : Nat) : Text.ofNat n ≠ [] := by
  rw [Text.ofNat_eq, ne_eq, List.map_eq_nil_iff]
  exact Nat.toDigits_ne_nil

theorem CodePoint.isDigit_ofChar {c : Char} (h : c.isDigit = true) :
    (CodePoint.ofChar c).isDigit = true := by
  rw [Char.isDigit, Bool.and_eq_true, decide_eq_true_iff, decide_eq_true_iff] at h
  rw [CodePoint.isDigit, CodePoint.isBetween, Bool.and_eq_true, decide_eq_true_iff,
    decide_eq_true_iff]
  exact h

theorem Text.isDigit_of_mem_ofNat {n : Nat} {c : CodePoint} (h : c ∈ Text.ofNat n) :
    c.isDigit = true := by
  rw [Text.ofNat_eq] at h
  obtain ⟨d, hd, rfl⟩ := List.mem_map.mp h
  exact CodePoint.isDigit_ofChar (Nat.isDigit_of_mem_toDigits (by decide) (by decide) hd)

theorem Text.forall_mem_ofInt {p : CodePoint → Prop} (hsign : p (CodePoint.ofChar '-'))
    (hdigit : ∀ c : CodePoint, c.isDigit = true → p c) (n : Int) : ∀ c ∈ Text.ofInt n, p c := by
  have hdigits : ∀ c ∈ Text.ofNat n.natAbs, p c := fun c hc =>
    hdigit c (isDigit_of_mem_ofNat hc)
  rw [ofInt]
  split
  · exact List.forall_mem_append.mpr ⟨List.forall_mem_singleton.mpr hsign, hdigits⟩
  · exact hdigits

def Text.AreDigits (t : Text) : Prop :=
  ∀ c ∈ t, c.isDigit = true

instance (t : Text) : Decidable t.AreDigits :=
  inferInstanceAs (Decidable (∀ c ∈ t, c.isDigit = true))

theorem Text.areDigits_ofNat (n : Nat) : (Text.ofNat n).AreDigits :=
  fun _ => isDigit_of_mem_ofNat

theorem Text.digitsValue_ofNat (n : Nat) : (Text.ofNat n).digitsValue = n := by
  rw [Text.ofNat_eq, Text.digitsValue, List.foldl_map]
  exact Nat.ofDigitChars_toDigits (by decide) (by decide)

theorem Text.ofNat_head {n : Nat} (hn : 0 < n) :
    ∃ c rest, Text.ofNat n = c :: rest ∧ c ≠ CodePoint.ofChar '0' := by
  induction n using Nat.strongRecOn with
  | ind n ih =>
      by_cases h : n < 10
      · have hdigit : ∀ d < 10, 0 < d →
            CodePoint.ofChar (Nat.digitChar d) ≠ CodePoint.ofChar '0' := by
          decide
        exact ⟨_, [], by rw [Text.ofNat_eq, Nat.toDigits_of_lt_base h]; rfl, hdigit n h hn⟩
      · obtain ⟨c, rest, hfront, hc⟩ := ih (n / 10) (by omega) (by omega)
        rw [Text.ofNat_eq] at hfront
        rw [Text.ofNat_eq, Nat.toDigits_eq_if (by decide), if_neg h, List.map_append, hfront]
        exact ⟨c, _, rfl, hc⟩

namespace Json

/-- The text does not prolong digits in front of it. -/
def EndsDigits (t : Text) : Prop :=
  ∀ c ∈ t.head?, c.isDigit = false

theorem endsDigits_cons {c : CodePoint} (h : c.isDigit = false) (t : Text) :
    EndsDigits (c :: t) := by
  intro d hd
  exact Option.some.inj hd ▸ h

theorem span_digits {ds t : Text} (hds : ds.AreDigits) (ht : EndsDigits t) :
    (ds ++ t).takeWhile CodePoint.isDigit = ds ∧ (ds ++ t).dropWhile CodePoint.isDigit = t := by
  rw [List.takeWhile_append_of_pos hds, List.dropWhile_append_of_pos hds]
  cases t with
  | nil => exact ⟨List.append_nil _, rfl⟩
  | cons c rest =>
      have hc : ¬c.isDigit = true := by rw [ht c rfl]; exact nofun
      rw [List.takeWhile_cons_of_neg hc, List.dropWhile_cons_of_neg hc]
      exact ⟨List.append_nil _, rfl⟩

/-- The digits in front of a number are its whole part, if none or only one of them is a leading
zero. -/
theorem whole_digits {c : CodePoint} {rest t : Text} (hds : Text.AreDigits (c :: rest))
    (hc : c = CodePoint.ofChar '0' → rest = []) (ht : EndsDigits t) :
    whole? (c :: rest ++ t) = some (c :: rest, t) := by
  obtain ⟨htake, hdrop⟩ := span_digits hds ht
  rw [List.cons_append, whole?]
  by_cases hzero : c = CodePoint.ofChar '0'
  · rw [if_pos hzero, hc hzero, List.nil_append]
  · rw [if_neg hzero, if_pos (hds c List.mem_cons_self), List.span_eq_takeWhile_dropWhile,
      ← List.cons_append, htake, hdrop]

theorem whole_ofNat (n : Nat) {t : Text} (ht : EndsDigits t) :
    whole? (Text.ofNat n ++ t) = some (Text.ofNat n, t) := by
  rcases Nat.eq_zero_or_pos n with rfl | hn
  · rfl
  · have hdigits := Text.areDigits_ofNat n
    obtain ⟨c, rest, hfront, hc⟩ := Text.ofNat_head hn
    rw [hfront] at hdigits ⊢
    exact whole_digits hdigits (fun hzero => absurd hzero hc) ht

/-- The text does not prolong a number in front of it. -/
def EndsNumber (t : Text) : Prop :=
  ∀ c ∈ t.head?, c.isDigit = false ∧ c ≠ CodePoint.ofChar '.' ∧ c ≠ CodePoint.ofChar 'e'
    ∧ c ≠ CodePoint.ofChar 'E'

theorem EndsNumber.endsDigits {t : Text} (h : EndsNumber t) : EndsDigits t :=
  fun c hc => (h c hc).1

theorem EndsNumber.fraction {t : Text} (h : EndsNumber t) : fraction? t = none := by
  cases t with
  | nil => rfl
  | cons c rest =>
      obtain ⟨-, hpoint, -⟩ := h c rfl
      rw [fraction?, decide_eq_false hpoint]
      rfl

theorem EndsNumber.exponent {t : Text} (h : EndsNumber t) : exponent? t = none := by
  cases t with
  | nil => rfl
  | cons c rest =>
      obtain ⟨-, -, hsmall, hbig⟩ := h c rfl
      unfold exponent?
      dsimp only
      rw [decide_eq_false hsmall, decide_eq_false hbig]
      rfl

theorem readNumber_ofInt {n : Int} (hn : digitCount n ≤ digitLimit) {t : Text}
    (h : EndsNumber t) : readNumber (Text.ofInt n ++ t) = .ok (.int n, t) := by
  have hwhole := whole_ofNat n.natAbs h.endsDigits
  have hlimit : ¬digitLimit < (Text.ofNat n.natAbs).length := Nat.not_lt.mpr hn
  rw [Text.ofInt]
  by_cases hneg : n < 0
  · have hvalue : -(n.natAbs : Int) = n := by omega
    generalize n.natAbs = digits at hwhole hlimit hvalue ⊢
    rw [if_pos hneg]
    show readNumber (CodePoint.ofChar '-' :: (Text.ofNat digits ++ t)) = _
    simp [readNumber, hwhole, h.fraction, h.exponent, hlimit, Text.digitsValue_ofNat, hvalue]
  · have hvalue : (n.natAbs : Int) = n := by omega
    generalize n.natAbs = digits at hwhole hlimit hvalue ⊢
    obtain ⟨c, rest, hfront⟩ := List.exists_cons_of_ne_nil (Text.ofNat_ne_nil digits)
    have hsign : c ≠ CodePoint.ofChar '-' := by
      rintro rfl
      have hdigit := Text.isDigit_of_mem_ofNat (hfront ▸ List.mem_cons_self)
      exact absurd hdigit (by decide)
    have hnumber := Text.digitsValue_ofNat digits
    rw [if_neg hneg]
    rw [hfront] at hwhole hlimit hnumber ⊢
    rw [List.cons_append] at hwhole ⊢
    simp [readNumber, hsign, hwhole, h.fraction, h.exponent, -List.length_cons, hlimit, hnumber,
      hvalue]

end Json

end TaskContract
