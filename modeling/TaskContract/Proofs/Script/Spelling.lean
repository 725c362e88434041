import Mathlib.Data.List.Chain
import Mathlib.Data.Nat.Digits.Lemmas
import TaskContract.Script.Escape

/-!
# Spellings of texts

A text between quotes is made of pieces: a character that stands for itself, or a backslash with
what follows it. `unescape_spelling` says that the value of a text is read off piece by piece,
whatever pieces it is spelled with: no piece runs into the next one. The one exception is a
carriage return that continues a line directly before a line feed, where the two are one line end.
-/

namespace TaskContract.Script

/-! ## Hexadecimal numerals -/

structure HexDigit where
  value : Fin 16
  isCapital : Bool

namespace HexDigit

def char (d : HexDigit) : CodePoint :=
  let digits := if d.isCapital then "0123456789ABCDEF" else "0123456789abcdef"
  CodePoint.ofChar (digits.toList.getD d.value '0')

/-- The number that digits spell, the highest one first. -/
def numeral (ds : List HexDigit) : Nat :=
  Nat.ofDigits 16 (ds.reverse.map fun d => d.value.val)

theorem hexValue?_char (d : HexDigit) : d.char.hexValue? = some d.value.val := by
  have hall : ∀ (v : Fin 16) (b : Bool), (char ⟨v, b⟩).hexValue? = some v.val := by decide
  exact hall d.value d.isCapital

theorem isHexDigit_char (d : HexDigit) : d.char.isHexDigit = true := by
  rw [CodePoint.isHexDigit, hexValue?_char]
  rfl

theorem isHexDigit_of_mem (ds : List HexDigit) : ∀ c ∈ ds.map char, c.isHexDigit = true := by
  intro c hc
  obtain ⟨d, _, rfl⟩ := List.mem_map.mp hc
  exact isHexDigit_char d

theorem numeral_concat (ds : List HexDigit) (d : HexDigit) :
    numeral (ds ++ [d]) = 16 * numeral ds + d.value.val := by
  rw [numeral, numeral, List.reverse_append, List.reverse_singleton, List.singleton_append,
    List.map_cons, Nat.ofDigits_cons, Nat.add_comm]

theorem numeral_lt (ds : List HexDigit) : numeral ds < 16 ^ ds.length := by
  have hdigits : ∀ n ∈ ds.reverse.map fun d => d.value.val, n < 16 := by
    intro n hn
    obtain ⟨d, _, rfl⟩ := List.mem_map.mp hn
    exact d.value.isLt
  simpa [numeral] using Nat.ofDigits_lt_base_pow_length (by decide) hdigits

theorem hexValue_map_char (ds : List HexDigit) : hexValue (ds.map char) = numeral ds := by
  induction ds using List.reverseRecOn with
  | nil => rfl
  | append_singleton ds d ih =>
      rw [numeral_concat, ← ih, hexValue, hexValue, List.map_append, List.foldl_append]
      simp [hexValue?_char]

end HexDigit

/-! ## Pieces -/

/-- The letters behind a backslash that stand for a control character, with the character. -/
def controls : List (Char × Char) :=
  [('n', '\n'), ('t', '\t'), ('r', '\r'), ('b', '\x08'), ('f', '\x0c'), ('v', '\x0b'),
    ('0', '\x00')]

/-- What does not stand for itself behind a backslash. -/
def reserved : List Char :=
  controls.map Prod.fst ++ ['x', 'u', '\n', '\r']

inductive LineEnd where
  | feed
  | carriageReturn
  | both

def LineEnd.text : LineEnd → Text
  | .feed => Text.ofString "\n"
  | .carriageReturn => Text.ofString "\r"
  | .both => Text.ofString "\r\n"

inductive LiteralPiece where
  | plain (c : CodePoint) (notBackslash : c ≠ '\\')
  | control (entry : Char × Char) (known : entry ∈ controls)
  /-- A code point by two digits. -/
  | short (d₁ d₀ : HexDigit)
  /-- A code point by four digits. -/
  | long (d₃ d₂ d₁ d₀ : HexDigit)
  /-- A code point by any number of digits in braces. -/
  | braced (ds : List HexDigit) (nonempty : ds ≠ []) (inUnicode : HexDigit.numeral ds ≤ 0x10FFFF)
  /-- A code point that stands for itself behind a backslash too. -/
  | kept (c : CodePoint) (notReserved : ∀ r ∈ reserved, c ≠ CodePoint.ofChar r)
  /-- A line that goes on in the next one. -/
  | continued (ending : LineEnd)

namespace LiteralPiece

def body : LiteralPiece → Text
  | plain _ _ => []
  | control entry _ => [CodePoint.ofChar entry.1]
  | short d₁ d₀ => CodePoint.ofChar 'x' :: [d₁, d₀].map HexDigit.char
  | long d₃ d₂ d₁ d₀ => CodePoint.ofChar 'u' :: [d₃, d₂, d₁, d₀].map HexDigit.char
  | braced ds _ _ => Text.ofString "u\x7b" ++ ds.map HexDigit.char ++ Text.ofString "\x7d"
  | kept c _ => [c]
  | continued ending => ending.text

def spelling : LiteralPiece → Text
  | plain c _ => [c]
  | p => CodePoint.ofChar '\\' :: p.body

def value : LiteralPiece → Text
  | plain c _ => [c]
  | control entry _ => [CodePoint.ofChar entry.2]
  | short d₁ d₀ => [CodePoint.ofNat (HexDigit.numeral [d₁, d₀])]
  | long d₃ d₂ d₁ d₀ => [CodePoint.ofNat (HexDigit.numeral [d₃, d₂, d₁, d₀])]
  | braced ds _ _ => [CodePoint.ofNat (HexDigit.numeral ds)]
  | kept c _ => [c]
  | continued _ => []

/-- Is the text spelled behind the piece not taken for a part of it? Only the line feed behind a
carriage return is. -/
def EndsBefore (p : LiteralPiece) (t : Text) : Prop :=
  p = continued .carriageReturn → t.head? ≠ some (CodePoint.ofChar '\n')

theorem spelling_ne_nil (p : LiteralPiece) : p.spelling ≠ [] := by
  cases p <;> exact List.cons_ne_nil _ _

theorem EndsBefore.append {p q : LiteralPiece} {t : Text} (h : p.EndsBefore q.spelling) :
    p.EndsBefore (q.spelling ++ t) := by
  intro hp
  rw [List.head?_append_of_ne_nil _ q.spelling_ne_nil]
  exact h hp

end LiteralPiece

/-! ## Reading one escape -/

theorem codePoint_of_lt {n : Nat} (h : n < 0x110000) : codePoint n = .ok (CodePoint.ofNat n) := by
  rw [codePoint, CodePoint.ofNat, dif_pos h, dif_pos h]

theorem bracedDigits?_of_ne {c : CodePoint} (h : c ≠ 'u') (t : Text) :
    bracedDigits? (c :: t) = none := by
  cases t with
  | nil => rfl
  | cons b rest => simp [bracedDigits?, h]

theorem bracedDigits?_of_digit {d : CodePoint} (h : d.isHexDigit = true) (t : Text) :
    bracedDigits? (CodePoint.ofChar 'u' :: d :: t) = none := by
  have hbrace : d ≠ '\x7b' := by
    rintro rfl
    revert h
    decide
  simp [bracedDigits?, hbrace]

theorem bracedDigits?_braced {ds : Text} (hdigits : ∀ c ∈ ds, c.isHexDigit = true) (hne : ds ≠ [])
    (t : Text) :
    bracedDigits? (Text.ofString "u\x7b" ++ ds ++ Text.ofString "\x7d" ++ t)
      = some (ds, ds.length + 3) := by
  have htake : (ds ++ CodePoint.ofChar '\x7d' :: t).takeWhile CodePoint.isHexDigit = ds := by
    have hstop : (CodePoint.ofChar '\x7d' :: t).takeWhile CodePoint.isHexDigit = [] :=
      List.takeWhile_cons_of_neg (by decide)
    rw [List.takeWhile_append_of_pos hdigits, hstop, List.append_nil]
  have hspelled : Text.ofString "u\x7b" ++ ds ++ Text.ofString "\x7d" ++ t
      = CodePoint.ofChar 'u' :: CodePoint.ofChar '\x7b'
        :: (ds ++ CodePoint.ofChar '\x7d' :: t) := by
    simp [Text.ofString]
  rw [hspelled]
  simp [bracedDigits?, htake, hne]

theorem fixedDigits?_of_ne {c : CodePoint} (hu : c ≠ 'u') (hx : c ≠ 'x') (t : Text) :
    fixedDigits? (c :: t) = none := by
  simp [fixedDigits?, hu, hx]

theorem fixedDigits?_short {ds : Text} (hdigits : ∀ c ∈ ds, c.isHexDigit = true)
    (hlength : ds.length = 2) (t : Text) :
    fixedDigits? (CodePoint.ofChar 'x' :: (ds ++ t)) = some (ds, 3) := by
  have hxu : CodePoint.ofChar 'x' ≠ CodePoint.ofChar 'u' := by decide
  have htake : (ds ++ t).take 2 = ds := List.take_left' hlength
  have hall : ds.all CodePoint.isHexDigit = true := List.all_eq_true.mpr hdigits
  simp [fixedDigits?, hxu, htake, hlength, hall]

theorem fixedDigits?_long {ds : Text} (hdigits : ∀ c ∈ ds, c.isHexDigit = true)
    (hlength : ds.length = 4) (t : Text) :
    fixedDigits? (CodePoint.ofChar 'u' :: (ds ++ t)) = some (ds, 5) := by
  have htake : (ds ++ t).take 4 = ds := List.take_left' hlength
  have hall : ds.all CodePoint.isHexDigit = true := List.all_eq_true.mpr hdigits
  simp [fixedDigits?, htake, hlength, hall]

theorem escapeValue_simple {c : CodePoint} {t : Text} (hu : c ≠ 'u') (hx : c ≠ 'x')
    (hend : c = '\r' → t.head? ≠ some (CodePoint.ofChar '\n')) :
    escapeValue (c :: t) = .ok (simpleValue c, 1) := by
  have hline : (c = '\r' && t.head? = some (CodePoint.ofChar '\n')) = false := by
    simpa using hend
  simp [escapeValue, bracedDigits?_of_ne hu, fixedDigits?_of_ne hu hx, hline]

theorem escapeValue_braced {ds : Text} {size : Nat} {t : Text}
    (hdigits : bracedDigits? t = some (ds, size)) (hvalue : hexValue ds < 0x110000) :
    escapeValue t = .ok ([CodePoint.ofNat (hexValue ds)], size) := by
  unfold escapeValue
  rw [hdigits]
  dsimp only
  rw [codePoint_of_lt hvalue]
  rfl

theorem escapeValue_fixed {ds : Text} {size : Nat} {t : Text} (hbraced : bracedDigits? t = none)
    (hdigits : fixedDigits? t = some (ds, size)) (hvalue : hexValue ds < 0x110000) :
    escapeValue t = .ok ([CodePoint.ofNat (hexValue ds)], size) := by
  unfold escapeValue
  rw [hbraced]
  dsimp only
  rw [hdigits]
  dsimp only
  rw [codePoint_of_lt hvalue]
  rfl

theorem simpleValue_control {entry : Char × Char} (h : entry ∈ controls) :
    simpleValue (CodePoint.ofChar entry.1) = [CodePoint.ofChar entry.2] := by
  have hall : ∀ e ∈ controls, simpleValue (CodePoint.ofChar e.1) = [CodePoint.ofChar e.2] := by
    decide
  exact hall entry h

theorem simpleValue_kept {c : CodePoint} (h : ∀ r ∈ reserved, c ≠ CodePoint.ofChar r) :
    simpleValue c = [c] := by
  simp only [reserved, controls, List.map_cons, List.map_nil, List.cons_append, List.nil_append,
    List.forall_mem_cons] at h
  obtain ⟨hn, ht, hr, hb, hf, hv, h0, -, -, hfeed, hreturn, -⟩ := h
  simp [simpleValue, hn, ht, hr, hb, hf, hv, h0, hfeed, hreturn]

/-- An escape is read off with the value that its piece has, and nothing behind it is taken. -/
theorem escapeValue_body {p : LiteralPiece} {t : Text}
    (hescape : p.spelling = CodePoint.ofChar '\\' :: p.body) (hend : p.EndsBefore t) :
    escapeValue (p.body ++ t) = .ok (p.value, p.body.length) := by
  cases p with
  | plain c notBackslash => exact absurd (List.cons.inj hescape).1 notBackslash
  | control entry known =>
      have hletters : ∀ e ∈ controls, CodePoint.ofChar e.1 ≠ 'u' ∧ CodePoint.ofChar e.1 ≠ 'x'
          ∧ CodePoint.ofChar e.1 ≠ '\r' := by decide
      obtain ⟨hu, hx, hreturn⟩ := hletters entry known
      have hvalue := escapeValue_simple (t := t) hu hx (fun h => absurd h hreturn)
      rw [simpleValue_control known] at hvalue
      exact hvalue
  | short d₁ d₀ =>
      have hdigits := HexDigit.isHexDigit_of_mem [d₁, d₀]
      have hvalue := HexDigit.hexValue_map_char [d₁, d₀]
      have hlt := HexDigit.numeral_lt [d₁, d₀]
      have hread := escapeValue_fixed (bracedDigits?_of_ne (by decide) _)
        (fixedDigits?_short hdigits rfl t) (by rw [hvalue]; exact hlt.trans_le (by simp))
      rw [hvalue] at hread
      exact hread
  | long d₃ d₂ d₁ d₀ =>
      have hdigits := HexDigit.isHexDigit_of_mem [d₃, d₂, d₁, d₀]
      have hvalue := HexDigit.hexValue_map_char [d₃, d₂, d₁, d₀]
      have hlt := HexDigit.numeral_lt [d₃, d₂, d₁, d₀]
      have hread := escapeValue_fixed
        (bracedDigits?_of_digit (HexDigit.isHexDigit_char d₃) _)
        (fixedDigits?_long hdigits rfl t) (by rw [hvalue]; exact hlt.trans_le (by simp))
      rw [hvalue] at hread
      exact hread
  | braced ds nonempty inUnicode =>
      have hvalue := HexDigit.hexValue_map_char ds
      have hread := escapeValue_braced
        (bracedDigits?_braced (HexDigit.isHexDigit_of_mem ds) (by simpa using nonempty) t)
        (by rw [hvalue]; exact Nat.lt_succ_of_le inUnicode)
      have hlength : (LiteralPiece.braced ds nonempty inUnicode).body.length
          = (ds.map HexDigit.char).length + 3 := by
        simp [LiteralPiece.body, Text.ofString]
      rw [hvalue, ← hlength] at hread
      exact hread
  | kept c notReserved =>
      have hne : ∀ r ∈ reserved, c ≠ CodePoint.ofChar r := notReserved
      have hread := escapeValue_simple (t := t) (hne 'u' (by decide)) (hne 'x' (by decide))
        (fun h => absurd h (hne '\r' (by decide)))
      rw [simpleValue_kept notReserved] at hread
      exact hread
  | continued ending =>
      cases ending with
      | feed => exact escapeValue_simple (by decide) (by decide) (fun h => absurd h (by decide))
      | carriageReturn =>
          exact escapeValue_simple (by decide) (by decide) (fun _ => hend rfl)
      | both =>
          have hbraced := bracedDigits?_of_ne (c := CodePoint.ofChar '\r') (by decide)
            (CodePoint.ofChar '\n' :: t)
          have hfixed := fixedDigits?_of_ne (c := CodePoint.ofChar '\r') (by decide) (by decide)
            (CodePoint.ofChar '\n' :: t)
          have hspelled : (LiteralPiece.continued .both).body ++ t
              = CodePoint.ofChar '\r' :: CodePoint.ofChar '\n' :: t := rfl
          rw [hspelled, escapeValue, hbraced, hfixed]
          simp [LiteralPiece.value, LiteralPiece.body, LineEnd.text, Text.ofString]

/-! ## Reading a text -/

theorem unescapeFrom_length (front t : Text) :
    unescapeFrom front.length (front ++ t) = unescapeFrom 0 t := by
  induction front with
  | nil => rfl
  | cons c rest ih => exact ih

theorem unescapeFrom_backslash {body value t : Text}
    (h : escapeValue (body ++ t) = .ok (value, body.length)) :
    unescapeFrom 0 (CodePoint.ofChar '\\' :: (body ++ t))
      = (unescapeFrom 0 t).map (value ++ ·) := by
  rw [unescapeFrom, if_pos rfl, h]
  change (unescapeFrom body.length (body ++ t)).bind (fun more => .ok (value ++ more)) = _
  rw [unescapeFrom_length]
  cases unescapeFrom 0 t <;> rfl

/-- A piece in front adds its value, if the text behind it does not begin with a part of it. -/
theorem unescapeFrom_spelling {p : LiteralPiece} {t : Text} (hend : p.EndsBefore t) :
    unescapeFrom 0 (p.spelling ++ t) = (unescapeFrom 0 t).map (p.value ++ ·) := by
  cases p with
  | plain c notBackslash =>
      have hspelled : (LiteralPiece.plain c notBackslash).spelling ++ t = c :: t := rfl
      rw [hspelled, unescapeFrom, if_neg notBackslash]
      cases unescapeFrom 0 t <;> rfl
  | _ => exact unescapeFrom_backslash (escapeValue_body rfl hend)

/-- **A text has the value that its pieces have**, one after the other, in whatever ways they are
spelled, unless a line feed follows directly on a carriage return that continues a line. -/
theorem unescape_spelling (ps : List LiteralPiece)
    (h : ps.IsChain fun p q => p.EndsBefore q.spelling) :
    unescape (ps.flatMap LiteralPiece.spelling) = .ok (ps.flatMap LiteralPiece.value) := by
  rw [unescape]
  induction ps with
  | nil => rfl
  | cons p rest ih =>
      have hrest := ih h.tail
      have hend : p.EndsBefore (rest.flatMap LiteralPiece.spelling) := by
        cases rest with
        | nil =>
            intro _ hhead
            cases hhead
        | cons q others => exact (List.isChain_cons_cons.mp h).1.append
      rw [List.flatMap_cons, List.flatMap_cons, unescapeFrom_spelling hend, hrest]
      rfl

/-- Pieces that could be taken for parts of their neighbours: a backslash before a letter, a null
before a digit, digits before more of them, and line ends before line feeds. -/
def neighbours : List LiteralPiece :=
  [.kept '\\' (by simp [reserved, controls, CodePoint.ofChar]), .plain 'n' (by decide),
    .control ('0', '\x00') (by decide), .plain '1' (by decide), .short ⟨4, false⟩ ⟨1, false⟩,
    .plain 'B' (by decide),
    .braced [⟨1, false⟩, ⟨15, true⟩, ⟨6, false⟩, ⟨0, false⟩, ⟨0, false⟩] (by decide) (by decide),
    .continued .both, .plain '\n' (by decide), .continued .carriageReturn,
    .control ('n', '\n') (by decide)]

theorem neighbours_value : (neighbours.IsChain fun p q => p.EndsBefore q.spelling)
    ∧ unescape (Text.ofString "\\\\n\\01\\x41B\\u\x7b1F600\x7d\\\r\n\n\\\r\\n")
      = .ok (Text.ofString "\\n\x001AB😀\n\n") := by
  have hends : neighbours.IsChain fun p q => p.EndsBefore q.spelling := by
    simp [neighbours, LiteralPiece.EndsBefore, LiteralPiece.spelling, CodePoint.ofChar]
  exact ⟨hends, unescape_spelling neighbours hends⟩

end TaskContract.Script
