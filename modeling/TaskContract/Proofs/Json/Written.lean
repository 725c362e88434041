import TaskContract.Proofs.Json.Literals
import TaskContract.Proofs.Text
import TaskContract.Text.CodePoint
import TaskContract.Text.Lines

/-!
# Written values

The text of a value, put together from the texts of what it holds. All that stands there beside the
texts of the value itself are marks: line feeds and printable ASCII. So a test that all marks pass
is passed by the whole if the texts pass it in their written form. Two tests matter: a written value
holds no carriage return, so that reading a file changes nothing; and a value can be written to a
file if and only if its texts hold no surrogate.
-/

namespace TaskContract

namespace Json

section

variable (layout : Layout) (level : Nat)

def written (v : Json) : Text :=
  (pieces layout level v).flatten

def writtenItems (items : List Json) : Text :=
  ((Cut.texts layout).items level items).flatten

def writtenMembers (ms : List (Text × Json)) : Text :=
  ((Cut.texts layout).members level ms).flatten

/-- A value that is cut into pieces is an atom, or one that holds others. -/
theorem Cut.pieces_of_atom {α : Type} (c : Cut α) {v : Json} {t : Text}
    (h : Json.atom? c.layout v = some t) : c.pieces level v = (c.atom? [] v).toList := by
  revert h
  fun_cases Json.atom? c.layout v with
  | case8 v => nofun
  | _ =>
      intro
      rfl

theorem pieces_of_atom {v : Json} {t : Text} (h : atom? layout v = some t) :
    pieces layout level v = [t] := by
  rw [pieces, Cut.pieces_of_atom level (Cut.texts layout) h]
  show ((atom? layout v).map fun t => [] ++ t).toList = [t]
  rw [h]
  rfl

theorem flatten_joined (front : Text) (v : Json) :
    ((Cut.texts layout).joined front v ((Cut.texts layout).pieces level v)).flatten
      = front ++ written layout level v := by
  have hatom : (Cut.texts layout).atom? front v = (atom? layout v).map fun t => front ++ t := rfl
  rw [Cut.joined, hatom]
  cases h : atom? layout v with
  | none => rfl
  | some t =>
      rw [written, pieces_of_atom layout level h]
      simp

theorem written_arr (v : Json) (rest : List Json) :
    written layout level (.arr (v :: rest))
      = CodePoint.ofChar '[' :: (layout.break (level + 1) ++ (written layout (level + 1) v
        ++ (writtenItems layout (level + 1) rest
          ++ (layout.break level ++ [CodePoint.ofChar ']'])))) := by
  rw [written, pieces, Cut.pieces, List.flatten_append, List.flatten_append, flatten_joined]
  simp [writtenItems, Cut.texts]

theorem writtenItems_cons (v : Json) (rest : List Json) :
    writtenItems layout level (v :: rest)
      = layout.separator level ++ (written layout level v ++ writtenItems layout level rest) := by
  rw [writtenItems, Cut.items, List.flatten_append, flatten_joined, List.append_assoc]
  rfl

theorem written_obj (k : Text) (v : Json) (rest : List (Text × Json)) :
    written layout level (.obj ((k, v) :: rest))
      = CodePoint.ofChar '{' :: (layout.break (level + 1) ++ (Text.jsonString layout.ascii k
        ++ (layout.colon ++ (written layout (level + 1) v
          ++ (writtenMembers layout (level + 1) rest
            ++ (layout.break level ++ [CodePoint.ofChar '}'])))))) := by
  rw [written, pieces, Cut.pieces]
  simp [writtenMembers, written, pieces, Cut.texts]

theorem writtenMembers_cons (k : Text) (v : Json) (rest : List (Text × Json)) :
    writtenMembers layout level ((k, v) :: rest)
      = layout.separator level ++ (Text.jsonString layout.ascii k ++ (layout.colon
        ++ (written layout level v ++ writtenMembers layout level rest))) := by
  rw [writtenMembers, Cut.members]
  simp [writtenMembers, written, pieces, Cut.texts]

variable {layout}

theorem written_int (n : Int) : written layout level (.int n) = Text.ofInt n := by
  rw [written, pieces_of_atom layout level (v := .int n) rfl, List.flatten_singleton]

theorem written_str (s : Text) :
    written layout level (.str s) = Text.jsonString layout.ascii s := by
  rw [written, pieces_of_atom layout level (v := .str s) rfl, List.flatten_singleton]

end

/-! ## Brackets -/

def isNested : Json → Bool
  | .arr _ | .obj _ => true
  | _ => false

section

variable (layout : Layout) (level : Nat)

theorem written_arr_brackets (items : List Json) :
    ∃ body, written layout level (.arr items)
      = CodePoint.ofChar '[' :: (body ++ [CodePoint.ofChar ']']) := by
  cases items with
  | nil => exact ⟨[], rfl⟩
  | cons v rest =>
      have hwritten := written_arr layout level v rest
      simp only [← List.append_assoc] at hwritten
      exact ⟨_, hwritten⟩

theorem written_obj_brackets (ms : List (Text × Json)) :
    ∃ body, written layout level (.obj ms)
      = CodePoint.ofChar '\x7b' :: (body ++ [CodePoint.ofChar '\x7d']) := by
  cases ms with
  | nil => exact ⟨[], rfl⟩
  | cons m rest =>
      have hwritten := written_obj layout level m.1 m.2 rest
      simp only [← List.append_assoc] at hwritten
      exact ⟨_, hwritten⟩

/-- The text of an array or of an object stands between two brackets. -/
theorem written_brackets {v : Json} (h : v.isNested = true) :
    ∃ opening body closing, written layout level v = opening :: (body ++ [closing])
      ∧ opening.isBlank = false ∧ closing.isBlank = false := by
  cases v with
  | arr items =>
      obtain ⟨body, hwritten⟩ := written_arr_brackets layout level items
      exact ⟨_, body, _, hwritten, by decide, by decide⟩
  | obj ms =>
      obtain ⟨body, hwritten⟩ := written_obj_brackets layout level ms
      exact ⟨_, body, _, hwritten, by decide, by decide⟩
  | _ => cases h

end

/-! ## Marks -/

end Json

/-- Is the code point one that is written beside texts: a line feed or printable ASCII? -/
def CodePoint.IsMark (c : CodePoint) : Prop :=
  c = CodePoint.ofChar '\n' ∨ 0x20 ≤ c.val ∧ c.val < 0x80

instance (c : CodePoint) : Decidable c.IsMark :=
  inferInstanceAs (Decidable (_ ∨ _))

def Text.AreMarks (t : Text) : Prop :=
  ∀ c ∈ t, c.IsMark

instance (t : Text) : Decidable t.AreMarks :=
  inferInstanceAs (Decidable (∀ c ∈ t, c.IsMark))

namespace Text

theorem areMarks_append {s t : Text} : AreMarks (s ++ t) ↔ AreMarks s ∧ AreMarks t :=
  List.forall_mem_append

theorem areMarks_cons {c : CodePoint} {t : Text} : AreMarks (c :: t) ↔ c.IsMark ∧ AreMarks t :=
  List.forall_mem_cons

theorem areMarks_replicate (n : Nat) {c : CodePoint} (h : c.IsMark) :
    AreMarks (List.replicate n c) := by
  intro d hd
  rw [List.eq_of_mem_replicate hd]
  exact h

theorem isMark_of_isDigit {c : CodePoint} (h : c.isDigit = true) : c.IsMark := by
  rw [CodePoint.isDigit, CodePoint.isBetween, Bool.and_eq_true, decide_eq_true_iff,
    decide_eq_true_iff] at h
  exact Or.inr ⟨Nat.le_trans (by decide) h.1, Nat.lt_of_le_of_lt h.2 (by decide)⟩

theorem areMarks_ofNat (n : Nat) : AreMarks (ofNat n) :=
  fun _ hc => isMark_of_isDigit (isDigit_of_mem_ofNat hc)

theorem areMarks_ofInt (n : Int) : AreMarks (ofInt n) :=
  forall_mem_ofInt (by decide) (fun _ => isMark_of_isDigit) n

theorem areMarks_unitEscape {n : Nat} (hn : n < 0x10000) : AreMarks (unitEscape n) :=
  forall_mem_unitEscape (by decide) (by decide) hn

/-- An escape is made of marks, and all else stands for itself. Where the output is to be ASCII, only
ASCII stands for itself, and elsewhere only ASCII is escaped. -/
theorem jsonCodePoint_cases (ascii : Bool) (c : CodePoint) :
    (AreMarks (jsonCodePoint ascii c) ∧ (ascii = true ∨ c.val < 0x80))
      ∨ (jsonCodePoint ascii c = [c] ∧ 0x20 ≤ c.val ∧ (ascii = true → c.val < 0x80)) := by
  have hc := c.isLt
  fun_cases jsonCodePoint ascii c with
  | case1 hc | case2 _ hc | case3 _ _ hc | case4 _ _ _ hc | case5 _ _ _ _ hc =>
      subst hc
      exact Or.inl ⟨by decide, Or.inr (by decide)⟩
  | case6 | case7 => exact Or.inl ⟨by decide, Or.inr (by omega)⟩
  | case8 => exact Or.inl ⟨areMarks_unitEscape (by omega), Or.inr (by omega)⟩
  | case9 _ _ _ _ _ _ _ _ hascii =>
      exact Or.inl ⟨areMarks_unitEscape (by omega), Or.inl (Bool.and_eq_true_iff.mp hascii).1⟩
  | case10 _ _ _ _ _ _ _ _ hascii _ n =>
      refine Or.inl ⟨areMarks_append.mpr ⟨?_, ?_⟩, Or.inl (Bool.and_eq_true_iff.mp hascii).1⟩
      all_goals exact areMarks_unitEscape (by omega)
  | case11 _ _ _ _ _ _ _ hcontrol hascii =>
      refine Or.inr ⟨rfl, Nat.not_lt.mp hcontrol, ?_⟩
      rintro rfl
      have hsmall : ¬0x7F ≤ c.val := by simpa using hascii
      omega

end Text

namespace Binary64

theorem areMarks_exponentText (e : Int) : (exponentText e).AreMarks := by
  have hdigits := Text.areMarks_ofNat e.natAbs
  rw [exponentText, Text.areMarks_append]
  constructor
  · split <;> decide
  · split
    · exact Text.areMarks_append.mpr ⟨by decide, hdigits⟩
    · exact hdigits

theorem areMarks_decimalText (digits : Nat) (exponent : Int) :
    (decimalText digits exponent).AreMarks := by
  have hdigits := Text.areMarks_ofNat digits
  have hzeros : ∀ count, (zeros count).AreMarks := fun count =>
    Text.areMarks_replicate count (by decide)
  unfold decimalText
  dsimp only
  generalize Text.ofNat digits = ds at hdigits ⊢
  split
  · split
    · simp only [Text.areMarks_append]
      exact ⟨⟨hdigits, hzeros _⟩, by decide⟩
    · split
      · simp only [Text.areMarks_append]
        exact ⟨⟨fun c hc => hdigits c (List.mem_of_mem_take hc), by decide⟩,
          fun c hc => hdigits c (List.mem_of_mem_drop hc)⟩
      · simp only [Text.areMarks_append]
        exact ⟨⟨by decide, hzeros _⟩, hdigits⟩
  · split
    · obtain ⟨hd, -⟩ := Text.areMarks_cons.mp hdigits
      exact Text.areMarks_cons.mpr ⟨hd, areMarks_exponentText _⟩
    · obtain ⟨hd, hrest⟩ := Text.areMarks_cons.mp hdigits
      simp only [Text.areMarks_cons, Text.areMarks_append]
      exact ⟨hd, ⟨by decide, hrest⟩, areMarks_exponentText _⟩
    · exact areMarks_exponentText _

theorem areMarks_text (x : Binary64) : (x.text jsonNames).AreMarks := by
  cases x with
  | nan => decide
  | infinite negative => cases negative <;> decide
  | finite negative m k =>
      rw [text]
      dsimp only
      have hsign : (Text.ofString (if negative then "-" else "")).AreMarks := by
        cases negative <;> decide
      split
      · exact Text.areMarks_append.mpr ⟨hsign, by decide⟩
      · exact Text.areMarks_append.mpr ⟨hsign, areMarks_decimalText _ _⟩

end Binary64

namespace Json

variable (layout : Layout)

theorem areMarks_indentation (level : Nat) : (indentation level).AreMarks :=
  Text.areMarks_cons.mpr ⟨by decide, Text.areMarks_replicate _ (by decide)⟩

theorem areMarks_break (level : Nat) : (layout.break level).AreMarks := by
  rw [Layout.break]
  split
  · exact areMarks_indentation level
  · exact List.forall_mem_nil _

theorem areMarks_separator (level : Nat) : (layout.separator level).AreMarks := by
  rw [Layout.separator]
  split
  · exact Text.areMarks_cons.mpr ⟨by decide, areMarks_indentation level⟩
  · split <;> decide

theorem areMarks_colon : layout.colon.AreMarks := by
  rw [Layout.colon]
  split <;> decide

/-! ## Tests of a written value -/

mutual

def allTexts (p : Text → Bool) : Json → Bool
  | .null | .bool _ | .int _ | .float _ => true
  | .str s => p s
  | .arr items => allTextsOfItems p items
  | .obj ms => allTextsOfMembers p ms

def allTextsOfItems (p : Text → Bool) : List Json → Bool
  | [] => true
  | v :: rest => allTexts p v && allTextsOfItems p rest

def allTextsOfMembers (p : Text → Bool) : List (Text × Json) → Bool
  | [] => true
  | (k, v) :: rest => p k && allTexts p v && allTextsOfMembers p rest

end

section

variable {p : CodePoint → Bool} (hp : ∀ c : CodePoint, c.IsMark → p c = true)

include hp

theorem all_of_areMarks {t : Text} (h : t.AreMarks) : t.all p = true := by
  rw [List.all_eq_true]
  exact fun c hc => hp c (h c hc)

end

mutual

/-- A test that all marks pass is passed by a written value if the written texts in it pass it, by
induction on the value. -/
theorem all_written {p : CodePoint → Bool} (hp : ∀ c : CodePoint, c.IsMark → p c = true) :
    ∀ (v : Json) (level : Nat), (written layout level v).all p
      = v.allTexts fun s => (Text.jsonString layout.ascii s).all p
  | .null, _ => all_of_areMarks hp (show (Text.ofString "null").AreMarks by decide)
  | .bool false, _ => all_of_areMarks hp (show (Text.ofString "false").AreMarks by decide)
  | .bool true, _ => all_of_areMarks hp (show (Text.ofString "true").AreMarks by decide)
  | .int n, level => by
      rw [written_int]
      exact all_of_areMarks hp (Text.areMarks_ofInt n)
  | .float x, level => by
      rw [written, pieces_of_atom layout level rfl, List.flatten_singleton]
      exact all_of_areMarks hp x.areMarks_text
  | .str s, level => by
      rw [written_str, allTexts]
  | .arr [], _ => all_of_areMarks hp (show (Text.ofString "[]").AreMarks by decide)
  | .arr (v :: rest), level => by
      rw [written_arr]
      simp only [List.all_cons, List.all_append, List.all_nil,
        hp (CodePoint.ofChar '[') (by decide), hp (CodePoint.ofChar ']') (by decide),
        all_of_areMarks hp (areMarks_break layout _), all_written hp v, all_writtenItems hp rest,
        allTexts, allTextsOfItems, Bool.true_and, Bool.and_true]
  | .obj [], _ => all_of_areMarks hp
      (show Text.AreMarks [CodePoint.ofChar '{', CodePoint.ofChar '}'] by decide)
  | .obj ((k, v) :: rest), level => by
      rw [written_obj]
      simp only [List.all_cons, List.all_append, List.all_nil,
        hp (CodePoint.ofChar '{') (by decide), hp (CodePoint.ofChar '}') (by decide),
        all_of_areMarks hp (areMarks_break layout _), all_of_areMarks hp (areMarks_colon layout),
        all_written hp v, all_writtenMembers hp rest, allTexts, allTextsOfMembers, Bool.true_and,
        Bool.and_true, Bool.and_assoc]

theorem all_writtenItems {p : CodePoint → Bool} (hp : ∀ c : CodePoint, c.IsMark → p c = true) :
    ∀ (items : List Json) (level : Nat), (writtenItems layout level items).all p
      = allTextsOfItems (fun s => (Text.jsonString layout.ascii s).all p) items
  | [], _ => rfl
  | v :: rest, level => by
      rw [writtenItems_cons, List.all_append, List.all_append,
        all_of_areMarks hp (areMarks_separator layout level), all_written hp v,
        all_writtenItems hp rest, Bool.true_and, allTextsOfItems]

theorem all_writtenMembers {p : CodePoint → Bool} (hp : ∀ c : CodePoint, c.IsMark → p c = true) :
    ∀ (ms : List (Text × Json)) (level : Nat), (writtenMembers layout level ms).all p
      = allTextsOfMembers (fun s => (Text.jsonString layout.ascii s).all p) ms
  | [], _ => rfl
  | (k, v) :: rest, level => by
      rw [writtenMembers_cons]
      simp only [List.all_append, all_of_areMarks hp (areMarks_separator layout level),
        all_of_areMarks hp (areMarks_colon layout), all_written hp v, all_writtenMembers hp rest,
        allTextsOfMembers, Bool.true_and, Bool.and_assoc]

end

mutual

theorem allTexts_true : ∀ v : Json, v.allTexts (fun _ => true) = true
  | .null | .bool _ | .int _ | .float _ | .str _ => rfl
  | .arr items => allTextsOfItems_true items
  | .obj ms => allTextsOfMembers_true ms

theorem allTextsOfItems_true : ∀ items : List Json, allTextsOfItems (fun _ => true) items = true
  | [] => rfl
  | v :: rest => by
      rw [allTextsOfItems, allTexts_true v, allTextsOfItems_true rest, Bool.and_self]

theorem allTextsOfMembers_true : ∀ ms : List (Text × Json),
    allTextsOfMembers (fun _ => true) ms = true
  | [] => rfl
  | (k, v) :: rest => by
      rw [allTextsOfMembers, allTexts_true v, allTextsOfMembers_true rest, Bool.and_self,
        Bool.and_self]

end

/-- A string passes a test that all marks pass if what is not escaped in it does. -/
theorem all_jsonString {p : CodePoint → Bool} (hp : ∀ c : CodePoint, c.IsMark → p c = true)
    (ascii : Bool) (s : Text) : (Text.jsonString ascii s).all p
      = s.all fun c => (Text.jsonCodePoint ascii c).all p := by
  have hquote : p (CodePoint.ofChar '"') = true := hp _ (by decide)
  rw [Text.jsonString, List.cons_append, List.all_cons, List.all_append, List.all_flatMap,
    List.all_cons, List.all_nil, hquote]
  simp only [Bool.true_and, Bool.and_true]

/-! ## Files -/

theorem filePieces_flatten (v : Json) : v.filePieces.flatten
    = written fileLayout 0 v ++ [CodePoint.ofChar '\n'] := by
  rw [filePieces, List.flatten_append, List.flatten_singleton]
  rfl

end Json

def CodePoint.isReturn (c : CodePoint) : Bool :=
  c = CodePoint.ofChar '\r'

theorem Text.unifyLineEnds_of_noReturn {t : Text} (h : t.all (fun c => !c.isReturn) = true) :
    t.unifyLineEnds = t := by
  induction t with
  | nil => rw [unifyLineEnds]
  | cons c rest ih =>
      rw [List.all_cons, Bool.and_eq_true, Bool.not_eq_true', CodePoint.isReturn,
        decide_eq_false_iff_not] at h
      unfold unifyLineEnds
      rw [if_neg h.1, ih h.2]

namespace Json

/-- A file is read back with its line ends unified; in a written value that changes nothing. -/
theorem unifyLineEnds_filePieces (v : Json) :
    Text.unifyLineEnds v.filePieces.flatten = v.filePieces.flatten := by
  have hprintable : ∀ c : CodePoint, 0x20 ≤ c.val → (!c.isReturn) = true := by
    intro c hc
    have hne : c ≠ CodePoint.ofChar '\r' := by
      rintro rfl
      exact absurd hc (by decide)
    rw [CodePoint.isReturn, decide_eq_false hne]
    rfl
  have hmark : ∀ c : CodePoint, c.IsMark → (!c.isReturn) = true := by
    rintro c (rfl | ⟨hc, -⟩)
    · rfl
    · exact hprintable c hc
  have hstring : ∀ s, (Text.jsonString false s).all (fun c => !c.isReturn) = true := by
    intro s
    rw [all_jsonString hmark, List.all_eq_true]
    intro c _
    rcases Text.jsonCodePoint_cases false c with ⟨hmarks, -⟩ | ⟨hself, hc, -⟩
    · exact all_of_areMarks hmark hmarks
    · rw [hself, List.all_cons, List.all_nil, Bool.and_true]
      exact hprintable c hc
  -- returns in texts are escaped, and the layout makes its lines with line feeds alone
  refine Text.unifyLineEnds_of_noReturn ?_
  rw [filePieces_flatten, List.all_append, all_written _ hmark,
    show fileLayout.ascii = false from rfl, funext hstring, allTexts_true]
  rfl

def isScalar (v : Json) : Bool :=
  v.allTexts Text.isScalar

theorem not_isSurrogate_of_isMark (c : CodePoint) (h : c.IsMark) : (!c.isSurrogate) = true := by
  rcases h with rfl | ⟨-, hc⟩
  · rfl
  · rw [CodePoint.isSurrogate_of_lt (by omega)]
    rfl

/-- What is escaped is ASCII, so no escape hides a surrogate, unless all is to be ASCII. -/
theorem isScalar_jsonCodePoint (ascii : Bool) (c : CodePoint) :
    (Text.jsonCodePoint ascii c).isScalar = (ascii || !c.isSurrogate) := by
  rcases Text.jsonCodePoint_cases ascii c with ⟨hmarks, hascii⟩ | ⟨hself, -, hascii⟩
  · rw [Text.isScalar, all_of_areMarks not_isSurrogate_of_isMark hmarks]
    rcases hascii with rfl | hc
    · rfl
    · rw [CodePoint.isSurrogate_of_lt (by omega), Bool.not_false, Bool.or_true]
  · rw [hself, Text.isScalar, List.all_cons, List.all_nil, Bool.and_true]
    cases ascii with
    | false => rfl
    | true =>
        have hc := hascii rfl
        rw [CodePoint.isSurrogate_of_lt (by omega)]
        rfl

theorem isScalar_jsonString (ascii : Bool) (s : Text) :
    (Text.jsonString ascii s).isScalar = (ascii || s.isScalar) := by
  have hcodePoints : ∀ c, (Text.jsonCodePoint ascii c).all (fun d => !d.isSurrogate)
      = (ascii || !c.isSurrogate) := isScalar_jsonCodePoint ascii
  rw [Text.isScalar, all_jsonString not_isSurrogate_of_isMark, Text.isScalar, funext hcodePoints]
  cases ascii with
  | false => rfl
  | true => exact List.all_eq_true.mpr fun _ _ => rfl

/-- A written value holds a surrogate only if a text in it does. -/
theorem isScalar_written (layout : Layout) (level : Nat) (v : Json) :
    (written layout level v).isScalar = (layout.ascii || v.isScalar) := by
  have hstrings : ∀ s, (Text.jsonString layout.ascii s).all (fun c => !c.isSurrogate)
      = (layout.ascii || s.isScalar) := isScalar_jsonString layout.ascii
  rw [Text.isScalar, all_written _ not_isSurrogate_of_isMark, funext hstrings]
  cases layout.ascii with
  | false => rfl
  | true => exact allTexts_true v

/-- **A value can be written to a file if and only if its texts hold no surrogate.** -/
theorem filePieces_encodable_iff {v : Json} :
    (∀ piece ∈ v.filePieces, Encoding.utf8.fault? piece = none) ↔ v.isScalar = true := by
  have hflatten : v.filePieces.flatten.all Encoding.utf8.covers = v.isScalar := by
    show Text.isScalar v.filePieces.flatten = v.isScalar
    rw [filePieces_flatten, Text.isScalar_append, isScalar_written]
    exact Bool.and_true _
  rw [← hflatten, List.all_flatten, List.all_eq_true]
  refine forall₂_congr fun piece _ => ?_
  rw [Encoding.fault_eq_none_iff, List.all_eq_true]

/-! ## Integers with too many digits -/

mutual

/-- Are all integers in the value of so few digits that they are written to a file? -/
def integersFit : Json → Bool
  | .null | .bool _ | .float _ | .str _ => true
  | .int n => digitCount n ≤ digitLimit
  | .arr items => integersFitItems items
  | .obj ms => integersFitMembers ms

def integersFitItems : List Json → Bool
  | [] => true
  | v :: rest => integersFit v && integersFitItems rest

def integersFitMembers : List (Text × Json) → Bool
  | [] => true
  | (_, v) :: rest => integersFit v && integersFitMembers rest

end

theorem portion_of_fits {v : Json} (h : v.integersFit = true) (t : Text) :
    Cut.portion v t = .ok t := by
  cases v with
  | int n => exact if_neg (Nat.not_lt.mpr (of_decide_eq_true h))
  | _ => rfl

theorem portions_atom (layout : Layout) {v : Json} (hfits : v.integersFit = true) (front : Text) :
    (Cut.portions layout).atom? front v = ((Cut.texts layout).atom? front v).map .ok := by
  show (atom? layout v).map _ = ((atom? layout v).map _).map _
  rw [Option.map_map]
  exact congrArg (fun f => (atom? layout v).map f) (funext fun t => portion_of_fits hfits _)

theorem portions_joined (layout : Layout) {v : Json} (hfits : v.integersFit = true) (front : Text)
    {level : Nat}
    (hv : (Cut.portions layout).pieces level v = ((Cut.texts layout).pieces level v).map .ok) :
    (Cut.portions layout).joined front v ((Cut.portions layout).pieces level v)
      = ((Cut.texts layout).joined front v ((Cut.texts layout).pieces level v)).map .ok := by
  rw [Cut.joined, Cut.joined, portions_atom layout hfits, hv]
  cases (Cut.texts layout).atom? front v <;> rfl

section

variable (layout : Layout)

mutual

theorem portions_of_fits : ∀ (v : Json) (level : Nat), v.integersFit = true →
    (Cut.portions layout).pieces level v = ((Cut.texts layout).pieces level v).map .ok
  | .null, _, _ | .bool _, _, _ | .float _, _, _ | .str _, _, _ | .arr [], _, _ | .obj [], _, _ =>
      rfl
  | .int n, level, h => by
      have hportion : (Cut.portions layout).pieces level (.int n)
          = [Cut.portion (.int n) (Text.ofInt n)] := rfl
      rw [hportion, portion_of_fits h]
      rfl
  | .arr (v :: rest), level, h => by
      obtain ⟨hv, hrest⟩ := Bool.and_eq_true_iff.mp h
      rw [Cut.pieces, Cut.pieces, List.map_append, List.map_append]
      exact congrArg₂ (· ++ · ++ _)
        (portions_joined layout hv _ (portions_of_fits v _ hv)) (portionItems_of_fits rest _ hrest)
  | .obj ((k, v) :: rest), level, h => by
      obtain ⟨hv, hrest⟩ := Bool.and_eq_true_iff.mp h
      rw [Cut.pieces, Cut.pieces, List.map_append, List.map_append, List.map_append]
      exact congrArg₂ (_ ++ · ++ · ++ _) (portions_of_fits v _ hv)
        (portionMembers_of_fits rest _ hrest)

theorem portionItems_of_fits : ∀ (items : List Json) (level : Nat),
    integersFitItems items = true →
    (Cut.portions layout).items level items = ((Cut.texts layout).items level items).map .ok
  | [], _, _ => rfl
  | v :: rest, level, h => by
      obtain ⟨hv, hrest⟩ := Bool.and_eq_true_iff.mp h
      rw [Cut.items, Cut.items, List.map_append]
      exact congrArg₂ (· ++ ·) (portions_joined layout hv _ (portions_of_fits v _ hv))
        (portionItems_of_fits rest _ hrest)

theorem portionMembers_of_fits : ∀ (ms : List (Text × Json)) (level : Nat),
    integersFitMembers ms = true →
    (Cut.portions layout).members level ms = ((Cut.texts layout).members level ms).map .ok
  | [], _, _ => rfl
  | (k, v) :: rest, level, h => by
      obtain ⟨hv, hrest⟩ := Bool.and_eq_true_iff.mp h
      rw [Cut.members, Cut.members, List.map_append, List.map_append]
      exact congrArg₂ (_ ++ · ++ ·) (portions_of_fits v _ hv)
        (portionMembers_of_fits rest _ hrest)

end

theorem error_joined {v : Json} (front : Text) {level : Nat}
    (h : ∃ m, .error m ∈ (Cut.portions layout).pieces level v) :
    ∃ m, .error m ∈ (Cut.portions layout).joined front v ((Cut.portions layout).pieces level v) := by
  obtain ⟨m, hm⟩ := h
  have hatom : ∀ front, (Cut.portions layout).atom? front v
      = (atom? layout v).map fun t => Cut.portion v (front ++ t) := fun _ => rfl
  rw [Cut.joined, hatom]
  cases hv : atom? layout v with
  | none => exact ⟨m, List.mem_cons_of_mem _ hm⟩
  | some t =>
      -- whether an atom has a text does not depend on what stands before it
      rw [Cut.pieces_of_atom level (Cut.portions layout) hv, hatom, hv] at hm
      have hportion : Cut.portion v t = .error m := (List.mem_singleton.mp hm).symm
      refine ⟨m, List.mem_singleton.mpr ?_⟩
      cases v with
      | int n =>
          have hlong : digitLimit < digitCount n := by
            by_contra hshort
            have hfits : integersFit (.int n) = true := decide_eq_true (Nat.not_lt.mp hshort)
            rw [portion_of_fits hfits] at hportion
            cases hportion
          rw [← hportion]
          exact (if_pos hlong).trans (if_pos hlong).symm
      | _ => cases hportion

mutual

theorem error_of_not_fits : ∀ (v : Json) (level : Nat), v.integersFit = false →
    ∃ m, .error m ∈ (Cut.portions layout).pieces level v
  | .int n, _, h =>
      ⟨_, List.mem_singleton.mpr (if_pos (Nat.not_le.mp (of_decide_eq_false h))).symm⟩
  | .arr (v :: rest), level, h => by
      rw [Cut.pieces]
      rcases Bool.and_eq_false_iff.mp h with hv | hrest
      · obtain ⟨m, hm⟩ := error_joined layout (CodePoint.ofChar '[' :: layout.break (level + 1))
          (error_of_not_fits v (level + 1) hv)
        exact ⟨m, List.mem_append_left _ (List.mem_append_left _ hm)⟩
      · obtain ⟨m, hm⟩ := error_of_not_fitItems rest (level + 1) hrest
        exact ⟨m, List.mem_append_left _ (List.mem_append_right _ hm)⟩
  | .obj ((_, v) :: rest), level, h => by
      rw [Cut.pieces]
      rcases Bool.and_eq_false_iff.mp h with hv | hrest
      · obtain ⟨m, hm⟩ := error_of_not_fits v (level + 1) hv
        exact ⟨m, List.mem_append_left _ (List.mem_append_left _ (List.mem_append_right _ hm))⟩
      · obtain ⟨m, hm⟩ := error_of_not_fitMembers rest (level + 1) hrest
        exact ⟨m, List.mem_append_left _ (List.mem_append_right _ hm)⟩

theorem error_of_not_fitItems : ∀ (items : List Json) (level : Nat),
    integersFitItems items = false → ∃ m, .error m ∈ (Cut.portions layout).items level items
  | v :: rest, level, h => by
      rw [Cut.items]
      rcases Bool.and_eq_false_iff.mp h with hv | hrest
      · obtain ⟨m, hm⟩ := error_joined layout (layout.separator level)
          (error_of_not_fits v level hv)
        exact ⟨m, List.mem_append_left _ hm⟩
      · obtain ⟨m, hm⟩ := error_of_not_fitItems rest level hrest
        exact ⟨m, List.mem_append_right _ hm⟩

theorem error_of_not_fitMembers : ∀ (ms : List (Text × Json)) (level : Nat),
    integersFitMembers ms = false → ∃ m, .error m ∈ (Cut.portions layout).members level ms
  | (_, v) :: rest, level, h => by
      rw [Cut.members]
      rcases Bool.and_eq_false_iff.mp h with hv | hrest
      · obtain ⟨m, hm⟩ := error_of_not_fits v level hv
        exact ⟨m, List.mem_append_left _ (List.mem_append_right _ hm)⟩
      · obtain ⟨m, hm⟩ := error_of_not_fitMembers rest level hrest
        exact ⟨m, List.mem_append_right _ hm⟩

end

end

theorem filePortions_of_fits {v : Json} (h : v.integersFit = true) :
    v.filePortions = v.filePieces.map .ok := by
  rw [filePortions, portions_of_fits fileLayout v 0 h, filePieces, List.map_append]
  rfl

/-- **There are texts for all portions of a file if and only if the integers in it fit.** -/
theorem filePortions_isOk_iff {v : Json} :
    (∀ m, .error m ∉ v.filePortions) ↔ v.integersFit = true := by
  constructor
  · intro h
    by_contra hfits
    obtain ⟨m, hm⟩ := error_of_not_fits fileLayout v 0 (Bool.eq_false_iff.mpr hfits)
    exact h m (List.mem_append_left _ hm)
  · intro h m hm
    rw [filePortions_of_fits h] at hm
    obtain ⟨t, -, ht⟩ := List.mem_map.mp hm
    cases ht

theorem filePieces_of_portions {v : Json} {pieces : List Text}
    (h : v.filePortions = pieces.map .ok) : v.integersFit = true ∧ pieces = v.filePieces := by
  have hfits : v.integersFit = true := by
    refine filePortions_isOk_iff.mp fun m hm => ?_
    rw [h] at hm
    obtain ⟨t, -, ht⟩ := List.mem_map.mp hm
    cases ht
  rw [filePortions_of_fits hfits] at h
  have hinj : Function.Injective (Except.ok : Text → Portion) := fun _ _ => Except.ok.inj
  exact ⟨hfits, (List.map_injective_iff.mpr hinj h).symm⟩

/-- A value can be sent if and only if its texts hold no surrogate. -/
theorem tight_encodable_iff {v : Json} :
    Encoding.utf8.fault? v.tight = none ↔ v.isScalar = true := by
  have htight : v.tight.isScalar = v.isScalar :=
    isScalar_written { ascii := false, spaced := false } 0 v
  rw [Encoding.fault_eq_none_iff, ← htight, Text.isScalar, List.all_eq_true]
  rfl

theorem isScalar_prettyAscii (v : Json) : v.prettyAscii.isScalar = true :=
  isScalar_written { ascii := true, indented := true } 0 v

end Json

end TaskContract
