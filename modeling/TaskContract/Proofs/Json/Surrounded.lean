import TaskContract.Proofs.Json.Readable

/-!
# Values among other text

A number or a word takes code points off the front of a text that no array and no object begins
with. So a value behind prose is not reached: the text is malformed, or a number in the prose has
more digits than are read. An array or an object that stands in front is read up to its bracket,
and any text but white space behind it makes the whole malformed.
-/

namespace TaskContract

/-- The marks that strings, arrays, objects and code fences are made with. -/
def Text.valueMarks : Text :=
  Text.ofString "\x7b\x7d[]\"`"

def Text.IsProse (t : Text) : Prop :=
  ∀ c ∈ t, c ∉ Text.valueMarks

instance (t : Text) : Decidable t.IsProse :=
  inferInstanceAs (Decidable (∀ c ∈ t, c ∉ Text.valueMarks))

def Text.HasShortNumbers (t : Text) : Prop :=
  ∀ ds, ds <:+: t → Text.AreDigits ds → ds.length ≤ Json.digitLimit

theorem Text.HasShortNumbers.mono {s t : Text} (h : t.HasShortNumbers) (hs : s <:+: t) :
    s.HasShortNumbers :=
  fun ds hds => h ds (hds.trans hs)

theorem Text.hasShortNumbers_of_length {t : Text} (h : t.length ≤ Json.digitLimit) :
    t.HasShortNumbers :=
  fun _ hds _ => hds.length_le.trans h

namespace Json

/-! ## What numbers and words take -/

def isInNumber (c : CodePoint) : Bool :=
  c.isDigit || (Text.ofString "-+.eE").contains c

theorem isInNumber_of_areDigits {ds : Text} (h : ds.AreDigits) :
    ∀ c ∈ ds, isInNumber c = true := by
  intro c hc
  rw [isInNumber, h c hc, Bool.true_or]

theorem areDigits_takeWhile (t : Text) : Text.AreDigits (t.takeWhile CodePoint.isDigit) :=
  fun _ => List.mem_takeWhile_imp

theorem drop_takeWhile (p : CodePoint → Bool) (t : Text) :
    t.drop (t.takeWhile p).length = t.dropWhile p := by
  have hdrop : (t.takeWhile p ++ t.dropWhile p).drop (t.takeWhile p).length = t.dropWhile p :=
    List.drop_left
  rwa [List.takeWhile_append_dropWhile] at hdrop

theorem whole_spec {t ds rest : Text} (h : whole? t = some (ds, rest)) :
    t = ds ++ rest ∧ ds.AreDigits := by
  refine ⟨?_, (areDigits_of_whole h).1⟩
  cases t with
  | nil => cases h
  | cons c t =>
      rw [whole?] at h
      split at h
      · obtain ⟨rfl, rfl⟩ := Prod.mk.inj (Option.some.inj h)
        rfl
      · split at h
        · rw [List.span_eq_takeWhile_dropWhile] at h
          obtain ⟨rfl, rfl⟩ := Prod.mk.inj (Option.some.inj h)
          exact List.takeWhile_append_dropWhile.symm
        · cases h

theorem fraction_spec {t places rest : Text} (h : fraction? t = some (places, rest)) :
    t = CodePoint.ofChar '.' :: (places ++ rest) ∧ places.AreDigits := by
  cases t with
  | nil => cases h
  | cons c t =>
      unfold fraction? at h
      dsimp only at h
      split at h
      · rename_i hpoint
        obtain ⟨hc, -⟩ := Bool.and_eq_true_iff.mp hpoint
        obtain ⟨rfl, rfl⟩ := Prod.mk.inj (Option.some.inj h)
        rw [of_decide_eq_true hc, drop_takeWhile, List.takeWhile_append_dropWhile]
        exact ⟨rfl, areDigits_takeWhile t⟩
      · cases h

/-- The text is a front that can stand in a number, with the rest behind it. -/
def TakesNumber (t rest : Text) : Prop :=
  ∃ front, t = front ++ rest ∧ ∀ c ∈ front, isInNumber c = true

theorem takesNumber_refl (t : Text) : TakesNumber t t :=
  ⟨[], rfl, List.forall_mem_nil _⟩

theorem TakesNumber.trans {t rest after : Text} (h : TakesNumber t rest)
    (h' : TakesNumber rest after) : TakesNumber t after := by
  obtain ⟨front, rfl, hfront⟩ := h
  obtain ⟨middle, rfl, hmiddle⟩ := h'
  exact ⟨front ++ middle, (List.append_assoc _ _ _).symm,
    List.forall_mem_append.mpr ⟨hfront, hmiddle⟩⟩

theorem takesNumber_cons {c : CodePoint} (hc : isInNumber c = true) (t : Text) :
    TakesNumber (c :: t) t :=
  ⟨[c], rfl, List.forall_mem_singleton.mpr hc⟩

theorem takesNumber_digits {ds : Text} (hds : ds.AreDigits) (t : Text) :
    TakesNumber (ds ++ t) t :=
  ⟨ds, rfl, isInNumber_of_areDigits hds⟩

theorem takesNumber_drop (t : Text) :
    TakesNumber t (t.drop (t.takeWhile CodePoint.isDigit).length) := by
  have htakes := takesNumber_digits (areDigits_takeWhile t) (t.dropWhile CodePoint.isDigit)
  rwa [List.takeWhile_append_dropWhile, ← drop_takeWhile] at htakes

theorem exponent_spec {t rest : Text} {e : Int} (h : exponent? t = some (e, rest)) :
    TakesNumber t rest := by
  cases t with
  | nil => cases h
  | cons c t =>
      unfold exponent? at h
      dsimp only at h
      split at h
      · rename_i hc
        have hmark : isInNumber c = true := by
          rcases Bool.or_eq_true_iff.mp hc with hc | hc
          all_goals
            rw [of_decide_eq_true hc]
            decide
        refine (takesNumber_cons hmark t).trans ?_
        cases t with
        | nil => cases h
        | cons s more =>
            dsimp only at h
            have hdigits : ∀ {unsigned : Text} {n : Int},
                (if (unsigned.takeWhile CodePoint.isDigit).isEmpty = true then none
                  else some (n, unsigned.drop (unsigned.takeWhile CodePoint.isDigit).length))
                    = some (e, rest) → TakesNumber unsigned rest := by
              intro unsigned n hsome
              split at hsome
              · cases hsome
              · obtain ⟨-, rfl⟩ := Prod.mk.inj (Option.some.inj hsome)
                exact takesNumber_drop unsigned
            by_cases hminus : s = CodePoint.ofChar '-'
            · simp only [if_pos hminus] at h
              exact (takesNumber_cons (by rw [hminus]; decide) more).trans (hdigits h)
            · by_cases hplus : s = CodePoint.ofChar '+'
              · simp only [if_neg hminus, if_pos hplus] at h
                exact (takesNumber_cons (by rw [hplus]; decide) more).trans (hdigits h)
              · simp only [if_neg hminus, if_neg hplus] at h
                exact hdigits h
      · cases h

/-- A number is read off the front of the text, or there is none, or it has more digits than are
read. -/
theorem readNumber_spec (t : Text) :
    (∃ v rest, readNumber t = .ok (v, rest) ∧ TakesNumber t rest)
      ∨ (∃ rest, readNumber t = .error (.fault .expectingValue rest))
      ∨ ∃ ds rest, TakesNumber t (ds ++ rest) ∧ ds.AreDigits ∧ digitLimit < ds.length := by
  cases t with
  | nil => exact Or.inr (Or.inl ⟨[], rfl⟩)
  | cons c t =>
  have htakes : TakesNumber (c :: t)
      (if c = CodePoint.ofChar '-' then (true, t) else (false, c :: t)).2 := by
    split
    · rename_i hc
      exact takesNumber_cons (by rw [hc]; decide) t
    · exact takesNumber_refl _
  unfold readNumber
  dsimp only
  generalize (if c = CodePoint.ofChar '-' then (true, t) else (false, c :: t)) = r at htakes ⊢
  obtain ⟨negative, unsigned⟩ := r
  dsimp only at htakes ⊢
  cases hwhole : whole? unsigned with
  | none => exact Or.inr (Or.inl ⟨_, rfl⟩)
  | some r =>
      obtain ⟨ds, rest⟩ := r
      obtain ⟨rfl, hds⟩ := whole_spec hwhole
      have hrest : TakesNumber (c :: t) rest := htakes.trans (takesNumber_digits hds rest)
      have hplaces : TakesNumber rest ((fraction? rest).getD ([], rest)).2 := by
        cases hfraction : fraction? rest with
        | none => exact takesNumber_refl rest
        | some r =>
            obtain ⟨rfl, hplaces⟩ := fraction_spec hfraction
            exact (takesNumber_cons (by decide) _).trans (takesNumber_digits hplaces _)
      dsimp only
      split
      · split
        · rename_i hlimit
          exact Or.inr (Or.inr ⟨ds, rest, htakes, hds, hlimit⟩)
        · exact Or.inl ⟨_, _, rfl, hrest⟩
      · refine Or.inl ⟨_, _, rfl, hrest.trans (hplaces.trans ?_)⟩
        cases hpower : exponent? ((fraction? rest).getD ([], rest)).2 with
        | none => exact takesNumber_refl _
        | some r => exact exponent_spec hpower

/-! ## Malformed texts -/

/-- The text is no JSON, and not for the length of a number. -/
def IsMalformed (t : Text) : Prop :=
  ∃ fault place, read t = .error (.malformed fault t place)

theorem isMalformed_of_readDecoded {t : Text} {fault : Fault} {place : Nat}
    (h : readDecoded t = .error (.malformed fault t place)) : IsMalformed t := by
  unfold IsMalformed read
  split
  · exact ⟨_, _, rfl⟩
  · exact ⟨_, _, h⟩

theorem isMalformed_of_fault {t rest : Text} {fault : Fault}
    (h : readValue (2 * t.length + 2) (skipSpace t) = .error (.fault fault rest)) :
    IsMalformed t := by
  have hread : readDecoded t = .error (.malformed fault t (t.length - rest.length)) := by
    rw [readDecoded]
    dsimp only
    rw [h]
  exact isMalformed_of_readDecoded hread

theorem skipSpace_eq_nil_iff {t : Text} : skipSpace t = [] ↔ IsBlank t :=
  List.dropWhile_eq_nil_iff

/-- A value with more than white space behind it is not all of the text. -/
theorem isMalformed_of_rest {t after : Text} {v : Json}
    (h : readValue (2 * t.length + 2) (skipSpace t) = .ok (v, after)) (hafter : ¬IsBlank after) :
    IsMalformed t := by
  obtain ⟨c, rest, hrest⟩ := List.exists_cons_of_ne_nil (mt skipSpace_eq_nil_iff.mp hafter)
  have hread : readDecoded t
      = .error (.malformed .extraData t (t.length - (c :: rest).length)) := by
    rw [readDecoded]
    dsimp only
    rw [h]
    dsimp only
    rw [hrest]
  exact isMalformed_of_readDecoded hread

/-- The error of a malformed text tells that text. -/
theorem isMalformed_of_error {t told : Text} {fault : Fault} {place : Nat}
    (h : read t = .error (.malformed fault told place)) : IsMalformed t := by
  suffices htold : told = t by
    rw [htold] at h
    exact ⟨fault, place, h⟩
  have hdecoded : readDecoded t = .error (.malformed fault told place) → told = t := by
    intro h
    rw [readDecoded] at h
    dsimp only at h
    split at h
    · split at h
      · cases h
        rfl
      · cases h
    · split at h
      · cases h
      · cases h
        rfl
  rw [read] at h
  split at h
  · cases h
    rfl
  · exact hdecoded h

/-! ## Prose in front of a value -/

theorem split_before {c : CodePoint} {front rest before behind : Text} (hc : c ∉ front)
    (h : before ++ c :: behind = front ++ rest) :
    ∃ between, before = front ++ between ∧ rest = between ++ c :: behind := by
  rcases List.append_eq_append_iff.mp h with ⟨more, rfl, hmore⟩ | ⟨between, rfl, rfl⟩
  · cases more with
    | nil => exact ⟨[], by rw [List.append_nil, List.append_nil], hmore.symm⟩
    | cons d more =>
        obtain ⟨rfl, -⟩ := List.cons.inj hmore
        exact absurd (List.mem_append_right _ List.mem_cons_self) hc
  · exact ⟨between, rfl, rfl⟩

/-- What begins neither a string nor an object nor an array is a word or a number. -/
theorem readValue_prose {c : CodePoint} (hc : c ∉ Text.valueMarks) (fuel : Nat) (t : Text) :
    readValue (fuel + 1) (c :: t) = match word? (c :: t) with
      | some r => .ok r
      | none => readNumber (c :: t) := by
  have hne : ∀ d ∈ Text.valueMarks, c ≠ d := by
    rintro d hd rfl
    exact hc hd
  rw [readValue]
  dsimp only
  refine (if_neg (hne _ (by decide))).trans ((if_neg (hne _ (by decide))).trans
    ((if_neg (hne _ (by decide))).trans ?_))
  cases word? (c :: t) <;> rfl

theorem word_spec {t rest : Text} {v : Json} (h : word? t = some (v, rest)) :
    ∃ w ∈ words, t = w.1 ++ rest := by
  obtain ⟨w, hw, hsome⟩ := List.exists_of_findSome?_eq_some h
  obtain ⟨after, hdrop, hpair⟩ := Option.map_eq_some_iff.mp hsome
  obtain ⟨-, rfl⟩ := Prod.mk.inj hpair
  exact ⟨w, hw, Text.eq_append_of_dropFront hdrop⟩

/-- Neither words nor numbers hold the bracket that an object or an array begins with. -/
theorem opening_spec {c : CodePoint} (hc : c ∈ Text.ofString "\x7b[") :
    isSpace c = false ∧ isInNumber c = false ∧ ∀ w ∈ words, c ∉ w.1 := by
  rcases List.mem_pair.mp hc with rfl | rfl <;> decide

/-- An array or an object behind prose is not reached. -/
theorem isMalformed_of_prose {p : Text} (hp : p.IsProse) (hshort : p.HasShortNumbers)
    (hblank : ¬IsBlank p) {c : CodePoint} (hc : c ∈ Text.ofString "\x7b[") (t : Text) :
    IsMalformed (p ++ c :: t) := by
  obtain ⟨hspace, hnumber, hword⟩ := opening_spec hc
  obtain ⟨d, rest, hrest⟩ := List.exists_cons_of_ne_nil (mt skipSpace_eq_nil_iff.mp hblank)
  have hsuffix : d :: rest <:+ p := hrest ▸ List.dropWhile_suffix isSpace
  have hskip : skipSpace (p ++ c :: t) = d :: (rest ++ c :: t) := by
    rw [skipSpace, List.dropWhile_append, ← skipSpace, hrest]
    rfl
  have hvalue := readValue_prose (hp d (hsuffix.subset List.mem_cons_self))
    (2 * (p ++ c :: t).length + 1) (rest ++ c :: t)
  rw [← hskip] at hvalue
  -- what is taken lies before the bracket, which is then no white space behind a value
  have hreach : ∀ {front after : Text}, c ∉ front → skipSpace (p ++ c :: t) = front ++ after →
      ¬IsBlank after := by
    intro front after hfront hsplit hafter
    have hbefore : (d :: rest) ++ c :: t = front ++ after := hskip.symm.trans hsplit
    obtain ⟨between, -, rfl⟩ := split_before hfront hbefore
    have hc := hafter c (List.mem_append_right _ List.mem_cons_self)
    rw [hspace] at hc
    cases hc
  have hnotIn : ∀ {front : Text}, (∀ x ∈ front, isInNumber x = true) → c ∉ front := by
    intro front hfront hc
    rw [hfront c hc] at hnumber
    cases hnumber
  cases hw : word? (skipSpace (p ++ c :: t)) with
  | some r =>
      obtain ⟨w, hmem, hsplit⟩ := word_spec hw
      rw [hw] at hvalue
      exact isMalformed_of_rest hvalue (hreach (hword w hmem) hsplit)
  | none =>
      rw [hw] at hvalue
      rcases readNumber_spec (skipSpace (p ++ c :: t)) with
        ⟨v, after, hread, front, hsplit, hfront⟩ | ⟨after, hread⟩ | ⟨ds, after, htakes, hds, hlong⟩
      · exact isMalformed_of_rest (hvalue.trans hread) (hreach (hnotIn hfront) hsplit)
      · exact isMalformed_of_fault (hvalue.trans hread)
      · obtain ⟨front, hsplit, hfront⟩ := htakes
        have hbefore : (d :: rest) ++ c :: t = (front ++ ds) ++ after :=
          hskip.symm.trans (hsplit.trans (List.append_assoc _ _ _).symm)
        obtain ⟨between, hbetween, -⟩ := split_before
          (hnotIn (List.forall_mem_append.mpr ⟨hfront, isInNumber_of_areDigits hds⟩)) hbefore
        have hwithin : ds <:+: p :=
          (show ds <:+: d :: rest from ⟨front, between, hbetween.symm⟩).trans hsuffix.isInfix
        exact absurd (hshort ds hwithin hds) (Nat.not_le_of_lt hlong)

/-! ## Text around a value -/

section

variable {layout : Layout} {v : Json} (hnested : v.isNested = true)

include hnested

theorem written_opening (layout : Layout) (level : Nat) :
    ∃ c t, written layout level v = c :: t ∧ c ∈ Text.ofString "\x7b[" := by
  cases v with
  | arr items =>
      obtain ⟨body, hwritten⟩ := written_arr_brackets layout level items
      exact ⟨_, _, hwritten, by decide⟩
  | obj ms =>
      obtain ⟨body, hwritten⟩ := written_obj_brackets layout level ms
      exact ⟨_, _, hwritten, by decide⟩
  | _ => cases hnested

variable (h : v.isReadable = true) (hscalar : v.isScalar = true) (level : Nat)

include h hscalar

theorem readValue_behind_blanks {p : Text} (hp : IsBlank p) (q : Text) :
    readValue (2 * (p ++ (written layout level v ++ q)).length + 2)
      (skipSpace (p ++ (written layout level v ++ q))) = .ok (v, q) := by
  obtain ⟨hfit, hmerged⟩ := fits_of_isReadable v h
  obtain ⟨c, t, hwritten, hc⟩ := written_opening hnested layout level
  have hstart : skipSpace (written layout level v ++ q) = written layout level v ++ q := by
    rw [hwritten]
    exact skipSpace_cons (opening_spec hc).1 _
  have hvalue : readValue (2 * (p ++ (written layout level v ++ q)).length + 2)
      (written layout level v ++ q) = .ok (v.merged, q) := by
    refine readValue_nested hnested hfit hscalar level _ q ?_
    rw [List.length_append, List.length_append]
    omega
  rw [skipSpace_blank hp, hstart, hvalue, hmerged]

/-- **White space around an array or an object is skipped.** -/
theorem read_between_blanks {p q : Text} (hp : IsBlank p) (hq : IsBlank q) :
    read (p ++ (written layout level v ++ q)) = .ok v := by
  obtain ⟨c, t, hwritten, hc⟩ := written_opening hnested layout level
  have hmark : (p ++ (written layout level v ++ q)).head? ≠ some (CodePoint.ofNat 0xFEFF) := by
    rw [hwritten]
    intro hhead
    cases p with
    | nil =>
        obtain rfl := Option.some.inj hhead
        exact absurd hc (by decide)
    | cons d rest =>
        obtain rfl := Option.some.inj hhead
        exact absurd (hp _ List.mem_cons_self) (by decide)
  rw [read, if_neg hmark, readDecoded]
  dsimp only
  rw [readValue_behind_blanks hnested h hscalar level hp q]
  dsimp only
  rw [skipSpace_eq_nil_iff.mpr hq]

/-- **An array or an object with prose in front of it or with any text behind it is no JSON.** -/
theorem isMalformed_of_surrounded {p q : Text} (hp : p.IsProse) (hshort : p.HasShortNumbers)
    (hblank : IsBlank p → ¬IsBlank q) : IsMalformed (p ++ (written layout level v ++ q)) := by
  by_cases hfront : IsBlank p
  · exact isMalformed_of_rest (readValue_behind_blanks hnested h hscalar level hfront q)
      (hblank hfront)
  · obtain ⟨c, t, hwritten, hc⟩ := written_opening hnested layout level
    rw [hwritten]
    exact isMalformed_of_prose hp hshort hfront hc _

end

/-! ## Texts that begin with a brace -/

theorem obj_of_readMembers {fuel : Nat} {ms : Members} {t after : Text} {v : Json}
    (h : readMembers fuel ms t = .ok (v, after)) : ∃ members, v = .obj members := by
  induction fuel generalizing ms t with
  | zero => cases h
  | succ fuel ih =>
      cases t with
      | nil => cases h
      | cons q body =>
          rw [readMembers] at h
          split at h
          · obtain ⟨⟨name, after'⟩, -, hname⟩ := bind_eq_ok_iff.mp h
            dsimp only at hname
            split at hname
            · cases hname
            · split at hname
              · obtain ⟨⟨w, after''⟩, -, hrest⟩ := bind_eq_ok_iff.mp hname
                dsimp only at hrest
                split at hrest
                · cases hrest
                · split at hrest
                  · exact ⟨_, (Prod.mk.inj (Except.ok.inj hrest)).1.symm⟩
                  · split at hrest
                    · exact ih hrest
                    · cases hrest
              · cases hname
          · cases h

/-- What begins with a brace is an object or no JSON. -/
theorem obj_of_read_brace {t : Text} {v : Json}
    (h : read (CodePoint.ofChar '\x7b' :: t) = .ok v) : ∃ ms, v = .obj ms := by
  have hmark : (CodePoint.ofChar '\x7b' :: t).head? ≠ some (CodePoint.ofNat 0xFEFF) :=
    mt Option.some.inj (by decide)
  have hread : readDecoded (CodePoint.ofChar '\x7b' :: t) = .ok v := by
    rwa [read, if_neg hmark] at h
  rw [readDecoded, skipSpace_cons (by decide)] at hread
  dsimp only at hread
  split at hread
  · cases hread
  · rename_i u after hvalue
    split at hread
    · obtain rfl := Except.ok.inj hread
      rw [readValue] at hvalue
      dsimp only at hvalue
      rw [if_neg (by decide), if_pos rfl] at hvalue
      split at hvalue
      · cases hvalue
      · split at hvalue
        · exact ⟨_, (Prod.mk.inj (Except.ok.inj hvalue)).1.symm⟩
        · exact obj_of_readMembers hvalue
    · cases hread

end Json

end TaskContract
