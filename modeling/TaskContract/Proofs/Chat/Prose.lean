import TaskContract.Proofs.Chat.Fences
import TaskContract.Proofs.Json.Objects

/-!
# Values in prose

A value may stand in a reply with prose around it, without a fence. The whole text is then no JSON,
and what is read is found by its brackets: first by the braces of the outermost object, then by the
brackets of the outermost array.
-/

namespace TaskContract

/-! ## Parts of texts -/

section

variable {α : Type} {w p t q : List α}

theorem infix_of_infix_append_left (hne : w ≠ []) (hp : ∀ c ∈ w, c ∉ p) (h : w <:+: p ++ t) :
    w <:+: t := by
  induction p with
  | nil => exact h
  | cons d rest ih =>
      rcases List.infix_cons_iff.mp h with ⟨more, hmore⟩ | hwithin
      · obtain ⟨c, front, rfl⟩ := List.exists_cons_of_ne_nil hne
        obtain ⟨rfl, -⟩ := List.cons.inj hmore
        exact absurd List.mem_cons_self (hp c List.mem_cons_self)
      · exact ih (fun c hc => mt (List.mem_cons_of_mem d) (hp c hc)) hwithin

theorem infix_of_infix_append_right (hne : w ≠ []) (hq : ∀ c ∈ w, c ∉ q) (h : w <:+: t ++ q) :
    w <:+: t := by
  rw [← List.reverse_infix, List.reverse_append] at h
  rw [← List.reverse_infix]
  refine infix_of_infix_append_left (mt List.reverse_eq_nil_iff.mp hne) ?_ h
  intro c hc hmem
  exact hq c (List.mem_reverse.mp hc) (List.mem_reverse.mp hmem)

end

namespace Text

theorem includes_eq_true_iff (w t : Text) : includes w t = true ↔ w <:+: t := by
  induction t with
  | nil =>
      rw [List.infix_nil, includes, find?, find?.go]
      split <;> simp_all
  | cons c rest ih =>
      rw [Chat.includes_cons, Bool.or_eq_true, ih, List.isPrefixOf_iff_prefix, List.infix_cons_iff]

theorem find_singleton (c : CodePoint) (t : Text) : find? [c] t = t.findIdx? (· = c) := by
  have hgo : ∀ offset, find?.go [c] offset t = (t.findIdx? (· = c)).map (· + offset) := by
    induction t with
    | nil => intro offset; rfl
    | cons d rest ih =>
        intro offset
        rw [find?.go, List.findIdx?_cons, ih, List.isPrefixOf]
        by_cases hd : c = d
        · subst hd
          simp
        · have hne : d ≠ c := Ne.symm hd
          simp only [beq_eq_false_iff_ne.mpr hd, Bool.false_and, Bool.false_eq_true, if_false,
            decide_eq_false hne, Option.map_map]
          exact congrArg (Option.map · _) (funext fun n => by simp only [Function.comp]; omega)
  rw [find?, hgo 0]
  exact Option.map_id'

theorem findIdx_eq_some_iff {c : CodePoint} {t : Text} {i : Nat} :
    t.findIdx? (· = c) = some i ↔ ∃ front back, t = front ++ c :: back ∧ c ∉ front
      ∧ i = front.length := by
  constructor
  · intro h
    obtain ⟨hi, hc, hbefore⟩ := List.findIdx?_eq_some_iff_getElem.mp h
    refine ⟨t.take i, t.drop (i + 1), ?_, ?_, ?_⟩
    · rw [← of_decide_eq_true hc, List.getElem_cons_drop, List.take_append_drop]
    · intro hmem
      obtain ⟨j, hj, heq⟩ := List.mem_take_iff_getElem.mp hmem
      exact hbefore j (by omega) (decide_eq_true heq)
    · rw [List.length_take, Nat.min_eq_left (Nat.le_of_lt hi)]
  · rintro ⟨front, back, rfl, hfront, rfl⟩
    have hnone : front.findIdx? (· = c) = none := by
      rw [List.findIdx?_eq_none_iff]
      rintro d hd
      exact decide_eq_false (ne_of_mem_of_not_mem hd hfront)
    rw [List.findIdx?_append, hnone, List.findIdx?_cons, decide_eq_true rfl]
    simp

theorem lastIndexOf_eq_some_iff {c : CodePoint} {t : Text} {i : Nat} :
    lastIndexOf? c t = some i ↔ ∃ front back, t = front ++ c :: back ∧ c ∉ back
      ∧ i = front.length := by
  rw [lastIndexOf?, Option.map_eq_some_iff]
  constructor
  · rintro ⟨n, hn, rfl⟩
    obtain ⟨back, front, hreverse, hback, rfl⟩ := findIdx_eq_some_iff.mp hn
    have ht : t = front.reverse ++ c :: back.reverse := by
      rw [← List.reverse_reverse t, hreverse]
      simp
    refine ⟨front.reverse, back.reverse, ht, mt List.mem_reverse.mp hback, ?_⟩
    rw [ht]
    simp
  · rintro ⟨front, back, rfl, hback, rfl⟩
    refine ⟨back.length, findIdx_eq_some_iff.mpr ⟨back.reverse, front.reverse, ?_, ?_, ?_⟩, ?_⟩
    · simp
    · exact mt List.mem_reverse.mp hback
    · exact List.length_reverse.symm
    · rw [List.length_append, List.length_cons]
      omega

end Text

namespace Chat

/-! ## The outermost brackets -/

/-- What stands from the first opening bracket to the last closing one. -/
theorem outermost_eq_some_iff {opening closing : CodePoint} (hne : opening ≠ closing)
    {t slice : Text} : outermost? opening closing t = some slice
      ↔ ∃ front body back, t = front ++ (opening :: (body ++ [closing]) ++ back)
        ∧ opening ∉ front ∧ closing ∉ back ∧ slice = opening :: (body ++ [closing]) := by
  have hslice : ∀ front body back : Text,
      ((front ++ (opening :: (body ++ [closing]) ++ back)).take
        ((front ++ opening :: body).length + 1)).drop front.length
          = opening :: (body ++ [closing]) := by
    intro front body back
    have hfront : front ++ (opening :: (body ++ [closing]) ++ back)
        = (front ++ opening :: (body ++ [closing])) ++ back := (List.append_assoc _ _ _).symm
    have hlength : (front ++ opening :: body).length + 1
        = (front ++ opening :: (body ++ [closing])).length := by
      simp only [List.length_append, List.length_cons, List.length_nil]
      omega
    rw [hfront, hlength, List.take_left, List.drop_left]
  rw [outermost?, Text.find_singleton]
  simp only [Option.bind_eq_bind, Option.bind_eq_some_iff, Option.ite_none_right_eq_some,
    Option.some.injEq]
  constructor
  · rintro ⟨start, hstart, stop, hstop, hlt, rfl⟩
    obtain ⟨front, rest, ht, hfront, rfl⟩ := Text.findIdx_eq_some_iff.mp hstart
    obtain ⟨before, back, hback, hnot, rfl⟩ := Text.lastIndexOf_eq_some_iff.mp hstop
    rw [ht] at hback
    -- the last closing mark is behind the first opening one, so what is before it begins with that
    obtain ⟨body, rfl⟩ : ∃ body, before = front ++ opening :: body := by
      rcases List.append_eq_append_iff.mp hback with ⟨middle, rfl, hmiddle⟩ | ⟨middle, rfl, -⟩
      · cases middle with
        | nil => exact absurd (List.cons.inj hmiddle).1 hne
        | cons d body => exact ⟨body, by rw [(List.cons.inj hmiddle).1]⟩
      · rw [List.length_append] at hlt
        omega
    have hwhole : t = front ++ (opening :: (body ++ [closing]) ++ back) := by
      rw [ht, hback]
      simp
    exact ⟨front, body, back, hwhole, hfront, hnot, by rw [hwhole, hslice]⟩
  · rintro ⟨front, body, back, rfl, hfront, hback, rfl⟩
    refine ⟨front.length, Text.findIdx_eq_some_iff.mpr ⟨front, _, rfl, hfront, rfl⟩,
      (front ++ opening :: body).length, Text.lastIndexOf_eq_some_iff.mpr
        ⟨front ++ opening :: body, back, by simp, hback, rfl⟩, ?_, hslice front body back⟩
    rw [List.length_append, List.length_cons]
    omega

theorem split_behind {c : CodePoint} {back rest before behind : Text} (hc : c ∉ back)
    (h : before ++ c :: behind = rest ++ back) :
    ∃ between, behind = between ++ back ∧ rest = before ++ c :: between := by
  rcases List.append_eq_append_iff.mp h with ⟨middle, hrest, hmiddle⟩ | ⟨middle, rfl, hback⟩
  · cases middle with
    | nil =>
        rw [List.nil_append] at hmiddle
        rw [← hmiddle] at hc
        exact absurd List.mem_cons_self hc
    | cons d between =>
        obtain ⟨rfl, hbehind⟩ := List.cons.inj hmiddle
        exact ⟨between, hbehind, hrest⟩
  · rw [hback] at hc
    exact absurd (List.mem_append_right _ List.mem_cons_self) hc

/-- Text without the brackets around another does not change what stands between them. -/
theorem outermost_between {opening closing : CodePoint} (hne : opening ≠ closing)
    {p q : Text} (hp : opening ∉ p) (hq : closing ∉ q) (t : Text) :
    outermost? opening closing (p ++ (t ++ q)) = outermost? opening closing t := by
  refine Option.ext fun slice => ?_
  rw [outermost_eq_some_iff hne, outermost_eq_some_iff hne]
  constructor
  · rintro ⟨front, body, back, h, hfront, hback, rfl⟩
    rw [List.cons_append] at h
    obtain ⟨start, rfl, hrest⟩ := Json.split_before hp h.symm
    have hend : (start ++ opening :: body) ++ closing :: back = t ++ q := by
      rw [hrest]
      simp
    obtain ⟨stop, rfl, rfl⟩ := split_behind hq hend
    refine ⟨start, body, stop, by simp, ?_, ?_, rfl⟩
    · exact fun hmem => hfront (List.mem_append_right _ hmem)
    · exact fun hmem => hback (List.mem_append_left _ hmem)
  · rintro ⟨front, body, back, rfl, hfront, hback, rfl⟩
    refine ⟨p ++ front, body, back ++ q, by simp, ?_, ?_, rfl⟩
    · exact fun hmem => (List.mem_append.mp hmem).elim hp hfront
    · exact fun hmem => (List.mem_append.mp hmem).elim hback hq

theorem outermost_self {opening closing : CodePoint} (hne : opening ≠ closing) (body : Text) :
    outermost? opening closing (opening :: (body ++ [closing]))
      = some (opening :: (body ++ [closing])) := by
  rw [outermost_eq_some_iff hne]
  exact ⟨[], body, [], (List.append_nil _).symm, List.not_mem_nil, List.not_mem_nil, rfl⟩

section

variable (layout : Json.Layout) (level : Nat)

theorem outermost_obj (ms : Members) :
    outermost? '\x7b' '\x7d' (Json.written layout level (.obj ms))
      = some (Json.written layout level (.obj ms)) := by
  obtain ⟨body, hwritten⟩ := Json.written_obj_brackets layout level ms
  rw [hwritten]
  exact outermost_self (by decide) body

theorem outermost_arr (items : List Json) :
    outermost? '[' ']' (Json.written layout level (.arr items))
      = some (Json.written layout level (.arr items)) := by
  obtain ⟨body, hwritten⟩ := Json.written_arr_brackets layout level items
  rw [hwritten]
  exact outermost_self (by decide) body

end

/-! ## Replies without fences -/

theorem withoutFences_of_none {t : Text} (h : ¬Text.ofString "```" <:+: t) :
    withoutFences 0 t = t := by
  induction t with
  | nil => rfl
  | cons c rest ih =>
      rw [List.infix_cons_iff, not_or] at h
      have hopening : Text.dropFront? (c :: rest) (Text.ofString "```") = none := by
        rw [← Option.not_isSome_iff_eq_none, isSome_dropFront, List.isPrefixOf_iff_prefix]
        exact h.1
      have hclosing : ¬Text.startsWith (c :: rest) (Text.ofString "\n```") = true := by
        rw [Text.startsWith, List.isPrefixOf_iff_prefix]
        intro hprefix
        exact h.2 (List.cons_prefix_cons.mp hprefix).2.isInfix
      have hnone : fenceLength? (c :: rest) = none := by
        rw [fenceLength?, hopening]
        exact if_neg hclosing
      rw [withoutFences_cons hnone, ih h.2]

theorem isProse_trimStart {p : Text} (h : p.IsProse) : (Text.trimStart p).IsProse :=
  fun c hc => h c ((List.dropWhile_suffix _).subset hc)

theorem isProse_trimEnd {q : Text} (h : q.IsProse) : (Text.trimEnd q).IsProse := by
  intro c hc
  exact h c (List.mem_reverse.mp ((List.dropWhile_suffix _).subset (List.mem_reverse.mp hc)))

theorem not_mem_of_isProse {p : Text} (h : p.IsProse) {c : CodePoint}
    (hc : c ∈ Text.valueMarks) : c ∉ p :=
  fun hmem => h c hmem hc

section

variable {layout : Json.Layout} {v : Json} {p q : Text}

section

variable (hnested : v.isNested = true)
  (hfence : Text.includes (Text.ofString "```") (Json.render layout v) = false)
  (hp : p.IsProse) (hq : q.IsProse)

include hnested hfence hp hq

/-- The texts in which an array or an object in prose is looked for: the brackets that are found are
its own. -/
theorem candidates_prose : candidates (p ++ (Json.render layout v ++ q))
    = [p ++ (Json.render layout v ++ q),
        Text.trimStart p ++ (Json.render layout v ++ Text.trimEnd q)]
      ++ (outermost? '\x7b' '\x7d' (Json.render layout v)).toList
      ++ (outermost? '[' ']' (Json.render layout v)).toList := by
  have hclean : ¬Text.ofString "```" <:+: p ++ (Json.render layout v ++ q) := by
    have hmarks : ∀ c ∈ Text.ofString "```", c ∈ Text.valueMarks := by decide
    -- a fence could only stand in the value itself
    intro hwithin
    have hinner := infix_of_infix_append_right (by decide)
      (fun c hc => not_mem_of_isProse hq (hmarks c hc))
      (infix_of_infix_append_left (by decide)
        (fun c hc => not_mem_of_isProse hp (hmarks c hc)) hwithin)
    rw [← Text.includes_eq_true_iff, hfence] at hinner
    cases hinner
  obtain ⟨opening, body, closing, hwritten, hopening, hclosing⟩ :=
    Json.written_brackets layout 0 hnested
  have htrim : Text.trim (p ++ (Json.render layout v ++ q))
      = Text.trimStart p ++ (Json.render layout v ++ Text.trimEnd q) := by
    rw [show Json.render layout v = opening :: (body ++ [closing]) from hwritten]
    exact Text.trim_between hopening hclosing p body q
  have hslice : ∀ o ∈ Text.valueMarks, ∀ c ∈ Text.valueMarks, o ≠ c →
      outermost? o c (Text.trimStart p ++ (Json.render layout v ++ Text.trimEnd q))
        = outermost? o c (Json.render layout v) := by
    intro o ho c hc hne
    exact outermost_between hne (not_mem_of_isProse (isProse_trimStart hp) ho)
      (not_mem_of_isProse (isProse_trimEnd hq) hc) _
  rw [candidates, withoutFences_of_none hclean, htrim,
    hslice _ (by decide) _ (by decide) (by decide), hslice _ (by decide) _ (by decide) (by decide)]

end

variable (hplain : v.isPlain = true) (hnested : v.isNested = true) (hp : p.IsProse)
  (hshort : p.HasShortNumbers)

include hplain hnested hp hshort

/-- With prose around it, an array or an object is read, or the text is malformed. -/
theorem read_surrounded : Json.read (p ++ (Json.render layout v ++ q)) = .ok v
    ∨ Json.IsMalformed (p ++ (Json.render layout v ++ q)) := by
  have hread := Json.isReadable_of_isPlain v hplain
  have hscalar := Json.isScalar_of_isPlain v hplain
  by_cases hblank : Json.IsBlank p → ¬Json.IsBlank q
  · exact Or.inr (Json.isMalformed_of_surrounded hnested hread hscalar 0 hp hshort hblank)
  · obtain ⟨hfront, hback⟩ := Classical.not_imp.mp hblank
    exact Or.inl
      (Json.read_between_blanks hnested hread hscalar 0 hfront (not_not.mp hback))

end

/-- An array or an object is read where nothing stands around it. -/
theorem read_written {layout : Json.Layout} {v : Json} (hplain : v.isPlain = true)
    (hnested : v.isNested = true) (level : Nat) :
    Json.read (Json.written layout level v) = .ok v := by
  have hblanks : Json.read ([] ++ (Json.written layout level v ++ [])) = .ok v :=
    Json.read_between_blanks hnested (Json.isReadable_of_isPlain v hplain)
      (Json.isScalar_of_isPlain v hplain) level (List.forall_mem_nil _) (List.forall_mem_nil _)
  rwa [List.nil_append, List.append_nil] at hblanks

theorem firstReadable_of_read {t : Text} {v : Json} (h : Json.read t = .ok v) (rest : List Text) :
    firstReadable? (t :: rest) = .ok (some v) := by
  rw [firstReadable?, h]

theorem firstReadable_of_malformed {t : Text} (h : Json.IsMalformed t) (rest : List Text) :
    firstReadable? (t :: rest) = firstReadable? rest := by
  obtain ⟨fault, place, h⟩ := h
  rw [firstReadable?, h]

/-- A text in front that is malformed or gives the same value changes nothing. -/
theorem firstReadable_of_same {t : Text} {v : Json} {rest : List Text}
    (h : Json.read t = .ok v ∨ Json.IsMalformed t) (hrest : firstReadable? rest = .ok (some v)) :
    firstReadable? (t :: rest) = .ok (some v) := by
  rcases h with h | h
  · exact firstReadable_of_read h rest
  · rw [firstReadable_of_malformed h, hrest]

theorem parseContent_eq_ok_iff {t : Text} {v : Json} :
    parseContent t = .ok v ↔ firstReadable? (candidates t) = .ok (some v) := by
  rw [parseContent]
  cases firstReadable? (candidates t) with
  | error e => simp only [reduceCtorEq]
  | ok found =>
      cases found with
      | none => simp only [reduceCtorEq, Except.ok.injEq]
      | some u => rw [Except.ok.injEq, Except.ok.injEq, Option.some.injEq]

/-- **An object with prose around it is read as it is**, if its text holds no fence. -/
theorem parseContent_object {layout : Json.Layout} {ms : Members}
    (hplain : (Json.obj ms).isPlain = true)
    (hfence : Text.includes (Text.ofString "```") (Json.render layout (.obj ms)) = false)
    {p q : Text} (hp : p.IsProse) (hq : q.IsProse) (hshort : p.HasShortNumbers) :
    parseContent (p ++ Json.render layout (.obj ms) ++ q) = .ok (.obj ms) := by
  have hslice : outermost? '\x7b' '\x7d' (Json.render layout (.obj ms))
      = some (Json.render layout (.obj ms)) := outermost_obj layout 0 ms
  rw [List.append_assoc, parseContent_eq_ok_iff, candidates_prose rfl hfence hp hq, hslice]
  -- the whole text and the trimmed one are malformed, or nothing but blanks is around the object
  refine firstReadable_of_same (read_surrounded hplain rfl hp hshort) ?_
  refine firstReadable_of_same (read_surrounded hplain rfl (isProse_trimStart hp)
    (hshort.mono (List.dropWhile_suffix _).isInfix)) ?_
  exact firstReadable_of_read (read_written hplain rfl 0) _

def stepMembers : Members :=
  [(Text.ofString "steps", .arr [.int 1, Json.ofString "go"])]

/-- A number in front of the object is not taken for the value. -/
theorem stepMembers_found :
    parseContent (Text.ofString "1. NaN? " ++ (Json.obj stepMembers).compact
      ++ Text.ofString "true") = .ok (.obj stepMembers) :=
  parseContent_object (by decide) (by decide) (by decide) (by decide)
    (Text.hasShortNumbers_of_length (by decide))

/-! ## Arrays in prose -/

theorem isBlank_of_isSpace {c : CodePoint} (h : Json.isSpace c = true) : c.isBlank = true := by
  simp only [Json.isSpace, Bool.or_eq_true, decide_eq_true_eq] at h
  rcases h with ((rfl | rfl) | rfl) | rfl <;> decide

/-- Of a text that is not blank something stays when blanks are trimmed, and that is no white
space. -/
theorem isBlank_of_trimStart {p : Text} (h : Json.IsBlank (Text.trimStart p)) :
    Text.isBlank p = true := by
  cases htrim : Text.trimStart p with
  | nil => exact List.all_eq_true.mpr (List.dropWhile_eq_nil_iff.mp htrim)
  | cons c rest =>
      have hhead := List.head?_dropWhile_not CodePoint.isBlank p
      rw [← Text.trimStart, htrim] at hhead
      rw [htrim] at h
      have hc := isBlank_of_isSpace (h c List.mem_cons_self)
      rw [hhead] at hc
      cases hc

theorem isBlank_of_trimEnd {q : Text} (h : Json.IsBlank (Text.trimEnd q)) :
    Text.isBlank q = true := by
  have hreverse : Text.isBlank q.reverse = true :=
    isBlank_of_trimStart fun c hc => h c (List.mem_reverse.mpr hc)
  rwa [Text.isBlank, List.all_reverse] at hreverse

section

variable {layout : Json.Layout} {t : Text} {o o' : Json} {more : List Json}

theorem outermost_none (h : Json.ShowsObjects layout t []) : outermost? '\x7b' '\x7d' t = none := by
  cases h with
  | none ht =>
      cases hslice : outermost? '\x7b' '\x7d' t with
      | none => rfl
      | some slice =>
          obtain ⟨front, body, back, rfl, -⟩ := (outermost_eq_some_iff (by decide)).mp hslice
          refine absurd ?_ (Json.isBraceless_iff.mp ht).1
          exact List.mem_append_right _ List.mem_cons_self

theorem outermost_sole (h : Json.ShowsObjects layout t [o]) :
    o.isNested = true
      ∧ ∃ level, outermost? '\x7b' '\x7d' t = some (Json.written layout level o) := by
  cases h with
  | object hfront level ms hrest =>
      cases hrest with
      | none hback =>
          refine ⟨rfl, level, ?_⟩
          rw [outermost_between (by decide) (Json.isBraceless_iff.mp hfront).1
            (Json.isBraceless_iff.mp hback).2, outermost_obj]

/-- From the first of several objects to the last one more stands than the first. -/
theorem outermost_several (h : Json.ShowsObjects layout t (o :: o' :: more)) :
    o.isNested = true
      ∧ ∃ level rest, outermost? '\x7b' '\x7d' t = some (Json.written layout level o ++ rest)
        ∧ ¬Json.IsBlank rest := by
  cases h with
  | object hfront level ms hrest =>
      obtain ⟨before, back, rfl, hback⟩ := hrest.closing (List.cons_ne_nil _ _)
      obtain ⟨body, hwritten⟩ := Json.written_obj_brackets layout level ms
      refine ⟨rfl, level, before ++ [CodePoint.ofChar '\x7d'], ?_, ?_⟩
      · rw [outermost_eq_some_iff (by decide)]
        refine ⟨_, body ++ CodePoint.ofChar '\x7d' :: before, back, ?_,
          (Json.isBraceless_iff.mp hfront).1, hback, ?_⟩
        · rw [hwritten]
          simp
        · rw [hwritten]
          simp
      · intro hblank
        have hspace := hblank _ (List.mem_append_right before (List.mem_singleton_self _))
        exact absurd hspace (by decide)

end

/-- The array is found if and only if what stands between its outermost braces is no JSON: what
begins with a brace is no array. -/
theorem firstReadable_slice {t w : Text} {items : List Json}
    (hread : Json.read w = .ok (.arr items)) :
    firstReadable? ((outermost? '\x7b' '\x7d' t).toList ++ [w]) = .ok (some (.arr items))
      ↔ ∀ slice, outermost? '\x7b' '\x7d' t = some slice → Json.IsMalformed slice := by
  cases hslice : outermost? '\x7b' '\x7d' t with
  | none => exact ⟨fun _ => nofun, fun _ => firstReadable_of_read hread _⟩
  | some slice =>
      obtain ⟨front, body, back, -, -, -, hbrace⟩ := (outermost_eq_some_iff (by decide)).mp hslice
      constructor
      · rintro hfirst _ ⟨⟩
        -- a slice that can be read, or that holds too long a number, ends the search
        rw [Option.toList_some, List.singleton_append] at hfirst
        cases hvalue : Json.read slice with
        | ok u =>
            rw [firstReadable_of_read hvalue] at hfirst
            rw [hbrace] at hvalue
            obtain ⟨ms, rfl⟩ := Json.obj_of_read_brace hvalue
            cases hfirst
        | error e =>
            cases e with
            | malformed => exact Json.isMalformed_of_error hvalue
            | tooManyDigits n =>
                rw [firstReadable?, hvalue] at hfirst
                cases hfirst
      · intro hmalformed
        exact (firstReadable_of_malformed (hmalformed slice rfl) _).trans
          (firstReadable_of_read hread _)

/-- What is recovered of an array in prose: its outermost object if there is just one, else the
array. -/
def recovered (items : List Json) : Json :=
  match Json.outermostObjectsOf items with
  | [o] => o
  | _ => .arr items

section

variable {layout : Json.Layout} {items : List Json} (hplain : (Json.arr items).isPlain = true)
  (hfence : Text.includes (Text.ofString "```") (Json.render layout (.arr items)) = false)
  {p q : Text} (hp : p.IsProse) (hq : q.IsProse) (hshort : p.HasShortNumbers)
  (hblank : Text.isBlank (p ++ q) = false)

include hplain hfence hp hq hshort hblank

/-- The braces in an array come first, and then its own brackets. -/
theorem firstReadable_array :
    firstReadable? (candidates (p ++ (Json.render layout (.arr items) ++ q)))
    = firstReadable? ((outermost? '\x7b' '\x7d' (Json.render layout (.arr items))).toList
        ++ [Json.render layout (.arr items)]) := by
  have hslice : outermost? '[' ']' (Json.render layout (.arr items))
      = some (Json.render layout (.arr items)) := outermost_arr layout 0 items
  have hmalformed : ∀ {front back : Text}, front.IsProse → front.HasShortNumbers →
      (Json.IsBlank front → Json.IsBlank back → Text.isBlank (p ++ q) = true) →
      Json.IsMalformed (front ++ (Json.render layout (.arr items) ++ back)) := by
    intro front back hfront hnumbers hall
    refine Json.isMalformed_of_surrounded rfl (Json.isReadable_of_isPlain _ hplain)
      (Json.isScalar_of_isPlain _ hplain) 0 hfront hnumbers ?_
    intro hleft hright
    rw [hall hleft hright] at hblank
    cases hblank
  have hwhole : Json.IsMalformed (p ++ (Json.render layout (.arr items) ++ q)) := by
    refine hmalformed hp hshort fun hleft hright => ?_
    rw [Text.isBlank, List.all_append, Bool.and_eq_true, List.all_eq_true, List.all_eq_true]
    exact ⟨fun c hc => isBlank_of_isSpace (hleft c hc),
      fun c hc => isBlank_of_isSpace (hright c hc)⟩
  have htrimmed : Json.IsMalformed
      (Text.trimStart p ++ (Json.render layout (.arr items) ++ Text.trimEnd q)) := by
    refine hmalformed (isProse_trimStart hp) (hshort.mono (List.dropWhile_suffix _).isInfix)
      fun hleft hright => ?_
    rw [Text.isBlank, List.all_append, Bool.and_eq_true]
    exact ⟨isBlank_of_trimStart hleft, isBlank_of_trimEnd hright⟩
  rw [candidates_prose rfl hfence hp hq, hslice]
  exact (firstReadable_of_malformed hwhole _).trans (firstReadable_of_malformed htrimmed _)

end

/-- **An array with prose around it is passed over for what stands between its outermost braces.**
It is read if and only if that is no JSON. If no string outside its objects holds a brace, that is
so unless the array holds just one object, which is then what is read. -/
theorem parseContent_array {layout : Json.Layout} {items : List Json}
    (hplain : (Json.arr items).isPlain = true)
    (hfence : Text.includes (Text.ofString "```") (Json.render layout (.arr items)) = false)
    {p q : Text} (hp : p.IsProse) (hq : q.IsProse) (hshort : p.HasShortNumbers)
    (hblank : Text.isBlank (p ++ q) = false) :
    (parseContent (p ++ Json.render layout (.arr items) ++ q) = .ok (.arr items)
      ↔ ∀ slice, outermost? '\x7b' '\x7d' (Json.render layout (.arr items)) = some slice →
        Json.IsMalformed slice)
    ∧ ((Json.arr items).hasObjectBraces = true →
      parseContent (p ++ Json.render layout (.arr items) ++ q) = .ok (recovered items)) := by
  rw [List.append_assoc, parseContent_eq_ok_iff, parseContent_eq_ok_iff,
    firstReadable_array hplain hfence hp hq hshort hblank]
  refine ⟨firstReadable_slice (read_written hplain rfl 0), fun hbraces => ?_⟩
  have hshows : Json.ShowsObjects layout (Json.render layout (.arr items))
      (Json.outermostObjectsOf items) := Json.showsObjects_written (.arr items) 0 hplain hbraces
  have hobjects := Json.isPlain_outermostObjectsOf items hplain
  rw [recovered]
  cases hcount : Json.outermostObjectsOf items with
  | nil =>
      rw [hcount] at hshows
      rw [outermost_none hshows]
      exact firstReadable_of_read (read_written hplain rfl 0) _
  | cons o rest =>
      rw [hcount] at hshows hobjects
      have ho := hobjects o List.mem_cons_self
      cases rest with
      | nil =>
          obtain ⟨hnested, level, hslice⟩ := outermost_sole hshows
          rw [hslice]
          exact firstReadable_of_read (read_written ho hnested level) _
      | cons o' more =>
          obtain ⟨hnested, level, rest, hslice, hrest⟩ := outermost_several hshows
          rw [hslice]
          have hmalformed : Json.IsMalformed ([] ++ (Json.written layout level o ++ rest)) :=
            Json.isMalformed_of_surrounded hnested (Json.isReadable_of_isPlain o ho)
              (Json.isScalar_of_isPlain o ho) level (List.forall_mem_nil _)
              (Text.hasShortNumbers_of_length (Nat.zero_le _)) fun _ => hrest
          exact (firstReadable_of_malformed hmalformed _).trans
            (firstReadable_of_read (read_written hplain rfl 0) _)

/-- An array that holds two objects, one of them in an inner array. -/
def twoItems : List Json :=
  [.arr [Json.object [("a", .int 1)]], Json.object [("b", .arr [])]]

/-- What stands from the first object to the last one is no JSON, so the array is read. -/
theorem twoItems_found :
    parseContent (Text.ofString "Result: " ++ (Json.arr twoItems).compact ++ Text.ofString " done")
      = .ok (.arr twoItems) :=
  (parseContent_array (by decide) (by decide) (by decide) (by decide)
    (Text.hasShortNumbers_of_length (by decide)) (by decide)).2 (by decide)

def soleItem : List Json :=
  [Json.object [("a", .int 1)]]

/-- The object is read in place of the array around it. -/
theorem soleItem_lost :
    parseContent (Text.ofString "Result: " ++ (Json.arr soleItem).compact ++ Text.ofString " done")
        = .ok (Json.object [("a", .int 1)])
      ∧ parseContent (Text.ofString "Result: " ++ (Json.arr soleItem).compact
          ++ Text.ofString " done") ≠ .ok (.arr soleItem) := by
  have hread : parseContent (Text.ofString "Result: " ++ (Json.arr soleItem).compact
      ++ Text.ofString " done") = .ok (Json.object [("a", .int 1)]) := by rfl
  refine ⟨hread, ?_⟩
  rw [hread]
  nofun

end Chat

end TaskContract
