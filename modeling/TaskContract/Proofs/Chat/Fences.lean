import TaskContract.Chat.Content
import TaskContract.Proofs.Json.Texts

/-!
# Fenced replies

Fences are taken out wherever they stand, so also out of the strings of the value in a reply. The
layout of a written value holds no fence, and what is escaped in a string cannot be part of one: the
reply is read as the value with the fences taken out of each of its texts.
-/

namespace TaskContract

namespace Chat

/-! ## Stretches taken out -/

section

variable (length? : Text → Option Nat)

/-- The text without the stretches whose lengths are told at their starts. -/
def removing (skip : Nat) : Text → Text
  | [] => []
  | c :: rest =>
    match skip with
    | n + 1 => removing n rest
    | 0 =>
      match length? (c :: rest) with
      | some n => removing (n - 1) rest
      | none => c :: removing 0 rest

theorem withoutFences_eq (skip : Nat) (t : Text) :
    withoutFences skip t = removing fenceLength? skip t := by
  induction t generalizing skip with
  | nil => rfl
  | cons c rest ih =>
      cases skip with
      | succ n => exact ih n
      | zero =>
          rw [withoutFences, removing]
          cases fenceLength? (c :: rest) with
          | none => exact congrArg (c :: ·) (ih 0)
          | some n => exact ih (n - 1)

theorem removing_skip (front t : Text) :
    removing length? front.length (front ++ t) = removing length? 0 t := by
  induction front with
  | nil => rfl
  | cons c rest ih => exact ih

theorem removing_sublist (skip : Nat) (t : Text) : (removing length? skip t).Sublist t := by
  induction t generalizing skip with
  | nil => exact List.Sublist.refl []
  | cons c rest ih =>
      cases skip with
      | succ n => exact (ih n).cons c
      | zero =>
          rw [removing]
          cases length? (c :: rest) with
          | none => exact (ih 0).cons_cons c
          | some n => exact (ih (n - 1)).cons c

variable {length?}

theorem removing_cons {c : CodePoint} {t : Text} (h : length? (c :: t) = none) :
    removing length? 0 (c :: t) = c :: removing length? 0 t := by
  rw [removing, h]

theorem removing_front {front t : Text} (hfront : front ≠ [])
    (h : length? (front ++ t) = some front.length) :
    removing length? 0 (front ++ t) = removing length? 0 t := by
  obtain ⟨c, rest, rfl⟩ := List.exists_cons_of_ne_nil hfront
  rw [List.cons_append] at h ⊢
  rw [removing, h]
  exact removing_skip length? rest t

end

/-! ## Where no fence begins -/

theorem startsWith_closing {c : CodePoint} {t : Text}
    (h : c ≠ CodePoint.ofChar '\n' ∨ t.head? ≠ some (CodePoint.ofChar '`')) :
    Text.startsWith (c :: t) (Text.ofString "\n```") = false := by
  rw [← Bool.not_eq_true, Text.startsWith, List.isPrefixOf_iff_prefix]
  rintro ⟨more, hmore⟩
  obtain ⟨rfl, ht⟩ := List.cons.inj hmore
  rcases h with h | h
  · exact h rfl
  · exact h (by rw [← ht]; rfl)

theorem fenceLength_eq_none {c : CodePoint} {t : Text} (hc : c ≠ CodePoint.ofChar '`')
    (h : c ≠ CodePoint.ofChar '\n' ∨ t.head? ≠ some (CodePoint.ofChar '`')) :
    fenceLength? (c :: t) = none := by
  have hopening : Text.dropFront? (c :: t) (Text.ofString "```") = none := if_neg hc
  rw [fenceLength?, hopening]
  dsimp only
  rw [startsWith_closing h]
  rfl

/-- No part of the text is part of a fence, whatever stands around it. -/
def IsQuiet (t : Text) : Prop :=
  ∀ c ∈ t, c ≠ CodePoint.ofChar '`' ∧ c ≠ CodePoint.ofChar '\n'

instance (t : Text) : Decidable (IsQuiet t) :=
  inferInstanceAs (Decidable (∀ c ∈ t, _))

theorem withoutFences_cons {c : CodePoint} {t : Text} (h : fenceLength? (c :: t) = none) :
    withoutFences 0 (c :: t) = c :: withoutFences 0 t := by
  rw [withoutFences_eq, withoutFences_eq, removing_cons h]

theorem withoutFences_quiet {t : Text} (h : IsQuiet t) (tail : Text) :
    withoutFences 0 (t ++ tail) = t ++ withoutFences 0 tail := by
  induction t with
  | nil => rfl
  | cons c rest ih =>
      obtain ⟨⟨hfence, hline⟩, hrest⟩ := List.forall_mem_cons.mp h
      rw [List.cons_append, withoutFences_cons (fenceLength_eq_none hfence (Or.inl hline)),
        ih hrest, List.cons_append]

theorem isQuiet_ofInt (n : Int) : IsQuiet (Text.ofInt n) := by
  refine Text.forall_mem_ofInt (by decide) ?_ n
  intro c hdigit
  constructor
  · rintro rfl
    exact absurd hdigit (by decide)
  · rintro rfl
    exact absurd hdigit (by decide)

theorem head_cons_ne {c : CodePoint} (hc : c ≠ CodePoint.ofChar '`') (t : Text) :
    (c :: t).head? ≠ some (CodePoint.ofChar '`') := by
  intro h
  exact hc (Option.some.inj h)

section

variable {layout : Json.Layout} {tail : Text}

/-- A line feed in a layout belongs to no fence, as blanks or a value stand behind it. -/
theorem withoutFences_indentation (level : Nat)
    (h : tail.head? ≠ some (CodePoint.ofChar '`')) :
    withoutFences 0 (Json.indentation level ++ tail)
      = Json.indentation level ++ withoutFences 0 tail := by
  have hblanks : IsQuiet (List.replicate (2 * level) (CodePoint.ofChar ' ')) := by
    intro c hc
    rw [List.eq_of_mem_replicate hc]
    decide
  have hhead : (List.replicate (2 * level) (CodePoint.ofChar ' ') ++ tail).head?
      ≠ some (CodePoint.ofChar '`') := by
    cases 2 * level with
    | zero => exact h
    | succ n => exact head_cons_ne (by decide) _
  rw [Json.indentation, List.cons_append,
    withoutFences_cons (fenceLength_eq_none (by decide) (Or.inr hhead)),
    withoutFences_quiet hblanks, List.cons_append]

theorem withoutFences_break (level : Nat) (h : tail.head? ≠ some (CodePoint.ofChar '`')) :
    withoutFences 0 (layout.break level ++ tail)
      = layout.break level ++ withoutFences 0 tail := by
  rw [Json.Layout.break]
  split
  · exact withoutFences_indentation level h
  · rfl

theorem withoutFences_separator (level : Nat)
    (h : tail.head? ≠ some (CodePoint.ofChar '`')) :
    withoutFences 0 (layout.separator level ++ tail)
      = layout.separator level ++ withoutFences 0 tail := by
  rw [Json.Layout.separator]
  split
  · rw [List.cons_append,
      withoutFences_cons (fenceLength_eq_none (by decide) (Or.inl (by decide))),
      withoutFences_indentation level h, List.cons_append]
  · split
    · exact withoutFences_quiet (by decide) tail
    · exact withoutFences_quiet (by decide) tail

theorem withoutFences_colon (tail : Text) :
    withoutFences 0 (layout.colon ++ tail) = layout.colon ++ withoutFences 0 tail := by
  rw [Json.Layout.colon]
  split
  · exact withoutFences_quiet (by decide) tail
  · exact withoutFences_quiet (by decide) tail

end

/-! ## Fences in a string -/

/-- The text as it stands between the quotes of a string in ASCII. -/
def escaped (s : Text) : Text :=
  s.flatMap (Text.jsonCodePoint true)

theorem jsonString_append (s tail : Text) : Text.jsonString true s ++ tail
    = CodePoint.ofChar '"' :: (escaped s ++ CodePoint.ofChar '"' :: tail) := by
  simp [Text.jsonString, escaped]

/-- Does every code point of the text stand for itself in a string? -/
def StandsForItself (t : Text) : Prop :=
  ∀ c ∈ t, Text.jsonCodePoint true c = [c]

instance (t : Text) : Decidable (StandsForItself t) :=
  inferInstanceAs (Decidable (∀ c ∈ t, _))

theorem escaped_append {front : Text} (h : StandsForItself front) (s : Text) :
    escaped (front ++ s) = front ++ escaped s := by
  rw [escaped, List.flatMap_append, List.flatMap_congr h, List.flatMap_singleton']
  rfl

theorem isQuiet_unitEscape {n : Nat} (hn : n < 0x10000) : IsQuiet (Text.unitEscape n) :=
  Text.forall_mem_unitEscape (by decide) (by decide) hn

/-- A code point stands for itself or is escaped behind a backslash, where no fence can be. -/
theorem jsonCodePoint_escape (c : CodePoint) :
    (Text.jsonCodePoint true c = [c] ∧ 0x20 ≤ c.val ∧ c.val < 0x7F)
      ∨ ∃ more, Text.jsonCodePoint true c = CodePoint.ofChar '\\' :: more
        ∧ IsQuiet (CodePoint.ofChar '\\' :: more) := by
  have hc := c.isLt
  fun_cases Text.jsonCodePoint true c with
  | case1 | case2 | case3 | case4 | case5 | case6 | case7 =>
      exact Or.inr ⟨_, rfl, by decide⟩
  | case8 | case9 => exact Or.inr ⟨_, rfl, isQuiet_unitEscape (by omega)⟩
  | case10 _ _ _ _ _ _ _ _ _ _ n =>
      refine Or.inr ⟨_, Text.unitEscape_append _ _, ?_⟩
      rw [← Text.unitEscape_append]
      exact List.forall_mem_append.mpr
        ⟨isQuiet_unitEscape (by omega), isQuiet_unitEscape (by omega)⟩
  | case11 _ _ _ _ _ _ _ hcontrol hascii =>
      have hsmall : ¬0x7F ≤ c.val := by simpa using hascii
      exact Or.inl ⟨rfl, by omega, by omega⟩

theorem escaped_cons (c : CodePoint) (s : Text) :
    escaped (c :: s) = Text.jsonCodePoint true c ++ escaped s :=
  List.flatMap_cons

/-- A word that stands for itself is in front of a string if and only if it is in front of the
text. -/
theorem dropFront_escaped {w : Text} (hw : StandsForItself w) (s tail : Text) :
    Text.dropFront? (escaped s ++ CodePoint.ofChar '"' :: tail) w
      = (s.dropFront? w).map fun rest => escaped rest ++ CodePoint.ofChar '"' :: tail := by
  induction w generalizing s with
  | nil =>
      unfold Text.dropFront?
      rfl
  | cons d front ih =>
      obtain ⟨hd, hfront⟩ := List.forall_mem_cons.mp hw
      have hquote : CodePoint.ofChar '"' ≠ d := by
        rintro rfl
        exact absurd hd (by decide)
      have hslash : CodePoint.ofChar '\\' ≠ d := by
        rintro rfl
        exact absurd hd (by decide)
      -- the quote at the end and the backslash of an escape are not in the word
      cases s with
      | nil => exact if_neg hquote
      | cons c rest =>
          rw [escaped_cons, Text.dropFront?]
          rcases jsonCodePoint_escape c with ⟨hself, -⟩ | ⟨more, hescape, -⟩
          · rw [hself, List.cons_append, List.nil_append, List.cons_append, Text.dropFront?]
            by_cases hc : c = d
            · rw [if_pos hc, if_pos hc, ih hfront]
            · rw [if_neg hc, if_neg hc]
              rfl
          · have hc : c ≠ d := by
              rintro rfl
              rw [hd] at hescape
              exact hslash (List.cons.inj hescape).1.symm
            rw [hescape, List.cons_append, List.cons_append, Text.dropFront?, if_neg hslash,
              if_neg hc]
            rfl

/-- The only blanks in a string are spaces. -/
theorem dropWhile_escaped (s tail : Text) :
    (escaped s ++ CodePoint.ofChar '"' :: tail).dropWhile CodePoint.isBlank
      = escaped (s.dropWhile (· = CodePoint.ofChar ' ')) ++ CodePoint.ofChar '"' :: tail := by
  induction s with
  | nil => rfl
  | cons c rest ih =>
      by_cases hspace : c = CodePoint.ofChar ' '
      · subst hspace
        exact ih
      · have hblank : 0x20 ≤ c.val → c.val < 0x7F → ¬c.isBlank = true := by
          intro hlow hhigh
          have hval : c.val ≠ 0x20 := fun h => hspace (by cases c; cases h; rfl)
          simp only [CodePoint.isBlank, Bool.or_eq_true, Bool.and_eq_true, decide_eq_true_eq]
          omega
        rw [List.dropWhile_cons_of_neg (by simpa using hspace), escaped_cons]
        rcases jsonCodePoint_escape c with ⟨hself, hlow, hhigh⟩ | ⟨more, hescape, -⟩
        · rw [hself, List.cons_append, List.nil_append, List.cons_append]
          exact List.dropWhile_cons_of_neg (hblank hlow hhigh)
        · rw [hescape, List.cons_append, List.cons_append]
          rfl

/-- The number of code points that a fence takes out of a text in a string: the opening fence with
its language and the spaces behind it. Other blanks are escaped there, and a line feed in front of a
closing fence is too. -/
def innerFence? (s : Text) : Option Nat :=
  (s.dropFront? (Text.ofString "```")).map fun rest =>
    let rest := (rest.dropFront? (Text.ofString "json")).getD rest
    s.length - (rest.dropWhile (· = CodePoint.ofChar ' ')).length

/-- The text without the fences that are found in it when it stands in a string. -/
def unfenced (s : Text) : Text :=
  removing innerFence? 0 s

theorem escaped_head (s tail : Text) : ∃ c rest,
    escaped s ++ CodePoint.ofChar '"' :: tail = c :: rest ∧ c ≠ CodePoint.ofChar '\n' := by
  cases s with
  | nil => exact ⟨_, _, rfl, by decide⟩
  | cons c rest =>
      rw [escaped_cons]
      rcases jsonCodePoint_escape c with ⟨hself, hprintable, -⟩ | ⟨more, hescape, -⟩
      · rw [hself]
        refine ⟨c, _, rfl, ?_⟩
        rintro rfl
        exact absurd hprintable (by decide)
      · rw [hescape]
        exact ⟨_, _, rfl, by decide⟩

/-- The language behind a fence in a string, if it is there, is that behind the fence in the
text. -/
theorem language_escaped (behind tail : Text) : ∃ word inner, StandsForItself word
    ∧ behind = word ++ inner
    ∧ (behind.dropFront? (Text.ofString "json")).getD behind = inner
    ∧ (Text.dropFront? (escaped behind ++ CodePoint.ofChar '"' :: tail)
          (Text.ofString "json")).getD (escaped behind ++ CodePoint.ofChar '"' :: tail)
        = escaped inner ++ CodePoint.ofChar '"' :: tail := by
  rw [dropFront_escaped (by decide)]
  cases h : behind.dropFront? (Text.ofString "json") with
  | none => exact ⟨[], behind, by decide, rfl, rfl, rfl⟩
  | some inner => exact ⟨_, inner, by decide, Text.eq_append_of_dropFront h, rfl, rfl⟩

/-- What a fence takes out of a string is what it takes out of the text, and stands for itself. -/
theorem fenceLength_escaped (s tail : Text) :
    (innerFence? s = none
        ∧ fenceLength? (escaped s ++ CodePoint.ofChar '"' :: tail) = none)
      ∨ ∃ front rest, s = front ++ rest ∧ front ≠ [] ∧ StandsForItself front
        ∧ innerFence? s = some front.length
        ∧ fenceLength? (escaped s ++ CodePoint.ofChar '"' :: tail) = some front.length := by
  have hopening := dropFront_escaped (w := Text.ofString "```") (by decide) s tail
  rw [innerFence?, fenceLength?, hopening]
  cases hfence : s.dropFront? (Text.ofString "```") with
  | none =>
      obtain ⟨c, rest, hhead, hc⟩ := escaped_head s tail
      left
      rw [hhead]
      exact ⟨rfl, if_neg (by rw [startsWith_closing (Or.inl hc)]; exact Bool.false_ne_true)⟩
  | some behind =>
      -- marks, language and blanks are escaped as they are, so both measure the same front
      obtain ⟨word, inner, hword, hbehind, hinner, hescaped⟩ := language_escaped behind tail
      have hspaces : StandsForItself (inner.takeWhile (· = CodePoint.ofChar ' ')) := by
        intro c hc
        obtain rfl : c = CodePoint.ofChar ' ' := by simpa using List.mem_takeWhile_imp hc
        decide
      have hfront : StandsForItself
          (Text.ofString "```" ++ (word ++ inner.takeWhile (· = CodePoint.ofChar ' '))) :=
        List.forall_mem_append.mpr ⟨by decide, List.forall_mem_append.mpr ⟨hword, hspaces⟩⟩
      have hs : s = (Text.ofString "```" ++ (word ++ inner.takeWhile (· = CodePoint.ofChar ' ')))
          ++ inner.dropWhile (· = CodePoint.ofChar ' ') := by
        rw [Text.eq_append_of_dropFront hfence, hbehind, List.append_assoc, List.append_assoc,
          List.takeWhile_append_dropWhile]
      refine Or.inr ⟨_, _, hs, List.append_ne_nil_of_left_ne_nil (by decide) _, hfront, ?_, ?_⟩
      · dsimp only [Option.map_some]
        rw [hinner, Option.some_inj]
        have hlength := congrArg List.length hs
        rw [List.length_append] at hlength
        omega
      · dsimp only [Option.map_some]
        rw [hescaped, dropWhile_escaped, Option.some_inj]
        have hlength := congrArg (fun t => (escaped t).length) hs
        rw [escaped_append hfront, List.length_append] at hlength
        simp only [List.length_append] at hlength ⊢
        omega

/-- Fences are taken out of a string as they are taken out of its text, by induction on its
length. -/
theorem withoutFences_escaped (s tail : Text) :
    withoutFences 0 (escaped s ++ CodePoint.ofChar '"' :: tail)
      = escaped (unfenced s) ++ CodePoint.ofChar '"' :: withoutFences 0 tail := by
  induction hn : s.length using Nat.strongRecOn generalizing s with
  | ind n ih =>
      rcases fenceLength_escaped s tail with ⟨hinner, hfence⟩
        | ⟨front, rest, rfl, hne, hself, hinner, hfence⟩
      · cases s with
        | nil => exact withoutFences_cons hfence
        | cons c rest =>
            have hrest := ih rest.length (by rw [← hn]; exact Nat.lt_succ_self _) rest rfl
            rw [unfenced, removing_cons hinner, escaped_cons, escaped_cons]
            rcases jsonCodePoint_escape c with ⟨hself, -⟩ | ⟨more, hescape, hquiet⟩
            · rw [escaped_cons, hself, List.append_assoc, List.singleton_append] at hfence
              rw [hself, List.append_assoc, List.singleton_append, withoutFences_cons hfence,
                hrest]
              rfl
            -- an escape is passed as a whole, as no fence begins inside it
            · rw [hescape, List.append_assoc, withoutFences_quiet hquiet, hrest,
                List.append_assoc]
              rfl
      · have hrest := ih rest.length
          (by rw [← hn, List.length_append]; have := List.length_pos_iff.mpr hne; omega) rest rfl
        rw [escaped_append hself, List.append_assoc] at hfence ⊢
        rw [withoutFences_eq, removing_front hne hfence, ← withoutFences_eq, hrest, unfenced,
          unfenced, removing_front hne hinner]

theorem head_jsonString (s tail : Text) :
    (Text.jsonString true s ++ tail).head? ≠ some (CodePoint.ofChar '`') := by
  rw [jsonString_append]
  exact head_cons_ne (by decide) _

theorem withoutFences_jsonString (s tail : Text) :
    withoutFences 0 (Text.jsonString true s ++ tail)
      = Text.jsonString true (unfenced s) ++ withoutFences 0 tail := by
  rw [jsonString_append, jsonString_append,
    withoutFences_cons (fenceLength_eq_none (by decide) (Or.inl (by decide))),
    withoutFences_escaped]

/-! ## Texts that hold no fence -/

theorem isSome_dropFront (t w : Text) : (t.dropFront? w).isSome = w.isPrefixOf t := by
  fun_induction Text.dropFront? t w with
  | case1 => rfl
  | case2 => rfl
  | case3 c t front ih => rw [ih, List.isPrefixOf, beq_self_eq_true, Bool.true_and]
  | case4 c t d front h => simp [List.isPrefixOf, Ne.symm h]

theorem isSome_find_go (needle t : Text) (offset other : Nat) :
    (Text.find?.go needle offset t).isSome = (Text.find?.go needle other t).isSome := by
  induction t generalizing offset other with
  | nil =>
      rw [Text.find?.go, Text.find?.go]
      split <;> rfl
  | cons c rest ih =>
      rw [Text.find?.go, Text.find?.go]
      split
      · rfl
      · exact ih _ _

theorem includes_cons (needle : Text) (c : CodePoint) (rest : Text) :
    Text.includes needle (c :: rest)
      = (needle.isPrefixOf (c :: rest) || Text.includes needle rest) := by
  rw [Text.includes, Text.includes, Text.find?, Text.find?, Text.find?.go]
  cases needle.isPrefixOf (c :: rest) with
  | true => rfl
  | false =>
      rw [Bool.false_or, if_neg Bool.false_ne_true]
      exact isSome_find_go _ _ _ _

/-- Fences are taken out of a text in a string if and only if the text holds one. -/
theorem unfenced_eq_self_iff (s : Text) :
    unfenced s = s ↔ Text.includes (Text.ofString "```") s = false := by
  induction s with
  | nil => exact ⟨fun _ => rfl, fun _ => rfl⟩
  | cons c rest ih =>
      have hhere : (innerFence? (c :: rest)).isSome
          = (Text.ofString "```").isPrefixOf (c :: rest) := by
        rw [← isSome_dropFront, innerFence?, Option.isSome_map]
      rw [includes_cons, ← hhere]
      cases h : innerFence? (c :: rest) with
      | none =>
          rw [unfenced, removing_cons h, List.cons_inj_right, Option.isSome_none, Bool.false_or]
          exact ih
      | some n =>
          have hshorter : (removing innerFence? (n - 1) rest).length ≤ rest.length :=
            (removing_sublist innerFence? (n - 1) rest).length_le
          constructor
          · intro hsame
            rw [unfenced, removing, h] at hsame
            have hlength := congrArg List.length hsame
            rw [List.length_cons] at hlength
            dsimp only at hlength
            omega
          · intro hnone
            cases hnone

/-! ## Fences in a written value -/

theorem readValue_backtick (fuel : Nat) (t : Text) :
    Json.readValue (fuel + 1) (CodePoint.ofChar '`' :: t)
      = .error (.fault .expectingValue (CodePoint.ofChar '`' :: t)) :=
  rfl

theorem head_written {layout : Json.Layout} {v : Json} (h : v.isPlain = true) (level : Nat)
    (tail : Text) :
    (Json.written layout level v ++ tail).head? ≠ some (CodePoint.ofChar '`') := by
  have hreads : Json.Reads layout v := Json.reads_of_numbersFit v
    (Json.fits_of_isReadable v (Json.isReadable_of_isPlain v h)).1 (Json.isScalar_of_isPlain v h)
  obtain ⟨c, t, hfront, -⟩ := hreads.begins level
  have hvalue := hreads.value level (t.length + 1) [] (by rw [hfront]; exact Nat.le_refl _) nofun
  rw [hfront] at hvalue ⊢
  intro hhead
  obtain rfl := Option.some.inj hhead
  rw [List.cons_append, readValue_backtick] at hvalue
  cases hvalue

section

variable {layout : Json.Layout}

mutual

/-- Fences are taken out of the texts in a written value and nowhere else, by induction on the
value. -/
theorem withoutFences_written (hascii : layout.ascii = true) :
    ∀ (v : Json) (level : Nat) (tail : Text), v.isPlain = true →
      withoutFences 0 (Json.written layout level v ++ tail)
        = Json.written layout level (v.mapTexts unfenced) ++ withoutFences 0 tail
  | .null, _, _, _ => withoutFences_quiet (t := Text.ofString "null") (by decide) _
  | .bool false, _, _, _ => withoutFences_quiet (t := Text.ofString "false") (by decide) _
  | .bool true, _, _, _ => withoutFences_quiet (t := Text.ofString "true") (by decide) _
  | .int n, level, _, _ => by
      rw [Json.mapTexts, Json.written_int]
      exact withoutFences_quiet (isQuiet_ofInt n) _
  | .str s, level, _, _ => by
      rw [Json.mapTexts, Json.written_str, Json.written_str, hascii, withoutFences_jsonString]
  | .arr [], _, _, _ => withoutFences_quiet (t := Text.ofString "[]") (by decide) _
  | .arr (v :: rest), level, tail, h => by
      obtain ⟨hv, hrest⟩ := Bool.and_eq_true_iff.mp h
      rw [Json.mapTexts, Json.mapTextsOfItems, Json.written_arr, Json.written_arr]
      simp only [List.cons_append, List.append_assoc, List.nil_append]
      rw [withoutFences_cons (fenceLength_eq_none (by decide) (Or.inl (by decide))),
        withoutFences_break _ (head_written hv _ _), withoutFences_written hascii v _ _ hv,
        withoutFences_writtenItems hascii rest _ _ hrest,
        withoutFences_break _ (head_cons_ne (by decide) _),
        withoutFences_cons (fenceLength_eq_none (by decide) (Or.inl (by decide)))]
  | .obj [], _, _, _ => withoutFences_quiet (t := Text.ofString "\x7b\x7d") (by decide) _
  | .obj ((k, v) :: rest), level, tail, h => by
      simp only [Json.isPlain, Json.arePlainMembers, Bool.and_eq_true] at h
      obtain ⟨⟨-, hv⟩, hrest⟩ := h
      rw [Json.mapTexts, Json.mapTextsOfMembers, Json.written_obj, Json.written_obj, hascii]
      simp only [List.cons_append, List.append_assoc, List.nil_append]
      rw [withoutFences_cons (fenceLength_eq_none (by decide) (Or.inl (by decide))),
        withoutFences_break _ (head_jsonString _ _), withoutFences_jsonString,
        withoutFences_colon, withoutFences_written hascii v _ _ hv,
        withoutFences_writtenMembers hascii rest _ _ hrest,
        withoutFences_break _ (head_cons_ne (by decide) _),
        withoutFences_cons (fenceLength_eq_none (by decide) (Or.inl (by decide)))]

theorem withoutFences_writtenItems (hascii : layout.ascii = true) :
    ∀ (items : List Json) (level : Nat) (tail : Text), Json.arePlain items = true →
      withoutFences 0 (Json.writtenItems layout level items ++ tail)
        = Json.writtenItems layout level (Json.mapTextsOfItems unfenced items)
          ++ withoutFences 0 tail
  | [], _, _, _ => rfl
  | v :: rest, level, tail, h => by
      obtain ⟨hv, hrest⟩ := Bool.and_eq_true_iff.mp h
      rw [Json.mapTextsOfItems, Json.writtenItems_cons, Json.writtenItems_cons]
      simp only [List.append_assoc]
      rw [withoutFences_separator _ (head_written hv _ _), withoutFences_written hascii v _ _ hv,
        withoutFences_writtenItems hascii rest _ _ hrest]

theorem withoutFences_writtenMembers (hascii : layout.ascii = true) :
    ∀ (ms : List (Text × Json)) (level : Nat) (tail : Text), Json.arePlainMembers ms = true →
      withoutFences 0 (Json.writtenMembers layout level ms ++ tail)
        = Json.writtenMembers layout level (Json.mapTextsOfMembers unfenced ms)
          ++ withoutFences 0 tail
  | [], _, _, _ => rfl
  | (k, v) :: rest, level, tail, h => by
      simp only [Json.arePlainMembers, Bool.and_eq_true] at h
      obtain ⟨⟨-, hv⟩, hrest⟩ := h
      rw [Json.mapTextsOfMembers, Json.writtenMembers_cons, Json.writtenMembers_cons, hascii]
      simp only [List.append_assoc]
      rw [withoutFences_separator _ (head_jsonString _ _),
        withoutFences_jsonString, withoutFences_colon, withoutFences_written hascii v _ _ hv,
        withoutFences_writtenMembers hascii rest _ _ hrest]

end

end

/-! ## Replies in a fence -/

end Chat

theorem Text.trim_between {opening closing : CodePoint} (hopening : opening.isBlank = false)
    (hclosing : closing.isBlank = false) (p body q : Text) :
    Text.trim (p ++ (opening :: (body ++ [closing]) ++ q))
      = Text.trimStart p ++ (opening :: (body ++ [closing]) ++ Text.trimEnd q) := by
  have hfront : ∀ {c : CodePoint}, c.isBlank = false → ∀ s t : Text,
      (s ++ c :: t).dropWhile CodePoint.isBlank = s.dropWhile CodePoint.isBlank ++ c :: t := by
    intro c hc s t
    rw [List.dropWhile_append, List.dropWhile_cons_of_neg (by rw [hc]; exact Bool.false_ne_true)]
    split
    · rename_i hempty
      rw [List.isEmpty_iff.mp hempty, List.nil_append]
    · rfl
  have hstart : Text.trimStart (p ++ (opening :: (body ++ [closing]) ++ q))
      = Text.trimStart p ++ opening :: body ++ closing :: q := by
    rw [Text.trimStart, List.cons_append, hfront hopening]
    simp [Text.trimStart]
  rw [Text.trim, hstart, Text.trimEnd, List.reverse_append, List.reverse_cons, List.append_assoc,
    List.singleton_append, hfront hclosing, List.reverse_append, List.reverse_cons,
    List.reverse_reverse]
  simp [Text.trimEnd]

theorem Text.trim_of_ends {opening closing : CodePoint} (hopening : opening.isBlank = false)
    (hclosing : closing.isBlank = false) (body : Text) :
    Text.trim (opening :: (body ++ [closing])) = opening :: (body ++ [closing]) := by
  have hbetween : Text.trim ([] ++ (opening :: (body ++ [closing]) ++ []))
      = [] ++ (opening :: (body ++ [closing]) ++ []) := Text.trim_between hopening hclosing [] body []
  rwa [List.nil_append, List.append_nil] at hbetween

namespace Chat

theorem withoutFences_opening {opening : Text}
    (h : opening ∈ [Text.ofString "```\n", Text.ofString "```json\n"]) {c : CodePoint}
    (hc : c.isBlank = false) (t : Text) :
    withoutFences 0 (opening ++ c :: t) = withoutFences 0 (c :: t) := by
  have hdrop : List.dropWhile CodePoint.isBlank (CodePoint.ofChar '\n' :: c :: t) = c :: t := by
    rw [List.dropWhile_cons_of_pos (by decide)]
    exact List.dropWhile_cons_of_neg (by rw [hc]; exact Bool.false_ne_true)
  have hfence : fenceLength? (opening ++ c :: t) = some opening.length := by
    rcases List.mem_pair.mp h with rfl | rfl
    · show some ((Text.ofString "```\n" ++ c :: t).length
        - (List.dropWhile CodePoint.isBlank (CodePoint.ofChar '\n' :: c :: t)).length) = _
      rw [hdrop, List.length_append, Nat.add_sub_cancel]
    · show some ((Text.ofString "```json\n" ++ c :: t).length
        - (List.dropWhile CodePoint.isBlank (CodePoint.ofChar '\n' :: c :: t)).length) = _
      rw [hdrop, List.length_append, Nat.add_sub_cancel]
  have hne : opening ≠ [] := by
    rintro rfl
    exact absurd h (by decide)
  rw [withoutFences_eq, removing_front hne hfence, ← withoutFences_eq]

theorem read_opening {opening : Text}
    (h : opening ∈ [Text.ofString "```\n", Text.ofString "```json\n"]) (t : Text) :
    ∃ fault place, Json.read (opening ++ t) = .error (.malformed fault (opening ++ t) place) := by
  obtain ⟨rest, rfl⟩ : ∃ rest, opening = CodePoint.ofChar '`' :: rest := by
    rcases List.mem_pair.mp h with rfl | rfl
    · exact ⟨_, rfl⟩
    · exact ⟨_, rfl⟩
  exact ⟨_, _, rfl⟩

theorem isScalar_unfenced (s : Text) (h : s.isScalar = true) : (unfenced s).isScalar = true := by
  rw [Text.isScalar, List.all_eq_true] at h ⊢
  intro c hc
  exact h c ((removing_sublist innerFence? 0 s).subset hc)

/-- The second candidate of a fenced value is the value with the fences taken out of its texts. -/
theorem trim_withoutFences_fenced {layout : Json.Layout} (hascii : layout.ascii = true) {v : Json}
    (hplain : v.isPlain = true) (hnested : v.isNested = true) {opening : Text}
    (hopening : opening ∈ [Text.ofString "```\n", Text.ofString "```json\n"]) :
    Text.trim (withoutFences 0 (opening ++ Json.render layout v ++ Text.ofString "\n```"))
      = Json.render layout (v.mapTexts unfenced) := by
  obtain ⟨first, body, last, hwritten, hfirst, -⟩ := Json.written_brackets layout 0 hnested
  have hinner : withoutFences 0 (Json.render layout v ++ Text.ofString "\n```")
      = Json.render layout (v.mapTexts unfenced) ++ [] :=
    withoutFences_written hascii v 0 (Text.ofString "\n```") hplain
  have houter : withoutFences 0 (opening ++ Json.render layout v ++ Text.ofString "\n```")
      = withoutFences 0 (Json.render layout v ++ Text.ofString "\n```") := by
    rw [show Json.render layout v = first :: (body ++ [last]) from hwritten, List.append_assoc,
      List.cons_append]
    exact withoutFences_opening hopening hfirst _
  obtain ⟨c, rest, d, hleft, hc, hd⟩ :=
    Json.written_brackets layout 0 ((Json.isNested_mapTexts unfenced v).trans hnested)
  rw [houter, hinner, List.append_nil,
    show Json.render layout (v.mapTexts unfenced) = c :: (rest ++ [d]) from hleft]
  exact Text.trim_of_ends hc hd rest

/-- **A fenced value is read with the fences taken out of its texts**, the names of members among
them, and it is read as it was if and only if no text in it holds a fence. -/
theorem parseContent_fenced {v : Json} (hplain : v.isPlain = true) (hnested : v.isNested = true)
    {opening body : Text}
    (hopening : opening ∈ [Text.ofString "```\n", Text.ofString "```json\n"])
    (hbody : body ∈ [v.compact, v.prettyAscii]) :
    parseContent (opening ++ body ++ Text.ofString "\n```") = .ok (v.mapTexts unfenced).merged
      ∧ (parseContent (opening ++ body ++ Text.ofString "\n```") = .ok v
        ↔ v.allTexts (fun s => !Text.includes (Text.ofString "```") s) = true) := by
  obtain ⟨layout, hascii, rfl⟩ : ∃ layout : Json.Layout, layout.ascii = true
      ∧ body = Json.render layout v := by
    rcases List.mem_pair.mp hbody with rfl | rfl
    · exact ⟨{ ascii := true }, rfl, rfl⟩
    · exact ⟨{ ascii := true, indented := true }, rfl, rfl⟩
  obtain ⟨hfit, hmerged⟩ := Json.fits_of_isReadable v (Json.isReadable_of_isPlain v hplain)
  have hscalar : (v.mapTexts unfenced).isScalar = true :=
    Json.allTexts_mapTexts isScalar_unfenced v (Json.isScalar_of_isPlain v hplain)
  have hread : Json.read (Json.render layout (v.mapTexts unfenced))
      = .ok (v.mapTexts unfenced).merged := by
    have hrender := Json.read_render_merged layout
      ((Json.numbersFit_mapTexts unfenced v).trans hfit) hscalar (List.forall_mem_nil _)
    rwa [List.append_nil] at hrender
  have hparse : parseContent (opening ++ Json.render layout v ++ Text.ofString "\n```")
      = .ok (v.mapTexts unfenced).merged := by
    -- the first candidate is the whole text, and the second is the one that is read
    obtain ⟨fault, place, hfault⟩ := read_opening hopening
      (Json.render layout v ++ Text.ofString "\n```")
    rw [← List.append_assoc] at hfault
    rw [parseContent, candidates, trim_withoutFences_fenced hascii hplain hnested hopening]
    simp only [List.cons_append, firstReadable?, hfault, hread]
  refine ⟨hparse, ?_⟩
  have hsame : (fun s => decide (unfenced s = s))
      = fun s => !Text.includes (Text.ofString "```") s := by
    funext s
    rw [Bool.eq_iff_iff, decide_eq_true_iff, unfenced_eq_self_iff, Bool.not_eq_true']
  rw [hparse, Except.ok.injEq, Json.merged_mapTexts_eq_iff hmerged, hsame]

def fenceExample : Json :=
  Json.object [("a", Json.ofString "```x")]

/-- The fence in the text is lost together with the fences around the value. -/
theorem fenceExample_lost :
    parseContent (Text.ofString "```json\n" ++ fenceExample.compact ++ Text.ofString "\n```")
        = .ok (Json.object [("a", Json.ofString "x")])
      ∧ parseContent (Text.ofString "```json\n" ++ fenceExample.compact
          ++ Text.ofString "\n```") ≠ .ok fenceExample := by
  obtain ⟨hread, hsame⟩ := parseContent_fenced (v := fenceExample) (by decide) rfl
    (List.mem_cons_of_mem _ List.mem_cons_self) List.mem_cons_self
  refine ⟨hread, ?_⟩
  intro h
  exact absurd (hsame.mp h) (by decide)

end Chat

end TaskContract
