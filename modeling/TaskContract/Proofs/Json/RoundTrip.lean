import TaskContract.Proofs.Json.Decimals
import TaskContract.Proofs.Json.Written

/-!
# Values read back

A value that is written in some layout is read back as it was, if its texts hold no surrogate and it
is one that a reader can give: its integers are not too long, its floating-point numbers are those
of the format, and no object names a member twice. A value in which names stand twice is read with
the members of one name merged. The reader takes the text of a value off the front and leaves what
stands behind it; the layouts only differ in blanks, which the reader skips.
-/

namespace TaskContract

/-! ## Members -/

namespace Members

theorem has_eq_false_iff {name : Text} {ms : Members} :
    ms.has name = false ↔ name ∉ ms.map Prod.fst := by
  induction ms with
  | nil => exact ⟨fun _ => List.not_mem_nil, fun _ => rfl⟩
  | cons m rest ih =>
      obtain ⟨k, w⟩ := m
      rw [has, get?, List.map_cons, List.mem_cons, not_or]
      by_cases hk : k = name
      · rw [if_pos hk]
        exact ⟨nofun, fun h => absurd hk.symm h.1⟩
      · rw [if_neg hk]
        exact ih.trans ⟨fun h => ⟨Ne.symm hk, h⟩, And.right⟩

/-- A member is set behind the others if its name is new, and else the names stay as they are. -/
theorem insert_cases (name : Text) (v : Json) (ms : Members) :
    (name ∉ ms.map Prod.fst ∧ ms.insert name v = ms ++ [(name, v)])
      ∨ (name ∈ ms.map Prod.fst ∧ (ms.insert name v).map Prod.fst = ms.map Prod.fst) := by
  induction ms with
  | nil => exact Or.inl ⟨List.not_mem_nil, rfl⟩
  | cons m rest ih =>
      obtain ⟨k, w⟩ := m
      rw [insert]
      by_cases hk : k = name
      · rw [if_pos hk, hk]
        exact Or.inr ⟨List.mem_cons_self, rfl⟩
      · rw [if_neg hk, List.map_cons, List.mem_cons, not_or]
        rcases ih with ⟨hnew, hinsert⟩ | ⟨hold, hnames⟩
        · rw [hinsert]
          exact Or.inl ⟨⟨Ne.symm hk, hnew⟩, rfl⟩
        · rw [List.map_cons, hnames]
          exact Or.inr ⟨Or.inr hold, rfl⟩

theorem foldl_insert_cons (k : Text) (v : Json) (rest before : Members) :
    ((k, v) :: rest).foldl (fun ms (k, v) => insert k v ms) before
      = rest.foldl (fun ms (k, v) => insert k v ms) (insert k v before) :=
  rfl

/-- Members are set one behind another if no name stands twice. -/
theorem foldl_insert_of_nodup {before pairs : Members}
    (h : ((before ++ pairs).map Prod.fst).Nodup) :
    pairs.foldl (fun ms (k, v) => insert k v ms) before = before ++ pairs := by
  induction pairs generalizing before with
  | nil => exact (List.append_nil before).symm
  | cons m rest ih =>
      obtain ⟨k, v⟩ := m
      rw [foldl_insert_cons]
      rcases insert_cases k v before with ⟨-, hinsert⟩ | ⟨hold, -⟩
      · rw [List.append_cons] at h ⊢
        rw [hinsert, ih h]
      · rw [List.map_append] at h
        exact absurd rfl ((List.nodup_append.mp h).2.2 k hold k List.mem_cons_self)

theorem ofPairs_of_nodup {pairs : Members} (h : (pairs.map Prod.fst).Nodup) :
    ofPairs pairs = pairs :=
  @foldl_insert_of_nodup [] pairs h

/-- Members are lost where a name stands twice, and else they are set one behind another. -/
theorem foldl_insert_cases (before pairs : Members) :
    pairs.foldl (fun ms (k, v) => insert k v ms) before = before ++ pairs
      ∨ (pairs.foldl (fun ms (k, v) => insert k v ms) before).length
        < before.length + pairs.length := by
  induction pairs generalizing before with
  | nil => exact Or.inl (List.append_nil before).symm
  | cons m rest ih =>
      obtain ⟨k, v⟩ := m
      rw [foldl_insert_cons, List.length_cons]
      rcases insert_cases k v before with ⟨-, hinsert⟩ | ⟨-, hnames⟩
      · have hrest := ih (before ++ [(k, v)])
        rw [List.length_append, List.length_singleton, ← List.append_cons] at hrest
        rw [hinsert]
        exact hrest.imp id fun h => by omega
      · have hlength : (insert k v before).length = before.length := by
          rw [← List.length_map Prod.fst, hnames, List.length_map]
        right
        rcases ih (insert k v before) with hrest | hrest
        · rw [hrest, List.length_append]
          omega
        · omega

/-- Where all members are kept, they are kept in their order. -/
theorem ofPairs_of_length {pairs : Members} (h : (ofPairs pairs).length = pairs.length) :
    ofPairs pairs = pairs := by
  rcases foldl_insert_cases [] pairs with hkept | hlost
  · exact hkept
  · rw [List.length_nil, Nat.zero_add] at hlost
    exact absurd h (Nat.ne_of_lt hlost)

end Members

namespace Json

/-! ## Readable values -/

mutual

def isReadable : Json → Bool
  | .null | .bool _ | .str _ => true
  | .int n => digitCount n ≤ digitLimit
  | .float x => x.isCanonical
  | .arr items => areReadable items
  | .obj ms => areReadableMembers ms

def areReadable : List Json → Bool
  | [] => true
  | v :: rest => isReadable v && areReadable rest

def areReadableMembers : List (Text × Json) → Bool
  | [] => true
  | (k, v) :: rest => !Members.has k rest && isReadable v && areReadableMembers rest

end

mutual

/-- Is the value a readable one without floating-point numbers and without surrogates? -/
def isPlain : Json → Bool
  | .null | .bool _ => true
  | .int n => digitCount n ≤ digitLimit
  | .float _ => false
  | .str s => s.isScalar
  | .arr items => arePlain items
  | .obj ms => arePlainMembers ms

def arePlain : List Json → Bool
  | [] => true
  | v :: rest => isPlain v && arePlain rest

def arePlainMembers : List (Text × Json) → Bool
  | [] => true
  | (k, v) :: rest => k.isScalar && !Members.has k rest && isPlain v && arePlainMembers rest

end

mutual

theorem isReadable_of_isPlain : ∀ v : Json, v.isPlain = true → v.isReadable = true
  | .null, _ | .bool _, _ | .str _, _ => rfl
  | .int _, h => h
  | .arr items, h => areReadable_of_arePlain items h
  | .obj ms, h => areReadable_of_arePlainMembers ms h

theorem areReadable_of_arePlain :
    ∀ items : List Json, arePlain items = true → areReadable items = true
  | [], _ => rfl
  | v :: rest, h => by
      obtain ⟨hv, hrest⟩ := Bool.and_eq_true_iff.mp h
      exact Bool.and_eq_true_iff.mpr
        ⟨isReadable_of_isPlain v hv, areReadable_of_arePlain rest hrest⟩

theorem areReadable_of_arePlainMembers : ∀ ms : List (Text × Json), arePlainMembers ms = true →
    areReadableMembers ms = true
  | [], _ => rfl
  | (k, v) :: rest, h => by
      simp only [arePlainMembers, Bool.and_eq_true] at h
      obtain ⟨⟨⟨-, hnew⟩, hv⟩, hrest⟩ := h
      simp only [areReadableMembers, Bool.and_eq_true]
      exact ⟨⟨hnew, isReadable_of_isPlain v hv⟩, areReadable_of_arePlainMembers rest hrest⟩

end

mutual

theorem integersFit_of_isReadable : ∀ v : Json, v.isReadable = true → v.integersFit = true
  | .null, _ | .bool _, _ | .float _, _ | .str _, _ => rfl
  | .int _, h => h
  | .arr items, h => integersFit_of_areReadable items h
  | .obj ms, h => integersFit_of_areReadableMembers ms h

theorem integersFit_of_areReadable :
    ∀ items : List Json, areReadable items = true → integersFitItems items = true
  | [], _ => rfl
  | v :: rest, h => by
      obtain ⟨hv, hrest⟩ := Bool.and_eq_true_iff.mp h
      exact Bool.and_eq_true_iff.mpr
        ⟨integersFit_of_isReadable v hv, integersFit_of_areReadable rest hrest⟩

theorem integersFit_of_areReadableMembers : ∀ ms : List (Text × Json),
    areReadableMembers ms = true → integersFitMembers ms = true
  | [], _ => rfl
  | (k, v) :: rest, h => by
      simp only [areReadableMembers, Bool.and_eq_true] at h
      obtain ⟨⟨-, hv⟩, hrest⟩ := h
      exact Bool.and_eq_true_iff.mpr
        ⟨integersFit_of_isReadable v hv, integersFit_of_areReadableMembers rest hrest⟩

end

mutual

theorem isScalar_of_isPlain : ∀ v : Json, v.isPlain = true → v.isScalar = true
  | .null, _ | .bool _, _ | .int _, _ => rfl
  | .str _, h => h
  | .arr items, h => areScalar_of_arePlain items h
  | .obj ms, h => areScalar_of_arePlainMembers ms h

theorem areScalar_of_arePlain : ∀ items : List Json, arePlain items = true →
    allTextsOfItems Text.isScalar items = true
  | [], _ => rfl
  | v :: rest, h => by
      obtain ⟨hv, hrest⟩ := Bool.and_eq_true_iff.mp h
      exact Bool.and_eq_true_iff.mpr ⟨isScalar_of_isPlain v hv, areScalar_of_arePlain rest hrest⟩

theorem areScalar_of_arePlainMembers : ∀ ms : List (Text × Json), arePlainMembers ms = true →
    allTextsOfMembers Text.isScalar ms = true
  | [], _ => rfl
  | (k, v) :: rest, h => by
      simp only [arePlainMembers, Bool.and_eq_true] at h
      obtain ⟨⟨⟨hk, -⟩, hv⟩, hrest⟩ := h
      simp only [allTextsOfMembers, Bool.and_eq_true]
      exact ⟨⟨hk, isScalar_of_isPlain v hv⟩, areScalar_of_arePlainMembers rest hrest⟩

end

/-! ## Numbers and names -/

mutual

/-- Can the numbers in the value be read: are the integers not too long, and the floating-point
numbers those of the format? -/
def numbersFit : Json → Bool
  | .null | .bool _ | .str _ => true
  | .int n => digitCount n ≤ digitLimit
  | .float x => x.isCanonical
  | .arr items => numbersFitItems items
  | .obj ms => numbersFitMembers ms

def numbersFitItems : List Json → Bool
  | [] => true
  | v :: rest => numbersFit v && numbersFitItems rest

def numbersFitMembers : List (Text × Json) → Bool
  | [] => true
  | (_, v) :: rest => numbersFit v && numbersFitMembers rest

end

mutual

/-- The value with the members of one name merged: the name keeps its first place and takes its last
value. -/
def merged : Json → Json
  | .arr items => .arr (mergedItems items)
  | .obj ms => .obj (Members.ofPairs (mergedMembers ms))
  | v => v

def mergedItems : List Json → List Json
  | [] => []
  | v :: rest => merged v :: mergedItems rest

def mergedMembers : List (Text × Json) → List (Text × Json)
  | [] => []
  | (k, v) :: rest => (k, merged v) :: mergedMembers rest

end

theorem names_nodup {ms : Members} (h : areReadableMembers ms = true) :
    (ms.map Prod.fst).Nodup := by
  induction ms with
  | nil => exact List.nodup_nil
  | cons m rest ih =>
      obtain ⟨k, v⟩ := m
      simp only [areReadableMembers, Bool.and_eq_true, Bool.not_eq_true'] at h
      obtain ⟨⟨hnew, -⟩, hrest⟩ := h
      exact List.nodup_cons.mpr ⟨Members.has_eq_false_iff.mp hnew, ih hrest⟩

mutual

/-- A readable value has readable numbers, and there is nothing to merge in it. -/
theorem fits_of_isReadable : ∀ v : Json, v.isReadable = true →
    v.numbersFit = true ∧ v.merged = v
  | .null, _ | .bool _, _ | .str _, _ => ⟨rfl, rfl⟩
  | .int _, h | .float _, h => ⟨h, rfl⟩
  | .arr items, h => by
      obtain ⟨hfit, hmerged⟩ := fits_of_areReadable items h
      exact ⟨hfit, congrArg Json.arr hmerged⟩
  | .obj ms, h => by
      obtain ⟨hfit, hmerged⟩ := fits_of_areReadableMembers ms h
      refine ⟨hfit, congrArg Json.obj ?_⟩
      rw [hmerged]
      exact Members.ofPairs_of_nodup (names_nodup h)

theorem fits_of_areReadable : ∀ items : List Json, areReadable items = true →
    numbersFitItems items = true ∧ mergedItems items = items
  | [], _ => ⟨rfl, rfl⟩
  | v :: rest, h => by
      obtain ⟨hv, hrest⟩ := Bool.and_eq_true_iff.mp h
      obtain ⟨hvFit, hvMerged⟩ := fits_of_isReadable v hv
      obtain ⟨hrestFit, hrestMerged⟩ := fits_of_areReadable rest hrest
      rw [numbersFitItems, hvFit, hrestFit, mergedItems, hvMerged, hrestMerged]
      exact ⟨rfl, rfl⟩

theorem fits_of_areReadableMembers : ∀ ms : List (Text × Json), areReadableMembers ms = true →
    numbersFitMembers ms = true ∧ mergedMembers ms = ms
  | [], _ => ⟨rfl, rfl⟩
  | (k, v) :: rest, h => by
      simp only [areReadableMembers, Bool.and_eq_true] at h
      obtain ⟨⟨-, hv⟩, hrest⟩ := h
      obtain ⟨hvFit, hvMerged⟩ := fits_of_isReadable v hv
      obtain ⟨hrestFit, hrestMerged⟩ := fits_of_areReadableMembers rest hrest
      rw [numbersFitMembers, hvFit, hrestFit, mergedMembers, hvMerged, hrestMerged]
      exact ⟨rfl, rfl⟩

end

/-! ## Blanks -/

variable (layout : Layout) (level : Nat)

def IsBlank (t : Text) : Prop :=
  ∀ c ∈ t, isSpace c = true

theorem skipSpace_blank {blank : Text} (h : IsBlank blank) (t : Text) :
    skipSpace (blank ++ t) = skipSpace t :=
  List.dropWhile_append_of_pos h

theorem skipSpace_cons {c : CodePoint} (h : isSpace c = false) (t : Text) :
    skipSpace (c :: t) = c :: t :=
  List.dropWhile_cons_of_neg (by rw [h]; exact nofun)

theorem isBlank_indentation : IsBlank (indentation level) := by
  intro c hc
  rcases List.mem_cons.mp hc with rfl | hc
  · rfl
  · rw [List.eq_of_mem_replicate hc]
    rfl

theorem isBlank_break : IsBlank (layout.break level) := by
  rw [Layout.break]
  split
  · exact isBlank_indentation level
  · exact List.forall_mem_nil _

theorem isBlank_space : IsBlank [CodePoint.ofChar ' '] := by
  intro c hc
  rw [List.mem_singleton.mp hc]
  rfl

theorem separator_eq :
    ∃ blank, layout.separator level = CodePoint.ofChar ',' :: blank ∧ IsBlank blank := by
  rw [Layout.separator]
  split
  · exact ⟨_, rfl, isBlank_indentation level⟩
  · split
    · exact ⟨_, rfl, isBlank_space⟩
    · exact ⟨[], rfl, List.forall_mem_nil _⟩

theorem colon_eq : ∃ blank, layout.colon = CodePoint.ofChar ':' :: blank ∧ IsBlank blank := by
  rw [Layout.colon]
  split
  · exact ⟨_, rfl, isBlank_space⟩
  · exact ⟨[], rfl, List.forall_mem_nil _⟩

theorem endsNumber_cons {c : CodePoint} (h : isSpace c = true ∨ c = CodePoint.ofChar ','
    ∨ c = CodePoint.ofChar ']' ∨ c = CodePoint.ofChar '}') (t : Text) : EndsNumber (c :: t) := by
  intro d hd
  obtain rfl := Option.some.inj hd
  rcases h with h | rfl | rfl | rfl
  · simp only [isSpace, Bool.or_eq_true, decide_eq_true_eq] at h
    rcases h with ((rfl | rfl) | rfl) | rfl <;> decide
  all_goals decide

theorem endsNumber_blank {blank t : Text} (hblank : IsBlank blank) (h : EndsNumber t) :
    EndsNumber (blank ++ t) := by
  cases blank with
  | nil => exact h
  | cons c rest => exact endsNumber_cons (Or.inl (hblank c List.mem_cons_self)) _

/-- What stands behind an item or a member: a separator or the end of the level. -/
theorem endsNumber_items (items : List Json) {t : Text} (h : EndsNumber t) :
    EndsNumber (writtenItems layout level items ++ t) := by
  cases items with
  | nil => exact h
  | cons v rest =>
      obtain ⟨blank, hsep, -⟩ := separator_eq layout level
      rw [writtenItems_cons, hsep]
      exact endsNumber_cons (Or.inr (Or.inl rfl)) _

theorem endsNumber_members (ms : List (Text × Json)) {t : Text} (h : EndsNumber t) :
    EndsNumber (writtenMembers layout level ms ++ t) := by
  cases ms with
  | nil => exact h
  | cons m rest =>
      obtain ⟨k, v⟩ := m
      obtain ⟨blank, hsep, -⟩ := separator_eq layout level
      rw [writtenMembers_cons, hsep]
      exact endsNumber_cons (Or.inr (Or.inl rfl)) _

/-! ## Atoms -/

def beginsValue (c : CodePoint) : Bool :=
  !isSpace c && c ≠ CodePoint.ofChar ']' && c ≠ CodePoint.ofChar '}' && c.val < 0x80

/-- A value is read back from its text, members of one name merged, with as much fuel as the text
is long. -/
structure Reads (v : Json) : Prop where
  begins : ∀ level, ∃ c t, written layout level v = c :: t ∧ beginsValue c = true
  value : ∀ level fuel tail, (written layout level v).length ≤ fuel → EndsNumber tail →
    readValue fuel (written layout level v ++ tail) = .ok (v.merged, tail)

theorem words_lead : ∀ w ∈ words, ∃ d e front, w.1 = d :: e :: front ∧ d.isDigit = false
    ∧ e.isDigit = false := by
  intro w hw
  simp only [words, List.mem_cons, List.not_mem_nil, or_false] at hw
  rcases hw with rfl | rfl | rfl | rfl | rfl | rfl <;>
    exact ⟨_, _, _, rfl, by decide, by decide⟩

def BeginsNumber (t : Text) : Prop :=
  ∃ c rest, t = c :: rest ∧ (c.isDigit = true ∨ c = CodePoint.ofChar '-'
    ∧ ∃ d more, rest = d :: more ∧ d.isDigit = true)

theorem word_of_beginsNumber {t : Text} (h : BeginsNumber t) : word? t = none := by
  obtain ⟨c, rest, rfl, hc⟩ := h
  have hne : ∀ {c d : CodePoint}, c.isDigit = true → d.isDigit = false → c ≠ d := by
    rintro c d hc hd rfl
    rw [hc] at hd
    cases hd
  rw [word?, List.findSome?_eq_none_iff]
  intro w hw
  obtain ⟨d, e, front, hw, hd, he⟩ := words_lead w hw
  rw [Option.map_eq_none_iff, hw]
  rcases hc with hdigit | ⟨rfl, f, more, rfl, hdigit⟩
  · exact if_neg (hne hdigit hd)
  · show (if CodePoint.ofChar '-' = d then (if f = e then _ else none) else none) = none
    split
    · exact if_neg (hne hdigit he)
    · rfl

theorem beginsNumber_of_read {t after : Text} {v : Json} (h : readNumber t = .ok (v, after)) :
    BeginsNumber t := by
  have hwhole : ∀ unsigned : Text, whole? unsigned ≠ none →
      ∃ c rest, unsigned = c :: rest ∧ c.isDigit = true := by
    intro unsigned hne
    cases unsigned with
    | nil => exact absurd rfl hne
    | cons c rest =>
        refine ⟨c, rest, rfl, ?_⟩
        by_contra hdigit
        have hzero : c ≠ CodePoint.ofChar '0' := by
          rintro rfl
          exact hdigit rfl
        exact hne (by rw [whole?, if_neg hzero, if_neg hdigit])
  cases t with
  | nil => cases h
  | cons c rest =>
      refine ⟨c, rest, rfl, ?_⟩
      by_cases hsign : c = CodePoint.ofChar '-'
      · refine Or.inr ⟨hsign, hwhole rest ?_⟩
        intro hnone
        simp [readNumber, hsign, hnone] at h
      · left
        have hsome : whole? (c :: rest) ≠ none := by
          intro hnone
          simp [readNumber, hsign, hnone] at h
        obtain ⟨d, more, heq, hdigit⟩ := hwhole _ hsome
        rwa [(List.cons.inj heq).1]

variable {layout}

theorem reads_word {v : Json} {w : Text} (hv : ∀ level, written layout level v = w)
    (hw : ∀ t, word? (w ++ t) = some (v.merged, t)) {c : CodePoint} {rest : Text}
    (hfront : w = c :: rest) (hc : beginsValue c = true) (hquote : c ≠ CodePoint.ofChar '"')
    (hbrace : c ≠ CodePoint.ofChar '{') (hbracket : c ≠ CodePoint.ofChar '[') :
    Reads layout v := by
  subst hfront
  refine ⟨fun level => ⟨c, rest, hv level, hc⟩, ?_⟩
  intro level fuel tail hfuel _
  have hword := hw tail
  rw [hv level] at hfuel ⊢
  obtain ⟨fuel, rfl⟩ : ∃ n, fuel = n + 1 := ⟨fuel - 1, by simp at hfuel; omega⟩
  rw [List.cons_append] at hword ⊢
  rw [readValue]
  dsimp only
  rw [if_neg hquote, if_neg hbrace, if_neg hbracket, hword]

theorem reads_null : Reads layout .null :=
  reads_word (w := Text.ofString "null") (fun _ => rfl) (fun _ => by cbv) rfl (by decide)
    (by decide) (by decide) (by decide)

theorem reads_bool (b : Bool) : Reads layout (.bool b) := by
  cases b with
  | false =>
      exact reads_word (w := Text.ofString "false") (fun _ => rfl) (fun _ => by cbv) rfl
        (by decide) (by decide) (by decide) (by decide)
  | true =>
      exact reads_word (w := Text.ofString "true") (fun _ => rfl) (fun _ => by cbv) rfl
        (by decide) (by decide) (by decide) (by decide)

theorem reads_number {v : Json} {t : Text} (hv : ∀ level, written layout level v = t)
    (hread : ∀ tail, EndsNumber tail → readNumber (t ++ tail) = .ok (v.merged, tail)) :
    Reads layout v := by
  have hbegins := beginsNumber_of_read (hread [] nofun)
  rw [List.append_nil] at hbegins
  obtain ⟨c, rest, rfl, hc⟩ := hbegins
  -- its first character tells a number from a space and from all other values
  have hne : ∀ {d : CodePoint}, d.isDigit = false → d ≠ CodePoint.ofChar '-' → c ≠ d := by
    rintro d hdigit hsign rfl
    rcases hc with hc | hc
    · rw [hc] at hdigit
      cases hdigit
    · exact hsign hc.1
  refine ⟨?begins, ?value⟩
  case begins =>
    intro level
    refine ⟨c, rest, hv level, ?_⟩
    rcases hc with hc | ⟨rfl, -⟩
    · rw [CodePoint.isDigit, CodePoint.isBetween, Bool.and_eq_true, decide_eq_true_iff,
        decide_eq_true_iff] at hc
      have hval : c.val < 0x80 := Nat.lt_of_le_of_lt hc.2 (by decide)
      have hspace : isSpace c = false := by
        simp [isSpace, hne (d := CodePoint.ofChar ' ') (by decide) (by decide),
          hne (d := CodePoint.ofChar '\t') (by decide) (by decide),
          hne (d := CodePoint.ofChar '\n') (by decide) (by decide),
          hne (d := CodePoint.ofChar '\r') (by decide) (by decide)]
      simp [beginsValue, hspace, hval, hne (d := CodePoint.ofChar ']') (by decide) (by decide),
        hne (d := CodePoint.ofChar '}') (by decide) (by decide)]
    · decide
  case value =>
    intro level fuel tail hfuel htail
    have hnumber := hread tail htail
    have hword := word_of_beginsNumber (beginsNumber_of_read hnumber)
    rw [hv level] at hfuel ⊢
    obtain ⟨fuel, rfl⟩ : ∃ n, fuel = n + 1 := ⟨fuel - 1, by simp at hfuel; omega⟩
    rw [List.cons_append] at hword hnumber ⊢
    rw [readValue]
    dsimp only
    rw [if_neg (hne (by decide) (by decide)), if_neg (hne (by decide) (by decide)),
      if_neg (hne (by decide) (by decide)), hword]
    exact hnumber

theorem reads_int {n : Int} (hn : digitCount n ≤ digitLimit) : Reads layout (.int n) :=
  reads_number (fun level => written_int level n) fun _ => readNumber_ofInt hn

theorem reads_float {x : Binary64} (h : x.isCanonical = true) : Reads layout (.float x) := by
  have hwritten : ∀ level, written layout level (.float x) = x.text Binary64.jsonNames := by
    intro level
    rw [written, pieces_of_atom layout level rfl, List.flatten_singleton]
  cases x with
  | nan =>
      exact reads_word (w := Text.ofString "NaN") hwritten (fun _ => by cbv) rfl (by decide)
        (by decide) (by decide) (by decide)
  | infinite negative =>
      cases negative with
      | false =>
          exact reads_word (w := Text.ofString "Infinity") hwritten (fun _ => by cbv) rfl
            (by decide) (by decide) (by decide) (by decide)
      | true =>
          exact reads_word (w := Text.ofString "-Infinity") hwritten (fun _ => by cbv) rfl
            (by decide) (by decide) (by decide) (by decide)
  | finite negative m k =>
      exact reads_number hwritten fun _ => readNumber_text (of_decide_eq_true h)

theorem readString_jsonString {s : Text} (hs : s.isScalar = true) (ascii : Bool)
    (start tail : Text) :
    ∃ body, Text.jsonString ascii s ++ tail = CodePoint.ofChar '"' :: body
      ∧ readString start (body.length + 1) body = .ok (s, tail) := by
  refine ⟨s.flatMap (Text.jsonCodePoint ascii) ++ CodePoint.ofChar '"' :: tail, ?_, ?_⟩
  · simp [Text.jsonString]
  · refine readString_written (fun _ => hs) ?_ start tail
    have hlength := length_le_flatMap_jsonCodePoint ascii s
    rw [List.length_append]
    omega

theorem reads_str {s : Text} (hs : s.isScalar = true) : Reads layout (.str s) := by
  refine ⟨fun level => ⟨_, _, written_str level s, by decide⟩, ?_⟩
  intro level fuel tail hfuel _
  rw [written_str] at hfuel ⊢
  obtain ⟨fuel, rfl⟩ : ∃ n, fuel = n + 1 :=
    ⟨fuel - 1, by simp [Text.jsonString] at hfuel; omega⟩
  obtain ⟨body, hbody, hread⟩ := readString_jsonString hs layout.ascii
    (Text.jsonString layout.ascii s ++ tail) tail
  rw [hbody] at hread ⊢
  rw [readValue]
  dsimp only
  rw [if_pos rfl, hread]
  rfl

/-! ## Arrays and objects -/

/-- The facts about a code point that a value begins with. -/
theorem beginsValue_spec {c : CodePoint} (h : beginsValue c = true) :
    isSpace c = false ∧ c ≠ CodePoint.ofChar ']' ∧ c ≠ CodePoint.ofChar '}' ∧ c.val < 0x80 := by
  simpa [beginsValue, and_assoc] using h

theorem Reads.skipSpace {v : Json} (h : Reads layout v) {blank : Text} (hblank : IsBlank blank)
    (level : Nat) (t : Text) :
    Json.skipSpace (blank ++ (written layout level v ++ t)) = written layout level v ++ t := by
  obtain ⟨c, rest, hfront, hc⟩ := h.begins level
  rw [skipSpace_blank hblank, hfront, List.cons_append,
    skipSpace_cons (beginsValue_spec hc).1]

theorem readItems_last {fuel : Nat} {before : List Json} {t after tail : Text} {v : Json}
    (hvalue : readValue fuel t = .ok (v, after))
    (hafter : Json.skipSpace after = CodePoint.ofChar ']' :: tail) :
    readItems (fuel + 1) before t = .ok (.arr (v :: before).reverse, tail) := by
  rw [readItems, hvalue]
  dsimp only [bind, Except.bind]
  rw [hafter]
  exact if_pos rfl

theorem readItems_more {fuel : Nat} {before : List Json} {t after rest : Text} {v : Json}
    (hvalue : readValue fuel t = .ok (v, after))
    (hafter : Json.skipSpace after = CodePoint.ofChar ',' :: rest) :
    readItems (fuel + 1) before t = readItems fuel (v :: before) (Json.skipSpace rest) := by
  rw [readItems, hvalue]
  dsimp only [bind, Except.bind]
  rw [hafter]
  dsimp only
  rw [if_neg (by decide), if_pos rfl]

theorem readItems_written (items : List Json) (hitems : ∀ v ∈ items, Reads layout v) {v : Json}
    (hv : Reads layout v) (level : Nat) {blank : Text} (hblank : IsBlank blank) (tail : Text)
    (before : List Json) {fuel : Nat}
    (hfuel : (written layout level v).length + (writtenItems layout level items).length < fuel) :
    readItems fuel before (written layout level v ++ (writtenItems layout level items
        ++ (blank ++ CodePoint.ofChar ']' :: tail)))
      = .ok (.arr (before.reverse ++ v.merged :: mergedItems items), tail) := by
  have hend : EndsNumber (blank ++ CodePoint.ofChar ']' :: tail) :=
    endsNumber_blank hblank (endsNumber_cons (Or.inr (Or.inr (Or.inl rfl))) _)
  obtain ⟨fuel, rfl⟩ : ∃ n, fuel = n + 1 := ⟨fuel - 1, by omega⟩
  induction items generalizing v before fuel with
  | nil =>
      have hvalue := hv.value level fuel _ (by omega) hend
      have hafter : Json.skipSpace (blank ++ CodePoint.ofChar ']' :: tail)
          = CodePoint.ofChar ']' :: tail := by
        rw [skipSpace_blank hblank, skipSpace_cons rfl]
      rw [show before.reverse ++ v.merged :: mergedItems [] = (v.merged :: before).reverse
        from List.reverse_cons.symm]
      exact readItems_last hvalue hafter
  | cons w rest ih =>
      obtain ⟨separation, hsep, hblankSep⟩ := separator_eq layout level
      have hw := hitems w List.mem_cons_self
      have hvalue := hv.value level fuel _ (by omega)
        (endsNumber_items layout level (w :: rest) hend)
      rw [writtenItems_cons, hsep, List.cons_append] at hfuel
      simp only [List.length_cons, List.length_append] at hfuel
      obtain ⟨fuel, rfl⟩ : ∃ n, fuel = n + 1 := ⟨fuel - 1, by omega⟩
      have hrest := ih (fun x hx => hitems x (List.mem_cons_of_mem _ hx)) hw (v.merged :: before)
        fuel (by omega)
      rw [writtenItems_cons, hsep, List.cons_append, List.cons_append] at hvalue ⊢
      rw [readItems_more hvalue (skipSpace_cons rfl _), List.append_assoc, List.append_assoc,
        hw.skipSpace hblankSep, hrest]
      simp [mergedItems]

theorem readValue_items {fuel : Nat} {t rest : Text} {c : CodePoint}
    (ht : Json.skipSpace t = c :: rest) (hc : c ≠ CodePoint.ofChar ']') :
    readValue (fuel + 1) (CodePoint.ofChar '[' :: t) = readItems fuel [] (c :: rest) := by
  rw [readValue]
  dsimp only
  rw [if_neg (by decide), if_neg (by decide), if_pos rfl, ht]
  exact if_neg hc

theorem readValue_members {fuel : Nat} {t rest : Text} {c : CodePoint}
    (ht : Json.skipSpace t = c :: rest) (hc : c ≠ CodePoint.ofChar '}') :
    readValue (fuel + 1) (CodePoint.ofChar '{' :: t) = readMembers fuel [] (c :: rest) := by
  rw [readValue]
  dsimp only
  rw [if_neg (by decide), if_pos rfl, ht]
  exact if_neg hc

/-- An array is read up to its bracket, whatever stands behind it. -/
theorem readValue_arr {items : List Json} (hitems : ∀ v ∈ items, Reads layout v)
    (level fuel : Nat) (tail : Text) (hfuel : (written layout level (.arr items)).length ≤ fuel) :
    readValue fuel (written layout level (.arr items) ++ tail)
      = .ok ((Json.arr items).merged, tail) := by
  cases items with
  | nil =>
      have hpositive : 2 ≤ fuel := hfuel
      obtain ⟨fuel, rfl⟩ : ∃ n, fuel = n + 1 := ⟨fuel - 1, by omega⟩
      rfl
  | cons v rest =>
      have hv := hitems v List.mem_cons_self
      rw [written_arr] at hfuel ⊢
      simp only [List.length_cons, List.length_append, List.length_nil] at hfuel
      obtain ⟨fuel, rfl⟩ : ∃ n, fuel = n + 1 := ⟨fuel - 1, by omega⟩
      have hread := readItems_written rest (fun x hx => hitems x (List.mem_cons_of_mem _ hx)) hv
        (level + 1) (isBlank_break layout level) tail [] (by omega : _ < fuel)
      have hskip := hv.skipSpace (isBlank_break layout (level + 1)) (level + 1)
        (writtenItems layout (level + 1) rest
          ++ (layout.break level ++ CodePoint.ofChar ']' :: tail))
      -- no value begins with a closing bracket, so the array is not taken for an empty one
      obtain ⟨c, t, hfront, hc⟩ := hv.begins (level + 1)
      rw [hfront, List.cons_append] at hskip hread
      simp only [List.cons_append, List.append_assoc, List.nil_append]
      rw [hfront, List.cons_append, readValue_items hskip (beginsValue_spec hc).2.1, hread]
      rfl

theorem reads_arr {items : List Json} (hitems : ∀ v ∈ items, Reads layout v) :
    Reads layout (.arr items) where
  begins := fun level => by
    cases items with
    | nil => exact ⟨_, _, rfl, by decide⟩
    | cons v rest => exact ⟨_, _, written_arr layout level v rest, by decide⟩
  value := fun level fuel tail hfuel _ => readValue_arr hitems level fuel tail hfuel

/-- A name, its colon and its value, up to what stands behind the value. -/
theorem readMember {fuel : Nat} {before : Members} {t tail : Text} {k : Text} {v : Json}
    (hk : k.isScalar = true) (hv : Reads layout v) (level : Nat)
    (hfuel : (written layout level v).length ≤ fuel) (htail : EndsNumber tail)
    {d : CodePoint} {rest : Text} (hrest : Json.skipSpace tail = d :: rest)
    (ht : t = Text.jsonString layout.ascii k
      ++ (layout.colon ++ (written layout level v ++ tail))) :
    readMembers (fuel + 1) before t
      = if d = CodePoint.ofChar '}' then .ok (.obj (Members.insert k v.merged before), rest)
        else if d = CodePoint.ofChar ',' then
          readMembers fuel (Members.insert k v.merged before) (Json.skipSpace rest)
        else .error (.fault .expectingComma (d :: rest)) := by
  obtain ⟨body, hbody, hname⟩ := readString_jsonString hk layout.ascii t
    (layout.colon ++ (written layout level v ++ tail))
  obtain ⟨blank, hcolon, hblank⟩ := colon_eq layout
  have hvalue := hv.value level fuel tail hfuel htail
  have hskip := hv.skipSpace hblank level tail
  rw [← ht] at hbody
  rw [hbody] at hname ⊢
  rw [hcolon] at hname
  rw [readMembers]
  dsimp only
  rw [if_pos rfl, hname]
  dsimp only [bind, Except.bind]
  rw [List.cons_append, skipSpace_cons rfl]
  dsimp only
  rw [if_pos rfl, hskip, hvalue]
  dsimp only
  rw [hrest]

theorem readMembers_written (ms : Members)
    (hms : ∀ m ∈ ms, m.1.isScalar = true ∧ Reads layout m.2) {k : Text} (hk : k.isScalar = true)
    {v : Json} (hv : Reads layout v) (level : Nat) {blank : Text} (hblank : IsBlank blank)
    (tail : Text) (before : Members) {fuel : Nat}
    (hfuel : (written layout level v).length + (writtenMembers layout level ms).length < fuel) :
    readMembers fuel before (Text.jsonString layout.ascii k ++ (layout.colon
        ++ (written layout level v ++ (writtenMembers layout level ms
          ++ (blank ++ CodePoint.ofChar '}' :: tail)))))
      = .ok (.obj ((mergedMembers ((k, v) :: ms)).foldl (fun ms (k, v) => Members.insert k v ms)
          before), tail) := by
  have hend : EndsNumber (blank ++ CodePoint.ofChar '}' :: tail) :=
    endsNumber_blank hblank (endsNumber_cons (Or.inr (Or.inr (Or.inr rfl))) _)
  obtain ⟨fuel, rfl⟩ : ∃ n, fuel = n + 1 := ⟨fuel - 1, by omega⟩
  -- on the members behind the one that is read next
  induction ms generalizing k v before fuel with
  | nil =>
      have hafter : Json.skipSpace (blank ++ CodePoint.ofChar '}' :: tail)
          = CodePoint.ofChar '}' :: tail := by
        rw [skipSpace_blank hblank, skipSpace_cons rfl]
      rw [readMember hk hv level (by omega) (endsNumber_members layout level [] hend) hafter rfl,
        if_pos rfl]
      rfl
  | cons m rest ih =>
      obtain ⟨name, w⟩ := m
      obtain ⟨separation, hsep, hblankSep⟩ := separator_eq layout level
      obtain ⟨hname, hw⟩ : name.isScalar = true ∧ Reads layout w := hms _ List.mem_cons_self
      have hmember : ∀ t, Json.skipSpace (separation ++ (Text.jsonString layout.ascii name ++ t))
          = Text.jsonString layout.ascii name ++ t := by
        intro t
        rw [skipSpace_blank hblankSep]
        exact skipSpace_cons rfl _
      have hafter : Json.skipSpace (writtenMembers layout level ((name, w) :: rest)
            ++ (blank ++ CodePoint.ofChar '}' :: tail))
          = CodePoint.ofChar ',' :: (separation ++ (Text.jsonString layout.ascii name
            ++ (layout.colon ++ (written layout level w ++ (writtenMembers layout level rest
              ++ (blank ++ CodePoint.ofChar '}' :: tail)))))) := by
        rw [writtenMembers_cons, hsep, List.cons_append, List.cons_append, skipSpace_cons rfl]
        simp only [List.append_assoc]
      rw [readMember hk hv level (by omega)
        (endsNumber_members layout level ((name, w) :: rest) hend) hafter rfl,
        if_neg (by decide), if_pos rfl, hmember]
      rw [writtenMembers_cons, hsep, List.cons_append] at hfuel
      simp only [List.length_cons, List.length_append] at hfuel
      obtain ⟨fuel, rfl⟩ : ∃ n, fuel = n + 1 := ⟨fuel - 1, by omega⟩
      exact ih (fun m hm => hms m (List.mem_cons_of_mem _ hm)) hname hw _ fuel (by omega)

/-- An object is read up to its brace, whatever stands behind it. -/
theorem readValue_obj {ms : Members} (hms : ∀ m ∈ ms, m.1.isScalar = true ∧ Reads layout m.2)
    (level fuel : Nat) (tail : Text) (hfuel : (written layout level (.obj ms)).length ≤ fuel) :
    readValue fuel (written layout level (.obj ms) ++ tail)
      = .ok ((Json.obj ms).merged, tail) := by
  cases ms with
  | nil =>
      have hpositive : 2 ≤ fuel := hfuel
      obtain ⟨fuel, rfl⟩ : ∃ n, fuel = n + 1 := ⟨fuel - 1, by omega⟩
      rfl
  | cons m rest =>
      obtain ⟨k, v⟩ := m
      obtain ⟨hk, hv⟩ : k.isScalar = true ∧ Reads layout v := hms _ List.mem_cons_self
      rw [written_obj] at hfuel ⊢
      simp only [List.length_cons, List.length_append, List.length_nil] at hfuel
      obtain ⟨fuel, rfl⟩ : ∃ n, fuel = n + 1 := ⟨fuel - 1, by omega⟩
      have hread := readMembers_written rest (fun x hx => hms x (List.mem_cons_of_mem _ hx)) hk hv
        (level + 1) (isBlank_break layout level) tail [] (by omega : _ < fuel)
      have hskip : ∀ t, Json.skipSpace (layout.break (level + 1)
          ++ (Text.jsonString layout.ascii k ++ t)) = Text.jsonString layout.ascii k ++ t := by
        intro t
        rw [skipSpace_blank (isBlank_break layout (level + 1))]
        exact skipSpace_cons rfl _
      simp only [List.cons_append, List.append_assoc, List.nil_append]
      rw [readValue_members (hskip _) (by decide)]
      exact hread

theorem reads_obj {ms : Members} (hms : ∀ m ∈ ms, m.1.isScalar = true ∧ Reads layout m.2) :
    Reads layout (.obj ms) where
  begins := fun level => by
    cases ms with
    | nil => exact ⟨_, _, rfl, by decide⟩
    | cons m rest => exact ⟨_, _, written_obj layout level m.1 m.2 rest, by decide⟩
  value := fun level fuel tail hfuel _ => readValue_obj hms level fuel tail hfuel

/-! ## The round trip -/

mutual

/-- Every value with readable numbers and without surrogates is read back from its text, by
induction on the value. -/
theorem reads_of_numbersFit :
    ∀ v : Json, v.numbersFit = true → v.isScalar = true → Reads layout v
  | .null, _, _ => reads_null
  | .bool b, _, _ => reads_bool b
  | .int _, h, _ => reads_int (of_decide_eq_true h)
  | .float _, h, _ => reads_float h
  | .str _, _, h => reads_str h
  | .arr items, h, hscalar => reads_arr (reads_of_numbersFitItems items h hscalar)
  | .obj ms, h, hscalar => reads_obj (reads_of_numbersFitMembers ms h hscalar)

theorem reads_of_numbersFitItems : ∀ items : List Json, numbersFitItems items = true →
    allTextsOfItems Text.isScalar items = true → ∀ v ∈ items, Reads layout v
  | [], _, _ => List.forall_mem_nil _
  | v :: rest, h, hscalar => by
      obtain ⟨hv, hrest⟩ := Bool.and_eq_true_iff.mp h
      obtain ⟨hvScalar, hrestScalar⟩ := Bool.and_eq_true_iff.mp hscalar
      exact List.forall_mem_cons.mpr
        ⟨reads_of_numbersFit v hv hvScalar, reads_of_numbersFitItems rest hrest hrestScalar⟩

theorem reads_of_numbersFitMembers : ∀ ms : List (Text × Json), numbersFitMembers ms = true →
    allTextsOfMembers Text.isScalar ms = true → ∀ m ∈ ms, m.1.isScalar = true ∧ Reads layout m.2
  | [], _, _ => List.forall_mem_nil _
  | (k, v) :: rest, h, hscalar => by
      obtain ⟨hv, hrest⟩ := Bool.and_eq_true_iff.mp h
      simp only [allTextsOfMembers, Bool.and_eq_true] at hscalar
      exact List.forall_mem_cons.mpr
        ⟨⟨hscalar.1.1, reads_of_numbersFit v hv hscalar.1.2⟩,
          reads_of_numbersFitMembers rest hrest hscalar.2⟩

end

/-- An array or an object is read up to its bracket, whatever stands behind it. -/
theorem readValue_nested {v : Json} (hnested : v.isNested = true) (h : v.numbersFit = true)
    (hscalar : v.isScalar = true) (level fuel : Nat) (tail : Text)
    (hfuel : (written layout level v).length ≤ fuel) :
    readValue fuel (written layout level v ++ tail) = .ok (v.merged, tail) := by
  cases v with
  | arr items =>
      exact readValue_arr (reads_of_numbersFitItems items h hscalar) level fuel tail hfuel
  | obj ms =>
      exact readValue_obj (reads_of_numbersFitMembers ms h hscalar) level fuel tail hfuel
  | _ => cases hnested

theorem endsNumber_of_isBlank {blank : Text} (h : IsBlank blank) : EndsNumber blank := by
  have hend := endsNumber_blank h (t := []) nofun
  rwa [List.append_nil] at hend

/-- **A value with readable numbers and without surrogates is read back as it was written, members
of one name merged**, in every layout and with blanks behind it. -/
theorem read_render_merged (layout : Layout) {v : Json} (h : v.numbersFit = true)
    (hscalar : v.isScalar = true) {blank : Text} (hblank : IsBlank blank) :
    read (render layout v ++ blank) = .ok v.merged := by
  have hreads : Reads layout v := reads_of_numbersFit v h hscalar
  obtain ⟨c, t, hfront, hc⟩ := hreads.begins 0
  obtain ⟨hspace, -, -, hval⟩ := beginsValue_spec hc
  have hvalue := hreads.value 0 (2 * (render layout v ++ blank).length + 2) blank
    (by rw [List.length_append, render, written]; omega) (endsNumber_of_isBlank hblank)
  -- a text that begins with a byte order mark would be refused
  have hmark : c ≠ CodePoint.ofNat 0xFEFF := by
    rintro rfl
    exact absurd hval (by decide)
  have hstart : skipSpace (render layout v ++ blank) = render layout v ++ blank :=
    hreads.skipSpace (List.forall_mem_nil _) 0 blank
  have hstop : skipSpace blank = [] := by
    have hskip := skipSpace_blank hblank []
    rwa [List.append_nil] at hskip
  have hfirst : (render layout v ++ blank).head? ≠ some (CodePoint.ofNat 0xFEFF) := by
    rw [show render layout v = c :: t from hfront]
    intro h
    exact hmark (Option.some.inj h)
  rw [read, if_neg hfirst, readDecoded]
  dsimp only
  rw [hstart]
  rw [show readValue _ (render layout v ++ blank) = .ok (v.merged, blank) from hvalue]
  dsimp only
  rw [hstop]

/-- **A readable value without surrogates is read back as it was written**, in every layout and with
blanks behind it. -/
theorem read_render (layout : Layout) {v : Json} (h : v.isReadable = true)
    (hscalar : v.isScalar = true) {blank : Text} (hblank : IsBlank blank) :
    read (render layout v ++ blank) = .ok v := by
  obtain ⟨hfit, hmerged⟩ := fits_of_isReadable v h
  rw [read_render_merged layout hfit hscalar hblank, hmerged]

/-! ## Files -/

/-- **A readable value that is written to a file is read back from it.** -/
theorem read_filePieces {v : Json} (h : v.isReadable = true) (hscalar : v.isScalar = true) :
    read (Text.unifyLineEnds v.filePieces.flatten) = .ok v := by
  rw [unifyLineEnds_filePieces, filePieces_flatten]
  refine read_render _ h hscalar ?_
  intro c hc
  rw [List.mem_singleton.mp hc]
  rfl

/-! ## Objects with names that are written in the program -/

theorem isPlain_ofNat {n : Nat} (h : n < 10 ^ digitLimit) : (Json.ofNat n).isPlain = true := by
  have hcount : (n.repr.toList.map CodePoint.ofChar).length ≤ digitLimit := by
    rw [List.length_map, String.length_toList]
    exact Nat.repr_length n digitLimit (by decide) h
  exact decide_eq_true hcount

theorem isPlain_object {ms : List (String × Json)} (hnames : (ms.map Prod.fst).Nodup)
    (hms : ∀ m ∈ ms, m.2.isPlain = true) : (Json.object ms).isPlain = true := by
  rw [object, isPlain]
  induction ms with
  | nil => rfl
  | cons m rest ih =>
      obtain ⟨k, v⟩ := m
      obtain ⟨hv, hrest⟩ := List.forall_mem_cons.mp hms
      obtain ⟨hk, hnodup⟩ := List.nodup_cons.mp hnames
      have hnew : Members.has (Text.ofString k)
          (rest.map fun m => (Text.ofString m.1, m.2)) = false := by
        rw [Members.has_eq_false_iff, List.map_map]
        intro hmem
        obtain ⟨m, hm, hname⟩ := List.mem_map.mp hmem
        exact hk (List.mem_map.mpr ⟨m, hm, Text.ofString_injective hname⟩)
      rw [List.map_cons, arePlainMembers]
      dsimp only
      rw [Text.isScalar_ofString, hnew, hv, ih hnodup hrest]
      rfl

theorem arePlain_map {α : Type} {f : α → Json} {xs : List α}
    (h : ∀ x ∈ xs, (f x).isPlain = true) : arePlain (xs.map f) = true := by
  induction xs with
  | nil => rfl
  | cons x rest ih =>
      obtain ⟨hx, hrest⟩ := List.forall_mem_cons.mp h
      rw [List.map_cons, arePlain, hx, ih hrest, Bool.and_self]

theorem isScalar_str (s : Text) : (Json.str s).isScalar = s.isScalar :=
  rfl

theorem isScalar_arr_map {α : Type} {f : α → Json} {xs : List α} :
    (Json.arr (xs.map f)).isScalar = xs.all fun x => (f x).isScalar := by
  rw [isScalar, allTexts]
  induction xs with
  | nil => rfl
  | cons x rest ih =>
      rw [List.map_cons, allTextsOfItems, ih, List.all_cons]
      rfl

theorem isScalar_object (ms : List (String × Json)) :
    (Json.object ms).isScalar = ms.all fun m => m.2.isScalar := by
  rw [object, isScalar, allTexts]
  induction ms with
  | nil => rfl
  | cons m rest ih =>
      rw [List.map_cons, allTextsOfMembers, ih, List.all_cons, Text.isScalar_ofString,
        Bool.true_and]
      rfl

theorem integersFit_ofNat {n : Nat} (h : n < 10 ^ digitLimit) :
    (Json.ofNat n).integersFit = true :=
  isPlain_ofNat h

theorem integersFit_arr_map {α : Type} {f : α → Json} {xs : List α} :
    (Json.arr (xs.map f)).integersFit = xs.all fun x => (f x).integersFit := by
  rw [integersFit]
  induction xs with
  | nil => rfl
  | cons x rest ih => rw [List.map_cons, integersFitItems, ih, List.all_cons]

theorem integersFit_object (ms : List (String × Json)) :
    (Json.object ms).integersFit = ms.all fun m => m.2.integersFit := by
  rw [object, integersFit]
  induction ms with
  | nil => rfl
  | cons m rest ih => rw [List.map_cons, integersFitMembers, ih, List.all_cons]

end Json

end TaskContract
