import TaskContract.Proofs.Json.Surrounded

/-!
# The objects in a written value

The outermost objects of a value stand in its text one after another, each written as a value of its
level. If no string outside them holds a brace, theirs are the only braces in the text. From the
first brace to the last one stands then the object itself, where there is one, and no JSON, where
there are several.
-/

namespace TaskContract

def Text.isBraceless (t : Text) : Bool :=
  t.all fun c => !(Text.ofString "\x7b\x7d").contains c

namespace Json

mutual

/-- The objects in the value that stand in no other object, in order. -/
def outermostObjects : Json → List Json
  | .obj ms => [.obj ms]
  | .arr items => outermostObjectsOf items
  | _ => []

def outermostObjectsOf : List Json → List Json
  | [] => []
  | v :: rest => outermostObjects v ++ outermostObjectsOf rest

end

mutual

/-- Are the braces in the text of the value those of its objects and of what they hold? -/
def hasObjectBraces : Json → Bool
  | .str s => s.isBraceless
  | .arr items => haveObjectBraces items
  | _ => true

def haveObjectBraces : List Json → Bool
  | [] => true
  | v :: rest => hasObjectBraces v && haveObjectBraces rest

end

mutual

theorem isPlain_outermostObjects : ∀ v : Json, v.isPlain = true →
    ∀ o ∈ v.outermostObjects, o.isPlain = true
  | .null, _ | .bool _, _ | .int _, _ | .float _, _ | .str _, _ => List.forall_mem_nil _
  | .arr items, h => isPlain_outermostObjectsOf items h
  | .obj _, h => List.forall_mem_singleton.mpr h

theorem isPlain_outermostObjectsOf : ∀ items : List Json, arePlain items = true →
    ∀ o ∈ outermostObjectsOf items, o.isPlain = true
  | [], _ => List.forall_mem_nil _
  | v :: rest, h => by
      obtain ⟨hv, hrest⟩ := Bool.and_eq_true_iff.mp h
      exact List.forall_mem_append.mpr
        ⟨isPlain_outermostObjects v hv, isPlain_outermostObjectsOf rest hrest⟩

end

/-! ## Texts without braces -/

theorem isBraceless_append (s t : Text) :
    Text.isBraceless (s ++ t) = (s.isBraceless && t.isBraceless) :=
  List.all_append

theorem isBraceless_iff {t : Text} :
    t.isBraceless = true ↔ CodePoint.ofChar '\x7b' ∉ t ∧ CodePoint.ofChar '\x7d' ∉ t := by
  have hmark : ∀ c : CodePoint, (!(Text.ofString "\x7b\x7d").contains c) = true
      ↔ c ≠ CodePoint.ofChar '\x7b' ∧ c ≠ CodePoint.ofChar '\x7d' := by
    intro c
    rw [Bool.not_eq_true', ← Bool.not_eq_true, List.contains_iff_mem, ← not_or]
    exact not_congr List.mem_pair
  rw [Text.isBraceless, List.all_eq_true]
  simp only [hmark]
  exact ⟨fun h => ⟨fun hmem => (h _ hmem).1 rfl, fun hmem => (h _ hmem).2 rfl⟩,
    fun h c hc => ⟨ne_of_mem_of_not_mem hc h.1, ne_of_mem_of_not_mem hc h.2⟩⟩

/-- What is escaped in a string is escaped without braces. -/
theorem isBraceless_jsonCodePoint {ascii : Bool} {c : CodePoint}
    (h : Text.isBraceless [c] = true) : (Text.jsonCodePoint ascii c).isBraceless = true := by
  have hc := c.isLt
  have hunit : ∀ {n : Nat}, n < 0x10000 → (Text.unitEscape n).isBraceless = true := by
    intro n hn
    exact List.all_eq_true.mpr (Text.forall_mem_unitEscape (by decide) (by decide) hn)
  fun_cases Text.jsonCodePoint ascii c with
  | case1 | case2 | case3 | case4 | case5 | case6 | case7 => decide
  | case8 | case9 => exact hunit (by omega)
  | case10 =>
      rw [isBraceless_append, hunit (by omega), hunit (by omega)]
      rfl
  | case11 => exact h

theorem isBraceless_jsonString {ascii : Bool} {s : Text} (h : s.isBraceless = true) :
    (Text.jsonString ascii s).isBraceless = true := by
  have hinner : Text.isBraceless (s.flatMap (Text.jsonCodePoint ascii)) = true := by
    rw [Text.isBraceless, List.all_flatMap, List.all_eq_true]
    intro c hc
    refine isBraceless_jsonCodePoint (List.all_eq_true.mpr ?_)
    exact List.forall_mem_singleton.mpr (List.all_eq_true.mp h c hc)
  rw [Text.jsonString, isBraceless_append, ← List.singleton_append, isBraceless_append, hinner]
  rfl

section

variable (layout : Layout) (level : Nat)

theorem isBraceless_indentation : (indentation level).isBraceless = true := by
  rw [indentation, ← List.singleton_append, isBraceless_append, Bool.and_eq_true]
  refine ⟨by decide, List.all_eq_true.mpr ?_⟩
  intro c hc
  rw [List.eq_of_mem_replicate hc]
  decide

theorem isBraceless_break : (layout.break level).isBraceless = true := by
  rw [Layout.break]
  split
  · exact isBraceless_indentation level
  · rfl

theorem isBraceless_separator : (layout.separator level).isBraceless = true := by
  rw [Layout.separator]
  split
  · rw [← List.singleton_append, isBraceless_append, isBraceless_indentation]
    rfl
  · split <;> decide

end

theorem isBraceless_ofInt (n : Int) : (Text.ofInt n).isBraceless = true := by
  refine List.all_eq_true.mpr (Text.forall_mem_ofInt (by decide) ?_ n)
  intro c hdigit
  have hbraces : ∀ d ∈ Text.ofString "\x7b\x7d", d.isDigit = false := by decide
  rw [Bool.not_eq_true', ← Bool.not_eq_true, List.contains_iff_mem]
  intro hmem
  rw [hbraces c hmem] at hdigit
  cases hdigit

/-! ## Objects in texts -/

/-- The text holds the written objects one after another, and no other braces. -/
inductive ShowsObjects (layout : Layout) : Text → List Json → Prop
  | none {t : Text} (ht : t.isBraceless = true) : ShowsObjects layout t []
  | object {front rest : Text} {objects : List Json} (hfront : front.isBraceless = true)
      (level : Nat) (ms : Members) (hrest : ShowsObjects layout rest objects) :
      ShowsObjects layout (front ++ (written layout level (.obj ms) ++ rest))
        (.obj ms :: objects)

section

variable {layout : Layout} {s t : Text} {objects more : List Json}

theorem ShowsObjects.behind (hs : s.isBraceless = true) (h : ShowsObjects layout t objects) :
    ShowsObjects layout (s ++ t) objects := by
  cases h with
  | none ht => exact .none (by rw [isBraceless_append, hs, ht]; rfl)
  | object hfront level ms hrest =>
      rw [← List.append_assoc]
      exact .object (by rw [isBraceless_append, hs, hfront]; rfl) level ms hrest

theorem ShowsObjects.append (hs : ShowsObjects layout s objects)
    (ht : ShowsObjects layout t more) : ShowsObjects layout (s ++ t) (objects ++ more) := by
  induction hs with
  | none hs => exact ht.behind hs
  | object hfront level ms hrest ih =>
      rw [List.append_assoc, List.append_assoc]
      exact .object hfront level ms ih

theorem ShowsObjects.before (hs : ShowsObjects layout s objects) (ht : t.isBraceless = true) :
    ShowsObjects layout (s ++ t) objects := by
  have h := hs.append (.none ht)
  rwa [List.append_nil] at h

mutual

/-- A written value shows its outermost objects, by induction on the value. -/
theorem showsObjects_written : ∀ (v : Json) (level : Nat), v.isPlain = true →
    v.hasObjectBraces = true → ShowsObjects layout (written layout level v) v.outermostObjects
  | .null, _, _, _ => .none (t := Text.ofString "null") (by decide)
  | .bool false, _, _, _ => .none (t := Text.ofString "false") (by decide)
  | .bool true, _, _, _ => .none (t := Text.ofString "true") (by decide)
  | .int n, level, _, _ => by
      rw [written_int]
      exact .none (isBraceless_ofInt n)
  | .str s, level, _, hbraces => by
      rw [written_str]
      exact .none (isBraceless_jsonString hbraces)
  | .arr [], _, _, _ => .none (t := Text.ofString "[]") (by decide)
  | .arr (v :: rest), level, h, hbraces => by
      obtain ⟨hv, hrest⟩ := Bool.and_eq_true_iff.mp h
      obtain ⟨hvBraces, hrestBraces⟩ := Bool.and_eq_true_iff.mp hbraces
      have hitems := (showsObjects_written v (level + 1) hv hvBraces).append
        (showsObjects_writtenItems rest (level + 1) hrest hrestBraces)
      have hclosing : Text.isBraceless (layout.break level ++ [CodePoint.ofChar ']']) = true := by
        rw [isBraceless_append, isBraceless_break]
        decide
      have hopening :
          Text.isBraceless (CodePoint.ofChar '[' :: layout.break (level + 1)) = true := by
        rw [← List.singleton_append, isBraceless_append, isBraceless_break]
        decide
      rw [written_arr]
      have hwhole := (hitems.before hclosing).behind hopening
      rwa [List.append_assoc] at hwhole
  | .obj ms, level, _, _ => by
      have hbehind : ShowsObjects layout [] [] := .none rfl
      have h : ShowsObjects layout ([] ++ (written layout level (.obj ms) ++ [])) [.obj ms] :=
        .object rfl level ms hbehind
      rwa [List.nil_append, List.append_nil] at h

theorem showsObjects_writtenItems : ∀ (items : List Json) (level : Nat), arePlain items = true →
    haveObjectBraces items = true →
    ShowsObjects layout (writtenItems layout level items) (outermostObjectsOf items)
  | [], _, _, _ => .none (t := []) rfl
  | v :: rest, level, h, hbraces => by
      obtain ⟨hv, hrest⟩ := Bool.and_eq_true_iff.mp h
      obtain ⟨hvBraces, hrestBraces⟩ := Bool.and_eq_true_iff.mp hbraces
      rw [writtenItems_cons]
      exact ((showsObjects_written v level hv hvBraces).append
        (showsObjects_writtenItems rest level hrest hrestBraces)).behind
          (isBraceless_separator layout level)

end

theorem ShowsObjects.closing (h : ShowsObjects layout t objects) (hne : objects ≠ []) :
    ∃ before back, t = before ++ CodePoint.ofChar '\x7d' :: back
      ∧ CodePoint.ofChar '\x7d' ∉ back := by
  induction h with
  | none => exact absurd rfl hne
  | @object front rest objects hfront level ms hrest ih =>
      cases hrest with
      | none hbehind =>
          obtain ⟨body, hwritten⟩ := written_obj_brackets layout level ms
          refine ⟨front ++ CodePoint.ofChar '\x7b' :: body, rest, ?_,
            (isBraceless_iff.mp hbehind).2⟩
          rw [hwritten]
          simp
      | object =>
          obtain ⟨before, back, hrest, hback⟩ := ih (List.cons_ne_nil _ _)
          refine ⟨front ++ (written layout level (.obj ms) ++ before), back, ?_, hback⟩
          rw [hrest]
          simp

end

end Json

end TaskContract
