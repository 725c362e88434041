import TaskContract.Proofs.Json.Structure
import TaskContract.Schema.Validator

/-!
# Checks that come to an end

What ends a check early comes from a few keywords only. The rule of a keyword finishes if the
checks of the schemas within the keyword do and the value of the keyword can be used.
-/

namespace TaskContract.Schema

namespace Outcome

/-- Nothing ends the check early. -/
def Finishes (o : Outcome) : Prop :=
  o.obstacle = none

variable {α : Type} {a b o : Outcome} {xs : List α} {f : α → Outcome}

theorem finishes_within {path schemaPath : List Step} :
    (within path schemaPath o).Finishes ↔ o.Finishes :=
  Iff.rfl

theorem finishes_ite {c : Prop} [Decidable c] (ha : c → a.Finishes) (hb : ¬c → b.Finishes) :
    (if c then a else b).Finishes := by
  split
  · exact ha ‹_›
  · exact hb ‹_›

theorem finishes_failIf (bad : Bool) (keyword message : Text) :
    (if bad = true then ofMessage keyword message else {}).Finishes :=
  finishes_ite (fun _ => rfl) fun _ => rfl

theorem finishes_append (ha : a.Finishes) (hb : b.Finishes) : (a ++ b).Finishes := by
  change (append a b).obstacle = none
  unfold append
  rw [show a.obstacle = none from ha]
  exact hb

theorem finishes_each (h : ∀ x ∈ xs, (f x).Finishes) : (each xs f).Finishes := by
  induction xs with
  | nil => rfl
  | cons x rest ih =>
      obtain ⟨hx, hrest⟩ := List.forall_mem_cons.mp h
      rw [each, show (f x).obstacle = none from hx]
      exact finishes_append hx (ih hrest)

theorem finishes_bind {r : Except Obstacle α} (hr : r.isOk = true)
    (hf : ∀ x, r = .ok x → (f x).Finishes) : (bind r f).Finishes := by
  cases r with
  | ok x => exact hf x rfl
  | error e => cases hr

theorem isOk_isValid (h : o.Finishes) : o.isValid.isOk = true := by
  unfold isValid
  rw [show o.obstacle = none from h]
  split <;> rfl

theorem isOk_isClean (h : o.Finishes) : o.isClean.isOk = true := by
  unfold isClean
  rw [show o.obstacle = none from h]
  rfl

end Outcome

open Outcome

section Tests

variable {test : Json → Except Obstacle Bool} {vs : List Json}

theorem isOk_firstWhere (h : ∀ v ∈ vs, (test v).isOk = true) :
    (firstWhere test vs).isOk = true := by
  induction vs with
  | nil => rfl
  | cons v rest ih =>
      obtain ⟨hv, hrest⟩ := List.forall_mem_cons.mp h
      rw [firstWhere]
      cases htest : test v with
      | error e => rw [htest] at hv; cases hv
      | ok passes =>
          cases passes with
          | true => rfl
          | false => exact ih hrest

/-- The items behind the first one that passes are items. -/
theorem firstWhere_subset {x : Json} {behind : List Json}
    (h : firstWhere test vs = .ok (some (x, behind))) : behind ⊆ vs := by
  induction vs with
  | nil => cases h
  | cons v rest ih =>
      rw [firstWhere] at h
      cases htest : test v with
      | error e => rw [htest] at h; cases h
      | ok passes =>
          rw [htest] at h
          cases passes with
          | true =>
              obtain ⟨-, rfl⟩ := Prod.mk.inj (Option.some.inj (Except.ok.inj h))
              exact List.subset_cons_self _ _
          | false => exact List.Subset.trans (ih h) (List.subset_cons_self _ _)

theorem isOk_allWhere (h : ∀ v ∈ vs, (test v).isOk = true) : (allWhere test vs).isOk = true := by
  induction vs with
  | nil => rfl
  | cons v rest ih =>
      obtain ⟨hv, hrest⟩ := List.forall_mem_cons.mp h
      rw [allWhere]
      cases htest : test v with
      | error e => rw [htest] at hv; cases hv
      | ok passes =>
          have hothers := ih hrest
          cases hrests : allWhere test rest with
          | error e => rw [hrests] at hothers; cases hothers
          | ok others => rfl

end Tests

/-! ## The schemas within a keyword -/

/-- The schemas in the value of a keyword that the rule of the keyword checks values against. -/
def parts (keyword : Text) (v : Json) : List Json :=
  if schemaKeywords.contains keyword then [v]
  else if schemaArrayKeywords.contains keyword then v.arr?.getD []
  else if keyword = "properties" || keyword = "patternProperties" then
    (v.obj?.getD []).map Prod.snd
  else if keyword = "items" then
    match v with
    | .arr schemas => schemas
    | s => [s]
  else if keyword = "dependencies" then
    ((v.obj?.getD []).map Prod.snd).filter fun d => d.arr?.isNone
  else []

theorem parts_items {v : Json} (h : ∀ schemas, v ≠ .arr schemas) :
    parts (Text.ofString "items") v = [v] := by
  cases v with
  | arr schemas => exact absurd rfl (h schemas)
  | _ => rfl

/-- The alternatives of the pattern that the members beside those of the schema are told by. -/
def joinedPatterns (schema : Members) : Text :=
  Text.join (Text.ofString "|")
    (((((Members.get? (Text.ofString "patternProperties") schema).bind Json.obj?).getD []).map
      Prod.fst))

def isPattern (t : Text) : Bool :=
  (Pattern.read? t).isSome

/-- Are the texts in the value of a keyword patterns where the rule of the keyword reads them as
such? -/
def hasPatterns (keyword : Text) (v : Json) : Bool :=
  if keyword = "pattern" then v.str?.all isPattern
  else if keyword = "patternProperties" then (v.obj?.getD []).all fun m => isPattern m.1
  else true

/-- Can the rule of a keyword be followed where the validity of the schema does not ensure it?
`divides` tells what numbers can be divided by. -/
def isTractable (divides : Json → Bool) (schema : Members) (keyword : Text) (v : Json) : Bool :=
  if keyword = "multipleOf" then divides v
  else if keyword = "additionalItems" then
    (Members.get? (Text.ofString "items") schema).all (!·.isBool)
  else if keyword = "additionalProperties" then
    (joinedPatterns schema).isEmpty || isPattern (joinedPatterns schema)
  else true

section Keywords

variable {check within : Json → List Step → List Step → Json → Outcome}
  {follow : Text → Json → Outcome} {schema : Members} {keyword : Text} {v value : Json}
  {P : Json → Prop} {divides : Json → Bool}

theorem mem_of_mem_indexed {α : Type} {xs : List α} {i : Nat} {x : α} (h : (i, x) ∈ indexed xs) :
    x ∈ xs := by
  obtain ⟨y, hy, heq⟩ := List.mem_map.mp h
  obtain ⟨-, rfl⟩ := Prod.mk.inj heq
  exact (List.mem_zipIdx' hy).2 ▸ List.getElem_mem _

theorem isOk_matchesPattern {p : Text} (h : isPattern p = true) (t : Text) :
    (matchesPattern p t).isOk = true := by
  obtain ⟨pattern, hp⟩ := Option.isSome_iff_exists.mp h
  rw [matchesPattern, hp]
  rfl

theorem isOk_additionalMembers {members : Members}
    (h : (joinedPatterns schema).isEmpty || isPattern (joinedPatterns schema)) :
    (additionalMembers schema members).isOk = true := by
  unfold additionalMembers
  dsimp only
  split
  · rfl
  · rename_i hjoined
    obtain ⟨hjoined, -⟩ := not_or.mp fun hc => hjoined (Bool.or_eq_true_iff.mpr hc)
    obtain ⟨p, hp⟩ := Option.isSome_iff_exists.mp
      ((Bool.or_eq_true_iff.mp h).resolve_left hjoined)
    rw [joinedPatterns] at hp
    rw [hp]
    rfl

theorem additionalMembers_subset {members extras : Members}
    (h : additionalMembers schema members = .ok extras) : extras ⊆ members := by
  unfold additionalMembers at h
  dsimp only at h
  split at h
  · obtain rfl := Except.ok.inj h
    exact List.filter_sublist.subset
  · split at h
    · cases h
    · obtain rfl := Except.ok.inj h
      exact List.Subset.trans List.filter_sublist.subset List.filter_sublist.subset

/-! ## The rules of the keywords -/

theorem keywordOutcome_properties {members : Members} :
    keywordOutcome check within follow schema (Text.ofString "properties") v (.obj members)
      = .each (v.obj?.getD []) fun m =>
          match Members.get? m.1 members with
          | some w => check m.2 [.name m.1] [.name m.1] w
          | none => {} :=
  rfl

/-- The members of a value are checked by name, and the value itself is not. -/
theorem finishes_properties
    (h : ∀ members k s w, value = .obj members → (k, s) ∈ v.obj?.getD [] → (k, w) ∈ members →
      ∀ path schemaPath, (check s path schemaPath w).Finishes) :
    (keywordOutcome check within follow schema (Text.ofString "properties") v value).Finishes := by
  cases value with
  | obj members =>
      rw [keywordOutcome_properties]
      refine finishes_each fun x hx => ?_
      split
      · rename_i w hw
        exact h members _ _ w rfl hx (Members.mem_of_get? hw) _ _
      · rfl
  | _ => rfl

def generalKeywords : List String :=
  ["$ref", "type", "enum", "const", "minimum", "maximum", "exclusiveMinimum", "exclusiveMaximum",
    "multipleOf", "format", "if", "not", "allOf", "anyOf", "oneOf"]

theorem finishes_general (hkeyword : ∃ k ∈ generalKeywords, keyword = Text.ofString k)
    (href : keyword ≠ Text.ofString "$ref")
    (hdivides : keyword = Text.ofString "multipleOf" → isNumber value = true →
      (failsMultiple value v).isOk = true)
    (hcheck : ∀ s ∈ parts keyword v, ∀ path schemaPath, (check s path schemaPath value).Finishes)
    (hwithin : ∀ s ∈ parts keyword v, (within s [] [] value).isValid.isOk = true)
    (hbranch : keyword = Text.ofString "if" → ∀ (ok : Bool) s,
      Members.get? (Text.ofString (if ok then "then" else "else")) schema = some s →
        ∀ path schemaPath, (check s path schemaPath value).Finishes) :
    (keywordOutcome check within follow schema keyword v value).Finishes := by
  unfold keywordOutcome
  dsimp only
  refine finishes_ite (fun h => absurd h href) fun _ => ?_
  -- `type`, `enum` and `const`
  iterate 3 refine finishes_ite (fun _ => finishes_failIf _ _ _) fun _ => ?_
  iterate 4
    -- the limits of numbers
    refine finishes_ite (fun _ => finishes_ite (fun _ => ?_) fun _ => rfl) fun _ => ?_
    · split
      · exact finishes_failIf _ _ _
      · rfl
  refine finishes_ite (fun h => ?_) fun _ => ?_
  · -- `multipleOf`
    exact finishes_ite (fun hn => finishes_bind (hdivides h hn) fun _ _ => finishes_failIf _ _ _)
      fun _ => rfl
  refine finishes_ite (fun _ => ?_) fun _ => ?_
  · -- `format`
    split
    · exact finishes_failIf _ _ _
    · rfl
  refine finishes_ite (fun h => ?_) fun _ => ?_
  · -- `if`, whose branches are neighbours of it
    have hv : v ∈ parts keyword v := h ▸ List.mem_singleton_self v
    refine finishes_bind (hwithin v hv) fun ok _ => ?_
    split
    · rename_i s hs
      exact hbranch h ok s hs _ _
    · rfl
  refine finishes_ite (fun h => ?_) fun _ => ?_
  · -- `not`
    have hv : v ∈ parts keyword v := h ▸ List.mem_singleton_self v
    exact finishes_bind (hwithin v hv) fun _ _ => finishes_failIf _ _ _
  refine finishes_ite (fun h => ?_) fun _ => ?_
  · -- `allOf`
    subst h
    exact finishes_each fun x hx => hcheck _ (mem_of_mem_indexed hx) _ _
  refine finishes_ite (fun h => ?_) fun _ => ?_
  · -- `anyOf`
    subst h
    exact finishes_bind (isOk_firstWhere fun s hs => isOk_isClean (hcheck s hs _ _))
      fun _ _ => finishes_failIf _ _ _
  refine finishes_ite (fun h => ?_) fun _ => ?_
  · -- `oneOf`
    subst h
    refine finishes_bind (isOk_firstWhere fun s hs => isOk_isClean (hcheck s hs _ _))
      fun found hfound => ?_
    split
    · rfl
    · exact finishes_bind (isOk_allWhere fun s hs => hwithin s (firstWhere_subset hfound hs))
        fun _ _ => finishes_failIf _ _ _
  · obtain ⟨k, hk, h⟩ := hkeyword
    simp only [generalKeywords, List.mem_cons, List.not_mem_nil, or_false] at hk
    rcases hk with rfl | rfl | rfl | rfl | rfl | rfl | rfl | rfl | rfl | rfl | rfl | rfl | rfl
      | rfl | rfl <;> exact absurd h (by with_reducible assumption)

section Special

variable (hkeyword : ∀ k ∈ generalKeywords, keyword ≠ Text.ofString k)
include hkeyword

theorem finishes_text {t : Text} (hpatterns : hasPatterns keyword v = true) :
    (keywordOutcome check within follow schema keyword v (.str t)).Finishes := by
  unfold keywordOutcome
  dsimp only
  iterate 15 refine finishes_ite (fun h => absurd h (hkeyword _ (by decide))) fun _ => ?_
  -- `minLength` and `maxLength`
  iterate 2 refine finishes_ite (fun _ => finishes_failIf _ _ _) fun _ => ?_
  refine finishes_ite (fun h => ?_) fun _ => rfl
  subst h
  split
  · exact finishes_bind (isOk_matchesPattern hpatterns _) fun _ _ => finishes_failIf _ _ _
  · rfl

theorem finishes_array {values : List Json}
    (hitems : isTractable divides schema keyword v = true)
    (hcheck : ∀ s ∈ parts keyword v, ∀ w ∈ values, ∀ path schemaPath,
      (check s path schemaPath w).Finishes)
    (hwithin : ∀ s ∈ parts keyword v, ∀ w ∈ values, (within s [] [] w).isValid.isOk = true) :
    (keywordOutcome check within follow schema keyword v (.arr values)).Finishes := by
  unfold keywordOutcome
  dsimp only
  iterate 15 refine finishes_ite (fun h => absurd h (hkeyword _ (by decide))) fun _ => ?_
  refine finishes_ite (fun h => ?_) fun _ => ?_
  · -- `items`
    subst h
    split
    · refine finishes_each fun x hx => ?_
      obtain ⟨hw, hs⟩ := List.of_mem_zip (mem_of_mem_indexed hx)
      exact hcheck _ hs _ hw _ _
    · rename_i hschema
      rw [parts_items hschema] at hcheck
      exact finishes_each fun x hx =>
        hcheck v (List.mem_singleton_self v) _ (mem_of_mem_indexed hx) _ _
  refine finishes_ite (fun h => ?_) fun _ => ?_
  · -- `additionalItems`
    subst h
    split
    · split
      · exact finishes_each fun x hx => hcheck _ (List.mem_singleton_self _) _
          (mem_of_mem_indexed (List.mem_of_mem_drop hx)) _ _
      · exact finishes_failIf _ _ _
    · rename_i hbool
      have hlist : (Members.get? (Text.ofString "items") schema).all (!·.isBool) = true := hitems
      rw [hbool] at hlist
      cases hlist
    · rfl
  -- `minItems`, `maxItems` and `uniqueItems`
  iterate 3 refine finishes_ite (fun _ => finishes_failIf _ _ _) fun _ => ?_
  refine finishes_ite (fun h => ?_) fun _ => rfl
  subst h
  exact finishes_bind (isOk_firstWhere fun w hw => hwithin v (List.mem_singleton_self v) w hw)
    fun _ _ => finishes_failIf _ _ _

theorem finishes_object {members : Members} (hpatterns : hasPatterns keyword v = true)
    (hjoined : isTractable divides schema keyword v = true)
    (hcheck : ∀ s ∈ parts keyword v, ∀ m ∈ members, ∀ path schemaPath,
      (check s path schemaPath m.2).Finishes ∧ (check s path schemaPath (.str m.1)).Finishes)
    (hself : ∀ s ∈ parts keyword v, ∀ path schemaPath,
      (check s path schemaPath (.obj members)).Finishes) :
    (keywordOutcome check within follow schema keyword v (.obj members)).Finishes := by
  unfold keywordOutcome
  dsimp only
  iterate 15 refine finishes_ite (fun h => absurd h (hkeyword _ (by decide))) fun _ => ?_
  refine finishes_ite (fun h => ?_) fun _ => ?_
  · -- `properties`
    subst h
    refine finishes_each fun x hx => ?_
    split
    · rename_i w hw
      exact (hcheck _ (List.mem_map_of_mem hx) _ (Members.mem_of_get? hw) _ _).1
    · rfl
  -- `required`
  refine finishes_ite (fun _ => finishes_each fun _ _ => finishes_failIf _ _ _) fun _ => ?_
  refine finishes_ite (fun h => ?_) fun _ => ?_
  · -- `additionalProperties`
    subst h
    refine finishes_bind (isOk_additionalMembers hjoined) fun extras hextras => ?_
    split
    · exact finishes_each fun x hx =>
        (hcheck _ (List.mem_singleton_self _) _ (additionalMembers_subset hextras hx) _ _).1
    · split
      · exact finishes_failIf _ _ _
      · exact finishes_failIf _ _ _
  refine finishes_ite (fun h => ?_) fun _ => ?_
  · -- `patternProperties`
    subst h
    refine finishes_each fun x hx => finishes_each fun m hm => ?_
    refine finishes_bind (isOk_matchesPattern (List.all_eq_true.mp hpatterns x hx) _) fun _ _ => ?_
    exact finishes_ite (fun _ => (hcheck _ (List.mem_map_of_mem hx) m hm _ _).1) fun _ => rfl
  refine finishes_ite (fun h => ?_) fun _ => ?_
  · -- `propertyNames`
    subst h
    exact finishes_each fun m hm => (hcheck v (List.mem_singleton_self v) m hm _ _).2
  -- `minProperties` and `maxProperties`
  iterate 2 refine finishes_ite (fun _ => finishes_failIf _ _ _) fun _ => ?_
  refine finishes_ite (fun h => ?_) fun _ => rfl
  -- `dependencies`
  subst h
  refine finishes_each fun x hx => finishes_ite (fun _ => rfl) fun _ => ?_
  split
  · exact finishes_each fun _ _ => finishes_failIf _ _ _
  · rename_i hnames
    exact hself _ (List.mem_filter.mpr ⟨List.mem_map_of_mem hx, Json.isNone_arr hnames⟩) _ _

/-- The other keywords say nothing of values that are no texts, arrays or objects. -/
theorem finishes_other (hstr : value.str? = none) (harr : value.arr? = none)
    (hobj : value.obj? = none) :
    (keywordOutcome check within follow schema keyword v value).Finishes := by
  unfold keywordOutcome
  dsimp only
  iterate 15 refine finishes_ite (fun h => absurd h (hkeyword _ (by decide))) fun _ => ?_
  split
  · cases hstr
  · cases harr
  · cases hobj
  · rfl

end Special

/-- **The rule of a keyword finishes** if the keyword can be followed and the checks of what is
within the value against the schemas within the keyword finish, those of the branches of a
condition included. -/
theorem keywordOutcome_finishes (hP : Json.IsInherited P) (hvalue : P value)
    (href : keyword ≠ Text.ofString "$ref")
    (hpatterns : hasPatterns keyword v = true)
    (htractable : isTractable divides schema keyword v = true)
    (hdivides : ∀ v w, divides v = true → P w → isNumber w = true → (failsMultiple w v).isOk = true)
    (hparts : ∀ s ∈ parts keyword v, ∀ w, P w → ∀ path schemaPath,
      (check s path schemaPath w).Finishes ∧ (within s path schemaPath w).Finishes)
    (hbranch : keyword = Text.ofString "if" → ∀ (ok : Bool) s,
      Members.get? (Text.ofString (if ok then "then" else "else")) schema = some s →
        ∀ w, P w → ∀ path schemaPath, (check s path schemaPath w).Finishes) :
    (keywordOutcome check within follow schema keyword v value).Finishes := by
  have hcheck : ∀ s ∈ parts keyword v, ∀ w, P w → ∀ path schemaPath,
      (check s path schemaPath w).Finishes :=
    fun s hs w hw path schemaPath => (hparts s hs w hw path schemaPath).1
  have hwithin : ∀ s ∈ parts keyword v, ∀ w, P w → (within s [] [] w).isValid.isOk = true :=
    fun s hs w hw => isOk_isValid (hparts s hs w hw [] []).2
  by_cases hgeneral : ∃ k ∈ generalKeywords, keyword = Text.ofString k
  · refine finishes_general hgeneral href ?_ (fun s hs => hcheck s hs value hvalue)
      (fun s hs => hwithin s hs value hvalue) fun h ok s hs => hbranch h ok s hs value hvalue
    rintro rfl hnumber
    exact hdivides v value htractable hvalue hnumber
  · have hkeyword : ∀ k ∈ generalKeywords, keyword ≠ Text.ofString k :=
      fun k hk h => hgeneral ⟨k, hk, h⟩
    cases value with
    | str t => exact finishes_text hkeyword hpatterns
    | arr values =>
        exact finishes_array hkeyword htractable
          (fun s hs w hw => hcheck s hs w (hP.item hvalue hw))
          fun s hs w hw => hwithin s hs w (hP.item hvalue hw)
    | obj members =>
        exact finishes_object hkeyword hpatterns htractable
          (fun s hs m hm path schemaPath => ⟨hcheck s hs m.2 (hP.member hvalue hm) path schemaPath,
            hcheck s hs _ (hP.name hvalue hm) path schemaPath⟩)
          fun s hs => hcheck s hs _ hvalue
    | _ => exact finishes_other hkeyword rfl rfl rfl

end Keywords

end TaskContract.Schema
