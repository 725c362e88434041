import TaskContract.Proofs.Schema.Metaschema

/-!
# Valid schemas

A schema that fulfils the schema of schemas has schemas and patterns where the rules of its keywords
look for them.
-/

namespace TaskContract.Schema

namespace Outcome

variable {α : Type} {a b o : Outcome} {xs : List α} {f : α → Outcome}

theorem append_eq_nothing (h : a ++ b = {}) : a = {} ∧ b = {} := by
  obtain ⟨violations, obstacle⟩ := a
  obtain ⟨violations', obstacle'⟩ := b
  change append _ _ = _ at h
  unfold append at h
  cases obstacle with
  | some e => cases h
  | none =>
      obtain ⟨hviolations, hobstacle⟩ := Outcome.mk.inj h
      obtain ⟨rfl, rfl⟩ := List.append_eq_nil_iff.mp hviolations
      exact ⟨rfl, congrArg (mk []) hobstacle⟩

theorem each_eq_nothing (h : each xs f = {}) : ∀ x ∈ xs, f x = {} := by
  induction xs with
  | nil => exact nofun
  | cons x rest ih =>
      rw [each] at h
      split at h
      · rename_i hobstacle
        rw [h] at hobstacle
        cases hobstacle
      · obtain ⟨hx, hrest⟩ := append_eq_nothing h
        exact List.forall_mem_cons.mpr ⟨hx, ih hrest⟩

theorem within_eq_nothing {path schemaPath : List Step} :
    within path schemaPath o = {} ↔ o = {} := by
  obtain ⟨violations, obstacle⟩ := o
  simp [within]

theorem bind_eq_nothing {r : Except Obstacle α} (h : bind r f = {}) :
    ∃ x, r = .ok x ∧ f x = {} := by
  cases r with
  | ok x => exact ⟨x, rfl, h⟩
  | error e => cases h

theorem eq_nothing_of_isClean (h : o.isClean = .ok true) : o = {} := by
  obtain ⟨violations, obstacle⟩ := o
  cases obstacle with
  | some e => cases h
  | none =>
      obtain rfl := List.isEmpty_iff.mp (Except.ok.inj h)
      rfl

theorem ite_eq_nothing {c : Bool} {keyword message : Text}
    (h : (if c then ofMessage keyword message else {}) = {}) : c = false := by
  cases c with
  | true => cases h
  | false => rfl

end Outcome

open Outcome

theorem firstWhere_some {test : Json → Except Obstacle Bool} {vs : List Json}
    {found : Json × List Json} (h : firstWhere test vs = .ok (some found)) :
    ∃ v ∈ vs, test v = .ok true := by
  induction vs with
  | nil => cases h
  | cons v rest ih =>
      rw [firstWhere] at h
      cases htest : test v with
      | error e => rw [htest] at h; cases h
      | ok passes =>
          rw [htest] at h
          cases passes with
          | true => exact ⟨v, List.mem_cons_self, htest⟩
          | false =>
              obtain ⟨w, hw, hpasses⟩ := ih h
              exact ⟨w, List.mem_cons_of_mem _ hw, hpasses⟩

theorem mem_indexed_of_mem {α : Type} {xs : List α} {x : α} (h : x ∈ xs) :
    ∃ i, (i, x) ∈ indexed xs := by
  obtain ⟨i, hi, rfl⟩ := List.getElem_of_mem h
  exact ⟨i, List.mem_map.mpr ⟨(xs[i], i), List.mem_zipIdx_iff_getElem?.mpr (by simp [hi]), rfl⟩⟩

/-- The places that lead to a check do not count for whether it passes. -/
theorem outcome_eq_nothing_iff {lib : Library} {depth : Nat} {own : Bool}
    {path schemaPath : List Step} {base : Text} {schema value : Json} :
    outcome lib depth own path schemaPath base schema value = {}
      ↔ outcome lib depth false [] [] (baseWithin own base schema) schema value = {} := by
  cases depth with
  | zero => rfl
  | succ depth =>
      cases schema with
      | obj members =>
          rw [outcome_object, outcome_object, within_eq_nothing, within_eq_nothing]
          rfl
      | bool b => cases b <;> rfl
      | _ => rfl

/-! ## Parts of the schema of schemas -/

def Fulfils (part value : Json) : Prop :=
  ∃ depth, outcome metaLibrary depth false [] [] draft07 part value = {}

def IsValid (schema : Json) : Prop :=
  Fulfils metaschema schema

variable {part value : Json} {members ms : Members}

theorem fulfils_of_outcome {depth : Nat} {own : Bool} {path schemaPath : List Step}
    (hid : identifier? part = none)
    (h : outcome metaLibrary depth own path schemaPath draft07 part value = {}) :
    Fulfils part value := by
  refine ⟨depth, ?_⟩
  rw [outcome_eq_nothing_iff, baseWithin, hid] at h
  cases own <;> exact h

theorem Fulfils.keyword (h : Fulfils (.obj members) value) {m : Text × Json}
    (hm : m ∈ active members) :
    ∃ depth, metaLibrary.ruleOutcome depth draft07 members m.1 m.2 value = {} := by
  obtain ⟨depth, h⟩ := h
  cases depth with
  | zero => cases h
  | succ depth =>
      rw [outcome_object, within_eq_nothing] at h
      exact ⟨depth, within_eq_nothing.mp (each_eq_nothing h m hm)⟩

theorem Fulfils.reference {r : Text} {target : Json}
    (h : Fulfils (.obj [(Text.ofString "$ref", .str r)]) value)
    (hr : metaLibrary.resolve draft07 r = .ok ⟨target, draft07⟩) : Fulfils target value := by
  obtain ⟨depth, h⟩ := h.keyword (List.Mem.head _)
  change metaLibrary.follow depth draft07 r value = {} at h
  rw [Library.follow, hr] at h
  exact ⟨depth, h⟩

theorem Fulfils.type {name : Text} (h : Fulfils (.obj members) value)
    (hm : (Text.ofString "type", .str name) ∈ active members) : isType name value = true := by
  obtain ⟨depth, h⟩ := h.keyword hm
  have hfits : (!(isType name value || false)) = false := ite_eq_nothing h
  simpa using hfits

theorem Fulfils.types {names : List Json} (h : Fulfils (.obj members) value)
    (hm : (Text.ofString "type", .arr names) ∈ active members) :
    ∃ name ∈ names, ∃ n, name.str? = some n ∧ isType n value = true := by
  obtain ⟨depth, h⟩ := h.keyword hm
  have hfits : (!names.any fun name => name.str?.any fun n => isType n value) = false :=
    ite_eq_nothing h
  simpa [Option.any_eq_true] using hfits

theorem Fulfils.format {name t : Text} (h : Fulfils (.obj members) (.str t))
    (hm : (Text.ofString "format", .str name) ∈ active members) : hasFormat name t = true := by
  obtain ⟨depth, h⟩ := h.keyword hm
  have hfits : (!hasFormat name t) = false := ite_eq_nothing h
  simpa using hfits

theorem Fulfils.items {s : Members} {items : List Json} (h : Fulfils (.obj members) (.arr items))
    (hm : (Text.ofString "items", .obj s) ∈ active members)
    (hid : identifier? (.obj s) = none) : ∀ v ∈ items, Fulfils (.obj s) v := by
  obtain ⟨depth, h⟩ := h.keyword hm
  intro v hv
  obtain ⟨i, hi⟩ := mem_indexed_of_mem hv
  have hitem := each_eq_nothing (show each (indexed items) (fun x =>
    outcome metaLibrary depth true [.index x.1] [] draft07 (.obj s) x.2) = {} from h) (i, v) hi
  exact fulfils_of_outcome hid hitem

theorem Fulfils.anyOf {parts : List Json} (h : Fulfils (.obj members) value)
    (hm : (Text.ofString "anyOf", .arr parts) ∈ active members)
    (hid : ∀ s ∈ parts, identifier? s = none) : ∃ s ∈ parts, Fulfils s value := by
  obtain ⟨depth, h⟩ := h.keyword hm
  obtain ⟨found, hfound, hsome⟩ := bind_eq_nothing h
  cases found with
  | none => cases hsome
  | some found =>
      obtain ⟨s, hs, hclean⟩ := firstWhere_some hfound
      exact ⟨s, hs, fulfils_of_outcome (hid s hs) (eq_nothing_of_isClean hclean)⟩

theorem Fulfils.properties {schemas : Members} (h : Fulfils (.obj members) (.obj ms))
    (hm : (Text.ofString "properties", .obj schemas) ∈ active members)
    {m : Text × Json} (hschema : m ∈ schemas) (hid : identifier? m.2 = none) {w : Json}
    (hw : Members.get? m.1 ms = some w) : Fulfils m.2 w := by
  obtain ⟨depth, h⟩ := h.keyword hm
  rw [Library.ruleOutcome, keywordOutcome_properties] at h
  have hmember := each_eq_nothing h m hschema
  rw [hw] at hmember
  exact fulfils_of_outcome hid hmember

theorem Fulfils.propertyNames {s : Json} (h : Fulfils (.obj members) (.obj ms))
    (hm : (Text.ofString "propertyNames", s) ∈ active members) (hid : identifier? s = none) :
    ∀ m ∈ ms, Fulfils s (.str m.1) := by
  obtain ⟨depth, h⟩ := h.keyword hm
  intro m hmem
  have hname := each_eq_nothing (show each ms (fun m =>
    outcome metaLibrary depth true [] [] draft07 s (.str m.1)) = {} from h) m hmem
  exact fulfils_of_outcome hid hname

/-- Without names and patterns in the schema, every member is an additional one. -/
theorem additionalMembers_of_none
    (hnames : Members.get? (Text.ofString "properties") members = none)
    (hpatterns : Members.get? (Text.ofString "patternProperties") members = none) :
    additionalMembers members ms = .ok ms := by
  unfold additionalMembers
  rw [hnames, hpatterns]
  change (if true = true then Except.ok (ms.filter fun _ => true) else _) = Except.ok ms
  rw [if_pos rfl, List.filter_true]

theorem Fulfils.additional {s : Members} (h : Fulfils (.obj members) (.obj ms))
    (hm : (Text.ofString "additionalProperties", .obj s) ∈ active members)
    (hnames : Members.get? (Text.ofString "properties") members = none)
    (hpatterns : Members.get? (Text.ofString "patternProperties") members = none)
    (hid : identifier? (.obj s) = none) : ∀ m ∈ ms, Fulfils (.obj s) m.2 := by
  obtain ⟨depth, h⟩ := h.keyword hm
  obtain ⟨extras, hextras, h⟩ := bind_eq_nothing h
  rw [additionalMembers_of_none hnames hpatterns] at hextras
  obtain rfl := Except.ok.inj hextras
  intro m hmem
  exact fulfils_of_outcome hid (each_eq_nothing h m hmem)

/-! ## What is within a valid schema -/

def keywordSchemas : Members :=
  ((metaschema.get? "properties").bind Json.obj?).getD []

def referenceTo (r : String) : Json :=
  .object [("$ref", .ofString r)]

def schemaArray : Json :=
  .object [("type", .ofString "array"), ("minItems", .int 1), ("items", referenceTo "#")]

def stringArray : Json :=
  .object [("type", .ofString "array"), ("items", .object [("type", .ofString "string")]),
    ("uniqueItems", .bool true), ("default", .arr [])]

def schemaObject (names : List (String × Json)) : Json :=
  .object ([("type", .ofString "object"), ("additionalProperties", referenceTo "#")] ++ names
    ++ [("default", .obj [])])

/-- What the value of each keyword has to fulfil that has schemas or patterns in its value. -/
def keywordShapes : Members :=
  schemaKeywords.map (fun k => (k, referenceTo "#"))
    ++ schemaArrayKeywords.map (fun k => (k, referenceTo "#/definitions/schemaArray"))
    ++ [(Text.ofString "properties", schemaObject []),
      (Text.ofString "patternProperties",
        schemaObject [("propertyNames", .object [("format", .ofString "regex")])]),
      (Text.ofString "items", .object [
        ("anyOf", .arr [referenceTo "#", referenceTo "#/definitions/schemaArray"]),
        ("default", .bool true)]),
      (Text.ofString "dependencies", .object [("type", .ofString "object"),
        ("additionalProperties", .object [
          ("anyOf", .arr [referenceTo "#", referenceTo "#/definitions/stringArray"])])]),
      (Text.ofString "pattern", .object [("type", .ofString "string"),
        ("format", .ofString "regex")]),
      (Text.ofString "$ref", .object [("type", .ofString "string"),
        ("format", .ofString "uri-reference")])]

deriving instance DecidableEq for Target

theorem keywordShapes_subset : ∀ m ∈ keywordShapes, m ∈ keywordSchemas := by
  decide +kernel

theorem keywordShapes_anonymous : ∀ m ∈ keywordShapes, identifier? m.2 = none := by
  decide +kernel

theorem resolve_schemaArray :
    metaLibrary.resolve draft07 (Text.ofString "#/definitions/schemaArray")
      = .ok ⟨schemaArray, draft07⟩ := by
  decide +kernel

theorem resolve_stringArray :
    metaLibrary.resolve draft07 (Text.ofString "#/definitions/stringArray")
      = .ok ⟨stringArray, draft07⟩ := by
  decide +kernel

theorem metaMembers_type :
    (Text.ofString "type", Json.arr [.ofString "object", .ofString "boolean"])
      ∈ active metaMembers := by
  rw [active_metaMembers]
  exact List.mem_of_getElem? (i := 4) rfl

theorem metaMembers_properties : (Text.ofString "properties", Json.obj keywordSchemas)
    ∈ active metaMembers := by
  rw [active_metaMembers]
  exact List.mem_of_getElem? (i := 5) rfl

theorem IsValid.keyword {k : Text} {x v : Json} (h : IsValid (.obj ms))
    (hx : (k, x) ∈ keywordShapes) (hv : Members.get? k ms = some v) : Fulfils x v := by
  rw [IsValid, metaschema_eq] at h
  exact h.properties metaMembers_properties (keywordShapes_subset _ hx)
    (keywordShapes_anonymous _ hx) hv

theorem Fulfils.whole (h : Fulfils (referenceTo "#") value) : IsValid value :=
  h.reference resolve_metaschema

/-- A valid schema is an object or a boolean. -/
theorem IsValid.cases {schema : Json} (h : IsValid schema) :
    (∃ members, schema = .obj members) ∨ ∃ b, schema = .bool b := by
  rw [IsValid, metaschema_eq] at h
  obtain ⟨name, hname, n, hn, htype⟩ := h.types metaMembers_type
  cases schema with
  | obj members => exact .inl ⟨members, rfl⟩
  | bool b => exact .inr ⟨b, rfl⟩
  | _ =>
      simp only [List.mem_cons, List.not_mem_nil, or_false] at hname
      rcases hname with rfl | rfl <;> obtain rfl := Option.some.inj hn <;> cases htype

theorem Fulfils.array (h : Fulfils schemaArray value) :
    ∃ items, value = .arr items ∧ ∀ s ∈ items, IsValid s := by
  have htype := h.type (.head _)
  cases value with
  | arr items =>
      exact ⟨items, rfl, fun s hs => (h.items (.tail _ (.tail _ (.head _))) rfl s hs).whole⟩
  | _ => cases htype

theorem Fulfils.text (h : Fulfils (.obj members) value)
    (hm : (Text.ofString "type", .ofString "string") ∈ active members) : ∃ t, value = .str t := by
  have htype := h.type hm
  cases value with
  | str t => exact ⟨t, rfl⟩
  | _ => cases htype

theorem Fulfils.object (h : Fulfils (.obj members) value)
    (hm : (Text.ofString "type", .ofString "object") ∈ active members) : ∃ ms, value = .obj ms := by
  have htype := h.type hm
  cases value with
  | obj ms => exact ⟨ms, rfl⟩
  | _ => cases htype

theorem Fulfils.names (h : Fulfils stringArray value) : ∃ items, value = .arr items := by
  have htype := h.type (.head _)
  cases value with
  | arr items => exact ⟨items, rfl⟩
  | _ => cases htype

section Keywords

variable {k : Text} {v : Json}

theorem IsValid.ref (h : IsValid (.obj ms))
    (hv : Members.get? (Text.ofString "$ref") ms = some v) : ∃ r, v = .str r :=
  (h.keyword (List.mem_of_getElem? (i := 16) rfl) hv).text (.head _)

theorem IsValid.pattern (h : IsValid (.obj ms))
    (hv : Members.get? (Text.ofString "pattern") ms = some v) :
    ∃ t, v = .str t ∧ isPattern t = true := by
  have hfulfils := h.keyword (List.mem_of_getElem? (i := 15) rfl) hv
  obtain ⟨t, rfl⟩ := hfulfils.text (.head _)
  exact ⟨t, rfl, hfulfils.format (.tail _ (.head _))⟩

theorem IsValid.properties (h : IsValid (.obj ms))
    (hv : Members.get? (Text.ofString "properties") ms = some v) :
    ∃ schemas, v = .obj schemas ∧ ∀ m ∈ schemas, IsValid m.2 := by
  have hfulfils := h.keyword (List.mem_of_getElem? (i := 11) rfl) hv
  obtain ⟨schemas, rfl⟩ := hfulfils.object (.head _)
  exact ⟨schemas, rfl, fun m hm =>
    (hfulfils.additional (.tail _ (.head _)) (by rfl) (by rfl) rfl m hm).whole⟩

theorem IsValid.patternProperties (h : IsValid (.obj ms))
    (hv : Members.get? (Text.ofString "patternProperties") ms = some v) :
    ∃ schemas, v = .obj schemas ∧ ∀ m ∈ schemas, IsValid m.2 ∧ isPattern m.1 = true := by
  have hfulfils := h.keyword (List.mem_of_getElem? (i := 12) rfl) hv
  obtain ⟨schemas, rfl⟩ := hfulfils.object (.head _)
  refine ⟨schemas, rfl, fun m hm => ⟨?_, ?_⟩⟩
  · exact (hfulfils.additional (.tail _ (.head _)) (by rfl) (by rfl) rfl m hm).whole
  · exact (hfulfils.propertyNames (.tail _ (.tail _ (.head _))) rfl m hm).format (.head _)

theorem IsValid.items (h : IsValid (.obj ms))
    (hv : Members.get? (Text.ofString "items") ms = some v) :
    IsValid v ∨ ∃ schemas, v = .arr schemas ∧ ∀ s ∈ schemas, IsValid s := by
  have hfulfils := h.keyword (List.mem_of_getElem? (i := 13) rfl) hv
  obtain ⟨part, hpart, hfulfils⟩ := hfulfils.anyOf (.head _) (by decide +kernel)
  simp only [List.mem_cons, List.not_mem_nil, or_false] at hpart
  rcases hpart with rfl | rfl
  · exact .inl hfulfils.whole
  · exact .inr (hfulfils.reference resolve_schemaArray).array

theorem IsValid.dependencies (h : IsValid (.obj ms))
    (hv : Members.get? (Text.ofString "dependencies") ms = some v) :
    ∃ members, v = .obj members ∧ ∀ m ∈ members, IsValid m.2 ∨ ∃ names, m.2 = .arr names := by
  have hfulfils := h.keyword (List.mem_of_getElem? (i := 14) rfl) hv
  obtain ⟨members, rfl⟩ := hfulfils.object (.head _)
  refine ⟨members, rfl, fun m hm => ?_⟩
  have hdependency := hfulfils.additional (.tail _ (.head _)) (by rfl) (by rfl) rfl m hm
  obtain ⟨part, hpart, hfulfils⟩ := hdependency.anyOf (.head _) (by decide +kernel)
  simp only [List.mem_cons, List.not_mem_nil, or_false] at hpart
  rcases hpart with rfl | rfl
  · exact .inl hfulfils.whole
  · exact .inr (hfulfils.reference resolve_stringArray).names

/-- **The schemas within a valid schema are valid.** -/
theorem IsValid.of_mem_parts (h : IsValid (.obj ms)) (hv : Members.get? k ms = some v) :
    ∀ s ∈ parts k v, IsValid s := by
  unfold parts
  -- a keyword holds a schema, a list of schemas, schemas by name, one of the first two, or schemas
  -- and lists of names by name
  split
  · rename_i hk
    have hmem : (k, referenceTo "#") ∈ keywordShapes :=
      List.mem_append_left _ (List.mem_append_left _
        (List.mem_map.mpr ⟨k, List.contains_iff_mem.mp hk, rfl⟩))
    exact List.forall_mem_singleton.mpr (h.keyword hmem hv).whole
  split
  · rename_i hk
    have hmem : (k, referenceTo "#/definitions/schemaArray") ∈ keywordShapes :=
      List.mem_append_left _ (List.mem_append_right _
        (List.mem_map.mpr ⟨k, List.contains_iff_mem.mp hk, rfl⟩))
    obtain ⟨schemas, rfl, hschemas⟩ := ((h.keyword hmem hv).reference resolve_schemaArray).array
    exact hschemas
  split
  · rename_i hk
    obtain ⟨schemas, rfl, hschemas⟩ : ∃ schemas, v = .obj schemas ∧ ∀ m ∈ schemas, IsValid m.2 := by
      rcases Bool.or_eq_true_iff.mp hk with hk | hk <;> obtain rfl := of_decide_eq_true hk
      · exact h.properties hv
      · obtain ⟨schemas, rfl, hschemas⟩ := h.patternProperties hv
        exact ⟨schemas, rfl, fun m hm => (hschemas m hm).1⟩
    exact List.forall_mem_map.mpr hschemas
  split
  · rename_i hk
    subst hk
    rcases h.items hv with hvalid | ⟨schemas, rfl, hschemas⟩
    · rcases hvalid.cases with ⟨members, rfl⟩ | ⟨b, rfl⟩ <;>
        exact List.forall_mem_singleton.mpr hvalid
    · exact hschemas
  split
  · rename_i hk
    subst hk
    obtain ⟨members, rfl, hmembers⟩ := h.dependencies hv
    intro s hs
    obtain ⟨hs, hnone⟩ := List.mem_filter.mp hs
    obtain ⟨m, hm, rfl⟩ := List.mem_map.mp hs
    rcases hmembers m hm with hvalid | ⟨names, hnames⟩
    · exact hvalid
    · rw [hnames] at hnone
      cases hnone
  · exact nofun

end Keywords

end TaskContract.Schema
