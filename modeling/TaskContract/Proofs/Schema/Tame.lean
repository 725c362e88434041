import TaskContract.Proofs.Schema.Valid

/-!
# Schemas that can be followed to the end

The validity of a schema does not ensure that values can be checked against it: a reference may lead
nowhere or in a circle, and a few keywords have values that cannot be used. Where nothing of the
kind is reached, the check of a value against a valid schema finishes.
-/

namespace TaskContract.Schema

def dividesAll (numbers : List Json) (v : Json) : Bool :=
  numbers.all fun w => (failsMultiple w v).isOk

/-- What the keywords of a valid schema need to be followed: no name stands twice, and what
`multipleOf`, `additionalItems` and `additionalProperties` read can be used. -/
def isOrdinary (divides : Json → Bool) : Json → Bool
  | .obj members => decide (members.map Prod.fst).Nodup &&
      ((Members.get? (Text.ofString "$ref") members).isSome
        || members.all fun m => isTractable divides members m.1 m.2)
  | _ => true

/-- Can a valid schema be followed for the check of a value? References lead to valid schemas and
not in a circle, and all schemas that are reached are ordinary. -/
def isTame (schema value : Json) : Bool :=
  (Library.ofDocument schema depthLimit).everyReached (fun _ _ => false) (fun s => (compile s).isOk)
    (isOrdinary (dividesAll value.numbers)) depthLimit ((identifier? schema).getD []) schema

/-- A value passes the check against a schema: nothing is found, and the check finishes. -/
def Passes (schema value : Json) : Prop :=
  (Validator.ofSchema schema).outcome value = {}

theorem passes_metaschema_iff {schema : Json} :
    Passes metaschema schema
      ↔ outcome metaLibrary depthLimit false [] [] draft07 metaschema schema = {} := by
  rw [Passes, Validator.outcome, Validator.ofSchema]
  dsimp only
  rw [identifier_metaschema]
  rfl

theorem isOk_compile_iff {schema : Json} :
    (compile schema).isOk = true ↔ Passes metaschema schema := by
  rw [Passes]
  unfold compile
  generalize (Validator.ofSchema metaschema).outcome schema = o
  obtain ⟨violations, obstacle⟩ := o
  cases violations <;> cases obstacle <;> simp [Except.isOk, Except.toBool]

theorem Passes.isValid {schema : Json} (h : Passes metaschema schema) : IsValid schema :=
  ⟨depthLimit, passes_metaschema_iff.mp h⟩

theorem isFollowable_of_isOrdinary {divides : Json → Bool} {schema : Json} (hvalid : IsValid schema)
    (h : isOrdinary divides schema = true) : isFollowable divides schema = true := by
  rcases hvalid.cases with ⟨members, rfl⟩ | ⟨b, rfl⟩
  · obtain ⟨hnames, htractable⟩ := Bool.and_eq_true_iff.mp h
    have hnames := of_decide_eq_true hnames
    rw [isFollowable]
    cases href : Members.get? (Text.ofString "$ref") members with
    | some r =>
        obtain ⟨t, rfl⟩ := hvalid.ref href
        rfl
    | none =>
        rw [href] at htractable
        refine List.all_eq_true.mpr fun m hm => Bool.and_eq_true_iff.mpr
          ⟨?_, List.all_eq_true.mp htractable m hm⟩
        have hv := Members.get?_of_mem hnames hm
        unfold hasPatterns
        split
        · rename_i hk
          rw [hk] at hv
          obtain ⟨t, ht, hpattern⟩ := hvalid.pattern hv
          rw [ht]
          exact hpattern
        split
        · rename_i hk
          rw [hk] at hv
          obtain ⟨schemas, hschemas, hpatterns⟩ := hvalid.patternProperties hv
          rw [hschemas]
          exact List.all_eq_true.mpr fun x hx => (hpatterns x hx).2
        · rfl
  · rfl

theorem everyReached_isFollowable {lib : Library} {divides : Json → Bool} {n : Nat} {base : Text}
    {schema : Json} (hvalid : IsValid schema)
    (h : lib.everyReached (fun _ _ => false) (fun s => (compile s).isOk) (isOrdinary divides) n base
      schema = true) :
    lib.everyReached (fun _ _ => false) (fun _ => true) (isFollowable divides) n base schema
      = true := by
  induction n generalizing base schema with
  | zero => cases h
  | succ n ih =>
      rcases hvalid.cases with ⟨members, rfl⟩ | ⟨b, rfl⟩
      · rw [Library.everyReached, Bool.and_eq_true] at h ⊢
        obtain ⟨hhere, hreached⟩ := h
        refine ⟨isFollowable_of_isOrdinary hvalid hhere, ?_⟩
        have hnames := of_decide_eq_true (Bool.and_eq_true_iff.mp hhere).1
        split at hreached
        · rw [Bool.false_or] at hreached ⊢
          split at hreached
          · obtain ⟨htarget, hreached⟩ := Bool.and_eq_true_iff.mp hreached
            exact ih (isOk_compile_iff.mp htarget).isValid hreached
          · cases hreached
        · refine List.all_eq_true.mpr fun m hm => List.all_eq_true.mpr fun s hs => ?_
          have hpart := List.all_eq_true.mp (List.all_eq_true.mp hreached m hm) s hs
          obtain ⟨hsame, hown⟩ := Bool.and_eq_true_iff.mp hpart
          have hs := hvalid.of_mem_parts (Members.get?_of_mem hnames hm) s hs
          refine Bool.and_eq_true_iff.mpr ⟨ih hs hsame, ?_⟩
          cases hid : identifier? s with
          | none => rfl
          | some id =>
              rw [hid] at hown
              exact ih hs hown
      · rfl

/-- The numbers among what is within a value are those that multiples are asked of. -/
theorem isOk_failsMultiple {ns : List Json} {v w : Json} (hv : dividesAll ns v = true)
    (hw : w.numbers ⊆ ns) (hnumber : isNumber w = true) : (failsMultiple w v).isOk = true := by
  cases w with
  | int n => exact List.all_eq_true.mp hv _ (hw (List.mem_singleton_self _))
  | float x => exact List.all_eq_true.mp hv _ (hw (List.mem_singleton_self _))
  | _ => cases hnumber

/-- **The check of a value against a valid schema finishes** if the schema can be followed. -/
theorem sample_finishes {schema value : Json} (hvalid : Passes metaschema schema)
    (htame : isTame schema value = true) :
    ((Validator.ofSchema schema).outcome value).Finishes := by
  have hreached := everyReached_isFollowable hvalid.isValid htame
  exact outcome_finishes (Json.isInherited_numbers value.numbers)
    (fun v w => isOk_failsMultiple) (fun _ _ h => absurd h Bool.false_ne_true)
    (Nat.le_of_eq (Nat.zero_add _)) (List.Subset.refl _) hreached

/-- How deep a schema may be nested for its own check. -/
def nestingLimit : Nat := 49

/-- **The check of a schema finishes** within the limit of the depth. -/
theorem schema_finishes {schema : Json} (h : schema.depth ≤ nestingLimit) :
    ((Validator.ofSchema metaschema).outcome schema).Finishes := by
  rw [Validator.outcome, Validator.ofSchema]
  dsimp only
  rw [identifier_metaschema]
  exact metaschema_finishes h (by decide)

end TaskContract.Schema
