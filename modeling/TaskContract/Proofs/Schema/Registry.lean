import Mathlib.Data.List.Induction
import TaskContract.Proofs.Sequence
import TaskContract.Schema.Validator

/-!
# What the registry holds

Under an identifier stands what the last call has made of it that compiled a schema with this
identifier. A schema that is refused is a call as well: it takes away what the identifier stood
for, and leaves all other identifiers alone.
-/

namespace TaskContract.Schema

def registeredAs? (schema : Json) : Option Text :=
  (schema.get? "$id").bind Json.str?

namespace Registry

def after (schemas : List Json) : Registry :=
  schemas.foldl (fun r schema => (r.compile schema).2) []

theorem after_append (schemas : List Json) (schema : Json) :
    after (schemas ++ [schema]) = ((after schemas).compile schema).2 := by
  simp [after]

/-! ## One call -/

theorem get?_cons (r : Registry) (id name : Text) (v : Validator) :
    get? ((id, v) :: r) name = if name = id then some v else r.get? name := by
  by_cases h : name = id
  · simp only [get?, List.lookup_cons, beq_iff_eq.mpr h, if_pos h]
  · simp only [get?, List.lookup_cons, beq_eq_false_iff_ne.mpr h, if_neg h]

theorem get?_erase (r : Registry) (id name : Text) :
    (r.erase id).get? name = if name = id then none else r.get? name := by
  induction r with
  | nil => simp [erase, get?]
  | cons e rest ih =>
      obtain ⟨known, v⟩ := e
      have herase : erase ((known, v) :: rest) id
          = if known = id then erase rest id else (known, v) :: erase rest id := by
        by_cases h : known = id <;> simp [erase, h]
      rw [herase, get?_cons]
      by_cases hknown : known = id
      · subst hknown
        rw [if_pos rfl, ih]
        split <;> rfl
      · rw [if_neg hknown, get?_cons, ih]
        by_cases hname : name = known
        · simp [hname, hknown]
        · simp [hname]

/-- What comes of an object does not depend on what has been registered. -/
theorem compile_object (r : Registry) (members : Members) :
    (r.compile (.obj members)).1 = Schema.compile (.obj members) := by
  unfold compile
  dsimp only
  split
  · cases Schema.compile (.obj members) <;> rfl
  · rfl

theorem compile_fst (r : Registry) (schema : Json) :
    (r.compile schema).1 = (compile [] schema).1 := by
  cases schema with
  | obj members => rw [compile_object, compile_object]
  | _ => rfl

theorem compile_of_identifier {schema : Json} {id : Text} (h : registeredAs? schema = some id)
    (r : Registry) :
    r.compile schema = match Schema.compile schema with
      | .ok v => (.ok v, (id, v) :: r.erase id)
      | .error fault => (.error fault, r.erase id) := by
  cases schema with
  | obj members =>
      have hid : Members.get? (Text.ofString "$id") members = some (.str id) := by
        obtain ⟨v, hv, hstr⟩ := Option.bind_eq_some_iff.mp h
        cases v with
        | str t =>
            obtain rfl := Option.some.inj hstr
            exact hv
        | _ => cases hstr
      unfold compile
      dsimp only
      generalize Members.get? (Text.ofString "$id") members = stated at hid ⊢
      obtain rfl := hid
      cases Schema.compile (.obj members) <;> rfl
  | _ => cases h

theorem result_of_identifier {schema : Json} {id : Text} (h : registeredAs? schema = some id)
    (r : Registry) : (r.compile schema).1 = Schema.compile schema := by
  cases schema with
  | obj members => exact compile_object r members
  | _ => cases h

theorem compile_of_anonymous {schema : Json} (h : registeredAs? schema = none) (r : Registry) :
    (r.compile schema).2 = r := by
  unfold compile
  split
  · rename_i members
    split
    · rename_i id hid
      have hsome : registeredAs? (.obj members) = some id := Option.bind_eq_some_iff.mpr ⟨_, hid, rfl⟩
      rw [h] at hsome
      cases hsome
    · rfl
  · rfl

/-- A call decides what stands under the identifier of its schema, and nothing else. -/
theorem get?_compile (r : Registry) (schema : Json) (id : Text) :
    (r.compile schema).2.get? id
      = if registeredAs? schema = some id then (r.compile schema).1.toOption else r.get? id := by
  cases h : registeredAs? schema with
  | none =>
      rw [compile_of_anonymous h]
      simp
  | some own =>
      rw [compile_of_identifier h]
      cases Schema.compile schema with
      | ok v =>
          dsimp only
          rw [get?_cons, get?_erase]
          by_cases hid : own = id
          · simp [hid, Except.toOption]
          · simp [hid, Ne.symm hid]
      | error fault =>
          dsimp only
          rw [get?_erase]
          by_cases hid : own = id
          · simp [hid, Except.toOption]
          · simp [hid, Ne.symm hid]

/-! ## All calls -/

/-- The last of some calls that was made for a schema with the identifier had the result. -/
def IsLastCall (schemas : List Json) (id : Text) (result : Except SchemaFault Validator) : Prop :=
  ∃ earlier schema later, schemas = earlier ++ schema :: later
    ∧ registeredAs? schema = some id ∧ ((after earlier).compile schema).1 = result
    ∧ ∀ s ∈ later, registeredAs? s ≠ some id

theorem isLastCall_append (schemas : List Json) (schema : Json) (id : Text)
    (result : Except SchemaFault Validator) :
    IsLastCall (schemas ++ [schema]) id result
      ↔ if registeredAs? schema = some id then ((after schemas).compile schema).1 = result
        else IsLastCall schemas id result := by
  constructor
  · rintro ⟨earlier, s, later, hsplit, hid, hresult, hlater⟩
    rcases List.eq_nil_or_concat' later with rfl | ⟨middle, last, rfl⟩
    · obtain ⟨rfl, hs⟩ := List.append_inj' hsplit rfl
      obtain rfl := List.singleton_inj.mp hs
      rw [if_pos hid]
      exact hresult
    · rw [← List.cons_append, ← List.append_assoc] at hsplit
      obtain ⟨rfl, hs⟩ := List.append_inj' hsplit rfl
      obtain rfl := List.singleton_inj.mp hs
      rw [if_neg (hlater _ (by simp))]
      exact ⟨earlier, s, middle, rfl, hid, hresult, fun x hx => hlater x (by simp [hx])⟩
  · intro h
    by_cases hid : registeredAs? schema = some id
    · rw [if_pos hid] at h
      exact ⟨schemas, schema, [], rfl, hid, h, by simp⟩
    · rw [if_neg hid] at h
      obtain ⟨earlier, s, later, rfl, hs, hresult, hlater⟩ := h
      refine ⟨earlier, s, later ++ [schema], by simp, hs, hresult, ?_⟩
      intro x hx
      rcases List.mem_append.mp hx with hx | hx
      · exact hlater x hx
      · rw [List.mem_singleton.mp hx]
        exact hid

/-- After any calls, the last one for the identifier decides what stands under it. -/
theorem get?_after (schemas : List Json) (id : Text) :
    (∃ result, IsLastCall schemas id result ∧ (after schemas).get? id = result.toOption)
      ∨ (∀ s ∈ schemas, registeredAs? s ≠ some id) ∧ (after schemas).get? id = none := by
  induction schemas using List.reverseRecOn with
  | nil => exact Or.inr ⟨nofun, rfl⟩
  | append_singleton schemas schema ih =>
      rw [after_append, get?_compile]
      simp only [isLastCall_append]
      by_cases hid : registeredAs? schema = some id
      · left
        simp [hid]
      · simp only [if_neg hid]
        rcases ih with hlast | ⟨hnone, hget⟩
        · exact Or.inl hlast
        · right
          refine ⟨?_, hget⟩
          intro s hs
          rcases List.mem_append.mp hs with hs | hs
          · exact hnone s hs
          · rw [List.mem_singleton.mp hs]
            exact hid

theorem IsLastCall.unique {schemas : List Json} {id : Text}
    {result result' : Except SchemaFault Validator} (h : IsLastCall schemas id result)
    (h' : IsLastCall schemas id result') : result = result' := by
  induction schemas using List.reverseRecOn with
  | nil =>
      obtain ⟨earlier, _, _, hsplit, -⟩ := h
      cases earlier <;> cases hsplit
  | append_singleton schemas schema ih =>
      rw [isLastCall_append] at h h'
      by_cases hid : registeredAs? schema = some id
      · rw [if_pos hid] at h h'
        exact h.symm.trans h'
      · rw [if_neg hid] at h h'
        exact ih h h'

/-- **The last call for an identifier decides.** After any calls, a validator stands under an
identifier exactly if the last call for a schema with this identifier gave it, and nothing does
exactly if there was no such call or if that call refused its schema. A call that refuses its schema
takes away what its own identifier stood for, and all others stand for what they did. -/
theorem last_compile_decides (schemas : List Json) (id : Text) :
    (∀ v, (after schemas).get? id = some v ↔ IsLastCall schemas id (.ok v))
      ∧ ((after schemas).get? id = none
        ↔ (∀ s ∈ schemas, registeredAs? s ≠ some id)
          ∨ ∃ fault, IsLastCall schemas id (.error fault))
      ∧ ∀ schema fault, ((after schemas).compile schema).1 = .error fault →
        (after (schemas ++ [schema])).get? id
          = if registeredAs? schema = some id then none else (after schemas).get? id := by
  have hnever : (∀ s ∈ schemas, registeredAs? s ≠ some id) →
      ∀ result, ¬IsLastCall schemas id result := by
    rintro h result ⟨earlier, s, later, rfl, hs, -⟩
    exact h s (by simp) hs
  refine ⟨?found, ?missing, ?refused⟩
  case refused =>
    intro schema fault h
    rw [after_append, get?_compile, h]
    rfl
  all_goals rcases get?_after schemas id with ⟨result, hlast, hget⟩ | ⟨hnone, hget⟩
  all_goals rw [hget]
  case found.inl =>
    intro v
    constructor
    · intro h
      rwa [eq_ok_of_toOption h] at hlast
    · intro h
      rw [hlast.unique h]
      rfl
  case found.inr =>
    intro v
    simp [hnever hnone]
  case missing.inl =>
    constructor
    · intro h
      obtain ⟨fault, rfl⟩ := eq_error_of_toOption h
      exact Or.inr ⟨fault, hlast⟩
    · rintro (h | ⟨fault, h⟩)
      · exact absurd hlast (hnever h result)
      · rw [hlast.unique h]
        rfl
  case missing.inr => exact iff_of_true rfl (Or.inl hnone)

theorem compile_eq_ok {schema : Json} (h : (Schema.compile schema).isOk = true) :
    Schema.compile schema = .ok (.ofSchema schema) := by
  unfold Schema.compile at h ⊢
  dsimp only at h ⊢
  split at h
  · cases h
  · cases h
  · rfl

/-! ## A definition that is refused -/

def noteId : Text := Text.ofString "urn:note"

def note : Json := .object [("$id", .str noteId)]

/-- The same identifier, with a title that is no text. -/
def misnamedNote : Json := .object [("$id", .str noteId), ("title", .int 1)]

def titledNote : Json := .object [("$id", .str noteId), ("title", .ofString "Note")]

theorem misnamedNote_refused : (Schema.compile misnamedNote).isOk = false := by
  decide +kernel

/-- A later definition stands, whatever has come before it. -/
theorem titledNote_stands :
    ((after [note]).compile misnamedNote).1.isOk = false
      ∧ (after [note, misnamedNote, titledNote]).get? noteId = some (.ofSchema titledNote) := by
  have hcompile : Schema.compile titledNote = .ok (.ofSchema titledNote) :=
    compile_eq_ok (by decide +kernel)
  have hmisnamed : registeredAs? misnamedNote = some noteId := rfl
  have htitled : registeredAs? titledNote = some noteId := rfl
  constructor
  · rw [result_of_identifier hmisnamed]
    exact misnamedNote_refused
  · refine ((last_compile_decides _ noteId).1 _).mpr
      ⟨[note, misnamedNote], titledNote, [], rfl, rfl, ?_, nofun⟩
    rw [result_of_identifier htitled, hcompile]

/-- A definition that is refused leaves nothing of the one before it, although that one is the last
that was not refused. -/
theorem misnamedNote_forgets :
    IsLastCall [note] noteId (.ok (.ofSchema note))
      ∧ (after [note]).get? noteId = some (.ofSchema note)
      ∧ registeredAs? misnamedNote = some noteId
      ∧ ((after [note]).compile misnamedNote).1.isOk = false
      ∧ (after [note, misnamedNote]).get? noteId = none := by
  have hid : registeredAs? note = some noteId := rfl
  have hmisnamed : registeredAs? misnamedNote = some noteId := rfl
  have hnote : ((after []).compile note).1 = .ok (.ofSchema note) := by
    rw [result_of_identifier hid]
    exact compile_eq_ok (by decide +kernel)
  have hrefused : ((after [note]).compile misnamedNote).1.isOk = false := by
    rw [result_of_identifier hmisnamed]
    exact misnamedNote_refused
  have hget : (after [note]).get? noteId = ((after []).compile note).1.toOption :=
    (get?_compile [] note noteId).trans (if_pos rfl)
  have hlast : (after [note, misnamedNote]).get? noteId
      = ((after [note]).compile misnamedNote).1.toOption :=
    (get?_compile (after [note]) misnamedNote noteId).trans (if_pos rfl)
  refine ⟨⟨[], note, [], rfl, rfl, hnote, nofun⟩, ?_, rfl, hrefused, ?_⟩
  · rw [hget, hnote]
    rfl
  · rw [hlast]
    cases hresult : ((after [note]).compile misnamedNote).1 with
    | ok v =>
        rw [hresult] at hrefused
        cases hrefused
    | error fault => rfl

end Registry

end TaskContract.Schema
