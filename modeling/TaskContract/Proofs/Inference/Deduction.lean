import TaskContract.Proofs.Schema.Registry
import TaskContract.Proofs.Schema.Tame
import TaskContract.Inference.Deduction

/-!
# What a reply gives

A reply that proposes a schema with an example is accepted exactly if the schema is valid and the
example fulfils it. Every error names the artifact, unless a check cannot be finished.
-/

namespace TaskContract

open Schema

/-- The reply is an object with a schema that is an object, an example that is an object or an
array, and a text. -/
structure Chat.Reply.Proposes (reply : Chat.Reply) (d : DeducedSchema) : Prop where
  content : ∃ members, reply = .response (.obj members)
    ∧ Members.get? (Text.ofString "schema") members = some d.schema
    ∧ Members.get? (Text.ofString "example") members = some d.sample
    ∧ Members.get? (Text.ofString "reasoning") members = some (.str d.reasoning)
  schema : ∃ members, d.schema = .obj members
  sample : (∃ members, d.sample = .obj members) ∨ ∃ items, d.sample = .arr items

namespace DeducedSchema

inductive Verdict (d : DeducedSchema) (fileName : Text) :
    Except DeductionError DeducedSchema → Prop where
  | badSchema {first : Violation} {rest : List Violation} {o : Option Obstacle}
      (schema : (Validator.ofSchema metaschema).outcome d.schema = ⟨first :: rest, o⟩) :
      Verdict d fileName (.error (.badSchema fileName first.message))
  | stopped {o : Obstacle} (schema : (Validator.ofSchema metaschema).outcome d.schema = .stop o) :
      Verdict d fileName (.error (.obstacle o))
  | stoppedBySample {o : Obstacle} (schema : Passes metaschema d.schema)
      (sample : ((Validator.ofSchema d.schema).outcome d.sample).obstacle = some o) :
      Verdict d fileName (.error (.obstacle o))
  | badExample {vs : List Violation} (schema : Passes metaschema d.schema)
      (sample : (Validator.ofSchema d.schema).violations d.sample = .ok vs) (found : vs ≠ []) :
      Verdict d fileName (.error (.badExample fileName vs))
  | accepted (schema : Passes metaschema d.schema) (sample : Passes d.schema d.sample) :
      Verdict d fileName (.ok d)

variable {d : DeducedSchema} {fileName : Text}

theorem sort_eq_nil {vs : List Violation} : Violation.sort vs = [] ↔ vs = [] := by
  rw [Violation.sort, ← List.length_eq_zero_iff, List.length_mergeSort, List.length_eq_zero_iff]

theorem violations_eq_nil {v : Validator} {sample : Json} :
    v.violations sample = .ok [] ↔ v.outcome sample = {} := by
  unfold Validator.violations
  obtain ⟨violations, obstacle⟩ := v.outcome sample
  cases obstacle with
  | some o => simp
  | none => simp [sort_eq_nil]

theorem verdict_check (registry : Registry) (h : ∃ members, d.schema = .obj members) :
    d.Verdict fileName (d.check fileName registry).1 := by
  obtain ⟨members, hmembers⟩ := h
  have hcompile := Registry.compile_object registry members
  rw [← hmembers] at hcompile
  unfold check
  generalize registry.compile d.schema = compiled at hcompile ⊢
  obtain ⟨compiled, after⟩ := compiled
  dsimp only at hcompile
  unfold Schema.compile at hcompile
  generalize hschema : (Validator.ofSchema metaschema).outcome d.schema = o at hcompile
  obtain ⟨violations, obstacle⟩ := o
  subst hcompile
  cases violations with
  | cons first rest => exact .badSchema hschema
  | nil =>
      cases obstacle with
      | some e => exact .stopped hschema
      | none =>
          dsimp only
          cases hsample : (Validator.ofSchema d.schema).violations d.sample with
          | error e =>
              refine .stoppedBySample hschema ?_
              unfold Validator.violations at hsample
              dsimp only at hsample
              split at hsample
              · obtain rfl := Except.error.inj hsample
                assumption
              · cases hsample
          | ok vs =>
              cases vs with
              | nil => exact .accepted hschema (violations_eq_nil.mp hsample)
              | cons first rest => exact .badExample hschema hsample (List.cons_ne_nil _ _)

namespace Verdict

variable {result : Except DeductionError DeducedSchema}

theorem ok_iff {d' : DeducedSchema} (h : d.Verdict fileName result) :
    result = .ok d' ↔ d' = d ∧ Passes metaschema d.schema ∧ Passes d.schema d.sample := by
  constructor
  · rintro rfl
    cases h with
    | accepted schema sample => exact ⟨rfl, schema, sample⟩
  · rintro ⟨rfl, hschema, hsample⟩
    cases h with
    | badSchema schema => cases schema.symm.trans hschema
    | stopped schema => cases schema.symm.trans hschema
    | stoppedBySample schema sample =>
        rw [hsample] at sample
        cases sample
    | badExample schema sample found =>
        exact absurd (Except.ok.inj (sample.symm.trans (violations_eq_nil.mpr hsample))) found
    | accepted => rfl

theorem badExample_iff {name : Text} {vs : List Violation} (h : d.Verdict fileName result) :
    result = .error (.badExample name vs) ↔ name = fileName ∧ vs ≠ [] ∧ Passes metaschema d.schema
      ∧ (Validator.ofSchema d.schema).violations d.sample = .ok vs := by
  constructor
  · rintro rfl
    cases h with
    | badExample schema sample found => exact ⟨rfl, found, schema, sample⟩
  · rintro ⟨rfl, hfound, hschema, hsample⟩
    cases h with
    | badSchema schema => cases schema.symm.trans hschema
    | stopped schema => cases schema.symm.trans hschema
    | stoppedBySample schema sample =>
        unfold Validator.violations at hsample
        dsimp only at hsample
        rw [sample] at hsample
        cases hsample
    | badExample schema sample =>
        obtain rfl := Except.ok.inj (sample.symm.trans hsample)
        rfl
    | accepted schema sample =>
        exact absurd (Except.ok.inj (hsample.symm.trans (violations_eq_nil.mpr sample))) hfound

theorem fileName_or_obstacle {e : DeductionError} (h : d.Verdict fileName (.error e)) :
    e.fileName? = some fileName ∨ ∃ o, e = .obstacle o := by
  cases h with
  | badSchema | badExample => exact .inl rfl
  | stopped | stoppedBySample => exact .inr ⟨_, rfl⟩

end Verdict

end DeducedSchema

open DeducedSchema

namespace Chat.Reply

variable {reply : Chat.Reply} {d d' : DeducedSchema} {fileName : Text}

theorem Proposes.unique (h : reply.Proposes d) (h' : reply.Proposes d') : d = d' := by
  obtain ⟨members, rfl, hschema, hsample, hreasoning⟩ := h.content
  obtain ⟨members', heq, hschema', hsample', hreasoning'⟩ := h'.content
  cases heq
  rw [hschema] at hschema'
  rw [hsample] at hsample'
  rw [hreasoning] at hreasoning'
  cases d
  cases d'
  cases hschema'
  cases hsample'
  cases hreasoning'
  rfl

theorem proposes_of_ofContent {members : Members}
    (h : DeducedSchema.ofContent? (.obj members) = some d) :
    (response (.obj members)).Proposes d := by
  simp only [DeducedSchema.ofContent?, Option.bind_eq_bind, Option.bind_eq_some_iff] at h
  obtain ⟨schema, hschema, sample, hsample, reasoning, ⟨v, hv, hreasoning⟩, h⟩ := h
  split at h
  · rename_i hshape
    obtain rfl := Option.some.inj h
    obtain ⟨hobject, hcollection⟩ := Bool.and_eq_true_iff.mp hshape
    refine ⟨⟨members, rfl, hschema, hsample, ?_⟩, ?_, ?_⟩
    · cases v with
      | str t => exact Option.some.inj hreasoning ▸ hv
      | _ => cases hreasoning
    · cases schema with
      | obj ms => exact ⟨ms, rfl⟩
      | _ => cases hobject
    · cases sample with
      | obj ms => exact .inl ⟨ms, rfl⟩
      | arr items => exact .inr ⟨items, rfl⟩
      | _ => cases hcollection
  · cases h

theorem Proposes.ofContent {members : Members} (h : (response (.obj members)).Proposes d) :
    DeducedSchema.ofContent? (.obj members) = some d := by
  obtain ⟨⟨members', heq, hschema, hsample, hreasoning⟩, ⟨ms, hobject⟩, hcollection⟩ := h
  cases heq
  have hshape : (d.sample.obj?.isSome || d.sample.arr?.isSome) = true := by
    obtain ⟨ms, hms⟩ | ⟨items, hitems⟩ := hcollection
    · rw [hms]
      rfl
    · rw [hitems]
      rfl
  simp only [DeducedSchema.ofContent?, Option.bind_eq_bind, Json.get?, hschema, hsample, hreasoning,
    Option.bind_some, Json.str?, hshape, Bool.and_true]
  exact if_pos (by rw [hobject]; rfl)

/-- What an answered request gives: there is no proposal, and the error says so, or the checks of
the proposal decide. -/
theorem verdict_ofReply (reply : Chat.Reply) (fileName : Text) (registry : Registry)
    (hanswered : ∀ f, reply ≠ .failed f) :
    ((∀ d, ¬reply.Proposes d) ∧
      ∃ e ∈ [.noResponse fileName, .noObject fileName, .wrongShape fileName],
        (DeducedSchema.ofReply reply fileName registry).1 = .error e)
    ∨ ∃ d, reply.Proposes d
      ∧ d.Verdict fileName (DeducedSchema.ofReply reply fileName registry).1 := by
  cases reply with
  | failed f => exact absurd rfl (hanswered f)
  | nothing => exact .inl ⟨fun d h => (nomatch h.content), _, .head _, rfl⟩
  | contentless => exact .inl ⟨fun d h => (nomatch h.content), _, .head _, rfl⟩
  | response content =>
      cases content with
      | obj members =>
          unfold DeducedSchema.ofReply
          dsimp only
          cases hcontent : DeducedSchema.ofContent? (.obj members) with
          | none =>
              refine .inl ⟨fun d h => ?_, _, .tail _ (.tail _ (.head _)), rfl⟩
              rw [h.ofContent] at hcontent
              cases hcontent
          | some d =>
              have hproposes := proposes_of_ofContent hcontent
              exact .inr ⟨d, hproposes, verdict_check registry hproposes.schema⟩
      | _ => exact .inl ⟨fun d h => (nomatch h.content), _, .tail _ (.head _), rfl⟩

end Chat.Reply

/-- The checks of a proposal can be finished: the schema is not nested too deep, and it can be
followed if it is valid. -/
structure DeducedSchema.IsTame (d : DeducedSchema) : Prop where
  shallow : d.schema.depth ≤ nestingLimit
  tame : Passes metaschema d.schema → isTame d.schema d.sample = true

theorem DeducedSchema.Verdict.not_tame {d : DeducedSchema} {fileName : Text} {o : Obstacle}
    (h : d.Verdict fileName (.error (.obstacle o))) : ¬d.IsTame := by
  intro htame
  cases h with
  | stopped schema =>
      have hfinishes := schema_finishes htame.shallow
      rw [schema] at hfinishes
      cases hfinishes
  | stoppedBySample schema sample =>
      have hfinishes := sample_finishes schema (htame.tame schema)
      rw [Outcome.Finishes, sample] at hfinishes
      cases hfinishes

/-- **What an answered request for a schema gives.** The proposal of the reply is the result, as it
stands, exactly if its schema is valid and its example fulfils the schema. If only the schema is
valid, the error lists the violations, of which there is at least one. Every error names the
artifact, unless a check is stopped, and then the proposal is not tame. -/
theorem deduce_answered {σ : Type} (client : Chat.Client σ) (model : Chat.Model) (code : Text)
    (a : ArtifactWrite) (registry : Registry) (state : σ) {reply : Chat.Reply}
    {result : Except DeductionError DeducedSchema}
    (hreply : (client (deductionRequest model code a) state).1 = reply)
    (hanswered : ∀ f, reply ≠ .failed f)
    (hresult : (deduce client model code a registry state).1 = result) :
    (∀ d, result = .ok d
        ↔ reply.Proposes d ∧ Passes metaschema d.schema ∧ Passes d.schema d.sample)
      ∧ (∀ name vs, result = .error (.badExample name vs)
        ↔ name = a.fileName ∧ vs ≠ [] ∧ ∃ d, reply.Proposes d ∧ Passes metaschema d.schema
          ∧ (Validator.ofSchema d.schema).violations d.sample = .ok vs)
      ∧ ∀ e, result = .error e → e.fileName? = some a.fileName
        ∨ (∃ o, e = .obstacle o) ∧ ∃ d, reply.Proposes d ∧ ¬d.IsTame := by
  have hverdict := reply.verdict_ofReply a.fileName registry hanswered
  obtain rfl : (DeducedSchema.ofReply reply a.fileName registry).1 = result := by
    rw [← hreply, ← hresult]
    rfl
  rcases hverdict with ⟨hnone, e, he, hresult⟩ | ⟨d, hd, hverdict⟩
  · rw [hresult]
    have hname : e.fileName? = some a.fileName ∧ ∀ name vs, e ≠ .badExample name vs := by
      simp only [List.mem_cons, List.not_mem_nil, or_false] at he
      rcases he with rfl | rfl | rfl <;> exact ⟨rfl, nofun⟩
    refine ⟨fun d => ⟨nofun, fun h => absurd h.1 (hnone d)⟩, fun name vs => ⟨fun h => ?_, ?_⟩,
      fun e' h => .inl ?_⟩
    · exact absurd (Except.error.inj h) (hname.2 name vs)
    · rintro ⟨-, -, d, hd, -⟩
      exact absurd hd (hnone d)
    · exact Except.error.inj h ▸ hname.1
  · refine ⟨fun d' => hverdict.ok_iff.trans ?_, fun name vs => hverdict.badExample_iff.trans ?_,
      fun e h => ?_⟩
    · constructor
      · rintro ⟨rfl, h⟩
        exact ⟨hd, h⟩
      · rintro ⟨hd', h⟩
        obtain rfl := hd'.unique hd
        exact ⟨rfl, h⟩
    · refine and_congr_right fun _ => and_congr_right fun _ => ?_
      constructor
      · exact fun h => ⟨d, hd, h⟩
      · rintro ⟨d', hd', h⟩
        obtain rfl := hd'.unique hd
        exact h
    · rw [h] at hverdict
      rcases hverdict.fileName_or_obstacle with hname | ⟨o, rfl⟩
      · exact .inl hname
      · exact .inr ⟨⟨o, rfl⟩, d, hd, hverdict.not_tame⟩

def proposing (d : DeducedSchema) : Chat.Client Unit :=
  fun _ s => (.response d.toJson, s)

/-- A schema with a mail address, which is described in a place of its own, and an example with a
text that is none. -/
def misaddressed : DeducedSchema where
  schema := .object [
    ("definitions", .object [("mail", .object [("format", .ofString "email")])]),
    ("properties", .object [("to", .object [("$ref", .ofString "#/definitions/mail")])])]
  sample := .object [("to", .ofString "nobody")]
  reasoning := Text.ofString "guessed"

/-- The example is rejected for the format of the text. -/
theorem misaddressed_rejected : (∀ f, Chat.Reply.response misaddressed.toJson ≠ .failed f) ∧
    ∃ vs, (deduce (proposing misaddressed) {} [] ⟨Text.ofString "mail.json", Text.ofString "send"⟩
        [] ()).1 = .error (.badExample (Text.ofString "mail.json") vs)
      ∧ vs.map Violation.keyword = [some (Text.ofString "format")] := by
  refine ⟨nofun, ?_⟩
  have hproposes : (Chat.Reply.response misaddressed.toJson).Proposes misaddressed :=
    Chat.Reply.proposes_of_ofContent rfl
  have hschema : Passes metaschema misaddressed.schema :=
    isOk_compile_iff.mp (by decide +kernel)
  have hkeywords : ((Validator.ofSchema misaddressed.schema).violations misaddressed.sample).map
      (List.map Violation.keyword) = .ok [some (Text.ofString "format")] := by
    decide +kernel
  cases hviolations : (Validator.ofSchema misaddressed.schema).violations misaddressed.sample with
  | error o =>
      rw [hviolations] at hkeywords
      cases hkeywords
  | ok vs =>
      rw [hviolations] at hkeywords
      have hkeywords := Except.ok.inj hkeywords
      have hfound : vs ≠ [] := by
        rintro rfl
        cases hkeywords
      exact ⟨vs, ((deduce_answered (proposing misaddressed) {} [] _ [] () rfl nofun rfl).2.1
        _ _).mpr ⟨rfl, hfound, misaddressed, hproposes, hschema, hviolations⟩, hkeywords⟩

example : misaddressed.IsTame :=
  ⟨by decide +kernel, fun _ => by decide +kernel⟩

/-- Without the description of the address the check is stopped. -/
example : ((deduce (proposing { misaddressed with
        schema := .object [("$ref", .ofString "#/definitions/mail")] }) {} []
      ⟨Text.ofString "mail.json", Text.ofString "send"⟩ [] ()).1
    matches .error (.obstacle _)) = true := by
  decide +kernel

end TaskContract
