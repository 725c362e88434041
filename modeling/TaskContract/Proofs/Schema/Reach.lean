import TaskContract.Proofs.Schema.Finished

/-!
# The schemas that a check reaches

A check goes from a schema into the schemas within its keywords and to the schemas that references
lead to. It finishes if it can follow each schema that it reaches.
-/

namespace TaskContract.Schema

/-- The base that the references in a schema are meant in. -/
def baseWithin (own : Bool) (base : Text) (schema : Json) : Text :=
  if own then ((identifier? schema).map (Uri.join base)).getD base else base

/-- The members of a schema that count: a reference silences those beside it. -/
def active (members : Members) : Members :=
  match Members.get? (Text.ofString "$ref") members with
  | some .null => members
  | some r => [(Text.ofString "$ref", r)]
  | none => members

def Library.follow (lib : Library) (depth : Nat) (base reference : Text) (value : Json) : Outcome :=
  match lib.resolve base reference with
  | .ok t => outcome lib depth false [] [] t.base t.schema value
  | .error e => .stop e

def Library.ruleOutcome (lib : Library) (depth : Nat) (base : Text) (schema : Members)
    (keyword : Text) (v value : Json) : Outcome :=
  keywordOutcome (fun s path schemaPath => outcome lib depth true path schemaPath base s)
    (fun s path schemaPath => outcome lib depth false path schemaPath base s)
    (lib.follow depth base) schema keyword v value

variable {lib : Library} {depth : Nat} {own : Bool} {path schemaPath : List Step} {base : Text}
  {members : Members} {value : Json}

theorem outcome_object :
    outcome lib (depth + 1) own path schemaPath base (.obj members) value
      = .within path schemaPath (.each (active members) fun m =>
          .within [] (if isTransparent m.1 then [] else [.name m.1])
            (lib.ruleOutcome depth (baseWithin own base (.obj members)) members m.1 m.2 value)) :=
  rfl

/-- Does every schema that a check can reach from a base fulfil a condition, with none of them more
than so many schemas deep? References that are known are not followed, and the schemas that the
others lead to fulfil a condition of their own. -/
def Library.everyReached (lib : Library) (known : Text → Text → Bool) (target ok : Json → Bool) :
    (depth : Nat) → (base : Text) → (schema : Json) → Bool
  | 0, _, _ => false
  | depth + 1, base, .obj members =>
    ok (.obj members) &&
      match Members.get? (Text.ofString "$ref") members with
      | some (.str r) => known base r ||
        match lib.resolve base r with
        | .ok t => target t.schema && lib.everyReached known target ok depth t.base t.schema
        | .error _ => false
      | _ => members.all fun m => (parts m.1 m.2).all fun s =>
        lib.everyReached known target ok depth base s
          && (identifier? s).all fun id =>
            lib.everyReached known target ok depth (Uri.join base id) s
  | _ + 1, _, schema => ok schema

theorem everyReached_baseWithin {known : Text → Text → Bool} {target ok : Json → Bool} {s : Json}
    (h : (lib.everyReached known target ok depth base s && (identifier? s).all fun id =>
      lib.everyReached known target ok depth (Uri.join base id) s) = true) (own : Bool) :
    lib.everyReached known target ok depth (baseWithin own base s) s = true := by
  obtain ⟨hsame, hown⟩ := Bool.and_eq_true_iff.mp h
  cases own with
  | false => exact hsame
  | true =>
      rw [baseWithin]
      cases hid : identifier? s with
      | none => exact hsame
      | some id => rwa [hid] at hown

def isFollowable (divides : Json → Bool) : Json → Bool
  | .bool _ => true
  | .obj members =>
    match Members.get? (Text.ofString "$ref") members with
    | some r => r.str?.isSome
    | none => members.all fun m => hasPatterns m.1 m.2 && isTractable divides members m.1 m.2
  | _ => false

section

variable {known : Text → Text → Bool} {target divides : Json → Bool} {n : Nat}

/-- The check of what a reference leads to finishes if the reference is known, or if the check does
at the schema that it leads to. -/
theorem follow_finishes {r : Text}
    (h : lib.everyReached known target (isFollowable divides) (n + 1) base (.obj members) = true)
    (href : Members.get? (Text.ofString "$ref") members = some (.str r))
    (hknown : known base r = true → (lib.follow depth base r value).Finishes)
    (htarget : ∀ t : Target,
      lib.everyReached known target (isFollowable divides) n t.base t.schema = true →
        (outcome lib depth false [] [] t.base t.schema value).Finishes) :
    (lib.follow depth base r value).Finishes := by
  rw [Library.everyReached, href, Bool.and_eq_true] at h
  rcases Bool.or_eq_true_iff.mp h.2 with hr | hr
  · exact hknown hr
  · unfold Library.follow
    split at hr
    · exact htarget _ (Bool.and_eq_true_iff.mp hr).2
    · cases hr

/-- The rule of a keyword finishes if the checks against the schemas within the keywords do. -/
theorem ruleOutcome_finishes {P : Json → Prop} (hP : Json.IsInherited P) (hvalue : P value)
    (hdivides : ∀ v w, divides v = true → P w → isNumber w = true → (failsMultiple w v).isOk = true)
    (h : isFollowable divides (.obj members) = true)
    (href : Members.get? (Text.ofString "$ref") members = none)
    (hparts : ∀ m ∈ members, ∀ s ∈ parts m.1 m.2, ∀ w, P w → ∀ own path schemaPath,
      (outcome lib depth own path schemaPath base s w).Finishes)
    {m : Text × Json} (hm : m ∈ members) :
    (lib.ruleOutcome depth base members m.1 m.2 value).Finishes := by
  rw [isFollowable, href] at h
  obtain ⟨hpatterns, htractable⟩ := Bool.and_eq_true_iff.mp (List.all_eq_true.mp h m hm)
  have hkeyword : m.1 ≠ Text.ofString "$ref" := fun hk =>
    Members.get?_eq_none_iff.mp href (hk ▸ List.mem_map_of_mem hm)
  refine keywordOutcome_finishes hP hvalue hkeyword hpatterns htractable hdivides
    (fun s hs w hw path schemaPath => ⟨hparts m hm s hs w hw true path schemaPath,
      hparts m hm s hs w hw false path schemaPath⟩) fun _ ok s hs w hw path schemaPath => ?_
  refine hparts _ (Members.mem_of_get? hs) s ?_ w hw true path schemaPath
  cases ok <;> exact List.mem_singleton_self s

/-- **A check finishes** if every schema that it reaches can be followed, the checks of what known
references lead to finish, and it may go deep enough. -/
theorem outcome_finishes {P : Json → Prop} {enough : Nat} (hP : Json.IsInherited P)
    (hdivides : ∀ v w, divides v = true → P w → isNumber w = true → (failsMultiple w v).isOk = true)
    (hknown : ∀ base r, known base r = true → ∀ depth value, enough ≤ depth → P value →
      (lib.follow depth base r value).Finishes)
    {schema : Json} (hdepth : enough + n ≤ depth) (hvalue : P value)
    (h : lib.everyReached known target (isFollowable divides) n (baseWithin own base schema) schema
      = true) :
    (outcome lib depth own path schemaPath base schema value).Finishes := by
  -- on how many schemas deep the check can get, which the depth that it has is enough for
  induction n generalizing depth own path schemaPath base schema value with
  | zero => cases h
  | succ n ih =>
      obtain ⟨depth, rfl⟩ : ∃ d, depth = d + 1 := ⟨depth - 1, by omega⟩
      cases schema with
      | bool b => cases b <;> rfl
      | obj members =>
          rw [outcome_object, Outcome.finishes_within]
          generalize baseWithin own base (.obj members) = base at h
          refine Outcome.finishes_each fun m hm => Outcome.finishes_within.mpr ?_
          have hreached := h
          rw [Library.everyReached, Bool.and_eq_true] at hreached
          obtain ⟨hhere, hreached⟩ := hreached
          cases href : Members.get? (Text.ofString "$ref") members with
          | some r =>
              cases r with
              | str r =>
                  rw [active, href, List.mem_singleton] at hm
                  subst hm
                  exact follow_finishes h href
                    (fun hr => hknown base r hr depth value (by omega) hvalue)
                    fun t ht => ih (by omega) hvalue ht
              | _ =>
                  rw [isFollowable, href] at hhere
                  cases hhere
          | none =>
              rw [active, href] at hm
              rw [href] at hreached
              refine ruleOutcome_finishes hP hvalue hdivides hhere href
                (fun m' hm' s hs w hw own path schemaPath => ?_) hm
              have hpart := List.all_eq_true.mp (List.all_eq_true.mp hreached m' hm') s hs
              exact ih (by omega) hw (everyReached_baseWithin hpart own)
      | _ => cases h

end

end TaskContract.Schema
