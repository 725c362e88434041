import TaskContract.Proofs.Schema.Reach

/-!
# The check of schemas

The schema of schemas refers to itself, and the check of a schema by it goes as deep as the schema
is nested: each step into the value of a keyword takes at most six steps of the check.
-/

namespace TaskContract.Schema

theorem identifier_metaschema : identifier? metaschema = some draft07 := by
  decide +kernel

theorem resolve_whole (schema : Json) (depth : Nat) :
    (Library.ofDocument schema depth).resolve ((identifier? schema).getD []) (Text.ofString "#")
      = .ok ⟨schema, (identifier? schema).getD []⟩ := by
  have href : Text.ofString "#" = [CodePoint.ofChar '#'] := by simp [Text.ofString]
  unfold Library.resolve
  rw [href, Library.ofDocument]
  dsimp only
  rw [if_pos rfl]
  dsimp only
  rw [List.lookup_cons_self]

def metaLibrary : Library :=
  Library.ofDocument metaschema depthLimit

def metaMembers : Members :=
  metaschema.obj?.getD []

/-- The reference of the schema of schemas to itself. -/
def isWhole (base reference : Text) : Bool :=
  base = draft07 && reference = Text.ofString "#"

theorem resolve_metaschema :
    metaLibrary.resolve draft07 (Text.ofString "#") = .ok ⟨metaschema, draft07⟩ := by
  have h := resolve_whole metaschema depthLimit
  rwa [identifier_metaschema] at h

theorem active_metaMembers : active metaMembers = metaMembers := by
  have hnone : (Members.get? (Text.ofString "$ref") metaMembers).isNone = true := by
    decide +kernel
  rw [active, Option.isNone_iff_eq_none.mp hnone]

theorem metaschema_eq : metaschema = .obj metaMembers :=
  rfl

set_option maxRecDepth 100000 in
/-- Of the members of the schema of schemas, only `properties` has schemas within it, and each of
these can be followed up to the references to the whole. -/
theorem metaMembers_followable : (metaMembers.all fun m =>
    if m.1 = Text.ofString "properties" then
      (m.2.obj?.getD []).all fun x =>
        metaLibrary.everyReached isWhole (fun _ => true) (isFollowable fun _ => false) 5
          (baseWithin true draft07 x.2) x.2
    else (parts m.1 m.2).isEmpty && hasPatterns m.1 m.2
      && isTractable (fun _ => false) metaMembers m.1 m.2
      && m.1 ≠ Text.ofString "$ref" && m.1 ≠ Text.ofString "if") = true := by
  decide +kernel

/-- **The check of a schema finishes** if the schema is not nested too deep. -/
theorem metaschema_finishes {n depth : Nat} {path schemaPath : List Step} {schema : Json}
    (hnested : schema.depth ≤ n) (hdepth : 6 * n + 1 ≤ depth) :
    (outcome metaLibrary depth false path schemaPath draft07 metaschema schema).Finishes := by
  induction n using Nat.strong_induction_on generalizing depth path schemaPath schema with
  | _ n ih =>
      obtain ⟨depth, rfl⟩ : ∃ d, depth = d + 1 := ⟨depth - 1, by omega⟩
      rw [metaschema_eq, outcome_object, active_metaMembers]
      refine Outcome.finishes_each fun m hm => Outcome.finishes_within.mpr ?_
      have hfollow := List.all_eq_true.mp metaMembers_followable m hm
      obtain ⟨k, v⟩ := m
      dsimp only at hfollow ⊢
      split at hfollow
      · rename_i hk
        subst hk
        refine finishes_properties fun members k s w hvalue hs hw path schemaPath => ?_
        -- a member is nested less deep: whatever refers to the whole there is shallower, too
        have hless : w.depth < n := (Json.depth_member hw).trans_le (hvalue ▸ hnested)
        have hwhole : ∀ base r, isWhole base r = true → ∀ depth value, 6 * (n - 1) + 1 ≤ depth →
            value.depth ≤ n - 1 → (metaLibrary.follow depth base r value).Finishes := by
          intro base r hr depth value henough hvalue
          obtain ⟨rfl, rfl⟩ : base = draft07 ∧ r = Text.ofString "#" := by
            simpa [isWhole] using hr
          rw [Library.follow, resolve_metaschema]
          exact ih (n - 1) (by omega) hvalue henough
        have hreached := List.all_eq_true.mp hfollow (k, s) hs
        refine outcome_finishes (Json.isInherited_depth (n - 1)) ?_ hwhole ?_
          (Nat.le_sub_one_of_lt hless) hreached
        · exact fun _ _ h => absurd h Bool.false_ne_true
        · omega
      · simp only [Bool.and_eq_true, decide_eq_true_eq] at hfollow
        obtain ⟨⟨⟨⟨hparts, hpatterns⟩, htractable⟩, href⟩, hif⟩ := hfollow
        refine keywordOutcome_finishes (Json.isInherited_depth n) hnested href hpatterns htractable
          nofun ?_ ?_
        · rw [List.isEmpty_iff.mp hparts]
          exact nofun
        · exact fun h => absurd h hif

end TaskContract.Schema
