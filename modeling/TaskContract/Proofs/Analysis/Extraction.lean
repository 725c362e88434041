import TaskContract.Analysis.Artifacts
import TaskContract.Analysis.Models
import TaskContract.Proofs.Analysis.Descent
import TaskContract.Proofs.Sequence
import TaskContract.Script.Fault

/-!
# Extraction is a descent

The extractors walk the tree with a stack, search upwards from each call and compare spans. Here
they are compared with one descent, which reads each call off what surrounds it.

- `artifactAt`, `modelAt`: what a descent reads off a call.
- `artifactCall_eq`: the reading of one call, seen from below and from above.
- `extraction_is_descent`: the extractors find what the descent finds.
-/

namespace TaskContract.Analysis

open Script Script.Node

/-! ## What a descent reads off a call -/

/-- The record of a call of a method of `io` with the given surroundings: one with a name if the
first argument is a literal, otherwise one with the source text of that argument. -/
def artifactAt {ρ : Type} (s : Source) (method : Text) (resolved : Text → Text → ρ)
    (required : Option Bool) (u : Surroundings) (call : Node) :
    Except CallError (ρ ⊕ UnresolvedReference) :=
  let location := s.location call.start
  match u.stage? with
  | none => .error (.outsideStage (ioObject ++ Text.ofString "." ++ method) location)
  | some stage =>
    let unresolved (expression : Text) : UnresolvedReference :=
      { expression, codeContext := Text.ofChars (s.context location.line), stage, location,
        required }
    match (callArguments call).head? with
    | none => .ok (.inr (unresolved []))
    | some argument =>
      match literalText? s argument with
      | .error e => .error (.escape e)
      | .ok none => .ok (.inr (unresolved (s.nodeText argument)))
      | .ok (some fileName) => .ok (.inl (resolved fileName stage))

/-- A read is required if no `try` statement has been entered. -/
def readAt (s : Source) (u : Surroundings) (call : Node) :
    Except CallError (ArtifactRead ⊕ UnresolvedReference) :=
  artifactAt s readMethod (fun fileName stage => { fileName, stage, required := !u.inTry })
    (some !u.inTry) u call

def writeAt (s : Source) (u : Surroundings) (call : Node) :
    Except CallError (ArtifactWrite ⊕ UnresolvedReference) :=
  artifactAt s writeMethod (fun fileName stage => { fileName, stage }) none u call

def modelAt (s : Source) (u : Surroundings) (call : Node) (provider method : Text) :
    Except CallError ModelCall :=
  match u.stage? with
  | none => .error (.outsideStage (Text.ofString "LLM") (s.location call.start))
  | some stage => .ok { provider, method, stage }

/-! ## What a descent finds -/

/-- The reads that a descent finds; the first call that cannot be read off stops it. -/
def readsByDescent (s : Source) (root : Node) : Except CallError ArtifactReads := do
  let calls := (survey s root).filter fun x => isArtifactCall s readMethod x.2
  let records ← calls.mapM fun x => readAt s x.1 x.2
  return { reads := records.filterMap Sum.getLeft?
           unresolved := records.filterMap Sum.getRight? }

def writesByDescent (s : Source) (root : Node) : Except CallError ArtifactWrites := do
  let calls := (survey s root).filter fun x => isArtifactCall s writeMethod x.2
  let records ← calls.mapM fun x => writeAt s x.1 x.2
  return { writes := records.filterMap Sum.getLeft?
           unresolved := records.filterMap Sum.getRight? }

def aliasesByDescent (s : Source) (root : Node) : List Alias :=
  ((survey s root).flatMap fun x => declaratorAliases s x.2).foldl setAlias []

def modelsByDescent (s : Source) (root : Node) : Except CallError (List ModelCall) :=
  let records := (survey s root).filterMap fun x =>
    (modelCall? s (aliasesByDescent s root) x.2).map fun c => modelAt s x.1 x.2 c.1 c.2
  records.mapM id

/-! ## Calls -/

theorem calledMember_kind {s : Source} {n : Node} {m : Node × Text}
    (h : calledMember? s n = some m) : n.kind = .callExpression := by
  rw [calledMember?] at h
  split at h
  · cases h
  · rename_i hkind
    exact not_not.mp hkind

theorem isArtifactCall_kind {s : Source} {method : Text} {n : Node}
    (h : isArtifactCall s method n = true) : n.kind = .callExpression := by
  rw [isArtifactCall] at h
  split at h
  · rename_i hcalled
    exact calledMember_kind hcalled
  · cases h

theorem modelCall_kind {s : Source} {known : List Alias} {n : Node} {c : Text × Text}
    (h : modelCall? s known n = some c) : n.kind = .callExpression := by
  rw [modelCall?, Option.bind_eq_bind, Option.bind_eq_some_iff] at h
  obtain ⟨_, hcalled, _⟩ := h
  exact calledMember_kind hcalled

theorem mem_artifactCalls {s : Source} {root : Node} {method : Text} {o : Occurrence} :
    o ∈ artifactCalls s root method
      ↔ o ∈ root.occurrences ∧ isArtifactCall s method o.node = true := by
  rw [artifactCalls, List.mem_filter]

theorem isInsideTry_eq (s : Source) (o : Occurrence) :
    isInsideTry o = (surroundings s o.ancestors).inTry := by
  rw [surroundings_inTry, isInsideTry, Occurrence.within?, Bool.eq_iff_iff, List.find?_isSome,
    List.any_eq_true]

/-! ## One call -/

/-- Is the first argument of a call, comments aside, a literal? -/
def NamesArtifact (call : Node) : Prop :=
  ∃ a, (callArguments call).head? = some a ∧ (a.kind = .string ∨ a.kind = .templateString)

theorem literalText_isSome {s : Source} {a : Node} {t : Option Text}
    (h : literalText? s a = .ok t) :
    t.isSome = true ↔ a.kind = .string ∨ a.kind = .templateString := by
  have hmap : ∀ {x : Except EscapeError Text}, x.map some = .ok t → t.isSome = true := by
    intro x hx
    cases x with
    | error e => cases hx
    | ok text =>
        obtain rfl := Except.ok.inj hx
        rfl
  rw [literalText?] at h
  split at h
  · rename_i hkind
    simp [hkind, hmap h]
  · rename_i hkind
    split at h
    · obtain rfl := Except.ok.inj h
      simp [hkind]
    · simp [hkind, hmap h]
  · rename_i hstring htemplate
    obtain rfl := Except.ok.inj h
    simpa using ⟨hstring, htemplate⟩

section

variable {ρ : Type} {s : Source} {method : Text} {resolved : Text → Text → ρ}
  {required : Option Bool}

/-- A call has one record if it is in an exported function and its literal has a value. -/
theorem artifactAt_succeeds_iff {u : Surroundings} {call : Node} :
    (∃ r, artifactAt s method resolved required u call = .ok r) ↔ u.function ≠ none
      ∧ ∀ a, (callArguments call).head? = some a → ∃ t, literalText? s a = .ok t := by
  rw [artifactAt, Surroundings.stage?]
  cases u.function with
  | none => simp
  | some f =>
      cases (callArguments call).head? with
      | none => simp
      | some a =>
          cases hliteral : literalText? s a with
          | error e => simp [hliteral]
          | ok t => cases t <;> simp [hliteral]

/-- The record of a call has a name if the call spells one out. -/
theorem artifactAt_isLeft {u : Surroundings} {call : Node} {r : ρ ⊕ UnresolvedReference}
    (h : artifactAt s method resolved required u call = .ok r) :
    r.isLeft = true ↔ NamesArtifact call := by
  rw [artifactAt] at h
  rw [NamesArtifact]
  cases hstage : u.stage? with
  | none =>
      rw [hstage] at h
      cases h
  | some stage =>
      cases ha : (callArguments call).head? with
      | none =>
          simp only [hstage, ha, Except.ok.injEq] at h
          subst h
          simp
      | some a =>
          cases hliteral : literalText? s a with
          | error e =>
              simp only [hstage, ha, hliteral] at h
              cases h
          | ok t =>
              have hkind := literalText_isSome hliteral
              cases t <;> simp only [hstage, ha, hliteral, Except.ok.injEq] at h <;> subst h
                <;> simpa using hkind

/-- Whatever the record of a call is, it says what the descent says of being required. -/
theorem artifactAt_required {u : Surroundings} {call : Node} {r : ρ ⊕ UnresolvedReference}
    {requires : ρ → Option Bool} (h : artifactAt s method resolved required u call = .ok r)
    (hresolved : ∀ fileName stage, requires (resolved fileName stage) = required) :
    r.elim requires UnresolvedReference.required = required := by
  rw [artifactAt] at h
  cases hstage : u.stage? with
  | none =>
      rw [hstage] at h
      cases h
  | some stage =>
      rw [hstage] at h
      dsimp only at h
      split at h
      · obtain rfl := Except.ok.inj h
        rfl
      · split at h
        · cases h
        · obtain rfl := Except.ok.inj h
          rfl
        · obtain rfl := Except.ok.inj h
          exact hresolved _ _

def ArtifactCall.record (s : Source) (resolved : Text → Text → ρ) (required : Option Bool)
    (c : ArtifactCall) : ρ ⊕ UnresolvedReference :=
  match c.fileName with
  | some fileName => .inl (resolved fileName c.stage)
  | none => .inr (c.unresolved s required)

/-- A call gives the same record whether it is read from below or from above. -/
theorem artifactCall_eq {root : Node} {o : Occurrence} (h : root.isLaidOut = true)
    (ho : o ∈ artifactCalls s root method) :
    artifactAt s method resolved required (surroundings s o.ancestors) o.node
      = (artifactCall s method o).map (ArtifactCall.record s resolved required) := by
  obtain ⟨hmem, hcall⟩ := mem_artifactCalls.mp ho
  rw [artifactAt, artifactCall, stageOf_eq h hmem (isArtifactCall_kind hcall)]
  cases (surroundings s o.ancestors).stage? with
  | none => rfl
  | some stage =>
      cases (callArguments o.node).head? with
      | none => rfl
      | some argument =>
          dsimp only [Option.elim_some]
          cases literalText? s argument with
          | error e => rfl
          | ok fileName => cases fileName <;> rfl

end

theorem artifactCall_spec {s : Source} {method : Text} {o : Occurrence} {c : ArtifactCall}
    (h : artifactCall s method o = .ok c) : c.occurrence = o ∧ stageOf? s o = some c.stage := by
  rw [artifactCall] at h
  cases hstage : stageOf? s o with
  | none =>
      rw [hstage] at h
      cases h
  | some stage =>
      rw [hstage] at h
      dsimp only at h
      split at h
      · cases h
      · obtain rfl := Except.ok.inj h
        exact ⟨rfl, rfl⟩

/-! ## Reads and writes -/

def ArtifactCall.readRecord (s : Source) (c : ArtifactCall) :
    ArtifactRead ⊕ UnresolvedReference :=
  c.record s (fun fileName stage => { fileName, stage, required := c.isRequired })
    (some c.isRequired)

def ArtifactCall.writeRecord (s : Source) (c : ArtifactCall) :
    ArtifactWrite ⊕ UnresolvedReference :=
  c.record s (fun fileName stage => { fileName, stage }) none

def readOf (s : Source) (o : Occurrence) : Except CallError (ArtifactRead ⊕ UnresolvedReference) :=
  readAt s (surroundings s o.ancestors) o.node

def writeOf (s : Source) (o : Occurrence) :
    Except CallError (ArtifactWrite ⊕ UnresolvedReference) :=
  writeAt s (surroundings s o.ancestors) o.node

section

variable {s : Source} {root : Node}

theorem readOf_eq {o : Occurrence} (h : root.isLaidOut = true)
    (ho : o ∈ artifactCalls s root readMethod) :
    readOf s o = (artifactCall s readMethod o).map (ArtifactCall.readRecord s) := by
  rw [readOf, readAt, artifactCall_eq h ho, ← isInsideTry_eq]
  cases hc : artifactCall s readMethod o with
  | error e => rfl
  | ok c =>
      rw [← (artifactCall_spec hc).1]
      rfl

theorem writeOf_eq {o : Occurrence} (h : root.isLaidOut = true)
    (ho : o ∈ artifactCalls s root writeMethod) :
    writeOf s o = (artifactCall s writeMethod o).map (ArtifactCall.writeRecord s) := by
  rw [writeOf, writeAt, artifactCall_eq h ho]
  rfl

/-- A descent comes to the calls of a method that the walk finds. -/
theorem survey_calls (method : Text) :
    ((survey s root).filter fun x => isArtifactCall s method x.2)
      = (artifactCalls s root method).map (inSurroundings s) := by
  rw [survey_eq, List.filter_map]
  rfl

theorem resolved_eq {ρ : Type} (resolved : ArtifactCall → Text → Text → ρ)
    (required : ArtifactCall → Option Bool) (calls : List ArtifactCall) :
    (calls.map fun c => c.record s (resolved c) (required c)).filterMap Sum.getLeft?
      = calls.filterMap fun c => c.fileName.map fun fileName => resolved c fileName c.stage := by
  rw [List.filterMap_map]
  congr 1
  funext c
  rw [Function.comp_apply, ArtifactCall.record]
  cases c.fileName <;> rfl

theorem unresolved_eq {ρ : Type} (resolved : ArtifactCall → Text → Text → ρ)
    (required : ArtifactCall → Option Bool) (calls : List ArtifactCall) :
    (calls.map fun c => c.record s (resolved c) (required c)).filterMap Sum.getRight?
      = (calls.filter fun c => c.fileName.isNone).map fun c => c.unresolved s (required c) := by
  induction calls with
  | nil => rfl
  | cons c rest ih =>
      rw [List.map_cons, List.filterMap_cons, ih, ArtifactCall.record]
      cases hname : c.fileName with
      | none => simp [hname]
      | some fileName => simp [hname]

/-- What holds of each call holds of the reading of all of them. -/
theorem mapM_artifactCalls {ρ : Type} {method : Text} {read : Occurrence → Except CallError ρ}
    {record : ArtifactCall → ρ} (h : ∀ o ∈ artifactCalls s root method,
      read o = (artifactCall s method o).map record) :
    (artifactCalls s root method).mapM read
      = ((artifactCalls s root method).mapM (artifactCall s method)).map (List.map record) := by
  rw [← mapM_map_result]
  exact mapM_congr_mem h

theorem readsByDescent_eq : readsByDescent s root = do
    let records ← (artifactCalls s root readMethod).mapM (readOf s)
    return { reads := records.filterMap Sum.getLeft?
             unresolved := records.filterMap Sum.getRight? } := by
  rw [readsByDescent, survey_calls, List.mapM_map]
  rfl

theorem writesByDescent_eq : writesByDescent s root = do
    let records ← (artifactCalls s root writeMethod).mapM (writeOf s)
    return { writes := records.filterMap Sum.getLeft?
             unresolved := records.filterMap Sum.getRight? } := by
  rw [writesByDescent, survey_calls, List.mapM_map]
  rfl

theorem artifactReads_eq (h : root.isLaidOut = true) :
    artifactReads s root = readsByDescent s root := by
  rw [readsByDescent_eq, mapM_artifactCalls fun o ho => readOf_eq h ho, artifactReads]
  cases (artifactCalls s root readMethod).mapM (artifactCall s readMethod) with
  | error e => rfl
  | ok calls =>
      have hreads := resolved_eq (s := s) (fun c fileName stage =>
        ({ fileName, stage, required := c.isRequired } : ArtifactRead))
        (fun c => some c.isRequired) calls
      have hunresolved := unresolved_eq (s := s) (fun c fileName stage =>
        ({ fileName, stage, required := c.isRequired } : ArtifactRead))
        (fun c => some c.isRequired) calls
      exact congrArg Except.ok (congrArg₂ ArtifactReads.mk hreads.symm hunresolved.symm)

theorem artifactWrites_eq (h : root.isLaidOut = true) :
    artifactWrites s root = writesByDescent s root := by
  rw [writesByDescent_eq, mapM_artifactCalls fun o ho => writeOf_eq h ho, artifactWrites]
  cases (artifactCalls s root writeMethod).mapM (artifactCall s writeMethod) with
  | error e => rfl
  | ok calls =>
      have hwrites := resolved_eq (s := s) (fun _ fileName stage =>
        ({ fileName, stage } : ArtifactWrite)) (fun _ => none) calls
      have hunresolved := unresolved_eq (s := s) (fun _ fileName stage =>
        ({ fileName, stage } : ArtifactWrite)) (fun _ => none) calls
      exact congrArg Except.ok (congrArg₂ ArtifactWrites.mk hwrites.symm hunresolved.symm)

end

/-! ## Model calls -/

section

variable {s : Source} {root : Node}

theorem aliasesByDescent_eq : aliasesByDescent s root = aliases s root := by
  rw [aliasesByDescent, survey_eq, List.flatMap_map, aliases, preorder, List.flatMap_map]
  rfl

def modelCallAt? (s : Source) (known : List Alias) (o : Occurrence) :
    Option (Occurrence × Text × Text) :=
  (modelCall? s known o.node).map fun c => (o, c)

theorem modelCallAt_spec {known : List Alias} {o : Occurrence} {found : Occurrence × Text × Text}
    (h : modelCallAt? s known o = some found) :
    found.1 = o ∧ modelCall? s known found.1.node = some found.2 := by
  rw [modelCallAt?, Option.map_eq_some_iff] at h
  obtain ⟨c, hc, rfl⟩ := h
  exact ⟨rfl, hc⟩

theorem modelAt_eq {o : Occurrence} {known : List Alias} {c : Text × Text}
    (h : root.isLaidOut = true) (ho : o ∈ root.occurrences)
    (hcall : modelCall? s known o.node = some c) :
    modelAt s (surroundings s o.ancestors) o.node c.1 c.2
      = match stageOf? s o with
        | some stage => .ok { provider := c.1, method := c.2, stage }
        | none => .error (.outsideStage (Text.ofString "LLM") (s.location o.node.start)) := by
  rw [modelAt, stageOf_eq h ho (modelCall_kind hcall)]
  cases (surroundings s o.ancestors).stage? <;> rfl

theorem modelCalls_eq (h : root.isLaidOut = true) :
    modelCalls s root = modelsByDescent s root := by
  have hrecords : (survey s root).filterMap (fun x =>
        (modelCall? s (aliases s root) x.2).map fun c => modelAt s x.1 x.2 c.1 c.2)
      = (root.occurrences.filterMap (modelCallAt? s (aliases s root))).map fun found =>
        modelAt s (surroundings s found.1.ancestors) found.1.node found.2.1 found.2.2 := by
    rw [survey_eq, List.filterMap_map, List.map_filterMap]
    congr 1
    funext o
    rw [modelCallAt?, Option.map_map]
    rfl
  rw [modelsByDescent, aliasesByDescent_eq, hrecords, List.mapM_map, modelCalls]
  refine mapM_congr_mem ?_
  intro found hfound
  obtain ⟨o, ho, hcall⟩ := List.mem_filterMap.mp hfound
  obtain ⟨rfl, hmodel⟩ := modelCallAt_spec hcall
  exact (modelAt_eq h ho hmodel).symm

end

/-! ## The extractors are descents -/

/-- Has a call a record? It has one in an exported function, unless its first argument is a literal
without a value. -/
structure HasRecord (s : Source) (o : Occurrence) : Prop where
  function : (surroundings s o.ancestors).function ≠ none
  value : ∀ a, (callArguments o.node).head? = some a → ∃ t, literalText? s a = .ok t

/-- The record of a read. It has a name if the call spells one out, and the read is required if no
`try` statement is among the ancestors. -/
structure IsReadOf (s : Source) (o : Occurrence) (r : ArtifactRead ⊕ UnresolvedReference) :
    Prop where
  record : readOf s o = .ok r
  resolved : r.isLeft = true ↔ NamesArtifact o.node
  required : r.elim (fun read => some read.required) UnresolvedReference.required
    = some (decide (∀ n ∈ o.ancestors, n.kind ≠ .tryStatement))

structure IsWriteOf (s : Source) (o : Occurrence) (r : ArtifactWrite ⊕ UnresolvedReference) :
    Prop where
  record : writeOf s o = .ok r
  resolved : r.isLeft = true ↔ NamesArtifact o.node

section

variable {s : Source} {root : Node}

theorem isReadOf_of_ok {o : Occurrence} {r : ArtifactRead ⊕ UnresolvedReference}
    (h : readOf s o = .ok r) : IsReadOf s o r := by
  refine ⟨h, artifactAt_isLeft h, ?_⟩
  have htry : (!(surroundings s o.ancestors).inTry)
      = decide (∀ n ∈ o.ancestors, n.kind ≠ .tryStatement) := by
    rw [surroundings_inTry, Bool.eq_iff_iff]
    simp
  rw [← htry]
  exact artifactAt_required h (fun _ _ => rfl)

theorem isWriteOf_of_ok {o : Occurrence} {r : ArtifactWrite ⊕ UnresolvedReference}
    (h : writeOf s o = .ok r) : IsWriteOf s o r :=
  ⟨h, artifactAt_isLeft h⟩

/-- Every call has one record, and the calls with a name are the reads. -/
theorem reads_are_records (h : root.isLaidOut = true) {found : ArtifactReads}
    (hfound : artifactReads s root = .ok found) : ∃ records,
      List.Forall₂ (IsReadOf s) (artifactCalls s root readMethod) records
        ∧ found.reads = records.filterMap Sum.getLeft?
        ∧ found.unresolved = records.filterMap Sum.getRight? := by
  rw [artifactReads_eq h, readsByDescent_eq, bind_return_eq_ok_iff] at hfound
  obtain ⟨records, hrecords, rfl⟩ := hfound
  exact ⟨records, (mapM_eq_ok_iff.mp hrecords).imp fun _ _ => isReadOf_of_ok, rfl, rfl⟩

theorem writes_are_records (h : root.isLaidOut = true) {found : ArtifactWrites}
    (hfound : artifactWrites s root = .ok found) : ∃ records,
      List.Forall₂ (IsWriteOf s) (artifactCalls s root writeMethod) records
        ∧ found.writes = records.filterMap Sum.getLeft?
        ∧ found.unresolved = records.filterMap Sum.getRight? := by
  rw [artifactWrites_eq h, writesByDescent_eq, bind_return_eq_ok_iff] at hfound
  obtain ⟨records, hrecords, rfl⟩ := hfound
  exact ⟨records, (mapM_eq_ok_iff.mp hrecords).imp fun _ _ => isWriteOf_of_ok, rfl, rfl⟩

theorem calls_succeed_iff {ρ β : Type} {method : Text}
    {read : Occurrence → Except CallError ρ} (hread : ∀ o, (∃ r, read o = .ok r) ↔ HasRecord s o)
    (g : List ρ → β) :
    (∃ found, (do let records ← (artifactCalls s root method).mapM read; return g records)
        = Except.ok found)
      ↔ ∀ o ∈ artifactCalls s root method, HasRecord s o := by
  have hrecords : (∃ records, (artifactCalls s root method).mapM read = .ok records)
      ↔ ∀ o ∈ artifactCalls s root method, HasRecord s o := by
    rw [mapM_succeeds_iff]
    exact forall₂_congr fun o _ => hread o
  rw [← hrecords]
  constructor
  · rintro ⟨found, hfound⟩
    obtain ⟨records, hok, _⟩ := bind_return_eq_ok_iff.mp hfound
    exact ⟨records, hok⟩
  · rintro ⟨records, hok⟩
    exact ⟨g records, bind_return_eq_ok_iff.mpr ⟨records, hok, rfl⟩⟩

theorem hasRecord_iff {ρ : Type} {method : Text} {resolved : Text → Text → ρ}
    {required : Option Bool} {o : Occurrence} :
    (∃ r, artifactAt s method resolved required (surroundings s o.ancestors) o.node = .ok r)
      ↔ HasRecord s o := by
  rw [artifactAt_succeeds_iff]
  exact ⟨fun ⟨hfunction, hvalue⟩ => ⟨hfunction, hvalue⟩, fun h => ⟨h.function, h.value⟩⟩

theorem reads_succeed_iff (h : root.isLaidOut = true) :
    (∃ found, artifactReads s root = .ok found)
      ↔ ∀ o ∈ artifactCalls s root readMethod, HasRecord s o := by
  rw [artifactReads_eq h, readsByDescent_eq]
  exact calls_succeed_iff (fun _ => hasRecord_iff) _

theorem writes_succeed_iff (h : root.isLaidOut = true) :
    (∃ found, artifactWrites s root = .ok found)
      ↔ ∀ o ∈ artifactCalls s root writeMethod, HasRecord s o := by
  rw [artifactWrites_eq h, writesByDescent_eq]
  exact calls_succeed_iff (fun _ => hasRecord_iff) _

end

/-- **The extractors find what a descent finds** that carries down the innermost export statement,
the function of it that has been entered and whether a `try` statement has been: the same records
in the same order, or the same first error. Each call of a method of `io` gives one record, unless
one of them is outside of every exported function or names its artifact by a literal without a
value. -/
theorem extraction_is_descent (s : Source) (root : Node) (h : root.isLaidOut = true) :
    artifactReads s root = readsByDescent s root
      ∧ artifactWrites s root = writesByDescent s root
      ∧ modelCalls s root = modelsByDescent s root
      ∧ ((∃ found, artifactReads s root = .ok found)
        ↔ ∀ o ∈ artifactCalls s root readMethod, HasRecord s o)
      ∧ ((∃ found, artifactWrites s root = .ok found)
        ↔ ∀ o ∈ artifactCalls s root writeMethod, HasRecord s o)
      ∧ (∀ found, artifactReads s root = .ok found → ∃ records,
        List.Forall₂ (IsReadOf s) (artifactCalls s root readMethod) records
          ∧ found.reads = records.filterMap Sum.getLeft?
          ∧ found.unresolved = records.filterMap Sum.getRight?)
      ∧ (∀ found, artifactWrites s root = .ok found → ∃ records,
        List.Forall₂ (IsWriteOf s) (artifactCalls s root writeMethod) records
          ∧ found.writes = records.filterMap Sum.getLeft?
          ∧ found.unresolved = records.filterMap Sum.getRight?) :=
  ⟨artifactReads_eq h, artifactWrites_eq h, modelCalls_eq h, reads_succeed_iff h,
    writes_succeed_iff h, fun _ => reads_are_records h, fun _ => writes_are_records h⟩

/-- A read in a `try` statement of an exported arrow function. -/
def guardedRead : Source :=
  { chars := "export const f=()=>\x7btry\x7bio.readArtifact('a')\x7dcatch\x7b\x7d\x7d".toList }

set_option maxRecDepth 100000 in
theorem guardedRead_found : ((parse guardedRead).toOption.any fun root => root.isLaidOut
    && (artifactReads guardedRead root).toOption.any fun found =>
      found.reads.map ArtifactRead.required = [false]) = true := by
  decide +kernel

theorem extraction_of_guardedRead : ∃ root found, parse guardedRead = .ok root
    ∧ root.isLaidOut = true ∧ readsByDescent guardedRead root = .ok found
    ∧ found.reads.map ArtifactRead.required = [false] := by
  have hfound := guardedRead_found
  cases hparse : parse guardedRead with
  | error e =>
      rw [hparse] at hfound
      cases hfound
  | ok root =>
      rw [hparse] at hfound
      obtain ⟨hlaid, hreads⟩ := (Bool.and_eq_true _ _).mp hfound
      cases hread : artifactReads guardedRead root with
      | error e =>
          rw [hread] at hreads
          cases hreads
      | ok found =>
          rw [hread] at hreads
          have hdescent := (extraction_is_descent guardedRead root hlaid).1
          exact ⟨root, found, rfl, hlaid, hdescent ▸ hread, of_decide_eq_true hreads⟩

end TaskContract.Analysis
