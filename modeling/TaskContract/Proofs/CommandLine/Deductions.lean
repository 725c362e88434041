import TaskContract.CommandLine.Deductions
import TaskContract.Proofs.Pipeline.Elsewhere

/-!
# Deductions one by one

Where deductions can be made one after another, a plan with one attempt for each artifact makes
them all: each attempt succeeds, and they leave the files and the client as the steps do. On the
way only names that can be printed are printed.
-/

namespace TaskContract

theorem Text.isScalar_append_of {t u : Text} (ht : t.isScalar = true) (hu : u.isScalar = true) :
    (t ++ u).isScalar = true := by
  rw [Text.isScalar_append, ht, hu]
  rfl

/-! ## The console -/

namespace Console

theorem mem_of_mem_plainAfter {skip : Nat} {t : Text} {c : CodePoint} (h : c ∈ plainAfter skip t) :
    c ∈ t := by
  induction t generalizing skip with
  | nil => cases skip <;> cases h
  | cons d rest ih =>
      cases skip with
      | succ skip => exact List.mem_cons_of_mem d (ih h)
      | zero =>
          rw [plainAfter] at h
          split at h
          · rcases List.mem_cons.mp h with rfl | h
            · exact List.mem_cons_self
            · exact List.mem_cons_of_mem d (ih h)
          · exact List.mem_cons_of_mem d (ih h)

theorem output_of_isScalar {t : Text} (h : t.isScalar = true) :
    output t = .ok ⟨.output, line t⟩ := by
  have hline : Encoding.utf8.fault? (line t) = none := by
    rw [Encoding.fault_eq_none_iff]
    intro c hc
    have hwhole : (t ++ Text.ofString "\n").isScalar = true :=
      Text.isScalar_append_of h (Text.isScalar_ofString _)
    exact List.all_eq_true.mp hwhole c (mem_of_mem_plainAfter hc)
  rw [output, hline]

theorem isSurrogate_of_isBetween {c : CodePoint} {lo hi : Char} (h : c.isBetween lo hi = true)
    (hhi : hi.toNat < 0xD800) : c.isSurrogate = false := by
  rw [CodePoint.isBetween, Bool.and_eq_true, decide_eq_true_iff, decide_eq_true_iff] at h
  exact CodePoint.isSurrogate_of_lt (by omega)

theorem isSurrogate_of_parameter {c : CodePoint} (h : isSequenceParameter c = true) :
    c.isSurrogate = false := by
  simp only [isSequenceParameter, Bool.or_eq_true, decide_eq_true_iff] at h
  rcases h with (h | rfl) | rfl
  · exact isSurrogate_of_isBetween h (by decide)
  · exact CodePoint.isSurrogate_ofChar _
  · exact CodePoint.isSurrogate_ofChar _

theorem isSurrogate_of_letter {c : CodePoint} (h : c.isAsciiLetter = true) :
    c.isSurrogate = false := by
  rw [CodePoint.isAsciiLetter, Bool.or_eq_true] at h
  rcases h with h | h
  · exact isSurrogate_of_isBetween h (by decide)
  · exact isSurrogate_of_isBetween h (by decide)

/-- A control sequence has no surrogates. -/
theorem isSurrogate_of_sequence (t : Text) :
    ∀ c ∈ t.take (sequenceLength t), c.isSurrogate = false := by
  rcases t with _ | ⟨escape, _ | ⟨bracket, rest⟩⟩
  · exact nofun
  · exact nofun
  · rw [sequenceLength]
    dsimp only
    split
    · rename_i hopening
      rw [Bool.and_eq_true, decide_eq_true_iff, decide_eq_true_iff] at hopening
      obtain ⟨hescape, rfl⟩ := hopening
      split
      · rename_i final more hdrop
        split
        · rename_i hfinal
          have htake : rest.take ((rest.takeWhile isSequenceParameter).length + 1)
              = rest.takeWhile isSequenceParameter ++ [final] := by
            rw [List.take_add, hdrop, ← List.prefix_iff_eq_take.mp
              (List.takeWhile_prefix isSequenceParameter)]
            rfl
          rw [List.take_succ_cons, List.take_succ_cons, htake]
          simp only [List.forall_mem_cons, List.forall_mem_append]
          refine ⟨?_, ?_, ?_, ?_, nofun⟩
          · exact CodePoint.isSurrogate_of_lt (by omega)
          · exact CodePoint.isSurrogate_ofChar _
          · exact fun c hc => isSurrogate_of_parameter (List.mem_takeWhile_imp hc)
          · exact isSurrogate_of_letter hfinal
        · exact nofun
      · exact nofun
    · exact nofun

theorem mem_plainAfter {skip : Nat} {t : Text} {c : CodePoint} (hc : c.isSurrogate = true)
    (hskip : ∀ d ∈ t.take skip, d.isSurrogate = false) (h : c ∈ t) : c ∈ plainAfter skip t := by
  have hother : ∀ {d : CodePoint}, d.isSurrogate = false → c ≠ d := by
    rintro d hd rfl
    rw [hc] at hd
    cases hd
  induction t generalizing skip with
  | nil => cases h
  | cons d rest ih =>
      cases skip with
      | succ skip =>
          obtain ⟨hd, hrest⟩ := List.forall_mem_cons.mp hskip
          exact ih hrest ((List.mem_cons.mp h).resolve_left (hother hd))
      | zero =>
          have hsequence := isSurrogate_of_sequence (d :: rest)
          rw [plainAfter]
          split
          · rcases List.mem_cons.mp h with rfl | h
            · exact List.mem_cons_self
            · exact List.mem_cons_of_mem d (ih nofun h)
          · rename_i n hlength
            rw [hlength] at hsequence
            obtain ⟨hd, hrest⟩ := List.forall_mem_cons.mp hsequence
            exact ih hrest ((List.mem_cons.mp h).resolve_left (hother hd))

/-- A text is printed exactly if it has no surrogates. -/
theorem output_cases (t : Text) :
    (t.isScalar = true ∧ output t = .ok ⟨.output, line t⟩)
      ∨ (t.isScalar = false ∧ ∃ f, output t = .error f) := by
  cases ht : t.isScalar with
  | true => exact .inl ⟨rfl, output_of_isScalar ht⟩
  | false =>
      refine .inr ⟨rfl, ?_⟩
      rw [output]
      cases hfault : Encoding.utf8.fault? (line t) with
      | some f => exact ⟨f, rfl⟩
      | none =>
          rw [Encoding.fault_eq_none_iff] at hfault
          rw [Text.isScalar, List.all_eq_false] at ht
          obtain ⟨c, hc, hsurrogate⟩ := ht
          have hline : c ∈ line t := by
            refine mem_plainAfter (by simpa using hsurrogate) (List.forall_mem_nil _) ?_
            exact List.mem_append_left _ hc
          exact absurd (hfault c hline) hsurrogate

/-- Lines are all printed exactly if none has surrogates. -/
theorem outputs_fault_eq_none_iff {ts : List Text} :
    (outputs ts).2 = none ↔ ∀ t ∈ ts, t.isScalar = true := by
  induction ts with
  | nil => exact ⟨fun _ => nofun, fun _ => rfl⟩
  | cons t rest ih =>
      rw [List.forall_mem_cons, ← ih, outputs]
      rcases output_cases t with ⟨hscalar, hprint⟩ | ⟨hscalar, f, hprint⟩
      · rw [hprint, hscalar]
        exact ⟨fun h => ⟨rfl, h⟩, And.right⟩
      · rw [hprint, hscalar]
        exact ⟨nofun, nofun⟩

end Console

/-! ## Plans -/

namespace DeductionPlan

variable {σ : Type}

def announced (total number : Nat) (w : ArtifactWrite) (s : DeductionState σ) : DeductionState σ :=
  s.say (Text.ofString ("[" ++ number.repr ++ "/" ++ total.repr ++ "] Processing: ") ++ w.fileName)

section

variable {p : DeductionPlan σ} {total number : Nat} {w : ArtifactWrite} {rest : List ArtifactWrite}
  {tally : Tally} {s : DeductionState σ}

/-- An artifact whose name can be printed has its attempts, and then come the others. -/
theorem deduceFrom_of_isScalar (h : w.fileName.isScalar = true) :
    p.deduceFrom total number (w :: rest) tally s
      = p.deduceFrom total (number + 1) rest (p.deduceOne w tally (announced total number w s)).1
        (p.deduceOne w tally (announced total number w s)).2 := by
  rw [deduceFrom]
  dsimp only
  rw [Console.output_of_isScalar (Text.isScalar_append_of (Text.isScalar_ofString _) h)]
  rfl

theorem deduceFrom_of_not (h : w.fileName.isScalar = false) :
    ∃ f, p.deduceFrom total number (w :: rest) tally s = (.error f, s) := by
  let heading := Text.ofString ("[" ++ number.repr ++ "/" ++ total.repr ++ "] Processing: ")
  have hheading : (heading ++ w.fileName).isScalar = false := by
    rw [Text.isScalar_append, h, Bool.and_false]
  rcases Console.output_cases (heading ++ w.fileName) with ⟨hscalar, -⟩ | ⟨-, f, hprint⟩
  · rw [hheading] at hscalar
    cases hscalar
  · refine ⟨f, ?_⟩
    rw [deduceFrom]
    dsimp only
    rw [hprint]

end

/-- Does the plan deduce for a task and store below a directory as the steps of a run do? -/
structure Makes (p : DeductionPlan σ) (c : Conditions σ) (l : PipelineLocation) (t : TaskWork) :
    Prop where
  client : p.client = c.client
  model : p.model = c.model
  code : p.code = t.code
  directory : p.directory = l.configDir
  now : p.now = c.now
  attempts : p.attempts = 1

variable {p : DeductionPlan σ} {c : Conditions σ} {l : PipelineLocation} {t : TaskWork}
  {stop : FileTree × σ} {d : Deduction} {s : DeductionState σ}

theorem Makes.deduce (hp : p.Makes c l t)
    (h : (c.client (deductionRequest c.model t.code d.artifact) s.client).1.schema
      d.artifact.fileName = .ok d.schema) :
    ∃ after, TaskContract.deduce p.client p.model p.code d.artifact s.registry s.client
      = (.ok d.schema, after,
        (c.client (deductionRequest c.model t.code d.artifact) s.client).2) := by
  rw [hp.client, hp.model, hp.code]
  refine ⟨_, Prod.ext ?_ rfl⟩
  exact (DeducedSchema.ofReply_fst _ d.artifact.fileName s.registry).trans h

theorem Makes.deduceOne (hp : p.Makes c l t) (h : Deduces c l t (s.files, s.client) d stop)
    (tally : Tally) :
    ∃ s', p.deduceOne d.artifact tally s = ({ tally with succeeded := tally.succeeded + 1 }, s')
      ∧ (s'.files, s'.client) = stop := by
  obtain ⟨after, hreply⟩ := hp.deduce h.schema
  obtain ⟨paths, hstore⟩ := h.store
  rw [← hp.directory, ← hp.now] at hstore
  rw [DeductionPlan.deduceOne, hp.attempts, attemptsFrom, attempt, hreply]
  dsimp only
  rw [hstore]
  exact ⟨_, rfl, Prod.ext rfl h.client⟩

/-- The only attempt for an artifact fails if its schema cannot be stored. -/
theorem Makes.deduceOne_fails (hp : p.Makes c l t)
    (hschema : (c.client (deductionRequest c.model t.code d.artifact) s.client).1.schema
      d.artifact.fileName = .ok d.schema)
    (hstore : (SchemaFiles.write s.files c.now l.configDir d.artifact.fileName
      d.schema.toJson).1.isOk = false)
    (tally : Tally) :
    (p.deduceOne d.artifact tally s).1 = { tally with failed := tally.failed + 1 } := by
  obtain ⟨after, hreply⟩ := hp.deduce hschema
  rw [← hp.directory, ← hp.now] at hstore
  rw [DeductionPlan.deduceOne, hp.attempts, attemptsFrom, attempt, hreply]
  dsimp only
  cases hwrite : SchemaFiles.write s.files p.now p.directory d.artifact.fileName d.schema.toJson with
  | mk result files =>
      rw [hwrite] at hstore
      cases result with
      | ok paths => cases hstore
      | error e => rfl

theorem Makes.deduceFrom (hp : p.Makes c l t) {ds : List Deduction}
    (h : DeducesInTurn c l t (s.files, s.client) ds stop)
    (hnames : ∀ d ∈ ds, d.artifact.fileName.isScalar = true) (total number : Nat) (tally : Tally) :
    ∃ s', p.deduceFrom total number (ds.map Deduction.artifact) tally s
        = (.ok { tally with succeeded := tally.succeeded + ds.length }, s')
      ∧ (s'.files, s'.client) = stop := by
  induction ds generalizing s number tally with
  | nil =>
      cases h
      exact ⟨s, rfl, rfl⟩
  | cons d rest ih =>
      obtain ⟨hname, hnames⟩ := List.forall_mem_cons.mp hnames
      cases h with
      | @cons _ middle _ _ _ first others =>
          obtain ⟨s', hone, hstop⟩ :=
            hp.deduceOne (s := announced total number d.artifact s) first tally
          rw [← hstop] at others
          obtain ⟨s'', hrest, hstop'⟩ := ih others hnames (number + 1)
            { tally with succeeded := tally.succeeded + 1 }
          refine ⟨s'', ?_, hstop'⟩
          rw [List.map_cons, deduceFrom_of_isScalar hname, hone]
          dsimp only
          rw [hrest, List.length_cons, Nat.add_assoc, Nat.add_comm 1]

/-- Where the only schema of a task cannot be stored, its deduction fails. -/
theorem Makes.deduceAll_fails (hp : p.Makes c l t)
    (hschema : (c.client (deductionRequest c.model t.code d.artifact) s.client).1.schema
      d.artifact.fileName = .ok d.schema)
    (hname : d.artifact.fileName.isScalar = true)
    (hstore : ∀ files, (SchemaFiles.write files c.now l.configDir d.artifact.fileName
      d.schema.toJson).1.isOk = false) :
    ∃ done, p.deduceAll [d.artifact] s = (.ok { failed := 1 }, done) := by
  rw [deduceAll, deduceFrom_of_isScalar hname]
  refine ⟨_, Prod.ext (congrArg Except.ok ?_) rfl⟩
  exact hp.deduceOne_fails (s := announced 1 1 d.artifact s) hschema (hstore s.files) {}

end DeductionPlan

end TaskContract
