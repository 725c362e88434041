import TaskContract.Proofs.CommandLine.TaskAnalysis
import TaskContract.Proofs.Settings.Limits

/-!
# Attempts

An artifact has attempts until one succeeds or none is left. So what has been asked and waited for
tells how many attempts there have been, and every artifact is counted by its last one. The
artifacts follow one another however the attempts end; only a name that cannot be printed keeps
them from it.
-/

namespace TaskContract

/-! ## The attempts for one artifact -/

inductive ClientUse where
  | request (r : Chat.Request)
  | pause (delay : Json)

namespace DeductionPlan

variable {σ : Type}

section

variable (p : DeductionPlan σ) (w : ArtifactWrite)

def used (uses : List ClientUse) (client : σ) : σ :=
  uses.foldl (fun client use => match use with
    | .request r => (p.client r client).2
    | .pause delay => p.pause delay client) client

/-- What attempts for an artifact do with the client: the same request every time, and between them
pauses that grow by the first one. -/
def uses (retries : Nat) : List ClientUse :=
  .request (deductionRequest p.model p.code w) :: (List.range retries).flatMap fun i =>
    [.pause (pauseAfter (i + 1)), .request (deductionRequest p.model p.code w)]

/-- What follows a failed attempt that is not the last one. -/
def retry (number : Nat) (s : DeductionState σ) : DeductionState σ :=
  let s := s.say (Text.ofString ("  ⚠ Attempt " ++ number.repr ++ " failed, retrying..."))
  { s with client := p.pause (pauseAfter number) s.client }

/-- Where an attempt begins if all before it have failed. -/
def before (s : DeductionState σ) : Nat → DeductionState σ
  | 0 => s
  | n + 1 => p.retry (n + 1) (p.attempt w (before s n)).2

/-- An artifact is handled by attempts, of which the last one decides whether its schema is stored:
all others have failed, and if it fails too, no attempt is left. The client is asked once by each,
and waits between them. -/
structure Handles (s : DeductionState σ) (retries : Nat) (stored : Bool)
    (s' : DeductionState σ) : Prop where
  within : retries < p.attempts
  failed : ∀ i < retries, (p.attempt w (p.before w s i)).1.isOk = false
  last : (p.attempt w (p.before w s retries)).1.isOk = stored
  exhausted : stored = false → retries + 1 = p.attempts
  files : s'.files = (p.attempt w (p.before w s retries)).2.files
  registry : s'.registry = (p.attempt w (p.before w s retries)).2.registry
  client : s'.client = p.used (p.uses w retries) s.client

end

variable {p : DeductionPlan σ} {w : ArtifactWrite}

theorem used_append (front back : List ClientUse) (client : σ) :
    p.used (front ++ back) client = p.used back (p.used front client) :=
  List.foldl_append ..

theorem uses_succ (n : Nat) : p.uses w (n + 1)
    = p.uses w n ++ [ClientUse.pause (pauseAfter (n + 1)),
      ClientUse.request (deductionRequest p.model p.code w)] := by
  simp [uses, List.range_succ]

/-- An attempt asks once, however it ends. -/
theorem attempt_client (s : DeductionState σ) :
    (p.attempt w s).2.client = (p.client (deductionRequest p.model p.code w) s.client).2 := by
  rw [attempt, deduce]
  dsimp only
  split
  · rename_i hdeduce
    exact (congrArg (fun x => x.2.2) hdeduce).symm
  · rename_i hdeduce
    split <;> exact (congrArg (fun x => x.2.2) hdeduce).symm

theorem attempt_before_client (s : DeductionState σ) (n : Nat) :
    (p.attempt w (p.before w s n)).2.client = p.used (p.uses w n) s.client := by
  induction n with
  | zero => exact attempt_client s
  | succ n ih =>
      rw [attempt_client, before, uses_succ, used_append, ← ih]
      rfl

theorem attemptsFrom_succ (left number : Nat) (s : DeductionState σ) :
    p.attemptsFrom w (left + 1) number s = match p.attempt w s with
      | (.ok (), s) => (none, s.say (Text.ofString "  ✓ Schema deduced and validated"))
      | (.error e, s) =>
        if left = 0 then (some e, s) else p.attemptsFrom w left (number + 1) (p.retry number s) := by
  rw [attemptsFrom]
  rfl

/-- The attempts end with one that succeeds or with the last. -/
theorem attemptsFrom_spec (s : DeductionState σ) (left n : Nat) :
    ∃ k, n ≤ k ∧ k ≤ n + left
      ∧ (∀ i, n ≤ i → i < k → (p.attempt w (p.before w s i)).1.isOk = false)
      ∧ (((p.attempt w (p.before w s k)).1 = .ok ()
          ∧ p.attemptsFrom w (left + 1) (n + 1) (p.before w s n) = (none,
            (p.attempt w (p.before w s k)).2.say
              (Text.ofString "  ✓ Schema deduced and validated")))
        ∨ ∃ e, (p.attempt w (p.before w s k)).1 = .error e ∧ k = n + left
          ∧ p.attemptsFrom w (left + 1) (n + 1) (p.before w s n)
            = (some e, (p.attempt w (p.before w s k)).2)) := by
  -- on the attempts that are left after attempt `n`
  induction left generalizing n with
  | zero =>
      refine ⟨n, le_refl n, le_refl n, fun i hi hlt => absurd hlt hi.not_gt, ?_⟩
      rw [attemptsFrom_succ]
      cases p.attempt w (p.before w s n) with
      | mk result after =>
          cases result with
          | ok v => exact .inl ⟨rfl, rfl⟩
          | error e => exact .inr ⟨e, rfl, rfl, rfl⟩
  | succ left ih =>
      cases hattempt : p.attempt w (p.before w s n) with
      | mk result after =>
          cases result with
          | ok v =>
              refine ⟨n, le_refl n, Nat.le_add_right _ _, fun i hi hlt => absurd hlt hi.not_gt,
                .inl ?_⟩
              rw [attemptsFrom_succ, hattempt]
              exact ⟨rfl, rfl⟩
          | error e =>
              obtain ⟨k, hnk, hk, hfailed, hends⟩ := ih (n + 1)
              have hnext : p.attemptsFrom w (left + 1 + 1) (n + 1) (p.before w s n)
                  = p.attemptsFrom w (left + 1) (n + 1 + 1) (p.before w s (n + 1)) := by
                rw [attemptsFrom_succ, hattempt]
                dsimp only
                rw [if_neg (Nat.succ_ne_zero left), before, hattempt]
              refine ⟨k, by omega, by omega, ?_, ?_⟩
              · intro i hi hlt
                rcases hi.eq_or_lt with rfl | hi
                · rw [hattempt]
                  rfl
                · exact hfailed i hi hlt
              · have hplace : n + 1 + left = n + (left + 1) := by omega
                rw [hplace] at hends
                rw [hnext]
                exact hends

theorem deduceOne_handles (h : 0 < p.attempts) (tally : Tally) (s : DeductionState σ) :
    ∃ retries stored s', p.Handles w s retries stored s'
      ∧ p.deduceOne w tally s = (⟨tally.succeeded + stored.toNat,
        tally.failed + (!stored).toNat⟩, s') := by
  obtain ⟨left, hleft⟩ := Nat.exists_eq_add_one.mpr h
  obtain ⟨k, -, hk, hfailed, hends⟩ := attemptsFrom_spec (p := p) (w := w) s left 0
  simp only [Nat.zero_add] at hk hends
  have hfailed : ∀ i < k, (p.attempt w (p.before w s i)).1.isOk = false :=
    fun i hi => hfailed i (Nat.zero_le i) hi
  have hclient := attempt_before_client (p := p) (w := w) s k
  rw [deduceOne, hleft]
  rcases hends with ⟨hlast, hends⟩ | ⟨e, hlast, rfl, hends⟩
  · have hstored : (p.attempt w (p.before w s k)).1.isOk = true := by
      rw [hlast]
      rfl
    have hexhausted : true = false → k + 1 = p.attempts := by
      intro h
      cases h
    rw [show p.attemptsFrom w (left + 1) 1 s = _ from hends]
    exact ⟨k, true, (p.attempt w (p.before w s k)).2.say _,
      ⟨by omega, hfailed, hstored, hexhausted, rfl, rfl, hclient⟩, rfl⟩
  · have hstored : (p.attempt w (p.before w s k)).1.isOk = false := by
      rw [hlast]
      rfl
    rw [show p.attemptsFrom w (k + 1) 1 s = _ from hends]
    exact ⟨k, false, (p.attempt w (p.before w s k)).2.complain _,
      ⟨by omega, hfailed, hstored, fun _ => hleft.symm, rfl, rfl, hclient⟩, rfl⟩

/-! ## All artifacts -/

/-- Artifacts are handled one after another, however the attempts for each of them end. -/
inductive HandlesAll (p : DeductionPlan σ) (total : Nat) : Nat → List ArtifactWrite →
    DeductionState σ → List (Nat × Bool) → DeductionState σ → Prop where
  | nil (number : Nat) (s : DeductionState σ) : HandlesAll p total number [] s [] s
  | cons {number retries : Nat} {w : ArtifactWrite} {rest : List ArtifactWrite} {stored : Bool}
      {s s' s'' : DeductionState σ} {outcomes : List (Nat × Bool)}
      (first : p.Handles w (announced total number w s) retries stored s')
      (others : HandlesAll p total (number + 1) rest s' outcomes s'') :
      HandlesAll p total number (w :: rest) s ((retries, stored) :: outcomes) s''

theorem HandlesAll.length {total number : Nat} {ws : List ArtifactWrite}
    {s s' : DeductionState σ} {outcomes : List (Nat × Bool)}
    (h : p.HandlesAll total number ws s outcomes s') : outcomes.length = ws.length := by
  induction h with
  | nil => rfl
  | cons _ _ ih => exact congrArg Nat.succ ih

def tallyOf (outcomes : List (Nat × Bool)) : Tally :=
  ⟨outcomes.countP Prod.snd, outcomes.countP fun o => !o.2⟩

theorem tallyOf_cons (retries : Nat) (stored : Bool) (outcomes : List (Nat × Bool)) :
    tallyOf ((retries, stored) :: outcomes) = ⟨stored.toNat + (tallyOf outcomes).succeeded,
      (!stored).toNat + (tallyOf outcomes).failed⟩ := by
  cases stored <;> simp [tallyOf, Nat.add_comm]

theorem tallyOf_sum (outcomes : List (Nat × Bool)) :
    (tallyOf outcomes).succeeded + (tallyOf outcomes).failed = outcomes.length := by
  have hsplit := List.length_eq_countP_add_countP (fun o : Nat × Bool => o.2) (l := outcomes)
  simp only [tallyOf, hsplit]
  congr 1
  exact List.countP_congr (by simp)

/-- The artifacts in front of the first whose name cannot be printed. -/
def printable (ws : List ArtifactWrite) : List ArtifactWrite :=
  ws.takeWhile fun w => w.fileName.isScalar

theorem printable_of_isScalar {ws : List ArtifactWrite}
    (h : ∀ w ∈ ws, w.fileName.isScalar = true) : printable ws = ws :=
  List.takeWhile_eq_self_iff.mpr h

theorem length_printable_lt {ws : List ArtifactWrite}
    (h : ∃ w ∈ ws, w.fileName.isScalar = false) : (printable ws).length < ws.length := by
  have hfront : printable ws <+: ws := List.takeWhile_prefix _
  refine hfront.length_le.lt_of_ne ?_
  intro hlength
  obtain ⟨w, hw, hname⟩ := h
  have hall := List.takeWhile_eq_self_iff.mp (hfront.eq_of_length hlength) w hw
  rw [hname] at hall
  cases hall

/-- Artifacts are handled up to the first whose name cannot be printed. -/
theorem deduceFrom_handles (h : 0 < p.attempts) (total number : Nat) (ws : List ArtifactWrite)
    (tally : Tally) (s : DeductionState σ) :
    ∃ outcomes s', p.HandlesAll total number (printable ws) s outcomes s'
      ∧ ((∀ w ∈ ws, w.fileName.isScalar = true) →
        p.deduceFrom total number ws tally s
          = (.ok ⟨tally.succeeded + (tallyOf outcomes).succeeded,
            tally.failed + (tallyOf outcomes).failed⟩, s'))
      ∧ ((∃ w ∈ ws, w.fileName.isScalar = false) →
        ∃ f, p.deduceFrom total number ws tally s = (.error f, s')) := by
  induction ws generalizing number tally s with
  | nil => exact ⟨[], s, .nil number s, fun _ => rfl, nofun⟩
  | cons w rest ih =>
      cases hscalar : w.fileName.isScalar with
      | false =>
          -- a name that cannot be printed ends the deductions
          obtain ⟨f, hstop⟩ : ∃ f, p.deduceFrom total number (w :: rest) tally s = (.error f, s) :=
            deduceFrom_of_not hscalar
          refine ⟨[], s, ?_, ?_, fun _ => ⟨f, hstop⟩⟩
          · rw [printable, List.takeWhile_cons_of_neg (a := w) (by simp [hscalar])]
            exact .nil number s
          · intro hnames
            have hname := hnames w List.mem_cons_self
            rw [hscalar] at hname
            cases hname
      | true =>
          obtain ⟨retries, stored, after, hfirst, hone⟩ :=
            deduceOne_handles (w := w) h tally (announced total number w s)
          obtain ⟨outcomes, s', hothers, hall, hnot⟩ := ih (number + 1)
            ⟨tally.succeeded + stored.toNat, tally.failed + (!stored).toNat⟩ after
          refine ⟨(retries, stored) :: outcomes, s', ?_, ?_, ?_⟩
          · rw [printable, List.takeWhile_cons_of_pos (a := w) hscalar]
            exact .cons hfirst hothers
          · intro hnames
            rw [deduceFrom_of_isScalar hscalar, hone]
            dsimp only
            rw [hall (List.forall_mem_cons.mp hnames).2, tallyOf_cons]
            simp only [Nat.add_assoc]
          · intro hname
            rw [deduceFrom_of_isScalar hscalar, hone]
            refine hnot ?_
            rw [List.exists_mem_cons_iff] at hname
            simpa [hscalar] using hname

end DeductionPlan

namespace CommandLine

/-! ## The attempts of a call -/

theorem Session.keepsLimits_prepare {values : Arguments.Values} {s ready : State}
    {p : ProjectContext} (h : Gives (prepare values) s p ready) :
    p.configuration.KeepsLimits := by
  obtain ⟨level, _, -, h⟩ := h.bind_inv
  obtain ⟨_, _, -, h⟩ := h.bind_inv
  obtain ⟨now, _, -, h⟩ := h.bind_inv
  obtain ⟨found, _, -, h⟩ := h.bind_inv
  obtain ⟨configuration, _, hload, h⟩ := h.bind_inv
  obtain ⟨_, _, -, h⟩ := h.bind_inv
  obtain ⟨hproject, -⟩ := Prod.mk.inj h
  obtain rfl := Except.ok.inj hproject
  generalize hresult : Project.load _ _ = result at hload
  rcases result with e | c
  · cases e <;> cases (Prod.mk.inj hload).1
  · obtain rfl := Except.ok.inj (Prod.mk.inj hload).1
    exact Project.keepsLimits_load hresult

theorem Session.read_of_gives_options {c : Command} {words : List Text} {s s' : State}
    {values : Arguments.Values} (h : Gives (options c words) s values s') :
    ∃ rest, Arguments.read s.files c.parameters c.isGroup words = .ok (values, rest) := by
  obtain ⟨⟨read, others⟩, middle, harguments, hoptions⟩ := h.bind_inv
  have hvalues : read = values := by
    dsimp only at hoptions
    split at hoptions
    · exact Except.ok.inj (Prod.mk.inj hoptions).1
    · cases (Prod.mk.inj hoptions).1
  obtain ⟨now, _, hget, h⟩ := harguments.bind_inv
  obtain ⟨hnow, rfl⟩ := Prod.mk.inj hget
  obtain rfl := Except.ok.inj hnow
  dsimp only at h
  split at h
  · rename_i hread
    obtain rfl := Except.ok.inj (Prod.mk.inj h).1
    exact ⟨others, hvalues ▸ hread⟩
  · cases (Prod.mk.inj h).1
  · cases (Prod.mk.inj h).1
  · obtain ⟨_, _, -, h⟩ := Gives.bind_inv h
    cases (Prod.mk.inj h).1

theorem Arguments.Values.mem_of_count {vs : Arguments.Values} {name : String} {n : Nat}
    (h : vs.count? name = some n) : (name, Value.count n) ∈ vs := by
  rw [count?] at h
  split at h
  · rename_i m hlookup
    obtain rfl := Option.some.inj h
    obtain ⟨front, back, rfl, -⟩ := List.lookup_eq_some_iff.mp hlookup
    exact List.mem_append_right _ List.mem_cons_self
  · cases h

/-- A call has at least one attempt for each artifact. -/
theorem CallsDeduction.attempts_pos {words : List Text} {s : Surroundings} {p : ProjectContext}
    {ready : State} {options : Arguments.Values} (h : CallsDeduction words s p ready options)
    (code : Text) : 0 < (Session.planFor p options ready code).attempts := by
  obtain ⟨general, rest, own, after, -, hprepare, -, hoptions⟩ := h
  have hlimits := (Session.keepsLimits_prepare hprepare).analysis.schemaRetries
  rw [Session.planFor]
  dsimp only
  cases hcount : options.count? "retries" with
  | none =>
      rw [Option.getD_none]
      omega
  | some n =>
      obtain ⟨rest, hread⟩ := Session.read_of_gives_options hoptions
      rw [Option.getD_some]
      exact Arguments.one_le_of_read hread (Arguments.Values.mem_of_count hcount)

/-! ## The count of a call -/

theorem exitOf_deductionEnding_of_not {others : List ArtifactWrite}
    (h : ∃ w ∈ others, w.fileName.isScalar = false) (result : Except EncodingFault Tally) :
    ∃ f, exitOf (Session.deductionEnding others result) = (1, some (.output f)) := by
  cases result with
  | error f => exact ⟨f, rfl⟩
  | ok tally =>
      cases hfault : (Console.outputs (others.map Session.skippedLine)).2 with
      | some f =>
          rw [Session.deductionEnding, hfault]
          exact ⟨f, rfl⟩
      | none =>
          obtain ⟨w, hw, hname⟩ := h
          have hscalar := Session.outputs_skipped_iff.mp hfault w hw
          rw [hname] at hscalar
          cases hscalar

/-- A call has handled the artifacts among some writes, with these outcomes. It ends by the count of
those without a stored schema, unless a name cannot be printed. -/
structure HasHandled (words : List Text) (s : Surroundings) (plan : DeductionPlan Chat.Wire)
    (start : DeductionState Chat.Wire) (writes : List ArtifactWrite) (outcomes : List (Nat × Bool))
    (done : DeductionState Chat.Wire) : Prop where
  handled : plan.HandlesAll (writes.filter fun w => isJsonArtifact w.fileName).length 1
    (DeductionPlan.printable (writes.filter fun w => isJsonArtifact w.fileName)) start outcomes done
  left : ((run words s).2.files, (run words s).2.wire) = (done.files, done.client)
  exit : (∀ w ∈ writes, w.fileName.isScalar = true) →
    (run words s).1.exit = (if 0 < (DeductionPlan.tallyOf outcomes).failed then 1 else 0)
      ∧ (run words s).1.fault = none
  fault : (∃ w ∈ writes, w.fileName.isScalar = false) →
    (run words s).1.exit = 1 ∧ ∃ f, (run words s).1.fault = some (.output f)

theorem CallsDeduction.hasHandled {words : List Text} {s : Surroundings} {p : ProjectContext}
    {ready : State} {options : Arguments.Values} {writes : List ArtifactWrite} {code : Text}
    (h : CallsDeduction words s p ready options)
    (hcan : Session.CanDeduce options ready writes code) :
    ∃ outcomes done, HasHandled words s (Session.planFor p options ready code)
      (Session.deductionStart options ready) writes outcomes done := by
  let artifacts := writes.filter fun w => isJsonArtifact w.fileName
  let others := writes.filter fun w => !isJsonArtifact w.fileName
  obtain ⟨outcomes, done, hhandles, hall, hnot⟩ := DeductionPlan.deduceFrom_handles
    (h.attempts_pos code) artifacts.length 1 artifacts {} (Session.deductionStart options ready)
  simp only [Nat.zero_add] at hall
  refine ⟨outcomes, done, ?_⟩
  -- the session ends by the result of the deductions, whatever this is
  have hends : ∀ result, (Session.planFor p options ready code).deduceAll artifacts
      (Session.deductionStart options ready) = (result, done) →
      ((run words s).2.files, (run words s).2.wire) = (done.files, done.client)
        ∧ ((run words s).1.exit, (run words s).1.fault)
          = exitOf (Session.deductionEnding others result) := by
    intro result hresult
    obtain ⟨last, hlast, hleft⟩ := Session.ends_deduceSchemas hcan hresult
    obtain ⟨-, hcode, hsurroundings⟩ := run_of_ends (h.ends hlast)
    rw [hsurroundings]
    exact ⟨hleft, hcode⟩
  by_cases hartifacts : ∀ w ∈ artifacts, w.fileName.isScalar = true
  · obtain ⟨hleft, hexit⟩ := hends _ (hall hartifacts)
    refine ⟨hhandles, hleft, ?_, ?_⟩
    · intro hnames
      rw [exitOf_deductionEnding fun w hw => hnames w (List.mem_of_mem_filter hw)] at hexit
      exact Prod.mk.inj hexit
    · rintro ⟨w, hw, hname⟩
      have hother : w ∈ others := by
        refine List.mem_filter.mpr ⟨hw, ?_⟩
        by_contra hjson
        rw [Bool.not_eq_true, Bool.not_eq_false'] at hjson
        have hscalar := hartifacts w (List.mem_filter.mpr ⟨hw, hjson⟩)
        rw [hname] at hscalar
        cases hscalar
      obtain ⟨f, hending⟩ := exitOf_deductionEnding_of_not ⟨w, hother, hname⟩ (.ok _)
      obtain ⟨hcode, hfault⟩ := Prod.mk.inj (hexit.trans hending)
      exact ⟨hcode, f, hfault⟩
  · have hsome : ∃ w ∈ artifacts, w.fileName.isScalar = false := by
      simpa using hartifacts
    obtain ⟨f, hresult⟩ := hnot hsome
    obtain ⟨hleft, hexit⟩ := hends _ hresult
    obtain ⟨hcode, hfault⟩ := Prod.mk.inj hexit
    refine ⟨hhandles, hleft, ?_, fun _ => ⟨hcode, f, hfault⟩⟩
    intro hnames
    exact absurd (fun w hw => hnames w (List.mem_of_mem_filter hw)) hartifacts

/-- **Every artifact is handled**, whatever has become of those before it. It is attempted until its
schema is stored or no attempt is left, and counted by the last attempt; and a call that deduces
schemas fails exactly if an artifact is left without one. Only a name that cannot be printed keeps
the artifacts from being handled, and then the call ends with a fault. -/
theorem artifacts_handled {σ : Type} (plan : DeductionPlan σ) (hattempts : 0 < plan.attempts)
    (ws : List ArtifactWrite) (start : DeductionState σ) :
    (∃ outcomes done, plan.HandlesAll ws.length 1 (DeductionPlan.printable ws) start outcomes done
      ∧ ((∀ w ∈ ws, w.fileName.isScalar = true) → DeductionPlan.printable ws = ws
        ∧ plan.deduceAll ws start = (.ok (DeductionPlan.tallyOf outcomes), done)
        ∧ (DeductionPlan.tallyOf outcomes).succeeded + (DeductionPlan.tallyOf outcomes).failed
          = ws.length)
      ∧ ((∃ w ∈ ws, w.fileName.isScalar = false) → outcomes.length < ws.length
        ∧ ∃ f, plan.deduceAll ws start = (.error f, done)))
    ∧ ∀ (words : List Text) (s : Surroundings) (p : ProjectContext) (ready : State)
        (options : Arguments.Values) (writes : List ArtifactWrite) (code : Text),
      CallsDeduction words s p ready options → Session.CanDeduce options ready writes code →
      ∃ outcomes done, HasHandled words s (Session.planFor p options ready code)
        (Session.deductionStart options ready) writes outcomes done := by
  constructor
  · obtain ⟨outcomes, done, hhandles, hall, hnot⟩ :=
      DeductionPlan.deduceFrom_handles hattempts ws.length 1 ws {} start
    simp only [Nat.zero_add] at hall
    refine ⟨outcomes, done, hhandles, ?_, ?_⟩
    · intro hnames
      have hwhole := DeductionPlan.printable_of_isScalar hnames
      refine ⟨hwhole, hall hnames, ?_⟩
      rw [DeductionPlan.tallyOf_sum, hhandles.length, hwhole]
    · intro hname
      refine ⟨?_, hnot hname⟩
      rw [hhandles.length]
      exact DeductionPlan.length_printable_lt hname
  · intro words s p ready options writes code hcall hcan
    exact hcall.hasHandled hcan

/-- Deductions with a client that gives no answer to the first request. -/
def hesitant : DeductionPlan Nat where
  client := fun _ n =>
    let content := Json.obj [(Text.ofString "schema", .obj []), (Text.ofString "example", .arr []),
      (Text.ofString "reasoning", .str [])]
    (if n = 0 then .nothing else .response content, n + 1)
  pause := fun _ n => n
  model := overOneWire.model
  code := oneScript
  directory := Path.ofText (Text.ofString "d")
  attempts := 2
  now := overOneWire.now

set_option maxRecDepth 100000 in
theorem hesitant_counts :
    (match hesitant.deduceAll [oneWritten] { files := callFiles, client := 0 } with
    | (.ok tally, s) => decide (tally = ⟨1, 0⟩) && s.client = 2
    | _ => false) = true := by
  decide +kernel

/-- The contract of a task that writes an artifact with a schema and one without. -/
def twoWrites : Text :=
  Text.ofString ("\x7b\"artifacts\":\x7b\"writes\":[\x7b\"fileName\":\"a.json\",\"stage\":\"f\"\x7d,"
    ++ "\x7b\"fileName\":\"b.txt\",\"stage\":\"f\"\x7d]\x7d\x7d")

set_option maxRecDepth 100000 in
theorem twoWrites_read : ((Json.read twoWrites.unifyLineEnds).toOption.any fun v =>
    (Contract.storedWrites? v).any fun ws => ws.all fun w => w.fileName.isScalar) = true := by
  decide +kernel

def keylessCall : Surroundings :=
  { oneCall twoWrites with environment := [] }

set_option maxRecDepth 100000 in
theorem keylessCall_exit : (run (deductionCall (Text.ofString "c.json") (Text.ofString "t.js")
    (Text.ofString "d")) keylessCall).1.exit = 1 := by
  decide +kernel

/-- The call reads the writes back and can deduce their schemas. -/
theorem keylessCall_canDeduce : ∃ writes, Session.CanDeduce
      (Arguments.deductionValues (Text.ofString "c.json") (Text.ofString "t.js") (Text.ofString "d"))
      ((Session.prepare Arguments.standardValues).run { keylessCall with }).2 writes
      oneScript.unifyLineEnds
    ∧ ∀ w ∈ writes, w.fileName.isScalar = true := by
  obtain ⟨v, hvalue, hwrites⟩ := exists_ok_of_any twoWrites_read
  cases hstored : Contract.storedWrites? v with
  | none =>
      rw [hstored] at hwrites
      cases hwrites
  | some writes =>
      rw [hstored] at hwrites
      exact ⟨writes, ⟨⟨_, v, rfl, hvalue, hstored⟩, rfl, rfl, by decide, by decide⟩,
        List.all_eq_true.mp hwrites⟩

/-- The second attempt stores the schema, and a call that has no key to ask with fails. -/
theorem hesitant_handled : (0 < hesitant.attempts
      ∧ ∃ outcomes done, hesitant.HandlesAll 1 1 [oneWritten] { files := callFiles, client := 0 }
          outcomes done
        ∧ DeductionPlan.tallyOf outcomes = ⟨1, 0⟩ ∧ done.client = 2)
    ∧ ∃ p ready writes code,
        let words := deductionCall (Text.ofString "c.json") (Text.ofString "t.js")
          (Text.ofString "d")
        let options := Arguments.deductionValues (Text.ofString "c.json") (Text.ofString "t.js")
          (Text.ofString "d")
        CallsDeduction words keylessCall p ready options
        ∧ Session.CanDeduce options ready writes code
        ∧ ∃ outcomes done, HasHandled words keylessCall (Session.planFor p options ready code)
            (Session.deductionStart options ready) writes outcomes done
          ∧ 0 < (DeductionPlan.tallyOf outcomes).failed := by
  obtain ⟨⟨outcomes, done, hhandles, hcount, -⟩, hcalls⟩ := artifacts_handled hesitant (by decide)
    [oneWritten] { files := callFiles, client := 0 }
  constructor
  · refine ⟨by decide, ?_⟩
    have hname : ∀ w ∈ [oneWritten], w.fileName.isScalar = true :=
      List.forall_mem_singleton.mpr (Text.isScalar_ofString _)
    obtain ⟨hwhole, hdeduce, -⟩ := hcount hname
    have hcounts := hesitant_counts
    rw [hdeduce] at hcounts
    simp only [Bool.and_eq_true, decide_eq_true_eq] at hcounts
    exact ⟨outcomes, done, hwhole ▸ hhandles, hcounts⟩
  · obtain ⟨writes, hcan, hnames⟩ := keylessCall_canDeduce
    have hcall : CallsDeduction (deductionCall (Text.ofString "c.json") (Text.ofString "t.js")
        (Text.ofString "d")) keylessCall _ _ _ := callsDeduction_deductionCall rfl rfl rfl rfl
    obtain ⟨outcomes, done, hhandled⟩ := hcalls _ _ _ _ _ _ _ hcall hcan
    have hexit := (hhandled.exit hnames).1
    rw [keylessCall_exit] at hexit
    refine ⟨_, _, writes, _, hcall, hcan, outcomes, done, hhandled, ?_⟩
    by_contra hnone
    rw [if_neg hnone] at hexit
    cases hexit

end CommandLine

end TaskContract
