import TaskContract.Proofs.Decimal.Order
import TaskContract.Inference.Resolution

/-!
# What a guess is made of

Every reply gives a guess, and the parts of the guess are those that the reply states: a name only
if it is not empty, and a confidence from zero to one. A reply that states a NaN is the only one
with another confidence. So whether a guess is adopted is decided by the exact numbers.
-/

namespace TaskContract

namespace Binary64

/-- The value of a number moved into the interval from zero to one, none for a NaN. -/
def clampedValue? : Binary64 → Option ℚ
  | .nan => none
  | .infinite negative => some (if negative then 0 else 1)
  | x => x.value?.map fun q => max 0 (min 1 q)

end Binary64

def Json.held? : Json → Option Json
  | .str t => (Json.read t).toOption
  | v => some v

namespace Resolution

def statedName? (ms : Members) : Option Text :=
  ((ms.get? (Text.ofString "resolvedFileName")).bind Json.str?).filter fun t => !t.isEmpty

def confidenceMember? (ms : Members) : Option Json :=
  ms.get? (Text.ofString "confidence")

/-- The exact confidence that is stated: zero if it is no number, none if it is a NaN or an integer
beyond the floating-point range. -/
def statedConfidence? : Option Json → Option ℚ
  | some (.float x) => x.clampedValue?
  | some (.int n) => (Binary64.ofInt? n).map fun _ => max 0 (min 1 (n : ℚ))
  | _ => some 0

end Resolution

namespace Chat.Reply

open Resolution

def members? : Chat.Reply → Option Members
  | .response content => content.held?.bind Json.obj?
  | _ => none

def StatesNaN (reply : Chat.Reply) : Prop :=
  ∃ ms, reply.members? = some ms ∧ confidenceMember? ms = some (.float .nan)

/-- The name that a reply states with at least the given confidence. -/
def named? (τ : ℚ) (reply : Chat.Reply) : Option Text := do
  let ms ← reply.members?
  let q ← statedConfidence? (confidenceMember? ms)
  if τ ≤ q then statedName? ms else none

end Chat.Reply

namespace Resolution

open Binary64

/-! ## The interval from zero to one -/

variable {x : Binary64} {q : ℚ}

theorem value_clamp_of_value (h : x.value? = some q) :
    (clamp x).value? = some (max 0 (min 1 q)) := by
  have hneg := lt_iff h value_zero
  have hone := lt_iff value_one h
  change (let x := if x.lt .zero then .zero else x
    if one.lt x then one else x).value? = _
  by_cases hq : q < 0
  · have hzero : one.lt .zero = false := by
      rw [Bool.eq_false_iff, Ne, lt_iff value_one value_zero]
      norm_num
    simp [hneg.mpr hq, hzero, value_zero, hq.le]
  · simp only [Bool.eq_false_iff.mpr fun hlt => hq (hneg.mp hlt), Bool.false_eq_true, if_false]
    rw [not_lt] at hq
    by_cases hq' : 1 < q
    · simp [hone.mpr hq', value_one, hq'.le]
    · simp only [Bool.eq_false_iff.mpr fun hlt => hq' (hone.mp hlt), Bool.false_eq_true, if_false]
      simp [h, not_lt.mp hq', hq]

theorem clamp_nan : clamp .nan = .nan := by
  decide +kernel

theorem clamp_infinite (negative : Bool) :
    clamp (.infinite negative) = if negative then zero else one := by
  cases negative <;> decide +kernel

theorem value_clamp (x : Binary64) : (clamp x).value? = x.clampedValue? := by
  cases x with
  | nan => rw [clamp_nan]; rfl
  | infinite negative =>
      rw [clamp_infinite, clampedValue?]
      cases negative
      · rw [if_neg Bool.false_ne_true, if_neg Bool.false_ne_true, value_one]
      · rw [if_pos rfl, if_pos rfl, value_zero]
  | finite negative m k => exact value_clamp_of_value rfl

theorem clampedValue_range (h : x.clampedValue? = some q) : 0 ≤ q ∧ q ≤ 1 := by
  have hrange : ∀ p : ℚ, 0 ≤ max 0 (min 1 p) ∧ max 0 (min 1 p) ≤ 1 := fun p =>
    ⟨le_max_left _ _, max_le zero_le_one (min_le_left _ _)⟩
  cases x with
  | nan => cases h
  | infinite negative =>
      obtain rfl := Option.some.inj h
      cases negative <;> norm_num
  | finite negative m k =>
      obtain rfl := Option.some.inj h
      exact hrange _

theorem clampedValue_eq_none : x.clampedValue? = none ↔ x = .nan := by
  constructor
  · intro h
    cases x with
    | nan => rfl
    | _ => cases h
  · rintro rfl
    rfl

/-- Rounding an integer does not change where it is moved to. -/
theorem clampedValue_ofInt {n : ℤ} (h : ofInt? n = some x) :
    x.clampedValue? = some (max 0 (min 1 (n : ℚ))) := by
  obtain ⟨p, hp, hpos, hneg⟩ := value_ofInt h
  rw [← value_clamp, value_clamp_of_value hp]
  rcases lt_or_ge 0 n with hn | hn
  · have hone : (1 : ℚ) ≤ n := by exact_mod_cast hn
    rw [min_eq_left (hpos hn), min_eq_left hone]
  · have hzero : (n : ℚ) ≤ 0 := by exact_mod_cast hn
    rw [max_eq_left (min_le_of_right_le (hneg hn)), max_eq_left (min_le_of_right_le hzero)]

/-- How a stated confidence is read, and which one it is exactly. -/
inductive Confidence (stated : Option Json) : Option Binary64 → Option ℚ → Prop where
  | beyond {n : ℤ} (int : stated = some (.int n)) (range : ofInt? n = none) :
      Confidence stated none none
  | nan (float : stated = some (.float .nan)) : Confidence stated (some .nan) none
  | within {x : Binary64} {q : ℚ} (number : stated ≠ some (.float .nan)) (value : x.value? = some q)
      (range : 0 ≤ q ∧ q ≤ 1) : Confidence stated (some x) (some q)

theorem confidence_clamp {stated : Option Json} (hnumber : stated ≠ some (.float .nan))
    (h : x.clampedValue? = some q) : Confidence stated (some (clamp x)) (some q) :=
  .within hnumber ((value_clamp x).trans h) (clampedValue_range h)

theorem confidence_zero {stated : Option Json} (hnumber : stated ≠ some (.float .nan)) :
    Confidence stated (some zero) (some 0) :=
  .within hnumber value_zero ⟨le_refl 0, zero_le_one⟩

theorem confidence_read (stated : Option Json) :
    Confidence stated (readConfidence stated) (statedConfidence? stated) := by
  cases stated with
  | none =>
      refine confidence_zero ?_
      rintro ⟨⟩
  | some v =>
      cases v with
      | int n =>
          simp only [readConfidence, statedConfidence?]
          cases hx : ofInt? n with
          | none => exact .beyond rfl hx
          | some x =>
              refine confidence_clamp ?_ (clampedValue_ofInt hx)
              rintro ⟨⟩
      | float x =>
          simp only [readConfidence, statedConfidence?]
          cases hq : x.clampedValue? with
          | none =>
              obtain rfl := clampedValue_eq_none.mp hq
              rw [clamp_nan]
              exact .nan rfl
          | some q =>
              refine confidence_clamp ?_ hq
              rintro ⟨⟩
              cases hq
      | _ =>
          refine confidence_zero ?_
          rintro ⟨⟩

/-! ## Guesses -/

variable {reply : Chat.Reply} {ms : Members}

def ofMembers? (ms : Members) : Option Resolution := do
  let confidence ← readConfidence (confidenceMember? ms)
  return { fileName := statedName? ms
           confidence
           reasoning := ((ms.get? (Text.ofString "reasoning")).bind Json.str?).getD [] }

theorem ofContent_eq (content : Json) :
    ofContent? content = (content.held?.bind Json.obj?).bind ofMembers? := by
  rw [Option.bind_assoc]
  cases content <;> rfl

theorem ofReply_eq (reply : Chat.Reply) :
    ofReply reply = (reply.members?.bind ofMembers?).getD failed := by
  cases reply with
  | response content =>
      exact congrArg (Option.getD · failed) (ofContent_eq content)
  | _ => rfl

structure IsGuessOf (guess : Resolution) (reply : Chat.Reply) : Prop where
  /-- A name is not empty. -/
  name : guess.fileName ≠ some []
  range : ¬reply.StatesNaN → ∃ q, guess.confidence.value? = some q ∧ 0 ≤ q ∧ q ≤ 1
  /-- A NaN is not moved into the interval. -/
  nan : reply.StatesNaN → guess.confidence = .nan
  stated : ∀ ms q, reply.members? = some ms → statedConfidence? (confidenceMember? ms) = some q →
    guess.fileName = statedName? ms ∧ guess.confidence.value? = some q
  /-- Without an object, for whatever reason, nothing is guessed. -/
  nothing : reply.members? = none → guess.fileName = none ∧ guess.confidence = .zero

theorem statedName_ne_nil (ms : Members) : statedName? ms ≠ some [] := by
  intro h
  have hkept := (Option.filter_eq_some_iff.mp h).2
  cases hkept

theorem ofMembers_eq {c : Option Binary64} (h : readConfidence (confidenceMember? ms) = c) :
    ofMembers? ms = c.map fun confidence =>
      { fileName := statedName? ms
        confidence
        reasoning := ((ms.get? (Text.ofString "reasoning")).bind Json.str?).getD [] } := by
  rw [ofMembers?, h]
  cases c <;> rfl

/-- A reply without a confidence that can be read gives the guess of nothing. -/
theorem failed_isGuessOf (hnan : ¬reply.StatesNaN) (hstated : ∀ ms, reply.members? = some ms →
    statedConfidence? (confidenceMember? ms) = none) : failed.IsGuessOf reply where
  name := nofun
  range := fun _ => ⟨0, value_zero, le_refl 0, zero_le_one⟩
  nan := fun h => absurd h hnan
  stated := by
    intro ms q hms hq
    rw [hstated ms hms] at hq
    cases hq
  nothing := fun _ => ⟨rfl, rfl⟩

theorem isGuessOf_ofReply (reply : Chat.Reply) : (ofReply reply).IsGuessOf reply := by
  rw [ofReply_eq]
  cases hms : reply.members? with
  | none =>
      apply failed_isGuessOf
      · rintro ⟨ms, h, -⟩
        cases hms.symm.trans h
      · intro ms h
        cases hms.symm.trans h
  | some ms =>
      have hunique : ∀ ms', reply.members? = some ms' → ms' = ms := by
        intro ms' h
        exact Option.some.inj (h.symm.trans hms)
      have hnan : reply.StatesNaN → confidenceMember? ms = some (.float .nan) := by
        rintro ⟨ms', h, hstated⟩
        exact hunique ms' h ▸ hstated
      have hconfidence := confidence_read (confidenceMember? ms)
      generalize hread : readConfidence (confidenceMember? ms) = c at hconfidence
      generalize hexact : statedConfidence? (confidenceMember? ms) = e at hconfidence
      rw [Option.bind_some, ofMembers_eq hread]
      -- the name is taken as it is, and what is read as the confidence decides about the rest
      cases hconfidence with
      | beyond int range =>
          apply failed_isGuessOf
          · intro h
            cases int.symm.trans (hnan h)
          · intro ms' h
            exact hunique ms' h ▸ hexact
      | nan float =>
          refine ⟨statedName_ne_nil ms, ?_, fun _ => rfl, ?_, ?_⟩
          · intro h
            exact absurd ⟨ms, hms, float⟩ h
          · intro ms' q h hq
            obtain rfl := hunique ms' h
            cases hexact.symm.trans hq
          · intro h
            cases h.symm.trans hms
      | within number value range =>
          refine ⟨statedName_ne_nil ms, fun _ => ⟨_, value, range⟩, ?_, ?_, ?_⟩
          · intro h
            exact absurd (hnan h) number
          · intro ms' q h hq
            obtain rfl := hunique ms' h
            exact ⟨rfl, value.trans (hexact.symm.trans hq)⟩
          · intro h
            cases h.symm.trans hms

theorem not_adoptable {guess : Resolution} {threshold : Binary64}
    (h : guess.fileName = none ∨ guess.confidence = .nan) :
    guess.isAdoptableAt threshold = false := by
  rcases h with h | h
  · rw [isAdoptableAt, h]
    rfl
  · have hle : threshold.le .nan = false := by
      cases threshold <;> rfl
    rw [isAdoptableAt, h, hle, Bool.and_false]

/-- **Whether a guess is adopted is decided by the exact numbers.** -/
theorem adopted_name {threshold : Binary64} {τ : ℚ} (h : threshold.value? = some τ)
    (reply : Chat.Reply) :
    (if (ofReply reply).isAdoptableAt threshold then (ofReply reply).fileName else none)
      = reply.named? τ := by
  rw [ofReply_eq, Chat.Reply.named?]
  cases hms : reply.members? with
  | none => simp [not_adoptable, failed]
  | some ms =>
      have hconfidence := confidence_read (confidenceMember? ms)
      generalize hread : readConfidence (confidenceMember? ms) = c at hconfidence
      generalize hexact : statedConfidence? (confidenceMember? ms) = e at hconfidence
      rw [Option.bind_some, ofMembers_eq hread]
      cases hconfidence with
      | beyond => simp [not_adoptable, failed, hexact]
      | nan => simp [not_adoptable, hexact]
      | @within x q number value range =>
          have hle := le_iff h value
          cases hname : statedName? ms with
          | none => simp [not_adoptable, hexact, hname]
          | some name => simp [isAdoptableAt, hexact, hname, hle]

/-- A text may hold a NaN, although it is no JSON. -/
example : (ofReply (.response (.ofString "\x7b\"resolvedFileName\": \"a\", \"confidence\": NaN\x7d"))
    ).confidence = .nan := by
  decide +kernel

end Resolution

/-- **Every reply gives a guess**, and the client is asked once for it. The parts of the guess are
those that the reply states. -/
theorem resolve_answers {σ : Type} (client : Chat.Client σ) (model : Chat.Model) (code : Text)
    (r : UnresolvedReference) (known : List Text) (state : σ) : ∃ reply guess after,
      client (resolutionRequest model code r known) state = (reply, after)
        ∧ resolve client model code r known state = (guess, after)
        ∧ guess.IsGuessOf reply :=
  ⟨_, _, _, rfl, rfl, Resolution.isGuessOf_ofReply _⟩

end TaskContract
