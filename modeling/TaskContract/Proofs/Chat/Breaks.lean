import TaskContract.Proofs.Chat.Tries

/-!
# Requests that break off

A request gets a response or a failure of the service, unless it breaks off: because it cannot be
sent, because a try of it meets an exchange that breaks it off, or because a delay cannot be
computed. Which of these it is follows from the request and from the first exchange that is not
worth another try.
-/

namespace TaskContract.Chat

def IsServed (result : Except Failure Response) : Prop :=
  (∃ response, result = .ok response) ∨ ∃ e, result = .error (.service e)

theorem isServed_mapError (result : Except ServiceError Response) :
    IsServed (result.mapError .service) := by
  cases result with
  | ok response => exact Or.inl ⟨response, rfl⟩
  | error e => exact Or.inr ⟨e, rfl⟩

theorem not_isServed {f : Failure} (hf : ∀ e, f ≠ .service e) : ¬IsServed (.error f) := by
  rintro (⟨response, h⟩ | ⟨e, h⟩)
  · cases h
  · exact hf e (Except.error.inj h)

/-- Of the numbers that something holds of one is the first. -/
theorem exists_first {n : Nat} {good : Nat → Prop} (h : ∃ i, i ≤ n ∧ ¬good i) :
    ∃ i, (i ≤ n ∧ ¬good i) ∧ ∀ j < i, good j := by
  classical
  refine ⟨Nat.find h, Nat.find_spec h, fun j hj => not_not.mp fun hnot => ?_⟩
  exact Nat.find_min h hj ⟨hj.le.trans (Nat.find_spec h).1, hnot⟩

inductive BreaksOff (s : Settings) (r : Request) (p : Provider) (key : Text) (w : Wire) : Prop
  /-- A message of the request lacks a field. -/
  | message {e : MessageFault} (hbody : r.body p = .error e)
  /-- The key is not ASCII. -/
  | key {f : EncodingFault} (hkey : Encoding.ascii.fault? key = some f)
  /-- The request holds a surrogate or a number that is not finite. -/
  | body {body : Json} (htries : 0 ≤ s.maxRetries) (hbody : r.body p = .ok body)
      (hunfit : body.isScalar = false ∨ isFinite body = false)
  /-- A try meets an exchange that breaks it off. -/
  | exchange {i : Nat} (hi : i ≤ s.maxRetries)
      (hbefore : ∀ j < i, (w.exchange j).IsRetried (isJsonFormat r.responseFormat))
      (hdouble : CanDouble s.retryDelay i)
      (hfatal : (w.exchange i).IsFatal (isJsonFormat r.responseFormat))
  /-- A delay cannot be computed. -/
  | delay (hfloat : ∃ x, s.retryDelay = .float x) (hlong : 1025 ≤ s.maxRetries)
      (hbefore : ∀ j < 1025, (w.exchange j).IsRetried (isJsonFormat r.responseFormat))

section

variable {s : Settings} {r : Request} {p : Provider} {key : Text} {w : Wire}
  (hknown : s.providers.lookup r.provider = some p)
  (hgiven : s.environment.lookup p.keyVariable = some key) (hkey : key ≠ [])

theorem breaksOff_of_not_isSent (htries : 0 ≤ s.maxRetries) (h : ∀ sent, ¬IsSent r p key sent)
    (w : Wire) : BreaksOff s r p key w := by
  cases hbody : r.body p with
  | error e => exact .message hbody
  | ok body =>
      cases hascii : Encoding.ascii.fault? key with
      | some f => exact .key hascii
      | none =>
          by_cases hscalar : body.isScalar = true
          · refine .body htries hbody (Or.inr (Bool.eq_false_iff.mpr fun hfinite => ?_))
            exact h { url := p.url, key, body } ⟨rfl, rfl, hascii, hbody, hscalar, hfinite⟩
          · exact .body htries hbody (Or.inl (Bool.eq_false_iff.mpr hscalar))

include hknown hgiven hkey

theorem not_isServed_of_tries {n : Nat} (htries : s.maxRetries = n)
    (h : ∀ sent, IsSent r p key sent → ¬IsServed
      (tries s r.provider (isJsonFormat r.responseFormat) sent (n + 1) 0 none w).1) :
    ¬IsServed (complete s r w).1 := by
  by_cases hsent : ∃ sent, IsSent r p key sent
  · obtain ⟨sent, hsent⟩ := hsent
    rw [complete_of_isSent hknown hgiven hkey htries hsent w]
    exact h sent hsent
  · obtain ⟨f, hcomplete, hf⟩ := complete_of_not_isSent hknown hgiven hkey htries
      (not_exists.mp hsent) w
    rw [hcomplete]
    exact not_isServed hf

theorem BreaksOff.not_isServed (h : BreaksOff s r p key w) : ¬IsServed (complete s r w).1 := by
  cases h with
  | message hbody =>
      rw [complete_of_key hknown hgiven hkey, hbody]
      exact Chat.not_isServed nofun
  | key hascii =>
      rw [complete_of_key hknown hgiven hkey, hascii]
      cases r.body p with
      | error e => exact Chat.not_isServed nofun
      | ok body => exact Chat.not_isServed nofun
  | @body body htries hbody hunfit =>
      obtain ⟨n, hn⟩ := Int.eq_ofNat_of_zero_le htries
      refine not_isServed_of_tries hknown hgiven hkey hn fun sent hsent => ?_
      obtain rfl : body = sent.body := Except.ok.inj (hbody.symm.trans hsent.body)
      rw [hsent.isScalar, hsent.isFinite] at hunfit
      rcases hunfit with hunfit | hunfit <;> cases hunfit
  | @exchange i hi hbefore hdouble hfatal =>
      obtain ⟨n, hn⟩ := Int.eq_ofNat_of_zero_le ((Int.natCast_nonneg i).trans hi)
      have hle : i ≤ n := by omega
      refine not_isServed_of_tries hknown hgiven hkey hn fun sent hsent => ?_
      obtain ⟨f, hresult, hf⟩ :=
        tries_fatal hsent.isScalar hsent.isFinite hbefore hle hdouble hfatal
      rw [hresult]
      exact Chat.not_isServed hf
  | delay hfloat hlong hbefore =>
      obtain ⟨n, hn⟩ := Int.eq_ofNat_of_zero_le (by omega : 0 ≤ s.maxRetries)
      refine not_isServed_of_tries hknown hgiven hkey hn fun sent hsent => ?_
      rw [tries_overflow hsent.isScalar hsent.isFinite r.provider hfloat (by omega) hbefore]
      exact Chat.not_isServed nofun

/-- A request that can be sent is served, or its first exchange that is not worth another try breaks
it off. -/
theorem isServed_or_breaksOff_of_isSent {n : Nat} (htries : s.maxRetries = n) {sent : Sent}
    (hsent : IsSent r p key sent) : IsServed (complete s r w).1 ∨ BreaksOff s r p key w := by
  have hscalar := hsent.isScalar
  have hfinite := hsent.isFinite
  rw [complete_of_isSent hknown hgiven hkey htries hsent w]
  by_cases hstop : ∃ i, i ≤ n ∧ ¬(w.exchange i).IsRetried (isJsonFormat r.responseFormat)
  · -- the first exchange that is not worth another try decides, if its try is reached
    obtain ⟨i, ⟨hi, hfirst⟩, hbefore⟩ := exists_first hstop
    by_cases hdouble : CanDouble s.retryDelay i
    · by_cases hfatal : (w.exchange i).IsFatal (isJsonFormat r.responseFormat)
      · exact Or.inr (.exchange (by omega) hbefore hdouble hfatal)
      · have hterminal := not_not.mp fun hlasting => hfirst ⟨hfatal, hlasting⟩
        obtain ⟨result, hgives⟩ := Exchange.gives_of_not_isFatal r.provider hfatal
        rw [tries_terminal hscalar hfinite hbefore hi hdouble hterminal hgives]
        exact Or.inl (isServed_mapError result)
    · obtain ⟨hfloat, hlong⟩ := Classical.not_imp.mp hdouble
      exact Or.inr (.delay hfloat (by omega) fun j hj => hbefore j (by omega))
  · have hretried : ∀ i ≤ n, (w.exchange i).IsRetried (isJsonFormat r.responseFormat) :=
      fun i hi => not_not.mp fun hnot => hstop ⟨i, hi, hnot⟩
    by_cases hdouble : CanDouble s.retryDelay n
    · obtain ⟨e, -, -, hresult⟩ := tries_exhausted hscalar hfinite r.provider hretried hdouble
      rw [hresult]
      exact Or.inl (Or.inr ⟨e, rfl⟩)
    · obtain ⟨hfloat, hlong⟩ := Classical.not_imp.mp hdouble
      exact Or.inr (.delay hfloat (by omega) fun j hj => hretried j (by omega))

theorem isServed_or_breaksOff : IsServed (complete s r w).1 ∨ BreaksOff s r p key w := by
  by_cases htries : 0 ≤ s.maxRetries
  · obtain ⟨n, hn⟩ := Int.eq_ofNat_of_zero_le htries
    by_cases hsent : ∃ sent, IsSent r p key sent
    · obtain ⟨sent, hsent⟩ := hsent
      exact isServed_or_breaksOff_of_isSent hknown hgiven hkey hn hsent
    · exact Or.inr (breaksOff_of_not_isSent htries (not_exists.mp hsent) w)
  · rw [complete_of_key hknown hgiven hkey]
    cases hbody : r.body p with
    | error e => exact Or.inr (.message hbody)
    | ok body =>
        cases hascii : Encoding.ascii.fault? key with
        | some f => exact Or.inr (.key hascii)
        | none =>
            dsimp only
            rw [if_pos (Int.not_le.mp htries)]
            exact Or.inl (Or.inr ⟨_, rfl⟩)

end

theorem sent_follow (s : Settings) (provider : Text) (json : Bool) (sent : Sent) (left failed : Nat)
    (x : Exchange) (w : Wire) :
    w.sent.length ≤ (follow s provider json sent left failed x w).2.sent.length := by
  unfold follow
  cases x.outcome provider json with
  | done r => exact le_rfl
  | stop f => exact le_rfl
  | again e =>
      obtain ⟨n, hadvances, -⟩ :=
        goesByExchanges_tries s provider json sent left (failed + 1) (some e) w
      exact (Nat.le_add_right _ n).trans hadvances.sent.ge

/-- **A request gets a response or a failure of the service if and only if it does not break off.**
An exchange that is worth another try is followed by one, as long as a try is left: so is a reply
without content, and one that is no JSON where JSON is asked for. -/
theorem complete_isServed_iff (s : Settings) (r : Request) (w : Wire) :
    (IsServed (complete s r w).1 ↔ ∀ p key, s.providers.lookup r.provider = some p →
        s.environment.lookup p.keyVariable = some key → key ≠ [] → ¬BreaksOff s r p key w)
      ∧ ∀ p key sent (i : Nat), s.providers.lookup r.provider = some p →
        s.environment.lookup p.keyVariable = some key → key ≠ [] → IsSent r p key sent →
        i < s.maxRetries → CanDouble s.retryDelay (i + 1) →
        (∀ j ≤ i, (w.exchange j).IsRetried (isJsonFormat r.responseFormat)) →
        w.sent.length + (i + 2) ≤ (complete s r w).2.sent.length := by
  refine ⟨⟨?served, ?whole⟩, ?retried⟩
  case served =>
    intro hserved p key hknown hgiven hkey hbreaks
    exact hbreaks.not_isServed hknown hgiven hkey hserved
  case whole =>
    intro h
    cases hknown : s.providers.lookup r.provider with
    | none =>
        rw [complete, hknown]
        exact Or.inr ⟨_, rfl⟩
    | some p =>
        cases hgiven : s.environment.lookup p.keyVariable with
        | none =>
            rw [complete, hknown]
            dsimp only
            rw [hgiven]
            exact Or.inr ⟨_, rfl⟩
        | some key =>
            cases key with
            | nil =>
                rw [complete, hknown]
                dsimp only
                rw [hgiven]
                exact Or.inr ⟨_, rfl⟩
            | cons c rest =>
                have hkey : c :: rest ≠ [] := List.cons_ne_nil c rest
                exact (isServed_or_breaksOff hknown hgiven hkey).resolve_right
                  (h p _ hknown hgiven hkey)
  case retried =>
    intro p key sent i hknown hgiven hkey hsent hi hdouble hretried
    obtain ⟨n, hn⟩ := Int.eq_ofNat_of_zero_le (show 0 ≤ s.maxRetries by omega)
    have hbefore : ∀ j < i + 1, (w.exchange j).IsRetried (isJsonFormat r.responseFormat) :=
      fun j hj => hretried j (Nat.le_of_lt_succ hj)
    have hle : i + 1 ≤ n := by omega
    rw [complete_of_isSent hknown hgiven hkey hn hsent w,
      tries_reach hsent.isScalar hsent.isFinite hbefore hle hdouble]
    refine le_trans ?_ (sent_follow _ _ _ _ _ _ _ _)
    rw [Wire.afterTries, List.length_append, List.length_replicate]
    omega

/-- A service whose first reply is no JSON, and whose second one is in order. -/
def brokenWire : Wire where
  pending := [.answer 200 (Text.ofString "oops")]
  otherwise := .answer 200 (Json.compact (Json.object [("choices", .arr [Json.object
    [("message", Json.object [("content", Json.ofString "ok")])]])]))

/-- A body that is not JSON is not followed by another try. -/
theorem brokenWire_breaksOff :
    ¬IsServed (complete (patientSettings 3 (.int 1)) greeting brokenWire).1 := by
  have hfatal : (brokenWire.exchange 0).IsFatal (isJsonFormat greeting.responseFormat) := by
    refine ⟨by decide, Or.inl ⟨_, rfl⟩⟩
  intro hserved
  refine (complete_isServed_iff _ _ _).1.mp hserved
    ⟨"https://api.deepseek.com", "DEEPSEEK_API_KEY", "deepseek-chat"⟩ (Text.ofString "k") rfl rfl
    (by decide) ?_
  exact .exchange (i := 0) (by decide) nofun nofun hfatal

end TaskContract.Chat
