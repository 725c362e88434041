import TaskContract.Proofs.Chat.Requests

/-!
# Requests tried again

A request is sent until it meets an exchange that ends it, or until no try is left. What each try
gives is decided by its exchange alone, so the run of tries is told by the exchanges in front of the
first that ends it: one post for each of them, and a delay between any two.
-/

namespace TaskContract.Chat

/-! ## What one exchange gives -/

/-- The text in which the value of a content is looked for: there is none in a content that is
neither text nor empty. -/
def contentText? (content : Json) : Option Text :=
  if content.isTruthy then content.str? else some []

namespace Exchange

/-- Does a try that meets the exchange break off: with a fault that is none of the transport, with a
body that is not JSON, or with a content in which no JSON can be looked for? -/
def IsFatal (json : Bool) : Exchange → Prop
  | .transportFault _ => False
  | .fault _ _ => True
  | .answer status body => status < 400 ∧ ((∃ e, readBody body = .error e)
      ∨ ∃ data content, readBody body = .ok data ∧ firstContent? data = some content
        ∧ json = true ∧ contentText? content = none)

/-- Does the exchange end the request: with a status that no other try is worth while for, or with a
content that can be read as it is asked for? -/
def IsTerminal (json : Bool) : Exchange → Prop
  | .transportFault _ => False
  | .fault _ _ => False
  | .answer status body => (400 ≤ status ∧ status ∉ ServiceError.retryableStatuses)
      ∨ status < 400 ∧ ∃ data content, readBody body = .ok data ∧ firstContent? data = some content
        ∧ (json = true → ∃ t v, contentText? content = some t ∧ parseContent t = .ok v)

def IsRetried (json : Bool) (x : Exchange) : Prop :=
  ¬x.IsFatal json ∧ ¬x.IsTerminal json

/-- What the service gives in an exchange: a response, or a failure of its own. -/
inductive Gives (provider : Text) (json : Bool) : Exchange → Except ServiceError Response → Prop
  | transport (message : Text) :
      Gives provider json (.transportFault message) (.error (.transport provider message))
  | status {status : Nat} {body : Text} (hstatus : 400 ≤ status) :
      Gives provider json (.answer status body)
        (.error (.status provider status (errorDetail status body).asText))
  | noChoices {status : Nat} {body : Text} {data : Json} (hstatus : status < 400)
      (hdata : readBody body = .ok data) (hcontent : firstContent? data = none) :
      Gives provider json (.answer status body) (.error (.noChoices provider))
  | content {status : Nat} {body : Text} {data content : Json} (hstatus : status < 400)
      (hdata : readBody body = .ok data) (hcontent : firstContent? data = some content)
      (hjson : json = false) :
      Gives provider json (.answer status body)
        (.ok { content, usage := usageOf ((data.get? "usage").getD .null), raw := data })
  | unreadable {status : Nat} {body : Text} {data content : Json} {t : Text} {e : ContentError}
      (hstatus : status < 400) (hdata : readBody body = .ok data)
      (hcontent : firstContent? data = some content) (hjson : json = true)
      (ht : contentText? content = some t) (hvalue : parseContent t = .error e) :
      Gives provider json (.answer status body) (.error (.unreadable e))
  | value {status : Nat} {body : Text} {data content v : Json} {t : Text}
      (hstatus : status < 400) (hdata : readBody body = .ok data)
      (hcontent : firstContent? data = some content) (hjson : json = true)
      (ht : contentText? content = some t) (hvalue : parseContent t = .ok v) :
      Gives provider json (.answer status body)
        (.ok { content := v, usage := usageOf ((data.get? "usage").getD .null), raw := data })

end Exchange

def Try.ofResult : Except ServiceError Response → Try
  | .ok r => .done r
  | .error e => if e.isRetryable then .again e else .stop (.service e)

theorem readContent_true (content : Json) : readContent true content
    = match contentText? content with
      | none => .error (.stop (.contentType content.typeName))
      | some t => (parseContent t).mapError fun e => .again (.unreadable e) := by
  unfold readContent contentText?
  generalize content.isTruthy = truthy
  cases truthy with
  | false => rfl
  | true => cases content <;> rfl

section

variable {provider : Text} {json : Bool} {x : Exchange} {result : Except ServiceError Response}

theorem Exchange.outcome_of_content {status : Nat} {body : Text} {data content : Json}
    (hstatus : status < 400) (hdata : readBody body = .ok data)
    (hcontent : firstContent? data = some content) :
    (Exchange.answer status body).outcome provider json
      = match readContent json content with
        | .error t => t
        | .ok v =>
          .done { content := v, usage := usageOf ((data.get? "usage").getD .null), raw := data } := by
  rw [Exchange.outcome, if_neg (Nat.not_le.mpr hstatus), hdata]
  cases hread : readContent json content <;> simp only [hcontent, hread]

theorem Exchange.Gives.outcome (h : x.Gives provider json result) :
    x.outcome provider json = Try.ofResult result := by
  cases h with
  | transport message => rfl
  | status hstatus =>
      rw [Exchange.outcome, if_pos hstatus]
      rfl
  | noChoices hstatus hdata hcontent =>
      rw [Exchange.outcome, if_neg (Nat.not_le.mpr hstatus), hdata]
      dsimp only
      rw [hcontent]
      rfl
  | content hstatus hdata hcontent hjson =>
      rw [outcome_of_content hstatus hdata hcontent, hjson]
      rfl
  | unreadable hstatus hdata hcontent hjson ht hvalue =>
      rw [outcome_of_content hstatus hdata hcontent, hjson, readContent_true, ht]
      dsimp only
      rw [hvalue]
      rfl
  | value hstatus hdata hcontent hjson ht hvalue =>
      rw [outcome_of_content hstatus hdata hcontent, hjson, readContent_true, ht]
      dsimp only
      rw [hvalue]
      rfl

theorem Exchange.gives_of_not_isFatal (provider : Text) (h : ¬x.IsFatal json) :
    ∃ result, x.Gives provider json result := by
  cases x with
  | transportFault message => exact ⟨_, .transport message⟩
  | fault kind message => exact absurd trivial h
  | answer status body =>
      by_cases hstatus : 400 ≤ status
      · exact ⟨_, .status hstatus⟩
      · have hlow : status < 400 := Nat.not_le.mp hstatus
        cases hdata : readBody body with
        | error e => exact absurd ⟨hlow, Or.inl ⟨e, hdata⟩⟩ h
        | ok data =>
            cases hcontent : firstContent? data with
            | none => exact ⟨_, .noChoices hlow hdata hcontent⟩
            | some content =>
                cases hjson : json with
                | false => exact ⟨_, .content hlow hdata hcontent rfl⟩
                | true =>
                    cases ht : contentText? content with
                    | none =>
                        exact absurd ⟨hlow, Or.inr ⟨data, content, hdata, hcontent, hjson, ht⟩⟩ h
                    | some t =>
                        cases hvalue : parseContent t with
                        | error e => exact ⟨_, .unreadable hlow hdata hcontent rfl ht hvalue⟩
                        | ok v => exact ⟨_, .value hlow hdata hcontent rfl ht hvalue⟩

theorem Exchange.isTerminal_iff_of_readBody {status : Nat} {body : Text} {data : Json}
    (hstatus : status < 400) (hdata : readBody body = .ok data) :
    IsTerminal json (.answer status body) ↔ ∃ content, firstContent? data = some content
      ∧ (json = true → ∃ t v, contentText? content = some t ∧ parseContent t = .ok v) := by
  constructor
  · rintro (⟨hhigh, -⟩ | ⟨-, data', content, hdata', hcontent⟩)
    · omega
    · obtain rfl := Except.ok.inj (hdata.symm.trans hdata')
      exact ⟨content, hcontent⟩
  · rintro ⟨content, hcontent⟩
    exact Or.inr ⟨hstatus, data, content, hdata, hcontent⟩

theorem Exchange.Gives.isTerminal_iff (h : x.Gives provider json result) :
    x.IsTerminal json ↔ ∀ e, result = .error e → e.isRetryable = false := by
  cases h with
  | transport message =>
      refine ⟨fun hterminal => absurd hterminal id, fun hlasting => ?_⟩
      cases hlasting _ rfl
  | @status status body hstatus =>
      have hretryable : (ServiceError.status provider status
          (errorDetail status body).asText).isRetryable = false
            ↔ status ∉ ServiceError.retryableStatuses := by
        rw [ServiceError.isRetryable, ← Bool.not_eq_true, List.contains_iff_mem]
      constructor
      · rintro (⟨-, hlasting⟩ | ⟨hlow, -⟩) e ⟨⟩
        · exact hretryable.mpr hlasting
        · omega
      · intro hlasting
        exact Or.inl ⟨hstatus, hretryable.mp (hlasting _ rfl)⟩
  | noChoices hstatus hdata hcontent =>
      rw [isTerminal_iff_of_readBody hstatus hdata, hcontent]
      constructor
      · rintro ⟨_, hnone, -⟩
        cases hnone
      · intro hlasting
        cases hlasting _ rfl
  | content hstatus hdata hcontent hjson =>
      rw [isTerminal_iff_of_readBody hstatus hdata, hjson]
      exact ⟨fun _ => nofun, fun _ => ⟨_, hcontent, nofun⟩⟩
  | unreadable hstatus hdata hcontent hjson ht hvalue =>
      rw [isTerminal_iff_of_readBody hstatus hdata]
      constructor
      · rintro ⟨content', hcontent', hfound⟩
        obtain rfl := Option.some.inj (hcontent.symm.trans hcontent')
        obtain ⟨t', v, ht', hv⟩ := hfound hjson
        obtain rfl := Option.some.inj (ht.symm.trans ht')
        cases hvalue.symm.trans hv
      · intro hlasting
        cases hlasting _ rfl
  | value hstatus hdata hcontent hjson ht hvalue =>
      rw [isTerminal_iff_of_readBody hstatus hdata]
      exact ⟨fun _ => nofun, fun _ => ⟨_, hcontent, fun _ => ⟨_, _, ht, hvalue⟩⟩⟩

theorem Exchange.IsRetried.gives (provider : Text) (h : x.IsRetried json) :
    ∃ e, x.Gives provider json (.error e) ∧ e.isRetryable = true
      ∧ x.outcome provider json = .again e := by
  obtain ⟨hfatal, hterminal⟩ := h
  obtain ⟨result, hgives⟩ := Exchange.gives_of_not_isFatal provider hfatal
  rw [hgives.isTerminal_iff] at hterminal
  obtain ⟨e, he⟩ := Classical.not_forall.mp hterminal
  obtain ⟨rfl, hretryable⟩ := Classical.not_imp.mp he
  rw [Bool.not_eq_false] at hretryable
  refine ⟨e, hgives, hretryable, ?_⟩
  rw [hgives.outcome, Try.ofResult, if_pos hretryable]

theorem Exchange.IsFatal.outcome (provider : Text) (h : x.IsFatal json) :
    ∃ f, x.outcome provider json = .stop f ∧ ∀ e, f ≠ .service e := by
  cases x with
  | transportFault message => exact absurd h id
  | fault kind message => exact ⟨_, rfl, nofun⟩
  | answer status body =>
      obtain ⟨hstatus, hbody⟩ := h
      rcases hbody with ⟨e, hdata⟩ | ⟨data, content, hdata, hcontent, rfl, ht⟩
      · rw [Exchange.outcome, if_neg (Nat.not_le.mpr hstatus), hdata]
        exact ⟨_, rfl, nofun⟩
      · rw [outcome_of_content hstatus hdata hcontent, readContent_true, ht]
        exact ⟨_, rfl, nofun⟩

end

/-! ## Runs of tries -/

namespace Wire

/-- The exchange that the try of a number will meet, if all tries before it are made. -/
def exchange (w : Wire) (i : Nat) : Exchange :=
  w.pending.getD i w.otherwise

/-- The wire after a number of tries: a post for each, and between them the delay, doubled each
time. -/
def afterTries (base : Json) (sent : Sent) (n : Nat) (w : Wire) : Wire where
  pending := w.pending.drop n
  otherwise := w.otherwise
  sent := List.replicate n sent ++ w.sent
  delays := ((List.range (n - 1)).map (doubled base)).reverse ++ w.delays

end Wire

/-- Can the delay be doubled for a number of tries? A floating-point delay is multiplied by finite
floating-point numbers only. -/
def CanDouble (base : Json) (n : Nat) : Prop :=
  (∃ x, base = .float x) → n ≤ 1024

theorem CanDouble.mono {base : Json} {m n : Nat} (h : CanDouble base n) (hm : m ≤ n) :
    CanDouble base m :=
  fun hfloat => hm.trans (h hfloat)

theorem delayAfter_eq_some {base : Json} {n : Nat} (h : CanDouble base n) :
    delayAfter? base n = some (doubled base (n - 1)) := by
  cases base with
  | float x => exact if_pos (h ⟨x, rfl⟩)
  | _ => rfl

theorem delayAfter_eq_none {base : Json} {n : Nat} (h : ¬CanDouble base n) :
    delayAfter? base n = none := by
  obtain ⟨⟨x, rfl⟩, hlong⟩ := Classical.not_imp.mp h
  exact if_neg hlong

namespace Wire

theorem send_afterTries {base : Json} {n : Nat} (h : CanDouble base n) (sent : Sent) (w : Wire) :
    ∃ w', (w.afterTries base sent n).paused base n = some w'
      ∧ w'.send sent = (w.exchange n, w.afterTries base sent (n + 1)) := by
  have hsend : ∀ delays : List Json,
      Wire.send ⟨w.pending.drop n, w.otherwise, List.replicate n sent ++ w.sent, delays⟩ sent
        = (w.exchange n, ⟨w.pending.drop (n + 1), w.otherwise,
          List.replicate (n + 1) sent ++ w.sent, delays⟩) := by
    intro delays
    rw [Wire.send, exchange, List.getD_eq_getElem?_getD, ← List.head?_drop, ← List.tail_drop]
    dsimp only
    cases w.pending.drop n <;> rfl
  cases n with
  | zero => exact ⟨w, rfl, hsend w.delays⟩
  | succ n =>
      refine ⟨_, ?_, hsend (((List.range (n + 1)).map (doubled base)).reverse ++ w.delays)⟩
      rw [paused, if_neg (Nat.succ_ne_zero n), delayAfter_eq_some h, List.range_succ,
        List.map_append, List.reverse_append]
      rfl

end Wire

/-- The failure of the try before the given one, if it is worth another try. -/
def errorBefore (provider : Text) (json : Bool) (w : Wire) : Nat → Option ServiceError
  | 0 => none
  | n + 1 =>
    match (w.exchange n).outcome provider json with
    | .again e => some e
    | _ => none

section

variable {s : Settings} {provider : Text} {json : Bool} {sent : Sent} {w : Wire} {i n : Nat}
  (hscalar : sent.body.isScalar = true) (hfinite : isFinite sent.body = true)

include hscalar hfinite

theorem tries_send (hdouble : CanDouble s.retryDelay n) (left : Nat) (last : Option ServiceError) :
    tries s provider json sent (left + 1) n last (w.afterTries s.retryDelay sent n)
      = follow s provider json sent left n (w.exchange n)
        (w.afterTries s.retryDelay sent (n + 1)) := by
  obtain ⟨w', hpaused, hsend⟩ := Wire.send_afterTries hdouble sent w
  rw [tries_succ, hpaused]
  dsimp only
  rw [attempt, hfinite, Json.tight_encodable_iff.mpr hscalar, hsend]

/-- The tries go on past exchanges that are worth another try, by induction on their number. -/
theorem tries_again (hretried : ∀ i < n, (w.exchange i).IsRetried json)
    (hdouble : CanDouble s.retryDelay (n - 1)) (left : Nat) :
    tries s provider json sent (left + n) 0 none w
      = tries s provider json sent left n (errorBefore provider json w n)
        (w.afterTries s.retryDelay sent n) := by
  induction n generalizing left with
  | zero => rfl
  | succ n ih =>
      obtain ⟨e, -, -, houtcome⟩ := (hretried n (Nat.lt_succ_self n)).gives provider
      have hhere : CanDouble s.retryDelay n := hdouble
      -- the tries before the last of them leave one more
      have hrest := ih (fun i hi => hretried i (Nat.lt_succ_of_lt hi))
        (hhere.mono (Nat.sub_le n 1)) (left + 1)
      rw [Nat.add_right_comm] at hrest
      rw [← Nat.add_assoc, hrest, tries_send hscalar hfinite hhere, follow, errorBefore, houtcome]

variable (hbefore : ∀ j < i, (w.exchange j).IsRetried json) (hi : i ≤ n)

include hbefore hi

theorem tries_reach (hdouble : CanDouble s.retryDelay i) :
    tries s provider json sent (n + 1) 0 none w
      = follow s provider json sent (n - i) i (w.exchange i)
        (w.afterTries s.retryDelay sent (i + 1)) := by
  have hcount : n + 1 = n - i + 1 + i := by omega
  rw [hcount, tries_again hscalar hfinite hbefore (hdouble.mono (Nat.sub_le i 1)),
    tries_send hscalar hfinite hdouble]

theorem tries_terminal (hdouble : CanDouble s.retryDelay i)
    (hterminal : (w.exchange i).IsTerminal json) {result : Except ServiceError Response}
    (hgives : (w.exchange i).Gives provider json result) :
    tries s provider json sent (n + 1) 0 none w
      = (result.mapError .service, w.afterTries s.retryDelay sent (i + 1)) := by
  rw [tries_reach hscalar hfinite hbefore hi hdouble, follow, hgives.outcome]
  cases result with
  | ok r => rfl
  | error e =>
      rw [Try.ofResult, if_neg (by rw [hgives.isTerminal_iff.mp hterminal e rfl]; nofun)]
      rfl

theorem tries_fatal (hdouble : CanDouble s.retryDelay i) (hfatal : (w.exchange i).IsFatal json) :
    ∃ f, tries s provider json sent (n + 1) 0 none w
        = (.error f, w.afterTries s.retryDelay sent (i + 1)) ∧ ∀ e, f ≠ .service e := by
  obtain ⟨f, houtcome, hf⟩ := hfatal.outcome provider
  refine ⟨f, ?_, hf⟩
  rw [tries_reach hscalar hfinite hbefore hi hdouble, follow, houtcome]

end

section

variable {s : Settings} {json : Bool} {sent : Sent} {w : Wire} {n : Nat}
  (hscalar : sent.body.isScalar = true) (hfinite : isFinite sent.body = true) (provider : Text)

include hscalar hfinite

theorem tries_exhausted (hretried : ∀ i ≤ n, (w.exchange i).IsRetried json)
    (hdouble : CanDouble s.retryDelay n) :
    ∃ e, (w.exchange n).Gives provider json (.error e) ∧ e.isRetryable = true
      ∧ tries s provider json sent (n + 1) 0 none w
        = (.error (.service e), w.afterTries s.retryDelay sent (n + 1)) := by
  obtain ⟨e, hgives, hretryable, houtcome⟩ := (hretried n le_rfl).gives provider
  have hrun : tries s provider json sent (0 + (n + 1)) 0 none w = _ :=
    tries_again hscalar hfinite (fun i hi => hretried i (Nat.le_of_lt_succ hi)) hdouble 0
  rw [Nat.zero_add] at hrun
  refine ⟨e, hgives, hretryable, ?_⟩
  rw [hrun, errorBefore, houtcome]
  rfl

theorem tries_overflow (hfloat : ∃ x, s.retryDelay = .float x) (hlong : 1025 ≤ n)
    (hretried : ∀ i < 1025, (w.exchange i).IsRetried json) :
    tries s provider json sent (n + 1) 0 none w
      = (.error .delayOverflow, w.afterTries s.retryDelay sent 1025) := by
  have hover : ¬CanDouble s.retryDelay 1025 := fun h => absurd (h hfloat) (by decide)
  have hcount : n + 1 = n - 1025 + 1 + 1025 := by omega
  rw [hcount, tries_again hscalar hfinite hretried fun _ => le_rfl, tries_succ, Wire.paused,
    if_neg (by decide), delayAfter_eq_none hover]
  rfl

end

/-! ## Requests -/

/-- **A request is tried until an exchange ends it or no try is left**, with one post for each try
and a delay between any two, and its result is what the last exchange gives. Only a floating-point
delay cannot be doubled for more than 1024 tries. A request that cannot be sent is not tried. -/
theorem complete_retries {s : Settings} {r : Request} {p : Provider} {key : Text} {w : Wire}
    {n : Nat} {json : Bool} (hknown : s.providers.lookup r.provider = some p)
    (hgiven : s.environment.lookup p.keyVariable = some key) (hkey : key ≠ [])
    (htries : s.maxRetries = n) (hjson : isJsonFormat r.responseFormat = json)
    (hexchanges : ∀ i ≤ n, ¬(w.exchange i).IsFatal json) :
    ((∀ sent, ¬IsSent r p key sent) →
        ∃ f, complete s r w = (.error f, w) ∧ ∀ e, f ≠ .service e)
      ∧ ∀ sent, IsSent r p key sent →
        (∀ i ≤ n, CanDouble s.retryDelay i → (w.exchange i).IsTerminal json →
          (∀ j < i, ¬(w.exchange j).IsTerminal json) →
          ∃ result, (w.exchange i).Gives r.provider json result
            ∧ complete s r w
              = (result.mapError .service, w.afterTries s.retryDelay sent (i + 1)))
        ∧ (CanDouble s.retryDelay n → (∀ i ≤ n, ¬(w.exchange i).IsTerminal json) →
          ∃ e, (w.exchange n).Gives r.provider json (.error e) ∧ e.isRetryable = true
            ∧ complete s r w
              = (.error (.service e), w.afterTries s.retryDelay sent (n + 1)))
        ∧ ((∃ x, s.retryDelay = .float x) → 1025 ≤ n →
          (∀ i < 1025, ¬(w.exchange i).IsTerminal json) →
          complete s r w = (.error .delayOverflow, w.afterTries s.retryDelay sent 1025)) := by
  refine ⟨fun hnone => complete_of_not_isSent hknown hgiven hkey htries hnone w, ?_⟩
  intro sent hsent
  have hscalar := hsent.isScalar
  have hfinite := hsent.isFinite
  rw [complete_of_isSent hknown hgiven hkey htries hsent w, hjson]
  refine ⟨?ends, ?exhausted, ?overflow⟩
  case ends =>
    intro i hi hdouble hterminal hleast
    obtain ⟨result, hgives⟩ := Exchange.gives_of_not_isFatal r.provider (hexchanges i hi)
    exact ⟨result, hgives, tries_terminal hscalar hfinite
      (fun j hj => ⟨hexchanges j (by omega), hleast j hj⟩) hi hdouble hterminal hgives⟩
  case exhausted =>
    intro hdouble hlasting
    exact tries_exhausted hscalar hfinite r.provider
      (fun i hi => ⟨hexchanges i hi, hlasting i hi⟩) hdouble
  case overflow =>
    intro hfloat hlong hlasting
    exact tries_overflow hscalar hfinite r.provider hfloat hlong
      fun i hi => ⟨hexchanges i (by omega), hlasting i hi⟩

def busyWire : Wire where
  pending := []
  otherwise := .answer 503 []

def greeting : Request where
  provider := Text.ofString "deepseek"
  messages := [Json.object [("role", Json.ofString "user"), ("content", Json.ofString "hi")]]

def greetingSent : Sent where
  url := Text.ofString "https://api.deepseek.com/chat/completions"
  key := Text.ofString "k"
  body := Json.object
    [("model", Json.ofString "deepseek-chat"), ("messages", .arr greeting.messages)]

def patientSettings (retries : Nat) (delay : Json) : Settings where
  environment := [(Text.ofString "DEEPSEEK_API_KEY", Text.ofString "k")]
  maxRetries := retries
  retryDelay := delay

/-- The failure of an overloaded service is the result after the last try, unless the delay before
that cannot be computed. -/
theorem busyWire_fails :
    (∃ e, e.isRetryable = true
      ∧ complete (patientSettings 3 (.int 1)) greeting busyWire
        = (.error (.service e), busyWire.afterTries (.int 1) greetingSent 4))
    ∧ complete (patientSettings 1025 (.float .zero)) greeting busyWire
      = (.error .delayOverflow, busyWire.afterTries (.float .zero) greetingSent 1025) := by
  have hfatal : ∀ i, ¬(busyWire.exchange i).IsFatal false := by
    rintro i ⟨hlow, -⟩
    exact absurd hlow (by decide)
  have hlasting : ∀ i, ¬(busyWire.exchange i).IsTerminal false := by
    rintro i (⟨-, hlasting⟩ | ⟨hlow, -⟩)
    · exact hlasting (by decide)
    · exact absurd hlow (by decide)
  have hsent : IsSent greeting
      ⟨"https://api.deepseek.com", "DEEPSEEK_API_KEY", "deepseek-chat"⟩ (Text.ofString "k")
      greetingSent :=
    ⟨rfl, rfl, rfl, rfl, rfl, rfl⟩
  have hjson : isJsonFormat greeting.responseFormat = false := rfl
  constructor
  · obtain ⟨e, -, hretryable, hresult⟩ := ((complete_retries (s := patientSettings 3 (.int 1))
      (w := busyWire) (n := 3) rfl rfl (by decide) rfl hjson fun i _ => hfatal i).2 _ hsent).2.1
        nofun fun i _ => hlasting i
    exact ⟨e, hretryable, hresult⟩
  · exact ((complete_retries (s := patientSettings 1025 (.float .zero)) (w := busyWire) (n := 1025)
      rfl rfl (by decide) rfl hjson fun i _ => hfatal i).2 _ hsent).2.2
        ⟨_, rfl⟩ le_rfl fun i _ => hlasting i

end TaskContract.Chat
