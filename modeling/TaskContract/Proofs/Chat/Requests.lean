import TaskContract.Inference.Deduction
import TaskContract.Proofs.Chat.Exchanges
import TaskContract.Proofs.Json.RoundTrip

/-!
# Requests that can be sent

A request can be sent if its provider has a key and its body can be written. The prompts hold no
surrogate but those of the script and of the artifact they ask about, so for others the client over
the wire need not look at them.
-/

namespace TaskContract

namespace Chat

structure IsSent (r : Request) (p : Provider) (key : Text) (sent : Sent) : Prop where
  address : sent.url = p.url
  bearer : sent.key = key
  isAscii : Encoding.ascii.fault? key = none
  body : r.body p = .ok sent.body
  isScalar : sent.body.isScalar = true
  isFinite : isFinite sent.body = true

section

variable {s : Settings} {r : Request} {p : Provider} {key : Text}
  (hknown : s.providers.lookup r.provider = some p)
  (hgiven : s.environment.lookup p.keyVariable = some key) (hkey : key ≠ [])

include hknown hgiven hkey

theorem complete_of_key (w : Wire) : complete s r w
    = match r.body p, Encoding.ascii.fault? key with
      | .error e, _ => (.error (.message e), w)
      | .ok _, some f => (.error (.encoding { f with offset := f.offset + 7 }), w)
      | .ok body, none =>
        if s.maxRetries < 0 then
          (.error (.service (.noAttempt r.provider (s.maxRetries + 1))), w)
        else tries s r.provider (isJsonFormat r.responseFormat) { url := p.url, key, body }
          (s.maxRetries.toNat + 1) 0 none w := by
  obtain ⟨c, rest, rfl⟩ := List.exists_cons_of_ne_nil hkey
  rw [complete, hknown]
  cases hbody : r.body p <;> cases hascii : Encoding.ascii.fault? (c :: rest) <;>
    simp only [hgiven, hbody, hascii]

variable {n : Nat} (htries : s.maxRetries = n)

include htries

theorem complete_of_isSent {sent : Sent} (hsent : IsSent r p key sent) (w : Wire) :
    complete s r w = tries s r.provider (isJsonFormat r.responseFormat) sent (n + 1) 0 none w := by
  obtain ⟨url, key', body⟩ := sent
  obtain rfl : url = p.url := hsent.address
  obtain rfl : key' = key := hsent.bearer
  rw [complete_of_key hknown hgiven hkey, hsent.body, hsent.isAscii]
  dsimp only
  rw [htries, if_neg (Int.not_lt.mpr (Int.natCast_nonneg n)), Int.toNat_natCast]

theorem complete_of_not_isSent (h : ∀ sent, ¬IsSent r p key sent) (w : Wire) :
    ∃ f, complete s r w = (.error f, w) ∧ ∀ e, f ≠ .service e := by
  rw [complete_of_key hknown hgiven hkey]
  cases hbody : r.body p with
  | error e => exact ⟨_, rfl, by rintro _ ⟨⟩⟩
  | ok body =>
      cases hascii : Encoding.ascii.fault? key with
      | some f => exact ⟨_, rfl, by rintro _ ⟨⟩⟩
      | none =>
          dsimp only
          rw [htries, if_neg (Int.not_lt.mpr (Int.natCast_nonneg n)), tries_first, attempt]
          dsimp only
          cases hfinite : isFinite body with
          | false => exact ⟨_, rfl, by rintro _ ⟨⟩⟩
          | true =>
              cases hfault : Encoding.utf8.fault? body.tight with
              | some f => exact ⟨_, rfl, by rintro _ ⟨⟩⟩
              | none =>
                  have hscalar := Json.tight_encodable_iff.mp hfault
                  exact absurd ⟨rfl, rfl, hascii, hbody, hscalar, hfinite⟩
                    (h { url := p.url, key, body })

end

structure HasKey (s : Settings) (name : Text) (p : Provider) (key : Text) : Prop where
  isKnown : s.providers.lookup name = some p
  isGiven : s.environment.lookup p.keyVariable = some key
  isSome : key ≠ []
  isAscii : Encoding.ascii.fault? key = none
  tries : 0 ≤ s.maxRetries

/-- The client over the wire, for requests that can be sent. -/
def Client.sending (s : Settings) (p : Provider) (key : Text) : Client Wire := fun r w =>
  let sent : Sent := { url := p.url, key, body := (r.body p).toOption.getD .null }
  let json := isJsonFormat r.responseFormat
  let (result, w) :=
    follow s r.provider json sent s.maxRetries.toNat 0 (w.send sent).1 (w.send sent).2
  (Reply.ofResult result, w)

theorem sending_eq_overWire {s : Settings} {r : Request} {p : Provider} {key : Text} {body : Json}
    (hkey : HasKey s r.provider p key) (hbody : r.body p = .ok body) (hscalar : body.isScalar = true)
    (hfinite : isFinite body = true) : Client.sending s p key r = Client.overWire s r := by
  funext w
  obtain ⟨n, htries⟩ := Int.eq_ofNat_of_zero_le hkey.tries
  have hsent : IsSent r p key ⟨p.url, key, body⟩ :=
    ⟨rfl, rfl, hkey.isAscii, hbody, hscalar, hfinite⟩
  have hcomplete : complete s r w = follow s r.provider (isJsonFormat r.responseFormat)
      ⟨p.url, key, body⟩ n 0 (w.send ⟨p.url, key, body⟩).1 (w.send ⟨p.url, key, body⟩).2 := by
    rw [complete_of_isSent hkey.isKnown hkey.isGiven hkey.isSome htries hsent w, tries_first,
      attempt, hfinite, Json.tight_encodable_iff.mpr hscalar]
  rw [overWire_eq, hcomplete, Client.sending, hbody, htries]
  rfl

end Chat

/-! ## Requests for schemas -/

theorem DeducedSchema.isScalar_systemPrompt : systemPrompt.isScalar = true := by
  refine Text.isScalar_join (Text.isScalar_ofString _) ?_
  simp only [List.forall_mem_cons, Text.isScalar_ofString, Text.isScalar_append, Bool.and_self,
    true_and]
  exact List.forall_mem_nil _

variable {code : Text} {a : ArtifactWrite} (hcode : code.isScalar = true)
  (hname : a.fileName.isScalar = true) (hstage : a.stage.isScalar = true)

include hcode hname hstage

theorem DeducedSchema.isScalar_userPrompt : (userPrompt code a).isScalar = true := by
  refine Text.isScalar_join (Text.isScalar_ofString _) ?_
  simp only [List.forall_mem_cons, Text.isScalar_ofString, Text.isScalar_append, hcode, hname,
    hstage, Json.isScalar_prettyAscii, Bool.and_self, true_and]
  exact List.forall_mem_nil _

/-- A request for a schema is sent, whatever it asks about, if there is no surrogate in that. -/
theorem sending_deduction {s : Chat.Settings} {model : Chat.Model} {p : Chat.Provider} {key : Text}
    (hkey : Chat.HasKey s model.provider p key)
    (hmodel : ((deductionRequest model code a).modelOf p).isScalar = true) :
    Chat.Client.sending s p key (deductionRequest model code a)
      = Chat.Client.overWire s (deductionRequest model code a) := by
  let messages := Chat.promptMessages DeducedSchema.systemPrompt (DeducedSchema.userPrompt code a)
  let body : Json := .object [("model", .str ((deductionRequest model code a).modelOf p)),
    ("messages", .arr messages), ("temperature", .int 0),
    ("response_format", .object [("type", .ofString "json_object")])]
  have hbody : (deductionRequest model code a).body p = .ok body := rfl
  have hmessages : (Json.arr messages).isScalar = true := by
    have hobjects : ∀ role content, content.isScalar = true →
        (Json.object [("role", Json.ofString role), ("content", .str content)]).isScalar = true := by
      intro role content hcontent
      simp only [Json.isScalar_object, List.all_cons, List.all_nil, Json.ofString,
        Json.isScalar_str, Text.isScalar_ofString, hcontent, Bool.and_self]
    rw [← List.map_id messages, Json.isScalar_arr_map]
    simp only [messages, Chat.promptMessages, List.all_cons, List.all_nil, id_eq,
      hobjects _ _ DeducedSchema.isScalar_systemPrompt,
      hobjects _ _ (DeducedSchema.isScalar_userPrompt hcode hname hstage), Bool.and_self]
  refine Chat.sending_eq_overWire hkey hbody ?_ rfl
  simp only [body, Json.isScalar_object, List.all_cons, List.all_nil, hmessages,
    Json.isScalar_str, hmodel]
  rfl

end TaskContract
