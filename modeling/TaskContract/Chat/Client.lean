import TaskContract.Chat.Failure

/-!
# Chat clients

A client answers requests and keeps a state between them. `complete` is the client over the wire:
faults of the transport, overload and unreadable replies are tried again after growing delays,
everything else ends the request at once.
-/

namespace TaskContract.Chat

/-- A response: its content, which is a JSON value if JSON was asked for, the tokens it took, and
all that was received. -/
structure Response where
  content : Json
  usage : Json
  raw : Json

inductive Reply where
  | response (content : Json)
  | nothing
  /-- Something that is no response. -/
  | contentless
  | failed (f : Failure)

abbrev Client (σ : Type) := Request → σ → Reply × σ

def usageOf (usage : Json) : Json :=
  match usage with
  | .obj ms =>
    let count (name : String) : Json := (Members.get? (Text.ofString name) ms).getD (.int 0)
    .object [("promptTokens", count "prompt_tokens"),
      ("completionTokens", count "completion_tokens"), ("totalTokens", count "total_tokens")]
  | _ => .obj []

def firstContent? (data : Json) : Option Json := do
  let choices ← (data.get? "choices").bind Json.arr?
  let message ← choices.head?.bind (Json.get? "message")
  message.get? "content"

mutual

def isFinite : Json → Bool
  | .float (.finite _ _ _) => true
  | .float _ => false
  | .arr items => areFinite items
  | .obj ms => haveFinite ms
  | _ => true

def areFinite : List Json → Bool
  | [] => true
  | v :: rest => isFinite v && areFinite rest

def haveFinite : List (Text × Json) → Bool
  | [] => true
  | (_, v) :: rest => isFinite v && haveFinite rest

end

structure Settings where
  providers : Providers := Providers.standard
  environment : Environment
  maxRetries : Int := 3
  retryDelay : Json := .float (Binary64.ofRatio false 1 1)

def doubled (base : Json) (times : Nat) : Json :=
  match base with
  | .int n => .int (n * twoTo times)
  | .bool b => .int ((if b then 1 else 0) * twoTo times)
  | .float x => .float (x.scale times)
  | v => v

/-- The delay before the try after the given number of failed ones: it doubles each time. What a
floating-point delay is multiplied by has to be a finite floating-point number itself. -/
def delayAfter? (base : Json) (failed : Nat) : Option Json :=
  match base with
  | .float _ => if failed ≤ 1024 then some (doubled base (failed - 1)) else none
  | _ => some (doubled base (failed - 1))

def Failure.delayOverflow : Failure :=
  .other (Text.ofString "OverflowError") (Text.ofString "int too large to convert to float")

/-- The wire when a try begins: before all but the first one there is a delay. -/
def Wire.paused (base : Json) (failed : Nat) (w : Wire) : Option Wire :=
  if failed = 0 then some w else (delayAfter? base failed).map w.wait

inductive Try where
  | done (r : Response)
  | again (e : ServiceError)
  | stop (f : Failure)

/-- The content of a reply, as the request asks for it. -/
def readContent (json : Bool) (content : Json) : Except Try Json :=
  if !json then .ok content
  else
    let text : Except Try Text :=
      if !content.isTruthy then .ok []
      else
        match content with
        | .str t => .ok t
        | v => .error (.stop (.contentType v.typeName))
    text.bind fun t => (parseContent t).mapError fun e => .again (.unreadable e)

def Exchange.outcome (provider : Text) (json : Bool) : Exchange → Try
  | .transportFault m => .again (.transport provider m)
  | .fault kind m => .stop (.other kind m)
  | .answer status body =>
    if 400 ≤ status then
      let e := ServiceError.status provider status (errorDetail status body).asText
      if e.isRetryable then .again e else .stop (.service e)
    else
      match readBody body with
      | .error e => .stop (.body e)
      | .ok data =>
        match firstContent? data with
        | none => .again (.noChoices provider)
        | some content =>
          match readContent json content with
          | .error t => t
          | .ok content =>
            .done { content, usage := usageOf ((data.get? "usage").getD .null), raw := data }

/-- The tries of a request: `left` more of them, after `failed` ones of which the last met an
error. -/
def tries (s : Settings) (provider : Text) (json : Bool) (sent : Sent) :
    (left failed : Nat) → Option ServiceError → Wire → Except Failure Response × Wire
  | 0, failed, last, w =>
    (.error (.service (last.getD (.noAttempt provider failed))), w)
  | left + 1, failed, _, w =>
    match w.paused s.retryDelay failed with
    | none => (.error .delayOverflow, w)
    | some w =>
      match (Encoding.utf8.fault? sent.body.tight), isFinite sent.body with
      | _, false => (.error .notFinite, w)
      | some f, _ => (.error (.encoding f), w)
      | none, _ =>
        let (x, w) := w.send sent
        match x.outcome provider json with
        | .done r => (.ok r, w)
        | .stop f => (.error f, w)
        | .again e => tries s provider json sent left (failed + 1) (some e) w

def complete (s : Settings) (r : Request) (w : Wire) : Except Failure Response × Wire :=
  match s.providers.lookup r.provider with
  | none => (.error (.service (.unknownProvider r.provider)), w)
  | some p =>
    match s.environment.lookup p.keyVariable with
    | none | some [] => (.error (.service (.missingKey r.provider p.keyVariable)), w)
    | some key =>
      match r.body p, Encoding.ascii.fault? key with
      | .error e, _ => (.error (.message e), w)
      | .ok _, some f => (.error (.encoding { f with offset := f.offset + 7 }), w)
      | .ok body, none =>
        let json := isJsonFormat r.responseFormat
        let sent : Sent := { url := p.url, key, body }
        if s.maxRetries < 0 then
          (.error (.service (.noAttempt r.provider (s.maxRetries + 1))), w)
        else tries s r.provider json sent (s.maxRetries.toNat + 1) 0 none w

def Client.overWire (s : Settings) : Client Wire := fun r w =>
  match complete s r w with
  | (.ok response, w) => (.response response.content, w)
  | (.error f, w) => (.failed f, w)

end TaskContract.Chat
