import TaskContract.Chat.Content
import TaskContract.Chat.Wire

/-!
# Why a chat request gets no response

`ServiceError` is what the service or the way to it answers for; some of these may go away on
another try. `Failure` is everything else too.
-/

namespace TaskContract.Chat

/-- A failure of the service or of the way to it. -/
inductive ServiceError where
  | unknownProvider (provider : Text)
  | missingKey (provider key : Text)
  | transport (provider message : Text)
  | status (provider : Text) (code : Nat) (detail : Text)
  | noChoices (provider : Text)
  | unreadable (e : ContentError)
  | noAttempt (provider : Text) (attempts : Int)
  | other (message : Text)
  deriving DecidableEq

namespace ServiceError

def message : ServiceError → Text
  | unknownProvider p => Text.ofString "Provider " ++ p ++ Text.ofString " not available"
  | missingKey p v =>
    p ++ Text.ofString " API key not configured (set " ++ v ++ Text.ofString ")"
  | transport p m => p ++ Text.ofString " request failed: " ++ m
  | status p code detail =>
    p ++ Text.ofString (" API error (HTTP " ++ code.repr ++ "): ") ++ detail
  | noChoices p => p ++ Text.ofString " returned no choices"
  | unreadable e => e.message
  | noAttempt p n =>
    p ++ Text.ofString " request failed after " ++ Text.ofInt n ++ Text.ofString " attempts"
  | other m => m

def status? : ServiceError → Option Nat
  | status _ code _ => some code
  | _ => none

def retryableStatuses : List Nat := [429, 500, 502, 503, 504]

def isRetryable : ServiceError → Bool
  | transport _ _ => true
  | status _ code _ => retryableStatuses.contains code
  | noChoices _ => true
  | unreadable _ => true
  | _ => false

end ServiceError

inductive Failure where
  | service (e : ServiceError)
  /-- A message of the request lacks a field. -/
  | message (e : MessageFault)
  /-- JSON is asked for, and the reply is neither text nor empty. -/
  | contentType (typeName : String)
  /-- The body of a successful response is not JSON. -/
  | body (e : Json.ReadError)
  /-- The request cannot be written in bytes. -/
  | encoding (e : EncodingFault)
  /-- The request holds a number that is not finite. -/
  | notFinite
  | other (kind message : Text)
  deriving DecidableEq

def Failure.text : Failure → Text
  | .service e => e.message
  | .message (.missing field) => Text.quoted (Text.ofString field)
  | .message .notAnObject => Text.ofString "string indices must be integers, not 'str'"
  | .contentType name =>
    Text.ofString ("the JSON object must be str, bytes or bytearray, not " ++ name)
  | .body e => e.message
  | .encoding e => e.message
  | .notFinite => Text.ofString "Out of range float values are not JSON compliant"
  | .other _ m => m

end TaskContract.Chat
