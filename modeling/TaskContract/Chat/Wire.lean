import TaskContract.Chat.Request
import TaskContract.Json.Reader

/-!
# The wire

What a request over the network meets, and the state of a run of requests: the answers still to
come, the requests sent and the delays between them.
-/

namespace TaskContract.Chat

inductive Exchange where
  | answer (status : Nat) (body : Text)
  /-- The transport failed; another try may succeed. -/
  | transportFault (message : Text)
  /-- The exchange failed for good. -/
  | fault (kind message : Text)

structure Sent where
  url : Text
  key : Text
  body : Json

/-- The answers to come, and in reverse what was sent and how long was waited. When the answers run
out, every request meets `otherwise`. -/
structure Wire where
  pending : List Exchange
  otherwise : Exchange
  sent : List Sent := []
  delays : List Json := []

namespace Wire

def send (w : Wire) (s : Sent) : Exchange × Wire :=
  let w := { w with sent := s :: w.sent }
  match w.pending with
  | [] => (w.otherwise, w)
  | x :: rest => (x, { w with pending := rest })

def wait (w : Wire) (delay : Json) : Wire :=
  { w with delays := delay :: w.delays }

end Wire

def reasonPhrases : List (Nat × String) :=
  [(100, "Continue"), (101, "Switching Protocols"), (102, "Processing"), (103, "Early Hints"),
   (200, "OK"), (201, "Created"), (202, "Accepted"), (203, "Non-Authoritative Information"),
   (204, "No Content"), (205, "Reset Content"), (206, "Partial Content"), (207, "Multi-Status"),
   (208, "Already Reported"), (226, "IM Used"), (300, "Multiple Choices"),
   (301, "Moved Permanently"), (302, "Found"), (303, "See Other"), (304, "Not Modified"),
   (305, "Use Proxy"), (307, "Temporary Redirect"), (308, "Permanent Redirect"),
   (400, "Bad Request"), (401, "Unauthorized"), (402, "Payment Required"), (403, "Forbidden"),
   (404, "Not Found"), (405, "Method Not Allowed"), (406, "Not Acceptable"),
   (407, "Proxy Authentication Required"), (408, "Request Timeout"), (409, "Conflict"),
   (410, "Gone"), (411, "Length Required"), (412, "Precondition Failed"),
   (413, "Request Entity Too Large"), (414, "Request-URI Too Long"),
   (415, "Unsupported Media Type"), (416, "Requested Range Not Satisfiable"),
   (417, "Expectation Failed"), (418, "I'm a teapot"), (421, "Misdirected Request"),
   (422, "Unprocessable Entity"), (423, "Locked"), (424, "Failed Dependency"), (425, "Too Early"),
   (426, "Upgrade Required"), (428, "Precondition Required"), (429, "Too Many Requests"),
   (431, "Request Header Fields Too Large"), (451, "Unavailable For Legal Reasons"),
   (500, "Internal Server Error"), (501, "Not Implemented"), (502, "Bad Gateway"),
   (503, "Service Unavailable"), (504, "Gateway Timeout"), (505, "HTTP Version Not Supported"),
   (506, "Variant Also Negotiates"), (507, "Insufficient Storage"), (508, "Loop Detected"),
   (510, "Not Extended"), (511, "Network Authentication Required")]

def reasonPhrase (status : Nat) : Text :=
  Text.ofString ((reasonPhrases.lookup status).getD "")

/-- The JSON value of a body. A byte order mark in front of it does not count. -/
def readBody (body : Text) : Except Json.ReadError Json :=
  Json.readDecoded ((body.dropFront? [CodePoint.ofNat 0xFEFF]).getD body)

/-- What an error response says: the message of its error object, else the error, else the whole
value; for a body that is not JSON, its beginning or the reason phrase. -/
def errorDetail (status : Nat) (body : Text) : Json :=
  match readBody body with
  | .error _ => .str (if body.isEmpty then reasonPhrase status else body.take 200)
  | .ok data =>
    match data.get? "error" with
    | some (.obj ms) =>
      (Members.get? (Text.ofString "message") ms).getD (.str (Json.obj ms).display)
    | some e => .str (if e.isTruthy then e.asText else data.asText)
    | none => .str data.asText

end TaskContract.Chat
