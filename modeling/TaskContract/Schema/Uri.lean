import TaskContract.Text.CodePoint

/-!
# References between schemas

A reference is resolved against the identifier of the schema that it stands in, by the general rules
for relative references.
-/

namespace TaskContract.Schema

/-- The parts of a reference. An absent part is empty. -/
structure Uri where
  scheme : Text
  authority : Text
  path : Text
  query : Text
  fragment : Text

namespace Uri

/-- The text before the first occurrence of a code point and the text behind it, if it occurs. -/
def cut (c : CodePoint) (t : Text) : Text × Option Text :=
  let front := t.takeWhile fun d => d ≠ c
  if front.length = t.length then (t, none) else (front, some (t.drop (front.length + 1)))

/-- The schemes whose references may be relative. -/
def hierarchical : List Text :=
  ["", "ftp", "http", "gopher", "nntp", "imap", "wais", "file", "https", "shttp", "mms",
    "prospero", "rtsp", "rtspu", "sftp", "svn", "svn+ssh", "ws", "wss"].map Text.ofString

def isSchemeChar (c : CodePoint) : Bool :=
  c.isAsciiLetter || c.isDigit || c = '+' || c = '-' || c = '.'

def parse (t : Text) : Uri :=
  let (front, behind) := cut ':' t
  let (scheme, t) : Text × Text := match behind with
    | some rest =>
      if front.head?.any CodePoint.isAsciiLetter && front.all isSchemeChar then
        (front.asciiLower, rest)
      else ([], t)
    | none => ([], t)
  let (authority, t) : Text × Text := match Text.dropFront? t (Text.ofString "//") with
    | some rest =>
      let a := rest.takeWhile fun (c : CodePoint) => c ≠ '/' && c ≠ '?' && c ≠ '#'
      (a, rest.drop a.length)
    | none => ([], t)
  let (t, fragment) := cut '#' t
  let (path, query) := cut '?' t
  { scheme, authority, path, query := query.getD [], fragment := fragment.getD [] }

def text (u : Uri) : Text :=
  let hier := if u.authority.isEmpty then
      (if u.path.startsWith (Text.ofString "//") then Text.ofString "//" ++ u.path else u.path)
    else
      let path := if u.path.isEmpty || u.path.head? = some (CodePoint.ofChar '/') then u.path
        else CodePoint.ofChar '/' :: u.path
      Text.ofString "//" ++ u.authority ++ path
  (if u.scheme.isEmpty then [] else u.scheme ++ [CodePoint.ofChar ':']) ++ hier
    ++ (if u.query.isEmpty then [] else CodePoint.ofChar '?' :: u.query)
    ++ (if u.fragment.isEmpty then [] else CodePoint.ofChar '#' :: u.fragment)

/-- Removes the `.` and `..` segments of a path. -/
def resolveDots (segments : List Text) : List Text :=
  let dot := Text.ofString "."
  let dots := Text.ofString ".."
  let kept := segments.foldl (fun (acc : List Text) s =>
    if s = dots then acc.drop 1 else if s = dot then acc else s :: acc) []
  let ended := segments.getLast?.any fun s => s = dot || s = dots
  (if ended then [] :: kept else kept).reverse

/-- Leaves out the empty segments between the first and the last one. -/
def compact : List Text → List Text
  | first :: rest =>
    match rest.getLast? with
    | some last => first :: rest.dropLast.filter (fun s => !s.isEmpty) ++ [last]
    | none => [first]
  | [] => []

def join (base reference : Text) : Text :=
  if base.isEmpty then reference
  else if reference.isEmpty then base
  else
    let b := parse base
    let r := parse reference
    let scheme := if r.scheme.isEmpty then b.scheme else r.scheme
    if scheme ≠ b.scheme || !hierarchical.contains scheme then reference
    else if !r.authority.isEmpty then text { r with scheme }
    else if r.path.isEmpty then
      text { b with query := if r.query.isEmpty then b.query else r.query, fragment := r.fragment }
    else
      let slash := CodePoint.ofChar '/'
      let own := Text.splitOn slash r.path
      let baseParts := Text.splitOn slash b.path
      let baseParts := if baseParts.getLast? = some [] then baseParts else baseParts.dropLast
      let segments := if r.path.head? = some slash then own else compact (baseParts ++ own)
      let path := Text.join [slash] (resolveDots segments)
      text { b with
        path := if path.isEmpty then [slash] else path
        query := r.query
        fragment := r.fragment }

def defragment (t : Text) : Text × Text :=
  match cut '#' t with
  | (_, some _) =>
    let u := parse t
    (text { u with fragment := [] }, u.fragment)
  | _ => (t, [])

/-- The bytes of a percent-encoded text put back. Sequences that are no UTF-8 are replaced. -/
def unquote (t : Text) : Text :=
  if !t.contains (CodePoint.ofChar '%') then t
  else decode (t.length + 1) t
where
  byte? : Text → Option (Nat × Text)
    | p :: a :: b :: rest =>
      if p = '%' then do
        let hi ← a.hexValue?
        let lo ← b.hexValue?
        return (16 * hi + lo, rest)
      else none
    | _ => none
  bytes : (fuel : Nat) → Text → List Nat × Text
    | 0, t => ([], t)
    | fuel + 1, t =>
      match byte? t with
      | some (n, rest) =>
        let (more, rest') := bytes fuel rest
        (n :: more, rest')
      | none => ([], t)
  decode : (fuel : Nat) → Text → Text
    | 0, t => t
    | fuel + 1, t =>
      match t with
      | [] => []
      | c :: rest =>
        if (byte? t).isSome then
          let (ns, rest') := bytes t.length t
          let raw := ByteArray.mk (ns.map fun n => UInt8.ofNat n).toArray
          let decoded := match String.fromUTF8? raw with
            | some s => Text.ofString s
            | none => ns.map fun n => if n < 0x80 then CodePoint.ofNat n else CodePoint.ofNat 0xFFFD
          decoded ++ decode fuel rest'
        else c :: decode fuel rest

end Uri

end TaskContract.Schema
