import TaskContract.Text.CodePoint

/-!
# What an encoding cannot write

UTF-8 has no form for surrogates and ASCII none beyond its 128 code points. In file names some
surrogates stand for single bytes. The report names the first run of code points from one without a
form on.
-/

namespace TaskContract

inductive Encoding where
  | utf8
  | ascii
  /-- UTF-8 with surrogates for single bytes. -/
  | fileName
  deriving DecidableEq

namespace Encoding

def name : Encoding → String
  | utf8 => "utf-8"
  | ascii => "ascii"
  | fileName => "utf-8"

def covers : Encoding → CodePoint → Bool
  | utf8, c => !c.isSurrogate
  | ascii, c => c.val < 0x80
  | fileName, c => !c.isSurrogate || c.isRawByte

/-- Does a code point prolong a run that one without a form begins? -/
def prolongs : Encoding → CodePoint → Bool
  | utf8, c | fileName, c => c.isSurrogate
  | ascii, c => 0x80 ≤ c.val

def refusal : Encoding → String
  | utf8 => "surrogates not allowed"
  | ascii => "ordinal not in range(128)"
  | fileName => "surrogates not allowed"

end Encoding

/-- The first run from a code point on that an encoding does not cover: its offset, that code point
and the number of code points after it. -/
structure EncodingFault where
  encoding : Encoding
  offset : Nat
  first : CodePoint
  more : Nat
  deriving DecidableEq

/-- A part of a text to be written, or why there is none. -/
abbrev Portion := Except Text Text

def Encoding.fault? (e : Encoding) (t : Text) : Option EncodingFault :=
  let front := t.takeWhile e.covers
  match t.drop front.length with
  | [] => none
  | c :: rest =>
    some ⟨e, front.length, c, (rest.takeWhile e.prolongs).length⟩

def EncodingFault.message (f : EncodingFault) : Text :=
  let c := f.first
  let shown : Text :=
    if c.val < 0x100 then Text.ofString "\\x" ++ Text.hex 2 c.val
    else if c.val < 0x10000 then Text.ofString "\\u" ++ Text.hex 4 c.val
    else Text.ofString "\\U" ++ Text.hex 8 c.val
  let place : Text :=
    if f.more = 0 then
      Text.ofString " '" ++ shown ++ Text.ofString ("' in position " ++ f.offset.repr)
    else Text.ofString ("s in position " ++ f.offset.repr ++ "-" ++ (f.offset + f.more).repr)
  Text.ofString ("'" ++ f.encoding.name ++ "' codec can't encode character") ++ place
    ++ Text.ofString (": " ++ f.encoding.refusal)

end TaskContract
