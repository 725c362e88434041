import TaskContract.Text.Encoding

/-!
# File names

A file name is bytes. A text names a file by its UTF-8 form, in which a code point from U+DC80 to
U+DCFF stands for one byte that belongs to no sequence. So two texts can name one file, and a file
is shown under the text that its bytes are read back to.
-/

namespace TaskContract

def CodePoint.bytes (c : CodePoint) : List Nat :=
  if c.isRawByte then [c.val - 0xDC00]
  else if c.val < 0x80 then [c.val]
  else if c.val < 0x800 then [0xC0 + c.val / 64, 0x80 + c.val % 64]
  else if c.val < 0x10000 then [0xE0 + c.val / 4096, 0x80 + c.val / 64 % 64, 0x80 + c.val % 64]
  else
    [0xF0 + c.val / 262144, 0x80 + c.val / 4096 % 64, 0x80 + c.val / 64 % 64, 0x80 + c.val % 64]

namespace FileName

def bytes (name : Text) : List Nat :=
  name.flatMap CodePoint.bytes

/-- The number that the first byte, with the bytes that it asks for, would encode. -/
def candidate (bytes : List Nat) : Nat :=
  let first := bytes.headD 0
  let low (i : Nat) : Nat := bytes.getD i 0 % 64
  if first < 0x80 then first
  else if first < 0xE0 then first % 32 * 64 + low 1
  else if first < 0xF0 then first % 16 * 4096 + low 1 * 64 + low 2
  else first % 8 * 262144 + low 1 * 4096 + low 2 * 64 + low 3

def leading? (bytes : List Nat) : Option CodePoint :=
  (CodePoint.ofNat? (candidate bytes)).filter fun c =>
    !c.isSurrogate && c.bytes.isPrefixOf bytes

/-- The text that bytes are shown as. The first `skip` of them belong to a sequence that is shown
already. -/
def shown : (skip : Nat) → List Nat → Text
  | _, [] => []
  | skip + 1, _ :: rest => shown skip rest
  | 0, b :: rest =>
    match leading? (b :: rest) with
    | some c => c :: shown (c.bytes.length - 1) rest
    | none => CodePoint.ofNat (0xDC00 + b) :: shown 0 rest

/-- The text under which the file of a name is kept: that of its bytes, if the name has any. -/
def kept (name : Text) : Text :=
  if name.all Encoding.fileName.covers && !name.isScalar then shown 0 (bytes name) else name

end FileName

end TaskContract
