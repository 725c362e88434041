import TaskContract.Text.CodePoint

/-!
# Lines of a text

Two ideas of a line: the line feed alone ends a line of a source file, while a snippet that is
shown to the user is cut at every Unicode line boundary. `unifyLineEnds` is what reading a file as
text does to its line ends.
-/

namespace TaskContract

namespace CodePoint

def isLineBreak (c : CodePoint) : Bool :=
  (10 ≤ c.val && c.val ≤ 13) || (0x1C ≤ c.val && c.val ≤ 0x1E) || c.val = 0x85
    || c.val = 0x2028 || c.val = 0x2029

end CodePoint

namespace Text

def firstLine? (t : Text) : Option Text :=
  if t = [] then none else some (t.takeWhile fun c => !c.isLineBreak)

/-- The text with CR LF and a CR that stands alone each made a line feed. -/
def unifyLineEnds : Text → Text
  | [] => []
  | c :: t =>
    if c = '\r' then
      match t with
      | [] => [CodePoint.ofChar '\n']
      | d :: u => if d = '\n' then CodePoint.ofChar '\n' :: unifyLineEnds u
                  else CodePoint.ofChar '\n' :: unifyLineEnds (d :: u)
    else c :: unifyLineEnds t
termination_by t => t.length

/-- The lines of a text, as the line feed ends them; what follows the last one is a line if it
is not empty. -/
def lines (t : Text) : List Text :=
  let pieces := splitOn '\n' t
  if pieces.getLast? = some [] then pieces.dropLast else pieces

end Text

end TaskContract
