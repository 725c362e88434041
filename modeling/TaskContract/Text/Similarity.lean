import TaskContract.Text.CodePoint

/-!
# Similar texts

Two texts are as similar as the runs that they share are long: the longest common run, then those
to its left and to its right, and so on. Where a name is unknown, the most similar known ones are
suggested.
-/

namespace TaskContract.Text

def commonFront : Text → Text → Nat
  | c :: s, d :: t => if c = d then commonFront s t + 1 else 0
  | _, _ => 0

/-- A run that two texts share: where it begins in each, and its length. -/
structure CommonRun where
  left : Nat
  right : Nat
  length : Nat

def commonRuns (s t : Text) : List CommonRun :=
  (List.range s.length).flatMap fun i =>
    (List.range t.length).map fun j => ⟨i, j, commonFront (s.drop i) (t.drop j)⟩

def longestRun (s t : Text) : CommonRun :=
  (commonRuns s t).foldl (fun best r => if best.length < r.length then r else best) ⟨0, 0, 0⟩

/-- The number of code points that are in common runs, found at most `depth` runs deep. -/
def sharedTo : (depth : Nat) → Text → Text → Nat
  | 0, _, _ => 0
  | depth + 1, s, t =>
    let r := longestRun s t
    if r.length = 0 then 0
    else
      sharedTo depth (s.take r.left) (t.take r.right) + r.length
        + sharedTo depth (s.drop (r.left + r.length)) (t.drop (r.right + r.length))

def shared (s t : Text) : Nat :=
  sharedTo s.length s t

/-- How similar two texts are, as a fraction: twice what they share by what they hold together. -/
def similarity (s t : Text) : Nat × Nat :=
  if s.isEmpty && t.isEmpty then (1, 1) else (2 * shared s t, s.length + t.length)

/-- The known texts that are similar to one by three fifths at least: the three most similar, the
most similar first. -/
def suggestions (t : Text) (known : List Text) : List Text :=
  let scored := known.map fun k => (k, similarity k t)
  let close := scored.filter fun (_, n, d) => 3 * d ≤ 5 * n
  let before (a b : Text × Nat × Nat) : Bool :=
    let (s, n, d) := a
    let (u, m, e) := b
    if n * e = m * d then le u s else m * d < n * e
  ((close.mergeSort before).take 3).map (·.1)

end TaskContract.Text
