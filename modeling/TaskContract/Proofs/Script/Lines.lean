import Mathlib.Data.List.Basic
import Mathlib.Data.List.TakeWhile
import TaskContract.Script.Source

/-!
# Bytes, rows and columns

A place in a script is counted in three ways: in bytes of its UTF-8 form, in rows, which end at line
feeds alone, and in characters of a row. The table of lines is made apart from all of these: the
rows without the carriage return at their ends, and without the last row if nothing is left of it.

- `count_encoded`: rows can be counted on the bytes, since a line feed is never part of the form of
  another character.
- `getElem?_splitLines`: the row that a place stands in, as one of the pieces between line feeds.
- `getElem?_lines`: the table has every row of which something is left.
- `span_is_on_its_line`: the text of a span is found in the line of its place, behind as many
  characters as its column says, and the lines shown around it are those up to two lines away.
-/

namespace TaskContract.Script

/-! ## Bytes -/

def encoded (cs : List Char) : List UInt8 :=
  cs.flatMap String.utf8EncodeChar

def feed : UInt8 := 10

theorem encoded_cons (c : Char) (cs : List Char) :
    encoded (c :: cs) = String.utf8EncodeChar c ++ encoded cs :=
  List.flatMap_cons

theorem encoded_append (cs ds : List Char) : encoded (cs ++ ds) = encoded cs ++ encoded ds :=
  List.flatMap_append

theorem foldl_utf8Size (n : Nat) (cs : List Char) :
    cs.foldl (fun n c => n + c.utf8Size) n = n + (encoded cs).length := by
  induction cs generalizing n with
  | nil => rfl
  | cons c rest ih =>
      rw [List.foldl_cons, ih, encoded_cons, List.length_append, String.length_utf8EncodeChar,
        Nat.add_assoc]

theorem length_encoded (cs : List Char) : (encoded cs).length = byteSize cs := by
  rw [byteSize, foldl_utf8Size, Nat.zero_add]

theorem byteSize_append (cs ds : List Char) : byteSize (cs ++ ds) = byteSize cs + byteSize ds := by
  rw [← length_encoded, encoded_append, List.length_append, length_encoded, length_encoded]

theorem byteSize_cons (c : Char) (cs : List Char) :
    byteSize (c :: cs) = c.utf8Size + byteSize cs := by
  rw [← length_encoded, encoded_cons, List.length_append, String.length_utf8EncodeChar,
    length_encoded]

theorem byteSize_eq_zero {cs : List Char} (h : byteSize cs = 0) : cs = [] := by
  cases cs with
  | nil => rfl
  | cons c rest =>
      have hpos := c.utf8Size_pos
      rw [byteSize_cons] at h
      omega

theorem takeBytes_cons {n : Nat} (hn : 0 < n) (c : Char) (cs : List Char) :
    takeBytes n (c :: cs) = c :: takeBytes (n - c.utf8Size) cs := by
  cases n with
  | zero => omega
  | succ n => rfl

theorem dropBytes_cons {n : Nat} (hn : 0 < n) (c : Char) (cs : List Char) :
    dropBytes n (c :: cs) = dropBytes (n - c.utf8Size) cs := by
  cases n with
  | zero => omega
  | succ n => rfl

theorem takeBytes_append (cs ds : List Char) : takeBytes (byteSize cs) (cs ++ ds) = cs := by
  induction cs with
  | nil => cases ds <;> rfl
  | cons c rest ih =>
      have hpos := c.utf8Size_pos
      rw [byteSize_cons, List.cons_append, takeBytes_cons (by omega), Nat.add_sub_cancel_left, ih]

theorem dropBytes_append (cs ds : List Char) : dropBytes (byteSize cs) (cs ++ ds) = ds := by
  induction cs with
  | nil => cases ds <;> rfl
  | cons c rest ih =>
      have hpos := c.utf8Size_pos
      rw [byteSize_cons, List.cons_append, dropBytes_cons (by omega), Nat.add_sub_cancel_left, ih]

theorem take_encoded (cs ds : List Char) :
    (encoded (cs ++ ds)).take (byteSize cs) = encoded cs := by
  rw [encoded_append, ← length_encoded, List.take_left]

theorem drop_encoded (cs ds : List Char) :
    (encoded (cs ++ ds)).drop (byteSize cs) = encoded ds := by
  rw [encoded_append, ← length_encoded, List.drop_left]

/-- A form of more than one byte has only bytes above 0x7F. -/
theorem feed_notMem_encodeChar {c : Char} (h : c ≠ '\n') : feed ∉ String.utf8EncodeChar c := by
  have hval : c.val.toNat ≠ 10 := by
    intro heq
    exact h (Char.ext (UInt32.toNat_inj.mp heq))
  unfold String.utf8EncodeChar
  extract_lets v
  have hv : v ≠ 10 := hval
  split_ifs <;>
    simp only [List.mem_cons, List.not_mem_nil, or_false, not_or, feed, ← UInt8.toNat_inj,
      UInt8.toNat_ofNat', UInt8.reduceToNat] <;>
    omega

theorem count_encodeChar (c : Char) :
    (String.utf8EncodeChar c).count feed = if c = '\n' then 1 else 0 := by
  split_ifs with hc
  · subst hc
    rfl
  · exact List.count_eq_zero.mpr (feed_notMem_encodeChar hc)

theorem count_encoded (cs : List Char) : (encoded cs).count feed = cs.count '\n' := by
  induction cs with
  | nil => rfl
  | cons c rest ih =>
      rw [encoded_cons, List.count_append, count_encodeChar, ih, List.count_cons, Nat.add_comm]
      simp only [beq_iff_eq]

/-! ## Rows -/

namespace Source

def lastRow (cs : List Char) : List Char :=
  (cs.reverse.takeWhile (· ≠ '\n')).reverse

theorem feed_notMem_lastRow (cs : List Char) : '\n' ∉ lastRow cs := by
  intro hmem
  have hkept := List.mem_takeWhile_imp (List.mem_reverse.mp hmem)
  simp at hkept

theorem eq_lastRow_or (cs : List Char) :
    cs = lastRow cs ∨ ∃ upto, cs = upto ++ '\n' :: lastRow cs := by
  have hsplit := congrArg List.reverse
    (List.takeWhile_append_dropWhile (p := fun c => decide (c ≠ '\n')) (l := cs.reverse))
  rw [List.reverse_append, List.reverse_reverse] at hsplit
  -- the search from the back is stopped by the front of the text or by a line feed
  cases hrest : cs.reverse.dropWhile (fun c => decide (c ≠ '\n')) with
  | nil =>
      rw [hrest] at hsplit
      exact .inl hsplit.symm
  | cons c upto =>
      have hc : c = '\n' := by
        have hhead := List.head?_dropWhile_not (fun c => decide (c ≠ '\n')) cs.reverse
        rw [hrest] at hhead
        simpa using hhead
      rw [hrest, List.reverse_cons, hc, List.append_assoc] at hsplit
      exact .inr ⟨upto.reverse, hsplit.symm⟩

/-- The last row is found on the bytes as well. -/
theorem takeWhile_encoded (cs : List Char) :
    ((encoded cs).reverse.takeWhile (· ≠ feed)).reverse = encoded (lastRow cs) := by
  have hkept : ∀ b ∈ (encoded (lastRow cs)).reverse, decide (b ≠ feed) = true := by
    intro b hb
    have hnone : feed ∉ encoded (lastRow cs) := by
      rw [← List.count_eq_zero, count_encoded]
      exact List.count_eq_zero.mpr (feed_notMem_lastRow cs)
    exact decide_eq_true (ne_of_mem_of_not_mem (List.mem_reverse.mp hb) hnone)
  rcases eq_lastRow_or cs with hall | ⟨upto, hupto⟩
  · rw [← hall] at hkept ⊢
    rw [List.takeWhile_eq_self_iff.mpr hkept, List.reverse_reverse]
  · have hfeed : String.utf8EncodeChar '\n' = [feed] := rfl
    have hbytes : (encoded cs).reverse
        = (encoded (lastRow cs)).reverse ++ feed :: (encoded upto).reverse := by
      conv_lhs => rw [hupto]
      rw [encoded_append, encoded_cons, hfeed]
      simp
    have hstop : (feed :: (encoded upto).reverse).takeWhile (· ≠ feed) = [] :=
      List.takeWhile_cons_of_neg (by simp)
    rw [hbytes, List.takeWhile_append_of_pos hkept, hstop, List.append_nil, List.reverse_reverse]

theorem splitLines_eq (cs : List Char) : splitLines cs = cs.splitOn '\n' := by
  induction cs with
  | nil => rfl
  | cons c rest ih =>
      rw [splitLines, ih, List.splitOn_cons_eq_if_modifyHead]
      simp only [beq_iff_eq]
      cases hpieces : rest.splitOn '\n' with
      | nil => exact absurd hpieces (List.splitOn_ne_nil '\n' rest)
      | cons l others => rfl

theorem joinLines_eq (ls : List (List Char)) : joinLines ls = ['\n'].intercalate ls := by
  induction ls with
  | nil => rfl
  | cons l rest ih =>
      cases rest with
      | nil => simp [joinLines]
      | cons next others =>
          rw [joinLines, ih, List.intercalate_cons_cons, List.append_assoc]
          · rfl
          · simp

theorem length_splitLines (cs : List Char) : (splitLines cs).length = cs.count '\n' + 1 := by
  fun_induction splitLines cs <;> simp_all

theorem feed_notMem_of_mem_splitLines {cs l : List Char} (h : l ∈ splitLines cs) : '\n' ∉ l := by
  fun_induction splitLines cs generalizing l <;> grind

theorem getElem?_splitLines_zero (cs : List Char) :
    (splitLines cs)[0]? = some (cs.takeWhile (· ≠ '\n')) := by
  fun_induction splitLines cs <;> simp_all

/-- The row of a place goes from the last line feed before it to the next one behind it. -/
theorem getElem?_splitLines (before rest : List Char) :
    (splitLines (before ++ rest))[before.count '\n']?
      = some (lastRow before ++ rest.takeWhile (· ≠ '\n')) := by
  have hlast := feed_notMem_lastRow before
  -- the last row of `before` goes on as the first row of what follows its last line feed
  have hrow : (lastRow before ++ rest).takeWhile (· ≠ '\n')
      = lastRow before ++ rest.takeWhile (· ≠ '\n') := by
    apply List.takeWhile_append_of_pos
    intro c hc
    exact decide_eq_true (ne_of_mem_of_not_mem hc hlast)
  rcases eq_lastRow_or before with hall | ⟨upto, hupto⟩
  · rw [← hall] at hlast hrow ⊢
    rw [List.count_eq_zero.mpr hlast, getElem?_splitLines_zero, hrow]
  · have hcount : before.count '\n' = (splitLines upto).length := by
      rw [hupto, List.count_append, List.count_cons_self, List.count_eq_zero.mpr hlast,
        length_splitLines]
    have hpieces : splitLines (before ++ rest)
        = splitLines upto ++ splitLines (lastRow before ++ rest) := by
      conv_lhs => rw [hupto]
      rw [List.append_assoc, List.cons_append, splitLines_eq, List.splitOn_append_cons_self,
        ← splitLines_eq, ← splitLines_eq]
    rw [hpieces, hcount, List.getElem?_append_right (Nat.le_refl _), Nat.sub_self,
      getElem?_splitLines_zero, hrow]

/-! ## The table of lines -/

theorem dropReturn_isPrefix (l : List Char) : dropReturn l <+: l := by
  rw [dropReturn]
  split_ifs
  · exact List.dropLast_prefix l
  · exact List.prefix_refl l

theorem dropReturn_append {l r : List Char} (hr : r ≠ []) :
    dropReturn (l ++ r) = l ++ dropReturn r := by
  rw [dropReturn, dropReturn, List.getLast?_append_of_ne_nil l hr]
  split_ifs
  · exact List.dropLast_append_of_ne_nil hr
  · rfl

theorem dropReturn_cons_ne_nil {c : Char} (hc : c ≠ '\r') (r : List Char) :
    dropReturn (c :: r) ≠ [] := by
  cases r with
  | nil => simp [dropReturn, hc]
  | cons d r =>
      have hcut : dropReturn ([c] ++ d :: r) = [c] ++ dropReturn (d :: r) :=
        dropReturn_append (List.cons_ne_nil d r)
      intro heq
      exact List.cons_ne_nil c (dropReturn (d :: r)) (hcut.symm.trans heq)

/-- A text that goes on with another character keeps all it had: only at its new end can a carriage
return be left out. -/
theorem dropReturn_mono {p q : List Char} (h : p <+: q) :
    dropReturn p <+: dropReturn q := by
  obtain ⟨r, rfl⟩ := h
  cases r with
  | nil => simp
  | cons c r =>
      rw [dropReturn_append (List.cons_ne_nil c r)]
      exact (dropReturn_isPrefix p).trans (List.prefix_append p _)

theorem feed_notMem_of_mem_lines {s : Source} {l : List Char} (h : l ∈ s.lines) : '\n' ∉ l := by
  have hmem : l ∈ (splitLines s.chars).map dropReturn := by
    simp only [lines] at h
    split_ifs at h
    · exact (List.dropLast_sublist _).subset h
    · exact h
  obtain ⟨piece, hpiece, rfl⟩ := List.mem_map.mp hmem
  intro hfeed
  exact feed_notMem_of_mem_splitLines hpiece ((dropReturn_isPrefix piece).subset hfeed)

/-- The table leaves out a row only if nothing is left of it. -/
theorem getElem?_lines {s : Source} {i : Nat} {row : List Char}
    (hrow : (splitLines s.chars)[i]? = some row) (hleft : dropReturn row ≠ []) :
    s.lines[i]? = some (dropReturn row) := by
  have hitem : ((splitLines s.chars).map dropReturn)[i]? = some (dropReturn row) := by
    rw [List.getElem?_map, hrow]
    rfl
  simp only [lines]
  split_ifs with hlast
  · -- the row that is left out is empty, so it is another one
    rw [List.getElem?_dropLast, if_pos, hitem]
    obtain ⟨hlt, -⟩ := List.getElem?_eq_some_iff.mp hitem
    have hne : i ≠ ((splitLines s.chars).map dropReturn).length - 1 := by
      rintro rfl
      rw [List.getLast?_eq_getElem?, hitem] at hlast
      exact hleft (Option.some.inj hlast)
    omega
  · exact hitem

theorem lineText_succ {s : Source} {i : Nat} {l : List Char} (h : s.lines[i]? = some l) :
    s.lineText (i + 1 : Nat) = l := by
  have hindex : (((i + 1 : Nat) : Int) - 1).toNat = i := by omega
  rw [lineText, if_pos (by omega), hindex, List.getD_eq_getElem?_getD, h, Option.getD_some]

/-! ## The lines around a line -/

theorem context_eq (s : Source) (line : Nat) :
    s.context line = joinLines ((s.lines.take (line + 2)).drop (line - 3)) := by
  have hstart : ((max 0 ((line : Int) - 1 - 2) : Int)).toNat = line - 3 := by omega
  have hstop : ((line : Int) + 2).toNat = line + 2 := by omega
  rw [context, window, between]
  dsimp only
  rw [if_neg (by omega), if_neg (by omega), hstart, hstop]

/-- The lines that are shown around a line, by their numbers. -/
theorem shown_eq (s : Source) (line : Nat) :
    (s.lines.take (line + 2)).drop (line - 3)
      = (List.range' (max 1 (line - 2)) (min s.lineCount (line + 2) + 1 - max 1 (line - 2))).map
          fun n : Nat => s.lineText n := by
  apply List.ext_getElem
  · simp only [List.length_drop, List.length_take, List.length_map, List.length_range', lineCount]
    omega
  · intro i hleft hright
    simp only [List.length_drop, List.length_take] at hleft
    have hplace : max 1 (line - 2) + i = line - 3 + i + 1 := by omega
    rw [List.getElem_drop, List.getElem_take, List.getElem_map, List.getElem_range', Nat.one_mul,
      hplace, lineText_succ (List.getElem?_eq_getElem (by omega))]

/-! ## Spans -/

/-- A byte offset at which no character is cut. -/
def IsBoundary (s : Source) (offset : Nat) : Prop :=
  ∃ front back, s.chars = front ++ back ∧ byteSize front = offset

def Begins (s : Source) (offset : Nat) (c : Char) : Prop :=
  ∃ front back, s.chars = front ++ c :: back ∧ byteSize front = offset

/-- A span between boundaries has the characters between them. -/
theorem slice_eq {s : Source} {front back : List Char} {stop : Nat}
    (hchars : s.chars = front ++ back) (hstop : s.IsBoundary stop)
    (hle : byteSize front ≤ stop) :
    ∃ after, back = s.slice (byteSize front) stop ++ after
      ∧ byteSize front + byteSize (s.slice (byteSize front) stop) = stop := by
  obtain ⟨upto, after, hsplit, hsize⟩ := hstop
  -- the second boundary lies in `back`
  obtain ⟨inner, hback⟩ : ∃ inner, upto = front ++ inner ∧ back = inner ++ after := by
    rcases List.append_eq_append_iff.mp (hchars.symm.trans hsplit) with
      ⟨inner, hupto, hback⟩ | ⟨inner, hfront, hafter⟩
    · exact ⟨inner, hupto, hback⟩
    · have hsum := byteSize_append upto inner
      rw [← hfront] at hsum
      have hinner : inner = [] := byteSize_eq_zero (by omega)
      subst hinner
      exact ⟨[], by simpa using hfront.symm, by simpa using hafter.symm⟩
  obtain ⟨hupto, hback⟩ := hback
  have hlength : byteSize front + byteSize inner = stop := by
    rw [← hsize, hupto, byteSize_append]
  have hslice : s.slice (byteSize front) stop = inner := by
    rw [slice, hchars, dropBytes_append, hback, ← hlength, Nat.add_sub_cancel_left,
      takeBytes_append]
  rw [hslice]
  exact ⟨after, hback, hlength⟩

theorem encoded_slice {s : Source} {start stop : Nat} (hstart : s.IsBoundary start)
    (hstop : s.IsBoundary stop) (hle : start ≤ stop) :
    encoded (s.slice start stop) = ((encoded s.chars).take stop).drop start := by
  obtain ⟨front, back, hchars, rfl⟩ := hstart
  obtain ⟨after, hspan, hlength⟩ := slice_eq hchars hstop hle
  have hbytes := take_encoded (front ++ s.slice (byteSize front) stop) after
  rw [List.append_assoc, ← hspan, ← hchars, byteSize_append, hlength] at hbytes
  rw [hbytes, drop_encoded]

theorem location_eq {s : Source} {front back : List Char} (hchars : s.chars = front ++ back) :
    s.location (byteSize front)
      = { line := front.count '\n' + 1, column := (lastRow front).length } := by
  rw [location, hchars, takeBytes_append]
  simp [lastRow, List.count, Bool.beq_eq_decide_eq]

/-- A place in the text of a script has its line in the table, from its column on. -/
theorem getElem?_lines_of_begins {s : Source} {front back : List Char} {c : Char}
    (hchars : s.chars = front ++ c :: back) (hfeed : c ≠ '\n') (hreturn : c ≠ '\r') :
    s.lines[front.count '\n']?
      = some (lastRow front ++ dropReturn ((c :: back).takeWhile (· ≠ '\n'))) := by
  have hrest : (c :: back).takeWhile (· ≠ '\n') = c :: back.takeWhile (· ≠ '\n') :=
    List.takeWhile_cons_of_pos (decide_eq_true hfeed)
  have hrow := getElem?_splitLines front (c :: back)
  have hcut := dropReturn_append (l := lastRow front)
    (List.cons_ne_nil c (back.takeWhile (· ≠ '\n')))
  -- the row goes on behind its front part, so only from there a carriage return can be left out
  rw [← hchars, hrest] at hrow
  rw [hrest, ← hcut]
  apply getElem?_lines hrow
  rw [hcut]
  exact List.append_ne_nil_of_right_ne_nil _ (dropReturn_cons_ne_nil hreturn _)

/-- The lines of a context are found in it again, since they have no line feeds of their own. -/
theorem splitOn_context {s : Source} {line : Nat} (h1 : 1 ≤ line) (h2 : line ≤ s.lineCount) :
    (s.context line).splitOn '\n' = (s.lines.take (line + 2)).drop (line - 3) := by
  rw [context_eq, joinLines_eq]
  apply List.splitOn_intercalate
  · intro l hl
    exact feed_notMem_of_mem_lines (List.mem_of_mem_take (List.mem_of_mem_drop hl))
  · intro hnil
    have hlength := congrArg List.length hnil
    rw [lineCount] at h2
    simp only [List.length_drop, List.length_take, List.length_nil] at hlength
    omega

/-- A span that begins with a character of a line is told by its bytes; the row of its place is
counted by the line feeds in the bytes before it, and the column by the characters since the last
one. Its line is one of the table, which holds the text of the span, up to the end of the line,
behind as many characters as the column says. The context of the line has the lines up to two away,
as far as there are such, and the line itself as its third if there are two before it. -/
theorem span_is_on_its_line (s : Source) (start stop : Nat) (c : Char)
    (hstart : s.Begins start c) (hfeed : c ≠ '\n') (hreturn : c ≠ '\r')
    (hstop : s.IsBoundary stop) (hle : start ≤ stop) :
    let line := (s.location start).line
    let column := (s.location start).column
    encoded (s.slice start stop) = ((encoded s.chars).take stop).drop start
      ∧ line = ((encoded s.chars).take start).count feed + 1
      ∧ (∃ row : List Char, row.length = column
          ∧ encoded row
            = (((encoded s.chars).take start).reverse.takeWhile (· ≠ feed)).reverse)
      ∧ 1 ≤ line ∧ line ≤ s.lineCount
      ∧ dropReturn ((s.slice start stop).takeWhile (· ≠ '\n')) <+: (s.lineText line).drop column
      ∧ s.context line
          = ['\n'].intercalate
              ((List.range' (max 1 (line - 2))
                (min s.lineCount (line + 2) + 1 - max 1 (line - 2))).map
                  fun n : Nat => s.lineText n)
      ∧ ((s.context line).splitOn '\n').length ≤ 5
      ∧ ((s.context line).splitOn '\n')[min line 3 - 1]? = some (s.lineText line) := by
  obtain ⟨front, back, hchars, rfl⟩ := hstart
  obtain ⟨after, hspan, -⟩ := slice_eq hchars hstop hle
  rw [location_eq hchars]
  dsimp only
  have hitem := getElem?_lines_of_begins hchars hfeed hreturn
  have htext := lineText_succ hitem
  obtain ⟨hlt, -⟩ := List.getElem?_eq_some_iff.mp hitem
  have hcount : front.count '\n' + 1 ≤ s.lineCount := hlt
  have hshown := splitOn_context (s := s) (Nat.succ_pos (front.count '\n')) hcount
  refine ⟨?_, ?_, ?_, Nat.succ_pos _, hcount, ?_, ?_, ?_, ?_⟩
  · exact encoded_slice ⟨front, c :: back, hchars, rfl⟩ hstop hle
  · rw [hchars, take_encoded, count_encoded]
  · rw [hchars, take_encoded]
    exact ⟨lastRow front, rfl, (takeWhile_encoded front).symm⟩
  · rw [htext, List.drop_left]
    apply dropReturn_mono
    rw [hspan, List.takeWhile_append]
    split_ifs with hwhole
    · exact (List.takeWhile_prefix _).trans (List.prefix_append _ _)
    · exact List.prefix_refl _
  · rw [context_eq, joinLines_eq, shown_eq]
  · rw [hshown]
    simp only [List.length_drop, List.length_take]
    omega
  · rw [hshown, List.getElem?_drop, List.getElem?_take, htext, ← hitem]
    have hindex : front.count '\n' + 1 - 3 + (min (front.count '\n' + 1) 3 - 1)
        = front.count '\n' := by
      omega
    rw [hindex, if_pos (by omega)]

/-- A call that goes on in the next row, behind characters of two bytes and carriage returns. -/
theorem call_is_on_its_line :
    let s : Source := { chars := "// é\r\nlet ü = f(\r\n1)".toList }
    (s.Begins 16 'f' ∧ 'f' ≠ '\n' ∧ 'f' ≠ '\r' ∧ s.IsBoundary 22 ∧ 16 ≤ 22)
      ∧ s.location 16 = { line := 2, column := 8 }
      ∧ "f(".toList <+: (s.lineText 2).drop 8 := by
  intro s
  have hstart : s.Begins 16 'f' :=
    ⟨"// é\r\nlet ü = ".toList, "(\r\n1)".toList, by decide +kernel, by decide +kernel⟩
  have hstop : s.IsBoundary 22 := ⟨s.chars, [], by decide +kernel, by decide +kernel⟩
  have hlocation : s.location 16 = { line := 2, column := 8 } := by decide +kernel
  have hspan : dropReturn ((s.slice 16 22).takeWhile (· ≠ '\n')) = "f(".toList := by decide +kernel
  obtain ⟨-, -, -, -, -, hline, -⟩ := span_is_on_its_line s 16 22 'f' hstart (by decide) (by decide)
    hstop (by decide)
  rw [hspan, hlocation] at hline
  exact ⟨⟨hstart, by decide, by decide, hstop, by decide⟩, hlocation, hline⟩

end Source

end TaskContract.Script
