import TaskContract.Files.Name
import Mathlib.Data.List.TakeWhile

/-!
# Which texts name one file

The name that a file is kept under is read back from bytes. A byte below 0x80 is never part of a
longer sequence, so reading back can be split before and behind it: what a name holds of ASCII it
keeps, and an ASCII ending stays an ending.
-/

namespace TaskContract

namespace CodePoint

theorem isRawByte_of_isScalar {c : CodePoint} (h : c.isSurrogate = false) :
    c.isRawByte = false := by
  simp only [isSurrogate, isRawByte, Bool.and_eq_false_iff, decide_eq_false_iff_not] at h ⊢
  omega

theorem bytes_of_ascii {c : CodePoint} (h : c.val < 0x80) : c.bytes = [c.val] := by
  have hraw : ¬c.isRawByte = true := by
    simp only [isRawByte, Bool.and_eq_true, decide_eq_true_eq]
    omega
  rw [bytes, if_neg hraw, if_pos h]

theorem bytes_lt (c : CodePoint) : ∀ b ∈ c.bytes, b < 0x100 := by
  have hc := c.isLt
  fun_cases bytes c with
  | case1 hraw =>
      simp only [isRawByte, Bool.and_eq_true, decide_eq_true_eq] at hraw
      simp only [List.mem_singleton, forall_eq]
      omega
  | _ =>
      simp only [List.mem_cons, List.not_mem_nil, or_false, forall_eq_or_imp, forall_eq]
      omega

/-- Only the first byte of a code point can be below 0x80. -/
theorem le_of_mem_bytes_tail (c : CodePoint) : ∀ b ∈ c.bytes.tail, 0x80 ≤ b := by
  fun_cases bytes c <;>
    simp only [List.tail_cons, List.mem_cons, List.not_mem_nil, or_false, forall_eq_or_imp,
      forall_eq, false_imp_iff, implies_true] <;>
    omega

theorem val_eq_of_mem_bytes {c : CodePoint} {b : Nat} (h : b ∈ c.bytes) (hb : b < 0x80) :
    c.val = b := by
  revert h
  fun_cases bytes c with
  | case1 hraw =>
      simp only [isRawByte, Bool.and_eq_true, decide_eq_true_eq] at hraw
      rw [List.mem_singleton]
      omega
  | case2 =>
      rw [List.mem_singleton]
      exact Eq.symm
  | _ =>
      simp only [List.mem_cons, List.not_mem_nil, or_false]
      omega

end CodePoint

namespace FileName

theorem bytes_append (s t : Text) : bytes (s ++ t) = bytes s ++ bytes t :=
  List.flatMap_append

/-! ## Reading bytes back -/

theorem candidate_bytes {c : CodePoint} (h : c.isSurrogate = false) (rest : List Nat) :
    candidate (c.bytes ++ rest) = c.val := by
  have hlt := c.isLt
  have hraw : ¬c.isRawByte = true := by
    rw [CodePoint.isRawByte_of_isScalar h]
    exact nofun
  fun_cases CodePoint.bytes c with
  | case1 h' => exact absurd h' hraw
  | _ =>
      simp only [candidate, List.cons_append, List.nil_append, List.headD_cons,
        List.getD_cons_succ, List.getD_cons_zero]
      split_ifs <;> omega

theorem leading_eq_some_iff {bytes : List Nat} {c : CodePoint} :
    leading? bytes = some c ↔ c.isSurrogate = false ∧ c.bytes <+: bytes := by
  rw [leading?, Option.filter_eq_some_iff, Bool.and_eq_true, Bool.not_eq_true',
    List.isPrefixOf_iff_prefix]
  constructor
  · exact And.right
  · rintro ⟨hscalar, rest, rfl⟩
    rw [candidate_bytes hscalar, CodePoint.ofNat?, dif_pos c.isLt]
    exact ⟨rfl, hscalar, List.prefix_append _ _⟩

theorem leading_ascii {b : Nat} (hb : b < 0x80) (rest : List Nat) :
    leading? (b :: rest) = some (CodePoint.ofNat b) := by
  have hlt : b < 0x110000 := by omega
  rw [CodePoint.ofNat, dif_pos hlt, leading_eq_some_iff, CodePoint.bytes_of_ascii hb]
  refine ⟨?_, rest, rfl⟩
  simp only [CodePoint.isSurrogate, Bool.and_eq_false_iff, decide_eq_false_iff_not]
  omega

/-- A byte below 0x80 behind some bytes does not prolong a sequence of theirs. -/
theorem leading_append {front : List Nat} (hfront : front ≠ []) {b : Nat} (hb : b < 0x80)
    (back : List Nat) : leading? (front ++ b :: back) = leading? front := by
  have hiff : ∀ c : CodePoint, c.bytes <+: front ++ b :: back ↔ c.bytes <+: front := by
    intro c
    refine ⟨?_, fun h => h.trans (List.prefix_append _ _)⟩
    rintro ⟨rest, hrest⟩
    rcases List.append_eq_append_iff.mp hrest with ⟨more, hmore, -⟩ | ⟨more, hmore, htail⟩
    · exact ⟨more, hmore.symm⟩
    · cases more with
      | nil => exact ⟨[], by rw [hmore, List.append_nil, List.append_nil]⟩
      | cons b' more =>
          -- then the byte would be among those of a code point, but not its first
          obtain ⟨a, front, rfl⟩ := List.exists_cons_of_ne_nil hfront
          have hmem : b' ∈ c.bytes.tail := by
            rw [hmore]
            exact List.mem_append_right _ List.mem_cons_self
          have hle := c.le_of_mem_bytes_tail b' hmem
          obtain ⟨rfl, -⟩ := List.cons.inj htail
          omega
  refine Option.ext fun c => ?_
  rw [leading_eq_some_iff, leading_eq_some_iff, hiff]

/-- Reading back goes on anew behind a byte below 0x80. -/
theorem shown_append (front : List Nat) {skip : Nat} (hskip : skip ≤ front.length) {b : Nat}
    (hb : b < 0x80) (back : List Nat) :
    shown skip (front ++ b :: back) = shown skip front ++ CodePoint.ofNat b :: shown 0 back := by
  induction front generalizing skip with
  | nil =>
      obtain rfl := Nat.le_zero.mp hskip
      have hlength : (CodePoint.ofNat b).bytes.length = 1 := by
        have hlt : b < 0x110000 := by omega
        rw [CodePoint.ofNat, dif_pos hlt, CodePoint.bytes_of_ascii hb]
        rfl
      show shown 0 (b :: back) = CodePoint.ofNat b :: shown 0 back
      rw [shown, leading_ascii hb]
      dsimp only
      rw [hlength]
  | cons a front ih =>
      cases skip with
      | succ skip => exact ih (Nat.le_of_succ_le_succ hskip)
      | zero =>
          have hleading := leading_append (List.cons_ne_nil a front) hb back
          rw [List.cons_append] at hleading ⊢
          rw [shown, shown, hleading]
          cases h : leading? (a :: front) with
          | none =>
              dsimp only
              rw [ih (Nat.zero_le _)]
              rfl
          | some c =>
              have hlength := (leading_eq_some_iff.mp h).2.length_le
              rw [List.length_cons] at hlength
              dsimp only
              rw [ih (by omega)]
              rfl

theorem shown_append_ascii (front : List Nat) {back : Text} (hback : ∀ c ∈ back, c.val < 0x80) :
    shown 0 (front ++ bytes back) = shown 0 front ++ back := by
  induction back generalizing front with
  | nil => rw [bytes, List.flatMap_nil, List.append_nil, List.append_nil]
  | cons c rest ih =>
      obtain ⟨hc, hrest⟩ := List.forall_mem_cons.mp hback
      have hvalue : CodePoint.ofNat c.val = c := by rw [CodePoint.ofNat, dif_pos c.isLt]
      have hshown := ih [] hrest
      rw [bytes, List.flatMap_cons, CodePoint.bytes_of_ascii hc, List.singleton_append,
        shown_append front (Nat.zero_le _) hc, hvalue]
      rw [List.nil_append, bytes] at hshown
      rw [hshown]
      rfl

/-- Every code point that is shown has its bytes there, or is a byte by itself. -/
theorem mem_shown {bytes : List Nat} (hbytes : ∀ b ∈ bytes, b < 0x100) {skip : Nat}
    {c : CodePoint} (h : c ∈ shown skip bytes) :
    (c.isSurrogate = false ∧ ∀ b ∈ c.bytes, b ∈ bytes) ∨ c.isRawByte = true := by
  induction bytes generalizing skip with
  | nil => cases skip <;> cases h
  | cons a rest ih =>
      obtain ⟨ha, hrest⟩ := List.forall_mem_cons.mp hbytes
      have hlater : ∀ {skip : Nat}, c ∈ shown skip rest →
          (c.isSurrogate = false ∧ ∀ b ∈ c.bytes, b ∈ a :: rest) ∨ c.isRawByte = true := by
        intro skip h
        refine (ih hrest h).imp_left fun h => ⟨h.1, fun b hb => ?_⟩
        exact List.mem_cons_of_mem _ (h.2 b hb)
      cases skip with
      | succ skip => exact hlater h
      | zero =>
          rw [shown] at h
          split at h
          · rename_i d hd
            obtain ⟨hscalar, hprefix⟩ := leading_eq_some_iff.mp hd
            rcases List.mem_cons.mp h with rfl | h
            · exact Or.inl ⟨hscalar, fun b hb => hprefix.subset hb⟩
            · exact hlater h
          · rename_i hnone
            have hhigh : 0x80 ≤ a := by
              by_contra hlow
              rw [leading_ascii (by omega)] at hnone
              cases hnone
            rcases List.mem_cons.mp h with rfl | h
            · refine Or.inr ?_
              rw [CodePoint.ofNat, dif_pos (by omega)]
              simp only [CodePoint.isRawByte, Bool.and_eq_true, decide_eq_true_eq]
              omega
            · exact hlater h

/-! ## Kept names -/

theorem bytes_lt (name : Text) : ∀ b ∈ bytes name, b < 0x100 := by
  intro b hb
  obtain ⟨c, -, hc⟩ := List.mem_flatMap.mp hb
  exact c.bytes_lt b hc

/-- A name is kept with its ASCII ending. -/
theorem kept_append (name : Text) {ending : Text} (h : ∀ c ∈ ending, c.val < 0x80) :
    kept (name ++ ending) = kept name ++ ending := by
  have hscalar : ∀ c ∈ ending, c.isSurrogate = false := by
    intro c hc
    have hlt := h c hc
    simp only [CodePoint.isSurrogate, Bool.and_eq_false_iff, decide_eq_false_iff_not]
    omega
  have hcovers : ending.all Encoding.fileName.covers = true := by
    rw [List.all_eq_true]
    intro c hc
    simp only [Encoding.covers, hscalar c hc, Bool.not_false, Bool.true_or]
  have hisScalar : Text.isScalar (name ++ ending) = name.isScalar := by
    have hending : ending.all (fun c => !c.isSurrogate) = true := by
      rw [List.all_eq_true]
      intro c hc
      rw [hscalar c hc]
      rfl
    rw [Text.isScalar, List.all_append, hending, Bool.and_true, Text.isScalar]
  rw [kept, kept, List.all_append, hcovers, Bool.and_true, hisScalar]
  split
  · rw [bytes, List.flatMap_append]
    exact shown_append_ascii _ h
  · rfl

theorem covers_kept (name : Text) :
    (∀ c ∈ kept name, Encoding.fileName.covers c = true)
      ↔ ∀ c ∈ name, Encoding.fileName.covers c = true := by
  rw [kept]
  split
  · rename_i h
    have hname := (Bool.and_eq_true_iff.mp h).1
    refine ⟨fun _ => List.all_eq_true.mp hname, fun _ c hc => ?_⟩
    rcases mem_shown (bytes_lt name) hc with ⟨hscalar, -⟩ | hraw
    · simp only [Encoding.covers, hscalar, Bool.not_false, Bool.true_or]
    · simp only [Encoding.covers, hraw, Bool.or_true]
  · exact Iff.rfl

theorem mem_kept_iff {c : CodePoint} (hc : c.val < 0x80) {name : Text} :
    c ∈ kept name ↔ c ∈ name := by
  rw [kept]
  split
  · constructor
    · intro h
      rcases mem_shown (bytes_lt name) h with ⟨-, hbytes⟩ | hraw
      · have hmem := hbytes c.val (by rw [CodePoint.bytes_of_ascii hc]; exact List.mem_cons_self)
        obtain ⟨d, hd, hval⟩ := List.mem_flatMap.mp hmem
        have heq := CodePoint.val_eq_of_mem_bytes hval hc
        obtain ⟨n, hn⟩ := c
        obtain ⟨m, hm⟩ := d
        cases heq
        exact hd
      · simp only [CodePoint.isRawByte, Bool.and_eq_true, decide_eq_true_eq] at hraw
        omega
    · intro h
      obtain ⟨front, back, rfl⟩ := List.append_of_mem h
      have hvalue : CodePoint.ofNat c.val = c := by rw [CodePoint.ofNat, dif_pos c.isLt]
      rw [bytes, List.flatMap_append, List.flatMap_cons, CodePoint.bytes_of_ascii hc,
        List.singleton_append, shown_append _ (Nat.zero_le _) hc, hvalue]
      exact List.mem_append_right _ List.mem_cons_self
  · exact Iff.rfl

end FileName

end TaskContract
