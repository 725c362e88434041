import Mathlib.Data.List.Basic
import Mathlib.Data.List.TakeWhile
import TaskContract.Text.Encoding

/-!
# Texts that can be written

A text made of characters holds no surrogate, and it tells the characters. What an encoding can
write is decided code point by code point.
-/

namespace TaskContract

theorem CodePoint.ofChar_injective : Function.Injective CodePoint.ofChar := by
  intro c d h
  have hval : c.toNat = d.toNat := congrArg CodePoint.val h
  exact Char.toNat_inj.mp hval

theorem CodePoint.isSurrogate_ofChar (c : Char) : (CodePoint.ofChar c).isSurrogate = false := by
  have hvalid : c.toNat < 0xD800 ∨ 0xDFFF < c.toNat ∧ c.toNat < 0x110000 := c.valid
  have hval : (CodePoint.ofChar c).val = c.toNat := rfl
  rw [isSurrogate, Bool.and_eq_false_iff, decide_eq_false_iff_not, decide_eq_false_iff_not, hval]
  omega

theorem CodePoint.isSurrogate_of_lt {c : CodePoint} (h : c.val < 0xD800) :
    c.isSurrogate = false := by
  rw [isSurrogate, decide_eq_false (Nat.not_le.mpr h), Bool.false_and]

namespace Text

theorem ofString_injective : Function.Injective ofString := by
  intro s t h
  exact String.toList_inj.mp (List.map_injective_iff.mpr CodePoint.ofChar_injective h)

theorem eq_append_of_dropFront {w t rest : Text} (h : t.dropFront? w = some rest) :
    t = w ++ rest := by
  fun_induction dropFront? t w with
  | case1 t => exact Option.some.inj h
  | case2 => cases h
  | case3 c t front ih => rw [List.cons_append, ← ih h]
  | case4 => cases h

theorem isScalar_append (s t : Text) : isScalar (s ++ t) = (isScalar s && isScalar t) :=
  List.all_append

theorem isScalar_ofChars (cs : List Char) : isScalar (ofChars cs) = true := by
  rw [isScalar, ofChars, List.all_map, List.all_eq_true]
  intro c _
  rw [Function.comp, CodePoint.isSurrogate_ofChar]
  rfl

theorem isScalar_ofString (s : String) : isScalar (ofString s) = true :=
  isScalar_ofChars s.toList

theorem isScalar_replicate (n : Nat) (c : Char) :
    isScalar (List.replicate n (CodePoint.ofChar c)) = true := by
  rw [isScalar, List.all_eq_true]
  intro d hd
  rw [List.eq_of_mem_replicate hd, CodePoint.isSurrogate_ofChar]
  rfl

theorem isScalar_join {separator : Text} (hseparator : separator.isScalar = true) {ts : List Text}
    (hts : ∀ t ∈ ts, t.isScalar = true) : (join separator ts).isScalar = true := by
  induction ts with
  | nil => rfl
  | cons t rest ih =>
      obtain ⟨ht, hrest⟩ := List.forall_mem_cons.mp hts
      cases rest with
      | nil => exact ht
      | cons next others =>
          have hjoin : join separator (t :: next :: others)
              = t ++ separator ++ join separator (next :: others) := rfl
          rw [hjoin, isScalar_append, isScalar_append, ht, hseparator, ih hrest]
          rfl

end Text

theorem Encoding.fault_eq_none_iff {e : Encoding} {t : Text} :
    e.fault? t = none ↔ ∀ c ∈ t, e.covers c = true := by
  unfold Encoding.fault?
  dsimp only
  constructor
  · intro h
    split at h
    · have hrest : t.drop (t.takeWhile e.covers).length = [] := by assumption
      have hwhole : t.takeWhile e.covers = t := by
        have happend := List.take_append_drop (t.takeWhile e.covers).length t
        rw [hrest, List.append_nil] at happend
        exact (List.prefix_iff_eq_take.mp (List.takeWhile_prefix _)).trans happend
      exact List.takeWhile_eq_self_iff.mp hwhole
    · cases h
  · intro h
    rw [List.takeWhile_eq_self_iff.mpr h, List.drop_length]

end TaskContract
