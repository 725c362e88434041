import Mathlib.Data.List.Induction
import TaskContract.Proofs.Json.RoundTrip
import TaskContract.Proofs.Sequence

/-!
# What is read is readable

A value that is read from a text is one that is read back when it is written: the reader refuses
integers of too many digits, it rounds decimals to numbers of the format, and it sets a member that
is named twice in its first place.
-/

namespace TaskContract

/-! ## Numbers -/

/-- Digits make a number that is written with no more of them. -/
theorem Text.digitsValue_lt {t : Text} (h : t.AreDigits) : t.digitsValue < tenTo t.length := by
  induction t using List.reverseRecOn with
  | nil => exact Nat.one_pos
  | append_singleton front c ih =>
      obtain ⟨hfront, hc⟩ := areDigits_append.mp h
      have hdigit := hc c (List.mem_singleton_self c)
      rw [CodePoint.isDigit, CodePoint.isBetween, Bool.and_eq_true, decide_eq_true_iff,
        decide_eq_true_iff] at hdigit
      have hlast : digitsValue [c] ≤ 9 := by
        show 10 * 0 + (c.val - '0'.toNat) ≤ 9
        have hnine : '9'.toNat - '0'.toNat = 9 := rfl
        omega
      have hrest := ih hfront
      rw [digitsValue_append, List.length_append, tenTo_add]
      show digitsValue front * 10 + digitsValue [c] < tenTo front.length * 10
      omega

namespace Json

theorem digitCount_digitsValue {ds : Text} (h : ds.AreDigits) (hne : ds ≠ []) :
    (Text.ofNat ds.digitsValue).length ≤ ds.length := by
  rw [Text.ofNat, Text.ofString, List.length_map, String.length_toList]
  exact Nat.repr_length _ _ (List.length_pos_iff.mpr hne) (Text.digitsValue_lt h)

theorem areDigits_of_whole {t ds rest : Text} (h : whole? t = some (ds, rest)) :
    ds.AreDigits ∧ ds ≠ [] := by
  cases t with
  | nil => cases h
  | cons c t =>
      rw [whole?] at h
      split at h
      · obtain ⟨rfl, -⟩ := Prod.mk.inj (Option.some.inj h)
        rename_i hzero
        subst hzero
        exact ⟨by decide, List.cons_ne_nil _ _⟩
      · split at h
        · rename_i hdigit
          rw [List.span_eq_takeWhile_dropWhile] at h
          obtain ⟨rfl, -⟩ := Prod.mk.inj (Option.some.inj h)
          refine ⟨fun d hd => List.mem_takeWhile_imp hd, ?_⟩
          rw [List.takeWhile_cons_of_pos hdigit]
          exact List.cons_ne_nil _ _
        · cases h

theorem isReadable_of_readNumber {t after : Text} {v : Json} (h : readNumber t = .ok (v, after)) :
    v.isReadable = true := by
  unfold readNumber at h
  dsimp only at h
  split at h
  · cases h
  · rename_i ds rest hwhole
    obtain ⟨hdigits, hne⟩ := areDigits_of_whole hwhole
    split at h
    · split at h
      · cases h
      · rename_i hlimit
        obtain ⟨rfl, -⟩ := Prod.mk.inj (Except.ok.inj h)
        have hcount := digitCount_digitsValue hdigits hne
        -- the sign does not count
        have habs : ∀ negative : Bool, (if negative then -(ds.digitsValue : Int)
            else ds.digitsValue).natAbs = ds.digitsValue := by
          intro negative
          cases negative
          · exact Int.natAbs_natCast _
          · exact (Int.natAbs_neg _).trans (Int.natAbs_natCast _)
        refine decide_eq_true ?_
        rw [digitCount, habs]
        omega
    · obtain ⟨rfl, -⟩ := Prod.mk.inj (Except.ok.inj h)
      exact Binary64.isCanonical_ofDecimal _ _ _

/-! ## Members -/

theorem has_insert (name : Text) (v : Json) (ms : Members) (other : Text) :
    Members.has other (Members.insert name v ms)
      = (decide (name = other) || Members.has other ms) := by
  induction ms with
  | nil =>
      rw [Members.insert, Members.has, Members.get?]
      by_cases hname : name = other
      · rw [if_pos hname, decide_eq_true hname]
        rfl
      · rw [if_neg hname, decide_eq_false hname]
        rfl
  | cons m rest ih =>
      obtain ⟨k, w⟩ := m
      rw [Members.insert]
      split
      · rename_i hk
        subst hk
        rw [Members.has, Members.has, Members.get?, Members.get?]
        by_cases hname : k = other
        · rw [if_pos hname, if_pos hname, decide_eq_true hname]
          rfl
        · rw [if_neg hname, if_neg hname, decide_eq_false hname]
          rfl
      · rw [Members.has] at ih ⊢
        rw [Members.has] at ih ⊢
        rw [Members.get?, Members.get?]
        split
        · rw [Option.isSome_some, Bool.or_true]
        · exact ih

theorem areReadable_insert {name : Text} {v : Json} {ms : Members} (hv : v.isReadable = true)
    (hms : areReadableMembers ms = true) : areReadableMembers (Members.insert name v ms) = true := by
  induction ms with
  | nil =>
      rw [Members.insert, areReadableMembers, hv]
      rfl
  | cons m rest ih =>
      obtain ⟨k, w⟩ := m
      simp only [areReadableMembers, Bool.and_eq_true] at hms
      obtain ⟨⟨hnew, hw⟩, hrest⟩ := hms
      rw [Members.insert]
      split
      · rw [areReadableMembers, hnew, hv, hrest]
        rfl
      · rename_i hk
        rw [areReadableMembers, has_insert, decide_eq_false (Ne.symm hk), Bool.false_or, hnew, hw,
          ih hrest]
        rfl

/-! ## Values -/

theorem areReadable_iff {items : List Json} :
    areReadable items = true ↔ ∀ v ∈ items, v.isReadable = true := by
  induction items with
  | nil => exact ⟨fun _ => List.forall_mem_nil _, fun _ => rfl⟩
  | cons v rest ih => rw [areReadable, Bool.and_eq_true, ih, List.forall_mem_cons]

theorem isReadable_of_word {t after : Text} {v : Json} (h : word? t = some (v, after)) :
    v.isReadable = true := by
  have hwords : ∀ w ∈ words, w.2.isReadable = true := by
    simp [words, isReadable, Binary64.isCanonical]
  obtain ⟨⟨w, u⟩, hmem, hw⟩ := List.exists_of_findSome?_eq_some h
  obtain ⟨rest, -, heq⟩ := Option.map_eq_some_iff.mp hw
  rw [← (Prod.mk.inj heq).1]
  exact hwords _ hmem

def GivesReadable (r : Except Stop (Json × Text)) : Prop :=
  ∀ v after, r = .ok (v, after) → v.isReadable = true

section

variable {fuel : Nat}

theorem readValue_step (hitems : ∀ t, GivesReadable (readItems fuel [] t))
    (hmembers : ∀ t, GivesReadable (readMembers fuel [] t)) (t : Text) :
    GivesReadable (readValue (fuel + 1) t) := by
  intro v after h
  cases t with
  | nil => cases h
  | cons c rest =>
      rw [readValue] at h
      split at h
      · obtain ⟨⟨s, after'⟩, -, hs⟩ := bind_eq_ok_iff.mp h
        obtain ⟨rfl, -⟩ := Prod.mk.inj (Except.ok.inj hs)
        rfl
      · split at h
        · split at h
          · cases h
          · split at h
            · obtain ⟨rfl, -⟩ := Prod.mk.inj (Except.ok.inj h)
              rfl
            · exact hmembers _ v after h
        · split at h
          · split at h
            · cases h
            · split at h
              · obtain ⟨rfl, -⟩ := Prod.mk.inj (Except.ok.inj h)
                rfl
              · exact hitems _ v after h
          · split at h
            · rename_i hword
              exact isReadable_of_word (hword.trans (congrArg some (Except.ok.inj h)))
            · exact isReadable_of_readNumber h

variable (hvalue : ∀ t, GivesReadable (readValue fuel t))

include hvalue

theorem readItems_step
    (hitems : ∀ items t, areReadable items = true → GivesReadable (readItems fuel items t))
    {items : List Json} (hread : areReadable items = true) (t : Text) :
    GivesReadable (readItems (fuel + 1) items t) := by
  intro v after h
  rw [readItems] at h
  obtain ⟨⟨w, after'⟩, hw, hrest⟩ := bind_eq_ok_iff.mp h
  have hmore : areReadable (w :: items) = true :=
    Bool.and_eq_true_iff.mpr ⟨hvalue _ _ _ hw, hread⟩
  dsimp only at hrest
  split at hrest
  · cases hrest
  · split at hrest
    · obtain ⟨rfl, -⟩ := Prod.mk.inj (Except.ok.inj hrest)
      rw [isReadable, areReadable_iff]
      rw [areReadable_iff] at hmore
      exact fun x hx => hmore x (List.mem_reverse.mp hx)
    · split at hrest
      · exact hitems _ _ hmore v after hrest
      · cases hrest

theorem readMembers_step
    (hmembers : ∀ ms t, areReadableMembers ms = true → GivesReadable (readMembers fuel ms t))
    {ms : Members} (hread : areReadableMembers ms = true) (t : Text) :
    GivesReadable (readMembers (fuel + 1) ms t) := by
  intro v after h
  cases t with
  | nil => cases h
  | cons q body =>
      rw [readMembers] at h
      split at h
      · obtain ⟨⟨name, after'⟩, -, hname⟩ := bind_eq_ok_iff.mp h
        dsimp only at hname
        split at hname
        · cases hname
        · split at hname
          · obtain ⟨⟨w, after''⟩, hw, hrest⟩ := bind_eq_ok_iff.mp hname
            have hmore : areReadableMembers (Members.insert name w ms) = true :=
              areReadable_insert (hvalue _ _ _ hw) hread
            dsimp only at hrest
            split at hrest
            · cases hrest
            · split at hrest
              · obtain ⟨rfl, -⟩ := Prod.mk.inj (Except.ok.inj hrest)
                exact hmore
              · split at hrest
                · exact hmembers _ _ hmore v after hrest
                · cases hrest
          · cases hname
      · cases h

end

/-- The reader gives readable values, by induction on its fuel: the items and the members that have
been read so far are readable as well. -/
theorem readers_giveReadable (fuel : Nat) :
    (∀ t, GivesReadable (readValue fuel t))
      ∧ (∀ items t, areReadable items = true → GivesReadable (readItems fuel items t))
      ∧ ∀ ms t, areReadableMembers ms = true → GivesReadable (readMembers fuel ms t) := by
  induction fuel with
  | zero => exact ⟨fun _ => nofun, fun _ _ _ => nofun, fun _ _ _ => nofun⟩
  | succ fuel ih =>
      obtain ⟨hvalue, hitems, hmembers⟩ := ih
      exact ⟨readValue_step (fun t => hitems [] t rfl) fun t => hmembers [] t rfl,
        fun _ t hread => readItems_step hvalue hitems hread t,
        fun _ t hread => readMembers_step hvalue hmembers hread t⟩

theorem isReadable_of_readDecoded {t : Text} {v : Json} (h : readDecoded t = .ok v) :
    v.isReadable = true := by
  unfold readDecoded at h
  dsimp only at h
  split at h
  · cases h
  · rename_i w after hvalue
    split at h
    · obtain rfl := Except.ok.inj h
      exact (readers_giveReadable _).1 _ _ _ hvalue
    · cases h

/-- **What is read is readable.** -/
theorem isReadable_of_read {t : Text} {v : Json} (h : read t = .ok v) : v.isReadable = true := by
  rw [read] at h
  split at h
  · cases h
  · exact isReadable_of_readDecoded h

theorem isReadable_get {ms : Members} {name : Text} {v : Json}
    (hms : areReadableMembers ms = true) (h : Members.get? name ms = some v) :
    v.isReadable = true := by
  induction ms with
  | nil => cases h
  | cons m rest ih =>
      obtain ⟨k, w⟩ := m
      simp only [areReadableMembers, Bool.and_eq_true] at hms
      rw [Members.get?] at h
      split at h
      · obtain rfl := Option.some.inj h
        exact hms.1.2
      · exact ih hms.2 h

theorem isReadable_of_get {v w : Json} {name : String} (hv : v.isReadable = true)
    (h : v.get? name = some w) : w.isReadable = true := by
  cases v with
  | obj ms => exact isReadable_get hv h
  | _ => cases h

end Json

end TaskContract
