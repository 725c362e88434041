import Mathlib.Algebra.Group.Nat.Defs
import TaskContract.Analysis.Task
import TaskContract.Proofs.Sequence

/-!
# What the analysis of a script comes to

A script has a contract, or it is no module, or one of its calls is outside of every exported
function. Beside these there is one more case: the name of an artifact is spelled with an escape
beyond all code points, which has no value.
-/

namespace TaskContract

namespace Script

/-! ## Escapes without a value -/

theorem digitValue_lt (c : CodePoint) : c.hexValue?.getD 0 < 16 := by
  have hbetween : ∀ {lo hi : Char}, c.isBetween lo hi = true → lo.toNat ≤ c.val ∧ c.val ≤ hi.toNat :=
    fun h => by simpa [CodePoint.isBetween] using h
  have hdecimal : '0'.toNat = 48 ∧ '9'.toNat = 57 := ⟨rfl, rfl⟩
  have hlower : 'a'.toNat = 97 ∧ 'f'.toNat = 102 := ⟨rfl, rfl⟩
  have hupper : 'A'.toNat = 65 ∧ 'F'.toNat = 70 := ⟨rfl, rfl⟩
  unfold CodePoint.hexValue?
  split
  · have := hbetween ‹_›
    rw [Option.getD_some]
    omega
  · split
    · have := hbetween ‹_›
      rw [Option.getD_some]
      omega
    · split
      · have := hbetween ‹_›
        rw [Option.getD_some]
        omega
      · exact Nat.zero_lt_succ 15

theorem hexValue_lt (digits : Text) : hexValue digits < 16 ^ digits.length := by
  have hfold : ∀ (n : Nat), digits.foldl (fun n c => 16 * n + c.hexValue?.getD 0) n
      < (n + 1) * 16 ^ digits.length := by
    induction digits with
    | nil => simp
    | cons c rest ih =>
        intro n
        rw [List.foldl_cons, List.length_cons, Nat.pow_succ]
        calc _ < (16 * n + c.hexValue?.getD 0 + 1) * 16 ^ rest.length := ih _
          _ ≤ (16 * (n + 1)) * 16 ^ rest.length :=
            Nat.mul_le_mul_right _ (by have := digitValue_lt c; omega)
          _ = (n + 1) * (16 ^ rest.length * 16) := by
            rw [Nat.mul_comm 16, Nat.mul_assoc, Nat.mul_comm 16]
  have h := hfold 0
  rwa [Nat.zero_add, Nat.one_mul] at h

structure SpellsBeyond (t front digits rest : Text) : Prop where
  spelled : t = front ++ (Text.ofString "\\u\x7b" ++ digits ++ Text.ofString "\x7d") ++ rest
  hex : digits.all CodePoint.isHexDigit = true
  beyond : 0x10FFFF < hexValue digits

theorem codePoint_eq_error {n : Nat} {e : EscapeError} (h : codePoint n = .error e) :
    0x10FFFF < n := by
  unfold codePoint at h
  split at h
  · cases h
  · omega

theorem bracedDigits_spec {t digits : Text} {size : Nat}
    (h : bracedDigits? t = some (digits, size)) :
    digits.all CodePoint.isHexDigit = true
      ∧ ∃ rest, t = Text.ofString "u\x7b" ++ digits ++ Text.ofString "\x7d" ++ rest := by
  unfold bracedDigits? at h
  split at h
  · rename_i u b rest
    split at h
    · rename_i hopening
      simp only [Bool.and_eq_true, decide_eq_true_eq] at hopening
      obtain ⟨rfl, rfl⟩ := hopening
      dsimp only at h
      split at h
      · rename_i c after hdrop
        split at h
        · rename_i hclosing
          simp only [Bool.and_eq_true, decide_eq_true_eq] at hclosing
          obtain ⟨rfl, -⟩ := hclosing
          obtain ⟨rfl, -⟩ := Prod.mk.inj (Option.some.inj h)
          have hrest := List.prefix_iff_eq_append.mp (List.takeWhile_prefix (l := rest)
            CodePoint.isHexDigit)
          rw [hdrop] at hrest
          refine ⟨List.all_takeWhile, after, ?_⟩
          rw [List.append_assoc, List.append_assoc]
          exact congrArg (Text.ofString "u\x7b" ++ ·) hrest.symm
        · cases h
      · cases h
    · cases h
  · cases h

theorem fixedDigits_spec {t digits : Text} {size : Nat}
    (h : fixedDigits? t = some (digits, size)) : hexValue digits < 0x110000 := by
  have hshort : digits.length ≤ 4 := by
    unfold fixedDigits? at h
    dsimp only at h
    split at h
    · split at h
      · split at h
        · obtain ⟨rfl, -⟩ := Prod.mk.inj (Option.some.inj h)
          exact List.length_take_le 4 _
        · cases h
      · split at h
        · split at h
          · obtain ⟨rfl, -⟩ := Prod.mk.inj (Option.some.inj h)
            exact Nat.le_trans (List.length_take_le 2 _) (by decide)
          · cases h
        · cases h
    · cases h
  calc hexValue digits < 16 ^ digits.length := hexValue_lt digits
    _ ≤ 16 ^ 4 := Nat.pow_le_pow_right (by decide) hshort
    _ ≤ 0x110000 := by decide

/-- An escape without a value is one in braces, beyond all code points. -/
theorem escapeValue_eq_error {t : Text} {e : EscapeError} (h : escapeValue t = .error e) :
    ∃ digits rest, t = Text.ofString "u\x7b" ++ digits ++ Text.ofString "\x7d" ++ rest
      ∧ digits.all CodePoint.isHexDigit = true ∧ 0x10FFFF < hexValue digits := by
  unfold escapeValue at h
  split at h
  · rename_i digits size hbraced
    obtain ⟨hhex, rest, hspelled⟩ := bracedDigits_spec hbraced
    refine ⟨digits, rest, hspelled, hhex, ?_⟩
    cases hvalue : codePoint (hexValue digits) with
    | error e => exact codePoint_eq_error hvalue
    | ok c =>
        rw [hvalue] at h
        cases h
  · split at h
    · rename_i digits size hfixed
      cases hvalue : codePoint (hexValue digits) with
      | error e =>
          have hbeyond := codePoint_eq_error hvalue
          have hwithin := fixedDigits_spec hfixed
          omega
      | ok c =>
          rw [hvalue] at h
          cases h
    · split at h
      · cases h
      · split at h <;> cases h

theorem SpellsBeyond.cons {t front digits rest : Text} (h : SpellsBeyond t front digits rest)
    (c : CodePoint) : SpellsBeyond (c :: t) (c :: front) digits rest :=
  ⟨congrArg (c :: ·) h.spelled, h.hex, h.beyond⟩

/-- A text without a value spells an escape beyond all code points. -/
theorem unescapeFrom_eq_error {skip : Nat} {t : Text} {e : EscapeError}
    (h : unescapeFrom skip t = .error e) :
    ∃ front digits rest, SpellsBeyond t front digits rest := by
  induction t generalizing skip with
  | nil => cases skip <;> cases h
  | cons c t ih =>
      have hlater : ∀ {skip}, unescapeFrom skip t = .error e →
          ∃ front digits rest, SpellsBeyond (c :: t) front digits rest := by
        intro skip hskip
        obtain ⟨front, digits, rest, hbeyond⟩ := ih hskip
        exact ⟨c :: front, digits, rest, hbeyond.cons c⟩
      cases skip with
      | succ skip => exact hlater h
      | zero =>
          rw [unescapeFrom] at h
          split at h
          · rename_i hbackslash
            rcases bind_eq_error_iff.mp h with hvalue | ⟨value, _, h⟩
            · obtain ⟨digits, rest, hspelled, hhex, hbeyond⟩ := escapeValue_eq_error hvalue
              refine ⟨[], digits, rest, ?_, hhex, hbeyond⟩
              rw [hbackslash, hspelled]
              rfl
            · rcases bind_eq_error_iff.mp h with hmore | ⟨_, _, hreturn⟩
              · exact hlater hmore
              · cases hreturn
          · rcases bind_eq_error_iff.mp h with hmore | ⟨_, _, hreturn⟩
            · exact hlater hmore
            · cases hreturn

end Script

namespace Analysis

open Script Script.Node

/-! ## Names without a value -/

theorem literalText_eq_error {s : Source} {n : Node} {e : EscapeError}
    (h : literalText? s n = .error e) : (n.kind = .string ∨ n.kind = .templateString)
      ∧ ∃ front digits rest, SpellsBeyond (innerText s n) front digits rest := by
  have hvalue : ∀ {t : Text}, (unescape t).map some = .error e →
      ∃ front digits rest, SpellsBeyond t front digits rest := by
    intro t ht
    cases hunescape : unescape t with
    | error e' => exact unescapeFrom_eq_error hunescape
    | ok value =>
        rw [hunescape] at ht
        cases ht
  unfold literalText? at h
  split at h
  · rename_i hkind
    exact ⟨Or.inl hkind, hvalue h⟩
  · rename_i hkind
    split at h
    · cases h
    · exact ⟨Or.inr hkind, hvalue h⟩
  · cases h

/-- A call of a method of `io` in an exported function names its artifact by a literal that spells
an escape beyond all code points. -/
structure NamesBeyond (s : Source) (root : Node) (method : Text) (o : Occurrence) (argument : Node) :
    Prop where
  call : o ∈ artifactCalls s root method
  stage : (stageOf? s o).isSome = true
  first : (callArguments o.node).head? = some argument
  literal : argument.kind = .string ∨ argument.kind = .templateString
  beyond : ∃ front digits rest, SpellsBeyond (innerText s argument) front digits rest

/-- A call that cannot be read is outside of every exported function, or it names its artifact by a
literal without a value. -/
theorem artifactCall_eq_error {s : Source} {root : Node} {method : Text} {o : Occurrence}
    (ho : o ∈ artifactCalls s root method) {e : CallError} (h : artifactCall s method o = .error e) :
    (∃ name location, e = .outsideStage name location)
      ∨ ∃ cause argument, e = .escape cause ∧ NamesBeyond s root method o argument := by
  unfold artifactCall at h
  cases hstage : stageOf? s o with
  | none =>
      rw [hstage] at h
      exact Or.inl ⟨_, _, (Except.error.inj h).symm⟩
  | some stage =>
      rw [hstage] at h
      dsimp only at h
      cases hfirst : (callArguments o.node).head? with
      | none =>
          rw [hfirst] at h
          cases h
      | some argument =>
          rw [hfirst, Option.elim_some] at h
          split at h
          · rename_i cause hliteral
            obtain ⟨hkind, hbeyond⟩ := literalText_eq_error hliteral
            have hstaged : (stageOf? s o).isSome = true := by rw [hstage]; rfl
            exact Or.inr ⟨cause, argument, (Except.error.inj h).symm, ho, hstaged, hfirst, hkind,
              hbeyond⟩
          · cases h

section

variable {s : Source} {root : Node} {e : CallError}

/-- What keeps a script from having a contract, as soon as it is a module. -/
def IsCause (s : Source) (root : Node) (e : CallError) : Prop :=
  (∃ name location, e = .outsideStage name location)
    ∨ ∃ cause method o argument, e = .escape cause
      ∧ (method = readMethod ∨ method = writeMethod) ∧ NamesBeyond s root method o argument

theorem mapM_artifactCall_eq_error {method : Text}
    (hmethod : method = readMethod ∨ method = writeMethod)
    (h : (artifactCalls s root method).mapM (artifactCall s method) = .error e) :
    IsCause s root e := by
  obtain ⟨before, o, after, hcalls, -, herror⟩ := mapM_eq_error_iff.mp h
  have ho : o ∈ artifactCalls s root method := by
    rw [hcalls]
    exact List.mem_append_right _ List.mem_cons_self
  rcases artifactCall_eq_error ho herror with houtside | ⟨cause, argument, hescape, hnames⟩
  · exact Or.inl houtside
  · exact Or.inr ⟨cause, method, o, argument, hescape, hmethod, hnames⟩

theorem artifactReads_eq_error (h : artifactReads s root = .error e) : IsCause s root e := by
  rcases bind_eq_error_iff.mp h with h | ⟨_, _, hreturn⟩
  · exact mapM_artifactCall_eq_error (Or.inl rfl) h
  · cases hreturn

theorem artifactWrites_eq_error (h : artifactWrites s root = .error e) : IsCause s root e := by
  rcases bind_eq_error_iff.mp h with h | ⟨_, _, hreturn⟩
  · exact mapM_artifactCall_eq_error (Or.inr rfl) h
  · cases hreturn

/-- A model call can only be outside of every exported function. -/
theorem modelCalls_eq_error (h : modelCalls s root = .error e) : IsCause s root e := by
  obtain ⟨_, ⟨o, provider, method⟩, _, -, -, herror⟩ := mapM_eq_error_iff.mp h
  dsimp only at herror
  split at herror
  · cases herror
  · exact Or.inl ⟨_, _, (Except.error.inj herror).symm⟩

theorem contractOf_eq_error (h : contractOf s root = .error e) : IsCause s root e := by
  rcases bind_eq_error_iff.mp h with h | ⟨_, _, h⟩
  · exact artifactReads_eq_error h
  · rcases bind_eq_error_iff.mp h with h | ⟨_, _, h⟩
    · exact artifactWrites_eq_error h
    · rcases bind_eq_error_iff.mp h with h | ⟨_, _, hreturn⟩
      · exact modelCalls_eq_error h
      · cases hreturn

end

end Analysis

/-! ## The outcome -/

open Script Analysis

/-- What the analysis of a script comes to: a contract, an explained error, or an escape without a
value in the name of an artifact. -/
inductive IsOutcome (s : Source) : Except AnalysisError Contract → Prop where
  | contract (c : Contract) : IsOutcome s (.ok c)
  | malformed (e : ParseError) : IsOutcome s (.error (.parse e))
  | outside (name : Text) (location : Location) :
      IsOutcome s (.error (.call (.outsideStage name location)))
  | beyond (cause : EscapeError) {root : Node} {method : Text} {o : Occurrence} {argument : Node}
      (parsed : parse s = .ok root) (known : method = readMethod ∨ method = writeMethod)
      (names : NamesBeyond s root method o argument) : IsOutcome s (.error (.call (.escape cause)))

theorem analyzeTask_outcome (s : Source) : IsOutcome s (analyzeTask s) := by
  unfold analyzeTask
  cases hparse : parse s with
  | error e => exact .malformed e
  | ok root =>
      dsimp only
      cases hcontract : contractOf s root with
      | ok c => exact .contract c
      | error e =>
          rcases contractOf_eq_error hcontract with
            ⟨name, location, rfl⟩ | ⟨cause, method, o, argument, rfl, hmethod, hnames⟩
          · exact .outside name location
          · exact .beyond cause hparse hmethod hnames

end TaskContract
