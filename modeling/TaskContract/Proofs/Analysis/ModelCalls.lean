import TaskContract.Proofs.Analysis.Aliases
import TaskContract.Proofs.Analysis.Origin

/-!
# Calls by an alias

A call `name.method(...)` is a model call if the name stands for a provider. Every model call of an
accepted script has one entry in the contract, in the order of the calls.

- `AreEntriesOf`, `modelCalls_entries`: the entries of a contract and the calls that they are of.
- `alias_calls_are_reported`: a name that is taken from `llm` is an alias unless a later property
  binds it again, and its calls are reported.
- `last_destructuring_decides`: of all the destructurings of a name the last one in the script says
  what its calls are reported as, in whatever function they are.
-/

namespace TaskContract.Analysis

open Script Script.Node

/-! ## Calls by a name -/

structure CallsMember (s : Source) (n : Node) (name method : Text) : Prop where
  kind : n.kind = .callExpression
  callee : ∃ f o m, n.child? .function = some f ∧ f.kind = .memberExpression
    ∧ f.child? .object = some o ∧ o.kind = .identifier ∧ s.nodeText o = name
    ∧ f.child? .property = some m ∧ m.kind = .propertyIdentifier ∧ s.nodeText m = method

theorem callsMember_iff {s : Source} {n : Node} {name method : Text} :
    CallsMember s n name method
      ↔ ((calledMember? s n).any fun c => isName s name c.1 && c.2 = method) = true := by
  constructor
  · rintro ⟨hkind, f, o, m, hf, hmember, ho, hident, rfl, hm, hproperty, rfl⟩
    simp [calledMember?, memberParts?, isName, hkind, hf, hmember, ho, hident, hm, hproperty]
  · intro h
    obtain ⟨⟨o, text⟩, hcalled, hname⟩ := (Option.any_eq_true _ _).mp h
    simp only [isName, Bool.and_eq_true, decide_eq_true_eq] at hname
    obtain ⟨⟨hident, htext⟩, rfl⟩ := hname
    have hkind := calledMember_kind hcalled
    rw [calledMember?, if_neg (not_not.mpr hkind), Option.bind_eq_bind,
      Option.bind_eq_some_iff] at hcalled
    obtain ⟨f, hf, hparts⟩ := hcalled
    rw [memberParts?] at hparts
    split_ifs at hparts with hmember
    simp only [Option.bind_eq_bind, Option.bind_eq_some_iff, Option.ite_none_right_eq_some,
      Option.some.injEq, Prod.mk.injEq] at hparts
    obtain ⟨object, ho, m, hm, hproperty, rfl, rfl⟩ := hparts
    exact ⟨hkind, f, object, m, hf, not_not.mp hmember, ho, hident, htext, hm, hproperty, rfl⟩

instance {s : Source} {n : Node} {name method : Text} : Decidable (CallsMember s n name method) :=
  decidable_of_iff _ callsMember_iff.symm

/-- What a call by a name is depends on what the name stands for alone. -/
theorem CallsMember.modelCall_eq {s : Source} {n : Node} {name method key : Text}
    {known : List Alias} (h : CallsMember s n name method) (hkey : known.lookup name = some key) :
    modelCall? s known n = some (key, method) := by
  obtain ⟨hkind, f, o, m, hf, hmember, ho, hident, rfl, hm, hproperty, rfl⟩ := h
  have hcalled : calledMember? s n = some (o, s.nodeText m) := by
    simp [calledMember?, memberParts?, hkind, hf, hmember, ho, hm, hproperty]
  have hparts : memberParts? s o = none := by simp [memberParts?, hident]
  simp [modelCall?, hcalled, provider?, hparts, hident, hkey]

/-! ## Entries -/

structure IsEntryOf (s : Source) (root : Node) (o : Occurrence) (entry : ModelCall) : Prop where
  call : modelCall? s (aliases s root) o.node = some (entry.provider, entry.method)
  stage : stageOf? s o = some entry.stage

/-- The entries are those of the model calls among some nodes: one for each, in the same order. -/
def AreEntriesOf (s : Source) (root : Node) (os : List Occurrence) (entries : List ModelCall) :
    Prop :=
  List.Forall₂ (IsEntryOf s root)
    (os.filter fun o => (modelCall? s (aliases s root) o.node).isSome) entries

/-- A node has one entry, which has its place between those of the calls before and behind it. -/
def HasOneEntry (s : Source) (root : Node) (entries : List ModelCall) (o : Occurrence)
    (provider method : Text) : Prop :=
  ∀ before after, root.occurrences = before ++ o :: after → ∃ earlier stage later,
    entries = earlier ++ { provider, method, stage } :: later ∧ stageOf? s o = some stage
      ∧ AreEntriesOf s root before earlier ∧ AreEntriesOf s root after later

section

variable {s : Source} {root : Node}

theorem modelCalls_entries {found : List ModelCall} (h : modelCalls s root = .ok found) :
    AreEntriesOf s root root.occurrences found := by
  rw [modelCalls] at h
  -- the list that is read holds each node with the call that it makes; here it is the nodes alone
  have hpaired := forall₂_filterMap_left (mapM_eq_ok_iff.mp h)
  have hcalls : (fun o : Occurrence => ((modelCall? s (aliases s root) o.node).map
      fun c => (o, c)).isSome) = fun o => (modelCall? s (aliases s root) o.node).isSome := by
    funext o
    rw [Option.isSome_map]
  rw [hcalls] at hpaired
  refine hpaired.imp ?_
  rintro o entry ⟨_, hcall, hentry⟩
  obtain ⟨⟨provider, method⟩, hmodel, rfl⟩ := Option.map_eq_some_iff.mp hcall
  dsimp only at hentry
  split at hentry
  · rename_i stage hstage
    obtain rfl := Except.ok.inj hentry
    exact ⟨hmodel, hstage⟩
  · cases hentry

theorem AreEntriesOf.hasOneEntry {entries : List ModelCall} {o : Occurrence}
    {provider method : Text} (h : AreEntriesOf s root root.occurrences entries)
    (hcall : modelCall? s (aliases s root) o.node = some (provider, method)) :
    HasOneEntry s root entries o provider method := by
  intro before after hsplit
  rw [AreEntriesOf, hsplit, List.filter_append, List.filter_cons_of_pos (by simp [hcall])] at h
  obtain ⟨earlier, ⟨provider', method', stage⟩, later, hentries, hearlier, hentry, hlater⟩ :=
    forall₂_split_left h
  obtain ⟨rfl, rfl⟩ := Prod.mk.inj (Option.some.inj (hcall.symm.trans hentry.call))
  exact ⟨earlier, stage, later, hentries, hentry.stage, hearlier, hlater⟩

/-- The calls by an alias have their entries in the contract. -/
theorem hasOneEntry_of_lookup {contract : Contract} {o : Occurrence} {name method key : Text}
    (hparse : parse s = .ok root) (hcontract : analyzeTask s = .ok contract)
    (hkey : (aliases s root).lookup name = some key) (hcall : CallsMember s o.node name method) :
    HasOneEntry s root contract.models o key method := by
  obtain ⟨root', _, _, hparse', _, _, hmodels, _⟩ := analyzeTask_spec hcontract
  obtain rfl := Except.ok.inj (hparse.symm.trans hparse')
  exact (modelCalls_entries hmodels).hasOneEntry (hcall.modelCall_eq hkey)

end

/-! ## Names taken from `llm` -/

/-- **A name that is taken from `llm` is an alias, and its calls are reported.** Where a declared
variable takes `llm` apart, a property that binds a plain name under a plain key, in one of the
forms `p`, `p = default` and `p: local`, makes the name stand for the key, unless one that is visited
later binds the name again; and this is the only way in which a name comes to stand for a key. (The
form `p: local = default` does neither.) Every call of such a name in an accepted script has one
entry with the key as the provider, at its place in the order of the calls. -/
theorem alias_calls_are_reported (s : Source) (root : Node) (hparse : parse s = .ok root)
    (name key : Text) :
    ((aliases s root).lookup name = some key ↔ ∃ n p later, TakesApart s root n p later
      ∧ Binds s p name key ∧ ¬IsRenamedDefault p
      ∧ ∀ q ∈ later, ∀ k, Binds s q name k → IsRenamedDefault q)
    ∧ ((aliases s root).lookup name = some key →
      ∀ contract, analyzeTask s = .ok contract → ∀ o ∈ root.occurrences, ∀ method,
        CallsMember s o.node name method → HasOneEntry s root contract.models o key method) := by
  constructor
  · rw [lookup_aliases_iff]
    constructor
    · rintro ⟨front, p, later, hsplit, hbinds, hform, hlater⟩
      obtain ⟨n, _, htaken⟩ := exists_takesApart front hsplit
      exact ⟨n, p, later, htaken, hbinds, hform, hlater⟩
    · rintro ⟨n, p, later, htaken, hbinds, hform, hlater⟩
      obtain ⟨front, hsplit⟩ := htaken.split
      exact ⟨front, p, later, hsplit, hbinds, hform, hlater⟩
  · intro hkey contract hcontract o _ method hcall
    exact hasOneEntry_of_lookup hparse hcontract hkey hcall

/-- A provider with a new name, next to one with a default. -/
def twoProviders : Source :=
  { chars := "export const f=(\x7bllm\x7d)=>\x7bconst \x7bx:a,y=1\x7d=llm;a.m()\x7d".toList }

set_option maxRecDepth 100000 in
theorem twoProviders_found : ((parse twoProviders).toOption.any fun root =>
    (destructured twoProviders root).map (propertyAlias? twoProviders)
        = [some (Text.ofString "a", Text.ofString "x"), some (Text.ofString "y", Text.ofString "y")]
      && (root.occurrences.any fun o =>
        decide (CallsMember twoProviders o.node (Text.ofString "a") (Text.ofString "m")))
      && ((analyzeTask twoProviders).toOption.any fun contract =>
        contract.models.length = 1)) = true := by
  decide +kernel

theorem twoProviders_reported : ∃ root contract, parse twoProviders = .ok root
    ∧ analyzeTask twoProviders = .ok contract
    ∧ (aliases twoProviders root).lookup (Text.ofString "a") = some (Text.ofString "x")
    ∧ ∃ o ∈ root.occurrences,
      CallsMember twoProviders o.node (Text.ofString "a") (Text.ofString "m")
        ∧ HasOneEntry twoProviders root contract.models o (Text.ofString "x")
          (Text.ofString "m") := by
  obtain ⟨root, hparse, hfound⟩ := exists_ok_of_any twoProviders_found
  simp only [Bool.and_eq_true, decide_eq_true_eq, List.any_eq_true, List.map_eq_cons_iff,
    List.map_eq_nil_iff] at hfound
  obtain ⟨⟨⟨p, _, hsplit, hp, q, _, rfl, hq, rfl⟩, o, ho, hcall⟩, hanalyzed⟩ := hfound
  obtain ⟨contract, hcontract, _⟩ := exists_ok_of_any hanalyzed
  obtain ⟨n, _, htaken⟩ := exists_takesApart [] hsplit
  obtain ⟨hbinds, hform⟩ := propertyAlias_eq_some_iff.mp hp
  obtain ⟨halias, hentries⟩ := alias_calls_are_reported twoProviders root hparse
    (Text.ofString "a") (Text.ofString "x")
  have hkey := halias.mpr ⟨n, p, [q], htaken, hbinds, hform, ?later⟩
  case later =>
    intro r hr k hk
    obtain rfl := List.mem_singleton.mp hr
    have hagain := propertyAlias_eq_some_iff.mpr ⟨hk, (propertyAlias_eq_some_iff.mp hq).2⟩
    have hnames : Text.ofString "a" = Text.ofString "y" :=
      congrArg Prod.fst (Option.some.inj (hagain.symm.trans hq))
    exact absurd hnames (by decide)
  exact ⟨root, contract, hparse, hcontract, hkey, o, ho, hcall,
    hentries hkey contract hcontract o ho _ hcall⟩

/-! ## The last destructuring -/

def exported (s : Source) (root : Node) : List ExportedFunction :=
  (root.preorder.filter isNamedExport).flatMap (exportedFunctions s)

theorem mem_preorder_of_exported {s : Source} {root : Node} {f : ExportedFunction}
    (h : f ∈ exported s root) : f.function ∈ root.preorder := by
  obtain ⟨e, he, hf⟩ := List.mem_flatMap.mp h
  have hmem : e ∈ root.preorder := (List.mem_filter.mp he).1
  cases declares_of_mem hf with
  | declaration hchild => exact mem_preorder_of_child hmem hchild
  | value hd _ hv _ hchild =>
      exact mem_preorder_of_child (mem_preorder_of_child (mem_preorder_of_child hmem hd) hv) hchild

/-- **The last destructuring of a name decides.** If an exported function takes a name from `llm`,
then there is a last property in the script that binds the name, in this function or in another one.
Unless that gives a new name and a default at once, every call of the name in the function has one
entry with the key of the last property as the provider. It is the key of the function's own
property if every property that is visited later, in the function and behind it, binds the name
under this key. -/
theorem last_destructuring_decides (s : Source) (root : Node) (contract : Contract)
    (hparse : parse s = .ok root) (hcontract : analyzeTask s = .ok contract) {f : ExportedFunction}
    (hf : f ∈ exported s root) {n p : Node} {inner : List Node}
    (hp : TakesApart s f.function n p inner) {name key : Text} (hbinds : Binds s p name key) :
    ∃ outer q provider, TakesApart s root n p (inner ++ outer)
      ∧ IsLastBinding s root q name provider
      ∧ (¬IsRenamedDefault q → ∀ o ∈ root.occurrences, o.node ∈ f.function.preorder → ∀ method,
        CallsMember s o.node name method → HasOneEntry s root contract.models o provider method)
      ∧ ((∀ r ∈ inner ++ outer, ∀ k, Binds s r name k → k = key) → provider = key) := by
  obtain ⟨outer, hroot⟩ := hp.of_mem (mem_preorder_of_exported hf)
  obtain ⟨q, provider, hlast, hsame⟩ := hroot.exists_isLastBinding hbinds
  refine ⟨outer, q, provider, hroot, hlast, ?_, hsame⟩
  intro hform o _ _ method hcall
  exact hasOneEntry_of_lookup hparse hcontract (hlast.lookup_eq hform) hcall

/-- Two functions that take different providers by one name. -/
def sharedName : Source :=
  { chars := ("export const a=(\x7bllm\x7d)=>\x7bconst \x7bx:c\x7d=llm;c.m()\x7d;"
      ++ "export const b=(\x7bllm\x7d)=>\x7bconst \x7by:c\x7d=llm;c.m()\x7d").toList }

set_option maxRecDepth 100000 in
theorem sharedName_found : ((parse sharedName).toOption.any fun root =>
    (destructured sharedName root).map (propertyAlias? sharedName)
        = [some (Text.ofString "c", Text.ofString "x"), some (Text.ofString "c", Text.ofString "y")]
      && ((analyzeTask sharedName).toOption.any fun contract =>
        contract.models.all fun entry => entry.provider = Text.ofString "y")
      && (exported sharedName root).any fun f => f.name = Text.ofString "a"
        && (destructured sharedName f.function).map (propertyAlias? sharedName)
          = [some (Text.ofString "c", Text.ofString "x")]
        && f.function.preorder.countP (fun n => sharedName.nodeText n = Text.ofString "c") = 2
        && f.function.preorder.any fun n =>
          decide (CallsMember sharedName n (Text.ofString "c") (Text.ofString "m"))) = true := by
  decide +kernel

/-- What is found in the script with a shared name: the first function takes `x` by the name and
binds it in no other way, and it calls the name; all calls are reported with `y`. -/
theorem sharedName_spec : ∃ root contract, parse sharedName = .ok root
    ∧ analyzeTask sharedName = .ok contract
    ∧ (∃ p q, destructured sharedName root = [p, q]
      ∧ propertyAlias? sharedName p = some (Text.ofString "c", Text.ofString "x")
      ∧ propertyAlias? sharedName q = some (Text.ofString "c", Text.ofString "y"))
    ∧ (∀ entry ∈ contract.models, entry.provider = Text.ofString "y")
    ∧ ∃ f ∈ exported sharedName root, f.name = Text.ofString "a"
      ∧ (∃ p, destructured sharedName f.function = [p]
        ∧ propertyAlias? sharedName p = some (Text.ofString "c", Text.ofString "x"))
      ∧ f.function.preorder.countP (fun n => sharedName.nodeText n = Text.ofString "c") = 2
      ∧ ∃ n ∈ f.function.preorder,
        CallsMember sharedName n (Text.ofString "c") (Text.ofString "m") := by
  obtain ⟨root, hparse, hfound⟩ := exists_ok_of_any sharedName_found
  simp only [Bool.and_eq_true, decide_eq_true_eq, List.any_eq_true, List.map_eq_cons_iff,
    List.map_eq_nil_iff] at hfound
  obtain ⟨⟨⟨p, _, hall, hp, q, _, rfl, hq, rfl⟩, hanalyzed⟩, f, hf, ⟨⟨hname, p', _, hown, hp', rfl⟩,
    htwice⟩, hcalled⟩ := hfound
  obtain ⟨contract, hcontract, hmodels⟩ := exists_ok_of_any hanalyzed
  refine ⟨root, contract, hparse, hcontract, ⟨p, q, hall, hp, hq⟩, ?_, f, hf, hname,
    ⟨p', hown, hp'⟩, htwice, hcalled⟩
  intro entry hentry
  exact of_decide_eq_true (List.all_eq_true.mp hmodels entry hentry)

/-- The first function takes `x` by the name, which it binds in no other way, and calls it; but no
call is reported with `x`. -/
theorem sharedName_not_reported : ∃ root contract, parse sharedName = .ok root
    ∧ analyzeTask sharedName = .ok contract ∧ ∃ f ∈ exported sharedName root,
      f.name = Text.ofString "a"
        ∧ (∃ n p, TakesApart sharedName f.function n p []
          ∧ destructured sharedName f.function = [p]
          ∧ Binds sharedName p (Text.ofString "c") (Text.ofString "x"))
        ∧ f.function.preorder.countP (fun n => sharedName.nodeText n = Text.ofString "c") = 2
        ∧ (∃ n ∈ f.function.preorder,
          CallsMember sharedName n (Text.ofString "c") (Text.ofString "m"))
        ∧ ∀ entry ∈ contract.models, entry.provider ≠ Text.ofString "x" := by
  obtain ⟨root, contract, hparse, hcontract, _, hmodels, f, hf, hname, ⟨p, hown, hp⟩, htwice,
    hcalled⟩ := sharedName_spec
  obtain ⟨n, _, htaken⟩ := exists_takesApart [] hown
  refine ⟨root, contract, hparse, hcontract, f, hf, hname,
    ⟨n, p, htaken, hown, (propertyAlias_eq_some_iff.mp hp).1⟩, htwice, hcalled, ?_⟩
  intro entry hentry
  rw [hmodels entry hentry]
  decide

/-- It is the other function, whose property comes last, that says what the call is reported as. -/
theorem sharedName_reported : ∃ root contract, parse sharedName = .ok root
    ∧ analyzeTask sharedName = .ok contract ∧ ∃ f ∈ exported sharedName root,
      f.name = Text.ofString "a"
        ∧ (∃ n p, TakesApart sharedName f.function n p []
          ∧ Binds sharedName p (Text.ofString "c") (Text.ofString "x"))
        ∧ ∃ o ∈ root.occurrences, o.node ∈ f.function.preorder
          ∧ CallsMember sharedName o.node (Text.ofString "c") (Text.ofString "m")
          ∧ HasOneEntry sharedName root contract.models o (Text.ofString "y")
            (Text.ofString "m") := by
  obtain ⟨root, contract, hparse, hcontract, ⟨first, second, hall, _, hsecond⟩, _, f, hf, hname,
    ⟨p, hown, hp⟩, _, call, hcallmem, hcall⟩ := sharedName_spec
  obtain ⟨n, _, htaken⟩ := exists_takesApart [] hown
  have hbinds := (propertyAlias_eq_some_iff.mp hp).1
  obtain ⟨_, q, provider, _, ⟨front, back, hsplit, hq, hback⟩, hentries, _⟩ :=
    last_destructuring_decides sharedName root contract hparse hcontract hf htaken hbinds
  obtain ⟨hlast, hform⟩ := propertyAlias_eq_some_iff.mp hsecond
  -- the second property binds the name, so the last one to do so is not the first
  obtain rfl : q = second := by
    rw [hall] at hsplit
    rcases front with _ | ⟨_, _ | ⟨_, _⟩⟩
    · obtain ⟨rfl, rfl⟩ := List.cons.inj hsplit
      exact absurd hlast (hback second List.mem_cons_self _)
    · simp only [List.cons_append, List.nil_append, List.cons.injEq] at hsplit
      exact hsplit.2.1.symm
    · simp at hsplit
  have hkeys := (propertyAlias_eq_some_iff.mpr ⟨hq, hform⟩).symm.trans hsecond
  obtain rfl : provider = Text.ofString "y" := congrArg Prod.snd (Option.some.inj hkeys)
  have hroot : call ∈ root.preorder :=
    (preorder_isInfix (mem_preorder_of_exported hf)).subset hcallmem
  obtain ⟨o, ho, rfl⟩ := List.mem_map.mp hroot
  exact ⟨root, contract, hparse, hcontract, f, hf, hname, ⟨n, p, htaken, hbinds⟩, o, ho, hcallmem,
    hcall, hentries hform o ho hcallmem _ hcall⟩

end TaskContract.Analysis
