import TaskContract.Proofs.Analysis.Origin
import TaskContract.Proofs.Text

/-!
# What a contract takes from its script

The names of stages, providers and methods and the code of unresolved references are quoted from
the script, so they are made of characters; and the places are places in the script. The names of
artifacts alone are not quoted: they are what literals stand for, and an escape can stand for a
surrogate.
-/

namespace TaskContract

open Script

/-! ## Places -/

namespace Script

theorem length_takeBytes_le (n : Nat) (cs : List Char) : (takeBytes n cs).length ≤ cs.length := by
  fun_induction takeBytes n cs with
  | case1 => exact Nat.zero_le _
  | case2 => exact Nat.le_refl _
  | case3 n c cs hn ih => exact Nat.succ_le_succ ih

structure Location.IsIn (l : Location) (s : Source) : Prop where
  line : l.line ≤ s.chars.length + 1
  column : l.column ≤ s.chars.length + 1

theorem Source.isIn_location (s : Source) (offset : Nat) : (s.location offset).IsIn s := by
  have hbefore := length_takeBytes_le offset s.chars
  constructor
  · have hcount := List.countP_le_length (p := (· = '\n')) (l := takeBytes offset s.chars)
    exact Nat.succ_le_succ (hcount.trans hbefore)
  · have hcolumn := (List.takeWhile_prefix (p := (· ≠ '\n'))
      (l := (takeBytes offset s.chars).reverse)).length_le
    rw [List.length_reverse] at hcolumn
    exact Nat.le_succ_of_le (hcolumn.trans hbefore)

theorem Source.isScalar_nodeText (s : Source) (n : Node) : (s.nodeText n).isScalar = true :=
  Text.isScalar_ofChars _

end Script

namespace Analysis

variable {s : Source}

/-! ## Names -/

theorem isScalar_of_variable {d : Node} {f : ExportedFunction}
    (h : variableFunction? s d = some f) : f.name.isScalar = true := by
  unfold variableFunction? at h
  split at h
  · split at h
    · split at h
      · obtain rfl := Option.some.inj h
        exact s.isScalar_nodeText _
      · cases h
    · cases h
  · cases h

theorem isScalar_of_exported {n : Node} {f : ExportedFunction} (h : f ∈ exportedFunctions s n) :
    f.name.isScalar = true := by
  have hvariables : ∀ d, f ∈ functionVariables s d → f.name.isScalar = true := by
    intro d hf
    obtain ⟨v, -, hv⟩ := List.mem_filterMap.mp hf
    exact isScalar_of_variable hv
  unfold exportedFunctions at h
  split at h
  · cases h
  · rename_i d _
    have hdirect : f ∈ ((d.child? .name).map fun name =>
        (⟨s.nodeText name, d⟩ : ExportedFunction)).toList → f.name.isScalar = true := by
      intro hf
      rw [Option.mem_toList, Option.map_eq_some_iff] at hf
      obtain ⟨name, -, rfl⟩ := hf
      exact s.isScalar_nodeText name
    split at h
    · exact hdirect h
    · exact hdirect h
    · exact hvariables d h
    · exact hvariables d h
    · cases h

theorem isScalar_of_stageOf {o : Occurrence} {name : Text} (h : stageOf? s o = some name) :
    name.isScalar = true := by
  obtain ⟨e, f, -, -, hf, -, rfl⟩ := stageOf_spec h
  exact isScalar_of_exported hf

theorem stages_spec {root : Node} {stage : Stage} (h : stage ∈ stages s root) :
    stage.name.isScalar = true ∧ stage.order ≤ s.chars.length + 1 := by
  rw [stages, List.mem_mergeSort, List.mem_flatMap] at h
  obtain ⟨n, -, hstage⟩ := h
  rw [stagesOf] at hstage
  split at hstage
  · obtain ⟨f, hf, rfl⟩ := List.mem_map.mp hstage
    exact ⟨isScalar_of_exported hf, (s.isIn_location n.start).line⟩
  · cases hstage

/-! ## Providers -/

theorem isScalar_of_memberParts {n object : Node} {name : Text}
    (h : memberParts? s n = some (object, name)) : name.isScalar = true := by
  unfold memberParts? at h
  split at h
  · cases h
  · simp only [Option.bind_eq_bind, Option.bind_eq_some_iff] at h
    obtain ⟨_, -, property, -, hname⟩ := h
    split at hname
    · cases hname
      exact s.isScalar_nodeText property
    · cases hname

theorem isScalar_of_calledMember {call object : Node} {name : Text}
    (h : calledMember? s call = some (object, name)) : name.isScalar = true := by
  unfold calledMember? at h
  split at h
  · cases h
  · rw [Option.bind_eq_bind, Option.bind_eq_some_iff] at h
    obtain ⟨f, -, hf⟩ := h
    exact isScalar_of_memberParts hf

theorem isScalar_of_propertyAlias {p : Node} {a : Alias} (h : propertyAlias? s p = some a) :
    a.2.isScalar = true := by
  unfold propertyAlias? at h
  split at h
  · cases h
    exact s.isScalar_nodeText p
  · simp only [Option.bind_eq_bind, Option.bind_eq_some_iff] at h
    obtain ⟨left, -, hleft⟩ := h
    split at hleft
    · cases hleft
      exact s.isScalar_nodeText left
    · cases hleft
  · simp only [Option.bind_eq_bind, Option.bind_eq_some_iff] at h
    obtain ⟨key, -, value, -, hvalue⟩ := h
    split at hvalue
    · cases hvalue
      exact s.isScalar_nodeText key
    · cases hvalue
  · cases h

theorem isScalar_of_declarator {n : Node} {a : Alias} (h : a ∈ declaratorAliases s n) :
    a.2.isScalar = true := by
  unfold declaratorAliases at h
  split at h
  · cases h
  · split at h
    · split at h
      · obtain ⟨p, -, hp⟩ := List.mem_filterMap.mp h
        exact isScalar_of_propertyAlias hp
      · cases h
    · cases h

theorem mem_of_setAlias {known : List Alias} {a b : Alias} (h : b ∈ setAlias known a) :
    b ∈ known ∨ b = a := by
  rw [setAlias] at h
  split at h
  · obtain ⟨c, hc, hb⟩ := List.mem_map.mp h
    split at hb
    · exact Or.inr hb.symm
    · exact Or.inl (hb ▸ hc)
  · exact (List.mem_append.mp h).imp_right List.mem_singleton.mp

/-- Setting aliases one after another makes up none. -/
theorem mem_of_setAliases {set known : List Alias} {b : Alias}
    (h : b ∈ set.foldl setAlias known) : b ∈ known ∨ b ∈ set := by
  induction set generalizing known with
  | nil => exact Or.inl h
  | cons a rest ih =>
      rcases ih h with hknown | hrest
      · rcases mem_of_setAlias hknown with hknown | rfl
        · exact Or.inl hknown
        · exact Or.inr List.mem_cons_self
      · exact Or.inr (List.mem_cons_of_mem a hrest)

theorem isScalar_of_aliases {root : Node} {a : Alias} (h : a ∈ aliases s root) :
    a.2.isScalar = true := by
  rcases mem_of_setAliases h with hnone | hset
  · cases hnone
  · obtain ⟨n, -, hn⟩ := List.mem_flatMap.mp hset
    exact isScalar_of_declarator hn

theorem isScalar_of_provider {known : List Alias} (hknown : ∀ a ∈ known, a.2.isScalar = true)
    {object : Node} {name : Text} (h : provider? s known object = some name) :
    name.isScalar = true := by
  rw [provider?] at h
  split at h
  · rename_i hmember
    split at h
    · cases h
      exact isScalar_of_memberParts hmember
    · cases h
  · split at h
    · obtain ⟨front, back, rfl, -⟩ := List.lookup_eq_some_iff.mp h
      exact hknown (s.nodeText object, name) (List.mem_append_right _ List.mem_cons_self)
    · cases h

theorem isScalar_of_modelCall {known : List Alias} (hknown : ∀ a ∈ known, a.2.isScalar = true)
    {n : Node} {provider method : Text} (h : modelCall? s known n = some (provider, method)) :
    provider.isScalar = true ∧ method.isScalar = true := by
  simp only [modelCall?, Option.bind_eq_bind, Option.bind_eq_some_iff] at h
  obtain ⟨⟨object, name⟩, hcalled, found, hprovider, hcall⟩ := h
  cases hcall
  exact ⟨isScalar_of_provider hknown hprovider, isScalar_of_calledMember hcalled⟩

/-! ## References -/

theorem IsCallOf.isScalar_stage {root : Node} {method : Text} {c : ArtifactCall}
    (h : IsCallOf s root method c) : c.stage.isScalar = true :=
  isScalar_of_stageOf (artifactCall_spec h.read).2

end Analysis

open Analysis

structure UnresolvedReference.FitsIn (u : UnresolvedReference) (s : Source) : Prop where
  expression : u.expression.isScalar = true
  codeContext : u.codeContext.isScalar = true
  stage : u.stage.isScalar = true
  location : u.location.IsIn s

theorem Analysis.IsCallOf.fitsIn {s : Source} {root : Node} {method : Text} {c : ArtifactCall}
    (h : IsCallOf s root method c) (required : Option Bool) :
    (c.unresolved s required).FitsIn s := by
  refine ⟨?expression, ?codeContext, h.isScalar_stage, s.isIn_location _⟩
  case expression =>
    show ((c.argument.map s.nodeText).getD []).isScalar = true
    cases c.argument with
    | none => rfl
    | some argument => exact s.isScalar_nodeText argument
  case codeContext => exact Text.isScalar_ofChars _

/-- Is all of the contract but the names of artifacts quoted from the script? -/
structure Contract.FitsIn (c : Contract) (s : Source) : Prop where
  stages : ∀ x ∈ c.stages, x.name.isScalar = true ∧ x.order ≤ s.chars.length + 1
  reads : ∀ r ∈ c.reads, r.stage.isScalar = true
  writes : ∀ w ∈ c.writes, w.stage.isScalar = true
  unresolvedReads : ∀ u ∈ c.unresolvedReads, u.FitsIn s
  unresolvedWrites : ∀ u ∈ c.unresolvedWrites, u.FitsIn s
  models : ∀ m ∈ c.models, m.provider.isScalar = true ∧ m.method.isScalar = true
    ∧ m.stage.isScalar = true

/-- **A contract quotes its script**: no text of it but the name of an artifact can hold a
surrogate, and its numbers are no larger than the script allows. -/
theorem contract_fitsIn {s : Source} {contract : Contract} (h : analyzeTask s = .ok contract) :
    contract.FitsIn s := by
  obtain ⟨root, reads, writes, -, hreads, hwrites, hmodels, hstages, hr, hru, hw, hwu⟩ :=
    analyzeTask_spec h
  refine ⟨?stages, ?reads, ?writes, ?unresolvedReads, ?unresolvedWrites, ?models⟩
  case stages =>
    rw [hstages]
    exact fun x hx => stages_spec hx
  case reads =>
    rw [hr]
    intro r hr
    obtain ⟨c, hc, hread⟩ := (artifactReads_spec hreads).1 r hr
    obtain ⟨fileName, -, rfl⟩ := Option.map_eq_some_iff.mp hread
    exact hc.isScalar_stage
  case writes =>
    rw [hw]
    intro w hw
    obtain ⟨c, hc, hwrite⟩ := (artifactWrites_spec hwrites).1 w hw
    obtain ⟨fileName, -, rfl⟩ := Option.map_eq_some_iff.mp hwrite
    exact hc.isScalar_stage
  case unresolvedReads =>
    rw [hru]
    intro u hu
    obtain ⟨c, hc, -, rfl⟩ := (artifactReads_spec hreads).2 u hu
    exact hc.fitsIn _
  case unresolvedWrites =>
    rw [hwu]
    intro u hu
    obtain ⟨c, hc, -, rfl⟩ := (artifactWrites_spec hwrites).2 u hu
    exact hc.fitsIn _
  case models =>
    intro m hm
    obtain ⟨o, -, hcall, hstage⟩ := modelCalls_spec hmodels m hm
    have hknown : ∀ a ∈ aliases s root, a.2.isScalar = true := fun a ha => isScalar_of_aliases ha
    obtain ⟨hprovider, hmethod⟩ := isScalar_of_modelCall hknown hcall
    exact ⟨hprovider, hmethod, isScalar_of_stageOf hstage⟩

end TaskContract
