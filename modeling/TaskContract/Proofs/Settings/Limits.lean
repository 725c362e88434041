import TaskContract.Proofs.Sequence
import TaskContract.Settings.Project

/-!
# Limits of settings

A setting that is given is checked, and one that is absent has a default within the same limits. So
every configuration of a project keeps them, whether it is read or stands for an absent file.
-/

namespace TaskContract

/-! ## Checks that pass -/

namespace Checked

variable {α β : Type} {c : Checked α} {d : Checked β} {x : α} {y : β}

theorem ok_of_map {f : α → β} (h : c.map f = .ok y) : ∃ x, c = .ok x ∧ f x = y := by
  cases c with
  | error faults => cases h
  | ok x => exact ⟨x, rfl, Except.ok.inj h⟩

theorem ok_of_both {pair : α × β} (h : both c d = .ok pair) : c = .ok pair.1 ∧ d = .ok pair.2 := by
  cases c with
  | error faults => cases d <;> cases h
  | ok x =>
      cases d with
      | error faults => cases h
      | ok y =>
          obtain rfl := Except.ok.inj h
          exact ⟨rfl, rfl⟩

theorem ok_of_under {step : SettingStep} (h : under step c = .ok x) : c = .ok x := by
  cases c with
  | error faults => cases h
  | ok y => exact h

theorem holds_of_requiring {p : α → Bool} {reason : String} (h : c.requiring p reason = .ok x) :
    p x = true := by
  obtain ⟨y, -, hy⟩ := bind_eq_ok_iff.mp h
  by_cases hp : p y = true
  · rw [if_pos hp] at hy
    obtain rfl := Except.ok.inj hy
    exact hp
  · rw [if_neg hp] at hy
    cases hy

end Checked

/-- A setting holds what its check and its default hold. -/
theorem Setting.holds_of_field {α : Type} {pairs : List (Yaml.Value × Yaml.Value)} {name : String}
    {standard x : α} {check : Yaml.Value → Checked α} {p : α → Prop} (hstandard : p standard)
    (hcheck : ∀ v y, check v = .ok y → p y)
    (h : field pairs name (.ok standard) check = .ok x) : p x := by
  replace h := Checked.ok_of_under h
  split at h
  · rename_i v _
    exact hcheck v x h
  · obtain rfl := Except.ok.inj h
    exact hstandard

/-! ## Configurations -/

structure AnalysisSettings.KeepsLimits (s : AnalysisSettings) : Prop where
  concurrency : 1 ≤ s.concurrency
  confidenceThreshold : isConfidence s.confidenceThreshold = true
  schemaRetries : 1 ≤ s.schemaRetries

theorem AnalysisSettings.keepsLimits_standard : ({} : AnalysisSettings).KeepsLimits where
  concurrency := by decide
  confidenceThreshold := by decide +kernel
  schemaRetries := by decide

theorem AnalysisSettings.keepsLimits_check {v : Yaml.Value} {s : AnalysisSettings}
    (h : check v = .ok s) : s.KeepsLimits := by
  obtain ⟨pairs, -, h⟩ := bind_eq_ok_iff.mp h
  obtain ⟨⟨concurrency, threshold, retries⟩, hparts, rfl⟩ := Checked.ok_of_map h
  obtain ⟨hconcurrency, hothers⟩ := Checked.ok_of_both hparts
  obtain ⟨hthreshold, hretries⟩ := Checked.ok_of_both hothers
  have hpositive : ∀ (v : Yaml.Value) (n : Int),
      (Setting.integer v).requiring (fun n => 1 ≤ n) "must be >= 1" = .ok n → 1 ≤ n := by
    intro v n h
    have hn := Checked.holds_of_requiring h
    exact of_decide_eq_true hn
  constructor
  · exact Setting.holds_of_field keepsLimits_standard.concurrency hpositive hconcurrency
  · exact Setting.holds_of_field (p := fun x => isConfidence x = true)
      keepsLimits_standard.confidenceThreshold (fun v x h => Checked.holds_of_requiring h)
      hthreshold
  · exact Setting.holds_of_field keepsLimits_standard.schemaRetries hpositive hretries

/-- The limits of the settings of a model. -/
theorem ModelSettings.maxRetries_check {v : Yaml.Value} {s : ModelSettings} (h : check v = .ok s) :
    0 ≤ s.maxRetries := by
  obtain ⟨pairs, -, h⟩ := bind_eq_ok_iff.mp h
  obtain ⟨⟨⟨provider, model⟩, timeout, retries⟩, hparts, rfl⟩ := Checked.ok_of_map h
  obtain ⟨-, hothers⟩ := Checked.ok_of_both hparts
  obtain ⟨-, hretries⟩ := Checked.ok_of_both hothers
  refine Setting.holds_of_field (p := fun n : Int => 0 ≤ n) (by decide) ?_ hretries
  intro v n h
  have hn := Checked.holds_of_requiring h
  exact of_decide_eq_true hn

structure Configuration.KeepsLimits (c : Configuration) : Prop where
  maxRetries : 0 ≤ c.model.maxRetries
  analysis : c.analysis.KeepsLimits

theorem Configuration.keepsLimits_standard : ({} : Configuration).KeepsLimits where
  maxRetries := by decide
  analysis := AnalysisSettings.keepsLimits_standard

theorem Configuration.keepsLimits_check {v : Yaml.Value} {c : Configuration} (h : check v = .ok c) :
    c.KeepsLimits := by
  obtain ⟨pairs, -, h⟩ := bind_eq_ok_iff.mp h
  obtain ⟨⟨pipelines, model, analysis⟩, hparts, rfl⟩ := Checked.ok_of_map h
  obtain ⟨-, hothers⟩ := Checked.ok_of_both hparts
  obtain ⟨hmodel, hanalysis⟩ := Checked.ok_of_both hothers
  constructor
  · exact Setting.holds_of_field (p := fun s : ModelSettings => 0 ≤ s.maxRetries)
      keepsLimits_standard.maxRetries (fun v s => ModelSettings.maxRetries_check) hmodel
  · exact Setting.holds_of_field keepsLimits_standard.analysis
      (fun v s => AnalysisSettings.keepsLimits_check) hanalysis

namespace Project

theorem keepsLimits_parse {path : Path} {text : Text} {c : Configuration}
    (h : parse path text = .ok c) : c.KeepsLimits := by
  rw [parse] at h
  split at h
  · cases h
  · cases h
  · dsimp only at h
    split at h
    · split at h
      · rename_i hcheck
        obtain rfl := Except.ok.inj h
        exact Configuration.keepsLimits_check hcheck
      · cases h
    · cases h

/-- The configuration of a project keeps the limits, whether or not it has a file. -/
theorem keepsLimits_load {files : FileTree} {path : Path} {c : Configuration}
    (h : load files path = .ok c) : c.KeepsLimits := by
  rw [load] at h
  cases hexists : files.pathExists path with
  | error e =>
      rw [hexists] at h
      cases h
  | ok exists_ =>
      rw [hexists] at h
      cases exists_ with
      | false =>
          obtain rfl := Except.ok.inj h
          exact Configuration.keepsLimits_standard
      | true =>
          cases hread : files.read path with
          | error e =>
              rw [hread] at h
              cases h
          | ok text =>
              rw [hread] at h
              exact keepsLimits_parse h

end Project

end TaskContract
