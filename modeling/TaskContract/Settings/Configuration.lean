import TaskContract.Settings.Checked
import TaskContract.Files.Path

/-!
# Configuration

The settings of a project: where its pipelines are, which model is asked, and how an analysis is
run. Whatever is absent has a default, and unknown settings are let pass.
-/

namespace TaskContract

/-- Where a pipeline is, and where its tasks are if they are elsewhere. -/
structure PipelineEntry where
  configDir : Path
  tasksDir : Option Path := none

structure ModelSettings where
  provider : Text := Text.ofString "deepseek"
  model : Text := Text.ofString "deepseek-chat"
  timeout : Binary64 := .ofRatio false 120 1
  maxRetries : Int := 3

structure AnalysisSettings where
  concurrency : Int := 1
  confidenceThreshold : Binary64 := .ofDecimal false 7 (-1)
  schemaRetries : Int := 3

structure Configuration where
  pipelines : List (Text × PipelineEntry) := []
  model : ModelSettings := {}
  analysis : AnalysisSettings := {}

def Setting.path (v : Yaml.Value) : Checked Path :=
  match v with
  | .str t => .ok (Path.ofText t)
  | _ => Checked.fault .notAPath

def PipelineEntry.check (v : Yaml.Value) : Checked PipelineEntry :=
  (Setting.group "PipelineEntry" v).bind fun pairs =>
    let optional (v : Yaml.Value) : Checked (Option Path) :=
      match v with
      | .null => .ok none
      | v => (Setting.path v).map some
    (Checked.both
      (Setting.field pairs "config_dir" (Checked.fault .missing) Setting.path)
      (Setting.field pairs "tasks_dir" (.ok none) optional)).map
        fun (configDir, tasksDir) => { configDir, tasksDir }

def ModelSettings.check (v : Yaml.Value) : Checked ModelSettings :=
  (Setting.group "LLMSettings" v).bind fun pairs =>
    let standard : ModelSettings := {}
    let retries (v : Yaml.Value) : Checked Int :=
      (Setting.integer v).requiring (fun n => 0 ≤ n) "max_retries must be >= 0"
    (Checked.both
      (Checked.both
        (Setting.field pairs "provider" (.ok standard.provider) Setting.string)
        (Setting.field pairs "model" (.ok standard.model) Setting.string))
      (Checked.both
        (Setting.field pairs "timeout" (.ok standard.timeout) Setting.number)
        (Setting.field pairs "max_retries" (.ok standard.maxRetries) retries))).map
          fun ((provider, model), (timeout, maxRetries)) =>
            { provider, model, timeout, maxRetries }

def isConfidence (x : Binary64) : Bool :=
  Binary64.zero.le x && x.le (.ofRatio false 1 1)

def AnalysisSettings.check (v : Yaml.Value) : Checked AnalysisSettings :=
  (Setting.group "AnalysisSettings" v).bind fun pairs =>
    let standard : AnalysisSettings := {}
    let positive (v : Yaml.Value) : Checked Int :=
      (Setting.integer v).requiring (fun n => 1 ≤ n) "must be >= 1"
    let confidence (v : Yaml.Value) : Checked Binary64 :=
      (Setting.number v).requiring isConfidence "confidence_threshold must be between 0 and 1"
    (Checked.both
      (Setting.field pairs "concurrency" (.ok standard.concurrency) positive)
      (Checked.both
        (Setting.field pairs "confidence_threshold" (.ok standard.confidenceThreshold) confidence)
        (Setting.field pairs "schema_retries" (.ok standard.schemaRetries) positive))).map
          fun (concurrency, confidenceThreshold, schemaRetries) =>
            { concurrency, confidenceThreshold, schemaRetries }

def Configuration.check (v : Yaml.Value) : Checked Configuration :=
  (Setting.group "PipedashConfig" v).bind fun pairs =>
    (Checked.both
      (Setting.field pairs "pipelines" (.ok []) (Setting.dictionary PipelineEntry.check))
      (Checked.both
        (Setting.field pairs "llm" (.ok {}) ModelSettings.check)
        (Setting.field pairs "analysis" (.ok {}) AnalysisSettings.check))).map
          fun (pipelines, model, analysis) => { pipelines, model, analysis }

end TaskContract
