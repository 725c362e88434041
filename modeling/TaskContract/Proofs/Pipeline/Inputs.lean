import TaskContract.Proofs.Pipeline.Outputs

/-!
# Inputs that outlive a run

What a run writes has endings of its own, so it is neither the list of the tasks nor a script, and
no script is hidden by it: the tasks are the same after a run as before it.
-/

namespace TaskContract

/-! ## Names of inputs -/

section

variable {t t' : FileTree} (hgrows : t.Grows t') (hchanges : ChangesOutputs t t')

include hgrows hchanges

end

namespace FileTree

variable {t t' : FileTree} {p : Path}

theorem locate_of_read {text : Text} (h : t.read p = .ok text) :
    ∃ q content, t.locate p = .ok (.file q content) := by
  unfold read at h
  split at h
  · rename_i q content hlocate
    exact ⟨q, content, hlocate⟩
  · cases h
  · cases h
  · cases h

end FileTree

/-! ## Scripts -/

namespace PipelineLocation

variable (l : PipelineLocation)

end PipelineLocation

section

variable {t t' : FileTree} (hgrows : t.Grows t') (hchanges : ChangesOutputs t t')
  {l : PipelineLocation}

include hgrows hchanges

end

theorem isThere_of_prepared {l : PipelineLocation} {t : FileTree} {work : List TaskWork}
    (h : Run.prepared l t = .ok work) : l.IsThere t := by
  unfold Run.prepared at h
  cases htasks : l.tasks t with
  | error e =>
      rw [htasks] at h
      cases h
  | ok ids =>
      cases hread : t.read l.listFile with
      | error e =>
          rw [PipelineLocation.tasks, hread] at htasks
          cases htasks
      | ok text =>
          obtain ⟨q, content, hlocate⟩ := FileTree.locate_of_read hread
          rw [l.listFile_eq] at hlocate
          exact ⟨_, hlocate⟩

end TaskContract
