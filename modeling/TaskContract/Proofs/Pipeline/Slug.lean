import TaskContract.Pipeline.Run
import TaskContract.Proofs.Files.Tree
import TaskContract.Proofs.Text

/-!
# What a slug can be

A slug is checked before it is used: as the name of a directory, and as the holder of the lock. What
passes are the texts made of letters, digits, hyphens and underscores, and each of these with a line
feed behind it.
-/

namespace TaskContract

namespace Slug

def alphabet : Text :=
  "ABCDEFGHIJKLMNOPQRSTUVWXYZabcdefghijklmnopqrstuvwxyz0123456789-_"

structure IsProper (t : Text) : Prop where
  ne_nil : t ≠ []
  inAlphabet : ∀ c ∈ t, c ∈ alphabet

def lineFeed : CodePoint :=
  CodePoint.ofChar '\n'

theorem isSlugChar_lineFeed : isSlugChar lineFeed = false := by
  decide

theorem isSlugChar_iff {c : CodePoint} : isSlugChar c = true ↔ c ∈ alphabet := by
  constructor
  · intro h
    have hsmall : c.val < 0x80 := by
      simp only [isSlugChar, CodePoint.isAsciiLetter, CodePoint.isDigit, CodePoint.isBetween,
        Bool.or_eq_true, Bool.and_eq_true, decide_eq_true_eq, CodePoint.ofChar,
        Char.reduceToNat] at h
      grind
    have hall : ∀ n : Fin 0x80, isSlugChar (CodePoint.ofNat n) = true
        → CodePoint.ofNat n ∈ alphabet := by
      decide +kernel
    have hc : CodePoint.ofNat c.val = c := by
      rw [CodePoint.ofNat, dif_pos c.isLt]
    have hmem := hall ⟨c.val, hsmall⟩
    rw [hc] at hmem
    exact hmem h
  · intro h
    have hall : alphabet.all isSlugChar = true := by decide +kernel
    exact List.all_eq_true.mp hall c h

theorem IsProper.all {t : Text} (h : IsProper t) : ∀ c ∈ t, isSlugChar c = true :=
  fun c hc => isSlugChar_iff.mpr (h.inAlphabet c hc)

/-- What the check reads off a text is its longest front of slug characters and the rest. -/
theorem isValid_append {body rest : Text} (hbody : ∀ c ∈ body, isSlugChar c = true)
    (hrest : ∀ c ∈ rest.head?, isSlugChar c = false) :
    isValid (body ++ rest) = true ↔ body ≠ [] ∧ (rest = [] ∨ rest = [lineFeed]) := by
  have hdrop : (body ++ rest).dropWhile isSlugChar = rest := by
    rw [List.dropWhile_append_of_pos hbody]
    cases rest with
    | nil => rfl
    | cons c others => exact List.dropWhile_cons_of_neg (by simp [hrest c rfl])
  have hhead : (body ++ rest).head?.any isSlugChar = true ↔ body ≠ [] := by
    cases body with
    | nil =>
        cases rest with
        | nil => simp
        | cons c others => simp [hrest c rfl]
    | cons c others => simp [hbody c List.mem_cons_self]
  rw [isValid, hdrop, Bool.and_eq_true, hhead, Bool.or_eq_true, List.isEmpty_iff,
    decide_eq_true_eq, lineFeed]

theorem isValid_iff {s : Text} :
    isValid s = true ↔ IsProper s ∨ ∃ body, IsProper body ∧ s = body ++ [lineFeed] := by
  constructor
  · intro h
    have hfront : ∀ c ∈ s.takeWhile isSlugChar, isSlugChar c = true := fun c hc =>
      List.mem_takeWhile_imp hc
    have hnext : ∀ c ∈ (s.dropWhile isSlugChar).head?, isSlugChar c = false := by
      intro c hc
      have hnot := List.head?_dropWhile_not isSlugChar s
      rw [Option.mem_def.mp hc] at hnot
      simpa using hnot
    have hs : s.takeWhile isSlugChar ++ s.dropWhile isSlugChar = s :=
      List.takeWhile_append_dropWhile
    rw [← hs, isValid_append hfront hnext] at h
    obtain ⟨hne, hrest⟩ := h
    have hproper : IsProper (s.takeWhile isSlugChar) :=
      ⟨hne, fun c hc => isSlugChar_iff.mp (hfront c hc)⟩
    rcases hrest with hrest | hrest
    · left
      rw [hrest, List.append_nil] at hs
      rwa [hs] at hproper
    · right
      exact ⟨_, hproper, by rw [← hrest, hs]⟩
  · rintro (hproper | ⟨body, hproper, rfl⟩)
    · rw [← List.append_nil s, isValid_append hproper.all (by simp)]
      exact ⟨hproper.ne_nil, Or.inl rfl⟩
    · rw [isValid_append hproper.all (by simp [isSlugChar_lineFeed])]
      exact ⟨hproper.ne_nil, Or.inr rfl⟩

theorem not_isProper_lineFeed (body : Text) : ¬ IsProper (body ++ [lineFeed]) := by
  intro h
  have hfeed := h.all lineFeed (List.mem_append_right _ List.mem_cons_self)
  rw [isSlugChar_lineFeed] at hfeed
  cases hfeed

/-- Neither a slash nor a dot is in a slug, so that it stays the name it is. -/
theorem isName_of_isValid {s : Text} (h : isValid s = true) : Path.IsName s := by
  have hall : ∀ c ∈ s, isSlugChar c = true ∨ c = lineFeed := by
    rcases isValid_iff.mp h with hproper | ⟨body, hproper, rfl⟩
    · exact fun c hc => Or.inl (hproper.all c hc)
    · intro c hc
      rcases List.mem_append.mp hc with hc | hc
      · exact Or.inl (hproper.all c hc)
      · exact Or.inr (List.mem_singleton.mp hc)
  refine ⟨?noSlash, ?ne_nil, ?ne_dot, ?ne_dots⟩
  case noSlash =>
    intro hslash
    exact absurd (hall _ hslash) (by decide)
  case ne_nil =>
    rintro rfl
    exact absurd h (by decide)
  all_goals
    rintro rfl
    exact absurd (hall (CodePoint.ofChar '.') (by decide)) (by decide)

end Slug

namespace PipelineLocation

variable {files : FileTree} {c : Configuration} {root : Path} {slug : Text} {l : PipelineLocation}

theorem locate_of_not_isValid (h : Slug.isValid slug = false) :
    locate files c root slug = .error (.invalidSlug slug) := by
  rw [locate, if_pos (by rw [h, Bool.not_false])]

theorem locate_eq_ok (h : locate files c root slug = .ok l) :
    Slug.isValid slug = true ∧ l = expected c root slug
      ∧ files.isDirectory l.configDir = .ok true := by
  rw [locate] at h
  split at h
  · cases h
  · rename_i hvalid
    dsimp only at h
    split at h
    · cases h
      refine ⟨by simpa using hvalid, rfl, by assumption⟩
    · cases h
    · cases h

theorem configDir_of_unlisted (h : c.pipelines.lookup slug = none) :
    (expected c root slug).configDir = root / "pipeline-config" / slug := by
  rw [expected, h]

theorem analyzePipeline_of_not_isValid {σ : Type} (c : Conditions σ) {l : PipelineLocation}
    (h : Slug.isValid l.slug = false) (w : World σ) :
    analyzePipeline c l w = (.error (.invalidSlug l.slug), w) := by
  rw [analyzePipeline, if_pos (by rw [h, Bool.not_false])]

/-- **The slugs that pass, and what they name.** Without a slug that passes there is no location, and
no run. For a pipeline that the configuration does not list, the slug is a proper name, and the
directory of the pipeline is the one of that name among all pipelines. -/
theorem slug_names_directory (slug : Text) :
    (Slug.isValid slug = true ↔
        Slug.IsProper slug ∨ ∃ body, Slug.IsProper body ∧ slug = body ++ [Slug.lineFeed])
      ∧ (Slug.isValid slug = false →
        (∀ (files : FileTree) (c : Configuration) (root : Path),
          locate files c root slug = .error (.invalidSlug slug))
        ∧ ∀ (σ : Type) (c : Conditions σ) (l : PipelineLocation) (w : World σ), l.slug = slug →
          analyzePipeline c l w = (.error (.invalidSlug slug), w))
      ∧ ∀ (files : FileTree) (c : Configuration) (root : Path) (l : PipelineLocation),
        locate files c root slug = .ok l → c.pipelines.lookup slug = none →
        Path.IsName slug ∧ l.configDir = (root / "pipeline-config").child slug := by
  refine ⟨Slug.isValid_iff, ?refused, ?located⟩
  case refused =>
    intro hinvalid
    constructor
    · exact fun _ _ _ => locate_of_not_isValid hinvalid
    · rintro σ c l w rfl
      exact analyzePipeline_of_not_isValid c hinvalid w
  case located =>
    intro files c root l hlocate hunlisted
    obtain ⟨hvalid, rfl, -⟩ := locate_eq_ok hlocate
    have hname : Path.IsName slug := Slug.isName_of_isValid hvalid
    refine ⟨hname, ?_⟩
    rw [configDir_of_unlisted hunlisted, Path.div_eq_child _ hname]

/-- The directory of a pipeline whose name ends with a line feed. -/
def brokenNameTree : FileTree where
  entries := [
    ([Text.ofString "pipeline-config", Text.ofString "demo\n"], .directory),
    ([Text.ofString "pipeline-config"], .directory)]
  current := []

theorem broken_name_is_located :
    ∃ l, locate brokenNameTree {} (Path.ofText "/") (Text.ofString "demo\n") = .ok l
      ∧ Slug.isValid (Text.ofString "demo\n") = true
      ∧ ¬ Slug.IsProper (Text.ofString "demo\n")
      ∧ l.configDir
        = (Path.ofText "/" / "pipeline-config").child (Text.ofString "demo\n") := by
  obtain ⟨hvalid, -, hlocated⟩ := slug_names_directory (Text.ofString "demo\n")
  have hfound : locate brokenNameTree {} (Path.ofText "/") (Text.ofString "demo\n")
      = .ok (expected {} (Path.ofText "/") (Text.ofString "demo\n")) := by
    rfl
  refine ⟨_, hfound, ?_, Slug.not_isProper_lineFeed (Text.ofString "demo"), ?_⟩
  · exact hvalid.mpr (Or.inr ⟨Text.ofString "demo", ⟨by decide, by decide⟩, rfl⟩)
  · exact (hlocated _ _ _ _ hfound rfl).2

end PipelineLocation

end TaskContract
