import TaskContract.Proofs.CommandLine.TaskAnalysis
import TaskContract.Proofs.Store.ContractFile

/-!
# A printed contract is read back

The contract of a task is printed as JSON in ASCII. Nothing of it is a control sequence, so the
console prints it as it is, and whoever reads the output gets the contract with all its members and
items in order. Half of a surrogate pair is written by its number, and is read back as such unless
it stands next to its other half.
-/

namespace TaskContract

/-! ## The console and JSON in ASCII -/

namespace Console

theorem sequenceLength_of_ne {c : CodePoint} (h : c.val ≠ 0x1B) (rest : Text) :
    sequenceLength (c :: rest) = 0 := by
  cases rest with
  | nil => rfl
  | cons bracket rest =>
      rw [sequenceLength, decide_eq_false h, Bool.false_and, if_neg Bool.false_ne_true]

/-- A text without the character that opens control sequences is printed as it is. -/
theorem plain_of_noEscape {t : Text} (h : ∀ c ∈ t, c.val ≠ 0x1B) : plain t = t := by
  rw [plain]
  induction t with
  | nil => rfl
  | cons c rest ih =>
      obtain ⟨hc, hrest⟩ := List.forall_mem_cons.mp h
      rw [plainAfter, sequenceLength_of_ne hc]
      dsimp only
      rw [ih hrest]

theorem line_of_areMarks {t : Text} (h : t.AreMarks) : line t = t ++ Text.ofString "\n" := by
  have hwhole : (t ++ Text.ofString "\n").AreMarks := Text.areMarks_append.mpr ⟨h, by decide⟩
  refine plain_of_noEscape ?_
  intro c hc
  rcases hwhole c hc with rfl | ⟨hlow, -⟩
  · decide
  · omega

end Console

theorem CodePoint.IsMark.isAscii {c : CodePoint} (h : c.IsMark) : c.val < 0x80 := by
  rcases h with rfl | ⟨-, hc⟩
  · decide
  · exact hc

/-- Where the output is to be ASCII, a code point is written by marks. -/
theorem Text.areMarks_jsonCodePoint (c : CodePoint) : (jsonCodePoint true c).AreMarks := by
  rcases jsonCodePoint_cases true c with ⟨hmarks, -⟩ | ⟨hself, hlow, hhigh⟩
  · exact hmarks
  · rw [hself]
    intro d hd
    rw [List.mem_singleton.mp hd]
    exact Or.inr ⟨hlow, hhigh rfl⟩

theorem Json.areMarks_prettyAscii (v : Json) : v.prettyAscii.AreMarks := by
  have hmark : ∀ c : CodePoint, c.IsMark → decide c.IsMark = true := fun _ => decide_eq_true
  have hstrings : ∀ s, (Text.jsonString true s).all (fun c => decide c.IsMark) = true := by
    intro s
    rw [all_jsonString hmark, List.all_eq_true]
    intro c _
    rw [List.all_eq_true]
    exact fun d hd => hmark d (Text.areMarks_jsonCodePoint c d hd)
  have hall := all_written { ascii := true, indented := true } hmark v 0
  rw [funext hstrings, allTexts_true] at hall
  intro c hc
  exact of_decide_eq_true (List.all_eq_true.mp hall c hc)

theorem Json.line_prettyAscii (v : Json) :
    Console.line v.prettyAscii = v.prettyAscii ++ Text.ofString "\n" :=
  Console.line_of_areMarks v.areMarks_prettyAscii

theorem Json.isAscii_line (v : Json) : ∀ c ∈ Console.line v.prettyAscii, c.val < 0x80 := by
  have hmarks : (v.prettyAscii ++ Text.ofString "\n").AreMarks :=
    Text.areMarks_append.mpr ⟨v.areMarks_prettyAscii, by decide⟩
  rw [line_prettyAscii]
  exact fun c hc => (hmarks c hc).isAscii

theorem Json.read_line {v : Json} (h : v.isReadable = true) (hscalar : v.isScalar = true) :
    Json.read (Console.line v.prettyAscii) = .ok v := by
  rw [line_prettyAscii]
  refine read_render _ h hscalar ?_
  intro c hc
  rw [List.mem_singleton.mp hc]
  rfl

namespace CommandLine

/-! ## The output of the call -/

/-- **A printed contract is read back.** For every script with a contract there is one text that
every call prints, and nothing else, and the text is ASCII. If no text in the contract holds half of
a surrogate pair, the contract is read back from it, with its members and items in order. A number
in JSON is read up to its limit of digits, which no script is long enough to pass. -/
theorem printed_contract_is_read_back {script : Script.Source} {contract : Contract}
    (h : TaskContract.analyzeTask script = .ok contract)
    (hsize : script.chars.length + 1 < 10 ^ Json.digitLimit) :
    ∃ text : Text, (∀ c ∈ text, c.val < 0x80)
      ∧ (contract.toJson.isScalar = true → Json.read text = .ok contract.toJson)
      ∧ (∀ (s : State) (path code : Text), s.files.read (Path.ofText path) = .ok code →
        Session.scriptOf s.files path code = script →
        Session.Gives (Session.analyzeTask (Arguments.analysisValues path)) s ()
          { s with printed := s.printed ++ [⟨.output, text⟩] })
      ∧ ∀ (s : Surroundings) (path code : Text) (place : List Text) (p : ProjectContext)
          (ready : State), Arguments.isOptionWord path = false →
        s.files.locate (Path.ofText path) = .ok (.file place code) →
        Session.scriptOf s.files path code.unifyLineEnds = script →
        (Session.prepare Arguments.standardValues).run { s with } = (.ok p, ready) →
        (run (analysisCall path) s).1.exit = 0 ∧ (run (analysisCall path) s).1.fault = none
          ∧ (run (analysisCall path) s).1.printed = [⟨.output, text⟩] := by
  refine ⟨Console.line contract.toJson.prettyAscii, Json.isAscii_line _, ?readBack, ?command,
    ?call⟩
  case readBack =>
    intro hscalar
    have hnames := (Contract.isScalar_toJson_iff (contract_fitsIn h) hsize).mp hscalar
    have hplain := Contract.isPlain_toJson (contract_fitsIn h) hsize hnames
    exact Json.read_line (Json.isReadable_of_isPlain _ hplain) hscalar
  case command =>
    rintro s path code hread rfl
    exact Session.gives_analyzeTask hread h
  case call =>
    rintro s path code place p ready hword hfile rfl hprepare
    obtain ⟨hfiles, hprinted⟩ := Session.ready_of_prepare hprepare
    have hread : ready.files.read (Path.ofText path) = .ok code.unifyLineEnds := by
      rw [hfiles, FileTree.read, hfile]
    rw [← hfiles] at h
    have hgives := Session.gives_analyzeTask hread h
    rw [hprinted] at hgives
    obtain ⟨hout, hcode, -⟩ := run_of_ends (Session.ends_analysisCall hword hfile hprepare hgives)
    obtain ⟨hexit, hfault⟩ := Prod.mk.inj hcode
    exact ⟨hexit, hfault, hout⟩

/-- A script whose texts hold a quote, a line feed and a character above U+FFFF. -/
def quotingScript : Text :=
  Text.ofString ("export const f=()=>io.writeArtifact('\\u\x7b1F600\x7d\\n.json');\n"
    ++ "export const g=(n)=>io.readArtifact(n+'\"')")

def quotingCall : Surroundings where
  files := { entries := [([Text.ofString "t.js"], .file quotingScript)], current := [] }
  environment := []
  wire := oneReply
  now := ⟨2026, 1, 2, 3, 4, 5, 0⟩

def quotingSource : Script.Source :=
  Session.scriptOf quotingCall.files (Text.ofString "t.js") quotingScript.unifyLineEnds

set_option maxRecDepth 100000 in
theorem quotingSource_analyzed : ((TaskContract.analyzeTask quotingSource).toOption.any fun c =>
    c.unresolvedReads.length = 1 && c.fileNames.all Text.isScalar) = true := by
  decide +kernel

theorem quotingCall_prints : ∃ (contract : Contract) (text : Text),
    TaskContract.analyzeTask quotingSource = .ok contract ∧ (∀ c ∈ text, c.val < 0x80)
      ∧ Json.read text = .ok contract.toJson
      ∧ (run (analysisCall (Text.ofString "t.js")) quotingCall).1.printed
        = [⟨.output, text⟩] := by
  have hfound := quotingSource_analyzed
  cases hanalyze : TaskContract.analyzeTask quotingSource with
  | error e =>
      rw [hanalyze] at hfound
      cases hfound
  | ok contract =>
      rw [hanalyze] at hfound
      have hnames : ∀ name ∈ contract.fileNames, name.isScalar = true :=
        List.all_eq_true.mp (Bool.and_eq_true_iff.mp hfound).2
      have hshort : quotingSource.chars.length + 1 < Json.digitLimit := by decide +kernel
      have hsize : quotingSource.chars.length + 1 < 10 ^ Json.digitLimit :=
        hshort.trans (Nat.lt_pow_self (by decide))
      have hscalar := (Contract.isScalar_toJson_iff (contract_fitsIn hanalyze) hsize).mpr hnames
      obtain ⟨text, hascii, hback, -, hcall⟩ := printed_contract_is_read_back hanalyze hsize
      obtain ⟨-, -, hprinted⟩ := hcall quotingCall (Text.ofString "t.js") quotingScript _ _ _
        (by decide) rfl rfl rfl
      exact ⟨contract, text, rfl, hascii, hback hscalar, hprinted⟩

end CommandLine

end TaskContract
