import GraphSchema.Package.Task
import GraphSchema.Proofs.Package.Shell

namespace GraphSchema.Package

open Shell

variable {sh : Shell} {s : Settings} {w : String} {ws : List String} {wss : List (List String)}

-- Parts of a command that are words with blanks between them. A part without words is left out.

theorem intercalate_eq_empty_iff (first : ws.head? ≠ some "") :
    " ".intercalate ws = "" ↔ ws = [] := by
  refine ⟨fun h => ?_, fun h => h ▸ String.intercalate_nil⟩
  cases ws
  case nil => rfl
  case cons w ws =>
    cases ws
    case nil => exact absurd (congrArg some (String.intercalate_singleton.symm.trans h)) first
    case cons v ws => simp [String.intercalate_cons_cons] at h

theorem intercalate_flatten (h : ∀ ws ∈ wss, ws ≠ []) :
    " ".intercalate (wss.map (" ".intercalate ·)) = " ".intercalate wss.flatten := by
  induction wss
  case nil => rfl
  case cons ws wss hi =>
    have ⟨hw, hws⟩ := List.forall_mem_cons.mp h
    cases wss
    case nil => rw [List.map_singleton, String.intercalate_singleton, List.flatten_singleton]
    case cons vs wss =>
      have rest : (vs :: wss).flatten ≠ [] := by
        simp [(List.forall_mem_cons.mp hws).left]
      rw [List.flatten_cons, String.intercalate_append_of_ne_nil hw rest, ← hi hws]
      exact String.intercalate_cons_cons

theorem command_intercalate (h : ∀ ws ∈ wss, ws.head? ≠ some "") :
    command (wss.map (" ".intercalate ·)) = " ".intercalate wss.flatten := by
  have kept : (wss.map (" ".intercalate ·)).filter (· != "") =
      (wss.filter (!·.isEmpty)).map (" ".intercalate ·) := by
    rw [List.filter_map]
    congr 1
    refine List.filter_congr fun ws hws => ?_
    have empty := intercalate_eq_empty_iff (h ws hws)
    cases ws
    case nil => simp
    case cons w ws => simpa using empty
  have text : ∀ ws ∈ wss.filter (!·.isEmpty), ws ≠ [] := by simp
  rw [command, kept, intercalate_flatten text, List.flatten_filter_not_isEmpty]

-- The words that the command is meant to have, part by part.
def testParts (s : Settings) : List (List String) :=
  [["py.test"], ["-c", "setup.cfg"],
    if s.bail then ["--exitfirst"] else [],
    if s.coverage then
      ["--cov", "src/py_sdl", "--cov-config", "setup.cfg", "--no-cov-on-fail"] else [],
    if s.junit then ["--junit-xml", "junit.xml"] else [],
    if s.verbose then ["-vvl", "--full-trace"] else ["-q"],
    ["-rf"],
    if s.expression = "" then [] else ["-k", s.expression],
    s.ignored.flatMap (["--ignore", ·]),
    if s.files = [] then ["src/py_sdl", "tests"] else s.files]

def testWords (s : Settings) : List String := (testParts s).flatten

-- The texts that are given for it.
def given (s : Settings) : List String :=
  (if s.expression = "" then [] else [s.expression]) ++ s.ignored ++ s.files

theorem intercalate_ignored (ignored : List String) :
    " ".intercalate (ignored.map ("--ignore " ++ ·)) =
      " ".intercalate (ignored.flatMap (["--ignore", ·])) := by
  have each : ignored.map ("--ignore " ++ ·) =
      (ignored.map (["--ignore", ·])).map (" ".intercalate ·) := by
    simp [String.intercalate_cons_cons]
  rw [each, intercalate_flatten (by simp), List.flatMap_def]

theorem testCommand_eq (files : s.files.head? ≠ some "") :
    Task.testCommand s = " ".intercalate (testWords s) := by
  have parts : Task.testCommand s = command ((testParts s).map (" ".intercalate ·)) := by
    rw [Task.testCommand, testParts, intercalate_ignored]
    congr 1
    simp only [List.map_cons, List.map_nil, List.cons.injEq, true_and, and_true]
    refine ⟨by simp, by simp, ?_, ?coverage, ?_, ?_, by simp, ?_, ?files⟩
    case coverage => split <;> simp [sources]
    case files => cases s.files <;> simp [chosen, sources]
    all_goals split <;> simp
  have first : ∀ ws ∈ testParts s, ws.head? ≠ some "" := by
    simp only [testParts, List.forall_mem_cons]
    refine ⟨by simp, by simp, ?_, ?_, ?_, ?_, by simp, ?_, ?_, ?_, nofun⟩
    case refine_6 => cases s.ignored <;> simp
    case refine_7 => split <;> simp [files]
    all_goals split <;> simp
  rw [parts, command_intercalate first, testWords]

-- Words that are there whatever is given.
def fixedWords : List String :=
  ["py.test", "-c", "setup.cfg", "--exitfirst", "--cov", "src/py_sdl", "--cov-config",
    "--no-cov-on-fail", "--junit-xml", "junit.xml", "-vvl", "--full-trace", "-q", "-rf", "-k",
    "--ignore", "tests"]

theorem isPlain_of_mem_fixedWords (h : w ∈ fixedWords) : sh.IsPlain w.toList := by
  have harmless : ∀ w ∈ fixedWords, w.toList ≠ [] ∧ w.toList.all isHarmless := by decide +kernel
  have ⟨text, all⟩ := harmless w h
  exact isPlain_of_isHarmless text (List.all_eq_true.mp all)

theorem mem_fixedWords_or_given : ∀ ws ∈ testParts s, ∀ w ∈ ws, w ∈ fixedWords ∨ w ∈ given s := by
  simp only [testParts, List.forall_mem_cons]
  refine ⟨by simp [fixedWords], by simp [fixedWords], ?_, ?_, ?_, ?_, by simp [fixedWords],
    ?expression, ?ignored, ?files, nofun⟩
  case expression =>
    split
    · nofun
    · simp [fixedWords, given, *]
  case ignored =>
    intro w hw
    have ⟨i, hi, hw⟩ := List.mem_flatMap.mp hw
    rcases List.mem_cons.mp hw with rfl | hw
    · simp [fixedWords]
    · cases List.mem_singleton.mp hw
      simp [given, hi]
  case files =>
    split
    · simp [fixedWords]
    · exact fun w hw => .inr (List.mem_append_right _ hw)
  all_goals split <;> simp [fixedWords]

theorem given_subset : given s ⊆ testWords s := by
  intro w h
  simp only [given, List.mem_append] at h
  simp only [testWords, testParts, List.flatten_cons, List.mem_append]
  rcases h with (h | h) | h
  · split at h
    · exact absurd h List.not_mem_nil
    · simp [List.mem_singleton.mp h, *]
  · have ignored : w ∈ s.ignored.flatMap (["--ignore", ·]) :=
      List.mem_flatMap.mpr ⟨w, h, by simp⟩
    simp only [ignored, true_or, or_true]
  · simp [h, List.ne_nil_of_mem h]

theorem isPlain_testWords_iff :
    (∀ w ∈ testWords s, sh.IsPlain w.toList) ↔ ∀ w ∈ given s, sh.IsPlain w.toList := by
  refine ⟨fun h w hw => h w (given_subset hw), fun h w hw => ?_⟩
  have ⟨ws, hws, hw⟩ := List.mem_flatten.mp hw
  exact (mem_fixedWords_or_given ws hws w hw).elim isPlain_of_mem_fixedWords (h w)

-- The tests are run by one command, in the root directory, and a shell reads the words in it that
-- it is meant to have exactly if each text that was given is plain.
theorem test_words_iff (sh : Shell) (s : Settings) (files : ∀ f ∈ s.files, f ≠ "") :
    ∃ line, Task.test.steps s = [.enter, .run line true true, .leave] ∧
      (sh.words line = some (testWords s) ↔ ∀ w ∈ given s, sh.IsPlain w.toList) := by
  have first : s.files.head? ≠ some "" := fun h => files "" (List.mem_of_head? h) rfl
  refine ⟨Task.testCommand s, rfl, ?_⟩
  rw [testCommand_eq first, words_intercalate_iff, isPlain_testWords_iff]

def oneTest : Settings where
  coverage := true
  expression := "enum"
  files := ["tests/test_builder.py::test_enum"]
  ignored := ["tests/data", "examples"]

theorem test_words_oneTest :
    ∃ line, Task.test.steps oneTest = [.enter, .run line true true, .leave] ∧
      posix.words line = some (testWords oneTest) := by
  have ⟨line, run, words⟩ := test_words_iff posix oneTest (by decide)
  exact ⟨line, run, words.mpr (by decide +kernel)⟩

-- An expression with blanks is taken apart by every shell.
def eitherTest : Settings where
  expression := "a or b"

theorem not_test_words : ¬ ∃ sh : Shell, ∀ s : Settings, (∀ f ∈ s.files, f ≠ "") →
    (∀ i ∈ s.ignored, i ≠ "") → ∃ line, Task.test.steps s = [.enter, .run line true true, .leave] ∧
      sh.words line = some (testWords s) := by
  intro ⟨sh, h⟩
  have ⟨line, run, words⟩ := h eitherTest (by decide) (by decide)
  have made : line = " ".intercalate (testWords eitherTest) := by
    rw [← testCommand_eq (by decide)]
    cases run
    rfl
  rw [made, words_intercalate_iff, isPlain_testWords_iff] at words
  exact (words "a or b" (by decide)).blank_not_mem (by decide)

end GraphSchema.Package
