import Mathlib.Data.List.TakeWhile
import GraphSchema.Package.Version
import GraphSchema.Proofs.Constant.Scan
import GraphSchema.Proofs.Package.Lines

namespace GraphSchema.Package

open Lines Scan

variable {fs : Files} {q c : Char} {line v rest : List Char} {before after ls : List (List Char)}

def versionMark : List Char := "__version__".toList

-- A line that assigns a quoted text to the version, with what is behind it in the line.
def assignment (q : Char) (v rest : List Char) : List Char :=
  versionMark ++ " = ".toList ++ q :: (v ++ q :: rest)

-- What stands between the first two of certain characters in a line, or behind the only one.
structure Delimits (c : Char) (line v : List Char) : Prop where
  inside : c ∉ v
  around : ∃ a b, line = a ++ c :: (v ++ b) ∧ c ∉ a ∧ (b = [] ∨ ∃ more, b = c :: more)

theorem between?_of_delimits (h : Delimits c line v) : between? c line = some v := by
  obtain ⟨hv, a, b, rfl, ha, hb⟩ := h
  have other {l : List Char} (hl : c ∉ l) : ∀ d ∈ l, (d != c) = true := fun d hd =>
    bne_iff_ne.mpr fun e => hl (e ▸ hd)
  have stop : ∀ d ∈ b.head?, (d != c) = false := by
    rcases hb with rfl | ⟨more, rfl⟩ <;> simp
  rw [between?, dropWhile_append (other ha) (by simp)]
  change some ((v ++ b).takeWhile (· != c)) = some v
  rw [takeWhile_append (other hv) stop]

theorem delimits_of_between? (h : between? c line = some v) : Delimits c line v := by
  have parts := (List.takeWhile_append_dropWhile (p := (· != c)) (l := line)).symm
  have none {l : List Char} : c ∉ l.takeWhile (· != c) := fun hc => by
    simpa using List.mem_takeWhile_imp hc
  have head {d : Char} {l m : List Char} (e : l.dropWhile (· != c) = d :: m) : d = c := by
    have hd := List.head?_dropWhile_not (· != c) l
    simpa [e] using hd
  rw [between?] at h
  split at h
  case h_1 => exact nomatch h
  case h_2 d more e =>
    cases h
    obtain rfl := head e
    refine ⟨none, line.takeWhile (· != d), more.dropWhile (· != d), ?_, none, ?_⟩
    · rw [List.takeWhile_append_dropWhile]
      exact e ▸ parts
    · cases hm : more.dropWhile (· != d)
      case nil => exact .inl rfl
      case cons x xs => exact .inr ⟨xs, by rw [head hm]⟩

theorem between?_eq_some_iff : between? c line = some v ↔ Delimits c line v :=
  ⟨delimits_of_between?, between?_of_delimits⟩

-- The line of the version.

theorem isVersionLine_iff : isVersionLine line ↔ versionMark <+: line := List.isPrefixOf_iff_prefix

theorem isVersionLine_assignment : isVersionLine (assignment q v rest) :=
  isVersionLine_iff.mpr ⟨_, (List.append_assoc ..).symm⟩

theorem version_of_holds {s : String} (hs : fs.Holds versionPath s) (hl : Lined s.toList ls) :
    version fs = versionOf ls := by
  rw [version, Files.readLines_of_holds hs hl]
  rfl

theorem find?_eq_none_of_unmarked {ls : List (List Char)} (h : ∀ l ∈ ls, ¬ versionMark <+: l) :
    ls.find? isVersionLine = none :=
  List.find?_eq_none.mpr fun l hl => mt isVersionLine_iff.mp (h l hl)

theorem versionOf_append_eq_ok_iff (hb : ∀ l ∈ before, ¬ versionMark <+: l)
    (hl : versionMark <+: line) :
    versionOf (before ++ line :: after) = .ok (String.ofList v) ↔
      between? (delimiterOf line) line = some v := by
  have found : (before ++ line :: after).find? isVersionLine = some line := by
    rw [List.find?_append, find?_eq_none_of_unmarked hb, Option.none_or]
    exact List.find?_cons_of_pos (isVersionLine_iff.mpr hl)
  simp only [versionOf, found]
  cases between? (delimiterOf line) line
  case none => exact iff_of_false nofun nofun
  case some w => rw [Except.ok.injEq, String.ofList_inj, Option.some.injEq]

-- The right quote always delimits the version.
theorem delimits_assignment (rest : List Char) (hq : q = '"' ∨ q = '\'') (hv : q ∉ v) :
    Delimits q (assignment q v rest) v := by
  refine ⟨hv, _, q :: rest, rfl, ?_, .inr ⟨rest, rfl⟩⟩
  rcases hq with rfl | rfl <;> decide

theorem mem_assignment_iff (start : c ∉ versionMark ++ " = ".toList) (hq : c ≠ q) :
    c ∈ assignment q v rest ↔ c ∈ v ++ rest := by
  rw [assignment, List.mem_append, or_iff_right start, List.mem_cons, or_iff_right hq,
    List.mem_append, List.mem_cons, or_iff_right hq, List.mem_append]

theorem versionOf_assignment_iff (hq : q = '"' ∨ q = '\'') (hv : q ∉ v)
    (hb : ∀ l ∈ before, ¬ versionMark <+: l) :
    versionOf (before ++ assignment q v rest :: after) = .ok (String.ofList v) ↔
      '"' ∉ assignment q v rest ∨ Delimits '"' (assignment q v rest) v := by
  have ours := delimits_assignment rest hq hv
  rw [versionOf_append_eq_ok_iff hb (isVersionLine_iff.mp isVersionLine_assignment), delimiterOf]
  by_cases hd : '"' ∈ assignment q v rest
  case pos =>
    rw [if_pos hd, between?_eq_some_iff, or_iff_right (not_not_intro hd)]
  case neg =>
    have hq : q = '\'' := hq.resolve_left fun e => hd (e ▸ by simp [assignment])
    rw [if_neg hd, ← hq]
    exact iff_of_true (between?_of_delimits ours) (.inl hd)

-- The version is what the first line with the mark assigns, unless this is in single quotes and the
-- line has a double quote as well; then what the double quotes delimit is taken instead.
theorem version_assignment_iff (fs : Files) (s : String) (hs : fs.Holds versionPath s) :
    (∀ before q v rest after, Lined s.toList (before ++ assignment q v rest :: after) →
      (∀ l ∈ before, ¬ versionMark <+: l) → q = '"' ∨ q = '\'' → q ∉ v →
      (version fs = .ok (String.ofList v) ↔
        q = '"' ∨ '"' ∉ v ++ rest ∨ Delimits '"' (assignment q v rest) v)) ∧
    ∀ ls, Lined s.toList ls → (∀ l ∈ ls, ¬ versionMark <+: l) → version fs = .error .noVersion := by
  constructor
  case left =>
    intro before q v rest after hl hb hq hv
    rw [version_of_holds hs hl, versionOf_assignment_iff hq hv hb]
    rcases hq with rfl | rfl
    case inl => exact iff_of_true (.inr (delimits_assignment rest (.inl rfl) hv)) (.inl rfl)
    case inr =>
      have single : ¬ '\'' = '"' := by decide
      rw [mem_assignment_iff (by decide) (by decide), or_iff_right single]
  case right =>
    intro ls hl hm
    rw [version_of_holds hs hl, versionOf, find?_eq_none_of_unmarked hm]

def versionFile (text : String) : Files := Files.ofTexts [(versionPath, text)]

theorem holds_versionFile (text : String) : (versionFile text).Holds versionPath text :=
  ⟨["src", "py_sdl", "version.py"], rfl, rfl⟩

def noted : String := "# \"1.0\"\r\n__version__ = '1.2'  # stable\r\n"

theorem version_assignment_noted : version (versionFile noted) = .ok "1.2" := by
  have hl : Lined noted.toList
      (["# \"1.0\"\n".toList] ++ assignment '\'' "1.2".toList "  # stable\n".toList :: []) :=
    lined_iff.mpr (by decide +kernel)
  have ⟨assigned, _⟩ := version_assignment_iff _ noted (holds_versionFile noted)
  have before : ∀ l ∈ ["# \"1.0\"\n".toList], ¬ versionMark <+: l := by decide +kernel
  exact (assigned _ _ _ _ _ hl before (.inr rfl) (by decide)).mpr (.inr (.inl (by decide)))

-- A word in double quotes behind the version is taken for it.
def annotated : String := "__version__ = '1.0'  # \"stable\"\n"

theorem not_version_assignment :
    ¬ ∀ (fs : Files) (s : String), fs.Holds versionPath s → ∀ before q v rest after,
      Lined s.toList (before ++ assignment q v rest :: after) →
      (∀ l ∈ before, ¬ versionMark <+: l) → q = '"' ∨ q = '\'' → q ∉ v →
      version fs = .ok (String.ofList v) := by
  intro h
  have hl : Lined annotated.toList
      ([] ++ assignment '\'' "1.0".toList "  # \"stable\"\n".toList :: []) :=
    lined_iff.mpr (by decide +kernel)
  have h := h _ annotated (holds_versionFile annotated) _ _ _ _ _ hl nofun (.inr rfl) (by decide)
  exact absurd h (by decide +kernel)

end GraphSchema.Package
