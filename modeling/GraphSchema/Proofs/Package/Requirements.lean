import Mathlib.Data.List.TakeWhile
import GraphSchema.Package.Requirements
import GraphSchema.Proofs.Constant.Scan
import GraphSchema.Proofs.Package.Lines

namespace GraphSchema.Package

open Lines Outcome Scan

-- What is left of a line when the white space at both of its ends is taken off.
structure Strips (line t : List Char) : Prop where
  around : ∃ a b, line = a ++ t ++ b ∧ (∀ c ∈ a, isBlank c) ∧ ∀ c ∈ b, isBlank c
  first : ∀ c ∈ t.head?, isBlank c = false
  last : ∀ c ∈ t.getLast?, isBlank c = false

-- It is a requirement if it is neither empty nor a comment nor an option.
structure IsEntry (t : List Char) : Prop where
  text : t ≠ []
  noComment : t.head? ≠ some '#'
  noOption : t.head? ≠ some '-'

-- The requirements of some lines, in order.
inductive Extracts : List (List Char) → List String → Prop
  | nil : Extracts [] []
  | skip {l t : List Char} {ls : List (List Char)} {es : List String} (strips : Strips l t)
      (other : ¬ IsEntry t) (more : Extracts ls es) : Extracts (l :: ls) es
  | take {l t : List Char} {ls : List (List Char)} {es : List String} (strips : Strips l t)
      (entry : IsEntry t) (more : Extracts ls es) : Extracts (l :: ls) (String.ofList t :: es)

variable {b cs l t : List Char} {ls : List (List Char)} {e path s : String} {es : List String}
  {fs : Files}

-- Stripping.

theorem dropWhile_isBlank_of_all (h : ∀ c ∈ l, isBlank c) : l.dropWhile isBlank = [] :=
  List.dropWhile_eq_nil_iff.mpr h

theorem stripBlank_of_strips (h : Strips l t) : stripBlank l = t := by
  obtain ⟨⟨a, b, rfl, ha, hb⟩, first, last⟩ := h
  cases ht : t
  case nil =>
    have blank : ∀ c ∈ a ++ [] ++ b, isBlank c := by
      simpa [or_imp, forall_and] using ⟨ha, hb⟩
    rw [stripBlank, dropWhile_isBlank_of_all blank]
    rfl
  case cons c cs =>
    rw [← ht]
    have front : (a ++ t ++ b).dropWhile isBlank = t ++ b := by
      rw [List.append_assoc]
      exact dropWhile_append ha (by simpa [ht] using first)
    have back : (b.reverse ++ t.reverse).dropWhile isBlank = t.reverse :=
      dropWhile_append (fun c hc => hb c (List.mem_reverse.mp hc)) (by simpa using last)
    rw [stripBlank, front, List.reverse_append, back, List.reverse_reverse]

theorem strips_stripBlank (l : List Char) : Strips l (stripBlank l) := by
  have front := List.takeWhile_append_dropWhile (p := isBlank) (l := l)
  have back : l.dropWhile isBlank =
      stripBlank l ++ ((l.dropWhile isBlank).reverse.takeWhile isBlank).reverse := by
    rw [stripBlank, ← List.reverse_append, List.takeWhile_append_dropWhile, List.reverse_reverse]
  constructor
  case around =>
    refine ⟨l.takeWhile isBlank, ((l.dropWhile isBlank).reverse.takeWhile isBlank).reverse, ?_,
      fun c hc => List.mem_takeWhile_imp hc, fun c hc => ?_⟩
    · rw [List.append_assoc, ← back, front]
    · exact List.mem_takeWhile_imp (List.mem_reverse.mp hc)
  case first =>
    intro c hc
    have hc : c ∈ (l.dropWhile isBlank).head? := by
      rw [back]
      exact List.mem_head?_append_of_mem_head? hc
    have head := List.head?_dropWhile_not isBlank l
    rw [hc] at head
    simpa using head
  case last =>
    intro c hc
    have head := List.head?_dropWhile_not isBlank (l.dropWhile isBlank).reverse
    rw [stripBlank, List.getLast?_reverse] at hc
    rw [hc] at head
    simpa using head

theorem Strips.append (h : Strips l t) (hb : ∀ c ∈ b, isBlank c) : Strips (l ++ b) t := by
  obtain ⟨⟨a, b', rfl, ha, hb'⟩, first, last⟩ := h
  refine ⟨⟨a, b' ++ b, List.append_assoc .., ha, ?_⟩, first, last⟩
  exact List.forall_mem_append.mpr ⟨hb', hb⟩

-- The requirements of the lines of one file.

theorem isRequirement_iff : isRequirement t ↔ IsEntry t := by
  cases t
  case nil => exact iff_of_false nofun fun h => h.text rfl
  case cons c cs =>
    have parts : isRequirement (c :: cs) ↔ c ≠ '#' ∧ c ≠ '-' := by simp [isRequirement]
    rw [parts]
    constructor
    · intro ⟨hc, ho⟩
      exact ⟨nofun, fun e => hc (Option.some.inj e), fun e => ho (Option.some.inj e)⟩
    · intro ⟨_, hc, ho⟩
      exact ⟨fun e => hc (e ▸ rfl), fun e => ho (e ▸ rfl)⟩

theorem extracts_iff : Extracts ls es ↔ requirementsOf ls = es := by
  constructor
  · intro h
    induction h
    case nil => rfl
    case skip strips other more hi =>
      have out : ¬ isRequirement _ := mt isRequirement_iff.mp (stripBlank_of_strips strips ▸ other)
      rw [requirementsOf, List.map_cons, List.filter_cons_of_neg out]
      exact hi
    case take strips entry more hi =>
      have strips := stripBlank_of_strips strips
      have kept := isRequirement_iff.mpr (strips ▸ entry)
      rw [requirementsOf, List.map_cons, List.filter_cons_of_pos kept, List.map_cons, strips]
      exact congrArg _ hi
  · rintro rfl
    induction ls
    case nil => exact .nil
    case cons l ls hi =>
      rw [requirementsOf, List.map_cons]
      by_cases h : isRequirement (stripBlank l)
      case pos =>
        rw [List.filter_cons_of_pos h]
        exact .take (strips_stripBlank l) (isRequirement_iff.mp h) hi
      case neg =>
        rw [List.filter_cons_of_neg h]
        exact .skip (strips_stripBlank l) (mt isRequirement_iff.mpr h) hi

theorem fileRequirements_eq_ok_iff : fileRequirements fs path = .ok es ↔
    ∃ s ls, fs.Holds path s ∧ Lined s.toList ls ∧ Extracts ls es := by
  simp only [fileRequirements, bind_eq_ok, pure_eq_ok, extracts_iff]
  constructor
  · rintro ⟨ls, hl, he⟩
    obtain ⟨s, hs, hl⟩ := Files.exists_holds_of_readLines hl
    exact ⟨s, ls, hs, hl, he⟩
  · rintro ⟨s, ls, hs, hl, he⟩
    exact ⟨ls, Files.readLines_of_holds hs hl, he⟩

theorem requirements_single (fs : Files) (path : String) :
    requirements fs [path] = fileRequirements fs path := by
  rw [requirements, List.mapM_cons]
  cases fileRequirements fs path
  case error => rfl
  case ok es => exact congrArg Except.ok (List.append_nil es)

-- What is true of every requirement.
structure IsClean (e : String) : Prop where
  entry : IsEntry e.toList
  strips : Strips e.toList e.toList
  whole : ∀ c ∈ e.toList, ¬ IsBreak c

theorem Strips.self (h : Strips l t) : Strips t t :=
  ⟨⟨[], [], by simp, nofun, nofun⟩, h.first, h.last⟩

theorem Strips.whole (h : Strips l t) (hs : Lined cs ls) (hl : l ∈ ls) : ∀ c ∈ t, ¬ IsBreak c := by
  obtain ⟨w, whole, hw⟩ := hs.exists_whole hl
  have hw : Strips l (stripBlank w) := by
    rcases hw with rfl | rfl
    case inl => exact strips_stripBlank l
    case inr => exact (strips_stripBlank w).append (by simp [isBlank_newline])
  have same : t = stripBlank w := (stripBlank_of_strips h).symm.trans (stripBlank_of_strips hw)
  obtain ⟨a, b, e, _, _⟩ := (strips_stripBlank w).around
  intro c hc
  exact whole c (e ▸ by simp [← same, hc])

theorem Extracts.isClean (h : Extracts ls es) (lines : ∀ l ∈ ls, ∀ t, Strips l t →
    ∀ c ∈ t, ¬ IsBreak c) : ∀ e ∈ es, IsClean e := by
  induction h
  case nil => nofun
  case skip strips other more hi => exact hi fun l hl => lines l (List.mem_cons_of_mem _ hl)
  case take l t ls es strips entry more hi =>
    have ⟨here, later⟩ := List.forall_mem_cons.mp lines
    refine List.forall_mem_cons.mpr ⟨?_, hi later⟩
    constructor <;> rw [String.toList_ofList]
    case entry => exact entry
    case strips => exact strips.self
    case whole => exact here t strips

-- A text that has one requirement in each line.
def OnePerLine (s : String) (es : List String) : Prop :=
  ∃ ls, Lined s.toList ls ∧
    List.Forall₂ (fun l (e : String) => l = e.toList ∨ l = e.toList ++ ['\n']) ls es

def unlines (es : List String) : String := String.join (es.map (· ++ "\n"))

theorem onePerLine_unlines (h : ∀ e ∈ es, IsClean e) : OnePerLine (unlines es) es := by
  induction es
  case nil => exact ⟨[], .nil, .nil⟩
  case cons e es hi =>
    have ⟨he, hes⟩ := List.forall_mem_cons.mp h
    have ⟨ls, hl, each⟩ := hi hes
    refine ⟨(e.toList ++ ['\n']) :: ls, ?_, .cons (.inr rfl) each⟩
    have text : (unlines (e :: es)).toList = e.toList ++ ['\n'] ++ (unlines es).toList := by
      simp [unlines, String.join_cons]
    rw [text]
    exact .line he.whole (.feed _) hl

theorem extracts_of_forall₂ (h : ∀ e ∈ es, IsClean e)
    (each : List.Forall₂ (fun l (e : String) => l = e.toList ∨ l = e.toList ++ ['\n']) ls es) :
    Extracts ls es := by
  induction each
  case nil => exact .nil
  case cons l e ls es hl _ hi =>
    have ⟨he, hes⟩ := List.forall_mem_cons.mp h
    have strips : Strips l e.toList := by
      rcases hl with rfl | rfl
      case inl => exact he.strips
      case inr => exact he.strips.append (by simp [isBlank_newline])
    have extracts := Extracts.take strips he.entry (hi hes)
    rwa [String.ofList_toList] at extracts

-- The requirements of files are those of each file, one file after the other; and a file of them,
-- one in each line, has these requirements.
theorem requirements_files (fs : Files) (paths : List String)
    (exist : ∀ path ∈ paths, ∃ s, fs.Holds path s) :
    ∃ ess : List (List String), requirements fs paths = .ok ess.flatten ∧
      List.Forall₂ (fun path es => requirements fs [path] = .ok es ∧
        ∃ s ls, fs.Holds path s ∧ Lined s.toList ls ∧ Extracts ls es) paths ess ∧
      (∀ e ∈ ess.flatten, IsClean e) ∧
      OnePerLine (unlines ess.flatten) ess.flatten ∧
      ∀ (fs' : Files) (path s : String), fs'.Holds path s → OnePerLine s ess.flatten →
        requirements fs' [path] = .ok ess.flatten := by
  have each : ∀ path ∈ paths, Succeeds (fileRequirements fs path) := by
    intro path hp
    have ⟨s, hs⟩ := exist path hp
    have ⟨ls, hl⟩ := exists_lined s.toList
    exact ⟨_, fileRequirements_eq_ok_iff.mpr ⟨s, ls, hs, hl, extracts_iff.mpr rfl⟩⟩
  have ⟨ess, all⟩ := succeeds_mapM.mpr each
  have clean : ∀ e ∈ ess.flatten, IsClean e := by
    intro e he
    have ⟨es, hes, he⟩ := List.mem_flatten.mp he
    have ⟨path, _, hp⟩ := mem_of_mapM_eq_ok all hes
    have ⟨s, ls, _, hl, extracts⟩ := fileRequirements_eq_ok_iff.mp hp
    exact extracts.isClean (fun l hm t strips => strips.whole hl hm) e he
  refine ⟨ess, ?_, ?_, clean, onePerLine_unlines clean, ?_⟩
  · rw [requirements, all]
    rfl
  · refine (forall₂_of_mapM all).imp fun path es h => ?_
    rw [requirements_single]
    exact ⟨h, fileRequirements_eq_ok_iff.mp h⟩
  · intro fs' path s hs ⟨ls, hl, lines⟩
    rw [requirements_single]
    exact fileRequirements_eq_ok_iff.mpr ⟨s, ls, hs, hl, extracts_of_forall₂ clean lines⟩

-- White space that ends no line is taken off at the ends of a line and stays in the middle of it.
def plainFile : String := "# base\r\n\u0085click \u2028\r-r more.txt\na\u2028b"

def extraFile : String := "\n  -e .\n#\n\tpytest>=5 # tests"

def twoFiles : Files := Files.ofTexts [("plain.txt", plainFile), ("more/extra.txt", extraFile)]

def twoFilesRequirements : List String := ["click", "a\u2028b", "pytest>=5 # tests"]

theorem requirements_twoFiles :
    requirements twoFiles ["plain.txt", "more/extra.txt"] = .ok twoFilesRequirements ∧
      (∀ e ∈ twoFilesRequirements, IsClean e) ∧
      OnePerLine (unlines twoFilesRequirements) twoFilesRequirements ∧
      ∀ (fs : Files) (path s : String), fs.Holds path s → OnePerLine s twoFilesRequirements →
        requirements fs [path] = .ok twoFilesRequirements := by
  have exist : ∀ path ∈ ["plain.txt", "more/extra.txt"], ∃ s, twoFiles.Holds path s := by
    refine List.forall_mem_cons.mpr ⟨⟨plainFile, ["plain.txt"], rfl, rfl⟩, ?_⟩
    exact List.forall_mem_singleton.mpr ⟨extraFile, ["more", "extra.txt"], rfl, rfl⟩
  have ⟨ess, all, _, clean, written, again⟩ := requirements_files twoFiles _ exist
  have found :
      requirements twoFiles ["plain.txt", "more/extra.txt"] = .ok twoFilesRequirements := by
    decide +kernel
  have same : ess.flatten = twoFilesRequirements := Except.ok.inj (all.symm.trans found)
  rw [same] at clean written again
  exact ⟨found, clean, written, again⟩

end GraphSchema.Package
