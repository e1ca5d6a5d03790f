import BdxReco.Lib.StdMap
import BdxReco.Lib.Stream
import BdxReco.Lib.Words
import Mathlib.Data.List.TakeWhile

/-!
# `TT.TableFile` — the text of the translation table

`ReadTranslationTable` takes the XML text from the calibration database, where it is one string, or from a local file,
which it reads line by line. The purpose of both is the same: to hand the document to the parser. What matters of a
document are its words, so the two agree when the loop over the lines keeps the words of the file.

The loop puts the lines together without what was between them, and it stops at a line that its array cannot hold.
`sameWords_iff` says which files it reads right.
-/

namespace BdxReco

open Words

/-- A text, as the characters of a file or a string. -/
abbrev Text : Type := List Char

/-- The character that ends a C string. -/
def nul : Char := Char.ofNat 0

/-- What `<<` makes of a `char` array. -/
def cString (line : Text) : Text := line.takeWhile (fun c => !(c == nul))

/-- The size of the array `line`. -/
def lineSize : Nat := 4096

/-- The loop over the lines, `ss` being what the string stream holds; `none` when the fuel runs out. -/
def readLines : Nat → IStream → Text → Option Text
  | 0, _, _ => none
  | fuel + 1, ifs, ss =>
    if ifs.good then readLines fuel (ifs.getline lineSize).1 (ss ++ cString (ifs.getline lineSize).2)
    else some ss

/-- The text read from a local file; `readLines_lines` shows that the fuel is enough. -/
def readFile (content : Text) : Option Text := readLines (content.length + 2) { rest := content } []

/-- The text that the database has: its answer has to have one entry. `none` if it is not asked. -/
def dbText : Option (StdMap String Text) → Text
  | none => []
  | some tt =>
    match tt.entries with
    | [(_, text)] => text
    | _ => []

/-- The text handed to the parser; `file` is the content of the local file. `none` if that cannot be opened, and then
    nothing is parsed. -/
def ttXml (tt : Option (StdMap String Text)) (file : Option Text) : Option Text :=
  if (dbText tt).length = 0 then file.bind readFile else some (dbText tt)

/-- The text of the database is handed on as it is. -/
theorem ttXml_database {tt : Option (StdMap String Text)} (hne : dbText tt ≠ []) (file : Option Text) :
    ttXml tt file = some (dbText tt) := by
  have hlength : (dbText tt).length ≠ 0 := fun hzero => hne (List.length_eq_zero_iff.mp hzero)
  rw [ttXml, if_neg hlength]

/-- The file is read when the database has nothing. -/
theorem ttXml_file {tt : Option (StdMap String Text)} (hnil : dbText tt = []) (content : Text) :
    ttXml tt (some content) = readFile content := by
  rw [ttXml, hnil, if_pos (by rfl), Option.bind_some]

/-! ## What the loop reads -/

/-- What the loop makes of the lines of a file. -/
def joined : List Text → Text
  | [] => []
  | line :: lines =>
    if line.length < lineSize then cString line ++ joined lines else cString (line.take (lineSize - 1))

theorem joined_short {line : Text} (hshort : line.length < lineSize) (lines : List Text) :
    joined (line :: lines) = cString line ++ joined lines := by
  rw [joined, if_pos hshort]

theorem joined_long {line : Text} (hlong : ¬ line.length < lineSize) (lines : List Text) :
    joined (line :: lines) = cString (line.take (lineSize - 1)) := by
  rw [joined, if_neg hlong]

theorem readLines_stopped {fuel : Nat} {ifs : IStream} (hgood : ifs.good = false) (ss : Text) :
    readLines (fuel + 1) ifs ss = some ss := by
  rw [readLines, if_neg (by simp [hgood])]

/-- A turn of the loop over a text that is not empty. -/
theorem readLines_turn {fuel : Nat} {text line : Text} {next : IStream} (hne : text ≠ [])
    (htake : IStream.takeLine (lineSize - 1) text = (next, line)) (ss : Text) :
    readLines (fuel + 1) { rest := text } ss = readLines fuel next (ss ++ cString line) := by
  have hget : IStream.getline { rest := text } lineSize = (next, line) := by
    unfold IStream.getline
    simp [IStream.good, hne, htake]
  rw [readLines, hget, if_pos (by rfl)]

/-- **The loop runs to its end**, and this is what it has read. -/
theorem readLines_lines {lines : List Text} (hne : lines ≠ []) (hlines : ∀ line ∈ lines, '\n' ∉ line) {fuel : Nat}
    (hfuel : lines.length < fuel) (ss : Text) :
    readLines fuel { rest := ['\n'].intercalate lines } ss = some (ss ++ joined lines) := by
  induction lines generalizing fuel ss with
  | nil => exact absurd rfl hne
  | cons line lines ih =>
      obtain ⟨fuel, rfl⟩ : ∃ n, fuel = n + 2 := ⟨fuel - 2, by simp only [List.length_cons] at hfuel; omega⟩
      have hline : '\n' ∉ line := hlines line (by simp)
      by_cases hshort : line.length < lineSize
      · have hroom : line.length ≤ lineSize - 1 := Nat.le_sub_one_of_lt hshort
        cases lines with
        | nil =>
            rw [List.intercalate_singleton, joined_short hshort, joined, List.append_nil]
            by_cases hempty : line = []
            · -- the last line is empty: nothing is taken, and the stream fails
              subst hempty
              rfl
            · rw [readLines_turn hempty (IStream.takeLine_last hline hroom)]
              exact readLines_stopped rfl _
        | cons line' lines =>
            rw [List.intercalate_cons_cons, List.append_assoc, List.singleton_append]
            rw [readLines_turn (by simp) (IStream.takeLine_newline hline hroom _)]
            rw [ih (by simp) (fun l hl => hlines l (List.mem_cons_of_mem _ hl))
              (by simp only [List.length_cons] at hfuel ⊢; omega)]
            rw [joined_short hshort, List.append_assoc]
      · have hlong : lineSize - 1 < line.length := by
          have hpos : 0 < lineSize := by decide
          omega
        have htext : ∃ cs, ['\n'].intercalate (line :: lines) = line ++ cs := by
          cases lines with
          | nil => exact ⟨[], by rw [List.intercalate_singleton, List.append_nil]⟩
          | cons line' lines => exact ⟨_, by rw [List.intercalate_cons_cons, List.append_assoc]⟩
        obtain ⟨cs, hcs⟩ := htext
        have hfull : line ++ cs ≠ [] := by
          intro hnil
          rw [(List.append_eq_nil_iff.mp hnil).1] at hlong
          exact absurd hlong (Nat.not_lt_zero _)
        rw [hcs, readLines_turn hfull (IStream.takeLine_long hline hlong cs), readLines_stopped rfl,
          joined_long hshort]

/-! ## Which files are read right -/

/-- The lines of a text. -/
def linesOf (content : Text) : List Text := content.splitOn '\n'

/-- The lines, each with its end: the text with one more end of line. -/
theorem flatMap_newline {lines : List Text} (hne : lines ≠ []) :
    lines.flatMap (fun line => line ++ ['\n']) = ['\n'].intercalate lines ++ ['\n'] := by
  induction lines with
  | nil => exact absurd rfl hne
  | cons line lines ih =>
      cases lines with
      | nil => simp [List.intercalate_singleton]
      | cons line' lines =>
          rw [List.flatMap_cons, ih (by simp), List.intercalate_cons_cons]
          simp

theorem flatMap_linesOf (content : Text) :
    (linesOf content).flatMap (fun line => line ++ ['\n']) = content ++ ['\n'] := by
  have hne : linesOf content ≠ [] := List.splitOn_ne_nil _ _
  rw [flatMap_newline hne, linesOf, List.intercalate_splitOn]

theorem newline_not_mem_linesOf {content line : Text} (hline : line ∈ linesOf content) : '\n' ∉ line := by
  rw [linesOf, List.splitOn_eq_splitOnP] at hline
  intro hmem
  have hletter := letter_of_mem_splitOnP hline '\n' hmem
  exact absurd hletter (by decide)

/-- There are at most one more lines than characters. -/
theorem length_linesOf (content : Text) : (linesOf content).length ≤ content.length + 1 := by
  have hlength := congrArg List.length (flatMap_linesOf content)
  rw [List.length_append, List.length_singleton] at hlength
  rw [← hlength]
  generalize linesOf content = lines
  induction lines with
  | nil => exact Nat.le_refl 0
  | cons line lines ih =>
      simp only [List.length_cons, List.flatMap_cons, List.length_append]
      omega

/-- The text of a file. -/
theorem readFile_eq (content : Text) : readFile content = some (joined (linesOf content)) := by
  have hne : linesOf content ≠ [] := List.splitOn_ne_nil _ _
  have hlength := length_linesOf content
  have hfuel : (linesOf content).length < content.length + 2 := by omega
  have hread := readLines_lines hne (fun line hline => newline_not_mem_linesOf hline) hfuel []
  have hcontent : ['\n'].intercalate (linesOf content) = content := List.intercalate_splitOn '\n'
  rwa [hcontent, List.nil_append] at hread

/-- The lines that the array cannot hold, and all that follows them, are blank from the place on where they are cut. -/
def CutBlank (lines : List Text) : Prop :=
  ∀ pre line post, lines = pre ++ line :: post → lineSize ≤ line.length →
    (∀ c ∈ line.drop (lineSize - 1), IStream.isSpace c = true) ∧ ∀ l ∈ post, ∀ c ∈ l, IStream.isSpace c = true

theorem cutBlank_short {line : Text} (hshort : line.length < lineSize) (lines : List Text) :
    CutBlank (line :: lines) ↔ CutBlank lines := by
  constructor
  · intro h pre l post hlines hlong
    exact h (line :: pre) l post (by rw [hlines, List.cons_append]) hlong
  · intro h pre l post hlines hlong
    cases pre with
    | nil =>
        obtain ⟨rfl, -⟩ := List.cons.inj hlines
        omega
    | cons l' pre => exact h pre l post (List.cons.inj hlines).2 hlong

theorem cutBlank_long {line : Text} (hlong : lineSize ≤ line.length) (lines : List Text) :
    CutBlank (line :: lines) ↔
      (∀ c ∈ line.drop (lineSize - 1), IStream.isSpace c = true) ∧ ∀ l ∈ lines, ∀ c ∈ l, IStream.isSpace c = true := by
  constructor
  · intro h
    exact h [] line lines rfl hlong
  · rintro ⟨hline, hlines⟩ pre l post hsplit _
    cases pre with
    | nil =>
        obtain ⟨rfl, rfl⟩ := List.cons.inj hsplit
        exact ⟨hline, hlines⟩
    | cons l' pre =>
        obtain ⟨-, rfl⟩ := List.cons.inj hsplit
        exact ⟨fun c hc => hlines l (by simp) c (List.mem_of_mem_drop hc),
          fun l'' hl'' => hlines l'' (by simp [hl''])⟩

theorem nul_not_mem_joined (lines : List Text) : nul ∉ joined lines := by
  have hstring : ∀ line : Text, nul ∉ cString line := by
    intro line hmem
    have hne := List.mem_takeWhile_imp hmem
    simp at hne
  induction lines with
  | nil => exact List.not_mem_nil
  | cons line lines ih =>
      by_cases hshort : line.length < lineSize
      · rw [joined_short hshort, List.mem_append]
        exact not_or.mpr ⟨hstring line, ih⟩
      · rw [joined_long hshort]
        exact hstring _

/-- A line without NUL is put into the stream as it is. -/
theorem cString_eq_filter {line : Text} (hnul : nul ∉ line) (hend : '\n' ∉ line) :
    cString line = line.filter (fun c => !(c == '\n')) := by
  have hall : ∀ c ∈ line, (!(c == nul)) = true := by
    intro c hc
    have hne : c ≠ nul := fun heq => hnul (heq ▸ hc)
    simp [hne]
  have hkeep : ∀ c ∈ line, (!(c == '\n')) = true := by
    intro c hc
    have hne : c ≠ '\n' := fun heq => hend (heq ▸ hc)
    simp [hne]
  rw [cString, List.takeWhile_eq_self_iff.mpr hall, List.filter_eq_self.mpr hkeep]

/-- What is cut off is blank when the rest of the line and the lines after it are. -/
theorem blank_lost_iff (tail : Text) (lines : List Text) :
    (∀ c ∈ tail ++ '\n' :: lines.flatMap (fun line => line ++ ['\n']), IStream.isSpace c = true) ↔
      (∀ c ∈ tail, IStream.isSpace c = true) ∧ ∀ l ∈ lines, ∀ c ∈ l, IStream.isSpace c = true := by
  have hblank : IStream.isSpace '\n' = true := rfl
  simp only [List.mem_append, List.mem_cons, List.mem_flatMap, List.not_mem_nil, or_false]
  constructor
  · intro h
    exact ⟨fun c hc => h c (Or.inl hc), fun l hl c hc => h c (Or.inr (Or.inr ⟨l, hl, Or.inl hc⟩))⟩
  · rintro ⟨htail, hlines⟩ c (hc | rfl | ⟨l, hl, hc | rfl⟩)
    · exact htail c hc
    · exact hblank
    · exact hlines l hl c hc
    · exact hblank

/-- What is read of a file without NUL: the text up to the cut, less the ends of its lines. -/
theorem joined_eq_filter {lines : List Text} (hnul : ∀ line ∈ lines, nul ∉ line)
    (hlines : ∀ line ∈ lines, '\n' ∉ line) :
    ∃ kept lost, lines.flatMap (fun line => line ++ ['\n']) = kept ++ lost ∧
      joined lines = kept.filter (fun c => !(c == '\n')) ∧
      (CutBlank lines ↔ ∀ c ∈ lost, IStream.isSpace c = true) := by
  induction lines with
  | nil =>
      refine ⟨[], [], rfl, rfl, fun _ => by simp, fun _ => ?_⟩
      intro pre line post hnil
      exact absurd hnil.symm (by simp)
  | cons line lines ih =>
      have hline := hnul line (by simp)
      have hend := hlines line (by simp)
      by_cases hshort : line.length < lineSize
      · obtain ⟨kept, lost, htext, hjoined, hcut⟩ := ih (fun l hl => hnul l (List.mem_cons_of_mem _ hl))
          (fun l hl => hlines l (List.mem_cons_of_mem _ hl))
        refine ⟨line ++ '\n' :: kept, lost, by simp [htext], ?_, (cutBlank_short hshort lines).trans hcut⟩
        rw [joined_short hshort, cString_eq_filter hline hend, hjoined]
        simp
      · have htake : nul ∉ line.take (lineSize - 1) := fun hmem => hline (List.mem_of_mem_take hmem)
        have htake' : '\n' ∉ line.take (lineSize - 1) := fun hmem => hend (List.mem_of_mem_take hmem)
        refine ⟨line.take (lineSize - 1),
          line.drop (lineSize - 1) ++ '\n' :: lines.flatMap (fun line => line ++ ['\n']), ?_, ?_, ?_⟩
        · rw [List.flatMap_cons, ← List.append_assoc, List.take_append_drop]
          simp
        · rw [joined_long hshort, cString_eq_filter htake htake']
        · rw [cutBlank_long (Nat.not_lt.mp hshort), blank_lost_iff]

/-- The parser is handed the words of the file, whenever it is the file that is read. -/
def SameWords (content : Text) : Prop :=
  ∀ tt, dbText tt = [] → ∃ text, ttXml tt (some content) = some text ∧
    words IStream.isSpace text = words IStream.isSpace content

/-- The files that the loop over the lines does not spoil: there is no NUL in the file, nothing but white space is cut
    off, and no two words are held apart by ends of lines only. -/
structure Unspoilt (content : Text) : Prop where
  noNul : nul ∉ content
  cutBlank : CutBlank (linesOf content)
  apart : Apart IStream.isSpace (fun c => c == '\n') content

theorem joined_words_iff {content : Text} (hnul : nul ∉ content) :
    words IStream.isSpace (joined (linesOf content)) = words IStream.isSpace content ↔
      CutBlank (linesOf content) ∧ Apart IStream.isSpace (fun c => c == '\n') content := by
  have hnewline : ∀ c, (c == '\n') = true → IStream.isSpace c = true := by
    intro c hc
    rw [eq_of_beq hc]
    decide
  have hend : ∀ c ∈ ['\n'], IStream.isSpace c = true := by
    intro c hc
    apply hnewline
    rw [List.mem_singleton.mp hc]
    exact beq_self_eq_true _
  have hmem : ∀ line ∈ linesOf content, nul ∉ line := by
    intro line hline hin
    have htext : nul ∈ content ++ ['\n'] := by
      rw [← flatMap_linesOf, List.mem_flatMap]
      exact ⟨line, hline, List.mem_append_left _ hin⟩
    rcases List.mem_append.mp htext with hcontent | hlast
    · exact hnul hcontent
    · exact absurd (List.mem_singleton.mp hlast) (by decide)
  obtain ⟨kept, lost, htext, hjoined, hcut⟩ :=
    joined_eq_filter hmem (fun line hline => newline_not_mem_linesOf hline)
  have hwords : words IStream.isSpace (content ++ ['\n']) = words IStream.isSpace content :=
    words_append_of_blank hend
  rw [flatMap_linesOf] at htext
  rw [hjoined, ← hwords, ← apart_append_of_blank hend, htext, words_filter_iff hnewline, hcut]

/-- **The file is read with its words** exactly when the loop does not spoil it. -/
theorem sameWords_iff (content : Text) : SameWords content ↔ Unspoilt content := by
  have hread : SameWords content ↔
      words IStream.isSpace (joined (linesOf content)) = words IStream.isSpace content := by
    constructor
    · intro h
      obtain ⟨text, htext, hwords⟩ := h none rfl
      rw [ttXml_file rfl, readFile_eq] at htext
      rwa [Option.some.inj htext]
    · intro h tt htt
      exact ⟨_, by rw [ttXml_file htt, readFile_eq], h⟩
  rw [hread]
  constructor
  · intro h
    have hnul : nul ∉ content := by
      intro hmem
      have hletter : nul ∈ content.filter (fun c => !IStream.isSpace c) :=
        List.mem_filter.mpr ⟨hmem, by decide⟩
      rw [← filter_of_words_eq h] at hletter
      exact nul_not_mem_joined _ (List.mem_filter.mp hletter).1
    obtain ⟨hcut, hapart⟩ := (joined_words_iff hnul).mp h
    exact ⟨hnul, hcut, hapart⟩
  · rintro ⟨hnul, hcut, hapart⟩
    exact (joined_words_iff hnul).mpr ⟨hcut, hapart⟩

/-- A tag whose name ends where its line ends. -/
def brokenTag : Text := "<slot\nnumber=\"0\"/>".toList

/-- The name of the tag and of its attribute become one word. -/
theorem brokenTag_not_same : ¬ SameWords brokenTag := by
  intro h
  obtain ⟨text, htext, hwords⟩ := h none rfl
  obtain rfl : "<slotnumber=\"0\"/>".toList = text := Option.some.inj htext
  revert hwords
  decide +kernel

end BdxReco
