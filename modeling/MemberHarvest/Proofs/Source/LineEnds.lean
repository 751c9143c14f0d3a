import MemberHarvest.Harvest.Projects
import MemberHarvest.Proofs.Source.Reading
import MemberHarvest.Proofs.Text.LineEnds
import MemberHarvest.Proofs.Text.Utf8

/-!
# Proofs/Source/LineEnds — reading undoes every way of ending lines

What a file stores is read as the lines of any legible layout of it (`read_of_stores`), so that a
byte order mark and the ends of the lines leave no trace in what is read. Other bytes are
undecodable (`read_of_not_utf8`), but for two beginnings of a byte order mark. A harvest sees its
workspace through reading alone; hence it comes to the same where the lines of source files end
otherwise (`harvestProjects_restyled`).
-/

namespace MemberHarvest.Source

open Text (Layout Stores)

variable {w w' : Workspace} {path : Path} {bytes : Text.Bytes} {text : List Char} {d : Layout}

/-! ## Reading a file -/

/-- Reading gives the lines of what the bytes decode to. -/
theorem read_of_decode (hbytes : w.readBytes path = .ok bytes)
    (hdecode : Text.Encoding.utf8Marked.decode bytes = .ok text) :
    read w Settings.defaultEncoding path = .ok ⟨path, (Text.sourceLines text).map String.ofList⟩ :=
  read_eq_ok_iff.2 ⟨bytes, text, hbytes, hdecode, rfl⟩

/-- **A layout is read back as its lines,** with or without a byte order mark in front. The three
kinds of ends may be mixed, and the last line may have none. -/
theorem read_of_stores (hbytes : w.readBytes path = .ok bytes) (hlegible : d.Legible)
    (hstores : Stores bytes d.text) :
    read w Settings.defaultEncoding path = .ok ⟨path, d.lines.map String.ofList⟩ := by
  rw [read_of_decode hbytes (Text.decode_of_stores hstores), Text.sourceLines_text hlegible]

/-- Two beginnings of a byte order mark are read as no lines. -/
theorem read_of_truncated_mark (hbytes : w.readBytes path = .ok bytes)
    (htruncated : bytes = [0xEF] ∨ bytes = [0xEF, 0xBB]) :
    read w Settings.defaultEncoding path = .ok ⟨path, []⟩ :=
  read_of_decode hbytes (Text.decode_utf8Marked_eq_ok_iff.2 (.inr ⟨rfl, htruncated⟩))

/-- **Bytes that are those of no text are undecodable,** and the failure names the file. The decoder
waits for more bytes after the beginning of a mark, and so these two are no failure. -/
theorem read_of_not_utf8 (hbytes : w.readBytes path = .ok bytes)
    (hutf8 : ∀ text, bytes ≠ Text.Utf8.encode text)
    (htruncated : ¬ (bytes = [0xEF] ∨ bytes = [0xEF, 0xBB])) :
    read w Settings.defaultEncoding path = .error (.read path .undecodable) := by
  rw [read_defaultEncoding, hbytes]
  cases hdecode : Text.Encoding.utf8Marked.decode bytes with
  | error cause =>
    obtain rfl := eq_undecodable_of_decode hdecode
    simp only [hdecode, failureOf]
  | ok text =>
    rcases Text.decode_utf8Marked_eq_ok_iff.1 hdecode with (rfl | ⟨rfl, -⟩) | ⟨-, h⟩
    · exact absurd rfl (hutf8 ('\ufeff' :: text))
    · exact absurd rfl (hutf8 text)
    · exact absurd h htruncated

/-! ## Files with other line ends -/

/-- What a path leads to in two workspaces: the same, or the same lines with other ends or another
beginning. -/
inductive Restyled (w w' : Workspace) (path : Path) : Prop
  | same (bytes : w'.readBytes path = w.readBytes path)
  | ends {d d' : Layout} {bytes bytes' : Text.Bytes} (lines : d'.lines = d.lines)
      (reads : w.readBytes path = .ok bytes) (legible : d.Legible) (stores : Stores bytes d.text)
      (reads' : w'.readBytes path = .ok bytes') (legible' : d'.Legible)
      (stores' : Stores bytes' d'.text)

/-- **A file whose line ends are exchanged reads as before.** Both files store layouts with the same
lines. -/
theorem Restyled.read_eq (h : Restyled w w' path) :
    read w' Settings.defaultEncoding path = read w Settings.defaultEncoding path := by
  cases h with
  | same hbytes => rw [read_defaultEncoding, read_defaultEncoding, hbytes]
  | ends lines reads legible stores reads' legible' stores' =>
    rw [read_of_stores reads legible stores, read_of_stores reads' legible' stores', lines]

/-- **The ends of the lines never matter to a harvest.** The workspaces may differ in every source
file. -/
theorem harvestProjects_restyled {fallback : Bool} {names : List String} {ps : List Project}
    (h : ∀ path ∈ ps.flatMap Project.sourcePaths, Restyled w w' path) :
    Harvest.harvestProjects w' Settings.defaultEncoding fallback names ps =
      Harvest.harvestProjects w Settings.defaultEncoding fallback names ps := by
  have hfiles : ∀ p ∈ ps, Harvest.files w' Settings.defaultEncoding p =
      Harvest.files w Settings.defaultEncoding p :=
    fun p hp => Outcome.mapM_congr fun path hpath =>
      (h path (List.mem_flatMap.2 ⟨p, hp, hpath⟩)).read_eq
  have hprojects : ∀ p ∈ ps, Harvest.harvestProject w' Settings.defaultEncoding fallback names p =
      Harvest.harvestProject w Settings.defaultEncoding fallback names p := by
    intro p hp
    rw [Harvest.harvestProject, hfiles p hp, Harvest.harvestProject]
  rw [Harvest.harvestProjects, Outcome.mapM_congr hprojects, Harvest.harvestProjects]

/-- **Reading undoes every way of ending lines.** A file that stores a legible layout is read as its
lines, whatever their ends; any text is cut at `\r\n`, `\r` and `\n` and at nothing else, so neither
at a vertical tab, a form feed, a file separator and a next-line character nor at a line or
paragraph separator. Bytes that are not UTF-8 are a failure that names the file, but for two
beginnings of a byte order mark, which are read as no lines. So a harvest comes to the same where
source files end their lines otherwise. -/
theorem read_undoes_lineEnds (w : Workspace) :
    (∀ path bytes, w.readBytes path = .ok bytes →
      (∀ d : Layout, d.Legible → Stores bytes d.text →
        read w Settings.defaultEncoding path = .ok ⟨path, d.lines.map String.ofList⟩) ∧
      (∀ text, Stores bytes text → ∃ d : Layout, d.Legible ∧ d.text = text ∧
        read w Settings.defaultEncoding path = .ok ⟨path, d.lines.map String.ofList⟩ ∧
        ∀ c ∈ ['\x0b', '\x0c', '\x1c', '\x85', '\u2028', '\u2029'], ∀ before behind,
          Text.IsPlain before →
          Text.IsPlain behind → before ++ c :: behind <:+: text → ∃ l ∈ d.lines,
            before ++ c :: behind <:+: l) ∧
      ((∀ text, bytes ≠ Text.Utf8.encode text) → ¬ (bytes = [0xEF] ∨ bytes = [0xEF, 0xBB]) →
        read w Settings.defaultEncoding path = .error (.read path .undecodable)) ∧
      (bytes = [0xEF] ∨ bytes = [0xEF, 0xBB] →
        read w Settings.defaultEncoding path = .ok ⟨path, []⟩)) ∧
    ∀ w' fallback names ps, (∀ path ∈ ps.flatMap Project.sourcePaths, Restyled w w' path) →
      Harvest.harvestProjects w' Settings.defaultEncoding fallback names ps =
        Harvest.harvestProjects w Settings.defaultEncoding fallback names ps := by
  refine ⟨fun path bytes hbytes => ⟨fun d => read_of_stores hbytes, ?_, read_of_not_utf8 hbytes,
    read_of_truncated_mark hbytes⟩, fun w' fallback names ps => harvestProjects_restyled⟩
  intro text hstores
  obtain ⟨d, hlegible, rfl⟩ := Text.exists_layout text
  refine ⟨d, hlegible, rfl, read_of_stores hbytes hlegible hstores, ?_⟩
  intro c hc before behind hbefore hbehind hinfix
  have hdisplay : Text.IsPlain ['\x0b', '\x0c', '\x1c', '\x85', '\u2028', '\u2029'] := by decide
  have hrun : Text.IsPlain (before ++ c :: behind) :=
    List.forall_mem_append.2 ⟨hbefore, List.forall_mem_cons.2 ⟨hdisplay c hc, hbehind⟩⟩
  exact d.exists_infix_lines hrun (by simp) hinfix

/-! ## A file with mixed line ends -/

/-- Three lines, the second one empty, and each with an end of another kind or with none. -/
def mixedEnds : Layout := ⟨[("interface I".toList, .cr), ([], .crlf)], "a\x0bb".toList⟩

/-- The same lines, each ended by `\n`. -/
def sameEnds : Layout := ⟨[("interface I".toList, .lf), ([], .lf), ("a\x0bb".toList, .lf)], []⟩

/-- A workspace with one file, `X.cs`. -/
def storing (bytes : Text.Bytes) : Workspace where
  tree := FileTree.empty.put ["X.cs"] (.file bytes)
  current := []

/-- Lines with ends of different kinds, read like the same lines with one kind. A vertical tab ends
no line. The first byte of a mark alone reads as an empty file, and a byte beyond UTF-8 is
refused. -/
theorem read_undoes_lineEnds_mixedEnds :
    read (storing (Text.Utf8.mark ++ Text.Utf8.encode mixedEnds.text)) Settings.defaultEncoding
      (.ofString "X.cs") =
        .ok ⟨.ofString "X.cs", ["interface I", "", "a\x0bb"]⟩ ∧
      (∃ d : Layout, d.text = mixedEnds.text ∧ ∃ l ∈ d.lines, ['a'] ++ '\x0b' :: ['b'] <:+: l) ∧
      read (storing [0xEF]) Settings.defaultEncoding (.ofString "X.cs") =
        .ok ⟨.ofString "X.cs", []⟩ ∧
      read (storing [0xFF]) Settings.defaultEncoding (.ofString "X.cs") =
        .error (.read (.ofString "X.cs") .undecodable) ∧
      ∀ fallback names,
        Harvest.harvestProjects (storing (Text.Utf8.encode sameEnds.text))
          Settings.defaultEncoding fallback names
            [⟨"X", .ofString "X.csproj", [⟨"X.cs", true⟩]⟩] =
          Harvest.harvestProjects (storing (Text.Utf8.mark ++ Text.Utf8.encode mixedEnds.text))
            Settings.defaultEncoding fallback names
              [⟨"X", .ofString "X.csproj", [⟨"X.cs", true⟩]⟩] := by
  have hmixed : mixedEnds.Legible := ⟨by decide, by decide⟩
  have hsame : sameEnds.Legible := ⟨by decide, by decide⟩
  have hlines : sameEnds.lines = mixedEnds.lines := rfl
  refine ⟨((read_undoes_lineEnds _).1 _ _ rfl).1 mixedEnds hmixed (.inl rfl), ?_,
    ((read_undoes_lineEnds _).1 _ _ rfl).2.2.2 (.inl rfl), ?_, fun fallback names => ?_⟩
  · have hread :=
      (read_undoes_lineEnds (storing (Text.Utf8.encode mixedEnds.text))).1 (.ofString "X.cs") _ rfl
    obtain ⟨d, -, htext, -, hwhole⟩ := hread.2.1 mixedEnds.text (.inr ⟨rfl, by decide⟩)
    have hinfix : ['a'] ++ '\x0b' :: ['b'] <:+: mixedEnds.text := by decide
    exact ⟨d, htext, hwhole '\x0b' (by decide) ['a'] ['b'] (by decide) (by decide) hinfix⟩
  · have hutf8 : ∀ text, [0xFF] ≠ Text.Utf8.encode text := Text.Utf8.decode?_eq_none_iff.1 rfl
    exact ((read_undoes_lineEnds _).1 _ _ rfl).2.2.1 hutf8 (by decide)
  · refine (read_undoes_lineEnds _).2 _ fallback names _ fun path hpath => ?_
    obtain rfl : path = .ofString "X.cs" := List.mem_singleton.1 hpath
    exact .ends hlines rfl hmixed (.inl rfl) rfl hsame (.inr ⟨rfl, by decide⟩)

end MemberHarvest.Source
