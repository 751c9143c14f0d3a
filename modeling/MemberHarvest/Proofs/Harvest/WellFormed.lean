import MemberHarvest.Proofs.Harvest.Blocks
import MemberHarvest.Proofs.Member.BodyEnd

/-!
# Proofs/Harvest/WellFormed — what every record of a harvest looks like

Three texts of a record are words of lines: the member stands in front of a parenthesis, the class
behind its keyword, and the namespace at the end of its line, without semicolons. So none of them
holds a blank character. The two numbers of a record are indices of its file, and where the second
is the greater one, the body is as many lines as lie between them (`Record.WellFormed`). All records
of all harvests are of this form (`harvestFiles_wellFormed`). Only the number of line ends in a body
asks for something in return: that no line of the files holds one.
-/

namespace MemberHarvest

/-! ## Words of a text -/

namespace Text

variable {cs : List Char} {c : Char}

/-- A character of a word stands in the text and is not blank. -/
theorem mem_and_not_isBlank_of_mem_words {w : List Char} (hw : w ∈ words cs) (hc : c ∈ w) :
    c ∈ cs ∧ isBlank c = false :=
  ⟨mem_of_mem_splitOnP (List.mem_filter.1 hw).1 hc, (forall_mem_words cs w hw).2 c hc⟩

/-- So it is with a word that may be missing. -/
theorem mem_and_not_isBlank_of_mem_getD {w? : Option (List Char)} (hw : ∀ w ∈ w?, w ∈ words cs)
    (hc : c ∈ w?.getD []) :
    c ∈ cs ∧ isBlank c = false := by
  cases w? with
  | none => exact absurd hc List.not_mem_nil
  | some w => exact mem_and_not_isBlank_of_mem_words (hw w rfl) hc

/-- So it is with the first word of a text. -/
theorem mem_and_not_isBlank_of_mem_firstWord (hc : c ∈ firstWord cs) : c ∈ cs ∧ isBlank c = false :=
  mem_and_not_isBlank_of_mem_getD (fun _ => List.mem_of_head?) hc

/-- So it is with the last word of a text. -/
theorem mem_and_not_isBlank_of_mem_lastWord (hc : c ∈ lastWord cs) : c ∈ cs ∧ isBlank c = false :=
  mem_and_not_isBlank_of_mem_getD (fun _ => List.mem_of_getLast?) hc

/-- Texts that are joined by a character which none of them holds. -/
theorem count_intercalate {ls : List (List Char)} (h : ∀ l ∈ ls, c ∉ l) :
    ([c].intercalate ls).count c = ls.length - 1 := by
  induction ls with
  | nil => rfl
  | cons l ls ih =>
    obtain ⟨hl, hls⟩ := List.forall_mem_cons.1 h
    cases ls with
    | nil => simp [List.count_eq_zero_of_not_mem hl]
    | cons l' ls =>
      rw [List.intercalate_cons_cons, List.count_append, List.count_append, ih hls,
        List.count_eq_zero_of_not_mem hl, List.count_singleton_self]
      simp only [List.length_cons]
      omega

end Text

/-! ## The texts of a record -/

open Text (isBlank)

/-- **The name of a member has no blank and no parenthesis.** It is cut off at the parenthesis, and
the last word of what stands in front is taken. -/
theorem Declaration.not_isBlank_of_mem_memberName {line : String} {c : Char}
    (hc : c ∈ (memberName line).toList) :
    isBlank c = false ∧ c ≠ '(' := by
  rw [memberName, String.toList_ofList] at hc
  obtain ⟨hmem, hblank⟩ := Text.mem_and_not_isBlank_of_mem_lastWord hc
  have hfront := List.all_eq_true.1 List.all_takeWhile c hmem
  exact ⟨hblank, by simpa using hfront⟩

namespace Extraction

/-- **A namespace has no blank and no semicolon.** The first word behind the keyword is taken,
without what ends the statement. -/
theorem not_isBlank_of_mem_spaceName {line : String} {c : Char} (hc : c ∈ (spaceName line).toList) :
    isBlank c = false ∧ c ≠ ';' := by
  rw [spaceName] at hc
  split at hc
  · simp at hc
  · simp at hc
  · rw [String.toList_ofList, List.mem_filter] at hc
    exact ⟨(Text.mem_and_not_isBlank_of_mem_lastWord hc.1).2, by simpa using hc.2⟩

/-- **The name of a class has no blank.** The first word behind the keyword is taken here too. -/
theorem not_isBlank_of_mem_className {lines : List String} {name : String} {c : Char}
    (hc : c ∈ (className lines name).toList) : isBlank c = false := by
  rw [className] at hc
  split at hc
  · simp at hc
  · split at hc
    · simp at hc
    · rw [String.toList_ofList] at hc
      exact (Text.mem_and_not_isBlank_of_mem_firstWord hc).2

end Extraction

/-! ## The lines of a record -/

namespace Body

variable {fallback : Bool} {lines : List String}

/-- **The end of a body is the index of a line.** Only a file without lines has an open end in front
of its first line. -/
theorem bodyEnd_bounds (h : lines ≠ []) (fallback : Bool) (start : Nat) :
    0 ≤ bodyEnd fallback lines start ∧ bodyEnd fallback lines start ≤ (lines.length : Int) - 1 := by
  have hpos : 0 < lines.length := List.length_pos_iff.2 h
  rcases exists_isFirstMark_or lines start with ⟨k, hk⟩ | hnone
  · have hlt := hk.lt
    have hlength := lt_length_of_marksAt hk.marks
    rw [bodyEnd_of_isFirstMark hk]
    omega
  · rw [bodyEnd_of_forall_unmarked hnone, openEnd]
    split <;> omega

/-- **Between two lines of a body there is one line end.** So the number of lines of a body can be
told from its text. -/
theorem count_sliceBody (hplain : ∀ l ∈ lines, '\n' ∉ l.toList) (start : Nat) {stop : Int}
    (hstop : stop ≤ lines.length) :
    (sliceBody lines start stop).toList.count '\n' = stop.toNat - start - 1 := by
  have hslice : ∀ l ∈ ((lines.take stop.toNat).drop start).map String.toList, '\n' ∉ l := by
    intro l hl
    obtain ⟨line, hline, rfl⟩ := List.mem_map.1 hl
    exact hplain line (List.mem_of_mem_take (List.mem_of_mem_drop hline))
  have hcount := Text.count_intercalate hslice
  rw [List.length_map, List.length_drop, List.length_take, Nat.min_eq_left (Int.toNat_le.2 hstop)]
    at hcount
  rw [sliceBody_natCast, String.toList_intercalate]
  exact hcount

end Body

/-! ## Records -/

/-- What a record says of its file: words for names, indices of lines for numbers, and the lines
between them. -/
structure Record.WellFormed (lines : List String) (r : Record) : Prop where
  memberName : ∀ c ∈ r.memberName.toList, isBlank c = false ∧ c ≠ '('
  className : ∀ c ∈ r.className.toList, isBlank c = false
  namespaceName : ∀ c ∈ r.namespaceName.toList, isBlank c = false ∧ c ≠ ';'
  lines_pos : 1 ≤ lines.length
  startLine : 0 ≤ r.location.startLine ∧ r.location.startLine ≤ lines.length
  endLine : 0 ≤ r.location.endLine ∧ r.location.endLine ≤ (lines.length : Int) - 1
  body : r.location.startLine < r.location.endLine →
    (r.body.toList.count '\n' : Int) = r.location.endLine - r.location.startLine - 1
  body_empty : r.location.endLine ≤ r.location.startLine → r.body = ""

/-- A member that is named like one gives a well-formed record. -/
theorem Extraction.wellFormed_record {file : SourceFile} {space member : String}
    (fallback : Bool) (name : String) (hne : file.lines ≠ [])
    (hplain : ∀ l ∈ file.lines, '\n' ∉ l.toList) (hspace : namespaceName? file.lines = some space)
    (hmember : ∃ line, Declaration.memberName line = member) :
    (record fallback file name space (className file.lines name) member).WellFormed file.lines := by
  have hstart : Body.startLine file.lines member ≤ file.lines.length :=
    Body.startLine_le file.lines member
  have hstop := Body.bodyEnd_bounds hne fallback (Body.startLine file.lines member)
  obtain ⟨line, hline⟩ := hmember
  obtain ⟨spaceLine, -, hspaceLine⟩ := Option.map_eq_some_iff.1 hspace
  refine ⟨fun c hc => Declaration.not_isBlank_of_mem_memberName (hline.symm ▸ hc),
    fun c => not_isBlank_of_mem_className,
      fun c hc => not_isBlank_of_mem_spaceName (hspaceLine.symm ▸ hc),
    List.length_pos_iff.2 hne, ?_, hstop, fun hlt => ?_, fun hle => if_pos hle⟩
  · exact ⟨Int.natCast_nonneg _, Int.ofNat_le.2 hstart⟩
  · have hle : Body.bodyEnd fallback file.lines (Body.startLine file.lines member) ≤
        file.lines.length := by omega
    simp only [record] at hlt ⊢
    rw [Body.count_sliceBody hplain _ hle]
    omega

namespace Harvest

variable {fallback : Bool} {files : List SourceFile} {file : SourceFile}
  {names : List String} {r : Record}

/-- A record of a file is the record of a member that some line names. -/
theorem exists_of_mem_records
    (h : r ∈ Extraction.records fallback (Catalogue.ofFiles files names) names file) :
    ∃ name space member, Extraction.implements file.lines name = true ∧
      Extraction.namespaceName? file.lines = some space ∧
        (∃ line, Declaration.memberName line = member) ∧
      r = Extraction.record fallback file name space (Extraction.className file.lines name)
        member := by
  rw [records_eq_flatMap_block] at h
  obtain ⟨name, -, hr⟩ := List.mem_flatMap.1 h
  rcases block_cases fallback files file name with hnil
    | ⟨space, members, himplements, hspace, hmembers, hblock⟩
  · simp [hnil] at hr
  · rw [hblock] at hr
    obtain ⟨member, hmember, rfl⟩ := List.mem_map.1 hr
    obtain ⟨f, -, rfl⟩ := Option.map_eq_some_iff.1 hmembers
    obtain ⟨line, -, hline⟩ := List.mem_map.1 hmember
    exact ⟨name, space, member, himplements, hspace, ⟨line, hline⟩, rfl⟩

/-- **Every record of a harvest is well formed.** It names its file, holds words for names and
indices of the file's lines for numbers, and its body is the lines between them. -/
theorem harvestFiles_wellFormed (fallback : Bool) (names : List String) (files : List SourceFile)
    (hplain : ∀ file ∈ files, ∀ l ∈ file.lines, '\n' ∉ l.toList) :
    ∃ catalogue records, (harvestFiles fallback names files).outcome = .ok (catalogue, records) ∧
      records = files.flatMap (Extraction.records fallback catalogue names) ∧
      ∀ file ∈ files, ∀ r ∈ Extraction.records fallback catalogue names file,
        r.location.path = file.path.toString ∧ r.WellFormed file.lines := by
  refine ⟨_, _, rfl, rfl, fun file hfile r hr => ?_⟩
  obtain ⟨name, space, member, himplements, hspace, hmember, rfl⟩ := exists_of_mem_records hr
  have hne : file.lines ≠ [] := by
    intro hnil
    rw [hnil] at himplements
    exact Bool.noConfusion himplements
  exact ⟨rfl, Extraction.wellFormed_record fallback name hne (hplain file hfile) hspace hmember⟩

/-! ## A file with blanks of several kinds -/

/-- An interface and a class in one file, with a tab, a no-break space and a body of two lines. -/
def blankFile : SourceFile :=
  ⟨.ofString "Clock.cs",
    ["namespace\tSystem;", "namespace Time.Core ; ", "interface IClock", "  long\u00a0Now ();",
      "class\u2003Clock : IClock", "class Clock : IClock", "  \x7b", "    get;",
        "  private long ticks;"]⟩

/-- A file whose member is behind blank lines. -/
theorem harvestFiles_wellFormed_blankFile :
    (∀ file ∈ [blankFile], ∀ l ∈ file.lines, '\n' ∉ l.toList) ∧
      ∃ catalogue records, (harvestFiles true ["IClock"] [blankFile]).outcome =
        .ok (catalogue, records) ∧ records.map (·.memberName) = ["Now"] ∧
        ∀ r ∈ Extraction.records true catalogue ["IClock"] blankFile,
          r.WellFormed blankFile.lines := by
  have hplain : ∀ file ∈ [blankFile], ∀ l ∈ file.lines, '\n' ∉ l.toList := by decide
  obtain ⟨catalogue, records, houtcome, -, hrecords⟩ :=
    harvestFiles_wellFormed true ["IClock"] [blankFile] hplain
  obtain ⟨rfl, rfl⟩ := Prod.mk.inj (Except.ok.inj houtcome)
  refine ⟨hplain, _, _, houtcome, ?_, fun r hr => (hrecords blankFile List.mem_cons_self r hr).2⟩
  decide +kernel

end Harvest
end MemberHarvest
