import Mathlib.Data.List.TakeWhile
import MemberHarvest.Project.SolutionLine

/-!
# Proofs/Project/SolutionLine — a line is read just as it is written

Each part of the reader has one line of the form to answer for: `upTo?` for a text without its
closing character, `separator?` for a separator with blanks around it. Put together, they read a
name and a path just where the line lists them (`parse?_eq_some_iff`), and so a line has one name
and one path (`Lists.unique`).
-/

namespace MemberHarvest

/-! ## Blanks in front -/

section Blanks

variable {blanks cs : List Char} {c : Char}

/-- What is trimmed in front are blanks. -/
theorem Text.exists_trimStart (cs : List Char) :
    ∃ blanks, (∀ c ∈ blanks, isBlank c = true) ∧ cs = blanks ++ trimStart cs :=
  ⟨cs.takeWhile isBlank, fun _ hc => List.mem_takeWhile_imp hc,
    List.takeWhile_append_dropWhile.symm⟩

/-- Blanks in front of a text are trimmed away. -/
theorem Text.trimStart_append (h : ∀ c ∈ blanks, isBlank c = true) (cs : List Char) :
    trimStart (blanks ++ cs) = trimStart cs :=
  List.dropWhile_append_of_pos h

theorem Text.trimStart_cons (hc : isBlank c = false) (cs : List Char) :
    trimStart (c :: cs) = c :: cs :=
  List.dropWhile_cons_of_neg (by simp [hc])

theorem Text.trimStart_eq_nil_iff : trimStart cs = [] ↔ ∀ c ∈ cs, isBlank c = true :=
  List.dropWhile_eq_nil_iff

end Blanks

namespace SolutionLine

open Text (isBlank trimStart)

variable {cs rest expected text name path line : List Char} {close c : Char}

/-! ## The parts of a line -/

/-- What is skipped stands in front of the rest. -/
theorem skip?_eq_some_iff : skip? expected cs = some rest ↔ cs = expected ++ rest := by
  rw [skip?]
  constructor
  · intro h
    split at h
    · rename_i hprefix
      obtain ⟨rest', rfl⟩ := List.isPrefixOf_iff_prefix.1 hprefix
      rw [List.drop_left] at h
      rw [Option.some.inj h]
    · simp at h
  · rintro rfl
    rw [if_pos (List.isPrefixOf_iff_prefix.2 (List.prefix_append ..)), List.drop_left]

/-- **A text up to a closing character does not hold it.** So the first occurrence is where the text
ends. -/
theorem upTo?_eq_some_iff :
    upTo? close cs = some (text, rest) ↔ cs = text ++ close :: rest ∧ close ∉ text := by
  rw [upTo?]
  constructor
  · intro h
    have hsplit := List.takeWhile_append_dropWhile (p := (· != close)) (l := cs)
    have hfree : close ∉ cs.takeWhile (· != close) :=
      fun hmem => by simpa using List.mem_takeWhile_imp hmem
    split at h
    · simp at h
    · rename_i d behind hdrop
      obtain rfl : d = close := by
        have hhead := List.head?_dropWhile_not (· != close) cs
        rw [hdrop] at hhead
        simpa using hhead
      obtain ⟨htext, rfl⟩ : cs.takeWhile (· != d) = text ∧ behind = rest := by simpa using h
      rw [hdrop] at hsplit
      exact htext ▸ ⟨hsplit.symm, hfree⟩
  · rintro ⟨rfl, hfree⟩
    have hkeep : ∀ c ∈ text, (c != close) = true :=
      fun c hc => bne_iff_ne.2 fun heq => hfree (heq ▸ hc)
    rw [List.dropWhile_append_of_pos hkeep, List.takeWhile_append_of_pos hkeep]
    simp

/-- A quoted text is what stands between quotation marks and holds none. -/
theorem quoted?_eq_some_iff :
    quoted? cs = some (text, rest) ↔ cs = '"' :: text ++ '"' :: rest ∧ '"' ∉ text := by
  simp only [quoted?, Option.bind_eq_bind, Option.bind_eq_some_iff, skip?_eq_some_iff,
    upTo?_eq_some_iff]
  constructor
  · rintro ⟨_, rfl, rfl, hfree⟩
    exact ⟨rfl, hfree⟩
  · rintro ⟨rfl, hfree⟩
    exact ⟨_, rfl, rfl, hfree⟩

/-- An identifier is what stands in braces between quotation marks. -/
theorem identifier?_eq_some_iff : identifier? cs = some rest ↔
    ∃ text, cs = ['"', '\x7b'] ++ text ++ ['\x7d', '"'] ++ rest ∧ '\x7d' ∉ text := by
  simp only [identifier?, Option.bind_eq_bind, Option.bind_eq_some_iff,
    skip?_eq_some_iff, Prod.exists, upTo?_eq_some_iff]
  constructor
  · rintro ⟨_, rfl, text, _, ⟨rfl, hfree⟩, rfl⟩
    exact ⟨text, by simp, hfree⟩
  · rintro ⟨text, rfl, hfree⟩
    exact ⟨_, by simp, text, '"' :: rest, ⟨rfl, hfree⟩, rfl⟩

/-- Behind a separator, blanks are skipped up to what is not blank. -/
theorem separator?_append {before after : List Char} (hbefore : ∀ c ∈ before, isBlank c = true)
    (hafter : ∀ c ∈ after, isBlank c = true) (hc : isBlank c = false)
    (hrest : trimStart rest = rest) :
    separator? c (before ++ [c] ++ after ++ rest) = some rest := by
  rw [separator?, List.append_assoc, List.append_assoc, Text.trimStart_append hbefore,
    List.singleton_append, Text.trimStart_cons hc, skip?_eq_some_iff.2 (List.singleton_append).symm]
  simp only [Option.bind_eq_bind, Option.bind_some, Option.pure_def,
    Text.trimStart_append hafter, hrest]

/-- A separator may have blanks on both sides. -/
theorem exists_of_separator?_eq_some (h : separator? c cs = some rest) :
    ∃ before after, (∀ c ∈ before, isBlank c = true) ∧ (∀ c ∈ after, isBlank c = true) ∧
      cs = before ++ [c] ++ after ++ rest := by
  simp only [separator?, Option.bind_eq_bind, Option.bind_eq_some_iff,
    skip?_eq_some_iff, Option.pure_def, Option.some_inj] at h
  obtain ⟨behind, hbehind, rfl⟩ := h
  obtain ⟨before, hbefore, hcs⟩ := Text.exists_trimStart cs
  obtain ⟨after, hafter, hsplit⟩ := Text.exists_trimStart behind
  refine ⟨before, after, hbefore, hafter, ?_⟩
  rw [List.append_assoc, List.append_assoc, ← hsplit, ← hbehind, ← hcs]

/-! ## Lines -/

/-- A line, with each part that is read at once in front of the rest. -/
theorem Parts.line_eq (p : Parts) : p.line =
    p.indent ++ ("Project(".toList ++ (['"', '\x7b'] ++ p.kind ++ ['\x7d', '"'] ++ ([')'] ++
      (p.beforeEquals ++ ['='] ++ p.afterEquals ++ ('"' :: p.name ++ '"' ::
        (p.beforeComma ++ [','] ++ p.afterComma ++ ('"' :: p.path ++ '"' ::
          (p.beforeLastComma ++ [','] ++ p.afterLastComma ++
            (['"', '\x7b'] ++ p.identifier ++ ['\x7d', '"'] ++ p.behind))))))))) := by
  have hproject : "Project(\"\x7b".toList = "Project(".toList ++ ['"', '\x7b'] := by decide
  have hclose : "\x7d\")".toList = ['\x7d', '"'] ++ [')'] := by decide
  have hopening : "\"\x7b".toList = ['"', '\x7b'] := by decide
  have hclosing : "\x7d\"".toList = ['\x7d', '"'] := by decide
  -- with the texts themselves in it, comparing the two sides would come to unfold them
  unfold Parts.line
  generalize "Project(\"\x7b".toList = project at hproject ⊢
  generalize "\x7d\")".toList = close at hclose ⊢
  generalize "\"\x7b".toList = opening at hopening ⊢
  generalize "\x7d\"".toList = closing at hclosing ⊢
  subst hproject hclose hopening hclosing
  generalize "Project(".toList = project
  simp

/-- **A line that can be parsed has the form of a project line,** with the name and the path that
were parsed. -/
theorem lists_of_parse?_eq_some (h : parse? line = some (name, path)) : Lists line name path := by
  simp only [parse?, Option.bind_eq_bind, Option.bind_eq_some_iff, skip?_eq_some_iff,
    identifier?_eq_some_iff, quoted?_eq_some_iff, Prod.exists] at h
  obtain ⟨_, hline, _, ⟨kind, rfl, hkind⟩, _, rfl, _, hequals, name', _, ⟨rfl, hname⟩,
      _, hcomma, path', _,
    ⟨rfl, hpath⟩, _, hlast, behind, ⟨identifier, rfl, hidentifier⟩, hend⟩ := h
  obtain ⟨indent, hindent, hstart⟩ := Text.exists_trimStart line
  obtain ⟨beforeEquals, afterEquals, hbefore₁, hafter₁, rfl⟩ := exists_of_separator?_eq_some hequals
  obtain ⟨beforeComma, afterComma, hbefore₂, hafter₂, rfl⟩ := exists_of_separator?_eq_some hcomma
  obtain ⟨beforeLastComma, afterLastComma, hbefore₃, hafter₃, rfl⟩ :=
    exists_of_separator?_eq_some hlast
  split at hend
  · rename_i hblank
    obtain ⟨rfl, rfl⟩ : name' = name ∧ path' = path := by simpa using hend
    have hbehind : ∀ c ∈ behind, isBlank c = true :=
      Text.trimStart_eq_nil_iff.1 (List.isEmpty_iff.1 hblank)
    refine ⟨⟨indent, kind, beforeEquals, afterEquals, name', beforeComma, afterComma,
      path', beforeLastComma, afterLastComma, identifier, behind⟩, ⟨?_, ?_, ?_⟩, ?_, rfl, rfl⟩
    · simp only [List.forall_mem_cons]
      exact ⟨hindent, hbefore₁, hafter₁, hbefore₂, hafter₂, hbefore₃, hafter₃, hbehind,
        List.forall_mem_nil _⟩
    · simp only [List.forall_mem_cons]
      exact ⟨hname, hpath, List.forall_mem_nil _⟩
    · simp only [List.forall_mem_cons]
      exact ⟨hkind, hidentifier, List.forall_mem_nil _⟩
    · exact (Parts.line_eq _).trans ((congrArg (indent ++ ·) hline.symm).trans hstart.symm)
  · simp at hend

/-- **A line that is made up of plain parts is parsed into them.** Together the two say that the
parser knows the form and nothing else. -/
theorem parse?_line {p : Parts} (hp : p.IsPlain) : parse? p.line = some (p.name, p.path) := by
  have hblank := hp.blank
  have hunquoted := hp.unquoted
  have hunclosed := hp.unclosed
  simp only [List.forall_mem_cons] at hblank hunquoted hunclosed
  obtain ⟨hindent, hbefore₁, hafter₁, hbefore₂, hafter₂, hbefore₃, hafter₃, hbehind, -⟩ := hblank
  obtain ⟨hname, hpath, -⟩ := hunquoted
  obtain ⟨hkind, hidentifier, -⟩ := hunclosed
  have hproject (rest : List Char) :
      trimStart ("Project(".toList ++ rest) = "Project(".toList ++ rest :=
    Text.trimStart_cons (by decide) _
  have hquote (rest : List Char) : trimStart ('"' :: rest) = '"' :: rest :=
    Text.trimStart_cons (by decide) _
  have hend : (trimStart p.behind).isEmpty = true :=
    List.isEmpty_iff.2 (Text.trimStart_eq_nil_iff.2 hbehind)
  rw [Parts.line_eq]
  simp only [parse?, Option.bind_eq_bind, Option.bind_eq_some_iff, Prod.exists,
    Text.trimStart_append hindent, hproject]
  exact ⟨_, skip?_eq_some_iff.2 rfl, _, identifier?_eq_some_iff.2 ⟨_, rfl, hkind⟩, _,
    skip?_eq_some_iff.2 rfl, _, separator?_append hbefore₁ hafter₁ (by decide) (hquote _), p.name,
    _, quoted?_eq_some_iff.2 ⟨rfl, hname⟩, _,
    separator?_append hbefore₂ hafter₂ (by decide) (hquote _), p.path, _,
    quoted?_eq_some_iff.2 ⟨rfl, hpath⟩, _,
    separator?_append hbefore₃ hafter₃ (by decide) (hquote _), _,
    identifier?_eq_some_iff.2 ⟨_, rfl, hidentifier⟩, if_pos hend⟩

/-- **A name and a path are read just where the line lists them.** The two directions are
`lists_of_parse?_eq_some` and `parse?_line`. -/
theorem parse?_eq_some_iff : parse? line = some (name, path) ↔ Lists line name path := by
  constructor
  · exact lists_of_parse?_eq_some
  · rintro ⟨p, hp, rfl, rfl, rfl⟩
    exact parse?_line hp

/-- **A line lists at most one name and path.** The parser is a function, and it reads what the line
lists. -/
theorem Lists.unique {name' path' : List Char} (h : Lists line name path)
    (h' : Lists line name' path') :
    name = name' ∧ path = path' := by
  rw [← parse?_eq_some_iff] at h h'
  simpa using h.symm.trans h'

end SolutionLine
end MemberHarvest
