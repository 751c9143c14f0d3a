import MemberHarvest.Text.Blank

/-!
# Project/SolutionLine — the lines of a solution that name projects

Such a line reads `Project("{…}") = "name", "path", "{…}"`, with blanks around and between its
parts, and holds nothing else. No name and no path holds a quotation mark, so a line is read in one
way only.
-/

namespace MemberHarvest.SolutionLine

/-! ## The form of a line -/

/-- The parts of such a line, in their order: blanks, the first identifier, blanks around the equals
sign, the name, blanks around the first comma, the path, blanks around the second comma, the second
identifier, blanks. -/
structure Parts where
  indent : List Char
  kind : List Char
  beforeEquals : List Char
  afterEquals : List Char
  name : List Char
  beforeComma : List Char
  afterComma : List Char
  path : List Char
  beforeLastComma : List Char
  afterLastComma : List Char
  identifier : List Char
  behind : List Char

/-- The line that parts make up. -/
def Parts.line (p : Parts) : List Char :=
  p.indent ++ "Project(\"\x7b".toList ++ p.kind ++ "\x7d\")".toList ++ p.beforeEquals ++ ['='] ++
    p.afterEquals ++ ['"'] ++ p.name ++ ['"'] ++ p.beforeComma ++ [','] ++ p.afterComma ++
      ['"'] ++ p.path ++
    ['"'] ++ p.beforeLastComma ++ [','] ++ p.afterLastComma ++ "\"\x7b".toList ++ p.identifier ++
    "\x7d\"".toList ++ p.behind

/-- Whether the parts can be told apart in their line. -/
structure Parts.IsPlain (p : Parts) : Prop where
  blank : ∀ cs ∈ [p.indent, p.beforeEquals, p.afterEquals, p.beforeComma, p.afterComma,
    p.beforeLastComma, p.afterLastComma, p.behind], ∀ c ∈ cs, Text.isBlank c = true
  unquoted : ∀ cs ∈ [p.name, p.path], '"' ∉ cs
  unclosed : ∀ cs ∈ [p.kind, p.identifier], '\x7d' ∉ cs

/-- A line lists a project under a name and a path. -/
def Lists (line name path : List Char) : Prop :=
  ∃ p : Parts, p.IsPlain ∧ p.line = line ∧ p.name = name ∧ p.path = path

/-! ## Reading -/

/-- The text behind an expected beginning. -/
def skip? (expected : List Char) (cs : List Char) : Option (List Char) :=
  if expected.isPrefixOf cs then some (cs.drop expected.length) else none

/-- The text up to a closing character, and the text behind that character. -/
def upTo? (close : Char) (cs : List Char) : Option (List Char × List Char) :=
  match cs.dropWhile (· != close) with
  | [] => none
  | _ :: rest => some (cs.takeWhile (· != close), rest)

/-- A text between quotation marks, and the text behind it. -/
def quoted? (cs : List Char) : Option (List Char × List Char) := do upTo? '"' (← skip? ['"'] cs)

/-- The text behind an identifier in braces and quotation marks. -/
def identifier? (cs : List Char) : Option (List Char) := do
  let (_, rest) ← upTo? '\x7d' (← skip? ['"', '\x7b'] cs)
  skip? ['"'] rest

/-- The text behind a separator with blanks around it. -/
def separator? (c : Char) (cs : List Char) : Option (List Char) := do
  return Text.trimStart (← skip? [c] (Text.trimStart cs))

/-- The name and the path of a project that a line lists. -/
def parse? (line : List Char) : Option (List Char × List Char) := do
  let rest ← skip? "Project(".toList (Text.trimStart line)
  let rest ← skip? [')'] (← identifier? rest)
  let (name, rest) ← quoted? (← separator? '=' rest)
  let (path, rest) ← quoted? (← separator? ',' rest)
  let rest ← identifier? (← separator? ',' rest)
  if (Text.trimStart rest).isEmpty then some (name, path) else none

example : parse? " Project(\"\x7bA\x7d\") = \"Lib\" ,\"p\\Lib.csproj\", \"\x7bB\x7d\" ".toList =
    some ("Lib".toList, "p\\Lib.csproj".toList) := by
  decide

end MemberHarvest.SolutionLine
