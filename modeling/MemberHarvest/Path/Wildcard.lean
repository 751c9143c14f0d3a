import MemberHarvest.Path.Pattern

/-!
# Path/Wildcard — wildcards read from left to right

Three wildcards stand for text here: a double asterisk with a slash behind it for any directories,
none included, every other asterisk for any text, slashes included, and a question mark for one
character. Everything else stands for itself. No variants are formed: each wildcard is tried where
it stands.
-/

namespace MemberHarvest.Wildcard

/-- The texts behind the slashes of a text. -/
def behindSlashes (cs : List Char) : List (List Char) :=
  (Pattern.suffixes cs).filterMap fun s => match s with
    | '/' :: rest => some rest
    | _ => none

/-- Whether the wildcards stand for the whole text. -/
def admits : List Char → List Char → Bool
  | [], cs => cs.isEmpty
  | '*' :: '*' :: '/' :: ps, cs => admits ps cs || (behindSlashes cs).any (admits ps)
  | '*' :: ps, cs => (Pattern.suffixes cs).any (admits ps)
  | '?' :: ps, cs =>
    match cs with
    | [] => false
    | _ :: cs => admits ps cs
  | p :: ps, cs =>
    match cs with
    | [] => false
    | c :: cs => p == c && admits ps cs

theorem mem_behindSlashes {s cs : List Char} : s ∈ behindSlashes cs ↔ ('/' :: s) <:+ cs := by
  simp only [behindSlashes, List.mem_filterMap, Pattern.mem_suffixes]
  constructor
  · rintro ⟨t, ht, hs⟩
    split at hs
    · obtain rfl := Option.some.inj hs
      exact ht
    · exact absurd hs (by simp)
  · intro h
    exact ⟨'/' :: s, h, rfl⟩

example : admits "**/a*.cs".toList "x/y/ab.cs".toList ∧ admits "**/a*.cs".toList "a.cs".toList ∧
    !admits "**/a*.cs".toList "ba.cs".toList := by
  decide +kernel

end MemberHarvest.Wildcard
