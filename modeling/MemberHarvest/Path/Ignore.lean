import MemberHarvest.Path.Pattern
import MemberHarvest.Path.Resolve

/-!
# Path/Ignore — the files that patterns leave out

In a project file `**/` stands for any number of directories, also for none. The pattern language
(`Path/Pattern`) lets `*` match slashes, so what is missing is only the empty case: a pattern is
tried together with all its variants, in which some of the `**/` are deleted.
-/

namespace MemberHarvest.Ignore

/-- The text that stands for any number of directories. -/
def anyDirectories : List Char := ['*', '*', '/']

/-- The texts with one `**/` deleted, in the order of the places. -/
def deletions : List Char → List (List Char)
  | [] => []
  | c :: cs =>
    (if anyDirectories.isPrefixOf (c :: cs) then [(c :: cs).drop 3] else []) ++
      (deletions cs).map (c :: ·)

theorem length_of_mem_deletions {cs d : List Char} (h : d ∈ deletions cs) :
    d.length + 3 = cs.length := by
  induction cs generalizing d with
  | nil => simp [deletions] at h
  | cons c cs ih =>
    rcases List.mem_append.1 h with h | h
    · split at h
      · rename_i hp
        have := List.IsPrefix.length_le <| List.isPrefixOf_iff_prefix.1 hp
        obtain rfl := List.mem_singleton.1 h
        simp only [anyDirectories, List.length_cons, List.length_nil] at this
        simp only [List.length_drop, List.length_cons]
        omega
      · simp at h
    · obtain ⟨e, he, rfl⟩ := List.mem_map.1 h
      simpa using ih he

/-- The patterns of one round and of the rounds after it; a round deletes one `**/` more. -/
def rounds : Nat → List (List Char) → List (List Char)
  | 0, now => now
  | n + 1, now => now ++ rounds n (now.flatMap deletions).eraseDups

/-- All variants of a pattern, each once. There are no more rounds than a third of its length. -/
def variants (pattern : List Char) : List (List Char) := rounds (pattern.length / 3) [pattern]

/-- Whether the pattern, or the pattern with some of its `**/` deleted, matches the whole text. -/
def matchesSome (pattern text : List Char) : Bool :=
  (variants pattern).any (fun v => (Pattern.ofChars v).fits text)

/-- **Whether some pattern leaves the path out.** Empty patterns do not count. -/
def isIgnored (patterns : List String) (path : String) : Bool :=
  patterns.any fun p => !p.isEmpty && matchesSome (Path.slashes p.toList) path.toList

theorem isIgnored_append (ps qs : List String) (path : String) :
    isIgnored (ps ++ qs) path = (isIgnored ps path || isIgnored qs path) := List.any_append

end MemberHarvest.Ignore
