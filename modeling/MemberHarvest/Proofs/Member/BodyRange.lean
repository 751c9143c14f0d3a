import Mathlib
import MemberHarvest.Member.Extraction
import MemberHarvest.Proofs.Member.BodyEnd

/-!
# Proofs/Member/BodyRange — when bodies of one file keep apart

The search for a body's end leaves out the body's first line. So a body stops short of every later
signature that marks a member, except one that stands on that first line: then the earlier body may
swallow the later one. `keepApart_iff` says exactly when two bodies keep apart, and what is
swallowed where they do not; `overlap_of_adjacent_signatures` is a file in which it happens.
-/

namespace MemberHarvest

/-- The indices of the lines from a body's start up to its end. -/
def Location.lineRange (l : Location) : Set ℤ := Set.Ico l.startLine l.endLine

namespace Extraction

open Body (signatureLine? marksAt bodyEnd)

variable {fallback : Bool} {file : SourceFile} {lines : List String} {i j : ℕ}

/-- The indices of the lines of the body behind a signature. -/
def bodyRange (fallback : Bool) (lines : List String) (i : ℕ) : Set ℤ :=
  Set.Ico ((i : ℤ) + 1) (bodyEnd fallback lines (i + 1))

/-- The lines of a body lie strictly between the signature and the end of the body. -/
theorem mem_bodyRange {k : ℤ} :
    k ∈ bodyRange fallback lines i ↔ (i : ℤ) < k ∧ k < bodyEnd fallback lines (i + 1) := by
  rw [bodyRange, Set.mem_Ico, Int.add_one_le_iff]

/-- The lines of a member that is found run from behind its signature to the end of its body. -/
theorem lineRange_record {member : String} (h : signatureLine? file.lines member = some i)
    (interfaceName namespaceName className : String) :
    (record fallback file interfaceName namespaceName className member).location.lineRange =
      bodyRange fallback file.lines i := by
  simp [record, Location.lineRange, bodyRange, Body.startLine, h]

/-! ## When a body runs into the next signature -/

/-- The signatures at `i` and `j` stand on adjacent lines, and the body behind the first one has
lines: the line behind `j` is unmarked, and the body ends at a later mark or, with the fallback,
with the file. -/
def RunsInto (fallback : Bool) (lines : List String) (i j : ℕ) : Prop :=
  j = i + 1 ∧ marksAt lines (j + 1) = false ∧
    ((∃ k, j + 1 < k ∧ marksAt lines k = true) ∨ fallback = true ∧ j + 1 < lines.length)

/-- **A body runs into a later signature only if that is on the very next line,** since the search
for its end begins behind this line. -/
theorem runsInto_iff :
    RunsInto fallback lines i j ↔ j = i + 1 ∧ (j : ℤ) < bodyEnd fallback lines j := by
  rw [RunsInto, Body.lt_bodyEnd_iff]

/-- A body never runs into a signature in front of it. -/
theorem not_runsInto_of_lt (h : i < j) : ¬ RunsInto fallback lines j i := by
  rintro ⟨rfl, -⟩
  omega

/-- **The next marking signature is in an earlier body just where the body runs into it.** A marking
line further behind would have ended the body. -/
theorem mem_bodyRange_iff_runsInto (hij : i < j) (hj : marksAt lines j = true) :
    (j : ℤ) ∈ bodyRange fallback lines i ↔ RunsInto fallback lines i j := by
  rw [mem_bodyRange, runsInto_iff]
  constructor
  · rintro ⟨-, hlt⟩
    -- Were the signature further on, the search would meet it and stop in front of it.
    have hadj : j = i + 1 := by
      by_contra hne
      have : bodyEnd fallback lines (i + 1) < j := Body.bodyEnd_lt_of_marksAt (by omega) hj
      omega
    exact ⟨hadj, hadj ▸ hlt⟩
  · rintro ⟨rfl, hlt⟩
    exact ⟨by omega, hlt⟩

/-- A body that runs into a signature is the signature's line and the whole body behind it. -/
theorem bodyRange_of_runsInto (h : RunsInto fallback lines i j) :
    bodyRange fallback lines i = insert (j : ℤ) (bodyRange fallback lines j) := by
  obtain ⟨rfl, hlt⟩ := runsInto_iff.1 h
  -- The line behind `j` is unmarked, so both searches stop at the same line.
  have hend : bodyEnd fallback lines (i + 1 + 1) = bodyEnd fallback lines (i + 1) :=
    Body.bodyEnd_succ h.2.1
  ext k
  simp only [Set.mem_insert_iff, mem_bodyRange, hend]
  omega

/-- A body that does not reach a later signature has no line in the body behind it. -/
theorem disjoint_bodyRange (hij : i < j) (h : (j : ℤ) ∉ bodyRange fallback lines i) :
    Disjoint (bodyRange fallback lines i) (bodyRange fallback lines j) := by
  rw [Set.disjoint_left]
  intro k hi hj
  rw [mem_bodyRange] at h hi hj
  omega

/-- The earlier of two bodies keeps apart from the later one unless it runs into its signature. -/
theorem keepApart_iff_of_lt (fallback : Bool) (hij : i < j) (hj : marksAt lines j = true) :
    Disjoint (bodyRange fallback lines i) (bodyRange fallback lines j) ∧
        (j : ℤ) ∉ bodyRange fallback lines i ∧ (i : ℤ) ∉ bodyRange fallback lines j ↔
      ¬ RunsInto fallback lines i j := by
  rw [← mem_bodyRange_iff_runsInto hij hj]
  refine ⟨fun h => h.2.1, fun h => ⟨disjoint_bodyRange hij h, h, ?_⟩⟩
  rw [mem_bodyRange]
  omega

/-- **Bodies of one file keep apart unless one runs into the other's signature,** and then it is the
line of that signature followed by the whole other body. -/
theorem keepApart_iff {a b : String} (ha : signatureLine? file.lines a = some i)
    (hb : signatureLine? file.lines b = some j) (hij : i ≠ j) (hi : marksAt file.lines i = true)
    (hj : marksAt file.lines j = true)
    (interfaceA namespaceA classA interfaceB namespaceB classB : String) :
    let bodyA := (record fallback file interfaceA namespaceA classA a).location.lineRange
    let bodyB := (record fallback file interfaceB namespaceB classB b).location.lineRange
    (Disjoint bodyA bodyB ∧ (j : ℤ) ∉ bodyA ∧ (i : ℤ) ∉ bodyB ↔
        ¬ RunsInto fallback file.lines i j ∧ ¬ RunsInto fallback file.lines j i) ∧
      (RunsInto fallback file.lines i j → bodyA = insert (j : ℤ) bodyB) ∧
      (RunsInto fallback file.lines j i → bodyB = insert (i : ℤ) bodyA) := by
  intro bodyA bodyB
  have hA : bodyA = bodyRange fallback file.lines i := lineRange_record ha ..
  have hB : bodyB = bodyRange fallback file.lines j := lineRange_record hb ..
  rw [hA, hB]
  refine ⟨?_, bodyRange_of_runsInto, bodyRange_of_runsInto⟩
  rcases Nat.lt_or_gt_of_ne hij with h | h
  · rw [and_iff_left (not_runsInto_of_lt h)]
    exact keepApart_iff_of_lt fallback h hj
  · rw [and_iff_right (not_runsInto_of_lt h), disjoint_comm, and_comm (a := (j : ℤ) ∉ _)]
    exact keepApart_iff_of_lt fallback h hi

/-! ## Signatures on adjacent lines -/

/-- A class whose member `B` stands on the line behind the one-line member `A`. -/
def adjacentMembers : SourceFile where
  path := .ofString "Impl.cs"
  lines := ["namespace NS;", "class Impl : IFoo", "public int A() => 1;",
    "public int B()", "    =>", "    2;", "private int x;"]

theorem runsInto_adjacentMembers : RunsInto false adjacentMembers.lines 2 3 :=
  ⟨rfl, rfl, .inl ⟨6, by decide, rfl⟩⟩

/-- Two members on adjacent lines. The range of the first one takes in the signature of the
second. -/
theorem keepApart_iff_adjacentMembers :
    signatureLine? adjacentMembers.lines "A" = some 2 ∧
      signatureLine? adjacentMembers.lines "B" = some 3 ∧ 2 ≠ 3 ∧
      marksAt adjacentMembers.lines 2 = true ∧ marksAt adjacentMembers.lines 3 = true ∧
      (record false adjacentMembers "IFoo" "NS" "Impl" "A").location.lineRange =
        insert 3 (record false adjacentMembers "IFoo" "NS" "Impl" "B").location.lineRange :=
  ⟨rfl, rfl, by decide, rfl, rfl,
    (keepApart_iff rfl rfl (by decide) rfl rfl "IFoo" "NS" "Impl" "IFoo" "NS" "Impl").2.1
      runsInto_adjacentMembers⟩

/-- **Two signatures that mark members do not keep their bodies apart.** -/
theorem overlap_of_adjacent_signatures :
    ¬ ∀ (fallback : Bool) (file : SourceFile) (a b : String) (i j : ℕ),
      signatureLine? file.lines a = some i → signatureLine? file.lines b = some j → i ≠ j →
      marksAt file.lines i = true → marksAt file.lines j = true →
      Disjoint (record fallback file "IFoo" "NS" "Impl" a).location.lineRange
        (record fallback file "IFoo" "NS" "Impl" b).location.lineRange := by
  intro h
  have hd := h false adjacentMembers "A" "B" 2 3 rfl rfl (by decide) rfl rfl
  have hA : (4 : ℤ) ∈ (record false adjacentMembers "IFoo" "NS" "Impl" "A").location.lineRange := by
    rw [lineRange_record rfl]
    exact ⟨by decide, by decide⟩
  have hB : (4 : ℤ) ∈ (record false adjacentMembers "IFoo" "NS" "Impl" "B").location.lineRange := by
    rw [lineRange_record rfl]
    exact ⟨by decide, by decide⟩
  exact Set.disjoint_left.1 hd hA hB

end Extraction
end MemberHarvest
