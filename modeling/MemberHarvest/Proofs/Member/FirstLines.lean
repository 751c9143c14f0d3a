import MemberHarvest.Member.Extraction
import MemberHarvest.Proofs.Member.BodyEnd

/-!
# Proofs/Member/FirstLines — a member is read off the lines up to the one that ends its body

Both searches of an extraction stop at a first line: the signature's search at the first line that
holds the name, the search for the end at the first marking line behind the start. So they find the
same in every list of lines that begins with the lines up to there, and the body is cut out of the
same lines. Hence whatever stands behind the line that ends the body has no say in the record
(`record_replaceBehind`). The signature must be found for this: a name that no line holds would be
found in lines that are put behind.
-/

namespace MemberHarvest

/-! ## Lines that begin alike -/

namespace Body

variable {lines lines' : List String} {member : String} {n start i k : Nat}

/-- Two files that agree up to a line mark members alike before it. -/
theorem marksAt_eq_of_take_eq (h : lines'.take n = lines.take n) (hk : k < n) :
    marksAt lines' k = marksAt lines k := by
  have hline : lines'[k]? = lines[k]? := by
    rw [← List.getElem?_take_of_lt hk, h, List.getElem?_take_of_lt hk]
  rw [marksAt, hline, marksAt]

/-- The line that ends a body is found by looking at no later line. -/
theorem IsFirstMark.of_take_eq (hk : IsFirstMark lines start k) (h : lines'.take n = lines.take n)
    (hn : k < n) :
    IsFirstMark lines' start k where
  lt := hk.lt
  marks := by rw [marksAt_eq_of_take_eq h hn, hk.marks]
  unmarked := by
    intro j hj hjk
    rw [marksAt_eq_of_take_eq h (Nat.lt_trans hjk hn), hk.unmarked j hj hjk]

/-- A signature is found by looking at no later line. -/
theorem signatureLine?_eq_of_take_eq (hi : signatureLine? lines member = some i)
    (h : lines'.take n = lines.take n) (hn : i < n) : signatureLine? lines' member = some i := by
  have hfirst : signatureLine? (lines.take n) member = some i := by
    rw [signatureLine?, List.findIdx?_take, ← signatureLine?, hi]
    simp [hn]
  rw [← h, signatureLine?, List.findIdx?_take, Option.bind_eq_some_iff] at hfirst
  obtain ⟨j, hj, hguard⟩ := hfirst
  rw [signatureLine?, hj, (Option.guard_eq_some_iff.1 hguard).1]

/-- The text of a body takes nothing from the lines behind its end. -/
theorem sliceBody_eq_of_take_eq (h : lines'.take n = lines.take n) {stop : Int} (hn : stop ≤ n) :
    sliceBody lines' start stop = sliceBody lines start stop := by
  have hmin : min stop.toNat n = stop.toNat := by omega
  rw [sliceBody_natCast, sliceBody_natCast, ← hmin, ← List.take_take, h, List.take_take]

end Body

/-! ## The record -/

/-- The file with other lines behind the line with an index. -/
def SourceFile.replaceBehind (file : SourceFile) (k : Nat) (rest : List String) : SourceFile where
  path := file.path
  lines := file.lines.take (k + 1) ++ rest

/-- The lines up to the index stay. -/
theorem SourceFile.take_lines_replaceBehind {file : SourceFile} {k : Nat}
    (h : k < file.lines.length) (rest : List String) :
    (file.replaceBehind k rest).lines.take (k + 1) = file.lines.take (k + 1) :=
  List.take_left' (List.length_take_of_le h)

namespace Extraction

open Body (signatureLine? startLine IsFirstMark bodyEnd)

variable {file file' : SourceFile} {member : String} {i k : Nat}

/-- Two files of one path give the same record of a member if they begin alike, up to the line that
ends the body. -/
theorem record_eq_of_take_eq (hi : signatureLine? file.lines member = some i)
    (hk : IsFirstMark file.lines (i + 1) k) (h : file'.lines.take (k + 1) = file.lines.take (k + 1))
    (hpath : file'.path = file.path) (fallback : Bool)
    (interfaceName namespaceName className : String) :
    record fallback file' interfaceName namespaceName className member =
      record fallback file interfaceName namespaceName className member := by
  have hlt := hk.lt
  have hstart : startLine file.lines member = i + 1 := by rw [startLine, hi]
  have hstart' : startLine file'.lines member = i + 1 := by
    rw [startLine, Body.signatureLine?_eq_of_take_eq hi h (by omega)]
  have hend : bodyEnd fallback file.lines (i + 1) = k - 1 := Body.bodyEnd_of_isFirstMark hk
  have hend' : bodyEnd fallback file'.lines (i + 1) = k - 1 :=
    Body.bodyEnd_of_isFirstMark (hk.of_take_eq h (Nat.lt_succ_self k))
  have hslice : Body.sliceBody file'.lines (i + 1 : Nat) (k - 1) =
      Body.sliceBody file.lines (i + 1 : Nat) (k - 1) :=
    Body.sliceBody_eq_of_take_eq h (by omega)
  simp only [record, hpath, hstart, hstart', hend, hend', hslice]

/-- **What stands behind the line that ends a body has no say in the record of the member.** The
line that ends it is the one behind the end that the record gives. -/
theorem record_replaceBehind (hfound : ∃ l ∈ file.lines, member.toList <:+: l.toList)
    (hk : IsFirstMark file.lines (startLine file.lines member) k) (fallback : Bool)
    (interfaceName namespaceName className : String) :
    let r := record fallback file interfaceName namespaceName className member
    r.location.endLine + 1 = k ∧
      ∀ rest, record fallback (file.replaceBehind k rest) interfaceName namespaceName
        className member = r := by
  obtain ⟨i, hi⟩ : ∃ i, signatureLine? file.lines member = some i := by
    obtain ⟨l, hl, holds⟩ := hfound
    rw [← Option.isSome_iff_exists, signatureLine?, List.findIdx?_isSome, List.any_eq_true]
    exact ⟨l, hl, Text.occurs_iff.2 holds⟩
  have hk' : IsFirstMark file.lines (i + 1) k := by rwa [startLine, hi] at hk
  constructor
  · have hend : bodyEnd fallback file.lines (startLine file.lines member) = k - 1 :=
      Body.bodyEnd_of_isFirstMark hk
    simp only [record, hend]
    omega
  · intro rest
    have hbegin := SourceFile.take_lines_replaceBehind (Body.lt_length_of_marksAt hk.marks) rest
    exact record_eq_of_take_eq hi hk' hbegin rfl fallback interfaceName namespaceName className

/-! ## Other lines behind a body -/

/-- A class whose member `Next` ends in front of a private field. -/
def counter : SourceFile where
  path := .ofString "Counter.cs"
  lines := ["namespace NS;", "class Counter : ICount", "  public int Next()",
    "    =>", "      ++count;", "  private int count;", "  public int Reset() => count = 0;"]

/-- The mark behind the signature of `Next` is the next member. -/
theorem isFirstMark_counter : IsFirstMark counter.lines (startLine counter.lines "Next") 5 where
  lt := by decide
  marks := rfl
  unmarked := by
    intro i hi hk
    have hstart : startLine counter.lines "Next" = 3 := rfl
    obtain rfl : i = 4 := by omega
    rfl

/-- A file whose end is exchanged behind the mark that ends the body. -/
theorem record_replaceBehind_counter :
    (∃ l ∈ counter.lines, "Next".toList <:+: l.toList) ∧
      IsFirstMark counter.lines (startLine counter.lines "Next") 5 ∧
      record false (counter.replaceBehind 5 ["  public int Next() => 0;"]) "ICount" "NS"
        "Counter" "Next" = record false counter "ICount" "NS" "Counter" "Next" := by
  have hfound : ∃ l ∈ counter.lines, "Next".toList <:+: l.toList :=
    ⟨"  public int Next()", by simp [counter], Text.occurs_iff.1 rfl⟩
  exact ⟨hfound, isFirstMark_counter,
    (record_replaceBehind hfound isFirstMark_counter false "ICount" "NS" "Counter").2 _⟩

end Extraction
end MemberHarvest
