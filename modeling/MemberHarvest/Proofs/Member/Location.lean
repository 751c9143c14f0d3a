import MemberHarvest.Member.Extraction
import MemberHarvest.Proofs.Member.BodyEnd

/-!
# Proofs/Member/Location — where the record of a member says that it stands

A record gives two line numbers. The first is one more than the index of the signature
(`IsSignature`). The second is one less than the index of the first marking line behind the first
number; where no line marks a member there, it is 0, or with the fallback the index of the last
line. The lines between the two numbers are the body. `record_standsAt` says so of every record,
together with the bounds that the numbers keep.
-/

namespace MemberHarvest

namespace Body

variable {lines : List String} {member : String} {i : Nat}

/-! ## Signatures -/

/-- The index of the first line that holds a text; -1 where no line does. -/
inductive IsSignature (lines : List String) (member : String) : Int → Prop
  | absent (none : ∀ l ∈ lines, ¬ member.toList <:+: l.toList) : IsSignature lines member (-1)
  | found {i : Nat} {l : String} (line : lines[i]? = some l) (holds : member.toList <:+: l.toList)
      (before : ∀ l' ∈ lines.take i, ¬ member.toList <:+: l'.toList) : IsSignature lines member i

/-- The line that the search finds is the member's signature line. -/
theorem isSignature_of_eq_some (h : signatureLine? lines member = some i) :
    IsSignature lines member i := by
  obtain ⟨hi, holds, before⟩ := List.findIdx?_eq_some_iff_getElem.1 h
  refine .found (List.getElem?_eq_getElem hi) (Text.occurs_iff.1 holds) fun l hl => ?_
  obtain ⟨j, hj, rfl⟩ := List.mem_take_iff_getElem.1 hl
  exact fun hocc => before j (by omega) (Text.occurs_iff.2 hocc)

/-- Where the search finds nothing, the signature line is taken to be `-1`. -/
theorem isSignature_of_eq_none (h : signatureLine? lines member = none) :
    IsSignature lines member (-1) := by
  refine .absent fun l hl hocc => ?_
  have hfalse := List.findIdx?_eq_none_iff.1 h l hl
  rw [Text.occurs_iff.2 hocc] at hfalse
  exact Bool.noConfusion hfalse

/-- **A body starts on the line behind the signature,** and on the first line where there is no
signature. So the start of a body determines the signature, and the other way round. -/
theorem isSignature_startLine (lines : List String) (member : String) :
    IsSignature lines member (startLine lines member - 1) := by
  cases h : signatureLine? lines member with
  | none => simpa [startLine, h] using isSignature_of_eq_none h
  | some i => simpa [startLine, h] using isSignature_of_eq_some h

/-! ## The end, as a number -/

variable {start k : Nat} {fallback : Bool}

/-- Where some line behind the start marks a member, the first such line ends the body, and the end
is not in front of the start. -/
theorem exists_bodyEnd_eq (hk : start < k) (hm : marksAt lines k = true) (fallback : Bool) :
    ∃ l, IsFirstMark lines start l ∧ bodyEnd fallback lines start = l - 1 ∧
      (start : Int) ≤ bodyEnd fallback lines start := by
  obtain ⟨l, hl, -⟩ := exists_isFirstMark_of_marksAt hk hm
  have hend : bodyEnd fallback lines start = l - 1 := bodyEnd_of_isFirstMark hl
  have hlt := hl.lt
  exact ⟨l, hl, hend, by omega⟩

/-- Behind the first line of a file, a body without the fallback ends at 0 just where no line ends
it. -/
theorem bodyEnd_eq_zero_iff (hstart : 1 ≤ start) :
    bodyEnd false lines start = 0 ↔ ∀ k, start < k → marksAt lines k = false := by
  constructor
  · intro hzero k hk
    by_contra hm
    obtain ⟨-, -, -, hle⟩ := exists_bodyEnd_eq hk (by simpa using hm) false
    omega
  · exact fun hnone => bodyEnd_of_forall_unmarked hnone

end Body

/-! ## Records -/

namespace Extraction

open Body (IsSignature IsFirstMark marksAt bodyEnd)

/-- What a record says about the place of its member, where the body starts on the line with index
`start`. -/
structure StandsAt (fallback : Bool) (lines : List String) (start : Nat) (r : Record) : Prop where
  startLine_eq : r.location.startLine = start
  signature : IsSignature lines r.memberName (start - 1)
  start_le : start ≤ lines.length
  /-- A marking line behind the start: the first one ends the body. -/
  ended : (∃ k, start < k ∧ marksAt lines k = true) →
    ∃ k, IsFirstMark lines start k ∧ r.location.endLine = k - 1 ∧ start ≤ r.location.endLine ∧
      r.body = "\n".intercalate ((lines.take (k - 1)).drop start)
  /-- No such line: the end is open. -/
  unended : (∀ k, start < k → marksAt lines k = false) →
    (fallback = false → r.location.endLine = 0 ∧ r.body = "") ∧
      (fallback = true → r.location.endLine = lines.length - 1 ∧ start - 1 ≤ r.location.endLine)
  slice : r.body = "\n".intercalate
    ((lines.take r.location.endLine.toNat).drop r.location.startLine.toNat)
  endLine_eq_zero_iff : fallback = false → 1 ≤ start →
    (r.location.endLine = 0 ↔ ∀ k, start < k → marksAt lines k = false)

/-- **The record of a member says where the member stands.** -/
theorem record_standsAt (fallback : Bool) (file : SourceFile)
    (interfaceName namespaceName className member : String) :
    StandsAt fallback file.lines (Body.startLine file.lines member)
      (record fallback file interfaceName namespaceName className member) where
  startLine_eq := rfl
  signature := Body.isSignature_startLine file.lines member
  start_le := Body.startLine_le file.lines member
  ended := by
    rintro ⟨k, hk, hm⟩
    obtain ⟨l, hl, hend, hle⟩ := Body.exists_bodyEnd_eq hk hm fallback
    have hstop : ((l : Int) - 1).toNat = l - 1 := by omega
    refine ⟨l, hl, hend, hle, ?_⟩
    simp only [record, hend, Body.sliceBody_natCast, hstop]
  unended := by
    intro hnone
    have hend : bodyEnd fallback file.lines _ = Body.openEnd fallback file.lines :=
      Body.bodyEnd_of_forall_unmarked hnone
    constructor
    · rintro rfl
      have hzero : bodyEnd false file.lines _ = 0 := hend
      refine ⟨hzero, ?_⟩
      simp only [record, hzero, Body.sliceBody_zero]
    · rintro rfl
      have hlast : bodyEnd true file.lines _ = (file.lines.length : Int) - 1 := hend
      have hle := Body.startLine_le file.lines member
      refine ⟨hlast, ?_⟩
      simp only [record, hlast]
      omega
  slice := Body.sliceBody_natCast ..
  endLine_eq_zero_iff := by
    rintro rfl hstart
    exact Body.bodyEnd_eq_zero_iff hstart

end Extraction
end MemberHarvest
