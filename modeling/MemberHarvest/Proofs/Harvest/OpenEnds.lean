import Mathlib.Data.List.Forall2
import MemberHarvest.Proofs.Harvest.Blocks
import MemberHarvest.Proofs.Member.BodyEnd

/-!
# Proofs/Harvest/OpenEnds — what the fallback changes in a harvest

With and without the fallback, a harvest has one catalogue and extracts the same members in the same
order. The two records of a member agree but for the end of the body, and there too if a line behind
its start marks a member (`AgreeButEnd`). So the records of both harvests correspond one by one
(`harvestFiles_fallback`).
-/

namespace MemberHarvest

open Body (marksAt bodyEnd)

/-! ## Bodies without an end -/

namespace Body

variable {lines : List String} {start : Nat}

/-- Where a line behind the start marks a member, the fallback has no say in the end. -/
theorem bodyEnd_eq_of_marksAt {k : Nat} (hk : start < k) (hm : marksAt lines k = true)
    (fallback fallback' : Bool) :
    bodyEnd fallback lines start = bodyEnd fallback' lines start := by
  obtain ⟨l, hl, -⟩ := exists_isFirstMark_of_marksAt hk hm
  rw [bodyEnd_of_isFirstMark hl, bodyEnd_of_isFirstMark hl]

end Body

/-! ## The two records of a member -/

namespace Extraction

/-- The records of a member of a file, without the fallback and with it. They agree but for the end
of an open body: without the fallback such a body is empty and ends at the first line, with it the
body is the lines from its start up to the last one. -/
structure AgreeButEnd (file : SourceFile) (r r' : Record) : Prop where
  extracted : ∃ interfaceName namespaceName className member,
    r = record false file interfaceName namespaceName className member ∧
      r' = record true file interfaceName namespaceName className member
  interfaceName : r.interfaceName = r'.interfaceName
  namespaceName : r.namespaceName = r'.namespaceName
  className : r.className = r'.className
  memberName : r.memberName = r'.memberName
  path : r.location.path = r'.location.path
  startLine : r.location.startLine = r'.location.startLine
  ended : (∃ k : Nat, r.location.startLine < k ∧ marksAt file.lines k = true) → r = r'
  unended : (∀ k : Nat, r.location.startLine < k → marksAt file.lines k = false) →
    r.location.endLine = 0 ∧ r.body = "" ∧ r'.location.endLine = (file.lines.length : Int) - 1 ∧
      r'.body =
        "\n".intercalate ((file.lines.take (file.lines.length - 1)).drop r.location.startLine.toNat)

/-- **The fallback changes a record only where its body has no end.** An end that is found is the
same in both modes, as the search for it does not depend on the mode. -/
theorem agreeButEnd_record (file : SourceFile)
    (interfaceName namespaceName className member : String) :
    AgreeButEnd file (record false file interfaceName namespaceName className member)
      (record true file interfaceName namespaceName className member) where
  extracted := ⟨_, _, _, _, rfl, rfl⟩
  interfaceName := rfl
  namespaceName := rfl
  className := rfl
  memberName := rfl
  path := rfl
  startLine := rfl
  ended := by
    rintro ⟨k, hk, hm⟩
    have hstart : Body.startLine file.lines member < k := Int.ofNat_lt.1 hk
    simp only [record, Body.bodyEnd_eq_of_marksAt hstart hm false true]
  unended := by
    intro hnone
    have hnone' : ∀ k, Body.startLine file.lines member < k → marksAt file.lines k = false :=
      fun k hk => hnone k (Int.ofNat_lt.2 hk)
    have hdefault : bodyEnd false file.lines (Body.startLine file.lines member) = 0 :=
      Body.bodyEnd_of_forall_unmarked hnone'
    have hfallback : bodyEnd true file.lines (Body.startLine file.lines member) =
        (file.lines.length : Int) - 1 :=
      Body.bodyEnd_of_forall_unmarked hnone'
    refine ⟨hdefault, ?_, hfallback, ?_⟩
    · simp only [record, hdefault, Body.sliceBody_zero]
    · have hlast : ((file.lines.length : Int) - 1).toNat = file.lines.length - 1 := by omega
      simp only [record, hfallback, Body.sliceBody_natCast, hlast, Int.toNat_natCast]

end Extraction

/-! ## The two harvests -/

namespace Harvest

open Extraction (AgreeButEnd agreeButEnd_record)

/-- Lists that agree element by element still agree once they are joined. -/
theorem forall₂_flatMap {α β : Type} {R : β → β → Prop} {f g : α → List β} {as : List α}
    (h : ∀ a ∈ as, List.Forall₂ R (f a) (g a)) : List.Forall₂ R (as.flatMap f) (as.flatMap g) := by
  induction as with
  | nil => exact .nil
  | cons a as ih =>
    obtain ⟨ha, has⟩ := List.forall_mem_cons.1 h
    exact List.rel_append ha (ih has)

/-- A name has the same members in a file with and without the fallback. -/
theorem forall₂_block (files : List SourceFile) (file : SourceFile) (name : String) :
    List.Forall₂ (AgreeButEnd file) (block false files file name) (block true files file name) := by
  rw [block, block]
  split
  · cases Extraction.namespaceName? file.lines with
    | none => exact .nil
    | some space =>
      cases declaredMembers? files name with
      | none => exact .nil
      | some members =>
        refine List.forall₂_map_left_iff.2
          (List.forall₂_map_right_iff.2 (List.forall₂_same.2 fun member _ => ?_))
        exact agreeButEnd_record file name space (Extraction.className file.lines name) member
  · exact .nil

/-- **The fallback changes only bodies without an end.** Both harvests have one catalogue, and their
records correspond one by one. -/
theorem harvestFiles_fallback (names : List String) (files : List SourceFile) :
    ∃ catalogue records records',
      (harvestFiles false names files).outcome = .ok (catalogue, records) ∧
        (harvestFiles true names files).outcome = .ok (catalogue, records') ∧
        records.length = records'.length ∧
        List.Forall₂ (fun r r' => ∃ file ∈ files, AgreeButEnd file r r') records records' := by
  have hpairs : List.Forall₂ (fun r r' => ∃ file ∈ files, AgreeButEnd file r r')
      (fileRecords false names files) (fileRecords true names files) := by
    rw [fileRecords_eq_flatMap_block, fileRecords_eq_flatMap_block]
    refine forall₂_flatMap fun file hfile => forall₂_flatMap fun name _ => ?_
    exact (forall₂_block files file name).imp fun _ _ h => ⟨file, hfile, h⟩
  exact ⟨_, _, _, rfl, rfl, hpairs.length_eq, hpairs⟩

end Harvest
end MemberHarvest
