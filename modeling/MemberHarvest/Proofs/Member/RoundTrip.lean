import Mathlib.Algebra.Group.Int.Defs
import MemberHarvest.Member.Reading
import MemberHarvest.Proofs.Json.RoundTrip

/-!
# Proofs/Member/RoundTrip — a document of records tells which records it lists

Records whose lines fit machine words are written to a document that reads back to them, and to
whether they are wrapped; others are refused (`read?_document`). So no two lists of records share a
document.
-/

namespace MemberHarvest

/-- Whether a word of 64 bits, signed or unsigned, holds both lines of a place. -/
def Location.FitsWords (l : Location) : Prop :=
  (-2 ^ 63 ≤ l.startLine ∧ l.startLine < 2 ^ 64) ∧ -2 ^ 63 ≤ l.endLine ∧ l.endLine < 2 ^ 64

namespace Record

/-- An integer fits a word if it is a signed or an unsigned one of 64 bits. -/
theorem fitsWord_iff {i : Int} : Json.fitsWord i = true ↔ -2 ^ 63 ≤ i ∧ i < 2 ^ 64 := by
  rw [Json.fitsWord, Bool.and_eq_true, decide_eq_true_eq, decide_eq_true_eq]
  exact Iff.rfl

/-- A record can be written if its lines fit words, since its other fields are texts. -/
theorem isWritable_toJson (r : Record) : r.toJson.isWritable = true ↔ r.location.FitsWords := by
  simp [toJson, Location.toJson, Json.isWritable, Json.areWritableFields, fitsWord_iff,
    Location.FitsWords]

theorem areWritable_map_toJson (records : List Record) :
    Json.areWritable (records.map toJson) = true ↔ ∀ r ∈ records, r.location.FitsWords := by
  induction records with
  | nil => simp [Json.areWritable]
  | cons r rs ih =>
    rw [List.map_cons, Json.areWritable, Bool.and_eq_true, isWritable_toJson, ih,
      List.forall_mem_cons]

/-- **Records can be written where all their lines fit words.** Wrapping them in an object adds no
number. -/
theorem isWritable_listing (wrap : Bool) (records : List Record) :
    (listing wrap records).isWritable = true ↔ ∀ r ∈ records, r.location.FitsWords := by
  rw [← areWritable_map_toJson]
  cases wrap <;> simp [listing, Json.isWritable, Json.areWritableFields]

/-- **Records whose lines fit words have a document,** which ends with a line end. -/
theorem document_of_fitsWords {records : List Record} (h : ∀ r ∈ records, r.location.FitsWords)
    (wrap : Bool) :
    document wrap records =
      .ok (String.ofList (Json.render 0 (listing wrap records) ++ ['\n'])) := by
  rw [document, Json.document, if_pos ((isWritable_listing wrap records).2 h), String.ofList_append]
  rfl

/-- **Records with a line beyond a word have none.** The failure is the writer's own, and not one of
the destination. -/
theorem document_of_not_fitsWords {records : List Record}
    (h : ¬ ∀ r ∈ records, r.location.FitsWords) (wrap : Bool) :
    document wrap records = .error .wideInteger := by
  rw [document, Json.document, if_neg fun hw => h ((isWritable_listing wrap records).1 hw)]
  rfl

/-- A document that was written reads back. -/
theorem read?_of_document {wrap : Bool} {records : List Record} {text : String}
    (h : document wrap records = .ok text) :
    Json.read? text = some (listing wrap records) ∧ read? text = some (wrap, records) := by
  by_cases hf : ∀ r ∈ records, r.location.FitsWords
  · rw [document_of_fitsWords hf] at h
    have hj : Json.read? text = some (listing wrap records) := by
      rw [← Except.ok.inj h, Json.read?_render]
    refine ⟨hj, ?_⟩
    rw [read?, hj]
    exact ofListing?_listing wrap records
  · rw [document_of_not_fitsWords hf] at h
    exact absurd h (by simp)

/-- **A document reads back to the records that it was written for,** and only lines that fit no
word are refused. -/
theorem read?_document (wrap : Bool) (records : List Record) :
    ((∀ r ∈ records, r.location.FitsWords) →
        ∃ text, document wrap records = .ok text ∧
          Json.read? text = some (listing wrap records) ∧ read? text = some (wrap, records)) ∧
      ((∃ r ∈ records, ¬ r.location.FitsWords) →
        document wrap records = .error .wideInteger) ∧
      ∀ (wrap' : Bool) (records' : List Record) (text : String), document wrap records = .ok text →
        document wrap' records' = .ok text → (wrap', records') = (wrap, records) := by
  refine ⟨fun h => ?_, fun ⟨r, hr, hf⟩ => ?_, fun wrap' records' text h h' => ?_⟩
  · exact ⟨_, document_of_fitsWords h wrap, read?_of_document (document_of_fitsWords h wrap)⟩
  · exact document_of_not_fitsWords (fun h => hf (h r hr)) wrap
  · exact Option.some.inj ((read?_of_document h').2.symm.trans (read?_of_document h).2)

end Record
end MemberHarvest
