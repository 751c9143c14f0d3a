import MemberHarvest.Proofs.Outcome
import MemberHarvest.Xml.Document

/-!
# Proofs/Xml/Encoding — what becomes of the encoding that a document names

Bytes come to elements or are no document; an encoding is complained of only where the library does
not read it itself and the registry has no page under its name (`page_of_elements`).
-/

namespace MemberHarvest.Xml

open Outcome

/-- What an encoding is complained of for comes from the registry. -/
def HasCause (codecs : Text.Codecs) (cause : Cause) : Prop :=
  ∀ name reason, cause = .encoding name reason →
    Text.Encoding.ofName? name = none ∧ codecs.page name = .error reason

variable {codecs : Text.Codecs} {bytes : Text.Bytes}

/-- That a document is malformed is not for the registry to say. -/
theorem hasCause_malformed : HasCause codecs .malformed := by
  rintro _ _ ⟨⟩

/-- Nor does the registry say that an encoding has more than one byte for a character. -/
theorem hasCause_multiByteEncoding : HasCause codecs .multiByteEncoding := by
  rintro _ _ ⟨⟩

theorem orMalformed_failsAs {α : Type} (x : Option α) :
    FailsAs (HasCause codecs) (orMalformed x) := by
  cases x with
  | none => exact .error hasCause_malformed
  | some a => exact .ok a

/-- The table of a declared encoding fails as the encoding does. -/
theorem tableOf_failsAs (codecs : Text.Codecs) (name : String) :
    FailsAs (HasCause codecs) (tableOf codecs name) := by
  rw [tableOf]
  split
  · exact .ok _
  · exact .ok _
  · exact .ok _
  · exact .error hasCause_multiByteEncoding
  · rename_i hname
    refine .bind (.mapError fun reason hreason => ?_) fun page _ => ?_
    · rintro _ _ ⟨⟩
      exact ⟨hname, hreason⟩
    · dsimp only
      split
      · exact .error hasCause_multiByteEncoding
      · split
        · exact .ok _
        · exact .error hasCause_malformed

/-- Bytes without a mark fail by the encoding that they declare. -/
theorem decodeNarrow_failsAs (codecs : Text.Codecs) (bytes : Text.Bytes) :
    FailsAs (HasCause codecs) (decodeNarrow codecs bytes) := by
  refine .bind (orMalformed_failsAs _) ?_
  rintro ⟨heading, behind⟩ -
  dsimp only
  split
  · exact orMalformed_failsAs _
  · split
    · exact orMalformed_failsAs _
    · exact orMalformed_failsAs _
    · exact .error hasCause_malformed
    · exact .bind (tableOf_failsAs codecs _) fun _ _ => orMalformed_failsAs _

/-- So do units of two bytes, which may declare an encoding as well. -/
theorem decodeWide_failsAs (codecs : Text.Codecs) (order : Text.Utf16.Order) (bytes : Text.Bytes) :
    FailsAs (HasCause codecs) (decodeWide codecs order bytes) := by
  refine .bind (orMalformed_failsAs _) ?_
  rintro ⟨heading, behind⟩ -
  dsimp only
  split
  · exact orMalformed_failsAs _
  · split
    · exact orMalformed_failsAs _
    · split
      · exact orMalformed_failsAs _
      · exact .error hasCause_malformed
    · exact .error hasCause_malformed
    · exact .bind (tableOf_failsAs codecs _) fun _ _ =>
        .bind (orMalformed_failsAs _) fun _ _ => .ok _

/-- **A document fails as malformed, or by an encoding that it declares.** Each branch of the
decoder ends in one of the lemmas above. -/
theorem decode_failsAs (codecs : Text.Codecs) (bytes : Text.Bytes) :
    FailsAs (HasCause codecs) (decode codecs bytes) := by
  rw [decode.eq_def]
  split
  all_goals first | exact decodeWide_failsAs codecs _ _ | exact decodeNarrow_failsAs codecs _

/-- **Only the registry complains of an encoding,** and only of one that is not read without it. So
a complaint can be traced to the registry, whatever the rest of the document holds. -/
theorem page_of_elements {name : String} {reason : Text.Encoding.Cause}
    (h : elements codecs bytes = .error (.encoding name reason)) :
    Text.Encoding.ofName? name = none ∧ codecs.page name = .error reason := by
  have hfails : FailsAs (HasCause codecs) (elements codecs bytes) :=
    .bind (decode_failsAs codecs bytes) fun _ _ => orMalformed_failsAs _
  exact hfails _ h name reason rfl

end MemberHarvest.Xml
