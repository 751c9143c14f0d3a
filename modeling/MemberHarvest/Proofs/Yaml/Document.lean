import MemberHarvest.Proofs.Outcome
import MemberHarvest.Yaml.Document

/-!
# Proofs/Yaml/Document — what of a document is handed over

A document has a value only if all of it is a text of printable characters (`load_eq_ok_iff`). It is
refused as undecodable only if its bytes are no text (`decode?_of_load_undecodable`), and then it
has no value; but something may be wrong in front of the place where this shows.
-/

namespace MemberHarvest.Yaml

open Outcome

variable {bytes : Text.Bytes} {cs known : List Char} {halt : Halt} {stop? : Option Halt}

/-! ## Supplies -/

/-- **A text is handed over as a whole just where all its characters are printable** and nothing
stops it. Otherwise it is handed over up to the first character that is not. -/
theorem Supply.ofText_eq_whole_iff :
    Supply.ofText cs stop? = .whole known ↔ (∀ c ∈ cs, isPrintable c = true) ∧
      stop? = none ∧ cs = known := by
  rw [Supply.ofText.eq_def]
  cases hfind : cs.findIdx? (!isPrintable ·) with
  | some i =>
    have hsome : ¬ ∀ c ∈ cs, isPrintable c = true := fun h => by
      have hnone : cs.findIdx? (!isPrintable ·) = none :=
        List.findIdx?_eq_none_iff.2 fun c hc => by rw [h c hc, Bool.not_true]
      exact nomatch hfind.symm.trans hnone
    simp [hsome]
  | none =>
    have hall : ∀ c ∈ cs, isPrintable c = true := fun c hc => by
      simpa using List.findIdx?_eq_none_iff.1 hfind c hc
    cases stop? with
    | some halt => simp
    | none => simpa using fun _ => hall

/-- Only what stops a text is the reason why it is not known further, or its own characters are. -/
theorem Supply.eq_of_ofText_undecodable (h : Supply.ofText cs stop? = .broken known .undecodable) :
    stop? = some .undecodable := by
  rw [Supply.ofText.eq_def] at h
  split at h
  · exact nomatch h
  · rw [(Supply.broken.inj h).2]
  · exact nomatch h

/-- The whole of a file is supplied if its bytes are those of a text and each character of it is
printable. -/
theorem Supply.ofBytes_eq_whole_iff : Supply.ofBytes bytes = .whole cs ↔
    ∃ text, Text.Utf8.decode? bytes = some text ∧ Text.unifyNewlines text = cs ∧ ∀ c ∈ cs,
      isPrintable c = true := by
  rw [Supply.ofBytes]
  cases Text.Utf8.decode? bytes with
  | none => simp [Supply.ofText_eq_whole_iff]
  | some text =>
    simp only [Supply.ofText_eq_whole_iff, Option.some.injEq, exists_eq_left', true_and]
    constructor
    · rintro ⟨hprintable, rfl⟩
      exact ⟨rfl, hprintable⟩
    · rintro ⟨rfl, hprintable⟩
      exact ⟨hprintable, rfl⟩

/-! ## Values -/

/-- **A document has a value just where all of it is a text that has one.** So a document that is
read in pieces has the value that it has as a whole. -/
theorem load_eq_ok_iff {v : Settings.Value} : load bytes = .ok v ↔
    ∃ text, Text.Utf8.decode? bytes = some text ∧
      (∀ c ∈ Text.unifyNewlines text, isPrintable c = true) ∧
      document (Text.unifyNewlines text) = .ok v := by
  rw [load]
  cases hsupply : Supply.ofBytes bytes with
  | whole cs =>
    obtain ⟨text, htext, rfl, hprintable⟩ := Supply.ofBytes_eq_whole_iff.1 hsupply
    simp only [mapError_eq_ok_iff, htext, Option.some.injEq, exists_eq_left']
    exact (and_iff_right hprintable).symm
  | broken known halt =>
    refine iff_of_false nofun ?_
    rintro ⟨text, htext, hprintable, -⟩
    have hwhole := Supply.ofBytes_eq_whole_iff.2 ⟨text, htext, rfl, hprintable⟩
    exact nomatch hsupply.symm.trans hwhole

/-- **Only bytes that are no text are refused as such.** The converse fails where the text in front
of the bytes is at fault before. -/
theorem decode?_of_load_undecodable (h : load bytes = .error .undecodable) :
    Text.Utf8.decode? bytes = none := by
  rw [load] at h
  cases hsupply : Supply.ofBytes bytes with
  | whole cs =>
    rw [hsupply] at h
    obtain ⟨_, -, h⟩ := mapError_eq_error_iff.1 h
    exact nomatch h
  | broken known halt =>
    rw [hsupply] at h
    have hhalt : halt = .undecodable := by
      cases hahead : faultAhead known with
      | none => simpa [hahead] using h
      | some fault => simp [hahead] at h
    rw [hhalt, Supply.ofBytes] at hsupply
    cases hdecode : Text.Utf8.decode? bytes with
    | none => rfl
    | some text =>
      rw [hdecode] at hsupply
      exact nomatch Supply.eq_of_ofText_undecodable hsupply

end MemberHarvest.Yaml
