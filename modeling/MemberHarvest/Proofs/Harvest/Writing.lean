import MemberHarvest.Harvest.Run
import MemberHarvest.Proofs.Member.RoundTrip
import MemberHarvest.Proofs.Workspace.Receiving

/-!
# Proofs/Harvest/Writing — a document is written whole or not at all

Where records are written, the destination holds their document and every other file is as it was;
where they are not, every file is as it was, the destination's included (`write_allOrNothing`). What
may be new in both cases are directories on the way to the destination. Records that can be listed
are written wherever the destination receives a file.
-/

namespace MemberHarvest.Harvest

open MemberHarvest.Path (Place)

/-- Records that no document lists leave the workspace as it is. -/
theorem write_of_document_error {wrap : Bool} {records : List Record} {e : Failure}
    (h : Record.document wrap records = .error e) (w : Workspace) (destination : Path) :
    write w wrap records destination = (w, .error e) := by
  rw [write, h]

/-- **Records that have a document are written as it is saved.** The document is built before
anything is done in the workspace, so a record that cannot be written touches nothing. -/
theorem write_of_document {wrap : Bool} {records : List Record} {text : String}
    (h : Record.document wrap records = .ok text) (w : Workspace) (destination : Path) :
    write w wrap records destination =
      ((w.save destination (Text.Utf8.encode text.toList)).1,
        (w.save destination (Text.Utf8.encode text.toList)).2.mapError
          (·.toFailure (.write destination))) := by
  rw [write, h]

/-- A file that is not saved is reported with its path, or for a name that ends a path. -/
theorem toFailure_cases {o : Workspace.Obstacle} {destination : Path}
    (h : o = .nul → destination.holdsNul = true) :
    (∃ r, o.toFailure (.write destination) = .write destination r) ∨
      o.toFailure (.write destination) = .nulInPath ∧ destination.holdsNul = true := by
  cases o with
  | nul => exact .inr ⟨rfl, h rfl⟩
  | refused r => exact .inl ⟨r, rfl⟩

/-- Records that can be listed are written to a path that receives a file. -/
theorem write_of_receives {records : List Record} (hf : ∀ r ∈ records, r.location.FitsWords)
    {w : Workspace} {destination : Path} (h : w.Receives destination) (wrap : Bool) :
    (write w wrap records destination).2 = .ok () := by
  obtain ⟨u, hu⟩ := Workspace.save_of_receives h <|
    Text.Utf8.encode (String.ofList (Json.render 0 (Record.listing wrap records) ++ ['\n'])).toList
  rw [write_of_document (Record.document_of_fitsWords hf wrap), hu]
  rfl

/-- **Writing is all or nothing,** and it is all where the destination receives a file. -/
theorem write_allOrNothing (w : Workspace) (wrap : Bool) (records : List Record) (s : String) :
    let destination := Path.ofString s
    let place := destination.placeOf w.current
    let made := destination.parent.trail w.current
    (match write w wrap records destination with
      | (u, .ok ()) =>
        ∃ text, Record.document wrap records = .ok text ∧
          u.readBytes destination = .ok (Text.Utf8.encode text.toList) ∧
          u.tree.find? place = some (.file (Text.Utf8.encode text.toList)) ∧
          (∀ q, q ≠ place → FileTree.KeptAt w.tree u.tree made q) ∧
          ∀ q, q ≠ place → ∀ bytes,
            u.tree.find? q = some (.file bytes) ↔ w.tree.find? q = some (.file bytes)
      | (u, .error e) =>
        FileTree.AddsDirectories w.tree u.tree made ∧
          (∀ q bytes, u.tree.find? q = some (.file bytes) ↔ w.tree.find? q = some (.file bytes)) ∧
          (e = .wideInteger ∧ u = w ∧ (∃ r ∈ records, ¬ r.location.FitsWords) ∨
            (∀ r ∈ records, r.location.FitsWords) ∧
              ((∃ r, e = .write destination r) ∨
                e = .nulInPath ∧ destination.holdsNul = true))) ∧
      ((∀ r ∈ records, r.location.FitsWords) → w.Receives destination →
        (write w wrap records destination).2 = .ok ()) := by
  intro destination place made
  refine ⟨?_, fun hf h => write_of_receives hf h wrap⟩
  by_cases hf : ∀ r ∈ records, r.location.FitsWords
  · have hdoc := Record.document_of_fitsWords hf wrap
    rw [write_of_document hdoc]
    rcases w.save_cases _ (Path.isPlain_ofString s) with ⟨u, hu, hs⟩ | ⟨u, o, hu, hg, hnul⟩
    · rw [hu]
      exact ⟨_, hdoc, hs.readBytes, hs.find?, hs.kept, fun q hq => (hs.kept q hq).find?_eq_file_iff⟩
    · rw [hu]
      exact ⟨hg.tree, fun q => (hg.tree q).find?_eq_file_iff, .inr ⟨hf, toFailure_cases hnul⟩⟩
  · rw [write_of_document_error (Record.document_of_not_fitsWords hf wrap)]
    have hwide : ∃ r ∈ records, ¬ r.location.FitsWords := by
      by_contra hnone
      exact hf fun r hr => by_contra fun hr' => hnone ⟨r, hr, hr'⟩
    exact ⟨.refl _ _, fun _ _ => Iff.rfl, .inl ⟨rfl, rfl, hwide⟩⟩

end MemberHarvest.Harvest
