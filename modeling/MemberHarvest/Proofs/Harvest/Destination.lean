import MemberHarvest.Proofs.Harvest.Writing
import MemberHarvest.Proofs.Workspace.Room
import MemberHarvest.Proofs.Workspace.Roundabout

/-!
# Proofs/Harvest/Destination — which destinations records are written to

A document is written to every destination that takes a file and has room for its draft, and to no
other that has room (`write_eq_ok_iff`). The directories on the way need not be there. They are made
as the path is written, however, so that a path that goes back out of a directory by `..` must not
come to the same place again: it would find the directory that was made for it. And a draft needs a
longer name than its destination, so that a name may be too long for it that is not too long for a
file (`write_ne_ok_of_isUnobstructed`).
-/

namespace MemberHarvest.Harvest

variable {w : Workspace} {records : List Record} {destination : Path} {s : String}

/-- Records are written where their document is saved. -/
theorem write_eq_ok_iff_save {wrap : Bool} : (write w wrap records destination).2 = .ok () ↔
    ∃ text, Record.document wrap records = .ok text ∧
      ∃ u, w.save destination (Text.Utf8.encode text.toList) = (u, .ok ()) := by
  cases hdoc : Record.document wrap records with
  | error e => simp [write_of_document_error hdoc]
  | ok text =>
    rw [write_of_document hdoc, Outcome.mapError_eq_ok_iff]
    constructor
    · exact fun h => ⟨text, rfl, _, Prod.ext rfl h⟩
    · rintro ⟨_, htext, u, hu⟩
      obtain rfl := Except.ok.inj htext
      rw [hu]

/-- **Records are written just where the destination takes a file,** if it has room for a draft and
they can be listed. Along a path without `..` the place of the file is none of those on the way. -/
theorem write_eq_ok_iff (hcurrent : w.tree.isDirectory w.current = true)
    (hroom : w.HasRoom (.ofString s)) (wrap : Bool) :
    let destination := Path.ofString s
    ((write w wrap records destination).2 = .ok () ↔
      (∀ r ∈ records, r.location.FitsWords) ∧ w.Takes destination) ∧
      (destination.names ≠ [] → ".." ∉ destination.names →
        destination.placeOf w.current ∉ destination.parent.trail w.current) := by
  intro destination
  refine ⟨?_, Path.placeOf_not_mem_trail_parent⟩
  have htakes (bytes : Text.Bytes) : (∃ u, w.save destination bytes = (u, .ok ())) ↔
      w.Takes destination :=
    Workspace.exists_save_iff_takes hcurrent (Path.isPlain_ofString s) hroom
  simp only [write_eq_ok_iff_save, htakes, exists_and_right]
  refine and_congr_left' ⟨?_, fun hf => ⟨_, Record.document_of_fitsWords hf wrap⟩⟩
  rintro ⟨text, htext⟩
  by_contra hf
  rw [Record.document_of_not_fitsWords hf wrap] at htext
  cases htext

/-- A destination with room for it, in directories that are made on the way. -/
theorem write_eq_ok_iff_newDirectories :
    Workspace.HasRoom ⟨.empty, [], {}⟩ (.ofString "a/../b/c.json") ∧
      (write ⟨.empty, [], {}⟩ true [] (.ofString "a/../b/c.json")).2 = .ok () := by
  have hroom : Workspace.HasRoom ⟨.empty, [], {}⟩ (.ofString "a/../b/c.json") :=
    ⟨by decide, by decide, by decide, 0, by decide, by decide, by decide⟩
  have htakes : Workspace.Takes ⟨.empty, [], {}⟩ (.ofString "a/../b/c.json") :=
    ⟨⟨by decide, by decide, ⟨by decide, by decide⟩, by decide⟩, by decide⟩
  exact ⟨hroom, (write_eq_ok_iff rfl hroom true).1.2 ⟨by simp, htakes⟩⟩

/-! ## Destinations that are not written -/

/-- **No file with a longer name is written,** where the directory is there and a draft with a mark
of eight digits is free. -/
theorem size_name_le_of_write {wrap : Bool} {i : Nat}
    (hparent : w.isDirectory destination.parent = .ok true)
    (hi : i < 10 ^ 8) (hfree : w.tree.find? (destination.parent.placeOf w.current ++
      [Workspace.draftName destination.name (Workspace.draftMark i)]) = none)
    (h : (write w wrap records destination).2 = .ok ()) :
    Text.Utf8.size destination.name.toList ≤ 241 := by
  obtain ⟨text, -, u, hu⟩ := write_eq_ok_iff_save.1 h
  obtain ⟨hreceives, -, -⟩ := Workspace.save_eq_ok hparent hu
  exact hreceives.size_name_le hi hfree

theorem ofString_of_isName {n : String} (h : FileTree.isName n = true) :
    Path.ofString n = ⟨.here, [n]⟩ := by
  obtain ⟨hempty, hdot, -, hslash, -, -⟩ := FileTree.isName_iff.1 h
  have hplain : (Path.mk .here [n]).IsPlain :=
    fun m hm => List.mem_singleton.1 hm ▸ ⟨hempty, hdot, hslash⟩
  rw [← Path.ofString_intercalate hplain, String.intercalate_singleton]

/-- **Nothing is in the way, but a document is not written** where the file's place is made a
directory first, or where the draft's name is too long although the file's is not. -/
theorem write_ne_ok_of_isUnobstructed :
    (Workspace.IsUnobstructed ⟨.empty, [], {}⟩ (.ofString "a/../a") ∧
      (write ⟨.empty, [], {}⟩ false [] (.ofString "a/../a")).2 ≠ .ok ()) ∧
    Workspace.IsUnobstructed ⟨.empty, [], {}⟩ (.ofString (repeated 'n' 242)) ∧
      FileTree.isTooLong (repeated 'n' 242) = false ∧
      (write ⟨.empty, [], {}⟩ false [] (.ofString (repeated 'n' 242))).2 ≠ .ok () := by
  constructor
  · have hroom : Workspace.HasRoom ⟨.empty, [], {}⟩ (.ofString "a/../a") :=
      ⟨by decide, by decide, by decide, 0, by decide, by decide, by decide⟩
    refine ⟨⟨by decide, by decide, ⟨by decide, by decide⟩, by decide⟩, fun h => ?_⟩
    obtain ⟨text, -, hsaved⟩ := write_eq_ok_iff_save.1 h
    have htakes := (Workspace.exists_save_iff_takes rfl (Path.isPlain_ofString _) hroom).1 hsaved
    exact htakes.not_mem_trail (by decide)
  · have hname : FileTree.isName (repeated 'n' 242) = true :=
      isName_repeated (by decide) (by decide) (by decide) (by decide)
    obtain ⟨hempty, -, hup, -, hnul, hshort⟩ := FileTree.isName_iff.1 hname
    have hlast : Path.name ⟨.here, [repeated 'n' 242]⟩ = repeated 'n' 242 := rfl
    have hplace : Path.placeOf [] ⟨.here, [repeated 'n' 242]⟩ = [repeated 'n' 242] :=
      Path.follow_of_not_mem (by simpa using hup.symm)
    rw [ofString_of_isName hname]
    refine ⟨⟨?_, by rwa [hlast], ⟨by decide, by decide⟩, ?_⟩, hshort, fun h => ?_⟩
    · simpa [Path.holdsNul] using hnul
    · rw [hplace]
      simp [FileTree.isDirectory]
    · have hle := size_name_le_of_write (i := 0) rfl (by decide) (by simp) h
      rw [hlast, size_repeated (by decide)] at hle
      omega

end MemberHarvest.Harvest
