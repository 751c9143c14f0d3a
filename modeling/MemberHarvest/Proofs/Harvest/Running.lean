import MemberHarvest.Proofs.Harvest.Projects
import MemberHarvest.Proofs.Harvest.Writing
import MemberHarvest.Proofs.Workspace.Looking

/-!
# Proofs/Harvest/Running — a harvest collects its records before it writes them

Records are collected by loading projects and reading their source files; where one of these fails,
there are no records (`exists_collect_eq_error_iff`) and a run leaves the workspace as it is
(`run_of_collect_error`). A run that succeeds has `Delivered` the document of what was collected in
the workspace before it (`delivered_of_run`), whatever the destination held then.
-/

namespace MemberHarvest

open Outcome

/-- The home directory of an account is written as any path is. -/
theorem Host.isPlain_of_homeOf? {h : Host} {account : String} {home : Path}
    (hhome : h.homeOf? account = some home) : home.IsPlain := by
  rw [homeOf?] at hhome
  obtain ⟨written, -, hwritten⟩ := Option.bind_eq_some_iff.1 hhome
  dsimp only at hwritten
  split at hwritten
  · obtain rfl := Option.some.inj hwritten
    exact nofun
  · exact nomatch hwritten
  · exact Option.some.inj hwritten ▸ Path.isPlain_ofString _

/-- A path is written plainly, whichever home directory it starts from. -/
theorem Workspace.isPlain_of_expandHome {w : Workspace} {s : String} {q : Path}
    (h : w.expandHome (.ofString s) = .ok q) : q.IsPlain := by
  have hplain : (Path.ofString s).IsPlain := Path.isPlain_ofString s
  obtain ⟨-, rfl⟩ | ⟨account, home, -, -, hhome, rfl⟩ := expandHome_eq_ok_iff.1 h
  · exact hplain
  · intro m hm
    rcases List.mem_append.1 hm with hm | hm
    · exact Host.isPlain_of_homeOf? hhome m hm
    · exact hplain m (List.mem_of_mem_tail hm)

namespace Harvest

variable {w u : Workspace} {s : Settings} {records : List Record}

/-! ## Collecting -/

/-- Records are collected from the projects that the solution stands for. -/
theorem outcome_collect (w : Workspace) (s : Settings) :
    (collect w s).outcome = (Project.loadAll w s.ignore s.solution).outcome >>= fun ps =>
      (harvestProjects w s.encoding s.eofFallback s.interfaces ps).outcome := by
  rw [collect, Journaled.outcome_bind]

/-- Loading the solution fails, or reading a source file of one of its projects. -/
def CannotCollect (w : Workspace) (s : Settings) : Prop :=
  (∃ e, (Project.loadAll w s.ignore s.solution).outcome = .error e) ∨
    ∃ ps, (Project.loadAll w s.ignore s.solution).outcome = .ok ps ∧
      ∃ p ∈ ps, ∃ path ∈ p.sourcePaths, ∃ e, Source.read w s.encoding path = .error e

/-- The files of some projects cannot be read just where one of them cannot. -/
theorem exists_mapM_files_eq_error_iff {encoding : String} {ps : List Project} :
    (∃ e, ps.mapM (files w encoding) = .error e) ↔
      ∃ p ∈ ps, ∃ path ∈ p.sourcePaths, ∃ e, Source.read w encoding path = .error e := by
  have hfails {α β : Type} {f : α → Except Failure β} {as : List α} :
      (∃ e, as.mapM f = .error e) ↔ ∃ a ∈ as, ∃ e, f a = .error e := by
    have hnot {γ : Type} (x : Except Failure γ) : (∃ e, x = .error e) ↔ ¬ ∃ c, x = .ok c := by
      cases x <;> simp
    simp only [hnot, exists_mapM_eq_ok_iff]
    push Not
    rfl
  exact hfails.trans (exists_congr fun p => and_congr_right fun _ => hfails)

/-- **Nothing is collected just where loading or reading fails.** Which of the two it was is told by
the failure. -/
theorem exists_collect_eq_error_iff :
    (∃ e, (collect w s).outcome = .error e) ↔ CannotCollect w s := by
  simp only [CannotCollect, outcome_collect, bind_eq_error_iff,
    outcome_harvestProjects, map_eq_error_iff, ← exists_mapM_files_eq_error_iff, exists_or]
  refine or_congr_right ?_
  constructor
  · rintro ⟨e, ps, hps, he⟩
    exact ⟨ps, hps, e, he⟩
  · rintro ⟨ps, hps, e, he⟩
    exact ⟨e, ps, hps, he⟩

/-! ## Running -/

/-- **A run that collects nothing leaves the workspace as it is.** The workspace is handed back
unchanged, and the failure is that of collecting. -/
theorem run_of_collect_error {e : Failure} (h : (collect w s).outcome = .error e) :
    (run w s).1 = w ∧ (run w s).2.outcome = .error e := by
  rw [run]
  simp only [h, and_self]

/-- What a run does once the records are collected. -/
theorem run_of_collect_ok (h : (collect w s).outcome = .ok records) :
    ((run w s).1, (run w s).2.outcome) =
      match w.expandHome (.ofString s.output) with
      | .error e => (w, .error e)
      | .ok destination =>
        ((write w s.wrapItems records destination).1,
          (fun _ => records) <$> (write w s.wrapItems records destination).2) := by
  rw [run]
  simp only [h]
  cases w.expandHome (.ofString s.output) with
  | error e => rfl
  | ok destination =>
    rcases hwrite : write w s.wrapItems records destination with ⟨written, _ | _⟩ <;>
      simp only [hwrite] <;> rfl

/-- A run that succeeds has collected its records and written them. -/
theorem collect_and_write_of_run (h : (run w s).2.outcome = .ok records) :
    (collect w s).outcome = .ok records ∧
      ∃ destination, w.expandHome (.ofString s.output) = .ok destination ∧
        write w s.wrapItems records destination = ((run w s).1, .ok ()) := by
  cases hcollect : (collect w s).outcome with
  | error e => exact nomatch (run_of_collect_error hcollect).2.symm.trans h
  | ok collected =>
    have hrun := run_of_collect_ok hcollect
    rw [h] at hrun
    cases hhome : w.expandHome (.ofString s.output) with
    | error e =>
      rw [hhome] at hrun
      exact nomatch (Prod.mk.inj hrun).2
    | ok destination =>
      rw [hhome] at hrun
      obtain ⟨htree, houtcome⟩ := Prod.mk.inj hrun
      obtain ⟨⟨⟩, hwrite, rfl⟩ := map_eq_ok_iff.1 houtcome.symm
      exact ⟨rfl, destination, rfl, Prod.ext htree.symm hwrite⟩

/-- A document that is written is saved at its destination. -/
theorem saved_of_write {wrap : Bool} {destination : Path} (hplain : destination.IsPlain)
    (h : write w wrap records destination = (u, .ok ())) :
    ∃ text, Record.document wrap records = .ok text ∧
      Workspace.Saved w u destination (Text.Utf8.encode text.toList)
        (destination.parent.trail w.current) := by
  cases hdoc : Record.document wrap records with
  | error e =>
    rw [write_of_document_error hdoc] at h
    exact nomatch (Prod.mk.inj h).2
  | ok text =>
    rw [write_of_document hdoc] at h
    obtain ⟨htree, houtcome⟩ := Prod.mk.inj h
    rcases w.save_cases (Text.Utf8.encode text.toList) hplain with ⟨v, hv, hs⟩ | ⟨v, o, hv, -, -⟩
    · rw [hv] at htree
      exact ⟨text, rfl, htree ▸ hs⟩
    · rw [hv] at houtcome
      exact nomatch houtcome

/-- `u` is `w` with the document of the records that were collected in `w`, by any of its workers:
it stands at the destination, and everything else is as it was but for directories on the way to the
destination. -/
structure Delivered (w u : Workspace) (s : Settings) (records : List Record) : Prop where
  collected : (collect w s).outcome = .ok records
  workers : ∃ ps, (Project.loadAll w s.ignore s.solution).outcome = .ok ps ∧
    ∀ r, HarvestsTo w s.encoding s.maxWorkers s.eofFallback s.interfaces ps r ↔ r = .ok records
  saved : ∃ destination text, w.expandHome (.ofString s.output) = .ok destination ∧
    Record.document s.wrapItems records = .ok text ∧
    Workspace.Saved w u destination (Text.Utf8.encode text.toList)
      (destination.parent.trail w.current)

/-- **A run that succeeds delivers what was there to be collected before it.** Nothing of what it
writes is read by it. -/
theorem delivered_of_run (h : (run w s).2.outcome = .ok records) :
    Delivered w (run w s).1 s records := by
  obtain ⟨hcollect, destination, hdestination, hwrite⟩ := collect_and_write_of_run h
  obtain ⟨text, hdoc, hs⟩ := saved_of_write (Workspace.isPlain_of_expandHome hdestination) hwrite
  obtain ⟨ps, hps, hharvest⟩ := bind_eq_ok_iff.1 (outcome_collect w s ▸ hcollect)
  exact
    { collected := hcollect
      workers := ⟨ps, hps, fun r => hharvest ▸ harvestsTo_iff⟩
      saved := ⟨destination, text, hdestination, hdoc, hs⟩ }

end Harvest
end MemberHarvest
