import MemberHarvest.Command.Run
import MemberHarvest.Proofs.Harvest.Running

/-!
# Proofs/Command/WritesLast — output is the last thing that happens

What `scrape` does before it harvests finds its settings and keeps the workspace
(`keeps_harvestSettings`); what it does then is one run (`run_scrape`). So a run and the command
leave a workspace as it is unless everything is collected, and where they succeed, they have
delivered what was collected before anything changed (`run_writesLast`).
-/

namespace MemberHarvest.Command

open Harvest (CannotCollect Delivered)

/-! ## Keeping the workspace -/

namespace Act

variable {α β : Type}

/-- Whether a part of a command leaves the workspace as it is. -/
def Keeps (x : Act α) : Prop := ∀ t : Session, (x.run.run t).2.workspace = t.workspace

/-- Two acts run one behind the other, unless the first one stops. -/
theorem run_bind (x : Act α) (f : α → Act β) (t : Session) :
    (x >>= f).run.run t =
      match x.run.run t with
      | (.error stop, t') => (.error stop, t')
      | (.ok a, t') => (f a).run.run t' := by
  change (match x.run.run t with
    | (r, t') => (ExceptT.bindCont f r : StateM Session (Except Stop β)) t') = _
  rcases x.run.run t with ⟨_ | a, t'⟩ <;> rfl

namespace Keeps

theorem pure (a : α) : Keeps (Pure.pure a) := fun _ => rfl

theorem stop (s : Stop) : Keeps (Act.stop s : Act α) := fun _ => rfl

/-- Two acts that keep the workspace keep it together. -/
theorem bind {x : Act α} {f : α → Act β} (hx : Keeps x) (hf : ∀ a, Keeps (f a)) :
    Keeps (x >>= f) := by
  intro t
  have hfirst := hx t
  rw [run_bind]
  rcases hrun : x.run.run t with ⟨_ | a, t'⟩ <;> rw [hrun] at hfirst
  · exact hfirst
  · exact (hf a t').trans hfirst

theorem mapM {f : α → Act β} {as : List α} (hf : ∀ a, Keeps (f a)) : Keeps (as.mapM f) := by
  induction as with
  | nil => exact pure _
  | cons a as ih =>
    rw [List.mapM_cons]
    exact (hf a).bind fun _ => ih.bind fun _ => pure _

/-- A change of the session keeps the workspace if it does not change that part. -/
theorem modify {f : Session → Session} (hf : ∀ t, (f t).workspace = t.workspace) :
    Keeps (modify f : Act PUnit) := hf

theorem ofExcept (x : Except Failure α) : Keeps (Act.ofExcept x) := by
  cases x with
  | ok a => exact pure a
  | error e => exact stop _

theorem ask (question : String) : Keeps (Act.ask question) := by
  refine bind (x := (get : Act Session)) (fun _ => rfl) fun t => ?_
  refine bind (modify fun _ => rfl) fun _ => ?_
  rcases (answer? (question ++ ": ") t.input).2 with _ | ⟨line, rest⟩
  · exact stop _
  · exact bind (modify fun _ => rfl) fun _ => pure _

theorem ofJournaled (x : Journaled α) : Keeps (Act.ofJournaled x) := by
  refine bind (modify fun _ => rfl) fun _ => ?_
  cases x.outcome with
  | ok a => exact pure a
  | error e =>
    simp only
    split
    · exact bind (modify fun _ => rfl) fun _ => stop _
    · exact stop _

end Keeps
end Act

/-! ## The settings of a harvest -/

/-- What a harvest is asked to do: its settings, after the questions and before anything is looked
at. -/
def harvestSettings (arguments : List String) : Act Settings := do
  let a ← readArguments harvestOptions arguments
  let entries ← Act.ofExcept (Settings.Configuration.load (← Act.workspace) (configurationPath? a))
  let settings ← resolve entries a.layer
  Act.setUp (← Act.ofExcept (Journal.setup settings.logLevel false))
  return settings

/-- Harvest by settings that are known. -/
def harvest (settings : Settings) : Act Unit := do
  let (written, result) := Harvest.run (← Act.workspace) settings
  modify fun t => { t with workspace := written }
  let _ ← Act.ofJournaled result
  Act.print "Done\n"

/-- **A harvest command finds its settings, and then it harvests.** All that can go wrong before the
run is in the first part, and it is known to keep the workspace. -/
theorem scrape_eq (arguments : List String) :
    scrape arguments = harvestSettings arguments >>= harvest := by
  simp only [scrape, harvestSettings, harvest, bind_assoc, pure_bind]

theorem keeps_readArguments (options : Options) (arguments : List String) :
    (readArguments options arguments).Keeps := by
  rw [readArguments]
  split
  · exact .stop _
  · split
    · exact .pure _
    · exact .stop _
    · exact .stop _

theorem keeps_resolve (entries : Settings.Entries) (options : Settings.Layer) :
    (resolve entries options).Keeps := by
  refine .bind (.mapM fun f => ?_) fun _ => .ofExcept _
  rw [settleField]
  split
  · exact .bind (.ask _) fun _ => .pure _
  · exact .pure _

/-- **Finding the settings keeps the workspace.** Arguments, a configuration file and answers are
read, and prompts are shown. -/
theorem keeps_harvestSettings (arguments : List String) : (harvestSettings arguments).Keeps := by
  refine .bind (keeps_readArguments _ _) fun a =>
    .bind (.bind (fun _ => rfl) fun _ => .pure _) fun w => ?_
  refine .bind (.ofExcept _) fun entries => .bind (keeps_resolve _ _) fun settings => ?_
  exact .bind (.ofExcept _) fun _ => .bind (.modify fun _ => rfl) fun _ => .pure _

/-! ## The harvest -/

/-- How a command stops for a failure: one that names a path is reported. -/
def stopOf (f : Failure) : Stop := if f.path?.isSome then .reported f else .failure f

/-- A reported computation ends the command as its outcome says. -/
theorem run_ofJournaled {α : Type} (x : Journaled α) (t : Session) :
    ((Act.ofJournaled x).run.run t).1 = x.outcome.mapError stopOf := by
  obtain ⟨es, _ | a⟩ := x
  · rename_i f
    simp only [Act.ofJournaled, Act.run_bind, Except.mapError, stopOf]
    cases f.path?.isSome <;> rfl
  · rfl

/-- **A harvest by known settings is one run.** What is shown to the user depends on its outcome and
not on the session. -/
theorem run_harvest (s : Settings) (t : Session) :
    ((harvest s).run.run t).2.workspace = (Harvest.run t.workspace s).1 ∧
      ((harvest s).run.run t).1 = (fun _ => ()) <$>
        (Harvest.run t.workspace s).2.outcome.mapError stopOf := by
  have hrun : (harvest s).run.run t =
      (Act.ofJournaled (Harvest.run t.workspace s).2 >>= fun _ => Act.print "Done\n").run.run
        { t with workspace := (Harvest.run t.workspace s).1 } := rfl
  have hkeeps :
      (Act.ofJournaled (Harvest.run t.workspace s).2 >>= fun _ => Act.print "Done\n").Keeps :=
    .bind (.ofJournaled _) fun _ => .modify fun _ => rfl
  refine ⟨hrun ▸ hkeeps _, ?_⟩
  rw [hrun, Act.run_bind]
  have hfirst :=
    run_ofJournaled (Harvest.run t.workspace s).2 { t with workspace :=
    (Harvest.run t.workspace s).1 }
  rcases hstep : (Act.ofJournaled (Harvest.run t.workspace s).2).run.run
    { t with workspace := (Harvest.run t.workspace s).1 } with ⟨_ | a, t'⟩ <;>
      rw [hstep] at hfirst <;>
    exact congrArg ((fun _ => ()) <$> ·) hfirst

/-- The settings that arguments and answers give. -/
def settingsFor (w : Workspace) (arguments : List String) (input : String) : Except Stop Settings :=
  ((harvestSettings arguments).run.run
    (.start w ((Text.sourceLines input.toList).map String.ofList))).1

/-- **The command finds its settings and then is one run.** Without settings there is no run at
all. -/
theorem run_scrape (w : Workspace) (arguments : List String) (input : String) :
    match settingsFor w arguments input with
    | .error stop =>
      (run w ("scrape" :: arguments) input).1 = .error stop ∧
        (run w ("scrape" :: arguments) input).2.workspace = w
    | .ok s =>
      (run w ("scrape" :: arguments) input).1 = (fun _ => ()) <$>
        (Harvest.run w s).2.outcome.mapError stopOf ∧
        (run w ("scrape" :: arguments) input).2.workspace = (Harvest.run w s).1 := by
  have hrun : run w ("scrape" :: arguments) input =
      (scrape arguments).run.run (.start w ((Text.sourceLines input.toList).map String.ofList)) :=
        rfl
  have hkeeps :=
    keeps_harvestSettings arguments (.start w ((Text.sourceLines input.toList).map String.ofList))
  rw [hrun, scrape_eq, Act.run_bind, settingsFor]
  rcases hstep : (harvestSettings arguments).run.run
    (.start w ((Text.sourceLines input.toList).map String.ofList)) with ⟨stop | s, t⟩ <;>
      rw [hstep] at hkeeps
  · exact ⟨rfl, hkeeps⟩
  · obtain ⟨hworkspace, houtcome⟩ := run_harvest s t
    have ht : t.workspace = w := hkeeps
    rw [ht] at hworkspace houtcome
    exact ⟨houtcome, hworkspace⟩

/-- **Output comes last.** Where loading or reading fails, a run leaves the workspace as it is, and
where it succeeds, it has delivered the records that were to be collected in the workspace before
it. So does the command, which besides leaves the workspace as it is where it has no settings. -/
theorem run_writesLast (w : Workspace) :
    (∀ s,
      (CannotCollect w s → (Harvest.run w s).1 = w ∧ ∃ e, (Harvest.run w s).2.outcome = .error e) ∧
        ∀ records, (Harvest.run w s).2.outcome = .ok records →
          Delivered w (Harvest.run w s).1 s records) ∧
      ∀ arguments input,
        let (outcome, after) := run w ("scrape" :: arguments) input
        match settingsFor w arguments input with
        | .error stop => outcome = .error stop ∧ after.workspace = w
        | .ok s =>
          (CannotCollect w s → after.workspace = w ∧ ∃ stop, outcome = .error stop) ∧
            (outcome = .ok () → ∃ records, Delivered w after.workspace s records) := by
  have hfails {s : Settings} (h : CannotCollect w s) :
      (Harvest.run w s).1 = w ∧ ∃ e, (Harvest.run w s).2.outcome = .error e := by
    obtain ⟨e, he⟩ := Harvest.exists_collect_eq_error_iff.2 h
    exact ⟨(Harvest.run_of_collect_error he).1, e, (Harvest.run_of_collect_error he).2⟩
  refine ⟨fun s => ⟨hfails, fun records => Harvest.delivered_of_run⟩, fun arguments input => ?_⟩
  have hscrape := run_scrape w arguments input
  rcases hrun : run w ("scrape" :: arguments) input with ⟨outcome, after⟩
  rw [hrun] at hscrape
  cases hs : settingsFor w arguments input with
  | error stop =>
    rw [hs] at hscrape
    exact hscrape
  | ok s =>
    rw [hs] at hscrape
    obtain ⟨rfl, hafter⟩ : outcome = _ ∧ after.workspace = _ := hscrape
    simp only [hafter]
    refine ⟨fun h => ?_, fun h => ?_⟩
    · obtain ⟨hw, e, he⟩ := hfails h
      exact ⟨hw, stopOf e, by rw [he]; rfl⟩
    · obtain ⟨records, hrecords, -⟩ := Outcome.map_eq_ok_iff.1 h
      exact ⟨records, Harvest.delivered_of_run (Outcome.mapError_eq_ok_iff.1 hrecords)⟩

/-! ## A harvest over its own source -/

/-- The page of an encoding of Cyrillic letters, as far as it is made of ASCII and the letters
themselves. -/
def cyrillicPage : List Char :=
  (List.range 256).map fun n =>
    if n < 0x80 then Char.ofNat n else if 0xC0 ≤ n then Char.ofNat (n - 0xC0 + 0x410) else '\ufffd'

/-- A registry that knows this encoding. -/
def cyrillicCodecs : Text.Codecs where
  read name bytes :=
    if name = "cp1251" then
      match bytes.mapM (Xml.ByteTable.ofPage cyrillicPage) with
      | some cs => .ok cs
      | none => .error .undecodable
    else .error .unknown
  page name := if name = "cp1251" then .ok cyrillicPage else .error .unknown

/-- The home directory of an account, with a source file in Cyrillic letters. -/
def sourceAtHome : Workspace where
  tree := (FileTree.empty.put ["S"] .directory).put ["S", "Foo.cs"]
    (.file (Text.Utf8.encode "namespace N; interface IFoo \x7b void Run(); \x7d class ".toList ++
      [0xC4, 0xEE, 0xEC] ++ Text.Utf8.encode " : IFoo".toList))
  current := []
  host := ⟨fun account => if account = "dev" then some "/S" else none, cyrillicCodecs⟩

/-- A harvest of the home directory that writes over the source file. -/
def overSource : Settings :=
  ⟨"~dev", "~dev/Foo.cs", ["IFoo"], [], "cp1251", false, false, 1, "INFO"⟩

/-- The record of the source file. -/
def runOfFoo : Record := ⟨"IFoo", "IFoo", "Дом", "Run", "", ⟨"/S/Foo.cs", 1, 0⟩⟩

/-- A harvest of an account's home directory writes over the only source file there, which is in
Cyrillic letters. -/
theorem run_writesLast_overSource :
    (Harvest.run sourceAtHome overSource).2.outcome = .ok [runOfFoo] ∧
      Delivered sourceAtHome (Harvest.run sourceAtHome overSource).1 overSource [runOfFoo] := by
  have hrun : (Harvest.run sourceAtHome overSource).2.outcome = .ok [runOfFoo] := by decide +kernel
  exact ⟨hrun, ((run_writesLast sourceAtHome).1 overSource).2 [runOfFoo] hrun⟩

end MemberHarvest.Command
