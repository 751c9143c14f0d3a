import MemberHarvest.Proofs.Project.Locating
import MemberHarvest.Proofs.Project.Undoing

/-!
# Proofs/Project/Ignoring — what patterns leave out of a project

Patterns are matched with the text that a file is shown by from the directory of its project. A
normal path is found again from this text, so the texts tell all files apart
(`locate_relativeText`). The files of a project are normal paths, each once, however its items spell
them (`isNormal_of_selected`), and so further patterns leave just those entries out whose files they
match (`load_append`).
-/

namespace MemberHarvest.Project

open Outcome
open MemberHarvest.Path (Place)

variable {w : Workspace} {base path : Path} {place q : Place} {es : List Xml.Element}
  {item pattern : String}
  {files : List Path} {f : Path} {name? : Option String} {ignore : List String} {project : Project}

/-! ## Files and the texts that they are shown by -/

/-- A pattern without wildcards matches no two texts. -/
theorem eq_of_isIgnored_path {text text' : String} (hpath : isGlob item = false)
    (hbracket : '[' ∉ item.toList) (h : Ignore.isIgnored [item] text = true)
    (h' : Ignore.isIgnored [item] text' = true) : text = text' := by
  have hitem : item ≠ "" := by
    rintro rfl
    exact absurd h (by simp [Ignore.isIgnored])
  rw [isIgnored_path_iff hpath hbracket hitem] at h h'
  exact String.toList_inj.1 (h.symm.trans h')

/-- **The text that a path is shown by leads back to it,** if reading it as a project text leaves it
as it is. Different paths are shown by different texts, and so no pattern without wildcards leaves
two of them out. -/
theorem locate_relativeText (root : Path) {target : Path} (h : target.IsNormal) :
    let text := root.relativeText target
    ('\\' ∉ text.toList → Text.trim text.toList = text.toList → ∀ cwd,
      locate cwd root text = .ok target) ∧
      ∀ other : Path, other.IsNormal → other ≠ target → root.relativeText other ≠ text ∧
        ∀ item : String, isGlob item = false → '[' ∉ item.toList →
          ¬ (Ignore.isIgnored [item] text = true ∧
            Ignore.isIgnored [item] (root.relativeText other) = true) := by
  intro text
  refine ⟨fun hback htrim cwd => ?_, fun other hother hne => ?_⟩
  · have hkept : Path.slashes text.toList = text.toList := by
      refine (List.map_congr_left fun c hc => if_neg ?_).trans (List.map_id _)
      rintro rfl
      exact hback hc
    have hread : root.join (Path.ofProjectText text) = target := by
      rw [Path.ofProjectText, htrim, hkept, String.ofList_toList]
      exact Path.join_ofString_relativeText root h
    rw [locate, Path.resolveRelative, hread, h.holdsNul, h.resolve_eq]
    rfl
  · have htexts : root.relativeText other ≠ text :=
      fun heq => hne (Path.relativeText_injOn hother h heq)
    refine ⟨htexts, fun item hpath hbracket hboth => htexts ?_⟩
    exact eq_of_isIgnored_path hpath hbracket hboth.2 hboth.1

/-- A file of a directory whose name begins like the one of the directory at hand. Its text is an
absolute one. -/
theorem locate_relativeText_beside :
    (Path.ofString "/s/p2/A b.cs").IsNormal ∧ (Path.ofString "/s/p/A b.cs").IsNormal ∧
      locate [] (.ofString "/s/p") "/s/p2/A b.cs" = .ok (.ofPlace ["s", "p2", "A b.cs"]) ∧
      (Path.ofString "/s/p").relativeText (.ofString "/s/p/A b.cs") ≠ "/s/p2/A b.cs" := by
  have hnormal : (Path.ofString "/s/p2/A b.cs").IsNormal := by decide
  have hother : (Path.ofString "/s/p/A b.cs").IsNormal := by decide
  have htext : (Path.ofString "/s/p").relativeText (.ofString "/s/p2/A b.cs") = "/s/p2/A b.cs" := by
    decide
  obtain ⟨hback, hapart⟩ := locate_relativeText (.ofString "/s/p") hnormal
  rw [htext] at hback hapart
  exact ⟨hnormal, hother, hback (by decide) (by decide) [], (hapart _ hother (by decide)).1⟩

/-! ## The files of a project -/

/-- The place of a node has a normal path. -/
theorem isNormal_ofPlace (h : (w.tree.find? q).isSome = true) : (Path.ofPlace q).IsNormal := by
  have hnames {n : String} (hn : n ∈ q) := FileTree.isName_iff.1 (FileTree.isName_of_mem h n hn)
  refine ⟨rfl, fun n hn => ?_, fun hup => (hnames hup).2.2.1 rfl,
    FileTree.holdsNul_of_isSome h .root⟩
  exact ⟨(hnames hn).1, (hnames hn).2.1, (hnames hn).2.2.2.1⟩

/-- The path of a file is normal once it is resolved. -/
theorem isNormal_resolve_of_isFile (h : w.isFile f = .ok true) : (w.resolve f).IsNormal :=
  isNormal_ofPlace (FileTree.isSome_of_isFile (Workspace.isFile_placeOf h))

/-- What a search finds is normal, since each path found is resolved. -/
theorem isNormal_of_globSources (h : globSources w base pattern = .ok files) (hf : f ∈ files) :
    f.IsNormal := by
  obtain ⟨found, hfound, hfiles⟩ := bind_eq_ok_iff.1 h
  obtain rfl := Except.ok.inj hfiles
  obtain ⟨p, hp, rfl⟩ := List.mem_map.1 (List.mem_mergeSort.1 hf)
  obtain ⟨-, -, -, hfile⟩ := Workspace.reaches_of_mem_glob hfound (List.mem_filter.1 hp).1
  exact isNormal_resolve_of_isFile hfile

theorem isNormal_of_expand (hbase : base.IsNormal) (h : expand w base item = .ok files)
    (hf : f ∈ files) :
    f.IsNormal := by
  rw [expand] at h
  split at h
  · exact isNormal_of_globSources h hf
  · obtain ⟨p, hp, rfl⟩ := map_eq_ok_iff.1 h
    rw [List.mem_singleton.1 hf]
    exact isNormal_of_locate hbase.plain hbase.isAbsolute hp

/-- **Whatever a project file selects is a normal path, and selected once,** however its items spell
it. The three ways to select a file are a search, a glob and a plain name, and each resolves what it
finds. -/
theorem isNormal_of_selected (hbase : base.IsNormal) (h : selected w base es = .ok files) :
    files.Nodup ∧ ∀ f ∈ files, f.IsNormal := by
  rw [selected_eq] at h
  obtain ⟨first, hfirst, h⟩ := bind_eq_ok_iff.1 h
  obtain ⟨more, hmore, h⟩ := bind_eq_ok_iff.1 h
  obtain rfl := Except.ok.inj h
  refine ⟨(Distinct.nodup_eraseDups _).filter _, fun f hf => ?_⟩
  rcases List.mem_append.1 (List.mem_eraseDups.1 (List.mem_filter.1 hf).1) with hf | hf
  · split at hfirst
    · exact isNormal_of_globSources hfirst hf
    · obtain rfl := Except.ok.inj hfirst
      exact absurd hf List.not_mem_nil
  · obtain ⟨founds, hfounds, hf⟩ := List.mem_flatten.1 hf
    obtain ⟨item, -, hitem⟩ := exists_of_mem_mapM hmore hfounds
    exact isNormal_of_expand hbase hitem hf

/-! ## The entries of a project -/

/-- The entries of a project are normal paths, each once, and the regular ones are those with the
extension of regular source files, capitals and small letters alike. -/
structure WellFormed (p : Project) : Prop where
  distinct : (p.entries.map (·.filePath)).Nodup
  normal : ∀ e ∈ p.entries, (Path.ofString e.filePath).IsNormal ∧
    (Path.ofString e.filePath).toString = e.filePath
  regular : ∀ e ∈ p.entries, e.isRegular = true ↔
    Path.lowerAscii (Path.ofString e.filePath).suffix = ".cs"

/-- The path of an entry is read back from its text. -/
theorem ofString_filePath_entry (hf : f.IsNormal) : Path.ofString (entry f).filePath = f :=
  Path.ofString_toString hf.plain

/-- **Distinct normal files make a well-formed project.** Ignoring a file drops its entry and
changes none of the others. -/
theorem wellFormed_of_files {name : String} (hdistinct : files.Nodup)
    (hnormal : ∀ f ∈ files, f.IsNormal) :
    WellFormed ⟨name, path, entriesOf base ignore files⟩ := by
  have hkept {f : Path} (hf : f ∈ files.filter fun p => !isLeftOut base ignore p) : f.IsNormal :=
    hnormal f (List.mem_filter.1 hf).1
  refine ⟨?_, fun e he => ?_, fun e he => ?_⟩
  · have htexts : ∀ f ∈ files.filter (fun p => !isLeftOut base ignore p),
        ∀ f' ∈ files.filter (fun p => !isLeftOut base ignore p),
          f.toString = f'.toString → f = f' :=
      fun f hf f' hf' heq => Path.toString_injOn (hkept hf).plain (hkept hf').plain heq
    rw [entriesOf, List.map_map]
    exact (hdistinct.filter _).map_on htexts
  · obtain ⟨f, hf, rfl⟩ := List.mem_map.1 he
    rw [ofString_filePath_entry (hkept hf)]
    exact ⟨hkept hf, rfl⟩
  · obtain ⟨f, hf, rfl⟩ := List.mem_map.1 he
    rw [ofString_filePath_entry (hkept hf), entry, Path.hasSuffix, beq_iff_eq]
    rfl

/-- **Further patterns leave out the entries that they match.** This is where normal paths are
needed: the text of an entry leads back to its file. -/
theorem entriesOf_append (base : Path) (g₁ g₂ : List String) (hnormal : ∀ f ∈ files, f.IsNormal) :
    entriesOf base (g₁ ++ g₂) files = (entriesOf base g₁ files).filter fun e =>
      !Ignore.isIgnored g₂ (base.relativeText (.ofString e.filePath)) := by
  rw [entriesOf, entriesOf, List.filter_map, List.filter_filter]
  refine congrArg (List.map entry) (List.filter_congr fun f hf => ?_)
  rw [Function.comp_apply, ofString_filePath_entry (hnormal f hf), isLeftOut, isLeftOut,
    Ignore.isIgnored_append, Bool.not_or, Bool.and_comm]

/-- Only the patterns themselves matter, not their order nor how often they are given. -/
theorem entriesOf_congr {g g' : List String} (h : ∀ pattern, pattern ∈ g' ↔ pattern ∈ g)
    (base : Path) (files : List Path) : entriesOf base g' files = entriesOf base g files := by
  have hsame (f : Path) : isLeftOut base g' f = isLeftOut base g f := by
    rw [isLeftOut, isLeftOut, Bool.eq_iff_iff, isIgnored_eq_true_iff, isIgnored_eq_true_iff]
    simp only [h]
  simp only [entriesOf, hsame]

/-! ## Loading with patterns -/

/-- A project that is loaded with some patterns is loaded with any others from the same files. -/
theorem exists_files_of_load (h : (load w ignore name? path).outcome = .ok project) :
    ∃ files : List Path, files.Nodup ∧ (∀ f ∈ files, f.IsNormal) ∧
      ∀ g, (load w g name? path).outcome =
      .ok ⟨nameOf name? (w.resolve path), w.resolve path,
        entriesOf (w.resolve path).parent g files⟩ := by
  rw [outcome_load] at h
  obtain ⟨there, hthere, h⟩ := bind_eq_ok_iff.1 h
  cases there with
  | false => cases h
  | true =>
    obtain ⟨es, hes, h⟩ := bind_eq_ok_iff.1 h
    obtain ⟨files, hfiles, -⟩ := bind_eq_ok_iff.1 h
    obtain ⟨hdistinct, hnormal⟩ :=
      isNormal_of_selected (isNormal_resolve_of_isFile hthere).parent hfiles
    refine ⟨files, hdistinct, hnormal, fun g => ?_⟩
    rw [Reads.outcome_load ⟨hthere, hes⟩, hfiles]
    rfl

/-- **Further patterns leave out just the entries that they match from the directory of the
project,** and the others stay in their order. So neither the order of the patterns nor how often
they are given makes a difference. The entries are normal paths, each once, however the project file
spells them. -/
theorem load_append (hload : (load w ignore name? path).outcome = .ok project)
    (g₁ g₂ : List String) :
    ∃ first : Project, (load w g₁ name? path).outcome = .ok first ∧ first.WellFormed ∧
      (load w (g₁ ++ g₂) name? path).outcome =
        .ok { first with entries := first.entries.filter fun e =>
          !Ignore.isIgnored g₂ (first.path.parent.relativeText (.ofString e.filePath)) } ∧
      ∀ g, (∀ pattern, pattern ∈ g ↔ pattern ∈ g₁) → (load w g name? path).outcome = .ok first := by
  obtain ⟨files, hdistinct, hnormal, hloads⟩ := exists_files_of_load hload
  refine ⟨_, hloads g₁, wellFormed_of_files hdistinct hnormal, ?_, fun g hg => ?_⟩
  · rw [hloads, entriesOf_append _ g₁ g₂ hnormal]
  · rw [hloads, entriesOf_congr hg]

/-- A project that spells two files in several ways. -/
def spelledProject : Workspace where
  tree := [(["S"], .directory), (["S", "p"], .directory),
    (["S", "p", "P.csproj"], .file (Text.Utf8.encode
      ("<Project><Compile Include='*.cs;..\\p\\A.cs;/S/p/./A.cs'/>" ++
        "<Compile Include='../q/*.C?;/S/q/B.CS;..\\q//B.CS'/></Project>").toList)),
    (["S", "p", "A.cs"], .file []), (["S", "q"], .directory), (["S", "q", "B.CS"], .file [])].foldl
      (fun t e => t.put e.1 e.2) FileTree.empty
  current := []

/-- A project whose files are ignored by name and by path. `?` does not stand for `B.CS`, whose
extension differs in case only. -/
theorem load_append_spelled :
    (load spelledProject [] none (.ofString "S/p/P.csproj")).outcome =
        .ok ⟨"P", .ofPlace ["S", "p", "P.csproj"], [⟨"/S/p/A.cs", true⟩, ⟨"/S/q/B.CS", true⟩]⟩ ∧
      (load spelledProject ([] ++ ["A.*", "/S/q/?.cs"]) none (.ofString "S/p/P.csproj")).outcome =
        .ok ⟨"P", .ofPlace ["S", "p", "P.csproj"], [⟨"/S/q/B.CS", true⟩]⟩ := by
  have hload : (load spelledProject [] none (.ofString "S/p/P.csproj")).outcome =
      .ok ⟨"P", .ofPlace ["S", "p", "P.csproj"], [⟨"/S/p/A.cs", true⟩, ⟨"/S/q/B.CS", true⟩]⟩ := by
    decide +kernel
  obtain ⟨first, hfirst, -, happend, -⟩ := load_append hload [] ["A.*", "/S/q/?.cs"]
  obtain rfl := Except.ok.inj (hload.symm.trans hfirst)
  have hkept : [(⟨"/S/p/A.cs", true⟩ : Entry), ⟨"/S/q/B.CS", true⟩].filter (fun e =>
      !Ignore.isIgnored ["A.*", "/S/q/?.cs"]
        ((Path.ofPlace ["S", "p"]).relativeText (.ofString e.filePath))) =
        [⟨"/S/q/B.CS", true⟩] := by
    decide +kernel
  refine ⟨hload, happend.trans ?_⟩
  exact congrArg (fun entries =>
    (Except.ok ⟨"P", .ofPlace ["S", "p", "P.csproj"], entries⟩ : Except Failure Project)) hkept

end MemberHarvest.Project
