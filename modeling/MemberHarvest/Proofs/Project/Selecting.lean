import MemberHarvest.Proofs.Project.Discovery
import MemberHarvest.Proofs.Workspace.Range
import MemberHarvest.Proofs.Xml.Characters

/-!
# Proofs/Project/Selecting — the files that a project file selects

A project file selects the source files below its directory, if it names a kit, and then what each
item of its elements stands for (`Expands`), in the order of the document. Every file counts where
it comes up first, and what some element removes is left out at the end, wherever it came from
(`selected_of_elements`). Only a search that looks at a path which is too long comes to nothing.
-/

namespace MemberHarvest.Project

open Outcome
open MemberHarvest.Path (Place)

variable {w : Workspace} {base path : Path} {place q : Place} {es es' : List Xml.Element}
  {item pattern : String} {g : Glob}

/-! ## Project files -/

/-- A path names a project file, whose place has a path that reads as a document with these
elements. -/
structure Reads (w : Workspace) (path : Path) (es : List Xml.Element) : Prop where
  isFile : w.isFile path = .ok true
  elements : readElements w (w.resolve path) = .ok es

/-- The place of the directory that a project file lies in. -/
def directoryOf (w : Workspace) (path : Path) : Place := (path.placeOf w.current).dropLast

/-- The directory of a resolved path is where the path leads. -/
theorem parent_resolve (w : Workspace) (path : Path) :
    (w.resolve path).parent = .ofPlace (directoryOf w path) := rfl

/-- A project file that can be read stands in its directory. -/
theorem Reads.exists_place (h : Reads w path es) :
    ∃ n bytes, path.placeOf w.current = directoryOf w path ++ [n] ∧
    w.tree.find? (path.placeOf w.current) = some (.file bytes) := by
  obtain ⟨bytes, hbytes⟩ := Workspace.isFile_eq_ok_true_iff.1 h.isFile
  obtain ⟨-, place, hplace, hnode⟩ := Workspace.readBytes_eq_ok_iff.1 hbytes
  obtain rfl : place = path.placeOf w.current := FileTree.locate_eq_placeOf hplace
  have hne : path.placeOf w.current ≠ [] := by
    intro hnil
    rw [hnil] at hnode
    cases hnode
  exact ⟨_, bytes, (List.dropLast_append_getLast hne).symm, hnode⟩

/-- Searches start in the directory of the project file. -/
theorem Reads.startsAt (h : Reads w path es) :
    w.StartsAt (.ofPlace (directoryOf w path)) (directoryOf w path) := by
  obtain ⟨n, bytes, -, hnode⟩ := h.exists_place
  have hsome : (w.tree.find? (path.placeOf w.current)).isSome = true := by rw [hnode]; rfl
  exact Workspace.startsAt_ofPlace (FileTree.isDirectory_dropLast hsome)

/-- **The directory of a project file can be looked at,** as its path is shorter. This is what lets
a search start there. -/
theorem Reads.isDirectory (h : Reads w path es) :
    w.isDirectory (.ofPlace (directoryOf w path)) = .ok true := by
  obtain ⟨bytes, hbytes, -⟩ := bind_eq_ok_iff.1 h.elements
  obtain ⟨-, _, hlocate, -⟩ := Workspace.readBytes_eq_ok_iff.1 (mapError_eq_ok_iff.1 hbytes)
  obtain ⟨n, -, hplace, -⟩ := h.exists_place
  have hchild : w.resolve path = (Path.ofPlace (directoryOf w path)).child n :=
    congrArg Path.ofPlace hplace
  have hshort : ¬ (Path.ofPlace (directoryOf w path)).IsLong := by
    intro hlong
    rw [hchild, Workspace.locate_of_isLong (Workspace.isLong_of_child hlong)] at hlocate
    cases hlocate
  exact h.startsAt.isDirectory_eq_ok hshort

/-! ## Items -/

/-- The items of an attribute have its characters only. -/
theorem mem_of_mem_splitItems {value? : Option String} (h : item ∈ splitItems value?) :
    ∃ s, value? = some s ∧ ∀ c ∈ item.toList, c ∈ s.toList := by
  cases value? with
  | none => exact absurd h List.not_mem_nil
  | some s =>
    refine ⟨s, rfl, fun c hc => ?_⟩
    obtain ⟨piece, hpiece, rfl⟩ := List.mem_map.1 h
    obtain ⟨raw, hraw, rfl⟩ := List.mem_map.1 (List.mem_filter.1 hpiece).1
    rw [String.toList_ofList] at hc
    exact Text.mem_of_mem_splitOnP hraw (Text.mem_of_mem_trim hc)

/-- **No item of a document holds NUL.** It is no legal character of a document, not even by a
reference. -/
theorem Reads.not_mem_of_mem_included (h : Reads w path es) (hitem : item ∈ included es) :
    '\x00' ∉ item.toList := by
  obtain ⟨bytes, -, hes⟩ := bind_eq_ok_iff.1 h.elements
  obtain ⟨e, he, hitem⟩ := List.mem_flatMap.1 hitem
  obtain ⟨s, hs, hmem⟩ := mem_of_mem_splitItems hitem
  obtain ⟨front, back, hattributes, -⟩ := List.lookup_eq_some_iff.1 hs
  have hlegal :=
    Xml.hasLegalValues_of_elements (mapError_eq_ok_iff.1 hes) e (List.mem_filter.1 he).1
  intro hnul
  have hchar := hlegal (⟨none, "Include"⟩, s) (by rw [hattributes]; simp) '\x00' (hmem _ hnul)
  exact absurd hchar (by decide)

/-- The search of a glob finds a source file at a place, outside output directories. -/
def IsFound (w : Workspace) (base : Path) (g : Glob) (q : Place) : Prop :=
  ∃ f, w.Reaches g.directoriesOnly g.steps base f ∧ w.isFile f = .ok true ∧ isSource f = true ∧
    isBuildOutput base f = false ∧ f.placeOf w.current = q

/-- What an item stands for: the place of a path, or the places that a glob finds, in order. -/
inductive Expands (w : Workspace) (base : Path) : String → List Place → Prop
  | path {item : String} (isPath : isGlob item = false) :
    Expands w base item [(base.join (Path.ofProjectText item)).placeOf w.current]
  | glob {item : String} {g : Glob} {qs : List Place} (isGlob : isGlob item = true)
    (legal : Glob.ofString (globOf item) = .ok g) (lists : Path.Lists (IsFound w base g) qs) :
    Expands w base item qs

/-- Places are told apart by their absolute paths. -/
theorem ofPlace_injective : Function.Injective Path.ofPlace := fun _ _ h => (Path.mk.inj h).2

/-- Files are the places of a list, some of them perhaps repeated. -/
def Keeps (files : List Path) (qs : List Place) : Prop :=
  files.eraseDups = (qs.map Path.ofPlace).eraseDups

/-- Paths and places correspond also when lists are appended. -/
theorem Keeps.append {files files' : List Path} {qs qs' : List Place} (h : Keeps files qs)
    (h' : Keeps files' qs') :
    Keeps (files ++ files') (qs ++ qs') := by
  rw [Keeps, List.map_append]
  exact Distinct.eraseDups_append_congr h h'

/-- Leaving out repeated paths is leaving out repeated places. -/
theorem Keeps.eraseDups_eq {files : List Path} {qs : List Place} (h : Keeps files qs) :
    files.eraseDups = qs.eraseDups.map Path.ofPlace :=
  h.trans (Distinct.eraseDups_map ofPlace_injective qs)

/-- **A glob finds its files in order,** some of them perhaps by several paths. A search with steps
back may come upon a file twice, and then its path counts once. -/
theorem exists_globSources (hbase : w.isDirectory base = .ok true)
    (hg : Glob.ofString pattern = .ok g)
    (hreach : ∀ f, w.Examines base pattern f → ¬ w.IsRefused f) :
    ∃ qs files, Path.Lists (IsFound w base g) qs ∧ globSources w base pattern = .ok files ∧
      Keeps files qs := by
  obtain ⟨found, hfound⟩ := (Workspace.exists_glob_eq_ok_iff hbase hg).2 hreach
  obtain ⟨hmem, -⟩ := Workspace.mem_and_nodup_of_glob hbase hg hfound
  let sources :=
    (found.filter fun p => isSource p && !isBuildOutput base p).map (Path.placeOf w.current)
  have hsort : globSources w base pattern = .ok ((Path.sortPlaces sources).map Path.ofPlace) := by
    rw [globSources, hfound, ← Path.sort_map_ofPlace, List.map_map]
    rfl
  have hdistinct := Distinct.nodup_eraseDups (Path.sortPlaces sources)
  refine ⟨(Path.sortPlaces sources).eraseDups, _, ⟨?_, fun q => ?_⟩, hsort, ?_⟩
  · have hsorted := (Path.pairwise_sortPlaces sources).sublist (Distinct.eraseDups_sublist _)
    exact hsorted.imp₂ (fun p q hle hne => lt_of_le_of_ne (not_lt.1 hle) hne) hdistinct
  · rw [List.mem_eraseDups, (Path.sortPlaces_perm sources).mem_iff, List.mem_map]
    simp only [List.mem_filter, hmem, Bool.and_eq_true, Bool.not_eq_true', and_assoc, IsFound]
  · rw [Keeps, Distinct.eraseDups_map ofPlace_injective, Distinct.eraseDups_map ofPlace_injective,
      Distinct.eraseDups_of_nodup hdistinct]

/-- Where the files of a glob are found, no path that its search looks at is refused. -/
theorem not_isRefused_of_globSources (hbase : w.isDirectory base = .ok true)
    (hg : Glob.ofString pattern = .ok g) {files : List Path}
    (hfiles : globSources w base pattern = .ok files) {f : Path}
    (hf : w.Examines base pattern f) : ¬ w.IsRefused f := by
  obtain ⟨found, hfound, -⟩ := bind_eq_ok_iff.1 hfiles
  exact (Workspace.exists_glob_eq_ok_iff hbase hg).1 ⟨found, hfound⟩ f hf

/-- **A search fails at a path that it must examine and that is refused.** -/
theorem globSources_failsAs_examines (hbase : w.isDirectory base = .ok true)
    (hg : Glob.ofString pattern = .ok g) :
    FailsAs (fun e => ∃ f, w.Examines base pattern f ∧ w.IsRefused f ∧ e = Workspace.tooLong f)
      (globSources w base pattern) :=
  .bind (Workspace.glob_failsAs_examines hbase hg) fun _ _ => .ok _

/-- **An item that can be searched for is expanded as it stands.** An item without wildcards is
located, and its file need not be there. -/
theorem exists_expand (hbase : w.isDirectory base = .ok true) (hnul : '\x00' ∉ item.toList)
    (hlegal : isGlob item = true → ∃ g, Glob.ofString (globOf item) = .ok g)
    (hreach : isGlob item = true → ∀ f, w.Examines base (globOf item) f → ¬ w.IsRefused f) :
    ∃ qs files, Expands w base item qs ∧ expand w base item = .ok files ∧ Keeps files qs := by
  rw [expand]
  split
  · rename_i hglob
    obtain ⟨g, hg⟩ := hlegal hglob
    obtain ⟨qs, files, hqs, hfiles, hkeeps⟩ := exists_globSources hbase hg (hreach hglob)
    exact ⟨qs, files, .glob hglob hg hqs, hfiles, hkeeps⟩
  · rename_i hpath
    refine ⟨_, [base.resolveRelative w.current item], .path (Bool.not_eq_true _ ▸ hpath), ?_, rfl⟩
    rw [locate_eq (Workspace.startsAt_of_isDirectory hbase).holdsNul, if_neg hnul]
    rfl

/-- Items are expanded one after another. -/
theorem exists_mapM_expand {items : List String}
    (h : ∀ item ∈ items, ∃ qs files, Expands w base item qs ∧
      expand w base item = .ok files ∧ Keeps files qs) :
    ∃ more founds, List.Forall₂ (Expands w base) items more ∧
      items.mapM (expand w base) = .ok founds ∧ Keeps founds.flatten more.flatten := by
  induction items with
  | nil => exact ⟨[], [], .nil, rfl, rfl⟩
  | cons item items ih =>
    obtain ⟨⟨qs, files, hqs, hfiles, hkeeps⟩, hrest⟩ := List.forall_mem_cons.1 h
    obtain ⟨more, founds, hmore, hfounds, hkeeps'⟩ := ih hrest
    refine ⟨qs :: more, files :: founds, .cons hqs hmore, ?_, hkeeps.append hkeeps'⟩
    exact mapM_eq_ok_iff.2 (.cons hfiles (mapM_eq_ok_iff.1 hfounds))

/-! ## Elements -/

/-- The source files that a project selects to begin with: those below its directory, if it names a
kit. -/
def IsGiven (w : Workspace) (place : Place) (es : List Xml.Element) (q : Place) : Prop :=
  es.any namesKit = true ∧ LiesBelow w place q ∧ isSource (.ofPlace q) = true

/-- A search for the files of a project looks at a path. -/
def Searches (w : Workspace) (base : Path) (es : List Xml.Element) (f : Path) : Prop :=
  es.any namesKit = true ∧ w.Examines base everything f ∨
    ∃ item ∈ included es, isGlob item = true ∧ w.Examines base (globOf item) f

/-- Each place where it comes up first, without those that some element removes. -/
def kept (base : Path) (es : List Xml.Element) (qs : List Place) : List Place :=
  qs.eraseDups.filter fun q => !Ignore.isIgnored (removed es) (base.relativeText (.ofPlace q))

/-- The files that are given come first, and then those that are included. -/
theorem selected_eq (w : Workspace) (base : Path) (es : List Xml.Element) : selected w base es =
    (if es.any namesKit then globSources w base everything else pure []) >>= fun first =>
      (included es).mapM (expand w base) >>= fun more =>
        .ok ((first ++ more.flatten).eraseDups.filter fun p =>
          !Ignore.isIgnored (removed es) (base.relativeText p)) := by
  rw [selected]
  split <;> rfl

/-- The default files are given where the search for them comes to an end. -/
theorem exists_given (h : Reads w path es)
    (hreach : es.any namesKit = true →
      ∀ f, w.Examines (.ofPlace (directoryOf w path)) everything f → ¬ w.IsRefused f) :
    ∃ first, Path.Lists (IsGiven w (directoryOf w path) es) first ∧
      (if es.any namesKit then globSources w (.ofPlace (directoryOf w path)) everything
        else pure []) = .ok (first.map Path.ofPlace) := by
  obtain ⟨first, hfirst⟩ : ∃ first, Path.Lists (IsGiven w (directoryOf w path) es) first :=
    exists_lists fun q hq => hq.2.1.isFile
  refine ⟨first, hfirst, ?_⟩
  split
  · rename_i hkit
    have hglob :=
      (Workspace.exists_glob_eq_ok_iff h.isDirectory ofString_everything).2 (hreach hkit)
    have hinReach : InReach w (.ofPlace (directoryOf w path)) fun _ => True := by
      by_contra hnot
      obtain ⟨e, -, herror⟩ :=
        glob_of_not_inReach h.startsAt ofString_everything
          (fun n => Pattern.fits_any_iff.trans (by simp)) hnot
      obtain ⟨found, hfound⟩ := hglob
      cases hfound.symm.trans herror
    refine globSources_of_inReach h.startsAt hinReach ⟨hfirst.sorted, fun q => ?_⟩
    rw [hfirst.mem, IsGiven, and_iff_right hkit]
  · rename_i hkit
    have hnil : first = [] := List.eq_nil_iff_forall_not_mem.2 fun q hq =>
      hkit ((hfirst.mem q).1 hq).1
    rw [hnil]
    rfl

variable (hlegal : ∀ item ∈ included es, isGlob item = true →
  ∃ g, Glob.ofString (globOf item) = .ok g)

include hlegal

/-- **What the elements select is what is given and included,** each file once, and not removed.
This is the case in which every search comes to its end. -/
theorem selected_of_searches (h : Reads w path es)
    (hreach : ∀ f, Searches w (.ofPlace (directoryOf w path)) es f → ¬ w.IsRefused f) :
    ∃ first more, Path.Lists (IsGiven w (directoryOf w path) es) first ∧
      List.Forall₂ (Expands w (.ofPlace (directoryOf w path))) (included es) more ∧
      selected w (.ofPlace (directoryOf w path)) es =
        .ok ((kept (.ofPlace (directoryOf w path)) es (first ++ more.flatten)).map
          Path.ofPlace) := by
  obtain ⟨first, hfirst, hgiven⟩ := exists_given h fun hkit f hf => hreach f (.inl ⟨hkit, hf⟩)
  obtain ⟨more, founds, hmore, hfounds, hkeeps⟩ := exists_mapM_expand fun item hitem =>
    exists_expand h.isDirectory (h.not_mem_of_mem_included hitem) (hlegal item hitem)
      fun hglob f hf => hreach f (.inr ⟨item, hitem, hglob, hf⟩)
  refine ⟨first, more, hfirst, hmore, ?_⟩
  have hall : Keeps (first.map Path.ofPlace ++ founds.flatten) (first ++ more.flatten) :=
    Keeps.append rfl hkeeps
  rw [selected_eq, hgiven, ok_bind, hfounds, ok_bind, hall.eraseDups_eq, List.filter_map, kept]
  rfl

/-- Where the sources are selected, nothing that had to be examined was refused. -/
theorem not_isRefused_of_selected (h : Reads w path es) {files : List Path}
    (hfiles : selected w (.ofPlace (directoryOf w path)) es = .ok files) {f : Path}
    (hf : Searches w (.ofPlace (directoryOf w path)) es f) : ¬ w.IsRefused f := by
  rw [selected_eq] at hfiles
  obtain ⟨first, hfirst, hfiles⟩ := bind_eq_ok_iff.1 hfiles
  obtain ⟨more, hmore, -⟩ := bind_eq_ok_iff.1 hfiles
  rcases hf with ⟨hkit, hf⟩ | ⟨item, hitem, hglob, hf⟩
  · rw [if_pos hkit] at hfirst
    exact not_isRefused_of_globSources h.isDirectory ofString_everything hfirst hf
  · obtain ⟨g, hg⟩ := hlegal item hitem hglob
    obtain ⟨files, hfiles⟩ := exists_mapM_eq_ok_iff.1 ⟨more, hmore⟩ item hitem
    rw [expand] at hfiles
    rw [isGlob] at hglob
    rw [if_pos hglob] at hfiles
    exact not_isRefused_of_globSources h.isDirectory hg hfiles hf

/-- **Selecting fails at a path that one of the items must examine and that is refused.** -/
theorem selected_failsAs_searches (h : Reads w path es) :
    FailsAs (fun e => ∃ f, Searches w (.ofPlace (directoryOf w path)) es f ∧ w.IsRefused f ∧
      e = Workspace.tooLong f) (selected w (.ofPlace (directoryOf w path)) es) := by
  rw [selected_eq]
  refine .bind ?_ fun _ _ => .bind (.mapM fun item hitem => ?_) fun _ _ => .ok _
  · split
    · rename_i hkit
      refine (globSources_failsAs_examines h.isDirectory ofString_everything).mono fun e => ?_
      exact Exists.imp fun f hf => ⟨.inl ⟨hkit, hf.1⟩, hf.2⟩
    · exact .ok _
  · rw [expand]
    split
    · rename_i hglob
      obtain ⟨g, hg⟩ := hlegal item hitem hglob
      refine (globSources_failsAs_examines h.isDirectory hg).mono fun e => ?_
      exact Exists.imp fun f hf => ⟨.inr ⟨item, hitem, hglob, hf.1⟩, hf.2⟩
    · rw [locate_eq h.startsAt.holdsNul, if_neg (h.not_mem_of_mem_included hitem)]
      exact .map (.ok _)

/-- **A search that looks at a path which is refused ends in a refusal.** This is the other case.
The refused path may belong to a search behind the one that fails first. -/
theorem exists_selected_eq_error (h : Reads w path es)
    (hrefused : ∃ f, Searches w (.ofPlace (directoryOf w path)) es f ∧ w.IsRefused f) :
    ∃ f, Searches w (.ofPlace (directoryOf w path)) es f ∧ w.IsRefused f ∧
      selected w (.ofPlace (directoryOf w path)) es = .error (Workspace.tooLong f) := by
  obtain ⟨f, hf, hlong⟩ := hrefused
  obtain ⟨e, ⟨f, hf, hlong, rfl⟩, herror⟩ := (selected_failsAs_searches hlegal h).exists_eq_error
    fun ⟨files, hfiles⟩ => not_isRefused_of_selected hlegal h hfiles hf hlong
  exact ⟨f, hf, hlong, herror⟩

omit hlegal

/-! ## Elements that come to the same -/

/-- A text is ignored if one of the patterns alone ignores it. -/
theorem isIgnored_eq_true_iff {patterns : List String} {text : String} :
    Ignore.isIgnored patterns text = true ↔
      ∃ pattern ∈ patterns, Ignore.isIgnored [pattern] text = true := by
  simp [Ignore.isIgnored]

/-- **It makes no difference which elements remove something,** nor in which order. Neither the
element that removes nor its place in the document is looked at. -/
theorem selected_congr (hkit : es'.any namesKit = es.any namesKit)
    (hincluded : included es' = included es) (hremoved : ∀ item, item ∈ removed es' ↔
    item ∈ removed es) (w : Workspace) (base : Path) :
    selected w base es' = selected w base es := by
  have hignored (text : String) :
      Ignore.isIgnored (removed es') text = Ignore.isIgnored (removed es) text := by
    rw [Bool.eq_iff_iff, isIgnored_eq_true_iff, isIgnored_eq_true_iff]
    simp only [hremoved]
  simp only [selected_eq, hkit, hincluded, hignored]

/-- Elements differ in nothing but the namespaces of their names. -/
def SameButSpaces (e e' : Xml.Element) : Prop :=
  e'.name.base = e.name.base ∧ e'.attributes = e.attributes

/-- Elements that differ in nothing but namespaces have the same attributes. -/
theorem SameButSpaces.attribute?_eq {e e' : Xml.Element} (h : SameButSpaces e e') (name : String) :
    e'.attribute? name = e.attribute? name := by
  rw [Xml.Element.attribute?, h.2, Xml.Element.attribute?]

theorem items_of_sameButSpaces (h : List.Forall₂ SameButSpaces es es') (name : String) :
    ((compileElements es').flatMap fun e => splitItems (e.attribute? name)) =
      (compileElements es).flatMap fun e => splitItems (e.attribute? name) := by
  induction h with
  | nil => rfl
  | @cons e e' es es' he _ ih =>
    rw [compileElements, compileElements, List.filter_cons, List.filter_cons, he.1]
    split
    · rw [List.flatMap_cons, List.flatMap_cons, he.attribute?_eq]
      exact congrArg _ ih
    · exact ih

/-- **It makes no difference which namespaces the elements are in.** Elements are told by the base
of their name. -/
theorem selected_of_sameButSpaces (h : List.Forall₂ SameButSpaces es es')
    (w : Workspace) (base : Path) :
    selected w base es' = selected w base es := by
  have hkit : es'.any namesKit = es.any namesKit := by
    induction h with
    | nil => rfl
    | @cons e e' es es' he _ ih =>
      rw [List.any_cons, List.any_cons, ih, namesKit, namesKit, he.1, he.attribute?_eq]
  refine selected_congr hkit (items_of_sameButSpaces h "Include") (fun item => ?_) w base
  rw [removed, items_of_sameButSpaces h "Remove", removed]

/-! ## Project files and what they select -/

/-- **A project file selects what is given and included and not removed.** The files that are given,
if it names a kit, come first, and then those of each item, in the order of the document. Each file
counts once, where it comes up first, and only if no item that the document removes anywhere matches
it. A search that looks at a path which is refused ends in its refusal. It makes no difference which
elements remove something, nor which namespaces the elements are in. -/
theorem selected_of_elements (h : Reads w path es)
    (hlegal : ∀ item ∈ included es, isGlob item = true → ∃ g, Glob.ofString (globOf item) = .ok g) :
    let base := (w.resolve path).parent
    ((∀ f, Searches w base es f → ¬ w.IsRefused f) →
      ∃ first more, Path.Lists (IsGiven w (directoryOf w path) es) first ∧
        List.Forall₂ (Expands w base) (included es) more ∧
          (kept base es (first ++ more.flatten)).Nodup ∧
        selected w base es = .ok ((kept base es (first ++ more.flatten)).map Path.ofPlace)) ∧
    ((∃ f, Searches w base es f ∧ w.IsRefused f) →
      ∃ f, Searches w base es f ∧ w.IsRefused f ∧
        selected w base es = .error (Workspace.tooLong f)) ∧
    (∀ es', es'.any namesKit = es.any namesKit → included es' = included es →
      (∀ item, item ∈ removed es' ↔ item ∈ removed es) → selected w base es' = selected w base es) ∧
    ∀ es', List.Forall₂ SameButSpaces es es' → selected w base es' = selected w base es := by
  intro base
  refine ⟨fun hreach => ?_, exists_selected_eq_error hlegal h,
    fun es' hkit hincluded hremoved => ?_, fun es' hes' => ?_⟩
  · obtain ⟨first, more, hfirst, hmore, hselected⟩ := selected_of_searches hlegal h hreach
    exact ⟨first, more, hfirst, hmore, (Distinct.nodup_eraseDups _).filter _, hselected⟩
  · exact selected_congr hkit hincluded hremoved w base
  · exact selected_of_sameButSpaces hes' w base

/-! ## A project with a kit -/

/-- A project that includes files of another directory, a file that it has anyhow, and one that it
removes. -/
def sharedText : List Char :=
  ("<Project Sdk='S'><Compile Remove='O*'/>" ++
    "<c:Compile xmlns:c='c' Include='../Shared/*.cs;A.cs;Old.cs'/></Project>").toList

/-- That project and the files that it includes. -/
def sharedProject : Workspace where
  tree := [(["S"], .directory), (["S", "p"], .directory),
    (["S", "p", "P.csproj"], .file (Text.Utf8.encode sharedText)),
    (["S", "p", "A.cs"], .file []), (["S", "Shared"], .directory),
      (["S", "Shared", "C.cs"], .file [])].foldl (fun t e => t.put e.1 e.2) FileTree.empty
  current := []

/-- The elements of that project. -/
def sharedElements : List Xml.Element :=
  [⟨⟨none, "Project"⟩, [(⟨none, "Sdk"⟩, "S")]⟩, ⟨⟨none, "Compile"⟩, [(⟨none, "Remove"⟩, "O*")]⟩,
    ⟨⟨some "c", "Compile"⟩, [(⟨none, "Include"⟩, "../Shared/*.cs;A.cs;Old.cs")]⟩]

/-- A project with a wildcard, a file named twice and one that is removed. -/
theorem selected_of_elements_shared :
    Reads sharedProject (.ofString "S/p/P.csproj") sharedElements ∧
      (∀ item ∈ included sharedElements, isGlob item = true →
        ∃ g, Glob.ofString (globOf item) = .ok g) ∧
      ∃ first more, Path.Lists (IsGiven sharedProject ["S", "p"] sharedElements) first ∧
        List.Forall₂ (Expands sharedProject (.ofPlace ["S", "p"]))
          ["../Shared/*.cs", "A.cs", "Old.cs"] more ∧
        kept (.ofPlace ["S", "p"]) sharedElements (first ++ more.flatten) =
          [["S", "p", "A.cs"], ["S", "Shared", "C.cs"]] := by
  have hreads : Reads sharedProject (.ofString "S/p/P.csproj") sharedElements :=
    ⟨by decide, by decide +kernel⟩
  have hlegal : ∀ item ∈ included sharedElements, isGlob item = true →
      ∃ g, Glob.ofString (globOf item) = .ok g :=
    have hok : ∀ item ∈ included sharedElements, isGlob item = true →
        (Glob.ofString (globOf item)).isOk = true := by
      decide +kernel
    fun item hitem hglob => exists_of_isOk (hok item hitem hglob)
  have hfiles : selected sharedProject (.ofPlace ["S", "p"]) sharedElements =
      .ok ([["S", "p", "A.cs"], ["S", "Shared", "C.cs"]].map Path.ofPlace) := by
    decide +kernel
  obtain ⟨hselects, -⟩ := selected_of_elements hreads hlegal
  obtain ⟨first, more, hfirst, hmore, -, hselected⟩ :=
    hselects fun f hf => not_isRefused_of_selected hlegal hreads hfiles hf
  refine ⟨hreads, hlegal, first, more, hfirst, hmore, ?_⟩
  exact List.map_injective_iff.2 ofPlace_injective (Except.ok.inj (hselected.symm.trans hfiles))

/-! ## A project with a long item -/

/-- A name of 256 bytes, one more than a name may have. -/
def longName : List Char := List.replicate 64 '😀'

/-- The files of a directory with that name. -/
def longItem : List Char := longName ++ ['/', '*', '.', 'c', 's']

/-- A project that includes them. -/
def longProject : Workspace where
  tree := [(["S"], .directory),
    (["S", "A.csproj"], .file (Text.Utf8.encode ("<Project><Compile Include='".toList ++
    longItem ++ "'/></Project>".toList)))].foldl (fun t e => t.put e.1 e.2) FileTree.empty
  current := []

/-- The elements of that project. -/
def longElements : List Xml.Element :=
  [⟨⟨none, "Project"⟩, []⟩, ⟨⟨none, "Compile"⟩, [(⟨none, "Include"⟩, String.ofList longItem)]⟩]

theorem included_longElements : included longElements = [String.ofList longItem] := by
  have hpieces : Text.trimmedPieces ';' longItem = [longItem] := by decide +kernel
  have hitems : included longElements = splitItems (some (String.ofList longItem)) := by
    simp [included, compileElements, longElements, Xml.Element.attribute?]
  rw [hitems, splitItems, String.toList_ofList, hpieces]
  rfl

/-- The long item is read as a plain name and a wildcard behind it. -/
theorem ofString_longItem : Glob.ofString (globOf (String.ofList longItem)) =
    .ok ⟨[.plain (String.ofList longName), .wild (.ofString "*.cs")], false⟩ := by
  have hslashes : Path.slashes longItem = longItem := by decide +kernel
  have hnames : Path.namesOf longItem = [String.ofList longName, "*.cs"] := by decide +kernel
  have hname : Glob.isWild (String.ofList longName) = false := by
    rw [Glob.isWild, String.toList_ofList]
    decide +kernel
  rw [globOf, String.toList_ofList, hslashes]
  refine Glob.ofString_ofList_eq_ok_iff.2 ⟨by decide +kernel, rfl, ?_, by decide +kernel⟩
  rw [hnames]
  refine .cons (Glob.Step.ofName_eq_ok_iff.2 (.inr ⟨?_, by simp [hname]⟩)) (.cons rfl .nil)
  rw [String.toList_ofList]
  decide +kernel

theorem isRefused_longName : longProject.IsRefused (.ofPlace ["S", String.ofList longName]) := by
  have hnul : '\x00' ∉ longName := by decide +kernel
  have hlong : FileTree.isTooLong (String.ofList longName) = true := by
    rw [FileTree.isTooLong, String.toList_ofList]
    decide +kernel
  have hroot : longProject.tree.isDirectory [] = true := by decide
  have hfolder : longProject.tree.isDirectory ["S"] = true := by decide +kernel
  have hshort : FileTree.isTooLong "S" = false := by decide
  refine ⟨by simp [Path.holdsNul, Path.ofPlace, hnul], ?_⟩
  rw [Workspace.locate, FileTree.locate]
  split
  · rfl
  · have hnode := FileTree.isSome_of_isDirectory hfolder
    simp [Path.isAbsolute, Path.ofPlace, FileTree.walk, Path.step, hroot, hfolder,
      hshort, hlong, hnode]

/-- Where an item goes through a name that is too long, nothing is selected, though its glob is
one. -/
theorem selected_tooLong :
    ¬ ∀ (w : Workspace) (path : Path) (es : List Xml.Element), Reads w path es →
    (∀ item ∈ included es, isGlob item = true → ∃ g, Glob.ofString (globOf item) = .ok g) →
    ∃ first more, Path.Lists (IsGiven w (directoryOf w path) es) first ∧
      List.Forall₂ (Expands w (w.resolve path).parent) (included es) more ∧
      selected w (w.resolve path).parent es =
        .ok ((kept (w.resolve path).parent es (first ++ more.flatten)).map Path.ofPlace) := by
  intro hselects
  have hreads : Reads longProject (.ofString "S/A.csproj") longElements :=
    ⟨by decide +kernel, by decide +kernel⟩
  have hlegal : ∀ item ∈ included longElements, isGlob item = true →
      ∃ g, Glob.ofString (globOf item) = .ok g := by
    rw [included_longElements]
    exact List.forall_mem_singleton.2 fun _ => ⟨_, ofString_longItem⟩
  have hglob : isGlob (String.ofList longItem) = true := by
    rw [isGlob, String.toList_ofList]
    decide +kernel
  obtain ⟨first, more, -, -, hselected⟩ := hselects _ _ _ hreads hlegal
  -- the search asks for the name before it looks into the directory
  have hsearches : Searches longProject (.ofPlace ["S"]) longElements
      (.ofPlace ["S", String.ofList longName]) := by
    refine .inr ⟨_, included_longElements ▸ List.mem_singleton.2 rfl, hglob, _,
      ofString_longItem, .inl rfl⟩
  exact not_isRefused_of_selected hlegal hreads hselected hsearches isRefused_longName

end MemberHarvest.Project
