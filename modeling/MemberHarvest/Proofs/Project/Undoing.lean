import MemberHarvest.Proofs.Project.Loading
import MemberHarvest.Proofs.Project.Selecting
import MemberHarvest.Proofs.Workspace.Descent

/-!
# Proofs/Project/Undoing — items that are included and removed

An item is included as what it leads to, but it is removed as a pattern, which the text that a file
is shown by must match. So an item that is included and removed undoes itself only if it is spelled
as these texts are (`IsUndone`): a path as its place is shown, a glob without empty components, `.`
and `..`. In any other spelling it removes nothing that it includes
(`outcome_load_of_includesAndRemoves`).
-/

namespace MemberHarvest.Project

open Outcome
open MemberHarvest.Path (Place IsDirect components)

variable {w : Workspace} {base path : Path} {place q : Place} {es : List Xml.Element}
  {item s : String} {g : Glob}

/-! ## What an item removes -/

/-- Turning backslashes and cutting makes up no characters but the slash. -/
theorem mem_of_mem_components_slashes {c : Char} {piece : List Char} (hc : c ≠ '/')
    (hpiece : piece ∈ components (Path.slashes item.toList)) (hmem : c ∈ piece) :
    c ∈ item.toList := by
  by_contra hitem
  exact Ignore.not_mem_slashes hc hitem (Text.mem_of_mem_splitOnP hpiece hmem)

/-- An item without wildcards removes what is shown by its text. -/
theorem isIgnored_path_iff {text : String} (hpath : isGlob item = false)
    (hbracket : '[' ∉ item.toList) (hitem : item ≠ "") :
    Ignore.isIgnored [item] text = true ↔ Path.slashes item.toList = text.toList := by
  rw [isGlob, List.any_eq_false] at hpath
  have hstar : '*' ∉ item.toList := fun hmem => hpath _ hmem rfl
  have hone : '?' ∉ item.toList := fun hmem => hpath _ hmem rfl
  have hplain : ∀ c ∈ Path.slashes item.toList, c ≠ '*' ∧ c ≠ '?' := by
    refine fun c hc => ⟨?_, ?_⟩ <;> rintro rfl
    · exact Ignore.not_mem_slashes (by decide) hstar hc
    · exact Ignore.not_mem_slashes (by decide) hone hc
  have hwhole : Wildcard.IsWhole (Path.slashes item.toList) := by
    refine fun piece hpiece => .inr fun hstars => hstar ?_
    exact mem_of_mem_components_slashes (by decide) hpiece (hstars.subset (by simp))
  rw [Ignore.isIgnored_singleton_iff hbracket hwhole.isAligned, and_iff_right hitem,
    Wildcard.admits_iff_of_forall hplain]

theorem ne_empty_of_isGlob (hglob : isGlob item = true) : item ≠ "" := by
  rintro rfl
  exact absurd hglob (by decide)

/-- What is found has names that a file can have. -/
theorem IsFound.isName (hq : IsFound w base g q) : ∀ n ∈ q, FileTree.isName n = true := by
  obtain ⟨f, -, hfile, -, -, rfl⟩ := hq
  exact FileTree.isName_of_mem (FileTree.isSome_of_isFile (Workspace.isFile_placeOf hfile))

/-- No file is shown by a text with a component `..`. -/
theorem IsFound.not_mem_components_relativeText (hq : IsFound w base g q) :
    ['.', '.'] ∉ components ((Path.ofPlace place).relativeText (.ofPlace q)).toList := by
  intro hup
  have hnames {n : String} (hn : n ∈ q) := FileTree.isName_iff.1 (hq.isName n hn)
  have hplain : (Path.ofPlace q).IsPlain :=
    fun n hn => ⟨(hnames hn).1, (hnames hn).2.1, (hnames hn).2.2.2.1⟩
  have hmem := Path.mem_of_mem_namesOf_relativeText hplain
    (Path.ofList_mem_namesOf_iff.2 ⟨hup, by decide, by decide⟩)
  exact (hnames hmem).2.2.1 rfl

section

variable (hstart : w.StartsAt (.ofPlace place) place) (hbracket : '[' ∉ item.toList)
  (hg : Glob.ofString (globOf item) = .ok g) (hq : IsFound w (.ofPlace place) g q)

include hstart hbracket hg hq

/-- **Where nothing leads up, a file is shown by names that those of the glob stand for.** A way up
would take the search out of the directory, and the file's text could then be an absolute one. -/
theorem exists_relativeText_eq (hup : ['.', '.'] ∉ components (Path.slashes item.toList)) :
    ∃ ns, ns ≠ [] ∧ (∀ n ∈ ns, FileTree.isName n = true) ∧
      (Path.ofPlace place).relativeText (.ofPlace q) = "/".intercalate ns ∧
      Wildcard.admits ("/".intercalate (Path.namesOf (Path.slashes item.toList))).toList
        ("/".intercalate ns).toList = true := by
  have hnames := hq.isName
  obtain ⟨f, hf, hfile, -, -, rfl⟩ := hq
  obtain ⟨-, -, hsteps, -⟩ := Glob.ofString_ofList_eq_ok_iff.1 hg
  have hfree : ∀ name ∈ Path.namesOf (Path.slashes item.toList), '[' ∉ name.toList := by
    intro name hname hmem
    rw [← String.ofList_toList (s := name), Path.ofList_mem_namesOf_iff] at hname
    exact hbracket (mem_of_mem_components_slashes (by decide) hname.1 hmem)
  have hdown : ".." ∉ Path.namesOf (Path.slashes item.toList) := fun hname =>
    hup (Path.ofList_mem_namesOf_iff.1 hname).1
  obtain ⟨ns, hne, -, hplace, hadmits⟩ := hstart.exists_of_reaches hsteps hfree hdown hf hfile
  rw [hplace] at hnames ⊢
  exact ⟨ns, hne, fun n hn => hnames n (List.mem_append_right place hn),
    Path.relativeText_ofPlace_append place hne, hadmits⟩

/-- A glob that removes what it finds is spelled directly: its components without wildcards are
names of the file. -/
theorem isDirect_of_admits (hadmits : Wildcard.admits (Path.slashes item.toList)
    ((Path.ofPlace place).relativeText (.ofPlace q)).toList = true) :
      IsDirect (Path.slashes item.toList) := by
  have hthere {piece : List Char} (hpiece : piece ∈ components (Path.slashes item.toList))
      (hwild : ∀ c ∈ piece, c ≠ '*' ∧ c ≠ '?') :=
    Wildcard.mem_components_of_admits (Glob.isWhole_of_ofString hg) hadmits hpiece hwild
  have hup : ['.', '.'] ∉ components (Path.slashes item.toList) := fun hup =>
    hq.not_mem_components_relativeText (hthere hup (by simp))
  obtain ⟨ns, hne, hnames, htext, -⟩ := exists_relativeText_eq hstart hbracket hg hq hup
  rw [htext, Path.components_intercalate hne fun n hn =>
    (FileTree.isName_iff.1 (hnames n hn)).2.2.2.1] at hthere
  refine fun piece hpiece => ⟨?_, ?_, fun heq => hup (heq ▸ hpiece)⟩
  · rintro rfl
    obtain ⟨n, hn, htoList⟩ := List.mem_map.1 (hthere hpiece (by simp))
    exact (FileTree.isName_iff.1 (hnames n hn)).1 (String.toList_inj.1 htoList)
  · rintro rfl
    obtain ⟨n, hn, htoList⟩ := List.mem_map.1 (hthere hpiece (by simp))
    exact (FileTree.isName_iff.1 (hnames n hn)).2.1 (String.toList_inj.1 htoList)

/-- **A glob removes what it finds just where it is spelled directly.** A dot, an empty component or
a step back in the glob guides the search, but no text of a file has one. -/
theorem isIgnored_glob_iff (hglob : isGlob item = true) :
    Ignore.isIgnored [item] ((Path.ofPlace place).relativeText (.ofPlace q)) = true ↔
      IsDirect (Path.slashes item.toList) := by
  have hwhole := Glob.isWhole_of_ofString hg
  rw [Ignore.isIgnored_singleton_iff hbracket hwhole.isAligned,
    and_iff_right (ne_empty_of_isGlob hglob)]
  refine ⟨isDirect_of_admits hstart hbracket hg hq, fun hdirect => ?_⟩
  have hup : ['.', '.'] ∉ components (Path.slashes item.toList) :=
    fun hup => (hdirect _ hup).2.2 rfl
  obtain ⟨ns, -, -, htext, hadmits⟩ := exists_relativeText_eq hstart hbracket hg hq hup
  rwa [hdirect.intercalate_namesOf, ← htext] at hadmits

end

/-! ## Projects with a single item -/

/-- A project names no kit, and the items of one text are all that it includes and all that it
removes. -/
structure IncludesAndRemoves (es : List Xml.Element) (s : String) : Prop where
  noKit : es.any namesKit = false
  included_eq : included es = splitItems (some s)
  removed_eq : removed es = splitItems (some s)

/-- An item that is removed undoes what it includes: it is blank, a path that is spelled as its
place is shown, or a glob that is spelled directly. -/
inductive IsUndone (w : Workspace) (base : Path) (item : String) : Prop
  | blank (blank : item = "")
  | path (isPath : isGlob item = false)
    (shown : Path.slashes item.toList =
      (base.relativeText (base.resolveRelative w.current item)).toList)
  | glob (isGlob : isGlob item = true) (direct : IsDirect (Path.slashes item.toList))

/-- The item of a text without semicolons. -/
def itemOf (s : String) : String := String.ofList (Text.trim s.toList)

/-- A value without a semicolon is one item or none. -/
theorem splitItems_of_not_mem (h : ';' ∉ s.toList) :
    splitItems (some s) = if itemOf s = "" then [] else [itemOf s] := by
  have hsplit : s.toList.splitOnP (· == ';') = [s.toList] := by
    refine List.splitOnP_eq_singleton fun c hc => ?_
    rw [beq_eq_false_iff_ne]
    rintro rfl
    exact h hc
  rw [splitItems, Text.trimmedPieces, hsplit]
  simp only [itemOf, String.ofList_eq_empty_iff]
  by_cases hblank : Text.trim s.toList = [] <;> simp [hblank]

/-- So what is included and removed is this item, or nothing is. -/
theorem included_of_includesAndRemoves (hes : IncludesAndRemoves es s)
    (hsemicolon : ';' ∉ s.toList) :
    (itemOf s = "" ∧ included es = []) ∨
      (itemOf s ≠ "" ∧ included es = [itemOf s] ∧ removed es = [itemOf s]) := by
  rw [hes.included_eq, hes.removed_eq, splitItems_of_not_mem hsemicolon]
  by_cases hblank : itemOf s = "" <;> simp [hblank]

/-- What an item stands for, it stands for once. -/
theorem Expands.nodup {qs : List Place} (h : Expands w base item qs) : qs.Nodup := by
  cases h with
  | path => exact List.nodup_singleton _
  | glob _ _ lists => exact lists.nodup

/-- **An item removes what it includes just where it undoes itself.** An item without wildcards
includes one file, which is shown by a text of its own. -/
theorem Expands.isIgnored_iff {qs : List Place} (h : Expands w (.ofPlace place) item qs)
    (hstart : w.StartsAt (.ofPlace place) place) (hbracket : '[' ∉ item.toList)
    (hitem : item ≠ "") (hq : q ∈ qs) :
    Ignore.isIgnored [item] ((Path.ofPlace place).relativeText (.ofPlace q)) = true ↔
      IsUndone w (.ofPlace place) item := by
  cases h with
  | path isPath =>
    rw [List.mem_singleton.1 hq, isIgnored_path_iff isPath hbracket hitem]
    refine ⟨fun hshown => .path isPath hshown, fun hundone => ?_⟩
    cases hundone with
    | blank blank => exact absurd blank hitem
    | path _ shown => exact shown
    | glob isGlob => exact absurd isGlob (by simp [isPath])
  | glob isGlob legal lists =>
    rw [isIgnored_glob_iff hstart hbracket legal ((lists.mem q).1 hq) isGlob]
    refine ⟨fun hdirect => .glob isGlob hdirect, fun hundone => ?_⟩
    cases hundone with
    | blank blank => exact absurd blank hitem
    | path isPath => exact absurd isGlob (by simp [isPath])
    | glob _ direct => exact direct

/-! ## Loading -/

/-- Loading a project file comes to the entries of what its elements select. -/
theorem Reads.outcome_load (h : Reads w path es) (ignore : List String) (name? : Option String) :
    (load w ignore name? path).outcome = selected w (w.resolve path).parent es >>= fun files =>
      .ok ⟨nameOf name? (w.resolve path), w.resolve path,
        entriesOf (w.resolve path).parent ignore files⟩ := by
  rw [Project.outcome_load, h.isFile, ok_bind, if_pos rfl, h.elements]
  rfl

section

variable (h : Reads w path es) (hes : IncludesAndRemoves es s) (hsemicolon : ';' ∉ s.toList)
  (hbracket : '[' ∉ s.toList) (hlegal : isGlob (itemOf s) = true →
    ∃ g, Glob.ofString (globOf (itemOf s)) = .ok g)

include hes hsemicolon hlegal

/-- The pattern of the only item is legal if it is one at all. -/
theorem exists_glob_of_includesAndRemoves :
    ∀ item ∈ included es, isGlob item = true → ∃ g, Glob.ofString (globOf item) = .ok g := by
  rcases included_of_includesAndRemoves hes hsemicolon with ⟨-, hincluded⟩ | ⟨-, hincluded, -⟩ <;>
    rw [hincluded]
  · exact List.forall_mem_nil _
  · exact List.forall_mem_singleton.2 hlegal

include h hbracket

/-- **What is selected is what the item stands for, or nothing if the item undoes itself.** A
project file without kit selects by this item alone. -/
theorem selected_of_includesAndRemoves
    (hreach : ∀ f, Searches w (.ofPlace (directoryOf w path)) es f → ¬ w.IsRefused f) :
    (IsUndone w (.ofPlace (directoryOf w path)) (itemOf s) →
      selected w (.ofPlace (directoryOf w path)) es = .ok []) ∧
    (¬ IsUndone w (.ofPlace (directoryOf w path)) (itemOf s) →
      ∃ qs, Expands w (.ofPlace (directoryOf w path)) (itemOf s) qs ∧
        selected w (.ofPlace (directoryOf w path)) es = .ok (qs.map Path.ofPlace)) := by
  obtain ⟨first, more, hfirst, hmore, hselected⟩ :=
    selected_of_searches (exists_glob_of_includesAndRemoves hes hsemicolon hlegal) h hreach
  have hnone : first = [] := List.eq_nil_iff_forall_not_mem.2 fun q hq => by
    have hkit := ((hfirst.mem q).1 hq).1
    rw [hes.noKit] at hkit
    cases hkit
  subst hnone
  rcases included_of_includesAndRemoves hes hsemicolon with ⟨hblank, hincluded⟩
    | ⟨hitem, hincluded, hremoved⟩
  · rw [hincluded, List.forall₂_nil_left_iff] at hmore
    subst hmore
    exact ⟨fun _ => hselected, fun hundone => absurd (.blank hblank) hundone⟩
  · rw [hincluded] at hmore
    obtain ⟨qs, rest, hqs, hrest, rfl⟩ := List.forall₂_cons_left_iff.1 hmore
    obtain rfl := List.forall₂_nil_left_iff.1 hrest
    have hfree : '[' ∉ (itemOf s).toList := by
      rw [itemOf, String.toList_ofList]
      exact fun hmem => hbracket (Text.mem_of_mem_trim hmem)
    have hignored {q : Place} (hq : q ∈ qs) := hqs.isIgnored_iff h.startsAt hfree hitem hq
    have hflat : [] ++ [qs].flatten = qs := by simp
    rw [kept, hflat, Distinct.eraseDups_of_nodup hqs.nodup, hremoved] at hselected
    refine ⟨fun hundone => ?_, fun hundone => ⟨qs, hqs, ?_⟩⟩ <;> rw [hselected]
    · rw [List.filter_eq_nil_iff.2 fun q hq => by simp [(hignored hq).2 hundone]]
      rfl
    · rw [List.filter_eq_self.2 fun q hq => by simpa using fun hq' => hundone ((hignored hq).1 hq')]

/-- **An item that a project includes and removes leaves no entries just where it undoes itself.**
Otherwise it removes nothing of what it includes. A search that looks at a path which is refused
ends in its refusal. -/
theorem outcome_load_of_includesAndRemoves (ignore : List String) (name? : Option String) :
    let base := (w.resolve path).parent
    ((∀ f, Searches w base es f → ¬ w.IsRefused f) →
      (IsUndone w base (itemOf s) →
        (load w ignore name? path).outcome =
          .ok ⟨nameOf name? (w.resolve path), w.resolve path, []⟩) ∧
      (¬ IsUndone w base (itemOf s) → ∃ qs, Expands w base (itemOf s) qs ∧
        (load w ignore name? path).outcome =
          .ok ⟨nameOf name? (w.resolve path), w.resolve path,
            entriesOf base ignore (qs.map Path.ofPlace)⟩)) ∧
    ((∃ f, Searches w base es f ∧ w.IsRefused f) →
      ∃ f, Searches w base es f ∧ w.IsRefused f ∧
        (load w ignore name? path).outcome = .error (Workspace.tooLong f)) := by
  intro base
  rw [h.outcome_load ignore name?]
  refine ⟨fun hreach => ?_, fun hrefused => ?_⟩
  · obtain ⟨hundone, hkept⟩ :=
      selected_of_includesAndRemoves h hes hsemicolon hbracket hlegal hreach
    refine ⟨fun hitem => ?_, fun hitem => ?_⟩
    · rw [parent_resolve, hundone hitem]
      rfl
    · obtain ⟨qs, hqs, hselected⟩ := hkept hitem
      exact ⟨qs, hqs, by rw [parent_resolve, hselected]; rfl⟩
  · obtain ⟨f, hf, hlong, herror⟩ :=
      exists_selected_eq_error (exists_glob_of_includesAndRemoves hes hsemicolon hlegal) h hrefused
    exact ⟨f, hf, hlong, by rw [parent_resolve, herror]; rfl⟩

end

/-! ## Projects with one item -/

/-- A project that includes and removes an item, beside a file that lies below it and one that does
not. -/
def oneItemProject (item : String) : Workspace where
  tree := [(["App"], .directory), (["App", "Sub"], .directory), (["App", "Sub", "A.cs"], .file []),
    (["App", "App.csproj"],
      .file (Text.Utf8.encode ("<Project><Compile Include='".toList ++ item.toList ++
      "'/><Compile Remove='".toList ++ item.toList ++ "'/></Project>".toList))),
    (["Shared"], .directory), (["Shared", "A.cs"], .file [])].foldl
      (fun t e => t.put e.1 e.2) FileTree.empty
  current := []

/-- The elements of that project. -/
def oneItemElements (item : String) : List Xml.Element :=
  [⟨⟨none, "Project"⟩, []⟩, ⟨⟨none, "Compile"⟩, [(⟨none, "Include"⟩, item)]⟩,
    ⟨⟨none, "Compile"⟩, [(⟨none, "Remove"⟩, item)]⟩]

/-- The path of that project. -/
def oneItemPath : Path := .ofString "App/App.csproj"

theorem includesAndRemoves_oneItemElements (item : String) :
    IncludesAndRemoves (oneItemElements item) item where
  noKit := rfl
  included_eq := List.append_nil _
  removed_eq := List.append_nil _

/-- A file below the project's directory is included and removed by one pattern with a backslash. -/
theorem outcome_load_of_includesAndRemoves_below :
    Reads (oneItemProject "**\\*.cs") oneItemPath (oneItemElements "**\\*.cs") ∧
      IncludesAndRemoves (oneItemElements "**\\*.cs") "**\\*.cs" ∧
      (∃ g, Glob.ofString (globOf (itemOf "**\\*.cs")) = .ok g) ∧
      expand (oneItemProject "**\\*.cs") (.ofPlace ["App"]) "**\\*.cs" =
        .ok [.ofPlace ["App", "Sub", "A.cs"]] ∧
      (load (oneItemProject "**\\*.cs") [] none oneItemPath).outcome =
        .ok ⟨"App", .ofPlace ["App", "App.csproj"], []⟩ := by
  have hreads : Reads (oneItemProject "**\\*.cs") oneItemPath (oneItemElements "**\\*.cs") :=
    ⟨by decide +kernel, by decide +kernel⟩
  have hes := includesAndRemoves_oneItemElements "**\\*.cs"
  have hsemicolon : ';' ∉ "**\\*.cs".toList := by decide
  have hlegal : ∃ g, Glob.ofString (globOf (itemOf "**\\*.cs")) = .ok g :=
    exists_of_isOk (by decide +kernel)
  have hselected : selected (oneItemProject "**\\*.cs") (.ofPlace ["App"])
      (oneItemElements "**\\*.cs") = .ok [] := by
    decide +kernel
  obtain ⟨hloads, -⟩ := outcome_load_of_includesAndRemoves hreads hes hsemicolon (by decide)
    (fun _ => hlegal) [] none
  obtain ⟨hundone, -⟩ := hloads fun f hf =>
    not_isRefused_of_selected (exists_glob_of_includesAndRemoves hes hsemicolon fun _ => hlegal)
      hreads hselected hf
  exact ⟨hreads, hes, hlegal, by decide +kernel,
    hundone (.glob (by decide +kernel) (by decide +kernel))⟩

/-- An item that leads out of the directory of a project does not undo itself. -/
theorem outcome_load_linked :
    ¬ ∀ (w : Workspace) (path : Path) (es : List Xml.Element) (s : String),
    Reads w path es → IncludesAndRemoves es s → ';' ∉ s.toList → '[' ∉ s.toList →
    (isGlob (itemOf s) = true → ∃ g, Glob.ofString (globOf (itemOf s)) = .ok g) →
    (load w [] none path).outcome = .ok ⟨nameOf none (w.resolve path), w.resolve path, []⟩ := by
  intro hundone
  have hreads :
      Reads (oneItemProject "../Shared/A.cs") oneItemPath (oneItemElements "../Shared/A.cs") :=
    ⟨by decide +kernel, by decide +kernel⟩
  have hpath : isGlob (itemOf "../Shared/A.cs") = false := by decide +kernel
  have hload :=
    hundone _ _ _ _ hreads (includesAndRemoves_oneItemElements _) (by decide) (by decide)
    fun hglob => absurd hglob (by simp [hpath])
  have hentries : (load (oneItemProject "../Shared/A.cs") [] none oneItemPath).outcome =
      .ok ⟨"App", .ofPlace ["App", "App.csproj"], [⟨"/Shared/A.cs", true⟩]⟩ := by
    decide +kernel
  cases hentries.symm.trans hload

end MemberHarvest.Project
