import Mathlib.Data.List.Basic
import Mathlib.Data.Prod.Lex
import MemberHarvest.Proofs.Interface.FirstDeclaration

/-!
# Proofs/Interface/Visits — in which order names come to the catalogue, and what is reported of them

The files are searched one after the other, each for the requested names one after the other. A
visit is a file and a requested name that it declares, with the positions of both (`Visit`); the
visits stand in the order of their positions. The first visit of a name has a position that can be
given without the search: the first file that declares the name, and the first place of the name
among those requested (`firstPosition`). `build_inOrder` says that the catalogue is what these first
visits find, in their order, and that of all visits they and no others are reported as such.
-/

namespace MemberHarvest.Catalogue

variable {files : List SourceFile} {names : List String}

/-! ## Visits and their positions -/

/-- A file and a requested name that the file declares, with the position of the file and that of
the name. -/
structure Visit where
  file : SourceFile
  name : String
  position : ℕ ×ₗ ℕ

namespace Visit

/-- What the file says of the name. -/
def declaration (v : Visit) : Declaration := Declaration.ofLines v.file.lines v.name

/-- The visit without its position. -/
def sighting (v : Visit) : Sighting := ⟨v.file.path, v.declaration⟩

end Visit

/-- The visits, file by file, and in a file name by name. -/
def visits (files : List SourceFile) (names : List String) : List Visit :=
  files.zipIdx.flatMap fun (f, i) =>
    (names.zipIdx.filter fun (n, _) => Declaration.declares f.lines n).map fun (n, j) =>
      ⟨f, n, toLex (i, j)⟩

/-- The names that a file declares, with their places or without. -/
theorem filter_declares_eq_map (names : List String) (f : SourceFile) :
    names.filter (Declaration.declares f.lines) =
      (names.zipIdx.filter fun n => Declaration.declares f.lines n.1).map Prod.fst := by
  conv_lhs => rw [← List.zipIdx_map_fst 0 names, List.filter_map]
  rfl

/-- The visits are the sightings, with positions. -/
theorem map_sighting_visits (files : List SourceFile) (names : List String) :
    (visits files names).map Visit.sighting = sightings files names := by
  rw [visits, List.map_flatMap, sightings]
  conv_rhs => rw [← List.zipIdx_map_fst 0 files, List.flatMap_map]
  refine congrArg files.zipIdx.flatMap (funext fun f => ?_)
  rw [filter_declares_eq_map, List.map_map, List.map_map]
  rfl

/-- **A visit is a pair of a file and a name that it declares,** at the place of this pair. The
place is that of the file, and within a file that of the name. -/
theorem mem_visits {v : Visit} :
    v ∈ visits files names ↔
      ∃ i j, v.position = toLex (i, j) ∧ files[i]? = some v.file ∧ names[j]? = some v.name ∧
        Declaration.declares v.file.lines v.name = true := by
  simp only [visits, List.mem_flatMap, List.mem_map, List.mem_filter]
  constructor
  · rintro ⟨⟨f, i⟩, hf, ⟨n, j⟩, ⟨hn, hd⟩, rfl⟩
    exact ⟨i, j, rfl, List.mk_mem_zipIdx_iff_getElem?.1 hf,
      List.mk_mem_zipIdx_iff_getElem?.1 hn, hd⟩
  · rintro ⟨i, j, hpos, hf, hn, hd⟩
    refine ⟨(v.file, i), List.mk_mem_zipIdx_iff_getElem?.2 hf, (v.name, j),
      ⟨List.mk_mem_zipIdx_iff_getElem?.2 hn, hd⟩, ?_⟩
    rw [← hpos]

theorem pairwise_zipIdx {α : Type} (as : List α) : as.zipIdx.Pairwise fun a b => a.2 < b.2 := by
  rw [← List.pairwise_map, List.zipIdx_map_snd]
  exact List.pairwise_lt_range' 1

/-- **The visits stand in the order of their positions.** So no two visits are at one place, even
where a file or a name is repeated. -/
theorem pairwise_visits (files : List SourceFile) (names : List String) :
    (visits files names).Pairwise fun u v => u.position < v.position := by
  rw [visits, List.pairwise_flatMap]
  constructor
  · intro f _
    rw [List.pairwise_map]
    refine ((pairwise_zipIdx names).filter _).imp ?_
    intro m n h
    exact Prod.Lex.toLex_lt_toLex.2 (.inr ⟨rfl, h⟩)
  · refine (pairwise_zipIdx files).imp ?_
    intro f g h u hu v hv
    obtain ⟨m, -, rfl⟩ := List.mem_map.1 hu
    obtain ⟨n, -, rfl⟩ := List.mem_map.1 hv
    exact Prod.Lex.toLex_lt_toLex.2 (.inl h)

/-! ## First visits -/

/-- The position of a name's first visit: the first file that declares it, and its first place among
the names. -/
def firstPosition (files : List SourceFile) (names : List String) (name : String) : ℕ ×ₗ ℕ :=
  toLex (files.findIdx fun f => Declaration.declares f.lines name, names.idxOf name)

/-- The first element with a property lies no further than any other one. -/
theorem findIdx_le_of_getElem? {α : Type} {p : α → Bool} {as : List α} {i : ℕ} {a : α}
    (ha : as[i]? = some a) (hp : p a = true) : as.findIdx p ≤ i := by
  by_contra h
  obtain ⟨hi, rfl⟩ := List.getElem?_eq_some_iff.1 ha
  have hfalse := List.not_of_lt_findIdx (Nat.lt_of_not_le h)
  exact Bool.noConfusion (hp.symm.trans hfalse)

/-- No visit of a name comes before the first one. -/
theorem firstPosition_le {v : Visit} (hv : v ∈ visits files names) :
    firstPosition files names v.name ≤ v.position := by
  obtain ⟨i, j, hpos, hf, hn, hd⟩ := mem_visits.1 hv
  rw [hpos]
  have hfile : files.findIdx (fun f => Declaration.declares f.lines v.name) ≤ i :=
    findIdx_le_of_getElem? hf hd
  have hname : names.idxOf v.name ≤ j := findIdx_le_of_getElem? hn (beq_self_eq_true v.name)
  exact Prod.Lex.toLex_mono ⟨hfile, hname⟩

/-- A name that is visited has a first visit. -/
theorem exists_firstPosition {v : Visit} (hv : v ∈ visits files names) :
    ∃ u ∈ visits files names, u.name = v.name ∧ u.position = firstPosition files names v.name := by
  obtain ⟨i, j, -, hf, hn, hd⟩ := mem_visits.1 hv
  have hlt : files.findIdx (fun f => Declaration.declares f.lines v.name) < files.length :=
    List.findIdx_lt_length_of_exists ⟨v.file, List.mem_of_getElem? hf, hd⟩
  refine ⟨⟨files[files.findIdx fun f => Declaration.declares f.lines v.name], v.name,
    firstPosition files names v.name⟩,
    mem_visits.2 ⟨_, _, rfl, List.getElem?_eq_getElem hlt, ?_, ?_⟩, rfl, rfl⟩
  · exact List.getElem?_idxOf (List.mem_of_getElem? hn)
  · exact List.findIdx_getElem (p := fun f : SourceFile => Declaration.declares f.lines v.name)

/-- Whether a visit is the first one of its name. -/
def Visit.IsFirst (files : List SourceFile) (names : List String) (v : Visit) : Prop :=
  v.position = firstPosition files names v.name

instance (files : List SourceFile) (names : List String) :
    DecidablePred (Visit.IsFirst files names) :=
  fun v => inferInstanceAs (Decidable (v.position = firstPosition files names v.name))

/-- **A visit is the first one of its name where no visit before it is one of that name.** The order
of the visits is that in which they are made, so this can be told from the ones that are done. -/
theorem isFirst_iff {done todo : List Visit} {v : Visit}
    (h : visits files names = done ++ v :: todo) :
    v.IsFirst files names ↔ ∀ u ∈ done, u.name ≠ v.name := by
  have hmem : ∀ {u}, u ∈ done ++ v :: todo → u ∈ visits files names := fun hu => h ▸ hu
  obtain ⟨-, hbehind, hbefore⟩ := List.pairwise_append.1 (h ▸ pairwise_visits files names)
  constructor
  · intro hfirst u hu hname
    have hlt : u.position < v.position := hbefore u hu v List.mem_cons_self
    have hle : firstPosition files names u.name ≤ u.position :=
      firstPosition_le (hmem (List.mem_append_left _ hu))
    rw [hname, ← hfirst] at hle
    exact absurd hlt (not_lt.2 hle)
  · intro hnone
    obtain ⟨u, hu, hname, hpos⟩ :=
      exists_firstPosition (hmem (List.mem_append_right _ List.mem_cons_self))
    rw [h, List.mem_append, List.mem_cons] at hu
    rcases hu with hu | rfl | hu
    · exact absurd hname (hnone u hu)
    · exact hpos
    · -- The first visit of the name would come behind this one.
      have hlt : v.position < u.position := List.rel_of_pairwise_cons hbehind hu
      rw [hpos] at hlt
      exact absurd hlt
        (not_lt.2 (firstPosition_le (hmem (List.mem_append_right _ List.mem_cons_self))))

/-! ## The catalogue and its reports -/

/-- The first visits, in their order. -/
def firstVisits (files : List SourceFile) (names : List String) : List Visit :=
  (visits files names).filter fun v => v.IsFirst files names

/-- What is reported of a visit. -/
def Visit.report (files : List SourceFile) (names : List String) (v : Visit) : Entry :=
  if v.IsFirst files names
    then .indexed v.name (Declaration.memberNames v.file.lines).length v.file.path
  else .duplicate v.name v.file.path

/-! ### One visit

The catalogue holds the names of the visits before. -/

section Step

variable {done todo : List Visit} {v : Visit} {c : Catalogue}

/-- The names in the catalogue are those of the visits. -/
def HoldsNamesOf (c : Catalogue) (vs : List Visit) : Prop :=
  ∀ name, c.contains name = true ↔ ∃ u ∈ vs, u.name = name

theorem holdsNamesOf_empty : empty.HoldsNamesOf [] := by
  intro name
  simp [contains]

/-- A catalogue that holds the names of the visits so far holds the next one once it is
registered. -/
theorem HoldsNamesOf.register (hc : c.HoldsNamesOf done) (v : Visit) :
    (c.register v.declaration).HoldsNamesOf (done ++ [v]) := by
  intro name
  rw [contains_register, hc]
  simp [Visit.declaration, or_and_right, exists_or]

/-- **A name is known just where its first visit lies before.** It does not matter which of the
files it was. -/
theorem HoldsNamesOf.contains_iff (hc : c.HoldsNamesOf done)
    (h : visits files names = done ++ v :: todo) :
    c.contains v.name = true ↔ ¬ v.IsFirst files names := by
  rw [hc, isFirst_iff h]
  push Not
  rfl

/-- A visit adds a declaration where it is the first one of its name. -/
theorem HoldsNamesOf.declarations_register (hc : c.HoldsNamesOf done)
    (h : visits files names = done ++ v :: todo) :
    (c.register v.declaration).declarations =
      c.declarations ++ if v.IsFirst files names then [v.declaration] else [] := by
  split
  · rename_i hfirst
    exact declarations_register_of_not_contains fun hv => (hc.contains_iff h).1 hv hfirst
  · rename_i hlater
    rw [register_of_contains ((hc.contains_iff h).2 hlater), List.append_nil]

/-- So the report of a visit says whether it is the first one of its name. -/
theorem HoldsNamesOf.entryFor_eq (hc : c.HoldsNamesOf done)
    (h : visits files names = done ++ v :: todo) :
    c.entryFor v.sighting = v.report files names := by
  rw [entryFor, Visit.report]
  by_cases hfirst : v.IsFirst files names
  · rw [if_pos hfirst]
    exact if_neg fun hv => (hc.contains_iff h).1 hv hfirst
  · rw [if_neg hfirst]
    exact if_pos ((hc.contains_iff h).2 hfirst)

end Step

/-! ### All visits -/

/-- **Registering the visits that are left adds what the first ones among them find,** and reports
each of them. The induction is on the visits that are left, with the catalogue holding the names of
those that are done. -/
theorem registerAll_visits {done todo : List Visit} {c : Catalogue}
    (h : visits files names = done ++ todo) (hc : c.HoldsNamesOf done) :
    (c.registerAll (todo.map Visit.sighting)).1.declarations =
        c.declarations ++ (todo.filter fun v => v.IsFirst files names).map Visit.declaration ∧
      (c.registerAll (todo.map Visit.sighting)).2 = todo.map (Visit.report files names) := by
  induction todo generalizing done c with
  | nil => simp [registerAll]
  | cons v todo ih =>
    obtain ⟨hdeclarations, hentries⟩ := ih (by simpa using h) (hc.register v)
    constructor
    · calc
        _ = (c.register v.declaration).declarations ++ _ := hdeclarations
        _ = c.declarations ++ _ := by
          rw [hc.declarations_register h, List.append_assoc]
          by_cases hfirst : v.IsFirst files names <;> simp [hfirst]
    · exact congrArg₂ List.cons (hc.entryFor_eq h) hentries

/-- The catalogue of the files is what the first visits find. -/
theorem declarations_ofFiles (files : List SourceFile) (names : List String) :
    (ofFiles files names).declarations = (firstVisits files names).map Visit.declaration := by
  rw [ofFiles, ← map_sighting_visits]
  exact (registerAll_visits rfl holdsNamesOf_empty).1

/-- Every visit is reported, in the order of the visits. -/
theorem entries_eq_map_report (files : List SourceFile) (names : List String) :
    entries files names = (visits files names).map (Visit.report files names) := by
  rw [entries, ← map_sighting_visits]
  exact (registerAll_visits rfl holdsNamesOf_empty).2

/-- The names of the catalogue are those of the first visits, so they stand in the order of the
first positions. -/
theorem pairwise_names_ofFiles (files : List SourceFile) (names : List String) :
    (ofFiles files names).names.Pairwise fun a b =>
      firstPosition files names a < firstPosition files names b := by
  rw [Catalogue.names, declarations_ofFiles, List.map_map, List.pairwise_map]
  refine List.Pairwise.imp_of_mem ?_ ((pairwise_visits files names).filter _)
  intro u v hu hv hlt
  have hfirst : ∀ {w}, w ∈ firstVisits files names →
      w.position = firstPosition files names w.name :=
    fun hw => of_decide_eq_true (List.mem_filter.1 hw).2
  show firstPosition files names u.name < firstPosition files names v.name
  rwa [← hfirst hu, ← hfirst hv]

/-- A name is in the catalogue if it is asked for and some file declares it. -/
theorem mem_names_ofFiles {name : String} :
    name ∈ (ofFiles files names).names ↔ name ∈ names ∧ ∃ f ∈ files,
      Declaration.declares f.lines name = true := by
  rw [← contains_iff, contains, get?_ofFiles]
  split
  · rename_i h
    rw [Option.isSome_map, firstDeclaring?, List.find?_isSome, and_iff_right h]
  · rename_i h
    simp [h]

/-- **Names come to the catalogue in the order of their first positions.** It holds the requested
names that some file declares, each once, with what the first file says; and every visit is reported
in its turn, the first one of a name as such. -/
theorem build_inOrder (files : List SourceFile) (names : List String) :
    ∃ catalogue, (build files names).outcome = .ok catalogue ∧
      (∀ name, name ∈ catalogue.names ↔
        name ∈ names ∧ ∃ f ∈ files, Declaration.declares f.lines name = true) ∧
      catalogue.names.Nodup ∧
      catalogue.names.Pairwise (fun a b =>
        firstPosition files names a < firstPosition files names b) ∧
      catalogue.declarations = (firstVisits files names).map Visit.declaration ∧
      (build files names).journal = (visits files names).map (Visit.report files names) :=
  ⟨ofFiles files names, rfl, fun _ => mem_names_ofFiles, (ofFiles files names).distinct,
    pairwise_names_ofFiles files names, declarations_ofFiles files names,
      entries_eq_map_report files names⟩

end MemberHarvest.Catalogue
