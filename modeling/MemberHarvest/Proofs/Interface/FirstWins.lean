import MemberHarvest.Proofs.Distinct
import MemberHarvest.Proofs.Interface.FirstDeclaration
import MemberHarvest.Proofs.NamedValues

/-!
# Proofs/Interface/FirstWins — what a catalogue answers, request by request

A catalogue is asked to register declarations, for the declaration of a name, whether a name has
one, and for all declarations (`Request`); with each answer the number of declarations and the
members under their names show (`Observation`). The same requests may be put to a ledger, which
takes down every declaration under its name and lets the first entry under a name count, and to a
table, which puts a declaration under its name where the name is free. All three show the same,
request by request (`observations_firstWins`). A catalogue agrees with the ledger of all
registrations at any time (`Agrees`), and it is a table whose names are those of the declarations
(`toTable`).
-/

namespace MemberHarvest.Catalogue

/-! ## Requests and what shows of them -/

/-- What may be asked of declarations under names. -/
inductive Request where
  | register (d : Declaration)
  | get (name : String)
  | contains (name : String)
  | iterate
  deriving DecidableEq, Repr

/-- What is answered to a request: whether a registration is the first of its name, the declaration
of a name, whether a name has one, and all declarations. -/
inductive Answer where
  | registered (isFirst : Bool)
  | found (declaration : Option Declaration)
  | held (isThere : Bool)
  | all (declarations : List Declaration)
  deriving DecidableEq, Repr

/-- What shows after a request: the answer, the number of declarations, and the members under the
names. -/
structure Observation where
  answer : Answer
  size : ℕ
  members : List (String × List String)
  deriving DecidableEq, Repr

/-- What shows of declarations under names. -/
def Observation.ofEntries (answer : Answer) (entries : List (String × Declaration)) : Observation :=
  ⟨answer, entries.length, entries.map fun e => (e.1, e.2.members)⟩

variable {σ τ : Type}

/-- Requests put one after another: the state behind them, and what showed after each. -/
def performAll (perform : σ → Request → σ × Observation) (s : σ) :
    List Request → σ × List Observation
  | [] => (s, [])
  | r :: rs =>
    let next := perform s r
    let last := performAll perform next.1 rs
    (last.1, next.2 :: last.2)

/-- The declarations that are registered by requests, in order. -/
def registrations (rs : List Request) : List Declaration :=
  rs.filterMap fun r => match r with
    | .register d => some d
    | _ => none

/-- **States that stay related and show the same show the same throughout.** One step on each side
is all that has to be looked at. -/
theorem performAll_related {perform : σ → Request → σ × Observation}
    {perform' : τ → Request → τ × Observation} (related : σ → τ → Prop)
    (hstep : ∀ s t r, related s t → (perform s r).2 = (perform' t r).2 ∧
      related (perform s r).1 (perform' t r).1)
    {s : σ} {t : τ} (h : related s t) (rs : List Request) :
    (performAll perform s rs).2 = (performAll perform' t rs).2 ∧
      related (performAll perform s rs).1 (performAll perform' t rs).1 := by
  induction rs generalizing s t with
  | nil => exact ⟨rfl, h⟩
  | cons r rs ih =>
    obtain ⟨hshown, hnext⟩ := hstep s t r h
    obtain ⟨hrest, hlast⟩ := ih hnext
    exact ⟨congrArg₂ List.cons hshown hrest, hlast⟩

/-! ## A catalogue as a table -/

/-- The declarations under their names. -/
def toTable (c : Catalogue) : List (String × Declaration) :=
  c.declarations.map fun d => (d.interfaceName, d)

/-- Put a request to a catalogue. This too is a step for `performAll_related`. -/
def perform (c : Catalogue) (r : Request) : Catalogue × Observation :=
  match r with
  | .register d =>
    (c.register d, .ofEntries (.registered !c.contains d.interfaceName) (c.register d).toTable)
  | .get name => (c, .ofEntries (.found (c.get? name)) c.toTable)
  | .contains name => (c, .ofEntries (.held (c.contains name)) c.toTable)
  | .iterate => (c, .ofEntries (.all c.declarations) c.toTable)

variable {c : Catalogue}

/-- **The table shows what the catalogue gives for each name.** The first declaration of a name is
the only one in it. -/
theorem lookup_toTable (c : Catalogue) (name : String) : c.toTable.lookup name = c.get? name := by
  rw [toTable, Harvest.lookup_map_pair, Option.map_id', get?]

/-- The table has the names of the catalogue in their order. -/
theorem map_fst_toTable (c : Catalogue) : c.toTable.map Prod.fst = c.names := by
  rw [toTable, List.map_map]
  rfl

/-- The table has the declarations of the catalogue in their order. -/
theorem map_snd_toTable (c : Catalogue) : c.toTable.map Prod.snd = c.declarations := by
  rw [toTable, List.map_map]
  exact List.map_id' c.declarations

/-- A new name comes at the end of the table. -/
theorem toTable_register_of_not_contains {d : Declaration}
    (h : ¬ c.contains d.interfaceName = true) :
    (c.register d).toTable = c.toTable ++ [(d.interfaceName, d)] := by
  rw [toTable, declarations_register_of_not_contains h, List.map_append]
  rfl

/-- A catalogue is known from its names and what it finds under them. -/
theorem filterMap_get?_names (c : Catalogue) :
    (c.names.filterMap fun n => (c.get? n).map (n, ·)) = c.toTable := by
  rw [names, List.filterMap_map, toTable, ← List.filterMap_eq_map]
  refine List.filterMap_congr fun d hd => ?_
  have hfound : c.get? d.interfaceName = some d := get?_eq_some_iff.2 ⟨hd, rfl⟩
  simp [hfound]

/-! ## A table -/

/-- Put a request to a table: a declaration is put under its name where the table has nothing under
the name. -/
def performOnTable (t : List (String × Declaration)) (r : Request) :
    List (String × Declaration) × Observation :=
  match r with
  | .register d =>
    if (t.lookup d.interfaceName).isSome then (t, .ofEntries (.registered false) t)
    else
      let next := Harvest.insert t d.interfaceName d
      (next, .ofEntries (.registered true) next)
  | .get name => (t, .ofEntries (.found (t.lookup name)) t)
  | .contains name => (t, .ofEntries (.held (t.lookup name).isSome) t)
  | .iterate => (t, .ofEntries (.all (t.map Prod.snd)) t)

/-- **A catalogue and its table show the same and stay together.** This is the step that
`performAll_related` asks for. -/
theorem performOnTable_toTable (c : Catalogue) (r : Request) :
    performOnTable c.toTable r = ((c.perform r).1.toTable, (c.perform r).2) := by
  cases r with
  | register d =>
    have hiff : (c.toTable.lookup d.interfaceName).isSome = c.contains d.interfaceName := by
      rw [lookup_toTable, contains]
    rw [performOnTable, hiff, perform]
    split
    · rename_i h
      rw [register_of_contains h, h]
      rfl
    · rename_i h
      have hfree : c.toTable.any (fun e => e.1 == d.interfaceName) = false := by
        rw [Bool.eq_false_iff, ne_eq, List.any_eq_true]
        rintro ⟨e, he, hname⟩
        refine h (contains_iff.2 ?_)
        rw [← map_fst_toTable, ← beq_iff_eq.1 hname]
        exact List.mem_map_of_mem he
      simp only [Harvest.insert, hfree, toTable_register_of_not_contains h]
      simp [h]
  | get name => rw [performOnTable, lookup_toTable, perform]
  | contains name => rw [performOnTable, lookup_toTable, perform, contains]
  | iterate => rw [performOnTable, map_snd_toTable, perform]

/-! ## A ledger -/

/-- Entries under names; the first entry under a name counts. -/
abbrev Ledger := List (String × Declaration)

namespace Ledger

/-- The entries that count, in their order. -/
def counting (l : Ledger) : List (String × Declaration) :=
  (l.map Prod.fst).eraseDups.filterMap fun name => (l.lookup name).map (name, ·)

/-- Put a request to a ledger: every declaration is taken down. -/
def perform (l : Ledger) (r : Request) : Ledger × Observation :=
  match r with
  | .register d =>
    let next : Ledger := l ++ [(d.interfaceName, d)]
    (next, .ofEntries (.registered (l.lookup d.interfaceName).isNone) next.counting)
  | .get name => (l, .ofEntries (.found (l.lookup name)) l.counting)
  | .contains name => (l, .ofEntries (.held (l.lookup name).isSome) l.counting)
  | .iterate => (l, .ofEntries (.all (l.counting.map Prod.snd)) l.counting)

end Ledger

/-- A catalogue has the names of a ledger, in the order in which they come up, and finds the first
entry of each. -/
structure Agrees (c : Catalogue) (l : Ledger) : Prop where
  names : c.names = (l.map Prod.fst).eraseDups
  get? : ∀ name, c.get? name = l.lookup name

theorem agrees_empty : Agrees empty [] := ⟨rfl, fun _ => rfl⟩

namespace Agrees

variable {l : Ledger} (h : Agrees c l)

include h

/-- The catalogue contains the names of the ledger. -/
theorem contains_iff {name : String} : c.contains name = true ↔ name ∈ l.map Prod.fst := by
  rw [Catalogue.contains_iff, h.names, List.mem_eraseDups]

/-- What counts in the ledger is the table. -/
theorem counting_eq : l.counting = c.toTable := by
  rw [Ledger.counting, ← h.names, ← filterMap_get?_names]
  simp only [h.get?]

/-- **A catalogue agrees with a ledger also after a registration,** whether the name is new or not.
A known name is not registered again, and in the ledger a later entry does not count. -/
theorem register (d : Declaration) : Agrees (c.register d) (l ++ [(d.interfaceName, d)]) where
  names := by
    rw [names_register, h.names, List.map_append, List.eraseDups_append]
    split
    · rename_i hin
      have hmem := h.contains_iff.1 hin
      simp only [List.map_cons, List.map_nil, List.removeAll, List.filter_cons,
        List.elem_eq_mem, hmem]
      simp
    · rename_i hnew
      have hmem : d.interfaceName ∉ l.map Prod.fst := fun hmem => hnew (h.contains_iff.2 hmem)
      simp only [List.map_cons, List.map_nil, List.removeAll, List.filter_cons,
        List.elem_eq_mem, hmem]
      simp [List.eraseDups_cons]
  get? name := by
    rw [get?_register, h.get?, List.lookup_append, Harvest.lookup_cons_eq_ite, List.lookup_nil]
    simp only [eq_comm]

/-- **A catalogue and a ledger that agree show the same and go on agreeing.** -/
theorem perform (r : Request) :
    (c.perform r).2 = (Ledger.perform l r).2 ∧ Agrees (c.perform r).1 (Ledger.perform l r).1 := by
  cases r with
  | register d =>
    refine ⟨?_, h.register d⟩
    simp only [Catalogue.perform, Ledger.perform, (h.register d).counting_eq, contains, h.get?,
      Option.not_isSome]
  | get name => exact ⟨by simp only [Catalogue.perform, Ledger.perform, h.counting_eq, h.get?], h⟩
  | contains name =>
    exact ⟨by simp only [Catalogue.perform, Ledger.perform, h.counting_eq, contains, h.get?], h⟩
  | iterate =>
    exact ⟨by simp only [Catalogue.perform, Ledger.perform, h.counting_eq, map_snd_toTable], h⟩

end Agrees

/-- A ledger holds all registrations, each under its name. -/
theorem ledger_eq (l : Ledger) (rs : List Request) :
    (performAll Ledger.perform l rs).1 = l ++ (registrations rs).map fun d =>
      (d.interfaceName, d) := by
  induction rs generalizing l with
  | nil => exact (List.append_nil l).symm
  | cons r rs ih =>
    rw [performAll, ih]
    cases r with
    | register d => exact List.append_assoc l [(d.interfaceName, d)] _
    | get name => rfl
    | contains name => rfl
    | iterate => rfl

/-! ## The first declaration of each name -/

theorem size_register (c : Catalogue) (d : Declaration) :
    (c.register d).size = c.size + if c.contains d.interfaceName then 0 else 1 := by
  split
  · rename_i h
    rw [register_of_contains h, Nat.add_zero]
  · rename_i h
    rw [size, declarations_register_of_not_contains h, List.length_append,
      List.length_singleton, size]

/-- Each registration that is the first of its name adds a declaration, and nothing else adds
one. -/
theorem size_performAll (c : Catalogue) (rs : List Request) :
    (performAll perform c rs).1.size =
      c.size + (performAll perform c rs).2.countP fun o => o.answer = .registered true := by
  induction rs generalizing c with
  | nil => rfl
  | cons r rs ih =>
    have hstep : (c.perform r).1.size =
        c.size + if (c.perform r).2.answer = .registered true then 1 else 0 := by
      cases r with
      | register d =>
        rw [perform, size_register]
        cases c.contains d.interfaceName <;> rfl
      | get name => rfl
      | contains name => rfl
      | iterate => rfl
    rw [performAll, ih, hstep, List.countP_cons]
    simp only [decide_eq_true_eq]
    omega

/-- What a catalogue holds and answers after declarations have been registered, one after another:
its names are theirs, each once and in the order in which they came up; under each name it finds the
first declaration; a registration is the first just where the name has not been registered; and
nothing but such a registration changes the catalogue. -/
structure KeepsFirst (c : Catalogue) (registered : List Declaration) : Prop where
  names : c.names = (registered.map (·.interfaceName)).eraseDups
  nodup : c.names.Nodup
  get? : ∀ name, c.get? name = registered.find? fun d => d.interfaceName == name
  contains : ∀ name, c.contains name = true ↔ name ∈ registered.map (·.interfaceName)
  register : ∀ d, (c.perform (.register d)).2.answer =
    .registered (decide (d.interfaceName ∉ registered.map (·.interfaceName)))
  unchanged : ∀ r, (c.perform r).2.answer ≠ .registered true → (c.perform r).1 = c
  size : ∀ r, (c.perform r).2.size = (c.perform r).1.size
  members : ∀ r, (c.perform r).2.members = (c.perform r).1.declarations.map fun d =>
    (d.interfaceName, d.members)

/-- Only a new registration changes the catalogue. -/
theorem perform_of_ne_registered {r : Request} (h : (c.perform r).2.answer ≠ .registered true) :
    (c.perform r).1 = c := by
  cases r with
  | register d =>
    refine register_of_contains ?_
    by_contra hnew
    exact h (by simp [perform, Observation.ofEntries, hnew])
  | get name => rfl
  | contains name => rfl
  | iterate => rfl

/-- What is observed of a request is told by its answer and the table behind it. -/
theorem observed_perform (c : Catalogue) (r : Request) :
    (c.perform r).2 = .ofEntries (c.perform r).2.answer (c.perform r).1.toTable := by
  cases r <;> rfl

/-- A catalogue that agrees with a ledger keeps the first of its declarations of each name. -/
theorem Agrees.keepsFirst {registered : List Declaration}
    (h : Agrees c (registered.map fun d => (d.interfaceName, d))) : KeepsFirst c registered := by
  have hnames : (registered.map fun d => (d.interfaceName, d)).map Prod.fst =
      registered.map (·.interfaceName) := by
    rw [List.map_map]
    rfl
  have hcontains (name : String) : c.contains name = true ↔
      name ∈ registered.map (·.interfaceName) := by
    rw [h.contains_iff, hnames]
  refine ⟨by rw [h.names, hnames], c.distinct, fun name => ?_, hcontains, fun d => ?_,
    fun r => perform_of_ne_registered, fun r => ?_, fun r => ?_⟩
  · rw [h.get?, Harvest.lookup_map_pair, Option.map_id']
  · have hiff := hcontains d.interfaceName
    by_cases hmem : d.interfaceName ∈ registered.map (·.interfaceName)
    · simp [Catalogue.perform, Observation.ofEntries, hmem, hiff.2 hmem]
    · have hnew : c.contains d.interfaceName = false := by simpa [hmem] using hiff
      simp [Catalogue.perform, Observation.ofEntries, hmem, hnew]
  · rw [observed_perform, Observation.ofEntries, toTable, List.length_map, Catalogue.size]
  · rw [observed_perform, Observation.ofEntries, toTable, List.map_map]
    rfl

/-- **Whatever is asked of an empty catalogue in whatever order, it shows what the ledger of all
registrations shows.** So does a table, whose names are those of its declarations. The first
declaration of each name is kept, and as many declarations are held as registrations were the first
of their name. -/
theorem observations_firstWins (rs : List Request) :
    (performAll perform empty rs).2 = (performAll Ledger.perform [] rs).2 ∧
      (performAll performOnTable [] rs).2 = (performAll perform empty rs).2 ∧
      (performAll performOnTable [] rs).1 = (performAll perform empty rs).1.toTable ∧
      (∀ e ∈ (performAll performOnTable [] rs).1, e.1 = e.2.interfaceName) ∧
      KeepsFirst (performAll perform empty rs).1 (registrations rs) ∧
      (performAll perform empty rs).1.size =
        (performAll perform empty rs).2.countP fun o => o.answer = .registered true := by
  obtain ⟨hledger, hagrees⟩ :=
    performAll_related Agrees (fun _ _ r h => h.perform r) agrees_empty rs
  have htogether (t : List (String × Declaration)) (c : Catalogue) (r : Request)
      (h : t = c.toTable) :
      (performOnTable t r).2 = (c.perform r).2 ∧
        (performOnTable t r).1 = (c.perform r).1.toTable := by
    rw [h, performOnTable_toTable]
    exact ⟨rfl, rfl⟩
  obtain ⟨htable, hlast⟩ := performAll_related (fun t (c : Catalogue) => t = c.toTable) htogether
    (s := []) (t := empty) rfl rs
  rw [ledger_eq, List.nil_append] at hagrees
  refine ⟨hledger, htable, hlast, fun e he => ?_, hagrees.keepsFirst, ?_⟩
  · rw [hlast] at he
    obtain ⟨d, -, rfl⟩ := List.mem_map.1 he
    rfl
  · exact (size_performAll empty rs).trans (Nat.zero_add _)

/-- A second declaration of a name is not new and changes nothing. -/
example : (performAll perform empty
      [.register ⟨"IFoo", ["Run"]⟩, .register ⟨"IFoo", ["Stop"]⟩, .get "IFoo"]).2.map (·.answer) =
    [.registered true, .registered false, .found (some ⟨"IFoo", ["Run"]⟩)] := by decide

end MemberHarvest.Catalogue
