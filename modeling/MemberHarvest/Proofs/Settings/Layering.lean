import MemberHarvest.Proofs.NamedValues
import MemberHarvest.Proofs.Settings.Fields
import MemberHarvest.Proofs.Settings.Mapping

/-!
# Proofs/Settings/Layering — options over a file, in one layer and field by field

Options can be laid over a file in one layer that everything is written into (`overlaid`): second
keys are renamed first, then the options that count as given are written over what is there, and at
last a null list of patterns becomes an empty one. Every field finds in that layer just what both
layers hold under its own keys (`held?_overlaid`), and the settings are those of that layer
(`ofLayers_eq_ofLayer`). So a field comes to the same whatever stands under other keys
(`layers_fieldwise`).
-/

namespace MemberHarvest.Settings

open Harvest (insert lookup_insert lookup_cons_eq_ite)
open Outcome

variable {file file' options options' layer : Layer} {f : Field}

/-! ## Writing into one layer -/

/-- A layer without a key. -/
def without (layer : Layer) (key : String) : Layer := layer.filter fun e => e.1 != key

/-- What stands under the second key of a field is moved under its own key, unless something stands
there already; the second key goes in any case. -/
def renamed (layer : Layer) (f : Field) : Layer :=
  match f.alias? with
  | none => layer
  | some second =>
    match layer.lookup second, layer.lookup f.key with
    | some v, none => insert (without layer second) f.key v
    | _, _ => without layer second

/-- An option is written over what is there, if it counts as given. -/
def written (layer : Layer) (option : String × Value) : Layer :=
  if isGiven option.2 then insert layer option.1 option.2 else layer

/-- Patterns to ignore that are missing or null are none. -/
def withPatterns (layer : Layer) : Layer :=
  match layer.lookup Field.ignore.key with
  | none | some .null => insert layer Field.ignore.key (.list [])
  | some _ => layer

/-- The one layer that comes of a file and the options over it. -/
def overlaid (file options : Layer) : Layer :=
  withPatterns (options.foldl written (renamed (renamed file .solution) .interfaces))

theorem lookup_without (layer : Layer) (key q : String) :
    (without layer key).lookup q = if q = key then none else layer.lookup q := by
  rw [without, FileTree.lookup_filter layer (· != key) q]
  by_cases hq : q = key <;> simp [hq]

/-- **Renaming moves what a field holds under its own key.** The second key is gone afterwards, also
where the own key takes precedence. -/
theorem lookup_renamed {second : String} (h : f.alias? = some second) (layer : Layer) (q : String) :
    (renamed layer f).lookup q = if q = second then none else if q = f.key then held? layer f
      else layer.lookup q := by
  have hne : f.key ≠ second := Field.key_ne_of_alias? h f
  rw [renamed, held?, h, Option.bind_some]
  cases hsecond : layer.lookup second with
  | none => grind [lookup_without]
  | some v =>
    cases hmain : layer.lookup f.key with
    | none => grind [lookup_without, lookup_insert]
    | some u => grind [lookup_without]

/-- Writing an option affects its key only, and only if the option is given. -/
theorem lookup_written (layer : Layer) (option : String × Value) (q : String) :
    (written layer option).lookup q =
    if q = option.1 ∧ isGiven option.2 = true then some option.2 else layer.lookup q := by
  rw [written]
  split
  · rename_i hgiven
    simp [lookup_insert, hgiven]
  · rename_i hgiven
    simp [hgiven]

/-- **An option that counts as given hides what is under its key.** This needs the keys to be
different ones, as the last of two options would count. -/
theorem lookup_foldl_written (hkeys : (options.map Prod.fst).Nodup) (layer : Layer) (q : String) :
    (options.foldl written layer).lookup q = (given? options q).or (layer.lookup q) := by
  induction options generalizing layer with
  | nil => rfl
  | cons option options ih =>
    obtain ⟨hnew, hkeys⟩ := List.nodup_cons.1 hkeys
    rw [List.foldl_cons, ih hkeys, lookup_written, given?, given?, lookup_cons_eq_ite]
    by_cases hq : q = option.1
    · subst hq
      have hnone : options.lookup option.1 = none :=
        List.lookup_eq_none_iff.2 fun e he => bne_iff_ne.2 fun heq =>
          hnew (List.mem_map.2 ⟨e, he, heq.symm⟩)
      cases hgiven : isGiven option.2 <;> simp [hnone, hgiven, Option.filter_some]
    · simp [hq]

/-- The patterns are a list behind this step, be it an empty one. -/
theorem lookup_withPatterns (layer : Layer) (q : String) : (withPatterns layer).lookup q =
    if q = Field.ignore.key then some (((layer.lookup q).filter isGiven).getD (.list []))
      else layer.lookup q := by
  rw [withPatterns]
  split
  · rename_i hnone
    rw [lookup_insert]
    split
    · rename_i hq
      rw [hq, hnone]
      rfl
    · rfl
  · rename_i hnull
    rw [lookup_insert]
    split
    · rename_i hq
      rw [hq, hnull]
      rfl
    · rfl
  · rename_i v hnull hv
    split
    · rename_i hq
      rw [hq, hv]
      cases hgiven : isGiven v with
      | true => simp [hgiven, Option.filter_some]
      | false =>
        rcases isGiven_eq_false_iff.1 hgiven with rfl | rfl
        · exact absurd rfl hnull
        · rfl
    · rfl

/-! ## What a field finds in the one layer -/

/-- A field is found under its key once the aliases are renamed. -/
theorem lookup_renamed_key (file : Layer) (f : Field) :
    (renamed (renamed file .solution) .interfaces).lookup f.key = held? file f := by
  have hsolution := lookup_renamed (f := .solution) rfl file
  have hinterfaces := lookup_renamed (f := .interfaces) rfl (renamed file .solution)
  cases f <;> simp [hinterfaces, hsolution, held?, Field.key, Field.alias?]

theorem lookup_renamed_alias {second : String} (h : f.alias? = some second) (file : Layer) :
    (renamed (renamed file .solution) .interfaces).lookup second = none := by
  have hsolution := lookup_renamed (f := .solution) rfl file
  have hinterfaces := lookup_renamed (f := .interfaces) rfl (renamed file .solution)
  cases f <;> cases h <;> simp [hinterfaces, hsolution, Field.key]

/-- **In the one layer a field finds what both layers hold for it.** Only the patterns to ignore are
always there. A list of no patterns does not count as given, so it leaves those of the file. -/
theorem held?_overlaid (hkeys : (options.map Prod.fst).Nodup) (file : Layer) (f : Field) :
    held? (overlaid file options) f =
      if f = .ignore then some (((merged file options f).filter isGiven).getD (.list []))
        else merged file options f := by
  have hmain : (overlaid file options).lookup f.key =
      if f = .ignore
        then some ((((given? options f.key).or (held? file f)).filter isGiven).getD (.list []))
      else (given? options f.key).or (held? file f) := by
    rw [overlaid, lookup_withPatterns, lookup_foldl_written hkeys, lookup_renamed_key]
    exact if_congr ⟨Field.key_injective, congrArg Field.key⟩ rfl rfl
  have hsecond : (f.alias?.bind fun second => (overlaid file options).lookup second) =
      f.alias?.bind (given? options) := by
    refine Option.bind_congr fun second hsecond => ?_
    rw [overlaid, lookup_withPatterns, lookup_foldl_written hkeys,
      lookup_renamed_alias hsecond, Option.or_none,
      if_neg (Field.key_ne_of_alias? hsecond .ignore).symm]
  have hheld : held? (overlaid file options) f =
      ((overlaid file options).lookup f.key).or (f.alias?.bind fun second =>
        (overlaid file options).lookup second) := rfl
  rw [hheld, hmain, hsecond, merged]
  split
  · rename_i hf
    subst hf
    rw [Option.some_or]
    exact congrArg some
      (congrArg (Option.getD · _) (congrArg (Option.filter isGiven) Option.or_none.symm))
  · rfl

/-- What comes of a field where options are laid over a file. -/
def fieldOf (file options : Layer) (f : Field) : Checked f.Content :=
  readField f (held? (overlaid file options) f)

/-- Null, an empty list and nothing at all are read alike as patterns to ignore. -/
theorem fieldOf_eq (hkeys : (options.map Prod.fst).Nodup) (file : Layer) (f : Field) :
    fieldOf file options f = readField f (ignoreNull (merged file options) f) := by
  rw [fieldOf, held?_overlaid hkeys]
  cases f with
  | ignore =>
    rw [if_pos rfl, ignoreNull]
    cases hmerged : merged file options .ignore with
    | none => rfl
    | some v =>
      cases hgiven : isGiven v with
      | true =>
        rw [Option.filter_some, if_pos hgiven]
        cases v <;> first | rfl | cases hgiven
      | false =>
        rcases isGiven_eq_false_iff.1 hgiven with rfl | rfl <;> rfl
  | _ => rfl

/-- **The settings of both layers are those of the one layer.** So what is to be shown of layering
is shown of one layer. -/
theorem ofLayers_eq_ofLayer (hkeys : (options.map Prod.fst).Nodup) (file : Layer) :
    ofLayers file options = ofLayer (overlaid file options) := by
  rw [ofLayers, ofLayer, read_congr fun f => (fieldOf_eq hkeys file f).symm]

/-! ## Field by field -/

/-- Two layers hold the same for a field, whatever they hold under the keys of others. -/
def AgreeOn (f : Field) (layer layer' : Layer) : Prop :=
  ∀ key, key = f.key ∨ f.alias? = some key → layer.lookup key = layer'.lookup key

/-- **What a field merges to depends on its own keys only.** Its own keys are the main one and the
second one, if it has one. -/
theorem merged_congr (hfile : AgreeOn f file file') (hoptions : AgreeOn f options options') :
    merged file options f = merged file' options' f := by
  have hgiven {key : String} (hkey : key = f.key ∨ f.alias? = some key) :
      given? options key = given? options' key := by
    rw [given?, given?, hoptions key hkey]
  have hsecond : (f.alias?.bind fun key => file.lookup key) = f.alias?.bind fun key =>
      file'.lookup key :=
    Option.bind_congr fun key hkey => hfile key (.inr hkey)
  rw [merged, merged, held?, held?, hgiven (.inl rfl), hfile _ (.inl rfl), hsecond,
    Option.bind_congr fun key hkey => hgiven (.inr hkey)]

/-- **Layering is per field.** Where options under the keys of fields are laid over a file, each
field takes its value from the option, if it counts as given, else from its own key in the file,
else from its second key there, and no value counts as no patterns to ignore. The settings exist
just where no field complains, and hold what the fields come to; or the complaints are those of the
fields, one after another. And a field comes to the same over every file and under all options that
hold the same for it. -/
theorem layers_fieldwise (hkeys : (options.map Prod.fst).Nodup)
    (hmain : ∀ option ∈ options, ∃ f : Field, option.1 = f.key) :
    ofLayers file options = ofLayer (overlaid file options) ∧
    (∀ f, held? (overlaid file options) f =
      let value := (given? options f.key).or
        ((file.lookup f.key).or (f.alias?.bind fun second => file.lookup second))
      if f = .ignore then some ((value.filter isGiven).getD (.list [])) else value) ∧
    (∀ s, ofLayers file options = .ok s ↔ ∀ f, fieldOf file options f = .ok (s.content f)) ∧
    ((∃ s, ofLayers file options = .ok s) ↔ ∀ f, (fieldOf file options f).complaints = []) ∧
    (∀ e, ofLayers file options = .error e → ∃ es, e = .invalid es ∧
      es = (fields.flatMap fun f => (fieldOf file options f).complaints) ∧
      ∀ f, (es.filter fun c => c.field = f) = (fieldOf file options f).complaints) ∧
    ∀ (f : Field) (file' options' : Layer), (options'.map Prod.fst).Nodup → AgreeOn f file file' →
      AgreeOn f options options' → fieldOf file' options' f = fieldOf file options f := by
  have hone := ofLayers_eq_ofLayer hkeys file
  refine ⟨hone, fun f => ?_, fun s => ?_, ?_, fun e he => ?_,
    fun f file' options' hkeys' hfile hoptions => ?_⟩
  · rw [held?_overlaid hkeys, merged_of_keys hmain, held?]
  · rw [hone, ofLayer, mapError_eq_ok_iff, read_eq_ok_iff]
    rfl
  · simp only [hone, ofLayer, mapError_eq_ok_iff, exists_read_eq_ok_iff, fieldOf,
      complaints_readField_eq_nil_iff]
  · rw [hone, ofLayer, mapError_eq_error_iff] at he
    obtain ⟨es, hes, rfl⟩ := he
    refine ⟨es, rfl, (read_eq_error_iff.1 hes).1, fun f => ?_⟩
    have hfilter := filter_complaints_read (held? (overlaid file options)) f
    rwa [hes] at hfilter
  · rw [fieldOf, fieldOf, held?_overlaid hkeys', held?_overlaid hkeys, merged_congr hfile hoptions]

/-! ## A file that hides its own solution -/

/-- A file in which a null key hides the second one. -/
def hidingFile : Layer :=
  [("solution", .null), ("solution_file", .text "S.sln"),
    ("inspect_interfaces", .text "IFoo, IBar"), ("ignore", .null), ("max_workers", .text "many")]

/-- Options that name an output and a number of workers, but no interfaces. -/
def fewOptions : Layer :=
  [("output", .text "o.json"), ("interfaces", .list []), ("max_workers", .integer 3)]

/-- A file in which a null solution hides the one under the alias. The solution stays null, and so
the settings are refused, while the other fields are read. -/
theorem layers_fieldwise_hiddenSolution :
    (fewOptions.map Prod.fst).Nodup ∧ (∀ option ∈ fewOptions, ∃ f : Field, option.1 = f.key) ∧
      held? (overlaid hidingFile fewOptions) .solution = some .null ∧
      held? (overlaid hidingFile fewOptions) .interfaces = some (.text "IFoo, IBar") ∧
      fieldOf hidingFile fewOptions .maxWorkers = .ok (3 : Nat) ∧ ¬ ∃ s,
        ofLayers hidingFile fewOptions = .ok s := by
  have hkeys : (fewOptions.map Prod.fst).Nodup := by decide
  have hmain : ∀ option ∈ fewOptions, ∃ f : Field, option.1 = f.key := by
    simp only [fewOptions, List.forall_mem_cons, List.not_mem_nil, false_implies,
      implies_true, and_true]
    exact ⟨⟨.output, rfl⟩, ⟨.interfaces, rfl⟩, ⟨.maxWorkers, rfl⟩⟩
  obtain ⟨-, hvalue, -, hok, -, hsame⟩ := @layers_fieldwise hidingFile fewOptions hkeys hmain
  refine ⟨hkeys, hmain, hvalue .solution, hvalue .interfaces, ?_, fun h => ?_⟩
  · exact (hsame .maxWorkers [("max_workers", .text "many")]
      [("max_workers", .integer 3)] (by decide)
      (by rintro _ (rfl | ⟨⟨⟩⟩); rfl) (by rintro _ (rfl | ⟨⟨⟩⟩); rfl)).symm
  · have hnone := hok.1 h .solution
    rw [fieldOf, hvalue .solution] at hnone
    cases hnone

end MemberHarvest.Settings
