import MemberHarvest.Proofs.NamedValues
import MemberHarvest.Proofs.Path.Joined
import MemberHarvest.Proofs.Settings.Fields
import MemberHarvest.Proofs.Settings.Mapping
import MemberHarvest.Proofs.Text.Trimmed

/-!
# Proofs/Settings/Names — the names of the interfaces have a normal form

A name is not empty and has no blank at either end (`IsName`). A text with commas and a list are
brought to names (`isName_of_mem_splitNames`, `isName_of_mem_trimNames`), which trimming leaves as
they are (`trimNames_eq_self_iff`), and names without commas are found again between commas
(`splitNames_intercalate_iff`). A set is not brought to names: its texts are taken as they stand,
blanks and all (`interfaces_normal`, `set_keepsBlanks`).
-/

namespace MemberHarvest.Settings

open Harvest (lookup_cons_eq_ite)
open Outcome

variable {n s : String} {names xs : List String} {layer : Layer} {v : Value} {f g : Field}

/-! ## Names -/

/-- A name: a text that is not empty and neither begins nor ends with a blank. -/
structure IsName (n : String) : Prop where
  ne_nil : n.toList ≠ []
  first : ∀ c, n.toList.head? = some c → Text.isBlank c = false
  last : ∀ c, n.toList.getLast? = some c → Text.isBlank c = false

/-- A name is a text with nothing to trim away and something left. -/
theorem isName_iff : IsName n ↔ n.toList ≠ [] ∧ Text.trim n.toList = n.toList := by
  rw [Text.trim_eq_self_iff]
  constructor
  · rintro ⟨hne, hfirst, hlast⟩
    refine ⟨hne, fun hlength => ?_, fun hne => ?_⟩
    · rw [hfirst _ (by rw [List.head?_eq_getElem?, List.getElem?_eq_getElem hlength])]
      exact Bool.false_ne_true
    · rw [hlast _ (List.getLast?_eq_some_getLast hne)]
      exact Bool.false_ne_true
  · rintro ⟨hne, hfirst, hlast⟩
    refine ⟨hne, fun c hc => ?_, fun c hc => ?_⟩
    · obtain ⟨cs, hcs⟩ := List.head?_eq_some_iff.1 hc
      simp only [hcs] at hfirst
      simpa using hfirst
    · obtain ⟨cs, hcs⟩ := List.getLast?_eq_some_iff.1 hc
      simp only [hcs] at hlast
      simpa using hlast

/-- The trimmed names are those that leave something. -/
theorem mem_trimNames_iff :
    n ∈ trimNames names ↔ n ≠ "" ∧ ∃ m ∈ names, String.ofList (Text.trim m.toList) = n := by
  simp [trimNames, and_comm]

theorem isName_of_mem_trimNames (h : n ∈ trimNames names) : IsName n := by
  obtain ⟨hne, m, -, rfl⟩ := mem_trimNames_iff.1 h
  rw [isName_iff, String.toList_ofList, Text.trim_trim]
  exact ⟨by simpa using hne, rfl⟩

/-- **Trimming leaves names as they are,** and nothing else. A text of blanks is left out, and any
other one loses its blanks at the ends. -/
theorem trimNames_eq_self_iff : trimNames names = names ↔ ∀ n ∈ names, IsName n := by
  constructor
  · intro h n hn
    exact isName_of_mem_trimNames (h.symm ▸ hn)
  · intro h
    have htrim : ∀ n ∈ names, String.ofList (Text.trim n.toList) = id n := by
      intro n hn
      rw [(isName_iff.1 (h n hn)).2, String.ofList_toList, id]
    rw [trimNames, List.map_congr_left htrim, List.map_id, List.filter_eq_self]
    intro n hn
    simpa using (h n hn).ne_nil

/-- The names in a text with commas are its pieces, trimmed. -/
theorem splitNames_eq (s : String) :
    splitNames s = trimNames ((s.toList.splitOnP (· == ',')).map String.ofList) := by
  have htrim : ((fun n : String => String.ofList (Text.trim n.toList)) ∘ String.ofList) =
      String.ofList ∘ Text.trim := by
    funext cs
    simp
  have hempty : ((fun n : String => !n.isEmpty) ∘ String.ofList) = fun cs :
      List Char => !cs.isEmpty := by
    funext cs
    cases cs <;> simp
  rw [splitNames, Text.trimmedPieces, trimNames, List.map_map, htrim, ← List.map_map, ← hempty,
    ← List.filter_map]

/-- A part between commas is a name and holds no comma. -/
theorem isName_of_mem_splitNames (h : n ∈ splitNames s) : IsName n ∧ ',' ∉ n.toList := by
  rw [splitNames_eq] at h
  refine ⟨isName_of_mem_trimNames h, fun hcomma => ?_⟩
  obtain ⟨-, m, hm, rfl⟩ := mem_trimNames_iff.1 h
  obtain ⟨cs, hcs, rfl⟩ := List.mem_map.1 hm
  rw [String.toList_ofList, String.toList_ofList] at hcomma
  exact absurd (Text.forall_mem_splitOnP _ _ cs hcs ',' (Text.mem_of_mem_trim hcomma)) (by decide)

/-- Trimming leaves the names of a text with commas as they are. -/
theorem trimNames_splitNames (s : String) : trimNames (splitNames s) = splitNames s :=
  trimNames_eq_self_iff.2 fun _ hn => (isName_of_mem_splitNames hn).1

/-- **Names that are joined by commas are split into the same names.** -/
theorem splitOnP_intercalate (h : ∀ x ∈ xs, ',' ∉ x.toList) (hne : xs ≠ []) :
    (",".intercalate xs).toList.splitOnP (· == ',') = xs.map String.toList := by
  induction xs with
  | nil => exact absurd rfl hne
  | cons x xs ih =>
    obtain ⟨hx, hxs⟩ := List.forall_mem_cons.1 h
    have hsplit : x.toList.splitOnP (· == ',') = [x.toList] :=
      List.splitOnP_eq_singleton fun c hc => beq_eq_false_iff_ne.2 fun heq => hx (heq ▸ hc)
    cases xs with
    | nil => rw [String.intercalate_singleton, hsplit, List.map_singleton]
    | cons y ys =>
      have htext : (",".intercalate (x :: y :: ys)).toList =
          x.toList ++ ',' :: (",".intercalate (y :: ys)).toList := by
        rw [String.intercalate_cons_cons, String.toList_append, String.toList_append,
          List.append_assoc]
        rfl
      rw [htext, List.splitOnP_append_cons _ _ (by decide), hsplit, ih hxs (List.cons_ne_nil y ys)]
      rfl

/-- **Names with commas between them are found again** if none of them holds a comma, and other
texts are not. So the two ways to write interfaces agree on names. -/
theorem splitNames_intercalate_iff :
    splitNames (",".intercalate xs) = xs ↔ ∀ x ∈ xs, IsName x ∧ ',' ∉ x.toList := by
  constructor
  · intro h x hx
    exact isName_of_mem_splitNames (h.symm ▸ hx)
  · intro h
    rcases eq_or_ne xs [] with rfl | hne
    · rfl
    rw [splitNames_eq, splitOnP_intercalate (fun x hx => (h x hx).2) hne, List.map_map]
    have hback : String.ofList ∘ String.toList = id := funext fun _ => String.ofList_toList
    rw [hback, List.map_id]
    exact trimNames_eq_self_iff.2 fun x hx => (h x hx).1

/-! ## Interfaces -/

/-- **The interfaces are names,** unless they are given as a set: the texts of a set are taken as
they stand. Texts and lists are trimmed, and a set goes past that step. -/
theorem areNames_iff_of_readInterfaces {v? : Option Value} (h : readInterfaces v? = .ok names) :
    (∀ n ∈ names, IsName n) ↔ ∀ items, v? = some (.set items) →
      ∀ n ∈ elementTexts items, IsName n := by
  rw [readInterfaces.eq_def] at h
  split at h
  · cases h
  · obtain rfl := Except.ok.inj h
    refine iff_of_true (fun n hn => (isName_of_mem_splitNames hn).1) fun items hitems => ?_
    cases hitems
  · obtain rfl := Except.ok.inj h
    refine iff_of_true (fun n hn => isName_of_mem_trimNames hn) fun items hitems => ?_
    cases hitems
  · rename_i items
    rw [readElements] at h
    split at h
    · obtain rfl := Except.ok.inj h
      refine ⟨fun hnames items' hitems => ?_, fun hnames => hnames items rfl⟩
      obtain rfl : items = items' := by simpa using hitems
      exact hnames
    · cases h
  · cases h

theorem readInterfaces_texts (names : List String) :
    readInterfaces (some (.list (names.map .text))) = .ok (trimNames names) := by
  have hplain : Value.plain ∘ Value.text = id := rfl
  rw [readInterfaces, List.map_map, hplain, List.map_id]

/-- What is put in front of a layer under the key of a field is what that field takes, and no other
does. -/
theorem held?_cons (f g : Field) (v : Value) (layer : Layer) :
    held? ((f.key, v) :: layer) g = if g = f then some v else held? layer g := by
  have hsecond : (g.alias?.bind fun second => List.lookup second ((f.key, v) :: layer)) =
      g.alias?.bind fun second => layer.lookup second := by
    refine Option.bind_congr fun second hsecond => ?_
    rw [lookup_cons_eq_ite, if_neg (Field.key_ne_of_alias? hsecond f).symm]
  rw [held?, hsecond, lookup_cons_eq_ite]
  by_cases hg : g = f
  · rw [if_pos (congrArg Field.key hg), if_pos hg, Option.some_or]
  · rw [if_neg (mt Field.key_injective hg), if_neg hg, held?]

/-- **A text with commas and the list of its names are read alike.** So is the failure, where there
is one. -/
theorem readInterfaces_text (s : String) :
    readInterfaces (some (.text s)) = readInterfaces (some (.list ((splitNames s).map .text))) := by
  rw [readInterfaces_texts, trimNames_splitNames, readInterfaces]

/-- **Interfaces that are given again as a list are trimmed;** all else stays. The list is put in
front of the layer, where it hides what was given before. -/
theorem ofLayer_again {s : Settings} (h : ofLayer layer = .ok s) :
    ofLayer ((Field.interfaces.key, .list (s.interfaces.map .text)) :: layer) =
      .ok { s with interfaces := trimNames s.interfaces } := by
  rw [ofLayer, mapError_eq_ok_iff, read_eq_ok_iff] at h ⊢
  intro f
  rw [held?_cons]
  split
  · rename_i hf
    subst hf
    exact readInterfaces_texts s.interfaces
  · rename_i hf
    rw [h f]
    cases f <;> first | rfl | exact absurd rfl hf

/-- **The interfaces of settings are names,** unless they are given as a set with a text that is
none. A text with commas gives the settings that the list of its names gives, names without commas
are found again between commas, and where the interfaces of settings are given again as a list, they
are trimmed, and so the same just where all of them are names. -/
theorem interfaces_normal (raw : Field → Option Value) (layer : Layer) (v : String)
    (xs : List String) :
    (∀ s, read raw = .ok s → ((∀ n ∈ s.interfaces, IsName n) ↔
      ∀ items, raw .interfaces = some (.set items) → ∀ n ∈ elementTexts items, IsName n)) ∧
    ofLayer ((Field.interfaces.key, .text v) :: layer) =
      ofLayer ((Field.interfaces.key, .list ((splitNames v).map .text)) :: layer) ∧
    (splitNames (",".intercalate xs) = xs ↔ ∀ x ∈ xs, IsName x ∧ ',' ∉ x.toList) ∧
    ∀ s, ofLayer layer = .ok s →
      ofLayer ((Field.interfaces.key, .list (s.interfaces.map .text)) :: layer) =
          .ok { s with interfaces := trimNames s.interfaces } ∧
        (trimNames s.interfaces = s.interfaces ↔ ∀ n ∈ s.interfaces, IsName n) := by
  refine ⟨fun s h => areNames_iff_of_readInterfaces (read_eq_ok_iff.1 h .interfaces), ?_,
    splitNames_intercalate_iff, fun s h => ⟨ofLayer_again h, trimNames_eq_self_iff⟩⟩
  rw [ofLayer, ofLayer]
  refine congrArg _ (read_congr fun f => ?_)
  rw [held?_cons, held?_cons]
  split
  · rename_i hf
    subst hf
    exact readInterfaces_text v
  · rfl

/-- Interfaces that are given as a set with blanks around a name. -/
def blankSet : Layer :=
  [("solution", .text "S"), ("output", .text "o.json"), ("interfaces", .set [.text " IFoo "])]

/-- A set keeps its blanks, which a list in its place does not. -/
theorem set_keepsBlanks :
    (¬ ∀ layer s, ofLayer layer = .ok s → ∀ n ∈ s.interfaces, IsName n) ∧
      ¬ ∀ layer s, ofLayer layer = .ok s →
        ofLayer ((Field.interfaces.key, .list (s.interfaces.map .text)) :: layer) = .ok s := by
  have hset : ofLayer blankSet =
      .ok ⟨"S", "o.json", [" IFoo "], [], "utf-8-sig", false, false, 1, "INFO"⟩ := by
    decide +kernel
  refine ⟨fun h => ?_, fun h => ?_⟩
  · have hname := (h blankSet _ hset " IFoo " (by simp)).first ' ' (by decide)
    exact absurd hname (by decide)
  · have hagain := (ofLayer_again hset).symm.trans (h blankSet _ hset)
    exact absurd hagain (by decide +kernel)

end MemberHarvest.Settings
