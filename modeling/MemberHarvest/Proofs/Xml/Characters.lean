import MemberHarvest.Proofs.Outcome
import MemberHarvest.Xml.Document

/-!
# Proofs/Xml/Characters — the values of attributes are legal text

A value is put together from the characters that it is written with, from references, and from the
texts of entities. All of them are checked on the way, and so are the values that a document type
declares. So whatever a document says, the values of its attributes hold none but the characters
that a document may hold (`hasLegalValues_of_elements`).
-/

namespace MemberHarvest.Xml

/-- Whether a text holds none but the characters that a document may hold. -/
def IsLegal (cs : List Char) : Prop := ∀ c ∈ cs, isXmlChar c = true

/-- Whether the characters among pieces are legal. -/
def ArePiecesLegal (ps : List Piece) : Prop := ∀ c, .char c ∈ ps → isXmlChar c = true

/-! ## Values -/

/-- A character that is given by its number is legal. -/
theorem isXmlChar_of_xmlChar? {n : Nat} {c : Char} (h : xmlChar? n = some c) :
    isXmlChar c = true := by
  rw [xmlChar?] at h
  split at h
  · rename_i hn
    cases h
    exact hn.2
  · simp at h

theorem isXmlChar_of_ofReference? {cs : List Char} {c : Char}
    (h : Piece.ofReference? cs = some (.char c)) :
    isXmlChar c = true := by
  unfold Piece.ofReference? at h
  split at h
  · split at h
    · simp at h
    · simp only [Option.bind_eq_bind, Option.bind_eq_some_iff, Option.pure_def, Option.some_inj,
        Piece.char.injEq] at h
      obtain ⟨n, -, d, hd, rfl⟩ := h
      exact isXmlChar_of_xmlChar? hd
  · split at h
    · simp at h
    · simp only [Option.bind_eq_bind, Option.bind_eq_some_iff, Option.pure_def, Option.some_inj,
        Piece.char.injEq] at h
      obtain ⟨n, -, d, hd, rfl⟩ := h
      exact isXmlChar_of_xmlChar? hd
  · split at h <;> simp at h

/-- Pieces are legal where the characters outside references are. -/
theorem arePiecesLegal_of_piecesFrom {plain? : Char → Option Piece}
    (hplain : ∀ c d, plain? c = some (.char d) → isXmlChar d = true)
    {open? : Option (List Char)} {cs : List Char}
    {ps : List Piece} (h : piecesFrom plain? open? cs = some ps) : ArePiecesLegal ps := by
  have hcons {p : Piece} {ps : List Piece} (hp : ∀ d, p = .char d → isXmlChar d = true)
      (hps : ArePiecesLegal ps) :
      ArePiecesLegal (p :: ps) := by
    intro c hc
    rcases List.mem_cons.1 hc with rfl | hc
    · exact hp c rfl
    · exact hps c hc
  fun_induction piecesFrom plain? open? cs generalizing ps with
  | case1 => simp at h
  | case2 =>
    cases h
    exact fun c hc => absurd hc List.not_mem_nil
  | case3 cs before ih =>
    simp only [Option.bind_eq_bind, Option.bind_eq_some_iff, Option.pure_def, Option.some_inj] at h
    obtain ⟨p, hp, ps, hps, rfl⟩ := h
    exact hcons (fun d hd => isXmlChar_of_ofReference? (hd ▸ hp)) (ih hps)
  | case4 c cs before _ ih => exact ih h
  | case5 cs ih => exact ih h
  | case6 c cs _ ih =>
    simp only [Option.bind_eq_bind, Option.bind_eq_some_iff, Option.pure_def, Option.some_inj] at h
    obtain ⟨p, hp, ps, hps, rfl⟩ := h
    exact hcons (fun d hd => hplain c d (hd ▸ hp)) (ih hps)

/-- What is cut into pieces is legal as they are. -/
theorem arePiecesLegal_of_attributePieces? {cs : List Char} {ps : List Piece}
    (h : attributePieces? cs = some ps) :
    ArePiecesLegal ps := by
  refine arePiecesLegal_of_piecesFrom (fun c d hd => ?_) h
  rw [attributeChar?] at hd
  split at hd
  · simp at hd
  · rename_i hc
    obtain rfl : (if isSpace c then ' ' else c) = d := by simpa using hd
    split
    · decide
    · simpa using (not_or.1 hc).2

/-- What steps give in turn is given by one of them. -/
theorem exists_of_mem_mapM {α β : Type} {f : α → Option β} {as : List α} {bs : List β}
    (h : as.mapM f = some bs) {b : β} (hb : b ∈ bs) : ∃ a ∈ as, f a = some b := by
  induction as generalizing bs with
  | nil =>
    obtain rfl : [] = bs := by simpa using h
    exact absurd hb List.not_mem_nil
  | cons a as ih =>
    simp only [List.mapM_cons, Option.bind_eq_bind, Option.bind_eq_some_iff, Option.pure_def,
      Option.some_inj] at h
    obtain ⟨b', hb', bs, hbs, rfl⟩ := h
    rcases List.mem_cons.1 hb with rfl | hb
    · exact ⟨a, List.mem_cons_self, hb'⟩
    · obtain ⟨a', ha', h⟩ := ih hbs hb
      exact ⟨a', List.mem_cons_of_mem _ ha', h⟩

namespace Declared

variable {d : Declared}

theorem isXmlChar_of_predefined? {name : String} {c : Char} (h : predefined? name = some c) :
    isXmlChar c = true := by
  unfold predefined? at h
  split at h
  all_goals first
    | (cases h; decide)
    | simp at h

/-- **Legal pieces stand for a legal text,** at any depth of entities. The induction is on the
depth, and an entity is cut into legal pieces when it is declared. -/
theorem isLegal_of_charsWithin {depth : Nat} {ps : List Piece} {cs : List Char}
    (hps : ArePiecesLegal ps) (h : d.charsWithin depth ps = some cs) : IsLegal cs := by
  induction depth generalizing ps cs with
  | zero => simp [charsWithin] at h
  | succ depth ih =>
    rw [charsWithin, Option.map_eq_some_iff] at h
    obtain ⟨css, hcss, rfl⟩ := h
    refine List.forall_mem_flatten.2 fun cs hmem => ?_
    obtain ⟨p, hp, hcs⟩ := exists_of_mem_mapM hcss hmem
    cases p with
    | char c =>
      obtain rfl : [c] = cs := by simpa using hcs
      exact List.forall_mem_singleton.2 (hps c hp)
    | entity n =>
      dsimp only at hcs
      split at hcs
      · rename_i c hc
        obtain rfl : [c] = cs := by simpa using hcs
        exact List.forall_mem_singleton.2 (isXmlChar_of_predefined? hc)
      split at hcs
      · obtain ⟨inner, hinner, hcs⟩ := Option.bind_eq_some_iff.1 hcs
        exact ih (arePiecesLegal_of_attributePieces? hinner) hcs
      · simp at hcs
      split at hcs
      · simp at hcs
      · obtain rfl : [] = cs := by simpa using hcs
        exact List.forall_mem_nil _

/-- The text of legal pieces is legal, whatever entities stand in them. -/
theorem isLegal_of_chars? {ps : List Piece} {cs : List Char} (hps : ArePiecesLegal ps)
    (h : d.chars? ps = some cs) :
    IsLegal cs := by
  rw [chars?] at h
  split at h
  · exact isLegal_of_charsWithin hps h
  · simp at h

/-- A character of joined texts is a separator or belongs to one of them. -/
theorem mem_intercalate {c d : Char} {css : List (List Char)} (h : c ∈ [d].intercalate css) :
    c = d ∨ ∃ cs ∈ css, c ∈ cs := by
  obtain ⟨part, hpart, hc⟩ := List.mem_flatten.1 h
  induction css with
  | nil => simp at hpart
  | cons cs css ih =>
    cases css with
    | nil =>
      obtain rfl : part = cs := by simpa using hpart
      exact .inr ⟨part, List.mem_cons_self, hc⟩
    | cons cs' css =>
      rw [List.intersperse_cons_cons, List.mem_cons, List.mem_cons] at hpart
      rcases hpart with rfl | rfl | hpart
      · exact .inr ⟨part, List.mem_cons_self, hc⟩
      · exact .inl (List.mem_singleton.1 hc)
      · refine (ih (List.mem_flatten.2 ⟨part, hpart, hc⟩) hpart).imp_right ?_
        rintro ⟨cs', hcs', hc⟩
        exact ⟨cs', List.mem_cons_of_mem _ hcs', hc⟩

theorem isLegal_compress {cs : List Char} (h : IsLegal cs) : IsLegal (compress cs) := by
  intro c hc
  rcases mem_intercalate hc with rfl | ⟨piece, hpiece, hc⟩
  · decide
  · exact h c (Text.mem_of_mem_splitOnP (List.mem_filter.1 hpiece).1 hc)

/-! ## Declared values -/

/-- Whether the values that are declared are legal. -/
def HasLegalValues (d : Declared) : Prop := ∀ a ∈ d.attributes, ∀ v, a.value = some v → IsLegal v

theorem hasLegalValues_none : Declared.none.HasLegalValues := List.forall_mem_nil _

theorem HasLegalValues.addEntity (h : d.HasLegalValues) (name : String)
    (text? : Option (List Char)) :
    (d.addEntity name text?).HasLegalValues := by
  rw [Declared.addEntity]
  split <;> exact h

theorem isLegal_of_defaultValue? {a b : DeclaredAttribute} (h : d.defaultValue? a = some b) :
    ∀ v, b.value = some v → IsLegal v := by
  rw [defaultValue?] at h
  split at h
  · rename_i hvalue
    obtain rfl : a = b := by simpa using h
    intro v hv
    cases hvalue.symm.trans hv
  · simp only [Option.bind_eq_bind, Option.bind_eq_some_iff, Option.pure_def, Option.some_inj] at h
    obtain ⟨ps, hps, value, hvalue, rfl⟩ := h
    have hlegal := isLegal_of_chars? (arePiecesLegal_of_attributePieces? hps) hvalue
    intro v hv
    rw [← Option.some.inj hv]
    split
    · exact hlegal
    · exact isLegal_compress hlegal

theorem HasLegalValues.withAttributes (h : d.HasLegalValues)
    {as : List DeclaredAttribute} {d' : Declared} (hd' : d.withAttributes as = some d') :
    d'.HasLegalValues := by
  induction as generalizing d with
  | nil =>
    obtain rfl : d = d' := by simpa [Declared.withAttributes] using hd'
    exact h
  | cons a as ih =>
    simp only [Declared.withAttributes, List.foldlM_cons, Option.bind_eq_bind,
      Option.bind_eq_some_iff, Option.pure_def, Option.some_inj] at hd'
    obtain ⟨_, ⟨b, hb, rfl⟩, hd'⟩ := hd'
    refine ih (d := d.addAttribute b) ?_ hd'
    rw [addAttribute]
    split
    · exact h
    · exact List.forall_mem_append.2 ⟨h, List.forall_mem_singleton.2 (isLegal_of_defaultValue? hb)⟩

theorem HasLegalValues.withEntity (h : d.HasLegalValues) {ms : List DoctypeMark} {d' : Declared}
    (hd' : d.withEntity ms = some d') : d'.HasLegalValues := by
  unfold Declared.withEntity at hd'
  split at hd'
  · obtain ⟨text, -, hd'⟩ := Option.bind_eq_some_iff.1 hd'
    exact Option.some.inj hd' ▸ h.addEntity _ _
  · obtain ⟨text, -, hd'⟩ := Option.bind_eq_some_iff.1 hd'
    exact Option.some.inj hd' ▸ h
  · split at hd'
    · exact Option.some.inj hd' ▸ h
    · simp at hd'
  · split at hd'
    · exact Option.some.inj hd' ▸ h.addEntity _ _
    · exact Option.some.inj hd' ▸ h.addEntity _ _
    · simp at hd'
  · simp at hd'

theorem HasLegalValues.withDeclaration (h : d.HasLegalValues) {keyword : String}
    {body : List DoctypeMark} {d' : Declared} (hd' : d.withDeclaration keyword body = some d') :
    d'.HasLegalValues := by
  unfold Declared.withDeclaration at hd'
  split at hd'
  · exact h.withEntity hd'
  · split at hd'
    · obtain ⟨as, -, hd'⟩ := Option.bind_eq_some_iff.1 hd'
      exact h.withAttributes hd'
    · simp at hd'
  · split at hd'
    · exact Option.some.inj hd' ▸ h
    · simp at hd'
  · split at hd'
    · exact Option.some.inj hd' ▸ h
    · simp at hd'
  · simp at hd'

/-- **Each declaration leaves legal values,** so a subset does. The induction is on the marks of the
subset. -/
theorem HasLegalValues.withSubset (h : d.HasLegalValues) {standalone heeded : Bool}
    {open? : Option (String × List DoctypeMark)} {ms : List DoctypeMark} {d' : Declared}
    (hd' : withSubset standalone d heeded open? ms = some d') : d'.HasLegalValues := by
  induction ms generalizing d heeded open? with
  | nil => simp [Declared.withSubset] at hd'
  | cons m ms ih =>
    rw [Declared.withSubset.eq_def] at hd'
    dsimp only at hd'
    split at hd'
    · exact ih h hd'
    · exact ih h hd'
    · exact ih (d := { d with strict := standalone }) h hd'
    · split at hd'
      · exact Option.some.inj hd' ▸ h
      · simp at hd'
    · simp at hd'
    · split at hd'
      · obtain ⟨next, hnext, hd'⟩ := Option.bind_eq_some_iff.1 hd'
        exact ih (h.withDeclaration hnext) hd'
      · obtain ⟨next, hnext, hd'⟩ := Option.bind_eq_some_iff.1 hd'
        obtain ⟨_, -, rfl⟩ := Option.map_eq_some_iff.1 hnext
        exact ih h hd'
    · split at hd'
      · exact ih h hd'
      · simp at hd'

/-- **All that a document type declares is legal.** -/
theorem hasLegalValues_of_ofMarks? {standalone : Bool} {ms : List DoctypeMark}
    (h : ofMarks? standalone ms = some d) :
    d.HasLegalValues := by
  unfold ofMarks? at h
  split at h
  · split at h
    rename_i outside start houtside
    have hstart : start.HasLegalValues := by
      split at houtside
      all_goals
        obtain ⟨-, rfl⟩ := Prod.mk.inj houtside
        exact List.forall_mem_nil _
    split at h
    · exact Option.some.inj h ▸ hstart
    · exact hstart.withSubset h
    · simp at h
  · simp at h

end Declared

theorem hasLegalValues_of_prologue? {standalone : Bool} {fuel : Nat}
    {cs rest : List Char} {d : Declared} (h : prologue? standalone fuel cs = some (d, rest)) :
    d.HasLegalValues := by
  induction fuel generalizing cs with
  | zero => simp [prologue?] at h
  | succ fuel ih =>
    rw [prologue?] at h
    split at h
    · obtain ⟨_, -, h⟩ := Option.bind_eq_some_iff.1 h
      exact ih h
    · obtain ⟨_, -, h⟩ := Option.bind_eq_some_iff.1 h
      exact ih h
    · simp only [Option.bind_eq_bind, Option.bind_eq_some_iff, Prod.exists] at h
      obtain ⟨keyword, behind, -, h⟩ := h
      split at h
      · simp only [Option.bind_eq_some_iff, Option.pure_def, Option.some_inj, Prod.exists,
          Prod.mk.injEq] at h
        obtain ⟨marks, _, -, _, hd, rfl, -⟩ := h
        exact Declared.hasLegalValues_of_ofMarks? hd
      · simp at h
    · obtain ⟨rfl, -⟩ : Declared.none = d ∧ _ = rest := by simpa using h
      exact Declared.hasLegalValues_none

/-! ## Elements -/

/-- Whether the values of an element's attributes are legal. -/
def Element.HasLegalValues (e : Element) : Prop := ∀ a ∈ e.attributes, IsLegal a.2.toList

variable {d : Declared}

/-- **The value of an attribute is legal,** be it written or declared. -/
theorem isLegal_of_value? {element : QName} {a : QName × List Piece} {v : QName × List Char}
    (ha : ArePiecesLegal a.2) (h : Tag.value? d element a = some v) : IsLegal v.2 := by
  simp only [Tag.value?, Option.bind_eq_bind, Option.bind_eq_some_iff, Option.pure_def,
    Option.some_inj] at h
  obtain ⟨cs, hcs, rfl⟩ := h
  have hlegal := Declared.isLegal_of_chars? ha hcs
  dsimp only
  split
  · exact hlegal
  · exact Declared.isLegal_compress hlegal

/-- **An element has legal values,** those that its tag gives and those that are declared. Of an
attribute that is given twice there is no element at all. -/
theorem hasLegalValues_of_element? (hd : d.HasLegalValues) {scope inner : Scope}
    {t : Tag} {e : Element} (ht : ∀ a ∈ t.attributes, ArePiecesLegal a.2)
    (h : t.element? d scope = some (e, inner)) : e.HasLegalValues := by
  simp only [Tag.element?, Option.bind_eq_bind, Option.bind_eq_some_iff] at h
  obtain ⟨given, hgiven, scope', -, plain, hplain, h⟩ := h
  have hall : ∀ v ∈ given ++ Tag.defaults d t.name (t.attributes.map (·.1)), IsLegal v.2 := by
    refine List.forall_mem_append.2 ⟨fun v hv => ?_, fun v hv => ?_⟩
    · obtain ⟨a, ha, hvalue⟩ := exists_of_mem_mapM hgiven hv
      exact isLegal_of_value? (ht a ha) hvalue
    · obtain ⟨b, hb, hvalue⟩ := List.mem_filterMap.1 hv
      split at hvalue
      · obtain ⟨cs, hcs, rfl⟩ := Option.map_eq_some_iff.1 hvalue
        exact hd b hb cs hcs
      · simp at hvalue
  split at h
  · simp only [Option.bind_eq_some_iff, Option.pure_def, Option.some_inj, Prod.mk.injEq] at h
    obtain ⟨name, -, rfl, -⟩ := h
    intro a ha
    obtain ⟨v, hv, hvalue⟩ := exists_of_mem_mapM hplain ha
    simp only [Option.bind_eq_some_iff, Option.pure_def, Option.some_inj] at hvalue
    obtain ⟨name', -, rfl⟩ := hvalue
    rw [String.toList_ofList]
    exact hall v (List.mem_filter.1 hv).1
  · simp at h

/-! ## Marks -/

/-- Whether the attributes of a start tag have legal pieces. -/
def Token.IsLegal : Token → Prop
  | .start t _ => ∀ a ∈ t.attributes, ArePiecesLegal a.2
  | _ => True

theorem Token.arePiecesLegal_of_attributes? {fuel : Nat} {cs rest : List Char}
    {as : List (QName × List Piece)} {closed : Bool}
    (h : Token.attributes? fuel cs = some (as, closed, rest)) : ∀ a ∈ as, ArePiecesLegal a.2 := by
  induction fuel generalizing cs as closed rest with
  | zero => simp [Token.attributes?] at h
  | succ fuel ih =>
    rw [Token.attributes?] at h
    split at h
    · obtain ⟨rfl, -⟩ : [] = as ∧ _ := by simpa using h
      exact List.forall_mem_nil _
    · obtain ⟨rfl, -⟩ : [] = as ∧ _ := by simpa using h
      exact List.forall_mem_nil _
    · split at h
      · simp at h
      simp only [Option.bind_eq_bind, Option.bind_eq_some_iff, Prod.exists] at h
      obtain ⟨name, behind, -, h⟩ := h
      split at h
      · simp only [Option.bind_eq_some_iff, Option.pure_def, Option.some_inj, Prod.exists,
          Prod.mk.injEq] at h
        obtain ⟨raw, _, -, value, hvalue, more, _, _, hmore, rfl, -⟩ := h
        exact List.forall_mem_cons.2 ⟨arePiecesLegal_of_attributePieces? hvalue, ih hmore⟩
      · simp at h

theorem Token.isLegal_of_markup? {cs rest : List Char} {t : Token}
    (h : Token.markup? cs = some (t, rest)) :
    t.IsLegal := by
  unfold Token.markup? at h
  split at h
  · obtain ⟨_, -, h⟩ := Option.map_eq_some_iff.1 h
    exact (Prod.mk.inj h).1 ▸ trivial
  · obtain ⟨_, -, h⟩ := Option.map_eq_some_iff.1 h
    exact (Prod.mk.inj h).1 ▸ trivial
  · obtain ⟨_, -, h⟩ := Option.map_eq_some_iff.1 h
    exact (Prod.mk.inj h).1 ▸ trivial
  · simp only [Option.bind_eq_bind, Option.bind_eq_some_iff, Prod.exists] at h
    obtain ⟨_, _, -, h⟩ := h
    split at h
    · exact (Prod.mk.inj (Option.some.inj h)).1 ▸ trivial
    · simp at h
  · simp only [Option.bind_eq_bind, Option.bind_eq_some_iff, Option.pure_def,
      Option.some_inj, Prod.exists, Prod.mk.injEq] at h
    obtain ⟨name, _, -, attributes, closed, _, hattributes, rfl, -⟩ := h
    exact arePiecesLegal_of_attributes? hattributes

/-- **The marks that a text is cut into are legal.** A reference by number is checked when it is
read. -/
theorem Token.isLegal_of_first? {cs rest : List Char} {t : Token}
    (h : Token.first? cs = some (t, rest)) :
    t.IsLegal := by
  unfold Token.first? at h
  split at h
  · simp at h
  · exact isLegal_of_markup? h
  · simp only [Token.reference?, Option.bind_eq_bind, Option.bind_eq_some_iff, Prod.exists] at h
    obtain ⟨_, _, -, p, -, h⟩ := h
    split at h
    · exact (Prod.mk.inj (Option.some.inj h)).1 ▸ trivial
    split at h
    · exact (Prod.mk.inj (Option.some.inj h)).1 ▸ trivial
    · exact (Prod.mk.inj (Option.some.inj h)).1 ▸ trivial
  · dsimp only at h
    split at h
    · rw [← (Prod.mk.inj (Option.some.inj h)).1]
      split <;> trivial
    · simp at h

theorem Token.isLegal_of_upTo {fuel : Nat} {cs : List Char} {ts : List Token}
    (h : Token.upTo fuel cs = some ts) :
    ∀ t ∈ ts, t.IsLegal := by
  fun_induction Token.upTo fuel cs generalizing ts with
  | case1 =>
    cases h
    exact List.forall_mem_nil _
  | case2 => simp at h
  | case3 fuel c cs ih =>
    simp only [Option.bind_eq_bind, Option.bind_eq_some_iff, Option.pure_def,
      Option.some_inj, Prod.exists] at h
    obtain ⟨t, rest, ht, ts, hts, rfl⟩ := h
    exact List.forall_mem_cons.2 ⟨isLegal_of_first? ht, ih _ hts⟩

/-! ## Documents -/

/-- **The elements of legal marks have legal values,** if those inside entities do. The hypothesis
on entities is what the induction on their depth needs. -/
theorem hasLegalValues_of_elementsWith (hd : d.HasLegalValues)
    {inside : Scope → String → Option (List Element)} (hinside : ∀ scope name es,
    inside scope name = some es → ∀ e ∈ es, e.HasLegalValues) {outer : Scope}
    {frames : List Frame} {ts : List Token} {es : List Element} (hts : ∀ t ∈ ts, t.IsLegal)
    (h : elementsWith d inside outer frames ts = some es) : ∀ e ∈ es, e.HasLegalValues := by
  induction ts generalizing frames es with
  | nil =>
    cases frames with
    | nil =>
      obtain rfl : [] = es := by simpa [elementsWith] using h
      exact List.forall_mem_nil _
    | cons f fs => simp [elementsWith] at h
  | cons t ts ih =>
    obtain ⟨ht, hrest⟩ := List.forall_mem_cons.1 hts
    rw [elementsWith.eq_def] at h
    cases t with
    | start tag closed =>
      simp only [Option.bind_eq_bind, Option.bind_eq_some_iff, Option.pure_def,
        Option.some_inj, Prod.exists] at h
      obtain ⟨e, inner, he, es, hes, rfl⟩ := h
      exact List.forall_mem_cons.2 ⟨hasLegalValues_of_element? hd ht he, ih hrest hes⟩
    | stop name =>
      cases frames with
      | nil => simp at h
      | cons f fs =>
        dsimp only at h
        split at h
        · exact ih hrest h
        · simp at h
    | entity name =>
      simp only [Option.bind_eq_bind, Option.bind_eq_some_iff, Option.pure_def, Option.some_inj]
        at h
      obtain ⟨front, hfront, back, hback, rfl⟩ := h
      exact List.forall_mem_append.2 ⟨hinside _ _ _ hfront, ih hrest hback⟩
    | blank => cases frames <;> exact ih hrest h
    | data => cases frames <;> exact ih hrest h
    | skipped => cases frames <;> exact ih hrest h

/-- The elements that an entity stands for have legal values. -/
theorem hasLegalValues_of_entityElements (hd : d.HasLegalValues) {depth : Nat}
    {scope : Scope} {name : String} {es : List Element}
    (h : entityElements d depth scope name = some es) : ∀ e ∈ es, e.HasLegalValues := by
  induction depth generalizing scope name es with
  | zero => simp [entityElements] at h
  | succ depth ih =>
    rw [entityElements] at h
    split at h
    · simp only [Option.bind_eq_bind, Option.bind_eq_some_iff] at h
      obtain ⟨ts, hts, h⟩ := h
      exact hasLegalValues_of_elementsWith hd (fun _ _ _ h => ih h) (Token.isLegal_of_upTo hts) h
    · simp at h

/-- **The elements of a document have legal values.** So nothing that a project file includes holds
NUL. -/
theorem hasLegalValues_of_elements {codecs : Text.Codecs} {bytes : Text.Bytes} {es : List Element}
    (h : elements codecs bytes = .ok es) :
    ∀ e ∈ es, e.HasLegalValues := by
  have hchars {cs : List Char} (h : elementsOfChars? cs = some es) : ∀ e ∈ es,
      e.HasLegalValues := by
    simp only [elementsOfChars?, Option.bind_eq_bind, Option.bind_eq_some_iff, Prod.exists] at h
    obtain ⟨_, _, -, d, _, hprologue, ts, hts, h⟩ := h
    have hd := hasLegalValues_of_prologue? hprologue
    split at h
    · exact hasLegalValues_of_elementsWith hd (fun _ _ _ h => hasLegalValues_of_entityElements hd h)
        (Token.isLegal_of_upTo hts) h
    · simp at h
  obtain ⟨cs, -, h⟩ := Outcome.bind_eq_ok_iff.1 h
  cases hcs : elementsOfChars? cs with
  | none =>
    rw [hcs] at h
    cases h
  | some es' =>
    rw [hcs] at h
    cases h
    exact hchars hcs

end MemberHarvest.Xml
