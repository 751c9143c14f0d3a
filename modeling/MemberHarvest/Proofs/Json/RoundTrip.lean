import MemberHarvest.Json.Document
import MemberHarvest.Json.Reading
import MemberHarvest.Proofs.Text.Decimal

/-!
# Proofs/Json/RoundTrip — reading a document undoes writing it

Every value is read back from its text (`read?_render`), at every depth of indentation and whatever
stands behind it, as long as that does not go on with a digit. The parts come first: a text is read
back because every written character is (`quoted?_escapeChar`), a number because its digits end
where they were written to end.
-/

namespace MemberHarvest.Json

/-! ## Texts -/

/-- Put a character in front of what is read. -/
def prepend (c : Char) (x : Option (List Char × List Char)) : Option (List Char × List Char) :=
  x.map fun p => (c :: p.1, p.2)

/-- A short escape is read as the character it stands for. -/
theorem quoted?_letter {e c : Char} (hu : e ≠ 'u') (h : unescape? e = some c) (cs : List Char) :
    quoted? ('\\' :: e :: cs) = prepend c (quoted? cs) := by
  rw [quoted?.eq_4 e cs fun _ _ _ _ _ he => absurd he hu, h]
  cases quoted? cs <;> rfl

/-- A control character is read from its four digits. -/
theorem quoted?_hexDigits {c : Char} (h : c.toNat < 0x20) (cs : List Char) :
    quoted? ('\\' :: 'u' :: Text.hexDigits 4 c.toNat ++ cs) = prepend c (quoted? cs) := by
  have hof : Text.ofHex? (Text.hexDigits 4 c.toNat) = some c.toNat := by
    rw [Text.ofHex?_hexDigits]
    exact congrArg some (Nat.mod_eq_of_lt (Nat.lt_of_lt_of_le h (by decide)))
  have hvalid : c.toNat.isValidChar := by
    left
    omega
  obtain ⟨w, x, y, z, hd⟩ : ∃ w x y z, Text.hexDigits 4 c.toNat = [w, x, y, z] :=
    ⟨_, _, _, _, rfl⟩
  rw [hd] at hof ⊢
  simp only [List.cons_append, List.nil_append]
  rw [quoted?.eq_3, hof]
  simp only [Option.bind_eq_bind, Option.bind_some, if_pos hvalid, Char.ofNat_toNat]
  cases quoted? cs <;> rfl

theorem quoted?_plain {c : Char} (hq : c ≠ '"') (hb : c ≠ '\\') (h : ¬ c.toNat < 0x20)
    (cs : List Char) : quoted? (c :: cs) = prepend c (quoted? cs) := by
  rw [quoted?.eq_5 c cs hq (fun _ _ _ _ _ he => absurd he hb) (fun _ _ he => absurd he hb),
    if_neg (not_or.2 ⟨h, hb⟩)]
  cases quoted? cs <;> rfl

/-- A character is written behind a backslash, by its number, or as it is. -/
theorem escapeChar_cases (c : Char) :
    (∃ e, escapeChar c = ['\\', e] ∧ e ≠ 'u' ∧ unescape? e = some c) ∨
      (escapeChar c = '\\' :: 'u' :: Text.hexDigits 4 c.toNat ∧ c.toNat < 0x20) ∨
      escapeChar c = [c] ∧ c ≠ '"' ∧ c ≠ '\\' ∧ ¬ c.toNat < 0x20 := by
  by_cases hshort : c ∈ ['"', '\\', '\x08', '\t', '\n', '\x0c', '\r']
  · simp only [List.mem_cons, List.not_mem_nil, or_false] at hshort
    rcases hshort with rfl | rfl | rfl | rfl | rfl | rfl | rfl <;>
      exact .inl ⟨_, rfl, by decide, rfl⟩
  · simp only [List.mem_cons, List.not_mem_nil, or_false, not_or] at hshort
    obtain ⟨hq, hb, hother⟩ := hshort
    have hwritten : escapeChar c =
        if c.toNat < 0x20 then '\\' :: 'u' :: Text.hexDigits 4 c.toNat else [c] := by
      simp [escapeChar, hq, hb, hother]
    by_cases h : c.toNat < 0x20
    · exact .inr <| .inl ⟨by rw [hwritten, if_pos h], h⟩
    · exact .inr <| .inr ⟨by rw [hwritten, if_neg h], hq, hb, h⟩

/-- **Every character is read back from how it is written.** Every character has one of three forms:
a short escape, four digits, or itself. -/
theorem quoted?_escapeChar (c : Char) (cs : List Char) :
    quoted? (escapeChar c ++ cs) = prepend c (quoted? cs) := by
  rcases escapeChar_cases c with ⟨e, he, hu, hc⟩ | ⟨he, hc⟩ | ⟨he, hq, hb, hc⟩
  · rw [he]
    exact quoted?_letter hu hc cs
  · rw [he]
    exact quoted?_hexDigits hc cs
  · rw [he]
    exact quoted?_plain hq hb hc cs

/-- **A text is read back up to its closing mark.** No character is written with a bare quotation
mark, so the first one is the closing one. -/
theorem quoted?_flatMap_escapeChar (s rest : List Char) :
    quoted? (s.flatMap escapeChar ++ '"' :: rest) = some (s, rest) := by
  induction s with
  | nil => rw [List.flatMap_nil, List.nil_append, quoted?.eq_2]
  | cons c s ih => rw [List.flatMap_cons, List.append_assoc, quoted?_escapeChar, ih]; rfl

/-! ## Numbers -/

/-- What stands behind a number does not go on with a digit. -/
def EndsNumber (rest : List Char) : Prop := ∀ c ∈ rest.head?, Text.isDigit c = false

/-- **The digits of a number are read back,** up to what cannot belong to it. -/
theorem natural?_decimal (n : Nat) {rest : List Char} (h : EndsNumber rest) :
    natural? (Text.decimal n ++ rest) = some (n, rest) := by
  have hall : ∀ c ∈ Text.decimal n, Text.isDigit c = true :=
    fun c hc => Text.isDigit_of_mem_decimal hc
  have htake : (Text.decimal n ++ rest).takeWhile Text.isDigit = Text.decimal n := by
    rw [List.takeWhile_append_of_pos hall]
    cases rest with
    | nil => simp
    | cons c cs => simp [h c rfl]
  have hdrop : (Text.decimal n ++ rest).dropWhile Text.isDigit = rest := by
    rw [List.dropWhile_append_of_pos hall]
    cases rest with
    | nil => rfl
    | cons c cs => simp [h c rfl]
  rw [natural?, htake, hdrop]
  split
  · rename_i hnil
    exact absurd hnil (Text.decimal_ne_nil n)
  · rename_i hzero
    exact absurd hzero (Text.decimal_ne_zero_cons_cons n _ _)
  · rw [Text.natOfDigits_decimal]

/-- So are the digits of a number with a sign. -/
theorem integer?_decimalInt (i : Int) {rest : List Char} (h : EndsNumber rest) :
    integer? (Text.decimalInt i ++ rest) = some (i, rest) := by
  cases i with
  | ofNat n =>
    have hdash : ∀ cs, Text.decimal n ++ rest ≠ '-' :: cs := by
      intro cs hcs
      obtain ⟨d, ds, hd⟩ := List.exists_cons_of_ne_nil (Text.decimal_ne_nil n)
      have hdigit : Text.isDigit d = true :=
        Text.isDigit_of_mem_decimal (by rw [hd]; exact List.mem_cons_self)
      rw [hd, List.cons_append] at hcs
      rw [(List.cons.inj hcs).1] at hdigit
      exact absurd hdigit (by decide)
    rw [Text.decimalInt, integer?.eq_2 _ hdash, natural?_decimal n h]
    rfl
  | negSucc n =>
    rw [Text.decimalInt, List.cons_append, integer?.eq_1, natural?_decimal _ h]
    rfl

/-! ## Layout -/

theorem skipBlanks_lineStart_append (d : Nat) (cs : List Char) :
    skipBlanks (lineStart d ++ cs) = skipBlanks cs := by
  rw [skipBlanks, List.dropWhile_append_of_pos]
  · rfl
  · intro c hc
    rcases List.mem_cons.1 hc with rfl | hc
    · rfl
    · rw [(List.mem_replicate.1 hc).2]
      rfl

/-- The characters that a written value begins with. -/
def Opens (c : Char) : Prop := c = '"' ∨ c = '[' ∨ c = '\x7b' ∨ c = '-' ∨ Text.isDigit c = true

instance (c : Char) : Decidable (Opens c) := inferInstanceAs (Decidable (_ ∨ _))

theorem skipBlanks_of_opens {c : Char} (h : Opens c) (cs : List Char) :
    skipBlanks (c :: cs) = c :: cs := by
  have hc : (c == ' ' || c == '\n' || c == '\t' || c == '\r') = false := by
    rcases h with rfl | rfl | rfl | rfl | h
    · rfl
    · rfl
    · rfl
    · rfl
    · simp only [Bool.or_eq_false_iff, beq_eq_false_iff_ne, ne_eq]
      refine ⟨⟨⟨?_, ?_⟩, ?_⟩, ?_⟩ <;> (rintro rfl; exact absurd h (by decide))
  rw [skipBlanks, List.dropWhile_cons, hc]
  rfl

/-- A number begins with a sign or a digit. -/
theorem exists_decimalInt_eq_cons (i : Int) :
    ∃ c cs, Text.decimalInt i = c :: cs ∧ (c = '-' ∨ Text.isDigit c = true) := by
  cases i with
  | ofNat n =>
    obtain ⟨c, cs, hc⟩ := List.exists_cons_of_ne_nil (Text.decimal_ne_nil n)
    exact ⟨c, cs, hc, .inr <| Text.isDigit_of_mem_decimal (by rw [hc]; exact List.mem_cons_self)⟩
  | negSucc n => exact ⟨'-', _, rfl, .inl rfl⟩

/-- What is rendered begins with a character that is not blank. -/
theorem exists_render_eq_cons (d : Nat) (v : Json) : ∃ c cs, render d v = c :: cs ∧ Opens c := by
  cases v with
  | text s => exact ⟨_, _, by rw [render, textChars, List.cons_append], .inl rfl⟩
  | integer i =>
    obtain ⟨c, cs, hc, h⟩ := exists_decimalInt_eq_cons i
    exact ⟨c, cs, by rw [render, hc], .inr <| .inr <| .inr h⟩
  | array items =>
    cases items with
    | nil => exact ⟨_, _, by rw [render], .inr <| .inl rfl⟩
    | cons w ws => exact ⟨_, _, by rw [render]; rfl, .inr <| .inl rfl⟩
  | object fields =>
    cases fields with
    | nil => exact ⟨_, _, by rw [render], .inr <| .inr <| .inl rfl⟩
    | cons e es => exact ⟨_, _, by rw [render]; rfl, .inr <| .inr <| .inl rfl⟩

theorem endsNumber_comma (cs : List Char) : EndsNumber (',' :: cs) := by
  simp only [EndsNumber, List.head?_cons, Option.mem_some_iff, forall_eq']
  rfl

theorem endsNumber_lineStart_append (d : Nat) (cs : List Char) :
    EndsNumber (lineStart d ++ cs) := by
  simp only [EndsNumber, lineStart, List.cons_append, List.head?_cons,
    Option.mem_some_iff, forall_eq']
  rfl

/-! ## One step of reading -/

section Steps

variable {fuel : Nat} {cs rest rest' tail : List Char} {v : Json} {vs : List Json} {k : String}
  {es : List (String × Json)}

/-- Blanks in front of a value are nothing to it. -/
theorem value?_congr (fuel : Nat) (h : skipBlanks cs = skipBlanks rest) :
    value? fuel cs = value? fuel rest := by
  cases fuel with
  | zero => rw [value?.eq_1, value?.eq_1]
  | succ fuel => rw [value?.eq_2, value?.eq_2, h]

/-- Blanks in front of an array's items do not matter. -/
theorem items?_congr (fuel : Nat) (h : skipBlanks cs = skipBlanks rest) :
    items? fuel cs = items? fuel rest := by
  cases fuel with
  | zero => rw [items?.eq_1, items?.eq_1]
  | succ fuel => rw [items?.eq_2, items?.eq_2, value?_congr fuel h]

/-- Blanks in front of an object's fields do not matter. -/
theorem fields?_congr (fuel : Nat) (h : skipBlanks cs = skipBlanks rest) :
    fields? fuel cs = fields? fuel rest := by
  cases fuel with
  | zero => rw [fields?.eq_1, fields?.eq_1]
  | succ fuel => rw [fields?.eq_2, fields?.eq_2, h]

theorem value?_text (fuel : Nat) (s : String) (rest : List Char) :
    value? (fuel + 1) (textChars s ++ rest) = some (.text s, rest) := by
  have hs : skipBlanks (textChars s ++ rest) = textChars s ++ rest :=
    skipBlanks_of_opens (.inl rfl) _
  have hq := quoted?_flatMap_escapeChar s.toList rest
  rw [value?.eq_2, hs]
  simp [textChars, hq]

/-- A number is read back, up to what cannot belong to it. -/
theorem value?_integer (fuel : Nat) (i : Int) (h : EndsNumber rest) :
    value? (fuel + 1) (Text.decimalInt i ++ rest) = some (.integer i, rest) := by
  obtain ⟨c, cs, hc, hopen⟩ := exists_decimalInt_eq_cons i
  have hi := integer?_decimalInt i h
  have hne : c ≠ '"' ∧ c ≠ '[' ∧ c ≠ '\x7b' := by
    refine ⟨?_, ?_, ?_⟩ <;> (rintro rfl; exact absurd hopen (by decide))
  rw [hc, List.cons_append] at hi ⊢
  rw [value?.eq_2, skipBlanks_of_opens (.inr <| .inr <| .inr hopen)]
  simp [hne, hi]

/-- An array that is not empty is read as its items. -/
theorem value?_array (hs : skipBlanks cs = tail) (hne : ∀ r, tail ≠ ']' :: r)
    (h : items? fuel tail = some (vs, rest)) :
    value? (fuel + 1) ('[' :: cs) = some (.array vs, rest) := by
  rw [value?.eq_2, skipBlanks_of_opens (.inr (.inl rfl))]
  simp only [hs, h]
  rfl

/-- An object that is not empty is read as its fields. -/
theorem value?_object (hs : skipBlanks cs = tail) (hne : ∀ r, tail ≠ '\x7d' :: r)
    (h : fields? fuel tail = some (es, rest)) :
    value? (fuel + 1) ('\x7b' :: cs) = some (.object es, rest) := by
  rw [value?.eq_2, skipBlanks_of_opens (.inr (.inr (.inl rfl)))]
  simp only [hs, h]
  rfl

/-- The last item stands in front of the closing bracket. -/
theorem items?_last (hv : value? fuel cs = some (v, rest)) (h : skipBlanks rest = ']' :: tail) :
    items? (fuel + 1) cs = some ([v], tail) := by
  rw [items?.eq_2, hv]
  simp [h]

theorem items?_more (hv : value? fuel cs = some (v, rest)) (h : skipBlanks rest = ',' :: rest')
    (hi : items? fuel rest' = some (vs, tail)) : items? (fuel + 1) cs = some (v :: vs, tail) := by
  rw [items?.eq_2, hv]
  simp [h, hi]

theorem fields?_last (hv : value? fuel cs = some (v, rest)) (h : skipBlanks rest = '\x7d' :: tail) :
    fields? (fuel + 1) (textChars k ++ ':' :: cs) = some ([(k, v)], tail) := by
  have hs : skipBlanks (textChars k ++ ':' :: cs) = textChars k ++ ':' :: cs :=
    skipBlanks_of_opens (.inl rfl) _
  have hq := quoted?_flatMap_escapeChar k.toList (':' :: cs)
  have hc : skipBlanks (':' :: cs) = ':' :: cs := rfl
  rw [fields?.eq_2, hs]
  simp [textChars, hq, hc, hv, h]

theorem fields?_more (hv : value? fuel cs = some (v, rest)) (h : skipBlanks rest = ',' :: rest')
    (hf : fields? fuel rest' = some (es, tail)) :
    fields? (fuel + 1) (textChars k ++ ':' :: cs) = some ((k, v) :: es, tail) := by
  have hs : skipBlanks (textChars k ++ ':' :: cs) = textChars k ++ ':' :: cs :=
    skipBlanks_of_opens (.inl rfl) _
  have hq := quoted?_flatMap_escapeChar k.toList (':' :: cs)
  have hc : skipBlanks (':' :: cs) = ':' :: cs := rfl
  rw [fields?.eq_2, hs]
  simp [textChars, hq, hc, hv, h, hf]

end Steps

/-! ## Whole values -/

/-- With this fuel, every value, list of items and list of fields is read back whose text is
shorter. -/
structure ReadsBack (fuel : Nat) : Prop where
  value : ∀ (v : Json) (d : Nat) {rest : List Char}, EndsNumber rest → (render d v).length < fuel →
    value? fuel (render d v ++ rest) = some (v, rest)
  items : ∀ (v : Json) (vs : List Json) (d e : Nat) (rest : List Char),
    (render d v ++ renderItems d vs).length + 1 < fuel →
    items? fuel (render d v ++ (renderItems d vs ++ (lineStart e ++ ']' :: rest))) =
      some (v :: vs, rest)
  fields : ∀ (k : String) (v : Json) (es : List (String × Json)) (d e : Nat) (rest : List Char),
    (textChars k ++ render d v ++ renderFields d es).length + 1 < fuel →
    fields? fuel (textChars k ++ ':' :: ' ' :: (render d v ++
      (renderFields d es ++ (lineStart e ++ '\x7d' :: rest)))) = some ((k, v) :: es, rest)

/-- A value is read back with one more unit of fuel than the values in it need. -/
theorem ReadsBack.value_succ {fuel : Nat} (ih : ReadsBack fuel) (v : Json) (d : Nat)
    {rest : List Char} (hr : EndsNumber rest) (hl : (render d v).length < fuel + 1) :
    value? (fuel + 1) (render d v ++ rest) = some (v, rest) := by
  cases v with
  | text s => rw [render, value?_text]
  | integer i => rw [render, value?_integer fuel i hr]
  | array items =>
    cases items with
    | nil =>
      rw [render, value?.eq_2]
      rfl
    | cons v vs =>
      obtain ⟨c, cs, hc, hopen⟩ := exists_render_eq_cons (d + 1) v
      simp only [render, List.length_append, List.length_cons, List.length_nil] at hl
      simp only [render, List.cons_append, List.append_assoc, List.nil_append]
      refine value?_array ?_ ?_ (ih.items v vs (d + 1) d rest ?_)
      · rw [skipBlanks_lineStart_append, hc, List.cons_append, skipBlanks_of_opens hopen]
      · intro r
        rw [hc, List.cons_append]
        intro h
        rw [(List.cons.inj h).1] at hopen
        exact absurd hopen (by decide)
      · simp only [List.length_append]
        omega
  | object fields =>
    cases fields with
    | nil =>
      rw [render, value?.eq_2]
      rfl
    | cons e es =>
      obtain ⟨k, v⟩ := e
      simp only [render, List.length_append, List.length_cons, List.length_nil] at hl
      simp only [render, List.cons_append, List.append_assoc, List.nil_append]
      refine value?_object ?_ ?_ (ih.fields k v es (d + 1) d rest ?_)
      · rw [skipBlanks_lineStart_append]
        exact skipBlanks_of_opens (.inl rfl) _
      · intro r h
        exact absurd (List.cons.inj h).1 (by decide)
      · simp only [List.length_append]
        omega

theorem ReadsBack.items_succ {fuel : Nat} (ih : ReadsBack fuel) (v : Json)
    (vs : List Json) (d e : Nat) (rest : List Char)
    (hl : (render d v ++ renderItems d vs).length + 1 < fuel + 1) :
    items? (fuel + 1) (render d v ++ (renderItems d vs ++ (lineStart e ++ ']' :: rest))) =
      some (v :: vs, rest) := by
  rw [List.length_append] at hl
  cases vs with
  | nil =>
    rw [renderItems, List.nil_append]
    refine items?_last (ih.value v d (endsNumber_lineStart_append e _) (by omega)) ?_
    rw [skipBlanks_lineStart_append]
    rfl
  | cons w ws =>
    simp only [renderItems, List.length_append, List.length_cons] at hl
    simp only [renderItems, List.cons_append, List.append_assoc]
    refine items?_more (ih.value v d (endsNumber_comma _) (by omega)) rfl ?_
    rw [items?_congr fuel (skipBlanks_lineStart_append d _)]
    exact ih.items w ws d e rest (by rw [List.length_append]; omega)

theorem ReadsBack.fields_succ {fuel : Nat} (ih : ReadsBack fuel) (k : String) (v : Json)
    (es : List (String × Json)) (d e : Nat) (rest : List Char)
    (hl : (textChars k ++ render d v ++ renderFields d es).length + 1 < fuel + 1) :
    fields? (fuel + 1) (textChars k ++ ':' :: ' ' :: (render d v ++
      (renderFields d es ++ (lineStart e ++ '\x7d' :: rest)))) = some ((k, v) :: es, rest) := by
  simp only [List.length_append] at hl
  have hv {tail : List Char} (h : EndsNumber tail) :
      value? fuel (' ' :: (render d v ++ tail)) = some (v, tail) := by
    have hb : skipBlanks (' ' :: (render d v ++ tail)) = skipBlanks (render d v ++ tail) := rfl
    rw [value?_congr fuel hb]
    exact ih.value v d h (by omega)
  cases es with
  | nil =>
    rw [renderFields, List.nil_append]
    refine fields?_last (hv (endsNumber_lineStart_append e _)) ?_
    rw [skipBlanks_lineStart_append]
    rfl
  | cons f fs =>
    obtain ⟨l, w⟩ := f
    simp only [renderFields, List.length_append, List.length_cons] at hl
    simp only [renderFields, List.cons_append, List.append_assoc]
    refine fields?_more (hv (endsNumber_comma _)) rfl ?_
    rw [fields?_congr fuel (skipBlanks_lineStart_append d _)]
    exact ih.fields l w fs d e rest (by simp only [List.length_append]; omega)

/-- **With fuel for its length, everything that is rendered is read back.** The fuel of a reader is
one for each step into a value, and a rendered value is longer than it is deep. -/
theorem readsBack : ∀ fuel, ReadsBack fuel
  | 0 =>
    ⟨fun _ _ _ _ h => absurd h (by omega), fun _ _ _ _ _ h => absurd h (by omega),
      fun _ _ _ _ _ _ h => absurd h (by omega)⟩
  | fuel + 1 =>
    have ih := readsBack fuel
    ⟨ih.value_succ, ih.items_succ, ih.fields_succ⟩

/-- **Reading the text of a value gives back the value,** also with a line end behind it. So a value
is determined by its text. -/
theorem read?_render (v : Json) : read? (String.ofList (render 0 v ++ ['\n'])) = some v := by
  have hlt : (render 0 v).length < (render 0 v ++ ['\n']).length + 1 := by
    rw [List.length_append]
    omega
  have h : value? ((render 0 v ++ ['\n']).length + 1) (render 0 v ++ ['\n']) = some (v, ['\n']) :=
    (readsBack _).value v 0 (endsNumber_lineStart_append 0 []) hlt
  simp only [read?, String.toList_ofList]
  rw [h]
  rfl

end MemberHarvest.Json
