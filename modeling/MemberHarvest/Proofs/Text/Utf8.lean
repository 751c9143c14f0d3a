import MemberHarvest.Text.Encoding

/-!
# Proofs/Text/Utf8 — bytes decode just where they are the bytes of a text

The functions that read a character of two, three or four bytes are the inverses of the encoding,
each on the characters of its length (`two?_eq_some_iff`, `three?_eq_some_iff`,
`four?_eq_some_iff`). The first byte tells the length, so no function reads what another one should.
Hence decoding is the inverse of encoding (`decode?_eq_some_iff`): it gives back every text, and
fails on all bytes that are not those of a text.

A byte order mark in front changes nothing, and a text that begins like one needs one (`Stores`).
What does not store a text is undecodable, but for two beginnings of the mark
(`decode_utf8Marked_eq_ok_iff`).
-/

namespace MemberHarvest.Text.Utf8

open String (utf8EncodeChar)

/-! ## The parts of a character -/

section Parts

variable {b : UInt8} {x : Char}

/-- A byte behind the first one has six bits of the character. -/
theorem tail?_eq_some_iff {k : Nat} : tail? b = some k ↔ b.toNat = 128 + k ∧ k < 64 := by
  rw [tail?]
  split
  · rw [Option.some_inj]
    omega
  · simp only [reduceCtorEq, false_iff]
    omega

/-- A number of a character is that of its character. -/
theorem toNat_ofNat {n : Nat} (h : n.isValidChar) : (Char.ofNat n).toNat = n := by
  rw [Char.ofNat, dif_pos h]
  rfl

/-- A number from the least one on gives the character of this number. -/
theorem scalar?_eq_some_iff {least n : Nat} :
    scalar? least n = some x ↔ least ≤ n ∧ x.toNat = n := by
  rw [scalar?]
  constructor
  · intro h
    split at h
    · rename_i hn
      cases h
      exact ⟨hn.1, toNat_ofNat hn.2⟩
    · simp at h
  · rintro ⟨hleast, rfl⟩
    rw [if_pos ⟨hleast, x.valid⟩, Char.ofNat_toNat]

theorem toNat_lt (x : Char) : x.toNat < 0x110000 := by
  rcases x.valid with h | h
  · exact Nat.lt_trans h (by decide)
  · exact h.2

end Parts

/-! ## Characters by their length -/

/-- The bytes of a character, by its code point. -/
theorem utf8EncodeChar_eq (x : Char) :
    utf8EncodeChar x =
      if x.toNat < 0x80 then [.ofNat x.toNat]
      else if x.toNat < 0x800 then [.ofNat (192 + x.toNat / 64), .ofNat (128 + x.toNat % 64)]
      else if x.toNat < 0x10000 then
        [.ofNat (224 + x.toNat / 4096), .ofNat (128 + x.toNat / 64 % 64),
          .ofNat (128 + x.toNat % 64)]
      else
        [.ofNat (240 + x.toNat / 262144), .ofNat (128 + x.toNat / 4096 % 64),
          .ofNat (128 + x.toNat / 64 % 64), .ofNat (128 + x.toNat % 64)] := by
  have hlt := toNat_lt x
  have hval : x.val.toNat = x.toNat := rfl
  rw [utf8EncodeChar]
  simp only [hval, ← Nat.lt_succ_iff, Nat.succ_eq_add_one, Nat.reduceAdd]
  split
  · rfl
  split
  · rw [Nat.mod_eq_of_lt (by omega), Nat.add_comm, Nat.add_comm (_ % _)]
  split
  · rw [Nat.mod_eq_of_lt (show x.toNat / 4096 < 16 by omega), Nat.add_comm, Nat.add_comm (_ % _),
      Nat.add_comm (_ % _)]
  · rw [Nat.mod_eq_of_lt (show x.toNat / 262144 < 8 by omega), Nat.add_comm, Nat.add_comm (_ % _),
      Nat.add_comm (_ % _), Nat.add_comm (_ % _)]

/-- Bytes that stand for a character, by their number and by what each of them holds of the code
point. -/
inductive Encodes (x : Char) : Bytes → Prop
  | one {b : UInt8} (lt : x.toNat < 0x80) (first : b.toNat = x.toNat) : Encodes x [b]
  | two {b c : UInt8} (le : 0x80 ≤ x.toNat) (lt : x.toNat < 0x800)
    (first : b.toNat = 192 + x.toNat / 64)
      (second : c.toNat = 128 + x.toNat % 64) : Encodes x [b, c]
  | three {b c d : UInt8} (le : 0x800 ≤ x.toNat) (lt : x.toNat < 0x10000)
    (first : b.toNat = 224 + x.toNat / 4096)
      (second : c.toNat = 128 + x.toNat / 64 % 64) (third : d.toNat = 128 + x.toNat % 64) :
      Encodes x [b, c, d]
  | four {b c d e : UInt8} (le : 0x10000 ≤ x.toNat) (first : b.toNat = 240 + x.toNat / 262144)
      (second : c.toNat = 128 + x.toNat / 4096 % 64) (third : d.toNat = 128 + x.toNat / 64 % 64)
      (fourth : e.toNat = 128 + x.toNat % 64) : Encodes x [b, c, d, e]

variable {b c d e : UInt8} {x : Char} {bytes : Bytes} {cs : List Char}

/-- A character has the bytes that the library gives it. -/
theorem encodes_utf8EncodeChar (x : Char) : Encodes x (utf8EncodeChar x) := by
  have hlt := toNat_lt x
  have hbyte : ∀ n, n < 256 → (UInt8.ofNat n).toNat = n := fun n hn => UInt8.toNat_ofNat_of_lt' hn
  rw [utf8EncodeChar_eq]
  split
  · exact .one (by omega) (hbyte _ (by omega))
  split
  · exact .two (by omega) (by omega) (hbyte _ (by omega)) (hbyte _ (by omega))
  split
  · exact .three (by omega) (by omega) (hbyte _ (by omega)) (hbyte _ (by omega))
      (hbyte _ (by omega))
  · exact .four (by omega) (hbyte _ (by omega)) (hbyte _ (by omega)) (hbyte _ (by omega))
      (hbyte _ (by omega))

/-- **A character is encoded in one way.** `Encodes` says with division what the library says with
bits. -/
theorem encodes_iff : Encodes x bytes ↔ bytes = utf8EncodeChar x := by
  constructor
  · intro h
    rw [utf8EncodeChar_eq]
    cases h with
    | one lt first => rw [if_pos lt, ← first, UInt8.ofNat_toNat]
    | two le lt first second =>
      rw [if_neg (by omega), if_pos lt, ← first, ← second, UInt8.ofNat_toNat, UInt8.ofNat_toNat]
    | three le lt first second third =>
      rw [if_neg (by omega), if_neg (by omega), if_pos lt, ← first, ← second, ← third,
        UInt8.ofNat_toNat, UInt8.ofNat_toNat, UInt8.ofNat_toNat]
    | four le first second third fourth =>
      rw [if_neg (by omega), if_neg (by omega), if_neg (by omega), ← first, ← second,
        ← third, ← fourth, UInt8.ofNat_toNat, UInt8.ofNat_toNat, UInt8.ofNat_toNat,
        UInt8.ofNat_toNat]
  · rintro rfl
    exact encodes_utf8EncodeChar x

/-! ## Reading one character -/

/-- Two bytes are read as the character that has them. -/
theorem two?_eq_some_iff : two? b c = some x ↔ Encodes x [b, c] := by
  rw [two?]
  constructor
  · intro h
    split at h
    · obtain ⟨k, hk, hx⟩ := Option.bind_eq_some_iff.1 h
      obtain ⟨hc, hlt⟩ := tail?_eq_some_iff.1 hk
      obtain ⟨hle, hx⟩ := scalar?_eq_some_iff.1 hx
      exact .two (by omega) (by omega) (by omega) (by omega)
    · simp at h
  · rintro (_ | ⟨le, lt, first, second⟩)
    rw [if_pos (by omega)]
    refine Option.bind_eq_some_iff.2 ⟨_, tail?_eq_some_iff.2 ⟨second, by omega⟩, ?_⟩
    exact scalar?_eq_some_iff.2 ⟨by omega, by omega⟩

theorem three?_eq_some_iff : three? b c d = some x ↔ Encodes x [b, c, d] := by
  rw [three?]
  constructor
  · intro h
    split at h
    · obtain ⟨k, hk, h⟩ := Option.bind_eq_some_iff.1 h
      obtain ⟨l, hl, hx⟩ := Option.bind_eq_some_iff.1 h
      obtain ⟨hc, hklt⟩ := tail?_eq_some_iff.1 hk
      obtain ⟨hd, hllt⟩ := tail?_eq_some_iff.1 hl
      obtain ⟨hle, hx⟩ := scalar?_eq_some_iff.1 hx
      exact .three (by omega) (by omega) (by omega) (by omega) (by omega)
    · simp at h
  · rintro (_ | _ | ⟨le, lt, first, second, third⟩)
    rw [if_pos (by omega)]
    refine Option.bind_eq_some_iff.2 ⟨_, tail?_eq_some_iff.2 ⟨second, by omega⟩, ?_⟩
    refine Option.bind_eq_some_iff.2 ⟨_, tail?_eq_some_iff.2 ⟨third, by omega⟩, ?_⟩
    exact scalar?_eq_some_iff.2 ⟨by omega, by omega⟩

theorem four?_eq_some_iff : four? b c d e = some x ↔ Encodes x [b, c, d, e] := by
  rw [four?]
  constructor
  · intro h
    split at h
    · obtain ⟨k, hk, h⟩ := Option.bind_eq_some_iff.1 h
      obtain ⟨l, hl, h⟩ := Option.bind_eq_some_iff.1 h
      obtain ⟨m, hm, hx⟩ := Option.bind_eq_some_iff.1 h
      obtain ⟨hc, hklt⟩ := tail?_eq_some_iff.1 hk
      obtain ⟨hd, hllt⟩ := tail?_eq_some_iff.1 hl
      obtain ⟨he, hmlt⟩ := tail?_eq_some_iff.1 hm
      obtain ⟨hle, hx⟩ := scalar?_eq_some_iff.1 hx
      exact .four (by omega) (by omega) (by omega) (by omega) (by omega)
    · simp at h
  · have hlt := toNat_lt x
    rintro (_ | _ | _ | ⟨le, first, second, third, fourth⟩)
    rw [if_pos (by omega)]
    refine Option.bind_eq_some_iff.2 ⟨_, tail?_eq_some_iff.2 ⟨second, by omega⟩, ?_⟩
    refine Option.bind_eq_some_iff.2 ⟨_, tail?_eq_some_iff.2 ⟨third, by omega⟩, ?_⟩
    refine Option.bind_eq_some_iff.2 ⟨_, tail?_eq_some_iff.2 ⟨fourth, by omega⟩, ?_⟩
    exact scalar?_eq_some_iff.2 ⟨by omega, by omega⟩

/-! ## Reading a text -/

/-- **What begins with the bytes of a character is read as that character,** and what is read of the
bytes behind it. The first byte tells how many there are. -/
theorem decode?_of_encodes (h : Encodes x bytes) (rest : Bytes) :
    decode? (bytes ++ rest) = (decode? rest).map (x :: ·) := by
  cases h with
  | @one b lt first =>
    rw [List.singleton_append, decode?.eq_def]
    simp only [first, if_pos lt, Char.ofNat_toNat]
  | @two b c le lt first second =>
    have hb : ¬ b.toNat < 0x80 := by omega
    have hx : two? b c = some x := two?_eq_some_iff.2 (.two le lt first second)
    rw [List.cons_append, List.singleton_append, decode?.eq_def]
    simp only [if_neg hb, hx]
  | @three b c d le lt first second third =>
    have hb : ¬ b.toNat < 0x80 := by omega
    have htwo : two? b c = none := if_neg (by omega)
    have hx : three? b c d = some x := three?_eq_some_iff.2 (.three le lt first second third)
    rw [List.cons_append, List.cons_append, List.singleton_append, decode?.eq_def]
    simp only [if_neg hb, htwo, hx]
  | @four b c d e le first second third fourth =>
    have hb : ¬ b.toNat < 0x80 := by omega
    have htwo : two? b c = none := if_neg (by omega)
    have hthree : three? b c d = none := if_neg (by omega)
    have hx : four? b c d e = some x := four?_eq_some_iff.2 (.four le first second third fourth)
    rw [List.cons_append, List.cons_append, List.cons_append, List.singleton_append, decode?.eq_def]
    simp only [if_neg hb, htwo, hthree, hx]

/-- **A text is read from its bytes.** The induction is on the text. -/
theorem decode?_encode (cs : List Char) : decode? (encode cs) = some cs := by
  induction cs with
  | nil => rfl
  | cons x cs ih =>
    rw [encode, List.flatMap_cons, decode?_of_encodes (encodes_utf8EncodeChar x), ← encode, ih]
    rfl

/-- What is read as a character and the rest are the bytes of both. -/
theorem eq_encode_of_map_cons {front rest : Bytes} (hx : Encodes x front)
    (ih : ∀ cs, decode? rest = some cs → rest = encode cs)
    (h : (decode? rest).map (x :: ·) = some cs) :
    front ++ rest = encode cs := by
  obtain ⟨cs', hcs', rfl⟩ := Option.map_eq_some_iff.1 h
  rw [encodes_iff.1 hx, ih cs' hcs']
  rfl

/-- **What is decoded encodes to the bytes it came from.** So no text has two encodings. -/
theorem eq_encode_of_decode? (h : decode? bytes = some cs) : bytes = encode cs := by
  fun_induction decode? bytes generalizing cs with
  | case1 =>
    cases h
    rfl
  | case2 b r hb ih =>
    have hx : Encodes (Char.ofNat b.toNat) [b] := by
      have hvalid : b.toNat.isValidChar := .inl (by omega)
      exact .one (by rwa [toNat_ofNat hvalid]) (toNat_ofNat hvalid).symm
    exact eq_encode_of_map_cons hx (fun _ => ih) h
  | case3 => simp at h
  | case4 b hb c r x hx ih => exact eq_encode_of_map_cons (two?_eq_some_iff.1 hx) (fun _ => ih) h
  | case5 => simp at h
  | case6 b hb c htwo d r x hx ih =>
    exact eq_encode_of_map_cons (three?_eq_some_iff.1 hx) (fun _ => ih) h
  | case7 => simp at h
  | case8 b hb c htwo d hthree e r x hx ih =>
    exact eq_encode_of_map_cons (four?_eq_some_iff.1 hx) (fun _ => ih) h
  | case9 => simp at h

/-- **Bytes are read as a text just where they are the bytes of that text.** So the decoder and the
encoder are inverse to each other. -/
theorem decode?_eq_some_iff : decode? bytes = some cs ↔ bytes = encode cs := by
  constructor
  · exact eq_encode_of_decode?
  · rintro rfl
    exact decode?_encode cs

/-- Bytes that cannot be decoded are those of no text. -/
theorem decode?_eq_none_iff : decode? bytes = none ↔ ∀ cs, bytes ≠ encode cs := by
  simp only [Option.eq_none_iff_forall_ne_some, ne_eq, decode?_eq_some_iff]

/-! ## Byte order marks -/

/-- The mark is decoded like any other character. -/
theorem decode?_mark (rest : Bytes) : decode? (mark ++ rest) = (decode? rest).map ('\ufeff' :: ·) :=
  decode?_of_encodes (encodes_utf8EncodeChar '\ufeff') rest

/-- The bytes of a text begin with the mark if the text does. -/
theorem mark_prefix_encode_iff : mark <+: encode cs ↔ cs.head? = some '\ufeff' := by
  constructor
  · rintro ⟨rest, hrest⟩
    have hmap : (decode? rest).map ('\ufeff' :: ·) = some cs := by
      rw [← decode?_mark, hrest, decode?_encode]
    obtain ⟨cs', -, rfl⟩ := Option.map_eq_some_iff.1 hmap
    rfl
  · intro h
    obtain ⟨cs', rfl⟩ := List.head?_eq_some_iff.1 h
    exact List.prefix_append mark (encode cs')

end MemberHarvest.Text.Utf8

namespace MemberHarvest.Text

variable {bytes : Bytes} {text : List Char}

/-- Whether bytes are those of a text: behind a byte order mark, or without one if the text does not
begin like one. -/
def Stores (bytes : Bytes) (text : List Char) : Prop :=
  bytes = Utf8.mark ++ Utf8.encode text ∨ bytes = Utf8.encode text ∧ text.head? ≠ some '\ufeff'

theorem orUndecodable_eq_ok_iff {text? : Option (List Char)} :
    Encoding.orUndecodable text? = .ok text ↔ text? = some text := by
  cases text? <;> simp [Encoding.orUndecodable]

/-- The beginnings of a byte order mark. -/
theorem prefix_mark_iff :
    bytes <+: Utf8.mark ↔ bytes = [] ∨ bytes = Utf8.mark ∨ bytes = [0xEF] ∨
      bytes = [0xEF, 0xBB] := by
  constructor
  · intro h
    have hcases : ∀ n ≤ 3, Utf8.mark.take n = [] ∨ Utf8.mark.take n = Utf8.mark ∨
        Utf8.mark.take n = [0xEF] ∨ Utf8.mark.take n = [0xEF, 0xBB] := by
      decide
    rw [List.prefix_iff_eq_take.1 h]
    exact hcases _ h.length_le
  · rintro (rfl | rfl | rfl | rfl) <;> decide

/-- A file that stores a text is decoded as it, with the mark or without. -/
theorem decode_of_stores (h : Stores bytes text) : Encoding.utf8Marked.decode bytes = .ok text := by
  rw [Encoding.decode, orUndecodable_eq_ok_iff, Encoding.dropMark]
  simp only [List.isPrefixOf_iff_prefix]
  rcases h with rfl | ⟨rfl, hhead⟩
  · split
    · rename_i hbegin
      have hnil : Utf8.encode text = [] := by
        have hlength := hbegin.length_le
        rw [List.length_append] at hlength
        exact List.eq_nil_of_length_eq_zero (by omega)
      rw [← Utf8.decode?_encode text, hnil]
    · rw [if_pos (List.prefix_append ..)]
      exact Utf8.decode?_encode text
  · have hmark : ¬ Utf8.mark <+: Utf8.encode text :=
      fun h => hhead (Utf8.mark_prefix_encode_iff.1 h)
    split
    · rename_i hbegin
      have hdecode := Utf8.decode?_encode text
      rcases prefix_mark_iff.1 hbegin with h | h | h | h
      · rwa [h] at hdecode
      · exact absurd (h ▸ List.prefix_rfl) hmark
      · have hnone : Utf8.decode? [0xEF] = none := rfl
        simp [h, hnone] at hdecode
      · have hnone : Utf8.decode? [0xEF, 0xBB] = none := rfl
        simp [h, hnone] at hdecode
    · exact Utf8.decode?_encode text

/-- **What bytes store is what they decode to;** besides, two beginnings of a byte order mark decode
to nothing. One mark in front of the text is dropped, and a second one would be a character of
it. -/
theorem decode_utf8Marked_eq_ok_iff :
    Encoding.utf8Marked.decode bytes = .ok text ↔
      Stores bytes text ∨ text = [] ∧ (bytes = [0xEF] ∨ bytes = [0xEF, 0xBB]) := by
  constructor
  · rw [Encoding.decode, orUndecodable_eq_ok_iff, Encoding.dropMark]
    simp only [List.isPrefixOf_iff_prefix]
    intro h
    split at h
    · rename_i hbegin
      obtain rfl : [] = text := Option.some.inj h
      rcases prefix_mark_iff.1 hbegin with rfl | rfl | htruncated
      · exact .inl (.inr ⟨rfl, by simp⟩)
      · exact .inl (.inl rfl)
      · exact .inr ⟨rfl, htruncated⟩
    split at h
    · rename_i hmark
      obtain ⟨rest, rfl⟩ := hmark
      obtain rfl : rest = Utf8.encode text := Utf8.decode?_eq_some_iff.1 h
      exact .inl (.inl rfl)
    · rename_i hmark
      obtain rfl := Utf8.decode?_eq_some_iff.1 h
      exact .inl (.inr ⟨rfl, fun hhead => hmark (Utf8.mark_prefix_encode_iff.2 hhead)⟩)
  · rintro (h | ⟨rfl, rfl | rfl⟩)
    · exact decode_of_stores h
    · rfl
    · rfl

end MemberHarvest.Text
