import MemberHarvest.Path.Resolve
import MemberHarvest.Proofs.Path.Written

/-!
# Proofs/Path/Ending — how texts and last names end

A path has an extension only if its last name ends in it, and then its text ends in it as well
(`endsIn_toString`). A text that ends in an extension denotes a path whose last name does
(`endsIn_name_ofString`).
-/

namespace MemberHarvest

/-- Text without separators goes to the last piece. -/
theorem Text.splitOnP_append {p : Char → Bool} (as : List Char) {bs : List Char}
    (h : ∀ c ∈ bs, p c = false) :
    ∃ pieces last, as.splitOnP p = pieces ++ [last] ∧
      (as ++ bs).splitOnP p = pieces ++ [last ++ bs] := by
  induction as with
  | nil => exact ⟨[], [], rfl, List.splitOnP_eq_singleton h⟩
  | cons a as ih =>
    obtain ⟨pieces, last, has, happend⟩ := ih
    rw [List.cons_append, List.splitOnP_cons_eq_if_modifyHead,
      List.splitOnP_cons_eq_if_modifyHead, has, happend]
    by_cases ha : p a = true
    · exact ⟨[] :: pieces, last, by simp [ha], by simp [ha]⟩
    · cases pieces with
      | nil => exact ⟨[], a :: last, by simp [ha], by simp [ha]⟩
      | cons piece pieces => exact ⟨(a :: piece) :: pieces, last, by simp [ha], by simp [ha]⟩

theorem Text.toLower_of_isBlank {c : Char} (h : isBlank c = true) : c.toLower = c := by
  by_cases hcapital : c.val ≥ 'A'.val ∧ c.val ≤ 'Z'.val
  · exfalso
    have hge : 65 ≤ c.toNat := hcapital.1
    have hle : c.toNat ≤ 90 := hcapital.2
    simp only [isBlank, Bool.or_eq_true, Bool.and_eq_true, decide_eq_true_eq, beq_iff_eq] at h
    omega
  · exact dif_neg hcapital

/-- Trimming leaves an end without blanks. -/
theorem Text.suffix_trim {as bs : List Char} (hne : bs ≠ []) (h : ∀ c ∈ bs, isBlank c = false) :
    bs <:+ trim (as ++ bs) := by
  obtain ⟨front, last, rfl⟩ : ∃ front last, bs = front ++ [last] :=
    ⟨_, _, (List.dropLast_append_getLast hne).symm⟩
  have hstart : ∃ rest, trimStart (as ++ (front ++ [last])) = rest ++ (front ++ [last]) := by
    induction as with
    | nil =>
      refine ⟨[], ?_⟩
      cases front with
      | nil => simp [trimStart, h last (by simp)]
      | cons c cs => simp [trimStart, h c (by simp)]
    | cons a as ih =>
      by_cases ha : isBlank a = true
      · simpa [trimStart, ha] using ih
      · exact ⟨a :: as, by simp [trimStart, ha]⟩
  obtain ⟨rest, hrest⟩ := hstart
  have hlast := h last (by simp)
  rw [trim, hrest, trimEnd]
  exact ⟨rest, by simp [hlast]⟩

namespace Path

/-- A text ends in an extension, capitals and small letters alike. -/
def EndsIn (ext : String) (cs : List Char) : Prop := ext.toList <:+ cs.map Char.toLower

instance (ext : String) (cs : List Char) : Decidable (EndsIn ext cs) :=
  inferInstanceAs (Decidable (_ <:+ _))

variable {ext : String} {cs : List Char}

/-- A text ends in an extension if some end of it is the extension up to case. -/
theorem endsIn_iff : EndsIn ext cs ↔ ∃ as bs, cs = as ++ bs ∧ bs.map Char.toLower = ext.toList := by
  constructor
  · rintro ⟨front, hfront⟩
    obtain ⟨as, bs, hcs, -, hbs⟩ := List.map_eq_append_iff.1 hfront.symm
    exact ⟨as, bs, hcs, hbs⟩
  · rintro ⟨as, bs, rfl, hbs⟩
    rw [EndsIn, List.map_append, hbs]
    exact List.suffix_append _ _

/-- A character that is its own small letter is in a text only if it is among the small letters. -/
theorem not_mem_of_map_toLower {bs : List Char} {c : Char} (hbs : bs.map Char.toLower = ext.toList)
    (hc : c.toLower = c) (hext : c ∉ ext.toList) : c ∉ bs :=
  fun hmem => hext (hbs ▸ List.mem_map.2 ⟨c, hmem, hc⟩)

/-- A text ends as any end of it does. -/
theorem endsIn_of_suffix {bs : List Char} (h : EndsIn ext bs) (hsuffix : bs <:+ cs) :
    EndsIn ext cs :=
  h.trans (hsuffix.map _)

/-- **A path with an extension has a last name that ends in it.** The extension of a name begins at
its last dot, but not at a dot in front. -/
theorem endsIn_of_hasSuffix {p : Path} (h : p.hasSuffix ext = true) : EndsIn ext p.name.toList := by
  rw [hasSuffix, beq_iff_eq, lowerAscii] at h
  rw [EndsIn, ← p.stem_append_suffix, ← h, String.toList_ofList,
    String.toList_append, List.map_append]
  exact List.suffix_append _ _

/-- The text of a path ends in its last name. -/
theorem suffix_toString {p : Path} (h : p.names ≠ []) : p.name.toList <:+ p.toString.toList := by
  obtain ⟨ns, n, hn⟩ : ∃ ns n, p.names = ns ++ [n] := ⟨_, _, (List.dropLast_append_getLast h).symm⟩
  have hname : p.name = n := by rw [name, hn]; simp
  rw [toString_of_names h, hname, hn, String.toList_append]
  refine List.IsSuffix.trans ?_ (List.suffix_append _ _)
  cases ns with
  | nil => simp
  | cons m ns =>
    rw [String.intercalate_append_of_ne_nil (by simp) (by simp), String.intercalate_singleton,
      String.toList_append]
    exact List.suffix_append _ _

/-- **A text that ends in an extension denotes a path whose last name does.** An extension of one
character could be a dot, which is no name. -/
theorem endsIn_name_ofString {s : String} (hslash : '/' ∉ ext.toList)
    (hlength : 1 < ext.toList.length) (h : EndsIn ext s.toList) :
    EndsIn ext (ofString s).name.toList := by
  obtain ⟨as, bs, hs, hbs⟩ := endsIn_iff.1 h
  have hfree : ∀ c ∈ bs, (c == '/') = false := by
    intro c hc
    rw [beq_eq_false_iff_ne]
    rintro rfl
    exact not_mem_of_map_toLower hbs (by decide) hslash hc
  obtain ⟨pieces, last, -, hsplit⟩ := Text.splitOnP_append as hfree
  have hlong : 1 < (last ++ bs).length := by
    rw [← hbs, List.length_map] at hlength
    rw [List.length_append]
    omega
  have hkept : (!(last ++ bs).isEmpty && (last ++ bs) != ['.']) = true := by
    rw [Bool.and_eq_true, Bool.not_eq_true', List.isEmpty_eq_false_iff, bne_iff_ne]
    constructor <;> intro heq <;> rw [heq] at hlong <;> simp at hlong
  have hname : (ofString s).name.toList = last ++ bs := by
    rw [name, ofString, namesOf, hs, hsplit, List.filter_append, List.map_append]
    simp only [List.filter_cons, hkept, if_true, List.filter_nil, List.map_cons, List.map_nil,
      List.getLast?_append, List.getLast?_singleton, Option.some_or, Option.getD_some,
      String.toList_ofList]
  rw [EndsIn, hname, List.map_append, hbs]
  exact List.suffix_append _ _

/-- The path that a project text means ends as the text does. -/
theorem endsIn_name_ofProjectText {raw : String} (hslash : '/' ∉ ext.toList)
    (hback : '\\' ∉ ext.toList) (hblank : ∀ c ∈ ext.toList, Text.isBlank c = false)
    (hlength : 1 < ext.toList.length) (h : EndsIn ext raw.toList) :
    EndsIn ext (ofProjectText raw).name.toList := by
  obtain ⟨as, bs, hraw, hbs⟩ := endsIn_iff.1 h
  have hsolid : ∀ c ∈ bs, Text.isBlank c = false := by
    intro c hc
    by_contra hc'
    rw [Bool.not_eq_false] at hc'
    exact not_mem_of_map_toLower hbs (Text.toLower_of_isBlank hc')
      (fun hmem => by simp [hblank c hmem] at hc') hc
  have hne : bs ≠ [] := by
    rintro rfl
    rw [← hbs] at hlength
    simp at hlength
  have hkept : slashes bs = bs := by
    refine (List.map_congr_left fun c hc => if_neg ?_).trans (List.map_id bs)
    rintro rfl
    exact not_mem_of_map_toLower hbs (by decide) hback hc
  refine endsIn_name_ofString hslash hlength ?_
  rw [String.toList_ofList, hraw]
  have hsuffix : bs <:+ slashes (Text.trim (as ++ bs)) := by
    have htrim : bs <:+ Text.trim (as ++ bs) := Text.suffix_trim hne hsolid
    have hmap := htrim.map (fun c => if c = '\\' then '/' else c)
    rwa [← slashes, ← slashes, hkept] at hmap
  exact endsIn_of_suffix (endsIn_iff.2 ⟨[], bs, rfl, hbs⟩) hsuffix

end Path
end MemberHarvest
