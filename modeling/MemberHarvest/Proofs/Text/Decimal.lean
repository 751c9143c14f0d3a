import MemberHarvest.Text.Decimal

/-!
# Proofs/Text/Decimal — digits denote the number they were written for

The digits of a number are read back to it (`natOfDigits_decimal`), and only the number zero has a
zero as its first digit (`head?_decimal`).
-/

namespace MemberHarvest.Text

theorem isDigit_eq_charIsDigit (c : Char) : isDigit c = c.isDigit := by
  rw [Bool.eq_iff_iff]
  simp only [isDigit, Char.isDigit, Bool.and_eq_true, decide_eq_true_eq]
  exact Iff.rfl

theorem isDigit_of_mem_decimal {n : Nat} {c : Char} (h : c ∈ decimal n) : isDigit c = true := by
  rw [isDigit_eq_charIsDigit]
  exact Nat.isDigit_of_mem_toDigits (by decide) (by decide) h

theorem decimal_ne_nil (n : Nat) : decimal n ≠ [] := Nat.toDigits_ne_nil

/-- **Reading the digits gives back the number.** -/
theorem natOfDigits_decimal (n : Nat) : natOfDigits (decimal n) = n :=
  Nat.ofDigitChars_eq_foldl.symm.trans Nat.ofDigitChars_ten_toDigits

/-- A number that is not zero has a first digit that is not zero. -/
theorem head?_decimal {n : Nat} (h : 0 < n) : (decimal n).head? ≠ some '0' := by
  induction n using Nat.strongRecOn with
  | ind n ih =>
    by_cases hn : n < 10
    · have small : ∀ m : Fin 10, 0 < m.1 → (decimal m.1).head? ≠ some '0' := by decide
      exact small ⟨n, hn⟩ h
    · have hq := ih (n / 10) (by omega) (by omega)
      obtain ⟨d, ds, hd⟩ := List.exists_cons_of_ne_nil (decimal_ne_nil (n / 10))
      rw [decimal, Nat.toDigits_of_base_le (by decide) (by omega)]
      change (decimal (n / 10) ++ [(n % 10).digitChar]).head? ≠ some '0'
      rw [hd] at hq ⊢
      exact hq

/-- The digits of a number have no zero in front of others. -/
theorem decimal_ne_zero_cons_cons (n : Nat) (c : Char) (cs : List Char) :
    decimal n ≠ '0' :: c :: cs := by
  intro h
  rcases Nat.eq_zero_or_pos n with rfl | hn
  · simp [decimal] at h
  · exact head?_decimal hn (by rw [h]; rfl)

end MemberHarvest.Text
