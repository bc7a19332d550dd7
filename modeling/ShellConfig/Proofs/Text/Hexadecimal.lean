import ShellConfig.Text.Quoted
import Mathlib.Algebra.Group.Nat.Defs

/-!
# Hexadecimal numbers

Main statements: `hex_injective`, that different numbers are written differently, and `length_hex`,
that a number which fits into a width is written in that width.
-/

namespace ShellConfig.Text

def hexDigitValue (c : Char) : Nat :=
  if c.isDigit then c.toNat - '0'.toNat else c.toNat - 'a'.toNat + 10

/-- The number that hexadecimal digits write. -/
def hexValue (ds : Text) : Nat := ds.foldl (fun n c => 16 * n + hexDigitValue c) 0

theorem hexValue_concat (ds : Text) (c : Char) :
    hexValue (ds ++ [c]) = 16 * hexValue ds + hexDigitValue c := by
  simp [hexValue]

theorem hexDigitValue_digitChar {n : Nat} (h : n < 16) : hexDigitValue n.digitChar = n := by
  have hall : ∀ k : Fin 16, hexDigitValue (k : Nat).digitChar = k := by decide
  exact hall ⟨n, h⟩

theorem hexValue_toDigits (n : Nat) : hexValue (Nat.toDigits 16 n) = n := by
  induction n using Nat.strongRecOn with
  | ind n ih =>
    by_cases h : n < 16
    · rw [Nat.toDigits_of_lt_base h]
      simp [hexValue, hexDigitValue_digitChar h]
    · rw [Nat.toDigits_of_base_le (by omega) (by omega), hexValue_concat, ih (n / 16) (by omega),
        hexDigitValue_digitChar (by omega)]
      omega

theorem hexValue_zeros_append (k : Nat) (ds : Text) :
    hexValue (List.replicate k '0' ++ ds) = hexValue ds := by
  induction k with
  | zero => simp
  | succ k ih =>
    rw [List.replicate_succ, List.cons_append]
    exact ih

theorem hexValue_hex (width n : Nat) : hexValue (hex width n) = n := by
  unfold hex
  rw [hexValue_zeros_append, hexValue_toDigits]

theorem hex_injective {width m n : Nat} (h : hex width m = hex width n) : m = n := by
  rw [← hexValue_hex width m, h, hexValue_hex]

theorem le_length_hex (width n : Nat) : width ≤ (hex width n).length := by
  simp only [hex, List.length_append, List.length_replicate]
  omega

theorem length_hex {width n : Nat} (hw : 0 < width) (h : n < 16 ^ width) :
    (hex width n).length = width := by
  have hle := (Nat.length_toDigits_le_iff (by omega) hw).2 h
  simp only [hex, List.length_append, List.length_replicate]
  omega

theorem mem_toDigits_sixteen {n : Nat} {c : Char} (h : c ∈ Nat.toDigits 16 n) :
    ∃ k < 16, c = k.digitChar := by
  induction n using Nat.strongRecOn with
  | ind n ih =>
    by_cases hn : n < 16
    · rw [Nat.toDigits_of_lt_base hn, List.mem_singleton] at h
      exact ⟨n, hn, h⟩
    · rw [Nat.toDigits_of_base_le (by omega) (by omega), List.mem_append,
        List.mem_singleton] at h
      rcases h with h | h
      · exact ih (n / 16) (by omega) h
      · exact ⟨n % 16, by omega, h⟩

theorem utf8Size_of_mem_hex {width n : Nat} {c : Char} (h : c ∈ hex width n) : c.utf8Size = 1 := by
  have hall : ∀ k : Fin 16, (k : Nat).digitChar.utf8Size = 1 := by decide
  unfold hex at h
  rcases List.mem_append.1 h with h | h
  · rw [List.eq_of_mem_replicate h]
    rfl
  · obtain ⟨k, hk, rfl⟩ := mem_toDigits_sixteen h
    exact hall ⟨k, hk⟩

end ShellConfig.Text
