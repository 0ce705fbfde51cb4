import Mathlib.Data.List.Lex
import Mathlib.Data.Nat.Init
import Mathlib.Data.String.Basic
import Mathlib.Tactic.Common

namespace FixedWidth

/-- The last digits of a number, with the zeros before them. -/
def digits : ℕ → ℕ → List Char
  | 0, _ => []
  | width + 1, n => digits width (n / 10) ++ [Nat.digitChar (n % 10)]

theorem digits_length (width n : ℕ) : (digits width n).length = width := by
  induction width generalizing n with
  | zero => rfl
  | succ width ih => simp [digits, ih]

theorem isDigit_of_mem {width n : ℕ} {c : Char} (h : c ∈ digits width n) : c.isDigit = true := by
  induction width generalizing n with
  | zero => simp [digits] at h
  | succ width ih =>
      rw [digits, List.mem_append, List.mem_singleton] at h
      rcases h with h | rfl
      · exact ih h
      · have hall : ∀ d < 10, (Nat.digitChar d).isDigit = true := by decide
        exact hall _ (Nat.mod_lt _ (by omega))

/-! The order of texts of one width is the order of the numbers. -/

theorem lt_iff_div (k : ℕ) {m n : ℕ} :
    m < n ↔ m / k < n / k ∨ m / k = n / k ∧ m % k < n % k := by
  have hm := Nat.div_add_mod m k
  have hn := Nat.div_add_mod n k
  constructor
  · intro h
    rcases (Nat.div_le_div_right (c := k) h.le).lt_or_eq with hlt | heq
    · exact .inl hlt
    · rw [heq] at hm
      exact .inr ⟨heq, by omega⟩
  · rintro (hlt | ⟨heq, hlt⟩)
    · exact Nat.lt_of_div_lt_div hlt
    · rw [heq] at hm
      omega

theorem append_lt_append {xs ys us vs : List Char} (h : xs.length = ys.length) :
    xs ++ us < ys ++ vs ↔ xs < ys ∨ xs = ys ∧ us < vs := by
  induction xs generalizing ys with
  | nil =>
      obtain rfl : ys = [] := List.length_eq_zero_iff.1 h.symm
      simp
  | cons x xs ih =>
      cases ys with
      | nil => simp at h
      | cons y ys =>
          have hlength : xs.length = ys.length := by simpa using h
          rw [List.cons_append, List.cons_append, List.cons_lt_cons_iff, List.cons_lt_cons_iff,
            ih hlength, List.cons_eq_cons]
          tauto

theorem digitChar_lt : ∀ a < 10, ∀ b < 10, Nat.digitChar a < Nat.digitChar b ↔ a < b := by decide

theorem div_lt {width n : ℕ} (h : n < 10 ^ (width + 1)) : n / 10 < 10 ^ width := by
  rw [pow_succ] at h
  exact Nat.div_lt_of_lt_mul (by omega)

/-- The digits are read as the number. -/
theorem value_digits {width n : ℕ} (hn : n < 10 ^ width) :
    Nat.ofDigitChars 10 (digits width n) 0 = n := by
  induction width generalizing n with
  | zero =>
      rw [pow_zero, Nat.lt_one_iff] at hn
      rw [hn]
      rfl
  | succ width ih =>
      have hvalue : ∀ d < 10, (Nat.digitChar d).toNat - '0'.toNat = d := by decide
      have hrest := ih (div_lt hn)
      rw [Nat.ofDigitChars_eq_foldl] at hrest ⊢
      rw [digits, List.foldl_append, hrest, List.foldl_cons, List.foldl_nil,
        hvalue _ (Nat.mod_lt _ (by omega))]
      exact Nat.div_add_mod n 10

theorem digits_eq {width m n : ℕ} (hm : m < 10 ^ width) (hn : n < 10 ^ width) :
    digits width m = digits width n ↔ m = n := by
  constructor
  · intro h
    rw [← value_digits hm, h, value_digits hn]
  · rintro rfl
    rfl

theorem digits_lt {width m n : ℕ} (hm : m < 10 ^ width) (hn : n < 10 ^ width) :
    digits width m < digits width n ↔ m < n := by
  induction width generalizing m n with
  | zero =>
      rw [pow_zero, Nat.lt_one_iff] at hm hn
      simp [hm, hn]
  | succ width ih =>
      have hlength : (digits width (m / 10)).length = (digits width (n / 10)).length := by
        rw [digits_length, digits_length]
      have hlast := digitChar_lt (m % 10) (Nat.mod_lt _ (by omega)) (n % 10)
        (Nat.mod_lt _ (by omega))
      rw [digits, digits, append_lt_append hlength, ih (div_lt hm) (div_lt hn),
        digits_eq (div_lt hm) (div_lt hn), List.cons_lt_cons_iff, hlast, lt_iff_div 10 (m := m)]
      simp

theorem field_lt {width m n : ℕ} (hm : m < 10 ^ width) (hn : n < 10 ^ width) {us vs : List Char} :
    digits width m ++ us < digits width n ++ vs ↔ m < n ∨ m = n ∧ us < vs := by
  have hlength : (digits width m).length = (digits width n).length := by
    rw [digits_length, digits_length]
  rw [append_lt_append hlength, digits_lt hm hn, digits_eq hm hn]

theorem cons_lt {c : Char} {us vs : List Char} : c :: us < c :: vs ↔ us < vs := by
  rw [List.cons_lt_cons_iff]
  simp

theorem digits_zero (width : ℕ) : digits width 0 = List.replicate width '0' := by
  induction width with
  | zero => rfl
  | succ width ih =>
      rw [digits, ih, List.replicate_succ']
      rfl

/-- The zeros that `f"{n:0{width}}"` puts before the digits. -/
theorem padded_digits {width n : ℕ} (hwidth : 0 < width) (hn : n < 10 ^ width) :
    List.replicate (width - (Nat.toDigits 10 n).length) '0' ++ Nat.toDigits 10 n =
      digits width n := by
  induction width generalizing n with
  | zero => omega
  | succ width ih =>
      by_cases hlt : n < 10
      · rw [Nat.toDigits_of_lt_base hlt, digits, Nat.div_eq_of_lt hlt, Nat.mod_eq_of_lt hlt,
          digits_zero]
        rfl
      · have hpos : 0 < width := by
          rcases Nat.eq_zero_or_pos width with rfl | hpos
          · simp at hn
            omega
          · exact hpos
        have hrest := ih hpos (div_lt hn)
        rw [Nat.toDigits_of_base_le (by omega) (by omega), digits, ← hrest, List.length_append,
          List.length_singleton, Nat.add_sub_add_right, List.append_assoc]

/-! Reading a text of one width. -/

def readDigits (width : ℕ) (cs : List Char) : Option (ℕ × List Char) :=
  if (cs.take width).length = width ∧ (cs.take width).all Char.isDigit then
    some (Nat.ofDigitChars 10 (cs.take width) 0, cs.drop width)
  else none

theorem readDigits_digits {width n : ℕ} (hn : n < 10 ^ width) (rest : List Char) :
    readDigits width (digits width n ++ rest) = some (n, rest) := by
  have htake : (digits width n ++ rest).take width = digits width n := by
    rw [List.take_append_of_le_length (digits_length width n).ge, List.take_of_length_le]
    exact (digits_length width n).le
  have hdrop : (digits width n ++ rest).drop width = rest := by
    rw [List.drop_append_of_le_length (digits_length width n).ge, List.drop_eq_nil_of_le,
      List.nil_append]
    exact (digits_length width n).le
  have hall : (digits width n).all Char.isDigit = true :=
    List.all_eq_true.2 fun c hc => isDigit_of_mem hc
  rw [readDigits, htake, hdrop, if_pos ⟨digits_length width n, hall⟩, value_digits hn]

end FixedWidth
