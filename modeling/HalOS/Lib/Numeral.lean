import Mathlib.Data.Nat.Digits.Lemmas
import Mathlib.Tactic.Ring

/-!
# Numerals

The numeral of a natural number in a base, as a text over any alphabet: its digits from the most
significant one on, without a zero in front unless it is the number zero. The value of a text goes
back, also in another base.

## Main results

* `value_numeral`: the value of a numeral in its own base.
* `numeral_eq_cons`: there is no zero in front.
* `lt_value_numeral`: in a larger base a numeral of two digits or more has a larger value.
-/

namespace Numeral

universe u

variable {α : Type u} {b n : ℕ}

/-- The digits of a number, the least significant one first, and at least one. -/
def digits (b n : ℕ) : List ℕ := if n = 0 then [0] else Nat.digits b n

theorem digits_of_lt (h : n < b) : digits b n = [n] := by
  rw [digits]
  split_ifs with hn
  · rw [hn]
  · exact Nat.digits_of_lt b n hn h

/-- One digit more. -/
theorem digits_of_le (hb : 1 < b) (h : b ≤ n) : digits b n = n % b :: digits b (n / b) := by
  have hdiv : n / b ≠ 0 := (Nat.div_pos h (by omega)).ne'
  rw [digits, digits, if_neg (by omega), if_neg hdiv, Nat.digits_def' hb (by omega)]

theorem lt_of_mem_digits (hb : 1 < b) {d : ℕ} (h : d ∈ digits b n) : d < b := by
  rw [digits] at h
  split_ifs at h with hn
  · rw [List.mem_singleton.mp h]
    omega
  · exact Nat.digits_lt_base hb h

theorem ofDigits_digits (b n : ℕ) : Nat.ofDigits b (digits b n) = n := by
  rw [digits]
  split_ifs with hn
  · rw [hn, Nat.ofDigits_singleton]
  · exact Nat.ofDigits_digits b n

theorem length_digits_pos (b n : ℕ) : 0 < (digits b n).length := by
  rw [digits]
  split_ifs with hn
  · exact Nat.one_pos
  · exact List.length_pos_iff.mpr (Nat.digits_ne_nil_iff_ne_zero.mpr hn)

theorem length_digits_le (hb : 1 < b) {k : ℕ} (hk : 0 < k) (h : n < b ^ k) :
    (digits b n).length ≤ k := by
  rw [digits]
  split_ifs with hn
  · exact hk
  · exact Nat.digits_length_le_iff hb n |>.mpr h

/-- The low digits of a number. -/
theorem ofDigits_take_digits (hb : 1 < b) (m : ℕ) :
    Nat.ofDigits b ((digits b n).take m) = n % b ^ m := by
  rw [digits]
  split_ifs with hn
  · cases m <;> simp [hn]
  · exact (Nat.self_mod_pow_eq_ofDigits_take m n hb).symm

/-- The low digits make the number exactly if they are all of its digits. -/
theorem mod_pow_eq_iff (hb : 1 < b) (hn : n ≠ 0) (m : ℕ) :
    n % b ^ m = n ↔ (digits b n).length ≤ m := by
  rw [digits, if_neg hn, Nat.digits_length_le_iff hb, Nat.mod_eq_iff_lt (by positivity)]

/-- The numeral of a number. -/
def numeral (char : ℕ → α) (b n : ℕ) : List α := ((digits b n).map char).reverse

theorem length_numeral_le {char : ℕ → α} (hb : 1 < b) {k : ℕ} (hk : 0 < k) (h : n < b ^ k) :
    (numeral char b n).length ≤ k := by
  rw [numeral, List.length_reverse, List.length_map]
  exact length_digits_le hb hk h

theorem length_numeral_pos {char : ℕ → α} : 0 < (numeral char b n).length := by
  rw [numeral, List.length_reverse, List.length_map]
  exact length_digits_pos b n

/-- Only the characters of the digits below the base count. -/
theorem numeral_congr {char char' : ℕ → α} (hb : 1 < b) (h : ∀ d < b, char d = char' d) (n : ℕ) :
    numeral char b n = numeral char' b n := by
  rw [numeral, numeral]
  exact congrArg List.reverse
    (List.map_congr_left fun d hd => h d (lt_of_mem_digits hb hd))

/-- The characters are those of digits. -/
theorem exists_of_mem_numeral {char : ℕ → α} (hb : 1 < b) {c : α} (h : c ∈ numeral char b n) :
    ∃ d < b, char d = c := by
  obtain ⟨d, hd, rfl⟩ := List.mem_map.mp (List.mem_reverse.mp h)
  exact ⟨d, lt_of_mem_digits hb hd, rfl⟩

/-- There is no zero in front. -/
theorem numeral_eq_cons (char : ℕ → α) (hb : 1 < b) (hn : n ≠ 0) :
    ∃ d text, d ≠ 0 ∧ d < b ∧ numeral char b n = char d :: text := by
  have hdigits : digits b n = Nat.digits b n := if_neg hn
  have hne : Nat.digits b n ≠ [] := Nat.digits_ne_nil_iff_ne_zero.mpr hn
  refine ⟨(Nat.digits b n).getLast hne, (((Nat.digits b n).dropLast).map char).reverse,
    Nat.getLast_digit_ne_zero b hn, Nat.digits_lt_base hb (List.getLast_mem hne), ?_⟩
  rw [numeral, hdigits]
  conv_lhs => rw [← List.dropLast_append_getLast hne]
  rw [List.map_append, List.reverse_append]
  rfl

/-- The value of a text. -/
def value (val : α → ℕ) (b : ℕ) (text : List α) : ℕ := Nat.ofDigits b (text.reverse.map val)

@[simp] theorem value_nil (val : α → ℕ) (b : ℕ) : value val b [] = 0 := rfl

/-- One character more in front. -/
theorem value_cons (val : α → ℕ) (b : ℕ) (c : α) (text : List α) :
    value val b (c :: text) = val c * b ^ text.length + value val b text := by
  rw [value, List.reverse_cons, List.map_append, Nat.ofDigits_append, List.map_singleton,
    Nat.ofDigits_singleton, List.length_map, List.length_reverse, value]
  ring

/-- Its digits, read in any base. -/
theorem value_numeral_eq {char : ℕ → α} {val : α → ℕ} (hb : 1 < b)
    (hval : ∀ d < b, val (char d) = d) (c : ℕ) :
    value val c (numeral char b n) = Nat.ofDigits c (digits b n) := by
  rw [value, numeral, List.reverse_reverse, List.map_map]
  congr 1
  conv_rhs => rw [← List.map_id (digits b n)]
  exact List.map_congr_left fun d hd => hval d (lt_of_mem_digits hb hd)

/-- The value of a numeral. -/
theorem value_numeral {char : ℕ → α} {val : α → ℕ} (hb : 1 < b)
    (hval : ∀ d < b, val (char d) = d) : value val b (numeral char b n) = n := by
  rw [value_numeral_eq hb hval, ofDigits_digits]

/-- Zeros in front do not count. -/
theorem value_replicate_append {val : α → ℕ} {zero : α} (hzero : val zero = 0) (k : ℕ)
    (text : List α) : value val b (List.replicate k zero ++ text) = value val b text := by
  rw [value, List.reverse_append, List.map_append, List.reverse_replicate, List.map_replicate,
    hzero, Nat.ofDigits_append_replicate_zero, value]

/-- In a larger base a numeral of two digits or more has a larger value. -/
theorem lt_value_numeral {char : ℕ → α} {val : α → ℕ} (hb : 1 < b)
    (hval : ∀ d < b, val (char d) = d) {c : ℕ} (hc : b < c) (hn : b ≤ n) :
    n < value val c (numeral char b n) := by
  have hdiv : 0 < n / b := Nat.div_pos hn (by omega)
  have hrest : n / b ≤ Nat.ofDigits c (digits b (n / b)) := by
    conv_lhs => rw [← ofDigits_digits b (n / b)]
    exact Nat.ofDigits_monotone _ hc.le
  rw [value_numeral_eq hb hval, digits_of_le hb hn, Nat.ofDigits_cons]
  calc
    n = n % b + b * (n / b) := (Nat.mod_add_div n b).symm
    _ < n % b + c * (n / b) := Nat.add_lt_add_left (Nat.mul_lt_mul_of_pos_right hc hdiv) _
    _ ≤ _ := Nat.add_le_add_left (Nat.mul_le_mul_left c hrest) _

end Numeral
