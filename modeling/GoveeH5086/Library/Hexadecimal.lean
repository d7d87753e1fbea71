import Mathlib.Data.List.Forall2
import Mathlib.Tactic.Ring

/-!
# Fixed-width hexadecimal numerals

`digits k n` are the `k` lowest hexadecimal digits of `n`, the most significant first, and
`numeral k n` writes them in upper case.

1. `numeral_append`: a numeral is cut by dividing the number.
2. `numeral_inj`: two numbers have the same numeral exactly if they agree modulo `16 ^ k`.
3. `map_toUpper`: digits in either case are, in upper case, the numeral.

`isBlank` and `strip` are what readers of numerals do about white space.
-/

namespace Hexadecimal

def digits : ℕ → ℕ → List ℕ
  | 0, _ => []
  | k + 1, n => digits k (n / 16) ++ [n % 16]

def upperDigits : List Char := "0123456789ABCDEF".toList
def lowerDigits : List Char := "0123456789abcdef".toList

/-- The digit of value `d`. -/
def upperDigit (d : ℕ) : Char := upperDigits.getD d '0'

/-- `c` is a digit of value `d`, in either case. -/
def IsDigit (c : Char) (d : ℕ) : Prop := upperDigits[d]? = some c ∨ lowerDigits[d]? = some c

instance (c : Char) (d : ℕ) : Decidable (IsDigit c d) := inferInstanceAs (Decidable (_ ∨ _))

def numeral (k n : ℕ) : List Char := (digits k n).map upperDigit

/-- White space, in ASCII text. -/
def isBlank (c : Char) : Bool := c = ' ' || (9 ≤ c.toNat && c.toNat ≤ 13)

/-- What `int` strips at both ends. -/
def strip (text : List Char) : List Char :=
  ((text.dropWhile isBlank).reverse.dropWhile isBlank).reverse

/-! ## Digits -/

@[simp] theorem digits_length (k n : ℕ) : (digits k n).length = k := by
  induction k generalizing n with
  | zero => rfl
  | succ k ih => simp [digits, ih]

theorem digits_append (j k n : ℕ) : digits (j + k) n = digits j (n / 16 ^ k) ++ digits k n := by
  induction k generalizing n with
  | zero => simp [digits]
  | succ k ih =>
    have hdiv : n / 16 / 16 ^ k = n / 16 ^ (k + 1) := by
      rw [Nat.div_div_eq_div_mul, pow_succ, Nat.mul_comm]
    rw [← Nat.add_assoc, digits, ih, hdiv, digits, List.append_assoc]

/-! ## Numerals -/

theorem upperDigit_inj {c d : ℕ} (hc : c < 16) (hd : d < 16) (h : upperDigit c = upperDigit d) :
    c = d := by
  have all : ∀ c < 16, ∀ d < 16, upperDigit c = upperDigit d → c = d := by decide
  exact all c hc d hd h

@[simp] theorem numeral_length (k n : ℕ) : (numeral k n).length = k := by
  simp [numeral]

theorem numeral_append (j k n : ℕ) : numeral (j + k) n = numeral j (n / 16 ^ k) ++ numeral k n := by
  rw [numeral, digits_append, List.map_append]
  rfl

theorem numeral_succ (k n : ℕ) :
    numeral (k + 1) n = numeral k (n / 16) ++ [upperDigit (n % 16)] := by
  rw [numeral, digits, List.map_append]
  rfl

/-- Numerals of one width are equal exactly if the numbers agree modulo the width. -/
theorem numeral_inj {k m n : ℕ} : numeral k m = numeral k n ↔ m % 16 ^ k = n % 16 ^ k := by
  induction k generalizing m n with
  | zero => simp [numeral, digits, Nat.mod_one]
  | succ k ih =>
    have hsplit : ∀ a, a % 16 ^ (k + 1) = a % 16 + 16 * (a / 16 % 16 ^ k) := by
      intro a
      rw [pow_succ, Nat.mul_comm, Nat.mod_mul]
    have hm := Nat.mod_lt m (show 0 < 16 by decide)
    have hn := Nat.mod_lt n (show 0 < 16 by decide)
    rw [numeral_succ, numeral_succ, hsplit m, hsplit n]
    constructor
    · intro h
      obtain ⟨hhigh, hlow⟩ := List.append_inj' h rfl
      rw [ih.mp hhigh, upperDigit_inj hm hn (List.singleton_inj.mp hlow)]
    · intro h
      have hlow : m % 16 = n % 16 := by omega
      have hhigh : m / 16 % 16 ^ k = n / 16 % 16 ^ k := by omega
      rw [ih.mpr hhigh, hlow]

/-- A digit in either case is the upper-case digit, in upper case. -/
theorem IsDigit.toUpper {c : Char} {d : ℕ} (h : IsDigit c d) : c.toUpper = upperDigit d := by
  have hupper : ∀ d : Fin upperDigits.length, upperDigits[d].toUpper = upperDigit d := by decide
  have hlower : ∀ d : Fin lowerDigits.length, lowerDigits[d].toUpper = upperDigit d := by decide
  rcases h with h | h
  · obtain ⟨hd, rfl⟩ := List.getElem?_eq_some_iff.mp h
    exact hupper ⟨d, hd⟩
  · obtain ⟨hd, rfl⟩ := List.getElem?_eq_some_iff.mp h
    exact hlower ⟨d, hd⟩

/-- A numeral in any case is, in upper case, the numeral. -/
theorem map_toUpper {cs : List Char} {k n : ℕ} (h : List.Forall₂ IsDigit cs (digits k n)) :
    cs.map Char.toUpper = numeral k n := by
  unfold numeral
  generalize digits k n = ds at h
  induction h with
  | nil => rfl
  | cons hc _ ih => rw [List.map_cons, List.map_cons, ih, hc.toUpper]

theorem strip_pair {x y : Char} (hx : isBlank x = false) (hy : isBlank y = false) :
    strip [x, y] = [x, y] := by
  simp [strip, List.dropWhile, hx, hy]

end Hexadecimal
