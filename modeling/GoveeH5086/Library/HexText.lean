import GoveeH5086.Library.BigEndian
import GoveeH5086.Library.Hexadecimal

/-!
# Byte strings as hexadecimal text

`text` writes two lower-case digits for each byte, and `fromHex` reads such text back, in either
case and with blanks between the bytes. `padded` writes a number with leading zeros.

1. `fromHex_text`: what was written is read back.
2. `text_inj`: different byte strings have different texts.
3. `padded_fromBytes`: the number of a byte string, written in full width, is its text.
-/

namespace HexText
open BigEndian Hexadecimal

/-- `bs.hex()`, as its characters. -/
def text (bs : Bytes) : List Char :=
  bs.flatMap fun b => [Nat.digitChar (b.toNat / 16), Nat.digitChar (b.toNat % 16)]

/-- The value of a digit in either case. -/
def digitValue (c : Char) : Option ℕ := upperDigits.idxOf? c.toUpper

/-- `bytes.fromhex(s)`, where `none` is its `ValueError`. -/
def fromHex : List Char → Option Bytes
  | [] => some []
  | [c] => if isBlank c then some [] else none
  | c :: d :: s =>
    if isBlank c then fromHex (d :: s)
    else do
      let high ← digitValue c
      let low ← digitValue d
      let bs ← fromHex s
      return UInt8.ofNat (16 * high + low) :: bs

/-- `f"{n:0kx}"`, with `k` for the width. -/
def padded (k n : ℕ) : List Char := (Nat.toDigits 16 n).leftpad k '0'

/-! ## Round trips -/

/-- A digit that was written is read, and is no blank. -/
theorem digitChar_read {d : ℕ} (hd : d < 16) :
    isBlank (Nat.digitChar d) = false ∧ digitValue (Nat.digitChar d) = some d := by
  have all : ∀ d < 16, isBlank (Nat.digitChar d) = false ∧ digitValue (Nat.digitChar d) = some d := by
    decide
  exact all d hd

@[simp] theorem text_nil : text [] = [] := rfl

@[simp] theorem text_cons (b : UInt8) (bs : Bytes) :
    text (b :: bs) = Nat.digitChar (b.toNat / 16) :: Nat.digitChar (b.toNat % 16) :: text bs := rfl

theorem text_append (xs ys : Bytes) : text (xs ++ ys) = text xs ++ text ys :=
  List.flatMap_append

theorem fromHex_text (bs : Bytes) : fromHex (text bs) = some bs := by
  induction bs with
  | nil => rfl
  | cons b bs ih =>
    have hb : b.toNat < 256 := b.toNat_lt
    obtain ⟨hblank, hhigh⟩ := digitChar_read (show b.toNat / 16 < 16 by omega)
    obtain ⟨-, hlow⟩ := digitChar_read (Nat.mod_lt b.toNat (show 0 < 16 by decide))
    rw [text_cons, fromHex, if_neg (Bool.eq_false_iff.mp hblank), hhigh, hlow, ih]
    show some (UInt8.ofNat (16 * (b.toNat / 16) + b.toNat % 16) :: bs) = some (b :: bs)
    rw [Nat.div_add_mod, UInt8.ofNat_toNat]

theorem text_inj {xs ys : Bytes} : text xs = text ys ↔ xs = ys := by
  refine ⟨fun h => ?_, congrArg text⟩
  have hread := fromHex_text xs
  rw [h, fromHex_text] at hread
  exact (Option.some.inj hread).symm

/-! ## Numbers in full width -/

/-- The digits of a number that fits, the most significant first. -/
theorem padded_eq {k n : ℕ} (h : n < 16 ^ (k + 1)) :
    padded (k + 1) n = (digits (k + 1) n).map Nat.digitChar := by
  induction k generalizing n with
  | zero =>
    have hn : n < 16 := by simpa using h
    rw [padded, Nat.toDigits_of_lt_base hn, digits, Nat.mod_eq_of_lt hn]
    rfl
  | succ k ih =>
    have hquotient : n / 16 < 16 ^ (k + 1) := Nat.div_lt_of_lt_mul (by rwa [pow_succ'] at h)
    have hpad : padded (k + 2) n = padded (k + 1) (n / 16) ++ [Nat.digitChar (n % 16)] := by
      unfold padded
      rw [Nat.toDigits_eq_if (by decide)]
      split
      · next hlt =>
        rw [Nat.div_eq_of_lt hlt, Nat.mod_eq_of_lt hlt, Nat.toDigits_zero]
        simp [List.leftpad, List.replicate_succ', List.append_assoc]
      · simp [List.leftpad]
    have hdigits : digits (k + 2) n = digits (k + 1) (n / 16) ++ [n % 16] := rfl
    rw [hpad, ih hquotient, hdigits, List.map_append, List.map_singleton]

/-- The text of a byte string spells its number. -/
theorem text_eq (bs : Bytes) :
    text bs = (digits (2 * bs.length) (fromBytes bs)).map Nat.digitChar := by
  induction bs using List.reverseRecOn with
  | nil => rfl
  | append_singleton bs b ih =>
    have hb : b.toNat < 256 := b.toNat_lt
    have hhigh : (256 * fromBytes bs + b.toNat) / 16 ^ 2 = fromBytes bs := by omega
    have hlow : digits 2 (256 * fromBytes bs + b.toNat) = [b.toNat / 16, b.toNat % 16] := by
      simp only [digits, List.nil_append, List.singleton_append, List.cons.injEq, and_true]
      omega
    rw [text_append, ih, List.length_append, List.length_singleton, Nat.mul_add, fromBytes_concat,
      digits_append, hhigh, List.map_append, Nat.mul_one, hlow]
    rfl

theorem padded_fromBytes {bs : Bytes} (h : bs ≠ []) :
    padded (2 * bs.length) (fromBytes bs) = text bs := by
  obtain ⟨b, rest, rfl⟩ := List.exists_cons_of_ne_nil h
  have hwidth : 2 * (b :: rest).length = 2 * rest.length + 1 + 1 := rfl
  have hfits : fromBytes (b :: rest) < 16 ^ (2 * rest.length + 1 + 1) := by
    rw [← hwidth, pow_mul]
    exact fromBytes_lt _
  rw [text_eq, hwidth, padded_eq hfits]

end HexText
