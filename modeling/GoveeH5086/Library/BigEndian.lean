import Mathlib.Data.List.Induction
import Mathlib.Tactic.Ring
import Mathlib.Tactic.NormNum

/-!
# Big-endian numbers in byte strings

`fromBytes` and `toBytes` are `int.from_bytes(_, "big")` and `int.to_bytes(k, "big")`, and
`slice` is `bs[i:j]`.

1. `fromBytes_toBytes`, `toBytes_fromBytes`: the two conversions are mutually inverse on the
   numbers that fit and on the byte strings of the right width.
2. `slice_append_slice`: adjacent slices of one string join up. A packed record is therefore the
   concatenation of its fields, whatever their number.
3. `slice_append_left`, `slice_append_right`: a slice of a concatenation that stays within one part.
-/

namespace BigEndian

abbrev Bytes := List UInt8

/-- `int.from_bytes(bs, "big")`. -/
def fromBytes (bs : Bytes) : ℕ :=
  bs.foldl (fun n b => 256 * n + b.toNat) 0

/-- `n.to_bytes(k, "big")`, with the bits that do not fit cut off. -/
def toBytes : ℕ → ℕ → Bytes
  | 0, _ => []
  | k + 1, n => toBytes k (n / 256) ++ [UInt8.ofNat n]

/-- `bs[i:j]`. -/
def slice (bs : Bytes) (i j : ℕ) : Bytes :=
  (bs.take j).drop i

/-! ## Numbers -/

@[simp] theorem fromBytes_nil : fromBytes [] = 0 := rfl

@[simp] theorem fromBytes_concat (bs : Bytes) (b : UInt8) :
    fromBytes (bs ++ [b]) = 256 * fromBytes bs + b.toNat := by
  simp [fromBytes, List.foldl_append]

@[simp] theorem toBytes_length (k n : ℕ) : (toBytes k n).length = k := by
  induction k generalizing n with
  | zero => rfl
  | succ k ih => simp [toBytes, ih]

theorem fromBytes_lt (bs : Bytes) : fromBytes bs < 256 ^ bs.length := by
  induction bs using List.reverseRecOn with
  | nil => simp
  | append_singleton bs b ih =>
    have hb : b.toNat < 256 := b.toNat_lt
    rw [fromBytes_concat, List.length_append, List.length_singleton, pow_succ]
    omega

/-- Reading back a number that fits in `k` bytes. -/
theorem fromBytes_toBytes {k n : ℕ} (h : n < 256 ^ k) : fromBytes (toBytes k n) = n := by
  induction k generalizing n with
  | zero =>
    have hn : n = 0 := by simpa using h
    simp [toBytes, hn]
  | succ k ih =>
    have hq : n / 256 < 256 ^ k := by
      rw [pow_succ] at h
      exact Nat.div_lt_of_lt_mul (by rwa [Nat.mul_comm] at h)
    rw [toBytes, fromBytes_concat, ih hq, UInt8.toNat_ofNat']
    exact Nat.div_add_mod n 256

/-- Writing back what was read. -/
theorem toBytes_fromBytes (bs : Bytes) : toBytes bs.length (fromBytes bs) = bs := by
  induction bs using List.reverseRecOn with
  | nil => rfl
  | append_singleton bs b ih =>
    have hb : b.toNat < 256 := b.toNat_lt
    have hq : (256 * fromBytes bs + b.toNat) / 256 = fromBytes bs := by omega
    have hr : UInt8.ofNat (256 * fromBytes bs + b.toNat) = b := by
      apply UInt8.toNat_inj.mp
      rw [UInt8.toNat_ofNat']
      omega
    rw [List.length_append, List.length_singleton, toBytes, fromBytes_concat, hq, hr, ih]

theorem toBytes_fromBytes_of_length {bs : Bytes} {k : ℕ} (h : bs.length = k) :
    toBytes k (fromBytes bs) = bs := by
  subst h
  exact toBytes_fromBytes bs

/-! ## Slices -/

theorem slice_length {bs : Bytes} {i j : ℕ} (h : j ≤ bs.length) :
    (slice bs i j).length = j - i := by
  simp [slice, Nat.min_eq_left h]

theorem slice_append_slice (bs : Bytes) {i j k : ℕ} (hij : i ≤ j) (hjk : j ≤ k) :
    slice bs i j ++ slice bs j k = slice bs i k := by
  have hsplit : bs.take k = bs.take j ++ (bs.take k).drop j := by
    conv_lhs => rw [← List.take_append_drop j (bs.take k)]
    rw [List.take_take, Nat.min_eq_left hjk]
  unfold slice
  conv_rhs => rw [hsplit, List.drop_append]
  congr 1
  rcases Nat.lt_or_ge bs.length j with hj | hj
  · have hnil : (bs.take k).drop j = [] := by
      apply List.drop_eq_nil_of_le
      rw [List.length_take]
      omega
    rw [hnil, List.drop_nil]
  · have hzero : i - (bs.take j).length = 0 := by
      rw [List.length_take]
      omega
    rw [hzero, List.drop_zero]

theorem slice_zero_length {bs : Bytes} {k : ℕ} (h : bs.length = k) : slice bs 0 k = bs := by
  subst h
  simp [slice]

/-- A slice that ends inside the first part. -/
theorem slice_append_left {xs : Bytes} (ys : Bytes) {i j : ℕ} (h : j ≤ xs.length) :
    slice (xs ++ ys) i j = slice xs i j := by
  unfold slice
  rw [List.take_append_of_le_length h]

/-- A slice that starts at the end of the first part. -/
theorem slice_append_right {xs : Bytes} (ys : Bytes) {n i j : ℕ} (hn : xs.length = n)
    (hi : n ≤ i) (hj : n ≤ j) : slice (xs ++ ys) i j = slice ys (i - n) (j - n) := by
  subst hn
  unfold slice
  rw [List.take_append, List.drop_append, List.take_of_length_le hj,
    List.drop_eq_nil_of_le hi, List.nil_append]

/-- A slice of a slice from the start. -/
theorem slice_slice_zero (bs : Bytes) {i j k : ℕ} (h : j ≤ k) :
    slice (slice bs 0 k) i j = slice bs i j := by
  unfold slice
  rw [List.drop_zero, List.take_take, Nat.min_eq_left h]

/-- The one-byte slice at `i` is the byte at `i`. -/
theorem slice_single {bs : Bytes} {i : ℕ} {b : UInt8} (h : bs[i]? = some b) :
    slice bs i (i + 1) = [b] := by
  obtain ⟨hi, hb⟩ := List.getElem?_eq_some_iff.mp h
  unfold slice
  rw [List.take_add_one, List.drop_append, h]
  simp [Nat.min_eq_left (Nat.le_of_lt hi)]

end BigEndian
