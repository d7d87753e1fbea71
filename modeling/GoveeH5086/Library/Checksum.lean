import Mathlib.Data.List.Basic

/-!
# Checksums that cancel

A message ends in a word that makes the sum of all its words neutral. The sum is any commutative
operation in which every word is its own inverse, such as exclusive or.

1. `total_append`, `total_zipWith`: sums of joined and of overlaid messages.
2. `total_concat_iff`: the last word of a valid message is the sum of the others.
3. `total_corrupted_iff`: an error goes unnoticed exactly if its own words cancel.
4. `total_set_iff`: an error in one word is always noticed.
-/

namespace Checksum

/-- A commutative operation in which every element is its own inverse. -/
structure SelfInverse {α : Type*} (op : α → α → α) (e : α) : Prop where
  assoc : ∀ a b c, op (op a b) c = op a (op b c)
  comm : ∀ a b, op a b = op b a
  unit : ∀ a, op e a = a
  self : ∀ a, op a a = e

/-- The sum of the words of a message. -/
def total {α : Type*} (op : α → α → α) (e : α) (xs : List α) : α := xs.foldl op e

variable {α : Type*} {op : α → α → α} {e : α}

/-! ## The operation -/

namespace SelfInverse

variable (h : SelfInverse op e)
include h

theorem unit_right (a : α) : op a e = a := by
  rw [h.comm, h.unit]

theorem cancel_left (a b : α) : op a (op a b) = b := by
  rw [← h.assoc, h.self, h.unit]

theorem eq_unit_iff {a b : α} : op a b = e ↔ b = a := by
  constructor
  · intro heq
    rw [← h.cancel_left a b, heq, h.unit_right]
  · rintro rfl
    exact h.self b

theorem right_inj {a b c : α} : op a c = op b c ↔ a = b := by
  constructor
  · intro heq
    rw [h.comm a, h.comm b] at heq
    rw [← h.cancel_left c a, heq, h.cancel_left]
  · rintro rfl
    rfl

theorem exchange (a b c d : α) : op (op a b) (op c d) = op (op a c) (op b d) := by
  rw [h.assoc, h.assoc, ← h.assoc b c d, h.comm b c, h.assoc c b d]

end SelfInverse

/-! ## Sums -/

@[simp] theorem total_nil : total op e [] = e := rfl

theorem foldl_eq (h : SelfInverse op e) (a : α) (xs : List α) :
    xs.foldl op a = op a (total op e xs) := by
  induction xs generalizing a with
  | nil => exact (h.unit_right a).symm
  | cons x xs ih =>
    have hcons : total op e (x :: xs) = op x (total op e xs) := by
      rw [total, List.foldl_cons, h.unit, ih]
    rw [List.foldl_cons, ih, hcons, h.assoc]

theorem total_cons (h : SelfInverse op e) (x : α) (xs : List α) :
    total op e (x :: xs) = op x (total op e xs) := by
  rw [total, List.foldl_cons, h.unit, foldl_eq h]

theorem total_append (h : SelfInverse op e) (xs ys : List α) :
    total op e (xs ++ ys) = op (total op e xs) (total op e ys) := by
  rw [total, List.foldl_append, foldl_eq h]
  rfl

/-- One message laid over another of the same length. -/
theorem total_zipWith (h : SelfInverse op e) {xs ys : List α} (hlen : xs.length = ys.length) :
    total op e (List.zipWith op xs ys) = op (total op e xs) (total op e ys) := by
  induction xs generalizing ys with
  | nil => rw [List.length_eq_zero_iff.mp hlen.symm, List.zipWith_nil_left, total_nil, h.unit]
  | cons x xs ih =>
    obtain ⟨y, ys, rfl⟩ := List.exists_cons_of_length_eq_add_one hlen.symm
    rw [List.zipWith_cons_cons, total_cons h, total_cons h, total_cons h,
      ih (Nat.succ.inj hlen), h.exchange]

/-! ## Valid messages -/

/-- A message is valid exactly if its last word is the sum of the others. -/
theorem total_concat_iff (h : SelfInverse op e) {xs : List α} {c : α} :
    total op e (xs ++ [c]) = e ↔ c = total op e xs := by
  rw [total_append h, total_cons h, total_nil, h.unit_right, h.eq_unit_iff]

/-- A valid message with an error laid over it is valid exactly if the error is. -/
theorem total_corrupted_iff (h : SelfInverse op e) {xs es : List α}
    (hlen : xs.length = es.length) (hvalid : total op e xs = e) :
    total op e (List.zipWith op xs es) = e ↔ total op e es = e := by
  rw [total_zipWith h hlen, hvalid, h.unit]

/-- A valid message with another word in one place is not valid. -/
theorem total_set_iff (h : SelfInverse op e) {xs : List α} {i : ℕ} {a b : α}
    (ha : xs[i]? = some a) (hvalid : total op e xs = e) :
    total op e (xs.set i b) = e ↔ b = a := by
  obtain ⟨hi, rfl⟩ := List.getElem?_eq_some_iff.mp ha
  have hsplit : xs = xs.take i ++ xs[i] :: xs.drop (i + 1) := by
    rw [← List.drop_eq_getElem_cons hi, List.take_append_drop]
  have hrest : op xs[i] (total op e (xs.drop (i + 1))) = total op e (xs.take i) := by
    rwa [hsplit, total_append h, total_cons h, h.eq_unit_iff] at hvalid
  rw [List.set_eq_take_append_cons_drop, if_pos hi, total_append h, total_cons h, h.eq_unit_iff,
    ← hrest, h.right_inj]

end Checksum
