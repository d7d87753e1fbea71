import Mathlib.Data.List.Pairwise
import Mathlib.Algebra.Order.Group.Unbundled.Int

/-!
# Sorting by a number, the greatest first

`descending key l` is `sorted(l, key=lambda x: -key(x))`.

1. `descending_perm`, `descending_sorted`: it is a permutation of the list, in descending order.
2. `descending_stable`: elements of one key keep their order.
3. `descending_of_sorted`: a list in descending order stays as it is.
-/

namespace SortBy

variable {α : Type*} (key : α → ℤ)

/-- The keys of two elements compare. -/
def before (a b : α) : Bool := decide (-key a ≤ -key b)

def descending (l : List α) : List α := l.mergeSort (before key)

theorem before_iff {a b : α} : before key a b = true ↔ key b ≤ key a := by
  rw [before, decide_eq_true_eq, Int.neg_le_neg_iff]

theorem before_trans (a b c : α) (hab : before key a b = true) (hbc : before key b c = true) :
    before key a c = true := by
  rw [before_iff] at hab hbc ⊢
  exact hbc.trans hab

theorem before_total (a b : α) : (before key a b || before key b a) = true := by
  rw [Bool.or_eq_true, before_iff, before_iff]
  exact le_total _ _

theorem descending_perm (l : List α) : (descending key l).Perm l := List.mergeSort_perm ..

theorem descending_sorted (l : List α) : (descending key l).Pairwise fun a b => key b ≤ key a :=
  (List.pairwise_mergeSort (before_trans key) (before_total key) l).imp (before_iff key).mp

theorem descending_stable (l : List α) (k : ℤ) :
    (descending key l).filter (fun a => key a = k) = l.filter fun a => key a = k := by
  have hequal : (l.filter fun a => key a = k).Pairwise fun a b => before key a b = true := by
    refine List.pairwise_of_forall_mem_list fun a ha b hb => (before_iff key).mpr ?_
    have hka := of_decide_eq_true (List.mem_filter.mp ha).2
    have hkb := of_decide_eq_true (List.mem_filter.mp hb).2
    exact (hkb.trans hka.symm).le
  have hsub := (List.sublist_mergeSort (before_trans key) (before_total key) hequal
    (List.filter_sublist (l := l))).filter fun a => key a = k
  simp only [List.filter_filter, Bool.and_self] at hsub
  exact (hsub.eq_of_length ((descending_perm key l).filter _).length_eq.symm).symm

theorem descending_of_sorted {l : List α} (h : l.Pairwise fun a b => key b ≤ key a) :
    descending key l = l :=
  List.mergeSort_of_pairwise (h.imp (before_iff key).mpr)

end SortBy
