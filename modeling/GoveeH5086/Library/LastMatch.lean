import Mathlib.Data.List.Basic
import Mathlib.Data.List.Induction

/-!
# Loops that keep one item

A loop over a list keeps the last item that matches, or, for want of a match, the first one.

1. `last_eq_some`, `last_eq_none`: what the first kind of loop keeps.
2. `last_filterMap`: the same, where the items are computed and some are left out.
3. `best_eq`: the second kind keeps the last match, or else the first item.
-/

namespace LastMatch

variable {α β : Type*} {p : α → Bool} {q : β → Bool} {xs : List α}

/-- `for x in xs: if p(x): kept = x`. -/
def last (p : α → Bool) (xs : List α) : Option α :=
  xs.foldl (fun kept x => if p x then some x else kept) none

/-- `for x in xs: if kept is None or p(x): kept = x`. -/
def best (p : α → Bool) (xs : List α) : Option α :=
  xs.foldl (fun kept x => if kept.isNone || p x then some x else kept) none

theorem last_concat (p : α → Bool) (xs : List α) (x : α) :
    last p (xs ++ [x]) = if p x then some x else last p xs := by
  rw [last, List.foldl_append]
  rfl

theorem best_concat (p : α → Bool) (xs : List α) (x : α) :
    best p (xs ++ [x]) = if (best p xs).isNone || p x then some x else best p xs := by
  rw [best, List.foldl_append]
  rfl

/-- The loop searches the list from its end. -/
theorem last_eq_find (p : α → Bool) (xs : List α) : last p xs = xs.reverse.find? p := by
  induction xs using List.reverseRecOn with
  | nil => rfl
  | append_singleton xs x ih =>
    rw [last_concat, ih, List.reverse_concat, List.find?_cons]
    cases p x <;> rfl

theorem last_eq_none : last p xs = none ↔ ∀ x ∈ xs, p x = false := by
  simp [last_eq_find]

/-- The last match, and none after it. -/
theorem last_eq_some {x : α} : last p xs = some x ↔
    ∃ ys zs, xs = ys ++ x :: zs ∧ p x = true ∧ ∀ z ∈ zs, p z = false := by
  rw [last_eq_find, List.find?_eq_some_iff_append]
  constructor
  · rintro ⟨hx, zs, ys, heq, hbefore⟩
    refine ⟨ys.reverse, zs.reverse, ?_, hx, fun z hz => ?_⟩
    · rw [← List.reverse_reverse xs, heq]
      simp
    · simpa using hbefore z (List.mem_reverse.mp hz)
  · rintro ⟨ys, zs, rfl, hx, hafter⟩
    refine ⟨hx, zs.reverse, ys.reverse, by simp, fun z hz => ?_⟩
    simpa using hafter z (List.mem_reverse.mp hz)

/-- The same for items that are computed from others. -/
theorem last_filterMap {f : α → Option β} {y : β} : last q (xs.filterMap f) = some y ↔
    ∃ ys x zs, xs = ys ++ x :: zs ∧ f x = some y ∧ q y = true ∧
      ∀ z ∈ zs, ∀ w, f z = some w → q w = false := by
  rw [last_eq_some]
  constructor
  · rintro ⟨ys, zs, heq, hy, hafter⟩
    obtain ⟨xs₁, xs₂, rfl, hys, hrest⟩ := List.filterMap_eq_append_iff.mp heq
    obtain ⟨skipped, x, xs₃, rfl, hskipped, hx, hzs⟩ := List.filterMap_eq_cons_iff.mp hrest
    refine ⟨xs₁ ++ skipped, x, xs₃, by simp, hx, hy, fun z hz w hw => ?_⟩
    exact hafter w (hzs ▸ List.mem_filterMap.mpr ⟨z, hz, hw⟩)
  · rintro ⟨ys, x, zs, rfl, hx, hy, hafter⟩
    refine ⟨ys.filterMap f, zs.filterMap f, by simp [hx], hy, fun w hw => ?_⟩
    obtain ⟨z, hz, hzw⟩ := List.mem_filterMap.mp hw
    exact hafter z hz w hzw

/-- The last match, or else the first item. -/
theorem best_eq : best p xs = (last p xs).or xs.head? := by
  induction xs using List.reverseRecOn with
  | nil => rfl
  | append_singleton xs x ih =>
    rw [best_concat, last_concat, ih]
    cases hx : p x with
    | true => simp
    | false =>
      cases xs with
      | nil => rfl
      | cons y ys => cases h : last p (y :: ys) <;> simp

end LastMatch
