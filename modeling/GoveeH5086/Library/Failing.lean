import Mathlib.Data.List.Basic

/-!
# Loops that can fail

If every turn of a loop either succeeds or raises one certain exception, the loop raises it exactly
if some turn does, and computes what the turns without it compute.

1. `mapM_eq`: a loop that collects.
2. `foldlM_eq`: a loop with an accumulator.
3. `mapM_ok`: in a loop that succeeds every turn does, whatever exceptions there are, and gives the
   result in its place.
-/

namespace Failing

variable {α β ε : Type*} {err : ε} {fails : α → Bool}

theorem mapM_eq {f : α → Except ε β} {g : α → β}
    (h : ∀ a, f a = if fails a then .error err else .ok (g a)) (xs : List α) :
    xs.mapM f = if xs.any fails then .error err else .ok (xs.map g) := by
  induction xs with
  | nil => rfl
  | cons x xs ih =>
    rw [List.mapM_cons, h x, ih, List.any_cons, List.map_cons]
    cases fails x with
    | true => rfl
    | false => cases xs.any fails <;> rfl

theorem foldlM_eq {f : β → α → Except ε β} {g : β → α → β}
    (h : ∀ b a, f b a = if fails a then .error err else .ok (g b a)) (xs : List α) (b : β) :
    xs.foldlM f b = if xs.any fails then .error err else .ok (xs.foldl g b) := by
  induction xs generalizing b with
  | nil => rfl
  | cons x xs ih =>
    rw [List.foldlM_cons, h b x, List.any_cons, List.foldl_cons]
    cases fails x with
    | true => rfl
    | false => exact ih (g b x)

/-- If a loop that collects succeeds, every turn does, and its result has the place of its turn. -/
theorem mapM_ok {f : α → Except ε β} {xs : List α} {ys : List β} (h : xs.mapM f = .ok ys) {i : ℕ}
    {x : α} (hi : xs[i]? = some x) : ∃ y, ys[i]? = some y ∧ f x = .ok y := by
  induction xs generalizing ys i with
  | nil => cases hi
  | cons x' xs ih =>
    rw [List.mapM_cons] at h
    cases hx : f x' with
    | error err =>
      rw [hx] at h
      cases h
    | ok y =>
      cases hxs : xs.mapM f with
      | error err =>
        rw [hx, hxs] at h
        cases h
      | ok rest =>
        rw [hx, hxs] at h
        obtain rfl := Except.ok.inj h
        cases i with
        | zero =>
          obtain rfl := Option.some.inj hi
          exact ⟨y, rfl, hx⟩
        | succ i => exact ih hxs hi

end Failing
