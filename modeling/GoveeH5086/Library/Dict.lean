import Mathlib.Data.List.Basic
import Mathlib.Data.List.Induction

/-!
# Dictionaries in insertion order

A dictionary is the list of its keys and values, in the order in which the keys were first set.

1. `mem_keys_set`, `nodup_keys_set`: setting a key adds it at most once.
2. `lookup_set`: the new value is found under the key, the old ones under the others.
3. `mem_iff_lookup`: what a dictionary holds is what is found in it.
4. `keys_assign`, `lookup_assign`: after some assignments the keys stand in the order of their first,
   each with the value of its last.
-/

namespace Dict

variable {α β : Type*} [DecidableEq α]

/-- `d[k] = v`. A key that is there keeps its place. -/
def set (k : α) (v : β) : List (α × β) → List (α × β)
  | [] => [(k, v)]
  | (a, b) :: d => if a = k then (k, v) :: d else (a, b) :: set k v d

def keys (d : List (α × β)) : List α := d.map Prod.fst

theorem mem_keys_set {k a : α} {v : β} {d : List (α × β)} :
    a ∈ keys (set k v d) ↔ a = k ∨ a ∈ keys d := by
  induction d with
  | nil => simp [set, keys]
  | cons x d ih =>
    obtain ⟨b, y⟩ := x
    unfold keys at ih ⊢
    rw [set]
    split
    · next heq => simp [heq]
    · rw [List.map_cons, List.map_cons, List.mem_cons, List.mem_cons, ih]
      exact or_left_comm

/-- A new key goes to the end. -/
theorem keys_set (k : α) (v : β) (d : List (α × β)) :
    keys (set k v d) = if k ∈ keys d then keys d else keys d ++ [k] := by
  induction d with
  | nil => rfl
  | cons x d ih =>
    obtain ⟨b, y⟩ := x
    unfold keys at ih ⊢
    rw [set]
    split
    · next heq => simp [heq]
    · next hne =>
      rw [List.map_cons, ih, List.map_cons]
      by_cases hmem : k ∈ d.map Prod.fst
      · simp [hmem]
      · simp [hmem, Ne.symm hne]

theorem nodup_keys_set {k : α} {v : β} {d : List (α × β)} (h : (keys d).Nodup) :
    (keys (set k v d)).Nodup := by
  induction d with
  | nil => simp [set, keys]
  | cons x d ih =>
    obtain ⟨b, y⟩ := x
    obtain ⟨hnew, hrest⟩ := List.nodup_cons.mp h
    rw [set]
    split
    · next heq =>
      subst heq
      exact h
    · next hne =>
      refine List.nodup_cons.mpr ⟨fun hmem => ?_, ih hrest⟩
      rcases mem_keys_set.mp hmem with heq | hold
      · exact hne heq
      · exact hnew hold

theorem lookup_cons (a b : α) (y : β) (d : List (α × β)) :
    ((b, y) :: d).lookup a = if a = b then some y else d.lookup a := by
  split
  · next heq =>
    subst heq
    exact List.lookup_cons_self
  · next hne =>
    have hbeq : (a == b) = false := beq_eq_false_iff_ne.mpr hne
    rw [List.lookup_cons, hbeq]

theorem lookup_set (k a : α) (v : β) (d : List (α × β)) :
    (set k v d).lookup a = if a = k then some v else d.lookup a := by
  induction d with
  | nil => exact lookup_cons a k v []
  | cons x d ih =>
    obtain ⟨b, y⟩ := x
    rw [set]
    split
    · next heq =>
      subst heq
      rw [lookup_cons, lookup_cons]
      split <;> rfl
    · next hne =>
      rw [lookup_cons, lookup_cons, ih]
      split
      · next heq => rw [if_neg (heq ▸ hne)]
      · rfl

theorem mem_keys_of_lookup {a : α} {v : β} {d : List (α × β)} (h : d.lookup a = some v) :
    a ∈ keys d := by
  induction d with
  | nil => cases h
  | cons x d ih =>
    obtain ⟨b, y⟩ := x
    rw [lookup_cons] at h
    split at h
    · next heq => exact List.mem_cons.mpr (.inl heq)
    · exact List.mem_cons_of_mem _ (ih h)

theorem mem_iff_lookup {a : α} {v : β} {d : List (α × β)} (h : (keys d).Nodup) :
    (a, v) ∈ d ↔ d.lookup a = some v := by
  induction d with
  | nil => simp
  | cons x d ih =>
    obtain ⟨b, y⟩ := x
    obtain ⟨hnew, hrest⟩ := List.nodup_cons.mp h
    rw [List.mem_cons, ih hrest, lookup_cons]
    split
    · next heq =>
      subst heq
      constructor
      · rintro (heq | hold)
        · cases heq
          rfl
        · exact absurd (mem_keys_of_lookup hold) hnew
      · intro heq
        cases heq
        exact .inl rfl
    · next hne =>
      constructor
      · rintro (heq | hold)
        · cases heq
          exact absurd rfl hne
        · exact hold
      · exact .inr

/-! ## Dictionaries that keep the last value -/

/-- The dictionary after some assignments. -/
def assign (ps : List (α × β)) : List (α × β) := ps.foldl (fun d p => set p.1 p.2 d) []

theorem assign_concat (ps : List (α × β)) (k : α) (v : β) :
    assign (ps ++ [(k, v)]) = set k v (assign ps) := by
  rw [assign, List.foldl_append]
  rfl

theorem nodup_keys_assign (ps : List (α × β)) : (keys (assign ps)).Nodup := by
  induction ps using List.reverseRecOn with
  | nil => exact List.nodup_nil
  | append_singleton ps p ih =>
    rw [assign_concat]
    exact nodup_keys_set ih

/-- Another element is added at the end, unless it is there. -/
theorem eraseDups_concat (ks : List α) (k : α) :
    (ks ++ [k]).eraseDups = if k ∈ ks then ks.eraseDups else ks.eraseDups ++ [k] := by
  rw [List.eraseDups_append, List.cons_removeAll]
  by_cases hmem : k ∈ ks
  · simp [hmem]
  · simp [hmem, List.eraseDups_cons]

/-- The keys stand in the order in which they were first assigned. -/
theorem keys_assign (ps : List (α × β)) : keys (assign ps) = (ps.map Prod.fst).eraseDups := by
  induction ps using List.reverseRecOn with
  | nil => rfl
  | append_singleton ps p ih =>
    rw [assign_concat, keys_set, ih, List.map_append, List.map_singleton, eraseDups_concat]
    simp only [List.mem_eraseDups]

/-- Under a key there is the value that was assigned to it last. -/
theorem lookup_assign (ps : List (α × β)) (a : α) :
    (assign ps).lookup a = ((ps.filter fun p => p.1 = a).getLast?).map Prod.snd := by
  induction ps using List.reverseRecOn with
  | nil => rfl
  | append_singleton ps p ih =>
    rw [assign_concat, lookup_set, ih, List.filter_append]
    by_cases hkey : a = p.1
    · simp [hkey]
    · simp [hkey, Ne.symm hkey]

end Dict
