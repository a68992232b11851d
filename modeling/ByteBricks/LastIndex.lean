/-! # The Last Position

  Newer entries of a list stand at its end, and a search by name wants the newest
  one. -/

namespace ByteBricks

/-- The position of the last element that satisfies `p`. -/
def lastIdx? {α : Type} (p : α → Bool) : List α → Option Nat
  | [] => none
  | a :: as =>
    match lastIdx? p as with
    | some i => some (i + 1)
    | none => if p a then some 0 else none

theorem getElem?_of_lastIdx? {α : Type} {p : α → Bool} {as : List α} {i : Nat}
    (h : lastIdx? p as = some i) : ∃ a, as[i]? = some a ∧ p a = true := by
  induction as generalizing i with
  | nil => simp [lastIdx?] at h
  | cons a as ih =>
    unfold lastIdx? at h
    split at h
    · next j hj =>
      cases h
      exact ih hj
    · split at h
      · next ha =>
        cases h
        exact ⟨a, rfl, ha⟩
      · simp at h

theorem lastIdx?_eq_none_iff {α : Type} {p : α → Bool} {as : List α} :
    lastIdx? p as = none ↔ ∀ a ∈ as, p a = false := by
  induction as with
  | nil => simp [lastIdx?]
  | cons a as ih =>
    rw [lastIdx?]
    cases h : lastIdx? p as with
    | some i =>
      have hsome : ¬ ∀ a ∈ as, p a = false := by
        rw [← ih, h]
        simp
      simp only [reduceCtorEq, List.forall_mem_cons, false_iff]
      exact fun hall => hsome hall.2
    | none => simpa using fun _ => ih.1 h

theorem not_of_lastIdx?_lt {α : Type} {p : α → Bool} {as : List α} {i j : Nat} {b : α}
    (h : lastIdx? p as = some i) (hj : i < j) (hb : as[j]? = some b) : p b = false := by
  induction as generalizing i j with
  | nil => simp at hb
  | cons a as ih =>
    obtain ⟨j, rfl⟩ : ∃ k, j = k + 1 := ⟨j - 1, by omega⟩
    rw [List.getElem?_cons_succ] at hb
    rw [lastIdx?] at h
    cases hrest : lastIdx? p as with
    | some k =>
      simp only [hrest, Option.some.injEq] at h
      exact ih hrest (by omega) hb
    | none => exact lastIdx?_eq_none_iff.1 hrest b (List.mem_of_getElem? hb)

/-- The last position is the one behind which no element satisfies `p`. -/
theorem lastIdx?_eq_some_iff {α : Type} {p : α → Bool} {as : List α} {i : Nat} :
    lastIdx? p as = some i ↔
      (∃ a, as[i]? = some a ∧ p a = true) ∧ ∀ j b, i < j → as[j]? = some b → p b = false := by
  constructor
  · exact fun h => ⟨getElem?_of_lastIdx? h, fun j b => not_of_lastIdx?_lt h⟩
  · intro h
    obtain ⟨⟨a, ha, hp⟩, hlast⟩ := h
    cases h : lastIdx? p as with
    | none =>
      have := lastIdx?_eq_none_iff.1 h a (List.mem_of_getElem? ha)
      simp [hp] at this
    | some k =>
      obtain ⟨b, hb, hpb⟩ := getElem?_of_lastIdx? h
      rcases Nat.lt_trichotomy i k with hik | rfl | hki
      · simp [hlast k b hik hb] at hpb
      · rfl
      · simp [not_of_lastIdx?_lt h hki ha] at hp

/-- The newest element comes first in a search. -/
theorem lastIdx?_append_singleton {α : Type} (p : α → Bool) (as : List α) (a : α) :
    lastIdx? p (as ++ [a]) = if p a then some as.length else lastIdx? p as := by
  induction as with
  | nil => simp [lastIdx?]
  | cons b as ih =>
    rw [List.cons_append, lastIdx?, ih, lastIdx?]
    by_cases ha : p a <;> simp [ha]

/-- An element that is found in the last part of a list is found in the whole list. -/
theorem lastIdx?_append_of_some {α : Type} {p : α → Bool} {bs : List α} {i : Nat}
    (h : lastIdx? p bs = some i) (as : List α) :
    lastIdx? p (as ++ bs) = some (as.length + i) := by
  induction as with
  | nil => simpa using h
  | cons a as ih =>
    rw [List.cons_append, lastIdx?, ih, List.length_cons, Nat.add_right_comm]

theorem lastIdx?_map {α β : Type} (p : β → Bool) (f : α → β) (as : List α) :
    lastIdx? p (as.map f) = lastIdx? (p ∘ f) as := by
  induction as with
  | nil => rfl
  | cons a as ih =>
    rw [List.map_cons, lastIdx?, lastIdx?, ih]
    rfl

end ByteBricks
