/-!
# Results that are fine

A chain of steps that may fail comes to a result exactly if each of its steps does.
-/

namespace StaffRights

variable {ε ε' α β : Type}

/-- One step after another succeeds just if both do. -/
theorem bind_eq_ok_iff {x : Except ε α} {f : α → Except ε β} {b : β} :
    x >>= f = .ok b ↔ ∃ a, x = .ok a ∧ f a = .ok b := by
  cases x <;> simp [bind, Except.bind]

theorem map_eq_ok_iff {x : Except ε α} {f : α → β} {b : β} :
    x.map f = .ok b ↔ ∃ a, x = .ok a ∧ f a = b := by
  cases x <;> simp [Except.map]

/-- Wording an error in another way makes no result. -/
theorem mapError_eq_ok_iff {f : ε → ε'} {x : Except ε α} {a : α} :
    x.mapError f = .ok a ↔ x = .ok a := by
  constructor
  · intro hx
    cases x with
    | error e => cases hx
    | ok b =>
      cases hx
      rfl
  · rintro rfl
    rfl

section Fold

variable {f : β → α → Except ε β} {l : List α} {b b' : β}

/-- A list of steps succeeds just if the first does, and from there the rest. -/
theorem foldlM_cons_eq_ok_iff {a : α} :
    (a :: l).foldlM f b = .ok b' ↔ ∃ c, f b a = .ok c ∧ l.foldlM f c = .ok b' := by
  rw [List.foldlM_cons, bind_eq_ok_iff]

/-- What one step keeps, a list of steps keeps. -/
theorem foldlM_keeps {P : β → Prop} (hf : ∀ {b b' : β} {a : α}, P b → f b a = .ok b' → P b')
    (hP : P b) (hl : l.foldlM f b = .ok b') : P b' := by
  induction l generalizing b with
  | nil =>
    cases hl
    exact hP
  | cons a l ih =>
    obtain ⟨c, hc, hl⟩ := foldlM_cons_eq_ok_iff.1 hl
    exact ih (hf hP hc) hl

end Fold

end StaffRights
