import Mathlib.Tactic.Common

namespace SearchFilter.Except

variable {ε ε' α β : Type}

/-- One step after the other succeeds where each of them does. -/
theorem bind_eq_ok_iff {m : Except ε α} {k : α → Except ε β} {b : β} :
    (m >>= k) = .ok b ↔ ∃ a, m = .ok a ∧ k a = .ok b := by
  change Except.bind m k = _ ↔ _
  unfold Except.bind
  cases m <;> simp

/-- One step after the other fails where the first does, or where it succeeds and the next fails. -/
theorem bind_eq_error_iff {m : Except ε α} {k : α → Except ε β} {e : ε} :
    (m >>= k) = .error e ↔ m = .error e ∨ ∃ a, m = .ok a ∧ k a = .error e := by
  change Except.bind m k = _ ↔ _
  unfold Except.bind
  cases m <;> simp

theorem map_eq_ok_iff {g : α → β} {m : Except ε α} {b : β} :
    g <$> m = .ok b ↔ ∃ a, m = .ok a ∧ g a = b := by
  change Except.map g m = _ ↔ _
  unfold Except.map
  cases m <;> simp

theorem pure_eq_ok_iff {a b : α} : (pure a : Except ε α) = .ok b ↔ a = b := by
  change (Except.ok a : Except ε α) = _ ↔ _
  simp

theorem mapError_eq_ok_iff {m : Except ε α} {g : ε → ε'} {a : α} :
    m.mapError g = .ok a ↔ m = .ok a := by
  cases m <;> simp [Except.mapError]

theorem elim_eq_ok_iff {o : Option α} {e : ε} {a : α} :
    o.elim (.error e) .ok = (.ok a : Except ε α) ↔ o = some a := by
  cases o <;> simp

theorem exists_error_iff {m : Except ε α} : (∃ e, m = .error e) ↔ ∀ a, m ≠ .ok a := by
  cases m <;> simp

/-- Steps for all members of a list succeed with the list of what each of them gives. -/
theorem mapM_eq_ok_iff {g : α → Except ε β} {as : List α} {bs : List β} :
    as.mapM g = .ok bs ↔ List.Forall₂ (fun a b => g a = .ok b) as bs := by
  induction as generalizing bs with
  | nil =>
    rw [List.mapM_nil, pure_eq_ok_iff]
    constructor
    · rintro rfl
      exact .nil
    · rintro ⟨⟩
      rfl
  | cons a as ih =>
    simp only [List.mapM_cons, bind_eq_ok_iff, pure_eq_ok_iff, ih]
    constructor
    · rintro ⟨b, hb, bs, hbs, rfl⟩
      exact .cons hb hbs
    · rintro (_ | ⟨hb, hbs⟩)
      exact ⟨_, hb, _, hbs, rfl⟩

end SearchFilter.Except

namespace SearchFilter.EStateM

/-- The same for computations that also change a state. -/
theorem bind_eq_ok_iff {ε σ α β : Type} {m : EStateM ε σ α} {k : α → EStateM ε σ β} {b : β} {s t : σ} :
    (m >>= k) s = .ok b t ↔ ∃ a u, m s = .ok a u ∧ k a u = .ok b t := by
  change EStateM.bind m k s = _ ↔ _
  unfold EStateM.bind
  cases m s <;> simp

end SearchFilter.EStateM
