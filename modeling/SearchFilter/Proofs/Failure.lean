import Mathlib.Tactic.Common
import SearchFilter.Error

namespace SearchFilter.Except

variable {ε α β : Type} {P : ε → Prop}

/-- Whether a computation, if it fails, fails with an error of the class `P`. What reads an input
fails with errors of its own class, whatever it calls to check what it read. -/
def FailsOnly (P : ε → Prop) (m : Except ε α) : Prop :=
  ∀ e, m = .error e → P e

theorem failsOnly_ok (a : α) : FailsOnly P (.ok a) := by
  intro e h
  cases h

theorem failsOnly_error {e : ε} (he : P e) : FailsOnly P (.error e : Except ε α) := by
  intro e' h
  cases h
  exact he

/-- Steps one after the other fail with the errors of the first or of the one behind it. -/
theorem FailsOnly.bind {m : Except ε α} {k : α → Except ε β} (hm : FailsOnly P m)
    (hk : ∀ a, FailsOnly P (k a)) : FailsOnly P (m >>= k) := by
  cases m with
  | error e => exact failsOnly_error (hm e rfl)
  | ok a => exact hk a

theorem FailsOnly.map {m : Except ε α} (hm : FailsOnly P m) (g : α → β) : FailsOnly P (g <$> m) := by
  cases m with
  | error e => exact failsOnly_error (hm e rfl)
  | ok a => exact failsOnly_ok _

theorem FailsOnly.mono {Q : ε → Prop} {m : Except ε α} (hm : FailsOnly P m) (h : ∀ e, P e → Q e) :
    FailsOnly Q m :=
  fun e herror => h e (hm e herror)

/-- Steps for all members of a list fail with the errors of one of them. -/
theorem failsOnly_mapM {g : α → Except ε β} (hg : ∀ a, FailsOnly P (g a)) (as : List α) :
    FailsOnly P (as.mapM g) := by
  induction as with
  | nil => exact failsOnly_ok []
  | cons a as ih =>
    rw [List.mapM_cons]
    exact (hg a).bind fun b => ih.bind fun bs => failsOnly_ok _

end SearchFilter.Except

namespace SearchFilter.FilterError

/-- Whether a text is at fault. -/
def IsTextual (e : FilterError) : Prop :=
  ∃ fault, e = .parse fault

/-- Whether a text is at fault for something else than how deep it nests. -/
def IsMisspelled (e : FilterError) : Prop :=
  ∃ fault, e = .parse fault ∧ fault ≠ .nestedTooDeep

/-- Whether an encoding is at fault. -/
def IsBinary (e : FilterError) : Prop :=
  (∃ fault, e = .ber fault) ∨ ∃ context expected found, e = .tagMismatch context expected found

/-- Whether a node is at fault. -/
def IsOfNode (e : FilterError) : Prop :=
  ∃ fault, e = .invalid fault

/-- Whether a match was left undecided. -/
def IsUndecided (e : FilterError) : Prop :=
  ∃ kind, e = .notImplemented kind

theorem IsMisspelled.isTextual {e : FilterError} (h : e.IsMisspelled) : e.IsTextual := by
  obtain ⟨fault, he, _⟩ := h
  exact ⟨fault, he⟩

theorem IsMisspelled.ne_tooDeep {e : FilterError} (h : e.IsMisspelled) : e ≠ .parse .nestedTooDeep := by
  rintro rfl
  obtain ⟨fault, hfault, hne⟩ := h
  cases hfault
  exact hne rfl

/-- Malformed input are the errors of a text and those of an encoding. -/
theorem isMalformedInput_eq_true_iff {e : FilterError} :
    e.isMalformedInput = true ↔ e.IsTextual ∨ e.IsBinary := by
  cases e <;> simp [isMalformedInput, IsTextual, IsBinary]

/-- The errors that are not those of an input are those of a node and of an undecided match. -/
theorem isMalformedInput_eq_false_iff {e : FilterError} :
    e.isMalformedInput = false ↔ e.IsOfNode ∨ e.IsUndecided := by
  cases e <;> simp [isMalformedInput, IsOfNode, IsUndecided]

end SearchFilter.FilterError
