import Mathlib.Tactic.Common
import SearchFilter.Proofs.Ber.Closed
import SearchFilter.Proofs.Ber.Reader

namespace SearchFilter.Ber.Read

open FilterError

variable {α β : Type} {P : FilterError → Prop}

/-- Whether a read, if it fails, fails with an error of the class `P`, wherever the reader stands. -/
def FailsOnly (P : FilterError → Prop) (m : Read α) : Prop :=
  ∀ r e s, m r = .error e s → P e

theorem failsOnly_pure (a : α) : FailsOnly P (pure a : Read α) := by
  intro r e s h
  cases h

theorem failsOnly_get : FailsOnly P (get : Read Reader) := by
  intro r e s h
  cases h

theorem failsOnly_throw {e : FilterError} (he : P e) : FailsOnly P (throw e : Read α) := by
  intro r e' s h
  cases h
  exact he

/-- Reads one after the other fail with the errors of the first or of the one behind it. -/
theorem FailsOnly.bind {m : Read α} {k : α → Read β} (hm : FailsOnly P m)
    (hk : ∀ a, FailsOnly P (k a)) : FailsOnly P (m >>= k) := by
  intro r e s h
  rw [bind_eq_error_iff] at h
  obtain hfirst | ⟨a, t, _, hnext⟩ := h
  · exact hm r e s hfirst
  · exact hk a t e s hnext

theorem FailsOnly.ite {p : Prop} [Decidable p] {m k : Read α} (hm : FailsOnly P m)
    (hk : FailsOnly P k) : FailsOnly P (if p then m else k) := by
  by_cases hp : p
  · rw [if_pos hp]
    exact hm
  · rw [if_neg hp]
    exact hk

theorem failsOnly_fail (fault : BerFault) : FailsOnly IsBinary (fail fault : Read α) :=
  failsOnly_throw (.inl ⟨fault, rfl⟩)

theorem failsOnly_octet (fault : BerFault) : FailsOnly IsBinary (octet fault) := by
  intro r e s h
  unfold octet at h
  split at h
  · cases h
  · cases h
    exact .inl ⟨fault, rfl⟩

theorem failsOnly_octets (n : Nat) (fault : Nat → BerFault) : FailsOnly IsBinary (octets n fault) := by
  intro r e s h
  unfold octets at h
  split at h
  · cases h
  · cases h
    exact .inl ⟨_, rfl⟩

theorem failsOnly_enter (tag : UInt8) (n : Nat) : FailsOnly IsBinary (enter tag n) := by
  intro r e s h
  unfold enter at h
  split at h
  · cases h
  · cases h
    exact .inl ⟨_, rfl⟩

theorem failsOnly_length : FailsOnly IsBinary length := by
  refine (failsOnly_octet _).bind fun first => .ite (failsOnly_pure _) ?_
  refine .ite (failsOnly_fail _) (.ite (failsOnly_fail _) ?_)
  exact (failsOnly_octets _ _).bind fun digits => failsOnly_pure _

theorem failsOnly_header : FailsOnly IsBinary header :=
  (failsOnly_octet _).bind fun t => failsOnly_length.bind fun n =>
    (failsOnly_enter t n).bind fun _ => failsOnly_pure t

/-- Every read of an element fails only with faults of the encoding, wherever the reader stands. -/
theorem closed_failsOnly : Closed fun _ => FailsOnly IsBinary where
  pure := failsOnly_pure
  bind := FailsOnly.bind
  throw := failsOnly_throw
  get := failsOnly_get
  octet := failsOnly_octet
  octets := failsOnly_octets
  header := failsOnly_header

end SearchFilter.Ber.Read
