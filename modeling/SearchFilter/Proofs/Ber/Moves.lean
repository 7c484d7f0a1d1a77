import Mathlib.Tactic.Common
import SearchFilter.Proofs.Ber.Closed
import SearchFilter.Proofs.Ber.Reader

namespace SearchFilter.Ber

/-- One reader stands at or before another in the same buffer. -/
def Reader.Before (r s : Reader) : Prop :=
  ∃ x, r.Passes x s

/-- A reader has passed octets and remembers the length that it did. -/
def Reader.Skips (r r' : Reader) : Prop :=
  r.Before r' ∧ r'.length = r.length

/-- A reader has passed octets. It remembers the length that it did, or that of a header which it has passed
completely and whose content lies in the buffer. -/
structure Reader.Reaches (r r' : Reader) : Prop where
  before : r.Before r'
  length : r'.length = r.length ∨ ∃ s t l u, r.Before s ∧ LengthOctets r'.length l ∧
    s.Passes (t :: l) u ∧ r'.length ≤ u.rest.length ∧ u.Before r'

namespace Reader

variable {r s t : Reader} {x : Octets}

theorem Before.refl (r : Reader) : r.Before r :=
  ⟨[], .refl r⟩

theorem Before.trans (hs : r.Before s) (ht : s.Before t) : r.Before t := by
  obtain ⟨x, hx⟩ := hs
  obtain ⟨y, hy⟩ := ht
  exact ⟨x ++ y, hx.trans hy⟩

theorem Passes.before (h : r.Passes x s) : r.Before s :=
  ⟨x, h⟩

theorem Skips.refl (r : Reader) : r.Skips r :=
  ⟨.refl r, rfl⟩

theorem Skips.trans (hs : r.Skips s) (ht : s.Skips t) : r.Skips t :=
  ⟨hs.1.trans ht.1, ht.2.trans hs.2⟩

theorem Skips.reaches (h : r.Skips s) : r.Reaches s :=
  ⟨h.1, .inl h.2⟩

theorem Reaches.refl (r : Reader) : r.Reaches r :=
  (Skips.refl r).reaches

/-- Octets passed one part after the other are passed together, and the header that is remembered
lies among those of one of the parts. -/
theorem Reaches.trans (hs : r.Reaches s) (ht : s.Reaches t) : r.Reaches t := by
  refine ⟨hs.before.trans ht.before, ?_⟩
  obtain hkept | ⟨u, tag, l, v, hu, hl, hheader, hroom, hv⟩ := ht.length
  · rw [hkept]
    obtain hkept' | ⟨u, tag, l, v, hu, hl, hheader, hroom, hv⟩ := hs.length
    · exact .inl hkept'
    · exact .inr ⟨u, tag, l, v, hu, hl, hheader, hroom, hv.trans ht.before⟩
  · exact .inr ⟨u, tag, l, v, hs.before.trans hu, hl, hheader, hroom, hv⟩

end Reader

namespace Read

variable {α β : Type} {r r' : Reader}

/-- Where a read leaves the reader, whether it succeeds or fails. -/
def after (m : Read α) (r : Reader) : Reader :=
  match m r with
  | .ok _ s | .error _ s => s

theorem after_of_ok {m : Read α} {a : α} (h : m r = .ok a r') : m.after r = r' := by
  rw [after, h]

theorem after_of_error {m : Read α} {e : FilterError} (h : m r = .error e r') : m.after r = r' := by
  rw [after, h]

/-- Whether a read relates where the reader stood to where it leaves it. -/
def Moves (P : Reader → Reader → Prop) (m : Read α) : Prop :=
  ∀ r, P r (m.after r)

section
variable {P : Reader → Reader → Prop}

/-- Reads one after the other leave the reader where the first fails, or where the one behind it
does or ends. -/
theorem after_bind_cases (m : Read α) (k : α → Read β) (r : Reader) :
    (m >>= k).after r = m.after r ∨ ∃ a, (m >>= k).after r = (k a).after (m.after r) := by
  cases h : m r with
  | ok a s =>
    have hbind : (m >>= k) r = k a s := by
      change EStateM.bind m k r = _
      rw [EStateM.bind, h]
    right
    exact ⟨a, by rw [after, hbind, after_of_ok h, after]⟩
  | error e s =>
    have hbind : (m >>= k) r = .error e s := bind_eq_error_iff.2 (.inl h)
    left
    rw [after_of_error hbind, after_of_error h]

/-- What every read relates is related by reads one after the other, if it can be chained. -/
theorem Moves.bind (htrans : ∀ {r s t}, P r s → P s t → P r t) {m : Read α} {k : α → Read β}
    (hm : Moves P m) (hk : ∀ a, Moves P (k a)) : Moves P (m >>= k) := by
  intro r
  obtain hafter | ⟨a, hafter⟩ := after_bind_cases m k r
  · rw [hafter]
    exact hm r
  · rw [hafter]
    exact htrans (hm r) (hk a _)

/-- A read that leaves the reader where it is relates nothing more than a place to itself. -/
theorem moves_of_refl (hrefl : ∀ r, P r r) {m : Read α} (hstay : ∀ r, m.after r = r) : Moves P m := by
  intro r
  rw [hstay r]
  exact hrefl r

theorem Moves.ite {p : Prop} [Decidable p] {m k : Read α} (hm : Moves P m) (hk : Moves P k) :
    Moves P (if p then m else k) := by
  by_cases hp : p
  · rw [if_pos hp]
    exact hm
  · rw [if_neg hp]
    exact hk

end

/-- Where octets are missing the reader stays, and otherwise it passes what it takes. -/
theorem moves_octet (fault : BerFault) : Moves Reader.Skips (octet fault) := by
  intro r
  cases h : octet fault r with
  | ok b s =>
    obtain ⟨hpasses, hlength⟩ := octet_eq_ok_iff.1 h
    rw [after_of_ok h]
    exact ⟨hpasses.before, hlength⟩
  | error e s =>
    rw [after_of_error h]
    unfold octet at h
    split at h
    · cases h
    · cases h
      exact .refl r

theorem moves_octets (n : Nat) (fault : Nat → BerFault) : Moves Reader.Skips (octets n fault) := by
  intro r
  cases h : octets n fault r with
  | ok bs s =>
    obtain ⟨_, hpasses, hlength⟩ := octets_eq_ok_iff.1 h
    rw [after_of_ok h]
    exact ⟨hpasses.before, hlength⟩
  | error e s =>
    rw [after_of_error h]
    unfold octets at h
    split at h
    · cases h
    · cases h
      exact .refl r

/-- Length octets are passed as far as they are there, and not remembered. -/
theorem moves_length : Moves Reader.Skips length := by
  have hstay (m : Read Nat) (h : ∀ r, m.after r = r) : Moves Reader.Skips m :=
    moves_of_refl Reader.Skips.refl h
  refine (moves_octet _).bind .trans fun first => .ite (hstay _ fun _ => rfl) ?_
  refine .ite (hstay _ fun _ => rfl) (.ite (hstay _ fun _ => rfl) ?_)
  exact (moves_octets _ _).bind .trans fun digits => hstay _ fun _ => rfl

/-- A header that is not read completely, or whose content does not lie in the buffer, is only passed as far
as it was read. -/
theorem moves_header : Moves Reader.Reaches header := by
  intro r
  cases h : header r with
  | ok t s =>
    obtain ⟨l, hl, hpasses, hroom⟩ := header_eq_ok_iff.1 h
    rw [after_of_ok h]
    exact ⟨hpasses.before, .inr ⟨r, t, l, s, .refl r, hl, hpasses, hroom, .refl s⟩⟩
  | error e s =>
    rw [after_of_error h]
    simp only [header, tag, bind_eq_error_iff] at h
    obtain htag | ⟨t, u, htag, hlength | ⟨n, v, hlength, hlast⟩⟩ := h
    · have hskips := moves_octet .missingTag r
      rw [after_of_error htag] at hskips
      exact hskips.reaches
    · have hskips := (moves_octet .missingTag r).trans (moves_length _)
      rw [after_of_ok htag, after_of_error hlength] at hskips
      exact hskips.reaches
    · have hskips := (moves_octet .missingTag r).trans (moves_length _)
      rw [after_of_ok htag, after_of_ok hlength] at hskips
      obtain henter | ⟨_, _, _, hpure⟩ := hlast
      · unfold enter at henter
        split at henter
        · cases henter
        · cases henter
          exact hskips.reaches
      · cases hpure

/-- No read takes a reader back or out of its buffer, and a length is only remembered of a header
that was passed, whether the read succeeds or fails. -/
theorem closed_moves : Closed fun _ => Moves Reader.Reaches where
  pure _ := moves_of_refl Reader.Reaches.refl fun _ => rfl
  bind hm hk := hm.bind .trans hk
  throw _ := moves_of_refl Reader.Reaches.refl fun _ => rfl
  get := moves_of_refl Reader.Reaches.refl fun _ => rfl
  octet fault := fun r => (moves_octet fault r).reaches
  octets n fault := fun r => (moves_octets n fault r).reaches
  header := moves_header

end Read

end SearchFilter.Ber
