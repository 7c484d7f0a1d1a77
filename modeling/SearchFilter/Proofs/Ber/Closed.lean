import Mathlib.Tactic.Common
import SearchFilter.Ber.Reader
import SearchFilter.Proofs.Failure

namespace SearchFilter.Ber.Read

/-- A class of reads that has those which take octets or read a header, those which fail for the
encoding, and all that do some of this one after the other. Every read is put together from these
few, so what they keep is kept by all reads, whether they succeed or fail. -/
structure Closed (C : (α : Type) → Read α → Prop) : Prop where
  pure {α : Type} (a : α) : C α (pure a)
  bind {α β : Type} {m : Read α} {k : α → Read β} (hm : C α m) (hk : ∀ a, C β (k a)) : C β (m >>= k)
  throw {α : Type} {e : FilterError} (he : e.IsBinary) : C α (throw e)
  get : C Reader get
  octet (fault : BerFault) : C UInt8 (octet fault)
  octets (n : Nat) (fault : Nat → BerFault) : C Octets (octets n fault)
  header : C UInt8 header

namespace Closed

variable {C : (α : Type) → Read α → Prop} (hC : Closed C) {α : Type}
include hC

theorem fail (fault : BerFault) : C α (Read.fail fault) :=
  hC.throw (.inl ⟨fault, rfl⟩)

theorem offset : C Nat Read.offset :=
  hC.bind hC.get fun r => hC.pure r.offset

theorem lastLength : C Nat Read.lastLength :=
  hC.bind hC.get fun r => hC.pure r.length

theorem expect (expected : UInt8) (context : String) : C Nat (Read.expect expected context) := by
  refine hC.bind hC.header fun found => ?_
  split
  · exact hC.lastLength
  · exact hC.throw (.inr ⟨context, expected, found, rfl⟩)

theorem raw (n : Nat) : C Octets (Read.raw n) :=
  hC.octets n _

theorem length : C Nat Read.length := by
  refine hC.bind (hC.octet _) fun first => ?_
  dsimp only
  split_ifs
  · exact hC.pure _
  · exact hC.fail _
  · exact hC.fail _
  · exact hC.bind (hC.octets _ _) fun digits => hC.pure _

theorem octetString (tag : UInt8) (context : String) : C Octets (Read.octetString tag context) :=
  hC.bind (hC.expect tag context) hC.raw

/-- Octets that are no text are a fault of the encoding, too. -/
theorem text (field : String) (bs : Octets) : C String (Read.text field bs) := by
  unfold Read.text
  split
  · exact hC.pure _
  · exact hC.fail _

theorem string (tag : UInt8) (context : String) : C String (Read.string tag context) :=
  hC.bind (hC.octetString tag context) (hC.text context)

theorem boolean (tag : UInt8) (context : String) : C Bool (Read.boolean tag context) := by
  refine hC.bind (hC.expect tag context) fun n => ?_
  split
  · exact hC.bind (hC.raw 1) fun bs => hC.pure _
  · exact hC.fail _

theorem null : C Unit Read.null := by
  refine hC.bind (hC.expect _ _) fun n => ?_
  split
  · exact hC.pure ()
  · exact hC.fail _

/-- A loop does one read as often as it goes round, and looks where it stands in between. -/
theorem before {one : Read α} (hone : C α one) (stop budget : Nat) :
    C (List α) (Read.before one stop budget) := by
  induction budget with
  | zero => exact hC.pure []
  | succ budget ih =>
    rw [Read.before]
    refine hC.bind hC.offset fun n => ?_
    split
    · exact hC.bind hone fun a => hC.bind ih fun as => hC.pure _
    · exact hC.pure []

end Closed

end SearchFilter.Ber.Read
