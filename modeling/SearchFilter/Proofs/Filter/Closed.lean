import Mathlib.Tactic.Common
import SearchFilter.Filter.Decode
import SearchFilter.Proofs.Ber.Closed

namespace SearchFilter.Decoding

open Ber Ber.Read

variable {C : (α : Type) → Read α → Prop} (hC : Closed C)
include hC

theorem closed_comparison (op : Comparison) : C Assertion (comparison op) := by
  refine hC.bind (hC.string _ _) fun name => ?_
  exact hC.bind (hC.octetString _ _) fun value => hC.pure _

theorem closed_presence : C Assertion presence := by
  refine hC.bind hC.lastLength fun n => hC.bind (hC.raw n) fun bs => hC.bind (hC.text _ bs) fun name => ?_
  split
  · exact hC.fail _
  · exact hC.pure _

theorem closed_fragment (s : Substrings) : C Substrings (fragment s) := by
  refine hC.bind hC.header fun tag => hC.bind hC.lastLength fun n => hC.bind (hC.raw n) fun bs => ?_
  split
  · exact hC.pure _
  · exact hC.fail _

theorem closed_fragments (stop budget : Nat) (s : Substrings) : C Substrings (fragments stop budget s) := by
  induction budget generalizing s with
  | zero => exact hC.pure s
  | succ budget ih =>
    rw [fragments]
    refine hC.bind hC.offset fun n => ?_
    split
    · exact hC.bind (closed_fragment hC s) ih
    · exact hC.pure s

theorem closed_substring : C Assertion substring := by
  refine hC.bind (hC.string _ _) fun name => hC.bind (hC.expect _ _) fun n => ?_
  refine hC.bind hC.offset fun start => hC.bind (closed_fragments hC _ _ _) fun s => ?_
  refine hC.bind hC.offset fun stop => ?_
  split
  · exact hC.pure _
  · exact hC.fail _

theorem closed_field (s : Fields) : C Fields (field s) := by
  refine hC.bind hC.get fun r => ?_
  split
  · exact hC.fail _
  · dsimp only
    split_ifs
    · exact hC.fail _
    · exact hC.bind (hC.string _ _) fun rule => hC.pure _
    · exact hC.bind (hC.string _ _) fun name => hC.pure _
    · exact hC.bind (hC.octetString _ _) fun value => hC.pure _
    · exact hC.bind (hC.boolean _ _) fun flag => hC.pure _
    · exact hC.fail _

theorem closed_fields (stop budget : Nat) (s : Fields) : C Fields (fields stop budget s) := by
  induction budget generalizing s with
  | zero => exact hC.pure s
  | succ budget ih =>
    rw [fields]
    refine hC.bind hC.offset fun n => ?_
    split
    · exact hC.bind (closed_field hC s) ih
    · exact hC.pure s

theorem closed_extensible (stop : Nat) : C Assertion (extensible stop) := by
  refine hC.bind hC.offset fun n => hC.bind (closed_fields hC _ _ _) fun s => ?_
  split
  · exact hC.fail _
  · dsimp only
    -- A node that is refused is a fault of the encoding here.
    split
    · exact hC.pure _
    · exact hC.fail _

section
variable {one : Read Filter}

theorem closed_leaf {read : Read Assertion} (h : C Assertion read) :
    C Filter (do return Filter.leaf (← read)) :=
  hC.bind h fun _ => hC.pure _

theorem closed_content (hone : C Filter one) (kind : Kind) (stop : Nat) :
    C Filter (content one kind stop) := by
  cases kind with
  | empty => exact hC.bind hC.null fun _ => hC.pure _
  | junction c => exact hC.bind hC.offset fun n => hC.bind (hC.before hone _ _) fun fs => hC.pure _
  | negation =>
    refine hC.bind hC.offset fun n => ?_
    split
    · exact hC.bind hone fun f => hC.pure _
    · exact hC.fail _
  | comparison op => exact closed_leaf hC (closed_comparison hC op)
  | presence => exact closed_leaf hC (closed_presence hC)
  | substring => exact closed_leaf hC (closed_substring hC)
  | extensible => exact closed_leaf hC (closed_extensible hC stop)

theorem closed_body (hone : C Filter one) (kind : Kind) : C Filter (body one kind) := by
  refine hC.bind hC.offset fun start => hC.bind hC.lastLength fun n => ?_
  refine hC.bind (closed_content hC hone kind _) fun f => hC.bind hC.offset fun stop => ?_
  split
  · exact hC.pure f
  · exact hC.fail _

end

/-- Levels are read by reads of the class, and so is a filter of any depth. -/
theorem closed_filterWithin (depth : Nat) : C Filter (filterWithin depth) := by
  induction depth with
  | zero => exact hC.bind hC.offset fun n => hC.fail _
  | succ depth ih =>
    refine hC.bind hC.header fun tag => ?_
    split
    · exact hC.fail _
    · exact closed_body hC ih _

/-- Reading a filter takes octets and reads headers, one after the other, at whatever depth and
however it fails. -/
theorem closed_filter : C Filter filter :=
  hC.bind hC.get fun r => closed_filterWithin hC (ampleDepth r)

theorem closed_finish : C Unit finish := by
  refine hC.bind hC.get fun r => ?_
  split
  · exact hC.pure ()
  · exact hC.fail _

theorem closed_complete {read : Read Filter} (hread : C Filter read) : C Filter (complete read) :=
  hC.bind hread fun f => hC.bind (closed_finish hC) fun _ => hC.pure f

end SearchFilter.Decoding
