import Mathlib.Tactic.Common
import SearchFilter.Proofs.Filter.Tree

namespace SearchFilter.Ber.Writer

variable (w : Writer)

theorem append_append (x y : Octets) : (w.append x).append y = w.append (x ++ y) := by
  simp [append, List.append_assoc]

theorem append_nil : w.append [] = w := by
  simp [append]

/-- Closing a sequence puts an element in the place of what was written since it was opened. -/
theorem closeSequence_append (t : UInt8) (content : Octets) :
    ((w.openSequence t).append content).closeSequence = w.append (element t content) := by
  have htake : (w.buffer ++ [t, 0] ++ content).take (w.buffer.length + 1) = w.buffer ++ [t] := by
    have hbuffer : w.buffer ++ [t, 0] ++ content = (w.buffer ++ [t]) ++ 0 :: content := by simp
    rw [hbuffer, List.take_left' (by simp)]
  have hdrop : (w.buffer ++ [t, 0] ++ content).drop (w.buffer.length + 1 + 1) = content :=
    List.drop_left' (by simp)
  simp only [openSequence, append, closeSequence, htake, hdrop]
  simp [element]

/-- An optional field is appended as its element, or nothing is. -/
theorem optional_eq (t : UInt8) (content : Option Octets) :
    w.optional t content = w.append (optionalElement t content) := by
  cases content with
  | none => exact w.append_nil.symm
  | some content => rfl

/-- Fields of one tag are appended one after the other. -/
theorem foldl_octetString_eq (t : UInt8) (contents : List Octets) :
    contents.foldl (·.octetString t ·) w = w.append (contents.flatMap (element t)) := by
  induction contents generalizing w with
  | nil => exact w.append_nil.symm
  | cons c contents ih =>
    rw [List.foldl_cons, ih, octetString, append_append]
    rfl

theorem substrings_eq (s : Substrings) : w.substrings s = w.append s.encode := by
  simp only [substrings, optional_eq, foldl_octetString_eq, append_append, Substrings.encode]

theorem extensible_eq (e : Extensible) : w.extensible e = w.append e.encode := by
  simp only [extensible, optional_eq, octetString, boolean, append_append, Extensible.encode]
  split
  · rfl
  · rw [List.append_nil]

/-- Writing a leaf appends its element. -/
theorem assertion_eq (a : Assertion) :
    w.assertion a = w.append (element a.kind.tag a.encode) := by
  cases a with
  | empty => exact w.closeSequence_append _ _
  | comparison op name value =>
    simp only [assertion, string, octetString, append_append, closeSequence_append]
    rfl
  | presence name => rfl
  | substring name s =>
    simp only [assertion, string, octetString, substrings_eq, closeSequence_append, append_append]
    rfl
  | extensible e =>
    simp only [assertion, extensible_eq, closeSequence_append]
    rfl

/-- Writing a filter appends its element and owes nothing. Between opening and closing a sequence a
writer only appends, so the length octets are put in at the right place. -/
theorem filter_eq (f : Filter) : w.filter f = w.append f.toBer := by
  induction f generalizing w with
  | leaf a => exact w.assertion_eq a
  | negation f ih => rw [filter, ih, closeSequence_append, Filter.toBer]
  | junction c fs ih =>
    have hfilters (w : Writer) : w.filters fs = w.append (Filter.toBerAll fs) := by
      clear * - ih
      induction fs generalizing w with
      | nil => exact w.append_nil.symm
      | cons f fs ihs =>
        rw [filters, ih f List.mem_cons_self, ihs fun g hg => ih g (List.mem_cons_of_mem _ hg),
          append_append, Filter.toBerAll]
    rw [filter, hfilters, closeSequence_append, Filter.toBer]

end SearchFilter.Ber.Writer
