import Mathlib.Tactic.Common
import SearchFilter.Proofs.Filter.Rewriting
import SearchFilter.Proofs.Filter.SubstringView
import SearchFilter.Proofs.Filter.TextForm

namespace SearchFilter

namespace Item

theorem bind_nonempty?_ne (fragment : Option Octets) : fragment.bind nonempty? ≠ some [] := by
  intro h
  obtain ⟨bs, _, hbs⟩ := Option.bind_eq_some_iff.1 h
  exact nonempty?_ne bs hbs

theorem getD_bind_nonempty? (fragment : Option Octets) :
    (fragment.bind nonempty?).getD [] = fragment.getD [] := by
  cases fragment with
  | none => rfl
  | some bs => exact getD_nonempty? bs

end Item

namespace Substrings

/-- The fragments without those at the ends that are empty. -/
def written (s : Substrings) : Substrings :=
  { s with initial := s.initial.bind Item.nonempty?, final := s.final.bind Item.nonempty? }

/-- Fragments have the text of those that are left. -/
theorem chars_written (s : Substrings) : s.written.chars = s.chars := by
  rw [chars, chars, written, Item.getD_bind_nonempty?, Item.getD_bind_nonempty?]

/-- The text of no fragments is a lone wildcard, which is that of a test for presence. -/
theorem chars_of_isEmpty {s : Substrings} (h : s.isEmpty = true) : s.chars = ['*'] := by
  obtain ⟨initial, any, final⟩ := s
  simp only [isEmpty, Bool.and_eq_true, Option.isNone_iff_eq_none, List.isEmpty_iff] at h
  obtain ⟨⟨rfl, rfl⟩, rfl⟩ := h
  rfl

end Substrings

namespace Assertion

/-- The assertion that is read from the text of an item. -/
def written : Assertion → Assertion
  | .substring name s => if s.written.isEmpty then .presence name else .substring name s.written
  | a => a.withoutView

/-- An item is that of what is read from it. -/
theorem chars_written (a : Assertion) : a.written.chars = a.chars := by
  cases a with
  | substring name s =>
    rw [written]
    split_ifs with hempty
    · rw [chars, chars, ← s.chars_written, Substrings.chars_of_isEmpty hempty, List.append_assoc,
        List.singleton_append]
    · rw [chars, chars, s.chars_written]
  | _ => rfl

theorem withoutView_written (a : Assertion) : a.written.withoutView = a.written := by
  cases a with
  | substring name s =>
    rw [written]
    split_ifs <;> rfl
  | _ => rfl

/-- In place of a substring assertion there is always one that an item can make. -/
theorem textual_written_substring {name : String} (hname : Item.IsName name) (s : Substrings) :
    (substring name s).written.Textual := by
  rw [written]
  split_ifs with hempty
  · exact hname
  · exact ⟨hname, Item.bind_nonempty?_ne _, Item.bind_nonempty?_ne _, Bool.not_eq_true _ ▸ hempty⟩

end Assertion

namespace Filter

mutual

/-- The filter that is read from the text of a filter. A text has no sign for an empty fragment at
an end, nor one of its own for a substring assertion without fragments, which looks like a test for
presence; apart from this and the substring views it is the filter. -/
def written : Filter → Filter
  | leaf a => leaf a.written
  | negation f => negation (written f)
  | junction c fs => junction c (writtenAll fs)

/-- The filters that are read from the texts of some filters. -/
def writtenAll : List Filter → List Filter
  | [] => []
  | f :: fs => written f :: writtenAll fs

end

theorem writtenAll_eq (fs : List Filter) : writtenAll fs = fs.map written := by
  induction fs with
  | nil => rfl
  | cons f fs ih => rw [writtenAll, ih, List.map_cons]

/-- A filter has the text of what is read from it. -/
theorem chars_written (f : Filter) : f.written.chars = f.chars := by
  induction f with
  | leaf a => rw [written, chars, chars, a.chars_written]
  | negation f ih => rw [written, chars, chars, ih]
  | junction c fs ih =>
    have hclauses : (fs.map written).map chars = fs.map chars := by
      rw [List.map_map]
      exact List.map_congr_left ih
    rw [written, chars, chars, charsAll_eq, charsAll_eq, writtenAll_eq, List.flatMap_def, hclauses,
      List.flatMap_def]

theorem withoutView_written (f : Filter) : f.written.withoutView = f.written := by
  induction f with
  | leaf a => rw [written, withoutView, a.withoutView_written]
  | negation f ih => rw [written, withoutView, ih]
  | junction c fs ih =>
    simp only [written, withoutView, writtenAll_eq, withoutViewAll_eq, List.map_map]
    exact congrArg _ (List.map_congr_left ih)

/-- What is read from the text of a filter is one that a text can spell, if every junction has a
clause and each leaf is written as an item. -/
theorem Populated.textual_written {f : Filter} (hf : f.Populated)
    (hleaves : ∀ a ∈ f.leaves, a.written.Textual) : f.written.Textual := by
  induction hf with
  | leaf a => exact .leaf (hleaves a (List.mem_singleton_self a))
  | negation _ ih => exact .negation (ih hleaves)
  | junction hne _ ih =>
    rw [written, writtenAll_eq]
    refine .junction (by simpa using hne) (List.forall_mem_map.2 fun f hf => ih f hf fun a ha => ?_)
    exact hleaves a (mem_leaves_junction.2 ⟨f, hf, ha⟩)

/-- The text of a filter is read as its written form, if a text can spell that. -/
theorem Textual.parse_render_written {f : Filter} (hf : f.written.Textual) :
    parse f.render = .ok f.written := by
  have hspelled := spelledAs_chars hf
  rw [withoutView_written, chars_written] at hspelled
  exact parse_render_eq_ok_iff.2 hspelled

end Filter

end SearchFilter
