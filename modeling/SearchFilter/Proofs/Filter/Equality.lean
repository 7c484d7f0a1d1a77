import Mathlib.Data.List.Forall2
import Mathlib.Tactic.Common
import SearchFilter.Proofs.Evaluate.LocalRewriting
import SearchFilter.Proofs.Filter.Encoding
import SearchFilter.Proofs.Filter.TextForm

namespace SearchFilter

/-- Whether a matcher makes no use of the substring views. -/
def Matcher.IgnoresViews (m : Matcher) : Prop :=
  ∀ e r strict, m.extensible e.withoutView r strict = m.extensible e r strict

theorem Matcher.ignoresViews_unsupported : unsupported.IgnoresViews :=
  fun _ _ _ => rfl

theorem Assertion.attribute?_withoutView (a : Assertion) : a.withoutView.attribute? = a.attribute? := by
  cases a <;> rfl

/-- A leaf is answered without its view as with it. -/
theorem Assertion.evaluate_withoutView {m : Matcher} (hm : m.IgnoresViews) (a : Assertion) (r : Record)
    (strict : Bool) : (a.withoutView.evaluate m r strict).1 = (a.evaluate m r strict).1 := by
  cases a with
  | extensible e => exact hm e r strict
  | _ => rfl

namespace Filter

variable {f g : Filter}

theorem attribute?_withoutView (f : Filter) : f.withoutView.attribute? = f.attribute? := by
  cases f with
  | leaf a => exact a.attribute?_withoutView
  | _ => rfl

/-- Leaving out the views changes no answer, if the matcher makes no use of them. -/
theorem holdsWith_withoutView {m : Matcher} (hm : m.IgnoresViews) (f : Filter) (r : Record)
    (strict : Bool) : f.withoutView.holdsWith m r strict = f.holdsWith m r strict := by
  induction f with
  | leaf a => exact a.evaluate_withoutView hm r strict
  | negation f ih => exact congrArg (fun answer : Answer => answer.map (!·)) ih
  | junction c fs ih =>
    have hclauses : List.Forall₂
        (fun f g : Filter => f.holdsWith m r strict = g.holdsWith m r strict) (fs.map withoutView) fs := by
      rw [List.forall₂_map_left_iff, List.forall₂_same]
      exact ih
    rw [withoutView, withoutViewAll_eq]
    exact evaluateAll_fst_congr hclauses c

/-- What does not depend on the views is the same for equal filters. -/
theorem eq_of_beq_of_withoutView {α : Type} {p : Filter → α}
    (hviews : ∀ f, p f.withoutView = p f) (hfg : (f == g) = true) : p f = p g := by
  rw [← hviews f, beq_iff.1 hfg, hviews g]

/-- What is written for a filter is an encoding of no other, if four digits hold its size. The readers have
no part in this: it need not be an encoding that they accept. -/
theorem beq_of_toBer_eq (hsize : f.toBer.length < 2 ^ 32) (heq : f.toBer = g.toBer) : (f == g) = true := by
  have hf := encodedAs_toBer hsize
  rw [heq] at hsize
  have hg := encodedAs_toBer hsize
  obtain ⟨hsame, _⟩ := hf.unique (p := []) (q := []) hg (by rw [heq])
  exact beq_iff.2 hsame

/-- Equal filters have the same answer, or fail in the same way, for every such matcher. -/
theorem holdsWith_eq_of_beq {m : Matcher} (hm : m.IgnoresViews) (hfg : (f == g) = true) (r : Record)
    (strict : Bool) : f.holdsWith m r strict = g.holdsWith m r strict :=
  eq_of_beq_of_withoutView (p := fun f => f.holdsWith m r strict)
    (fun f => f.holdsWith_withoutView hm r strict) hfg

/-- Filters are equal just where the same octets are written for them, whether or not a reader accepts
these. Equal filters have the same text, depth, kind and attribute, and match the same records or fail in
the same way. -/
theorem equal_just_where_written_alike (f g : Filter) :
    (f.toBer.length < 2 ^ 32 → (f.toBer = g.toBer ↔ (f == g) = true)) ∧
      ((f == g) = true →
        f.render = g.render ∧ f.depth = g.depth ∧ f.kind = g.kind ∧ f.attribute? = g.attribute? ∧
          ∀ r strict, f.holds r strict = g.holds r strict) := by
  refine ⟨fun hsize => ⟨beq_of_toBer_eq hsize, eq_of_beq_of_withoutView toBer_withoutView⟩, fun hfg => ?_⟩
  have hchars : f.chars = g.chars := eq_of_beq_of_withoutView chars_withoutView hfg
  exact ⟨congrArg String.ofList hchars, eq_of_beq_of_withoutView depth_withoutView hfg, kind_eq_of_beq hfg,
    eq_of_beq_of_withoutView attribute?_withoutView hfg,
    holdsWith_eq_of_beq Matcher.ignoresViews_unsupported hfg⟩

/-- A filter that no reader gives back: its extensible assertion names nothing. It has this view. -/
def unread (view : Option Substrings) : Filter :=
  .or [negation (.and []), leaf (.presence ""),
    leaf (.extensible { matchType := none, rule := none, value := [0x61, 0x2A], dnAttributes := true,
                        substrings := view })]

/-- A view of the value in `unread`. -/
def hint : Substrings :=
  { initial := some [0x61], any := [], final := none }

/-- The two filters differ in a view, which is not written, and no reader would accept either. -/
theorem unread_written_alike :
    ¬(unread none).Valid ∧ unread none ≠ unread (some hint) ∧ (unread none).toBer.length < 2 ^ 32 ∧
      (unread none == unread (some hint)) = true ∧ (unread none).render = (unread (some hint)).render ∧
      (unread none).holds .empty true = (unread (some hint)).holds .empty true := by
  have hinvalid : ¬(unread none).Valid := by decide
  have hsize : (unread none).toBer.length < 2 ^ 32 := by decide
  obtain ⟨hwritten, halike⟩ := equal_just_where_written_alike (unread none) (unread (some hint))
  have hequal := (hwritten hsize).1 rfl
  obtain ⟨htext, _, _, _, hanswers⟩ := halike hequal
  exact ⟨hinvalid, by simp [unread], hsize, hequal, htext, hanswers _ _⟩

end Filter

end SearchFilter
