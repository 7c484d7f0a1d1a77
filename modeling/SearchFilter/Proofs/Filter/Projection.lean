import Mathlib.Tactic.Common
import SearchFilter.Filter.Projection
import SearchFilter.Proofs.Filter.Tree
import SearchFilter.Proofs.Octets.Utf8

namespace SearchFilter

/-- Where things that look alike in one way look alike in another, so do lists of them. -/
theorem map_eq_map_of_map_eq_map {α β γ : Type} {p : α → β} {q : α → γ} {as bs : List α}
    (h : ∀ a ∈ as, ∀ b ∈ bs, p a = p b → q a = q b) (hmap : as.map p = bs.map p) :
    as.map q = bs.map q := by
  induction as generalizing bs with
  | nil => rw [List.map_eq_nil_iff.1 hmap.symm, List.map_nil]
  | cons a as ih =>
    cases bs with
    | nil => cases hmap
    | cons b bs =>
      obtain ⟨hfirst, hrest⟩ := List.cons.inj hmap
      rw [List.map_cons, List.map_cons, h a List.mem_cons_self b List.mem_cons_self hfirst,
        ih (fun a ha b hb => h a (List.mem_cons_of_mem _ ha) b (List.mem_cons_of_mem _ hb)) hrest]

/-- A list is known from what its members look like and from what they hold, one behind the other, where the
look of a member tells how much it holds. -/
theorem eq_of_map_eq_of_flatMap_eq {α β γ : Type} {p : α → β} {q : α → List γ} {as bs : List α}
    (hlength : ∀ a b, p a = p b → (q a).length = (q b).length)
    (h : ∀ a ∈ as, ∀ b, p a = p b → q a = q b → a = b) (hmap : as.map p = bs.map p)
    (hflat : as.flatMap q = bs.flatMap q) : as = bs := by
  induction as generalizing bs with
  | nil => exact (List.map_eq_nil_iff.1 hmap.symm).symm
  | cons a as ih =>
    cases bs with
    | nil => cases hmap
    | cons b bs =>
      obtain ⟨hfirst, hrest⟩ := List.cons.inj hmap
      rw [List.flatMap_cons, List.flatMap_cons] at hflat
      obtain ⟨hheld, hheldRest⟩ := List.append_inj hflat (hlength a b hfirst)
      rw [h a List.mem_cons_self b hfirst hheld,
        ih (fun a ha => h a (List.mem_cons_of_mem _ ha)) hrest hheldRest]

/-- The value that an object holds under a key. -/
def Json.field? (key : String) : Json → Option Json
  | .object fields => fields.lookup key
  | _ => none

/-- The octets that an assertion asks for: its value, or its fragments. -/
def Assertion.octets : Assertion → List Octets
  | .empty | .presence _ => []
  | .comparison _ _ value => [value]
  | .substring _ s => s.toList
  | .extensible e => [e.value]

/-- Whether an assertion asks for text only. -/
def Assertion.IsText (a : Assertion) : Prop :=
  ∀ bs ∈ a.octets, bs.IsText

instance Assertion.decidableIsText (a : Assertion) : Decidable a.IsText :=
  inferInstanceAs (Decidable (∀ bs ∈ a.octets, bs.IsText))

/-- Whether a filter asks for text only. -/
def Filter.IsText (f : Filter) : Prop :=
  ∀ a ∈ f.leaves, a.IsText

instance Filter.decidableIsText (f : Filter) : Decidable f.IsText :=
  inferInstanceAs (Decidable (∀ a ∈ f.leaves, a.IsText))

/-- The view that an assertion may have, if it is one that a matching rule decides. -/
def Assertion.view? : Assertion → Option (Option Substrings)
  | .extensible e => some e.substrings
  | _ => none

/-- The views of the extensible assertions in a filter, from left to right. -/
def Filter.views (f : Filter) : List (Option Substrings) :=
  f.leaves.filterMap Assertion.view?

namespace Octets

variable {a b : Octets}

/-- Text is shown as it is. -/
theorem eq_of_project_eq (ha : a.IsText) (hb : b.IsText) (h : project a = project b) : a = b := by
  rw [eq_encode_of_isText ha, eq_encode_of_isText hb, Json.string.inj h]

/-- An absent fragment is not shown as an empty one. -/
theorem eq_of_projectOptional_eq {a b : Option Octets} (ha : ∀ bs ∈ a, IsText bs) (hb : ∀ bs ∈ b, IsText bs)
    (h : projectOptional a = projectOptional b) : a = b := by
  cases a with
  | none =>
    cases b with
    | none => rfl
    | some b => cases h
  | some a =>
    cases b with
    | none => cases h
    | some b => rw [eq_of_project_eq (ha a rfl) (hb b rfl) h]

theorem eq_of_map_project_eq {as bs : List Octets} (ha : ∀ a ∈ as, IsText a) (hb : ∀ b ∈ bs, IsText b)
    (h : as.map project = bs.map project) : as = bs := by
  have hid : as.map id = bs.map id :=
    map_eq_map_of_map_eq_map (fun a has b hbs => eq_of_project_eq (ha a has) (hb b hbs)) h
  rwa [List.map_id, List.map_id] at hid

end Octets

/-- Fragments that are text are known from how they are shown. -/
theorem Substrings.eq_of_project_eq {s t : Substrings} (hs : ∀ bs ∈ s.toList, bs.IsText)
    (ht : ∀ bs ∈ t.toList, bs.IsText)
    (hinitial : Octets.projectOptional s.initial = Octets.projectOptional t.initial)
    (hany : s.any.map Octets.project = t.any.map Octets.project)
    (hfinal : Octets.projectOptional s.final = Octets.projectOptional t.final) : s = t := by
  simp only [toList, List.mem_append, Option.mem_toList, or_imp, forall_and] at hs ht
  obtain ⟨⟨hsinitial, hsany⟩, hsfinal⟩ := hs
  obtain ⟨⟨htinitial, htany⟩, htfinal⟩ := ht
  cases s
  cases t
  rw [mk.injEq]
  exact ⟨Octets.eq_of_projectOptional_eq hsinitial htinitial hinitial,
    Octets.eq_of_map_project_eq hsany htany hany,
    Octets.eq_of_projectOptional_eq hsfinal htfinal hfinal⟩

theorem Json.ofString?_injective {s t : Option String} (h : ofString? s = ofString? t) : s = t := by
  cases s <;> cases t <;> simp_all [ofString?]

theorem Kind.ofName?_name (k : Kind) : ofName? k.name = some k := by
  cases k with
  | junction c => cases c <;> decide
  | comparison op => cases op <;> decide
  | _ => decide

theorem Kind.name_injective {k k' : Kind} (h : k.name = k'.name) : k = k' := by
  have hk := ofName?_name k
  rw [h, ofName?_name] at hk
  exact (Option.some.inj hk).symm

/-- The keys under which the fragments of an extensible assertion are shown. -/
def Extensible.fragmentKeys : List String :=
  ["any", "final", "initial"]

/-- The other fields are there with any view, and do not depend on it. -/
theorem Extensible.fields_withoutView (e : Extensible) :
    e.withoutView.fields = e.fields.filter fun field => field.1 ∉ fragmentKeys := by
  cases hview : e.substrings with
  | none => simp [fields, withoutView, fragmentKeys, hview]
  | some s =>
    by_cases hempty : s.isEmpty
    · simp [fields, withoutView, fragmentKeys, hview, hempty]
    · simp [fields, withoutView, fragmentKeys, hview, hempty]

namespace Assertion

theorem lookup_type (a : Assertion) : a.fields.lookup "type" = some (.string a.kind.name) := by
  cases a with
  | extensible e =>
    rw [fields, Extensible.fields]
    split
    · split <;> rfl
    · rfl
  | _ => rfl

/-- Objects whose fields come in the order of their keys are equal where they hold the same fields. -/
theorem keys_ascending (a : Assertion) : (a.fields.map Prod.fst).Pairwise (· < ·) := by
  cases a with
  | extensible e =>
    rw [fields, Extensible.fields]
    split
    · split
      · simp only [List.map_cons, List.map_nil]; decide
      · simp only [List.cons_append, List.nil_append, List.map_cons, List.map_nil]; decide
    · simp only [List.map_cons, List.map_nil]; decide
  | _ => simp only [fields, List.map_cons, List.map_nil]; decide

end Assertion

namespace Filter

variable {f g : Filter}

/-- Every node is shown with the name of its kind. -/
theorem field?_type (f : Filter) : f.project.field? "type" = some (.string f.kind.name) := by
  cases f with
  | leaf a => exact a.lookup_type
  | _ => rfl

/-- The projection tells the kind of a filter. -/
theorem kind_eq_of_project_eq (h : f.project = g.project) : f.kind = g.kind := by
  have hname := f.field?_type
  rw [h, g.field?_type] at hname
  exact Kind.name_injective (Json.string.inj (Option.some.inj hname)).symm

end Filter

namespace Assertion

variable {a b : Assertion}

/-- The fields of a leaf tell what it asserts. The kinds agree, so there are as many cases as kinds. -/
theorem withoutView_eq_of_fields_eq (ha : a.IsText) (hb : b.IsText) (h : a.fields = b.fields) :
    a.withoutView = b.withoutView := by
  have hkind : a.kind = b.kind :=
    Filter.kind_eq_of_project_eq (f := .leaf a) (g := .leaf b) (congrArg Json.object h)
  cases a with
  | empty => cases b <;> first | rfl | cases hkind
  | comparison op name value =>
    cases b <;> cases hkind
    simp only [fields, List.cons.injEq, Prod.mk.injEq, Json.string.injEq, true_and, and_true] at h
    obtain ⟨hname, hvalue⟩ := h
    rw [hname, Octets.eq_of_project_eq (ha _ List.mem_cons_self) (hb _ List.mem_cons_self) hvalue]
  | presence name =>
    cases b <;> cases hkind
    simp only [fields, List.cons.injEq, Prod.mk.injEq, Json.string.injEq, true_and, and_true] at h
    rw [h]
  | substring name s =>
    cases b <;> cases hkind
    simp only [fields, List.cons.injEq, Prod.mk.injEq, Json.string.injEq, Json.array.injEq, true_and,
      and_true] at h
    obtain ⟨hany, hname, hfinal, hinitial⟩ := h
    rw [hname, Substrings.eq_of_project_eq ha hb hinitial hany hfinal]
  | extensible e =>
    cases b with
    | extensible e' =>
      have hfields : e.withoutView.fields = e'.withoutView.fields := by
        rw [e.fields_withoutView, e'.fields_withoutView, show e.fields = e'.fields from h]
      simp only [Extensible.fields, Extensible.withoutView, List.cons.injEq, Prod.mk.injEq,
        Json.bool.injEq, true_and, and_true] at hfields
      obtain ⟨hdn, hrule, htype, hvalue⟩ := hfields
      simp only [withoutView, Extensible.withoutView, hdn, Json.ofString?_injective hrule,
        Json.ofString?_injective htype,
        Octets.eq_of_project_eq (ha _ List.mem_cons_self) (hb _ List.mem_cons_self) hvalue]
    | _ => cases hkind

/-- An assertion is known from the rest of it and its view. -/
theorem eq_of_withoutView_eq (h : a.withoutView = b.withoutView) (hview : a.view? = b.view?) : a = b := by
  cases a with
  | extensible e =>
    cases b with
    | extensible e' =>
      cases e
      cases e'
      simp only [withoutView, Extensible.withoutView, extensible.injEq, Extensible.mk.injEq, and_true] at h
      simp only [view?, Option.some.injEq] at hview
      simp only [h, hview]
    | _ => cases h
  | _ => cases b <;> first | exact h | cases h

end Assertion

namespace Filter

variable {f g : Filter}

theorem isText_negation : (negation f).IsText ↔ f.IsText := Iff.rfl

theorem isText_junction {c : Connective} {fs : List Filter} :
    (junction c fs).IsText ↔ ∀ f ∈ fs, f.IsText :=
  forall_mem_leaves_junction

theorem projectAll_eq (fs : List Filter) : projectAll fs = fs.map project := by
  induction fs with
  | nil => rfl
  | cons f fs ih => rw [projectAll, ih, List.map_cons]

/-- The projection tells the tree and what its leaves assert, but for the views. -/
theorem withoutView_eq_of_project_eq (hf : f.IsText) (hg : g.IsText) (h : f.project = g.project) :
    f.withoutView = g.withoutView := by
  induction f generalizing g with
  | leaf a =>
    have hkind := kind_eq_of_project_eq h
    cases g with
    | leaf b =>
      rw [withoutView, withoutView, Assertion.withoutView_eq_of_fields_eq (hf a List.mem_cons_self)
        (hg b List.mem_cons_self) (Json.object.inj h)]
    | _ => cases a <;> cases hkind
  | negation f ih =>
    have hkind := kind_eq_of_project_eq h
    cases g with
    | negation g =>
      simp only [project, Json.object.injEq, List.cons.injEq, Prod.mk.injEq, true_and, and_true] at h
      rw [withoutView, withoutView, ih hf (isText_negation.1 hg) h]
    | leaf b => cases b <;> cases hkind
    | junction d gs => cases hkind
  | junction c fs ih =>
    have hkind := kind_eq_of_project_eq h
    cases g with
    | junction d gs =>
      simp only [project, projectAll_eq, Json.object.injEq, List.cons.injEq, Prod.mk.injEq,
        Json.array.injEq, true_and] at h
      rw [isText_junction] at hf hg
      have hclauses := map_eq_map_of_map_eq_map (fun f hfs g hgs hfg =>
        ih f hfs (hf f hfs) (hg g hgs) hfg) h.1
      rw [withoutView, withoutView, withoutViewAll_eq, withoutViewAll_eq, Kind.junction.inj hkind, hclauses]
    | leaf b => cases b <;> cases hkind
    | negation g => cases hkind

theorem views_leaf (a : Assertion) : (leaf a).views = a.view?.toList := by
  rw [views, leaves]
  cases a <;> rfl

theorem views_junction (c : Connective) (fs : List Filter) :
    (junction c fs).views = fs.flatMap views := by
  rw [views, leaves, leavesAll_eq, List.filterMap_flatMap]
  rfl

theorem length_views_withoutView (f : Filter) : f.withoutView.views.length = f.views.length := by
  induction f with
  | leaf a => cases a <;> rfl
  | negation f ih => exact ih
  | junction c fs ih =>
    rw [withoutView, views_junction, views_junction, withoutViewAll_eq, List.length_flatMap,
      List.length_flatMap, List.map_map]
    exact congrArg List.sum (List.map_congr_left ih)

/-- Filters that differ in views alone have them in the same places. -/
theorem length_views_eq (h : f.withoutView = g.withoutView) : f.views.length = g.views.length := by
  rw [← length_views_withoutView f, h, length_views_withoutView]

/-- A filter is known from the rest of it and the views of its extensible assertions. -/
theorem eq_of_withoutView_eq (h : f.withoutView = g.withoutView) (hviews : f.views = g.views) : f = g := by
  induction f generalizing g with
  | leaf a =>
    cases g with
    | leaf b =>
      have hview : a.view? = b.view? := by
        simpa only [views_leaf, Option.head?_toList] using congrArg List.head? hviews
      rw [Assertion.eq_of_withoutView_eq (leaf.inj h) hview]
    | _ => cases h
  | negation f ih =>
    cases g with
    | negation g => rw [ih (negation.inj h) hviews]
    | _ => cases h
  | junction c fs ih =>
    cases g with
    | junction d gs =>
      obtain ⟨hc, hclauses⟩ := junction.inj h
      rw [withoutViewAll_eq, withoutViewAll_eq] at hclauses
      rw [views_junction, views_junction] at hviews
      rw [hc, eq_of_map_eq_of_flatMap_eq (fun f g => length_views_eq) ih hclauses hviews]
    | _ => cases h

/-- Filters of text have different projections unless they are equal, whatever their views. Equal filters
with the same views have the same projection, of text or not. -/
theorem projection_identifies (f g : Filter) :
    (f.IsText → g.IsText → f.project = g.project → (f == g) = true) ∧
      ((f == g) = true → f.views = g.views → f.project = g.project) := by
  constructor
  · intro hf hg h
    exact beq_iff.2 (withoutView_eq_of_project_eq hf hg h)
  · intro hfg hviews
    rw [eq_of_withoutView_eq (beq_iff.1 hfg) hviews]

/-- A filter that asks for a fragment in the middle and may ask for an initial one. -/
def lookAlike (initial : Option Octets) : Filter :=
  .and [substring "cn" { initial := initial, any := [[0xC3, 0xA9]], final := none },
    negation (leaf (.extensible { matchType := some "cn", rule := none, value := [0x61],
                                  dnAttributes := false, substrings := none }))]

/-- Asking for an empty fragment is shown otherwise than asking for none. -/
theorem lookAlike_told_apart :
    (lookAlike none).IsText ∧ (lookAlike (some [])).IsText ∧
      (lookAlike none).project ≠ (lookAlike (some [])).project ∧
      (lookAlike none == (lookAlike none).withoutView) = true ∧
      (lookAlike none).views = (lookAlike none).withoutView.views ∧
      (lookAlike none).project = (lookAlike none).withoutView.project := by
  have habsent : (lookAlike none).IsText := by decide
  have hempty : (lookAlike (some [])).IsText := by decide
  have hequal : (lookAlike none == (lookAlike none).withoutView) = true := by decide
  refine ⟨habsent, hempty, fun h => ?_, hequal, rfl, (projection_identifies _ _).2 hequal rfl⟩
  exact absurd ((projection_identifies _ _).1 habsent hempty h) (by decide)

end Filter

end SearchFilter
