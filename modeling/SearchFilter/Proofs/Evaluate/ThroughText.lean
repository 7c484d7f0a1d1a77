import Mathlib.Tactic.Common
import SearchFilter.Proofs.Evaluate.CaseRelaxation
import SearchFilter.Proofs.Evaluate.LocalRewriting
import SearchFilter.Proofs.Evaluate.SubstringSearch
import SearchFilter.Proofs.Pattern.EmptyEnds

namespace SearchFilter

/-- Whether a record has the same answer to a leaf and to what is read from its text. Where a substring
assertion becomes a test for presence, the attribute may not be an empty list of values. Where a value holds
the fragments that are left, one has to hold them without a line break in the place of a dropped one. -/
def Assertion.ReadAlike (r : Record) (strict : Bool) : Assertion → Prop
  | .substring name s =>
    (s.written.isEmpty = true → r.get? name strict ≠ some (.many [])) ∧
      ((∃ x ∈ r.valuesOf name strict, s.written.FoundIn x.chars) →
        ∃ x ∈ r.valuesOf name strict, s.FoundUnbroken x.chars)
  | _ => True

instance Assertion.decidableReadAlike (r : Record) (strict : Bool) :
    (a : Assertion) → Decidable (a.ReadAlike r strict)
  | .substring name s =>
    inferInstanceAs (Decidable ((s.written.isEmpty = true → r.get? name strict ≠ some (.many [])) ∧
      ((∃ x ∈ r.valuesOf name strict, s.written.FoundIn x.chars) →
        ∃ x ∈ r.valuesOf name strict, s.FoundUnbroken x.chars)))
  | .empty | .comparison .. | .presence _ | .extensible _ => inferInstanceAs (Decidable True)

/-- The leaves that look up a name in the record themselves. -/
theorem Assertion.cases_of_lookedUp? {a : Assertion} {name : String} (h : name ∈ a.lookedUp?) :
    (∃ op value, op ≠ .approximate ∧ a = .comparison op name value) ∨ a = .presence name ∨
      ∃ s, a = .substring name s := by
  cases a with
  | comparison op key value =>
    cases op with
    | approximate => cases h
    | _ =>
      obtain rfl := Option.some.inj h
      exact .inl ⟨_, value, by decide, rfl⟩
  | empty | extensible e => cases h
  | presence key =>
    obtain rfl := Option.some.inj h
    exact .inr (.inl rfl)
  | substring key s =>
    obtain rfl := Option.some.inj h
    exact .inr (.inr ⟨s, rfl⟩)

theorem Assertion.question?_of_lookedUp? {a : Assertion} {name : String} (h : name ∈ a.lookedUp?) :
    a.question? = none := by
  obtain ⟨op, value, hop, rfl⟩ | rfl | ⟨s, rfl⟩ := cases_of_lookedUp? h
  · cases op with
    | approximate => exact absurd rfl hop
    | _ => rfl
  · rfl
  · rfl

/-- What is read from the text of such a leaf has a text of its own, if its name has one. -/
theorem Assertion.textual_written_of_lookedUp? {a : Assertion} {name : String} (h : name ∈ a.lookedUp?)
    (hname : Item.IsName name) : a.written.Textual := by
  obtain ⟨op, value, _, rfl⟩ | rfl | ⟨s, rfl⟩ := cases_of_lookedUp? h
  · exact hname
  · exact hname
  · exact textual_written_substring hname s

namespace Filter

variable {f : Filter} {name : String} {s : Substrings} {r : Record} {strict : Bool}

/-- What is read from a substring assertion holds where a value holds the fragments that are left, and where
none are left also of an empty list of values. -/
theorem holds_written_substring_iff (hwritten : (leaf (Assertion.substring name s).written).Compiles) :
    (leaf (Assertion.substring name s).written).holds r strict = .ok true ↔
      s.written.isEmpty = true ∧ r.get? name strict = some (.many []) ∨
        ∃ x ∈ r.valuesOf name strict, s.written.FoundIn x.chars := by
  rw [Assertion.written] at hwritten ⊢
  split_ifs at hwritten ⊢ with hempty
  · rw [holds_presence_iff, Record.valuesOf]
    simp only [hempty, true_and, Substrings.foundIn_of_isEmpty hempty, and_true]
    rcases r.get? name strict with _ | _ | _ | _ | ⟨x, values⟩ <;> simp [AttributeValue.scalars]
  · rw [holds_substring_iff hwritten]
    simp [hempty]

/-- The condition on records is exact for a leaf: where it fails, the answers differ. -/
theorem holds_written_substring_eq_iff (hcompiles : (substring name s).Compiles)
    (hwritten : (leaf (Assertion.substring name s).written).Compiles) :
    (leaf (Assertion.substring name s).written).holds r strict = (substring name s).holds r strict ↔
      (Assertion.substring name s).ReadAlike r strict := by
  have hfree : (leaf (Assertion.substring name s).written).IsSchemaFree := by
    rw [isSchemaFree_leaf, Assertion.written]
    split_ifs <;> rfl
  obtain ⟨a, ha⟩ : ∃ a, (leaf (Assertion.substring name s).written).holds r strict = .ok a :=
    exists_holdsWith_eq_ok hfree hwritten _ r strict
  obtain ⟨b, hb⟩ : ∃ b, (substring name s).holds r strict = .ok b :=
    exists_holdsWith_eq_ok (isSchemaFree_leaf.2 rfl) hcompiles _ r strict
  have hread : a = true ↔ s.written.isEmpty = true ∧ r.get? name strict = some (.many []) ∨
      ∃ x ∈ r.valuesOf name strict, s.written.FoundIn x.chars := by
    rw [← holds_written_substring_iff hwritten, ha, Except.ok.injEq]
  have hholds : b = true ↔ ∃ x ∈ r.valuesOf name strict, s.FoundUnbroken x.chars := by
    simp only [← Substrings.foundIn_iff_foundUnbroken]
    rw [← holds_substring_iff hcompiles, hb, Except.ok.injEq]
  rw [ha, hb, Except.ok.injEq, Bool.eq_iff_iff, hread, hholds]
  constructor
  · intro hsame
    refine ⟨fun hempty hlist => ?_, fun hfound => hsame.1 (.inr hfound)⟩
    obtain ⟨x, hx, _⟩ := hsame.1 (.inl ⟨hempty, hlist⟩)
    rw [Record.valuesOf, hlist] at hx
    cases hx
  · rintro ⟨hlist, hkept⟩
    constructor
    · rintro (⟨hempty, hmany⟩ | hfound)
      · exact absurd hmany (hlist hempty)
      · exact hkept hfound
    · rintro ⟨x, hx, hfound⟩
      exact .inr ⟨x, hx, hfound.written⟩

/-- A line break before the other fragment is met with an empty initial one, and not without. -/
example :
    (substring "cn" { initial := some [], any := [[0x78]], final := none }).holds
        (.ofList [("cn", .one (.text "\nx"))]) true = .ok false ∧
      (substring "cn" { initial := none, any := [[0x78]], final := none }).holds
        (.ofList [("cn", .one (.text "\nx"))]) true = .ok true := by
  constructor <;> cbv

/-- Where the record cannot tell any leaf from what is read from its text, it cannot tell the filters. -/
theorem holds_written (hcompiles : f.Compiles) (hwritten : f.written.Compiles)
    (halike : ∀ a ∈ f.leaves, a.ReadAlike r strict) : f.written.holds r strict = f.holds r strict := by
  induction f with
  | leaf a =>
    cases a with
    | substring name s =>
      exact (holds_written_substring_eq_iff hcompiles hwritten).2 (halike _ (List.mem_singleton_self _))
    | _ => rfl
  | negation f ih =>
    exact congrArg (fun answer : Answer => answer.map (!·)) (ih hcompiles hwritten halike)
  | junction c fs ih =>
    rw [forall_mem_leaves_junction] at halike
    rw [written, writtenAll_eq] at hwritten ⊢
    have hclauses : List.Forall₂
        (fun f g : Filter => f.holds r strict = g.holds r strict) (fs.map written) fs := by
      rw [List.forall₂_map_left_iff, List.forall₂_same]
      intro f hf
      exact ih f hf (hcompiles.clause hf) (hwritten.clause (List.mem_map_of_mem hf)) (halike f hf)
    exact evaluateAll_fst_congr hclauses c

/-- A filter that the record settles, with a name in every leaf and a clause in every junction, is read back
from its text, though empty fragments at the ends are gone and tests for presence stand where no fragment is
left. Its answers are the same on every record that has no empty list of values where such a test looks. Where
fragments are gone beside others, one of the values that hold these, if any, has no line break in their
place. -/
theorem answers_kept_through_text {f : Filter} (hpopulated : f.Populated)
    (hnamed : ∀ a ∈ f.leaves, ∃ name ∈ a.lookedUp?, Item.IsName name) :
    parse f.render = .ok f.written ∧
      ∀ (r : Record) (strict : Bool), f.Compiles → f.written.Compiles →
        (∀ a ∈ f.leaves, a.ReadAlike r strict) →
          ∃ b, f.holds r strict = .ok b ∧ f.written.holds r strict = .ok b := by
  have htextual : f.written.Textual := hpopulated.textual_written fun a ha => by
    obtain ⟨name, hlookedUp, hname⟩ := hnamed a ha
    exact Assertion.textual_written_of_lookedUp? hlookedUp hname
  have hfree : f.IsSchemaFree := fun a ha => by
    obtain ⟨name, hlookedUp, _⟩ := hnamed a ha
    exact Assertion.question?_of_lookedUp? hlookedUp
  refine ⟨htextual.parse_render_written, fun r strict hcompiles hwritten halike => ?_⟩
  obtain ⟨b, hb⟩ : ∃ b, f.holds r strict = .ok b := exists_holdsWith_eq_ok hfree hcompiles _ r strict
  exact ⟨b, hb, (holds_written hcompiles hwritten halike).trans hb⟩

/-- A filter with empty fragments at the ends of some assertions. -/
def emptyEnds : Filter :=
  .and [negation (substring "sn" { initial := some [], any := [], final := some [] }),
    .or [comparison .equal "cn" [0x2A],
      substring "CN" { initial := some [], any := [[0x42]], final := none }],
    substring "mail" { initial := none, any := [], final := some [] }]

/-- A record with nothing, and with texts with and without a line break. -/
def variedRecord : Record :=
  .ofList [("sn", .null), ("cn", .many [.text "Ann\nB", .text "Bo"]), ("mail", .one (.text "a\nb"))]

/-- The empty fragments are lost on the way, and the answer stays. -/
theorem emptyEnds_through_text :
    parse emptyEnds.render = .ok (.and [negation (leaf (.presence "sn")),
        .or [comparison .equal "cn" [0x2A],
          substring "CN" { initial := none, any := [[0x42]], final := none }],
        leaf (.presence "mail")]) ∧
      (∀ a ∈ emptyEnds.leaves, a.ReadAlike variedRecord false) ∧
      emptyEnds.holds variedRecord false = .ok true ∧
      emptyEnds.written.holds variedRecord false = .ok true := by
  have hpopulated : emptyEnds.Populated := by
    refine .junction (by simp) fun f hf => ?_
    simp only [List.mem_cons, List.not_mem_nil, or_false] at hf
    obtain rfl | rfl | rfl := hf
    · exact .negation (.leaf _)
    · refine .junction (by simp) fun g hg => ?_
      rcases List.mem_pair.1 hg with rfl | rfl <;> exact .leaf _
    · exact .leaf _
  have hnamed : ∀ a ∈ emptyEnds.leaves, ∃ name ∈ a.lookedUp?, Item.IsName name := by
    simp [emptyEnds, leaves, leavesAll, Assertion.lookedUp?, Item.IsName, Item.isNameChar]
  have hcompiles : emptyEnds.Compiles := by decide
  have hwritten : emptyEnds.written.Compiles := by decide
  have halike : ∀ a ∈ emptyEnds.leaves, a.ReadAlike variedRecord false := by decide
  have hholds : emptyEnds.holds variedRecord false = .ok true := by cbv
  obtain ⟨hread, hanswers⟩ := answers_kept_through_text hpopulated hnamed
  obtain ⟨b, hb, hkept⟩ := hanswers variedRecord false hcompiles hwritten halike
  obtain rfl : true = b := Except.ok.inj (hholds.symm.trans hb)
  exact ⟨hread, halike, hholds, hkept⟩

/-- A substring assertion that is met by every value. -/
def noFragments : Substrings :=
  { initial := none, any := [], final := none }

/-- An attribute without values is there, though it has no value that meets an assertion. -/
theorem noFragments_told_apart :
    parse (substring "cn" noFragments).render = .ok (leaf (.presence "cn")) ∧
      (substring "cn" noFragments).Compiles ∧
      (substring "cn" noFragments).holds (.ofList [("cn", .many [])]) true = .ok false ∧
      (leaf (.presence "cn")).holds (.ofList [("cn", .many [])]) true = .ok true := by
  have hname : Item.IsName "cn" := by simp [Item.IsName, Item.isNameChar]
  have htextual : (substring "cn" noFragments).written.Textual :=
    .leaf (Assertion.textual_written_substring hname _)
  exact ⟨htextual.parse_render_written, by decide, by cbv, by cbv⟩

end Filter

end SearchFilter
