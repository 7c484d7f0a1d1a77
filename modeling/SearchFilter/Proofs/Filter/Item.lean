import Mathlib.Tactic.Common
import SearchFilter.Proofs.Filter.Fragments
import SearchFilter.Proofs.Filter.Tree

namespace SearchFilter

namespace Item

/-- The names of attributes. -/
def IsName (name : String) : Prop :=
  name ≠ "" ∧ ∀ c ∈ name.toList, isNameChar c = true

/-- The names of matching rules. -/
def IsRule (rule : String) : Prop :=
  rule ≠ "" ∧ ∀ c ∈ rule.toList, Extensible.isRuleChar c = true

/-- The field that asks for distinguished names, in any letter case. -/
def IsDn (field : List Char) : Prop :=
  field.map Char.toLower = ['d', 'n']

/-- The optional field that asks for distinguished names. -/
inductive DnField : Bool → List Char → Prop where
  | absent : DnField false []
  | present {field : List Char} (hfield : IsDn field) : DnField true (':' :: field)

/-- The optional field that names a matching rule. Without a field for distinguished names in front
of it, a rule that looks like one is read as one. -/
inductive RuleField (dnAttributes : Bool) : Option String → List Char → Prop where
  | absent : RuleField dnAttributes none []
  | present {rule : String} (hrule : IsRule rule) (hdn : dnAttributes = false → ¬IsDn rule.toList) :
    RuleField dnAttributes (some rule) (':' :: rule.toList)

/-- The fragments of a value are derived from its text where it has wildcards. -/
inductive View (value : List Char) : Option Substrings → Prop where
  | absent (hstar : '*' ∉ value) : View value none
  | present {s : Substrings} (hs : Fragments value s) : View value (some s)

end Item

open Item

/-- The items that stand for an assertion, put together from a name, an operator and a value. How an
item is taken apart has no part in it. -/
inductive Assertion.SpelledAs : Assertion → List Char → Prop where
  | presence {name : String} (hname : IsName name) :
    SpelledAs (.presence name) (name.toList ++ ['=', '*'])
  | equality {name : String} {value : List Char} {bs : Octets} (hname : IsName name)
    (hvalue : Escaped.Denotes value bs) (hstar : '*' ∉ value) :
    SpelledAs (.comparison .equal name bs) (name.toList ++ '=' :: value)
  | substring {name : String} {value : List Char} {s : Substrings} (hname : IsName name)
    (hvalue : Fragments value s) (hwild : value ≠ ['*']) :
    SpelledAs (.substring name s) (name.toList ++ '=' :: value)
  | ordering {op : Comparison} {name : String} {value : List Char} {bs : Octets}
    (hname : IsName name) (hop : op ≠ .equal) (hvalue : Escaped.Denotes value bs) :
    SpelledAs (.comparison op name bs) (name.toList ++ (op.symbol ++ value))
  | extensible {e : Extensible} {flag rule value : List Char}
    (htype : ∀ name, e.matchType = some name → IsName name) (hflag : DnField e.dnAttributes flag)
    (hrule : RuleField e.dnAttributes e.rule rule) (hnamed : e.matchType ≠ none ∨ e.rule ≠ none)
    (hvalue : Escaped.Denotes value e.value) (hview : View value e.substrings) :
    SpelledAs (.extensible e)
      (e.matchType.elim [] String.toList ++ (flag ++ (rule ++ ':' :: '=' :: value)))

namespace Item

theorem isDnFlag_iff {field : List Char} : isDnFlag field = true ↔ IsDn field := by
  simp [isDnFlag, IsDn]

theorem notMem_of_forall {p : Char → Bool} {text : List Char} (h : ∀ c ∈ text, p c = true) {c : Char}
    (hc : p c = false) : c ∉ text := by
  intro hmem
  rw [h c hmem] at hc
  cases hc

theorem IsDn.notMem {field : List Char} (h : IsDn field) {c : Char} (hc : c.toLower ∉ ['d', 'n']) :
    c ∉ field := by
  intro hmem
  have hlower := List.mem_map_of_mem (f := Char.toLower) hmem
  rw [h] at hlower
  exact hc hlower

theorem DnField.notMem {dnAttributes : Bool} {flag : List Char} (h : DnField dnAttributes flag)
    {c : Char} (hcolon : c ≠ ':') (hc : c.toLower ∉ ['d', 'n']) : c ∉ flag := by
  cases h with
  | absent => exact List.not_mem_nil
  | present hfield => simp [hcolon, hfield.notMem hc]

theorem RuleField.notMem {dnAttributes : Bool} {rule : Option String} {text : List Char}
    (h : RuleField dnAttributes rule text) {c : Char} (hcolon : c ≠ ':')
    (hc : Extensible.isRuleChar c = false) : c ∉ text := by
  cases h with
  | absent => exact List.not_mem_nil
  | present hrule _ => simp [hcolon, notMem_of_forall hrule.2 hc]

/-- Taking off the flag leaves fields which do not start with one, unless a flag was taken. -/
theorem takeDnFlag_spec {fields rest : List (List Char)} {dnAttributes : Bool}
    (h : takeDnFlag fields = (dnAttributes, rest)) :
    ∃ flag, DnField dnAttributes flag ∧
      fields.flatMap (':' :: ·) = flag ++ rest.flatMap (':' :: ·) ∧
      (dnAttributes = false → ∀ field ∈ rest.head?, ¬IsDn field) := by
  cases fields with
  | nil =>
    cases h
    exact ⟨[], .absent, rfl, by simp⟩
  | cons field fields =>
    rw [takeDnFlag] at h
    by_cases hfield : isDnFlag field
    · rw [if_pos hfield] at h
      cases h
      exact ⟨':' :: field, .present (isDnFlag_iff.1 hfield), rfl, by simp⟩
    · rw [if_neg hfield] at h
      cases h
      refine ⟨[], .absent, rfl, ?_⟩
      rintro - _ ⟨⟩
      rwa [← isDnFlag_iff]

/-- A rule is taken off only as a field of its own that is not empty. -/
theorem takeRule_spec {fields rest : List (List Char)} {rule : Option (List Char)}
    (h : takeRule fields = .ok (rule, rest)) :
    rule = none ∧ rest = fields ∨ ∃ field, rule = some field ∧ field ≠ [] ∧ fields = field :: rest := by
  unfold takeRule at h
  split at h
  · cases h
    exact .inl ⟨rfl, rfl⟩
  · cases h
  · cases h
    exact .inl ⟨rfl, rfl⟩
  · rename_i field _ hne _
    cases h
    exact .inr ⟨field, rfl, hne, rfl⟩

theorem takeRule_cons {field : List Char} {fields : List (List Char)} (hne : field ≠ [])
    (hequals : field.head? ≠ some '=') : takeRule (field :: fields) = .ok (some field, fields) := by
  cases field with
  | nil => exact absurd rfl hne
  | cons c field =>
    rw [takeRule]
    · exact hne
    · rintro _ ⟨⟩
      exact hequals rfl

theorem intercalate_eq (piece : List Char) (pieces : List (List Char)) :
    List.intercalate [':'] (piece :: pieces) = piece ++ pieces.flatMap (':' :: ·) := by
  induction pieces generalizing piece with
  | nil => simp [List.intercalate]
  | cons next pieces ih =>
    have hnext := ih next
    simp only [List.intercalate] at hnext ⊢
    rw [List.intersperse_cons_cons, List.flatten_cons, List.flatten_cons, hnext]
    simp

/-- The value is what stands behind the equals sign, with the colons in it put back. -/
theorem assertionText_spec {fields : List (List Char)} {value : List Char}
    (h : assertionText fields = .ok value) :
    fields.flatMap (':' :: ·) = ':' :: '=' :: value := by
  unfold assertionText at h
  split at h
  · rename_i field fields
    rw [intercalate_eq] at h
    cases h
    rfl
  · cases h

/-- The flag field can be taken off again, whatever fields follow it. -/
theorem DnField.exists_fields {dnAttributes : Bool} {flag : List Char} (h : DnField dnAttributes flag) :
    ∃ fields : List (List Char), flag = fields.flatMap (':' :: ·) ∧ (∀ field ∈ fields, ':' ∉ field) ∧
      ∀ rest : List (List Char), (dnAttributes = false → ∀ field ∈ rest.head?, ¬IsDn field) →
        takeDnFlag (fields ++ rest) = (dnAttributes, rest) := by
  cases h with
  | absent =>
    refine ⟨[], rfl, by simp, ?_⟩
    intro rest hrest
    cases rest with
    | nil => rfl
    | cons field rest =>
      have hfield := hrest rfl field rfl
      rw [← isDnFlag_iff] at hfield
      exact if_neg hfield
  | @present field hfield =>
    refine ⟨[field], by simp, ?_, ?_⟩
    · intro _ hmem
      rw [List.mem_singleton.1 hmem]
      exact hfield.notMem (by decide)
    · intro rest _
      exact if_pos (isDnFlag_iff.2 hfield)

/-- A rule field names a rule, and where no flag stands in front of it one that does not look like
the flag. -/
theorem RuleField.isRule {dnAttributes : Bool} {rule : Option String} {text : List Char}
    (h : RuleField dnAttributes rule text) :
    ∀ s, rule = some s → IsRule s ∧ (dnAttributes = false → ¬IsDn s.toList) := by
  cases h with
  | absent => simp
  | present hrule hdn =>
    rintro _ ⟨⟩
    exact ⟨hrule, hdn⟩

/-- The rule field can be taken off again from the fields before a value. -/
theorem RuleField.exists_fields {dnAttributes : Bool} {rule : Option String} {text : List Char}
    (h : RuleField dnAttributes rule text) :
    ∃ fields : List (List Char), text = fields.flatMap (':' :: ·) ∧ (∀ field ∈ fields, ':' ∉ field) ∧
      ∀ piece (rest : List (List Char)),
        takeRule (fields ++ ('=' :: piece) :: rest) =
          .ok (rule.map String.toList, ('=' :: piece) :: rest) ∧
        (dnAttributes = false →
          ∀ field ∈ (fields ++ ('=' :: piece) :: rest).head?, ¬IsDn field) := by
  cases h with
  | absent =>
    refine ⟨[], rfl, by simp, ?_⟩
    intro piece rest
    refine ⟨rfl, ?_⟩
    rintro - _ ⟨⟩ hdn
    cases hdn
  | @present rule hrule hdn =>
    refine ⟨[rule.toList], by simp, ?_, ?_⟩
    · intro _ hmem
      rw [List.mem_singleton.1 hmem]
      exact notMem_of_forall hrule.2 (by decide)
    · intro piece rest
      have hne : rule.toList ≠ [] := by
        simpa using hrule.1
      have hequals : rule.toList.head? ≠ some '=' := by
        intro hhead
        exact notMem_of_forall hrule.2 (by decide) (List.mem_of_mem_head? hhead)
      refine ⟨takeRule_cons hne hequals, ?_⟩
      rintro hfalse _ ⟨⟩
      exact hdn hfalse

/-- A view is read where there are wildcards, and it is that of the text. -/
theorem view_eq_ok_iff {value : List Char} {view : Option Substrings} (hclose : ')' ∉ value) :
    (if '*' ∈ value then some <$> readSubstrings value else pure none) = .ok view ↔
      View value view := by
  by_cases hstar : '*' ∈ value
  · rw [if_pos hstar, Except.map_eq_ok_iff]
    constructor
    · rintro ⟨s, hs, rfl⟩
      exact .present ((readSubstrings_eq_ok_iff hclose).1 hs)
    · rintro (hfree | hs)
      · exact absurd hstar hfree
      · exact ⟨_, (readSubstrings_eq_ok_iff hclose).2 hs, rfl⟩
  · rw [if_neg hstar, Except.pure_eq_ok_iff]
    constructor
    · rintro rfl
      exact .absent hstar
    · rintro (hfree | hs)
      · rfl
      · exact absurd hs.mem_star hstar

/-- Reading an extensible item step by step: the fields, the value, the view, and the test that it
can be asked for. -/
theorem readExtensible_eq_ok_iff {name text : List Char} {a : Assertion} :
    readExtensible name text = .ok a ↔ ∃ dnAttributes fields rule rest value bs view,
      takeDnFlag ((cut ':' text).1 :: (cut ':' text).2) = (dnAttributes, fields) ∧
      takeRule fields = .ok (rule, rest) ∧ assertionText rest = .ok value ∧
      readValue value = .ok bs ∧
      (if '*' ∈ value then some <$> readSubstrings value else pure none) = .ok view ∧
      ∃ e : Extensible, e = { matchType := if name.isEmpty then none else some (String.ofList name),
                              rule := rule.map String.ofList, value := bs, dnAttributes,
                              substrings := view } ∧
        e.validate = .ok () ∧ a = .extensible e := by
  unfold readExtensible
  generalize cut ':' text = pieces
  obtain ⟨first, others⟩ := pieces
  dsimp only
  generalize takeDnFlag (first :: others) = taken
  obtain ⟨dnAttributes, fields⟩ := taken
  simp only [Except.bind_eq_ok_iff]
  constructor
  · rintro ⟨⟨rule, rest⟩, hrule, value, hvalue, bs, hbs, h⟩
    by_cases hstar : '*' ∈ value
    all_goals
      simp only [hstar, if_true, if_false] at h
      obtain ⟨view, hview, h⟩ := Except.bind_eq_ok_iff.1 h
      refine ⟨dnAttributes, fields, rule, rest, value, bs, view, rfl, hrule, hvalue, hbs, ?_, _, rfl, ?_⟩
      · simpa only [hstar, if_true, if_false] using hview
      generalize Extensible.mk _ _ _ _ _ = e at h ⊢
      cases hvalid : e.validate with
      | error fault =>
        rw [hvalid] at h
        cases h
      | ok =>
        rw [hvalid] at h
        cases h
        exact ⟨rfl, rfl⟩
  · rintro ⟨_, _, rule, rest, value, bs, view, ⟨⟩, hrule, hvalue, hbs, hview, e, rfl, hvalid, rfl⟩
    refine ⟨(rule, rest), hrule, value, hvalue, bs, hbs, ?_⟩
    by_cases hstar : '*' ∈ value
    all_goals
      simp only [hstar, if_true, if_false] at hview ⊢
      refine Except.bind_eq_ok_iff.2 ⟨view, hview, ?_⟩
      rw [hvalid]
      rfl

/-- What was read as an extensible item spells the assertion that came out. -/
theorem readExtensible_sound {name text : List Char} {a : Assertion}
    (hname : ∀ c ∈ name, isNameChar c = true) (hclose : ')' ∉ text)
    (h : readExtensible name text = .ok a) : a.SpelledAs (name ++ ':' :: text) := by
  obtain ⟨dnAttributes, fields, rule, rest, value, bs, view, hdn, hrule, hvalue, hbs, hview, e, he,
    hvalid, rfl⟩ := readExtensible_eq_ok_iff.1 h
  rw [Extensible.validate_eq_ok_iff] at hvalid
  generalize hmatch : (if name.isEmpty then none else some (String.ofList name)) = matchType at he
  subst he
  have htype : matchType.elim [] String.toList = name ∧ ∀ s, matchType = some s → IsName s := by
    subst hmatch
    cases name with
    | nil => exact ⟨rfl, by simp⟩
    | cons c name =>
      refine ⟨String.toList_ofList, ?_⟩
      rintro _ ⟨⟩
      refine ⟨by simp, ?_⟩
      rwa [String.toList_ofList]
  obtain ⟨flag, hflag, hfields, hhead⟩ := takeDnFlag_spec hdn
  have hrest := assertionText_spec hvalue
  obtain ⟨ruleText, hruleField, hruleText⟩ :
      ∃ ruleText, RuleField dnAttributes (rule.map String.ofList) ruleText ∧
        fields.flatMap (':' :: ·) = ruleText ++ ':' :: '=' :: value := by
    rcases takeRule_spec hrule with ⟨rfl, rfl⟩ | ⟨field, rfl, hne, rfl⟩
    · exact ⟨[], .absent, hrest⟩
    · refine ⟨':' :: (String.ofList field).toList, .present ⟨?_, hvalid.2 _ rfl⟩ ?_, ?_⟩
      · simpa using hne
      · intro hfalse
        rw [String.toList_ofList]
        exact hhead hfalse field rfl
      · rw [List.flatMap_cons, hrest, String.toList_ofList]
  have htext : ':' :: text = flag ++ (ruleText ++ ':' :: '=' :: value) := by
    rw [← hruleText, ← hfields, List.flatMap_cons, List.cons_append, ← (cut_spec ':' text).1]
  have hcloseValue : ')' ∉ value := by
    intro hmem
    have hmem' : ')' ∈ ':' :: text := by simp [htext, hmem]
    simp [hclose] at hmem'
  have hnamed : matchType ≠ none ∨ rule.map String.ofList ≠ none := by
    rcases hvalid.1 with ⟨s, hs, _⟩ | ⟨s, hs, _⟩
    · exact .inl (Option.ne_none_iff_exists'.2 ⟨s, hs⟩)
    · exact .inr (Option.ne_none_iff_exists'.2 ⟨s, hs⟩)
  have hspelled := Assertion.SpelledAs.extensible (e := ⟨matchType, rule.map String.ofList, bs,
    dnAttributes, view⟩) htype.2 hflag hruleField hnamed ((readValue_eq_ok_iff hcloseValue).1 hbs)
    ((view_eq_ok_iff hcloseValue).1 hview)
  rwa [htype.1, ← htext] at hspelled

/-- Fields and a value put together are read as the assertion they were taken from. -/
theorem readExtensible_complete {e : Extensible} {flag rule value text : List Char}
    (htype : ∀ name, e.matchType = some name → IsName name) (hflag : DnField e.dnAttributes flag)
    (hrule : RuleField e.dnAttributes e.rule rule) (hnamed : e.matchType ≠ none ∨ e.rule ≠ none)
    (hvalue : Escaped.Denotes value e.value) (hview : View value e.substrings)
    (htext : ':' :: text = flag ++ (rule ++ ':' :: '=' :: value)) :
    readExtensible (e.matchType.elim [] String.toList) text = .ok (.extensible e) := by
  have hvalid : (Assertion.extensible e).Valid := by
    refine ⟨?_, fun s hs => (hrule.isRule s hs).1.2⟩
    rcases hnamed with hnamed | hnamed
    · obtain ⟨s, hs⟩ := Option.ne_none_iff_exists'.1 hnamed
      exact .inl ⟨s, hs, (htype s hs).1⟩
    · obtain ⟨s, hs⟩ := Option.ne_none_iff_exists'.1 hnamed
      exact .inr ⟨s, hs, (hrule.isRule s hs).1.1⟩
  obtain ⟨flagFields, rfl, hflagFree, htakeFlag⟩ := hflag.exists_fields
  obtain ⟨ruleFields, rfl, hruleFree, htakeRule⟩ := hrule.exists_fields
  obtain ⟨hpieces, hfree⟩ := cut_spec ':' value
  generalize cut ':' value = pieces at hpieces hfree
  obtain ⟨piece, pieces⟩ := pieces
  dsimp only at hpieces hfree
  have hcut : (cut ':' text).1 :: (cut ':' text).2 =
      flagFields ++ (ruleFields ++ ('=' :: piece) :: pieces) := by
    refine cut_eq_of_flatMap (by simp) ?_ ?_
    · intro field hfield
      simp only [List.mem_append, List.mem_cons] at hfield
      rcases hfield with hfield | hfield | rfl | hfield
      · exact hflagFree field hfield
      · exact hruleFree field hfield
      · simpa using hfree piece List.mem_cons_self
      · exact hfree field (List.mem_cons_of_mem _ hfield)
    · rw [htext, hpieces]
      simp
  have hassertion : assertionText (('=' :: piece) :: pieces) = .ok value := by
    rw [assertionText, intercalate_eq, ← hpieces]
  have hclose := hvalue.notMem_paren.2
  rw [readExtensible_eq_ok_iff]
  refine ⟨e.dnAttributes, _, _, _, value, e.value, e.substrings, ?_, (htakeRule piece pieces).1,
    hassertion, (readValue_eq_ok_iff hclose).2 hvalue, (view_eq_ok_iff hclose).2 hview, e, ?_,
    Extensible.validate_eq_ok_iff.2 hvalid, rfl⟩
  · rw [hcut]
    exact htakeFlag _ (htakeRule piece pieces).2
  · have hrule' : (e.rule.map String.toList).map String.ofList = e.rule := by
      cases e.rule <;> simp
    have htype' : (if (e.matchType.elim [] String.toList).isEmpty then none
        else some (String.ofList (e.matchType.elim [] String.toList))) = e.matchType := by
      cases hmatch : e.matchType with
      | none => rfl
      | some name =>
        have hname := (htype name hmatch).1
        simp [hname]
    rw [hrule', htype']

/-- A name and what was read behind it spell the assertion that came out. -/
theorem readOperator_sound {item name rest : List Char} {a : Assertion}
    (hname : ∀ c ∈ name, isNameChar c = true) (hnamed : name ≠ [] ∨ rest.head? = some ':')
    (hclose : ')' ∉ rest) (h : readOperator item name rest = .ok a) : a.SpelledAs (name ++ rest) := by
  have hself : (String.ofList name).toList = name := String.toList_ofList
  have hisName (hhead : rest.head? ≠ some ':') : IsName (String.ofList name) := by
    refine ⟨?_, ?_⟩
    · simpa using hnamed.resolve_right hhead
    · rwa [hself]
  have hordering (op : Comparison) (hop : op ≠ .equal) (hhead : rest.head? ≠ some ':')
      (value : List Char) (hrest : rest = op.symbol ++ value)
      (h : (do return Assertion.comparison op (String.ofList name) (← readValue value)) = .ok a) :
      a.SpelledAs (name ++ rest) := by
    simp only [Except.bind_eq_ok_iff, Except.pure_eq_ok_iff] at h
    obtain ⟨bs, hbs, rfl⟩ := h
    rw [hrest, List.mem_append, not_or] at hclose
    have hspelled := Assertion.SpelledAs.ordering (hisName hhead) hop
      ((readValue_eq_ok_iff hclose.2).1 hbs)
    rwa [hself, ← hrest] at hspelled
  unfold readOperator at h
  split at h
  · cases h
    have hspelled := Assertion.SpelledAs.presence (hisName (by simp))
    rwa [hself] at hspelled
  · rename_i value hwild
    rw [List.mem_cons, not_or] at hclose
    split_ifs at h with hstar
    · simp only [Except.bind_eq_ok_iff, Except.pure_eq_ok_iff] at h
      obtain ⟨s, hs, rfl⟩ := h
      have hspelled := Assertion.SpelledAs.substring (hisName (by simp))
        ((readSubstrings_eq_ok_iff hclose.2).1 hs) hwild
      rwa [hself] at hspelled
    · simp only [Except.bind_eq_ok_iff, Except.pure_eq_ok_iff] at h
      obtain ⟨bs, hbs, rfl⟩ := h
      have hspelled := Assertion.SpelledAs.equality (hisName (by simp))
        ((readValue_eq_ok_iff hclose.2).1 hbs) hstar
      rwa [hself] at hspelled
  · exact hordering .atLeast (by decide) (by simp) _ rfl h
  · exact hordering .atMost (by decide) (by simp) _ rfl h
  · exact hordering .approximate (by decide) (by simp) _ rfl h
  · rw [List.mem_cons, not_or] at hclose
    exact readExtensible_sound hname hclose.2 h
  · cases h

/-- A name ends at the first character that is not one of its own. -/
theorem read_append {name rest : List Char} {c : Char} (hname : ∀ c ∈ name, isNameChar c = true)
    (hc : isNameChar c = false) (hnamed : name ≠ [] ∨ c = ':') :
    read (name ++ c :: rest) = readOperator (name ++ c :: rest) name (c :: rest) := by
  have htake : (name ++ c :: rest).takeWhile isNameChar = name := by
    rw [List.takeWhile_append_of_pos hname]
    simp [hc]
  have hdrop : (name ++ c :: rest).dropWhile isNameChar = c :: rest := by
    rw [List.dropWhile_append_of_pos hname]
    simp [hc]
  have hstarts : ¬(name.isEmpty && (name ++ c :: rest).head? != some ':') = true := by
    rcases hnamed with hne | rfl
    · simp [hne]
    · cases name <;> simp
  simp only [read, htake, hdrop]
  rw [if_neg hstarts]

/-- An equals sign opens the value of a comparison or of a substring assertion, unless a lone wildcard
follows it. -/
theorem readOperator_equals {item name value : List Char} (hwild : value ≠ ['*']) :
    readOperator item name ('=' :: value) =
      if '*' ∈ value then do return .substring (String.ofList name) (← readSubstrings value)
      else do return .comparison .equal (String.ofList name) (← readValue value) := by
  rw [readOperator]
  exact hwild

/-- What stands in front of the value of an extensible item starts with a colon, whatever fields
there are. -/
theorem exists_colon {dnAttributes : Bool} {rule : Option String}
    {flag ruleText : List Char} (hflag : DnField dnAttributes flag)
    (hrule : RuleField dnAttributes rule ruleText) (value : List Char) :
    ∃ text, flag ++ (ruleText ++ ':' :: value) = ':' :: text := by
  cases hflag with
  | present => exact ⟨_, rfl⟩
  | absent =>
    cases hrule with
    | present => exact ⟨_, rfl⟩
    | absent => exact ⟨_, rfl⟩

/-- An item is read as the assertion that it spells. -/
theorem read_complete {text : List Char} {a : Assertion} (h : a.SpelledAs text) :
    read text = .ok a := by
  have hread {name : String} {c : Char} {rest : List Char} (hname : IsName name)
      (hc : isNameChar c = false) :
      read (name.toList ++ c :: rest) =
        readOperator (name.toList ++ c :: rest) name.toList (c :: rest) :=
    read_append hname.2 hc (.inl (by simpa using hname.1))
  cases h with
  | @presence name hname =>
    rw [hread hname (by decide), readOperator, String.ofList_toList]
  | @equality name value bs hname hvalue hstar =>
    have hwild : value ≠ ['*'] := by
      rintro rfl
      exact hstar List.mem_cons_self
    rw [hread hname (by decide), readOperator_equals hwild, if_neg hstar, String.ofList_toList,
      (readValue_eq_ok_iff hvalue.notMem_paren.2).2 hvalue]
    rfl
  | @substring name value s hname hvalue hwild =>
    rw [hread hname (by decide), readOperator_equals hwild, if_pos hvalue.mem_star,
      String.ofList_toList, (readSubstrings_eq_ok_iff hvalue.notMem_paren.2).2 hvalue]
    rfl
  | @ordering op name value bs hname hop hvalue =>
    have hreadValue := (readValue_eq_ok_iff hvalue.notMem_paren.2).2 hvalue
    cases op with
    | equal => exact absurd rfl hop
    | _ =>
      simp only [Comparison.symbol, List.cons_append, List.nil_append]
      rw [hread hname (by decide), readOperator, hreadValue, String.ofList_toList]
      rfl
  | @extensible e flag rule value htype hflag hrule hnamed hvalue hview =>
    obtain ⟨text, htext⟩ := exists_colon hflag hrule ('=' :: value)
    have hname : ∀ c ∈ e.matchType.elim [] String.toList, isNameChar c = true := by
      cases hmatch : e.matchType with
      | none => simp
      | some name => exact (htype name hmatch).2
    rw [htext, read_append hname (by decide) (.inr rfl), readOperator]
    exact readExtensible_complete htype hflag hrule hnamed hvalue hview htext.symm

/-- An item is read as what it spells, and any other text without a closing parenthesis is refused. -/
theorem read_eq_ok_iff {text : List Char} {a : Assertion} (hclose : ')' ∉ text) :
    read text = .ok a ↔ a.SpelledAs text := by
  constructor
  · intro h
    have htext := List.takeWhile_append_dropWhile (p := isNameChar) (l := text)
    have hname := List.all_eq_true.1 (List.all_takeWhile (p := isNameChar) (l := text))
    simp only [read] at h
    split_ifs at h with hstarts
    generalize text.takeWhile isNameChar = name at h hname hstarts htext
    generalize text.dropWhile isNameChar = rest at h htext
    subst htext
    refine readOperator_sound hname ?_ (fun hmem => hclose (List.mem_append_right _ hmem)) h
    cases name with
    | nil => exact .inr (by simpa using hstarts)
    | cons c name => exact .inl (List.cons_ne_nil c name)
  · exact read_complete

end Item

end SearchFilter
