import Mathlib.Data.List.Dedup
import Mathlib.Data.List.Induction
import Mathlib.Tactic.Common
import SearchFilter.Evaluate
import SearchFilter.Proofs.Octets.Utf8

namespace SearchFilter

namespace Entry

/-- The names of some entries, in their order. -/
def names (entries : List Entry) : List String :=
  entries.map (·.1)

/-- The value of the last entry that has exactly this name. -/
def lastValue? (entries : List Entry) (name : String) : Option AttributeValue :=
  (entries.reverse.find? (·.1 == name)).map (·.2)

/-- Whether `key` is, by its octets, the least of the names that differ from `name` at most in case. -/
def IsLeastVariant (names : List String) (name key : String) : Prop :=
  (key ∈ names ∧ Record.sameIgnoringCase key name = true) ∧
    ∀ other ∈ names, Record.sameIgnoringCase other name = true → order key other ≠ .gt

theorem order_eq_iff {a b : String} : order a b = .eq ↔ a = b := by
  unfold order
  rw [Std.LawfulEqCmp.compare_eq_iff_eq]
  exact ⟨Utf8.encode_injective, congrArg Utf8.encode⟩

theorem order_self (a : String) : order a a = .eq :=
  order_eq_iff.2 rfl

theorem find?_name_eq_none_iff {entries : List Entry} {name : String} :
    entries.find? (·.1 == name) = none ↔ name ∉ names entries := by
  simp only [List.find?_eq_none, beq_iff_eq, names, List.mem_map, not_exists, not_and]

/-- An entry put in its place is found under its name, and nothing changes for the other names. -/
theorem find?_name_insert (name : String) (value : AttributeValue) (entries : List Entry) (n : String) :
    (insert name value entries).find? (·.1 == n) =
      if name = n then some (name, value) else entries.find? (·.1 == n) := by
  induction entries with
  | nil => by_cases h : name = n <;> simp [insert, h]
  | cons entry rest ih =>
    rw [insert]
    split
    case h_1 => by_cases h : name = n <;> simp [h]
    case h_2 heq =>
      obtain rfl := order_eq_iff.1 heq
      by_cases h : entry.1 = n <;> simp [h]
    case h_3 hgt =>
      have hne : entry.1 ≠ name := by
        rintro rfl
        rw [order_self] at hgt
        cases hgt
      by_cases h : name = n
      · obtain rfl := h
        rw [List.find?_cons_of_neg (by simpa using hne), ih, if_pos rfl, if_pos rfl]
      · simp [List.find?_cons, ih, h]

theorem lastValue?_append_singleton (entries : List Entry) (name : String) (value : AttributeValue)
    (n : String) :
    lastValue? (entries ++ [(name, value)]) n =
      if name = n then some value else lastValue? entries n := by
  unfold lastValue?
  by_cases h : name = n <;> simp [h]

theorem lastValue?_eq_none_iff {entries : List Entry} {name : String} :
    lastValue? entries name = none ↔ name ∉ names entries := by
  rw [lastValue?, Option.map_eq_none_iff, find?_name_eq_none_iff, names, names, List.map_reverse,
    List.mem_reverse]

/-- Ascending names do not repeat. -/
theorem Sorted.names_nodup {entries : List Entry} (h : Sorted entries) : (names entries).Nodup := by
  refine List.pairwise_map.2 (h.imp ?_)
  intro a b hlt heq
  rw [heq, order_self] at hlt
  cases hlt

/-- Where each name occurs once, its only entry is the first and the last of the name. -/
theorem find?_name_eq_some_iff {entries : List Entry} (h : (names entries).Nodup) {name : String}
    {value : AttributeValue} :
    (entries.find? (·.1 == name)).map (·.2) = some value ↔ (name, value) ∈ entries := by
  induction entries with
  | nil => simp
  | cons entry rest ih =>
    obtain ⟨key, x⟩ := entry
    obtain ⟨hkey, hrest⟩ := List.nodup_cons.1 h
    by_cases hname : key = name
    · subst hname
      have hnot : (key, value) ∉ rest := fun hmem => hkey (List.mem_map.2 ⟨_, hmem, rfl⟩)
      simp [hnot, eq_comm]
    · have hbeq : (key == name) = false := by simpa using hname
      simp [hbeq, ih hrest, Ne.symm hname]

/-- Where no name is repeated, the last value of a name is its only one. -/
theorem lastValue?_eq_some_iff_mem {entries : List Entry} (h : (names entries).Nodup) {name : String}
    {value : AttributeValue} : lastValue? entries name = some value ↔ (name, value) ∈ entries := by
  have hreverse : (names entries.reverse).Nodup := by
    rw [names, List.map_reverse, List.nodup_reverse]
    exact h
  rw [lastValue?, find?_name_eq_some_iff hreverse, List.mem_reverse]

/-- Of the entries that pass a test the one with the least name is found. -/
theorem Sorted.find?_eq_some_iff {entries : List Entry} (h : Sorted entries) {p : Entry → Bool}
    {e : Entry} :
    entries.find? p = some e ↔
      (e ∈ entries ∧ p e = true) ∧ ∀ other ∈ entries, p other = true → order e.1 other.1 ≠ .gt := by
  induction entries with
  | nil => simp
  | cons first rest ih =>
    obtain ⟨hfirst, hrest⟩ := List.pairwise_cons.1 h
    cases hp : p first with
    | true =>
      rw [List.find?_cons_of_pos hp, Option.some.injEq]
      constructor
      · rintro rfl
        refine ⟨⟨List.mem_cons_self, hp⟩, ?_⟩
        rintro other hother -
        rcases List.mem_cons.1 hother with rfl | hother
        · simp [order_self]
        · simp [hfirst other hother]
      · rintro ⟨⟨hmem, -⟩, hleast⟩
        rcases List.mem_cons.1 hmem with rfl | hmem
        · rfl
        · have hlt := hfirst e hmem
          have hgt : order e.1 first.1 = .gt := by
            unfold order at hlt ⊢
            exact Std.OrientedCmp.gt_of_lt hlt
          exact absurd hgt (hleast first List.mem_cons_self hp)
    | false =>
      rw [List.find?_cons_of_neg (by simp [hp]), ih hrest]
      constructor
      · rintro ⟨⟨hmem, he⟩, hleast⟩
        refine ⟨⟨List.mem_cons_of_mem _ hmem, he⟩, ?_⟩
        intro other hother hpass
        rcases List.mem_cons.1 hother with rfl | hother
        · rw [hp] at hpass
          cases hpass
        · exact hleast other hother hpass
      · rintro ⟨⟨hmem, he⟩, hleast⟩
        rcases List.mem_cons.1 hmem with rfl | hmem
        · rw [hp] at he
          cases he
        · exact ⟨⟨hmem, he⟩, fun other hother => hleast other (List.mem_cons_of_mem _ hother)⟩

end Entry

namespace Record

/-- Whether a record comes from inserting entries one by one, the first of them into an empty record. -/
inductive InsertedFrom : List Entry → Record → Prop where
  | empty : InsertedFrom [] empty
  | insert {entries : List Entry} {r : Record} (name : String) (value : AttributeValue)
    (h : InsertedFrom entries r) : InsertedFrom (entries ++ [(name, value)]) (r.insert name value)

theorem ofList_append_singleton (entries : List Entry) (name : String) (value : AttributeValue) :
    ofList (entries ++ [(name, value)]) = (ofList entries).insert name value := by
  rw [ofList, List.foldl_append]
  rfl

/-- A record made of a list comes from inserting its entries one by one. -/
theorem insertedFrom_ofList (entries : List Entry) : InsertedFrom entries (ofList entries) := by
  induction entries using List.reverseRecOn with
  | nil => exact .empty
  | append_singleton entries e ih =>
    obtain ⟨name, value⟩ := e
    rw [ofList_append_singleton]
    exact ih.insert name value

/-- Inserting entries one by one makes the same record as inserting them as a list. -/
theorem insertedFrom_iff {entries : List Entry} {r : Record} :
    InsertedFrom entries r ↔ r = ofList entries := by
  constructor
  · intro h
    induction h with
    | empty => rfl
    | insert name value _ ih => rw [ofList_append_singleton, ih]
  · rintro rfl
    exact insertedFrom_ofList entries

/-- An exact look-up finds what was inserted last under its name. -/
theorem getExact?_insert (r : Record) (name : String) (value : AttributeValue) (n : String) :
    (r.insert name value).getExact? n = if name = n then some value else r.getExact? n := by
  unfold getExact? insert
  rw [Entry.find?_name_insert]
  split <;> rfl

/-- An exact look-up finds the last value of the name. -/
theorem InsertedFrom.getExact?_eq {entries : List Entry} {r : Record} (h : InsertedFrom entries r)
    (name : String) : r.getExact? name = Entry.lastValue? entries name := by
  induction h with
  | empty => rfl
  | insert key value _ ih => rw [getExact?_insert, Entry.lastValue?_append_singleton, ih]

theorem getExact?_eq_none_iff {r : Record} {name : String} :
    r.getExact? name = none ↔ name ∉ Entry.names r.entries := by
  rw [getExact?, Option.map_eq_none_iff, Entry.find?_name_eq_none_iff]

/-- An exact look-up finds just the entries of a record. -/
theorem getExact?_eq_some_iff {r : Record} {name : String} {value : AttributeValue} :
    r.getExact? name = some value ↔ (name, value) ∈ r.entries :=
  Entry.find?_name_eq_some_iff r.sorted.names_nodup

theorem mem_names_of_getExact? {r : Record} {name : String} {value : AttributeValue}
    (h : r.getExact? name = some value) : name ∈ Entry.names r.entries :=
  List.mem_map_of_mem (getExact?_eq_some_iff.1 h)

theorem get?_true (r : Record) (name : String) : r.get? name true = r.getExact? name := by
  rw [get?]
  cases r.getExact? name <;> rfl

/-- An exact name comes first in either kind of look-up. -/
theorem get?_of_getExact? {r : Record} {name : String} {value : AttributeValue}
    (h : r.getExact? name = some value) (strict : Bool) : r.get? name strict = some value := by
  rw [get?, h]

/-- Without an exact name the first entry counts whose name differs at most in case. -/
theorem get?_false_of_none {r : Record} {name : String} (h : r.getExact? name = none) :
    r.get? name false = (r.entries.find? (sameIgnoringCase ·.1 name)).map (·.2) := by
  rw [get?, h]
  rfl

/-- A look-up that ignores case takes the exact name first, and else the least one that differs in
case. -/
theorem get?_false_eq_some_iff {r : Record} {name : String} {value : AttributeValue} :
    r.get? name false = some value ↔ r.getExact? name = some value ∨
      name ∉ Entry.names r.entries ∧
        ∃ key, Entry.IsLeastVariant (Entry.names r.entries) name key ∧ r.getExact? key = some value := by
  cases hexact : r.getExact? name with
  | some x => simp [get?_of_getExact? hexact, mem_names_of_getExact? hexact]
  | none =>
    -- The entries ascend, so that the first one in another case has the least name of them.
    have hleast (e : Entry) :
        r.entries.find? (sameIgnoringCase ·.1 name) = some e ↔
          e ∈ r.entries ∧ Entry.IsLeastVariant (Entry.names r.entries) name e.1 := by
      rw [r.sorted.find?_eq_some_iff]
      simp only [Entry.IsLeastVariant, Entry.names, List.forall_mem_map]
      constructor
      · rintro ⟨⟨hmem, hsame⟩, hother⟩
        exact ⟨hmem, ⟨List.mem_map_of_mem hmem, hsame⟩, hother⟩
      · rintro ⟨hmem, ⟨-, hsame⟩, hother⟩
        exact ⟨⟨hmem, hsame⟩, hother⟩
    simp only [get?_false_of_none hexact, Option.map_eq_some_iff, hleast, reduceCtorEq, false_or,
      getExact?_eq_none_iff.1 hexact, not_false_eq_true, true_and, getExact?_eq_some_iff]
    constructor
    · rintro ⟨⟨key, x⟩, ⟨hmem, hkey⟩, rfl⟩
      exact ⟨key, hkey, hmem⟩
    · rintro ⟨key, hkey, hmem⟩
      exact ⟨(key, value), ⟨hmem, hkey⟩, rfl⟩

theorem sameIgnoringCase_self (name : String) : sameIgnoringCase name name = true := by
  simp [sameIgnoringCase]

/-- A look-up that ignores case finds nothing only where every name is another one. -/
theorem get?_false_eq_none_iff {r : Record} {name : String} :
    r.get? name false = none ↔ ∀ key ∈ Entry.names r.entries, sameIgnoringCase key name = false := by
  cases hexact : r.getExact? name with
  | some x =>
    simp only [get?_of_getExact? hexact, reduceCtorEq, false_iff]
    intro h
    have hself := h name (mem_names_of_getExact? hexact)
    rw [sameIgnoringCase_self] at hself
    cases hself
  | none => simp [get?_false_of_none hexact, Entry.names]

/-- Records with the same exact look-ups are the same. -/
theorem ext_getExact? {r r' : Record} (h : ∀ name, r.getExact? name = r'.getExact? name) : r = r' := by
  have hmem : ∀ e, e ∈ r.entries ↔ e ∈ r'.entries := by
    rintro ⟨name, value⟩
    rw [← getExact?_eq_some_iff, ← getExact?_eq_some_iff, h]
  have hperm : r.entries.Perm r'.entries :=
    (List.perm_ext_iff_of_nodup r.sorted.names_nodup.of_map r'.sorted.names_nodup.of_map).2 hmem
  have hentries : r.entries = r'.entries := by
    refine hperm.eq_of_pairwise ?_ r.sorted r'.sorted
    intro a b _ _ hab hba
    have haa := Entry.order_trans hab hba
    rw [Entry.order_self] at haa
    cases haa
  obtain ⟨entries, sorted⟩ := r
  obtain ⟨entries', sorted'⟩ := r'
  obtain rfl : entries = entries' := hentries
  rfl

theorem mem_names_ofList {entries : List Entry} {name : String} :
    name ∈ Entry.names (ofList entries).entries ↔ name ∈ Entry.names entries := by
  rw [← not_iff_not, ← getExact?_eq_none_iff, (insertedFrom_ofList entries).getExact?_eq,
    Entry.lastValue?_eq_none_iff]

/-- The least variant of a name can be told from the entries that were inserted. -/
theorem isLeastVariant_ofList {entries : List Entry} {name key : String} :
    Entry.IsLeastVariant (Entry.names (ofList entries).entries) name key ↔
      Entry.IsLeastVariant (Entry.names entries) name key := by
  simp only [Entry.IsLeastVariant, mem_names_ofList]

/-- A record has an attribute for each name that was inserted, however often. -/
theorem size_ofList (entries : List Entry) :
    (ofList entries).size = (Entry.names entries).dedup.length := by
  have hperm : (Entry.names (ofList entries).entries).Perm (Entry.names entries).dedup := by
    rw [List.perm_ext_iff_of_nodup (ofList entries).sorted.names_nodup (List.nodup_dedup _)]
    intro name
    rw [mem_names_ofList, List.mem_dedup]
  rw [← hperm.length_eq, Entry.names, List.length_map]
  rfl

/-- Where each name is inserted once, the order of the insertions is lost. -/
theorem ofList_eq_of_perm {entries entries' : List Entry} (hnodup : (Entry.names entries).Nodup)
    (hperm : entries.Perm entries') : ofList entries = ofList entries' := by
  have hnodup' : (Entry.names entries').Nodup := (hperm.map _).nodup_iff.1 hnodup
  apply ext_getExact?
  intro name
  rw [(insertedFrom_ofList entries).getExact?_eq, (insertedFrom_ofList entries').getExact?_eq]
  apply Option.ext
  intro value
  rw [Entry.lastValue?_eq_some_iff_mem hnodup, Entry.lastValue?_eq_some_iff_mem hnodup',
    hperm.mem_iff]

/-- A record is settled by the entries that were inserted, one by one or as a list. An exact look-up
finds the last value of the name. One that ignores case finds it too, and where the name is not there
the last value of the least name that differs in case, if there is any. Names count once. Where each is
inserted once, their order is seen by no look-up and by no filter. -/
theorem lookup_determined_by_insertions (entries : List Entry) :
    (∀ r, InsertedFrom entries r ↔ r = ofList entries) ∧
      (∀ name, (ofList entries).get? name true = Entry.lastValue? entries name) ∧
      (∀ name value, (ofList entries).get? name false = some value ↔
        Entry.lastValue? entries name = some value ∨
          name ∉ Entry.names entries ∧ ∃ key, Entry.IsLeastVariant (Entry.names entries) name key ∧
            Entry.lastValue? entries key = some value) ∧
      (∀ name, (ofList entries).get? name false = none ↔
        ∀ key ∈ Entry.names entries, sameIgnoringCase key name = false) ∧
      (ofList entries).size = (Entry.names entries).dedup.length ∧
      ((Entry.names entries).Nodup → ∀ entries', entries.Perm entries' →
        (∀ name strict, (ofList entries').get? name strict = (ofList entries).get? name strict) ∧
          ∀ (f : Filter) (m : Matcher) (strict : Bool),
            f.evaluate m (ofList entries') strict = f.evaluate m (ofList entries) strict) := by
  have hexact := (insertedFrom_ofList entries).getExact?_eq
  refine ⟨fun r => insertedFrom_iff, ?_, ?_, ?_, size_ofList entries, ?_⟩
  · intro name
    rw [get?_true, hexact]
  · intro name value
    simp only [get?_false_eq_some_iff, hexact, mem_names_ofList, isLeastVariant_ofList]
  · intro name
    simp only [get?_false_eq_none_iff, mem_names_ofList]
  · intro hnodup entries' hperm
    rw [ofList_eq_of_perm hnodup hperm]
    exact ⟨fun _ _ => rfl, fun _ _ _ => rfl⟩

/-- Two names that differ in case, and a third one. -/
def caseVariants : List Entry :=
  [("cn", .one (.text "lower")), ("CN", .one (.text "upper")), ("mail", .null)]

/-- The upper-case name is the lesser, so it stands in for a third spelling in whichever order the
two were inserted. -/
theorem caseVariants_in_either_order :
    (Entry.names caseVariants).Nodup ∧ caseVariants.Perm caseVariants.reverse ∧
      (ofList caseVariants).get? "Cn" false = some (.one (.text "upper")) ∧
      (ofList caseVariants.reverse).get? "Cn" false = some (.one (.text "upper")) ∧
      (ofList caseVariants.reverse).get? "Cn" true = none := by
  have hnodup : (Entry.names caseVariants).Nodup := by decide
  have hperm : caseVariants.Perm caseVariants.reverse := (List.reverse_perm _).symm
  have hlenient : (ofList caseVariants).get? "Cn" false = some (.one (.text "upper")) := by decide
  have hstrict : (ofList caseVariants).get? "Cn" true = none := by decide
  obtain ⟨_, _, _, _, _, horder⟩ := lookup_determined_by_insertions caseVariants
  obtain ⟨hlookups, _⟩ := horder hnodup _ hperm
  exact ⟨hnodup, hperm, hlenient, (hlookups _ _).trans hlenient, (hlookups _ _).trans hstrict⟩

end Record

end SearchFilter
