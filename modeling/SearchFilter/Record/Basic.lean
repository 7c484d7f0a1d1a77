import SearchFilter.Record.Scalar

namespace SearchFilter

/-- What an attribute name stands for: nothing, one value, or any number of values. -/
inductive AttributeValue where
  | null
  | one (value : Scalar)
  | many (values : List Scalar)
  deriving DecidableEq, Repr, Inhabited

namespace AttributeValue

/-- Whether the attribute is there without a value. -/
def isNull : AttributeValue → Bool
  | null => true
  | _ => false

/-- Whether a value passes a test; of several values one has to pass it, or every one where `all` is
set. Nothing passes no test. -/
def test (p : Scalar → Bool) (all : Bool) : AttributeValue → Bool
  | null => false
  | one value => p value
  | many values => if all then values.all p else values.any p

end AttributeValue

/-- An attribute name with what it stands for. -/
abbrev Entry := String × AttributeValue

namespace Entry

/-- How the octets of two attribute names are ordered. -/
def order (a b : String) : Ordering :=
  compare (Utf8.encode a) (Utf8.encode b)

/-- Entries by ascending name, each name once. -/
def Sorted (entries : List Entry) : Prop :=
  entries.Pairwise (fun a b => order a.1 b.1 = .lt)

/-- Puts an entry in its place, in the stead of one of the same name. -/
def insert (name : String) (value : AttributeValue) : List Entry → List Entry
  | [] => [(name, value)]
  | entry :: rest =>
    match order name entry.1 with
    | .lt => (name, value) :: entry :: rest
    | .eq => (name, value) :: rest
    | .gt => entry :: insert name value rest

theorem mem_insert {name : String} {value : AttributeValue} {entries : List Entry} {e : Entry}
    (h : e ∈ insert name value entries) : e = (name, value) ∨ e ∈ entries := by
  induction entries with
  | nil => exact .inl (by simpa [insert] using h)
  | cons entry rest ih =>
    rw [insert] at h
    split at h
    · simpa using h
    · rcases List.mem_cons.1 h with h | h
      · exact .inl h
      · exact .inr (List.mem_cons_of_mem _ h)
    · rcases List.mem_cons.1 h with h | h
      · exact .inr (h ▸ List.mem_cons_self)
      · exact (ih h).imp_right (List.mem_cons_of_mem _)

theorem order_gt {a b : String} (h : order a b = .gt) : order b a = .lt := by
  unfold order at h ⊢
  exact Std.OrientedCmp.lt_of_gt h

theorem order_trans {a b c : String} (hab : order a b = .lt) (hbc : order b c = .lt) :
    order a c = .lt := by
  unfold order at hab hbc ⊢
  exact Std.TransCmp.lt_trans hab hbc

theorem order_congr {a b c : String} (hab : order a b = .eq) (hbc : order b c = .lt) :
    order a c = .lt := by
  unfold order at hab hbc ⊢
  exact Std.TransCmp.lt_of_eq_of_lt hab hbc

/-- An entry that is put in its place leaves the names in order, each of them once. -/
theorem Sorted.insert {entries : List Entry} (h : Sorted entries) (name : String)
    (value : AttributeValue) : Sorted (insert name value entries) := by
  induction entries with
  | nil => exact List.pairwise_singleton _ _
  | cons entry rest ih =>
    obtain ⟨hentry, hrest⟩ := List.pairwise_cons.1 h
    rw [Entry.insert]
    split
    case h_1 hlt =>
      refine List.pairwise_cons.2 ⟨fun e he => ?_, h⟩
      rcases List.mem_cons.1 he with rfl | he
      · exact hlt
      · exact order_trans hlt (hentry e he)
    case h_2 heq =>
      exact List.pairwise_cons.2 ⟨fun e he => order_congr heq (hentry e he), hrest⟩
    case h_3 hgt =>
      refine List.pairwise_cons.2 ⟨fun e he => ?_, ih hrest⟩
      rcases mem_insert he with rfl | he
      · exact order_gt hgt
      · exact hentry e he

end Entry

/-- A record: entries by ascending name, each name once. The order decides which attribute a look-up
finds that ignores case. -/
structure Record where
  entries : List Entry
  sorted : Entry.Sorted entries

namespace Record

/-- The record without attributes. -/
def empty : Record :=
  { entries := [], sorted := List.Pairwise.nil }

/-- Adds an attribute, in the stead of one of the same name. -/
def insert (r : Record) (name : String) (value : AttributeValue) : Record :=
  { entries := Entry.insert name value r.entries, sorted := r.sorted.insert name value }

/-- The record of some entries, of which the last one of a name counts. -/
def ofList (entries : List Entry) : Record :=
  entries.foldl (fun r e => r.insert e.1 e.2) empty

/-- How many attributes there are. -/
def size (r : Record) : Nat :=
  r.entries.length

/-- Whether there is no attribute. -/
def isEmpty (r : Record) : Bool :=
  r.entries.isEmpty

/-- Whether two names differ at most in the case of their ASCII letters. -/
def sameIgnoringCase (a b : String) : Bool :=
  a.toList.map Char.toLower == b.toList.map Char.toLower

/-- What the attribute of exactly this name stands for. -/
def getExact? (r : Record) (name : String) : Option AttributeValue :=
  (r.entries.find? (·.1 == name)).map (·.2)

/-- What a name stands for. The attribute of exactly this name comes first; unless `strict` is set,
the first attribute whose name differs only in case stands in for it. -/
def get? (r : Record) (name : String) (strict : Bool) : Option AttributeValue :=
  match r.getExact? name with
  | some value => some value
  | none =>
    if strict then none else (r.entries.find? (sameIgnoringCase ·.1 name)).map (·.2)

end Record

end SearchFilter
