import Mathlib.Tactic.Common
import SearchFilter.Filter.Parse
import SearchFilter.Proofs.Failure
import SearchFilter.Proofs.Text.Value

namespace SearchFilter

open FilterError SearchFilter.Except

theorem misspelled_parse {α : Type} {fault : TextFault} (h : fault ≠ .nestedTooDeep) :
    FailsOnly IsMisspelled (.error (.parse fault) : Except FilterError α) :=
  failsOnly_error ⟨fault, rfl, h⟩

/-- A value is refused for how it is spelled, as where a backslash has no two digits behind it. -/
theorem Escaped.misspelled_read (text : List Char) : FailsOnly IsMisspelled (read text) := by
  fun_induction read text with
  | case1 => exact failsOnly_ok []
  | case2 rest high low b hb ih => exact ih.bind fun bs => failsOnly_ok _
  | case3 => exact misspelled_parse (by simp)
  | case4 => exact misspelled_parse (by simp)
  | case5 c rest hc ih => exact ih.bind fun bs => failsOnly_ok _

namespace Item

theorem misspelled_readValue (text : List Char) : FailsOnly IsMisspelled (readValue text) := by
  unfold readValue
  split
  · exact misspelled_parse (by simp)
  · exact Escaped.misspelled_read text

/-- Fragments are refused for one that is no value, or where no wildcard separates any. -/
theorem misspelled_readSubstrings (text : List Char) : FailsOnly IsMisspelled (readSubstrings text) := by
  unfold readSubstrings
  dsimp only
  split
  · exact misspelled_parse (by simp)
  · refine (misspelled_readValue _).bind fun initial => (misspelled_readValue _).bind fun final => ?_
    exact (failsOnly_mapM misspelled_readValue _).bind fun any => failsOnly_ok _

theorem misspelled_takeRule (fields : List (List Char)) : FailsOnly IsMisspelled (takeRule fields) := by
  unfold takeRule
  split
  · exact failsOnly_ok _
  · exact misspelled_parse (by simp)
  · exact failsOnly_ok _
  · exact failsOnly_ok _

theorem misspelled_assertionText (fields : List (List Char)) :
    FailsOnly IsMisspelled (assertionText fields) := by
  unfold assertionText
  split
  · exact failsOnly_ok _
  · exact misspelled_parse (by simp)

theorem misspelled_readExtensible (name text : List Char) :
    FailsOnly IsMisspelled (readExtensible name text) := by
  refine (misspelled_takeRule _).bind fun target => (misspelled_assertionText _).bind fun raw => ?_
  refine (misspelled_readValue raw).bind fun value => ?_
  dsimp only
  -- A node that is refused is a fault of the text here, whether it has a view or not.
  split
  · refine ((misspelled_readSubstrings raw).map some).bind fun view => ?_
    split
    · exact failsOnly_ok _
    · exact misspelled_parse (by simp)
  · refine (failsOnly_ok none).bind fun view => ?_
    split
    · exact failsOnly_ok _
    · exact misspelled_parse (by simp)

theorem misspelled_readOperator (item name text : List Char) :
    FailsOnly IsMisspelled (readOperator item name text) := by
  have hcomparison (op : Comparison) (text : List Char) : FailsOnly IsMisspelled
      (do return Assertion.comparison op (String.ofList name) (← readValue text)) :=
    (misspelled_readValue text).bind fun value => failsOnly_ok _
  unfold readOperator
  split
  · exact failsOnly_ok _
  · split
    · exact (misspelled_readSubstrings _).bind fun s => failsOnly_ok _
    · exact hcomparison _ _
  · exact hcomparison _ _
  · exact hcomparison _ _
  · exact hcomparison _ _
  · exact misspelled_readExtensible name _
  · exact misspelled_parse (by simp)

/-- Whatever an item is refused for, it is not how deep it stands. -/
theorem misspelled_read (item : List Char) : FailsOnly IsMisspelled (read item) := by
  unfold read
  dsimp only
  split
  · exact misspelled_parse (by simp)
  · exact misspelled_readOperator item _ _

end Item

namespace Parsing

theorem misspelled_close (text : List Char) : FailsOnly IsMisspelled (close text) := by
  unfold close
  split
  · exact failsOnly_ok _
  · exact misspelled_parse (by simp)

/-- The text of an item and what closes it are refused for how they are spelled, wherever the item
stands. -/
theorem misspelled_item (text : List Char) : FailsOnly IsMisspelled (item text) := by
  unfold item
  split
  · exact misspelled_parse (by simp)
  · exact (Item.misspelled_read _).bind fun a => failsOnly_ok _

end Parsing

end SearchFilter
