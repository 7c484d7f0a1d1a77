import Mathlib.Tactic.Common
import SearchFilter.Proofs.Filter.Clauses
import SearchFilter.Proofs.Filter.Limit
import SearchFilter.Proofs.Text.Failure

namespace SearchFilter

namespace Parsing

/-- Reads the filter that a text starts with, with `one` for the filters in it. -/
def level (total : Nat) (one : List Char → Except FilterError (Filter × List Char)) :
    List Char → Except FilterError (Filter × List Char)
  | '(' :: text =>
    match text with
    | '&' :: text => do
      let (fs, rest) ← clauses one (total + 1) text
      return (.junction .and fs, rest)
    | '|' :: text => do
      let (fs, rest) ← clauses one (total + 1) text
      return (.junction .or fs, rest)
    | '!' :: text => do
      let (f, rest) ← one text
      return (.negation f, ← close rest)
    | text => do
      let (a, rest) ← item text
      return (.leaf a, rest)
  | text => .error (.parse (.missingParen (total - size text)))

theorem filter_succ (total d : Nat) : filter total (d + 1) = level total (filter total d) := by
  funext text
  unfold filter level
  split
  · contradiction
  · next _ text hd =>
    cases hd
    rfl
  · split
    · next hopen => exact absurd rfl (hopen d _ rfl)
    · rfl

/-- While a filter is read from a text on with `depth` levels allowed, a filter is looked for at `inner`,
and `levels` parentheses are entered then that are not left. -/
inductive Calls (total : Nat) : (depth : Nat) → List Char → (levels : Nat) → List Char → Prop where
  | here (depth : Nat) (text : List Char) : Calls total depth text 0 text
  | negation {depth levels : Nat} {text inner : List Char} (h : Calls total depth text levels inner) :
    Calls total (depth + 1) ('(' :: '!' :: text) (levels + 1) inner
  | clause {depth levels : Nat} {text start inner : List Char} (c : Connective)
    (hstart : ClauseAt (filter total depth) text start) (h : Calls total depth start levels inner) :
    Calls total (depth + 1) ('(' :: c.symbol :: text) (levels + 1) inner

section
variable {total d : Nat} {text : List Char}

theorem filter_length_lt {f : Filter} {rest : List Char} (h : filter total d text = .ok (f, rest)) :
    rest.length < text.length := by
  obtain ⟨x, ⟨hx, _⟩, rfl⟩ := filter_sound h
  obtain ⟨y, rfl⟩ := hx.exists_open
  simp

/-- The clauses that were read before one have closed what they opened. -/
theorem ClauseAt.exists_opens {start : List Char} (h : ClauseAt (filter total d) text start) :
    ∃ x, Paren.Opens x 0 ∧ text = x ++ start := by
  induction h with
  | first text => exact ⟨[], .nil, rfl⟩
  | next hread _ _ ih =>
    obtain ⟨x, ⟨hx, _⟩, rfl⟩ := filter_sound hread
    obtain ⟨y, n, rfl, hy, _⟩ := hx.exists_nests
    obtain ⟨z, hz, hrest⟩ := ih
    exact ⟨_, (Paren.Opens.of_nests hy.enclose).append hz, by rw [hrest, List.append_assoc]⟩

/-- What a text holds before the place of a call leaves as many parentheses open as were entered. -/
theorem Calls.exists_opens {levels : Nat} {inner : List Char} (h : Calls total d text levels inner) :
    ∃ x, Paren.Opens x levels ∧ text = x ++ inner := by
  have hsymbol {c : Char} (hopen : c ≠ '(') (hclose : c ≠ ')') : Paren.Opens ['(', c] 1 := by
    refine Paren.Opens.paren.append (.of_nests (.of_notMem ?_ ?_))
    · simpa using hopen.symm
    · simpa using hclose.symm
  induction h with
  | here depth text => exact ⟨[], .nil, rfl⟩
  | negation _ ih =>
    obtain ⟨x, hx, rfl⟩ := ih
    have hopens := (hsymbol (c := '!') (by decide) (by decide)).append hx
    rw [Nat.add_comm] at hopens
    exact ⟨_, hopens, rfl⟩
  | clause c hstart _ ih =>
    obtain ⟨x, hx, rfl⟩ := hstart.exists_opens
    obtain ⟨y, hy, rfl⟩ := ih
    have hopens := (hsymbol (c := c.symbol) (by cases c <;> decide) (by cases c <;> decide)).append
      (hx.append hy)
    rw [Nat.zero_add, Nat.add_comm] at hopens
    exact ⟨_, hopens, by simp⟩

/-- A text is refused for its depth only where a parenthesis is come upon with all levels entered. -/
theorem exists_call_of_tooDeep (h : filter total d text = .error (.parse .nestedTooDeep)) :
    ∃ inner, Calls total d text d ('(' :: inner) := by
  induction d generalizing text with
  | zero =>
    by_cases hopen : text.head? = some '('
    · obtain ⟨inner, rfl⟩ := List.head?_eq_some_iff.1 hopen
      exact ⟨inner, .here 0 _⟩
    · rw [filter_other total 0 hopen] at h
      cases h
  | succ d ih =>
    cases start text with
    | junction c text =>
      rw [filter_junction, Except.bind_eq_error_iff] at h
      obtain h | ⟨_, _, h⟩ := h
      · obtain h | ⟨start, hstart, h⟩ := clauses_error h
        · cases h
        · obtain ⟨inner, hcall⟩ := ih h
          exact ⟨inner, .clause c hstart hcall⟩
      · cases h
    | negation text =>
      simp only [filter, Except.bind_eq_error_iff] at h
      obtain h | ⟨_, _, h | ⟨_, _, h⟩⟩ := h
      · obtain ⟨inner, hcall⟩ := ih h
        exact ⟨inner, .negation hcall⟩
      · exact absurd rfl (misspelled_close _ _ h).ne_tooDeep
      · cases h
    | item hhead =>
      rw [filter_leaf total d hhead, Except.bind_eq_error_iff] at h
      obtain h | ⟨_, _, h⟩ := h
      · exact absurd rfl (misspelled_item _ _ h).ne_tooDeep
      · cases h
    | other hhead =>
      rw [filter_other total _ hhead] at h
      cases h

/-- Where it is come upon, the text is refused for its depth, however it goes on. -/
theorem tooDeep_of_call (hsize : text.length ≤ total) {inner : List Char}
    (h : Calls total d text d ('(' :: inner)) : filter total d text = .error (.parse .nestedTooDeep) := by
  induction d generalizing text with
  | zero =>
    cases h
    rfl
  | succ d ih =>
    cases h with
    | @negation _ _ text _ hcall =>
      rw [List.length_cons, List.length_cons] at hsize
      rw [filter, ih (by omega) hcall]
      rfl
    | @clause _ _ text start _ c hstart hcall =>
      rw [List.length_cons, List.length_cons] at hsize
      have hshort : start.length ≤ text.length := by
        obtain ⟨x, _, rfl⟩ := hstart.exists_opens
        simp
      have hclauses := clauses_error_of_clauseAt (fun _ _ _ => filter_length_lt) hstart
        (ih (by omega) hcall) (n := total + 1) (by omega)
      rw [filter_junction, hclauses]
      rfl

/-- A level is read alike with all that read the filters in it alike. -/
theorem level_congr {one other : List Char → Except FilterError (Filter × List Char)}
    (hclause : ∀ c tail start, text = '(' :: Connective.symbol c :: tail → ClauseAt one tail start →
      other start = one start)
    (hnegated : ∀ tail, text = '(' :: '!' :: tail → other tail = one tail) :
    level total other text = level total one text := by
  unfold level
  split
  · split
    · rw [clauses_congr fun start hstart => hclause .and _ start rfl hstart]
    · rw [clauses_congr fun start hstart => hclause .or _ start rfl hstart]
    · rw [hnegated _ rfl]
    · rfl
  · rfl

/-- A bound that is not met does not change what is read, nor does what is done with a filter beyond it. -/
theorem iterate_level_eq (bottom : List Char → Except FilterError (Filter × List Char)) {n : Nat}
    (h : ∀ inner, ¬Calls total d text d ('(' :: inner)) (hlt : d < n) :
    (level total)^[n] bottom text = filter total d text := by
  induction d generalizing n text with
  | zero =>
    have hhead : text.head? ≠ some '(' := by
      intro hopen
      obtain ⟨inner, rfl⟩ := List.head?_eq_some_iff.1 hopen
      exact h inner (.here 0 _)
    obtain ⟨n, rfl⟩ := Nat.exists_eq_add_one_of_ne_zero (Nat.ne_zero_of_lt hlt)
    rw [Function.iterate_succ_apply', filter_other total 0 hhead, ← filter_other total 1 hhead, filter_succ]
    exact level_congr (fun c tail start htext => absurd (htext ▸ rfl) hhead)
      fun tail htext => absurd (htext ▸ rfl) hhead
  | succ d ih =>
    obtain ⟨n, rfl⟩ := Nat.exists_eq_add_one_of_ne_zero (Nat.ne_zero_of_lt hlt)
    rw [Function.iterate_succ_apply', filter_succ]
    refine level_congr ?_ ?_
    · rintro c tail start rfl hstart
      exact ih (fun inner hcall => h inner (.clause c hstart hcall)) (by omega)
    · rintro tail rfl
      exact ih (fun inner hcall => h inner (.negation hcall)) (by omega)

/-- Where no parenthesis is come upon with all levels entered, more levels change nothing. -/
theorem filter_eq_of_le {d' : Nat} (h : ∀ inner, ¬Calls total d text d ('(' :: inner)) (hle : d ≤ d') :
    filter total d' text = filter total d text := by
  obtain rfl | hlt := Nat.eq_or_lt_of_le hle
  · rfl
  · rw [Settles.eq_iterate (filter total) (filter_succ total) d', iterate_level_eq _ h hlt]

end

/-- The parentheses that a reader puts around a text where they are missing are counted with it, and those
that close more than is open are counted for nothing. -/
theorem deepestFrom_wrap_le (text : String) : Paren.deepestFrom 0 0 (wrap text.toList) ≤ Paren.depth text := by
  unfold wrap Paren.depth
  dsimp only
  split_ifs
  · exact Nat.le_refl _
  · rw [Paren.deepestFrom_append_close, Paren.deepestFrom, if_pos rfl]
    exact Paren.deepestFrom_le_succ (Nat.le_refl _) (Nat.le_refl _) _

/-- Where a parenthesis is come upon, fewer are entered than are counted in the whole text. -/
theorem Calls.lt_depth {total depth levels : Nat} {text : String} {inner : List Char}
    (h : Calls total depth (wrap text.toList) levels ('(' :: inner)) : levels < Paren.depth text := by
  obtain ⟨x, hx, htext⟩ := h.exists_opens
  have hdeepest := hx.lt_deepestFrom inner
  rw [← htext] at hdeepest
  exact Nat.lt_of_lt_of_le hdeepest (deepestFrom_wrap_le text)

theorem whole_eq_of_filter_eq {d d' : Nat} {text : List Char}
    (h : filter (size (wrap text)) d (wrap text) = filter (size (wrap text)) d' (wrap text)) :
    whole d text = whole d' text := by
  unfold whole
  dsimp only
  rw [h]

/-- A whole text is refused for its depth just where the filter that it starts with is. -/
theorem whole_tooDeep_iff {d : Nat} {text : List Char} (hne : text ≠ []) :
    whole d text = .error (.parse .nestedTooDeep) ↔
      filter (size (wrap text)) d (wrap text) = .error (.parse .nestedTooDeep) := by
  unfold whole
  rw [if_neg (by simpa using hne)]
  dsimp only
  cases filter (size (wrap text)) d (wrap text) with
  | error e => simp
  | ok result =>
    obtain ⟨f, rest⟩ := result
    cases rest <;> simp

end Parsing

namespace Filter

open Parsing

/-- While a text is read with `depth` levels allowed, an opening parenthesis is come upon, and `levels` others
are entered then that are not left. It is entered, too, if the depth allows it. -/
def MeetsParen (depth : Nat) (text : String) (levels : Nat) : Prop :=
  text ≠ "" ∧ ∃ inner, Calls (size (wrap text.toList)) depth (wrap text.toList) levels ('(' :: inner)

/-- Every parenthesis that is come upon is one more than those entered, and all of them are
counted. -/
theorem MeetsParen.lt_depth {depth levels : Nat} {text : String} (h : MeetsParen depth text levels) :
    levels < Paren.depth text := by
  obtain ⟨_, inner, hcall⟩ := h
  exact hcall.lt_depth

/-- A text is refused for its depth just where a parenthesis is come upon with all levels
entered. -/
theorem parseWithin_tooDeep_iff {depth : Nat} {text : String} :
    parseWithin depth text = .error (.parse .nestedTooDeep) ↔ MeetsParen depth text depth := by
  unfold MeetsParen parseWithin
  by_cases hempty : text = ""
  · subst hempty
    simp [whole]
  · rw [whole_tooDeep_iff (by simpa using hempty)]
    constructor
    · intro h
      exact ⟨hempty, exists_call_of_tooDeep h⟩
    · rintro ⟨_, inner, hcall⟩
      exact tooDeep_of_call (length_le_size _) hcall

/-- With all the levels allowed that its parentheses count, a text is read as with any more. -/
theorem parseWithin_eq_of_le {depth depth' : Nat} {text : String} (hdepth : Paren.depth text ≤ depth)
    (hle : depth ≤ depth') : parseWithin depth' text = parseWithin depth text := by
  by_cases hempty : text = ""
  · subst hempty
    rfl
  · refine whole_eq_of_filter_eq (filter_eq_of_le (fun inner hcall => ?_) hle)
    have hlt : depth < Paren.depth text := MeetsParen.lt_depth ⟨hempty, inner, hcall⟩
    omega

/-- A limit that the count of parentheses keeps to makes no difference. -/
theorem parseWithin_eq_parse {depth : Nat} {text : String} (hdepth : Paren.depth text ≤ depth) :
    parseWithin depth text = parse text := by
  rw [parse, parseWithin_eq_of_le (Nat.le_refl _) hdepth,
    parseWithin_eq_of_le (Nat.le_refl _) (Paren.depth_le_length text)]

/-- Without a limit no text is refused for its depth. -/
theorem parse_ne_tooDeep (text : String) : parse text ≠ .error (.parse .nestedTooDeep) := by
  intro h
  rw [← parseWithin_eq_parse (Nat.le_refl _), parseWithin_tooDeep_iff] at h
  exact absurd h.lt_depth (Nat.lt_irrefl _)

/-- The count of parentheses bounds how deep any text is descended into, be it a filter or not: no
parenthesis is come upon behind as many as are counted, so a reader that would stop there reads what one
without a bound reads, and never stops. Under a limit a text is refused before it is read, or it is read
within the limit. -/
theorem paren_count_bounds_descent (text : String) :
    (∀ depth levels, MeetsParen depth text levels → levels < Paren.depth text) ∧
    (∀ depth, parseWithin depth text = .error (.parse .nestedTooDeep) ↔ MeetsParen depth text depth) ∧
    parse text ≠ .error (.parse .nestedTooDeep) ∧
    (∀ depth, Paren.depth text ≤ depth → parseWithin depth text = parse text) ∧
    ∀ m,
      (m < Paren.depth text → parseLimited (some m) text = .error (.tooDeep (Paren.depth text) m)) ∧
      (Paren.depth text ≤ m → parseLimited (some m) text = (parseWithin m text).mapError .rejected ∧
        ∀ depth levels, MeetsParen depth text levels → levels < m) := by
  refine ⟨fun _ _ => MeetsParen.lt_depth, fun _ => parseWithin_tooDeep_iff, parse_ne_tooDeep text,
    fun _ => parseWithin_eq_parse, fun m => ⟨fun hdeep => ?_, fun hdepth => ⟨?_, fun _ _ hmeets => ?_⟩⟩⟩
  · rw [parseLimited, if_pos hdeep]
  · rw [parseLimited, if_neg (Nat.not_lt.2 hdepth), parseWithin_eq_parse hdepth]
  · exact Nat.lt_of_lt_of_le hmeets.lt_depth hdepth

/-- A text that closes none of the three levels it opens. -/
def unclosed : String :=
  "(&(a=b)(!("

/-- All three parentheses are entered before the text ends, so a limit of two refuses it for its
depth and a limit of three for what it leaves open. -/
theorem unclosed_descends_three_levels :
    Paren.depth unclosed = 3 ∧ MeetsParen 2 unclosed 2 ∧ 2 < Paren.depth unclosed ∧
      parseWithin 3 unclosed = parse unclosed ∧
      parseLimited (some 2) unclosed = .error (.tooDeep 3 2) ∧
      parseLimited (some 3) unclosed = .error (.rejected (.parse .unbalancedParens)) := by
  have hdepth : Paren.depth unclosed = 3 := by decide
  have hwithin : parseWithin 2 unclosed = .error (.parse .nestedTooDeep) := by cbv
  have hread : parseWithin 3 unclosed = .error (.parse .unbalancedParens) := by cbv
  obtain ⟨hbound, hmeets, _, hparse, hlimited⟩ := paren_count_bounds_descent unclosed
  have htwo := (hmeets 2).1 hwithin
  refine ⟨hdepth, htwo, hbound 2 2 htwo, hparse 3 hdepth.le, ?_, ?_⟩
  · rw [(hlimited 2).1 (by omega), hdepth]
  · rw [((hlimited 3).2 hdepth.le).1, hread]
    rfl

end Filter

end SearchFilter
