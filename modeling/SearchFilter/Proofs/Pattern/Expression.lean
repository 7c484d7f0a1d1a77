import Mathlib.Tactic.Common
import SearchFilter.Proofs.Pattern.Fragments

namespace SearchFilter

namespace Expression

/-- A part of a regular expression. -/
inductive Part where
  | literal (c : Char)
  /-- Any character but a line break. -/
  | anyChar
  /-- The start of the whole text. -/
  | start
  /-- The end of the whole text. -/
  | stop
  /-- The part any number of times, or not at all. -/
  | repeated (p : Part)
  deriving DecidableEq, Repr

/-- The characters that do not stand for themselves unless they are escaped. -/
def special : List Char :=
  ['\\', '.', '+', '*', '?', '(', ')', '|', '[', ']', '\x7b', '\x7d', '^', '$']

/-- Whether a character stands for itself behind a backslash. Letters and digits do not, and neither do
angle brackets. -/
def isEscapable (c : Char) : Bool :=
  c.toNat < 128 && !c.isAlphanum && c != '<' && c != '>'

/-- What a character stands for where it is not escaped and repeats nothing. Groups, alternatives,
classes and counts are not read. -/
def part? (c : Char) : Option Part :=
  if c = '.' then some .anyChar
  else if c = '^' then some .start
  else if c = '$' then some .stop
  else if c ∈ special then none
  else some (.literal c)

/-- Reads an expression behind some parts, the last of which comes first. -/
def readOnto : List Part → List Char → Option (List Part)
  | done, [] => some done.reverse
  | done, '\\' :: c :: rest => if isEscapable c then readOnto (.literal c :: done) rest else none
  | p :: done, '*' :: rest => readOnto (.repeated p :: done) rest
  | done, c :: rest =>
    match part? c with
    | some p => readOnto (p :: done) rest
    | none => none

/-- The parts of a regular expression, as far as it has no groups, alternatives, classes or counts. -/
def read? (expression : List Char) : Option (List Part) :=
  readOnto [] expression

/-- Whether a part matches a piece of a text, with what stands before and behind the piece. -/
inductive Part.Matches : Part → (before piece after : List Char) → Prop where
  | literal {c : Char} {before after : List Char} : (literal c).Matches before [c] after
  | anyChar {c : Char} {before after : List Char} (hc : c ≠ '\n') : anyChar.Matches before [c] after
  | start {after : List Char} : start.Matches [] [] after
  | stop {before : List Char} : stop.Matches before [] []
  | none {p : Part} {before after : List Char} : (repeated p).Matches before [] after
  | again {p : Part} {before piece more after : List Char}
    (hpiece : p.Matches before piece (more ++ after))
    (hmore : (repeated p).Matches (before ++ piece) more after) :
    (repeated p).Matches before (piece ++ more) after

/-- Whether parts match a piece of a text, one behind the other. -/
inductive Matches : List Part → (before piece after : List Char) → Prop where
  | nil {before after : List Char} : Matches [] before [] after
  | cons {p : Part} {parts : List Part} {before piece more after : List Char}
    (hpiece : p.Matches before piece (more ++ after))
    (hmore : Matches parts (before ++ piece) more after) :
    Matches (p :: parts) before (piece ++ more) after

/-- Whether an expression is found anywhere in a text. -/
def IsFoundIn (parts : List Part) (text : List Char) : Prop :=
  ∃ before piece after, text = before ++ piece ++ after ∧ Matches parts before piece after

variable {before piece after : List Char} {parts : List Part}

/-- Characters that stand for themselves match themselves, and the parts behind them what
follows. -/
theorem matches_literals_append {fragment : List Char} :
    Matches (fragment.map .literal ++ parts) before piece after ↔
      ∃ more, piece = fragment ++ more ∧ Matches parts (before ++ fragment) more after := by
  induction fragment generalizing before piece with
  | nil => simp
  | cons c fragment ih =>
    rw [List.map_cons, List.cons_append]
    constructor
    · rintro (_ | ⟨⟨⟩, hrest⟩)
      obtain ⟨more, rfl, hmore⟩ := ih.1 hrest
      exact ⟨more, rfl, by simpa using hmore⟩
    · rintro ⟨more, rfl, hmore⟩
      change Matches _ before ([c] ++ (fragment ++ more)) after
      exact .cons .literal (ih.2 ⟨more, rfl, by simpa using hmore⟩)

theorem matches_repeated_anyChar_iff :
    (Part.repeated .anyChar).Matches before piece after ↔ '\n' ∉ piece := by
  constructor
  · intro h
    generalize hp : Part.repeated .anyChar = p at h
    induction h with
    | literal | anyChar | start | stop => cases hp
    | none => exact List.not_mem_nil
    | again hpiece _ _ ih =>
      cases hp
      cases hpiece with
      | anyChar hc =>
        rw [List.singleton_append, List.mem_cons, not_or]
        exact ⟨hc.symm, ih rfl⟩
  · intro h
    induction piece generalizing before with
    | nil => exact .none
    | cons c piece ih =>
      rw [List.mem_cons, not_or] at h
      exact .again (.anyChar (Ne.symm h.1)) (ih h.2)

/-- A wildcard between two parts. -/
def gap : Part :=
  .repeated .anyChar

/-- A wildcard skips a piece without a line break. -/
theorem matches_gap_cons :
    Matches (gap :: parts) before piece after ↔
      ∃ skipped more, piece = skipped ++ more ∧ '\n' ∉ skipped ∧
        Matches parts (before ++ skipped) more after := by
  constructor
  · rintro (_ | ⟨hpiece, hmore⟩)
    exact ⟨_, _, rfl, matches_repeated_anyChar_iff.1 hpiece, hmore⟩
  · rintro ⟨skipped, more, rfl, hskipped, hmore⟩
    exact .cons (matches_repeated_anyChar_iff.2 hskipped) hmore

/-- The start anchor matches where nothing of the text stands before it. -/
theorem matches_start_cons :
    Matches (.start :: parts) before piece after ↔ before = [] ∧ Matches parts [] piece after := by
  constructor
  · rintro (_ | ⟨⟨⟩, hmore⟩)
    exact ⟨rfl, hmore⟩
  · rintro ⟨rfl, hmore⟩
    exact .cons .start hmore

theorem matches_stop : Matches [.stop] before piece after ↔ piece = [] ∧ after = [] := by
  constructor
  · rintro (_ | ⟨hpiece, ⟨⟩⟩)
    generalize hafter : [] ++ after = behind at hpiece
    cases hpiece
    exact ⟨rfl, hafter⟩
  · rintro ⟨rfl, rfl⟩
    change Matches [.stop] before ([] ++ []) []
    exact .cons .stop .nil

/-- A character without a meaning of its own stands for itself. -/
theorem readOnto_literal {c : Char} (hc : c ∉ Pattern.operators) (done : List Part) (rest : List Char) :
    readOnto done (c :: rest) = readOnto (.literal c :: done) rest := by
  have hsubset : special ⊆ Pattern.operators := by decide
  have hne {d : Char} (hd : d ∈ Pattern.operators) : c ≠ d := fun h => hc (h ▸ hd)
  have hpart : part? c = some (.literal c) := by
    rw [part?, if_neg (hne (by decide)), if_neg (hne (by decide)), if_neg (hne (by decide)),
      if_neg fun h => hc (hsubset h)]
  rw [readOnto, hpart]
  · rintro d rest' rfl
    exact absurd rfl (hne (by decide))
  · rintro p done' - rfl
    exact absurd rfl (hne (by decide))

/-- A character with a meaning of its own stands for itself behind a backslash. -/
theorem readOnto_escaped {c : Char} (hc : c ∈ Pattern.operators) (done : List Part) (rest : List Char) :
    readOnto done ('\\' :: c :: rest) = readOnto (.literal c :: done) rest := by
  have hall : Pattern.operators.all isEscapable = true := by decide
  rw [readOnto, if_pos (List.all_eq_true.1 hall c hc)]

/-- A quoted fragment is read as its characters. -/
theorem readOnto_quote (done : List Part) (fragment rest : List Char) :
    readOnto done (Pattern.quote fragment ++ rest) =
      readOnto ((fragment.map .literal).reverse ++ done) rest := by
  induction fragment generalizing done with
  | nil => rfl
  | cons c fragment ih =>
    rw [Pattern.quote, List.flatMap_cons, List.append_assoc, ← Pattern.quote]
    by_cases hc : c ∈ Pattern.operators
    · rw [if_pos hc, List.cons_append, List.cons_append, List.nil_append, readOnto_escaped hc, ih]
      simp
    · rw [if_neg hc, List.cons_append, List.nil_append, readOnto_literal hc, ih]
      simp

/-- The two characters of a wildcard are read as one part. -/
theorem readOnto_gap (done : List Part) (rest : List Char) :
    readOnto done (['.', '*'] ++ rest) = readOnto (gap :: done) rest := by
  simp [readOnto, part?, gap]

/-- Quoted fragments with wildcards behind them are read as their characters and wildcards, whatever
characters they have. -/
theorem readOnto_fragments (done : List Part) (fragments : List (List Char)) (rest : List Char) :
    readOnto done (fragments.flatMap (fun f => Pattern.quote f ++ ['.', '*']) ++ rest) =
      readOnto ((fragments.flatMap fun f => f.map .literal ++ [gap]).reverse ++ done) rest := by
  induction fragments generalizing done with
  | nil => rfl
  | cons fragment fragments ih =>
    rw [List.flatMap_cons, List.append_assoc, List.append_assoc, readOnto_quote, readOnto_gap, ih]
    simp

end Expression

namespace Pattern

open Expression (Part gap)

/-- The parts that a pattern has as a regular expression. -/
def parts (p : Pattern) : List Part :=
  (if p.initial.isSome then [Part.start] else []) ++
    ((p.initial.toList ++ p.any).flatMap (fun f => f.map .literal ++ [gap]) ++
      p.final.toList.flatMap fun f => f.map .literal ++ [.stop])

/-- What is written for a pattern, fragment by fragment. -/
theorem regex_eq (p : Pattern) :
    p.regex = (if p.initial.isSome then ['^'] else []) ++
      ((p.initial.toList ++ p.any).flatMap (fun f => quote f ++ ['.', '*']) ++
        p.final.toList.flatMap fun f => quote f ++ ['$']) := by
  obtain ⟨initial, any, final⟩ := p
  cases initial <;> cases final <;> simp [regex]

/-- The regular expression of a pattern is read as the parts of the pattern. -/
theorem read?_regex (p : Pattern) : Expression.read? p.regex = some p.parts := by
  have hfinal (done : List Part) :
      Expression.readOnto done (p.final.toList.flatMap fun f => quote f ++ ['$']) =
        some (done.reverse ++ p.final.toList.flatMap fun f => f.map .literal ++ [.stop]) := by
    cases p.final with
    | none => simp [Expression.readOnto]
    | some final =>
      rw [Option.toList_some, List.flatMap_singleton, Expression.readOnto_quote]
      simp [Expression.readOnto, Expression.part?]
  rw [Expression.read?, regex_eq, parts]
  cases p.initial with
  | none =>
    simp only [Option.isSome_none, Bool.false_eq_true, if_false, List.nil_append]
    rw [Expression.readOnto_fragments, hfinal]
    simp
  | some initial =>
    have hstart (rest : List Char) :
        Expression.readOnto [] (['^'] ++ rest) = Expression.readOnto [.start] rest := by
      simp [Expression.readOnto, Expression.part?]
    rw [Option.isSome_some, if_pos rfl, if_pos rfl, hstart, Expression.readOnto_fragments, hfinal]
    simp

open Expression (Matches matches_literals_append matches_gap_cons matches_start_cons matches_stop)

variable {before piece after : List Char}

/-- What is matched behind the start holds the fragments in order, and runs to the end of the text where
there is a final one. -/
theorem spread_of_matches {fragments : List (List Char)} {final : Option (List Char)}
    (h : Matches (fragments.flatMap (fun f => f.map .literal ++ [gap]) ++
      final.toList.flatMap fun f => f.map .literal ++ [.stop]) before piece after) :
    ∃ body behind, piece ++ after = body ++ behind ∧ Spread (fragments ++ final.toList) body ∧
      (final.isSome → behind = []) := by
  induction fragments generalizing before piece with
  | nil =>
    cases final with
    | none =>
      rw [Option.toList_none, List.flatMap_nil, List.flatMap_nil, List.append_nil] at h
      cases h
      exact ⟨[], after, rfl, .nil, by simp⟩
    | some final =>
      rw [List.flatMap_nil, List.nil_append, Option.toList_some, List.flatMap_singleton,
        matches_literals_append] at h
      obtain ⟨more, rfl, hstop⟩ := h
      obtain ⟨rfl, rfl⟩ := matches_stop.1 hstop
      exact ⟨final, [], by simp, .single final, fun _ => rfl⟩
  | cons fragment others ih =>
    rw [List.flatMap_cons, List.append_assoc, List.append_assoc, matches_literals_append] at h
    obtain ⟨_, rfl, hgap⟩ := h
    obtain ⟨skipped, more, rfl, hskipped, hmore⟩ := matches_gap_cons.1 hgap
    obtain ⟨body, behind, htext, hbody, hbehind⟩ := ih hmore
    cases hothers : others ++ final.toList with
    | nil =>
      -- Behind the last fragment the wildcard matches, too, but what it skips is free.
      rw [List.append_eq_nil_iff] at hothers
      obtain ⟨rfl, hfinal⟩ := hothers
      refine ⟨fragment, skipped ++ (more ++ after), by simp, ?_, ?_⟩
      · rw [hfinal]
        exact .single fragment
      · rw [Option.toList_eq_nil_iff] at hfinal
        simp [hfinal]
    | cons next rest =>
      rw [hothers] at hbody
      refine ⟨fragment ++ skipped ++ body, behind, by simp [htext], ?_, hbehind⟩
      rw [List.cons_append, hothers]
      exact .cons hskipped hbody

/-- What holds the fragments in order is matched behind the start, if it runs to the end of the text
where there is a final fragment. -/
theorem matches_of_spread {fragments : List (List Char)} {final : Option (List Char)}
    (h : Spread (fragments ++ final.toList) piece) (hafter : final.isSome → after = []) :
    Matches (fragments.flatMap (fun f => f.map .literal ++ [gap]) ++
      final.toList.flatMap fun f => f.map .literal ++ [.stop]) before piece after := by
  induction fragments generalizing before piece with
  | nil =>
    cases final with
    | none =>
      obtain rfl := spread_nil_iff.1 h
      exact .nil
    | some final =>
      obtain rfl := spread_single_iff.1 h
      obtain rfl := hafter rfl
      rw [List.flatMap_nil, List.nil_append, Option.toList_some, List.flatMap_singleton,
        matches_literals_append]
      exact ⟨[], by simp, matches_stop.2 ⟨rfl, rfl⟩⟩
  | cons fragment others ih =>
    rw [List.flatMap_cons, List.append_assoc, List.append_assoc, matches_literals_append]
    rw [List.cons_append] at h
    cases hothers : others ++ final.toList with
    | nil =>
      rw [hothers] at h
      obtain rfl := spread_single_iff.1 h
      have hrest : Spread (others ++ final.toList) [] := by
        rw [hothers]
        exact .nil
      exact ⟨[], by simp, matches_gap_cons.2 ⟨[], [], rfl, List.not_mem_nil, ih hrest⟩⟩
    | cons next rest =>
      rw [hothers] at h
      obtain ⟨skipped, more, rfl, hskipped, hmore⟩ := spread_cons_iff.1 h
      rw [← hothers] at hmore
      exact ⟨skipped ++ more, by simp, matches_gap_cons.2 ⟨skipped, more, rfl, hskipped, ih hmore⟩⟩

/-- The expression of a pattern is found in just the texts that hold the fragments in order. -/
theorem isFoundIn_parts_iff {p : Pattern} {text : List Char} :
    Expression.IsFoundIn p.parts text ↔ p.FoundIn text := by
  rw [Expression.IsFoundIn, FoundIn, parts, fragments]
  constructor
  · rintro ⟨before, piece, after, rfl, h⟩
    cases hinitial : p.initial with
    | none =>
      rw [hinitial, Option.isSome_none, if_neg (by simp), List.nil_append] at h
      obtain ⟨body, behind, htext, hbody, hbehind⟩ := spread_of_matches h
      exact ⟨before, body, behind, by simp [htext], hbody, by simp, hbehind⟩
    | some initial =>
      rw [hinitial, Option.isSome_some, if_pos rfl, List.singleton_append, matches_start_cons] at h
      obtain ⟨rfl, h⟩ := h
      obtain ⟨body, behind, htext, hbody, hbehind⟩ := spread_of_matches h
      exact ⟨[], body, behind, by simp [htext], hbody, fun _ => rfl, hbehind⟩
  · rintro ⟨before, body, after, rfl, hbody, hbefore, hafter⟩
    refine ⟨before, body, after, rfl, ?_⟩
    cases hinitial : p.initial with
    | none =>
      rw [hinitial] at hbody
      exact matches_of_spread hbody hafter
    | some initial =>
      rw [hinitial] at hbody
      obtain rfl := hbefore (by rw [hinitial]; rfl)
      exact matches_start_cons.2 ⟨rfl, matches_of_spread hbody hafter⟩

end Pattern

end SearchFilter
