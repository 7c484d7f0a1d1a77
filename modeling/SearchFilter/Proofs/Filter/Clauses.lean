import Mathlib.Tactic.Common
import SearchFilter.Filter.Parse
import SearchFilter.Proofs.Except
import SearchFilter.Proofs.Recursion

namespace SearchFilter.Parsing

variable {one other : List Char → Except FilterError (Filter × List Char)}
  {next next' : List Char → Except FilterError (List Filter × List Char)} {text start : List Char}

/-- Where clauses are read with `one` from a text on, a clause is looked for at `start`: at the beginning,
and behind each clause that is read and not closed. -/
inductive ClauseAt (one : List Char → Except FilterError (Filter × List Char)) :
    List Char → List Char → Prop where
  | first (text : List Char) : ClauseAt one text text
  | next {text rest start : List Char} {f : Filter} {c : Char} (hread : one text = .ok (f, c :: rest))
    (hc : c ≠ ')') (hstart : ClauseAt one (c :: rest) start) : ClauseAt one text start

/-- A round of reading clauses with `one`, where `next` stands in for the rounds behind it. -/
def clauseRound (one : List Char → Except FilterError (Filter × List Char))
    (next : List Char → Except FilterError (List Filter × List Char)) (text : List Char) :
    Except FilterError (List Filter × List Char) := do
  let (f, rest) ← one text
  match rest with
  | [] => .error (.parse .unbalancedParens)
  | ')' :: rest => return ([f], rest)
  | rest =>
    let (fs, rest) ← next rest
    return (f :: fs, rest)

theorem clauses_succ (one : List Char → Except FilterError (Filter × List Char)) (n : Nat) :
    clauses one (n + 1) = clauseRound one (clauses one n) := rfl

/-- Behind a clause that is read and not closed, the others are read. -/
theorem clauseRound_of_ok {f : Filter} {c : Char} {rest : List Char}
    (hread : one text = .ok (f, c :: rest)) (hc : c ≠ ')') :
    clauseRound one next text = do
      let (fs, rest) ← next (c :: rest)
      return (f :: fs, rest) := by
  rw [clauseRound, hread]
  dsimp only [bind, Except.bind]
  split
  · contradiction
  · next h =>
    cases h
    exact absurd rfl hc
  · rfl

/-- Two rounds give the same if they read the first clause alike, and what follows it as well. -/
theorem clauseRound_congr (hread : other text = one text)
    (hnext : ∀ f c rest, one text = .ok (f, c :: rest) → c ≠ ')' → next' (c :: rest) = next (c :: rest)) :
    clauseRound other next' text = clauseRound one next text := by
  rw [clauseRound, clauseRound, hread]
  cases h : one text with
  | error e => rfl
  | ok result =>
    obtain ⟨f, rest⟩ := result
    dsimp only [bind, Except.bind]
    split
    · rfl
    · rfl
    · next rest hnil hclose =>
      obtain ⟨c, rest, rfl⟩ := List.exists_cons_of_ne_nil hnil
      rw [hnext f c rest h fun hc => hclose rest (hc ▸ rfl)]

/-- Clauses are refused as one of them is, or because nothing closes them. -/
theorem clauses_error {n : Nat} {e : FilterError} (h : clauses one n text = .error e) :
    e = .parse .unbalancedParens ∨ ∃ start, ClauseAt one text start ∧ one start = .error e := by
  induction n generalizing text with
  | zero =>
    cases h
    exact .inl rfl
  | succ n ih =>
    rw [clauses, Except.bind_eq_error_iff] at h
    obtain hread | ⟨⟨f, rest⟩, hread, h⟩ := h
    · exact .inr ⟨text, .first text, hread⟩
    · dsimp only at h
      split at h
      · cases h
        exact .inl rfl
      · cases h
      · next rest hnil hclose =>
        obtain ⟨c, rest, rfl⟩ := List.exists_cons_of_ne_nil hnil
        have hc : c ≠ ')' := by
          rintro rfl
          exact hclose rest rfl
        rw [Except.bind_eq_error_iff] at h
        obtain h | ⟨_, _, h⟩ := h
        · obtain he | ⟨start, hstart, he⟩ := ih h
          · exact .inl he
          · exact .inr ⟨start, .next hread hc hstart, he⟩
        · cases h

/-- A clause that is refused is come upon, as long as each clause that is read takes something of the
text. -/
theorem clauses_error_of_clauseAt
    (hless : ∀ f text rest, one text = .ok (f, rest) → rest.length < text.length)
    (hstart : ClauseAt one text start) {e : FilterError} (herror : one start = .error e) {n : Nat}
    (hbudget : text.length < n) : clauses one n text = .error e := by
  induction hstart generalizing n with
  | first text =>
    obtain ⟨n, rfl⟩ := Nat.exists_eq_add_one_of_ne_zero (Nat.ne_zero_of_lt hbudget)
    rw [clauses, herror]
    rfl
  | next hread hc _ ih =>
    obtain ⟨n, rfl⟩ := Nat.exists_eq_add_one_of_ne_zero (Nat.ne_zero_of_lt hbudget)
    have hrest := hless _ _ _ hread
    rw [clauses_succ, clauseRound_of_ok hread hc, ih herror (by omega)]
    rfl

/-- Clauses are read with what reads each of them. -/
theorem clauses_congr (h : ∀ start, ClauseAt one text start → other start = one start) (n : Nat) :
    clauses other n text = clauses one n text := by
  induction n generalizing text with
  | zero => rfl
  | succ n ih =>
    rw [clauses_succ, clauses_succ]
    exact clauseRound_congr (h text (.first text)) fun f c rest hread hc =>
      ih fun start hstart => h start (.next hread hc hstart)

/-- Clauses come to an end, as each of them takes something of the text. -/
theorem settles_clauses
    (hless : ∀ f text rest, one text = .ok (f, rest) → rest.length < text.length) {n : Nat}
    (hn : text.length < n) : Settles (clauseRound one) (· text) (text.length + 1) (clauses one n text) := by
  rw [Settles.eq_iterate (clauses one) (clauses_succ one) n]
  refine Settles.of_rank_lt id List.length ?_ _ hn
  intro next next' text hnext
  exact clauseRound_congr rfl fun f c rest hread _ => hnext _ (hless f text _ hread)

end SearchFilter.Parsing
