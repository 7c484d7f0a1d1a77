import Mathlib.Tactic.Common
import SearchFilter.Proofs.Ber.Moves
import SearchFilter.Proofs.Filter.Closed
import SearchFilter.Proofs.Filter.Decoding
import SearchFilter.Proofs.Filter.Descent

namespace SearchFilter

open Ber

/-- A loop reads alike with all that read alike from where it starts on. -/
theorem Ber.Read.before_congr {α : Type} {one other : Read α} (hone : Moves Reader.Reaches one) {r : Reader}
    (h : ∀ s, r.Before s → other s = one s) (stop n : Nat) :
    Read.before other stop n r = Read.before one stop n r := by
  induction n generalizing r with
  | zero => rfl
  | succ n ih =>
    rw [before, before]
    refine bind_congr rfl fun o s ho => ?_
    obtain ⟨rfl, rfl⟩ := offset_eq_ok_iff.1 ho
    split_ifs
    · refine bind_congr (h _ (.refl _)) fun a t hread => ?_
      have hbefore := (hone s).before
      rw [after_of_ok hread] at hbefore
      exact bind_congr (ih fun u hu => h u (hbefore.trans hu)) fun _ _ _ => rfl
    · rfl

namespace Decoding

/-- Decodes the filter at the reader's place, with `one` for the filters in it. -/
def level (one : Read Filter) : Read Filter := do
  let tag ← Read.header
  match Kind.ofTag? tag with
  | none => Read.fail (.unknownKind tag)
  | some kind => body one kind

section
variable {one other : Read Filter} {r : Reader}

/-- A content is read alike with all readers of filters that agree from there on. -/
theorem content_congr (hone : Read.Moves Reader.Reaches one) (h : ∀ s, r.Before s → other s = one s)
    (kind : Kind) (stop : Nat) : content other kind stop r = content one kind stop r := by
  cases kind with
  | junction c =>
    refine Read.bind_congr rfl fun o s ho => ?_
    obtain ⟨rfl, rfl⟩ := Read.offset_eq_ok_iff.1 ho
    exact Read.bind_congr (Read.before_congr hone h _ _) fun _ _ _ => rfl
  | negation =>
    refine Read.bind_congr rfl fun o s ho => ?_
    obtain ⟨rfl, rfl⟩ := Read.offset_eq_ok_iff.1 ho
    split_ifs
    · exact Read.bind_congr (h _ (.refl _)) fun _ _ _ => rfl
    · rfl
  | _ => rfl

/-- What stands behind a header is read alike with all readers of filters that agree from there
on. -/
theorem body_congr (hone : Read.Moves Reader.Reaches one) (h : ∀ s, r.Before s → other s = one s)
    (kind : Kind) : body other kind r = body one kind r := by
  refine Read.bind_congr rfl fun o s ho => ?_
  obtain ⟨rfl, rfl⟩ := Read.offset_eq_ok_iff.1 ho
  refine Read.bind_congr rfl fun n t hn => ?_
  obtain ⟨rfl, rfl⟩ := Read.lastLength_eq_ok_iff.1 hn
  exact Read.bind_congr (content_congr hone h kind _) fun _ _ _ => rfl

end

/-- More levels than there are octets ahead are never entered, whatever would be done in them. -/
theorem iterate_level_eq (bottom : Read Filter) {d n : Nat} {r : Reader} (hd : r.remaining < d)
    (hn : r.remaining < n) : (level^[d] bottom) r = filterWithin n r := by
  induction d generalizing n r with
  | zero => omega
  | succ d ih =>
    obtain ⟨n, rfl⟩ := Nat.exists_eq_add_one_of_ne_zero (Nat.ne_zero_of_lt hn)
    rw [Function.iterate_succ_apply']
    refine Read.bind_congr rfl fun tag s hheader => ?_
    obtain ⟨l, _, hpasses, _⟩ := Read.header_eq_ok_iff.1 hheader
    have hless := hpasses.remaining_eq
    rw [List.length_cons] at hless
    cases Kind.ofTag? tag with
    | none => rfl
    | some kind =>
      refine body_congr (closed_filterWithin Read.closed_moves n) (fun t ht => ?_) kind
      obtain ⟨x, hx⟩ := ht
      have hle := hx.remaining_eq
      exact ih (by omega) (by omega)

theorem advances_of_passes {α : Type} {m : Read α}
    (h : ∀ a r r', m r = .ok a r' → ∃ x, x ≠ [] ∧ r.Passes x r') : Read.Advances m := by
  intro a r r' hread
  obtain ⟨x, hne, hpasses⟩ := h a r r' hread
  have hpos := List.length_pos_iff.2 hne
  have hoffset := hpasses.offset_eq
  omega

/-- A filter takes at least a tag. -/
theorem advances_filterWithin (depth : Nat) : Read.Advances (filterWithin depth) := by
  refine advances_of_passes fun f r r' h => ?_
  obtain ⟨x, ⟨hx, _⟩, hpasses⟩ := filterWithin_sound h
  exact ⟨x, hx.ne_nil, hpasses⟩

theorem advances_fragment (s : Substrings) : Read.Advances (fragment s) := by
  refine advances_of_passes fun s' r r' h => ?_
  obtain ⟨_, x, hx, hpasses, _⟩ := fragment_eq_ok_iff.1 h
  exact ⟨x, hx.ne_nil, hpasses⟩

theorem advances_field (s : Fields) : Read.Advances (field s) := by
  refine advances_of_passes fun s' r r' h => ?_
  obtain ⟨_, x, hx, hpasses, _⟩ := field_sound h
  exact ⟨x, hx.ne_nil, hpasses⟩

/-- That decoding comes to an end, wherever in a buffer it starts: the levels it descends, and at each of
them the rounds of its loops. -/
structure Terminates : Prop where
  levels (r : Reader) : Settles level (· r) (r.remaining + 1) (filter r)
  clauses (depth stop : Nat) (r : Reader) :
    Settles (Read.whileBefore stop fun fs => filterWithin depth >>= fun f => pure (fs ++ [f])) (· [] r)
      (stop - r.offset + 1) (Read.before (filterWithin depth) stop (stop - r.offset) r)
  fragments (stop : Nat) (s : Substrings) (r : Reader) :
    Settles (Read.whileBefore stop fragment) (· s r) (stop - r.offset + 1)
      (fragments stop (stop - r.offset) s r)
  fields (stop : Nat) (s : Fields) (r : Reader) :
    Settles (Read.whileBefore stop field) (· s r) (stop - r.offset + 1) (fields stop (stop - r.offset) s r)

/-- Each level takes the header that opens it and each round of a loop what it reads, so no bound is
what ends them. -/
theorem terminates : Terminates where
  levels _ bottom _ hd := iterate_level_eq bottom (Nat.lt_of_succ_le hd) (Nat.lt_succ_self _)
  clauses depth _ r := Read.settles_before (advances_filterWithin depth) r
  fragments stop s r :=
    Read.settles_whileBefore advances_fragment (fragments stop) (fun _ => rfl) (fun _ _ => rfl) s r
  fields stop s r :=
    Read.settles_whileBefore advances_field (fields stop) (fun _ => rfl) (fun _ _ => rfl) s r

end Decoding

namespace Parsing

/-- That reading a text comes to an end: the levels it descends, which are no more than its parentheses count,
and at each of them the rounds of its loop. -/
structure Terminates : Prop where
  levels (text : String) :
    Settles (level (size (wrap text.toList))) (· (wrap text.toList)) (Paren.depth text + 1)
      (filter (size (wrap text.toList)) (text.toList.length + 1) (wrap text.toList))
  clauses (total depth : Nat) (text : List Char) (hsize : text.length ≤ total) :
    Settles (clauseRound (filter total depth)) (· text) (text.length + 1)
      (clauses (filter total depth) (total + 1) text)

/-- Each level takes the parenthesis that opens it and each round of a loop its clause, so no bound
is what ends them. -/
theorem terminates : Terminates where
  levels text bottom n hn := by
    have hnone : ∀ inner, ¬Calls (size (wrap text.toList)) (Paren.depth text) (wrap text.toList)
        (Paren.depth text) ('(' :: inner) :=
      fun inner hcall => Nat.lt_irrefl _ hcall.lt_depth
    rw [filter_eq_of_le hnone (Paren.depth_le_length text)]
    exact iterate_level_eq bottom hnone (Nat.lt_of_succ_le hn)
  clauses _ _ _ hsize := settles_clauses (fun _ _ _ => filter_length_lt) (Nat.lt_succ_of_le hsize)

end Parsing

end SearchFilter
