import Mathlib
import SearchFilter.Proofs.Ber.Minimal
import SearchFilter.Proofs.Filter.Writing

namespace SearchFilter.Ber

/-- A call of a writer. -/
inductive WriterCall where
  | octetString (t : UInt8) (content : Octets)
  | string (s : String)
  | boolean (t : UInt8) (b : Bool)
  | null
  | append (bs : Octets)
  | tag (t : UInt8)
  | filter (f : Filter)
  | openSequence (t : UInt8)
  | closeSequence

/-- What a call makes of a writer. -/
def WriterCall.perform (w : Writer) : WriterCall → Writer
  | octetString t content => w.octetString t content
  | string s => w.string s
  | boolean t b => w.boolean t b
  | null => w.null
  | append bs => w.append bs
  | tag t => w.tag t
  | filter f => w.filter f
  | openSequence t => w.openSequence t
  | closeSequence => w.closeSequence

/-- A writer after some calls. -/
def Writer.run (w : Writer) (calls : List WriterCall) : Writer :=
  calls.foldl WriterCall.perform w

/-- The octets that a call writes, if it neither opens nor closes a sequence. -/
def WriterCall.octets? : WriterCall → Option Octets
  | octetString t content => some (element t content)
  | string s => some (element octetStringTag (Utf8.encode s))
  | boolean t b => some (element t [Writer.booleanOctet b])
  | null => some (element Read.nullTag [])
  | append bs => some bs
  | tag t => some [t]
  | filter f => some f.toBer
  | openSequence _ | closeSequence => none

/-- What stands in a buffer: octets that were written at once, or a sequence of further pieces. -/
inductive Piece where
  | octets (bs : Octets)
  | sequence (t : UInt8) (pieces : List Piece)

mutual

/-- The octets of a piece. Those of a sequence are an element, whose content is known before its length. -/
def Piece.encode : Piece → Octets
  | .octets bs => bs
  | .sequence t pieces => element t (encodeAll pieces)

/-- The octets of some pieces, one behind the other. -/
def Piece.encodeAll : List Piece → Octets
  | [] => []
  | p :: pieces => p.encode ++ encodeAll pieces

end

/-- The pieces that calls write which close every sequence they open. Outside of all sequences there may be
further calls that close one, although none is open. -/
inductive Writes : (outermost : Bool) → List WriterCall → List Piece → Prop where
  | nil {outermost : Bool} : Writes outermost [] []
  | octets {outermost : Bool} {c : WriterCall} {bs : Octets} {calls : List WriterCall}
    {pieces : List Piece} (hc : c.octets? = some bs) (h : Writes outermost calls pieces) :
    Writes outermost (c :: calls) (.octets bs :: pieces)
  | sequence {outermost : Bool} (t : UInt8) {inner calls : List WriterCall} {content pieces : List Piece}
    (hinner : Writes false inner content) (h : Writes outermost calls pieces) :
    Writes outermost (.openSequence t :: (inner ++ .closeSequence :: calls)) (.sequence t content :: pieces)
  | surplus {calls : List WriterCall} {pieces : List Piece} (h : Writes true calls pieces) :
    Writes true (.closeSequence :: calls) pieces

/-- A call that neither opens nor closes a sequence appends its octets. -/
theorem WriterCall.perform_eq_append {c : WriterCall} {bs : Octets} (hc : c.octets? = some bs)
    (w : Writer) : c.perform w = w.append bs := by
  cases c with
  | filter f =>
    cases hc
    exact w.filter_eq f
  | openSequence t => cases hc
  | closeSequence => cases hc
  | _ =>
    cases hc
    rfl

namespace Writer

@[simp] theorem run_cons (w : Writer) (c : WriterCall) (calls : List WriterCall) :
    w.run (c :: calls) = (c.perform w).run calls := rfl

@[simp] theorem run_append (w : Writer) (xs ys : List WriterCall) :
    w.run (xs ++ ys) = (w.run xs).run ys :=
  List.foldl_append

/-- A call that closes a sequence does nothing where none is open. -/
theorem closeSequence_of_pending_nil {w : Writer} (h : w.pending = []) : w.closeSequence = w := by
  rw [closeSequence, h]

end Writer

namespace Writes

variable {outermost : Bool} {xs ys calls : List WriterCall} {ps qs pieces : List Piece}

/-- Calls one behind the other write the pieces of both. -/
theorem append (hx : Writes outermost xs ps) (hy : Writes outermost ys qs) :
    Writes outermost (xs ++ ys) (ps ++ qs) := by
  induction hx with
  | nil => exact hy
  | octets hc _ ih => exact .octets hc (ih hy)
  | sequence t hinner _ _ ih =>
    have hcalls := Writes.sequence t hinner (ih hy)
    simpa using hcalls
  | surplus _ ih => exact .surplus (ih hy)

/-- Calls append the octets of their pieces to any writer. Where they close a sequence that they have not
opened, the writer must not have opened one either. -/
theorem run_eq (h : Writes outermost calls pieces) {w : Writer}
    (hnone : outermost = true → w.pending = []) : w.run calls = w.append (Piece.encodeAll pieces) := by
  induction h generalizing w with
  | nil => exact w.append_nil.symm
  | octets hc _ ih =>
    rw [Writer.run_cons, WriterCall.perform_eq_append hc, ih (w := w.append _) hnone, Writer.append_append]
    rfl
  | sequence t _ _ ihinner ih =>
    -- What is nested in the sequence only appends, so that closing it finds its own placeholder.
    have hinner := ihinner (w := w.openSequence t) (by simp)
    rw [Writer.run_cons, Writer.run_append, WriterCall.perform, hinner, Writer.run_cons,
      WriterCall.perform, Writer.closeSequence_append, ih (w := w.append _) hnone, Writer.append_append]
    rfl
  | surplus _ ih =>
    rw [Writer.run_cons, WriterCall.perform, Writer.closeSequence_of_pending_nil (hnone rfl), ih hnone]

end Writes

/-- Calls close every sequence that they open, or the last one that they leave open has only closed ones
behind it. -/
theorem writes_or_exists_open (calls : List WriterCall) :
    (∃ pieces, Writes true calls pieces) ∨
      ∃ before t inner content, calls = before ++ .openSequence t :: inner ∧ Writes false inner content := by
  induction hlength : calls.length using Nat.strongRecOn generalizing calls with
  | _ n ih =>
    rcases List.eq_nil_or_concat calls with rfl | ⟨calls, c, rfl⟩
    · exact .inl ⟨[], .nil⟩
    rw [List.concat_eq_append, List.length_append, List.length_singleton] at hlength
    rw [List.concat_eq_append]
    have hcalls := ih calls.length (by omega) calls rfl
    cases hc : c.octets? with
    | some bs =>
      have hlast (outermost : Bool) : Writes outermost [c] [.octets bs] := .octets hc .nil
      obtain ⟨pieces, hpieces⟩ | ⟨before, t, inner, content, rfl, hinner⟩ := hcalls
      · exact .inl ⟨_, hpieces.append (hlast true)⟩
      · refine .inr ⟨before, t, inner ++ [c], _, ?_, hinner.append (hlast false)⟩
        rw [List.append_assoc, List.cons_append]
    | none =>
      cases c with
      | openSequence t => exact .inr ⟨calls, t, [], [], rfl, .nil⟩
      | closeSequence =>
        obtain ⟨pieces, hpieces⟩ | ⟨before, t, inner, content, rfl, hinner⟩ := hcalls
        · have hclosed := hpieces.append (.surplus .nil)
          exact .inl ⟨_, hclosed⟩
        -- The call closes the last open sequence, and the calls before that one are told apart anew.
        have hclosed (outermost : Bool) : Writes outermost (.openSequence t :: (inner ++ [.closeSequence]))
            [.sequence t content] := .sequence t hinner .nil
        have heq : before ++ .openSequence t :: inner ++ [.closeSequence] =
            before ++ .openSequence t :: (inner ++ [.closeSequence]) := by simp
        rw [List.length_append, List.length_cons] at hlength
        rw [heq]
        obtain ⟨pieces, hpieces⟩ | ⟨before, u, outer, content', rfl, houter⟩ :=
          ih before.length (by omega) before rfl
        · exact .inl ⟨_, hpieces.append (hclosed true)⟩
        · refine .inr ⟨before, u, _, _, ?_, houter.append (hclosed false)⟩
          rw [List.append_assoc, List.cons_append]
      | _ => cases hc

/-- Nothing is open behind calls exactly if they write pieces. -/
theorem Writer.pending_run_eq_nil_iff {calls : List WriterCall} :
    (Writer.new.run calls).pending = [] ↔ ∃ pieces, Writes true calls pieces := by
  constructor
  · intro hnone
    obtain hpieces | ⟨before, t, inner, content, rfl, hinner⟩ := writes_or_exists_open calls
    · exact hpieces
    · rw [run_append, run_cons, hinner.run_eq (by simp)] at hnone
      cases hnone
  · rintro ⟨pieces, hpieces⟩
    rw [hpieces.run_eq fun _ => rfl]
    rfl

/-- The places where length octets are owed hold a zero octet each, and the innermost sequence was opened
last. -/
structure Writer.Sound (w : Writer) : Prop where
  descending : w.pending.Pairwise (· > ·)
  placeholder : ∀ place ∈ w.pending, w.buffer[place]? = some 0

namespace Writer.Sound

variable {w : Writer}

theorem lt_length (h : w.Sound) {place : Nat} (hplace : place ∈ w.pending) : place < w.buffer.length := by
  obtain ⟨hlt, _⟩ := List.getElem?_eq_some_iff.1 (h.placeholder place hplace)
  exact hlt

theorem append (h : w.Sound) (bs : Octets) : (w.append bs).Sound where
  descending := h.descending
  placeholder := by
    intro place hplace
    have hold := h.placeholder place hplace
    rw [← hold]
    exact List.getElem?_append_left (h.lt_length hplace)

theorem openSequence (h : w.Sound) (t : UInt8) : (w.openSequence t).Sound where
  descending := by
    refine List.Pairwise.cons ?_ h.descending
    intro place hplace
    have hlt := h.lt_length hplace
    omega
  placeholder := by
    intro place hplace
    rcases List.mem_cons.1 hplace with rfl | hplace
    · simp [Writer.openSequence]
    · exact (h.append [t, 0]).placeholder place hplace

/-- Closing a sequence changes nothing before its own place, so the places of the sequences around it stay
where they are. -/
theorem closeSequence (h : w.Sound) : w.closeSequence.Sound := by
  obtain ⟨buffer, pending⟩ := w
  cases pending with
  | nil => exact h
  | cons place pending =>
    obtain ⟨hbelow, hdescending⟩ := List.pairwise_cons.1 h.descending
    refine ⟨hdescending, ?_⟩
    intro outer houter
    have hold := h.placeholder outer (List.mem_cons_of_mem _ houter)
    have hlt : outer < place := hbelow outer houter
    have hroom : outer < (buffer.take place).length := by
      have hplace : place < buffer.length := h.lt_length List.mem_cons_self
      rw [List.length_take]
      omega
    rw [← hold, Writer.closeSequence]
    dsimp only
    rw [List.append_assoc, List.getElem?_append_left hroom, List.getElem?_take_of_lt hlt]

theorem perform (h : w.Sound) (c : WriterCall) : (c.perform w).Sound := by
  cases hc : c.octets? with
  | some bs =>
    rw [WriterCall.perform_eq_append hc]
    exact h.append bs
  | none =>
    cases c with
    | openSequence t => exact h.openSequence t
    | closeSequence => exact h.closeSequence
    | _ => cases hc

/-- Whatever is called, a writer stays sound. -/
theorem run (h : w.Sound) (calls : List WriterCall) : (w.run calls).Sound := by
  induction calls generalizing w with
  | nil => exact h
  | cons c calls ih => exact ih (h.perform c)

end Writer.Sound

theorem Writer.sound_new : Writer.new.Sound :=
  ⟨.nil, by simp [Writer.new]⟩

/-- Whatever is called in whatever order, the places where length octets are owed ascend in the order in
which their sequences were opened and each holds a zero octet of the buffer, so closing a sequence finds
its content. Where nothing is open, closing changes nothing, and the buffer holds what the calls have
written, each closed sequence as its tag, the shortest form of the length of its content, and its content.
Writing a filter appends its element to any writer and leaves what it owes as it is. -/
theorem Writer.run_writes_pieces :
    (∀ calls : List WriterCall,
      (Writer.new.run calls).pending.reverse.Pairwise (· < ·) ∧
      (∀ place ∈ (Writer.new.run calls).pending, place + 1 ≤ (Writer.new.run calls).buffer.length ∧
        (Writer.new.run calls).buffer[place]? = some 0) ∧
      ((Writer.new.run calls).pending = [] ↔ ∃ pieces, Writes true calls pieces) ∧
      ∀ pieces, Writes true calls pieces → (Writer.new.run calls).buffer = Piece.encodeAll pieces) ∧
    (∀ w : Writer, w.pending = [] → w.closeSequence = w) ∧
    (∀ (w : Writer) (f : Filter), (w.filter f).buffer = w.buffer ++ f.toBer ∧
      (w.filter f).pending = w.pending ∧ f.toBer = (Writer.new.filter f).buffer) ∧
    ∀ (t : UInt8) (pieces : List Piece), (Piece.encodeAll pieces).length < 2 ^ 32 →
      ∃ l, IsMinimal (Piece.encodeAll pieces).length l ∧
        (Piece.sequence t pieces).encode = t :: l ++ Piece.encodeAll pieces := by
  refine ⟨?_, fun w => closeSequence_of_pending_nil, ?_, ?_⟩
  · intro calls
    have hsound := sound_new.run calls
    refine ⟨List.pairwise_reverse.2 hsound.descending, ?_, pending_run_eq_nil_iff, ?_⟩
    · intro place hplace
      exact ⟨hsound.lt_length hplace, hsound.placeholder place hplace⟩
    · intro pieces hpieces
      rw [hpieces.run_eq fun _ => rfl]
      rfl
  · intro w f
    rw [filter_eq, filter_eq]
    exact ⟨rfl, rfl, rfl⟩
  · intro t pieces hsize
    exact ⟨_, (isMinimal_iff (lengthOctets_encodeLength hsize)).2 rfl, by rw [Piece.encode, element]⟩

/-- Calls that close one sequence too many and nest two sequences, the inner one with a length of two
octets. -/
def sampleCalls : List WriterCall :=
  [.closeSequence, .openSequence sequenceTag, .openSequence 0xA0, .append (List.replicate 128 0),
    .closeSequence, .filter (.leaf (.presence "cn")), .closeSequence, .tag 0x05]

/-- What these calls write. -/
def samplePieces : List Piece :=
  [.sequence sequenceTag [.sequence 0xA0 [.octets (List.replicate 128 0)],
      .octets (Filter.leaf (.presence "cn")).toBer],
    .octets [0x05]]

/-- The call that closes one sequence too many does nothing, and the place of the inner length grows
to two octets when it is closed. -/
theorem Writer.sampleCalls_write_samplePieces :
    (Writer.new.run sampleCalls).pending = [] ∧ Writes true sampleCalls samplePieces ∧
      (Writer.new.run sampleCalls).closeSequence = Writer.new.run sampleCalls ∧
      (Writer.new.run sampleCalls).buffer = Piece.encodeAll samplePieces ∧
      ∃ l, IsMinimal 128 l ∧
        (Piece.sequence 0xA0 [.octets (List.replicate 128 0)]).encode = 0xA0 :: l ++ List.replicate 128 0 := by
  have hinner : Writes false [.append (List.replicate 128 0)] [.octets (List.replicate 128 0)] :=
    .octets rfl .nil
  have houter : Writes false
      (.openSequence 0xA0 :: ([.append (List.replicate 128 0)] ++ .closeSequence ::
        [.filter (.leaf (.presence "cn"))]))
      [.sequence 0xA0 [.octets (List.replicate 128 0)], .octets (Filter.leaf (.presence "cn")).toBer] :=
    .sequence _ hinner (.octets rfl .nil)
  have hpieces : Writes true sampleCalls samplePieces :=
    .surplus (.sequence _ houter (.octets rfl .nil))
  obtain ⟨hcalls, hsurplus, _, hminimal⟩ := run_writes_pieces
  obtain ⟨_, _, hclosed, hbuffer⟩ := hcalls sampleCalls
  have hnone := hclosed.2 ⟨_, hpieces⟩
  have hcontent : Piece.encodeAll [.octets (List.replicate 128 0)] = List.replicate 128 0 := by
    rw [Piece.encodeAll, Piece.encode, Piece.encodeAll, List.append_nil]
  have hsize : (Piece.encodeAll [.octets (List.replicate 128 0)]).length < 2 ^ 32 := by
    rw [hcontent, List.length_replicate]
    decide
  have hform := hminimal 0xA0 _ hsize
  rw [hcontent, List.length_replicate] at hform
  exact ⟨hnone, hpieces, hsurplus _ hnone, hbuffer _ hpieces, hform⟩

end SearchFilter.Ber
