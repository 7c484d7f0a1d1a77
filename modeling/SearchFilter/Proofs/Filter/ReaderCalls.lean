import Mathlib
import SearchFilter.Proofs.Ber.Moves
import SearchFilter.Proofs.Filter.Closed
import SearchFilter.Proofs.Filter.Decoding

namespace SearchFilter.Ber

/-- A call of a reader. -/
inductive ReaderCall where
  | tag
  | length
  | header
  | expect (t : UInt8) (context : String)
  | octetString (t : UInt8) (context : String)
  | string (t : UInt8) (context : String)
  | boolean (t : UInt8) (context : String)
  | null
  | raw (n : Nat)
  | peek
  | filter
  | filterWithin (depth : Nat)

/-- What a call gives where it succeeds. -/
inductive ReaderAnswer where
  | octet (b : UInt8)
  | number (n : Nat)
  | octets (bs : Octets)
  | text (s : String)
  | truth (b : Bool)
  | nothing
  | next (b? : Option UInt8)
  | filter (f : Filter)

/-- The read that a call makes. -/
def ReaderCall.read : ReaderCall → Read ReaderAnswer
  | tag => do return .octet (← Read.tag)
  | length => do return .number (← Read.length)
  | header => do return .octet (← Read.header)
  | expect t context => do return .number (← Read.expect t context)
  | octetString t context => do return .octets (← Read.octetString t context)
  | string t context => do return .text (← Read.string t context)
  | boolean t context => do return .truth (← Read.boolean t context)
  | null => do
    Read.null
    return .nothing
  | raw n => do return .octets (← Read.raw n)
  | peek => do return .next (← get).peek?
  | filter => do return .filter (← Decoding.filter)
  | filterWithin depth => do return .filter (← Decoding.filterWithin depth)

/-- Whether a call reads headers. -/
def ReaderCall.readsHeaders : ReaderCall → Bool
  | tag | length | raw _ | peek => false
  | header | expect _ _ | octetString _ _ | string _ _ | boolean _ _ | null | filter | filterWithin _ => true

/-- Where some calls, one behind the other, leave a reader. -/
def Reader.run (r : Reader) (calls : List ReaderCall) : Reader :=
  calls.foldl (fun r c => c.read.after r) r

/-- The header of an element with tag `t` and `n` octets of content lies in a buffer between two offsets, and
its content behind it. -/
def IsHeaderAt (data : Octets) (start stop : Nat) (t : UInt8) (n : Nat) : Prop :=
  ∃ l, LengthOctets n l ∧ data.extract start stop = t :: l ∧ stop + n ≤ data.length

/-- What the answer of a call says of the octets from where the reader stood to where it came to stand. -/
def ReaderCall.Shows (data : Octets) (start stop : Nat) : ReaderCall → ReaderAnswer → Prop
  | tag, .octet b => data.extract start stop = [b]
  | length, .number n => LengthOctets n (data.extract start stop)
  | header, .octet t => ∃ n, IsHeaderAt data start stop t n
  | expect t _, .number n => IsHeaderAt data start stop t n
  | octetString t _, .octets bs =>
    ∃ content, IsHeaderAt data start content t bs.length ∧ bs = data.extract content stop
  | string t _, .text s =>
    ∃ content, IsHeaderAt data start content t (Utf8.encode s).length ∧
      Utf8.encode s = data.extract content stop
  | boolean t _, .truth b =>
    ∃ content o, IsHeaderAt data start content t 1 ∧ [o] = data.extract content stop ∧ b = (o != 0)
  | null, .nothing => IsHeaderAt data start stop Read.nullTag 0
  | raw n, .octets bs => stop = start + n ∧ bs = data.extract start stop
  | peek, .next b? => stop = start ∧ b? = data[start]?
  | filter, .filter f => f.EncodedAs (data.extract start stop)
  | filterWithin depth, .filter f => f.EncodedAs (data.extract start stop) ∧ f.depth ≤ depth
  | _, _ => False

section
variable {data x : Octets} {r s : Reader}

/-- A reader that has come from the start of a buffer stands in it. -/
theorem Reader.Before.offset_add_remaining (h : (Reader.ofOctets data).Before r) :
    r.offset + r.remaining = data.length := by
  obtain ⟨x, hx⟩ := h
  have hoffset : r.offset = 0 + x.length := hx.offset_eq
  have hdata : data = x ++ r.rest := hx.rest_eq
  rw [Reader.remaining, hdata, List.length_append]
  omega

theorem Reader.Before.rest_eq_drop (h : (Reader.ofOctets data).Before r) : r.rest = data.drop r.offset := by
  obtain ⟨x, hx⟩ := h
  have hoffset : r.offset = 0 + x.length := hx.offset_eq
  have hdata : data = x ++ r.rest := hx.rest_eq
  rw [hoffset, Nat.zero_add, hdata, List.drop_left]

theorem Reader.Before.offset_le (h : r.Before s) : r.offset ≤ s.offset := by
  obtain ⟨x, hx⟩ := h
  have hoffset := hx.offset_eq
  omega

/-- The octets that a reader passes are those between the two offsets. -/
theorem Reader.Passes.extract_eq (h : r.Passes x s) (hr : (Reader.ofOctets data).Before r) :
    data.extract r.offset s.offset = x := by
  have hrest := hr.rest_eq_drop
  rw [List.extract_eq_take_drop, ← hrest, h.rest_eq, h.offset_eq, Nat.add_sub_cancel_left, List.take_left]

/-- A tag and a length that a reader has passed are a header in its buffer, if the content fits in
it. -/
theorem Reader.Passes.isHeaderAt {t : UInt8} {l : Octets} {n : Nat}
    (h : r.Passes (t :: l) s) (hr : (Reader.ofOctets data).Before r) (hl : LengthOctets n l)
    (hroom : n ≤ s.rest.length) : IsHeaderAt data r.offset s.offset t n := by
  have hend := (hr.trans h.before).offset_add_remaining
  rw [Reader.remaining] at hend
  exact ⟨l, hl, h.extract_eq hr, by omega⟩

/-- An element that a reader passes is a header and the content behind it. -/
theorem IsElement.exists_isHeaderAt {t : UInt8} {c : Octets} (hx : IsElement t c x) (h : r.Passes x s)
    (hr : (Reader.ofOctets data).Before r) :
    ∃ content, IsHeaderAt data r.offset content t c.length ∧ c = data.extract content s.offset := by
  obtain ⟨l, hl, rfl⟩ := hx
  obtain ⟨u, hheader, hcontent, _⟩ := h.split 0
  have hroom : c.length ≤ u.rest.length := by
    rw [hcontent.rest_eq, List.length_append]
    omega
  exact ⟨u.offset, hheader.isHeaderAt hr hl hroom, (hcontent.extract_eq (hr.trans hheader.before)).symm⟩

end

namespace ReaderCall

/-- Every call passes octets, and remembers no length but that of a header which was passed. -/
theorem reaches (c : ReaderCall) (r : Reader) : r.Reaches (c.read.after r) := by
  have hC := Read.closed_moves
  have hanswer {α : Type} {m : Read α} (hm : Read.Moves Reader.Reaches m) (answer : α → ReaderAnswer) :
      r.Reaches ((do return answer (← m) : Read ReaderAnswer).after r) :=
    hC.bind hm (fun a => hC.pure (answer a)) r
  cases c with
  | tag => exact hanswer (hC.octet _) .octet
  | length => exact hanswer hC.length .number
  | header => exact hanswer hC.header .octet
  | expect t context => exact hanswer (hC.expect t context) .number
  | octetString t context => exact hanswer (hC.octetString t context) .octets
  | string t context => exact hanswer (hC.string t context) .text
  | boolean t context => exact hanswer (hC.boolean t context) .truth
  | null => exact hanswer hC.null fun _ => .nothing
  | raw n => exact hanswer (hC.raw n) .octets
  | peek => exact hanswer hC.get fun r => .next r.peek?
  | filter => exact hanswer (Decoding.closed_filter hC) .filter
  | filterWithin depth => exact hanswer (Decoding.closed_filterWithin hC depth) .filter

/-- A call that reads no header remembers no other length. -/
theorem skips {c : ReaderCall} (hc : c.readsHeaders = false) (r : Reader) : r.Skips (c.read.after r) := by
  have hanswer {α : Type} {m : Read α} (hm : Read.Moves Reader.Skips m) (answer : α → ReaderAnswer) :
      r.Skips ((do return answer (← m) : Read ReaderAnswer).after r) :=
    hm.bind .trans (fun a => Read.moves_of_refl Reader.Skips.refl fun _ => rfl) r
  cases c with
  | tag => exact hanswer (Read.moves_octet _) .octet
  | length => exact hanswer Read.moves_length .number
  | raw n => exact hanswer (Read.moves_octets n _) .octets
  | peek => exact .refl r
  | _ => cases hc

/-- What a call gives is what stands in the buffer between where it found the reader and where it left it. -/
theorem shows {data : Octets} {c : ReaderCall} {answer : ReaderAnswer} {r s : Reader}
    (hr : (Reader.ofOctets data).Before r) (h : c.read r = .ok answer s) :
    c.Shows data r.offset s.offset answer := by
  cases c with
  | tag =>
    simp only [read, Read.tag, Read.bind_eq_ok_iff, Read.octet_eq_ok_iff, Read.pure_eq_ok_iff] at h
    obtain ⟨b, _, ⟨hpasses, _⟩, rfl, rfl⟩ := h
    exact hpasses.extract_eq hr
  | length =>
    simp only [read, Read.bind_eq_ok_iff, Read.length_eq_ok_iff, Read.pure_eq_ok_iff] at h
    obtain ⟨n, _, ⟨x, hx, hpasses, _⟩, rfl, rfl⟩ := h
    rw [Shows, hpasses.extract_eq hr]
    exact hx
  | header =>
    simp only [read, Read.bind_eq_ok_iff, Read.header_eq_ok_iff, Read.pure_eq_ok_iff] at h
    obtain ⟨t, _, ⟨l, hl, hpasses, hroom⟩, rfl, rfl⟩ := h
    exact ⟨_, hpasses.isHeaderAt hr hl hroom⟩
  | expect t context =>
    simp only [read, Read.bind_eq_ok_iff, Read.expect_eq_ok_iff, Read.header_eq_ok_iff,
      Read.pure_eq_ok_iff] at h
    obtain ⟨_, _, ⟨⟨l, hl, hpasses, hroom⟩, rfl⟩, rfl, rfl⟩ := h
    exact hpasses.isHeaderAt hr hl hroom
  | octetString t context =>
    simp only [read, Read.bind_eq_ok_iff, Read.octetString_eq_ok_iff, Read.pure_eq_ok_iff] at h
    obtain ⟨bs, _, ⟨x, hx, hpasses, _⟩, rfl, rfl⟩ := h
    exact hx.exists_isHeaderAt hpasses hr
  | string t context =>
    simp only [read, Read.bind_eq_ok_iff, Read.string_eq_ok_iff, Read.pure_eq_ok_iff] at h
    obtain ⟨text, _, ⟨x, hx, hpasses, _⟩, rfl, rfl⟩ := h
    exact hx.exists_isHeaderAt hpasses hr
  | boolean t context =>
    simp only [read, Read.bind_eq_ok_iff, Read.boolean_eq_ok_iff, Read.pure_eq_ok_iff] at h
    obtain ⟨_, _, ⟨o, x, hx, rfl, hpasses, _⟩, rfl, rfl⟩ := h
    obtain ⟨content, hheader, hcontent⟩ := hx.exists_isHeaderAt hpasses hr
    exact ⟨content, o, hheader, hcontent, rfl⟩
  | null =>
    simp only [read, Read.bind_eq_ok_iff, Read.null_eq_ok_iff, Read.pure_eq_ok_iff] at h
    obtain ⟨_, _, ⟨_, ⟨l, hl, rfl⟩, hpasses, _⟩, rfl, rfl⟩ := h
    rw [List.append_nil] at hpasses
    exact hpasses.isHeaderAt hr hl (Nat.zero_le _)
  | raw n =>
    simp only [read, Read.bind_eq_ok_iff, Read.raw_eq_ok_iff, Read.pure_eq_ok_iff] at h
    obtain ⟨bs, _, ⟨rfl, hpasses, _⟩, rfl, rfl⟩ := h
    exact ⟨hpasses.offset_eq, (hpasses.extract_eq hr).symm⟩
  | peek =>
    simp only [read, Read.bind_eq_ok_iff, Read.get_eq_ok_iff, Read.pure_eq_ok_iff] at h
    obtain ⟨_, _, ⟨rfl, rfl⟩, rfl, rfl⟩ := h
    refine ⟨rfl, ?_⟩
    rw [Reader.peek?, hr.rest_eq_drop, List.head?_drop]
  | filter =>
    simp only [read, Read.bind_eq_ok_iff, Read.pure_eq_ok_iff] at h
    obtain ⟨f, _, hf, rfl, rfl⟩ := h
    obtain ⟨x, ⟨hx, _⟩, hpasses⟩ := Decoding.filterWithin_sound hf
    rw [Shows, hpasses.extract_eq hr]
    exact hx
  | filterWithin depth =>
    simp only [read, Read.bind_eq_ok_iff, Read.pure_eq_ok_iff] at h
    obtain ⟨f, _, hf, rfl, rfl⟩ := h
    obtain ⟨x, ⟨hx, _, hdepth⟩, hpasses⟩ := Decoding.filterWithin_sound hf
    rw [Shows, hpasses.extract_eq hr]
    exact ⟨hx, hdepth⟩

end ReaderCall

/-- However a reader has come to stand where it does, it stands in its buffer. -/
theorem Reader.before_run (r : Reader) (calls : List ReaderCall) : r.Before (r.run calls) := by
  induction calls generalizing r with
  | nil => exact .refl r
  | cons c calls ih => exact (c.reaches r).before.trans (ih _)

/-- What a call may do to a reader of some buffer. -/
structure ReaderCall.Safe (data : Octets) (c : ReaderCall) (r r' : Reader) : Prop where
  /-- The reader never goes back. -/
  forward : r.offset ≤ r'.offset
  /-- It never leaves the buffer. -/
  inside : r'.offset ≤ data.length
  offset_add_remaining : r'.offset + r'.remaining = data.length
  /-- Only a header that the call reads can be remembered. -/
  keeps_length : c.readsHeaders = false → r'.length = r.length
  /-- Another length is remembered only of a header that lies completely between the two places, and only if
  its content lies in the buffer. -/
  new_length : r'.length ≠ r.length → ∃ start stop t, r.offset ≤ start ∧ stop ≤ r'.offset ∧
    IsHeaderAt data start stop t r'.length
  /-- What the call gives is what stands between the two places. -/
  shows : ∀ answer s, c.read r = .ok answer s → s = r' ∧ c.Shows data r.offset r'.offset answer

/-- Whatever calls have been made of a reader, and whichever of them have failed, the next call keeps it
inside its buffer, never takes it back, lets it remember only what a complete header says, and gives
nothing but the octets that it has passed. -/
theorem Reader.run_safe (data : Octets) (calls : List ReaderCall) (c : ReaderCall) :
    c.Safe data ((ofOctets data).run calls) (c.read.after ((ofOctets data).run calls)) := by
  have hr := (ofOctets data).before_run calls
  generalize (ofOctets data).run calls = r at hr ⊢
  have hreaches := c.reaches r
  have hr' := hr.trans hreaches.before
  have hend := hr'.offset_add_remaining
  refine ⟨hreaches.before.offset_le, by omega, hend, fun hc => (c.skips hc r).2, ?_, ?_⟩
  · intro hchanged
    obtain hkept | ⟨s, t, l, u, hs, hl, hheader, hroom, hu⟩ := hreaches.length
    · exact absurd hkept hchanged
    · exact ⟨s.offset, u.offset, t, hs.offset_le, hu.offset_le, hheader.isHeaderAt (hr.trans hs) hl hroom⟩
  · intro answer s h
    rw [Read.after_of_ok h]
    exact ⟨rfl, ReaderCall.shows hr h⟩

/-- A call that finds another tag leaves the reader behind a header that it did not want, whose length it
remembers, and the next call takes the content. -/
example : (Reader.ofOctets [0x04, 0x02, 0x61, 0x62]).run [.expect 0x30 "sequence", .raw 2] =
    { offset := 4, rest := [], length := 2 } := by
  decide

end SearchFilter.Ber
