import Mathlib.Tactic.Common
import SearchFilter.Filter.Parse
import SearchFilter.Filter.Render
import SearchFilter.Proofs.Concat
import SearchFilter.Proofs.Filter.Item

namespace SearchFilter

/-- The texts that spell a filter: a pair of parentheses around an item, or around the texts of the
clauses behind the character of their connective. This says nothing of where a reader stands, so it
is compared with what the reader passes and leaves. -/
inductive Filter.SpelledAs : Filter → List Char → Prop where
  | leaf {a : Assertion} {x : List Char} (hx : a.SpelledAs x) :
    SpelledAs (leaf a) ('(' :: (x ++ [')']))
  | negation {f : Filter} {x : List Char} (hx : SpelledAs f x) :
    SpelledAs (negation f) ('(' :: '!' :: (x ++ [')']))
  | junction {c : Connective} {fs : List Filter} {x : List Char} (hne : fs ≠ [])
    (hx : Concat SpelledAs fs x) : SpelledAs (junction c fs) ('(' :: c.symbol :: (x ++ [')']))

theorem Filter.SpelledAs.exists_open {f : Filter} {x : List Char} (h : f.SpelledAs x) :
    ∃ y, x = '(' :: y := by
  cases h <;> exact ⟨_, rfl⟩

namespace Assertion.SpelledAs

variable {a : Assertion} {x : List Char}

/-- An item starts with a name or a colon, so that it is not taken for clauses. -/
theorem exists_cons (h : a.SpelledAs x) :
    ∃ c y, x = c :: y ∧ (Item.isNameChar c = true ∨ c = ':') := by
  have hnamed {name : String} (hname : Item.IsName name) (rest : List Char) :
      ∃ c y, name.toList ++ rest = c :: y ∧ (Item.isNameChar c = true ∨ c = ':') := by
    have hne : name.toList ≠ [] := by
      simpa using hname.1
    obtain ⟨c, y, hcons⟩ := List.exists_cons_of_ne_nil hne
    refine ⟨c, y ++ rest, by rw [hcons, List.cons_append], .inl (hname.2 c ?_)⟩
    rw [hcons]
    exact List.mem_cons_self
  cases h with
  | presence hname => exact hnamed hname _
  | equality hname _ _ => exact hnamed hname _
  | substring hname _ _ => exact hnamed hname _
  | ordering hname _ _ => exact hnamed hname _
  | @extensible e flag rule value htype hflag hrule _ _ _ =>
    cases hmatch : e.matchType with
    | none =>
      obtain ⟨text, htext⟩ := Item.exists_colon hflag hrule ('=' :: value)
      exact ⟨':', text, htext, .inr rfl⟩
    | some name => exact hnamed (htype name hmatch) _

/-- No parenthesis stands in an item. -/
theorem notMem (h : a.SpelledAs x) {c : Char} (hc : c = '(' ∨ c = ')') : c ∉ x := by
  have hsymbols : c ∉ ['=', '*', ':', '>', '<', '~'] := by
    rcases hc with rfl | rfl <;> decide
  simp only [List.mem_cons, List.not_mem_nil, or_false, not_or] at hsymbols
  obtain ⟨hequals, hstar, hcolon, hgreater, hless, htilde⟩ := hsymbols
  have hname {name : String} (h : Item.IsName name) : c ∉ name.toList := by
    apply Item.notMem_of_forall h.2
    rcases hc with rfl | rfl <;> decide
  have hvalue {value : List Char} {bs : Octets} (h : Escaped.Denotes value bs) : c ∉ value := by
    rcases hc with rfl | rfl
    · exact h.notMem_paren.1
    · exact h.notMem_paren.2
  cases h with
  | presence hn => simp [hname hn, hequals, hstar]
  | equality hn hv _ => simp [hname hn, hequals, hvalue hv]
  | substring hn hv _ =>
    have hfragments := hv.notMem_paren
    rcases hc with rfl | rfl
    · simp [hname hn, hfragments.1]
    · simp [hname hn, hfragments.2]
  | @ordering op _ _ _ hn _ hv =>
    cases op <;> simp [Comparison.symbol, hname hn, hequals, hgreater, hless, htilde, hvalue hv]
  | @extensible e flag rule value htype hflag hrule _ hv _ =>
    have htypeText : c ∉ e.matchType.elim [] String.toList := by
      cases hmatch : e.matchType with
      | none => simp
      | some name => exact hname (htype name hmatch)
    have hflagText : c ∉ flag := by
      apply hflag.notMem hcolon
      rcases hc with rfl | rfl <;> decide
    have hruleText : c ∉ rule := by
      apply hrule.notMem hcolon
      rcases hc with rfl | rfl <;> decide
    simp [htypeText, hflagText, hruleText, hcolon, hequals, hvalue hv]

end Assertion.SpelledAs

namespace Parsing

/-- An item is read up to the first closing parenthesis. -/
theorem item_eq_ok_iff {text rest : List Char} {a : Assertion} :
    item text = .ok (a, rest) ↔ ∃ x, a.SpelledAs x ∧ text = x ++ ')' :: rest := by
  unfold item
  constructor
  · intro h
    have htext := List.takeWhile_append_dropWhile (p := (· != ')')) (l := text)
    have hitem := List.all_eq_true.1 (List.all_takeWhile (p := (· != ')')) (l := text))
    have hstop := List.head?_dropWhile_not (· != ')') text
    generalize text.takeWhile (· != ')') = x at h htext hitem
    generalize text.dropWhile (· != ')') = tail at h htext hstop
    cases tail with
    | nil => cases h
    | cons c tail =>
      simp only [Except.bind_eq_ok_iff, Except.pure_eq_ok_iff] at h
      obtain ⟨a, hread, hpair⟩ := h
      cases hpair
      have hclose : ')' ∉ x := by
        intro hmem
        exact absurd (hitem _ hmem) (by decide)
      obtain rfl : c = ')' := by simpa using hstop
      exact ⟨x, (Item.read_eq_ok_iff hclose).1 hread, htext.symm⟩
  · rintro ⟨x, hx, rfl⟩
    have hclose := hx.notMem (.inr rfl)
    have hitem : ∀ c ∈ x, (c != ')') = true := by
      intro c hc
      rw [bne_iff_ne]
      rintro rfl
      exact hclose hc
    rw [List.takeWhile_append_of_pos hitem, List.dropWhile_append_of_pos hitem]
    simp [(Item.read_eq_ok_iff hclose).2 hx]

section
variable {one : List Char → Except FilterError (Filter × List Char)} {R : Filter → List Char → Prop}

/-- Clauses that were read stand one behind the other in front of the parenthesis that closes them,
and there is one at least. -/
theorem clauses_sound
    (hone : ∀ f text rest, one text = .ok (f, rest) → ∃ x, R f x ∧ text = x ++ rest)
    {n : Nat} {text rest : List Char} {fs : List Filter}
    (h : clauses one n text = .ok (fs, rest)) :
    fs ≠ [] ∧ ∃ x, Concat R fs x ∧ text = x ++ ')' :: rest := by
  induction n generalizing text fs with
  | zero => cases h
  | succ n ih =>
    simp only [clauses, Except.bind_eq_ok_iff] at h
    obtain ⟨⟨f, text'⟩, hf, h⟩ := h
    obtain ⟨x, hx, rfl⟩ := hone f text text' hf
    dsimp only at h
    split at h
    · cases h
    · cases h
      exact ⟨List.cons_ne_nil _ _, x, .singleton hx, rfl⟩
    · simp only [Except.bind_eq_ok_iff, Except.pure_eq_ok_iff] at h
      obtain ⟨⟨fs', rest'⟩, hfs, h⟩ := h
      cases h
      obtain ⟨_, y, hy, rfl⟩ := ih hfs
      exact ⟨List.cons_ne_nil _ _, x ++ y, .cons hx hy, by rw [List.append_assoc]⟩

/-- The texts of clauses, closed by a parenthesis, are read as the clauses, if there is one and the
budget allows for each character. -/
theorem clauses_complete {total : Nat}
    (hone : ∀ f x rest, R f x → (x ++ rest).length ≤ total → one (x ++ rest) = .ok (f, rest))
    (hopen : ∀ f x, R f x → ∃ y, x = '(' :: y)
    {n : Nat} {x rest : List Char} {fs : List Filter} (hx : Concat R fs x) (hne : fs ≠ [])
    (hsize : (x ++ ')' :: rest).length ≤ total) (hbudget : x.length ≤ n) :
    clauses one n (x ++ ')' :: rest) = .ok (fs, rest) := by
  induction hx generalizing n with
  | nil => exact absurd rfl hne
  | @cons f fs x y hf hfs ih =>
    rw [List.append_assoc] at hsize ⊢
    have hread := hone f x (y ++ ')' :: rest) hf hsize
    obtain ⟨x', rfl⟩ := hopen f x hf
    cases n with
    | zero => simp at hbudget
    | succ n =>
      rw [clauses, hread]
      -- A further clause opens a parenthesis, so that it is not taken for the end.
      cases hfs with
      | nil => rfl
      | @cons g gs y z hg hgs =>
        obtain ⟨y', rfl⟩ := hopen g y hg
        have hrest := ih (n := n) (List.cons_ne_nil g gs) ?_ ?_
        · have htail : (y' ++ z) ++ ')' :: rest = y' ++ (z ++ ')' :: rest) :=
            List.append_assoc y' z _
          rw [List.cons_append, List.cons_append, htail] at hrest
          simp only [List.cons_append, List.append_assoc]
          exact Except.bind_eq_ok_iff.2 ⟨_, rfl, Except.bind_eq_ok_iff.2 ⟨_, hrest, rfl⟩⟩
        · rw [List.length_append] at hsize
          omega
        · rw [List.length_append, List.length_cons] at hbudget
          omega

end

/-- What a reader of filters of at most `d` levels may give, and the text it passes. -/
def Accepts (d : Nat) (f : Filter) (x : List Char) : Prop :=
  f.SpelledAs x ∧ f.depth ≤ d

theorem Accepts.exists_open {d : Nat} {f : Filter} {x : List Char} (h : Accepts d f x) :
    ∃ y, x = '(' :: y :=
  h.1.exists_open

/-- Behind the character of a connective the clauses are read. -/
theorem filter_junction (total d : Nat) (c : Connective) (text : List Char) :
    filter total (d + 1) ('(' :: c.symbol :: text) = do
      let (fs, rest) ← clauses (filter total d) (total + 1) text
      return (.junction c fs, rest) := by
  cases c <;> rfl

/-- Behind a parenthesis that opens no clauses an item is read. -/
theorem filter_leaf (total d : Nat) {text : List Char}
    (hhead : ∀ c ∈ text.head?, c ≠ '&' ∧ c ≠ '|' ∧ c ≠ '!') :
    filter total (d + 1) ('(' :: text) = do
      let (a, rest) ← item text
      return (.leaf a, rest) := by
  cases text with
  | nil => rfl
  | cons c text =>
    obtain ⟨hand, hor, hnot⟩ := hhead c rfl
    rw [filter]
    · rintro _ ⟨⟩
      exact hand rfl
    · rintro _ ⟨⟩
      exact hor rfl
    · rintro _ ⟨⟩
      exact hnot rfl

theorem close_eq_ok_iff {text rest : List Char} : close text = .ok rest ↔ text = ')' :: rest := by
  unfold close
  split
  · simp
  · rename_i hne
    constructor
    · intro h
      cases h
    · intro h
      exact absurd h (hne rest)

/-- The texts by what a reader of filters finds at their start. -/
inductive Start : List Char → Prop where
  | junction (c : Connective) (text : List Char) : Start ('(' :: c.symbol :: text)
  | negation (text : List Char) : Start ('(' :: '!' :: text)
  | item {text : List Char} (hhead : ∀ c ∈ text.head?, c ≠ '&' ∧ c ≠ '|' ∧ c ≠ '!') : Start ('(' :: text)
  | other {text : List Char} (hhead : text.head? ≠ some '(') : Start text

theorem start (text : List Char) : Start text := by
  by_cases hopen : text.head? = some '('
  · obtain ⟨text, rfl⟩ := List.head?_eq_some_iff.1 hopen
    by_cases hand : text.head? = some '&'
    · obtain ⟨text, rfl⟩ := List.head?_eq_some_iff.1 hand
      exact .junction .and text
    by_cases hor : text.head? = some '|'
    · obtain ⟨text, rfl⟩ := List.head?_eq_some_iff.1 hor
      exact .junction .or text
    by_cases hnot : text.head? = some '!'
    · obtain ⟨text, rfl⟩ := List.head?_eq_some_iff.1 hnot
      exact .negation text
    refine .item ?_
    rintro c hc
    rw [Option.mem_def] at hc
    refine ⟨?_, ?_, ?_⟩
    · rintro rfl
      exact hand hc
    · rintro rfl
      exact hor hc
    · rintro rfl
      exact hnot hc
  · exact .other hopen

/-- Whatever depth is left, a filter is missed where no parenthesis opens. -/
theorem filter_other (total d : Nat) {text : List Char} (hhead : text.head? ≠ some '(') :
    filter total d text = .error (.parse (.missingParen (total - size text))) := by
  unfold filter
  split
  · exact absurd rfl hhead
  · exact absurd rfl hhead
  · rfl

/-- What a reader of filters has passed spells the filter that it gives, and this has no more levels
than were allowed. -/
theorem filter_sound {total d : Nat} {f : Filter} {text rest : List Char}
    (h : filter total d text = .ok (f, rest)) : ∃ x, Accepts d f x ∧ text = x ++ rest := by
  induction d generalizing f text rest with
  | zero =>
    unfold filter at h
    split at h
    · cases h
    · contradiction
    · cases h
  | succ d ih =>
    cases start text with
    | junction c text =>
      rw [filter_junction] at h
      simp only [Except.bind_eq_ok_iff, Except.pure_eq_ok_iff] at h
      obtain ⟨⟨fs, rest⟩, hfs, hpair⟩ := h
      cases hpair
      obtain ⟨hne, x, hx, rfl⟩ := clauses_sound (fun _ _ _ h => ih h) hfs
      refine ⟨_, ⟨.junction hne (hx.imp fun _ _ _ h => h.1), ?_⟩, by simp⟩
      rw [Filter.depth, Nat.add_le_add_iff_right, Filter.depthAll_le_iff]
      intro g hg
      obtain ⟨_, hg, _⟩ := hx.exists_of_mem hg
      exact hg.2
    | negation text =>
      simp only [filter, Except.bind_eq_ok_iff, Except.pure_eq_ok_iff, close_eq_ok_iff] at h
      obtain ⟨⟨g, rest'⟩, hg, _, hclose, hpair⟩ := h
      cases hpair
      dsimp only at hclose
      subst hclose
      obtain ⟨x, ⟨hx, hdepth⟩, rfl⟩ := ih hg
      exact ⟨_, ⟨.negation hx, Nat.succ_le_succ hdepth⟩, by simp⟩
    | item hhead =>
      rw [filter_leaf total d hhead] at h
      simp only [Except.bind_eq_ok_iff, Except.pure_eq_ok_iff] at h
      obtain ⟨⟨a, rest⟩, ha, hpair⟩ := h
      cases hpair
      obtain ⟨x, hx, rfl⟩ := item_eq_ok_iff.1 ha
      refine ⟨_, ⟨.leaf hx, ?_⟩, by simp⟩
      rw [Filter.depth]
      omega
    | other hhead =>
      rw [filter_other total _ hhead] at h
      cases h

/-- In front of the text of a filter, a reader that may enter as many levels reads that filter. -/
theorem filter_complete {total d : Nat} {f : Filter} {x rest : List Char} (hx : Accepts d f x)
    (hsize : (x ++ rest).length ≤ total) : filter total d (x ++ rest) = .ok (f, rest) := by
  induction d generalizing f x rest with
  | zero =>
    have hpos := f.depth_pos
    have hdepth := hx.2
    omega
  | succ d ih =>
    obtain ⟨hx, hdepth⟩ := hx
    cases hx with
    | @leaf a x ha =>
      have hitem : item (x ++ ')' :: rest) = .ok (a, rest) := item_eq_ok_iff.2 ⟨x, ha, rfl⟩
      have hhead : ∀ c ∈ (x ++ ')' :: rest).head?, c ≠ '&' ∧ c ≠ '|' ∧ c ≠ '!' := by
        obtain ⟨c, y, rfl, hc⟩ := ha.exists_cons
        rintro _ ⟨⟩
        refine ⟨?_, ?_, ?_⟩
        all_goals
          rintro rfl
          revert hc
          decide
      simp only [List.cons_append, List.append_assoc, List.nil_append]
      rw [filter_leaf total d hhead, hitem]
      rfl
    | @negation f x hf =>
      simp only [List.cons_append, List.append_assoc, List.nil_append, List.length_cons] at hsize ⊢
      rw [Filter.depth, Nat.add_le_add_iff_right] at hdepth
      have hread : filter total d (x ++ ')' :: rest) = .ok (f, ')' :: rest) :=
        ih ⟨hf, hdepth⟩ (by omega)
      rw [filter, hread]
      rfl
    | @junction c fs x hne hfs =>
      simp only [List.cons_append, List.append_assoc, List.nil_append, List.length_cons] at hsize ⊢
      rw [Filter.depth, Nat.add_le_add_iff_right, Filter.depthAll_le_iff] at hdepth
      have haccepts : Concat (Accepts d) fs x := hfs.imp fun f hf _ hx => ⟨hx, hdepth f hf⟩
      have hread : clauses (filter total d) (total + 1) (x ++ ')' :: rest) = .ok (fs, rest) := by
        refine clauses_complete (fun _ _ _ hx hsize => ih hx hsize) (fun _ _ h => h.exists_open)
          haccepts hne (by omega) ?_
        rw [List.length_append] at hsize
        omega
      rw [filter_junction, hread]
      rfl

/-- No text is so long that its own size does not bound what the reader looks at. -/
theorem length_le_size (text : List Char) : text.length ≤ size text := by
  induction text with
  | nil => exact Nat.le_refl _
  | cons c text ih =>
    have hpos := c.utf8Size_pos
    rw [size, List.length_cons]
    omega

/-- A whole text is accepted if it spells a filter that keeps to the levels, put in parentheses
where it does not start with one. -/
theorem whole_eq_ok_iff {d : Nat} {text : List Char} {f : Filter} :
    whole d text = .ok f ↔ text ≠ [] ∧ f.SpelledAs (wrap text) ∧ f.depth ≤ d := by
  unfold whole
  by_cases hempty : text = []
  · simp [hempty]
  rw [if_neg (by simpa using hempty)]
  dsimp only
  constructor
  · intro h
    split at h
    · cases h
    · rename_i g hread
      cases h
      obtain ⟨x, ⟨hx, hdepth⟩, htext⟩ := filter_sound hread
      rw [List.append_nil] at htext
      exact ⟨hempty, htext ▸ hx, hdepth⟩
    · cases h
  · rintro ⟨_, hx, hdepth⟩
    have hsize := length_le_size (wrap text)
    have hread : filter (size (wrap text)) d (wrap text ++ []) = .ok (f, []) :=
      filter_complete ⟨hx, hdepth⟩ (by simpa using hsize)
    rw [List.append_nil] at hread
    rw [hread]

end Parsing

namespace Filter

/-- Each level of a filter takes a pair of parentheses, and the innermost one holds something. -/
theorem SpelledAs.depth_le {f : Filter} {x : List Char} (hx : f.SpelledAs x) :
    f.depth + 2 ≤ x.length := by
  induction f generalizing x with
  | leaf a =>
    cases hx with
    | leaf ha =>
      obtain ⟨c, y, rfl, _⟩ := ha.exists_cons
      simp [depth]
  | negation f ih =>
    cases hx with
    | negation hf =>
      have hdepth := ih hf
      simp only [depth, List.length_cons, List.length_append]
      omega
  | junction c fs ih =>
    cases hx with
    | @junction _ _ x hne hfs =>
      have hclause : ∀ f ∈ fs, f.depth + 2 ≤ x.length := by
        intro f hf
        obtain ⟨y, hy, hle⟩ := hfs.exists_of_mem hf
        have hdepth := ih f hf hy
        omega
      obtain ⟨f, hf⟩ := List.exists_mem_of_ne_nil fs hne
      have hfirst := hclause f hf
      have hdepth : depthAll fs ≤ x.length - 2 := by
        rw [depthAll_le_iff]
        intro g hg
        have hg := hclause g hg
        omega
      simp only [depth, List.length_cons, List.length_append]
      omega

/-- Under a limit, what the parser accepts are the texts of the filters that keep to it. -/
theorem parseWithin_eq_ok_iff {d : Nat} {text : String} {f : Filter} :
    parseWithin d text = .ok f ↔
      text ≠ "" ∧ f.SpelledAs (Parsing.wrap text.toList) ∧ f.depth ≤ d := by
  rw [parseWithin, Parsing.whole_eq_ok_iff, ne_eq, String.toList_eq_nil_iff]

/-- Without a limit nothing is refused for its depth, since each level takes its parentheses. -/
theorem parse_eq_ok_iff {text : String} {f : Filter} :
    parse text = .ok f ↔ text ≠ "" ∧ f.SpelledAs (Parsing.wrap text.toList) := by
  rw [parse, parseWithin_eq_ok_iff]
  constructor
  · rintro ⟨hne, hx, _⟩
    exact ⟨hne, hx⟩
  · rintro ⟨hne, hx⟩
    refine ⟨hne, hx, ?_⟩
    have hdepth := hx.depth_le
    unfold Parsing.wrap at hdepth
    split_ifs at hdepth
    · omega
    · simp only [List.cons_append, List.length_cons, List.length_append, List.length_nil] at hdepth
      omega

end Filter

end SearchFilter
