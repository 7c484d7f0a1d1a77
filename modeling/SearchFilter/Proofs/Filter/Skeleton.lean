import Mathlib
import SearchFilter.Proofs.Filter.TextForm

namespace SearchFilter

namespace Filter

mutual

/-- The filter with leaves that assert nothing. What its leaves hold can make a text unreadable, or
change which leaf is read, but not this. -/
def skeleton : Filter → Filter
  | leaf _ => empty
  | negation f => negation (skeleton f)
  | junction c fs => junction c (skeletonAll fs)

/-- The skeletons of some filters. -/
def skeletonAll : List Filter → List Filter
  | [] => []
  | f :: fs => skeleton f :: skeletonAll fs

end

end Filter

theorem Escaped.notMem_write (bs : Octets) {c : Char} (hc : c = '(' ∨ c = ')') : c ∉ write bs := by
  obtain ⟨hopen, hclose⟩ := (Item.denotes_write bs).notMem_paren
  rcases hc with rfl | rfl
  · exact hopen
  · exact hclose

/-- No parenthesis is written for fragments. -/
theorem Substrings.notMem_chars (s : Substrings) {c : Char} (hc : c = '(' ∨ c = ')') :
    c ∉ s.chars := by
  have hwrite (bs : Octets) : c ∉ Escaped.write bs := Escaped.notMem_write bs hc
  have hstar : c ≠ '*' := by
    rcases hc with rfl | rfl <;> decide
  simp [chars, hwrite, hstar]

/-- Whatever a leaf holds, no parenthesis is written for it. -/
theorem Assertion.notMem_chars (a : Assertion) {c : Char} (hc : c = '(' ∨ c = ')') :
    c ∉ a.chars := by
  have hwrite (bs : Octets) : c ∉ Escaped.write bs := Escaped.notMem_write bs hc
  have hname (s : String) : c ∉ Escaped.writeText s := hwrite (Utf8.encode s)
  have hplain : c ∉ ['=', '*', '>', '<', '~', ':', 'd', 'n'] := by
    rcases hc with rfl | rfl <;> decide
  simp only [List.mem_cons, List.not_mem_nil, or_false, not_or] at hplain
  cases a with
  | empty => exact List.not_mem_nil
  | comparison op name value =>
    have hop : c ∉ op.symbol := by
      cases op <;> simp [Comparison.symbol, hplain]
    simp [chars, hname, hop, hwrite]
  | presence name => simp [chars, hname, hplain]
  | substring name s => simp [chars, hname, hplain, s.notMem_chars hc]
  | extensible e =>
    have hoptional (text : Option String) (before : List Char) (hbefore : c ∉ before) :
        c ∉ (text.map (before ++ Escaped.writeText ·)).getD [] := by
      cases text with
      | none => exact List.not_mem_nil
      | some s => simp [hbefore, hname]
    have htype := hoptional e.matchType [] List.not_mem_nil
    have hrule := hoptional e.rule [':'] (by simp [hplain])
    have hflag : c ∉ if e.dnAttributes then [':', 'd', 'n'] else [] := by
      split <;> simp [hplain]
    simp only [chars, Extensible.chars, List.mem_append, not_or]
    exact ⟨⟨⟨⟨htype, hflag⟩, hrule⟩, by simp [hplain]⟩, hwrite e.value⟩

namespace Filter

theorem exists_open_chars (f : Filter) : ∃ text, f.chars = '(' :: text := by
  cases f <;> exact ⟨_, rfl⟩

/-- A text ends at the first parenthesis that closes it. -/
theorem eq_of_append_close {x z p q : List Char} (hx : ')' ∉ x) (hz : ')' ∉ z)
    (heq : x ++ ')' :: p = z ++ ')' :: q) : x = z := by
  have htake {x p : List Char} (hx : ')' ∉ x) : (x ++ ')' :: p).takeWhile (· != ')') = x := by
    have hall : ∀ c ∈ x, (c != ')') = true := by
      intro c hc
      apply bne_iff_ne.2
      rintro rfl
      exact hx hc
    rw [List.takeWhile_append_of_pos hall]
    simp
  rw [← htake hx (p := p), heq, htake hz]

/-- A text without parentheses, closed by one, does not start with a character that opens clauses. -/
theorem append_close_ne {x p q : List Char} {c : Char} (hopen : '(' ∉ x) (hc : c ≠ ')') :
    x ++ ')' :: p ≠ c :: '(' :: q := by
  intro heq
  rcases x with _ | ⟨d, _ | ⟨e, x⟩⟩
  · simp only [List.nil_append, List.cons.injEq] at heq
    exact hc heq.1.symm
  · simp at heq
  · simp only [List.cons_append, List.cons.injEq] at heq
    apply hopen
    simp [heq.2.1]

/-- Only a leaf is read from the text of a leaf, whatever follows it. -/
theorem exists_leaf_of_spelledAs {a : Assertion} {g : Filter} {y p q : List Char}
    (hy : g.SpelledAs y) (heq : (leaf a).chars ++ p = y ++ q) :
    (∃ b, g = leaf b) ∧ y = (leaf a).chars := by
  have hopen : '(' ∉ a.chars := a.notMem_chars (.inl rfl)
  have hclose : ')' ∉ a.chars := a.notMem_chars (.inr rfl)
  have hchars : (leaf a).chars = '(' :: (a.chars ++ [')']) := rfl
  rw [hchars] at heq ⊢
  cases hy with
  | @leaf b z hb =>
    simp only [List.cons_append, List.append_assoc, List.nil_append, List.cons.injEq, true_and] at heq
    have hitem := eq_of_append_close hclose (hb.notMem (.inr rfl)) heq
    exact ⟨⟨b, rfl⟩, by rw [hitem]⟩
  | @negation g z hg =>
    obtain ⟨tail, rfl⟩ := hg.exists_open
    simp only [List.cons_append, List.append_assoc, List.nil_append, List.cons.injEq, true_and] at heq
    exact absurd heq (append_close_ne hopen (by decide))
  | @junction c gs z hne hgs =>
    cases hgs with
    | nil => exact absurd rfl hne
    | cons hg _ =>
      obtain ⟨tail, rfl⟩ := hg.exists_open
      simp only [List.cons_append, List.append_assoc, List.nil_append, List.cons.injEq, true_and] at heq
      exact absurd heq (append_close_ne hopen (by cases c <;> decide))

section
variable {g : Filter} {y q text : List Char}

/-- Only a negation is read from a text that starts as one. -/
theorem exists_negation_of_spelledAs (hy : g.SpelledAs y) (heq : '(' :: '!' :: text = y ++ q) :
    ∃ g' z, g = negation g' ∧ g'.SpelledAs z ∧ y = '(' :: '!' :: (z ++ [')']) ∧
      text = z ++ ')' :: q := by
  cases hy with
  | leaf hb =>
    obtain ⟨d, z, rfl, hd⟩ := hb.exists_cons
    simp only [List.cons_append, List.cons.injEq, true_and] at heq
    rw [← heq.1] at hd
    exact absurd hd (by decide)
  | @negation g' z hg =>
    simp only [List.cons_append, List.append_assoc, List.nil_append, List.cons.injEq, true_and] at heq
    exact ⟨g', z, rfl, hg, rfl, heq⟩
  | @junction c gs z _ _ =>
    simp only [List.cons_append, List.cons.injEq, true_and] at heq
    exact absurd heq.1 (by cases c <;> decide)

/-- Only a junction is read from a text that starts as one, and its clauses from what follows. -/
theorem exists_junction_of_spelledAs {c : Connective} (hy : g.SpelledAs y) (heq : '(' :: c.symbol :: text = y ++ q) :
    ∃ gs z, g = junction c gs ∧ Concat SpelledAs gs z ∧ y = '(' :: c.symbol :: (z ++ [')']) ∧
      text = z ++ ')' :: q := by
  cases hy with
  | leaf hb =>
    obtain ⟨d, z, rfl, hd⟩ := hb.exists_cons
    simp only [List.cons_append, List.cons.injEq, true_and] at heq
    rw [← heq.1] at hd
    exact absurd hd (by cases c <;> decide)
  | negation _ =>
    simp only [List.cons_append, List.cons.injEq, true_and] at heq
    exact absurd heq.1 (by cases c <;> decide)
  | @junction d gs z _ hgs =>
    simp only [List.cons_append, List.append_assoc, List.nil_append, List.cons.injEq, true_and] at heq
    obtain ⟨hsymbol, htext⟩ := heq
    obtain rfl : c = d := by
      cases c <;> cases d <;> first | rfl | exact absurd hsymbol (by decide)
    exact ⟨gs, z, rfl, hgs, rfl, htext⟩

end

/-- Clauses are read from the text of clauses one for one, if this holds of each of them. -/
theorem skeletonAll_eq_of_concat {fs gs : List Filter} {z p q : List Char}
    (hclause : ∀ f ∈ fs, ∀ (g : Filter) (y p q : List Char), g.SpelledAs y → f.chars ++ p = y ++ q →
      g.skeleton = f.skeleton ∧ y = f.chars)
    (hz : Concat SpelledAs gs z) (heq : charsAll fs ++ ')' :: p = z ++ ')' :: q) :
    skeletonAll gs = skeletonAll fs ∧ z = charsAll fs := by
  induction fs generalizing gs z with
  | nil =>
    cases hz with
    | nil => exact ⟨rfl, rfl⟩
    | cons hg _ =>
      obtain ⟨tail, rfl⟩ := hg.exists_open
      simp [charsAll] at heq
  | cons f fs ih =>
    cases hz with
    | nil =>
      obtain ⟨tail, htail⟩ := exists_open_chars f
      simp [charsAll, htail] at heq
    | @cons g gs y z hg hgs =>
      rw [charsAll, List.append_assoc, List.append_assoc] at heq
      obtain ⟨hfirst, rfl⟩ := hclause f List.mem_cons_self g y _ _ hg heq
      have hrest := ih (fun f hf => hclause f (List.mem_cons_of_mem _ hf)) hgs (List.append_cancel_left heq)
      rw [skeletonAll, skeletonAll, charsAll, hfirst, hrest.1, hrest.2]
      exact ⟨rfl, rfl⟩

/-- A text that starts with the text of a filter and with that of a filter that can be read starts
with one text for both, and the two have one skeleton. -/
theorem skeleton_eq_of_spelledAs {f g : Filter} {y p q : List Char} (hy : g.SpelledAs y)
    (heq : f.chars ++ p = y ++ q) : g.skeleton = f.skeleton ∧ y = f.chars := by
  induction f generalizing g y p q with
  | leaf a =>
    obtain ⟨⟨b, rfl⟩, htext⟩ := exists_leaf_of_spelledAs hy heq
    exact ⟨rfl, htext⟩
  | negation f ih =>
    simp only [chars, List.cons_append, List.append_assoc, List.nil_append] at heq ⊢
    obtain ⟨g, z, rfl, hg, rfl, htext⟩ := exists_negation_of_spelledAs hy heq
    obtain ⟨hskeleton, rfl⟩ := ih hg htext
    exact ⟨congrArg negation hskeleton, rfl⟩
  | junction c fs ih =>
    simp only [chars, List.cons_append, List.append_assoc, List.nil_append] at heq ⊢
    obtain ⟨gs, z, rfl, hgs, rfl, htext⟩ := exists_junction_of_spelledAs hy heq
    obtain ⟨hskeleton, rfl⟩ := skeletonAll_eq_of_concat (fun f hf _ _ _ _ => ih f hf) hgs htext
    exact ⟨congrArg (junction c) hskeleton, rfl⟩

/-- Whatever stands in the names, rules and values of a filter, its text is read as a filter with the
same junctions, negations and leaves in the same places, or not at all. -/
theorem skeleton_eq_of_parse_render {f g : Filter} (hparse : parse f.render = .ok g) :
    g.skeleton = f.skeleton := by
  have hspelled : g.SpelledAs f.chars := parse_render_eq_ok_iff.1 hparse
  have heq : f.chars ++ [] = f.chars ++ [] := rfl
  exact (skeleton_eq_of_spelledAs hspelled heq).1

/-- A filter whose fields pretend to close their leaves and to open others. -/
def intruding : Filter :=
  junction .and [comparison .equal "uid>" (Utf8.encode "x)(|(uid=*"),
    negation (leaf (.presence "cn=*)(&"))]

/-- The leaves of the intruding filter are read as other leaves, each in its place. -/
theorem skeleton_of_intruding :
    ∃ g, parse intruding.render = .ok g ∧ g ≠ intruding ∧ g.skeleton = intruding.skeleton := by
  have hparse : parse intruding.render = .ok (junction .and
      [comparison .atLeast "uid" (Utf8.encode "x)(|(uid=*"),
        negation (substring "cn" { initial := some (Utf8.encode "*)(&="), any := [], final := none })]) := by
    cbv
  refine ⟨_, hparse, ?_, skeleton_eq_of_parse_render hparse⟩
  intro heq
  simp [intruding, comparison, junction.injEq] at heq

end Filter

end SearchFilter
