import Mathlib
import SearchFilter.Proofs.Filter.BinaryForm
import SearchFilter.Proofs.Filter.Rewriting
import SearchFilter.Proofs.Filter.TextForm

namespace SearchFilter

/-- Why a step of a session is refused. -/
inductive Refusal where
  /-- An operation on the filter fails. -/
  | failed (e : FilterError)
  | noSuchClause (n : Nat)
  /-- Nothing of the filter is left. -/
  | pruned
  deriving DecidableEq, Repr

/-- A step of a session. -/
inductive Edit where
  | addClause (clause : Filter)
  | setNegated (negated : Filter)
  | negate
  /-- The filter becomes the only clause of a junction. -/
  | enclose (c : Connective)
  /-- A clause takes the place of the filter. -/
  | select (n : Nat)
  | rewrite (g : Filter → Option Filter)
  /-- The filter is read from its text. -/
  | reparse
  /-- The filter is read from its binary form. -/
  | redecode

namespace Filter

/-- Whether a reader of texts gives this filter, up to views. -/
def IsParsed (f : Filter) : Prop :=
  ∃ text g, parse text = .ok g ∧ (g == f) = true

/-- The filters that a reader of texts gives, up to views, are those that a text can spell. -/
theorem isParsed_iff_textual {f : Filter} : f.IsParsed ↔ f.Textual := by
  constructor
  · rintro ⟨text, g, hparse, hequal⟩
    have htextual : g.Textual := textual_of_spelledAs (parse_eq_ok_iff.1 hparse).2
    rwa [← textual_withoutView, ← beq_iff.1 hequal, textual_withoutView]
  · intro h
    exact ⟨f.render, f.withoutView, parse_render_eq_ok_iff.2 (spelledAs_chars h),
      beq_iff.2 f.withoutView_withoutView⟩

end Filter

namespace Edit

/-- What a step makes of a filter, if it is not refused. -/
def result (f : Filter) : Edit → Except Refusal Filter
  | addClause clause => (f.addClause clause).mapError .failed
  | setNegated negated => (f.setNegated negated).mapError .failed
  | negate => .ok (.negation f)
  | enclose c => .ok (.junction c [f])
  | select n => (f.clauses[n]?).elim (.error (.noSuchClause n)) .ok
  | rewrite g => (f.rewrite g).elim (.error .pruned) .ok
  | reparse => (Filter.parse f.render).mapError .failed
  | redecode => (Filter.ofBer f.toBer).mapError .failed

/-- Takes a step in place. -/
def perform (e : Edit) : EStateM Refusal Filter Unit := do
  match e.result (← get) with
  | .ok f => set f
  | .error refusal => throw refusal

/-- The state after a step, whether it was taken or refused. -/
def after (f : Filter) (e : Edit) : Filter :=
  match e.perform f with
  | .ok _ g => g
  | .error _ g => g

/-- The state at the end of a session. -/
def session (edits : List Edit) (start : Filter) : Filter :=
  edits.foldl after start

/-- Whether what a step brings in keeps to filters that texts stand for. -/
def Admissible : Edit → Prop
  | addClause f | setNegated f => f.IsParsed
  | rewrite g => ∀ f h, f.IsParsed → g f = some h → h.IsParsed
  | negate | enclose _ | select _ | reparse | redecode => True

variable {f g : Filter} {e : Edit}

theorem perform_eq (e : Edit) (f : Filter) :
    e.perform f = match e.result f with
      | .ok g => .ok () g
      | .error refusal => .error refusal f := by
  change (match e.result f with
    | .ok g => set g
    | .error refusal => throw refusal : EStateM Refusal Filter Unit) f = _
  cases e.result f <;> rfl

theorem perform_of_result (h : e.result f = .ok g) : e.perform f = .ok () g := by
  rw [perform_eq, h]

/-- A step that is refused changes nothing. -/
theorem eq_of_perform_eq_error {refusal : Refusal} (h : e.perform f = .error refusal g) : g = f := by
  rw [perform_eq] at h
  cases hresult : e.result f with
  | ok g' =>
    rw [hresult] at h
    cases h
  | error refusal' =>
    rw [hresult] at h
    cases h
    rfl

end Edit

namespace Filter

variable {f g : Filter}

/-- A clause can be added to a junction and to nothing else, and comes last. -/
theorem addClause_eq_ok_iff {clause : Filter} :
    f.addClause clause = .ok g ↔ ∃ c fs, f = junction c fs ∧ g = junction c (fs ++ [clause]) := by
  cases f with
  | junction c fs =>
    rw [addClause, Except.ok.injEq]
    constructor
    · rintro rfl
      exact ⟨c, fs, rfl, rfl⟩
    · rintro ⟨_, _, ⟨⟩, rfl⟩
      rfl
  | _ => simp [addClause]

/-- The negated filter can be replaced in a negation and in nothing else. -/
theorem setNegated_eq_ok_iff {negated : Filter} :
    f.setNegated negated = .ok g ↔ ∃ f', f = negation f' ∧ g = negation negated := by
  cases f with
  | negation f => simp [setNegated, eq_comm]
  | _ => simp [setNegated]

/-- A clause of a filter that a text stands for is one, too. -/
theorem Textual.clause (hf : f.Textual) (hg : g ∈ f.clauses) : g.Textual := by
  cases hf with
  | leaf _ => cases hg
  | negation hf =>
    rw [List.mem_singleton.1 hg]
    exact hf
  | junction _ hfs => exact hfs g hg

/-- Rewriting leads from filters that texts stand for to others, if each replacement does. -/
theorem Textual.rewrite {replace : Filter → Option Filter}
    (hreplace : ∀ f h, f.Textual → replace f = some h → h.Textual) (hf : f.Textual)
    (h : rewrite replace f = some g) : g.Textual := by
  refine rewrite_induction (P := fun f g => f.Textual → g.Textual) ?_ ?_ ?_ h hf
  · intro a g hg hf
    exact hreplace _ _ hf hg
  -- What is replaced is not the node itself, but what its clauses have become, so it is not a part of
  -- the filter that is rewritten.
  · intro f node g hnode hg hf
    exact hreplace _ _ (.negation (hnode (textual_negation.1 hf))) hg
  · intro c fs kept g hkept hnodes hg hf
    refine hreplace _ _ (.junction hkept fun node hnode => ?_) hg
    obtain ⟨f, hmem, htextual⟩ := hnodes node hnode
    exact htextual ((textual_junction.1 hf).2 f hmem)

/-- A filter that a text stands for comes back from its octets without its views, if four digits
hold their number. -/
theorem Textual.ofBer_toBer (hf : f.Textual) (hsize : f.toBer.length < 2 ^ 32) :
    ofBer f.toBer = .ok f.withoutView :=
  (ofBer_toBer_eq_ok_iff hsize).2 ⟨rfl, hf.valid⟩

end Filter

namespace Edit

open SearchFilter.Filter

variable {f g start : Filter} {e : Edit} {edits : List Edit}

/-- A step leads from filters that texts stand for to others. -/
theorem textual_of_result (hf : f.Textual) (he : e.Admissible) (hsize : f.toBer.length < 2 ^ 32)
    (h : e.result f = .ok g) : g.Textual := by
  cases e with
  | addClause clause =>
    obtain ⟨c, fs, rfl, rfl⟩ := addClause_eq_ok_iff.1 (Except.mapError_eq_ok_iff.1 h)
    have hclause : clause.Textual := isParsed_iff_textual.1 he
    refine .junction (List.append_ne_nil_of_right_ne_nil _ (List.cons_ne_nil _ _)) ?_
    intro f' hf'
    rcases List.mem_append.1 hf' with hmem | hmem
    · exact (textual_junction.1 hf).2 f' hmem
    · rwa [List.mem_singleton.1 hmem]
  | setNegated negated =>
    obtain ⟨f', rfl, rfl⟩ := setNegated_eq_ok_iff.1 (Except.mapError_eq_ok_iff.1 h)
    exact .negation (isParsed_iff_textual.1 he)
  | negate =>
    cases h
    exact .negation hf
  | enclose c =>
    cases h
    exact .junction (List.cons_ne_nil _ _) (List.forall_mem_singleton.2 hf)
  | select n => exact hf.clause (List.mem_of_getElem? (Except.elim_eq_ok_iff.1 h))
  | rewrite replace =>
    apply hf.rewrite _ (Except.elim_eq_ok_iff.1 h)
    intro f' h' hf' hreplace
    exact isParsed_iff_textual.1 (he f' h' (isParsed_iff_textual.2 hf') hreplace)
  | reparse =>
    obtain rfl := Except.ok.inj (hf.parse_render.symm.trans (Except.mapError_eq_ok_iff.1 h))
    exact textual_withoutView.2 hf
  | redecode =>
    obtain rfl := Except.ok.inj ((hf.ofBer_toBer hsize).symm.trans (Except.mapError_eq_ok_iff.1 h))
    exact textual_withoutView.2 hf

/-- Taken or refused, a step leads from filters that texts stand for to others. -/
theorem textual_after (hf : f.Textual) (he : e.Admissible) (hsize : f.toBer.length < 2 ^ 32) :
    (after f e).Textual := by
  rw [after, perform_eq]
  cases hresult : e.result f with
  | ok g => exact textual_of_result hf he hsize hresult
  | error refusal => exact hf

/-- No session leaves the filters that texts stand for. -/
theorem textual_session (hstart : start.Textual) (hedits : ∀ e ∈ edits, e.Admissible)
    (hsize : ∀ done, done <+: edits → (session done start).toBer.length < 2 ^ 32) :
    (session edits start).Textual := by
  -- The bound on sizes is about the states on the way, so it is passed on for the second of them.
  induction edits generalizing start with
  | nil => exact hstart
  | cons e edits ih =>
    rw [List.forall_mem_cons] at hedits
    have hfirst := textual_after hstart hedits.1 (hsize [] (List.nil_prefix))
    apply ih hfirst hedits.2
    intro done hdone
    exact hsize (e :: done) (List.cons_prefix_cons.2 ⟨rfl, hdone⟩)

/-- A step is refused just where it has no result. -/
theorem refused_iff (e : Edit) (f : Filter) :
    (∃ refusal g, e.perform f = .error refusal g) ↔ ∀ g, e.result f ≠ .ok g := by
  rw [perform_eq]
  cases e.result f <;> simp

/-- Adding a clause is refused by all but junctions. -/
theorem addClause_refused_iff {clause : Filter} :
    (∃ refusal g, (addClause clause).perform f = .error refusal g) ↔ ∀ c fs, f ≠ .junction c fs := by
  simp only [refused_iff, result, ne_eq, Except.mapError_eq_ok_iff, addClause_eq_ok_iff, not_exists,
    not_and]
  constructor
  · intro h c fs hf
    exact h _ c fs hf rfl
  · intro h _ c fs hf
    exact absurd hf (h c fs)

/-- Replacing the negated filter is refused by all but negations. -/
theorem setNegated_refused_iff {negated : Filter} :
    (∃ refusal g, (setNegated negated).perform f = .error refusal g) ↔ ∀ f', f ≠ .negation f' := by
  simp only [refused_iff, result, ne_eq, Except.mapError_eq_ok_iff, setNegated_eq_ok_iff, not_exists,
    not_and]
  constructor
  · intro h f' hf
    exact h _ f' hf rfl
  · intro h _ f' hf
    exact absurd hf (h f')

/-- At every point of a session that starts with a filter that a text stands for, and brings in no
others, the filter comes back from its text and from its binary form, so reading either changes
nothing. A step that is refused changes nothing either; adding a clause is refused where there is no
junction, and replacing the negated filter where there is no negation, and nowhere else. -/
theorem session_round_trips {start f : Filter} {edits : List Edit} (hstart : start.IsParsed)
    (hedits : ∀ e ∈ edits, e.Admissible)
    (hsize : ∀ done, done <+: edits → (session done start).toBer.length < 2 ^ 32)
    (hend : session edits start = f) :
    (∃ g, parse f.render = .ok g ∧ (g == f) = true) ∧
      (∃ g, ofBer f.toBer = .ok g ∧ (g == f) = true) ∧
      (∀ e, e = reparse ∨ e = redecode → ∃ g, e.perform f = .ok () g ∧ (g == f) = true) ∧
      (∀ (e : Edit) (refusal : Refusal) (g : Filter), e.perform f = .error refusal g → g = f) ∧
      (∀ clause, (∃ refusal g, (addClause clause).perform f = .error refusal g) ↔
        ∀ c fs, f ≠ .junction c fs) ∧
      ∀ negated, (∃ refusal g, (setNegated negated).perform f = .error refusal g) ↔
        ∀ f', f ≠ .negation f' := by
  have htextual : (session edits start).Textual :=
    textual_session (isParsed_iff_textual.1 hstart) hedits hsize
  have hsize' := hsize edits (List.prefix_refl edits)
  rw [hend] at htextual hsize'
  have hparse := htextual.parse_render
  have hdecode := htextual.ofBer_toBer hsize'
  have hsame : (f.withoutView == f) = true := beq_iff.2 f.withoutView_withoutView
  refine ⟨⟨_, hparse, hsame⟩, ⟨_, hdecode, hsame⟩, ?_, ?_, fun _ => addClause_refused_iff,
    fun _ => setNegated_refused_iff⟩
  · rintro e (rfl | rfl)
    · exact ⟨_, perform_of_result (Except.mapError_eq_ok_iff.2 hparse), hsame⟩
    · exact ⟨_, perform_of_result (Except.mapError_eq_ok_iff.2 hdecode), hsame⟩
  · intro e refusal g
    exact eq_of_perform_eq_error

/-- Keeps every node but those about one attribute. -/
def withoutAttribute (name : String) (f : Filter) : Option Filter :=
  if f.attribute? = some name then none else some f

theorem admissible_withoutAttribute (name : String) : (rewrite (withoutAttribute name)).Admissible := by
  intro f h hf hkept
  unfold withoutAttribute at hkept
  split_ifs at hkept
  cases hkept
  exact hf

/-- A conjunction of two leaves, the second of which has a substring view. -/
def sampleStart : Filter :=
  .junction .and [.substring "cn" { initial := some [0x61], any := [], final := none },
    .leaf (.extensible
      { matchType := some "sn", rule := none, value := [0x62, 0x2A], dnAttributes := true,
        substrings := some { initial := some [0x62], any := [], final := none } })]

/-- Steps that lead through both forms. The second one that puts something in the place of a negated
filter is taken, the first one refused. -/
def sampleEdits : List Edit :=
  [addClause (.negation (.leaf (.presence "mail"))), rewrite (withoutAttribute "cn"), redecode,
    setNegated sampleStart, rewrite (withoutAttribute "sn"), select 0, setNegated sampleStart, reparse,
    enclose .or]

/-- The steps end with the filter that they started with, negated in a disjunction. There is no
negation at the top any more, so one more step of that kind is refused, and the filter still comes
back from its octets. -/
theorem sampleEdits_round_trip :
    sampleStart.IsParsed ∧ (∀ e ∈ sampleEdits, e.Admissible) ∧
      (∀ done, done <+: sampleEdits → (session done sampleStart).toBer.length < 2 ^ 32) ∧
      session sampleEdits sampleStart = .junction .or [.negation sampleStart.withoutView] ∧
      (∃ refusal, (setNegated sampleStart).perform (session sampleEdits sampleStart) =
        .error refusal (session sampleEdits sampleStart)) ∧
      ∃ g, redecode.perform (session sampleEdits sampleStart) = .ok () g ∧
        (g == session sampleEdits sampleStart) = true := by
  have hstart : sampleStart.IsParsed := by
    refine ⟨"&(cn=a*)(sn:dn:=b*)", sampleStart, ?_, rfl⟩
    cbv
  have hclause : (Filter.negation (.leaf (.presence "mail"))).IsParsed := by
    refine ⟨"!(mail=*)", .negation (.leaf (.presence "mail")), ?_, rfl⟩
    cbv
  have hedits : ∀ e ∈ sampleEdits, e.Admissible := by
    simp only [sampleEdits, List.forall_mem_cons, List.not_mem_nil, false_imp_iff, implies_true,
      and_true]
    refine ⟨hclause, admissible_withoutAttribute _, trivial, hstart, admissible_withoutAttribute _,
      trivial, hstart, trivial, trivial⟩
  have hsizes : ∀ done ∈ sampleEdits.inits, (session done sampleStart).toBer.length < 2 ^ 32 := by
    decide +kernel
  have hsize : ∀ done, done <+: sampleEdits → (session done sampleStart).toBer.length < 2 ^ 32 :=
    fun done hdone => hsizes done ((List.mem_inits _ _).2 hdone)
  have hend : session sampleEdits sampleStart = .junction .or [.negation sampleStart.withoutView] := by
    cbv
  obtain ⟨_, _, hreads, hkept, _, hrefused⟩ := session_round_trips hstart hedits hsize rfl
  refine ⟨hstart, hedits, hsize, hend, ?_, hreads _ (.inr rfl)⟩
  obtain ⟨refusal, g, hperform⟩ := (hrefused sampleStart).2 (by rw [hend]; simp)
  exact ⟨refusal, hkept _ _ _ hperform ▸ hperform⟩

end Edit

end SearchFilter
