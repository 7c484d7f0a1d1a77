import Mathlib.Tactic.Common
import SearchFilter.Proofs.Ber.Reader
import SearchFilter.Proofs.Concat
import SearchFilter.Proofs.Recursion

namespace SearchFilter.Ber

namespace Read

section
variable {σ ι : Type} {R : ι → Octets → Prop} {stop : Nat} (add : σ → ι → Option σ)
  (step : σ → Read σ) (loop : Nat → σ → Read σ)

/-- A loop that adds one thing after the other has passed the octets of what it added. -/
theorem loop_sound (hzero : ∀ s, loop 0 s = pure s)
    (hsucc : ∀ n s, loop (n + 1) s = offset >>= fun o =>
      if o < stop then step s >>= loop n else pure s)
    (hstep : ∀ s s' r r', step s r = .ok s' r' →
      ∃ i x, R i x ∧ r.Passes x r' ∧ add s i = some s')
    {n : Nat} {s s' : σ} {r r' : Reader} (h : loop n s r = .ok s' r') :
    ∃ l x, Concat R l x ∧ r.Passes x r' ∧ l.foldlM add s = some s' := by
  induction n generalizing s r with
  | zero =>
    rw [hzero, pure_eq_ok_iff] at h
    obtain ⟨rfl, rfl⟩ := h
    exact ⟨[], [], .nil, .refl r, rfl⟩
  | succ n ih =>
    simp only [hsucc, bind_eq_ok_iff, offset_eq_ok_iff, ite_eq_ok_iff, pure_eq_ok_iff] at h
    obtain ⟨_, _, ⟨rfl, rfl⟩, ⟨_, s₁, r₁, hone, hrest⟩ | ⟨_, rfl, rfl⟩⟩ := h
    · obtain ⟨i, x, hx, hpasses, hadd⟩ := hstep s s₁ _ r₁ hone
      obtain ⟨l, y, hy, hpasses', hfold⟩ := ih hrest
      refine ⟨i :: l, x ++ y, .cons hx hy, hpasses.trans hpasses', ?_⟩
      rw [List.foldlM_cons, hadd]
      exact hfold
    · exact ⟨[], [], .nil, .refl _, rfl⟩

/-- Before the octets of things that can be added, the loop adds them all and ends behind them. -/
theorem loop_complete (hzero : ∀ s, loop 0 s = pure s)
    (hsucc : ∀ n s, loop (n + 1) s = offset >>= fun o =>
      if o < stop then step s >>= loop n else pure s)
    (hstep : ∀ s s' r t i x, R i x → add s i = some s' → r.Passes x t →
      ∃ m, step s r = .ok s' { t with length := m })
    (hnonempty : ∀ i x, R i x → x ≠ [])
    {n : Nat} {s s' : σ} {r t : Reader} {l : List ι} {x : Octets} (hx : Concat R l x)
    (hfold : l.foldlM add s = some s') (hpasses : r.Passes x t) (hstop : t.offset = stop)
    (hbudget : x.length ≤ n) : ∃ m, loop n s r = .ok s' { t with length := m } := by
  induction hx generalizing n s r with
  | nil =>
    obtain rfl : s = s' := Option.some.inj hfold
    have hr := hpasses.eq_of_nil
    refine ⟨r.length, ?_⟩
    cases n with
    | zero => rw [hzero, pure_eq_ok_iff, ← hr]; exact ⟨rfl, rfl⟩
    | succ n =>
      have hoffset := hpasses.offset_eq
      simp only [hsucc, bind_eq_ok_iff, offset_eq_ok_iff, ite_eq_ok_iff, pure_eq_ok_iff, ← hr]
      exact ⟨_, r, ⟨rfl, rfl⟩, .inr ⟨by simp at hoffset; omega, trivial, rfl⟩⟩
  | @cons i l x y hi _ ih =>
    rw [List.foldlM_cons, Option.bind_eq_bind, Option.bind_eq_some_iff] at hfold
    obtain ⟨s₁, hadd, hfold⟩ := hfold
    have hpos := List.length_pos_iff.2 (hnonempty i x hi)
    rw [List.length_append] at hbudget
    obtain ⟨r₁, hone, hrest, _⟩ := hpasses.split 0
    obtain ⟨m, hm⟩ := hstep s s₁ r r₁ i x hi hadd hone
    -- The step may leave another last length than `r₁` has, which no further step looks at.
    have hafter := hrest.withLength_left m
    cases n with
    | zero => omega
    | succ n =>
      obtain ⟨m', hm'⟩ := ih (n := n) hfold hafter (by omega)
      have hoffset := hpasses.offset_eq
      rw [List.length_append] at hoffset
      refine ⟨m', ?_⟩
      simp only [hsucc, bind_eq_ok_iff, offset_eq_ok_iff, ite_eq_ok_iff]
      exact ⟨_, r, ⟨rfl, rfl⟩, .inl ⟨by omega, s₁, _, hm, hm'⟩⟩

end

section
variable {α β σ : Type} {stop : Nat}

/-- Reads agree where they do the same and go on alike from there. -/
theorem bind_congr {m m' : Read α} {k k' : α → Read β} {r : Reader} (hm : m r = m' r)
    (hk : ∀ a s, m' r = .ok a s → k a s = k' a s) : (m >>= k) r = (m' >>= k') r := by
  change EStateM.bind m k r = EStateM.bind m' k' r
  unfold EStateM.bind
  rw [hm]
  cases h : m' r with
  | ok a s => exact hk a s h
  | error e s => rfl

/-- A round of a loop that steps on as long as the reader stands before `stop`, where `next` stands in for
the rounds behind it. -/
def whileBefore (stop : Nat) (step : σ → Read σ) (next : σ → Read σ) (s : σ) : Read σ := do
  if (← offset) < stop then next (← step s) else return s

/-- Whether a read takes something wherever it succeeds. -/
def Advances (m : Read α) : Prop :=
  ∀ a r r', m r = .ok a r' → r.offset < r'.offset

/-- A loop comes to an end, as each of its steps takes something: it is not ended by running out of
rounds. -/
theorem settles_whileBefore {step : σ → Read σ} (hstep : ∀ s, Advances (step s)) (loop : Nat → σ → Read σ)
    (hzero : ∀ s, loop 0 s = pure s)
    (hsucc : ∀ n s, loop (n + 1) s = offset >>= fun o =>
      if o < stop then step s >>= loop n else pure s) (s : σ) (r : Reader) :
    Settles (whileBefore stop step) (· s r) (stop - r.offset + 1) (loop (stop - r.offset) s r) := by
  have hround (next : σ → Read σ) (s : σ) (r : Reader) : whileBefore stop step next s r =
      if r.offset < stop then (step s >>= next) r else .ok s r := by
    change (if r.offset < stop then step s >>= next else pure s : Read σ) r = _
    split <;> rfl
  have hrounds : ∀ n, loop n = (whileBefore stop step)^[n] (loop 0) :=
    Settles.eq_iterate loop fun n => funext (hsucc n)
  rw [hrounds]
  -- What counts is how far a place lies before `stop`.
  refine Settles.of_rank_le (fun (f : σ → Read σ) (a : σ × Reader) => f a.1 a.2)
    (fun a => stop - a.2.offset) ?_ ?_ (a := (s, r)) (Nat.le_refl _)
  · rintro f g ⟨s, r⟩ hless
    dsimp only at hless ⊢
    rw [hround, hround]
    split_ifs with hbefore
    · refine bind_congr rfl fun s' r' h => hless (s', r') ?_
      have hoffset := hstep s s' r r' h
      dsimp only
      omega
    · rfl
  · rintro ⟨s, r⟩ hstop
    dsimp only at hstop ⊢
    rw [hround, if_neg (by omega), hzero]
    rfl

end

section
variable {α : Type} {one : Read α} {R : α → Octets → Prop} {stop : Nat}

private theorem append_before_succ (n : Nat) (s : List α) :
    (s ++ ·) <$> before one stop (n + 1) = offset >>= fun o =>
      if o < stop then (one >>= fun a => pure (s ++ [a])) >>= fun s => (s ++ ·) <$> before one stop n
      else pure s := by
  rw [before, map_bind]
  congr 1
  funext o
  split_ifs <;> simp

private theorem foldlM_append_singleton (s l : List α) :
    l.foldlM (fun s a => some (s ++ [a])) s = some (s ++ l) := by
  induction l generalizing s with
  | nil => simp
  | cons a l ih => simp [ih]

/-- What a loop has read lies in the octets it has passed, one thing behind the other. -/
theorem before_sound
    (hone : ∀ a r r', one r = .ok a r' → ∃ x, R a x ∧ r.Passes x r')
    {n : Nat} {as : List α} {r r' : Reader} (h : before one stop n r = .ok as r') :
    ∃ x, Concat R as x ∧ r.Passes x r' := by
  have hloop : ((([] : List α) ++ ·) <$> before one stop n) r = .ok as r' := by
    simpa using h
  obtain ⟨l, x, hx, hpasses, hfold⟩ := loop_sound (R := R) (fun s a => some (s ++ [a]))
    (fun s => one >>= fun a => pure (s ++ [a]))
    (fun n s => (s ++ ·) <$> before one stop n) (fun s => by simp [before])
    append_before_succ (by
      intro s s' r r' h
      simp only [bind_eq_ok_iff, pure_eq_ok_iff] at h
      obtain ⟨a, _, ha, rfl, rfl⟩ := h
      obtain ⟨x, hx, hpasses⟩ := hone a r _ ha
      exact ⟨a, x, hx, hpasses, rfl⟩) hloop
  rw [foldlM_append_singleton] at hfold
  cases hfold
  exact ⟨x, hx, hpasses⟩

/-- Before things that can be read, a loop reads them all, if none is empty and it may go round once
for each octet. -/
theorem before_complete
    (hone : ∀ a x r t, R a x → r.Passes x t → ∃ m, one r = .ok a { t with length := m })
    (hnonempty : ∀ a x, R a x → x ≠ [])
    {n : Nat} {as : List α} {x : Octets} {r t : Reader} (hx : Concat R as x)
    (hpasses : r.Passes x t) (hstop : t.offset = stop) (hbudget : x.length ≤ n) :
    ∃ m, before one stop n r = .ok as { t with length := m } := by
  obtain ⟨m, hm⟩ := loop_complete (fun s a => some (s ++ [a]))
    (fun s => one >>= fun a => pure (s ++ [a]))
    (fun n s => (s ++ ·) <$> before one stop n) (fun s => by simp [before])
    append_before_succ (by
      intro s s' r t a x ha hs hpasses
      cases hs
      obtain ⟨m, hm⟩ := hone a x r t ha hpasses
      refine ⟨m, ?_⟩
      simp only [bind_eq_ok_iff, pure_eq_ok_iff]
      exact ⟨a, _, hm, rfl, rfl⟩) hnonempty hx (foldlM_append_singleton [] as) hpasses hstop hbudget
  exact ⟨m, by simpa using hm⟩

/-- A loop that collects what it reads comes to an end, too. -/
theorem settles_before (hone : Advances one) (r : Reader) :
    Settles (whileBefore stop fun as => one >>= fun a => pure (as ++ [a])) (· [] r)
      (stop - r.offset + 1) (before one stop (stop - r.offset) r) := by
  have hstep (as : List α) : Advances (one >>= fun a => pure (as ++ [a])) := by
    intro _ r r' h
    simp only [bind_eq_ok_iff, pure_eq_ok_iff] at h
    obtain ⟨a, _, ha, _, rfl⟩ := h
    exact hone a r _ ha
  have hloop := settles_whileBefore hstep (fun n s => (s ++ ·) <$> before one stop n)
    (fun s => by simp [before]) append_before_succ [] r
  simpa using hloop

/-- Before the octets of some things, the first of them that cannot be read ends the loop. -/
theorem before_error {P : α → Prop} {E : FilterError → Prop}
    (hone : ∀ a x r t, R a x → P a → r.Passes x t → ∃ m, one r = .ok a { t with length := m })
    (hfail : ∀ a x r t, R a x → ¬P a → r.Passes x t → ∃ e s, one r = .error e s ∧ E e)
    (hnonempty : ∀ a x, R a x → x ≠ [])
    {n : Nat} {as : List α} {x : Octets} {r t : Reader} (hx : Concat R as x) (has : ∃ a ∈ as, ¬P a)
    (hpasses : r.Passes x t) (hstop : t.offset = stop) (hbudget : x.length ≤ n) :
    ∃ e s, before one stop n r = .error e s ∧ E e := by
  induction hx generalizing n r with
  | nil =>
    obtain ⟨_, hmem, _⟩ := has
    cases hmem
  | @cons a as x y ha _ ih =>
    have hpos := List.length_pos_iff.2 (hnonempty a x ha)
    have hoffset := hpasses.offset_eq
    rw [List.length_append] at hbudget hoffset
    obtain ⟨r₁, hfirst, hrest, _⟩ := hpasses.split 0
    cases n with
    | zero => omega
    | succ n =>
      have hbefore : r.offset < stop := by omega
      have hstep : before one stop (n + 1) r =
          (one >>= fun a => before one stop n >>= fun as => pure (a :: as)) r := by
        change (if r.offset < stop then _ else _ : Read (List α)) r = _
        rw [if_pos hbefore]
      rw [hstep]
      simp only [bind_eq_error_iff]
      by_cases hgood : P a
      · obtain ⟨m, hm⟩ := hone a x r r₁ ha hgood hfirst
        have hlater : ∃ b ∈ as, ¬P b := by
          obtain ⟨b, hmem, hbad⟩ := has
          rcases List.mem_cons.1 hmem with rfl | hmem
          · exact absurd hgood hbad
          · exact ⟨b, hmem, hbad⟩
        have hafter := hrest.withLength_left m
        obtain ⟨e, s, herror, he⟩ := ih (n := n) hlater hafter (by omega)
        exact ⟨e, s, .inr ⟨a, _, hm, .inl herror⟩, he⟩
      · obtain ⟨e, s, herror, he⟩ := hfail a x r r₁ ha hgood hfirst
        exact ⟨e, s, .inl herror, he⟩

end

end Read

end SearchFilter.Ber
