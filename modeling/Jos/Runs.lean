import Mathlib.Data.List.Basic

/-!
Runs of a machine that may stop with an error: what one step preserves, a whole run preserves.
-/

namespace Jos.Runs

open List

variable {σ ι ε : Type} {step : σ → ι → Except ε σ} {Inv : σ → Prop} {P : ι → Prop}
  {s s' t : σ} {e : ε} {i : ι} {is : List ι}

/-- The state after the inputs, unless a step fails. -/
def run (step : σ → ι → Except ε σ) : σ → List ι → Except ε σ
  | s, [] => .ok s
  | s, i :: is =>
    match step s i with
    | .ok s' => run step s' is
    | .error e => .error e

@[simp] lemma run_nil (s : σ) : run step s [] = .ok s := rfl

lemma run_cons_ok (h : step s i = .ok s') : run step s (i :: is) = run step s' is := by
  rw [run, h]

lemma run_cons_error (h : step s i = .error e) : run step s (i :: is) = .error e := by
  rw [run, h]

lemma run_append_ok (h : run step s is = .ok t) (js : List ι) : run step s (is ++ js) = run step t js := by
  induction is generalizing s with
  | nil =>
    cases h
    rfl
  | cons i is ih =>
    rw [cons_append]
    cases hs : step s i with
    | error e => rw [run_cons_error hs] at h; cases h
    | ok s' =>
      rw [run_cons_ok hs] at h ⊢
      exact ih h

lemma run_singleton (s : σ) (i : ι) : run step s [i] = step s i := by
  cases hs : step s i with
  | error e => exact run_cons_error hs
  | ok s' => exact run_cons_ok hs

lemma run_snoc_ok (h : run step s is = .ok t) (i : ι) : run step s (is ++ [i]) = step t i := by
  rw [run_append_ok h, run_singleton]

lemma run_snoc_inv (h : run step s (is ++ [i]) = .ok t) : ∃ u, run step s is = .ok u ∧ step u i = .ok t := by
  induction is generalizing s with
  | nil =>
    cases hs : step s i with
    | error e => rw [nil_append, run_cons_error hs] at h; cases h
    | ok s' =>
      rw [nil_append, run_cons_ok hs] at h
      cases h
      exact ⟨s, rfl, hs⟩
  | cons j is ih =>
    rw [cons_append] at h
    cases hs : step s j with
    | error e => rw [run_cons_error hs] at h; cases h
    | ok s' =>
      rw [run_cons_ok hs] at h ⊢
      exact ih h

/-- A run fails where a step from a state it reaches fails. -/
theorem run_error_iff : run step s is = .error e ↔
      ∃ pre i t, pre ++ [i] <+: is ∧ run step s pre = .ok t ∧ step t i = .error e := by
  constructor
  · intro h
    induction is generalizing s with
    | nil => cases h
    | cons i is ih =>
      cases hs : step s i with
      | error e' =>
        rw [run_cons_error hs] at h
        cases h
        exact ⟨[], i, s, ⟨is, rfl⟩, rfl, hs⟩
      | ok s' =>
        rw [run_cons_ok hs] at h
        obtain ⟨pre, j, t, hpre, hrun, ht⟩ := ih h
        exact ⟨i :: pre, j, t, cons_prefix_cons.mpr ⟨rfl, hpre⟩, (run_cons_ok hs).trans hrun, ht⟩
  · rintro ⟨pre, i, t, ⟨post, rfl⟩, hrun, ht⟩
    rw [append_assoc, run_append_ok hrun]
    exact run_cons_error ht

instance {s : σ} {is : List ι} {Q : σ → Prop} [DecidablePred Q] :
    Decidable (∃ t, run step s is = .ok t ∧ Q t) :=
  match run step s is with
  | .ok t => decidable_of_iff (Q t) ⟨fun hq => ⟨t, rfl, hq⟩, fun ⟨_, ht, hq⟩ => Except.ok.inj ht ▸ hq⟩
  | .error _ => isFalse fun ⟨_, ht, _⟩ => nomatch ht

instance [DecidableEq ε] {s : σ} {is : List ι} {e : ε} : Decidable (run step s is = .error e) :=
  match run step s is with
  | .ok _ => isFalse nofun
  | .error e' => decidable_of_iff (e' = e) ⟨congrArg _, Except.error.inj⟩

/-- **The invariant rule**, for steps that keep the invariant under a condition on the state before. -/
theorem run_inv_when {C : σ → ι → Prop}
    (hstep : ∀ s i s', Inv s → C s i → step s i = .ok s' → Inv s') {s t : σ} {is : List ι}
    (h0 : Inv s) (hC : ∀ pre i u, pre ++ [i] <+: is → run step s pre = .ok u → C u i)
    (h : run step s is = .ok t) : Inv t := by
  induction is generalizing s with
  | nil =>
    cases h
    exact h0
  | cons i is ih =>
    cases hs : step s i with
    | error e => rw [run_cons_error hs] at h; cases h
    | ok s' =>
      rw [run_cons_ok hs] at h
      refine ih (hstep s i s' h0 (hC [] i s ⟨is, rfl⟩ rfl) hs) (fun pre j u hpre hu => ?_) h
      exact hC (i :: pre) j u (cons_prefix_cons.mpr ⟨rfl, hpre⟩) ((run_cons_ok hs).trans hu)

theorem run_inv (hstep : ∀ s i s', Inv s → P i → step s i = .ok s' → Inv s') {s t : σ}
    {is : List ι} (h0 : Inv s) (hP : ∀ i ∈ is, P i) (h : run step s is = .ok t) : Inv t :=
  run_inv_when (C := fun _ i => P i) hstep h0 (fun _ i _ hpre _ => hP i (hpre.subset (by simp))) h

/-- Every step of a run meets a condition on the state before it. -/
def Meets (step : σ → ι → Except ε σ) (C : σ → ι → Prop) : σ → List ι → Prop
  | _, [] => True
  | s, i :: is =>
    C s i ∧
      match step s i with
      | .ok s' => Meets step C s' is
      | .error _ => True

instance Meets.decidable {C : σ → ι → Prop} [∀ s, DecidablePred (C s)] :
    (s : σ) → (is : List ι) → Decidable (Meets step C s is)
  | _, [] => isTrue trivial
  | s, i :: is =>
    haveI : Decidable (match step s i with
        | .ok s' => Meets step C s' is
        | .error _ => True) :=
      match step s i with
      | .ok s' => Meets.decidable s' is
      | .error _ => isTrue trivial
    inferInstanceAs (Decidable (_ ∧ _))

lemma Meets.single {C : σ → ι → Prop} (h : C s i) : Meets step C s [i] := by
  refine ⟨h, ?_⟩
  split <;> trivial

lemma Meets.cons {C : σ → ι → Prop} (h : C s i) (hs : step s i = .ok s')
    (h' : Meets step C s' is) : Meets step C s (i :: is) := by
  refine ⟨h, ?_⟩
  rw [hs]
  exact h'

lemma Meets.along {C : σ → ι → Prop} (h : Meets step C s is) :
    ∀ pre i u, pre ++ [i] <+: is → run step s pre = .ok u → C u i := by
  intro pre
  induction pre generalizing s is with
  | nil =>
    rintro i u ⟨post, rfl⟩ hu
    cases hu
    exact h.1
  | cons j pre ih =>
    rintro i u ⟨post, rfl⟩ hu
    cases hs : step s j with
    | error e => rw [run_cons_error hs] at hu; cases hu
    | ok s' =>
      rw [run_cons_ok hs] at hu
      have hrest := h.2
      rw [hs] at hrest
      exact ih hrest i u ⟨post, rfl⟩ hu

/-- Where a step that misses the condition breaks the property, the property holds along a run
exactly if every step that is taken meets the condition. Another condition may be given. -/
theorem run_forall_iff_when {F C : σ → ι → Prop} {Good : σ → Prop}
    (hstep : ∀ s i s', Inv s → F s i → C s i → step s i = .ok s' → Inv s') (hgood : ∀ s, Inv s → Good s)
    (hbad : ∀ s i s', Inv s → F s i → ¬C s i → step s i = .ok s' → ¬Good s') {s : σ} (h0 : Inv s) (is : List ι)
    (hF : ∀ pre i t, pre ++ [i] <+: is → run step s pre = .ok t → F t i) :
    (∀ pre t, pre <+: is → run step s pre = .ok t → Good t) ↔
      ∀ pre i t t', pre ++ [i] <+: is → run step s pre = .ok t → step t i = .ok t' → C t i := by
  -- a run is one of steps that are taken
  have hinv : ∀ pre t, pre <+: is → (∀ pre' i u u', pre' ++ [i] <+: pre → run step s pre' = .ok u →
      step u i = .ok u' → C u i) → run step s pre = .ok t → Inv t := fun pre t hpre hC =>
    run_inv_when (C := fun s i => F s i ∧ ∀ s', step s i = .ok s' → C s i)
      (fun s i s' hs hc h => hstep s i s' hs hc.1 (hc.2 s' h) h) h0
      fun pre' i u hpre' hu => ⟨hF pre' i u (hpre'.trans hpre) hu, fun u' => hC pre' i u u' hpre' hu⟩
  constructor
  · intro hall pre
    -- by induction on the length: the steps before meet the condition
    induction hk : pre.length using Nat.strongRecOn generalizing pre with
    | ind k ih =>
      intro i t t' hpre hrun hs
      by_contra hn
      have hbefore := (prefix_append pre [i]).trans hpre
      have ht : Inv t := by
        refine hinv pre t hbefore (fun pre' j u u' hpre' hu hu' => ?_) hrun
        have hlen := hpre'.length_le
        rw [length_append, length_singleton] at hlen
        exact ih pre'.length (by omega) pre' rfl j u u' (hpre'.trans hbefore) hu hu'
      exact hbad t i t' ht (hF pre i t hpre hrun) hn hs (hall _ t' hpre ((run_snoc_ok hrun i).trans hs))
  · intro hC pre t hpre hrun
    exact hgood t (hinv pre t hpre (fun pre' i u u' h hu hs => hC pre' i u u' (h.trans hpre) hu hs) hrun)

/-- As before, where a step that misses the condition is always taken. -/
theorem run_forall_iff {C : σ → ι → Prop} {Good : σ → Prop}
    (hstep : ∀ s i s', Inv s → C s i → step s i = .ok s' → Inv s') (hgood : ∀ s, Inv s → Good s)
    (hbad : ∀ s i, Inv s → ¬C s i → ∃ s', step s i = .ok s' ∧ ¬Good s') {s : σ} (h0 : Inv s)
    (is : List ι) :
    (∀ pre t, pre <+: is → run step s pre = .ok t → Good t) ↔
      ∀ pre i t, pre ++ [i] <+: is → run step s pre = .ok t → C t i := by
  have hbroken : ∀ s i s', Inv s → True → ¬C s i → step s i = .ok s' → ¬Good s' := by
    intro s i s' hs _ hn hs'
    obtain ⟨s'', hs'', hbroken⟩ := hbad s i hs hn
    exact Except.ok.inj (hs''.symm.trans hs') ▸ hbroken
  have hiff := run_forall_iff_when (F := fun _ _ => True) (fun s i s' hs _ => hstep s i s' hs) hgood hbroken h0
    is fun _ _ _ _ _ => trivial
  refine ⟨fun hall pre i t hpre hrun => ?_, fun hC => hiff.mpr fun pre i t t' hpre hrun _ => hC pre i t hpre hrun⟩
  have htaken := hiff.mp hall
  have ht : Inv t := run_inv_when (C := fun s i => ∀ s', step s i = .ok s' → C s i)
    (fun s i s' hs hc h => hstep s i s' hs (hc s' h) h) h0
    (fun pre' j u hpre' hu u' => htaken pre' j u u' ((hpre'.trans (prefix_append pre [i])).trans hpre) hu) hrun
  by_contra hn
  obtain ⟨t', hs, -⟩ := hbad t i ht hn
  exact hn (htaken pre i t t' hpre hrun hs)

/-- Where every step from a state with the invariant keeps it or fails for a reason, a run keeps
the invariant or meets such a reason. -/
theorem run_inv_or_error {B : ι → Prop}
    (hstep : ∀ s i, Inv s → (∃ s', step s i = .ok s' ∧ Inv s') ∨ step s i = .error e ∧ B i)
    (h0 : Inv s) (is : List ι) :
    (∃ t, run step s is = .ok t ∧ Inv t) ∨ run step s is = .error e ∧ ∃ i ∈ is, B i := by
  induction is generalizing s with
  | nil => exact .inl ⟨s, rfl, h0⟩
  | cons i is ih =>
    rcases hstep s i h0 with ⟨s', hs, hi⟩ | ⟨hs, hb⟩
    · rw [run_cons_ok hs]
      rcases ih hi with h | ⟨h, j, hj, hb⟩
      · exact .inl h
      · exact .inr ⟨h, j, by simp [hj], hb⟩
    · exact .inr ⟨run_cons_error hs, i, by simp, hb⟩

end Jos.Runs
