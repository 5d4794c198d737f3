import Jos.Runs

/-!
How a computation that may fail ends: what holds of its result, and which errors there can be.
-/

namespace Jos.Outcome

variable {ε α β : Type} {m : Except ε α} {f : α → Except ε β} {P Q : α → Prop} {R : β → Prop}
  {E : ε → Prop}

lemma bind_eq_error {e : ε} : m >>= f = .error e ↔ m = .error e ∨ ∃ a, m = .ok a ∧ f a = .error e := by
  cases m with
  | ok a =>
    refine ⟨fun h => .inr ⟨a, rfl, h⟩, ?_⟩
    rintro (h | ⟨a', h, hf⟩)
    · cases h
    · cases h
      exact hf
  | error e' =>
    refine ⟨fun h => .inl (congrArg _ (Except.error.inj h)), ?_⟩
    rintro (h | ⟨a, h, -⟩)
    · exact congrArg _ (Except.error.inj h)
    · cases h

/-- It returns a value with `Q`, or fails with an error with `E`. -/
def Ends (m : Except ε α) (Q : α → Prop) (E : ε → Prop) : Prop :=
  match m with
  | .ok a => Q a
  | .error e => E e

lemma Ends.ok {a : α} (h : Ends m Q E) (hm : m = .ok a) : Q a := by
  rwa [hm] at h

lemma Ends.error {e : ε} (h : Ends m Q E) (hm : m = .error e) : E e := by
  rwa [hm] at h

lemma ends_of (hok : ∀ a, m = .ok a → Q a) (herr : ∀ e, m = .error e → E e) : Ends m Q E := by
  cases m with
  | ok a => exact hok a rfl
  | error e => exact herr e rfl

lemma Ends.imp (h : Ends m P E) (hPQ : ∀ a, P a → Q a) : Ends m Q E :=
  ends_of (fun _ hm => hPQ _ (h.ok hm)) fun _ hm => h.error hm

lemma Ends.also (h : Ends m P E) (hok : ∀ a, m = .ok a → Q a) : Ends m (fun a => P a ∧ Q a) E :=
  ends_of (fun a hm => ⟨h.ok hm, hok a hm⟩) fun _ hm => h.error hm

lemma Ends.bind (h : Ends m P E) (hf : ∀ a, P a → Ends (f a) R E) : Ends (m >>= f) R E := by
  cases m with
  | ok a => exact hf a h
  | error e => exact h

lemma Ends.ite {c : Prop} [Decidable c] {m' : Except ε α} (h : c → Ends m Q E)
    (h' : ¬c → Ends m' Q E) : Ends (if c then m else m') Q E := by
  split
  · exact h ‹c›
  · exact h' ‹¬c›

end Jos.Outcome
