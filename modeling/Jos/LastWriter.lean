import Mathlib.Data.List.Basic
import Mathlib.Data.List.Nodup
import Mathlib.Data.List.Induction
import Mathlib.Data.Finset.Card
import Mathlib.Data.Finset.Dedup

/-!
A bounded last-writer-wins map: a list of bindings in the order in which their keys first came. A key
that is bound gets its new value in place; a new key goes to the end while there is room, and is
refused when there is none.
-/

namespace Jos.LastWriter

open List Prod

variable {K V : Type*} [DecidableEq K]

/-- Binding `k` to `v` with `room` more bindings allowed, and whether it was accepted. -/
def put (room : ℕ) : List (K × V) → K → V → List (K × V) × Bool
  | [], k, v => if 0 < room then ([(k, v)], true) else ([], false)
  | b :: l, k, v =>
    if b.1 = k then ((b.1, v) :: l, true)
    else (b :: (put room l k v).1, (put room l k v).2)

/-- One call of a map for at most `cap` bindings. -/
def insert (cap : ℕ) (l : List (K × V)) (c : K × V) : List (K × V) :=
  (put (cap - l.length) l c.1 c.2).1

def accepts (cap : ℕ) (l : List (K × V)) (c : K × V) : Bool :=
  (put (cap - l.length) l c.1 c.2).2

def lookup (l : List (K × V)) (k : K) : Option V := (l.find? fun b => b.1 = k).map Prod.snd

def run (cap : ℕ) (calls : List (K × V)) : List (K × V) := calls.foldl (insert cap) []

lemma run_snoc (cap : ℕ) (calls : List (K × V)) (c : K × V) :
    run cap (calls ++ [c]) = insert cap (run cap calls) c := by
  simp [run]

variable {l : List (K × V)} {k : K} {cap room : ℕ}

lemma put_refused {v : V} (h : (put room l k v).2 = false) : (put room l k v).1 = l ∧ k ∉ l.map Prod.fst := by
  induction l with
  | nil =>
    unfold put at h ⊢
    split at h
    · cases h
    · rename_i hr
      simp [hr]
  | cons b l ih =>
    unfold put at h ⊢
    split at h
    · cases h
    · rename_i hb
      obtain ⟨h1, h2⟩ := ih h
      refine ⟨by simp [hb, h1], ?_⟩
      rw [map_cons, mem_cons, not_or]
      exact ⟨fun e => hb e.symm, h2⟩

lemma put_keys (room : ℕ) (l : List (K × V)) (k : K) (v : V) : (put room l k v).1.map Prod.fst = l.map Prod.fst ∨
      k ∉ l.map Prod.fst ∧ (put room l k v).1.map Prod.fst = l.map Prod.fst ++ [k] := by
  induction l with
  | nil => unfold put; split <;> simp
  | cons b l ih =>
    unfold put
    split
    · left; simp
    · rename_i hb
      rcases ih with h | ⟨h1, h2⟩
      · left; simp [h]
      · right
        refine ⟨?_, by simp [h2]⟩
        rw [map_cons, mem_cons, not_or]
        exact ⟨fun e => hb e.symm, h1⟩

lemma lookup_put_self {v : V} (h : (put room l k v).2 = true) : lookup (put room l k v).1 k = some v := by
  induction l with
  | nil =>
    unfold put at h ⊢
    split at h
    · rename_i hr
      simp [hr, lookup]
    · cases h
  | cons b l ih =>
    unfold put at h ⊢
    split at h
    · rename_i hb
      simp [hb, lookup]
    · rename_i hb
      have := ih h
      simpa [hb, lookup] using this

lemma lookup_put_other (room : ℕ) (l : List (K × V)) {k k' : K} (v : V) (h : k' ≠ k) :
    lookup (put room l k v).1 k' = lookup l k' := by
  induction l with
  | nil => unfold put; split <;> simp [lookup, h.symm]
  | cons b l ih =>
    unfold put
    split
    · rename_i hb
      have : b.1 ≠ k' := by rw [hb]; exact h.symm
      simp [lookup, this]
    · simp only [lookup, find?_cons] at ih ⊢
      split
      · rfl
      · exact ih

lemma lookup_eq_none : lookup l k = none ↔ k ∉ l.map Prod.fst := by
  simp only [lookup, Option.map_eq_none_iff, find?_eq_none, mem_map, not_exists, not_and, decide_eq_true_eq]

theorem run_nodup (cap : ℕ) (calls : List (K × V)) : ((run cap calls).map Prod.fst).Nodup := by
  induction calls using reverseRecOn with
  | nil => simp [run]
  | append_singleton calls c ih =>
    rw [run_snoc, insert]
    rcases put_keys (cap - (run cap calls).length) (run cap calls) c.1 c.2 with h | ⟨h1, h2⟩
    · rwa [h]
    · rw [h2]
      refine List.Nodup.append ih (nodup_singleton _) ?_
      rw [disjoint_singleton]
      exact h1

/-- The value of the last call made with key `k`. -/
def lastValue (calls : List (K × V)) (k : K) : Option V :=
  ((calls.filter fun c => c.1 = k).getLast?).map Prod.snd

lemma lastValue_snoc (calls : List (K × V)) (c : K × V) (k : K) :
    lastValue (calls ++ [c]) k = if c.1 = k then some c.2 else lastValue calls k := by
  unfold lastValue
  rw [filter_append]
  by_cases h : c.1 = k <;> simp [h]

/-- **A bound key has its last value.** -/
theorem lookup_run (cap : ℕ) (calls : List (K × V))
    (h : (lookup (run cap calls) k).isSome) : lookup (run cap calls) k = lastValue calls k := by
  induction calls using reverseRecOn with
  | nil => simp [run, lookup] at h
  | append_singleton calls c ih =>
    rw [run_snoc, insert] at h ⊢
    rw [lastValue_snoc]
    by_cases hc : c.1 = k
    · rw [if_pos hc, ← hc]
      cases hp : (put (cap - (run cap calls).length) (run cap calls) c.1 c.2).2 with
      | true => exact lookup_put_self hp
      | false =>
        -- a refused key is not bound, so nothing is found under it
        obtain ⟨h1, h2⟩ := put_refused hp
        rw [← hc, h1, lookup_eq_none.mpr h2] at h
        cases h
    · rw [if_neg hc]
      rw [lookup_put_other _ _ _ (Ne.symm hc)] at h ⊢
      exact ih h

lemma isSome_insert {c : K × V} (h : (lookup l k).isSome) : (lookup (insert cap l c) k).isSome := by
  by_cases hc : c.1 = k
  · cases hp : (put (cap - l.length) l c.1 c.2).2 with
    | true => rw [insert, ← hc, lookup_put_self hp]; rfl
    | false => rw [insert, (put_refused hp).1]; exact h
  · rw [insert, lookup_put_other _ _ _ (Ne.symm hc)]; exact h

theorem isSome_of_accepted {pre : List (K × V)} {c : K × V}
    (h : accepts cap (run cap pre) c = true) (post : List (K × V)) :
    (lookup (run cap (pre ++ c :: post)) c.1).isSome := by
  induction post using reverseRecOn with
  | nil =>
    rw [run_snoc, insert, lookup_put_self h]; rfl
  | append_singleton post d ih =>
    rw [← cons_append, ← append_assoc, run_snoc]
    exact isSome_insert ih

lemma put_accepted (h : 0 < room) (l : List (K × V)) (k : K) (v : V) : (put room l k v).2 = true := by
  induction l with
  | nil => simp [put, h]
  | cons b l ih =>
    unfold put
    split
    · rfl
    · exact ih

lemma keys_insert (cap : ℕ) (l : List (K × V)) (c : K × V) : (insert cap l c).map Prod.fst = l.map Prod.fst ∨
      (insert cap l c).map Prod.fst = l.map Prod.fst ++ [c.1] :=
  (put_keys _ l c.1 c.2).imp_right And.right

lemma length_insert (cap : ℕ) (l : List (K × V)) (c : K × V) :
    (insert cap l c).length = l.length ∨ (insert cap l c).length = l.length + 1 := by
  rcases keys_insert cap l c with h | h
  · exact .inl (by simpa using congrArg length h)
  · exact .inr (by simpa using congrArg length h)

lemma mem_calls_of_mem_run {calls : List (K × V)}
    (h : k ∈ (run cap calls).map Prod.fst) : k ∈ calls.map Prod.fst := by
  induction calls using reverseRecOn with
  | nil => simp [run] at h
  | append_singleton calls c ih =>
    rw [run_snoc] at h
    rw [map_append, mem_append]
    rcases keys_insert cap (run cap calls) c with h1 | h1
    · exact .inl (ih (h1 ▸ h))
    · rw [h1, mem_append] at h
      exact h.imp ih id

lemma mem_run_of_room {calls : List (K × V)} (h : (run cap calls).length < cap)
    (hk : k ∈ calls.map Prod.fst) : k ∈ (run cap calls).map Prod.fst := by
  induction calls using reverseRecOn with
  | nil => simp at hk
  | append_singleton calls c ih =>
    rw [run_snoc] at h ⊢
    have hroom : (run cap calls).length < cap := by
      rcases length_insert cap (run cap calls) c with h1 | h1 <;> omega
    by_cases hc : k = c.1
    · rw [hc, ← not_not (a := c.1 ∈ _), ← lookup_eq_none, insert, lookup_put_self (put_accepted (by omega) _ _ _)]
      simp
    · have hk' : k ∈ calls.map fst := by simpa [hc] using hk
      have hold := ih hroom hk'
      rcases keys_insert cap (run cap calls) c with h1 | h1
      · rwa [h1]
      · rw [h1]
        exact mem_append_left _ hold

/-- **There is room exactly as long as there have been fewer keys than the map can bind.** -/
theorem length_run_lt_iff (cap : ℕ) (calls : List (K × V)) :
    (run cap calls).length < cap ↔ (calls.map Prod.fst).toFinset.card < cap := by
  have hcard : ((run cap calls).map fst).toFinset.card = (run cap calls).length := by
    rw [toFinset_card_of_nodup (run_nodup cap calls), length_map]
  have hsub : ((run cap calls).map fst).toFinset ⊆ (calls.map fst).toFinset := by
    intro k hk
    rw [mem_toFinset] at hk ⊢
    exact mem_calls_of_mem_run hk
  constructor
  · intro h
    have hsup : (calls.map fst).toFinset ⊆ ((run cap calls).map fst).toFinset := by
      intro k hk
      rw [mem_toFinset] at hk ⊢
      exact mem_run_of_room h hk
    have := Finset.card_le_card hsup
    omega
  · intro h
    have := Finset.card_le_card hsub
    omega

end Jos.LastWriter
