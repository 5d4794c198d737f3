import Jos.Ring

/-!
The input buffer of the console.

Characters that come in are put into a ring, and `cons_getc` takes them out. Nobody looks whether there
is room: a ring that is filled up is an empty one.
-/

namespace Jos.Console

open Jos.Ring List

def consBufSize : ℕ := 512

instance : NeZero consBufSize := ⟨by decide⟩

structure Cons where
  buf : Fin consBufSize → UInt8
  rpos : Fin consBufSize
  wpos : Fin consBufSize

/-- A round of the loop of `cons_intr`, with what `proc` has returned -/
def put (s : Cons) (ch : UInt8) : Cons :=
  if ch = 0 then s else { s with buf := Function.update s.buf s.wpos ch, wpos := s.wpos + 1 }

/-- The end of `cons_getc`, where the devices have been polled -/
def grab (s : Cons) : Cons × UInt8 :=
  if s.rpos ≠ s.wpos then ({ s with rpos := s.rpos + 1 }, s.buf s.rpos) else (s, 0)

/-- A call of `cons_intr`, by what its device has, or one of `cons_getc`, which calls it for both -/
inductive Call
  | intr (chs : List UInt8)
  | getc (serial kbd : List UInt8)

/-- What a call does, one after the other -/
inductive Act
  | put (ch : UInt8)
  | grab

def Call.acts : Call → List Act
  | .intr chs => chs.map .put
  | .getc serial kbd => (serial ++ kbd).map .put ++ [.grab]

structure Log where
  cons : Cons
  received : List UInt8
  returned : List UInt8

def boot : Log := ⟨⟨fun _ => 0, 0, 0⟩, [], []⟩

def Log.act (l : Log) : Act → Log
  | .put ch => { l with cons := put l.cons ch, received := l.received ++ if ch = 0 then [] else [ch] }
  | .grab =>
    let (cons, ch) := grab l.cons
    { l with cons := cons, returned := l.returned ++ if ch = 0 then [] else [ch] }

def run (as : List Act) : Log := as.foldl Log.act boot

def later : ℕ → Cons → List UInt8
  | 0, _ => []
  | k + 1, s => if (grab s).2 = 0 then [] else (grab s).2 :: later k (grab s).1

def unread (s : Cons) : List UInt8 := later consBufSize s

/-- **A character that comes in** is not lost and makes no other one lost, unless there are too many; then
all but one of a buffer are kept. -/
def Kept (s : Cons) (ch : UInt8) : Prop :=
  unread (put s ch) = unread s ++ [ch] ∨
    consBufSize - 1 < (unread s ++ [ch]).length ∧ (unread (put s ch)).Sublist (unread s ++ [ch]) ∧
      consBufSize - 1 ≤ (unread (put s ch)).length

variable {s : Cons} {ch : UInt8} {l : Log} {as : List Act}

def Cons.queue (s : Cons) : List UInt8 := Ring.queue s.buf s.rpos s.wpos

structure Log.Inv (l : Log) : Prop where
  nonzero : 0 ∉ l.cons.queue
  order : (l.returned ++ l.cons.queue).Sublist l.received

lemma length_queue_lt (s : Cons) : s.queue.length < consBufSize := by
  simp [Cons.queue]

lemma grab_empty (h : s.queue = []) : grab s = (s, 0) := by
  refine if_neg (not_not.mpr ?_)
  by_contra hne
  rw [Cons.queue, queue_pop hne] at h
  cases h

lemma grab_cons {cs : List UInt8} (h : s.queue = ch :: cs) : (grab s).2 = ch ∧ (grab s).1.queue = cs := by
  have hne : s.rpos ≠ s.wpos := fun heq => by simp [Cons.queue, heq, queue_self] at h
  rw [Cons.queue, queue_pop hne] at h
  rw [grab, if_pos hne]
  exact cons.inj h

lemma later_eq (h0 : 0 ∉ s.queue) {k : ℕ} (hk : s.queue.length ≤ k) : later k s = s.queue := by
  induction k generalizing s with
  | zero => simpa [later] using hk
  | succ k ih =>
    cases hq : s.queue with
    | nil => simp [later, grab_empty hq]
    | cons c cs =>
      obtain ⟨hch, hcs⟩ := grab_cons hq
      rw [hq] at h0 hk
      have hc : c ≠ 0 := fun hc => h0 (by simp [hc])
      rw [later, hch, if_neg hc, ih (by rw [hcs]; exact fun hmem => h0 (by simp [hmem])) (by simpa [hcs] using hk), hcs]

lemma unread_eq (h0 : 0 ∉ s.queue) : unread s = s.queue := later_eq h0 (length_queue_lt s).le

lemma put_queue (hch : ch ≠ 0) :
    (put s ch).queue = if s.queue.length < consBufSize - 1 then s.queue ++ [ch] else [] := by
  rw [put, if_neg hch]
  by_cases hfull : s.wpos + 1 = s.rpos
  · have hlen : s.queue.length + 1 = consBufSize := by
      rw [Cons.queue, length_queue]
      exact val_of_succ_eq_zero (by rw [← add_sub_right_comm, hfull, sub_self])
    rw [if_neg (by omega), Cons.queue, ← hfull, queue_self]
  · have hlen : s.queue.length + 1 < consBufSize := by
      have hlt := (s.wpos + 1 - s.rpos).isLt
      rw [length_push hfull] at hlt
      rwa [Cons.queue, length_queue]
    have hsame : Ring.queue (Function.update s.buf s.wpos ch) s.rpos s.wpos = s.queue :=
      queue_congr fun i hi => Function.update_of_ne (fun heq => not_inRange_tail (heq ▸ hi)) ..
    rw [if_pos (by omega), Cons.queue, queue_push hfull, hsame]
    simp

lemma Log.Inv.put (h : l.Inv) (ch : UInt8) : (l.act (.put ch)).Inv := by
  by_cases hch : ch = 0
  · simpa [Log.act, Console.put, hch] using h
  have hq := put_queue (s := l.cons) hch
  simp only [Log.act, if_neg hch]
  split_ifs at hq with hroom
  · refine ⟨?_, ?_⟩
    · simpa [hq, Ne.symm hch] using h.nonzero
    · simpa [hq] using h.order.append (.refl [ch])
  · refine ⟨by simp [hq], ?_⟩
    simpa [hq] using ((sublist_append_left ..).trans h.order).trans (sublist_append_left _ [ch])

lemma Log.Inv.grab (h : l.Inv) : (l.act .grab).Inv := by
  cases hq : l.cons.queue with
  | nil => simpa [Log.act, grab_empty hq] using h
  | cons c cs =>
    obtain ⟨hch, hcs⟩ := grab_cons hq
    obtain ⟨h0, horder⟩ := h
    rw [hq] at h0 horder
    have hc : c ≠ 0 := fun hc => h0 (by simp [hc])
    refine ⟨?_, ?_⟩
    · simpa [Log.act, hcs] using fun hmem => h0 (by simp [hmem])
    · simpa [Log.act, hch, hcs, hc] using horder

lemma run_inv (as : List Act) : (run as).Inv := by
  induction as using reverseRecOn with
  | nil => exact ⟨by decide, by decide⟩
  | append_singleton as a ih =>
    rw [run, foldl_append]
    cases a with
    | put ch => exact ih.put ch
    | grab => exact ih.grab

lemma kept_iff (h : l.Inv) (hch : ch ≠ 0) : Kept l.cons ch ↔ (unread l.cons).length < consBufSize - 1 := by
  have h' : unread (put l.cons ch) = (put l.cons ch).queue := unread_eq (h.put ch).nonzero
  rw [Kept, h', unread_eq h.nonzero, put_queue hch]
  split_ifs with hroom
  · simp [hroom]
  · simpa [consBufSize] using hroom

/-- **The console returns what came in, in order, and loses nothing** exactly as long as, whenever a
character comes in, one more would have fit. -/
theorem cons_getc_keeps_iff (calls : List Call) :
    (run (calls.flatMap Call.acts)).returned.Sublist (run (calls.flatMap Call.acts)).received ∧
      ((∀ as ch, as ++ [.put ch] <+: calls.flatMap Call.acts → ch ≠ 0 → Kept (run as).cons ch) ↔
        ∀ as ch, as ++ [.put ch] <+: calls.flatMap Call.acts → ch ≠ 0 →
          (unread (run as).cons).length < consBufSize - 1) := by
  refine ⟨(sublist_append_left ..).trans (run_inv _).order, ?_⟩
  exact forall₄_congr fun as ch _ hch => kept_iff (run_inv as) hch

lemma cons_replicate_succ (k : ℕ) (ch : UInt8) : (run (Call.acts (.intr (List.replicate (k + 1) ch)))).cons =
    put (run (Call.acts (.intr (List.replicate k ch)))).cons ch := by
  simp [run, Call.acts, replicate_succ', Log.act]

lemma queue_replicate (hch : ch ≠ 0) {k : ℕ} (hk : k < consBufSize) :
    (run (Call.acts (.intr (List.replicate k ch)))).cons.queue = List.replicate k ch := by
  induction k with
  | zero => rfl
  | succ k ih =>
    rw [cons_replicate_succ, put_queue hch, ih (by omega), length_replicate, if_pos (by omega), replicate_succ']

/-- A whole buffer of characters that nobody takes out, and none is returned. -/
theorem full_buffer_lost :
    unread (run (Call.acts (.intr (List.replicate 512 97)))).cons = [] ∧
      (unread (run (Call.acts (.intr (List.replicate 511 97)))).cons).length = 511 ∧
      ¬Kept (run (Call.acts (.intr (List.replicate 511 97)))).cons 97 := by
  have hqueue : (run (Call.acts (.intr (replicate 511 97)))).cons.queue = _ := queue_replicate (by decide) (by decide)
  have hlen : (unread (run (Call.acts (.intr (replicate 511 97)))).cons).length = 511 := by
    rw [unread_eq (run_inv _).nonzero, hqueue, length_replicate]
  refine ⟨?_, hlen, fun hkept => ?_⟩
  · rw [unread_eq (run_inv _).nonzero, cons_replicate_succ 511, put_queue (by decide), hqueue, length_replicate]
    rfl
  · rw [kept_iff (run_inv _) (by decide), hlen] at hkept
    exact absurd hkept (by decide)

end Jos.Console
