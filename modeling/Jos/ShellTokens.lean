import Jos.ByteMem
import Mathlib.Data.List.TakeDrop
import Mathlib.Logic.Function.Iterate

/-!
The tokens of a shell command.

`gettoken` is one token ahead: with the call that returns a word the next token is looked for, and this
puts the NUL behind the word.
-/

namespace Jos.ShellTokens

open ByteMem List Function Nat

/-- `" \t\r\n"` -/
def whitespace : List UInt8 := [32, 9, 13, 10]

/-- `"<|>&;()"` -/
def symbols : List UInt8 := [60, 124, 62, 38, 59, 40, 41]

/-- `'w'` -/
def wordToken : UInt8 := 119

/-- The static variables of `gettoken`, and the memory with the command -/
structure Shell where
  mem : Bytes
  nc : UInt8
  np1 : Option ℕ
  np2 : Option ℕ

def skipWhite : ℕ → Bytes → ℕ → Bytes × ℕ
  | 0, m, s => (m, s)
  | n + 1, m, s => if m s ∈ whitespace then skipWhite n (Function.update m s 0) (s + 1) else (m, s)

def wordEnd : ℕ → Bytes → ℕ → ℕ
  | 0, _, s => s
  | n + 1, m, s => if m s ≠ 0 ∧ m s ∉ whitespace ++ symbols then wordEnd n m (s + 1) else s

/-- `nc = _gettoken(s, &np1, &np2)` -/
def scan (fuel : ℕ) (s : Option ℕ) (σ : Shell) : Shell :=
  match s with
  | none => { σ with nc := 0 }
  | some s =>
    let (m, s) := skipWhite fuel σ.mem s
    if m s = 0 then ⟨m, 0, none, none⟩
    else if m s ∈ symbols then ⟨Function.update m s 0, m s, some s, some (s + 1)⟩
    else ⟨m, wordToken, some s, some (wordEnd fuel m s)⟩

/-- `gettoken(s, 0)` -/
def gettokenInit (fuel s : ℕ) (σ : Shell) : Shell := scan fuel (some s) σ

/-- `gettoken(0, &t)`, with the token and `t` -/
def gettoken (fuel : ℕ) (σ : Shell) : Shell × UInt8 × Option ℕ := (scan fuel σ.np2 σ, σ.nc, σ.np1)

inductive Token
  | symbol (c : UInt8)
  | word (w : List UInt8)
  deriving DecidableEq, Repr

def Plain (c : UInt8) : Prop := c ∉ whitespace ∧ c ∉ symbols
  deriving Decidable

/-- **The tokens of a command.** -/
def tokens (cs : List UInt8) : List Token :=
  match h : cs.dropWhile (· ∈ whitespace) with
  | [] => []
  | c :: rest =>
    if c ∈ symbols then .symbol c :: tokens rest
    else .word (c :: rest.takeWhile (Plain ·)) :: tokens (rest.dropWhile (Plain ·))
termination_by cs.length
decreasing_by
  all_goals
    have hle := (cs.dropWhile_sublist (· ∈ whitespace)).length_le
    rw [h, List.length_cons] at hle
  · omega
  · have := (rest.dropWhile_sublist (Plain ·)).length_le
    omega

def StrAt (m : Bytes) : ℕ → List UInt8 → Prop
  | a, [] => m a = 0
  | a, c :: cs => m a = c ∧ c ≠ 0 ∧ StrAt m (a + 1) cs

variable {m m' : Bytes} {a fuel : ℕ} {c : UInt8} {cs w rest : List UInt8} {σ : Shell} {ts : List Token}

lemma StrAt.congr (h : StrAt m a cs) (heq : ∀ x, a ≤ x → m' x = m x) : StrAt m' a cs := by
  induction cs generalizing a with
  | nil => exact (heq a le_rfl).trans h
  | cons c cs ih => exact ⟨(heq a le_rfl).trans h.1, h.2.1, ih h.2.2 fun x hx => heq x (by omega)⟩

lemma StrAt.drop (h : StrAt m a (w ++ rest)) : StrAt m (a + w.length) rest := by
  induction w generalizing a with
  | nil => exact h
  | cons c w ih => simpa [add_assoc, add_comm 1] using ih h.2.2

lemma StrAt.cut (h : StrAt m a (w ++ rest)) (heq : ∀ x < a + w.length, m' x = m x) (h0 : m' (a + w.length) = 0) :
    StrAt m' a w := by
  induction w generalizing a with
  | nil => exact h0
  | cons c w ih =>
    rw [length_cons] at heq h0
    refine ⟨(heq a (by omega)).trans h.1, h.2.1, ih h.2.2 (fun x hx => heq x (by omega)) ?_⟩
    rwa [add_assoc, add_comm 1]

lemma skipWhite_spec (h : StrAt m a cs) (hfuel : cs.length ≤ fuel) :
    ∃ m', skipWhite fuel m a = (m', a + (cs.takeWhile (· ∈ whitespace)).length) ∧
      StrAt m' (a + (cs.takeWhile (· ∈ whitespace)).length) (cs.dropWhile (· ∈ whitespace)) ∧
      (∀ x < a, m' x = m x) ∧ (∀ c ∈ cs.head?, c ∈ whitespace → m' a = 0) := by
  induction cs generalizing a m fuel with
  | nil =>
    have h0 : m a ∉ whitespace := by rw [show m a = 0 from h]; decide
    refine ⟨m, ?_, h, fun _ _ => rfl, nofun⟩
    cases fuel <;> simp [skipWhite, h0]
  | cons c cs ih =>
    obtain ⟨fuel, rfl⟩ := exists_eq_succ_of_ne_zero (ne_of_gt (lt_of_lt_of_le (succ_pos _) hfuel))
    obtain ⟨hc, hne, hcs⟩ := h
    by_cases hw : c ∈ whitespace
    · have hcs' : StrAt (update m a 0) (a + 1) cs := hcs.congr fun x hx => update_of_ne (by omega) ..
      obtain ⟨m', hskip, hrest, hsame, -⟩ := ih hcs' (by simpa using hfuel)
      refine ⟨m', ?_, ?_, fun x hx => ?_, fun _ _ _ => ?_⟩
      · simp [skipWhite, hc, hw, hskip, add_assoc, add_comm 1]
      · simpa [hw, add_assoc, add_comm 1] using hrest
      · rw [hsame x (by omega), update_of_ne (by omega)]
      · rw [hsame a (by omega), update_self]
    · refine ⟨m, ?_, ?_, fun _ _ => rfl, ?_⟩
      · simp [skipWhite, hc, hw]
      · simpa [hw] using ⟨hc, hne, hcs⟩
      · simpa using fun hw' => absurd hw' hw

lemma wordEnd_eq (h : StrAt m a cs) (hfuel : cs.length ≤ fuel) :
    wordEnd fuel m a = a + (cs.takeWhile (Plain ·)).length := by
  induction cs generalizing a fuel with
  | nil =>
    have h0 : m a = 0 := h
    cases fuel <;> simp [wordEnd, h0]
  | cons c cs ih =>
    obtain ⟨fuel, rfl⟩ := exists_eq_succ_of_ne_zero (ne_of_gt (lt_of_lt_of_le (succ_pos _) hfuel))
    obtain ⟨hc, hne, hcs⟩ := h
    have hplain : (m a ≠ 0 ∧ m a ∉ whitespace ++ symbols) ↔ Plain c := by simp [hc, hne, Plain]
    rw [wordEnd]
    by_cases hp : Plain c
    · rw [if_pos (hplain.mpr hp), ih hcs (by simpa using hfuel)]
      simp [hp, add_assoc, add_comm 1]
    · rw [if_neg (mt hplain.mp hp)]
      simp [hp]

/-- The token that is looked ahead at, and the tokens behind it; the look for the next one will begin
behind `lo`. -/
inductive Ahead (fuel lo : ℕ) (σ : Shell) : List Token → Prop
  | done (hnc : σ.nc = 0) (hnp2 : σ.np2 = none) : Ahead fuel lo σ []
  | symbol (c : UInt8) (cs : List UInt8) (a : ℕ) (hc : c ∈ symbols) (hnc : σ.nc = c) (hnp2 : σ.np2 = some a)
    (h : StrAt σ.mem a cs) (hlen : cs.length ≤ fuel) (hlo : lo < a) : Ahead fuel lo σ (.symbol c :: tokens cs)
  | word (w rest : List UInt8) (p : ℕ) (hnc : σ.nc = wordToken) (hnp1 : σ.np1 = some p)
    (hnp2 : σ.np2 = some (p + w.length)) (h : StrAt σ.mem p (w ++ rest)) (hmax : ∀ c ∈ rest.head?, ¬Plain c)
    (hlen : rest.length ≤ fuel) (hlo : lo < p + w.length) : Ahead fuel lo σ (.word w :: tokens rest)

lemma scan_ahead (h : StrAt σ.mem a cs) (hfuel : cs.length ≤ fuel) :
    Ahead fuel a (scan fuel (some a) σ) (tokens cs) := by
  obtain ⟨m', hskip, hrest, -⟩ := skipWhite_spec h hfuel
  have hle := (cs.dropWhile_sublist (· ∈ whitespace)).length_le
  rw [tokens]
  split
  next hnil =>
    rw [hnil] at hrest
    have h0 : m' (a + (cs.takeWhile (· ∈ whitespace)).length) = 0 := hrest
    simpa [scan, hskip, h0] using Ahead.done rfl rfl
  next c rest hcons =>
    rw [hcons] at hrest hle
    obtain ⟨hc, hne, hrest'⟩ := id hrest
    rw [length_cons] at hle
    split
    next hsym =>
      simp only [scan, hskip, hc, hne, hsym, if_true, if_false]
      exact .symbol c rest _ hsym rfl rfl (hrest'.congr fun x hx => update_of_ne (by omega) ..) (by omega) (by omega)
    next hsym =>
      have hblack : c ∉ whitespace := by simpa [hcons] using head?_dropWhile_not (· ∈ whitespace) cs
      have hplain : Plain c := ⟨hblack, hsym⟩
      have hend : wordEnd fuel _ _ = _ := wordEnd_eq hrest (by simpa using by omega)
      have hword := takeWhile_append_dropWhile (p := (Plain ·)) (l := rest)
      have hlen := (rest.dropWhile_sublist (Plain ·)).length_le
      simp only [scan, hskip, hc, hne, hsym, if_false]
      refine .word _ _ _ rfl rfl ?_ ?_ (fun d hd => ?_) (by omega) (by rw [length_cons]; omega)
      · simp [hend, hplain]
      · simpa [hword] using hrest
      · simpa [Option.mem_def.mp hd] using head?_dropWhile_not (Plain ·) rest

lemma scan_same (h : StrAt σ.mem a cs) (hfuel : cs.length ≤ fuel) :
    ∀ x < a, (scan fuel (some a) σ).mem x = σ.mem x := by
  obtain ⟨m', hskip, -, hsame, -⟩ := skipWhite_spec h hfuel
  intro x hx
  have hne : x ≠ a + (cs.takeWhile (· ∈ whitespace)).length := by omega
  simp only [scan, hskip]
  split_ifs <;> simp [hsame x hx, update_of_ne hne]

lemma scan_nul (h : StrAt σ.mem a cs) (hfuel : cs.length ≤ fuel) (hmax : ∀ c ∈ cs.head?, ¬Plain c) :
    (scan fuel (some a) σ).mem a = 0 := by
  obtain ⟨m', hskip, hrest, -, hwhite⟩ := skipWhite_spec h hfuel
  cases cs with
  | nil =>
    have h0 : m' a = 0 := hrest
    simp [scan, hskip, h0]
  | cons c cs =>
    by_cases hc : c ∈ whitespace
    · have h0 := hwhite c rfl hc
      simp only [scan, hskip]
      split_ifs <;> simp [h0, update_apply]
    · have hsym : c ∈ symbols := not_not.mp fun hn => hmax c rfl ⟨hc, hn⟩
      obtain ⟨hc', -⟩ : StrAt m' a (c :: cs) := by simpa [hc] using hrest
      simp [scan, hskip, hc, hc', hsym, h.2.1]

def Returns (r : Shell × UInt8 × Option ℕ) : Option Token → Prop
  | none => r.2.1 = 0
  | some (.symbol c) => r.2.1 = c
  | some (.word w) => r.2.1 = wordToken ∧ ∃ p, r.2.2 = some p ∧ StrAt r.1.mem p w

/-- **One call**: it returns the token, and looks for the next one behind it. -/
lemma Ahead.gettoken {lo : ℕ} (h : Ahead fuel lo σ ts) :
    ∃ lo', Ahead fuel lo' (gettoken fuel σ).1 ts.tail ∧ lo ≤ lo' ∧ (∀ x ≤ lo, (gettoken fuel σ).1.mem x = σ.mem x) ∧
      Returns (gettoken fuel σ) ts.head? ∧
      ∀ w p, ts.head? = some (.word w) → (gettoken fuel σ).2.2 = some p → p + w.length ≤ lo' := by
  cases h with
  | done hnc hnp2 =>
    refine ⟨lo, ?_, le_rfl, fun _ _ => ?_, hnc, nofun⟩
    · simpa [ShellTokens.gettoken, scan, hnp2] using Ahead.done rfl rfl
    · simp [ShellTokens.gettoken, scan, hnp2]
  | symbol c cs a hc hnc hnp2 h hlen hlo =>
    refine ⟨a, ?_, hlo.le, fun x hx => ?_, hnc, nofun⟩
    · simpa [ShellTokens.gettoken, hnp2] using scan_ahead h hlen
    · simpa [ShellTokens.gettoken, hnp2] using scan_same h hlen x (by omega)
  | word w rest p hnc hnp1 hnp2 h hmax hlen hlo =>
    have hsame := scan_same h.drop hlen
    refine ⟨p + w.length, ?_, hlo.le, fun x hx => ?_, ⟨hnc, p, hnp1, ?_⟩, fun w' p' hw' hp' => ?_⟩
    · simpa [ShellTokens.gettoken, hnp2] using scan_ahead h.drop hlen
    · simpa [ShellTokens.gettoken, hnp2] using hsame x (by omega)
    · simpa [ShellTokens.gettoken, hnp2] using h.cut hsame (scan_nul h.drop hlen hmax)
    · cases hw'
      cases hnp1.symm.trans hp'
      exact le_rfl

lemma ahead_iterate (h : StrAt σ.mem a cs) (hfuel : cs.length ≤ fuel) (k : ℕ) :
    ∃ lo, Ahead fuel lo ((fun σ => (gettoken fuel σ).1)^[k] (gettokenInit fuel a σ)) ((tokens cs).drop k) := by
  induction k with
  | zero => exact ⟨a, scan_ahead h hfuel⟩
  | succ k ih =>
    obtain ⟨lo, hahead⟩ := ih
    obtain ⟨lo', hnext, -⟩ := hahead.gettoken
    rw [iterate_succ_apply', ← tail_drop]
    exact ⟨lo', hnext⟩

/-- **The tokens of a command** are returned one after the other, and `0` behind them; where a word is
returned there is a string with its characters. -/
theorem gettoken_returns_tokens (h : StrAt σ.mem a cs) (hfuel : cs.length ≤ fuel) (k : ℕ) :
    Returns (gettoken fuel ((fun σ => (gettoken fuel σ).1)^[k] (gettokenInit fuel a σ))) (tokens cs)[k]? := by
  obtain ⟨lo, hahead⟩ := ahead_iterate h hfuel k
  obtain ⟨-, -, -, -, hret, -⟩ := hahead.gettoken
  rwa [← head?_drop]

def lsToFile : Bytes := fun x => [108, 115, 62, 102].getD x 0

/-- The first word is ended by the NUL in the place of the symbol. -/
theorem gettoken_returns_ls :
    Returns (gettoken 4 (gettokenInit 4 0 ⟨lsToFile, 0, none, none⟩)) (some (.word [108, 115])) := by
  have hstr : StrAt lsToFile 0 [108, 115, 62, 102] :=
    ⟨rfl, by decide, rfl, by decide, rfl, by decide, rfl, by decide, rfl⟩
  have hword : (tokens [108, 115, 62, 102])[0]? = some (.word [108, 115]) := by
    rw [tokens]
    rfl
  rw [← hword]
  exact gettoken_returns_tokens (σ := ⟨lsToFile, 0, none, none⟩) hstr (by decide) 0

end Jos.ShellTokens
