import Jos.ShellTokens

/-!
The buffers of `runcmd`: the arguments of a command and its name with a slash before it.

There is no room for the null pointer behind sixteen arguments, and none for the slash before a name that
is a whole line.
-/

namespace Jos.ShellTokens

open ByteMem

def maxArgs : ℕ := 16

def bufSiz : ℕ := 1024

/-- `'<'`, `'>'`, `'|'` and `'/'` -/
def lessToken : UInt8 := 60
def greaterToken : UInt8 := 62
def barToken : UInt8 := 124
def slash : UInt8 := 47

/-- A store outside of an array, or more rounds than there are -/
inductive Overrun
  | argv (i : ℕ)
  | argv0buf (i : ℕ)
  | rounds
  deriving DecidableEq, Repr

inductive End
  | exit
  | panic
  | empty
  | spawn
  deriving DecidableEq, Repr

/-- `argv[i] = p` -/
def storeArg (argv : ℕ → Option ℕ) (i : ℕ) (p : Option ℕ) : Except Overrun (ℕ → Option ℕ) :=
  if i < maxArgs then .ok (Function.update argv i p) else .error (.argv i)

/-- `strcpy(argv0buf + i, s)` -/
def copyName (m : Bytes) : ℕ → ℕ → ℕ → Except Overrun Unit
  | 0, _, _ => .error .rounds
  | n + 1, i, s =>
    if bufSiz ≤ i then .error (.argv0buf i) else if m s = 0 then .ok () else copyName m n (i + 1) (s + 1)

/-- From the label `runit` on; `argv0buf` is the address of the buffer. -/
def runit (argv0buf : ℕ) (m : Bytes) (argv : ℕ → Option ℕ) (argc : ℕ) : Except Overrun End :=
  if argc = 0 then .ok .empty
  else do
    let argv ← match argv 0 with
      | none => .ok argv
      | some p =>
        if m p = slash then .ok argv
        else do
          copyName m bufSiz 1 p
          storeArg argv 0 (some argv0buf)
    let _ ← storeArg argv argc none
    return .spawn

/-- The loop over the tokens, with the results of the system calls that can end it or fork -/
def parse (fuel argv0buf : ℕ) : ℕ → List ℤ → Shell → (ℕ → Option ℕ) → ℕ → Except Overrun End
  | 0, _, _, _, _ => .error .rounds
  | n + 1, sys, σ, argv, argc =>
    let (σ, c, t) := gettoken fuel σ
    if c = wordToken then
      if argc = maxArgs then .ok .exit
      else do
        let argv ← storeArg argv argc t
        parse fuel argv0buf n sys σ argv (argc + 1)
    else if c = lessToken ∨ c = greaterToken then
      let (σ, c, _) := gettoken fuel σ
      -- the result of `open`
      if c ≠ wordToken ∨ sys.headD 0 < 0 then .ok .exit else parse fuel argv0buf n sys.tail σ argv argc
    else if c = barToken then
      -- the results of `pipe` and `fork`
      if sys.headD 0 < 0 ∨ sys.tail.headD 0 < 0 then .ok .exit
      else if sys.tail.headD 0 = 0 then parse fuel argv0buf n sys.tail.tail σ argv 0
      else runit argv0buf σ.mem argv argc
    else if c = 0 then runit argv0buf σ.mem argv argc
    else .ok .panic

def runcmd (fuel argv0buf n s : ℕ) (sys : List ℤ) (σ : Shell) (argv : ℕ → Option ℕ) : Except Overrun End :=
  parse fuel argv0buf n sys (gettokenInit fuel s σ) argv 0

def Runs (argc : ℕ) : Option (List UInt8) → Prop
  | none => True
  | some w => argc < maxArgs ∧ (w.head? = some slash ∨ w.length + 1 < bufSiz)

/-- **Every command of the line fits**; where `file` is set, the next word is the name of a file. -/
def Fits : Bool → ℕ → Option (List UInt8) → List Token → Prop
  | false, argc, name, [] => Runs argc name
  | false, argc, name, .word w :: ts => argc = maxArgs ∨ Fits false (argc + 1) (name.or (some w)) ts
  | false, argc, name, .symbol c :: ts =>
    if c = lessToken ∨ c = greaterToken then Fits true argc name ts
    else if c = barToken then Runs argc name ∧ Fits false 0 none ts
    else True
  | true, argc, name, .word _ :: ts => Fits false argc name ts
  | true, _, _, _ => True

def Named (m : Bytes) (argv : ℕ → Option ℕ) (argc lo : ℕ) : Option (List UInt8) → Prop
  | none => argc = 0
  | some w => argc ≠ 0 ∧ ∃ p, argv 0 = some p ∧ StrAt m p w ∧ p + w.length ≤ lo

variable {m m' : Bytes} {a b fuel n i p lo lo' argc : ℕ} {w cs : List UInt8} {σ : Shell} {ts : List Token}
  {argv : ℕ → Option ℕ} {name : Option (List UInt8)}

lemma Named.mono (h : Named m argv argc lo name) (hlo : lo ≤ lo') (hsame : ∀ x ≤ lo, m' x = m x) :
    Named m' argv argc lo' name := by
  cases name with
  | none => exact h
  | some w =>
    obtain ⟨hne, p, hp, hstr, hle⟩ := h
    have hstr' : StrAt m p (w ++ []) := by simpa using hstr
    have h0 : m' (p + w.length) = 0 := (hsame _ hle).trans hstr'.drop
    exact ⟨hne, p, hp, hstr'.cut (fun x hx => hsame x (by omega)) h0, by omega⟩

lemma Named.word (h : Named m argv argc lo name) (hw : StrAt m p w) (hle : p + w.length ≤ lo) :
    Named m (Function.update argv argc (some p)) (argc + 1) lo (name.or (some w)) := by
  cases name with
  | none =>
    obtain rfl : argc = 0 := h
    exact ⟨by omega, p, Function.update_self .., hw, hle⟩
  | some w' =>
    obtain ⟨hne, q, hq, hrest⟩ := h
    exact ⟨by omega, q, (Function.update_of_ne hne.symm ..).trans hq, hrest⟩

lemma Ahead.symbol_mem {c : UInt8} (h : Ahead fuel lo σ (.symbol c :: ts)) : c ∈ symbols := by
  cases h
  assumption

lemma copyName_ok_iff (h : StrAt m p w) (hi : i ≤ bufSiz) (hn : bufSiz < n + i) :
    copyName m n i p = .ok () ↔ i + w.length < bufSiz := by
  induction w generalizing n i p with
  | nil =>
    obtain ⟨n, rfl⟩ := Nat.exists_eq_succ_of_ne_zero (show n ≠ 0 by omega)
    have h0 : m p = 0 := h
    by_cases hlt : bufSiz ≤ i <;> simp [copyName, h0, hlt]
    omega
  | cons c w ih =>
    obtain ⟨n, rfl⟩ := Nat.exists_eq_succ_of_ne_zero (show n ≠ 0 by omega)
    obtain ⟨hc, hne, hw⟩ := h
    by_cases hlt : bufSiz ≤ i
    · simp [copyName, hlt]
      omega
    · simp only [copyName, hc, hne, hlt, if_false, ih (n := n) hw (show i + 1 ≤ bufSiz by omega) (by omega), List.length_cons]
      omega

lemma runit_ok_iff (h : Named m argv argc lo name) : (∃ e, runit b m argv argc = .ok e) ↔ Runs argc name := by
  cases name with
  | none => simp [runit, show argc = 0 from h, Runs]
  | some w =>
    obtain ⟨hne, p, hp, hstr, -⟩ := h
    have hslash : m p = slash ↔ w.head? = some slash := by
      cases w with
      | nil => simp [show m p = 0 from hstr, slash]
      | cons c w => simp [hstr.1]
    have hcopy := copyName_ok_iff (n := bufSiz) (i := 1) hstr (by decide) (by decide)
    rw [Nat.add_comm] at hcopy
    have h0 : 0 < maxArgs := by decide
    by_cases hlt : argc < maxArgs <;> by_cases hs : w.head? = some slash <;> cases hc : copyName m bufSiz 1 p <;>
      simp [runit, hne, hp, hslash, hs, Runs, hlt, storeArg, bind, Except.bind, pure, Except.pure, hc, h0, ← hcopy]

/-- **The loop fits as the rest of the line does.** -/
lemma parse_ok_iff (h : Ahead fuel lo σ ts) (hn : ts.length < n) (hargc : argc ≤ maxArgs)
    (hname : Named σ.mem argv argc lo name) :
    (∀ sys, ∃ e, parse fuel b n sys σ argv argc = .ok e) ↔ Fits false argc name ts := by
  induction n generalizing σ ts lo argv argc name with
  | zero => omega
  | succ n ih =>
    obtain ⟨lo', hnext, hlo, hsame, hret, hpos⟩ := h.gettoken
    rcases hg : gettoken fuel σ with ⟨σ', c, t⟩
    rw [hg] at hnext hsame hret hpos
    have hname' := hname.mono hlo hsame
    cases ts with
    | nil =>
      obtain rfl : c = 0 := hret
      simpa [parse, hg, wordToken, lessToken, greaterToken, barToken, Fits] using runit_ok_iff hname'
    | cons tok ts =>
      rw [List.tail_cons] at hnext
      rw [List.length_cons] at hn
      cases tok with
      | word w =>
        obtain ⟨rfl, p, rfl, hstr⟩ := hret
        have hle := hpos w p rfl rfl
        by_cases hmax : argc = maxArgs
        · simp [parse, hg, hmax, Fits]
        · have hlt : argc < maxArgs := by omega
          have hrest := ih hnext (by omega) hlt (hname'.word hstr hle)
          simpa [parse, hg, hmax, hlt, storeArg, Fits, bind, Except.bind] using hrest
      | symbol d =>
        obtain rfl : c = d := hret
        have hsym := h.symbol_mem
        have hne : c ≠ wordToken := by rintro rfl; exact absurd hsym (by decide)
        have hzero : c ≠ 0 := by rintro rfl; exact absurd hsym (by decide)
        by_cases hredir : c = lessToken ∨ c = greaterToken
        · -- the next token has to be a word
          obtain ⟨lo'', hnext', hlo', hsame', hret', -⟩ := hnext.gettoken
          rcases hg' : gettoken fuel σ' with ⟨σ'', c', t'⟩
          rw [hg'] at hnext' hsame' hret'
          simp only [parse, hg, hg', hne, hredir, if_true, if_false]
          cases ts with
          | nil =>
            obtain rfl : c' = 0 := hret'
            simp [wordToken, Fits, hredir]
          | cons tok ts =>
            cases tok with
            | symbol d =>
              obtain rfl : c' = d := hret'
              have hne' : c' ≠ wordToken := by rintro rfl; exact absurd hnext.symbol_mem (by decide)
              simp [hne', Fits, hredir]
            | word w =>
              obtain ⟨rfl, -⟩ := hret'
              rw [List.length_cons] at hn
              have hrest : _ ↔ Fits false argc name ts := ih hnext' (by omega) hargc (hname'.mono hlo' hsame')
              simp only [Fits, hredir, if_true]
              rw [← hrest]
              refine ⟨fun hall sys => by simpa using hall (1 :: sys), fun hall sys => ?_⟩
              split_ifs
              · exact ⟨_, rfl⟩
              · exact hall _
        · by_cases hbar : c = barToken
          · subst hbar
            have hchild : (∀ sys, ∃ e, parse fuel b n sys σ' argv 0 = .ok e) ↔ Fits false 0 none ts :=
              ih hnext (by omega) (by decide) rfl
            simp only [parse, hg, hne, hredir, Fits, if_true, if_false]
            rw [← hchild, ← runit_ok_iff (b := b) hname']
            refine ⟨fun hall => ⟨by simpa using hall [0, 1], fun sys => by simpa using hall (0 :: 0 :: sys)⟩, ?_⟩
            rintro ⟨hrun, hall⟩ sys
            split_ifs
            · exact ⟨_, rfl⟩
            · exact hall _
            · exact hrun
          · simp [parse, hg, hne, hzero, hredir, hbar, Fits]

/-- **`runcmd` stays inside of its arrays**, whatever the system calls return, exactly if every command of
the line fits. -/
theorem runcmd_in_bounds_iff (h : StrAt σ.mem a cs) (hfuel : cs.length ≤ fuel) (hn : (tokens cs).length < n) :
    (∀ sys, ∃ e, runcmd fuel b n a sys σ argv = .ok e) ↔ Fits false 0 none (tokens cs) :=
  parse_ok_iff (scan_ahead h hfuel) hn (Nat.zero_le _) rfl

def pipedLine : Bytes := fun x => [97, 32, 98, 62, 99, 124, 100].getD x 0

/-- The line `"a b>c|d"`, of which the child runs the second command -/
theorem runcmd_in_bounds_pipedLine :
    ∃ e, runcmd 7 0x1000 7 0 [3, 0, 0] ⟨pipedLine, 0, none, none⟩ (fun _ => none) = .ok e := by
  have hstr : StrAt pipedLine 0 [97, 32, 98, 62, 99, 124, 100] := by
    refine ⟨rfl, by decide, rfl, by decide, rfl, by decide, rfl, by decide, rfl, by decide, rfl, by decide, rfl,
      by decide, rfl⟩
  have h0 : tokens [] = [] := by
    rw [tokens]
    rfl
  have h1 : tokens [100] = [.word [100]] := by
    rw [tokens]
    exact congrArg _ h0
  have h2 : tokens [124, 100] = .symbol 124 :: tokens [100] := by
    rw [tokens]
    rfl
  have h3 : tokens [99, 124, 100] = .word [99] :: tokens [124, 100] := by
    rw [tokens]
    rfl
  have h4 : tokens [62, 99, 124, 100] = .symbol 62 :: tokens [99, 124, 100] := by
    rw [tokens]
    rfl
  have h5 : tokens [32, 98, 62, 99, 124, 100] = .word [98] :: tokens [62, 99, 124, 100] := by
    rw [tokens]
    rfl
  have h6 : tokens [97, 32, 98, 62, 99, 124, 100] = .word [97] :: tokens [32, 98, 62, 99, 124, 100] := by
    rw [tokens]
    rfl
  rw [h5, h4, h3, h2, h1] at h6
  refine (runcmd_in_bounds_iff (σ := ⟨pipedLine, 0, none, none⟩) hstr le_rfl (by simp [h6])).mpr ?_ _
  simp [h6, Fits, Runs, maxArgs, bufSiz, lessToken, greaterToken, barToken]

def sixteenWords : Bytes := fun x => if 31 ≤ x then 0 else if x % 2 = 0 then 97 else 32

def longName : Bytes := fun x => if 1023 ≤ x then 0 else 97

/-- The null pointer is stored behind the array; the name is copied beyond the end of the buffer. -/
theorem runcmd_out_of_bounds :
    runcmd 31 0x1000 32 0 [] ⟨sixteenWords, 0, none, none⟩ (fun _ => none) = .error (.argv 16) ∧
      runcmd 1023 0x1000 1024 0 [] ⟨longName, 0, none, none⟩ (fun _ => none) = .error (.argv0buf 1024) := by
  decide +kernel

end Jos.ShellTokens
