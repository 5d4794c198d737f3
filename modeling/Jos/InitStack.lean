import Jos.ByteMem

/-!
The stack of a child that is spawned, with the arguments of its program.

`init_stack` subtracts the sizes from the end of the pages at `UTEMP` and then looks whether the result is
below their beginning. Where the sizes exceed the addresses below that end the subtraction wraps around, and
nothing is refused.
-/

namespace Jos.InitStack

open ByteMem List Nat

def utemp : ℕ := 0x400000
def userStackSize : ℕ := 0x10000
def userStackTop : ℕ := 0x7fffff7000
def eNoMem : ℤ := 4

def word (v : ℕ) : List UInt8 := (List.range 8).map fun k => UInt8.ofNat (v / 256 ^ k)

def sub64 (a b : ℕ) : ℕ := (a + (2 ^ 64 - b)) % 2 ^ 64

/-- `UTEMP2USTACK` -/
def utemp2ustack (a : ℕ) : ℕ := (a + (userStackTop - userStackSize - utemp)) % 2 ^ 64

inductive Outcome
  | returns (e : ℤ)
  /-- `argc` overflows. -/
  | overflow
  | assertion
  /-- the stack is given to the child, with the stack pointer -/
  | done (rsp : ℕ)
  deriving DecidableEq

def total (argv : List (List UInt8)) : ℕ := (argv.map (·.length + 1)).sum

/-- `string_size` -/
def stringSize (argv : List (List UInt8)) : ℕ := total argv % 2 ^ 64

def stringStore (argv : List (List UInt8)) : ℕ := sub64 (utemp + userStackSize) (stringSize argv)

def argvStore (argv : List (List UInt8)) : ℕ := sub64 (stringStore argv / 8 * 8) (8 * (argv.length + 1))

/-- The loop over the arguments, from the `i`-th on -/
def copyStrings (a : ℕ) : ℕ → List (List UInt8) → ℕ → Bytes → ℕ × Bytes
  | _, [], p, m => (p, m)
  | i, s :: ss, p, m =>
    let m := put m ((a + 8 * i) % 2 ^ 64) (word (utemp2ustack p))
    copyStrings a (i + 1) ss ((p + s.length + 1) % 2 ^ 64) (put m p (s ++ [0]))

/-- `init_stack`, with what `sys_alloc_region` returns and the memory before; the memory after it is what
the child is given. Faults where nothing is mapped are not modelled. -/
def initStack (argv : List (List UInt8)) (alloc : ℤ) (m : Bytes) : Bytes × Outcome :=
  let argc := argv.length
  let a := argvStore argv
  if 2 ^ 31 ≤ argc + 1 then (m, .overflow)
  else if sub64 a 16 < utemp then (m, .returns (-eNoMem))
  else if alloc < 0 then (m, .returns alloc)
  else
    let x := copyStrings a 0 argv (stringStore argv) (fill m utemp userStackSize 0)
    let m := put x.2 ((a + 8 * argc) % 2 ^ 64) (word 0)
    if x.1 ≠ utemp + userStackSize then (m, .assertion)
    else
      let m := put m (sub64 a 8) (word (utemp2ustack a))
      (put m (sub64 a 16) (word argc), .done (utemp2ustack (sub64 a 16)))

def Fits (argv : List (List UInt8)) : Prop := total argv + 8 * (argv.length + 3) ≤ userStackSize

def Holds (m : Bytes) (a : ℕ) (l : List UInt8) : Prop := ∀ k < l.length, m (a + k) = l.getD k 0

def At (m : Bytes) (a : ℕ) (l : List UInt8) : Prop :=
  userStackTop - userStackSize ≤ a ∧ a + l.length ≤ userStackTop ∧
    Holds m (a - (userStackTop - userStackSize) + utemp) l

/-- The stack of the child: `argc`, `argv`, the array and its terminator, and behind it string after string. -/
structure Layout (argv : List (List UInt8)) (m : Bytes) (rsp : ℕ) (string : ℕ → ℕ) : Prop where
  argc : At m rsp (word argv.length)
  vector : At m (rsp + 8) (word (rsp + 16))
  pointer : ∀ i < argv.length, At m (rsp + 16 + 8 * i) (word (string i))
  null : At m (rsp + 16 + 8 * argv.length) (word 0)
  above : rsp + 16 + 8 * (argv.length + 1) ≤ string 0
  copy : ∀ i < argv.length, At m (string i) (argv.getD i [] ++ [0])
  next : ∀ i < argv.length, string i + (argv.getD i []).length + 1 = string (i + 1)

/-- What does not fit is refused, without a change of the memory; what fits becomes the stack of the child. -/
structure Correct (argv : List (List UInt8)) (m : Bytes) : Prop where
  refuses : ¬Fits argv → ∀ alloc, ∃ e < 0, initStack argv alloc m = (m, .returns e)
  fits : Fits argv → ∀ alloc, 0 ≤ alloc → ∃ m' rsp string, initStack argv alloc m = (m', .done rsp) ∧
    Layout argv m' rsp string ∧ ∀ x, x < utemp ∨ utemp + userStackSize ≤ x → m' x = m x

/-- The bytes that are subtracted: the strings up to a whole word, the array and two more words -/
def needed (argv : List (List UInt8)) : ℕ := (total argv + 7) / 8 * 8 + 8 * (argv.length + 3)

/-- More than the stack has, and no more than there are below its end -/
def Seen (argv : List (List UInt8)) : Prop :=
  argv.length + 1 < 2 ^ 31 ∧ userStackSize < needed argv % 2 ^ 64 ∧ needed argv % 2 ^ 64 ≤ utemp + userStackSize

variable {argv ss : List (List UInt8)} {s l : List UInt8} {m : Bytes} {a p i x v : ℕ}

@[simp] lemma length_word (v : ℕ) : (word v).length = 8 := by simp [word]

@[simp] lemma total_cons : total (s :: ss) = s.length + 1 + total ss := by simp [total]

lemma total_take (h : i < argv.length) :
    total (argv.take (i + 1)) = total (argv.take i) + (argv.getD i []).length + 1 := by
  rw [take_succ_eq_append_getElem h, getD_eq_getElem _ _ h, total, map_append, List.sum_append]
  rfl

lemma total_take_le (argv : List (List UInt8)) (i : ℕ) : total (argv.take i) ≤ total argv := by
  have h : total argv = total (argv.take i) + total (argv.drop i) := by
    rw [total, total, total, ← List.sum_append, ← map_append, take_append_drop]
  omega

lemma sub64_of_le (h : b ≤ a := by omega) (ha : a < 2 ^ 64 := by omega) : sub64 a b = a - b := by
  unfold sub64
  omega

lemma holds_put (m : Bytes) (a : ℕ) (l : List UInt8) : Holds (put m a l) a l := fun k hk => by
  rw [put_of_in (by omega) (by omega), Nat.add_sub_cancel_left]

lemma Holds.same {m' : Bytes} (h : Holds m a l) (hs : Same m m' a l.length) : Holds m' a l := fun k hk =>
  (hs _ (by omega) (by omega)).trans (h k hk)

lemma copyStrings_spec (hbelow : a + 8 * (i + ss.length) ≤ p) (hp : p + total ss < 2 ^ 64) :
    (copyStrings a i ss p m).1 = p + total ss ∧
      (∀ x, (x < a + 8 * i ∨ a + 8 * (i + ss.length) ≤ x) → (x < p ∨ p + total ss ≤ x) →
        (copyStrings a i ss p m).2 x = m x) ∧
      ∀ j < ss.length,
        Holds (copyStrings a i ss p m).2 (a + 8 * (i + j)) (word (utemp2ustack (p + total (ss.take j)))) ∧
        Holds (copyStrings a i ss p m).2 (p + total (ss.take j)) (ss.getD j [] ++ [0]) := by
  induction ss generalizing i p m with
  | nil => simp [copyStrings, total]
  | cons s ss ih =>
    rw [total_cons] at hp
    rw [length_cons] at hbelow
    rw [copyStrings, mod_eq_of_lt (by omega), mod_eq_of_lt (by omega)]
    set m₁ := put (put m (a + 8 * i) (word (utemp2ustack p))) p (s ++ [0]) with hm₁
    have hout : ∀ x, (x < a + 8 * i ∨ a + 8 * (i + 1) ≤ x) → (x < p ∨ p + (s.length + 1) ≤ x) → m₁ x = m x :=
      fun x hx hx' => by rw [hm₁, put_of_out (by simpa using hx'), put_of_out (by rw [length_word]; omega)]
    obtain ⟨h1, h2, h3⟩ := ih (i := i + 1) (p := p + s.length + 1) (m := m₁) (by omega) (by omega)
    simp only [total_cons, length_cons]
    refine ⟨by omega, fun x hx hx' => (h2 x (by omega) (by omega)).trans (hout x (by omega) (by omega)),
      fun j hj => ?_⟩
    cases j with
    | zero =>
      have hword : Holds m₁ (a + 8 * i) (word (utemp2ustack p)) :=
        (holds_put m _ _).same fun x h h' => put_of_out (by rw [length_word] at h'; omega)
      have hcopy : Holds m₁ p (s ++ [0]) := holds_put _ _ _
      refine ⟨hword.same fun x h h' => ?_, hcopy.same fun x h h' => ?_⟩
      · rw [length_word] at h'
        exact h2 x (by omega) (by omega)
      · simp at h h'
        exact h2 x (by omega) (by omega)
    | succ j =>
      have hj := h3 j (by omega)
      rwa [add_assoc p, add_assoc p, ← total_cons, add_assoc i, add_comm 1] at hj

def shift : ℕ := userStackTop - userStackSize - utemp

lemma at_of_holds {y : ℕ} (h : Holds m x l) (hy : y = x + shift) (hlo : utemp ≤ x)
    (hhi : x + l.length ≤ utemp + userStackSize) : At m y l := by
  subst hy
  have hx : x + shift - (userStackTop - userStackSize) + utemp = x := by
    simp only [shift, utemp, userStackTop, userStackSize] at *
    omega
  refine ⟨?_, ?_, hx.symm ▸ h⟩ <;> simp only [shift, utemp, userStackTop, userStackSize] at * <;> omega

lemma utemp2ustack_eq (h : x ≤ utemp + userStackSize) : utemp2ustack x = x + shift := by
  simp only [utemp2ustack, shift, utemp, userStackTop, userStackSize] at *
  omega

/-- **What fits becomes the stack of the child.** -/
lemma initStack_of_fits (hf : Fits argv) {alloc : ℤ} (halloc : 0 ≤ alloc) :
    ∃ m' rsp string, initStack argv alloc m = (m', .done rsp) ∧
      Layout argv m' rsp string ∧ ∀ x, x < utemp ∨ utemp + userStackSize ≤ x → m' x = m x := by
  have hsmall : utemp + userStackSize < 2 ^ 31 := by decide
  unfold Fits at hf
  have hsize : stringSize argv = total argv := mod_eq_of_lt (by omega)
  obtain ⟨p, hp, hend⟩ : ∃ p, stringStore argv = p ∧ p + total argv = utemp + userStackSize :=
    ⟨_, by rw [stringStore, hsize, sub64_of_le], by omega⟩
  obtain ⟨a, ha, hlow, hbelow⟩ : ∃ a, argvStore argv = a ∧ utemp + 16 ≤ a ∧ a + 8 * (argv.length + 1) ≤ p := by
    refine ⟨_, by rw [argvStore, hp, sub64_of_le], ?_, by omega⟩
    simp only [utemp, userStackSize] at *
    omega
  obtain ⟨h1, h2, h3⟩ := copyStrings_spec (m := fill m utemp userStackSize 0)
    (show a + 8 * (0 + argv.length) ≤ p by omega) (show p + total argv < 2 ^ 64 by omega)
  set m₁ := (copyStrings a 0 argv p (fill m utemp userStackSize 0)).2
  set m₂ := put m₁ (a + 8 * argv.length) (word 0) with hm₂
  set m₃ := put m₂ (a - 8) (word (a + shift)) with hm₃
  set m₄ := put m₃ (a - 16) (word argv.length) with hm₄
  have hrun : initStack argv alloc m = (m₄, .done (a - 16 + shift)) := by
    have h16 : sub64 a 16 = a - 16 := sub64_of_le
    have h8 : sub64 a 8 = a - 8 := sub64_of_le
    simp only [initStack, ha, hp, h16, h8, h1, hend, utemp2ustack_eq (show a ≤ _ by omega),
      utemp2ustack_eq (show a - 16 ≤ _ by omega)]
    rw [if_neg (by omega), if_neg (by omega), if_neg (by omega), if_neg (not_not.mpr rfl), mod_eq_of_lt (by omega)]
  have hkept : ∀ x, a ≤ x → (x < a + 8 * argv.length ∨ a + 8 * argv.length + 8 ≤ x) → m₄ x = m₁ x := by
    intro x hx hx'
    rw [hm₄, put_of_out (by rw [length_word]; omega), hm₃, put_of_out (by rw [length_word]; omega), hm₂,
      put_of_out (by rw [length_word]; omega)]
  have hstr : ∀ i < argv.length, total (argv.take i) + (argv.getD i []).length + 1 ≤ total argv := fun i hi =>
    total_take hi ▸ total_take_le _ _
  refine ⟨m₄, a - 16 + shift, fun i => p + total (argv.take i) + shift, hrun,
    ⟨?_, ?_, fun i hi => ?_, ?_, ?_, fun i hi => ?_, fun i hi => ?_⟩, fun x hx => ?_⟩
  · exact at_of_holds (holds_put m₃ _ _) rfl (by omega) (by rw [length_word]; omega)
  · have hvec : Holds m₃ (a - 8) (word (a + shift)) := holds_put _ _ _
    rw [show a - 16 + shift + 16 = a + shift by omega]
    refine at_of_holds (hvec.same fun x hx hx' => ?_) (by omega) (by omega) (by rw [length_word]; omega)
    rw [hm₄, put_of_out (by rw [length_word]; omega)]
  · have hptr := (h3 i hi).1
    rw [utemp2ustack_eq (by have := hstr i hi; omega), zero_add] at hptr
    refine at_of_holds (hptr.same fun x hx hx' => ?_) (by omega) (by omega) (by rw [length_word]; omega)
    rw [length_word] at hx'
    exact hkept x (by omega) (by omega)
  · have hnull : Holds m₂ (a + 8 * argv.length) (word 0) := holds_put _ _ _
    refine at_of_holds (hnull.same fun x hx hx' => ?_) (by omega) (by omega) (by rw [length_word]; omega)
    rw [hm₄, put_of_out (by rw [length_word]; omega), hm₃, put_of_out (by rw [length_word]; omega)]
  · simp [total]
    omega
  · have hi' := hstr i hi
    refine at_of_holds ((h3 i hi).2.same fun x hx hx' => ?_) rfl (by omega)
      (by rw [length_append, length_singleton]; omega)
    exact hkept x (by omega) (by omega)
  · have := total_take hi
    omega
  · rw [hm₄, put_of_out (by rw [length_word]; omega), hm₃, put_of_out (by rw [length_word]; omega), hm₂,
      put_of_out (by rw [length_word]; omega), h2 x (by omega) (by omega), fill_of_out hx]

lemma below_iff (hn : argv.length + 1 < 2 ^ 31) : sub64 (argvStore argv) 16 < utemp ↔
    userStackSize < needed argv % 2 ^ 64 ∧ needed argv % 2 ^ 64 ≤ utemp + userStackSize := by
  simp only [argvStore, stringStore, stringSize, sub64, needed, utemp, userStackSize]
  omega

lemma seen_of_returns {e : ℤ} (h : initStack argv 0 m = (m, .returns e)) : Seen argv := by
  unfold initStack at h
  dsimp only at h
  split_ifs at h with hn hlow
  · simp at h
  · exact ⟨by omega, (below_iff (by omega)).mp hlow⟩
  · contradiction
  · simp at h
  · simp at h

/-- **The arguments of a spawned program**: what does not fit is refused, and what fits is laid out on the
stack of the child, for exactly the arguments that fit or whose size leads to an address below the stack. -/
theorem init_stack_iff (argv : List (List UInt8)) (m : Bytes) : Correct argv m ↔ Fits argv ∨ Seen argv := by
  constructor
  · intro hc
    refine or_iff_not_imp_left.mpr fun hf => ?_
    obtain ⟨e, -, he⟩ := hc.refuses hf 0
    exact seen_of_returns he
  · intro h
    refine ⟨fun hf alloc => ⟨-eNoMem, by decide, ?_⟩, fun hf alloc halloc => initStack_of_fits hf halloc⟩
    obtain ⟨hn, hlow⟩ := h.resolve_left hf
    dsimp only [initStack]
    rw [if_neg (by omega), if_pos ((below_iff hn).mpr hlow)]

/-- Five strings of a million characters each are not refused. -/
theorem arguments_not_refused : ¬Correct (List.replicate 5 (List.replicate 1000000 0x61)) fun _ => 0 := by
  have htotal : total (replicate 5 (replicate 1000000 0x61)) = 5000005 := by
    rw [total, map_replicate, sum_replicate_nat, length_replicate]
  intro hc
  obtain ⟨e, -, he⟩ := hc.refuses (by rw [Fits, htotal]; decide) 0
  have hlow := (seen_of_returns he).2.2
  rw [needed, htotal, length_replicate] at hlow
  exact absurd hlow (by decide)

end Jos.InitStack
