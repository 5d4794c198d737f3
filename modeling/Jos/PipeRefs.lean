import Mathlib.Algebra.BigOperators.Fin
import Mathlib.Algebra.Order.BigOperators.Group.Finset
import Jos.Runs

/-!
When a pipe looks closed.

Whoever holds an end of a pipe has its descriptor page mapped at `INDEX2FD(k)` and the pipe at
`INDEX2DATA(k)`, and takes the pipe for closed when both pages have the same number of references.
The mappings are made and removed one at a time, and the order in `dup` and in `devpipe_close` is
what keeps the count right at any moment.
-/

namespace Jos.PipeRefs

open Runs Function Option Finset

/-- `MAXFD` -/
def maxFd : ℕ := 32

abbrev FdNum := Fin maxFd

inductive End
  | read
  | write
  deriving DecidableEq

def End.other : End → End
  | .read => .write
  | .write => .read

/-- The pages of one pipe, and all the others. -/
inductive Page
  | fd (x : End)
  | pipe
  | other (n : ℕ)
  deriving DecidableEq

inductive Dev
  | file
  | pipe
  | cons
  deriving DecidableEq

/-- What an environment does when a descriptor is closed. -/
inductive Next
  /-- `close` returns -/
  | done
  /-- `dup` goes on, to the number that was closed -/
  | dup (old : FdNum)
  /-- `close_all` goes on -/
  | exit (rest : List FdNum)

/-- The system call an environment makes next. -/
inductive Task (E : Type)
  /-- none: it runs its own code -/
  | user
  /-- `devpipe_close`: the descriptor page -/
  | unmapFd (k : FdNum) (next : Next)
  /-- `devpipe_close`: the pipe -/
  | unmapData (k : FdNum) (next : Next)
  /-- `fd_close`: the descriptor page, which may be gone by now -/
  | unmapAgain (k : FdNum) (next : Next)
  /-- `dup`: the data page -/
  | dupData (old new : FdNum)
  /-- `dup`: the descriptor page -/
  | dupFd (old new : FdNum)
  /-- `dup`, after an error -/
  | undoFd (new : FdNum)
  | undoData (new : FdNum)
  /-- `fork`, once it has a child -/
  | forkMap (child : E)
  | forkUpcall (child : E)
  | forkRun (child : E)
  /-- `exit`, once all descriptors are closed -/
  | destroy

/-- An environment with what it has mapped in the descriptor area: it runs, is a child that is not runnable
yet, or is free. -/
inductive Status (E : Type)
  | free
  | newborn
  | running (task : Task E)

structure Env (E : Type) where
  fd : FdNum → Option Page
  data : FdNum → Option Page
  status : Status E

abbrev State (E : Type) := E → Env E

variable {E : Type}

namespace Env

def mapFd (env : Env E) (k : FdNum) (p : Option Page) : Env E := { env with fd := Function.update env.fd k p }

def mapData (env : Env E) (k : FdNum) (p : Option Page) : Env E :=
  { env with data := Function.update env.data k p }

@[simp] lemma fd_mapFd (env : Env E) (k : FdNum) (p : Option Page) :
    (env.mapFd k p).fd = Function.update env.fd k p := rfl

@[simp] lemma data_mapData (env : Env E) (k : FdNum) (p : Option Page) :
    (env.mapData k p).data = Function.update env.data k p := rfl

def goto (env : Env E) (task : Task E) : Env E := { env with status := .running task }

/-- `fd_lookup` -/
def fdLookup (env : Env E) (k : ℤ) : Option FdNum :=
  if h : 0 ≤ k ∧ k < maxFd then
    let n : FdNum := ⟨k.toNat, by omega⟩
    if (env.fd n).isSome then some n else none
  else none

/-- `fd_alloc` -/
def fdAlloc (env : Env E) : Option FdNum := (List.finRange maxFd).find? fun k => (env.fd k).isNone

end Env

section Calls

-- the devices of the other descriptor pages
variable (dev : ℕ → Option Dev)

/-- `dev_lookup(fd->fd_dev_id, ...)` -/
def devLookup : Page → Option Dev
  | .fd _ => some .pipe
  | .pipe => none
  | .other n => dev n

/-- The first system call of `fd_close`, for a page that is mapped. The other devices unmap
nothing. -/
def fdClose (k : FdNum) (next : Next) (p : Page) : Task E :=
  if devLookup dev p = some .pipe then .unmapFd k next else .unmapAgain k next

/-- The first system call of `close_all`, or of `sys_env_destroy` behind it. -/
def closeAll (env : Env E) : List FdNum → Task E
  | [] => .destroy
  | k :: rest =>
    match env.fd k with
    | some p => fdClose dev k (.exit rest) p
    | none => closeAll env rest

/-- What follows when descriptor `k` is closed. -/
def resume (env : Env E) (k : FdNum) : Next → Task E
  | .done => .user
  | .dup old => .dupData old k
  | .exit rest => closeAll dev env rest

/-- `close(k)` up to its first system call. -/
def close (env : Env E) (k : FdNum) (next : Next) : Env E :=
  match env.fd k with
  | some p => env.goto (fdClose dev k next p)
  | none => env.goto (resume dev env k next)

inductive Call (E : Type)
  | dup (old : ℤ) (new : FdNum)
  | close (k : ℤ)
  | fork (child : E)
  | exit

inductive Act (E : Type)
  | call (e : E) (c : Call E)
  /-- the next system call; `granted` says whether it succeeds, where it can fail -/
  | go (e : E) (granted : Bool)

inductive Refused
  /-- the environment does not run, or is in another call -/
  | notReady
  /-- the slot of the child is not free -/
  | notFree
  deriving DecidableEq

variable [DecidableEq E]

def State.set (s : State E) (e : E) (env : Env E) : State E := Function.update s e env

/-- A call, up to its first system call. The call of `fork` begins with `sys_exofork`. -/
def begin (s : State E) (e : E) : Call E → Except Refused (State E)
  | .dup old new =>
    match (s e).fdLookup old with
    | some old => .ok (s.set e (close dev (s e) new (.dup old)))
    | none => .ok s
  | .close k =>
    match (s e).fdLookup k with
    | some k => .ok (s.set e (close dev (s e) k .done))
    | none => .ok s
  | .fork child =>
    match (s child).status with
    | .free =>
      .ok ((s.set child ⟨fun _ => none, fun _ => none, .newborn⟩).set e ((s e).goto (.forkMap child)))
    | _ => .error .notFree
  | .exit => .ok (s.set e ((s e).goto (closeAll dev (s e) (List.finRange maxFd))))

/-- The next system call of an environment, and whether it succeeds. One that fails is taken to change nothing; of
`sys_map_region` this leaves out that `map_page` has counted the reference already when `alloc_pt` fails. -/
def syscall (s : State E) (e : E) (granted : Bool) : Task E → Except Refused (State E)
  | .user => .error .notReady
  | .unmapFd k next => .ok (s.set e (((s e).mapFd k none).goto (.unmapData k next)))
  | .unmapData k next => .ok (s.set e (((s e).mapData k none).goto (.unmapAgain k next)))
  | .unmapAgain k next =>
    let env := (s e).mapFd k none
    .ok (s.set e (env.goto (resume dev env k next)))
  | .dupData old new =>
    match (s e).data old with
    | none => .ok (s.set e ((s e).goto (.dupFd old new)))
    | some p =>
      .ok (s.set e (if granted then ((s e).mapData new (some p)).goto (.dupFd old new)
        else (s e).goto (.undoFd new)))
  | .dupFd old new =>
    if granted then
      match (s e).fd old with
      -- there is nothing to map, and nothing is done
      | none => .ok (s.set e ((s e).goto .user))
      | some p => .ok (s.set e (((s e).mapFd new (some p)).goto .user))
    else .ok (s.set e ((s e).goto (.undoFd new)))
  | .undoFd new => .ok (s.set e (((s e).mapFd new none).goto (.undoData new)))
  | .undoData new => .ok (s.set e (((s e).mapData new none).goto .user))
  | .forkMap child =>
    -- the descriptor and data pages have `PROT_SHARE`: the child maps the same pages
    if granted then
      .ok ((s.set child { s child with fd := (s e).fd, data := (s e).data }).set e
        ((s e).goto (.forkUpcall child)))
    else .ok (s.set e ((s e).goto .user))
  | .forkUpcall child => .ok (s.set e ((s e).goto (if granted then .forkRun child else .user)))
  | .forkRun child =>
    if granted then .ok ((s.set child ((s child).goto .user)).set e ((s e).goto .user))
    else .ok (s.set e ((s e).goto .user))
  | .destroy => .ok (s.set e ⟨fun _ => none, fun _ => none, .free⟩)

def step (s : State E) : Act E → Except Refused (State E)
  | .call e c =>
    match (s e).status with
    | .running .user => begin dev s e c
    | _ => .error .notReady
  | .go e granted =>
    match (s e).status with
    | .running task => syscall dev s e granted task
    | _ => .error .notReady

end Calls

/-- `pipe`, where its system calls succeed: the state and the two descriptors. -/
def pipe [DecidableEq E] (s : State E) (e : E) : Option (State E × FdNum × FdNum) := do
  let k₀ ← (s e).fdAlloc
  let env := (s e).mapFd k₀ (some (.fd .read))
  let k₁ ← env.fdAlloc
  let env := env.mapFd k₁ (some (.fd .write))
  let env := (env.mapData k₀ (some .pipe)).mapData k₁ (some .pipe)
  return (s.set e env, k₀, k₁)

section Refs

variable [Fintype E]

def refs (s : State E) (p : Page) : ℕ :=
  ∑ e, ∑ k, ((if (s e).fd k = some p then 1 else 0) + (if (s e).data k = some p then 1 else 0))

/-- `region_maxref` of one page -/
def maxref (s : State E) : Option Page → ℕ
  | none => 0
  | some p => refs s p

/-- `_pipeisclosed(INDEX2FD(k), INDEX2DATA(k))` -/
def pipeIsClosed (s : State E) (e : E) (k : FdNum) : Prop :=
  maxref s ((s e).fd k) - (maxref s ((s e).data k) : ℤ) = 0
  deriving Decidable

end Refs

def IsEnd (p : Option Page) : Prop := ∃ x, p = some (.fd x)

/-- Whoever has an end has the pipe with it. -/
structure Held (env : Env E) : Prop where
  data : ∀ k, ¬ IsEnd (env.data k)
  pipe : ∀ k, IsEnd (env.fd k) → env.data k = some .pipe

/-- Where an environment is in its call, the mappings are in the right order. -/
def Task.Ordered (env : Env E) : Task E → Prop
  | .unmapData k _ | .undoData k => ¬ IsEnd (env.fd k)
  | .dupData _ new => ¬ IsEnd (env.fd new)
  | .dupFd old new => IsEnd (env.fd old) → env.data new = some .pipe
  | _ => True

def Status.Ordered (env : Env E) : Status E → Prop
  | .running task => task.Ordered env
  | _ => True

/-- What holds of every environment at any time. -/
structure Holder (env : Env E) : Prop extends Held env where
  ordered : env.status.Ordered env

variable {k : FdNum} {s : State E} {next : Next}

section Count

variable [Fintype E]

lemma refs_le (h : ∀ e, Holder (s e)) (x : End) : refs s (.fd x) + refs s (.fd x.other) ≤ refs s .pipe := by
  unfold refs
  rw [← sum_add_distrib]
  refine sum_le_sum fun e _ => ?_
  rw [← sum_add_distrib]
  refine sum_le_sum fun k _ => ?_
  have hx : (s e).data k ≠ some (.fd x) := fun hk => (h e).data k ⟨x, hk⟩
  have hy : (s e).data k ≠ some (.fd x.other) := fun hk => (h e).data k ⟨x.other, hk⟩
  rw [if_neg hx, if_neg hy]
  by_cases hfd : IsEnd ((s e).fd k)
  · rw [if_pos ((h e).pipe k hfd)]
    have hne : ¬ ((s e).fd k = some (.fd x) ∧ (s e).fd k = some (.fd x.other)) := by
      rintro ⟨h1, h2⟩
      rw [h1] at h2
      cases x <;> cases h2
    split_ifs <;> first | omega | exact absurd ⟨‹_›, ‹_›⟩ hne
  · rw [if_neg fun hk => hfd ⟨_, hk⟩, if_neg fun hk => hfd ⟨_, hk⟩]
    exact Nat.zero_le _

lemma refs_pos {p : Page} {e : E} (h : (s e).fd k = some p) : 0 < refs s p := by
  refine sum_pos' (fun _ _ => Nat.zero_le _) ⟨e, mem_univ e, ?_⟩
  refine sum_pos' (fun _ _ => Nat.zero_le _) ⟨k, mem_univ k, ?_⟩
  rw [if_pos h]
  omega

lemma not_mapped_of_closed (h : ∀ e, Holder (s e)) {e : E} {x : End}
    (hk : (s e).fd k = some (.fd x)) (hc : pipeIsClosed s e k) (e' : E) (k' : FdNum) :
    (s e').fd k' ≠ some (.fd x.other) := by
  intro hk'
  have hpos := refs_pos hk'
  have hle := refs_le h x
  rw [pipeIsClosed, hk, (h e).pipe k ⟨x, hk⟩] at hc
  simp only [maxref] at hc
  omega

end Count

section Mappings

variable {env : Env E} {k : FdNum} {p : Option Page} {task : Task E}

lemma not_isEnd_none : ¬ IsEnd none := by
  rintro ⟨x, hx⟩
  cases hx

section

variable (h : Held env)
include h

lemma Held.goto (task : Task E) : Held (env.goto task) := ⟨h.data, h.pipe⟩

lemma Held.holder (ho : task.Ordered env) : Holder (env.goto task) := by
  refine ⟨h.goto task, ?_⟩
  cases task <;> exact ho

lemma Held.mapFd (hp : IsEnd p → env.data k = some .pipe) : Held (env.mapFd k p) where
  data := h.data
  pipe := by
    intro j hj
    by_cases hjk : j = k
    · subst hjk
      refine hp ?_
      rwa [Env.fd_mapFd, update_self] at hj
    · refine h.pipe j ?_
      rwa [Env.fd_mapFd, update_of_ne hjk] at hj

lemma Held.unmapFd : Held (env.mapFd k none) := h.mapFd fun hn => absurd hn not_isEnd_none

lemma Held.mapData (hk : ¬ IsEnd (env.fd k)) (hp : ¬ IsEnd p) : Held (env.mapData k p) where
  data := by
    intro j
    by_cases hjk : j = k
    · subst hjk
      rwa [Env.data_mapData, update_self]
    · rw [Env.data_mapData, update_of_ne hjk]
      exact h.data j
  pipe := by
    intro j hj
    have hjk : j ≠ k := fun hjk => hk (hjk ▸ hj)
    rw [Env.data_mapData, update_of_ne hjk]
    exact h.pipe j hj

end

lemma fd_mapFd_none : ¬ IsEnd ((env.mapFd k none).fd k) := by
  rw [Env.fd_mapFd, update_self]
  exact not_isEnd_none

variable {dev : ℕ → Option Dev} {next : Next}

lemma fdClose_ordered {q : Page} : (fdClose dev k next q : Task E).Ordered env := by
  unfold fdClose
  split <;> trivial

lemma closeAll_ordered (rest : List FdNum) : (closeAll dev env rest).Ordered env := by
  induction rest with
  | nil => trivial
  | cons k rest ih =>
    unfold closeAll
    split
    · exact fdClose_ordered
    · exact ih

lemma resume_ordered (h : ¬ IsEnd (env.fd k)) : (resume dev env k next).Ordered env := by
  cases next with
  | done => trivial
  | dup old => exact h
  | exit rest => exact closeAll_ordered rest

lemma Held.close (h : Held env) : Holder (close dev env k next) := by
  unfold PipeRefs.close
  split
  · exact h.holder fdClose_ordered
  · rename_i hk
    exact h.holder (resume_ordered (by rw [hk]; exact not_isEnd_none))

end Mappings

/-- The child of a `fork` that is going on. -/
def Status.child : Status E → Option E
  | .running (.forkMap child) | .running (.forkUpcall child) | .running (.forkRun child) => some child
  | _ => none

def Forks (s : State E) : Prop :=
  ∀ e c, (s e).status.child = some c → (s c).status = .newborn ∧ ∀ e', (s e').status.child = some c → e' = e

/-- What holds of all environments at any time. -/
structure Inv (s : State E) : Prop where
  holder : ∀ e, Holder (s e)
  forks : Forks s

section Steps

variable {s s' : State E} {e c : E} {env : Env E} {task : Task E} {dev : ℕ → Option Dev} {granted : Bool}

lemma fdClose_child {q : Page} : (Status.running (fdClose dev k next q : Task E)).child = none := by
  unfold fdClose
  split <;> rfl

lemma closeAll_child (rest : List FdNum) : (Status.running (closeAll dev env rest)).child = none := by
  induction rest with
  | nil => rfl
  | cons k rest ih =>
    unfold closeAll
    split
    · exact fdClose_child
    · exact ih

lemma resume_child : (Status.running (resume dev env k next)).child = none := by
  cases next with
  | done | dup => rfl
  | exit rest => exact closeAll_child rest

lemma close_child : (close dev env k next).status.child = none := by
  unfold PipeRefs.close
  split
  · exact fdClose_child
  · exact resume_child

lemma Forks.not_child (h : Forks s) (hs : (s e).status ≠ .newborn) (e' : E) : (s e').status.child ≠ some e :=
  fun he' => hs (h e' e he').1

variable [DecidableEq E]

lemma State.set_self : s.set e env e = env := update_self ..

lemma State.set_of_ne {e' : E} (h : e' ≠ e) : s.set e env e' = s e' := update_of_ne h ..

lemma Forks.set (h : Forks s) (hs : ∀ e', (s e').status.child ≠ some e)
    (hc : env.status.child = none ∨ env.status.child = (s e).status.child) : Forks (s.set e env) := by
  have hold : ∀ {e' c : E}, (s.set e env e').status.child = some c → (s e').status.child = some c := by
    intro e' c he'
    by_cases heq : e' = e
    · subst heq
      rw [State.set_self] at he'
      rcases hc with hc | hc
      · rw [hc] at he'
        cases he'
      · rwa [← hc]
    · rwa [State.set_of_ne heq] at he'
  intro e' c he'
  obtain ⟨hnew, hone⟩ := h e' c (hold he')
  refine ⟨?_, fun e'' he'' => hone e'' (hold he'')⟩
  have hce : c ≠ e := by
    rintro rfl
    exact hs e' (hold he')
  rwa [State.set_of_ne hce]

lemma Forks.start (h : Forks s) (hs : (s e).status = .running .user) (hnew : (s c).status = .newborn)
    (hnone : ∀ e', (s e').status.child ≠ some c) : Forks (s.set e ((s e).goto (.forkMap c))) := by
  have hne : ∀ {d : E}, (s d).status = .newborn → d ≠ e := by
    rintro d hd rfl
    rw [hs] at hd
    cases hd
  intro e' d hd
  by_cases he : e' = e
  · subst he
    rw [State.set_self] at hd
    cases hd
    rw [State.set_of_ne (hne hnew)]
    refine ⟨hnew, fun e'' hd' => ?_⟩
    by_contra hne'
    rw [State.set_of_ne hne'] at hd'
    exact hnone e'' hd'
  · rw [State.set_of_ne he] at hd
    obtain ⟨hnew', hone⟩ := h e' d hd
    rw [State.set_of_ne (hne hnew')]
    refine ⟨hnew', fun e'' hd' => ?_⟩
    by_cases he'' : e'' = e
    · subst he''
      rw [State.set_self] at hd'
      cases hd'
      exact absurd hd (hnone e')
    · rw [State.set_of_ne he''] at hd'
      exact hone e'' hd'

lemma holder_set (h : ∀ e', Holder (s e')) (henv : Holder env) (e' : E) : Holder (s.set e env e') := by
  by_cases heq : e' = e
  · subst heq
    rwa [State.set_self]
  · rw [State.set_of_ne heq]
    exact h e'

section

variable (h : Inv s)
include h

lemma Inv.set (hs : ∀ e', (s e').status.child ≠ some e) (henv : Holder env)
    (hc : env.status.child = none ∨ env.status.child = (s e).status.child) : Inv (s.set e env) :=
  ⟨holder_set h.holder henv, h.forks.set hs hc⟩

lemma Inv.own (hs : (s e).status = .running task) (henv : Holder env)
    (hc : env.status.child = none) : Inv (s.set e env) :=
  h.set (h.forks.not_child (by rw [hs]; intro hn; cases hn)) henv (.inl hc)

lemma Inv.fork (hs : (s e).status = .running .user) (hc : (s c).status = .free) :
    Inv ((s.set c ⟨fun _ => none, fun _ => none, .newborn⟩).set e ((s e).goto (.forkMap c))) := by
  have hec : e ≠ c := by
    rintro rfl
    rw [hs] at hc
    cases hc
  have hfree : ∀ e', (s e').status.child ≠ some c := h.forks.not_child (by rw [hc]; intro hn; cases hn)
  have hempty : Holder (⟨fun _ => none, fun _ => none, .newborn⟩ : Env E) :=
    ⟨⟨fun _ => not_isEnd_none, fun _ hk => absurd hk not_isEnd_none⟩, trivial⟩
  have h1 : Inv (s.set c ⟨fun _ => none, fun _ => none, .newborn⟩) := h.set hfree hempty (.inl rfl)
  have he : s.set c ⟨fun _ => none, fun _ => none, .newborn⟩ e = s e := State.set_of_ne hec
  refine ⟨holder_set h1.holder ((h.holder e).toHeld.holder trivial), ?_⟩
  have hstart := h1.forks.start (e := e) (c := c) (by rw [he, hs]) (by rw [State.set_self]) fun e' => by
    by_cases hc' : e' = c
    · subst hc'
      rw [State.set_self]
      intro hn
      cases hn
    · rw [State.set_of_ne hc']
      exact hfree e'
  rwa [he] at hstart

lemma Inv.forkMap (hs : (s e).status = .running (.forkMap c)) :
    Inv ((s.set c { s c with fd := (s e).fd, data := (s e).data }).set e ((s e).goto (.forkUpcall c))) := by
  obtain ⟨hnew, hone⟩ := h.forks e c (by rw [hs]; rfl)
  have hchild : Holder { s c with fd := (s e).fd, data := (s e).data } :=
    ⟨⟨(h.holder e).data, (h.holder e).pipe⟩, by rw [hnew]; trivial⟩
  have hstep : Inv (s.set e ((s e).goto (.forkUpcall c))) :=
    h.set (h.forks.not_child (by rw [hs]; intro hn; cases hn)) ((h.holder e).toHeld.holder trivial)
      (.inr (by rw [hs]; rfl))
  refine ⟨holder_set (holder_set h.holder hchild) ((h.holder e).toHeld.holder trivial), ?_⟩
  intro e' d hd
  have hstatus : ∀ e', ((s.set c { s c with fd := (s e).fd, data := (s e).data }).set e
      ((s e).goto (.forkUpcall c)) e').status = (s.set e ((s e).goto (.forkUpcall c)) e').status := by
    intro e'
    by_cases he : e' = e
    · subst he
      rw [State.set_self, State.set_self]
    rw [State.set_of_ne he, State.set_of_ne he]
    by_cases hc : e' = c
    · subst hc
      rw [State.set_self]
    · rw [State.set_of_ne hc]
  rw [hstatus] at hd
  simp only [hstatus]
  exact hstep.forks e' d hd

lemma Inv.forkRun (hs : (s e).status = .running (.forkRun c)) :
    Inv ((s.set c ((s c).goto .user)).set e ((s e).goto .user)) := by
  obtain ⟨hnew, hone⟩ := h.forks e c (by rw [hs]; rfl)
  have hce : c ≠ e := by
    rintro rfl
    rw [hs] at hnew
    cases hnew
  have h1 : Inv (s.set e ((s e).goto .user)) := h.own hs ((h.holder e).toHeld.holder trivial) rfl
  -- its parent was the only one that was making it
  have h2 : ∀ e', (s.set e ((s e).goto .user) e').status.child ≠ some c := by
    intro e' he'
    by_cases he : e' = e
    · subst he
      rw [State.set_self] at he'
      cases he'
    · rw [State.set_of_ne he] at he'
      exact he (hone e' he')
  have huser : Holder ((s c).goto .user) := (h.holder c).toHeld.holder trivial
  have h3 := h1.set h2 huser (.inl rfl)
  rwa [State.set, State.set, update_comm hce.symm] at h3

lemma Inv.begin (hs : (s e).status = .running .user) {call : Call E} (hb : begin dev s e call = .ok s') : Inv s' := by
  have hheld := (h.holder e).toHeld
  cases call with
  | dup old new | close k =>
    rw [PipeRefs.begin] at hb
    split at hb
    · cases hb
      exact h.own hs hheld.close close_child
    · cases hb
      exact h
  | fork child =>
    rw [PipeRefs.begin] at hb
    split at hb
    · cases hb
      exact h.fork hs ‹_›
    · cases hb
  | exit =>
    cases hb
    exact h.own hs (hheld.holder (closeAll_ordered _)) (closeAll_child _)

lemma Inv.syscall (hs : (s e).status = .running task) (hb : syscall dev s e granted task = .ok s') : Inv s' := by
  have hheld := (h.holder e).toHeld
  have hord := (h.holder e).ordered
  rw [hs] at hord
  cases task with
  | user => cases hb
  | unmapFd k next =>
    cases hb
    exact h.own hs (hheld.unmapFd.holder fd_mapFd_none) rfl
  | unmapData k next =>
    cases hb
    exact h.own hs ((hheld.mapData hord not_isEnd_none).holder trivial) rfl
  | unmapAgain k next =>
    cases hb
    exact h.own hs (hheld.unmapFd.holder (resume_ordered fd_mapFd_none)) resume_child
  | dupData old new =>
    rw [PipeRefs.syscall] at hb
    split at hb
    · -- without a data page the descriptor is not an end
      rename_i hnone
      cases hb
      refine h.own hs (hheld.holder fun hend => ?_) rfl
      have := hheld.pipe old hend
      rw [hnone] at this
      cases this
    · rename_i p hp
      cases hb
      split
      · refine h.own hs ((hheld.mapData hord ?_).holder fun hend => ?_) rfl
        · rw [← hp]
          exact hheld.data old
        · rw [Env.data_mapData, update_self, ← hp]
          exact hheld.pipe old hend
      · exact h.own hs (hheld.holder trivial) rfl
  | dupFd old new =>
    rw [PipeRefs.syscall] at hb
    split at hb
    · split at hb
      · cases hb
        exact h.own hs (hheld.holder trivial) rfl
      · rename_i p hp
        cases hb
        refine h.own hs ((hheld.mapFd fun hend => ?_).holder trivial) rfl
        exact hord (hp ▸ hend)
    · cases hb
      exact h.own hs (hheld.holder trivial) rfl
  | undoFd new =>
    cases hb
    exact h.own hs (hheld.unmapFd.holder fd_mapFd_none) rfl
  | undoData new =>
    cases hb
    exact h.own hs ((hheld.mapData hord not_isEnd_none).holder trivial) rfl
  | forkMap child =>
    rw [PipeRefs.syscall] at hb
    split at hb
    · cases hb
      exact h.forkMap hs
    · cases hb
      exact h.own hs (hheld.holder trivial) rfl
  | forkUpcall child =>
    cases hb
    refine h.set (h.forks.not_child (by rw [hs]; intro hn; cases hn)) (hheld.holder ?_) ?_
    · split <;> trivial
    · rw [hs]
      cases granted
      · exact .inl rfl
      · exact .inr rfl
  | forkRun child =>
    rw [PipeRefs.syscall] at hb
    split at hb
    · cases hb
      exact h.forkRun hs
    · cases hb
      exact h.own hs (hheld.holder trivial) rfl
  | destroy =>
    cases hb
    exact h.own hs ⟨⟨fun _ => not_isEnd_none, fun _ hk => absurd hk not_isEnd_none⟩, trivial⟩ rfl

/-- **Every step keeps the pipe with its ends.** -/
lemma Inv.step {a : Act E} (hb : PipeRefs.step dev s a = .ok s') : Inv s' := by
  cases a with
  | call e call =>
    rw [PipeRefs.step] at hb
    split at hb
    · exact h.begin ‹_› hb
    · cases hb
  | go e granted =>
    rw [PipeRefs.step] at hb
    split at hb
    · exact h.syscall ‹_› hb
    · cases hb

lemma Inv.run {acts : List (Act E)} (hr : run (PipeRefs.step dev) s acts = .ok s') : Inv s' :=
  run_inv (P := fun _ => True) (fun _ _ _ hs _ hb => hs.step hb) h (fun _ _ => trivial) hr

end

omit [DecidableEq E] in
lemma fd_fdAlloc (h : env.fdAlloc = some k) : env.fd k = none := by
  have hk := List.find?_some h
  exact isNone_iff_eq_none.mp hk

lemma Inv.pipe (h : Inv s) (hs : (s e).status = .running .user) {x : FdNum × FdNum}
    (hp : PipeRefs.pipe s e = some (s', x)) : Inv s' := by
  simp only [PipeRefs.pipe, bind_eq_bind, bind_eq_some_iff, Option.pure_def, some.injEq, Prod.mk.injEq] at hp
  obtain ⟨k₀, h₀, k₁, h₁, rfl, -⟩ := hp
  have hk₀ := fd_fdAlloc h₀
  have hk₁ := fd_fdAlloc h₁
  have hne : k₁ ≠ k₀ := by
    rintro rfl
    rw [Env.fd_mapFd, update_self] at hk₁
    cases hk₁
  rw [Env.fd_mapFd, update_of_ne hne] at hk₁
  have hdata : Held (((s e).mapData k₀ (some .pipe)).mapData k₁ (some .pipe)) := by
    have hpipe : ¬ IsEnd (some Page.pipe) := by
      rintro ⟨x, hx⟩
      cases hx
    refine ((h.holder e).toHeld.mapData ?_ hpipe).mapData ?_ hpipe
    · rw [hk₀]
      exact not_isEnd_none
    · show ¬ IsEnd ((s e).fd k₁)
      rw [hk₁]
      exact not_isEnd_none
  have hheld := (hdata.mapFd (k := k₀) (p := some (.fd .read)) fun _ => by
    rw [Env.data_mapData, update_of_ne hne.symm, Env.data_mapData, update_self]).mapFd
    (k := k₁) (p := some (.fd .write)) fun _ => update_self ..
  exact h.own hs ⟨hheld, by show Status.Ordered _ (s e).status; rw [hs]; trivial⟩ (by
    show (s e).status.child = none
    rw [hs]
    rfl)

end Steps

structure Started (s : State E) : Prop where
  status : ∀ e, (s e).status = .free ∨ (s e).status = .running .user
  fd : ∀ e k, ¬ IsEnd ((s e).fd k)
  data : ∀ e k, ¬ IsEnd ((s e).data k)

lemma Started.inv (h : Started s) : Inv s where
  holder e := by
    refine ⟨⟨h.data e, fun k hk => absurd hk (h.fd e k)⟩, ?_⟩
    rcases h.status e with hs | hs <;> rw [hs] <;> trivial
  forks e c hc := by
    rcases h.status e with hs | hs <;> rw [hs] at hc <;> cases hc

/-- **A pipe that is in use never looks closed.** Environments run, one of them makes a pipe, and
they go on: whatever they do, and in whatever order their system calls come, when the holder of one
end takes the pipe for closed, nobody has the descriptor page of the other end mapped. -/
theorem pipe_closed_sound [DecidableEq E] [Fintype E] (dev : ℕ → Option Dev) {s₀ s₁ s₂ s : State E}
    (h₀ : Started s₀) {before after : List (Act E)} (h₁ : run (PipeRefs.step dev) s₀ before = .ok s₁)
    {maker : E} (hm : (s₁ maker).status = .running .user) {k₀ k₁ : FdNum}
    (hp : PipeRefs.pipe s₁ maker = some (s₂, k₀, k₁))
    (h₂ : run (PipeRefs.step dev) s₂ after = .ok s) {e : E} {k : FdNum} {x : End}
    (hk : (s e).fd k = some (.fd x)) (hc : pipeIsClosed s e k) (e' : E) (k' : FdNum) :
    (s e').fd k' ≠ some (.fd x.other) :=
  not_mapped_of_closed (((h₀.inv.run h₁).pipe hm hp).run h₂).holder hk hc e' k'

def alone : State Bool := fun e =>
  ⟨fun _ => none, fun _ => none, if e then .running .user else .free⟩

def fd₀ : FdNum := ⟨0, by decide⟩

def fd₁ : FdNum := ⟨1, by decide⟩

def piped : State Bool :=
  alone.set true ⟨Function.update (Function.update (fun _ => none) fd₀ (some (.fd .read))) fd₁ (some (.fd .write)),
    Function.update (Function.update (fun _ => none) fd₀ (some .pipe)) fd₁ (some .pipe), .running .user⟩

def closing : List (Act Bool) :=
  [.call true (.fork false), .go true true, .go true true, .go true true, .call true (.close 1),
    .call false (.close 1), .go true true, .go false true, .go true true, .go false true, .go true true,
    .go false true]

lemma alone_started : Started alone where
  status e := by cases e <;> [exact .inl rfl; exact .inr rfl]
  fd _ _ := not_isEnd_none
  data _ _ := not_isEnd_none

theorem pipe_closed_sound_closing :
    ∃ s, run (PipeRefs.step fun _ => none) piped closing = .ok s ∧ pipeIsClosed s true fd₀ ∧
      ∀ e k, (s e).fd k ≠ some (.fd .write) := by
  have hpipe : PipeRefs.pipe alone true = some (piped, fd₀, fd₁) := rfl
  have hrun : ∃ s, run (PipeRefs.step fun _ => none) piped closing = .ok s ∧
      (s true).fd fd₀ = some (.fd .read) ∧ pipeIsClosed s true fd₀ := by
    decide
  obtain ⟨s, hs, hk, hc⟩ := hrun
  exact ⟨s, hs, hc, pipe_closed_sound _ alone_started (run_nil alone) rfl hpipe hs hk hc⟩

end Jos.PipeRefs
