import Jos.EnvInv

/-!
Messages between environments: `sys_ipc_recv` and `sys_ipc_try_send`, with anything else that
environments and the scheduler do in between.

The scheduler changes of an environment only whether it is runnable or running; so a receiver waits
until its record is written by a send.
-/

namespace Jos.EnvTable

open CArray Runs

structure Env.Scheduled (e e' : Env) : Prop where
  record : e' = { e with status := e'.status, runs := e'.runs }
  status : e'.status = e.status ∨ e.status.Ready ∧ e'.status.Ready

def Table.Scheduled (σ σ' : Table) : Prop := ∀ s, (σ.envs s).Scheduled (σ'.envs s)

lemma Env.Scheduled.refl (e : Env) : e.Scheduled e := ⟨rfl, .inl rfl⟩

lemma Env.Scheduled.trans {e e' e'' : Env} (h : e.Scheduled e') (h' : e'.Scheduled e'') : e.Scheduled e'' := by
  refine ⟨by rw [h'.record, h.record], ?_⟩
  rcases h'.status with heq | ⟨hr, hr'⟩
  · rw [heq]
    exact h.status
  · rcases h.status with heq | ⟨hr₀, -⟩
    · exact .inr ⟨heq ▸ hr, hr'⟩
    · exact .inr ⟨hr₀, hr'⟩

lemma Table.Scheduled.refl (σ : Table) : σ.Scheduled σ := fun s => .refl (σ.envs s)

lemma Table.Scheduled.trans {σ σ' σ'' : Table} (h : σ.Scheduled σ') (h' : σ'.Scheduled σ'') :
    σ.Scheduled σ'' := fun s => (h s).trans (h' s)

variable {σ σ' : Table} {envid : EnvId} {s t c : Slot} {value perm : UInt32} {e e' : Env}
  {r : Result} {maxsz : UInt64} {m : Machine}

lemma Table.Scheduled.modify {f : Env → Env} (h : (σ.envs s).Scheduled (f (σ.envs s))) :
    σ.Scheduled (σ.modify s f) := by
  intro t
  rcases eq_or_ne t s with rfl | hne
  · rwa [Table.modify_same]
  · rw [Table.modify_other _ _ hne]
    exact .refl _

def Table.Stays (σ : Table) : Prop := ∀ c ∈ σ.curenv, (σ.envs c).status ≠ .dying

lemma leave_scheduled (h : σ.Stays) : σ.Scheduled (leave σ) := by
  unfold leave
  split
  · exact .refl σ
  · next c hc =>
    split
    · next hrun => exact .modify ⟨rfl, .inr ⟨.inr hrun, .inl rfl⟩⟩
    · next hdying => exact absurd hdying (h c hc)
    · exact .refl σ

lemma switchTo_scheduled (h : (σ.envs s).status.Ready) : σ.Scheduled (switchTo s σ) := by
  have hmod : σ.Scheduled (σ.modify s fun e => { e with status := .running, runs := e.runs + 1 }) :=
    .modify ⟨rfl, .inr ⟨h, .inr rfl⟩⟩
  exact hmod

lemma Env.Scheduled.ready (h : e.Scheduled e') (hr : e.status.Ready) : e'.status.Ready := by
  rcases h.status with heq | ⟨-, hr'⟩
  · rwa [heq]
  · exact hr'

lemma Env.Scheduled.live (h : e.Scheduled e') (hlive : e.status ≠ .free) : e'.status ≠ .free := by
  rcases h.status with heq | ⟨-, hready⟩
  · rwa [heq]
  · exact hready.live

lemma envRun_eq (h : σ.Stays) (s : Slot) : envRun s σ = switchTo s (leave σ) := by
  unfold envRun
  rw [if_neg]
  rintro ⟨c, hc, hdying, -⟩
  exact h c hc hdying

lemma envRun_scheduled (h : σ.Stays) (hs : (σ.envs s).status.Ready) : σ.Scheduled (envRun s σ) := by
  rw [envRun_eq h]
  have hleave := leave_scheduled h
  exact hleave.trans (switchTo_scheduled ((hleave s).ready hs))

lemma schedYield_scheduled (h : σ.Stays) : σ.Scheduled (schedYield σ) := by
  unfold schedYield schedYieldWith
  split
  · next s hs => exact envRun_scheduled h (pick_ready hs)
  · unfold schedHalt
    split
    all_goals exact .refl σ

lemma trapReturn_scheduled (h : σ.Stays) : σ.Scheduled (trapReturn σ) := by
  unfold trapReturn
  split
  · next c hc =>
    split
    · next hrun => exact envRun_scheduled h (.inr hrun)
    · exact schedYield_scheduled h
  · exact schedYield_scheduled h

structure Message where
  sender : EnvId
  value : UInt32
  perm : UInt32
  deriving DecidableEq, Repr

/-- The fields of an environment that messages are received with -/
structure Ipc where
  recving : Bool
  dstva : UInt64
  maxsz : UInt64
  message : Message
  deriving DecidableEq, Repr

def Env.ipc (e : Env) : Ipc :=
  ⟨e.ipcRecving, e.ipcDstva, e.ipcMaxsz, ⟨e.ipcFrom, e.ipcValue, e.ipcPerm⟩⟩

lemma Env.Scheduled.ipc (h : e.Scheduled e') : e'.ipc = e.ipc := by
  rw [h.record]
  rfl

/-- The environment a step sends a message to, if the call returns zero, and the message. -/
def Machine.sent (m : Machine) : Step → Option (Slot × Message)
  | .syscall (.ipcTrySend envid value srcva size perm mapping) =>
    match m.table.curenv with
    | none => none
    | some c =>
      match envid2env m.table envid false, sysIpcTrySend c envid value srcva size perm mapping m.table with
      | .found (some t), .ok (_, some 0) =>
        let page := srcva < maxUserAddress ∧ (m.table.envs t).ipcDstva < maxUserAddress
        some (t, ⟨(m.table.envs c).id, value, if page then perm else 0⟩)
      | _, _ => none
  | _ => none

def Machine.sentTo (m : Machine) (s : Slot) (i : Step) : List Message :=
  match m.sent i with
  | some (t, msg) => if t = s then [msg] else []
  | none => []

/-- The messages for an environment in a run -/
def deliveries (s : Slot) : Machine → List Step → List Message
  | _, [] => []
  | m, i :: is =>
    m.sentTo s i ++
      match step m i with
      | .ok m' => deliveries s m' is
      | .error _ => []

/-- The environment calls `sys_ipc_recv`. -/
def Receives (s : Slot) (m : Machine) : Step → Prop
  | .syscall (.ipcRecv _ _) => m.table.curenv = some s
  | _ => False

/-- An environment that waits is not destroyed, `sys_env_set_status` is not called for it, and `env_run`
only for one that is ready. -/
def LeftAlone (s : Slot) (m : Machine) : Step → Prop
  | .envFree t => t ≠ s
  | .envDestroy t => t ≠ s
  | .envRun t => t = s → (m.table.envs s).status.Ready
  | .syscall (.envSetStatus envid _) =>
    envid2env m.table envid true = .found (some s) → (m.table.envs s).ipcRecving = false
  | .syscall (.envDestroy envid) => envid2env m.table envid true ≠ .found (some s)
  | _ => True

instance (s : Slot) (m : Machine) : DecidablePred (Receives s m) := fun i => by
  unfold Receives
  split <;> infer_instance

instance (s : Slot) (m : Machine) : DecidablePred (LeftAlone s m) := fun i => by
  unfold LeftAlone
  split <;> infer_instance

def Env.Waits (e : Env) : Prop := e.status = .notRunnable ∧ e.ipcRecving = true

/-- No message is received: what was received last is still there, and the environment waits as before. -/
structure Env.Unsent (e e' : Env) : Prop where
  message : e'.ipc.message = e.ipc.message
  recving : e'.ipcRecving = true → e.ipcRecving = true
  waits : e.Waits → e'.Waits

lemma Env.Unsent.refl (e : Env) : e.Unsent e := ⟨rfl, fun h => h, fun h => h⟩

lemma Env.Unsent.trans {e e' e'' : Env} (h : e.Unsent e') (h' : e'.Unsent e'') : e.Unsent e'' :=
  ⟨h'.message.trans h.message, h.recving ∘ h'.recving, h'.waits ∘ h.waits⟩

lemma Env.Scheduled.waits (h : e.Scheduled e') (hw : e.Waits) : e'.Waits := by
  refine ⟨?_, (congrArg Ipc.recving h.ipc).trans hw.2⟩
  rcases h.status with heq | ⟨hready, -⟩
  · rw [heq]
    exact hw.1
  · rcases hready with hst | hst <;>
    · rw [hw.1] at hst
      cases hst

lemma Env.Scheduled.unsent (h : e.Scheduled e') : e.Unsent e' :=
  ⟨congrArg Ipc.message h.ipc, fun hr => (congrArg Ipc.recving h.ipc).symm.trans hr, h.waits⟩

lemma Machine.Inv.stays (h : m.Inv) : m.table.Stays := fun c _ => h.alive c

lemma envFree_other (σ : Table) (h : t ≠ s) : (envFree s σ).envs t = σ.envs t := by
  simp [envFree, σ.modify_other _ h]

lemma envFree_same (s : Slot) (σ : Table) :
    (envFree s σ).envs s = { σ.envs s with status := .free, link := σ.freeList } := by
  simp [envFree]

lemma envFree_stays (s : Slot) (h : σ.Stays) : (envFree s σ).Stays := by
  intro c hc
  rcases eq_or_ne c s with rfl | hne
  · rw [envFree_same]
    nofun
  · rw [envFree_other σ hne]
    exact h c hc

lemma envDestroy_scheduled (h : σ.Stays) : (envFree s σ).Scheduled (envDestroy s σ).1 := by
  unfold envDestroy
  simp only [envFree_setStatus]
  split
  · exact schedYield_scheduled (envFree_stays s h)
  · exact .refl _

lemma envDestroy_other (h : σ.Stays) (hne : t ≠ s) : (σ.envs t).Scheduled ((envDestroy s σ).1.envs t) := by
  have hsched := envDestroy_scheduled (s := s) h t
  rwa [envFree_other σ hne] at hsched

lemma envDestroy_curenv (h : σ.curenv = some c) : (envDestroy c σ).2 = none := by
  have hcur : (envFree c (σ.setStatus c .dying)).curenv = some c := h
  simp only [envDestroy, hcur, if_true]

lemma sysIpcTrySend_cases {srcva size : UInt64}
    {mapping : Mapping}
    (h : sysIpcTrySend c envid value srcva size perm mapping σ = .ok r) :
    (r.1 = σ ∧ ∃ e < 0, r.2 = some e) ∨ r = envDestroy c σ ∨
      ∃ t maxsz, envid2env σ envid false = .found (some t) ∧ (σ.envs t).ipcRecving = true ∧ r = deliver c t value
          (if srcva < maxUserAddress ∧ (σ.envs t).ipcDstva < maxUserAddress then perm else 0) maxsz σ := by
  unfold sysIpcTrySend at h
  split at h
  · cases h
    exact .inl ⟨rfl, -1, by decide, rfl⟩
  · next t ht =>
    split_ifs at h with hrecv hpage hoffset
    · cases h
      exact .inl ⟨rfl, _, by decide, rfl⟩
    · cases h
      exact .inl ⟨rfl, _, by decide, rfl⟩
    · cases mapping with
      | failed =>
        cases h
        exact .inl ⟨rfl, -1, by decide, rfl⟩
      | destroyed => exact .inr (.inl (Except.ok.inj h).symm)
      | done =>
        refine .inr (.inr ⟨t, min size (σ.envs t).ipcMaxsz, ht, by simpa using hrecv, ?_⟩)
        rw [if_pos hpage]
        exact (Except.ok.inj h).symm
    · refine .inr (.inr ⟨t, (σ.envs t).ipcMaxsz, ht, by simpa using hrecv, ?_⟩)
      rw [if_neg hpage]
      exact (Except.ok.inj h).symm
  · cases h

lemma deliver_other (h : s ≠ t) : (deliver c t value perm maxsz σ).1.envs s = σ.envs s := by
  simp [deliver, σ.modify_other _ h]

lemma deliver_same : (deliver c t value perm maxsz σ).1.envs t =
      { σ.envs t with
        ipcMaxsz := maxsz, ipcPerm := perm, ipcRecving := false, ipcFrom := (σ.envs c).id
        ipcValue := value, status := .runnable } := by
  simp [deliver]

lemma deliver_stays (h : σ.Stays) : (deliver c t value perm maxsz σ).1.Stays := by
  intro c' hc'
  rcases eq_or_ne c' t with rfl | hne
  · rw [deliver_same]
    nofun
  · rw [deliver_other hne]
    exact h c' hc'

lemma sysIpcRecv_cases (c : Slot) (dstva maxsize : UInt64) (σ : Table) :
    (∃ e < 0, sysIpcRecv c dstva maxsize σ = (σ, some e)) ∨
      ∃ σ', sysIpcRecv c dstva maxsize σ = (schedYield σ', none) ∧ (∀ t, t ≠ c → σ'.envs t = σ.envs t) ∧
        σ'.envs c = { σ.envs c with
          ipcRecving := true, status := .notRunnable
          ipcDstva := if dstva < maxUserAddress then dstva else (σ.envs c).ipcDstva
          ipcMaxsz := if dstva < maxUserAddress then maxsize else (σ.envs c).ipcMaxsz } ∧
        σ'.curenv = σ.curenv := by
  unfold sysIpcRecv
  iterate 3
    split
    · exact .inl ⟨_, by decide, rfl⟩
  exact .inr ⟨_, rfl, fun t ht => σ.modify_other _ ht, σ.modify_same _ _, rfl⟩

lemma sysIpcRecv_other {dstva maxsize : UInt64} (h : σ.Stays) (hne : t ≠ c) :
    (σ.envs t).Scheduled ((sysIpcRecv c dstva maxsize σ).1.envs t) := by
  rcases sysIpcRecv_cases c dstva maxsize σ with ⟨e, -, heq⟩ | ⟨σ', heq, hother, hsame, hcur⟩
  · rw [heq]
    exact .refl _
  · have hstays : σ'.Stays := by
      intro c' hc'
      rcases eq_or_ne c' c with rfl | hne'
      · rw [hsame]
        nofun
      · rw [hother c' hne']
        exact h c' (hcur ▸ hc')
    have hsched := schedYield_scheduled hstays t
    rw [hother t hne] at hsched
    rwa [heq]

lemma sysEnvSetStatus_cases {status : ℤ} (h : sysEnvSetStatus envid status σ = .ok r) :
    r.1 = σ ∨ ∃ u st, envid2env σ envid true = .found (some u) ∧ r.1 = σ.setStatus u st := by
  unfold sysEnvSetStatus at h
  split at h
  · cases h
    exact .inl rfl
  · next u hu =>
    split_ifs at h
    · cases h
      exact .inr ⟨u, .notRunnable, hu, rfl⟩
    · cases h
      exact .inr ⟨u, .runnable, hu, rfl⟩
    · cases h
      exact .inl rfl
  · cases h

lemma setStatus_other (status : Status) (h : t ≠ s) : (σ.setStatus s status).envs t = σ.envs t := σ.modify_other _ h

lemma trap_cases {m m' : Machine} {call : Call} (h : m.trap call = .ok m') :
    ∃ c r, m.table.curenv = some c ∧ (m.table.envs c).status = .running ∧
      Jos.EnvTable.syscall c call m.table = .ok r ∧
      m'.table = if r.1.2.isSome then trapReturn r.1.1 else r.1.1 := by
  unfold Machine.trap at h
  split at h
  · cases h
  · next c hc =>
    split_ifs at h with hrun
    obtain ⟨r, hr, h⟩ := bind_eq_ok.mp h
    cases h
    exact ⟨c, r, hc, not_ne_iff.mp hrun, hr, rfl⟩

lemma withEnv_eq_ok {m m' : Machine} {f : Table → Table} :
    m.withEnv s f = .ok m' ↔ (m.table.envs s).status ≠ .free ∧ { m with table := f m.table } = m' := by
  unfold Machine.withEnv
  split_ifs with hfree
  · simp [hfree]
  · simp [hfree]

lemma switchTo_other (σ : Table) (h : t ≠ s) : (switchTo s σ).envs t = σ.envs t := by
  simp [switchTo, σ.modify_other _ h]

lemma envAlloc_cases {parentId : EnvId} {type : EnvType} (h : envAlloc parentId type σ = .ok (σ', s)) :
    σ.freeList = some s ∧ (∀ t, t ≠ s → σ'.envs t = σ.envs t) ∧ σ'.curenv = σ.curenv ∧ σ'.envs s = { σ.envs s with
        id := nextId (σ.envs s).id s, parentId := parentId, type := type, status := .runnable, runs := 0
        ipcRecving := false } := by
  unfold envAlloc at h
  split at h
  · cases h
  · next s₀ hs₀ =>
    cases h
    exact ⟨hs₀, fun t ht => by simp [σ.modify_other _ ht], rfl, by simp⟩

lemma Machine.Inv.freeList_free (h : m.Inv) (hs : m.table.freeList = some s) : (m.table.envs s).status = .free := by
  obtain ⟨l, hchain, -, hl⟩ := h.free
  rw [hs] at hchain
  cases hchain with
  | cons hrest => exact (hl s).mp (List.mem_cons_self ..)

lemma envAlloc_unsent {s u : Slot} {parentId : EnvId} {type : EnvType}
    (h : m.Inv) (ha : envAlloc parentId type m.table = .ok (σ, u)) :
    (m.table.envs s).Unsent (σ.envs s) := by
  obtain ⟨hu, hother, -, hsame⟩ := envAlloc_cases ha
  rcases eq_or_ne s u with rfl | hne
  · refine ⟨by rw [hsame]; rfl, by rw [hsame]; nofun, fun hw => ?_⟩
    have hfree := h.freeList_free hu
    rw [hw.1] at hfree
    cases hfree
  · rw [hother s hne]
    exact .refl _

section Send

variable {m : Machine} {c s t : Slot} {envid : EnvId} {value : UInt32} {srcva size : UInt64} {perm : UInt32}
  {mapping : Mapping} {r : Result} {msg : Message}

lemma sent_eq_some (hc : m.table.curenv = some c)
    (hr : sysIpcTrySend c envid value srcva size perm mapping m.table = .ok r) :
    m.sent (.syscall (.ipcTrySend envid value srcva size perm mapping)) = some (t, msg) ↔
      envid2env m.table envid false = .found (some t) ∧ r.2 = some 0 ∧ msg = ⟨(m.table.envs c).id, value,
          if srcva < maxUserAddress ∧ (m.table.envs t).ipcDstva < maxUserAddress then perm else 0⟩ := by
  simp only [Machine.sent, hc, hr]
  split
  · next t' σ' hfound hres =>
    cases hres
    rw [Option.some.injEq, Prod.mk.injEq]
    refine ⟨?_, ?_⟩
    · rintro ⟨rfl, rfl⟩
      exact ⟨hfound, rfl, rfl⟩
    · rintro ⟨hfound', -, rfl⟩
      rw [hfound] at hfound'
      cases hfound'
      exact ⟨rfl, rfl⟩
  · next hno =>
    refine ⟨nofun, fun h => ?_⟩
    exact (hno t r.1 h.1 (by rw [← h.2.1])).elim

lemma sysIpcTrySend_unsent (h : m.Inv) (hc : m.table.curenv = some c) (hrun : (m.table.envs c).status = .running)
    (hr : sysIpcTrySend c envid value srcva size perm mapping m.table = .ok r)
    (hno : ∀ msg, m.sent (.syscall (.ipcTrySend envid value srcva size perm mapping)) ≠ some (s, msg)) :
    (m.table.envs s).Unsent (r.1.envs s) := by
  rcases sysIpcTrySend_cases hr with ⟨hsame, -⟩ | rfl | ⟨t, maxsz, ht, -, rfl⟩
  · rw [hsame]
    exact .refl _
  · -- the sender is destroyed, and it is not one that waits
    rcases eq_or_ne s c with rfl | hne
    · refine .trans ?_ (envDestroy_scheduled h.stays s).unsent
      rw [envFree_same]
      refine ⟨rfl, fun hrecv => hrecv, fun hw => ?_⟩
      rw [hw.1] at hrun
      cases hrun
    · exact (envDestroy_other h.stays hne).unsent
  · have hne : s ≠ t := by
      rintro rfl
      exact hno _ ((sent_eq_some hc hr).mpr ⟨ht, rfl, rfl⟩)
    rw [deliver_other hne]
    exact .refl _

lemma sysIpcTrySend_sent (hc : m.table.curenv = some c)
    (hr : sysIpcTrySend c envid value srcva size perm mapping m.table = .ok r)
    (hsent : m.sent (.syscall (.ipcTrySend envid value srcva size perm mapping)) = some (s, msg)) :
    (m.table.envs s).ipcRecving = true ∧ (r.1.envs s).ipcRecving = false ∧
      (r.1.envs s).ipc.message = msg ∧ (r.1.envs s).status = .runnable := by
  obtain ⟨hs, hzero, rfl⟩ := (sent_eq_some hc hr).mp hsent
  rcases sysIpcTrySend_cases hr with ⟨-, e, he, hres⟩ | rfl | ⟨t, maxsz, ht, hrecv, rfl⟩
  · rw [hres] at hzero
    cases hzero
    exact absurd he (lt_irrefl _)
  · -- a call that destroys its environment does not return
    rw [envDestroy_curenv hc] at hzero
    cases hzero
  · rw [hs] at ht
    cases ht
    rw [deliver_same]
    exact ⟨hrecv, rfl, rfl, rfl⟩

end Send

section Steps

variable {m m' : Machine} {c s : Slot} {i : Step}

lemma sysEnvSetStatus_unsent {status : ℤ} (hl : LeftAlone s m (.syscall (.envSetStatus envid status)))
    (hr : sysEnvSetStatus envid status m.table = .ok r) : (m.table.envs s).Unsent (r.1.envs s) := by
  rcases sysEnvSetStatus_cases hr with hsame | ⟨u, st, hu, hset⟩
  · rw [hsame]
    exact .refl _
  · rw [hset]
    rcases eq_or_ne s u with rfl | hne
    · rw [Table.setStatus, Table.modify_same]
      refine ⟨rfl, fun hrecv => hrecv, fun hw => ?_⟩
      have hrecv := hl hu
      rw [hw.2] at hrecv
      cases hrecv
    · rw [setStatus_other st hne]
      exact .refl _

lemma sysExofork_cases {stale : Stale} {r : Result × List EnvId} (hfree : σ.freeList.isSome)
    (hr : sysExofork c stale σ = .ok r) :
    ∃ σ' u, envAlloc (σ.envs c).id .user σ = .ok (σ', u) ∧ r.1.1 = σ'.setStatus u .notRunnable := by
  unfold sysExofork at hr
  split at hr
  · next σ' u ha =>
    cases hr
    exact ⟨σ', u, ha, rfl⟩
  · next e ha =>
    obtain ⟨u, hu⟩ := Option.isSome_iff_exists.mp hfree
    unfold envAlloc at ha
    rw [hu] at ha
    cases ha

lemma sysExofork_unsent {stale : Stale} {r : Result × List EnvId} (h : m.Inv) (hfree : m.table.freeList.isSome)
    (hr : sysExofork c stale m.table = .ok r) : (m.table.envs s).Unsent (r.1.1.envs s) := by
  obtain ⟨σ, u, ha, hσ⟩ := sysExofork_cases hfree hr
  refine (envAlloc_unsent h ha).trans ?_
  rw [hσ]
  unfold Table.setStatus
  rcases eq_or_ne s u with rfl | hne
  · rw [Table.modify_same, (envAlloc_cases ha).2.2.2]
    exact ⟨rfl, fun hrecv => hrecv, fun hw => absurd hw.1 nofun⟩
  · rw [Table.modify_other _ _ hne]
    exact .refl _

lemma sysEnvDestroy_unsent (h : m.Inv)
    (hl : LeftAlone s m (.syscall (.envDestroy envid))) (hr : sysEnvDestroy envid m.table = .ok r) :
    (m.table.envs s).Unsent (r.1.envs s) := by
  unfold sysEnvDestroy at hr
  split at hr
  · cases hr
    exact .refl _
  · next u hu =>
    cases hr
    have hne : s ≠ u := fun heq => hl (heq ▸ hu)
    exact (envDestroy_other h.stays hne).unsent
  · cases hr

lemma syscall_unsent {call : Call} {r : Result × List EnvId} (h : m.Inv) (hc : m.table.curenv = some c)
    (hrun : (m.table.envs c).status = .running) (hf : Forks m (.syscall call))
    (hl : LeftAlone s m (.syscall call)) (hrecv : ¬Receives s m (.syscall call))
    (hr : Jos.EnvTable.syscall c call m.table = .ok r)
    (hno : ∀ msg, m.sent (.syscall call) ≠ some (s, msg)) : (m.table.envs s).Unsent (r.1.1.envs s) := by
  cases call with
  | exofork stale => exact sysExofork_unsent h hf hr
  | envSetStatus envid status =>
    obtain ⟨r', hr', rfl⟩ := map_eq_ok.mp hr
    exact sysEnvSetStatus_unsent hl hr'
  | ipcTrySend envid value srcva size perm mapping =>
    obtain ⟨r', hr', rfl⟩ := map_eq_ok.mp hr
    exact sysIpcTrySend_unsent h hc hrun hr' hno
  | ipcRecv dstva maxsize =>
    cases hr
    have hne : s ≠ c := fun heq => hrecv (heq ▸ hc)
    exact (sysIpcRecv_other h.stays hne).unsent
  | envDestroy envid =>
    obtain ⟨r', hr', rfl⟩ := map_eq_ok.mp hr
    exact sysEnvDestroy_unsent h hl hr'
  | yield =>
    cases hr
    exact (schedYield_scheduled h.stays s).unsent

/-- **A step without a message** to the environment. -/
lemma step_unsent (h : m.Inv) (hf : Forks m i) (hl : LeftAlone s m i) (hrecv : ¬Receives s m i)
    (hs : step m i = .ok m') (hno : ∀ msg, m.sent i ≠ some (s, msg)) :
    (m.table.envs s).Unsent (m'.table.envs s) := by
  cases i with
  | envAlloc parentId type =>
    simp only [step] at hs
    split at hs
    · cases hs
      exact .refl _
    · next σ u ha =>
      cases hs
      exact envAlloc_unsent h ha
  | envFree t =>
    obtain ⟨-, rfl⟩ := withEnv_eq_ok.mp hs
    rw [envFree_other _ (Ne.symm hl)]
    exact .refl _
  | envDestroy t =>
    obtain ⟨-, rfl⟩ := (withEnv_eq_ok (f := fun σ => (envDestroy t σ).1)).mp hs
    exact (envDestroy_other h.stays (Ne.symm hl)).unsent
  | envRun t =>
    obtain ⟨-, rfl⟩ := withEnv_eq_ok.mp hs
    dsimp only
    rcases eq_or_ne t s with rfl | hne
    · exact (envRun_scheduled h.stays (hl rfl) t).unsent
    · rw [envRun_eq h.stays]
      refine (leave_scheduled h.stays s).unsent.trans ?_
      rw [switchTo_other _ hne.symm]
      exact .refl _
  | schedYield =>
    cases hs
    exact (schedYield_scheduled h.stays s).unsent
  | syscall call =>
    obtain ⟨c, r, hc, hrun, hr, hm'⟩ := trap_cases hs
    have hlive : (m.table.envs c).status ≠ .free := Status.Ready.live (.inr hrun)
    have hinv := syscall_inv h hc hlive hf hr
    have hunsent := syscall_unsent h hc hrun hf hl hrecv hr hno
    rw [hm']
    split
    · exact hunsent.trans (trapReturn_scheduled hinv.stays s).unsent
    · exact hunsent

/-- **A step with a message** to the environment. -/
lemma step_sent {msg : Message} (h : m.Inv) (hs : step m i = .ok m') (hsent : m.sent i = some (s, msg)) :
    (m.table.envs s).ipcRecving = true ∧ (m'.table.envs s).ipcRecving = false ∧
      (m'.table.envs s).ipc.message = msg ∧ (m'.table.envs s).status.Ready := by
  have hcall : ∃ envid value srcva size perm mapping,
      i = .syscall (.ipcTrySend envid value srcva size perm mapping) := by
    unfold Machine.sent at hsent
    split at hsent
    · exact ⟨_, _, _, _, _, _, rfl⟩
    · cases hsent
  obtain ⟨envid, value, srcva, size, perm, mapping, rfl⟩ := hcall
  obtain ⟨c, r, hc, hrun, hr, hm'⟩ := trap_cases hs
  have hlive : (m.table.envs c).status ≠ .free := Status.Ready.live (.inr hrun)
  have hf : Forks m (.syscall (.ipcTrySend envid value srcva size perm mapping)) := trivial
  have hinv := syscall_inv h hc hlive hf hr
  obtain ⟨r', hr', rfl⟩ := map_eq_ok.mp hr
  obtain ⟨hrecv, hdone, hmsg, hstatus⟩ := sysIpcTrySend_sent hc hr' hsent
  have hzero := ((sent_eq_some hc hr').mp hsent).2.1
  rw [hzero] at hm'
  have hsched := trapReturn_scheduled hinv.stays s
  rw [hm']
  exact ⟨hrecv, (congrArg Ipc.recving hsched.ipc).trans hdone, (congrArg Ipc.message hsched.ipc).trans hmsg,
    hsched.ready (.inl hstatus)⟩

end Steps

section Once

variable {m m₀ m' : Machine} {s : Slot} {pre mid : List Step}

def Between (s : Slot) (m : Machine) (i : Step) : Prop := Forks m i ∧ LeftAlone s m i ∧ ¬Receives s m i
  deriving Decidable

lemma sentTo_eq_nil {i : Step} (h : ∀ msg, m.sent i ≠ some (s, msg)) : m.sentTo s i = [] := by
  unfold Machine.sentTo
  split
  · next t msg hsent =>
    rw [if_neg]
    rintro rfl
    exact h msg hsent
  · rfl

lemma sentTo_eq_singleton {i : Step} {msg : Message} (h : m.sent i = some (s, msg)) : m.sentTo s i = [msg] := by
  simp only [Machine.sentTo, h, if_true]

/-- What becomes of an environment that does not receive again: it gets no message, and what it has
received is still there; or it waited, and gets one. -/
lemma run_deliveries (h : m.Inv) (hmid : Meets step (Between s) m mid) (hrun : run step m mid = .ok m') :
    deliveries s m mid = [] ∧ (m.table.envs s).Unsent (m'.table.envs s) ∨
      (m.table.envs s).ipcRecving = true ∧ (m'.table.envs s).ipcRecving = false ∧
        deliveries s m mid = [(m'.table.envs s).ipc.message] := by
  induction mid generalizing m with
  | nil =>
    cases hrun
    exact .inl ⟨rfl, .refl _⟩
  | cons i mid ih =>
    obtain ⟨⟨hf, hl, hr⟩, hmeets⟩ := hmid
    cases hs : step m i with
    | error e => rw [run_cons_error hs] at hrun; cases hrun
    | ok m₁ =>
      rw [run_cons_ok hs] at hrun
      rw [hs] at hmeets
      have ih := ih (step_inv m i m₁ h hf hs) hmeets hrun
      simp only [deliveries, hs]
      by_cases hsent : ∃ msg, m.sent i = some (s, msg)
      · -- the message; the environment does not wait any more
        obtain ⟨msg, hsent⟩ := hsent
        obtain ⟨hrecv, hdone, hmsg, -⟩ := step_sent h hs hsent
        rw [sentTo_eq_singleton hsent]
        rcases ih with ⟨hnil, hunsent⟩ | ⟨hrecv₁, -⟩
        · refine .inr ⟨hrecv, ?_, ?_⟩
          · exact Bool.eq_false_iff.mpr fun hr' => by
              rw [hunsent.recving hr'] at hdone
              cases hdone
          · rw [hnil, hunsent.message, hmsg]
            rfl
        · rw [hrecv₁] at hdone
          cases hdone
      · have hno := not_exists.mp hsent
        have hunsent := step_unsent h hf hl hr hs hno
        rw [sentTo_eq_nil hno, List.nil_append]
        exact ih.imp (And.imp_right hunsent.trans) (And.imp_left hunsent.recving)

lemma sysIpcRecv_waits {dstva maxsize : UInt64} (hc : σ.curenv = some s)
    (hnone : (sysIpcRecv s dstva maxsize σ).2 = none) : ((sysIpcRecv s dstva maxsize σ).1.envs s).Waits := by
  rcases sysIpcRecv_cases s dstva maxsize σ with ⟨e, -, heq⟩ | ⟨σ', heq, -, hsame, hcur⟩
  · rw [heq] at hnone
    cases hnone
  · have hstays : σ'.Stays := by
      intro c' hc'
      rw [hcur, hc] at hc'
      cases hc'
      rw [hsame]
      nofun
    rw [heq]
    refine (schedYield_scheduled hstays s).waits ?_
    rw [hsame]
    exact ⟨rfl, rfl⟩

lemma trySend_error {srcva size : UInt64}
    {mapping : Mapping} {e : ℤ} (hc : σ.curenv = some c) (hrun : (σ.envs c).status = .running)
    (h : sysIpcTrySend c envid value srcva size perm mapping σ = .ok (σ', some e)) (he : e < 0) (t : Slot) :
    ∃ runs, (trapReturn σ').envs t = { σ.envs t with runs := runs } := by
  have hsame : σ' = σ := by
    rcases sysIpcTrySend_cases h with ⟨hsame, -⟩ | hdestroy | ⟨t, maxsz, -, -, hdeliver⟩
    · exact hsame
    · have hnone := envDestroy_curenv hc
      rw [← hdestroy] at hnone
      cases hnone
    · cases hdeliver
      exact absurd he (lt_irrefl _)
  have hstays : σ.Stays := by
    intro c' hc'
    rw [hc] at hc'
    cases hc'
    rw [hrun]
    nofun
  -- the sender is left and run again
  have htrap : trapReturn σ = switchTo c (σ.setStatus c .runnable) := by
    simp only [trapReturn, hc, hrun, if_true, envRun_eq hstays, leave]
  rw [hsame, htrap]
  rcases eq_or_ne t c with rfl | hne
  · refine ⟨(σ.envs t).runs + 1, ?_⟩
    simp [switchTo, Table.setStatus, ← hrun]
  · rw [switchTo_other _ hne]
    exact ⟨_, σ.modify_other _ hne⟩

/-- **Each message is delivered at most once.** From a receive of an environment on, up to its next
one, at most one send to it succeeds; it waits until then; what it reads is what was sent; and a
send that fails changes nothing. -/
theorem ipc_at_most_once {dstva maxsize : UInt64} (hpre : run step boot pre = .ok m₀)
    (hforks : Meets step Forks boot pre) (hs : m₀.table.curenv = some s)
    (hrecv : step m₀ (.syscall (.ipcRecv dstva maxsize)) = .ok m)
    (hmid : Meets step (Between s) m mid) (hrun : run step m mid = .ok m') :
    (deliveries s m mid).length ≤ 1 ∧
    ((sysIpcRecv s dstva maxsize m₀.table).2 = none → deliveries s m mid = [] →
      (m'.table.envs s).status = .notRunnable) ∧
    (∀ msg ∈ deliveries s m mid, (m'.table.envs s).ipc.message = msg) ∧
    ∀ c envid value srcva size perm mapping σ e, m'.table.curenv = some c →
      (m'.table.envs c).status = .running →
      sysIpcTrySend c envid value srcva size perm mapping m'.table = .ok (σ, some e) → e < 0 →
      ∀ t, ∃ runs, (trapReturn σ).envs t = { m'.table.envs t with runs := runs } := by
  have h₀ : m₀.Inv := run_inv_when step_inv boot_inv hforks.along hpre
  have hm : m.Inv := step_inv m₀ _ m h₀ (show Forks m₀ (.syscall (.ipcRecv _ _)) from trivial) hrecv
  have hcases := run_deliveries hm hmid hrun
  refine ⟨?_, fun hnone hnil => ?_, fun msg hmsg => ?_, ?_⟩
  · rcases hcases with ⟨hnil, -⟩ | ⟨-, -, hone⟩
    · rw [hnil]
      exact Nat.zero_le 1
    · rw [hone]
      exact le_rfl
  · obtain ⟨c, r, hc, -, hr, htable⟩ := trap_cases hrecv
    rw [hs] at hc
    cases hc
    cases hr
    rw [hnone] at htable
    have hwaits : (m.table.envs s).Waits := htable ▸ sysIpcRecv_waits hs hnone
    rcases hcases with ⟨-, hunsent⟩ | ⟨-, -, hone⟩
    · exact (hunsent.waits hwaits).1
    · rw [hone] at hnil
      cases hnil
  · rcases hcases with ⟨hnil, -⟩ | ⟨-, -, hone⟩
    · rw [hnil] at hmsg
      cases hmsg
    · rw [hone, List.mem_singleton] at hmsg
      exact hmsg.symm
  · intro c envid value srcva size perm mapping σ e hc hst hsend he
    exact trySend_error hc hst hsend he

def twoEnvs : List Step := [.envAlloc 0 .user, .envAlloc 0 .user, .envRun firstSlot]

def sendTwice : List Step :=
  [.syscall (.ipcTrySend 0x1000 7 0x8000000000 0 0 .done),
    .syscall (.ipcTrySend 0x1000 8 0x8000000000 0 0 .done)]

theorem ipc_at_most_once_sendTwice :
    ∃ m₀ m m', run step boot twoEnvs = .ok m₀ ∧ step m₀ (.syscall (.ipcRecv 0x8000000000 0)) = .ok m ∧
      run step m sendTwice = .ok m' ∧ deliveries firstSlot m sendTwice = [⟨0x1001, 7, 0⟩] ∧
      (deliveries firstSlot m sendTwice).length ≤ 1 ∧
      ∀ msg ∈ deliveries firstSlot m sendTwice, (m'.table.envs firstSlot).ipc.message = msg := by
  have hruns : ∃ m₀, run step boot twoEnvs = .ok m₀ ∧ m₀.table.curenv = some firstSlot ∧
      ∃ m, run step m₀ [.syscall (.ipcRecv 0x8000000000 0)] = .ok m ∧
        Meets step (Between firstSlot) m sendTwice ∧
        deliveries firstSlot m sendTwice = [⟨0x1001, 7, 0⟩] ∧
        ∃ m', run step m sendTwice = .ok m' ∧ True := by
    decide +kernel
  obtain ⟨m₀, hpre, hcur, m, hrecv, hmid, hone, m', hrun, -⟩ := hruns
  have hforks : Meets step Forks boot twoEnvs := by decide +kernel
  rw [run_singleton] at hrecv
  obtain ⟨hlen, -, hread, -⟩ := ipc_at_most_once hpre hforks hcur hrecv hmid hrun
  exact ⟨m₀, m, m', hpre, hrecv, hrun, hone, hlen, hread⟩

end Once

end Jos.EnvTable
