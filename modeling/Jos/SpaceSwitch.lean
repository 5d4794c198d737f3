import Jos.EnvTable
import Jos.Outcome

/-!
Which page table is loaded: the register `CR3` against `current_space`, over the functions that
change one of them.

What a function finds in memory, and with it the path it takes, is part of its arguments. A
function that ends in `env_run` does not return; it ends with the processor in the environment.
-/

namespace Jos.SpaceSwitch

open EnvTable Outcome Runs Function Option

inductive SpaceRef
  | kspace
  | env (s : Slot)
  deriving DecidableEq, Repr

structure Cpu where
  cr3 : UInt64
  current : Option SpaceRef
  /-- the field `cr3` of an address space -/
  cr3Of : SpaceRef → UInt64
  live : Slot → Bool
  curenv : Option Slot
  /-- the register and the field of the current space, wherever a function returned or an
  environment was resumed -/
  points : List (UInt64 × Option UInt64)

def Cpu.point (c : Cpu) : Cpu := { c with points := (c.cr3, c.current.map c.cr3Of) :: c.points }

def lcr3 (val : UInt64) (c : Cpu) : Cpu := { c with cr3 := val }

inductive Stop
  | assertion
  | nullPointer
  | panic
  /-- the monitor is entered for good -/
  | halted
  /-- not a call that the kernel makes: the environment is free -/
  | dead
  deriving DecidableEq, Repr

/-- How a function ends that does not return -/
inductive Exit
  | resumed (c : Cpu)
  | stop (s : Stop)

def switchAddressSpace (space : Option SpaceRef) (c : Cpu) : Except Exit (Cpu × Option SpaceRef) :=
  match space with
  | none => .error (.stop .assertion)
  | some sp =>
    if some sp = c.current then .ok (c.point, some sp)
    else .ok ((lcr3 (c.cr3Of sp) { c with current := some sp }).point, c.current)

/-- `init_address_space`, for a free slot -/
def initAddressSpace (s : Slot) (cr3 : UInt64) (c : Cpu) : Except Exit Cpu :=
  if c.live s then .error (.stop .dead)
  else
    .ok { c with
      cr3Of := Function.update c.cr3Of (.env s) cr3
      live := Function.update c.live s true }.point

def envRun (s : Slot) (c : Cpu) : Except Exit Cpu :=
  if !c.live s then .error (.stop .dead)
  else do
    let r ← switchAddressSpace (some (.env s)) { c with curenv := some s }
    .error (.resumed r.1.point)

/-- `sched_yield` with the environment it finds -/
def schedYield (next : Option Slot) (c : Cpu) : Except Exit Cpu :=
  match next with
  | none => .error (.stop .halted)
  | some s => envRun s c

/-- `env_free`: the address space is cleared when it has been left. -/
def envFree (s : Slot) (c : Cpu) : Except Exit Cpu := do
  let c ← (if some (.env s) = c.current then Prod.fst <$> switchAddressSpace (some .kspace) c else .ok c)
  .ok { c with
    cr3Of := Function.update c.cr3Of (.env s) 0
    live := Function.update c.live s false }.point

def envDestroy (s : Slot) (next : Option Slot) (c : Cpu) : Except Exit Cpu := do
  let c ← envFree s c
  if c.curenv = some s then schedYield next c else .ok c.point

def memcpyPage (dst : SpaceRef) (c : Cpu) : Except Exit Cpu :=
  if c.current = none then .error (.stop .assertion)
  else do
    let r ← switchAddressSpace (some dst) c
    let r' ← switchAddressSpace r.2 r.1
    .ok r'.1.point

inductive Res
  | ok
  | noMem
  | fault
  deriving DecidableEq, Repr

/-- What `force_alloc_page` finds: no lazy mapping, one of an unshared page, or one of a page to be copied,
with the result -/
inductive Forced
  | fault
  | unique (res : Res)
  | copy (res : Res)
  deriving DecidableEq, Repr

def Forced.res : Forced → Res
  | .fault => .fault
  | .unique res => res
  | .copy res => res

def forceAllocPage (spc : SpaceRef) (va : UInt64) (forced : Forced) (next : Option Slot) (c : Cpu) :
    Except Exit (Cpu × Res) :=
  if c.current = none then .error (.stop .assertion)
  else do
    let spc := if maxUserAddress < va then .kspace else spc
    let r ← switchAddressSpace (some spc) c
    let c ← (if forced = .copy .ok then memcpyPage spc r.1 else .ok r.1)
    let r' ← switchAddressSpace r.2 c
    if forced.res = .noMem then
      match spc with
      | .kspace => .error (.stop .panic)
      | .env s => do
        let c ← envDestroy s next r'.1
        .ok (c.point, .noMem)
    else .ok (r'.1.point, forced.res)

/-- One page of the source that is lazy and is to be mapped for good -/
structure LazyPage where
  src : UInt64
  forced : Forced
  next : Option Slot
  deriving DecidableEq, Repr

/-- The calls of `do_map_page` for the lazy pages of a region, up to one that fails -/
def doMapPages (sspace : SpaceRef) : List LazyPage → Cpu → Except Exit Cpu
  | [], c => .ok c.point
  | p :: ps, c => do
    let r ← forceAllocPage sspace p.src p.forced p.next c
    if r.2 = .ok then doMapPages sspace ps r.1.point else .ok r.1.point

/-- What `do_map_region_one_page` maps -/
inductive OnePage
  /-- shared pages, filled after their allocation -/
  | shared (allocated : Bool)
  /-- the page of zeros or of ones, to be copied later -/
  | filler
  /-- pages of another region -/
  | region (sspace : SpaceRef) (pages : List LazyPage)
  deriving DecidableEq, Repr

def doMapRegionOnePage (dspace : SpaceRef) (what : OnePage) (c : Cpu) : Except Exit Cpu :=
  match what with
  | .shared allocated =>
    if !allocated then .ok c.point
    else if c.current = none then .error (.stop .assertion)
    else do
      let r ← switchAddressSpace (some dspace) c
      let r' ← switchAddressSpace r.2 r.1
      .ok r'.1.point
  | .filler => .ok c.point
  | .region sspace pages => do
    let c ← doMapPages sspace pages c
    .ok c.point

/-- `user_mem_assert`, for a range that can be used or not -/
def userMemAssert (s : Slot) (usable : Bool) (next : Option Slot) (c : Cpu) : Except Exit Cpu :=
  if usable then .ok c.point
  else do
    let c ← envDestroy s next c
    .ok c.point

/-- A page fault: whether it is one of user mode, whether there is an upcall, what the exception
stack is -/
structure PageFault where
  user : Bool
  upcall : Bool
  forced : Forced
  usable : Bool
  next : Option Slot
  deriving DecidableEq, Repr

def pageFaultHandler (fault : PageFault) (c : Cpu) : Except Exit Cpu :=
  if !fault.user then .error (.stop .panic)
  else
    match c.curenv with
    | none => .error (.stop .nullPointer)
    | some s =>
      if !fault.upcall then do
        let c ← userMemAssert s fault.usable fault.next c
        let _ ← envDestroy s fault.next c
        .error (.stop .panic)
      else do
        let r ← forceAllocPage (.env s) (maxUserAddress - 0x1000) fault.forced fault.next c
        let c ← userMemAssert s fault.usable fault.next r.1
        let r ← switchAddressSpace (some (.env s)) c
        let r' ← switchAddressSpace r.2 r.1
        envRun s r'.1

/-- `debuginfo_rip` loads the page table of the kernel, as far as the register is concerned. -/
def debuginfoRip (addr : UInt64) (c : Cpu) : Except Exit Cpu :=
  if addr = 0 then .ok c.point
  else
    match c.curenv with
    | none => .error (.stop .nullPointer)
    | some s =>
      if c.cr3Of (.env s) ≠ c.cr3Of .kspace then .ok (lcr3 (c.cr3Of .kspace) c).point
      else .ok c.point

/-- After `init_memory`, with the page table of the kernel -/
def boot (cr3 : UInt64) : Cpu where
  cr3 := cr3
  current := some .kspace
  cr3Of := Function.update (fun _ => 0) .kspace cr3
  live _ := false
  curenv := none
  points := []

inductive Step
  | switchAddressSpace (space : SpaceRef)
  | forceAllocPage (spc : SpaceRef) (va : UInt64) (forced : Forced) (next : Option Slot)
  | memcpyPage (dst : SpaceRef)
  | doMapRegionOnePage (dspace : SpaceRef) (what : OnePage)
  | pageFaultHandler (fault : PageFault)
  | debuginfoRip (addr : UInt64)
  | envRun (s : Slot)
  | initAddressSpace (s : Slot) (cr3 : UInt64)
  | envDestroy (s : Slot) (next : Option Slot)
  deriving DecidableEq, Repr

def Cpu.Has (c : Cpu) : SpaceRef → Prop
  | .kspace => True
  | .env s => c.live s

instance (c : Cpu) : DecidablePred c.Has := fun sp => by
  cases sp <;> unfold Cpu.Has <;> infer_instance

/-- The address spaces that a call is made for -/
def Step.spaces (c : Cpu) : Step → List SpaceRef
  | .switchAddressSpace space => [space]
  | .forceAllocPage spc _ _ _ => [spc]
  | .memcpyPage dst => [dst]
  | .doMapRegionOnePage dspace (.region sspace _) => [dspace, sspace]
  | .doMapRegionOnePage dspace _ => [dspace]
  | .pageFaultHandler _ => c.curenv.toList.map .env
  | .envDestroy s _ => [.env s]
  | .debuginfoRip _ | .envRun _ | .initAddressSpace _ _ => []

def Step.call (c : Cpu) : Step → Except Exit Cpu
  | .switchAddressSpace space => Prod.fst <$> Jos.SpaceSwitch.switchAddressSpace (some space) c
  | .forceAllocPage spc va forced next =>
    Prod.fst <$> Jos.SpaceSwitch.forceAllocPage spc va forced next c
  | .memcpyPage dst => Jos.SpaceSwitch.memcpyPage dst c
  | .doMapRegionOnePage dspace what => Jos.SpaceSwitch.doMapRegionOnePage dspace what c
  | .pageFaultHandler fault => Jos.SpaceSwitch.pageFaultHandler fault c
  | .debuginfoRip addr => Jos.SpaceSwitch.debuginfoRip addr c
  | .envRun s => Jos.SpaceSwitch.envRun s c
  | .initAddressSpace s cr3 => Jos.SpaceSwitch.initAddressSpace s cr3 c
  | .envDestroy s next => Jos.SpaceSwitch.envDestroy s next c

def step (c : Cpu) (op : Step) : Except Stop Cpu :=
  if ∀ sp ∈ op.spaces c, c.Has sp then
    match op.call c with
    | .ok c' => .ok c'
    | .error (.resumed c') => .ok c'
    | .error (.stop s) => .error s
  else .error .dead

/-- Wherever a function returned or an environment was resumed, its page table was loaded. -/
def Cpu.Loaded (c : Cpu) : Prop := ∀ p ∈ c.points, p.2 = some p.1

/-- `debuginfo_rip` finds the page table of the kernel in place, or has nothing to do. -/
def Restores (c : Cpu) : Step → Prop
  | .debuginfoRip addr =>
    addr = 0 ∨ (∀ s ∈ c.curenv, c.cr3Of (.env s) = c.cr3Of .kspace) ∨
      c.current.map c.cr3Of = some (c.cr3Of .kspace)
  | _ => True

structure Cpu.Inv (c : Cpu) : Prop where
  loaded : c.Loaded
  current : c.current.map c.cr3Of = some c.cr3
  has : ∀ sp ∈ c.current, c.Has sp

def Exit.Keeps : Exit → Prop
  | .resumed c => c.Inv
  | .stop _ => True

lemma boot_inv (cr3 : UInt64) : (boot cr3).Inv where
  loaded p hp := by cases hp
  current := by simp [boot]
  has sp hsp := by
    cases mem_some_iff.mp hsp
    trivial

variable {c c' : Cpu} {sp : SpaceRef}

lemma Cpu.Inv.point (h : c.Inv) : c.point.Inv where
  loaded p hp := by
    rcases List.mem_cons.mp hp with rfl | hp
    · exact h.current
    · exact h.loaded p hp
  current := h.current
  has := h.has

/-- A function went about its work and left the current space as it was. -/
structure Kept (c c' : Cpu) : Prop where
  inv : c'.Inv
  current : c'.current = c.current
  live : c'.live = c.live
  curenv : c'.curenv = c.curenv

lemma Kept.point (h : Kept c c') : Kept c c'.point := ⟨h.inv.point, h.current, h.live, h.curenv⟩

lemma Kept.trans {c c' c'' : Cpu} (h : Kept c c') (h' : Kept c' c'') : Kept c c'' :=
  ⟨h'.inv, h'.current.trans h.current, h'.live.trans h.live, h'.curenv.trans h.curenv⟩

lemma Cpu.Inv.kept (h : c.Inv) : Kept c c := ⟨h, rfl, rfl, rfl⟩

lemma Cpu.Has.congr (h : c.Has sp) (hlive : c'.live = c.live) : c'.Has sp := by
  cases sp with
  | kspace => trivial
  | env s =>
    unfold Cpu.Has
    rw [hlive]
    exact h

lemma Kept.has (h : Kept c c') (hsp : c.Has sp) : c'.Has sp := hsp.congr h.live

/-- The space switched to is the current one, and the one returned was. -/
structure Switched (sp : SpaceRef) (c : Cpu) (r : Cpu × Option SpaceRef) : Prop where
  inv : r.1.Inv
  current : r.1.current = some sp
  old : r.2 = c.current
  live : r.1.live = c.live
  curenv : r.1.curenv = c.curenv

lemma switchAddressSpace_ends (h : c.Inv) (hsp : c.Has sp) :
    Ends (switchAddressSpace (some sp) c) (Switched sp c) Exit.Keeps := by
  refine Ends.ite (fun hsame => ?_) fun hne => ?_
  · exact ⟨h.point, hsame.symm, hsame, rfl, rfl⟩
  · refine ⟨Cpu.Inv.point ⟨h.loaded, rfl, fun sp' hsp' => ?_⟩, rfl, rfl, rfl, rfl⟩
    cases mem_some_iff.mp hsp'
    exact hsp

lemma switchBack_ends {r : Cpu × Option SpaceRef} (h : c.Inv) (hr : Switched sp c r) (hc : Kept r.1 c') :
    Ends (switchAddressSpace r.2 c') (fun r' => Kept c r'.1) Exit.Keeps := by
  cases hcur : c.current with
  | none =>
    have := h.current
    rw [hcur] at this
    cases this
  | some old =>
    have hlive : c'.live = c.live := hc.live.trans hr.live
    have hold : c'.Has old := (h.has old hcur).congr hlive
    rw [hr.old, hcur]
    refine (switchAddressSpace_ends hc.inv hold).imp fun r' hr' => ?_
    exact ⟨hr'.inv, hr'.current.trans hcur.symm, hr'.live.trans hlive, hr'.curenv.trans (hc.curenv.trans hr.curenv)⟩

lemma envRun_ends (s : Slot) (h : c.Inv) : Ends (envRun s c) (fun _ => False) Exit.Keeps := by
  refine Ends.ite (fun _ => trivial) fun hlive => ?_
  have hinv : Cpu.Inv { c with curenv := some s } := ⟨h.loaded, h.current, h.has⟩
  refine (switchAddressSpace_ends hinv (show Cpu.Has _ (.env s) by simpa [Cpu.Has] using hlive)).bind ?_
  intro r hr
  exact hr.inv.point

lemma schedYield_ends (next : Option Slot) (h : c.Inv) : Ends (schedYield next c) (fun _ => False) Exit.Keeps := by
  cases next with
  | none => trivial
  | some s => exact envRun_ends s h

lemma Cpu.Inv.clear {s : Slot} (h : c.Inv) (hs : c.current ≠ some (.env s)) : Cpu.Inv { c with
      cr3Of := Function.update c.cr3Of (.env s) 0
      live := Function.update c.live s false } := by
  refine ⟨h.loaded, ?_, fun sp hsp => ?_⟩
  · dsimp only
    rw [← h.current]
    refine map_congr fun sp hsp => update_of_ne ?_ _ _
    rintro rfl
    exact hs hsp
  · have hhas := h.has sp hsp
    cases sp with
    | kspace => trivial
    | env t =>
      have hne : t ≠ s := by
        rintro rfl
        exact hs hsp
      simpa [Cpu.Has, update_of_ne hne] using hhas

lemma envFree_ends (s : Slot) (h : c.Inv) :
    Ends (envFree s c) (fun c' => c'.Inv ∧ c'.curenv = c.curenv) Exit.Keeps := by
  have hleave : Ends (if some (.env s) = c.current then Prod.fst <$> switchAddressSpace (some .kspace) c
      else .ok c) (fun c' => c'.Inv ∧ c'.current ≠ some (.env s) ∧ c'.curenv = c.curenv) Exit.Keeps := by
    refine Ends.ite (fun _ => ?_) fun hne => ⟨h, fun heq => hne heq.symm, rfl⟩
    refine (switchAddressSpace_ends h (show c.Has .kspace from trivial)).bind fun r hr => ?_
    refine ⟨hr.inv, ?_, hr.curenv⟩
    rw [hr.current]
    nofun
  refine hleave.bind fun c' hc' => ?_
  exact ⟨(hc'.1.clear hc'.2.1).point, hc'.2.2⟩

lemma envDestroy_ends (s : Slot) (next : Option Slot) (h : c.Inv) :
    Ends (envDestroy s next c) (fun c' => c'.Inv ∧ c.curenv ≠ some s) Exit.Keeps := by
  refine (envFree_ends s h).bind fun c' hc' => Ends.ite (fun _ => ?_) fun hne => ?_
  · exact (schedYield_ends next hc'.1).imp fun _ => False.elim
  · rw [hc'.2] at hne
    exact ⟨hc'.1.point, hne⟩

lemma memcpyPage_ends {dst : SpaceRef} (h : c.Inv) (hdst : c.Has dst) :
    Ends (memcpyPage dst c) (Kept c) Exit.Keeps := by
  refine Ends.ite (fun _ => trivial) fun _ => ?_
  refine (switchAddressSpace_ends h hdst).bind fun r hr => ?_
  refine (switchBack_ends h hr hr.inv.kept).bind fun r' hr' => ?_
  exact hr'.point

lemma forceAllocPage_ends {spc : SpaceRef} (va : UInt64) (forced : Forced)
    (next : Option Slot) (h : c.Inv) (hspc : c.Has spc) :
    Ends (forceAllocPage spc va forced next c)
      (fun r => Kept c r.1 ∨ r.1.Inv ∧ r.2 = .noMem ∧ ∃ s, spc = .env s ∧ c.curenv ≠ some s)
      Exit.Keeps := by
  refine Ends.ite (fun _ => trivial) fun _ => ?_
  -- for an address of the kernel its own space is taken
  have hdst : c.Has (if maxUserAddress < va then .kspace else spc) := by
    split
    · trivial
    · exact hspc
  have henv : ∀ s, (if maxUserAddress < va then .kspace else spc) = .env s → spc = .env s := by
    intro s hs
    split at hs
    · cases hs
    · exact hs
  generalize (if maxUserAddress < va then SpaceRef.kspace else spc) = dst at hdst henv
  refine (switchAddressSpace_ends h hdst).bind fun r hr => ?_
  have hcopy : Ends (if forced = .copy .ok then memcpyPage dst r.1 else .ok r.1) (Kept r.1) Exit.Keeps := by
    refine Ends.ite (fun _ => ?_) fun _ => hr.inv.kept
    exact memcpyPage_ends hr.inv (hr.inv.has dst hr.current)
  refine hcopy.bind fun c' hc' => (switchBack_ends h hr hc').bind fun r' hr' => ?_
  refine Ends.ite (fun _ => ?_) fun _ => .inl hr'.point
  cases dst with
  | kspace => trivial
  | env s =>
    refine (envDestroy_ends s next hr'.inv).bind fun c'' hc'' => ?_
    refine .inr ⟨hc''.1.point, rfl, s, henv s rfl, ?_⟩
    rw [← hr'.curenv]
    exact hc''.2

lemma doMapPages_ends {sspace : SpaceRef} (pages : List LazyPage) (h : c.Inv)
    (hs : c.Has sspace) : Ends (doMapPages sspace pages c) Cpu.Inv Exit.Keeps := by
  induction pages generalizing c with
  | nil => exact h.point
  | cons p ps ih =>
    refine (forceAllocPage_ends p.src p.forced p.next h hs).bind fun r hr => ?_
    refine Ends.ite (fun hok => ?_) fun _ => ?_
    · rcases hr with hk | ⟨-, hmem, -⟩
      · exact ih hk.point.inv (hk.point.has hs)
      · rw [hok] at hmem
        cases hmem
    · rcases hr with hk | ⟨hinv, -⟩
      · exact hk.point.inv
      · exact hinv.point

lemma doMapRegionOnePage_ends {dspace : SpaceRef} {what : OnePage} (h : c.Inv)
    (hd : c.Has dspace) (hs : ∀ sspace pages, what = .region sspace pages → c.Has sspace) :
    Ends (doMapRegionOnePage dspace what c) Cpu.Inv Exit.Keeps := by
  cases what with
  | shared allocated =>
    refine Ends.ite (fun _ => h.point) fun _ => Ends.ite (fun _ => trivial) fun _ => ?_
    refine (switchAddressSpace_ends h hd).bind fun r hr => ?_
    exact (switchBack_ends h hr hr.inv.kept).bind fun r' hr' => hr'.inv.point
  | filler => exact h.point
  | region sspace pages =>
    exact (doMapPages_ends pages h (hs sspace pages rfl)).bind fun c' hc' => hc'.point

lemma userMemAssert_ends {s : Slot} (usable : Bool) (next : Option Slot) (h : c.Inv)
    (hcur : c.curenv = some s) : Ends (userMemAssert s usable next c) (Kept c) Exit.Keeps := by
  refine Ends.ite (fun _ => h.kept.point) fun _ => ?_
  exact (envDestroy_ends s next h).bind fun c' hc' => absurd hcur hc'.2

lemma pageFaultHandler_ends (fault : PageFault) (h : c.Inv) (hlive : ∀ s ∈ c.curenv, c.Has (.env s)) :
    Ends (pageFaultHandler fault c) Cpu.Inv Exit.Keeps := by
  refine Ends.ite (fun _ => trivial) fun _ => ?_
  cases hcur : c.curenv with
  | none => trivial
  | some s =>
    refine Ends.ite (fun _ => ?_) fun _ => ?_
    · refine (userMemAssert_ends fault.usable fault.next h hcur).bind fun c' hc' => ?_
      exact (envDestroy_ends s fault.next hc'.inv).bind fun _ _ => trivial
    · refine (forceAllocPage_ends _ fault.forced fault.next h (hlive s hcur)).bind fun r hr => ?_
      rcases hr with hk | ⟨-, -, s', hs', hne⟩
      · refine (userMemAssert_ends fault.usable fault.next hk.inv (hk.curenv.trans hcur)).bind fun c' hc' => ?_
        have hall := hk.trans hc'
        refine (switchAddressSpace_ends hall.inv (hall.has (hlive s hcur))).bind fun r' hr' => ?_
        refine (switchBack_ends hall.inv hr' hr'.inv.kept).bind fun r'' hr'' => ?_
        exact (envRun_ends s hr''.inv).imp fun _ => False.elim
      · cases hs'
        exact absurd hcur hne

lemma initAddressSpace_ends (s : Slot) (cr3 : UInt64) (h : c.Inv) :
    Ends (initAddressSpace s cr3 c) Cpu.Inv Exit.Keeps := by
  refine Ends.ite (fun _ => trivial) fun hfree => ?_
  have hother : ∀ sp ∈ c.current, sp ≠ .env s := by
    rintro sp hsp rfl
    exact hfree (h.has _ hsp)
  refine Cpu.Inv.point ⟨h.loaded, ?_, fun sp hsp => ?_⟩
  · dsimp only
    rw [← h.current]
    exact map_congr fun sp hsp => update_of_ne (hother sp hsp) _ _
  · have hhas := h.has sp hsp
    cases sp with
    | kspace => trivial
    | env t =>
      have hne : t ≠ s := by
        rintro rfl
        exact hother _ hsp rfl
      simpa [Cpu.Has, update_of_ne hne] using hhas

lemma debuginfoRip_ends {addr : UInt64} (h : c.Inv)
    (hr : Restores c (.debuginfoRip addr)) : Ends (debuginfoRip addr c) Cpu.Inv Exit.Keeps := by
  refine Ends.ite (fun _ => h.point) fun haddr => ?_
  cases hcur : c.curenv with
  | none => trivial
  | some s =>
    refine Ends.ite (fun hne => ?_) fun _ => h.point
    rcases hr with h0 | hsame | hk
    · exact absurd h0 haddr
    · exact absurd (hsame s hcur) hne
    · exact Cpu.Inv.point ⟨h.loaded, hk, h.has⟩

/-- **A call keeps the invariant** if it meets its condition. -/
lemma step_inv (c : Cpu) (op : Step) (c' : Cpu) (h : c.Inv) (hr : Restores c op)
    (hs : step c op = .ok c') : c'.Inv := by
  unfold step at hs
  split at hs
  · rename_i hsp
    have hends : Ends (op.call c) Cpu.Inv Exit.Keeps := by
      cases op with
      | switchAddressSpace space =>
        exact (switchAddressSpace_ends h (hsp space (by simp [Step.spaces]))).bind fun r hr => hr.inv
      | forceAllocPage spc va forced next =>
        refine (forceAllocPage_ends va forced next h (hsp spc (by simp [Step.spaces]))).bind ?_
        rintro r (hk | ⟨hinv, -⟩)
        · exact hk.inv
        · exact hinv
      | memcpyPage dst =>
        exact (memcpyPage_ends h (hsp dst (by simp [Step.spaces]))).imp fun _ hk => hk.inv
      | doMapRegionOnePage dspace what =>
        refine doMapRegionOnePage_ends h ?_ ?_
        · cases what <;> exact hsp dspace (by simp [Step.spaces])
        · rintro sspace pages rfl
          exact hsp sspace (by simp [Step.spaces])
      | pageFaultHandler fault =>
        refine pageFaultHandler_ends fault h fun s hcur => hsp _ ?_
        rw [mem_def] at hcur
        simp [Step.spaces, hcur]
      | debuginfoRip addr => exact debuginfoRip_ends h hr
      | envRun s => exact (envRun_ends s h).imp fun _ => False.elim
      | initAddressSpace s cr3 => exact initAddressSpace_ends s cr3 h
      | envDestroy s next => exact (envDestroy_ends s next h).imp fun _ hd => hd.1
    split at hs
    · rename_i hc
      cases hs
      exact hends.ok hc
    · rename_i hc
      cases hs
      exact hends.error hc
    · cases hs
  · cases hs

/-- A call of `debuginfo_rip` that misses the condition returns with the wrong page table. -/
lemma step_breaks (c : Cpu) (op : Step) (_ : c.Inv) (hr : ¬Restores c op) :
    ∃ c', step c op = .ok c' ∧ ¬c'.Loaded := by
  cases op with
  | debuginfoRip addr =>
    unfold Restores at hr
    push Not at hr
    obtain ⟨haddr, ⟨s, hcur, hne⟩, hk⟩ := hr
    rw [mem_def] at hcur
    refine ⟨(lcr3 (c.cr3Of .kspace) c).point, ?_, fun hl => hk ?_⟩
    · simp [step, Step.spaces, Step.call, debuginfoRip, haddr, hcur, hne]
    · exact hl _ List.mem_cons_self
  | switchAddressSpace | forceAllocPage | memcpyPage | doMapRegionOnePage | pageFaultHandler
  | envRun | initAddressSpace | envDestroy => exact absurd trivial hr

/-- **The loaded page table is the current one** wherever a function returns or an environment is
resumed, exactly if every `debuginfo_rip` finds that of the kernel in place. -/
theorem loaded_iff (cr3 : UInt64) (ops : List Step) :
    (∀ pre c, pre <+: ops → run step (boot cr3) pre = .ok c → c.Loaded) ↔
      ∀ pre op c, pre ++ [op] <+: ops → run step (boot cr3) pre = .ok c → Restores c op :=
  run_forall_iff step_inv (fun _ h => h.loaded) step_breaks (boot_inv cr3) ops

def backtrace : List Step :=
  [.initAddressSpace firstSlot 0x5000, .envRun firstSlot, .debuginfoRip 0x800020, .envRun firstSlot]

theorem backtrace_resumes_on_kspace : ∃ c, run step (boot 0x1000) backtrace = .ok c ∧
    c.curenv = some 0 ∧ c.current = some (.env 0) ∧ c.cr3 = 0x1000 ∧ ¬c.Loaded := by
  refine ⟨_, rfl, rfl, rfl, rfl, fun hl => ?_⟩
  exact absurd (hl (0x1000, some 0x5000) (by decide)) (by decide)

end Jos.SpaceSwitch
