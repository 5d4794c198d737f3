import Jos.MapRights

/-!
Sequences of calls that change the tree of a space, against a map from addresses to pages.
-/

namespace Jos.PmapModel

open CArray Jos.Dyadic Function Runs

variable {σ σ' : Mem}

inductive PageCall
  | map (space addr : ℕ) (page : Path) (flags : UInt32)
  | unmap (space addr : ℕ) (cls : Fin (maxClass + 1))
  /-- `page_lookup_virtual`, which may split mappings -/
  | lookup (mode : LookupMode) (space addr cls : ℕ)

def pageStep (σ : Mem) : PageCall → Except Failure Mem
  | .map space addr page flags => (mapPage space addr page flags σ).map Prod.fst
  | .unmap space addr cls => unmapPage space addr cls σ
  | .lookup mode space addr cls =>
    (pageLookupVirtual mode space addr cls (σ.root space) σ.phys).map (σ.looked space)

/-- What an address is mapped to after a call. -/
def PageCall.view (f : ℕ → ℕ → Option (ℕ × UInt32)) : PageCall → ℕ → ℕ → Option (ℕ × UInt32)
  | .map space addr page flags, u, va =>
    if u = space ∧ ¬Sets flags allocWeak ∧ SamePage (maxClass - page.length) addr va then
      some (start maxClass page + va / 2 ^ classBase % 2 ^ (maxClass - page.length), storedProt flags)
    else f u va
  | .unmap space addr cls, u, va => if u = space ∧ SamePage cls addr va then none else f u va
  | .lookup .., u, va => f u va

lemma pageStep_view {call : PageCall} (hσ : σ.Formed) (h : pageStep σ call = .ok σ') :
    σ'.Formed ∧ σ'.view = call.view σ.view := by
  cases call with
  | map space addr page flags =>
    obtain ⟨r, hr, rfl⟩ := map_eq_ok.mp h
    obtain ⟨n, hn, -, hformed, hview⟩ := mapPage_view hσ hr
    have hcls : n.cls = maxClass - page.length := by
      have := hσ.placed page n hn
      omega
    rw [hcls] at hview
    exact ⟨hformed, funext₂ hview⟩
  | unmap space addr cls =>
    obtain ⟨hformed, hview⟩ := unmapPage_view hσ h (Nat.le_of_lt_succ cls.isLt)
    exact ⟨hformed, funext₂ hview⟩
  | lookup mode space addr cls =>
    obtain ⟨y, hy, rfl⟩ := map_eq_ok.mp h
    exact looked_view hσ hy

/-- **The last call decides**: over any sequence of `map_page` and `unmap_page`, each address of each space is mapped as the calls say one after the other. -/
theorem page_calls_view (calls : List PageCall) (hσ : σ.Formed) (h : run pageStep σ calls = .ok σ') :
    σ'.Formed ∧ σ'.view = calls.foldl PageCall.view σ.view := by
  induction calls generalizing σ with
  | nil =>
    cases h
    exact ⟨hσ, rfl⟩
  | cons call calls ih =>
    cases hs : pageStep σ call with
    | error e => rw [run_cons_error hs] at h; cases h
    | ok σ₁ =>
      obtain ⟨hσ₁, hview⟩ := pageStep_view hσ hs
      rw [run_cons_ok hs] at h
      rw [List.foldl_cons, ← hview]
      exact ih hσ₁ h

set_option maxRecDepth 100000 in
theorem page_calls_view_sharedPage :
    ∃ σ σ', run memStep (bootMem 0x100000 true true) sharedPage = .ok σ ∧ (σ.view 1 0x1000).isSome ∧
      run pageStep σ [.lookup .alloc 1 0x2000 0, .unmap 1 0x1000 0] = .ok σ' ∧ σ'.view 1 0x1000 = none := by
  have hrun : ∃ σ, run memStep (bootMem 0x100000 true true) sharedPage = .ok σ ∧ (σ.view 1 0x1000).isSome ∧
      ∃ σ', run pageStep σ [.lookup .alloc 1 0x2000 0, .unmap 1 0x1000 0] = .ok σ' ∧ σ'.view 1 0x2000 = none := by
    decide +kernel
  obtain ⟨σ, hσ, hmapped, σ', hσ', -⟩ := hrun
  refine ⟨σ, σ', hσ, hmapped, hσ', ?_⟩
  rw [(page_calls_view _ (sharedPage_formed hσ) hσ').2]
  simp [PageCall.view, SamePage]

end Jos.PmapModel
