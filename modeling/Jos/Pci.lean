import Mathlib.Data.List.Basic
import Mathlib.Data.List.Nodup
import Mathlib.Data.List.Pairwise
import Mathlib.Data.List.Perm.Subperm
import Mathlib.Data.List.Induction
import Mathlib.Tactic.Linarith

/-!
The scan of the PCI buses. `pci_bridge_attach` scans the bus behind a bridge without looking whether it has
been scanned, or is being scanned. So the scan ends with each function attached once exactly if the bridges
form a tree.
-/

namespace Jos.Pci

open List

structure Func where
  bus : ℕ
  dev : ℕ
  func : ℕ
  deriving DecidableEq

abbrev Conf := Func → ℕ → ℕ

def idReg : ℕ := 0x00
def classReg : ℕ := 0x08
def bhlcReg : ℕ := 0x0c
def bridgeBusReg : ℕ := 0x18
def bridgeStatioReg : ℕ := 0x1c

/-- `PCI_HDRTYPE` -/
def hdrtype (bhlc : ℕ) : ℕ := bhlc / 2 ^ 16 % 2 ^ 8

/-- `pci_scan_bus` goes on with the functions of the device. -/
def Present (conf : Conf) (bus dev : ℕ) : Prop :=
  conf ⟨bus, dev, 0⟩ idReg ≠ 0xffff ∧ hdrtype (conf ⟨bus, dev, 0⟩ bhlcReg) % 2 ^ 7 ≤ 1
  deriving Decidable

def nfuncs (conf : Conf) (bus dev : ℕ) : ℕ := if 2 ^ 7 ≤ hdrtype (conf ⟨bus, dev, 0⟩ bhlcReg) then 8 else 1

def attached (conf : Conf) (bus : ℕ) : List Func :=
  ((List.range 32).filter fun dev => Present conf bus dev).flatMap fun dev =>
    ((List.range (nfuncs conf bus dev)).map (Func.mk bus dev)).filter fun f => conf f idReg % 2 ^ 16 ≠ 0xffff

/-- The bus that `pci_bridge_attach` scans, if the function is a bridge -/
def secondary (conf : Conf) (f : Func) : Option ℕ :=
  if conf f classReg / 2 ^ 24 % 2 ^ 8 = 0x06 ∧ conf f classReg / 2 ^ 16 % 2 ^ 8 = 0x04 ∧
      conf f bridgeStatioReg % 2 ^ 4 ≠ 0x01 then
    some (conf f bridgeBusReg / 2 ^ 8 % 2 ^ 8)
  else none

def behind (conf : Conf) (scan : ℕ → Option (List Func)) (f : Func) : Option (List Func) :=
  match secondary conf f with
  | some bus => scan bus
  | none => some []

/-- The loop of `pci_scan_bus` -/
def attachAll (conf : Conf) (scan : ℕ → Option (List Func)) : List Func → Option (List Func)
  | [] => some []
  | f :: l => do
    let below ← behind conf scan f
    let rest ← attachAll conf scan l
    some (f :: below ++ rest)

/-- `pci_scan_bus`, with at most so many calls of it at a time: the calls of `pci_attach` -/
def pciScanBus (conf : Conf) : ℕ → ℕ → Option (List Func)
  | 0, _ => none
  | depth + 1, bus => attachAll conf (pciScanBus conf depth) (attached conf bus)

def Chain (conf : Conf) : ℕ → List Func → ℕ → Prop
  | bus, [], bus' => bus = bus'
  | bus, f :: l, bus' => f ∈ attached conf bus ∧ ∃ next, secondary conf f = some next ∧ Chain conf next l bus'

def Tree (conf : Conf) : Prop :=
  ∀ bus l l', attached conf bus ≠ [] → Chain conf 0 l bus → Chain conf 0 l' bus → l = l'

variable {conf : Conf} {bus bus' bus'' depth : ℕ} {f g : Func} {l l' tr : List Func}

lemma bus_of_mem (h : f ∈ attached conf bus) : f.bus = bus := by
  simp only [attached, mem_flatMap, mem_filter, mem_map] at h
  obtain ⟨-, -, ⟨-, -, rfl⟩, -⟩ := h
  rfl

lemma nodup_attached (conf : Conf) (bus : ℕ) : (attached conf bus).Nodup := by
  refine nodup_flatMap.mpr ⟨fun dev _ => ?_, ?_⟩
  · exact (nodup_range.map fun a b h => (Func.mk.inj h).2.2).filter _
  · refine (nodup_range.filter _).imp fun hne f hf hf' => hne ?_
    simp only [mem_filter, mem_map] at hf hf'
    obtain ⟨⟨_, -, rfl⟩, -⟩ := hf
    obtain ⟨⟨_, -, h⟩, -⟩ := hf'
    exact (Func.mk.inj h).2.1.symm

lemma secondary_lt (h : secondary conf f = some bus) : bus < 256 := by
  unfold secondary at h
  split_ifs at h
  rw [← Option.some.inj h]
  exact Nat.mod_lt _ (by decide)

lemma chain_append : Chain conf bus (l ++ l') bus'' ↔ ∃ bus', Chain conf bus l bus' ∧ Chain conf bus' l' bus'' := by
  induction l generalizing bus with
  | nil => simp [Chain]
  | cons f l ih => simp [Chain, ih]; tauto

lemma chain_snoc (hc : Chain conf bus l bus') (hf : f ∈ attached conf bus') (hnext : secondary conf f = some bus'') :
    Chain conf bus (l ++ [f]) bus'' :=
  chain_append.mpr ⟨bus', hc, hf, bus'', hnext, rfl⟩

def through (conf : Conf) (depth : ℕ) (f : Func) : List Func :=
  f :: (behind conf (pciScanBus conf depth) f).getD []

lemma attachAll_eq (scan : ℕ → Option (List Func)) (l : List Func) :
    attachAll conf scan l = if ∀ f ∈ l, (behind conf scan f).isSome then
      some (l.flatMap fun f => f :: (behind conf scan f).getD []) else none := by
  induction l with
  | nil => rfl
  | cons f l ih =>
    cases hf : behind conf scan f with
    | none => simp [attachAll, hf]
    | some below =>
      simp only [attachAll, hf, ih]
      by_cases hfs : ∀ f ∈ l, (behind conf scan f).isSome
      · rw [if_pos hfs, if_pos (by simpa [hf] using hfs)]
        simp [hf]
      · rw [if_neg hfs, if_neg (by simpa [hf] using hfs)]
        rfl

lemma scan_eq_some : pciScanBus conf (depth + 1) bus = some tr ↔
      (∀ f ∈ attached conf bus, (behind conf (pciScanBus conf depth) f).isSome) ∧
        (attached conf bus).flatMap (through conf depth) = tr := by
  rw [pciScanBus, attachAll_eq, Option.ite_none_right_eq_some, Option.some_inj]
  rfl

lemma exists_scan (hsome : (behind conf (pciScanBus conf depth) f).isSome) (hnext : secondary conf f = some bus) :
    ∃ tr, pciScanBus conf depth bus = some tr ∧ through conf depth f = f :: tr := by
  unfold through behind at *
  rw [hnext] at hsome ⊢
  obtain ⟨tr, htr⟩ := Option.isSome_iff_exists.mp hsome
  exact ⟨tr, htr, by simp [htr]⟩

lemma mem_through_self : f ∈ through conf depth f := mem_cons_self

lemma mem_through (hf : (behind conf (pciScanBus conf depth) f).isSome) : g ∈ through conf depth f ↔
      g = f ∨ ∃ bus tr, secondary conf f = some bus ∧ pciScanBus conf depth bus = some tr ∧ g ∈ tr := by
  cases hs : secondary conf f with
  | none => simp [through, behind, hs]
  | some bus =>
    obtain ⟨tr, htr, hthr⟩ := exists_scan hf hs
    simp [hthr, htr]

section

variable (h : pciScanBus conf depth bus = some tr)
include h

lemma mem_of_chain (hc : Chain conf bus l bus') (hg : g ∈ attached conf bus') : g ∈ tr := by
  induction depth generalizing bus l tr with
  | zero => cases h
  | succ depth ih =>
    obtain ⟨hsome, rfl⟩ := scan_eq_some.mp h
    cases l with
    | nil =>
      obtain rfl := hc
      exact mem_flatMap.mpr ⟨g, hg, mem_through_self⟩
    | cons f l =>
      obtain ⟨hf, next, hnext, hc⟩ := hc
      refine mem_flatMap.mpr ⟨f, hf, (mem_through (hsome f hf)).mpr (.inr ?_)⟩
      obtain ⟨tr, htr, -⟩ := exists_scan (hsome f hf) hnext
      exact ⟨next, tr, hnext, htr, ih htr hc⟩

lemma chain_of_mem (hg : g ∈ tr) : ∃ l, Chain conf bus l g.bus ∧ g ∈ attached conf g.bus := by
  induction depth generalizing bus tr with
  | zero => cases h
  | succ depth ih =>
    obtain ⟨hsome, rfl⟩ := scan_eq_some.mp h
    obtain ⟨f, hf, hg⟩ := mem_flatMap.mp hg
    obtain rfl | ⟨next, tr, hnext, htr, hg⟩ := (mem_through (hsome f hf)).mp hg
    · obtain rfl := bus_of_mem hf
      exact ⟨[], rfl, hf⟩
    · obtain ⟨l, hc, hg⟩ := ih htr hg
      exact ⟨f :: l, ⟨hf, next, hnext, hc⟩, hg⟩

/-- **Where each function is attached once**, there is one way to each. -/
lemma eq_of_nodup (hnd : tr.Nodup) (hg : g ∈ attached conf bus')
    (hc : Chain conf bus l bus') (hc' : Chain conf bus l' bus') : l = l' := by
  induction depth generalizing bus l l' tr with
  | zero => cases h
  | succ depth ih =>
    obtain ⟨hsome, rfl⟩ := scan_eq_some.mp h
    obtain ⟨hnd, hdisj⟩ := nodup_flatMap.mp hnd
    have hone : ∀ {f f'}, f ∈ attached conf bus → f' ∈ attached conf bus → g ∈ through conf depth f →
        g ∈ through conf depth f' → f = f' := fun {f f'} hf hf' hgf hgf' => by
      by_contra hne
      have : Std.Symm (Function.onFun List.Disjoint (through conf depth)) := ⟨fun _ _ h _ ha hb => h hb ha⟩
      exact hdisj.forall hf hf' hne hgf hgf'
    have hbelow : ∀ {f l}, Chain conf bus (f :: l) bus' →
        f ∈ attached conf bus ∧ g ∈ through conf depth f ∧ g ≠ f := fun {f l} hc => by
        obtain ⟨hf, next, hnext, hc⟩ := hc
        obtain ⟨tr, htr, hthr⟩ := exists_scan (hsome f hf) hnext
        have hmem := mem_of_chain htr hc hg
        have hnd := hnd f hf
        rw [hthr] at hnd ⊢
        exact ⟨hf, mem_cons_of_mem _ hmem, fun he => (nodup_cons.mp hnd).1 (he ▸ hmem)⟩
    match l, l' with
    | [], [] => rfl
    | [], f :: l' =>
      obtain rfl := hc
      obtain ⟨hf, hgf, hne⟩ := hbelow hc'
      exact absurd (hone hg hf mem_through_self hgf) hne
    | f :: l, [] =>
      obtain rfl := hc'
      obtain ⟨hf, hgf, hne⟩ := hbelow hc
      exact absurd (hone hg hf mem_through_self hgf) hne
    | f :: l, f' :: l' =>
      obtain rfl := hone (hbelow hc).1 (hbelow hc').1 (hbelow hc).2.1 (hbelow hc').2.1
      obtain ⟨hf, next, hnext, hc⟩ := hc
      obtain ⟨-, next', hnext', hc'⟩ := hc'
      obtain rfl : next = next' := Option.some.inj (hnext.symm.trans hnext')
      obtain ⟨tr, htr, hthr⟩ := exists_scan (hsome f hf) hnext
      have hnd := hnd f hf
      rw [hthr] at hnd
      rw [ih htr (nodup_cons.mp hnd).2 hc hc']

end

section

variable (ht : Tree conf) (hc : Chain conf 0 l bus)
include ht hc

lemma nodup_buses : (bus :: l.map Func.bus).Nodup ∧ ∀ b ∈ bus :: l.map Func.bus, b < 256 := by
  induction l using reverseRecOn generalizing bus with
  | nil =>
    obtain rfl := hc
    simp
  | append_singleton l f ih =>
    obtain ⟨b, hb, hf, next, hnext, rfl⟩ := chain_append.mp hc
    obtain ⟨hnd, hlt⟩ := ih hb
    obtain rfl := bus_of_mem hf
    have hperm : ((l ++ [f]).map Func.bus).Perm (f.bus :: l.map Func.bus) := by
      simp
    refine ⟨nodup_cons.mpr ⟨fun hmem => ?_, hperm.nodup_iff.mpr hnd⟩, ?_⟩
    · -- the bus has been left over `g`: it was reached before
      obtain ⟨g, hg, hbus⟩ := mem_map.mp hmem
      obtain ⟨l₁, l₂, heq⟩ := append_of_mem hg
      rw [heq] at hc
      obtain ⟨b, hl, hgb, -⟩ := chain_append.mp hc
      rw [← bus_of_mem hgb, hbus] at hl hgb
      simpa using congrArg length (ht _ _ _ (ne_nil_of_mem hgb) hl hc)
    · rintro b (_ | ⟨_, hb⟩)
      · exact secondary_lt hnext
      · exact hlt b (hperm.mem_iff.mp hb)

lemma isSome_scan (hd : l.length + depth = 256) : (pciScanBus conf depth bus).isSome := by
  induction depth generalizing l bus with
  | zero =>
    obtain ⟨hnd, hlt⟩ := nodup_buses ht hc
    have := (subperm_of_subset hnd fun b hb => mem_range.mpr (hlt b hb)).length_le
    simp at this
    omega
  | succ depth ih =>
    refine Option.isSome_iff_exists.mpr ⟨_, scan_eq_some.mpr ⟨fun f hf => ?_, rfl⟩⟩
    unfold behind
    cases hnext : secondary conf f with
    | none => rfl
    | some next =>
      refine ih (chain_snoc hc hf hnext) ?_
      simp
      omega

lemma nodup_scan (h : pciScanBus conf depth bus = some tr) : tr.Nodup := by
  induction depth generalizing l bus tr with
  | zero => cases h
  | succ depth ih =>
    obtain ⟨hsome, rfl⟩ := scan_eq_some.mp h
    -- a function behind `f` is reached from the bus over `f`
    have hover : ∀ f ∈ attached conf bus, ∀ g ∈ through conf depth f, g = f ∨
        ∃ l', Chain conf 0 (l ++ f :: l') g.bus ∧ attached conf g.bus ≠ [] := fun f hf g hg => by
      obtain rfl | ⟨next, tr, hnext, htr, hg⟩ := (mem_through (hsome f hf)).mp hg
      · exact .inl rfl
      · obtain ⟨l', hc', hg⟩ := chain_of_mem htr hg
        exact .inr ⟨l', chain_append.mpr ⟨bus, hc, hf, next, hnext, hc'⟩, ne_nil_of_mem hg⟩
    refine nodup_flatMap.mpr ⟨fun f hf => ?_, ?_⟩
    · cases hnext : secondary conf f with
      | none => simp [through, behind, hnext]
      | some next =>
        obtain ⟨tr, htr, hthr⟩ := exists_scan (hsome f hf) hnext
        rw [hthr]
        refine nodup_cons.mpr ⟨fun hmem => ?_, ih (chain_snoc hc hf hnext) htr⟩
        obtain ⟨l', hc', -⟩ := chain_of_mem htr hmem
        rw [bus_of_mem hf] at hc'
        have hloop : Chain conf 0 (l ++ f :: l') bus := chain_append.mpr ⟨bus, hc, hf, next, hnext, hc'⟩
        simpa using congrArg length (ht _ _ _ (ne_nil_of_mem hf) hc hloop)
    · refine (nodup_attached conf bus).imp_of_mem fun {f f'} hf hf' hne g hg hg' => hne ?_
      obtain rfl | ⟨l₁, hc₁, hg₁⟩ := hover f hf g hg <;> obtain rfl | ⟨l₂, hc₂, hg₂⟩ := hover f' hf' _ hg'
      · rfl
      · rw [bus_of_mem hf] at hc₂
        simpa using congrArg length (ht _ _ _ (ne_nil_of_mem hf) hc hc₂)
      · rw [bus_of_mem hf'] at hc₁
        simpa using congrArg length (ht _ _ _ (ne_nil_of_mem hf') hc hc₁)
      · exact (cons.inj (append_cancel_left (ht _ _ _ hg₁ hc₁ hc₂))).1

end

/-- **The scan ends, at most 256 buses deep, with each function attached once**, exactly if the bridges form
a tree. -/
theorem pci_scan_iff (conf : Conf) : (∃ tr, pciScanBus conf 256 0 = some tr ∧ tr.Nodup) ↔ Tree conf := by
  constructor
  · rintro ⟨tr, htr, hnd⟩ bus l l' hne hc hc'
    obtain ⟨g, hg⟩ := exists_mem_of_ne_nil _ hne
    exact eq_of_nodup htr hnd hg hc hc'
  · intro ht
    have hroot : Chain conf 0 [] 0 := rfl
    obtain ⟨tr, htr⟩ := Option.isSome_iff_exists.mp (isSome_scan ht hroot (Nat.zero_add 256))
    exact ⟨tr, htr, nodup_scan ht hroot htr⟩

/-- Device 0 of bus 0 is a bridge to the bus that is given, as device 1 is if this is bus 1; and bus 1 has
one device. All others do not answer. -/
def bridges (target : ℕ) : Conf := fun f reg =>
  if f ∈ [⟨0, 0, 0⟩, ⟨0, target, 0⟩, ⟨target, 0, 0⟩] then
    if reg = classReg ∧ f.bus = 0 then 0x06040000 else if reg = bridgeBusReg then 2 ^ 8 * target else 0
  else 2 ^ 32 - 1

/-- A bridge to its own bus is followed without end, and behind two bridges to one bus its device is attached
twice. -/
theorem pci_scan_astray :
    (∀ depth, pciScanBus (bridges 0) depth 0 = none) ∧
      pciScanBus (bridges 1) 256 0 = some [⟨0, 0, 0⟩, ⟨1, 0, 0⟩, ⟨0, 1, 0⟩, ⟨1, 0, 0⟩] := by
  refine ⟨fun depth => ?_, by decide⟩
  induction depth with
  | zero => rfl
  | succ depth ih =>
    have hall : attached (bridges 0) 0 = [⟨0, 0, 0⟩] := by decide
    have hsec : secondary (bridges 0) ⟨0, 0, 0⟩ = some 0 := by decide
    simp [pciScanBus, hall, attachAll, behind, hsec, ih]

end Jos.Pci
