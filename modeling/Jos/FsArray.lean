import Jos.FsCreate
import Mathlib.Data.Finset.Card
import Mathlib.Order.Interval.Finset.Nat

/-!
A file as an array of bytes: what `file_write` puts there, `file_read` finds.
-/

namespace Jos.Fs

open ByteMem

variable {m m' m₀ m₁ : Bytes} {f g buf stop p q o n i b blk : ℕ}

def byteAt (m : Bytes) (f q : ℕ) : UInt8 := m (blockAddr (blockOf m f (q / blkSize)) + q % blkSize)

lemma inBlock_pos (b q : ℕ) : InBlock b (blockAddr b + q % blkSize) := by
  rw [InBlock, blockAddr_succ]
  simp only [blkSize]
  omega

lemma Reachable.last (h : Reachable m f) : f = rootFile ∨ ∃ d, d ≠ f ∧ Reachable m d ∧ Entry m d f := by
  have key : ∀ g, Reachable m g → g = f → f = rootFile ∨ ∃ d, d ≠ f ∧ Reachable m d ∧ Entry m d f := by
    intro g hg
    induction hg with
    | refl => exact fun hgf => .inl hgf.symm
    | @tail d e hd he ih =>
      rintro rfl
      by_cases hne : d = e
      · exact ih hne
      · exact .inr ⟨d, hne, hd, he⟩
  exact key f h rfl

lemma Exclusive.own_not_field {x : ℕ} (hm : Exclusive m) (hf : Reachable m f) (hi : blockOf m f i ≠ 0)
    (hx : InBlock (blockOf m f i) x) : ¬ Field f x := by
  intro hfield
  have hrec : f ≤ x ∧ x < f + sizeofFile := by
    simp only [Field, sizeofFile] at hfield ⊢
    omega
  have hlow := hm.firstData_le hf (s := .data i) hi
  have htwo := two_le_firstData m
  rcases hf.last with rfl | ⟨d, hne, hd, he⟩
  · have hin := (Home.root (m := m)).inBlock hrec.1 hrec.2
    have := hin.unique hx
    rw [owned_data] at hlow
    omega
  · obtain ⟨⟨k, j, hdir, hk, hb, hj⟩, -⟩ := he
    have hin := (Home.cell d k j hd hdir hk hb hj).inBlock hrec.1 hrec.2
    exact hne (hm.single d _ hd hf (.data k) (.data i) hb (hin.unique hx)).1

lemma Grows.byteAt (h : Grows f m m') (hm : Exclusive m) (hf : Reachable m f)
    (hq : blockOf m f (q / blkSize) ≠ 0) : byteAt m' f q = byteAt m f q := by
  have hin := inBlock_pos (blockOf m f (q / blkSize)) q
  unfold Fs.byteAt
  rw [h.blockOf_ne hf hq]
  exact h.data _ hq _ hin (hm.own_not_field hf hq hin)

lemma byteAt_off (hm : Exclusive m) (hf : Reachable m f) {v : Move}
    (hoff : ∀ k < v.len, OffDisk (v.dst + k)) (hq : blockOf m f (q / blkSize) ≠ 0) :
    byteAt (v.apply m) f q = byteAt m f q := by
  have hb := hm.owned_lt hf (s := .data (q / blkSize)) hq
  have hin := (inBlock_pos (blockOf m f (q / blkSize)) q).onDisk (lt_of_lt_of_le hb hm.small)
  unfold byteAt
  rw [((dataWrite_off hoff).view hm hf).2.2]
  refine move_of_out ?_
  by_contra hlt
  have := hoff (blockAddr (blockOf m f (q / blkSize)) + q % blkSize - v.dst) (by omega)
  unfold OffDisk at this
  omega

lemma byteAt_move (hm : Exclusive m) (hf : Reachable m f) (hd : ¬ IsDir m f)
    (hp : blockOf m f (p / blkSize) ≠ 0) (hq : blockOf m f (q / blkSize) ≠ 0) :
    byteAt ((moveAt fromBuf o stop buf p (blockAddr (blockOf m f (p / blkSize)))).apply m) f q =
      if p ≤ q ∧ q < p + chunk stop p then m (buf + (p - o) + (q - p)) else byteAt m f q := by
  have hw : DataWrite f m ((moveAt fromBuf o stop buf p (blockAddr (blockOf m f (p / blkSize)))).apply m) :=
    dataWrite_block hd hp
  have hc := chunk_inBlock stop p
  unfold byteAt
  rw [(hw.view hm hf).2.2]
  by_cases hi : q / blkSize = p / blkSize
  · rw [hi]
    split_ifs with hin
    · rw [Move.apply, moveAt, fromBuf, move_of_in]
      · congr 1
        simp only [blkSize] at hi hc hin ⊢
        omega
      all_goals
        simp only [blkSize] at hi hc hin ⊢
        omega
    · rw [Move.apply, moveAt, fromBuf, move_of_out]
      simp only [blkSize] at hi hc hin ⊢
      omega
  · have hne : blockOf m f (q / blkSize) ≠ blockOf m f (p / blkSize) := by
      intro heq
      have h := (hm.single f f hf hf (.data (q / blkSize)) (.data (p / blkSize)) hq heq).2
      injection h with h
      exact hi h
    rw [if_neg (by simp only [blkSize] at hi hc ⊢; omega), Move.apply, moveAt, fromBuf, move_of_out]
    simp only [blockAddr, blkSize] at hne hc ⊢
    omega

/-- The bytes from `o` up to `p` have been written, and no others. -/
structure Written (f buf o : ℕ) (m₀ : Bytes) (p : ℕ) (m : Bytes) : Prop where
  stays : Stays f m₀ m
  off : ∀ x, OffDisk x → m x = m₀ x
  new : ∀ q, o ≤ q → q < p → blockOf m f (q / blkSize) ≠ 0 ∧ byteAt m f q = m₀ (buf + (q - o))
  old : ∀ q, ¬ (o ≤ q ∧ q < p) → blockOf m₀ f (q / blkSize) ≠ 0 → byteAt m f q = byteAt m₀ f q
  fresh : ∀ q, ¬ (o ≤ q ∧ q < p) → blockOf m₀ f (q / blkSize) = 0 → blockOf m f (q / blkSize) ≠ 0 →
    byteAt m f q = m₀ (blockAddr (blockOf m f (q / blkSize)) + q % blkSize)

lemma Written.refl (hm : Exclusive m) (f buf o : ℕ) : Written f buf o m o m :=
  ⟨.refl hm f, fun _ _ => rfl, fun q h h' => by omega, fun _ _ _ => rfl, fun _ _ h h' => absurd h h'⟩

section Write

variable (hm : Exclusive m₀) (hf : Reachable m₀ f) (hd : ¬ IsDir m₀ f)

include hf hd

lemma Written.round (hbuf : ∀ k < stop - o, o + k < maxFileSize → OffDisk (buf + k))
    (h : Written f buf o m₀ p m) (hp : o ≤ p)
    (hps : p < stop) (hget : fileGetBlock f (p / blkSize) m = .ok (m₁, .ok blk)) :
    Written f buf o m₀ (p + chunk stop p) ((moveAt fromBuf o stop buf p blk).apply m₁) := by
  have hx := h.stays.exclusive
  have hf' := (h.stays.reach f).mpr hf
  have hd' : ¬ IsDir m f := mt (h.stays.isDir f hf).mp hd
  have hg := fileGetBlock_grows hx hf' (fun h => absurd h hd') hget
  obtain ⟨hne, rfl⟩ := fileGetBlock_blockOf hx hf' hget
  have hx₁ := hg.exclusive
  have hf₁ := (hg.reach f).mpr hf'
  have hd₁ : ¬ IsDir m₁ f := mt (hg.isDir f hf').mp hd'
  have hw : DataWrite f m₁ ((moveAt fromBuf o stop buf p (blockAddr (blockOf m₁ f (p / blkSize)))).apply m₁) :=
    dataWrite_block hd₁ hne
  have hv := (hw.view hx₁ hf₁).2.2
  have hmove := fun q => @byteAt_move m₁ f buf stop p q o hx₁ hf₁ hd₁ hne
  have hle := chunk_le stop p
  refine ⟨h.stays.trans hf (hg.toStays.trans hf' (hw.stays hx₁ hf₁)), ?_, ?_, ?_, ?_⟩
  · intro x hx'
    rw [← h.off x hx', ← hg.off x hx']
    have h2 := hx₁.owned_lt hf₁ (s := .data (p / blkSize)) hne
    have h3 := hx₁.small
    have h4 := chunk_inBlock stop p
    refine move_of_out ?_
    simp only [moveAt, fromBuf, owned_data, OffDisk, blockAddr, diskMap, diskSize, blkSize] at hx' h2 h3 h4 ⊢
    omega
  · intro q hq hqp
    rw [hv]
    by_cases hin : p ≤ q
    · have hqb : blockOf m₁ f (q / blkSize) ≠ 0 := by
        have h4 := chunk_inBlock stop p
        have : q / blkSize = p / blkSize := by
          simp only [blkSize] at h4 ⊢
          omega
        rwa [this]
      refine ⟨hqb, ?_⟩
      have hmax := add_chunk_le stop (fileGetBlock_range hget)
      have hoff := hbuf (q - o) (by omega) (by omega)
      rw [hmove q hqb, if_pos ⟨hin, hqp⟩, show buf + (p - o) + (q - p) = buf + (q - o) by omega, hg.off _ hoff,
        h.off _ hoff]
    · obtain ⟨hqb, hval⟩ := h.new q hq (by omega)
      have hqb₁ : blockOf m₁ f (q / blkSize) ≠ 0 := by rwa [hg.blockOf_ne hf' hqb]
      refine ⟨hqb₁, ?_⟩
      rw [hmove q hqb₁, if_neg (by omega), hg.byteAt hx hf' hqb, hval]
  · intro q hq hqb
    have hqb' : blockOf m f (q / blkSize) ≠ 0 := by rwa [h.stays.blockOf_ne hf hqb]
    have hqb₁ : blockOf m₁ f (q / blkSize) ≠ 0 := by rwa [hg.blockOf_ne hf' hqb']
    rw [hmove q hqb₁, if_neg (by omega), hg.byteAt hx hf' hqb', h.old q (by omega) hqb]
  · intro q hq hqb hqb₁
    rw [hv] at hqb₁ ⊢
    rw [hmove q hqb₁, if_neg (by omega)]
    by_cases h0 : blockOf m f (q / blkSize) = 0
    · have hfree := hg.taken (.data (q / blkSize)) h0 hqb₁
      have hin := inBlock_pos (blockOf m₁ f (q / blkSize)) q
      unfold byteAt
      rw [hg.fresh _ h0 hqb₁ _ hin]
      exact h.stays.freeByte _ hfree _ hin
    · rw [hg.byteAt hx hf' h0, hg.blockOf_ne hf' h0]
      exact h.fresh q (by omega) hqb h0

include hm

end Write

/-- The bytes from `o` up to `p` have been copied to the buffer. -/
structure Copied (f buf o : ℕ) (m₀ : Bytes) (p : ℕ) (m : Bytes) : Prop where
  stays : Stays f m₀ m
  off : ∀ x, OffDisk x → ¬ (buf ≤ x ∧ x < buf + (p - o)) → m x = m₀ x
  old : ∀ q, blockOf m₀ f (q / blkSize) ≠ 0 → byteAt m f q = byteAt m₀ f q
  fresh : ∀ q, blockOf m₀ f (q / blkSize) = 0 → blockOf m f (q / blkSize) ≠ 0 →
    byteAt m f q = m₀ (blockAddr (blockOf m f (q / blkSize)) + q % blkSize)
  copied : ∀ q, o ≤ q → q < p → blockOf m f (q / blkSize) ≠ 0 ∧ m (buf + (q - o)) = byteAt m f q

lemma Copied.refl (hm : Exclusive m) (f buf o : ℕ) : Copied f buf o m o m :=
  ⟨.refl hm f, fun _ _ _ => rfl, fun _ _ => rfl, fun _ h h' => absurd h h', fun q h h' => by omega⟩

lemma Copied.round (hf : Reachable m₀ f) (hs : IsDir m₀ f → Covers m₀ f (p / blkSize))
    (hz : IsDir m₀ f → FreeZero m₀ ∨ Filled m₀ f) (hbuf : ∀ k < stop - o, OffDisk (buf + k))
    (h : Copied f buf o m₀ p m) (hp : o ≤ p) (hps : p < stop)
    (hget : fileGetBlock f (p / blkSize) m = .ok (m₁, .ok blk)) :
    Copied f buf o m₀ (p + chunk stop p) ((moveAt toBuf o stop buf p blk).apply m₁) := by
  have hx := h.stays.exclusive
  have hf' := (h.stays.reach f).mpr hf
  have hz' : IsDir m f → FreeZero m ∨ blockOf m f (p / blkSize) ≠ 0 := by
    rw [h.stays.isDir f hf]
    intro hd
    refine (hz hd).imp h.stays.freeZero fun hfill => h.stays.filled hf hfill _ ?_
    rw [Covers, h.stays.size f hf]
    exact hs hd
  have hg := fileGetBlock_grows hx hf' hz' hget
  obtain ⟨hne, rfl⟩ := fileGetBlock_blockOf hx hf' hget
  have hx₁ := hg.exclusive
  have hf₁ := (hg.reach f).mpr hf'
  have hle := chunk_le stop p
  have hc := chunk_inBlock stop p
  have hoff : ∀ k < chunk stop p, OffDisk (buf + (p - o) + k) := by
    intro k hk
    rw [Nat.add_assoc]
    exact hbuf _ (by omega)
  have hw : DataWrite f m₁ ((moveAt toBuf o stop buf p (blockAddr (blockOf m₁ f (p / blkSize)))).apply m₁) :=
    dataWrite_off hoff
  have hv := (hw.view hx₁ hf₁).2.2
  have hmove := fun q => byteAt_off (q := q) (v := moveAt toBuf o stop buf p
    (blockAddr (blockOf m₁ f (p / blkSize)))) hx₁ hf₁ hoff
  refine ⟨h.stays.trans hf (hg.toStays.trans hf' (hw.stays hx₁ hf₁)), ?_, ?_, ?_, ?_⟩
  · intro x hx' hout
    rw [← h.off x hx' (by omega), ← hg.off x hx']
    refine move_of_out ?_
    simp only [moveAt, toBuf]
    omega
  · intro q hq
    have hq' : blockOf m f (q / blkSize) ≠ 0 := by rwa [h.stays.blockOf_ne hf hq]
    have hq₁ : blockOf m₁ f (q / blkSize) ≠ 0 := by rwa [hg.blockOf_ne hf' hq']
    rw [hmove q hq₁, hg.byteAt hx hf' hq', h.old q hq]
  · intro q hq hq₁
    rw [hv] at hq₁ ⊢
    rw [hmove q hq₁]
    by_cases h0 : blockOf m f (q / blkSize) = 0
    · have hfree := hg.taken (.data (q / blkSize)) h0 hq₁
      have hin := inBlock_pos (blockOf m₁ f (q / blkSize)) q
      unfold byteAt
      rw [hg.fresh _ h0 hq₁ _ hin]
      exact h.stays.freeByte _ hfree _ hin
    · rw [hg.byteAt hx hf' h0, hg.blockOf_ne hf' h0]
      exact h.fresh q hq h0
  · intro q hq hqp
    rw [hv]
    by_cases hin : p ≤ q
    · have hi : q / blkSize = p / blkSize := by
        simp only [blkSize] at hc ⊢
        omega
      have hq₁ : blockOf m₁ f (q / blkSize) ≠ 0 := by rwa [hi]
      refine ⟨hq₁, ?_⟩
      rw [hmove q hq₁, Move.apply, move_of_in]
      · unfold byteAt
        rw [hi]
        congr 1
        simp only [moveAt, toBuf, blkSize] at hi hc ⊢
        omega
      all_goals
        simp only [moveAt, toBuf]
        omega
    · obtain ⟨hq', hval⟩ := h.copied q hq (by omega)
      have hq₁ : blockOf m₁ f (q / blkSize) ≠ 0 := by rwa [hg.blockOf_ne hf' hq']
      refine ⟨hq₁, ?_⟩
      rw [hmove q hq₁, hg.byteAt hx hf' hq', ← hval, ← hg.off _ (hbuf (q - o) (by omega))]
      refine move_of_out ?_
      simp only [moveAt, toBuf]
      omega

end Jos.Fs
