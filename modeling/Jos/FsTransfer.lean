import Jos.FsFrame

/-!
The loops of `file_read` and `file_write`.

A loop takes a range of a file block by block. Positions are 32-bit numbers and the end of the
range is a 64-bit one, but no file has a block past `MAXFILESIZE`, so that up to there they are
just numbers.
-/

namespace Jos.Fs

open ByteMem CArray Int

variable {m m' m₁ : Bytes} {f buf stop p n : ℕ} {move : ℕ → ℕ → ℕ → Move}

def chunk (stop p : ℕ) : ℕ := min (blkSize - p % blkSize) (stop - p)

lemma chunk_pos (h : p < stop) : 0 < chunk stop p := by
  simp only [chunk, blkSize]
  omega

lemma chunk_le (stop p : ℕ) : p + chunk stop p ≤ max p stop := by
  unfold chunk
  omega

lemma chunk_inBlock (stop p : ℕ) : p % blkSize + chunk stop p ≤ blkSize := by
  simp only [chunk, blkSize]
  omega

def Move.apply (v : Move) (m : Bytes) : Bytes := ByteMem.move m v.dst v.src v.len

def Move.Loads (v : Move) (m : Bytes) : Prop := Loadable m v.dst v.len ∧ Loadable m v.src v.len
  deriving Decidable

def Transfer.cons {α : Type} (v : Move) (t : Transfer α) : Transfer α := { t with moves := v :: t.moves }

def round (move : ℕ → ℕ → ℕ → Move) (f stop p buf : ℕ) (m : Bytes)
    (next : ℕ → ℕ → Bytes → Transfer (Option ℤ)) : Transfer (Option ℤ) :=
  match fileGetBlock f (p / blkSize) m with
  | .error e => ⟨m, [], .error e⟩
  | .ok (m, .error e) => ⟨m, [], .ok (some e)⟩
  | .ok (m, .ok blk) =>
    let v := move (blk + p % blkSize) buf (chunk stop p)
    if v.Loads m then (next (p + chunk stop p) (buf + chunk stop p) (v.apply m)).cons v
    else ⟨m, [v], .error .badBlock⟩

lemma transferLoop_succ (hp : p ≤ maxFileSize) (hs : stop < 2 ^ 64) : transferLoop move f stop (n + 1) p buf m =
      if p < stop then round move f stop p buf m fun p buf m => transferLoop move f stop n p buf m
      else ⟨m, [], .ok none⟩ := by
  have hmax : maxFileSize = 4235264 := rfl
  have h1 : intToSize (p : ℤ) = p := intToSize_of_nonneg
  have h2 : ((p : ℤ).tdiv blkSize % 2 ^ 32).toNat = p / blkSize := by
    rw [tdiv_eq_ediv_of_nonneg (by omega)]
    simp only [blkSize]
    omega
  have h3 : (p : ℤ).tmod blkSize = ((p % blkSize : ℕ) : ℤ) := by
    rw [tmod_eq_emod_of_nonneg (by omega), natCast_mod]
  rw [transferLoop, h1, h2, h3]
  by_cases hlt : p < stop
  swap
  · rw [if_neg hlt, if_neg hlt]
  have h4 : ((blkSize : ℤ) - ((p % blkSize : ℕ) : ℤ)).toNat = blkSize - p % blkSize := by omega
  have h5 : sizeSub stop p = stop - p := sizeSub_of_le hlt.le hs
  have h6 : bmod ((p : ℤ) + (chunk stop p : ℕ)) (2 ^ 32) = ((p + chunk stop p : ℕ) : ℤ) := by
    have := chunk_inBlock stop p
    have h7 : blkSize = 4096 := rfl
    rw [bmod_eq_of_le (by omega) (by omega)]
    omega
  unfold round
  rw [h4, h5, ← chunk]
  cases fileGetBlock f (p / blkSize) m with
  | error e => rfl
  | ok r =>
    obtain ⟨m₁, r⟩ := r
    cases r with
    | error e => rfl
    | ok blk =>
      have h8 : ((blk : ℤ) + ((p % blkSize : ℕ) : ℤ)).toNat = blk + p % blkSize := by omega
      simp only [h6, h8]
      rfl

lemma transferLoop_end (hp : p ≤ maxFileSize) (hs : stop < 2 ^ 64) (h : stop ≤ p) :
    transferLoop move f stop (n + 1) p buf m = ⟨m, [], .ok none⟩ := by
  rw [transferLoop_succ hp hs, if_neg (by omega)]

lemma fileGetBlock_range {i blk : ℕ} (h : fileGetBlock f i m = .ok (m₁, .ok blk)) : i < nDirect + nIndirect := by
  by_contra hi
  rw [fileGetBlock_of_error (fileBlockWalk_range true (by omega))] at h
  cases h

lemma add_chunk_le (stop : ℕ) (h : p / blkSize < nDirect + nIndirect) : p + chunk stop p ≤ maxFileSize := by
  have h1 := chunk_inBlock stop p
  simp only [maxFileSize, nDirect, nIndirect, blkSize] at h h1 ⊢
  omega

section Negative

variable {d count : ℕ}

lemma transferLoop_neg_wrapped (hd : 0 < d) (hd' : d ≤ 2 ^ 31) (hc : count < 2 ^ 64) (h : count = 0 ∨ d ≤ count) :
    transferLoop move f ((intToSize (-(d : ℤ)) + count) % 2 ^ 64) (n + 1) (-(d : ℤ)) buf m = ⟨m, [], .ok none⟩ := by
  have hsize : intToSize (-(d : ℤ)) = 2 ^ 64 - d := intToSize_of_neg hd
  rw [transferLoop, hsize, if_neg (by omega)]

lemma transferLoop_neg_far (hd : blkSize ≤ d) (hd' : d ≤ 2 ^ 31) (hpos : 0 < count) (hlt : count < d) :
    transferLoop move f ((intToSize (-(d : ℤ)) + count) % 2 ^ 64) (n + 1) (-(d : ℤ)) buf m =
      ⟨m, [], .ok (some (-eInval))⟩ := by
  have hsize : intToSize (-(d : ℤ)) = 2 ^ 64 - d := intToSize_of_neg
  have hr : nDirect + nIndirect ≤ ((-(d : ℤ)).tdiv blkSize % 2 ^ 32).toNat := by
    rw [Int.neg_tdiv, Int.tdiv_eq_ediv_of_nonneg (by omega)]
    simp only [nDirect, nIndirect, blkSize] at hd ⊢
    omega
  rw [transferLoop, hsize, if_pos (by omega), fileGetBlock_of_error (fileBlockWalk_range true hr)]

/-- **Close before the file** one move is made, of all the bytes that are asked for, and from the bytes
before the first block. -/
lemma transferLoop_neg_near (hd : d < blkSize) (hpos : 0 < count) (hlt : count < d) :
    transferLoop move f ((intToSize (-(d : ℤ)) + count) % 2 ^ 64) (n + 2) (-(d : ℤ)) buf m =
      match fileGetBlock f 0 m with
      | .error e => ⟨m, [], .error e⟩
      | .ok (m, .error e) => ⟨m, [], .ok (some e)⟩
      | .ok (m, .ok blk) =>
        let v := move ((blk : ℤ) - d).toNat buf count
        if v.Loads m then ⟨v.apply m, [v], .ok none⟩ else ⟨m, [v], .error .badBlock⟩ := by
  have hblk : blkSize = 4096 := rfl
  have hsize : intToSize (-(d : ℤ)) = 2 ^ 64 - d := intToSize_of_neg
  have hstop : (2 ^ 64 - d + count) % 2 ^ 64 = 2 ^ 64 - d + count := Nat.mod_eq_of_lt (by omega)
  have hdiv : ((-(d : ℤ)).tdiv blkSize % 2 ^ 32).toNat = 0 := by
    rw [Int.neg_tdiv, Int.tdiv_eq_ediv_of_nonneg (by omega), Int.ediv_eq_zero_of_lt (by omega) (by omega)]
    rfl
  have hmod : (-(d : ℤ)).tmod blkSize = -(d : ℤ) := by
    rw [neg_tmod, tmod_eq_emod_of_nonneg (by omega), emod_eq_of_lt (by omega) (by omega)]
  have hbn : min ((blkSize : ℤ) - -(d : ℤ)).toNat (sizeSub (2 ^ 64 - d + count) (2 ^ 64 - d)) = count := by
    rw [sizeSub_of_le]
    omega
  have hend : bmod (-(d : ℤ) + count) (2 ^ 32) = -((d - count : ℕ) : ℤ) := by
    rw [bmod_eq_of_le (by omega) (by omega)]
    omega
  -- after the move the position is the end of the range
  have hlast : ∀ buf m, transferLoop move f (2 ^ 64 - d + count) (n + 1) (-((d - count : ℕ) : ℤ)) buf m =
      ⟨m, [], .ok none⟩ := fun buf m => by
    rw [transferLoop, intToSize_of_neg, if_neg (by omega)]
  rw [transferLoop, hsize, hstop, if_pos (by omega), hdiv, hmod]
  cases fileGetBlock f 0 m with
  | error e => rfl
  | ok r =>
    obtain ⟨m₁, e | blk⟩ := r
    · rfl
    · simp only [hbn, hend, hlast]
      rfl

end Negative

def moveAt (move : ℕ → ℕ → ℕ → Move) (start stop buf p blk : ℕ) : Move :=
  move (blk + p % blkSize) (buf + (p - start)) (chunk stop p)

variable {I : ℕ → Bytes → Prop} {e : ℤ} {i : ℕ}

section Rules

variable {start : ℕ}

lemma buf_add_chunk (h : start ≤ p) : buf + (p - start) + chunk stop p = buf + (p + chunk stop p - start) := by
  omega

/-- **The rule for a loop whose rounds succeed.** -/
theorem transferLoop_ok (hstop : stop ≤ maxFileSize) (hround : ∀ p m, start ≤ p → p < stop → I p m → ∃ m₁ blk,
      fileGetBlock f (p / blkSize) m = .ok (m₁, .ok blk) ∧ (moveAt move start stop buf p blk).Loads m₁ ∧
        I (p + chunk stop p) ((moveAt move start stop buf p blk).apply m₁))
    (hp : start ≤ p) (hps : p ≤ stop) (hn : stop - p < n) (h : I p m) :
    ∃ m' moves, transferLoop move f stop n p (buf + (p - start)) m = ⟨m', moves, .ok none⟩ ∧ I stop m' := by
  have hmax : maxFileSize = 4235264 := rfl
  induction n generalizing p m with
  | zero => omega
  | succ n ih =>
    rcases Nat.lt_or_ge p stop with hlt | hge
    swap
    · obtain rfl : p = stop := by omega
      exact ⟨m, [], transferLoop_end hstop (by omega) le_rfl, h⟩
    obtain ⟨m₁, blk, hget, hload, hI⟩ := hround p m hp hlt h
    have hpos := chunk_pos hlt
    have hle := chunk_le stop p
    obtain ⟨m', moves, hloop, hI'⟩ := ih (p := p + chunk stop p) (by omega) (by omega) (by omega) hI
    refine ⟨m', moveAt move start stop buf p blk :: moves, ?_, hI'⟩
    rw [transferLoop_succ (by omega) (by omega), if_pos hlt]
    unfold round
    rw [hget]
    show (if (moveAt move start stop buf p blk).Loads m₁ then _ else _) = _
    rw [if_pos hload, buf_add_chunk hp]
    show (transferLoop move f stop n ((p + chunk stop p : ℕ) : ℤ) (buf + (p + chunk stop p - start))
      ((moveAt move start stop buf p blk).apply m₁)).cons _ = _
    rw [hloop]
    rfl

variable (m f buf stop p n move start) in
/-- A round of the loop, and what becomes of the transfer. -/
inductive Round : Transfer (Option ℤ) → Prop
  | done (h : stop ≤ p) : Round ⟨m, [], .ok none⟩
  | fault {e : Stop} (h : p < stop) (hg : fileGetBlock f (p / blkSize) m = .error e) : Round ⟨m, [], .error e⟩
  | stuck {m' : Bytes} {e : ℤ} (h : p < stop) (hg : fileGetBlock f (p / blkSize) m = .ok (m', .error e)) :
    Round ⟨m', [], .ok (some e)⟩
  | refused {m' : Bytes} {blk : ℕ} (h : p < stop) (hg : fileGetBlock f (p / blkSize) m = .ok (m', .ok blk)) :
    Round ⟨m', [moveAt move start stop buf p blk], .error .badBlock⟩
  | moved {m' : Bytes} {blk : ℕ} (h : p < stop) (hg : fileGetBlock f (p / blkSize) m = .ok (m', .ok blk)) :
    Round ((transferLoop move f stop n ((p + chunk stop p : ℕ) : ℤ) (buf + (p + chunk stop p - start))
      ((moveAt move start stop buf p blk).apply m')).cons (moveAt move start stop buf p blk))

lemma transferLoop_round {t : Transfer (Option ℤ)} (hs : stop < 2 ^ 64) (hp : start ≤ p) (hmax : p ≤ maxFileSize)
    (ht : transferLoop move f stop (n + 1) p (buf + (p - start)) m = t) :
    Round m f buf stop p n move start t := by
  rw [transferLoop_succ hmax hs] at ht
  split at ht
  swap
  · exact ht ▸ .done (by omega)
  rename_i hlt
  unfold round at ht
  split at ht
  · rename_i hg
    exact ht ▸ .fault hlt hg
  · rename_i hg
    exact ht ▸ .stuck hlt hg
  · rename_i m₁ blk hg
    change (if (moveAt move start stop buf p blk).Loads m₁ then _ else _) = t at ht
    split at ht
    · rw [buf_add_chunk hp] at ht
      exact ht ▸ .moved hlt hg
    · exact ht ▸ .refused hlt hg

/-- **The rule for what a loop keeps**, however it ends. -/
theorem transferLoop_inv {I : Bytes → Prop} (hs : stop < 2 ^ 64)
    (hget : ∀ p m m₁ r, start ≤ p → p < stop → I m → fileGetBlock f (p / blkSize) m = .ok (m₁, r) → I m₁)
    (hmove : ∀ p m m₁ blk, start ≤ p → p < stop → I m →
      fileGetBlock f (p / blkSize) m = .ok (m₁, .ok blk) → I ((moveAt move start stop buf p blk).apply m₁))
    (hp : start ≤ p) (hmax : p ≤ maxFileSize) (h : I m) :
    I (transferLoop move f stop n p (buf + (p - start)) m).mem := by
  induction n generalizing p m with
  | zero => exact h
  | succ n ih =>
    generalize ht : transferLoop move f stop (n + 1) p (buf + (p - start)) m = t
    cases transferLoop_round hs hp hmax ht with
    | done | fault => exact h
    | stuck hlt hg | refused hlt hg => exact hget p m _ _ hp hlt h hg
    | moved hlt hg => exact ih (by omega) (add_chunk_le _ (fileGetBlock_range hg)) (hmove p m _ _ hp hlt h hg)

section

variable (hs : stop < 2 ^ 64)
  (hround : ∀ p m m₁ blk, start ≤ p → p < stop → I p m → fileGetBlock f (p / blkSize) m = .ok (m₁, .ok blk) →
    I (p + chunk stop p) ((moveAt move start stop buf p blk).apply m₁))
  (hp : start ≤ p) (hmax : p ≤ maxFileSize)
include hs hround hp hmax

end

/-- **The rule for the moves**: each is that of a round, and `J` is what lies between the memory in which
its block was found and the one in the end. -/
theorem transferLoop_moves {I : Bytes → Prop} {J : Bytes → Bytes → Prop} (hs : stop < 2 ^ 64)
    (hrefl : ∀ m, J m m) (htrans : ∀ m m' m'', J m m' → J m' m'' → J m m'')
    (hget : ∀ p m m₁ r, start ≤ p → p < stop → I m → fileGetBlock f (p / blkSize) m = .ok (m₁, r) → I m₁ ∧ J m m₁)
    (hmove : ∀ p m m₁ blk, start ≤ p → p < stop → I m → fileGetBlock f (p / blkSize) m = .ok (m₁, .ok blk) →
        I ((moveAt move start stop buf p blk).apply m₁) ∧ J m₁ ((moveAt move start stop buf p blk).apply m₁))
    (hp : start ≤ p) (hmax : p ≤ maxFileSize) (h : I m) {v : Move}
    (hv : v ∈ (transferLoop move f stop n p (buf + (p - start)) m).moves) :
    ∃ q m₁ m₂ blk, start ≤ q ∧ q < stop ∧ I m₁ ∧ fileGetBlock f (q / blkSize) m₁ = .ok (m₂, .ok blk) ∧
      v = moveAt move start stop buf q blk ∧ J m₂ (transferLoop move f stop n p (buf + (p - start)) m).mem := by
  induction n generalizing p m with
  | zero => cases hv
  | succ n ih =>
    generalize ht : transferLoop move f stop (n + 1) p (buf + (p - start)) m = t at hv ⊢
    cases transferLoop_round hs hp hmax ht with
    | done | fault | stuck => cases hv
    | refused hlt hg =>
      rw [List.mem_singleton.mp hv]
      exact ⟨p, m, _, _, hp, hlt, h, hg, rfl, hrefl _⟩
    | moved hlt hg =>
      obtain ⟨hI, hJ⟩ := hmove p m _ _ hp hlt h hg
      have hle := add_chunk_le stop (fileGetBlock_range hg)
      rcases List.mem_cons.mp hv with rfl | hv
      · -- what lies between the move and the end
        refine ⟨p, m, _, _, hp, hlt, h, hg, rfl, ?_⟩
        refine (transferLoop_inv (I := fun x => I x ∧ J _ x) hs (fun q x x₁ r hq hq' hx hgx => ?_)
          (fun q x x₁ blk hq hq' hx hgx => ?_) (by omega) hle ⟨hI, hJ⟩).2
        · obtain ⟨h₁, h₂⟩ := hget q x x₁ r hq hq' hx.1 hgx
          exact ⟨h₁, htrans _ _ _ hx.2 h₂⟩
        · obtain ⟨-, h₂⟩ := hget q x x₁ _ hq hq' hx.1 hgx
          obtain ⟨h₃, h₄⟩ := hmove q x x₁ blk hq hq' hx.1 hgx
          exact ⟨h₃, htrans _ _ _ hx.2 (htrans _ _ _ h₂ h₄)⟩
      · exact ih (by omega) hle hI hv

lemma mem_moves (hs : stop < 2 ^ 64) (hp : start ≤ p) (hmax : p ≤ maxFileSize) {v : Move}
    (hv : v ∈ (transferLoop move f stop n p (buf + (p - start)) m).moves) :
    ∃ q blk, start ≤ q ∧ q < stop ∧ v = moveAt move start stop buf q blk := by
  obtain ⟨q, _, _, blk, hq, hq', -, -, hmove, -⟩ :=
    transferLoop_moves (I := fun _ => True) (J := fun _ _ => True) hs (fun _ => trivial)
      (fun _ _ _ _ _ => trivial) (fun _ _ _ _ _ _ _ _ => ⟨trivial, trivial⟩)
      (fun _ _ _ _ _ _ _ _ => ⟨trivial, trivial⟩) hp hmax trivial hv
  exact ⟨q, blk, hq, hq', hmove⟩

end Rules

def IsCode (e : ℤ) : Prop := e = -eInval ∨ e = -eNoDisk ∨ e = -eNotFound

lemma IsCode.neg (h : IsCode e) : e < 0 := by
  rcases h with rfl | rfl | rfl <;> decide

lemma fileBlockWalk_error {alloc : Bool} (h : fileBlockWalk f i alloc m = .ok (m₁, .error e)) : IsCode e := by
  unfold fileBlockWalk at h
  split_ifs at h with h1 h2 h3 h4
  · cases h
    exact .inl rfl
  · cases h
  · simp only at h
    split at h
    · cases h
      exact .inr (.inl rfl)
    · obtain ⟨a, -, h⟩ := bind_eq_ok.mp h
      obtain ⟨b, -, h⟩ := bind_eq_ok.mp h
      cases h
  · cases h
    exact .inr (.inr rfl)
  · obtain ⟨a, -, h⟩ := bind_eq_ok.mp h
    cases h

lemma fileGetBlock_error (h : fileGetBlock f i m = .ok (m₁, .error e)) : IsCode e := by
  obtain ⟨⟨m', r⟩, hw, h⟩ := bind_eq_ok.mp h
  cases r with
  | error e' =>
    cases h
    exact fileBlockWalk_error hw
  | ok a =>
    simp only at h
    split at h
    · split at h
      · cases h
        exact .inr (.inl rfl)
      · obtain ⟨b, -, h⟩ := bind_eq_ok.mp h
        cases h
    · obtain ⟨b, -, h⟩ := bind_eq_ok.mp h
      cases h

end Jos.Fs
