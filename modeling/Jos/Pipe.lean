import Mathlib.Data.List.Infix
import Mathlib.Data.UInt
import Jos.Runs

/-!
A pipe: one page with a ring of bytes and two positions that run on without end.

The reader moves `p_rpos` and the writer `p_wpos`. The positions are 32-bit numbers that wrap, they
are compared as 64-bit numbers, and the ring has a size that is not a power of two. Each access to a
position or to a byte of the ring is a step of its own, and the steps come in any order.
-/

namespace Jos.Pipe

open Runs List Nat

/-- `PIPEBUFSIZ`: a page without two `off_t`. -/
def pipeBufSiz : ℕ := 4088

/-- A position as the `size_t` it is turned into. -/
def wide (pos : BitVec 32) : BitVec 64 := pos.signExtend 64

/-- `pos % PIPEBUFSIZ` -/
def slot (pos : BitVec 32) : ℕ := (wide pos % BitVec.ofNat 64 pipeBufSiz).toNat

/-- `p->p_wpos >= p->p_rpos + sizeof(p->p_buf)` -/
def isFull (rpos wpos : BitVec 32) : Prop := wide rpos + BitVec.ofNat 64 pipeBufSiz ≤ wide wpos
  deriving Decidable

/-- What `devpipe_read` does next. -/
inductive ReadPc
  /-- load `p_rpos` for the test whether the pipe is empty -/
  | testRpos
  /-- load `p_wpos` for it -/
  | testWpos (rpos : BitVec 32)
  /-- the pipe was empty -/
  | empty
  /-- load `p_rpos` for the index -/
  | index
  /-- load the byte -/
  | take (rpos : BitVec 32)
  /-- load `p_rpos` to increment it -/
  | load
  /-- store the position after it -/
  | store (rpos : BitVec 32)

/-- What `devpipe_write` does next. -/
inductive WritePc
  | testWpos
  | testRpos (wpos : BitVec 32)
  /-- the pipe was full -/
  | full
  | index
  /-- store the byte -/
  | put (wpos : BitVec 32)
  | load
  | store (wpos : BitVec 32)

/-- The reading environment: in a call it wants `n` bytes and has `got`. -/
inductive Reader
  | idle
  | call (pc : ReadPc) (n : ℕ) (got : List UInt8)

/-- The writing environment: in a call it is at the byte `b`, with `rest` to follow. -/
inductive Writer
  | idle
  | call (pc : WritePc) (b : UInt8) (rest : List UInt8)

/-- The page, the two environments, the bytes that `devpipe_read` has returned, and those that were stored.
-/
structure State where
  rpos : BitVec 32
  wpos : BitVec 32
  buf : ℕ → UInt8
  reader : Reader
  writer : Writer
  returned : List UInt8
  stored : List UInt8

/-- The page `pipe` has allocated is zero. -/
def boot : State := ⟨0, 0, fun _ => 0, .idle, .idle, [], []⟩

/-- `devpipe_read` returns. -/
def State.readReturns (s : State) (got : List UInt8) : State :=
  { s with reader := .idle, returned := s.returned ++ got }

def State.readNext (s : State) (n : ℕ) (got : List UInt8) : State :=
  if got.length < n then { s with reader := .call .testRpos n got } else s.readReturns got

def State.writeNext (s : State) : List UInt8 → State
  | [] => { s with writer := .idle }
  | b :: rest => { s with writer := .call .testWpos b rest }

/-- A step of the loop of `devpipe_read`. The answer of `_pipeisclosed` is an input. -/
def State.readStep (s : State) (closed : Bool) (n : ℕ) (got : List UInt8) : ReadPc → State
  | .testRpos => { s with reader := .call (.testWpos s.rpos) n got }
  | .testWpos rpos => { s with reader := .call (if rpos = s.wpos then .empty else .index) n got }
  | .empty =>
    if 0 < got.length then s.readReturns got
    else if closed then s.readReturns []
    else { s with reader := .call .testRpos n got }
  | .index => { s with reader := .call (.take s.rpos) n got }
  | .take rpos => { s with reader := .call .load n (got ++ [s.buf (slot rpos)]) }
  | .load => { s with reader := .call (.store s.rpos) n got }
  | .store rpos => { s with rpos := rpos + 1 }.readNext n got

/-- A step of the loop of `devpipe_write`. -/
def State.writeStep (s : State) (closed : Bool) (b : UInt8) (rest : List UInt8) : WritePc → State
  | .testWpos => { s with writer := .call (.testRpos s.wpos) b rest }
  | .testRpos wpos => { s with writer := .call (if isFull s.rpos wpos then .full else .index) b rest }
  | .full => { s with writer := if closed then .idle else .call .testWpos b rest }
  | .index => { s with writer := .call (.put s.wpos) b rest }
  | .put wpos =>
    { s with
      buf := Function.update s.buf (slot wpos) b
      stored := s.stored ++ [b]
      writer := .call .load b rest }
  | .load => { s with writer := .call (.store s.wpos) b rest }
  | .store wpos => { s with wpos := wpos + 1 }.writeNext rest

/-- What happens next: a call, or a step of the environment that is in one. -/
inductive Act
  | read (n : ℕ)
  | write (data : List UInt8)
  | reader (closed : Bool)
  | writer (closed : Bool)

inductive Refused
  | busy
  | idle
  deriving DecidableEq

def step (s : State) : Act → Except Refused State
  | .read n =>
    match s.reader with
    | .idle => .ok (s.readNext n [])
    | .call .. => .error .busy
  | .write data =>
    match s.writer with
    | .idle => .ok (s.writeNext data)
    | .call .. => .error .busy
  | .reader closed =>
    match s.reader with
    | .idle => .error .idle
    | .call pc n got => .ok (s.readStep closed n got pc)
  | .writer closed =>
    match s.writer with
    | .idle => .error .idle
    | .call pc b rest => .ok (s.writeStep closed b rest pc)

/-- The position after `k` bytes. -/
def pos (k : ℕ) : BitVec 32 := BitVec.ofNat 32 k

lemma pos_succ (k : ℕ) : pos k + 1 = pos (k + 1) := by
  rw [pos, pos, BitVec.ofNat_add]
  rfl

lemma pos_inj {j k : ℕ} (hj : j < 2 ^ 32) (hk : k < 2 ^ 32) : pos j = pos k ↔ j = k := by
  refine ⟨fun h => ?_, fun h => by rw [h]⟩
  have := congrArg BitVec.toNat h
  rwa [pos, pos, BitVec.toNat_ofNat, BitVec.toNat_ofNat, mod_eq_of_lt hj, mod_eq_of_lt hk] at this

lemma toNat_wide_pos {k : ℕ} (hk : k < 2 ^ 32) :
    (wide (pos k)).toNat = if k < 2 ^ 31 then k else k + (2 ^ 64 - 2 ^ 32) := by
  rw [wide, BitVec.toNat_signExtend, BitVec.toNat_setWidth, BitVec.msb_eq_decide, pos,
    BitVec.toNat_ofNat, mod_eq_of_lt hk, mod_eq_of_lt (by omega)]
  split <;> simp_all

lemma slot_pos {k : ℕ} (hk : k < 2 ^ 32) :
    slot (pos k) = (if k < 2 ^ 31 then k else k + (2 ^ 64 - 2 ^ 32)) % pipeBufSiz := by
  rw [slot, BitVec.toNat_umod, toNat_wide_pos hk]
  rfl

/-- There is room for the byte after the first `w`, when `r` of them have been read. Past the middle of the
positions the writer waits until the reader has come there too. -/
structure Room (r w : ℕ) : Prop where
  lt : w < r + pipeBufSiz
  last : w + 1 < 2 ^ 32
  half : 2 ^ 31 ≤ w → 2 ^ 31 ≤ r

lemma room_of_not_isFull {r w : ℕ} (hrw : r ≤ w) (hw : w < 2 ^ 32) (h : ¬ isFull (pos r) (pos w)) : Room r w := by
  rw [isFull, BitVec.le_def, BitVec.toNat_add, toNat_wide_pos hw, toNat_wide_pos (by omega),
    show (BitVec.ofNat 64 pipeBufSiz).toNat = 4088 from rfl] at h
  constructor
  · unfold pipeBufSiz
    split_ifs at h <;> omega
  all_goals split_ifs at h <;> omega

lemma Room.mono {r r' w : ℕ} (h : Room r w) (hr : r ≤ r') : Room r' w :=
  ⟨h.lt.trans_le (by omega), h.last, fun hw => (h.half hw).trans hr⟩

lemma Room.slot_ne {r w k : ℕ} (h : Room r w) (hr : r ≤ k) (hw : k < w) : slot (pos k) ≠ slot (pos w) := by
  have h1 := h.lt
  have h2 := h.last
  have h3 := h.half
  rw [slot_pos (by omega), slot_pos (by omega)]
  unfold pipeBufSiz at *
  split_ifs <;> omega

def Reader.got : Reader → List UInt8
  | .idle => []
  | .call _ _ got => got

def State.taken (s : State) : List UInt8 := s.returned ++ s.reader.got

/-- The bytes that are taken, and not counted in `p_rpos` yet. -/
def Reader.ahead : Reader → ℕ
  | .call .load _ _ | .call (.store _) _ _ => 1
  | _ => 0

/-- The bytes that are stored, and not counted in `p_wpos` yet. -/
def Writer.ahead : Writer → ℕ
  | .call .load _ _ | .call (.store _) _ _ => 1
  | _ => 0

/-- What the reader knows when `r` bytes are counted as read and `w` as written. -/
def Reader.Knows (r w : ℕ) : Reader → Prop
  | .call (.testWpos rpos) _ _ | .call (.store rpos) _ _ => rpos = pos r
  | .call .index _ _ => r < w
  | .call (.take rpos) _ _ => rpos = pos r ∧ r < w
  | _ => True

def Writer.Knows (r w : ℕ) : Writer → Prop
  | .call (.testRpos wpos) _ _ | .call (.store wpos) _ _ => wpos = pos w
  | .call .index _ _ => Room r w
  | .call (.put wpos) _ _ => wpos = pos w ∧ Room r w
  | _ => True

/-- What holds when `r` bytes are counted as read and `w` as written. -/
structure Holds (s : State) (r w : ℕ) : Prop where
  rpos : s.rpos = pos r
  wpos : s.wpos = pos w
  taken : s.taken.length = r + s.reader.ahead
  stored : s.stored.length = w + s.writer.ahead
  order : s.taken.length ≤ w
  room : s.stored.length ≤ r + pipeBufSiz
  last : s.stored.length < 2 ^ 32
  fifo : s.taken <+: s.stored
  bytes : ∀ k, s.taken.length ≤ k → ∀ b, s.stored[k]? = some b → s.buf (slot (pos k)) = b
  reader : s.reader.Knows r w
  writer : s.writer.Knows r w

lemma holds_boot : Holds boot 0 0 := by
  constructor <;> simp [boot, pos, State.taken, Reader.got, Reader.ahead, Writer.ahead, Reader.Knows, Writer.Knows]

variable {s : State} {r w n : ℕ} {got rest : List UInt8} {b : UInt8} {closed : Bool}

lemma Holds.read_le (h : Holds s r w) : r ≤ w := by
  have h1 := h.taken
  have h2 := h.order
  omega

lemma Holds.write_lt (h : Holds s r w) : w < 2 ^ 32 := by
  have h1 := h.stored
  have h2 := h.last
  omega

lemma Writer.Knows.read {wr : Writer} (h : wr.Knows r w) : wr.Knows (r + 1) w := by
  rcases wr with _ | ⟨_ | _ | _ | _ | _ | _ | _, _, _⟩ <;> try exact h
  · exact Room.mono h (le_succ r)
  · exact ⟨h.1, h.2.mono (le_succ r)⟩

lemma Reader.Knows.write {rd : Reader} (h : rd.Knows r w) : rd.Knows r (w + 1) := by
  rcases rd with _ | ⟨_ | _ | _ | _ | _ | _ | _, _, _⟩ <;> try exact h
  · exact lt_succ_of_lt h
  · exact ⟨h.1, lt_succ_of_lt h.2⟩

section

variable (h : Holds s r w)
include h

lemma Holds.reader_to {rd : Reader} (hg : rd.got = s.reader.got)
    (ha : rd.ahead = s.reader.ahead) (hk : rd.Knows r w) : Holds { s with reader := rd } r w := by
  have ht : State.taken { s with reader := rd } = s.taken := by
    rw [State.taken, State.taken, hg]
  exact { h with
    taken := by rw [ht, h.taken, ha]
    order := by rw [ht]; exact h.order
    fifo := by rw [ht]; exact h.fifo
    bytes := by rw [ht]; exact h.bytes
    reader := hk }

lemma Holds.readReturns (hg : s.reader.got = got) (ha : s.reader.ahead = 0) : Holds (s.readReturns got) r w := by
  have ht : (s.readReturns got).taken = s.taken := by
    rw [State.taken, State.taken, hg]
    exact append_nil _
  exact { h with
    taken := by rw [ht, h.taken, ha]; rfl
    order := by rw [ht]; exact h.order
    fifo := by rw [ht]; exact h.fifo
    bytes := by rw [ht]; exact h.bytes
    reader := trivial }

lemma Holds.readNext (hg : s.reader.got = got) (ha : s.reader.ahead = 0) : Holds (s.readNext n got) r w := by
  unfold State.readNext
  split
  · exact h.reader_to hg.symm ha.symm trivial
  · exact h.readReturns hg ha

lemma Holds.take (hs : s.reader = .call (.take (pos r)) n got) (hrw : r < w) :
    Holds { s with reader := .call .load n (got ++ [s.buf (slot (pos r))]) } r w := by
  have hlen : s.taken.length = r := by rw [h.taken, hs]; rfl
  have hstored : r < s.stored.length := by rw [h.stored]; omega
  have hbyte : s.buf (slot (pos r)) = s.stored[r] := h.bytes r hlen.le _ (getElem?_eq_getElem hstored)
  have ht : State.taken { s with reader := .call .load n (got ++ [s.buf (slot (pos r))]) } =
      s.taken ++ [s.stored[r]] := by
    rw [hbyte, State.taken, State.taken, hs]
    exact (append_assoc _ _ _).symm
  exact { h with
    taken := by rw [ht, length_append, hlen]; rfl
    order := by rw [ht, length_append, hlen]; exact hrw
    fifo := by
      rw [ht, prefix_iff_eq_take.mp h.fifo, hlen, take_append_getElem hstored]
      exact take_prefix _ _
    bytes := by
      intro k hk
      rw [ht, length_append] at hk
      exact h.bytes k (by omega)
    reader := trivial }

lemma Holds.readStore (hs : s.reader = .call (.store (pos r)) n got) :
    Holds ({ s with rpos := pos (r + 1) }.readNext n got) (r + 1) w := by
  have ht : State.taken { s with rpos := pos (r + 1), reader := .call .testRpos n got } = s.taken := by
    rw [State.taken, State.taken, hs]
    rfl
  have hcounted : Holds { s with rpos := pos (r + 1), reader := .call .testRpos n got } (r + 1) w :=
    { h with
      rpos := rfl
      taken := by rw [ht, h.taken, hs]; rfl
      order := by rw [ht]; exact h.order
      room := by have := h.room; show s.stored.length ≤ _; omega
      fifo := by rw [ht]; exact h.fifo
      bytes := by rw [ht]; exact h.bytes
      reader := trivial
      writer := h.writer.read }
  unfold State.readNext
  split
  · exact hcounted
  · exact hcounted.readReturns rfl rfl

/-- **Every step of the reader keeps what holds.** -/
lemma Holds.readStep {pc : ReadPc} (hs : s.reader = .call pc n got) :
    ∃ r', Holds (s.readStep closed n got pc) r' w := by
  have hk := h.reader
  rw [hs] at hk
  cases pc with
  | testRpos => exact ⟨r, h.reader_to (by rw [hs]; rfl) (by rw [hs]; rfl) h.rpos⟩
  | testWpos rpos =>
    refine ⟨r, h.reader_to (by rw [hs]; rfl) ?_ ?_⟩
    · rw [hs]
      split <;> rfl
    · split
      · trivial
      · rename_i hne
        rw [show rpos = pos r from hk, h.wpos, pos_inj (by have := h.write_lt; have := h.read_le; omega) h.write_lt] at hne
        exact lt_of_le_of_ne h.read_le hne
  | empty =>
    refine ⟨r, ?_⟩
    unfold State.readStep
    split_ifs with hpos hc
    · exact h.readReturns (by rw [hs]; rfl) (by rw [hs]; rfl)
    · have hnil : got = [] := length_eq_zero_iff.mp (by omega)
      exact h.readReturns (by rw [hs, ← hnil]; rfl) (by rw [hs]; rfl)
    · exact h.reader_to (by rw [hs]; rfl) (by rw [hs]; rfl) trivial
  | index => exact ⟨r, h.reader_to (by rw [hs]; rfl) (by rw [hs]; rfl) ⟨h.rpos, hk⟩⟩
  | take rpos =>
    obtain ⟨rfl, hrw⟩ := hk
    exact ⟨r, h.take hs hrw⟩
  | load => exact ⟨r, h.reader_to (by rw [hs]; rfl) (by rw [hs]; rfl) h.rpos⟩
  | store rpos =>
    obtain rfl : rpos = pos r := hk
    refine ⟨r + 1, ?_⟩
    rw [State.readStep, pos_succ]
    exact h.readStore hs

lemma Holds.writer_to {wr : Writer} (ha : wr.ahead = s.writer.ahead)
    (hk : wr.Knows r w) : Holds { s with writer := wr } r w :=
  { h with
    stored := by rw [h.stored, ha]
    writer := hk }

lemma Holds.writeNext (ha : s.writer.ahead = 0) (rest : List UInt8) : Holds (s.writeNext rest) r w := by
  cases rest with
  | nil | cons b rest => exact h.writer_to ha.symm trivial

lemma Holds.put (hs : s.writer = .call (.put (pos w)) b rest) (hroom : Room r w) : Holds { s with
      buf := Function.update s.buf (slot (pos w)) b
      stored := s.stored ++ [b]
      writer := .call .load b rest } r w := by
  have hlen : s.stored.length = w := by rw [h.stored, hs]; rfl
  have hlen' : (s.stored ++ [b]).length = w + 1 := by rw [length_append, hlen]; rfl
  exact { h with
    stored := hlen'
    room := by rw [hlen']; exact hroom.lt
    last := by rw [hlen']; exact hroom.last
    fifo := h.fifo.trans (prefix_append _ _)
    bytes := by
      intro k (hk : s.taken.length ≤ k) c (hc : (s.stored ++ [b])[k]? = some c)
      have hr : r ≤ k := by have := h.taken; omega
      rcases lt_trichotomy k w with hkw | rfl | hkw
      · rw [getElem?_append_left (by omega)] at hc
        show Function.update s.buf (slot (pos w)) b (slot (pos k)) = c
        rw [Function.update_of_ne (hroom.slot_ne hr hkw)]
        exact h.bytes k hk c hc
      · rw [getElem?_append_right hlen.le, hlen, Nat.sub_self] at hc
        cases hc
        exact Function.update_self ..
      · rw [getElem?_eq_none (by omega)] at hc
        cases hc
    writer := trivial }

lemma Holds.writeStore (hs : s.writer = .call (.store (pos w)) b rest) :
    Holds ({ s with wpos := pos (w + 1) }.writeNext rest) r (w + 1) := by
  have hcounted : Holds { s with wpos := pos (w + 1), writer := .idle } r (w + 1) :=
    { h with
      wpos := rfl
      stored := by rw [h.stored, hs]; rfl
      order := h.order.trans (le_succ w)
      reader := h.reader.write
      writer := trivial }
  exact hcounted.writeNext rfl rest

/-- **Every step of the writer keeps what holds.** -/
lemma Holds.writeStep {pc : WritePc} (hs : s.writer = .call pc b rest) :
    ∃ w', Holds (s.writeStep closed b rest pc) r w' := by
  have hk := h.writer
  rw [hs] at hk
  cases pc with
  | testWpos => exact ⟨w, h.writer_to (by rw [hs]; rfl) h.wpos⟩
  | testRpos wpos =>
    obtain rfl : wpos = pos w := hk
    refine ⟨w, ?_⟩
    rw [State.writeStep]
    by_cases hfull : isFull s.rpos (pos w)
    · rw [if_pos hfull]
      exact h.writer_to (by rw [hs]; rfl) trivial
    · rw [if_neg hfull]
      rw [h.rpos] at hfull
      exact h.writer_to (by rw [hs]; rfl) (room_of_not_isFull h.read_le h.write_lt hfull)
  | full =>
    refine ⟨w, h.writer_to ?_ ?_⟩
    · rw [hs]
      split <;> rfl
    · split <;> trivial
  | index => exact ⟨w, h.writer_to (by rw [hs]; rfl) ⟨h.wpos, hk⟩⟩
  | put wpos =>
    obtain ⟨rfl, hroom⟩ := hk
    exact ⟨w, h.put hs hroom⟩
  | load => exact ⟨w, h.writer_to (by rw [hs]; rfl) h.wpos⟩
  | store wpos =>
    obtain rfl : wpos = pos w := hk
    refine ⟨w + 1, ?_⟩
    rw [State.writeStep, pos_succ]
    exact h.writeStore hs

end

lemma Holds.step {s' : State} {a : Act} (h : Holds s r w) (hs : Pipe.step s a = .ok s') :
    ∃ r' w', Holds s' r' w' := by
  cases a with
  | read n =>
    cases hr : s.reader with
    | idle =>
      rw [Pipe.step, hr] at hs
      cases hs
      exact ⟨r, w, h.readNext (by rw [hr]; rfl) (by rw [hr]; rfl)⟩
    | call pc n got => rw [Pipe.step, hr] at hs; cases hs
  | write data =>
    cases hw : s.writer with
    | idle =>
      rw [Pipe.step, hw] at hs
      cases hs
      exact ⟨r, w, h.writeNext (by rw [hw]; rfl) data⟩
    | call pc b rest => rw [Pipe.step, hw] at hs; cases hs
  | reader closed =>
    cases hr : s.reader with
    | idle => rw [Pipe.step, hr] at hs; cases hs
    | call pc n got =>
      rw [Pipe.step, hr] at hs
      cases hs
      obtain ⟨r', h'⟩ := h.readStep hr
      exact ⟨r', w, h'⟩
  | writer closed =>
    cases hw : s.writer with
    | idle => rw [Pipe.step, hw] at hs; cases hs
    | call pc b rest =>
      rw [Pipe.step, hw] at hs
      cases hs
      obtain ⟨w', h'⟩ := h.writeStep hw
      exact ⟨r, w', h'⟩

lemma holds_of_run {as : List Act} (h : run Pipe.step boot as = .ok s) : ∃ r w, Holds s r w := by
  have hstep : ∀ (s : State) (a : Act) (s' : State), (∃ r w, Holds s r w) → True →
      Pipe.step s a = .ok s' → ∃ r w, Holds s' r w := by
    rintro s a s' ⟨r, w, h⟩ - hs
    exact h.step hs
  exact run_inv hstep ⟨0, 0, holds_boot⟩ (fun _ _ => trivial) h

/-- **A pipe is a queue.** Whatever the calls, and in whatever order the environments take their
steps, the bytes that were returned, and with them those a call has taken so far, are the first of
those that were stored, and no more than the ring holds are unread. -/
theorem pipe_fifo {as : List Act} {s : State} (h : run Pipe.step boot as = .ok s) :
    s.returned <+: s.stored ∧ s.taken <+: s.stored ∧
      s.stored.length ≤ s.taken.length + pipeBufSiz := by
  obtain ⟨r, w, hs⟩ := holds_of_run h
  have h1 := hs.room
  have h2 := hs.taken
  exact ⟨(prefix_append _ _).trans hs.fifo, hs.fifo, by omega⟩

def twoBytes : List Act := .write [104, 105] :: List.replicate 12 (.writer false)

theorem pipe_fifo_twoBytes :
    ∃ s, run Pipe.step boot (twoBytes ++ .read 5 :: List.replicate 15 (.reader false)) = .ok s ∧
      s.returned = [104, 105] ∧ s.returned <+: s.stored := by
  have hrun : ∃ s, run Pipe.step boot (twoBytes ++ .read 5 :: replicate 15 (.reader false)) = .ok s ∧
      s.returned = [104, 105] := by
    decide
  obtain ⟨s, hs, ht⟩ := hrun
  exact ⟨s, hs, ht, (pipe_fifo hs).1⟩

end Jos.Pipe
