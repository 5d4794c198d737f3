import Jos.Packets

/-!
The driver side of the network card, `e1000.c`.

The two descriptor rings and their buffers are arrays the driver shares with the card; it keeps the
tail registers below the number of descriptors. `accepted` is no data of the program: it records the
frames `e1000_transmit` has taken over, oldest first.
-/

namespace Jos.E1000

open CArray Packets

abbrev e1000NuDesc : ℕ := 64

abbrev DescIdx := Fin e1000NuDesc

instance instNeZeroNuDesc : NeZero 64 := ⟨by decide⟩

structure TxDesc where
  length : UInt16
  status : UInt8

structure RxDesc where
  length : UInt16
  status : UInt8

structure Nic where
  tdt : DescIdx
  txDescTable : DescIdx → TxDesc
  txBuf : DescIdx → Arr e1000BufferSize
  rdt : DescIdx
  rxDescTable : DescIdx → RxDesc
  rxBuf : DescIdx → Arr e1000BufferSize
  accepted : List (List UInt8)

def zeroNic : Nic where
  tdt := 0
  txDescTable := fun _ => ⟨0, 0⟩
  txBuf := fun _ => Arr.zero _
  rdt := 0
  rxDescTable := fun _ => ⟨0, 0⟩
  rxBuf := fun _ => Arr.zero _
  accepted := []

def txdStatDD : UInt8 := 1
def rxdStatDD : UInt8 := 1
def rxdStatEOP : UInt8 := 2

lemma and_not_and_self (status flag : UInt8) : (status &&& ~~~flag) &&& flag = 0 := by
  rw [UInt8.and_assoc, UInt8.not_and_self, UInt8.and_zero]

lemma or_and_self (status flag : UInt8) : (status ||| flag) &&& flag = flag := by
  refine UInt8.toNat_inj.mp (Nat.eq_of_testBit_eq fun i => ?_)
  rw [UInt8.toNat_and, UInt8.toNat_or, Nat.testBit_and, Nat.testBit_or]
  cases flag.toNat.testBit i <;> simp

variable {n : ℕ}

def TxFull (nic : Nic) : Prop := (nic.txDescTable nic.tdt).status &&& txdStatDD = 0
  deriving Decidable

/-- The ring after `frame` was put at its tail. -/
def Nic.accept (nic : Nic) (frame : List UInt8) : Nic :=
  { nic with
    txBuf := Function.update nic.txBuf nic.tdt ((nic.txBuf nic.tdt).splice 0 frame)
    txDescTable := Function.update nic.txDescTable nic.tdt
      ⟨frame.length.toUInt16, (nic.txDescTable nic.tdt).status &&& ~~~txdStatDD⟩
    tdt := nic.tdt + 1
    accepted := nic.accepted ++ [frame] }

def e1000Transmit (nic : Nic) (buf : Arr n) (len : UInt16) : Except Fault (Nic × ℤ) :=
  let len := if e1000BufferSize < len.toNat then e1000BufferSize else len.toNat
  if TxFull nic then .ok (nic, -1)
  else do
    let frame ← buf.read 0 len
    .ok (nic.accept frame, 0)

def Nic.rxTail (nic : Nic) : DescIdx := nic.rdt + 1

def e1000Receive (nic : Nic) (buffer : Arr n) : Except Fault (Nic × Arr n × ℤ) :=
  let tailRx := nic.rxTail
  let desc := nic.rxDescTable tailRx
  if desc.status &&& rxdStatDD = 0 then .ok (nic, buffer, 0)
  else if desc.status &&& rxdStatEOP = 0 then .ok (nic, buffer, 0)
  else do
    let len := desc.length.toNat
    let buffer ← buffer.memcpy 0 (nic.rxBuf tailRx) 0 len
    .ok ({ nic with
            rxDescTable := Function.update nic.rxDescTable tailRx
              { desc with status := desc.status &&& ~~~rxdStatDD }
            rdt := tailRx }, buffer, len)

lemma e1000Transmit_full {nic : Nic} (h : TxFull nic) (buf : Arr n) (len : UInt16) :
    e1000Transmit nic buf len = .ok (nic, -1) := by
  unfold e1000Transmit; simp only [if_pos h]

lemma e1000Transmit_free {nic : Nic} (h : ¬TxFull nic) (buf : Arr n) {len : UInt16}
    (hn : len.toNat ≤ n) (hb : len.toNat ≤ e1000BufferSize) :
    e1000Transmit nic buf len = .ok (nic.accept (buf.slice 0 len.toNat), 0) := by
  unfold e1000Transmit
  simp only [if_neg h, if_neg (show ¬e1000BufferSize < len.toNat by omega)]
  rw [Arr.read_ok _, ok_bind]

/-- The next descriptor holds a complete frame. -/
def Ready (nic : Nic) : Prop :=
  (nic.rxDescTable nic.rxTail).status &&& rxdStatDD ≠ 0 ∧
    (nic.rxDescTable nic.rxTail).status &&& rxdStatEOP ≠ 0
  deriving Decidable

def Nic.rxLen (nic : Nic) : ℕ := (nic.rxDescTable nic.rxTail).length.toNat

def Nic.taken (nic : Nic) : Nic :=
  { nic with
    rxDescTable := Function.update nic.rxDescTable nic.rxTail
      { nic.rxDescTable nic.rxTail with
        status := (nic.rxDescTable nic.rxTail).status &&& ~~~rxdStatDD }
    rdt := nic.rxTail }

lemma e1000Receive_idle {nic : Nic} (h : ¬Ready nic) (buffer : Arr n) :
    e1000Receive nic buffer = .ok (nic, buffer, 0) := by
  unfold e1000Receive
  by_cases h1 : (nic.rxDescTable nic.rxTail).status &&& rxdStatDD = 0
  · simp only [if_pos h1]
  · have h2 : (nic.rxDescTable nic.rxTail).status &&& rxdStatEOP = 0 := by
      by_contra h2
      exact h ⟨h1, h2⟩
    simp only [if_neg h1, if_pos h2]

lemma e1000Receive_ready {nic : Nic} (h : Ready nic) (buffer : Arr n) : e1000Receive nic buffer =
      (buffer.memcpy 0 (nic.rxBuf nic.rxTail) 0 nic.rxLen >>= fun buffer =>
        .ok (nic.taken, buffer, (nic.rxLen : ℤ))) := by
  unfold e1000Receive
  simp only [if_neg h.1, if_neg h.2]
  rfl

end Jos.E1000
