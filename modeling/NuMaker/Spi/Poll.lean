/-
Polled transfers: `nu_spi_transmission_with_poll` of `drv_spi.c` with the FIFOs it polls.

The driver and the shifter move in turns nobody controls: the driver writes words and reads
words, each when a status bit lets it, and the shifter takes words from the transmit FIFO and
puts the slave's answers into the receive FIFO, where they are dropped if it is full.  The driver
reads at most one word for each it writes, so that the answers to everything the transmit side
holds may come before it reads again:

* **`nu_spi_transmission_with_poll`** — the transfer under an order of the moves;
* **`driver_work`**, **`shifter_work`** — each move does some of the work that is left, or waits;
* **`poll_terminates`** — the transfer ends under every fair order.
-/
import NuMaker.Lib.Fairness
import NuMaker.NuUtils.Bytes

open NuUtils (getLe setLe setLe_apply getLe_congr)

namespace Spi

namespace Poll

/-! ### The transfer -/

/-- A call: the addresses of its buffers, null if they are zero, the memory when it starts, the
depths of the FIFOs, and what the slave answers, word by word. -/
structure Call where
  send : ℕ
  recv : ℕ
  length : ℤ
  bytes_per_word : ℕ
  mem : ℕ → BitVec 8
  txDepth : ℕ
  rxDepth : ℕ
  slave : ℕ → BitVec 32
  width_ok : 1 ≤ bytes_per_word ∧ bytes_per_word ≤ 4
  depth_pos : 0 < txDepth
  rxDepth_pos : 0 < rxDepth

/-- Where the driver is, with the `length` its loops count down. -/
inductive Pc
  /-- The write-only loop. -/
  | write (length : ℤ)
  /-- The other two loops, at their heads. -/
  | exchange (length : ℤ)
  /-- And at the read that follows the write. -/
  | take (length : ℤ)
  /-- `while (SPI_IS_BUSY)`, and the loop inside it that empties the FIFO. -/
  | busy
  | empty
  /-- The words that are left after it. -/
  | rest
  /-- The two loops of `nu_spi_drain_rxfifo`. -/
  | drainBusy
  | drain
  | done
deriving DecidableEq, Repr

/-- The driver's variables, the memory, and the hardware: both FIFOs, the word being shifted, and
the words that have been exchanged. -/
structure State where
  pc : Pc
  send_addr : ℕ
  recv_addr : ℕ
  mem : ℕ → BitVec 8
  tx : List (BitVec 32)
  shift : Option (BitVec 32)
  rx : List (BitVec 32)
  wire : List (BitVec 32)

/-- Who moves. -/
inductive Mover
  | driver
  | shifter
deriving DecidableEq, Repr

/-- `SPI_IS_BUSY`. -/
def State.Busy (s : State) : Prop := s.tx ≠ [] ∨ s.shift.isSome

instance (s : State) : Decidable s.Busy := inferInstanceAs (Decidable (_ ∨ _))

/-- After the loops: `if (recv_addr)`. -/
def State.finish (s : State) : State :=
  { s with pc := if s.recv_addr ≠ 0 then .busy else .drainBusy }

variable (c : Call)

/-- A word written by `nu_spi_write`; its two kinds of source are the buffer and `dummy`. -/
def push (s : State) (dummy : Bool) (pc : Pc) : State :=
  if dummy then { s with tx := s.tx ++ [0], pc := pc }
  else
    { s with
      tx := s.tx ++ [getLe s.mem s.send_addr c.bytes_per_word]
      send_addr := s.send_addr + c.bytes_per_word, pc := pc }

/-- `nu_spi_read`. -/
def read (s : State) : State :=
  match s.rx with
  | [] => s
  | w :: ws =>
    { s with
      rx := ws, mem := setLe s.mem s.recv_addr w c.bytes_per_word
      recv_addr := s.recv_addr + c.bytes_per_word }

/-- A move of the driver: it looks at a status bit, and goes on as far as the next. -/
def driver (s : State) : State :=
  match s.pc with
  | .write length =>
    if length ≤ 0 then s.finish
    else if c.txDepth ≤ s.tx.length then s
    else push c s false (.write (length - c.bytes_per_word))
  | .exchange length =>
    if length ≤ 0 then s.finish
    else if c.txDepth ≤ s.tx.length then s
    -- only a receive buffer: the read-only loop
    else push c s (c.send = 0 ∧ c.recv ≠ 0) (.take (length - c.bytes_per_word))
  | .take length => { read c s with pc := .exchange length }
  | .busy => { s with pc := if s.Busy then .empty else .rest }
  | .empty => if s.rx = [] then { s with pc := .busy } else read c s
  | .rest => if s.rx = [] then { s with pc := .done } else read c s
  | .drainBusy => if s.Busy then s else { s with pc := .drain }
  | .drain => if s.rx = [] then { s with pc := .done } else { s with rx := [] }
  | .done => s

/-- A move of the shifter: it takes the next word, or ends the one it has. -/
def shifter (s : State) : State :=
  match s.shift with
  | none =>
    match s.tx with
    | [] => s
    | w :: ws => { s with shift := some w, tx := ws }
  | some w =>
    { s with
      shift := none, wire := s.wire ++ [w]
      rx := if s.rx.length < c.rxDepth then s.rx ++ [c.slave s.wire.length] else s.rx }

def move : Mover → State → State
  | .driver => driver c
  | .shifter => shifter c

/-- The start, with the FIFOs empty. -/
def Call.start : State where
  pc := if c.send ≠ 0 ∧ c.recv = 0 then .write c.length else .exchange c.length
  send_addr := c.send
  recv_addr := c.recv
  mem := c.mem
  tx := []
  shift := none
  rx := []
  wire := []

/-- `nu_spi_transmission_with_poll` under an order of the moves, after so many of them. -/
def nu_spi_transmission_with_poll (sched : ℕ → Mover) (n : ℕ) : State :=
  runSched (move c) sched c.start n

/-! ### Its end -/

/-- The bytes a loop still has to count down. -/
def Pc.left : Pc → ℕ
  | .write l | .exchange l | .take l => l.toNat
  | _ => 0

/-- How far the driver is from its end. -/
def State.stage (s : State) : ℕ :=
  match s.pc with
  | .take _ => 6
  | .write _ | .exchange _ => 5
  | .empty => 4
  | .busy => if s.Busy then 4 else 3
  | .drainBusy => 3
  | .rest => 2
  | .drain => 1
  | .done => 0

/-- Work left: bytes to write, words on their way, words to read, and stages. -/
def State.work (s : State) : ℕ :=
  5 * s.pc.left + 3 * s.tx.length + 2 * s.shift.toList.length + s.rx.length + s.stage

/-- The shifter helps while there is something to shift, the driver otherwise. -/
def State.helpful (s : State) : Mover := if s.Busy then .shifter else .driver

/-- A busy shifter has work to do. -/
theorem shifter_work {s : State} (h : s.Busy) : (shifter c s).work < s.work := by
  obtain ⟨pc, sa, ra, mem, tx, shift, rx, wire⟩ := s
  have hstage : ∀ {tx' : List (BitVec 32)} {shift' : Option (BitVec 32)} {rx' wire'},
      State.stage ⟨pc, sa, ra, mem, tx', shift', rx', wire'⟩ ≤
        State.stage ⟨pc, sa, ra, mem, tx, shift, rx, wire⟩ := by
    intro tx' shift' rx' wire'
    cases pc with
    | busy =>
      simp only [State.stage]
      rw [if_pos h]
      split <;> omega
    | _ => exact le_refl _
  cases shift with
  | none =>
    cases tx with
    | nil => simp [State.Busy] at h
    | cons w ws =>
      have := @hstage ws (some w) rx wire
      simp only [shifter, State.work, List.length_cons, Option.toList_some, Option.toList_none,
        List.length_nil]
      omega
  | some w =>
    have := @hstage tx none (if rx.length < c.rxDepth then rx ++ [c.slave wire.length] else rx)
      (wire ++ [w])
    have hrx : (if rx.length < c.rxDepth then rx ++ [c.slave wire.length] else rx).length ≤
        rx.length + 1 := by
      split <;> simp
    simp only [shifter, State.work, Option.toList_some, Option.toList_none, List.length_cons,
      List.length_nil]
    omega

/-- An idle shifter does nothing. -/
theorem shifter_idle {s : State} (h : ¬ s.Busy) : shifter c s = s := by
  obtain ⟨pc, sa, ra, mem, tx, shift, rx, wire⟩ := s
  rw [State.Busy, not_or, not_not] at h
  obtain ⟨rfl, hs⟩ : tx = [] ∧ ¬ shift.isSome = true := h
  obtain rfl : shift = none := by simpa using hs
  rfl

theorem finish_work {s : State} (hpc : (∃ l, s.pc = .write l) ∨ ∃ l, s.pc = .exchange l) :
    s.finish.work < s.work := by
  have hold : s.stage = 5 := by
    rcases hpc with ⟨l, h⟩ | ⟨l, h⟩ <;> simp only [State.stage, h]
  have hnew : s.finish = { s with pc := .busy } ∨ s.finish = { s with pc := .drainBusy } := by
    unfold State.finish
    split
    · exact Or.inl rfl
    · exact Or.inr rfl
  rcases hnew with h | h
  · rw [h]
    simp only [State.work, hold]
    simp only [State.stage, Pc.left]
    split <;> omega
  · rw [h]
    simp only [State.work, hold]
    simp only [State.stage, Pc.left]
    omega

/-- A write trades bytes to write for a word on its way. -/
theorem push_work {s : State} {l : ℤ} (hl : 0 < l) (dummy : Bool) {pc : Pc}
    (hold : s.pc = .write l ∧ pc = .write (l - c.bytes_per_word) ∨
      s.pc = .exchange l ∧ pc = .take (l - c.bytes_per_word)) :
    (push c s dummy pc).work < s.work := by
  have hb := c.width_ok.1
  have hleft : pc.left < s.pc.left := by
    rcases hold with ⟨h, rfl⟩ | ⟨h, rfl⟩ <;> simp only [Pc.left, h] <;> omega
  have hstage : (push c s dummy pc).stage ≤ s.stage + 1 := by
    rcases hold with ⟨h, rfl⟩ | ⟨h, rfl⟩ <;> cases dummy <;> simp [State.stage, push, h]
  have htx : (push c s dummy pc).tx.length = s.tx.length + 1 := by cases dummy <;> simp [push]
  have hpc : (push c s dummy pc).pc = pc := by cases dummy <;> rfl
  have hsh : (push c s dummy pc).shift = s.shift := by cases dummy <;> rfl
  have hrx : (push c s dummy pc).rx = s.rx := by cases dummy <;> rfl
  simp only [State.work, htx, hpc, hsh, hrx]
  omega

/-- A read leaves everything but the words to read. -/
theorem read_fields (s : State) : (read c s).pc = s.pc ∧ (read c s).tx = s.tx ∧
    (read c s).shift = s.shift ∧ (read c s).wire = s.wire ∧ (read c s).send_addr = s.send_addr ∧
    (read c s).rx = s.rx.tail := by
  unfold read
  split
  · rename_i h
    simp [h]
  · rename_i h
    simp [h]

theorem busy_congr {s s' : State} (ht : s'.tx = s.tx) (hs : s'.shift = s.shift) :
    s'.Busy ↔ s.Busy := by
  rw [State.Busy, State.Busy, ht, hs]

/-- The driver has work to do, or it waits for a busy shifter. -/
theorem driver_work {s : State} (h : s.pc ≠ .done) :
    (driver c s).work < s.work ∨ s.Busy ∧ (driver c s).work = s.work ∧ (driver c s).Busy := by
  obtain ⟨pc, sa, ra, mem, tx, shift, rx, wire⟩ := s
  have hfull : ∀ s : State, c.txDepth ≤ s.tx.length → s.Busy := by
    intro s h
    have := c.depth_pos
    exact Or.inl (List.ne_nil_of_length_pos (by omega))
  cases pc with
  | write l =>
    simp only [driver]
    split
    · exact Or.inl (finish_work (Or.inl ⟨l, rfl⟩))
    · split
      · rename_i hf
        exact Or.inr ⟨hfull _ hf, rfl, hfull _ hf⟩
      · exact Or.inl (push_work c (by omega) _ (Or.inl ⟨rfl, rfl⟩))
  | exchange l =>
    simp only [driver]
    split
    · exact Or.inl (finish_work (Or.inr ⟨l, rfl⟩))
    · split
      · rename_i hf
        exact Or.inr ⟨hfull _ hf, rfl, hfull _ hf⟩
      · exact Or.inl (push_work c (by omega) _ (Or.inr ⟨rfl, rfl⟩))
  | take l =>
    obtain ⟨-, ht, hs, -, -, hr⟩ := read_fields c ⟨.take l, sa, ra, mem, tx, shift, rx, wire⟩
    left
    simp only [driver, State.work, State.stage, Pc.left, ht, hs, hr, List.length_tail]
    omega
  | busy =>
    simp only [driver]
    split
    · rename_i hb
      exact Or.inr ⟨hb, by simp [State.work, State.stage, Pc.left, hb], hb⟩
    · rename_i hb
      left
      simp only [State.work, State.stage, Pc.left, hb, if_false]
      omega
  | empty =>
    simp only [driver]
    split
    · by_cases hb : State.Busy ⟨.empty, sa, ra, mem, tx, shift, rx, wire⟩
      · have hb' : State.Busy ⟨.busy, sa, ra, mem, tx, shift, rx, wire⟩ := hb
        exact Or.inr ⟨hb, by simp [State.work, State.stage, Pc.left, hb'], hb'⟩
      · have hb' : ¬ State.Busy ⟨.busy, sa, ra, mem, tx, shift, rx, wire⟩ := hb
        left
        simp only [State.work, State.stage, Pc.left, hb', if_false]
        omega
    · rename_i hne
      obtain ⟨hp, ht, hs, -, -, hr⟩ := read_fields c ⟨.empty, sa, ra, mem, tx, shift, rx, wire⟩
      have hpos : 0 < rx.length := List.length_pos_iff.2 hne
      left
      simp only [State.work, State.stage, Pc.left, hp, ht, hs, hr, List.length_tail]
      omega
  | rest =>
    simp only [driver]
    split
    · left
      simp [State.work, State.stage, Pc.left]
    · rename_i hne
      obtain ⟨hp, ht, hs, -, -, hr⟩ := read_fields c ⟨.rest, sa, ra, mem, tx, shift, rx, wire⟩
      have hpos : 0 < rx.length := List.length_pos_iff.2 hne
      left
      simp only [State.work, State.stage, Pc.left, hp, ht, hs, hr, List.length_tail]
      omega
  | drainBusy =>
    simp only [driver]
    split
    · rename_i hb
      exact Or.inr ⟨hb, rfl, hb⟩
    · left
      simp [State.work, State.stage, Pc.left]
  | drain =>
    simp only [driver]
    split
    · left
      simp [State.work, State.stage, Pc.left]
    · rename_i hne
      have hpos : 0 < rx.length := List.length_pos_iff.2 hne
      left
      simp only [State.work, State.stage, Pc.left, List.length_nil]
      omega
  | done => exact absurd rfl h

/-- The work is a rank for the way to the end. -/
def ranking : Ranking (move c) (fun _ => True) (fun s => s.pc = .done) ℕ where
  rank := State.work
  helpful := State.helpful
  inv_step _ _ _ := trivial
  move := by
    intro i s _ hg
    right
    cases i with
    | driver =>
      rcases driver_work c hg with h | ⟨hb, heq, hb'⟩
      · exact Or.inl h
      · refine Or.inr ⟨heq, ?_, ?_⟩
        · exact (if_pos hb').trans (if_pos hb).symm
        · rw [State.helpful, if_pos hb]
          decide
    | shifter =>
      by_cases hb : s.Busy
      · exact Or.inl (shifter_work c hb)
      · have hidle : move c .shifter s = s := shifter_idle c hb
        refine Or.inr ⟨by rw [hidle], by rw [hidle], ?_⟩
        rw [State.helpful, if_neg hb]
        decide

/-- **The transfer ends under every fair order of the moves.** -/
theorem poll_terminates {sched : ℕ → Mover} (hfair : FairSched sched) :
    ∃ n, (nu_spi_transmission_with_poll c sched n).pc = .done :=
  (ranking c).eventually hfair trivial

end Poll

end Spi
