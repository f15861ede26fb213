/-
What a polled transfer exchanges.

At any time the words written are those of the send buffer, in order, each in the transmit FIFO,
in the shifter or on the wire; and as long as nothing was dropped, the words in the receive FIFO
are the slave's answers that follow the ones in memory.  What keeps the receive FIFO from
overflowing is a bound on the words on their way: the driver goes on after an empty read only
when all of them are on the transmit side.

* **`Data`**, **`Control`** — the invariant, for the data and for the place in the program;
* **`inv_reached`** — it holds after any moves, if the call meets the condition;
* **`exchanged_of_ok`** — and then the transfer is a full exchange of exactly its length.
-/
import NuMaker.Spi.Poll

open NuUtils (getLe setLe setLe_apply getLe_congr)

namespace Spi

namespace Poll

variable (c : Call)

/-! ### What is promised, and when -/

/-- The words of the message. -/
def Call.words : ℕ := c.length.toNat / c.bytes_per_word

/-- The word to send `k`-th: from the buffer, or filler. -/
def Call.word (k : ℕ) : BitVec 32 :=
  if c.send = 0 then 0 else getLe c.mem (c.send + k * c.bytes_per_word) c.bytes_per_word

/-- The `i`-th byte of the slave's answers. -/
def Call.received (i : ℕ) : BitVec 8 :=
  (c.slave (i / c.bytes_per_word) >>> (8 * (i % c.bytes_per_word))).setWidth 8

/-- The states the moves reach, in any order. -/
inductive Reached : State → Prop
  | start : Reached c.start
  | move {s : State} (m : Mover) : Reached s → Reached (move c m s)

/-- A full-duplex exchange of exactly the length: the words sent, the bytes stored, nothing else
changed, and nothing left in the FIFOs. -/
structure Exchanged (s : State) : Prop where
  count : s.wire.length * c.bytes_per_word = c.length.toNat
  sent : s.wire = (List.range s.wire.length).map c.word
  stored : c.recv ≠ 0 → ∀ i < c.length.toNat, s.mem (c.recv + i) = c.received i
  frame : ∀ a, (c.recv = 0 ∨ a < c.recv ∨ c.recv + c.length.toNat ≤ a) → s.mem a = c.mem a
  clean : ¬ s.Busy ∧ s.rx = []

/-- The condition on a call. -/
structure Call.Ok : Prop where
  /-- There is a buffer, unless there is nothing to do. -/
  buffers : c.send ≠ 0 ∨ c.recv ≠ 0 ∨ c.length ≤ 0
  /-- The length is a number of words. -/
  whole : c.bytes_per_word ∣ c.length.toNat
  /-- What is stored does not run into what is still to be sent. -/
  apart : c.send = 0 ∨ c.recv = 0 ∨ c.recv ≤ c.send ∨ c.send + c.length.toNat ≤ c.recv ∨ c.words ≤ 1
  /-- The receive FIFO has room for the message, or for two words more than the transmit FIFO. -/
  room : c.recv = 0 ∨ c.words ≤ c.rxDepth ∨ c.txDepth + 2 ≤ c.rxDepth

/-! ### The data -/

/-- The data when `P` words have been written and `t` have been stored. -/
structure Data (s : State) (P t : ℕ) : Prop where
  queue : s.wire ++ s.shift.toList ++ s.tx = (List.range P).map c.word
  send : c.send ≠ 0 → s.send_addr = c.send + P * c.bytes_per_word
  cap : s.tx.length ≤ c.txDepth
  recv : s.recv_addr = c.recv + t * c.bytes_per_word
  mem : ∀ a, s.mem a =
    if c.recv ≤ a ∧ a < c.recv + t * c.bytes_per_word then c.received (a - c.recv) else c.mem a
  rx : c.recv ≠ 0 → t ≤ s.wire.length ∧ s.rx = (List.range' t (s.wire.length - t)).map c.slave
  none : c.recv = 0 → t = 0

variable {c} {s : State} {P t : ℕ}

theorem Data.start : Data c c.start 0 0 where
  queue := rfl
  send _ := by simp [Call.start]
  cap := Nat.zero_le _
  recv := by simp [Call.start]
  mem a := by rw [if_neg (by omega)]; rfl
  rx _ := ⟨le_refl 0, rfl⟩
  none _ := rfl

/-- The data do not depend on the place in the program. -/
theorem Data.withPc (h : Data c s P t) (pc : Pc) : Data c { s with pc := pc } P t :=
  ⟨h.queue, h.send, h.cap, h.recv, h.mem, h.rx, h.none⟩

/-- Where the words written are. -/
theorem Data.length (h : Data c s P t) :
    s.wire.length + s.shift.toList.length + s.tx.length = P := by
  have := congrArg List.length h.queue
  simpa [Nat.add_assoc] using this

/-- The words of the message, in bytes. -/
theorem Call.Ok.words_mul (h : c.Ok) : c.words * c.bytes_per_word = c.length.toNat :=
  Nat.div_mul_cancel h.whole

/-- What is still to be sent is as it was at the start. -/
theorem Data.unsent (h : Data c s P t) (hok : c.Ok) (hP : P < c.words) (hsend : c.send ≠ 0) :
    getLe s.mem s.send_addr c.bytes_per_word = c.word P := by
  rw [h.send hsend, Call.word, if_neg hsend]
  refine getLe_congr fun a ha1 ha2 => ?_
  rw [h.mem a, if_neg]
  rintro ⟨h1, h2⟩
  have hrecv : c.recv ≠ 0 := by
    intro h0
    rw [h.none h0] at h2
    omega
  have htP : t * c.bytes_per_word ≤ P * c.bytes_per_word := by
    refine Nat.mul_le_mul_right _ (le_trans (h.rx hrecv).1 ?_)
    have := h.length
    omega
  have hend : (P + 1) * c.bytes_per_word ≤ c.length.toNat := by
    rw [← hok.words_mul]
    exact Nat.mul_le_mul_right _ hP
  rw [Nat.add_one_mul] at hend
  rcases hok.apart with h0 | h0 | h0 | h0 | h0
  · exact hsend h0
  · exact hrecv h0
  · omega
  · omega
  · -- a single word is written before anything is stored
    obtain rfl : P = 0 := by omega
    omega

/-- A word is written. -/
theorem Data.push (h : Data c s P t) (hok : c.Ok) (hP : P < c.words) (hroom : s.tx.length < c.txDepth)
    {dummy : Bool} (hd : dummy = true ↔ c.send = 0) (pc : Pc) :
    Data c (push c s dummy pc) (P + 1) t := by
  have hw : (Poll.push c s dummy pc).tx = s.tx ++ [c.word P] := by
    cases dummy with
    | true => simp [Poll.push, Call.word, hd.1 rfl]
    | false =>
      have hsend : c.send ≠ 0 := fun h0 => Bool.false_ne_true (hd.2 h0)
      simp [Poll.push, h.unsent hok hP hsend]
  have hrest : (Poll.push c s dummy pc).wire = s.wire ∧ (Poll.push c s dummy pc).shift = s.shift ∧
      (Poll.push c s dummy pc).rx = s.rx ∧ (Poll.push c s dummy pc).mem = s.mem ∧
      (Poll.push c s dummy pc).recv_addr = s.recv_addr := by
    cases dummy <;> exact ⟨rfl, rfl, rfl, rfl, rfl⟩
  obtain ⟨hwire, hshift, hrx, hmem, hrecv⟩ := hrest
  refine ⟨?_, fun hsend => ?_, ?_, by rw [hrecv, h.recv], fun a => by rw [hmem, h.mem a], ?_, h.none⟩
  · rw [hwire, hshift, hw, ← List.append_assoc, h.queue, List.range_succ, List.map_append]
    rfl
  · cases dummy with
    | true => exact absurd (hd.1 rfl) hsend
    | false =>
      show s.send_addr + c.bytes_per_word = _
      rw [h.send hsend, Nat.add_one_mul, Nat.add_assoc]
  · rw [hw, List.length_append, List.length_singleton]
    omega
  · rw [hwire, hrx]
    exact h.rx

/-- A word is stored. -/
theorem Data.read (h : Data c s P t) (hrecv : c.recv ≠ 0) (hne : s.rx ≠ []) :
    Data c (read c s) P (t + 1) := by
  obtain ⟨hle, hrx⟩ := h.rx hrecv
  have hlt : t < s.wire.length := by
    by_contra hge
    rw [Nat.sub_eq_zero_of_le (by omega)] at hrx
    exact hne hrx
  obtain ⟨k, hk⟩ : ∃ k, s.wire.length - t = k + 1 := ⟨s.wire.length - t - 1, by omega⟩
  rw [hk, List.range'_succ, List.map_cons] at hrx
  have hb := c.width_ok.1
  have hmul : (t + 1) * c.bytes_per_word = t * c.bytes_per_word + c.bytes_per_word :=
    Nat.add_one_mul _ _
  have hread : Poll.read c s = { s with
      rx := (List.range' (t + 1) k).map c.slave
      mem := setLe s.mem s.recv_addr (c.slave t) c.bytes_per_word
      recv_addr := s.recv_addr + c.bytes_per_word } := by
    rw [Poll.read, hrx]
  rw [hread]
  refine ⟨h.queue, h.send, h.cap, ?_, fun a => ?_, fun _ => ⟨hlt, ?_⟩, fun h0 => absurd h0 hrecv⟩
  · show s.recv_addr + c.bytes_per_word = _
    rw [h.recv, Nat.add_one_mul, Nat.add_assoc]
  · show setLe s.mem s.recv_addr (c.slave t) c.bytes_per_word a = _
    rw [setLe_apply, h.recv, h.mem a, hmul]
    by_cases hnew : c.recv + t * c.bytes_per_word ≤ a ∧
        a < c.recv + t * c.bytes_per_word + c.bytes_per_word
    · -- a byte of the new word
      obtain ⟨i, rfl⟩ := Nat.exists_eq_add_of_le hnew.1
      have hi : i < c.bytes_per_word := by omega
      rw [if_pos hnew, if_pos (by omega), Call.received]
      have hidx : c.recv + t * c.bytes_per_word + i - c.recv = i + c.bytes_per_word * t := by
        rw [Nat.mul_comm c.bytes_per_word t]
        omega
      rw [hidx, Nat.add_mul_div_left _ _ hb, Nat.div_eq_of_lt hi, Nat.zero_add,
        Nat.add_mul_mod_self_left, Nat.mod_eq_of_lt hi, Nat.add_sub_cancel_left]
    · rw [if_neg hnew]
      by_cases hold : c.recv ≤ a ∧ a < c.recv + t * c.bytes_per_word
      · rw [if_pos hold, if_pos (by omega)]
      · rw [if_neg hold, if_neg (by omega)]
  · show (List.range' (t + 1) k).map c.slave = _
    rw [show s.wire.length - (t + 1) = k by omega]

/-- The shifter moves, with room for what it receives. -/
theorem Data.shifter (h : Data c s P t)
    (hroom : c.recv ≠ 0 → s.shift.isSome → s.rx.length < c.rxDepth) :
    Data c (shifter c s) P t := by
  obtain ⟨pc, sa, ra, mem, tx, shift, rx, wire⟩ := s
  cases shift with
  | none =>
    cases tx with
    | nil => exact h
    | cons w ws =>
      refine ⟨?_, h.send, ?_, h.recv, h.mem, h.rx, h.none⟩
      · have := h.queue
        simpa [Poll.shifter] using this
      · have := h.cap
        simp only [List.length_cons] at this
        exact Nat.le_of_succ_le this
  | some w =>
    refine ⟨?_, h.send, h.cap, h.recv, h.mem, fun hrecv => ?_, h.none⟩
    · have := h.queue
      simpa [Poll.shifter] using this
    · obtain ⟨hle, hrx⟩ := h.rx hrecv
      have hlt := hroom hrecv rfl
      simp only at hle hrx hlt
      simp only [Poll.shifter, List.length_append, List.length_singleton]
      refine ⟨by omega, ?_⟩
      have hlast : t + (wire.length - t) = wire.length := by omega
      rw [if_pos hlt, show wire.length + 1 - t = wire.length - t + 1 by omega, List.range'_concat,
        List.map_append, ← hrx, Nat.one_mul, hlast]
      rfl

/-! ### The place in the program -/

variable (c) in
/-- What each place in the program knows. -/
def Control (s : State) (P t : ℕ) : Prop :=
  match s.pc with
  | .write l => c.send ≠ 0 ∧ c.recv = 0 ∧ l = c.length - P * c.bytes_per_word
  | .exchange l =>
    (c.recv = 0 → c.words = 0) ∧ l = c.length - P * c.bytes_per_word ∧ P ≤ t + c.txDepth + 1
  | .take l => c.recv ≠ 0 ∧ l = c.length - P * c.bytes_per_word ∧ P ≤ t + c.txDepth + 2
  | .busy | .empty => c.recv ≠ 0 ∧ P = c.words ∧ P ≤ t + c.txDepth + 1
  | .rest => c.recv ≠ 0 ∧ P = c.words ∧ ¬ s.Busy
  | .drainBusy => c.recv = 0 ∧ P = c.words
  | .drain => c.recv = 0 ∧ P = c.words ∧ ¬ s.Busy
  | .done => P = c.words ∧ ¬ s.Busy ∧ s.rx = []

variable (c) in
/-- The invariant. -/
def Inv (s : State) : Prop := ∃ P t, Data c s P t ∧ P ≤ c.words ∧ Control c s P t

/-- A loop goes on exactly while there are words to write. -/
theorem Call.Ok.left_pos (h : c.Ok) (hP : P ≤ c.words) :
    c.length - P * c.bytes_per_word ≤ 0 ↔ P = c.words := by
  have hb := c.width_ok.1
  have hwords := h.words_mul
  constructor
  · intro hle
    by_contra hne
    have hmul : (P + 1) * c.bytes_per_word ≤ c.words * c.bytes_per_word :=
      Nat.mul_le_mul_right _ (by omega)
    rw [Nat.add_one_mul] at hmul
    have hpos : (0 : ℤ) ≤ P * c.bytes_per_word := by positivity
    zify at hmul hwords hb
    omega
  · rintro rfl
    zify at hwords
    omega

/-- After the loops. -/
theorem Control.finish (h : Data c s P t) (hP : P = c.words)
    (hd : c.recv ≠ 0 → P ≤ t + c.txDepth + 1) : Control c s.finish P t := by
  by_cases hrecv : c.recv = 0
  · have haddr : s.recv_addr = 0 := by rw [h.recv, hrecv, h.none hrecv, Nat.zero_mul]
    simp only [State.finish, haddr, ne_eq, not_true_eq_false, if_false]
    exact ⟨hrecv, hP⟩
  · have haddr : s.recv_addr ≠ 0 := by
      rw [h.recv]
      omega
    simp only [State.finish, haddr, ne_eq, not_false_eq_true, if_true]
    exact ⟨hrecv, hP, hd hrecv⟩

theorem Inv.start (hok : c.Ok) : Inv c c.start := by
  refine ⟨0, 0, Data.start, Nat.zero_le _, ?_⟩
  by_cases hw : c.send ≠ 0 ∧ c.recv = 0
  · simp only [Control, Call.start, if_pos hw]
    exact ⟨hw.1, hw.2, by simp⟩
  · simp only [Control, Call.start, if_neg hw]
    refine ⟨fun hrecv => ?_, by simp, Nat.zero_le _⟩
    -- no buffer at all: there is nothing to do
    have hsend : c.send = 0 := by
      by_contra h
      exact hw ⟨h, hrecv⟩
    have hlen : c.length.toNat = 0 := by
      rcases hok.buffers with h | h | h <;> omega
    rw [Call.words, hlen, Nat.zero_div]

/-- What the shifter receives has room. -/
theorem Control.roomy (hok : c.Ok) (h : Data c s P t) (hP : P ≤ c.words) (hc : Control c s P t)
    (hrecv : c.recv ≠ 0) (hshift : s.shift.isSome) : s.rx.length < c.rxDepth := by
  have hbusy : s.Busy := Or.inr hshift
  have hbound : P ≤ t + c.txDepth + 2 := by
    unfold Control at hc
    split at hc
    · exact absurd hc.2.1 hrecv
    · omega
    · exact hc.2.2
    · omega
    · omega
    · exact absurd hbusy hc.2.2
    · exact absurd hc.1 hrecv
    · exact absurd hc.1 hrecv
    · exact absurd hbusy hc.2.1
  obtain ⟨hle, hrx⟩ := h.rx hrecv
  have hlen := h.length
  have hone : s.shift.toList.length = 1 := by
    obtain ⟨w, hw⟩ := Option.isSome_iff_exists.1 hshift
    rw [hw]
    rfl
  rw [hrx, List.length_map, List.length_range']
  rcases hok.room with h0 | h0 | h0
  · exact absurd h0 hrecv
  · omega
  · omega

theorem Inv.shifter (hok : c.Ok) (h : Inv c s) : Inv c (Poll.shifter c s) := by
  obtain ⟨P, t, hd, hP, hc⟩ := h
  refine ⟨P, t, hd.shifter fun hrecv hshift => hc.roomy hok hd hP hrecv hshift, hP, ?_⟩
  by_cases hb : s.Busy
  · have hpc : (Poll.shifter c s).pc = s.pc := by
      unfold Poll.shifter
      split
      · split <;> rfl
      · rfl
    unfold Control at hc ⊢
    rw [hpc]
    -- only the places after the shifter's end know more, and it is busy
    split at hc
    · exact hc
    · exact hc
    · exact hc
    · exact hc
    · exact hc
    · exact absurd hb hc.2.2
    · exact hc
    · exact absurd hb hc.2.2
    · exact absurd hb hc.2.1
  · rw [shifter_idle c hb]
    exact hc

/-- An empty receive FIFO: the words not stored are on the transmit side. -/
theorem Data.waiting (h : Data c s P t) (hrecv : c.recv ≠ 0) (hrx : s.rx = []) :
    P ≤ t + c.txDepth + 1 := by
  obtain ⟨hle, hrest⟩ := h.rx hrecv
  have hlen := h.length
  have hcap := h.cap
  have hone : s.shift.toList.length ≤ 1 := by cases s.shift <;> simp
  have hwire := congrArg List.length (hrx.symm.trans hrest)
  rw [List.length_map, List.length_range', List.length_nil] at hwire
  omega

/-- A read that finds a word. -/
theorem Data.stored (h : Data c s P t) (hrecv : c.recv ≠ 0) (hne : s.rx ≠ []) :
    Data c (Poll.read c s) P (t + 1) ∧ (Poll.read c s).pc = s.pc ∧
      ((Poll.read c s).Busy ↔ s.Busy) := by
  obtain ⟨hpc, htx, hshift, -⟩ := read_fields c s
  exact ⟨h.read hrecv hne, hpc, busy_congr htx hshift⟩

theorem Inv.driver (hok : c.Ok) (h : Inv c s) : Inv c (Poll.driver c s) := by
  obtain ⟨P, t, hd, hP, hc⟩ := h
  cases hpc : s.pc with
  | write l =>
    simp only [Control, hpc] at hc
    obtain ⟨hsend, hrecv, rfl⟩ := hc
    simp only [Poll.driver, hpc, hok.left_pos hP]
    split
    · rename_i hend
      exact ⟨P, t, hd.withPc _, hP, Control.finish hd hend fun h => absurd hrecv h⟩
    · split
      · exact ⟨P, t, hd, hP, by simp only [Control, hpc]; exact ⟨hsend, hrecv, trivial⟩⟩
      · refine ⟨P + 1, t, hd.push hok (by omega) (by omega) (by simp [hsend]) _, by omega,
          hsend, hrecv, ?_⟩
        push_cast
        ring
  | exchange l =>
    simp only [Control, hpc] at hc
    obtain ⟨hnone, rfl, hbound⟩ := hc
    simp only [Poll.driver, hpc, hok.left_pos hP]
    split
    · rename_i hend
      exact ⟨P, t, hd.withPc _, hP, Control.finish hd hend fun _ => hbound⟩
    · rename_i hmore
      have hrecv : c.recv ≠ 0 := fun h0 => hmore (by have := hnone h0; omega)
      split
      · exact ⟨P, t, hd, hP, by simp only [Control, hpc]; exact ⟨hnone, trivial, hbound⟩⟩
      · refine ⟨P + 1, t, hd.push hok (by omega) (by omega) (by simp [hrecv]) _, by omega, ?_⟩
        have hpc' : ∀ (b : Bool) (pc : Pc), (push c s b pc).pc = pc := by
          intro b pc
          cases b <;> rfl
        simp only [Control, hpc']
        refine ⟨hrecv, ?_, by omega⟩
        push_cast
        ring
  | take l =>
    simp only [Control, hpc] at hc
    obtain ⟨hrecv, rfl, hbound⟩ := hc
    simp only [Poll.driver, hpc]
    by_cases hrx : s.rx = []
    · have hread : Poll.read c s = s := by
        rw [Poll.read, hrx]
      rw [hread]
      exact ⟨P, t, hd.withPc _, hP, fun h => absurd h hrecv, rfl, hd.waiting hrecv hrx⟩
    · exact ⟨P, t + 1, (hd.read hrecv hrx).withPc _, hP, fun h => absurd h hrecv, rfl, by omega⟩
  | busy =>
    simp only [Control, hpc] at hc
    simp only [Poll.driver, hpc]
    split
    · exact ⟨P, t, hd.withPc _, hP, hc⟩
    · rename_i hb
      exact ⟨P, t, hd.withPc _, hP, hc.1, hc.2.1, hb⟩
  | empty =>
    simp only [Control, hpc] at hc
    simp only [Poll.driver, hpc]
    split
    · exact ⟨P, t, hd.withPc _, hP, hc⟩
    · rename_i hne
      obtain ⟨hd', hpc', -⟩ := hd.stored hc.1 hne
      refine ⟨P, t + 1, hd', hP, ?_⟩
      simp only [Control, hpc', hpc]
      exact ⟨hc.1, hc.2.1, by omega⟩
  | rest =>
    simp only [Control, hpc] at hc
    simp only [Poll.driver, hpc]
    split
    · rename_i hrx
      exact ⟨P, t, hd.withPc _, hP, hc.2.1, hc.2.2, hrx⟩
    · rename_i hne
      obtain ⟨hd', hpc', hb'⟩ := hd.stored hc.1 hne
      refine ⟨P, t + 1, hd', hP, ?_⟩
      simp only [Control, hpc', hpc, hb']
      exact hc
  | drainBusy =>
    simp only [Control, hpc] at hc
    simp only [Poll.driver, hpc]
    split
    · exact ⟨P, t, hd, hP, by simp only [Control, hpc]; exact hc⟩
    · rename_i hb
      exact ⟨P, t, hd.withPc _, hP, hc.1, hc.2, hb⟩
  | drain =>
    simp only [Control, hpc] at hc
    simp only [Poll.driver, hpc]
    split
    · rename_i hrx
      exact ⟨P, t, hd.withPc _, hP, hc.2.1, hc.2.2, hrx⟩
    · refine ⟨P, t, ⟨hd.queue, hd.send, hd.cap, hd.recv, hd.mem, fun h => absurd hc.1 h, hd.none⟩,
        hP, ?_⟩
      exact hc
  | done =>
    simp only [Poll.driver, hpc]
    exact ⟨P, t, hd, hP, hc⟩

/-! ### The exchange -/

/-- **The invariant holds whatever the order of the moves.** -/
theorem inv_reached (hok : c.Ok) (h : Reached c s) : Inv c s := by
  induction h with
  | start => exact Inv.start hok
  | move m _ ih =>
    cases m with
    | driver => exact ih.driver hok
    | shifter => exact ih.shifter hok

/-- At the end the whole message has been exchanged. -/
theorem Inv.exchanged (hok : c.Ok) (h : Inv c s) (hend : s.pc = .done) : Exchanged c s := by
  obtain ⟨P, t, hd, -, hc⟩ := h
  simp only [Control, hend] at hc
  obtain ⟨rfl, hidle, hrx⟩ := hc
  have htx : s.tx = [] := by
    by_contra h
    exact hidle (Or.inl h)
  have hshift : s.shift = none := by
    by_contra h
    exact hidle (Or.inr (Option.isSome_iff_ne_none.2 h))
  have hwire : s.wire = (List.range c.words).map c.word := by
    have := hd.queue
    simpa [htx, hshift] using this
  have hcount : s.wire.length = c.words := by simp [hwire]
  have hall : c.recv ≠ 0 → t = c.words := by
    intro hrecv
    obtain ⟨hle, hrest⟩ := hd.rx hrecv
    have hzero := congrArg List.length (hrx.symm.trans hrest)
    rw [List.length_map, List.length_range', List.length_nil] at hzero
    omega
  refine ⟨by rw [hcount, hok.words_mul], by rw [hcount, hwire], fun hrecv i hi => ?_,
    fun a ha => ?_, hidle, hrx⟩
  · rw [hd.mem, hall hrecv, hok.words_mul, if_pos (by omega), Nat.add_sub_cancel_left]
  · rw [hd.mem, if_neg]
    rintro ⟨h1, h2⟩
    by_cases hrecv : c.recv = 0
    · rw [hd.none hrecv, Nat.zero_mul] at h2
      omega
    · rw [hall hrecv, hok.words_mul] at h2
      omega

end Poll

end Spi
