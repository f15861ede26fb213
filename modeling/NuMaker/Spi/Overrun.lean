/-
What goes wrong with the other polled transfers.

A call that does not meet the condition of `Exchange.lean` has an order of the moves, and answers
of the slave, after which the transfer is not the exchange it should be: a word is dropped, the
answers overwrite a word still to be sent, or they go to address zero.  In each case a few moves
lead to a state that no further move repairs:

* **`Lost`**, **`overrun`** — a word was dropped, and what is stored stays behind the wire;
* **`Spoiled`**, **`spoilt`** — a byte of the memory was changed that should not have been;
* **`poll_exchange_iff`** — the transfers that are exchanges whatever the timing.
-/
import NuMaker.Spi.Exchange

open NuUtils (getLe setLe setLe_apply getLe_byte)

namespace Spi

namespace Poll

variable {c : Call} {s : State}

/-- The transfer ends, and is an exchange, whatever the timing. -/
def Call.Exchanges (c : Call) : Prop :=
  (∀ sched, FairSched sched → ∃ n, (nu_spi_transmission_with_poll c sched n).pc = .done) ∧
    ∀ s, Reached c s → s.pc = .done → Exchanged c s

theorem Call.Ok.exchanges (h : c.Ok) : c.Exchanges :=
  ⟨fun _ hfair => poll_terminates c hfair, fun _ hr hend => (inv_reached h hr).exchanged h hend⟩

/-! ### From a bad state to a bad end -/

/-- The two taking turns. -/
def turns (n : ℕ) : Mover := if n % 2 = 0 then .driver else .shifter

theorem turns_fair : FairSched turns := by
  intro m n
  cases m with
  | driver => exact ⟨2 * n, by omega, if_pos (by omega)⟩
  | shifter => exact ⟨2 * n + 1, by omega, if_neg (by omega)⟩

/-- What every move preserves holds at some end. -/
theorem Reached.ends {inv : State → Prop} (hinv : ∀ m s, inv s → inv (Poll.move c m s))
    (hr : Reached c s) (hs : inv s) : ∃ s', Reached c s' ∧ s'.pc = .done ∧ inv s' := by
  obtain ⟨n, hn⟩ := @Ranking.eventually _ _ _ _ _ _ _ _ (ranking c) _ turns_fair s trivial
  have hboth : ∀ m s, Reached c s ∧ inv s →
      Reached c (Poll.move c m s) ∧ inv (Poll.move c m s) :=
    fun m s h => ⟨h.1.move m, hinv m s h.2⟩
  obtain ⟨h1, h2⟩ := runSched_inv hboth ⟨hr, hs⟩ turns n
  exact ⟨_, h1, hn, h2⟩

/-- A driver's move, as far as the data go. -/
theorem driver_cases (s : State) : ∃ pc, driver c s = { s with pc := pc } ∨
    (∃ dummy, (dummy = true → c.send = 0) ∧ driver c s = push c s dummy pc) ∨
    driver c s = { read c s with pc := pc } ∨ driver c s = { s with rx := [], pc := pc } := by
  cases hpc : s.pc with
  | write l =>
    simp only [driver, hpc]
    split
    · exact ⟨_, Or.inl rfl⟩
    · split
      · exact ⟨s.pc, Or.inl rfl⟩
      · exact ⟨_, Or.inr (Or.inl ⟨false, by simp, rfl⟩)⟩
  | exchange l =>
    simp only [driver, hpc]
    split
    · exact ⟨_, Or.inl rfl⟩
    · split
      · exact ⟨s.pc, Or.inl rfl⟩
      · exact ⟨_, Or.inr (Or.inl ⟨_, fun h => (of_decide_eq_true h).1, rfl⟩)⟩
  | take l => exact ⟨.exchange l, Or.inr (Or.inr (Or.inl (by simp only [driver, hpc])))⟩
  | busy => exact ⟨_, Or.inl (by simp only [driver, hpc]; rfl)⟩
  | empty | rest =>
    simp only [driver, hpc]
    split
    · exact ⟨_, Or.inl rfl⟩
    · exact ⟨(read c s).pc, Or.inr (Or.inr (Or.inl rfl))⟩
  | drainBusy =>
    simp only [driver, hpc]
    split
    · exact ⟨s.pc, Or.inl rfl⟩
    · exact ⟨_, Or.inl rfl⟩
  | drain =>
    simp only [driver, hpc]
    split
    · exact ⟨_, Or.inl rfl⟩
    · exact ⟨.drain, Or.inr (Or.inr (Or.inr rfl))⟩
  | done => exact ⟨.done, Or.inl (by simp only [driver, hpc]; rw [← hpc])⟩

/-- A shifter's move, as far as the driver sees it. -/
theorem shifter_sees (s : State) : (shifter c s).pc = s.pc ∧ (shifter c s).mem = s.mem ∧
    (shifter c s).recv_addr = s.recv_addr ∧ (shifter c s).send_addr = s.send_addr ∧
    (shifter c s).wire ++ (shifter c s).shift.toList ++ (shifter c s).tx =
      s.wire ++ s.shift.toList ++ s.tx := by
  obtain ⟨pc, sa, ra, mem, tx, shift, rx, wire⟩ := s
  cases shift with
  | none => cases tx <;> simp [shifter]
  | some w => simp [shifter]

/-- Memory a read does not reach. -/
theorem read_mem_below {a : ℕ} (h : a < s.recv_addr) : (read c s).mem a = s.mem a := by
  unfold read
  split
  · rfl
  · exact (setLe_apply _ _ _ _ _).trans (if_neg (by omega))

theorem read_recv_addr (s : State) : s.recv_addr ≤ (read c s).recv_addr := by
  unfold read
  split
  · exact le_refl _
  · exact Nat.le_add_right _ _

/-! ### A lost word -/

variable (c) in
/-- More words were exchanged than are stored or still to be read; what is stored ends where it
should. -/
def Lost (s : State) : Prop :=
  ∃ t, s.recv_addr = c.recv + t * c.bytes_per_word ∧ (∀ a, s.recv_addr ≤ a → s.mem a = c.mem a) ∧
    t + s.rx.length < s.wire.length

theorem Lost.move (m : Mover) (s : State) (h : Lost c s) : Lost c (move c m s) := by
  obtain ⟨t, haddr, hmem, hlost⟩ := h
  cases m with
  | shifter =>
    obtain ⟨pc, sa, ra, mem, tx, shift, rx, wire⟩ := s
    cases shift with
    | none => cases tx <;> exact ⟨t, haddr, hmem, hlost⟩
    | some w =>
      refine ⟨t, haddr, hmem, ?_⟩
      simp only [Poll.move, shifter, List.length_append, List.length_singleton] at hlost ⊢
      split
      · rw [List.length_append, List.length_singleton]
        omega
      · omega
  | driver =>
    simp only [Poll.move]
    obtain ⟨pc, h | ⟨dummy, -, h⟩ | h | h⟩ := driver_cases s (c := c)
    · rw [h]
      exact ⟨t, haddr, hmem, hlost⟩
    · rw [h]
      cases dummy <;> exact ⟨t, haddr, hmem, hlost⟩
    · rw [h]
      unfold read
      split
      · exact ⟨t, haddr, hmem, hlost⟩
      · rename_i w ws hrx
        rw [hrx, List.length_cons] at hlost
        refine ⟨t + 1, ?_, fun a ha => ?_, by simp only; omega⟩
        · show s.recv_addr + c.bytes_per_word = _
          rw [haddr, Nat.add_one_mul, Nat.add_assoc]
        · have ha' : s.recv_addr + c.bytes_per_word ≤ a := ha
          refine (setLe_apply _ _ _ _ _).trans ?_
          rw [if_neg (by omega), hmem a (by omega)]
    · rw [h]
      exact ⟨t, haddr, hmem, by simp only [List.length_nil]; omega⟩

/-- With answers that differ from the memory, a lost word is missed. -/
theorem Lost.not_exchanged (hne : ∀ i, c.received i ≠ c.mem (c.recv + i)) (hrecv : c.recv ≠ 0)
    (h : Lost c s) : ¬ Exchanged c s := by
  intro he
  obtain ⟨t, haddr, hmem, hlost⟩ := h
  have hmul : (t + 1) * c.bytes_per_word ≤ s.wire.length * c.bytes_per_word :=
    Nat.mul_le_mul_right _ (by omega)
  rw [Nat.add_one_mul, he.count] at hmul
  have hb := c.width_ok.1
  have hstored := he.stored hrecv (t * c.bytes_per_word) (by omega)
  rw [← haddr, hmem _ (le_refl _), haddr] at hstored
  exact hne _ hstored.symm

/-! ### A spoilt byte -/

/-- The words written, wherever they are. -/
def State.queue (s : State) : List (BitVec 32) := s.wire ++ s.shift.toList ++ s.tx

variable (c) in
/-- A byte behind the receive address is not what it was at the start, and a word sent from it,
other than the first, is not the one of the message. -/
structure Spoilt (x : ℕ) (s : State) : Prop where
  behind : x < s.recv_addr
  changed : s.mem x ≠ c.mem x
  send : c.send ≠ 0 → s.send_addr = c.send + s.queue.length * c.bytes_per_word
  wrong : c.send ≠ 0 → ∀ j w, 1 ≤ j → c.send + j * c.bytes_per_word ≤ x →
    x < c.send + (j + 1) * c.bytes_per_word → s.queue[j]? = some w → w ≠ c.word j

/-- Nothing but a write changes what it says of the words. -/
theorem Spoilt.congr {x : ℕ} {s' : State} (h : Spoilt c x s) (hb : x < s'.recv_addr)
    (hm : s'.mem x = s.mem x) (hs : s'.send_addr = s.send_addr) (hq : s'.queue = s.queue) :
    Spoilt c x s' :=
  ⟨hb, by rw [hm]; exact h.changed, by rw [hs, hq]; exact h.send, by rw [hq]; exact h.wrong⟩

theorem Spoilt.push {x : ℕ} (h : Spoilt c x s) {dummy : Bool} (hd : dummy = true → c.send = 0)
    (pc : Pc) : Spoilt c x (push c s dummy pc) := by
  cases dummy with
  | true => exact ⟨h.behind, h.changed, fun hs => absurd (hd rfl) hs, fun hs => absurd (hd rfl) hs⟩
  | false =>
    have hq : (Poll.push c s false pc).queue =
        s.queue ++ [getLe s.mem s.send_addr c.bytes_per_word] := by
      simp [State.queue, Poll.push]
    refine ⟨h.behind, h.changed, fun hs => ?_, fun hs j w hj hlo hhi hw => ?_⟩
    · rw [hq, List.length_append, List.length_singleton, Nat.add_one_mul, ← Nat.add_assoc,
        ← h.send hs]
      rfl
    · rw [hq] at hw
      rcases Nat.lt_or_ge j s.queue.length with hlt | hge
      · rw [List.getElem?_append_left hlt] at hw
        exact h.wrong hs j w hj hlo hhi hw
      · -- the word just written, with the spoilt byte in it
        rw [List.getElem?_append_right hge] at hw
        obtain ⟨hi, hval⟩ := List.getElem?_eq_some_iff.1 hw
        rw [List.length_singleton] at hi
        obtain rfl : j = s.queue.length := by omega
        simp only [Nat.sub_self, List.getElem_cons_zero] at hval
        rintro rfl
        rw [h.send hs, Call.word, if_neg hs] at hval
        rw [Nat.add_one_mul] at hhi
        obtain ⟨i, rfl⟩ := Nat.exists_eq_add_of_le hlo
        have hin : i < c.bytes_per_word := by omega
        have hold := @getLe_byte c.mem (c.send + s.queue.length * c.bytes_per_word) _ _
          c.width_ok.2 hin
        have hnew := @getLe_byte s.mem (c.send + s.queue.length * c.bytes_per_word) _ _
          c.width_ok.2 hin
        refine h.changed ?_
        rw [← hnew, hval, hold]

theorem Spoilt.move {x : ℕ} (m : Mover) (s : State) (h : Spoilt c x s) :
    Spoilt c x (Poll.move c m s) := by
  cases m with
  | shifter =>
    obtain ⟨-, hm, hr, hs, hq⟩ := shifter_sees s (c := c)
    exact h.congr (by rw [Poll.move, hr]; exact h.behind) (by rw [Poll.move, hm]) hs hq
  | driver =>
    simp only [Poll.move]
    obtain ⟨pc, he | ⟨dummy, hd, he⟩ | he | he⟩ := driver_cases s (c := c)
    · rw [he]
      exact h.congr h.behind rfl rfl rfl
    · rw [he]
      exact h.push hd pc
    · obtain ⟨-, htx, hshift, hwire, hsend, -⟩ := read_fields c s
      rw [he]
      refine h.congr (Nat.lt_of_lt_of_le h.behind (read_recv_addr s)) (read_mem_below h.behind)
        hsend ?_
      show (read c s).wire ++ (read c s).shift.toList ++ (read c s).tx = _
      rw [htx, hshift, hwire]
      rfl
    · rw [he]
      exact h.congr h.behind rfl rfl rfl

/-- A spoilt byte outside the receive buffer, or in a word of the send buffer after the first. -/
theorem Spoilt.not_exchanged {x : ℕ} (h : Spoilt c x s)
    (hx : c.recv = 0 ∨ c.send ≠ 0 ∧ c.send + c.bytes_per_word ≤ x ∧ x < c.send + c.length.toNat) :
    ¬ Exchanged c s := by
  intro he
  rcases hx with hrecv | ⟨hsend, hlo, hhi⟩
  · exact h.changed (he.frame x (Or.inl hrecv))
  · have hb := c.width_ok.1
    obtain ⟨i, rfl⟩ := Nat.exists_eq_add_of_le (show c.send ≤ x by omega)
    have hdiv := Nat.div_add_mod i c.bytes_per_word
    have hmod := Nat.mod_lt i hb
    set j := i / c.bytes_per_word with hj
    rw [Nat.mul_comm] at hdiv
    have hj1 : 1 ≤ j := Nat.div_pos (by omega) hb
    have hlast : j < s.wire.length := by
      refine Nat.div_lt_of_lt_mul ?_
      rw [Nat.mul_comm, he.count]
      omega
    have hword : s.queue[j]? = some (c.word j) := by
      rw [State.queue, List.append_assoc, List.getElem?_append_left hlast, he.sent]
      simp [hlast]
    refine h.wrong hsend j _ hj1 (by omega) ?_ hword rfl
    rw [Nat.add_one_mul]
    omega

/-- The first word, exchanged before the second is written. -/
theorem first_word (hstart : ¬ (c.send ≠ 0 ∧ c.recv = 0)) (hlen : 0 < c.length) :
    ∃ s, Reached c s ∧ s.recv_addr = c.recv + c.bytes_per_word ∧
      s.mem = setLe c.mem c.recv (c.slave 0) c.bytes_per_word ∧ s.queue.length = 1 ∧
      (c.send ≠ 0 → s.send_addr = c.send + c.bytes_per_word) := by
  refine ⟨_, (((Reached.start.move .driver).move .shifter).move .shifter).move .driver, ?_⟩
  have hdepth := c.depth_pos
  have hrx := c.rxDepth_pos
  have hpush : Poll.move c .driver c.start = push c c.start (c.send = 0 ∧ c.recv ≠ 0)
      (.take (c.length - c.bytes_per_word)) := by
    simp only [Poll.move, driver, Call.start, if_neg hstart]
    rw [if_neg (by omega), if_neg (by simp; omega)]
  rw [hpush]
  by_cases hd : c.send = 0 ∧ c.recv ≠ 0
  · simp [Poll.move, push, hd, shifter, driver, read, Call.start, hrx, State.queue]
  · simp [Poll.move, push, hd, shifter, driver, read, Call.start, hrx, State.queue]

/-- Answers that differ from the memory, byte by byte. -/
def Call.contrary (c : Call) (k : ℕ) : BitVec 32 :=
  ~~~ getLe c.mem (c.recv + k * c.bytes_per_word) c.bytes_per_word

theorem contrary_received (h : c.slave = c.contrary) (i : ℕ) : c.received i ≠ c.mem (c.recv + i) := by
  have hb := c.width_ok
  have hmod := Nat.mod_lt i hb.1
  have hdiv := Nat.div_add_mod i c.bytes_per_word
  rw [Nat.mul_comm] at hdiv
  have hbyte := @getLe_byte c.mem (c.recv + i / c.bytes_per_word * c.bytes_per_word) _ _ hb.2 hmod
  have hnot : c.received i = ~~~ (c.mem (c.recv + i)) := by
    rw [Call.received, h, Call.contrary]
    rw [Nat.add_assoc, hdiv] at hbyte
    rw [← hbyte]
    ext k hk
    simp only [BitVec.getElem_setWidth, BitVec.getLsbD_ushiftRight, BitVec.getLsbD_not,
      BitVec.getElem_not]
    have : 8 * (i % c.bytes_per_word) + k < 32 := by omega
    simp [this]
  rw [hnot]
  intro heq
  have := congrArg (fun b => BitVec.getLsbD b 0) heq
  simp at this

/-- The byte at `x` is spoilt by the first word. -/
theorem spoilt (hne : ∀ i, c.received i ≠ c.mem (c.recv + i))
    (hstart : ¬ (c.send ≠ 0 ∧ c.recv = 0)) (hlen : 0 < c.length) {x : ℕ} (hlo : c.recv ≤ x)
    (hhi : x < c.recv + c.bytes_per_word)
    (hx : c.recv = 0 ∨ c.send ≠ 0 ∧ c.send + c.bytes_per_word ≤ x ∧ x < c.send + c.length.toNat) :
    ¬ c.Exchanges := by
  rintro ⟨-, hall⟩
  obtain ⟨s, hr, haddr, hmem, hcount, hsend⟩ := first_word hstart hlen
  have hs : Spoilt c x s := by
    obtain ⟨i, rfl⟩ := Nat.exists_eq_add_of_le hlo
    refine ⟨by omega, ?_, fun h => by rw [hcount, hsend h, Nat.one_mul], fun _ j w hj _ _ hw => ?_⟩
    · have hi : i < c.bytes_per_word := by omega
      have hrec := hne i
      rw [Call.received, Nat.div_eq_of_lt hi, Nat.mod_eq_of_lt hi] at hrec
      rw [hmem, setLe_apply, if_pos ⟨hlo, hhi⟩, Nat.add_sub_cancel_left]
      exact hrec
    · rw [List.getElem?_eq_none (by omega)] at hw
      exact absurd hw (by simp)
  obtain ⟨s', hr', hend, hs'⟩ := hr.ends (fun m s h => Spoilt.move m s h) hs
  exact hs'.not_exchanged hx (hall s' hr' hend)

/-! ### The overrun -/

/-- The receive FIFO holds no more than fits. -/
theorem Reached.rx_length (h : Reached c s) : s.rx.length ≤ c.rxDepth := by
  induction h with
  | start => exact Nat.zero_le _
  | @move s m _ ih =>
    cases m with
    | shifter =>
      obtain ⟨pc, sa, ra, mem, tx, shift, rx, wire⟩ := s
      cases shift with
      | none => cases tx <;> exact ih
      | some w =>
        simp only [Poll.move, shifter]
        split
        · rw [List.length_append, List.length_singleton]
          omega
        · exact ih
    | driver =>
      simp only [Poll.move]
      obtain ⟨pc, he | ⟨dummy, -, he⟩ | he | he⟩ := driver_cases s (c := c)
      · rw [he]
        exact ih
      · rw [he]
        cases dummy <;> exact ih
      · obtain ⟨-, -, -, -, -, hr⟩ := read_fields c s
        rw [he]
        show (read c s).rx.length ≤ _
        rw [hr, List.length_tail]
        omega
      · rw [he]
        exact Nat.zero_le _

/-- The driver has written `n` words, has stored none, and is about to go on. -/
structure Unread (c : Call) (n : ℕ) (s : State) : Prop where
  reached : Reached c s
  pc : s.pc = .exchange (c.length - n * c.bytes_per_word)
  recv : s.recv_addr = c.recv
  mem : s.mem = c.mem
  count : s.queue.length = n

/-- The shifter may run until it is idle. -/
theorem Reached.shifts (h : Reached c s) : ∃ s', Reached c s' ∧ s'.pc = s.pc ∧ s'.mem = s.mem ∧
    s'.recv_addr = s.recv_addr ∧ s'.queue = s.queue ∧ s'.wire = s.queue ∧ s'.tx = [] := by
  -- by induction on the words on their way
  induction hn : 2 * s.tx.length + s.shift.toList.length using Nat.strong_induction_on
    generalizing s with
  | _ n ih =>
    by_cases hb : s.Busy
    · obtain ⟨hpc, hmem, hrecv, -, hq⟩ := shifter_sees s (c := c)
      have hless : 2 * (shifter c s).tx.length + (shifter c s).shift.toList.length < n := by
        obtain ⟨pc, sa, ra, mem, tx, shift, rx, wire⟩ := s
        subst hn
        cases shift with
        | none =>
          cases tx with
          | nil => simp [State.Busy] at hb
          | cons w ws => simp [shifter]; omega
        | some w => simp [shifter]
      obtain ⟨s', hr', h1, h2, h3, h4, h5, h6⟩ := ih _ hless (h.move .shifter) rfl
      exact ⟨s', hr', h1.trans hpc, h2.trans hmem, h3.trans hrecv, h4.trans hq, h5.trans hq, h6⟩
    · have htx : s.tx = [] := by
        by_contra h
        exact hb (Or.inl h)
      have hshift : s.shift = none := by
        by_contra h
        exact hb (Or.inr (Option.isSome_iff_ne_none.2 h))
      exact ⟨s, h, rfl, rfl, rfl, rfl, by simp [State.queue, htx, hshift], htx⟩

/-- The driver writes a word. -/
theorem Unread.writes {n : ℕ} (h : Unread c n s) (hroom : s.tx.length < c.txDepth)
    (hmore : 0 < c.length - n * c.bytes_per_word) : ∃ s', Reached c s' ∧
    s'.pc = .take (c.length - (n + 1 : ℕ) * c.bytes_per_word) ∧ s'.recv_addr = c.recv ∧
    s'.mem = c.mem ∧ s'.rx = s.rx ∧ s'.shift = s.shift ∧ s'.wire = s.wire ∧
    s'.tx.length = s.tx.length + 1 ∧ s'.queue.length = n + 1 := by
  refine ⟨_, h.reached.move .driver, ?_⟩
  have hpush : Poll.move c .driver s = push c s (c.send = 0 ∧ c.recv ≠ 0)
      (.take (c.length - n * c.bytes_per_word - c.bytes_per_word)) := by
    simp only [Poll.move, driver, h.pc]
    rw [if_neg (by omega), if_neg (by omega)]
  have hcount := h.count
  simp only [State.queue, List.length_append] at hcount
  rw [hpush, Nat.cast_add_one, add_mul, one_mul, ← sub_sub]
  by_cases hd : c.send = 0 ∧ c.recv ≠ 0
  · simp [push, hd, h.recv, h.mem, State.queue, ← hcount, Nat.add_assoc]
  · simp [push, hd, h.recv, h.mem, State.queue, ← hcount, Nat.add_assoc]

/-- And, finding nothing to read, goes on. -/
theorem Unread.next {n : ℕ} (h : Unread c n s) (hrx : s.rx = []) (hroom : s.tx.length < c.txDepth)
    (hmore : 0 < c.length - n * c.bytes_per_word) : ∃ s', Unread c (n + 1) s' ∧ s'.rx = [] ∧
    s'.shift = s.shift ∧ s'.wire = s.wire ∧ s'.tx.length = s.tx.length + 1 := by
  obtain ⟨s', hr, hpc, hrecv, hmem, hrx', hshift, hwire, htx, hcount⟩ := h.writes hroom hmore
  have hstep : Poll.move c .driver s' =
      { s' with pc := .exchange (c.length - (n + 1 : ℕ) * c.bytes_per_word) } := by
    simp only [Poll.move, driver, hpc, read, hrx'.trans hrx]
  refine ⟨Poll.move c .driver s', ⟨hr.move .driver, ?_, ?_, ?_, ?_⟩, ?_⟩
  · rw [hstep]
  · rw [hstep]
    exact hrecv
  · rw [hstep]
    exact hmem
  · rw [hstep]
    exact hcount
  · rw [hstep]
    exact ⟨hrx'.trans hrx, hshift, hwire, htx⟩

/-- The driver fills the transmit side while nothing arrives. -/
theorem fills (hrecv : c.recv ≠ 0) (k : ℕ) (hk : k ≤ c.txDepth)
    (hmore : 0 < c.length - k * c.bytes_per_word) :
    ∃ s, Unread c (k + 1) s ∧ s.rx = [] ∧ s.shift.isSome ∧ s.tx.length = k := by
  have hdepth := c.depth_pos
  induction k with
  | zero =>
    have hstart : Unread c 0 c.start :=
      ⟨Reached.start, by simp [Call.start, hrecv], rfl, rfl, rfl⟩
    obtain ⟨s, hs, hrx, hshift, hwire, htx⟩ := hstart.next rfl hdepth hmore
    -- the shifter takes the first word
    obtain ⟨w, hw⟩ : ∃ w, s.tx = [w] := List.length_eq_one_iff.1 htx
    have hstep : Poll.move c .shifter s = { s with shift := some w, tx := [] } := by
      have hnone : s.shift = none := hshift
      simp only [Poll.move, shifter, hnone, hw]
    refine ⟨Poll.move c .shifter s, ⟨hs.reached.move .shifter, ?_, ?_, ?_, ?_⟩, ?_⟩
    · rw [hstep]
      exact hs.pc
    · rw [hstep]
      exact hs.recv
    · rw [hstep]
      exact hs.mem
    · have hq : (Poll.move c .shifter s).queue = s.queue := (shifter_sees s).2.2.2.2
      rw [hq]
      exact hs.count
    · rw [hstep]
      exact ⟨hrx, rfl, rfl⟩
  | succ k ih =>
    have hless : (k : ℤ) * c.bytes_per_word ≤ (k + 1 : ℕ) * c.bytes_per_word := by
      push_cast
      rw [add_mul, one_mul]
      omega
    obtain ⟨s, hs, hrx, hshift, htx⟩ := ih (by omega) (by omega)
    obtain ⟨s', hs', hrx', hshift', -, htx'⟩ := hs.next hrx (by omega) hmore
    exact ⟨s', hs', hrx', by rw [hshift']; exact hshift, by omega⟩

/-- **More words than the receive FIFO holds, with no room for all that are on their way: one is
dropped.** -/
theorem overrun (hne : ∀ i, c.received i ≠ c.mem (c.recv + i)) (hrecv : c.recv ≠ 0)
    (hwords : 0 < c.length - c.rxDepth * c.bytes_per_word) (hroom : c.rxDepth ≤ c.txDepth + 1) :
    ¬ c.Exchanges := by
  rintro ⟨-, hall⟩
  have hpos := c.rxDepth_pos
  have hless : ((c.rxDepth - 1 : ℕ) : ℤ) * c.bytes_per_word ≤ c.rxDepth * c.bytes_per_word := by
    gcongr
    omega
  -- the FIFO's depth in words, none of them read, and then one more
  obtain ⟨s, hs, -, -, -⟩ := fills hrecv (c.rxDepth - 1) (by omega) (by omega)
  rw [Nat.sub_add_cancel hpos] at hs
  obtain ⟨s₁, hr₁, hpc₁, hmem₁, hrecv₁, hq₁, -, htx₁⟩ := hs.reached.shifts
  have hs₁ : Unread c c.rxDepth s₁ :=
    ⟨hr₁, hpc₁.trans hs.pc, hrecv₁.trans hs.recv, hmem₁.trans hs.mem, by rw [hq₁, hs.count]⟩
  obtain ⟨s₂, hr₂, -, hrecv₂, hmem₂, -, -, -, -, hcount₂⟩ :=
    hs₁.writes (by rw [htx₁]; exact c.depth_pos) hwords
  obtain ⟨s₃, hr₃, -, hmem₃, hrecv₃, -, hwire₃, -⟩ := hr₂.shifts
  have hlost : Lost c s₃ := by
    refine ⟨0, by rw [hrecv₃, hrecv₂]; omega, fun a _ => by rw [hmem₃, hmem₂], ?_⟩
    have hcap := hr₃.rx_length
    rw [hwire₃, hcount₂]
    omega
  obtain ⟨s', hr', hend, hs'⟩ := hr₃.ends (fun m s h => Lost.move m s h) hlost
  exact hs'.not_exchanged hne hrecv (hall s' hr' hend)

/-! ### The condition is exact -/

/-- A transfer that is an exchange has a whole number of words. -/
theorem Call.Exchanges.whole (h : c.Exchanges) : c.bytes_per_word ∣ c.length.toNat := by
  obtain ⟨s, hr, hend, -⟩ :=
    @Reached.ends c _ (fun _ => True) (fun _ _ h => h) Reached.start trivial
  rw [← (h.2 s hr hend).count]
  exact Nat.dvd_mul_left _ _

/-- A transfer that is an exchange with answers that differ from the memory meets the
condition. -/
theorem Call.Exchanges.ok (h : c.Exchanges) (hne : ∀ i, c.received i ≠ c.mem (c.recv + i)) :
    c.Ok := by
  have hb := c.width_ok.1
  have hmul : c.words * c.bytes_per_word = c.length.toNat := Nat.div_mul_cancel h.whole
  refine ⟨?_, h.whole, ?_, ?_⟩
  · -- the answers go to address zero
    by_contra hno
    rw [not_or, not_or, not_not, not_not] at hno
    obtain ⟨hsend, hrecv, hlen⟩ := hno
    exact spoilt hne (fun h => h.1 hsend) (by omega) (le_refl _) (by omega) (Or.inl hrecv) h
  · -- the first answer lands in a later word of the send buffer
    by_contra hno
    rw [not_or, not_or, not_or, not_or] at hno
    obtain ⟨hsend, hrecv, h1, h2, h3⟩ := hno
    have htwo : 2 * c.bytes_per_word ≤ c.words * c.bytes_per_word :=
      Nat.mul_le_mul_right _ (by omega)
    refine @spoilt c hne (fun h => hrecv h.2) (by omega) (max c.recv (c.send + c.bytes_per_word))
      (le_max_left _ _) (by omega) (Or.inr ⟨hsend, le_max_right _ _, by omega⟩) h
  · -- a word is dropped
    by_contra hno
    rw [not_or, not_or] at hno
    obtain ⟨hrecv, h1, h2⟩ := hno
    have hmore : (c.rxDepth + 1) * c.bytes_per_word ≤ c.words * c.bytes_per_word :=
      Nat.mul_le_mul_right _ (by omega)
    rw [Nat.add_one_mul, hmul] at hmore
    have hwords : (0 : ℤ) < c.length - c.rxDepth * c.bytes_per_word := by
      zify at hmore hb
      have hpos : (0 : ℤ) ≤ c.rxDepth * c.bytes_per_word := by positivity
      omega
    exact overrun hne hrecv hwords (by omega) h

/-- A call with other answers of the slave. -/
def Call.withSlave (c : Call) (slave : ℕ → BitVec 32) : Call := { c with slave := slave }

/-- **A polled transfer is an exchange of exactly its length, whatever the timing and the slave's
answers, exactly if the call meets the condition.** -/
theorem poll_exchange_iff (c : Call) : (∀ slave, (c.withSlave slave).Exchanges) ↔ c.Ok := by
  constructor
  · intro h
    obtain ⟨h1, h2, h3, h4⟩ := (h c.contrary).ok (@contrary_received (c.withSlave c.contrary) rfl)
    exact ⟨h1, h2, h3, h4⟩
  · intro h slave
    exact Call.Ok.exchanges ⟨h.buffers, h.whole, h.apart, h.room⟩

/-- Five bytes received over FIFOs of four words. -/
def fiveBytes : Call where
  send := 0
  recv := 1
  length := 5
  bytes_per_word := 1
  mem _ := 0
  txDepth := 4
  rxDepth := 4
  slave _ := 0xFF
  width_ok := by decide
  depth_pos := by decide
  rxDepth_pos := by decide

/-- The driver writes four words before anything arrives, is held up until all the answers are
in, and writes the fifth before it reads the first: that answer is dropped. -/
theorem fiveBytes_overrun : ¬ fiveBytes.Exchanges :=
  overrun (fun i => by simp [Call.received, fiveBytes, Nat.mod_one]) (by decide) (by decide)
    (by decide)

end Poll

end Spi
