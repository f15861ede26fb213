/-
Two open-drain lines, a clock and a data line, between a master and a device.

A line is high if nobody pulls it low.  The device sees a start or a stop where the data line falls
or rises while the clock is high, and else a bit for each period of the clock; it changes what it
puts on the data line when the clock falls, and it may hold the clock low.  On top of the bits are
bytes of eight bits and an acknowledgement each; a `Device` answers byte by byte.
-/
import Mathlib.Data.BitVec
import Mathlib.Tactic.Ring

namespace TwoWire

variable {δ : Type*}

/-- A device, byte by byte: whether it acknowledges an address byte and a byte written to it, and the
next byte that it has to send. -/
structure Device (δ : Type*) where
  start : δ → δ
  address : δ → BitVec 8 → Bool × δ
  write : δ → BitVec 8 → Bool × δ
  read : δ → BitVec 8 × δ
  stop : δ → δ

/-- Where a device is.  A byte comes most significant bit first; `acc` are its bits so far. -/
inductive Phase
  | idle
  | address (n acc : ℕ)
  | addressed (byte : BitVec 8) (ack : Bool)
  | writing (n acc : ℕ)
  | written (ack : Bool)
  | reading (byte : BitVec 8) (n : ℕ)
  | taken

/-- A device on the lines. -/
structure Slave (δ : Type*) where
  phase : Phase
  dev : δ

/-- What a device sees. -/
inductive Ev
  | start
  | stop
  | bit (b : Bool)

/-- What a device puts on the data line. -/
def Slave.out (s : Slave δ) : Bool :=
  match s.phase with
  | .addressed _ ack | .written ack => !ack
  | .reading byte n => byte.getMsbD n
  | .idle | .address _ _ | .writing _ _ | .taken => true

/-- What a device does at an event. -/
def Slave.next (D : Device δ) (s : Slave δ) : Ev → Slave δ
  | .start => ⟨.address 0 0, D.start s.dev⟩
  | .stop => ⟨.idle, D.stop s.dev⟩
  | .bit b =>
    match s.phase with
    | .idle => s
    | .address n acc =>
      if n = 7 then
        let byte := BitVec.ofNat 8 (2 * acc + b.toNat)
        let r := D.address s.dev byte
        ⟨.addressed byte r.1, r.2⟩
      else ⟨.address (n + 1) (2 * acc + b.toNat), s.dev⟩
    | .addressed byte ack =>
      if ack = false then ⟨.idle, s.dev⟩
      else if byte.getLsbD 0 then
        let r := D.read s.dev
        ⟨.reading r.1 0, r.2⟩
      else ⟨.writing 0 0, s.dev⟩
    | .writing n acc =>
      if n = 7 then
        let r := D.write s.dev (BitVec.ofNat 8 (2 * acc + b.toNat))
        ⟨.written r.1, r.2⟩
      else ⟨.writing (n + 1) (2 * acc + b.toNat), s.dev⟩
    | .written ack => if ack then ⟨.writing 0 0, s.dev⟩ else ⟨.idle, s.dev⟩
    | .reading byte n => if n = 7 then ⟨.taken, s.dev⟩ else ⟨.reading byte (n + 1), s.dev⟩
    | .taken =>
      if b then ⟨.idle, s.dev⟩
      else
        let r := D.read s.dev
        ⟨.reading r.1 0, r.2⟩

/-- The lines: the level of the clock, what the master and the device put on the data line, and whether a
start or a stop has been seen since the clock rose. -/
structure Wire (δ : Type*) where
  scl : Bool
  sda : Bool
  pull : Bool
  edge : Bool
  slave : Slave δ

/-- A device on a bus, and where it holds the clock low for longer than the master waits. -/
structure Bus (δ : Type*) where
  device : Device δ
  holds : Slave δ → Bool

/-- The level of the data line. -/
def Wire.line (w : Wire δ) : Bool := w.sda && w.pull

/-- The master sets the data line. -/
def Bus.setSda (B : Bus δ) (v : Bool) (w : Wire δ) : Wire δ :=
  let w' := { w with sda := v }
  if w.scl = false then w'
  else if w.line = true ∧ w'.line = false then { w' with edge := true, slave := w.slave.next B.device .start }
  else if w.line = false ∧ w'.line = true then { w' with edge := true, slave := w.slave.next B.device .stop }
  else w'

/-- The master releases the clock. -/
def Bus.sclHigh (B : Bus δ) (w : Wire δ) : Wire δ :=
  if w.scl = true ∨ B.holds w.slave = true then w else { w with scl := true, edge := false }

/-- The master pulls the clock low.  The period of the clock that ends is a bit, unless it was a start or a
stop. -/
def Bus.sclLow (B : Bus δ) (w : Wire δ) : Wire δ :=
  if w.scl = false then w
  else
    let slave := if w.edge then w.slave else w.slave.next B.device (.bit w.line)
    { w with scl := false, pull := slave.out, slave := slave }

/-! ### One period of the clock -/

/-- The clock is low, and the device has put its bit on the line. -/
structure Low (w : Wire δ) (s : Slave δ) : Prop where
  scl : w.scl = false
  pull : w.pull = s.out
  slave : w.slave = s

variable {B : Bus δ} {w : Wire δ} {s : Slave δ}

theorem Low.setSda (h : Low w s) (v : Bool) : Low (B.setSda v w) s ∧ (B.setSda v w).sda = v := by
  have heq : B.setSda v w = { w with sda := v } := if_pos h.scl
  rw [heq]
  exact ⟨⟨h.scl, h.pull, h.slave⟩, rfl⟩

theorem Low.sclLow (h : Low w s) : B.sclLow w = w := if_pos h.scl

/-- The clock is high in the middle of a bit. -/
structure High (w : Wire δ) (s : Slave δ) : Prop where
  scl : w.scl = true
  edge : w.edge = false
  pull : w.pull = s.out
  slave : w.slave = s

theorem Low.sclHigh (h : Low w s) (hB : B.holds s = false) :
    High (B.sclHigh w) s ∧ (B.sclHigh w).sda = w.sda := by
  have heq : B.sclHigh w = { w with scl := true, edge := false } := by
    rw [Bus.sclHigh, if_neg]
    rintro (hscl | hhold)
    · rw [h.scl] at hscl
      cases hscl
    · rw [h.slave, hB] at hhold
      cases hhold
  rw [heq]
  exact ⟨⟨rfl, rfl, h.pull, h.slave⟩, rfl⟩

/-- A bit is over. -/
theorem High.sclLow (h : High w s) : Low (B.sclLow w) (s.next B.device (.bit (w.sda && s.out))) ∧
    (B.sclLow w).sda = w.sda := by
  have heq : B.sclLow w = { w with
      scl := false
      pull := (s.next B.device (.bit (w.sda && s.out))).out
      slave := s.next B.device (.bit (w.sda && s.out)) } := by
    rw [Bus.sclLow, if_neg (by rw [h.scl]; exact Bool.noConfusion)]
    simp only [h.edge, h.slave, Wire.line, h.pull, Bool.false_eq_true, if_false]
  rw [heq]
  exact ⟨⟨rfl, rfl, rfl⟩, rfl⟩

/-! ### Start and stop -/

/-- Both lines are high, and the device waits for a start. -/
structure Free (w : Wire δ) (d : δ) : Prop where
  scl : w.scl = true
  sda : w.sda = true
  pull : w.pull = true
  slave : w.slave = ⟨.idle, d⟩

variable {d : δ}

theorem Free.start (h : Free w d) :
    Low (B.sclLow (B.setSda false w)) ⟨.address 0 0, B.device.start d⟩ := by
  have heq : B.setSda false w =
      { w with sda := false, edge := true, slave := ⟨.address 0 0, B.device.start d⟩ } := by
    simp only [Bus.setSda, Wire.line, h.scl, h.sda, h.pull, h.slave, Slave.next]
    rfl
  rw [heq, Bus.sclLow, if_neg (by rw [h.scl]; exact Bool.noConfusion)]
  exact ⟨rfl, rfl, rfl⟩

/-- A start in the middle of a transfer: the data line is let go, so that it can fall again. -/
theorem Low.restart (h : Low w s) (hs : s.out = true) (hB : B.holds s = false) :
    Low (B.sclLow (B.setSda false (B.sclHigh (B.setSda true w))))
      ⟨.address 0 0, B.device.start s.dev⟩ := by
  obtain ⟨hlow, hsda⟩ := h.setSda (B := B) true
  obtain ⟨hhigh, hsda'⟩ := hlow.sclHigh hB
  rw [hsda] at hsda'
  generalize B.sclHigh (B.setSda true w) = w' at hhigh hsda'
  have heq : B.setSda false w' =
      { w' with sda := false, edge := true, slave := ⟨.address 0 0, B.device.start s.dev⟩ } := by
    simp only [Bus.setSda, Wire.line, hhigh.scl, hsda', hhigh.pull, hs, hhigh.slave, Slave.next]
    rfl
  rw [heq, Bus.sclLow, if_neg (by rw [hhigh.scl]; exact Bool.noConfusion)]
  exact ⟨rfl, rfl, rfl⟩

/-- A stop, unless the device holds the data line. -/
theorem Low.stop (h : Low w s) (hs : s.out = true) (hB : B.holds s = false) :
    Free (B.setSda true (B.sclHigh (B.setSda false w))) (B.device.stop s.dev) := by
  obtain ⟨hlow, hsda⟩ := h.setSda (B := B) false
  obtain ⟨hhigh, hsda'⟩ := hlow.sclHigh hB
  rw [hsda] at hsda'
  generalize B.sclHigh (B.setSda false w) = w' at hhigh hsda'
  have heq : B.setSda true w' =
      { w' with sda := true, edge := true, slave := ⟨.idle, B.device.stop s.dev⟩ } := by
    simp only [Bus.setSda, Wire.line, hhigh.scl, hsda', hhigh.pull, hs, hhigh.slave, Slave.next]
    rfl
  rw [heq]
  exact ⟨hhigh.scl, rfl, hhigh.pull.trans hs, rfl⟩

/-! ### Several periods -/

/-- The bits below `n` of a byte, the highest first. -/
def bits (v : BitVec 8) : ℕ → List Bool
  | 0 => []
  | n + 1 => v.getLsbD n :: bits v n

/-- A number shifted up by further bits. -/
def shiftIn (acc : ℕ) (bs : List Bool) : ℕ := bs.foldl (fun n b => 2 * n + b.toNat) acc

/-- The levels of the data line over some periods of the clock, and what comes of the device; the master
puts `bs` on the line. -/
def Slave.exchange (D : Device δ) : Slave δ → List Bool → List Bool × Slave δ
  | s, [] => ([], s)
  | s, b :: bs =>
    let r := Slave.exchange D (s.next D (.bit (b && s.out))) bs
    ((b && s.out) :: r.1, r.2)

@[simp] theorem length_bits (v : BitVec 8) (n : ℕ) : (bits v n).length = n := by
  induction n with
  | zero => rfl
  | succ n ih => rw [bits, List.length_cons, ih]

theorem shiftIn_bits (v : BitVec 8) (acc n : ℕ) : shiftIn acc (bits v n) = acc * 2 ^ n + v.toNat % 2 ^ n := by
  induction n generalizing acc with
  | zero => simp [bits, shiftIn, Nat.mod_one]
  | succ n ih =>
    have hbit : (v.getLsbD n).toNat = v.toNat / 2 ^ n % 2 := by
      rw [BitVec.getLsbD, Nat.toNat_testBit]
    calc shiftIn acc (bits v (n + 1)) = shiftIn (2 * acc + (v.getLsbD n).toNat) (bits v n) := rfl
      _ = (2 * acc + v.toNat / 2 ^ n % 2) * 2 ^ n + v.toNat % 2 ^ n := by rw [ih, hbit]
      _ = acc * 2 ^ (n + 1) + v.toNat % 2 ^ (n + 1) := by rw [Nat.mod_pow_succ]; ring

theorem shiftIn_byte (v : BitVec 8) : BitVec.ofNat 8 (shiftIn 0 (bits v 8)) = v := by
  rw [shiftIn_bits, Nat.zero_mul, Nat.zero_add, Nat.mod_eq_of_lt v.isLt, BitVec.ofNat_toNat,
    BitVec.setWidth_eq]

/-- Bits that a device takes one after the other: it lets go of the line, and is done at the eighth. -/
theorem exchange_shift {D : Device δ} {P : ℕ → ℕ → Slave δ} {F : ℕ → Slave δ}
    (hout : ∀ n acc, (P n acc).out = true)
    (hnext : ∀ n acc b, (P n acc).next D (.bit b) =
      if n = 7 then F (2 * acc + b.toNat) else P (n + 1) (2 * acc + b.toNat))
    (bs : List Bool) {n : ℕ} (acc : ℕ) (hbs : bs ≠ []) (hn : n + bs.length = 8) :
    (P n acc).exchange D bs = (bs, F (shiftIn acc bs)) := by
  induction bs generalizing n acc with
  | nil => exact absurd rfl hbs
  | cons b bs ih =>
    rw [List.length_cons] at hn
    simp only [Slave.exchange, hout, Bool.and_true, hnext]
    by_cases hlast : bs = []
    · subst hlast
      rw [if_pos (by simpa using hn)]
      rfl
    · have := List.length_pos_of_ne_nil hlast
      rw [if_neg (by omega), ih _ hlast (by omega)]
      rfl

theorem exchange_address {D : Device δ} (v : BitVec 8) :
    (⟨.address 0 0, d⟩ : Slave δ).exchange D (bits v 8) =
      (bits v 8, ⟨.addressed v (D.address d v).1, (D.address d v).2⟩) := by
  have h := exchange_shift (D := D) (P := fun n acc => ⟨.address n acc, d⟩)
    (F := fun n => ⟨.addressed (BitVec.ofNat 8 n) (D.address d (BitVec.ofNat 8 n)).1,
      (D.address d (BitVec.ofNat 8 n)).2⟩) (fun _ _ => rfl) (fun _ _ _ => rfl) (bits v 8)
    (n := 0) 0 (List.cons_ne_nil _ _) (by rw [length_bits])
  rwa [shiftIn_byte] at h

theorem exchange_writing {D : Device δ} (v : BitVec 8) :
    (⟨.writing 0 0, d⟩ : Slave δ).exchange D (bits v 8) =
      (bits v 8, ⟨.written (D.write d v).1, (D.write d v).2⟩) := by
  have h := exchange_shift (D := D) (P := fun n acc => ⟨.writing n acc, d⟩)
    (F := fun n => ⟨.written (D.write d (BitVec.ofNat 8 n)).1, (D.write d (BitVec.ofNat 8 n)).2⟩)
    (fun _ _ => rfl) (fun _ _ _ => rfl) (bits v 8) (n := 0) 0 (List.cons_ne_nil _ _)
    (by rw [length_bits])
  rwa [shiftIn_byte] at h

theorem exchange_idle {D : Device δ} (bs : List Bool) :
    (⟨.idle, d⟩ : Slave δ).exchange D bs = (bs, ⟨.idle, d⟩) := by
  induction bs with
  | nil => rfl
  | cons b bs ih => simp only [Slave.exchange, Slave.out, Bool.and_true, Slave.next, ih]

/-- A device that sends does not look at the line until its byte is out. -/
theorem exchange_reading {D : Device δ} {v : BitVec 8} {bs : List Bool} {n : ℕ} (hbs : bs ≠ [])
    (hn : n + bs.length = 8) :
    ((⟨.reading v n, d⟩ : Slave δ).exchange D bs).2 = ⟨.taken, d⟩ := by
  induction bs generalizing n with
  | nil => exact absurd rfl hbs
  | cons b bs ih =>
    rw [List.length_cons] at hn
    simp only [Slave.exchange, Slave.next]
    by_cases hlast : bs = []
    · subst hlast
      rw [if_pos (by simpa using hn)]
      rfl
    · have := List.length_pos_of_ne_nil hlast
      rw [if_neg (by omega)]
      exact ih hlast (by omega)

theorem exchange_append {D : Device δ} (s : Slave δ) (bs cs : List Bool) :
    (s.exchange D (bs ++ cs)).2 = ((s.exchange D bs).2.exchange D cs).2 := by
  induction bs generalizing s with
  | nil => rfl
  | cons b bs ih => exact ih _

/-- Nine periods in which the master lets go of the line make a device that sends give up. -/
theorem exchange_nine {D : Device δ} {v : BitVec 8} {n : ℕ} (hn : n < 8) :
    ((⟨.reading v n, d⟩ : Slave δ).exchange D (List.replicate 9 true)).2 = ⟨.idle, d⟩ := by
  have hsplit : List.replicate 9 true = List.replicate (8 - n) true ++ true :: List.replicate n true := by
    rw [← List.replicate_succ, ← List.replicate_add, show 8 - n + (n + 1) = 9 by omega]
  have hne : List.replicate (8 - n) true ≠ [] := by
    rw [Ne, List.replicate_eq_nil_iff]
    omega
  rw [hsplit, exchange_append, exchange_reading hne (by rw [List.length_replicate]; omega)]
  change ((⟨.idle, d⟩ : Slave δ).exchange D (List.replicate n true)).2 = _
  rw [exchange_idle]

/-- While the master lets go of the line, it sees the byte. -/
theorem line_reading {D : Device δ} {v : BitVec 8} {n m : ℕ} (hn : n + m = 8) :
    ((⟨.reading v n, d⟩ : Slave δ).exchange D (List.replicate m true)).1 = bits v m := by
  induction m generalizing n with
  | zero => rfl
  | succ m ih =>
    have hbit : v.getMsbD n = v.getLsbD m := by
      rw [BitVec.getMsbD, show decide (n < 8) = true from decide_eq_true (by omega), Bool.true_and,
        show 8 - 1 - n = m by omega]
    simp only [List.replicate_succ, Slave.exchange, Slave.out, Bool.true_and, Slave.next, bits, hbit]
    by_cases hlast : n = 7
    · obtain rfl : m = 0 := by omega
      rfl
    · rw [if_neg hlast, ih (by omega)]

/-! ### Byte by byte -/

/-- Where a device is between two bytes, or between a byte that was read and its acknowledgement. -/
inductive Mode
  | idle
  | address
  | writing
  | reading (byte : BitVec 8)
  | taken
  | heard (ack : Bool)

/-- A device, and where it is. -/
structure Session (δ : Type*) where
  mode : Mode
  dev : δ

def Mode.phase : Mode → Phase
  | .idle => .idle
  | .address => .address 0 0
  | .writing => .writing 0 0
  | .reading byte => .reading byte 0
  | .taken => .taken
  | .heard ack => .written ack

/-- The device on the lines. -/
def Session.slave (s : Session δ) : Slave δ := ⟨s.mode.phase, s.dev⟩

def Session.start (D : Device δ) (s : Session δ) : Session δ := ⟨.address, D.start s.dev⟩

def Session.stop (D : Device δ) (s : Session δ) : Session δ := ⟨.idle, D.stop s.dev⟩

/-- A byte to the device, and whether it is acknowledged.  One that sends itself does not hear it. -/
def Session.write (D : Device δ) (v : BitVec 8) (s : Session δ) : Bool × Session δ :=
  match s.mode with
  | .address =>
    let r := D.address s.dev v
    if r.1 = false then (false, ⟨.idle, r.2⟩)
    else if v.getLsbD 0 then (true, ⟨.reading (D.read r.2).1, (D.read r.2).2⟩)
    else (true, ⟨.writing, r.2⟩)
  | .writing => ((D.write s.dev v).1, ⟨if (D.write s.dev v).1 then .writing else .idle, (D.write s.dev v).2⟩)
  | .idle | .reading _ | .taken | .heard _ => (false, ⟨.idle, s.dev⟩)

/-- A byte from the device; a line that nobody pulls is read as ones. -/
def Session.read (D : Device δ) (s : Session δ) : BitVec 8 × Session δ :=
  match s.mode with
  | .reading byte => (byte, ⟨.taken, s.dev⟩)
  | .writing => (0xff, ⟨.heard (D.write s.dev 0xff).1, (D.write s.dev 0xff).2⟩)
  | .idle | .address | .taken | .heard _ => (0xff, s)

/-- The master's acknowledgement. -/
def Session.ack (D : Device δ) (ack : Bool) (s : Session δ) : Session δ :=
  match s.mode with
  | .taken => if ack then ⟨.reading (D.read s.dev).1, (D.read s.dev).2⟩ else ⟨.idle, s.dev⟩
  | .heard a => ⟨if a then .writing else .idle, s.dev⟩
  | .idle | .address | .writing | .reading _ => s

/-- Nobody but the master drives the data line, and it may start or stop. -/
def Session.Quiet (s : Session δ) : Prop := s.mode = .idle ∨ s.mode = .writing

/-- The device expects a byte. -/
def Session.Between (s : Session δ) : Prop := s.Quiet ∨ ∃ byte, s.mode = .reading byte

/-- A byte was read, and its acknowledgement is due. -/
def Session.Due (s : Session δ) : Prop := s.mode = .idle ∨ s.mode = .taken ∨ ∃ a, s.mode = .heard a

/-- The eight bits of a byte and the one that acknowledges it. -/
theorem Session.write_slave (D : Device δ) (v : BitVec 8) {s : Session δ}
    (hs : s.Between ∨ s.mode = .address) :
    let t := (s.slave.exchange D (bits v 8)).2
    t.out = !(s.write D v).1 ∧ t.next D (.bit t.out) = (s.write D v).2.slave := by
  obtain ⟨mode, d⟩ := s
  rcases hs with ((rfl | rfl) | ⟨byte, rfl⟩) | rfl
  · rw [Session.slave, Mode.phase, exchange_idle]
    exact ⟨rfl, rfl⟩
  · rw [Session.slave, Mode.phase, exchange_writing]
    simp only [Session.write, Slave.out, Slave.next, true_and]
    cases (D.write d v).1 <;> rfl
  · have hne : bits v 8 ≠ [] := List.cons_ne_nil _ _
    rw [Session.slave, Mode.phase, exchange_reading hne (by rw [length_bits])]
    exact ⟨rfl, rfl⟩
  · rw [Session.slave, Mode.phase, exchange_address]
    simp only [Session.write, Slave.out, Slave.next]
    cases (D.address d v).1
    · exact ⟨rfl, rfl⟩
    · cases v.getLsbD 0 <;> exact ⟨rfl, rfl⟩

/-- The eight bits of a byte that the master reads. -/
theorem Session.read_slave (D : Device δ) {s : Session δ} (hs : s.Between) :
    let r := s.slave.exchange D (List.replicate 8 true)
    BitVec.ofNat 8 (shiftIn 0 r.1) = (s.read D).1 ∧ r.2 = (s.read D).2.slave := by
  have hones : List.replicate 8 true = bits 0xff 8 := rfl
  obtain ⟨mode, d⟩ := s
  rcases hs with (rfl | rfl) | ⟨byte, rfl⟩
  · rw [Session.slave, Mode.phase, exchange_idle]
    exact ⟨rfl, rfl⟩
  · rw [hones, Session.slave, Mode.phase, exchange_writing]
    exact ⟨rfl, rfl⟩
  · rw [Session.slave, Mode.phase]
    refine ⟨?_, exchange_reading (List.cons_ne_nil _ _) rfl⟩
    rw [line_reading rfl, shiftIn_byte]
    rfl

/-- The bit that acknowledges it. -/
theorem Session.ack_slave (D : Device δ) (ack : Bool) {s : Session δ} (hs : s.Due) :
    s.slave.next D (.bit (!ack && s.slave.out)) = (s.ack D ack).slave ∧ (s.ack D ack).Between ∧
      (ack = false → (s.ack D ack).Quiet) := by
  obtain ⟨mode, d⟩ := s
  rcases hs with rfl | rfl | ⟨a, rfl⟩
  · exact ⟨rfl, .inl (.inl rfl), fun _ => .inl rfl⟩
  · cases ack
    · exact ⟨rfl, .inl (.inl rfl), fun _ => .inl rfl⟩
    · exact ⟨rfl, .inr ⟨_, rfl⟩, fun h => Bool.noConfusion h⟩
  · cases a
    · exact ⟨rfl, .inl (.inl rfl), fun _ => .inl rfl⟩
    · exact ⟨rfl, .inl (.inr rfl), fun _ => .inr rfl⟩

theorem Session.Quiet.out {s : Session δ} (hs : s.Quiet) : s.slave.out = true := by
  obtain ⟨mode, d⟩ := s
  rcases hs with rfl | rfl <;> rfl

theorem Session.write_between (D : Device δ) (v : BitVec 8) (s : Session δ) :
    (s.write D v).2.Between := by
  obtain ⟨mode, d⟩ := s
  cases mode with
  | address =>
    simp only [Session.write]
    split_ifs
    · exact .inl (.inl rfl)
    · exact .inr ⟨_, rfl⟩
    · exact .inl (.inr rfl)
  | writing =>
    simp only [Session.write]
    split_ifs
    · exact .inl (.inr rfl)
    · exact .inl (.inl rfl)
  | idle | reading _ | taken | heard _ => exact .inl (.inl rfl)

/-- Only an address that was accepted makes the device send. -/
theorem Session.write_quiet (D : Device δ) (v : BitVec 8) {s : Session δ}
    (h : (s.write D v).1 = false ∨ v.getLsbD 0 = false ∨ s.mode ≠ .address) : (s.write D v).2.Quiet := by
  obtain ⟨mode, d⟩ := s
  cases mode with
  | address =>
    by_cases hack : (D.address d v).1 = false
    · have heq : Session.write D v ⟨.address, d⟩ = (false, ⟨.idle, (D.address d v).2⟩) := if_pos hack
      rw [heq]
      exact .inl rfl
    · rcases h with h | h | h
      · simp only [Session.write, if_neg hack] at h
        split_ifs at h <;> cases h
      · simp only [Session.write, if_neg hack, h]
        exact .inr rfl
      · exact absurd rfl h
  | writing =>
    simp only [Session.write]
    split_ifs
    · exact .inr rfl
    · exact .inl rfl
  | idle | reading _ | taken | heard _ => exact .inl rfl

theorem Session.Quiet.not_address {s : Session δ} (hs : s.Quiet) : s.mode ≠ .address := by
  intro h
  rcases hs with hs | hs <;> rw [hs] at h <;> cases h

theorem Session.read_due (D : Device δ) {s : Session δ} (hs : s.Between) : (s.read D).2.Due := by
  obtain ⟨mode, d⟩ := s
  rcases hs with (rfl | rfl) | ⟨byte, rfl⟩
  · exact .inl rfl
  · exact .inr (.inr ⟨_, rfl⟩)
  · exact .inr (.inl rfl)

end TwoWire
