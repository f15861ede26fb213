/-
The I2C master over two pins, and the bytes that come of it.

The driver pulls and releases the clock and the data line a bit at a time.  It is written over a `Line`:
the six operations under the loops over messages and bytes, which are those of the pins (`pins`) or of a
device that takes and gives whole bytes (`bytes`).

* **`transfers_bytes`** — any run of transfers over the pins is the run over whole bytes: the values
  returned, the bytes read, what the device is told;
* **`transfer_after_unlock`** — a device that sends when the driver starts is clocked off the bus, but
  the clock stays low: the next transfer has no start, and is lost.
-/
import NuMaker.I2c.Transfer
import NuMaker.Lib.TwoWire

open TwoWire

namespace I2c.BitOps

def RT_I2C_NO_READ_ACK : BitVec 16 := 1 <<< 6
def RT_I2C_NO_STOP : BitVec 16 := 1 <<< 7

def RT_ERROR : ℤ := 1
def RT_ETIMEOUT : ℤ := 2
def RT_EIO : ℤ := 8

/-! ### The pins -/

section Pins

variable {δ : Type*} (B : TwoWire.Bus δ)

/-- Releases the clock, and gives up when the device holds it for too long. -/
def SCL_H (w : Wire δ) : ℤ × Wire δ :=
  let w' := B.sclHigh w
  if w'.scl then (0, w') else (-RT_ETIMEOUT, w')

def i2c_start (w : Wire δ) : Wire δ := B.sclLow (B.setSda false w)

def i2c_restart (w : Wire δ) : Wire δ := B.sclLow (B.setSda false (SCL_H B (B.setSda true w)).2)

def i2c_stop (w : Wire δ) : Wire δ := B.setSda true (SCL_H B (B.setSda false w)).2

def i2c_waitack (w : Wire δ) : ℤ × Wire δ :=
  let r := SCL_H B (B.setSda true w)
  if r.1 < 0 then (-RT_ETIMEOUT, r.2)
  else
    let ack := !r.2.line
    (if ack then 1 else 0, B.sclLow r.2)

/-- The bits of a byte below `i`. -/
def i2c_writeb.loop (data : BitVec 8) : ℕ → Wire δ → ℤ × Wire δ
  | 0, w => (0, w)
  | i + 1, w =>
    let bit := data.getLsbD i
    let r := SCL_H B (B.setSda bit (B.sclLow w))
    if r.1 < 0 then (-RT_ETIMEOUT, r.2) else i2c_writeb.loop data i r.2

def i2c_writeb (data : BitVec 8) (w : Wire δ) : ℤ × Wire δ :=
  let r := i2c_writeb.loop B data 8 w
  if r.1 < 0 then r else i2c_waitack B (B.sclLow r.2)

def i2c_readb.loop : ℕ → BitVec 8 → Wire δ → ℤ × Wire δ
  | 0, data, w => (data.toNat, w)
  | i + 1, data, w =>
    let data := data <<< 1
    let r := SCL_H B w
    if r.1 < 0 then (-RT_ETIMEOUT, r.2)
    else
      let data := if r.2.line then data ||| 1 else data
      i2c_readb.loop i data (B.sclLow r.2)

def i2c_readb (w : Wire δ) : ℤ × Wire δ := i2c_readb.loop B 8 0 (B.setSda true w)

def i2c_send_ack_or_nack (ack : ℕ) (w : Wire δ) : ℤ × Wire δ :=
  let r := SCL_H B (if ack ≠ 0 then B.setSda false w else w)
  if r.1 < 0 then (-RT_ETIMEOUT, r.2) else (0, B.sclLow r.2)

/-- Periods of the clock with nothing written to the data line. -/
def nu_soft_i2c_bus_unlock.loop : ℕ → Wire δ → Wire δ
  | 0, w => w
  | i + 1, w => nu_soft_i2c_bus_unlock.loop i (B.sclLow (B.sclHigh w))

/-- Clocks a device that holds the data line off the bus. -/
def nu_soft_i2c_bus_unlock (w : Wire δ) : ℤ × Wire δ :=
  let w := if w.line = false then nu_soft_i2c_bus_unlock.loop B 9 w else w
  (if w.line = false then -RT_ERROR else 0, w)

end Pins

/-! ### Messages -/

/-- What the loops over messages and bytes are made of. -/
structure Line (W : Type*) where
  start : W → W
  restart : W → W
  stop : W → W
  writeb : BitVec 8 → W → ℤ × W
  readb : W → ℤ × W
  ack : ℕ → W → ℤ × W

def pins {δ : Type*} (B : TwoWire.Bus δ) : Line (Wire δ) where
  start := i2c_start B
  restart := i2c_restart B
  stop := i2c_stop B
  writeb := i2c_writeb B
  readb := i2c_readb B
  ack := i2c_send_ack_or_nack B

/-- The same over whole bytes. -/
def bytes {δ : Type*} (D : Device δ) : Line (Session δ) where
  start := Session.start D
  restart := Session.start D
  stop := Session.stop D
  writeb v s := (if (s.write D v).1 then 1 else 0, (s.write D v).2)
  readb s := ((s.read D).1.toNat, (s.read D).2)
  ack n s := (0, s.ack D (n ≠ 0))

section Messages

variable {W : Type*} (L : Line W)

def i2c_send_bytes.loop (m : rt_i2c_msg) : ℕ → ℕ → W → ℤ × W
  | 0, bytes, w => (bytes, w)
  | count + 1, bytes, w =>
    let r := L.writeb (m.buf bytes) w
    if 0 < r.1 ∨ m.has RT_I2C_IGNORE_NACK = true ∧ r.1 = 0 then i2c_send_bytes.loop m count (bytes + 1) r.2
    else if r.1 = 0 then (0, r.2)
    else r

def i2c_send_bytes (m : rt_i2c_msg) (w : W) : ℤ × W := i2c_send_bytes.loop L m m.len 0 w

def i2c_recv_bytes.loop (m : rt_i2c_msg) : ℕ → ℕ → W → ℤ × List (BitVec 8) × W
  | 0, bytes, w => (bytes, [], w)
  | count + 1, bytes, w =>
    let r := L.readb w
    if 0 ≤ r.1 then
      let val := BitVec.ofInt 8 r.1
      let a := if m.has RT_I2C_NO_READ_ACK then (0, r.2) else L.ack count r.2
      if a.1 < 0 then (a.1, [val], a.2)
      else
        let t := i2c_recv_bytes.loop m count (bytes + 1) a.2
        (t.1, val :: t.2.1, t.2.2)
    else (bytes, [], r.2)

def i2c_recv_bytes (m : rt_i2c_msg) (w : W) : ℤ × List (BitVec 8) × W :=
  i2c_recv_bytes.loop L m m.len 0 w

/-- The address, sent again as long as it is refused. -/
def i2c_send_address (addr : BitVec 8) : ℕ → W → ℤ × W
  | 0, w => L.writeb addr w
  | retries + 1, w =>
    let r := L.writeb addr w
    if r.1 = 1 then r else i2c_send_address addr retries (L.start (L.stop r.2))

def i2c_bit_send_address (retries : ℕ) (m : rt_i2c_msg) (w : W) : ℤ × W :=
  let ignore_nack := m.has RT_I2C_IGNORE_NACK
  let retries := if ignore_nack then 0 else retries
  if m.has RT_I2C_ADDR_10BIT then
    let addr1 := (0xf0 ||| ((m.addr >>> 7) &&& 0x06)).setWidth 8
    let addr2 := m.addr.setWidth 8
    let r := i2c_send_address L addr1 retries w
    if r.1 ≠ 1 ∧ ignore_nack = false then (- RT_EIO, r.2)
    else
      let r := L.writeb addr2 r.2
      if r.1 ≠ 1 ∧ ignore_nack = false then (- RT_EIO, r.2)
      else if m.has RT_I2C_RD then
        let r := i2c_send_address L (addr1 ||| 1) retries (L.restart r.2)
        if r.1 ≠ 1 ∧ ignore_nack = false then (- RT_EIO, r.2) else (0, r.2)
      else (0, r.2)
  else
    let addr1 := m.addr.setWidth 8 <<< 1
    let addr1 := if m.has RT_I2C_RD then addr1 ||| 1 else addr1
    let r := i2c_send_address L addr1 retries w
    if r.1 ≠ 1 ∧ ignore_nack = false then (- RT_EIO, r.2) else (0, r.2)

/-- The start and the address of the `i`-th message. -/
def address (retries i : ℕ) (m : rt_i2c_msg) (w : W) : ℤ × W :=
  if m.has RT_I2C_NO_START then (0, w)
  else i2c_bit_send_address L retries m (if i ≠ 0 then L.restart w else L.start w)

/-- The bytes of a message: the error, if there is one, and what was read. -/
def body (m : rt_i2c_msg) (w : W) : Option ℤ × List (BitVec 8) × W :=
  if m.has RT_I2C_RD then
    let r := i2c_recv_bytes L m w
    (if r.1 < m.len then some (if 0 ≤ r.1 then - RT_EIO else r.1) else none, r.2)
  else
    let r := i2c_send_bytes L m w
    (if r.1 < m.len then some (if 0 ≤ r.1 then -RT_ERROR else r.1) else none, [], r.2)

def message (retries i : ℕ) (m : rt_i2c_msg) (w : W) : Option ℤ × List (BitVec 8) × W :=
  let r := address L retries i m w
  if r.1 ≠ 0 ∧ m.has RT_I2C_IGNORE_NACK = false then (some r.1, [], r.2) else body L m r.2

/-- The stop behind the last message. -/
def out (m : rt_i2c_msg) (w : W) : W := if m.has RT_I2C_NO_STOP then w else L.stop w

/-- The `i`-th message and those behind it, and the stop; with what each of them read. -/
def i2c_bit_xfer.loop (retries : ℕ) : ℕ → rt_i2c_msg → List rt_i2c_msg → W → ℤ × List (List (BitVec 8)) × W
  | i, m, [], w =>
    let r := message L retries i m w
    (r.1.getD (i + 1), [r.2.1], out L m r.2.2)
  | i, m, m' :: msgs, w =>
    let r := message L retries i m w
    match r.1 with
    | some ret => (ret, [r.2.1], out L m r.2.2)
    | none =>
      let t := i2c_bit_xfer.loop retries (i + 1) m' msgs r.2.2
      (t.1, r.2.1 :: t.2.1, t.2.2)

def i2c_bit_xfer (retries : ℕ) : List rt_i2c_msg → W → ℤ × List (List (BitVec 8)) × W
  | [], w => (0, [], w)
  | m :: msgs, w => i2c_bit_xfer.loop L retries 0 m msgs w

/-- The value that the bus returns is made unsigned. -/
def rt_i2c_transfer (retries : ℕ) (msgs : List rt_i2c_msg) (w : W) : BitVec 32 × List (List (BitVec 8)) × W :=
  let r := i2c_bit_xfer L retries msgs w
  (BitVec.ofInt 32 r.1, r.2)

def rt_i2c_master_send (retries : ℕ) (addr flags : BitVec 16) (buf : ℕ → BitVec 8) (count : BitVec 32)
    (w : W) : BitVec 32 × W :=
  let msg : rt_i2c_msg := ⟨addr, flags, (count.setWidth 16).toNat, buf⟩
  let r := rt_i2c_transfer L retries [msg] w
  (if 0 < r.1 then count else r.1, r.2.2)

def rt_i2c_master_recv (retries : ℕ) (addr flags : BitVec 16) (count : BitVec 32) (w : W) :
    BitVec 32 × List (BitVec 8) × W :=
  let msg : rt_i2c_msg := ⟨addr, flags ||| RT_I2C_RD, (count.setWidth 16).toNat, fun _ => 0⟩
  let r := rt_i2c_transfer L retries [msg] w
  (if 0 < r.1 then count else r.1, r.2.1.flatten, r.2.2)

/-- One transfer after the other. -/
def transfers (retries : ℕ) : List (List rt_i2c_msg) → W → List (ℤ × List (List (BitVec 8))) × W
  | [], w => ([], w)
  | msgs :: rest, w =>
    let r := i2c_bit_xfer L retries msgs w
    let t := transfers retries rest r.2.2
    ((r.1, r.2.1) :: t.1, t.2)

end Messages

/-! ### A byte on the pins -/

section Bytes

variable {δ : Type*} {B : TwoWire.Bus δ} {w : Wire δ} {s : Session δ} {d : δ}

theorem SCL_H_of_low {t : Slave δ} (hB : ∀ t, B.holds t = false) (h : Low w t) :
    SCL_H B w = (0, B.sclHigh w) := by
  rw [SCL_H, if_pos (h.sclHigh (hB t)).1.scl]

/-- A period of the clock with `b` on the data line. -/
theorem period {t : Slave δ} (hB : ∀ t, B.holds t = false) (h : Low w t) :
    (B.sclHigh w).line = (w.sda && t.out) ∧
      Low (B.sclLow (B.sclHigh w)) (t.next B.device (.bit (w.sda && t.out))) ∧
      (B.sclLow (B.sclHigh w)).sda = w.sda := by
  obtain ⟨hhigh, hsda⟩ := h.sclHigh (hB t)
  obtain ⟨hlow, hsda'⟩ := hhigh.sclLow (B := B)
  rw [hsda] at hlow hsda'
  exact ⟨by rw [Wire.line, hsda, hhigh.pull], hlow, hsda'⟩

theorem writeb_loop (hB : ∀ t, B.holds t = false) (data : BitVec 8) {n : ℕ} {w : Wire δ} {t : Slave δ}
    (h : Low (B.sclLow w) t) :
    (i2c_writeb.loop B data n w).1 = 0 ∧
      Low (B.sclLow (i2c_writeb.loop B data n w).2) (t.exchange B.device (bits data n)).2 := by
  induction n generalizing w t with
  | zero => exact ⟨rfl, h⟩
  | succ n ih =>
    obtain ⟨hlow, hsda⟩ := h.setSda (B := B) (data.getLsbD n)
    obtain ⟨-, hnext, -⟩ := period hB hlow
    rw [hsda] at hnext
    simp only [i2c_writeb.loop, SCL_H_of_low hB hlow, lt_irrefl, if_false]
    exact ih hnext

theorem waitack_spec {t : Slave δ} (hB : ∀ t, B.holds t = false) (h : Low w t) :
    (i2c_waitack B w).1 = (if t.out then 0 else 1) ∧
      Low (i2c_waitack B w).2 (t.next B.device (.bit t.out)) := by
  obtain ⟨hlow, hsda⟩ := h.setSda (B := B) true
  obtain ⟨hline, hnext, -⟩ := period hB hlow
  rw [hsda, Bool.true_and] at hline hnext
  simp only [i2c_waitack, SCL_H_of_low hB hlow, lt_irrefl, if_false, hline]
  refine ⟨?_, hnext⟩
  cases t.out <;> rfl

theorem writeb_bytes (hB : ∀ t, B.holds t = false) (v : BitVec 8) (h : Low w s.slave)
    (hs : s.Between ∨ s.mode = .address) :
    ((pins B).writeb v w).1 = ((bytes B.device).writeb v s).1 ∧
      Low ((pins B).writeb v w).2 ((bytes B.device).writeb v s).2.slave := by
  have hstart : Low (B.sclLow w) s.slave := by rwa [h.sclLow]
  obtain ⟨hret, hloop⟩ := writeb_loop hB v (n := 8) hstart
  obtain ⟨hack, hlow⟩ := waitack_spec hB hloop
  obtain ⟨hout, hnext⟩ := Session.write_slave B.device v hs
  rw [hnext] at hlow
  rw [hout] at hack
  have heq : (pins B).writeb v w = i2c_waitack B (B.sclLow (i2c_writeb.loop B v 8 w).2) := by
    change i2c_writeb B v w = _
    rw [i2c_writeb, hret]
    rfl
  rw [heq]
  refine ⟨hack.trans ?_, hlow⟩
  change _ = if (s.write B.device v).1 = true then 1 else 0
  cases (s.write B.device v).1 <;> rfl

/-- A bit behind the bits that have been read. -/
theorem shift_bit (n : ℕ) (b : Bool) :
    (if b then BitVec.ofNat 8 n <<< 1 ||| 1 else BitVec.ofNat 8 n <<< 1) =
      BitVec.ofNat 8 (2 * n + b.toNat) := by
  have hshift : BitVec.ofNat 8 n <<< 1 = BitVec.ofNat 8 (2 * n) := by
    apply BitVec.eq_of_toNat_eq
    rw [BitVec.toNat_shiftLeft, BitVec.toNat_ofNat, BitVec.toNat_ofNat, Nat.shiftLeft_eq]
    omega
  cases b
  · rw [hshift]
    rfl
  · have hodd : ∀ x : BitVec 8, x.getLsbD 0 = false → x ||| 1 = x + 1 := by decide
    have hbit : (BitVec.ofNat 8 n <<< 1).getLsbD 0 = false := by simp
    rw [if_pos rfl, hodd _ hbit, hshift]
    exact (BitVec.ofNat_add (2 * n) 1).symm

theorem readb_loop (hB : ∀ t, B.holds t = false) (n acc : ℕ) {w : Wire δ} {t : Slave δ} (h : Low w t)
    (hsda : w.sda = true) :
    (i2c_readb.loop B n (BitVec.ofNat 8 acc) w).1 =
        (BitVec.ofNat 8 (shiftIn acc (t.exchange B.device (List.replicate n true)).1)).toNat ∧
      Low (i2c_readb.loop B n (BitVec.ofNat 8 acc) w).2
        (t.exchange B.device (List.replicate n true)).2 ∧
      (i2c_readb.loop B n (BitVec.ofNat 8 acc) w).2.sda = true := by
  induction n generalizing w t acc with
  | zero => exact ⟨rfl, h, hsda⟩
  | succ n ih =>
    obtain ⟨hline, hnext, hsda'⟩ := period hB h
    rw [hsda, Bool.true_and] at hline hnext
    simp only [i2c_readb.loop, SCL_H_of_low hB h, lt_irrefl, if_false, hline, shift_bit,
      List.replicate_succ, Slave.exchange, Bool.true_and]
    exact ih _ hnext (hsda'.trans hsda)

theorem readb_bytes (hB : ∀ t, B.holds t = false) (h : Low w s.slave) (hs : s.Between) :
    ((pins B).readb w).1 = ((bytes B.device).readb s).1 ∧
      Low ((pins B).readb w).2 ((bytes B.device).readb s).2.slave ∧
      ((pins B).readb w).2.sda = true := by
  obtain ⟨hlow, hsda⟩ := h.setSda (B := B) true
  obtain ⟨hret, hlow', hsda'⟩ := readb_loop hB 8 0 hlow hsda
  obtain ⟨hval, hslave⟩ := Session.read_slave B.device hs
  rw [hval] at hret
  rw [hslave] at hlow'
  exact ⟨hret, hlow', hsda'⟩

theorem ack_bytes (hB : ∀ t, B.holds t = false) (n : ℕ) (h : Low w s.slave) (hsda : w.sda = true)
    (hs : s.Due) :
    ((pins B).ack n w).1 = ((bytes B.device).ack n s).1 ∧
      Low ((pins B).ack n w).2 ((bytes B.device).ack n s).2.slave := by
  have hline : ∃ w', (if n ≠ 0 then B.setSda false w else w) = w' ∧ Low w' s.slave ∧
      w'.sda = !decide (n ≠ 0) := by
    by_cases hn : n = 0
    · subst hn
      exact ⟨w, rfl, h, hsda⟩
    · obtain ⟨hlow, hsda'⟩ := h.setSda (B := B) false
      exact ⟨_, if_pos hn, hlow, by rw [hsda', decide_eq_true hn]; rfl⟩
  obtain ⟨w', heq, hlow, hsda'⟩ := hline
  obtain ⟨-, hnext, -⟩ := period hB hlow
  rw [hsda', (Session.ack_slave B.device (decide (n ≠ 0)) hs).1] at hnext
  have hval : (pins B).ack n w = (0, B.sclLow (B.sclHigh w')) := by
    change i2c_send_ack_or_nack B n w = _
    simp only [i2c_send_ack_or_nack, heq, SCL_H_of_low hB hlow, lt_irrefl, if_false]
  rw [hval]
  exact ⟨rfl, hnext⟩

theorem start_bytes (h : Free w d) : Low ((pins B).start w) ((bytes B.device).start ⟨.idle, d⟩).slave :=
  h.start

theorem restart_bytes (hB : ∀ t, B.holds t = false) (h : Low w s.slave) (hs : s.Quiet) :
    Low ((pins B).restart w) ((bytes B.device).restart s).slave := by
  have hrel := (h.setSda (B := B) true).1
  change Low (i2c_restart B w) _
  rw [i2c_restart, SCL_H_of_low hB hrel]
  exact h.restart hs.out (hB _)

theorem stop_bytes (hB : ∀ t, B.holds t = false) (h : Low w s.slave) (hs : s.Quiet) :
    Free ((pins B).stop w) ((bytes B.device).stop s).dev := by
  have hrel := (h.setSda (B := B) false).1
  change Free (i2c_stop B w) _
  rw [i2c_stop, SCL_H_of_low hB hrel]
  exact h.stop hs.out (hB _)

end Bytes

/-! ### Messages on the pins -/

section Pins

variable {δ : Type*} {B : TwoWire.Bus δ} {w : Wire δ} {s : Session δ} {d : δ}

/-- The address has been sent; `ok` is the value for a device that accepts it. -/
structure Addressed (ok : ℤ) (rd : Bool) (r : ℤ × Wire δ) (t : ℤ × Session δ) : Prop where
  ret : r.1 = t.1
  low : Low r.2 t.2.slave
  between : t.2.Between
  quiet : t.1 ≠ ok ∨ rd = false → t.2.Quiet

theorem addressed_writeb (hB : ∀ t, B.holds t = false) (v : BitVec 8) (h : Low w s.slave)
    (hs : s.mode = .address ∨ s.Quiet) :
    Addressed 1 (v.getLsbD 0) ((pins B).writeb v w) ((bytes B.device).writeb v s) where
  ret := (writeb_bytes hB v h (hs.symm.imp_left .inl)).1
  low := (writeb_bytes hB v h (hs.symm.imp_left .inl)).2
  between := Session.write_between B.device v s
  quiet := by
    rintro (hret | hrd)
    · refine Session.write_quiet B.device v (.inl ?_)
      by_contra hack
      exact hret (if_pos (Bool.not_eq_false _ ▸ hack))
    · exact Session.write_quiet B.device v (.inr (.inl hrd))

theorem quiet_writeb (v : BitVec 8) (hs : s.Quiet) : ((bytes B.device).writeb v s).2.Quiet :=
  Session.write_quiet B.device v (.inr (.inr hs.not_address))

/-- An address that is refused is sent again behind a stop and a start. -/
theorem send_address_bytes (hB : ∀ t, B.holds t = false) (addr : BitVec 8) (retries : ℕ) {w : Wire δ}
    {s : Session δ} (h : Low w s.slave) (hs : s.mode = .address) :
    Addressed 1 (addr.getLsbD 0) (i2c_send_address (pins B) addr retries w)
      (i2c_send_address (bytes B.device) addr retries s) := by
  induction retries generalizing w s with
  | zero => exact addressed_writeb hB addr h (.inl hs)
  | succ retries ih =>
    have hw := addressed_writeb hB addr h (.inl hs)
    simp only [i2c_send_address, hw.ret]
    by_cases hret : ((bytes B.device).writeb addr s).1 = 1
    · rw [if_pos hret, if_pos hret]
      exact hw
    · rw [if_neg hret, if_neg hret]
      exact ih (start_bytes (stop_bytes hB hw.low (hw.quiet (.inl hret)))) rfl

/-- The answer to an address, unless it does not matter. -/
theorem Addressed.checked {rd : Bool} {r : ℤ × Wire δ} {t : ℤ × Session δ} (h : Addressed 1 rd r t)
    (ignore_nack : Bool) :
    Addressed 0 rd (if r.1 ≠ 1 ∧ ignore_nack = false then (- RT_EIO, r.2) else (0, r.2))
      (if t.1 ≠ 1 ∧ ignore_nack = false then (- RT_EIO, t.2) else (0, t.2)) := by
  rw [h.ret]
  by_cases hc : t.1 ≠ 1 ∧ ignore_nack = false
  · rw [if_pos hc, if_pos hc]
    exact ⟨rfl, h.low, h.between, fun _ => h.quiet (.inl hc.1)⟩
  · rw [if_neg hc, if_neg hc]
    exact ⟨rfl, h.low, h.between, fun hq => h.quiet (.inr (hq.resolve_left fun hne => hne rfl))⟩

theorem addr1_even (a : BitVec 16) :
    ((0xf0 ||| ((a >>> 7) &&& 0x06)).setWidth 8 : BitVec 8).getLsbD 0 = false := by
  simp

theorem bit_send_address_bytes (hB : ∀ t, B.holds t = false) (retries : ℕ) (m : rt_i2c_msg)
    (h : Low w s.slave) (hs : s.mode = .address) :
    Addressed 0 (m.has RT_I2C_RD) (i2c_bit_send_address (pins B) retries m w)
      (i2c_bit_send_address (bytes B.device) retries m s) := by
  simp only [i2c_bit_send_address]
  generalize (if m.has RT_I2C_IGNORE_NACK = true then 0 else retries) = retries
  by_cases h10 : m.has RT_I2C_ADDR_10BIT = true
  · rw [if_pos h10, if_pos h10]
    have hfirst := send_address_bytes hB ((0xf0 ||| ((m.addr >>> 7) &&& 0x06)).setWidth 8)
      retries h hs
    rw [addr1_even] at hfirst
    generalize i2c_send_address (pins B) _ retries w = r at hfirst
    generalize i2c_send_address (bytes B.device) _ retries s = t at hfirst
    rw [hfirst.ret]
    by_cases hnack : t.1 ≠ 1 ∧ m.has RT_I2C_IGNORE_NACK = false
    · rw [if_pos hnack, if_pos hnack]
      exact ⟨rfl, hfirst.low, hfirst.between, fun _ => hfirst.quiet (.inr rfl)⟩
    rw [if_neg hnack, if_neg hnack]
    have hq : t.2.Quiet := hfirst.quiet (.inr rfl)
    have hsecond := addressed_writeb hB (m.addr.setWidth 8) hfirst.low (.inr hq)
    have hq' := quiet_writeb (B := B) (m.addr.setWidth 8) hq
    generalize (pins B).writeb (m.addr.setWidth 8) r.2 = r' at hsecond
    generalize (bytes B.device).writeb (m.addr.setWidth 8) t.2 = t' at hsecond hq'
    rw [hsecond.ret]
    by_cases hnack' : t'.1 ≠ 1 ∧ m.has RT_I2C_IGNORE_NACK = false
    · rw [if_pos hnack', if_pos hnack']
      exact ⟨rfl, hsecond.low, hsecond.between, fun _ => hq'⟩
    rw [if_neg hnack', if_neg hnack']
    cases hrd : m.has RT_I2C_RD
    · exact ⟨rfl, hsecond.low, hsecond.between, fun _ => hq'⟩
    · have hthird := send_address_bytes hB
        ((0xf0 ||| ((m.addr >>> 7) &&& 0x06)).setWidth 8 ||| 1) retries
        (restart_bytes hB hsecond.low hq') rfl
      exact ⟨(hthird.checked _).ret, (hthird.checked _).low, (hthird.checked _).between,
        fun hc => (hthird.checked _).quiet (.inl (hc.resolve_right Bool.noConfusion))⟩
  · rw [if_neg h10, if_neg h10]
    cases hrd : m.has RT_I2C_RD
    · have haddr := send_address_bytes hB (m.addr.setWidth 8 <<< 1) retries h hs
      rw [show (m.addr.setWidth 8 <<< 1 : BitVec 8).getLsbD 0 = false by simp] at haddr
      exact haddr.checked _
    · have haddr := (send_address_bytes hB (m.addr.setWidth 8 <<< 1 ||| 1) retries h
        hs).checked (m.has RT_I2C_IGNORE_NACK)
      exact ⟨haddr.ret, haddr.low, haddr.between,
        fun hc => haddr.quiet (.inl (hc.resolve_right Bool.noConfusion))⟩

/-- A message has started, and its address has been sent. -/
theorem address_bytes (hB : ∀ t, B.holds t = false) (retries : ℕ) {i : ℕ} (m : rt_i2c_msg)
    (h : (i = 0 ∧ m.has RT_I2C_NO_START = false ∧ Free w s.dev ∧ s.mode = .idle) ∨
      (i ≠ 0 ∧ Low w s.slave ∧ s.Quiet)) :
    Addressed 0 (m.has RT_I2C_RD) (address (pins B) retries i m w)
      (address (bytes B.device) retries i m s) := by
  rcases h with ⟨rfl, hstart, hfree, -⟩ | ⟨hi, hlow, hq⟩
  · simp only [address, hstart, Bool.false_eq_true, if_false, ne_eq, not_true_eq_false]
    exact bit_send_address_bytes hB retries m hfree.start rfl
  · simp only [address, if_pos hi]
    cases m.has RT_I2C_NO_START
    · exact bit_send_address_bytes hB retries m (restart_bytes hB hlow hq) rfl
    · exact ⟨rfl, hlow, .inl hq, fun _ => hq⟩

theorem send_bytes_loop (hB : ∀ t, B.holds t = false) (m : rt_i2c_msg) (count k : ℕ) {w : Wire δ}
    {s : Session δ} (h : Low w s.slave) (hs : s.Quiet) :
    (i2c_send_bytes.loop (pins B) m count k w).1 = (i2c_send_bytes.loop (bytes B.device) m count k s).1 ∧
      Low (i2c_send_bytes.loop (pins B) m count k w).2
        (i2c_send_bytes.loop (bytes B.device) m count k s).2.slave ∧
      (i2c_send_bytes.loop (bytes B.device) m count k s).2.Quiet := by
  induction count generalizing k w s with
  | zero => exact ⟨rfl, h, hs⟩
  | succ count ih =>
    have hw := addressed_writeb hB (m.buf k) h (.inr hs)
    have hq := quiet_writeb (B := B) (m.buf k) hs
    simp only [i2c_send_bytes.loop, hw.ret]
    split_ifs
    · exact ih _ hw.low hq
    · exact ⟨rfl, hw.low, hq⟩
    · exact ⟨hw.ret, hw.low, hq⟩

theorem recv_bytes_loop (hB : ∀ t, B.holds t = false) {m : rt_i2c_msg}
    (hack : m.has RT_I2C_NO_READ_ACK = false) (count k : ℕ) {w : Wire δ} {s : Session δ}
    (h : Low w s.slave) (hs : s.Between) (hcount : 0 < count ∨ s.Quiet) :
    let r := i2c_recv_bytes.loop (pins B) m count k w
    let t := i2c_recv_bytes.loop (bytes B.device) m count k s
    r.1 = t.1 ∧ r.2.1 = t.2.1 ∧ Low r.2.2 t.2.2.slave ∧ t.2.2.Quiet := by
  induction count generalizing k w s with
  | zero => exact ⟨rfl, rfl, h, hcount.resolve_left (lt_irrefl 0)⟩
  | succ count ih =>
    obtain ⟨hret, hlow, hsda⟩ := readb_bytes hB h hs
    have hdue := Session.read_due B.device hs
    have hval : (0 : ℤ) ≤ ((bytes B.device).readb s).1 := Int.natCast_nonneg _
    obtain ⟨haret, halow⟩ := ack_bytes hB count hlow hsda hdue
    obtain ⟨-, hbetween, hquiet⟩ := Session.ack_slave B.device (decide (count ≠ 0)) hdue
    have hzero : ((bytes B.device).ack count ((bytes B.device).readb s).2).1 = 0 := rfl
    simp only [i2c_recv_bytes.loop, hret, hval, hack, haret, hzero, if_true, Bool.false_eq_true,
      if_false, lt_irrefl]
    have hnext : 0 < count ∨ ((bytes B.device).ack count ((bytes B.device).readb s).2).2.Quiet := by
      rcases Nat.eq_zero_or_pos count with rfl | hpos
      · exact .inr (hquiet rfl)
      · exact .inl hpos
    obtain ⟨hret', hread, hlow', hq⟩ := ih (k + 1) halow hbetween hnext
    exact ⟨hret', congrArg _ hread, hlow', hq⟩

/-- Same error, same bytes, and the device is where the pins left it. -/
structure Same (r : Option ℤ × List (BitVec 8) × Wire δ) (t : Option ℤ × List (BitVec 8) × Session δ) :
    Prop where
  ret : r.1 = t.1
  read : r.2.1 = t.2.1
  low : Low r.2.2 t.2.2.slave
  quiet : t.2.2.Quiet

/-- Messages that the two wires can carry: what is read is acknowledged and not empty, the first begins
with a start, and all end with a stop. -/
structure Plain (m : rt_i2c_msg) : Prop where
  acks : m.has RT_I2C_NO_READ_ACK = false
  stops : m.has RT_I2C_NO_STOP = false
  reads : m.has RT_I2C_RD = true → 0 < m.len

theorem body_bytes (hB : ∀ t, B.holds t = false) {m : rt_i2c_msg} (hm : Plain m) (h : Low w s.slave)
    (hs : s.Between) (hq : m.has RT_I2C_RD = false → s.Quiet) :
    Same (body (pins B) m w) (body (bytes B.device) m s) := by
  simp only [body]
  cases hrd : m.has RT_I2C_RD
  · obtain ⟨hret, hlow, hquiet⟩ := send_bytes_loop hB m m.len 0 h (hq hrd)
    change (i2c_send_bytes _ m w).1 = (i2c_send_bytes _ m s).1 at hret
    simp only [Bool.false_eq_true, if_false, hret]
    exact ⟨rfl, rfl, hlow, hquiet⟩
  · obtain ⟨hret, hread, hlow, hquiet⟩ := recv_bytes_loop hB hm.acks m.len 0 h hs
      (.inl (hm.reads hrd))
    change (i2c_recv_bytes _ m w).1 = (i2c_recv_bytes _ m s).1 at hret
    simp only [if_true, hret]
    exact ⟨rfl, hread, hlow, hquiet⟩

theorem message_bytes (hB : ∀ t, B.holds t = false) (retries : ℕ) {i : ℕ} {m : rt_i2c_msg} (hm : Plain m)
    (h : (i = 0 ∧ m.has RT_I2C_NO_START = false ∧ Free w s.dev ∧ s.mode = .idle) ∨
      (i ≠ 0 ∧ Low w s.slave ∧ s.Quiet)) :
    Same (message (pins B) retries i m w) (message (bytes B.device) retries i m s) := by
  have ha := address_bytes hB retries m h
  simp only [message, ha.ret]
  split_ifs with hc
  · exact ⟨rfl, rfl, ha.low, ha.quiet (.inl hc.1)⟩
  · exact body_bytes hB hm ha.low ha.between fun hrd => ha.quiet (.inr hrd)

theorem out_bytes (hB : ∀ t, B.holds t = false) {m : rt_i2c_msg} (hm : Plain m)
    {r : Option ℤ × List (BitVec 8) × Wire δ} {t : Option ℤ × List (BitVec 8) × Session δ} (h : Same r t) :
    Free (out (pins B) m r.2.2) (out (bytes B.device) m t.2.2).dev ∧
      (out (bytes B.device) m t.2.2).mode = .idle := by
  simp only [out, hm.stops, Bool.false_eq_true, if_false]
  exact ⟨stop_bytes hB h.low h.quiet, rfl⟩

theorem loop_bytes (hB : ∀ t, B.holds t = false) (retries : ℕ) {msgs : List rt_i2c_msg} {i : ℕ}
    {m : rt_i2c_msg} {w : Wire δ} {s : Session δ} (hm : ∀ m' ∈ m :: msgs, Plain m')
    (h : (i = 0 ∧ m.has RT_I2C_NO_START = false ∧ Free w s.dev ∧ s.mode = .idle) ∨
      (i ≠ 0 ∧ Low w s.slave ∧ s.Quiet)) :
    let r := i2c_bit_xfer.loop (pins B) retries i m msgs w
    let t := i2c_bit_xfer.loop (bytes B.device) retries i m msgs s
    r.1 = t.1 ∧ r.2.1 = t.2.1 ∧ Free r.2.2 t.2.2.dev ∧ t.2.2.mode = .idle := by
  induction msgs generalizing i m w s with
  | nil =>
    have hplain := hm m List.mem_cons_self
    have hmsg := message_bytes hB retries hplain h
    have hout := out_bytes hB hplain hmsg
    simp only [i2c_bit_xfer.loop, hmsg.ret, hmsg.read]
    exact ⟨trivial, trivial, hout⟩
  | cons m' msgs ih =>
    have hplain := hm m List.mem_cons_self
    have hmsg := message_bytes hB retries hplain h
    have hout := out_bytes hB hplain hmsg
    simp only [i2c_bit_xfer.loop, hmsg.ret, hmsg.read]
    cases (message (bytes B.device) retries i m s).1 with
    | some ret => exact ⟨rfl, rfl, hout⟩
    | none =>
      obtain ⟨hret, hread, hfree, hidle⟩ := ih (i := i + 1)
        (fun m'' hm'' => hm m'' (List.mem_cons_of_mem m hm''))
        (.inr ⟨Nat.succ_ne_zero i, hmsg.low, hmsg.quiet⟩)
      exact ⟨hret, congrArg _ hread, hfree, hidle⟩

/-- One transfer, from a free bus to a free bus. -/
theorem xfer_bytes (hB : ∀ t, B.holds t = false) (retries : ℕ) {msgs : List rt_i2c_msg}
    (hm : ∀ m ∈ msgs, Plain m) (hstart : ∀ m ∈ msgs.head?, m.has RT_I2C_NO_START = false)
    (h : Free w d) :
    let r := i2c_bit_xfer (pins B) retries msgs w
    let t := i2c_bit_xfer (bytes B.device) retries msgs ⟨.idle, d⟩
    r.1 = t.1 ∧ r.2.1 = t.2.1 ∧ Free r.2.2 t.2.2.dev ∧ t.2.2.mode = .idle := by
  cases msgs with
  | nil => exact ⟨rfl, rfl, h, rfl⟩
  | cons m msgs =>
    exact loop_bytes hB retries hm (.inl ⟨rfl, hstart m rfl, h, rfl⟩)

/-- **Over the pins a run of transfers is what it is over whole bytes**: the values returned and the bytes
read, and what the device is told; and the bus is free again. -/
theorem transfers_bytes (B : TwoWire.Bus δ) (hB : ∀ t, B.holds t = false) (retries : ℕ)
    (runs : List (List rt_i2c_msg)) (hm : ∀ msgs ∈ runs, ∀ m ∈ msgs, Plain m)
    (hstart : ∀ msgs ∈ runs, ∀ m ∈ msgs.head?, m.has RT_I2C_NO_START = false) {w : Wire δ} {d : δ}
    (h : Free w d) :
    let r := transfers (pins B) retries runs w
    let t := transfers (bytes B.device) retries runs ⟨.idle, d⟩
    r.1 = t.1 ∧ Free r.2 t.2.dev ∧ t.2.mode = .idle := by
  induction runs generalizing w d with
  | nil => exact ⟨rfl, h, rfl⟩
  | cons msgs rest ih =>
    obtain ⟨hret, hread, hfree, hidle⟩ := xfer_bytes hB retries (hm msgs List.mem_cons_self)
      (hstart msgs List.mem_cons_self) h
    simp only [transfers]
    generalize i2c_bit_xfer (pins B) retries msgs w = r at hret hread hfree
    obtain ⟨ret, read, w'⟩ := r
    generalize i2c_bit_xfer (bytes B.device) retries msgs ⟨.idle, d⟩ = t at hret hread hfree hidle
    obtain ⟨ret', read', mode, d'⟩ := t
    cases hidle
    cases hret
    cases hread
    obtain ⟨hrest, hfree', hidle'⟩ := ih (fun msgs' hin => hm msgs' (List.mem_cons_of_mem msgs hin))
      (fun msgs' hin => hstart msgs' (List.mem_cons_of_mem msgs hin)) hfree
    exact ⟨congrArg _ hrest, hfree', hidle'⟩

/-- A memory of one byte at the address 0x50. -/
def cell : TwoWire.Bus (BitVec 8) where
  device :=
    { start := id
      address := fun d byte => (byte >>> 1 == 0x50, d)
      write := fun _ byte => (true, byte)
      read := fun d => (d, d)
      stop := id }
  holds _ := false

/-- Both lines are high. -/
def released {δ : Type*} (d : δ) : Wire δ := ⟨true, true, true, false, ⟨.idle, d⟩⟩

theorem free_released {δ : Type*} (d : δ) : Free (released d) d := ⟨rfl, rfl, rfl, rfl⟩

/-- A byte is written and read back, and nobody answers at another address. -/
theorem transfers_bytes_cell :
    (transfers (pins cell) 0 [[⟨0x50, 0, 1, fun _ => 7⟩],
      [⟨0x50, RT_I2C_RD, 1, fun _ => 0⟩, ⟨0x51, 0, 1, fun _ => 9⟩]] (released 0)).1 =
        [(1, [[]]), (- RT_EIO, [[7], []])] :=
  (transfers_bytes cell (fun _ => rfl) 0 _ (by
    intro msgs hmsgs m hm
    simp only [List.mem_cons, List.not_mem_nil, or_false] at hmsgs
    rcases hmsgs with rfl | rfl <;> simp only [List.mem_cons, List.not_mem_nil, or_false] at hm
    · subst hm
      exact ⟨rfl, rfl, fun h => absurd h (by decide)⟩
    · rcases hm with rfl | rfl
      · exact ⟨rfl, rfl, fun _ => Nat.one_pos⟩
      · exact ⟨rfl, rfl, fun h => absurd h (by decide)⟩) (by
    intro msgs hmsgs m hm
    simp only [List.mem_cons, List.not_mem_nil, or_false] at hmsgs
    rcases hmsgs with rfl | rfl <;> cases hm <;> rfl) (free_released 0)).1.trans rfl

/-! ### A device that sends when the driver starts -/

theorem unlock_loop (hB : ∀ t, B.holds t = false) {n : ℕ} {w : Wire δ} {t : Slave δ} (h : Low w t)
    (hsda : w.sda = true) :
    Low (nu_soft_i2c_bus_unlock.loop B n w) (t.exchange B.device (List.replicate n true)).2 ∧
      (nu_soft_i2c_bus_unlock.loop B n w).sda = true := by
  induction n generalizing w t with
  | zero => exact ⟨h, hsda⟩
  | succ n ih =>
    obtain ⟨-, hnext, hsda'⟩ := period hB h
    rw [hsda] at hnext
    exact ih hnext (hsda'.trans hsda)

/-- Nine clocks, and the device has let go of the line; the last of them leaves the clock low. -/
theorem unlock_spec (hB : ∀ t, B.holds t = false) {v : BitVec 8} {n : ℕ}
    (h : High w ⟨.reading v n, d⟩) (hsda : w.sda = true) (hn : n < 8) (hv : v.getMsbD n = false) :
    (nu_soft_i2c_bus_unlock B w).1 = 0 ∧ Low (nu_soft_i2c_bus_unlock B w).2 ⟨.idle, d⟩ := by
  have hline : w.line = false := by
    rw [Wire.line, hsda, h.pull]
    exact hv
  have hfirst : B.sclHigh w = w := if_pos (.inl h.scl)
  obtain ⟨hlow, hsda'⟩ := h.sclLow (B := B)
  rw [hsda] at hlow hsda'
  obtain ⟨hloop, hreleased⟩ := unlock_loop hB (n := 8) hlow hsda'
  have hnine : Low (nu_soft_i2c_bus_unlock.loop B 9 w) ⟨.idle, d⟩ := by
    rw [nu_soft_i2c_bus_unlock.loop, hfirst, ← exchange_nine (D := B.device) (v := v) hn]
    exact hloop
  have hfree : (nu_soft_i2c_bus_unlock.loop B 9 w).line = true := by
    rw [Wire.line, hnine.pull, nu_soft_i2c_bus_unlock.loop, hfirst, hreleased]
    rfl
  simp only [nu_soft_i2c_bus_unlock, hline, if_true, hfree]
  exact ⟨rfl, hnine⟩

/-- An address that nobody accepts ends the message, if it is sent once. -/
theorem send_address_refused {W : Type*} {L : Line W} {w : W} {m : rt_i2c_msg}
    (hnack : m.has RT_I2C_IGNORE_NACK = false) (h : ∀ addr, (L.writeb addr w).1 ≠ 1) :
    ∃ addr, i2c_bit_send_address L 0 m w = (- RT_EIO, (L.writeb addr w).2) := by
  simp only [i2c_bit_send_address, hnack, Bool.false_eq_true, if_false, i2c_send_address]
  by_cases h10 : m.has RT_I2C_ADDR_10BIT = true
  · rw [if_pos h10, if_pos ⟨h _, trivial⟩]
    exact ⟨_, rfl⟩
  · rw [if_neg h10, if_pos ⟨h _, trivial⟩]
    exact ⟨_, rfl⟩

theorem writeb_loop_ret (data : BitVec 8) (n : ℕ) (w : Wire δ) :
    (i2c_writeb.loop B data n w).1 = 0 ∨ (i2c_writeb.loop B data n w).1 = -RT_ETIMEOUT := by
  induction n generalizing w with
  | zero => exact .inl rfl
  | succ n ih =>
    rw [i2c_writeb.loop]
    split_ifs
    · exact .inr rfl
    · exact ih _

theorem writeb_ret (data : BitVec 8) (w : Wire δ) :
    0 ≤ ((pins B).writeb data w).1 ∨ ((pins B).writeb data w).1 = -RT_ETIMEOUT := by
  change 0 ≤ (i2c_writeb B data w).1 ∨ (i2c_writeb B data w).1 = _
  rw [i2c_writeb]
  split_ifs
  · exact (writeb_loop_ret data 8 w).imp_left fun h => h.ge
  · rw [i2c_waitack]
    split_ifs
    · exact .inr rfl
    · left
      simp only
      split_ifs
      · exact Int.one_nonneg
      · exact le_rfl

theorem ack_ret (n : ℕ) (w : Wire δ) :
    0 ≤ ((pins B).ack n w).1 ∨ ((pins B).ack n w).1 = -RT_ETIMEOUT := by
  change 0 ≤ (i2c_send_ack_or_nack B n w).1 ∨ (i2c_send_ack_or_nack B n w).1 = _
  simp only [i2c_send_ack_or_nack]
  generalize (if n ≠ 0 then B.setSda false w else w) = w'
  split_ifs
  · exact .inr rfl
  · exact .inl le_rfl

theorem send_loop_ret (m : rt_i2c_msg) (count k : ℕ) (w : Wire δ) :
    0 ≤ (i2c_send_bytes.loop (pins B) m count k w).1 ∨
      (i2c_send_bytes.loop (pins B) m count k w).1 = -RT_ETIMEOUT := by
  induction count generalizing k w with
  | zero => exact .inl (Int.natCast_nonneg k)
  | succ count ih =>
    rw [i2c_send_bytes.loop]
    split_ifs
    · exact ih _ _
    · exact .inl le_rfl
    · exact writeb_ret _ _

theorem recv_loop_ret (m : rt_i2c_msg) (count k : ℕ) (w : Wire δ) :
    0 ≤ (i2c_recv_bytes.loop (pins B) m count k w).1 ∨
      (i2c_recv_bytes.loop (pins B) m count k w).1 = -RT_ETIMEOUT := by
  induction count generalizing k w with
  | zero => exact .inl (Int.natCast_nonneg k)
  | succ count ih =>
    rw [i2c_recv_bytes.loop]
    cases m.has RT_I2C_NO_READ_ACK
    · simp only [Bool.false_eq_true, if_false]
      split_ifs with _ hneg
      · exact .inr ((ack_ret count _).resolve_left (not_le_of_gt hneg))
      · exact ih _ _
      · exact .inl (Int.natCast_nonneg k)
    · simp only [if_true, lt_irrefl, if_false]
      split_ifs
      · exact ih _ _
      · exact .inl (Int.natCast_nonneg k)

/-- What a transfer of one message can return. -/
def Told (ret : ℤ) : Prop := ret = 1 ∨ ret = -RT_ERROR ∨ ret = -RT_ETIMEOUT ∨ ret = - RT_EIO

theorem body_ret (m : rt_i2c_msg) (w : Wire δ) : ∀ ret ∈ (body (pins B) m w).1, Told ret := by
  intro ret hret
  rw [body] at hret
  split_ifs at hret with hrd
  · change ret ∈ (if (i2c_recv_bytes.loop (pins B) m m.len 0 w).1 < m.len then
      some (if 0 ≤ (i2c_recv_bytes.loop (pins B) m m.len 0 w).1 then - RT_EIO
        else (i2c_recv_bytes.loop (pins B) m m.len 0 w).1) else none) at hret
    split_ifs at hret with _ hneg
    · cases hret
      exact .inr (.inr (.inr rfl))
    · cases hret
      exact .inr (.inr (.inl ((recv_loop_ret m m.len 0 w).resolve_left hneg)))
    · cases hret
  · change ret ∈ (if (i2c_send_bytes.loop (pins B) m m.len 0 w).1 < m.len then
      some (if 0 ≤ (i2c_send_bytes.loop (pins B) m m.len 0 w).1 then -RT_ERROR
        else (i2c_send_bytes.loop (pins B) m m.len 0 w).1) else none) at hret
    split_ifs at hret with _ hneg
    · cases hret
      exact .inr (.inl rfl)
    · cases hret
      exact .inr (.inr (.inl ((send_loop_ret m m.len 0 w).resolve_left hneg)))
    · cases hret

theorem address_ret {W : Type*} (L : Line W) (retries i : ℕ) (m : rt_i2c_msg) (w : W) :
    (address L retries i m w).1 = 0 ∨ (address L retries i m w).1 = - RT_EIO := by
  simp only [address, i2c_bit_send_address]
  split_ifs <;> first | exact .inl rfl | exact .inr rfl

theorem xfer_ret (retries : ℕ) (m : rt_i2c_msg) (w : Wire δ) :
    Told (i2c_bit_xfer (pins B) retries [m] w).1 := by
  change Told ((message (pins B) retries 0 m w).1.getD (0 + 1))
  rw [message]
  split_ifs with hc
  · exact .inr (.inr (.inr ((address_ret _ retries 0 m w).resolve_left hc.1)))
  · have hbody := body_ret (B := B) m (address (pins B) retries 0 m w).2
    cases hret : (body (pins B) m (address (pins B) retries 0 m w).2).1 with
    | none => exact .inl rfl
    | some ret => exact hbody ret hret

theorem Told.unsigned_pos {ret : ℤ} (h : Told ret) : 0 < BitVec.ofInt 32 ret := by
  rcases h with rfl | rfl | rfl | rfl <;> decide

/-- **A caller is always told that all went well**: the error of a transfer is positive once it is
unsigned. -/
theorem master_returns_count (B : TwoWire.Bus δ) (retries : ℕ) (addr flags : BitVec 16)
    (buf : ℕ → BitVec 8) (count : BitVec 32) (w : Wire δ) :
    (rt_i2c_master_send (pins B) retries addr flags buf count w).1 = count ∧
      (rt_i2c_master_recv (pins B) retries addr flags count w).1 = count :=
  ⟨if_pos (xfer_ret retries _ w).unsigned_pos, if_pos (xfer_ret retries _ w).unsigned_pos⟩

end Pins

end I2c.BitOps
