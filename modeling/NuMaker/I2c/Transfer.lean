/-
The master transfer of the three I2C drivers.

They are near-copies of one function: it sends a START, goes through the messages (a repeated
START, the address, the bytes) and sends a STOP.  An error in the bytes of a message sets the
index back and leaves the loop over the bytes alone, so that the loop over the messages goes on:

* **`nu_mst_xfer`** — the transfer over a port;
* **`nu_i2c_mst_xfer`**, **`nu_lpi2c_mst_xfer`**, **`nu_ui2c_mst_xfer`** — the three drivers'.
-/
import NuMaker.I2c.Controller

namespace I2c

/-! ### Messages -/

def RT_I2C_RD : BitVec 16 := 1 <<< 0
def RT_I2C_ADDR_10BIT : BitVec 16 := 1 <<< 2
def RT_I2C_NO_START : BitVec 16 := 1 <<< 4
def RT_I2C_IGNORE_NACK : BitVec 16 := 1 <<< 5

/-- A message, with the bytes to send.  (Bytes received are kept apart: no buffer serves both.) -/
structure rt_i2c_msg where
  addr : BitVec 16
  flags : BitVec 16
  len : ℕ
  buf : ℕ → BitVec 8

def rt_i2c_msg.has (m : rt_i2c_msg) (flag : BitVec 16) : Bool := m.flags &&& flag ≠ 0

/-- The behaviour of the bus: its replies and the bytes it delivers, given all that has happened
so far. -/
structure Bus where
  reply : List (Slot × Reply) → Slot → Reply
  data : List (Slot × Reply) → BitVec 8

/-- The controller, what has happened on the bus, and the bytes received. -/
structure State (p : Port) where
  hw : p.State
  log : List (Slot × Reply)
  received : ℕ → ℕ → BitVec 8

variable (p : Port) (bus : Bus)

/-- Starts an operation, waits for its flag and looks at what came of it. -/
def issue (s : State p) (slot : Slot) : Outcome × State p :=
  let r := bus.reply s.log slot
  ((p.op s.hw slot r).1, { s with hw := (p.op s.hw slot r).2, log := s.log ++ [(slot, r)] })

/-! ### The address -/

/-- The operations of an address, unless it is refused. -/
def addrSlots (i : ℕ) (m : rt_i2c_msg) : Option (List Slot) :=
  let ignore_nack := m.has RT_I2C_IGNORE_NACK
  let rd := m.has RT_I2C_RD
  if m.has RT_I2C_ADDR_10BIT then
    p.addr10.map fun first =>
      let addr1 := first m.addr
      let addr2 := m.addr.setWidth 8
      [.addr i 0 addr1 false ignore_nack, .addr i 1 addr2 false ignore_nack] ++
        if rd then [.again i ignore_nack, .addr i 2 (addr1 ||| 1) true ignore_nack] else []
  else
    let addr1 := (m.addr <<< 1).setWidth 8 ||| if rd then 1 else 0
    some [.addr i 0 addr1 rd ignore_nack]

/-- One after the other: a time-out ends it, and so does a NACK that is not ignored. -/
def sendSlots (ignore_nack : Bool) : List Slot → State p → Bool × State p
  | [], s => (true, s)
  | slot :: rest, s =>
    match issue p bus s slot with
    | (.timeout, s') => (false, s')
    | (.bad, s') => if ignore_nack then sendSlots ignore_nack rest s' else (false, s')
    | (.ok, s') => sendSlots ignore_nack rest s'

/-- `nu_i2c_send_address`: is it `RT_EOK`? -/
def nu_send_address (i : ℕ) (m : rt_i2c_msg) (s : State p) : Bool × State p :=
  match addrSlots p i m with
  | none => (false, s)
  | some slots => sendSlots p bus (m.has RT_I2C_IGNORE_NACK) slots s

/-! ### The bytes -/

/-- The loop that sends the bytes from `cnt_data` on, so many of them.  An error sets the index
back to 0. -/
def sendBytes (i : ℕ) (m : rt_i2c_msg) : ℕ → ℕ → State p → ℕ × State p
  | 0, _, s => (i, s)
  | left + 1, cnt_data, s =>
    match issue p bus s (.write i cnt_data (m.buf cnt_data) (m.has RT_I2C_IGNORE_NACK)) with
    | (.timeout, s') => (i, s')
    | (.bad, s') =>
      if m.has RT_I2C_IGNORE_NACK then sendBytes i m left (cnt_data + 1) s' else (0, s')
    | (.ok, s') => sendBytes i m left (cnt_data + 1) s'

/-- A byte stored. -/
def State.store {p : Port} (s : State p) (i k : ℕ) (byte : BitVec 8) : State p :=
  { s with received := Function.update s.received i (Function.update (s.received i) k byte) }

/-- The loop that receives. -/
def receiveBytes (num i : ℕ) (m : rt_i2c_msg) : ℕ → ℕ → State p → ℕ × State p
  | 0, _, s => (i, s)
  | left + 1, cnt_data, s =>
    -- the last byte of the last message
    let do_rd_nack := (if i = num - 1 then 1 else 0) + (if cnt_data = m.len - 1 then 1 else 0)
    match issue p bus s (.read i cnt_data (do_rd_nack ≠ 2)) with
    | (.timeout, s') => (i, s')
    | (.bad, s') => (0, s')
    | (.ok, s') =>
      receiveBytes num i m left (cnt_data + 1) (s'.store i cnt_data (bus.data s'.log))

/-- The bytes of a message, and the index they leave. -/
def moveBytes (num i : ℕ) (m : rt_i2c_msg) (s : State p) : ℕ × State p :=
  if m.has RT_I2C_RD then receiveBytes p bus num i m m.len 0 s
  else sendBytes p bus i m m.len 0 s

/-! ### The messages -/

/-- What comes before the bytes: it leaves the loop with an index, or goes on. -/
inductive Head
  | leave (i : ℕ) (s : State p)
  | goOn (s : State p)

def address (i : ℕ) (m : rt_i2c_msg) (s : State p) : Head p :=
  match nu_send_address p bus i m s with
  | (sent, s') => if !sent && !m.has RT_I2C_IGNORE_NACK then .leave 0 s' else .goOn s'

def head (i : ℕ) (m : rt_i2c_msg) (s : State p) : Head p :=
  if m.has RT_I2C_NO_START then .goOn s
  else if i = 0 then address p bus i m s
  else
    match issue p bus s (.restart i) with
    | (.timeout, s') => .leave i s'
    | (.bad, s') => .leave 0 s'
    | (.ok, s') => address p bus i m s'

/-- The loop over the messages, so many turns of it. -/
def messages (msgs : List rt_i2c_msg) : ℕ → ℕ → State p → Option (ℕ × State p)
  | 0, _, _ => none
  | fuel + 1, i, s =>
    match msgs[i]? with
    | none => some (i, s)
    | some m =>
      match head p bus i m s with
      | .leave i' s' => some (i', s')
      | .goOn s' =>
        let (i', s'') := moveBytes p bus msgs.length i m s'
        messages msgs fuel (i' + 1) s''

/-- The STOP.  (Where it is not seen, the drivers return 0, by a time-out or by their last
`if`.) -/
def finish (i : ℕ) (s : State p) : ℕ × State p :=
  match issue p bus s .stop with
  | (.ok, s') => (i, s')
  | (_, s') => (0, s')

/-- **The master transfer**: what it returns, and the bus. -/
def nu_mst_xfer (msgs : List rt_i2c_msg) (fuel : ℕ) : Option (ℕ × State p) :=
  match issue p bus ⟨p.init, [], fun _ _ => 0⟩ .start with
  | (.ok, s) => (messages p bus msgs fuel 0 s).map fun x => finish p bus x.1 x.2
  | (_, s) => some (0, s)

def nu_i2c_mst_xfer := nu_mst_xfer i2c

def nu_lpi2c_mst_xfer := nu_mst_xfer lpi2c

def nu_ui2c_mst_xfer := nu_mst_xfer ui2c

/-! ### More fuel -/

variable {p bus}

theorem messages_mono {msgs : List rt_i2c_msg} {fuel fuel' i : ℕ} {s : State p}
    {x : ℕ × State p} (hle : fuel ≤ fuel') (h : messages p bus msgs fuel i s = some x) :
    messages p bus msgs fuel' i s = some x := by
  induction fuel generalizing fuel' i s with
  | zero => cases h
  | succ fuel ih =>
    obtain ⟨k, rfl⟩ : ∃ k, fuel' = k + 1 := ⟨fuel' - 1, by omega⟩
    unfold messages at h ⊢
    split
    · rename_i hnone
      simpa only [hnone] using h
    · rename_i m hm
      simp only [hm] at h ⊢
      split
      · rename_i i' s' hhead
        simpa only [hhead] using h
      · rename_i s' hhead
        simp only [hhead] at h
        exact ih (by omega) h

/-- A transfer has one result. -/
theorem nu_mst_xfer_unique {msgs : List rt_i2c_msg} {fuel fuel' : ℕ} {x y : ℕ × State p}
    (hx : nu_mst_xfer p bus msgs fuel = some x) (hy : nu_mst_xfer p bus msgs fuel' = some y) :
    x = y := by
  unfold nu_mst_xfer at hx hy
  generalize issue p bus ⟨p.init, [], fun _ _ => 0⟩ .start = o at hx hy
  obtain ⟨o, s⟩ := o
  cases o with
  | ok =>
    simp only [Option.map_eq_some_iff] at hx hy
    obtain ⟨a, ha, rfl⟩ := hx
    obtain ⟨b, hb, rfl⟩ := hy
    have h1 := messages_mono (le_max_left fuel fuel') ha
    have h2 := messages_mono (le_max_right fuel fuel') hb
    rw [Option.some.inj (h1.symm.trans h2)]
  | timeout | bad => exact Option.some.inj (hx.symm.trans hy)

end I2c
