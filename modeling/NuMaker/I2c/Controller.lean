/-
The three I2C masters: `I2C` and `LPI2C`, which tell a status code, and `USCI-I2C`, which raises
flags.

A driver starts one operation after the other (a START, a byte to send or to receive, a STOP),
waits for its flag and looks at what came of it.

* **`Slot`**, **`Reply`** — an operation on the bus, and what the bus makes of it;
* **`Port`** — what a driver sees of that: done, not done as wanted, or a time-out;
* **`Port.Lawful`** — what the drivers rely on, and **`Master.port_lawful`**: all three do it.
-/
import Mathlib.Tactic

namespace I2c

/-! ### The bus -/

/-- An operation.  Those of a message name it, and say which of its bytes they are about; bytes
sent say if `RT_I2C_IGNORE_NACK` covers them. -/
inductive Slot
  | start
  /-- The repeated START in front of a message. -/
  | restart (i : ℕ)
  /-- The one inside a 10-bit address that is read from. -/
  | again (i : ℕ) (ignore : Bool)
  | addr (i k : ℕ) (byte : BitVec 8) (rd ignore : Bool)
  | write (i k : ℕ) (byte : BitVec 8) (ignore : Bool)
  /-- A byte received, which the master acknowledges or not. -/
  | read (i k : ℕ) (ack : Bool)
  | stop
deriving DecidableEq, Repr

/-- What becomes of it: the flag does not come in time, it comes with a byte acknowledged (or the
operation done), or it comes otherwise. -/
inductive Reply
  | timeout
  | ack
  | nack
deriving DecidableEq, Repr

/-- What a driver makes of that. -/
inductive Outcome
  | timeout
  | ok
  | bad
deriving DecidableEq, Repr

/-- Nothing went wrong: it was done, or a byte was not acknowledged and need not be. -/
def Slot.fine : Slot → Reply → Bool
  | _, .ack => true
  | .addr _ _ _ _ ignore, .nack | .write _ _ _ ignore, .nack => ignore
  | _, _ => false

/-- The operations at which a driver leaves its loop over the messages if they go wrong. -/
def Slot.stops : Slot → Bool
  | .start | .restart _ | .stop => true
  | .again _ ignore | .addr _ _ _ _ ignore => !ignore
  | .write .. | .read .. => false

/-- A driver's view of its controller, and the first byte it makes of a 10-bit address, if it
takes them. -/
structure Port where
  State : Type
  init : State
  op : State → Slot → Reply → Outcome × State
  addr10 : Option (BitVec 16 → BitVec 8)

/-! ### Status codes -/

def NU_I2C_MASTER_STATUS_START : BitVec 8 := 0x08
def NU_I2C_MASTER_STATUS_REPEAT_START : BitVec 8 := 0x10
def NU_I2C_MASTER_STATUS_TRANSMIT_ADDRESS_ACK : BitVec 8 := 0x18
def NU_I2C_MASTER_STATUS_TRANSMIT_ADDRESS_NACK : BitVec 8 := 0x20
def NU_I2C_MASTER_STATUS_TRANSMIT_DATA_ACK : BitVec 8 := 0x28
def NU_I2C_MASTER_STATUS_TRANSMIT_DATA_NACK : BitVec 8 := 0x30
def NU_I2C_MASTER_STATUS_ARBITRATION_LOST : BitVec 8 := 0x38
def NU_I2C_MASTER_STATUS_RECEIVE_ADDRESS_ACK : BitVec 8 := 0x40
def NU_I2C_MASTER_STATUS_RECEIVE_ADDRESS_NACK : BitVec 8 := 0x48
def NU_I2C_MASTER_STATUS_RECEIVE_DATA_ACK : BitVec 8 := 0x50
def NU_I2C_MASTER_STATUS_RECEIVE_DATA_NACK : BitVec 8 := 0x58
def NU_I2C_MASTER_STATUS_BUS_RELEASED : BitVec 8 := 0xF8

/-- The code the drivers compare with. -/
def wanted : Slot → BitVec 8
  | .start => NU_I2C_MASTER_STATUS_START
  | .restart _ | .again .. => NU_I2C_MASTER_STATUS_REPEAT_START
  | .addr _ _ _ rd _ =>
    if rd then NU_I2C_MASTER_STATUS_RECEIVE_ADDRESS_ACK
    else NU_I2C_MASTER_STATUS_TRANSMIT_ADDRESS_ACK
  | .write .. => NU_I2C_MASTER_STATUS_TRANSMIT_DATA_ACK
  | .read _ _ ack =>
    -- by the `AA` bit the driver has just set or not
    if ack then NU_I2C_MASTER_STATUS_RECEIVE_DATA_ACK
    else NU_I2C_MASTER_STATUS_RECEIVE_DATA_NACK
  | .stop => NU_I2C_MASTER_STATUS_BUS_RELEASED

/-- `STATUS0` after an operation whose flag came. -/
def STATUS0 : Slot → Bool → BitVec 8
  | .start, true => NU_I2C_MASTER_STATUS_START
  | .restart _, true | .again .., true => NU_I2C_MASTER_STATUS_REPEAT_START
  | .addr _ _ _ false _, true => NU_I2C_MASTER_STATUS_TRANSMIT_ADDRESS_ACK
  | .addr _ _ _ false _, false => NU_I2C_MASTER_STATUS_TRANSMIT_ADDRESS_NACK
  | .addr _ _ _ true _, true => NU_I2C_MASTER_STATUS_RECEIVE_ADDRESS_ACK
  | .addr _ _ _ true _, false => NU_I2C_MASTER_STATUS_RECEIVE_ADDRESS_NACK
  | .write .., true => NU_I2C_MASTER_STATUS_TRANSMIT_DATA_ACK
  | .write .., false => NU_I2C_MASTER_STATUS_TRANSMIT_DATA_NACK
  | .read _ _ true, true => NU_I2C_MASTER_STATUS_RECEIVE_DATA_ACK
  | .read _ _ false, true => NU_I2C_MASTER_STATUS_RECEIVE_DATA_NACK
  | .stop, true => NU_I2C_MASTER_STATUS_BUS_RELEASED
  | _, false => NU_I2C_MASTER_STATUS_ARBITRATION_LOST

/-- `nu_i2c_wait_ready_with_timeout`, and the comparison after it. -/
def statusOp (slot : Slot) : Reply → Outcome
  | .timeout => .timeout
  | .ack => if STATUS0 slot true = wanted slot then .ok else .bad
  | .nack => if STATUS0 slot false = wanted slot then .ok else .bad

/-- The I2C controller. -/
def i2c : Port where
  State := Unit
  init := ()
  op _ slot r := (statusOp slot r, ())
  addr10 := some fun addr => (0xF0 ||| ((addr >>> 7) &&& 0x06)).setWidth 8

/-- The LPI2C controller, whose driver refuses 10-bit addresses. -/
def lpi2c : Port where
  State := Unit
  init := ()
  op _ slot r := (statusOp slot r, ())
  addr10 := none

/-! ### Flags -/

/-- The flags of `PROTSTS` the driver waits for; they stay until they are cleared. -/
structure PROTSTS where
  STARIF : Bool
  ACKIF : Bool
  NACKIF : Bool
  STORIF : Bool
deriving DecidableEq, Repr

/-- A flag came. -/
def PROTSTS.any (f : PROTSTS) : Bool := f.STARIF || f.ACKIF || f.NACKIF || f.STORIF

/-- What an operation raises. -/
def PROTSTS.raise (f : PROTSTS) : Slot → Reply → PROTSTS
  | .start, .ack | .restart _, .ack | .again .., .ack => { f with STARIF := true }
  | .addr .., .ack | .write .., .ack => { f with ACKIF := true }
  | .addr .., .nack | .write .., .nack => { f with NACKIF := true }
  | .read _ _ true, .ack => { f with ACKIF := true }
  | .read _ _ false, .ack => { f with NACKIF := true }
  | .stop, .ack => { f with STORIF := true }
  | _, _ => f

/-- The flag the driver looks for. -/
def PROTSTS.has (f : PROTSTS) : Slot → Bool
  | .start | .restart _ | .again .. => f.STARIF
  | .addr .. | .write .. => f.ACKIF
  | .read _ _ ack => if ack then f.ACKIF else f.NACKIF
  | .stop => f.STORIF

/-- And clears when it has found it. -/
def PROTSTS.clear (f : PROTSTS) : Slot → PROTSTS
  | .start | .restart _ | .again .. => { f with STARIF := false }
  | .addr .. | .write .. => { f with ACKIF := false }
  | .read _ _ ack => if ack then { f with ACKIF := false } else { f with NACKIF := false }
  | .stop => { f with STORIF := false }

/-- `nu_ui2c_wait_ready_with_timeout`, which any of the flags ends, and the look at the one
wanted. -/
def flagOp (f : PROTSTS) (slot : Slot) (r : Reply) : Outcome × PROTSTS :=
  let f' := f.raise slot r
  if f'.any then
    if f'.has slot then (.ok, f'.clear slot) else (.bad, f')
  else (.timeout, f')

def SLV_10BIT_ADDR : BitVec 16 := 0x1E <<< 2

/-- The USCI-I2C controller, after `PROTSTS = PROTSTS`. -/
def ui2c : Port where
  State := PROTSTS
  init := ⟨false, false, false, false⟩
  op := flagOp
  addr10 := some fun addr => (((addr >>> 8) ||| SLV_10BIT_ADDR) <<< 1).setWidth 8

/-! ### What the drivers rely on -/

/-- A controller does what its driver expects: what is fine passes, and what is wrong is seen
where the driver would leave.  While it has been `quiet`, a time-out is seen anywhere. -/
structure Port.Lawful (p : Port) where
  inv : p.State → Prop
  quiet : p.State → Prop
  init_inv : inv p.init
  init_quiet : quiet p.init
  ack : ∀ {h slot}, inv h → (p.op h slot .ack).1 = .ok ∧ inv (p.op h slot .ack).2
  nack : ∀ {h slot}, inv h → slot.fine .nack = true →
    (p.op h slot .nack).1 = .bad ∧ inv (p.op h slot .nack).2
  wrong : ∀ {h slot r}, inv h → slot.stops = true → slot.fine r = false → (p.op h slot r).1 ≠ .ok
  quiet_ack : ∀ {h slot}, quiet h → (p.op h slot .ack).1 = .ok ∧ quiet (p.op h slot .ack).2
  quiet_timeout : ∀ {h slot}, quiet h →
    (p.op h slot .timeout).1 = .timeout ∧ quiet (p.op h slot .timeout).2

theorem statusOp_ack (slot : Slot) : statusOp slot .ack = .ok := by
  refine if_pos ?_
  cases slot with
  | addr i k byte rd ignore => cases rd <;> rfl
  | read i k ack => cases ack <;> rfl
  | _ => rfl

theorem statusOp_nack (slot : Slot) : statusOp slot .nack = .bad := by
  refine if_neg ?_
  cases slot with
  | addr i k byte rd ignore =>
    cases rd
    · exact (by decide : NU_I2C_MASTER_STATUS_TRANSMIT_ADDRESS_NACK ≠
        NU_I2C_MASTER_STATUS_TRANSMIT_ADDRESS_ACK)
    · exact (by decide : NU_I2C_MASTER_STATUS_RECEIVE_ADDRESS_NACK ≠
        NU_I2C_MASTER_STATUS_RECEIVE_ADDRESS_ACK)
  | read i k ack =>
    cases ack
    · exact (by decide : NU_I2C_MASTER_STATUS_ARBITRATION_LOST ≠
        NU_I2C_MASTER_STATUS_RECEIVE_DATA_NACK)
    · exact (by decide : NU_I2C_MASTER_STATUS_ARBITRATION_LOST ≠
        NU_I2C_MASTER_STATUS_RECEIVE_DATA_ACK)
  | _ =>
    simp only [STATUS0, wanted]
    decide

/-- A controller that tells a status. -/
def statusLawful (addr10 : Option (BitVec 16 → BitVec 8)) :
    Port.Lawful ⟨Unit, (), fun _ slot r => (statusOp slot r, ()), addr10⟩ where
  inv _ := True
  quiet _ := True
  init_inv := trivial
  init_quiet := trivial
  ack _ := ⟨statusOp_ack _, trivial⟩
  nack _ _ := ⟨statusOp_nack _, trivial⟩
  wrong {h slot r} _ _ hf := by
    cases r with
    | timeout => exact Outcome.noConfusion
    | ack => cases slot <;> cases hf
    | nack =>
      show statusOp slot .nack ≠ .ok
      rw [statusOp_nack]
      exact Outcome.noConfusion
  quiet_ack _ := ⟨statusOp_ack _, trivial⟩
  quiet_timeout _ := ⟨rfl, trivial⟩

/-- The USCI: a byte that was not acknowledged, and need not be, leaves its flag behind. -/
def flagLawful : ui2c.Lawful where
  inv f := f.STARIF = false ∧ f.ACKIF = false ∧ f.STORIF = false
  quiet f := f = ⟨false, false, false, false⟩
  init_inv := ⟨rfl, rfl, rfl⟩
  init_quiet := rfl
  ack {f slot} h := by
    obtain ⟨st, ak, nk, so⟩ := f
    obtain ⟨rfl, rfl, rfl⟩ := h
    cases slot with
    | read i k ack =>
      cases ack <;> simp [ui2c, flagOp, PROTSTS.raise, PROTSTS.any, PROTSTS.has, PROTSTS.clear]
    | _ => simp [ui2c, flagOp, PROTSTS.raise, PROTSTS.any, PROTSTS.has, PROTSTS.clear]
  nack {f slot} h hf := by
    obtain ⟨st, ak, nk, so⟩ := f
    obtain ⟨rfl, rfl, rfl⟩ := h
    cases slot with
    | addr | write => simp [ui2c, flagOp, PROTSTS.raise, PROTSTS.any, PROTSTS.has]
    | _ => cases hf
  wrong {f slot r} h hs hf := by
    obtain ⟨st, ak, nk, so⟩ := f
    obtain ⟨rfl, rfl, rfl⟩ := h
    cases r with
    | ack => cases slot <;> cases hf
    | timeout =>
      cases slot with
      | write | read => cases hs
      | _ => cases nk <;> simp [ui2c, flagOp, PROTSTS.raise, PROTSTS.any, PROTSTS.has]
    | nack =>
      cases slot with
      | write | read => cases hs
      | _ => cases nk <;> simp [ui2c, flagOp, PROTSTS.raise, PROTSTS.any, PROTSTS.has]
  quiet_ack {f slot} h := by
    subst h
    cases slot with
    | read i k ack => cases ack <;> exact ⟨rfl, rfl⟩
    | _ => exact ⟨rfl, rfl⟩
  quiet_timeout {f slot} h := by
    subst h
    cases slot with
    | read i k ack => cases ack <;> exact ⟨rfl, rfl⟩
    | _ => exact ⟨rfl, rfl⟩

/-- The three masters. -/
inductive Master
  | i2c
  | lpi2c
  | ui2c
deriving DecidableEq, Repr

def Master.port : Master → Port
  | .i2c => I2c.i2c
  | .lpi2c => I2c.lpi2c
  | .ui2c => I2c.ui2c

/-- All three are as their drivers expect. -/
def Master.lawful : (m : Master) → m.port.Lawful
  | .i2c => statusLawful _
  | .lpi2c => statusLawful _
  | .ui2c => flagLawful

end I2c
