/-
The transfers of several bytes in `nu_i2c.c`: loops over the status codes of the controller, which
count a byte when it is loaded (write) or stored (read).

A byte that is loaded is counted before the slave has answered, so a write that is broken off at a
data byte counts one too many.  The reads acknowledge while `u32rxLen < u32rLen - 1`, after the
first byte was acknowledged in any case: a read of one byte stores two, one of none `2 ^ 32`.

* **`Call.ends`** — every call ends, at its last wait or right behind the first that goes wrong;
* **`Call.reports_iff`** — which calls report what was transferred and stay in their buffer.
-/
import NuMaker.Lib.Stages
import Mathlib.Tactic

namespace I2c.MultiBytes

/-! ### The controller -/

def I2C_CTL_STA_SI : BitVec 8 := 0x28
def I2C_CTL_STO_SI : BitVec 8 := 0x18
def I2C_CTL_SI : BitVec 8 := 0x08
def I2C_CTL_SI_AA : BitVec 8 := 0x0C

/-- What becomes of an operation: it is done or the byte acknowledged, the byte is not
acknowledged, the arbitration is lost, or there is an error on the bus. -/
inductive Answer
  | ack
  | nack
  | lost
  | error
deriving DecidableEq, Repr

/-- An answer, after so many readings of `SI`, and the byte that came with it. -/
structure Reply where
  delay : ℕ
  answer : Answer
  byte : BitVec 8

/-- The operation that clearing `SI` starts. -/
inductive Op
  | start
  | restart
  | stop
  | addrW
  | addrR
  | dataW
  | dataR (AA : Bool)
deriving DecidableEq, Repr

/-- `STATUS0` after it. -/
def code : Op → Answer → BitVec 8
  | _, .error => 0x00
  | .start, .ack => 0x08
  | .restart, .ack => 0x10
  | .addrW, .ack => 0x18
  | .addrW, .nack => 0x20
  | .addrR, .ack => 0x40
  | .addrR, .nack => 0x48
  | .dataW, .ack => 0x28
  | .dataW, .nack => 0x30
  | .dataR true, .ack => 0x50
  | .dataR false, .ack => 0x58
  | _, _ => 0x38

/-- By the control bits, the status and the byte in `DAT`. -/
def nextOp (STATUS0 ctl DAT : BitVec 8) : Op :=
  if ctl &&& 0x20 ≠ 0 then if STATUS0 = 0xF8 then .start else .restart
  else if ctl &&& 0x10 ≠ 0 then .stop
  else if STATUS0 = 0x08 ∨ STATUS0 = 0x10 then if DAT.getLsbD 0 then .addrR else .addrW
  else if STATUS0 = 0x18 ∨ STATUS0 = 0x28 then .dataW
  else .dataR (ctl &&& 0x04 ≠ 0)

/-- The controller and the variables of the function.  `acked` are the bytes behind SLA+W that the
slave has acknowledged, `received` those it has sent, `rdata` the bytes stored. -/
structure St where
  op : Op
  STATUS0 : BitVec 8
  DAT : BitVec 8
  u8Ctrl : BitVec 8
  u8Xfering : Bool
  u8Err : Bool
  /-- `u32txLen` or `u32rxLen`. -/
  len : BitVec 32
  g_I2C_i32ErrCode : ℤ
  waits : ℕ
  acked : List (BitVec 8)
  received : List (BitVec 8)
  rdata : List (BitVec 8)

/-- Behind `I2C_START`. -/
def St.init : St :=
  { op := .start, STATUS0 := 0xF8, DAT := 0, u8Ctrl := 0, u8Xfering := true, u8Err := false
    len := 0, g_I2C_i32ErrCode := 0, waits := 0, acked := [], received := [], rdata := [] }

/-- `I2C_WAIT_READY` with its time-out: `SI` is seen set. -/
def waitReady : ℕ → BitVec 32 → Bool
  | 0, _ => true
  | delay + 1, u32TimeOutCount =>
    if u32TimeOutCount - 1 = 0 then false else waitReady delay (u32TimeOutCount - 1)

/-- The operation comes to its end, or the wait for it does.  Without `SI` the status is `F8`. -/
def St.wait (SystemCoreClock : BitVec 32) (r : Reply) (s : St) : St :=
  if waitReady r.delay SystemCoreClock then
    let s := { s with waits := s.waits + 1, STATUS0 := code s.op r.answer }
    match s.op, r.answer with
    | .dataW, .ack => { s with acked := s.acked ++ [s.DAT] }
    | .dataR _, .ack => { s with DAT := r.byte, received := s.received ++ [r.byte] }
    | _, _ => s
  else { s with waits := s.waits + 1, STATUS0 := 0xF8, g_I2C_i32ErrCode := -1 }

def St.I2C_SET_CONTROL_REG (s : St) (ctl : BitVec 8) : St :=
  { s with op := nextOp s.STATUS0 ctl s.DAT }

theorem St.op_SET_CONTROL_REG (s : St) (ctl : BitVec 8) :
    (s.I2C_SET_CONTROL_REG ctl).op = nextOp s.STATUS0 ctl s.DAT := rfl

/-! ### The functions -/

/-- The default branch of the four functions. -/
def St.unknown (s : St) : St :=
  { s.I2C_SET_CONTROL_REG I2C_CTL_STO_SI with u8Ctrl := I2C_CTL_SI, u8Err := true }

/-- The data branch of the writes: a byte is loaded, and counted with that, or the transfer
stopped. -/
def St.load (data : ℕ → BitVec 8) (u32wLen : BitVec 32) (s : St) : St :=
  if s.len < u32wLen then { s with DAT := data s.len.toNat, len := s.len + 1 }
  else { s with u8Ctrl := I2C_CTL_STO_SI, u8Xfering := false }

/-- The switch of `I2C_WriteMultiBytes`. -/
def I2C_WriteMultiBytes (u8SlaveAddr : BitVec 8) (data : ℕ → BitVec 8) (u32wLen : BitVec 32)
    (s : St) : St :=
  if s.STATUS0 = 0x08 then { s with DAT := u8SlaveAddr <<< 1 ||| 0, u8Ctrl := I2C_CTL_SI }
  else if s.STATUS0 = 0x18 ∨ s.STATUS0 = 0x28 then s.load data u32wLen
  else if s.STATUS0 = 0x20 ∨ s.STATUS0 = 0x30 then
    { s with u8Ctrl := I2C_CTL_STO_SI, u8Err := true }
  else s.unknown

/-- The switch of `I2C_WriteMultiBytesOneReg`. -/
def I2C_WriteMultiBytesOneReg (u8SlaveAddr u8DataAddr : BitVec 8) (data : ℕ → BitVec 8)
    (u32wLen : BitVec 32) (s : St) : St :=
  if s.STATUS0 = 0x08 then { s with DAT := u8SlaveAddr <<< 1 ||| 0, u8Ctrl := I2C_CTL_SI }
  else if s.STATUS0 = 0x18 then { s with DAT := u8DataAddr }
  else if s.STATUS0 = 0x20 ∨ s.STATUS0 = 0x30 then
    { s with u8Ctrl := I2C_CTL_STO_SI, u8Err := true }
  else if s.STATUS0 = 0x28 then s.load data u32wLen
  else s.unknown

/-- Status `50` and `58` of the reads: the byte is stored.  It takes the acknowledge of the next
byte from the number of bytes so far. -/
def St.store (u32rLen : BitVec 32) (s : St) : St :=
  let s' := { s with rdata := s.rdata ++ [s.DAT], len := s.len + 1 }
  if s.STATUS0 = 0x50 then
    if s'.len < u32rLen - 1 then { s' with u8Ctrl := I2C_CTL_SI_AA }
    else { s' with u8Ctrl := I2C_CTL_SI }
  else { s' with u8Ctrl := I2C_CTL_STO_SI, u8Xfering := false }

/-- The switch of `I2C_ReadMultiBytes`. -/
def I2C_ReadMultiBytes (u8SlaveAddr : BitVec 8) (u32rLen : BitVec 32) (s : St) : St :=
  if s.STATUS0 = 0x08 then { s with DAT := u8SlaveAddr <<< 1 ||| 1, u8Ctrl := I2C_CTL_SI }
  else if s.STATUS0 = 0x40 then { s with u8Ctrl := I2C_CTL_SI_AA }
  else if s.STATUS0 = 0x48 then { s with u8Ctrl := I2C_CTL_STO_SI, u8Err := true }
  else if s.STATUS0 = 0x50 ∨ s.STATUS0 = 0x58 then s.store u32rLen
  else s.unknown

/-- The switch of `I2C_ReadMultiBytesOneReg`. -/
def I2C_ReadMultiBytesOneReg (u8SlaveAddr u8DataAddr : BitVec 8) (u32rLen : BitVec 32) (s : St) :
    St :=
  if s.STATUS0 = 0x08 then { s with DAT := u8SlaveAddr <<< 1 ||| 0, u8Ctrl := I2C_CTL_SI }
  else if s.STATUS0 = 0x18 then { s with DAT := u8DataAddr }
  else if s.STATUS0 = 0x20 ∨ s.STATUS0 = 0x30 then
    { s with u8Ctrl := I2C_CTL_STO_SI, u8Err := true }
  else if s.STATUS0 = 0x28 then { s with u8Ctrl := I2C_CTL_STA_SI }
  else if s.STATUS0 = 0x10 then { s with DAT := u8SlaveAddr <<< 1 ||| 1, u8Ctrl := I2C_CTL_SI }
  else if s.STATUS0 = 0x40 then { s with u8Ctrl := I2C_CTL_SI_AA }
  else if s.STATUS0 = 0x48 then { s with u8Ctrl := I2C_CTL_STO_SI, u8Err := true }
  else if s.STATUS0 = 0x50 ∨ s.STATUS0 = 0x58 then s.store u32rLen
  else s.unknown

/-- A call of one of them. -/
inductive Call
  | write (u8SlaveAddr : BitVec 8) (data : ℕ → BitVec 8) (u32wLen : BitVec 32)
  | writeReg (u8SlaveAddr u8DataAddr : BitVec 8) (data : ℕ → BitVec 8) (u32wLen : BitVec 32)
  | read (u8SlaveAddr : BitVec 8) (u32rLen : BitVec 32)
  | readReg (u8SlaveAddr u8DataAddr : BitVec 8) (u32rLen : BitVec 32)

namespace Call

def body : Call → St → St
  | write u8SlaveAddr data u32wLen => I2C_WriteMultiBytes u8SlaveAddr data u32wLen
  | writeReg u8SlaveAddr u8DataAddr data u32wLen =>
    I2C_WriteMultiBytesOneReg u8SlaveAddr u8DataAddr data u32wLen
  | read u8SlaveAddr u32rLen => I2C_ReadMultiBytes u8SlaveAddr u32rLen
  | readReg u8SlaveAddr u8DataAddr u32rLen =>
    I2C_ReadMultiBytesOneReg u8SlaveAddr u8DataAddr u32rLen

/-- The bytes asked for. -/
def length : Call → ℕ
  | write _ _ n | writeReg _ _ _ n | read _ n | readReg _ _ n => n.toNat

/-- The operations before the first data byte. -/
def head : Call → ℕ
  | write .. => 2
  | writeReg .. => 3
  | read .. => 2
  | readReg .. => 5

/-- What was transferred: the data bytes acknowledged, which are those behind the register's
address, or the bytes received. -/
def transferred : Call → St → ℕ
  | write .., s => s.acked.length
  | writeReg .., s => s.acked.tail.length
  | read .., s | readReg .., s => s.received.length

end Call

/-- The function has left its loop. -/
def St.halted (s : St) : Prop := ¬ (s.u8Xfering = true ∧ s.u8Err = false)

instance (s : St) : Decidable s.halted := inferInstanceAs (Decidable (¬ _))

/-- A turn of the loop. -/
def step (SystemCoreClock : BitVec 32) (replies : ℕ → Reply) (f : Call) (s : St) : St :=
  if s.halted then s
  else
    let s := f.body (s.wait SystemCoreClock (replies s.waits))
    s.I2C_SET_CONTROL_REG s.u8Ctrl

/-! ### One turn of the loop -/

variable {SystemCoreClock : BitVec 32} {replies : ℕ → Reply} {f : Call} {s : St} {r : Reply}

/-- The flag comes in time, and what it tells is what was wanted. -/
def Reply.Fine (SystemCoreClock : BitVec 32) (r : Reply) : Prop :=
  waitReady r.delay SystemCoreClock = true ∧ r.answer = .ack

instance : Decidable (r.Fine SystemCoreClock) := inferInstanceAs (Decidable (_ ∧ _))

theorem step_of_halted (h : s.halted) : step SystemCoreClock replies f s = s := if_pos h

theorem step_of_running (hX : s.u8Xfering = true) (hE : s.u8Err = false) :
    step SystemCoreClock replies f s =
      (f.body (s.wait SystemCoreClock (replies s.waits))).I2C_SET_CONTROL_REG
        (f.body (s.wait SystemCoreClock (replies s.waits))).u8Ctrl :=
  if_neg fun h => h ⟨hX, hE⟩

theorem wait_dataW (hr : r.Fine SystemCoreClock) (hop : s.op = .dataW) :
    s.wait SystemCoreClock r =
      { s with waits := s.waits + 1, STATUS0 := 0x28, acked := s.acked ++ [s.DAT] } := by
  simp [St.wait, hr.1, hr.2, hop, code]

theorem wait_dataR {AA : Bool} (hr : r.Fine SystemCoreClock) (hop : s.op = .dataR AA) :
    s.wait SystemCoreClock r =
      { s with
        waits := s.waits + 1, STATUS0 := if AA then 0x50 else 0x58, DAT := r.byte
        received := s.received ++ [r.byte] } := by
  cases AA <;> simp [St.wait, hr.1, hr.2, hop, code]

theorem wait_other (hr : r.Fine SystemCoreClock) (hW : s.op ≠ .dataW) (hR : ∀ b, s.op ≠ .dataR b) :
    s.wait SystemCoreClock r = { s with waits := s.waits + 1, STATUS0 := code s.op .ack } := by
  cases hop : s.op <;> simp_all [St.wait, Reply.Fine]

/-- The statuses that break a transfer off. -/
def breaking : List (BitVec 8) := [0x20, 0x30, 0x48, 0x38, 0x00, 0xF8]

theorem code_breaking (op : Op) {a : Answer} (ha : a ≠ .ack) : code op a ∈ breaking := by
  cases a with
  | ack => exact absurd rfl ha
  | nack => rcases op with _ | _ | _ | _ | _ | _ | ⟨_ | _⟩ <;> decide
  | lost => rcases op with _ | _ | _ | _ | _ | _ | ⟨_ | _⟩ <;> decide
  | error => rcases op with _ | _ | _ | _ | _ | _ | ⟨_ | _⟩ <;> decide

/-- What the caller gets to see is as it was. -/
def St.Kept (s t : St) : Prop :=
  t.len = s.len ∧ t.acked = s.acked ∧ t.received = s.received ∧ t.rdata = s.rdata

theorem wait_refused (htime : waitReady r.delay SystemCoreClock = true) (hans : r.answer ≠ .ack) :
    s.wait SystemCoreClock r =
      { s with waits := s.waits + 1, STATUS0 := code s.op r.answer } := by
  rw [St.wait, if_pos htime]
  cases s.op <;> cases ha : r.answer <;> first | exact absurd ha hans | rfl

theorem wait_bad (hr : ¬ r.Fine SystemCoreClock) :
    (s.wait SystemCoreClock r).STATUS0 ∈ breaking ∧ s.Kept (s.wait SystemCoreClock r) := by
  by_cases htime : waitReady r.delay SystemCoreClock
  · have hans : r.answer ≠ .ack := fun ha => hr ⟨htime, ha⟩
    rw [wait_refused htime hans]
    exact ⟨code_breaking s.op hans, rfl, rfl, rfl, rfl⟩
  · rw [St.wait, if_neg htime]
    exact ⟨show (0xF8 : BitVec 8) ∈ breaking by decide, rfl, rfl, rfl, rfl⟩

/-- The functions leave their loop there, and count and store nothing. -/
theorem body_breaking (f : Call) (h : s.STATUS0 ∈ breaking) :
    (f.body s).u8Err = true ∧ s.Kept (f.body s) := by
  simp only [breaking, List.mem_cons, List.not_mem_nil, or_false] at h
  cases f <;> rcases h with h | h | h | h | h | h <;>
    simp [Call.body, I2C_WriteMultiBytes, I2C_WriteMultiBytesOneReg, I2C_ReadMultiBytes,
      I2C_ReadMultiBytesOneReg, St.unknown, St.I2C_SET_CONTROL_REG, St.Kept, h]

/-- **An operation that goes wrong** ends the call. -/
theorem step_bad (hX : s.u8Xfering = true) (hE : s.u8Err = false)
    (hr : ¬ (replies s.waits).Fine SystemCoreClock) :
    (step SystemCoreClock replies f s).halted ∧ s.Kept (step SystemCoreClock replies f s) := by
  obtain ⟨hstatus, hl, ha, hrec, hd⟩ := @wait_bad SystemCoreClock s _ hr
  obtain ⟨herr, hl', ha', hrec', hd'⟩ := body_breaking f hstatus
  rw [step_of_running hX hE]
  refine ⟨fun h => ?_, hl'.trans hl, ha'.trans ha, hrec'.trans hrec, hd'.trans hd⟩
  exact absurd (herr.symm.trans h.2) (by decide)

/-! ### Stage by stage -/

namespace Call

/-- The operation of a stage before the data. -/
def prelude : Call → ℕ → Op
  | write .., 0 | writeReg .., 0 | read .., 0 | readReg .., 0 => .start
  | write .., _ => .addrW
  | writeReg .., 1 => .addrW
  | writeReg .., _ => .dataW
  | read .., _ => .addrR
  | readReg .., 1 => .addrW
  | readReg .., 2 => .dataW
  | readReg .., 3 => .restart
  | readReg .., _ => .addrR

/-- The bytes a read acknowledges if nothing goes wrong: the first one, and then up to
`u32rLen - 1` of them. -/
def taken (u32rLen : BitVec 32) : ℕ := max 1 (u32rLen - 1).toNat

/-- The waits of a call that meets no failure. -/
def last : Call → ℕ
  | write _ _ n => 2 + n.toNat
  | writeReg _ _ _ n => 3 + n.toNat
  | read _ n => 2 + (taken n + 1)
  | readReg _ _ n => 5 + (taken n + 1)

/-- The state with byte `j` of a write on its way, or behind the last one. -/
def Sending (n : BitVec 32) (extra j : ℕ) (s : St) : Prop :=
  s.acked.length = extra + j ∧ s.rdata = [] ∧
  if j < n.toNat then
    s.u8Xfering = true ∧ s.op = .dataW ∧ s.u8Ctrl = I2C_CTL_SI ∧ s.len.toNat = j + 1
  else s.u8Xfering = false ∧ s.len.toNat = j

/-- The state with byte `j` of a read on its way, or behind the last one. -/
def Receiving (n : BitVec 32) (j : ℕ) (s : St) : Prop :=
  s.received.length = j ∧ s.rdata.length = j ∧ s.len.toNat = j % 2 ^ 32 ∧
  if j ≤ taken n then s.u8Xfering = true ∧ s.op = .dataR (j < taken n)
  else s.u8Xfering = false

/-- The states of a stage. -/
def Stage (f : Call) (k : ℕ) (s : St) : Prop :=
  s.waits = k ∧ s.u8Err = false ∧
  if k < f.head then
    s.u8Xfering = true ∧ s.op = f.prelude k ∧ s.len = 0 ∧ s.received = [] ∧ s.rdata = [] ∧
    (k < 3 → s.acked = []) ∧ (0 < k → k < 3 → s.u8Ctrl = I2C_CTL_SI)
  else
    match f with
    | write _ _ n => Sending n 0 (k - 2) s
    | writeReg _ _ _ n => Sending n 1 (k - 3) s
    | read _ n => Receiving n (k - 2) s
    | readReg _ _ n => Receiving n (k - 5) s

/-- Loading a byte, or the end of a write. -/
theorem sending_of_load {data : ℕ → BitVec 8} {n : BitVec 32} {extra j : ℕ} {s : St}
    (hlen : s.len.toNat = j) (hacked : s.acked.length = extra + j)
    (hrdata : s.rdata = []) (hX : s.u8Xfering = true) (hctl : s.u8Ctrl = I2C_CTL_SI)
    (hstatus : s.STATUS0 = 0x18 ∨ s.STATUS0 = 0x28) :
    let t := (s.load data n).I2C_SET_CONTROL_REG (s.load data n).u8Ctrl
    t.waits = s.waits ∧ t.u8Err = s.u8Err ∧ Sending n extra j t := by
  have hop : nextOp s.STATUS0 I2C_CTL_SI (data s.len.toNat) = .dataW := by
    rcases hstatus with h | h <;> rw [h] <;> rfl
  by_cases hlt : s.len < n
  · have hlt' : j < n.toNat := by
      rw [← hlen]
      exact hlt
    have hnext : (s.len + 1).toNat = j + 1 := by
      have := n.isLt
      rw [BitVec.toNat_add, hlen]
      exact Nat.mod_eq_of_lt (by simp; omega)
    rw [St.load, if_pos hlt]
    refine ⟨rfl, rfl, hacked, hrdata, ?_⟩
    rw [if_pos hlt', St.op_SET_CONTROL_REG]
    refine ⟨hX, ?_, hctl, hnext⟩
    rw [hctl]
    exact hop
  · have hge : ¬ j < n.toNat := by
      rw [← hlen]
      exact hlt
    rw [St.load, if_neg hlt]
    refine ⟨rfl, rfl, hacked, hrdata, ?_⟩
    rw [if_neg hge]
    exact ⟨rfl, hlen⟩

/-- Storing a byte: the next one is acknowledged, or not, or none is left. -/
theorem receiving_of_store {n : BitVec 32} {j : ℕ} {s : St}
    (hlen : s.len.toNat = j % 2 ^ 32) (hrec : s.received.length = j + 1)
    (hrdata : s.rdata.length = j) (hX : s.u8Xfering = true)
    (hstatus : s.STATUS0 = if j < taken n then 0x50 else 0x58) :
    let t := (s.store n).I2C_SET_CONTROL_REG (s.store n).u8Ctrl
    t.waits = s.waits ∧ t.u8Err = s.u8Err ∧ Receiving n (j + 1) t := by
  have hn := (n - 1).isLt
  have hlen' : (s.len + 1).toNat = (j + 1) % 2 ^ 32 := by
    rw [BitVec.toNat_add, hlen]
    simp
  have hfirst : taken n = max 1 (n - 1).toNat := rfl
  by_cases hlt : j < taken n
  · rw [if_pos hlt] at hstatus
    have hsmall : (j + 1) % 2 ^ 32 = j + 1 := Nat.mod_eq_of_lt (by omega)
    have hmore : s.len + 1 < n - 1 ↔ j + 1 < taken n := by
      rw [BitVec.lt_def, hlen', hsmall]
      omega
    have hAA : nextOp s.STATUS0 I2C_CTL_SI_AA s.DAT = .dataR true := by
      rw [hstatus]
      rfl
    have hSI : nextOp s.STATUS0 I2C_CTL_SI s.DAT = .dataR false := by
      rw [hstatus]
      rfl
    rw [St.store, if_pos hstatus]
    -- the byte after this one is acknowledged, or it is the last
    by_cases hagain : j + 1 < taken n
    · rw [if_pos (hmore.mpr hagain)]
      refine ⟨rfl, rfl, hrec, by simp [St.I2C_SET_CONTROL_REG, hrdata], hlen', ?_⟩
      rw [if_pos (show j + 1 ≤ taken n from hlt), decide_eq_true hagain]
      exact ⟨hX, (St.op_SET_CONTROL_REG _ _).trans hAA⟩
    · rw [if_neg (fun h => hagain (hmore.mp h))]
      refine ⟨rfl, rfl, hrec, by simp [St.I2C_SET_CONTROL_REG, hrdata], hlen', ?_⟩
      rw [if_pos (show j + 1 ≤ taken n from hlt), decide_eq_false hagain]
      exact ⟨hX, (St.op_SET_CONTROL_REG _ _).trans hSI⟩
  · rw [if_neg hlt] at hstatus
    rw [St.store, if_neg (by rw [hstatus]; decide)]
    refine ⟨rfl, rfl, hrec, by simp [St.I2C_SET_CONTROL_REG, hrdata], hlen', ?_⟩
    rw [if_neg (show ¬ j + 1 ≤ taken n from hlt)]
    rfl

theorem write_load {addr : BitVec 8} {data : ℕ → BitVec 8} {n : BitVec 32} {s : St}
    (h : s.STATUS0 = 0x18 ∨ s.STATUS0 = 0x28) :
    (write addr data n).body s = s.load data n := by
  rcases h with h | h <;> simp [body, I2C_WriteMultiBytes, h]

theorem writeReg_load {addr reg : BitVec 8} {data : ℕ → BitVec 8} {n : BitVec 32} {s : St}
    (h : s.STATUS0 = 0x28) :
    (writeReg addr reg data n).body s = s.load data n := by
  simp [body, I2C_WriteMultiBytesOneReg, h]

theorem read_store {addr : BitVec 8} {n : BitVec 32} {s : St}
    (h : s.STATUS0 = 0x50 ∨ s.STATUS0 = 0x58) : (read addr n).body s = s.store n := by
  rcases h with h | h <;> simp [body, I2C_ReadMultiBytes, h]

theorem readReg_store {addr reg : BitVec 8} {n : BitVec 32} {s : St}
    (h : s.STATUS0 = 0x50 ∨ s.STATUS0 = 0x58) : (readReg addr reg n).body s = s.store n := by
  rcases h with h | h <;> simp [body, I2C_ReadMultiBytesOneReg, h]

/-- A stage of the prelude that is followed by one. -/
theorem prelude_succ {SystemCoreClock : BitVec 32} {replies : ℕ → Reply} {f : Call} {k : ℕ} {s : St}
    (hk : k + 1 < f.head) (h : f.Stage k s) (hr : (replies k).Fine SystemCoreClock) :
    f.Stage (k + 1) (step SystemCoreClock replies f s) := by
  obtain ⟨hwaits, hE, h⟩ := h
  rw [if_pos (Nat.lt_of_succ_lt hk)] at h
  obtain ⟨hX, hop, hlen, hrec, hrdata, hacked, hctl⟩ := h
  rw [step_of_running hX hE, hwaits]
  cases f with
  | write addr data n =>
    obtain rfl : k = 0 := by simp only [head] at hk; omega
    rw [wait_other hr (by simp [hop, prelude]) (by simp [hop, prelude])]
    simp [Stage, head, prelude, hop, body, I2C_WriteMultiBytes, St.I2C_SET_CONTROL_REG, code,
      nextOp, I2C_CTL_SI, hX, hE, hlen, hrec, hrdata, hwaits, hacked]
  | read addr n =>
    obtain rfl : k = 0 := by simp only [head] at hk; omega
    rw [wait_other hr (by simp [hop, prelude]) (by simp [hop, prelude])]
    simp [Stage, head, prelude, hop, body, I2C_ReadMultiBytes, St.I2C_SET_CONTROL_REG, code,
      nextOp, I2C_CTL_SI, hX, hE, hlen, hrec, hrdata, hwaits, hacked]
  | writeReg addr reg data n =>
    obtain rfl | rfl : k = 0 ∨ k = 1 := by simp only [head] at hk; omega
    · rw [wait_other hr (by simp [hop, prelude]) (by simp [hop, prelude])]
      simp [Stage, head, prelude, hop, body, I2C_WriteMultiBytesOneReg, St.I2C_SET_CONTROL_REG,
        code, nextOp, I2C_CTL_SI, hX, hE, hlen, hrec, hrdata, hwaits, hacked]
    · rw [wait_other hr (by simp [hop, prelude]) (by simp [hop, prelude])]
      simp [Stage, head, prelude, hop, body, I2C_WriteMultiBytesOneReg, St.I2C_SET_CONTROL_REG,
        code, nextOp, I2C_CTL_SI, hX, hE, hlen, hrec, hrdata, hwaits, hacked, hctl]
  | readReg addr reg n =>
    obtain rfl | rfl | rfl | rfl : k = 0 ∨ k = 1 ∨ k = 2 ∨ k = 3 := by
      simp only [head] at hk
      omega
    · rw [wait_other hr (by simp [hop, prelude]) (by simp [hop, prelude])]
      simp [Stage, head, prelude, hop, body, I2C_ReadMultiBytesOneReg, St.I2C_SET_CONTROL_REG,
        code, nextOp, I2C_CTL_SI, hX, hE, hlen, hrec, hrdata, hwaits, hacked]
    · rw [wait_other hr (by simp [hop, prelude]) (by simp [hop, prelude])]
      simp [Stage, head, prelude, hop, body, I2C_ReadMultiBytesOneReg, St.I2C_SET_CONTROL_REG,
        code, nextOp, I2C_CTL_SI, hX, hE, hlen, hrec, hrdata, hwaits, hacked, hctl]
    · rw [wait_dataW hr (by simp [hop, prelude])]
      simp [Stage, head, prelude, body, I2C_ReadMultiBytesOneReg, St.I2C_SET_CONTROL_REG,
        nextOp, I2C_CTL_STA_SI, hX, hE, hlen, hrec, hrdata, hwaits]
    · rw [wait_other hr (by simp [hop, prelude]) (by simp [hop, prelude])]
      simp [Stage, head, prelude, hop, body, I2C_ReadMultiBytesOneReg, St.I2C_SET_CONTROL_REG,
        code, nextOp, I2C_CTL_SI, hX, hE, hlen, hrec, hrdata, hwaits]

/-- The last stage of the prelude is followed by the first data byte, or by the end. -/
theorem data_first {SystemCoreClock : BitVec 32} {replies : ℕ → Reply} {f : Call} {k : ℕ} {s : St}
    (hk : k + 1 = f.head) (h : f.Stage k s) (hr : (replies k).Fine SystemCoreClock) :
    f.Stage (k + 1) (step SystemCoreClock replies f s) := by
  obtain ⟨hwaits, hE, h⟩ := h
  rw [if_pos (by omega)] at h
  obtain ⟨hX, hop, hlen, hrec, hrdata, hacked, hctl⟩ := h
  rw [step_of_running hX hE, hwaits]
  cases f with
  | write addr data n =>
    obtain rfl : k = 1 := by simp only [head] at hk; omega
    have hw : s.wait SystemCoreClock (replies 1) =
        { s with waits := s.waits + 1, STATUS0 := 0x18 } := by
      rw [wait_other hr (by simp [hop, prelude]) (by simp [hop, prelude]),
        show code s.op .ack = 0x18 by rw [hop]; rfl]
    rw [write_load (.inl (by rw [hw])), hw]
    obtain ⟨hwaits', hE', hs⟩ := @sending_of_load data n 0 0
      { s with waits := s.waits + 1, STATUS0 := 0x18 } (by rw [hlen]; rfl) (by simp [hacked]) hrdata
      hX (hctl (by decide) (by decide)) (.inl rfl)
    exact ⟨hwaits'.trans (by rw [hwaits]), hE'.trans hE, hs⟩
  | writeReg addr reg data n =>
    obtain rfl : k = 2 := by simp only [head] at hk; omega
    have hw := wait_dataW hr hop
    rw [writeReg_load (by rw [hw]), hw]
    obtain ⟨hwaits', hE', hs⟩ := @sending_of_load data n 1 0
      { s with waits := s.waits + 1, STATUS0 := 0x28, acked := s.acked ++ [s.DAT] }
      (by rw [hlen]; rfl) (by simp [hacked]) hrdata hX (hctl (by decide) (by decide)) (.inr rfl)
    exact ⟨hwaits'.trans (by rw [hwaits]), hE'.trans hE, hs⟩
  | read addr n =>
    obtain rfl : k = 1 := by simp only [head] at hk; omega
    rw [wait_other hr (by simp [hop, prelude]) (by simp [hop, prelude])]
    simp [Stage, head, prelude, hop, body, I2C_ReadMultiBytes, St.I2C_SET_CONTROL_REG, code,
      nextOp, I2C_CTL_SI_AA, hX, hE, hlen, hrec, hrdata, hwaits, Receiving, taken]
  | readReg addr reg n =>
    obtain rfl : k = 4 := by simp only [head] at hk; omega
    rw [wait_other hr (by simp [hop, prelude]) (by simp [hop, prelude])]
    simp [Stage, head, prelude, hop, body, I2C_ReadMultiBytesOneReg, St.I2C_SET_CONTROL_REG, code,
      nextOp, I2C_CTL_SI_AA, hX, hE, hlen, hrec, hrdata, hwaits, Receiving, taken]

/-- A byte acknowledged, in either write. -/
theorem sending_succ {SystemCoreClock : BitVec 32} {replies : ℕ → Reply} {f : Call}
    {data : ℕ → BitVec 8} {n : BitVec 32} {extra j : ℕ} {s : St}
    (hbody : ∀ t : St, t.STATUS0 = 0x28 → f.body t = t.load data n) (hj : j < n.toNat)
    (hE : s.u8Err = false) (h : Sending n extra j s)
    (hr : (replies s.waits).Fine SystemCoreClock) :
    let t := step SystemCoreClock replies f s
    t.waits = s.waits + 1 ∧ t.u8Err = false ∧ Sending n extra (j + 1) t := by
  obtain ⟨hacked, hrdata, h⟩ := h
  rw [if_pos hj] at h
  obtain ⟨hX, hop, hctl, hlen⟩ := h
  have hw := wait_dataW hr hop
  rw [step_of_running hX hE, hbody _ (by rw [hw]), hw]
  obtain ⟨hwaits', hE', hs⟩ := @sending_of_load data n extra (j + 1)
    { s with waits := s.waits + 1, STATUS0 := 0x28, acked := s.acked ++ [s.DAT] }
    hlen (by simp [hacked, Nat.add_assoc]) hrdata hX hctl (.inr rfl)
  exact ⟨hwaits', hE'.trans hE, hs⟩

/-- A byte received, in either read. -/
theorem receiving_succ {SystemCoreClock : BitVec 32} {replies : ℕ → Reply} {f : Call}
    {n : BitVec 32} {j : ℕ} {s : St}
    (hbody : ∀ t : St, t.STATUS0 = 0x50 ∨ t.STATUS0 = 0x58 → f.body t = t.store n)
    (hj : j ≤ taken n) (hE : s.u8Err = false) (h : Receiving n j s)
    (hr : (replies s.waits).Fine SystemCoreClock) :
    let t := step SystemCoreClock replies f s
    t.waits = s.waits + 1 ∧ t.u8Err = false ∧ Receiving n (j + 1) t := by
  obtain ⟨hrec, hrdata, hlen, h⟩ := h
  rw [if_pos hj] at h
  obtain ⟨hX, hop⟩ := h
  have hw := wait_dataR hr hop
  have hstatus : (s.wait SystemCoreClock (replies s.waits)).STATUS0 =
      if j < taken n then 0x50 else 0x58 := by
    rw [hw]
    by_cases hlt : j < taken n <;> simp [hlt]
  rw [step_of_running hX hE, hbody _ (by rw [hstatus]; split <;> simp)]
  obtain ⟨hwaits', hE', hs⟩ := @receiving_of_store n j (s.wait SystemCoreClock (replies s.waits))
    (by rw [hw]; exact hlen) (by rw [hw]; simp [hrec]) (by rw [hw]; exact hrdata)
    (by rw [hw]; exact hX) hstatus
  exact ⟨hwaits'.trans (by rw [hw]), hE'.trans (by rw [hw]; exact hE), hs⟩

/-- From one data byte to the next. -/
theorem data_succ {SystemCoreClock : BitVec 32} {replies : ℕ → Reply} {f : Call} {k : ℕ} {s : St}
    (hhead : f.head ≤ k) (hk : k < f.last) (h : f.Stage k s)
    (hr : (replies k).Fine SystemCoreClock) :
    f.Stage (k + 1) (step SystemCoreClock replies f s) := by
  obtain ⟨hwaits, hE, h⟩ := h
  obtain ⟨j, rfl⟩ := Nat.exists_eq_add_of_le hhead
  rw [if_neg (by omega)] at h
  rw [← hwaits] at hr
  unfold Stage
  rw [if_neg (by omega), Nat.add_assoc]
  cases f with
  | write addr data n =>
    have hj : j < n.toNat := Nat.lt_of_add_lt_add_left hk
    simp only [head, Nat.add_sub_cancel_left] at h ⊢
    obtain ⟨hw, he, hs⟩ := sending_succ (fun t ht => write_load (.inr ht)) hj hE h hr
    exact ⟨hw.trans (by rw [hwaits]; rfl), he, hs⟩
  | writeReg addr reg data n =>
    have hj : j < n.toNat := Nat.lt_of_add_lt_add_left hk
    simp only [head, Nat.add_sub_cancel_left] at h ⊢
    obtain ⟨hw, he, hs⟩ := sending_succ (fun t ht => writeReg_load ht) hj hE h hr
    exact ⟨hw.trans (by rw [hwaits]; rfl), he, hs⟩
  | read addr n =>
    have hj : j < taken n + 1 := Nat.lt_of_add_lt_add_left hk
    simp only [head, Nat.add_sub_cancel_left] at h ⊢
    obtain ⟨hw, he, hs⟩ :=
      receiving_succ (fun t ht => read_store ht) (Nat.le_of_lt_succ hj) hE h hr
    exact ⟨hw.trans (by rw [hwaits]; rfl), he, hs⟩
  | readReg addr reg n =>
    have hj : j < taken n + 1 := Nat.lt_of_add_lt_add_left hk
    simp only [head, Nat.add_sub_cancel_left] at h ⊢
    obtain ⟨hw, he, hs⟩ :=
      receiving_succ (fun t ht => readReg_store ht) (Nat.le_of_lt_succ hj) hE h hr
    exact ⟨hw.trans (by rw [hwaits]; rfl), he, hs⟩

/-! ### The end of a call -/

variable {SystemCoreClock : BitVec 32} {replies : ℕ → Reply} {f : Call} {k : ℕ} {s : St}

theorem stage_succ (hk : k < f.last) (h : f.Stage k s) (hr : (replies k).Fine SystemCoreClock) :
    f.Stage (k + 1) (step SystemCoreClock replies f s) := by
  rcases Nat.lt_trichotomy (k + 1) f.head with hlt | heq | hgt
  · exact prelude_succ hlt h hr
  · exact data_first heq h hr
  · exact data_succ (Nat.le_of_lt_succ hgt) hk h hr

theorem stage_init (f : Call) : f.Stage 0 St.init := by
  cases f <;> simp [Stage, head, prelude, St.init]

/-- What a stage has counted, transferred and stored: nothing in the prelude; a write has counted
the byte that is on its way. -/
structure Counted (f : Call) (k : ℕ) (s : St) : Prop where
  transferred : f.transferred s = k - f.head
  stored : s.rdata.length ≤ k - f.head
  len : match f with
    | write _ _ n | writeReg _ _ _ n =>
      s.len.toNat = if k < f.head then 0 else min (k - f.head + 1) n.toNat
    | read .. | readReg .. => s.len.toNat = (k - f.head) % 2 ^ 32 ∧ s.rdata.length = k - f.head

theorem Stage.counts (hk : k ≤ f.last) (h : f.Stage k s) : f.Counted k s := by
  obtain ⟨-, -, h⟩ := h
  by_cases hhead : k < f.head
  · -- in the prelude nothing has been counted
    rw [if_pos hhead] at h
    obtain ⟨-, -, hlen, hrec, hrdata, hacked, -⟩ := h
    have hzero : k - f.head = 0 := Nat.sub_eq_zero_of_le hhead.le
    refine ⟨?_, by simp [hrdata], ?_⟩
    · cases f with
      | write addr data n => simpa [transferred, hzero] using hacked (by simp [head] at hhead; omega)
      | writeReg addr reg data n =>
        simp [Call.transferred, hzero, hacked (by simp [head] at hhead; omega)]
      | read addr n => simp [Call.transferred, hzero, hrec]
      | readReg addr reg n => simp [Call.transferred, hzero, hrec]
    · cases f <;> simp [hhead, hzero, hlen, hrdata]
  · rw [if_neg hhead] at h
    obtain ⟨j, rfl⟩ := Nat.exists_eq_add_of_le (Nat.le_of_not_lt hhead)
    cases f with
    | write addr data n =>
      simp only [head, Nat.add_sub_cancel_left] at h
      obtain ⟨hacked, hrdata, h⟩ := h
      refine ⟨by simp [Call.transferred, head, hacked], by simp [hrdata], ?_⟩
      simp only [head, Nat.add_sub_cancel_left, if_neg (show ¬ 2 + j < 2 by omega)]
      have hj : j ≤ n.toNat := by simp only [head, last] at hk; omega
      split at h <;> omega
    | writeReg addr reg data n =>
      simp only [head, Nat.add_sub_cancel_left] at h
      obtain ⟨hacked, hrdata, h⟩ := h
      refine ⟨by simp [Call.transferred, head, hacked], by simp [hrdata], ?_⟩
      simp only [head, Nat.add_sub_cancel_left, if_neg (show ¬ 3 + j < 3 by omega)]
      have hj : j ≤ n.toNat := by simp only [head, last] at hk; omega
      split at h <;> omega
    | read addr n =>
      simp only [head, Nat.add_sub_cancel_left] at h
      obtain ⟨hrec, hrdata, hlen, -⟩ := h
      exact ⟨by simp [Call.transferred, head, hrec], by simp [head, hrdata],
        by simpa [head] using ⟨hlen, hrdata⟩⟩
    | readReg addr reg n =>
      simp only [head, Nat.add_sub_cancel_left] at h
      obtain ⟨hrec, hrdata, hlen, -⟩ := h
      exact ⟨by simp [Call.transferred, head, hrec], by simp [head, hrdata],
        by simpa [head] using ⟨hlen, hrdata⟩⟩

theorem Stage.running (hk : k < f.last) (h : f.Stage k s) :
    s.waits = k ∧ s.u8Xfering = true ∧ s.u8Err = false := by
  obtain ⟨hwaits, hE, h⟩ := h
  refine ⟨hwaits, ?_, hE⟩
  by_cases hhead : k < f.head
  · rw [if_pos hhead] at h
    exact h.1
  · rw [if_neg hhead] at h
    cases f with
    | write addr data n =>
      have := h.2.2
      rw [if_pos (by simp only [head, last] at hk hhead; omega)] at this
      exact this.1
    | writeReg addr reg data n =>
      have := h.2.2
      rw [if_pos (by simp only [head, last] at hk hhead; omega)] at this
      exact this.1
    | read addr n =>
      have := h.2.2.2
      rw [if_pos (by simp only [head, last] at hk hhead; omega)] at this
      exact this.1
    | readReg addr reg n =>
      have := h.2.2.2
      rw [if_pos (by simp only [head, last] at hk hhead; omega)] at this
      exact this.1

theorem head_le_last (f : Call) : f.head ≤ f.last := by
  cases f <;> simp only [head, last] <;> omega

theorem Stage.halted (h : f.Stage f.last s) : s.halted := by
  obtain ⟨-, -, h⟩ := h
  rw [if_neg (Nat.not_lt.mpr f.head_le_last)] at h
  suffices hX : s.u8Xfering = false by
    rw [St.halted, hX]
    simp
  cases f with
  | write addr data n =>
    have := h.2.2
    rw [if_neg (by simp [last])] at this
    exact this.1
  | writeReg addr reg data n =>
    have := h.2.2
    rw [if_neg (by simp [last])] at this
    exact this.1
  | read addr n =>
    have := h.2.2.2
    rw [if_neg (by simp [last])] at this
    exact this
  | readReg addr reg n =>
    have := h.2.2.2
    rw [if_neg (by simp [last])] at this
    exact this

theorem Counted.of_kept {t : St} (h : f.Counted k s) (hkept : s.Kept t) : f.Counted k t := by
  obtain ⟨hlen, hacked, hrec, hrdata⟩ := hkept
  obtain ⟨h1, h2, h3⟩ := h
  refine ⟨?_, by rwa [hrdata], ?_⟩
  · cases f <;> simpa [Call.transferred, hacked, hrec] using h1
  · cases f <;> simpa [hlen, hrdata] using h3

/-- **Every call ends**, with the count of the stage that broke it off or of the last one. -/
theorem ends (SystemCoreClock : BitVec 32) (replies : ℕ → Reply) (f : Call) :
    ∃ k e, EndsIn (step SystemCoreClock replies f) St.halted St.init e ∧ f.Counted k e ∧
      k ≤ f.last ∧ (∀ i < k, (replies i).Fine SystemCoreClock) ∧
      (k < f.last → ¬ (replies k).Fine SystemCoreClock) := by
  obtain ⟨e, he, ⟨hall, hend⟩ | ⟨k, hk, hbefore, hbad, hbroken⟩⟩ :=
    @stages_end _ (step SystemCoreClock replies f) St.halted St.init f.Stage f.Counted
      (fun k => (replies k).Fine SystemCoreClock) f.last (stage_init f)
      (fun k hk t ht hr => stage_succ hk ht hr)
      (fun k hk t ht hr => by
        obtain ⟨hwaits, hX, hE⟩ := ht.running hk
        rw [← hwaits] at hr
        obtain ⟨hhalt, hkept⟩ := step_bad hX hE hr
        exact ⟨hhalt, (ht.counts hk.le).of_kept hkept⟩)
      (fun t ht => ht.halted)
  · exact ⟨f.last, e, he, hend.counts le_rfl, le_rfl, hall, fun h => absurd h (lt_irrefl _)⟩
  · exact ⟨k, e, he, hbroken, hk.le, hbefore, fun _ => hbad⟩

/-- **Reporting what happened**: the call ends, returns the number of bytes transferred and has
stored no more than were asked for. -/
def Reports (SystemCoreClock : BitVec 32) (replies : ℕ → Reply) (f : Call) : Prop :=
  ∃ e, EndsIn (step SystemCoreClock replies f) St.halted St.init e ∧
    e.len.toNat = f.transferred e ∧ e.rdata.length ≤ f.length

/-- A write reports unless it is broken off at a data byte; a read unless fewer than two bytes
were asked for and more come. -/
def Fits (SystemCoreClock : BitVec 32) (replies : ℕ → Reply) (f : Call) : Prop :=
  match f with
  | write .. | writeReg .. =>
    (∃ i < f.head, ¬ (replies i).Fine SystemCoreClock) ∨
      ∀ i < f.head + f.length, (replies i).Fine SystemCoreClock
  | read .. | readReg .. =>
    2 ≤ f.length ∨ ∃ i < f.head + f.length + 1, ¬ (replies i).Fine SystemCoreClock

/-- A count that starts with the byte is right before the first one and at the end. -/
theorem write_counted {ok : ℕ → Prop} {k m n c : ℕ} (hk : k ≤ m + n)
    (hc : c = if k < m then 0 else min (k - m + 1) n) (hbefore : ∀ i < k, ok i)
    (hbad : k < m + n → ¬ ok k) :
    c = k - m ↔ (∃ i < m, ¬ ok i) ∨ ∀ i < m + n, ok i := by
  constructor
  · intro h
    by_cases hm : k < m
    · exact .inl ⟨k, hm, hbad (by omega)⟩
    · -- the byte at which it was broken off would be counted too
      rw [if_neg hm] at hc
      have hend : k = m + n := by omega
      exact .inr fun i hi => hbefore i (by omega)
  · rintro (⟨i, hi, hne⟩ | hall)
    · have hki : k ≤ i := by
        by_contra hlt
        exact hne (hbefore i (by omega))
      rw [hc, if_pos (by omega)]
      omega
    · have hend : k = m + n := by
        by_contra hlt
        exact hbad (by omega) (hall k (by omega))
      rw [hc]
      split <;> omega

/-- A read of `n` bytes that goes on to the byte `t` behind the head stays in its buffer, unless
it gets further than `n`. -/
theorem read_counted {ok : ℕ → Prop} {k m t : ℕ} {n : BitVec 32} (ht : t = taken n + 1)
    (hk : k ≤ m + t) (hbefore : ∀ i < k, ok i) (hbad : k < m + t → ¬ ok k) :
    (k - m) % 2 ^ 32 = k - m ∧ k - m ≤ n.toNat ↔
      2 ≤ n.toNat ∨ ∃ i < m + n.toNat + 1, ¬ ok i := by
  have hn := n.isLt
  -- with no byte asked for the bound wraps around
  have htaken : t = if n.toNat = 0 then 2 ^ 32 else max 2 n.toNat := by
    rw [ht, taken, BitVec.toNat_sub, show (1 : BitVec 32).toNat = 1 from rfl]
    split <;> omega
  have hiff : (k - m) % 2 ^ 32 = k - m ∧ k - m ≤ n.toNat ↔ k - m ≤ n.toNat :=
    and_iff_right_of_imp fun h => Nat.mod_eq_of_lt (by omega)
  rw [hiff]
  constructor
  · intro h
    by_cases h2 : 2 ≤ n.toNat
    · exact .inl h2
    · refine .inr ⟨k, by omega, hbad ?_⟩
      split at htaken <;> omega
  · rintro (h2 | ⟨i, hi, hne⟩)
    · rw [if_neg (by omega)] at htaken
      omega
    · have hki : k ≤ i := by
        by_contra hlt
        exact hne (hbefore i (by omega))
      omega

theorem reports_of_end {e : St}
    (he : EndsIn (step SystemCoreClock replies f) St.halted St.init e) :
    f.Reports SystemCoreClock replies ↔
      e.len.toNat = f.transferred e ∧ e.rdata.length ≤ f.length := by
  refine ⟨?_, fun h => ⟨e, he, h⟩⟩
  rintro ⟨e', he', h⟩
  rwa [EndsIn.unique (fun t ht => step_of_halted ht) he he']

/-- **Which calls report what happened.** -/
theorem reports_iff (SystemCoreClock : BitVec 32) (replies : ℕ → Reply) (f : Call) :
    f.Reports SystemCoreClock replies ↔ f.Fits SystemCoreClock replies := by
  obtain ⟨k, e, he, hcount, hk, hbefore, hbad⟩ := ends SystemCoreClock replies f
  have hrep : f.Reports SystemCoreClock replies ↔
      e.len.toNat = k - f.head ∧ e.rdata.length ≤ f.length := by
    rw [← hcount.transferred]
    exact reports_of_end he
  have hlen := hcount.len
  have hstored := hcount.stored
  rw [hrep]
  cases f with
  | write addr data n =>
    rw [and_iff_left (by simp only [head, last, length] at *; omega)]
    exact write_counted hk hlen hbefore hbad
  | writeReg addr reg data n =>
    rw [and_iff_left (by simp only [head, last, length] at *; omega)]
    exact write_counted hk hlen hbefore hbad
  | read addr n =>
    rw [hlen.1, hlen.2]
    exact read_counted rfl hk hbefore hbad
  | readReg addr reg n =>
    rw [hlen.1, hlen.2]
    exact read_counted rfl hk hbefore hbad

/-- A slave that answers at once, with a refusal of operation `k`. -/
def refusing (k : ℕ) : ℕ → Reply := fun i => ⟨0, if i = k then .nack else .ack, 0⟩

/-- **A byte that was refused is counted**, and a read of one byte stores two. -/
theorem write_refused :
    ¬ (write 0x50 (fun _ => 0xAB) 1).Reports 72000000 (refusing 2) ∧
      ¬ (read 0x50 1).Reports 72000000 (refusing 100) := by
  constructor
  · have he : EndsIn (step 72000000 (refusing 2) (write 0x50 (fun _ => 0xAB) 1)) St.halted St.init
        ((step 72000000 (refusing 2) (write 0x50 (fun _ => 0xAB) 1))^[3] St.init) :=
      ⟨by decide, 3, rfl⟩
    rw [reports_of_end he]
    decide
  · have he : EndsIn (step 72000000 (refusing 100) (read 0x50 1)) St.halted St.init
        ((step 72000000 (refusing 100) (read 0x50 1))^[4] St.init) := ⟨by decide, 4, rfl⟩
    rw [reports_of_end he]
    decide

end Call

end I2c.MultiBytes
