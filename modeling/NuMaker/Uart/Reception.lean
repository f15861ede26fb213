/-
Circular DMA reception of the UART and the USCI.

The PDMA channel fills the receive buffer with a descriptor that links to itself: at
the last byte the count is loaded again and the transfer-done flag goes up.  `pdma_isr`
calls `nu_pdma_uart_rx_cb` or its twin, which works out from the count, a saved index
and the events how many bytes have come in since.  A `Line` is such a channel with its
driver: the interrupt handlers of `Isr`, the count register, the index, the lengths
reported, and how far the last interrupt was to report.

* `rx_cb_spec` — what the two callbacks do with an event.
-/
import NuMaker.Pdma.Delivery
import NuMaker.Pdma.Channels

namespace Uart

open Pdma

/-! ### The callbacks -/

/-- `nu_pdma_non_transfer_count_get`, from the control word of the channel. -/
def nu_pdma_non_transfer_count_get (CTL : BitVec 32) : ℕ := field CTL 16 16 + 1

/-- `i32BitWidth`: the bytes of a unit. -/
def i32BitWidth (CTL : BitVec 32) : ℕ :=
  match field CTL 12 2 with
  | 0 => 1
  | 1 => 2
  | 2 => 4
  | _ => 0

/-- `nu_pdma_transferred_byte_get`. -/
def nu_pdma_transferred_byte_get (s : State) (i32ModChnID : ℕ) (CTL i32TriggerByteLen : BitVec 32) :
    BitVec 32 :=
  if nu_pdma_check_is_nonallocated s i32ModChnID then -1
  else
    let cur_txcnt := nu_pdma_non_transfer_count_get CTL
    i32TriggerByteLen - BitVec.ofNat 32 (cur_txcnt * i32BitWidth CTL)

/-- The events say that a transfer is done. -/
def isDone (u32Events : BitVec 32) : Bool := u32Events &&& NU_PDMA_EVENT_TRANSFER_DONE ≠ 0

/-- The events say that the line is idle. -/
def isIdle (u32Events : BitVec 32) : Bool := u32Events &&& NU_PDMA_EVENT_TIMEOUT ≠ 0

/-- `nu_pdma_uart_rx_cb`: the index after it and `recv_len`, with `dma_put_index` the
transferred bytes it reads first. -/
def nu_pdma_uart_rx_cb (bufsz bufsize put_index dma_put_index : BitVec 32) (rxEmpty : Bool)
    (u32Events : BitVec 32) : BitVec 32 × BitVec 32 :=
  if isDone u32Events = false ∧ isIdle u32Events = true ∧ rxEmpty = false then (put_index, 0)
  else
    let dma_put_index := if isDone u32Events then bufsize else dma_put_index
    let recv_len := if isDone u32Events ∨ isIdle u32Events then dma_put_index - put_index else 0
    let put_index := if recv_len > 0 then dma_put_index % bufsize else put_index
    let recv_len := if bufsz = 0 ∧ isDone u32Events then bufsize else recv_len
    (put_index, recv_len)

/-- `nu_pdma_uuart_rx_cb`: the index is written also when nothing has come in. -/
def nu_pdma_uuart_rx_cb (bufsz rxdma_trigger_len rx_write_offset transferred_rxbyte : BitVec 32)
    (rxEmpty : Bool) (u32Events : BitVec 32) : BitVec 32 × BitVec 32 :=
  if isDone u32Events = false ∧ isIdle u32Events = true ∧ rxEmpty = false then (rx_write_offset, 0)
  else
    let transferred_rxbyte := if isDone u32Events then rxdma_trigger_len else transferred_rxbyte
    let taken := isDone u32Events ∨ isIdle u32Events
    let recv_len := if taken then transferred_rxbyte - rx_write_offset else 0
    let rx_write_offset :=
      if taken then transferred_rxbyte % rxdma_trigger_len else rx_write_offset
    let recv_len := if bufsz = 0 ∧ isDone u32Events then rxdma_trigger_len else recv_len
    (rx_write_offset, recv_len)

/-- The two drivers. -/
inductive Twin
  | uart
  | uuart
  deriving DecidableEq, Repr

def Twin.rx_cb : Twin → BitVec 32 → BitVec 32 → BitVec 32 → BitVec 32 → Bool → BitVec 32 →
    BitVec 32 × BitVec 32
  | .uart => nu_pdma_uart_rx_cb
  | .uuart => nu_pdma_uuart_rx_cb

/-- What a callback does in the circular mode. -/
structure RxDone (bufsize put_index dma_put_index : BitVec 32) (rxEmpty : Bool)
    (u32Events : BitVec 32) (r : BitVec 32 × BitVec 32) : Prop where
  done : isDone u32Events = true → r = (0, bufsize - put_index)
  idle : isDone u32Events = false → isIdle u32Events = true → rxEmpty = true →
    r = (dma_put_index, dma_put_index - put_index)
  busy : isDone u32Events = false → isIdle u32Events = true → rxEmpty = false → r = (put_index, 0)
  other : isDone u32Events = false → isIdle u32Events = false → r = (put_index, 0)

/-- Both callbacks do the same: the rest of the buffer when a transfer is done, the
bytes since the last report when the line is idle and the FIFO empty. -/
theorem rx_cb_spec (t : Twin) {bufsz bufsize put_index dma_put_index : BitVec 32} (hbufsz : bufsz ≠ 0)
    (hput : put_index < bufsize) (hdma : dma_put_index < bufsize) (rxEmpty : Bool)
    (u32Events : BitVec 32) : RxDone bufsize put_index dma_put_index rxEmpty u32Events
      (t.rx_cb bufsz bufsize put_index dma_put_index rxEmpty u32Events) := by
  have hput' : put_index.toNat < bufsize.toNat := hput
  have hbufsz' : ¬ bufsz = 0#32 := hbufsz
  have hmod : dma_put_index % bufsize = dma_put_index :=
    BitVec.eq_of_toNat_eq (by rw [BitVec.toNat_umod, Nat.mod_eq_of_lt hdma])
  have hself : bufsize % bufsize = 0#32 := BitVec.umod_self
  have hpos : 0#32 < bufsize - put_index := by
    rw [BitVec.lt_def, BitVec.toNat_sub]
    have := bufsize.isLt
    simp only [BitVec.toNat_zero]
    omega
  have hsame : ¬ 0#32 < dma_put_index - put_index → dma_put_index = put_index := by
    intro h
    have h0 : dma_put_index - put_index = 0#32 := by
      rw [BitVec.not_lt] at h
      exact BitVec.le_zero_iff.mp h
    have hn := congrArg BitVec.toNat h0
    rw [BitVec.toNat_sub] at hn
    have := dma_put_index.isLt
    have := put_index.isLt
    refine BitVec.eq_of_toNat_eq ?_
    simp only [BitVec.toNat_zero] at hn
    omega
  cases t with
  | uart =>
    constructor
    · intro hd
      simp [Twin.rx_cb, nu_pdma_uart_rx_cb, hd, hbufsz', hpos, hself]
    · intro hd hi he
      by_cases hlen : 0#32 < dma_put_index - put_index
      · simp [Twin.rx_cb, nu_pdma_uart_rx_cb, hd, hi, he, hlen, hmod]
      · rw [hsame hlen]
        simp [Twin.rx_cb, nu_pdma_uart_rx_cb, hd, hi, he]
    · intro hd hi he
      simp [Twin.rx_cb, nu_pdma_uart_rx_cb, hd, hi, he]
    · intro hd hi
      simp [Twin.rx_cb, nu_pdma_uart_rx_cb, hd, hi]
  | uuart =>
    constructor
    · intro hd
      simp [Twin.rx_cb, nu_pdma_uuart_rx_cb, hd, hbufsz', hself]
    · intro hd hi he
      simp [Twin.rx_cb, nu_pdma_uuart_rx_cb, hd, hi, he, hmod]
    · intro hd hi he
      simp [Twin.rx_cb, nu_pdma_uuart_rx_cb, hd, hi, he]
    · intro hd hi
      simp [Twin.rx_cb, nu_pdma_uuart_rx_cb, hd, hi]

/-! ### The line -/

/-- A reception: channel `chn` of module `mod` is in use, its handler wants transfer-done
and time-out, and the buffer is one a descriptor can have. -/
structure RxDma where
  drv : State
  mod : ℕ
  chn : ℕ
  twin : Twin
  bufsize : ℕ
  done : Deliverable drv mod chn .TDSTS
  idle : Deliverable drv mod chn .REQTOF
  pos : 0 < bufsize
  le : bufsize ≤ NU_PDMA_MAX_TXCNT

/-- The control word of the descriptor that links to itself, as `nu_pdma_desc_setup`
makes it for the receive register. -/
def RxDma.CTL (x : RxDma) : BitVec 32 :=
  descCTL ((BitVec.ofNat 32 x.bufsize - 1) <<< PDMA_DSCT_CTL_TXCNT_Pos) 8 .eMemCtl_SrcFix_DstInc false
    true false

/-- A call of `rt_hw_serial_isr`: from which index on, and how many bytes. -/
structure Report where
  start : BitVec 32
  len : BitVec 32
  deriving DecidableEq, Repr

/-- The bytes reported. -/
def total (reports : List Report) : ℕ := (reports.map fun r => r.len.toNat).sum

/-- The channel with its handlers and its driver.  `written` counts the bytes the channel
has written, `upTo` those it had written up to the last interrupt. -/
structure Line where
  isr : Isr
  CTL : BitVec 32
  written : ℕ
  rxEmpty : Bool
  put_index : BitVec 32
  reports : List Report
  upTo : ℕ

/-- The channel writes a byte, the receive FIFO of the UART becomes empty or not, or a
step of the interrupt handlers and of the other flags. -/
inductive LineStep
  | byte
  | fifo (rxEmpty : Bool)
  | isr (op : IsrStep)

section Line

variable (x : RxDma) (σ : Line)

/-- The transfer-done flag of the channel. -/
def Line.flag : Bool := (σ.isr.regs x.mod .TDSTS).getLsbD x.chn

/-- `dma_put_index`, as it is read now. -/
def Line.transferred : BitVec 32 :=
  nu_pdma_transferred_byte_get σ.isr.drv (chId x.mod x.chn) σ.CTL (BitVec.ofNat 32 x.bufsize)

/-- A byte is written; after the last one the descriptor is loaded again and the
transfer-done flag is raised. -/
def Line.byte : Line :=
  if field σ.CTL 16 16 = 0 then
    { σ with
      isr := σ.isr.raise x.mod x.chn .TDSTS
      CTL := x.CTL
      written := σ.written + 1 }
  else
    { σ with
      CTL := setField σ.CTL 16 16 (BitVec.ofNat 32 (field σ.CTL 16 16 - 1))
      written := σ.written + 1 }

/-- The callback.  A time-out is about all bytes written, a transfer done about the
bytes up to the end of the buffer at which its flag was raised: not the last end, when
the flag is up again. -/
def Line.called (u32Events : BitVec 32) : Line :=
  let bufsz := BitVec.ofNat 32 x.bufsize
  let r := x.twin.rx_cb bufsz bufsz σ.put_index (σ.transferred x) σ.rxEmpty u32Events
  { σ with
    put_index := r.1
    reports := σ.reports ++ if r.2 ≠ 0 then [⟨σ.put_index, r.2⟩] else []
    upTo :=
      if isIdle u32Events then σ.written
      else if isDone u32Events then x.bufsize * (σ.written / x.bufsize - (σ.flag x).toNat)
      else σ.upTo }

/-- The handlers go on to `isr`; a call of the channel's handler is one of the callback. -/
def Line.goto (isr : Isr) : Line :=
  match isr.events.drop σ.isr.events.length with
  | [e] =>
    if e.mod = x.mod ∧ e.chn = x.chn then Line.called x { σ with isr := isr } e.u32Events
    else { σ with isr := isr }
  | _ => { σ with isr := isr }

/-- Only the channel itself raises its transfer-done flag. -/
def RxDma.raisedBy : IsrStep → Bool
  | .raise m i .TDSTS => m = x.mod && i = x.chn
  | _ => false

def Line.step : LineStep → Option Line
  | .byte => some (σ.byte x)
  | .fifo rxEmpty => some { σ with rxEmpty := rxEmpty }
  | .isr op => if x.raisedBy op then none else (σ.isr.step op).map fun isr => σ.goto x isr

end Line

/-- The first descriptor is loaded and nothing written. -/
def Line.start (x : RxDma) : Line := ⟨.start x.drv, x.CTL, 0, true, 0, [], 0⟩

/-- States of runs in which every step meets `P`. -/
inductive Line.ReachableBy (x : RxDma) (P : Line → LineStep → Prop) : Line → Prop
  | start : ReachableBy x P (.start x)
  | step {σ σ' : Line} {op : LineStep} (h : ReachableBy x P σ) (hp : P σ op)
    (hs : σ.step x op = some σ') : ReachableBy x P σ'

end Uart
