/-
The clients of the DMA controller: how the UART and the SPI driver ask for channels, and which
ids they then pass to it.

A channel id is a module and a channel packed into an `int`; a failed request returns a negative
one.  Both drivers keep the ids in unsigned fields, so that their tests for a failure never
succeed, and the SPI driver copies them into a byte on their way to the controller.  What a
driver does with its channels is recorded as the list of calls it makes, each with the direction
it is made for:

* **`uart_keeps_iff`** — a UART drives granted channels only exactly when both its directions
  have a channel or neither asks for one;
* **`spi_keeps_iff`** — an SPI bus, when both directions were granted channels of the first module;
* **`clients_keep_iff`** — the two together.
-/
import NuMaker.Pdma.Driver

namespace Pdma

namespace Clients

/-! ### Grants and calls -/

/-- The two directions a driver asks for channels in. -/
inductive Dir
  | tx
  | rx
deriving DecidableEq, Repr

/-- `pdma_chid_t` of a channel that exists. -/
structure Chid where
  u16ModIdx : ℕ
  u16ChnIdx : ℕ
  mod_lt : u16ModIdx < PDMA_CNT
  chn_lt : u16ChnIdx < PDMA_CH_MAX
deriving DecidableEq, Repr

/-- `u32ChID`: module and channel packed. -/
def Chid.u32ChID (c : Chid) : BitVec 32 := BitVec.ofNat 32 (chId c.u16ModIdx c.u16ChnIdx)

/-- `NU_PDMA_UNUSED`. -/
def NU_PDMA_UNUSED : BitVec 32 := BitVec.ofInt 32 (-1)

/-- What `nu_pdma_channel_allocate` answers for each direction: a channel, or an error. -/
abbrev Grants := Dir → Option Chid

/-- The `int` it returns. -/
def Grants.ret (g : Grants) (d : Dir) : BitVec 32 :=
  match g d with
  | some c => c.u32ChID
  | none => BitVec.ofInt 32 (-RT_ERROR)

/-- The answers that were asked for: a direction without a peripheral makes no request. -/
def Grants.asked (g : Grants) (perpTx perpRx : BitVec 32) : Grants
  | .tx => if perpTx ≠ NU_PDMA_UNUSED then g .tx else none
  | .rx => if perpRx ≠ NU_PDMA_UNUSED then g .rx else none

/-- The functions of the controller the two drivers call with a channel id. -/
inductive Fn
  | sgtbls_allocate | filtering_set | callback_register | channel_memctrl_set | transfer
  | desc_setup | sg_transfer | transferred_byte_get | channel_terminate | channel_free
deriving DecidableEq, Repr

/-- A call into the controller, with the direction it is made for. -/
structure Call where
  dir : Dir
  fn : Fn
  id : BitVec 32
deriving DecidableEq, Repr

/-- The id passed is the one granted for the direction, bit for bit. -/
def Call.Granted (g : Grants) (c : Call) : Prop := ∃ i, g c.dir = some i ∧ c.id = i.u32ChID

/-- Calls made one after the other, up to one that returns an error. -/
def chain (ok : Call → Bool) : List Call → List Call
  | [] => []
  | c :: cs => c :: if ok c then chain ok cs else []

theorem chain_subset (ok : Call → Bool) (l : List Call) : chain ok l ⊆ l := by
  induction l with
  | nil => exact List.Subset.refl _
  | cons c cs ih =>
    unfold chain
    split
    · exact List.cons_subset_cons c ih
    · exact List.cons_subset_cons c (List.nil_subset _)

/-! ### The UART driver -/

def RT_DEVICE_FLAG_DMA_RX : BitVec 32 := 0x200
def RT_DEVICE_FLAG_DMA_TX : BitVec 32 := 0x800

/-- The DMA fields of `struct nu_uart`; `bufsz` is that of its serial configuration. -/
structure nu_uart where
  dma_flag : BitVec 32
  pdma_perp_tx : BitVec 32
  pdma_chanid_tx : BitVec 32
  pdma_perp_rx : BitVec 32
  pdma_chanid_rx : BitVec 32
  bufsz : ℕ
deriving DecidableEq, Repr

/-- A port before its set-up: the fields the table does not mention are zero. -/
def nu_uart.boot (perpTx perpRx : BitVec 32) (bufsz : ℕ) : nu_uart :=
  { dma_flag := 0, pdma_perp_tx := perpTx, pdma_chanid_tx := 0, pdma_perp_rx := perpRx
    pdma_chanid_rx := 0, bufsz := bufsz }

/-- `nu_hw_uart_dma_allocate`. -/
def nu_hw_uart_dma_allocate (g : Grants) (u : nu_uart) : nu_uart × List Call :=
  let u := if u.pdma_perp_tx ≠ NU_PDMA_UNUSED then
      let u := { u with pdma_chanid_tx := g.ret .tx }
      -- the field is unsigned: any id is at least zero
      if 0#32 ≤ u.pdma_chanid_tx then { u with dma_flag := u.dma_flag ||| RT_DEVICE_FLAG_DMA_TX }
      else u
    else u
  if u.pdma_perp_rx ≠ NU_PDMA_UNUSED then
    let u := { u with pdma_chanid_rx := g.ret .rx }
    if 0#32 ≤ u.pdma_chanid_rx then
      ({ u with dma_flag := u.dma_flag ||| RT_DEVICE_FLAG_DMA_RX },
        [⟨.rx, .sgtbls_allocate, u.pdma_chanid_rx⟩])
    else (u, [])
  else (u, [])

/-- What the serial framework asks of a port that has been set up. -/
inductive UartOp
  | clr_int_dma_rx | config_dma_rx | config_dma_tx | close | dma_transmit_tx | dma_transmit_rx
  | rx_cb
deriving DecidableEq, Repr

/-- The framework opens a direction for DMA only when the port reports it, and makes the
requests of that direction only then; it closes any port. -/
def UartOp.Allowed (flag : BitVec 32) : UartOp → Prop
  | .close => True
  | .config_dma_tx | .dma_transmit_tx => flag &&& RT_DEVICE_FLAG_DMA_TX ≠ 0
  | .clr_int_dma_rx | .config_dma_rx | .dma_transmit_rx | .rx_cb =>
    flag &&& RT_DEVICE_FLAG_DMA_RX ≠ 0

/-- `nu_pdma_uart_rx_config`; the filter's result is not looked at. -/
def nu_pdma_uart_rx_config (ok : Call → Bool) (u : nu_uart) : List Call :=
  let id := u.pdma_chanid_rx
  ⟨.rx, .filtering_set, id⟩ :: chain ok (⟨.rx, .callback_register, id⟩ ::
    if u.bufsz = 0 then [⟨.rx, .transfer, id⟩]
    else [⟨.rx, .desc_setup, id⟩, ⟨.rx, .sg_transfer, id⟩])

/-- The calls a request makes. -/
def nu_uart.calls (ok : Call → Bool) (u : nu_uart) : UartOp → List Call
  | .clr_int_dma_rx =>
    if u.dma_flag &&& RT_DEVICE_FLAG_DMA_RX ≠ 0 then
      [⟨.rx, .channel_terminate, u.pdma_chanid_rx⟩]
    else []
  | .config_dma_rx | .dma_transmit_rx => nu_pdma_uart_rx_config ok u
  | .config_dma_tx =>
    [⟨.tx, .filtering_set, u.pdma_chanid_tx⟩, ⟨.tx, .callback_register, u.pdma_chanid_tx⟩]
  | .close =>
    -- one direction is enough for both channels to be terminated
    if u.dma_flag ≠ 0 then
      [⟨.tx, .channel_terminate, u.pdma_chanid_tx⟩, ⟨.rx, .channel_terminate, u.pdma_chanid_rx⟩]
    else []
  | .dma_transmit_tx => [⟨.tx, .transfer, u.pdma_chanid_tx⟩]
  | .rx_cb => [⟨.rx, .transferred_byte_get, u.pdma_chanid_rx⟩]

/-- A UART that keeps to its grants: the calls of the set-up and of every later request pass
granted ids, and a direction whose allocation failed is not reported. -/
structure UartKeeps (g : Grants) (u : nu_uart) : Prop where
  setup : ∀ c ∈ (nu_hw_uart_dma_allocate g u).2, c.Granted (g.asked u.pdma_perp_tx u.pdma_perp_rx)
  later : ∀ ok op, UartOp.Allowed (nu_hw_uart_dma_allocate g u).1.dma_flag op →
    ∀ c ∈ (nu_hw_uart_dma_allocate g u).1.calls ok op,
      c.Granted (g.asked u.pdma_perp_tx u.pdma_perp_rx)
  failedTx : u.pdma_perp_tx ≠ NU_PDMA_UNUSED → g .tx = none →
    (nu_hw_uart_dma_allocate g u).1.dma_flag &&& RT_DEVICE_FLAG_DMA_TX = 0
  failedRx : u.pdma_perp_rx ≠ NU_PDMA_UNUSED → g .rx = none →
    (nu_hw_uart_dma_allocate g u).1.dma_flag &&& RT_DEVICE_FLAG_DMA_RX = 0

/-- An unsigned field is never negative. -/
theorem zero_le_word (x : BitVec 32) : 0#32 ≤ x := by
  rw [BitVec.le_def]
  exact Nat.zero_le _

/-- The set-up by its outcome: each direction that is used takes the id and is reported, whatever
the id is. -/
theorem nu_hw_uart_dma_allocate_eq (g : Grants) (u : nu_uart) :
    nu_hw_uart_dma_allocate g u =
      ({ u with
          pdma_chanid_tx := if u.pdma_perp_tx ≠ NU_PDMA_UNUSED then g.ret .tx else u.pdma_chanid_tx
          pdma_chanid_rx := if u.pdma_perp_rx ≠ NU_PDMA_UNUSED then g.ret .rx else u.pdma_chanid_rx
          dma_flag := u.dma_flag |||
            (if u.pdma_perp_tx ≠ NU_PDMA_UNUSED then RT_DEVICE_FLAG_DMA_TX else 0) |||
            (if u.pdma_perp_rx ≠ NU_PDMA_UNUSED then RT_DEVICE_FLAG_DMA_RX else 0) },
        if u.pdma_perp_rx ≠ NU_PDMA_UNUSED then [⟨.rx, .sgtbls_allocate, g.ret .rx⟩] else []) := by
  obtain ⟨flag, perpTx, chanTx, perpRx, chanRx, bufsz⟩ := u
  unfold nu_hw_uart_dma_allocate
  by_cases htx : perpTx = NU_PDMA_UNUSED
  · by_cases hrx : perpRx = NU_PDMA_UNUSED
    · simp [htx, hrx]
    · simp [htx, hrx, zero_le_word]
  · by_cases hrx : perpRx = NU_PDMA_UNUSED
    · simp [htx, hrx, zero_le_word]
    · simp [htx, hrx, zero_le_word]

/-- An id goes through the unsigned field as it is. -/
theorem Grants.ret_some {g : Grants} {d : Dir} {c : Chid} (h : g d = some c) :
    g.ret d = c.u32ChID := by
  rw [Grants.ret, h]

/-- The channels a UART was granted are used in both directions or in none. -/
def UartServed (g : Grants) (u : nu_uart) : Prop :=
  (u.pdma_perp_tx ≠ NU_PDMA_UNUSED ↔ u.pdma_perp_rx ≠ NU_PDMA_UNUSED) ∧
  (u.pdma_perp_tx ≠ NU_PDMA_UNUSED → (g .tx).isSome ∧ (g .rx).isSome)

/-- Every call a UART makes is for a direction's own id. -/
theorem nu_uart.calls_id (ok : Call → Bool) (u : nu_uart) (op : UartOp) :
    ∀ c ∈ u.calls ok op,
      c.id = (match c.dir with | .tx => u.pdma_chanid_tx | .rx => u.pdma_chanid_rx) := by
  have hrx : ∀ c ∈ nu_pdma_uart_rx_config ok u, c.id =
      (match c.dir with | .tx => u.pdma_chanid_tx | .rx => u.pdma_chanid_rx) := by
    intro c hc
    rcases List.mem_cons.1 hc with rfl | hc
    · rfl
    · have hc' := chain_subset ok _ hc
      by_cases hb : u.bufsz = 0
      · rw [if_pos hb] at hc'
        simp only [List.mem_cons, List.not_mem_nil, or_false] at hc'
        rcases hc' with rfl | rfl <;> rfl
      · rw [if_neg hb] at hc'
        simp only [List.mem_cons, List.not_mem_nil, or_false] at hc'
        rcases hc' with rfl | rfl | rfl <;> rfl
  intro c hc
  cases op with
  | clr_int_dma_rx =>
    simp only [nu_uart.calls] at hc
    split at hc
    · obtain rfl := List.mem_singleton.1 hc
      rfl
    · cases hc
  | config_dma_rx => exact hrx c hc
  | dma_transmit_rx => exact hrx c hc
  | config_dma_tx =>
    simp only [nu_uart.calls, List.mem_cons, List.not_mem_nil, or_false] at hc
    rcases hc with rfl | rfl <;> rfl
  | close =>
    simp only [nu_uart.calls] at hc
    split at hc
    · simp only [List.mem_cons, List.not_mem_nil, or_false] at hc
      rcases hc with rfl | rfl <;> rfl
    · cases hc
  | dma_transmit_tx =>
    obtain rfl := List.mem_singleton.1 hc
    rfl
  | rx_cb =>
    obtain rfl := List.mem_singleton.1 hc
    rfl

/-- A granted call of a direction that asked for its channel. -/
theorem Call.Granted.isSome {g : Grants} {perpTx perpRx : BitVec 32} {c : Call}
    (h : c.Granted (g.asked perpTx perpRx)) :
    (match c.dir with | .tx => perpTx | .rx => perpRx) ≠ NU_PDMA_UNUSED ∧ (g c.dir).isSome := by
  obtain ⟨i, hi, -⟩ := h
  cases hd : c.dir with
  | tx =>
    rw [hd] at hi
    simp only [Grants.asked, Option.ite_none_right_eq_some] at hi
    exact ⟨hi.1, by rw [hi.2]; rfl⟩
  | rx =>
    rw [hd] at hi
    simp only [Grants.asked, Option.ite_none_right_eq_some] at hi
    exact ⟨hi.1, by rw [hi.2]; rfl⟩

/-- A port that uses no channel reports none, and makes no calls. -/
theorem calls_eq_nil_of_flag {u : nu_uart} (hf : u.dma_flag = 0) {ok : Call → Bool} {op : UartOp}
    (ha : op.Allowed u.dma_flag) : u.calls ok op = [] := by
  cases op with
  | close => simp [nu_uart.calls, hf]
  | _ => simp [UartOp.Allowed, hf] at ha

/-- **A UART keeps to its grants exactly when it is served in both directions, or asks in
neither.**  A refused direction is reported all the same, and closing a port with one direction
terminates the channel of the other. -/
theorem uart_keeps_iff (g : Grants) (perpTx perpRx : BitVec 32) (bufsz : ℕ) :
    UartKeeps g (nu_uart.boot perpTx perpRx bufsz) ↔
      UartServed g (nu_uart.boot perpTx perpRx bufsz) := by
  have heq := nu_hw_uart_dma_allocate_eq g (nu_uart.boot perpTx perpRx bufsz)
  constructor
  · intro h
    -- closing a port that uses a direction terminates both channels
    have hclose : (perpTx ≠ NU_PDMA_UNUSED ∨ perpRx ≠ NU_PDMA_UNUSED) →
        ∀ d : Dir, (match d with | .tx => perpTx | .rx => perpRx) ≠ NU_PDMA_UNUSED ∧
          (g d).isSome := by
      intro hused d
      have hflag : (nu_hw_uart_dma_allocate g (nu_uart.boot perpTx perpRx bufsz)).1.dma_flag ≠ 0 := by
        rw [heq]
        by_cases htx : perpTx = NU_PDMA_UNUSED
        · have hrx : perpRx ≠ NU_PDMA_UNUSED := hused.resolve_left (fun h => h htx)
          simp [nu_uart.boot, htx, hrx, RT_DEVICE_FLAG_DMA_RX]
        · by_cases hrx : perpRx = NU_PDMA_UNUSED
          · simp [nu_uart.boot, htx, hrx, RT_DEVICE_FLAG_DMA_TX]
          · simp [nu_uart.boot, htx, hrx, RT_DEVICE_FLAG_DMA_TX, RT_DEVICE_FLAG_DMA_RX]
      have hcalls := h.later (fun _ => true) .close trivial
      simp only [nu_uart.calls, ne_eq, hflag, not_false_iff, if_true, List.forall_mem_cons] at hcalls
      cases d with
      | tx => exact hcalls.1.isSome
      | rx => exact hcalls.2.1.isSome
    refine ⟨⟨fun htx => (hclose (Or.inl htx) .rx).1, fun hrx => (hclose (Or.inr hrx) .tx).1⟩, ?_⟩
    exact fun htx => ⟨(hclose (Or.inl htx) .tx).2, (hclose (Or.inl htx) .rx).2⟩
  · rintro ⟨hboth, hsome⟩
    by_cases htx : perpTx = NU_PDMA_UNUSED
    · have hrx : perpRx = NU_PDMA_UNUSED := by
        by_contra hrx
        exact hboth.2 hrx htx
      have hflag : (nu_hw_uart_dma_allocate g (nu_uart.boot perpTx perpRx bufsz)).1.dma_flag = 0 := by
        rw [heq]
        simp [nu_uart.boot, htx, hrx]
      refine ⟨?_, fun ok op ha c hc => ?_, fun h => absurd htx h, fun h => absurd hrx h⟩
      · rw [heq]
        simp [nu_uart.boot, hrx]
      · rw [calls_eq_nil_of_flag hflag ha] at hc
        cases hc
    · have hrx : perpRx ≠ NU_PDMA_UNUSED := hboth.1 htx
      obtain ⟨i, hi⟩ := Option.isSome_iff_exists.1 (hsome htx).1
      obtain ⟨j, hj⟩ := Option.isSome_iff_exists.1 (hsome htx).2
      have hgtx : (g.asked perpTx perpRx) .tx = some i := by rw [Grants.asked, if_pos htx, hi]
      have hgrx : (g.asked perpTx perpRx) .rx = some j := by rw [Grants.asked, if_pos hrx, hj]
      refine ⟨?_, fun ok op ha c hc => ?_, fun _ h => ?_, fun _ h => ?_⟩
      · rw [heq]
        intro c hc
        obtain rfl : c = ⟨.rx, .sgtbls_allocate, g.ret .rx⟩ := by simpa [nu_uart.boot, hrx] using hc
        exact ⟨j, hgrx, Grants.ret_some hj⟩
      · have hid := nu_uart.calls_id ok _ op c hc
        rw [heq] at hid
        cases hd : c.dir with
        | tx =>
          have hid' : c.id = g.ret .tx := by simpa [hd, nu_uart.boot, htx] using hid
          exact ⟨i, by rw [hd]; exact hgtx, hid'.trans (Grants.ret_some hi)⟩
        | rx =>
          have hid' : c.id = g.ret .rx := by simpa [hd, nu_uart.boot, hrx] using hid
          exact ⟨j, by rw [hd]; exact hgrx, hid'.trans (Grants.ret_some hj)⟩
      · rw [hi] at h
        cases h
      · rw [hj] at h
        cases h

/-! ### The SPI driver -/

/-- The DMA fields of `struct nu_spi`. -/
structure nu_spi where
  pdma_perp_tx : BitVec 32
  pdma_chanid_tx : BitVec 32
  pdma_perp_rx : BitVec 32
  pdma_chanid_rx : BitVec 32
  m_psSemBus : Bool
deriving DecidableEq, Repr

/-- `nu_hw_spi_pdma_allocate`. -/
def nu_hw_spi_pdma_allocate (g : Grants) (s : nu_spi) : ℤ × nu_spi × List Call :=
  let s := { s with pdma_chanid_tx := g.ret .tx }
  -- both fields are unsigned: neither test for an error ever holds
  if s.pdma_chanid_tx < 0#32 then (-RT_ERROR, s, [])
  else
    let s := { s with pdma_chanid_rx := g.ret .rx }
    if s.pdma_chanid_rx < 0#32 then (-RT_ERROR, s, [⟨.tx, .channel_free, s.pdma_chanid_tx⟩])
    else (RT_EOK, { s with m_psSemBus := true }, [])

/-- `rt_hw_spi_init` for one bus: what the allocation returned, if it was called. -/
def rt_hw_spi_init (g : Grants) (perpTx perpRx : BitVec 32) : Option ℤ × nu_spi × List Call :=
  let s : nu_spi := { pdma_perp_tx := perpTx, pdma_chanid_tx := BitVec.ofInt 32 (-1)
                      pdma_perp_rx := perpRx, pdma_chanid_rx := BitVec.ofInt 32 (-1)
                      m_psSemBus := false }
  if s.pdma_perp_tx ≠ NU_PDMA_UNUSED ∧ s.pdma_perp_rx ≠ NU_PDMA_UNUSED then
    let (ret, s, calls) := nu_hw_spi_pdma_allocate g s
    (some ret, s, calls)
  else (none, s, [])

/-- A channel id on its way through a local of the type `rt_uint8_t`. -/
def narrow (id : BitVec 32) : BitVec 32 := (id.setWidth 8).setWidth 32

/-- The calls of `nu_pdma_spi_rx_config` up to the first that fails; the filter's result is not
looked at. -/
def nu_pdma_spi_rx_config (s : nu_spi) : Call × List Call :=
  let spi_pdma_rx_chid := narrow s.pdma_chanid_rx
  (⟨.rx, .filtering_set, spi_pdma_rx_chid⟩,
    [⟨.rx, .callback_register, spi_pdma_rx_chid⟩, ⟨.rx, .callback_register, spi_pdma_rx_chid⟩,
      ⟨.rx, .channel_memctrl_set, spi_pdma_rx_chid⟩, ⟨.rx, .transfer, spi_pdma_rx_chid⟩])

/-- The calls of `nu_pdma_spi_tx_config` up to the first that fails. -/
def nu_pdma_spi_tx_config (s : nu_spi) : List Call :=
  let spi_pdma_tx_chid := narrow s.pdma_chanid_tx
  [⟨.tx, .callback_register, spi_pdma_tx_chid⟩, ⟨.tx, .channel_memctrl_set, spi_pdma_tx_chid⟩,
    ⟨.tx, .transfer, spi_pdma_tx_chid⟩]

/-- `nu_spi_pdma_transmit`: an assertion stops it at the first configuration that fails. -/
def nu_spi_pdma_transmit (ok : Call → Bool) (s : nu_spi) : List Call :=
  (nu_pdma_spi_rx_config s).1 ::
    chain ok ((nu_pdma_spi_rx_config s).2 ++ nu_pdma_spi_tx_config s)

def NU_SPI_USE_PDMA_MIN_THRESHOLD : ℤ := 128

/-- The test of `nu_spi_transfer` for a transfer by DMA; the alternative is the polled one. -/
def usesPdma (s : nu_spi) (tx rx : BitVec 32) (length : ℤ) (bytes_per_word : BitVec 32) : Bool :=
  0#32 ≤ s.pdma_chanid_rx ∧ tx % bytes_per_word = 0 ∧ rx % bytes_per_word = 0 ∧
    bytes_per_word ≠ 3 ∧ NU_SPI_USE_PDMA_MIN_THRESHOLD ≤ length

/-- The calls of `nu_spi_transfer` into the controller. -/
def nu_spi_transfer (ok : Call → Bool) (s : nu_spi) (tx rx : BitVec 32) (length : ℤ)
    (bytes_per_word : BitVec 32) : List Call :=
  if usesPdma s tx rx length bytes_per_word then nu_spi_pdma_transmit ok s else []

/-- The answers an SPI bus asked for: it asks only when it has both peripherals. -/
def Grants.askedBoth (g : Grants) (perpTx perpRx : BitVec 32) : Grants := fun d =>
  if perpTx ≠ NU_PDMA_UNUSED ∧ perpRx ≠ NU_PDMA_UNUSED then g d else none

/-- An SPI bus that keeps to its grants: all its calls pass granted ids; and after a refusal it
reports an error, gives back the channel it had, and transfers by polling. -/
structure SpiKeeps (g : Grants) (perpTx perpRx : BitVec 32) : Prop where
  setup : ∀ c ∈ (rt_hw_spi_init g perpTx perpRx).2.2, c.Granted (g.askedBoth perpTx perpRx)
  later : ∀ ok tx rx length bytes_per_word,
    ∀ c ∈ nu_spi_transfer ok (rt_hw_spi_init g perpTx perpRx).2.1 tx rx length bytes_per_word,
      c.Granted (g.askedBoth perpTx perpRx)
  refused : (g .tx = none ∨ g .rx = none) → (rt_hw_spi_init g perpTx perpRx).1 ≠ some RT_EOK
  released : ∀ i, (g.askedBoth perpTx perpRx) .tx = some i → g .rx = none →
    ⟨.tx, .channel_free, i.u32ChID⟩ ∈ (rt_hw_spi_init g perpTx perpRx).2.2
  polled : (g .tx = none ∨ g .rx = none) → ∀ tx rx length bytes_per_word,
    usesPdma (rt_hw_spi_init g perpTx perpRx).2.1 tx rx length bytes_per_word = false

/-- An SPI bus with both peripherals that was granted both channels, in the first module. -/
def SpiServed (g : Grants) (perpTx perpRx : BitVec 32) : Prop :=
  perpTx ≠ NU_PDMA_UNUSED ∧ perpRx ≠ NU_PDMA_UNUSED ∧
    (∃ i, g .tx = some i ∧ i.u16ModIdx = 0) ∧ ∃ j, g .rx = some j ∧ j.u16ModIdx = 0

/-- A byte holds the ids of the first module and no others. -/
theorem narrow_u32ChID_iff (c : Chid) : narrow c.u32ChID = c.u32ChID ↔ c.u16ModIdx = 0 := by
  have hm := c.mod_lt
  have hc := c.chn_lt
  simp only [PDMA_CNT, PDMA_CH_MAX] at hm hc
  constructor
  · intro h
    have := congrArg BitVec.toNat h
    simp only [narrow, Chid.u32ChID, chId, BitVec.toNat_setWidth, BitVec.toNat_ofNat] at this
    omega
  · intro h
    refine BitVec.eq_of_toNat_eq ?_
    simp only [narrow, Chid.u32ChID, chId, h, BitVec.toNat_setWidth, BitVec.toNat_ofNat]
    omega

/-- The set-up of a bus with both peripherals takes whatever comes back. -/
theorem rt_hw_spi_init_eq (g : Grants) {perpTx perpRx : BitVec 32} (htx : perpTx ≠ NU_PDMA_UNUSED)
    (hrx : perpRx ≠ NU_PDMA_UNUSED) :
    rt_hw_spi_init g perpTx perpRx =
      (some RT_EOK, { pdma_perp_tx := perpTx, pdma_chanid_tx := g.ret .tx, pdma_perp_rx := perpRx
                      pdma_chanid_rx := g.ret .rx, m_psSemBus := true }, []) := by
  have hlt : ∀ x : BitVec 32, ¬ x < 0#32 := fun x h => by
    rw [BitVec.lt_def] at h
    exact Nat.not_lt_zero _ h
  simp [rt_hw_spi_init, nu_hw_spi_pdma_allocate, htx, hrx, hlt]

/-- The calls of a long aligned transfer are made for whatever the bus took for its ids. -/
theorem nu_spi_transfer_long (s : nu_spi) :
    ⟨.rx, .filtering_set, narrow s.pdma_chanid_rx⟩ ∈ nu_spi_transfer (fun _ => true) s 0 0 128 1 ∧
    ⟨.tx, .transfer, narrow s.pdma_chanid_tx⟩ ∈ nu_spi_transfer (fun _ => true) s 0 0 128 1 := by
  have hu : usesPdma s 0 0 128 1 = true := by
    simp [usesPdma, zero_le_word, NU_SPI_USE_PDMA_MIN_THRESHOLD]
  rw [nu_spi_transfer, if_pos hu]
  simp [nu_spi_pdma_transmit, nu_pdma_spi_rx_config, nu_pdma_spi_tx_config, chain]

/-- Every call of a transfer passes the narrowed id of its direction. -/
theorem nu_spi_transfer_id (ok : Call → Bool) (s : nu_spi) (tx rx : BitVec 32) (length : ℤ)
    (bytes_per_word : BitVec 32) : ∀ c ∈ nu_spi_transfer ok s tx rx length bytes_per_word,
      c.id = narrow (match c.dir with | .tx => s.pdma_chanid_tx | .rx => s.pdma_chanid_rx) := by
  intro c hc
  unfold nu_spi_transfer at hc
  split at hc
  · rcases List.mem_cons.1 hc with rfl | hc
    · rfl
    · have hc' := chain_subset ok _ hc
      simp only [nu_pdma_spi_rx_config, nu_pdma_spi_tx_config, List.cons_append, List.nil_append,
        List.mem_cons, List.not_mem_nil, or_false] at hc'
      rcases hc' with rfl | rfl | rfl | rfl | rfl | rfl | rfl <;> rfl
  · cases hc

/-- **An SPI bus keeps to its grants exactly when it was granted both channels in the first
module**; otherwise its next long transfer passes an id it was not granted. -/
theorem spi_keeps_iff (g : Grants) (perpTx perpRx : BitVec 32) :
    SpiKeeps g perpTx perpRx ↔ SpiServed g perpTx perpRx := by
  constructor
  · intro h
    obtain ⟨hrxc, htxc⟩ := nu_spi_transfer_long (rt_hw_spi_init g perpTx perpRx).2.1
    obtain ⟨j, hj, hjid⟩ := h.later _ _ _ _ _ _ hrxc
    obtain ⟨i, hi, hiid⟩ := h.later _ _ _ _ _ _ htxc
    simp only [Grants.askedBoth, Option.ite_none_right_eq_some] at hi hj
    obtain ⟨⟨htx, hrx⟩, hi⟩ := hi
    rw [rt_hw_spi_init_eq g htx hrx] at hiid hjid
    dsimp only at hiid hjid
    rw [Grants.ret_some hi, narrow_u32ChID_iff] at hiid
    rw [Grants.ret_some hj.2, narrow_u32ChID_iff] at hjid
    exact ⟨htx, hrx, ⟨i, hi, hiid⟩, ⟨j, hj.2, hjid⟩⟩
  · rintro ⟨htx, hrx, ⟨i, hi, himod⟩, ⟨j, hj, hjmod⟩⟩
    have hask : ∀ d, (g.askedBoth perpTx perpRx) d = g d := fun d => if_pos ⟨htx, hrx⟩
    have hfull : ¬ (g .tx = none ∨ g .rx = none) := by
      rw [hi, hj]
      simp
    refine ⟨?_, fun ok tx rx length bytes_per_word c hc => ?_, fun h => absurd h hfull,
      fun _ _ h => absurd (Or.inr h) hfull, fun h => absurd h hfull⟩
    · rw [rt_hw_spi_init_eq g htx hrx]
      simp
    · have hid := nu_spi_transfer_id ok _ tx rx length bytes_per_word c hc
      rw [rt_hw_spi_init_eq g htx hrx] at hid
      cases hd : c.dir with
      | tx =>
        rw [hd] at hid
        dsimp only at hid
        rw [Grants.ret_some hi, (narrow_u32ChID_iff i).2 himod] at hid
        exact ⟨i, by rw [hd, hask, hi], hid⟩
      | rx =>
        rw [hd] at hid
        dsimp only at hid
        rw [Grants.ret_some hj, (narrow_u32ChID_iff j).2 hjmod] at hid
        exact ⟨j, by rw [hd, hask, hj], hid⟩

/-! ### Both drivers -/

/-- **The clients keep to their grants exactly when they are served**: the UART in both
directions or in none, the SPI bus in both by channels of the first module. -/
theorem clients_keep_iff (gu gs : Grants) (uartTx uartRx spiTx spiRx : BitVec 32) (bufsz : ℕ) :
    (UartKeeps gu (nu_uart.boot uartTx uartRx bufsz) ∧ SpiKeeps gs spiTx spiRx) ↔
      (UartServed gu (nu_uart.boot uartTx uartRx bufsz) ∧ SpiServed gs spiTx spiRx) :=
  and_congr (uart_keeps_iff gu uartTx uartRx bufsz) (spi_keeps_iff gs spiTx spiRx)

/-- Channels 0 and 1 of the second module. -/
def lppdmaGrants : Grants
  | .tx => some ⟨1, 0, by decide, by decide⟩
  | .rx => some ⟨1, 1, by decide, by decide⟩

/-- A controller without a free channel. -/
def noGrants : Grants := fun _ => none

/-- A bus granted channels of the second module passes channel 0 and 1 of the first; a UART that
was refused both its channels reports both. -/
theorem clients_stray :
    (¬ SpiKeeps lppdmaGrants 1 2 ∧
      ⟨.tx, .transfer, 0⟩ ∈ nu_spi_transfer (fun _ => true) (rt_hw_spi_init lppdmaGrants 1 2).2.1 0 0 128 1) ∧
    (¬ UartKeeps noGrants (nu_uart.boot 1 2 64) ∧
      (nu_hw_uart_dma_allocate noGrants (nu_uart.boot 1 2 64)).1.dma_flag =
        RT_DEVICE_FLAG_DMA_TX ||| RT_DEVICE_FLAG_DMA_RX) := by
  refine ⟨⟨fun h => ?_, by decide⟩, fun h => ?_, by decide⟩
  · obtain ⟨-, -, ⟨i, hi, hm⟩, -⟩ := (spi_keeps_iff _ _ _).1 h
    obtain rfl : _ = i := Option.some.inj hi
    exact absurd hm (by decide)
  · have := ((uart_keeps_iff _ _ _ _).1 h).2 (by decide)
    exact absurd this.1 (by decide)

end Clients

end Pdma
