/-
The GPIO interrupt driver: `drv_gpio.c`.

A table of 32 slots, with a word that says which of them are taken, holds the handlers that are
attached to pins; the interrupt of a port looks up the handler of every pin in its status.

* **`nu_gpio_attach_irq`**, **`nu_gpio_detach_irq`**, **`nu_gpio_irq_enable`** — the calls;
* **`pin_irq_hdr`** — the handlers an interrupt runs;
* **`nu_find_irqindex_eq`**, **`pin_irq_hdr_eq`** — the loops over bits as searches of lists.
-/
import Mathlib.Data.Int.Init
import NuMaker.NuUtils.BitUtil

namespace Gpio

open NuUtils

/-! ### The table -/

def IRQ_MAX_NUM : ℕ := 32
def MAX_PORTH_PIN_MAX : ℤ := 11
def NU_PH : ℤ := 7
def NU_PORT_CNT : ℤ := 8
def GPIO_PIN_MAX : ℕ := 16

def RT_EOK : ℤ := 0
def RT_ERROR : ℤ := 1
def RT_EBUSY : ℤ := 7

def PIN_IRQ_PIN_NONE : ℤ := -1
def PIN_IRQ_MODE_RISING : BitVec 16 := 0
def PIN_IRQ_MODE_FALLING : BitVec 16 := 1
def PIN_IRQ_MODE_RISING_FALLING : BitVec 16 := 2
def PIN_IRQ_MODE_HIGH_LEVEL : BitVec 16 := 3
def PIN_IRQ_MODE_LOW_LEVEL : BitVec 16 := 4
def PIN_IRQ_ENABLE : BitVec 32 := 1

/-- The bits of `pin >> 4` and of `pin` that say where a pin is. -/
def NU_GET_PORT (pin : ℤ) : ℤ := pin / 16 % 16

def NU_GET_PINS (pin : ℤ) : ℤ := pin % 16

/-- `struct rt_pin_irq_hdr`: the pin is stored in an `rt_int16_t`, the mode in an `rt_uint16_t`.
Handlers and their arguments are any values, or null. -/
structure rt_pin_irq_hdr (H A : Type) where
  pin : ℤ
  mode : BitVec 16
  hdr : Option H
  args : Option A
deriving DecidableEq

/-- The interrupt registers of a port. -/
structure Port where
  INTTYPE : BitVec 32
  INTEN : BitVec 32
deriving DecidableEq

/-- `pin_irq_hdr_tab`, `g_u32PinIrqMask`, the registers of the ports, and the ports that are
enabled in the interrupt controller. -/
structure Driver (H A : Type) where
  tab : ℕ → rt_pin_irq_hdr H A
  mask : BitVec 32
  port : ℤ → Port
  nvic : ℤ → Bool

variable {H A : Type}

def emptySlot : rt_pin_irq_hdr H A := ⟨PIN_IRQ_PIN_NONE, PIN_IRQ_MODE_RISING, none, none⟩

/-- `rt_hw_gpio_init`, after a reset. -/
def rt_hw_gpio_init : Driver H A := ⟨fun _ => emptySlot, 0, fun _ => ⟨0, 0⟩, fun _ => false⟩

def nu_port_check (pin : ℤ) : ℤ :=
  if NU_GET_PORT pin ≥ NU_PORT_CNT then -RT_ERROR
  else if NU_GET_PORT pin = NU_PH ∧ NU_GET_PINS pin > MAX_PORTH_PIN_MAX then -RT_ERROR
  else RT_EOK

/-- The loop of `nu_find_irqindex`; the pin of the slot is compared as an unsigned number. -/
def find_irqindex_loop (tab : ℕ → rt_pin_irq_hdr H A) (pin_index u32PinIrqStatus : BitVec 32) :
    Option ℕ :=
  let irqindex := nu_ctz u32PinIrqStatus
  if _h : irqindex < IRQ_MAX_NUM then
    if BitVec.ofInt 32 (tab irqindex).pin = pin_index then some irqindex
    else find_irqindex_loop tab pin_index (u32PinIrqStatus &&& ~~~(1#32 <<< irqindex))
  else none
termination_by (bits u32PinIrqStatus).length
decreasing_by exact bits_nu_ctz_lt _h

/-- `none` is `-(RT_ERROR)`. -/
def nu_find_irqindex (d : Driver H A) (pin_index : BitVec 32) : Option ℕ :=
  find_irqindex_loop d.tab pin_index d.mask

/-! ### The calls -/

/-- Storing in an `rt_int16_t`. -/
def int16 (x : ℤ) : ℤ := Int.bmod x 65536

/-- A slot is filled, and taken. -/
def Driver.fill (d : Driver H A) (irqindex : ℕ) (slot : rt_pin_irq_hdr H A) : Driver H A :=
  { d with tab := Function.update d.tab irqindex slot, mask := d.mask ||| 1#32 <<< irqindex }

def nu_gpio_attach_irq (pin : ℤ) (mode : BitVec 32) (hdr : Option H) (args : Option A)
    (d : Driver H A) : ℤ × Driver H A :=
  if nu_port_check pin ≠ 0 then (-RT_ERROR, d)
  else
    let slot : rt_pin_irq_hdr H A := ⟨int16 pin, mode.setWidth 16, hdr, args⟩
    match nu_find_irqindex d (BitVec.ofInt 32 pin) with
    | some irqindex => (RT_EOK, d.fill irqindex slot)
    | none =>
      if nu_cto d.mask < IRQ_MAX_NUM then (RT_EOK, d.fill (nu_cto d.mask) slot)
      else (-RT_EBUSY, d)

/-- A slot is emptied, and free. -/
def Driver.empty (d : Driver H A) (irqindex : ℕ) : Driver H A :=
  { d with tab := Function.update d.tab irqindex emptySlot, mask := d.mask &&& ~~~(1#32 <<< irqindex) }

/-- The loop is that of `nu_find_irqindex`, with the pin compared as a signed number. -/
def detach_irq_loop (tab : ℕ → rt_pin_irq_hdr H A) (pin : ℤ) (u32PinIrqStatus : BitVec 32) :
    Option ℕ :=
  let irqindex := nu_ctz u32PinIrqStatus
  if _h : irqindex < IRQ_MAX_NUM then
    if (tab irqindex).pin = pin then some irqindex
    else detach_irq_loop tab pin (u32PinIrqStatus &&& ~~~(1#32 <<< irqindex))
  else none
termination_by (bits u32PinIrqStatus).length
decreasing_by exact bits_nu_ctz_lt _h

def nu_gpio_detach_irq (pin : ℤ) (d : Driver H A) : ℤ × Driver H A :=
  if nu_port_check pin ≠ 0 then (-RT_ERROR, d)
  else
    match detach_irq_loop d.tab pin d.mask with
    | some irqindex => (RT_EOK, d.empty irqindex)
    | none => (RT_EOK, d)

/-- The `GPIO_INT_*` attributes of a mode. -/
def intAttribs (mode : BitVec 16) : Option (BitVec 32) :=
  if mode = PIN_IRQ_MODE_RISING then some 0x00010000
  else if mode = PIN_IRQ_MODE_FALLING then some 0x00000001
  else if mode = PIN_IRQ_MODE_RISING_FALLING then some 0x00010001
  else if mode = PIN_IRQ_MODE_HIGH_LEVEL then some 0x01010000
  else if mode = PIN_IRQ_MODE_LOW_LEVEL then some 0x01000001
  else none

def GPIO_EnableInt (port : Port) (u32Pin : ℕ) (u32IntAttribs : BitVec 32) : Port where
  INTTYPE := port.INTTYPE &&& ~~~(1#32 <<< u32Pin) |||
    (u32IntAttribs >>> 24 &&& 0xFF#32) <<< u32Pin
  INTEN := port.INTEN &&& ~~~(0x00010001#32 <<< u32Pin) |||
    (u32IntAttribs &&& 0xFFFFFF#32) <<< u32Pin

def GPIO_DisableInt (port : Port) (u32Pin : ℕ) : Port where
  INTTYPE := port.INTTYPE &&& ~~~(1#32 <<< u32Pin)
  INTEN := port.INTEN &&& ~~~(0x00010001#32 <<< u32Pin)

def nu_gpio_irq_enable (pin : ℤ) (enabled : BitVec 32) (d : Driver H A) : ℤ × Driver H A :=
  if nu_port_check pin ≠ 0 then (-RT_ERROR, d)
  else
    let at' := NU_GET_PORT pin
    match nu_find_irqindex d (BitVec.ofInt 32 pin) with
    | none => (-RT_ERROR, d)
    | some irqindex =>
      if enabled = PIN_IRQ_ENABLE then
        match intAttribs (d.tab irqindex).mode with
        | some u32IntAttribs =>
          (-RT_EOK, { d with
            port := Function.update d.port at'
              (GPIO_EnableInt (d.port at') (NU_GET_PINS pin).toNat u32IntAttribs)
            nvic := Function.update d.nvic at' true })
        | none => (-RT_EOK, d)
      else
        (-RT_EOK, { d with
          port := Function.update d.port at' (GPIO_DisableInt (d.port at') (NU_GET_PINS pin).toNat) })

/-! ### The interrupt -/

/-- What the loop of `pin_irq_hdr` calls for one pin: the handler and its argument. -/
def handlerOf (d : Driver H A) (pin : ℤ) : Option (H × Option A) :=
  match nu_find_irqindex d (BitVec.ofInt 32 pin) with
  | some irqindex => (d.tab irqindex).hdr.map fun hdr => (hdr, (d.tab irqindex).args)
  | none => none

/-- The calls of `pin_irq_hdr`, in order. -/
def pin_irq_hdr (d : Driver H A) (port_index : ℕ) (irq_status : BitVec 32) : List (H × Option A) :=
  let i := nu_ctz irq_status
  if _h : i < GPIO_PIN_MAX then
    (handlerOf d (port_index * GPIO_PIN_MAX + i : ℕ)).toList ++
      pin_irq_hdr d port_index (irq_status &&& ~~~(1#32 <<< i))
  else []
termination_by (bits irq_status).length
decreasing_by exact bits_nu_ctz_lt (Nat.lt_trans _h (by decide))

/-! ### The loops -/

theorem find_irqindex_loop_eq (tab : ℕ → rt_pin_irq_hdr H A) (pin_index status : BitVec 32) :
    find_irqindex_loop tab pin_index status =
      (bits status).find? fun i => decide (BitVec.ofInt 32 (tab i).pin = pin_index) := by
  induction status using find_irqindex_loop.induct tab pin_index with
  | case1 status i hlt hpin =>
    rw [find_irqindex_loop, dif_pos hlt, if_pos hpin, bits_nu_ctz (nu_ctz_ne_zero hlt),
      List.find?_cons_of_pos (by simpa using hpin)]
  | case2 status i hlt hpin ih =>
    rw [find_irqindex_loop, dif_pos hlt, if_neg hpin, ih, bits_nu_ctz (nu_ctz_ne_zero hlt),
      List.find?_cons_of_neg (by simpa using hpin)]
  | case3 status i hlt =>
    rw [find_irqindex_loop, dif_neg hlt, nu_ctz_eq_32.1 (nu_ctz_eq_of_not_lt hlt), bits_zero]
    rfl

theorem detach_irq_loop_eq (tab : ℕ → rt_pin_irq_hdr H A) (pin : ℤ) (status : BitVec 32) :
    detach_irq_loop tab pin status = (bits status).find? fun i => decide ((tab i).pin = pin) := by
  induction status using detach_irq_loop.induct tab pin with
  | case1 status i hlt hpin =>
    rw [detach_irq_loop, dif_pos hlt, if_pos hpin, bits_nu_ctz (nu_ctz_ne_zero hlt),
      List.find?_cons_of_pos (by simpa using hpin)]
  | case2 status i hlt hpin ih =>
    rw [detach_irq_loop, dif_pos hlt, if_neg hpin, ih, bits_nu_ctz (nu_ctz_ne_zero hlt),
      List.find?_cons_of_neg (by simpa using hpin)]
  | case3 status i hlt =>
    rw [detach_irq_loop, dif_neg hlt, nu_ctz_eq_32.1 (nu_ctz_eq_of_not_lt hlt), bits_zero]
    rfl

/-- The pins of a status, in ascending order. -/
def pins (status : BitVec 32) : List ℕ := (bits status).filter (· < GPIO_PIN_MAX)

theorem pins_cons {status : BitVec 32} (h : nu_ctz status < GPIO_PIN_MAX) :
    pins status = nu_ctz status :: pins (status &&& ~~~(1#32 <<< nu_ctz status)) := by
  rw [pins, bits_nu_ctz (nu_ctz_ne_zero (Nat.lt_trans h (by decide))),
    List.filter_cons_of_pos (by simpa using h), pins]

theorem pins_nil {status : BitVec 32} (h : ¬ nu_ctz status < GPIO_PIN_MAX) : pins status = [] := by
  rw [pins, List.filter_eq_nil_iff]
  intro j hj
  -- every bit that is set is a pin beyond the port
  have hj' := mem_bits.1 hj
  have hne : status ≠ 0 := by
    rintro rfl
    simp at hj'
  have hle : nu_ctz status ≤ j := Nat.le_of_not_lt fun hlt => by
    rw [(nu_ctz_lowest hne).below j hlt] at hj'
    cases hj'
  simpa using (Nat.le_of_not_lt h).trans hle

theorem pin_irq_hdr_eq (d : Driver H A) (port_index : ℕ) (status : BitVec 32) :
    pin_irq_hdr d port_index status = (pins status).flatMap fun i =>
      (handlerOf d (port_index * GPIO_PIN_MAX + i : ℕ)).toList := by
  induction status using pin_irq_hdr.induct with
  | case1 status i hlt ih =>
    rw [pin_irq_hdr, dif_pos hlt, ih, pins_cons hlt, List.flatMap_cons]
  | case2 status i hge =>
    rw [pin_irq_hdr, dif_neg hge, pins_nil hge, List.flatMap_nil]

end Gpio
