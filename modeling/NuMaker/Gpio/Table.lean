/-
The handler table is a map from pins.

What the calls and the interrupts do to the table and return is what they do to a partial map from
pins to handlers with room for 32 pins:

* **`PinMap.exec`** — the map;
* **`Rep`** — a table that stands for a map: every slot that is taken holds a pin of its own, every
  other is empty;
* **`table_is_map`** — after any calls, from the initialised table.
-/
import Mathlib.Data.Fintype.Card
import NuMaker.Gpio.Driver

namespace Gpio

open NuUtils

variable {H A : Type}

/-! ### The map -/

/-- A pin of the ports A to H, of which the last has 12. -/
def ValidPin (pin : Fin 256) : Prop := pin.val / 16 < 8 ∧ ¬ (pin.val / 16 = 7 ∧ pin.val % 16 > 11)

instance (pin : Fin 256) : Decidable (ValidPin pin) := inferInstanceAs (Decidable (_ ∧ _))

/-- What is attached to a pin; the mode as the table keeps it. -/
structure Entry (H A : Type) where
  hdr : Option H
  mode : BitVec 16
  args : Option A
deriving DecidableEq

abbrev PinMap (H A : Type) := Fin 256 → Option (Entry H A)

/-- The pins that are attached. -/
def PinMap.pins (M : PinMap H A) : Finset (Fin 256) := Finset.univ.filter fun p => (M p).isSome

theorem PinMap.mem_pins {M : PinMap H A} {p : Fin 256} : p ∈ M.pins ↔ (M p).isSome = true := by
  simp only [PinMap.pins, Finset.mem_filter, Finset.mem_univ, true_and]

/-- A call of the driver, or an interrupt of a port with its status. -/
inductive Op (H A : Type)
  | attach (pin : Fin 256) (mode : BitVec 32) (hdr : Option H) (args : Option A)
  | detach (pin : Fin 256)
  | enable (pin : Fin 256) (enabled : BitVec 32)
  | interrupt (port : Fin 8) (status : BitVec 32)

/-- What comes of it: a result, or the handlers that are called. -/
inductive Out (H A : Type)
  | ret (r : ℤ)
  | calls (l : List (H × Option A))
deriving DecidableEq

/-- The pin of a port. -/
def pinOf (port : Fin 8) (i : Fin 16) : Fin 256 := ⟨port * 16 + i, by omega⟩

/-- What the handler of a pin is called with. -/
def PinMap.call (M : PinMap H A) (pin : Fin 256) : Option (H × Option A) :=
  (M pin).bind fun e => e.hdr.map fun hdr => (hdr, e.args)

/-- **The map**: attaching replaces or adds, up to 32 pins; the interrupt calls the handlers of the
pins that are set, in ascending order. -/
def PinMap.exec : Op H A → PinMap H A → Out H A × PinMap H A
  | .attach pin mode hdr args, M =>
    if ¬ ValidPin pin then (.ret (-RT_ERROR), M)
    else if M pin = none ∧ M.pins.card = 32 then (.ret (-RT_EBUSY), M)
    else (.ret RT_EOK, Function.update M pin (some ⟨hdr, mode.setWidth 16, args⟩))
  | .detach pin, M =>
    if ¬ ValidPin pin then (.ret (-RT_ERROR), M) else (.ret RT_EOK, Function.update M pin none)
  | .enable pin _, M =>
    (.ret (if ¬ ValidPin pin ∨ M pin = none then -RT_ERROR else RT_EOK), M)
  | .interrupt port status, M =>
    (.calls (((List.finRange 16).filter fun i : Fin 16 => status.getLsbD i.val).filterMap fun i =>
      M.call (pinOf port i)), M)

/-- The same of the driver. -/
def Driver.exec : Op H A → Driver H A → Out H A × Driver H A
  | .attach pin mode hdr args, d =>
    (.ret (nu_gpio_attach_irq pin mode hdr args d).1, (nu_gpio_attach_irq pin mode hdr args d).2)
  | .detach pin, d => (.ret (nu_gpio_detach_irq pin d).1, (nu_gpio_detach_irq pin d).2)
  | .enable pin enabled, d =>
    (.ret (nu_gpio_irq_enable pin enabled d).1, (nu_gpio_irq_enable pin enabled d).2)
  | .interrupt port status, d => (.calls (pin_irq_hdr d port status), d)

/-- What comes of a sequence of calls. -/
def outs {S : Type} (exec : Op H A → S → Out H A × S) : List (Op H A) → S → List (Out H A) × S
  | [], s => ([], s)
  | op :: ops, s =>
    let (o, s) := exec op s
    let (os, s) := outs exec ops s
    (o :: os, s)

/-! ### Tables that stand for a map -/

def rt_pin_irq_hdr.entry (slot : rt_pin_irq_hdr H A) : Entry H A := ⟨slot.hdr, slot.mode, slot.args⟩

/-- **The table stands for the map.** -/
structure Rep (d : Driver H A) (M : PinMap H A) : Prop where
  /-- A slot that is taken holds a valid pin, with what the map has for it. -/
  taken : ∀ i, d.mask.getLsbD i = true →
    ∃ p : Fin 256, ValidPin p ∧ (d.tab i).pin = p.val ∧ M p = some (d.tab i).entry
  /-- A pin has one slot. -/
  one : ∀ i j, d.mask.getLsbD i = true → d.mask.getLsbD j = true →
    (d.tab i).pin = (d.tab j).pin → i = j
  /-- A slot that is free holds no pin. -/
  free : ∀ i, d.mask.getLsbD i = false → d.tab i = emptySlot
  /-- A pin that is attached has a slot. -/
  found : ∀ p e, M p = some e → ∃ i, d.mask.getLsbD i = true ∧ (d.tab i).pin = p.val

variable {d : Driver H A} {M : PinMap H A} {p : Fin 256}

theorem Rep.init : Rep (rt_hw_gpio_init : Driver H A) fun _ => none where
  taken i h := by simp [rt_hw_gpio_init] at h
  one i j h := by simp [rt_hw_gpio_init] at h
  free i _ := rfl
  found p e h := by cases h

theorem ofInt_pin {p q : Fin 256} : BitVec.ofInt 32 (p.val : ℤ) = BitVec.ofInt 32 (q.val : ℤ) ↔ p = q := by
  constructor
  · intro h
    have hn := congrArg BitVec.toNat h
    simp only [BitVec.toNat_ofInt] at hn
    omega
  · rintro rfl
    rfl

/-- The slots of the table are searched for a pin. -/
theorem Rep.search (h : Rep d M) (p : Fin 256) {test : ℕ → Bool}
    (htest : ∀ i, d.mask.getLsbD i = true → (test i = true ↔ (d.tab i).pin = p.val)) :
    (∃ i, (bits d.mask).find? test = some i ∧ d.mask.getLsbD i = true ∧ (d.tab i).pin = p.val ∧
      M p = some (d.tab i).entry) ∨ (bits d.mask).find? test = none ∧ M p = none := by
  cases hfind : (bits d.mask).find? test with
  | some i =>
    left
    have hi := mem_bits.1 (List.mem_of_find?_eq_some hfind)
    have hpin := (htest i hi).1 (List.find?_some hfind)
    obtain ⟨q, -, hq, hM⟩ := h.taken i hi
    obtain rfl : p = q := Fin.ext (by exact_mod_cast hpin.symm.trans hq)
    exact ⟨i, rfl, hi, hpin, hM⟩
  | none =>
    refine Or.inr ⟨rfl, ?_⟩
    by_contra hne
    obtain ⟨e, he⟩ := Option.ne_none_iff_exists'.1 hne
    obtain ⟨i, hi, hpin⟩ := h.found p e he
    exact List.find?_eq_none.1 hfind i (mem_bits.2 hi) ((htest i hi).2 hpin)

theorem Rep.find (h : Rep d M) (p : Fin 256) :
    (∃ i, nu_find_irqindex d (BitVec.ofInt 32 (p.val : ℤ)) = some i ∧ d.mask.getLsbD i = true ∧
      (d.tab i).pin = p.val ∧ M p = some (d.tab i).entry) ∨
    nu_find_irqindex d (BitVec.ofInt 32 (p.val : ℤ)) = none ∧ M p = none := by
  rw [nu_find_irqindex, find_irqindex_loop_eq]
  refine h.search p fun i hi => ?_
  obtain ⟨q, -, hq, -⟩ := h.taken i hi
  rw [decide_eq_true_eq, hq, ofInt_pin]
  omega

theorem Rep.find_detach (h : Rep d M) (p : Fin 256) :
    (∃ i, detach_irq_loop d.tab p.val d.mask = some i ∧ d.mask.getLsbD i = true ∧
      (d.tab i).pin = p.val ∧ M p = some (d.tab i).entry) ∨
    detach_irq_loop d.tab p.val d.mask = none ∧ M p = none := by
  rw [detach_irq_loop_eq]
  exact h.search p fun i _ => decide_eq_true_iff

/-! ### What the operations do to it -/

/-- A slot is filled that was the pin's, or free and the pin new. -/
theorem Rep.fill (h : Rep d M) {i : ℕ} (slot : rt_pin_irq_hdr H A) (hi : i < 32) (hp : ValidPin p)
    (hslot : slot.pin = p.val)
    (hat : d.mask.getLsbD i = true ∧ (d.tab i).pin = p.val ∨ d.mask.getLsbD i = false ∧ M p = none) :
    Rep (d.fill i slot) (Function.update M p (some slot.entry)) := by
  -- the pin has no other slot
  have hother : ∀ j, d.mask.getLsbD j = true → j ≠ i → (d.tab j).pin ≠ p.val := by
    intro j hj hne hpin
    rcases hat with ⟨hset, hpi⟩ | ⟨-, hnone⟩
    · exact hne (h.one j i hj hset (hpin.trans hpi.symm))
    · obtain ⟨q, -, hq, hM⟩ := h.taken j hj
      obtain rfl : p = q := Fin.ext (by exact_mod_cast hpin.symm.trans hq)
      rw [hnone] at hM
      cases hM
  have hmask : ∀ j, (d.fill i slot).mask.getLsbD j = true ↔ d.mask.getLsbD j = true ∨ j = i := by
    intro j
    simp only [Driver.fill, getLsbD_setBit, Bool.or_eq_true, Bool.and_eq_true, decide_eq_true_eq]
    constructor
    · rintro (hj | ⟨-, hj⟩)
      · exact Or.inl hj
      · exact Or.inr hj
    · rintro (hj | rfl)
      · exact Or.inl hj
      · exact Or.inr ⟨hi, rfl⟩
  have htab : ∀ j, j ≠ i → (d.fill i slot).tab j = d.tab j := fun j hj => Function.update_of_ne hj _ _
  have hself : (d.fill i slot).tab i = slot := Function.update_self _ _ _
  constructor
  · intro j hj
    by_cases hji : j = i
    · rw [hji, hself]
      exact ⟨p, hp, hslot, Function.update_self _ _ _⟩
    · have hj' := ((hmask j).1 hj).resolve_right hji
      obtain ⟨q, hq, hpin, hM⟩ := h.taken j hj'
      rw [htab j hji]
      refine ⟨q, hq, hpin, ?_⟩
      rw [Function.update_of_ne (fun hqp : q = p => hother j hj' hji (by rw [hpin, hqp]))]
      exact hM
  · intro j k hj hk heq
    by_cases hji : j = i
    · by_cases hki : k = i
      · rw [hji, hki]
      · rw [hji, hself, htab k hki, hslot] at heq
        exact absurd heq.symm (hother k (((hmask k).1 hk).resolve_right hki) hki)
    · rw [htab j hji] at heq
      by_cases hki : k = i
      · rw [hki, hself, hslot] at heq
        exact absurd heq (hother j (((hmask j).1 hj).resolve_right hji) hji)
      · rw [htab k hki] at heq
        exact h.one j k (((hmask j).1 hj).resolve_right hji) (((hmask k).1 hk).resolve_right hki) heq
  · intro j hj
    have hj' := mt (hmask j).2 (by rw [hj]; exact Bool.false_ne_true)
    rw [not_or] at hj'
    rw [htab j hj'.2]
    exact h.free j (Bool.eq_false_iff.2 hj'.1)
  · intro q e hq
    by_cases hqp : q = p
    · exact ⟨i, (hmask i).2 (Or.inr rfl), by rw [hself, hslot, hqp]⟩
    · rw [Function.update_of_ne hqp] at hq
      obtain ⟨j, hj, hpin⟩ := h.found q e hq
      have hji : j ≠ i := by
        rintro rfl
        rcases hat with ⟨-, hpi⟩ | ⟨hset, -⟩
        · exact hqp (Fin.ext (by exact_mod_cast hpin.symm.trans hpi))
        · rw [hj] at hset
          cases hset
      exact ⟨j, (hmask j).2 (Or.inl hj), by rw [htab j hji, hpin]⟩

/-- The pin's slot is emptied. -/
theorem Rep.empty (h : Rep d M) {i : ℕ} (hset : d.mask.getLsbD i = true) (hpi : (d.tab i).pin = p.val) :
    Rep (d.empty i) (Function.update M p none) := by
  have hmask : ∀ j, (d.empty i).mask.getLsbD j = true ↔ d.mask.getLsbD j = true ∧ j ≠ i := by
    intro j
    simp only [Driver.empty, getLsbD_clearBit, Bool.and_eq_true, decide_eq_true_eq]
  have htab : ∀ j, j ≠ i → (d.empty i).tab j = d.tab j := fun j hj => Function.update_of_ne hj _ _
  constructor
  · intro j hj
    obtain ⟨hj', hji⟩ := (hmask j).1 hj
    obtain ⟨q, hq, hpin, hM⟩ := h.taken j hj'
    rw [htab j hji]
    refine ⟨q, hq, hpin, ?_⟩
    rw [Function.update_of_ne (fun hqp : q = p => hji (h.one j i hj' hset (by rw [hpin, hpi, hqp])))]
    exact hM
  · intro j k hj hk heq
    obtain ⟨hj', hji⟩ := (hmask j).1 hj
    obtain ⟨hk', hki⟩ := (hmask k).1 hk
    rw [htab j hji, htab k hki] at heq
    exact h.one j k hj' hk' heq
  · intro j hj
    by_cases hji : j = i
    · rw [hji]
      exact Function.update_self _ _ _
    · rw [htab j hji]
      refine h.free j (Bool.eq_false_iff.2 fun hj' => ?_)
      rw [(hmask j).2 ⟨hj', hji⟩] at hj
      cases hj
  · intro q e hq
    have hqp : q ≠ p := by
      rintro rfl
      rw [Function.update_self] at hq
      cases hq
    rw [Function.update_of_ne hqp] at hq
    obtain ⟨j, hj, hpin⟩ := h.found q e hq
    have hji : j ≠ i := by
      rintro rfl
      exact hqp (Fin.ext (by exact_mod_cast hpin.symm.trans hpi))
    exact ⟨j, (hmask j).2 ⟨hj, hji⟩, by rw [htab j hji, hpin]⟩

/-- The registers of the ports are no part of the map. -/
theorem Rep.congr {d' : Driver H A} (h : Rep d M) (htab : d'.tab = d.tab) (hmask : d'.mask = d.mask) :
    Rep d' M := by
  obtain ⟨tab, mask, port, nvic⟩ := d
  obtain ⟨tab', mask', port', nvic'⟩ := d'
  obtain rfl : tab' = tab := htab
  obtain rfl : mask' = mask := hmask
  exact ⟨h.taken, h.one, h.free, h.found⟩

/-- A pin has its slot, and a slot its pin. -/
theorem Rep.card_pins (h : Rep d M) : M.pins.card = (bits d.mask).length := by
  have hpin : ∀ i ∈ (bits d.mask).toFinset, ∃ q : Fin 256, (d.tab i).pin = q.val ∧ q ∈ M.pins := by
    intro i hi
    obtain ⟨q, -, hq, hM⟩ := h.taken i (mem_bits.1 (List.mem_toFinset.1 hi))
    exact ⟨q, hq, PinMap.mem_pins.2 (by rw [hM]; rfl)⟩
  rw [← List.toFinset_card_of_nodup (bits_nodup d.mask)]
  symm
  refine Finset.card_bij (fun i hi => (hpin i hi).choose) (fun i hi => (hpin i hi).choose_spec.2)
    (fun i hi j hj heq => ?_) fun q hq => ?_
  · refine h.one i j (mem_bits.1 (List.mem_toFinset.1 hi)) (mem_bits.1 (List.mem_toFinset.1 hj)) ?_
    rw [(hpin i hi).choose_spec.1, (hpin j hj).choose_spec.1, heq]
  · obtain ⟨e, he⟩ := Option.isSome_iff_exists.1 (PinMap.mem_pins.1 hq)
    obtain ⟨i, hi, hpi⟩ := h.found q e he
    have hi' := List.mem_toFinset.2 (mem_bits.2 hi)
    refine ⟨i, hi', Fin.ext ?_⟩
    exact_mod_cast (hpin i hi').choose_spec.1.symm.trans hpi

/-- There is a free slot unless 32 pins are attached. -/
theorem Rep.full_iff (h : Rep d M) : M.pins.card = 32 ↔ ¬ nu_cto d.mask < IRQ_MAX_NUM := by
  rw [h.card_pins]
  constructor
  · intro hlen hlt
    obtain ⟨hclear, -⟩ := nu_cto_spec hlt
    have hfull := List.length_filter_eq_length_iff.1 (hlen.trans List.length_range.symm)
    have hset := hfull _ (List.mem_range.2 hlt)
    rw [hclear] at hset
    cases hset
  · intro hge
    have hall : ∀ i ∈ List.range 32, d.mask.getLsbD i = true := by
      intro i hi
      by_contra hclear
      exact hge ((nu_cto_le_of_clear (List.mem_range.1 hi) (Bool.eq_false_iff.2 hclear)).trans_lt
        (List.mem_range.1 hi))
    rw [bits, List.filter_eq_self.2 hall, List.length_range]

theorem port_check_iff (p : Fin 256) : nu_port_check (p.val : ℤ) = 0 ↔ ValidPin p := by
  unfold nu_port_check ValidPin NU_GET_PORT NU_GET_PINS NU_PORT_CNT NU_PH MAX_PORTH_PIN_MAX RT_ERROR
    RT_EOK
  split
  · constructor
    · intro h
      omega
    · intro h
      omega
  · split
    · constructor
      · intro h
        omega
      · intro h
        omega
    · constructor
      · intro _
        omega
      · intro _
        rfl

/-! ### The refinement -/

theorem Rep.attach (h : Rep d M) (p : Fin 256) (mode : BitVec 32) (hdr : Option H) (args : Option A) :
    (Driver.exec (.attach p mode hdr args) d).1 = (PinMap.exec (.attach p mode hdr args) M).1 ∧
      Rep (Driver.exec (.attach p mode hdr args) d).2 (PinMap.exec (.attach p mode hdr args) M).2 := by
  simp only [Driver.exec, PinMap.exec, nu_gpio_attach_irq, ne_eq, port_check_iff]
  by_cases hp : ValidPin p
  · have hpin : int16 (p.val : ℤ) = p.val := Int.bmod_eq_of_le (by omega) (by omega)
    obtain ⟨slot, hslot⟩ : ∃ slot : rt_pin_irq_hdr H A,
      slot = ⟨int16 p.val, mode.setWidth 16, hdr, args⟩ := ⟨_, rfl⟩
    have hentry : slot.entry = ⟨hdr, mode.setWidth 16, args⟩ := by rw [hslot]; rfl
    have hat : slot.pin = p.val := by simp only [hslot, hpin]
    simp only [hp, not_true_eq_false, if_false, ← hslot, ← hentry]
    rcases h.find p with ⟨i, hfind, hi, hpi, hM⟩ | ⟨hfind, hM⟩
    · simp only [hfind, hM, reduceCtorEq, false_and, if_false]
      exact ⟨trivial, h.fill slot (BitVec.lt_of_getLsbD hi) hp hat (Or.inl ⟨hi, hpi⟩)⟩
    · by_cases hfull : nu_cto d.mask < IRQ_MAX_NUM
      · have hcard := mt h.full_iff.1 (not_not.2 hfull)
        simp only [hfind, hfull, hcard, and_false, if_true, if_false]
        exact ⟨trivial, h.fill slot hfull hp hat (Or.inr ⟨(nu_cto_spec hfull).1, hM⟩)⟩
      · have hcard := h.full_iff.2 hfull
        simp only [hfind, hfull, hcard, hM, and_self, if_true, if_false]
        exact ⟨trivial, h⟩
  · simp only [hp, not_false_eq_true, if_true]
    exact ⟨trivial, h⟩

theorem Rep.detach (h : Rep d M) (p : Fin 256) :
    (Driver.exec (.detach p) d).1 = (PinMap.exec (.detach p) M).1 ∧
      Rep (Driver.exec (.detach p) d).2 (PinMap.exec (.detach p) M).2 := by
  simp only [Driver.exec, PinMap.exec, nu_gpio_detach_irq, ne_eq, port_check_iff]
  by_cases hp : ValidPin p
  · simp only [hp, not_true_eq_false, if_false]
    rcases h.find_detach p with ⟨i, hfind, hi, hpi, -⟩ | ⟨hfind, hM⟩
    · simp only [hfind]
      exact ⟨trivial, h.empty hi hpi⟩
    · simp only [hfind]
      rw [Function.update_eq_self_iff.2 hM.symm]
      exact ⟨trivial, h⟩
  · simp only [hp, not_false_eq_true, if_true]
    exact ⟨trivial, h⟩

theorem Rep.enable (h : Rep d M) (p : Fin 256) (enabled : BitVec 32) :
    (Driver.exec (.enable p enabled) d).1 = (PinMap.exec (.enable p enabled) M).1 ∧
      Rep (Driver.exec (.enable p enabled) d).2 (PinMap.exec (.enable p enabled) M).2 := by
  simp only [Driver.exec, PinMap.exec, nu_gpio_irq_enable, ne_eq, port_check_iff]
  by_cases hp : ValidPin p
  · simp only [hp, not_true_eq_false, if_false, false_or]
    rcases h.find p with ⟨i, hfind, -, -, hM⟩ | ⟨hfind, hM⟩
    · simp only [hfind, hM, reduceCtorEq, if_false]
      split
      · split
        · exact ⟨rfl, h.congr rfl rfl⟩
        · exact ⟨rfl, h⟩
      · exact ⟨rfl, h.congr rfl rfl⟩
    · simp only [hfind, hM, if_true]
      exact ⟨trivial, h⟩
  · simp only [hp, not_false_eq_true, true_or, if_true]
    exact ⟨trivial, h⟩

/-- A pin's handler is the one the map has. -/
theorem Rep.handlerOf_eq (h : Rep d M) (p : Fin 256) : handlerOf d p.val = M.call p := by
  unfold handlerOf PinMap.call
  rcases h.find p with ⟨i, hfind, -, -, hM⟩ | ⟨hfind, hM⟩
  · rw [hfind, hM]
    rfl
  · rw [hfind, hM]
    rfl

theorem pins_eq (x : BitVec 32) : pins x =
    ((List.finRange 16).filter fun i : Fin 16 => x.getLsbD i.val).map Fin.val := by
  have hlow : ((List.finRange 16).filter fun i : Fin 16 => x.getLsbD i.val).map Fin.val =
      (List.range 16).filter fun i => x.getLsbD i := by
    rw [← List.map_coe_finRange_eq_range, List.filter_map]
    rfl
  have hsplit : List.range 32 = List.range 16 ++ (List.range 16).map (16 + ·) := @List.range_add 16 16
  rw [hlow, pins, bits, List.filter_filter, hsplit, List.filter_append]
  have hhigh : ((List.range 16).map (16 + ·)).filter
      (fun i => decide (i < GPIO_PIN_MAX) && x.getLsbD i) = [] := by
    rw [List.filter_eq_nil_iff]
    intro i hi
    obtain ⟨j, -, rfl⟩ := List.mem_map.1 hi
    simp [GPIO_PIN_MAX]
  rw [hhigh, List.append_nil]
  refine List.filter_congr fun i hi => ?_
  rw [decide_eq_true (show i < GPIO_PIN_MAX from List.mem_range.1 hi), Bool.true_and]

theorem Rep.interrupt (h : Rep d M) (port : Fin 8) (status : BitVec 32) :
    pin_irq_hdr d port status =
      ((List.finRange 16).filter fun i : Fin 16 => status.getLsbD i.val).filterMap fun i =>
        M.call (pinOf port i) := by
  rw [pin_irq_hdr_eq, pins_eq, List.flatMap_map, List.filterMap_eq_flatMap_toList]
  congr 1
  funext i
  rw [← h.handlerOf_eq]
  rfl

/-- **One call** does to the table and returns what it does to the map. -/
theorem Rep.exec (h : Rep d M) (op : Op H A) :
    (Driver.exec op d).1 = (PinMap.exec op M).1 ∧ Rep (Driver.exec op d).2 (PinMap.exec op M).2 := by
  cases op with
  | attach p mode hdr args => exact h.attach p mode hdr args
  | detach p => exact h.detach p
  | enable p enabled => exact h.enable p enabled
  | interrupt port status => exact ⟨congrArg Out.calls (h.interrupt port status), h⟩

theorem Rep.outs (h : Rep d M) (ops : List (Op H A)) :
    (outs Driver.exec ops d).1 = (outs PinMap.exec ops M).1 ∧
      Rep (outs Driver.exec ops d).2 (outs PinMap.exec ops M).2 := by
  induction ops generalizing d M with
  | nil => exact ⟨rfl, h⟩
  | cons op ops ih =>
    obtain ⟨hout, hrep⟩ := h.exec op
    obtain ⟨houts, hreps⟩ := ih hrep
    exact ⟨congrArg₂ List.cons hout houts, hreps⟩

/-- **The handler table is a map from pins, of capacity 32**: from the initialised table, any calls
and interrupts return and call what they do of the map, and leave a table that stands for it. -/
theorem table_is_map (ops : List (Op H A)) :
    (outs Driver.exec ops rt_hw_gpio_init).1 = (outs PinMap.exec ops fun _ => none).1 ∧
      Rep (outs Driver.exec ops rt_hw_gpio_init).2 (outs PinMap.exec ops fun _ => none).2 :=
  Rep.init.outs ops

end Gpio
