/-
Edges on the pins of a port, and its interrupt handler.

The handler reads the status of the port, runs the handlers of the pins it finds, and then writes
the status it read back, which clears those pins: an edge on one of them that came after its
handler had started is cleared with them.

* **`Isr.step`** — the handler, one access or call at a time;
* **`edge_followed_iff`** — the edges that are followed by a run of their handler;
* **`edge_lost`** — one that is not.
-/
import NuMaker.Gpio.Table

namespace Gpio

open NuUtils

variable {H A : Type}

/-! ### The handler in steps -/

/-- Where `GPx_IRQHandler` is: not running, or through the status with `irq_status` left. -/
inductive Pc
  | idle
  | serving (int_status irq_status : BitVec 32)
deriving DecidableEq

/-- The status register of the port, and its handler. -/
structure Isr where
  INTSRC : BitVec 32
  pc : Pc
deriving DecidableEq

def Isr.boot : Isr := ⟨0, .idle⟩

/-- An edge on a pin, or the next step of the handler. -/
inductive Event
  | edge (pin : Fin 16) (rising : Bool)
  | step
deriving DecidableEq, Repr

/-- The pin interrupts on this edge. -/
def Port.Enabled (port : Port) (pin : Fin 16) (rising : Bool) : Prop :=
  port.INTTYPE.getLsbD pin = false ∧ port.INTEN.getLsbD (pin + if rising then 16 else 0) = true

instance (port : Port) (pin : Fin 16) (rising : Bool) : Decidable (port.Enabled pin rising) :=
  inferInstanceAs (Decidable (_ ∧ _))

def Isr.edge (port : Port) (pin : Fin 16) (rising : Bool) (σ : Isr) : Isr :=
  if port.Enabled pin rising then { σ with INTSRC := σ.INTSRC ||| 1#32 <<< pin.val } else σ

/-- The status is read when there is one; then each pin of it is served; then it is written back. -/
def Isr.next (σ : Isr) : Isr :=
  match σ.pc with
  | .idle => if σ.INTSRC ≠ 0 then { σ with pc := .serving σ.INTSRC σ.INTSRC } else σ
  | .serving int_status irq_status =>
    if nu_ctz irq_status < GPIO_PIN_MAX then
      { σ with pc := .serving int_status (irq_status &&& ~~~(1#32 <<< nu_ctz irq_status)) }
    else ⟨σ.INTSRC &&& ~~~int_status, .idle⟩

/-- The handler that the next step calls. -/
def Isr.call (d : Driver H A) (port : Fin 8) (σ : Isr) : Option (H × Option A) :=
  match σ.pc with
  | .idle => none
  | .serving _ irq_status =>
    if nu_ctz irq_status < GPIO_PIN_MAX then
      handlerOf d (port.val * GPIO_PIN_MAX + nu_ctz irq_status : ℕ)
    else none

/-- The next step starts the handler of this pin. -/
def Isr.Starts (d : Driver H A) (port : Fin 8) (pin : Fin 16) (σ : Isr) : Prop :=
  (∃ int_status irq_status, σ.pc = .serving int_status irq_status ∧ nu_ctz irq_status = pin.val) ∧
    (handlerOf d (pinOf port pin).val).isSome = true

def Isr.step (port : Port) : Event → Isr → Isr
  | .edge pin rising, σ => σ.edge port pin rising
  | .step, σ => σ.next

def Isr.after (port : Port) (σ : Isr) (evs : List Event) : Isr :=
  evs.foldl (fun σ e => Isr.step port e σ) σ

theorem Isr.after_append (port : Port) (σ : Isr) (evs evs' : List Event) :
    σ.after port (evs ++ evs') = (σ.after port evs).after port evs' := List.foldl_append

/-- The calls of so many steps of the handler. -/
def Isr.calls (d : Driver H A) (port : Fin 8) : ℕ → Isr → List (H × Option A)
  | 0, _ => []
  | n + 1, σ => (σ.call d port).toList ++ Isr.calls d port n σ.next

/-- **A pass of the handler**: the calls are those of `pin_irq_hdr` on the status that was read. -/
theorem Isr.pass (d : Driver H A) (port : Fin 8) (INTSRC int_status irq_status : BitVec 32) :
    Isr.calls d port ((pins irq_status).length + 1) ⟨INTSRC, .serving int_status irq_status⟩ =
      pin_irq_hdr d port irq_status ∧
    (Isr.next^[(pins irq_status).length + 1]) ⟨INTSRC, .serving int_status irq_status⟩ =
      ⟨INTSRC &&& ~~~int_status, .idle⟩ := by
  induction irq_status using pin_irq_hdr.induct with
  | case1 irq_status i hlt ih =>
    obtain ⟨ihc, ihn⟩ := ih
    have hnext : Isr.next ⟨INTSRC, .serving int_status irq_status⟩ =
        ⟨INTSRC, .serving int_status (irq_status &&& ~~~(1#32 <<< nu_ctz irq_status))⟩ := if_pos hlt
    have hcall : Isr.call d port ⟨INTSRC, .serving int_status irq_status⟩ =
        handlerOf d (port.val * GPIO_PIN_MAX + nu_ctz irq_status : ℕ) := if_pos hlt
    rw [pins_cons hlt, List.length_cons]
    refine ⟨?_, ?_⟩
    · rw [Isr.calls, hnext, hcall, ihc]
      conv_rhs => rw [pin_irq_hdr, dif_pos hlt]
    · rw [Function.iterate_succ_apply, hnext]
      exact ihn
  | case2 irq_status i hge =>
    rw [pins_nil hge, pin_irq_hdr, dif_neg hge]
    refine ⟨?_, if_neg hge⟩
    show (Isr.call d port _).toList ++ [] = []
    rw [show Isr.call d port ⟨INTSRC, .serving int_status irq_status⟩ = none from if_neg hge]
    rfl

/-! ### Edges in time -/

/-- **The handler that saw the pin has not started the pin's handler yet**, or has not seen the
pin. -/
def Isr.Timely (pin : Fin 16) (σ : Isr) : Prop :=
  match σ.pc with
  | .idle => True
  | .serving int_status irq_status =>
    int_status.getLsbD pin = true → irq_status.getLsbD pin = true

instance (pin : Fin 16) (σ : Isr) : Decidable (σ.Timely pin) := by
  unfold Isr.Timely
  split <;> infer_instance

/-- The pin waits in the status, and will not be cleared before its handler starts. -/
def Isr.Due (pin : Fin 16) (σ : Isr) : Prop := σ.INTSRC.getLsbD pin = true ∧ σ.Timely pin

/-- The steps of the handler until that of a pin which waits has started, at most. -/
def Isr.rank (pin : Fin 16) (σ : Isr) : ℕ :=
  match σ.pc with
  | .idle => 18
  | .serving _ irq_status =>
    if irq_status.getLsbD pin = true then (pins irq_status).length
    else (pins irq_status).length + 19

variable {d : Driver H A} {port : Fin 8} {pin : Fin 16} {σ : Isr}

theorem pins_length_le (status : BitVec 32) : (pins status).length ≤ 16 := by
  rw [pins_eq, List.length_map]
  exact (List.length_filter_le _ _).trans (by rw [List.length_finRange])

theorem Isr.rank_le (pin : Fin 16) (σ : Isr) : σ.rank pin ≤ 35 := by
  unfold Isr.rank
  split
  · omega
  · rename_i irq_status _
    have hlen := pins_length_le irq_status
    split <;> omega

/-- An edge makes a pin wait, if it comes in time. -/
theorem Isr.Due.of_edge {reg : Port} {rising : Bool} (h : σ.Timely pin) (hen : reg.Enabled pin rising) :
    (σ.edge reg pin rising).Due pin := by
  rw [Isr.edge, if_pos hen]
  refine ⟨?_, h⟩
  show (σ.INTSRC ||| 1#32 <<< pin.val).getLsbD pin = true
  rw [getLsbD_setBit, decide_eq_true (show pin.val < 32 by omega), decide_eq_true rfl, Bool.and_self,
    Bool.or_true]

/-- Other edges leave it waiting. -/
theorem Isr.Due.edge (reg : Port) (q : Fin 16) (rising : Bool) (h : σ.Due pin) :
    (σ.edge reg q rising).Due pin ∧ (σ.edge reg q rising).rank pin = σ.rank pin := by
  unfold Isr.edge
  split
  · refine ⟨⟨?_, h.2⟩, rfl⟩
    show (σ.INTSRC ||| 1#32 <<< q.val).getLsbD pin = true
    rw [getLsbD_setBit, h.1, Bool.true_or]
  · exact ⟨h, rfl⟩

/-- **A step of the handler** starts the pin's handler, or brings it nearer. -/
theorem Isr.Due.next (h : σ.Due pin)
    (hhdr : (handlerOf d (pinOf port pin).val).isSome = true) :
    σ.Starts d port pin ∨ σ.next.Due pin ∧ σ.next.rank pin < σ.rank pin := by
  obtain ⟨INTSRC, pc⟩ := σ
  obtain ⟨hset, htime⟩ := h
  cases pc with
  | idle =>
    -- the status is read, with the pin in it
    right
    have hne : INTSRC ≠ 0 := by
      rintro rfl
      simp at hset
    have hnext : Isr.next ⟨INTSRC, .idle⟩ = ⟨INTSRC, .serving INTSRC INTSRC⟩ := if_pos hne
    rw [hnext]
    refine ⟨⟨hset, fun _ => hset⟩, ?_⟩
    have hlen := pins_length_le INTSRC
    simp only [Isr.rank, show INTSRC.getLsbD pin = true from hset, if_true]
    omega
  | serving int_status irq_status =>
    by_cases hlt : nu_ctz irq_status < GPIO_PIN_MAX
    · have hnext : Isr.next ⟨INTSRC, .serving int_status irq_status⟩ =
        ⟨INTSRC, .serving int_status (irq_status &&& ~~~(1#32 <<< nu_ctz irq_status))⟩ := if_pos hlt
      by_cases hpin : nu_ctz irq_status = pin.val
      · exact Or.inl ⟨⟨int_status, irq_status, rfl, hpin⟩, hhdr⟩
      · right
        have hsame : (irq_status &&& ~~~(1#32 <<< nu_ctz irq_status)).getLsbD pin =
            irq_status.getLsbD pin := by
          rw [getLsbD_clearBit, decide_eq_true (Ne.symm hpin), Bool.and_true]
        rw [hnext]
        refine ⟨⟨hset, fun hs => hsame.trans (htime hs)⟩, ?_⟩
        simp only [Isr.rank, hsame, pins_cons hlt, List.length_cons]
        split <;> omega
    · -- the status is written back, without the pin in it
      right
      have hnext : Isr.next ⟨INTSRC, .serving int_status irq_status⟩ =
        ⟨INTSRC &&& ~~~int_status, .idle⟩ := if_neg hlt
      have hclear : irq_status.getLsbD pin = false := by
        by_contra hset'
        rw [Bool.not_eq_false] at hset'
        have hmem : pin.val ∈ pins irq_status :=
          List.mem_filter.2 ⟨mem_bits.2 hset', decide_eq_true pin.isLt⟩
        rw [pins_nil hlt] at hmem
        cases hmem
      have hnot : int_status.getLsbD pin = false := by
        by_contra hset'
        rw [Bool.not_eq_false] at hset'
        rw [htime hset'] at hclear
        cases hclear
      rw [hnext]
      refine ⟨⟨?_, trivial⟩, ?_⟩
      · show (INTSRC &&& ~~~int_status).getLsbD pin = true
        rw [BitVec.getLsbD_and, BitVec.getLsbD_not, hnot, Bool.not_false,
          decide_eq_true (show pin.val < 32 by omega)]
        simpa using hset
      · simp only [Isr.rank, hclear, Bool.false_eq_true, if_false]
        omega

/-! ### Followed, or lost -/

/-- **The handler of the pin starts**, once the port's handler has made enough steps, whatever
edges come in between. -/
def Followed (d : Driver H A) (port : Fin 8) (pin : Fin 16) (σ : Isr) : Prop :=
  ∃ n, ∀ evs : List Event, n ≤ evs.count .step →
    ∃ before rest, evs = before ++ .step :: rest ∧
      (σ.after (d.port port.val) before).Starts d port pin

theorem Isr.Due.followed {evs : List Event} (h : σ.Due pin)
    (hhdr : (handlerOf d (pinOf port pin).val).isSome = true) (hn : σ.rank pin < evs.count .step) :
    ∃ before rest, evs = before ++ .step :: rest ∧
      (σ.after (d.port port.val) before).Starts d port pin := by
  -- by induction on the events: an edge changes nothing, a step lowers the rank
  induction evs generalizing σ with
  | nil => exact absurd hn (Nat.not_lt_zero _)
  | cons e evs ih =>
    cases e with
    | edge q rising =>
      obtain ⟨hdue, hrank⟩ := h.edge (d.port port.val) q rising
      rw [List.count_cons_of_ne (by simp)] at hn
      obtain ⟨before, rest, rfl, hstart⟩ := ih hdue (hrank ▸ hn)
      exact ⟨.edge q rising :: before, rest, rfl, hstart⟩
    | step =>
      rcases h.next hhdr with hstart | ⟨hdue, hless⟩
      · exact ⟨[], evs, rfl, hstart⟩
      · rw [List.count_cons_self] at hn
        obtain ⟨before, rest, rfl, hstart⟩ := ih hdue (by omega)
        exact ⟨.step :: before, rest, rfl, hstart⟩

/-- The pin is not going to be served: it is clear, or is going to be cleared. -/
def Isr.Missed (pin : Fin 16) (σ : Isr) : Prop :=
  match σ.pc with
  | .idle => σ.INTSRC.getLsbD pin = false
  | .serving int_status irq_status => irq_status.getLsbD pin = false ∧
    (int_status.getLsbD pin = true ∨ σ.INTSRC.getLsbD pin = false)

theorem Isr.Missed.next (h : σ.Missed pin) : σ.next.Missed pin := by
  obtain ⟨INTSRC, pc⟩ := σ
  cases pc with
  | idle =>
    have hclear : INTSRC.getLsbD pin = false := h
    simp only [Isr.next]
    split
    · exact ⟨hclear, Or.inr hclear⟩
    · exact h
  | serving int_status irq_status =>
    obtain ⟨hclear, hst⟩ := h
    simp only [Isr.next]
    split
    · refine ⟨?_, hst⟩
      rw [getLsbD_clearBit, hclear, Bool.false_and]
    · show (INTSRC &&& ~~~int_status).getLsbD pin = false
      rw [BitVec.getLsbD_and, BitVec.getLsbD_not]
      rcases hst with hst | hst
      · rw [hst, Bool.not_true, Bool.and_false, Bool.and_false]
      · rw [show INTSRC.getLsbD pin = false from hst, Bool.false_and]

theorem Isr.Missed.not_starts (h : σ.Missed pin) : ¬ σ.Starts d port pin := by
  rintro ⟨⟨int_status, irq_status, hpc, hpin⟩, -⟩
  rw [Isr.Missed, hpc] at h
  have hne : irq_status ≠ 0 := nu_ctz_ne_zero (by omega)
  have hset := (nu_ctz_lowest hne).isSet
  rw [hpin, h.1] at hset
  cases hset

/-- However many steps the handler makes. -/
theorem Isr.Missed.not_followed (h : σ.Missed pin) : ¬ Followed d port pin σ := by
  rintro ⟨n, hn⟩
  obtain ⟨before, rest, heq, hstart⟩ := hn (List.replicate n .step)
    (by rw [List.count_replicate_self])
  have hbefore : before = List.replicate before.length .step :=
    (List.replicate_eq_append_iff.1 heq).2.1
  have hmiss : ∀ (k : ℕ) (σ : Isr), σ.Missed pin →
      (σ.after (d.port port.val) (List.replicate k .step)).Missed pin := by
    intro k
    induction k with
    | zero => exact fun _ h => h
    | succ k ih => exact fun σ h => ih σ.next h.next
  rw [hbefore] at hstart
  exact (hmiss _ σ h).not_starts hstart

/-- **An edge is followed by a run of its handler exactly if it is in time**: at any moment of any
run, on a pin that is enabled and has a handler. -/
theorem edge_followed_iff (d : Driver H A) (port : Fin 8) (pin : Fin 16) (rising : Bool)
    (evs : List Event) (hhdr : (handlerOf d (pinOf port pin).val).isSome = true)
    (hen : (d.port port.val).Enabled pin rising) :
    Followed d port pin (Isr.boot.after (d.port port.val) (evs ++ [.edge pin rising])) ↔
      (Isr.boot.after (d.port port.val) evs).Timely pin := by
  rw [Isr.after_append]
  generalize Isr.boot.after (d.port port.val) evs = σ
  show Followed d port pin (σ.edge (d.port port.val) pin rising) ↔ _
  constructor
  · intro hf
    by_contra htime
    refine Isr.Missed.not_followed ?_ hf
    -- its handler has started, and the status it was seen in is written back
    rw [Isr.edge, if_pos hen]
    unfold Isr.Timely at htime
    unfold Isr.Missed
    split at htime
    · exact absurd trivial htime
    · rename_i int_status irq_status hpc
      rw [Classical.not_imp, Bool.not_eq_true] at htime
      simp only [hpc]
      exact ⟨htime.2, Or.inl htime.1⟩
  · intro htime
    exact ⟨36, fun rest hrest => (Isr.Due.of_edge htime hen).followed hhdr
      ((Isr.rank_le pin _).trans_lt hrest)⟩

/-! ### One that is lost -/

/-- A handler is attached to the first pin of port A, for rising edges, and enabled. -/
def onePin : Driver Unit Unit :=
  (nu_gpio_irq_enable 0 PIN_IRQ_ENABLE (nu_gpio_attach_irq 0 0 (some ()) none rt_hw_gpio_init).2).2

theorem onePin_handler : (handlerOf onePin (pinOf 0 0).val).isSome = true := by
  have hrep := (table_is_map (H := Unit) (A := Unit)
    [.attach 0 0 (some ()) none, .enable 0 PIN_IRQ_ENABLE]).2
  rw [show handlerOf onePin (pinOf 0 0).val = _ from hrep.handlerOf_eq (pinOf 0 0)]
  rfl

theorem onePin_enabled : (onePin.port 0).Enabled 0 true := by
  have hattach : nu_gpio_attach_irq 0 0 (some ()) none (rt_hw_gpio_init : Driver Unit Unit) =
      (RT_EOK, rt_hw_gpio_init.fill 0 ⟨0, 0, some (), none⟩) := by
    have hfind : nu_find_irqindex (rt_hw_gpio_init : Driver Unit Unit) (BitVec.ofInt 32 0) = none := by
      rw [nu_find_irqindex, find_irqindex_loop_eq]
      rfl
    rw [nu_gpio_attach_irq, if_neg (by decide), hfind]
    rfl
  have hfind : nu_find_irqindex (rt_hw_gpio_init.fill 0 ⟨0, 0, some (), none⟩ : Driver Unit Unit)
      (BitVec.ofInt 32 0) = some 0 := by
    rw [nu_find_irqindex, find_irqindex_loop_eq]
    rfl
  rw [onePin, hattach, nu_gpio_irq_enable, if_neg (by decide)]
  simp only [hfind]
  decide

/-- An edge on an idle port is followed by a run of its handler. -/
theorem edge_followed : Followed onePin 0 0 (Isr.boot.after (onePin.port 0) ([] ++ [.edge 0 true])) :=
  (edge_followed_iff onePin 0 0 true [] onePin_handler onePin_enabled).2 trivial

/-- An edge is served; a second one comes while its handler runs. -/
def twoEdges : List Event := [.edge 0 true, .step, .step]

/-- **The second edge is lost.** -/
theorem edge_lost : ¬ Followed onePin 0 0
    (Isr.boot.after (onePin.port 0) (twoEdges ++ [.edge 0 true])) := by
  have hend : Isr.boot.after (onePin.port 0) (twoEdges ++ [.edge 0 true]) = ⟨1, .serving 1 0⟩ := by
    simp only [twoEdges, Isr.after, List.cons_append, List.nil_append, List.foldl_cons,
      List.foldl_nil, Isr.step, Isr.edge, onePin_enabled, if_true]
    decide
  rw [hend]
  exact Isr.Missed.not_followed ⟨by decide, Or.inl (by decide)⟩

end Gpio
