/-
The USB device: its address.

The address of a SET_ADDRESS is parked by the core's thread until an endpoint-0 IN packet is done, and
then the interrupt handler programs it, if the device has none.  Nothing takes a parked address
away: neither a bus reset nor another SETUP.

* **`_USBD_IRQHandler`**, **`rt_usbd_thread_entry`** — the handler and the thread;
* **`World.step`** — the bus, the handler and the thread, in any order;
* **`Inv`** — a parked address is the one that is asked for, or has been taken;
* **`address_earned`** — where no SET_ADDRESS is abandoned, the address changes only when one is done;
* **`address_kept`** — one that was abandoned.
-/
import Mathlib.Data.List.Basic
import Mathlib.Tactic.Common
import NuMaker.Lib.Guarded

namespace Usbd

/-! ### Requests -/

/-- `struct urequest`, as far as it says what a SET_ADDRESS is. -/
structure urequest where
  request_type : BitVec 8
  bRequest : BitVec 8
  wValue : BitVec 16
deriving DecidableEq, Repr

/-- A standard request to the device, for `USB_REQ_SET_ADDRESS`. -/
def urequest.is_set_address (r : urequest) : Bool :=
  r.request_type &&& 0x60 == 0 && r.request_type &&& 0x1f == 0 && r.bRequest == 0x05

/-- The address that a SETUP asks for, `0` for none. -/
def urequest.address (r : urequest) : BitVec 8 :=
  if r.is_set_address then r.wValue.setWidth 8 else 0

inductive udev_msg
  | setup (r : urequest)
  | reset
deriving DecidableEq, Repr

/-! ### The device -/

/-- The device and its bus.  A packet that endpoint 0 has for the host is `some a` when it is the status
stage of a SET_ADDRESS(a), and `some 0` otherwise. -/
structure World where
  FADDR : BitVec 7
  address_tmp : BitVec 8
  usb_mq : List udev_msg
  ep0 : Option (BitVec 8)
  /-- The packets of a data stage that `rt_usbd_ep0_in_handler` has still to send. -/
  remain : ℕ
  USBRST : Bool
  SUSPEND : Bool
  SETUP : Option urequest
  EPEVT0 : Bool
  /-- What the host asks for: the address of the last SETUP after the last reset. -/
  asked : BitVec 8
  /-- What the device is to take: the address of a SET_ADDRESS whose status stage is complete, before
  the handler sees it. -/
  due : BitVec 8
deriving DecidableEq

/-- The queue takes so many messages. -/
def rt_usbd_event_signal (cap : ℕ) (q : List udev_msg) (m : udev_msg) : List udev_msg :=
  if q.length < cap then q ++ [m] else q

def bus_event (cap : ℕ) (w : World) : World :=
  -- a suspend only disables the PHY
  let w := { w with SUSPEND := false }
  if w.USBRST then
    { w with USBRST := false, FADDR := 0, usb_mq := rt_usbd_event_signal cap w.usb_mq .reset }
  else w

def setup_event (cap : ℕ) (w : World) : World :=
  match w.SETUP with
  | some r =>
    { w with SETUP := none, ep0 := none, usb_mq := rt_usbd_event_signal cap w.usb_mq (.setup r) }
  | none => w

def rt_usbd_ep0_in_handler (w : World) : World :=
  if w.remain ≠ 0 then { w with ep0 := some 0, remain := w.remain - 1 } else w

/-- The parked address is programmed if the device has none. -/
def program_address (w : World) : World :=
  if w.FADDR = 0 ∧ w.address_tmp ≠ 0 then
    { w with FADDR := w.address_tmp.setWidth 7, address_tmp := 0 }
  else w

def ep0_in_event (w : World) : World :=
  if w.EPEVT0 then rt_usbd_ep0_in_handler (program_address { w with EPEVT0 := false, due := 0 }) else w

def _USBD_IRQHandler (cap : ℕ) (w : World) : World :=
  ep0_in_event (setup_event cap (bus_event cap w))

/-- The driver's `_set_address`. -/
def _set_address (w : World) (address : BitVec 8) : World :=
  if address ≠ 0 then { w with address_tmp := address } else w

/-- The thread takes a message.  What the requests other than SET_ADDRESS do to endpoint 0 is the
core's matter: a packet or none, and what is left of a data stage. -/
def rt_usbd_thread_entry (w : World) (packet : Bool) (remain : ℕ) : World :=
  match w.usb_mq with
  | [] => w
  | .reset :: q => { w with usb_mq := q }
  | .setup r :: q =>
    if r.is_set_address then
      { _set_address w r.address with usb_mq := q, ep0 := some r.address }
    else { w with usb_mq := q, ep0 := if packet then some 0 else w.ep0, remain := remain }

/-! ### Runs -/

/-- What happens on the bus, the handler, and the thread. -/
inductive Event
  | reset
  | suspend
  | setup (r : urequest)
  | in_done
  | handler
  | thread (packet : Bool) (remain : ℕ)
deriving DecidableEq

/-- The host takes a packet where there is one. -/
def World.in_done (w : World) : World :=
  match w.ep0 with
  | none => w
  | some a =>
    if a ≠ 0 ∧ a = w.asked then { w with ep0 := none, EPEVT0 := true, asked := 0, due := a }
    else { w with ep0 := none, EPEVT0 := true }

def World.step (cap : ℕ) (w : World) : Event → World
  | .reset => { w with USBRST := true, asked := 0, due := 0 }
  | .suspend => { w with SUSPEND := true }
  | .setup r => { w with SETUP := some r, asked := r.address }
  | .in_done => w.in_done
  | .handler => _USBD_IRQHandler cap w
  | .thread packet remain => rt_usbd_thread_entry w packet remain

def World.start : World := ⟨0, 0, [], none, 0, false, false, none, false, 0, 0⟩

/-- Only the handler changes the address: to zero at a bus reset, and otherwise to the address that is
due, which a SET_ADDRESS asked for after the last reset, and whose status stage is complete. -/
def World.Earned (cap : ℕ) (w : World) (e : Event) : Prop :=
  (w.step cap e).FADDR ≠ 0 →
    (w.step cap e).FADDR = w.FADDR ∧ ¬ (e = .handler ∧ w.USBRST = true) ∨
    e = .handler ∧ w.EPEVT0 = true ∧ (w.step cap e).FADDR = w.due.setWidth 7

instance (cap : ℕ) (w : World) (e : Event) : Decidable (w.Earned cap e) := by
  unfold World.Earned
  infer_instance

/-- A SET_ADDRESS for an address other than zero waits for the handler or for the thread. -/
def World.Waits (w : World) : Prop :=
  (∃ r ∈ w.SETUP, r.address ≠ 0) ∨ ∃ m ∈ w.usb_mq, ∃ r, m = .setup r ∧ r.address ≠ 0

/-- The host does not abandon a SET_ADDRESS: no bus reset comes while one is under way, and no SETUP
before its status stage is complete; none is sent to a device that has an address; and none is served
while a packet is done that the handler has not seen. -/
def World.Clean (w : World) : Event → Prop
  | .reset => w.address_tmp = 0 ∧ ¬ w.Waits
  | .setup r => (w.address_tmp ≠ 0 → w.due = w.address_tmp) ∧ ¬ w.Waits ∧
      (r.address ≠ 0 → w.address_tmp = 0 ∧ (w.FADDR = 0 ∨ w.USBRST = true))
  | .thread _ _ => ∀ r, w.usb_mq.head? = some (.setup r) → r.address ≠ 0 → w.EPEVT0 = false
  | _ => True

/-! ### What is parked -/

structure Inv (w : World) : Prop where
  /-- A parked address is the one that the host asks for, with its status stage to come, or it is due. -/
  parked : w.address_tmp ≠ 0 → w.FADDR = 0 ∧ w.USBRST = false ∧
    (∀ r, .setup r ∈ w.usb_mq → r.address = 0) ∧ (∀ r, w.SETUP = some r → r.address = 0) ∧
    (w.ep0 = some w.address_tmp ∧ w.asked = w.address_tmp ∧ w.EPEVT0 = false ∧ w.SETUP = none ∧
        (∀ r, .setup r ∉ w.usb_mq) ∨
      w.due = w.address_tmp ∧ w.EPEVT0 = true ∧ ∀ a, w.ep0 = some a → a = 0)
  queued : ∀ r, .setup r ∈ w.usb_mq → r.address ≠ 0 →
    w.address_tmp = 0 ∧ w.FADDR = 0 ∧ w.USBRST = false ∧ w.SETUP = none ∧ w.asked = r.address
  /-- No SETUP is queued behind a SET_ADDRESS. -/
  last : w.usb_mq.Pairwise fun m m' => ∀ r r', m = .setup r → m' = .setup r' → r.address = 0
  pending : ∀ r, w.SETUP = some r → r.address ≠ 0 →
    w.address_tmp = 0 ∧ (w.FADDR = 0 ∨ w.USBRST = true) ∧ w.asked = r.address ∧
    ∀ r', .setup r' ∈ w.usb_mq → r'.address = 0
  armed : ∀ a, w.ep0 = some a → a ≠ 0 → w.address_tmp = a
  seen : w.EPEVT0 = false → w.due = 0

variable {cap : ℕ} {w : World}

theorem Inv.start : Inv .start where
  parked h := absurd rfl h
  queued r h := by simp [World.start] at h
  last := List.Pairwise.nil
  pending r h := by cases h
  armed a h := by cases h
  seen _ := rfl

theorem not_waits (h : ¬ w.Waits) : (∀ r, w.SETUP = some r → r.address = 0) ∧
    ∀ r, .setup r ∈ w.usb_mq → r.address = 0 := by
  simp only [World.Waits, not_or, not_exists, not_and, not_not] at h
  exact ⟨fun r hr => h.1 r hr, fun r hr => h.2 _ hr r rfl⟩

theorem Inv.reset (h : Inv w) (hc : w.Clean .reset) : Inv (w.step cap .reset) := by
  obtain ⟨hpark, hwait⟩ := hc
  obtain ⟨hsetup, hmq⟩ := not_waits hwait
  exact ⟨fun hp => absurd hpark hp, fun r hr ha => absurd (hmq r hr) ha, h.last,
    fun r hr ha => absurd (hsetup r hr) ha, h.armed, fun _ => rfl⟩

theorem Inv.setup (h : Inv w) {r : urequest} (hc : w.Clean (.setup r)) : Inv (w.step cap (.setup r)) := by
  obtain ⟨hdue, hwait, hask⟩ := hc
  obtain ⟨-, hmq⟩ := not_waits hwait
  refine ⟨fun hp => ?_, fun r hr ha => absurd (hmq r hr) ha, h.last, fun r' hr ha => ?_, h.armed, h.seen⟩
  · obtain ⟨haddr, hrst, hq, -, hstage⟩ := h.parked hp
    refine ⟨haddr, hrst, hq, fun r' hr' => ?_, .inr ?_⟩
    · obtain rfl := Option.some.inj hr'
      by_contra ha
      exact hp (hask ha).1
    · obtain ⟨-, -, hseen, -⟩ | hdone := hstage
      · exact absurd ((hdue hp).symm.trans (h.seen hseen)) hp
      · exact hdone
  · obtain rfl := Option.some.inj hr
    obtain ⟨hp, haddr⟩ := hask ha
    exact ⟨hp, haddr, rfl, hmq⟩

theorem Inv.in_done (h : Inv w) : Inv (w.step cap .in_done) := by
  show Inv w.in_done
  unfold World.in_done
  split
  · exact h
  · next a ha =>
    split
    -- the status stage of the address that is parked
    · next hask =>
      have hp : w.address_tmp = a := h.armed a ha hask.1
      have hne : w.address_tmp ≠ 0 := hp ▸ hask.1
      obtain ⟨haddr, hrst, hq, hs, -⟩ := h.parked hne
      exact ⟨fun _ => ⟨haddr, hrst, hq, hs, .inr ⟨hp.symm, rfl, fun a h => nomatch h⟩⟩,
        fun r hr ha => absurd (h.queued r hr ha).1 hne, h.last,
        fun r hr ha => absurd (h.pending r hr ha).1 hne, fun a h => (by cases h), fun h => nomatch h⟩
    · next hask =>
      refine ⟨fun hp => ?_, h.queued, h.last, h.pending, fun a h => (by cases h), fun h => nomatch h⟩
      obtain ⟨haddr, hrst, hq, hs, hstage⟩ := h.parked hp
      refine ⟨haddr, hrst, hq, hs, .inr ?_⟩
      obtain ⟨hep0, hasked, -⟩ | ⟨hdue, -⟩ := hstage
      · obtain rfl := Option.some.inj (ha.symm.trans hep0)
        exact absurd ⟨hp, hasked.symm⟩ hask
      · exact ⟨hdue, rfl, fun a h => nomatch h⟩

/-! ### The handler -/

theorem mem_signal {q : List udev_msg} {m m' : udev_msg} (h : m ∈ rt_usbd_event_signal cap q m') :
    m ∈ q ∨ m = m' := by
  unfold rt_usbd_event_signal at h
  split at h
  · simpa using h
  · exact .inl h

theorem signal_last {q : List udev_msg} {m : udev_msg}
    (h : q.Pairwise fun m m' => ∀ r r', m = .setup r → m' = .setup r' → r.address = 0)
    (hm : ∀ r r', .setup r ∈ q → m = .setup r' → r.address = 0) :
    (rt_usbd_event_signal cap q m).Pairwise
      fun m m' => ∀ r r', m = .setup r → m' = .setup r' → r.address = 0 := by
  unfold rt_usbd_event_signal
  split
  · refine List.pairwise_append.2 ⟨h, List.pairwise_singleton _ _, ?_⟩
    rintro m₁ h₁ m₂ h₂ r r' rfl rfl
    exact hm r r' h₁ (List.mem_singleton.1 h₂).symm
  · exact h

theorem setup_mem_signal_reset {q : List udev_msg} {r : urequest}
    (h : .setup r ∈ rt_usbd_event_signal cap q .reset) : .setup r ∈ q :=
  (mem_signal h).resolve_right fun h => nomatch h

/-- A bus reset comes when nothing is parked or queued. -/
theorem Inv.bus_event (h : Inv w) : Inv (bus_event cap w) ∧ (bus_event cap w).USBRST = false := by
  unfold Usbd.bus_event
  simp only []
  split
  · next hrst =>
    refine ⟨⟨fun hp => ?_, fun r hr ha => ?_, ?_, fun r hr ha => ?_, h.armed, h.seen⟩, rfl⟩
    · exact absurd ((h.parked hp).2.1.symm.trans hrst) Bool.false_ne_true
    · have hq := h.queued r (setup_mem_signal_reset hr) ha
      exact absurd (hq.2.2.1.symm.trans hrst) Bool.false_ne_true
    · exact signal_last h.last fun _ _ _ h => nomatch h
    · obtain ⟨hp, -, hasked, hq⟩ := h.pending r hr ha
      exact ⟨hp, .inl rfl, hasked, fun r' hr' => hq r' (setup_mem_signal_reset hr')⟩
  · next hrst =>
    exact ⟨⟨h.parked, h.queued, h.last, h.pending, h.armed, h.seen⟩, Bool.eq_false_iff.2 hrst⟩

/-- A SETUP is queued: a SET_ADDRESS is the last one then. -/
theorem Inv.setup_event (h : Inv w) (hrst : w.USBRST = false) : Inv (setup_event cap w) := by
  unfold Usbd.setup_event
  split
  · next r hr =>
    refine ⟨fun hp => ?_, fun r' hr' ha => ?_, ?_, fun r' h' => (nomatch h'), fun a h' => (nomatch h'),
      h.seen⟩
    · obtain ⟨haddr, -, hq, hs, hstage⟩ := h.parked hp
      refine ⟨haddr, hrst, fun r' hr' => ?_, fun r' h' => (nomatch h'), .inr ?_⟩
      · obtain hmem | heq := mem_signal hr'
        · exact hq r' hmem
        · obtain rfl := udev_msg.setup.inj heq
          exact hs r' hr
      · obtain ⟨-, -, -, hnone, -⟩ | ⟨hdue, hseen, -⟩ := hstage
        · rw [hr] at hnone
          cases hnone
        · exact ⟨hdue, hseen, fun a h' => nomatch h'⟩
    · obtain hmem | heq := mem_signal hr'
      · have hnone := (h.queued r' hmem ha).2.2.2.1
        rw [hr] at hnone
        cases hnone
      · obtain rfl := udev_msg.setup.inj heq
        obtain ⟨hp, haddr, hasked, -⟩ := h.pending r' hr ha
        refine ⟨hp, haddr.resolve_right fun h' => ?_, hrst, rfl, hasked⟩
        exact absurd (hrst.symm.trans h') Bool.false_ne_true
    · refine signal_last h.last fun r₁ _ h₁ _ => ?_
      by_contra ha
      have hnone := (h.queued r₁ h₁ ha).2.2.2.1
      rw [hr] at hnone
      cases hnone
  · exact h

/-- Nothing stays parked, and the address that is programmed is due. -/
theorem Inv.program (h : Inv w) (hin : w.EPEVT0 = true) :
    Inv (program_address { w with EPEVT0 := false, due := 0 }) ∧
    (program_address { w with EPEVT0 := false, due := 0 }).address_tmp = 0 ∧
    ((program_address { w with EPEVT0 := false, due := 0 }).FADDR = w.FADDR ∨
      w.address_tmp ≠ 0 ∧
        (program_address { w with EPEVT0 := false, due := 0 }).FADDR = w.due.setWidth 7) := by
  unfold program_address
  split
  · next hset =>
    obtain ⟨-, -, hq, hs, ⟨-, -, hseen, -⟩ | ⟨hdue, -, hep0⟩⟩ := h.parked hset.2
    · exact absurd (hseen.symm.trans hin) Bool.false_ne_true
    · refine ⟨⟨fun hp => absurd rfl hp, fun r hr ha => absurd (hq r hr) ha, h.last,
        fun r hr ha => absurd (hs r hr) ha, fun a ha hne => absurd (hep0 a ha) hne, fun _ => rfl⟩, rfl,
        .inr ⟨hset.2, ?_⟩⟩
      show w.address_tmp.setWidth 7 = w.due.setWidth 7
      rw [hdue]
  · next hset =>
    have hp : w.address_tmp = 0 := by
      by_contra hp
      exact hset ⟨(h.parked hp).1, hp⟩
    exact ⟨⟨fun hne => absurd hp hne, h.queued, h.last, h.pending, h.armed, fun _ => rfl⟩, hp, .inl rfl⟩

/-- The next packet of a data stage is not a status stage. -/
theorem Inv.in_handler (h : Inv w) (hp : w.address_tmp = 0) : Inv (rt_usbd_ep0_in_handler w) := by
  unfold rt_usbd_ep0_in_handler
  split
  · exact ⟨fun hne => absurd hp hne, h.queued, h.last, h.pending,
      fun a ha hne => absurd (Option.some.inj ha).symm hne, h.seen⟩
  · exact h

theorem in_handler_FADDR (w : World) : (rt_usbd_ep0_in_handler w).FADDR = w.FADDR := by
  unfold rt_usbd_ep0_in_handler
  split <;> rfl

theorem Inv.ep0_in_event (h : Inv w) : Inv (ep0_in_event w) ∧
    ((ep0_in_event w).FADDR = w.FADDR ∨
      w.EPEVT0 = true ∧ (ep0_in_event w).FADDR = w.due.setWidth 7) := by
  unfold Usbd.ep0_in_event
  split
  · next hin =>
    obtain ⟨hinv, hp, haddr⟩ := h.program hin
    rw [in_handler_FADDR]
    exact ⟨hinv.in_handler hp, haddr.imp id fun haddr => ⟨hin, haddr.2⟩⟩
  · exact ⟨h, .inl rfl⟩

/-- What the handler keeps until it comes to endpoint 0. -/
theorem events_keep (cap : ℕ) (w : World) :
    (setup_event cap (bus_event cap w)).FADDR = (if w.USBRST then 0 else w.FADDR) ∧
    (setup_event cap (bus_event cap w)).EPEVT0 = w.EPEVT0 ∧
    (setup_event cap (bus_event cap w)).due = w.due := by
  unfold setup_event bus_event
  simp only []
  split <;> split <;> exact ⟨rfl, rfl, rfl⟩

/-- **The handler**: the address is reset, kept, or the one that is due. -/
theorem Inv.handler (h : Inv w) : Inv (w.step cap .handler) ∧ w.Earned cap .handler := by
  have hbus : Inv (Usbd.bus_event cap w) ∧ (Usbd.bus_event cap w).USBRST = false := h.bus_event
  have hsetup : Inv (Usbd.setup_event cap (Usbd.bus_event cap w)) := hbus.1.setup_event hbus.2
  obtain ⟨hinv, hep0⟩ := hsetup.ep0_in_event
  obtain ⟨haddr, hin, hdue⟩ := events_keep cap w
  refine ⟨hinv, fun hne => ?_⟩
  obtain hsame | ⟨hin', hprog⟩ := hep0
  · replace hsame : (w.step cap .handler).FADDR = if w.USBRST then 0 else w.FADDR := hsame.trans haddr
    cases hrst : w.USBRST
    · exact .inl ⟨by rw [hsame, hrst]; rfl, fun hreset => Bool.false_ne_true hreset.2⟩
    · rw [hsame, hrst] at hne
      exact absurd rfl hne
  · exact .inr ⟨rfl, hin.symm.trans hin', hprog.trans (congrArg _ hdue)⟩

/-! ### The thread -/

/-- A message that is not a SET_ADDRESS leaves the address alone, whatever it does to endpoint 0. -/
theorem Inv.other (h : Inv w) {m : udev_msg} {q : List udev_msg} (hq : w.usb_mq = m :: q)
    (hm : ∀ r, m = .setup r → r.address = 0) {ep0 : Option (BitVec 8)}
    (hep0 : ep0 = w.ep0 ∨ ep0 = some 0 ∧ ∃ r, m = .setup r) (remain : ℕ) :
    Inv { w with usb_mq := q, ep0 := ep0, remain := remain } := by
  have hmem {m'} (h : m' ∈ q) : m' ∈ w.usb_mq := hq ▸ List.mem_cons_of_mem m h
  have hlast := h.last
  rw [hq, List.pairwise_cons] at hlast
  refine ⟨fun hp => ?_, fun r hr ha => h.queued r (hmem hr) ha, hlast.2, fun r hr ha => ?_,
    fun a ha hne => ?_, h.seen⟩
  · obtain ⟨haddr, hrst, hno, hs, hstage⟩ := h.parked hp
    refine ⟨haddr, hrst, fun r hr => hno r (hmem hr), hs, ?_⟩
    obtain ⟨htag, hasked, hin, hnone, hempty⟩ | ⟨hdue, hin, htag⟩ := hstage
    · obtain rfl | ⟨-, r, rfl⟩ := hep0
      · exact .inl ⟨htag, hasked, hin, hnone, fun r hr => hempty r (hmem hr)⟩
      · exact absurd (hq ▸ List.mem_cons_self) (hempty r)
    · refine .inr ⟨hdue, hin, fun a ha => ?_⟩
      obtain rfl | ⟨rfl, -⟩ := hep0
      · exact htag a ha
      · exact (Option.some.inj ha).symm
  · obtain ⟨hp, haddr, hasked, hno⟩ := h.pending r hr ha
    exact ⟨hp, haddr, hasked, fun r' hr' => hno r' (hmem hr')⟩
  · obtain rfl | ⟨rfl, -⟩ := hep0
    · exact h.armed a ha hne
    · exact absurd (Option.some.inj ha).symm hne

/-- An address is parked with its status stage to come. -/
theorem Inv.park (h : Inv w) {r : urequest} {q : List udev_msg} (hq : w.usb_mq = .setup r :: q)
    (ha : r.address ≠ 0) (hin : w.EPEVT0 = false) :
    Inv { w with address_tmp := r.address, usb_mq := q, ep0 := some r.address } := by
  obtain ⟨-, haddr, hrst, hs, hasked⟩ := h.queued r (hq ▸ List.mem_cons_self) ha
  have hlast := h.last
  rw [hq, List.pairwise_cons] at hlast
  -- it was the last SETUP
  have hempty (r' : urequest) : .setup r' ∉ q := fun hr' => ha (hlast.1 _ hr' r r' rfl rfl)
  exact ⟨fun _ => ⟨haddr, hrst, fun r' hr' => absurd hr' (hempty r'), fun r' hr' => (by simp [hs] at hr'),
      .inl ⟨rfl, hasked, hin, hs, hempty⟩⟩,
    fun r' hr' _ => absurd hr' (hempty r'), hlast.2, fun r' hr' _ => (by simp [hs] at hr'),
    fun a ha' _ => Option.some.inj ha', h.seen⟩

theorem Inv.thread (h : Inv w) {packet : Bool} {remain : ℕ} (hc : w.Clean (.thread packet remain)) :
    Inv (w.step cap (.thread packet remain)) := by
  show Inv (rt_usbd_thread_entry w packet remain)
  unfold rt_usbd_thread_entry
  split
  · exact h
  · next q hq => exact h.other hq (fun r hr => nomatch hr) (.inl rfl) w.remain
  · next r q hq =>
    have haddress (hm : r.address = 0) : ∀ r', udev_msg.setup r = .setup r' → r'.address = 0 := by
      rintro r' hr'
      obtain rfl := udev_msg.setup.inj hr'
      exact hm
    split
    · unfold _set_address
      split
      · next ha => exact h.park hq ha (hc r (hq ▸ rfl) ha)
      · next ha =>
        rw [not_not] at ha
        rw [ha]
        exact h.other hq (haddress ha) (.inr ⟨rfl, r, rfl⟩) w.remain
    · next hnot =>
      have ha : r.address = 0 := if_neg hnot
      refine h.other hq (haddress ha) ?_ remain
      cases packet
      · exact .inl rfl
      · exact .inr ⟨rfl, r, rfl⟩

/-! ### The address -/

theorem in_done_FADDR (w : World) : w.in_done.FADDR = w.FADDR := by
  unfold World.in_done
  split
  · rfl
  · split <;> rfl

theorem thread_FADDR (w : World) (packet : Bool) (remain : ℕ) :
    (rt_usbd_thread_entry w packet remain).FADDR = w.FADDR := by
  unfold rt_usbd_thread_entry
  split
  · rfl
  · rfl
  · split
    · show (_set_address w _).FADDR = w.FADDR
      unfold _set_address
      split <;> rfl
    · rfl

/-- **A step** that is clean. -/
theorem Inv.step (h : Inv w) (e : Event) (hc : w.Clean e) : Inv (w.step cap e) ∧ w.Earned cap e := by
  cases e with
  | reset => exact ⟨h.reset hc, fun _ => .inl ⟨rfl, fun h => nomatch h.1⟩⟩
  | suspend =>
    exact ⟨⟨h.parked, h.queued, h.last, h.pending, h.armed, h.seen⟩, fun _ => .inl ⟨rfl, fun h => nomatch h.1⟩⟩
  | setup r => exact ⟨h.setup hc, fun _ => .inl ⟨rfl, fun h => nomatch h.1⟩⟩
  | in_done => exact ⟨h.in_done, fun _ => .inl ⟨in_done_FADDR w, fun h => nomatch h.1⟩⟩
  | handler => exact h.handler
  | thread packet remain =>
    exact ⟨h.thread hc, fun _ => .inl ⟨thread_FADDR w packet remain, fun h => nomatch h.1⟩⟩

/-- **Runs**: where the host abandons no SET_ADDRESS, the address changes only by the handler: to zero at
a bus reset, and otherwise when the status stage of a SET_ADDRESS is complete, to its address. -/
theorem address_earned (cap : ℕ) (es : List Event)
    (hc : Guarded.Along (World.step cap) World.Clean .start es) :
    Guarded.Along (World.step cap) (World.Earned cap) .start es :=
  hc.of_inv (fun _ e h hc => h.step e hc) Inv.start

/-- SET_ADDRESS(5). -/
def set_address_5 : urequest := ⟨0x00, 0x05, 5⟩

/-- GET_DESCRIPTOR(device). -/
def get_descriptor : urequest := ⟨0x80, 0x06, 0x0100⟩

theorem address_earned_5 :
    Guarded.Along (World.step 14) World.Clean .start
      [.reset, .handler, .setup set_address_5, .handler, .thread false 0, .in_done, .handler] ∧
    Guarded.Along (World.step 14) (World.Earned 14) .start
      [.reset, .handler, .setup set_address_5, .handler, .thread false 0, .in_done, .handler] := by
  have hclean : Guarded.Along (World.step 14) World.Clean .start
      [.reset, .handler, .setup set_address_5, .handler, .thread false 0, .in_done, .handler] := by
    refine ⟨⟨rfl, ?_⟩, trivial, ⟨fun h => absurd rfl h, ?_, fun _ => ⟨rfl, .inl rfl⟩⟩, trivial, fun _ _ _ => rfl,
      trivial, trivial, trivial⟩
    · rintro (⟨r, hr, -⟩ | ⟨m, hm, -⟩)
      · cases hr
      · cases hm
    · rintro (⟨r, hr, -⟩ | ⟨m, hm, r, rfl, -⟩)
      · cases hr
      · cases (List.mem_singleton.1 hm : udev_msg.setup r = .reset)
  exact ⟨hclean, address_earned 14 _ hclean⟩

/-- SET_ADDRESS(5) is parked when the bus is reset, and programmed when another request has its packet
done; or it is done when the bus is reset, and programmed after the reset. -/
theorem address_kept :
    ¬ Guarded.Along (World.step 14) (World.Earned 14) .start
      [.setup set_address_5, .handler, .thread false 0, .reset, .handler, .setup get_descriptor, .handler,
        .thread false 0, .thread true 0, .in_done, .handler] ∧
    ¬ Guarded.Along (World.step 14) (World.Earned 14) .start
      [.setup set_address_5, .handler, .thread false 0, .in_done, .reset, .handler] := by
  decide

end Usbd
