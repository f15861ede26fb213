/-
Control requests of several devices, interleaved.

Each device takes its set-up packet, data chunks and status stage in order, and between
two of its calls the others may call.  The set-up packet and the running length are those
of the root port, whatever device the call is of.

* `control_unmixed` — in a run where each read of a chunk comes while the last set-up
  packet of a read on its root port is of the same device, every transfer is the calling
  device's own request, at its own address and on its own buffer.
-/
import NuMaker.Usb.Control

namespace Usb

/-! ### Runs -/

/-- A call for a device: a set-up packet, a data chunk, or the status stage. -/
inductive Call (ι : Type)
  | setup (i : ι) (r : urequest)
  | data (i : ι) (buffer n : ℕ)
  | status (i : ι)

/-- The driver, the request each device is in, whether it has had no chunk yet, and the
device of the last set-up packet of a read on each root port. -/
structure Sys (ι : Type) where
  s : State
  cur : ι → Option urequest
  fresh : ι → Bool
  last : ℕ → Option ι

variable {ι : Type}

def Call.dev : Call ι → ι
  | .setup i _ => i
  | .data i _ _ => i
  | .status i => i

/-- The buffer of the call. -/
def Call.buffer : Call ι → Option ℕ
  | .data _ buffer _ => some buffer
  | _ => none

/-- The request the call is part of: that of the device's own set-up packet. -/
def Call.request (σ : Sys ι) : Call ι → Option urequest
  | .setup _ r => some r
  | .data i _ _ => σ.cur i
  | .status i => σ.cur i

/-- The devices, their packet sizes, root ports and records. -/
structure Devices (ι : Type) where
  inst : ι → uinstance
  mps : ι → BitVec 16
  port : ι → ℕ
  dev : ι → DevRef
  own : Function.Injective dev

variable (bus : Bus) (D : Devices ι)

/-- The address a device has. -/
def Devices.address (s : State) (i : ι) : Option (BitVec 8) := (s.dev (D.dev i)).pUDev.map (·.dev_num)

/-- One call. -/
def Sys.step [DecidableEq ι] (σ : Sys ι) : Call ι → Option (Sys ι)
  | .setup i r =>
    (nu_pipe_xfer bus σ.s (ep0 (D.inst i) (D.mps i) false) (.SETUP r) 8).map fun p =>
      { s := p.2
        cur := Function.update σ.cur i (some r)
        fresh := Function.update σ.fresh i true
        last := if r.dirIn then Function.update σ.last (D.port i) (some i) else σ.last }
  | .data i buffer n =>
    (σ.cur i).bind fun r =>
      (nu_pipe_xfer bus σ.s (ep0 (D.inst i) (D.mps i) r.dirIn) (.DATA (some buffer)) n).map
        fun p => { σ with s := p.2, fresh := Function.update σ.fresh i false }
  | .status i =>
    (σ.cur i).bind fun r =>
      (nu_pipe_xfer bus σ.s (ep0 (D.inst i) (D.mps i) !r.dirIn) (.DATA none) 0).map
        fun p => { σ with s := p.2, cur := Function.update σ.cur i none }

/-- A chunk of a read comes while the last set-up packet of a read on its root port is of
its own device. -/
def Own (σ : Sys ι) : Call ι → Prop
  | .data i _ _ => ∀ r, σ.cur i = some r → r.dirIn = true → σ.last (D.port i) = some i
  | _ => True

/-- A run of calls with property `P`. -/
inductive Sys.RunBy [DecidableEq ι] (P : Sys ι → Call ι → Prop) (σ₀ : Sys ι) : Sys ι → Prop
  | refl : Sys.RunBy P σ₀ σ₀
  | call {σ σ' : Sys ι} {c : Call ι} : Sys.RunBy P σ₀ σ → P σ c → σ.step bus D c = some σ' →
      Sys.RunBy P σ₀ σ'

/-- The devices are there and no request has begun. -/
structure Sys.Start (σ : Sys ι) : Prop where
  attached : ∀ i, Attached σ.s (D.inst i) (D.port i) (D.dev i)
  idle : ∀ i, σ.cur i = none

/-- What a call issues is the device's own, the first chunk of a read does issue it, and
the addresses of the other devices stay. -/
structure Unmixed (σ : Sys ι) (c : Call ι) (σ' : Sys ι) : Prop where
  own : ∀ x ∈ σ'.s.xfers.drop σ.s.xfers.length,
    c.request σ = some x.req ∧ D.address σ.s c.dev = some x.dev_num ∧ x.buffer = c.buffer
  first : ∀ i buffer n r, c = .data i buffer n → σ.cur i = some r → r.dirIn = true →
    σ.fresh i = true → σ'.s.xfers.length = σ.s.xfers.length + 1
  others : ∀ j ≠ c.dev, D.address σ'.s j = D.address σ.s j

/-! ### What the root port holds -/

/-- The last device with a set-up packet of a read on a root port finds its request there,
and before its first chunk the running length is zero. -/
structure Sys.Inv (σ : Sys ι) : Prop where
  attached : ∀ i, Attached σ.s (D.inst i) (D.port i) (D.dev i)
  stored : ∀ i r, σ.cur i = some r → r.dirIn = true → σ.last (D.port i) = some i →
    σ.s.setup (D.port i) = r
  zero : ∀ i r, σ.cur i = some r → r.dirIn = true → σ.last (D.port i) = some i → σ.fresh i = true →
    σ.s.sent (D.port i) = 0

variable {bus D} {σ : Sys ι}

theorem Sys.Start.inv (h : σ.Start D) : σ.Inv D := by
  constructor
  · exact h.attached
  · exact fun i r hc => absurd ((h.idle i).symm.trans hc) (by simp)
  · exact fun i r hc => absurd ((h.idle i).symm.trans hc) (by simp)

/-- What one call does: it goes through, keeps to the device's own, and keeps the root
ports as described. -/
structure StepDone [DecidableEq ι] (bus : Bus) (D : Devices ι) (σ : Sys ι) (c : Call ι) (σ' : Sys ι) : Prop where
  eq : σ.step bus D c = some σ'
  unmixed : Unmixed D σ c σ'
  inv : σ'.Inv D

theorem address_setSent (s : State) (port i : ℕ) (v : BitVec 32) (j : ι) :
    D.address (s.setSent port i v) j = D.address s j := by
  rw [Devices.address, setSent_pUDev, Devices.address]

theorem address_setSetup (s : State) (port i : ℕ) (r : urequest) (j : ι) :
    D.address (s.setSetup port i r) j = D.address s j := by
  rw [Devices.address, setSetup_pUDev, Devices.address]

/-- A transfer of one device leaves the addresses of the others. -/
theorem Issued.address {s : State} {i : ι} {u : UDEV_T} {r : urequest} {b : Option ℕ} {out : ℤ × State}
    (h : Issued bus s (D.dev i) u r b out) (j : ι) (hj : j ≠ i) :
    D.address out.2 j = D.address s j := by
  rw [Devices.address, h.others _ (D.own.ne hj), Devices.address]

section Steps

variable [DecidableEq ι]

/-- A set-up packet of a read: it is stored, and the length is zero. -/
theorem Sys.Inv.setup_in (h : σ.Inv D) (i : ι) {r : urequest} (hr : r.dirIn = true) :
    ∃ σ', StepDone bus D σ (.setup i r) σ' := by
  have he := nu_pipe_xfer_setup_in bus (ep0 (D.inst i) (D.mps i) false) 8
    (h.attached i) rfl hr
  have hk : Keeps σ.s ((σ.s.setSent (D.port i) 0 0).setSetup (D.port i) 0 r) :=
    (setSent_keeps _ _ _ _).trans (setSetup_keeps _ _ _ _)
  refine ⟨_, ⟨by rw [Sys.step, he, Option.map_some], ?_, ?_⟩⟩
  · constructor
    · simp
    · rintro j buffer n r' hc
      cases hc
    · intro j _
      rw [address_setSetup, address_setSent]
  · constructor
    · exact fun j => (h.attached j).keep hk
    · intro j r' hc hr' hl
      dsimp only at hc hl ⊢
      rw [hr, if_pos rfl] at hl
      by_cases hp : D.port j = D.port i
      · -- on this root port the last one is now `i`
        rw [hp, Function.update_self, Option.some_inj] at hl
        subst hl
        rw [Function.update_self, Option.some_inj] at hc
        rw [← hc, setSetup_setup]
      · have hj : j ≠ i := fun hj => hp (hj ▸ rfl)
        rw [Function.update_of_ne hp] at hl
        rw [Function.update_of_ne hj] at hc
        rw [setSetup_setup_of_ne _ _ _ hp, setSent_setup]
        exact h.stored j r' hc hr' hl
    · intro j r' hc hr' hl hf
      dsimp only at hc hl hf ⊢
      rw [hr, if_pos rfl] at hl
      by_cases hp : D.port j = D.port i
      · rw [hp, setSetup_sent, setSent_sent]
      · have hj : j ≠ i := fun hj => hp (hj ▸ rfl)
        rw [Function.update_of_ne hp] at hl
        rw [Function.update_of_ne hj] at hc hf
        rw [setSetup_sent, setSent_sent_of_ne _ _ _ hp]
        exact h.zero j r' hc hr' hl hf

/-- A set-up packet of a write: it is sent, and what is stored stays. -/
theorem Sys.Inv.setup_out (h : σ.Inv D) (i : ι) {r : urequest} (hr : r.dirIn = false) :
    ∃ σ', StepDone bus D σ (.setup i r) σ' := by
  obtain ⟨u, hu⟩ := Option.isSome_iff_exists.mp (h.attached i).udev
  obtain ⟨out, hout, he⟩ := nu_pipe_xfer_setup_out bus (ep0 (D.inst i) (D.mps i) false) 8
    (h.attached i) rfl hu hr
  have hx : out.2.xfers = σ.s.xfers ++ [⟨u.dev_num, r, none⟩] := hout.xfers
  refine ⟨_, ⟨by rw [Sys.step, he, Option.map_some], ?_, ?_⟩⟩
  · constructor
    · intro x hmem
      rw [hx, List.drop_left, List.mem_singleton] at hmem
      subst hmem
      exact ⟨rfl, by rw [Devices.address, Call.dev, hu, Option.map_some], rfl⟩
    · rintro j buffer n r' hc
      cases hc
    · intro j hj
      rw [hout.address j hj, address_setSent]
  · have hkeep : ∀ j r', Function.update σ.cur i (some r) j = some r' → r'.dirIn = true → j ≠ i := by
      rintro j r' hc hr' rfl
      rw [Function.update_self, Option.some_inj] at hc
      exact absurd (hr'.symm.trans (hc ▸ hr)) (by decide)
    simp only [hr, Bool.false_eq_true, if_false]
    constructor
    · exact fun j => (h.attached j).keep ((setSent_keeps _ _ _ _).trans hout.keeps)
    · intro j r' hc hr' hl
      dsimp only at hc hl ⊢
      have hj := hkeep j r' hc hr'
      rw [Function.update_of_ne hj] at hc
      rw [hout.setup, setSent_setup]
      exact h.stored j r' hc hr' hl
    · intro j r' hc hr' hl hf
      dsimp only at hc hl hf ⊢
      have hj := hkeep j r' hc hr'
      rw [Function.update_of_ne hj] at hc hf
      rw [hout.sent]
      by_cases hp : D.port j = D.port i
      · rw [hp, setSent_sent]
      · rw [setSent_sent_of_ne _ _ _ hp]
        exact h.zero j r' hc hr' hl hf

/-- A chunk of a write does nothing. -/
theorem Sys.Inv.data_out (h : σ.Inv D) {i : ι} {r : urequest} (hcur : σ.cur i = some r)
    (hr : r.dirIn = false) (buffer n : ℕ) : ∃ σ', StepDone bus D σ (.data i buffer n) σ' := by
  have he := nu_pipe_xfer_data_idle bus (ep0 (D.inst i) (D.mps i) r.dirIn) n
    (b := some buffer) (h.attached i) (Or.inr (hr ▸ ep0_out _ _))
  refine ⟨_, ⟨by rw [Sys.step, hcur, Option.bind_some, he, Option.map_some], ?_, ?_⟩⟩
  · constructor
    · simp
    · rintro j buffer n r' hc hc' hr'
      cases hc
      exact absurd (hr'.symm.trans (Option.some_inj.mp (hc'.symm.trans hcur) ▸ hr)) (by decide)
    · exact fun _ _ => rfl
  · constructor
    · exact h.attached
    · exact h.stored
    · intro j r' hc hr' hl hf
      dsimp only at hc hl hf ⊢
      by_cases hj : j = i
      · subst hj
        rw [Function.update_self] at hf
        exact absurd hf (by decide)
      · rw [Function.update_of_ne hj] at hf
        exact h.zero j r' hc hr' hl hf

/-- A status stage does nothing. -/
theorem Sys.Inv.status (h : σ.Inv D) {i : ι} {r : urequest} (hcur : σ.cur i = some r) :
    ∃ σ', StepDone bus D σ (.status i) σ' := by
  have he := nu_pipe_xfer_data_idle bus (ep0 (D.inst i) (D.mps i) !r.dirIn) 0
    (b := none) (h.attached i) (Or.inl rfl)
  have hcur' : ∀ j r', Function.update σ.cur i none j = some r' → σ.cur j = some r' := by
    intro j r' hc
    by_cases hj : j = i
    · subst hj
      rw [Function.update_self] at hc
      cases hc
    · rwa [Function.update_of_ne hj] at hc
  refine ⟨_, ⟨by rw [Sys.step, hcur, Option.bind_some, he, Option.map_some], ?_, ?_⟩⟩
  · constructor
    · simp
    · rintro j buffer n r' hc
      cases hc
    · exact fun _ _ => rfl
  · constructor
    · exact h.attached
    · exact fun j r' hc => h.stored j r' (hcur' j r' hc)
    · exact fun j r' hc => h.zero j r' (hcur' j r' hc)

/-- A chunk of a read, while the last set-up packet of a read is of its device: if the
length is zero, it issues the device's request. -/
theorem Sys.Inv.data_in (h : σ.Inv D) {i : ι} {r : urequest} (hcur : σ.cur i = some r)
    (hr : r.dirIn = true) (hl : σ.last (D.port i) = some i) (buffer n : ℕ) :
    ∃ σ', StepDone bus D σ (.data i buffer n) σ' := by
  obtain ⟨u, hu⟩ := Option.isSome_iff_exists.mp (h.attached i).udev
  have hdir : (ep0 (D.inst i) (D.mps i) r.dirIn).ep.bEndpointAddress &&& USB_DIR_MASK = USB_DIR_IN := by
    rw [hr]
    exact ep0_in _ _
  -- of the devices on this root port only `i` has anything to keep
  have hinv : ∀ s' : State, Keeps σ.s s' → (∀ p, s'.setup p = σ.s.setup p) →
      (∀ p ≠ D.port i, s'.sent p = σ.s.sent p) →
      Sys.Inv D { σ with s := s', fresh := Function.update σ.fresh i false } := by
    intro s' hk hset hsent
    constructor
    · exact fun j => (h.attached j).keep hk
    · intro j r' hc hr' hl'
      exact (hset _).trans (h.stored j r' hc hr' hl')
    · intro j r' hc hr' hl' hf
      dsimp only at hc hl' hf ⊢
      have hj : j ≠ i := by
        rintro rfl
        rw [Function.update_self] at hf
        cases hf
      have hp : D.port j ≠ D.port i := by
        intro hp
        exact hj (Option.some_inj.mp ((hp ▸ hl').symm.trans hl))
      rw [Function.update_of_ne hj] at hf
      exact (hsent _ hp).trans (h.zero j r' hc hr' hl' hf)
  by_cases hs : σ.s.sent (D.port i) = 0
  · obtain ⟨out, hout, he⟩ := nu_pipe_xfer_data_first bus
      (ep0 (D.inst i) (D.mps i) r.dirIn) n (h.attached i) rfl hu hdir hs buffer
    have hx := hout.xfers
    rw [h.stored i r hcur hr hl] at hx
    refine ⟨_, ⟨by rw [Sys.step, hcur, Option.bind_some, he, Option.map_some], ?_, ?_⟩⟩
    · constructor
      · intro x hmem
        rw [setSent_xfers, hx, List.drop_left, List.mem_singleton] at hmem
        subst hmem
        exact ⟨hcur, by rw [Devices.address, Call.dev, hu, Option.map_some], rfl⟩
      · intro _ _ _ _ _ _ _ _
        rw [setSent_xfers, hx, List.length_append, List.length_singleton]
      · intro j hj
        rw [address_setSent, hout.address j hj]
    · refine hinv _ (hout.keeps.trans (setSent_keeps _ _ _ _)) ?_ ?_
      · intro p
        rw [setSent_setup, hout.setup]
      · intro p hp
        rw [setSent_sent_of_ne _ _ _ hp, hout.sent]
  · have he := nu_pipe_xfer_data_next bus
      (ep0 (D.inst i) (D.mps i) r.dirIn) n (h.attached i) rfl hdir hs buffer
    have hfirst : ∀ r', σ.cur i = some r' → r'.dirIn = true → σ.fresh i = true → False :=
      fun r' hc hr' hf => hs (h.zero i r' hc hr' hl hf)
    by_cases hlt : σ.s.sent (D.port i) < BitVec.ofNat 32 n
    · rw [if_pos hlt] at he
      refine ⟨_, ⟨by rw [Sys.step, hcur, Option.bind_some, he, Option.map_some], ?_, ?_⟩⟩
      · constructor
        · simp
        · rintro j b n' r' hc hc' hr' hf
          cases hc
          exact (hfirst r' hc' hr' hf).elim
        · exact fun _ _ => rfl
      · exact hinv _ (Keeps.refl _) (fun _ => rfl) fun _ _ => rfl
    · rw [if_neg hlt] at he
      refine ⟨_, ⟨by rw [Sys.step, hcur, Option.bind_some, he, Option.map_some], ?_, ?_⟩⟩
      · constructor
        · simp
        · rintro j b n' r' hc hc' hr' hf
          cases hc
          exact (hfirst r' hc' hr' hf).elim
        · intro j _
          rw [address_setSent]
      · refine hinv _ (setSent_keeps _ _ _ _) (fun p => setSent_setup _ _ _ _ _) ?_
        intro p hp
        rw [setSent_sent_of_ne _ _ _ hp]

/-- Each call of the protocol goes through and keeps the root ports. -/
theorem Sys.Inv.step (bus : Bus) (h : σ.Inv D) {c : Call ι} (hown : Own D σ c) (hreq : (c.request σ).isSome) :
    ∃ σ', StepDone bus D σ c σ' := by
  obtain ⟨r, hr⟩ := Option.isSome_iff_exists.mp hreq
  cases c with
  | setup i r =>
    cases hd : r.dirIn with
    | false => exact h.setup_out i hd
    | true => exact h.setup_in i hd
  | data i buffer n =>
    cases hd : r.dirIn with
    | false => exact h.data_out hr hd buffer n
    | true => exact h.data_in hr hd (hown r hr hd) buffer n
  | status i => exact h.status hr

/-- A call that is made is part of a request. -/
theorem Sys.request_of_step {σ' : Sys ι} {c : Call ι} (h : σ.step bus D c = some σ') :
    (c.request σ).isSome := by
  cases c with
  | setup i r => rfl
  | data i buffer n =>
    obtain ⟨r, hr, -⟩ := Option.bind_eq_some_iff.mp h
    exact Option.isSome_iff_exists.mpr ⟨r, hr⟩
  | status i =>
    obtain ⟨r, hr, -⟩ := Option.bind_eq_some_iff.mp h
    exact Option.isSome_iff_exists.mpr ⟨r, hr⟩

theorem Sys.RunBy.inv {σ₀ : Sys ι} (h₀ : σ₀.Start D) (h : Sys.RunBy bus D (Own D) σ₀ σ) : σ.Inv D := by
  induction h with
  | refl => exact h₀.inv
  | call _ hown hstep ih =>
    obtain ⟨σ₂, hdone⟩ := ih.step bus hown (Sys.request_of_step hstep)
    obtain rfl := Option.some_inj.mp (hstep.symm.trans hdone.eq)
    exact hdone.inv

/-- **Requests of different devices do not mix** in runs where each chunk of a read comes
while the last set-up packet of a read on its root port is of its own device: whatever
the other devices call in between, a call issues only its own device's request, to its
address and on its buffer, and the first chunk of a read does issue it. -/
theorem control_unmixed (bus : Bus) (D : Devices ι) {σ₀ σ : Sys ι} (h₀ : σ₀.Start D)
    (hrun : Sys.RunBy bus D (Own D) σ₀ σ) (c : Call ι) (hown : Own D σ c)
    (hreq : (c.request σ).isSome) : ∃ σ', σ.step bus D c = some σ' ∧ Unmixed D σ c σ' := by
  obtain ⟨σ', hdone⟩ := (hrun.inv h₀).step bus hown hreq
  exact ⟨σ', hdone.eq, hdone.unmixed⟩

end Steps

section TwoDevices

/-- Devices with addresses 5 and 6, on ports 1 and 2 of a hub on the root port. -/
def twoIdle : Sys Bool where
  s := {
    dev := fun
      | .asHubPortDev _ 0 => ⟨false, some ⟨1, 5, 0⟩, fun _ => none, fun _ => getDescriptor, fun _ => 0, 1, true⟩
      | .asHubPortDev _ 1 => ⟨false, some ⟨2, 6, 0⟩, fun _ => none, fun _ => getDescriptor, fun _ => 0, 2, true⟩
      | _ => ⟨true, some ⟨1, 4, 0⟩, fun _ => none, fun _ => getDescriptor, fun _ => 0, 0, true⟩
    heap := fun _ => none
    xfers := [] }
  cur := fun _ => none
  fresh := fun _ => false
  last := fun _ => none

def twoDevices : Devices Bool where
  inst := fun i => ⟨if i then 2 else 1, some 1⟩
  mps := fun _ => 8
  port := fun _ => 0
  dev := fun i => .asHubPortDev 0 (if i then 1 else 0)
  own := by decide

theorem twoIdle_start : twoIdle.Start twoDevices := by
  constructor
  · intro i
    cases i with
    | false => exact ⟨rfl, rfl, rfl⟩
    | true => exact ⟨rfl, rfl, rfl⟩
  · exact fun _ => rfl

/-- Get the configuration descriptor, 9 bytes. -/
def getConfiguration : urequest := ⟨0x80, 6, 0x0200, 0, 9⟩

/-- Both devices send a set-up packet; the second one has its chunk. -/
theorem control_unmixed_last : ∃ σ σ',
    Sys.RunBy (upTo 64) twoDevices (Own twoDevices) twoIdle σ ∧
      σ.step (upTo 64) twoDevices (.data true 0x20000000 8) = some σ' ∧
      Unmixed twoDevices σ (.data true 0x20000000 8) σ' := by
  have hone := Sys.RunBy.call (.refl : Sys.RunBy (upTo 64) twoDevices (Own twoDevices) twoIdle twoIdle)
    (c := .setup false getDescriptor) trivial rfl
  have hrun := hone.call (c := .setup true getConfiguration) trivial rfl
  obtain ⟨σ', h⟩ := control_unmixed (upTo 64) twoDevices twoIdle_start hrun
    (.data true 0x20000000 8) (fun _ _ _ => rfl) rfl
  exact ⟨_, σ', hrun, h⟩

/-- The first one has its chunk: the transfer is the second one's request. -/
theorem control_mixed : ∃ σ σ',
    Sys.RunBy (upTo 64) twoDevices (fun _ _ => True) twoIdle σ ∧
      σ.step (upTo 64) twoDevices (.data false 0x20000000 8) = some σ' ∧
      ¬ Unmixed twoDevices σ (.data false 0x20000000 8) σ' := by
  have hone := Sys.RunBy.call (.refl : Sys.RunBy (upTo 64) twoDevices (fun _ _ => True) twoIdle twoIdle)
    (c := .setup false getDescriptor) trivial rfl
  have hrun := hone.call (c := .setup true getConfiguration) trivial rfl
  refine ⟨_, _, hrun, rfl, fun h => ?_⟩
  have hreq := (h.own ⟨5, getConfiguration, some 0x20000000⟩ (by decide)).1
  exact absurd hreq (by decide)

end TwoDevices

end Usb
