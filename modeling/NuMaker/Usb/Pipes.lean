/-
The table of pipes.

An open pipe names a device, by the port it is on, and the index of its endpoint record
in the record of the device; pipes of endpoint 0 have no endpoint record, and index 0.
Device records are handed on to other ports while pipes of the old port may be open.

* `pipes_intact` — in a run where a control pipe is closed only while slot 0 of its
  device's record is empty, and a record with endpoints is not handed on, open pipes have
  their own live endpoint records, and none is left when all pipes are closed.
-/
import NuMaker.Usb.Control
import NuMaker.Lib.Handles

namespace Usb

/-! ### Runs -/

/-- The driver, and the pipes that are open. -/
structure Pipes (κ : Type) where
  s : State
  opened : κ → Option upipe

/-- Opening and closing pipes, and whatever else the driver does. -/
inductive PipeOp (κ : Type)
  | nu_open_pipe (k : κ) (pipe : upipe) (udev : Bool) (malloc : Option ℕ)
  | nu_close_pipe (k : κ)
  | other (s' : State)

variable {κ : Type}

/-- One operation; a pipe that is opened gets its index. -/
def Pipes.step [DecidableEq κ] (σ : Pipes κ) : PipeOp κ → Pipes κ
  | .nu_open_pipe k pipe udev malloc =>
    let r := nu_open_pipe σ.s pipe udev malloc
    { s := r.2.2
      opened :=
        if r.1 = RT_EOK then Function.update σ.opened k (some { pipe with pipe_index := r.2.1 })
        else σ.opened }
  | .nu_close_pipe k =>
    match σ.opened k with
    | some pipe => { s := (nu_close_pipe σ.s pipe).2, opened := Function.update σ.opened k none }
    | none => σ
  | .other s' => { σ with s := s' }

/-- Neither endpoint records nor the ports of the device records change. -/
structure Untouched (s s' : State) : Prop where
  heap : s'.heap = s.heap
  apsEPInfo : ∀ r, (s'.dev r).apsEPInfo = (s.dev r).apsEPInfo
  port_num : ∀ r, (s'.dev r).port_num = (s.dev r).port_num

/-- A pipe is opened when it is closed, into memory that is not in use, and closed when
it is open; transfers, enumeration and connection leave the table alone. -/
def Pipes.Legal (σ : Pipes κ) : PipeOp κ → Prop
  | .nu_open_pipe k _ _ malloc => σ.opened k = none ∧ ∀ a, malloc = some a → σ.s.heap a = none
  | .nu_close_pipe k => (σ.opened k).isSome
  | .other s' => Untouched σ.s s'

/-- A device record without endpoint records. -/
def State.Bare (s : State) (r : DevRef) : Prop := ∀ i, (s.dev r).apsEPInfo i = none

/-- `nu_open_pipe` takes the record `r` for the device of the pipe. -/
structure Takes (s : State) (pipe : upipe) (udev : Bool) (r : DevRef) : Prop where
  port : ∃ port, GetRHPortControlFromPipe pipe.inst = some port ∧
    (s.dev (.sRHPortDev port)).pUDev ≠ none ∧ ∃ s', AllocateNewUDev s port udev = some (r, s')
  missing : ∀ d, GetPortDevFromPipe s pipe.inst = some d → (s.dev d).pUDev = none

/-- A control pipe is closed while slot 0 of its device's record is empty; a record that
is taken is the one of the port already, or neither has endpoint records. -/
def Pipes.Safe (σ : Pipes κ) : PipeOp κ → Prop
  | .nu_open_pipe _ pipe udev _ => ∀ r, Takes σ.s pipe udev r →
      GetPortDevFromPipe σ.s pipe.inst = some r ∨
      σ.s.Bare r ∧ ∀ d, GetPortDevFromPipe σ.s pipe.inst = some d → σ.s.Bare d
  | .nu_close_pipe k => ∀ pipe d, σ.opened k = some pipe → pipe.ep.isControl = true →
      GetPortDevFromPipe σ.s pipe.inst = some d → (σ.s.dev d).apsEPInfo 0 = none
  | .other _ => True

/-- A run of operations with property `P`. -/
inductive Pipes.RunBy [DecidableEq κ] (P : Pipes κ → PipeOp κ → Prop) (σ₀ : Pipes κ) : Pipes κ → Prop
  | refl : Pipes.RunBy P σ₀ σ₀
  | step {σ : Pipes κ} {o : PipeOp κ} : Pipes.RunBy P σ₀ σ → P σ o → Pipes.RunBy P σ₀ (σ.step o)

/-- No pipe is open and no endpoint record is allocated. -/
structure Pipes.Start (σ : Pipes κ) : Prop where
  opened : ∀ k, σ.opened k = none
  bare : ∀ r, σ.s.Bare r
  heap : ∀ a, σ.s.heap a = none

/-! ### Integrity -/

/-- Where a pipe's endpoint record is kept: a device record and an index. -/
def upipe.place (s : State) (pipe : upipe) : Option (DevRef × ℕ) :=
  if pipe.ep.isControl = true then none
  else (GetPortDevFromPipe s pipe.inst).map fun r => (r, pipe.pipe_index)

/-- What is kept there. -/
def State.cell (s : State) (l : DevRef × ℕ) : Option ℕ := (s.dev l.1).apsEPInfo l.2

/-- The endpoint record a pipe refers to. -/
def Refers (s : State) (pipe : upipe) (psEPInfo : ℕ) : Prop :=
  ∃ l, pipe.place s = some l ∧ s.cell l = some psEPInfo

/-- Open pipes refer to live endpoint records, each to its own, filled as it was opened,
and without open pipes none is allocated. -/
structure Pipes.Intact (σ : Pipes κ) : Prop where
  live : ∀ k pipe, σ.opened k = some pipe → pipe.ep.isControl = false → ∃ a,
    Refers σ.s pipe a ∧ σ.s.heap a = some pipe.ep.epInfo ∧
      ∀ k' ≠ k, ∀ pipe', σ.opened k' = some pipe' → ¬ Refers σ.s pipe' a
  none_left : (∀ k, σ.opened k = none) → ∀ a, σ.s.heap a = none

/-- The open pipes other than `k` keep their endpoint records. -/
def Pipes.Spares (σ σ' : Pipes κ) (k : κ) : Prop :=
  ∀ k' ≠ k, ∀ pipe, σ.opened k' = some pipe → ∀ a, Refers σ.s pipe a →
    Refers σ'.s pipe a ∧ σ'.s.heap a = σ.s.heap a

/-! ### Finding a device again -/

theorem findHub_eq_some {p : ℕ → Bool} {i : ℕ} :
    findHub p = some i ↔ p i = true ∧ i < NU_MAX_USBH_HUB_PORT_DEV ∧ ∀ j < i, p j = false := by
  simp [findHub, List.find?_range_eq_some]

/-- Which record a pipe has depends on the ports of the records only. -/
theorem find_congr {s s' : State} (h : ∀ r, (s'.dev r).port_num = (s.dev r).port_num)
    (inst : uinstance) : GetPortDevFromPipe s' inst = GetPortDevFromPipe s inst := by
  simp only [GetPortDevFromPipe, h]

/-- A record of a device behind a hub. -/
theorem find_hub {s : State} {inst : uinstance} {r : DevRef} (hhub : inst.hubPort ≠ none) :
    GetPortDevFromPipe s inst = some r ↔ ∃ port i, GetRHPortControlFromPipe inst = some port ∧
      r = .asHubPortDev port i ∧ (s.dev (.asHubPortDev port i)).port_num = inst.port ∧
      i < NU_MAX_USBH_HUB_PORT_DEV ∧
      ∀ j < i, (s.dev (.asHubPortDev port j)).port_num ≠ inst.port := by
  cases hport : GetRHPortControlFromPipe inst with
  | none => simp [GetPortDevFromPipe, hport]
  | some port =>
    simp only [GetPortDevFromPipe, hport, Option.bind_some, hhub, if_false, Option.map_eq_some_iff,
      findHub_eq_some, decide_eq_true_eq, decide_eq_false_iff_not, Option.some_inj]
    constructor
    · rintro ⟨i, ⟨hp, hi, hj⟩, rfl⟩
      exact ⟨port, i, rfl, rfl, hp, hi, hj⟩
    · rintro ⟨_, i, rfl, rfl, hp, hi, hj⟩
      exact ⟨i, ⟨hp, hi, hj⟩, rfl⟩

/-- A port with a record is found, at that record or before it. -/
theorem find_hub_le {s : State} {inst : uinstance} {port j : ℕ}
    (hport : GetRHPortControlFromPipe inst = some port) (hhub : inst.hubPort ≠ none)
    (hj : j < NU_MAX_USBH_HUB_PORT_DEV) (h : (s.dev (.asHubPortDev port j)).port_num = inst.port) :
    ∃ i ≤ j, GetPortDevFromPipe s inst = some (.asHubPortDev port i) := by
  have hex : ∃ i, (s.dev (.asHubPortDev port i)).port_num = inst.port := ⟨j, h⟩
  have hle := Nat.find_min' hex h
  exact ⟨Nat.find hex, hle, (find_hub hhub).mpr ⟨port, _, hport, rfl, Nat.find_spec hex,
    hle.trans_lt hj, fun _ hi => Nat.find_min hex hi⟩⟩

/-! ### What opening does -/

/-- The record `nu_open_pipe` works on is that of the pipe's device, or one it takes for
it; then the ports of the other records stay. -/
structure Found (s : State) (pipe : upipe) (udev : Bool) (r : DevRef) (s' : State) : Prop where
  heap : s'.heap = s.heap
  apsEPInfo : ∀ d, (s'.dev d).apsEPInfo = (s.dev d).apsEPInfo
  find : GetPortDevFromPipe s' pipe.inst = some r
  port_num : (∀ d, (s'.dev d).port_num = (s.dev d).port_num) ∨
    Takes s pipe udev r ∧ pipe.inst.hubPort ≠ none ∧
      ∀ d, (s'.dev d).port_num = if d = r then pipe.inst.port else (s.dev d).port_num

theorem AllocateNewUDev_eq_some {s s' : State} {port : ℕ} {udev : Bool} {r : DevRef}
    (h : AllocateNewUDev s port udev = some (r, s')) : ∃ i, r = .asHubPortDev port i ∧
      i < NU_MAX_USBH_HUB_PORT_DEV ∧ (∀ j < i, (s.dev (.asHubPortDev port j)).pUDev ≠ none) ∧
      s' = s.setDev r { s.dev r with pUDev := some ⟨0, 0, -1⟩ } := by
  unfold AllocateNewUDev at h
  split at h
  case h_1 i hi =>
    obtain ⟨-, hlt, hj⟩ := findHub_eq_some.mp hi
    cases udev with
    | false => cases h
    | true =>
      obtain ⟨rfl, rfl⟩ := Prod.mk.inj (Option.some_inj.mp h)
      exact ⟨i, rfl, hlt, fun j hji => by simpa using hj j hji, rfl⟩
  case h_2 => cases h

theorem openDev_found {s s' : State} {pipe : upipe} {port : ℕ} {udev : Bool} {r : DevRef}
    (hport : GetRHPortControlFromPipe pipe.inst = some port)
    (hroot : (s.dev (.sRHPortDev port)).pUDev ≠ none)
    (h : openDev s pipe.inst port udev = some (r, s')) : Found s pipe udev r s' := by
  unfold openDev at h
  split at h
  case h_1 d hd =>
    obtain ⟨rfl, rfl⟩ := Prod.mk.inj (Option.some_inj.mp h)
    exact ⟨rfl, fun _ => rfl, (Option.filter_eq_some_iff.mp hd).1, Or.inl fun _ => rfl⟩
  case h_2 hd =>
    obtain ⟨⟨r', s₁⟩, halloc, he⟩ := Option.map_eq_some_iff.mp h
    obtain ⟨rfl, rfl⟩ := Prod.mk.inj he
    have hmissing : ∀ d, GetPortDevFromPipe s pipe.inst = some d → (s.dev d).pUDev = none := by
      intro d hf
      by_contra hu
      exact absurd hd (by simp [hf, hu])
    have hhub : pipe.inst.hubPort ≠ none := by
      intro hnone
      exact hroot (hmissing _ (by simp [GetPortDevFromPipe, hport, hnone]))
    obtain ⟨f, rfl, hlt, hbefore, rfl⟩ := AllocateNewUDev_eq_some halloc
    have hnum : ∀ d, (((s.setDev (.asHubPortDev port f) { s.dev (.asHubPortDev port f) with
          pUDev := some ⟨0, 0, -1⟩ }).setDev (.asHubPortDev port f)
          { (s.setDev (.asHubPortDev port f) { s.dev (.asHubPortDev port f) with
              pUDev := some ⟨0, 0, -1⟩ }).dev (.asHubPortDev port f) with
            pUDev := some ⟨pipe.inst.port, 0, -1⟩
            port_num := pipe.inst.port
            bEnumDone := false }).dev d).port_num =
        if d = .asHubPortDev port f then pipe.inst.port else (s.dev d).port_num := by
      intro d
      by_cases hdf : d = .asHubPortDev port f
      · subst hdf
        simp [State.setDev]
      · simp [State.setDev, hdf]
    constructor
    · rfl
    · intro d
      by_cases hdf : d = .asHubPortDev port f
      · subst hdf
        simp [State.setDev]
      · simp [State.setDev, hdf]
    · refine (find_hub hhub).mpr ⟨port, f, hport, rfl, ?_, hlt, ?_⟩
      · rw [hnum, if_pos rfl]
      · -- a record of the port before `f` has a device, so the port would have one
        intro j hj hnj
        rw [hnum, if_neg (fun h => absurd (DevRef.asHubPortDev.inj h).2 hj.ne)] at hnj
        obtain ⟨i, hij, hfind⟩ := find_hub_le hport hhub (hj.trans hlt) hnj
        exact hbefore i (hij.trans_lt hj) (hmissing _ hfind)
    · exact Or.inr ⟨⟨⟨port, hport, hroot, _, halloc⟩, hmissing⟩, hhub, hnum⟩

/-- What `nu_open_pipe` does: nothing, or it has found the device's record, and gives a
control pipe index 0, another pipe an empty slot with a new endpoint record, or it has no
slot or no memory. -/
inductive OpenDone (s : State) (pipe : upipe) (udev : Bool) (malloc : Option ℕ) : ℤ × ℕ × State → Prop
  | refused : OpenDone s pipe udev malloc (-RT_ERROR, pipe.pipe_index, s)
  | full {r : DevRef} {s₁ : State} (hf : Found s pipe udev r s₁) :
    OpenDone s pipe udev malloc (-RT_ERROR, pipe.pipe_index, s₁)
  | control {r : DevRef} {s₁ : State} (hf : Found s pipe udev r s₁) (hc : pipe.ep.isControl = true) :
    OpenDone s pipe udev malloc (RT_EOK, 0, s₁)
  | opened {r : DevRef} {s₁ s₂ : State} {i a : ℕ} (hf : Found s pipe udev r s₁)
    (hc : pipe.ep.isControl = false) (hi : i < NU_MAX_USBH_PIPE) (hslot : s₁.cell (r, i) = none)
    (ha : malloc = some a) (hheap : s₂.heap = Function.update s₁.heap a (some pipe.ep.epInfo))
    (hcell : s₂.cell = Function.update s₁.cell (r, i) (some a))
    (hnum : ∀ d, (s₂.dev d).port_num = (s₁.dev d).port_num) :
    OpenDone s pipe udev malloc (RT_EOK, i, s₂)

/-- Writing one slot of a record. -/
theorem cell_setDev (s : State) (r : DevRef) (i : ℕ) (v : Option ℕ) :
    (s.setDev r { s.dev r with apsEPInfo := Function.update (s.dev r).apsEPInfo i v }).cell =
      Function.update s.cell (r, i) v := by
  funext ⟨d, j⟩
  by_cases hd : d = r
  · subst hd
    by_cases hj : j = i
    · subst hj
      simp [State.cell, State.setDev]
    · simp [State.cell, State.setDev, hj]
  · simp [State.cell, State.setDev, hd]

theorem GetFreePipe_eq_some {s s' : State} {r : DevRef} {malloc : Option ℕ} {i a : ℕ}
    (h : GetFreePipe s r malloc = some (i, a, s')) : i < NU_MAX_USBH_PIPE ∧ s.cell (r, i) = none ∧
      malloc = some a ∧
      s' = s.setDev r { s.dev r with apsEPInfo := Function.update (s.dev r).apsEPInfo i (some a) } := by
  unfold GetFreePipe at h
  dsimp only at h
  split at h
  case h_1 i' a' hfind =>
    obtain ⟨rfl, hrest⟩ := Prod.mk.inj (Option.some_inj.mp h)
    obtain ⟨rfl, rfl⟩ := Prod.mk.inj hrest
    obtain ⟨hp, hmem, -⟩ := List.find?_range_eq_some.mp hfind
    exact ⟨List.mem_range.mp hmem, of_decide_eq_true hp, rfl, rfl⟩
  case h_2 => cases h

theorem nu_open_pipe_done (s : State) (pipe : upipe) (udev : Bool) (malloc : Option ℕ) :
    OpenDone s pipe udev malloc (nu_open_pipe s pipe udev malloc) := by
  unfold nu_open_pipe
  split
  case h_1 => exact .refused
  case h_2 port hport =>
    by_cases hroot : (s.dev (.sRHPortDev port)).pUDev = none
    · simp only [hroot, if_true]
      exact .refused
    · simp only [hroot, if_false]
      split
      case h_1 => exact .refused
      case h_2 r s₁ hopen =>
        have hf := openDev_found hport hroot hopen
        by_cases hc : pipe.ep.isControl = true
        · simp only [hc, if_true]
          exact .control hf hc
        · simp only [hc, Bool.false_eq_true, if_false]
          have hc' : pipe.ep.isControl = false := by simpa using hc
          cases hfree : GetFreePipe s₁ r malloc with
          | none => exact .full hf
          | some p =>
            obtain ⟨i, a, s₂⟩ := p
            obtain ⟨hi, hslot, ha, rfl⟩ := GetFreePipe_eq_some hfree
            refine .opened hf hc' hi hslot ha rfl (cell_setDev s₁ r i (some a)) fun d => ?_
            by_cases hd : d = r
            · subst hd
              simp [State.setDev]
            · simp [State.setDev, hd]

/-- A pipe with an endpoint record keeps its device record when a record is found for
another pipe, as long as none with endpoint records is handed on. -/
theorem Found.find_of_cell {s s₁ : State} {pipe : upipe} {udev : Bool} {r : DevRef}
    (hf : Found s pipe udev r s₁)
    (hsafe : Takes s pipe udev r → GetPortDevFromPipe s pipe.inst = some r ∨
      s.Bare r ∧ ∀ d, GetPortDevFromPipe s pipe.inst = some d → s.Bare d)
    {inst : uinstance} {d : DevRef} {i a : ℕ} (hd : GetPortDevFromPipe s inst = some d)
    (hcell : s.cell (d, i) = some a) : GetPortDevFromPipe s₁ inst = some d := by
  rcases hf.port_num with hsame | ⟨htake, hhub, hnum⟩
  · rw [find_congr hsame, hd]
  · rcases hsafe htake with hown | ⟨hbare, hport⟩
    · -- the record taken is the one of the port already
      obtain ⟨-, f, -, -, hr, -⟩ := (find_hub hhub).mp hown
      rw [find_congr, hd]
      intro e
      rw [hnum]
      by_cases he : e = r
      · subst he
        obtain ⟨_, _, _, rfl, hr, -⟩ := (find_hub hhub).mp hown
        rw [if_pos rfl, hr]
      · rw [if_neg he]
    · have hdr : d ≠ r := by
        rintro rfl
        exact absurd ((hbare i).symm.trans hcell) (by simp)
      by_cases hnone : inst.hubPort = none
      · rw [← hd]
        simp [GetPortDevFromPipe, hnone]
      · obtain ⟨port', i', hrh, rfl, hp, hlt, hj⟩ := (find_hub hnone).mp hd
        refine (find_hub hnone).mpr ⟨port', i', hrh, rfl, ?_, hlt, ?_⟩
        · rw [hnum, if_neg hdr, hp]
        · intro j hji
          rw [hnum]
          by_cases hjr : DevRef.asHubPortDev port' j = r
          · rw [if_pos hjr]
            intro hpp
            -- the pipe that is opened would have the record `d`
            obtain ⟨⟨port, hrh', -, _, halloc⟩, -⟩ := htake
            obtain ⟨f, hr, -⟩ := AllocateNewUDev_eq_some halloc
            obtain ⟨rfl, -⟩ := DevRef.asHubPortDev.inj (hjr.trans hr)
            have hsame : GetPortDevFromPipe s pipe.inst = some (.asHubPortDev port' i') :=
              (find_hub hhub).mpr ⟨port', i', hrh', rfl, hp.trans hpp.symm, hlt, hpp ▸ hj⟩
            exact absurd ((hport _ hsame i).symm.trans hcell) (by simp)
          · rw [if_neg hjr]
            exact hj j hji

/-! ### The invariant -/

/-- Where the endpoint records of the open pipes are. -/
def Pipes.place (σ : Pipes κ) (k : κ) : Option (DevRef × ℕ) := (σ.opened k).bind (·.place σ.s)

/-- What the endpoint records of the open pipes hold. -/
def Pipes.info (σ : Pipes κ) (k : κ) : Option EP_INFO_T := (σ.opened k).map (·.ep.epInfo)

/-- The open pipes own the endpoint records. -/
structure Pipes.Inv (σ : Pipes κ) : Prop where
  handles : Handles σ.place σ.s.cell σ.s.heap σ.info
  placed : ∀ k pipe, σ.opened k = some pipe → pipe.ep.isControl = false → (pipe.place σ.s).isSome
  index : ∀ k pipe, σ.opened k = some pipe → pipe.ep.isControl = false →
    pipe.pipe_index < NU_MAX_USBH_PIPE
  control : ∀ k pipe, σ.opened k = some pipe → pipe.ep.isControl = true → pipe.pipe_index = 0

theorem upipe.place_control {s : State} {pipe : upipe} (h : pipe.ep.isControl = true) :
    pipe.place s = none := by
  rw [upipe.place, if_pos h]

theorem upipe.place_eq {s : State} {pipe : upipe} (h : pipe.ep.isControl = false) :
    pipe.place s = (GetPortDevFromPipe s pipe.inst).map fun r => (r, pipe.pipe_index) := by
  rw [upipe.place, if_neg (by simp [h])]

theorem place_congr {s s' : State} (h : ∀ r, (s'.dev r).port_num = (s.dev r).port_num) (pipe : upipe) :
    pipe.place s' = pipe.place s := by
  simp only [upipe.place, find_congr h]

theorem Pipes.Start.inv {σ : Pipes κ} (h : σ.Start) : σ.Inv := by
  constructor
  · exact Handles.init (fun k => by rw [Pipes.place, h.opened]; rfl) (fun l => h.bare l.1 l.2) h.heap
  · exact fun k pipe hk => absurd ((h.opened k).symm.trans hk) (by simp)
  · exact fun k pipe hk => absurd ((h.opened k).symm.trans hk) (by simp)
  · exact fun k pipe hk => absurd ((h.opened k).symm.trans hk) (by simp)

/-- What the pipes own depends on the places and the records only. -/
theorem Pipes.Inv.congr {s s' : State} {opened : κ → Option upipe} (h : Pipes.Inv ⟨s, opened⟩)
    (hheap : s'.heap = s.heap) (hcell : s'.cell = s.cell)
    (hplace : ∀ k pipe, opened k = some pipe → pipe.place s' = pipe.place s) :
    Pipes.Inv ⟨s', opened⟩ := by
  have hp : ∀ k, Pipes.place ⟨s', opened⟩ k = Pipes.place ⟨s, opened⟩ k := by
    intro k
    cases hk : opened k with
    | none => simp [Pipes.place, hk]
    | some pipe => simp [Pipes.place, hk, hplace k pipe hk]
  constructor
  · show Handles _ s'.cell s'.heap _
    rw [hheap, hcell]
    exact h.handles.congr hp fun _ _ => rfl
  · intro k pipe hk hc
    rw [show pipe.place s' = _ from hplace k pipe hk]
    exact h.placed k pipe hk hc
  · exact h.index
  · exact h.control

theorem Pipes.Inv.untouched {s s' : State} {opened : κ → Option upipe} (h : Pipes.Inv ⟨s, opened⟩)
    (hu : Untouched s s') : Pipes.Inv ⟨s', opened⟩ :=
  h.congr hu.heap (funext fun l => congrFun (hu.apsEPInfo l.1) l.2) fun _ pipe _ =>
    place_congr hu.port_num pipe

/-- Finding a record for a pipe leaves the endpoint records of the open pipes theirs. -/
theorem Pipes.Inv.found {s s₁ : State} {opened : κ → Option upipe} {pipe : upipe} {udev : Bool}
    {r : DevRef} (h : Pipes.Inv ⟨s, opened⟩) (hf : Found s pipe udev r s₁)
    (hsafe : Takes s pipe udev r → GetPortDevFromPipe s pipe.inst = some r ∨
      s.Bare r ∧ ∀ d, GetPortDevFromPipe s pipe.inst = some d → s.Bare d) :
    Pipes.Inv ⟨s₁, opened⟩ := by
  refine h.congr hf.heap (funext fun l => congrFun (hf.apsEPInfo l.1) l.2) fun k p hk => ?_
  by_cases hc : p.ep.isControl = true
  · rw [upipe.place_control hc, upipe.place_control hc]
  · have hc' : p.ep.isControl = false := by simpa using hc
    obtain ⟨l, hl⟩ := Option.isSome_iff_exists.mp (h.placed k p hk hc')
    obtain ⟨a, v, ha, -⟩ := h.handles.filled k l (by simpa [Pipes.place, hk] using hl)
    rw [hl]
    rw [upipe.place_eq hc'] at hl ⊢
    obtain ⟨d, hd, rfl⟩ := Option.map_eq_some_iff.mp hl
    rw [hf.find_of_cell hsafe hd ha, Option.map_some]

section Steps

variable [DecidableEq κ]

/-- Opening or closing a control pipe changes no place. -/
theorem Pipes.Inv.set_control {s : State} {opened : κ → Option upipe} (h : Pipes.Inv ⟨s, opened⟩) (k : κ)
    {o : Option upipe} (hk : ∀ p, opened k = some p → p.ep.isControl = true)
    (ho : ∀ p, o = some p → p.ep.isControl = true) (h0 : ∀ p, o = some p → p.pipe_index = 0) :
    Pipes.Inv ⟨s, Function.update opened k o⟩ := by
  have hnone : ∀ o : Option upipe, (∀ p, o = some p → p.ep.isControl = true) →
      o.bind (·.place s) = none := by
    rintro (_ | p) hc
    · rfl
    · exact upipe.place_control (hc p rfl)
  have hkeep : ∀ j p, Function.update opened k o j = some p → p.ep.isControl = false →
      opened j = some p := by
    intro j p hj hc
    by_cases hjk : j = k
    · subst hjk
      rw [Function.update_self] at hj
      exact absurd (ho p hj) (by simp [hc])
    · rwa [Function.update_of_ne hjk] at hj
  constructor
  · refine h.handles.congr (fun j => ?_) fun j hj => ?_
    · by_cases hjk : j = k
      · subst hjk
        simp only [Pipes.place, Function.update_self, hnone _ ho, hnone _ hk]
      · simp only [Pipes.place, Function.update_of_ne hjk]
    · have hjk : j ≠ k := by
        rintro rfl
        rw [Pipes.place, hnone _ hk] at hj
        cases hj
      simp only [Pipes.info, Function.update_of_ne hjk]
  · exact fun j p hj hc => h.placed j p (hkeep j p hj hc) hc
  · exact fun j p hj hc => h.index j p (hkeep j p hj hc) hc
  · intro j p hj hc
    dsimp only at hj
    by_cases hjk : j = k
    · subst hjk
      rw [Function.update_self] at hj
      exact h0 p hj
    · rw [Function.update_of_ne hjk] at hj
      exact h.control j p hj hc

/-- A new pipe owns the slot and the memory it was given. -/
theorem Pipes.Inv.opens {s₁ s₂ : State} {opened : κ → Option upipe} (h : Pipes.Inv ⟨s₁, opened⟩)
    {k : κ} {pipe : upipe} {r : DevRef} {i a : ℕ} (hk : opened k = none)
    (hc : pipe.ep.isControl = false) (hfind : GetPortDevFromPipe s₁ pipe.inst = some r)
    (hi : i < NU_MAX_USBH_PIPE) (hslot : s₁.cell (r, i) = none) (ha : s₁.heap a = none)
    (hheap : s₂.heap = Function.update s₁.heap a (some pipe.ep.epInfo))
    (hcell : s₂.cell = Function.update s₁.cell (r, i) (some a))
    (hnum : ∀ d, (s₂.dev d).port_num = (s₁.dev d).port_num) :
    Pipes.Inv ⟨s₂, Function.update opened k (some { pipe with pipe_index := i })⟩ := by
  have hself : upipe.place s₂ { pipe with pipe_index := i } = some (r, i) := by
    simp only [upipe.place, hc, Bool.false_eq_true, if_false, find_congr hnum, hfind, Option.map_some]
  have hplace : Pipes.place ⟨s₂, Function.update opened k (some { pipe with pipe_index := i })⟩ =
      Function.update (Pipes.place ⟨s₁, opened⟩) k (some (r, i)) := by
    funext j
    by_cases hjk : j = k
    · subst hjk
      simp only [Pipes.place, Function.update_self, Option.bind_some, hself]
    · simp only [Pipes.place, Function.update_of_ne hjk, place_congr hnum]
  have hinfo : Pipes.info ⟨s₂, Function.update opened k (some { pipe with pipe_index := i })⟩ =
      Function.update (Pipes.info ⟨s₁, opened⟩) k (some pipe.ep.epInfo) := by
    funext j
    by_cases hjk : j = k
    · subst hjk
      simp only [Pipes.info, Function.update_self, Option.map_some]
    · simp only [Pipes.info, Function.update_of_ne hjk]
  constructor
  · rw [hplace, hinfo]
    show Handles _ s₂.cell s₂.heap _
    rw [hheap, hcell]
    exact h.handles.alloc _ (by simp only [Pipes.place, hk, Option.bind_none]) hslot ha
  · intro j p hj hpc
    dsimp only at hj ⊢
    by_cases hjk : j = k
    · subst hjk
      rw [Function.update_self, Option.some_inj] at hj
      rw [← hj, hself]
      rfl
    · rw [Function.update_of_ne hjk] at hj
      rw [show p.place s₂ = _ from place_congr hnum p]
      exact h.placed j p hj hpc
  · intro j p hj hpc
    dsimp only at hj ⊢
    by_cases hjk : j = k
    · subst hjk
      rw [Function.update_self, Option.some_inj] at hj
      rw [← hj]
      exact hi
    · rw [Function.update_of_ne hjk] at hj
      exact h.index j p hj hpc
  · intro j p hj hpc
    dsimp only at hj ⊢
    by_cases hjk : j = k
    · subst hjk
      rw [Function.update_self, Option.some_inj] at hj
      exact absurd hpc (by rw [← hj, hc]; decide)
    · rw [Function.update_of_ne hjk] at hj
      exact h.control j p hj hpc

/-- A pipe that closes gives up its slot and its memory. -/
theorem Pipes.Inv.closes {s s' : State} {opened : κ → Option upipe} (h : Pipes.Inv ⟨s, opened⟩)
    {k : κ} {pipe : upipe} {l : DevRef × ℕ} {a : ℕ} (hk : opened k = some pipe)
    (hl : pipe.place s = some l) (ha : s.cell l = some a)
    (hheap : s'.heap = Function.update s.heap a none)
    (hcell : s'.cell = Function.update s.cell l none)
    (hnum : ∀ d, (s'.dev d).port_num = (s.dev d).port_num) :
    Pipes.Inv ⟨s', Function.update opened k none⟩ := by
  have hplace : Pipes.place ⟨s', Function.update opened k none⟩ =
      Function.update (Pipes.place ⟨s, opened⟩) k none := by
    funext j
    by_cases hjk : j = k
    · subst hjk
      simp only [Pipes.place, Function.update_self, Option.bind_none]
    · simp only [Pipes.place, Function.update_of_ne hjk, place_congr hnum]
  have hkeep : ∀ j p, Function.update opened k none j = some p → j ≠ k ∧ opened j = some p := by
    intro j p hj
    have hjk : j ≠ k := by
      rintro rfl
      rw [Function.update_self] at hj
      cases hj
    rw [Function.update_of_ne hjk] at hj
    exact ⟨hjk, hj⟩
  constructor
  · have hfree := h.handles.free (k := k) (l := l) (by simpa only [Pipes.place, hk, Option.bind_some] using hl) ha
    rw [← hplace] at hfree
    show Handles _ s'.cell s'.heap _
    rw [hheap, hcell]
    refine hfree.congr (fun _ => rfl) fun j hj => ?_
    have hjk : j ≠ k := by
      rintro rfl
      rw [hplace, Function.update_self] at hj
      cases hj
    simp only [Pipes.info, Function.update_of_ne hjk]
  · intro j p hj hpc
    dsimp only at hj ⊢
    rw [show p.place s' = _ from place_congr hnum p]
    exact h.placed j p (hkeep j p hj).2 hpc
  · exact fun j p hj hpc => h.index j p (hkeep j p hj).2 hpc
  · exact fun j p hj hpc => h.control j p (hkeep j p hj).2 hpc

/-- What `nu_close_pipe` does to a pipe with an endpoint record. -/
theorem nu_close_pipe_frees {s : State} {pipe : upipe} {l : DevRef × ℕ} {a : ℕ}
    (hc : pipe.ep.isControl = false) (hi : pipe.pipe_index < NU_MAX_USBH_PIPE)
    (hl : pipe.place s = some l) (ha : s.cell l = some a) :
    (nu_close_pipe s pipe).2.heap = Function.update s.heap a none ∧
      (nu_close_pipe s pipe).2.cell = Function.update s.cell l none ∧
      ∀ d, ((nu_close_pipe s pipe).2.dev d).port_num = (s.dev d).port_num := by
  rw [upipe.place_eq hc] at hl
  obtain ⟨r, hr, rfl⟩ := Option.map_eq_some_iff.mp hl
  have hport : (GetRHPortControlFromPipe pipe.inst).isSome := by
    by_contra hnone
    rw [Bool.not_eq_true, Option.isSome_eq_false_iff, Option.isNone_iff_eq_none] at hnone
    simp [GetPortDevFromPipe, hnone] at hr
  obtain ⟨port, hport⟩ := Option.isSome_iff_exists.mp hport
  have ha' : (s.dev r).apsEPInfo pipe.pipe_index = some a := ha
  have hclose : (nu_close_pipe s pipe).2 =
      { s.setDev r { s.dev r with
          apsEPInfo := Function.update (s.dev r).apsEPInfo pipe.pipe_index none } with
        heap := Function.update s.heap a none } := by
    simp [nu_close_pipe, hport, hr, hc, FreePipe, ha', hi]
  rw [hclose]
  refine ⟨rfl, cell_setDev s r pipe.pipe_index none, fun d => ?_⟩
  by_cases hd : d = r
  · subst hd
    simp [State.setDev]
  · simp [State.setDev, hd]

/-- And to a control pipe, while slot 0 of its device's record is empty. -/
theorem nu_close_pipe_untouched {s : State} {pipe : upipe} (hi : pipe.pipe_index = 0)
    (h0 : ∀ d, GetPortDevFromPipe s pipe.inst = some d → (s.dev d).apsEPInfo 0 = none) :
    Untouched s (nu_close_pipe s pipe).2 := by
  unfold nu_close_pipe
  split
  case h_1 => exact ⟨rfl, fun _ => rfl, fun _ => rfl⟩
  case h_2 =>
    split
    case h_1 => exact ⟨rfl, fun _ => rfl, fun _ => rfl⟩
    case h_2 r hr =>
      have hfree : ∀ s' : State, (s'.dev r).apsEPInfo 0 = none → FreePipe s' r 0 = s' := by
        intro s' h
        simp [FreePipe, h]
      dsimp only
      rw [hi]
      by_cases hgone : pipe.ep.isControl = true ∧ (s.dev r).bRHParent = false ∧ (s.dev r).bEnumDone = true
      · rw [if_pos hgone, hfree _ (by simpa [State.setDev] using h0 r hr)]
        constructor
        · rfl
        · intro d
          by_cases hd : d = r
          · subst hd
            simp [State.setDev]
          · simp [State.setDev, hd]
        · intro d
          by_cases hd : d = r
          · subst hd
            simp [State.setDev]
          · simp [State.setDev, hd]
      · rw [if_neg hgone, hfree s (h0 r hr)]
        exact ⟨rfl, fun _ => rfl, fun _ => rfl⟩

/-- One operation keeps the invariant. -/
theorem Pipes.Inv.step {σ : Pipes κ} (h : σ.Inv) {op : PipeOp κ} (hl : σ.Legal op) (hs : σ.Safe op) :
    (σ.step op).Inv := by
  obtain ⟨s, opened⟩ := σ
  cases op with
  | nu_open_pipe k pipe udev malloc =>
    obtain ⟨hk, hmalloc⟩ := hl
    have hdone := nu_open_pipe_done s pipe udev malloc
    unfold Pipes.step
    dsimp only at hk hmalloc ⊢
    generalize nu_open_pipe s pipe udev malloc = out at hdone ⊢
    cases hdone with
    | refused => exact h
    | full hf => exact h.found hf (hs _)
    | control hf hc =>
      rw [if_pos rfl]
      exact (h.found hf (hs _)).set_control k (fun p hp => absurd (hk.symm.trans hp) (by simp))
        (fun p hp => Option.some_inj.mp hp ▸ hc) fun p hp => Option.some_inj.mp hp ▸ rfl
    | opened hf hc hi hslot ha hheap hcell hnum =>
      rw [if_pos rfl]
      exact (h.found hf (hs _)).opens hk hc hf.find hi hslot (by rw [hf.heap]; exact hmalloc _ ha)
        hheap hcell hnum
  | nu_close_pipe k =>
    obtain ⟨pipe, hk⟩ := Option.isSome_iff_exists.mp hl
    dsimp only at hk
    simp only [Pipes.step, hk]
    by_cases hc : pipe.ep.isControl = true
    · have hu := nu_close_pipe_untouched (h.control k pipe hk hc) fun d hd => hs pipe d hk hc hd
      exact (h.untouched hu).set_control k (fun p hp => Option.some_inj.mp (hk.symm.trans hp) ▸ hc)
        (fun p hp => nomatch hp) fun p hp => nomatch hp
    · have hc' : pipe.ep.isControl = false := by simpa using hc
      obtain ⟨l, hpl⟩ := Option.isSome_iff_exists.mp (h.placed k pipe hk hc')
      obtain ⟨a, v, ha, -⟩ := h.handles.filled k l
        (by simpa only [Pipes.place, hk, Option.bind_some] using hpl)
      obtain ⟨hheap, hcell, hnum⟩ := nu_close_pipe_frees hc' (h.index k pipe hk hc') hpl ha
      exact h.closes hk hpl ha hheap hcell hnum
  | other s' => exact h.untouched hl

theorem Pipes.RunBy.inv {σ₀ σ : Pipes κ} (h₀ : σ₀.Start)
    (h : Pipes.RunBy (fun σ op => σ.Legal op ∧ σ.Safe op) σ₀ σ) : σ.Inv := by
  induction h with
  | refl => exact h₀.inv
  | step _ hop ih => exact ih.step hop.1 hop.2

end Steps

theorem Refers.place {σ : Pipes κ} {k : κ} {pipe : upipe} (hk : σ.opened k = some pipe)
    {l : DevRef × ℕ} (hl : pipe.place σ.s = some l) : σ.place k = some l := by
  rw [Pipes.place, hk]
  exact hl

/-- Pipes that own their endpoint records are intact. -/
theorem Pipes.Inv.intact {σ : Pipes κ} (h : σ.Inv) : σ.Intact := by
  constructor
  · intro k pipe hk hc
    obtain ⟨l, hl⟩ := Option.isSome_iff_exists.mp (h.placed k pipe hk hc)
    obtain ⟨a, v, ha, hv, hinfo⟩ := h.handles.filled k l (Refers.place hk hl)
    rw [Pipes.info, hk, Option.map_some, Option.some_inj] at hinfo
    refine ⟨a, ⟨l, hl, ha⟩, hv.trans (by rw [hinfo]), ?_⟩
    rintro k' hne pipe' hk' ⟨l', hl', ha'⟩
    exact h.handles.alone hne (Refers.place hk hl) (Refers.place hk' hl') ha ha'
  · intro hnone
    exact h.handles.none_left fun k => by rw [Pipes.place, hnone k]; rfl

/-- Closing one pipe spares the others. -/
theorem Pipes.Inv.spares {σ : Pipes κ} [DecidableEq κ] (h : σ.Inv) {k : κ}
    (hl : σ.Legal (.nu_close_pipe k)) (hs : σ.Safe (.nu_close_pipe k)) :
    σ.Spares (σ.step (.nu_close_pipe k)) k := by
  obtain ⟨pipe, hk⟩ := Option.isSome_iff_exists.mp hl
  rintro k' hne pipe' hk' a ⟨l', hl', ha'⟩
  simp only [Pipes.step, hk]
  by_cases hc : pipe.ep.isControl = true
  · have hu := nu_close_pipe_untouched (h.control k pipe hk hc) fun d hd => hs pipe d hk hc hd
    refine ⟨⟨l', (place_congr hu.port_num pipe').trans hl', ?_⟩, congrFun hu.heap a⟩
    rw [State.cell, hu.apsEPInfo]
    exact ha'
  · have hc' : pipe.ep.isControl = false := by simpa using hc
    obtain ⟨l, hpl⟩ := Option.isSome_iff_exists.mp (h.placed k pipe hk hc')
    obtain ⟨b, v, hb, -⟩ := h.handles.filled k l (Refers.place hk hpl)
    obtain ⟨hheap, hcell, hnum⟩ := nu_close_pipe_frees hc' (h.index k pipe hk hc') hpl hb
    have hll : l' ≠ l := by
      rintro rfl
      exact hne (h.handles.place_inj k' k l' (Refers.place hk' hl') (Refers.place hk hpl))
    have hab : a ≠ b := by
      rintro rfl
      exact hll (h.handles.cell_inj l' l a ha' hb)
    refine ⟨⟨l', (place_congr hnum pipe').trans hl', ?_⟩, ?_⟩
    · rw [hcell, Function.update_of_ne hll]
      exact ha'
    · rw [hheap, Function.update_of_ne hab]

/-- **The table of pipes keeps its integrity** in every run of opening and closing where a
control pipe is closed only while slot 0 of its device's record is empty, and no device
record with endpoint records is handed on: the open pipes are intact in every state, and
closing one spares the others. -/
theorem pipes_intact [DecidableEq κ] {σ₀ σ : Pipes κ} (h₀ : σ₀.Start)
    (h : Pipes.RunBy (fun σ op => σ.Legal op ∧ σ.Safe op) σ₀ σ) :
    σ.Intact ∧ ∀ k, σ.Legal (.nu_close_pipe k) → σ.Safe (.nu_close_pipe k) →
      σ.Spares (σ.step (.nu_close_pipe k)) k :=
  ⟨(h.inv h₀).intact, fun _ hl hs => (h.inv h₀).spares hl hs⟩

section RootPort

/-- The device on the root port, and no pipes. -/
def noPipes : Pipes ℕ := ⟨onRootPort, fun _ => none⟩

/-- The pipe of endpoint 0 of the device on the root port. -/
def controlPipe : upipe := ep0 ⟨1, none⟩ 64 false

/-- A bulk pipe of the device. -/
def bulkPipe : upipe := ⟨⟨1, none⟩, ⟨0x81, 2, 64, 0⟩, 0⟩

theorem noPipes_start : noPipes.Start := by
  constructor
  · exact fun _ => rfl
  · rintro (port | ⟨port, i⟩) j
    · rfl
    · rfl
  · exact fun _ => rfl

/-- A control pipe and two bulk pipes are opened, and the first of these is closed. -/
theorem pipes_intact_three : ∃ σ : Pipes ℕ,
    Pipes.RunBy (fun σ op => σ.Legal op ∧ σ.Safe op) noPipes σ ∧ σ.opened 0 = some controlPipe ∧
      σ.opened 2 = some { bulkPipe with pipe_index := 1 } ∧ σ.Intact := by
  have h₁ := (Pipes.RunBy.refl : Pipes.RunBy (fun σ op => σ.Legal op ∧ σ.Safe op) noPipes noPipes).step
    (o := .nu_open_pipe 0 controlPipe true none)
    ⟨⟨rfl, fun _ h => nomatch h⟩, fun _ hT => absurd (hT.missing _ rfl) (by decide)⟩
  have h₂ := h₁.step (o := .nu_open_pipe 1 bulkPipe true (some 7))
    ⟨⟨rfl, fun _ _ => rfl⟩, fun _ hT => absurd (hT.missing _ rfl) (by decide)⟩
  have h₃ := h₂.step (o := .nu_open_pipe 2 bulkPipe true (some 8))
    ⟨⟨rfl, fun a h => by obtain rfl := Option.some_inj.mp h; decide⟩,
      fun _ hT => absurd (hT.missing _ rfl) (by decide)⟩
  have h₄ := h₃.step (o := .nu_close_pipe 1)
    ⟨rfl, fun p _ hp hc => absurd hc (by obtain rfl := Option.some_inj.mp hp; decide)⟩
  exact ⟨_, h₄, rfl, rfl, (pipes_intact noPipes_start h₄).1⟩

/-- The control pipe is closed while the bulk pipe is open: it frees the record of the
bulk pipe, in slot 0. -/
theorem pipes_freed : ∃ σ : Pipes ℕ,
    Pipes.RunBy (fun σ op => σ.Legal op) noPipes σ ∧ ¬ σ.Intact := by
  have h₁ := (Pipes.RunBy.refl : Pipes.RunBy (fun σ op => σ.Legal op) noPipes noPipes).step
    (o := .nu_open_pipe 0 controlPipe true none) ⟨rfl, fun _ h => nomatch h⟩
  have h₂ := h₁.step (o := .nu_open_pipe 1 bulkPipe true (some 7)) ⟨rfl, fun _ _ => rfl⟩
  have h₃ := h₂.step (o := .nu_close_pipe 0) rfl
  refine ⟨_, h₃, fun h => ?_⟩
  obtain ⟨a, ⟨l, hl, ha⟩, -⟩ := h.live 1 bulkPipe rfl rfl
  obtain rfl : (.sRHPortDev 0, 0) = l := Option.some_inj.mp hl
  cases (show none = some a from ha)

end RootPort

end Usb
