/-
Control requests, one after the other.

The USB stack sends a control request as a set-up packet, data chunks of at most the
packet size, and a status stage.  `nu_pipe_xfer` runs the whole transfer of a read at the
first chunk, into the chunk's buffer, and answers the later chunks from a running length;
of a write it runs all at the set-up packet, without a buffer.

* `controlRequest_right_iff` — one transfer, inside the caller's buffer and with the
  length that was delivered, exactly for a read of which the device delivers all or
  nothing, and a write without data.
-/
import NuMaker.Usb.Host

namespace Usb

/-! ### The stack -/

/-- The pipes of endpoint 0, with packets of `mps` bytes. -/
def ep0 (inst : uinstance) (mps : BitVec 16) (dirIn : Bool) : upipe :=
  ⟨inst, ⟨if dirIn then USB_DIR_IN else 0, USB_EP_ATTR_CONTROL, mps, 0⟩, 0⟩

/-- The loop of `rt_usb_hcd_pipe_xfer`: whether it goes through, the state, and the bytes
of the calls that reported success. -/
def pipeLoop (bus : Bus) (pipe : upipe) : ℕ → State → Option ℕ → ℕ → ℕ → Option (Bool × State × ℕ)
  | 0, _, _, _, _ => none
  | fuel + 1, s, pbuffer, remain_size, reported =>
    let mps := pipe.ep.wMaxPacketSize.toNat
    let send_size := if remain_size > mps then mps else remain_size
    (nu_pipe_xfer bus s pipe (.DATA pbuffer) send_size).bind fun (ret, s) =>
      if ret = send_size then
        if remain_size - send_size > 0 then
          pipeLoop bus pipe fuel s (pbuffer.map (· + send_size)) (remain_size - send_size)
            (reported + send_size)
        else some (true, s, reported + send_size)
      else some (false, s, reported)

/-- `rt_usb_hcd_pipe_xfer`. -/
def rt_usb_hcd_pipe_xfer (bus : Bus) (s : State) (pipe : upipe) (buffer : Option ℕ) (nbytes : ℕ) :
    Option (Bool × State × ℕ) :=
  pipeLoop bus pipe (nbytes + 1) s buffer nbytes 0

/-- A control request of the stack: the state and the bytes reported by the data stage.
It stops at the first stage that fails. -/
def controlRequest (bus : Bus) (s : State) (inst : uinstance) (mps : BitVec 16) (r : urequest)
    (buffer : ℕ) : Option (State × ℕ) :=
  (nu_pipe_xfer bus s (ep0 inst mps false) (.SETUP r) 8).bind fun (ret, s) =>
    if ret = 8 then
      let data :=
        if r.wLength.toNat > 0 then
          rt_usb_hcd_pipe_xfer bus s (ep0 inst mps r.dirIn) (some buffer) r.wLength.toNat
        else some (true, s, 0)
      data.bind fun (ok, s, reported) =>
        if ok then
          (rt_usb_hcd_pipe_xfer bus s (ep0 inst mps !r.dirIn) none 0).map fun (_, s, _) => (s, reported)
        else some (s, reported)
    else some (s, 0)

/-! ### What is right about a request -/

/-- The transfers issued since `s₀`, with their numbers. -/
def issued (s₀ s : State) : List (Xfer × ℕ) :=
  (s.xfers.drop s₀.xfers.length).zipIdx s₀.xfers.length

/-- The bytes a transfer moved. -/
def Bus.moved (bus : Bus) (x : Xfer × ℕ) : ℕ := (bus.answer x.2 x.1).toNat

/-- The addresses a write takes its bytes from: an empty packet, without a buffer. -/
def Xfer.sent (x : Xfer) : List ℕ :=
  match x.buffer with
  | some p => (List.range x.req.wLength.toNat).map (p + ·)
  | none => []

/-- One transfer of the request, to the device; a read writes inside the buffer and reports
the bytes delivered, a write sends the bytes of the buffer. -/
structure Right (bus : Bus) (s₀ : State) (dev_num : BitVec 8) (r : urequest) (buffer : ℕ)
    (out : State × ℕ) : Prop where
  once : ∃ x, out.1.xfers = s₀.xfers ++ [x] ∧ x.req = r ∧ x.dev_num = dev_num
  inside : r.dirIn = true → ∀ x ∈ issued s₀ out.1, ∀ p, x.1.buffer = some p → ∀ i < bus.moved x,
    buffer ≤ p + i ∧ p + i < buffer + r.wLength.toNat
  count : r.dirIn = true → out.2 = ((issued s₀ out.1).map bus.moved).sum
  data : r.dirIn = false →
    (issued s₀ out.1).flatMap (·.1.sent) = (List.range r.wLength.toNat).map (buffer + ·)

/-! ### A device that is there -/

/-- The record a device of a root port has. -/
structure Attached (s : State) (inst : uinstance) (port : ℕ) (d : DevRef) : Prop where
  port : GetRHPortControlFromPipe inst = some port
  dev : GetPortDevFromPipe s inst = some d
  udev : (s.dev d).pUDev.isSome

/-- Control transfers leave the ports and the devices where they are. -/
structure Keeps (s s' : State) : Prop where
  port_num : ∀ d, (s'.dev d).port_num = (s.dev d).port_num
  udev : ∀ d, (s.dev d).pUDev.isSome → (s'.dev d).pUDev.isSome

theorem Keeps.refl (s : State) : Keeps s s := ⟨fun _ => rfl, fun _ => id⟩

theorem Keeps.trans {s s' s'' : State} (h : Keeps s s') (h' : Keeps s' s'') : Keeps s s'' :=
  ⟨fun d => (h'.port_num d).trans (h.port_num d), fun d hd => h'.udev d (h.udev d hd)⟩

theorem Keeps.find {s s' : State} (h : Keeps s s') (inst : uinstance) :
    GetPortDevFromPipe s' inst = GetPortDevFromPipe s inst := by
  simp only [GetPortDevFromPipe, h.port_num]

theorem Attached.keep {s s' : State} {inst : uinstance} {port : ℕ} {d : DevRef}
    (h : Attached s inst port d) (hk : Keeps s s') : Attached s' inst port d :=
  ⟨h.port, (hk.find inst).trans h.dev, hk.udev d h.udev⟩

section Setters

variable (s : State) (port i : ℕ)

/-- The running length of the root port. -/
def State.sent : BitVec 32 := (s.dev (slot port)).u32SentLength 0

/-- The request stored at the root port. -/
def State.setup : urequest := (s.dev (slot port)).asSetupReq 0

@[simp] theorem setSent_xfers (v : BitVec 32) : (s.setSent port i v).xfers = s.xfers := rfl

@[simp] theorem setSetup_xfers (r : urequest) : (s.setSetup port i r).xfers = s.xfers := rfl

@[simp] theorem setSent_sent (v : BitVec 32) : (s.setSent port 0 v).sent port = v := by
  simp [State.sent, State.setSent, State.setDev]

@[simp] theorem setSent_setup (v : BitVec 32) (port' : ℕ) :
    (s.setSent port i v).setup port' = s.setup port' := by
  by_cases h : port' = port
  · simp [State.setup, State.setSent, State.setDev, h]
  · simp [State.setup, State.setSent, State.setDev, slot, h]

@[simp] theorem setSetup_sent (r : urequest) (port' : ℕ) :
    (s.setSetup port i r).sent port' = s.sent port' := by
  by_cases h : port' = port
  · simp [State.sent, State.setSetup, State.setDev, h]
  · simp [State.sent, State.setSetup, State.setDev, slot, h]

@[simp] theorem setSetup_setup (r : urequest) : (s.setSetup port 0 r).setup port = r := by
  simp [State.setup, State.setSetup, State.setDev]

theorem setSent_sent_of_ne {port' : ℕ} (h : port' ≠ port) (v : BitVec 32) :
    (s.setSent port i v).sent port' = s.sent port' := by
  simp [State.sent, State.setSent, State.setDev, slot, h]

theorem setSetup_setup_of_ne {port' : ℕ} (h : port' ≠ port) (r : urequest) :
    (s.setSetup port i r).setup port' = s.setup port' := by
  simp [State.setup, State.setSetup, State.setDev, slot, h]

@[simp] theorem setSent_pUDev (v : BitVec 32) (d : DevRef) :
    ((s.setSent port i v).dev d).pUDev = (s.dev d).pUDev := by
  by_cases hd : d = slot port
  · subst hd
    simp [State.setSent, State.setDev]
  · simp [State.setSent, State.setDev, hd]

@[simp] theorem setSetup_pUDev (r : urequest) (d : DevRef) :
    ((s.setSetup port i r).dev d).pUDev = (s.dev d).pUDev := by
  by_cases hd : d = slot port
  · subst hd
    simp [State.setSetup, State.setDev]
  · simp [State.setSetup, State.setDev, hd]

theorem setDev_keeps {s : State} {d : DevRef} {v : S_NU_PORT_DEV}
    (hp : v.port_num = (s.dev d).port_num) (hu : (s.dev d).pUDev.isSome → v.pUDev.isSome) :
    Keeps s (s.setDev d v) := by
  constructor
  · intro d'
    by_cases hd : d' = d
    · subst hd
      simp [State.setDev, hp]
    · simp [State.setDev, hd]
  · intro d' h
    by_cases hd : d' = d
    · subst hd
      simpa [State.setDev] using hu h
    · simpa [State.setDev, hd] using h

theorem setSent_keeps (v : BitVec 32) : Keeps s (s.setSent port i v) := setDev_keeps rfl id

theorem setSetup_keeps (r : urequest) : Keeps s (s.setSetup port i r) := setDev_keeps rfl id

end Setters

/-! ### What a call does -/

/-- A transfer that was issued: the answer, and what else changes. -/
structure Issued (bus : Bus) (s : State) (d : DevRef) (u : UDEV_T) (r : urequest) (buffer : Option ℕ)
    (out : ℤ × State) : Prop where
  ret : out.1 = bus.answer s.xfers.length ⟨u.dev_num, r, buffer⟩
  xfers : out.2.xfers = s.xfers ++ [⟨u.dev_num, r, buffer⟩]
  keeps : Keeps s out.2
  sent : ∀ port, out.2.sent port = s.sent port
  setup : ∀ port, out.2.setup port = s.setup port
  others : ∀ d' ≠ d, (out.2.dev d').pUDev = (s.dev d').pUDev
  self : (out.2.dev d).pUDev.map (·.dev_num) =
    some (if 0 ≤ out.1 ∧ r.isStd USB_REQ_SET_ADDRESS = true then r.wValue.setWidth 8 else u.dev_num)

theorem nu_ctrl_xfer_issued (bus : Bus) (s : State) {d : DevRef} {u : UDEV_T} (r : urequest)
    (buffer : Option ℕ) (hu : (s.dev d).pUDev = some u) :
    Issued bus s d u r buffer (nu_ctrl_xfer bus s d u r buffer) := by
  unfold nu_ctrl_xfer
  by_cases hret : bus.answer s.xfers.length ⟨u.dev_num, r, buffer⟩ < 0
  · simp only [hret, if_true]
    constructor
    · rfl
    · rfl
    · exact ⟨fun _ => rfl, fun _ => id⟩
    · exact fun _ => rfl
    · exact fun _ => rfl
    · exact fun _ _ => rfl
    · show (s.dev d).pUDev.map _ = _
      rw [hu, if_neg fun h => absurd h.1 (not_le.mpr hret)]
      rfl
  · simp only [hret, if_false]
    have hslot : ∀ {α : Type} (f : S_NU_PORT_DEV → α) (v : S_NU_PORT_DEV) (d' : DevRef),
        f v = f (s.dev d) → f ((Function.update s.dev d v) d') = f (s.dev d') := by
      intro α f v d' hv
      by_cases hd : d' = d
      · subst hd
        rw [Function.update_self, hv]
      · rw [Function.update_of_ne hd]
    constructor
    · rfl
    · rfl
    · have hk := setDev_keeps (s := s) (d := d) (v := { s.dev d with
        pUDev := some (if r.isStd USB_REQ_SET_CONFIGURATION = true then
          { (if r.isStd USB_REQ_SET_ADDRESS = true then
              { u with dev_num := r.wValue.setWidth 8 } else u) with
            cur_conf := (r.wValue.setWidth 8).toInt }
          else if r.isStd USB_REQ_SET_ADDRESS = true then
            { u with dev_num := r.wValue.setWidth 8 } else u)
        bEnumDone := (s.dev d).bEnumDone || r.isStd USB_REQ_SET_CONFIGURATION }) rfl fun _ => rfl
      exact ⟨hk.port_num, hk.udev⟩
    · exact fun port => hslot (fun v => v.u32SentLength 0) _ (slot port) rfl
    · exact fun port => hslot (fun v => v.asSetupReq 0) _ (slot port) rfl
    · intro d' hd
      show ((Function.update s.dev d _) d').pUDev = _
      rw [Function.update_of_ne hd]
    · show ((Function.update s.dev d _) d).pUDev.map _ = _
      rw [Function.update_self]
      by_cases haddr : r.isStd USB_REQ_SET_ADDRESS = true
      · by_cases hconf : r.isStd USB_REQ_SET_CONFIGURATION = true
        · simp [haddr, hconf, not_lt.mp hret]
        · simp [haddr, hconf, not_lt.mp hret]
      · by_cases hconf : r.isStd USB_REQ_SET_CONFIGURATION = true
        · simp [haddr, hconf]
        · simp [haddr, hconf]

section Calls

variable (bus : Bus) {s : State} (pipe : upipe) (n : ℕ) {port : ℕ} {d : DevRef} {u : UDEV_T}

/-- A set-up packet of a read is stored. -/
theorem nu_pipe_xfer_setup_in (ha : Attached s pipe.inst port d) (hi : pipe.pipe_index = 0)
    {r : urequest} (hr : r.dirIn = true) :
    nu_pipe_xfer bus s pipe (.SETUP r) n =
      some ((n : ℤ), (s.setSent port 0 0).setSetup port 0 r) := by
  obtain ⟨u, hu⟩ := Option.isSome_iff_exists.mp ha.udev
  simp [nu_pipe_xfer, ha.port, ha.dev, hu, hi, hr]

/-- A set-up packet of a write is the transfer. -/
theorem nu_pipe_xfer_setup_out (ha : Attached s pipe.inst port d) (hi : pipe.pipe_index = 0)
    (hu : (s.dev d).pUDev = some u) {r : urequest} (hr : r.dirIn = false) : ∃ out,
      Issued bus (s.setSent port 0 0) d u r none out ∧
      nu_pipe_xfer bus s pipe (.SETUP r) n =
        some (if out.1 = r.wLength.toNat then (n : ℤ) else -1, out.2) := by
  have hu' : ((s.setSent port 0 0).dev d).pUDev = some u := (setSent_pUDev s port 0 0 d).trans hu
  refine ⟨_, nu_ctrl_xfer_issued bus _ r none hu', ?_⟩
  simp [nu_pipe_xfer, ha.port, ha.dev, hu, hi, hr]

/-- The first chunk of a read is the transfer, of the request that is stored. -/
theorem nu_pipe_xfer_data_first (ha : Attached s pipe.inst port d) (hi : pipe.pipe_index = 0)
    (hu : (s.dev d).pUDev = some u) (hdir : pipe.ep.bEndpointAddress &&& USB_DIR_MASK = USB_DIR_IN)
    (hsent : s.sent port = 0) (b : ℕ) : ∃ out,
      Issued bus s d u (s.setup port) (some b) out ∧
      nu_pipe_xfer bus s pipe (.DATA (some b)) n =
        some (if out.1 ≤ 0 then -1 else (n : ℤ), out.2.setSent port 0 (BitVec.ofInt 32 out.1)) := by
  refine ⟨_, nu_ctrl_xfer_issued bus s (s.setup port) (some b) hu, ?_⟩
  have hsent' : (s.dev (slot port)).u32SentLength 0 = 0 := hsent
  by_cases hret : (nu_ctrl_xfer bus s d u ((s.dev (slot port)).asSetupReq 0) (some b)).1 ≤ 0
  · simp [nu_pipe_xfer, ha.port, ha.dev, hu, hi, hdir, hsent', State.setup, hret]
  · simp [nu_pipe_xfer, ha.port, ha.dev, hu, hi, hdir, hsent', State.setup, hret]

/-- A later chunk is answered from the running length. -/
theorem nu_pipe_xfer_data_next (ha : Attached s pipe.inst port d) (hi : pipe.pipe_index = 0)
    (hdir : pipe.ep.bEndpointAddress &&& USB_DIR_MASK = USB_DIR_IN) (hsent : s.sent port ≠ 0) (b : ℕ) :
    nu_pipe_xfer bus s pipe (.DATA (some b)) n =
      if s.sent port < BitVec.ofNat 32 n then some (-1, s)
      else some (if n = 0 then -1 else (n : ℤ), s.setSent port 0 (s.sent port - BitVec.ofNat 32 n)) := by
  obtain ⟨u, hu⟩ := Option.isSome_iff_exists.mp ha.udev
  have hsent' : ¬ (s.dev (slot port)).u32SentLength 0 = 0#32 := hsent
  by_cases hlt : (s.dev (slot port)).u32SentLength 0 < BitVec.ofNat 32 n
  · simp [nu_pipe_xfer, ha.port, ha.dev, hu, hi, hdir, hsent', State.sent, hlt]
  · simp [nu_pipe_xfer, ha.port, ha.dev, hu, hi, hdir, hsent', State.sent, hlt]

/-- A chunk without a buffer, or of a write, does nothing. -/
theorem nu_pipe_xfer_data_idle (ha : Attached s pipe.inst port d) {b : Option ℕ}
    (h : b = none ∨ ¬ pipe.ep.bEndpointAddress &&& USB_DIR_MASK = USB_DIR_IN) :
    nu_pipe_xfer bus s pipe (.DATA b) n = some ((n : ℤ), s) := by
  obtain ⟨u, hu⟩ := Option.isSome_iff_exists.mp ha.udev
  cases b with
  | none => simp [nu_pipe_xfer, ha.port, ha.dev, hu]
  | some b =>
    have hdir : ¬ pipe.ep.bEndpointAddress &&& USB_DIR_MASK = USB_DIR_IN := h.resolve_left (by simp)
    simp [nu_pipe_xfer, ha.port, ha.dev, hu, hdir]

/-- A later chunk within the running length succeeds. -/
theorem nu_pipe_xfer_chunk (ha : Attached s pipe.inst port d) (hi : pipe.pipe_index = 0)
    (hdir : pipe.ep.bEndpointAddress &&& USB_DIR_MASK = USB_DIR_IN) (hn : 0 < n)
    (hle : n ≤ (s.sent port).toNat) (b : ℕ) : ∃ s',
      nu_pipe_xfer bus s pipe (.DATA (some b)) n = some ((n : ℤ), s') ∧ Keeps s s' ∧
      s'.xfers = s.xfers ∧ (s'.sent port).toNat = (s.sent port).toNat - n := by
  have hlt : n < 2 ^ 32 := lt_of_le_of_lt hle (s.sent port).isLt
  have hsent : s.sent port ≠ 0 := by
    intro h
    rw [h] at hle
    exact absurd hle (by simpa using hn.ne')
  refine ⟨s.setSent port 0 (s.sent port - BitVec.ofNat 32 n), ?_, setSent_keeps s port 0 _, rfl, ?_⟩
  · have hge : ¬ s.sent port < BitVec.ofNat 32 n := by
      rw [BitVec.lt_def, BitVec.toNat_ofNat, Nat.mod_eq_of_lt hlt]
      exact not_lt.mpr hle
    rw [nu_pipe_xfer_data_next bus pipe n ha hi hdir hsent, if_neg hge, if_neg hn.ne']
  · rw [setSent_sent]
    have hn' : (BitVec.ofNat 32 n).toNat = n := by rw [BitVec.toNat_ofNat, Nat.mod_eq_of_lt hlt]
    rw [BitVec.toNat_sub_of_le (by rwa [BitVec.le_def, hn']), hn']

/-- A later chunk beyond it fails. -/
theorem nu_pipe_xfer_chunk_short (ha : Attached s pipe.inst port d) (hi : pipe.pipe_index = 0)
    (hdir : pipe.ep.bEndpointAddress &&& USB_DIR_MASK = USB_DIR_IN) (h0 : 0 < (s.sent port).toNat)
    (hn : n < 2 ^ 32) (hlt : (s.sent port).toNat < n) (b : ℕ) :
    nu_pipe_xfer bus s pipe (.DATA (some b)) n = some (-1, s) := by
  have hsent : s.sent port ≠ 0 := by
    intro h
    rw [h] at h0
    simp at h0
  have hlt' : s.sent port < BitVec.ofNat 32 n := by
    rw [BitVec.lt_def, BitVec.toNat_ofNat, Nat.mod_eq_of_lt hn]
    exact hlt
  rw [nu_pipe_xfer_data_next bus pipe n ha hi hdir hsent, if_pos hlt']

/-- No chunk moves a device or takes a transfer back. -/
theorem nu_pipe_xfer_data_extends (ha : Attached s pipe.inst port d) (hi : pipe.pipe_index = 0)
    (b : Option ℕ) : ∃ ret s', nu_pipe_xfer bus s pipe (.DATA b) n = some (ret, s') ∧
      Keeps s s' ∧ s.xfers.length ≤ s'.xfers.length := by
  by_cases hidle : b = none ∨ ¬ pipe.ep.bEndpointAddress &&& USB_DIR_MASK = USB_DIR_IN
  · exact ⟨_, s, nu_pipe_xfer_data_idle bus pipe n ha hidle, Keeps.refl s, le_refl _⟩
  · push Not at hidle
    obtain ⟨hb, hdir⟩ := hidle
    obtain ⟨b, rfl⟩ := Option.ne_none_iff_exists'.mp hb
    obtain ⟨u, hu⟩ := Option.isSome_iff_exists.mp ha.udev
    by_cases hsent : s.sent port = 0
    · obtain ⟨out, hout, he⟩ := nu_pipe_xfer_data_first bus pipe n ha hi hu hdir hsent b
      refine ⟨_, _, he, hout.keeps.trans (setSent_keeps _ port 0 _), ?_⟩
      rw [setSent_xfers, hout.xfers, List.length_append]
      exact Nat.le_add_right _ _
    · by_cases hlt : s.sent port < BitVec.ofNat 32 n
      · exact ⟨_, s, by rw [nu_pipe_xfer_data_next bus pipe n ha hi hdir hsent, if_pos hlt], Keeps.refl s, le_refl _⟩
      · exact ⟨_, _, by rw [nu_pipe_xfer_data_next bus pipe n ha hi hdir hsent, if_neg hlt],
          setSent_keeps s port 0 _, le_refl _⟩

end Calls

/-! ### The data stage -/

section Loop

variable {bus : Bus} {s s' : State} {pipe : upipe} {port : ℕ} {d : DevRef} {fuel remain reported : ℕ}

theorem send_size_eq (remain mps : ℕ) : (if remain > mps then mps else remain) = min remain mps := by
  by_cases h : remain > mps
  · rw [if_pos h, min_eq_right h.le]
  · rw [if_neg h, min_eq_left (not_lt.mp h)]

/-- A chunk that succeeds is counted, and the loop goes on after it. -/
theorem pipeLoop_ok {b : Option ℕ}
    (h : nu_pipe_xfer bus s pipe (.DATA b) (min remain pipe.ep.wMaxPacketSize.toNat) =
      some (((min remain pipe.ep.wMaxPacketSize.toNat : ℕ) : ℤ), s')) :
    pipeLoop bus pipe (fuel + 1) s b remain reported =
      if remain ≤ pipe.ep.wMaxPacketSize.toNat then some (true, s', reported + remain)
      else pipeLoop bus pipe fuel s' (b.map (· + pipe.ep.wMaxPacketSize.toNat))
        (remain - pipe.ep.wMaxPacketSize.toNat) (reported + pipe.ep.wMaxPacketSize.toNat) := by
  simp only [pipeLoop, send_size_eq, h, Option.bind_some, if_true]
  by_cases hr : remain ≤ pipe.ep.wMaxPacketSize.toNat
  · simp only [min_eq_left hr, Nat.sub_self, gt_iff_lt, lt_irrefl, if_false, hr, if_true]
  · have hlt := not_le.mp hr
    simp only [min_eq_right hlt.le, gt_iff_lt, Nat.sub_pos_of_lt hlt, if_true, hr, if_false]

/-- A chunk that fails ends the loop. -/
theorem pipeLoop_fail {b : Option ℕ} {ret : ℤ}
    (h : nu_pipe_xfer bus s pipe (.DATA b) (min remain pipe.ep.wMaxPacketSize.toNat) = some (ret, s'))
    (hne : ret ≠ ((min remain pipe.ep.wMaxPacketSize.toNat : ℕ) : ℤ)) :
    pipeLoop bus pipe (fuel + 1) s b remain reported = some (false, s', reported) := by
  simp only [pipeLoop, send_size_eq, h, Option.bind_some, hne, if_false]

variable (bus pipe)

/-- The loop goes through, whatever the device answers. -/
theorem pipeLoop_extends (hi : pipe.pipe_index = 0) (hmps : 0 < pipe.ep.wMaxPacketSize.toNat) :
    ∀ (fuel : ℕ) (s : State) (b : Option ℕ) (remain reported : ℕ), Attached s pipe.inst port d →
      remain < fuel → ∃ ok s' n, pipeLoop bus pipe fuel s b remain reported = some (ok, s', n) ∧
        Keeps s s' ∧ s.xfers.length ≤ s'.xfers.length := by
  intro fuel
  induction fuel with
  | zero => exact fun _ _ _ _ _ h => absurd h (Nat.not_lt_zero _)
  | succ fuel ih =>
    intro s b remain reported ha hf
    obtain ⟨ret, s₁, he, hk, hx⟩ := nu_pipe_xfer_data_extends bus pipe
      (min remain pipe.ep.wMaxPacketSize.toNat) ha hi b
    by_cases hret : ret = ((min remain pipe.ep.wMaxPacketSize.toNat : ℕ) : ℤ)
    · subst hret
      rw [pipeLoop_ok he]
      by_cases hr : remain ≤ pipe.ep.wMaxPacketSize.toNat
      · rw [if_pos hr]
        exact ⟨_, _, _, rfl, hk, hx⟩
      · rw [if_neg hr]
        obtain ⟨ok, s₂, n, he₂, hk₂, hx₂⟩ := ih s₁ (b.map (· + pipe.ep.wMaxPacketSize.toNat))
          (remain - pipe.ep.wMaxPacketSize.toNat) (reported + pipe.ep.wMaxPacketSize.toNat)
          (ha.keep hk) (by omega)
        exact ⟨ok, s₂, n, he₂, hk.trans hk₂, hx.trans hx₂⟩
    · rw [pipeLoop_fail he hret]
      exact ⟨_, _, _, rfl, hk, hx⟩

/-- Chunks that do nothing all succeed. -/
theorem pipeLoop_idle (hmps : 0 < pipe.ep.wMaxPacketSize.toNat) (ha : Attached s pipe.inst port d) :
    ∀ (fuel : ℕ) (b : Option ℕ) (remain reported : ℕ),
      (b = none ∨ ¬ pipe.ep.bEndpointAddress &&& USB_DIR_MASK = USB_DIR_IN) → remain < fuel →
      pipeLoop bus pipe fuel s b remain reported = some (true, s, reported + remain) := by
  intro fuel
  induction fuel with
  | zero => exact fun _ _ _ _ h => absurd h (Nat.not_lt_zero _)
  | succ fuel ih =>
    intro b remain reported hidle hf
    rw [pipeLoop_ok (nu_pipe_xfer_data_idle bus pipe _ ha hidle)]
    by_cases hr : remain ≤ pipe.ep.wMaxPacketSize.toNat
    · rw [if_pos hr]
    · rw [if_neg hr, ih _ _ _ (hidle.imp_left fun h => by rw [h, Option.map_none]) (by omega)]
      congr 3
      omega

section Read

variable (hi : pipe.pipe_index = 0) (hmps : 0 < pipe.ep.wMaxPacketSize.toNat)
  (hdir : pipe.ep.bEndpointAddress &&& USB_DIR_MASK = USB_DIR_IN)

include hi hmps hdir

/-- After a full transfer the running length covers every later chunk. -/
theorem pipeLoop_full : ∀ (fuel : ℕ) (s : State) (b remain reported : ℕ),
    Attached s pipe.inst port d → remain < fuel → 0 < remain →
    (s.sent port).toNat = remain + pipe.ep.wMaxPacketSize.toNat → ∃ s',
      pipeLoop bus pipe fuel s (some b) remain reported = some (true, s', reported + remain) ∧
      Keeps s s' ∧ s'.xfers = s.xfers := by
  intro fuel
  induction fuel with
  | zero => exact fun _ _ _ _ _ h => absurd h (Nat.not_lt_zero _)
  | succ fuel ih =>
    intro s b remain reported ha hf h0 hv
    obtain ⟨s₁, he, hk, hx, hv₁⟩ := nu_pipe_xfer_chunk bus pipe
      (min remain pipe.ep.wMaxPacketSize.toNat) ha hi hdir (by omega) (by omega) b
    rw [pipeLoop_ok he]
    by_cases hr : remain ≤ pipe.ep.wMaxPacketSize.toNat
    · rw [if_pos hr]
      exact ⟨s₁, rfl, hk, hx⟩
    · rw [if_neg hr]
      obtain ⟨s₂, he₂, hk₂, hx₂⟩ := ih s₁ (b + pipe.ep.wMaxPacketSize.toNat)
        (remain - pipe.ep.wMaxPacketSize.toNat) (reported + pipe.ep.wMaxPacketSize.toNat)
        (ha.keep hk) (by omega) (by omega) (by omega)
      refine ⟨s₂, ?_, hk.trans hk₂, hx₂.trans hx⟩
      rw [Option.map_some, he₂]
      congr 3
      omega

/-- At running length zero a chunk issues the transfer. -/
theorem pipeLoop_again (b reported : ℕ) (ha : Attached s pipe.inst port d) (hsent : s.sent port = 0)
    (hf : remain < fuel) : ∃ ok s' n,
      pipeLoop bus pipe fuel s (some b) remain reported = some (ok, s', n) ∧ Keeps s s' ∧
      s.xfers.length < s'.xfers.length := by
  obtain ⟨fuel, rfl⟩ := Nat.exists_eq_succ_of_ne_zero (Nat.ne_of_gt (Nat.zero_lt_of_lt hf))
  obtain ⟨u, hu⟩ := Option.isSome_iff_exists.mp ha.udev
  obtain ⟨out, hout, he⟩ := nu_pipe_xfer_data_first bus pipe
    (min remain pipe.ep.wMaxPacketSize.toNat) ha hi hu hdir hsent b
  have hk : Keeps s (out.2.setSent port 0 (BitVec.ofInt 32 out.1)) :=
    hout.keeps.trans (setSent_keeps _ port 0 _)
  have hx : s.xfers.length < (out.2.setSent port 0 (BitVec.ofInt 32 out.1)).xfers.length := by
    rw [setSent_xfers, hout.xfers, List.length_append]
    exact Nat.lt_succ_self _
  by_cases hret : out.1 ≤ 0
  · rw [if_pos hret] at he
    rw [pipeLoop_fail he (by omega)]
    exact ⟨_, _, _, rfl, hk, hx⟩
  · rw [if_neg hret] at he
    rw [pipeLoop_ok he]
    by_cases hr : remain ≤ pipe.ep.wMaxPacketSize.toNat
    · rw [if_pos hr]
      exact ⟨_, _, _, rfl, hk, hx⟩
    · rw [if_neg hr]
      obtain ⟨ok, s₂, n, he₂, hk₂, hx₂⟩ := pipeLoop_extends bus pipe hi hmps fuel _
        ((some b).map (· + pipe.ep.wMaxPacketSize.toNat)) (remain - pipe.ep.wMaxPacketSize.toNat)
        (reported + pipe.ep.wMaxPacketSize.toNat) (ha.keep hk) (by omega)
      exact ⟨ok, s₂, n, he₂, hk.trans hk₂, hx.trans_le hx₂⟩

/-- After a short one some chunk fails too early or too late, or the running length comes
to zero and the transfer is issued again. -/
theorem pipeLoop_short : ∀ (fuel : ℕ) (s : State) (b remain reported : ℕ),
    Attached s pipe.inst port d → remain < fuel → 0 < remain → 0 < (s.sent port).toNat →
    (s.sent port).toNat < remain + pipe.ep.wMaxPacketSize.toNat → ∃ ok s' n,
      pipeLoop bus pipe fuel s (some b) remain reported = some (ok, s', n) ∧ Keeps s s' ∧
      (s.xfers.length < s'.xfers.length ∨ (s'.xfers = s.xfers ∧
        n + pipe.ep.wMaxPacketSize.toNat ≠ reported + (s.sent port).toNat)) := by
  intro fuel
  induction fuel with
  | zero => exact fun _ _ _ _ _ h => absurd h (Nat.not_lt_zero _)
  | succ fuel ih =>
    intro s b remain reported ha hf hr0 h0 hv
    by_cases hc : (s.sent port).toNat < min remain pipe.ep.wMaxPacketSize.toNat
    · have he := nu_pipe_xfer_chunk_short bus pipe _ ha hi hdir h0 (by omega) hc b
      rw [pipeLoop_fail he (by omega)]
      exact ⟨_, s, reported, rfl, Keeps.refl s, Or.inr ⟨rfl, by omega⟩⟩
    · obtain ⟨s₁, he, hk, hx, hv₁⟩ := nu_pipe_xfer_chunk bus pipe
        (min remain pipe.ep.wMaxPacketSize.toNat) ha hi hdir (by omega) (not_lt.mp hc) b
      rw [pipeLoop_ok he]
      by_cases hr : remain ≤ pipe.ep.wMaxPacketSize.toNat
      · rw [if_pos hr]
        exact ⟨_, s₁, _, rfl, hk, Or.inr ⟨hx, by omega⟩⟩
      · rw [if_neg hr, Option.map_some]
        by_cases hz : (s₁.sent port).toNat = 0
        · -- the next chunk issues the request again
          obtain ⟨ok, s₂, n, he₂, hk₂, hx₂⟩ := pipeLoop_again bus pipe hi hmps hdir
            (b + pipe.ep.wMaxPacketSize.toNat) (reported + pipe.ep.wMaxPacketSize.toNat) (ha.keep hk)
            (BitVec.eq_of_toNat_eq hz) (show remain - pipe.ep.wMaxPacketSize.toNat < fuel by omega)
          exact ⟨ok, s₂, n, he₂, hk.trans hk₂, Or.inl (hx ▸ hx₂)⟩
        · obtain ⟨ok, s₂, n, he₂, hk₂, h₂⟩ := ih s₁ (b + pipe.ep.wMaxPacketSize.toNat)
            (remain - pipe.ep.wMaxPacketSize.toNat) (reported + pipe.ep.wMaxPacketSize.toNat)
            (ha.keep hk) (by omega) (by omega) (by omega) (by omega)
          refine ⟨ok, s₂, n, he₂, hk.trans hk₂, ?_⟩
          rcases h₂ with h₂ | ⟨hx₂, hn⟩
          · exact Or.inl (hx ▸ h₂)
          · exact Or.inr ⟨hx₂.trans hx, by omega⟩

/-- The data stage of a read: all of the chunks are answered from one transfer when it
moved everything or nothing. -/
theorem pipeLoop_read {u : UDEV_T} (ha : Attached s pipe.inst port d) (hu : (s.dev d).pUDev = some u)
    (hsent : s.sent port = 0) (hr0 : 0 < remain)
    (hlen : (s.setup port).wLength.toNat = remain) (b : ℕ) : ∃ ok s' n,
      pipeLoop bus pipe (remain + 1) s (some b) remain 0 = some (ok, s', n) ∧ Keeps s s' ∧
      let x : Xfer := ⟨u.dev_num, s.setup port, some b⟩
      let a := bus.answer s.xfers.length x
      ((a ≤ 0 ∨ a = remain) ∧ s'.xfers = s.xfers ++ [x] ∧ n = a.toNat) ∨
      ((0 < a ∧ a < remain) ∧
        (s.xfers.length + 1 < s'.xfers.length ∨ s'.xfers = s.xfers ++ [x] ∧ n ≠ a.toNat)) := by
  obtain ⟨out, hout, he⟩ := nu_pipe_xfer_data_first bus pipe
    (min remain pipe.ep.wMaxPacketSize.toNat) ha hi hu hdir hsent b
  have hle := bus.le s.xfers.length ⟨u.dev_num, s.setup port, some b⟩
  simp only [hlen] at hle
  rw [← hout.ret] at hle
  dsimp only
  rw [← hout.ret]
  have h16 : remain < 2 ^ 16 := hlen ▸ (s.setup port).wLength.isLt
  have hk : Keeps s (out.2.setSent port 0 (BitVec.ofInt 32 out.1)) :=
    hout.keeps.trans (setSent_keeps _ port 0 _)
  have hx := hout.xfers
  by_cases hret : out.1 ≤ 0
  · rw [if_pos hret] at he
    rw [pipeLoop_fail he (by omega)]
    exact ⟨_, _, _, rfl, hk, Or.inl ⟨Or.inl hret, hx, by omega⟩⟩
  · rw [if_neg hret] at he
    rw [pipeLoop_ok he]
    by_cases hr : remain ≤ pipe.ep.wMaxPacketSize.toNat
    · rw [if_pos hr]
      refine ⟨_, _, _, rfl, hk, ?_⟩
      by_cases hfull : out.1 = remain
      · exact Or.inl ⟨Or.inr hfull, hx, by omega⟩
      · exact Or.inr ⟨by omega, Or.inr ⟨hx, by omega⟩⟩
    · rw [if_neg hr, Option.map_some]
      have hv : ((out.2.setSent port 0 (BitVec.ofInt 32 out.1)).sent port).toNat = out.1.toNat := by
        rw [setSent_sent, BitVec.toNat_ofInt]
        omega
      by_cases hfull : out.1 = remain
      · obtain ⟨s₂, he₂, hk₂, hx₂⟩ := pipeLoop_full bus pipe hi hmps hdir remain _
          (b + pipe.ep.wMaxPacketSize.toNat) (remain - pipe.ep.wMaxPacketSize.toNat)
          (0 + pipe.ep.wMaxPacketSize.toNat) (ha.keep hk) (by omega) (by omega) (by omega)
        exact ⟨true, s₂, _, he₂, hk.trans hk₂, Or.inl ⟨Or.inr hfull, hx₂.trans hx, by omega⟩⟩
      · obtain ⟨ok, s₂, n, he₂, hk₂, h₂⟩ := pipeLoop_short bus pipe hi hmps hdir remain _
          (b + pipe.ep.wMaxPacketSize.toNat) (remain - pipe.ep.wMaxPacketSize.toNat)
          (0 + pipe.ep.wMaxPacketSize.toNat) (ha.keep hk) (by omega) (by omega) (by omega) (by omega)
        refine ⟨ok, s₂, n, he₂, hk.trans hk₂, Or.inr ⟨by omega, ?_⟩⟩
        rcases h₂ with h₂ | ⟨hx₂, hn⟩
        · left
          rw [setSent_xfers, hx, List.length_append] at h₂
          exact h₂
        · exact Or.inr ⟨hx₂.trans hx, by omega⟩

end Read

end Loop

/-! ### One request -/

section Request

variable {bus : Bus} {s : State} {r : urequest} {buffer : ℕ} {out : State × ℕ} {x : Xfer}

/-- What one transfer issued is. -/
theorem issued_eq (h : out.1.xfers = s.xfers ++ [x]) : issued s out.1 = [(x, s.xfers.length)] := by
  rw [issued, h, List.drop_left]
  rfl

/-- A read of one transfer is right when it reports what was moved. -/
theorem right_read_iff (hr : r.dirIn = true) (h : out.1.xfers = s.xfers ++ [x]) (hreq : x.req = r)
    (hbuf : x.buffer = some buffer) :
    Right bus s x.dev_num r buffer out ↔ out.2 = (bus.answer s.xfers.length x).toNat := by
  have hi := issued_eq h
  constructor
  · intro hR
    have := hR.count hr
    simpa [hi, Bus.moved] using this
  · intro hc
    constructor
    · exact ⟨x, h, hreq, rfl⟩
    · intro _ y hy p hp i hlt
      rw [hi, List.mem_singleton] at hy
      subst hy
      obtain rfl : buffer = p := by simpa [hbuf] using hp
      have hle := bus.le s.xfers.length x
      rw [hreq] at hle
      simp only [Bus.moved] at hlt
      omega
    · intro _
      simpa [hi, Bus.moved] using hc
    · exact fun hf => absurd (hr.symm.trans hf) (by decide)

/-- More than one transfer is not right. -/
theorem not_right {dev_num : BitVec 8} (h : s.xfers.length + 1 < out.1.xfers.length) :
    ¬ Right bus s dev_num r buffer out := by
  intro hR
  obtain ⟨x, hx, -⟩ := hR.once
  rw [hx, List.length_append] at h
  exact absurd h (lt_irrefl _)

/-- A write of one transfer without a buffer is right when there is nothing to send. -/
theorem right_write_iff (hr : r.dirIn = false) (h : out.1.xfers = s.xfers ++ [x]) (hreq : x.req = r)
    (hbuf : x.buffer = none) : Right bus s x.dev_num r buffer out ↔ r.wLength.toNat = 0 := by
  have hi := issued_eq h
  constructor
  · intro hR
    have := congrArg List.length (hR.data hr)
    simpa [hi, Xfer.sent, hbuf] using this.symm
  · intro hz
    constructor
    · exact ⟨x, h, hreq, rfl⟩
    · exact fun hf => absurd (hr.symm.trans hf) (by decide)
    · exact fun hf => absurd (hr.symm.trans hf) (by decide)
    · intro _
      simp [hi, Xfer.sent, hbuf, hz]

/-- A request without a transfer is not right. -/
theorem not_right_of_none {dev_num : BitVec 8} (h : out.1.xfers = s.xfers) :
    ¬ Right bus s dev_num r buffer out := by
  intro hR
  obtain ⟨x, hx, -⟩ := hR.once
  rw [h] at hx
  exact absurd (congrArg List.length hx) (by simp)

end Request

theorem ep0_in (inst : uinstance) (mps : BitVec 16) :
    (ep0 inst mps true).ep.bEndpointAddress &&& USB_DIR_MASK = USB_DIR_IN :=
  (by decide : USB_DIR_IN &&& USB_DIR_MASK = USB_DIR_IN)

theorem ep0_out (inst : uinstance) (mps : BitVec 16) :
    ¬ (ep0 inst mps false).ep.bEndpointAddress &&& USB_DIR_MASK = USB_DIR_IN :=
  (by decide : ¬ 0 &&& USB_DIR_MASK = USB_DIR_IN)

section Stages

variable {bus : Bus} {s : State} {inst : uinstance} {port : ℕ} {d : DevRef} {mps : BitVec 16}

/-- The status stage does nothing. -/
theorem status_idle (ha : Attached s inst port d) (hmps : 0 < mps.toNat) (dirIn : Bool) :
    rt_usb_hcd_pipe_xfer bus s (ep0 inst mps dirIn) none 0 = some (true, s, 0) :=
  pipeLoop_idle bus (ep0 inst mps dirIn) hmps ha 1 none 0 0 (Or.inl rfl) Nat.zero_lt_one

/-- A request whose set-up packet goes through ends as its data stage does. -/
theorem controlRequest_eq {r : urequest} {buffer : ℕ} {s₁ s₂ : State} (ok : Bool) {n : ℕ}
    (hmps : 0 < mps.toNat)
    (hsetup : nu_pipe_xfer bus s (ep0 inst mps false) (.SETUP r) 8 = some (8, s₁))
    (hdata : (if r.wLength.toNat > 0 then
      rt_usb_hcd_pipe_xfer bus s₁ (ep0 inst mps r.dirIn) (some buffer) r.wLength.toNat
      else some (true, s₁, 0)) = some (ok, s₂, n)) (ha : Attached s₂ inst port d) :
    controlRequest bus s inst mps r buffer = some (s₂, n) := by
  simp only [controlRequest, hsetup, hdata, Option.bind_some, if_true]
  cases ok with
  | true => simp only [if_true, status_idle ha hmps, Option.map_some]
  | false => rfl

end Stages

/-- **A request is one transfer on the caller's buffer**, for every device, length, packet
size and answer, if and only if it is a read of at least a byte of which the device
delivers all or nothing, or a write without data. -/
theorem controlRequest_right_iff (bus : Bus) (s : State) (inst : uinstance) (port : ℕ) (d : DevRef)
    (u : UDEV_T) (mps : BitVec 16) (r : urequest) (buffer : ℕ) (ha : Attached s inst port d)
    (hu : (s.dev d).pUDev = some u) (hmps : 0 < mps.toNat) :
    ∃ out, controlRequest bus s inst mps r buffer = some out ∧
      (Right bus s u.dev_num r buffer out ↔
        if r.dirIn = true then
          0 < r.wLength.toNat ∧
            (bus.answer s.xfers.length ⟨u.dev_num, r, some buffer⟩ ≤ 0 ∨
              bus.answer s.xfers.length ⟨u.dev_num, r, some buffer⟩ = r.wLength.toNat)
        else r.wLength.toNat = 0) := by
  by_cases hr : r.dirIn = true
  · have hsetup := nu_pipe_xfer_setup_in bus (ep0 inst mps false) 8 ha rfl hr
    set s₁ := (s.setSent port 0 0).setSetup port 0 r with hs₁
    have hk : Keeps s s₁ := (setSent_keeps s port 0 0).trans (setSetup_keeps _ port 0 r)
    have hu₁ : (s₁.dev d).pUDev = some u := by
      rw [hs₁, setSetup_pUDev, setSent_pUDev, hu]
    simp only [hr, if_true]
    rcases Nat.eq_zero_or_pos r.wLength.toNat with h0 | h0
    · refine ⟨(s₁, 0), controlRequest_eq true hmps hsetup (by simp [h0]) (ha.keep hk), ?_⟩
      exact iff_of_false (not_right_of_none rfl) fun h => absurd h0 h.1.ne'
    · obtain ⟨ok, s₂, n, he, hk₂, h₂⟩ := pipeLoop_read bus (ep0 inst mps true) rfl
        hmps (ep0_in inst mps) (ha.keep hk) hu₁ (by simp [hs₁]) h0 (by simp [hs₁]) buffer
      have hset : s₁.setup port = r := by simp [hs₁]
      rw [hset] at h₂
      refine ⟨(s₂, n), controlRequest_eq ok hmps hsetup ?_ ((ha.keep hk).keep hk₂), ?_⟩
      · rw [if_pos h0, hr]
        exact he
      · rcases h₂ with ⟨hall, hx, hn⟩ | ⟨hpart, hlen | ⟨hx, hn⟩⟩
        · exact iff_of_true ((right_read_iff (x := ⟨u.dev_num, r, some buffer⟩) hr hx rfl rfl).mpr hn) ⟨h0, hall⟩
        · refine iff_of_false (not_right hlen) ?_
          rintro ⟨-, h | h⟩
          · exact absurd hpart.1 (not_lt.mpr h)
          · exact absurd hpart.2 (h ▸ lt_irrefl _)
        · refine iff_of_false (mt (right_read_iff (x := ⟨u.dev_num, r, some buffer⟩) hr hx rfl rfl).mp hn) ?_
          rintro ⟨-, h | h⟩
          · exact absurd hpart.1 (not_lt.mpr h)
          · exact absurd hpart.2 (h ▸ lt_irrefl _)
  · have hr' : r.dirIn = false := by simpa using hr
    obtain ⟨out, hout, hsetup⟩ := nu_pipe_xfer_setup_out bus
      (ep0 inst mps false) 8 ha rfl hu hr'
    have ha₁ : Attached out.2 inst port d := ha.keep ((setSent_keeps s port 0 0).trans hout.keeps)
    have hx : out.2.xfers = s.xfers ++ [⟨u.dev_num, r, none⟩] := hout.xfers
    simp only [hr]
    by_cases hret : out.1 = r.wLength.toNat
    · rw [if_pos hret] at hsetup
      refine ⟨(out.2, r.wLength.toNat), controlRequest_eq true hmps hsetup ?_ ha₁,
        right_write_iff (x := ⟨u.dev_num, r, none⟩) hr' hx rfl rfl⟩
      by_cases h0 : r.wLength.toNat > 0
      · rw [if_pos h0, hr', rt_usb_hcd_pipe_xfer, pipeLoop_idle bus (ep0 inst mps false) hmps ha₁ _
          _ _ _ (Or.inr (ep0_out inst mps)) (Nat.lt_succ_self _), Nat.zero_add]
      · rw [if_neg h0, Nat.eq_zero_of_not_pos h0]
    · rw [if_neg hret] at hsetup
      refine ⟨(out.2, 0), ?_, right_write_iff (x := ⟨u.dev_num, r, none⟩) hr' hx rfl rfl⟩
      simp [controlRequest, hsetup]

section Descriptor

/-- A device with address 5 on the root port. -/
def onRootPort : State where
  dev := fun
    | .sRHPortDev _ => ⟨true, some ⟨1, 5, 0⟩, fun _ => none, fun _ => ⟨0, 0, 0, 0, 0⟩, fun _ => 0, 0, false⟩
    | .asHubPortDev _ _ => ⟨false, none, fun _ => none, fun _ => ⟨0, 0, 0, 0, 0⟩, fun _ => 0, 0, false⟩
  heap := fun _ => none
  xfers := []

/-- Get the device descriptor, 18 bytes. -/
def getDescriptor : urequest := ⟨0x80, 6, 0x0100, 0, 18⟩

/-- A device that delivers at most `n` bytes. -/
def upTo (n : ℕ) : Bus := ⟨fun _ x => (min x.req.wLength.toNat n : ℕ), fun _ _ => by omega⟩

/-- All 18 bytes of a descriptor, in chunks of 8. -/
theorem controlRequest_right_descriptor :
    ∃ out, controlRequest (upTo 64) onRootPort ⟨1, none⟩ 8 getDescriptor 0x20000000 = some out ∧
      Right (upTo 64) onRootPort 5 getDescriptor 0x20000000 out := by
  obtain ⟨out, he, hR⟩ := controlRequest_right_iff (upTo 64) onRootPort ⟨1, none⟩ 0 (.sRHPortDev 0)
    ⟨1, 5, 0⟩ 8 getDescriptor 0x20000000 ⟨rfl, rfl, rfl⟩ rfl (by decide)
  exact ⟨out, he, hR.mpr (by decide)⟩

/-- A device with 8 bytes of it: they cover two chunks, and at the third the transfer is
issued again, at the 16th byte of the buffer of 18. -/
theorem controlRequest_repeated :
    ∃ out, controlRequest (upTo 8) onRootPort ⟨1, none⟩ 8 getDescriptor 0x20000000 = some out ∧
      ¬ Right (upTo 8) onRootPort 5 getDescriptor 0x20000000 out := by
  refine ⟨(controlRequest (upTo 8) onRootPort ⟨1, none⟩ 8 getDescriptor 0x20000000).get (by decide),
    (Option.some_get _).symm, not_right ?_⟩
  decide

end Descriptor

end Usb
