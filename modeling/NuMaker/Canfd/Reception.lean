/-
Reception, from the controller to the readers.

A frame that passes the filters goes to Rx FIFO 0 and raises the flag of a new message.  The handler
reads the flags, clears them, and for the flag takes one message out of the FIFO and puts it on a
node of the framework's list, from where readers take it.  Frames come at any time, between the
steps of the handler too; readers run between its runs, in any order with each other.  The build is one
without `RT_CAN_USING_HDR`.
-/
import NuMaker.Canfd.Frames
import NuMaker.Lib.Shares
import NuMaker.Lib.Reach
import Mathlib.Data.List.Forall2
import Mathlib.Data.Multiset.Range

namespace Canfd.Rx

/-- The elements of Rx FIFO 0 that `nu_canfd_configure` asks for. -/
def u32RxFifo0 : ℕ := 16

/-- The flags of `IR` that lead to reception: a new message in Rx FIFO 0, and one lost. -/
@[ext] structure Flags where
  RF0N : Bool
  RF0L : Bool

/-- Where `nu_canfd_isr` is, with the `u32Status` that it has read. -/
inductive Isr
  | idle
  | entered (u32Status : Flags)
  | cleared (u32Status : Flags)
  | served (u32Status : Flags)

/-- Where a thread is in `_can_int_rx`, with the messages that it is to read besides the one it has
in hand. -/
inductive Reader
  | idle
  | reading (msgs : ℕ)
  | holding (listmsg msgs : ℕ)
  | copied (listmsg msgs : ℕ)

/-- `struct rt_can_rx_fifo`; the nodes are the indices of `buffer`. -/
structure rt_can_rx_fifo where
  buffer : ℕ → rt_can_msg
  freenumbers : ℕ
  freelist : List ℕ
  uselist : List ℕ

/-- What has happened: the frames that Rx FIFO 0 accepted; those that came while the flag of a new
message was up, or whose flag was cleared unread; the messages that the handler got; those got for a
lost one; those whose node was used again; those for which there was no node; and the messages
taken from the list, by whom. -/
structure Log (κ : Type*) where
  accepted : List CANFD_RX_BUF_T
  unannounced : ℕ
  popped : List rt_can_msg
  extra : ℕ
  reused : ℕ
  noNode : ℕ
  taken : List (κ × rt_can_msg)

/-- The controller, the handler, the framework's lists and counters, and the readers with what they
have got. -/
structure State (κ : Type*) where
  fifo : List CANFD_RX_BUF_T
  ir : Flags
  isr : Isr
  can_rx : rt_can_rx_fifo
  rcvpkg : BitVec 32
  dropedrcvpkg : BitVec 32
  reader : κ → Reader
  got : κ → List rt_can_msg
  log : Log κ

variable {κ : Type*}

/-- A frame comes that passes the filters.  A full FIFO rejects it. -/
def State.arrive (s : State κ) (e : CANFD_RX_BUF_T) : State κ :=
  if s.fifo.length < u32RxFifo0 then
    { s with
      fifo := s.fifo ++ [e]
      ir := { s.ir with RF0N := true }
      log := { s.log with
        accepted := s.log.accepted ++ [e]
        unannounced := s.log.unannounced + s.ir.RF0N.toNat } }
  else { s with ir := { s.ir with RF0L := true } }

/-- `rt_hw_can_isr` puts a message on a node: a free one, or the one that has been on the list for
longest. -/
def State.store (s : State κ) (tmpmsg : rt_can_msg) : State κ :=
  match s.can_rx.freelist, s.can_rx.uselist with
  | listmsg :: free, use =>
    { s with can_rx := { s.can_rx with
        buffer := Function.update s.can_rx.buffer listmsg tmpmsg
        freenumbers := s.can_rx.freenumbers - 1
        freelist := free
        uselist := use ++ [listmsg] } }
  | [], listmsg :: use =>
    { s with
      dropedrcvpkg := s.dropedrcvpkg + 1
      can_rx := { s.can_rx with
        buffer := Function.update s.can_rx.buffer listmsg tmpmsg
        uselist := use ++ [listmsg] }
      log := { s.log with reused := s.log.reused + 1 } }
  | [], [] => { s with log := { s.log with noNode := s.log.noNode + 1 } }

/-- `nu_canfd_recvmsg`; it clears the flag of a lost message, if that is up. -/
def State.recvmsg (b : Build) (s : State κ) (tmpmsg : rt_can_msg) : Option (rt_can_msg × State κ) :=
  match s.fifo with
  | [] => none
  | e :: fifo =>
    let m := (received b e tmpmsg 0).1
    some (m, { s with
      fifo := fifo
      ir := { s.ir with RF0L := false }
      log := { s.log with popped := s.log.popped ++ [m] } })

/-- `rt_hw_can_isr` at `RT_CAN_EVENT_RX_IND`; `tmpmsg` is what its variable holds at first. -/
def State.rx_ind (b : Build) (s : State κ) (tmpmsg : rt_can_msg) : State κ :=
  match s.recvmsg b tmpmsg with
  | none => s
  | some (m, s) => State.store { s with rcvpkg := s.rcvpkg + 1 } m

/-- `rt_hw_can_isr` at `RT_CAN_EVENT_RXOF_IND`, before it goes on as at `RT_CAN_EVENT_RX_IND`. -/
def State.rxof_ind (s : State κ) : State κ :=
  { s with
    dropedrcvpkg := s.dropedrcvpkg + 1
    log := { s.log with extra := s.log.extra + 1 } }

/-- What can happen: a frame comes; the handler enters, clears, serves a new message and a lost one;
a thread asks for `msgs` messages, takes one, copies it and gives the node back. -/
inductive Op (κ : Type*)
  | arrive (e : CANFD_RX_BUF_T)
  | enter
  | clear
  | serveNew (tmpmsg : rt_can_msg)
  | serveLost (tmpmsg : rt_can_msg)
  | read (r : κ) (msgs : ℕ)
  | take (r : κ)
  | copy (r : κ)
  | put (r : κ)

/-- One step.  `CANFD_ClearStatusFlag` writes back all the flags that are up, so it clears
all. -/
def State.step [DecidableEq κ] (b : Build) (s : State κ) : Op κ → Option (State κ)
  | .arrive e => some (s.arrive e)
  | .enter =>
    match s.isr with
    | .idle => some { s with isr := .entered s.ir }
    | _ => none
  | .clear =>
    match s.isr with
    | .entered u32Status =>
      some { s with
        ir := ⟨false, false⟩
        isr := .cleared u32Status
        log := { s.log with unannounced := s.log.unannounced + (s.ir.RF0N && !u32Status.RF0N).toNat } }
    | _ => none
  | .serveNew tmpmsg =>
    match s.isr with
    | .cleared u32Status =>
      some { (if u32Status.RF0N then s.rx_ind b tmpmsg else s) with isr := .served u32Status }
    | _ => none
  | .serveLost tmpmsg =>
    match s.isr with
    | .served u32Status =>
      some { (if u32Status.RF0L then s.rxof_ind.rx_ind b tmpmsg else s) with isr := .idle }
    | _ => none
  | .read r msgs =>
    match s.isr, s.reader r with
    | .idle, .idle => some { s with reader := Function.update s.reader r (.reading msgs) }
    | _, _ => none
  | .take r =>
    match s.isr, s.reader r with
    | .idle, .reading 0 => some { s with reader := Function.update s.reader r .idle }
    | .idle, .reading (msgs + 1) =>
      match s.can_rx.uselist with
      | [] => some { s with reader := Function.update s.reader r .idle }
      | listmsg :: use =>
        some { s with
          can_rx := { s.can_rx with uselist := use }
          reader := Function.update s.reader r (.holding listmsg msgs)
          log := { s.log with taken := s.log.taken ++ [(r, s.can_rx.buffer listmsg)] } }
    | _, _ => none
  | .copy r =>
    match s.isr, s.reader r with
    | .idle, .holding listmsg msgs =>
      some { s with
        reader := Function.update s.reader r (.copied listmsg msgs)
        got := Function.update s.got r (s.got r ++ [s.can_rx.buffer listmsg]) }
    | _, _ => none
  | .put r =>
    match s.isr, s.reader r with
    | .idle, .copied listmsg msgs =>
      some { s with
        can_rx := { s.can_rx with
          freenumbers := s.can_rx.freenumbers + 1
          freelist := s.can_rx.freelist ++ [listmsg] }
        reader := Function.update s.reader r (.reading msgs) }
    | _, _ => none

/-- What `rt_can_open` makes of the list, with an idle controller. -/
def opened (msgboxsz : ℕ) (buffer : ℕ → rt_can_msg) : State κ where
  fifo := []
  ir := ⟨false, false⟩
  isr := .idle
  can_rx := ⟨buffer, msgboxsz, List.range msgboxsz, []⟩
  rcvpkg := 0
  dropedrcvpkg := 0
  reader := fun _ => .idle
  got := fun _ => []
  log := ⟨[], 0, [], 0, 0, 0, []⟩

/-! ### The controller's side -/

/-- The new messages that are flagged, or that the handler has still to serve. -/
def State.announced (s : State κ) : ℕ :=
  match s.isr with
  | .cleared u32Status => s.ir.RF0N.toNat + u32Status.RF0N.toNat
  | _ => s.ir.RF0N.toNat

/-- The losses that are flagged, or that the handler has still to serve. -/
def State.lost (s : State κ) : ℕ :=
  match s.isr with
  | .cleared u32Status | .served u32Status => s.ir.RF0L.toNat + u32Status.RF0L.toNat
  | _ => s.ir.RF0L.toNat

/-- A message that `nu_canfd_recvmsg` makes of a frame. -/
def MadeOf (b : Build) (e : CANFD_RX_BUF_T) (m : rt_can_msg) : Prop := ∃ tmpmsg, m = (received b e tmpmsg 0).1

/-- What holds on the controller's side. -/
structure Backlog (b : Build) (s : State κ) : Prop where
  entered : ∀ u32Status, s.isr = .entered u32Status →
    (u32Status.RF0N = true → s.ir.RF0N = true) ∧ (u32Status.RF0L = true → s.ir.RF0L = true)
  kept : s.fifo.length + s.log.extra = s.log.unannounced + s.announced
  extra : s.log.extra + s.lost ≤ s.log.unannounced
  frames : ∃ front, s.log.accepted = front ++ s.fifo ∧ List.Forall₂ (MadeOf b) front s.log.popped
  rcvpkg : s.rcvpkg = BitVec.ofNat 32 s.log.popped.length

/-- The controller's side is the same. -/
structure SameController (s s' : State κ) : Prop where
  fifo : s'.fifo = s.fifo
  ir : s'.ir = s.ir
  isr : s'.isr = s.isr
  rcvpkg : s'.rcvpkg = s.rcvpkg
  accepted : s'.log.accepted = s.log.accepted
  unannounced : s'.log.unannounced = s.log.unannounced
  popped : s'.log.popped = s.log.popped
  extra : s'.log.extra = s.log.extra

variable {b : Build} {s s' : State κ}

theorem Backlog.congr (h : Backlog b s) (hs : SameController s s') : Backlog b s' := by
  have hann : s'.announced = s.announced := by rw [State.announced, State.announced, hs.isr, hs.ir]
  have hlost : s'.lost = s.lost := by rw [State.lost, State.lost, hs.isr, hs.ir]
  constructor
  · rw [hs.isr, hs.ir]
    exact h.entered
  · rw [hs.fifo, hs.extra, hs.unannounced, hann]
    exact h.kept
  · rw [hs.extra, hs.unannounced, hlost]
    exact h.extra
  · rw [hs.accepted, hs.fifo, hs.popped]
    exact h.frames
  · rw [hs.rcvpkg, hs.popped]
    exact h.rcvpkg

theorem store_same (s : State κ) (m : rt_can_msg) : SameController s (s.store m) := by
  rw [State.store]
  split <;> exact ⟨rfl, rfl, rfl, rfl, rfl, rfl, rfl, rfl⟩

theorem announced_le (s : State κ) : s.announced ≤ 2 := by
  have hle := Bool.toNat_le s.ir.RF0N
  rw [State.announced]
  split
  · rename_i st _
    exact Nat.add_le_add hle (Bool.toNat_le st.RF0N)
  · omega

theorem lost_le (s : State κ) : s.lost ≤ 2 := by
  have hle := Bool.toNat_le s.ir.RF0L
  rw [State.lost]
  split
  · rename_i st _
    exact Nat.add_le_add hle (Bool.toNat_le st.RF0L)
  · rename_i st _
    exact Nat.add_le_add hle (Bool.toNat_le st.RF0L)
  · omega

/-- A frame comes. -/
theorem Backlog.arrive (h : Backlog b s) (e : CANFD_RX_BUF_T) : Backlog b (s.arrive e) := by
  obtain ⟨front, hacc, hall⟩ := h.frames
  have hkept := h.kept
  have hextra := h.extra
  rw [State.arrive]
  by_cases hfull : s.fifo.length < u32RxFifo0
  · rw [if_pos hfull]
    constructor
    · intro st hst
      exact ⟨fun _ => rfl, (h.entered st hst).2⟩
    · -- the flag goes up, or the frame counts as unannounced
      have hann : s.announced + 1 = s.ir.RF0N.toNat + State.announced { s with ir := { s.ir with RF0N := true } } := by
        simp only [State.announced]
        split
        · simp
          omega
        · simp
      simp only [State.announced] at hann hkept ⊢
      rw [List.length_append, List.length_singleton]
      omega
    · have hlost : State.lost { s with ir := { s.ir with RF0N := true } } = s.lost := rfl
      exact (hlost ▸ hextra).trans (Nat.le_add_right _ _)
    · exact ⟨front, by rw [hacc, List.append_assoc], hall⟩
    · exact h.rcvpkg
  · rw [if_neg hfull]
    constructor
    · intro st hst
      exact ⟨(h.entered st hst).1, fun _ => rfl⟩
    · exact hkept
    · -- the FIFO is full, nearly all of it unannounced
      refine (Nat.add_le_add_left (lost_le _) _).trans ?_
      have hann := announced_le s
      rw [u32RxFifo0] at hfull
      dsimp only
      omega
    · exact ⟨front, hacc, hall⟩
    · exact h.rcvpkg

/-- What `rx_ind` leaves of the controller's side. -/
def State.afterOne (b : Build) (s : State κ) (e : CANFD_RX_BUF_T) (fifo : List CANFD_RX_BUF_T)
    (tmpmsg : rt_can_msg) : State κ :=
  { s with
    fifo := fifo
    ir := { s.ir with RF0L := false }
    rcvpkg := s.rcvpkg + 1
    log := { s.log with popped := s.log.popped ++ [(received b e tmpmsg 0).1] } }

theorem rx_ind_eq {e : CANFD_RX_BUF_T} {fifo : List CANFD_RX_BUF_T} (hf : s.fifo = e :: fifo)
    (tmpmsg : rt_can_msg) :
    s.rx_ind b tmpmsg = (s.afterOne b e fifo tmpmsg).store (received b e tmpmsg 0).1 := by
  rw [State.rx_ind, State.recvmsg, hf]
  rfl

theorem SameController.setIsr (h : SameController s s') (isr : Isr) :
    SameController { s with isr := isr } { s' with isr := isr } :=
  ⟨h.fifo, h.ir, rfl, h.rcvpkg, h.accepted, h.unannounced, h.popped, h.extra⟩

theorem Backlog.frames_pop (h : Backlog b s) {e : CANFD_RX_BUF_T} {fifo : List CANFD_RX_BUF_T}
    (hf : s.fifo = e :: fifo) (tmpmsg : rt_can_msg) : ∃ front, s.log.accepted = front ++ fifo ∧
      List.Forall₂ (MadeOf b) front (s.log.popped ++ [(received b e tmpmsg 0).1]) := by
  obtain ⟨front, hacc, hall⟩ := h.frames
  refine ⟨front ++ [e], ?_, List.rel_append hall (.cons ⟨tmpmsg, rfl⟩ .nil)⟩
  rw [hacc, hf, List.append_assoc]
  rfl

theorem ofNat_add_one (n : ℕ) : BitVec.ofNat 32 n + 1 = BitVec.ofNat 32 (n + 1) := by
  rw [BitVec.ofNat_add]
  rfl

theorem Backlog.rcvpkg_pop (h : Backlog b s) (m : rt_can_msg) :
    s.rcvpkg + 1 = BitVec.ofNat 32 (s.log.popped ++ [m]).length := by
  rw [h.rcvpkg, List.length_append, List.length_singleton, ofNat_add_one]

/-- The handler enters. -/
theorem Backlog.enter (h : Backlog b s) (hi : s.isr = .idle) : Backlog b { s with isr := .entered s.ir } := by
  have hkept := h.kept
  have hextra := h.extra
  rw [State.announced, hi] at hkept
  rw [State.lost, hi] at hextra
  constructor
  · intro st hst
    cases hst
    exact ⟨id, id⟩
  · exact hkept
  · exact hextra
  · exact h.frames
  · exact h.rcvpkg

/-- It clears the flags. -/
theorem Backlog.clear (h : Backlog b s) {st : Flags} (hi : s.isr = .entered st) : Backlog b { s with
    ir := ⟨false, false⟩
    isr := .cleared st
    log := { s.log with unannounced := s.log.unannounced + (s.ir.RF0N && !st.RF0N).toNat } } := by
  have hkept := h.kept
  have hextra := h.extra
  obtain ⟨hnew, hlost⟩ := h.entered st hi
  simp only [State.announced, hi] at hkept
  simp only [State.lost, hi] at hextra
  constructor
  · intro st' hst
    cases hst
  · -- a flag that came up since `u32Status` was read is gone
    have hflag : s.ir.RF0N.toNat = (s.ir.RF0N && !st.RF0N).toNat + st.RF0N.toNat := by
      cases hn : st.RF0N with
      | true => simp [hnew hn]
      | false => simp
    simp only [State.announced, Bool.toNat_false]
    omega
  · have hflag : st.RF0L.toNat ≤ s.ir.RF0L.toNat := by
      cases hl : st.RF0L with
      | true => simp [hlost hl]
      | false => simp
    simp only [State.lost, Bool.toNat_false]
    omega
  · exact h.frames
  · exact h.rcvpkg

/-- It serves a new message. -/
theorem Backlog.serveNew (h : Backlog b s) {st : Flags} (hi : s.isr = .cleared st) (tmpmsg : rt_can_msg) :
    Backlog b { (if st.RF0N then s.rx_ind b tmpmsg else s) with isr := .served st } := by
  have hkept := h.kept
  have hextra := h.extra
  simp only [State.announced, hi] at hkept
  simp only [State.lost, hi] at hextra
  by_cases hn : st.RF0N = true
  · rw [hn, Bool.toNat_true] at hkept
    obtain ⟨e, fifo, hf⟩ : ∃ e fifo, s.fifo = e :: fifo := List.exists_cons_of_length_pos (by omega)
    rw [if_pos hn, rx_ind_eq hf]
    rw [hf, List.length_cons] at hkept
    refine Backlog.congr ?_ ((store_same (s.afterOne b e fifo tmpmsg) _).setIsr _)
    constructor
    · intro st' hst
      cases hst
    · simp only [State.afterOne, State.announced]
      omega
    · simp only [State.afterOne, State.lost, Bool.toNat_false]
      omega
    · exact h.frames_pop hf tmpmsg
    · exact h.rcvpkg_pop _
  · rw [if_neg hn]
    rw [Bool.eq_false_iff.mpr hn, Bool.toNat_false] at hkept
    constructor
    · intro st' hst
      cases hst
    · exact hkept
    · exact hextra
    · exact h.frames
    · exact h.rcvpkg

/-- It serves a lost message. -/
theorem Backlog.serveLost (h : Backlog b s) {st : Flags} (hi : s.isr = .served st) (tmpmsg : rt_can_msg) :
    Backlog b { (if st.RF0L then s.rxof_ind.rx_ind b tmpmsg else s) with isr := .idle } := by
  have hkept := h.kept
  have hextra := h.extra
  simp only [State.announced, hi] at hkept
  simp only [State.lost, hi] at hextra
  by_cases hl : st.RF0L = true
  · rw [hl, Bool.toNat_true] at hextra
    obtain ⟨e, fifo, hf⟩ : ∃ e fifo, s.rxof_ind.fifo = e :: fifo := List.exists_cons_of_length_pos (by
      simp only [State.rxof_ind]
      omega)
    rw [if_pos hl, rx_ind_eq hf]
    have hf' : s.fifo = e :: fifo := hf
    rw [hf', List.length_cons] at hkept
    refine Backlog.congr ?_ ((store_same (s.rxof_ind.afterOne b e fifo tmpmsg) _).setIsr _)
    constructor
    · intro st' hst
      cases hst
    · simp only [State.afterOne, State.rxof_ind, State.announced]
      omega
    · simp only [State.afterOne, State.rxof_ind, State.lost, Bool.toNat_false]
      omega
    · exact h.frames_pop hf' tmpmsg
    · exact h.rcvpkg_pop _
  · rw [if_neg hl]
    rw [Bool.eq_false_iff.mpr hl, Bool.toNat_false] at hextra
    constructor
    · intro st' hst
      cases hst
    · exact hkept
    · exact hextra
    · exact h.frames
    · exact h.rcvpkg

theorem Backlog.step [DecidableEq κ] (h : Backlog b s) {op : Op κ} (hs : s.step b op = some s') : Backlog b s' := by
  cases op with
  | arrive e =>
    obtain rfl := Option.some_inj.mp hs
    exact h.arrive e
  | enter =>
    simp only [State.step] at hs
    split at hs
    · rename_i hi
      obtain rfl := Option.some_inj.mp hs
      exact h.enter hi
    · cases hs
  | clear =>
    simp only [State.step] at hs
    split at hs
    · rename_i st hi
      obtain rfl := Option.some_inj.mp hs
      exact h.clear hi
    · cases hs
  | serveNew tmpmsg =>
    simp only [State.step] at hs
    split at hs
    · rename_i st hi
      obtain rfl := Option.some_inj.mp hs
      exact h.serveNew hi tmpmsg
    · cases hs
  | serveLost tmpmsg =>
    simp only [State.step] at hs
    split at hs
    · rename_i st hi
      obtain rfl := Option.some_inj.mp hs
      exact h.serveLost hi tmpmsg
    · cases hs
  | read r msgs =>
    simp only [State.step] at hs
    split at hs
    · obtain rfl := Option.some_inj.mp hs
      exact h.congr ⟨rfl, rfl, rfl, rfl, rfl, rfl, rfl, rfl⟩
    · cases hs
  | take r =>
    simp only [State.step] at hs
    split at hs
    · obtain rfl := Option.some_inj.mp hs
      exact h.congr ⟨rfl, rfl, rfl, rfl, rfl, rfl, rfl, rfl⟩
    · split at hs
      · obtain rfl := Option.some_inj.mp hs
        exact h.congr ⟨rfl, rfl, rfl, rfl, rfl, rfl, rfl, rfl⟩
      · obtain rfl := Option.some_inj.mp hs
        exact h.congr ⟨rfl, rfl, rfl, rfl, rfl, rfl, rfl, rfl⟩
    · cases hs
  | copy r =>
    simp only [State.step] at hs
    split at hs
    · obtain rfl := Option.some_inj.mp hs
      exact h.congr ⟨rfl, rfl, rfl, rfl, rfl, rfl, rfl, rfl⟩
    · cases hs
  | put r =>
    simp only [State.step] at hs
    split at hs
    · obtain rfl := Option.some_inj.mp hs
      exact h.congr ⟨rfl, rfl, rfl, rfl, rfl, rfl, rfl, rfl⟩
    · cases hs

/-! ### The framework's side -/

/-- The node that a reader has in hand. -/
def Reader.nodes : Reader → Multiset ℕ
  | .holding listmsg _ | .copied listmsg _ => {listmsg}
  | .idle | .reading _ => 0

/-- The message that a reader has taken and not copied. -/
def Reader.message (buffer : ℕ → rt_can_msg) : Reader → List rt_can_msg
  | .holding listmsg _ => [buffer listmsg]
  | .idle | .reading _ | .copied _ _ => []

/-- The messages that a reader has taken. -/
def Log.by [DecidableEq κ] (l : Log κ) (r : κ) : List rt_can_msg :=
  (l.taken.filter fun a => a.1 = r).map Prod.snd

/-- What holds of the framework's list of `msgboxsz` nodes. -/
structure Lists [DecidableEq κ] [Fintype κ] (msgboxsz : ℕ) (s : State κ) : Prop where
  nodes : Shares.total ((s.can_rx.freelist : Multiset ℕ) + s.can_rx.uselist) (Reader.nodes ∘ s.reader) =
    Multiset.range msgboxsz
  freenumbers : s.can_rx.freenumbers = s.can_rx.freelist.length
  order : (s.log.taken.map Prod.snd ++ s.can_rx.uselist.map s.can_rx.buffer).Sublist s.log.popped
  count : s.log.popped.length = s.log.taken.length + s.can_rx.uselist.length + s.log.reused + s.log.noNode
  droped : s.dropedrcvpkg = BitVec.ofNat 32 (s.log.reused + s.log.extra)
  got : ∀ r, s.got r ++ (s.reader r).message s.can_rx.buffer = s.log.by r
  noNode : Fintype.card κ < msgboxsz → s.log.noNode = 0

variable [DecidableEq κ] [Fintype κ] {msgboxsz : ℕ}

/-- A node on a list is nowhere else. -/
theorem Lists.alone (h : Lists msgboxsz s) {n : ℕ} {rest : Multiset ℕ}
    (hn : (s.can_rx.freelist : Multiset ℕ) + s.can_rx.uselist = n ::ₘ rest) :
    n ∉ rest ∧ ∀ r, n ∉ (s.reader r).nodes := by
  have hd : (n ::ₘ rest + ∑ r, (s.reader r).nodes).Nodup := by
    have hnodes := h.nodes
    rw [hn, Shares.total] at hnodes
    have hrange := Multiset.nodup_range msgboxsz
    rwa [← hnodes] at hrange
  rw [Multiset.cons_add, Multiset.nodup_cons, Multiset.mem_add, not_or] at hd
  obtain ⟨⟨hrest, hsum⟩, -⟩ := hd
  refine ⟨hrest, fun r hr => hsum ?_⟩
  exact Multiset.mem_sum.mpr ⟨r, Finset.mem_univ r, hr⟩

/-- Writing to a node leaves what the readers have in hand. -/
theorem message_update {n : ℕ} {x : Reader} (hn : n ∉ x.nodes) (buffer : ℕ → rt_can_msg) (m : rt_can_msg) :
    x.message (Function.update buffer n m) = x.message buffer := by
  cases x with
  | idle | reading msgs | copied listmsg msgs => rfl
  | holding listmsg msgs =>
    rw [Reader.message, Reader.message, Function.update_of_ne]
    rintro rfl
    exact hn (Multiset.mem_singleton_self listmsg)

theorem map_update_of_not_mem {n : ℕ} {l : List ℕ} (hn : n ∉ l) (buffer : ℕ → rt_can_msg) (m : rt_can_msg) :
    (l ++ [n]).map (Function.update buffer n m) = l.map buffer ++ [m] := by
  rw [List.map_append, List.map_singleton, Function.update_self]
  congr 1
  refine List.map_congr_left fun a ha => Function.update_of_ne ?_ m buffer
  rintro rfl
  exact hn ha

theorem coe_append_singleton (l : List ℕ) (n : ℕ) : (↑(l ++ [n]) : Multiset ℕ) = n ::ₘ ↑l := by
  rw [← Multiset.coe_add, Multiset.coe_singleton, add_comm, Multiset.singleton_add]

/-- With fewer readers than nodes there is a node for every message. -/
theorem Lists.some_node (h : Lists msgboxsz s) (hcard : Fintype.card κ < msgboxsz) :
    0 < s.can_rx.freelist.length + s.can_rx.uselist.length := by
  have hnodes := congrArg Multiset.cardHom h.nodes
  rw [Shares.map_total] at hnodes
  simp only [map_add, Multiset.cardHom_apply, Multiset.coe_card, Multiset.card_range] at hnodes
  refine Shares.pool_pos hnodes (fun r => ?_) hcard
  rw [Function.comp_apply]
  cases s.reader r with
  | idle | reading msgs => exact Nat.zero_le 1
  | holding listmsg msgs | copied listmsg msgs => exact le_refl 1

/-- The handler puts a message on the list. -/
theorem Lists.store (h : Lists msgboxsz s) (e : CANFD_RX_BUF_T) (fifo : List CANFD_RX_BUF_T) (tmpmsg : rt_can_msg) :
    Lists msgboxsz ((s.afterOne b e fifo tmpmsg).store (received b e tmpmsg 0).1) := by
  obtain ⟨m, hm⟩ : ∃ m, (received b e tmpmsg 0).1 = m := ⟨_, rfl⟩
  have hnodes := h.nodes
  have hfree := h.freenumbers
  have horder := h.order
  have hcount := h.count
  rw [State.store, State.afterOne, hm]
  dsimp only
  split
  · rename_i n free hl
    rw [hl] at hnodes hfree
    have hpool : (↑(n :: free) : Multiset ℕ) + s.can_rx.uselist = n ::ₘ (free + s.can_rx.uselist) := by
      rw [← Multiset.cons_coe, Multiset.cons_add]
    obtain ⟨hrest, hhand⟩ := h.alone (hl ▸ hpool)
    have huse : n ∉ s.can_rx.uselist := fun hu => hrest (Multiset.mem_add.mpr (Or.inr hu))
    constructor
    · dsimp only
      rw [coe_append_singleton, Multiset.add_cons, ← hpool]
      exact hnodes
    · dsimp only
      rw [hfree, List.length_cons, Nat.add_sub_cancel]
    · dsimp only
      rw [map_update_of_not_mem huse, ← List.append_assoc]
      exact horder.append (List.Sublist.refl [m])
    · simp only [List.length_append, List.length_singleton]
      omega
    · exact h.droped
    · intro r
      rw [message_update (hhand r)]
      exact h.got r
    · exact h.noNode
  · rename_i n use hl hu
    rw [hl, hu] at hnodes
    have hpool : (↑([] : List ℕ) : Multiset ℕ) + ↑(n :: use) = n ::ₘ ↑use := by
      rw [← Multiset.cons_coe, Multiset.coe_nil, zero_add]
    obtain ⟨hrest, hhand⟩ := h.alone (hl ▸ hu ▸ hpool)
    have huse : n ∉ use := hrest
    rw [hu] at horder hcount
    constructor
    · dsimp only
      rw [coe_append_singleton, hl, Multiset.cons_coe]
      exact hnodes
    · exact hfree
    · dsimp only
      rw [map_update_of_not_mem huse, ← List.append_assoc]
      refine List.Sublist.append ?_ (List.Sublist.refl [m])
      exact ((List.Sublist.refl _).append (List.sublist_cons_self _ _)).trans horder
    · simp only [List.length_append, List.length_cons, List.length_nil] at hcount ⊢
      omega
    · dsimp only
      rw [h.droped, ofNat_add_one, Nat.add_right_comm]
    · intro r
      rw [message_update (hhand r)]
      exact h.got r
    · exact h.noNode
  · rename_i hl hu
    constructor
    · exact h.nodes
    · exact h.freenumbers
    · exact horder.trans (List.sublist_append_left _ _)
    · simp only [List.length_append, List.length_singleton]
      omega
    · exact h.droped
    · exact h.got
    · intro hcard
      have hpos := h.some_node hcard
      rw [hl, hu] at hpos
      exact absurd hpos (lt_irrefl 0)

/-- The framework's side is the same. -/
theorem Lists.congr (h : Lists msgboxsz s) (hrx : s'.can_rx = s.can_rx) (hreader : s'.reader = s.reader)
    (hgot : s'.got = s.got) (hdrop : s'.dropedrcvpkg = s.dropedrcvpkg) (hpopped : s'.log.popped = s.log.popped)
    (htaken : s'.log.taken = s.log.taken) (hreused : s'.log.reused = s.log.reused)
    (hextra : s'.log.extra = s.log.extra) (hnone : s'.log.noNode = s.log.noNode) : Lists msgboxsz s' := by
  constructor
  · rw [hrx, hreader]
    exact h.nodes
  · rw [hrx]
    exact h.freenumbers
  · rw [hrx, hpopped, htaken]
    exact h.order
  · rw [hrx, hpopped, htaken, hreused, hnone]
    exact h.count
  · rw [hdrop, hreused, hextra]
    exact h.droped
  · intro r
    rw [hrx, hreader, hgot, Log.by, htaken]
    exact h.got r
  · rw [hnone]
    exact h.noNode

theorem Lists.setIsr (h : Lists msgboxsz s) (isr : Isr) : Lists msgboxsz { s with isr := isr } :=
  h.congr rfl rfl rfl rfl rfl rfl rfl rfl rfl

theorem Lists.rx_ind (h : Lists msgboxsz s) (tmpmsg : rt_can_msg) : Lists msgboxsz (s.rx_ind b tmpmsg) := by
  cases hf : s.fifo with
  | nil =>
    rw [State.rx_ind, State.recvmsg, hf]
    exact h
  | cons e fifo =>
    rw [rx_ind_eq hf]
    exact h.store e fifo tmpmsg

theorem Lists.rxof_ind (h : Lists msgboxsz s) : Lists msgboxsz s.rxof_ind := by
  refine ⟨h.nodes, h.freenumbers, h.order, h.count, ?_, h.got, h.noNode⟩
  rw [State.rxof_ind, h.droped, ofNat_add_one, Nat.add_assoc]

/-- A reader goes on without a node. -/
theorem Lists.setReader (h : Lists msgboxsz s) {r : κ} {x : Reader} (hx : x.nodes = (s.reader r).nodes)
    (hm : x.message s.can_rx.buffer = (s.reader r).message s.can_rx.buffer) :
    Lists msgboxsz { s with reader := Function.update s.reader r x } := by
  refine ⟨?_, h.freenumbers, h.order, h.count, h.droped, ?_, h.noNode⟩
  · dsimp only
    rw [Function.comp_update, hx]
    exact (congrArg _ (Function.update_eq_self r (Reader.nodes ∘ s.reader))).trans h.nodes
  · intro r'
    dsimp only
    by_cases hr : r' = r
    · rw [hr, Function.update_self, hm]
      exact h.got r
    · rw [Function.update_of_ne hr]
      exact h.got r'

/-- A reader takes the first message of the list. -/
theorem Lists.take (h : Lists msgboxsz s) {r : κ} {msgs n : ℕ} {use : List ℕ} (hr : s.reader r = .reading (msgs + 1))
    (hu : s.can_rx.uselist = n :: use) : Lists msgboxsz { s with
      can_rx := { s.can_rx with uselist := use }
      reader := Function.update s.reader r (.holding n msgs)
      log := { s.log with taken := s.log.taken ++ [(r, s.can_rx.buffer n)] } } := by
  have horder := h.order
  have hcount := h.count
  rw [hu] at horder hcount
  constructor
  · dsimp only
    rw [Function.comp_update]
    refine (Shares.move ?_).trans h.nodes
    rw [Function.comp_apply, hr, hu, ← Multiset.cons_coe, Multiset.add_cons, ← Multiset.singleton_add]
    simp only [Reader.nodes]
    abel
  · exact h.freenumbers
  · dsimp only
    rw [List.map_append, List.append_assoc]
    exact horder
  · simp only [List.length_append, List.length_cons, List.length_nil] at hcount ⊢
    omega
  · exact h.droped
  · intro r'
    have hgot := h.got r'
    dsimp only
    rw [Log.by, List.filter_append, List.map_append]
    by_cases hr' : r' = r
    · subst hr'
      rw [hr] at hgot
      rw [Function.update_self, ← Log.by, ← hgot]
      simp [Reader.message]
    · rw [Function.update_of_ne hr', hgot, Log.by]
      simp [Ne.symm hr']
  · exact h.noNode

/-- It copies the message. -/
theorem Lists.copy (h : Lists msgboxsz s) {r : κ} {n msgs : ℕ} (hr : s.reader r = .holding n msgs) :
    Lists msgboxsz { s with
      reader := Function.update s.reader r (.copied n msgs)
      got := Function.update s.got r (s.got r ++ [s.can_rx.buffer n]) } := by
  refine ⟨?_, h.freenumbers, h.order, h.count, h.droped, ?_, h.noNode⟩
  · dsimp only
    rw [Function.comp_update]
    refine (Shares.move ?_).trans h.nodes
    rw [Function.comp_apply, hr]
    rfl
  · intro r'
    have hgot := h.got r'
    dsimp only
    by_cases hr' : r' = r
    · subst hr'
      rw [hr] at hgot
      rw [Function.update_self, Function.update_self, Reader.message, List.append_nil]
      exact hgot
    · rw [Function.update_of_ne hr', Function.update_of_ne hr']
      exact hgot

/-- It gives the node back. -/
theorem Lists.put (h : Lists msgboxsz s) {r : κ} {n msgs : ℕ} (hr : s.reader r = .copied n msgs) :
    Lists msgboxsz { s with
      can_rx := { s.can_rx with
        freenumbers := s.can_rx.freenumbers + 1
        freelist := s.can_rx.freelist ++ [n] }
      reader := Function.update s.reader r (.reading msgs) } := by
  refine ⟨?_, ?_, h.order, h.count, h.droped, ?_, h.noNode⟩
  · dsimp only
    rw [Function.comp_update]
    refine (Shares.move ?_).trans h.nodes
    rw [Function.comp_apply, hr, coe_append_singleton, ← Multiset.singleton_add]
    simp only [Reader.nodes]
    abel
  · dsimp only
    rw [h.freenumbers, List.length_append, List.length_singleton]
  · intro r'
    have hgot := h.got r'
    dsimp only
    by_cases hr' : r' = r
    · subst hr'
      rw [hr] at hgot
      rw [Function.update_self]
      exact hgot
    · rw [Function.update_of_ne hr']
      exact hgot

theorem Lists.step (h : Lists msgboxsz s) {op : Op κ} (hs : s.step b op = some s') : Lists msgboxsz s' := by
  cases op with
  | arrive e =>
    obtain rfl := Option.some_inj.mp hs
    rw [State.arrive]
    split
    · exact h.congr rfl rfl rfl rfl rfl rfl rfl rfl rfl
    · exact h.congr rfl rfl rfl rfl rfl rfl rfl rfl rfl
  | enter =>
    simp only [State.step] at hs
    split at hs
    · obtain rfl := Option.some_inj.mp hs
      exact h.setIsr _
    · cases hs
  | clear =>
    simp only [State.step] at hs
    split at hs
    · obtain rfl := Option.some_inj.mp hs
      exact h.congr rfl rfl rfl rfl rfl rfl rfl rfl rfl
    · cases hs
  | serveNew tmpmsg =>
    simp only [State.step] at hs
    split at hs
    · rename_i st hi
      obtain rfl := Option.some_inj.mp hs
      refine Lists.setIsr ?_ _
      split
      · exact h.rx_ind tmpmsg
      · exact h
    · cases hs
  | serveLost tmpmsg =>
    simp only [State.step] at hs
    split at hs
    · rename_i st hi
      obtain rfl := Option.some_inj.mp hs
      refine Lists.setIsr ?_ _
      split
      · exact h.rxof_ind.rx_ind tmpmsg
      · exact h
    · cases hs
  | read r msgs =>
    simp only [State.step] at hs
    split at hs
    · rename_i hr
      obtain rfl := Option.some_inj.mp hs
      exact h.setReader (by rw [hr]; rfl) (by rw [hr]; rfl)
    · cases hs
  | take r =>
    simp only [State.step] at hs
    split at hs
    · rename_i hr
      obtain rfl := Option.some_inj.mp hs
      exact h.setReader (by rw [hr]; rfl) (by rw [hr]; rfl)
    · rename_i msgs hi hr
      split at hs
      · obtain rfl := Option.some_inj.mp hs
        exact h.setReader (by rw [hr]; rfl) (by rw [hr]; rfl)
      · rename_i n use hu
        obtain rfl := Option.some_inj.mp hs
        exact h.take hr hu
    · cases hs
  | copy r =>
    simp only [State.step] at hs
    split at hs
    · rename_i n msgs hi hr
      obtain rfl := Option.some_inj.mp hs
      exact h.copy hr
    · cases hs
  | put r =>
    simp only [State.step] at hs
    split at hs
    · rename_i n msgs hi hr
      obtain rfl := Option.some_inj.mp hs
      exact h.put hr
    · cases hs

/-! ### Runs -/

omit [DecidableEq κ] [Fintype κ] in
theorem opened_backlog (buffer : ℕ → rt_can_msg) : Backlog b (opened (κ := κ) msgboxsz buffer) := by
  refine ⟨?_, rfl, le_refl 0, ⟨[], rfl, .nil⟩, rfl⟩
  intro st hst
  cases hst

theorem opened_lists (buffer : ℕ → rt_can_msg) : Lists msgboxsz (opened (κ := κ) msgboxsz buffer) := by
  refine ⟨?_, List.length_range.symm, List.Sublist.refl _, rfl, rfl, fun _ => rfl, fun _ => rfl⟩
  have hzero : (Reader.nodes ∘ (opened (κ := κ) msgboxsz buffer).reader) = fun _ => 0 := rfl
  rw [hzero, Shares.total, Finset.sum_const_zero, add_zero]
  exact add_zero _

omit [Fintype κ] in
/-- What came unannounced stays counted. -/
theorem unannounced_le {op : Op κ} (hs : s.step b op = some s') : s.log.unannounced ≤ s'.log.unannounced := by
  have hind : ∀ (σ : State κ) tmpmsg, (σ.rx_ind b tmpmsg).log.unannounced = σ.log.unannounced := by
    intro σ tmpmsg
    cases hf : σ.fifo with
    | nil => rw [State.rx_ind, State.recvmsg, hf]
    | cons e fifo =>
      rw [rx_ind_eq hf]
      exact (store_same _ _).unannounced
  cases op with
  | arrive e =>
    obtain rfl := Option.some_inj.mp hs
    rw [State.arrive]
    split
    · exact Nat.le_add_right _ _
    · exact le_refl _
  | serveNew tmpmsg =>
    simp only [State.step] at hs
    split at hs
    · obtain rfl := Option.some_inj.mp hs
      dsimp only
      split
      · exact (hind s tmpmsg).ge
      · exact le_refl _
    · cases hs
  | serveLost tmpmsg =>
    simp only [State.step] at hs
    split at hs
    · obtain rfl := Option.some_inj.mp hs
      dsimp only
      split
      · exact (hind s.rxof_ind tmpmsg).ge
      · exact le_refl _
    · cases hs
  | clear =>
    simp only [State.step] at hs
    split at hs
    · obtain rfl := Option.some_inj.mp hs
      exact Nat.le_add_right _ _
    · cases hs
  | enter | read | copy | put =>
    simp only [State.step] at hs
    split at hs
    · obtain rfl := Option.some_inj.mp hs
      exact le_refl _
    · cases hs
  | take r =>
    simp only [State.step] at hs
    split at hs
    · obtain rfl := Option.some_inj.mp hs
      exact le_refl _
    · split at hs
      · obtain rfl := Option.some_inj.mp hs
        exact le_refl _
      · obtain rfl := Option.some_inj.mp hs
        exact le_refl _
    · cases hs

omit [Fintype κ] in
/-- **A frame that comes while the flag is up leaves Rx FIFO 0 one frame behind for good**: the handler
takes one message for the flag, however many have come, so from any state on, the FIFO holds as
many frames as have come unannounced until then, less those taken for a lost one.  What the handler
takes are the frames accepted, in order, and each time it looks for a message there is one. -/
theorem left_behind {buffer : ℕ → rt_can_msg} (h : Reachable (State.step b) (opened msgboxsz buffer) s) (h' : Reachable (State.step b) s s') :
    s.log.unannounced ≤ s'.fifo.length + s'.log.extra ∧
    (∃ front, s'.log.accepted = front ++ s'.fifo ∧ List.Forall₂ (MadeOf b) front s'.log.popped) ∧
    (∀ u32Status, s'.isr = .cleared u32Status → u32Status.RF0N = true → s'.fifo ≠ []) ∧
    ∀ u32Status, s'.isr = .served u32Status → u32Status.RF0L = true → s'.fifo ≠ [] := by
  have hb := (h.trans h').inv (opened_backlog buffer) fun _ _ _ hb hs => hb.step hs
  have hkept := hb.kept
  have hextra := hb.extra
  refine ⟨?_, hb.frames, ?_, ?_⟩
  · have hle : s.log.unannounced ≤ s'.log.unannounced :=
      h'.inv (I := fun σ => s.log.unannounced ≤ σ.log.unannounced) (le_refl _)
        fun _ _ _ hle hs => hle.trans (unannounced_le hs)
    omega
  · intro st hst hn hf
    simp only [State.announced, hst, hn, hf, Bool.toNat_true, List.length_nil] at hkept
    omega
  · intro st hst hl hf
    simp only [State.lost, hst, hl, Bool.toNat_true] at hextra
    rw [hf, List.length_nil] at hkept
    omega

/-- A build without `RT_CAN_USING_HDR`. -/
def plainBuild : Build := { classicBuild with RT_CAN_USING_HDR := false }

/-- Two frames come before the handler runs; a thread reads what it takes. -/
def twoFrames : List (Op Unit) := [.arrive (.ofWords fun _ => 0), .arrive (.ofWords fun _ => 1)]

def served : List (Op Unit) :=
  [.enter, .clear, .serveNew threeBytes, .serveLost threeBytes, .read () 2, .take (), .copy (), .put (), .take ()]

def afterTwo : State Unit := (Reachable.run (State.step plainBuild) (opened 2 fun _ => threeBytes) twoFrames).getD (opened 2 fun _ => threeBytes)

def afterServed : State Unit := (Reachable.run (State.step plainBuild) afterTwo served).getD afterTwo

theorem afterTwo_reached : Reachable (State.step plainBuild) (opened 2 fun _ => threeBytes) afterTwo :=
  Reachable.of_run twoFrames .start rfl

theorem afterServed_reached : Reachable (State.step plainBuild) afterTwo afterServed := Reachable.of_run served .start rfl

theorem left_behind_one : 1 ≤ afterServed.fifo.length + 0 := (left_behind afterTwo_reached afterServed_reached).1

/-- **Messages through the framework's list**: its nodes are on one list or in one thread's hands; the
threads together take the messages that the handler got in order, and each gets the ones it takes;
`dropedrcvpkg` counts those whose node was used again and those the controller lost, and with fewer
threads than nodes none is dropped uncounted.  If no node was used again, none is dropped. -/
theorem messages_kept {buffer : ℕ → rt_can_msg} (h : Reachable (State.step b) (opened msgboxsz buffer) s) :
    Lists msgboxsz s ∧ (Fintype.card κ < msgboxsz → s.log.reused = 0 →
      s.log.taken.map Prod.snd ++ s.can_rx.uselist.map s.can_rx.buffer = s.log.popped) := by
  have hl := h.inv (opened_lists buffer) fun _ _ _ hl hs => hl.step hs
  refine ⟨hl, fun hcard hreused => hl.order.eq_of_length ?_⟩
  have hnone := hl.noNode hcard
  rw [hl.count, hnone, hreused, List.length_append, List.length_map, List.length_map]
  rfl

theorem messages_kept_one : afterServed.log.taken.map Prod.snd ++ [] = afterServed.log.popped := by
  have h : Reachable (State.step plainBuild) (opened 2 fun _ => threeBytes) afterServed :=
    Reachable.of_run (twoFrames ++ served) .start rfl
  exact (messages_kept h).2 (by decide) rfl

/-! ### The driver's side -/

/-- What the registers and the message RAM show of the FIFO. -/
def Presents (can : nu_canfd) (fifo : List CANFD_RX_BUF_T) : Prop :=
  (can.Pending ↔ fifo ≠ []) ∧ ∀ e ∈ fifo.head?, can.rxElem = e

omit [DecidableEq κ] [Fintype κ] in
/-- `recvmsg` is what `nu_canfd_recvmsg` does on a controller with this FIFO. -/
theorem recvmsg_eq {can : nu_canfd} (h : Presents can s.fifo) (tmpmsg : rt_can_msg) :
    (s.recvmsg b tmpmsg = none ∧ (nu_canfd_recvmsg b can tmpmsg 0).1 = -RT_ERROR) ∨
    ∃ m s', s.recvmsg b tmpmsg = some (m, s') ∧ (nu_canfd_recvmsg b can tmpmsg 0).1 = RT_EOK ∧
      (nu_canfd_recvmsg b can tmpmsg 0).2.1 = m := by
  cases hf : s.fifo with
  | nil =>
    refine Or.inl ⟨by rw [State.recvmsg, hf], ?_⟩
    have hp : ¬ field can.port.ctl.RXF0S 0 7 > 0 := fun hp => (h.1.mp hp) hf
    rw [nu_canfd_recvmsg, CANFD_Transfer_RF0, if_neg hp]
  | cons e fifo =>
    have hp : can.Pending := h.1.mpr (by rw [hf]; exact List.cons_ne_nil e fifo)
    have he : can.rxElem = e := h.2 e (by rw [hf]; rfl)
    obtain ⟨can', hr⟩ := nu_canfd_recvmsg_pending b hp tmpmsg 0
    refine Or.inr ⟨_, _, by rw [State.recvmsg, hf], ?_, ?_⟩
    · rw [hr]
    · rw [hr, he]

end Canfd.Rx
