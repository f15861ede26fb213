/-
Transmission, from the writers to the controller.

A thread that writes takes the semaphore, a send box off the list, and hands its message to the
controller's buffer of that number; then it waits for the box.  The handler does not know which
buffer has been sent: for the flag of a transmission it completes box 0.
-/
import NuMaker.Canfd.Frames
import NuMaker.Lib.Shares
import NuMaker.Lib.Reach
import Mathlib.Data.Multiset.Range

namespace Canfd.Tx

/-- `RT_CAN_SND_RESULT_OK`, `RT_CAN_SND_RESULT_ERR` and `RT_CAN_SND_RESULT_WAIT`. -/
inductive SndResult
  | OK
  | ERR
  | WAIT
  deriving DecidableEq

/-- `struct rt_can_sndbxinx_list`; `completion` is the flag of it. -/
structure rt_can_sndbxinx_list where
  result : SndResult
  completion : Bool

/-- The flags of `IR` that lead to an event: a transmission completed; the Tx event FIFO full, or a
timeout. -/
structure Flags where
  TC : Bool
  FAIL : Bool

/-- Where `nu_canfd_isr` is, with the `u32Status` that it has read. -/
inductive Isr
  | idle
  | entered (u32Status : Flags)
  | cleared (u32Status : Flags)
  | served (u32Status : Flags)

/-- Where a thread is in `_can_int_tx` with a box: it has taken it off the list, set its result,
initialised its completion, handed the message over, and been woken. -/
inductive Pc
  | taken
  | marked
  | ready
  | sent
  | woken

/-- Where a thread is in `_can_int_tx`, with the message in hand and the ones after it.  At the end of a
round the box is on the list again, and the semaphore is still to be released; `none` is for a
message that `sendmsg` refused. -/
inductive Writer
  | idle
  | writing (data : List rt_can_msg)
  | granted (m : rt_can_msg) (data : List rt_can_msg)
  | busy (pc : Pc) (no : ℕ) (m : rt_can_msg) (data : List rt_can_msg)
  | listed (result : Option SndResult) (data : List rt_can_msg)

/-- What has happened: the messages asked for, by thread; those handed over, by whom; those on the bus;
the flags of a transmission that were cleared unread, and the failures flagged. -/
structure Log (κ : Type*) where
  requested : κ → List rt_can_msg
  sent : List (κ × rt_can_msg)
  bus : List rt_can_msg
  unread : ℕ
  faults : ℕ

/-- The controller's buffers, the handler, `struct rt_can_tx_fifo` with the framework's counters, and the
writers. -/
structure State (κ : Type*) where
  pending : ℕ → Option rt_can_msg
  ir : Flags
  isr : Isr
  sem : ℕ
  freelist : List ℕ
  buffer : ℕ → rt_can_sndbxinx_list
  sndpkg : BitVec 32
  dropedsndpkg : BitVec 32
  writer : κ → Writer
  log : Log κ

variable {κ : Type*}

/-- `rt_hw_can_isr` at `RT_CAN_EVENT_TX_DONE` and `RT_CAN_EVENT_TX_FAIL`: the events of `nu_canfd_isr` have
no box number above the event. -/
def State.tx_event (s : State κ) (result : SndResult) : State κ :=
  { s with buffer := Function.update s.buffer 0 ⟨result, true⟩ }

/-- `sendmsg` with buffer `no`, as far as it can fail. -/
def State.accepts (s : State κ) (no : ℕ) : Bool := decide (no < CANFD_MAX_TX_BUF_ELEMS) && (s.pending no).isNone

/-- The writer goes on. -/
def State.goto [DecidableEq κ] (s : State κ) (w : κ) (x : Writer) : State κ :=
  { s with writer := Function.update s.writer w x }

/-- The next step of a thread, if it does not have to wait.  `listmsg` of an empty list is not a
box. -/
def State.next [DecidableEq κ] (s : State κ) (w : κ) : Option (State κ) :=
  match s.writer w with
  | .idle => none
  | .writing [] => some (s.goto w .idle)
  | .writing (m :: data) => if 0 < s.sem then some { s.goto w (.granted m data) with sem := s.sem - 1 } else none
  | .granted m data =>
    match s.freelist with
    | [] => none
    | no :: free => some { s.goto w (.busy .taken no m data) with freelist := free }
  | .busy .taken no m data => some { s.goto w (.busy .marked no m data) with
      buffer := Function.update s.buffer no { s.buffer no with result := .WAIT } }
  | .busy .marked no m data => some { s.goto w (.busy .ready no m data) with
      buffer := Function.update s.buffer no { s.buffer no with completion := false } }
  | .busy .ready no m data =>
    if s.accepts no then
      some { s.goto w (.busy .sent no m data) with
        pending := Function.update s.pending no (some m)
        log := { s.log with sent := s.log.sent ++ [(w, m)] } }
    else some { s.goto w (.listed none data) with freelist := s.freelist ++ [no] }
  | .busy .sent no m data =>
    if (s.buffer no).completion then
      some { s.goto w (.busy .woken no m data) with
        buffer := Function.update s.buffer no { s.buffer no with completion := false } }
    else none
  | .busy .woken no _ data =>
    some { s.goto w (.listed (some (s.buffer no).result) data) with freelist := s.freelist ++ [no] }
  | .listed (some .OK) data => some { s.goto w (.writing data) with sem := s.sem + 1, sndpkg := s.sndpkg + 1 }
  | .listed (some .ERR) _ | .listed (some .WAIT) _ | .listed none _ =>
    some { s.goto w .idle with sem := s.sem + 1, dropedsndpkg := s.dropedsndpkg + 1 }

/-- What can happen: a thread asks for messages to be sent, and goes on; the controller sends the message
of a buffer, or flags a failure; the handler enters, clears, and serves. -/
inductive Op (κ : Type*)
  | write (w : κ) (data : List rt_can_msg)
  | go (w : κ)
  | transmit (no : ℕ)
  | fault
  | enter
  | clear
  | serveDone
  | serveFail

/-- One step.  `CANFD_ClearStatusFlag` writes back all the flags that are up, so it clears
all.  The threads wait for the handler. -/
def State.step [DecidableEq κ] (s : State κ) : Op κ → Option (State κ)
  | .write w data =>
    match s.isr, s.writer w with
    | .idle, .idle => some { s.goto w (.writing data) with log := { s.log with
        requested := Function.update s.log.requested w (s.log.requested w ++ data) } }
    | _, _ => none
  | .go w =>
    match s.isr with
    | .idle => s.next w
    | _ => none
  | .transmit no =>
    match s.pending no with
    | none => none
    | some m => some { s with
        pending := Function.update s.pending no none
        ir := { s.ir with TC := true }
        log := { s.log with bus := s.log.bus ++ [m] } }
  | .fault => some { s with
      ir := { s.ir with FAIL := true }
      log := { s.log with faults := s.log.faults + 1 } }
  | .enter =>
    match s.isr with
    | .idle => some { s with isr := .entered s.ir }
    | _ => none
  | .clear =>
    match s.isr with
    | .entered u32Status => some { s with
        ir := ⟨false, false⟩
        isr := .cleared u32Status
        log := { s.log with unread := s.log.unread + (s.ir.TC && !u32Status.TC).toNat } }
    | _ => none
  | .serveDone =>
    match s.isr with
    | .cleared u32Status =>
      some { (if u32Status.TC then s.tx_event .OK else s) with isr := .served u32Status }
    | _ => none
  | .serveFail =>
    match s.isr with
    | .served u32Status => some { (if u32Status.FAIL then s.tx_event .ERR else s) with isr := .idle }
    | _ => none

/-- What `rt_can_open` makes of it, with an idle controller. -/
def opened (sndboxnumber : ℕ) : State κ where
  pending := fun _ => none
  ir := ⟨false, false⟩
  isr := .idle
  sem := sndboxnumber
  freelist := List.range sndboxnumber
  buffer := fun _ => ⟨.OK, false⟩
  sndpkg := 0
  dropedsndpkg := 0
  writer := fun _ => .idle
  log := ⟨fun _ => [], [], [], 0, 0⟩

/-! ### Steps -/

variable [DecidableEq κ] {s s' : State κ} {w : κ}

/-- What the next step of a thread can be. -/
inductive Goes (s : State κ) (w : κ) : State κ → Prop
  | stop (hw : s.writer w = .writing []) : Goes s w (s.goto w .idle)
  | grant {m : rt_can_msg} {data : List rt_can_msg} (hw : s.writer w = .writing (m :: data)) (hsem : 0 < s.sem) :
      Goes s w { s.goto w (.granted m data) with sem := s.sem - 1 }
  | pick {m : rt_can_msg} {data : List rt_can_msg} {no : ℕ} {free : List ℕ} (hw : s.writer w = .granted m data)
      (hfree : s.freelist = no :: free) :
      Goes s w { s.goto w (.busy .taken no m data) with freelist := free }
  | mark {m : rt_can_msg} {data : List rt_can_msg} {no : ℕ} (hw : s.writer w = .busy .taken no m data) :
      Goes s w { s.goto w (.busy .marked no m data) with
        buffer := Function.update s.buffer no { s.buffer no with result := .WAIT } }
  | init {m : rt_can_msg} {data : List rt_can_msg} {no : ℕ} (hw : s.writer w = .busy .marked no m data) :
      Goes s w { s.goto w (.busy .ready no m data) with
        buffer := Function.update s.buffer no { s.buffer no with completion := false } }
  | send {m : rt_can_msg} {data : List rt_can_msg} {no : ℕ} (hw : s.writer w = .busy .ready no m data)
      (hno : s.accepts no = true) :
      Goes s w { s.goto w (.busy .sent no m data) with
        pending := Function.update s.pending no (some m)
        log := { s.log with sent := s.log.sent ++ [(w, m)] } }
  | refuse {m : rt_can_msg} {data : List rt_can_msg} {no : ℕ} (hw : s.writer w = .busy .ready no m data)
      (hno : s.accepts no = false) :
      Goes s w { s.goto w (.listed none data) with freelist := s.freelist ++ [no] }
  | wait {m : rt_can_msg} {data : List rt_can_msg} {no : ℕ} (hw : s.writer w = .busy .sent no m data)
      (hdone : (s.buffer no).completion = true) :
      Goes s w { s.goto w (.busy .woken no m data) with
        buffer := Function.update s.buffer no { s.buffer no with completion := false } }
  | put {m : rt_can_msg} {data : List rt_can_msg} {no : ℕ} (hw : s.writer w = .busy .woken no m data) :
      Goes s w { s.goto w (.listed (some (s.buffer no).result) data) with freelist := s.freelist ++ [no] }
  | release {data : List rt_can_msg} (hw : s.writer w = .listed (some .OK) data) :
      Goes s w { s.goto w (.writing data) with sem := s.sem + 1, sndpkg := s.sndpkg + 1 }
  | drop {result : Option SndResult} {data : List rt_can_msg} (hw : s.writer w = .listed result data)
      (hresult : result ≠ some .OK) :
      Goes s w { s.goto w .idle with sem := s.sem + 1, dropedsndpkg := s.dropedsndpkg + 1 }

theorem goes_of_next (h : s.next w = some s') : Goes s w s' := by
  rw [State.next] at h
  split at h
  · cases h
  · rename_i hw
    obtain rfl := Option.some_inj.mp h
    exact .stop hw
  · rename_i m data hw
    split at h
    · rename_i hsem
      obtain rfl := Option.some_inj.mp h
      exact .grant hw hsem
    · cases h
  · rename_i m data hw
    split at h
    · cases h
    · rename_i no free hfree
      obtain rfl := Option.some_inj.mp h
      exact .pick hw hfree
  · rename_i no m data hw
    obtain rfl := Option.some_inj.mp h
    exact .mark hw
  · rename_i no m data hw
    obtain rfl := Option.some_inj.mp h
    exact .init hw
  · rename_i no m data hw
    split at h
    · rename_i hno
      obtain rfl := Option.some_inj.mp h
      exact .send hw hno
    · rename_i hno
      obtain rfl := Option.some_inj.mp h
      exact .refuse hw (Bool.eq_false_iff.mpr hno)
  · rename_i no m data hw
    split at h
    · rename_i hdone
      obtain rfl := Option.some_inj.mp h
      exact .wait hw hdone
    · cases h
  · rename_i no m data hw
    obtain rfl := Option.some_inj.mp h
    exact .put hw
  · rename_i data hw
    obtain rfl := Option.some_inj.mp h
    exact .release hw
  · rename_i data hw
    obtain rfl := Option.some_inj.mp h
    exact .drop hw (fun hr => by cases hr)
  · rename_i data hw
    obtain rfl := Option.some_inj.mp h
    exact .drop hw (fun hr => by cases hr)
  · rename_i data hw
    obtain rfl := Option.some_inj.mp h
    exact .drop hw (fun hr => by cases hr)

/-- What a step can be, of a thread, the controller or the handler. -/
inductive Steps (s : State κ) : State κ → Prop
  | write {w : κ} {data : List rt_can_msg} (hi : s.isr = .idle) (hw : s.writer w = .idle) :
      Steps s { s.goto w (.writing data) with log := { s.log with
        requested := Function.update s.log.requested w (s.log.requested w ++ data) } }
  | go {w : κ} {s' : State κ} (hi : s.isr = .idle) (h : Goes s w s') : Steps s s'
  | transmit {no : ℕ} {m : rt_can_msg} (hp : s.pending no = some m) :
      Steps s { s with
        pending := Function.update s.pending no none
        ir := { s.ir with TC := true }
        log := { s.log with bus := s.log.bus ++ [m] } }
  | fault : Steps s { s with
      ir := { s.ir with FAIL := true }
      log := { s.log with faults := s.log.faults + 1 } }
  | enter (hi : s.isr = .idle) : Steps s { s with isr := .entered s.ir }
  | clear {st : Flags} (hi : s.isr = .entered st) : Steps s { s with
      ir := ⟨false, false⟩
      isr := .cleared st
      log := { s.log with unread := s.log.unread + (s.ir.TC && !st.TC).toNat } }
  | serveDone {st : Flags} (hi : s.isr = .cleared st) :
      Steps s { (if st.TC then s.tx_event .OK else s) with isr := .served st }
  | serveFail {st : Flags} (hi : s.isr = .served st) :
      Steps s { (if st.FAIL then s.tx_event .ERR else s) with isr := .idle }

theorem steps_of_step {op : Op κ} (h : s.step op = some s') : Steps s s' := by
  cases op with
  | write w data =>
    simp only [State.step] at h
    split at h
    · rename_i hi hw
      obtain rfl := Option.some_inj.mp h
      exact .write hi hw
    · cases h
  | go w =>
    simp only [State.step] at h
    split at h
    · rename_i hi
      exact .go hi (goes_of_next h)
    · cases h
  | transmit no =>
    simp only [State.step] at h
    split at h
    · cases h
    · rename_i m hp
      obtain rfl := Option.some_inj.mp h
      exact .transmit hp
  | fault =>
    obtain rfl := Option.some_inj.mp h
    exact .fault
  | enter =>
    simp only [State.step] at h
    split at h
    · rename_i hi
      obtain rfl := Option.some_inj.mp h
      exact .enter hi
    · cases h
  | clear =>
    simp only [State.step] at h
    split at h
    · rename_i st hi
      obtain rfl := Option.some_inj.mp h
      exact .clear hi
    · cases h
  | serveDone =>
    simp only [State.step] at h
    split at h
    · rename_i st hi
      obtain rfl := Option.some_inj.mp h
      exact .serveDone hi
    · cases h
  | serveFail =>
    simp only [State.step] at h
    split at h
    · rename_i st hi
      obtain rfl := Option.some_inj.mp h
      exact .serveFail hi
    · cases h

/-! ### Boxes and semaphore -/

/-- Whether a thread has taken the semaphore. -/
def Writer.permits : Writer → ℕ
  | .idle | .writing _ => 0
  | .granted _ _ | .busy _ _ _ _ | .listed _ _ => 1

/-- The box that a thread has. -/
def Writer.boxes : Writer → Multiset ℕ
  | .busy _ no _ _ => {no}
  | .idle | .writing _ | .granted _ _ | .listed _ _ => 0

/-- The semaphore counts the threads that may look for a box, each of the `sndboxnumber` boxes is on the
list or with one thread, and none but box 0 has been completed. -/
structure Kept [Fintype κ] (sndboxnumber : ℕ) (s : State κ) : Prop where
  permits : Shares.total s.sem (Writer.permits ∘ s.writer) = sndboxnumber
  boxes : Shares.total (s.freelist : Multiset ℕ) (Writer.boxes ∘ s.writer) = Multiset.range sndboxnumber
  others : ∀ no ≠ 0, (s.buffer no).completion = false

variable [Fintype κ] {sndboxnumber : ℕ}

theorem Kept.goto (h : Kept sndboxnumber s) {x : Writer} (hw : s'.writer = Function.update s.writer w x)
    (hsem : s'.sem + x.permits = s.sem + (s.writer w).permits)
    (hbox : (s'.freelist : Multiset ℕ) + x.boxes = s.freelist + (s.writer w).boxes)
    (hbuf : ∀ no ≠ 0, (s'.buffer no).completion = false) : Kept sndboxnumber s' := by
  refine ⟨?_, ?_, hbuf⟩
  · rw [hw, Function.comp_update]
    exact (Shares.move (show s'.sem + x.permits = s.sem + (Writer.permits ∘ s.writer) w from hsem)).trans h.permits
  · rw [hw, Function.comp_update]
    exact (Shares.move (show (s'.freelist : Multiset ℕ) + x.boxes = s.freelist + (Writer.boxes ∘ s.writer) w
      from hbox)).trans h.boxes

omit [DecidableEq κ] in
theorem Kept.congr (h : Kept sndboxnumber s) (hw : s'.writer = s.writer) (hsem : s'.sem = s.sem)
    (hfree : s'.freelist = s.freelist) (hbuf : ∀ no ≠ 0, (s'.buffer no).completion = false) :
    Kept sndboxnumber s' := by
  refine ⟨?_, ?_, hbuf⟩
  · rw [hw, hsem]
    exact h.permits
  · rw [hw, hfree]
    exact h.boxes

theorem coe_append_singleton (l : List ℕ) (n : ℕ) : (↑(l ++ [n]) : Multiset ℕ) = ↑l + {n} := by
  rw [← Multiset.coe_add, Multiset.coe_singleton]

omit [DecidableEq κ] [Fintype κ] in
/-- A change to a box that does not complete it. -/
theorem completion_update {no : ℕ} {x : rt_can_sndbxinx_list} (h : ∀ n ≠ 0, (s.buffer n).completion = false)
    (hx : no ≠ 0 → x.completion = false) : ∀ n ≠ 0, (Function.update s.buffer no x n).completion = false := by
  intro n hn
  by_cases hno : n = no
  · subst hno
    rw [Function.update_self]
    exact hx hn
  · rw [Function.update_of_ne hno]
    exact h n hn

theorem Kept.go (h : Kept sndboxnumber s) (hs : Goes s w s') : Kept sndboxnumber s' := by
  cases hs with
  | stop hw =>
    refine h.goto rfl ?_ ?_ h.others
    · rw [hw]
      rfl
    · rw [hw]
      rfl
  | grant hw hsem =>
    refine h.goto rfl ?_ ?_ h.others
    · rw [hw]
      exact Nat.sub_add_cancel hsem
    · rw [hw]
      rfl
  | pick hw hfree =>
    refine h.goto rfl ?_ ?_ h.others
    · rw [hw]
      rfl
    · rw [hw, hfree, ← Multiset.cons_coe, ← Multiset.singleton_add]
      simp only [Writer.boxes]
      abel
  | mark hw =>
    refine h.goto rfl ?_ ?_ (completion_update h.others (h.others _))
    · rw [hw]
      rfl
    · rw [hw]
      rfl
  | init hw =>
    refine h.goto rfl ?_ ?_ (completion_update h.others fun _ => rfl)
    · rw [hw]
      rfl
    · rw [hw]
      rfl
  | send hw hno =>
    refine h.goto rfl ?_ ?_ h.others
    · rw [hw]
      rfl
    · rw [hw]
      rfl
  | refuse hw hno =>
    refine h.goto rfl ?_ ?_ h.others
    · rw [hw]
      rfl
    · rw [hw, coe_append_singleton]
      exact add_zero _
  | wait hw hdone =>
    refine h.goto rfl ?_ ?_ (completion_update h.others fun _ => rfl)
    · rw [hw]
      rfl
    · rw [hw]
      rfl
  | put hw =>
    refine h.goto rfl ?_ ?_ h.others
    · rw [hw]
      rfl
    · rw [hw, coe_append_singleton]
      exact add_zero _
  | release hw =>
    refine h.goto rfl ?_ ?_ h.others
    · rw [hw]
      rfl
    · rw [hw]
      rfl
  | drop hw hresult =>
    refine h.goto rfl ?_ ?_ h.others
    · rw [hw]
      rfl
    · rw [hw]
      rfl

theorem Kept.step (h : Kept sndboxnumber s) (hs : Steps s s') : Kept sndboxnumber s' := by
  have hzero : ∀ result, ∀ no ≠ 0, ((s.tx_event result).buffer no).completion = false :=
    fun _ => completion_update h.others fun hne => absurd rfl hne
  cases hs with
  | write hi hw =>
    refine h.goto rfl ?_ ?_ h.others
    · rw [hw]
      rfl
    · rw [hw]
      rfl
  | go hi hg => exact h.go hg
  | transmit hp => exact h.congr rfl rfl rfl h.others
  | fault => exact h.congr rfl rfl rfl h.others
  | enter hi => exact h.congr rfl rfl rfl h.others
  | clear hi => exact h.congr rfl rfl rfl h.others
  | serveDone hi =>
    split
    · exact h.congr rfl rfl rfl (hzero _)
    · exact h.congr rfl rfl rfl h.others
  | serveFail hi =>
    split
    · exact h.congr rfl rfl rfl (hzero _)
    · exact h.congr rfl rfl rfl h.others

omit [Fintype κ] in
/-- A thread goes on alone. -/
theorem Goes.writer (hs : Goes s w s') {v : κ} (hv : v ≠ w) : s'.writer v = s.writer v := by
  cases hs with
  | stop hw | grant hw hsem | pick hw hfree | mark hw | init hw | send hw hno | refuse hw hno | wait hw hdone
  | put hw | release hw | drop hw hresult => exact Function.update_of_ne hv _ _

omit [DecidableEq κ] in
theorem opened_kept : Kept sndboxnumber (opened (κ := κ) sndboxnumber) := by
  refine ⟨?_, ?_, fun _ _ => rfl⟩
  · exact (congrArg (sndboxnumber + ·) Finset.sum_const_zero).trans (add_zero _)
  · exact (congrArg (Multiset.range sndboxnumber + ·) Finset.sum_const_zero).trans (add_zero _)

omit [DecidableEq κ] in
/-- A thread that has taken the semaphore finds a box. -/
theorem Kept.free (h : Kept sndboxnumber s) {m : rt_can_msg} {data : List rt_can_msg}
    (hw : s.writer w = .granted m data) : s.freelist ≠ [] := by
  have hboxes := congrArg Multiset.cardHom h.boxes
  rw [Shares.map_total] at hboxes
  simp only [Multiset.cardHom_apply, Multiset.coe_card, Multiset.card_range] at hboxes
  have hpermits := h.permits
  have hlt : ∑ v, Multiset.card ((Writer.boxes ∘ s.writer) v) < ∑ v, (Writer.permits ∘ s.writer) v := by
    refine Finset.sum_lt_sum (fun v _ => ?_) ⟨w, Finset.mem_univ w, ?_⟩
    · rw [Function.comp_apply, Function.comp_apply]
      cases s.writer v with
      | idle | writing data | granted m data | listed result data => exact Nat.zero_le _
      | busy pc no m data => exact le_refl 1
    · rw [Function.comp_apply, Function.comp_apply, hw]
      exact Nat.one_pos
  rw [Shares.total] at hboxes hpermits
  intro hnil
  rw [hnil, List.length_nil] at hboxes
  omega

/-- A thread that waits for another box than box 0 goes on waiting. -/
theorem Kept.waits (h : Kept sndboxnumber s) (hs : Steps s s') {no : ℕ} {m : rt_can_msg} {data : List rt_can_msg}
    (hno : no ≠ 0) (hw : s.writer w = .busy .sent no m data) : s'.writer w = .busy .sent no m data := by
  cases hs with
  | @write v data' hi hv =>
    have hne : w ≠ v := by
      rintro rfl
      rw [hw] at hv
      cases hv
    exact (Function.update_of_ne hne _ _).trans hw
  | @go v _ hi hg =>
    by_cases hne : w = v
    · subst hne
      cases hg with
      | wait hv hdone =>
        rw [hw] at hv
        cases hv
        rw [h.others no hno] at hdone
        cases hdone
      | stop hv | grant hv _ | pick hv _ | mark hv | init hv | send hv _ | refuse hv _ | put hv | release hv
      | drop hv _ =>
        rw [hw] at hv
        cases hv
    · exact (hg.writer hne).trans hw
  | transmit hp | fault | enter hi | clear hi => exact hw
  | serveDone hi | serveFail hi =>
    split
    · exact hw
    · exact hw

/-- **Send boxes**: whatever the threads do, the semaphore and the list stand for the boxes that no thread
has, a thread that has taken the semaphore finds a box, and as the handler completes box 0 only, a
thread that waits for another box waits for ever. -/
theorem boxes_kept (h : Reachable State.step (opened sndboxnumber) s) :
    Kept sndboxnumber s ∧ (∀ w m data, s.writer w = .granted m data → s.freelist ≠ []) ∧
    ∀ w no m data, s.writer w = .busy .sent no m data → no ≠ 0 →
      ∀ s', Reachable State.step s s' → s'.writer w = .busy .sent no m data := by
  have hkept : ∀ (s : State κ) op s', Kept sndboxnumber s → s.step op = some s' → Kept sndboxnumber s' :=
    fun _ _ _ hk hs => hk.step (steps_of_step hs)
  have hk := h.inv opened_kept hkept
  refine ⟨hk, fun w m data hw => hk.free hw, ?_⟩
  intro w no m data hw hno s' hs
  induction hs with
  | start => exact hw
  | step h' hs ih => exact (h'.inv hk hkept).waits (steps_of_step hs) hno ih

/-- With two boxes the second message of a thread waits for ever. -/
def twoMessages : List (Op Unit) :=
  [.write () [threeBytes, threeBytes], .go (), .go (), .go (), .go (), .go (), .transmit 0, .enter, .clear, .serveDone,
    .serveFail, .go (), .go (), .go (), .go (), .go (), .go (), .go (), .go ()]

def afterMessages : State Unit := (Reachable.run State.step (opened 2) twoMessages).getD (opened 2)

theorem boxes_kept_two : Kept 2 afterMessages ∧ ∀ s', Reachable State.step afterMessages s' →
    s'.writer () = .busy .sent 1 threeBytes [] := by
  have h : Reachable State.step (opened 2) afterMessages := Reachable.of_run twoMessages .start rfl
  exact ⟨(boxes_kept h).1, (boxes_kept h).2.2 () 1 threeBytes [] rfl one_ne_zero⟩

/-! ### One box -/

/-- Whether a thread waits for its box. -/
def Writer.waits : Writer → ℕ
  | .busy .sent _ _ _ => 1
  | .busy .taken _ _ _ | .busy .marked _ _ _ | .busy .ready _ _ _ | .busy .woken _ _ _ => 0
  | .idle | .writing _ | .granted _ _ | .listed _ _ => 0

/-- The messages that a thread has still to hand over. -/
def Writer.rest : Writer → List rt_can_msg
  | .idle => []
  | .granted m data | .busy .taken _ m data | .busy .marked _ m data | .busy .ready _ m data => m :: data
  | .writing data | .busy .sent _ _ data | .busy .woken _ _ data | .listed _ data => data

/-- The transmissions that are flagged, or that the handler has still to serve. -/
def State.announced (s : State κ) : ℕ :=
  match s.isr with
  | .cleared u32Status => s.ir.TC.toNat + u32Status.TC.toNat
  | _ => s.ir.TC.toNat

/-- The messages that a thread has handed over. -/
def Log.by (l : Log κ) (w : κ) : List rt_can_msg := (l.sent.filter fun a => a.1 = w).map Prod.snd

/-- With one box and no failure: the thread that waits has its message in the controller, or a flag up for
it, or its box completed, or its flag was cleared unread. -/
structure OneBox (s : State κ) : Prop where
  entered : ∀ u32Status, s.isr = .entered u32Status → u32Status.TC = true → s.ir.TC = true
  ir : s.ir.FAIL = false
  status : ∀ u32Status, s.isr = .entered u32Status ∨ s.isr = .cleared u32Status ∨ s.isr = .served u32Status →
    u32Status.FAIL = false
  pending : ∀ no ≠ 0, s.pending no = none
  tokens : (s.pending 0).isSome.toNat + s.announced + (s.buffer 0).completion.toNat + s.log.unread =
    ∑ w, (s.writer w).waits
  done : (s.buffer 0).completion = true → (s.buffer 0).result = .OK
  woken : ∀ w no m data, s.writer w = .busy .woken no m data → (s.buffer 0).result = .OK
  listed : ∀ w result data, s.writer w = .listed result data → result = some .OK
  bus : s.log.sent.map Prod.snd = s.log.bus ++ (s.pending 0).toList
  requested : ∀ w, s.log.by w ++ (s.writer w).rest = s.log.requested w
  droped : s.dropedsndpkg = 0

omit [DecidableEq κ] in
/-- A thread with the semaphore is the only one. -/
theorem Kept.alone (h : Kept 1 s) (hw : (s.writer w).permits = 1) : ∀ v ≠ w, (s.writer v).permits = 0 := by
  intro v hv
  have hpermits := h.permits
  rw [Shares.total] at hpermits
  have hpair := Finset.add_le_sum (f := Writer.permits ∘ s.writer) (fun _ _ => Nat.zero_le _) (Finset.mem_univ w)
    (Finset.mem_univ v) (Ne.symm hv)
  simp only [Function.comp_apply, hw] at hpair hpermits
  omega

omit [DecidableEq κ] in
theorem Kept.box (h : Kept 1 s) {pc : Pc} {no : ℕ} {m : rt_can_msg} {data : List rt_can_msg}
    (hw : s.writer w = .busy pc no m data) : no = 0 := by
  have hmem : no ∈ Multiset.range 1 := by
    rw [← h.boxes, Shares.total, Multiset.mem_add, Multiset.mem_sum]
    refine Or.inr ⟨w, Finset.mem_univ w, ?_⟩
    rw [Function.comp_apply, hw]
    exact Multiset.mem_singleton_self no
  exact Nat.lt_one_iff.mp (Multiset.mem_range.mp hmem)

omit [DecidableEq κ] [Fintype κ] in
theorem waits_le (x : Writer) : x.waits ≤ x.permits := by
  cases x with
  | idle | writing data | granted m data | listed result data => exact Nat.zero_le _
  | busy pc no m data =>
    cases pc with
    | sent => exact le_refl 1
    | taken | marked | ready | woken => exact Nat.zero_le 1

omit [DecidableEq κ] in
/-- No other thread waits. -/
theorem Kept.sum_waits (h : Kept 1 s) (hw : (s.writer w).permits = 1) :
    ∑ v, (s.writer v).waits = (s.writer w).waits := by
  refine Finset.sum_eq_single w (fun v _ hv => ?_) fun hn => absurd (Finset.mem_univ w) hn
  exact Nat.le_zero.mp ((waits_le _).trans (h.alone hw v hv).le)

omit [DecidableEq κ] in
theorem Kept.sum_waits_le (h : Kept 1 s) : ∑ v, (s.writer v).waits ≤ 1 := by
  have hpermits := h.permits
  rw [Shares.total] at hpermits
  have hle : ∑ v, (s.writer v).waits ≤ ∑ v, (Writer.permits ∘ s.writer) v :=
    Finset.sum_le_sum fun v _ => waits_le (s.writer v)
  omega

theorem sum_waits_goto (s : State κ) (w : κ) (x : Writer) :
    ∑ v, ((s.goto w x).writer v).waits + (s.writer w).waits = ∑ v, (s.writer v).waits + x.waits := by
  have hsum := Shares.sum_update (fun v => (s.writer v).waits) w x.waits
  have hcomp : (fun v => ((s.goto w x).writer v).waits) =
      Function.update (fun v => (s.writer v).waits) w x.waits :=
    Function.comp_update Writer.waits s.writer w x
  rw [hcomp]
  exact hsum

/-- A thread goes on without handing anything over. -/
theorem OneBox.walk (h : OneBox s) {x : Writer} (hw : s'.writer = Function.update s.writer w x)
    (hpending : s'.pending = s.pending) (hir : s'.ir = s.ir) (hisr : s'.isr = s.isr) (hlog : s'.log = s.log)
    (hdrop : s'.dropedsndpkg = s.dropedsndpkg) (hrest : x.rest = (s.writer w).rest)
    (htokens : (s'.buffer 0).completion.toNat + (s.writer w).waits = (s.buffer 0).completion.toNat + x.waits)
    (hdone : (s'.buffer 0).completion = true → (s'.buffer 0).result = .OK)
    (hwoken : ∀ v no m data, s'.writer v = .busy .woken no m data → (s'.buffer 0).result = .OK)
    (hlisted : ∀ result data, x = .listed result data → result = some .OK) : OneBox s' := by
  have hsum := sum_waits_goto s w x
  have htok := h.tokens
  have hann : s'.announced = s.announced := by rw [State.announced, State.announced, hisr, hir]
  have hgoto : (s.goto w x).writer = s'.writer := hw.symm
  rw [hgoto] at hsum
  constructor
  · rw [hisr, hir]
    exact h.entered
  · rw [hir]
    exact h.ir
  · rw [hisr]
    exact h.status
  · rw [hpending]
    exact h.pending
  · rw [hpending, hann, hlog]
    omega
  · exact hdone
  · exact hwoken
  · intro v result data hv
    rw [hw] at hv
    by_cases hne : v = w
    · rw [hne, Function.update_self] at hv
      exact hlisted result data hv
    · rw [Function.update_of_ne hne] at hv
      exact h.listed v result data hv
  · rw [hlog, hpending]
    exact h.bus
  · intro v
    rw [hlog, hw]
    by_cases hne : v = w
    · rw [hne, Function.update_self, hrest]
      exact h.requested w
    · rw [Function.update_of_ne hne]
      exact h.requested v
  · rw [hdrop]
    exact h.droped

/-- While the thread with the semaphore does not wait, nothing is on its way. -/
theorem OneBox.idle (h : OneBox s) (hk : Kept 1 s) (hw : (s.writer w).permits = 1) (hwaits : (s.writer w).waits = 0) :
    s.pending 0 = none ∧ s.announced = 0 ∧ (s.buffer 0).completion = false ∧ s.log.unread = 0 := by
  have htok := h.tokens
  rw [hk.sum_waits hw, hwaits] at htok
  refine ⟨?_, by omega, ?_, by omega⟩
  · have hsome : (s.pending 0).isSome = false := Bool.toNat_eq_zero.mp (by omega)
    exact Option.isNone_iff_eq_none.mp (Option.isSome_eq_false_iff.mp hsome)
  · exact Bool.toNat_eq_zero.mp (by omega)

theorem OneBox.go (h : OneBox s) (hk : Kept 1 s) (hg : Goes s w s') : OneBox s' := by
  -- a thread that is not woken itself leaves the result to the one that is
  have hother : ∀ {x : Writer}, (∀ no m data, x ≠ .busy .woken no m data) → ∀ v no m data,
      Function.update s.writer w x v = .busy .woken no m data → (s.buffer 0).result = .OK := by
    intro x hx v no m data hv
    by_cases hne : v = w
    · rw [hne, Function.update_self] at hv
      exact absurd hv (hx no m data)
    · rw [Function.update_of_ne hne] at hv
      exact h.woken v no m data hv
  have halone : ∀ {x : Writer}, (s.writer w).permits = 1 → (∀ no m data, x ≠ .busy .woken no m data) →
      ∀ v no m data, Function.update s.writer w x v ≠ .busy .woken no m data := by
    intro x hw hx v no m data hv
    by_cases hne : v = w
    · rw [hne, Function.update_self] at hv
      exact hx no m data hv
    · rw [Function.update_of_ne hne] at hv
      have hzero := hk.alone hw v hne
      rw [hv] at hzero
      cases hzero
  cases hg with
  | stop hw =>
    refine h.walk rfl rfl rfl rfl rfl rfl ?_ ?_ h.done (hother fun _ _ _ hx => by cases hx) fun _ _ hx => by cases hx
    · rw [hw]
      rfl
    · rw [hw]
      rfl
  | grant hw hsem =>
    refine h.walk rfl rfl rfl rfl rfl rfl ?_ ?_ h.done (hother fun _ _ _ hx => by cases hx) fun _ _ hx => by cases hx
    · rw [hw]
      rfl
    · rw [hw]
      rfl
  | pick hw hfree =>
    refine h.walk rfl rfl rfl rfl rfl rfl ?_ ?_ h.done (hother fun _ _ _ hx => by cases hx) fun _ _ hx => by cases hx
    · rw [hw]
      rfl
    · rw [hw]
      rfl
  | mark hw =>
    obtain rfl := hk.box hw
    have hpermit : (s.writer w).permits = 1 := by rw [hw]; rfl
    obtain ⟨-, -, hcomp, -⟩ := h.idle hk hpermit (by rw [hw]; rfl)
    refine h.walk rfl rfl rfl rfl rfl rfl ?_ ?_ ?_ ?_ fun _ _ hx => by cases hx
    · rw [hw]
      rfl
    · dsimp only
      rw [hw, Function.update_self]
      rfl
    · dsimp only
      rw [Function.update_self, hcomp]
      exact fun hc => by cases hc
    · exact fun v no m data hv => absurd hv (halone hpermit (fun _ _ _ hx => by cases hx) v no m data)
  | init hw =>
    obtain rfl := hk.box hw
    have hpermit : (s.writer w).permits = 1 := by rw [hw]; rfl
    obtain ⟨-, -, hcomp, -⟩ := h.idle hk hpermit (by rw [hw]; rfl)
    refine h.walk rfl rfl rfl rfl rfl rfl ?_ ?_ ?_ ?_ fun _ _ hx => by cases hx
    · rw [hw]
      rfl
    · dsimp only
      rw [hw, Function.update_self, hcomp]
      rfl
    · dsimp only
      rw [Function.update_self]
      exact fun hc => by cases hc
    · exact fun v no m data hv => absurd hv (halone hpermit (fun _ _ _ hx => by cases hx) v no m data)
  | @send m data no hw hno =>
    obtain rfl := hk.box hw
    have hpermit : (s.writer w).permits = 1 := by rw [hw]; rfl
    obtain ⟨hpend, hann, hcomp, hunread⟩ := h.idle hk hpermit (by rw [hw]; rfl)
    have hsum := sum_waits_goto s w (.busy .sent 0 m data)
    rw [hk.sum_waits hpermit] at hsum
    have hbus := h.bus
    rw [hpend, Option.toList_none, List.append_nil] at hbus
    constructor
    · exact h.entered
    · exact h.ir
    · exact h.status
    · intro no hne
      dsimp only
      rw [Function.update_of_ne hne]
      exact h.pending no hne
    · have hann' : State.announced { s.goto w (.busy .sent 0 m data) with
          pending := Function.update s.pending 0 (some m)
          log := { s.log with sent := s.log.sent ++ [(w, m)] } } = s.announced := rfl
      rw [hann', hann]
      dsimp only
      rw [Function.update_self, hunread]
      rw [hw] at hsum
      simp only [State.goto, hcomp, Writer.waits, Option.isSome_some, Bool.toNat_true, Bool.toNat_false] at hsum ⊢
      omega
    · exact h.done
    · exact fun v no m' data' hv => absurd hv (halone hpermit (fun _ _ _ hx => by cases hx) v no m' data')
    · intro v result data' hv
      have hv' : Function.update s.writer w (.busy .sent 0 m data) v = .listed result data' := hv
      by_cases hne : v = w
      · rw [hne, Function.update_self] at hv'
        cases hv'
      · rw [Function.update_of_ne hne] at hv'
        exact h.listed v result data' hv'
    · dsimp only
      rw [Function.update_self, List.map_append, hbus]
      rfl
    · intro v
      have hreq := h.requested v
      dsimp only
      rw [Log.by, List.filter_append, List.map_append]
      by_cases hne : v = w
      · subst hne
        rw [hw] at hreq
        simp only [State.goto, Function.update_self]
        rw [← Log.by, ← hreq]
        simp [Writer.rest]
      · simp only [State.goto, Function.update_of_ne hne]
        rw [← hreq, Log.by]
        simp [Ne.symm hne]
    · exact h.droped
  | refuse hw hno =>
    obtain rfl := hk.box hw
    obtain ⟨hpend, -⟩ := h.idle hk (by rw [hw]; rfl) (by rw [hw]; rfl)
    rw [State.accepts, hpend] at hno
    cases hno
  | wait hw hdone =>
    obtain rfl := hk.box hw
    have hok := h.done hdone
    refine h.walk rfl rfl rfl rfl rfl rfl ?_ ?_ ?_ ?_ fun _ _ hx => by cases hx
    · rw [hw]
      rfl
    · dsimp only
      rw [hw, Function.update_self, hdone]
      rfl
    · dsimp only
      rw [Function.update_self]
      exact fun hc => by cases hc
    · intro v no m data _
      dsimp only
      rw [Function.update_self]
      exact hok
  | put hw =>
    obtain rfl := hk.box hw
    have hok := h.woken w _ _ _ hw
    refine h.walk rfl rfl rfl rfl rfl rfl ?_ ?_ h.done (hother fun _ _ _ hx => by cases hx) ?_
    · rw [hw]
      rfl
    · rw [hw]
      rfl
    · intro result data hx
      cases hx
      rw [hok]
  | release hw =>
    refine h.walk rfl rfl rfl rfl rfl rfl ?_ ?_ h.done (hother fun _ _ _ hx => by cases hx) fun _ _ hx => by cases hx
    · rw [hw]
      rfl
    · rw [hw]
      rfl
  | drop hw hresult => exact absurd (h.listed w _ _ hw) hresult

theorem OneBox.step (h : OneBox s) (hk : Kept 1 s) (hs : Steps s s') (hf : s'.log.faults = 0) : OneBox s' := by
  have htok := h.tokens
  have hle := hk.sum_waits_le
  cases hs with
  | @write w data hi hw =>
    have hsum := sum_waits_goto s w (.writing data)
    rw [hw] at hsum
    constructor
    · exact h.entered
    · exact h.ir
    · exact h.status
    · exact h.pending
    · exact htok.trans hsum.symm
    · exact h.done
    · intro v no m data' hv
      have hv' : Function.update s.writer w (.writing data) v = .busy .woken no m data' := hv
      by_cases hne : v = w
      · rw [hne, Function.update_self] at hv'
        cases hv'
      · rw [Function.update_of_ne hne] at hv'
        exact h.woken v no m data' hv'
    · intro v result data' hv
      have hv' : Function.update s.writer w (.writing data) v = .listed result data' := hv
      by_cases hne : v = w
      · rw [hne, Function.update_self] at hv'
        cases hv'
      · rw [Function.update_of_ne hne] at hv'
        exact h.listed v result data' hv'
    · exact h.bus
    · intro v
      have hreq := h.requested v
      by_cases hne : v = w
      · subst hne
        rw [hw] at hreq
        simp only [State.goto, Function.update_self, ← hreq]
        simp [Writer.rest, Log.by]
      · simp only [State.goto, Function.update_of_ne hne]
        exact hreq
    · exact h.droped
  | go hi hg => exact h.go hk hg
  | @transmit no m hp =>
    by_cases hno : no = 0
    · subst hno
      have hpend : (s.pending 0).isSome.toNat = 1 := by
        rw [hp]
        rfl
      have hbus := h.bus
      rw [hp] at hbus
      constructor
      · exact fun _ _ _ => rfl
      · exact h.ir
      · exact h.status
      · intro n hn
        dsimp only
        rw [Function.update_of_ne hn]
        exact h.pending n hn
      · -- the flag was down, or there were two threads waiting
        have hann : s.announced = 0 := by omega
        have htc : s.ir.TC = false := by
          rw [State.announced] at hann
          split at hann
          · exact Bool.toNat_eq_zero.mp (by omega)
          · exact Bool.toNat_eq_zero.mp hann
        have hnew : State.announced { s with
            pending := Function.update s.pending 0 none
            ir := { s.ir with TC := true }
            log := { s.log with bus := s.log.bus ++ [m] } } = s.announced + 1 := by
          simp only [State.announced]
          split
          · rw [htc, Bool.toNat_true, Bool.toNat_false]
            omega
          · rw [htc]
            rfl
        rw [hnew]
        simp only [Function.update_self, Option.isSome_none, Bool.toNat_false]
        omega
      · exact h.done
      · exact h.woken
      · exact h.listed
      · dsimp only
        rw [Function.update_self, Option.toList_none, List.append_nil]
        exact hbus
      · exact h.requested
      · exact h.droped
    · rw [h.pending no hno] at hp
      cases hp
  | fault => cases hf
  | enter hi =>
    constructor
    · intro st hst htc
      cases hst
      exact htc
    · exact h.ir
    · intro st hst
      rcases hst with hst | hst | hst
      · cases hst
        exact h.ir
      · cases hst
      · cases hst
    · exact h.pending
    · rw [State.announced, hi] at htok
      exact htok
    · exact h.done
    · exact h.woken
    · exact h.listed
    · exact h.bus
    · exact h.requested
    · exact h.droped
  | @clear st hi =>
    constructor
    · intro st' hst
      cases hst
    · rfl
    · intro st' hst
      rcases hst with hst | hst | hst
      · cases hst
      · cases hst
        exact h.status st (Or.inl hi)
      · cases hst
    · exact h.pending
    · -- the flag was read, or it is gone
      have hflag : s.ir.TC.toNat = (s.ir.TC && !st.TC).toNat + st.TC.toNat := by
        cases htc : st.TC with
        | true => simp [h.entered st hi htc]
        | false => simp
      simp only [State.announced, hi, Bool.toNat_false] at htok ⊢
      omega
    · exact h.done
    · exact h.woken
    · exact h.listed
    · exact h.bus
    · exact h.requested
    · exact h.droped
  | @serveDone st hi =>
    have hfail := h.status st (Or.inr (Or.inl hi))
    have hstatus : ∀ st', Isr.served st = .entered st' ∨ Isr.served st = .cleared st' ∨ Isr.served st = .served st' →
        st'.FAIL = false := by
      intro st' hst
      rcases hst with hst | hst | hst
      · cases hst
      · cases hst
      · cases hst
        exact hfail
    by_cases htc : st.TC = true
    · rw [if_pos htc]
      simp only [State.announced, hi, htc, Bool.toNat_true] at htok
      refine ⟨(fun st' hst => by cases hst), h.ir, hstatus, h.pending, ?_, ?_, ?_, h.listed, h.bus, h.requested, h.droped⟩
      · have hcomp : (s.buffer 0).completion.toNat = 0 := by omega
        simp only [State.announced, State.tx_event, Function.update_self, Bool.toNat_true]
        omega
      · intro _
        simp only [State.tx_event, Function.update_self]
      · intro v no m data hv
        simp only [State.tx_event, Function.update_self]
    · rw [if_neg htc]
      simp only [State.announced, hi, Bool.eq_false_iff.mpr htc, Bool.toNat_false] at htok
      exact ⟨(fun st' hst => by cases hst), h.ir, hstatus, h.pending, htok, h.done, h.woken, h.listed, h.bus,
        h.requested, h.droped⟩
  | @serveFail st hi =>
    have hfail : ¬ st.FAIL = true := by
      rw [h.status st (Or.inr (Or.inr hi))]
      exact Bool.false_ne_true
    rw [if_neg hfail]
    simp only [State.announced, hi] at htok
    refine ⟨(fun st' hst => by cases hst), h.ir, ?_, h.pending, htok, h.done, h.woken, h.listed, h.bus,
      h.requested, h.droped⟩
    intro st' hst
    rcases hst with hst | hst | hst
    · cases hst
    · cases hst
    · cases hst

omit [Fintype κ] in
/-- Failures and flags cleared unread stay counted. -/
theorem log_le (hs : Steps s s') : s.log.faults ≤ s'.log.faults ∧ s.log.unread ≤ s'.log.unread := by
  cases hs with
  | write hi hw | transmit hp | enter hi => exact ⟨le_refl _, le_refl _⟩
  | go hi hg =>
    cases hg with
    | stop hw | grant hw hsem | pick hw hfree | mark hw | init hw | send hw hno | refuse hw hno | wait hw hdone
    | put hw | release hw | drop hw hresult => exact ⟨le_refl _, le_refl _⟩
  | fault => exact ⟨Nat.le_succ _, le_refl _⟩
  | clear hi => exact ⟨le_refl _, Nat.le_add_right _ _⟩
  | serveDone hi =>
    split
    · exact ⟨le_refl _, le_refl _⟩
    · exact ⟨le_refl _, le_refl _⟩
  | serveFail hi =>
    split
    · exact ⟨le_refl _, le_refl _⟩
    · exact ⟨le_refl _, le_refl _⟩

theorem opened_oneBox : OneBox (opened (κ := κ) 1) := by
  refine ⟨?_, rfl, ?_, fun _ _ => rfl, Finset.sum_const_zero.symm, ?_, ?_, ?_, rfl, fun _ => rfl, rfl⟩
  · intro st hst
    cases hst
  · intro st hst
    rcases hst with hst | hst | hst <;> cases hst
  · intro hc
    cases hc
  · intro w no m data hw
    cases hw
  · intro w result data hw
    cases hw

/-- In a run without failures. -/
theorem oneBox_of_reach {s₀ : State κ} (h : Reachable State.step s₀ s) (hk : Kept 1 s₀) (h₀ : OneBox s₀)
    (hf : s.log.faults = 0) : Kept 1 s ∧ OneBox s := by
  induction h with
  | start => exact ⟨hk, h₀⟩
  | step _ hs ih =>
    have hsteps := steps_of_step hs
    obtain ⟨hk', hb⟩ := ih (Nat.le_zero.mp ((log_le hsteps).1.trans hf.le))
    exact ⟨hk'.step hsteps, hb.step hk' hsteps hf⟩

/-- A thread waits for a message that is out of the controller, with no flag up and none to be served. -/
def State.Forgotten (s : State κ) (w : κ) : Prop :=
  (∃ no m data, s.writer w = .busy .sent no m data) ∧ s.pending 0 = none ∧ s.announced = 0 ∧
    (s.buffer 0).completion = false

/-- Once a flag was cleared unread, nothing changes for the threads with the semaphore. -/
theorem OneBox.dead (h : OneBox s) (hk : Kept 1 s) (hu : 0 < s.log.unread) : ∃ w, s.Forgotten w := by
  have htok := h.tokens
  have hle := hk.sum_waits_le
  obtain ⟨w, -, hw⟩ : ∃ w ∈ Finset.univ, (s.writer w).waits ≠ 0 := by
    refine Finset.exists_ne_zero_of_sum_ne_zero ?_
    omega
  have hsent : ∃ no m data, s.writer w = .busy .sent no m data := by
    cases hx : s.writer w with
    | idle | writing data | granted m data | listed result data =>
      rw [hx] at hw
      exact absurd rfl hw
    | busy pc no m data =>
      rw [hx] at hw
      cases pc with
      | sent => exact ⟨no, m, data, rfl⟩
      | taken | marked | ready | woken => exact absurd rfl hw
  refine ⟨w, hsent, ?_, by omega, Bool.toNat_eq_zero.mp (by omega)⟩
  have hsome : (s.pending 0).isSome = false := Bool.toNat_eq_zero.mp (by omega)
  exact Option.isNone_iff_eq_none.mp (Option.isSome_eq_false_iff.mp hsome)

theorem OneBox.unread_of_forgotten (h : OneBox s) (hw : s.Forgotten w) : 0 < s.log.unread := by
  obtain ⟨⟨no, m, data, hsent⟩, hpend, hann, hcomp⟩ := hw
  have htok := h.tokens
  have hle : (s.writer w).waits ≤ ∑ v, (s.writer v).waits :=
    Finset.single_le_sum (f := fun v => (s.writer v).waits) (fun _ _ => Nat.zero_le _) (Finset.mem_univ w)
  rw [hsent] at hle
  rw [hpend, hann, hcomp] at htok
  simp only [Writer.waits, Option.isSome_none, Bool.toNat_false] at hle htok
  omega

omit [Fintype κ] in
/-- Without a message in the controller none gets on the bus. -/
theorem bus_eq (hs : Steps s s') (hp : ∀ no, s.pending no = none) : s'.log.bus = s.log.bus := by
  cases hs with
  | write hi hw | fault | enter hi | clear hi => rfl
  | go hi hg =>
    cases hg with
    | stop hw | grant hw hsem | pick hw hfree | mark hw | init hw | send hw hno | refuse hw hno | wait hw hdone
    | put hw | release hw | drop hw hresult => rfl
  | transmit hm =>
    rw [hp] at hm
    cases hm
  | serveDone hi =>
    split
    · rfl
    · rfl
  | serveFail hi =>
    split
    · rfl
    · rfl

/-- **One send box**: while the controller flags no failure, the messages of each thread are handed over in
the order asked for, and all of them are on the bus in the order handed over, but for the one in the
controller; none is dropped.  A thread is left waiting exactly if the handler cleared the flag of a
transmission that it had not read, and then it waits for ever and no message is sent any more. -/
theorem one_box (h : Reachable State.step (opened 1) s) (hf : s.log.faults = 0) :
    (∀ w, s.log.by w ++ (s.writer w).rest = s.log.requested w) ∧
    s.log.sent.map Prod.snd = s.log.bus ++ (s.pending 0).toList ∧ s.dropedsndpkg = 0 ∧
    ((∃ w, s.Forgotten w) ↔ 0 < s.log.unread) ∧
    (0 < s.log.unread → ∀ s', Reachable State.step s s' → s'.log.faults = 0 →
      s'.log.bus = s.log.bus ∧ ∃ w, s'.Forgotten w) := by
  obtain ⟨hk, hb⟩ := oneBox_of_reach h opened_kept opened_oneBox hf
  refine ⟨hb.requested, hb.bus, hb.droped, ⟨?_, hb.dead hk⟩, ?_⟩
  · rintro ⟨w, hw⟩
    exact hb.unread_of_forgotten hw
  · intro hu s' hs hf'
    -- the messages stay where they are
    have hdead : s.log.unread ≤ s'.log.unread ∧ s'.log.bus = s.log.bus := by
      induction hs with
      | start => exact ⟨le_refl _, rfl⟩
      | step hs' hstep ih =>
        have hsteps := steps_of_step hstep
        have hf'' := Nat.le_zero.mp ((log_le hsteps).1.trans hf'.le)
        obtain ⟨hle, hbus⟩ := ih hf''
        obtain ⟨hk', hb'⟩ := oneBox_of_reach hs' hk hb hf''
        obtain ⟨w, -, hpend, -⟩ := hb'.dead hk' (hu.trans_le hle)
        refine ⟨hle.trans (log_le hsteps).2, (bus_eq hsteps fun no => ?_).trans hbus⟩
        by_cases hno : no = 0
        · rw [hno]
          exact hpend
        · exact hb'.pending no hno
    obtain ⟨hk', hb'⟩ := oneBox_of_reach hs hk hb hf'
    exact ⟨hdead.2, hb'.dead hk' (hu.trans_le hdead.1)⟩

/-- A message is sent while the handler is between reading the flags, all down, and clearing them. -/
def missed : List (Op Unit) :=
  [.write () [threeBytes], .go (), .go (), .go (), .go (), .go (), .enter, .transmit 0, .clear, .serveDone, .serveFail]

def afterMissed : State Unit := (Reachable.run State.step (opened 1) missed).getD (opened 1)

theorem one_box_missed : 0 < afterMissed.log.unread ∧ ∃ w, afterMissed.Forgotten w := by
  have h : Reachable State.step (opened 1) afterMissed := Reachable.of_run missed .start rfl
  have hu : 0 < afterMissed.log.unread := Nat.one_pos
  exact ⟨hu, (one_box h rfl).2.2.2.1.mpr hu⟩

/-! ### The driver's side -/

omit [DecidableEq κ] [Fintype κ] in
/-- `accepts` is when `nu_canfd_sendmsg` does not fail. -/
theorem sendmsg_ok_iff {σ : Port} {m : rt_can_msg} {no : ℕ} (hlen : m.len.toNat ≤ 64)
    (hpend : σ.ctl.TXBRP.getLsbD no = (s.pending no).isSome) :
    (nu_canfd_sendmsg σ m no).map Prod.fst = some (if s.accepts no then RT_EOK else -RT_ERROR) := by
  obtain ⟨t, ht⟩ : ∃ t, sTxMsg m = some t := by
    rw [sTxMsg, if_neg (by omega)]
    split
    · exact ⟨_, rfl⟩
    · exact ⟨_, rfl⟩
  rw [nu_canfd_sendmsg, ht, Option.map_some, Option.map_some, State.accepts, CANFD_Transfer_DTB, hpend]
  by_cases hno : no ≥ CANFD_MAX_TX_BUF_ELEMS
  · simp [hno, Nat.not_lt.mpr hno]
  · cases hp : s.pending no with
    | none => simp [hno, Nat.not_le.mp hno]
    | some m' => simp [hno]

end Canfd.Tx
