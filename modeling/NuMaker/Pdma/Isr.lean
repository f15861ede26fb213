/-
The interrupt handler of a PDMA module.

`pdma_isr` reads INTSTS and the three status registers one after another, clears
what it read, and then serves the channels with a flag.  The hardware may raise a
flag between any two register accesses, so each access is a step of its own
(`Access.exec`); serving a channel touches no flag and is one step
(`pdma_isr_serve`).  Both modules run their handlers side by side.

The handler always ends (`Isr.step_rank`).
-/
import NuMaker.Pdma.Run

namespace Pdma

open NuUtils

def PDMA_CH_Msk : BitVec 32 := 0xFFFF
def PDMA_INTSTS_ABTIF_Msk : BitVec 32 := 0x1
def PDMA_INTSTS_TDIF_Msk : BitVec 32 := 0x2
def PDMA_INTSTS_ALIGNF_Msk : BitVec 32 := 0x4
def PDMA_INTSTS_REQTOFn_Pos : ℕ := 8
def PDMA_INTSTS_REQTOFn_Msk : BitVec 32 := PDMA_CH_Msk <<< PDMA_INTSTS_REQTOFn_Pos
def NU_PDMA_EVENT_ABORT : BitVec 32 := 0x1
def NU_PDMA_EVENT_TRANSFER_DONE : BitVec 32 := 0x2
def NU_PDMA_EVENT_ALIGNMENT : BitVec 32 := 0x4
def NU_PDMA_EVENT_TIMEOUT : BitVec 32 := 0x8

/-! ### Registers and locals -/

/-- The registers with a flag for each channel; `REQTOF` is the part of INTSTS with
the time-out flags. -/
inductive Sts
  | ABTSTS
  | TDSTS
  | ALIGN
  | REQTOF
  deriving DecidableEq, Repr

/-- The event a flag stands for. -/
def Sts.event : Sts → BitVec 32
  | .ABTSTS => NU_PDMA_EVENT_ABORT
  | .TDSTS => NU_PDMA_EVENT_TRANSFER_DONE
  | .ALIGN => NU_PDMA_EVENT_ALIGNMENT
  | .REQTOF => NU_PDMA_EVENT_TIMEOUT

/-- INTSTS: a read-only bit for each status register that has a flag set, and the
time-out flags. -/
def INTSTS (regs : Sts → BitVec 32) : BitVec 32 :=
  (if regs .ABTSTS ≠ 0 then PDMA_INTSTS_ABTIF_Msk else 0) |||
    (if regs .TDSTS ≠ 0 then PDMA_INTSTS_TDIF_Msk else 0) |||
    (if regs .ALIGN ≠ 0 then PDMA_INTSTS_ALIGNF_Msk else 0) |||
    (regs .REQTOF &&& PDMA_CH_Msk) <<< PDMA_INTSTS_REQTOFn_Pos

/-- The local variables of `pdma_isr`. -/
structure Locals where
  intsts : BitVec 32
  abtsts : BitVec 32
  tdsts : BitVec 32
  unalignsts : BitVec 32

namespace Locals

def reqto (l : Locals) : BitVec 32 := l.intsts &&& PDMA_INTSTS_REQTOFn_Msk

def reqto_ch (l : Locals) : BitVec 32 := l.reqto >>> PDMA_INTSTS_REQTOFn_Pos

/-- The sample of a register. -/
def sts (l : Locals) : Sts → BitVec 32
  | .ABTSTS => l.abtsts
  | .TDSTS => l.tdsts
  | .ALIGN => l.unalignsts
  | .REQTOF => l.reqto_ch

/-- The condition under which the sample is cleared. -/
def clears (l : Locals) : Sts → Bool
  | .ABTSTS => l.intsts &&& PDMA_INTSTS_ABTIF_Msk ≠ 0
  | .TDSTS => l.intsts &&& PDMA_INTSTS_TDIF_Msk ≠ 0
  | .ALIGN => l.intsts &&& PDMA_INTSTS_ALIGNF_Msk ≠ 0
  | .REQTOF => l.reqto ≠ 0

/-- `allch_sts` at first. -/
def allch_sts (l : Locals) : BitVec 32 := l.reqto_ch ||| l.tdsts ||| l.abtsts ||| l.unalignsts

end Locals

/-- A register access: reading a register (`REQTOF` with all of INTSTS), or clearing
its sample. -/
inductive Access
  | read (k : Sts)
  | clr (k : Sts)
  deriving DecidableEq, Repr

/-- The accesses of `pdma_isr`, in order. -/
def pdma_isr_accesses : List Access :=
  [.read .REQTOF, .read .ABTSTS, .read .TDSTS, .read .ALIGN,
    .clr .ABTSTS, .clr .TDSTS, .clr .ALIGN, .clr .REQTOF]

/-- One register access. -/
def Access.exec (regs : Sts → BitVec 32) (l : Locals) : Access → (Sts → BitVec 32) × Locals
  | .read .REQTOF => (regs, { l with intsts := INTSTS regs })
  | .read .ABTSTS => (regs, { l with abtsts := regs .ABTSTS })
  | .read .TDSTS => (regs, { l with tdsts := regs .TDSTS })
  | .read .ALIGN => (regs, { l with unalignsts := regs .ALIGN })
  | .clr k => (if l.clears k then Function.update regs k (regs k &&& ~~~l.sts k) else regs, l)

/-! ### Serving a channel -/

/-- What serving a channel does: the driver after it, the handler called and with
which events, and the id whose time-out is set again. -/
structure Served where
  drv : State
  event : Option (Handler × BitVec 32)
  rearmed : Option ℕ

/-- `ch_event`. -/
def chEvent (l : Locals) (ch_mask : BitVec 32) : BitVec 32 :=
  (if l.abtsts &&& ch_mask ≠ 0 then NU_PDMA_EVENT_ABORT else 0) |||
    (if l.tdsts &&& ch_mask ≠ 0 then NU_PDMA_EVENT_TRANSFER_DONE else 0) |||
    (if l.unalignsts &&& ch_mask ≠ 0 then NU_PDMA_EVENT_ALIGNMENT else 0) |||
    (if l.reqto_ch &&& ch_mask ≠ 0 then NU_PDMA_EVENT_TIMEOUT else 0)

/-- The body of the loop of `pdma_isr`, for channel `i` of module `module_id`. -/
def pdma_isr_serve (s : State) (module_id : ℕ) (l : Locals) (i : ℕ) : Served :=
  let j := i + module_id * PDMA_CH_MAX
  let ch_mask := bit i
  if s.nu_pdma_chn_mask_arr module_id &&& ch_mask ≠ 0 then
    let dma_chn := s.nu_pdma_chn_arr j
    match dma_chn.m_sCB_Event with
    | none => ⟨s, none, none⟩
    | some h =>
      let ch_event := chEvent l ch_mask
      let timeout := l.reqto_ch &&& ch_mask ≠ 0
      let wanted := dma_chn.m_u32EventFilter &&& ch_event ≠ 0
      let s :=
        if timeout then
          s.setPdma module_id (PDMA_DisableTimeout (s.pdma module_id) ch_mask)
        else s
      let s := s.call (dma_chn.m_sCB_Disable.toList.map .disable ++
        if wanted then [.event h ch_event] else [])
      let s := if timeout then (nu_pdma_timeout_set s j dma_chn.m_u32IdleTimeout_us).2 else s
      ⟨s, if wanted then some (h, ch_event) else none, if timeout then some j else none⟩
  else ⟨s, none, none⟩

/-! ### The system -/

/-- Where the handler of a module is: not running, at an access, or serving the
channels in `allch_sts`. -/
inductive Pc
  | idle
  | access (ops : List Access) (l : Locals)
  | serve (l : Locals) (allch_sts : BitVec 32)

/-- A call of a channel's event handler. -/
structure Event where
  mod : ℕ
  chn : ℕ
  handler : Handler
  u32Events : BitVec 32

/-- A time-out set again while serving a channel. -/
structure Rearm where
  mod : ℕ
  chn : ℕ
  id : ℕ

/-- The driver, the status registers and the handlers of the modules, with a record
of the flags raised and of what the handlers did. -/
structure Isr where
  drv : State
  regs : ℕ → Sts → BitVec 32
  pc : ℕ → Pc
  raised : ℕ → ℕ → Sts → ℕ
  events : List Event
  rearms : List Rearm

/-- The hardware raises a flag, or a handler is entered or goes on. -/
inductive IsrStep
  | raise (m i : ℕ) (k : Sts)
  | enter (m : ℕ)
  | isr (m : ℕ)

/-- A flag that is set stays set; otherwise it is raised once more. -/
def Isr.raise (σ : Isr) (m i : ℕ) (k : Sts) : Isr :=
  if (σ.regs m k).getLsbD i then σ
  else
    { σ with
      regs := Function.update σ.regs m (Function.update (σ.regs m) k (σ.regs m k ||| bit i))
      raised := fun m' i' k' => σ.raised m' i' k' + if m' = m ∧ i' = i ∧ k' = k then 1 else 0 }

/-- The handler of module `m` serves channel `i`. -/
def Isr.serve (σ : Isr) (m : ℕ) (l : Locals) (allch_sts : BitVec 32) (i : ℕ) : Isr :=
  let r := pdma_isr_serve σ.drv m l i
  { σ with
    drv := r.drv
    pc := Function.update σ.pc m (.serve l (allch_sts &&& ~~~bit i))
    events := σ.events ++ r.event.toList.map fun e => ⟨m, i, e.1, e.2⟩
    rearms := σ.rearms ++ r.rearmed.toList.map fun id => ⟨m, i, id⟩ }

/-- The handler of module `m` goes on at `pc`. -/
def Isr.goto (σ : Isr) (m : ℕ) (pc : Pc) : Isr := { σ with pc := Function.update σ.pc m pc }

/-- The handler of module `m` accesses a register. -/
def Isr.access (σ : Isr) (m : ℕ) (op : Access) (ops : List Access) (l : Locals) : Isr :=
  let r := op.exec (σ.regs m) l
  { σ with
    regs := Function.update σ.regs m r.1
    pc := Function.update σ.pc m (.access ops r.2) }

section Fields

variable (σ : Isr) (m : ℕ)

@[simp] theorem Isr.goto_pc (pc : Pc) : (σ.goto m pc).pc = Function.update σ.pc m pc := rfl

@[simp] theorem Isr.goto_regs (pc : Pc) : (σ.goto m pc).regs = σ.regs := rfl

@[simp] theorem Isr.access_pc (op : Access) (ops : List Access) (l : Locals) :
    (σ.access m op ops l).pc = Function.update σ.pc m (.access ops (op.exec (σ.regs m) l).2) := rfl

@[simp] theorem Isr.access_regs (op : Access) (ops : List Access) (l : Locals) :
    (σ.access m op ops l).regs = Function.update σ.regs m (op.exec (σ.regs m) l).1 := rfl

@[simp] theorem Isr.serve_pc (l : Locals) (a : BitVec 32) (i : ℕ) :
    (σ.serve m l a i).pc = Function.update σ.pc m (.serve l (a &&& ~~~bit i)) := rfl

@[simp] theorem Isr.serve_regs (l : Locals) (a : BitVec 32) (i : ℕ) :
    (σ.serve m l a i).regs = σ.regs := rfl

@[simp] theorem Isr.raise_pc (i : ℕ) (k : Sts) : (σ.raise m i k).pc = σ.pc := by
  rw [Isr.raise]
  split <;> rfl

end Fields

def Isr.step (σ : Isr) : IsrStep → Option Isr
  | .raise m i k => if m < PDMA_CNT ∧ i < PDMA_CH_MAX then some (σ.raise m i k) else none
  | .enter m =>
    match σ.pc m with
    | .idle =>
      if INTSTS (σ.regs m) ≠ 0 then some (σ.goto m (.access pdma_isr_accesses ⟨0, 0, 0, 0⟩))
      else none
    | .access _ _ => none
    | .serve _ _ => none
  | .isr m =>
    match σ.pc m with
    | .idle => none
    | .access [] l => some (σ.goto m (.serve l l.allch_sts))
    | .access (op :: ops) l => some (σ.access m op ops l)
    | .serve l allch_sts =>
      let i := nu_ctz allch_sts
      if i < PDMA_CH_MAX then some (σ.serve m l allch_sts i) else some (σ.goto m .idle)

/-- No flag is set and no handler runs. -/
def Isr.start (s : State) : Isr := ⟨s, fun _ _ => 0, fun _ => .idle, fun _ _ _ => 0, [], []⟩

/-- States of runs in which every step meets `P`. -/
inductive Isr.ReachableBy (P : Isr → IsrStep → Prop) (s : State) : Isr → Prop
  | start : ReachableBy P s (.start s)
  | step {σ σ' : Isr} {op : IsrStep} (h : ReachableBy P s σ) (hp : P σ op)
    (hs : σ.step op = some σ') : ReachableBy P s σ'

/-- What a step does. -/
inductive Isr.Does (σ : Isr) : IsrStep → Isr → Prop
  | raise (m i : ℕ) (k : Sts) (hm : m < PDMA_CNT) (hi : i < PDMA_CH_MAX) :
    Does σ (.raise m i k) (σ.raise m i k)
  | enter (m : ℕ) (hpc : σ.pc m = .idle) (hsts : INTSTS (σ.regs m) ≠ 0) :
    Does σ (.enter m) (σ.goto m (.access pdma_isr_accesses ⟨0, 0, 0, 0⟩))
  | access (m : ℕ) (op : Access) (ops : List Access) (l : Locals)
    (hpc : σ.pc m = .access (op :: ops) l) : Does σ (.isr m) (σ.access m op ops l)
  | sampled (m : ℕ) (l : Locals) (hpc : σ.pc m = .access [] l) :
    Does σ (.isr m) (σ.goto m (.serve l l.allch_sts))
  | serve (m : ℕ) (l : Locals) (allch_sts : BitVec 32) (hpc : σ.pc m = .serve l allch_sts)
    (hlt : nu_ctz allch_sts < PDMA_CH_MAX) :
    Does σ (.isr m) (σ.serve m l allch_sts (nu_ctz allch_sts))
  | leave (m : ℕ) (l : Locals) (allch_sts : BitVec 32) (hpc : σ.pc m = .serve l allch_sts)
    (hge : ¬ nu_ctz allch_sts < PDMA_CH_MAX) : Does σ (.isr m) (σ.goto m .idle)

theorem Isr.step_does {σ σ' : Isr} {op : IsrStep} (h : σ.step op = some σ') : σ.Does op σ' := by
  cases op with
  | raise m i k =>
    rw [Isr.step] at h
    split at h
    · rename_i hlt
      obtain rfl := Option.some.inj h
      exact .raise m i k hlt.1 hlt.2
    · exact absurd h (by simp)
  | enter m =>
    rw [Isr.step] at h
    split at h
    · rename_i hpc
      split at h
      · rename_i hsts
        obtain rfl := Option.some.inj h
        exact .enter m hpc hsts
      · exact absurd h (by simp)
    · exact absurd h (by simp)
    · exact absurd h (by simp)
  | isr m =>
    rw [Isr.step] at h
    split at h
    · exact absurd h (by simp)
    · rename_i l hpc
      obtain rfl := Option.some.inj h
      exact .sampled m l hpc
    · rename_i op ops l hpc
      obtain rfl := Option.some.inj h
      exact .access m op ops l hpc
    · rename_i l a hpc
      simp only at h
      split at h
      · rename_i hlt
        obtain rfl := Option.some.inj h
        exact .serve m l a hpc hlt
      · rename_i hge
        obtain rfl := Option.some.inj h
        exact .leave m l a hpc hge

/-- A handler that runs can go on. -/
theorem Isr.step_isr_isSome {σ : Isr} {m : ℕ} (h : σ.pc m ≠ .idle) :
    ∃ σ', σ.step (.isr m) = some σ' := by
  rw [Isr.step]
  split
  · exact absurd ‹_› h
  · exact ⟨_, rfl⟩
  · exact ⟨_, rfl⟩
  · simp only
    split
    · exact ⟨_, rfl⟩
    · exact ⟨_, rfl⟩

/-! ### The handler ends -/

/-- How many steps of its own the handler may still take. -/
def Pc.rank : Pc → ℕ
  | .idle => 0
  | .access ops _ => ops.length + 34
  | .serve _ allch_sts => (tokenSet allch_sts).card + 1

theorem tokenSet_card_le (x : BitVec 32) : (tokenSet x).card ≤ 32 := by
  have := Finset.card_filter_le (Finset.range 32) fun i => x.getLsbD i = true
  rwa [Finset.card_range] at this

/-- Serving a channel takes its bit out. -/
theorem tokenSet_card_lt {x : BitVec 32} {k : ℕ} (h : x.getLsbD k = true) :
    (tokenSet (x &&& ~~~bit k)).card < (tokenSet x).card := by
  refine Finset.card_lt_card (Finset.ssubset_iff_subset_ne.mpr ⟨fun i hi => ?_, fun heq => ?_⟩)
  · rw [mem_tokenSet, getLsbD_clear_bit, Bool.and_eq_true] at hi
    exact mem_tokenSet.mpr hi.1
  · have hk : k ∈ tokenSet (x &&& ~~~bit k) := by
      rw [heq]
      exact mem_tokenSet.mpr h
    rw [mem_tokenSet, getLsbD_clear_bit] at hk
    simp at hk

theorem nu_ctz_bit {x : BitVec 32} (h : nu_ctz x < PDMA_CH_MAX) : x.getLsbD (nu_ctz x) = true := by
  have h0 : x ≠ 0 := by
    rintro rfl
    exact absurd h (by decide)
  exact (nu_ctz_lowest h0).isSet

/-- A step of a handler brings it closer to its end. -/
theorem Isr.isr_rank {σ σ' : Isr} {m : ℕ} (h : σ.step (.isr m) = some σ') :
    (σ'.pc m).rank < (σ.pc m).rank := by
  cases Isr.step_does h with
  | access m op ops l hpc =>
    simp only [Isr.access_pc, hpc, Function.update_self, Pc.rank, List.length_cons]
    omega
  | sampled m l hpc =>
    simp only [Isr.goto_pc, hpc, Function.update_self, Pc.rank, List.length_nil]
    have := tokenSet_card_le l.allch_sts
    omega
  | serve m l a hpc hlt =>
    simp only [Isr.serve_pc, hpc, Function.update_self, Pc.rank]
    have := tokenSet_card_lt (nu_ctz_bit hlt)
    omega
  | leave m l a hpc hge =>
    simp only [Isr.goto_pc, hpc, Function.update_self, Pc.rank]
    omega

/-- Only its own steps move a handler that runs. -/
theorem Isr.step_pc {σ σ' : Isr} {op : IsrStep} {m : ℕ} (h : σ.step op = some σ')
    (hm : σ.pc m ≠ .idle) (hop : op ≠ .isr m) : σ'.pc m = σ.pc m := by
  cases Isr.step_does h with
  | raise m' i k hm' hi => rw [Isr.raise_pc]
  | enter m' hpc hsts =>
    have hne : m ≠ m' := fun he => hm (he ▸ hpc)
    exact Function.update_of_ne hne _ _
  | access m' op ops l hpc => exact Function.update_of_ne (fun he => hop (by rw [he])) _ _
  | sampled m' l hpc => exact Function.update_of_ne (fun he => hop (by rw [he])) _ _
  | serve m' l a hpc hlt => exact Function.update_of_ne (fun he => hop (by rw [he])) _ _
  | leave m' l a hpc hge => exact Function.update_of_ne (fun he => hop (by rw [he])) _ _

/-- **The handler ends**: its rank never grows while it runs, and each step of its own
lowers it. -/
theorem Isr.step_rank {σ σ' : Isr} {op : IsrStep} (h : σ.step op = some σ') {m : ℕ}
    (hm : σ.pc m ≠ .idle) :
    (σ'.pc m).rank ≤ (σ.pc m).rank ∧ (op = .isr m → (σ'.pc m).rank < (σ.pc m).rank) := by
  by_cases hop : op = .isr m
  · subst hop
    have := Isr.isr_rank h
    exact ⟨le_of_lt this, fun _ => this⟩
  · exact ⟨le_of_eq (congrArg Pc.rank (Isr.step_pc h hm hop)), fun hc => absurd hc hop⟩

end Pdma
