/-
Memory copies by DMA.

A few workers, each with a channel and a semaphore, carry out the jobs of
`nu_pdma_memfun`: it employs a worker, programs its channel, waits for the job to be
done and gives the worker back.  `nu_pdma_memcpy` cuts a copy into jobs of words,
half-words and bytes.

A call that never returns is told apart from one that waits for another caller to
give a worker back (`Outcome`).
-/
import NuMaker.Pdma.Engine
import NuMaker.Pdma.Dispatch

namespace Pdma

open NuUtils

def NU_PDMA_MEMFUN_ACTOR_MAX : ℕ := 4
def PDMA_MEM : ℕ := 0

/-! ### State -/

/-- `nu_pdma_memfun_actor`: no channel where none was to be had, and the count of the
semaphore. -/
structure nu_pdma_memfun_actor where
  m_i32ModChnID : Option ℕ
  m_u32Result : BitVec 32
  m_psSemMemFun : ℕ

/-- The driver and its callers' arrays, the workers, and the memory.  The semaphore of
the pool is `none` as long as it is a null pointer. -/
structure Memfun where
  world : World
  nu_pdma_memfun_actor_arr : ℕ → nu_pdma_memfun_actor
  nu_pdma_memfun_actor_mask : BitVec 32
  nu_pdma_memfun_actor_maxnum : ℕ
  nu_pdma_memfun_actor_pool_sem : Option ℕ
  mem : TracedMem 32

namespace Memfun

def drv (σ : Memfun) : State := σ.world.drv

def setDrv (σ : Memfun) (s : State) : Memfun := { σ with world := { σ.world with drv := s } }

def setActor (σ : Memfun) (idx : ℕ) (a : nu_pdma_memfun_actor) : Memfun :=
  { σ with nu_pdma_memfun_actor_arr := Function.update σ.nu_pdma_memfun_actor_arr idx a }

end Memfun

/-- What comes of a call: it returns, it waits for a worker, or it never returns. -/
inductive Outcome (α : Type)
  | done (a : α)
  | noWorker
  | never

/-! ### Workers -/

/-- The loop of `nu_pdma_memfun_actor_init` from worker `i` on. -/
def nu_pdma_memfun_actor_init_loop : ℕ → ℕ → Memfun → ℕ × Memfun
  | 0, i, σ => (i, σ)
  | n + 1, i, σ =>
    let r := nu_pdma_channel_allocate σ.drv PDMA_MEM
    let σ := (σ.setDrv r.2).setActor i ⟨r.1, 0, 0⟩
    if r.1 ≠ none then nu_pdma_memfun_actor_init_loop n (i + 1) σ else (i, σ)

/-- `nu_pdma_memfun_actor_init`, the driver being initialised. -/
def nu_pdma_memfun_actor_init (σ : Memfun) : Memfun :=
  let (i, σ) := nu_pdma_memfun_actor_init_loop NU_PDMA_MEMFUN_ACTOR_MAX 0 σ
  if i ≠ 0 then
    { σ with
      nu_pdma_memfun_actor_maxnum := i
      nu_pdma_memfun_actor_mask := ~~~(bit i - 1)
      nu_pdma_memfun_actor_pool_sem := some i }
  else σ

/-- Worker `idx` is employed, which leaves `n` in the pool. -/
def Memfun.employed (σ : Memfun) (idx n : ℕ) : Memfun :=
  { σ with
    nu_pdma_memfun_actor_mask := σ.nu_pdma_memfun_actor_mask ||| bit idx
    nu_pdma_memfun_actor_pool_sem := some n }

/-- Calls of `nu_pdma_memfun_employ` until one finds a worker, with `n` the count of
the pool's semaphore; each takes one. -/
def employLoop (σ : Memfun) : ℕ → Outcome (ℕ × Memfun)
  | 0 => .noWorker
  | n + 1 =>
    let idx := nu_cto σ.nu_pdma_memfun_actor_mask
    if idx ≠ 32 then .done (idx, σ.employed idx n) else employLoop σ n

/-- `while ((idx = nu_pdma_memfun_employ()) < 0);`: without a pool it is always -1. -/
def employ (σ : Memfun) : Outcome (ℕ × Memfun) :=
  match σ.nu_pdma_memfun_actor_pool_sem with
  | none => .never
  | some n => employLoop σ n

/-- Give worker `idx` back. -/
def fire (σ : Memfun) (idx : ℕ) : Memfun :=
  { σ with
    nu_pdma_memfun_actor_mask := σ.nu_pdma_memfun_actor_mask &&& ~~~bit idx
    nu_pdma_memfun_actor_pool_sem := σ.nu_pdma_memfun_actor_pool_sem.map (· + 1) }

/-! ### A job -/

/-- `nu_pdma_memfun_cb`. -/
def nu_pdma_memfun_cb (σ : Memfun) (idx : ℕ) (u32Events : BitVec 32) : Memfun :=
  σ.setActor idx
    { σ.nu_pdma_memfun_actor_arr idx with
      m_u32Result := u32Events
      m_psSemMemFun := (σ.nu_pdma_memfun_actor_arr idx).m_psSemMemFun + 1 }

/-- Take the semaphore of a worker, if its count is not 0. -/
def rt_sem_take (σ : Memfun) (idx : ℕ) : Option Memfun :=
  let a := σ.nu_pdma_memfun_actor_arr idx
  if a.m_psSemMemFun ≠ 0 then some (σ.setActor idx { a with m_psSemMemFun := a.m_psSemMemFun - 1 })
  else none

/-- The samples of `pdma_isr` when a transfer of channel `c` is done. -/
def transferDone (c : ℕ) : Locals := ⟨PDMA_INTSTS_TDIF_Msk, 0, bit c, 0⟩

/-- The engine performs the job of channel `id`, and `pdma_isr` serves the channel. -/
def complete (σ : Memfun) (id : ℕ) : Memfun :=
  let r := pdma_isr_serve σ.drv (modIdx id) (transferDone (chnIdx id)) (chnIdx id)
  let σ := { σ with mem := engine σ.drv id σ.mem }.setDrv r.drv
  match r.event with
  | none => σ
  | some (idx, u32Events) => nu_pdma_memfun_cb σ idx u32Events

/-- Wait for the semaphore of worker `idx`; only a job that was granted is ever done. -/
def waitDone (σ : Memfun) (idx id : ℕ) (granted : Bool) : Option Memfun :=
  match rt_sem_take σ idx with
  | some σ => some σ
  | none => if granted then rt_sem_take (complete σ id) idx else none

/-- `nu_pdma_non_transfer_count_get`. -/
def nu_pdma_non_transfer_count_get (s : State) (id : ℕ) : ℕ :=
  ((s.pdma (modIdx id)).DSCT (chnIdx id)).TXCNT + 1

/-- How `nu_pdma_memfun` sets the channel of worker `idx` up. -/
def memfunSetup (s : State) (id idx : ℕ) (eMemCtl : nu_pdma_memctrl_t) : State :=
  let s := (nu_pdma_channel_memctrl_set s id eMemCtl).2
  let s := (nu_pdma_filtering_set s id (NU_PDMA_EVENT_ABORT ||| NU_PDMA_EVENT_TRANSFER_DONE)).2
  (nu_pdma_callback_register s id .eCBType_Event (some idx)).2

/-- Worker `idx` is ready to start a job. -/
def Memfun.programmed (σ : Memfun) (idx id : ℕ) (eMemCtl : nu_pdma_memctrl_t) : Memfun :=
  (σ.setDrv (memfunSetup σ.drv id idx eMemCtl)).setActor idx
    { σ.nu_pdma_memfun_actor_arr idx with m_u32Result := 0 }

/-- The part of `nu_pdma_memfun` after the wait. -/
def memfunResult (σ : Memfun) (idx id u32TransferCnt : ℕ) : ℕ × Memfun :=
  let m_u32Result := (σ.nu_pdma_memfun_actor_arr idx).m_u32Result
  let ret :=
    if m_u32Result &&& NU_PDMA_EVENT_TRANSFER_DONE ≠ 0 then u32TransferCnt
    else (BitVec.ofNat 32 u32TransferCnt -
      BitVec.ofNat 32 (nu_pdma_non_transfer_count_get σ.drv id)).toNat
  let σ :=
    if m_u32Result &&& NU_PDMA_EVENT_ABORT ≠ 0 then σ.setDrv (nu_pdma_channel_terminate σ.drv id)
    else σ
  (ret, fire σ idx)

/-- `nu_pdma_memfun`; what `nu_pdma_transfer` returns is not looked at. -/
def nu_pdma_memfun (σ : Memfun) (dest src : BitVec 32) (u32DataWidth u32TransferCnt : ℕ)
    (eMemCtl : nu_pdma_memctrl_t) (malloc : Option (ℕ → nu_pdma_desc_t)) : Outcome (ℕ × Memfun) :=
  match employ σ with
  | .noWorker => .noWorker
  | .never => .never
  | .done (idx, σ) =>
    match (σ.nu_pdma_memfun_actor_arr idx).m_i32ModChnID with
    | none => .never
    | some id =>
      let σ := σ.programmed idx id eMemCtl
      match nu_pdma_transfer σ.drv id u32DataWidth src dest u32TransferCnt 0 malloc with
      | none => .never
      | some (ret, s) =>
        match waitDone (σ.setDrv s) idx id (ret = RT_EOK) with
        | none => .never
        | some σ => .done (memfunResult σ idx id u32TransferCnt)

section Fields

variable (σ : Memfun) (idx id n : ℕ) (e : nu_pdma_memctrl_t) (s : State)

@[simp] theorem Memfun.setDrv_drv : (σ.setDrv s).drv = s := rfl

@[simp] theorem Memfun.setDrv_actor :
    (σ.setDrv s).nu_pdma_memfun_actor_arr = σ.nu_pdma_memfun_actor_arr := rfl

@[simp] theorem Memfun.employed_drv : (σ.employed idx n).drv = σ.drv := rfl

@[simp] theorem Memfun.employed_actor :
    (σ.employed idx n).nu_pdma_memfun_actor_arr = σ.nu_pdma_memfun_actor_arr := rfl

@[simp] theorem Memfun.programmed_drv :
    (σ.programmed idx id e).drv = memfunSetup σ.drv id idx e := rfl

@[simp] theorem Memfun.programmed_actor : (σ.programmed idx id e).nu_pdma_memfun_actor_arr =
    Function.update σ.nu_pdma_memfun_actor_arr idx
      { σ.nu_pdma_memfun_actor_arr idx with m_u32Result := 0 } := rfl

end Fields

/-! ### A copy -/

/-- `RT_ALIGN_DOWN`, for a power of two. -/
def RT_ALIGN_DOWN (size align : ℕ) : ℕ := size / align * align

/-- The condition for a job of `i`-byte units. -/
def pieceFits (dest src : BitVec 32) (u32Offset u32Remaining i : ℕ) : Prop :=
  let u32src := src + BitVec.ofNat 32 u32Offset
  let u32dest := dest + BitVec.ofNat 32 u32Offset
  u32src.toNat % i = u32dest.toNat % i ∧ u32src.toNat % i = 0 ∧ RT_ALIGN_DOWN u32Remaining i ≥ i

instance (dest src : BitVec 32) (u32Offset u32Remaining i : ℕ) :
    Decidable (pieceFits dest src u32Offset u32Remaining i) :=
  inferInstanceAs (Decidable (_ ∧ _))

/-- The loop of `nu_pdma_memcpy` over the unit sizes left; `none` when a job fell short. -/
def memcpyLoop (dest src : BitVec 32) (malloc : Option (ℕ → nu_pdma_desc_t)) :
    List ℕ → Memfun → ℕ → ℕ → Outcome (Option ℕ × Memfun)
  | [], σ, u32Offset, _ => .done (some u32Offset, σ)
  | i :: is, σ, u32Offset, u32Remaining =>
    if u32Remaining = 0 then .done (some u32Offset, σ)
    else if pieceFits dest src u32Offset u32Remaining i then
      let u32TXCnt := u32Remaining / i
      match nu_pdma_memfun σ (dest + BitVec.ofNat 32 u32Offset) (src + BitVec.ofNat 32 u32Offset)
          (i * 8) u32TXCnt .eMemCtl_SrcInc_DstInc malloc with
      | .noWorker => .noWorker
      | .never => .never
      | .done (ret, σ) =>
        if u32TXCnt ≠ ret then .done (none, σ)
        else memcpyLoop dest src malloc is σ (u32Offset + u32TXCnt * i) (u32Remaining - u32TXCnt * i)
    else memcpyLoop dest src malloc is σ u32Offset u32Remaining

/-- `nu_pdma_memcpy`; `none` for a null pointer. -/
def nu_pdma_memcpy (σ : Memfun) (dest src : BitVec 32) (count : ℕ)
    (malloc : Option (ℕ → nu_pdma_desc_t)) : Outcome (Option (BitVec 32) × Memfun) :=
  match memcpyLoop dest src malloc [4, 2, 1] σ 0 count with
  | .noWorker => .noWorker
  | .never => .never
  | .done (none, σ) => .done (none, σ)
  | .done (some u32Offset, σ) => .done (if count = u32Offset then some dest else none, σ)

/-! ### Runs -/

/-- A driver call by another caller, the start of the workers, a worker that another
caller employs or gives back, or a copy. -/
inductive MemOp
  | drv (op : Op)
  | actor_init
  | employ
  | fire (idx : ℕ)
  | memcpy (dest src : BitVec 32) (count : ℕ) (malloc : Option (ℕ → nu_pdma_desc_t))

/-- The successor of a state, `none` while the caller waits. -/
def Memfun.step (σ : Memfun) : MemOp → Option Memfun
  | .drv op => (σ.world.step op).map fun w => { σ with world := w }
  | .actor_init => some (nu_pdma_memfun_actor_init σ)
  | .employ =>
    match Pdma.employ σ with
    | .noWorker => none
    | .never => none
    | .done (_, σ) => some σ
  | .fire idx => some (Pdma.fire σ idx)
  | .memcpy dest src count malloc =>
    match nu_pdma_memcpy σ dest src count malloc with
    | .noWorker => none
    | .never => none
    | .done (_, σ) => some σ

/-- The workers are started once, no other caller frees a worker's channel, and only a
worker that is employed is given back. -/
def Memfun.Allowed (σ : Memfun) : MemOp → Prop
  | .drv op => σ.world.Allowed op ∧ ∀ idx < σ.nu_pdma_memfun_actor_maxnum, ∀ id,
    (σ.nu_pdma_memfun_actor_arr idx).m_i32ModChnID = some id → op ≠ .channel_free id
  | .actor_init => σ.nu_pdma_memfun_actor_pool_sem = none
  | .employ => True
  | .fire idx => idx < σ.nu_pdma_memfun_actor_maxnum ∧ σ.nu_pdma_memfun_actor_mask.getLsbD idx = true
  | .memcpy _ _ _ _ => True

/-- The system at boot. -/
def Memfun.boot (hclk : ℕ) (M : TracedMem 32) : Memfun :=
  ⟨.boot hclk, fun _ => ⟨none, 0, 0⟩, 0, 0, none, M⟩

/-- The states of all runs. -/
inductive Memfun.Reachable (hclk : ℕ) (M : TracedMem 32) : Memfun → Prop
  | boot : Reachable hclk M (.boot hclk M)
  | step {σ σ' : Memfun} {op : MemOp} (h : Reachable hclk M σ) (ha : σ.Allowed op)
    (hs : σ.step op = some σ') : Reachable hclk M σ'

end Pdma
