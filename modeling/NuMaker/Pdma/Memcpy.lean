/-
Memory copies by DMA are copies.

A job that starts moves its units and gives its worker back, one that does not start
is waited for in vain (`nu_pdma_memfun_done`, `nu_pdma_memfun_never`).  All jobs of a
copy but the first have one unit, so what becomes of the copy is settled by the
first (`copyRight_iff`).
-/
import NuMaker.Pdma.Memfun
import NuMaker.Pdma.Handlers
import NuMaker.Pdma.Start

namespace Pdma

open NuUtils

/-! ### Workers -/

/-- Worker `idx` has the channel `id`, which is in use, and nothing to wait for. -/
structure Worker (σ : Memfun) (idx id : ℕ) : Prop where
  chn : (σ.nu_pdma_memfun_actor_arr idx).m_i32ModChnID = some id
  isChn : IsChn id
  used : nu_pdma_check_is_nonallocated σ.drv id = false
  sem : (σ.nu_pdma_memfun_actor_arr idx).m_psSemMemFun = 0

/-- The workers not employed. -/
def idle (mask : BitVec 32) : Finset ℕ := tokenSet (~~~mask)

theorem mem_idle {mask : BitVec 32} {i : ℕ} : i ∈ idle mask ↔ i < 32 ∧ mask.getLsbD i = false := by
  rw [idle, mem_tokenSet, BitVec.getLsbD_not]
  simp

/-- The semaphore of the pool counts the idle workers, and each worker has a channel. -/
structure Memfun.Ok (σ : Memfun) : Prop where
  world : σ.world.Ok
  pool : ∀ n, σ.nu_pdma_memfun_actor_pool_sem = some n →
    n = (idle σ.nu_pdma_memfun_actor_mask).card ∧
      ∀ idx ∈ idle σ.nu_pdma_memfun_actor_mask, idx < σ.nu_pdma_memfun_actor_maxnum
  workers : ∀ idx < σ.nu_pdma_memfun_actor_maxnum, ∃ id, Worker σ idx id

/-- The same workers are idle. -/
structure SameWorkers (σ σ' : Memfun) : Prop where
  mask : σ'.nu_pdma_memfun_actor_mask = σ.nu_pdma_memfun_actor_mask
  pool : σ'.nu_pdma_memfun_actor_pool_sem = σ.nu_pdma_memfun_actor_pool_sem
  maxnum : σ'.nu_pdma_memfun_actor_maxnum = σ.nu_pdma_memfun_actor_maxnum
  chn : ∀ idx, (σ'.nu_pdma_memfun_actor_arr idx).m_i32ModChnID =
    (σ.nu_pdma_memfun_actor_arr idx).m_i32ModChnID

theorem SameWorkers.refl (σ : Memfun) : SameWorkers σ σ := ⟨rfl, rfl, rfl, fun _ => rfl⟩

theorem SameWorkers.trans {σ σ' σ'' : Memfun} (h : SameWorkers σ σ') (h' : SameWorkers σ' σ'') :
    SameWorkers σ σ'' :=
  ⟨h'.mask.trans h.mask, h'.pool.trans h.pool, h'.maxnum.trans h.maxnum,
    fun idx => (h'.chn idx).trans (h.chn idx)⟩

/-- Whether a channel is in use is read off the mask. -/
theorem nonallocated_congr {s s' : State} (h : s'.core.mask = s.core.mask) (id : ℕ) :
    nu_pdma_check_is_nonallocated s' id = nu_pdma_check_is_nonallocated s id :=
  congrArg (fun m : ℕ → BitVec 32 => decide (m (modIdx id) &&& bit (chnIdx id) = 0)) h

/-- What changes no channel in use, no worker and no semaphore. -/
theorem Memfun.Ok.of_same {σ σ' : Memfun} (hok : σ.Ok) (h : SameWorkers σ σ') (hw : σ'.world.Ok)
    (hmask : σ'.drv.core.mask = σ.drv.core.mask)
    (hsem : ∀ idx, (σ'.nu_pdma_memfun_actor_arr idx).m_psSemMemFun =
      (σ.nu_pdma_memfun_actor_arr idx).m_psSemMemFun) : σ'.Ok := by
  refine ⟨hw, fun n hn => ?_, fun idx hidx => ?_⟩
  · rw [h.mask, h.maxnum]
    exact hok.pool n (h.pool ▸ hn)
  · obtain ⟨id, hid⟩ := hok.workers idx (h.maxnum ▸ hidx)
    exact ⟨id, (h.chn idx).trans hid.chn, hid.isChn, (nonallocated_congr hmask id).trans hid.used,
      (hsem idx).trans hid.sem⟩

/-- The first idle worker is employed. -/
theorem employ_done {σ : Memfun} (hok : σ.Ok) {n : ℕ}
    (hp : σ.nu_pdma_memfun_actor_pool_sem = some (n + 1)) :
    ∃ id, Worker σ (nu_cto σ.nu_pdma_memfun_actor_mask) id ∧
      nu_cto σ.nu_pdma_memfun_actor_mask ∈ idle σ.nu_pdma_memfun_actor_mask ∧
      employ σ = .done (nu_cto σ.nu_pdma_memfun_actor_mask,
        σ.employed (nu_cto σ.nu_pdma_memfun_actor_mask) n) := by
  obtain ⟨hcard, hlt⟩ := hok.pool _ hp
  obtain ⟨i, hi⟩ := Finset.card_pos.mp (show 0 < (idle _).card by rw [← hcard]; omega)
  obtain ⟨hi32, hclear⟩ := mem_idle.mp hi
  have h32 : nu_cto σ.nu_pdma_memfun_actor_mask < 32 :=
    lt_of_le_of_lt (nu_cto_le_of_clear hi32 hclear) hi32
  have hmem := mem_idle.mpr ⟨h32, (nu_cto_spec h32).1⟩
  obtain ⟨id, hid⟩ := hok.workers _ (hlt _ hmem)
  refine ⟨id, hid, hmem, ?_⟩
  rw [employ, hp]
  simp only [employLoop, ne_eq, Nat.ne_of_lt h32, not_false_iff, if_true]

/-- A worker employed and given back. -/
theorem clear_set_bit {mask : BitVec 32} {i : ℕ} (h : i ∈ idle mask) :
    (mask ||| bit i) &&& ~~~bit i = mask := by
  refine BitVec.eq_of_getLsbD_eq fun j _ => ?_
  rw [getLsbD_clear_bit, getLsbD_set_bit]
  by_cases hj : j = i
  · subst hj
    rw [(mem_idle.mp h).2]
    simp
  · simp [hj]

/-! ### A job -/

theorem memfunSetup_eq {s : State} {id : ℕ} (ha : nu_pdma_check_is_nonallocated s id = false)
    (idx : ℕ) : memfunSetup s id idx .eMemCtl_SrcInc_DstInc = s.setChn (arrayIdx id)
      { s.nu_pdma_chn_arr (arrayIdx id) with
        m_eMemCtl := .eMemCtl_SrcInc_DstInc
        m_u32EventFilter := NU_PDMA_EVENT_ABORT ||| NU_PDMA_EVENT_TRANSFER_DONE
        m_sCB_Event := some idx } := by
  have hset : ∀ c, nu_pdma_check_is_nonallocated (s.setChn (arrayIdx id) c) id = false := fun _ => ha
  have hidem : ∀ c c', (s.setChn (arrayIdx id) c).setChn (arrayIdx id) c' =
      s.setChn (arrayIdx id) c' := by
    intro c c'
    rw [State.setChn, State.setChn, State.setChn, Function.update_idem]
  simp [memfunSetup, nu_pdma_channel_memctrl_set, ha, nu_pdma_filtering_set, hset, hidem,
    nu_pdma_callback_register]

/-- `pdma_isr` passes a transfer that is done to the worker. -/
theorem serve_transferDone {s : State} {id idx : ℕ} (hid : IsChn id)
    (ha : nu_pdma_check_is_nonallocated s id = false)
    (hcb : (s.nu_pdma_chn_arr (arrayIdx id)).m_sCB_Event = some idx)
    (hf : (s.nu_pdma_chn_arr (arrayIdx id)).m_u32EventFilter =
      NU_PDMA_EVENT_ABORT ||| NU_PDMA_EVENT_TRANSFER_DONE) :
    (pdma_isr_serve s (modIdx id) (transferDone (chnIdx id)) (chnIdx id)).event =
        some (idx, NU_PDMA_EVENT_TRANSFER_DONE) ∧
      (pdma_isr_serve s (modIdx id) (transferDone (chnIdx id)) (chnIdx id)).drv.core = s.core := by
  have hev : ∀ c < 16, chEvent (transferDone c) (bit c) = NU_PDMA_EVENT_TRANSFER_DONE ∧
    (transferDone c).reqto_ch &&& bit c = 0 := by decide
  obtain ⟨hev, hto⟩ := hev (chnIdx id) hid.2
  have hj : chnIdx id + modIdx id * PDMA_CH_MAX = arrayIdx id := Nat.add_comm _ _
  have hused : s.nu_pdma_chn_mask_arr (modIdx id) &&& bit (chnIdx id) ≠ 0 := of_decide_eq_false ha
  have hwant : (NU_PDMA_EVENT_ABORT ||| NU_PDMA_EVENT_TRANSFER_DONE) &&& NU_PDMA_EVENT_TRANSFER_DONE ≠
    0 := by decide
  rw [pdma_isr_serve]
  simp only [if_pos hused, hj, hcb, hf, hev, hto, if_pos hwant, ne_eq, not_true_eq_false, if_false]
  exact ⟨trivial, rfl⟩

theorem ChainReady.congr {c c' : Core} (hchain : c'.chain = c.chain) (htoken : c'.token = c.token)
    (id n : ℕ) (malloc : Option (ℕ → nu_pdma_desc_t)) :
    ChainReady c' id n malloc ↔ ChainReady c id n malloc := by
  have htake : c'.takable id = c.takable id := by
    refine Finset.filter_congr fun i _ => ?_
    rw [Core.own, Core.own, hchain, htoken]
  rw [ChainReady, ChainReady, htake, hchain]

theorem TransferDone.frame {c c' : Core} {id n : ℕ} {malloc : Option (ℕ → nu_pdma_desc_t)} {ret : ℤ}
    (h : TransferDone c id n malloc ret c') : c'.mask = c.mask ∧ c'.ctl = c.ctl := by
  cases h with
  | same => exact ⟨rfl, rfl⟩
  | gone => exact ⟨rfl, rfl⟩
  | replaced => exact ⟨rfl, rfl⟩

/-- The channel of a worker as it is set up for a job. -/
structure SetUp (σ : Memfun) (idx id : ℕ) (s : State) : Prop where
  ok : s.core.Ok
  mask : s.core.mask = σ.drv.core.mask
  chain : s.core.chain = σ.drv.core.chain
  token : s.core.token = σ.drv.core.token
  ctl : (s.nu_pdma_chn_arr (arrayIdx id)).m_eMemCtl = .eMemCtl_SrcInc_DstInc
  event : (s.nu_pdma_chn_arr (arrayIdx id)).m_sCB_Event = some idx
  filter : (s.nu_pdma_chn_arr (arrayIdx id)).m_u32EventFilter =
    NU_PDMA_EVENT_ABORT ||| NU_PDMA_EVENT_TRANSFER_DONE

theorem memfunSetup_done {σ : Memfun} (hok : σ.Ok) {idx id : ℕ} (hid : Worker σ idx id) :
    SetUp σ idx id (memfunSetup σ.drv id idx .eMemCtl_SrcInc_DstInc) := by
  rw [memfunSetup_eq hid.used]
  have hcore := State.core_setChn σ.drv (arrayIdx id) { σ.drv.nu_pdma_chn_arr (arrayIdx id) with
    m_eMemCtl := .eMemCtl_SrcInc_DstInc
    m_u32EventFilter := NU_PDMA_EVENT_ABORT ||| NU_PDMA_EVENT_TRANSFER_DONE
    m_sCB_Event := some idx }
  have hchain : Function.update σ.drv.core.chain (arrayIdx id)
      ((σ.drv.nu_pdma_chn_arr (arrayIdx id)).m_ppsSgtbl,
        (σ.drv.nu_pdma_chn_arr (arrayIdx id)).m_u32WantedSGTblNum) = σ.drv.core.chain :=
    Function.update_eq_self _ _
  simp only [hchain] at hcore
  refine ⟨?_, by rw [hcore], by rw [hcore], by rw [hcore], by simp, by simp, by simp⟩
  rw [hcore]
  exact ⟨hok.world.tables.inited, hok.world.tables.token_lt, hok.world.tables.chain_ok⟩

/-- The units a job of `n` units moves. -/
def moved (n : ℕ) : ℕ := if 65536 < n ∧ 65536 ∣ n then n + 65536 else n

/-- A job is done: its units are moved and its worker is idle again. -/
structure JobDone (σ : Memfun) (dest src : BitVec 32) (w n : ℕ) (σ' : Memfun) : Prop where
  mem : σ'.mem = σ.mem.moves dest src (w / 8) (moved n)
  workers : SameWorkers σ σ'
  ok : σ'.Ok

/-- The wait for a job that was granted. -/
theorem waitDone_granted {σ : Memfun} {idx id : ℕ}
    (hsem : (σ.nu_pdma_memfun_actor_arr idx).m_psSemMemFun = 0)
    (hev : (pdma_isr_serve σ.drv (modIdx id) (transferDone (chnIdx id)) (chnIdx id)).event =
      some (idx, NU_PDMA_EVENT_TRANSFER_DONE)) :
    waitDone σ idx id true = some (({ σ with mem := engine σ.drv id σ.mem }.setDrv
      (pdma_isr_serve σ.drv (modIdx id) (transferDone (chnIdx id)) (chnIdx id)).drv).setActor idx
        { σ.nu_pdma_memfun_actor_arr idx with m_u32Result := NU_PDMA_EVENT_TRANSFER_DONE }) := by
  have htake : rt_sem_take σ idx = none := by simp [rt_sem_take, hsem]
  simp only [waitDone, htake, if_true, complete, hev]
  simp [rt_sem_take, nu_pdma_memfun_cb, Memfun.setActor, Memfun.setDrv, hsem]

/-- The wait for a job that was not granted never ends. -/
theorem waitDone_refused {σ : Memfun} {idx : ℕ}
    (hsem : (σ.nu_pdma_memfun_actor_arr idx).m_psSemMemFun = 0) (id : ℕ) :
    waitDone σ idx id false = none := by
  have htake : rt_sem_take σ idx = none := by simp [rt_sem_take, hsem]
  simp [waitDone, htake]

section Job

variable {σ : Memfun} {idx id : ℕ} {dest src : BitVec 32} {w n : ℕ}
  {malloc : Option (ℕ → nu_pdma_desc_t)}

/-- The transfer of a job starts exactly when it fits in a descriptor or a chain can be had. -/
theorem job_starts_iff (hok : σ.Ok) (hid : Worker σ idx id) (hw : w = 8 ∨ w = 16 ∨ w = 32)
    (hdest : dest.toNat % (w / 8) = 0) (hsrc : src.toNat % (w / 8) = 0) (h0 : n ≠ 0) :
    (∃ s', nu_pdma_transfer (memfunSetup σ.drv id idx .eMemCtl_SrcInc_DstInc) id w src dest n 0
      malloc = some (RT_EOK, s')) ↔ n ≤ 65536 ∨ ChainReady σ.drv.core id n malloc := by
  have hset := memfunSetup_done hok hid
  have hused : nu_pdma_check_is_nonallocated (memfunSetup σ.drv id idx .eMemCtl_SrcInc_DstInc) id =
      false := by
    rw [← hid.used]
    exact nonallocated_congr hset.mask id
  rw [nu_pdma_transfer_starts_iff hw hsrc hdest hset.ok hid.isChn hused h0,
    ChainReady.congr hset.chain hset.token]

/-- A transfer that started, as the worker's channel sees it. -/
theorem job_started (hok : σ.Ok) (hid : Worker σ idx id) (hw : 8 ∣ w) {s' : State}
    (h : nu_pdma_transfer (memfunSetup σ.drv id idx .eMemCtl_SrcInc_DstInc) id w src dest n 0
      malloc = some (RT_EOK, s')) :
    s'.core.Ok ∧ s'.core.mask = σ.drv.core.mask ∧
      (∀ M, engine s' id M = M.moves dest src (w / 8) (moved n)) ∧
      (pdma_isr_serve s' (modIdx id) (transferDone (chnIdx id)) (chnIdx id)).event =
        some (idx, NU_PDMA_EVENT_TRANSFER_DONE) ∧
      (pdma_isr_serve s' (modIdx id) (transferDone (chnIdx id)) (chnIdx id)).drv.core = s'.core := by
  have hset := memfunSetup_done hok hid
  have hsame := nu_pdma_transfer_same h
  have hdone := nu_pdma_transfer_done hset.ok h
  obtain ⟨hmask, hctl⟩ := hdone.frame
  obtain ⟨l, hlen, hmoves⟩ := nu_pdma_transfer_handed hset.ok hid.isChn h
  have hmask' : s'.core.mask = σ.drv.core.mask := hmask.trans hset.mask
  have he : (s'.nu_pdma_chn_arr (arrayIdx id)).m_eMemCtl = .eMemCtl_SrcInc_DstInc :=
    (congrArg Prod.snd (congrFun hctl (arrayIdx id))).trans hset.ctl
  have hused : nu_pdma_check_is_nonallocated s' id = false := by
    rw [← hid.used]
    exact nonallocated_congr hmask' id
  exact ⟨hdone.ok hset.ok, hmask', hmoves.engine hw hlen he, serve_transferDone hid.isChn hused
    ((hsame.event _).trans hset.event) ((hsame.filter _).trans hset.filter)⟩

/-- **A job that starts** is done. -/
theorem nu_pdma_memfun_done (hok : σ.Ok) {k : ℕ}
    (hp : σ.nu_pdma_memfun_actor_pool_sem = some (k + 1))
    (hid : Worker σ (nu_cto σ.nu_pdma_memfun_actor_mask) id) (hw : w = 8 ∨ w = 16 ∨ w = 32)
    (hdest : dest.toNat % (w / 8) = 0) (hsrc : src.toNat % (w / 8) = 0) (h0 : n ≠ 0)
    (h : n ≤ 65536 ∨ ChainReady σ.drv.core id n malloc) :
    ∃ σ', nu_pdma_memfun σ dest src w n .eMemCtl_SrcInc_DstInc malloc = .done (n, σ') ∧
      JobDone σ dest src w n σ' := by
  obtain ⟨id', hid', hmem, hemp⟩ := employ_done hok hp
  obtain rfl : id' = id := Option.some.inj (hid'.chn.symm.trans hid.chn)
  obtain ⟨s', hs'⟩ := (job_starts_iff hok hid hw hdest hsrc h0).mpr h
  have hw8 : 8 ∣ w := by rcases hw with rfl | rfl | rfl <;> decide
  obtain ⟨hok', hmask, heng, hev, hcore⟩ := job_started hok hid hw8 hs'
  generalize hidx : nu_cto σ.nu_pdma_memfun_actor_mask = idx at *
  -- the worker between its employment and the end of the transfer call
  obtain ⟨σ₂, hσ₂⟩ : ∃ σ₂ : Memfun, σ₂ = ((σ.employed idx k).programmed idx id'
    .eMemCtl_SrcInc_DstInc).setDrv s' := ⟨_, rfl⟩
  have hdrv : σ₂.drv = s' := by rw [hσ₂, Memfun.setDrv_drv]
  have hsem : (σ₂.nu_pdma_memfun_actor_arr idx).m_psSemMemFun = 0 := by
    rw [hσ₂, Memfun.setDrv_actor, Memfun.programmed_actor, Function.update_self]
    exact hid.sem
  have hwait := @waitDone_granted σ₂ idx id' hsem (by rw [hdrv]; exact hev)
  obtain ⟨σ₃, hσ₃⟩ : ∃ σ₃ : Memfun, σ₃ = (({ σ₂ with mem := engine σ₂.drv id' σ₂.mem }.setDrv
      (pdma_isr_serve σ₂.drv (modIdx id') (transferDone (chnIdx id')) (chnIdx id')).drv).setActor idx
        { σ₂.nu_pdma_memfun_actor_arr idx with m_u32Result := NU_PDMA_EVENT_TRANSFER_DONE }) :=
    ⟨_, rfl⟩
  rw [← hσ₃] at hwait
  have hres : memfunResult σ₃ idx id' n = (n, fire σ₃ idx) := by
    have hact : (σ₃.nu_pdma_memfun_actor_arr idx).m_u32Result = NU_PDMA_EVENT_TRANSFER_DONE := by
      rw [hσ₃]
      simp [Memfun.setActor]
    rw [memfunResult, hact]
    rfl
  refine ⟨fire σ₃ idx, ?_, ?_⟩
  · unfold nu_pdma_memfun
    simp only [hemp, Memfun.employed_actor, hid.chn, Memfun.programmed_drv, Memfun.employed_drv, hs',
      ← hσ₂, decide_true, hwait, hres]
  · have hact : ∀ j, (σ₃.nu_pdma_memfun_actor_arr j).m_i32ModChnID =
        (σ.nu_pdma_memfun_actor_arr j).m_i32ModChnID ∧
        (σ₃.nu_pdma_memfun_actor_arr j).m_psSemMemFun =
          (σ.nu_pdma_memfun_actor_arr j).m_psSemMemFun := by
      intro j
      rw [hσ₃, hσ₂]
      by_cases hj : j = idx
      · subst hj
        simp [Memfun.setActor]
      · simp [Memfun.setActor, hj]
    have hcore' : (fire σ₃ idx).drv.core = s'.core := by
      rw [← hcore, ← hdrv, hσ₃]
      rfl
    have hsame : SameWorkers σ (fire σ₃ idx) := by
      refine ⟨?_, ?_, ?_, fun j => (hact j).1⟩
      · rw [hσ₃, hσ₂]
        exact clear_set_bit hmem
      · rw [hσ₃, hσ₂, hp]
        rfl
      · rw [hσ₃, hσ₂]
        rfl
    have harrays : (fire σ₃ idx).world.arrays = σ.world.arrays := by
      rw [hσ₃, hσ₂]
      rfl
    refine ⟨?_, hsame, hok.of_same hsame ⟨?_, ?_⟩ ?_ fun j => (hact j).2⟩
    · rw [← heng, ← hdrv, hσ₃, hσ₂]
      rfl
    · show (fire σ₃ idx).drv.core.Ok
      rwa [hcore']
    · rw [harrays]
      exact hok.world.arrays
    · rw [hcore', hmask]

/-- **A job that does not start** is waited for in vain. -/
theorem nu_pdma_memfun_never (hok : σ.Ok) {k : ℕ}
    (hp : σ.nu_pdma_memfun_actor_pool_sem = some (k + 1))
    (hid : Worker σ (nu_cto σ.nu_pdma_memfun_actor_mask) id) (hw : w = 8 ∨ w = 16 ∨ w = 32)
    (hdest : dest.toNat % (w / 8) = 0) (hsrc : src.toNat % (w / 8) = 0) (h0 : n ≠ 0)
    (h : ¬ (n ≤ 65536 ∨ ChainReady σ.drv.core id n malloc)) :
    nu_pdma_memfun σ dest src w n .eMemCtl_SrcInc_DstInc malloc = .never := by
  obtain ⟨id', hid', hmem, hemp⟩ := employ_done hok hp
  obtain rfl : id' = id := Option.some.inj (hid'.chn.symm.trans hid.chn)
  rw [← job_starts_iff hok hid hw hdest hsrc h0] at h
  generalize hidx : nu_cto σ.nu_pdma_memfun_actor_mask = idx at *
  unfold nu_pdma_memfun
  simp only [hemp, Memfun.employed_actor, hid.chn, Memfun.programmed_drv, Memfun.employed_drv]
  cases htr : nu_pdma_transfer (memfunSetup σ.drv id' idx .eMemCtl_SrcInc_DstInc) id' w src dest n 0
    malloc with
  | none => rfl
  | some r =>
    obtain ⟨ret, s'⟩ := r
    have hret : ret ≠ RT_EOK := fun hc => h ⟨s', by rw [htr, hc]⟩
    have hsem : ((((σ.employed idx k).programmed idx id' .eMemCtl_SrcInc_DstInc).setDrv
        s').nu_pdma_memfun_actor_arr idx).m_psSemMemFun = 0 := by
      rw [Memfun.setDrv_actor, Memfun.programmed_actor, Function.update_self]
      exact hid.sem
    simp only [decide_eq_false hret, waitDone_refused hsem]

end Job

/-! ### The jobs of a copy -/

theorem pieceFits_aligned {dest src : BitVec 32} {off rem i : ℕ} (h : pieceFits dest src off rem i) :
    (dest + BitVec.ofNat 32 off).toNat % i = 0 ∧ (src + BitVec.ofNat 32 off).toNat % i = 0 ∧
      i ≤ rem / i * i :=
  ⟨h.1 ▸ h.2.1, h.2.1, h.2.2⟩

/-- Bytes always fit. -/
theorem pieceFits_one {dest src : BitVec 32} {off rem : ℕ} (h : rem ≠ 0) :
    pieceFits dest src off rem 1 := by
  refine ⟨by rw [Nat.mod_one, Nat.mod_one], Nat.mod_one _, ?_⟩
  rw [RT_ALIGN_DOWN]
  omega

/-- The unit sizes. -/
def IsUnit (i : ℕ) : Prop := i = 4 ∨ i = 2 ∨ i = 1

/-- Moving units of a size that both addresses are a multiple of is copying. -/
theorem moves_eq_copy_of_aligned (M : TracedMem 32) {dest src : BitVec 32} {i : ℕ} (hi : IsUnit i)
    (hdest : dest.toNat % i = 0) (hsrc : src.toNat % i = 0) (n : ℕ) :
    M.moves dest src i n = M.copy dest src (n * i) := by
  refine TracedMem.moves_eq_copy M dest src ?_ ?_ n
  · rcases hi with rfl | rfl | rfl <;> decide
  · rw [BitVec.toNat_sub]
    rcases hi with rfl | rfl | rfl
    · omega
    · omega
    · exact one_dvd _

/-- What a part of the copy has come to. -/
structure PartDone (σ : Memfun) (dest src : BitVec 32) (n : ℕ) (σ' : Memfun) : Prop where
  mem : σ'.mem = σ.mem.copy dest src n
  workers : SameWorkers σ σ'
  ok : σ'.Ok

/-- A job of units that fit. -/
theorem JobDone.part {σ σ' : Memfun} {dest src : BitVec 32} {i n : ℕ} (hi : IsUnit i)
    (hdest : dest.toNat % i = 0) (hsrc : src.toNat % i = 0) (h : JobDone σ dest src (i * 8) n σ') :
    PartDone σ dest src (moved n * i) σ' := by
  refine ⟨?_, h.workers, h.ok⟩
  rw [h.mem, Nat.mul_div_cancel _ (by decide)]
  exact moves_eq_copy_of_aligned _ hi hdest hsrc _

theorem PartDone.trans {σ σ' σ'' : Memfun} {dest src : BitVec 32} {m n : ℕ}
    (h : PartDone σ dest src m σ')
    (h' : PartDone σ' (dest + BitVec.ofNat 32 m) (src + BitVec.ofNat 32 m) n σ'') :
    PartDone σ dest src (m + n) σ'' :=
  ⟨by rw [h'.mem, h.mem, TracedMem.copy_add], h.workers.trans h'.workers, h'.ok⟩

section Loop

variable {dest src : BitVec 32} {malloc : Option (ℕ → nu_pdma_desc_t)}

/-- Up to 65536 bytes, every job starts and the loop copies all of them. -/
theorem memcpyLoop_done {is : List ℕ} (his : ∀ i ∈ is, IsUnit i) : ∀ {σ : Memfun} {k off rem : ℕ},
    σ.Ok → σ.nu_pdma_memfun_actor_pool_sem = some (k + 1) → rem ≤ 65536 → 1 ∈ is ∨ rem = 0 →
    ∃ σ', memcpyLoop dest src malloc is σ off rem = .done (some (off + rem), σ') ∧
      PartDone σ (dest + BitVec.ofNat 32 off) (src + BitVec.ofNat 32 off) rem σ' := by
  induction is with
  | nil =>
    intro σ k off rem hok hp hrem h1
    obtain rfl : rem = 0 := h1.resolve_left (by simp)
    exact ⟨σ, rfl, rfl, .refl σ, hok⟩
  | cons i is ih =>
    intro σ k off rem hok hp hrem h1
    have hi := his i List.mem_cons_self
    have his' : ∀ j ∈ is, IsUnit j := fun j hj => his j (List.mem_cons_of_mem i hj)
    rw [memcpyLoop]
    by_cases h0 : rem = 0
    · subst h0
      rw [if_pos rfl]
      exact ⟨σ, rfl, rfl, .refl σ, hok⟩
    · rw [if_neg h0]
      by_cases hfit : pieceFits dest src off rem i
      · obtain ⟨hdest, hsrc, hle⟩ := pieceFits_aligned hfit
        have hn0 : rem / i ≠ 0 := by
          intro hc
          rw [hc] at hle
          rcases hi with rfl | rfl | rfl <;> omega
        have hn : rem / i ≤ 65536 := le_trans (Nat.div_le_self _ _) hrem
        have hmul : rem / i * i ≤ rem := Nat.div_mul_le_self _ _
        have hw : i * 8 = 8 ∨ i * 8 = 16 ∨ i * 8 = 32 := by
          rcases hi with rfl | rfl | rfl <;> decide
        have hw8 : i * 8 / 8 = i := Nat.mul_div_cancel _ (by decide)
        obtain ⟨id, hid, -, -⟩ := employ_done hok hp
        obtain ⟨σ₁, hrun, hjob⟩ : ∃ σ₁, nu_pdma_memfun σ (dest + BitVec.ofNat 32 off)
            (src + BitVec.ofNat 32 off) (i * 8) (rem / i) .eMemCtl_SrcInc_DstInc malloc =
              .done (rem / i, σ₁) ∧ JobDone σ (dest + BitVec.ofNat 32 off)
            (src + BitVec.ofNat 32 off) (i * 8) (rem / i) σ₁ :=
          nu_pdma_memfun_done hok hp hid hw (by rwa [hw8]) (by rwa [hw8]) hn0 (Or.inl hn)
        have hpart := hjob.part hi hdest hsrc
        rw [moved, if_neg fun hc => absurd hc.1 (Nat.not_lt.mpr hn)] at hpart
        have hrest : 1 ∈ is ∨ rem - rem / i * i = 0 := by
          rcases h1 with h1 | h1
          · rcases List.mem_cons.mp h1 with rfl | h1
            · right
              omega
            · exact Or.inl h1
          · exact absurd h1 h0
        obtain ⟨σ₂, hloop, hpart₂⟩ := @ih his' σ₁ k (off + rem / i * i) (rem - rem / i * i)
          hpart.ok (by rw [hpart.workers.pool, hp]) (by omega) hrest
        refine ⟨σ₂, ?_, ?_⟩
        · simp only [if_pos hfit, hrun, ne_eq, not_true_eq_false, if_false, hloop]
          congr 3
          omega
        · rw [← TracedMem.add_ofNat_add, ← TracedMem.add_ofNat_add] at hpart₂
          have hsum := hpart.trans hpart₂
          rwa [Nat.add_sub_cancel' hmul] at hsum
      · rw [if_neg hfit]
        have hrest : 1 ∈ is ∨ rem = 0 := by
          rcases h1 with h1 | h1
          · rcases List.mem_cons.mp h1 with rfl | h1
            · exact absurd (pieceFits_one h0) hfit
            · exact Or.inl h1
          · exact Or.inr h1
        exact ih his' hok hp hrem hrest

/-- The unit size of the first job. -/
def leadUnit (dest src : BitVec 32) (count : ℕ) : ℕ :=
  if pieceFits dest src 0 count 4 then 4 else if pieceFits dest src 0 count 2 then 2 else 1

/-- The loop passes over the unit sizes that do not fit. -/
theorem memcpyLoop_lead (σ : Memfun) {count : ℕ} (h0 : count ≠ 0) :
    IsUnit (leadUnit dest src count) ∧ pieceFits dest src 0 count (leadUnit dest src count) ∧
    ∃ is, (∀ i ∈ is, IsUnit i) ∧ (1 ∈ is ∨ leadUnit dest src count = 1) ∧
      memcpyLoop dest src malloc [4, 2, 1] σ 0 count =
        memcpyLoop dest src malloc (leadUnit dest src count :: is) σ 0 count := by
  by_cases h4 : pieceFits dest src 0 count 4
  · rw [leadUnit, if_pos h4]
    exact ⟨Or.inl rfl, h4, [2, 1], by simp [IsUnit], by simp, rfl⟩
  · have hskip4 : memcpyLoop dest src malloc [4, 2, 1] σ 0 count =
        memcpyLoop dest src malloc [2, 1] σ 0 count := by
      rw [memcpyLoop, if_neg h0, if_neg h4]
    rw [leadUnit, if_neg h4, hskip4]
    by_cases h2 : pieceFits dest src 0 count 2
    · rw [if_pos h2]
      exact ⟨Or.inr (Or.inl rfl), h2, [1], by simp [IsUnit], by simp, rfl⟩
    · rw [if_neg h2, memcpyLoop, if_neg h0, if_neg h2]
      exact ⟨Or.inr (Or.inr rfl), pieceFits_one h0, [], by simp, by simp, rfl⟩

end Loop

/-! ### The copy -/

/-- Every job of the copy can be started: there is a pool of workers, and the first job
fits in a descriptor or can have a chain; the others have one unit. -/
def CanStart (σ : Memfun) (dest src : BitVec 32) (count : ℕ)
    (malloc : Option (ℕ → nu_pdma_desc_t)) : Prop :=
  σ.nu_pdma_memfun_actor_pool_sem ≠ none ∧
    ∃ id, (σ.nu_pdma_memfun_actor_arr (nu_cto σ.nu_pdma_memfun_actor_mask)).m_i32ModChnID = some id ∧
      (count / leadUnit dest src count ≤ 65536 ∨
        ChainReady σ.drv.core id (count / leadUnit dest src count) malloc)

/-- What comes of a copy. -/
inductive CopyDone (σ : Memfun) (dest src : BitVec 32) (count : ℕ)
    (malloc : Option (ℕ → nu_pdma_desc_t)) : Outcome (Option (BitVec 32) × Memfun) → Prop
  | empty (h : count = 0) : CopyDone σ dest src count malloc (.done (some dest, σ))
  | busy (h0 : count ≠ 0) (hp : σ.nu_pdma_memfun_actor_pool_sem = some 0) :
    CopyDone σ dest src count malloc .noWorker
  | stuck (h0 : count ≠ 0) (hp : σ.nu_pdma_memfun_actor_pool_sem ≠ some 0)
    (hs : ¬ CanStart σ dest src count malloc) : CopyDone σ dest src count malloc .never
  | copied {σ₁ σ₂} (h0 : count ≠ 0) (hp : σ.nu_pdma_memfun_actor_pool_sem ≠ some 0)
    (hs : CanStart σ dest src count malloc)
    (h₁ : PartDone σ dest src
      (moved (count / leadUnit dest src count) * leadUnit dest src count) σ₁)
    (h₂ : PartDone σ₁
      (dest + BitVec.ofNat 32 (count / leadUnit dest src count * leadUnit dest src count))
      (src + BitVec.ofNat 32 (count / leadUnit dest src count * leadUnit dest src count))
      (count - count / leadUnit dest src count * leadUnit dest src count) σ₂) :
    CopyDone σ dest src count malloc (.done (some dest, σ₂))

theorem nu_pdma_memcpy_done {σ : Memfun} (hok : σ.Ok) (dest src : BitVec 32) (count : ℕ)
    (malloc : Option (ℕ → nu_pdma_desc_t)) :
    CopyDone σ dest src count malloc (nu_pdma_memcpy σ dest src count malloc) := by
  rw [nu_pdma_memcpy]
  by_cases h0 : count = 0
  · subst h0
    exact .empty rfl
  · obtain ⟨hi, hfit, is, his, h1, hloop⟩ := @memcpyLoop_lead dest src malloc σ count h0
    rw [hloop]
    generalize hlead : leadUnit dest src count = i at hi hfit h1
    have hzero : ∀ a : BitVec 32, a + BitVec.ofNat 32 0 = a := fun a => BitVec.add_zero a
    obtain ⟨hdest, hsrc, hle⟩ := pieceFits_aligned hfit
    rw [hzero] at hdest hsrc
    have hw : i * 8 = 8 ∨ i * 8 = 16 ∨ i * 8 = 32 := by
      rcases hi with rfl | rfl | rfl <;> decide
    have hw8 : i * 8 / 8 = i := Nat.mul_div_cancel _ (by decide)
    have hn0 : count / i ≠ 0 := by
      intro hc
      rw [hc] at hle
      rcases hi with rfl | rfl | rfl <;> omega
    rw [memcpyLoop, if_neg h0, if_pos hfit, hzero, hzero]
    cases hp : σ.nu_pdma_memfun_actor_pool_sem with
    | none =>
      have hemp : employ σ = .never := by rw [employ, hp]
      simp only [nu_pdma_memfun, hemp]
      exact .stuck h0 (by simp [hp]) fun hs => hs.1 hp
    | some k =>
      cases k with
      | zero =>
        have hemp : employ σ = .noWorker := by
          rw [employ, hp]
          rfl
        simp only [nu_pdma_memfun, hemp]
        exact .busy h0 hp
      | succ k =>
        obtain ⟨id, hid, -, -⟩ := employ_done hok hp
        by_cases hstart : count / i ≤ 65536 ∨ ChainReady σ.drv.core id (count / i) malloc
        · obtain ⟨σ₁, hrun, hjob⟩ : ∃ σ₁, nu_pdma_memfun σ dest src (i * 8) (count / i)
              .eMemCtl_SrcInc_DstInc malloc = .done (count / i, σ₁) ∧
                JobDone σ dest src (i * 8) (count / i) σ₁ :=
            nu_pdma_memfun_done hok hp hid hw (by rwa [hw8]) (by rwa [hw8]) hn0 hstart
          have hpart := hjob.part hi hdest hsrc
          have hmul : count / i * i ≤ count := Nat.div_mul_le_self _ _
          -- what is left is less than a unit
          have hrest : count - count / i * i ≤ 65536 := by
            rcases hi with rfl | rfl | rfl <;> omega
          have h1' : 1 ∈ is ∨ count - count / i * i = 0 := by
            rcases h1 with h1 | rfl
            · exact Or.inl h1
            · right
              omega
          obtain ⟨σ₂, hloop₂, hpart₂⟩ := @memcpyLoop_done dest src malloc is his σ₁ k
            (count / i * i) (count - count / i * i) hpart.ok (by rw [hpart.workers.pool, hp]) hrest h1'
          simp only [hrun, ne_eq, not_true_eq_false, if_false, Nat.zero_add, hloop₂,
            Nat.add_sub_cancel' hmul, if_true]
          subst hlead
          exact .copied h0 (by simp [hp]) ⟨by simp [hp], id, hid.chn, hstart⟩ hpart hpart₂
        · have hnever : nu_pdma_memfun σ dest src (i * 8) (count / i) .eMemCtl_SrcInc_DstInc malloc =
              .never :=
            nu_pdma_memfun_never hok hp hid hw (by rwa [hw8]) (by rwa [hw8]) hn0 hstart
          simp only [hnever]
          refine .stuck h0 (by simp [hp]) ?_
          rintro ⟨-, id', hid', hs⟩
          obtain rfl := Option.some.inj (hid.chn.symm.trans hid')
          rw [hlead] at hs
          exact hstart hs

/-- What is right about the outcome of a copy: the bytes of the range are copied one by
one and no other address is written, or, if a job cannot be started, an error is
returned; the worker is idle again.  A caller that finds every worker employed waits
for one. -/
inductive CopyRight (σ : Memfun) (dest src : BitVec 32) (count : ℕ)
    (malloc : Option (ℕ → nu_pdma_desc_t)) : Outcome (Option (BitVec 32) × Memfun) → Prop
  | copied {σ'} (hmem : σ'.mem = σ.mem.copy dest src count) (hw : SameWorkers σ σ') :
    CopyRight σ dest src count malloc (.done (some dest, σ'))
  | refused {σ'} (hs : ¬ CanStart σ dest src count malloc) (hw : SameWorkers σ σ') :
    CopyRight σ dest src count malloc (.done (none, σ'))
  | waits (hp : σ.nu_pdma_memfun_actor_pool_sem = some 0) :
    CopyRight σ dest src count malloc .noWorker

theorem copyRight_iff {σ : Memfun} (hok : σ.Ok) (dest src : BitVec 32) (count : ℕ)
    (malloc : Option (ℕ → nu_pdma_desc_t)) :
    CopyRight σ dest src count malloc (nu_pdma_memcpy σ dest src count malloc) ↔
      count = 0 ∨ σ.nu_pdma_memfun_actor_pool_sem = some 0 ∨
        CanStart σ dest src count malloc ∧ (count / leadUnit dest src count ≤ 65536 ∨
          ¬ 65536 ∣ count / leadUnit dest src count) := by
  have hdone := nu_pdma_memcpy_done hok dest src count malloc
  generalize nu_pdma_memcpy σ dest src count malloc = r at hdone
  cases hdone with
  | empty h => exact ⟨fun _ => Or.inl h, fun _ => .copied (by rw [h]; rfl) (.refl σ)⟩
  | busy h0 hp => exact ⟨fun _ => Or.inr (Or.inl hp), fun _ => .waits hp⟩
  | stuck h0 hp hs =>
    constructor
    · intro h
      cases h
    · rintro (h | h | h)
      · exact absurd h h0
      · exact absurd h hp
      · exact absurd h.1 hs
  | @copied σ₁ σ₂ h0 hp hs h₁ h₂ =>
    have hmul : count / leadUnit dest src count * leadUnit dest src count ≤ count :=
      Nat.div_mul_le_self _ _
    generalize hlead : leadUnit dest src count = i at *
    constructor
    · intro h
      refine Or.inr (Or.inr ⟨hs, ?_⟩)
      by_contra hc
      rw [not_or, not_le, not_not] at hc
      cases h with
      | copied hmem hw =>
        -- the last descriptor moved 65536 units more, and all of them were written
        have hlen := congrArg (fun M : TracedMem 32 => M.written.length) hmem
        simp only [h₂.mem, h₁.mem, TracedMem.copy_written, List.length_append, List.length_map,
          List.length_range, moved, if_pos hc] at hlen
        have hi : 0 < i := by
          rw [← hlead, leadUnit]
          split
          · decide
          · split <;> decide
        have hmore : count / i * i < (count / i + 65536) * i := Nat.mul_lt_mul_of_pos_right (by omega) hi
        omega
    · intro h
      have hmoved : moved (count / i) = count / i := by
        rw [moved, if_neg]
        rintro ⟨hlt, hdvd⟩
        rcases h with h | h | ⟨-, hle | hn⟩
        · exact h0 h
        · exact hp h
        · omega
        · exact hn hdvd
      rw [hmoved] at h₁
      have hsum := h₁.trans h₂
      rw [Nat.add_sub_cancel' hmul] at hsum
      exact .copied hsum.mem hsum.workers

end Pdma
