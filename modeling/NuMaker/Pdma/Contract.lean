/-
The error contract of the transfer calls.

A caller tests the answer of `nu_pdma_transfer` or `nu_pdma_sg_transfer`: 0 is to mean that the
channel was triggered, and a negative code that nothing was started.  The helpers return negative
codes and the two callers negate what they get, so a rejected descriptor comes back as +10 and an
exhausted pool as +1.

* **`launch_triggered`** — what starting the engine does to the channel;
* **`_nu_pdma_transfer_chain_ends`** — the three ways in which a chain transfer can end;
* **`contract_iff`** — the calls that keep the contract.
-/
import NuMaker.Pdma.Handlers
import NuMaker.Pdma.Start
import NuMaker.Pdma.SgList

namespace Pdma

/-! ### Starting the engine -/

/-- `_nu_pdma_transfer` on a descriptor at the offset `next` of the pool, with `u32ScatterEn` for
whether it is linked. -/
def launch (s : State) (id u32Peripheral : ℕ) (u32ScatterEn : Bool) (next : BitVec 32)
    (u32IdleTimeout_us : ℕ) : State :=
  let m := modIdx id
  let c := chnIdx id
  let s := s.setPdma m (PDMA_EnableInt_TRANS_DONE (PDMA_DisableTimeout (s.pdma m) (bit c)) c)
  let s := (nu_pdma_timeout_set s id u32IdleTimeout_us).2
  let s := s.setPdma m (PDMA_SetTransferMode (s.pdma m) c u32Peripheral u32ScatterEn next)
  if u32Peripheral = 0 then s.setPdma m (PDMA_Trigger (s.pdma m) c)
  else
    match (s.nu_pdma_chn_arr (arrayIdx id)).m_sCB_Trigger with
    | none => s
    | some h => s.call [.trigger h]

theorem _nu_pdma_transfer_eq_launch (s : State) (id p : ℕ) (head : Desc) (t : ℕ) :
    _nu_pdma_transfer s id p head t = launch s id p ((s.desc id head).NEXT ≠ 0)
      (match head with
        | .chan => 0
        | .tbl i => offsetOf i) t := by
  have hdesc : (nu_pdma_timeout_set (s.setPdma (modIdx id)
      (PDMA_EnableInt_TRANS_DONE (PDMA_DisableTimeout (s.pdma (modIdx id)) (bit (chnIdx id)))
        (chnIdx id))) id t).2.desc id head = s.desc id head := by
    rw [nu_pdma_timeout_set_desc]
    exact State.desc_setPdma _ _ _ rfl
  unfold _nu_pdma_transfer launch
  cases head <;> simp only [hdesc] <;> rfl

/-- The channel is triggered: its descriptor is in basic or scatter-gather mode, its interrupt is
on, its request source is selected, and the software request is made or the trigger handler, if
there is one, called. -/
structure Triggered (s s' : State) (id : ℕ) : Prop where
  chn : chnIdx id < PDMA_CH_MAX
  mode : (s'.desc id .chan).OPMODE = 1 ∨ (s'.desc id .chan).OPMODE = 2
  done : (s'.pdma (modIdx id)).INTEN.getLsbD (chnIdx id) = true
  source : field ((s'.pdma (modIdx id)).REQSEL (chnIdx id / 4)) (chnIdx id % 4 * 8) 7 =
    (BitVec.ofNat 32 (s.nu_pdma_chn_arr (arrayIdx id)).m_u32Peripheral).toNat % 2 ^ 7
  request :
    if (s.nu_pdma_chn_arr (arrayIdx id)).m_u32Peripheral = 0 then
      (s'.pdma (modIdx id)).SWREQ = bit (chnIdx id)
    else
      s'.calls = s.calls ++ (s.nu_pdma_chn_arr (arrayIdx id)).m_sCB_Trigger.toList.map .trigger

/-- Nothing was started: no register was written and no handler called. -/
structure Untouched (s s' : State) : Prop where
  pdma : s'.pdma = s.pdma
  calls : s'.calls = s.calls

/-- What `launch` relies on is as it was in `s`. -/
structure Prepared (s s' : State) : Prop where
  calls : s'.calls = s.calls
  trigger : ∀ k, (s'.nu_pdma_chn_arr k).m_sCB_Trigger = (s.nu_pdma_chn_arr k).m_sCB_Trigger
  peripheral : ∀ k, (s'.nu_pdma_chn_arr k).m_u32Peripheral = (s.nu_pdma_chn_arr k).m_u32Peripheral

/-- The idle timeout leaves the interrupt and the handler of the channel alone. -/
theorem nu_pdma_timeout_set_frame (s : State) (id t : ℕ) :
    (nu_pdma_timeout_set s id t).2.calls = s.calls ∧
    ((nu_pdma_timeout_set s id t).2.nu_pdma_chn_arr (arrayIdx id)).m_sCB_Trigger =
      (s.nu_pdma_chn_arr (arrayIdx id)).m_sCB_Trigger ∧
    ((nu_pdma_timeout_set s id t).2.pdma (modIdx id)).INTEN = (s.pdma (modIdx id)).INTEN := by
  rw [nu_pdma_timeout_set]
  split
  · exact ⟨rfl, rfl, rfl⟩
  · split
    · exact ⟨rfl, rfl, rfl⟩
    · simp only
      split
      · rename_i hc
        refine ⟨rfl, by simp, ?_⟩
        simp only [State.setPdma_pdma, Function.update_self, PDMA_SetTimeOut, if_pos hc.2]
        rfl
      · refine ⟨rfl, by simp, ?_⟩
        simp only [State.setPdma_pdma, Function.update_self]
        rfl

/-- **Starting the engine** triggers the channel. -/
theorem launch_triggered {s s1 : State} {id : ℕ} (hc : chnIdx id < PDMA_CH_MAX) (h : Prepared s s1)
    (scatter : Bool) (next : BitVec 32) (t : ℕ) :
    Triggered s (launch s1 id (s.nu_pdma_chn_arr (arrayIdx id)).m_u32Peripheral scatter next t) id := by
  set p := (s.nu_pdma_chn_arr (arrayIdx id)).m_u32Peripheral with hp
  obtain ⟨s2, hs2⟩ : ∃ s2 : State, s2 = (nu_pdma_timeout_set (s1.setPdma (modIdx id)
    (PDMA_EnableInt_TRANS_DONE (PDMA_DisableTimeout (s1.pdma (modIdx id)) (bit (chnIdx id)))
      (chnIdx id))) id t).2 := ⟨_, rfl⟩
  obtain ⟨hcalls, htrig, hinten⟩ := nu_pdma_timeout_set_frame (s1.setPdma (modIdx id)
    (PDMA_EnableInt_TRANS_DONE (PDMA_DisableTimeout (s1.pdma (modIdx id)) (bit (chnIdx id)))
      (chnIdx id))) id t
  rw [← hs2] at hcalls htrig hinten
  obtain ⟨q, hq⟩ : ∃ q, q = PDMA_SetTransferMode (s2.pdma (modIdx id)) (chnIdx id) p scatter next :=
    ⟨_, rfl⟩
  -- the mode, the interrupt and the source stand before the request is made
  have hmode : (q.DSCT (chnIdx id)).OPMODE = 1 ∨ (q.DSCT (chnIdx id)).OPMODE = 2 := by
    rw [hq, PDMA_SetTransferMode, if_pos hc]
    simp only [Function.update_self]
    cases scatter with
    | false =>
      left
      exact (started_basic ((s2.pdma (modIdx id)).DSCT (chnIdx id)) .chan).1
    | true =>
      right
      exact started_scatter ((s2.pdma (modIdx id)).DSCT (chnIdx id)) .chan
  have hdone : q.INTEN.getLsbD (chnIdx id) = true := by
    have hq' : q.INTEN = (s2.pdma (modIdx id)).INTEN := by
      rw [hq, PDMA_SetTransferMode, if_pos hc]
    rw [hq', hinten]
    simp only [State.setPdma_pdma, Function.update_self, PDMA_EnableInt_TRANS_DONE]
    rw [PDMA_CH_MAX] at hc
    rw [getLsbD_set_bit]
    simp
    omega
  have hsource : field (q.REQSEL (chnIdx id / 4)) (chnIdx id % 4 * 8) 7 =
      (BitVec.ofNat 32 p).toNat % 2 ^ 7 := by
    rw [hq, PDMA_SetTransferMode, if_pos hc]
    simp only [Function.update_self]
    exact field_setField_mod (by omega)
  unfold launch
  simp only [← hs2, ← hq]
  by_cases h0 : p = 0
  · have hreq : field (q.REQSEL (chnIdx id / 4)) (chnIdx id % 4 * 8) 7 = 0 := by
      rw [hsource, h0]
      rfl
    rw [if_pos h0, State.setPdma_pdma, Function.update_self, PDMA_Trigger, if_pos hreq]
    refine ⟨hc, ?_, ?_, ?_, ?_⟩
    · simpa [State.desc] using hmode
    · simpa using hdone
    · simpa using hsource
    · rw [← hp, if_pos h0]
      simp
  · rw [if_neg h0]
    have htrig' : ((s2.setPdma (modIdx id) q).nu_pdma_chn_arr (arrayIdx id)).m_sCB_Trigger =
        (s.nu_pdma_chn_arr (arrayIdx id)).m_sCB_Trigger := htrig.trans (h.trigger _)
    have hcalls' : (s2.setPdma (modIdx id) q).calls = s.calls := hcalls.trans h.calls
    cases hcb : (s.nu_pdma_chn_arr (arrayIdx id)).m_sCB_Trigger with
    | none =>
      simp only [htrig', hcb]
      refine ⟨hc, ?_, ?_, ?_, ?_⟩
      · simpa [State.desc] using hmode
      · simpa using hdone
      · simpa using hsource
      · rw [← hp, if_neg h0, hcalls', hcb]
        simp
    | some cb =>
      simp only [htrig', hcb]
      refine ⟨hc, ?_, ?_, ?_, ?_⟩
      · simpa [State.desc, State.call] using hmode
      · simpa [State.call] using hdone
      · simpa [State.call] using hsource
      · rw [← hp, if_neg h0, State.call, hcalls', hcb]
        simp

/-! ### The two calls -/

/-- `nu_pdma_sg_transfer` on a memory of descriptors; `none` when an assertion fails or the check
of the list is not through in `fuel` rounds. -/
def nu_pdma_sg_transfer (s : State) (M : SgMem) (fuel id : ℕ) (head : BitVec 32)
    (u32IdleTimeout_us : ℕ) : Option (ℤ × State) :=
  if head = 0 then some (-RT_EINVAL, s)
  else if modIdx id < PDMA_CNT then
    if nu_pdma_check_is_nonallocated s id then some (-RT_EINVAL, s)
    else
      match M.nu_pdma_sgtbls_valid fuel head with
      | none => none
      | some ret =>
        if ret ≠ RT_EOK then some (-ret, s)
        else
          some (RT_EOK, launch s id (s.nu_pdma_chn_arr (arrayIdx id)).m_u32Peripheral
            ((M.desc head).NEXT ≠ 0) (head - M.SCATBA) u32IdleTimeout_us)
  else none

/-- A call that is to start a channel. -/
inductive TransferCall
  | transfer (u32DataWidth : ℕ) (u32AddrSrc u32AddrDst : BitVec 32)
    (u32TransferCnt u32IdleTimeout_us : ℕ) (malloc : Option (ℕ → nu_pdma_desc_t))
  | sg_transfer (head : BitVec 32) (u32IdleTimeout_us : ℕ)

def TransferCall.run (s : State) (M : SgMem) (fuel id : ℕ) : TransferCall → Option (ℤ × State)
  | .transfer w src dst n t malloc => nu_pdma_transfer s id w src dst n t malloc
  | .sg_transfer head t => nu_pdma_sg_transfer s M fuel id head t

/-- What a caller relies on: the call returns, with 0 if it triggered the channel and with a
negative code if it started nothing. -/
def Contract (s : State) (M : SgMem) (id : ℕ) (c : TransferCall) : Prop :=
  ∃ fuel ret s', c.run s M fuel id = some (ret, s') ∧
    (ret = RT_EOK ∧ Triggered s s' id ∨ ret < 0 ∧ Untouched s s')

/-- A width of 8, 16 or 32 bits and addresses aligned to it. -/
structure Proper (u32DataWidth : ℕ) (u32AddrSrc u32AddrDst : BitVec 32) : Prop where
  width : u32DataWidth = 8 ∨ u32DataWidth = 16 ∨ u32DataWidth = 32
  src : u32AddrSrc.toNat % (u32DataWidth / 8) = 0
  dst : u32AddrDst.toNat % (u32DataWidth / 8) = 0

/-- The array for a new chain is asked for, and there is no memory. -/
structure NoMemory (c : Core) (id n : ℕ) (malloc : Option (ℕ → nu_pdma_desc_t)) : Prop where
  other : (c.chain (arrayIdx id)).2 ≠ n / 65536 + 1
  release : (c.chain (arrayIdx id)).2 = 0 ∨ (c.chain (arrayIdx id)).1.isSome = true
  malloc : malloc = none

/-- The calls that keep the contract: those on a channel not in use, those of no unit, those
that start on one of the 16 channels, those that get no memory for a chain, and the lists that
are rejected. -/
def Honours (s : State) (M : SgMem) (id : ℕ) : TransferCall → Prop
  | .transfer w src dst n _ malloc =>
    modIdx id < PDMA_CNT ∧ (nu_pdma_check_is_nonallocated s id = true ∨ n = 0 ∨
      (Proper w src dst ∧ chnIdx id < PDMA_CH_MAX ∧ (n ≤ 65536 ∨ ChainReady s.core id n malloc)) ∨
      (65536 < n ∧ NoMemory s.core id n malloc))
  | .sg_transfer head _ =>
    head = 0 ∨ modIdx id < PDMA_CNT ∧ (nu_pdma_check_is_nonallocated s id = true ∨
      ¬ M.Loops head ∧
        (chnIdx id < PDMA_CH_MAX ∨ ∃ fuel, M.nu_pdma_sgtbls_valid fuel head = some RT_ERROR))

/-! ### Setting up a descriptor -/

theorem TableSteps.untouched {id : ℕ} {s s' : State} (h : TableSteps id s s') : Untouched s s' := by
  induction h with
  | refl => exact ⟨rfl, rfl⟩
  | token _ t ih => exact ⟨ih.pdma, ih.calls⟩
  | chain _ arr num ih => exact ⟨ih.pdma, ih.calls⟩
  | table _ i d ih => exact ⟨ih.pdma, ih.calls⟩

theorem TableSteps.prepared {id : ℕ} {s s' : State} (h : TableSteps id s s') : Prepared s s' := by
  induction h with
  | refl => exact ⟨rfl, fun _ => rfl, fun _ => rfl⟩
  | token _ t ih => exact ⟨ih.calls, ih.trigger, ih.peripheral⟩
  | @chain s' _ arr num ih =>
    refine ⟨ih.calls, fun k => ?_, fun k => ?_⟩
    · rw [← ih.trigger k]
      by_cases hk : k = arrayIdx id <;> simp [hk]
    · rw [← ih.peripheral k]
      by_cases hk : k = arrayIdx id <;> simp [hk]
  | table _ i d ih => exact ⟨ih.calls, ih.trigger, ih.peripheral⟩

theorem Prepared.setDesc (s : State) (id : ℕ) (p : Desc) (d : DSCT_T) :
    Prepared s (s.setDesc id p d) := by
  cases p <;> exact ⟨rfl, fun _ => rfl, fun _ => rfl⟩

/-- A descriptor is set up for a proper width and proper addresses only. -/
theorem nu_pdma_desc_setup_proper {s : State} {id w n : ℕ} {p : Option Desc} {src dst : BitVec 32}
    {next : nu_pdma_desc_t} {silent : Bool}
    (h : (nu_pdma_desc_setup s id p w src dst n next silent).1 = RT_EOK) : Proper w src dst := by
  have hinval : -RT_EINVAL ≠ RT_EOK := by decide
  unfold nu_pdma_desc_setup at h
  cases p with
  | none => exact absurd h hinval
  | some q =>
    simp only at h
    split at h
    · exact absurd h hinval
    · split at h
      · exact absurd h hinval
      · rename_i hw
        split at h
        · exact absurd h hinval
        · rename_i hal
          rw [not_or, not_not, not_not] at hal
          exact ⟨not_not.mp hw, hal.1, hal.2⟩

theorem chainAddr_zero (inc : Bool) (a : BitVec 32) : chainAddr inc a 0 = a := by
  cases inc <;> simp [chainAddr]

/-- The descriptor loop succeeds, or passes on the code of the set-up that was rejected. -/
theorem chainLoop_ret (id w : ℕ) (src dst : BitVec 32) (e : nu_pdma_memctrl_t) :
    ∀ (l : List nu_pdma_desc_t) (s : State) (n off : ℕ),
    (chainLoop id w src dst e s l n off).1 = RT_EOK ∨
      (chainLoop id w src dst e s l n off).1 = -RT_EINVAL := by
  intro l
  induction l with
  | nil => exact fun _ _ _ => Or.inl rfl
  | cons p l ih =>
    intro s n off
    rw [chainLoop]
    split
    · rename_i hret
      rcases nu_pdma_desc_setup_cases s id (p.map .tbl) w (chainAddr e.srcInc src off)
        (chainAddr e.dstInc dst off) (chainTxCnt n) (l.headD none) (decide ¬ l = []) with
        hrej | ⟨q, d, -, hset⟩
      · exact Or.inr (congrArg Prod.fst hrej)
      · exact absurd (congrArg Prod.fst hset) hret
    · exact ih ..

/-! ### The chain transfer -/

/-- Preparing a chain succeeds, gets no memory, or runs out of descriptors. -/
theorem chainPrepare_ret {s s' : State} {id n : ℕ} {malloc : Option (ℕ → nu_pdma_desc_t)} {ret : ℤ}
    (hok : s.core.Ok) (h : chainPrepare s id n malloc = some (ret, s')) :
    ret = RT_EOK ∨ ret = -RT_ERROR ∨ (ret = RT_ERROR ∧ NoMemory s.core id n malloc) := by
  rw [chainPrepare] at h
  by_cases hw : (s.nu_pdma_chn_arr (arrayIdx id)).m_u32WantedSGTblNum ≠ n / NU_PDMA_MAX_TXCNT + 1
  · rw [if_pos hw] at h
    cases hr : chainRelease s id with
    | none =>
      rw [hr] at h
      exact absurd h (by simp)
    | some s0 =>
      simp only [hr] at h
      have hrel := (chainRelease_isSome_iff hok).mp (by rw [hr]; rfl)
      cases malloc with
      | none =>
        obtain ⟨rfl, -⟩ := Prod.mk.injEq .. ▸ Option.some.inj h
        exact Or.inr (Or.inr ⟨rfl, hw, hrel, rfl⟩)
      | some words =>
        rw [chainObtain] at h
        simp only at h
        split at h
        · exact absurd h (by simp)
        · rename_i ret1 s1 arr1 ha
          obtain ⟨rfl, -⟩ := Prod.mk.injEq .. ▸ Option.some.inj h
          rcases nu_pdma_sgtbls_allocate_cases (by simp) ha with ⟨hret, -⟩ | ⟨hret, -⟩
          · exact Or.inl hret
          · exact Or.inr (Or.inl hret)
  · rw [if_neg hw] at h
    obtain ⟨rfl, -⟩ := Prod.mk.injEq .. ▸ Option.some.inj h
    exact Or.inl rfl

theorem chainExit_ret {s s' : State} {id : ℕ} {ret ret' : ℤ}
    (h : chainExit s id ret = some (ret', s')) : ret' = -ret ∧ TableSteps id s s' := by
  rw [chainExit] at h
  cases hf : _nu_pdma_sgtbls_free s id with
  | none =>
    rw [hf] at h
    exact absurd h (by simp)
  | some s1 =>
    rw [hf] at h
    obtain ⟨rfl, rfl⟩ := Prod.mk.injEq .. ▸ Option.some.inj h
    exact ⟨rfl, _nu_pdma_sgtbls_free_steps hf⟩

/-- How a chain transfer ends, if no assertion stops it. -/
inductive ChainEnds (s : State) (id w : ℕ) (src dst : BitVec 32) (n t : ℕ)
    (malloc : Option (ℕ → nu_pdma_desc_t)) : ℤ → State → Prop
  | started {s1 : State} {scatter : Bool} {next : BitVec 32} (hp : Proper w src dst)
    (hs : TableSteps id s s1) : ChainEnds s id w src dst n t malloc RT_EOK
      (launch s1 id (s.nu_pdma_chn_arr (arrayIdx id)).m_u32Peripheral scatter next t)
  | refused {ret : ℤ} {s' : State} (hret : 0 < ret) : ChainEnds s id w src dst n t malloc ret s'
  | noMemory {s' : State} (hm : NoMemory s.core id n malloc) (hs : TableSteps id s s') :
    ChainEnds s id w src dst n t malloc (-RT_ERROR) s'

/-- **The three ways in which a chain transfer ends**: the channel is started, or a positive code
comes back, or there was no memory for the chain. -/
theorem _nu_pdma_transfer_chain_ends {s s' : State} {id w n t : ℕ} {src dst : BitVec 32}
    {malloc : Option (ℕ → nu_pdma_desc_t)} {ret : ℤ} (hok : s.core.Ok)
    (h : _nu_pdma_transfer_chain s id w src dst n t malloc = some (ret, s')) :
    ChainEnds s id w src dst n t malloc ret s' := by
  unfold _nu_pdma_transfer_chain at h
  simp only at h
  cases hp : chainPrepare s id n malloc with
  | none =>
    rw [hp] at h
    exact absurd h (by simp)
  | some r =>
    obtain ⟨ret1, s1⟩ := r
    simp only [hp] at h
    have hsteps := chainPrepare_steps hp
    by_cases hret : ret1 ≠ RT_EOK
    · rw [if_pos hret] at h
      obtain ⟨rfl, hexit⟩ := chainExit_ret h
      rcases chainPrepare_ret hok hp with hc | rfl | ⟨rfl, hm⟩
      · exact absurd hc hret
      · exact .refused (by decide)
      · exact .noMemory hm (hsteps.trans hexit)
    · obtain rfl : ret1 = RT_EOK := not_not.mp hret
      rw [if_neg hret] at h
      cases harr : (s1.nu_pdma_chn_arr (arrayIdx id)).m_ppsSgtbl with
      | none =>
        rw [harr] at h
        exact absurd h (by simp)
      | some arr =>
        simp only [harr] at h
        have hloop := chainLoop_steps id w src dst (s.nu_pdma_chn_arr (arrayIdx id)).m_eMemCtl arr s1 n 0
        by_cases hrun : (chainLoop id w src dst (s.nu_pdma_chn_arr (arrayIdx id)).m_eMemCtl s1 arr n
            0).1 ≠ RT_EOK
        · rw [if_pos hrun] at h
          obtain ⟨rfl, -⟩ := chainExit_ret h
          rw [(chainLoop_ret ..).resolve_left hrun]
          exact .refused (by decide)
        · rw [if_neg hrun] at h
          cases arr with
          | nil => exact absurd h (by simp)
          | cons p arr =>
            cases p with
            | none => exact absurd h (by simp)
            | some i =>
              simp only [List.headD_cons] at h
              obtain ⟨rfl, rfl⟩ := Prod.mk.injEq .. ▸ Option.some.inj h
              -- the first descriptor was set up at the addresses of the transfer
              have hproper : Proper w src dst := by
                rw [not_not, chainLoop] at hrun
                split at hrun
                · rename_i hc
                  exact absurd hrun hc
                · rename_i hc
                  have hset := nu_pdma_desc_setup_proper (not_not.mp hc)
                  rwa [chainAddr_zero, chainAddr_zero] at hset
              rw [_nu_pdma_transfer_eq_launch]
              exact .started hproper (hsteps.trans hloop)

/-- Without memory the chain transfer fails with a negative code. -/
theorem _nu_pdma_transfer_chain_noMemory {s : State} {id w n t : ℕ} {src dst : BitVec 32}
    {malloc : Option (ℕ → nu_pdma_desc_t)} (hok : s.core.Ok) (hm : NoMemory s.core id n malloc) :
    ∃ s', _nu_pdma_transfer_chain s id w src dst n t malloc = some (-RT_ERROR, s') := by
  obtain ⟨s0, hr⟩ := Option.isSome_iff_exists.mp ((chainRelease_isSome_iff hok).mpr hm.release)
  have hw : (s.nu_pdma_chn_arr (arrayIdx id)).m_u32WantedSGTblNum ≠ n / NU_PDMA_MAX_TXCNT + 1 :=
    hm.other
  have hne : RT_ERROR ≠ RT_EOK := by decide
  unfold _nu_pdma_transfer_chain chainPrepare
  simp only [if_pos hw, hr, hm.malloc, chainObtain, if_pos hne, chainExit, _nu_pdma_sgtbls_free,
    State.setChn_nu_pdma_chn_arr, Function.update_self]
  exact ⟨_, rfl⟩

/-! ### The contract -/

section Contract

variable {s : State} {M : SgMem} {id : ℕ}

/-- A transfer in one descriptor: the channel's own. -/
theorem nu_pdma_transfer_single {w n t : ℕ} {src dst : BitVec 32}
    {malloc : Option (ℕ → nu_pdma_desc_t)} (hm : modIdx id < PDMA_CNT)
    (ha : nu_pdma_check_is_nonallocated s id = false) (h0 : n ≠ 0) (hn : n ≤ 65536) {ret : ℤ}
    {s' : State} (h : nu_pdma_transfer s id w src dst n t malloc = some (ret, s')) :
    (0 < ret ∨ ret = RT_EOK ∧ Proper w src dst ∧ ∃ s1 scatter next, Prepared s s1 ∧
      s' = launch s1 id (s.nu_pdma_chn_arr (arrayIdx id)).m_u32Peripheral scatter next t) := by
  have hle : ¬ n > NU_PDMA_MAX_TXCNT := Nat.not_lt.mpr hn
  rw [nu_pdma_transfer, if_pos hm] at h
  simp only [ha, Bool.false_eq_true, if_false, h0, hle] at h
  rcases nu_pdma_desc_setup_cases s id (some .chan) w src dst n none false with hrej | ⟨q, d, -, hset⟩
  · have hne : -RT_EINVAL ≠ RT_EOK := by decide
    rw [hrej] at h
    simp only [if_pos hne] at h
    obtain ⟨rfl, -⟩ := Prod.mk.injEq .. ▸ Option.some.inj h
    exact Or.inl (by decide)
  · have hproper := nu_pdma_desc_setup_proper (congrArg Prod.fst hset)
    rw [hset] at h
    simp only [ne_eq, not_true_eq_false, if_false] at h
    obtain ⟨rfl, rfl⟩ := Prod.mk.injEq .. ▸ Option.some.inj h
    rw [_nu_pdma_transfer_eq_launch]
    exact Or.inr ⟨rfl, hproper, _, _, _, .setDesc .., rfl⟩

theorem contract_transfer_iff {w n t : ℕ} {src dst : BitVec 32}
    {malloc : Option (ℕ → nu_pdma_desc_t)} (hok : s.core.Ok) :
    Contract s M id (.transfer w src dst n t malloc) ↔
      Honours s M id (.transfer w src dst n t malloc) := by
  have hinval : -RT_EINVAL < 0 := by decide
  have hself : Untouched s s := ⟨rfl, rfl⟩
  by_cases hm : modIdx id < PDMA_CNT
  swap
  · -- the assertion on the module stops the call
    refine ⟨fun ⟨_, _, _, hrun, _⟩ => ?_, fun h => absurd h.1 hm⟩
    rw [TransferCall.run, nu_pdma_transfer, if_neg hm] at hrun
    exact absurd hrun (by simp)
  cases ha : nu_pdma_check_is_nonallocated s id with
  | true =>
    refine ⟨fun _ => ⟨hm, Or.inl ha⟩, fun _ => ⟨0, -RT_EINVAL, s, ?_, Or.inr ⟨hinval, hself⟩⟩⟩
    rw [TransferCall.run, nu_pdma_transfer, if_pos hm, if_pos ha]
  | false =>
  by_cases h0 : n = 0
  · refine ⟨fun _ => ⟨hm, Or.inr (Or.inl h0)⟩,
      fun _ => ⟨0, -RT_EINVAL, s, ?_, Or.inr ⟨hinval, hself⟩⟩⟩
    rw [TransferCall.run, nu_pdma_transfer, if_pos hm]
    simp only [ha, Bool.false_eq_true, if_false, if_pos h0]
  by_cases hn : n ≤ 65536
  · constructor
    · rintro ⟨_, ret, s', hrun, hret⟩
      rcases nu_pdma_transfer_single hm ha h0 hn hrun with hpos | ⟨rfl, hp, -⟩
      · -- a rejected descriptor comes back with a positive code
        rcases hret with ⟨rfl, -⟩ | ⟨hneg, -⟩
        · exact absurd hpos (by decide)
        · omega
      · rcases hret with ⟨-, htrig⟩ | ⟨hneg, -⟩
        · exact ⟨hm, Or.inr (Or.inr (Or.inl ⟨hp, htrig.chn, Or.inl hn⟩))⟩
        · exact absurd hneg (by decide)
    · rintro ⟨-, hc | hc | ⟨hp, hchn, -⟩ | ⟨hc, -⟩⟩
      · rw [ha] at hc
        exact absurd hc (by decide)
      · exact absurd hc h0
      · obtain ⟨s', hrun⟩ := (@nu_pdma_transfer_starts_iff id w src dst hp.width hp.src hp.dst s hok
          ⟨hm, hchn⟩ ha n t h0 malloc).mpr (Or.inl hn)
        refine ⟨0, RT_EOK, s', hrun, Or.inl ⟨rfl, ?_⟩⟩
        rcases nu_pdma_transfer_single hm ha h0 hn hrun with hpos | ⟨-, -, s1, scatter, next, hs1, rfl⟩
        · exact absurd hpos (by decide)
        · exact launch_triggered hchn hs1 scatter next t
      · omega
  · have hgt : n > NU_PDMA_MAX_TXCNT := Nat.not_le.mp hn
    have hchain : nu_pdma_transfer s id w src dst n t malloc =
        _nu_pdma_transfer_chain s id w src dst n t malloc := by
      rw [nu_pdma_transfer, if_pos hm]
      simp only [ha, Bool.false_eq_true, if_false, h0, if_pos hgt]
    constructor
    · rintro ⟨_, ret, s', hrun, hret⟩
      rw [TransferCall.run, hchain] at hrun
      cases _nu_pdma_transfer_chain_ends hok hrun with
      | started hp hs =>
        rcases hret with ⟨-, htrig⟩ | ⟨hneg, -⟩
        · have hready := (_nu_pdma_transfer_chain_starts_iff hp.width hp.src hp.dst hok ha).mp ⟨_, hrun⟩
          exact ⟨hm, Or.inr (Or.inr (Or.inl ⟨hp, htrig.chn, Or.inr hready⟩))⟩
        · exact absurd hneg (by decide)
      | refused hpos =>
        rcases hret with ⟨rfl, -⟩ | ⟨hneg, -⟩
        · exact absurd hpos (by decide)
        · omega
      | noMemory hmem hs => exact ⟨hm, Or.inr (Or.inr (Or.inr ⟨hgt, hmem⟩))⟩
    · rintro ⟨-, hc | hc | ⟨hp, hchn, hready⟩ | ⟨-, hmem⟩⟩
      · rw [ha] at hc
        exact absurd hc (by decide)
      · exact absurd hc h0
      · obtain ⟨s', hrun⟩ := (@_nu_pdma_transfer_chain_starts_iff id w src dst hp.width hp.src hp.dst s
          hok ha n t malloc).mpr (hready.resolve_left hn)
        refine ⟨0, RT_EOK, s', hchain.trans hrun, Or.inl ⟨rfl, ?_⟩⟩
        generalize hret : RT_EOK = ret at hrun
        cases _nu_pdma_transfer_chain_ends hok hrun with
        | started _ hs => exact launch_triggered hchn hs.prepared _ _ t
        | refused hpos =>
          rw [← hret] at hpos
          exact absurd hpos (by decide)
        | noMemory _ _ => exact absurd hret (by decide)
      · obtain ⟨s', hrun⟩ := @_nu_pdma_transfer_chain_noMemory s id w n t src dst malloc hok hmem
        refine ⟨0, _, s', hchain.trans hrun, Or.inr ⟨by decide, ?_⟩⟩
        generalize hret : -RT_ERROR = ret at hrun
        cases _nu_pdma_transfer_chain_ends hok hrun with
        | started _ _ => exact absurd hret (by decide)
        | refused hpos =>
          rw [← hret] at hpos
          exact absurd hpos (by decide)
        | noMemory _ hs => exact hs.untouched

theorem contract_sg_transfer_iff {head : BitVec 32} {t : ℕ} :
    Contract s M id (.sg_transfer head t) ↔ Honours s M id (.sg_transfer head t) := by
  have hinval : -RT_EINVAL < 0 := by decide
  have hself : Untouched s s := ⟨rfl, rfl⟩
  by_cases h0 : head = 0
  · refine ⟨fun _ => Or.inl h0, fun _ => ⟨0, -RT_EINVAL, s, ?_, Or.inr ⟨hinval, hself⟩⟩⟩
    rw [TransferCall.run, nu_pdma_sg_transfer, if_pos h0]
  by_cases hm : modIdx id < PDMA_CNT
  swap
  · refine ⟨fun ⟨_, _, _, hrun, _⟩ => ?_, fun h => absurd (h.resolve_left h0).1 hm⟩
    rw [TransferCall.run, nu_pdma_sg_transfer, if_neg h0, if_neg hm] at hrun
    exact absurd hrun (by simp)
  cases ha : nu_pdma_check_is_nonallocated s id with
  | true =>
    refine ⟨fun _ => Or.inr ⟨hm, Or.inl ha⟩, fun _ => ⟨0, -RT_EINVAL, s, ?_, Or.inr ⟨hinval, hself⟩⟩⟩
    rw [TransferCall.run, nu_pdma_sg_transfer, if_neg h0, if_pos hm, if_pos ha]
  | false =>
  have hrun_eq : ∀ fuel, (TransferCall.sg_transfer head t).run s M fuel id =
      match M.nu_pdma_sgtbls_valid fuel head with
      | none => none
      | some ret =>
        if ret ≠ RT_EOK then some (-ret, s)
        else
          some (RT_EOK, launch s id (s.nu_pdma_chn_arr (arrayIdx id)).m_u32Peripheral
            ((M.desc head).NEXT ≠ 0) (head - M.SCATBA) t) := by
    intro fuel
    rw [TransferCall.run, nu_pdma_sg_transfer, if_neg h0, if_pos hm]
    simp only [ha, Bool.false_eq_true, if_false]
  constructor
  · rintro ⟨fuel, ret, s', hrun, hret⟩
    rw [hrun_eq] at hrun
    refine Or.inr ⟨hm, Or.inr ?_⟩
    cases hv : M.nu_pdma_sgtbls_valid fuel head with
    | none =>
      rw [hv] at hrun
      exact absurd hrun (by simp)
    | some r =>
      refine ⟨(M.ends_iff head).mp ⟨fuel, r, hv⟩, ?_⟩
      rcases M.valid_eq_or head hv with rfl | rfl
      · -- accepted: the call returns 0
        rw [hv] at hrun
        simp only [ne_eq, not_true_eq_false, if_false] at hrun
        obtain ⟨rfl, -⟩ := Prod.mk.injEq .. ▸ Option.some.inj hrun
        rcases hret with ⟨-, htrig⟩ | ⟨hneg, -⟩
        · exact Or.inl htrig.chn
        · exact absurd hneg (by decide)
      · exact Or.inr ⟨fuel, hv⟩
  · intro h
    obtain ⟨-, hends⟩ := h.resolve_left h0
    obtain ⟨hloops, hchn⟩ := hends.resolve_left (by rw [ha]; decide)
    obtain ⟨fuel, r, hv⟩ := (M.ends_iff head).mpr hloops
    have hrun := hrun_eq fuel
    rw [hv] at hrun
    rcases M.valid_eq_or head hv with rfl | rfl
    · simp only [ne_eq, not_true_eq_false, if_false] at hrun
      have hlt : chnIdx id < PDMA_CH_MAX := by
        rcases hchn with hlt | ⟨fuel', herr⟩
        · exact hlt
        · exact absurd (M.valid_unique hv herr) (by decide)
      exact ⟨fuel, _, _, hrun, Or.inl ⟨rfl,
        launch_triggered hlt ⟨rfl, fun _ => rfl, fun _ => rfl⟩ _ _ t⟩⟩
    · have hne : RT_ERROR ≠ RT_EOK := by decide
      simp only [if_pos hne] at hrun
      exact ⟨fuel, _, s, hrun, Or.inr ⟨by decide, hself⟩⟩

end Contract

end Pdma
