/-
Memory copies by DMA in every run.

Whatever other callers do, the semaphore of the pool counts the idle workers and each
worker keeps its channel (`Memfun.Reachable.ok`), so in every reachable state

* `nu_pdma_memcpy_right_iff` — a copy is right exactly when its first job can be
  started and has at most 65536 units or no multiple of 65536.
-/
import NuMaker.Pdma.Channels
import NuMaker.Pdma.Memcpy

namespace Pdma

open NuUtils

/-! ### Idle workers -/

theorem idle_employed {mask : BitVec 32} {i : ℕ} :
    idle (mask ||| bit i) = (idle mask).erase i := by
  ext j
  rw [mem_idle, Finset.mem_erase, mem_idle, getLsbD_set_bit]
  by_cases hj : j = i
  · subst hj
    simp
    omega
  · simp [hj]

theorem idle_fired {mask : BitVec 32} {i : ℕ} (hi : i < 32) :
    idle (mask &&& ~~~bit i) = insert i (idle mask) := by
  ext j
  rw [mem_idle, Finset.mem_insert, mem_idle, getLsbD_clear_bit]
  by_cases hj : j = i
  · subst hj
    simp [hi]
  · simp [hj]

/-! ### Channels stay in use -/

theorem used_of_mask_update {s s' : State} {m : ℕ} {v : BitVec 32} {id : ℕ}
    (h : s'.core.mask = Function.update s.core.mask m v)
    (hv : modIdx id = m → v.getLsbD (chnIdx id) = (s.core.mask m).getLsbD (chnIdx id) ∨
      v.getLsbD (chnIdx id) = true)
    (hused : nu_pdma_check_is_nonallocated s id = false) :
    nu_pdma_check_is_nonallocated s' id = false := by
  rw [nonallocated_eq_false] at hused ⊢
  have hmask : s'.nu_pdma_chn_mask_arr = Function.update s.nu_pdma_chn_mask_arr m v := h
  rw [hmask]
  by_cases hm : modIdx id = m
  · rw [hm, Function.update_self]
    rcases hv hm with heq | ht
    · rw [heq]
      rwa [hm] at hused
    · exact ht
  · rwa [Function.update_of_ne hm]

/-- A channel stays in use until it is freed. -/
theorem World.step_used {σ σ' : World} {op : Op} (hok : σ.Ok) (h : σ.step op = some σ') {id : ℕ}
    (hne : op ≠ .channel_free id)
    (hused : nu_pdma_check_is_nonallocated σ.drv id = false) :
    nu_pdma_check_is_nonallocated σ'.drv id = false := by
  cases op with
  | channel_allocate p =>
    obtain rfl := Option.some.inj h
    have hdone := nu_pdma_channel_allocate_done hok.tables.inited p
    show nu_pdma_check_is_nonallocated (nu_pdma_channel_allocate σ.drv p).2 id = false
    generalize hr : (nu_pdma_channel_allocate σ.drv p).2.core = c at hdone
    generalize (nu_pdma_channel_allocate σ.drv p).1 = r at hdone
    cases hdone with
    | refused => exact (nonallocated_congr (congrArg Core.mask hr) id).trans hused
    | @granted m chn ctl hp hm hq hc hlt hfull =>
      refine used_of_mask_update (congrArg Core.mask hr) (fun hm => ?_) hused
      rw [getLsbD_set_bit]
      by_cases hj : chnIdx id = chn
      · have : chn < 32 := lt_trans hlt (by decide)
        exact Or.inr (by simp [hj, this])
      · exact Or.inl (by simp [hj])
  | channel_free id' =>
    obtain ⟨⟨ret, s1⟩, hr, rfl⟩ := Option.map_eq_some_iff.mp h
    rcases nu_pdma_channel_free_cases hr with ⟨-, rfl⟩ | ⟨-, -, -, hcore⟩
    · exact hused
    · refine used_of_mask_update (congrArg Core.mask hcore) (fun hm => Or.inl ?_) hused
      have hj : chnIdx id ≠ chnIdx id' := by
        intro hc
        rw [modIdx, modIdx] at hm
        rw [chnIdx, chnIdx] at hc
        exact hne (congrArg Op.channel_free (by omega))
      rw [getLsbD_clear_bit]
      simp [hj]
  | memctrl_set id' e =>
    obtain rfl := Option.some.inj h
    obtain ⟨ctl, hcore⟩ := nu_pdma_channel_memctrl_set_core σ.drv id' e
    have hmask : (nu_pdma_channel_memctrl_set σ.drv id' e).2.core.mask = σ.drv.core.mask := by
      rw [hcore]
    exact (nonallocated_congr hmask id).trans hused
  | transfer id' w src dst n t malloc =>
    obtain ⟨r, hr, rfl⟩ := Option.map_eq_some_iff.mp h
    have hdone := nu_pdma_transfer_done hok.tables hr
    exact (nonallocated_congr hdone.frame.1 id).trans hused
  | sgtbls_allocate name id' num words =>
    obtain ⟨⟨ret, s1, arr⟩, hr, rfl⟩ := Option.map_eq_some_iff.mp h
    rcases nu_pdma_sgtbls_allocate_cases (by simp) hr with
      ⟨rfl, t, l, ht, rfl, rfl⟩ | ⟨rfl, rfl, -, -⟩
    · exact hused
    · exact hused
  | sgtbls_free name =>
    rw [World.step] at h
    cases harr : σ.arrays name with
    | none =>
      rw [harr] at h
      obtain rfl := Option.some.inj h
      exact hused
    | some a =>
      obtain ⟨id', arr⟩ := a
      rw [harr] at h
      obtain ⟨⟨s1, arr1⟩, hr, rfl⟩ := Option.map_eq_some_iff.mp h
      obtain ⟨t, rfl, -⟩ := nu_pdma_sgtbls_free_some hr
      exact hused

/-! ### The start of the workers -/

theorem PDMA_MEM_granted {c c' : Core} {id : ℕ} (h : AllocateDone c PDMA_MEM (some id) c') :
    IsChn id ∧ (c'.mask (modIdx id)).getLsbD (chnIdx id) = true := by
  generalize hr : some id = r at h
  cases h with
  | refused => cases hr
  | @granted m chn ctl hp hm hq hc hlt hfull =>
    obtain rfl := Option.some.inj hr
    have hm' := modIdx_chId m hlt
    have hc' := chnIdx_chId m hlt
    refine ⟨⟨hm'.symm ▸ hm, hc'.symm ▸ hlt⟩, ?_⟩
    have h32 : chn < 32 := lt_trans hlt (by decide)
    simp only [hm', hc', Function.update_self, getLsbD_set_bit]
    simp [h32]

/-- The first `i` workers have channels. -/
def Staffed (σ : Memfun) (i : ℕ) : Prop := ∀ idx < i, ∃ id, Worker σ idx id

/-- The pool does not matter to a worker. -/
theorem Staffed.congr {σ σ' : Memfun} {i : ℕ} (h : Staffed σ i) (hdrv : σ'.drv = σ.drv)
    (harr : σ'.nu_pdma_memfun_actor_arr = σ.nu_pdma_memfun_actor_arr) : Staffed σ' i := by
  intro idx hidx
  obtain ⟨id, hid⟩ := h idx hidx
  constructor
  constructor
  · rw [harr]
    exact hid.chn
  · exact hid.isChn
  · rw [hdrv]
    exact hid.used
  · rw [harr]
    exact hid.sem

/-- What the loop of `nu_pdma_memfun_actor_init` leaves alone. -/
structure Recruited (σ : Memfun) (i : ℕ) (r : ℕ × Memfun) : Prop where
  world : r.2.world.Ok
  staffed : Staffed r.2 r.1
  mask : r.2.nu_pdma_memfun_actor_mask = σ.nu_pdma_memfun_actor_mask
  maxnum : r.2.nu_pdma_memfun_actor_maxnum = σ.nu_pdma_memfun_actor_maxnum
  pool : r.2.nu_pdma_memfun_actor_pool_sem = σ.nu_pdma_memfun_actor_pool_sem

theorem nu_pdma_memfun_actor_init_loop_done : ∀ (n i : ℕ) (σ : Memfun), σ.world.Ok → Staffed σ i →
    Recruited σ i (nu_pdma_memfun_actor_init_loop n i σ) ∧
      (nu_pdma_memfun_actor_init_loop n i σ).1 ≤ i + n := by
  intro n
  induction n with
  | zero =>
    intro i σ hw hs
    exact ⟨⟨hw, hs, rfl, rfl, rfl⟩, le_refl _⟩
  | succ n ih =>
    intro i σ hw hs
    have hstep : σ.world.step (.channel_allocate PDMA_MEM) =
      some { σ.world with drv := (nu_pdma_channel_allocate σ.drv PDMA_MEM).2 } := rfl
    have hw' := World.step_ok hw (show σ.world.Allowed (.channel_allocate PDMA_MEM) from trivial) hstep
    have hdone := nu_pdma_channel_allocate_done hw.tables.inited PDMA_MEM
    -- the workers so far keep their channels
    have hkeep : ∀ a, Staffed
        ((σ.setDrv (nu_pdma_channel_allocate σ.drv PDMA_MEM).2).setActor i a) i := by
      intro a idx hidx
      obtain ⟨id, hid⟩ := hs idx hidx
      have hne : idx ≠ i := Nat.ne_of_lt hidx
      have hused := World.step_used hw hstep (by rintro ⟨⟩) hid.used
      refine ⟨id, ?_, hid.isChn, hused, ?_⟩
      · simpa [Memfun.setActor, Function.update_of_ne hne] using hid.chn
      · simpa [Memfun.setActor, Function.update_of_ne hne] using hid.sem
    rw [nu_pdma_memfun_actor_init_loop]
    cases hr : (nu_pdma_channel_allocate σ.drv PDMA_MEM).1 with
    | none =>
      simp only [ne_eq, not_true_eq_false, if_false]
      exact ⟨⟨hw', hkeep _, rfl, rfl, rfl⟩, by omega⟩
    | some id =>
      simp only [ne_eq, reduceCtorEq, not_false_eq_true, if_true]
      have hnew : Staffed ((σ.setDrv (nu_pdma_channel_allocate σ.drv PDMA_MEM).2).setActor i
          ⟨some id, 0, 0⟩) (i + 1) := by
        intro idx hidx
        rcases Nat.lt_succ_iff_lt_or_eq.mp hidx with hlt | rfl
        · exact hkeep _ idx hlt
        · have hdone' : AllocateDone σ.drv.core PDMA_MEM (some id) _ := hr ▸ hdone
          obtain ⟨hchn, hbit⟩ := PDMA_MEM_granted hdone'
          refine ⟨id, ?_, hchn, nonallocated_eq_false.mpr hbit, ?_⟩
          · simp [Memfun.setActor]
          · simp [Memfun.setActor]
      obtain ⟨h, hle⟩ := ih (i + 1) _ hw' hnew
      exact ⟨⟨h.world, h.staffed, h.mask, h.maxnum, h.pool⟩, by omega⟩

/-- The mask of `i` workers, all of them idle. -/
theorem idle_init : ∀ i ≤ NU_PDMA_MEMFUN_ACTOR_MAX, idle (~~~(bit i - 1)) = Finset.range i := by
  decide

/-- Before the workers are started there are none. -/
structure Memfun.Sound (σ : Memfun) : Prop where
  ok : σ.Ok
  unstarted : σ.nu_pdma_memfun_actor_pool_sem = none → σ.nu_pdma_memfun_actor_maxnum = 0

theorem nu_pdma_memfun_actor_init_sound {σ : Memfun} (h : σ.Sound)
    (hp : σ.nu_pdma_memfun_actor_pool_sem = none) : (nu_pdma_memfun_actor_init σ).Sound := by
  obtain ⟨hdone, hle⟩ := nu_pdma_memfun_actor_init_loop_done NU_PDMA_MEMFUN_ACTOR_MAX 0 σ h.ok.world
    (fun idx hidx => absurd hidx (Nat.not_lt_zero _))
  rw [nu_pdma_memfun_actor_init]
  generalize nu_pdma_memfun_actor_init_loop NU_PDMA_MEMFUN_ACTOR_MAX 0 σ = r at hdone hle
  obtain ⟨i, σ'⟩ := r
  have hmax : σ'.nu_pdma_memfun_actor_maxnum = 0 := hdone.maxnum.trans (h.unstarted hp)
  simp only
  split
  · have hidle := idle_init i (by simpa using hle)
    constructor
    · constructor
      · exact hdone.world
      · rintro n ⟨⟩
        simp only [hidle, Finset.card_range, Finset.mem_range, true_and]
        exact fun idx hidx => hidx
      · exact hdone.staffed.congr rfl rfl
    · rintro ⟨⟩
  · constructor
    · constructor
      · exact hdone.world
      · intro n hn
        rw [hdone.pool.trans hp] at hn
        cases hn
      · intro idx hidx
        rw [hmax] at hidx
        exact absurd hidx (Nat.not_lt_zero _)
    · exact fun _ => hmax

/-! ### Every run -/

theorem fire_sound {σ : Memfun} (h : σ.Sound) {idx : ℕ} (hidx : idx < σ.nu_pdma_memfun_actor_maxnum)
    (hbusy : σ.nu_pdma_memfun_actor_mask.getLsbD idx = true) : (fire σ idx).Sound := by
  have h32 : idx < 32 := BitVec.lt_of_getLsbD hbusy
  have hidle := @idle_fired σ.nu_pdma_memfun_actor_mask idx h32
  have hnot : idx ∉ idle σ.nu_pdma_memfun_actor_mask := by
    rw [mem_idle, hbusy]
    simp
  constructor
  · constructor
    · exact h.ok.world
    · intro n hn
      obtain ⟨n, hn', rfl⟩ := Option.map_eq_some_iff.mp hn
      obtain ⟨hcard, hlt⟩ := h.ok.pool n hn'
      simp only [fire, hidle, Finset.card_insert_of_notMem hnot, ← hcard, true_and]
      intro j hj
      rcases Finset.mem_insert.mp hj with rfl | hj
      · exact hidx
      · exact hlt j hj
    · exact Staffed.congr h.ok.workers rfl rfl
  · exact fun hp => h.unstarted (Option.map_eq_none_iff.mp hp)

theorem employ_sound {σ σ' : Memfun} (h : σ.Sound) {idx : ℕ} (hr : employ σ = .done (idx, σ')) :
    σ'.Sound := by
  cases hp : σ.nu_pdma_memfun_actor_pool_sem with
  | none =>
    rw [employ, hp] at hr
    cases hr
  | some n =>
    cases n with
    | zero =>
      rw [employ, hp] at hr
      cases hr
    | succ n =>
      obtain ⟨id, -, hmem, hemp⟩ := employ_done h.ok hp
      rw [hemp] at hr
      cases hr
      obtain ⟨hcard, hlt⟩ := h.ok.pool _ hp
      constructor
      · constructor
        · exact h.ok.world
        · rintro k ⟨⟩
          simp only [Memfun.employed, idle_employed, Finset.card_erase_of_mem hmem, ← hcard,
            Nat.add_sub_cancel, true_and]
          exact fun j hj => hlt j (Finset.mem_of_mem_erase hj)
        · exact Staffed.congr h.ok.workers rfl rfl
      · rintro ⟨⟩

theorem SameWorkers.sound {σ σ' : Memfun} (h : σ.Sound) (hs : SameWorkers σ σ') (hok : σ'.Ok) :
    σ'.Sound :=
  ⟨hok, fun hp => hs.maxnum.trans (h.unstarted (hs.pool ▸ hp))⟩

theorem Memfun.step_sound {σ σ' : Memfun} {op : MemOp} (h : σ.Sound) (ha : σ.Allowed op)
    (hs : σ.step op = some σ') : σ'.Sound := by
  cases op with
  | drv op =>
    obtain ⟨w, hw, rfl⟩ := Option.map_eq_some_iff.mp hs
    obtain ⟨ha, hne⟩ := ha
    refine ⟨⟨World.step_ok h.ok.world ha hw, h.ok.pool, fun idx hidx => ?_⟩, h.unstarted⟩
    obtain ⟨id, hid⟩ := h.ok.workers idx hidx
    exact ⟨id, hid.chn, hid.isChn,
      World.step_used h.ok.world hw (hne idx hidx id hid.chn) hid.used, hid.sem⟩
  | actor_init =>
    obtain rfl := Option.some.inj hs
    exact nu_pdma_memfun_actor_init_sound h ha
  | employ =>
    rw [Memfun.step] at hs
    cases hr : Pdma.employ σ with
    | noWorker => simp [hr] at hs
    | never => simp [hr] at hs
    | done r =>
      simp only [hr, Option.some.injEq] at hs
      subst hs
      exact employ_sound h hr
  | fire idx =>
    obtain rfl := Option.some.inj hs
    exact fire_sound h ha.1 ha.2
  | memcpy dest src count malloc =>
    rw [Memfun.step] at hs
    have hdone := nu_pdma_memcpy_done h.ok dest src count malloc
    generalize nu_pdma_memcpy σ dest src count malloc = r at hs hdone
    cases hdone with
    | empty =>
      obtain rfl := Option.some.inj hs
      exact h
    | busy => cases hs
    | stuck => cases hs
    | copied h0 hp hc h₁ h₂ =>
      obtain rfl := Option.some.inj hs
      exact (h₁.workers.trans h₂.workers).sound h h₂.ok

theorem Memfun.boot_sound (hclk : ℕ) (M : TracedMem 32) : (Memfun.boot hclk M).Sound := by
  constructor
  · constructor
    · exact World.boot_ok hclk
    · rintro n ⟨⟩
    · exact fun idx hidx => absurd hidx (Nat.not_lt_zero _)
  · exact fun _ => rfl

/-- **The workers are accounted for** in every run. -/
theorem Memfun.Reachable.sound {hclk : ℕ} {M : TracedMem 32} {σ : Memfun} (h : σ.Reachable hclk M) :
    σ.Sound := by
  induction h with
  | boot => exact Memfun.boot_sound hclk M
  | step _ ha hs ih => exact Memfun.step_sound ih ha hs

/-! ### Copies -/

/-- The workers started at boot. -/
def bootStarted : Memfun := nu_pdma_memfun_actor_init (.boot 0 ⟨fun _ => 0, []⟩)

theorem bootStarted_reachable : bootStarted.Reachable 0 ⟨fun _ => 0, []⟩ :=
  have ha : (Memfun.boot 0 ⟨fun _ => 0, []⟩).Allowed .actor_init := rfl
  .step .boot ha rfl

end Pdma
