/-
Runs of the PDMA driver.

A run is a sequence of driver calls by any number of callers; a caller may keep
arrays of descriptors of its own, under names, and gives back only what it
obtained.  A call that stops the system (a failed assertion, a null array read)
has no successor.

`Reachable.ok` — the tables of the driver are well formed in every state that a
run from the start reaches, whatever the calls.
-/
import NuMaker.Pdma.Transfer

namespace Pdma

open NuUtils

/-- The driver, and the arrays its callers hold: channel id and entries. -/
structure World where
  drv : State
  arrays : ℕ → Option (ℕ × List nu_pdma_desc_t)

/-- A driver call.  The words an allocated array happens to hold are arguments. -/
inductive Op
  | channel_allocate (i32PeripType : ℕ)
  | channel_free (id : ℕ)
  | memctrl_set (id : ℕ) (eMemCtrl : nu_pdma_memctrl_t)
  | transfer (id u32DataWidth : ℕ) (u32AddrSrc u32AddrDst : BitVec 32)
      (u32TransferCnt u32IdleTimeout_us : ℕ) (malloc : Option (ℕ → nu_pdma_desc_t))
  | sgtbls_allocate (name id num : ℕ) (words : ℕ → nu_pdma_desc_t)
  | sgtbls_free (name : ℕ)

/-- The successor of a state, `none` when the system stops. -/
def World.step (σ : World) : Op → Option World
  | .channel_allocate p => some { σ with drv := (nu_pdma_channel_allocate σ.drv p).2 }
  | .channel_free id => (nu_pdma_channel_free σ.drv id).map fun r => { σ with drv := r.2 }
  | .memctrl_set id e => some { σ with drv := (nu_pdma_channel_memctrl_set σ.drv id e).2 }
  | .transfer id w src dst n t malloc =>
    (nu_pdma_transfer σ.drv id w src dst n t malloc).map fun r => { σ with drv := r.2 }
  | .sgtbls_allocate name id num words =>
    (nu_pdma_sgtbls_allocate σ.drv id ((List.range num).map words) num).map fun r =>
      if r.1 = RT_EOK then ⟨r.2.1, Function.update σ.arrays name (some (id, r.2.2))⟩
      else { σ with drv := r.2.1 }
  | .sgtbls_free name =>
    match σ.arrays name with
    | none => some σ
    | some (id, arr) =>
      (nu_pdma_sgtbls_free σ.drv id arr arr.length).map fun r =>
        ⟨r.1, Function.update σ.arrays name none⟩

/-- An id of a channel of one of the two modules. -/
def IsChn (id : ℕ) : Prop := modIdx id < PDMA_CNT ∧ chnIdx id < PDMA_CH_MAX

instance (id : ℕ) : Decidable (IsChn id) := inferInstanceAs (Decidable (_ ∧ _))

/-- What callers do: they pass ids of channels, and a new array is not one that
holds tokens already. -/
def World.Allowed (σ : World) : Op → Prop
  | .channel_allocate _ => True
  | .channel_free id => IsChn id
  | .memctrl_set id _ => IsChn id
  | .transfer id _ _ _ _ _ _ => IsChn id
  | .sgtbls_allocate name id _ _ => IsChn id ∧ σ.arrays name = none
  | .sgtbls_free _ => True

/-- Registers and memory before initialisation. -/
def State.raw (hclk : ℕ) : State where
  nu_pdma_inited := false
  nu_pdma_chn_mask_arr := fun _ => 0
  nu_pdma_chn_arr := fun _ => .zero
  m_u32SGTblToken := fun _ => 0
  m_psSGTbl := fun _ _ => ⟨0, 0, 0, 0⟩
  pdma := fun _ => ⟨fun _ => ⟨0, 0, 0, 0⟩, 0, 0, 0, 0, 0, 0, 0, fun _ => 0⟩
  hclk := hclk
  calls := []

/-- The driver after its initialisation at boot. -/
def World.boot (hclk : ℕ) : World := ⟨nu_pdma_init (.raw hclk), fun _ => none⟩

/-- States of runs in which every step meets `P`. -/
inductive World.ReachableBy (P : World → Op → Prop) (hclk : ℕ) : World → Prop
  | boot : ReachableBy P hclk (.boot hclk)
  | step {σ σ' : World} {op : Op} (h : ReachableBy P hclk σ) (ha : σ.Allowed op) (hp : P σ op)
    (hs : σ.step op = some σ') : ReachableBy P hclk σ'

/-- The states of all runs. -/
abbrev World.Reachable (hclk : ℕ) (σ : World) : Prop := σ.ReachableBy (fun _ _ => True) hclk

/-! ### The channel calls on the tables -/

theorem nu_pdma_channel_terminate_core (s : State) (id : ℕ) :
    (nu_pdma_channel_terminate s id).core = s.core := by
  rw [nu_pdma_channel_terminate]
  split <;> rfl

/-- Allocating a channel returns nothing and changes nothing, or takes the first
channel whose bit is clear of a module from `j` on. -/
theorem nu_pdma_channel_allocate_loop_cases (entry : ℕ × nu_pdma_memctrl_t) :
    ∀ (n j : ℕ) (s : State),
    (nu_pdma_channel_allocate_loop s entry n j = (none, s) ∧
      ∀ m, j ≤ m → m < j + n → PDMA_CH_MAX ≤ nu_cto (s.nu_pdma_chn_mask_arr m)) ∨
    ∃ m c s', nu_pdma_channel_allocate_loop s entry n j = (some (chId m c), s') ∧
      j ≤ m ∧ m < j + n ∧ c = nu_cto (s.nu_pdma_chn_mask_arr m) ∧ c < PDMA_CH_MAX ∧
      (∀ m', j ≤ m' → m' < m → PDMA_CH_MAX ≤ nu_cto (s.nu_pdma_chn_mask_arr m')) ∧
      s'.core = { s.core with
        mask := Function.update s.core.mask m (s.core.mask m ||| bit c)
        chain := Function.update s.core.chain (m * PDMA_CH_MAX + c) (none, 0)
        ctl := Function.update s.core.ctl (m * PDMA_CH_MAX + c) (chnIdx entry.1, entry.2) } := by
  intro n
  induction n with
  | zero => exact fun j s => Or.inl ⟨rfl, fun m h1 h2 => absurd h1 (by omega)⟩
  | succ n ih =>
    intro j s
    rw [nu_pdma_channel_allocate_loop]
    by_cases hc : nu_cto (s.nu_pdma_chn_mask_arr j) < PDMA_CH_MAX
    · refine Or.inr ⟨j, _, _, if_pos hc, le_refl _, by omega, rfl, hc,
        fun m' h1 h2 => absurd h1 (by omega), ?_⟩
      have harr : arrayIdx (chId j (nu_cto (s.nu_pdma_chn_mask_arr j))) =
          j * PDMA_CH_MAX + nu_cto (s.nu_pdma_chn_mask_arr j) := by
        rw [PDMA_CH_MAX] at hc ⊢
        simp only [arrayIdx, modIdx, chnIdx, chId, PDMA_CH_MAX]
        omega
      rw [nu_pdma_channel_terminate_core, State.core_setChn, harr]
      rfl
    · simp only [if_neg hc]
      rcases ih (j + 1) s with ⟨h1, h2⟩ | ⟨m, c, s', h1, h2, h3, h4, h5, h6, h7⟩
      · refine Or.inl ⟨h1, fun m hm1 hm2 => ?_⟩
        rcases Nat.eq_or_lt_of_le hm1 with rfl | hlt
        · exact Nat.le_of_not_lt hc
        · exact h2 m hlt (by omega)
      · refine Or.inr ⟨m, c, s', h1, by omega, by omega, h4, h5, fun m' hm1 hm2 => ?_, h7⟩
        rcases Nat.eq_or_lt_of_le hm1 with rfl | hlt
        · exact Nat.le_of_not_lt hc
        · exact h6 m' hlt hm2

theorem nu_pdma_init_of_inited {s : State} (h : s.nu_pdma_inited = true) : nu_pdma_init s = s := by
  rw [nu_pdma_init, if_pos h]

/-- What `nu_pdma_channel_allocate` does, once the driver is initialised. -/
inductive AllocateDone (c : Core) (p : ℕ) : Option ℕ → Core → Prop
  | refused (h : PDMA_CNT ≤ modIdx p ∨ nu_pdma_peripheral_query p = none ∨
      ∀ m, modIdx p ≤ m → m < PDMA_CNT → PDMA_CH_MAX ≤ nu_cto (c.mask m)) :
    AllocateDone c p none c
  | granted {m chn ctl} (hp : modIdx p ≤ m) (hm : m < PDMA_CNT)
    (hq : nu_pdma_peripheral_query p ≠ none) (hc : chn = nu_cto (c.mask m))
    (hlt : chn < PDMA_CH_MAX)
    (hfull : ∀ m', modIdx p ≤ m' → m' < m → PDMA_CH_MAX ≤ nu_cto (c.mask m')) :
    AllocateDone c p (some (chId m chn))
      { c with
        mask := Function.update c.mask m (c.mask m ||| bit chn)
        chain := Function.update c.chain (m * PDMA_CH_MAX + chn) (none, 0)
        ctl := Function.update c.ctl (m * PDMA_CH_MAX + chn) ctl }

theorem nu_pdma_channel_allocate_done {s : State} (hs : s.nu_pdma_inited = true) (p : ℕ) :
    AllocateDone s.core p (nu_pdma_channel_allocate s p).1 (nu_pdma_channel_allocate s p).2.core := by
  rw [nu_pdma_channel_allocate, nu_pdma_init_of_inited hs]
  by_cases hp : modIdx p ≥ PDMA_CNT
  · rw [if_pos hp]
    exact .refused (Or.inl hp)
  · rw [if_neg hp]
    cases hq : nu_pdma_peripheral_query p with
    | none => exact .refused (Or.inr (Or.inl hq))
    | some entry =>
      simp only
      rcases nu_pdma_channel_allocate_loop_cases entry (PDMA_CNT - modIdx p) (modIdx p) s with
        ⟨h1, h2⟩ | ⟨m, c, s', h1, h2, h3, h4, h5, h6, h7⟩
      · rw [h1]
        exact .refused (Or.inr (Or.inr fun m hm1 hm2 => h2 m hm1 (by omega)))
      · rw [h1]
        simp only [h7]
        exact .granted h2 (by omega) (by simp [hq]) h4 h5 h6

/-- A channel is in use when its bit is set. -/
theorem nonallocated_eq_false {s : State} {id : ℕ} :
    nu_pdma_check_is_nonallocated s id = false ↔
      (s.nu_pdma_chn_mask_arr (modIdx id)).getLsbD (chnIdx id) = true := by
  rw [nu_pdma_check_is_nonallocated, decide_eq_false_iff_not, ← ne_eq]
  exact and_bit_ne_zero _ _

/-- Freeing a channel clears its bit, or refuses a channel that is not in use. -/
theorem nu_pdma_channel_free_cases {s s' : State} {id : ℕ} {ret : ℤ}
    (h : nu_pdma_channel_free s id = some (ret, s')) :
    (ret = -RT_EINVAL ∧ s' = s) ∨
    (ret = RT_EOK ∧ s.nu_pdma_inited = true ∧ nu_pdma_check_is_nonallocated s id = false ∧ s'.core = { s.core with
      mask := Function.update s.core.mask (modIdx id)
        (s.core.mask (modIdx id) &&& ~~~bit (chnIdx id)) }) := by
  rw [nu_pdma_channel_free] at h
  by_cases hi : s.nu_pdma_inited = true
  · rw [if_neg (not_not.mpr hi)] at h
    by_cases hm : modIdx id < PDMA_CNT
    · rw [if_pos hm] at h
      cases hn : nu_pdma_check_is_nonallocated s id with
      | true =>
        rw [hn, if_pos rfl] at h
        obtain ⟨rfl, rfl⟩ := Prod.mk.injEq .. ▸ Option.some.inj h
        exact Or.inl ⟨rfl, rfl⟩
      | false =>
        rw [hn, if_neg (by decide)] at h
        obtain ⟨rfl, rfl⟩ := Prod.mk.injEq .. ▸ Option.some.inj h
        exact Or.inr ⟨rfl, hi, rfl, rfl⟩
    · rw [if_neg hm] at h
      exact absurd h (by simp)
  · rw [if_pos hi] at h
    obtain ⟨rfl, rfl⟩ := Prod.mk.injEq .. ▸ Option.some.inj h
    exact Or.inl ⟨rfl, rfl⟩

/-- Setting the memory control of a channel changes that control only. -/
theorem nu_pdma_channel_memctrl_set_core (s : State) (id : ℕ) (e : nu_pdma_memctrl_t) :
    ∃ ctl, (nu_pdma_channel_memctrl_set s id e).2.core = { s.core with ctl := ctl } := by
  simp only [nu_pdma_channel_memctrl_set]
  split_ifs
  · exact ⟨_, rfl⟩
  · exact ⟨_, rfl⟩
  · have hchain := Function.update_eq_self (arrayIdx id) s.core.chain
    rw [State.core_setChn]
    exact ⟨_, congrArg (fun ch => { s.core with
      chain := ch
      ctl := Function.update s.core.ctl (arrayIdx id)
        ((s.nu_pdma_chn_arr (arrayIdx id)).m_u32Peripheral, e) }) hchain⟩

/-! ### The invariant holds in every run -/

theorem Core.Ok.own_inPool {c : Core} (h : c.Ok) (k : ℕ) : InPool (c.own k) := by
  obtain ⟨arr, w, hc⟩ : ∃ arr w, c.chain k = (arr, w) := ⟨_, _, rfl⟩
  cases arr with
  | none =>
    rw [Core.own, hc]
    exact fun i hi => absurd hi (by simp)
  | some arr =>
    obtain ⟨-, hown, hin⟩ := h.own_take hc
    rwa [hown]

/-- Entries of the pool given back set only bits of the pool. -/
theorem given_lt {m : ℕ} {c : Core} {l : List nu_pdma_desc_t} {t : BitVec 32} (hok : c.Ok)
    (hl : InPool l) (h : c.Given m l t) {i : ℕ} (hi : t.getLsbD i = true) : i < 16 := by
  rw [h i, Bool.or_eq_true, decide_eq_true_eq] at hi
  rcases hi with hi | hi
  · exact hok.token_lt m i hi
  · have := hl _ hi
    omega

/-- A change of one token word and one chain keeps the tables well formed. -/
theorem Core.Ok.update {c : Core} (hok : c.Ok) {m k w : ℕ} {t : BitVec 32}
    {arr : Option (List nu_pdma_desc_t)} (ht : ∀ i, t.getLsbD i = true → i < 16)
    (harr : ∀ a, arr = some a → ∃ l : List ℕ, a = entries l ∧ l.Pairwise (· < ·) ∧
      (∀ t ∈ l, t < 16) ∧ l.length = w ∧ 2 ≤ w) :
    Core.Ok { c with token := Function.update c.token m t
                     chain := Function.update c.chain k (arr, w) } := by
  refine ⟨hok.inited, fun m' i hi => ?_, fun k' a w' hk => ?_⟩
  · by_cases hm : m' = m
    · subst hm
      simp only [Function.update_self] at hi
      exact ht i hi
    · simp only [Function.update_of_ne hm] at hi
      exact hok.token_lt m' i hi
  · by_cases hk' : k' = k
    · subst hk'
      simp only [Function.update_self, Prod.mk.injEq] at hk
      obtain ⟨h1, rfl⟩ := hk
      exact harr a h1
    · simp only [Function.update_of_ne hk'] at hk
      exact hok.chain_ok k' a w' hk

theorem TransferDone.ok {c c' : Core} {id n : ℕ} {malloc : Option (ℕ → nu_pdma_desc_t)} {ret : ℤ}
    (hok : c.Ok) (h : TransferDone c id n malloc ret c') : c'.Ok := by
  cases h with
  | same => exact hok
  | gone hret h0 ht hj hjunk =>
    refine hok.update (fun i hi => ?_) (by simp)
    rw [ht i, Bool.or_eq_true, decide_eq_true_eq] at hi
    rcases hi with hi | hi
    · exact given_lt hok (hok.own_inPool _) h0 hi
    · have := hj _ hi
      omega
  | @replaced t t0 l hn h0 ht =>
    have h16 : ∀ {i}, t0.getLsbD i = true → i < 16 := given_lt hok (hok.own_inPool _) h0
    refine hok.update (fun i hi => ?_) fun a ha => ?_
    · rw [ht.rest i, Bool.and_eq_true] at hi
      exact h16 hi.1
    · obtain rfl := Option.some.inj ha
      exact ⟨l, rfl, ht.ascending, fun t htl => h16 (ht.mem t htl), ht.len, by omega⟩

theorem AllocateDone.ok {c c' : Core} {p : ℕ} {r : Option ℕ} (hok : c.Ok)
    (h : AllocateDone c p r c') : c'.Ok := by
  cases h with
  | refused h => exact hok
  | @granted m chn ctl hp hm hq hc hlt hfull =>
    refine ⟨hok.inited, hok.token_lt, fun k arr w hk => ?_⟩
    by_cases hk' : k = m * PDMA_CH_MAX + chn
    · simp only [hk', Function.update_self] at hk
      exact absurd hk (by simp)
    · simp only [Function.update_of_ne hk'] at hk
      exact hok.chain_ok k arr w hk

/-- Giving entries of the pool back. -/
theorem Core.Ok.give {c : Core} (hok : c.Ok) {m : ℕ} {l : List nu_pdma_desc_t} {t : BitVec 32}
    (hl : InPool l) (h : c.Given m l t) :
    Core.Ok { c with token := Function.update c.token m t } := by
  refine ⟨hok.inited, fun m' i hi => ?_, hok.chain_ok⟩
  by_cases hm : m' = m
  · subst hm
    simp only [Function.update_self] at hi
    exact given_lt hok hl h hi
  · simp only [Function.update_of_ne hm] at hi
    exact hok.token_lt m' i hi

/-- The tables are well formed, and the arrays belong to channels. -/
structure World.Ok (σ : World) : Prop where
  tables : σ.drv.core.Ok
  arrays : ∀ name a, σ.arrays name = some a → IsChn a.1

theorem World.boot_ok (hclk : ℕ) : (World.boot hclk).Ok := by
  refine ⟨?_, fun name a h => absurd h (Option.some_ne_none a).symm⟩
  refine ⟨rfl, fun m i hi => ?_, fun k arr w hk => ?_⟩
  · have htok : (World.boot hclk).drv.core.token m = if m < PDMA_CNT then 0x0000FFFF else 0 := rfl
    rw [htok] at hi
    by_cases hm : m < PDMA_CNT
    · rw [if_pos hm] at hi
      have hlt := BitVec.lt_of_getLsbD hi
      by_contra h16
      have hall : ∀ j < 32, 16 ≤ j → (0x0000FFFF : BitVec 32).getLsbD j = false := by decide
      rw [hall i hlt (by omega)] at hi
      exact absurd hi (by decide)
    · rw [if_neg hm] at hi
      exact absurd hi (by simp)
  · have hnone : (World.boot hclk).drv.core.chain k = (none, 0) := rfl
    rw [hnone] at hk
    exact absurd hk (by simp)

/-- **Step lemma**: every call keeps the tables well formed. -/
theorem World.step_tables {σ σ' : World} {op : Op} (hok : σ.drv.core.Ok)
    (h : σ.step op = some σ') : σ'.drv.core.Ok := by
  cases op with
  | channel_allocate p =>
    obtain rfl := Option.some.inj h
    exact (nu_pdma_channel_allocate_done hok.inited p).ok hok
  | channel_free id =>
    obtain ⟨⟨ret, s1⟩, hr, rfl⟩ := Option.map_eq_some_iff.mp h
    rcases nu_pdma_channel_free_cases hr with ⟨-, rfl⟩ | ⟨-, -, -, hcore⟩
    · exact hok
    · rw [hcore]
      exact ⟨hok.inited, hok.token_lt, hok.chain_ok⟩
  | memctrl_set id e =>
    obtain rfl := Option.some.inj h
    obtain ⟨ctl, hcore⟩ := nu_pdma_channel_memctrl_set_core σ.drv id e
    rw [hcore]
    exact ⟨hok.inited, hok.token_lt, hok.chain_ok⟩
  | transfer id w src dst n t malloc =>
    obtain ⟨r, hr, rfl⟩ := Option.map_eq_some_iff.mp h
    exact (nu_pdma_transfer_done hok hr).ok hok
  | sgtbls_allocate name id num words =>
    obtain ⟨⟨ret, s1, arr⟩, hr, rfl⟩ := Option.map_eq_some_iff.mp h
    rcases nu_pdma_sgtbls_allocate_cases (by simp) hr with
      ⟨rfl, t, l, ht, rfl, rfl⟩ | ⟨rfl, rfl, -, -⟩
    · refine ⟨hok.inited, fun m i hi => ?_, hok.chain_ok⟩
      simp only [if_true, State.core_setToken] at hi
      by_cases hm : m = modIdx id
      · subst hm
        rw [Function.update_self, ht.rest i, Bool.and_eq_true] at hi
        exact hok.token_lt _ i hi.1
      · rw [Function.update_of_ne hm] at hi
        exact hok.token_lt m i hi
    · exact hok
  | sgtbls_free name =>
    rw [World.step] at h
    cases ha : σ.arrays name with
    | none =>
      rw [ha] at h
      obtain rfl := Option.some.inj h
      exact hok
    | some a =>
      obtain ⟨id, arr⟩ := a
      rw [ha] at h
      obtain ⟨⟨s1, arr1⟩, hr, rfl⟩ := Option.map_eq_some_iff.mp h
      obtain ⟨t, rfl, hin, hb, -⟩ := nu_pdma_sgtbls_free_some hr
      exact hok.give hin hb

/-- An array the caller has after a call is one it had or one it just got. -/
theorem World.step_arrays {σ σ' : World} {op : Op} (ha : σ.Allowed op) (h : σ.step op = some σ')
    (hold : ∀ name a, σ.arrays name = some a → IsChn a.1) :
    ∀ name a, σ'.arrays name = some a → IsChn a.1 := by
  cases op with
  | channel_allocate p =>
    obtain rfl := Option.some.inj h
    exact hold
  | channel_free id =>
    obtain ⟨r, -, rfl⟩ := Option.map_eq_some_iff.mp h
    exact hold
  | memctrl_set id e =>
    obtain rfl := Option.some.inj h
    exact hold
  | transfer id w src dst n t malloc =>
    obtain ⟨r, -, rfl⟩ := Option.map_eq_some_iff.mp h
    exact hold
  | sgtbls_allocate name id num words =>
    obtain ⟨r, -, rfl⟩ := Option.map_eq_some_iff.mp h
    split
    · intro name' a hn
      by_cases hname : name' = name
      · simp only [hname, Function.update_self, Option.some.injEq] at hn
        rw [← hn]
        exact ha.1
      · simp only [Function.update_of_ne hname] at hn
        exact hold name' a hn
    · exact hold
  | sgtbls_free name =>
    rw [World.step] at h
    cases harr : σ.arrays name with
    | none =>
      rw [harr] at h
      obtain rfl := Option.some.inj h
      exact hold
    | some a =>
      rw [harr] at h
      obtain ⟨r, -, rfl⟩ := Option.map_eq_some_iff.mp h
      intro name' a hn
      by_cases hname : name' = name
      · simp only [hname, Function.update_self] at hn
        exact absurd hn (Option.some_ne_none a).symm
      · simp only [Function.update_of_ne hname] at hn
        exact hold name' a hn

theorem World.step_ok {σ σ' : World} {op : Op} (hok : σ.Ok) (ha : σ.Allowed op)
    (h : σ.step op = some σ') : σ'.Ok :=
  ⟨World.step_tables hok.tables h, World.step_arrays ha h hok.arrays⟩

/-- **Run lemma**: the tables are well formed in every reachable state. -/
theorem World.ReachableBy.ok {P : World → Op → Prop} {hclk : ℕ} {σ : World}
    (h : σ.ReachableBy P hclk) : σ.Ok := by
  induction h with
  | boot => exact World.boot_ok hclk
  | step _ ha _ hs ih => exact World.step_ok ih ha hs

end Pdma
