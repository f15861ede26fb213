/-
What a transfer changes before it starts.

`TableSteps` are the assignments a chain transfer on a channel is made of until the engine is
started: to the token word, to the chain on the channel's record, and to descriptors of the pool.
Whatever these keep, the chain functions keep: the handlers and the filters of all channels
(`nu_pdma_transfer_same`), and the registers.
-/
import NuMaker.Pdma.Dispatch
import NuMaker.Pdma.Chain

namespace Pdma

/-! ### The tables -/

/-- Assignments to the tables of a channel. -/
inductive TableSteps (id : ℕ) (s : State) : State → Prop
  | refl : TableSteps id s s
  | token {s' : State} (h : TableSteps id s s') (t : BitVec 32) :
    TableSteps id s (s'.setToken (modIdx id) t)
  | chain {s' : State} (h : TableSteps id s s') (arr : Option (List nu_pdma_desc_t)) (num : ℕ) :
    TableSteps id s (s'.setChn (arrayIdx id)
      { s'.nu_pdma_chn_arr (arrayIdx id) with m_ppsSgtbl := arr, m_u32WantedSGTblNum := num })
  | table {s' : State} (h : TableSteps id s s') (i : ℤ) (d : DSCT_T) :
    TableSteps id s (s'.setDesc id (.tbl i) d)

theorem TableSteps.trans {id : ℕ} {s s' s'' : State} (h : TableSteps id s s')
    (h' : TableSteps id s' s'') : TableSteps id s s'' := by
  induction h' with
  | refl => exact h
  | token _ t ih => exact ih.token t
  | chain _ arr num ih => exact ih.chain arr num
  | table _ i d ih => exact ih.table i d

theorem _nu_pdma_sgtbls_free_steps {s s' : State} {id : ℕ} (h : _nu_pdma_sgtbls_free s id = some s') :
    TableSteps id s s' := by
  unfold _nu_pdma_sgtbls_free at h
  cases hc : (s.nu_pdma_chn_arr (arrayIdx id)).m_ppsSgtbl with
  | none =>
    simp only [hc, Option.some.injEq] at h
    exact h ▸ .refl
  | some arr =>
    simp only [hc] at h
    cases hf : nu_pdma_sgtbls_free s id arr (s.nu_pdma_chn_arr (arrayIdx id)).m_u32WantedSGTblNum with
    | none =>
      rw [hf] at h
      exact absurd h (by simp)
    | some r =>
      obtain ⟨s1, arr1⟩ := r
      obtain ⟨t, rfl, -⟩ := nu_pdma_sgtbls_free_some hf
      rw [hf] at h
      obtain rfl := Option.some.inj h
      exact (TableSteps.refl.token t).chain none 0

theorem chainRelease_steps {s s' : State} {id : ℕ} (h : chainRelease s id = some s') :
    TableSteps id s s' := by
  rw [chainRelease] at h
  split at h
  · cases hc : (s.nu_pdma_chn_arr (arrayIdx id)).m_ppsSgtbl with
    | none =>
      rw [hc] at h
      exact absurd h (by simp)
    | some arr =>
      simp only [hc] at h
      cases hf : nu_pdma_sgtbls_free s id arr (s.nu_pdma_chn_arr (arrayIdx id)).m_u32WantedSGTblNum with
      | none =>
        rw [hf] at h
        exact absurd h (by simp)
      | some r =>
        obtain ⟨s1, arr1⟩ := r
        obtain ⟨t, rfl, -⟩ := nu_pdma_sgtbls_free_some hf
        rw [hf] at h
        exact ((TableSteps.refl.token t).chain (some arr1) _).trans (_nu_pdma_sgtbls_free_steps h)
  · obtain rfl := Option.some.inj h
    exact .refl

theorem chainObtain_steps {s s' : State} {id wanted : ℕ} {malloc : Option (ℕ → nu_pdma_desc_t)}
    {ret : ℤ} (h : chainObtain s id wanted malloc = some (ret, s')) : TableSteps id s s' := by
  unfold chainObtain at h
  cases malloc with
  | none =>
    obtain ⟨-, rfl⟩ := Prod.mk.injEq .. ▸ Option.some.inj h
    exact TableSteps.refl.chain none wanted
  | some words =>
    simp only at h
    cases ha : nu_pdma_sgtbls_allocate s id ((List.range wanted).map words) wanted with
    | none =>
      rw [ha] at h
      exact absurd h (by simp)
    | some r =>
      obtain ⟨ret1, s1, arr1⟩ := r
      rw [ha] at h
      obtain ⟨-, rfl⟩ := Prod.mk.injEq .. ▸ Option.some.inj h
      rcases nu_pdma_sgtbls_allocate_cases (by simp) ha with ⟨-, t, l, -, rfl, -⟩ | ⟨-, rfl, -⟩
      · exact (TableSteps.refl.token t).chain (some arr1) wanted
      · exact TableSteps.refl.chain (some arr1) wanted

theorem chainPrepare_steps {s s' : State} {id n : ℕ} {malloc : Option (ℕ → nu_pdma_desc_t)} {ret : ℤ}
    (h : chainPrepare s id n malloc = some (ret, s')) : TableSteps id s s' := by
  rw [chainPrepare] at h
  split at h
  · cases hr : chainRelease s id with
    | none =>
      rw [hr] at h
      exact absurd h (by simp)
    | some s0 =>
      rw [hr] at h
      exact (chainRelease_steps hr).trans (chainObtain_steps h)
  · obtain ⟨-, rfl⟩ := Prod.mk.injEq .. ▸ Option.some.inj h
    exact .refl

/-- A descriptor is filled in, or the set-up is rejected. -/
theorem nu_pdma_desc_setup_cases (s : State) (id : ℕ) (p : Option Desc) (w : ℕ) (src dst : BitVec 32)
    (n : ℕ) (next : nu_pdma_desc_t) (silent : Bool) :
    nu_pdma_desc_setup s id p w src dst n next silent = (-RT_EINVAL, s) ∨
      ∃ q d, p = some q ∧ nu_pdma_desc_setup s id p w src dst n next silent =
        (RT_EOK, s.setDesc id q d) := by
  unfold nu_pdma_desc_setup
  cases p with
  | none => exact Or.inl rfl
  | some q =>
    simp only
    split
    · exact Or.inl rfl
    · split
      · exact Or.inl rfl
      · split
        · exact Or.inl rfl
        · split
          · exact Or.inl rfl
          · exact Or.inr ⟨q, _, rfl, rfl⟩

theorem chainLoop_steps (id w : ℕ) (src dst : BitVec 32) (e : nu_pdma_memctrl_t) :
    ∀ (l : List nu_pdma_desc_t) (s : State) (n off : ℕ),
    TableSteps id s (chainLoop id w src dst e s l n off).2 := by
  intro l
  induction l with
  | nil => exact fun s _ _ => .refl
  | cons p l ih =>
    intro s n off
    have hstep : TableSteps id s (nu_pdma_desc_setup s id (p.map .tbl) w (chainAddr e.srcInc src off)
        (chainAddr e.dstInc dst off) (chainTxCnt n) (l.headD none) (decide ¬ l = [])).2 := by
      rcases nu_pdma_desc_setup_cases s id (p.map .tbl) w (chainAddr e.srcInc src off)
        (chainAddr e.dstInc dst off) (chainTxCnt n) (l.headD none) (decide ¬ l = []) with
        hrej | ⟨q, d, hq, hset⟩
      · rw [hrej]
        exact .refl
      · obtain ⟨i, -, rfl⟩ := Option.map_eq_some_iff.mp hq
        rw [hset]
        exact TableSteps.refl.table i d
    rw [chainLoop]
    split
    · exact hstep
    · exact hstep.trans (ih ..)

/-! ### The handlers -/

theorem SameHandlers.of_chn {s s' : State} (hm : s'.nu_pdma_chn_mask_arr = s.nu_pdma_chn_mask_arr)
    (hc : s'.nu_pdma_chn_arr = s.nu_pdma_chn_arr) : SameHandlers s s' :=
  ⟨hm, fun j => by rw [hc], fun j => by rw [hc]⟩

theorem SameHandlers.setChn (s : State) (k : ℕ) {c : nu_pdma_chn}
    (he : c.m_sCB_Event = (s.nu_pdma_chn_arr k).m_sCB_Event)
    (hf : c.m_u32EventFilter = (s.nu_pdma_chn_arr k).m_u32EventFilter) :
    SameHandlers s (s.setChn k c) := by
  refine ⟨rfl, fun j => ?_, fun j => ?_⟩
  · by_cases hj : j = k <;> simp [hj, he]
  · by_cases hj : j = k <;> simp [hj, hf]

theorem SameHandlers.setDesc (s : State) (id : ℕ) (p : Desc) (d : DSCT_T) :
    SameHandlers s (s.setDesc id p d) :=
  .of_chn (by cases p <;> rfl) (State.setDesc_chn s id p d)

theorem TableSteps.same {id : ℕ} {s s' : State} (h : TableSteps id s s') : SameHandlers s s' := by
  induction h with
  | refl => exact .refl s
  | token _ t ih => exact ih.trans (.of_chn rfl rfl)
  | chain _ arr num ih => exact ih.trans (.setChn _ _ rfl rfl)
  | table _ i d ih => exact ih.trans (.setDesc ..)

theorem nu_pdma_desc_setup_same (s : State) (id : ℕ) (p : Option Desc) (w : ℕ) (src dst : BitVec 32)
    (n : ℕ) (next : nu_pdma_desc_t) (silent : Bool) :
    SameHandlers s (nu_pdma_desc_setup s id p w src dst n next silent).2 := by
  rcases nu_pdma_desc_setup_cases s id p w src dst n next silent with hrej | ⟨q, d, -, hset⟩
  · rw [hrej]
    exact .refl s
  · rw [hset]
    exact .setDesc ..

theorem SameHandlers.setPdma (s : State) (m : ℕ) (p : PDMA_T) : SameHandlers s (s.setPdma m p) :=
  .of_chn rfl rfl

theorem SameHandlers.call (s : State) (l : List CbCall) : SameHandlers s (s.call l) := .of_chn rfl rfl

theorem _nu_pdma_transfer_same (s : State) (id p : ℕ) (head : Desc) (t : ℕ) :
    SameHandlers s (_nu_pdma_transfer s id p head t) := by
  unfold _nu_pdma_transfer
  simp only
  split
  · exact (((SameHandlers.setPdma ..).trans (nu_pdma_timeout_set_same ..)).trans
      (.setPdma ..)).trans (.setPdma ..)
  · split
    · exact ((SameHandlers.setPdma ..).trans (nu_pdma_timeout_set_same ..)).trans (.setPdma ..)
    · exact (((SameHandlers.setPdma ..).trans (nu_pdma_timeout_set_same ..)).trans
        (.setPdma ..)).trans (.call ..)

/-- A transfer that starts keeps the handlers. -/
theorem nu_pdma_transfer_same {s s' : State} {id w n t : ℕ} {src dst : BitVec 32}
    {malloc : Option (ℕ → nu_pdma_desc_t)}
    (h : nu_pdma_transfer s id w src dst n t malloc = some (RT_EOK, s')) : SameHandlers s s' := by
  have hinval : -RT_EINVAL ≠ RT_EOK := by decide
  rw [nu_pdma_transfer] at h
  split at h
  · split at h
    · exact absurd (congrArg Prod.fst (Option.some.inj h)) hinval
    · split at h
      · exact absurd (congrArg Prod.fst (Option.some.inj h)) hinval
      · split at h
        · unfold _nu_pdma_transfer_chain at h
          simp only at h
          cases hp : chainPrepare s id n malloc with
          | none =>
            rw [hp] at h
            exact absurd h (by simp)
          | some r =>
            obtain ⟨ret, s1⟩ := r
            simp only [hp] at h
            split at h
            · rename_i hret
              exact absurd rfl (chainExit_some hret h).1
            · split at h
              · exact absurd h (by simp)
              · split at h
                · rename_i hret
                  exact absurd rfl (chainExit_some hret h).1
                · split at h
                  · exact absurd h (by simp)
                  · obtain ⟨-, rfl⟩ := Prod.mk.injEq .. ▸ Option.some.inj h
                    exact ((chainPrepare_steps hp).trans (chainLoop_steps ..)).same.trans
                      (_nu_pdma_transfer_same ..)
        · simp only at h
          split at h
          · rename_i hret
            have hneg : -_ = RT_EOK := congrArg Prod.fst (Option.some.inj h)
            exact absurd (neg_eq_zero.mp hneg) hret
          · obtain ⟨-, rfl⟩ := Prod.mk.injEq .. ▸ Option.some.inj h
            exact (nu_pdma_desc_setup_same ..).trans (_nu_pdma_transfer_same ..)
  · exact absurd h (by simp)

end Pdma
