/-
Delivery of PDMA interrupts.

A flag of a channel in use, with a handler that wants its event, is a `Latch`:
raised by the hardware, held by `pdma_isr` from its clearing on, delivered when the
channel is served (`Isr.step_latch`).  This fails in one window: the summary bits of
INTSTS are read before the status registers, so a flag raised between the two reads
is dispatched, but not cleared while the summary bit was 0, and dispatched again.

* `Isr.delivered_once` — in every run without a flag raised in that window, and
  without a time-out on LPPDMA, every flag is delivered once, to its own channel.
-/
import NuMaker.Lib.Latch
import NuMaker.Pdma.Dispatch

namespace Pdma

open NuUtils

/-! ### What is right about a run -/

/-- How often channel `i` of module `m` was called with the event of `k`. -/
def Isr.delivered (σ : Isr) (m i : ℕ) (k : Sts) : ℕ :=
  σ.events.countP fun e => e.mod = m ∧ e.chn = i ∧ e.u32Events &&& k.event ≠ 0

/-- What is right about a state reached from the channels `s`. -/
structure Isr.Right (s : State) (σ : Isr) : Prop where
  /-- No event is delivered that was not raised, and none is missing when the flag is
  clear and the handler at rest. -/
  once : ∀ m i k, Deliverable s m i k → σ.delivered m i k ≤ σ.raised m i k ∧
    (σ.pc m = .idle → (σ.regs m k).getLsbD i = false → σ.delivered m i k = σ.raised m i k)
  /-- The handler called is that of the channel. -/
  own : ∀ e ∈ σ.events, s.nu_pdma_chn_mask_arr e.mod &&& bit e.chn ≠ 0 ∧
    (s.nu_pdma_chn_arr (e.chn + e.mod * PDMA_CH_MAX)).m_sCB_Event = some e.handler
  /-- A time-out is set again by the id of its channel. -/
  rearm : ∀ r ∈ σ.rearms, r.id = chId r.mod r.chn
  /-- The time-outs of the other channels stay enabled or disabled. -/
  others : ∀ m i, (∀ r ∈ σ.rearms, ¬ (r.mod = m ∧ r.chn = i)) →
    (σ.drv.pdma m).TOUTEN.getLsbD i = (s.pdma m).TOUTEN.getLsbD i ∧
      (σ.drv.pdma m).TOUTIEN.getLsbD i = (s.pdma m).TOUTIEN.getLsbD i
  /-- The handler ends. -/
  ends : ∀ m, σ.pc m ≠ .idle → (∃ σ', σ.step (.isr m) = some σ') ∧
    ∀ op σ', σ.step op = some σ' → (σ'.pc m).rank ≤ (σ.pc m).rank ∧
      (op = .isr m → (σ'.pc m).rank < (σ.pc m).rank)

/-- No flag that has to be delivered is raised after INTSTS was read without its
summary bit and before its register is read, and LPPDMA, whose channels are named by
another id, times out on no channel with a handler. -/
def Isr.Clean (s : State) (σ : Isr) : IsrStep → Prop
  | .raise m i k =>
    (Deliverable s m i k → ∀ ops l, σ.pc m = .access ops l → .read .REQTOF ∉ ops → .read k ∈ ops →
      l.clears k = true) ∧
    (k = .REQTOF → m ≠ 0 → s.nu_pdma_chn_mask_arr m &&& bit i = 0 ∨
      (s.nu_pdma_chn_arr (i + m * PDMA_CH_MAX)).m_sCB_Event = none)
  | _ => True

/-! ### The order of the accesses -/

/-- What is left to do when a register is about to be read. -/
theorem stage_read {ops : List Access} {k : Sts} (h : .read k :: ops <:+ pdma_isr_accesses) :
    .read k ∉ ops ∧ .clr k ∈ ops ∧ (k ≠ .REQTOF → .read .REQTOF ∉ ops) ∧
      (k = .REQTOF → ∀ k', k' ≠ .REQTOF → .read k' ∈ ops) := by
  rw [← List.mem_tails, pdma_isr_accesses] at h
  simp only [List.tails, List.mem_cons, List.cons.injEq, Access.read.injEq, reduceCtorEq, false_and,
    List.not_mem_nil, or_false] at h
  rcases h with ⟨rfl, rfl⟩ | ⟨rfl, rfl⟩ | ⟨rfl, rfl⟩ | ⟨rfl, rfl⟩
  · refine ⟨by decide, by decide, fun hc => absurd rfl hc, fun _ k' hk' => ?_⟩
    cases k' with
    | REQTOF => exact absurd rfl hk'
    | _ => decide
  all_goals exact ⟨by decide, by decide, fun _ => by decide, fun hc => absurd hc (by decide)⟩

/-- What is left to do when a register is about to be cleared. -/
theorem stage_clr {ops : List Access} {k : Sts} (h : .clr k :: ops <:+ pdma_isr_accesses) :
    .clr k ∉ ops ∧ ∀ k', .read k' ∉ ops := by
  rw [← List.mem_tails, pdma_isr_accesses] at h
  simp only [List.tails, List.mem_cons, List.cons.injEq, Access.clr.injEq, reduceCtorEq, false_and,
    List.not_mem_nil, or_false, false_or] at h
  rcases h with ⟨rfl, rfl⟩ | ⟨rfl, rfl⟩ | ⟨rfl, rfl⟩ | ⟨rfl, rfl⟩
  all_goals exact ⟨by decide, fun k' => by cases k' <;> decide⟩

/-! ### Sampling and clearing -/

/-- Reading a register changes no register and no other sample. -/
theorem exec_read (regs : Sts → BitVec 32) (l : Locals) (j : Sts) :
    ((Access.read j).exec regs l).1 = regs ∧
    (∀ i < PDMA_CH_MAX, ((((Access.read j).exec regs l).2).sts j).getLsbD i = (regs j).getLsbD i) ∧
    (∀ k, k ≠ j → (((Access.read j).exec regs l).2).sts k = l.sts k) ∧
    (∀ k, j ≠ .REQTOF → (((Access.read j).exec regs l).2).clears k = l.clears k) := by
  cases j with
  | REQTOF =>
    refine ⟨rfl, fun i hi => INTSTS_reqto regs hi, fun k hk => ?_, fun k hj => absurd rfl hj⟩
    cases k with
    | REQTOF => exact absurd rfl hk
    | _ => rfl
  | ABTSTS =>
    refine ⟨rfl, fun i _ => rfl, fun k hk => ?_, fun k _ => by cases k <;> rfl⟩
    cases k with
    | ABTSTS => exact absurd rfl hk
    | _ => rfl
  | TDSTS =>
    refine ⟨rfl, fun i _ => rfl, fun k hk => ?_, fun k _ => by cases k <;> rfl⟩
    cases k with
    | TDSTS => exact absurd rfl hk
    | _ => rfl
  | ALIGN =>
    refine ⟨rfl, fun i _ => rfl, fun k hk => ?_, fun k _ => by cases k <;> rfl⟩
    cases k with
    | ALIGN => exact absurd rfl hk
    | _ => rfl

/-- Clearing takes the sampled flags out of one register. -/
theorem exec_clr (regs : Sts → BitVec 32) (l : Locals) (j : Sts) :
    ((Access.clr j).exec regs l).2 = l ∧
    (∀ k, k ≠ j → ((Access.clr j).exec regs l).1 k = regs k) ∧
    ∀ i < 32, ((((Access.clr j).exec regs l).1) j).getLsbD i =
      ((regs j).getLsbD i && !(l.clears j && (l.sts j).getLsbD i)) := by
  refine ⟨rfl, fun k hk => ?_, fun i hi => ?_⟩
  · simp only [Access.exec]
    split
    · exact Function.update_of_ne hk _ _
    · rfl
  · simp only [Access.exec]
    split
    · rename_i hc
      rw [Function.update_self, BitVec.getLsbD_and, BitVec.getLsbD_not, hc]
      simp [hi]
    · rename_i hc
      rw [Bool.not_eq_true] at hc
      rw [hc]
      simp

/-- While the handler of a module samples and clears: a sampled flag stays set until it
is cleared, and it will be cleared. -/
structure Sampling (s : State) (m : ℕ) (regs : Sts → BitVec 32) (ops : List Access) (l : Locals) :
    Prop where
  stage : ops <:+ pdma_isr_accesses
  sampled : ∀ i k, Deliverable s m i k → .read k ∉ ops → .clr k ∈ ops →
    (l.sts k).getLsbD i = true → (regs k).getLsbD i = true
  cleared : ∀ i k, Deliverable s m i k → .read k ∉ ops → (l.sts k).getLsbD i = true →
    l.clears k = true
  pending : ∀ i k, Deliverable s m i k → .read .REQTOF ∉ ops → .read k ∈ ops →
    (regs k).getLsbD i = true → l.clears k = true

namespace Sampling

variable {s : State} {m : ℕ} {regs : Sts → BitVec 32} {ops : List Access} {l : Locals} {j : Sts}

theorem start (s : State) (m : ℕ) (regs : Sts → BitVec 32) :
    Sampling s m regs pdma_isr_accesses ⟨0, 0, 0, 0⟩ where
  stage := List.suffix_rfl
  sampled := fun _ k _ hk => absurd (by cases k <;> decide) hk
  cleared := fun _ k _ hk => absurd (by cases k <;> decide) hk
  pending := fun _ _ _ hk => absurd (by decide) hk

theorem read (h : Sampling s m regs (.read j :: ops) l) :
    Sampling s m regs ops ((Access.read j).exec regs l).2 := by
  obtain ⟨hnot, hclr, hfirst, hothers⟩ := stage_read h.stage
  obtain ⟨-, hself, hsts, hclears⟩ := exec_read regs l j
  refine ⟨(List.suffix_cons _ _).trans h.stage, fun i k hd hr hc hl => ?_, fun i k hd hr hl => ?_,
    fun i k hd hr hk hl => ?_⟩
  · by_cases hkj : k = j
    · subst hkj
      rwa [hself i hd.chn] at hl
    · rw [hsts k hkj] at hl
      exact h.sampled i k hd (by simp [hkj, hr]) (List.mem_cons_of_mem _ hc) hl
  · by_cases hj : j = .REQTOF
    · -- the first read: no other sample is there yet
      by_cases hk : k = .REQTOF
      · subst hk
        exact clears_of_reqto hl
      · exact absurd (hothers hj k hk) hr
    · rw [hclears k hj]
      by_cases hkj : k = j
      · subst hkj
        rw [hself i hd.chn] at hl
        exact h.pending i k hd (by simp [Ne.symm hj, hfirst hj]) List.mem_cons_self hl
      · rw [hsts k hkj] at hl
        exact h.cleared i k hd (by simp [hkj, hr]) hl
  · by_cases hj : j = .REQTOF
    · subst hj
      have hk' : k ≠ .REQTOF := fun hc => hr (hc ▸ hk)
      exact clears_of_flag hk' hl rfl
    · rw [hclears k hj]
      exact h.pending i k hd (by simp [Ne.symm hj, hfirst hj]) (List.mem_cons_of_mem _ hk) hl

theorem clr (h : Sampling s m regs (.clr j :: ops) l) :
    Sampling s m ((Access.clr j).exec regs l).1 ops l := by
  obtain ⟨hnot, hread⟩ := stage_clr h.stage
  obtain ⟨-, hothers, -⟩ := exec_clr regs l j
  refine ⟨(List.suffix_cons _ _).trans h.stage, fun i k hd hr hc hl => ?_, fun i k hd hr hl => ?_,
    fun i k _ _ hk => absurd hk (hread k)⟩
  · have hkj : k ≠ j := fun he => hnot (he ▸ hc)
    rw [hothers k hkj]
    exact h.sampled i k hd (by simp [hr]) (List.mem_cons_of_mem _ hc) hl
  · exact h.cleared i k hd (by simp [hr]) hl

/-- The hardware sets one more flag. -/
theorem raise {regs' : Sts → BitVec 32} (h : Sampling s m regs ops l) (i₀ : ℕ) (k₀ : Sts)
    (hmono : ∀ k i, (regs k).getLsbD i = true → (regs' k).getLsbD i = true)
    (hone : ∀ k i, (regs' k).getLsbD i = true → (regs k).getLsbD i = true ∨ i = i₀ ∧ k = k₀)
    (hclean : Deliverable s m i₀ k₀ → .read .REQTOF ∉ ops → .read k₀ ∈ ops → l.clears k₀ = true) :
    Sampling s m regs' ops l := by
  refine ⟨h.stage, fun i k hd hr hc hl => hmono k i (h.sampled i k hd hr hc hl), h.cleared,
    fun i k hd hr hk hl => ?_⟩
  rcases hone k i hl with hl | ⟨rfl, rfl⟩
  · exact h.pending i k hd hr hk hl
  · exact hclean hd hr hk

end Sampling

/-! ### Latches -/

/-- The handler has cleared the flag and not yet served its channel. -/
def Pc.held : Pc → ℕ → Sts → Bool
  | .idle, _, _ => false
  | .access ops l, i, k => decide (.clr k ∉ ops) && (l.sts k).getLsbD i
  | .serve l allch_sts, i, k => (l.sts k).getLsbD i && allch_sts.getLsbD i

/-- The sample of a time-out flag. -/
def Pc.timeout : Pc → ℕ → Bool
  | .idle, _ => false
  | .access _ l, i => (l.sts .REQTOF).getLsbD i
  | .serve l _, i => (l.sts .REQTOF).getLsbD i

/-- The flag `k` of channel `i` of module `m`. -/
def Isr.latch (σ : Isr) (m i : ℕ) (k : Sts) : Latch where
  set := (σ.regs m k).getLsbD i
  held := (σ.pc m).held i k
  raised := σ.raised m i k
  delivered := σ.delivered m i k

/-- Every handler that samples is in order. -/
def Isr.Samples (s : State) (σ : Isr) : Prop :=
  ∀ m ops l, σ.pc m = .access ops l → Sampling s m (σ.regs m) ops l

/-- What holds of one module. -/
structure Isr.ModInv (s : State) (σ : Isr) (m : ℕ) : Prop where
  sampling : ∀ ops l, σ.pc m = .access ops l → Sampling s m (σ.regs m) ops l
  quiet : ∀ i < PDMA_CH_MAX, m ≠ 0 → s.nu_pdma_chn_mask_arr m &&& bit i ≠ 0 →
    (s.nu_pdma_chn_arr (i + m * PDMA_CH_MAX)).m_sCB_Event ≠ none →
    (σ.regs m .REQTOF).getLsbD i = false ∧ (σ.pc m).timeout i = false

/-- A flag raised is set, and no other flag changes. -/
theorem Isr.raise_regs (σ : Isr) (m i : ℕ) (k : Sts) (hi : i < PDMA_CH_MAX) (m' i' : ℕ) (k' : Sts) :
    ((σ.raise m i k).regs m' k').getLsbD i' =
      ((σ.regs m' k').getLsbD i' || decide (m' = m ∧ i' = i ∧ k' = k)) := by
  rw [PDMA_CH_MAX] at hi
  by_cases hset : (σ.regs m k).getLsbD i = true
  · rw [Isr.raise, if_pos hset]
    by_cases h : m' = m ∧ i' = i ∧ k' = k
    · obtain ⟨rfl, rfl, rfl⟩ := h
      simp [hset]
    · simp [h]
  · rw [Isr.raise, if_neg hset]
    show (Function.update σ.regs m _ m' k').getLsbD i' = _
    by_cases hm : m' = m
    · subst hm
      rw [Function.update_self]
      by_cases hk : k' = k
      · subst hk
        rw [Function.update_self, getLsbD_set_bit]
        by_cases hi' : i' = i
        · subst hi'
          simp [show i' < 32 by omega]
        · simp [hi']
      · rw [Function.update_of_ne hk]
        simp [hk]
    · rw [Function.update_of_ne hm]
      simp [hm]

/-- A time-out bit that is quiet stays so while a register is accessed. -/
theorem exec_quiet {regs : Sts → BitVec 32} {l : Locals} {op : Access} {i : ℕ} (hi : i < PDMA_CH_MAX)
    (hr : (regs .REQTOF).getLsbD i = false) (hl : (l.sts .REQTOF).getLsbD i = false) :
    ((op.exec regs l).1 .REQTOF).getLsbD i = false ∧
      ((op.exec regs l).2.sts .REQTOF).getLsbD i = false := by
  cases op with
  | read j =>
    obtain ⟨hregs, hself, hsts, -⟩ := exec_read regs l j
    refine ⟨by rw [hregs]; exact hr, ?_⟩
    by_cases hj : j = .REQTOF
    · subst hj
      rw [hself i hi, hr]
    · rw [hsts .REQTOF (Ne.symm hj), hl]
  | clr j =>
    obtain ⟨hl', hothers, hself⟩ := exec_clr regs l j
    refine ⟨?_, by rw [hl']; exact hl⟩
    by_cases hj : j = .REQTOF
    · subst hj
      rw [hself i (by rw [PDMA_CH_MAX] at hi; omega), hr]
      rfl
    · rw [hothers .REQTOF (Ne.symm hj), hr]

/-- A flag raised leaves the registers of the other modules alone. -/
theorem Isr.raise_regs_of_ne (σ : Isr) {m m₀ i₀ : ℕ} {k₀ : Sts} (hi₀ : i₀ < PDMA_CH_MAX) (hm : m ≠ m₀) :
    (σ.raise m₀ i₀ k₀).regs m = σ.regs m := by
  refine funext fun k => BitVec.eq_of_getLsbD_eq fun i _ => ?_
  rw [Isr.raise_regs σ m₀ i₀ k₀ hi₀]
  simp [hm]

/-- A flag raised outside the reads of INTSTS and of its register. -/
theorem Isr.Samples.raise {s : State} {σ : Isr} {m₀ i₀ : ℕ} {k₀ : Sts} (h : σ.Samples s)
    (hi₀ : i₀ < PDMA_CH_MAX)
    (hp : Deliverable s m₀ i₀ k₀ → ∀ ops l, σ.pc m₀ = .access ops l → .read .REQTOF ∉ ops →
      .read k₀ ∈ ops → l.clears k₀ = true) : (σ.raise m₀ i₀ k₀).Samples s := by
  intro m ops l he
  rw [Isr.raise_pc] at he
  by_cases hm : m = m₀
  · subst hm
    refine (h m ops l he).raise i₀ k₀ (fun k i hk => ?_) (fun k i hk => ?_) fun hd => hp hd ops l he
    · rw [Isr.raise_regs σ m i₀ k₀ hi₀, hk, Bool.true_or]
    · rw [Isr.raise_regs σ m i₀ k₀ hi₀, Bool.or_eq_true, decide_eq_true_eq] at hk
      exact hk.imp_right fun hk => hk.2
  · rw [Isr.raise_regs_of_ne σ hi₀ hm]
    exact h m ops l he

/-- Sampling stays in order, unless a flag is raised at the wrong moment. -/
theorem Isr.Samples.step {s : State} {σ σ' : Isr} {op : IsrStep} (h : σ.Samples s)
    (hp : ∀ m i k, op = .raise m i k → Deliverable s m i k → ∀ ops l, σ.pc m = .access ops l →
      .read .REQTOF ∉ ops → .read k ∈ ops → l.clears k = true)
    (hs : σ.Does op σ') : σ'.Samples s := by
  intro m ops l he
  cases hs with
  | raise m₀ i₀ k₀ hm₀ hi₀ => exact h.raise hi₀ (hp m₀ i₀ k₀ rfl) m ops l he
  | enter m₀ hpc hsts =>
    by_cases hm : m = m₀
    · subst hm
      rw [Isr.goto_pc, Function.update_self] at he
      obtain ⟨rfl, rfl⟩ := Pc.access.inj he
      exact .start s m _
    · rw [Isr.goto_pc, Function.update_of_ne hm] at he
      exact h m ops l he
  | access m₀ op ops₀ l₀ hpc =>
    by_cases hm : m = m₀
    · subst hm
      have hsam := h m _ _ hpc
      simp only [Isr.access_pc, Isr.access_regs, Function.update_self, Pc.access.injEq] at he ⊢
      obtain ⟨rfl, rfl⟩ := he
      cases op with
      | read j =>
        rw [(exec_read (σ.regs m) l₀ j).1]
        exact hsam.read
      | clr j => exact hsam.clr
    · rw [Isr.access_pc, Function.update_of_ne hm] at he
      rw [Isr.access_regs, Function.update_of_ne hm]
      exact h m ops l he
  | sampled m₀ l₀ hpc =>
    by_cases hm : m = m₀
    · subst hm
      rw [Isr.goto_pc, Function.update_self] at he
      exact absurd he (by simp)
    · rw [Isr.goto_pc, Function.update_of_ne hm] at he
      exact h m ops l he
  | serve m₀ l₀ a hpc hlt =>
    by_cases hm : m = m₀
    · subst hm
      rw [Isr.serve_pc, Function.update_self] at he
      exact absurd he (by simp)
    · rw [Isr.serve_pc, Function.update_of_ne hm] at he
      exact h m ops l he
  | leave m₀ l₀ a hpc hge =>
    by_cases hm : m = m₀
    · subst hm
      rw [Isr.goto_pc, Function.update_self] at he
      exact absurd he (by simp)
    · rw [Isr.goto_pc, Function.update_of_ne hm] at he
      exact h m ops l he

/-- The invariant of the module whose handler takes the step, and of the others. -/
theorem Isr.ModInv.step {s : State} {σ σ' : Isr} {op : IsrStep} (h : ∀ m, σ.ModInv s m)
    (hp : Isr.Clean s σ op) (hs : σ.Does op σ') (m : ℕ) : σ'.ModInv s m := by
  have hsamples : σ.Samples s := fun m => (h m).sampling
  refine ⟨hsamples.step (fun m i k he hd => ?_) hs m, ?_⟩
  · subst he
    exact hp.1 hd
  cases hs with
  | raise m₀ i₀ k₀ hm₀ hi₀ =>
    intro i hi hm hu hc
    obtain ⟨hr, ht⟩ := (h m).quiet i hi hm hu hc
    rw [Isr.raise_pc, Isr.raise_regs σ m₀ i₀ k₀ hi₀, hr]
    refine ⟨?_, ht⟩
    by_cases heq : m = m₀ ∧ i = i₀ ∧ Sts.REQTOF = k₀
    · obtain ⟨rfl, rfl, rfl⟩ := heq
      rcases hp.2 rfl hm with hc' | hc'
      · exact absurd hc' hu
      · exact absurd hc' hc
    · simp [heq]
  | enter m₀ hpc hsts =>
    by_cases hm : m = m₀
    · subst hm
      refine fun i hi hm hu hc => ⟨((h m).quiet i hi hm hu hc).1, ?_⟩
      rw [Isr.goto_pc, Function.update_self]
      simp [Pc.timeout, Locals.sts, Locals.reqto_ch, Locals.reqto]
    · rw [Isr.goto_pc, Isr.goto_regs, Function.update_of_ne hm]
      exact (h m).quiet
  | access m₀ op ops l hpc =>
    by_cases hm : m = m₀
    · subst hm
      intro i hi hm hu hc
      obtain ⟨hr, ht⟩ := (h m).quiet i hi hm hu hc
      rw [hpc] at ht
      simp only [Isr.access_pc, Isr.access_regs, Function.update_self]
      exact exec_quiet hi hr ht
    · rw [Isr.access_pc, Isr.access_regs, Function.update_of_ne hm, Function.update_of_ne hm]
      exact (h m).quiet
  | sampled m₀ l hpc =>
    by_cases hm : m = m₀
    · subst hm
      intro i hi hm hu hc
      have ht := (h m).quiet i hi hm hu hc
      rw [hpc] at ht
      rwa [Isr.goto_pc, Function.update_self]
    · rw [Isr.goto_pc, Isr.goto_regs, Function.update_of_ne hm]
      exact (h m).quiet
  | serve m₀ l a hpc hlt =>
    by_cases hm : m = m₀
    · subst hm
      intro i hi hm hu hc
      have ht := (h m).quiet i hi hm hu hc
      rw [hpc] at ht
      rwa [Isr.serve_pc, Function.update_self]
    · rw [Isr.serve_pc, Isr.serve_regs, Function.update_of_ne hm]
      exact (h m).quiet
  | leave m₀ l a hpc hge =>
    by_cases hm : m = m₀
    · subst hm
      refine fun i hi hm hu hc => ⟨((h m).quiet i hi hm hu hc).1, ?_⟩
      rw [Isr.goto_pc, Function.update_self]
      rfl
    · rw [Isr.goto_pc, Isr.goto_regs, Function.update_of_ne hm]
      exact (h m).quiet

/-! ### Each step is a step of a latch -/

/-- Serving a channel delivers its sampled flags. -/
theorem Isr.serve_delivered (σ : Isr) (m : ℕ) (l : Locals) (a : BitVec 32) (i : ℕ) {m' i' : ℕ}
    {k : Sts} (hd : Deliverable σ.drv m' i' k) :
    (σ.serve m l a i).delivered m' i' k =
      σ.delivered m' i' k + if m' = m ∧ i' = i ∧ (l.sts k).getLsbD i = true then 1 else 0 := by
  have hdone := pdma_isr_serve_done σ.drv m l i
  rw [Isr.delivered, Isr.serve, List.countP_append, ← Isr.delivered, List.countP_map]
  congr 1
  by_cases hmi : m' = m ∧ i' = i
  · obtain ⟨rfl, rfl⟩ := hmi
    cases hev : (pdma_isr_serve σ.drv m' l i').event with
    | none =>
      have hoff : (l.sts k).getLsbD i' ≠ true := fun hon => hdone.wanted k hd hon hev
      simp [hoff]
    | some e =>
      have he : e.2 &&& k.event ≠ 0 ↔ (l.sts k).getLsbD i' = true := by
        rw [(hdone.event e hev).2.2, and_event_iff, chEvent_pos]
      by_cases hon : (l.sts k).getLsbD i' = true
      · simpa [hon] using he.mpr hon
      · simpa [hon] using mt he.mp hon
  · cases (pdma_isr_serve σ.drv m l i).event with
    | none => simp [← and_assoc, hmi]
    | some e =>
      have hmi' : ¬ (m = m' ∧ i = i') := fun h => hmi ⟨h.1.symm, h.2.symm⟩
      simp [← and_assoc, hmi, hmi']

/-- The channels with a sampled flag are the ones to be served. -/
theorem allch_sts_of_sts {l : Locals} {k : Sts} {i : ℕ} (h : (l.sts k).getLsbD i = true) :
    l.allch_sts.getLsbD i = true := by
  simp only [Locals.allch_sts, BitVec.getLsbD_or]
  cases k with
  | ABTSTS => simp [show l.abtsts.getLsbD i = true from h]
  | TDSTS => simp [show l.tdsts.getLsbD i = true from h]
  | ALIGN => simp [show l.unalignsts.getLsbD i = true from h]
  | REQTOF => simp [show l.reqto_ch.getLsbD i = true from h]

/-- When the loop ends no channel is left. -/
theorem nu_ctz_done {x : BitVec 32} (h : ¬ nu_ctz x < PDMA_CH_MAX) {i : ℕ} (hi : i < PDMA_CH_MAX) :
    x.getLsbD i = false := by
  by_cases h0 : x = 0
  · simp [h0]
  · exact (nu_ctz_lowest h0).below i (by omega)

section LatchSteps

variable {s : State} {σ : Isr} {m i : ℕ} {k : Sts}

theorem Isr.raise_latch {i₀ : ℕ} (hi₀ : i₀ < PDMA_CH_MAX) (m₀ : ℕ) (k₀ : Sts) :
    Latch.Step (σ.latch m i k) ((σ.raise m₀ i₀ k₀).latch m i k) := by
  have hregs := Isr.raise_regs σ m₀ i₀ k₀ hi₀ m i k
  have hpc : ((σ.raise m₀ i₀ k₀).pc m).held i k = (σ.pc m).held i k := by rw [Isr.raise_pc]
  have hdel : (σ.raise m₀ i₀ k₀).delivered m i k = σ.delivered m i k := by
    rw [Isr.delivered, Isr.delivered, Isr.raise]
    split <;> rfl
  by_cases hset : (σ.regs m₀ k₀).getLsbD i₀ = true
  · rw [Isr.raise, if_pos hset]
    exact .stay _
  · have hraised : (σ.raise m₀ i₀ k₀).raised m i k =
        σ.raised m i k + if m = m₀ ∧ i = i₀ ∧ k = k₀ then 1 else 0 := by
      rw [Isr.raise, if_neg hset]
    by_cases heq : m = m₀ ∧ i = i₀ ∧ k = k₀
    · rw [if_pos heq] at hraised
      obtain ⟨rfl, rfl, rfl⟩ := heq
      rw [Bool.not_eq_true] at hset
      exact .of_raise hset (by rw [Isr.latch, hregs]; simp) hpc hraised hdel
    · rw [if_neg heq] at hraised
      exact .of_eq (Latch.ext (by rw [Isr.latch, hregs]; simp [heq, Isr.latch]) hpc hraised hdel)

theorem Isr.goto_latch {m₀ : ℕ} {pc : Pc} (h : m = m₀ → pc.held i k = (σ.pc m).held i k) :
    Latch.Step (σ.latch m i k) ((σ.goto m₀ pc).latch m i k) := by
  refine .of_eq (Latch.ext rfl ?_ rfl rfl)
  show (Function.update σ.pc m₀ pc m).held i k = (σ.pc m).held i k
  by_cases hm : m = m₀
  · rw [hm, Function.update_self, h hm, hm]
  · rw [Function.update_of_ne hm]

theorem Isr.access_latch {m₀ : ℕ} {op : Access} {ops : List Access} {l : Locals}
    (hpc : σ.pc m₀ = .access (op :: ops) l) (hsam : Sampling s m₀ (σ.regs m₀) (op :: ops) l)
    (hd : Deliverable s m i k) :
    Latch.Step (σ.latch m i k) ((σ.access m₀ op ops l).latch m i k) := by
  have hi32 : i < 32 := by
    have := hd.chn
    rw [PDMA_CH_MAX] at this
    omega
  by_cases hm : m = m₀
  · subst hm
    have hset : ((σ.access m op ops l).latch m i k).set =
        ((op.exec (σ.regs m) l).1 k).getLsbD i := by
      simp [Isr.latch]
    have hheld : ((σ.access m op ops l).latch m i k).held =
        (decide (.clr k ∉ ops) && ((op.exec (σ.regs m) l).2.sts k).getLsbD i) := by
      simp [Isr.latch, Pc.held]
    have hheld₀ : (σ.latch m i k).held =
        (decide (.clr k ∉ op :: ops) && (l.sts k).getLsbD i) := by
      rw [Isr.latch, hpc, Pc.held]
    cases op with
    | read j =>
      -- a register that is read is still to be cleared
      obtain ⟨hregs, -, hsts, -⟩ := exec_read (σ.regs m) l j
      refine .of_eq (Latch.ext (by rw [hset, hregs]; rfl) ?_ rfl rfl)
      rw [hheld, hheld₀]
      by_cases hkj : k = j
      · subst hkj
        simp [(stage_read hsam.stage).2.1]
      · simp [hsts k hkj]
    | clr j =>
      obtain ⟨hl, hothers, hself⟩ := exec_clr (σ.regs m) l j
      obtain ⟨hnot, hread⟩ := stage_clr hsam.stage
      by_cases hkj : k = j
      · subst hkj
        by_cases hon : (l.sts k).getLsbD i = true
        · have hclr := hsam.cleared i k hd (by simp [hread]) hon
          have hreg := hsam.sampled i k hd (by simp [hread]) List.mem_cons_self hon
          refine .of_ack hreg ?_ (by rw [hheld₀]; simp) ?_ rfl rfl
          · rw [hset, hself i hi32, hclr, hon]
            simp
          · rw [hheld, hl, hon]
            simp [hnot]
        · rw [Bool.not_eq_true] at hon
          refine .of_eq (Latch.ext ?_ ?_ rfl rfl)
          · rw [hset, hself i hi32, hon]
            simp [Isr.latch]
          · rw [hheld, hheld₀, hl, hon]
            simp
      · refine .of_eq (Latch.ext (by rw [hset, hothers k hkj]; rfl) ?_ rfl rfl)
        rw [hheld, hheld₀, hl]
        simp [hkj]
  · refine .of_eq (Latch.ext ?_ ?_ rfl rfl)
    · show (Function.update σ.regs m₀ _ m k).getLsbD i = _
      rw [Function.update_of_ne hm]
      rfl
    · show (Function.update σ.pc m₀ _ m).held i k = _
      rw [Function.update_of_ne hm]
      rfl

theorem Isr.serve_latch {m₀ : ℕ} {l : Locals} {a : BitVec 32} {i₀ : ℕ}
    (hpc : σ.pc m₀ = .serve l a) (hbit : a.getLsbD i₀ = true) (hd : Deliverable σ.drv m i k) :
    Latch.Step (σ.latch m i k) ((σ.serve m₀ l a i₀).latch m i k) := by
  have hdel := Isr.serve_delivered σ m₀ l a i₀ hd
  have hheld : (((σ.serve m₀ l a i₀).latch m i k)).held =
      (Function.update σ.pc m₀ (.serve l (a &&& ~~~bit i₀)) m).held i k := rfl
  by_cases hm : m = m₀
  · subst hm
    have hheld₀ : (σ.latch m i k).held = ((l.sts k).getLsbD i && a.getLsbD i) := by
      rw [Isr.latch, hpc, Pc.held]
    rw [Function.update_self, Pc.held, getLsbD_clear_bit] at hheld
    by_cases hi : i = i₀
    · subst hi
      by_cases hon : (l.sts k).getLsbD i = true
      · refine .of_deliver rfl (by rw [hheld₀, hon, hbit]; rfl) (by rw [hheld]; simp) rfl ?_
        rw [if_pos ⟨rfl, rfl, hon⟩] at hdel
        exact hdel
      · rw [if_neg fun hc => hon hc.2.2] at hdel
        rw [Bool.not_eq_true] at hon
        exact .of_eq (Latch.ext rfl (by rw [hheld, hheld₀, hon]; rfl) rfl hdel)
    · rw [if_neg fun hc => hi hc.2.1] at hdel
      exact .of_eq (Latch.ext rfl (by rw [hheld, hheld₀]; simp [hi]) rfl hdel)
  · rw [if_neg fun hc => hm hc.1] at hdel
    exact .of_eq (Latch.ext rfl (by rw [hheld, Function.update_of_ne hm]; rfl) rfl hdel)

/-- **Each step is a step of every latch.** -/
theorem Isr.step_latch {σ' : Isr} {op : IsrStep} (h : σ.Samples s) (hs : σ.Does op σ')
    (hd : Deliverable s m i k) (hd' : Deliverable σ.drv m i k) :
    Latch.Step (σ.latch m i k) (σ'.latch m i k) := by
  cases hs with
  | raise m₀ i₀ k₀ hm₀ hi₀ => exact Isr.raise_latch hi₀ m₀ k₀
  | enter m₀ hpc hsts =>
    refine Isr.goto_latch fun hm => ?_
    rw [hm, hpc, Pc.held, Pc.held, show decide (Access.clr k ∉ pdma_isr_accesses) = false by
      cases k <;> decide]
    rfl
  | access m₀ op ops l hpc => exact Isr.access_latch hpc (h m₀ _ _ hpc) hd
  | sampled m₀ l hpc =>
    refine Isr.goto_latch fun hm => ?_
    rw [hm, hpc, Pc.held, Pc.held]
    by_cases hon : (l.sts k).getLsbD i = true
    · simp [hon, allch_sts_of_sts hon]
    · simp [hon]
  | serve m₀ l a hpc hlt => exact Isr.serve_latch hpc (nu_ctz_bit hlt) hd'
  | leave m₀ l a hpc hge =>
    refine Isr.goto_latch fun hm => ?_
    rw [hm, hpc, Pc.held, Pc.held, nu_ctz_done hge hd.chn]
    simp

end LatchSteps

/-! ### Runs -/

/-- Only serving a channel changes the driver and the record of the handlers. -/
theorem Isr.Does.record {σ σ' : Isr} {op : IsrStep} (hs : σ.Does op σ') :
    (σ'.drv = σ.drv ∧ σ'.events = σ.events ∧ σ'.rearms = σ.rearms) ∨
    ∃ m l a, σ.pc m = .serve l a ∧ nu_ctz a < PDMA_CH_MAX ∧ σ' = σ.serve m l a (nu_ctz a) := by
  cases hs with
  | raise m i k hm hi =>
    rw [Isr.raise]
    split
    · exact .inl ⟨rfl, rfl, rfl⟩
    · exact .inl ⟨rfl, rfl, rfl⟩
  | enter m hpc hsts => exact .inl ⟨rfl, rfl, rfl⟩
  | access m op ops l hpc => exact .inl ⟨rfl, rfl, rfl⟩
  | sampled m l hpc => exact .inl ⟨rfl, rfl, rfl⟩
  | serve m l a hpc hlt => exact .inr ⟨m, l, a, hpc, hlt, rfl⟩
  | leave m l a hpc hge => exact .inl ⟨rfl, rfl, rfl⟩

/-- What holds in a clean run. -/
structure Isr.Inv (s : State) (σ : Isr) : Prop where
  same : SameHandlers s σ.drv
  mods : ∀ m, σ.ModInv s m
  balanced : ∀ m i k, Deliverable s m i k → (σ.latch m i k).Balanced
  own : ∀ e ∈ σ.events, s.nu_pdma_chn_mask_arr e.mod &&& bit e.chn ≠ 0 ∧
    (s.nu_pdma_chn_arr (e.chn + e.mod * PDMA_CH_MAX)).m_sCB_Event = some e.handler
  rearm : ∀ r ∈ σ.rearms, r.id = chId r.mod r.chn
  others : ∀ m i, (∀ r ∈ σ.rearms, ¬ (r.mod = m ∧ r.chn = i)) → SameTimeout s σ.drv m i

theorem Isr.start_inv (s : State) : (Isr.start s).Inv s where
  same := .refl s
  mods := fun m => ⟨fun ops l hpc => absurd hpc (by simp [Isr.start]),
    fun i hi hm hu hc => ⟨by simp [Isr.start], rfl⟩⟩
  balanced := fun m i k _ => by simp [Isr.latch, Isr.start, Isr.delivered, Pc.held, Latch.Balanced]
  own := fun e he => absurd he (by simp [Isr.start])
  rearm := fun r hr => absurd hr (by simp [Isr.start])
  others := fun m i _ => ⟨rfl, rfl⟩

/-- A time-out is set again on PDMA0 only, by the channel's id. -/
theorem Isr.Inv.rearmed {s : State} {σ : Isr} (h : σ.Inv s) {m : ℕ} {l : Locals} {a : BitVec 32}
    (hpc : σ.pc m = .serve l a) {i : ℕ} (hi : i < PDMA_CH_MAX) {id : ℕ}
    (hid : (pdma_isr_serve σ.drv m l i).rearmed = some id) :
    m = 0 ∧ id = chId m i ∧ modIdx id = m ∧ chnIdx id = i := by
  obtain ⟨rfl, hused, hcb, hto⟩ := (pdma_isr_serve_done σ.drv m l i).rearmed id hid
  rw [h.same.mask] at hused
  rw [h.same.event] at hcb
  have hm : m = 0 := by
    by_contra hm
    have := ((h.mods m).quiet i hi hm hused hcb).2
    rw [hpc] at this
    exact absurd (hto.symm.trans this) (by simp)
  subst hm
  rw [PDMA_CH_MAX] at hi
  have hlt : i + 0 * PDMA_CH_MAX < 2 ^ 16 := by omega
  refine ⟨rfl, by rw [chId]; omega, Nat.div_eq_of_lt hlt, ?_⟩
  rw [chnIdx, Nat.mod_eq_of_lt hlt]
  omega

/-- The handlers called, and the time-outs set again, are those of the channel served. -/
theorem Isr.Inv.serve {s : State} {σ : Isr} (h : σ.Inv s) {m : ℕ} {l : Locals} {a : BitVec 32}
    (hpc : σ.pc m = .serve l a) {i : ℕ} (hi : i < PDMA_CH_MAX) :
    SameHandlers s (σ.serve m l a i).drv ∧
    (∀ e ∈ (σ.serve m l a i).events, s.nu_pdma_chn_mask_arr e.mod &&& bit e.chn ≠ 0 ∧
      (s.nu_pdma_chn_arr (e.chn + e.mod * PDMA_CH_MAX)).m_sCB_Event = some e.handler) ∧
    (∀ r ∈ (σ.serve m l a i).rearms, r.id = chId r.mod r.chn) ∧
    ∀ m' i', (∀ r ∈ (σ.serve m l a i).rearms, ¬ (r.mod = m' ∧ r.chn = i')) →
      SameTimeout s (σ.serve m l a i).drv m' i' := by
  have hdone := pdma_isr_serve_done σ.drv m l i
  refine ⟨h.same.trans hdone.same, fun e he => ?_, fun r hr => ?_, fun m' i' hno => ?_⟩
  · rcases List.mem_append.mp he with he | he
    · exact h.own e he
    · obtain ⟨e', he', rfl⟩ := List.mem_map.mp he
      obtain ⟨hused, hcb, -⟩ := hdone.event e' (Option.mem_toList.mp he')
      rw [h.same.mask] at hused
      rw [h.same.event] at hcb
      exact ⟨hused, hcb⟩
  · rcases List.mem_append.mp hr with hr | hr
    · exact h.rearm r hr
    · obtain ⟨id, hid, rfl⟩ := List.mem_map.mp hr
      exact (h.rearmed hpc hi (Option.mem_toList.mp hid)).2.1
  · obtain ⟨h1, h2⟩ := h.others m' i' fun r hr => hno r (List.mem_append_left _ hr)
    obtain ⟨h3, h4⟩ := hdone.others m' i' fun id hid => by
      obtain ⟨-, -, hmod, hchn⟩ := h.rearmed hpc hi hid
      have := hno ⟨m, i, id⟩ (List.mem_append_right _ (List.mem_map.mpr
        ⟨id, Option.mem_toList.mpr hid, rfl⟩))
      rw [hmod, hchn]
      exact ⟨this, this⟩
    exact ⟨h3.trans h1, h4.trans h2⟩

/-- A clean step keeps the invariant. -/
theorem Isr.Inv.step {s : State} {σ σ' : Isr} {op : IsrStep} (h : σ.Inv s)
    (hp : Isr.Clean s σ op) (hs : σ.Does op σ') : σ'.Inv s := by
  have hbal : ∀ m i k, Deliverable s m i k → (σ'.latch m i k).Balanced := fun m i k hd =>
    (Isr.step_latch (fun m => (h.mods m).sampling) hs hd (h.same.deliverable hd)).balanced
      (h.balanced m i k hd)
  have hmods := Isr.ModInv.step h.mods hp hs
  rcases hs.record with ⟨hdrv, hev, hre⟩ | ⟨m, l, a, hpc, hlt, rfl⟩
  · exact ⟨hdrv ▸ h.same, hmods, hbal, hev ▸ h.own, hre ▸ h.rearm, hre ▸ hdrv ▸ h.others⟩
  · obtain ⟨h1, h2, h3, h4⟩ := h.serve hpc hlt
    exact ⟨h1, hmods, hbal, h2, h3, h4⟩

theorem Isr.ReachableBy.inv {s : State} {σ : Isr} (h : σ.ReachableBy (Isr.Clean s) s) :
    σ.Inv s := by
  induction h with
  | start => exact Isr.start_inv s
  | step _ hp hs ih => exact ih.step hp (Isr.step_does hs)

/-- **Every flag is delivered once, to its own channel**, in every run without a flag
raised between the reads of INTSTS and of its register, and without a time-out on
LPPDMA. -/
theorem Isr.delivered_once {s : State} {σ : Isr} (h : σ.ReachableBy (Isr.Clean s) s) :
    σ.Right s := by
  have hinv := h.inv
  refine ⟨fun m i k hd => ⟨(hinv.balanced m i k hd).le, fun hpc hset => ?_⟩, hinv.own, hinv.rearm,
    hinv.others, fun m hm => ⟨Isr.step_isr_isSome hm, fun op σ' hs => Isr.step_rank hs hm⟩⟩
  have hheld : (σ.latch m i k).held = false := by rw [Isr.latch, hpc, Pc.held]
  exact (hinv.balanced m i k hd).eq_of_empty hset hheld

/-- Take steps, one after another. -/
def Isr.run : List IsrStep → Isr → Option Isr
  | [], σ => some σ
  | op :: ops, σ => (σ.step op).bind (Isr.run ops)

theorem Isr.ReachableBy.run {P : Isr → IsrStep → Prop} {s : State} {ops : List IsrStep} {σ σ' : Isr}
    (h : σ.ReachableBy P s) (hP : ∀ op ∈ ops, ∀ σ, P σ op) (hrun : Isr.run ops σ = some σ') :
    σ'.ReachableBy P s := by
  induction ops generalizing σ with
  | nil =>
    obtain rfl := Option.some.inj hrun
    exact h
  | cons op ops ih =>
    obtain ⟨σ₁, h₁, hrest⟩ := Option.bind_eq_some_iff.mp hrun
    exact ih (h.step (hP op List.mem_cons_self σ) h₁) (fun o ho => hP o (List.mem_cons_of_mem _ ho))
      hrest

/-- Channel 0 of PDMA0 is in use, its handler wants to know when a transfer is done. -/
def doneHandler : State :=
  let s := (nu_pdma_channel_allocate (nu_pdma_init (.raw 0)) 0).2
  let s := (nu_pdma_filtering_set s 0 NU_PDMA_EVENT_TRANSFER_DONE).2
  (nu_pdma_callback_register s 0 .eCBType_Event (some 0)).2

/-- One run of the handler, up to its end. -/
def handlerRun (m served : ℕ) : List IsrStep := .enter m :: List.replicate (10 + served) (.isr m)

/-- The run in which a transfer is done. -/
theorem Isr.delivered_once_done : ∃ σ, Isr.run (.raise 0 0 .TDSTS :: handlerRun 0 1) (.start doneHandler) =
    some σ ∧ σ.Right doneHandler ∧ σ.delivered 0 0 .TDSTS = 1 := by
  obtain ⟨σ, hσ, hdel⟩ := Option.map_eq_some_iff.mp (show (Isr.run (.raise 0 0 .TDSTS :: handlerRun 0 1)
    (.start doneHandler)).map (·.delivered 0 0 .TDSTS) = some 1 by decide)
  obtain ⟨σ₁, h₁, hrest⟩ := Option.bind_eq_some_iff.mp hσ
  refine ⟨σ, hσ, Isr.delivered_once (((Isr.ReachableBy.start).step ?_ h₁).run (fun op hop σ' => ?_)
    hrest), hdel⟩
  · exact ⟨fun _ ops l hpc => absurd hpc (by simp [Isr.start]), fun hc => absurd hc (by decide)⟩
  · rcases List.mem_cons.mp hop with rfl | hop
    · trivial
    · rw [List.eq_of_mem_replicate hop]
      trivial

/-- A run in which a transfer is done between the reads of INTSTS, entered because
another channel was aborted, and of the transfer-done flags. -/
def lateDone : List IsrStep :=
  [.raise 0 1 .ABTSTS, .enter 0, .isr 0, .raise 0 0 .TDSTS] ++ List.replicate 11 (.isr 0) ++
    handlerRun 0 1

/-- The event is delivered twice. -/
theorem Isr.delivered_twice :
    ¬ ∀ (s : State) (σ : Isr), σ.ReachableBy (fun _ _ => True) s → σ.Right s := by
  intro hall
  obtain ⟨σ, hσ, hdel⟩ := Option.map_eq_some_iff.mp (show (Isr.run lateDone
    (.start doneHandler)).map (fun σ => (σ.delivered 0 0 .TDSTS, σ.raised 0 0 .TDSTS)) =
      some (2, 1) by decide)
  have hd : Deliverable doneHandler 0 0 .TDSTS :=
    ⟨by decide, by decide, by decide, by decide⟩
  have hle := ((hall doneHandler σ (Isr.ReachableBy.start.run (fun _ _ _ => trivial) hσ)).once 0 0
    .TDSTS hd).1
  rw [(Prod.mk.inj hdel).1, (Prod.mk.inj hdel).2] at hle
  omega

end Pdma
