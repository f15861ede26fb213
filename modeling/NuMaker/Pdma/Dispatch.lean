/-
What the interrupt handler reads and what serving a channel does.

A summary bit of INTSTS is set exactly when its status register has a flag
(`INTSTS_low`, `INTSTS_reqto`), and a channel's event word has the events of its
sampled flags (`chEvent_pos`).  Serving a channel calls its own handler, touches no
other channel's time-out and keeps all handlers (`pdma_isr_serve_done`).
-/
import NuMaker.Pdma.Isr

namespace Pdma

open NuUtils

/-! ### What has to be delivered -/

/-- The flag is one of a channel in use whose handler wants its event. -/
structure Deliverable (s : State) (m i : ℕ) (k : Sts) : Prop where
  chn : i < PDMA_CH_MAX
  used : s.nu_pdma_chn_mask_arr m &&& bit i ≠ 0
  callback : (s.nu_pdma_chn_arr (i + m * PDMA_CH_MAX)).m_sCB_Event ≠ none
  wanted : (s.nu_pdma_chn_arr (i + m * PDMA_CH_MAX)).m_u32EventFilter &&& k.event ≠ 0

/-! ### INTSTS and the events -/

/-- The bit of the event of a flag. -/
def Sts.pos : Sts → ℕ
  | .ABTSTS => 0
  | .TDSTS => 1
  | .ALIGN => 2
  | .REQTOF => 3

theorem Sts.event_eq (k : Sts) : k.event = bit k.pos := by
  cases k <;> decide

theorem and_bit_iff (x : BitVec 32) (i : ℕ) : x &&& bit i ≠ 0 ↔ x.getLsbD i = true :=
  and_bit_ne_zero x i

theorem and_event_iff (x : BitVec 32) (k : Sts) : x &&& k.event ≠ 0 ↔ x.getLsbD k.pos = true := by
  rw [k.event_eq]
  exact and_bit_iff _ _

/-- A channel's event word has the events of the flags in the samples. -/
theorem chEvent_pos (l : Locals) (i : ℕ) (k : Sts) :
    (chEvent l (bit i)).getLsbD k.pos = (l.sts k).getLsbD i := by
  have hall : ∀ a b c d : Bool,
      let v := (if a then NU_PDMA_EVENT_ABORT else 0) |||
        (if b then NU_PDMA_EVENT_TRANSFER_DONE else 0) |||
        (if c then NU_PDMA_EVENT_ALIGNMENT else 0) ||| (if d then NU_PDMA_EVENT_TIMEOUT else 0)
      v.getLsbD 0 = a ∧ v.getLsbD 1 = b ∧ v.getLsbD 2 = c ∧ v.getLsbD 3 = d := by decide
  obtain ⟨h0, h1, h2, h3⟩ := hall (l.abtsts.getLsbD i) (l.tdsts.getLsbD i) (l.unalignsts.getLsbD i)
    (l.reqto_ch.getLsbD i)
  simp only [chEvent, and_bit_iff]
  cases k with
  | ABTSTS => exact h0
  | TDSTS => exact h1
  | ALIGN => exact h2
  | REQTOF => exact h3

/-- The summary bits of INTSTS. -/
theorem INTSTS_low (regs : Sts → BitVec 32) : (INTSTS regs).getLsbD 0 = decide (regs .ABTSTS ≠ 0) ∧
    (INTSTS regs).getLsbD 1 = decide (regs .TDSTS ≠ 0) ∧
    (INTSTS regs).getLsbD 2 = decide (regs .ALIGN ≠ 0) := by
  have hall : ∀ a b c : Bool,
      let v := (if a then PDMA_INTSTS_ABTIF_Msk else 0) ||| (if b then PDMA_INTSTS_TDIF_Msk else 0) |||
        (if c then PDMA_INTSTS_ALIGNF_Msk else 0)
      v.getLsbD 0 = a ∧ v.getLsbD 1 = b ∧ v.getLsbD 2 = c := by decide
  obtain ⟨h0, h1, h2⟩ := hall (regs .ABTSTS ≠ 0) (regs .TDSTS ≠ 0) (regs .ALIGN ≠ 0)
  simp only [decide_eq_true_eq] at h0 h1 h2
  have hhigh : ∀ n < 8, ((regs .REQTOF &&& PDMA_CH_Msk) <<< PDMA_INTSTS_REQTOFn_Pos).getLsbD n =
      false := by
    intro n hn
    rw [BitVec.getLsbD_shiftLeft, PDMA_INTSTS_REQTOFn_Pos]
    simp [hn]
  simp only [INTSTS]
  refine ⟨?_, ?_, ?_⟩
  · rw [BitVec.getLsbD_or, hhigh 0 (by decide), Bool.or_false, h0]
  · rw [BitVec.getLsbD_or, hhigh 1 (by decide), Bool.or_false, h1]
  · rw [BitVec.getLsbD_or, hhigh 2 (by decide), Bool.or_false, h2]

/-- The time-out flags of INTSTS. -/
theorem INTSTS_reqto (regs : Sts → BitVec 32) {i : ℕ} (hi : i < PDMA_CH_MAX) :
    ((INTSTS regs &&& PDMA_INTSTS_REQTOFn_Msk) >>> PDMA_INTSTS_REQTOFn_Pos).getLsbD i =
      (regs .REQTOF).getLsbD i := by
  rw [PDMA_CH_MAX] at hi
  have hmsk : ∀ n < 16, PDMA_CH_Msk.getLsbD n = true := by decide
  have hmsk8 : ∀ n < 16, PDMA_INTSTS_REQTOFn_Msk.getLsbD (8 + n) = true := by decide
  have hlow : ∀ a b c : Bool, ∀ n < 16,
      ((if a then PDMA_INTSTS_ABTIF_Msk else 0) ||| (if b then PDMA_INTSTS_TDIF_Msk else 0) |||
        (if c then PDMA_INTSTS_ALIGNF_Msk else 0)).getLsbD (8 + n) = false := by decide
  have hlow' := hlow (regs .ABTSTS ≠ 0) (regs .TDSTS ≠ 0) (regs .ALIGN ≠ 0) i hi
  simp only [decide_eq_true_eq] at hlow'
  rw [BitVec.getLsbD_ushiftRight, PDMA_INTSTS_REQTOFn_Pos, BitVec.getLsbD_and, hmsk8 i hi,
    Bool.and_true, INTSTS, BitVec.getLsbD_or, hlow', Bool.false_or, PDMA_INTSTS_REQTOFn_Pos,
    BitVec.getLsbD_shiftLeft, BitVec.getLsbD_and]
  simp [hmsk i hi]
  omega

/-- A flag seen in a status register before INTSTS is read is seen in INTSTS. -/
theorem clears_of_flag {regs : Sts → BitVec 32} {l : Locals} {k : Sts} (hk : k ≠ .REQTOF) {i : ℕ}
    (h : (regs k).getLsbD i = true) (hl : l.intsts = INTSTS regs) : l.clears k = true := by
  obtain ⟨h0, h1, h2⟩ := INTSTS_low regs
  have hne : regs k ≠ 0 := by
    intro hc
    rw [hc] at h
    simp at h
  have hmsk : PDMA_INTSTS_ABTIF_Msk = bit 0 ∧ PDMA_INTSTS_TDIF_Msk = bit 1 ∧
    PDMA_INTSTS_ALIGNF_Msk = bit 2 := by decide
  cases k with
  | ABTSTS =>
    rw [Locals.clears, decide_eq_true_eq, hl, hmsk.1, and_bit_iff, h0]
    exact decide_eq_true hne
  | TDSTS =>
    rw [Locals.clears, decide_eq_true_eq, hl, hmsk.2.1, and_bit_iff, h1]
    exact decide_eq_true hne
  | ALIGN =>
    rw [Locals.clears, decide_eq_true_eq, hl, hmsk.2.2, and_bit_iff, h2]
    exact decide_eq_true hne
  | REQTOF => exact absurd rfl hk

/-- A sampled time-out flag is cleared. -/
theorem clears_of_reqto {l : Locals} {i : ℕ} (h : (l.sts .REQTOF).getLsbD i = true) :
    l.clears .REQTOF = true := by
  rw [Locals.clears, decide_eq_true_eq]
  intro hc
  rw [Locals.sts, Locals.reqto_ch, hc] at h
  simp at h

/-! ### Serving a channel -/

/-- The channels in use, their handlers and filters are the same. -/
structure SameHandlers (s s' : State) : Prop where
  mask : s'.nu_pdma_chn_mask_arr = s.nu_pdma_chn_mask_arr
  event : ∀ j, (s'.nu_pdma_chn_arr j).m_sCB_Event = (s.nu_pdma_chn_arr j).m_sCB_Event
  filter : ∀ j, (s'.nu_pdma_chn_arr j).m_u32EventFilter = (s.nu_pdma_chn_arr j).m_u32EventFilter

theorem SameHandlers.refl (s : State) : SameHandlers s s := ⟨rfl, fun _ => rfl, fun _ => rfl⟩

theorem SameHandlers.trans {s s' s'' : State} (h : SameHandlers s s') (h' : SameHandlers s' s'') :
    SameHandlers s s'' :=
  ⟨h'.mask.trans h.mask, fun j => (h'.event j).trans (h.event j),
    fun j => (h'.filter j).trans (h.filter j)⟩

theorem SameHandlers.deliverable {s s' : State} (h : SameHandlers s s') {m i : ℕ} {k : Sts}
    (hd : Deliverable s m i k) : Deliverable s' m i k :=
  ⟨hd.chn, by rw [h.mask]; exact hd.used, by rw [h.event]; exact hd.callback,
    by rw [h.filter]; exact hd.wanted⟩

theorem nu_pdma_timeout_set_same (s : State) (id t : ℕ) :
    SameHandlers s (nu_pdma_timeout_set s id t).2 := by
  have hchn : ∀ p, SameHandlers s ((s.setChn (arrayIdx id)
      { s.nu_pdma_chn_arr (arrayIdx id) with m_u32IdleTimeout_us := t }).setPdma (modIdx id) p) := by
    intro p
    refine ⟨rfl, fun j => ?_, fun j => ?_⟩
    · by_cases hj : j = arrayIdx id <;> simp [hj]
    · by_cases hj : j = arrayIdx id <;> simp [hj]
  rw [nu_pdma_timeout_set]
  split
  · exact .refl s
  · split
    · exact .refl s
    · simp only
      split
      · exact hchn _
      · exact hchn _

/-- The enable bits of the time-outs of other channels. -/
def SameTimeout (s s' : State) (m i : ℕ) : Prop :=
  (s'.pdma m).TOUTEN.getLsbD i = (s.pdma m).TOUTEN.getLsbD i ∧
    (s'.pdma m).TOUTIEN.getLsbD i = (s.pdma m).TOUTIEN.getLsbD i

theorem nu_pdma_timeout_set_others (s : State) (id t : ℕ) {m i : ℕ}
    (h : ¬ (modIdx id = m ∧ chnIdx id = i)) : SameTimeout s (nu_pdma_timeout_set s id t).2 m i := by
  have hset : ∀ (k : ℕ) (c : nu_pdma_chn) (p : PDMA_T),
      (modIdx id = m → p.TOUTEN.getLsbD i = (s.pdma m).TOUTEN.getLsbD i ∧
        p.TOUTIEN.getLsbD i = (s.pdma m).TOUTIEN.getLsbD i) →
      SameTimeout s ((s.setChn k c).setPdma (modIdx id) p) m i := by
    intro k c p hp
    rw [SameTimeout, State.setPdma_pdma]
    by_cases hm : m = modIdx id
    · subst hm
      rw [Function.update_self]
      exact hp rfl
    · rw [Function.update_of_ne hm]
      exact ⟨rfl, rfl⟩
  rw [nu_pdma_timeout_set]
  split
  · exact ⟨rfl, rfl⟩
  · split
    · exact ⟨rfl, rfl⟩
    · simp only
      split
      · refine hset _ _ _ fun hm => ?_
        have hi : i ≠ chnIdx id := fun hc => h ⟨hm, hc.symm⟩
        rw [PDMA_SetTimeOut]
        split
        · simp only [PDMA_EnableInt_TIMEOUT, PDMA_DisableTimeout, getLsbD_set_bit, getLsbD_clear_bit,
            hm, State.setChn_pdma]
          simp [hi]
        · simp only [PDMA_EnableInt_TIMEOUT, PDMA_DisableTimeout, getLsbD_set_bit, getLsbD_clear_bit,
            hm, State.setChn_pdma]
          simp [hi]
      · refine hset _ _ _ fun hm => ?_
        have hi : i ≠ chnIdx id := fun hc => h ⟨hm, hc.symm⟩
        simp only [PDMA_DisableInt_TIMEOUT, PDMA_DisableTimeout, getLsbD_clear_bit, hm,
          State.setChn_pdma]
        simp [hi]

/-- Disabling the time-out of a channel, calling handlers and setting a time-out. -/
theorem rearm_done (s : State) (m i id t : ℕ) (c : List CbCall) :
    SameHandlers s (nu_pdma_timeout_set
      ((s.setPdma m (PDMA_DisableTimeout (s.pdma m) (bit i))).call c) id t).2 ∧
    ∀ m' i', ¬ (m = m' ∧ i = i') → ¬ (modIdx id = m' ∧ chnIdx id = i') →
      SameTimeout s (nu_pdma_timeout_set
        ((s.setPdma m (PDMA_DisableTimeout (s.pdma m) (bit i))).call c) id t).2 m' i' := by
  have hcall : SameHandlers s ((s.setPdma m (PDMA_DisableTimeout (s.pdma m) (bit i))).call c) :=
    ⟨rfl, fun _ => rfl, fun _ => rfl⟩
  refine ⟨hcall.trans (nu_pdma_timeout_set_same _ _ _), fun m' i' h1 h2 => ?_⟩
  obtain ⟨h3, h4⟩ := nu_pdma_timeout_set_others
    ((s.setPdma m (PDMA_DisableTimeout (s.pdma m) (bit i))).call c) id t h2
  have hdis : SameTimeout s ((s.setPdma m (PDMA_DisableTimeout (s.pdma m) (bit i))).call c) m' i' := by
    show ((s.setPdma m _).pdma m').TOUTEN.getLsbD i' = _ ∧
      ((s.setPdma m _).pdma m').TOUTIEN.getLsbD i' = _
    rw [State.setPdma_pdma]
    by_cases hm : m' = m
    · subst hm
      have hi : i' ≠ i := fun hc => h1 ⟨rfl, hc.symm⟩
      rw [Function.update_self]
      simp only [PDMA_DisableTimeout, getLsbD_clear_bit]
      simp [hi]
    · rw [Function.update_of_ne hm]
      exact ⟨rfl, rfl⟩
  exact ⟨h3.trans hdis.1, h4.trans hdis.2⟩

/-- What serving channel `i` of module `m` does. -/
structure ServeDone (s : State) (m : ℕ) (l : Locals) (i : ℕ) (r : Served) : Prop where
  same : SameHandlers s r.drv
  event : ∀ e, r.event = some e → s.nu_pdma_chn_mask_arr m &&& bit i ≠ 0 ∧
    (s.nu_pdma_chn_arr (i + m * PDMA_CH_MAX)).m_sCB_Event = some e.1 ∧ e.2 = chEvent l (bit i)
  wanted : ∀ k, Deliverable s m i k → (l.sts k).getLsbD i = true → r.event ≠ none
  rearmed : ∀ id, r.rearmed = some id → id = i + m * PDMA_CH_MAX ∧
    s.nu_pdma_chn_mask_arr m &&& bit i ≠ 0 ∧
    (s.nu_pdma_chn_arr (i + m * PDMA_CH_MAX)).m_sCB_Event ≠ none ∧
    (l.sts .REQTOF).getLsbD i = true
  others : ∀ m' i', (∀ id, r.rearmed = some id → ¬ (m = m' ∧ i = i') ∧
    ¬ (modIdx id = m' ∧ chnIdx id = i')) → SameTimeout s r.drv m' i'

theorem pdma_isr_serve_done (s : State) (m : ℕ) (l : Locals) (i : ℕ) :
    ServeDone s m l i (pdma_isr_serve s m l i) := by
  -- a channel not in use, or without handler, is passed over
  have hskip : (∀ k, ¬ Deliverable s m i k) → ServeDone s m l i ⟨s, none, none⟩ := fun hno =>
    ⟨.refl s, fun e he => absurd he (by simp), fun k hk => absurd hk (hno k),
      fun id hid => absurd hid (by simp), fun _ _ _ => ⟨rfl, rfl⟩⟩
  rw [pdma_isr_serve]
  by_cases hused : s.nu_pdma_chn_mask_arr m &&& bit i ≠ 0
  · rw [if_pos hused]
    cases hcb : (s.nu_pdma_chn_arr (i + m * PDMA_CH_MAX)).m_sCB_Event with
    | none =>
      simp only [hcb]
      exact hskip fun k hk => hk.callback hcb
    | some h =>
      simp only [hcb]
      have hwanted : ∀ k, Deliverable s m i k → (l.sts k).getLsbD i = true →
          (s.nu_pdma_chn_arr (i + m * PDMA_CH_MAX)).m_u32EventFilter &&& chEvent l (bit i) ≠ 0 := by
        intro k hk hs hc
        have hb : ((s.nu_pdma_chn_arr (i + m * PDMA_CH_MAX)).m_u32EventFilter &&&
            chEvent l (bit i)).getLsbD k.pos = true := by
          rw [BitVec.getLsbD_and, chEvent_pos, hs, (and_event_iff _ _).mp hk.wanted]
          rfl
        rw [hc] at hb
        simp at hb
      generalize (s.nu_pdma_chn_arr (i + m * PDMA_CH_MAX)).m_sCB_Disable.toList.map CbCall.disable ++
        (if (s.nu_pdma_chn_arr (i + m * PDMA_CH_MAX)).m_u32EventFilter &&& chEvent l (bit i) ≠ 0 then
          [CbCall.event h (chEvent l (bit i))] else []) = c
      have hev : ∀ e, (if (s.nu_pdma_chn_arr (i + m * PDMA_CH_MAX)).m_u32EventFilter &&&
          chEvent l (bit i) ≠ 0 then some (h, chEvent l (bit i)) else none) = some e →
          s.nu_pdma_chn_mask_arr m &&& bit i ≠ 0 ∧
          (s.nu_pdma_chn_arr (i + m * PDMA_CH_MAX)).m_sCB_Event = some e.1 ∧
          e.2 = chEvent l (bit i) := by
        intro e he
        split at he
        · obtain rfl := Option.some.inj he
          exact ⟨hused, hcb, rfl⟩
        · exact absurd he (by simp)
      have hsome : ∀ {p : Prop} [Decidable p], p →
          (if p then some (h, chEvent l (bit i)) else none) ≠ none := by
        intro p _ hp
        rw [if_pos hp]
        exact Option.some_ne_none _
      by_cases ht : l.reqto_ch &&& bit i ≠ 0
      · simp only [if_pos ht]
        obtain ⟨hsame, hothers⟩ := rearm_done s m i (i + m * PDMA_CH_MAX)
          (s.nu_pdma_chn_arr (i + m * PDMA_CH_MAX)).m_u32IdleTimeout_us c
        refine ⟨hsame, hev, fun k hk hs => hsome (hwanted k hk hs), fun id hid => ?_,
          fun m' i' hne => ?_⟩
        · exact ⟨(Option.some.inj hid).symm, hused, by simp [hcb], (and_bit_iff _ _).mp ht⟩
        · obtain ⟨h1, h2⟩ := hne _ rfl
          exact hothers m' i' h1 h2
      · simp only [if_neg ht]
        exact ⟨⟨rfl, fun _ => rfl, fun _ => rfl⟩, hev, fun k hk hs => hsome (hwanted k hk hs),
          fun id hid => absurd hid (by simp), fun _ _ _ => ⟨rfl, rfl⟩⟩
  · rw [if_neg hused]
    exact hskip fun k hk => hused hk.used

end Pdma
