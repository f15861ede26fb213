/-
Counting the bytes of a circular reception.

The flag of the channel is a `Latch`: each lap of the buffer raises it once, and the
callback delivers it (`Isr.step_latch`).  So the bytes reported are the laps delivered
and the saved index, and a time-out seen without a transfer done finds the channel in
the lap of the index, unless the channel wraps between the two.

* `Line.counted` — in every run without such a wrap, without a lap that ends unseen,
  and without a time-out that the callback turns away, the bytes reported are the
  bytes written up to the last interrupt, and every report is inside the buffer.
-/
import NuMaker.Uart.Reception

namespace Uart

open Pdma NuUtils

/-! ### The time-out window -/

/-- The handler has read the time-out flag of channel `i` set and its transfer-done
flag clear, and not yet served the channel. -/
def IdleOnly : Pc → ℕ → Prop
  | .idle, _ => False
  | .access ops l, i => .read .TDSTS ∉ ops ∧ (l.sts .TDSTS).getLsbD i = false ∧
    (l.sts .REQTOF).getLsbD i = true
  | .serve l allch_sts, i => (l.sts .TDSTS).getLsbD i = false ∧ (l.sts .REQTOF).getLsbD i = true ∧
    allch_sts.getLsbD i = true

/-- A flag that is clear when the handler reads it stays clear in the window, unless it
is raised. -/
theorem idleOnly_step {s : State} {σ σ' : Isr} {op : IsrStep} {m i : ℕ} (hi : i < PDMA_CH_MAX)
    (hsam : σ.Samples s) (hs : σ.Does op σ')
    (h : IdleOnly (σ.pc m) i → (σ.regs m .TDSTS).getLsbD i = false)
    (hraise : op = .raise m i .TDSTS → ¬ IdleOnly (σ.pc m) i) :
    IdleOnly (σ'.pc m) i → (σ'.regs m .TDSTS).getLsbD i = false := by
  intro hw
  cases hs with
  | raise m₀ i₀ k₀ hm₀ hi₀ =>
    rw [Isr.raise_pc] at hw
    rw [Isr.raise_regs σ m₀ i₀ k₀ hi₀, h hw, Bool.false_or, decide_eq_false_iff_not]
    rintro ⟨rfl, rfl, rfl⟩
    exact hraise rfl hw
  | enter m₀ hpc hsts =>
    rw [Isr.goto_pc] at hw
    by_cases hm : m = m₀
    · subst hm
      rw [Function.update_self] at hw
      exact absurd hw.1 (by decide)
    · rw [Function.update_of_ne hm] at hw
      exact h hw
  | access m₀ op ops l hpc =>
    rw [Isr.access_pc] at hw
    rw [Isr.access_regs]
    by_cases hm : m = m₀
    · subst hm
      rw [Function.update_self] at hw ⊢
      rw [hpc] at h
      have hstage := (hsam m _ _ hpc).stage
      obtain ⟨hops, htd, hto⟩ := hw
      cases op with
      | read j =>
        obtain ⟨hregs, hself, hsts, -⟩ := exec_read (σ.regs m) l j
        rw [hregs]
        by_cases hj : j = .TDSTS
        · subst hj
          rwa [hself i hi] at htd
        · have hj' : j ≠ .REQTOF := fun hc => hops ((stage_read hstage).2.2.2 hc .TDSTS (by decide))
          rw [hsts .TDSTS (Ne.symm hj)] at htd
          rw [hsts .REQTOF (Ne.symm hj')] at hto
          exact h ⟨by simp [Ne.symm hj, hops], htd, hto⟩
      | clr j =>
        obtain ⟨hl, hothers, hself⟩ := exec_clr (σ.regs m) l j
        rw [hl] at htd hto
        have h0 := h ⟨by simp [hops], htd, hto⟩
        by_cases hj : j = .TDSTS
        · subst hj
          rw [PDMA_CH_MAX] at hi
          rw [hself i (by omega), h0, Bool.false_and]
        · rw [hothers .TDSTS (Ne.symm hj), h0]
    · rw [Function.update_of_ne hm] at hw ⊢
      exact h hw
  | sampled m₀ l hpc =>
    rw [Isr.goto_pc] at hw
    by_cases hm : m = m₀
    · subst hm
      rw [Function.update_self] at hw
      rw [hpc] at h
      exact h ⟨List.not_mem_nil, hw.1, hw.2.1⟩
    · rw [Function.update_of_ne hm] at hw
      exact h hw
  | serve m₀ l a hpc hlt =>
    rw [Isr.serve_pc] at hw
    rw [Isr.serve_regs]
    by_cases hm : m = m₀
    · subst hm
      rw [Function.update_self] at hw
      rw [hpc] at h
      obtain ⟨htd, hto, ha⟩ := hw
      rw [getLsbD_clear_bit, Bool.and_eq_true] at ha
      exact h ⟨htd, hto, ha.1⟩
    · rw [Function.update_of_ne hm] at hw
      exact h hw
  | leave m₀ l a hpc hge =>
    rw [Isr.goto_pc] at hw
    by_cases hm : m = m₀
    · subst hm
      rw [Function.update_self] at hw
      exact hw.elim
    · rw [Function.update_of_ne hm] at hw
      exact h hw

/-! ### The count register -/

section Count

variable {x : RxDma} {σ : Line}

theorem RxDma.bufsize_lt (x : RxDma) : x.bufsize < 2 ^ 32 := lt_of_le_of_lt x.le (by decide)

theorem RxDma.bufsize_toNat (x : RxDma) : (BitVec.ofNat 32 x.bufsize).toNat = x.bufsize := by
  rw [BitVec.toNat_ofNat, Nat.mod_eq_of_lt x.bufsize_lt]

/-- The count and the width of the descriptor that is loaded. -/
theorem RxDma.CTL_fields (x : RxDma) : field x.CTL 16 16 = x.bufsize - 1 ∧ field x.CTL 12 2 = 0 := by
  have hcnt := @descCTL_TXCNT (BitVec.ofNat 32 x.bufsize - 1) 8 .eMemCtl_SrcFix_DstInc false true false
    ⟨x.CTL, 0, 0, 0⟩ (Or.inl rfl) rfl
  have hbytes := (@descCTL_control (BitVec.ofNat 32 x.bufsize - 1) 8 .eMemCtl_SrcFix_DstInc false true
    false ⟨x.CTL, 0, 0, 0⟩ (Or.inl rfl) rfl).1
  constructor
  · have hle := x.le
    have hpos := x.pos
    rw [NU_PDMA_MAX_TXCNT] at hle
    rw [DSCT_T.TXCNT, BitVec.toNat_sub, x.bufsize_toNat] at hcnt
    rw [hcnt, show (1 : BitVec 32).toNat = 1 from rfl]
    omega
  · have h1 : 2 ^ field x.CTL 12 2 = 2 ^ 0 := hbytes
    exact Nat.pow_right_injective (le_refl 2) h1

/-- What the callback reads is the place in the buffer. -/
theorem Line.transferred_eq (hsame : SameHandlers x.drv σ.isr.drv)
    (hcount : field σ.CTL 16 16 = x.bufsize - 1 - σ.written % x.bufsize)
    (hwidth : field σ.CTL 12 2 = 0) :
    σ.transferred x = BitVec.ofNat 32 (σ.written % x.bufsize) := by
  have hlt := Nat.mod_lt σ.written x.pos
  have hB := x.bufsize_lt
  have hused : nu_pdma_check_is_nonallocated σ.isr.drv (chId x.mod x.chn) = false := by
    rw [nu_pdma_check_is_nonallocated, modIdx_chId _ x.done.chn, chnIdx_chId _ x.done.chn, hsame.mask]
    exact decide_eq_false x.done.used
  rw [Line.transferred, nu_pdma_transferred_byte_get, hused, nu_pdma_non_transfer_count_get,
    i32BitWidth, hwidth, hcount]
  refine BitVec.eq_of_toNat_eq ?_
  simp only [Bool.false_eq_true, if_false, BitVec.toNat_sub, BitVec.toNat_ofNat]
  omega

end Count

/-! ### The driver seen from one flag -/

/-- A driver for which the transfer-done flag of the channel is the only one to be
delivered. -/
def RxDma.solo (x : RxDma) : State :=
  { x.drv with
    nu_pdma_chn_mask_arr := fun m => if m = x.mod then bit x.chn else 0
    nu_pdma_chn_arr := fun _ =>
      { nu_pdma_chn.zero with m_sCB_Event := some 0, m_u32EventFilter := NU_PDMA_EVENT_TRANSFER_DONE } }

theorem RxDma.solo_done (x : RxDma) : Deliverable x.solo x.mod x.chn .TDSTS := by
  have hchn := x.done.chn
  have hwanted : NU_PDMA_EVENT_TRANSFER_DONE &&& Sts.TDSTS.event ≠ 0 := by decide
  refine ⟨hchn, ?_, Option.some_ne_none _, hwanted⟩
  rw [PDMA_CH_MAX] at hchn
  rw [and_bit_iff]
  show (if x.mod = x.mod then bit x.chn else 0).getLsbD x.chn = true
  rw [if_pos rfl, bit, getLsbD_bit]
  simp
  omega

theorem RxDma.solo_only (x : RxDma) {m i : ℕ} {k : Sts} (h : Deliverable x.solo m i k) :
    m = x.mod ∧ i = x.chn ∧ k = .TDSTS := by
  have hused := (and_bit_iff _ _).mp h.used
  have hk : k = .TDSTS := by
    have hwanted : NU_PDMA_EVENT_TRANSFER_DONE &&& k.event ≠ 0 := h.wanted
    cases k with
    | TDSTS => rfl
    | _ => exact absurd rfl hwanted
  by_cases hm : m = x.mod
  · have hbit : (if m = x.mod then bit x.chn else 0).getLsbD i = true := hused
    rw [if_pos hm, bit, getLsbD_bit] at hbit
    simp only [Bool.and_eq_true, decide_eq_true_eq] at hbit
    exact ⟨hm, by omega, hk⟩
  · have hbit : (if m = x.mod then bit x.chn else 0).getLsbD i = true := hused
    rw [if_neg hm] at hbit
    simp at hbit

/-! ### Steps that are counted -/

/-- Between the reads of INTSTS and of the transfer-done flags the handler is going to
clear them. -/
def ClearsDone : Pc → Prop
  | .access ops l => .read .REQTOF ∉ ops → .read .TDSTS ∈ ops → l.clears .TDSTS = true
  | _ => True

/-- When the handler is about to serve channel `i`, its samples have `P`. -/
def Serves (pc : Pc) (i : ℕ) (P : Locals → Prop) : Prop :=
  match pc with
  | .serve l allch_sts => nu_ctz allch_sts = i → P l
  | _ => True

instance : (pc : Pc) → (i : ℕ) → Decidable (IdleOnly pc i)
  | .idle, _ => inferInstanceAs (Decidable False)
  | .access _ _, _ => inferInstanceAs (Decidable (_ ∧ _))
  | .serve _ _, _ => inferInstanceAs (Decidable (_ ∧ _))

instance : (pc : Pc) → Decidable (ClearsDone pc)
  | .idle => inferInstanceAs (Decidable True)
  | .access _ _ => inferInstanceAs (Decidable (_ → _))
  | .serve _ _ => inferInstanceAs (Decidable True)

instance (P : Locals → Prop) [DecidablePred P] (i : ℕ) : (pc : Pc) → Decidable (Serves pc i P)
  | .idle => inferInstanceAs (Decidable True)
  | .access _ _ => inferInstanceAs (Decidable True)
  | .serve _ _ => inferInstanceAs (Decidable (_ → _))

/-- A step keeps the count when

* the channel does not wrap while its flag is up, nor in the time-out window, nor between
  the reads of INTSTS and of the transfer-done flags while the handler will not clear them;
* a time-out is served together with a transfer done before the next byte is written, and
  by itself with the FIFO empty or nothing left to report. -/
def Line.Counts (x : RxDma) (σ : Line) : LineStep → Prop
  | .byte => field σ.CTL 16 16 = 0 →
    σ.flag x = false ∧ ¬ IdleOnly (σ.isr.pc x.mod) x.chn ∧ ClearsDone (σ.isr.pc x.mod)
  | .fifo _ => True
  | .isr (.isr m) => m = x.mod → Serves (σ.isr.pc x.mod) x.chn fun l =>
    (l.sts .REQTOF).getLsbD x.chn = true →
      if (l.sts .TDSTS).getLsbD x.chn then σ.flag x = false ∧ field σ.CTL 16 16 + 1 = x.bufsize
      else σ.rxEmpty = true ∨ σ.put_index = σ.transferred x
  | .isr _ => True

instance (x : RxDma) (σ : Line) (op : LineStep) : Decidable (σ.Counts x op) := by
  cases op with
  | byte => exact inferInstanceAs (Decidable (_ → _))
  | fifo e => exact inferInstanceAs (Decidable True)
  | isr op =>
    cases op with
    | isr m => exact inferInstanceAs (Decidable (_ → _))
    | raise m i k => exact inferInstanceAs (Decidable True)
    | enter m => exact inferInstanceAs (Decidable True)

/-- What is right about a reception: the bytes reported are those written up to the last
interrupt, and each report is one of 1 up to `bufsize` bytes inside the buffer, so that
its length is no negative difference. -/
structure Line.Right (x : RxDma) (σ : Line) : Prop where
  sum : total σ.reports = σ.upTo
  inside : ∀ r ∈ σ.reports, 1 ≤ r.len.toNat ∧ r.start.toNat + r.len.toNat ≤ x.bufsize

/-- What holds of the handlers in a counted run: a lap raises the flag once. -/
structure IsrInv (x : RxDma) (isr : Isr) (written : ℕ) : Prop where
  samples : isr.Samples x.solo
  same : SameHandlers x.drv isr.drv
  balanced : (isr.latch x.mod x.chn .TDSTS).Balanced
  raised : isr.raised x.mod x.chn .TDSTS = written / x.bufsize
  window : IdleOnly (isr.pc x.mod) x.chn → (isr.regs x.mod .TDSTS).getLsbD x.chn = false

/-- The laps reported. -/
def Line.laps (x : RxDma) (σ : Line) : ℕ := σ.isr.delivered x.mod x.chn .TDSTS

/-- What holds in a counted run. -/
structure Line.Inv (x : RxDma) (σ : Line) : Prop where
  isr : IsrInv x σ.isr σ.written
  count : field σ.CTL 16 16 = x.bufsize - 1 - σ.written % x.bufsize
  width : field σ.CTL 12 2 = 0
  laps : total σ.reports = x.bufsize * σ.laps x + σ.put_index.toNat
  index : σ.put_index.toNat < x.bufsize
  le : total σ.reports ≤ σ.written
  right : σ.Right x

theorem total_append (l l' : List Report) : total (l ++ l') = total l + total l' := by
  rw [total, List.map_append, List.sum_append]
  rfl

theorem Line.start_inv (x : RxDma) : (Line.start x).Inv x := by
  have hfields := x.CTL_fields
  constructor
  · constructor
    · exact fun m ops l hpc => absurd hpc (by simp [Line.start, Isr.start])
    · exact .refl _
    · simp [Line.start, Isr.latch, Isr.start, Isr.delivered, Pc.held, Latch.Balanced]
    · exact (Nat.zero_div _).symm
    · exact fun h => h.elim
  · rw [Line.start, hfields.1, Nat.zero_mod, Nat.sub_zero]
  · exact hfields.2
  · rfl
  · exact x.pos
  · exact le_refl 0
  · exact ⟨rfl, fun r hr => absurd hr List.not_mem_nil⟩

/-- A step of the handlers, other than raising the channel's flag or serving it. -/
theorem IsrInv.step {x : RxDma} {σ σ' : Isr} {op : IsrStep} {written : ℕ} (h : IsrInv x σ written)
    (hop : x.raisedBy op = false) (hs : σ.Does op σ') : IsrInv x σ' written := by
  have hne : ∀ m i k, op = .raise m i k → ¬ (m = x.mod ∧ i = x.chn ∧ k = .TDSTS) := by
    rintro m i k rfl ⟨rfl, rfl, rfl⟩
    simp [RxDma.raisedBy] at hop
  constructor
  · refine h.samples.step (fun m i k he hd => ?_) hs
    exact absurd (x.solo_only hd) (hne m i k he)
  · rcases hs.record with ⟨hdrv, -, -⟩ | ⟨m, l, a, hpc, hlt, rfl⟩
    · exact hdrv ▸ h.same
    · exact h.same.trans (pdma_isr_serve_done σ.drv m l _).same
  · exact (Isr.step_latch h.samples hs x.solo_done (h.same.deliverable x.done)).balanced h.balanced
  · rw [← h.raised]
    cases hs with
    | raise m i k hm hi =>
      rw [Isr.raise]
      split
      · rfl
      · show σ.raised x.mod x.chn .TDSTS + (if _ then 1 else 0) = _
        rw [if_neg fun hc => hne m i k rfl ⟨hc.1.symm, hc.2.1.symm, hc.2.2.symm⟩]
        rfl
    | enter m hpc hsts => rfl
    | access m op ops l hpc => rfl
    | sampled m l hpc => rfl
    | serve m l a hpc hlt => rfl
    | leave m l a hpc hge => rfl
  · exact idleOnly_step x.done.chn h.samples hs h.window fun he _ => hne _ _ _ he ⟨rfl, rfl, rfl⟩

/-- The end of a lap. -/
theorem IsrInv.wrap {x : RxDma} {σ : Isr} {written : ℕ} (h : IsrInv x σ written)
    (hflag : (σ.regs x.mod .TDSTS).getLsbD x.chn = false) (hwin : ¬ IdleOnly (σ.pc x.mod) x.chn)
    (hclean : ClearsDone (σ.pc x.mod)) (hend : (written + 1) / x.bufsize = written / x.bufsize + 1) :
    IsrInv x (σ.raise x.mod x.chn .TDSTS) (written + 1) := by
  have hdrv : (σ.raise x.mod x.chn .TDSTS).drv = σ.drv := by
    rw [Isr.raise]
    split <;> rfl
  constructor
  · refine h.samples.raise x.done.chn fun _ ops l hpc => ?_
    rw [hpc] at hclean
    exact hclean
  · exact hdrv ▸ h.same
  · exact (Isr.raise_latch x.done.chn x.mod .TDSTS).balanced h.balanced
  · rw [Isr.raise, if_neg (by rw [hflag]; decide)]
    show σ.raised x.mod x.chn .TDSTS + (if _ then 1 else 0) = _
    rw [if_pos ⟨rfl, rfl, rfl⟩, h.raised, hend]
  · intro hw
    rw [Isr.raise_pc] at hw
    exact absurd hw hwin

/-! ### A step keeps the count -/

section Step

variable {x : RxDma} {σ : Line}

/-- A byte in the middle of the buffer. -/
theorem written_succ {n b : ℕ} (hb : 0 < b) (h : n % b ≠ b - 1) :
    (n + 1) / b = n / b ∧ (n + 1) % b = n % b + 1 := by
  have hlt := Nat.mod_lt n hb
  have hdiv := Nat.div_add_mod n b
  have hsucc : n + 1 = (n % b + 1) + b * (n / b) := by omega
  constructor
  · rw [hsucc, Nat.add_mul_div_left _ _ hb, Nat.div_eq_of_lt (by omega), Nat.zero_add]
  · conv_lhs => rw [hsucc]
    rw [Nat.add_mul_mod_self_left, Nat.mod_eq_of_lt (by omega)]

/-- The last byte of the buffer. -/
theorem written_wrap {n b : ℕ} (hb : 0 < b) (h : n % b = b - 1) :
    (n + 1) / b = n / b + 1 ∧ (n + 1) % b = 0 := by
  have hdiv := Nat.div_add_mod n b
  have hsucc : n + 1 = b * (n / b + 1) := by
    rw [Nat.mul_add]
    omega
  constructor
  · rw [hsucc, Nat.mul_div_cancel_left _ hb]
  · rw [hsucc, Nat.mul_mod_right]

theorem Line.Inv.byte (h : σ.Inv x) (hc : σ.Counts x .byte) : (σ.byte x).Inv x := by
  have hpos := x.pos
  have hlt := Nat.mod_lt σ.written x.pos
  have hcount := h.count
  rw [Line.byte]
  by_cases hend : field σ.CTL 16 16 = 0
  · obtain ⟨hflag, hwin, hclean⟩ := hc hend
    obtain ⟨hdiv, hmod⟩ := written_wrap hpos (show σ.written % x.bufsize = x.bufsize - 1 by omega)
    have hfields := x.CTL_fields
    have hdel : (σ.isr.raise x.mod x.chn .TDSTS).delivered x.mod x.chn .TDSTS = σ.laps x := by
      rw [Line.laps, Isr.delivered, Isr.delivered, Isr.raise]
      split <;> rfl
    rw [if_pos hend]
    constructor
    · exact h.isr.wrap hflag hwin hclean hdiv
    · show field x.CTL 16 16 = x.bufsize - 1 - (σ.written + 1) % x.bufsize
      rw [hfields.1, hmod, Nat.sub_zero]
    · exact hfields.2
    · show total σ.reports = x.bufsize * (σ.isr.raise x.mod x.chn .TDSTS).delivered x.mod x.chn .TDSTS + _
      rw [hdel, h.laps]
    · exact h.index
    · exact h.le.trans (Nat.le_succ _)
    · exact ⟨h.right.sum, h.right.inside⟩
  · have hle := x.le
    rw [NU_PDMA_MAX_TXCNT] at hle
    obtain ⟨hdiv, hmod⟩ := written_succ hpos (show σ.written % x.bufsize ≠ x.bufsize - 1 by omega)
    have hv : (BitVec.ofNat 32 (field σ.CTL 16 16 - 1)).toNat = field σ.CTL 16 16 - 1 := by
      rw [BitVec.toNat_ofNat]
      exact Nat.mod_eq_of_lt (by omega)
    have hv' : (BitVec.ofNat 32 (field σ.CTL 16 16 - 1)).toNat < 2 ^ 16 := by
      rw [hv]
      omega
    rw [if_neg hend]
    constructor
    · exact ⟨h.isr.samples, h.isr.same, h.isr.balanced, h.isr.raised.trans hdiv.symm, h.isr.window⟩
    · show field (setField σ.CTL 16 16 _) 16 16 = x.bufsize - 1 - (σ.written + 1) % x.bufsize
      rw [field_setField hv' (by decide), hv, hmod, hcount]
      omega
    · show field (setField σ.CTL 16 16 _) 12 2 = 0
      rw [field_setField_of_disjoint hv' (by decide), h.width]
    · exact h.laps
    · exact h.index
    · exact h.le.trans (Nat.le_succ _)
    · exact ⟨h.right.sum, h.right.inside⟩

/-- A step of the handlers that does not call the callback. -/
theorem Line.Inv.quiet {isr : Isr} (h : σ.Inv x) (hisr : IsrInv x isr σ.written)
    (hdel : isr.delivered x.mod x.chn .TDSTS = σ.laps x) : Line.Inv x { σ with isr := isr } := by
  constructor
  · exact hisr
  · exact h.count
  · exact h.width
  · show total σ.reports = x.bufsize * isr.delivered x.mod x.chn .TDSTS + _
    rw [hdel, h.laps]
  · exact h.index
  · exact h.le
  · exact ⟨h.right.sum, h.right.inside⟩

/-- The events of a channel are its sampled flags. -/
theorem isDone_chEvent (l : Locals) (i : ℕ) : isDone (chEvent l (bit i)) = (l.sts .TDSTS).getLsbD i := by
  rw [isDone, ← chEvent_pos l i .TDSTS, Bool.eq_iff_iff, decide_eq_true_eq]
  exact and_event_iff _ .TDSTS

theorem isIdle_chEvent (l : Locals) (i : ℕ) : isIdle (chEvent l (bit i)) = (l.sts .REQTOF).getLsbD i := by
  rw [isIdle, ← chEvent_pos l i .REQTOF, Bool.eq_iff_iff, decide_eq_true_eq]
  exact and_event_iff _ .REQTOF

/-- The laps of the buffer: reported, held by the handler, or waiting in the flag. -/
theorem IsrInv.laps {isr : Isr} {written : ℕ} (h : IsrInv x isr written) {l : Locals} {a : BitVec 32}
    (hpc : isr.pc x.mod = .serve l a) (ha : a.getLsbD x.chn = true) :
    written / x.bufsize = isr.delivered x.mod x.chn .TDSTS + ((l.sts .TDSTS).getLsbD x.chn).toNat +
      ((isr.regs x.mod .TDSTS).getLsbD x.chn).toNat := by
  have hbal : isr.raised x.mod x.chn .TDSTS = isr.delivered x.mod x.chn .TDSTS +
      ((isr.pc x.mod).held x.chn .TDSTS).toNat + _ := h.balanced
  rw [hpc, Pc.held, ha, Bool.and_true] at hbal
  rw [← h.raised, hbal]
  rfl

/-- A call of the callback that leaves index and length `r`. -/
theorem Line.Inv.report {isr : Isr} {r : BitVec 32 × BitVec 32} {upTo : ℕ} (h : σ.Inv x)
    (hisr : IsrInv x isr σ.written)
    (hlaps : total σ.reports + r.2.toNat =
      x.bufsize * isr.delivered x.mod x.chn .TDSTS + r.1.toNat)
    (hindex : r.1.toNat < x.bufsize) (hle : total σ.reports + r.2.toNat ≤ σ.written)
    (hupTo : total σ.reports + r.2.toNat = upTo)
    (hin : σ.put_index.toNat + r.2.toNat ≤ x.bufsize) :
    Line.Inv x { σ with
      isr := isr
      put_index := r.1
      reports := σ.reports ++ if r.2 ≠ 0 then [⟨σ.put_index, r.2⟩] else []
      upTo := upTo } := by
  have htotal : total (σ.reports ++ if r.2 ≠ 0 then [⟨σ.put_index, r.2⟩] else []) =
      total σ.reports + r.2.toNat := by
    rw [total_append]
    by_cases h0 : r.2 = 0
    · rw [if_neg (not_not.mpr h0), h0]
      rfl
    · rw [if_pos h0]
      rfl
  constructor
  · exact hisr
  · exact h.count
  · exact h.width
  · exact htotal.trans hlaps
  · exact hindex
  · exact htotal.trans_le hle
  · constructor
    · exact htotal.trans hupTo
    · intro q hq
      rcases List.mem_append.mp hq with hq | hq
      · exact h.right.inside q hq
      · by_cases h0 : r.2 = 0
        · rw [if_neg (not_not.mpr h0)] at hq
          exact absurd hq List.not_mem_nil
        · rw [if_pos h0] at hq
          obtain rfl := List.mem_singleton.mp hq
          refine ⟨Nat.one_le_iff_ne_zero.mpr fun hz => h0 (BitVec.eq_of_toNat_eq hz), hin⟩

/-- **The callback keeps the count.** -/
theorem Line.Inv.called (h : σ.Inv x) {l : Locals} {a : BitVec 32}
    (hpc : σ.isr.pc x.mod = .serve l a) (ha : a.getLsbD x.chn = true)
    (hisr : IsrInv x (σ.isr.serve x.mod l a x.chn) σ.written)
    (hc : (l.sts .REQTOF).getLsbD x.chn = true →
      if (l.sts .TDSTS).getLsbD x.chn then σ.flag x = false ∧ field σ.CTL 16 16 + 1 = x.bufsize
      else σ.rxEmpty = true ∨ σ.put_index = σ.transferred x) :
    (Line.called x { σ with isr := σ.isr.serve x.mod l a x.chn } (chEvent l (bit x.chn))).Inv x := by
  have hpos := x.pos
  have hlt := Nat.mod_lt σ.written x.pos
  have hB := x.bufsize_lt
  have hsize := x.bufsize_toNat
  have hdiv := Nat.div_add_mod σ.written x.bufsize
  have hcount := h.count
  have hlaps := h.isr.laps hpc ha
  have hdel := Isr.serve_delivered σ.isr x.mod l a x.chn (h.isr.same.deliverable x.done)
  have hdma := Line.transferred_eq h.isr.same h.count h.width
  have hdma' := Line.transferred_eq (σ := { σ with isr := σ.isr.serve x.mod l a x.chn }) hisr.same
    h.count h.width
  have hdmaNat : (BitVec.ofNat 32 (σ.written % x.bufsize)).toNat = σ.written % x.bufsize := by
    rw [BitVec.toNat_ofNat]
    exact Nat.mod_eq_of_lt (by omega)
  have hput : σ.put_index < BitVec.ofNat 32 x.bufsize := by
    rw [BitVec.lt_def, hsize]
    exact h.index
  have hdmalt : BitVec.ofNat 32 (σ.written % x.bufsize) < BitVec.ofNat 32 x.bufsize := by
    rw [BitVec.lt_def, hsize, hdmaNat]
    exact hlt
  have hbufsz : BitVec.ofNat 32 x.bufsize ≠ 0 := by
    intro h0
    rw [h0] at hsize
    have : (0 : ℕ) = x.bufsize := hsize
    omega
  have hspec := rx_cb_spec x.twin hbufsz hput hdmalt σ.rxEmpty (chEvent l (bit x.chn))
  rw [Line.called, hdma']
  simp only [isDone_chEvent, isIdle_chEvent]
  obtain ⟨hdone, hidle, hbusy, hother⟩ := hspec
  simp only [isDone_chEvent, isIdle_chEvent] at hdone hidle hbusy hother
  have hsum := h.laps
  have hle := h.le
  have hright := h.right.sum
  have hindex := h.index
  rw [← Line.laps] at hdel hlaps
  rw [show (σ.isr.regs x.mod .TDSTS).getLsbD x.chn = σ.flag x from rfl] at hlaps
  have hflag : Line.flag x { σ with isr := σ.isr.serve x.mod l a x.chn } = σ.flag x := rfl
  rw [hflag]
  cases htd : (l.sts .TDSTS).getLsbD x.chn with
  | true =>
    -- the rest of the lap that has been delivered
    rw [htd] at hc hlaps
    rw [if_pos ⟨rfl, rfl, htd⟩] at hdel
    have hlen : (BitVec.ofNat 32 x.bufsize - σ.put_index).toNat = x.bufsize - σ.put_index.toNat := by
      rw [BitVec.toNat_sub_of_le (by rw [BitVec.le_def, hsize]; exact le_of_lt h.index), hsize]
    have hnew : total σ.reports + (x.bufsize - σ.put_index.toNat) = x.bufsize * (σ.laps x + 1) := by
      rw [hsum, Nat.mul_add]
      omega
    have hge : x.bufsize * (σ.laps x + 1) ≤ x.bufsize * (σ.written / x.bufsize) :=
      Nat.mul_le_mul_left _ (by rw [hlaps, Bool.toNat_true]; omega)
    rw [hdone htd]
    refine h.report hisr ?_ ?_ ?_ ?_ ?_
    · rw [hlen, hnew, hdel]
      rfl
    · exact hpos
    · rw [hlen, hnew]
      omega
    · rw [hlen, hnew]
      cases hto : (l.sts .REQTOF).getLsbD x.chn with
      | true =>
        obtain ⟨hf, hcnt⟩ := hc hto
        rw [hf, Bool.toNat_true, Bool.toNat_false, Nat.add_zero] at hlaps
        rw [if_pos rfl, ← hlaps]
        omega
      | false =>
        rw [hlaps, if_neg (by decide), if_pos rfl, Bool.toNat_true, Nat.add_sub_cancel]
    · rw [hlen]
      omega
  | false =>
    rw [htd] at hc hlaps
    rw [if_neg (fun hcon => by rw [htd] at hcon; exact absurd hcon.2.2 (by decide))] at hdel
    cases hto : (l.sts .REQTOF).getLsbD x.chn with
    | true =>
      -- the flag is clear in the window, so the channel is in the lap of the index
      have hf : σ.flag x = false := h.isr.window (by rw [hpc]; exact ⟨htd, hto, ha⟩)
      rw [hf, Bool.toNat_false, Nat.add_zero] at hlaps
      rw [← hlaps] at hsum hdel
      by_cases he : σ.rxEmpty = true
      · have hge : σ.put_index.toNat ≤ σ.written % x.bufsize := by omega
        have hlen : (BitVec.ofNat 32 (σ.written % x.bufsize) - σ.put_index).toNat =
            σ.written % x.bufsize - σ.put_index.toNat := by
          rw [BitVec.toNat_sub_of_le (by rw [BitVec.le_def, hdmaNat]; exact hge), hdmaNat]
        rw [hidle htd hto he]
        refine h.report hisr ?_ ?_ ?_ ?_ ?_
        · rw [hlen, hdmaNat, hdel, Nat.add_zero]
          omega
        · rw [hdmaNat]
          exact hlt
        · rw [hlen]
          omega
        · rw [hlen, if_pos rfl]
          omega
        · rw [hlen]
          omega
      · have hnone : σ.put_index.toNat = σ.written % x.bufsize := by
          rcases hc hto with hc | hc
          · exact absurd hc he
          · rw [hc, hdma, hdmaNat]
        rw [Bool.not_eq_true] at he
        rw [hbusy htd hto he]
        refine h.report hisr ?_ hindex ?_ ?_ ?_
        · rw [hdel]
          exact hsum
        · exact hle
        · rw [if_pos rfl]
          show total σ.reports + 0 = _
          omega
        · exact le_of_lt hindex
    | false =>
      rw [hother htd hto]
      refine h.report hisr ?_ hindex hle ?_ (le_of_lt hindex)
      · rw [hdel]
        exact hsum
      · exact hright

/-- Only the handler's own step serves a channel. -/
theorem events_of_does {isr isr' : Isr} {op : IsrStep} (hs : isr.Does op isr') :
    isr'.events = isr.events ∨ ∃ m l a, op = .isr m ∧ isr.pc m = .serve l a ∧
      nu_ctz a < PDMA_CH_MAX ∧ isr' = isr.serve m l a (nu_ctz a) := by
  cases hs with
  | raise m i k hm hi =>
    rw [Isr.raise]
    split
    · exact Or.inl rfl
    · exact Or.inl rfl
  | enter m hpc hsts => exact Or.inl rfl
  | access m op ops l hpc => exact Or.inl rfl
  | sampled m l hpc => exact Or.inl rfl
  | serve m l a hpc hlt => exact Or.inr ⟨m, l, a, rfl, hpc, hlt, rfl⟩
  | leave m l a hpc hge => exact Or.inl rfl

/-- The handlers go on: the callback is called when the channel is served with an event
it wants, else nothing happens to the driver. -/
theorem Line.Inv.goto {isr : Isr} {op : IsrStep} (h : σ.Inv x) (hop : x.raisedBy op = false)
    (hc : σ.Counts x (.isr op)) (hs : σ.isr.Does op isr) : (σ.goto x isr).Inv x := by
  have hisr := h.isr.step hop hs
  rcases events_of_does hs with hev | ⟨m, l, a, rfl, hpc, hlt, rfl⟩
  · have hdrop : isr.events.drop σ.isr.events.length = [] := by
      rw [hev, List.drop_length]
    rw [Line.goto, hdrop]
    exact h.quiet hisr (by rw [Line.laps, Isr.delivered, Isr.delivered, hev])
  · have hdel := Isr.serve_delivered σ.isr m l a (nu_ctz a) (h.isr.same.deliverable x.done)
    have hdone := pdma_isr_serve_done σ.isr.drv m l (nu_ctz a)
    have hdrop : (σ.isr.serve m l a (nu_ctz a)).events.drop σ.isr.events.length =
        (pdma_isr_serve σ.isr.drv m l (nu_ctz a)).event.toList.map
          fun e => (⟨m, nu_ctz a, e.1, e.2⟩ : Event) := List.drop_left
    rw [Line.goto, hdrop]
    cases hev : (pdma_isr_serve σ.isr.drv m l (nu_ctz a)).event with
    | none =>
      refine h.quiet hisr ?_
      rw [if_neg] at hdel
      · exact hdel
      · rintro ⟨rfl, hi, hon⟩
        exact hdone.wanted .TDSTS (hi ▸ h.isr.same.deliverable x.done) hon hev
    | some e =>
      simp only [Option.toList_some, List.map_cons, List.map_nil]
      by_cases hmine : m = x.mod ∧ nu_ctz a = x.chn
      · rw [if_pos hmine]
        obtain ⟨rfl, hi⟩ := hmine
        obtain ⟨-, -, he⟩ := hdone.event e hev
        have ha := nu_ctz_bit hlt
        rw [he]
        rw [hi] at ha hisr ⊢
        have hserves := hc rfl
        rw [hpc] at hserves
        exact h.called hpc ha hisr (hserves hi)
      · rw [if_neg hmine]
        refine h.quiet hisr ?_
        rw [if_neg] at hdel
        · exact hdel
        · rintro ⟨hm, hi, -⟩
          exact hmine ⟨hm.symm, hi.symm⟩

theorem Line.Inv.step {σ' : Line} {op : LineStep} (h : σ.Inv x) (hc : σ.Counts x op)
    (hs : σ.step x op = some σ') : σ'.Inv x := by
  cases op with
  | byte =>
    obtain rfl := Option.some.inj hs
    exact h.byte hc
  | fifo rxEmpty =>
    obtain rfl := Option.some.inj hs
    exact ⟨h.isr, h.count, h.width, h.laps, h.index, h.le, h.right.sum, h.right.inside⟩
  | isr op =>
    rw [Line.step] at hs
    split at hs
    · exact absurd hs (by simp)
    · rename_i hop
      obtain ⟨isr, hisr, rfl⟩ := Option.map_eq_some_iff.mp hs
      exact h.goto (Bool.not_eq_true _ ▸ hop) hc (Isr.step_does hisr)

end Step

/-! ### Runs -/

/-- **Every byte is counted once**: in every run of counted steps the bytes reported are
the bytes written up to the last interrupt, each report being 1 up to `bufsize` bytes of
the buffer. -/
theorem Line.counted {x : RxDma} {σ : Line} (h : σ.ReachableBy x (Line.Counts x)) : σ.Right x := by
  have hinv : σ.Inv x := by
    induction h with
    | start => exact Line.start_inv x
    | step _ hp hs ih => exact ih.step hp hs
  exact hinv.right

/-- Take steps that meet `P`, one after another. -/
def Line.run (x : RxDma) (P : Line → LineStep → Prop) [∀ σ op, Decidable (P σ op)] :
    List LineStep → Line → Option Line
  | [], σ => some σ
  | op :: ops, σ => if P σ op then (σ.step x op).bind (Line.run x P ops) else none

theorem Line.ReachableBy.run {x : RxDma} {P : Line → LineStep → Prop} [∀ σ op, Decidable (P σ op)]
    {ops : List LineStep} {σ σ' : Line} (h : σ.ReachableBy x P)
    (hrun : Line.run x P ops σ = some σ') : σ'.ReachableBy x P := by
  induction ops generalizing σ with
  | nil =>
    obtain rfl := Option.some.inj hrun
    exact h
  | cons op ops ih =>
    rw [Line.run] at hrun
    split at hrun
    · rename_i hp
      obtain ⟨σ₁, h₁, hrest⟩ := Option.bind_eq_some_iff.mp hrun
      exact ih (h.step hp h₁) hrest
    · exact absurd hrun (by simp)

/-- UART0 receives through channel 0 of PDMA0 into a buffer of four bytes. -/
def uart0 : RxDma :=
  let s := (nu_pdma_channel_allocate (nu_pdma_init (.raw 0)) 5).2
  let s := (nu_pdma_filtering_set s 0 (NU_PDMA_EVENT_TRANSFER_DONE ||| NU_PDMA_EVENT_TIMEOUT)).2
  { drv := (nu_pdma_callback_register s 0 .eCBType_Event (some 0)).2
    mod := 0
    chn := 0
    twin := .uart
    bufsize := 4
    done := ⟨by decide, by decide, by decide, by decide⟩
    idle := ⟨by decide, by decide, by decide, by decide⟩
    pos := Nat.succ_pos 3
    le := by decide }

/-- A time-out, and the handler up to its end. -/
def timeOut : List LineStep := .isr (.raise 0 0 .REQTOF) :: (handlerRun 0 1).map .isr

/-- Three bytes, a time-out, and two bytes that run over the end of the buffer, which
the handler serves. -/
theorem Line.counted_over_end :
    ∃ σ, Line.run uart0 (Line.Counts uart0) ([.byte, .byte, .byte] ++ timeOut ++ [.byte, .byte] ++
      (handlerRun 0 1).map .isr) (.start uart0) = some σ ∧ σ.Right uart0 ∧ total σ.reports = 4 := by
  obtain ⟨σ, hσ, htotal⟩ := Option.map_eq_some_iff.mp (show (Line.run uart0 (Line.Counts uart0)
    ([.byte, .byte, .byte] ++ timeOut ++ [.byte, .byte] ++ (handlerRun 0 1).map .isr)
      (.start uart0)).map (fun σ => total σ.reports) = some 4 by decide)
  exact ⟨σ, hσ, Line.counted (Line.ReachableBy.start.run hσ), htotal⟩

/-- The channel runs over the end of the buffer after the handler has read its
transfer-done flag and before the callback reads the count: the difference is -2. -/
theorem Line.miscounted : ¬ ∀ (x : RxDma) (σ : Line), σ.ReachableBy x (fun _ _ => True) → σ.Right x := by
  intro hall
  let ops : List LineStep := [.byte, .byte, .byte] ++ timeOut ++
    [.isr (.raise 0 0 .REQTOF), .isr (.enter 0), .isr (.isr 0), .isr (.isr 0), .isr (.isr 0), .byte,
      .byte] ++ List.replicate 8 (.isr (.isr 0))
  obtain ⟨σ, hσ, hlast⟩ := Option.map_eq_some_iff.mp (show (Line.run uart0 (fun _ _ => True) ops
    (.start uart0)).map (fun σ => σ.reports) = some [⟨0, 3⟩, ⟨3, 0xFFFFFFFE⟩] by decide)
  have hin := ((hall uart0 σ (Line.ReachableBy.start.run hσ)).inside ⟨3, 0xFFFFFFFE⟩
    (by rw [hlast]; decide)).2
  exact absurd hin (by decide)

end Uart
