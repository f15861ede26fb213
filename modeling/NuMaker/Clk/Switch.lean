/-
The clock driver: the core keeps running while its clock is switched.

`Sound` says that the source of HCLK delivers, the PLL's own included, and that the RMC has the
access cycles for the frequency.  Every write of `CLK_SetHCLK` and `CLK_SetCoreClock` keeps it, except
those that follow from two slips: HIRC is switched off at the end if its stable flag was not set at the
beginning, whether it was enabled or not and whether the new source needs it or not; and at 25 MHz the
access cycles are those for less.

* **`setHCLK_iff`**, **`setCoreClock_iff`** — when the two functions are safe;
* **`switching_safe`** — both, from every sound state;
* **`switching_stops`** — a switch to HIRC while it starts up.
-/
import NuMaker.Clk.Frequency
import NuMaker.Lib.BitMask
import NuMaker.Lib.Guarded

namespace Clk

variable {c c' : Regs} {src src' : HclkSrc}

/-! ### Sound states -/

/-- The bit of an oscillator is set. -/
def Regs.On (c : Regs) (m : BitVec 32) : Prop := c.PWRCTL &&& m = m

/-- The source is enabled, and delivers. -/
def Regs.Enabled (c : Regs) : HclkSrc → Prop
  | .HXT => c.On CLK_PWRCTL_HXTEN_Msk
  | .LXT => c.On CLK_PWRCTL_LXTEN_Msk
  | .LIRC => c.On CLK_PWRCTL_LIRCEN_Msk
  | .MIRC => c.On CLK_PWRCTL_MIRCEN_Msk
  | .HIRC48M => c.On CLK_PWRCTL_HIRC48MEN_Msk
  | .HIRC => c.On CLK_PWRCTL_HIRCEN_Msk
  | .PLL =>
    c.PLLCTL &&& (CLK_PLLCTL_PD_Msk ||| CLK_PLLCTL_OE_Msk) = 0 ∧
      c.On (if c.PllOnHIRC then CLK_PWRCTL_HIRCEN_Msk else CLK_PWRCTL_HXTEN_Msk)

/-- The access cycles that the RMC needs: two below 25 MHz, three from 25 to 50 MHz, four from 50 to
72 MHz.  The others are reserved, and more are no harm. -/
def Sufficient (CYCCTL : ℕ) (f : ℚ) : Prop :=
  CYCCTL ≤ 4 ∧ (2 ≤ CYCCTL ∧ f < 25000000 ∨ 3 ≤ CYCCTL ∧ f ≤ 50000000 ∨ 4 ≤ CYCCTL ∧ f ≤ 72000000)

/-- The core runs from that source. -/
structure Runs (c : Regs) (src : HclkSrc) : Prop where
  selected : c.Selected src
  enabled : c.Enabled src
  cycles : Sufficient c.CYCCTL (c.hclk src)

/-- The core runs. -/
def Sound (c : Regs) : Prop := ∃ src, Runs c src

/-- The core runs after each of the writes. -/
abbrev RunsAlong (c : Regs) (ws : List Write) : Prop :=
  Guarded.Along (fun c (w : Write) => w c) (fun c w => Sound (w c)) c ws

/-- And at the end it runs from the new source. -/
def Safe (c : Regs) (ws : List Write) (src : HclkSrc) : Prop := RunsAlong c ws ∧ Runs (run c ws) src

/-- The source is HIRC, or made of it. -/
def Regs.NeedsHIRC (c : Regs) (src : HclkSrc) : Prop := src = .HIRC ∨ src = .PLL ∧ c.PllOnHIRC

theorem sel_injective : CLK_CLKSEL0_HCLKSEL src = CLK_CLKSEL0_HCLKSEL src' → src = src' := by
  cases src <;> cases src' <;> decide

theorem sound_iff (hsel : c.Selected src) : Sound c ↔ Runs c src := by
  constructor
  · rintro ⟨src', h⟩
    have : src' = src := sel_injective (h.selected.symm.trans hsel)
    exact this ▸ h
  · exact fun h => ⟨src, h⟩

theorem Sufficient.bounds {n : ℕ} {f : ℚ} (h : Sufficient n f) : 2 ≤ n ∧ n ≤ 4 ∧ f ≤ 72000000 := by
  obtain ⟨h4, ⟨h2, hf⟩ | ⟨h3, hf⟩ | ⟨h4', hf⟩⟩ := h
  · exact ⟨h2, h4, by linarith⟩
  · exact ⟨by omega, h4, by linarith⟩
  · exact ⟨by omega, h4, hf⟩

theorem Sufficient.of_lt {n : ℕ} {f : ℚ} (hn : 2 ≤ n ∧ n ≤ 4) (hf : f < 25000000) : Sufficient n f :=
  ⟨hn.2, Or.inl ⟨hn.1, hf⟩⟩

/-- The four cycles are for every frequency there is. -/
theorem sufficient_four {f : ℚ} : Sufficient 4 f ↔ f ≤ 72000000 :=
  ⟨fun h => h.bounds.2.2, fun h => ⟨Nat.le_refl 4, Or.inr (Or.inr ⟨Nat.le_refl 4, h⟩)⟩⟩

/-! ### What a write keeps -/

theorem On.enable {m : BitVec 32} (k : BitVec 32) (h : c.On m) : (enable k c).On m :=
  and_of_or_mask k h

theorem enable_on (c : Regs) (m : BitVec 32) : (enable m c).On m := or_mask_and _ _

/-- A source is enabled wherever the same oscillators are. -/
theorem Enabled.of_on (hpll : c'.PLLCTL = c.PLLCTL) (hon : ∀ m, c.On m → c'.On m)
    (h : c.Enabled src) : c'.Enabled src := by
  cases src with
  | PLL =>
    obtain ⟨hpd, h⟩ := h
    have hsrc : c'.PllOnHIRC ↔ c.PllOnHIRC := by rw [Regs.PllOnHIRC, hpll, Regs.PllOnHIRC]
    refine ⟨hpll ▸ hpd, ?_⟩
    simp only [hsrc]
    exact hon _ h
  | HXT | LXT | LIRC | MIRC | HIRC48M | HIRC => exact hon _ h

/-- A source has its frequency whatever is done to the bits that enable oscillators. -/
theorem freq_congr (hpll : c'.PLLCTL = c.PLLCTL) (hpll2 : c'.PLLCTL2 = c.PLLCTL2)
    (hmirc : field c'.PWRCTL 28 3 = field c.PWRCTL 28 3) : c'.freq src = c.freq src := by
  cases src <;> simp only [Regs.freq, Regs.NF, Regs.NR, Regs.NO, hpll, hpll2, hmirc]

theorem field_or_bit (r : BitVec 32) {k pos len : ℕ} (hk : k < pos) :
    field (r ||| 1#32 <<< k) pos len = field r pos len := by
  refine Nat.eq_of_testBit_eq fun i => ?_
  rw [testBit_field, testBit_field, getLsbD_setBit]
  simp [show pos + i ≠ k by omega]

theorem field_and_not_bit (r : BitVec 32) {k pos len : ℕ} (hk : k < pos) :
    field (r &&& ~~~(1#32 <<< k)) pos len = field r pos len := by
  refine Nat.eq_of_testBit_eq fun i => ?_
  rw [testBit_field, testBit_field, getLsbD_clearBit]
  simp [show pos + i ≠ k by omega]

/-- Enabling HIRC or HXT. -/
theorem Runs.enable {k : ℕ} (hk : k < 28) (h : Runs c src) : Runs (enable (1#32 <<< k) c) src where
  selected := h.selected
  enabled := Enabled.of_on (c := c) rfl (fun _ => On.enable _) h.enabled
  cycles := by
    have hfreq : (Clk.enable (1#32 <<< k) c).freq src = c.freq src :=
      freq_congr rfl rfl (field_or_bit _ hk)
    have := h.cycles
    rw [Regs.hclk, ← hfreq] at this
    exact this

/-- Raising the access cycles. -/
theorem Runs.raise (h : Runs c src) : Runs { c with CYCCTL := 4 } src :=
  ⟨h.selected, Enabled.of_on (c := c) rfl (fun _ => id) h.enabled, sufficient_four.2 h.cycles.bounds.2.2⟩

/-- The core runs from HIRC, with any access cycles. -/
structure OnHIRC (c : Regs) : Prop where
  selected : c.Selected .HIRC
  on : c.On CLK_PWRCTL_HIRCEN_Msk
  cycles : 2 ≤ c.CYCCTL ∧ c.CYCCTL ≤ 4

theorem OnHIRC.sound (h : OnHIRC c) : Sound c := by
  refine ⟨.HIRC, h.selected, h.on, Sufficient.of_lt h.cycles ?_⟩
  have hone : (1 : ℚ) ≤ c.div := by exact_mod_cast div_pos c
  have hle : c.hclk .HIRC ≤ (HIRC_FREQ : ℚ) := div_le_self (Nat.cast_nonneg _) hone
  refine lt_of_le_of_lt hle ?_
  rw [HIRC_FREQ]
  norm_num

/-! ### Switching HCLK -/

/-- The writes of `CLK_SetHCLK` before the one that may switch HIRC off. -/
def switchTo (src : HclkSrc) (x : ℕ) : List Write := CLK_SetHCLK true (CLK_CLKSEL0_HCLKSEL src)
  (CLK_CLKDIV0_HCLK x)

/-- What puts HIRC back. -/
def restore (stb : Bool) : List Write := if stb then [] else [disable CLK_PWRCTL_HIRCEN_Msk]

theorem setHCLK_eq (stb : Bool) (src : HclkSrc) (x : ℕ) :
    CLK_SetHCLK stb (CLK_CLKSEL0_HCLKSEL src) (CLK_CLKDIV0_HCLK x) =
      switchTo src x ++ restore stb := by
  cases stb <;> rfl

theorem safe_append {ws vs : List Write} :
    Safe c (ws ++ vs) src ↔ RunsAlong c ws ∧ Safe (run c ws) vs src := by
  rw [Safe, RunsAlong, Guarded.along_append, and_assoc, run, List.foldl_append]
  rfl

/-- `c` with HIRC switched off. -/
def Regs.withoutHIRC (c : Regs) : Regs := disable CLK_PWRCTL_HIRCEN_Msk c

theorem withoutHIRC_on {m : BitVec 32} (hm : CLK_PWRCTL_HIRCEN_Msk &&& m = 0) (h : c.On m) :
    c.withoutHIRC.On m := (and_of_and_not_mask c.PWRCTL hm).trans h

theorem Regs.withoutHIRC_off (c : Regs) : ¬ c.withoutHIRC.On CLK_PWRCTL_HIRCEN_Msk := by
  intro hon
  have hbit := congrArg (fun r => r.getLsbD 2) hon
  dsimp only [Regs.withoutHIRC, disable] at hbit
  rw [BitVec.getLsbD_and, CLK_PWRCTL_HIRCEN_Msk, getLsbD_clearBit, getLsbD_bit] at hbit
  simp at hbit

/-- What is enabled without HIRC is what does not need it. -/
theorem withoutHIRC_enabled (h : c.Enabled src) : c.withoutHIRC.Enabled src ↔ ¬ c.NeedsHIRC src := by
  cases src with
  | HIRC => exact iff_of_false c.withoutHIRC_off fun hn => hn (Or.inl rfl)
  | PLL =>
    obtain ⟨hpd, hon⟩ := h
    by_cases hp : c.PllOnHIRC
    · refine iff_of_false (fun he => ?_) fun hn => hn (Or.inr ⟨rfl, hp⟩)
      have hon' := he.2
      rw [if_pos (show c.withoutHIRC.PllOnHIRC from hp)] at hon'
      exact c.withoutHIRC_off hon'
    · rw [if_neg hp] at hon
      refine iff_of_true ⟨hpd, ?_⟩ fun hn => hn.elim nofun fun hn => hp hn.2
      rw [if_neg (show ¬ c.withoutHIRC.PllOnHIRC from hp)]
      exact withoutHIRC_on (by decide) hon
  | HXT | LXT | LIRC | MIRC | HIRC48M =>
    exact iff_of_true (withoutHIRC_on (by decide) h) fun hn => hn.elim nofun fun hn => nomatch hn.1

/-- Switching HIRC off is safe for a core that does not need it. -/
theorem safe_restore {stb : Bool} (h : Runs c src) :
    Safe c (restore stb) src ↔ stb = true ∨ ¬ c.NeedsHIRC src := by
  cases stb with
  | true => exact ⟨fun _ => Or.inl rfl, fun _ => ⟨trivial, h⟩⟩
  | false =>
    constructor
    · exact fun hs => Or.inr ((withoutHIRC_enabled h.enabled).1 hs.2.enabled)
    · rintro (hs | hs)
      · cases hs
      · have hfreq : c.withoutHIRC.freq src = c.freq src :=
          freq_congr rfl rfl (field_and_not_bit _ (by decide))
        have hcyc := h.cycles
        rw [Regs.hclk, ← hfreq] at hcyc
        have hr : Runs c.withoutHIRC src :=
          ⟨h.selected, (withoutHIRC_enabled h.enabled).2 hs, hcyc⟩
        exact ⟨⟨⟨src, hr⟩, trivial⟩, hr⟩

/-- **The access cycles fit**, but not at 25 MHz. -/
theorem fit_iff (hsel : c.Selected src) (hen : c.Enabled src) (hle : c.hclk src ≤ 72000000) :
    Sufficient (fitCycles c).CYCCTL (c.hclk src) ↔ c.hclk src ≠ 25000000 := by
  have hpd : src = .PLL → c.PLLCTL &&& (CLK_PLLCTL_PD_Msk ||| CLK_PLLCTL_OE_Msk) = 0 := by
    rintro rfl
    exact hen.1
  have h25 := core_over_iff (j := 1) (by decide) hsel hpd hle
  have h50 := core_over_iff (j := 2) (by decide) hsel hpd hle
  norm_num at h25 h50
  show Sufficient (if SystemCoreClockUpdate c > 50000000 then 4
    else if SystemCoreClockUpdate c > 25000000 then 3 else 2) _ ↔ _
  simp only [gt_iff_lt, h25, h50]
  split
  · next h => exact iff_of_true (sufficient_four.2 hle) (by linarith)
  · next h =>
    split
    · next h' =>
      exact iff_of_true ⟨by decide, Or.inr (Or.inl ⟨by decide, not_lt.1 h⟩)⟩ (ne_of_gt h')
    · next h' =>
      -- two cycles, for at most 25 MHz
      refine ⟨?_, fun hne => Sufficient.of_lt (by decide) (lt_of_le_of_ne (not_lt.1 h') hne)⟩
      rintro ⟨-, ⟨-, hlt⟩ | ⟨h3, -⟩ | ⟨h4, -⟩⟩
      · exact ne_of_lt hlt
      · exact absurd h3 (by decide)
      · exact absurd h4 (by decide)

theorem divide_div {x : ℕ} (hx : 1 ≤ x) (hx' : x ≤ 16) (c : Regs) :
    (divide (CLK_CLKDIV0_HCLK x) c).div = x := by
  have hv : (BitVec.ofNat 32 x - 1).toNat = x - 1 := by
    rw [BitVec.toNat_sub, BitVec.toNat_ofNat, show (1 : BitVec 32).toNat = 1 from rfl]
    omega
  have hfield : field (setField c.CLKDIV0 0 4 (BitVec.ofNat 32 x - 1)) 0 4 = x - 1 :=
    (field_setField (by rw [hv]; omega) (by decide)).trans hv
  show field (setField c.CLKDIV0 0 4 (BitVec.ofNat 32 x - 1)) 0 4 + 1 = x
  omega

theorem select_selected (src : HclkSrc) (c : Regs) :
    (select (CLK_CLKSEL0_HCLKSEL src) c).Selected src :=
  replace_mask_and _ (by cases src <;> decide)

/-- The writes up to the new source. -/
theorem switchTo_spec {x : ℕ} (hc : Sound c) (hsrc : c.Enabled src) (hx : 1 ≤ x) (hx' : x ≤ 16) :
    (RunsAlong c (switchTo src x) ↔ c.freq src / x ≤ 72000000 ∧ c.freq src / x ≠ 25000000) ∧
      (RunsAlong c (switchTo src x) → Runs (run c (switchTo src x)) src) := by
  obtain ⟨old, hold⟩ := hc
  -- with the most access cycles, and HIRC on
  have h₁ := hold.raise
  set c₁ : Regs := { c with CYCCTL := 4 } with hc₁
  have h₂ : Runs (enable CLK_PWRCTL_HIRCEN_Msk c₁) old := h₁.enable (by decide)
  have hon := enable_on c₁ CLK_PWRCTL_HIRCEN_Msk
  set c₂ := enable CLK_PWRCTL_HIRCEN_Msk c₁ with hc₂
  -- on HIRC, where the divider is changed
  have h₃ : OnHIRC (select (CLK_CLKSEL0_HCLKSEL .HIRC) c₂) :=
    ⟨select_selected _ _, hon, (by decide : 2 ≤ 4 ∧ 4 ≤ 4)⟩
  set c₃ := select (CLK_CLKSEL0_HCLKSEL .HIRC) c₂ with hc₃
  have h₄ : OnHIRC (divide (CLK_CLKDIV0_HCLK x) c₃) := ⟨h₃.selected, h₃.on, h₃.cycles⟩
  have hdiv := divide_div hx hx' c₃
  set c₄ := divide (CLK_CLKDIV0_HCLK x) c₃ with hc₄
  -- on the new source
  have hsel : (select (CLK_CLKSEL0_HCLKSEL src) c₄).Selected src := select_selected _ _
  have hen : (select (CLK_CLKSEL0_HCLKSEL src) c₄).Enabled src :=
    Enabled.of_on (c := c) rfl (fun _ => On.enable _) hsrc
  have hfreq : (select (CLK_CLKSEL0_HCLKSEL src) c₄).freq src = c.freq src :=
    freq_congr rfl rfl (field_or_bit _ (by decide))
  have hhclk : (select (CLK_CLKSEL0_HCLKSEL src) c₄).hclk src = c.freq src / x := by
    rw [Regs.hclk, hfreq]
    exact congrArg (fun d : ℕ => c.freq src / d) hdiv
  set c₅ := select (CLK_CLKSEL0_HCLKSEL src) c₄ with hc₅
  have h₅ : Sound c₅ ↔ c.freq src / x ≤ 72000000 := by
    rw [sound_iff hsel]
    refine Iff.trans ⟨Runs.cycles, fun h => ⟨hsel, hen, h⟩⟩ ?_
    rw [hhclk]
    exact sufficient_four
  have h₆ (hle : c.freq src / x ≤ 72000000) :
      Runs (fitCycles c₅) src ↔ c.freq src / x ≠ 25000000 := by
    have hfit := fit_iff hsel hen (hhclk.symm ▸ hle)
    rw [← hhclk]
    exact Iff.trans ⟨Runs.cycles, fun h => ⟨hsel, hen, h⟩⟩ hfit
  have hend : Sound (fitCycles c₅) ↔ Runs (fitCycles c₅) src := sound_iff hsel
  constructor
  · constructor
    · rintro ⟨-, -, -, -, hs, hf, -⟩
      have hle := h₅.1 hs
      exact ⟨hle, (h₆ hle).1 (hend.1 hf)⟩
    · rintro ⟨hle, hne⟩
      exact ⟨⟨old, h₁⟩, ⟨old, h₂⟩, h₃.sound, h₄.sound, h₅.2 hle, hend.2 ((h₆ hle).2 hne), trivial⟩
  · rintro ⟨-, -, -, -, -, hf, -⟩
    exact hend.1 hf

/-- **`CLK_SetHCLK` is safe** if the stable flag of HIRC is set at first or the new source does not
need HIRC, and if the new frequency is one that there are access cycles for and is not 25 MHz. -/
theorem setHCLK_iff {stb : Bool} {x : ℕ} (hc : Sound c) (hsrc : c.Enabled src) (hx : 1 ≤ x)
    (hx' : x ≤ 16) :
    Safe c (CLK_SetHCLK stb (CLK_CLKSEL0_HCLKSEL src) (CLK_CLKDIV0_HCLK x)) src ↔
      (stb = true ∨ ¬ c.NeedsHIRC src) ∧ c.freq src / x ≤ 72000000 ∧
        c.freq src / x ≠ 25000000 := by
  obtain ⟨hiff, hruns⟩ := switchTo_spec hc hsrc hx hx'
  rw [setHCLK_eq, safe_append]
  constructor
  · rintro ⟨halong, hsafe⟩
    exact ⟨(safe_restore (hruns halong)).1 hsafe, hiff.1 halong⟩
  · rintro ⟨hrest, hf⟩
    exact ⟨hiff.2 hf, (safe_restore (hruns (hiff.2 hf))).2 hrest⟩

/-! ### The core clock -/

/-- What is written to the PLL is written while the core runs from HIRC. -/
theorem OnHIRC.along : ∀ {ws : List Write} {c : Regs}, (∀ w ∈ ws, ∀ c, OnHIRC c → OnHIRC (w c)) →
    OnHIRC c → RunsAlong c ws ∧ OnHIRC (run c ws)
  | [], _, _, hc => ⟨trivial, hc⟩
  | w :: ws, c, hws, hc => by
    have hw := hws w List.mem_cons_self c hc
    obtain ⟨halong, hend⟩ := OnHIRC.along (fun v hv => hws v (List.mem_cons_of_mem w hv)) hw
    exact ⟨⟨hw.sound, halong⟩, hend⟩

theorem freq_PLL {nr nf : ℕ} (hbp : ¬ c.PLLCTL &&& CLK_PLLCTL_BP_Msk = CLK_PLLCTL_BP_Msk)
    (hF : c.NF = nf) (hR : c.NR = nr) (hO : c.NO = 4) (hr : 1 ≤ nr) :
    (c.freq .PLL ≤ 72000000 ↔ nf ≤ 12 * nr) ∧ (c.freq .PLL = 25000000 ↔ 6 * nf = 25 * nr) := by
  have hpos : (0 : ℚ) < nr := Nat.cast_pos.2 hr
  have hfreq : c.freq .PLL = 6000000 * nf / nr := by
    rw [Regs.freq, if_neg hbp, pllSrcFreq_eq, hF, hR, hO]
    field_simp
    norm_num
    ring
  rw [hfreq, div_le_iff₀ hpos, div_eq_iff (ne_of_gt hpos)]
  constructor
  · rw [← Nat.cast_le (α := ℚ)]
    push_cast
    constructor <;> intro h <;> linarith
  · rw [← Nat.cast_inj (R := ℚ)]
    push_cast
    constructor <;> intro h <;> linarith

/-- The writes of `CLK_EnablePLL`: the oscillator, the dividers and the control register. -/
def pllWrites (m p s : BitVec 32) : List Write :=
  [ CLK_DisablePLL, enable m, fun c => { c with PLLCTL2 := p }, fun c => { c with PLLCTL := s } ]

theorem pllWrites_onHIRC (m p s : BitVec 32) (hc : OnHIRC c) :
    RunsAlong c (pllWrites m p s) ∧ OnHIRC (run c (pllWrites m p s)) := by
  refine OnHIRC.along (fun w hw c hc => ?_) hc
  simp only [pllWrites, List.mem_cons, List.not_mem_nil, or_false] at hw
  rcases hw with rfl | rfl | rfl | rfl
  · exact ⟨hc.selected, hc.on, hc.cycles⟩
  · exact ⟨hc.selected, On.enable m hc.on, hc.cycles⟩
  · exact ⟨hc.selected, hc.on, hc.cycles⟩
  · exact ⟨hc.selected, hc.on, hc.cycles⟩

/-- The dividers that `CLK_EnablePLL` writes: those of the search or, below 25 MHz, those for
72 MHz. -/
theorem enablePLL_writes {f : ℕ} (c : Regs) (s : BitVec 32) (hf : f ≤ FREQ_72MHZ) :
    ∃ nr nf, (2 ≤ nr ∧ nr ≤ 12) ∧ (12 ≤ nf ∧ nf ≤ 255) ∧ nf ≤ 12 * nr ∧
      (6 * nf = 25 * nr ↔ Rounds25 f) ∧
      (CLK_EnablePLL c s f).1 =
        if s = CLK_PLLCTL_PLLSRC_HXT then
          pllWrites CLK_PWRCTL_HXTEN_Msk (dividers 3 nr nf) CLK_PLLCTL_PLLSRC_HXT
        else pllWrites CLK_PWRCTL_HIRCEN_Msk (dividers 3 nr nf) CLK_PLLCTL_PLLSRC_HIRC := by
  by_cases hlo : FREQ_25MHZ ≤ f
  · have hout : outDiv f = (4, 3) := if_pos (Nat.le_trans hf (by decide))
    have hin : f ≤ FREQ_500MHZ ∧ f ≥ FREQ_25MHZ := ⟨Nat.le_trans hf (by decide), hlo⟩
    rcases hfound : nearest 12000000 4 f with ⟨off, nr, nf⟩
    obtain ⟨hr, hn, hle, heq⟩ := nearest_spec hlo hf hfound
    refine ⟨nr, nf, hr, hn, hle, heq, ?_⟩
    rw [CLK_EnablePLL]
    by_cases hs : s = CLK_PLLCTL_PLLSRC_HXT
    · simp only [if_pos hs, if_pos hin, hout, HXT_FREQ, hfound, pllWrites]
    · simp only [if_neg hs, if_pos hin, hout, HIRC_FREQ, hfound, pllWrites]
  · have hout : ¬ (f ≤ FREQ_500MHZ ∧ f ≥ FREQ_25MHZ) := fun h => hlo h.2
    refine ⟨3, 36, by decide, by decide, by decide, ?_, ?_⟩
    · rw [FREQ_25MHZ] at hlo
      rw [Rounds25]
      omega
    · have hp : CLK_PLLCTL_72MHz = dividers 3 3 36 := by decide
      rw [CLK_EnablePLL]
      by_cases hs : s = CLK_PLLCTL_PLLSRC_HXT
      · simp only [if_pos hs, if_neg hout, hp, pllWrites]
      · simp only [if_neg hs, if_neg hout, hp, pllWrites]

/-- Twice, as in a function that calls another: HIRC is off after the first, if it is. -/
theorem safe_restore_restore {stb stb' : Bool} (h : Runs c src) :
    Safe c (restore stb ++ restore stb') src ↔
      (stb = true ∨ ¬ c.NeedsHIRC src) ∧ (stb' = true ∨ ¬ c.NeedsHIRC src) := by
  rw [safe_append]
  constructor
  · rintro ⟨halong, hsafe⟩
    cases stb with
    | true => exact ⟨Or.inl rfl, (safe_restore h).1 hsafe⟩
    | false =>
      have hr : Runs c.withoutHIRC src := (sound_iff (c := c.withoutHIRC) h.selected).1 halong.1
      have hn := (withoutHIRC_enabled h.enabled).1 hr.enabled
      exact ⟨Or.inr hn, Or.inr hn⟩
  · rintro ⟨hs, hs'⟩
    obtain ⟨halong, hr⟩ := (safe_restore h).2 hs
    refine ⟨halong, (safe_restore hr).2 (hs'.imp_right fun hn => ?_)⟩
    cases stb with
    | true => exact hn
    | false => exact hn

/-- The end of `CLK_SetCoreClock`: the core goes from HIRC to the PLL that was set up. -/
theorem toPLL_iff {stb stb' : Bool} {f : ℕ} (hc : Sound c) (hen : c.Enabled .PLL)
    (hle : c.freq .PLL ≤ 72000000) (heq : c.freq .PLL = 25000000 ↔ Rounds25 f) :
    Safe c (CLK_SetHCLK stb (CLK_CLKSEL0_HCLKSEL .PLL) (CLK_CLKDIV0_HCLK 1) ++ restore stb') .PLL ↔
      ((stb = true ∨ ¬ c.PllOnHIRC) ∧ (stb' = true ∨ ¬ c.PllOnHIRC)) ∧ ¬ Rounds25 f := by
  obtain ⟨hiff, hruns⟩ := switchTo_spec hc hen (Nat.le_refl 1) (by decide)
  rw [Nat.cast_one, div_one, and_iff_right hle, Ne, heq] at hiff
  have hneeds : (run c (switchTo .PLL 1)).NeedsHIRC .PLL ↔ c.PllOnHIRC :=
    ⟨fun h => h.elim nofun And.right, fun h => Or.inr ⟨rfl, h⟩⟩
  rw [setHCLK_eq, List.append_assoc, safe_append, hiff]
  constructor
  · rintro ⟨hf, hsafe⟩
    rw [safe_restore_restore (hruns (hiff.2 hf)), hneeds] at hsafe
    exact ⟨hsafe, hf⟩
  · rintro ⟨hsafe, hf⟩
    rw [safe_restore_restore (hruns (hiff.2 hf)), hneeds]
    exact ⟨hf, hsafe⟩

/-- The first writes of `CLK_SetCoreClock`. -/
def toHIRC : List Write :=
  [ enable CLK_PWRCTL_HIRCEN_Msk,
    fun c => { c with CLKSEL0 := c.CLKSEL0 ||| CLK_CLKSEL0_HCLK0SEL_Msk },
    fun c => { c with CLKDIV0 := c.CLKDIV0 &&& ~~~CLK_CLKDIV0_HCLK0DIV_Msk } ]

theorem toHIRC_spec (hc : Sound c) : RunsAlong c toHIRC ∧ OnHIRC (run c toHIRC) := by
  obtain ⟨old, hold⟩ := hc
  have hcyc := hold.cycles.bounds
  have hsel : (run c toHIRC).Selected .HIRC := or_mask_and _ _
  have hon : (run c toHIRC).On CLK_PWRCTL_HIRCEN_Msk := enable_on c _
  have h : OnHIRC (run c toHIRC) := ⟨hsel, hon, hcyc.1, hcyc.2.1⟩
  have h' : OnHIRC (run c (toHIRC.take 2)) := ⟨hsel, hon, hcyc.1, hcyc.2.1⟩
  exact ⟨⟨⟨old, hold.enable (by decide)⟩, h'.sound, h.sound, trivial⟩, h⟩

/-- The PLL is set up while the core runs from HIRC, and then the core goes to the PLL. -/
theorem pll_iff {stb stb' : Bool} {g : ℕ} {s : BitVec 32} (hc : OnHIRC c) (hg : g ≤ FREQ_72MHZ)
    (hs : s = CLK_PLLCTL_PLLSRC_HXT ∨ s = CLK_PLLCTL_PLLSRC_HIRC) :
    Safe c ((CLK_EnablePLL c s g).1 ++
        (CLK_SetHCLK stb (CLK_CLKSEL0_HCLKSEL .PLL) (CLK_CLKDIV0_HCLK 1) ++ restore stb')) .PLL ↔
      ((stb = true ∨ s = CLK_PLLCTL_PLLSRC_HXT) ∧ (stb' = true ∨ s = CLK_PLLCTL_PLLSRC_HXT)) ∧
        ¬ Rounds25 g := by
  obtain ⟨nr, nf, hr, hn, hle, heq, hws⟩ := enablePLL_writes c s hg
  have hset : ∀ {m}, (m = if s = CLK_PLLCTL_PLLSRC_HXT then CLK_PWRCTL_HXTEN_Msk
        else CLK_PWRCTL_HIRCEN_Msk) →
      (CLK_EnablePLL c s g).1 = pllWrites m (dividers 3 nr nf) s := by
    rintro m rfl
    rw [hws]
    rcases hs with rfl | rfl
    · rfl
    · rfl
  rw [hset rfl, safe_append]
  obtain ⟨halong, h₂⟩ := pllWrites_onHIRC _ (dividers 3 nr nf) s hc
  rw [and_iff_right halong]
  generalize hm : (if s = CLK_PLLCTL_PLLSRC_HXT then CLK_PWRCTL_HXTEN_Msk
    else CLK_PWRCTL_HIRCEN_Msk) = m at h₂ ⊢
  have hon : (run c (pllWrites m (dividers 3 nr nf) s)).On m := enable_on _ m
  have hctl : (run c (pllWrites m (dividers 3 nr nf) s)).PLLCTL = s := rfl
  obtain ⟨hF, hR, hO⟩ := dividers_read (c := run c (pllWrites m (dividers 3 nr nf) s)) rfl
    (by omega) (by omega)
  generalize run c (pllWrites m (dividers 3 nr nf) s) = c₂ at h₂ hon hctl hF hR hO ⊢
  have hpll : c₂.PllOnHIRC ↔ ¬ s = CLK_PLLCTL_PLLSRC_HXT := by
    rw [Regs.PllOnHIRC, hctl]
    rcases hs with rfl | rfl <;> decide
  have hen : c₂.Enabled .PLL := by
    refine ⟨?_, ?_⟩
    · rw [hctl]
      rcases hs with rfl | rfl <;> decide
    · simp only [hpll, ite_not]
      exact hm ▸ hon
  have hbp : ¬ c₂.PLLCTL &&& CLK_PLLCTL_BP_Msk = CLK_PLLCTL_BP_Msk := by
    rw [hctl]
    rcases hs with rfl | rfl <;> decide
  obtain ⟨hfle, hfeq⟩ := freq_PLL hbp hF hR hO (by omega)
  rw [toPLL_iff h₂.sound hen (hfle.2 hle) (hfeq.trans heq), hpll, not_not]

/-- The source of the PLL that `CLK_SetCoreClock` chooses, and the flag that it looks at in the end. -/
theorem setCoreClock_writes {stb₀ stb₁ stb₂ stb : Bool} {f g : ℕ} {s : BitVec 32}
    (hs : (if (run c toHIRC).PWRCTL &&& CLK_PWRCTL_HXTEN_Msk = CLK_PWRCTL_HXTEN_Msk
      then (CLK_PLLCTL_PLLSRC_HXT, stb₀) else (CLK_PLLCTL_PLLSRC_HIRC, stb₁)) = (s, stb))
    (hg : (if f > FREQ_72MHZ then FREQ_72MHZ else f) = g) :
    (CLK_SetCoreClock c stb₀ stb₁ stb₂ f).1 =
      toHIRC ++ ((CLK_EnablePLL (run c toHIRC) s g).1 ++
        (CLK_SetHCLK stb₂ (CLK_CLKSEL0_HCLKSEL .PLL) (CLK_CLKDIV0_HCLK 1) ++ restore stb)) := by
  rw [toHIRC] at hs
  rw [toHIRC, restore]
  simp only [CLK_SetCoreClock, hs, hg, List.append_assoc]

/-- **`CLK_SetCoreClock` is safe** if HXT is enabled or the stable flag of HIRC is set when it is read,
and if the request is not rounded to 25 MHz. -/
theorem setCoreClock_iff {stb₀ stb₁ stb₂ : Bool} {f : ℕ} (hc : Sound c) :
    Safe c (CLK_SetCoreClock c stb₀ stb₁ stb₂ f).1 .PLL ↔
      (c.On CLK_PWRCTL_HXTEN_Msk ∨ stb₁ = true ∧ stb₂ = true) ∧ ¬ Rounds25 f := by
  obtain ⟨halong, h₁⟩ := toHIRC_spec hc
  have hhxt : (run c toHIRC).PWRCTL &&& CLK_PWRCTL_HXTEN_Msk = CLK_PWRCTL_HXTEN_Msk ↔
      c.On CLK_PWRCTL_HXTEN_Msk := by
    show (c.PWRCTL ||| CLK_PWRCTL_HIRCEN_Msk) &&& CLK_PWRCTL_HXTEN_Msk = _ ↔ _
    rw [or_mask_and_of_disjoint _ (by decide), Regs.On]
  -- the request, within the range
  have hmax : (if f > FREQ_72MHZ then FREQ_72MHZ else f) ≤ FREQ_72MHZ := by
    split <;> omega
  have hround : Rounds25 (if f > FREQ_72MHZ then FREQ_72MHZ else f) ↔ Rounds25 f := by
    rw [Rounds25, Rounds25, FREQ_72MHZ]
    split <;> omega
  have hne : CLK_PLLCTL_PLLSRC_HIRC ≠ CLK_PLLCTL_PLLSRC_HXT := by decide
  by_cases hx : c.On CLK_PWRCTL_HXTEN_Msk
  · rw [setCoreClock_writes (if_pos (hhxt.2 hx)) rfl, safe_append, and_iff_right halong,
      pll_iff h₁ hmax (Or.inl rfl), hround]
    simp only [hx, or_true, true_or, and_self, true_and]
  · rw [setCoreClock_writes (if_neg (mt hhxt.1 hx)) rfl, safe_append, and_iff_right halong,
      pll_iff h₁ hmax (Or.inr rfl), hround]
    simp only [hx, hne, or_false, false_or, and_comm]

/-- **The core keeps running while its clock is switched**, from every state in which it runs, with
every divider and every requested frequency: `CLK_SetHCLK` to every enabled source if HIRC is stable at
first or the source does not need it, and if the new frequency is at most 72 MHz and not 25 MHz;
`CLK_SetCoreClock` if HXT is enabled or HIRC is stable when that is read, and if the request is not one
that is rounded to 25 MHz. -/
theorem switching_safe (c : Regs) (hc : Sound c) :
    (∀ (stb : Bool) (src : HclkSrc) (x : ℕ), c.Enabled src → 1 ≤ x → x ≤ 16 →
      (Safe c (CLK_SetHCLK stb (CLK_CLKSEL0_HCLKSEL src) (CLK_CLKDIV0_HCLK x)) src ↔
        (stb = true ∨ ¬ c.NeedsHIRC src) ∧ c.freq src / x ≤ 72000000 ∧
          c.freq src / x ≠ 25000000)) ∧
      ∀ (stb₀ stb₁ stb₂ : Bool) (u32Hclk : ℕ),
        (Safe c (CLK_SetCoreClock c stb₀ stb₁ stb₂ u32Hclk).1 .PLL ↔
          (c.On CLK_PWRCTL_HXTEN_Msk ∨ stb₁ = true ∧ stb₂ = true) ∧
            ¬ (25000000 ≤ u32Hclk ∧ u32Hclk ≤ 25045453)) :=
  ⟨fun _ _ _ hsrc hx hx' => setHCLK_iff hc hsrc hx hx', fun _ _ _ _ => setCoreClock_iff hc⟩

/-- HCLK from HXT at 12 MHz, and HIRC just enabled. -/
def startingUp : Regs where
  PWRCTL := CLK_PWRCTL_HXTEN_Msk ||| CLK_PWRCTL_HIRCEN_Msk
  CLKSEL0 := 0
  CLKDIV0 := 0
  PLLCTL := CLK_PLLCTL_PD_Msk
  PLLCTL2 := 0
  CYCCTL := 2

theorem startingUp_runs : Runs startingUp .HXT := by
  refine ⟨by rw [Regs.Selected]; decide, by rw [Regs.Enabled, Regs.On]; decide, ?_⟩
  refine Sufficient.of_lt (by decide) ?_
  have hdiv : startingUp.div = 1 := by decide
  rw [Regs.hclk, hdiv, Regs.freq, HXT_FREQ]
  norm_num

theorem switching_safe_startingUp :
    Sound startingUp ∧
      (Safe startingUp (CLK_SetHCLK true (CLK_CLKSEL0_HCLKSEL .HIRC) (CLK_CLKDIV0_HCLK 1)) .HIRC ↔
        (true = true ∨ ¬ startingUp.NeedsHIRC .HIRC) ∧
          startingUp.freq .HIRC / (1 : ℕ) ≤ 72000000 ∧ startingUp.freq .HIRC / (1 : ℕ) ≠ 25000000) :=
  ⟨⟨.HXT, startingUp_runs⟩,
    (switching_safe startingUp ⟨.HXT, startingUp_runs⟩).1 true .HIRC 1
      (by rw [Regs.Enabled, Regs.On]; decide) (by decide) (by decide)⟩

/-- **The core stops**: `CLK_SetHCLK` to HIRC, which is enabled but not stable yet, switches HIRC off
when it has switched to it. -/
theorem switching_stops :
    ¬ ∀ (c : Regs) (stb : Bool) (src : HclkSrc) (x : ℕ), Sound c → c.Enabled src → 1 ≤ x → x ≤ 16 →
      Safe c (CLK_SetHCLK stb (CLK_CLKSEL0_HCLKSEL src) (CLK_CLKDIV0_HCLK x)) src := by
  intro h
  have hsafe := h startingUp false .HIRC 1 ⟨.HXT, startingUp_runs⟩
    (by rw [Regs.Enabled, Regs.On]; decide) (by decide) (by decide)
  -- HIRC is off in the end
  have hon := hsafe.2.enabled
  rw [Regs.Enabled, Regs.On] at hon
  exact absurd hon (by decide)

end Clk
