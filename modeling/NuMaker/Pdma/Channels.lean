/-
Which channels `nu_pdma_channel_allocate` hands out.

One mask of 16 bits per module serves two modules of different size: PDMA0 has
16 channels, LPPDMA 4.  When the module of a request is used up, the loop goes on
to the next module, and it never looks at how many channels a module has.

* `Channels.trace_fresh` — an id that is in use is never returned again;
* `Channels.trace_right_iff` — all requests of a run are answered with a channel
  that exists, in the module asked for, or refused, exactly when each of them is
  unsupported, or finds a channel of its own free, or finds nothing at all.
-/
import NuMaker.Pdma.Run

namespace Pdma

open NuUtils

/-- How many channels a module has. -/
def modChannels : ℕ → ℕ
  | 0 => PDMA_CH_MAX
  | 1 => LPPDMA_CH_MAX
  | _ => 0

/-- A call of `nu_pdma_channel_allocate` or `nu_pdma_channel_free`. -/
inductive ChnOp
  | allocate (i32PeripType : ℕ)
  | free (id : ℕ)

/-- The driver, and the ids returned and not yet freed. -/
structure Channels where
  drv : State
  live : List ℕ

/-- A request: the ids in use when it was made, and its answer. -/
structure Request where
  live : List ℕ
  i32PeripType : ℕ
  ret : Option ℕ
  deriving DecidableEq, Repr

/-- The requests of a sequence of calls; it ends where an assertion fails. -/
def Channels.trace : Channels → List ChnOp → List Request
  | _, [] => []
  | c, .allocate p :: ops =>
    let r := nu_pdma_channel_allocate c.drv p
    ⟨c.live, p, r.1⟩ :: trace ⟨r.2, r.1.toList ++ c.live⟩ ops
  | c, .free id :: ops =>
    match nu_pdma_channel_free c.drv id with
    | none => []
    | some (ret, s) => trace ⟨s, if ret = RT_EOK then c.live.erase id else c.live⟩ ops

/-- Before the first call. -/
def Channels.start (hclk : ℕ) : Channels := ⟨.raw hclk, []⟩

/-- The id returned is not in use. -/
def Request.Fresh (e : Request) : Prop := ∀ id, e.ret = some id → id ∉ e.live

/-- The request got a channel that exists, of the module asked for; it was refused
if that module had none free. -/
structure Request.Right (e : Request) : Prop where
  exists_ : ∀ id, e.ret = some id → chnIdx id < modChannels (modIdx id)
  module : ∀ id, e.ret = some id → modIdx id = modIdx e.i32PeripType
  refused : (∀ k < modChannels (modIdx e.i32PeripType), chId (modIdx e.i32PeripType) k ∈ e.live) →
    e.ret = none

/-- The request is unsupported, or its module has a channel free, or every bit of
its module and of those after it is in use. -/
def Request.Room (e : Request) : Prop :=
  nu_pdma_peripheral_query e.i32PeripType = none ∨
    (∃ k < modChannels (modIdx e.i32PeripType), chId (modIdx e.i32PeripType) k ∉ e.live) ∨
    ∀ m, modIdx e.i32PeripType ≤ m → m < PDMA_CNT → ∀ k < PDMA_CH_MAX, chId m k ∈ e.live

/-! ### Ids -/

theorem modIdx_chId (m : ℕ) {k : ℕ} (hk : k < PDMA_CH_MAX) : modIdx (chId m k) = m := by
  rw [PDMA_CH_MAX] at hk
  rw [modIdx, chId]
  omega

theorem chnIdx_chId (m : ℕ) {k : ℕ} (hk : k < PDMA_CH_MAX) : chnIdx (chId m k) = k := by
  rw [PDMA_CH_MAX] at hk
  rw [chnIdx, chId]
  omega

theorem modChannels_le (m : ℕ) : modChannels m ≤ PDMA_CH_MAX := by
  match m with
  | 0 => exact le_refl _
  | 1 => decide
  | m + 2 => exact Nat.zero_le _

/-! ### The mask says which ids are in use -/

/-- The bits of the masks are the ids in use. -/
structure Channels.Inv (c : Channels) : Prop where
  bits : c.drv.nu_pdma_inited = true → ∀ m < PDMA_CNT, ∀ k < PDMA_CH_MAX,
    (c.drv.nu_pdma_chn_mask_arr m).getLsbD k = decide (chId m k ∈ c.live)
  empty : c.drv.nu_pdma_inited = false → c.live = []
  nodup : c.live.Nodup

theorem Channels.start_inv (hclk : ℕ) : (Channels.start hclk).Inv :=
  ⟨fun h => Bool.noConfusion h, fun _ => rfl, List.nodup_nil⟩

theorem nu_pdma_init_inited (s : State) : (nu_pdma_init s).nu_pdma_inited = true := by
  rw [nu_pdma_init]
  split
  · assumption
  · rfl

/-- Allocation initialises the driver first. -/
theorem nu_pdma_channel_allocate_init (s : State) (p : ℕ) :
    nu_pdma_channel_allocate s p = nu_pdma_channel_allocate (nu_pdma_init s) p := by
  rw [nu_pdma_channel_allocate, nu_pdma_channel_allocate,
    nu_pdma_init_of_inited (nu_pdma_init_inited s)]

theorem Channels.Inv.init {c : Channels} (h : c.Inv) : Channels.Inv ⟨nu_pdma_init c.drv, c.live⟩ := by
  cases hi : c.drv.nu_pdma_inited with
  | true => rwa [nu_pdma_init_of_inited hi]
  | false =>
    refine ⟨fun _ m hm k hk => ?_, fun h0 => ?_, h.nodup⟩
    · have hmask : (nu_pdma_init c.drv).nu_pdma_chn_mask_arr m = 0xFFFF0000 := by
        rw [nu_pdma_init, if_neg (by simp [hi])]
        exact if_pos hm
      have hlow : ∀ j < PDMA_CH_MAX, (0xFFFF0000 : BitVec 32).getLsbD j = false := by decide
      show ((nu_pdma_init c.drv).nu_pdma_chn_mask_arr m).getLsbD k = decide (chId m k ∈ c.live)
      rw [hmask, hlow k hk, h.empty hi]
      simp
    · rw [nu_pdma_init_inited] at h0
      exact absurd h0 (by decide)

section Request

variable {c : Channels} (h : c.Inv) (hi : c.drv.nu_pdma_inited = true)

include h hi

/-- A module is full when every one of its 16 bits is in use. -/
theorem Channels.Inv.full_iff {m : ℕ} (hm : m < PDMA_CNT) :
    PDMA_CH_MAX ≤ nu_cto (c.drv.nu_pdma_chn_mask_arr m) ↔ ∀ k < PDMA_CH_MAX, chId m k ∈ c.live := by
  constructor
  · intro hle k hk
    by_contra hfree
    have hbit := h.bits hi m hm k hk
    rw [decide_eq_false hfree] at hbit
    have := nu_cto_le_of_clear (lt_of_lt_of_le hk (by decide)) hbit
    omega
  · intro hall
    by_contra hlt
    rw [Nat.not_le] at hlt
    have hclear := (nu_cto_spec (lt_of_lt_of_le hlt (by decide))).1
    rw [h.bits hi m hm _ hlt, decide_eq_true (hall _ hlt)] at hclear
    exact absurd hclear (by decide)

/-- The first clear bit is the first channel free. -/
theorem Channels.Inv.first_free {m : ℕ} (hm : m < PDMA_CNT)
    (hlt : nu_cto (c.drv.nu_pdma_chn_mask_arr m) < PDMA_CH_MAX) :
    chId m (nu_cto (c.drv.nu_pdma_chn_mask_arr m)) ∉ c.live ∧
      ∀ k < nu_cto (c.drv.nu_pdma_chn_mask_arr m), chId m k ∈ c.live := by
  obtain ⟨hclear, hset⟩ := nu_cto_spec (lt_of_lt_of_le hlt (by decide))
  constructor
  · rw [h.bits hi m hm _ hlt] at hclear
    exact of_decide_eq_false hclear
  · intro k hk
    have hbit := hset k hk
    rw [h.bits hi m hm k (lt_trans hk hlt)] at hbit
    exact of_decide_eq_true hbit

/-- The answer to a request is fresh, and right exactly when there is room. -/
theorem Channels.Inv.request {p : ℕ} {r : Option ℕ} {core : Core}
    (hr : AllocateDone c.drv.core p r core) :
    Request.Fresh ⟨c.live, p, r⟩ ∧ (Request.Right ⟨c.live, p, r⟩ ↔ Request.Room ⟨c.live, p, r⟩) := by
  cases hr with
  | refused hno =>
    refine ⟨fun id hid => absurd hid (by simp), fun _ => ?_, fun _ => ?_⟩
    · rcases hno with hp | hq | hfull
      · exact Or.inr (Or.inr fun m h1 h2 =>
          absurd (lt_of_le_of_lt h1 h2) (Nat.not_lt.mpr hp))
      · exact Or.inl hq
      · refine Or.inr (Or.inr fun m h1 h2 => ?_)
        exact (h.full_iff hi h2).mp (hfull m h1 h2)
    · exact ⟨fun id hid => absurd hid (by simp), fun id hid => absurd hid (by simp), fun _ => rfl⟩
  | @granted m chn ctl hp hm hq hc hlt hfull =>
    have hc' : chn = nu_cto (c.drv.nu_pdma_chn_mask_arr m) := hc
    subst hc'
    obtain ⟨hfree, hused⟩ := h.first_free hi hm hlt
    refine ⟨fun id hid => ?_, fun hright => ?_, fun hroom => ?_⟩
    · obtain rfl := Option.some.inj hid
      exact hfree
    · -- the channel returned is the room there was
      have hmod : modIdx _ = modIdx p := hright.module _ rfl
      have hex := hright.exists_ _ rfl
      rw [modIdx_chId m hlt] at hmod hex
      rw [chnIdx_chId m hlt] at hex
      subst hmod
      exact Or.inr (Or.inl ⟨_, hex, hfree⟩)
    · rcases hroom with h0 | ⟨k, hk, hkfree⟩ | hall
      · exact absurd h0 hq
      · -- a free channel of the module itself stops the loop there
        have hk16 : k < PDMA_CH_MAX := lt_of_lt_of_le hk (modChannels_le _)
        have hmp : m = modIdx p := by
          by_contra hne
          have hlt' : modIdx p < m := by omega
          have := (h.full_iff hi (lt_trans hlt' hm)).mp (hfull _ (le_refl _) hlt')
          exact hkfree (this k hk16)
        subst hmp
        have hle : nu_cto (c.drv.nu_pdma_chn_mask_arr (modIdx p)) ≤ k := by
          by_contra hgt
          exact hkfree (hused k (by omega))
        refine ⟨fun id hid => ?_, fun id hid => ?_, fun hall => absurd (hall k hk) hkfree⟩
        · obtain rfl := Option.some.inj hid
          rw [modIdx_chId _ hlt, chnIdx_chId _ hlt]
          exact lt_of_le_of_lt hle hk
        · obtain rfl := Option.some.inj hid
          exact modIdx_chId _ hlt
      · exact absurd (hall m hp hm _ hlt) hfree

/-- A granted id joins the ids in use. -/
theorem Channels.Inv.allocate {p : ℕ} {r : Option ℕ} {s : State}
    (hr : AllocateDone c.drv.core p r s.core) : Channels.Inv ⟨s, r.toList ++ c.live⟩ := by
  generalize hcore : s.core = core at hr
  cases hr with
  | refused hno =>
    have hmask : s.nu_pdma_chn_mask_arr = c.drv.nu_pdma_chn_mask_arr := congrArg Core.mask hcore
    refine ⟨fun _ m hm k hk => ?_, fun h0 => ?_, h.nodup⟩
    · show (s.nu_pdma_chn_mask_arr m).getLsbD k = _
      rw [hmask]
      exact h.bits hi m hm k hk
    · have : s.nu_pdma_inited = c.drv.nu_pdma_inited := congrArg Core.inited hcore
      rw [this, hi] at h0
      exact absurd h0 (by decide)
  | @granted m chn ctl hp hm hq hc hlt hfull =>
    have hc' : chn = nu_cto (c.drv.nu_pdma_chn_mask_arr m) := hc
    subst hc'
    have hmask : s.nu_pdma_chn_mask_arr = Function.update c.drv.nu_pdma_chn_mask_arr m
        (c.drv.nu_pdma_chn_mask_arr m ||| bit (nu_cto (c.drv.nu_pdma_chn_mask_arr m))) :=
      congrArg Core.mask hcore
    refine ⟨fun _ m' hm' k hk => ?_, fun h0 => ?_, ?_⟩
    · have hold := h.bits hi m' hm' k hk
      have hid : chId m' k = chId m (nu_cto (c.drv.nu_pdma_chn_mask_arr m)) ↔
          m' = m ∧ k = nu_cto (c.drv.nu_pdma_chn_mask_arr m) := by
        rw [PDMA_CH_MAX] at hk hlt
        rw [chId, chId]
        omega
      show (s.nu_pdma_chn_mask_arr m').getLsbD k = _
      rw [hmask]
      by_cases hmm : m' = m
      · subst hmm
        rw [Function.update_self, getLsbD_set_bit, hold]
        have h32 : k < 32 := lt_of_lt_of_le hk (by decide)
        by_cases hkk : k = nu_cto (c.drv.nu_pdma_chn_mask_arr m')
        · simp [hid.mpr ⟨rfl, hkk⟩, ← hkk, h32]
        · have hne : ¬ chId m' k = chId m' (nu_cto (c.drv.nu_pdma_chn_mask_arr m')) :=
            fun he => hkk (hid.mp he).2
          simp [hne, hkk]
      · rw [Function.update_of_ne hmm, hold]
        have hne : ¬ chId m' k = chId m (nu_cto (c.drv.nu_pdma_chn_mask_arr m)) :=
          fun he => hmm (hid.mp he).1
        simp [hne]
    · have : s.nu_pdma_inited = c.drv.nu_pdma_inited := congrArg Core.inited hcore
      rw [this, hi] at h0
      exact absurd h0 (by decide)
    · exact List.nodup_cons.mpr ⟨(h.first_free hi hm hlt).1, h.nodup⟩

end Request

/-- A freed id leaves the ids in use. -/
theorem Channels.Inv.free {c : Channels} (h : c.Inv) {id : ℕ} {ret : ℤ} {s : State}
    (hr : nu_pdma_channel_free c.drv id = some (ret, s)) :
    Channels.Inv ⟨s, if ret = RT_EOK then c.live.erase id else c.live⟩ := by
  rcases nu_pdma_channel_free_cases hr with ⟨rfl, rfl⟩ | ⟨rfl, hi, hn, hcore⟩
  · exact h
  · rw [if_pos rfl]
    have hmask : s.nu_pdma_chn_mask_arr = Function.update c.drv.nu_pdma_chn_mask_arr (modIdx id)
        (c.drv.nu_pdma_chn_mask_arr (modIdx id) &&& ~~~bit (chnIdx id)) := congrArg Core.mask hcore
    refine ⟨fun _ m hm k hk => ?_, fun h0 => ?_, h.nodup.erase id⟩
    · have hold := h.bits hi m hm k hk
      have hid : chId m k = id ↔ m = modIdx id ∧ k = chnIdx id := by
        rw [PDMA_CH_MAX] at hk
        rw [chId, modIdx, chnIdx]
        omega
      show (s.nu_pdma_chn_mask_arr m).getLsbD k = decide (chId m k ∈ c.live.erase id)
      rw [hmask]
      simp only [h.nodup.mem_erase_iff]
      by_cases hmm : m = modIdx id
      · subst hmm
        rw [Function.update_self, getLsbD_clear_bit, hold]
        by_cases hkk : k = chnIdx id
        · rw [hid.mpr ⟨rfl, hkk⟩]
          simp [hkk]
        · have hne : ¬ chId (modIdx id) k = id := fun he => hkk (hid.mp he).2
          simp [hne, hkk]
      · rw [Function.update_of_ne hmm, hold]
        have hne : ¬ chId m k = id := fun he => hmm (hid.mp he).1
        simp [hne]
    · have : s.nu_pdma_inited = c.drv.nu_pdma_inited := congrArg Core.inited hcore
      rw [this, hi] at h0
      exact absurd h0 (by decide)

/-! ### Runs -/

/-- **Run lemma**: the answers of a run are fresh, and right exactly when there is
room. -/
theorem Channels.Inv.trace (ops : List ChnOp) : ∀ {c : Channels}, c.Inv → ∀ e ∈ c.trace ops,
    e.Fresh ∧ (e.Right ↔ e.Room) := by
  induction ops with
  | nil => exact fun _ e he => absurd he (by simp [Channels.trace])
  | cons op ops ih =>
    intro c h e he
    cases op with
    | allocate p =>
      have hr := nu_pdma_channel_allocate_done (nu_pdma_init_inited c.drv) p
      rw [← nu_pdma_channel_allocate_init] at hr
      rcases List.mem_cons.mp he with rfl | he
      · exact h.init.request (nu_pdma_init_inited c.drv) hr
      · exact ih (h.init.allocate (nu_pdma_init_inited c.drv) hr) e he
    | free id =>
      rw [Channels.trace] at he
      cases hf : nu_pdma_channel_free c.drv id with
      | none =>
        rw [hf] at he
        exact absurd he (by simp)
      | some r =>
        rw [hf] at he
        exact ih (h.free hf) e he

/-- **Which runs allocate channels right**: in every sequence of calls no id in use
is returned, and all answers are right exactly when each request finds room. -/
theorem Channels.trace_right_iff (hclk : ℕ) (ops : List ChnOp) :
    (∀ e ∈ (Channels.start hclk).trace ops, e.Fresh) ∧
      ((∀ e ∈ (Channels.start hclk).trace ops, e.Right) ↔
        ∀ e ∈ (Channels.start hclk).trace ops, e.Room) := by
  have hrun := (Channels.start_inv hclk).trace ops
  refine ⟨fun e he => (hrun e he).1, fun hall e he => ?_, fun hall e he => ?_⟩
  · exact (hrun e he).2.mp (hall e he)
  · exact (hrun e he).2.mpr (hall e he)

/-- The fifth request for LPPDMA gets a channel LPPDMA does not have. -/
theorem Channels.trace_fifth_lppdma :
    ¬ ∀ (hclk : ℕ) (ops : List ChnOp), ∀ e ∈ (Channels.start hclk).trace ops, e.Right := by
  intro hall
  have he : (⟨[0x10003, 0x10002, 0x10001, 0x10000], 0x10000, some 0x10004⟩ : Request) ∈
      (Channels.start 0).trace (List.replicate 5 (.allocate 0x10000)) := by
    decide
  have := (hall 0 _ _ he).exists_ _ rfl
  exact absurd this (by decide)

end Pdma
