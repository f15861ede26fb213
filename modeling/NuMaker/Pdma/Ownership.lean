/-
Conservation of the descriptor tokens.

A token is owned by the chain of a channel in use or by an array of a caller.
The owners and the free bits share the pool out as long as no channel is freed
while it keeps a chain, and no chain is given up with an array whose words were
never assigned; `nu_pdma_channel_free` forgets the chain, and
`_nu_pdma_transfer_chain` releases all words of the array when it did not get
enough tokens.

* `World.step_conserved` — what one call does to the shares;
* `World.tokens_conserved` — in every run that avoids the two, every token is free
  or has one owner, and all are free when all channels and arrays are.
-/
import NuMaker.Lib.Ledger
import NuMaker.Pdma.Channels

namespace Pdma

open NuUtils

/-- All tokens: module and index. -/
def pool : Set (ℕ × ℕ) := {x | x.1 < PDMA_CNT ∧ x.2 < NU_PDMA_SGTBL_POOL_SIZE}

/-- The tokens whose bit is set. -/
def freeSet (token : ℕ → BitVec 32) : Set (ℕ × ℕ) :=
  {x | x.1 < PDMA_CNT ∧ (token x.1).getLsbD x.2 = true}

/-- The tokens of module `m` in an array. -/
def tokensOf (m : ℕ) (l : List nu_pdma_desc_t) : List (ℕ × ℕ) :=
  l.filterMap fun p => p.map fun i => (m, i.toNat)

/-- The tokens of each owner: the record of a channel, if it is in use, or a
caller's array. -/
def owns (c : Core) (arrays : ℕ → Option (ℕ × List nu_pdma_desc_t)) : ℕ ⊕ ℕ → List (ℕ × ℕ)
  | .inl k =>
    if (c.mask (k / PDMA_CH_MAX)).getLsbD (k % PDMA_CH_MAX) then tokensOf (k / PDMA_CH_MAX) (c.own k)
    else []
  | .inr name => (arrays name).elim [] fun a => tokensOf (modIdx a.1) a.2

/-- Every token is free or has exactly one owner. -/
def World.Conserved (σ : World) : Prop :=
  Ledger pool (freeSet σ.drv.core.token) (owns σ.drv.core σ.arrays)

/-- The call frees no channel that has a chain, and allocates no array for a chain
with a word, past the entry that gets no token, that points at a token in use. -/
def World.KeepsTokens (σ : World) : Op → Prop
  | .channel_free id =>
    nu_pdma_check_is_nonallocated σ.drv id = true ∨ (σ.drv.core.chain (arrayIdx id)).1 = none
  | .transfer id _ _ _ n _ malloc =>
    65536 < n → (σ.drv.core.chain (arrayIdx id)).2 ≠ n / 65536 + 1 → ∀ words, malloc = some words →
      ∀ i : ℕ, some (i : ℤ) ∈ ((List.range (n / 65536 + 1)).map words).drop
        ((σ.drv.core.avail id).card + 1) → i ∈ σ.drv.core.avail id
  | _ => True

/-! ### Tokens of an array -/

theorem mem_tokensOf {m : ℕ} {l : List nu_pdma_desc_t} (h : InPool l) {x : ℕ × ℕ} :
    x ∈ tokensOf m l ↔ x.1 = m ∧ some (x.2 : ℤ) ∈ l := by
  rw [tokensOf, List.mem_filterMap]
  constructor
  · rintro ⟨p, hp, hx⟩
    obtain ⟨i, rfl, rfl⟩ := Option.map_eq_some_iff.mp hx
    have := (h i hp).1
    exact ⟨rfl, by rwa [Int.toNat_of_nonneg this]⟩
  · rintro ⟨rfl, hx⟩
    exact ⟨_, hx, by simp⟩

theorem tokensOf_entries (m : ℕ) (l : List ℕ) : tokensOf m (entries l) = l.map fun i => (m, i) := by
  rw [tokensOf, entries, List.filterMap_map]
  induction l with
  | nil => rfl
  | cons a l ih => simp

theorem nodup_tokensOf_entries {m : ℕ} {l : List ℕ} (h : l.Pairwise (· < ·)) :
    (tokensOf m (entries l)).Nodup := by
  rw [tokensOf_entries]
  have hn : l.Nodup := h.imp fun hlt => Nat.ne_of_lt hlt
  exact hn.map fun a b hab => congrArg Prod.snd hab

/-! ### The free tokens -/

/-- Giving entries back frees their tokens. -/
theorem freeSet_give {token : ℕ → BitVec 32} {m : ℕ} {t0 t : BitVec 32} {l : List nu_pdma_desc_t}
    (hm : m < PDMA_CNT) (hl : InPool l)
    (h : ∀ i, t.getLsbD i = (t0.getLsbD i || decide (some (i : ℤ) ∈ l))) :
    freeSet (Function.update token m t) =
      freeSet (Function.update token m t0) ∪ {x | x ∈ tokensOf m l} := by
  ext x
  rw [Set.mem_union, Set.mem_ofPred_eq, mem_tokensOf hl, freeSet, freeSet, Set.mem_ofPred_eq,
    Set.mem_ofPred_eq]
  by_cases hx : x.1 = m
  · rw [hx, Function.update_self, Function.update_self, h]
    simp [hm]
  · rw [Function.update_of_ne hx, Function.update_of_ne hx]
    simp [hx]

/-- Taking tokens makes them not free. -/
theorem freeSet_take {token : ℕ → BitVec 32} {m n : ℕ} {t0 t : BitVec 32} {l : List ℕ}
    (h : Taken n t0 true t l) :
    freeSet (Function.update token m t) =
      freeSet (Function.update token m t0) \ {x | x ∈ tokensOf m (entries l)} := by
  ext x
  rw [tokensOf_entries, Set.mem_sdiff, Set.mem_ofPred_eq, freeSet, freeSet, Set.mem_ofPred_eq,
    Set.mem_ofPred_eq]
  have hx' : x ∈ l.map (fun i => (m, i)) ↔ x.1 = m ∧ x.2 ∈ l := by
    constructor
    · intro hx
      obtain ⟨i, hi, rfl⟩ := List.mem_map.mp hx
      exact ⟨rfl, hi⟩
    · rintro ⟨rfl, hx⟩
      exact List.mem_map.mpr ⟨x.2, hx, rfl⟩
  rw [hx']
  by_cases hx : x.1 = m
  · rw [hx, Function.update_self, Function.update_self, h.rest]
    simp [and_assoc]
  · rw [Function.update_of_ne hx, Function.update_of_ne hx]
    simp [hx]

/-! ### The owners -/

section Owners

variable {c : Core} {arrays : ℕ → Option (ℕ × List nu_pdma_desc_t)}

theorem own_update {k : ℕ} {token : ℕ → BitVec 32} {v : Option (List nu_pdma_desc_t) × ℕ} :
    Core.own { c with token := token, chain := Function.update c.chain k v } =
      Function.update c.own k (v.1.getD []) := by
  funext j
  by_cases hj : j = k
  · subst hj
    simp [Core.own]
  · simp [Core.own, hj]

/-- A new chain changes what one channel owns. -/
theorem owns_chain {id : ℕ} (hid : IsChn id) (hn : (c.mask (modIdx id)).getLsbD (chnIdx id) = true)
    {token : ℕ → BitVec 32} {v : Option (List nu_pdma_desc_t) × ℕ} :
    owns { c with token := token, chain := Function.update c.chain (arrayIdx id) v } arrays =
      Function.update (owns c arrays) (.inl (arrayIdx id)) (tokensOf (modIdx id) (v.1.getD [])) := by
  obtain ⟨-, hc⟩ := hid
  have hdiv : arrayIdx id / PDMA_CH_MAX = modIdx id := by
    rw [PDMA_CH_MAX] at hc
    rw [arrayIdx, PDMA_CH_MAX]
    omega
  have hmod : arrayIdx id % PDMA_CH_MAX = chnIdx id := by
    rw [PDMA_CH_MAX] at hc
    rw [arrayIdx, PDMA_CH_MAX]
    omega
  funext o
  cases o with
  | inr name => rfl
  | inl k =>
    simp only [owns, own_update]
    by_cases hk : k = arrayIdx id
    · subst hk
      rw [Function.update_self, Function.update_self, hdiv, hmod, if_pos hn]
    · rw [Function.update_of_ne hk, Function.update_of_ne fun h => hk (Sum.inl.inj h)]
      rfl

theorem owns_array {name : ℕ} {a : Option (ℕ × List nu_pdma_desc_t)} {token : ℕ → BitVec 32} :
    owns { c with token := token } (Function.update arrays name a) =
      Function.update (owns c arrays) (.inr name) (a.elim [] fun a => tokensOf (modIdx a.1) a.2) := by
  funext o
  cases o with
  | inl k =>
    rw [Function.update_of_ne (by simp)]
    rfl
  | inr name' =>
    simp only [owns]
    by_cases hn : name' = name
    · subst hn
      rw [Function.update_self, Function.update_self]
    · rw [Function.update_of_ne hn, Function.update_of_ne fun h => hn (Sum.inr.inj h)]
      rfl

/-- A change that concerns one channel, which owns nothing before and after. -/
theorem owns_idle {c' : Core} (k₀ : ℕ) (hk₀ : c'.own k₀ = [])
    (h₀ : c.own k₀ = [] ∨ (c.mask (k₀ / PDMA_CH_MAX)).getLsbD (k₀ % PDMA_CH_MAX) = false)
    (h : ∀ k, k ≠ k₀ → c'.own k = c.own k ∧
      (c'.mask (k / PDMA_CH_MAX)).getLsbD (k % PDMA_CH_MAX) =
        (c.mask (k / PDMA_CH_MAX)).getLsbD (k % PDMA_CH_MAX)) : owns c' arrays = owns c arrays := by
  funext o
  cases o with
  | inr name => rfl
  | inl k =>
    simp only [owns]
    by_cases hk : k = k₀
    · subst hk
      rcases h₀ with h₀ | h₀
      · simp [hk₀, h₀, tokensOf]
      · simp [hk₀, h₀, tokensOf]
    · rw [(h k hk).1, (h k hk).2]

end Owners

/-! ### One call -/

/-- A transfer on a channel that is not in use does nothing. -/
theorem nu_pdma_transfer_nonallocated {s s' : State} {id w n t : ℕ} {src dst : BitVec 32}
    {malloc : Option (ℕ → nu_pdma_desc_t)} {ret : ℤ} (hid : IsChn id)
    (hn : nu_pdma_check_is_nonallocated s id = true)
    (h : nu_pdma_transfer s id w src dst n t malloc = some (ret, s')) : s' = s := by
  rw [nu_pdma_transfer, if_pos hid.1, if_pos hn] at h
  obtain ⟨-, rfl⟩ := Prod.mk.injEq .. ▸ Option.some.inj h
  rfl

/-- The tokens a chain can be built of are those free once the old one is given back. -/
theorem Core.Given.avail {c : Core} {id : ℕ} {t : BitVec 32}
    (h : c.Given (modIdx id) (c.own (arrayIdx id)) t) : c.avail id = tokenSet t := by
  ext i
  rw [mem_tokenSet, h i, Core.avail, Finset.mem_filter, Finset.mem_range, and_iff_right_iff_imp,
    ← h i]
  exact fun hi => BitVec.lt_of_getLsbD hi

section Transfer

variable {c : Core} {arrays : ℕ → Option (ℕ × List nu_pdma_desc_t)} {id : ℕ}

/-- A channel in use gives its chain back. -/
theorem conserved_release (hok : c.Ok) (hid : IsChn id)
    (hn : (c.mask (modIdx id)).getLsbD (chnIdx id) = true)
    (h : Ledger pool (freeSet c.token) (owns c arrays)) {t0 : BitVec 32}
    (h0 : c.Given (modIdx id) (c.own (arrayIdx id)) t0) :
    Ledger pool (freeSet (Function.update c.token (modIdx id) t0))
      (Function.update (owns c arrays) (.inl (arrayIdx id)) []) := by
  have howns : owns c arrays (.inl (arrayIdx id)) =
      tokensOf (modIdx id) (c.own (arrayIdx id)) := by
    have hself := @owns_chain c arrays id hid hn c.token (c.chain (arrayIdx id))
    rw [Function.update_eq_self] at hself
    calc owns c arrays (.inl (arrayIdx id))
        = owns { c with token := c.token, chain := c.chain } arrays (.inl (arrayIdx id)) := rfl
      _ = _ := by rw [hself, Function.update_self]; rfl
  have hgive := h.give (.inl (arrayIdx id))
  rwa [howns, ← Function.update_eq_self (modIdx id) c.token,
    ← freeSet_give hid.1 (hok.own_inPool _) h0] at hgive

theorem TransferDone.conserved {c' : Core} {n : ℕ} {malloc : Option (ℕ → nu_pdma_desc_t)} {ret : ℤ}
    (hok : c.Ok) (hid : IsChn id) (hn : (c.mask (modIdx id)).getLsbD (chnIdx id) = true)
    (hkeep : 65536 < n → (c.chain (arrayIdx id)).2 ≠ n / 65536 + 1 → ∀ words, malloc = some words →
      ∀ i : ℕ, some (i : ℤ) ∈ ((List.range (n / 65536 + 1)).map words).drop ((c.avail id).card + 1) →
        i ∈ c.avail id)
    (hd : TransferDone c id n malloc ret c') (h : Ledger pool (freeSet c.token) (owns c arrays)) :
    Ledger pool (freeSet c'.token) (owns c' arrays) := by
  cases hd with
  | same => exact h
  | @gone t t0 w junk hret h0 ht hj hjunk =>
    -- what the array happened to hold is free already
    have htt : t = t0 := by
      refine BitVec.eq_of_getLsbD_eq fun i _ => ?_
      rw [ht i]
      by_cases hi : some (i : ℤ) ∈ junk
      · rcases hjunk with rfl | ⟨h1, h2, words, h3, -, rfl⟩
        · exact absurd hi (by simp)
        · rw [← h0.avail] at hi
          have := hkeep h1 h2 words h3 i hi
          rw [h0.avail, mem_tokenSet] at this
          rw [this, Bool.true_or]
      · rw [decide_eq_false hi, Bool.or_false]
    subst htt
    rw [owns_chain hid hn]
    exact conserved_release hok hid hn h h0
  | @replaced t t0 l hlt h0 ht =>
    -- the old chain is given back, then the new one taken
    have hsplit : ∀ v, Function.update (owns c arrays) (.inl (arrayIdx id)) v =
        Function.update (Function.update (owns c arrays) (.inl (arrayIdx id)) [])
          (.inl (arrayIdx id)) v := fun v => by rw [Function.update_idem]
    rw [owns_chain hid hn, hsplit]
    show Ledger pool (freeSet (Function.update c.token (modIdx id) t)) _
    rw [freeSet_take ht]
    refine (conserved_release hok hid hn h h0).take (Function.update_self ..) (fun x hx => ?_)
      (nodup_tokensOf_entries ht.ascending)
    rw [tokensOf_entries] at hx
    obtain ⟨i, hi, rfl⟩ := List.mem_map.mp hx
    refine ⟨hid.1, ?_⟩
    rw [Function.update_self]
    exact ht.mem i hi

end Transfer

/-- The bit of a channel other than the one whose bit is changed. -/
theorem update_mask_of_ne {mask : ℕ → BitVec 32} {v : BitVec 32} {m chn k : ℕ}
    (hv : ∀ j, j ≠ chn → v.getLsbD j = (mask m).getLsbD j) (hk : k ≠ m * PDMA_CH_MAX + chn) :
    (Function.update mask m v (k / PDMA_CH_MAX)).getLsbD (k % PDMA_CH_MAX) =
      (mask (k / PDMA_CH_MAX)).getLsbD (k % PDMA_CH_MAX) := by
  by_cases hm : k / PDMA_CH_MAX = m
  · rw [hm, Function.update_self]
    refine hv _ fun hc => hk ?_
    rw [← hm, ← hc]
    exact (Nat.div_add_mod' k PDMA_CH_MAX).symm
  · rw [Function.update_of_ne hm]

/-- **Step lemma**: the calls that keep the tokens keep every one of them free or with
its one owner. -/
theorem World.step_conserved {σ σ' : World} {op : Op} (hok : σ.Ok) (ha : σ.Allowed op)
    (hk : σ.KeepsTokens op) (hs : σ.step op = some σ') (h : σ.Conserved) : σ'.Conserved := by
  cases op with
  | channel_allocate p =>
    obtain rfl := Option.some.inj hs
    have hdone := nu_pdma_channel_allocate_done hok.tables.inited p
    simp only [World.Conserved]
    generalize (nu_pdma_channel_allocate σ.drv p).2.core = c' at hdone ⊢
    generalize (nu_pdma_channel_allocate σ.drv p).1 = r at hdone
    cases hdone with
    | refused => exact h
    | @granted m chn ctl hp hm hq hc hlt hfull =>
      have hdiv : (m * PDMA_CH_MAX + chn) / PDMA_CH_MAX = m ∧
          (m * PDMA_CH_MAX + chn) % PDMA_CH_MAX = chn := by
        rw [PDMA_CH_MAX] at hlt ⊢
        omega
      have howns : owns { σ.drv.core with
          mask := Function.update σ.drv.core.mask m (σ.drv.core.mask m ||| bit chn)
          chain := Function.update σ.drv.core.chain (m * PDMA_CH_MAX + chn) (none, 0)
          ctl := Function.update σ.drv.core.ctl (m * PDMA_CH_MAX + chn) ctl } σ.arrays =
          owns σ.drv.core σ.arrays := by
        refine owns_idle (m * PDMA_CH_MAX + chn) (by simp [Core.own]) (Or.inr ?_) fun k hk => ?_
        · rw [hdiv.1, hdiv.2, hc]
          exact (nu_cto_spec (lt_of_lt_of_le (hc ▸ hlt) (by decide))).1
        · refine ⟨by simp [Core.own, hk], update_mask_of_ne (fun j hj => ?_) hk⟩
          rw [getLsbD_set_bit]
          simp [hj]
      rw [howns]
      exact h
  | channel_free id =>
    obtain ⟨⟨ret, s1⟩, hr, rfl⟩ := Option.map_eq_some_iff.mp hs
    rcases nu_pdma_channel_free_cases hr with ⟨-, rfl⟩ | ⟨-, -, hn, hcore⟩
    · exact h
    · rcases hk with hk | hk
      · rw [hk] at hn
        exact absurd hn (by decide)
      · have hown : σ.drv.core.own (arrayIdx id) = [] := by simp [Core.own, hk]
        have howns : owns s1.core σ.arrays = owns σ.drv.core σ.arrays := by
          rw [hcore]
          refine owns_idle (arrayIdx id) hown (Or.inl hown) fun k hk => ⟨rfl, ?_⟩
          refine update_mask_of_ne (fun j hj => ?_) hk
          rw [getLsbD_clear_bit]
          simp [hj]
        simp only [World.Conserved, howns]
        rw [hcore]
        exact h
  | memctrl_set id e =>
    obtain rfl := Option.some.inj hs
    obtain ⟨ctl, hcore⟩ := nu_pdma_channel_memctrl_set_core σ.drv id e
    simp only [World.Conserved, hcore]
    exact h
  | transfer id w src dst n t malloc =>
    obtain ⟨⟨ret, s1⟩, hr, rfl⟩ := Option.map_eq_some_iff.mp hs
    cases hn : nu_pdma_check_is_nonallocated σ.drv id with
    | true =>
      obtain rfl := nu_pdma_transfer_nonallocated ha hn hr
      exact h
    | false =>
      exact (nu_pdma_transfer_done hok.tables hr).conserved hok.tables ha (nonallocated_eq_false.mp hn) hk h
  | sgtbls_allocate name id num words =>
    obtain ⟨⟨ret, s1, arr⟩, hr, rfl⟩ := Option.map_eq_some_iff.mp hs
    obtain ⟨hid, hnone⟩ := ha
    rcases nu_pdma_sgtbls_allocate_cases (by simp) hr with
      ⟨rfl, t, l, ht, rfl, rfl⟩ | ⟨rfl, rfl, -, -⟩
    · rw [if_pos rfl]
      simp only [World.Conserved, State.core_setToken]
      rw [owns_array, freeSet_take ht]
      have hempty : owns σ.drv.core σ.arrays (.inr name) = [] := by simp [owns, hnone]
      have htake := h.take hempty (l := tokensOf (modIdx id) (entries l)) (fun x hx => ?_)
        (nodup_tokensOf_entries ht.ascending)
      · rwa [← Function.update_eq_self (modIdx id) σ.drv.core.token] at htake
      · rw [tokensOf_entries] at hx
        obtain ⟨i, hi, rfl⟩ := List.mem_map.mp hx
        exact ⟨hid.1, ht.mem i hi⟩
    · exact h
  | sgtbls_free name =>
    rw [World.step] at hs
    cases harr : σ.arrays name with
    | none =>
      rw [harr] at hs
      obtain rfl := Option.some.inj hs
      exact h
    | some a =>
      obtain ⟨id, arr⟩ := a
      rw [harr] at hs
      obtain ⟨⟨s1, arr1⟩, hr, rfl⟩ := Option.map_eq_some_iff.mp hs
      obtain ⟨t, rfl, hin, hb, -⟩ := nu_pdma_sgtbls_free_some hr
      rw [List.take_length] at hin hb
      have hgive := h.give (.inr name)
      have hown : owns σ.drv.core σ.arrays (.inr name) = tokensOf (modIdx id) arr := by
        simp [owns, harr]
      have hid : IsChn id := hok.arrays name _ harr
      have hbits : ∀ i, t.getLsbD i =
          ((σ.drv.core.token (modIdx id)).getLsbD i || decide (some (i : ℤ) ∈ arr)) := hb
      rw [hown, ← Function.update_eq_self (modIdx id) σ.drv.core.token,
        ← freeSet_give hid.1 hin hbits] at hgive
      simp only [World.Conserved, State.core_setToken]
      rw [owns_array]
      exact hgive

/-! ### Runs -/

/-- Without channels and arrays in use nobody owns a token. -/
theorem World.Conserved.owns_nil {σ : World} (h : σ.Conserved)
    (hchn : ∀ id, IsChn id → nu_pdma_check_is_nonallocated σ.drv id = true)
    (harr : ∀ name, σ.arrays name = none) : ∀ o, owns σ.drv.core σ.arrays o = [] := by
  intro o
  cases o with
  | inr name => simp [owns, harr]
  | inl k =>
    have hlt : k % PDMA_CH_MAX < PDMA_CH_MAX := Nat.mod_lt _ (by decide)
    by_cases hm : k / PDMA_CH_MAX < PDMA_CNT
    · have hid : IsChn (chId (k / PDMA_CH_MAX) (k % PDMA_CH_MAX)) := by
        rw [IsChn, modIdx_chId _ hlt, chnIdx_chId _ hlt]
        exact ⟨hm, hlt⟩
      have hn := hchn _ hid
      rw [owns, if_neg]
      intro hbit
      rw [nonallocated_eq_false.mpr] at hn
      · exact absurd hn (by decide)
      · rwa [modIdx_chId _ hlt, chnIdx_chId _ hlt]
    · -- there is no such module, so the tokens would not be of the pool
      refine List.eq_nil_iff_forall_not_mem.mpr fun x hx => hm ?_
      have hpool := (h.owns_sub _ x hx).1
      rw [owns] at hx
      split at hx
      · rw [tokensOf, List.mem_filterMap] at hx
        obtain ⟨p, -, hp⟩ := hx
        obtain ⟨i, -, rfl⟩ := Option.map_eq_some_iff.mp hp
        exact hpool
      · exact absurd hx (by simp)

theorem World.boot_conserved (hclk : ℕ) : (World.boot hclk).Conserved := by
  have hfree : freeSet (World.boot hclk).drv.core.token = pool := by
    ext x
    have htok : (World.boot hclk).drv.core.token x.1 = if x.1 < PDMA_CNT then 0x0000FFFF else 0 :=
      rfl
    show x.1 < PDMA_CNT ∧ _ ↔ x.1 < PDMA_CNT ∧ x.2 < 16
    rw [htok]
    refine and_congr_right fun hx => ?_
    rw [if_pos hx]
    have hbits : ∀ i < 32, (0x0000FFFF : BitVec 32).getLsbD i = decide (i < 16) := by decide
    by_cases h32 : x.2 < 32
    · rw [hbits _ h32, decide_eq_true_eq]
    · rw [BitVec.getLsbD_of_ge _ _ (by omega)]
      simp
      omega
  have howns : owns (World.boot hclk).drv.core (World.boot hclk).arrays = fun _ => [] := by
    funext o
    cases o with
    | inl k => exact ite_self _
    | inr name => rfl
  rw [World.Conserved, hfree, howns]
  exact Ledger.init pool

/-- **Run lemma**: a run of calls that keep the tokens keeps them all. -/
theorem World.ReachableBy.conserved {hclk : ℕ} {σ : World} (h : σ.ReachableBy KeepsTokens hclk) :
    σ.Conserved := by
  induction h with
  | boot => exact World.boot_conserved hclk
  | step hr ha hk hs ih => exact World.step_conserved hr.ok ha hk hs ih

/-- **Tokens are conserved** in every run in which no channel is freed with a chain
and no chain is given up with unassigned words in its array: every token of the pool
is free or has exactly one owner, and all of them are free when no channel and no
array is in use. -/
theorem World.tokens_conserved {hclk : ℕ} {σ : World} (h : σ.ReachableBy KeepsTokens hclk) :
    Ledger pool (freeSet σ.drv.core.token) (owns σ.drv.core σ.arrays) ∧
      ((∀ id, IsChn id → nu_pdma_check_is_nonallocated σ.drv id = true) →
        (∀ name, σ.arrays name = none) → freeSet σ.drv.core.token = pool) := by
  have hc := h.conserved
  exact ⟨hc, fun hchn harr => hc.all_free (hc.owns_nil hchn harr)⟩

/-- The run in which a caller takes a channel and an array of two descriptors. -/
theorem World.tokens_conserved_array :
    ∃ σ : World, ((World.boot 0).step (.channel_allocate 0)).bind
        (·.step (.sgtbls_allocate 0 0 2 fun _ => none)) = some σ ∧
      Ledger pool (freeSet σ.drv.core.token) (owns σ.drv.core σ.arrays) := by
  obtain ⟨σ, hσ⟩ := Option.isSome_iff_exists.mp
    (show (((World.boot 0).step (.channel_allocate 0)).bind
      (·.step (.sgtbls_allocate 0 0 2 fun _ => none))).isSome = true by decide)
  obtain ⟨σ1, h1, h2⟩ := Option.bind_eq_some_iff.mp hσ
  have hnone : σ1.arrays 0 = none := by
    obtain rfl := Option.some.inj h1
    rfl
  exact ⟨σ, hσ, (World.tokens_conserved (.step (.step .boot (by trivial) (by trivial) h1)
    (by exact ⟨by decide, hnone⟩) (by trivial) h2)).1⟩

/-- The calls after which two tokens are lost: a channel is freed with its chain. -/
def lostChain : Option World :=
  (((World.boot 0).step (.channel_allocate 0)).bind
    (·.step (.transfer 0 8 0 0 65537 0 (some fun _ => none)))).bind (·.step (.channel_free 0))

/-- Token 0 is neither free nor owned after them. -/
theorem World.tokens_lost : ¬ ∀ (hclk : ℕ) (σ : World), σ.Reachable hclk → σ.Conserved := by
  intro hall
  obtain ⟨σ, hσ⟩ := Option.isSome_iff_exists.mp (show lostChain.isSome = true by decide)
  obtain ⟨σ2, h12, h3⟩ := Option.bind_eq_some_iff.mp hσ
  obtain ⟨σ1, h1, h2⟩ := Option.bind_eq_some_iff.mp h12
  have hid : IsChn 0 := by decide
  have hr : σ.Reachable 0 := .step (.step (.step .boot (by trivial) trivial h1)
    (by exact hid) trivial h2) (by exact hid) trivial h3
  have htok : lostChain.map (fun σ => σ.drv.m_u32SGTblToken 0) = some 0xFFFC#32 := by decide
  have hmask : lostChain.map (fun σ => σ.drv.nu_pdma_chn_mask_arr 0) = some 0xFFFF0000#32 := by
    decide
  have harr : lostChain.map (·.arrays) = some fun _ => none := by rfl
  have hσ' : lostChain = some σ := hσ
  simp only [hσ', Option.map_some, Option.some.injEq] at htok hmask harr
  rcases (hall 0 σ hr).covered (0, 0) ⟨by decide, by decide⟩ with hfree | ⟨o, ho⟩
  · have hbit : (σ.drv.m_u32SGTblToken 0).getLsbD 0 = true := hfree.2
    rw [htok] at hbit
    exact absurd hbit (by decide)
  · cases o with
    | inr name => simp [owns, harr] at ho
    | inl k =>
      rw [owns] at ho
      split at ho
      · rename_i hbit
        -- the owner would be a channel of module 0, and none is in use
        rw [tokensOf, List.mem_filterMap] at ho
        obtain ⟨p, -, hp⟩ := ho
        obtain ⟨i, -, hi⟩ := Option.map_eq_some_iff.mp hp
        have hk : k / PDMA_CH_MAX = 0 := congrArg Prod.fst hi
        have hclear : ∀ j < PDMA_CH_MAX, (0xFFFF0000#32).getLsbD j = false := by decide
        have hmask0 : σ.drv.core.mask 0 = 0xFFFF0000#32 := hmask
        rw [hk, hmask0, hclear _ (Nat.mod_lt _ (by decide))] at hbit
        exact absurd hbit (by decide)
      · exact absurd ho (by simp)

end Pdma
