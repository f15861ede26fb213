/-
Taking and releasing descriptor tokens.

Tokens are taken lowest first, so the tokens of one request ascend; a request is
met exactly when the word has as many bits as asked for (`allocate_iff`), and
otherwise gives back what it took.  `nu_pdma_sgtbls_allocate_cases` and
`nu_pdma_sgtbls_free_some` say what the two calls do to the token word and the
array.
-/
import NuMaker.Pdma.Driver

namespace Pdma

open NuUtils

/-- The entries of an array that holds exactly the tokens `l`. -/
def entries (l : List ℕ) : List nu_pdma_desc_t := l.map fun t : ℕ => some (t : ℤ)

/-- The tokens of a word. -/
def tokenSet (token : BitVec 32) : Finset ℕ := (Finset.range 32).filter fun i => token.getLsbD i

theorem mem_tokenSet {token : BitVec 32} {i : ℕ} : i ∈ tokenSet token ↔ token.getLsbD i = true := by
  rw [tokenSet, Finset.mem_filter, Finset.mem_range]
  exact ⟨fun h => h.2, fun h => ⟨BitVec.lt_of_getLsbD h, h⟩⟩

/-- Ascending tokens of the pool are at most 16. -/
theorem ascending_length_le {l : List ℕ} (h : l.Pairwise (· < ·)) (hlt : ∀ i ∈ l, i < 16) :
    l.length ≤ 16 := by
  have hsub : l.toFinset ⊆ Finset.range 16 := fun i hi =>
    Finset.mem_range.mpr (hlt i (List.mem_toFinset.mp hi))
  have hcard := Finset.card_le_card hsub
  rwa [List.toFinset_card_of_nodup (h.imp fun h => Nat.ne_of_lt h), Finset.card_range] at hcard

theorem getLsbD_clear_bit (x : BitVec 32) (k j : ℕ) :
    (x &&& ~~~bit k).getLsbD j = (x.getLsbD j && decide (j ≠ k)) := getLsbD_clearBit x k j

theorem getLsbD_set_bit (x : BitVec 32) (k j : ℕ) :
    (x ||| bit k).getLsbD j = (x.getLsbD j || (decide (j < 32) && decide (j = k))) :=
  getLsbD_setBit x k j

/-! ### Release -/

/-- A list of entries that all point into the pool. -/
def InPool (l : List nu_pdma_desc_t) : Prop := ∀ i, some i ∈ l → 0 ≤ i ∧ i < 16

theorem InPool.tail {p : nu_pdma_desc_t} {l : List nu_pdma_desc_t} (h : InPool (p :: l)) : InPool l :=
  fun i hi => h i (List.mem_cons_of_mem p hi)

theorem inPool_entries {l : List ℕ} (h : ∀ t ∈ l, t < 16) : InPool (entries l) := by
  intro i hi
  obtain ⟨t, ht, heq⟩ := List.mem_map.mp hi
  have := h t ht
  rw [Option.some.injEq] at heq
  omega

/-- Releasing asserts that every entry points into the pool, and sets the bits of
the entries. -/
theorem nu_pdma_sgtbls_free_loop_some : ∀ {l : List nu_pdma_desc_t} {token token' : BitVec 32},
    nu_pdma_sgtbls_free_loop token l = some token' →
    InPool l ∧ ∀ i, token'.getLsbD i = (token.getLsbD i || decide (some (i : ℤ) ∈ l)) := by
  intro l
  induction l with
  | nil =>
    intro token token' h
    obtain rfl : token = token' := Option.some.inj h
    exact ⟨fun i hi => absurd hi (by simp), fun i => by simp⟩
  | cons p l ih =>
    intro token token' h
    cases p with
    | none =>
      obtain ⟨h1, h2⟩ := ih h
      refine ⟨fun i hi => h1 i (by simpa using hi), fun i => ?_⟩
      rw [h2]
      simp
    | some idx =>
      rw [nu_pdma_sgtbls_free_loop, nu_pdma_sgtbls_token_free] at h
      by_cases hin : 0 ≤ idx ∧ idx + 1 ≤ (NU_PDMA_SGTBL_POOL_SIZE : ℤ)
      · rw [if_pos hin] at h
        obtain ⟨h1, h2⟩ := ih h
        rw [NU_PDMA_SGTBL_POOL_SIZE] at hin
        refine ⟨fun i hi => ?_, fun i => ?_⟩
        · rcases List.mem_cons.mp hi with heq | hi
          · obtain rfl := Option.some.inj heq
            omega
          · exact h1 i hi
        · rw [h2, getLsbD_set_bit]
          have heq : (i < 32 ∧ i = idx.toNat) ↔ (i : ℤ) = idx := by omega
          by_cases hi : (i : ℤ) = idx
          · simp [heq.mpr hi]
            grind
          · have : ¬ (i < 32 ∧ i = idx.toNat) := fun hc => hi (heq.mp hc)
            simp [hi]
            grind
      · rw [if_neg hin] at h
        exact absurd h (by simp)

theorem nu_pdma_sgtbls_free_loop_ok : ∀ {l : List nu_pdma_desc_t}, InPool l → ∀ token,
    ∃ token', nu_pdma_sgtbls_free_loop token l = some token' := by
  intro l
  induction l with
  | nil => exact fun _ token => ⟨token, rfl⟩
  | cons p l ih =>
    intro h token
    cases p with
    | none => exact ih h.tail token
    | some idx =>
      have hin := h idx (List.mem_cons_self ..)
      rw [nu_pdma_sgtbls_free_loop, nu_pdma_sgtbls_token_free,
        if_pos (by rw [NU_PDMA_SGTBL_POOL_SIZE]; omega)]
      exact ih h.tail _

/-! ### Request -/

/-- What the request loop has done: it took `l`, lowest first, from the word. -/
structure Taken (n : ℕ) (token : BitVec 32) (ok : Bool) (token' : BitVec 32) (l : List ℕ) :
    Prop where
  ascending : l.Pairwise (· < ·)
  mem : ∀ t ∈ l, token.getLsbD t = true
  rest : ∀ i, token'.getLsbD i = (token.getLsbD i && decide (i ∉ l))
  len : if ok then l.length = n else l.length < n ∧ token' = 0

theorem nu_pdma_sgtbls_allocate_loop_taken : ∀ (n : ℕ) (token : BitVec 32) (taken : List ℕ),
    ∃ ok token' l, nu_pdma_sgtbls_allocate_loop n token taken = (ok, token', taken ++ l) ∧
      Taken n token ok token' l := by
  intro n
  induction n with
  | zero =>
    intro token taken
    exact ⟨true, token, [], by simp [nu_pdma_sgtbls_allocate_loop], List.Pairwise.nil, by simp,
      by simp, rfl⟩
  | succ n ih =>
    intro token taken
    rw [nu_pdma_sgtbls_allocate_loop, nu_pdma_sgtbls_token_allocate]
    by_cases h0 : token = 0
    · -- no token left
      subst h0
      exact ⟨false, 0, [], by simp [nu_ctz_zero], List.Pairwise.nil, by simp, by simp,
        Nat.succ_pos n, rfl⟩
    · obtain ⟨hset, hbelow⟩ := nu_ctz_lowest h0
      have hlt := nu_ctz_lt h0
      obtain ⟨ok, token', l, hrun, hasc, hmem, hrest, hlen⟩ :=
        ih (token &&& ~~~bit (nu_ctz token)) (taken ++ [nu_ctz token])
      refine ⟨ok, token', nu_ctz token :: l, ?_, ?_, ?_, ?_, ?_⟩
      · simp only [if_pos (Nat.ne_of_lt hlt), hrun, List.append_assoc, List.singleton_append]
      · -- what is taken later was above the lowest bit
        refine List.Pairwise.cons (fun t ht => ?_) hasc
        have hb := hmem t ht
        rw [getLsbD_clear_bit, Bool.and_eq_true, decide_eq_true_eq] at hb
        rcases Nat.lt_trichotomy t (nu_ctz token) with hc | hc | hc
        · rw [hbelow t hc] at hb
          exact absurd hb.1 (by decide)
        · exact absurd hc hb.2
        · exact hc
      · intro t ht
        rcases List.mem_cons.mp ht with rfl | ht
        · exact hset
        · have hb := hmem t ht
          rw [getLsbD_clear_bit, Bool.and_eq_true] at hb
          exact hb.1
      · intro i
        rw [hrest, getLsbD_clear_bit]
        by_cases hi : i = nu_ctz token <;> simp [hi]
      · cases ok with
        | true => exact congrArg (· + 1) hlen
        | false => exact ⟨Nat.succ_lt_succ hlen.1, hlen.2⟩

/-- A request is met exactly when there are enough tokens. -/
theorem Taken.ok_iff {n : ℕ} {token token' : BitVec 32} {ok : Bool} {l : List ℕ}
    (h : Taken n token ok token' l) : ok = true ↔ n ≤ (tokenSet token).card := by
  have hn : l.Nodup := h.ascending.imp fun hlt => Nat.ne_of_lt hlt
  have hsub : l.toFinset ⊆ tokenSet token := by
    intro t ht
    exact mem_tokenSet.mpr (h.mem t (List.mem_toFinset.mp ht))
  have hcard := Finset.card_le_card hsub
  rw [List.toFinset_card_of_nodup hn] at hcard
  have hlen := h.len
  cases ok with
  | true => exact ⟨fun _ => le_of_eq_of_le hlen.symm hcard, fun _ => rfl⟩
  | false =>
    refine ⟨fun hc => absurd hc (by decide), fun hle => ?_⟩
    -- everything was taken, which was too little
    have hall : tokenSet token ⊆ l.toFinset := by
      intro i hi
      have hr := h.rest i
      rw [hlen.2, mem_tokenSet.mp hi] at hr
      rw [List.mem_toFinset]
      by_contra hni
      simp [hni] at hr
    have := Finset.card_le_card hall
    rw [List.toFinset_card_of_nodup hn] at this
    have := hlen.1
    omega

/-- A request that fails had taken everything. -/
theorem Taken.fail {n : ℕ} {token token' : BitVec 32} {l : List ℕ}
    (h : Taken n token false token' l) :
    l.length = (tokenSet token).card ∧ (tokenSet token).card < n ∧
      ∀ i, token.getLsbD i = decide (i ∈ l) := by
  have hn : l.Nodup := h.ascending.imp fun hlt => Nat.ne_of_lt hlt
  have hbits : ∀ i, token.getLsbD i = decide (i ∈ l) := by
    intro i
    have hr := h.rest i
    rw [h.len.2] at hr
    by_cases hi : i ∈ l
    · rw [h.mem i hi]
      simp [hi]
    · simpa [hi] using hr.symm
  have heq : tokenSet token = l.toFinset := by
    ext i
    rw [mem_tokenSet, hbits, List.mem_toFinset, decide_eq_true_eq]
  have hcard : (tokenSet token).card = l.length := by
    rw [heq, List.toFinset_card_of_nodup hn]
  exact ⟨hcard.symm, hcard ▸ h.len.1, hbits⟩

/-! ### The two calls on the state -/

theorem nu_pdma_sgtbls_free_some {s s' : State} {id num : ℕ} {arr arr' : List nu_pdma_desc_t}
    (h : nu_pdma_sgtbls_free s id arr num = some (s', arr')) :
    ∃ token', s' = s.setToken (modIdx id) token' ∧ InPool (arr.take num) ∧
      (∀ i, token'.getLsbD i =
        ((s.m_u32SGTblToken (modIdx id)).getLsbD i || decide (some (i : ℤ) ∈ arr.take num))) ∧
      arr' = List.replicate num none ++ arr.drop num := by
  rw [nu_pdma_sgtbls_free] at h
  split at h
  · cases hl : nu_pdma_sgtbls_free_loop (s.m_u32SGTblToken (modIdx id)) (arr.take num) with
    | none =>
      rw [hl] at h
      exact absurd h (by simp)
    | some token' =>
      rw [hl] at h
      obtain ⟨h1, h2⟩ := Prod.mk.injEq .. ▸ Option.some.inj h
      obtain ⟨h3, h4⟩ := nu_pdma_sgtbls_free_loop_some hl
      exact ⟨token', h1.symm, h3, h4, h2.symm⟩
  · exact absurd h (by simp)

theorem nu_pdma_sgtbls_free_ok (s : State) {id num : ℕ} {arr : List nu_pdma_desc_t}
    (hnum : num ≤ 4096) (h : InPool (arr.take num)) :
    ∃ s' arr', nu_pdma_sgtbls_free s id arr num = some (s', arr') := by
  obtain ⟨token', ht⟩ := nu_pdma_sgtbls_free_loop_ok h (s.m_u32SGTblToken (modIdx id))
  rw [nu_pdma_sgtbls_free, if_pos (by rwa [NU_PDMA_SG_TBL_MAXSIZE]), ht]
  exact ⟨_, _, rfl⟩

theorem setToken_setToken (s : State) (m : ℕ) (a b : BitVec 32) :
    (s.setToken m a).setToken m b = s.setToken m b := by
  rw [State.setToken, State.setToken, State.setToken, Function.update_idem]

theorem setToken_self (s : State) (m : ℕ) : s.setToken m (s.m_u32SGTblToken m) = s := by
  rw [State.setToken, Function.update_eq_self]

/-- The tokens of module `m` that are free. -/
def State.freeTokens (s : State) (m : ℕ) : Finset ℕ := tokenSet (s.m_u32SGTblToken m)

/-- `nu_pdma_sgtbls_allocate` gets all tokens, or none; then the entries after the
first that got none keep what the array held. -/
theorem nu_pdma_sgtbls_allocate_cases {s s' : State} {id num : ℕ} {arr arr' : List nu_pdma_desc_t}
    {ret : ℤ} (hlen : arr.length = num) (h : nu_pdma_sgtbls_allocate s id arr num = some (ret, s', arr')) :
    (ret = RT_EOK ∧ ∃ token' l, Taken num (s.m_u32SGTblToken (modIdx id)) true token' l ∧
        s' = s.setToken (modIdx id) token' ∧ arr' = entries l) ∨
      (ret = -RT_ERROR ∧ s' = s ∧ (s.freeTokens (modIdx id)).card < num ∧
        arr' = List.replicate ((s.freeTokens (modIdx id)).card + 1) none ++
          arr.drop ((s.freeTokens (modIdx id)).card + 1)) := by
  rw [nu_pdma_sgtbls_allocate] at h
  split at h
  · obtain ⟨ok, token', l, hrun, ht⟩ := nu_pdma_sgtbls_allocate_loop_taken num
      (s.m_u32SGTblToken (modIdx id)) []
    rw [hrun] at h
    cases ok with
    | true =>
      left
      simp only [List.nil_append, Option.some.injEq, Prod.mk.injEq] at h
      obtain ⟨rfl, rfl, rfl⟩ := h
      refine ⟨rfl, token', l, ht, rfl, ?_⟩
      rw [List.drop_of_length_le (le_of_eq hlen), List.append_nil, entries]
    | false =>
      right
      obtain ⟨hll, hlt, hbits⟩ := ht.fail
      simp only [List.nil_append] at h
      -- the tokens taken are given back at once
      cases hf : nu_pdma_sgtbls_free (s.setToken (modIdx id) token') id
          (entries l ++ none :: arr.drop (l.length + 1)) l.length with
      | none =>
        rw [entries] at hf
        rw [hf] at h
        exact absurd h (by simp)
      | some r =>
        obtain ⟨s1, arr1⟩ := r
        obtain ⟨token1, hs1, -, hb1, harr1⟩ := nu_pdma_sgtbls_free_some hf
        rw [entries] at hf
        rw [hf] at h
        simp only [Option.some.injEq, Prod.mk.injEq] at h
        obtain ⟨rfl, rfl, rfl⟩ := h
        have hel : (entries l).length = l.length := List.length_map ..
        have htake : (entries l ++ none :: arr.drop (l.length + 1)).take l.length = entries l := by
          rw [List.take_append_of_le_length (le_of_eq hel.symm), ← hel, List.take_length]
        have hdrop : (entries l ++ none :: arr.drop (l.length + 1)).drop l.length =
            none :: arr.drop (l.length + 1) := by
          rw [← hel, List.drop_left]
        have hmem : ∀ i : ℕ, some (i : ℤ) ∈ entries l ↔ i ∈ l := by
          intro i
          simp [entries]
        refine ⟨rfl, ?_, hlt, ?_⟩
        · rw [hs1, setToken_setToken]
          have htoken : token1 = s.m_u32SGTblToken (modIdx id) := by
            refine BitVec.eq_of_getLsbD_eq fun i _ => ?_
            rw [hb1, htake, hbits i]
            have h0 : ((s.setToken (modIdx id) token').m_u32SGTblToken (modIdx id)).getLsbD i =
                false := by
              rw [State.setToken_m_u32SGTblToken, Function.update_self, ht.len.2]
              simp
            rw [h0]
            simp [hmem i]
          rw [htoken, setToken_self]
        · rw [harr1, hdrop, State.freeTokens, ← hll, List.replicate_succ', List.append_assoc]
          rfl
  · exact absurd h (by simp)

end Pdma
