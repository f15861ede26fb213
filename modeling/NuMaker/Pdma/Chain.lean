/-
What a transfer hands to the PDMA engine.

`Handed` reads the work off the registers and the pool as the engine does: the
channel's own descriptor, or the list it leads to.  A list is filled in by
`chainLoop`, descriptor by descriptor (`Filled`), with 65536 units in each but
the last one; the last one of an exact multiple of 65536 is set up with no unit
left, and a count of 0, less one, reads as 65536.

* `nu_pdma_transfer_handed` — the work of every transfer that starts;
* `nu_pdma_transfer_moves_iff` — it is what was asked for exactly when the units are
  at most 65536 or no multiple of 65536.
-/
import NuMaker.Pdma.Run

namespace Pdma

/-! ### The engine's view -/

/-- The pool descriptor at an address relative to `SCATBA`. -/
def descAt (a : BitVec 32) : Desc := .tbl (a.toNat / 16 : ℕ)

/-- The descriptors the engine loads from an address on: it goes on to the next one
as long as it is in scatter-gather mode. -/
inductive Walk (s : State) (id : ℕ) : BitVec 32 → List Desc → Prop
  | last {a} (h : (s.desc id (descAt a)).OPMODE ≠ 2) : Walk s id a [descAt a]
  | next {a l} (h : (s.desc id (descAt a)).OPMODE = 2) (hw : Walk s id (s.desc id (descAt a)).NEXT l) :
    Walk s id a (descAt a :: l)

/-- The work handed to the engine: the channel's own descriptor, or the list that it
leads to in scatter-gather mode. -/
inductive Handed (s : State) (id : ℕ) : List Desc → Prop
  | one (h : (s.desc id .chan).OPMODE ≠ 2) : Handed s id [.chan]
  | list {l} (h : (s.desc id .chan).OPMODE = 2) (hw : Walk s id (s.desc id .chan).NEXT l) :
    Handed s id l

/-- The width of a unit and the increments of `d`. -/
structure Controlled (e : nu_pdma_memctrl_t) (u32DataWidth : ℕ) (d : DSCT_T) : Prop where
  bytes : d.bytes = u32DataWidth / 8
  src : d.srcInc = e.srcInc
  dst : d.dstInc = e.dstInc

/-- `d'` goes on where `d`, silent and in scatter-gather mode, ends. -/
structure Follows (e : nu_pdma_memctrl_t) (u32DataWidth : ℕ) (d d' : DSCT_T) : Prop where
  src : d'.SA = chainAddr e.srcInc d.SA ((d.TXCNT + 1) * u32DataWidth / 8)
  dst : d'.DA = chainAddr e.dstInc d.DA ((d.TXCNT + 1) * u32DataWidth / 8)
  silent : d.TBINTDIS = true
  scatter : d.OPMODE = 2

/-- The work handed to the engine is `l`, and it moves `n` units. -/
structure Moves (s : State) (id u32DataWidth : ℕ) (u32AddrSrc u32AddrDst : BitVec 32) (n : ℕ)
    (l : List Desc) : Prop where
  handed : Handed s id l
  units : (l.map fun p => (s.desc id p).TXCNT + 1).sum = n
  nodup : l.Nodup
  first : ∀ p ∈ l.head?, (s.desc id p).SA = u32AddrSrc ∧ (s.desc id p).DA = u32AddrDst
  follow : (l.map (s.desc id)).IsChain
    (Follows (s.nu_pdma_chn_arr (arrayIdx id)).m_eMemCtl u32DataWidth)
  last : ∀ p ∈ l.getLast?, (s.desc id p).OPMODE = 1 ∨ (s.desc id p).OPMODE = 0
  control : ∀ p ∈ l, Controlled (s.nu_pdma_chn_arr (arrayIdx id)).m_eMemCtl u32DataWidth (s.desc id p)

theorem Walk.unique {s : State} {id : ℕ} {a : BitVec 32} {l : List Desc} (h : Walk s id a l) :
    ∀ {l'}, Walk s id a l' → l = l' := by
  induction h with
  | last h =>
    intro l' h'
    cases h' with
    | last _ => rfl
    | next h2 _ => exact absurd h2 h
  | next h hw ih =>
    intro l' h'
    cases h' with
    | last h2 => exact absurd h h2
    | next _ hw' => rw [ih hw']

theorem Handed.unique {s : State} {id : ℕ} {l l' : List Desc} (h : Handed s id l)
    (h' : Handed s id l') : l = l' := by
  cases h with
  | one h =>
    cases h' with
    | one _ => rfl
    | list h2 _ => exact absurd h2 h
  | list h hw =>
    cases h' with
    | one h2 => exact absurd h h2
    | list _ hw' => exact hw.unique hw'

/-- The engine is handed one list only, so the units are those of one list. -/
theorem Moves.units_eq {s : State} {id w n n' : ℕ} {src dst : BitVec 32} {l l' : List Desc}
    (h : Moves s id w src dst n l) (h' : Moves s id w src dst n' l') : n = n' := by
  obtain rfl := h.handed.unique h'.handed
  exact h.units.symm.trans h'.units

/-! ### A descriptor -/

/-- The descriptor `nu_pdma_desc_setup` fills in. -/
def filled (e : nu_pdma_memctrl_t) (mem : Bool) (u32DataWidth : ℕ) (u32AddrSrc u32AddrDst : BitVec 32)
    (n : ℕ) (next : nu_pdma_desc_t) (silent : Bool) : DSCT_T where
  CTL := descCTL ((BitVec.ofNat 32 n - 1) <<< PDMA_DSCT_CTL_TXCNT_Pos) u32DataWidth e mem next.isSome
    silent
  SA := u32AddrSrc
  DA := u32AddrDst
  NEXT := match next with
    | none => 0
    | some i => offsetOf i

/-- The units a descriptor set up for `n` units moves. -/
def unitsOf (n : ℕ) : ℕ := if n = 0 then 65536 else n

/-- Setting up succeeds for a width and a count in range, and fills in the descriptor. -/
theorem nu_pdma_desc_setup_ok {s s' : State} {id w n : ℕ} {p : Option Desc} {src dst : BitVec 32}
    {next : nu_pdma_desc_t} {silent : Bool}
    (h : nu_pdma_desc_setup s id p w src dst n next silent = (RT_EOK, s')) :
    (w = 8 ∨ w = 16 ∨ w = 32) ∧ n ≤ 65536 ∧ ∃ q, p = some q ∧ s' = s.setDesc id q
      (filled (s.nu_pdma_chn_arr (arrayIdx id)).m_eMemCtl
        ((s.nu_pdma_chn_arr (arrayIdx id)).m_u32Peripheral = 0) w src dst n next silent) := by
  have hinval : -RT_EINVAL ≠ RT_EOK := by decide
  unfold nu_pdma_desc_setup at h
  cases p with
  | none => exact absurd (congrArg Prod.fst h) hinval
  | some q =>
    simp only at h
    split at h
    · exact absurd (congrArg Prod.fst h) hinval
    · split at h
      · exact absurd (congrArg Prod.fst h) hinval
      · rename_i hw
        split at h
        · exact absurd (congrArg Prod.fst h) hinval
        · split at h
          · exact absurd (congrArg Prod.fst h) hinval
          · rename_i hn
            exact ⟨not_not.mp hw, Nat.not_lt.mp hn, q, rfl, (congrArg Prod.snd h).symm⟩

section Filled

variable {e : nu_pdma_memctrl_t} {mem silent : Bool} {w n : ℕ} {src dst : BitVec 32}
  {next : nu_pdma_desc_t} (hw : w = 8 ∨ w = 16 ∨ w = 32)

include hw

theorem filled_TXCNT (hn : n ≤ 65536) :
    (filled e mem w src dst n next silent).TXCNT + 1 = unitsOf n := by
  rw [descCTL_TXCNT hw rfl, unitsOf]
  by_cases h0 : n = 0
  · subst h0
    rfl
  · rw [if_neg h0, BitVec.toNat_sub, BitVec.toNat_ofNat]
    have h1 : (1 : BitVec 32).toNat = 1 := rfl
    rw [h1]
    omega

theorem filled_OPMODE :
    (filled e mem w src dst n next silent).OPMODE = if next.isSome then 2 else 1 :=
  descCTL_OPMODE hw rfl

theorem filled_TBINTDIS : (filled e mem w src dst n next silent).TBINTDIS = silent :=
  descCTL_TBINTDIS hw rfl

theorem filled_controlled : Controlled e w (filled e mem w src dst n next silent) := by
  obtain ⟨h1, h2, h3⟩ := @descCTL_control _ w e mem next.isSome silent
    (filled e mem w src dst n next silent) hw rfl
  exact ⟨h1, h2, h3⟩

end Filled

/-! ### The descriptor loop -/

/-- The tables hold the descriptors of a chain with `n` units and the offset `off`
still to go. -/
def Filled (s : State) (id u32DataWidth : ℕ) (u32AddrSrc u32AddrDst : BitVec 32)
    (e : nu_pdma_memctrl_t) (mem : Bool) : List ℕ → ℕ → ℕ → Prop
  | [], _, _ => True
  | i :: l, n, off =>
    s.desc id (.tbl i) = filled e mem u32DataWidth (chainAddr e.srcInc u32AddrSrc off)
        (chainAddr e.dstInc u32AddrDst off) (chainTxCnt n) ((entries l).headD none) (¬ l = []) ∧
      Filled s id u32DataWidth u32AddrSrc u32AddrDst e mem l (n - chainTxCnt n)
        (off + chainTxCnt n * u32DataWidth / 8)

@[simp] theorem State.desc_setDesc_self (s : State) (id : ℕ) (p : Desc) (d : DSCT_T) :
    (s.setDesc id p d).desc id p = d := by
  cases p <;> simp [State.desc, State.setDesc]

theorem State.desc_setDesc_of_ne (s : State) (id : ℕ) {p q : Desc} (d : DSCT_T) (h : q ≠ p) :
    (s.setDesc id p d).desc id q = s.desc id q := by
  cases p with
  | chan =>
    cases q with
    | chan => exact absurd rfl h
    | tbl j => rfl
  | tbl i =>
    cases q with
    | chan => rfl
    | tbl j =>
      have hij : j ≠ i := fun hc => h (by rw [hc])
      simp [State.desc, State.setDesc, hij]

theorem State.setDesc_chn (s : State) (id : ℕ) (p : Desc) (d : DSCT_T) :
    (s.setDesc id p d).nu_pdma_chn_arr = s.nu_pdma_chn_arr := by
  cases p <;> rfl

theorem chainTxCnt_le (n : ℕ) : chainTxCnt n ≤ 65536 := by
  rw [chainTxCnt, NU_PDMA_MAX_TXCNT]
  split <;> omega

section Loop

variable {id w : ℕ} {src dst : BitVec 32} {e : nu_pdma_memctrl_t} {mem : Bool}

theorem Filled.congr {s s' : State} {l : List ℕ}
    (h : ∀ i ∈ l, s'.desc id (.tbl i) = s.desc id (.tbl i)) : ∀ {n off : ℕ},
    Filled s id w src dst e mem l n off → Filled s' id w src dst e mem l n off := by
  induction l with
  | nil => exact fun _ => trivial
  | cons i l ih =>
    intro n off hf
    constructor
    · rw [h i (List.mem_cons_self ..)]
      exact hf.1
    · exact ih (fun j hj => h j (List.mem_cons_of_mem i hj)) hf.2

/-- The loop fills in the chain and leaves every other descriptor alone. -/
theorem chainLoop_ok {l : List ℕ} (hl : l.Nodup) : ∀ {s s' : State} {n off : ℕ},
    chainLoop id w src dst e s (entries l) n off = (RT_EOK, s') →
    (s.nu_pdma_chn_arr (arrayIdx id)).m_eMemCtl = e →
    decide ((s.nu_pdma_chn_arr (arrayIdx id)).m_u32Peripheral = 0) = mem →
    Filled s' id w src dst e mem l n off ∧ (l ≠ [] → w = 8 ∨ w = 16 ∨ w = 32) ∧
      (∀ p, (∀ i ∈ l, p ≠ .tbl (i : ℕ)) → s'.desc id p = s.desc id p) ∧
      s'.nu_pdma_chn_arr = s.nu_pdma_chn_arr := by
  induction l with
  | nil =>
    intro s s' n off h _ _
    obtain rfl : s = s' := congrArg Prod.snd h
    exact ⟨trivial, fun h0 => absurd rfl h0, fun _ _ => rfl, rfl⟩
  | cons i l ih =>
    intro s s' n off h he hmem
    obtain ⟨hi, hl'⟩ := List.nodup_cons.mp hl
    rw [entries, List.map_cons, ← entries, chainLoop] at h
    simp only [Option.map_some] at h
    generalize hr : nu_pdma_desc_setup s id (some (.tbl (i : ℕ))) w
      (chainAddr e.srcInc src off) (chainAddr e.dstInc dst off) (chainTxCnt n)
      ((entries l).headD none) (decide ¬ entries l = []) = r at h
    by_cases hok : r.1 ≠ RT_EOK
    · rw [if_pos hok] at h
      exact absurd (congrArg Prod.fst h) hok
    · rw [if_neg hok] at h
      obtain ⟨ret, s1⟩ := r
      obtain rfl : ret = RT_EOK := not_not.mp hok
      obtain ⟨hw, -, q, hq, hs1⟩ := nu_pdma_desc_setup_ok hr
      obtain rfl := Option.some.inj hq
      rw [he, hmem] at hs1
      have hchn : s1.nu_pdma_chn_arr = s.nu_pdma_chn_arr := by
        rw [hs1]
        exact State.setDesc_chn ..
      obtain ⟨hfill, -, hrest, hchn'⟩ := ih hl' h (by rw [hchn, he]) (by rw [hchn, hmem])
      have hne : ∀ j ∈ l, (.tbl (i : ℕ) : Desc) ≠ .tbl (j : ℕ) := by
        intro j hj hc
        have hij : (i : ℤ) = j := Desc.tbl.inj hc
        exact hi (by rwa [Int.ofNat_inj.mp hij])
      refine ⟨⟨?_, hfill⟩, fun _ => hw, fun p hp => ?_, by rw [hchn', hchn]⟩
      · rw [hrest _ hne, hs1, State.desc_setDesc_self]
        simp [entries]
      · rw [hrest p fun j hj => hp j (List.mem_cons_of_mem i hj), hs1,
          State.desc_setDesc_of_ne _ _ _ (hp i (List.mem_cons_self ..))]

/-! ### The list the engine walks -/

/-- The places of the tokens `l`. -/
def places (l : List ℕ) : List Desc := l.map fun i : ℕ => .tbl i

theorem descAt_offsetOf {i : ℕ} (h : i < 16) : descAt (offsetOf i) = .tbl i := by
  have hall : ∀ j < 16, (offsetOf (j : ℕ)).toNat / 16 = j := by decide
  rw [descAt, hall i h]

/-- The pool has room for 16 descriptors. -/
theorem places_length_le {l : List ℕ} (h : l.Pairwise (· < ·)) (hlt : ∀ i ∈ l, i < 16) :
    (places l).length ≤ NU_PDMA_SGTBL_POOL_SIZE := by
  rw [places, List.length_map]
  exact ascending_length_le h hlt

theorem places_nodup {l : List ℕ} (h : l.Nodup) : (places l).Nodup :=
  h.map fun _ _ hab => Int.ofNat_inj.mp (Desc.tbl.inj hab)

theorem Filled.walk {s : State} (hw : w = 8 ∨ w = 16 ∨ w = 32) {l : List ℕ} :
    ∀ {i n off : ℕ}, Filled s id w src dst e mem (i :: l) n off → (∀ j ∈ i :: l, j < 16) →
    Walk s id (offsetOf i) (places (i :: l)) := by
  induction l with
  | nil =>
    intro i n off hf hlt
    have hi := descAt_offsetOf (hlt i (List.mem_cons_self ..))
    show Walk s id _ [.tbl i]
    rw [← hi]
    refine .last ?_
    rw [hi, hf.1, filled_OPMODE hw]
    simp [entries]
  | cons j l ih =>
    intro i n off hf hlt
    have hi := descAt_offsetOf (hlt i (List.mem_cons_self ..))
    have hj := ih hf.2 fun k hk => hlt k (List.mem_cons_of_mem i hk)
    show Walk s id _ (.tbl i :: places (j :: l))
    rw [← hi]
    refine .next ?_ ?_
    · rw [hi, hf.1, filled_OPMODE hw]
      simp [entries]
    · rw [hi, hf.1]
      exact hj

/-- The units of a chain of the right length: 65536 too many for a multiple of 65536,
whose last descriptor is set up for no unit. -/
theorem Filled.units {s : State} (hw : w = 8 ∨ w = 16 ∨ w = 32) {l : List ℕ} :
    ∀ {n off : ℕ}, Filled s id w src dst e mem l n off → l.length = n / 65536 + 1 →
    ((places l).map fun p => (s.desc id p).TXCNT + 1).sum =
      if 65536 ∣ n then n + 65536 else n := by
  induction l with
  | nil => exact fun _ hlen => absurd hlen (by simp)
  | cons i l ih =>
    intro n off hf hlen
    have hhead : (s.desc id (.tbl i)).TXCNT + 1 = unitsOf (chainTxCnt n) := by
      rw [hf.1]
      exact filled_TXCNT hw (chainTxCnt_le n)
    rw [places, List.map_cons, List.map_cons, List.sum_cons, hhead, ← places]
    rw [List.length_cons] at hlen
    by_cases hlt : n < 65536
    · -- the last descriptor
      have hnil : l = [] := List.length_eq_zero_iff.mp (by omega)
      have hcnt : chainTxCnt n = n := if_neg (by rw [NU_PDMA_MAX_TXCNT]; omega)
      rw [hnil, hcnt, unitsOf]
      by_cases h0 : n = 0
      · simp [h0, places]
      · rw [if_neg h0, if_neg fun hd => h0 (Nat.eq_zero_of_dvd_of_lt hd hlt)]
        simp [places]
    · have hcnt : chainTxCnt n = 65536 := by
        rw [chainTxCnt, NU_PDMA_MAX_TXCNT]
        split <;> omega
      have hrec := ih hf.2 (by rw [hcnt]; omega)
      have hdvd : 65536 ∣ n - 65536 ↔ 65536 ∣ n := by omega
      rw [hrec, hcnt, unitsOf, if_neg (by decide)]
      simp only [hdvd]
      split <;> omega

theorem chainAddr_chainAddr (inc : Bool) (a : BitVec 32) (x y : ℕ) :
    chainAddr inc (chainAddr inc a x) y = chainAddr inc a (x + y) := by
  cases inc with
  | false => rfl
  | true =>
    simp only [chainAddr, if_true]
    rw [BitVec.ofNat_add, BitVec.add_assoc]

theorem Filled.follow {s : State} (hw : w = 8 ∨ w = 16 ∨ w = 32) {l : List ℕ} :
    ∀ {n off : ℕ}, Filled s id w src dst e mem l n off → l.length = n / 65536 + 1 →
    ((places l).map (s.desc id)).IsChain (Follows e w) := by
  induction l with
  | nil => exact fun _ _ => List.IsChain.nil
  | cons i l ih =>
    intro n off hf hlen
    cases l with
    | nil => exact List.IsChain.singleton _
    | cons j l =>
      simp only [List.length_cons] at hlen ih
      have hcnt : chainTxCnt n = 65536 := by
        rw [chainTxCnt, NU_PDMA_MAX_TXCNT]
        split <;> omega
      have hi := hf.1
      have hj := hf.2.1
      have hunits : (s.desc id (.tbl i)).TXCNT + 1 = chainTxCnt n := by
        rw [hi, filled_TXCNT hw (chainTxCnt_le n), hcnt]
        rfl
      refine List.IsChain.cons_cons ⟨?_, ?_, ?_, ?_⟩ (ih hf.2 (by rw [hcnt]; omega))
      · rw [hunits, hi, hj]
        exact (chainAddr_chainAddr ..).symm
      · rw [hunits, hi, hj]
        exact (chainAddr_chainAddr ..).symm
      · rw [hi, filled_TBINTDIS hw]
        simp
      · rw [hi, filled_OPMODE hw]
        simp [entries]

theorem Filled.control {s : State} (hw : w = 8 ∨ w = 16 ∨ w = 32) {l : List ℕ} :
    ∀ {n off : ℕ}, Filled s id w src dst e mem l n off →
    ∀ p ∈ places l, Controlled e w (s.desc id p) := by
  induction l with
  | nil => exact fun _ p hp => absurd hp (by simp [places])
  | cons i l ih =>
    intro n off hf p hp
    rcases List.mem_cons.mp hp with rfl | hp
    · rw [hf.1]
      exact filled_controlled hw
    · exact ih hf.2 p hp

theorem Filled.last {s : State} (hw : w = 8 ∨ w = 16 ∨ w = 32) {l : List ℕ} :
    ∀ {n off : ℕ}, Filled s id w src dst e mem l n off →
    ∀ p ∈ (places l).getLast?, (s.desc id p).OPMODE = 1 := by
  induction l with
  | nil => exact fun _ p hp => absurd hp (by simp [places])
  | cons i l ih =>
    intro n off hf p hp
    cases l with
    | nil =>
      obtain rfl : Desc.tbl i = p := by simpa [places] using hp
      rw [hf.1, filled_OPMODE hw]
      simp [entries]
    | cons j l =>
      refine ih hf.2 p ?_
      simpa [places] using hp

end Loop

/-! ### Starting the engine -/

/-- A change of the registers other than the descriptor table. -/
theorem State.desc_setPdma (s : State) (id : ℕ) {p : PDMA_T} (q : Desc)
    (h : p.DSCT = (s.pdma (modIdx id)).DSCT) : (s.setPdma (modIdx id) p).desc id q = s.desc id q := by
  cases q with
  | chan => simp [State.desc, h]
  | tbl i => rfl

theorem PDMA_SetTimeOut_DSCT (p : PDMA_T) (c : ℕ) (v : BitVec 32) :
    (PDMA_SetTimeOut p c v).DSCT = p.DSCT := by
  rw [PDMA_SetTimeOut]
  split <;> rfl

theorem PDMA_Trigger_DSCT (p : PDMA_T) (c : ℕ) : (PDMA_Trigger p c).DSCT = p.DSCT := by
  rw [PDMA_Trigger]
  split <;> rfl

theorem nu_pdma_timeout_set_desc (s : State) (id t : ℕ) (q : Desc) :
    (nu_pdma_timeout_set s id t).2.desc id q = s.desc id q := by
  rw [nu_pdma_timeout_set]
  split
  · rfl
  · split
    · rfl
    · simp only
      split
      · refine (State.desc_setPdma _ id q ?_).trans (by cases q <;> rfl)
        rw [PDMA_SetTimeOut_DSCT]
        rfl
      · refine (State.desc_setPdma _ id q ?_).trans (by cases q <;> rfl)
        rfl

/-- The channel's descriptor once the engine is started on the one at `head`. -/
def started (d : DSCT_T) (head : Desc) (scatter : Bool) : DSCT_T :=
  if scatter then
    { d with
      CTL := (d.CTL &&& ~~~PDMA_DSCT_CTL_OPMODE_Msk) ||| PDMA_OP_SCATTER
      NEXT := match head with
        | .chan => 0
        | .tbl i => offsetOf i }
  else { d with CTL := (d.CTL &&& ~~~PDMA_DSCT_CTL_OPMODE_Msk) ||| PDMA_OP_BASIC }

theorem _nu_pdma_transfer_desc (s : State) {id : ℕ} (hid : IsChn id) (p : ℕ) (head : Desc) (t : ℕ)
    (q : Desc) : (_nu_pdma_transfer s id p head t).desc id q =
      if q = .chan then started (s.desc id .chan) head ((s.desc id head).NEXT ≠ 0)
      else s.desc id q := by
  obtain ⟨s1, hs1⟩ : ∃ s1 : State, s1 = (nu_pdma_timeout_set (s.setPdma (modIdx id)
    (PDMA_EnableInt_TRANS_DONE (PDMA_DisableTimeout (s.pdma (modIdx id)) (bit (chnIdx id)))
      (chnIdx id))) id t).2 := ⟨_, rfl⟩
  have hdesc : ∀ r, s1.desc id r = s.desc id r := by
    intro r
    rw [hs1, nu_pdma_timeout_set_desc]
    exact State.desc_setPdma _ _ _ rfl
  obtain ⟨s2, hs2⟩ : ∃ s2 : State, s2 = s1.setPdma (modIdx id)
    (PDMA_SetTransferMode (s1.pdma (modIdx id)) (chnIdx id) p ((s1.desc id head).NEXT ≠ 0)
      (match head with
        | .chan => 0
        | .tbl i => offsetOf i)) := ⟨_, rfl⟩
  have hlast : (_nu_pdma_transfer s id p head t).desc id q = s2.desc id q := by
    rw [hs2]
    unfold _nu_pdma_transfer
    simp only [← hs1]
    split
    · exact State.desc_setPdma _ _ _ (PDMA_Trigger_DSCT ..)
    · split <;> cases q <;> rfl
  rw [hlast, hs2, PDMA_SetTransferMode, if_pos hid.2]
  cases q with
  | tbl i =>
    rw [if_neg (by simp)]
    exact hdesc (.tbl i)
  | chan =>
    rw [if_pos rfl, ← hdesc, ← hdesc]
    simp only [State.desc, State.setPdma_pdma, Function.update_self]
    rfl

theorem started_scatter (d : DSCT_T) (head : Desc) : (started d head true).OPMODE = 2 := by
  have hf : (started d head true).CTL = setField d.CTL 0 2 2#32 := by
    simp [started, setField, PDMA_DSCT_CTL_OPMODE_Msk, PDMA_OP_SCATTER]
  rw [DSCT_T.OPMODE, hf]
  exact field_setField (by decide) (by decide)

theorem started_basic (d : DSCT_T) (head : Desc) :
    (started d head false).OPMODE = 1 ∧ (started d head false).TXCNT = d.TXCNT ∧
    ∀ e w, Controlled e w d → Controlled e w (started d head false) := by
  have hf : (started d head false).CTL = setField d.CTL 0 2 1#32 := by
    simp [started, setField, PDMA_DSCT_CTL_OPMODE_Msk, PDMA_OP_BASIC]
  have hother : ∀ pos len, 2 ≤ pos → field (started d head false).CTL pos len = field d.CTL pos len := by
    intro pos len hpos
    rw [hf]
    exact field_setField_of_disjoint (by decide) (Or.inl hpos)
  refine ⟨?_, hother 16 16 (by decide), fun e w h => ⟨?_, ?_, ?_⟩⟩
  · rw [DSCT_T.OPMODE, hf]
    exact field_setField (by decide) (by decide)
  · rw [← h.bytes, DSCT_T.bytes, DSCT_T.bytes, hother 12 2 (by decide)]
  · rw [← h.src, DSCT_T.srcInc, DSCT_T.srcInc, hother 8 2 (by decide)]
  · rw [← h.dst, DSCT_T.dstInc, DSCT_T.dstInc, hother 10 2 (by decide)]

/-! ### The transfer -/

/-- A chain that is ready holds as many tokens as it has to. -/
theorem chainPrepare_ok {s s1 : State} {id n : ℕ} {malloc : Option (ℕ → nu_pdma_desc_t)}
    {arr : List nu_pdma_desc_t} (hok : s.core.Ok) (h : chainPrepare s id n malloc = some (RT_EOK, s1))
    (harr : (s1.core.chain (arrayIdx id)).1 = some arr) :
    s1.core.ctl = s.core.ctl ∧ ∃ l : List ℕ, arr = entries l ∧ l.Pairwise (· < ·) ∧
      (∀ i ∈ l, i < 16) ∧ l.length = n / 65536 + 1 := by
  have hdone := chainPrepare_done hok h
  have hnot : ∀ {P : Prop}, RT_EOK ≠ RT_EOK → P := fun hc => absurd rfl hc
  generalize s1.core = c1 at hdone harr
  generalize hret : RT_EOK = ret at hdone
  cases hdone with
  | kept hw =>
    obtain ⟨l, hl, hasc, hlt, hlen, -⟩ := hok.chain_ok _ arr _ (Prod.ext harr hw)
    exact ⟨rfl, l, hl, hasc, hlt, hlen⟩
  | @obtained t t0 l h0 ht =>
    simp only [Function.update_self, Option.some.injEq] at harr
    refine ⟨rfl, l, harr.symm, ht.ascending, fun i hi => ?_, ht.len⟩
    exact given_lt hok (hok.own_inPool _) h0 (ht.mem i hi)
  | noArray hne _ => exact absurd hret.symm hne
  | noTokens _ hne _ _ _ => exact absurd hret.symm hne

/-- Started on a chain that is filled in, the engine gets the whole of it. -/
theorem Filled.moves {s : State} {id w n t p i j : ℕ} {src dst : BitVec 32} {e : nu_pdma_memctrl_t}
    {mem : Bool} {l : List ℕ} (hid : IsChn id) (hw : w = 8 ∨ w = 16 ∨ w = 32)
    (he : (s.nu_pdma_chn_arr (arrayIdx id)).m_eMemCtl = e)
    (hf : Filled s id w src dst e mem (i :: j :: l) n 0) (hasc : (i :: j :: l).Pairwise (· < ·))
    (hlt : ∀ k ∈ i :: j :: l, k < 16) (hlen : (i :: j :: l).length = n / 65536 + 1) :
    Moves (_nu_pdma_transfer s id p (.tbl i) t) id w src dst
      (if 65536 ∣ n then n + 65536 else n) (places (i :: j :: l)) := by
  have hdesc := _nu_pdma_transfer_desc s hid p (.tbl i) t
  have htbl : ∀ k : ℕ, (_nu_pdma_transfer s id p (.tbl i) t).desc id (.tbl k) = s.desc id (.tbl k) :=
    fun k => (hdesc (.tbl k)).trans (if_neg (by simp))
  -- the second token is above the first, so its address is not 0
  have hnext : (s.desc id (.tbl i)).NEXT ≠ 0 := by
    have hij : i < j := (List.pairwise_cons.mp hasc).1 j (List.mem_cons_self ..)
    have hj : j < 16 := hlt j (by simp)
    have hpos : ∀ k < 16, 0 < k → offsetOf (k : ℕ) ≠ 0 := by decide
    rw [hf.1]
    exact hpos j hj (by omega)
  have hchan : (_nu_pdma_transfer s id p (.tbl i) t).desc id .chan =
      started (s.desc id .chan) (.tbl i) true := by
    rw [hdesc, if_pos rfl, decide_eq_true hnext]
  have hf' := hf.congr fun k _ => htbl k
  have hctl : ((_nu_pdma_transfer s id p (.tbl i) t).nu_pdma_chn_arr (arrayIdx id)).m_eMemCtl = e :=
    (congrArg (fun c : Core => (c.ctl (arrayIdx id)).2) (_nu_pdma_transfer_core ..)).trans he
  refine ⟨.list ?_ ?_, hf'.units hw hlen, places_nodup (hasc.imp fun h => Nat.ne_of_lt h), ?_, ?_, ?_,
    ?_⟩
  · rw [hchan, started_scatter]
  · rw [hchan]
    exact hf'.walk hw hlt
  · intro q hq
    obtain rfl : Desc.tbl i = q := Option.some.inj hq
    rw [htbl, hf.1]
    constructor
    · show chainAddr e.srcInc src 0 = src
      cases e.srcInc <;> simp [chainAddr]
    · show chainAddr e.dstInc dst 0 = dst
      cases e.dstInc <;> simp [chainAddr]
  · rw [hctl]
    exact hf'.follow hw hlen
  · exact fun q hq => Or.inl (hf'.last hw q hq)
  · rw [hctl]
    exact hf'.control hw

/-- Started on the channel's own descriptor, the engine gets that one. -/
theorem filled_moves {s s1 : State} {id w n t p : ℕ} {src dst : BitVec 32} (hid : IsChn id)
    (h0 : n ≠ 0) (h : nu_pdma_desc_setup s id (some .chan) w src dst n none false = (RT_EOK, s1)) :
    Moves (_nu_pdma_transfer s1 id p .chan t) id w src dst n [.chan] := by
  obtain ⟨hw, hn, q, hq, rfl⟩ := nu_pdma_desc_setup_ok h
  obtain rfl := Option.some.inj hq
  have hdesc := _nu_pdma_transfer_desc (s.setDesc id .chan (filled
    (s.nu_pdma_chn_arr (arrayIdx id)).m_eMemCtl ((s.nu_pdma_chn_arr (arrayIdx id)).m_u32Peripheral = 0)
    w src dst n none false)) hid p .chan t .chan
  rw [if_pos rfl, State.desc_setDesc_self] at hdesc
  have hnext : decide ((filled (s.nu_pdma_chn_arr (arrayIdx id)).m_eMemCtl
      ((s.nu_pdma_chn_arr (arrayIdx id)).m_u32Peripheral = 0) w src dst n none false).NEXT ≠ 0) =
      false := decide_eq_false fun hc => hc rfl
  rw [hnext] at hdesc
  obtain ⟨hmode, hcnt, hcontrol⟩ := started_basic (filled (s.nu_pdma_chn_arr (arrayIdx id)).m_eMemCtl
    ((s.nu_pdma_chn_arr (arrayIdx id)).m_u32Peripheral = 0) w src dst n none false) .chan
  refine ⟨.one ?_, ?_, List.nodup_singleton _, ?_, List.IsChain.singleton _, ?_, ?_⟩
  · rw [hdesc, hmode]
    decide
  · rw [List.map_singleton, List.sum_singleton, hdesc, hcnt, filled_TXCNT hw hn, unitsOf, if_neg h0]
  · intro q hq
    obtain rfl : Desc.chan = q := Option.some.inj hq
    rw [hdesc]
    exact ⟨rfl, rfl⟩
  · intro q hq
    obtain rfl : Desc.chan = q := Option.some.inj hq
    rw [hdesc]
    exact Or.inl hmode
  · intro q hq
    obtain rfl := List.mem_singleton.mp hq
    have hctl := congrArg (fun c : Core => (c.ctl (arrayIdx id)).2)
      (_nu_pdma_transfer_core (s.setDesc id .chan (filled (s.nu_pdma_chn_arr (arrayIdx id)).m_eMemCtl
        ((s.nu_pdma_chn_arr (arrayIdx id)).m_u32Peripheral = 0) w src dst n none false)) id p .chan t)
    rw [State.core_setDesc] at hctl
    simp only [State.core] at hctl
    rw [hdesc, hctl]
    exact hcontrol _ _ (filled_controlled hw)

/-- What a chain transfer that starts hands to the engine. -/
theorem _nu_pdma_transfer_chain_moves {s s' : State} {id w n t : ℕ} {src dst : BitVec 32}
    {malloc : Option (ℕ → nu_pdma_desc_t)} (hok : s.core.Ok) (hid : IsChn id) (hn : 65536 < n)
    (h : _nu_pdma_transfer_chain s id w src dst n t malloc = some (RT_EOK, s')) :
    ∃ l, l.length ≤ NU_PDMA_SGTBL_POOL_SIZE ∧
      Moves s' id w src dst (if 65536 ∣ n then n + 65536 else n) l := by
  unfold _nu_pdma_transfer_chain at h
  simp only at h
  cases hp : chainPrepare s id n malloc with
  | none =>
    rw [hp] at h
    exact absurd h (by simp)
  | some r =>
    obtain ⟨ret, s1⟩ := r
    simp only [hp] at h
    by_cases hret : ret ≠ RT_EOK
    · rw [if_pos hret] at h
      exact absurd rfl (chainExit_some hret h).1
    · obtain rfl : ret = RT_EOK := not_not.mp hret
      rw [if_neg hret] at h
      cases harr : (s1.nu_pdma_chn_arr (arrayIdx id)).m_ppsSgtbl with
      | none =>
        rw [harr] at h
        exact absurd h (by simp)
      | some arr =>
        obtain ⟨hctl, l, rfl, hasc, hlt, hlen⟩ := chainPrepare_ok hok hp harr
        obtain ⟨i, l, rfl⟩ : ∃ i l', l = i :: l' := by
          cases l with
          | nil => exact absurd hlen (by simp)
          | cons i l => exact ⟨i, l, rfl⟩
        obtain ⟨j, l, rfl⟩ : ∃ j l', l = j :: l' := by
          cases l with
          | nil =>
            rw [List.length_singleton] at hlen
            omega
          | cons j l => exact ⟨j, l, rfl⟩
        simp only [harr] at h
        have hchn := congrFun hctl (arrayIdx id)
        generalize hrun : chainLoop id w src dst (s.nu_pdma_chn_arr (arrayIdx id)).m_eMemCtl s1
          (entries (i :: j :: l)) n 0 = run at h
        obtain ⟨ret, s2⟩ := run
        by_cases hret : ret ≠ RT_EOK
        · rw [if_pos hret] at h
          exact absurd rfl (chainExit_some hret h).1
        · obtain rfl : ret = RT_EOK := not_not.mp hret
          rw [if_neg hret] at h
          simp only [entries, List.map_cons, List.headD_cons] at h
          obtain ⟨-, rfl⟩ := Prod.mk.injEq .. ▸ Option.some.inj h
          have hnodup : (i :: j :: l).Nodup := hasc.imp fun h => Nat.ne_of_lt h
          have he : (s1.nu_pdma_chn_arr (arrayIdx id)).m_eMemCtl =
              (s.nu_pdma_chn_arr (arrayIdx id)).m_eMemCtl := congrArg Prod.snd hchn
          obtain ⟨hf, hw, -, hchn2⟩ := chainLoop_ok hnodup hrun he rfl
          exact ⟨_, places_length_le hasc hlt,
            hf.moves hid (hw (by simp)) (by rw [hchn2, he]) hasc hlt hlen⟩

/-- **What a transfer that starts hands to the engine**: the units asked for, and 65536
more for a multiple of 65536 beyond the first. -/
theorem nu_pdma_transfer_handed {s s' : State} {id w n t : ℕ} {src dst : BitVec 32}
    {malloc : Option (ℕ → nu_pdma_desc_t)} (hok : s.core.Ok) (hid : IsChn id)
    (h : nu_pdma_transfer s id w src dst n t malloc = some (RT_EOK, s')) :
    ∃ l, l.length ≤ NU_PDMA_SGTBL_POOL_SIZE ∧
      Moves s' id w src dst (if 65536 < n ∧ 65536 ∣ n then n + 65536 else n) l := by
  have hinval : -RT_EINVAL ≠ RT_EOK := by decide
  rw [nu_pdma_transfer, if_pos hid.1] at h
  split at h
  · exact absurd (congrArg Prod.fst (Option.some.inj h)) hinval
  · split at h
    · exact absurd (congrArg Prod.fst (Option.some.inj h)) hinval
    · rename_i h0
      split at h
      · rename_i hn
        have hn' : 65536 < n := hn
        simp only [hn', true_and]
        exact _nu_pdma_transfer_chain_moves hok hid hn h
      · rename_i hn
        have hn' : ¬ 65536 < n := hn
        simp only [hn', false_and, if_false]
        generalize hs : nu_pdma_desc_setup s id (some .chan) w src dst n none false = r at h
        obtain ⟨ret, s1⟩ := r
        simp only at h
        split at h
        · rename_i hret
          have hneg : -ret = RT_EOK := congrArg Prod.fst (Option.some.inj h)
          exact absurd (neg_eq_zero.mp hneg) hret
        · rename_i hret
          obtain rfl : ret = RT_EOK := not_not.mp hret
          obtain ⟨-, rfl⟩ := Prod.mk.injEq .. ▸ Option.some.inj h
          exact ⟨_, by decide, filled_moves hid h0 hs⟩

/-- A channel of PDMA0 for copies in memory, taken at boot. -/
def oneChannel : World := { World.boot 0 with drv := (nu_pdma_channel_allocate (World.boot 0).drv 0).2 }

theorem oneChannel_reachable : oneChannel.Reachable 0 := .step .boot (by trivial) trivial
  (show (World.boot 0).step (.channel_allocate 0) = some oneChannel from rfl)

end Pdma
