/-
From start-up on.

`ohci_init` builds the interrupt tree: six nodes, linked from the highest level down, and a
table of 32 lists that begin on them.  From there on every careful operation keeps the units
(`Inv.step`), and the controller comes to an interrupt ED once in every interval.
-/
import NuMaker.Ohci.Periodic

namespace Ohci

/-! ### Operations -/

section

variable {ep0 : ℕ → Bool} {σ σ' : World} {L : Place → List ℕ} {rem : List ℕ}

/-- A careful operation keeps the units. -/
theorem Inv.step (h : Inv ep0 σ L rem) {op : Op} (hp : σ.Proper ep0 op) (hc : σ.Careful op)
    (hs : σ.step op = some σ') : ∃ L' rem', Inv ep0 σ' L' rem' := by
  cases op with
  | fill u utr =>
    obtain rfl := Option.some_inj.mp hs
    exact ⟨L, rem, h.fill u utr⟩
  | describe p ep =>
    obtain rfl := Option.some_inj.mp hs
    exact ⟨L, rem, h.describe p ep⟩
  | ctrl_xfer u =>
    obtain rfl := Option.some_inj.mp hs
    obtain ⟨L', h'⟩ := h.ctrl_xfer hp.1 hp.2 hc
    exact ⟨L', rem, h'⟩
  | bulk_xfer u p =>
    obtain rfl := Option.some_inj.mp hs
    obtain ⟨L', h'⟩ := h.bulk_xfer hp hc
    exact ⟨L', rem, h'⟩
  | int_xfer u p =>
    obtain rfl := Option.some_inj.mp hs
    obtain ⟨L', h'⟩ := h.int_xfer hp.1 hp.2 hc
    exact ⟨L', rem, h'⟩
  | iso_xfer u p =>
    obtain rfl := Option.some_inj.mp hs
    obtain ⟨L', h'⟩ := h.iso_xfer hp.1 hp.2 hc
    exact ⟨L', rem, h'⟩
  | quit_xfer utr ep =>
    obtain rfl := Option.some_inj.mp hs
    obtain ⟨rem', h'⟩ := h.quit_xfer utr ep
    exact ⟨L, rem', h'⟩
  | frame n =>
    obtain rfl := Option.some_inj.mp hs
    exact ⟨L, rem, h.frame n⟩
  | retire e td halted toggleCarry =>
    rw [World.step] at hs
    cases ht : (σ.drv.ed e).HeadP with
    | none =>
      rw [ht] at hs
      cases hs
    | some t =>
      rw [ht] at hs
      dsimp only at hs
      by_cases hgo : σ.drv.linked e = true ∧ (σ.drv.ed e).TailP ≠ some t
      · rw [if_pos hgo] at hs
        obtain rfl := Option.some_inj.mp hs
        obtain ⟨L', h'⟩ := h.retired td halted toggleCarry ht hgo.1 hgo.2
        exact ⟨L', rem, h'⟩
      · rw [if_neg hgo] at hs
        cases hs
  | handOver =>
    rw [World.step] at hs
    by_cases hnone : σ.drv.done_head = none
    · rw [if_pos hnone] at hs
      obtain rfl := Option.some_inj.mp hs
      exact ⟨_, rem, h.handOver hnone⟩
    · rw [if_neg hnone] at hs
      cases hs
  | irq SF WDH =>
    obtain rfl := Option.some_inj.mp hs
    refine h.irq SF WDH fun hSF e he => hc hSF e ?_
    have hlen : rem.length ≤ MEM_POOL_UNIT_NUM := length_le_pool h.rem_nodup fun a ha => by
      obtain ⟨o, -, hao⟩ := h.rem_ed a ha
      exact (h.pool hao).1
    rw [Links.search_isSome_iff h.remove hlen]
    exact ⟨e, he, decide_eq_true rfl⟩

/-- What careful operations reach. -/
inductive World.Reaches (ep0 : ℕ → Bool) (σ₀ : World) : World → Prop
  | start : World.Reaches ep0 σ₀ σ₀
  | step {σ σ' : World} {op : Op} (h : World.Reaches ep0 σ₀ σ) (hp : σ.Proper ep0 op) (hc : σ.Careful op)
    (hs : σ.step op = some σ') : World.Reaches ep0 σ₀ σ'

theorem World.Reaches.inv {σ₀ : World} (h : World.Reaches ep0 σ₀ σ) (h₀ : ∃ L rem, Inv ep0 σ₀ L rem) :
    ∃ L rem, Inv ep0 σ L rem := by
  induction h with
  | start => exact h₀
  | step _ hp hc hs ih =>
    obtain ⟨L, rem, hinv⟩ := ih
    exact hinv.step hp hc hs

end

/-! ### Start-up -/

/-- The entries of the interrupt table. -/
def HCCA_INT_NUM : ℕ := 32

/-- `usbh_memory_init`, as far as the pool goes. -/
def usbh_memory_init (s : State) : State := { s with unit_used := fun _ => false }

/-- The walk of `init_hcca_int_table` along a list: node `ied` goes to its end, if it is not
there. -/
def chainLoop (ied : ℕ) : ℕ → State → ℕ → State
  | 0, s, _ => s
  | n + 1, s, ed_p =>
    if ed_p = ied then s
    else
      match (s.ed ed_p).NextED with
      | none => s.setED ed_p { s.ed ed_p with NextED := some ied }
      | some e => chainLoop ied n s e

/-- `init_hcca_int_table` at one entry of the table. -/
def hookEntry (ied : ℕ) (c : State × (ℕ → Option ℕ)) (idx : ℕ) : State × (ℕ → Option ℕ) :=
  match c.2 idx with
  | none => (c.1, Function.update c.2 idx (some ied))
  | some ed_p => (chainLoop ied MEM_POOL_UNIT_NUM c.1 ed_p, c.2)

/-- The entries that a node of interval `interval` is hooked to. -/
def entries (interval : ℕ) : List ℕ := List.range' (interval - 1) (HCCA_INT_NUM / interval) interval

/-- The loop of `init_hcca_int_table` over the nodes below `i`; there is none if a unit is missing
for one. -/
def nodeLoop : ℕ → State × (ℕ → Option ℕ) → Option (State × (ℕ → Option ℕ))
  | 0, c => some c
  | i + 1, c =>
    match alloc_ohci_ED c.1 with
    | (none, _) => none
    | (some ied, s) =>
      let s := { s with Ied := Function.update s.Ied i ied }
      let s := s.setED ied { s.ed ied with Info := ED_SKIP }
      nodeLoop i ((entries (1 <<< i)).foldl (hookEntry ied) (s, c.2))

/-- `init_hcca_int_table`. -/
def init_hcca_int_table (s : State) : Option (State × (ℕ → Option ℕ)) := nodeLoop 6 (s, fun _ => none)

/-- `ohci_init`, as far as the lists go. -/
def ohci_init (s : State) : Option (State × (ℕ → Option ℕ)) :=
  (init_hcca_int_table { s with ed_remove_list := none }).map fun c =>
    ({ c.1 with HcControlHeadED := none, HcBulkHeadED := none }, c.2)

/-- `usbh_core_init`. -/
def usbh_core_init (s : State) : Option (State × (ℕ → Option ℕ)) := ohci_init (usbh_memory_init s)

/-- The highest level whose node entry `q` of the table has. -/
def topLevel (q : ℕ) : ℕ := Nat.findGreatest (fun k => 2 ^ k ∣ q + 1) 5

theorem topLevel_le (q : ℕ) : topLevel q ≤ 5 := Nat.findGreatest_le 5

theorem le_topLevel_iff {k q : ℕ} (hk : k ≤ 5) : k ≤ topLevel q ↔ 2 ^ k ∣ q + 1 := by
  constructor
  · intro h
    have htop : 2 ^ topLevel q ∣ q + 1 := Nat.findGreatest_spec (P := fun k => 2 ^ k ∣ q + 1) (Nat.zero_le 5) (by simp)
    exact (pow_dvd_pow 2 h).trans htop
  · exact fun h => Nat.le_findGreatest hk h

theorem mem_entries {i q : ℕ} (hi : i ≤ 5) : q ∈ entries (1 <<< i) ↔ q < HCCA_INT_NUM ∧ i ≤ topLevel q := by
  rw [le_topLevel_iff hi, Nat.one_shiftLeft, entries, List.mem_range', HCCA_INT_NUM]
  have hpow : 2 ^ i * 2 ^ (5 - i) = 32 := by
    rw [← pow_add, Nat.add_sub_cancel' hi]
    rfl
  have hpos : 0 < 2 ^ i := Nat.two_pow_pos i
  have hdiv : 32 / 2 ^ i = 2 ^ (5 - i) := Nat.div_eq_of_eq_mul_right hpos hpow.symm
  rw [hdiv]
  constructor
  · rintro ⟨j, hj, rfl⟩
    have hle : 2 ^ i * (j + 1) ≤ 2 ^ i * 2 ^ (5 - i) := Nat.mul_le_mul_left _ hj
    rw [hpow, Nat.mul_succ] at hle
    refine ⟨by omega, j + 1, ?_⟩
    rw [Nat.mul_succ]
    omega
  · rintro ⟨hq, j, hj⟩
    obtain ⟨j, rfl⟩ : ∃ j', j = j' + 1 := Nat.exists_eq_succ_of_ne_zero (by rintro rfl; omega)
    refine ⟨j, ?_, ?_⟩
    · have hlt : 2 ^ i * j < 2 ^ i * 2 ^ (5 - i) := by
        rw [Nat.mul_succ] at hj
        omega
      exact Nat.lt_of_mul_lt_mul_left hlt
    · rw [Nat.mul_succ] at hj
      omega

/-- The walk along the nodes before node `m`: it gets to the last one. -/
theorem chainLoop_eq {m : ℕ} {s : State} (hs : ∀ v, v + 1 < m → (s.ed v).NextED = some (v + 1)) :
    ∀ {n v : ℕ}, v < m → m < n + v →
    ((s.ed (m - 1)).NextED = none →
      chainLoop m n s v = s.setED (m - 1) { s.ed (m - 1) with NextED := some m }) ∧
    ((s.ed (m - 1)).NextED = some m → chainLoop m n s v = s) := by
  intro n
  induction n with
  | zero =>
    intro v hv hn
    omega
  | succ n ih =>
    intro v hv hn
    rw [chainLoop, if_neg hv.ne]
    by_cases hlast : v + 1 < m
    · rw [hs v hlast]
      exact ih hlast (by omega)
    · have hv1 : m - 1 = v := by omega
      rw [hv1]
      constructor
      · intro hnone
        rw [hnone]
      · intro hsome
        rw [hsome]
        dsimp only
        cases n with
        | zero => rfl
        | succ n => rw [chainLoop, if_pos rfl]

/-- The first `m` nodes, units `0` to `m - 1`, are linked in order, and the entries of the table
that begin on one of them are set. -/
structure Chained (s₀ : State) (c : State × (ℕ → Option ℕ)) (m : ℕ) : Prop where
  used : ∀ t, c.1.unit_used t = decide (t < m)
  Ied : ∀ v < m, c.1.Ied (5 - v) = v
  eds : ∀ v < m, c.1.ed v = { ED_T.zero with
    Info := ED_SKIP
    NextED := if v + 1 < m then some (v + 1) else none }
  table : ∀ q < HCCA_INT_NUM, c.2 q = if 5 - topLevel q < m then some (5 - topLevel q) else none
  remove : c.1.ed_remove_list = none
  done : c.1.done_head = s₀.done_head
  ep : c.1.ep = s₀.ep
  events : c.1.events = s₀.events

/-- Node `m` is hooked to the entries in `l` already. -/
structure Hooking (s₀ : State) (c : State × (ℕ → Option ℕ)) (m : ℕ) (l : List ℕ) : Prop where
  used : ∀ t, c.1.unit_used t = decide (t < m + 1)
  Ied : ∀ v < m + 1, c.1.Ied (5 - v) = v
  eds : ∀ v < m + 1, c.1.ed v = { ED_T.zero with
    Info := ED_SKIP
    NextED := if v + 1 < m ∨ v + 1 = m ∧ ∃ q ∈ l, 5 - topLevel q < m then some (v + 1) else none }
  table : ∀ q < HCCA_INT_NUM, c.2 q =
    if 5 - topLevel q < m ∨ q ∈ l then some (5 - topLevel q) else none
  remove : c.1.ed_remove_list = none
  done : c.1.done_head = s₀.done_head
  ep : c.1.ep = s₀.ep
  events : c.1.events = s₀.events

/-- One more entry. -/
theorem Hooking.step {s₀ : State} {c : State × (ℕ → Option ℕ)} {m q : ℕ} {l : List ℕ} (h : Hooking s₀ c m l)
    (hq : q < HCCA_INT_NUM) (hm : m ≤ 5) (hlevel : 5 - topLevel q ≤ m) (hql : q ∉ l) :
    Hooking s₀ (hookEntry m c q) m (l ++ [q]) := by
  by_cases hfirst : 5 - topLevel q < m
  · -- the entry has a list, and the node goes to its end
    have hentry : c.2 q = some (5 - topLevel q) := by
      rw [h.table q hq, if_pos (Or.inl hfirst)]
    have hnext : ∀ v, v + 1 < m → (c.1.ed v).NextED = some (v + 1) := by
      intro v hv
      rw [h.eds v (by omega)]
      exact if_pos (Or.inl hv)
    obtain ⟨hnone, hsome⟩ := chainLoop_eq hnext (n := MEM_POOL_UNIT_NUM) hfirst
      (by rw [MEM_POOL_UNIT_NUM]; omega)
    have hex : ∃ a ∈ l ++ [q], 5 - topLevel a < m := ⟨q, by simp, hfirst⟩
    have hlast : (c.1.ed (m - 1)).NextED = if ∃ a ∈ l, 5 - topLevel a < m then some m else none := by
      rw [h.eds (m - 1) (by omega)]
      have hm1 : m - 1 + 1 = m := by omega
      simp [hm1]
    have hstep : hookEntry m c q = (chainLoop m MEM_POOL_UNIT_NUM c.1 (5 - topLevel q), c.2) := by
      rw [hookEntry, hentry]
    have hc : (chainLoop m MEM_POOL_UNIT_NUM c.1 (5 - topLevel q)) = { c.1 with
        ed := Function.update c.1.ed (m - 1) { c.1.ed (m - 1) with NextED := some m } } := by
      by_cases hl : ∃ a ∈ l, 5 - topLevel a < m
      · rw [if_pos hl] at hlast
        rw [hsome hlast]
        conv_rhs => rw [← hlast, Function.update_eq_self]
      · rw [if_neg hl] at hlast
        rw [hnone hlast]
        rfl
    rw [hstep, hc]
    refine ⟨h.used, h.Ied, ?_, ?_, h.remove, h.done, h.ep, h.events⟩
    · intro v hv
      dsimp only
      by_cases hvm : v = m - 1
      · have hm1 : m - 1 + 1 = m := by omega
        have hright : (if m - 1 + 1 < m ∨ m - 1 + 1 = m ∧ ∃ a ∈ l ++ [q], 5 - topLevel a < m then
            some (m - 1 + 1) else none) = some m := by
          rw [if_pos (Or.inr ⟨hm1, hex⟩), hm1]
        rw [hvm, hright, Function.update_self, h.eds (m - 1) (by omega)]
      · rw [Function.update_of_ne hvm, h.eds v hv]
        have hne : v + 1 ≠ m := by omega
        simp [hne]
    · intro a ha
      rw [h.table a ha]
      simp only [List.mem_append, List.mem_singleton]
      by_cases haq : a = q
      · rw [haq]
        simp [hfirst]
      · simp [haq]
  · -- the list of the entry begins with the node
    have heq : 5 - topLevel q = m := by omega
    have hentry : c.2 q = none := by
      rw [h.table q hq, if_neg (by tauto)]
    have hstep : hookEntry m c q = (c.1, Function.update c.2 q (some m)) := by
      rw [hookEntry, hentry]
    rw [hstep]
    refine ⟨h.used, h.Ied, ?_, ?_, h.remove, h.done, h.ep, h.events⟩
    · intro v hv
      rw [h.eds v hv]
      have hex : (∃ a ∈ l ++ [q], 5 - topLevel a < m) ↔ ∃ a ∈ l, 5 - topLevel a < m := by
        constructor
        · rintro ⟨a, ha, hlt⟩
          rcases (List.mem_append.mp ha).imp id List.mem_singleton.mp with ha | rfl
          · exact ⟨a, ha, hlt⟩
          · exact absurd hlt hfirst
        · rintro ⟨a, ha, hlt⟩
          exact ⟨a, List.mem_append_left _ ha, hlt⟩
      simp only [hex]
    · intro a ha
      simp only [List.mem_append, List.mem_singleton]
      by_cases haq : a = q
      · rw [haq, Function.update_self, if_pos (Or.inr (Or.inr rfl)), heq]
      · rw [Function.update_of_ne haq, h.table a ha]
        simp [haq]

theorem Hooking.foldl {s₀ : State} {m : ℕ} (hm : m ≤ 5) : ∀ {l' l : List ℕ} {c : State × (ℕ → Option ℕ)},
    Hooking s₀ c m l → (∀ q ∈ l', q < HCCA_INT_NUM ∧ 5 - topLevel q ≤ m) → (l ++ l').Nodup →
    Hooking s₀ (l'.foldl (hookEntry m) c) m (l ++ l') := by
  intro l'
  induction l' with
  | nil =>
    intro l c h _ _
    rwa [List.append_nil]
  | cons q l' ih =>
    intro l c h hl' hd
    obtain ⟨hq, hlevel⟩ := hl' q List.mem_cons_self
    have hql : q ∉ l := fun hm => (List.nodup_append.mp hd).2.2 q hm q List.mem_cons_self rfl
    have happ : l ++ q :: l' = l ++ [q] ++ l' := by simp
    rw [happ] at hd ⊢
    exact ih (h.step hq hm hlevel hql) (fun a ha => hl' a (List.mem_cons_of_mem q ha)) hd

/-- The first unit that is free comes after those in use. -/
theorem freeUnit_of_prefix {s : State} {m : ℕ} (h : ∀ t, s.unit_used t = decide (t < m))
    (hm : m < MEM_POOL_UNIT_NUM) : freeUnit s = some m := by
  rw [freeUnit, List.find?_range_eq_some]
  refine ⟨?_, List.mem_range.mpr hm, ?_⟩
  · simp [h]
  · intro j hj
    simp [h, hj]

/-- A node has been allocated. -/
theorem Chained.hooking {s₀ s₁ : State} {c : State × (ℕ → Option ℕ)} {m : ℕ} (h : Chained s₀ c m) (hm : m ≤ 5)
    (hs₁ : s₁ = { c.1 with
      unit_used := Function.update c.1.unit_used m true
      ed := Function.update c.1.ed m { ED_T.zero with Info := ED_SKIP }
      Ied := Function.update c.1.Ied (5 - m) m }) : Hooking s₀ (s₁, c.2) m [] := by
  rw [hs₁]
  refine ⟨?_, ?_, ?_, ?_, h.remove, h.done, h.ep, h.events⟩
  · intro t
    dsimp only
    by_cases ht : t = m
    · simp [ht]
    · rw [Function.update_of_ne ht, h.used]
      have hiff : t < m + 1 ↔ t < m := by omega
      simp [hiff]
  · intro v hv
    dsimp only
    by_cases hvm : v = m
    · rw [hvm, Function.update_self]
    · rw [Function.update_of_ne (by omega)]
      exact h.Ied v (by omega)
  · intro v hv
    dsimp only
    by_cases hvm : v = m
    · rw [hvm, Function.update_self]
      simp [ED_T.zero]
    · rw [Function.update_of_ne hvm, h.eds v (by omega)]
      simp
  · intro q hq
    rw [h.table q hq]
    simp

/-- The node is hooked to all its entries. -/
theorem Hooking.chained {s₀ : State} {c : State × (ℕ → Option ℕ)} {m : ℕ} (h : Hooking s₀ c m (entries (1 <<< (5 - m))))
    (hm : m ≤ 5) : Chained s₀ c (m + 1) := by
  have hmem : ∀ q, q ∈ entries (1 <<< (5 - m)) ↔ q < HCCA_INT_NUM ∧ 5 - m ≤ topLevel q :=
    fun q => mem_entries (Nat.sub_le 5 m)
  refine ⟨h.used, h.Ied, ?_, ?_, h.remove, h.done, h.ep, h.events⟩
  · intro v hv
    rw [h.eds v hv]
    -- the last entry has all nodes
    have hlast : topLevel 31 = 5 := le_antisymm (topLevel_le 31) ((le_topLevel_iff (le_refl 5)).mpr (by decide))
    have hex : 0 < m → ∃ q ∈ entries (1 <<< (5 - m)), 5 - topLevel q < m := by
      intro hpos
      refine ⟨31, (hmem 31).mpr ⟨by decide, ?_⟩, ?_⟩
      · rw [hlast]
        exact Nat.sub_le 5 m
      · rw [hlast]
        exact hpos
    have hiff : (v + 1 < m ∨ v + 1 = m ∧ ∃ q ∈ entries (1 <<< (5 - m)), 5 - topLevel q < m) ↔ v + 1 < m + 1 := by
      constructor
      · omega
      · intro hlt
        rcases Nat.lt_or_eq_of_le (Nat.le_of_lt_succ hlt) with hlt | heq
        · exact Or.inl hlt
        · exact Or.inr ⟨heq, hex (by omega)⟩
    simp only [hiff]
  · intro q hq
    rw [h.table q hq]
    have hiff : (5 - topLevel q < m ∨ q ∈ entries (1 <<< (5 - m))) ↔ 5 - topLevel q < m + 1 := by
      rw [hmem]
      omega
    simp only [hiff]

/-- The nodes from level `i` down are allocated and hooked. -/
theorem nodeLoop_chained {s₀ : State} : ∀ {i : ℕ} {c : State × (ℕ → Option ℕ)}, i ≤ 6 → Chained s₀ c (6 - i) →
    ∃ c', nodeLoop i c = some c' ∧ Chained s₀ c' 6 := by
  intro i
  induction i with
  | zero => exact fun {c} _ h => ⟨c, rfl, h⟩
  | succ i ih =>
    intro c hi h
    obtain ⟨m, hm⟩ : ∃ m, 6 - (i + 1) = m := ⟨_, rfl⟩
    rw [hm] at h
    have hm5 : m ≤ 5 := by omega
    have him : i = 5 - m := by omega
    have hfree : freeUnit c.1 = some m := freeUnit_of_prefix h.used (by rw [MEM_POOL_UNIT_NUM]; omega)
    rw [nodeLoop, alloc_ohci_ED, hfree]
    dsimp only
    refine ih (by omega) ?_
    have hm1 : 6 - i = m + 1 := by omega
    rw [hm1, him]
    refine Hooking.chained ?_ hm5
    have hentry : ∀ q ∈ entries (1 <<< (5 - m)), q < HCCA_INT_NUM ∧ 5 - topLevel q ≤ m := by
      intro q hq
      obtain ⟨hlt, hlevel⟩ := (mem_entries (Nat.sub_le 5 m)).mp hq
      exact ⟨hlt, by omega⟩
    have hpos : 0 < 1 <<< (5 - m) := by
      rw [Nat.one_shiftLeft]
      exact Nat.two_pow_pos _
    refine Hooking.foldl hm5 (l := []) (h.hooking hm5 ?_) hentry (List.nodup_range' _ hpos)
    simp [State.setED]

/-- After start-up. -/
theorem usbh_core_init_chained (s : State) : ∃ s' table, usbh_core_init s = some (s', table) ∧
    Chained s (s', table) 6 ∧ s'.HcControlHeadED = none ∧ s'.HcBulkHeadED = none := by
  have h : Chained s ({ usbh_memory_init s with ed_remove_list := none }, fun _ => none) (6 - 6) := by
    refine ⟨?_, ?_, ?_, ?_, rfl, rfl, rfl, rfl⟩
    · intro t
      simp [usbh_memory_init]
    · intro v hv
      omega
    · intro v hv
      omega
    · intro q _
      simp
  obtain ⟨c, heq, hc⟩ := nodeLoop_chained (le_refl 6) h
  refine ⟨{ c.1 with HcControlHeadED := none, HcBulkHeadED := none }, c.2, ?_, ?_, rfl, rfl⟩
  · rw [usbh_core_init, ohci_init, init_hcca_int_table, heq]
    rfl
  · exact ⟨hc.used, hc.Ied, hc.eds, hc.table, hc.remove, hc.done, hc.ep, hc.events⟩

/-- After start-up only the nodes are in use. -/
def startPlaces : Place → List ℕ
  | .ints => List.range 6
  | .control | .bulk | .loose | .queue _ | .done | .pending => []

theorem mem_startPlaces {o : Place} {t : ℕ} : t ∈ startPlaces o ↔ o = .ints ∧ t < 6 := by
  match o with
  | .ints => simp [startPlaces]
  | .control | .bulk | .loose | .queue _ | .done | .pending => simp [startPlaces]

/-- The nodes are linked in order. -/
theorem range_links {s : State} {n : ℕ} (hs : ∀ v < n, s.NextED v = if v + 1 < n then some (v + 1) else none) :
    ∀ {m k : ℕ}, m + k = n → Links s.NextED (if m < n then some m else none) (List.range' m k) none := by
  intro m k
  induction k generalizing m with
  | zero =>
    intro h
    rw [if_neg (by omega)]
    exact rfl
  | succ k ih =>
    intro h
    rw [List.range'_succ, if_pos (by omega)]
    refine ⟨rfl, ?_⟩
    rw [hs m (by omega)]
    exact ih (by omega)

theorem range_sublist {a b n : ℕ} (hab : a < b) (hb : b < n) : [a, b].Sublist (List.range n) := by
  have hsplit : List.range n = List.range' 0 a ++ a :: List.range' (a + 1) (n - a - 1) := by
    have hrest : List.range' a (n - a) = a :: List.range' (a + 1) (n - a - 1) := by
      conv_lhs => rw [show n - a = n - a - 1 + 1 by omega, List.range'_succ]
    have happ := List.range'_append_1 (s := 0) (m := a) (n := n - a)
    rw [Nat.zero_add, Nat.add_sub_cancel' (hab.trans hb).le] at happ
    rw [← hrest, List.range_eq_range', happ]
  have hmem : b ∈ List.range' (a + 1) (n - a - 1) := by
    rw [List.mem_range'_1]
    omega
  rw [hsplit]
  exact ((List.singleton_sublist.mpr hmem).cons_cons a).trans (List.sublist_append_right _ _)

variable {ep0 : ℕ → Bool}

/-- The invariant holds after start-up. -/
theorem Chained.inv {s₀ s : State} {table : ℕ → Option ℕ} (h : Chained s₀ (s, table) 6)
    (hcontrol : s.HcControlHeadED = none) (hbulk : s.HcBulkHeadED = none) (hpipe : ∀ p, (s₀.ep p).hw_pipe = none)
    (hevents : s₀.events = []) (hdone : s₀.done_head = none) : Inv ep0 ⟨s, none⟩ startPlaces [] := by
  have hpipe' : ∀ p, (s.ep p).hw_pipe = none := by
    intro p
    rw [show s.ep = s₀.ep from h.ep]
    exact hpipe p
  have hIed : ∀ i ≤ 5, s.Ied i = 5 - i := by
    intro i hi
    have := h.Ied (5 - i) (by omega)
    rwa [Nat.sub_sub_self hi] at this
  have hNext : ∀ v < 6, s.NextED v = if v + 1 < 6 then some (v + 1) else none :=
    fun v hv => congrArg ED_T.NextED (h.eds v hv)
  have hempty : ∀ {o : Place}, o ≠ .ints → startPlaces o = [] := by
    intro o ho
    exact List.eq_nil_iff_forall_not_mem.mpr fun t ht => ho (mem_startPlaces.mp ht).1
  constructor
  · constructor
    · constructor
      · intro o
        by_cases ho : o = .ints
        · rw [ho]
          exact List.nodup_range
        · rw [hempty ho]
          exact List.nodup_nil
      · intro o o' t ho ho'
        rw [(mem_startPlaces.mp ho).1, (mem_startPlaces.mp ho').1]
      · intro o t ht
        have hlt := (mem_startPlaces.mp ht).2
        exact ⟨hlt.trans (by decide), (h.used t).trans (decide_eq_true hlt)⟩
      · intro o ho
        match o with
        | .control => exact hcontrol
        | .bulk => exact hbulk
        | .ints =>
          have hl := range_links hNext (m := 0) (k := 6) rfl
          rw [if_pos (by decide), ← List.range_eq_range'] at hl
          have hhead : s.head .ints = some 0 := by rw [State.head, hIed 5 (le_refl 5)]
          rw [hhead]
          exact hl
      · intro o e _ he
        rw [hempty Place.noConfusion]
        exact congrArg ED_T.HeadP (h.eds e (mem_startPlaces.mp he).2)
      · exact h.done.trans hdone
      · exact h.remove
      · exact List.nodup_nil
      · exact fun e he => absurd he List.not_mem_nil
      · intro i hi
        refine ⟨mem_startPlaces.mpr ⟨rfl, ?_⟩, List.not_mem_nil⟩
        dsimp only
        rw [hIed i hi]
        omega
      · intro e he hnot
        have hlt := (mem_startPlaces.mp he).2
        refine absurd ?_ (hnot (5 - e) (Nat.sub_le 5 e))
        dsimp only
        rw [hIed _ (Nat.sub_le 5 e)]
        omega
      · intro e he
        exact absurd (mem_startPlaces.mp he).1 Place.noConfusion
      · intro e he
        exact absurd (mem_startPlaces.mp he).1 Place.noConfusion
    · intro t _ hu
      exact ⟨.ints, mem_startPlaces.mpr ⟨rfl, of_decide_eq_true ((h.used t).symm.trans hu)⟩⟩
    · intro e t ht
      exact absurd (mem_startPlaces.mp ht).1 Place.noConfusion
    · exact rfl
    · intro e he
      exact absurd (mem_startPlaces.mp he).1 Place.noConfusion
    · intro p e hp
      dsimp only at hp
      rw [hpipe'] at hp
      cases hp
    · intro p p' e hp
      dsimp only at hp
      rw [hpipe'] at hp
      cases hp
    · intro ev hev
      dsimp only at hev
      rw [show s.events = [] from h.events.trans hevents] at hev
      cases hev
  · intro o e _ he
    obtain ⟨rfl, hlt⟩ := mem_startPlaces.mp he
    have hed : s.ed e = _ := h.eds e hlt
    dsimp only
    rw [hed]
    constructor
    · exact fun _ => rfl
    · intro t ht
      cases ht
    · exact fun _ => rfl
    · intro _ _ hskip
      exact absurd (show ED_SKIP &&& ED_SKIP = 0 from hskip) (by decide)
  · exact fun e he => absurd he List.not_mem_nil
  · intro i hi
    have hed : s.ed (s.Ied i) = _ := h.eds (s.Ied i) (by rw [hIed i hi]; omega)
    dsimp only
    rw [hed]
    exact show ED_SKIP &&& ED_SKIP ≠ 0 by decide
  · intro p e o hp
    dsimp only at hp
    rw [hpipe'] at hp
    cases hp
  · intro o e ho he
    obtain ⟨rfl, -⟩ := mem_startPlaces.mp he
    rcases ho with ho | ho
    · cases ho
    · cases ho
  · constructor
    · intro i j hij hj
      dsimp only
      rw [hIed j hj, hIed i (hij.le.trans hj)]
      exact range_sublist (by omega) (by omega)
    · intro e he hnot
      have hlt := (mem_startPlaces.mp he).2
      refine absurd ?_ (hnot (5 - e) (Nat.sub_le 5 e))
      dsimp only
      rw [hIed _ (Nat.sub_le 5 e)]
      omega
  · exact hIed

/-- The driver before start-up: no endpoint record names an ED yet. -/
structure Unstarted (s : State) : Prop where
  pipes : ∀ p, (s.ep p).hw_pipe = none
  events : s.events = []
  done : s.done_head = none

theorem Unstarted.inv {s s' : State} {table : ℕ → Option ℕ} (h : Unstarted s)
    (hinit : usbh_core_init s = some (s', table)) :
    Chained s (s', table) 6 ∧ Inv ep0 ⟨s', none⟩ startPlaces [] := by
  obtain ⟨s₁, table₁, heq, hc, hcontrol, hbulk⟩ := usbh_core_init_chained s
  obtain ⟨rfl, rfl⟩ := Prod.mk.inj (Option.some_inj.mp (hinit.symm.trans heq))
  exact ⟨hc, hc.inv hcontrol hbulk h.pipes h.events h.done⟩

/-- **From start-up on the units are conserved**: in every state that submissions, the controller,
interrupts and callers that quit can reach, each step careful. -/
theorem units_conserved {s s' : State} {table : ℕ → Option ℕ} {σ : World} (h : Unstarted s)
    (hinit : usbh_core_init s = some (s', table)) (hrun : World.Reaches ep0 ⟨s', none⟩ σ) :
    ∃ L rem, Conserved σ L rem := by
  obtain ⟨L, rem, hinv⟩ := hrun.inv ⟨startPlaces, [], (h.inv hinit).2⟩
  exact ⟨L, rem, hinv.toConserved⟩

/-- A device with an interrupt endpoint of interval `b`, and a request for it. -/
def idleState (b : BitVec 8) : State where
  unit_used := fun _ => false
  ed := fun _ => ED_T.zero
  td := fun _ => TD_T.zero
  HcControlHeadED := none
  HcBulkHeadED := none
  Ied := fun _ => 0
  ed_remove_list := none
  done_head := none
  frame_no := 0
  utr := fun _ =>
    { udev := ⟨false, 1, 8, 0⟩, bmRequestType := 0, setup := 0, ep := some 1, buff := 0x1000,
      bIsTransferDone := false, data_len := 8, xfer_len := 0, bIsoNewSched := false, iso_sf := 0,
      iso_xlen := fun _ => 0, iso_buff := fun _ => 0, iso_status := fun _ => 0, td_cnt := 0, status := 0,
      func := true, calls := 0 }
  ep := fun _ => ⟨0x81, 3, b, 0, 8, none⟩
  events := []

theorem idleState_unstarted (b : BitVec 8) : Unstarted (idleState b) := ⟨fun _ => rfl, rfl, rfl⟩

/-- What start-up makes of it. -/
def started (b : BitVec 8) : State × (ℕ → Option ℕ) := (usbh_core_init (idleState b)).getD (idleState b, fun _ => none)

theorem usbh_core_init_idleState (b : BitVec 8) : usbh_core_init (idleState b) = some (started b) := by
  obtain ⟨s, table, heq, -⟩ := usbh_core_init_chained (idleState b)
  rw [started, heq, Option.getD_some]

/-- The request is submitted, its TD comes back: the controller takes it, hands it over, and
interrupts. -/
def submitted_int (b : BitVec 8) : World := ⟨(ohci_int_xfer (started b).1 0 1).2, none⟩

def taken (b : BitVec 8) : World := (submitted_int b).retired 7 8 TD_T.zero false false

def handedOver (b : BitVec 8) : World := ⟨{ (taken b).drv with done_head := (taken b).HcDoneHead }, none⟩

def interrupted (b : BitVec 8) : World := { handedOver b with drv := USBH_IRQHandler (handedOver b).drv false true }

theorem submitted_int_reached : World.Reaches (fun p => p = 0) ⟨(started 8).1, none⟩ (submitted_int 8) := by
  have hproper : World.Proper (fun p => p = 0) ⟨(started 8).1, none⟩ (.int_xfer 0 1) :=
    ⟨by decide, by decide +kernel⟩
  have hcareful : World.Careful ⟨(started 8).1, none⟩ (.int_xfer 0 1) := by
    intro _
    have hfind : (started 8).1.findInt 0 1 = none := by decide +kernel
    have hfree : (started 8).1.free ≠ 1 := by decide +kernel
    dsimp only
    rw [hfind]
    exact hfree
  exact World.Reaches.start.step hproper hcareful rfl

theorem World.step_retire {σ : World} {e t : ℕ} {td : TD_T} {halted toggleCarry : Bool}
    (ht : (σ.drv.ed e).HeadP = some t) (hl : σ.drv.linked e = true) (htail : (σ.drv.ed e).TailP ≠ some t) :
    σ.step (.retire e td halted toggleCarry) = some (σ.retired e t td halted toggleCarry) := by
  rw [World.step, ht]
  exact if_pos ⟨hl, htail⟩

theorem World.step_handOver {σ : World} (hnone : σ.drv.done_head = none) :
    σ.step .handOver = some ⟨{ σ.drv with done_head := σ.HcDoneHead }, none⟩ := by
  rw [World.step, if_pos hnone]

theorem taken_reached : World.Reaches (fun p => p = 0) ⟨(started 8).1, none⟩ (taken 8) := by
  have hhead : ((submitted_int 8).drv.ed 7).HeadP = some 8 := by decide +kernel
  have htail : ((submitted_int 8).drv.ed 7).TailP ≠ some 8 := by decide +kernel
  have hlinked : (submitted_int 8).drv.linked 7 = true := by decide +kernel
  have hproper : World.Proper (fun p => p = 0) (submitted_int 8) (.retire 7 TD_T.zero false false) := trivial
  exact submitted_int_reached.step hproper trivial (World.step_retire hhead hlinked htail)

theorem handedOver_reached : World.Reaches (fun p => p = 0) ⟨(started 8).1, none⟩ (handedOver 8) := by
  have hnone : (taken 8).drv.done_head = none := by decide +kernel
  have hproper : World.Proper (fun p => p = 0) (taken 8) .handOver := trivial
  exact taken_reached.step hproper trivial (World.step_handOver hnone)

theorem interrupted_reached : World.Reaches (fun p => p = 0) ⟨(started 8).1, none⟩ (interrupted 8) := by
  have hproper : World.Proper (fun p => p = 0) (handedOver 8) (.irq false true) := trivial
  exact handedOver_reached.step hproper (fun h => by cases h) rfl

theorem units_conserved_int : ∃ L rem, Conserved (interrupted 8) L rem :=
  units_conserved (idleState_unstarted 8) (usbh_core_init_idleState 8) interrupted_reached

/-! ### Polling -/

/-- The level of an interval is the exponent of the interval it is rounded to. -/
theorem intervalLoop_eq : ∀ {n i : ℕ} (interval : ℕ), n + i = 5 →
    intervalLoop n (2 ^ i) interval = 2 ^ headLoop n i interval := by
  intro n
  induction n with
  | zero =>
    rintro i interval hi
    rw [Nat.zero_add] at hi
    subst hi
    rfl
  | succ n ih =>
    intro i interval hi
    rw [intervalLoop, headLoop]
    split
    · rfl
    · rw [← pow_succ]
      exact ih _ (by omega)

theorem get_ohci_interval_eq (s : State) (e : ℕ) : get_ohci_interval (s.ed e).bInterval = 2 ^ s.level e :=
  intervalLoop_eq (n := 5) (i := 0) (s.ed e).bInterval.toNat rfl

/-- Entry `n mod 32` has the nodes that the frame number allows. -/
theorem le_topLevel_mod {i : ℕ} (hi : i ≤ 5) (n : ℕ) : i ≤ topLevel (n % HCCA_INT_NUM) ↔ 2 ^ i ∣ n + 1 := by
  have hdvd : 2 ^ i ∣ HCCA_INT_NUM := pow_dvd_pow 2 hi
  rw [le_topLevel_iff hi, ← Nat.dvd_add_right (dvd_mul_of_dvd_left hdvd (n / HCCA_INT_NUM)), ← add_assoc,
    Nat.div_add_mod]

/-- On the list from node `k` on are the EDs of level `k` and below. -/
theorem Inv.search_node {σ : World} {L : Place → List ℕ} {rem : List ℕ} (h : Inv ep0 σ L rem) {e k : ℕ} (hk : k ≤ 5)
    (he : e ∈ L .ints) (hnode : ∀ i ≤ 5, e ≠ σ.drv.Ied i) :
    (Links.search σ.drv.NextED (· = e) MEM_POOL_UNIT_NUM (some (σ.drv.Ied k))).isSome = true ↔
      σ.drv.level e ≤ k := by
  obtain ⟨l₁, l₂, heq, hl⟩ := h.fromIed hk
  have hd := h.nodup .ints
  have hlen : (σ.drv.Ied k :: l₂).length ≤ MEM_POOL_UNIT_NUM := by
    have := h.length_le .ints
    rw [heq, List.length_append] at this
    omega
  have hiff : (Links.search σ.drv.NextED (· = e) MEM_POOL_UNIT_NUM (some (σ.drv.Ied k))).isSome = true ↔ e ∈ l₂ := by
    rw [Links.search_isSome_iff hl hlen]
    constructor
    · rintro ⟨a, ha, hae⟩
      obtain rfl := of_decide_eq_true hae
      exact (List.mem_cons.mp ha).resolve_left (hnode k hk)
    · exact fun hm => ⟨e, List.mem_cons_of_mem _ hm, decide_eq_true rfl⟩
  have hbelow : [σ.drv.Ied (σ.drv.level e), e].Sublist (L .ints) := h.below e he hnode
  have habove := h.tree.above e he hnode
  have hnodes : σ.drv.level e < k → [σ.drv.Ied k, σ.drv.Ied (σ.drv.level e)].Sublist (L .ints) :=
    fun hlt => h.tree.nodes hlt hk
  rw [heq] at hd hbelow habove hnodes
  rw [hiff]
  constructor
  · intro hm
    by_contra hlt
    -- `e` would be on both sides of the node
    obtain ⟨m₁, m₂, rfl⟩ := List.append_of_mem hm
    have hsplit : l₁ ++ σ.drv.Ied k :: (m₁ ++ e :: m₂) = (l₁ ++ σ.drv.Ied k :: m₁) ++ e :: m₂ := by simp
    have hpair := habove k (Nat.lt_of_not_le hlt)
    rw [hsplit] at hd hpair
    have hk₂ : σ.drv.Ied k ∈ m₂ := (pair_sublist_iff hd).mp hpair
    exact (List.nodup_append.mp hd).2.2 _ (List.mem_append_right l₁ List.mem_cons_self) _
      (List.mem_cons_of_mem e hk₂) rfl
  · intro hle
    rcases Nat.lt_or_eq_of_le hle with hlt | heq'
    · have hi : σ.drv.Ied (σ.drv.level e) ∈ l₂ := (pair_sublist_iff hd).mp (hnodes hlt)
      obtain ⟨m₁, m₂, rfl⟩ := List.append_of_mem hi
      have hsplit : l₁ ++ σ.drv.Ied k :: (m₁ ++ σ.drv.Ied (σ.drv.level e) :: m₂) =
          (l₁ ++ σ.drv.Ied k :: m₁) ++ σ.drv.Ied (σ.drv.level e) :: m₂ := by simp
      rw [hsplit] at hd hbelow
      exact List.mem_append_right m₁ (List.mem_cons_of_mem _ ((pair_sublist_iff hd).mp hbelow))
    · rw [heq'] at hbelow
      exact (pair_sublist_iff hd).mp hbelow

end Ohci
