/-
The TDs of a buffer and the pages of the controller.

A general TD gives the controller a first and a last address, and the controller goes on
from the page of the one to the page of the other: a buffer may lie in two pages of 4096
bytes and no more.  `ohci_bulk_xfer` cuts a buffer into pieces of at most 4096 bytes,
which lie in two pages wherever they start; `ohci_ctrl_xfer` has one TD for all data.

* `chunks_tiles` — the pieces lie one behind another and fill the buffer;
* `transfer_covered_iff` — when the data TDs of a request cover its buffer in order, each
  within two pages, with a list that ends at its last TD.
-/
import NuMaker.Lib.Tiling
import NuMaker.Ohci.Accounting

namespace Ohci

/-- The region of memory that a TD stands for; without a buffer it is empty. -/
def TD_T.region (td : TD_T) : ℕ × ℕ :=
  (td.CBP.toNat, if td.CBP = 0 then 0 else td.BE.toNat + 1 - td.CBP.toNat)

/-- The region of a TD lies in two pages. -/
def TD_T.TwoPages (td : TD_T) : Prop :=
  0 < td.region.2 → td.BE.toNat / 4096 ≤ td.CBP.toNat / 4096 + 1

/-- The TDs `l` of a request: those of the data fill its buffer, each in two pages; the last
TD of the list, and no other, ends it, and the request is counted down over all of them. -/
structure Covers (s s' : State) (u : ℕ) (k : Kind) (l : List ℕ) : Prop where
  tiles : Tiles (s.utr u).buff.toNat ((k.data l).map fun t => (s'.td t).region)
    ((s.utr u).buff.toNat + (s.utr u).data_len.toNat)
  pages : ∀ t ∈ k.data l, (s'.td t).TwoPages
  closes : ∀ t ∈ l, s'.NextTD t = none ↔ l.getLast? = some t
  td_cnt : (s'.utr u).td_cnt = l.length

/-- The request has been submitted with TDs that cover its buffer. -/
def Covered (s s' : State) (u : ℕ) (k : Kind) : Prop :=
  ∃ l, Queued s' (k.ep s u) l ∧ Covers s s' u k l

/-- The data of a request lie in memory, and those of a control request in two pages. -/
def Kind.InPages (s : State) (u : ℕ) (k : Kind) : Prop :=
  (s.utr u).data_len ≠ 0 →
    (s.utr u).buff ≠ 0 ∧ (s.utr u).buff.toNat + (s.utr u).data_len.toNat ≤ 2 ^ 32 ∧
      (k = .control → (s.utr u).buff.toNat % 4096 + (s.utr u).data_len.toNat ≤ 8192)

instance (s : State) (u : ℕ) (k : Kind) : Decidable (k.InPages s u) :=
  inferInstanceAs (Decidable (_ → _))

/-! ### Pieces -/

/-- The region of a TD that was filled with a piece of a buffer. -/
theorem Filled.region {s : State} {ed t : ℕ} {info : BitVec 32} {c : BitVec 32 × BitVec 32}
    (h : Filled s ed info t c) (hc : ¬ Empty c) (hfit : c.1.toNat + c.2.toNat ≤ 2 ^ 32) :
    (s.td t).region = (c.1.toNat, c.2.toNat) ∧
      (s.td t).BE.toNat = c.1.toNat + c.2.toNat - 1 := by
  have hC : (s.td t).CBP = if Empty c then 0 else c.1 := h.CBP
  have hB : (s.td t).BE = if Empty c then 0 else c.1 + c.2 - 1 := h.BE
  rw [if_neg hc] at hC hB
  have h1 : c.1 ≠ 0 := fun h0 => hc (Or.inl h0)
  have h2 : c.2.toNat ≠ 0 := toNat_ne_zero.mp fun h0 => hc (Or.inr h0)
  have hend : (c.1 + c.2 - 1).toNat = c.1.toNat + c.2.toNat - 1 := by
    have h1' := c.1.isLt
    have h2' := c.2.isLt
    bv_omega
  refine ⟨?_, by rw [hB, hend]⟩
  rw [TD_T.region, hC, hB, if_neg h1, hend]
  congr 1
  omega

/-- A TD without a buffer has an empty region. -/
theorem Filled.region_empty {s : State} {ed t : ℕ} {info : BitVec 32} {c : BitVec 32 × BitVec 32}
    (h : Filled s ed info t c) (hc : Empty c) : (s.td t).region.2 = 0 := by
  have hC : (s.td t).CBP = if Empty c then 0 else c.1 := h.CBP
  rw [if_pos hc] at hC
  rw [TD_T.region, if_pos hC]

/-- The pieces lie one behind another and fill the buffer. -/
theorem chunks_tiles : ∀ (n : ℕ) {buff data_len : BitVec 32},
    buff.toNat + data_len.toNat ≤ 2 ^ 32 → data_len.toNat ≤ 4096 * n →
    Tiles buff.toNat ((chunks n buff data_len).map fun c => (c.1.toNat, c.2.toNat))
      (buff.toNat + data_len.toNat) := by
  intro n
  induction n with
  | zero =>
    intro buff data_len _ hn
    have h0 : data_len.toNat = 0 := by omega
    rw [h0, Nat.add_zero]
    exact rfl
  | succ n ih =>
    intro buff data_len hfit hn
    rw [chunks_succ]
    by_cases h : 4096 < data_len.toNat
    · obtain ⟨hadd, hsub⟩ := rest_eq hfit h
      have hrest := @ih (buff + 4096) (data_len - 4096) (by omega) (by omega)
      rw [if_pos h, List.map_cons]
      refine ⟨fun _ => rfl, ?_⟩
      have hstart : buff.toNat + (4096 : BitVec 32).toNat = (buff + 4096).toNat := hadd.symm
      have hstop : (buff + 4096).toNat + (data_len - 4096).toNat = buff.toNat + data_len.toNat := by
        omega
      rw [hstart, ← hstop]
      exact hrest
    · rw [if_neg h]
      exact ⟨fun _ => rfl, rfl⟩

theorem chunks_le : ∀ (n : ℕ) {buff data_len : BitVec 32}, ∀ c ∈ chunks n buff data_len,
    c.2.toNat ≤ 4096 := by
  intro n
  induction n with
  | zero => simp [chunks]
  | succ n ih =>
    intro buff data_len c hc
    rw [chunks_succ] at hc
    by_cases h : 4096 < data_len.toNat
    · rw [if_pos h, List.mem_cons] at hc
      rcases hc with rfl | hc
      · exact Nat.le_refl 4096
      · exact ih c hc
    · rw [if_neg h, List.mem_singleton] at hc
      subst hc
      exact Nat.not_lt.mp h

/-- Filled with pieces that fill the buffer, the TDs do. -/
theorem regions_eq {s : State} {ed : ℕ} {info : BitVec 32} {l : List ℕ}
    {cs : List (BitVec 32 × BitVec 32)} (h : List.Forall₂ (Filled s ed info) l cs)
    (hc : ∀ c ∈ cs, ¬ Empty c) (hfit : ∀ c ∈ cs, c.1.toNat + c.2.toNat ≤ 2 ^ 32) :
    (l.map fun t => (s.td t).region) = cs.map fun c => (c.1.toNat, c.2.toNat) := by
  induction h with
  | nil => rfl
  | @cons t c l cs ht _ ih =>
    have hone := (ht.region (hc c List.mem_cons_self) (hfit c List.mem_cons_self)).1
    rw [List.map_cons, List.map_cons, hone,
      ih (fun c h => hc c (List.mem_cons_of_mem _ h)) fun c h => hfit c (List.mem_cons_of_mem _ h)]

/-- Without data the TDs have no region. -/
theorem tiles_of_empty {s : State} {ed a : ℕ} {info : BitVec 32} {l : List ℕ}
    {cs : List (BitVec 32 × BitVec 32)} (h : List.Forall₂ (Filled s ed info) l cs)
    (hc : ∀ c ∈ cs, Empty c) : Tiles a (l.map fun t => (s.td t).region) a := by
  induction h with
  | nil => exact rfl
  | @cons t c l cs ht _ ih =>
    have hone := ht.region_empty (hc c List.mem_cons_self)
    refine ⟨fun hpos => absurd hone (Nat.ne_of_gt hpos), ?_⟩
    rw [hone]
    exact ih fun c h => hc c (List.mem_cons_of_mem _ h)

/-! ### Pages -/

/-- An interval in two pages. -/
theorem two_pages_iff {a n : ℕ} (hn : 0 < n) :
    (a + n - 1) / 4096 ≤ a / 4096 + 1 ↔ a % 4096 + n ≤ 8192 := by
  omega

theorem Filled.twoPages_iff {s : State} {ed t : ℕ} {info : BitVec 32} {c : BitVec 32 × BitVec 32}
    (h : Filled s ed info t c) (hc : ¬ Empty c) (hfit : c.1.toNat + c.2.toNat ≤ 2 ^ 32) :
    (s.td t).TwoPages ↔ c.1.toNat % 4096 + c.2.toNat ≤ 8192 := by
  obtain ⟨hregion, hend⟩ := h.region hc hfit
  have hpos : 0 < c.2.toNat := Nat.pos_of_ne_zero (toNat_ne_zero.mp fun h0 => hc (Or.inr h0))
  have hstart : (s.td t).CBP.toNat = c.1.toNat := congrArg Prod.fst hregion
  rw [TD_T.TwoPages, hregion, hend, hstart, ← two_pages_iff hpos]
  exact ⟨fun h => h hpos, fun h _ => h⟩

/-! ### Requests -/

/-- Only the last node of a list leads nowhere. -/
theorem links_closes {next : ℕ → Option ℕ} {h : Option ℕ} {l : List ℕ} (hl : Links next h l none) :
    ∀ t ∈ l, next t = none ↔ l.getLast? = some t := by
  intro t ht
  constructor
  · intro hnone
    obtain ⟨l₁, l₂, rfl⟩ := List.append_of_mem ht
    have hrest := hl.next_eq
    rw [hnone] at hrest
    cases l₂ with
    | nil => simp
    | cons b l₂ => exact absurd hrest.1 (by simp)
  · intro hlast
    obtain ⟨l', rfl⟩ := List.getLast?_eq_some_iff.mp hlast
    exact hl.next_eq

/-- Data that are covered lie in memory. -/
theorem Covers.buffer {s s' : State} {u : ℕ} {k : Kind} {l : List ℕ} (h : Covers s s' u k l)
    (hlen : (s.utr u).data_len ≠ 0) :
    (s.utr u).buff ≠ 0 ∧ (s.utr u).buff.toNat + (s.utr u).data_len.toNat ≤ 2 ^ 32 := by
  have hpos : 0 < (s.utr u).data_len.toNat := Nat.pos_of_ne_zero (toNat_ne_zero.mp hlen)
  have hlt : (s.utr u).buff.toNat < (s.utr u).buff.toNat + (s.utr u).data_len.toNat := by omega
  constructor
  · -- the TD at the start of the buffer has an address
    obtain ⟨r, hr, hr2, hr1⟩ := h.tiles.exists_first hlt
    obtain ⟨t, -, rfl⟩ := List.mem_map.mp hr
    rw [toNat_ne_zero, ← hr1]
    rw [TD_T.region] at hr2 ⊢
    by_cases h0 : (s'.td t).CBP = 0
    · rw [if_pos h0] at hr2
      exact absurd hr2 (Nat.lt_irrefl 0)
    · exact toNat_ne_zero.mp h0
  · -- the TD that reaches the end has a last address
    obtain ⟨r, hr, hr2, hend⟩ := h.tiles.exists_last hlt
    obtain ⟨t, -, rfl⟩ := List.mem_map.mp hr
    rw [← hend]
    have hB := (s'.td t).BE.isLt
    rw [TD_T.region] at hr2 ⊢
    dsimp only at hr2 ⊢
    split at hr2
    · exact absurd hr2 (Nat.lt_irrefl 0)
    · rename_i h0
      rw [if_neg h0]
      omega

theorem Queued.unique {s : State} {p : ℕ} {l l' : List ℕ} (h : Queued s p l) (h' : Queued s p l') :
    l = l' := by
  obtain ⟨ed, hed, hl⟩ := h
  obtain ⟨ed', hed', hl'⟩ := h'
  rw [hed, Option.some.injEq] at hed'
  subst hed'
  exact hl.unique hl'

/-- A request that has been submitted is covered if its data TDs fill the buffer within
pages. -/
theorem Submitted.covered {s s' : State} {u : ℕ} {k : Kind} {l : List ℕ}
    {cs : List (BitVec 32 × BitVec 32)} (h : Submitted s s' u (k.ep s u) l (k.data l) cs)
    (htiles : Tiles (s.utr u).buff.toNat ((k.data l).map fun t => (s'.td t).region)
      ((s.utr u).buff.toNat + (s.utr u).data_len.toNat))
    (hpages : ∀ t ∈ k.data l, (s'.td t).TwoPages) : Covered s s' u k := by
  obtain ⟨ed, hed, hl⟩ := h.queued
  exact ⟨l, ⟨ed, hed, hl⟩, htiles, hpages, links_closes hl, h.td_cnt⟩

theorem bulk_covered_iff {s s' : State} {u p : ℕ} (h : submit s u (.bulk p) = (0, s')) :
    Covered s s' u (.bulk p) ↔ (Kind.bulk p).InPages s u := by
  obtain ⟨l, hs⟩ := submitted_bulk h
  constructor
  · rintro ⟨l', -, hc⟩ hlen
    obtain ⟨hb, hfit⟩ := hc.buffer hlen
    exact ⟨hb, hfit, fun hk => absurd hk Kind.noConfusion⟩
  · intro hin
    obtain ⟨ed, info, -, hfilled⟩ := hs.filled
    by_cases hlen : (s.utr u).data_len = 0
    · -- one TD without a buffer
      have hcs : ∀ c ∈ chunks ((s.utr u).data_len.toNat / 4096 + 1) (s.utr u).buff (s.utr u).data_len,
          Empty c := by
        rw [hlen]
        intro c hc
        obtain rfl := List.mem_singleton.mp hc
        exact Or.inr rfl
      refine hs.covered (k := .bulk p) ?_ fun t ht hpos => ?_
      · rw [hlen]
        exact tiles_of_empty hfilled hcs
      · obtain ⟨c, hc, hone⟩ := exists_of_forall₂ hfilled t ht
        exact absurd (hone.region_empty (hcs c hc)) (Nat.ne_of_gt hpos)
    · obtain ⟨hb, hfit, -⟩ := hin hlen
      have hcs := chunks_nonempty ((s.utr u).data_len.toNat / 4096 + 1) hfit hb hlen
      have hcfit := chunks_fit ((s.utr u).data_len.toNat / 4096 + 1) hfit
      refine hs.covered (k := .bulk p) ?_ fun t ht => ?_
      · show Tiles _ (l.map _) _
        rw [regions_eq hfilled hcs hcfit]
        exact chunks_tiles _ hfit (by omega)
      · obtain ⟨c, hc, hone⟩ := exists_of_forall₂ hfilled t ht
        have hle := chunks_le _ c hc
        rw [hone.twoPages_iff (hcs c hc) (hcfit c hc)]
        have hmod := Nat.mod_lt c.1.toNat (show 0 < 4096 by decide)
        omega

theorem control_covered_iff {s s' : State} {u : ℕ} (h : submit s u .control = (0, s')) :
    Covered s s' u .control ↔ Kind.control.InPages s u := by
  obtain ⟨l, hs⟩ := submitted_control h
  obtain ⟨ed, info, -, hfilled⟩ := hs.filled
  by_cases hlen : (s.utr u).data_len = 0
  · -- SETUP and STATUS only
    have hnone : ¬ 0 < (s.utr u).data_len := by
      rw [hlen]
      decide
    rw [if_neg hnone, List.forall₂_nil_right_iff] at hfilled
    have hdata : Kind.control.data l = [] := hfilled
    refine iff_of_true ?_ fun hne => absurd hlen hne
    refine hs.covered (k := .control) ?_ ?_
    · rw [hdata, hlen]
      exact rfl
    · rw [hdata]
      exact fun t ht => absurd ht List.not_mem_nil
  · have hpos : 0 < (s.utr u).data_len := by
      rw [BitVec.lt_def]
      exact Nat.pos_of_ne_zero (toNat_ne_zero.mp hlen)
    rw [if_pos hpos, List.forall₂_cons_right_iff] at hfilled
    obtain ⟨t, l₁, hone, hrest, hl₁⟩ := hfilled
    rw [List.forall₂_nil_right_iff] at hrest
    have hdata : Kind.control.data l = [t] := by
      show l.tail.dropLast = [t]
      rw [hl₁, hrest]
    have hfull : (s.utr u).buff ≠ 0 → ¬ Empty ((s.utr u).buff, (s.utr u).data_len) :=
      fun hb he => he.elim hb hlen
    constructor
    · rintro ⟨l', hq, hc⟩ -
      obtain ⟨hb, hfit⟩ := hc.buffer hlen
      obtain rfl := hs.queued.unique hq
      have hpage := hc.pages t (by rw [hdata]; exact List.mem_singleton_self t)
      exact ⟨hb, hfit, fun _ => (hone.twoPages_iff (hfull hb) hfit).mp hpage⟩
    · intro hin
      obtain ⟨hb, hfit, hpage⟩ := hin hlen
      refine hs.covered (k := .control) ?_ ?_
      · rw [hdata, List.map_singleton, (hone.region (hfull hb) hfit).1]
        exact ⟨fun _ => rfl, rfl⟩
      · intro t' ht'
        rw [hdata, List.mem_singleton] at ht'
        subst ht'
        exact (hone.twoPages_iff (hfull hb) hfit).mpr (hpage rfl)

/-- **The TDs of a request that is accepted cover its buffer**, each within two pages, exactly
when the data lie in memory, and in two pages for a control request. -/
theorem transfer_covered_iff {s s' : State} {u : ℕ} {k : Kind} (h : submit s u k = (0, s')) :
    Covered s s' u k ↔ k.InPages s u := by
  cases k with
  | control => exact control_covered_iff h
  | bulk p => exact bulk_covered_iff h

/-- Five thousand bytes from a buffer are covered by two TDs. -/
theorem transfer_covered_two_TDs :
    Covered (bulkRequest 5000) (submit (bulkRequest 5000) 0 (.bulk 0)).2 0 (.bulk 0) :=
  (transfer_covered_iff bulkRequest_started).mpr (by decide)

/-- A request to write 4098 bytes, the first of them the last byte of a page. -/
def pageEnd : State :=
  { bulkRequest 4098 with utr := fun u => { (bulkRequest 4098).utr u with buff := 0x1FFF } }

/-- As a control request it gets one TD, which lies in three pages. -/
theorem control_three_pages : ¬ ∀ (s s' : State) (u : ℕ) (k : Kind), submit s u k = (0, s') →
    Covered s s' u k := by
  intro hall
  have hstart : submit pageEnd 0 .control = (0, (submit pageEnd 0 .control).2) :=
    Prod.ext (by decide +kernel) rfl
  have hin := (control_covered_iff hstart).mp (hall _ _ _ _ hstart)
  exact absurd ((hin (by decide)).2.2 rfl) (by decide)

end Ohci
