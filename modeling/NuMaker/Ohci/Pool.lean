/-
Building and freeing lists of TDs.

A submission takes TDs from the pool one by one and hangs each on the last one;
`Building` says what holds in between, relative to the state it began in, and
`bulkLoop_built` and `freeTDs_eq` are the loops.
-/
import NuMaker.Ohci.Driver
import Mathlib.Data.List.Forall2
import Mathlib.Data.List.Range
import Mathlib.Tactic.Ring

namespace Ohci

/-! ### Fields -/

section Setters

variable (s : State)

@[simp] theorem setTD_td (t : ℕ) (v : TD_T) : (s.setTD t v).td = Function.update s.td t v := rfl

@[simp] theorem setED_ed (e : ℕ) (v : ED_T) : (s.setED e v).ed = Function.update s.ed e v := rfl

@[simp] theorem setUTR_utr (u : ℕ) (v : UTR_T) : (s.setUTR u v).utr = Function.update s.utr u v := rfl

@[simp] theorem setTD_NextTD (t : ℕ) (v : TD_T) :
    (s.setTD t v).NextTD = Function.update s.NextTD t v.NextTD := by
  funext a
  by_cases h : a = t
  · subst h
    simp [State.NextTD, State.setTD]
  · simp [State.NextTD, State.setTD, h]

@[simp] theorem setED_NextED (e : ℕ) (v : ED_T) :
    (s.setED e v).NextED = Function.update s.NextED e v.NextED := by
  funext a
  by_cases h : a = e
  · subst h
    simp [State.NextED, State.setED]
  · simp [State.NextED, State.setED, h]

@[simp] theorem setED_next (e : ℕ) (v : ED_T) : (s.setED e v).next = Function.update s.next e v.next := by
  funext a
  by_cases h : a = e
  · subst h
    simp [State.next, State.setED]
  · simp [State.next, State.setED, h]

end Setters

/-- The lists, the endpoint records and what has happened are the same. -/
structure SameRest (s₀ s : State) : Prop where
  control : s.HcControlHeadED = s₀.HcControlHeadED
  bulk : s.HcBulkHeadED = s₀.HcBulkHeadED
  Ied : s.Ied = s₀.Ied
  remove : s.ed_remove_list = s₀.ed_remove_list
  done : s.done_head = s₀.done_head
  ep : s.ep = s₀.ep
  events : s.events = s₀.events

theorem SameRest.refl (s : State) : SameRest s s := ⟨rfl, rfl, rfl, rfl, rfl, rfl, rfl⟩

theorem SameRest.trans {s s' s'' : State} (h : SameRest s s') (h' : SameRest s' s'') : SameRest s s'' :=
  ⟨h'.control.trans h.control, h'.bulk.trans h.bulk, h'.Ied.trans h.Ied, h'.remove.trans h.remove,
    h'.done.trans h.done, h'.ep.trans h.ep, h'.events.trans h.events⟩

/-! ### Taking units -/

theorem freeUnit_eq_some {s : State} {i : ℕ} (h : freeUnit s = some i) :
    i < MEM_POOL_UNIT_NUM ∧ s.unit_used i = false := by
  obtain ⟨hp, hi, -⟩ := List.find?_range_eq_some.mp h
  exact ⟨List.mem_range.mp hi, of_decide_eq_true hp⟩

theorem freeUnit_eq_none {s : State} (h : freeUnit s = none) {i : ℕ} (hi : i < MEM_POOL_UNIT_NUM) :
    s.unit_used i = true := by
  simpa using List.find?_eq_none.mp h i (List.mem_range.mpr hi)

theorem alloc_ohci_TD_eq_some {s s' : State} {utr : Option ℕ} {i : ℕ}
    (h : alloc_ohci_TD s utr = (some i, s')) : i < MEM_POOL_UNIT_NUM ∧ s.unit_used i = false ∧
      s' = { s.setTD i { TD_T.zero with utr := utr } with
        unit_used := Function.update s.unit_used i true } := by
  unfold alloc_ohci_TD at h
  split at h
  case h_1 j hj =>
    obtain ⟨hi, rfl⟩ := Prod.mk.inj h
    obtain rfl := Option.some_inj.mp hi
    exact ⟨(freeUnit_eq_some hj).1, (freeUnit_eq_some hj).2, rfl⟩
  case h_2 => cases h

theorem alloc_ohci_TD_eq_none {s s' : State} {utr : Option ℕ} (h : alloc_ohci_TD s utr = (none, s')) :
    freeUnit s = none ∧ s' = s := by
  unfold alloc_ohci_TD at h
  split at h
  case h_1 => cases h
  case h_2 hn =>
    obtain ⟨-, rfl⟩ := Prod.mk.inj h
    exact ⟨hn, rfl⟩

theorem alloc_ohci_ED_eq_some {s s' : State} {i : ℕ} (h : alloc_ohci_ED s = (some i, s')) :
    i < MEM_POOL_UNIT_NUM ∧ s.unit_used i = false ∧
      s' = { s.setED i ED_T.zero with unit_used := Function.update s.unit_used i true } := by
  unfold alloc_ohci_ED at h
  split at h
  case h_1 j hj =>
    obtain ⟨hi, rfl⟩ := Prod.mk.inj h
    obtain rfl := Option.some_inj.mp hi
    exact ⟨(freeUnit_eq_some hj).1, (freeUnit_eq_some hj).2, rfl⟩
  case h_2 => cases h

theorem alloc_ohci_ED_eq_none {s s' : State} (h : alloc_ohci_ED s = (none, s')) :
    freeUnit s = none ∧ s' = s := by
  unfold alloc_ohci_ED at h
  split at h
  case h_1 => cases h
  case h_2 hn =>
    obtain ⟨-, rfl⟩ := Prod.mk.inj h
    exact ⟨hn, rfl⟩

/-- How many units are free. -/
def State.free (s : State) : ℕ :=
  ((List.range MEM_POOL_UNIT_NUM).filter fun i => s.unit_used i = false).length

theorem free_eq_zero_iff {s : State} : s.free = 0 ↔ freeUnit s = none := by
  rw [State.free, freeUnit, List.length_eq_zero_iff, List.filter_eq_nil_iff, List.find?_eq_none]

/-- There are as many free units as can be named. -/
theorem length_le_free {s : State} {F : List ℕ} (hd : F.Nodup)
    (hF : ∀ t ∈ F, t < MEM_POOL_UNIT_NUM ∧ s.unit_used t = false) : F.length ≤ s.free := by
  refine (hd.subperm fun t ht => ?_).length_le
  rw [List.mem_filter, List.mem_range, decide_eq_true_iff]
  exact hF t ht

/-- Taking a unit leaves one less. -/
theorem free_succ {s s' : State} {i : ℕ} (hi : i < MEM_POOL_UNIT_NUM) (hfree : s.unit_used i = false)
    (hused : s'.unit_used = Function.update s.unit_used i true) : s'.free + 1 = s.free := by
  have hmem : i ∈ (List.range MEM_POOL_UNIT_NUM).filter fun i => s.unit_used i = false := by
    rw [List.mem_filter, List.mem_range, decide_eq_true_iff]
    exact ⟨hi, hfree⟩
  have hd : ((List.range MEM_POOL_UNIT_NUM).filter fun i => s.unit_used i = false).Nodup :=
    List.nodup_range.filter _
  have herase : (List.range MEM_POOL_UNIT_NUM).filter (fun i => s'.unit_used i = false) =
      ((List.range MEM_POOL_UNIT_NUM).filter fun i => s.unit_used i = false).erase i := by
    rw [hd.erase_eq_filter, List.filter_filter, hused]
    congr 1
    funext a
    by_cases ha : a = i
    · simp [ha]
    · simp [ha]
  rw [State.free, herase, List.length_erase_of_mem hmem, State.free]
  exact Nat.sub_add_cancel (List.length_pos_of_mem hmem)

/-- Units of the pool without repetition fit into a search. -/
theorem length_le_pool {l : List ℕ} (hd : l.Nodup) (hl : ∀ t ∈ l, t < MEM_POOL_UNIT_NUM) :
    l.length ≤ MEM_POOL_UNIT_NUM := by
  have hsub : l ⊆ List.range MEM_POOL_UNIT_NUM := fun t ht => List.mem_range.mpr (hl t ht)
  simpa using (hd.subperm hsub).length_le

/-! ### Building a list -/

/-- But for the next frame of an isochronous endpoint an ED is the same. -/
structure SameED (e₀ e : ED_T) : Prop where
  Info : e.Info = e₀.Info
  TailP : e.TailP = e₀.TailP
  HeadP : e.HeadP = e₀.HeadP
  NextED : e.NextED = e₀.NextED
  bInterval : e.bInterval = e₀.bInterval
  next : e.next = e₀.next

theorem SameED.refl (e : ED_T) : SameED e e := ⟨rfl, rfl, rfl, rfl, rfl, rfl⟩

theorem SameED.trans {e e' e'' : ED_T} (h : SameED e e') (h' : SameED e' e'') : SameED e e'' :=
  ⟨h'.Info.trans h.Info, h'.TailP.trans h.TailP, h'.HeadP.trans h.HeadP, h'.NextED.trans h.NextED,
    h'.bInterval.trans h.bInterval, h'.next.trans h.next⟩

/-- `td_list` leads to the TDs `l`, taken from the pool since `s₀`; no other TD has
changed, of the EDs the next frame at most, of the requests `u` at most. -/
structure Building (u : ℕ) (s₀ s : State) (td_list : Option ℕ) (l : List ℕ) : Prop where
  links : Links s.NextTD td_list l none
  nodup : l.Nodup
  fresh : ∀ t ∈ l, t < MEM_POOL_UNIT_NUM ∧ s₀.unit_used t = false
  used : ∀ t, s.unit_used t = (s₀.unit_used t || decide (t ∈ l))
  td : ∀ t ∉ l, s.td t = s₀.td t
  owner : ∀ t ∈ l, (s.td t).utr = some u
  ed : ∀ e, SameED (s₀.ed e) (s.ed e)
  utr : ∀ v ≠ u, s.utr v = s₀.utr v
  rest : SameRest s₀ s

theorem Building.refl (u : ℕ) (s : State) : Building u s s none [] :=
  ⟨rfl, List.nodup_nil, by simp, by simp, fun _ _ => rfl, by simp, fun _ => .refl _, fun _ _ => rfl, .refl s⟩

theorem Building.length_le {u : ℕ} {s₀ s : State} {td_list : Option ℕ} {l : List ℕ}
    (h : Building u s₀ s td_list l) : l.length ≤ MEM_POOL_UNIT_NUM :=
  length_le_pool h.nodup fun t ht => (h.fresh t ht).1

/-- The last TD of a list is found. -/
theorem lastTD_eq {s : State} {h : ℕ} {l : List ℕ} {p : ℕ} (hl : Links s.NextTD (some h) (l ++ [p]) none)
    (hd : (l ++ [p]).Nodup) (hn : (l ++ [p]).length ≤ MEM_POOL_UNIT_NUM) : lastTD s h = p := by
  have hlast : s.NextTD p = none := hl.next_eq
  have hfirst : ∀ t ∈ l, decide (s.NextTD t = none) = false := by
    intro t ht
    obtain ⟨l₁, l₂, rfl⟩ := List.append_of_mem ht
    rw [List.append_assoc, List.cons_append] at hl
    have hnext := hl.next_eq
    rw [decide_eq_false_iff_not]
    intro hnone
    rw [hnone] at hnext
    cases l₂ with
    | nil => exact absurd hnext.1 (by simp)
    | cons b l₂ => exact absurd hnext.1 (by simp)
  rw [lastTD, Links.search_eq_find? _ hl hn, List.find?_append, List.find?_eq_none.mpr]
  · simp [hlast]
  · intro t ht
    simp [hfirst t ht]

/-- Hang a TD on the last one of a list. -/
def hang (s : State) (td_list : Option ℕ) (td : ℕ) : State :=
  match td_list with
  | none => s
  | some h => s.setTD (lastTD s h) { s.td (lastTD s h) with NextTD := some td }

/-- A TD from the pool is filled and hung on the list. -/
theorem Building.append {u : ℕ} {s₀ s s₁ : State} {td_list : Option ℕ} {l : List ℕ} {t : ℕ} {v : TD_T}
    (h : Building u s₀ s td_list l) (ht : t < MEM_POOL_UNIT_NUM) (hfree : s.unit_used t = false)
    (hused : s₁.unit_used = Function.update s.unit_used t true)
    (htd : s₁.td = Function.update s.td t v) (hnext : v.NextTD = none) (howner : v.utr = some u)
    (hed : ∀ e, SameED (s.ed e) (s₁.ed e))
    (hutr : ∀ w ≠ u, s₁.utr w = s.utr w) (hrest : SameRest s s₁) :
    Building u s₀ (hang s₁ td_list t) (some (td_list.getD t)) (l ++ [t]) := by
  have htl : t ∉ l := by
    intro hmem
    rw [h.used t, decide_eq_true hmem, Bool.or_true] at hfree
    cases hfree
  have hN : s₁.NextTD = Function.update s.NextTD t none := by
    have := setTD_NextTD s t v
    rw [hnext] at this
    rw [← this]
    funext a
    simp [State.NextTD, State.setTD, htd]
  have hlinks : Links s₁.NextTD td_list l none := by
    rw [hN]
    exact (Links.update_iff htl none).mpr h.links
  have hone : Links s₁.NextTD (some t) [t] none := by
    rw [hN, Links.cons_iff, Function.update_self]
    exact ⟨rfl, rfl⟩
  have hd : (l ++ [t]).Nodup := by
    rw [List.nodup_append]
    exact ⟨h.nodup, List.nodup_singleton t, fun a ha b hb => by
      rw [List.mem_singleton] at hb
      rintro rfl
      exact htl (hb ▸ ha)⟩
  have hs₀ : s₀.unit_used t = false := by
    rw [h.used t, Bool.or_eq_false_iff] at hfree
    exact hfree.1
  have hfresh : ∀ a ∈ l ++ [t], a < MEM_POOL_UNIT_NUM ∧ s₀.unit_used a = false := by
    intro a ha
    rcases List.mem_append.mp ha with ha | ha
    · exact h.fresh a ha
    · obtain rfl := List.mem_singleton.mp ha
      exact ⟨ht, hs₀⟩
  have hused₁ : ∀ a, s₁.unit_used a = (s₀.unit_used a || decide (a ∈ l ++ [t])) := by
    intro a
    by_cases ha : a = t
    · subst ha
      simp [hused]
    · simp [hused, ha, h.used a]
  rcases List.eq_nil_or_concat' l with rfl | ⟨l', p, rfl⟩
  · -- the first TD
    obtain rfl : td_list = none := h.links
    refine ⟨hone, hd, hfresh, hused₁, ?_, ?_, fun e => (h.ed e).trans (hed e),
      fun w hw => (hutr w hw).trans (h.utr w hw), h.rest.trans hrest⟩
    · intro a ha
      have hat : a ≠ t := fun hat => ha (by simp [hat])
      rw [hang, htd, Function.update_of_ne hat]
      exact h.td a (by simp)
    · intro a ha
      obtain rfl : a = t := by simpa using ha
      rw [hang, htd, Function.update_self, howner]
  · -- the others: the last one gets a link
    cases td_list with
    | none => exact absurd hlinks.head_eq (by simp)
    | some b =>
      have hlast : lastTD s₁ b = p := lastTD_eq hlinks h.nodup h.length_le
      have hpt : p ≠ t := fun hpt => htl (by simp [← hpt])
      have hhang : hang s₁ (some b) t = s₁.setTD p { s₁.td p with NextTD := some t } := by
        rw [hang, hlast]
      rw [hhang]
      constructor
      · rw [setTD_NextTD]
        exact hlinks.chain hone h.nodup (by simpa using hpt)
      · exact hd
      · exact hfresh
      · exact hused₁
      · intro a ha
        simp only [List.mem_append, List.mem_singleton, not_or] at ha
        have hal : a ∉ l' ++ [p] := by simp [ha.1.1, ha.1.2]
        rw [setTD_td, Function.update_of_ne ha.1.2, htd, Function.update_of_ne ha.2]
        exact h.td a hal
      · intro a ha
        have howned : (s₁.td a).utr = some u := by
          rw [htd]
          by_cases hat : a = t
          · rw [hat, Function.update_self, howner]
          · rw [Function.update_of_ne hat]
            exact h.owner a ((List.mem_append.mp ha).resolve_right (by simpa using hat))
        rw [setTD_td]
        by_cases hap : a = p
        · subst hap
          rw [Function.update_self]
          exact howned
        · rw [Function.update_of_ne hap]
          exact howned
      · exact fun e => (h.ed e).trans (hed e)
      · exact fun w hw => (hutr w hw).trans (h.utr w hw)
      · exact h.rest.trans ⟨hrest.control, hrest.bulk, hrest.Ied, hrest.remove, hrest.done, hrest.ep,
          hrest.events⟩

/-- But for its link a TD is the same. -/
structure SameTD (td₀ td : TD_T) : Prop where
  Info : td.Info = td₀.Info
  CBP : td.CBP = td₀.CBP
  BE : td.BE = td₀.BE
  buff_start : td.buff_start = td₀.buff_start
  ed : td.ed = td₀.ed

theorem SameTD.refl (td : TD_T) : SameTD td td := ⟨rfl, rfl, rfl, rfl, rfl⟩

theorem SameTD.trans {td td' td'' : TD_T} (h : SameTD td td') (h' : SameTD td' td'') : SameTD td td'' :=
  ⟨h'.Info.trans h.Info, h'.CBP.trans h.CBP, h'.BE.trans h.BE, h'.buff_start.trans h.buff_start,
    h'.ed.trans h.ed⟩

theorem hang_same (s : State) (td_list : Option ℕ) (t a : ℕ) :
    SameTD (s.td a) ((hang s td_list t).td a) := by
  cases td_list with
  | none => exact .refl _
  | some b =>
    rw [hang, setTD_td]
    by_cases ha : a = lastTD s b
    · subst ha
      rw [Function.update_self]
      exact ⟨rfl, rfl, rfl, rfl, rfl⟩
    · rw [Function.update_of_ne ha]
      exact .refl _

theorem hang_utr (s : State) (td_list : Option ℕ) (t : ℕ) : (hang s td_list t).utr = s.utr := by
  cases td_list with
  | none => rfl
  | some b => rfl

/-! ### The loops -/

/-- The pieces of a buffer that `ohci_bulk_xfer` fills its TDs with. -/
def chunks : ℕ → BitVec 32 → BitVec 32 → List (BitVec 32 × BitVec 32)
  | 0, _, _ => []
  | n + 1, buff, data_len =>
    let xfer_len := if 4096 < data_len then 4096 else data_len
    (buff, xfer_len) ::
      if 0 < data_len - xfer_len then chunks n (buff + xfer_len) (data_len - xfer_len) else []

/-- A TD of ED `ed` filled by `write_td` with the piece `c`. -/
def Filled (s : State) (ed : ℕ) (info : BitVec 32) (t : ℕ) (c : BitVec 32 × BitVec 32) : Prop :=
  SameTD { TD_T.zero.write_td info c.1 c.2 with ed := some ed } (s.td t)

/-- What a loop that builds TDs does from a list `l` on: it adds to it, leaves what is in
the TDs of `l`, and stops short when the pool is used up. -/
structure Built (u ed : ℕ) (s₀ s s' : State) (l : List ℕ) (ok : Bool) (td_list : Option ℕ)
    (l' : List ℕ) : Prop where
  building : Building u s₀ s' td_list (l ++ l')
  same : ∀ t ∈ l, SameTD (s.td t) (s'.td t)
  ed : ∀ t ∈ l', (s'.td t).ed = some ed
  short : ok = false → freeUnit s' = none

theorem bulkLoop_built (u ed : ℕ) (info : BitVec 32) (s₀ : State) : ∀ (n : ℕ) (s : State)
    (buff data_len : BitVec 32) (td_list : Option ℕ) (l : List ℕ), Building u s₀ s td_list l →
    ∃ ok s' td_list' l', bulkLoop u ed info n s buff data_len td_list = (ok, s', td_list') ∧
      Built u ed s₀ s s' l ok td_list' l' ∧
      (s'.utr u = { s.utr u with td_cnt := (s.utr u).td_cnt + l'.length }) ∧
      (ok = true → List.Forall₂ (Filled s' ed info) l' (chunks n buff data_len)) := by
  intro n
  induction n with
  | zero =>
    intro s buff data_len td_list l h
    exact ⟨true, s, td_list, [], rfl, ⟨by simpa using h, fun _ _ => .refl _, by simp, by simp⟩,
      by simp, fun _ => List.Forall₂.nil⟩
  | succ n ih =>
    intro s buff data_len td_list l h
    generalize hx : (if 4096 < data_len then 4096 else data_len) = xfer_len
    cases halloc : alloc_ohci_TD s (some u) with
    | mk o s₁ =>
    cases o with
    | none =>
      obtain ⟨hnone, rfl⟩ := alloc_ohci_TD_eq_none halloc
      refine ⟨false, s₁, td_list, [], ?_, ⟨by simpa using h, fun _ _ => .refl _, by simp,
        fun _ => hnone⟩, by simp, by simp⟩
      simp only [bulkLoop, halloc]
    | some t =>
      obtain ⟨ht, hfree, hs₁⟩ := alloc_ohci_TD_eq_some halloc
      have hzero : s₁.td t = { TD_T.zero with utr := some u } := by
        rw [hs₁]
        exact Function.update_self t _ s.td
      have hutr₁ : s₁.utr = s.utr := by rw [hs₁]; rfl
      set v : TD_T := { (s₁.td t).write_td info buff xfer_len with ed := some ed } with hv
      set s₂ := (s₁.setTD t v).setUTR u { s₁.utr u with td_cnt := (s₁.utr u).td_cnt + 1 } with hs₂
      have htd : s₂.td = Function.update s.td t v := by
        have h₁ : s₂.td = Function.update s₁.td t v := rfl
        rw [h₁, hs₁]
        exact Function.update_idem _ _ _
      have hutr₂ : s₂.utr u = { s.utr u with td_cnt := (s.utr u).td_cnt + 1 } := by
        rw [hs₂, setUTR_utr, Function.update_self, hutr₁]
      have happ : Building u s₀ (hang s₂ td_list t) (some (td_list.getD t)) (l ++ [t]) := h.append
        ht hfree (by rw [hs₂, hs₁]; rfl) htd (by rw [hv, hzero]; rfl) (by rw [hv, hzero]; rfl) (fun e => by rw [hs₂, hs₁]; exact .refl _)
        (fun w hw => by rw [hs₂, setUTR_utr, Function.update_of_ne hw]; exact congrFun hutr₁ w)
        (by rw [hs₂, hs₁]; exact ⟨rfl, rfl, rfl, rfl, rfl, rfl, rfl⟩)
      have hsame : ∀ a ∈ l, SameTD (s.td a) ((hang s₂ td_list t).td a) := by
        intro a ha
        have hat : a ≠ t := by
          rintro rfl
          rw [h.used a, decide_eq_true ha, Bool.or_true] at hfree
          cases hfree
        have hsa : s₂.td a = s.td a := by rw [htd, Function.update_of_ne hat]
        rw [← hsa]
        exact hang_same s₂ td_list t a
      have hnew : SameTD v ((hang s₂ td_list t).td t) := by
        have hvt : s₂.td t = v := by rw [htd, Function.update_self]
        rw [← hvt]
        exact hang_same s₂ td_list t t
      have hfill : Filled (hang s₂ td_list t) ed info t (buff, xfer_len) :=
        SameTD.trans (by rw [hv, hzero]; exact ⟨rfl, rfl, rfl, rfl, rfl⟩) hnew
      have hstep : bulkLoop u ed info (n + 1) s buff data_len td_list =
          if 0 < data_len - xfer_len then
            bulkLoop u ed info n (hang s₂ td_list t) (buff + xfer_len) (data_len - xfer_len)
              (some (td_list.getD t))
          else (true, hang s₂ td_list t, some (td_list.getD t)) := by
        rw [bulkLoop, hx, halloc]
        cases td_list with
        | none => rfl
        | some b => rfl
      rw [hstep, chunks, hx]
      by_cases hmore : 0 < data_len - xfer_len
      · -- the rest of the buffer goes into the TDs after `t`
        obtain ⟨ok, s', td_list', l', heq, hb, hcnt, hchunks⟩ := ih _ (buff + xfer_len)
          (data_len - xfer_len) _ _ happ
        refine ⟨ok, s', td_list', t :: l', by rw [if_pos hmore, heq], ⟨?_, ?_, ?_, hb.short⟩, ?_, ?_⟩
        · simpa using hb.building
        · exact fun a ha => (hsame a ha).trans (hb.same a (List.mem_append_left _ ha))
        · intro a ha
          rcases List.mem_cons.mp ha with rfl | ha
          · rw [(hb.same a (by simp)).ed, hnew.ed]
          · exact hb.ed a ha
        · rw [hcnt, hang_utr, hutr₂]
          simp only [List.length_cons, Nat.cast_add, Nat.cast_one]
          congr 1
          ring
        · intro hok
          rw [if_pos hmore]
          exact .cons (SameTD.trans hfill (hb.same t (by simp))) (hchunks hok)
      · refine ⟨true, hang s₂ td_list t, some (td_list.getD t), [t], by rw [if_neg hmore],
          ⟨happ, hsame, ?_, by simp⟩, ?_, ?_⟩
        · intro a ha
          obtain rfl := List.mem_singleton.mp ha
          rw [hnew.ed]
        · rw [hang_utr, hutr₂]
          rfl
        · intro _
          rw [if_neg hmore]
          exact .cons hfill .nil

/-- With enough units the loop gets through. -/
theorem bulkLoop_ok (u ed : ℕ) (info : BitVec 32) : ∀ (n : ℕ) (s : State) (buff data_len : BitVec 32)
    (td_list : Option ℕ), (chunks n buff data_len).length ≤ s.free →
    (bulkLoop u ed info n s buff data_len td_list).1 = true := by
  intro n
  induction n with
  | zero => exact fun _ _ _ _ _ => rfl
  | succ n ih =>
    intro s buff data_len td_list hle
    rw [chunks, List.length_cons] at hle
    rw [bulkLoop]
    cases halloc : alloc_ohci_TD s (some u) with
    | mk o s₁ =>
    cases o with
    | none =>
      have hzero := free_eq_zero_iff.mpr (alloc_ohci_TD_eq_none halloc).1
      omega
    | some t =>
      obtain ⟨ht, hfree, hs₁⟩ := alloc_ohci_TD_eq_some halloc
      have hone : s₁.free + 1 = s.free := free_succ ht hfree (by rw [hs₁])
      dsimp only
      generalize (if 4096 < data_len then 4096 else data_len) = xfer_len at hle ⊢
      by_cases hmore : 0 < data_len - xfer_len
      · rw [if_pos hmore] at hle ⊢
        refine ih _ _ _ _ (Nat.le_trans (Nat.le_of_succ_le_succ (hle.trans_eq hone.symm)) (le_of_eq ?_))
        cases td_list with
        | none => rfl
        | some b => rfl
      · rw [if_neg hmore]

/-- The TDs of a list are given back. -/
theorem freeTDs_eq : ∀ {l : List ℕ} {n : ℕ} {s : State} {h : Option ℕ}, Links s.NextTD h l none →
    l.length ≤ n → l.Nodup → (∀ t ∈ l, s.unit_used t = true) → freeTDs n s h = { s with
      unit_used := fun t => s.unit_used t && decide (t ∉ l)
      events := s.events ++ l.map fun t => .free_ohci_TD t true } := by
  intro l
  induction l with
  | nil =>
    intro n s h hl _ _ _
    obtain rfl : h = none := hl
    cases n with
    | zero => simp [freeTDs]
    | succ n => simp [freeTDs]
  | cons a l ih =>
    intro n s h hl hn hd hu
    obtain ⟨rfl, hl⟩ := hl
    obtain ⟨hal, hd⟩ := List.nodup_cons.mp hd
    obtain ⟨n, rfl⟩ := Nat.exists_eq_succ_of_ne_zero (Nat.ne_of_gt (Nat.zero_lt_of_lt hn))
    have hfree : free_ohci_TD s (some a) = { s with
        unit_used := Function.update s.unit_used a false
        events := s.events ++ [.free_ohci_TD a true] } := by
      rw [free_ohci_TD, hu a List.mem_cons_self]
    have hu' : ∀ t ∈ l, Function.update s.unit_used a false t = true := by
      intro t ht
      rw [Function.update_of_ne fun hta : t = a => hal (hta ▸ ht)]
      exact hu t (List.mem_cons_of_mem a ht)
    have hused : (fun t => Function.update s.unit_used a false t && decide (t ∉ l)) =
        fun t => s.unit_used t && decide (t ∉ a :: l) := by
      funext t
      by_cases hta : t = a
      · subst hta
        simp
      · simp [hta]
    rw [freeTDs, hfree]
    refine (ih (s := { s with
      unit_used := Function.update s.unit_used a false
      events := s.events ++ [.free_ohci_TD a true] }) hl (Nat.le_of_succ_le_succ hn) hd hu').trans ?_
    rw [hused, List.map_cons, List.append_assoc, List.singleton_append]

end Ohci
