/-
The acceptance filters of the CAN driver.

`RT_CAN_CMD_SET_FILTER` writes filter elements; a command that opens the module again
clears them, an extended element gets identifier and mask the other way round, and an
element past the list stays what it was.

* `setFilters_programs` — the elements the loop writes, and those it leaves alone;
* `nu_canfd_control_opens` — what the other commands do to the filters;
* `filters_right` — the filters mean the list as long as no command runs into one of
  the three.
-/
import NuMaker.Canfd.Driver

namespace Canfd

/-! ### The filters of the hardware -/

/-- What an element of type `ft` (range, dual, classic) compares. -/
def typeHits {w : ℕ} (ft : ℕ) (id1 id2 rx : BitVec w) : Bool :=
  match ft with
  | 0 => id1 ≤ rx && rx ≤ id2
  | 1 => rx = id1 || rx = id2
  | 2 => (rx ^^^ id1) &&& id2 = 0
  | _ => false

/-- Type 3 of a standard filter is off; the configuration 7 compares `SFID1` only. -/
def CANFD_SID_FILTER_T.hits (f : CANFD_SID_FILTER_T) (rx : BitVec 11) : Bool :=
  if f.SFEC = 7 then rx = f.SFID1 else typeHits f.SFT.toNat f.SFID1 f.SFID2 rx

/-- Type 3 of an extended filter is a range, too. -/
def CANFD_XID_FILTER_T.hits (f : CANFD_XID_FILTER_T) (rx : BitVec 29) : Bool :=
  if f.EFEC = 7 then rx = f.EFID1 else typeHits (f.EFT.toNat % 3) f.EFID1 f.EFID2 rx

/-- The configurations that store the frame. -/
def stores (ec : BitVec 3) : Bool := ec = 1 || ec = 2 || ec = 5 || ec = 6 || ec = 7

/-- The first of `n` elements that is not off and hits decides. -/
def accepts (n : ℕ) (ec : ℕ → BitVec 3) (hits : ℕ → Bool) : Bool :=
  match (List.range n).find? fun j => ec j ≠ 0 && hits j with
  | some j => stores (ec j)
  | none => false

/-- `LSS`: the standard filters in use. -/
def Port.LSS (σ : Port) : ℕ := field σ.ctl.SIDFC 16 8

/-- `LSE`: the extended filters in use. -/
def Port.LSE (σ : Port) : ℕ := field σ.ctl.XIDFC 16 7

def Port.sidElem (σ : Port) (j : ℕ) : CANFD_SID_FILTER_T :=
  .ofWord (σ.ram (σ.elemAddr .sid sizeofSidFilter j))

def Port.xidElem (σ : Port) (j : ℕ) : CANFD_XID_FILTER_T :=
  .ofWords (σ.ram (σ.elemAddr .xid sizeofXidFilter j)) (σ.ram (σ.elemAddr .xid sizeofXidFilter j + 1))

def Port.acceptsStd (σ : Port) (rx : BitVec 11) : Bool :=
  accepts σ.LSS (fun j => (σ.sidElem j).SFEC) fun j => (σ.sidElem j).hits rx

def Port.acceptsExt (σ : Port) (rx : BitVec 29) : Bool :=
  accepts σ.LSE (fun j => (σ.xidElem j).EFEC) fun j => (σ.xidElem j).hits rx

/-- When every element that is not off stores, the order does not matter. -/
theorem accepts_iff {n : ℕ} {ec : ℕ → BitVec 3} {hits : ℕ → Bool}
    (h : ∀ j < n, ec j ≠ 0 → stores (ec j) = true) :
    accepts n ec hits = true ↔ ∃ j < n, ec j ≠ 0 ∧ hits j = true := by
  rw [accepts]
  cases hf : (List.range n).find? fun j => ec j ≠ 0 && hits j with
  | none =>
    rw [List.find?_eq_none] at hf
    refine iff_of_false Bool.false_ne_true ?_
    rintro ⟨j, hj, hec, hhit⟩
    exact hf j (List.mem_range.mpr hj) (Bool.and_eq_true_iff.mpr ⟨decide_eq_true hec, hhit⟩)
  | some j =>
    have hj := List.mem_range.mp (List.mem_of_find?_eq_some hf)
    have hp := List.find?_some hf
    simp only [ne_eq, Bool.and_eq_true, decide_eq_true_eq] at hp
    exact iff_of_true (h j hj hp.1) ⟨j, hj, hp.1, hp.2⟩

/-! ### What a filter list means -/

/-- A received identifier matches an item. -/
def rt_can_filter_item.Matches (item : rt_can_filter_item) (rx : BitVec 32) : Prop :=
  (rx ^^^ item.id.setWidth 32) &&& item.mask = 0

/-- The filters accept what some item of the kind matches, for both kinds. -/
structure Right (σ : Port) (items : List rt_can_filter_item) : Prop where
  std : ∀ rx : BitVec 11, σ.acceptsStd rx = true ↔
    ∃ item ∈ items, item.ide = RT_CAN_STDID ∧ item.Matches (rx.setWidth 32)
  ext : ∀ rx : BitVec 29, σ.acceptsExt rx = true ↔
    ∃ item ∈ items, item.ide ≠ RT_CAN_STDID ∧ item.Matches (rx.setWidth 32)

theorem FEC_cases (item : rt_can_filter_item) : item.FEC = 5 ∨ item.FEC = 1 := by
  rw [rt_can_filter_item.FEC]
  split
  · exact Or.inl rfl
  · exact Or.inr rfl

theorem FEC_ne_zero (item : rt_can_filter_item) : item.FEC ≠ 0 := by
  rcases FEC_cases item with h | h <;> rw [h] <;> decide

theorem FEC_ne_seven (item : rt_can_filter_item) : item.FEC ≠ 7 := by
  rcases FEC_cases item with h | h <;> rw [h] <;> decide

theorem stores_FEC (item : rt_can_filter_item) : stores item.FEC = true := by
  rcases FEC_cases item with h | h <;> rw [h] <;> decide

/-- A standard element means its item unless the item asks for a bit that a standard
identifier does not have. -/
theorem sStdFilter_hits {item : rt_can_filter_item}
    (h : (item.id.setWidth 32 &&& item.mask).toNat < 2 ^ 11) (rx : BitVec 11) :
    item.sStdFilter.hits rx = true ↔ item.Matches (rx.setWidth 32) := by
  have hhits : item.sStdFilter.hits rx = true ↔
      (rx ^^^ item.id.setWidth 11) &&& item.mask.setWidth 11 = 0 := by
    show (if item.FEC = 7 then _ else decide _) = true ↔ _
    rw [if_neg (FEC_ne_seven item), decide_eq_true_eq]
    rfl
  have hhigh : ∀ i, 11 ≤ i → (item.id.setWidth 32 &&& item.mask).getLsbD i = false := fun i hi =>
    Nat.testBit_lt_two_pow (lt_of_lt_of_le h (Nat.pow_le_pow_right (by decide) hi))
  rw [hhits, rt_can_filter_item.Matches]
  constructor
  · intro h0
    refine BitVec.eq_of_getLsbD_eq fun i hi => ?_
    by_cases hlow : i < 11
    · have := congrArg (fun x : BitVec 11 => x.getLsbD i) h0
      simpa [hlow, hi] using this
    · have := hhigh i (by omega)
      simpa [hlow, hi, show rx.getLsbD i = false from BitVec.getLsbD_of_ge _ _ (by omega)] using this
  · intro h0
    refine BitVec.eq_of_getLsbD_eq fun i hi => ?_
    have := congrArg (fun x : BitVec 32 => x.getLsbD i) h0
    simpa [hi, show i < 32 by omega] using this

/-- An extended element means its item when the identifier is the mask. -/
theorem sXidFilter_hits {item : rt_can_filter_item} (h : item.id = item.mask.setWidth 29)
    (rx : BitVec 29) : item.sXidFilter.hits rx = true ↔ item.Matches (rx.setWidth 32) := by
  have hhits : item.sXidFilter.hits rx = true ↔
      (rx ^^^ item.mask.setWidth 29) &&& item.id = 0 := by
    show (if item.FEC = 7 then _ else decide _) = true ↔ _
    rw [if_neg (FEC_ne_seven item), decide_eq_true_eq]
    rfl
  rw [hhits, rt_can_filter_item.Matches]
  obtain ⟨id, ide, mode, mask⟩ := item
  change id = mask.setWidth 29 at h
  subst h
  constructor
  · intro h0
    refine BitVec.eq_of_getLsbD_eq fun i hi => ?_
    by_cases hlow : i < 29
    · have := congrArg (fun x : BitVec 29 => x.getLsbD i) h0
      simpa [hlow, hi] using this
    · simp [hlow, show rx.getLsbD i = false from BitVec.getLsbD_of_ge _ _ (by omega)]
  · intro h0
    refine BitVec.eq_of_getLsbD_eq fun i hi => ?_
    have := congrArg (fun x : BitVec 32 => x.getLsbD i) h0
    simpa [hi, show i < 32 by omega] using this

/-! ### Writing the elements -/

/-- The layout `nu_canfd_configure` opens the module with, for the filters: sixteen
elements of each kind, the standard ones first. -/
structure Port.InUse (σ : Port) : Prop where
  sid : σ.ctl.SIDFC = 0x100000
  xid : σ.ctl.XIDFC = 0x100040

section InUse

variable {σ : Port}

theorem Port.InUse.LSS (h : σ.InUse) : σ.LSS = 16 := by
  rw [Port.LSS, h.sid]
  rfl

theorem Port.InUse.LSE (h : σ.InUse) : σ.LSE = 16 := by
  rw [Port.LSE, h.xid]
  rfl

theorem Port.InUse.sidAddr (h : σ.InUse) (j : ℕ) : σ.elemAddr .sid sizeofSidFilter j = j := by
  have h0 : σ.ctl.start .sid = 0 := by
    rw [Ctl.start, h.sid]
    rfl
  rw [Port.elemAddr, h0, Nat.zero_add]
  exact Nat.mul_one j

theorem Port.InUse.xidAddr (h : σ.InUse) (j : ℕ) :
    σ.elemAddr .xid sizeofXidFilter j = 16 + j * 2 := by
  have h0 : σ.ctl.start .xid = 16 := by
    rw [Ctl.start, h.xid]
    rfl
  rw [Port.elemAddr, h0]
  rfl

theorem Port.InUse.sidElem (h : σ.InUse) (j : ℕ) : σ.sidElem j = .ofWord (σ.ram j) := by
  rw [Port.sidElem, h.sidAddr]

theorem Port.InUse.xidElem (h : σ.InUse) (j : ℕ) :
    σ.xidElem j = .ofWords (σ.ram (16 + j * 2)) (σ.ram (16 + j * 2 + 1)) := by
  rw [Port.xidElem, h.xidAddr]

end InUse

/-- The elements `σ'` has from `items`, written from index `i` on, over those of `σ`. -/
structure Programs (items : List rt_can_filter_item) (i : ℕ) (σ σ' : Port) : Prop where
  ctl : σ'.ctl = σ.ctl
  std : ∀ k item, items[k]? = some item → item.ide = RT_CAN_STDID →
    σ'.sidElem (i + k) = item.sStdFilter
  ext : ∀ k item, items[k]? = some item → item.ide ≠ RT_CAN_STDID →
    σ'.xidElem (i + k) = item.sXidFilter
  stdLeft : ∀ j < 16, (∀ k item, items[k]? = some item → item.ide = RT_CAN_STDID → j ≠ i + k) →
    σ'.sidElem j = σ.sidElem j
  extLeft : ∀ j < 16, (∀ k item, items[k]? = some item → item.ide ≠ RT_CAN_STDID → j ≠ i + k) →
    σ'.xidElem j = σ.xidElem j

theorem programs_nil (i : ℕ) (σ : Port) : Programs [] i σ σ := by
  constructor <;> simp

section Transfer

variable {σ : Port} {i : ℕ}

theorem CANFD_Transfer_SID_programs (hu : σ.InUse) (hi : i < 16) {item : rt_can_filter_item}
    (hide : item.ide = RT_CAN_STDID) :
    Programs [item] i σ (CANFD_Transfer_SID σ item.sStdFilter i).2 := by
  have hmax : ¬ i ≥ CANFD_MAX_11_BIT_FTR_ELEMS := by
    rw [CANFD_MAX_11_BIT_FTR_ELEMS]
    omega
  rw [CANFD_Transfer_SID, if_neg hmax]
  simp only [hu.sidAddr]
  set σ' : Port := { σ with ram := putWords σ.ram i 1 fun _ => item.sStdFilter.word } with hσ'
  have hu' : σ'.InUse := ⟨hu.sid, hu.xid⟩
  have hram : ∀ j, j ≠ i → σ'.ram j = σ.ram j := fun j hj => if_neg (by omega)
  constructor
  · rfl
  · intro k it hk _
    obtain ⟨rfl, rfl⟩ : k = 0 ∧ item = it := by
      cases k with
      | zero => simpa using hk
      | succ k => simp at hk
    have hword : σ'.ram (i + 0) = item.sStdFilter.word := if_pos (by omega)
    rw [hu'.sidElem, hword, CANFD_SID_FILTER_T.ofWord_word]
  · intro k it hk hne
    obtain ⟨rfl, rfl⟩ : k = 0 ∧ item = it := by
      cases k with
      | zero => simpa using hk
      | succ k => simp at hk
    exact absurd hide hne
  · intro j _ hj
    rw [hu'.sidElem, hu.sidElem, hram j (hj 0 item rfl hide)]
  · intro j _ _
    -- the extended elements lie above the sixteen standard ones
    rw [hu'.xidElem, hu.xidElem, hram _ (by omega), hram _ (by omega)]

theorem CANFD_Transfer_XID_programs (hu : σ.InUse) (hi : i < 16) {item : rt_can_filter_item}
    (hide : item.ide ≠ RT_CAN_STDID) :
    Programs [item] i σ (CANFD_Transfer_XID σ item.sXidFilter i).2 := by
  have hmax : ¬ i ≥ CANFD_MAX_29_BIT_FTR_ELEMS := by
    rw [CANFD_MAX_29_BIT_FTR_ELEMS]
    omega
  rw [CANFD_Transfer_XID, if_neg hmax]
  simp only [hu.xidAddr]
  set σ' : Port := { σ with ram := putWords σ.ram (16 + i * 2) 2 fun k =>
    if k = 0 then item.sXidFilter.word0 else item.sXidFilter.word1 } with hσ'
  have hu' : σ'.InUse := ⟨hu.sid, hu.xid⟩
  have hram : ∀ j, j ≠ 16 + i * 2 → j ≠ 16 + i * 2 + 1 → σ'.ram j = σ.ram j :=
    fun j h0 h1 => if_neg (by omega)
  constructor
  · rfl
  · intro k it hk hne
    obtain ⟨rfl, rfl⟩ : k = 0 ∧ item = it := by
      cases k with
      | zero => simpa using hk
      | succ k => simp at hk
    exact absurd hne hide
  · intro k it hk _
    obtain ⟨rfl, rfl⟩ : k = 0 ∧ item = it := by
      cases k with
      | zero => simpa using hk
      | succ k => simp at hk
    have h0 : σ'.ram (16 + (i + 0) * 2) = item.sXidFilter.word0 := by
      refine (if_pos (by omega)).trans (if_pos ?_)
      omega
    have h1 : σ'.ram (16 + (i + 0) * 2 + 1) = item.sXidFilter.word1 := by
      refine (if_pos (by omega)).trans (if_neg ?_)
      omega
    rw [hu'.xidElem, h0, h1, CANFD_XID_FILTER_T.ofWords_words]
  · intro j hj _
    rw [hu'.sidElem, hu.sidElem, hram j (by omega) (by omega)]
  · intro j _ hj
    have hne := hj 0 item rfl hide
    rw [hu'.xidElem, hu.xidElem, hram _ (by omega) (by omega), hram _ (by omega) (by omega)]

end Transfer

/-- One item, then the rest. -/
theorem Programs.cons {item : rt_can_filter_item} {items : List rt_can_filter_item} {i : ℕ}
    {σ σ₁ σ₂ : Port} (hi : i + items.length < 16) (h₁ : Programs [item] i σ σ₁)
    (h₂ : Programs items (i + 1) σ₁ σ₂) : Programs (item :: items) i σ σ₂ := by
  have hlen : ∀ {k it}, items[k]? = some it → k < items.length := fun {k it} h =>
    (List.getElem?_eq_some_iff.mp h).1
  constructor
  · rw [h₂.ctl, h₁.ctl]
  · intro k it hk hide
    cases k with
    | zero =>
      rw [h₂.stdLeft (i + 0) (by omega) (fun k _ _ _ => by omega)]
      exact h₁.std 0 it (by simpa using hk) hide
    | succ k =>
      rw [show i + (k + 1) = i + 1 + k by omega]
      exact h₂.std k it (by simpa using hk) hide
  · intro k it hk hide
    cases k with
    | zero =>
      rw [h₂.extLeft (i + 0) (by omega) (fun k _ _ _ => by omega)]
      exact h₁.ext 0 it (by simpa using hk) hide
    | succ k =>
      rw [show i + (k + 1) = i + 1 + k by omega]
      exact h₂.ext k it (by simpa using hk) hide
  · intro j hj hfree
    rw [h₂.stdLeft j hj (fun k it hk hide => by
      have := hfree (k + 1) it (by simpa using hk) hide
      omega)]
    refine h₁.stdLeft j hj fun k it hk hide => ?_
    cases k with
    | zero => exact hfree 0 it (by simpa using hk) hide
    | succ k => simp at hk
  · intro j hj hfree
    rw [h₂.extLeft j hj (fun k it hk hide => by
      have := hfree (k + 1) it (by simpa using hk) hide
      omega)]
    refine h₁.extLeft j hj fun k it hk hide => ?_
    cases k with
    | zero => exact hfree 0 it (by simpa using hk) hide
    | succ k => simp at hk

/-- The loop writes its items to the elements from `i` on and leaves the others alone. -/
theorem setFilters_programs : ∀ (items : List rt_can_filter_item) (i : ℕ) (σ : Port), σ.InUse →
    i + items.length ≤ 16 → Programs items i σ (setFilters items i σ).2 := by
  intro items
  induction items with
  | nil =>
    intro i σ _ _
    exact programs_nil i σ
  | cons item items ih =>
    intro i σ hu hlen
    rw [List.length_cons] at hlen
    have hi : i < 16 := by omega
    rw [setFilters]
    by_cases hide : item.ide = RT_CAN_STDID
    · have hmax : ¬ i ≥ CANFD_MAX_11_BIT_FTR_ELEMS := by
        rw [CANFD_MAX_11_BIT_FTR_ELEMS]
        omega
      rw [if_pos hide, if_neg hmax]
      have h₁ := CANFD_Transfer_SID_programs hu hi hide
      refine h₁.cons (by omega) (ih _ _ ⟨?_, ?_⟩ (by omega))
      · rw [h₁.ctl, hu.sid]
      · rw [h₁.ctl, hu.xid]
    · have hmax : ¬ i ≥ CANFD_MAX_29_BIT_FTR_ELEMS := by
        rw [CANFD_MAX_29_BIT_FTR_ELEMS]
        omega
      rw [if_neg hide, if_neg hmax]
      have h₁ := CANFD_Transfer_XID_programs hu hi hide
      refine h₁.cons (by omega) (ih _ _ ⟨?_, ?_⟩ (by omega))
      · rw [h₁.ctl, hu.sid]
      · rw [h₁.ctl, hu.xid]

/-- What `RT_CAN_CMD_SET_FILTER` needs: an element in use for every item, items that an
element can express, and nothing left of earlier filters. -/
structure Settable (σ : Port) (items : List rt_can_filter_item) : Prop where
  stdCount : items.length ≤ σ.LSS
  extCount : items.length ≤ σ.LSE
  stdId : ∀ item ∈ items, item.ide = RT_CAN_STDID →
    (item.id.setWidth 32 &&& item.mask).toNat < 2 ^ 11
  extId : ∀ item ∈ items, item.ide ≠ RT_CAN_STDID → item.id = item.mask.setWidth 29
  stdLeft : ∀ j < σ.LSS, (σ.sidElem j).SFEC ≠ 0 →
    ∃ item, items[j]? = some item ∧ item.ide = RT_CAN_STDID
  extLeft : ∀ j < σ.LSE, (σ.xidElem j).EFEC ≠ 0 →
    ∃ item, items[j]? = some item ∧ item.ide ≠ RT_CAN_STDID

/-- A list that fits is what the filters mean afterwards. -/
theorem right_of_programs {σ σ' : Port} {items : List rt_can_filter_item} (hu : σ.InUse)
    (hp : Programs items 0 σ σ') (hfit : Settable σ items) : Right σ' items := by
  have hu' : σ'.InUse := ⟨hp.ctl ▸ hu.sid, hp.ctl ▸ hu.xid⟩
  have hlen : items.length ≤ 16 := hu.LSS ▸ hfit.stdCount
  -- an element in use is off or one of the list
  have hstd : ∀ j < 16, (σ'.sidElem j).SFEC ≠ 0 →
      ∃ item, items[j]? = some item ∧ item.ide = RT_CAN_STDID ∧ σ'.sidElem j = item.sStdFilter := by
    intro j hj hec
    by_cases h : ∃ item, items[j]? = some item ∧ item.ide = RT_CAN_STDID
    · obtain ⟨item, hk, hide⟩ := h
      exact ⟨item, hk, hide, by simpa using hp.std j item hk hide⟩
    · have hsame := hp.stdLeft j hj fun k item hk hide hjk => h ⟨item, by simpa [hjk] using hk, hide⟩
      rw [hsame] at hec
      exact absurd (hfit.stdLeft j (hu.LSS ▸ hj) hec) h
  have hext : ∀ j < 16, (σ'.xidElem j).EFEC ≠ 0 →
      ∃ item, items[j]? = some item ∧ item.ide ≠ RT_CAN_STDID ∧ σ'.xidElem j = item.sXidFilter := by
    intro j hj hec
    by_cases h : ∃ item, items[j]? = some item ∧ item.ide ≠ RT_CAN_STDID
    · obtain ⟨item, hk, hide⟩ := h
      exact ⟨item, hk, hide, by simpa using hp.ext j item hk hide⟩
    · have hsame := hp.extLeft j hj fun k item hk hide hjk => h ⟨item, by simpa [hjk] using hk, hide⟩
      rw [hsame] at hec
      exact absurd (hfit.extLeft j (hu.LSE ▸ hj) hec) h
  constructor
  · intro rx
    rw [Port.acceptsStd, hu'.LSS, accepts_iff]
    · constructor
      · rintro ⟨j, hj, hec, hhit⟩
        obtain ⟨item, hk, hide, helem⟩ := hstd j hj hec
        have hmem := List.mem_of_getElem? hk
        rw [helem] at hhit
        exact ⟨item, hmem, hide, (sStdFilter_hits (hfit.stdId item hmem hide) rx).mp hhit⟩
      · rintro ⟨item, hmem, hide, hmatch⟩
        obtain ⟨j, hjlen, hj⟩ := List.getElem_of_mem hmem
        have hk : items[j]? = some item := by rw [List.getElem?_eq_getElem hjlen, hj]
        have helem : σ'.sidElem j = item.sStdFilter := by simpa using hp.std j item hk hide
        rw [← sStdFilter_hits (hfit.stdId item hmem hide)] at hmatch
        exact ⟨j, by omega, helem ▸ FEC_ne_zero item, helem ▸ hmatch⟩
    · intro j hj hec
      obtain ⟨item, -, -, helem⟩ := hstd j hj hec
      rw [helem]
      exact stores_FEC item
  · intro rx
    rw [Port.acceptsExt, hu'.LSE, accepts_iff]
    · constructor
      · rintro ⟨j, hj, hec, hhit⟩
        obtain ⟨item, hk, hide, helem⟩ := hext j hj hec
        have hmem := List.mem_of_getElem? hk
        rw [helem] at hhit
        exact ⟨item, hmem, hide, (sXidFilter_hits (hfit.extId item hmem hide) rx).mp hhit⟩
      · rintro ⟨item, hmem, hide, hmatch⟩
        obtain ⟨j, hjlen, hj⟩ := List.getElem_of_mem hmem
        have hk : items[j]? = some item := by rw [List.getElem?_eq_getElem hjlen, hj]
        have helem : σ'.xidElem j = item.sXidFilter := by simpa using hp.ext j item hk hide
        rw [← sXidFilter_hits (hfit.extId item hmem hide)] at hmatch
        exact ⟨j, by omega, helem ▸ FEC_ne_zero item, helem ▸ hmatch⟩
    · intro j hj hec
      obtain ⟨item, -, -, helem⟩ := hext j hj hec
      rw [helem]
      exact stores_FEC item

/-- The two parts of `Right` only look at the elements in use. -/
theorem right_congr {σ σ' : Port} {items : List rt_can_filter_item} (hS : σ'.ctl.SIDFC = σ.ctl.SIDFC)
    (hX : σ'.ctl.XIDFC = σ.ctl.XIDFC) (hram : σ'.ram = σ.ram) (h : Right σ items) :
    Right σ' items := by
  have hs : σ'.acceptsStd = σ.acceptsStd := by
    funext rx
    simp only [Port.acceptsStd, Port.LSS, Port.sidElem, Port.elemAddr, Ctl.start, hS, hram]
  have hx : σ'.acceptsExt = σ.acceptsExt := by
    funext rx
    simp only [Port.acceptsExt, Port.LSE, Port.xidElem, Port.elemAddr, Ctl.start, hX, hram]
  exact ⟨hs ▸ h.std, hx ▸ h.ext⟩

/-- Filters that are all off accept nothing. -/
theorem right_nil {σ : Port} (hs : ∀ j < σ.LSS, (σ.sidElem j).SFEC = 0)
    (hx : ∀ j < σ.LSE, (σ.xidElem j).EFEC = 0) : Right σ [] := by
  constructor
  · intro rx
    rw [Port.acceptsStd, accepts_iff fun j hj hec => absurd (hs j hj) hec]
    constructor
    · rintro ⟨j, hj, hec, -⟩
      exact absurd (hs j hj) hec
    · rintro ⟨item, hmem, -⟩
      exact absurd hmem List.not_mem_nil
  · intro rx
    rw [Port.acceptsExt, accepts_iff fun j hj hec => absurd (hx j hj) hec]
    constructor
    · rintro ⟨j, hj, hec, -⟩
      exact absurd (hx j hj) hec
    · rintro ⟨item, hmem, -⟩
      exact absurd hmem List.not_mem_nil

/-! ### Opening the module -/

theorem CANFD_CalculateRamAddress_sixteen (part : CANFD_RAM_PART_T) (u : BitVec 32) :
    (CANFD_CalculateRamAddress part (sixteenElems u)).2.1 =
      ⟨0, 0x40, 0xC0, 0x540, 0x9C0, 0xE40, 0xEC0⟩ := by
  rw [CANFD_CalculateRamAddress, sixteenElems]
  simp

section Configure

variable (b : Build) (can : nu_canfd) (cfg : can_configure) (e : E_CANFD_TEST_MODE)

theorem driverConfig_elems : (driverConfig can cfg e).sElemSize = sixteenElems 1 := by rfl

theorem driverConfig_part :
    (driverConfig can cfg e).sMRamStartAddr = ⟨0, 0x40, 0xC0, 0x540, 0x9C0, 0xE40, 0xEC0⟩ :=
  CANFD_CalculateRamAddress_sixteen _ 1

theorem CANFD_Open_SIDFC (reset : Reset) (clocks : Clocks) (σ : Port) (m : Module) {c : CANFD_FD_T}
    (h : c.sElemSize = sixteenElems 1) : (CANFD_Open reset clocks σ m c).1.ctl.SIDFC =
      0x100000 ||| (c.sMRamStartAddr.u32SIDFC_FLSSA &&& CANFD_SIDFC_FLSSA_Msk) := by
  unfold CANFD_Open
  rw [h]
  generalize openTiming reset clocks σ m c = σ₀
  cases c.evTestMode <;> rfl

theorem CANFD_Open_XIDFC (reset : Reset) (clocks : Clocks) (σ : Port) (m : Module) {c : CANFD_FD_T}
    (h : c.sElemSize = sixteenElems 1) : (CANFD_Open reset clocks σ m c).1.ctl.XIDFC =
      0x100000 ||| (c.sMRamStartAddr.u32XIDFC_FLESA &&& CANFD_XIDFC_FLESA_Msk) := by
  unfold CANFD_Open
  rw [h]
  generalize openTiming reset clocks σ m c = σ₀
  cases c.evTestMode <;> rfl

/-- What of the module decides which frames pass. -/
structure SameFilters (σ σ' : Port) : Prop where
  sid : σ'.ctl.SIDFC = σ.ctl.SIDFC
  xid : σ'.ctl.XIDFC = σ.ctl.XIDFC
  ram : σ'.ram = σ.ram

theorem nu_canfd_ie_filters : SameFilters can.port (nu_canfd_ie can).port := by
  constructor
  · simp only [nu_canfd_ie, CANFD_EnableInt]
    split_ifs <;> rfl
  · simp only [nu_canfd_ie, CANFD_EnableInt]
    split_ifs <;> rfl
  · rfl

theorem openMode_filters :
    SameFilters (CANFD_Open b.reset b.clocks can.port can.base (driverConfig can cfg e)).1
      (openMode b can cfg e).port := by
  unfold openMode
  generalize CANFD_Open b.reset b.clocks can.port can.base (driverConfig can cfg e) = r
  simp only
  have hgfc : SameFilters r.1 (if b.RT_CAN_USING_HDR then
      CANFD_SetGFC r.1 eCANFD_REJ_NON_MATCH_FRM eCANFD_REJ_NON_MATCH_FRM 0 0
    else
      CANFD_SetGFC r.1 eCANFD_ACC_NON_MATCH_FRM_RX_FIFO0 eCANFD_ACC_NON_MATCH_FRM_RX_FIFO0 0 0) := by
    split
    · exact ⟨rfl, rfl, rfl⟩
    · exact ⟨rfl, rfl, rfl⟩
  generalize (if b.RT_CAN_USING_HDR then
      CANFD_SetGFC r.1 eCANFD_REJ_NON_MATCH_FRM eCANFD_REJ_NON_MATCH_FRM 0 0
    else
      CANFD_SetGFC r.1 eCANFD_ACC_NON_MATCH_FRM_RX_FIFO0 eCANFD_ACC_NON_MATCH_FRM_RX_FIFO0 0 0) = σ₁
    at hgfc ⊢
  have hie := nu_canfd_ie_filters { can with sCANFD_Config := r.2, port := σ₁ }
  exact ⟨hie.sid.trans hgfc.sid, hie.xid.trans hgfc.xid, hie.ram.trans hgfc.ram⟩

theorem openMode_inUse : (openMode b can cfg e).port.InUse := by
  have hf := openMode_filters b can cfg e
  constructor
  · rw [hf.sid, CANFD_Open_SIDFC _ _ _ _ (driverConfig_elems can cfg e), driverConfig_part]
    rfl
  · rw [hf.xid, CANFD_Open_XIDFC _ _ _ _ (driverConfig_elems can cfg e), driverConfig_part]
    rfl

/-- The start addresses of a module after `SYS_ResetModule` are 0. -/
def Build.ResetsStarts (b : Build) : Prop := ∀ r, ∀ p ∈ Part.fresh, (b.reset r).1.start p = 0

/-- After the reset the Rx buffers are cleared where the filters are going to be. -/
theorem openMode_ram_zero (hb : b.ResetsStarts) {i : ℕ} (hi : i < 288) :
    (openMode b can cfg e).port.ram i = 0 := by
  have hcover : Span.Cover (clearedSpans (afterReset b.reset can.port can.base)
      (driverConfig can cfg e).sMRamStartAddr (driverConfig can cfg e).sElemSize) i := by
    have hstart : (afterReset b.reset can.port can.base).start .rxBuf = 0 := hb _ .rxBuf (by decide)
    refine ⟨⟨0, 288⟩, ?_, Nat.zero_le i, by omega⟩
    rw [clearedSpans, hstart, driverConfig_elems]
    have hwords : clearWords (sixteenElems 1).u32RxBuf sizeofBuf = 288 := by decide
    rw [hwords]
    simp
  rw [(openMode_filters b can cfg e).ram, CANFD_Open_ram, fillAll_apply, if_pos hcover]

theorem openMode_right_nil (hb : b.ResetsStarts) : Right (openMode b can cfg e).port [] := by
  have hu := openMode_inUse b can cfg e
  refine right_nil ?_ ?_
  · intro j hj
    rw [hu.LSS] at hj
    rw [hu.sidElem, openMode_ram_zero b can cfg e hb (by omega)]
    rfl
  · intro j hj
    rw [hu.LSE] at hj
    rw [hu.xidElem, openMode_ram_zero b can cfg e hb (by omega),
      openMode_ram_zero b can cfg e hb (by omega)]
    rfl

/-- The modes `nu_canfd_configure` opens the module in. -/
def can_configure.Supported (cfg : can_configure) : Prop := cfg.mode ≤ RT_CAN_MODE_LOOPBACK

instance : Decidable cfg.Supported := inferInstanceAs (Decidable (_ ≤ _))

/-- `nu_canfd_configure` opens the module or leaves the filters alone. -/
theorem nu_canfd_configure_cases :
    (cfg.Supported ∧ ∃ e, (nu_canfd_configure b can cfg).2 = openMode b can cfg e) ∨
      (¬ cfg.Supported ∧ SameFilters can.port (nu_canfd_configure b can cfg).2.port) := by
  unfold nu_canfd_configure can_configure.Supported
  split_ifs with h0 h1 h2
  · exact Or.inl ⟨by rw [h0]; decide, _, rfl⟩
  · exact Or.inl ⟨by rw [h1]; decide, _, rfl⟩
  · exact Or.inl ⟨by rw [h2], _, rfl⟩
  · refine Or.inr ⟨?_, rfl, rfl, rfl⟩
    rw [RT_CAN_MODE_NORMAL] at h0
    rw [RT_CAN_MODE_LISTEN] at h1
    rw [RT_CAN_MODE_LOOPBACK] at h2 ⊢
    omega

end Configure

/-! ### Commands -/

/-- The commands that open the module again. -/
def Cmd.Reopens (can : nu_canfd) : Cmd → Prop
  | .SET_INT _ => can.config.Supported
  | .CLR_INT _ => can.config.Supported
  | .SET_FILTER _ => False
  | .SET_MODE argval => argval ≠ can.config.mode ∧ argval ≤ RT_CAN_MODE_LOOPBACK
  | .SET_BAUD argval => argval ∈ CANBAUD ∧ argval ≠ can.config.baud_rate ∧ can.config.Supported
  | .SET_PRIV argval =>
    (argval = 1 ∨ argval = 0) ∧ argval ≠ can.config.privmode ∧ can.config.Supported
  | .GET_STATUS => False
  | .CTRL_CONFIG cfg => cfg.Supported
  | .other => False

/-- Opened again, if `P`, or left alone. -/
def Opens (b : Build) (can can' : nu_canfd) (P : Prop) : Prop :=
  (P ∧ ∃ can₀ cfg e, can₀.port = can.port ∧ can' = openMode b can₀ cfg e) ∨
    (¬ P ∧ SameFilters can.port can'.port)

section Control

variable {b : Build} {can : nu_canfd}

theorem opens_same {P : Prop} (h : ¬ P) : Opens b can can P := Or.inr ⟨h, rfl, rfl, rfl⟩

theorem opens_configure {can₀ : nu_canfd} {cfg : can_configure} {P : Prop}
    (hport : can₀.port = can.port) (hP : P ↔ cfg.Supported) :
    Opens b can (nu_canfd_configure b can₀ cfg).2 P := by
  rcases nu_canfd_configure_cases b can₀ cfg with ⟨hs, e, he⟩ | ⟨hs, hf⟩
  · exact Or.inl ⟨hP.mpr hs, can₀, cfg, e, hport, he⟩
  · exact Or.inr ⟨fun h => hs (hP.mp h), hport ▸ hf⟩

/-- What a command that sets no filters does to them: it opens the module again, or
nothing. -/
theorem nu_canfd_control_opens {cmd : Cmd} (hcmd : ∀ items, cmd ≠ .SET_FILTER items) :
    Opens b can (nu_canfd_control b can cmd).2 (cmd.Reopens can) := by
  cases cmd with
  | SET_FILTER items => exact absurd rfl (hcmd items)
  | GET_STATUS => exact Or.inr ⟨id, rfl, rfl, rfl⟩
  | other => exact opens_same id
  | CTRL_CONFIG cfg => exact opens_configure rfl Iff.rfl
  | SET_INT argval => exact opens_configure rfl Iff.rfl
  | CLR_INT argval => exact opens_configure rfl Iff.rfl
  | SET_MODE argval =>
    unfold nu_canfd_control
    by_cases hvalid : argval = RT_CAN_MODE_NORMAL ∨ argval = RT_CAN_MODE_LISTEN ∨
        argval = RT_CAN_MODE_LOOPBACK ∨ argval = RT_CAN_MODE_LOOPBACKANLISTEN
    · by_cases hne : argval ≠ can.config.mode
      · simp only [hvalid, hne, ne_eq, not_false_eq_true, if_true]
        exact opens_configure rfl (and_iff_right hne)
      · simp only [hvalid, hne, if_true, if_false]
        exact opens_same fun h => hne h.1
    · simp only [hvalid, if_false]
      refine opens_same fun h => hvalid ?_
      have := h.2
      simp only [RT_CAN_MODE_NORMAL, RT_CAN_MODE_LISTEN, RT_CAN_MODE_LOOPBACK] at this ⊢
      omega
  | SET_BAUD argval =>
    unfold nu_canfd_control
    by_cases hvalid : argval ∈ CANBAUD
    · by_cases hne : argval ≠ can.config.baud_rate
      · simp only [hvalid, hne, ne_eq, not_false_eq_true, if_true]
        exact opens_configure rfl ((and_iff_right hvalid).trans (and_iff_right hne))
      · simp only [hvalid, hne, if_true, if_false]
        exact opens_same fun h => hne h.2.1
    · simp only [hvalid, if_false]
      exact opens_same fun h => hvalid h.1
  | SET_PRIV argval =>
    unfold nu_canfd_control
    by_cases hbad : argval ≠ 1 ∧ argval ≠ 0
    · simp only [hbad, ne_eq, not_false_eq_true, and_self, if_true]
      exact opens_same fun h => h.1.elim hbad.1 hbad.2
    · by_cases hne : argval ≠ can.config.privmode
      · simp only [hbad, hne, ne_eq, not_false_eq_true, if_true, if_false]
        have hvalid : argval = 1 ∨ argval = 0 := by omega
        exact opens_configure rfl ((and_iff_right hvalid).trans (and_iff_right hne))
      · simp only [hbad, hne, if_false]
        exact opens_same fun h => hne h.2.1

end Control

/-! ### Runs -/

/-- The driver, with the filter list it was given last. -/
structure Sys where
  can : nu_canfd
  given : Option (List rt_can_filter_item)

/-- The list the driver is to follow after a command. -/
def Cmd.given (before : Option (List rt_can_filter_item)) : Cmd → Option (List rt_can_filter_item)
  | .SET_FILTER items => some items
  | _ => before

def Sys.step (b : Build) (s : Sys) (cmd : Cmd) : Sys :=
  ⟨(nu_canfd_control b s.can cmd).2, cmd.given s.given⟩

/-- A command that keeps clear of the defects: a list that the elements in use can
express, and no opening of the module once there are filters. -/
def Sys.Admits (s : Sys) : Cmd → Prop
  | .SET_FILTER items => Settable s.can.port items
  | cmd => cmd.Reopens s.can → s.given = none ∨ s.given = some []

/-- The states of a run that starts with a module that is not open and in which every
command is admitted. -/
inductive Reach (b : Build) : Sys → Prop
  | boot (can : nu_canfd) (hs : can.port.LSS = 0) (hx : can.port.LSE = 0) : Reach b ⟨can, none⟩
  | step {s : Sys} (h : Reach b s) (cmd : Cmd) (hcmd : s.Admits cmd) : Reach b (s.step b cmd)

/-- The invariant of a run: no filter in use or the layout of `nu_canfd_configure`, and
filters that mean the list given. -/
structure Follows (s : Sys) : Prop where
  layout : (s.can.port.LSS = 0 ∧ s.can.port.LSE = 0) ∨ s.can.port.InUse
  right : ∀ items, s.given = some items → Right s.can.port items

/-- A list for a module with no filter in use is empty. -/
theorem Follows.setFilter_nil {b : Build} {s : Sys} {items : List rt_can_filter_item}
    (hb : b.RT_CAN_USING_HDR = true) (hs : s.can.port.LSS = 0) (hx : s.can.port.LSE = 0)
    (hfit : Settable s.can.port items) : Follows (s.step b (.SET_FILTER items)) := by
  obtain rfl : items = [] := List.length_eq_zero_iff.mp (Nat.le_zero.mp (hs ▸ hfit.stdCount))
  have hport : (s.step b (.SET_FILTER [])).can.port = s.can.port := by
    simp only [Sys.step, nu_canfd_control, hb, if_true, setFilters]
  constructor
  · rw [hport]
    exact Or.inl ⟨hs, hx⟩
  · rintro items ⟨⟩
    rw [hport]
    refine right_nil ?_ ?_
    · intro j hj
      omega
    · intro j hj
      omega

theorem Follows.step {b : Build} {s : Sys} {cmd : Cmd} (hb : b.RT_CAN_USING_HDR = true)
    (hreset : b.ResetsStarts) (h : Follows s) (hcmd : s.Admits cmd) : Follows (s.step b cmd) := by
  by_cases hset : ∃ items, cmd = .SET_FILTER items
  · obtain ⟨items, rfl⟩ := hset
    rcases h.layout with ⟨hs, hx⟩ | hu
    · exact Follows.setFilter_nil hb hs hx hcmd
    · have hlen : 0 + items.length ≤ 16 := (Nat.zero_add _).symm ▸ hu.LSS ▸ hcmd.stdCount
      have hp := setFilters_programs items 0 s.can.port hu hlen
      have hport : (s.step b (.SET_FILTER items)).can.port = (setFilters items 0 s.can.port).2 := by
        simp only [Sys.step, nu_canfd_control, hb, if_true]
      constructor
      · rw [hport]
        exact Or.inr ⟨hp.ctl ▸ hu.sid, hp.ctl ▸ hu.xid⟩
      · rintro items' ⟨⟩
        rw [hport]
        exact right_of_programs hu hp hcmd
  · have hne : ∀ items, cmd ≠ .SET_FILTER items := fun items hc => hset ⟨items, hc⟩
    have hgiven : (s.step b cmd).given = s.given := by
      cases cmd with
      | SET_FILTER items => exact absurd rfl (hne items)
      | _ => rfl
    have hadmits : cmd.Reopens s.can → s.given = none ∨ s.given = some [] := by
      cases cmd with
      | SET_FILTER items => exact absurd rfl (hne items)
      | _ => exact hcmd
    have hopens : Opens b s.can (nu_canfd_control b s.can cmd).2 (cmd.Reopens s.can) :=
      nu_canfd_control_opens hne
    rcases hopens with
      ⟨hre, can₀, cfg, e, -, hopen⟩ | ⟨-, hf⟩
    · have hport : (s.step b cmd).can.port = (openMode b can₀ cfg e).port := congrArg (·.port) hopen
      constructor
      · rw [hport]
        exact Or.inr (openMode_inUse b can₀ cfg e)
      · intro items hitems
        rw [hgiven] at hitems
        -- the filters are cleared, so the list given must have been empty
        have hnil : items = [] := by
          rcases hadmits hre with hg | hg
          · rw [hg] at hitems
            cases hitems
          · rw [hg] at hitems
            exact (Option.some.inj hitems).symm
        rw [hport, hnil]
        exact openMode_right_nil b can₀ cfg e hreset
    · constructor
      · rcases h.layout with ⟨hs, hx⟩ | hu
        · refine Or.inl ⟨?_, ?_⟩
          · rw [← hs]
            exact congrArg (field · 16 8) hf.sid
          · rw [← hx]
            exact congrArg (field · 16 7) hf.xid
        · exact Or.inr ⟨hf.sid.trans hu.sid, hf.xid.trans hu.xid⟩
      · intro items hitems
        rw [hgiven] at hitems
        exact right_congr hf.sid hf.xid hf.ram (h.right items hitems)

theorem Reach.follows {b : Build} {s : Sys} (hb : b.RT_CAN_USING_HDR = true)
    (hreset : b.ResetsStarts) (h : Reach b s) : Follows s := by
  induction h with
  | boot can hs hx => exact ⟨Or.inl ⟨hs, hx⟩, fun items hitems => by cases hitems⟩
  | step _ cmd hcmd ih => exact ih.step hb hreset hcmd

/-- **Filters that mean their list**: in every state of a run of admitted commands the
filters accept an identifier exactly when an item of the last list matches it. -/
theorem filters_right {b : Build} (hb : b.RT_CAN_USING_HDR = true) (hreset : b.ResetsStarts) {s : Sys}
    (h : Reach b s) {items : List rt_can_filter_item} (hitems : s.given = some items) :
    Right s.can.port items :=
  (h.follows hb hreset).right items hitems

/-- A board whose reset clears every register. -/
def plainBuild : Build := ⟨true, false, fun _ => (.zero, ⟨1, 0, 0⟩), ⟨0, 12000000, 72000000⟩⟩

/-- The driver before its module is opened. -/
def unopened : nu_canfd where
  base := .CANFD0
  int_flag := 0
  sCANFD_Config := defaultConfig
  config := ⟨CAN1MBaud, RT_CAN_MODE_NORMAL, 0⟩
  status := ⟨0, 0, 0, 0⟩
  hdr := fun _ => false
  port := powerOn

theorem Ctl.zero_start (p : Part) : Ctl.zero.start p = 0 := by
  cases p <;> decide

theorem plainBuild_resetsStarts : plainBuild.ResetsStarts := fun _ p _ => Ctl.zero_start p

/-- The module is opened, filters for 0x123 of both kinds are set and the mode is set
to what it is. -/
theorem filters_right_one_of_each :
    Right ((((⟨unopened, none⟩ : Sys).step plainBuild (.CTRL_CONFIG unopened.config)).step plainBuild
      (.SET_FILTER [⟨0x123, 0, 0, 0x7FF⟩, ⟨0x123, 1, 0, 0x123⟩])).step plainBuild
        (.SET_MODE RT_CAN_MODE_NORMAL)).can.port [⟨0x123, 0, 0, 0x7FF⟩, ⟨0x123, 1, 0, 0x123⟩] := by
  have hu := openMode_inUse plainBuild unopened unopened.config .eCANFD_NORMAL
  have hzero := fun {i} => @openMode_ram_zero plainBuild unopened unopened.config .eCANFD_NORMAL
    plainBuild_resetsStarts i
  have hopen : (⟨unopened, none⟩ : Sys).Admits (.CTRL_CONFIG unopened.config) := fun _ => Or.inl rfl
  refine filters_right rfl plainBuild_resetsStarts (Reach.step (Reach.step (Reach.step
    (Reach.boot unopened (by decide) (by decide)) _ hopen) _ ?_) _ ?_) rfl
  · show Settable (openMode plainBuild unopened unopened.config .eCANFD_NORMAL).port _
    constructor
    · rw [hu.LSS]
      decide
    · rw [hu.LSE]
      decide
    · decide
    · decide
    · intro j hj hec
      rw [hu.LSS] at hj
      rw [hu.sidElem, hzero (by omega)] at hec
      exact absurd rfl hec
    · intro j hj hec
      rw [hu.LSE] at hj
      rw [hu.xidElem, hzero (by omega), hzero (by omega)] at hec
      exact absurd rfl hec
  · intro hre
    exact absurd rfl hre.1

/-- A filter for the extended identifier 0x123 alone lets 0x1FFFFFFF in. -/
theorem filters_swapped :
    ¬ ∀ b : Build, b.RT_CAN_USING_HDR = true → b.ResetsStarts → ∀ can : nu_canfd,
      can.port.LSS = 0 → can.port.LSE = 0 → ∀ (cmds : List Cmd) (items : List rt_can_filter_item),
        (cmds.foldl (Sys.step b) ⟨can, none⟩).given = some items →
          Right (cmds.foldl (Sys.step b) ⟨can, none⟩).can.port items := by
  intro hall
  let item : rt_can_filter_item := ⟨0x123, 1, 0, 0x1FFFFFFF⟩
  let port := (openMode plainBuild unopened unopened.config .eCANFD_NORMAL).port
  have hright : Right (setFilters [item] 0 port).2 [item] :=
    hall plainBuild rfl plainBuild_resetsStarts unopened (by decide) (by decide)
      [.CTRL_CONFIG unopened.config, .SET_FILTER [item]] [item] rfl
  have hu := openMode_inUse plainBuild unopened unopened.config .eCANFD_NORMAL
  have hp := setFilters_programs [item] 0 port hu (by decide)
  have helem : (setFilters [item] 0 port).2.xidElem 0 = item.sXidFilter :=
    hp.ext 0 item rfl (by decide)
  have hLSE : (setFilters [item] 0 port).2.LSE = 16 := by
    rw [Port.LSE, hp.ctl]
    exact hu.LSE
  have haccept : (setFilters [item] 0 port).2.acceptsExt 0x1FFFFFFF = true := by
    rw [Port.acceptsExt, hLSE, accepts, show List.range 16 = 0 :: (List.range 15).map (· + 1) from rfl,
      List.find?_cons_of_pos]
    · show stores ((setFilters [item] 0 port).2.xidElem 0).EFEC = true
      rw [helem]
      decide
    · rw [helem]
      decide
  obtain ⟨it, hmem, -, hmatch⟩ := (hright.ext 0x1FFFFFFF).mp haccept
  obtain rfl := List.mem_singleton.mp hmem
  revert hmatch
  show ¬ _
  rw [rt_can_filter_item.Matches]
  decide

end Canfd
