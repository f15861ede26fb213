/-
The length of control and bulk transfers.

A request is split over TDs; the controller writes back how far it got in each, and
`td_done` adds up what each TD of the data stage moved and counts the TDs down.

* `transfer_accounted_iff` — whatever the controller writes back and in whatever order the
  TDs retire, the length is exact and the request calls back once, at the last TD, exactly
  when data come with a buffer, and a bulk request has data.
-/
import Mathlib.Algebra.BigOperators.Group.List.Basic
import NuMaker.Ohci.Submit

namespace Ohci

/-! ### Written back -/

/-- The bytes of the buffer of a TD. -/
def TD_T.size (td : TD_T) : ℕ := if td.CBP = 0 then 0 else (td.BE - td.CBP).toNat + 1

/-- The controller is through with a TD: it has moved `n` bytes, all of them, or it has
stopped at one of them; it may change the completion code, the link and the high bits of
`Info`. -/
structure Wrote (td td' : TD_T) (n : ℕ) : Prop where
  info : td'.Info &&& 0x00FFFFFF = td.Info &&& 0x00FFFFFF
  BE : td'.BE = td.BE
  buff_start : td'.buff_start = td.buff_start
  utr : td'.utr = td.utr
  bytes : td'.CBP = 0 ∧ n = td.size ∨ n < td.size ∧ td'.CBP = td.CBP + BitVec.ofNat 32 n

/-- A TD of the SETUP or the STATUS stage. -/
def TD_T.silent (td : TD_T) : Prop :=
  td.Info &&& TD_TYPE_Msk = TD_TYPE_CTRL ∧ td.Info &&& TD_CTRL_DATA = 0

instance (td : TD_T) : Decidable td.silent := inferInstanceAs (Decidable (_ ∧ _))

/-- What `td_done` adds to the length for a TD. -/
def TD_T.share (td : TD_T) : BitVec 32 := if td.silent then 0 else td.moved

/-- The buffer of a TD is within the address space, and without one there is no end. -/
structure TD_T.Sound (td : TD_T) : Prop where
  start : td.buff_start = td.CBP
  none : td.CBP = 0 → td.BE = 0
  le : td.CBP ≠ 0 → td.CBP.toNat ≤ td.BE.toNat

/-- What is added is what was moved, and one more for a TD without a buffer. -/
theorem Wrote.moved_eq {td td' : TD_T} {n : ℕ} (h : Wrote td td' n) (hs : td.Sound) :
    td'.moved = BitVec.ofNat 32 n + if td.CBP = 0 then 1 else 0 := by
  have hsize : td.CBP ≠ 0 → td.size = td.BE.toNat - td.CBP.toNat + 1 := by
    intro h0
    have hle := hs.le h0
    rw [TD_T.size, if_neg h0, BitVec.toNat_sub_of_le (BitVec.le_def.mpr hle)]
  rw [TD_T.moved, h.BE, h.buff_start, hs.start]
  rcases h.bytes with ⟨hc, hn⟩ | ⟨hn, hc⟩
  · rw [if_pos hc]
    by_cases h0 : td.CBP = 0
    · rw [if_pos h0, hn, TD_T.size, if_pos h0, hs.none h0, h0]
      rfl
    · have hle := hs.le h0
      have hlt := td.BE.isLt
      rw [if_neg h0, hn, hsize h0]
      apply BitVec.eq_of_toNat_eq
      rw [BitVec.toNat_add, BitVec.toNat_sub_of_le (BitVec.le_def.mpr hle)]
      simp
  · have h0 : td.CBP ≠ 0 := by
      intro h0
      rw [TD_T.size, if_pos h0] at hn
      exact absurd hn (Nat.not_lt_zero n)
    have hle := hs.le h0
    have hlt := td.BE.isLt
    rw [hsize h0] at hn
    have hne : td'.CBP ≠ 0 := by
      intro hz
      have hz' := congrArg BitVec.toNat hz
      have hpos : td.CBP.toNat ≠ 0 := fun hp => h0 (BitVec.eq_of_toNat_eq (by simpa using hp))
      rw [hc, BitVec.toNat_add, BitVec.toNat_ofNat, Nat.add_mod_mod, Nat.mod_eq_of_lt (by omega)] at hz'
      simp at hz'
      omega
    rw [if_neg hne, if_neg h0, hc, BitVec.add_comm, BitVec.add_sub_cancel]
    simp

/-- The type of a TD is not among the bits the controller may change. -/
theorem and_of_info {info info' m : BitVec 32} (h : info' &&& 0x00FFFFFF = info &&& 0x00FFFFFF)
    (hm : m &&& 0x00FFFFFF = m) : info' &&& m = info &&& m := by
  rw [← hm, BitVec.and_comm m, ← BitVec.and_assoc, ← BitVec.and_assoc, h]

/-- What a TD adds that has moved `n` bytes. -/
def TD_T.due (td : TD_T) (n : ℕ) : BitVec 32 :=
  if td.silent then 0 else BitVec.ofNat 32 n + if td.CBP = 0 then 1 else 0

theorem Wrote.share_eq {td td' : TD_T} {n : ℕ} (h : Wrote td td' n) (hs : ¬ td.silent → td.Sound) :
    td'.share = td.due n := by
  have hsilent : td'.silent ↔ td.silent := by
    rw [TD_T.silent, TD_T.silent, and_of_info h.info (by decide), and_of_info h.info (by decide)]
  by_cases hd : td.silent
  · rw [TD_T.share, TD_T.due, if_pos (hsilent.mpr hd), if_pos hd]
  · rw [TD_T.share, TD_T.due, if_neg (mt hsilent.mp hd), if_neg hd, h.moved_eq (hs hd)]

/-! ### Counting down -/

theorem UTR_T.retire_eq (utr : UTR_T) : utr.retire = { utr with
    td_cnt := utr.td_cnt - 1
    bIsTransferDone := utr.bIsTransferDone || decide (utr.td_cnt = 1)
    calls := utr.calls + if utr.td_cnt = 1 ∧ utr.func = true then 1 else 0 } := by
  unfold UTR_T.retire
  dsimp only
  by_cases h : utr.td_cnt = 1
  · cases hf : utr.func with
    | false => simp [h]
    | true => simp [h]
  · have h0 : ¬ utr.td_cnt - 1 = 0 := by omega
    simp [h, h0]

theorem UTR_T.tdDone_eq (utr : UTR_T) (td : TD_T) :
    ∃ status, utr.tdDone td = { utr with status := status, xfer_len := utr.xfer_len + td.share } := by
  unfold UTR_T.tdDone TD_T.share TD_T.silent
  by_cases hc : td.Info &&& TD_TYPE_Msk = TD_TYPE_CTRL
  · by_cases hd : td.Info &&& TD_CTRL_DATA = 0
    · simp only [hc, hd, ne_eq, not_true, if_true, if_false, and_self]
      split
      · exact ⟨_, by rw [BitVec.ofNat_eq_ofNat, BitVec.add_zero]⟩
      · exact ⟨utr.status, by rw [BitVec.ofNat_eq_ofNat, BitVec.add_zero]⟩
    · simp only [hc, hd, ne_eq, not_false_eq_true, if_true, and_false, if_false]
      split
      · exact ⟨_, rfl⟩
      · exact ⟨utr.status, rfl⟩
  · simp only [hc, false_and, if_false]
    split
    · exact ⟨_, rfl⟩
    · exact ⟨utr.status, rfl⟩

/-- What `td_done` does to a request that is not isochronous. -/
theorem UTR_T.td_done_eq (utr : UTR_T) {td : TD_T} (bInterval : BitVec 8)
    (h : td.Info &&& TD_TYPE_Msk ≠ TD_TYPE_ISO) : ∃ status, utr.td_done td bInterval = { utr with
      status := status
      xfer_len := utr.xfer_len + td.share
      td_cnt := utr.td_cnt - 1
      bIsTransferDone := utr.bIsTransferDone || decide (utr.td_cnt = 1)
      calls := utr.calls + if utr.td_cnt = 1 ∧ utr.func = true then 1 else 0 } := by
  obtain ⟨status, hd⟩ := utr.tdDone_eq td
  refine ⟨status, ?_⟩
  rw [UTR_T.td_done, if_neg h, UTR_T.retire_eq, hd]

/-- One TD counted for its request. -/
structure Counted (utr utr' : UTR_T) (td : TD_T) : Prop where
  xfer_len : utr'.xfer_len = utr.xfer_len + td.share
  td_cnt : utr'.td_cnt = utr.td_cnt - 1
  isDone : utr'.bIsTransferDone = (utr.bIsTransferDone || decide (utr.td_cnt = 1))
  calls : utr'.calls = utr.calls + if utr.td_cnt = 1 ∧ utr.func = true then 1 else 0
  func : utr'.func = utr.func

theorem td_done_counted {s : State} {t u : ℕ} (h : (s.td t).utr = some u)
    (hi : (s.td t).Info &&& TD_TYPE_Msk ≠ TD_TYPE_ISO) :
    Counted (s.utr u) ((td_done s t).utr u) (s.td t) := by
  unfold Ohci.td_done
  dsimp only
  rw [h, setUTR_utr, Function.update_self]
  obtain ⟨status, he⟩ := UTR_T.td_done_eq (s.utr u)
    ((((s.td t).ed).map fun e => (s.ed e).bInterval).getD 0) hi
  rw [he]
  exact ⟨rfl, rfl, rfl, rfl, rfl⟩

/-! ### Retiring the TDs -/

/-- The TDs `order` of request `u` retire: before the `i`-th the state is `σ i`, and the
controller has written that TD back, having moved `n` bytes.  In between anything may
happen that leaves the request alone. -/
structure Retiring (s : State) (u : ℕ) (n : ℕ → ℕ) (order : List ℕ) (σ : ℕ → State) : Prop where
  start : (σ 0).utr u = s.utr u
  wrote : ∀ i (hi : i < order.length), Wrote (s.td order[i]) ((σ i).td order[i]) (n order[i])
  step : ∀ i (hi : i < order.length), (σ (i + 1)).utr u = (td_done (σ i) order[i]).utr u

/-- A TD of request `u`, not of a frame, whose buffer is within the address space if it
counts. -/
structure TD_T.Of (td : TD_T) (u : ℕ) : Prop where
  utr : td.utr = some u
  type : td.Info &&& TD_TYPE_Msk ≠ TD_TYPE_ISO
  sound : ¬ td.silent → td.Sound

/-- After `i` of the TDs the shares are added up and the count is down by `i`; the
call-back has run if it has come to zero. -/
theorem Retiring.tally {s : State} {u : ℕ} {n : ℕ → ℕ} {order : List ℕ} {σ : ℕ → State}
    (h : Retiring s u n order σ) (hof : ∀ t ∈ order, (s.td t).Of u)
    (hcnt : (s.utr u).td_cnt = order.length) (i : ℕ) (hi : i ≤ order.length) :
    let utr := (σ i).utr u
    utr.xfer_len = (s.utr u).xfer_len + ((order.take i).map fun t => (s.td t).due (n t)).sum ∧
      utr.td_cnt = order.length - i ∧ utr.func = (s.utr u).func ∧
      utr.calls = (s.utr u).calls +
        (if 0 < i ∧ i = order.length ∧ (s.utr u).func = true then 1 else 0) ∧
      (0 < i → i = order.length → utr.bIsTransferDone = true) := by
  induction i with
  | zero =>
    dsimp only
    rw [h.start]
    exact ⟨by simp, by simpa using hcnt, rfl, by simp, by simp⟩
  | succ i ih =>
    obtain ⟨hx, htd, hfunc, hcalls, -⟩ := ih (Nat.le_of_succ_le hi)
    have hlt : i < order.length := hi
    have hone := hof order[i] (List.getElem_mem hlt)
    have hw := h.wrote i hlt
    have hutr : ((σ i).td order[i]).utr = some u := hw.utr.trans hone.utr
    have htype : ((σ i).td order[i]).Info &&& TD_TYPE_Msk ≠ TD_TYPE_ISO := by
      rw [and_of_info hw.info (by decide)]
      exact hone.type
    have hstep := td_done_counted hutr htype
    have hlast : ((σ i).utr u).td_cnt = 1 ↔ i + 1 = order.length := by
      rw [htd]
      omega
    dsimp only
    rw [h.step i hlt]
    refine ⟨?_, ?_, hstep.func.trans hfunc, ?_, ?_⟩
    · rw [hstep.xfer_len, hx, hw.share_eq hone.sound, ← List.take_concat_get' order i hlt, List.map_append,
        List.sum_append, List.map_singleton, List.sum_singleton, BitVec.add_assoc]
    · rw [hstep.td_cnt, htd]
      omega
    · have hbefore : ¬ i = order.length := by omega
      simp only [hstep.calls, hcalls, hlast, hfunc, hbefore, false_and, and_false, if_false,
        Nat.zero_lt_succ, true_and, Nat.add_zero]
    · intro _ hfull
      rw [hstep.isDone, decide_eq_true (hlast.mpr hfull), Bool.or_true]

/-! ### The pieces of a buffer -/

/-- A piece without a buffer. -/
def Empty (c : BitVec 32 × BitVec 32) : Prop := c.1 = 0 ∨ c.2 = 0

instance (c : BitVec 32 × BitVec 32) : Decidable (Empty c) := inferInstanceAs (Decidable (_ ∨ _))

/-- How much a piece can add to the length. -/
def weight (c : BitVec 32 × BitVec 32) : ℕ := if Empty c then 1 else c.2.toNat

/-- A piece of 4096 bytes as long as there is more than that. -/
theorem chunks_succ (n : ℕ) (buff data_len : BitVec 32) : chunks (n + 1) buff data_len =
    if 4096 < data_len.toNat then (buff, 4096) :: chunks n (buff + 4096) (data_len - 4096)
    else [(buff, data_len)] := by
  rw [chunks]
  by_cases h : 4096 < data_len.toNat
  · have h' : 4096 < data_len := BitVec.lt_def.mpr h
    have hmore : 0 < data_len - 4096 := by
      rw [BitVec.lt_def, BitVec.toNat_sub_of_le (BitVec.le_of_lt h')]
      exact Nat.sub_pos_of_lt h
    simp only [h', h, hmore, if_true]
  · have h' : ¬ 4096 < data_len := fun hlt => h (BitVec.lt_def.mp hlt)
    have hmore : ¬ 0 < data_len - data_len := by
      rw [BitVec.sub_self]
      decide
    simp only [h', h, hmore, if_false]

/-- The rest of a buffer. -/
theorem rest_eq {buff data_len : BitVec 32} (hfit : buff.toNat + data_len.toNat ≤ 2 ^ 32)
    (h : 4096 < data_len.toNat) :
    (buff + 4096).toNat = buff.toNat + 4096 ∧ (data_len - 4096).toNat = data_len.toNat - 4096 := by
  constructor
  · rw [BitVec.toNat_add]
    exact Nat.mod_eq_of_lt (show buff.toNat + 4096 < 2 ^ 32 by omega)
  · exact BitVec.toNat_sub_of_le (BitVec.le_def.mpr h.le)

theorem chunks_fit : ∀ (n : ℕ) {buff data_len : BitVec 32}, buff.toNat + data_len.toNat ≤ 2 ^ 32 →
    ∀ c ∈ chunks n buff data_len, c.1.toNat + c.2.toNat ≤ 2 ^ 32 := by
  intro n
  induction n with
  | zero => simp [chunks]
  | succ n ih =>
    intro buff data_len hfit c hc
    rw [chunks_succ] at hc
    by_cases h : 4096 < data_len.toNat
    · obtain ⟨hadd, hsub⟩ := rest_eq hfit h
      rw [if_pos h, List.mem_cons] at hc
      rcases hc with rfl | hc
      · show buff.toNat + 4096 ≤ 2 ^ 32
        omega
      · exact ih (by omega) c hc
    · rw [if_neg h, List.mem_singleton] at hc
      subst hc
      exact hfit

theorem toNat_ne_zero {b : BitVec 32} : b ≠ 0 ↔ b.toNat ≠ 0 :=
  not_congr ⟨fun h => by rw [h]; rfl, fun h => BitVec.eq_of_toNat_eq h⟩

/-- With a buffer and data no piece is empty. -/
theorem chunks_nonempty : ∀ (n : ℕ) {buff data_len : BitVec 32},
    buff.toNat + data_len.toNat ≤ 2 ^ 32 → buff ≠ 0 → data_len ≠ 0 →
    ∀ c ∈ chunks n buff data_len, ¬ Empty c := by
  intro n
  induction n with
  | zero => simp [chunks]
  | succ n ih =>
    intro buff data_len hfit hb hl c hc
    rw [chunks_succ] at hc
    by_cases h : 4096 < data_len.toNat
    · obtain ⟨hadd, hsub⟩ := rest_eq hfit h
      rw [if_pos h, List.mem_cons] at hc
      rcases hc with rfl | hc
      · rintro (h0 | h0)
        · exact hb h0
        · exact absurd (show (4096 : BitVec 32) = 0 from h0) (by decide)
      · exact ih (by omega) (toNat_ne_zero.mpr (by omega)) (toNat_ne_zero.mpr (by omega)) c hc
    · rw [if_neg h, List.mem_singleton] at hc
      subst hc
      rintro (h0 | h0)
      · exact hb h0
      · exact hl h0

/-- Only the first piece can be empty. -/
theorem chunks_empty (n : ℕ) {buff data_len : BitVec 32}
    (hfit : buff.toNat + data_len.toNat ≤ 2 ^ 32) :
    ((chunks (n + 1) buff data_len).filter fun c => Empty c).length =
      if buff ≠ 0 ∧ data_len ≠ 0 then 0 else 1 := by
  by_cases hcond : buff ≠ 0 ∧ data_len ≠ 0
  · rw [if_pos hcond, List.length_eq_zero_iff, List.filter_eq_nil_iff]
    intro c hc
    simpa using chunks_nonempty (n + 1) hfit hcond.1 hcond.2 c hc
  · rw [if_neg hcond, chunks_succ]
    by_cases h : 4096 < data_len.toNat
    · obtain ⟨hadd, hsub⟩ := rest_eq hfit h
      have hl : data_len ≠ 0 := toNat_ne_zero.mpr (by omega)
      have hb : buff = 0 := by
        by_contra hb
        exact hcond ⟨hb, hl⟩
      have hrest : (chunks n (buff + 4096) (data_len - 4096)).filter (fun c => Empty c) = [] := by
        rw [List.filter_eq_nil_iff]
        intro c hc
        simpa using chunks_nonempty n (by omega) (toNat_ne_zero.mpr (by omega))
          (toNat_ne_zero.mpr (by omega)) c hc
      have he : Empty (buff, 4096) := Or.inl hb
      rw [if_pos h, List.filter_cons_of_pos (by simpa using he), hrest]
      rfl
    · have he : Empty (buff, data_len) := by
        by_cases hb : buff = 0
        · exact Or.inl hb
        · exact Or.inr (by by_contra hl; exact hcond ⟨hb, hl⟩)
      rw [if_neg h, List.filter_cons_of_pos (by simpa using he)]
      rfl

/-- The pieces add at most the length, or one. -/
theorem chunks_weight : ∀ (n : ℕ) {buff data_len : BitVec 32},
    buff.toNat + data_len.toNat ≤ 2 ^ 32 →
    ((chunks n buff data_len).map weight).sum ≤ max data_len.toNat 1 := by
  intro n
  induction n with
  | zero => simp [chunks]
  | succ n ih =>
    intro buff data_len hfit
    have hweight : ∀ c : BitVec 32 × BitVec 32, weight c ≤ max c.2.toNat 1 := by
      intro c
      unfold weight
      split
      · exact le_max_right _ _
      · exact le_max_left _ _
    rw [chunks_succ]
    by_cases h : 4096 < data_len.toNat
    · obtain ⟨hadd, hsub⟩ := rest_eq hfit h
      have hfirst : weight (buff, 4096) ≤ 4096 := hweight (buff, 4096)
      have hrest := ih (show (buff + 4096).toNat + (data_len - 4096).toNat ≤ 2 ^ 32 by omega)
      rw [if_pos h, List.map_cons, List.sum_cons]
      omega
    · rw [if_neg h, List.map_singleton, List.sum_singleton]
      exact hweight _

/-! ### Adding up -/

/-- A TD that `write_td` has filled with a piece of a buffer. -/
theorem Filled.sound {s : State} {ed t : ℕ} {info : BitVec 32} {c : BitVec 32 × BitVec 32}
    (h : Filled s ed info t c) (hfit : c.1.toNat + c.2.toNat ≤ 2 ^ 32) :
    (s.td t).Sound ∧ ((s.td t).CBP = 0 ↔ Empty c) ∧
      (s.td t).size + (if Empty c then 1 else 0) = weight c := by
  have hC : (s.td t).CBP = if Empty c then 0 else c.1 := h.CBP
  have hB : (s.td t).BE = if Empty c then 0 else c.1 + c.2 - 1 := h.BE
  have hS : (s.td t).buff_start = if Empty c then 0 else c.1 := h.buff_start
  by_cases he : Empty c
  · rw [if_pos he] at hC hB hS
    refine ⟨⟨hS.trans hC.symm, fun _ => hB, fun h0 => absurd hC h0⟩, iff_of_true hC he, ?_⟩
    rw [TD_T.size, if_pos hC, weight, if_pos he, if_pos he]
  · rw [if_neg he] at hC hB hS
    have h1 : c.1.toNat ≠ 0 := toNat_ne_zero.mp fun h0 => he (Or.inl h0)
    have h2 : c.2.toNat ≠ 0 := toNat_ne_zero.mp fun h0 => he (Or.inr h0)
    have hC0 : (s.td t).CBP ≠ 0 := by rw [hC]; exact fun h0 => he (Or.inl h0)
    have hend : (c.1 + c.2 - 1).toNat = c.1.toNat + c.2.toNat - 1 := by
      have h1' := c.1.isLt
      have h2' := c.2.isLt
      bv_omega
    have hle : (s.td t).CBP.toNat ≤ (s.td t).BE.toNat := by
      rw [hC, hB, hend]
      omega
    refine ⟨⟨hS.trans hC.symm, fun h0 => absurd h0 hC0, fun _ => hle⟩, iff_of_false hC0 he, ?_⟩
    rw [TD_T.size, if_neg hC0, weight, if_neg he, if_neg he,
      BitVec.toNat_sub_of_le (BitVec.le_def.mpr hle), hC, hB, hend]
    omega

/-- The TDs of a buffer: what they add is what was moved, and one more for each TD without
a buffer. -/
theorem sum_due {s : State} {ed : ℕ} {info : BitVec 32} {n : ℕ → ℕ}
    (hinfo : ¬ (info &&& TD_TYPE_Msk = TD_TYPE_CTRL ∧ info &&& TD_CTRL_DATA = 0)) :
    ∀ {l : List ℕ} {cs : List (BitVec 32 × BitVec 32)}, List.Forall₂ (Filled s ed info) l cs →
      (∀ c ∈ cs, c.1.toNat + c.2.toNat ≤ 2 ^ 32) → (∀ t ∈ l, n t ≤ (s.td t).size) →
      (l.map fun t => (s.td t).due (n t)).sum =
        BitVec.ofNat 32 ((l.map n).sum + (cs.filter fun c => Empty c).length) ∧
      (l.map n).sum + (cs.filter fun c => Empty c).length ≤ (cs.map weight).sum := by
  intro l cs hf
  induction hf with
  | nil => simp
  | @cons t c l cs ht _ ih =>
    intro hfit hn
    obtain ⟨hsum, hle⟩ := ih (fun c hc => hfit c (List.mem_cons_of_mem _ hc)) fun t ht =>
      hn t (List.mem_cons_of_mem _ ht)
    obtain ⟨hsound, hempty, hweight⟩ := ht.sound (hfit c List.mem_cons_self)
    have hone := hn t List.mem_cons_self
    have hI : (s.td t).Info = info := ht.Info
    have hdue : (s.td t).due (n t) = BitVec.ofNat 32 (n t + if Empty c then 1 else 0) := by
      have hloud : ¬ (s.td t).silent := by
        rw [TD_T.silent, hI]
        exact hinfo
      rw [TD_T.due, if_neg hloud]
      by_cases he : Empty c
      · rw [if_pos (hempty.mpr he), if_pos he]
        exact (BitVec.ofNat_add (n t) 1).symm
      · rw [if_neg (mt hempty.mp he), if_neg he]
        simp
    have hcount : ((c :: cs).filter fun c => Empty c).length =
        (cs.filter fun c => Empty c).length + if Empty c then 1 else 0 := by
      by_cases he : Empty c
      · rw [List.filter_cons_of_pos (by simpa using he), if_pos he, List.length_cons]
      · rw [List.filter_cons_of_neg (by simpa using he), if_neg he, Nat.add_zero]
    rw [List.map_cons, List.sum_cons, List.map_cons, List.sum_cons, List.map_cons, List.sum_cons, hcount,
      hdue, hsum]
    constructor
    · rw [← BitVec.ofNat_add]
      congr 1
      omega
    · omega

/-! ### The two kinds of requests -/

/-- A control request, or a bulk request with endpoint record `p`. -/
inductive Kind
  | control
  | bulk (p : ℕ)
  deriving DecidableEq, Repr

def submit (s : State) (u : ℕ) : Kind → ℤ × State
  | .control => ohci_ctrl_xfer s u
  | .bulk p => ohci_bulk_xfer s u p

/-- The endpoint record. -/
def Kind.ep (s : State) (u : ℕ) : Kind → ℕ
  | .control => (s.utr u).udev.ep0
  | .bulk p => p

/-- The TDs of the data stage: all, or those between SETUP and STATUS. -/
def Kind.data : Kind → List ℕ → List ℕ
  | .control, l => l.tail.dropLast
  | .bulk _, l => l

/-- The TDs `l` hang on the ED of an endpoint record. -/
def Queued (s : State) (p : ℕ) (l : List ℕ) : Prop :=
  ∃ ed, (s.ep p).hw_pipe = some ed ∧ Links s.NextTD (s.ed ed).HeadP l none

/-- What a request looks like that has been submitted with the TDs `l`, those of `data`
filled with the pieces `cs`. -/
structure Submitted (s s' : State) (u p : ℕ) (l data : List ℕ) (cs : List (BitVec 32 × BitVec 32)) :
    Prop where
  queued : Queued s' p l
  xfer_len : (s'.utr u).xfer_len = (s.utr u).xfer_len
  data_len : (s'.utr u).data_len = (s.utr u).data_len
  td_cnt : (s'.utr u).td_cnt = l.length
  ne_nil : l ≠ []
  of : (∀ c ∈ cs, c.1.toNat + c.2.toNat ≤ 2 ^ 32) → ∀ t ∈ l, (s'.td t).Of u
  sub : data ⊆ l
  sum : ∀ n : ℕ → ℕ, (l.map fun t => (s'.td t).due (n t)).sum =
    (data.map fun t => (s'.td t).due (n t)).sum
  filled : ∃ ed info, ¬ (info &&& TD_TYPE_Msk = TD_TYPE_CTRL ∧ info &&& TD_CTRL_DATA = 0) ∧
    List.Forall₂ (Filled s' ed info) data cs

theorem bulkInfo_type (ep : Usb.EP_INFO_T) : bulkInfo ep &&& TD_TYPE_Msk = TD_TYPE_BULK := by
  unfold bulkInfo
  by_cases h : ep.bEndpointAddress &&& 0x80 = 0
  · rw [if_pos h]
    decide
  · rw [if_neg h]
    decide

theorem exists_of_forall₂ {α β : Type*} {R : α → β → Prop} {l : List α} {cs : List β}
    (h : List.Forall₂ R l cs) : ∀ t ∈ l, ∃ c ∈ cs, R t c := by
  induction h with
  | nil => simp
  | @cons t c l cs ht _ ih =>
    intro a ha
    rcases List.mem_cons.mp ha with rfl | ha
    · exact ⟨c, List.mem_cons_self, ht⟩
    · obtain ⟨c', hc', h'⟩ := ih a ha
      exact ⟨c', List.mem_cons_of_mem _ hc', h'⟩

theorem submitted_bulk {s s' : State} {u p : ℕ} (h : ohci_bulk_xfer s u p = (0, s')) :
    ∃ l, Submitted s s' u p l l
      (chunks ((s.utr u).data_len.toNat / 4096 + 1) (s.utr u).buff (s.utr u).data_len) := by
  have hdone := ohci_bulk_xfer_done s u p
  generalize hr : ohci_bulk_xfer s u p = r at h hdone
  cases hdone with
  | busy => exact absurd (Prod.mk.inj h).1 (by decide)
  | noED _ => exact absurd (Prod.mk.inj h).1 (by decide)
  | short _ => exact absurd (Prod.mk.inj h).1 (by decide)
  | @started ed new s₁ s₂ td_list l hgoes =>
    obtain ⟨-, rfl⟩ := Prod.mk.inj h
    have hb := hgoes.built.building
    rw [List.nil_append] at hb
    have htd := bulkStart_td s₂ u ed td_list new
    have hN : (bulkStart s₂ u ed td_list new).NextTD = s₂.NextTD := by
      funext t
      rw [State.NextTD, State.NextTD, htd]
    have hF : Filled (bulkStart s₂ u ed td_list new) ed (bulkInfo (s.ep p)) =
        Filled s₂ ed (bulkInfo (s.ep p)) := by
      funext t c
      rw [Filled, Filled, htd]
    have hfilled := hgoes.chunks rfl
    rw [← hF] at hfilled
    have hcounts : ¬ (bulkInfo (s.ep p) &&& TD_TYPE_Msk = TD_TYPE_CTRL ∧
        bulkInfo (s.ep p) &&& TD_CTRL_DATA = 0) := by
      rw [bulkInfo_type]
      rintro ⟨h0, -⟩
      exact absurd h0 (by decide)
    have hutr := bulkStart_utr s₂ u ed td_list new
    rw [hgoes.cnt] at hutr
    refine ⟨l, ⟨ed, ?_, ?_⟩, by rw [hutr], by rw [hutr], by rw [hutr], ?_, ?_, List.Subset.refl l,
      fun _ => rfl, ed, _, hcounts, hfilled⟩
    · rw [bulkStart_ep, hb.rest.ep]
      exact bulkPrepare_hw_pipe
    · rw [bulkStart_HeadP, hN]
      exact hb.links
    · rintro rfl
      rw [chunks] at hfilled
      cases hfilled
    · intro hfit t ht
      obtain ⟨c, hc, hone⟩ := exists_of_forall₂ hfilled t ht
      have hI : ((bulkStart s₂ u ed td_list new).td t).Info = bulkInfo (s.ep p) := hone.Info
      refine ⟨?_, ?_, fun _ => (hone.sound (hfit c hc)).1⟩
      · rw [htd]
        exact hb.owner t ht
      · rw [hI, bulkInfo_type]
        decide

theorem ctrl_infos (utr : UTR_T) : (setupInfo &&& TD_TYPE_Msk = TD_TYPE_CTRL ∧ setupInfo &&& TD_CTRL_DATA = 0) ∧
    (dataInfo utr &&& TD_TYPE_Msk = TD_TYPE_CTRL ∧ dataInfo utr &&& TD_CTRL_DATA ≠ 0) ∧
      statusInfo utr &&& TD_TYPE_Msk = TD_TYPE_CTRL ∧ statusInfo utr &&& TD_CTRL_DATA = 0 := by
  unfold setupInfo dataInfo statusInfo
  by_cases h : utr.bmRequestType &&& 0x80 = 0
  · simp only [h, if_true]
    decide
  · simp only [h, if_false]
    decide

theorem submitted_control {s s' : State} {u : ℕ} (h : ohci_ctrl_xfer s u = (0, s')) :
    ∃ l, Submitted s s' u (s.utr u).udev.ep0 l l.tail.dropLast
      (if 0 < (s.utr u).data_len then [((s.utr u).buff, (s.utr u).data_len)] else []) := by
  have hdone := ohci_ctrl_xfer_done s u
  generalize hr : ohci_ctrl_xfer s u = r at h hdone
  cases hdone with
  | short _ _ => exact absurd (Prod.mk.inj h).1 (by decide)
  | @started s₁ s₂ ed td_setup td_data td_status new htook hgot =>
    obtain ⟨-, rfl⟩ := Prod.mk.inj h
    obtain ⟨htd, hutr, hrest⟩ := hgot.keeps
    rw [htook.utr] at hutr
    have hu : s₂.utr u = s.utr u := congrFun hutr u
    have hd := htook.nodup
    have hz : ∀ t ∈ ctrlTDs (s₂.utr u).data_len td_setup td_data td_status,
        s₂.td t = { TD_T.zero with utr := some u } := by
      rw [hu, htd]
      exact htook.zero
    rw [← hu] at hd
    have hlinks : Links (ctrlStart s₂ u ed td_setup td_data td_status).NextTD (some td_setup)
        (ctrlTDs (s₂.utr u).data_len td_setup td_data td_status) none := ctrlStart_links ed hd
    have hfilled := ctrlStart_filled ed hd hz
    have hpipe : ((ctrlStart s₂ u ed td_setup td_data td_status).ep (s₂.utr u).udev.ep0).hw_pipe = some ed :=
      ctrlStart_hw_pipe ed
    have hhead : ((ctrlStart s₂ u ed td_setup td_data td_status).ed ed).HeadP = some td_setup :=
      ctrlStart_HeadP ed
    have hutr' : (ctrlStart s₂ u ed td_setup td_data td_status).utr u = { s₂.utr u with
        td_cnt := (ctrlTDs (s₂.utr u).data_len td_setup td_data td_status).length
        ep := some (s₂.utr u).udev.ep0 } := ctrlStart_utr ed
    generalize ctrlStart s₂ u ed td_setup td_data td_status = s' at *
    rw [hu] at hlinks hfilled hpipe hutr'
    obtain ⟨hsetup, hdata, hstatus⟩ := ctrl_infos (s.utr u)
    -- the TDs of SETUP and STATUS
    have hquiet : ∀ {t : ℕ} {info : BitVec 32} {c : BitVec 32 × BitVec 32},
        info &&& TD_TYPE_Msk = TD_TYPE_CTRL ∧ info &&& TD_CTRL_DATA = 0 → Filled s' ed info t c →
        (s'.td t).silent := by
      intro t info c hi hf
      have hI : (s'.td t).Info = info := hf.Info
      rw [TD_T.silent, hI]
      exact hi
    have hof : ∀ {t : ℕ} {info : BitVec 32} {c : BitVec 32 × BitVec 32},
        info &&& TD_TYPE_Msk = TD_TYPE_CTRL → Filled s' ed info t c → (s'.td t).utr = some u →
        (¬ (s'.td t).silent → (s'.td t).Sound) → (s'.td t).Of u := by
      intro t info c hi hf ho hs
      have hI : (s'.td t).Info = info := hf.Info
      refine ⟨ho, ?_, hs⟩
      rw [hI, hi]
      decide
    have hnone : ∀ {t : ℕ} (n : ℕ), (s'.td t).silent → (s'.td t).due n = 0 := fun n h => if_pos h
    unfold ctrlTDs at hlinks hutr'
    unfold ctrlTDs ctrlPieces at hfilled
    by_cases hlen : 0 < (s.utr u).data_len
    · simp only [hlen, if_true] at hlinks hutr' hfilled ⊢
      obtain ⟨⟨hf₁, ho₁⟩, ⟨hf₂, ho₂⟩, hf₃, ho₃⟩ := by simpa using hfilled
      have hq₁ := hquiet hsetup hf₁
      have hq₃ := hquiet hstatus hf₃
      refine ⟨[td_setup, td_data, td_status], ⟨ed, hpipe, hhead ▸ hlinks⟩, by rw [hutr'], by rw [hutr'],
        by rw [hutr'], by simp, ?_, by simp, ?_, ed, dataInfo (s.utr u), fun h => hdata.2 h.2, by simpa using hf₂⟩
      · intro hfit t ht
        rcases List.mem_cons.mp ht with rfl | ht
        · exact hof hsetup.1 hf₁ ho₁ fun h => absurd hq₁ h
        rcases List.mem_cons.mp ht with rfl | ht
        · exact hof hdata.1 hf₂ ho₂ fun _ => (hf₂.sound (hfit _ List.mem_cons_self)).1
        · obtain rfl := List.mem_singleton.mp ht
          exact hof hstatus.1 hf₃ ho₃ fun h => absurd hq₃ h
      · intro n
        simp [hnone _ hq₁, hnone _ hq₃]
    · simp only [hlen, if_false] at hlinks hutr' hfilled ⊢
      obtain ⟨⟨hf₁, ho₁⟩, hf₂, ho₂⟩ := by simpa using hfilled
      have hq₁ := hquiet hsetup hf₁
      have hq₂ := hquiet hstatus hf₂
      refine ⟨[td_setup, td_status], ⟨ed, hpipe, hhead ▸ hlinks⟩, by rw [hutr'], by rw [hutr'],
        by rw [hutr'], by simp, ?_, by simp, ?_, ed, dataInfo (s.utr u), fun h => hdata.2 h.2, .nil⟩
      · intro hfit t ht
        rcases List.mem_cons.mp ht with rfl | ht
        · exact hof hsetup.1 hf₁ ho₁ fun h => absurd hq₁ h
        · obtain rfl := List.mem_singleton.mp ht
          exact hof hstatus.1 hf₂ ho₂ fun h => absurd hq₂ h
      · intro n
        simp [hnone _ hq₁, hnone _ hq₂]

/-- Data come with a buffer, and a bulk request has data. -/
def Kind.Buffered (s : State) (u : ℕ) (k : Kind) : Prop :=
  ((s.utr u).data_len ≠ 0 → (s.utr u).buff ≠ 0) ∧ (k ≠ .control → (s.utr u).data_len ≠ 0)

instance (s : State) (u : ℕ) (k : Kind) : Decidable (k.Buffered s u) := inferInstanceAs (Decidable (_ ∧ _))

/-- What can be said of the pieces of a request's buffer. -/
structure Pieces (s : State) (u : ℕ) (k : Kind) (cs : List (BitVec 32 × BitVec 32)) : Prop where
  fit : ∀ c ∈ cs, c.1.toNat + c.2.toNat ≤ 2 ^ 32
  empty : (cs.filter fun c => Empty c).length = if k.Buffered s u then 0 else 1
  le_max : (cs.map weight).sum ≤ max (s.utr u).data_len.toNat 1
  le : k.Buffered s u → (cs.map weight).sum ≤ (s.utr u).data_len.toNat

theorem pieces_bulk {s : State} {u : ℕ} (p n : ℕ)
    (hfit : (s.utr u).buff.toNat + (s.utr u).data_len.toNat ≤ 2 ^ 32) :
    Pieces s u (.bulk p) (chunks (n + 1) (s.utr u).buff (s.utr u).data_len) := by
  have hcond : (Kind.bulk p).Buffered s u ↔ (s.utr u).buff ≠ 0 ∧ (s.utr u).data_len ≠ 0 := by
    constructor
    · rintro ⟨hb, hl⟩
      exact ⟨hb (hl Kind.noConfusion), hl Kind.noConfusion⟩
    · rintro ⟨hb, hl⟩
      exact ⟨fun _ => hb, fun _ => hl⟩
  have hweight := chunks_weight (n + 1) hfit
  refine ⟨chunks_fit (n + 1) hfit, ?_, hweight, ?_⟩
  · rw [chunks_empty n hfit]
    simp only [hcond]
  · intro h
    have hpos := toNat_ne_zero.mp (hcond.mp h).2
    omega

theorem pieces_control {s : State} {u : ℕ}
    (hfit : (s.utr u).buff.toNat + (s.utr u).data_len.toNat ≤ 2 ^ 32) :
    Pieces s u .control
      (if 0 < (s.utr u).data_len then [((s.utr u).buff, (s.utr u).data_len)] else []) := by
  have hcond : Kind.control.Buffered s u ↔ ((s.utr u).data_len ≠ 0 → (s.utr u).buff ≠ 0) :=
    and_iff_left fun h => absurd rfl h
  by_cases hlen : 0 < (s.utr u).data_len
  · have hne : (s.utr u).data_len ≠ 0 := (BitVec.ne_of_lt hlen).symm
    have hpos := toNat_ne_zero.mp hne
    have hempty : Empty ((s.utr u).buff, (s.utr u).data_len) ↔ (s.utr u).buff = 0 := or_iff_left hne
    have hle : weight ((s.utr u).buff, (s.utr u).data_len) ≤ (s.utr u).data_len.toNat := by
      unfold weight
      split
      · exact Nat.pos_of_ne_zero hpos
      · exact le_refl _
    simp only [hlen, if_true]
    refine ⟨by simpa using hfit, ?_, ?_, fun _ => by simpa using hle⟩
    · by_cases hb : (s.utr u).buff = 0
      · rw [List.filter_cons_of_pos (by simpa using hempty.mpr hb), if_neg fun h => hcond.mp h hne hb]
        rfl
      · rw [List.filter_cons_of_neg (by simpa using mt hempty.mp hb), if_pos (hcond.mpr fun _ => hb)]
        rfl
    · rw [List.map_singleton, List.sum_singleton]
      exact hle.trans (le_max_left _ _)
  · have hz : (s.utr u).data_len = 0 := by
      by_contra hne
      exact hlen (BitVec.lt_def.mpr (Nat.pos_of_ne_zero (toNat_ne_zero.mp hne)))
    simp only [hlen, if_false]
    refine ⟨by simp, ?_, by simp, by simp⟩
    rw [if_pos (hcond.mpr fun h => absurd hz h)]
    rfl

/-- A request that is started has its TDs queued and its buffer in pieces. -/
theorem submitted {s s' : State} {u : ℕ} {k : Kind} (h : submit s u k = (0, s'))
    (hfit : (s.utr u).buff.toNat + (s.utr u).data_len.toNat ≤ 2 ^ 32) :
    ∃ l cs, Submitted s s' u (k.ep s u) l (k.data l) cs ∧ Pieces s u k cs := by
  cases k with
  | control =>
    obtain ⟨l, hl⟩ := submitted_control h
    exact ⟨l, _, hl, pieces_control hfit⟩
  | bulk p =>
    obtain ⟨l, hl⟩ := submitted_bulk h
    exact ⟨l, _, hl, pieces_bulk p _ hfit⟩

/-! ### The length -/

/-- The request is accounted for by the retiring TDs: its length is the bytes moved and
not more than asked for, and it calls back at the last TD and not before. -/
structure Accounted (s : State) (u : ℕ) (order : List ℕ) (σ : ℕ → State) (bytes : ℕ) : Prop where
  xfer_len : ((σ order.length).utr u).xfer_len.toNat = bytes
  le : ((σ order.length).utr u).xfer_len ≤ (s.utr u).data_len
  early : ∀ i < order.length, ((σ i).utr u).calls = (s.utr u).calls
  last : ((σ order.length).utr u).calls = (s.utr u).calls + if (s.utr u).func then 1 else 0
  isDone : ((σ order.length).utr u).bIsTransferDone = true

/-- The length adds up to the bytes of the data stage, and one more for a piece without a
buffer. -/
theorem Submitted.xfer_len_eq {s s' : State} {u p : ℕ} {k : Kind} {l : List ℕ}
    {cs : List (BitVec 32 × BitVec 32)} (hsub : Submitted s s' u p l (k.data l) cs) (hp : Pieces s u k cs)
    (hlen : (s.utr u).xfer_len = 0) {n : ℕ → ℕ} {order : List ℕ} {σ : ℕ → State}
    (hperm : order.Perm l) (hr : Retiring s' u n order σ) :
    ((σ order.length).utr u).xfer_len.toNat = ((k.data l).map n).sum + (if k.Buffered s u then 0 else 1) ∧
      (k.Buffered s u → ((k.data l).map n).sum ≤ (s.utr u).data_len.toNat) := by
  have hof : ∀ t ∈ order, (s'.td t).Of u := fun t ht => hsub.of hp.fit t (hperm.subset ht)
  have hcnt : (s'.utr u).td_cnt = order.length := by rw [hsub.td_cnt, hperm.length_eq]
  obtain ⟨hx, -⟩ := hr.tally hof hcnt order.length le_rfl
  rw [List.take_length, hsub.xfer_len, hlen, (hperm.map fun t => (s'.td t).due (n t)).sum_eq, hsub.sum,
    BitVec.ofNat_eq_ofNat, BitVec.zero_add] at hx
  have hn : ∀ t ∈ k.data l, n t ≤ (s'.td t).size := by
    intro t ht
    obtain ⟨i, hi, rfl⟩ := List.getElem_of_mem (hperm.symm.subset (hsub.sub ht))
    rcases (hr.wrote i hi).bytes with ⟨-, hn⟩ | ⟨hn, -⟩
    · exact hn.le
    · exact hn.le
  obtain ⟨ed, info, hinfo, hfilled⟩ := hsub.filled
  obtain ⟨hsum, hle⟩ := sum_due hinfo hfilled hp.fit hn
  rw [hp.empty] at hsum hle
  have hmax := hp.le_max
  have hlt := (s.utr u).data_len.isLt
  constructor
  · rw [hx, hsum, BitVec.toNat_ofNat]
    exact Nat.mod_eq_of_lt (by omega)
  · intro hb
    have := hp.le hb
    omega

/-- **The length of a transfer is exact when its data come with a buffer and a bulk
request has data**: a submission that succeeds queues its TDs, and whatever the controller
writes back and in whatever order they retire, the request is accounted for then and only
then. -/
theorem transfer_accounted_iff {s s' : State} {u : ℕ} {k : Kind} (h : submit s u k = (0, s'))
    (hlen : (s.utr u).xfer_len = 0) (hfit : (s.utr u).buff.toNat + (s.utr u).data_len.toNat ≤ 2 ^ 32) :
    ∃ l, Queued s' (k.ep s u) l ∧ ∀ n order σ, order.Perm l → Retiring s' u n order σ →
      (Accounted s' u order σ ((k.data l).map n).sum ↔ k.Buffered s u) := by
  obtain ⟨l, cs, hsub, hp⟩ := submitted h hfit
  refine ⟨l, hsub.queued, ?_⟩
  intro n order σ hperm hr
  obtain ⟨hx, hle⟩ := hsub.xfer_len_eq hp hlen hperm hr
  have hof : ∀ t ∈ order, (s'.td t).Of u := fun t ht => hsub.of hp.fit t (hperm.subset ht)
  have hcnt : (s'.utr u).td_cnt = order.length := by rw [hsub.td_cnt, hperm.length_eq]
  constructor
  · intro ha
    by_contra hb
    have heq := ha.xfer_len
    rw [hx, if_neg hb] at heq
    omega
  · intro hb
    rw [if_pos hb, Nat.add_zero] at hx
    have hpos : 0 < order.length := by
      rw [hperm.length_eq]
      exact List.length_pos_iff.mpr hsub.ne_nil
    obtain ⟨-, -, -, hcalls, hdone⟩ := hr.tally hof hcnt order.length le_rfl
    constructor
    · exact hx
    · rw [BitVec.le_def, hx, hsub.data_len]
      exact hle hb
    · intro i hi
      obtain ⟨-, -, -, hearly, -⟩ := hr.tally hof hcnt i hi.le
      rw [hearly, if_neg fun h => hi.ne h.2.1, Nat.add_zero]
    · simpa [hpos] using hcalls
    · exact hdone hpos rfl

/-- The driver with nothing but its interrupt nodes, and a bulk request to write `data_len` bytes. -/
def bulkRequest (data_len : BitVec 32) : State where
  unit_used := fun i => decide (i < 6)
  ed := fun i => { ED_T.zero with NextED := if 0 < i ∧ i < 6 then some (i - 1) else none }
  td := fun _ => TD_T.zero
  HcControlHeadED := none
  HcBulkHeadED := none
  Ied := id
  ed_remove_list := none
  done_head := none
  frame_no := 0
  utr := fun _ =>
    { udev := ⟨false, 1, 64, 1⟩, bmRequestType := 0, setup := 0, ep := some 0, buff := 0x1000,
      bIsTransferDone := false, data_len := data_len, xfer_len := 0, bIsoNewSched := false, iso_sf := 0,
      iso_xlen := fun _ => 0, iso_buff := fun _ => 0, iso_status := fun _ => 0, td_cnt := 0, status := 0,
      func := true, calls := 0 }
  ep := fun _ => ⟨2, 2, 0, 0, 64, none⟩
  events := []

theorem bulkRequest_started : submit (bulkRequest 5000) 0 (.bulk 0) =
    (0, (submit (bulkRequest 5000) 0 (.bulk 0)).2) := Prod.ext (by decide +kernel) rfl

/-- Five thousand bytes from a buffer are accounted for. -/
theorem transfer_accounted_two_TDs :
    ∃ l, Queued (submit (bulkRequest 5000) 0 (.bulk 0)).2 0 l ∧ ∀ n order σ, order.Perm l →
      Retiring (submit (bulkRequest 5000) 0 (.bulk 0)).2 0 n order σ →
      (Accounted (submit (bulkRequest 5000) 0 (.bulk 0)).2 0 order σ (l.map n).sum ↔
        (Kind.bulk 0).Buffered (bulkRequest 5000) 0) :=
  transfer_accounted_iff bulkRequest_started rfl (by decide)

/-- A bulk request without data has one TD, and moves nothing, but gets the length 1. -/
theorem zero_length_miscounted :
    ∃ s' σ, submit (bulkRequest 0) 0 (.bulk 0) = (0, s') ∧ Queued s' 0 [7] ∧
      Retiring s' 0 (fun _ => 0) [7] σ ∧ ((σ 1).utr 0).xfer_len = 1 ∧
      ¬ Accounted s' 0 [7] σ 0 := by
  have hone : ((td_done (submit (bulkRequest 0) 0 (.bulk 0)).2 7).utr 0).xfer_len = 1 := by decide +kernel
  have hwrote : Wrote ((submit (bulkRequest 0) 0 (.bulk 0)).2.td 7)
      ((submit (bulkRequest 0) 0 (.bulk 0)).2.td 7) 0 :=
    ⟨rfl, rfl, rfl, rfl, Or.inl (by decide +kernel)⟩
  have hzero : ∀ {i : ℕ}, i < [7].length → i = 0 := fun hi => Nat.lt_one_iff.mp hi
  refine ⟨(submit (bulkRequest 0) 0 (.bulk 0)).2, fun i =>
      if i = 0 then (submit (bulkRequest 0) 0 (.bulk 0)).2
      else td_done (submit (bulkRequest 0) 0 (.bulk 0)).2 7,
    Prod.ext (by decide +kernel) rfl, ⟨6, by decide +kernel, ?_⟩, ⟨rfl, ?_, ?_⟩, hone, ?_⟩
  · have hnext : (submit (bulkRequest 0) 0 (.bulk 0)).2.NextTD 7 = none := by decide +kernel
    exact ⟨by decide +kernel, hnext⟩
  · intro i hi
    obtain rfl := hzero hi
    exact hwrote
  · intro i hi
    obtain rfl := hzero hi
    rfl
  · rintro ⟨hx, -, -, -, -⟩
    exact absurd (hx.symm.trans (congrArg BitVec.toNat hone)) (by decide)

end Ohci
