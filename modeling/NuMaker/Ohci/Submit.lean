/-
What the submissions do.

For each kind of request the ways it can go: refused, out of memory on the way, or
started, with the states in between.
-/
import NuMaker.Ohci.Pool

namespace Ohci

/-! ### Bulk -/

/-- What `ohci_bulk_xfer` puts into `Info` of its TDs. -/
def bulkInfo (ep : Usb.EP_INFO_T) : BitVec 32 :=
  (TD_CC ||| TD_R ||| (if ep.bEndpointAddress &&& 0x80 = 0 then TD_DP_OUT else TD_DP_IN) |||
    TD_TYPE_BULK) &&& ~~~TOGGLE

/-- What `ed_make_info` gives for a request with endpoint record `p`. -/
def State.info (s : State) (u p : ℕ) : BitVec 32 := ed_make_info (s.utr u).udev (some (s.ep p))

/-- The ED of the endpoint from `h` on. -/
def State.findED (s : State) (h : Option ℕ) (info : BitVec 32) : Option ℕ :=
  Links.search s.NextED (fun e => (s.ed e).Info = info) MEM_POOL_UNIT_NUM h

/-- The ED is the one that was found, or a new one from the pool. -/
inductive GotED (s : State) (old : Option ℕ) : ℕ → Bool → State → Prop
  | found {ed : ℕ} (h : old = some ed) : GotED s old ed false s
  | new {ed : ℕ} {s₁ : State} (h : old = none) (ha : alloc_ohci_ED s = (some ed, s₁)) :
    GotED s old ed true s₁

/-- A bulk request has got its ED, free of TDs, and has built TDs. -/
structure BulkGoes (s : State) (u p ed : ℕ) (new : Bool) (s₁ s₂ : State) (ok : Bool)
    (td_list : Option ℕ) (l : List ℕ) : Prop where
  got : GotED s (s.findED s.HcBulkHeadED (s.info u p)) ed new s₁
  idle : new = false → (s.ed ed).HeadP = (s.ed ed).TailP
  built : Built u ed (bulkPrepare s₁ u p ed (s.info u p) new)
    (bulkPrepare s₁ u p ed (s.info u p) new) s₂ [] ok td_list l
  cnt : s₂.utr u = { s.utr u with td_cnt := l.length }
  chunks : ok = true → List.Forall₂ (Filled s₂ ed (bulkInfo (s.ep p))) l
    (chunks ((s.utr u).data_len.toNat / 4096 + 1) (s.utr u).buff (s.utr u).data_len)

inductive BulkDone (s : State) (u p : ℕ) : ℤ × State → Prop
  | busy : BulkDone s u p (USBH_ERR_OHCI_EP_BUSY, s)
  | noED (h : freeUnit s = none) : BulkDone s u p (USBH_ERR_MEMORY_OUT, s)
  | short {ed : ℕ} {new : Bool} {s₁ s₂ : State} {td_list : Option ℕ} {l : List ℕ}
    (h : BulkGoes s u p ed new s₁ s₂ false td_list l) :
    BulkDone s u p (USBH_ERR_MEMORY_OUT, free_ohci_ED (freeTDs MEM_POOL_UNIT_NUM s₂ td_list) ed)
  | started {ed : ℕ} {new : Bool} {s₁ s₂ : State} {td_list : Option ℕ} {l : List ℕ}
    (h : BulkGoes s u p ed new s₁ s₂ true td_list l) :
    BulkDone s u p (0, bulkStart s₂ u ed td_list new)

theorem bulkPrepare_utr {s : State} {u p ed : ℕ} {info : BitVec 32} {new : Bool} :
    (bulkPrepare s u p ed info new).utr u = { s.utr u with td_cnt := 0 } := by
  cases new with
  | false => simp [bulkPrepare, State.setHwPipe]
  | true => simp [bulkPrepare, State.setHwPipe, State.setED]

theorem bulkPrepare_hw_pipe {s : State} {u p ed : ℕ} {info : BitVec 32} {new : Bool} :
    ((bulkPrepare s u p ed info new).ep p).hw_pipe = some ed := by
  cases new with
  | false => simp [bulkPrepare, State.setHwPipe, State.setUTR]
  | true => simp [bulkPrepare, State.setHwPipe, State.setUTR]

theorem alloc_ohci_ED_utr {s s₁ : State} {o : Option ℕ} (h : alloc_ohci_ED s = (o, s₁)) : s₁.utr = s.utr := by
  cases o with
  | none => rw [(alloc_ohci_ED_eq_none h).2]
  | some i =>
    rw [(alloc_ohci_ED_eq_some h).2.2]
    rfl

/-- Once a bulk request has its ED, it builds its TDs and starts, or runs out of memory. -/
theorem BulkDone.of_got {s s₁ : State} {u p ed : ℕ} {new : Bool}
    (hgot : GotED s (s.findED s.HcBulkHeadED (s.info u p)) ed new s₁)
    (hidle : new = false → (s.ed ed).HeadP = (s.ed ed).TailP) :
    BulkDone s u p
      (match bulkLoop u ed (bulkInfo (s.ep p)) ((s.utr u).data_len.toNat / 4096 + 1)
          (bulkPrepare s₁ u p ed (s.info u p) new) (s.utr u).buff (s.utr u).data_len none with
      | (false, s, td_list) =>
        (USBH_ERR_MEMORY_OUT, free_ohci_ED (freeTDs MEM_POOL_UNIT_NUM s td_list) ed)
      | (true, s, td_list) => (0, bulkStart s u ed td_list new)) := by
  obtain ⟨ok, s₂, td_list, l, heq, hbuilt, hcnt, hchunks⟩ := bulkLoop_built u ed (bulkInfo (s.ep p)) _
    ((s.utr u).data_len.toNat / 4096 + 1) _ (s.utr u).buff (s.utr u).data_len none []
    (Building.refl u (bulkPrepare s₁ u p ed (s.info u p) new))
  have hutr : s₁.utr = s.utr := by
    cases hgot with
    | found _ => rfl
    | new _ ha => exact alloc_ohci_ED_utr ha
  have hgoes : BulkGoes s u p ed new s₁ s₂ ok td_list l := by
    refine ⟨hgot, hidle, hbuilt, ?_, hchunks⟩
    rw [hcnt, bulkPrepare_utr, hutr]
    simp
  rw [heq]
  cases ok with
  | false => exact .short hgoes
  | true => exact .started hgoes

theorem ohci_bulk_xfer_done (s : State) (u p : ℕ) : BulkDone s u p (ohci_bulk_xfer s u p) := by
  unfold ohci_bulk_xfer
  dsimp only
  cases hold : s.findED s.HcBulkHeadED (s.info u p) with
  | some ed =>
    unfold State.findED State.info at hold
    rw [hold]
    by_cases hbusy : (s.ed ed).HeadP = (s.ed ed).TailP
    · simp only [Option.any_some, hbusy, ne_eq, not_true, decide_false, Bool.false_eq_true, if_false]
      exact .of_got (.found hold) fun _ => hbusy
    · simp only [Option.any_some, hbusy, ne_eq, not_false_eq_true, decide_true, if_true]
      exact .busy
  | none =>
    unfold State.findED State.info at hold
    rw [hold]
    simp only [Option.any_none, Bool.false_eq_true, if_false]
    cases halloc : alloc_ohci_ED s with
    | mk o s₁ =>
      cases o with
      | none =>
        obtain ⟨hnone, rfl⟩ := alloc_ohci_ED_eq_none halloc
        exact .noED hnone
      | some ed => exact .of_got (.new hold halloc) fun h => absurd h (by decide)

section bulkStart

variable (s : State) (u ed : ℕ) (td_list : Option ℕ) (new : Bool)

theorem bulkStart_td : (bulkStart s u ed td_list new).td = s.td := by
  cases new with
  | false => rfl
  | true => rfl

theorem bulkStart_ep : (bulkStart s u ed td_list new).ep = s.ep := by
  cases new with
  | false => rfl
  | true => rfl

theorem bulkStart_utr : (bulkStart s u ed td_list new).utr u = { s.utr u with status := 0 } := by
  cases new with
  | false => exact Function.update_self _ _ _
  | true => exact Function.update_self _ _ _

theorem bulkStart_HeadP : ((bulkStart s u ed td_list new).ed ed).HeadP = td_list := by
  cases new with
  | false => simp [bulkStart]
  | true => simp [bulkStart]

end bulkStart

/-! ### Control -/

/-- The TDs `l` have been taken from the pool for request `u`, and nothing else has
changed. -/
structure Took (u : ℕ) (s s' : State) (l : List ℕ) : Prop where
  nodup : l.Nodup
  fresh : ∀ t ∈ l, t < MEM_POOL_UNIT_NUM ∧ s.unit_used t = false
  used : ∀ t, s'.unit_used t = (s.unit_used t || decide (t ∈ l))
  td : ∀ t ∉ l, s'.td t = s.td t
  zero : ∀ t ∈ l, s'.td t = { TD_T.zero with utr := some u }
  ed : s'.ed = s.ed
  utr : s'.utr = s.utr
  rest : SameRest s s'

theorem Took.refl (u : ℕ) (s : State) : Took u s s [] :=
  ⟨List.nodup_nil, by simp, by simp, fun _ _ => rfl, by simp, rfl, rfl, .refl s⟩

theorem Took.alloc {u t : ℕ} {s s₁ s₂ : State} {l : List ℕ} (h : Took u s s₁ l)
    (ha : alloc_ohci_TD s₁ (some u) = (some t, s₂)) : Took u s s₂ (l ++ [t]) := by
  obtain ⟨ht, hfree, hs₂⟩ := alloc_ohci_TD_eq_some ha
  rw [h.used t, Bool.or_eq_false_iff, decide_eq_false_iff_not] at hfree
  have htd : s₂.td = Function.update s₁.td t { TD_T.zero with utr := some u } := by
    rw [hs₂]
    rfl
  constructor
  · rw [List.nodup_append]
    refine ⟨h.nodup, List.nodup_singleton t, ?_⟩
    rintro a hal b hb rfl
    exact hfree.2 (List.mem_singleton.mp hb ▸ hal)
  · intro a hal
    rcases List.mem_append.mp hal with hal | hal
    · exact h.fresh a hal
    · obtain rfl := List.mem_singleton.mp hal
      exact ⟨ht, hfree.1⟩
  · intro a
    have hused : s₂.unit_used = Function.update s₁.unit_used t true := by
      rw [hs₂]
    by_cases hat : a = t
    · subst hat
      simp [hused]
    · simp [hused, hat, h.used a]
  · intro a hal
    simp only [List.mem_append, List.mem_singleton, not_or] at hal
    rw [htd, Function.update_of_ne hal.2]
    exact h.td a hal.1
  · intro a hal
    rw [htd]
    by_cases hat : a = t
    · rw [hat, Function.update_self]
    · rw [Function.update_of_ne hat]
      exact h.zero a ((List.mem_append.mp hal).resolve_right (by simpa using hat))
  · rw [hs₂]
    exact h.ed
  · rw [hs₂]
    exact h.utr
  · exact h.rest.trans (by rw [hs₂]; exact ⟨rfl, rfl, rfl, rfl, rfl, rfl, rfl⟩)

/-- The TDs of a control request: SETUP, DATA if there are data, STATUS. -/
def ctrlTDs (data_len : BitVec 32) (td_setup td_data td_status : ℕ) : List ℕ :=
  if 0 < data_len then [td_setup, td_data, td_status] else [td_setup, td_status]

/-- The ways of a control request: out of memory, with the TDs `l` given back, or
started. -/
inductive CtrlDone (s : State) (u : ℕ) : ℤ × State → Prop
  | short {s₁ : State} {l l' : List ℕ} (h : Took u s s₁ l) (hp : l'.Perm l) :
    CtrlDone s u (USBH_ERR_MEMORY_OUT, l'.foldl (fun s t => free_ohci_TD s (some t)) s₁)
  | started {s₁ s₂ : State} {ed td_setup td_data td_status : ℕ} {new : Bool}
    (h : Took u s s₁ (ctrlTDs (s.utr u).data_len td_setup td_data td_status))
    (got : GotED s₁ (s.ep (s.utr u).udev.ep0).hw_pipe ed new s₂) :
    CtrlDone s u (0, ctrlStart s₂ u ed td_setup td_data td_status)

/-- A control request that has its TDs needs an ED still. -/
theorem CtrlDone.of_took {s : State} {u td_setup td_status : ℕ} (s₁ : State) (td_data : Option ℕ)
    (h : Took u s s₁ (ctrlTDs (s.utr u).data_len td_setup (td_data.getD 0) td_status))
    (hdata : td_data.isSome = decide (0 < (s.utr u).data_len)) :
    CtrlDone s u
      (let p : Option ℕ × State :=
        match (s₁.ep (s.utr u).udev.ep0).hw_pipe with
        | none => alloc_ohci_ED s₁
        | some ed => (some ed, s₁)
      match p.1 with
      | none => (USBH_ERR_MEMORY_OUT,
        free_ohci_TD (free_ohci_TD (free_ohci_TD p.2 (some td_setup)) (some td_status)) td_data)
      | some ed => (0, ctrlStart p.2 u ed td_setup (td_data.getD 0) td_status)) := by
  dsimp only
  rw [h.rest.ep]
  cases hpipe : (s.ep (s.utr u).udev.ep0).hw_pipe with
  | some ed => exact .started h (.found hpipe)
  | none =>
    cases halloc : alloc_ohci_ED s₁ with
    | mk o s₂ =>
    cases o with
    | some ed => exact .started h (.new hpipe halloc)
    | none =>
      obtain ⟨-, rfl⟩ := alloc_ohci_ED_eq_none halloc
      cases td_data with
      | none =>
        have hlen : ¬ 0 < (s.utr u).data_len := by simpa using hdata.symm
        rw [ctrlTDs, if_neg hlen] at h
        exact .short h (.refl _)
      | some td_data =>
        have hlen : 0 < (s.utr u).data_len := by simpa using hdata.symm
        rw [ctrlTDs, if_pos hlen] at h
        have hperm : [td_setup, td_status, td_data].Perm [td_setup, td_data, td_status] :=
          .cons _ (.swap _ _ _)
        exact .short h hperm

theorem ohci_ctrl_xfer_done (s : State) (u : ℕ) : CtrlDone s u (ohci_ctrl_xfer s u) := by
  unfold ohci_ctrl_xfer
  dsimp only
  have h₀ := Took.refl u s
  cases hsetup : alloc_ohci_TD s (some u) with
  | mk o s₁ =>
  cases o with
  | none =>
    -- the pool is used up, and so it is for the other TDs
    obtain ⟨hnone, rfl⟩ := alloc_ohci_TD_eq_none hsetup
    by_cases hlen : 0 < (s₁.utr u).data_len
    · simp only [hlen, if_true, hsetup]
      exact .short h₀ (.refl _)
    · simp only [hlen, if_false, hsetup]
      exact .short h₀ (.refl _)
  | some td_setup =>
    have h₁ := h₀.alloc hsetup
    by_cases hlen : 0 < (s.utr u).data_len
    · simp only [hlen, if_true]
      cases hdata : alloc_ohci_TD s₁ (some u) with
      | mk o s₂ =>
      cases o with
      | none =>
        obtain ⟨hnone, rfl⟩ := alloc_ohci_TD_eq_none hdata
        simp only [hdata]
        exact .short h₁ (.refl _)
      | some td_data =>
        have h₂ := h₁.alloc hdata
        cases hstatus : alloc_ohci_TD s₂ (some u) with
        | mk o s₃ =>
        cases o with
        | none =>
          obtain ⟨hnone, rfl⟩ := alloc_ohci_TD_eq_none hstatus
          exact .short h₂ (.refl _)
        | some td_status =>
          have h₃ := h₂.alloc hstatus
          refine .of_took s₃ (some td_data) ?_ (by rw [decide_eq_true hlen]; rfl)
          rw [ctrlTDs, if_pos hlen]
          exact h₃
    · simp only [hlen, if_false]
      cases hstatus : alloc_ohci_TD s₁ (some u) with
      | mk o s₂ =>
      cases o with
      | none =>
        obtain ⟨hnone, rfl⟩ := alloc_ohci_TD_eq_none hstatus
        exact .short h₁ (.refl _)
      | some td_status =>
        have h₂ := h₁.alloc hstatus
        refine .of_took s₂ none ?_ (by rw [decide_eq_false hlen]; rfl)
        rw [ctrlTDs, if_neg hlen]
        exact h₂

theorem GotED.keeps {s s₁ : State} {old : Option ℕ} {ed : ℕ} {new : Bool} (h : GotED s old ed new s₁) :
    s₁.td = s.td ∧ s₁.utr = s.utr ∧ SameRest s s₁ := by
  cases h with
  | found _ => exact ⟨rfl, rfl, .refl s⟩
  | new _ ha =>
    obtain ⟨-, -, rfl⟩ := alloc_ohci_ED_eq_some ha
    exact ⟨rfl, rfl, rfl, rfl, rfl, rfl, rfl, rfl, rfl⟩

/-- `Info` of the TDs of the three stages. -/
def setupInfo : BitVec 32 := TD_CC ||| TD_T_DATA0 ||| TD_TYPE_CTRL

def dataInfo (utr : UTR_T) : BitVec 32 :=
  TD_CC ||| TD_R ||| (if utr.bmRequestType &&& 0x80 = 0 then TD_DP_OUT else TD_DP_IN) ||| TD_T_DATA1 |||
    TD_TYPE_CTRL ||| TD_CTRL_DATA

def statusInfo (utr : UTR_T) : BitVec 32 :=
  TD_CC ||| (if utr.bmRequestType &&& 0x80 = 0 then TD_DP_IN else TD_DP_OUT) ||| TD_T_DATA1 ||| TD_TYPE_CTRL

/-- What the TDs of a control request are filled with. -/
def ctrlPieces (utr : UTR_T) : List (BitVec 32 × BitVec 32 × BitVec 32) :=
  if 0 < utr.data_len then
    [(setupInfo, utr.setup, 8), (dataInfo utr, utr.buff, utr.data_len), (statusInfo utr, 0, 0)]
  else [(setupInfo, utr.setup, 8), (statusInfo utr, 0, 0)]

section ctrlStart

variable {s : State} {u : ℕ} (ed : ℕ) {td_setup td_data td_status : ℕ}

/-- The TDs that `ctrlStart` fills are linked in order. -/
theorem ctrlStart_links (hd : (ctrlTDs (s.utr u).data_len td_setup td_data td_status).Nodup) :
    Links (ctrlStart s u ed td_setup td_data td_status).NextTD (some td_setup)
      (ctrlTDs (s.utr u).data_len td_setup td_data td_status) none := by
  unfold ctrlTDs at hd ⊢
  unfold ctrlStart State.NextTD State.setHwPipe State.setUTR State.setED State.setTD
  by_cases h : 0 < (s.utr u).data_len
  · simp only [h, if_true] at hd ⊢
    obtain ⟨⟨h₁₂, h₁₃⟩, h₂₃⟩ : (td_setup ≠ td_data ∧ td_setup ≠ td_status) ∧ td_data ≠ td_status := by
      simpa using hd
    simp [h₁₂, h₁₃, h₂₃]
  · simp only [h, if_false] at hd ⊢
    have h₁₂ : td_setup ≠ td_status := by simpa using hd
    simp [h₁₂]

theorem ctrlStart_filled (hd : (ctrlTDs (s.utr u).data_len td_setup td_data td_status).Nodup)
    (hz : ∀ t ∈ ctrlTDs (s.utr u).data_len td_setup td_data td_status,
      s.td t = { TD_T.zero with utr := some u }) :
    List.Forall₂ (fun t c => Filled (ctrlStart s u ed td_setup td_data td_status) ed c.1 t c.2 ∧
      ((ctrlStart s u ed td_setup td_data td_status).td t).utr = some u)
      (ctrlTDs (s.utr u).data_len td_setup td_data td_status) (ctrlPieces (s.utr u)) := by
  unfold ctrlTDs at hd hz ⊢
  unfold ctrlPieces ctrlStart Filled State.setHwPipe State.setUTR State.setED State.setTD
  by_cases h : 0 < (s.utr u).data_len
  · simp only [h, if_true] at hd hz ⊢
    obtain ⟨⟨h₁₂, h₁₃⟩, h₂₃⟩ : (td_setup ≠ td_data ∧ td_setup ≠ td_status) ∧ td_data ≠ td_status := by
      simpa using hd
    have hz₁ := hz td_setup (by simp)
    have hz₂ := hz td_data (by simp)
    have hz₃ := hz td_status (by simp)
    refine .cons ?_ (.cons ?_ (.cons ?_ .nil))
    · simp [h₁₂, h₁₃, hz₁]
      exact ⟨⟨rfl, rfl, rfl, rfl, rfl⟩, rfl⟩
    · simp [h₂₃, h₁₂.symm, hz₂]
      exact ⟨⟨rfl, rfl, rfl, rfl, rfl⟩, rfl⟩
    · simp [h₁₃.symm, h₂₃.symm, hz₃]
      exact ⟨⟨rfl, rfl, rfl, rfl, rfl⟩, rfl⟩
  · simp only [h, if_false] at hd hz ⊢
    have h₁₂ : td_setup ≠ td_status := by simpa using hd
    have hz₁ := hz td_setup (by simp)
    have hz₂ := hz td_status (by simp)
    refine .cons ?_ (.cons ?_ .nil)
    · simp [h₁₂, hz₁]
      exact ⟨⟨rfl, rfl, rfl, rfl, rfl⟩, rfl⟩
    · simp [h₁₂.symm, hz₂]
      exact ⟨⟨rfl, rfl, rfl, rfl, rfl⟩, rfl⟩

theorem ctrlStart_hw_pipe :
    ((ctrlStart s u ed td_setup td_data td_status).ep (s.utr u).udev.ep0).hw_pipe = some ed := by
  unfold ctrlStart
  simp [State.setHwPipe, State.setUTR, State.setED]

theorem ctrlStart_HeadP : ((ctrlStart s u ed td_setup td_data td_status).ed ed).HeadP = some td_setup := by
  unfold ctrlStart
  simp [State.setHwPipe, State.setUTR]

theorem ctrlStart_utr : (ctrlStart s u ed td_setup td_data td_status).utr u = { s.utr u with
    td_cnt := (ctrlTDs (s.utr u).data_len td_setup td_data td_status).length
    ep := some (s.utr u).udev.ep0 } := by
  unfold ctrlStart ctrlTDs
  by_cases h : 0 < (s.utr u).data_len
  · simp only [h, if_true]
    simp [State.setHwPipe, State.setUTR, State.setED, State.setTD]
  · simp only [h, if_false]
    simp [State.setHwPipe, State.setUTR, State.setED, State.setTD]

end ctrlStart

end Ohci
