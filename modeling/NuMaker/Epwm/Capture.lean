/-
The EPWM capture driver: pulse widths from captured edges.

The counter starts again at every edge, and its value there, with a flag for having been all the
way round, is the width of the pulse that ended.  The interrupt serves one edge; when it finds a
rising and a falling one it drops both.

* **`nu_epwmcap_isr`** — the driver, with the part of the framework that it calls;
* **`World.step`** — the counter, the line and the driver;
* **`Inv`** — where they stand;
* **`captured`** — the edges that are served alone, and their records;
* **`pair_dropped`** — two that are not.
-/
import Mathlib.Data.Int.Init
import Mathlib.Data.List.Basic
import Mathlib.Tactic.Common
import NuMaker.Lib.Guarded

namespace Epwm

/-! ### The driver -/

def RT_EOK : ℤ := 0
def RT_ERROR : ℤ := 1

/-- The capture registers of a channel. -/
structure Capture where
  counter : BitVec 16
  /-- Set when the counter reaches `0xFFFF`. -/
  CNTMAXF : Bool
  CRLIF : Bool
  CFLIF : Bool
  RCAPDAT : BitVec 16
  FCAPDAT : BitVec 16
deriving DecidableEq, Repr

/-- `struct nu_epwmcap`. -/
structure nu_epwmcap where
  u32CurrentRisingCnt : BitVec 32
  u32CurrentFallingCnt : BitVec 32
  input_data_level : Bool
deriving DecidableEq, Repr

def EPWM_GetCaptureIntFlag (c : Capture) : ℕ :=
  (if c.CFLIF then 2 else 0) + if c.CRLIF then 1 else 0

/-- The width, from what is left in the driver and what was captured. -/
def width (bWrapAroundFlag : Bool) (cnt : BitVec 32) (data : BitVec 16) : BitVec 32 :=
  (if bWrapAroundFlag then 0x10000 else cnt) + data.setWidth 32

def CalPulseWidth (d : nu_epwmcap) (c : Capture) : ℤ × nu_epwmcap × Capture :=
  let bWrapAroundFlag := c.CNTMAXF
  let c := { c with CNTMAXF := false }
  if EPWM_GetCaptureIntFlag c = 1 then
    (RT_EOK, { d with u32CurrentRisingCnt := width bWrapAroundFlag d.u32CurrentRisingCnt c.RCAPDAT },
      { c with CRLIF := false })
  else if EPWM_GetCaptureIntFlag c = 2 then
    (RT_EOK, { d with u32CurrentFallingCnt := width bWrapAroundFlag d.u32CurrentFallingCnt c.FCAPDAT },
      { c with CFLIF := false })
  -- rising and falling edge
  else (-RT_ERROR, d, { c with CRLIF := false, CFLIF := false })

/-- The pulse width, or `none` for an error. -/
def nu_epwmcap_get_pulsewidth (d : nu_epwmcap) : Option (BitVec 32) × nu_epwmcap :=
  if d.u32CurrentFallingCnt ≠ 0 then
    (some d.u32CurrentFallingCnt, { d with input_data_level := false, u32CurrentFallingCnt := 0 })
  else if d.u32CurrentRisingCnt ≠ 0 then
    (some d.u32CurrentRisingCnt, { d with input_data_level := true, u32CurrentRisingCnt := 0 })
  else (none, d)

/-- `struct rt_inputcapture_data`. -/
structure rt_inputcapture_data where
  pulsewidth_us : BitVec 32
  is_high : Bool
deriving DecidableEq, Repr

def rt_hw_inputcapture_isr (d : nu_epwmcap) (level : Bool) : Option rt_inputcapture_data × nu_epwmcap :=
  ((nu_epwmcap_get_pulsewidth d).1.map fun w => ⟨w, level⟩, (nu_epwmcap_get_pulsewidth d).2)

/-- The interrupt of a channel: the record that is stored, if any. -/
def nu_epwmcap_isr (d : nu_epwmcap) (c : Capture) : Option rt_inputcapture_data × nu_epwmcap × Capture :=
  if EPWM_GetCaptureIntFlag c ≠ 0 then
    let (ret, d, c) := CalPulseWidth d c
    if ret = RT_EOK then
      let (record, d) := rt_hw_inputcapture_isr d d.input_data_level
      (record, d, c)
    else (none, d, c)
  else (none, d, c)

/-! ### Runs -/

/-- An edge: the counter's steps since the one before, and the level that lasted for them. -/
structure Edge where
  since : ℕ
  level : Bool
deriving DecidableEq, Repr

/-- The channel, its driver and the records; with them the level of the line, the counter's steps
since the last edge, the edges, those that wait for the interrupt, and those that it found alone. -/
structure World where
  cap : Capture
  drv : nu_epwmcap
  records : List rt_inputcapture_data
  level : Bool
  since : ℕ
  edges : List Edge
  waiting : List Edge
  alone : List Edge

/-- The counter steps, the line changes its level, or the interrupt is served. -/
inductive Event
  | tick
  | edge
  | isr
deriving DecidableEq, Repr

def World.tick (w : World) : World :=
  { w with
    cap := { w.cap with
      counter := w.cap.counter + 1
      CNTMAXF := w.cap.CNTMAXF || w.cap.counter + 1 == 0xFFFF }
    since := w.since + 1 }

/-- The counter is captured, and starts again. -/
def World.edge (w : World) : World :=
  { w with
    cap :=
      if w.level then { w.cap with CFLIF := true, FCAPDAT := w.cap.counter, counter := 0 }
      else { w.cap with CRLIF := true, RCAPDAT := w.cap.counter, counter := 0 }
    level := !w.level
    since := 0
    edges := w.edges ++ [⟨w.since, w.level⟩]
    waiting := w.waiting ++ [⟨w.since, w.level⟩] }

def World.isr (w : World) : World :=
  { w with
    cap := (nu_epwmcap_isr w.drv w.cap).2.2
    drv := (nu_epwmcap_isr w.drv w.cap).2.1
    records := w.records ++ (nu_epwmcap_isr w.drv w.cap).1.toList
    waiting := []
    alone := w.alone ++ if w.waiting.length = 1 then w.waiting else [] }

def World.step (w : World) : Event → World
  | .tick => w.tick
  | .edge => w.edge
  | .isr => w.isr

/-- After `nu_epwmcap_open`, with the line at a level. -/
def World.start (level : Bool) : World :=
  ⟨⟨0, false, false, false, 0, 0⟩, ⟨0, 0, false⟩, [], level, 0, [], [], []⟩

def World.after (w : World) (evs : List Event) : World := evs.foldl World.step w

def run (level : Bool) (evs : List Event) : World := (World.start level).after evs

/-! ### Where they stand -/

/-- The interrupt is not too late, and the flag says what happened: the counter reaches its end only
when no edge waits, two edges wait at most, and no edge comes after no step, nor, but for the first,
just when the counter is at its end or after two rounds of it. -/
def World.Clean (w : World) : Event → Prop
  | .tick => w.waiting ≠ [] → w.since + 1 < 65535
  | .edge => w.since ≠ 0 ∧ w.waiting.length ≤ 1 ∧ (w.edges ≠ [] → w.since ≠ 65535 ∧ w.since < 131072)
  | .isr => True

instance (w : World) (e : Event) : Decidable (w.Clean e) := by
  cases e <;> unfold World.Clean <;> infer_instance

/-- What the flags and the captured counts are about. -/
def World.Held (w : World) : Prop :=
  match w.waiting with
  | [] => w.cap.CRLIF = false ∧ w.cap.CFLIF = false ∧ (w.cap.CNTMAXF = true ↔ 65535 ≤ w.since)
  | [e] => w.cap.CFLIF = e.level ∧ w.cap.CRLIF = !e.level ∧
      (if e.level then w.cap.FCAPDAT else w.cap.RCAPDAT).toNat = e.since % 65536 ∧
      (w.cap.CNTMAXF = true ↔ 65535 ≤ e.since) ∧ w.since < 65535 ∧ w.level = !e.level
  | [_, _] => w.cap.CRLIF = true ∧ w.cap.CFLIF = true ∧ w.since < 65535
  | _ => False

/-- The edge a record is about. -/
def rt_inputcapture_data.edge (r : rt_inputcapture_data) : Edge := ⟨r.pulsewidth_us.toNat, r.is_high⟩

structure Inv (w : World) : Prop where
  counter : w.cap.counter.toNat = w.since % 65536
  idle : w.drv.u32CurrentRisingCnt = 0 ∧ w.drv.u32CurrentFallingCnt = 0
  held : w.Held
  /-- The driver remembers the level after the last edge that it has seen. -/
  level : w.alone ≠ [] →
    w.drv.input_data_level = match w.waiting with | [e] => e.level | _ => w.level
  heard : w.alone ≠ [] ∨ w.waiting ≠ [] → w.edges ≠ []
  wide : ∀ e, w.waiting = [e] →
    e.since ≠ 0 ∧ (w.alone ≠ [] → e.since ≠ 65535 ∧ e.since < 131072)
  count : w.records.length = w.alone.length
  records : (w.records.drop 1).map rt_inputcapture_data.edge = w.alone.drop 1

variable {w : World}

theorem Inv.start (level : Bool) : Inv (World.start level) where
  counter := rfl
  idle := ⟨rfl, rfl⟩
  held := ⟨rfl, rfl, ⟨fun h => absurd h Bool.false_ne_true, fun h => absurd h (Nat.not_succ_le_zero _)⟩⟩
  level h := absurd rfl h
  heard h := h.elim id id
  wide e h := by cases h
  count := rfl
  records := rfl

theorem succ_toNat {x : BitVec 16} {n : ℕ} (h : x.toNat = n % 65536) : (x + 1).toNat = (n + 1) % 65536 := by
  rw [BitVec.toNat_add, h]
  show (n % 65536 + 1) % 65536 = _
  omega

theorem eq_max_iff {x : BitVec 16} {n : ℕ} (h : x.toNat = n % 65536) : (x == 0xFFFF) = decide (n % 65536 = 65535) := by
  rw [Bool.eq_iff_iff, beq_iff_eq, decide_eq_true_eq, ← h]
  constructor
  · rintro rfl
    rfl
  · intro hx
    exact BitVec.eq_of_toNat_eq hx

theorem Inv.tick (h : Inv w) (hc : w.Clean .tick) : Inv w.tick := by
  have hsucc := succ_toNat h.counter
  have hmax := eq_max_iff hsucc
  refine ⟨hsucc, h.idle, ?_, h.level, h.heard, h.wide, h.count, h.records⟩
  have hheld := h.held
  -- while an edge waits the counter is on its way, and the flag stays
  have hflag (hne : w.waiting ≠ []) : (w.cap.CNTMAXF || w.cap.counter + 1 == 0xFFFF) = w.cap.CNTMAXF := by
    have hlt := hc hne
    rw [hmax, decide_eq_false (by omega), Bool.or_false]
  unfold World.Held at hheld ⊢
  rcases hw : w.waiting with _ | ⟨e, _ | ⟨e', _ | ⟨e'', es⟩⟩⟩ <;>
    simp only [World.tick, hw] at hheld ⊢
  · obtain ⟨hr, hf, hiff⟩ := hheld
    refine ⟨hr, hf, ?_⟩
    rw [hmax, Bool.or_eq_true, decide_eq_true_eq, hiff]
    omega
  · obtain ⟨hf, hr, hdat, hiff, -, hlevel⟩ := hheld
    have hne : w.waiting ≠ [] := hw ▸ List.cons_ne_nil _ _
    exact ⟨hf, hr, hdat, by rw [hflag hne, hiff], hc hne, hlevel⟩
  · obtain ⟨hr, hf, -⟩ := hheld
    exact ⟨hr, hf, hc (hw ▸ List.cons_ne_nil _ _)⟩

theorem Inv.edge (h : Inv w) (hc : w.Clean .edge) : Inv w.edge := by
  obtain ⟨hpos, hone, hwide⟩ := hc
  have hheld := h.held
  have hcounter := h.counter
  have hlevel := h.level
  have hrestart : w.edge.cap.counter.toNat = w.edge.since % 65536 := by
    cases hl : w.level <;> simp [World.edge, hl]
  have hheard : w.edge.alone ≠ [] ∨ w.edge.waiting ≠ [] → w.edge.edges ≠ [] := fun _ => by simp [World.edge]
  unfold World.Held at hheld
  rcases hw : w.waiting with _ | ⟨e, _ | ⟨e', es⟩⟩
  -- the edge is alone so far
  · simp only [hw] at hheld hlevel
    obtain ⟨hr, hf, hiff⟩ := hheld
    refine ⟨hrestart, h.idle, ?_, ?_, hheard, ?_, h.count, h.records⟩
    · cases hl : w.level <;> simp [World.Held, World.edge, hw, hl, hr, hf, hiff, hcounter]
    · intro ha
      simp only [World.edge, hw, List.nil_append]
      exact hlevel ha
    · intro e he
      simp only [World.edge, hw, List.nil_append, List.cons.injEq, and_true] at he
      subst he
      exact ⟨hpos, fun ha => hwide (h.heard (.inl ha))⟩
  -- it joins the one that waits
  · simp only [hw] at hheld hlevel
    obtain ⟨hf, hr, -, -, -, hl⟩ := hheld
    refine ⟨hrestart, h.idle, ?_, ?_, hheard, ?_, h.count, h.records⟩
    · cases he : e.level <;> simp [World.Held, World.edge, hw, hl, he, hr, hf]
    · intro ha
      simp [World.edge, hw, hlevel ha, hl]
    · intro e' he'
      simp [World.edge, hw] at he'
  · rw [hw] at hone
    exact absurd hone (by simp)

/-! ### The interrupt -/

theorem flags_none {c : Capture} (hr : c.CRLIF = false) (hf : c.CFLIF = false) :
    EPWM_GetCaptureIntFlag c = 0 := by
  simp [EPWM_GetCaptureIntFlag, hr, hf]

/-- Nothing waits. -/
theorem nu_epwmcap_isr_none {d : nu_epwmcap} {c : Capture} (hr : c.CRLIF = false) (hf : c.CFLIF = false) :
    nu_epwmcap_isr d c = (none, d, c) := by
  simp [nu_epwmcap_isr, flags_none hr hf]

/-- Both flags are up: they are dropped, and no record is stored. -/
theorem nu_epwmcap_isr_both {d : nu_epwmcap} {c : Capture} (hr : c.CRLIF = true) (hf : c.CFLIF = true) :
    nu_epwmcap_isr d c =
      (none, d, { c with CNTMAXF := false, CRLIF := false, CFLIF := false }) := by
  simp [nu_epwmcap_isr, CalPulseWidth, EPWM_GetCaptureIntFlag, hr, hf, RT_EOK, RT_ERROR]

/-- One flag is up: a width other than zero is stored with the level that the driver remembers. -/
theorem nu_epwmcap_isr_one {d : nu_epwmcap} {c : Capture} {high : Bool}
    (hd : d.u32CurrentRisingCnt = 0 ∧ d.u32CurrentFallingCnt = 0)
    (hf : c.CFLIF = high) (hr : c.CRLIF = !high)
    (hne : width c.CNTMAXF 0 (if high then c.FCAPDAT else c.RCAPDAT) ≠ 0) :
    nu_epwmcap_isr d c =
      (some ⟨width c.CNTMAXF 0 (if high then c.FCAPDAT else c.RCAPDAT), d.input_data_level⟩,
        ⟨0, 0, !high⟩, { c with CNTMAXF := false, CRLIF := false, CFLIF := false }) := by
  obtain ⟨rising, falling, level⟩ := d
  obtain ⟨rfl, rfl⟩ := hd
  cases high <;>
    simp [nu_epwmcap_isr, CalPulseWidth, EPWM_GetCaptureIntFlag, rt_hw_inputcapture_isr,
      nu_epwmcap_get_pulsewidth, hr, hf, RT_EOK] at hne ⊢ <;>
    simp [hne]

/-- The flag stands for one time round. -/
theorem width_toNat {b : Bool} {x : BitVec 16} {n : ℕ} (hx : x.toNat = n % 65536)
    (hb : b = true ↔ 65535 ≤ n) (hn : n ≠ 65535 ∧ n < 131072) : (width b 0 x).toNat = n := by
  have hlt := x.isLt
  have hwidth : (width b 0 x).toNat = (if b then 65536 else 0) + x.toNat := by
    cases b <;> simp [width, BitVec.toNat_add, BitVec.toNat_setWidth] <;> omega
  rw [hwidth, hx]
  cases b <;> simp at hb ⊢ <;> omega

theorem width_ne_zero {b : Bool} {x : BitVec 16} {n : ℕ} (hx : x.toNat = n % 65536)
    (hb : b = true ↔ 65535 ≤ n) (hn : n ≠ 0) : width b 0 x ≠ 0 := by
  have hlt := x.isLt
  have hwidth : (width b 0 x).toNat = (if b then 65536 else 0) + x.toNat := by
    cases b <;> simp [width, BitVec.toNat_add, BitVec.toNat_setWidth] <;> omega
  intro h0
  rw [h0, hx] at hwidth
  cases b <;> simp at hb hwidth <;> omega

theorem Inv.isr (h : Inv w) : Inv w.isr := by
  have hheld := h.held
  have hlevel := h.level
  unfold World.Held at hheld
  rcases hw : w.waiting with _ | ⟨e, _ | ⟨e', _ | ⟨e'', es⟩⟩⟩ <;> simp only [hw] at hheld hlevel
  · have hisr := nu_epwmcap_isr_none (d := w.drv) hheld.1 hheld.2.1
    refine ⟨?_, ?_, ?_, ?_, ?_, ?_, ?_, ?_⟩ <;> simp [World.isr, World.Held, hw, hisr]
    · exact h.counter
    · exact h.idle
    · exact hheld
    · exact hlevel
    · exact fun ha => h.heard (.inl ha)
    · exact h.count
    · simpa using h.records
  · obtain ⟨hf, hr, hdat, hiff, hlt, hl⟩ := hheld
    obtain ⟨hpos, hwide⟩ := h.wide e hw
    have hisr := nu_epwmcap_isr_one h.idle hf hr (width_ne_zero hdat hiff hpos)
    refine ⟨?_, ?_, ?_, ?_, ?_, ?_, ?_, ?_⟩ <;> simp [World.isr, World.Held, hw, hisr]
    · exact h.counter
    · omega
    · rw [hl, Bool.not_not]
    · exact h.heard (.inr (hw ▸ List.cons_ne_nil _ _))
    · simpa using h.count
    · rcases ha : w.alone with _ | ⟨e₀, as⟩ <;> rcases hrec : w.records with _ | ⟨r₀, rs⟩
      -- the first record says nothing
      · rfl
      · simpa [ha, hrec] using h.count
      · simpa [ha, hrec] using h.count
      · have hne : w.alone ≠ [] := ha ▸ List.cons_ne_nil _ _
        have hrs := h.records
        rw [ha, hrec] at hrs
        simp only [List.cons_append, List.drop_one, List.tail_cons, List.map_append, List.map_cons,
          List.map_nil] at hrs ⊢
        rw [hrs, List.append_cancel_left_eq, List.cons.injEq]
        refine ⟨?_, rfl⟩
        show (⟨(width w.cap.CNTMAXF 0 _).toNat, w.drv.input_data_level⟩ : Edge) = e
        rw [width_toNat hdat hiff (hwide hne), hlevel hne]
  · have hisr := nu_epwmcap_isr_both (d := w.drv) hheld.1 hheld.2.1
    refine ⟨?_, ?_, ?_, ?_, ?_, ?_, ?_, ?_⟩ <;> simp [World.isr, World.Held, hw, hisr]
    · exact h.counter
    · exact h.idle
    · exact hheld.2.2
    · exact hlevel
    · exact fun ha => h.heard (.inl ha)
    · exact h.count
    · simpa using h.records

theorem Inv.step (h : Inv w) (e : Event) (hc : w.Clean e) : Inv (w.step e) := by
  cases e with
  | tick => exact h.tick hc
  | edge => exact h.edge hc
  | isr => exact h.isr

/-! ### The records -/

/-- No edge comes while another waits. -/
def World.Prompt (w : World) (e : Event) : Prop := e = .edge → w.waiting = []

instance (w : World) (e : Event) : Decidable (w.Prompt e) := by
  unfold World.Prompt
  infer_instance

/-- The edges that were found alone are edges, in their order. -/
theorem alone_sublist (w : World) (e : Event) (h : List.Sublist (w.alone ++ w.waiting) w.edges) :
    List.Sublist ((w.step e).alone ++ (w.step e).waiting) (w.step e).edges := by
  cases e with
  | tick => exact h
  | edge =>
    show List.Sublist (w.alone ++ (w.waiting ++ _)) (w.edges ++ _)
    rw [← List.append_assoc]
    exact h.append_right _
  | isr =>
    refine List.Sublist.trans ?_ h
    show List.Sublist ((w.alone ++ if _ then _ else _) ++ []) _
    rw [List.append_nil, List.append_sublist_append_left]
    split
    · exact List.Sublist.refl _
    · exact List.nil_sublist _

/-- When no edge comes while another waits, they are all of them. -/
theorem alone_all (w : World) (e : Event)
    (h : w.edges = w.alone ++ w.waiting ∧ w.waiting.length ≤ 1) (hp : w.Prompt e) :
    (w.step e).edges = (w.step e).alone ++ (w.step e).waiting ∧ (w.step e).waiting.length ≤ 1 := by
  obtain ⟨hall, hone⟩ := h
  cases e with
  | tick => exact ⟨hall, hone⟩
  | edge =>
    simp [World.step, World.edge, hall, hp rfl]
  | isr =>
    rcases hw : w.waiting with _ | ⟨e, _ | ⟨e', es⟩⟩
    · simp [World.step, World.isr, hall, hw]
    · simp [World.step, World.isr, hall, hw]
    · rw [hw] at hone
      exact absurd hone (by simp)

/-- **Records**: whatever the latency that the flags can tell apart, every edge that its interrupt
finds alone yields one record, and but for the first the record has the distance to the edge before
and the level that lasted for it.  When no edge comes while another waits, these are all the edges
that have been served. -/
theorem captured (level : Bool) (evs : List Event)
    (hc : Guarded.Along World.step World.Clean (World.start level) evs) :
    (run level evs).records.length = (run level evs).alone.length ∧
    ((run level evs).records.drop 1).map rt_inputcapture_data.edge = (run level evs).alone.drop 1 ∧
    List.Sublist ((run level evs).alone ++ (run level evs).waiting) (run level evs).edges ∧
    (Guarded.Along World.step World.Prompt (World.start level) evs →
      (run level evs).edges = (run level evs).alone ++ (run level evs).waiting) := by
  have hinv : Inv (run level evs) := hc.inv (fun w e h hc => h.step e hc) (Inv.start level)
  refine ⟨hinv.count, hinv.records, ?_, fun hp => ?_⟩
  · exact Guarded.Along.inv (I := fun w => List.Sublist (w.alone ++ w.waiting) w.edges)
      (fun w e h _ => alone_sublist w e h) (List.Sublist.refl _) hc
  · exact (Guarded.Along.inv
      (I := fun w => w.edges = w.alone ++ w.waiting ∧ w.waiting.length ≤ 1)
      (fun w e h hp => alone_all w e h hp) ⟨rfl, Nat.zero_le 1⟩ hp).1

theorem captured_pulse :
    Guarded.Along World.step World.Clean (World.start false) [.tick, .edge, .isr, .tick, .tick, .edge, .isr] ∧
    ((run false [.tick, .edge, .isr, .tick, .tick, .edge, .isr]).records.drop 1).map
      rt_inputcapture_data.edge = (run false [.tick, .edge, .isr, .tick, .tick, .edge, .isr]).alone.drop 1 :=
  ⟨by decide, (captured false [.tick, .edge, .isr, .tick, .tick, .edge, .isr] (by decide)).2.1⟩

/-- The third edge comes before the interrupt of the second, and neither yields a record. -/
theorem pair_dropped :
    (run false [.tick, .edge, .isr, .tick, .edge, .tick, .edge, .isr]).edges.length = 3 ∧
    (run false [.tick, .edge, .isr, .tick, .edge, .tick, .edge, .isr]).waiting = [] ∧
    (run false [.tick, .edge, .isr, .tick, .edge, .tick, .edge, .isr]).records.length = 1 := by
  decide

end Epwm
