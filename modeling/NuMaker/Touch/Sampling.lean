/-
The resistive touch panel of `touch_sw.c`: the timer callback `nu_adc_touch_smpl` samples the
panel every 40 ms and puts a record on a message queue while the pen is down, and one more
when it is lifted.

The edge is taken from the static `u32LastZ0`, which remembers the last *sample*; whether the
record of that sample was queued is not remembered.  A refused pen-up is therefore not retried:

* **`World.release`** — in every run whose lifts meet a queue that takes them, no release
  is lost and no two pen-ups follow each other;
* **`World.lost_for_good`** — after a refused pen-up no number of further samples queues it.
-/
import Mathlib.Data.List.Basic
import Mathlib.Data.List.Chain

namespace Touch

/-! ### The driver -/

/-- `struct nu_adc_touch_data`. -/
structure nu_adc_touch_data where
  u32X : BitVec 32
  u32Y : BitVec 32
  u32Z0 : BitVec 32
  u32Z1 : BitVec 32
deriving DecidableEq, Repr

/-- The threshold under which both axes must lie for the pen to be down. -/
def DEF_ADC_THS : BitVec 32 := 3950

/-- The file's variables, and the statics of the callback. -/
structure Driver where
  /-- `g_psTouchSW->adc` is set. -/
  adc : Bool
  /-- `g_psTouchSW->psRtTouch`, the touch device to notify. -/
  psRtTouch : Option ℕ
  bDoSmpling : Bool
  bDrop : Bool
  u32LastZ0 : BitVec 32
deriving DecidableEq, Repr

/-- The variables after `nu_adc_touch_sw_register`, before the first sample. -/
def Driver.boot : Driver :=
  { adc := true, psRtTouch := none, bDoSmpling := false, bDrop := false, u32LastZ0 := 0xffff }

/-- `Get_X` and `Get_Y` keep twelve bits of what the converter reads. -/
def Get (rt_adc_read : BitVec 32) : BitVec 32 := rt_adc_read &&& 0x0FFF

/-- The point a sample makes of the two conversions: `Z0` and `Z1` are set under the threshold. -/
def point (x y : BitVec 32) : nu_adc_touch_data :=
  if Get x < DEF_ADC_THS ∧ Get y < DEF_ADC_THS then
    { u32X := Get x, u32Y := Get y, u32Z0 := 1, u32Z1 := 1 }
  else { u32X := Get x, u32Y := Get y, u32Z0 := 0, u32Z1 := 0 }

/-- What a call of `nu_adc_touch_smpl` leaves: the statics, the record the queue took and the
device that was notified. -/
structure Smpl where
  drv : Driver
  queued : Option nu_adc_touch_data
  isr : Option ℕ
deriving DecidableEq, Repr

/-- `nu_adc_touch_smpl`, for the two conversions and the queue's answer to an `rt_mq_send` made
at that time: `room` is `RT_EOK`, its absence `-RT_EFULL`. -/
def nu_adc_touch_smpl (d : Driver) (x y : BitVec 32) (room : Bool) : Smpl :=
  if ¬ d.bDoSmpling then { drv := d, queued := none, isr := none }
  else
    let p := point x y
    let bDrop := ! decide (Get x < DEF_ADC_THS ∧ Get y < DEF_ADC_THS)
    -- the pen is down, or it was at the sample before: the record is sent
    let sent := (! bDrop || d.u32LastZ0 != 0) && room
    -- `u32LastZ0` follows the sample whether or not the queue took its record
    { drv := { d with bDrop := bDrop, u32LastZ0 := p.u32Z0 }
      queued := if sent then some p else none
      isr := if sent then d.psRtTouch else none }

/-- `nu_adc_touch_enable`. -/
def nu_adc_touch_enable (d : Driver) (psRtTouch : Option ℕ) : Driver :=
  if d.adc then { d with psRtTouch := psRtTouch, bDoSmpling := true } else d

/-- `nu_adc_touch_disable`. -/
def nu_adc_touch_disable (d : Driver) : Driver :=
  if d.adc then { d with psRtTouch := none, bDoSmpling := false } else d

/-! ### Runs -/

/-- One thing that happens to the driver. -/
inductive Op
  /-- The sampling timer fires: the conversions, and whether the queue has room. -/
  | smpl (x y : BitVec 32) (room : Bool)
  | enable (psRtTouch : Option ℕ)
  | disable
deriving DecidableEq, Repr

/-- The driver with the history of a run: the points sampled, the records queued, and whether
the queue had room at some sample since the pen was last seen down. -/
structure World where
  drv : Driver
  sampled : List nu_adc_touch_data
  queued : List nu_adc_touch_data
  drained : Bool
deriving DecidableEq, Repr

/-- The world at registration. -/
def World.boot : World := { drv := Driver.boot, sampled := [], queued := [], drained := false }

/-- One step of a run. -/
def World.step (w : World) : Op → World
  | .smpl x y room =>
    let r := nu_adc_touch_smpl w.drv x y room
    if w.drv.bDoSmpling then
      { drv := r.drv
        sampled := w.sampled ++ [point x y]
        queued := w.queued ++ r.queued.toList
        drained := (point x y).u32Z0 = 0 ∧ (w.drained ∨ room) }
    else { w with drv := r.drv }
  | .enable t => { w with drv := nu_adc_touch_enable w.drv t }
  | .disable => { w with drv := nu_adc_touch_disable w.drv }

/-- A run of the driver. -/
def World.run (w : World) (ops : List Op) : World := ops.foldl World.step w

/-! ### What a run should show -/

/-- The record of a lifted pen. -/
def nu_adc_touch_data.Up (r : nu_adc_touch_data) : Prop := r.u32Z0 = 0

instance (r : nu_adc_touch_data) : Decidable r.Up := inferInstanceAs (Decidable (_ = _))

/-- The last record queued, if there is one, is a pen-up: no pen-down is left without the
pen-up that ends it. -/
def Released (l : List nu_adc_touch_data) : Prop := ∀ r ∈ l.getLast?, r.Up

instance (l : List nu_adc_touch_data) : Decidable (Released l) :=
  inferInstanceAs (Decidable (∀ r ∈ l.getLast?, r.Up))

/-- What a touch driver owes its reader: the records are queued in the order of their samples,
two pen-ups never follow each other, and once the pen is up and the queue has had room since,
the last pen-down queued is followed by a pen-up. -/
structure World.Reported (w : World) : Prop where
  inOrder : w.queued.Sublist w.sampled
  noDoubleUp : w.queued.IsChain fun a b => ¬ (a.Up ∧ b.Up)
  released : w.drained → Released w.queued

/-- The lift of a step meets the right queue.  Only the first sample of a lifted pen matters:
the queue must have room if the last record in it is a pen-down; if that is a pen-up, no record
of the touch now ending was taken and the pen-up must not be either. -/
def World.Timely (w : World) : Op → Prop
  | .smpl x y room => w.drv.bDoSmpling → (point x y).Up → w.drv.u32LastZ0 ≠ 0 →
      ∀ r ∈ w.queued.getLast?, (room ↔ ¬ r.Up)
  | _ => True

instance (w : World) (o : Op) : Decidable (w.Timely o) := by
  cases o <;> unfold World.Timely <;> infer_instance

/-- Every step of the run is timely. -/
def World.TimelyRun (w : World) : List Op → Prop
  | [] => True
  | o :: ops => w.Timely o ∧ (w.step o).TimelyRun ops

/-! ### One sample -/

/-- A point is a pen-up or has `Z0 = 1`. -/
theorem point_Z0 (x y : BitVec 32) :
    (point x y).u32Z0 = if Get x < DEF_ADC_THS ∧ Get y < DEF_ADC_THS then 1 else 0 := by
  unfold point
  split <;> rfl

/-- What a sample does while sampling is on: the statics follow the point, and the point is
queued when there is room and the pen is, or just was, down. -/
theorem nu_adc_touch_smpl_eq {d : Driver} (hd : d.bDoSmpling = true) (x y : BitVec 32)
    (room : Bool) :
    (nu_adc_touch_smpl d x y room).drv.u32LastZ0 = (point x y).u32Z0 ∧
    (nu_adc_touch_smpl d x y room).queued =
      if (¬ (point x y).Up ∨ d.u32LastZ0 ≠ 0) ∧ room then some (point x y) else none := by
  by_cases h : Get x < DEF_ADC_THS ∧ Get y < DEF_ADC_THS
  · simp [nu_adc_touch_smpl, hd, nu_adc_touch_data.Up, point_Z0, h]
  · simp [nu_adc_touch_smpl, hd, nu_adc_touch_data.Up, point_Z0, h]

/-- With sampling off the callback does nothing. -/
theorem nu_adc_touch_smpl_off {d : Driver} (hd : d.bDoSmpling = false) (x y : BitVec 32)
    (room : Bool) : nu_adc_touch_smpl d x y room = { drv := d, queued := none, isr := none } := by
  simp [nu_adc_touch_smpl, hd]

/-! ### The invariant of a timely run -/

/-- Between the steps of a timely run the reader has what it is owed, and a pen remembered as
lifted is one whose release was queued. -/
structure World.Clean (w : World) : Prop extends w.Reported where
  lifted : w.drv.u32LastZ0 = 0 → Released w.queued

theorem released_append {l : List nu_adc_touch_data} {p : nu_adc_touch_data} (hp : p.Up) :
    Released (l ++ [p]) := by
  simpa [Released] using hp

/-- A record may follow the queued ones when it, or the last of them, is a pen-down. -/
theorem noDoubleUp_append {l : List nu_adc_touch_data} {p : nu_adc_touch_data}
    (h : l.IsChain fun a b => ¬ (a.Up ∧ b.Up)) (hp : p.Up → ∀ r ∈ l.getLast?, ¬ r.Up) :
    (l ++ [p]).IsChain fun a b => ¬ (a.Up ∧ b.Up) := by
  refine List.IsChain.append h (List.isChain_singleton p) fun r hr q hq => ?_
  obtain rfl : p = q := by simpa using hq
  rintro ⟨hr', hq'⟩
  exact hp hq' r hr hr'

/-- The driver's switches touch neither the history nor the remembered sample. -/
theorem World.Clean.congr {w w' : World} (h : w.Clean) (hs : w'.sampled = w.sampled)
    (hq : w'.queued = w.queued) (hd : w'.drained = w.drained)
    (hz : w'.drv.u32LastZ0 = w.drv.u32LastZ0) : w'.Clean where
  inOrder := by rw [hs, hq]; exact h.inOrder
  noDoubleUp := by rw [hq]; exact h.noDoubleUp
  released := by rw [hd, hq]; exact h.released
  lifted := by rw [hz, hq]; exact h.lifted

/-- A sample of the pen down: its record may always follow. -/
theorem World.Clean.down {w : World} (h : w.Clean) (hd : w.drv.bDoSmpling = true)
    {x y : BitVec 32} (hp : ¬ (point x y).Up) (room : Bool) :
    (w.step (.smpl x y room)).Clean := by
  obtain ⟨hz, hq⟩ := nu_adc_touch_smpl_eq hd x y room
  rw [if_congr (and_iff_right (Or.inl hp)) rfl rfl] at hq
  constructor
  · constructor
    · simp only [step, hd, if_true, hq]
      refine h.inOrder.append ?_
      split <;> simp
    · simp only [step, hd, if_true, hq]
      split
      · exact noDoubleUp_append h.noDoubleUp fun hp' => absurd hp' hp
      · simpa using h.noDoubleUp
    · intro hdr
      simp only [step, hd, if_true, decide_eq_true_eq] at hdr
      exact absurd hdr.1 hp
  · intro hl
    simp only [step, hd, if_true, hz] at hl
    exact absurd hl hp

/-- A sample of the pen up. -/
theorem World.Clean.up {w : World} (h : w.Clean) (hd : w.drv.bDoSmpling = true)
    {x y : BitVec 32} (hp : (point x y).Up) {room : Bool} (ht : w.Timely (.smpl x y room)) :
    (w.step (.smpl x y room)).Clean := by
  obtain ⟨hz, hq⟩ := nu_adc_touch_smpl_eq hd x y room
  replace ht := ht hd hp
  -- the queue after the step: the record of the lift, or what there was and already released
  have key : ((w.step (.smpl x y room)).queued = w.queued ++ [point x y] ∧
        ∀ r ∈ w.queued.getLast?, ¬ r.Up) ∨
      ((w.step (.smpl x y room)).queued = w.queued ∧ Released w.queued) := by
    simp only [step, hd, if_true, hq]
    by_cases hl : w.drv.u32LastZ0 = 0
    · right
      refine ⟨by simp [hl, hp], h.lifted hl⟩
    · cases room with
      | true =>
        left
        rw [if_pos ⟨Or.inr hl, rfl⟩]
        exact ⟨rfl, fun r hr => (ht hl r hr).1 rfl⟩
      | false =>
        refine Or.inr ⟨by simp, fun r hr => ?_⟩
        by_contra hr'
        exact absurd ((ht hl r hr).2 hr') (by simp)
  have hs : (w.step (.smpl x y room)).sampled = w.sampled ++ [point x y] := by simp [step, hd]
  obtain ⟨hw, hlast⟩ | ⟨hw, hrel⟩ := key
  · exact
      { inOrder := by rw [hw, hs]; exact h.inOrder.append (List.Sublist.refl _)
        noDoubleUp := by rw [hw]; exact noDoubleUp_append h.noDoubleUp fun _ => hlast
        released := fun _ => by rw [hw]; exact released_append hp
        lifted := fun _ => by rw [hw]; exact released_append hp }
  · exact
      { inOrder := by rw [hw, hs]; exact h.inOrder.trans (List.sublist_append_left _ _)
        noDoubleUp := by rw [hw]; exact h.noDoubleUp
        released := fun _ => by rw [hw]; exact hrel
        lifted := fun _ => by rw [hw]; exact hrel }

/-- **One timely step keeps the invariant.** -/
theorem World.Clean.step {w : World} (h : w.Clean) {o : Op} (ht : w.Timely o) :
    (w.step o).Clean := by
  cases o with
  | smpl x y room =>
    cases hd : w.drv.bDoSmpling with
    | true =>
      by_cases hp : (point x y).Up
      · exact h.up hd hp ht
      · exact h.down hd hp room
    | false =>
      have hw : w.step (.smpl x y room) = w := by
        simp [World.step, hd, nu_adc_touch_smpl_off hd]
      rwa [hw]
  | enable t =>
    refine h.congr rfl rfl rfl ?_
    simp only [World.step, nu_adc_touch_enable]
    split <;> rfl
  | disable =>
    refine h.congr rfl rfl rfl ?_
    simp only [World.step, nu_adc_touch_disable]
    split <;> rfl

/-- A timely run keeps the invariant. -/
theorem World.Clean.run {w : World} (h : w.Clean) {ops : List Op} (ht : w.TimelyRun ops) :
    (w.run ops).Clean := by
  induction ops generalizing w with
  | nil => exact h
  | cons o ops ih => exact ih (h.step ht.1) ht.2

theorem World.Clean.boot : World.boot.Clean where
  inOrder := List.Sublist.refl _
  noDoubleUp := List.isChain_nil
  released := by rintro ⟨⟩
  lifted := fun _ r hr => by cases hr

/-- **In a timely run no release is lost**: in every state reached the records are in sample
order, no two pen-ups follow each other, and the release of a pen that is up is queued as soon
as the queue has had room. -/
theorem World.release {ops : List Op} (ht : World.boot.TimelyRun ops) :
    (World.boot.run ops).Reported :=
  (World.Clean.boot.run ht).toReported

/-- A run of one touch with the queue open throughout, sampled four times. -/
theorem World.release_one_touch :
    (World.boot.run [.enable (some 1), .smpl 0 0 true, .smpl 0 0 false, .smpl 4095 0 true,
      .smpl 4095 0 true]).Reported :=
  World.release (by simp only [World.TimelyRun]; decide)

/-- A touch whose pen-up meets a full queue: the pen stays up, the queue drains, and the last
record queued is still the pen-down. -/
theorem World.release_lost :
    ¬ ∀ ops : List Op, (World.boot.run ops).Reported := by
  intro h
  have h' := (h [.enable (some 1), .smpl 0 0 true, .smpl 4095 0 false, .smpl 4095 0 true]).released
  exact absurd h' (by decide)

/-! ### Why the lost release stays lost -/

/-- A stretch of samples that all see the pen up. -/
def AllUp (ops : List Op) : Prop :=
  ∀ o ∈ ops, ∀ x y room, o = .smpl x y room → (point x y).Up

/-- Once a lifted pen is remembered as lifted, no sample of the pen up queues anything:
whatever room the queue has by then, a refused pen-up stays unqueued. -/
theorem World.lost_for_good {w : World} (hz : w.drv.u32LastZ0 = 0) {ops : List Op}
    (hu : AllUp ops) : (w.run ops).queued = w.queued := by
  induction ops generalizing w with
  | nil => rfl
  | cons o ops ih =>
    have hrest : AllUp ops := fun o ho => hu o (List.mem_cons_of_mem _ ho)
    have hstep : (w.step o).drv.u32LastZ0 = 0 ∧ (w.step o).queued = w.queued := by
      cases o with
      | smpl x y room =>
        have hp := hu _ List.mem_cons_self x y room rfl
        cases hd : w.drv.bDoSmpling with
        | true =>
          obtain ⟨hz', hq⟩ := nu_adc_touch_smpl_eq hd x y room
          simp only [World.step, hd, if_true, hz', hq]
          exact ⟨hp, by simp [hp, hz]⟩
        | false => simp [World.step, hd, nu_adc_touch_smpl_off hd, hz]
      | enable t =>
        simp only [World.step, nu_adc_touch_enable]
        split <;> exact ⟨hz, trivial⟩
      | disable =>
        simp only [World.step, nu_adc_touch_disable]
        split <;> exact ⟨hz, trivial⟩
    show ((w.step o).run ops).queued = w.queued
    rw [ih hstep.1 hrest, hstep.2]

end Touch
