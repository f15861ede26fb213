/-
The touch panel on a serial line: `touch_serial.c`.

A record is five bytes: a head with bit 7 set, and two coordinates of twelve bits, seven and five bits to
a byte.  `serial_touch_process` puts bytes into a buffer and looks at bit 7 of the first only.

* **`serial_touch_process`**, **`nu_adc_touch_read_xyz`** — the driver, and what it does when the line
  is quiet (`quiet`);
* **`World.formed_eq`** — the records formed are the frames of the bytes heard, however these come in
  pieces and whatever happens between two pieces;
* **`packets_kept`** — and so every packet but the first behind a disturbance comes out as it was sent, and
  is read in its turn, where no record meets a full queue.
-/
import NuMaker.Touch.Sampling
import NuMaker.Lib.Framing
import Mathlib.Data.List.GetD
import Mathlib.Logic.Function.Basic

open Framing

namespace Touch.Serial

/-! ### The driver -/

def TOUCH_MQ_LENGTH : ℕ := 32
def SERTH_RESPONSE_BEGIN_BYTE : BitVec 8 := 0x80
def SERTH_FORMAT_PRESSURE_BIT : BitVec 8 := 0x40
def SERTH_FORMAT_TOUCH_BIT : BitVec 8 := 0x01
def DEF_UART_POLLING_T : BitVec 32 := 200

/-- `SERTH_GET_XC` and `SERTH_GET_YC`, of the two bytes of a coordinate. -/
def coordinate (low high resbits : BitVec 8) : BitVec 32 :=
  let sum := ((high &&& resbits).setWidth 32 <<< 7) + (low &&& 0x7f).setWidth 32
  (sum.setWidth 16).setWidth 32

/-- The record that five bytes are. -/
def record (data : ℕ → BitVec 8) : nu_adc_touch_data :=
  let u32Z0 := if data 0 &&& SERTH_FORMAT_TOUCH_BIT ≠ 0 ∨ data 0 &&& SERTH_FORMAT_PRESSURE_BIT ≠ 0
    then 1000 else 0
  ⟨coordinate (data 1) (data 2) 0x1f, coordinate (data 3) (data 4) 0x1f, u32Z0, u32Z0⟩

/-- `s_NuSerialTouch`, and the message queue. -/
structure nu_serial_touch where
  tp_data : nu_adc_touch_data
  last_point : BitVec 32
  last_up : BitVec 32
  idx : ℕ
  data : ℕ → BitVec 8
  g_pmqTouchXYZ : List nu_adc_touch_data

def nu_serial_touch.boot : nu_serial_touch := ⟨⟨0, 0, 0, 0⟩, 0, 0, 0, fun _ => 0, []⟩

/-- A queue that is full refuses. -/
def rt_mq_send (q : List nu_adc_touch_data) (v : nu_adc_touch_data) : Option (List nu_adc_touch_data) :=
  if q.length < TOUCH_MQ_LENGTH then some (q ++ [v]) else none

/-- One round of the loop of `serial_touch_process`, at the tick `now`. -/
def nu_serial_touch.byte (s : nu_serial_touch) (b : BitVec 8) (now : BitVec 32) : nu_serial_touch :=
  let data := Function.update s.data s.idx b
  if SERTH_RESPONSE_BEGIN_BYTE &&& data 0 = 0 then { s with data := data }
  else if s.idx + 1 = 5 then
    let tp := record data
    match rt_mq_send s.g_pmqTouchXYZ tp with
    | some q =>
      { s with data := data, idx := 0, tp_data := tp, g_pmqTouchXYZ := q, last_point := now,
               last_up := if tp.u32Z0 = 0 then now else s.last_up }
    | none => { s with data := data, idx := 0, tp_data := tp }
  else { s with data := data, idx := s.idx + 1 }

/-- The bytes of one read, each with the tick at which it is looked at. -/
def serial_touch_process (s : nu_serial_touch) (buffer : List (BitVec 8 × BitVec 32)) : nu_serial_touch :=
  buffer.foldl (fun s p => s.byte p.1 p.2) s

/-- The thread has waited for bytes in vain: the pen-up that the panel may have failed to report. -/
def nu_serial_touch.quiet (s : nu_serial_touch) : nu_serial_touch :=
  if DEF_UART_POLLING_T ≤ s.last_point - s.last_up then
    let tp := { s.tp_data with u32Z0 := 0, u32Z1 := 0 }
    { s with tp_data := tp, last_up := s.last_point
             g_pmqTouchXYZ := (rt_mq_send s.g_pmqTouchXYZ tp).getD s.g_pmqTouchXYZ }
  else s

/-- The records read, and the driver after it. -/
def nu_adc_touch_read_xyz (s : nu_serial_touch) (dataCnt : ℕ) : List nu_adc_touch_data × nu_serial_touch :=
  (s.g_pmqTouchXYZ.take dataCnt, { s with g_pmqTouchXYZ := s.g_pmqTouchXYZ.drop dataCnt })

/-! ### Runs -/

/-- The record that a byte completes. -/
def nu_serial_touch.forms (s : nu_serial_touch) (b : BitVec 8) : Option nu_adc_touch_data :=
  let data := Function.update s.data s.idx b
  if SERTH_RESPONSE_BEGIN_BYTE &&& data 0 ≠ 0 ∧ s.idx + 1 = 5 then some (record data) else none

/-- The driver; the bytes heard and the records formed of them; the records that the queue took, each
with whether it was formed of bytes; those that were read; and whether the queue has refused one. -/
structure World where
  drv : nu_serial_touch
  heard : List (BitVec 8)
  formed : List nu_adc_touch_data
  sent : List (nu_adc_touch_data × Bool)
  got : List nu_adc_touch_data
  refused : Bool

def World.boot : World := ⟨.boot, [], [], [], [], false⟩

/-- What can happen: a read of the line, no byte for 200 ticks, and a read of the queue. -/
inductive Op
  | process (buffer : List (BitVec 8 × BitVec 32))
  | quiet
  | read (dataCnt : ℕ)

def World.hear (w : World) (b : BitVec 8) (now : BitVec 32) : World :=
  let w' := { w with drv := w.drv.byte b now, heard := w.heard ++ [b],
                     formed := w.formed ++ (w.drv.forms b).toList }
  match w.drv.forms b with
  | none => w'
  | some tp =>
    if w.drv.g_pmqTouchXYZ.length < TOUCH_MQ_LENGTH then { w' with sent := w.sent ++ [(tp, true)] }
    else { w' with refused := true }

def World.step (w : World) : Op → World
  | .process buffer => buffer.foldl (fun w p => w.hear p.1 p.2) w
  | .quiet =>
    let w' := { w with drv := w.drv.quiet }
    if DEF_UART_POLLING_T ≤ w.drv.last_point - w.drv.last_up then
      if w.drv.g_pmqTouchXYZ.length < TOUCH_MQ_LENGTH then
        { w' with sent := w.sent ++ [({ w.drv.tp_data with u32Z0 := 0, u32Z1 := 0 }, false)] }
      else { w' with refused := true }
    else w'
  | .read n =>
    let r := nu_adc_touch_read_xyz w.drv n
    { w with drv := r.2, got := w.got ++ r.1 }

def World.run (w : World) (ops : List Op) : World := ops.foldl World.step w

/-! ### The driver finds frames -/

/-- A head has bit 7 set. -/
def head (b : BitVec 8) : Bool := SERTH_RESPONSE_BEGIN_BYTE &&& b ≠ 0

/-- The record of the bytes of a frame. -/
def recordOf (f : List (BitVec 8)) : nu_adc_touch_data := record fun i => f.getD i 0

/-- The buffer holds the bytes of a frame that is not complete. -/
structure Holds (s : nu_serial_touch) (buf : List (BitVec 8)) : Prop where
  idx : s.idx = buf.length
  data : ∀ i < buf.length, s.data i = buf.getD i 0

variable {s : nu_serial_touch} {buf : List (BitVec 8)} {b : BitVec 8} {now : BitVec 32}

/-- The buffer with one byte more. -/
theorem Holds.update (h : Holds s buf) (b : BitVec 8) {i : ℕ} (hi : i < buf.length + 1) :
    Function.update s.data s.idx b i = (buf ++ [b]).getD i 0 := by
  rw [h.idx]
  by_cases hlast : i = buf.length
  · subst hlast
    rw [Function.update_self, List.getD_append_right _ _ _ _ le_rfl, Nat.sub_self]
    rfl
  · have hlt : i < buf.length := by omega
    rw [Function.update_of_ne hlast, List.getD_append _ _ _ _ hlt, h.data i hlt]

/-- Bit 7 of the first byte, with the new byte in the buffer. -/
theorem Holds.head_iff (h : Holds s buf) (hp : Partial head 5 buf) (b : BitVec 8) :
    SERTH_RESPONSE_BEGIN_BYTE &&& Function.update s.data s.idx b 0 = 0 ↔ buf = [] ∧ head b = false := by
  rw [h.update b (Nat.succ_pos _)]
  cases buf with
  | nil =>
    change SERTH_RESPONSE_BEGIN_BYTE &&& b = 0 ↔ _
    simp [head]
  | cons c cs =>
    have hc : head c = true := hp.head c rfl
    change SERTH_RESPONSE_BEGIN_BYTE &&& c = 0 ↔ _
    exact iff_of_false (by simpa [head] using hc) fun hnil => List.cons_ne_nil c cs hnil.1

theorem Holds.record (h : Holds s buf) (b : BitVec 8) (hlen : buf.length + 1 = 5) :
    record (Function.update s.data s.idx b) = recordOf (buf ++ [b]) := by
  simp only [recordOf, Serial.record]
  rw [h.update b (by omega : 0 < buf.length + 1), h.update b (by omega : 1 < buf.length + 1),
    h.update b (by omega : 2 < buf.length + 1), h.update b (by omega : 3 < buf.length + 1),
    h.update b (by omega : 4 < buf.length + 1)]

/-- A byte is a letter of the line. -/
theorem forms_eq (h : Holds s buf) (hp : Partial head 5 buf) (b : BitVec 8) :
    s.forms b = (feed head 5 buf b).2.map recordOf := by
  have hhead := h.head_iff hp b
  simp only [nu_serial_touch.forms, feed]
  by_cases hskip : buf = [] ∧ head b = false
  · rw [if_pos hskip, if_neg fun hc => hc.1 (hhead.mpr hskip)]
    rfl
  · rw [if_neg hskip, h.idx]
    by_cases hfull : buf.length + 1 = 5
    · rw [if_pos hfull, if_pos ⟨fun hz => hskip (hhead.mp (h.idx ▸ hz)), hfull⟩, ← h.idx, h.record b hfull]
      rfl
    · rw [if_neg hfull, if_neg fun hc => hfull hc.2]
      rfl

theorem Holds.byte (h : Holds s buf) (hp : Partial head 5 buf) (b : BitVec 8) (now : BitVec 32) :
    Holds (s.byte b now) (feed head 5 buf b).1 := by
  have hhead := h.head_iff hp b
  simp only [nu_serial_touch.byte, feed]
  by_cases hskip : buf = [] ∧ head b = false
  · rw [if_pos (hhead.mpr hskip), if_pos hskip]
    exact ⟨by rw [h.idx, hskip.1], fun i hi => absurd hi (Nat.not_lt_zero i)⟩
  · rw [if_neg fun hz => hskip (hhead.mp hz), if_neg hskip]
    by_cases hfull : buf.length + 1 = 5
    · rw [if_pos (by rw [h.idx]; exact hfull), if_pos hfull]
      cases rt_mq_send s.g_pmqTouchXYZ (Serial.record (Function.update s.data s.idx b)) <;>
        exact ⟨rfl, fun i hi => absurd hi (Nat.not_lt_zero i)⟩
    · rw [if_neg (by rw [h.idx]; exact hfull), if_neg hfull]
      refine ⟨?_, fun i hi => ?_⟩
      · change s.idx + 1 = _
        rw [h.idx, List.length_append, List.length_singleton]
      · rw [List.length_append, List.length_singleton] at hi
        exact h.update b hi

/-! ### Runs find frames -/

/-- What is the same after every step: the records formed are the frames of the bytes heard. -/
structure World.Framed (w : World) : Prop where
  formed : w.formed = (decode head 5 [] w.heard).1.map recordOf
  holds : Holds w.drv (decode head 5 [] w.heard).2

/-- What is on the queue or was read is what was sent; and where the queue refused nothing, the records
sent, the pen-ups of `quiet` left out, are those that were formed. -/
structure World.Queued (w : World) : Prop where
  order : w.got ++ w.drv.g_pmqTouchXYZ = w.sent.map Prod.fst
  all : w.refused = false → (w.sent.filter Prod.snd).map Prod.fst = w.formed

theorem partial_decode (heard : List (BitVec 8)) : Partial head 5 (decode head 5 [] heard).2 :=
  Partial.decode ⟨Nat.succ_pos 4, fun c hc => by cases hc⟩ heard

variable {w : World}

theorem World.Framed.hear (h : w.Framed) (b : BitVec 8) (now : BitVec 32) : (w.hear b now).Framed := by
  have hp := partial_decode w.heard
  have hforms := forms_eq h.holds hp b
  have hheard : decode head 5 [] (w.heard ++ [b]) =
      ((decode head 5 [] w.heard).1 ++ (feed head 5 (decode head 5 [] w.heard).2 b).2.toList,
        (feed head 5 (decode head 5 [] w.heard).2 b).1) := by
    rw [decode_append, decode_one]
  have hfields : (w.hear b now).heard = w.heard ++ [b] ∧ (w.hear b now).drv = w.drv.byte b now ∧
      (w.hear b now).formed = w.formed ++ (w.drv.forms b).toList := by
    rw [World.hear]
    cases w.drv.forms b with
    | none => exact ⟨rfl, rfl, rfl⟩
    | some tp =>
      dsimp only
      split_ifs <;> exact ⟨rfl, rfl, rfl⟩
  obtain ⟨h₁, h₂, h₃⟩ := hfields
  refine ⟨?_, ?_⟩
  · rw [h₁, h₃, hheard, h.formed, hforms, List.map_append]
    cases (feed head 5 (decode head 5 [] w.heard).2 b).2 <;> rfl
  · rw [h₁, h₂, hheard]
    exact h.holds.byte hp b now

/-- The queue after a byte. -/
theorem byte_queue (s : nu_serial_touch) (b : BitVec 8) (now : BitVec 32) :
    (s.byte b now).g_pmqTouchXYZ =
      ((s.forms b).bind (rt_mq_send s.g_pmqTouchXYZ)).getD s.g_pmqTouchXYZ := by
  by_cases hhead : SERTH_RESPONSE_BEGIN_BYTE &&& Function.update s.data s.idx b 0 = 0
  · have hforms : s.forms b = none := if_neg fun h => h.1 hhead
    simp only [nu_serial_touch.byte, hforms, if_pos hhead]
    rfl
  · by_cases hfull : s.idx + 1 = 5
    · have hforms : s.forms b = some (record (Function.update s.data s.idx b)) :=
        if_pos ⟨hhead, hfull⟩
      simp only [nu_serial_touch.byte, hforms, if_neg hhead, if_pos hfull, Option.bind_some]
      cases rt_mq_send s.g_pmqTouchXYZ (record (Function.update s.data s.idx b)) <;> rfl
    · have hforms : s.forms b = none := if_neg fun h => hfull h.2
      simp only [nu_serial_touch.byte, hforms, if_neg hhead, if_neg hfull]
      rfl

theorem World.Queued.hear (h : w.Queued) (b : BitVec 8) (now : BitVec 32) : (w.hear b now).Queued := by
  have hq := byte_queue w.drv b now
  simp only [World.hear]
  cases hf : w.drv.forms b with
  | none =>
    rw [hf] at hq
    exact ⟨by rw [hq]; exact h.order, fun hr => (h.all hr).trans (List.append_nil _).symm⟩
  | some tp =>
    rw [hf, Option.bind_some, rt_mq_send] at hq
    dsimp only
    split_ifs with hroom
    · rw [if_pos hroom] at hq
      refine ⟨?_, fun hr => ?_⟩
      · dsimp only
        rw [hq, Option.getD_some, ← List.append_assoc, h.order, List.map_append]
        rfl
      · dsimp only
        rw [List.filter_append, List.map_append, h.all hr]
        rfl
    · rw [if_neg hroom] at hq
      exact ⟨by rw [hq]; exact h.order, fun hr => Bool.noConfusion hr⟩

/-- A read of the line is its bytes one after the other. -/
theorem process_drv (w : World) (buffer : List (BitVec 8 × BitVec 32)) :
    (w.step (.process buffer)).drv = serial_touch_process w.drv buffer := by
  simp only [World.step, serial_touch_process]
  induction buffer generalizing w with
  | nil => rfl
  | cons p ps ih =>
    rw [List.foldl_cons, List.foldl_cons, ih, World.hear]
    cases w.drv.forms p.1 with
    | none => rfl
    | some tp =>
      dsimp only
      split_ifs <;> rfl

theorem World.Framed.step (h : w.Framed) (op : Op) : (w.step op).Framed := by
  cases op with
  | process buffer =>
    simp only [World.step]
    induction buffer generalizing w with
    | nil => exact h
    | cons p ps ih => exact ih (h.hear p.1 p.2)
  | quiet =>
    have hdrv : Holds w.drv.quiet (decode head 5 [] w.heard).2 := by
      rw [nu_serial_touch.quiet]
      split_ifs <;> exact ⟨h.holds.idx, h.holds.data⟩
    simp only [World.step]
    split_ifs <;> exact ⟨h.formed, hdrv⟩
  | read n => exact ⟨h.formed, h.holds.idx, h.holds.data⟩

theorem World.Queued.step (h : w.Queued) (op : Op) : (w.step op).Queued := by
  cases op with
  | process buffer =>
    simp only [World.step]
    induction buffer generalizing w with
    | nil => exact h
    | cons p ps ih => exact ih (h.hear p.1 p.2)
  | quiet =>
    simp only [World.step, nu_serial_touch.quiet, rt_mq_send]
    split_ifs with hlong hroom
    · refine ⟨?_, fun hr => ?_⟩
      · dsimp only
        rw [Option.getD_some, ← List.append_assoc, h.order, List.map_append]
        rfl
      · dsimp only
        rw [List.filter_append, List.map_append, h.all hr]
        exact List.append_nil _
    · exact ⟨h.order, fun hr => Bool.noConfusion hr⟩
    · exact ⟨h.order, h.all⟩
  | read n =>
    refine ⟨?_, h.all⟩
    simp only [World.step, nu_adc_touch_read_xyz]
    rw [List.append_assoc, List.take_append_drop]
    exact h.order

theorem framed_boot : World.boot.Framed := ⟨rfl, rfl, fun i hi => absurd hi (Nat.not_lt_zero i)⟩

theorem World.run_inv (h : w.Framed) (h' : w.Queued) (ops : List Op) :
    (w.run ops).Framed ∧ (w.run ops).Queued := by
  induction ops generalizing w with
  | nil => exact ⟨h, h'⟩
  | cons op ops ih => exact ih (h.step op) (h'.step op)

/-! ### Packets -/

/-- What the panel sends for a point. -/
structure Packet where
  first : BitVec 8
  x : BitVec 12
  y : BitVec 12
  marked : head first = true

/-- The two bytes of a coordinate. -/
def pieces (v : BitVec 12) : List (BitVec 8) := [(v.setWidth 7).setWidth 8, (v >>> 7).setWidth 8]

def Packet.bytes (p : Packet) : List (BitVec 8) := p.first :: (pieces p.x ++ pieces p.y)

/-- What is to come out of it. -/
def Packet.point (p : Packet) : nu_adc_touch_data :=
  let z := if p.first &&& 0x41 ≠ 0 then 1000 else 0
  ⟨p.x.setWidth 32, p.y.setWidth 32, z, z⟩

/-- A coordinate is read back. -/
theorem coordinate_pieces (v : BitVec 12) :
    coordinate ((v.setWidth 7).setWidth 8) ((v >>> 7).setWidth 8) 0x1f = v.setWidth 32 := by
  have hlow : ∀ n, n &&& 127 = n % 128 := fun n => Nat.and_two_pow_sub_one_eq_mod n 7
  have hhigh : ∀ n, n &&& 31 = n % 32 := fun n => Nat.and_two_pow_sub_one_eq_mod n 5
  have hv := v.isLt
  apply BitVec.eq_of_toNat_eq
  simp only [coordinate, BitVec.toNat_setWidth, BitVec.toNat_add, BitVec.toNat_shiftLeft,
    BitVec.toNat_ushiftRight, BitVec.toNat_and, BitVec.reduceToNat, hlow, hhigh, Nat.shiftLeft_eq,
    Nat.shiftRight_eq_div_pow]
  omega

theorem head_of_lt {b : BitVec 8} (h : b.toNat < 128) : head b = false := by
  have hbits : ∀ b : BitVec 8, b.toNat < 128 → head b = false := by decide +kernel
  exact hbits b h

theorem pieces_unmarked (v : BitVec 12) : ∀ b ∈ pieces v, head b = false := by
  intro b hb
  refine head_of_lt ?_
  simp only [pieces, List.mem_cons, List.not_mem_nil, or_false] at hb
  have hv := v.isLt
  rcases hb with rfl | rfl
  · rw [BitVec.toNat_setWidth, BitVec.toNat_setWidth]
    omega
  · rw [BitVec.toNat_setWidth, BitVec.toNat_ushiftRight, Nat.shiftRight_eq_div_pow]
    omega

theorem Packet.frame (p : Packet) : Frame head 5 p.bytes where
  length := rfl
  head := by
    intro c hc
    obtain rfl : p.first = c := Option.some_inj.mp hc
    exact p.marked
  tail := by
    intro c hc
    rcases List.mem_append.mp hc with hc | hc
    · exact pieces_unmarked p.x c hc
    · exact pieces_unmarked p.y c hc

theorem Packet.record (p : Packet) : recordOf p.bytes = p.point := by
  have hz : p.first &&& 0x01 ≠ 0 ∨ p.first &&& 0x40 ≠ 0 ↔ p.first &&& 0x41 ≠ 0 := by
    have hbits : ∀ b : BitVec 8, b &&& 0x01 ≠ 0 ∨ b &&& 0x40 ≠ 0 ↔ b &&& 0x41 ≠ 0 := by decide +kernel
    exact hbits p.first
  change nu_adc_touch_data.mk (coordinate ((p.x.setWidth 7).setWidth 8) ((p.x >>> 7).setWidth 8) 0x1f)
    (coordinate ((p.y.setWidth 7).setWidth 8) ((p.y >>> 7).setWidth 8) 0x1f)
    (if p.first &&& 0x01 ≠ 0 ∨ p.first &&& 0x40 ≠ 0 then 1000 else 0)
    (if p.first &&& 0x01 ≠ 0 ∨ p.first &&& 0x40 ≠ 0 then 1000 else 0) = p.point
  rw [coordinate_pieces, coordinate_pieces, if_congr hz rfl rfl]
  rfl

/-- **Packets are kept.**  Whatever was heard before them and however they come in pieces, all packets but
the first are what is read, and still to be read, last; if the queue refused nothing, and the pen-ups
that the driver makes up itself are left out. -/
theorem packets_kept (ops : List Op) (noise : List (BitVec 8)) (p : Packet) (ps : List Packet)
    (hheard : (World.boot.run ops).heard = noise ++ ((p :: ps).map Packet.bytes).flatten)
    (hroom : (World.boot.run ops).refused = false) :
    let w := World.boot.run ops
    w.got ++ w.drv.g_pmqTouchXYZ = w.sent.map Prod.fst ∧
      ∃ before, (w.sent.filter Prod.snd).map Prod.fst = before ++ ps.map Packet.point := by
  have hqueued : World.boot.Queued := ⟨rfl, fun _ => rfl⟩
  obtain ⟨hf, hq⟩ := World.run_inv framed_boot hqueued ops
  refine ⟨hq.order, ?_⟩
  have hframes : ∀ g ∈ p.bytes :: ps.map Packet.bytes, Frame head 5 g := by
    intro g hg
    rw [← List.map_cons] at hg
    obtain ⟨q, -, rfl⟩ := List.mem_map.mp hg
    exact q.frame
  obtain ⟨g, hdecode⟩ := decode_frames (partial_decode noise) hframes (by omega)
  refine ⟨((decode head 5 [] noise).1 ++ [g]).map recordOf, ?_⟩
  rw [hq.all hroom, hf.formed, hheard, decode_append, List.map_cons, hdecode]
  have hpoints : (ps.map Packet.bytes).map recordOf = ps.map Packet.point := by
    rw [List.map_map]
    exact List.map_congr_left fun q _ => q.record
  simp only [List.map_append, List.map_cons, List.map_nil, hpoints, List.append_assoc,
    List.singleton_append]

/-- The line begins in the middle of a record, and the second packet comes in two pieces. -/
theorem packets_kept_two :
    let w := World.boot.run [.process [(0x85, 0), (0x10, 0), (0xc1, 1), (0x64, 1), (0x00, 1)],
      .process [(0x48, 2), (0x01, 2), (0xc1, 2), (0x7f, 2)], .quiet,
      .process [(0x1f, 3), (0x06, 3), (0x00, 3)], .read 1]
    ∃ before, (w.sent.filter Prod.snd).map Prod.fst = before ++ [⟨4095, 6, 1000, 1000⟩] :=
  (packets_kept _ [0x85, 0x10] ⟨0xc1, 100, 200, rfl⟩ [⟨0xc1, 4095, 6, rfl⟩] (by decide +kernel)
    (by decide +kernel)).2

end Touch.Serial
