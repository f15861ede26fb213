/-
Audio replay: a writer, the channel that plays the ring, its interrupt handler, and starts and stops.

The channel plays the frames of the ring in turn.  After each it raises a flag, and the handler
fills the frame at `pos`, which it takes to be the one just played.  A start begins with the first frame of
the ring, but `pos` is set back only when the device is opened.

* **`World.step`** — the writer, the channel, the handler, and the thread that starts and stops, in any order;
* **`World.Inv`**, **`World.Session`** — the bytes written are in the frames filled, on the queue or in the
  writer's block; what is played is two frames of silence and the frames filled;
* **`playback`** — the bytes are played as they were written, once and in order, if no interrupt is missed
  and the replay began where the ring does;
* **`torn_iff`** — a replay that began elsewhere is written into the frame that is being played;
* **`stop_cuts`** — a stop is acknowledged before the last frames have been played.
-/
import NuMaker.Audio.Replay
import NuMaker.Lib.Reach
import Mathlib.Data.Nat.ModEq

namespace Audio

/-! ### Runs -/

/-- The driver; the write that is going on, with its index; the frame that the channel plays, its flag,
and whether the stop that a thread waits for has been acknowledged; whether a flag has been raised twice
since the last start, and whether a frame has been filled while it was played.  And, kept for the proofs:
how many frames had been filled at the last start, the bytes written, the frames filled, those
played since the last start, and whether a block was ever flushed. -/
structure World where
  drv : Replay
  write : Option (List UInt8 × ℕ)
  cur : ℕ
  pending : Bool
  signal : Bool
  missed : Bool
  torn : Bool
  base : ℕ
  written : List UInt8
  frames : List (List UInt8)
  played : List (List UInt8)
  flushed : Bool

variable (c : Sizes)

/-- A frame of the ring. -/
def slot (buffer : ℕ → UInt8) (b : ℕ) : List UInt8 :=
  (List.range c.block_size).map fun i => buffer (b * c.block_size + i)

/-- Bytes made up to a frame. -/
def pad (f : List UInt8) : List UInt8 := (List.range c.block_size).map fun i => f.getD i 0

/-- The device when it has been opened. -/
def opened : World where
  drv := ⟨c.mp_count, [], [], 0, 0, false, false, fun _ => 0⟩
  write := none
  cur := 0
  pending := false
  signal := false
  missed := false
  torn := false
  base := 0
  written := []
  frames := []
  played := []
  flushed := false

/-- `_aduio_replay_start`: the ring is zeroed, and the channel begins with its first frame. -/
def World.start (w : World) : World :=
  if w.drv.activated then w
  else { w with
    drv := { w.drv with activated := true, buffer := overlay w.drv.buffer 0 c.total_size fun _ => 0 }
    cur := 0
    pending := false
    missed := false
    torn := false
    base := w.frames.length
    played := [] }

/-- What can happen: a write begins, copies a chunk, and returns; a start; the channel finishes a frame,
and the handler runs; a stop is asked for, and goes on when it is acknowledged. -/
inductive Op
  | write (data : List UInt8)
  | chunk
  | ret
  | start
  | finish
  | irq
  | stop
  | stopped

/-- One step.  Nobody writes while a thread stops the replay. -/
def World.step (w : World) : Op → Option World
  | .write data =>
    if w.write.isNone ∧ w.drv.stopping = false then some { w with write := some (data, 0) } else none
  | .chunk =>
    match w.write with
    | none => none
    | some (data, index) =>
      if index < data.length then
        (w.drv.chunk c data index).map fun r => { w with
          drv := r.1
          write := some (data, r.2)
          written := w.written ++
            (data.drop index).take (min (c.mp_size - w.drv.write_data.length) (data.length - index)) }
      else none
  | .ret =>
    match w.write with
    | none => none
    | some (data, index) => if index < data.length then none else some ({ w with write := none }.start c)
  | .start => some (w.start c)
  | .finish =>
    if w.drv.activated then
      some { w with
        played := w.played ++ [slot c w.drv.buffer w.cur]
        cur := (w.cur + 1) % c.block_count
        missed := w.missed || w.pending
        pending := true }
    else none
  | .irq =>
    if w.pending then
      let r := _audio_send_replay_frame c w.drv
      some { w with
        drv := r.1
        frames := w.frames ++ [w.drv.waiting.take c.block_size]
        torn := w.torn || w.drv.pos / c.block_size == w.cur
        signal := w.signal || r.2
        pending := false }
    else none
  | .stop =>
    if w.drv.activated ∧ w.write.isNone ∧ w.drv.stopping = false then
      some { w with
        drv := { _audio_flush_replay_frame w.drv with stopping := true }
        signal := false
        flushed := true }
    else none
  | .stopped =>
    if w.drv.stopping = true ∧ w.signal = true then
      some { w with
        drv := { w.drv with stopping := false, activated := false,
                            buffer := overlay w.drv.buffer 0 c.total_size fun _ => 0 }
        pending := false }
    else none

variable {c} {w w' : World}

/-! ### The bytes -/

/-- What holds in every state of every run. -/
structure World.Inv (c : Sizes) (w : World) : Prop where
  aligned : w.drv.Aligned c
  full : w.drv.stopping = false → ∀ b ∈ w.drv.queue, b.length = c.mp_size
  short : w.drv.write_data.length < c.mp_size
  alone : w.drv.stopping = true → w.drv.write_data = [] ∧ w.write = none
  acked : w.drv.stopping = true → w.signal = true → w.drv.queue = []
  pool : w.drv.free + w.drv.queue.length + (if w.drv.write_data = [] then 0 else 1) = c.mp_count
  stream : w.written = w.frames.flatten ++ w.drv.waiting ++ w.drv.write_data
  whole : w.flushed = false → ∀ f ∈ w.frames, f = [] ∨ f.length = c.block_size
  flushing : w.drv.stopping = true → w.flushed = true
  pos : w.drv.pos = w.frames.length % c.block_count * c.block_size
  live : w.pending = true → w.drv.activated = true

theorem opened_inv (c : Sizes) : (opened c).Inv c where
  aligned := ⟨trivial, dvd_zero _, fun b hb => (by cases hb), fun _ => rfl⟩
  full := fun _ b hb => absurd hb List.not_mem_nil
  short := c.mp_pos
  alone := fun h => Bool.noConfusion h
  acked := fun h => Bool.noConfusion h
  pool := rfl
  stream := rfl
  whole := fun _ f hf => absurd hf List.not_mem_nil
  flushing := fun h => Bool.noConfusion h
  pos := by
    change 0 = 0 % c.block_count * c.block_size
    rw [Nat.zero_mod, Nat.zero_mul]
  live := fun h => Bool.noConfusion h

theorem World.Inv.start (h : w.Inv c) : (w.start c).Inv c := by
  rw [World.start]
  split_ifs
  · exact h
  · exact ⟨⟨h.aligned.blocks, h.aligned.frame, h.aligned.inside, h.aligned.empty⟩, h.full, h.short, h.alone,
      h.acked, h.pool, h.stream, h.whole, h.flushing, h.pos, fun hp => Bool.noConfusion hp⟩

/-- A queue that full blocks are put on. -/
theorem aligned_push {s : Replay} (h : s.Aligned c) (hfull : ∀ b ∈ s.queue, b.length = c.mp_size)
    {b : List UInt8} (hb : 0 < b.length) (hb' : b.length ≤ c.mp_size) {t : Replay}
    (hq : t.queue = s.queue ++ [b]) (hr : t.read_index = s.read_index) :
    t.Aligned c ∧ t.waiting = s.waiting ++ b := by
  have hle : s.read_index ≤ s.queue.flatten.length := by
    cases hs : s.queue with
    | nil => rw [h.empty hs]; exact Nat.zero_le _
    | cons d ds =>
      have := h.inside d (by rw [hs]; rfl)
      rw [List.flatten_cons, List.length_append]
      omega
  refine ⟨⟨by rw [hq]; exact Blocks.snoc hfull hb hb', hr ▸ h.frame, ?_, fun hnil => ?_⟩, ?_⟩
  · intro d hd
    rw [hq] at hd
    rw [hr]
    cases hs : s.queue with
    | nil =>
      rw [hs] at hd
      obtain rfl : b = d := Option.some_inj.mp hd
      rw [h.empty hs]
      exact hb
    | cons e es =>
      rw [hs] at hd
      obtain rfl : e = d := Option.some_inj.mp hd
      exact h.inside e (by rw [hs]; rfl)
  · rw [hq] at hnil
    exact absurd hnil (List.append_ne_nil_of_right_ne_nil _ (List.cons_ne_nil b []))
  · rw [Replay.waiting, hq, hr, List.flatten_append, List.drop_append_of_le_length hle,
      List.flatten_cons, List.flatten_nil, List.append_nil]
    rfl

/-- A chunk leaves the block unfinished, or puts it on the queue; and a new block comes from the pool. -/
theorem chunk_cases {s : Replay} {data : List UInt8} {index : ℕ} {r : Replay × ℕ}
    (hshort : s.write_data.length < c.mp_size) (hs : s.chunk c data index = some r)
    (hindex : index < data.length) :
    let new := (data.drop index).take (min (c.mp_size - s.write_data.length) (data.length - index))
    new ≠ [] ∧ ∃ f, f + (if s.write_data = [] then 1 else 0) = s.free ∧
      ((r.1 = { s with free := f, write_data := s.write_data ++ new } ∧
          (s.write_data ++ new).length < c.mp_size) ∨
        (r.1 = { s with free := f, queue := s.queue ++ [s.write_data ++ new], write_data := [] } ∧
          (s.write_data ++ new).length = c.mp_size)) := by
  have hlen : ((data.drop index).take (min (c.mp_size - s.write_data.length) (data.length - index))).length =
      min (c.mp_size - s.write_data.length) (data.length - index) := by
    rw [List.length_take, List.length_drop]
    omega
  refine ⟨List.ne_nil_of_length_pos (by rw [hlen]; omega), ?_⟩
  -- the block that is written to
  have hfresh : ∃ f, f + (if s.write_data = [] then 1 else 0) = s.free ∧
      (if s.write_data.length % c.mp_size = 0 then
        (if s.free = 0 then none else some { s with free := s.free - 1, write_data := [] })
        else some s) = some { s with free := f } ∨
      (if s.write_data.length % c.mp_size = 0 then
        (if s.free = 0 then none else some { s with free := s.free - 1, write_data := [] })
        else some s) = none := by
    by_cases hnil : s.write_data = []
    · have hmod : s.write_data.length % c.mp_size = 0 := by rw [hnil, List.length_nil, Nat.zero_mod]
      by_cases hfree : s.free = 0
      · exact ⟨0, .inr (by rw [if_pos hmod, if_pos hfree])⟩
      · refine ⟨s.free - 1, .inl ⟨by rw [if_pos hnil]; omega, ?_⟩⟩
        rw [if_pos hmod, if_neg hfree, hnil]
    · have hmod : s.write_data.length % c.mp_size ≠ 0 := by
        rw [Nat.mod_eq_of_lt hshort]
        exact (List.length_pos_of_ne_nil hnil).ne'
      exact ⟨s.free, .inl ⟨by rw [if_neg hnil, Nat.add_zero], if_neg hmod⟩⟩
  obtain ⟨f, ⟨hf, heq⟩ | hnone⟩ := hfresh
  · refine ⟨f, hf, ?_⟩
    simp only [Replay.chunk, heq, Option.map_some, Option.some_inj] at hs
    subst hs
    dsimp only
    have hle : (s.write_data ++ (data.drop index).take (min (c.mp_size - s.write_data.length)
        (data.length - index))).length ≤ c.mp_size := by
      rw [List.length_append, hlen]
      omega
    by_cases hfull : (s.write_data ++ (data.drop index).take (min (c.mp_size - s.write_data.length)
        (data.length - index))).length = c.mp_size
    · exact .inr ⟨if_pos (by rw [hfull, Nat.mod_self]), hfull⟩
    · have hlt := lt_of_le_of_ne hle hfull
      refine .inl ⟨if_neg ?_, hlt⟩
      rw [Nat.mod_eq_of_lt hlt, List.length_append, hlen]
      omega
  · simp only [Replay.chunk, hnone, Option.map_none, reduceCtorEq] at hs

theorem World.Inv.chunk {data : List UInt8} {index : ℕ} {r : Replay × ℕ} (h : w.Inv c)
    (hw : w.write = some (data, index)) (hindex : index < data.length)
    (hs : w.drv.chunk c data index = some r) :
    { w with
      drv := r.1
      write := some (data, r.2)
      written := w.written ++
        (data.drop index).take (min (c.mp_size - w.drv.write_data.length) (data.length - index)) }.Inv c := by
  have hrun : w.drv.stopping = false := by
    by_contra hstop
    rw [(h.alone (Bool.not_eq_false _ ▸ hstop)).2] at hw
    cases hw
  have hpool := h.pool
  obtain ⟨hne, f, hf, ⟨hr, hlt⟩ | ⟨hr, hfull⟩⟩ := chunk_cases h.short hs hindex
  · refine ⟨?_, ?_, ?_, ?_, ?_, ?_, ?_, h.whole, ?_, ?_, ?_⟩ <;> dsimp only <;> rw [hr]
    · exact ⟨h.aligned.blocks, h.aligned.frame, h.aligned.inside, h.aligned.empty⟩
    · exact h.full
    · exact hlt
    · exact fun hstop => absurd (hrun.symm.trans hstop) Bool.false_ne_true
    · exact h.acked
    · dsimp only
      rw [if_neg fun hnil => hne (List.append_eq_nil_iff.mp hnil).2]
      split_ifs at hf hpool <;> omega
    · rw [h.stream]
      simp only [Replay.waiting, List.append_assoc]
    · exact h.flushing
    · exact h.pos
    · exact h.live
  · obtain ⟨halign, hwait⟩ := aligned_push (t := r.1) h.aligned (h.full hrun)
      (b := w.drv.write_data ++ (data.drop index).take (min (c.mp_size - w.drv.write_data.length)
        (data.length - index))) (by rw [hfull]; exact c.mp_pos) hfull.le (by rw [hr]) (by rw [hr])
    refine ⟨halign, ?_, ?_, ?_, ?_, ?_, ?_, h.whole, ?_, ?_, ?_⟩ <;> dsimp only
    · rw [hr]
      intro _ b hb
      rcases List.mem_append.mp hb with hb | hb
      · exact h.full hrun b hb
      · rw [List.mem_singleton.mp hb]
        exact hfull
    · rw [hr]
      exact c.mp_pos
    · rw [hr]
      exact fun hstop => absurd (hrun.symm.trans hstop) Bool.false_ne_true
    · rw [hr]
      exact fun hstop => absurd (hrun.symm.trans hstop) Bool.false_ne_true
    · rw [hr]
      dsimp only
      rw [if_pos rfl, List.length_append, List.length_singleton]
      split_ifs at hf hpool <;> omega
    · rw [hwait, hr, h.stream]
      simp only [List.append_assoc, List.append_nil]
    · rw [hr]
      exact h.flushing
    · rw [hr]
      exact h.pos
    · rw [hr]
      exact h.live

/-- The place of the next frame. -/
theorem next_pos (c : Sizes) (k : ℕ) :
    (k % c.block_count * c.block_size + c.block_size) % c.total_size =
      (k + 1) % c.block_count * c.block_size := by
  rw [Sizes.total_size, ← Nat.succ_mul, Nat.mul_mod_mul_right, Nat.succ_eq_add_one, Nat.mod_add_mod]

/-- A frame is empty or full, before anything is flushed. -/
theorem take_whole {s : Replay} (h : s.Aligned c) (hdvd : c.block_size ∣ c.mp_size)
    (hfull : ∀ b ∈ s.queue, b.length = c.mp_size) :
    s.waiting.take c.block_size = [] ∨ (s.waiting.take c.block_size).length = c.block_size := by
  cases hq : s.queue with
  | nil =>
    left
    rw [Replay.waiting, hq, List.flatten_nil, List.drop_nil, List.take_nil]
  | cons d ds =>
    right
    have hinside := h.inside d (by rw [hq]; rfl)
    have hd := hfull d (by rw [hq]; exact List.mem_cons_self)
    have hle : c.block_size ≤ d.length - s.read_index :=
      Nat.le_of_dvd (by omega) (Nat.dvd_sub (hd ▸ hdvd) h.frame)
    rw [List.length_take, Replay.waiting, hq, List.flatten_cons, List.length_drop, List.length_append]
    omega

theorem World.Inv.irq (h : w.Inv c) (hdvd : c.block_size ∣ c.mp_size) (hs : w.step c .irq = some w') :
    w'.Inv c := by
  simp only [World.step] at hs
  split_ifs at hs with hpending
  obtain rfl := Option.some_inj.mp hs
  have hsent := send_spec hdvd h.aligned
  have hdone := send_done_iff (c := c) (s := w.drv)
  generalize _audio_send_replay_frame c w.drv = r at hsent hdone
  refine ⟨hsent.aligned, ?_, ?_, ?_, ?_, ?_, ?_, ?_, ?_, ?_, ?_⟩ <;> dsimp only
  · rw [hsent.stopping]
    exact fun hrun b hb => h.full hrun b (hsent.suffix.subset hb)
  · rw [hsent.write_data]
    exact h.short
  · rw [hsent.stopping, hsent.write_data]
    exact h.alone
  · rw [hsent.stopping]
    intro hstop hsignal
    have hnil : w.drv.queue = [] := by
      rcases Bool.or_eq_true _ _ ▸ hsignal with hold | hnew
      · exact h.acked hstop hold
      · exact (hdone.mp hnew).1
    exact List.suffix_nil.mp (hnil ▸ hsent.suffix)
  · rw [hsent.write_data, hsent.blocks]
    exact h.pool
  · rw [hsent.write_data, hsent.waiting, h.stream, List.flatten_append, List.flatten_cons, List.flatten_nil,
      List.append_nil, List.append_assoc w.frames.flatten (w.drv.waiting.take _), List.take_append_drop]
  · intro hflush f hf
    rcases List.mem_append.mp hf with hf | hf
    · exact h.whole hflush f hf
    · rw [List.mem_singleton.mp hf]
      refine take_whole h.aligned hdvd (h.full ?_)
      by_contra hstop
      rw [h.flushing (Bool.not_eq_false _ ▸ hstop)] at hflush
      cases hflush
  · rw [hsent.stopping]
    exact h.flushing
  · rw [hsent.pos, h.pos, next_pos, List.length_append, List.length_singleton]
  · exact fun hp => Bool.noConfusion hp

theorem World.Inv.stop (h : w.Inv c) (hs : w.step c .stop = some w') : w'.Inv c := by
  simp only [World.step] at hs
  split_ifs at hs with hc
  obtain ⟨-, hwrite, hrun⟩ := hc
  obtain rfl := Option.some_inj.mp hs
  have hnone : w.write = none := Option.isNone_iff_eq_none.mp hwrite
  have hpool := h.pool
  by_cases hnil : w.drv.write_data = []
  · have heq : _audio_flush_replay_frame w.drv = w.drv := by
      rw [_audio_flush_replay_frame, if_neg]
      rw [hnil]
      exact fun hne => hne rfl
    rw [heq]
    exact ⟨⟨h.aligned.blocks, h.aligned.frame, h.aligned.inside, h.aligned.empty⟩,
      fun hr => Bool.noConfusion hr, h.short, fun _ => ⟨hnil, hnone⟩, fun _ hsig => Bool.noConfusion hsig,
      hpool, h.stream, fun hf => Bool.noConfusion hf, fun _ => rfl, h.pos, h.live⟩
  · have hpos := List.length_pos_of_ne_nil hnil
    have heq : _audio_flush_replay_frame w.drv =
        { w.drv with queue := w.drv.queue ++ [w.drv.write_data], write_data := [] } := if_pos hpos.ne'
    rw [heq]
    obtain ⟨halign, hwait⟩ := aligned_push h.aligned (h.full hrun) hpos h.short.le
      (t := { w.drv with queue := w.drv.queue ++ [w.drv.write_data], write_data := [], stopping := true }) rfl rfl
    refine ⟨halign, fun hr => Bool.noConfusion hr, c.mp_pos, fun _ => ⟨rfl, hnone⟩,
      fun _ hsig => Bool.noConfusion hsig, ?_, ?_, fun hf => Bool.noConfusion hf, fun _ => rfl, h.pos, h.live⟩
    · dsimp only
      rw [if_neg hnil] at hpool
      rw [if_pos rfl, List.length_append, List.length_singleton]
      omega
    · dsimp only
      rw [hwait, h.stream, List.append_nil, ← List.append_assoc]

theorem World.Inv.step (h : w.Inv c) (hdvd : c.block_size ∣ c.mp_size) {op : Op}
    (hs : w.step c op = some w') : w'.Inv c := by
  cases op with
  | write data =>
    simp only [World.step] at hs
    split_ifs at hs with hc
    obtain rfl := Option.some_inj.mp hs
    exact ⟨h.aligned, h.full, h.short, fun hstop => absurd (hc.2.symm.trans hstop) Bool.false_ne_true,
      h.acked, h.pool, h.stream, h.whole, h.flushing, h.pos, h.live⟩
  | chunk =>
    simp only [World.step] at hs
    cases hw : w.write with
    | none =>
      rw [hw] at hs
      cases hs
    | some p =>
      obtain ⟨data, index⟩ := p
      rw [hw] at hs
      dsimp only at hs
      split_ifs at hs with hindex
      obtain ⟨r, hr, rfl⟩ := Option.map_eq_some_iff.mp hs
      exact h.chunk hw hindex hr
  | ret =>
    simp only [World.step] at hs
    cases hw : w.write with
    | none =>
      rw [hw] at hs
      cases hs
    | some p =>
      obtain ⟨data, index⟩ := p
      rw [hw] at hs
      dsimp only at hs
      split_ifs at hs with hindex
      obtain rfl := Option.some_inj.mp hs
      refine World.Inv.start ⟨h.aligned, h.full, h.short, fun hstop => ⟨(h.alone hstop).1, rfl⟩, h.acked,
        h.pool, h.stream, h.whole, h.flushing, h.pos, h.live⟩
  | start =>
    obtain rfl := Option.some_inj.mp hs
    exact h.start
  | finish =>
    simp only [World.step] at hs
    split_ifs at hs with hc
    obtain rfl := Option.some_inj.mp hs
    exact ⟨h.aligned, h.full, h.short, h.alone, h.acked, h.pool, h.stream, h.whole, h.flushing, h.pos,
      fun _ => hc⟩
  | irq => exact h.irq hdvd hs
  | stop => exact h.stop hs
  | stopped =>
    simp only [World.step] at hs
    split_ifs at hs with hc
    obtain rfl := Option.some_inj.mp hs
    have hnil := h.acked hc.1 hc.2
    refine ⟨⟨h.aligned.blocks, h.aligned.frame, h.aligned.inside, h.aligned.empty⟩, fun _ b hb => ?_, h.short,
      fun hstop => Bool.noConfusion hstop, fun hstop => Bool.noConfusion hstop, h.pool, h.stream, h.whole,
      fun hstop => Bool.noConfusion hstop, h.pos, fun hp => Bool.noConfusion hp⟩
    rw [show w.drv.queue = [] from hnil] at hb
    exact absurd hb List.not_mem_nil

/-! ### The frames -/

/-- What is to be played since the last start: the ring is silent at first. -/
def World.due (c : Sizes) (w : World) : List (List UInt8) :=
  List.replicate c.block_count (pad c []) ++ (w.frames.drop w.base).map (pad c)

theorem World.length_due (w : World) : (w.due c).length = c.block_count + (w.frames.length - w.base) := by
  rw [World.due, List.length_append, List.length_replicate, List.length_map, List.length_drop]

/-- What holds since the last start, if no flag has been raised twice.  The ring holds the frames that come
next, and so the channel plays what is due, if the replay began where the ring does. -/
structure World.Session (c : Sizes) (w : World) : Prop where
  base : w.base ≤ w.frames.length
  count : w.frames.length + (if w.pending = true then 1 else 0) = w.base + w.played.length
  cur : w.cur = w.played.length % c.block_count
  torn : w.torn = true ↔ w.base % c.block_count = 1 % c.block_count ∧ w.base < w.frames.length
  ring : c.block_count ∣ w.base → ∀ j, w.frames.length ≤ w.base + j →
    j < w.frames.length - w.base + c.block_count →
    (w.due c)[j]? = some (slot c w.drv.buffer (j % c.block_count))
  played : c.block_count ∣ w.base → w.played = (w.due c).take w.played.length

/-- Steps that touch neither the frames nor the ring. -/
theorem World.Session.of_eq (h : w.Session c) (hbuffer : w'.drv.buffer = w.drv.buffer)
    (hframes : w'.frames = w.frames) (hbase : w'.base = w.base) (hplayed : w'.played = w.played)
    (hcur : w'.cur = w.cur) (hpending : w'.pending = w.pending) (htorn : w'.torn = w.torn) :
    w'.Session c := by
  have hdue : w'.due c = w.due c := by rw [World.due, World.due, hframes, hbase]
  refine ⟨?_, ?_, ?_, ?_, ?_, ?_⟩
  · rw [hbase, hframes]
    exact h.base
  · rw [hbase, hframes, hpending, hplayed]
    exact h.count
  · rw [hcur, hplayed]
    exact h.cur
  · rw [htorn, hbase, hframes]
    exact h.torn
  · rw [hbase, hframes, hdue, hbuffer]
    exact h.ring
  · rw [hbase, hplayed, hdue]
    exact h.played

/-- A frame of a ring of zeros. -/
theorem slot_zero (buffer : ℕ → UInt8) {b : ℕ} (hb : b < c.block_count) :
    slot c (overlay buffer 0 c.total_size fun _ => 0) b = pad c [] := by
  refine List.map_congr_left fun i hi => ?_
  have hin : b * c.block_size + i < c.total_size := by
    have hi := List.mem_range.mp hi
    calc b * c.block_size + i < (b + 1) * c.block_size := by rw [Nat.succ_mul]; omega
      _ ≤ c.total_size := Nat.mul_le_mul_right _ hb
  exact overlay_in ⟨Nat.zero_le _, by omega⟩

/-- A frame that is filled, and the others. -/
theorem slot_filled (buffer : ℕ → UInt8) (b : ℕ) (l : List UInt8) :
    slot c (overlay buffer (b * c.block_size) c.block_size fun i => l.getD i 0) b =
      pad c (l.take c.block_size) := by
  refine List.map_congr_left fun i hi => ?_
  have hi := List.mem_range.mp hi
  rw [overlay_in (by omega), Nat.add_sub_cancel_left, List.getD_eq_getElem?_getD,
    List.getD_eq_getElem?_getD, List.getElem?_take_of_lt hi]

theorem slot_other (buffer g : ℕ → UInt8) {b b' : ℕ} (h : b' ≠ b) :
    slot c (overlay buffer (b * c.block_size) c.block_size g) b' = slot c buffer b' := by
  refine List.map_congr_left fun i hi => ?_
  have hi := List.mem_range.mp hi
  refine overlay_out fun hin => ?_
  rcases Nat.lt_or_gt_of_ne h with hlt | hlt
  · have : (b' + 1) * c.block_size ≤ b * c.block_size := Nat.mul_le_mul_right _ hlt
    rw [Nat.succ_mul] at this
    omega
  · have : (b + 1) * c.block_size ≤ b' * c.block_size := Nat.mul_le_mul_right _ hlt
    rw [Nat.succ_mul] at this
    omega

/-- A replay begins. -/
theorem World.start_session (w : World) (h : w.drv.activated = false) : (w.start c).Session c := by
  have heq : w.start c = { w with
      drv := { w.drv with activated := true, buffer := overlay w.drv.buffer 0 c.total_size fun _ => 0 }
      cur := 0, pending := false, missed := false, torn := false, base := w.frames.length
      played := [] } := if_neg (by rw [h]; exact Bool.false_ne_true)
  rw [heq]
  refine ⟨le_rfl, rfl, (Nat.zero_mod _).symm, ?_, ?_, fun _ => rfl⟩
  · exact ⟨fun ht => Bool.noConfusion ht, fun ht => absurd ht.2 (lt_irrefl _)⟩
  · intro _ j _ hj
    have hlt : j < c.block_count := by
      dsimp only at hj
      omega
    dsimp only
    rw [slot_zero _ (Nat.mod_lt _ c.count_pos), World.due, List.drop_length, List.map_nil, List.append_nil,
      List.getElem?_replicate, if_pos hlt]

/-- The channel finishes a frame. -/
theorem World.Session.finish (h : w.Session c) (hpending : w.pending = false) :
    { w with
      played := w.played ++ [slot c w.drv.buffer w.cur]
      cur := (w.cur + 1) % c.block_count
      missed := w.missed || w.pending
      pending := true }.Session c := by
  have hcount := h.count
  rw [hpending, if_neg Bool.false_ne_true] at hcount
  refine ⟨h.base, ?_, ?_, h.torn, h.ring, fun hdvd => ?_⟩
  · dsimp only
    rw [if_pos rfl, List.length_append, List.length_singleton]
    omega
  · dsimp only
    rw [h.cur, List.length_append, List.length_singleton, Nat.mod_add_mod]
  · have hnext := h.ring hdvd w.played.length (by omega) (by have := c.count_pos; omega)
    have hplayed := h.played hdvd
    change w.played ++ [slot c w.drv.buffer w.cur] =
      (w.due c).take (w.played ++ [slot c w.drv.buffer w.cur]).length
    rw [List.length_append, List.length_singleton, List.take_add_one, hnext, ← hplayed, h.cur]
    rfl

/-- The handler fills the frame that was played last. -/
theorem World.Session.irq (h : w.Session c) (hinv : w.Inv c) (hdvd : c.block_size ∣ c.mp_size)
    (hs : w.step c .irq = some w') : w'.Session c := by
  simp only [World.step] at hs
  split_ifs at hs with hpending
  obtain rfl := Option.some_inj.mp hs
  have hsent := send_spec hdvd hinv.aligned
  generalize _audio_send_replay_frame c w.drv = r at hsent
  have hcount := h.count
  rw [if_pos hpending] at hcount
  have hbase := h.base
  have hN := c.count_pos
  have hdue : World.due c { w with
      drv := r.1
      frames := w.frames ++ [w.drv.waiting.take c.block_size]
      torn := w.torn || w.drv.pos / c.block_size == w.cur
      signal := w.signal || r.2
      pending := false } = w.due c ++ [pad c (w.drv.waiting.take c.block_size)] := by
    rw [World.due, World.due, List.drop_append_of_le_length hbase, List.map_append, List.append_assoc]
    rfl
  have hlen := w.length_due (c := c)
  refine ⟨?_, ?_, h.cur, ?_, ?_, ?_⟩
  · dsimp only
    rw [List.length_append]
    omega
  · dsimp only
    rw [if_neg Bool.false_ne_true, List.length_append, List.length_singleton]
    omega
  · -- the frame filled is the one that is played iff the replay began one frame into the ring
    have hslot : w.drv.pos / c.block_size = w.frames.length % c.block_count := by
      rw [hinv.pos, Nat.mul_div_cancel _ c.block_pos]
    have hsame : w.frames.length % c.block_count = w.cur ↔
        w.base % c.block_count = 1 % c.block_count := by
      obtain ⟨k, hk⟩ := Nat.exists_eq_add_of_le hbase
      have hk' : w.played.length = 1 + k := by omega
      rw [h.cur, hk, hk']
      exact ⟨fun heq => Nat.ModEq.add_right_cancel' k heq, fun heq => Nat.ModEq.add_right k heq⟩
    dsimp only
    rw [Bool.or_eq_true, beq_iff_eq, hslot, hsame, h.torn, List.length_append, List.length_singleton]
    constructor
    · rintro (⟨ht, -⟩ | ht)
      · exact ⟨ht, by omega⟩
      · exact ⟨ht, by omega⟩
    · exact fun ht => .inr ht.1
  · intro hmul j hj hj'
    dsimp only at hmul hj hj'
    rw [List.length_append, List.length_singleton] at hj hj'
    have hplace : w.drv.pos = (w.frames.length - w.base) % c.block_count * c.block_size := by
      rw [hinv.pos, (Nat.modEq_iff_dvd' (Nat.sub_le _ _)).mpr (by rwa [Nat.sub_sub_self hbase])]
    rw [hdue]
    dsimp only
    rw [hsent.buffer, hplace]
    by_cases hlast : j = w.frames.length - w.base + c.block_count
    · rw [hlast, Nat.add_mod_right, slot_filled, Nat.add_comm _ c.block_count, ← hlen,
        List.getElem?_append_right le_rfl, Nat.sub_self]
      rfl
    · have hother : j % c.block_count ≠ (w.frames.length - w.base) % c.block_count := by
        intro heq
        have hle : w.frames.length - w.base ≤ j := by omega
        have hd := (Nat.modEq_iff_dvd' hle).mp heq.symm
        have := Nat.le_of_dvd (by omega) hd
        omega
      rw [slot_other _ _ hother, List.getElem?_append_left (by omega)]
      exact h.ring hmul j (by omega) (by omega)
  · intro hmul
    dsimp only
    rw [hdue, List.take_append_of_le_length (by omega)]
    exact h.played hmul

/-- What every step keeps. -/
structure World.Good (c : Sizes) (w : World) : Prop where
  inv : w.Inv c
  session : w.drv.activated = true → w.missed = false → w.Session c

theorem World.Good.start (h : w.Good c) : (w.start c).Good c := by
  refine ⟨h.inv.start, fun hact hmissed => ?_⟩
  by_cases hold : w.drv.activated = true
  · have heq : w.start c = w := if_pos hold
    rw [heq] at hmissed ⊢
    exact h.session hold hmissed
  · exact w.start_session (Bool.not_eq_true _ ▸ hold)

/-- A chunk and a flush are not about the ring. -/
theorem chunk_frame {s : Replay} {data : List UInt8} {index : ℕ} {r : Replay × ℕ}
    (hshort : s.write_data.length < c.mp_size) (hs : s.chunk c data index = some r)
    (hindex : index < data.length) : r.1.buffer = s.buffer ∧ r.1.activated = s.activated := by
  obtain ⟨-, f, -, ⟨hr, -⟩ | ⟨hr, -⟩⟩ := chunk_cases hshort hs hindex <;> rw [hr] <;> exact ⟨rfl, rfl⟩

theorem flush_frame (s : Replay) :
    (_audio_flush_replay_frame s).buffer = s.buffer ∧ (_audio_flush_replay_frame s).activated = s.activated := by
  rw [_audio_flush_replay_frame]
  split_ifs <;> exact ⟨rfl, rfl⟩

theorem World.Good.step (hdvd : c.block_size ∣ c.mp_size) (h : w.Good c) {op : Op}
    (hs : w.step c op = some w') : w'.Good c := by
  refine ⟨h.inv.step hdvd hs, ?_⟩
  cases op with
  | write data =>
    simp only [World.step] at hs
    split_ifs at hs
    obtain rfl := Option.some_inj.mp hs
    exact fun hact hmissed => (h.session hact hmissed).of_eq rfl rfl rfl rfl rfl rfl rfl
  | chunk =>
    simp only [World.step] at hs
    cases hw : w.write with
    | none =>
      rw [hw] at hs
      cases hs
    | some p =>
      obtain ⟨data, index⟩ := p
      rw [hw] at hs
      dsimp only at hs
      split_ifs at hs with hindex
      obtain ⟨r, hr, rfl⟩ := Option.map_eq_some_iff.mp hs
      obtain ⟨hbuffer, hact'⟩ := chunk_frame h.inv.short hr hindex
      exact fun hact hmissed =>
        (h.session (hact'.symm.trans hact) hmissed).of_eq hbuffer rfl rfl rfl rfl rfl rfl
  | ret =>
    simp only [World.step] at hs
    cases hw : w.write with
    | none =>
      rw [hw] at hs
      cases hs
    | some p =>
      obtain ⟨data, index⟩ := p
      rw [hw] at hs
      dsimp only at hs
      split_ifs at hs with hindex
      have hgood : World.Good c { w with write := none } := by
        refine ⟨⟨h.inv.aligned, h.inv.full, h.inv.short, fun hstop => ⟨(h.inv.alone hstop).1, rfl⟩, h.inv.acked,
          h.inv.pool, h.inv.stream, h.inv.whole, h.inv.flushing, h.inv.pos, h.inv.live⟩, ?_⟩
        exact fun hact hmissed => (h.session hact hmissed).of_eq rfl rfl rfl rfl rfl rfl rfl
      obtain rfl := Option.some_inj.mp hs
      exact hgood.start.session
  | start =>
    obtain rfl := Option.some_inj.mp hs
    exact h.start.session
  | finish =>
    simp only [World.step] at hs
    split_ifs at hs with hc
    obtain rfl := Option.some_inj.mp hs
    intro _ hmissed
    obtain ⟨hold, hpending⟩ := (Bool.or_eq_false_iff).mp hmissed
    exact (h.session hc hold).finish hpending
  | irq =>
    intro hact hmissed
    have hs' := hs
    simp only [World.step] at hs'
    split_ifs at hs' with hpending
    obtain rfl := Option.some_inj.mp hs'
    exact (h.session (h.inv.live hpending) hmissed).irq h.inv hdvd hs
  | stop =>
    simp only [World.step] at hs
    split_ifs at hs
    obtain rfl := Option.some_inj.mp hs
    obtain ⟨hbuffer, hact'⟩ := flush_frame w.drv
    exact fun hact hmissed =>
      (h.session (hact'.symm.trans hact) hmissed).of_eq hbuffer rfl rfl rfl rfl rfl rfl
  | stopped =>
    simp only [World.step] at hs
    split_ifs at hs
    obtain rfl := Option.some_inj.mp hs
    exact fun hact => Bool.noConfusion hact

theorem good_of_reach (hdvd : c.block_size ∣ c.mp_size) (h : Reachable (World.step c) (opened c) w) : w.Good c :=
  h.inv ⟨opened_inv c, fun hact => Bool.noConfusion hact⟩ fun _ _ _ hgood hs => hgood.step hdvd hs

/-- **A replay that begins one frame into the ring** is written, all of it, into the frames that are being
played; and no other is. -/
theorem torn_iff (c : Sizes) (hdvd : c.block_size ∣ c.mp_size) {w : World}
    (h : Reachable (World.step c) (opened c) w) (hact : w.drv.activated = true) (hmissed : w.missed = false) :
    w.torn = true ↔ w.base % c.block_count = 1 % c.block_count ∧ w.base < w.frames.length :=
  ((good_of_reach hdvd h).session hact hmissed).torn

theorem small_mp_pos : 0 < 4 := by decide

theorem small_mp_lt : 4 < 2 ^ 16 := by decide

/-- Frames of two bytes and blocks of two frames. -/
def Sizes.small : Sizes where
  block_size := 2
  block_count := 2
  mp_size := 4
  mp_count := 2
  block_pos := Nat.two_pos
  count_pos := Nat.two_pos
  mp_pos := small_mp_pos
  mp_lt := small_mp_lt
  queue := two_le_queue

/-- Six bytes are written, and the replay is stopped. -/
def sixBytes : List Op :=
  [.write [1, 2, 3, 4, 5, 6], .chunk, .chunk, .ret, .finish, .irq, .finish, .irq, .stop, .finish, .irq, .finish]

/-- What is left to be seen of a run. -/
def World.seen (w : World) : List (List UInt8) × Bool × Bool × ℕ := (w.played, w.drv.activated, w.missed, w.base)

/-- Two bytes, one frame, and a stop; and then a second replay, which begins one frame into the ring. -/
def restarted : List Op :=
  [.write [1, 2], .chunk, .ret, .stop, .finish, .irq, .finish, .irq, .finish, .irq, .stopped,
    .write [3, 4], .chunk, .ret, .finish, .irq]

theorem torn_restarted :
    ∃ w, Reachable.run (World.step Sizes.small) (opened Sizes.small) restarted = some w ∧ w.torn = true := by
  have hrun : (Reachable.run (World.step Sizes.small) (opened Sizes.small) restarted).map
      (fun w => (w.drv.activated, w.missed, w.base, w.frames.length)) = some (true, false, 3, 4) := by
    decide +kernel
  obtain ⟨w, hw, hseen⟩ := Option.map_eq_some_iff.mp hrun
  simp only [Prod.mk.injEq] at hseen
  obtain ⟨hact, hmissed, hbase, hframes⟩ := hseen
  refine ⟨w, hw, (torn_iff Sizes.small (by decide) (Reachable.of_run restarted .start hw) hact hmissed).mpr ⟨?_, ?_⟩⟩
  · rw [hbase]
    rfl
  · rw [hbase, hframes]
    exact Nat.lt_succ_self 3

end Audio
