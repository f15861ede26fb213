/-
Audio replay: from the bytes that are written to the frames in the ring of the I2S driver.

A write copies its bytes into blocks of a memory pool and puts the full ones on a queue.  The interrupt
handler fills the frame of the ring that the channel has just played, from the block at the head of the
queue, and gives the block back when it is used up.

* **`Replay.chunk`**, **`_audio_flush_replay_frame`** — the writer's side;
* **`_audio_send_replay_frame`** — the handler's;
* **`Blocks`** — the queue as the writer leaves it: full blocks, but for the last one of a flush;
* **`send_spec`** — the handler takes the next frame of what is waiting, and leaves zeros where there is
  nothing left, if the blocks are made of whole frames.
-/
import NuMaker.Lib.Overlay

namespace Audio

/-- `CFG_AUDIO_REPLAY_QUEUE_COUNT`. -/
def CFG_AUDIO_REPLAY_QUEUE_COUNT : ℕ := 4

/-- The sizes of a configuration: the frames of the ring and their number, and the blocks of the pool and
theirs.  The queue has room for all blocks. -/
structure Sizes where
  block_size : ℕ
  block_count : ℕ
  mp_size : ℕ
  mp_count : ℕ
  block_pos : 0 < block_size
  count_pos : 0 < block_count
  mp_pos : 0 < mp_size
  mp_lt : mp_size < 2 ^ 16
  queue : mp_count ≤ CFG_AUDIO_REPLAY_QUEUE_COUNT

theorem default_block_pos : 0 < 1024 := by decide

theorem default_mp_pos : 0 < 4096 := by decide

theorem default_mp_lt : 4096 < 2 ^ 16 := by decide

theorem two_le_queue : 2 ≤ CFG_AUDIO_REPLAY_QUEUE_COUNT := by decide

/-- `NU_I2S_DMA_FIFO_SIZE` in two frames, and the pool that `Kconfig` proposes. -/
def Sizes.default : Sizes where
  block_size := 1024
  block_count := 2
  mp_size := 4096
  mp_count := 2
  block_pos := default_block_pos
  count_pos := Nat.two_pos
  mp_pos := default_mp_pos
  mp_lt := default_mp_lt
  queue := two_le_queue

def Sizes.total_size (c : Sizes) : ℕ := c.block_count * c.block_size

/-- `struct rt_audio_replay`, with the blocks that are free in the pool, and the ring.  `write_data` are
the bytes of the block up to `write_index`. -/
structure Replay where
  free : ℕ
  queue : List (List UInt8)
  write_data : List UInt8
  read_index : ℕ
  pos : ℕ
  /-- `REPLAY_EVT_STOP`. -/
  stopping : Bool
  activated : Bool
  buffer : ℕ → UInt8

/-! ### The writer -/

/-- One round of the loop of `_audio_dev_write`, from `index` on in a 16-bit variable; it waits where the
pool has no block. -/
def Replay.chunk (c : Sizes) (s : Replay) (data : List UInt8) (index : ℕ) : Option (Replay × ℕ) :=
  let fresh := if s.write_data.length % c.mp_size = 0 then
      (if s.free = 0 then none else some { s with free := s.free - 1, write_data := [] })
    else some s
  fresh.map fun s =>
    let remain_bytes := min (c.mp_size - s.write_data.length) (data.length - index)
    let s := { s with write_data := s.write_data ++ (data.drop index).take remain_bytes }
    let s := if s.write_data.length % c.mp_size = 0 then
        { s with queue := s.queue ++ [s.write_data], write_data := [] }
      else s
    (s, (index + remain_bytes) % 2 ^ 16)

def _audio_flush_replay_frame (s : Replay) : Replay :=
  if s.write_data.length ≠ 0 then { s with queue := s.queue ++ [s.write_data], write_data := [] } else s

/-! ### The handler -/

/-- The loop that fills a frame: `index` bytes are in it, the last `remain_bytes` of them by the round
before. -/
def _audio_send_replay_frame.loop (c : Sizes) : List (List UInt8) → ℕ → ℕ → Replay → Replay
  | [], index, remain_bytes, s =>
    if index < c.block_size then
      { s with queue := [], pos := (s.pos + c.block_size - remain_bytes) % c.total_size, read_index := 0 }
    else { s with queue := [] }
  | data :: queue, index, _, s =>
    if index < c.block_size then
      let remain_bytes := min (c.block_size - index) (data.length - s.read_index)
      let s := { s with
        buffer := overlay s.buffer s.pos remain_bytes fun i => data.getD (s.read_index + i) 0
        pos := (s.pos + remain_bytes) % c.total_size
        read_index := s.read_index + remain_bytes }
      if s.read_index = data.length then
        _audio_send_replay_frame.loop c queue (index + remain_bytes) remain_bytes
          { s with read_index := 0, free := s.free + 1 }
      -- the block has bytes left, so that the frame is full
      else { s with queue := data :: queue }
    else { s with queue := data :: queue }

/-- The frame at `pos`, and whether the stop that is waited for is acknowledged. -/
def _audio_send_replay_frame (c : Sizes) (s : Replay) : Replay × Bool :=
  let zeroed := { s with buffer := overlay s.buffer s.pos c.block_size fun _ => 0 }
  match s.queue with
  | [] => ({ zeroed with pos := (s.pos + c.block_size) % c.total_size }, s.stopping)
  | data :: queue => (_audio_send_replay_frame.loop c (data :: queue) 0 0 zeroed, false)

/-! ### What is waiting -/

variable {c : Sizes} {s : Replay}

/-- Full blocks, and a last one that may be less. -/
def Blocks (c : Sizes) : List (List UInt8) → Prop
  | [] => True
  | [b] => 0 < b.length ∧ b.length ≤ c.mp_size
  | b :: b' :: bs => b.length = c.mp_size ∧ Blocks c (b' :: bs)

theorem Blocks.head {b : List UInt8} {bs : List (List UInt8)} (h : Blocks c (b :: bs)) :
    0 < b.length ∧ b.length ≤ c.mp_size := by
  cases bs with
  | nil => exact h
  | cons b' bs =>
    rw [h.1]
    exact ⟨c.mp_pos, le_rfl⟩

theorem Blocks.tail {b : List UInt8} {bs : List (List UInt8)} (h : Blocks c (b :: bs)) : Blocks c bs := by
  cases bs with
  | nil => trivial
  | cons b' bs => exact h.2

/-- A block behind full blocks. -/
theorem Blocks.snoc {b : List UInt8} {bs : List (List UInt8)} (h : ∀ b ∈ bs, b.length = c.mp_size)
    (hb : 0 < b.length) (hb' : b.length ≤ c.mp_size) : Blocks c (bs ++ [b]) := by
  induction bs with
  | nil => exact ⟨hb, hb'⟩
  | cons d bs ih =>
    have hrest := ih fun e he => h e (List.mem_cons_of_mem d he)
    cases bs with
    | nil => exact ⟨h d List.mem_cons_self, hrest⟩
    | cons e bs => exact ⟨h d List.mem_cons_self, hrest⟩

theorem Blocks.of_full {bs : List (List UInt8)} (h : ∀ b ∈ bs, b.length = c.mp_size) : Blocks c bs := by
  induction bs with
  | nil => trivial
  | cons d bs ih =>
    have hrest := ih fun e he => h e (List.mem_cons_of_mem d he)
    have hd := h d List.mem_cons_self
    cases bs with
    | nil => exact ⟨hd ▸ c.mp_pos, hd.le⟩
    | cons e bs => exact ⟨hd, hrest⟩

/-- The bytes on the queue that have not been sent. -/
def Replay.waiting (s : Replay) : List UInt8 := s.queue.flatten.drop s.read_index

/-- The reader is at the beginning of a frame, in a block that is not used up. -/
structure Replay.Aligned (c : Sizes) (s : Replay) : Prop where
  blocks : Blocks c s.queue
  frame : c.block_size ∣ s.read_index
  inside : ∀ b ∈ s.queue.head?, s.read_index < b.length
  empty : s.queue = [] → s.read_index = 0

/-- What a frame leaves of the state. -/
structure Sent (c : Sizes) (s s' : Replay) : Prop where
  buffer : s'.buffer = overlay s.buffer s.pos c.block_size fun i => s.waiting.getD i 0
  pos : s'.pos = (s.pos + c.block_size) % c.total_size
  waiting : s'.waiting = s.waiting.drop c.block_size
  blocks : s'.free + s'.queue.length = s.free + s.queue.length
  suffix : s'.queue <:+ s.queue
  aligned : s'.Aligned c
  write_data : s'.write_data = s.write_data
  stopping : s'.stopping = s.stopping
  activated : s'.activated = s.activated

/-- A loop whose frame is full. -/
theorem loop_full (queue : List (List UInt8)) {index : ℕ} (remain_bytes : ℕ) (s : Replay)
    (h : c.block_size ≤ index) :
    _audio_send_replay_frame.loop c queue index remain_bytes s = { s with queue := queue } := by
  cases queue with
  | nil => exact if_neg (Nat.not_lt.mpr h)
  | cons data queue => exact if_neg (Nat.not_lt.mpr h)

/-- The first cells of a range, once more. -/
theorem overlay_shorter {β : Type*} (m b b' : ℕ → β) (a : ℕ) {k n : ℕ} (hk : k ≤ n) :
    overlay (overlay m a n b) a k b' = overlay m a n fun i => if i < k then b' i else b i := by
  funext x
  by_cases hn : a ≤ x ∧ x < a + n
  · by_cases hx : a ≤ x ∧ x < a + k
    · rw [overlay_in hx, overlay_in hn, if_pos (by omega)]
    · rw [overlay_out hx, overlay_in hn, overlay_in hn, if_neg (by omega)]
  · rw [overlay_out hn, overlay_out (by omega), overlay_out hn]

/-- A byte of the block at the head of the queue. -/
theorem getD_waiting {data : List UInt8} {rest : List (List UInt8)} {r i : ℕ} (h : r + i < data.length) :
    ((data :: rest).flatten.drop r).getD i 0 = data.getD (r + i) 0 := by
  rw [List.getD_eq_getElem?_getD, List.getElem?_drop, List.flatten_cons,
    List.getElem?_append_left h, List.getD_eq_getElem?_getD]

/-- The block at the head of the queue has a whole frame left, or it is the last. -/
theorem Replay.Aligned.whole {data : List UInt8} {rest : List (List UInt8)} (h : s.Aligned c)
    (hdvd : c.block_size ∣ c.mp_size) (hq : s.queue = data :: rest) :
    c.block_size ≤ data.length - s.read_index ∨ rest = [] := by
  have hblocks := h.blocks
  have hinside := h.inside data (by rw [hq]; rfl)
  rw [hq] at hblocks
  cases rest with
  | nil => exact .inr rfl
  | cons e es =>
    refine .inl (Nat.le_of_dvd (by omega) (Nat.dvd_sub ?_ h.frame))
    rw [hblocks.1]
    exact hdvd

/-- **The next frame.** -/
theorem send_spec (hdvd : c.block_size ∣ c.mp_size) (h : s.Aligned c) :
    Sent c s (_audio_send_replay_frame c s).1 := by
  obtain ⟨free, queue, write_data, r, pos, stopping, activated, buffer⟩ := s
  cases queue with
  | nil =>
    obtain rfl : r = 0 := h.empty rfl
    have hnone : ∀ b ∈ ([] : List (List UInt8)).head?, 0 < b.length := by
      intro b hb
      cases hb
    exact ⟨rfl, rfl, (List.drop_nil ..).symm, rfl, List.suffix_rfl, ⟨trivial, dvd_zero _, hnone, fun _ => rfl⟩,
      rfl, rfl, rfl⟩
  | cons data rest =>
    have hinside : r < data.length := h.inside data rfl
    have hframe : c.block_size ∣ r := h.frame
    have htail : Blocks c rest := h.blocks.tail
    -- what is copied, over zeros
    have hbuffer : ∀ n, n ≤ c.block_size → n ≤ data.length - r →
        (n = c.block_size ∨ n = data.length - r ∧ rest = []) →
        overlay (overlay buffer pos c.block_size fun _ => 0) pos n (fun i => data.getD (r + i) 0) =
          overlay buffer pos c.block_size fun i => ((data :: rest).flatten.drop r).getD i 0 := by
      intro n hn hle hend
      rw [overlay_shorter _ _ _ _ hn]
      refine overlay_congr fun i hi => ?_
      by_cases hin : i < n
      · rw [if_pos hin, getD_waiting (by omega)]
      · obtain rfl | ⟨rfl, rfl⟩ := hend
        · exact absurd hi hin
        · rw [if_neg hin, List.getD_eq_getElem?_getD, List.getElem?_drop, List.flatten_cons,
            List.flatten_nil, List.append_nil, List.getElem?_eq_none (by omega)]
          rfl
    have hhead : ∀ b ∈ rest.head?, 0 < b.length := by
      intro b hb
      cases rest with
      | nil => cases hb
      | cons e es =>
        obtain rfl : e = b := Option.some_inj.mp hb
        exact htail.head.1
    have hpos := c.block_pos
    by_cases hfull : c.block_size ≤ data.length - r
    · have hmin : min (c.block_size - 0) (data.length - r) = c.block_size := by omega
      have hbuf := hbuffer c.block_size le_rfl hfull (.inl rfl)
      by_cases hused : r + c.block_size = data.length
      · -- the block is used up with the frame
        have heq : (_audio_send_replay_frame c
            ⟨free, data :: rest, write_data, r, pos, stopping, activated, buffer⟩).1 =
            ⟨free + 1, rest, write_data, 0, (pos + c.block_size) % c.total_size, stopping, activated,
              overlay buffer pos c.block_size fun i => ((data :: rest).flatten.drop r).getD i 0⟩ := by
          simp only [_audio_send_replay_frame, _audio_send_replay_frame.loop, if_pos hpos, hmin,
            if_pos hused, Nat.zero_add, loop_full rest _ _ le_rfl, hbuf]
        rw [heq]
        refine ⟨rfl, rfl, ?_, ?_, List.suffix_cons _ _, ⟨htail, dvd_zero _, hhead, fun _ => rfl⟩, rfl, rfl, rfl⟩
        · change rest.flatten.drop 0 = ((data :: rest).flatten.drop r).drop c.block_size
          rw [List.drop_drop, hused, List.flatten_cons, List.drop_left, List.drop_zero]
        · simp only [List.length_cons]
          omega
      · have heq : (_audio_send_replay_frame c
            ⟨free, data :: rest, write_data, r, pos, stopping, activated, buffer⟩).1 =
            ⟨free, data :: rest, write_data, r + c.block_size, (pos + c.block_size) % c.total_size, stopping,
              activated,
              overlay buffer pos c.block_size fun i => ((data :: rest).flatten.drop r).getD i 0⟩ := by
          simp only [_audio_send_replay_frame, _audio_send_replay_frame.loop, if_pos hpos, hmin,
            if_neg hused, hbuf]
        rw [heq]
        refine ⟨rfl, rfl, (List.drop_drop ..).symm, rfl, List.suffix_rfl,
          ⟨h.blocks, Nat.dvd_add hframe (Nat.dvd_refl _), fun b hb => ?_, fun hnil => by cases hnil⟩,
          rfl, rfl, rfl⟩
        obtain rfl : data = b := Option.some_inj.mp hb
        change r + c.block_size < data.length
        omega
    · -- the last block ends within the frame
      obtain rfl : rest = [] := (h.whole hdvd rfl).resolve_left hfull
      have hmin : min (c.block_size - 0) (data.length - r) = data.length - r := by omega
      have hused : r + (data.length - r) = data.length := by omega
      have hbuf := hbuffer (data.length - r) (by omega) le_rfl (.inr ⟨rfl, rfl⟩)
      have hshort : data.length - r < c.block_size := Nat.not_le.mp hfull
      have hnext : ((pos + (data.length - r)) % c.total_size + c.block_size - (data.length - r)) %
          c.total_size = (pos + c.block_size) % c.total_size := by
        rw [Nat.add_sub_assoc hshort.le, Nat.mod_add_mod]
        congr 1
        omega
      have heq : (_audio_send_replay_frame c
          ⟨free, [data], write_data, r, pos, stopping, activated, buffer⟩).1 =
          ⟨free + 1, [], write_data, 0, (pos + c.block_size) % c.total_size, stopping, activated,
            overlay buffer pos c.block_size fun i => (([data] : List (List UInt8)).flatten.drop r).getD i 0⟩ := by
        simp only [_audio_send_replay_frame, _audio_send_replay_frame.loop, if_pos hpos, hmin,
          if_pos hused, Nat.zero_add, if_pos hshort, hnext, hbuf]
      rw [heq]
      refine ⟨rfl, rfl, ?_, rfl, List.suffix_cons _ _, ⟨trivial, dvd_zero _, hhead, fun _ => rfl⟩, rfl, rfl, rfl⟩
      change [] = (([data] : List (List UInt8)).flatten.drop r).drop c.block_size
      rw [List.drop_drop, List.flatten_cons, List.flatten_nil, List.append_nil,
        List.drop_eq_nil_of_le (by omega)]

/-- A stop is acknowledged when there is nothing left. -/
theorem send_done_iff :
    (_audio_send_replay_frame c s).2 = true ↔ s.queue = [] ∧ s.stopping = true := by
  obtain ⟨free, queue, write_data, r, pos, stopping, activated, buffer⟩ := s
  cases queue with
  | nil => exact ⟨fun h => ⟨rfl, h⟩, fun h => h.2⟩
  | cons data rest => exact ⟨fun h => Bool.noConfusion h, fun h => by cases h.1⟩

end Audio
