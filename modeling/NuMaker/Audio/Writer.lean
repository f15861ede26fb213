/-
Audio replay: the first write.

The device is started when the first write has returned, and until then nobody gives blocks back.  So the
write must fit the pool; and it counts its bytes in 16 bits.

* **`Waits`** — the device before its first write has returned;
* **`first_write_returns_iff`** — the writes that return.
-/
import NuMaker.Audio.Playback

namespace Audio

variable {c : Sizes} {w w' : World} {data : List UInt8} {index : ℕ}

/-- A write goes on that has copied so much, and the device has not been started. -/
structure Waits (w : World) (data : List UInt8) (index : ℕ) : Prop where
  write : w.write = some (data, index)
  stopped : w.drv.activated = false
  running : w.drv.stopping = false
  reader : w.drv.read_index = 0
  frames : w.frames = []
  lt : index < 2 ^ 16
  copied : data.length < 2 ^ 16 → index ≤ data.length ∧ w.written = data.take index

theorem waits_write (c : Sizes) (data : List UInt8) :
    ∃ w, (opened c).step c (.write data) = some w ∧ w.Inv c ∧ Waits w data 0 := by
  refine ⟨{ opened c with write := some (data, 0) }, rfl, ?_, ?_⟩
  · have h := opened_inv c
    exact ⟨h.aligned, h.full, h.short, fun hstop => Bool.noConfusion hstop, h.acked, h.pool, h.stream,
      h.whole, h.flushing, h.pos, h.live⟩
  · exact ⟨rfl, rfl, rfl, rfl, rfl, by norm_num, fun _ => ⟨Nat.zero_le _, rfl⟩⟩

/-- The bytes copied are in blocks of the pool. -/
theorem Waits.fits (hinv : w.Inv c) (h : Waits w data index) :
    w.written.length ≤ c.mp_count * c.mp_size ∧
      (w.written.length < c.mp_count * c.mp_size → w.drv.free = 0 → w.drv.write_data ≠ []) := by
  have hqueue : w.drv.queue.flatten.length = w.drv.queue.length * c.mp_size := by
    have hfull := hinv.full h.running
    generalize w.drv.queue = queue at hfull
    induction queue with
    | nil => exact (Nat.zero_mul _).symm
    | cons b bs ih =>
      rw [List.flatten_cons, List.length_append, ih fun d hd => hfull d (List.mem_cons_of_mem b hd),
        hfull b List.mem_cons_self, List.length_cons, Nat.succ_mul, Nat.add_comm]
  have hwritten : w.written.length = w.drv.queue.length * c.mp_size + w.drv.write_data.length := by
    rw [hinv.stream, h.frames, Replay.waiting, h.reader, List.drop_zero, List.flatten_nil, List.nil_append,
      List.length_append, hqueue]
  have hpool := hinv.pool
  have hshort := hinv.short
  by_cases hnil : w.drv.write_data = []
  · rw [if_pos hnil, Nat.add_zero] at hpool
    rw [hnil, List.length_nil, Nat.add_zero] at hwritten
    refine ⟨hwritten ▸ Nat.mul_le_mul_right _ (by omega), fun hlt hfree => absurd hlt ?_⟩
    rw [hwritten, show w.drv.queue.length = c.mp_count by omega]
    exact lt_irrefl _
  · rw [if_neg hnil] at hpool
    refine ⟨?_, fun _ _ => hnil⟩
    calc w.written.length ≤ (w.drv.queue.length + 1) * c.mp_size := by rw [hwritten, Nat.succ_mul]; omega
      _ ≤ c.mp_count * c.mp_size := Nat.mul_le_mul_right _ (by omega)

/-- A chunk of it. -/
theorem Waits.chunk (hinv : w.Inv c) (h : Waits w data index) (hs : w.step c .chunk = some w') :
    ∃ index', Waits w' data index' ∧ (data.length < 2 ^ 16 → index < index') := by
  simp only [World.step, h.write] at hs
  split_ifs at hs with hindex
  obtain ⟨r, hr, rfl⟩ := Option.map_eq_some_iff.mp hs
  obtain ⟨hne, f, -, hcases⟩ := chunk_cases hinv.short hr hindex
  have hdrv : r.1.activated = w.drv.activated ∧ r.1.stopping = w.drv.stopping ∧
      r.1.read_index = w.drv.read_index := by
    obtain ⟨heq, -⟩ | ⟨heq, -⟩ := hcases <;> rw [heq] <;> exact ⟨rfl, rfl, rfl⟩
  -- how far it has come
  have hnext : r.2 = (index + min (c.mp_size - w.drv.write_data.length) (data.length - index)) % 2 ^ 16 := by
    simp only [Replay.chunk] at hr
    obtain ⟨s, hfresh, heq⟩ := Option.map_eq_some_iff.mp hr
    have hlen : s.write_data.length = w.drv.write_data.length := by
      split_ifs at hfresh with hmod hfree
      · obtain rfl := Option.some_inj.mp hfresh
        rw [Nat.mod_eq_of_lt hinv.short] at hmod
        exact hmod.symm
      · obtain rfl := Option.some_inj.mp hfresh
        rfl
    rw [← heq]
    dsimp only
    rw [hlen]
  have hpos : 0 < min (c.mp_size - w.drv.write_data.length) (data.length - index) := by
    have := hinv.short
    omega
  refine ⟨r.2, ⟨rfl, hdrv.1.trans h.stopped, hdrv.2.1.trans h.running, hdrv.2.2.trans h.reader, h.frames,
    ?_, fun hlen => ⟨?_, ?_⟩⟩, fun hlen => ?_⟩
  · rw [hnext]
    exact Nat.mod_lt _ (by norm_num)
  · rw [hnext, Nat.mod_eq_of_lt (by omega)]
    omega
  · dsimp only
    rw [hnext, Nat.mod_eq_of_lt (by omega), (h.copied hlen).2, List.take_add]
  · rw [hnext, Nat.mod_eq_of_lt (by omega)]
    omega

/-- It never has to wait if it fits. -/
theorem Waits.runs (hinv : w.Inv c) (h : Waits w data index) (hlen : data.length < 2 ^ 16)
    (hfits : data.length ≤ c.mp_count * c.mp_size) (hindex : index < data.length) :
    ∃ w', w.step c .chunk = some w' := by
  obtain ⟨-, hroom⟩ := h.fits hinv
  have hwritten : w.written.length = index := by
    rw [(h.copied hlen).2, List.length_take]
    omega
  have hfree := hroom (by omega)
  simp only [World.step, h.write, if_pos hindex, Option.map_eq_some_iff, Replay.chunk]
  by_cases hnil : w.drv.write_data = []
  · have hmod : w.drv.write_data.length % c.mp_size = 0 := by rw [hnil, List.length_nil, Nat.zero_mod]
    rw [if_pos hmod, if_neg fun hzero => hfree hzero hnil]
    exact ⟨_, _, ⟨_, rfl, rfl⟩, rfl⟩
  · have hmod : w.drv.write_data.length % c.mp_size ≠ 0 := by
      rw [Nat.mod_eq_of_lt hinv.short]
      exact (List.length_pos_of_ne_nil hnil).ne'
    rw [if_neg hmod]
    exact ⟨_, _, ⟨_, rfl, rfl⟩, rfl⟩

/-- So many chunks, and then the return. -/
def writes (c : Sizes) (w : World) (n : ℕ) : Option World :=
  Reachable.run (World.step c) w (List.replicate n .chunk ++ [.ret])

theorem returns_of_fits (hdvd : c.block_size ∣ c.mp_size) (hlen : data.length < 2 ^ 16)
    (hfits : data.length ≤ c.mp_count * c.mp_size) (hinv : w.Inv c) (h : Waits w data index) :
    ∃ n, (writes c w n).isSome := by
  induction hleft : data.length - index using Nat.strong_induction_on generalizing w index with | _ left ih
  by_cases hindex : index < data.length
  · obtain ⟨w', hs⟩ := h.runs hinv hlen hfits hindex
    obtain ⟨index', h', hlt⟩ := h.chunk hinv hs
    have hless := hlt hlen
    obtain ⟨n, hn⟩ := ih _ (by omega) (hinv.step hdvd hs) h' rfl
    refine ⟨n + 1, ?_⟩
    rw [writes, List.replicate_succ, List.cons_append, Reachable.run, hs, Option.bind_some]
    exact hn
  · refine ⟨0, ?_⟩
    simp only [writes, List.replicate_zero, List.nil_append, Reachable.run, World.step, h.write, if_neg hindex,
      Option.bind_some, Option.isSome_some]

theorem fits_of_returns (hdvd : c.block_size ∣ c.mp_size) {n : ℕ} (hinv : w.Inv c) (h : Waits w data index)
    (hn : (writes c w n).isSome) : data.length < 2 ^ 16 ∧ data.length ≤ c.mp_count * c.mp_size := by
  induction n generalizing w index with
  | zero =>
    have hdone : ¬ index < data.length := by
      intro hlt
      simp only [writes, List.replicate_zero, List.nil_append, Reachable.run, World.step, h.write, if_pos hlt,
        Option.bind_none, Option.isSome_none, Bool.false_eq_true] at hn
    have hlen : data.length < 2 ^ 16 := lt_of_le_of_lt (Nat.not_lt.mp hdone) h.lt
    have hwritten := (h.fits hinv).1
    rw [(h.copied hlen).2, List.take_of_length_le (Nat.not_lt.mp hdone)] at hwritten
    exact ⟨hlen, hwritten⟩
  | succ n ih =>
    rw [writes, List.replicate_succ, List.cons_append, Reachable.run] at hn
    cases hs : w.step c .chunk with
    | none =>
      rw [hs] at hn
      cases hn
    | some w' =>
      rw [hs, Option.bind_some] at hn
      obtain ⟨index', h', -⟩ := h.chunk hinv hs
      exact ih (hinv.step hdvd hs) h' hn

/-- **The first write returns iff it fits the pool**, and is not longer than its index can tell: nothing is
played before it has returned, and so no block comes back. -/
theorem first_write_returns_iff (c : Sizes) (hdvd : c.block_size ∣ c.mp_size) (data : List UInt8) :
    (∃ n w, Reachable.run (World.step c) (opened c) (.write data :: (List.replicate n .chunk ++ [.ret])) = some w) ↔
      data.length < 2 ^ 16 ∧ data.length ≤ c.mp_count * c.mp_size := by
  obtain ⟨w, hs, hinv, h⟩ := waits_write c data
  have hruns (n : ℕ) : Reachable.run (World.step c) (opened c) (.write data :: (List.replicate n .chunk ++ [.ret])) =
      writes c w n := by
    rw [Reachable.run, hs, Option.bind_some, writes]
  simp only [hruns]
  constructor
  · rintro ⟨n, w', hw'⟩
    exact fits_of_returns hdvd hinv h (by rw [hw']; rfl)
  · rintro ⟨hlen, hfits⟩
    obtain ⟨n, hn⟩ := returns_of_fits hdvd hlen hfits hinv h
    exact ⟨n, Option.isSome_iff_exists.mp hn⟩

/-- With the sizes that are proposed, two blocks of four kilobytes. -/
theorem first_write_default :
    ¬ ∃ n w, Reachable.run (World.step Sizes.default) (opened Sizes.default)
      (.write (List.replicate 8193 0) :: (List.replicate n .chunk ++ [.ret])) = some w := by
  rw [first_write_returns_iff Sizes.default (by decide)]
  rintro ⟨-, hfits⟩
  rw [List.length_replicate] at hfits
  exact absurd hfits (by decide)

end Audio
