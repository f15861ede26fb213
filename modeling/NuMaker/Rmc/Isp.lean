/-
The ISP commands of the RRAM controller, one by one, and `RMC_WriteMultiple`, which is made of
them.

A command is started by `ISPGO` and waited for with a time-out; what comes of it is the
environment's choice (`Reply`).  Words are loaded into the data buffer of the controller and
programmed together.

`RMC_WriteMultiple` takes eight bytes a turn off an unsigned length that it only requires to be
even, and its tests of the address refuse nothing outside the two regions:

* **`Job.written_iff`** — the calls that end, program their buffer and read nothing but it.
-/
import NuMaker.Rmc.Flash
import NuMaker.Lib.Stages

namespace Rmc

/-! ### Commands -/

/-- What becomes of a command: the number of times `ISPGO` reads 1, the fail flag, the word it
reads, and what a failing program command leaves in its words. -/
structure Reply where
  busy : ℕ
  ISPFF : Bool
  ISPDAT : BitVec 32
  left : ℕ → BitVec 32

/-- `while ((--tout > 0) && (RMC->ISPTRG & RMC_ISPTRG_ISPGO_Msk)) {}`, and `tout` after it. -/
def waitIspgo : ℕ → BitVec 32 → BitVec 32
  | 0, tout => tout - 1
  | busy + 1, tout => if 0 < tout - 1 then waitIspgo busy (tout - 1) else tout - 1

def RMC_TIMEOUT_WRITE (SystemCoreClock : BitVec 32) : BitVec 32 := SystemCoreClock / 10 / 4

/-- The command is done in time, and without the fail flag. -/
def Reply.Done (tout : BitVec 32) (r : Reply) : Prop := waitIspgo r.busy tout ≠ 0 ∧ r.ISPFF = false

instance (tout : BitVec 32) (r : Reply) : Decidable (r.Done tout) :=
  inferInstanceAs (Decidable (_ ∧ _))

/-- The words of `l` written, one after the other. -/
def writeAll (f : ℕ → BitVec 32) (l : List (ℕ × BitVec 32)) : ℕ → BitVec 32 :=
  l.foldl (fun f e => Function.update f e.1 e.2) f

theorem writeAll_append (f : ℕ → BitVec 32) (l l' : List (ℕ × BitVec 32)) :
    writeAll f (l ++ l') = writeAll (writeAll f l) l' := List.foldl_append

theorem writeAll_singleton (f : ℕ → BitVec 32) (w : ℕ) (v : BitVec 32) :
    writeAll f [(w, v)] = overlay f w 1 fun _ => v := by
  funext x
  by_cases hx : x = w
  · subst hx
    rw [overlay_in (by omega)]
    exact Function.update_self _ _ _
  · rw [overlay_out (by omega)]
    exact Function.update_of_ne hx _ _

/-- Consecutive words. -/
theorem writeAll_range (f : ℕ → BitVec 32) (a n : ℕ) (b : ℕ → BitVec 32) :
    writeAll f ((List.range n).map fun i => (a + i, b i)) = overlay f a n b := by
  induction n with
  | zero => exact (overlay_zero f b a).symm
  | succ n ih =>
    rw [List.range_succ, List.map_append, writeAll_append, ih, List.map_singleton,
      writeAll_singleton]
    have hone : overlay (overlay f a n b) (a + n) 1 (fun _ => b n) =
        overlay (overlay f a n b) (a + n) 1 fun i => b (n + i) :=
      overlay_congr fun i hi => by rw [Nat.lt_one_iff.mp hi, Nat.add_zero]
    rw [hone]
    exact overlay_append f b _ a n 1 fun i => rfl

/-- The bytes of words that were replaced. -/
theorem bytes_overlay (f b : ℕ → BitVec 32) {a : ℕ} (ha : a % 4 = 0) (n : ℕ) :
    bytes (overlay f (a / 4) n b) = overlay (bytes f) a (4 * n) (bytes b) := by
  funext x
  by_cases hx : a ≤ x ∧ x < a + 4 * n
  · rw [overlay_in hx, bytes, overlay_in (by omega), bytes]
    congr 1
    · congr 1
      omega
    · omega
  · rw [overlay_out hx, bytes, overlay_out (by omega), bytes]

/-! ### `RMC_WriteMultiple` -/

/-- A call, and the flash it finds. -/
structure Job where
  SystemCoreClock : BitVec 32
  u32Addr : BitVec 32
  pu32Buf : ℕ → BitVec 32
  u32Len : BitVec 32
  flash : ℕ → BitVec 32
  replies : ℕ → Reply

/-- The next command of a call, or what it has returned. -/
inductive Multi.Pc
  | clear
  | load
  | program
  | done (ret : ℤ)
deriving DecidableEq

/-- A call on its way.  `buffer` is the data buffer of the controller, `reads` the words of
`pu32Buf` it has read, `cmds` the number of commands. -/
structure Multi where
  pc : Multi.Pc
  idx : ℕ
  u32Len : BitVec 32
  buffer : List (ℕ × BitVec 32)
  flash : ℕ → BitVec 32
  reads : List ℕ
  cmds : ℕ
  MPEN : Bool
  g_RMC_i32ErrCode : ℤ

namespace Job

variable (J : Job)

/-- The tests at the head of `RMC_WriteMultiple`. -/
def Refused : Prop :=
  (J.u32Addr.toNat % 256 ≠ 0 ∨ J.u32Len.toNat % 2 ≠ 0 ∨
      RMC_MULTI_WORD_PROG_MAX_LEN < J.u32Len.toNat) ∨
    if J.u32Addr.toNat < RMC_APROM_END then RMC_APROM_END < (J.u32Addr + J.u32Len).toNat
    else (RMC_LDROM_BASE ≤ J.u32Addr.toNat ∧ J.u32Addr.toNat < RMC_LDROM_END) ∧
      RMC_LDROM_END < (J.u32Addr + J.u32Len).toNat

instance : Decidable J.Refused := inferInstanceAs (Decidable (_ ∨ _))

/-- Behind the tests. -/
def start : Multi :=
  { pc := if J.Refused then .done (-2) else .clear
    idx := 0, u32Len := J.u32Len, buffer := [], flash := J.flash, reads := [], cmds := 0
    MPEN := !decide J.Refused, g_RMC_i32ErrCode := 0 }

/-- `while (u32Len > 0)`. -/
def loop (u32Len : BitVec 32) : Multi.Pc := if 0 < u32Len then .load else .program

/-- `prog_fail`. -/
def fail (m : Multi) : Multi :=
  { m with pc := .done (-1), g_RMC_i32ErrCode := -1, MPEN := false }

/-- A command: it is started, waited for, and the flags looked at.  A program command that fails
may have left anything in the words of the buffer. -/
def step (m : Multi) : Multi :=
  let r := J.replies m.cmds
  let tout := RMC_TIMEOUT_WRITE J.SystemCoreClock
  match m.pc with
  | .clear =>
    let m := { m with cmds := m.cmds + 1, buffer := [] }
    if r.Done tout then { m with pc := loop m.u32Len } else fail m
  | .load =>
    let word := (J.u32Addr + BitVec.ofNat 32 (m.idx * 4)).toNat / 4
    let m := { m with
      cmds := m.cmds + 1
      buffer := m.buffer ++ [(word, J.pu32Buf m.idx), (word + 1, J.pu32Buf (m.idx + 1))]
      reads := m.reads ++ [m.idx, m.idx + 1]
      idx := m.idx + 2 }
    if r.Done tout then { m with u32Len := m.u32Len - 8, pc := loop (m.u32Len - 8) } else fail m
  | .program =>
    let m := { m with cmds := m.cmds + 1, reads := m.reads ++ [0] }
    if r.Done tout then
      { m with flash := writeAll m.flash m.buffer, pc := .done (m.idx * 4) }
    else fail { m with flash := writeAll m.flash (m.buffer.map fun e => (e.1, r.left e.1)) }
  | .done _ => m

/-- The call has returned. -/
def Returned (m : Multi) : Prop := ∃ ret, m.pc = .done ret

/-- The address lies in one of the two regions. -/
def InRegion : Prop :=
  J.u32Addr.toNat < RMC_APROM_END ∨
    (RMC_LDROM_BASE ≤ J.u32Addr.toNat ∧ J.u32Addr.toNat < RMC_LDROM_END)

instance : Decidable J.InRegion := inferInstanceAs (Decidable (_ ∨ _))

/-- **Writing exactly the buffer**: the call returns, has read words of the buffer only, has
changed nothing outside the range, and has programmed the whole buffer and returned its length or
has returned an error; outside the regions it refuses without a command. -/
def Exact : Prop :=
  ∃ m, EndsIn J.step Returned J.start m ∧
    (∀ i ∈ m.reads, 4 * i + 4 ≤ J.u32Len.toNat) ∧
    (∀ a, ¬ (J.u32Addr.toNat ≤ a ∧ a < J.u32Addr.toNat + J.u32Len.toNat) →
      bytes m.flash a = bytes J.flash a) ∧
    ((m.pc = .done J.u32Len.toNat ∧
        bytes m.flash =
          overlay (bytes J.flash) J.u32Addr.toNat J.u32Len.toNat (bytes J.pu32Buf)) ∨
      ∃ ret < 0, m.pc = .done ret) ∧
    (¬ J.InRegion → m.pc = .done (-2) ∧ m.cmds = 0)

/-- Command `k` is done in time and without the fail flag. -/
def Ok (k : ℕ) : Prop := (J.replies k).Done (RMC_TIMEOUT_WRITE J.SystemCoreClock)

/-- The call is refused at its head; or the address is in a region, and the length is a positive
multiple of eight or a command fails before the words of the buffer run out. -/
def Fits : Prop :=
  J.Refused ∨ (J.InRegion ∧ ((0 < J.u32Len.toNat ∧ 8 ∣ J.u32Len.toNat) ∨
    ∃ k ≤ J.u32Len.toNat / 8, ¬ J.Ok k))

variable {J}

theorem step_of_returned {m : Multi} (h : Returned m) : J.step m = m := by
  obtain ⟨ret, h⟩ := h
  simp only [step, h]

/-- The words read stay read, and the commands counted. -/
theorem step_grows (m : Multi) : m.reads ⊆ (J.step m).reads ∧ m.cmds ≤ (J.step m).cmds := by
  cases h : m.pc with
  | clear =>
    simp only [step, h]
    split <;> simp [fail]
  | load =>
    simp only [step, h]
    split <;> simp [fail]
  | program =>
    simp only [step, h]
    split <;> simp [fail]
  | done ret => simp [step, h]

theorem iterate_grows (j : ℕ) (m : Multi) :
    m.reads ⊆ (J.step^[j] m).reads ∧ m.cmds ≤ (J.step^[j] m).cmds := by
  induction j with
  | zero => exact ⟨List.Subset.refl _, le_rfl⟩
  | succ j ih =>
    rw [Function.iterate_succ_apply']
    have hstep := @step_grows J (J.step^[j] m)
    exact ⟨List.Subset.trans ih.1 hstep.1, ih.2.trans hstep.2⟩

/-- With `j` pairs of words loaded. -/
structure Loaded (J : Job) (j : ℕ) (m : Multi) : Prop where
  pc : m.pc = loop m.u32Len
  idx : m.idx = 2 * j
  len : m.u32Len.toNat = J.u32Len.toNat - 8 * j
  buffer : m.buffer = (List.range (2 * j)).map fun i => (J.u32Addr.toNat / 4 + i, J.pu32Buf i)
  flash : m.flash = J.flash
  reads : m.reads = List.range (2 * j)
  cmds : m.cmds = j + 1

/-- The states of a stage: the first command, the loading, and the end. -/
def Stage (J : Job) (k : ℕ) (m : Multi) : Prop :=
  match k with
  | 0 => m = J.start
  | j + 1 =>
    if j ≤ J.u32Len.toNat / 8 then Loaded J j m
    else m.pc = .done J.u32Len.toNat ∧ (∀ i ∈ m.reads, 4 * i + 4 ≤ J.u32Len.toNat) ∧
      bytes m.flash = overlay (bytes J.flash) J.u32Addr.toNat J.u32Len.toNat (bytes J.pu32Buf)

/-- Where a command has failed. -/
structure Failed (J : Job) (m : Multi) : Prop where
  pc : m.pc = .done (-1)
  reads : ∀ i ∈ m.reads, 4 * i + 4 ≤ J.u32Len.toNat
  flash : ∀ a, ¬ (J.u32Addr.toNat ≤ a ∧ a < J.u32Addr.toNat + J.u32Len.toNat) →
    bytes m.flash a = bytes J.flash a

theorem start_pc (hr : ¬ J.Refused) : J.start.pc = .clear := if_neg hr

theorem len_le (hr : ¬ J.Refused) : J.u32Len.toNat ≤ 512 := by
  by_contra h
  exact hr (.inl (.inr (.inr (Nat.lt_of_not_le h))))

theorem addr_lt (hreg : J.InRegion) : J.u32Addr.toNat < 0x0F102000 := by
  rcases hreg with h | ⟨-, h⟩
  · exact h.trans (by decide)
  · exact h

theorem pos_iff {u32Len : BitVec 32} : 0 < u32Len ↔ 0 < u32Len.toNat := Iff.rfl

theorem loaded_zero (hr : ¬ J.Refused) (hok : J.Ok 0) : Loaded J 0 (J.step J.start) := by
  have hdone : (J.replies J.start.cmds).Done (RMC_TIMEOUT_WRITE J.SystemCoreClock) := hok
  simp only [step, start_pc hr, if_pos hdone]
  exact ⟨rfl, rfl, rfl, rfl, rfl, rfl, rfl⟩

theorem failed_start (hr : ¬ J.Refused) (hbad : ¬ J.Ok 0) : Failed J (J.step J.start) := by
  have hdone : ¬ (J.replies J.start.cmds).Done (RMC_TIMEOUT_WRITE J.SystemCoreClock) := hbad
  simp only [step, start_pc hr, if_neg hdone]
  exact ⟨rfl, fun i hi => absurd hi List.not_mem_nil, fun a _ => rfl⟩

section Load

variable {m : Multi} {j : ℕ}

theorem Loaded.pc_load (h : Loaded J j m) (hj : 8 * j < J.u32Len.toNat) : m.pc = .load := by
  rw [h.pc, loop, if_pos]
  rw [pos_iff, h.len]
  omega

/-- Where the words of a load go. -/
theorem Loaded.word (h : Loaded J j m) (hr : ¬ J.Refused) (hreg : J.InRegion)
    (hj : 8 * j ≤ J.u32Len.toNat) :
    (J.u32Addr + BitVec.ofNat 32 (m.idx * 4)).toNat / 4 = J.u32Addr.toNat / 4 + 2 * j := by
  have hlen := len_le hr
  have haddr := addr_lt hreg
  rw [h.idx, BitVec.toNat_add, BitVec.toNat_ofNat]
  omega

theorem Loaded.succ (h : Loaded J j m) (hr : ¬ J.Refused) (hreg : J.InRegion)
    (hj : j < J.u32Len.toNat / 8) (hok : J.Ok (j + 1)) : Loaded J (j + 1) (J.step m) := by
  have hdone : (J.replies m.cmds).Done (RMC_TIMEOUT_WRITE J.SystemCoreClock) := by
    rw [h.cmds]
    exact hok
  have hlen : (m.u32Len - 8).toNat = J.u32Len.toNat - 8 * (j + 1) := by
    have := h.len
    rw [BitVec.toNat_sub, this, show (8 : BitVec 32).toNat = 8 from rfl]
    omega
  have hrange : List.range (2 * (j + 1)) = List.range (2 * j) ++ [2 * j, 2 * j + 1] := by
    rw [show 2 * (j + 1) = 2 * j + 1 + 1 by ring, List.range_succ, List.range_succ,
      List.append_assoc]
    rfl
  simp only [step, h.pc_load (by omega), if_pos hdone, h.word hr hreg (by omega)]
  refine ⟨rfl, ?_, hlen, ?_, h.flash, ?_, ?_⟩
  · rw [h.idx, Nat.mul_succ]
  · rw [h.buffer, hrange, List.map_append, h.idx]
    rfl
  · rw [h.reads, hrange, h.idx]
  · rw [h.cmds]

theorem Loaded.failed (h : Loaded J j m) (hj : j < J.u32Len.toNat / 8) (hbad : ¬ J.Ok (j + 1)) :
    Failed J (J.step m) := by
  have hdone : ¬ (J.replies m.cmds).Done (RMC_TIMEOUT_WRITE J.SystemCoreClock) := by
    rw [h.cmds]
    exact hbad
  -- the words were read before the command failed
  simp only [step, h.pc_load (by omega), if_neg hdone]
  refine ⟨rfl, fun i hi => ?_, fun a _ => by rw [fail, h.flash]⟩
  simp only [fail, h.reads, h.idx, List.mem_append, List.mem_range, List.mem_cons,
    List.not_mem_nil, or_false] at hi
  omega

/-- All words are loaded. -/
theorem Loaded.pc_program (h : Loaded J j m) (hj : J.u32Len.toNat = 8 * j) : m.pc = .program := by
  rw [h.pc, loop, if_neg]
  rw [pos_iff, h.len]
  omega

theorem Loaded.bytes_programmed (h : Loaded J j m) (hr : ¬ J.Refused)
    (hj : J.u32Len.toNat = 8 * j) (b : ℕ → BitVec 32) :
    bytes (writeAll m.flash ((List.range (2 * j)).map fun i => (J.u32Addr.toNat / 4 + i, b i))) =
      overlay (bytes J.flash) J.u32Addr.toNat J.u32Len.toNat (bytes b) := by
  have halign : J.u32Addr.toNat % 4 = 0 := by
    by_contra h
    exact hr (.inl (.inl (by omega)))
  rw [writeAll_range, bytes_overlay _ _ halign, h.flash, hj, show 4 * (2 * j) = 8 * j by ring]

theorem Loaded.programmed (h : Loaded J j m) (hr : ¬ J.Refused) (hpos : 0 < j)
    (hj : J.u32Len.toNat = 8 * j) (hok : J.Ok (j + 1)) :
    (J.step m).pc = .done J.u32Len.toNat ∧
      (∀ i ∈ (J.step m).reads, 4 * i + 4 ≤ J.u32Len.toNat) ∧
      bytes (J.step m).flash =
        overlay (bytes J.flash) J.u32Addr.toNat J.u32Len.toNat (bytes J.pu32Buf) := by
  have hdone : (J.replies m.cmds).Done (RMC_TIMEOUT_WRITE J.SystemCoreClock) := by
    rw [h.cmds]
    exact hok
  simp only [step, h.pc_program hj, if_pos hdone]
  refine ⟨?_, fun i hi => ?_, ?_⟩
  · rw [h.idx, hj]
    congr 1
    push_cast
    ring
  · simp only [h.reads, List.mem_append, List.mem_range, List.mem_singleton] at hi
    omega
  · rw [h.buffer]
    exact h.bytes_programmed hr hj J.pu32Buf

theorem Loaded.program_failed (h : Loaded J j m) (hr : ¬ J.Refused) (hpos : 0 < j)
    (hj : J.u32Len.toNat = 8 * j) (hbad : ¬ J.Ok (j + 1)) : Failed J (J.step m) := by
  have hdone : ¬ (J.replies m.cmds).Done (RMC_TIMEOUT_WRITE J.SystemCoreClock) := by
    rw [h.cmds]
    exact hbad
  simp only [step, h.pc_program hj, if_neg hdone]
  refine ⟨rfl, fun i hi => ?_, fun a ha => ?_⟩
  · simp only [fail, h.reads, List.mem_append, List.mem_range, List.mem_singleton] at hi
    omega
  · -- what is left of the words is the controller's
    simp only [fail, h.buffer, List.map_map]
    have hb := h.bytes_programmed hr hj fun i => (J.replies m.cmds).left (J.u32Addr.toNat / 4 + i)
    simp only [Function.comp_def]
    rw [hb, overlay_out ha]

end Load

theorem stage_loaded_iff {j : ℕ} {m : Multi} (hj : j ≤ J.u32Len.toNat / 8) :
    Stage J (j + 1) m ↔ Loaded J j m := by rw [Stage, if_pos hj]

theorem stage_end_iff {j : ℕ} {m : Multi} (hj : ¬ j ≤ J.u32Len.toNat / 8) :
    Stage J (j + 1) m ↔
      m.pc = .done J.u32Len.toNat ∧ (∀ i ∈ m.reads, 4 * i + 4 ≤ J.u32Len.toNat) ∧
        bytes m.flash =
          overlay (bytes J.flash) J.u32Addr.toNat J.u32Len.toNat (bytes J.pu32Buf) := by
  rw [Stage, if_neg hj]

theorem Stage.succ {k : ℕ} {m : Multi} (hr : ¬ J.Refused) (hreg : J.InRegion)
    (hk : k < J.u32Len.toNat / 8 + 1) (h : Stage J k m) (hok : J.Ok k) :
    Stage J (k + 1) (J.step m) := by
  cases k with
  | zero =>
    obtain rfl : m = J.start := h
    exact (stage_loaded_iff (Nat.zero_le _)).mpr (loaded_zero hr hok)
  | succ j =>
    have hload : Loaded J j m := (stage_loaded_iff (by omega)).mp h
    exact (stage_loaded_iff (by omega)).mpr (hload.succ hr hreg (by omega) hok)

theorem Stage.failed {k : ℕ} {m : Multi} (hr : ¬ J.Refused) (hk : k < J.u32Len.toNat / 8 + 1)
    (h : Stage J k m) (hbad : ¬ J.Ok k) : Failed J (J.step m) := by
  cases k with
  | zero =>
    obtain rfl : m = J.start := h
    exact failed_start hr hbad
  | succ j =>
    have hload : Loaded J j m := (stage_loaded_iff (by omega)).mp h
    exact hload.failed (by omega) hbad

theorem Failed.exact {m : Multi} (hreg : J.InRegion) (he : EndsIn J.step Returned J.start m)
    (h : Failed J m) : J.Exact :=
  ⟨m, he, h.reads, h.flash, .inr ⟨-1, by decide, h.pc⟩, fun hne => absurd hreg hne⟩

/-- A whole number of turns. -/
theorem exact_of_dvd (hr : ¬ J.Refused) (hreg : J.InRegion) (hpos : 0 < J.u32Len.toNat)
    (hdvd : 8 ∣ J.u32Len.toNat) : J.Exact := by
  obtain ⟨n, hn⟩ := hdvd
  have hdiv : J.u32Len.toNat / 8 = n := by omega
  obtain ⟨m, he, ⟨-, hend⟩ | ⟨k, -, -, -, hfail⟩⟩ :=
    @stages_end _ J.step Returned J.start (Stage J) (fun _ m => Failed J m) J.Ok (n + 2) rfl
      (fun k hk t ht hok => by
        rcases Nat.lt_or_ge k (n + 1) with hlt | hge
        · exact ht.succ hr hreg (by omega) hok
        · obtain rfl : k = n + 1 := by omega
          have hload : Loaded J n t := (stage_loaded_iff hdiv.ge).mp ht
          exact (stage_end_iff (by omega)).mpr (hload.programmed hr (by omega) hn hok))
      (fun k hk t ht hbad => by
        have hfail : Failed J (J.step t) := by
          rcases Nat.lt_or_ge k (n + 1) with hlt | hge
          · exact ht.failed hr (by omega) hbad
          · obtain rfl : k = n + 1 := by omega
            have hload : Loaded J n t := (stage_loaded_iff hdiv.ge).mp ht
            exact hload.program_failed hr (by omega) hn hbad
        exact ⟨⟨-1, hfail.pc⟩, hfail⟩)
      (fun t ht => ⟨_, ((stage_end_iff (by omega)).mp ht).1⟩)
  · obtain ⟨hpc, hreads, hflash⟩ := (stage_end_iff (by omega)).mp hend
    refine ⟨m, he, hreads, fun a ha => ?_, .inl ⟨hpc, hflash⟩, fun hne => absurd hreg hne⟩
    rw [hflash, overlay_out ha]
  · exact hfail.exact hreg he

/-- Where the loads do not fail and the length is not a whole number of turns, a word behind the
buffer is read. -/
theorem not_exact_of_ok (hr : ¬ J.Refused) (hreg : J.InRegion)
    (hlen : ¬ (0 < J.u32Len.toNat ∧ 8 ∣ J.u32Len.toNat))
    (hok : ∀ k ≤ J.u32Len.toNat / 8, J.Ok k) : ¬ J.Exact := by
  rintro ⟨m, he, hreads, -⟩
  have hstage : Stage J (J.u32Len.toNat / 8 + 1) (J.step^[J.u32Len.toNat / 8 + 1] J.start) :=
    @stage_of_ok _ J.step J.start (Stage J) J.Ok (J.u32Len.toNat / 8 + 1) rfl
      (fun k hk t ht => ht.succ hr hreg hk) _ le_rfl fun i hi => hok i (Nat.le_of_lt_succ hi)
  have hload : Loaded J (J.u32Len.toNat / 8) _ := (stage_loaded_iff le_rfl).mp hstage
  have hpc := hload.pc
  have hlen' := hload.len
  set t := J.step^[J.u32Len.toNat / 8 + 1] J.start with ht
  -- the next command reads a word too many
  obtain ⟨i, hi, hbig⟩ : ∃ i ∈ (J.step t).reads, J.u32Len.toNat < 4 * i + 4 := by
    by_cases hzero : J.u32Len.toNat = 8 * (J.u32Len.toNat / 8)
    · refine ⟨0, ?_, by omega⟩
      simp only [step, hload.pc_program hzero]
      split <;> simp [fail]
    · refine ⟨2 * (J.u32Len.toNat / 8) + 1, ?_, by omega⟩
      simp only [step, hload.pc_load (by omega)]
      split <;> simp [fail, hload.idx]
  have hrun : ¬ Returned t := by
    rintro ⟨ret, hret⟩
    rw [hret, loop] at hpc
    split at hpc <;> cases hpc
  obtain ⟨j, rfl⟩ := EndsIn.later (fun t ht => step_of_returned ht) he hrun
  rw [Function.iterate_succ_apply', ← ht] at hreads
  have hle := hreads i ((iterate_grows j (J.step t)).1 hi)
  omega

/-- An address in no region is not refused: the data buffer is cleared at least. -/
theorem not_exact_of_outside (hr : ¬ J.Refused) (hreg : ¬ J.InRegion) : ¬ J.Exact := by
  rintro ⟨m, he, -, -, -, hout⟩
  have hrun : ¬ Returned J.start := by
    rintro ⟨ret, hret⟩
    rw [start_pc hr] at hret
    cases hret
  obtain ⟨j, rfl⟩ :=
    @EndsIn.later _ J.step Returned J.start (fun t ht => step_of_returned ht) m he 0 hrun
  have hcmds := (@iterate_grows J j (J.step J.start)).2
  have hone : (J.step J.start).cmds = 1 := by
    simp only [step, start_pc hr]
    split <;> rfl
  have := (hout hreg).2
  simp only [Function.iterate_one, Nat.zero_add] at this
  omega

/-- **Which calls write exactly their buffer.** -/
theorem written_iff (J : Job) : J.Exact ↔ J.Fits := by
  by_cases hr : J.Refused
  · -- no command is given
    have hpc : J.start.pc = .done (-2) := if_pos hr
    refine iff_of_true ?_ (.inl hr)
    exact ⟨J.start, ⟨⟨-2, hpc⟩, 0, rfl⟩, fun i hi => absurd hi List.not_mem_nil, fun a _ => rfl,
      .inr ⟨-2, by decide, hpc⟩, fun _ => ⟨hpc, rfl⟩⟩
  · by_cases hreg : J.InRegion
    · by_cases hlen : 0 < J.u32Len.toNat ∧ 8 ∣ J.u32Len.toNat
      · exact iff_of_true (exact_of_dvd hr hreg hlen.1 hlen.2) (.inr ⟨hreg, .inl hlen⟩)
      · by_cases hex : ∃ k ≤ J.u32Len.toNat / 8, ¬ J.Ok k
        · refine iff_of_true ?_ (.inr ⟨hreg, .inr hex⟩)
          obtain ⟨k, hk, hbad⟩ := hex
          obtain ⟨m, he, k', -, -, -, hfail⟩ :=
            @stages_break _ J.step Returned J.start (Stage J) (fun _ m => Failed J m) J.Ok
              (J.u32Len.toNat / 8 + 1) rfl (fun k hk t ht => ht.succ hr hreg hk)
              (fun k hk t ht hbad => ⟨⟨-1, (ht.failed hr hk hbad).pc⟩, ht.failed hr hk hbad⟩)
              ⟨k, Nat.lt_succ_of_le hk, hbad⟩
          exact hfail.exact hreg he
        · push Not at hex
          refine iff_of_false (not_exact_of_ok hr hreg hlen hex) ?_
          rintro (h | ⟨-, h | ⟨k, hk, hbad⟩⟩)
          · exact hr h
          · exact hlen h
          · exact hbad (hex k hk)
    · refine iff_of_false (not_exact_of_outside hr hreg) ?_
      rintro (h | ⟨h, -⟩)
      · exact hr h
      · exact hreg h

/-- A controller that does every command at once. -/
def prompt (u32Addr u32Len : BitVec 32) : Job :=
  { SystemCoreClock := 72000000, u32Addr := u32Addr, pu32Buf := fun _ => 0x12345678
    u32Len := u32Len, flash := fun _ => 0xFFFFFFFF
    replies := fun _ => ⟨0, false, 0, fun _ => 0⟩ }

/-- **One word does not end**, and behind the end of the APROM eight bytes are programmed. -/
theorem one_word_overread : ¬ (prompt 0 4).Exact ∧ ¬ (prompt 0x80000 8).Exact := by
  have hok : ∀ a n k, (prompt a n).Ok k := by
    intro a n k
    exact show Reply.Done (RMC_TIMEOUT_WRITE 72000000) ⟨0, false, 0, fun _ => 0⟩ by decide
  refine ⟨not_exact_of_ok (by decide) (by decide) (by decide) fun k _ => hok 0 4 k,
    not_exact_of_outside (by decide) (by decide)⟩

end Job

end Rmc
