/-
Two callers of the flash driver, interleaved between its mutex sections.

`nu_rmc_write` is one section; `nu_rmc_erase` is a section for each save, one
for the pages, and one for each restore.  `Call.step` runs the next section of a
call, `Call.solo` says that the sections of a call run in a row are the call.

A call is a save–change–restore transaction on the byte view (`Call.txn`), and a
section is a step of it (`Call.step_sim`).  Hence

* `interleaved_serial` — when no section writes a byte that the other caller
  has saved and not yet restored, the final flash is that of the two calls one
  after the other;
* `interleaved_lost_write` — without that condition a completed write between
  the save and the restore of an erase on the same page is reverted.
-/
import NuMaker.Rmc.Erase
import NuMaker.Lib.Transaction

namespace Rmc

open Transaction

/-- A call of the driver, with what its environment answers. -/
inductive Call
  | write (addr size : ℕ) (buf : ℕ → Byte)
  | erase (addr size : ℕ) (env : EraseEnv)

namespace Call

def addr : Call → ℕ
  | .write addr _ _ => addr
  | .erase addr _ _ => addr

def size : Call → ℕ
  | .write _ size _ => size
  | .erase _ size _ => size

/-- The call on its own. -/
def run : Call → State → ℕ × State
  | .write addr size buf, s => nu_rmc_write s addr buf size
  | .erase addr size env, s => nu_rmc_erase env s addr size

end Call

/-- Where a caller stands between two sections, with its save buffers. -/
inductive Pc
  | start
  | saved1 (page_sdtemp : List Byte)
  | saved2 (page_sdtemp page_edtemp : List Byte)
  | erased (page_sdtemp page_edtemp : List Byte) (erased_size : ℕ)
  | restored1 (page_edtemp : List Byte) (erased_size : ℕ)
  | done (ret : ℕ)

namespace Call

/-- The next section of a call. -/
def step : Call → Pc → State → Pc × State
  | .write addr size buf, .start, s =>
    let r := nu_rmc_write s addr buf size
    (.done r.1, r.2)
  | .erase addr _ env, .start, s =>
    match savePart env.malloc_sd s (addr - headLen addr) (headLen addr) with
    | none => (.done 0, s)
    | some page_sdtemp => (.saved1 page_sdtemp, s)
  | .erase addr size env, .saved1 page_sdtemp, s =>
    match savePart env.malloc_ed s (addrEnd addr size) (tailLen (addrEnd addr size)) with
    | none => (.done 0, s)
    | some page_edtemp => (.saved2 page_sdtemp page_edtemp, s)
  | .erase addr size env, .saved2 page_sdtemp page_edtemp, s =>
    let r := nu_rmc_erase_pages env.isp s addr size
    if r.1 ≥ size then (.erased page_sdtemp page_edtemp r.1, r.2) else (.done 0, r.2)
  | .erase addr _ _, .erased page_sdtemp page_edtemp erased_size, s =>
    match restorePart s (addr - headLen addr) page_sdtemp (headLen addr) erased_size with
    | (false, erased_size, s) => (.done erased_size, s)
    | (true, erased_size, s) => (.restored1 page_edtemp erased_size, s)
  | .erase addr size _, .restored1 page_edtemp erased_size, s =>
    let r := restorePart s (addrEnd addr size) page_edtemp (tailLen (addrEnd addr size)) erased_size
    (.done r.2.1, r.2.2)
  | _, pc, s => (pc, s)

/-- The sections of a call in a row are the call. -/
theorem solo (c : Call) (s : State) :
    (fun q => c.step q.1 q.2)^[5] (.start, s) = (.done (c.run s).1, (c.run s).2) := by
  cases c with
  | write addr size buf => rfl
  | erase addr size env =>
    simp only [Function.iterate_succ, Function.iterate_zero, Function.comp, id, run, nu_rmc_erase]
    rw [step]
    cases hs : savePart env.malloc_sd s (addr - headLen addr) (headLen addr) with
    | none => rfl
    | some sd =>
      simp only
      rw [step]
      cases he : savePart env.malloc_ed s (addrEnd addr size) (tailLen (addrEnd addr size)) with
      | none => rfl
      | some ed =>
        simp only
        rw [step]
        generalize nu_rmc_erase_pages env.isp s addr size = rp
        obtain ⟨es, s1⟩ := rp
        by_cases hsz : es ≥ size
        · simp only [if_pos hsz]
          rw [step]
          generalize restorePart s1 (addr - headLen addr) sd (headLen addr) es = r1
          obtain ⟨b, es', s2⟩ := r1
          cases b <;> rfl
        · simp only [if_neg hsz]
          rfl

/-- The bytes the next section writes. -/
def writes : Call → Pc → Set ℕ
  | .write addr size _, .start => Set.Ico addr (addr + size)
  | .erase addr size _, .saved2 _ _ =>
    Set.Ico (firstPage addr) (addr + size + tailLen (addr + size))
  | .erase addr _ _, .erased _ _ _ => Set.Ico (firstPage addr) addr
  | .erase addr size _, .restored1 _ _ =>
    Set.Ico (addr + size) (addr + size + tailLen (addr + size))
  | _, _ => ∅

/-- The bytes saved and not yet restored. -/
def holds : Call → Pc → Set ℕ
  | .erase addr _ _, .saved1 _ => Set.Ico (firstPage addr) addr
  | .erase addr size _, .saved2 _ _ =>
    Set.Ico (firstPage addr) addr ∪ Set.Ico (addr + size) (addr + size + tailLen (addr + size))
  | .erase addr size _, .erased _ _ _ =>
    Set.Ico (firstPage addr) addr ∪ Set.Ico (addr + size) (addr + size + tailLen (addr + size))
  | .erase addr size _, .restored1 _ _ =>
    Set.Ico (addr + size) (addr + size + tailLen (addr + size))
  | _, _ => ∅

end Call

/-! ### The page section byte by byte -/

/-- How far the page loop comes does not depend on the flash. -/
theorem EraseLoopDone.unique {isp : Isp} {addr size k k' : ℕ} {failed failed' : Bool} {s s' : State}
    {r r' : ℕ × State} (h : EraseLoopDone isp (addr + size) (firstPage addr) s 0 k failed r)
    (h' : EraseLoopDone isp (addr + size) (firstPage addr) s' 0 k' failed' r') :
    k = k' ∧ failed = failed' := by
  have key : ∀ {k k' : ℕ} {failed failed' : Bool} {s s' : State} {r r' : ℕ × State},
      EraseLoopDone isp (addr + size) (firstPage addr) s 0 k failed r →
      EraseLoopDone isp (addr + size) (firstPage addr) s' 0 k' failed' r' → k' ≤ k := by
    intro k k' failed failed' s s' r r' h h'
    by_contra hlt
    have hk := h'.ok k (by omega)
    have hl := h.last
    cases failed with
    | true => exact hl.2 hk.2
    | false => exact absurd hk.1 (Nat.not_lt_of_le hl)
  obtain rfl : k = k' := le_antisymm (key h' h) (key h h')
  refine ⟨rfl, ?_⟩
  have hl := h.last
  have hl' := h'.last
  cases failed <;> cases failed'
  · rfl
  · exact absurd hl'.1 (Nat.not_lt_of_le hl)
  · exact absurd hl.1 (Nat.not_lt_of_le hl')
  · rfl

/-- The page section returns the same size on every flash, and leaves at a byte
what depends on that byte only. -/
theorem nu_rmc_erase_pages_congr (isp : Isp) (s s' : State) {r : Region} {addr size : ℕ}
    (h : r.Has addr size) :
    (nu_rmc_erase_pages isp s addr size).1 = (nu_rmc_erase_pages isp s' addr size).1 ∧
      ∀ x, bytes s.flash x = bytes s'.flash x →
        bytes (nu_rmc_erase_pages isp s addr size).2.flash x =
          bytes (nu_rmc_erase_pages isp s' addr size).2.flash x := by
  obtain ⟨k, failed, hp⟩ := nu_rmc_erase_pages_done isp s h
  obtain ⟨k', failed', hp'⟩ := nu_rmc_erase_pages_done isp s' h
  obtain ⟨rfl, rfl⟩ := hp.unique hp'
  refine ⟨hp.ret.trans hp'.ret.symm, fun x hx => ?_⟩
  rw [hp.view, hp'.view]
  by_cases hin : firstPage addr ≤ x ∧ x < firstPage addr + k * 4096
  · rw [overlay_in hin, overlay_in hin]
  · rw [overlay_out hin, overlay_out hin]
    cases failed with
    | false => exact hx
    | true =>
      refine RMC_Erase_loop_congr isp ?_ hx
      have := firstPage_aligned addr k
      omega

/-- A page that starts inside the range ends by the end of the last page. -/
theorem page_le_tail {p stop : ℕ} (hp : p % 4096 = 0) (h : p < stop) :
    p + 4096 ≤ stop + tailLen stop := by
  rw [tailLen, RMC_FLASH_PAGE_SIZE]
  split <;> omega

/-- The page section writes whole pages of the range only. -/
theorem nu_rmc_erase_pages_frame (isp : Isp) (s : State) {r : Region} {addr size x : ℕ}
    (h : r.Has addr size)
    (hx : x ∉ Set.Ico (firstPage addr) (addr + size + tailLen (addr + size))) :
    bytes (nu_rmc_erase_pages isp s addr size).2.flash x = bytes s.flash x := by
  obtain ⟨k, failed, hp⟩ := nu_rmc_erase_pages_done isp s h
  rw [Set.mem_Ico] at hx
  have hf := firstPage_le addr
  have hend : firstPage addr + k * 4096 ≤ addr + size + tailLen (addr + size) := by
    rcases k with _ | k
    · rw [Nat.zero_mul, Nat.add_zero, Nat.add_assoc]
      exact le_trans hf (Nat.le_add_right _ _)
    · have := page_le_tail (firstPage_aligned addr k) (hp.ok k (Nat.lt_succ_self k)).1
      rwa [Nat.add_mul, Nat.one_mul, ← Nat.add_assoc]
  rw [hp.view, overlay_out (fun hc => hx ⟨hc.1, lt_of_lt_of_le hc.2 hend⟩)]
  cases failed with
  | false => rfl
  | true =>
    have hl := hp.last
    have hlast := page_le_tail (firstPage_aligned addr k) hl.1
    refine RMC_Erase_loop_frame isp ?_ ?_
    · have := firstPage_aligned addr k
      omega
    · by_contra hc
      rw [not_or, not_lt, not_le] at hc
      exact hx ⟨le_trans (Nat.le_add_right _ _) hc.1, lt_of_lt_of_le hc.2 hlast⟩

/-! ### A call as a transaction -/

namespace Call

/-- The save–change–restore transaction that a call is on the byte view. -/
def txn : Call → Txn ℕ Byte
  | .write addr size buf =>
    { first := ∅
      second := ∅
      support := Set.Ico addr (addr + size)
      change := fun x b => if addr ≤ x ∧ x < addr + size then buf (x - addr) else b
      restores := False
      aborts := False
      first_sub := Set.empty_subset _
      second_sub := Set.empty_subset _
      change_frame := fun _ hx _ => if_neg hx }
  | .erase addr size env =>
    { first := Set.Ico (firstPage addr) addr
      second := Set.Ico (addr + size) (addr + size + tailLen (addr + size))
      support := Set.Ico (firstPage addr) (addr + size + tailLen (addr + size))
      change := fun x b =>
        if firstPage addr ≤ x ∧ x < addr + size + tailLen (addr + size) then
          bytes (nu_rmc_erase_pages env.isp (flat b) addr size).2.flash x
        else b
      restores := size ≤ (nu_rmc_erase_pages env.isp (flat 0) addr size).1
      aborts := NoBuffer env addr size
      first_sub := Set.Ico_subset_Ico_right (by omega)
      second_sub := Set.Ico_subset_Ico_left (le_trans (firstPage_le addr) (Nat.le_add_right _ _))
      change_frame := fun _ hx _ => if_neg hx }

/-- The save buffers as a function of the address. -/
def buffer (addr size : ℕ) (page_sdtemp page_edtemp : List Byte) (x : ℕ) : Byte :=
  if x < addr then page_sdtemp.getD (x - firstPage addr) 0
  else page_edtemp.getD (x - (addr + size)) 0

theorem buffer_lt {addr size x : ℕ} (sd ed : List Byte) (h : x < addr) :
    buffer addr size sd ed x = sd.getD (x - firstPage addr) 0 := if_pos h

theorem buffer_ge {addr size x : ℕ} (sd ed : List Byte) (h : addr + size ≤ x) :
    buffer addr size sd ed x = ed.getD (x - (addr + size)) 0 := if_neg (by omega)

/-- The phase of the transaction at a place of the call. -/
def phase (c : Call) : Pc → Phase ℕ Byte
  | .start => .idle
  | .saved1 page_sdtemp => .saved1 (buffer c.addr c.size page_sdtemp [])
  | .saved2 page_sdtemp page_edtemp => .saved2 (buffer c.addr c.size page_sdtemp page_edtemp)
  | .erased page_sdtemp page_edtemp _ => .changed (buffer c.addr c.size page_sdtemp page_edtemp)
  | .restored1 page_edtemp _ => .restored1 (buffer c.addr c.size [] page_edtemp)
  | .done _ => .done

/-- The places a call can be at: a write has no sections of its own to be in, and
past a save its buffer was obtained. -/
def Valid : Call → Pc → Prop
  | _, .start => True
  | _, .done _ => True
  | .write .., _ => False
  | .erase addr _ env, .saved1 _ => ¬ (headLen addr ≠ 0 ∧ env.malloc_sd = false)
  | .erase addr size env, .saved2 _ _ => ¬ NoBuffer env addr size
  | .erase .., .erased _ _ _ => True
  | .erase .., .restored1 _ _ => True

theorem held_phase (c : Call) (pc : Pc) : c.txn.held (c.phase pc) = c.holds pc := by
  cases c <;> cases pc <;> simp [txn, phase, Txn.held, holds]

end Call

/-- The page section on the byte view is the change of the transaction. -/
theorem nu_rmc_erase_pages_change (env : EraseEnv) (s : State) {r : Region} {addr size : ℕ}
    (h : r.Has addr size) :
    bytes (nu_rmc_erase_pages env.isp s addr size).2.flash =
      fun x => (Call.erase addr size env).txn.change x (bytes s.flash x) := by
  funext x
  simp only [Call.txn]
  by_cases hx : firstPage addr ≤ x ∧ x < addr + size + tailLen (addr + size)
  · rw [if_pos hx]
    exact (nu_rmc_erase_pages_congr env.isp s _ h).2 x (bytes_flat _ x).symm
  · rw [if_neg hx]
    exact nu_rmc_erase_pages_frame env.isp s h hx

/-- The bytes `[addr, addr + len)` of a save buffer. -/
theorem savePart_getD {malloc : Bool} {s : State} {addr len : ℕ} {buf : List Byte}
    (h : addr + len < 2 ^ 32) (hs : savePart malloc s addr len = some buf) {x : ℕ}
    (h1 : addr ≤ x) (h2 : x < addr + len) : buf.getD (x - addr) 0 = bytes s.flash x := by
  rw [savePart_eq _ _ h] at hs
  split at hs
  · exact absurd hs (by simp)
  · obtain rfl := Option.some.inj hs
    rw [getD_saved _ (by omega)]
    congr 1
    omega

/-- The save areas of a range lie below the end of the 32-bit addresses. -/
theorem Region.Has.save_lt {r : Region} {addr size : ℕ} (h : r.Has addr size) :
    firstPage addr + headLen addr < 2 ^ 32 ∧ addr + size + tailLen (addr + size) < 2 ^ 32 := by
  have hr : r.stop ≤ 0x0F102000 := by cases r <;> decide
  have h2 := h.lt_stop
  have h3 := h.le_stop
  have htl : tailLen (addr + size) ≤ 4096 := by
    rw [tailLen, RMC_FLASH_PAGE_SIZE]
    split <;> omega
  rw [firstPage_add_headLen]
  omega

namespace Call

theorem writes_sub (c : Call) (pc : Pc) : c.writes pc ⊆ c.txn.support := by
  cases c with
  | write addr size buf => cases pc <;> first | exact Set.Subset.rfl | exact Set.empty_subset _
  | erase addr size env =>
    have h1 := (Call.erase addr size env).txn.first_sub
    have h2 := (Call.erase addr size env).txn.second_sub
    cases pc <;> first | exact Set.Subset.rfl | exact Set.empty_subset _ | exact h1 | exact h2

/-- **A section is a step of the transaction.** -/
theorem step_sim (c : Call) {r : Region} (h : r.Has c.addr c.size) {pc : Pc} (hv : c.Valid pc)
    (hd : ∀ ret, pc ≠ .done ret) (s : State) :
    c.txn.Step (c.phase pc) (bytes s.flash) (c.writes pc) (c.phase (c.step pc s).1)
        (bytes (c.step pc s).2.flash) ∧
      c.Valid (c.step pc s).1 := by
  cases c with
  | write addr size buf =>
    cases pc with
    | start =>
      have hw := (nu_rmc_write_done s buf h).view
      refine ⟨?_, trivial⟩
      have hm : bytes (nu_rmc_write s addr buf size).2.flash =
          fun x => (Call.write addr size buf).txn.change x (bytes s.flash x) := hw
      simp only [step, phase, hm]
      exact .atomic id id
    | done ret => exact absurd rfl (hd ret)
    | _ => exact absurd hv id
  | erase addr size env =>
    simp only [Call.addr, Call.size] at h
    obtain ⟨hlt1, hlt2⟩ := h.save_lt
    have hf := firstPage_le addr
    have hhead := firstPage_add_headLen addr
    cases pc with
    | start =>
      simp only [step, sub_headLen]
      cases hs : savePart env.malloc_sd s (firstPage addr) (headLen addr) with
      | none =>
        rw [savePart_eq _ _ hlt1] at hs
        split at hs
        · rename_i hn
          exact ⟨.abort0 (Or.inl hn), trivial⟩
        · exact absurd hs (by simp)
      | some sd =>
        refine ⟨.save1 fun x hx => ?_, ?_⟩
        · exact (buffer_lt sd [] hx.2).trans
            (savePart_getD hlt1 hs hx.1 (lt_of_lt_of_eq hx.2 hhead.symm))
        · intro hn
          rw [savePart_eq _ _ hlt1, if_pos hn] at hs
          exact absurd hs (by simp)
    | saved1 sd =>
      simp only [step, h.addrEnd]
      cases hs : savePart env.malloc_ed s (addr + size) (tailLen (addr + size)) with
      | none =>
        rw [savePart_eq _ _ hlt2] at hs
        split at hs
        · rename_i hn
          exact ⟨.abort1 (Or.inr hn), trivial⟩
        · exact absurd hs (by simp)
      | some ed =>
        refine ⟨.save2 (fun x hx => ?_) fun x hx => ?_, ?_⟩
        · exact (buffer_lt sd ed hx.2).trans (buffer_lt sd [] hx.2).symm
        · exact (buffer_ge sd ed hx.1).trans (savePart_getD hlt2 hs hx.1 hx.2)
        · rintro (hn | hn)
          · exact hv hn
          · rw [savePart_eq _ _ hlt2, if_pos hn] at hs
            exact absurd hs (by simp)
    | saved2 sd ed =>
      have hc := nu_rmc_erase_pages_change env s h
      have hret := (nu_rmc_erase_pages_congr env.isp s (flat 0) h).1
      simp only [step]
      by_cases hsz : (nu_rmc_erase_pages env.isp s addr size).1 ≥ size
      · rw [if_pos hsz]
        refine ⟨?_, trivial⟩
        rw [hc]
        exact .change hv (le_of_le_of_eq hsz hret)
      · rw [if_neg hsz]
        refine ⟨?_, trivial⟩
        rw [hc]
        exact .finish hv fun hle => hsz (le_of_le_of_eq hle hret.symm)
    | erased sd ed es =>
      obtain ⟨s', l, he, hb, -⟩ := restorePart_done s sd es h.head
      simp only [step, sub_headLen, he]
      refine ⟨.restore1 (fun x hx => ?_) (fun x hx => ?_) fun x hx => ?_, trivial⟩
      · rw [hb, overlay_in ⟨hx.1, lt_of_lt_of_eq hx.2 hhead.symm⟩]
        exact (buffer_lt sd ed hx.2).symm
      · rw [hb, overlay_out fun hx' => hx ⟨hx'.1, lt_of_lt_of_eq hx'.2 hhead⟩]
      · exact (buffer_ge [] ed hx.1).trans (buffer_ge sd ed hx.1).symm
    | restored1 ed es =>
      obtain ⟨s', l, he, hb, -⟩ := restorePart_done s ed es h.tail
      simp only [step, h.addrEnd, he]
      refine ⟨.restore2 (fun x hx => ?_) fun x hx => ?_, trivial⟩
      · rw [hb, overlay_in ⟨hx.1, hx.2⟩]
        exact (buffer_ge [] ed hx.1).symm
      · rw [hb, overlay_out hx]
    | done ret => exact absurd rfl (hd ret)

end Call

/-! ### Interleaved runs -/

/-- The controller and where each caller stands. -/
structure Sys (κ : Type) where
  state : State
  pc : κ → Pc

variable {κ : Type} [DecidableEq κ]

/-- Caller `i` runs its next section. -/
def Sys.step (calls : κ → Call) (σ : Sys κ) (i : κ) : Sys κ :=
  let q := (calls i).step (σ.pc i) σ.state
  ⟨q.2, Function.update σ.pc i q.1⟩

/-- The sections of the callers in the order of the schedule. -/
def Sys.run (calls : κ → Call) (σ : Sys κ) (schedule : List κ) : Sys κ :=
  schedule.foldl (Sys.step calls) σ

/-- No caller has started. -/
def Sys.boot (s : State) : Sys κ := ⟨s, fun _ => .start⟩

/-- The next section of `i` writes no byte that another caller has saved and not
yet restored. -/
def Sys.Clean (calls : κ → Call) (σ : Sys κ) (i : κ) : Prop :=
  ∀ j, j ≠ i → Disjoint ((calls i).writes (σ.pc i)) ((calls j).holds (σ.pc j))

/-- Every section of the schedule is clean where it runs. -/
def Sys.CleanRun (calls : κ → Call) : Sys κ → List κ → Prop
  | _, [] => True
  | σ, i :: schedule => σ.Clean calls i ∧ Sys.CleanRun calls (σ.step calls i) schedule

/-- A caller that is done stays as it is. -/
theorem Sys.step_done (calls : κ → Call) {σ : Sys κ} {i : κ} {ret : ℕ} (h : σ.pc i = .done ret) :
    σ.step calls i = σ := by
  have hq : (calls i).step (.done ret) σ.state = (.done ret, σ.state) := by
    cases calls i <;> rfl
  rw [Sys.step, h, hq, ← h, Function.update_eq_self]

/-- Callers whose ranges share no page are never in each other's way. -/
theorem Sys.cleanRun_of_disjoint (calls : κ → Call)
    (h : ∀ i j, i ≠ j → Disjoint (calls i).txn.support (calls j).txn.support) :
    ∀ (schedule : List κ) (σ : Sys κ), σ.CleanRun calls schedule := by
  intro schedule
  induction schedule with
  | nil => exact fun _ => trivial
  | cons i schedule ih =>
    refine fun σ => ⟨fun j hj => ?_, ih _⟩
    refine (h i j (Ne.symm hj)).mono ((calls i).writes_sub _) ?_
    rw [← Call.held_phase]
    exact Txn.held_sub_support _

theorem Sys.step_valid (calls : κ → Call)
    (hr : ∀ i, ∃ r : Region, r.Has (calls i).addr (calls i).size) {σ : Sys κ}
    (hv : ∀ i, (calls i).Valid (σ.pc i)) (i : κ) :
    ∀ j, (calls j).Valid ((σ.step calls i).pc j) := by
  by_cases hd : ∃ ret, σ.pc i = .done ret
  · obtain ⟨ret, hd⟩ := hd
    rwa [Sys.step_done calls hd]
  · obtain ⟨r, hri⟩ := hr i
    have hv' := ((calls i).step_sim hri (hv i) (fun ret hp => hd ⟨ret, hp⟩) σ.state).2
    intro j
    by_cases hj : j = i
    · subst hj
      simpa [Sys.step] using hv'
    · simpa [Sys.step, Function.update_of_ne hj] using hv j

/-- The sections a caller has still to run, at most. -/
def Pc.left : Pc → ℕ
  | .start => 5
  | .saved1 _ => 4
  | .saved2 _ _ => 3
  | .erased _ _ _ => 2
  | .restored1 _ _ => 1
  | .done _ => 0

theorem Call.step_left (c : Call) {pc : Pc} (hv : c.Valid pc) (s : State) :
    (c.step pc s).1.left ≤ pc.left - 1 := by
  cases c with
  | write addr size buf =>
    cases pc with
    | start => exact Nat.zero_le _
    | done ret => exact Nat.zero_le _
    | _ => exact absurd hv id
  | erase addr size env =>
    cases pc with
    | restored1 ed es => exact Nat.zero_le _
    | done ret => exact Nat.zero_le _
    | _ =>
      simp only [Call.step]
      split <;> simp [Pc.left]

/-- **Every schedule that gives a caller five sections ends its call.** -/
theorem Sys.run_done (calls : κ → Call)
    (hr : ∀ i, ∃ r : Region, r.Has (calls i).addr (calls i).size) (i : κ) :
    ∀ (schedule : List κ) (σ : Sys κ), (∀ i, (calls i).Valid (σ.pc i)) →
    (σ.pc i).left ≤ schedule.count i → ∃ ret, (σ.run calls schedule).pc i = .done ret := by
  intro schedule
  induction schedule with
  | nil =>
    intro σ _ h
    cases hp : σ.pc i with
    | done ret => exact ⟨ret, hp⟩
    | _ => simp [hp, Pc.left] at h
  | cons j schedule ih =>
    intro σ hv h
    refine ih (σ.step calls j) (Sys.step_valid calls hr hv j) ?_
    by_cases hj : j = i
    · subst hj
      have hl := (calls j).step_left (hv j) σ.state
      rw [List.count_cons_self] at h
      simp only [Sys.step, Function.update_self]
      omega
    · rw [List.count_cons_of_ne hj] at h
      simpa [Sys.step, Function.update_of_ne (Ne.symm hj)] using h

/-- A clean schedule is a clean run of the transactions. -/
theorem Sys.run_sim (calls : κ → Call) (hr : ∀ i, ∃ r : Region, r.Has (calls i).addr (calls i).size)
    {ph₀ : κ → Phase ℕ Byte} {m₀ : ℕ → Byte} : ∀ (schedule : List κ) (σ : Sys κ),
    (∀ i, (calls i).Valid (σ.pc i)) → σ.CleanRun calls schedule →
    Transaction.CleanRun (fun i => (calls i).txn) ph₀ m₀ (fun i => (calls i).phase (σ.pc i))
      (bytes σ.state.flash) →
    Transaction.CleanRun (fun i => (calls i).txn) ph₀ m₀
      (fun i => (calls i).phase ((σ.run calls schedule).pc i))
      (bytes (σ.run calls schedule).state.flash) := by
  intro schedule
  induction schedule with
  | nil => exact fun σ _ _ h => h
  | cons i schedule ih =>
    intro σ hv hc h
    by_cases hd : ∃ ret, σ.pc i = .done ret
    · obtain ⟨ret, hd⟩ := hd
      have hstep := Sys.step_done calls hd
      refine ih _ ?_ hc.2 ?_
      · rwa [hstep]
      · rwa [hstep]
    · obtain ⟨r, hri⟩ := hr i
      have hs := ((calls i).step_sim hri (hv i) (fun ret hp => hd ⟨ret, hp⟩) σ.state).1
      refine ih _ (Sys.step_valid calls hr hv i) hc.2 ?_
      · have hphase : (fun j => (calls j).phase ((σ.step calls i).pc j)) =
            Function.update (fun j => (calls j).phase (σ.pc j)) i
              ((calls i).phase ((calls i).step (σ.pc i) σ.state).1) := by
          funext j
          by_cases hj : j = i
          · subst hj
            simp [Sys.step]
          · simp [Sys.step, Function.update_of_ne hj]
        rw [hphase]
        refine h.step hs fun j hj => ?_
        rw [Call.held_phase]
        exact hc.1 j hj

/-- The effect of the transaction is that of the call on its own. -/
theorem Call.run_eff (c : Call) {r : Region} (h : r.Has c.addr c.size) (s : State) :
    bytes (c.run s).2.flash = c.txn.eff (bytes s.flash) := by
  have hsolo := c.solo s
  have hrun : ∀ n (σ : Sys Unit), (σ.run (fun _ => c) (List.replicate n ())).state =
      ((fun q => c.step q.1 q.2)^[n] (σ.pc (), σ.state)).2 ∧
      (σ.run (fun _ => c) (List.replicate n ())).pc () =
        ((fun q => c.step q.1 q.2)^[n] (σ.pc (), σ.state)).1 := by
    intro n
    induction n with
    | zero => exact fun σ => ⟨rfl, rfl⟩
    | succ n ih =>
      intro σ
      obtain ⟨h1, h2⟩ := ih (σ.step (fun _ => c) ())
      rw [List.replicate_succ, Sys.run, List.foldl_cons, ← Sys.run, h1, h2,
        Function.iterate_succ_apply]
      simp [Sys.step]
  obtain ⟨h1, h2⟩ := hrun 5 (Sys.boot s)
  simp only [Sys.boot, hsolo] at h1 h2
  have hclean : ∀ n (σ : Sys Unit), σ.CleanRun (fun _ => c) (List.replicate n ()) := by
    intro n
    induction n with
    | zero => exact fun _ => trivial
    | succ n ih => exact fun σ => ⟨fun j hj => absurd rfl hj, ih _⟩
  have hsim := Sys.run_sim (fun _ : Unit => c) (fun _ => ⟨r, h⟩) (List.replicate 5 ())
    (Sys.boot s) (fun _ => trivial) (hclean 5 _) .refl
  obtain ⟨order, hn, hall, hm⟩ := hsim.serial fun _ => by
    rw [Sys.boot, h2]
    rfl
  obtain rfl : order = [()] := by
    rcases order with _ | ⟨a, _ | ⟨b, l⟩⟩
    · exact absurd (hall ()) (by simp)
    · rfl
    · simp at hn
  rw [Sys.boot, h1] at hm
  exact hm

/-- A word is made of its bytes. -/
theorem word_byteOf (w : BitVec 32) : word (byteOf w) = w := by
  ext i hi
  rw [← BitVec.getLsbD_eq_getElem, ← BitVec.getLsbD_eq_getElem, word]
  simp only [byteOf, BitVec.getLsbD_append, BitVec.getLsbD_extractLsb']
  grind

/-- The byte view determines the words. -/
theorem bytes_injective : Function.Injective bytes := by
  intro f g h
  funext w
  have hb : ∀ k < 4, byteOf (f w) k = byteOf (g w) k := by
    intro k hk
    have := congrFun h (4 * w + k)
    rwa [bytes, bytes, show (4 * w + k) / 4 = w by omega, show (4 * w + k) % 4 = k by omega] at this
  rw [← word_byteOf (f w), ← word_byteOf (g w), word, word, hb 0 (by omega), hb 1 (by omega),
    hb 2 (by omega), hb 3 (by omega)]

/-- **Clean interleavings are serial.**  When no section of a run writes a byte
that the other caller has saved and not yet restored, and both callers end, the
flash is that of the two calls one after the other. -/
theorem interleaved_serial (calls : Bool → Call) (s : State) (schedule : List Bool)
    (hr : ∀ i, ∃ r : Region, r.Has (calls i).addr (calls i).size)
    (hc : (Sys.boot s).CleanRun calls schedule)
    (hd : ∀ i, ∃ ret, ((Sys.boot s).run calls schedule).pc i = .done ret) :
    ((Sys.boot s).run calls schedule).state.flash =
        ((calls true).run ((calls false).run s).2).2.flash ∨
      ((Sys.boot s).run calls schedule).state.flash =
        ((calls false).run ((calls true).run s).2).2.flash := by
  have hsim := Sys.run_sim calls hr schedule (Sys.boot s) (fun _ => trivial) hc .refl
  have hdone : ∀ i, (calls i).phase (((Sys.boot s).run calls schedule).pc i) = .done := by
    intro i
    obtain ⟨ret, hi⟩ := hd i
    rw [hi]
    rfl
  have heff : ∀ i (s : State), (calls i).txn.eff (bytes s.flash) = bytes ((calls i).run s).2.flash := by
    intro i s
    obtain ⟨r, hri⟩ := hr i
    exact ((calls i).run_eff hri s).symm
  rcases hsim.serial_two hdone with h | h
  · refine Or.inl (bytes_injective ?_)
    rw [h, Sys.boot, heff, heff]
  · refine Or.inr (bytes_injective ?_)
    rw [h, Sys.boot, heff, heff]

/-- Two calls on different pages. -/
def twoPageCalls : Bool → Call
  | false => .erase 0x100 0xF00 ⟨true, true, fun _ => none⟩
  | true => .write 0x2000 1 fun _ => 0xAB#8

/-- Each section of the first caller follows one of the second. -/
def takeTurns : List Bool := [true, false, true, false, true, false, true, false, true, false]

theorem interleaved_serial_two_pages :
    ((Sys.boot (flat 0)).run twoPageCalls takeTurns).state.flash =
        ((twoPageCalls true).run ((twoPageCalls false).run (flat 0)).2).2.flash ∨
      ((Sys.boot (flat 0)).run twoPageCalls takeTurns).state.flash =
        ((twoPageCalls false).run ((twoPageCalls true).run (flat 0)).2).2.flash := by
  have hr : ∀ i, ∃ r : Region, r.Has (twoPageCalls i).addr (twoPageCalls i).size := by
    intro i
    cases i <;> exact ⟨.aprom, by decide, by decide, by decide⟩
  refine interleaved_serial twoPageCalls (flat 0) takeTurns hr
    (Sys.cleanRun_of_disjoint twoPageCalls ?_ _ _)
    fun i => Sys.run_done twoPageCalls hr i _ _ (fun _ => trivial) ?_
  · intro i j hij
    have htail : tailLen (0x100 + 0xF00) = 0 := by decide
    rw [Set.disjoint_left]
    intro x h1 h2
    cases i <;> cases j
    · exact hij rfl
    · exact absurd (lt_of_le_of_lt h2.1 h1.2) (by simp [htail])
    · exact absurd (lt_of_le_of_lt h1.1 h2.2) (by simp [htail])
    · exact hij rfl
  · have hcount : ∀ i : Bool, 5 ≤ takeTurns.count i := by decide
    exact hcount i

/-! ### A lost write -/

/-- Every allocation and every page erase succeeds. -/
def allOk : EraseEnv := ⟨true, true, fun _ => none⟩

/-- One caller erases `[0x100, 0x1000)`, the other writes the byte 0. -/
def lostWriteCalls : Bool → Call
  | false => .erase 0x100 0xF00 allOk
  | true => .write 0 1 fun _ => 0xAB#8

theorem lostWrite_erase_has : Region.aprom.Has 0x100 0xF00 := ⟨by decide, by decide, by decide⟩

theorem lostWrite_write_has : Region.aprom.Has 0 1 := ⟨by decide, by decide, by decide⟩

/-- The two calls in a row, in either order, leave the written byte. -/
theorem lostWrite_in_a_row (s : State) (i : Bool) :
    bytes ((lostWriteCalls i).run ((lostWriteCalls !i).run s).2).2.flash 0 = 0xAB#8 := by
  have hwrite : ∀ s : State, bytes (nu_rmc_write s 0 (fun _ => 0xAB#8) 1).2.flash 0 = 0xAB#8 := by
    intro s
    rw [(nu_rmc_write_done s _ lostWrite_write_has).view, overlay_in (by decide)]
  cases i
  · have herase := (nu_rmc_erase_view allOk (nu_rmc_write s 0 (fun _ => 0xAB#8) 1).2
      lostWrite_erase_has ⟨rfl, rfl, fun _ _ _ _ _ _ => rfl⟩).1
    show bytes (nu_rmc_erase allOk (nu_rmc_write s 0 (fun _ => 0xAB#8) 1).2 0x100 0xF00).2.flash 0 = _
    rw [herase, overlay_out (by decide), hwrite]
  · exact hwrite _

/-- Save, save, erase, then the other caller's write, then restore, restore. -/
def lostWriteSchedule : List Bool := [false, false, false, true, false, false]

/-- Restoring the head reverts the write that came after its save. -/
theorem lostWrite_run (s : State) :
    bytes ((Sys.boot s).run lostWriteCalls lostWriteSchedule).state.flash 0 = bytes s.flash 0 ∧
      ∀ i, ∃ ret, ((Sys.boot s).run lostWriteCalls lostWriteSchedule).pc i = .done ret := by
  have hend : addrEnd 0x100 0xF00 = 0x1000 := by decide
  have htail : tailLen 0x1000 = 0 := by decide
  have hhead : headLen 0x100 = 0x100 := by decide
  obtain ⟨sd, hsd⟩ : ∃ sd, sd = (List.range' 0 0x100).map (bytes s.flash) := ⟨_, rfl⟩
  obtain ⟨es, hes⟩ : ∃ es, es = (nu_rmc_erase_pages allOk.isp s 0x100 0xF00).1 := ⟨_, rfl⟩
  have hsz : es ≥ 0xF00 := by
    obtain ⟨k, failed, hp⟩ := nu_rmc_erase_pages_done allOk.isp s lostWrite_erase_has
    obtain ⟨-, hge, -⟩ := EraseLoopDone.complete (show NoFailure allOk _ _ from ⟨rfl, rfl, fun _ _ _ _ _ _ => rfl⟩) hp
    have hret := hp.ret
    have hf : firstPage 0x100 = 0 := by decide
    omega
  have h1 : (lostWriteCalls false).step .start s = (.saved1 sd, s) := by
    simp only [lostWriteCalls, Call.step, hhead, Nat.sub_self, hsd]
    rw [savePart_eq _ _ (by decide), if_neg (by decide)]
  have h2 : (lostWriteCalls false).step (.saved1 sd) s = (.saved2 sd [], s) := by
    simp only [lostWriteCalls, Call.step, hend, htail]
    rfl
  have h3 : (lostWriteCalls false).step (.saved2 sd []) s =
      (.erased sd [] es, (nu_rmc_erase_pages allOk.isp s 0x100 0xF00).2) := by
    simp only [lostWriteCalls, Call.step, ← hes]
    exact if_pos hsz
  obtain ⟨s2, hs2⟩ : ∃ s2, s2 = (nu_rmc_write (nu_rmc_erase_pages allOk.isp s 0x100 0xF00).2 0
    (fun _ => 0xAB#8) 1).2 := ⟨_, rfl⟩
  have h4 : ∃ ret, (lostWriteCalls true).step .start
      (nu_rmc_erase_pages allOk.isp s 0x100 0xF00).2 = (.done ret, s2) := ⟨_, by rw [hs2]; rfl⟩
  obtain ⟨ret, h4⟩ := h4
  obtain ⟨s3, l, hr, hb, -⟩ := restorePart_done s2 sd es
    (show 0x100 ≠ 0 → Region.aprom.Has 0 0x100 from fun _ => ⟨by decide, by decide, by decide⟩)
  have h5 : (lostWriteCalls false).step (.erased sd [] es) s2 = (.restored1 [] (es + 0x100), s3) := by
    simp only [lostWriteCalls, Call.step, hhead, Nat.sub_self, hr]
  have h6 : (lostWriteCalls false).step (.restored1 [] (es + 0x100)) s3 =
      (.done (es + 0x100), s3) := by
    simp only [lostWriteCalls, Call.step, hend, htail]
    rfl
  have hrun : (Sys.boot s).run lostWriteCalls lostWriteSchedule =
      ⟨s3, Function.update (Function.update (fun _ => .start) true (.done ret)) false
        (.done (es + 0x100))⟩ := by
    simp only [Sys.run, lostWriteSchedule, List.foldl_cons, List.foldl_nil, Sys.boot]
    simp [Sys.step, h1, h2, h3, h4, h5, h6, Function.update_comm]
  rw [hrun]
  refine ⟨?_, fun i => ?_⟩
  · simp only
    rw [hb, overlay_in (by decide), hsd, getD_saved _ (by decide)]
  · cases i
    · exact ⟨es + 0x100, rfl⟩
    · exact ⟨ret, rfl⟩

/-- The byte written between the save and the restore of an erase on the same page
is lost: the flash is that of neither order. -/
theorem interleaved_lost_write :
    ¬ ∀ (calls : Bool → Call) (s : State) (schedule : List Bool),
      (∀ i, ∃ r : Region, r.Has (calls i).addr (calls i).size) →
      Disjoint (Set.Ico (calls false).addr ((calls false).addr + (calls false).size))
        (Set.Ico (calls true).addr ((calls true).addr + (calls true).size)) →
      (∀ i, ∃ ret, ((Sys.boot s).run calls schedule).pc i = .done ret) →
      ((Sys.boot s).run calls schedule).state.flash =
          ((calls true).run ((calls false).run s).2).2.flash ∨
        ((Sys.boot s).run calls schedule).state.flash =
          ((calls false).run ((calls true).run s).2).2.flash := by
  intro hall
  obtain ⟨hbyte, hd⟩ := lostWrite_run (flat 0)
  have hr : ∀ i, ∃ r : Region, r.Has (lostWriteCalls i).addr (lostWriteCalls i).size := by
    intro i
    cases i
    · exact ⟨_, lostWrite_erase_has⟩
    · exact ⟨_, lostWrite_write_has⟩
  have hdisj : Disjoint (Set.Ico 0x100 (0x100 + 0xF00)) (Set.Ico 0 (0 + 1)) := by
    rw [Set.disjoint_left]
    intro x h1 h2
    exact absurd (lt_of_le_of_lt h1.1 h2.2) (by decide)
  rw [bytes_flat] at hbyte
  rcases hall lostWriteCalls (flat 0) lostWriteSchedule hr hdisj hd with h | h
  · rw [h] at hbyte
    exact absurd (hbyte.symm.trans (lostWrite_in_a_row _ true)) (by decide)
  · rw [h] at hbyte
    exact absurd (hbyte.symm.trans (lostWrite_in_a_row _ false)) (by decide)

end Rmc
