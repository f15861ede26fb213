/-
Flash erase on the byte view.

The page loop erases whole pages up to the first one the controller refuses;
`EraseLoopDone` says how far it came and what it left.  Around it,
`nu_rmc_erase` saves and restores the bytes of the first and last page outside
the range.

* `nu_rmc_erase_exact` — when nothing fails the range reads as ones, every
  other byte as before, and only pages of the range are touched;
* `nu_rmc_erase_failure_iff` — when a page erase fails, exactly when the call
  reports it and leaves the bytes outside the range alone.
-/
import NuMaker.Rmc.Overlay

namespace Rmc

/-- Every program command of the page at `p` succeeds. -/
def PageOk (isp : Isp) (p : ℕ) : Prop := ∀ k < 8, isp (p + 512 * k) = none

/-- The program loop reports a failure exactly when a block fails. -/
theorem RMC_Erase_loop_ret (isp : Isp) : ∀ {n a : ℕ} {f : ℕ → BitVec 32},
    (RMC_Erase_loop isp n a f).1 = 0 ↔ ∀ k < n, isp (a + 512 * k) = none := by
  intro n
  induction n with
  | zero =>
    intro a f
    simp [RMC_Erase_loop]
  | succ n ih =>
    intro a f
    rw [RMC_Erase_loop]
    cases hi : isp a with
    | none =>
      simp only [RMC_MULTI_WORD_PROG_MAX_LEN]
      rw [ih]
      constructor
      · intro h k hk
        rcases k with _ | k
        · simpa using hi
        · rw [show a + 512 * (k + 1) = a + 512 + 512 * k by ring]
          exact h k (by omega)
      · intro h k hk
        rw [show a + 512 + 512 * k = a + 512 * (k + 1) by ring]
        exact h (k + 1) (by omega)
    | some g =>
      simp only
      constructor
      · intro h
        exact absurd h (by decide)
      · intro h
        have := h 0 (Nat.succ_pos n)
        rw [Nat.mul_zero, Nat.add_zero, hi] at this
        exact absurd this (by simp)

/-- What the program loop leaves at a byte depends on what was there only. -/
theorem RMC_Erase_loop_congr (isp : Isp) {x : ℕ} : ∀ {n a : ℕ} {f f' : ℕ → BitVec 32},
    a % 512 = 0 → bytes f x = bytes f' x →
    bytes (RMC_Erase_loop isp n a f).2 x = bytes (RMC_Erase_loop isp n a f').2 x := by
  intro n
  induction n with
  | zero =>
    intro a f f' _ h
    exact h
  | succ n ih =>
    intro a f f' ha h
    have hfill : ∀ g, bytes (fillBlock f a g) x = bytes (fillBlock f' a g) x := by
      intro g
      rw [bytes_fillBlock _ _ ha, bytes_fillBlock _ _ ha]
      by_cases hx : a ≤ x ∧ x < a + 512
      · rw [overlay_in hx, overlay_in hx]
      · rw [overlay_out hx, overlay_out hx, h]
    rw [RMC_Erase_loop, RMC_Erase_loop]
    cases isp a with
    | none => exact ih (by rw [RMC_MULTI_WORD_PROG_MAX_LEN, Nat.add_mod_right, ha]) (hfill _)
    | some g => exact hfill g

/-! ### The page loop -/

/-- The pages `[p, p + n)` lie in the region `r`. -/
structure Region.Pages (r : Region) (p stop : ℕ) : Prop where
  aligned : p % RMC_FLASH_PAGE_SIZE = 0
  base_le : r.base ≤ p
  le_stop : stop ≤ r.stop

theorem Region.Pages.isPage {r : Region} {p stop : ℕ} (h : r.Pages p stop) (hlt : p < stop) :
    IsPage p := by
  refine ⟨h.aligned, ?_⟩
  have h1 := h.base_le
  have h2 := h.le_stop
  cases r with
  | aprom => exact Or.inl (lt_of_lt_of_le hlt h2)
  | ldrom => exact Or.inr ⟨h1, lt_of_lt_of_le hlt h2⟩

theorem Region.Pages.next {r : Region} {p stop : ℕ} (h : r.Pages p stop) :
    r.Pages (p + RMC_FLASH_PAGE_SIZE) stop :=
  ⟨by rw [Nat.add_mod_right, h.aligned], le_trans h.base_le (Nat.le_add_right _ _), h.le_stop⟩

/-- What the page loop has done when it ends: it erased the `k` pages from `p`
on, then met `stop` or a page `failed` that the controller refused. -/
structure EraseLoopDone (isp : Isp) (stop p : ℕ) (s : State) (erased_size k : ℕ) (failed : Bool)
    (r : ℕ × State) : Prop where
  ret : r.1 = erased_size + k * 4096
  ok : ∀ j < k, p + j * 4096 < stop ∧ PageOk isp (p + j * 4096)
  last : if failed then p + k * 4096 < stop ∧ ¬ PageOk isp (p + k * 4096) else stop ≤ p + k * 4096
  view : bytes r.2.flash =
    overlay (if failed then bytes (RMC_Erase_loop isp 8 (p + k * 4096) s.flash).2
      else bytes s.flash) p (k * 4096) fun _ => 0xFF#8
  cmds : r.2.cmds = s.cmds ++ (List.range (if failed then k + 1 else k)).map
    fun j => .erase (p + j * 4096)
  locked : r.2.regLocked = s.regLocked

theorem nu_rmc_erase_loop_done (isp : Isp) {r : Region} {stop p : ℕ} {s : State}
    (erased_size : ℕ) (hp : r.Pages p stop) :
    ∃ k failed, EraseLoopDone isp stop p s erased_size k failed
      (nu_rmc_erase_loop isp stop p s erased_size) := by
  fun_induction nu_rmc_erase_loop isp stop p s erased_size with
  | case1 p s erased_size hlt res hfail =>
    -- the controller refuses this page
    have he := RMC_Erase_page isp s (hp.isPage hlt)
    refine ⟨0, true, by simp, by simp, ⟨by simpa using hlt, ?_⟩, ?_, ?_, ?_⟩
    · rw [Nat.zero_mul, Nat.add_zero, PageOk, ← RMC_Erase_loop_ret (f := s.flash)]
      intro h
      exact hfail (by simp only [res, he, h])
    · simp [res, he]
    · simp [res, he]
    · simp [res, he]
  | case2 p s erased_size hlt res hok ih =>
    -- this page is erased
    have he := RMC_Erase_page isp s (hp.isPage hlt)
    have hr0 : (RMC_Erase_loop isp 8 p s.flash).1 = 0 := by simpa [res, he] using hok
    have hpage : PageOk isp p := (RMC_Erase_loop_ret isp).mp hr0
    have hal : p % 512 = 0 := by
      have := hp.aligned
      simp only [RMC_FLASH_PAGE_SIZE] at this
      omega
    have hbytes : bytes res.2.flash = overlay (bytes s.flash) p 4096 fun _ => 0xFF#8 := by
      simp only [res, he]
      exact (RMC_Erase_loop_ok isp hal hpage).2
    obtain ⟨k, failed, hret, hk, hlast, hview, hcmds, hlock⟩ := ih hp.next
    simp only [RMC_FLASH_PAGE_SIZE] at *
    have hstep : ∀ j, p + 4096 + j * 4096 = p + (j + 1) * 4096 := by
      intro j
      ring
    rw [hstep] at hlast
    refine ⟨k + 1, failed, by rw [hret]; ring, ?_, hlast, ?_, ?_, ?_⟩
    · intro j hj
      rcases j with _ | j
      · simpa using And.intro hlt hpage
      · rw [← hstep]
        exact hk j (by omega)
    · rw [hview, hstep]
      have hbase : (if failed = true then
            bytes (RMC_Erase_loop isp 8 (p + (k + 1) * 4096) res.2.flash).2
          else bytes res.2.flash) =
          overlay (if failed = true then
            bytes (RMC_Erase_loop isp 8 (p + (k + 1) * 4096) s.flash).2
          else bytes s.flash) p 4096 fun _ => 0xFF#8 := by
        cases failed with
        | false => exact hbytes
        | true =>
          simp only [if_true]
          have hal' : (p + (k + 1) * 4096) % 512 = 0 := by omega
          funext x
          by_cases hx : p ≤ x ∧ x < p + 4096
          · rw [overlay_in hx, RMC_Erase_loop_frame isp hal' (Or.inl (by omega)), hbytes,
              overlay_in hx]
          · rw [overlay_out hx]
            exact RMC_Erase_loop_congr isp hal' (by rw [hbytes, overlay_out hx])
      rw [hbase, overlay_append _ (fun _ => 0xFF#8) _ p 4096 (k * 4096) (fun _ => rfl)]
      congr 1
      ring
    · have hc : res.2.cmds = s.cmds ++ [.erase p] := by simp only [res, he]
      rw [hcmds, hc, List.append_assoc]
      congr 1
      have hsucc : (if failed = true then k + 1 + 1 else k + 1)
          = (if failed = true then k + 1 else k) + 1 := by
        split <;> rfl
      rw [hsucc, List.range_succ_eq_map, List.map_cons, List.map_map]
      simp only [Nat.zero_mul, Nat.add_zero, List.singleton_append, List.cons.injEq, true_and]
      exact List.map_congr_left fun j _ => by rw [hstep]; rfl
    · rw [hlock]
      simp only [res, he]
  | case3 p s erased_size hlt =>
    exact ⟨0, false, by simp, by simp, by simpa using hlt, by simp, by simp, rfl⟩

theorem Region.base_aligned (r : Region) : r.base % 4096 = 0 := by cases r <;> decide

theorem Region.stop_aligned (r : Region) : r.stop % 4096 = 0 := by cases r <;> decide

/-- The first page of the range. -/
def firstPage (addr : ℕ) : ℕ := addr / 4096 * 4096

theorem Region.Has.pages {r : Region} {addr size : ℕ} (h : r.Has addr size) :
    r.Pages (firstPage addr) (addr + size) := by
  obtain ⟨h1, -, h3⟩ := h
  have hb := r.base_aligned
  exact ⟨Nat.mul_mod_left _ _, by rw [firstPage]; omega, h3⟩

/-- The locked section that erases the pages is the page loop. -/
theorem nu_rmc_erase_pages_done (isp : Isp) (s : State) {r : Region} {addr size : ℕ}
    (h : r.Has addr size) :
    ∃ k failed, EraseLoopDone isp (addr + size) (firstPage addr) s 0 k failed
      (nu_rmc_erase_pages isp s addr size) := by
  have key : ∀ s₀ : State, s₀.flash = s.flash → s₀.cmds = s.cmds → s₀.regLocked = false →
      ∃ k failed, EraseLoopDone isp (addr + size) (firstPage addr) s 0 k failed
        ((nu_rmc_erase_loop isp (addr + size) (firstPage addr) s₀ 0).1,
          if s.regLocked = true then
            SYS_LockReg (RMC_DISABLE_LD_UPDATE (RMC_DISABLE_AP_UPDATE
              (nu_rmc_erase_loop isp (addr + size) (firstPage addr) s₀ 0).2))
          else RMC_DISABLE_LD_UPDATE (RMC_DISABLE_AP_UPDATE
            (nu_rmc_erase_loop isp (addr + size) (firstPage addr) s₀ 0).2)) := by
    intro s₀ hf hc hl
    obtain ⟨k, failed, h1, h2, h3, h4, h5, h6⟩ :=
      nu_rmc_erase_loop_done isp (s := s₀) 0 h.pages
    rw [hf] at h4
    rw [hc] at h5
    refine ⟨k, failed, h1, h2, h3, ?_, ?_, ?_⟩
    · rw [← h4]
      split <;> rfl
    · rw [← h5]
      split <;> rfl
    · cases hs : s.regLocked with
      | true => rfl
      | false => exact h6.trans hl
  rw [nu_rmc_erase_pages, h.addrEnd]
  obtain ⟨hb, hlt, -⟩ := h
  cases r with
  | aprom =>
    have hle : addr ≤ RMC_APROM_END := le_of_lt hlt
    simp only [if_pos hle]
    exact key _ rfl rfl rfl
  | ldrom =>
    have hnot : ¬ addr ≤ RMC_APROM_END := by
      simp only [Region.base, RMC_LDROM_BASE] at hb
      simp only [RMC_APROM_END]
      omega
    simp only [Region.stop] at hlt
    simp only [Region.base] at hb
    simp only [if_neg hnot, if_pos (And.intro hlt hb)]
    exact key _ rfl rfl rfl

/-! ### Saving and restoring the two ends -/

theorem savePart_eq (malloc : Bool) (s : State) {addr len : ℕ} (h : addr + len < 2 ^ 32) :
    savePart malloc s addr len =
      if len ≠ 0 ∧ malloc = false then none
      else some ((List.range' addr len).map (bytes s.flash)) := by
  rw [savePart]
  by_cases h0 : len = 0
  · rw [if_neg (by simpa using h0), if_neg (by simp [h0]), h0]
    rfl
  · rw [if_pos h0, nu_rmc_read_eq s h]
    cases malloc with
    | false => simp [h0]
    | true => simp

/-- Restoring `len` bytes that lie in a region. -/
theorem restorePart_done (s : State) {r : Region} {addr len : ℕ} (buf : List Byte)
    (erased_size : ℕ) (h : len ≠ 0 → r.Has addr len) :
    ∃ s' l, restorePart s addr buf len erased_size = (true, erased_size + len, s') ∧
      bytes s'.flash = overlay (bytes s.flash) addr len (fun i => buf.getD i 0) ∧
      s'.cmds = s.cmds ++ l ∧ WritesIn addr len l ∧ s'.regLocked = s.regLocked := by
  rw [restorePart]
  by_cases h0 : len = 0
  · subst h0
    exact ⟨s, [], by simp, by simp, by simp, by simp [WritesIn], rfl⟩
  · obtain ⟨hret, hview, hlock, -, hw⟩ :=
      nu_rmc_write_done s (fun i => buf.getD i 0) (h h0)
    obtain ⟨l, hl, hin⟩ := hw (Nat.pos_of_ne_zero h0)
    refine ⟨_, l, ?_, hview, hl, hin, hlock⟩
    rw [if_pos h0, if_neg (by simpa using hret)]

/-- The bytes of the first and last page that the driver saves and restores. -/
def Kept (addr addr_end x : ℕ) : Prop :=
  (firstPage addr ≤ x ∧ x < addr) ∨ (addr_end ≤ x ∧ x < addr_end + tailLen addr_end)

theorem sub_headLen (addr : ℕ) : addr - headLen addr = firstPage addr := by
  rw [headLen, firstPage, RMC_FLASH_PAGE_SIZE]
  omega

theorem firstPage_add_headLen (addr : ℕ) : firstPage addr + headLen addr = addr := by
  rw [headLen, firstPage, RMC_FLASH_PAGE_SIZE]
  omega

theorem Region.Has.head {r : Region} {addr size : ℕ} (h : r.Has addr size)
    (_ : headLen addr ≠ 0) : r.Has (firstPage addr) (headLen addr) := by
  have hb := r.base_aligned
  have ha := firstPage_add_headLen addr
  obtain ⟨h1, h2, -⟩ := h
  refine ⟨?_, by omega, by omega⟩
  rw [firstPage]
  omega

theorem Region.Has.tail {r : Region} {addr size : ℕ} (h : r.Has addr size)
    (h0 : tailLen (addr + size) ≠ 0) : r.Has (addr + size) (tailLen (addr + size)) := by
  have hs := r.stop_aligned
  obtain ⟨h1, h2, h3⟩ := h
  rw [tailLen, RMC_FLASH_PAGE_SIZE] at h0 ⊢
  by_cases hm : (addr + size) % 4096 = 0
  · simp [hm] at h0
  · rw [if_pos hm]
    exact ⟨by omega, by omega, by omega⟩

/-- A save buffer that is needed cannot be allocated. -/
def NoBuffer (env : EraseEnv) (addr size : ℕ) : Prop :=
  (headLen addr ≠ 0 ∧ env.malloc_sd = false) ∨
    (tailLen (addr + size) ≠ 0 ∧ env.malloc_ed = false)

/-- Without a buffer nothing happens. -/
theorem nu_rmc_erase_noBuffer (env : EraseEnv) (s : State) {r : Region} {addr size : ℕ}
    (h : r.Has addr size) (hn : NoBuffer env addr size) :
    nu_rmc_erase env s addr size = (0, s) := by
  rw [nu_rmc_erase, h.addrEnd, sub_headLen]
  have hr : r.stop ≤ 0x0F102000 := by cases r <;> decide
  have h3 := h.le_stop
  have htl : tailLen (addr + size) ≤ 4096 := by
    rw [tailLen, RMC_FLASH_PAGE_SIZE]
    split <;> omega
  rw [savePart_eq _ _ (by rw [firstPage_add_headLen]; omega), savePart_eq _ _ (by omega)]
  by_cases hsd : headLen addr ≠ 0 ∧ env.malloc_sd = false
  · rw [if_pos hsd]
  · rw [if_neg hsd, if_pos (hn.resolve_left hsd)]

/-- What `nu_rmc_erase` does when it has its buffers and the page loop has
stopped with `k` pages erased. -/
structure EraseDone (env : EraseEnv) (s : State) (addr size k : ℕ) (failed : Bool)
    (r : ℕ × State) : Prop where
  pages : ∃ rp, EraseLoopDone env.isp (addr + size) (firstPage addr) s 0 k failed rp ∧
    (k * 4096 < size → r = (0, rp.2)) ∧
    (size ≤ k * 4096 →
      r.1 = k * 4096 + headLen addr + tailLen (addr + size) ∧
      r.2.regLocked = s.regLocked ∧
      (∀ x, Kept addr (addr + size) x → bytes r.2.flash x = bytes s.flash x) ∧
      (∀ x, ¬ Kept addr (addr + size) x → bytes r.2.flash x = bytes rp.2.flash x) ∧
      ∃ l, r.2.cmds = rp.2.cmds ++ l ∧
        ∀ c ∈ l, ∃ x, Kept addr (addr + size) x ∧ c = .write (x / 4 * 4))

/-- The saved bytes, read back from the buffer. -/
theorem getD_saved (f : ℕ → BitVec 32) {addr len i : ℕ} (h : i < len) :
    ((List.range' addr len).map (bytes f)).getD i 0 = bytes f (addr + i) := by
  simp [List.getD, List.getElem?_range' h]

theorem nu_rmc_erase_done (env : EraseEnv) (s : State) {r : Region} {addr size : ℕ}
    (h : r.Has addr size) (hb : ¬ NoBuffer env addr size) :
    ∃ k failed, EraseDone env s addr size k failed (nu_rmc_erase env s addr size) := by
  obtain ⟨k, failed, hp⟩ := nu_rmc_erase_pages_done env.isp s h
  refine ⟨k, failed, ⟨_, hp, ?_⟩⟩
  have hr : r.stop ≤ 0x0F102000 := by cases r <;> decide
  have h3 := h.le_stop
  have htl : tailLen (addr + size) ≤ 4096 := by
    rw [tailLen, RMC_FLASH_PAGE_SIZE]
    split <;> omega
  have hsd : ¬ (headLen addr ≠ 0 ∧ env.malloc_sd = false) := fun hc => hb (Or.inl hc)
  have hed : ¬ (tailLen (addr + size) ≠ 0 ∧ env.malloc_ed = false) := fun hc => hb (Or.inr hc)
  rw [nu_rmc_erase, h.addrEnd, sub_headLen,
    savePart_eq _ _ (by rw [firstPage_add_headLen]; omega), if_neg hsd,
    savePart_eq _ _ (by omega), if_neg hed]
  simp only [hp.ret, Nat.zero_add]
  constructor
  · intro hk
    rw [if_neg (by omega)]
  · intro hk
    rw [if_pos (by omega)]
    obtain ⟨s1, l1, he1, hv1, hc1, hw1, hl1⟩ := restorePart_done
      (nu_rmc_erase_pages env.isp s addr size).2
      ((List.range' (firstPage addr) (headLen addr)).map (bytes s.flash)) (k * 4096) h.head
    obtain ⟨s2, l2, he2, hv2, hc2, hw2, hl2⟩ := restorePart_done s1
      ((List.range' (addr + size) (tailLen (addr + size))).map (bytes s.flash))
      (k * 4096 + headLen addr) h.tail
    simp only [he1, he2]
    have ha := firstPage_add_headLen addr
    have hbuf : ∀ a n x : ℕ, a ≤ x ∧ x < a + n →
        ((List.range' a n).map (bytes s.flash)).getD (x - a) 0 = bytes s.flash x := by
      intro a n x hx
      rw [getD_saved _ (by omega)]
      congr 1
      omega
    refine ⟨trivial, by rw [hl2, hl1, hp.locked], ?_, ?_, l1 ++ l2, ?_, ?_⟩
    · intro x hx
      rw [hv2]
      by_cases ht : addr + size ≤ x ∧ x < addr + size + tailLen (addr + size)
      · rw [overlay_in ht]
        exact hbuf _ _ _ ht
      · have hh : firstPage addr ≤ x ∧ x < firstPage addr + headLen addr := by
          rw [ha]
          exact hx.resolve_right ht
        rw [overlay_out ht, hv1, overlay_in hh]
        exact hbuf _ _ _ hh
    · intro x hx
      rw [hv2, overlay_out fun ht => hx (Or.inr ht), hv1, overlay_out ?_]
      rw [ha]
      exact fun hh => hx (Or.inl hh)
    · rw [hc2, hc1, List.append_assoc]
    · intro c hc
      rcases List.mem_append.mp hc with hc | hc
      · obtain ⟨x, hx1, hx2, rfl⟩ := hw1 c hc
        exact ⟨x, Or.inl ⟨hx1, by omega⟩, rfl⟩
      · obtain ⟨x, hx1, hx2, rfl⟩ := hw2 c hc
        exact ⟨x, Or.inr ⟨hx1, hx2⟩, rfl⟩

/-! ### Erase without failures -/

/-- Both buffers are obtained and every page of the range can be erased. -/
structure NoFailure (env : EraseEnv) (addr size : ℕ) : Prop where
  sd : env.malloc_sd = true
  ed : env.malloc_ed = true
  pages : ∀ p, p % 4096 = 0 → firstPage addr ≤ p → p < addr + size → PageOk env.isp p

theorem NoFailure.buffers {env : EraseEnv} {addr size : ℕ} (h : NoFailure env addr size) :
    ¬ NoBuffer env addr size := by
  rintro (⟨-, h1⟩ | ⟨-, h1⟩)
  · exact absurd (h.sd.symm.trans h1) (by decide)
  · exact absurd (h.ed.symm.trans h1) (by decide)

theorem firstPage_le (addr : ℕ) : firstPage addr ≤ addr := Nat.div_mul_le_self _ _

theorem firstPage_aligned (addr k : ℕ) : (firstPage addr + k * 4096) % 4096 = 0 := by
  rw [firstPage, ← Nat.add_mul, Nat.mul_mod_left]

/-- Without failures the page loop ends at the end of the range. -/
theorem EraseLoopDone.complete {env : EraseEnv} {addr size k : ℕ} {failed : Bool} {s : State}
    {rp : ℕ × State} (hn : NoFailure env addr size)
    (h : EraseLoopDone env.isp (addr + size) (firstPage addr) s 0 k failed rp) :
    failed = false ∧ addr + size ≤ firstPage addr + k * 4096 ∧
      firstPage addr + k * 4096 = addr + size + tailLen (addr + size) := by
  have hf := firstPage_le addr
  have hlast := h.last
  have hfalse : failed = false := by
    cases failed with
    | false => rfl
    | true =>
      simp only [if_true] at hlast
      exact absurd (hn.pages _ (firstPage_aligned addr k) (Nat.le_add_right _ _) hlast.1) hlast.2
  subst hfalse
  simp only [Bool.false_eq_true, if_false] at hlast
  refine ⟨rfl, hlast, ?_⟩
  have hal := firstPage_aligned addr k
  have hprev : k ≠ 0 → firstPage addr + k * 4096 < addr + size + 4096 := by
    intro h0
    obtain ⟨j, rfl⟩ : ∃ j, k = j + 1 := ⟨k - 1, by omega⟩
    rw [Nat.add_mul, Nat.one_mul, ← Nat.add_assoc]
    exact Nat.add_lt_add_right (h.ok j (Nat.lt_succ_self j)).1 4096
  have hround : ∀ e stop : ℕ, e % 4096 = 0 → stop ≤ e → e < stop + 4096 → e = stop + tailLen stop := by
    intro e stop h1 h2 h3
    rw [tailLen, RMC_FLASH_PAGE_SIZE]
    split <;> omega
  refine hround _ _ hal hlast ?_
  by_cases hk : k = 0
  · rw [hk, Nat.zero_mul, Nat.add_zero, Nat.add_assoc]
    exact lt_of_le_of_lt hf (Nat.lt_add_of_pos_right (by positivity))
  · exact hprev hk

/-- What a call without failures leaves: ones inside the range, the previous
bytes outside. -/
theorem nu_rmc_erase_view (env : EraseEnv) (s : State) {r : Region} {addr size : ℕ}
    (h : r.Has addr size) (hn : NoFailure env addr size) :
    bytes (nu_rmc_erase env s addr size).2.flash =
        overlay (bytes s.flash) addr size (fun _ => 0xFF#8) ∧
      ∃ k l, firstPage addr + k * 4096 = addr + size + tailLen (addr + size) ∧
        (nu_rmc_erase env s addr size).2.cmds =
          s.cmds ++ (List.range k).map (fun j => Cmd.erase (firstPage addr + j * 4096)) ++ l ∧
        ∀ c ∈ l, ∃ x, Kept addr (addr + size) x ∧ c = .write (x / 4 * 4) := by
  obtain ⟨k, failed, rp, hp, -, hk⟩ := nu_rmc_erase_done env s h hn.buffers
  obtain ⟨rfl, hend, hend'⟩ := hp.complete hn
  have hf := firstPage_le addr
  obtain ⟨-, -, hin, hout, l, hl, hlk⟩ := hk (by omega)
  have hv := hp.view
  have hc := hp.cmds
  simp only [Bool.false_eq_true, if_false] at hv hc
  refine ⟨?_, k, l, hend', by rw [hl, hc], hlk⟩
  funext x
  by_cases hx : Kept addr (addr + size) x
  · rw [hin x hx, overlay_out ?_]
    rintro ⟨h1, h2⟩
    rcases hx with hx | hx <;> omega
  · rw [hout x hx, hv]
    by_cases hr : addr ≤ x ∧ x < addr + size
    · rw [overlay_in hr, overlay_in ⟨by omega, by omega⟩]
    · rw [overlay_out hr, overlay_out ?_]
      rintro ⟨h1, h2⟩
      rcases Nat.lt_or_ge x addr with h3 | h3
      · exact hx (Or.inl ⟨h1, h3⟩)
      · exact hx (Or.inr ⟨by omega, by omega⟩)

/-- The page number `q` is one the range `[addr, addr + size)` meets. -/
def Meets (addr size q : ℕ) : Prop := ∃ x, addr ≤ x ∧ x < addr + size ∧ q = x / RMC_FLASH_PAGE_SIZE

/-- A page met by the bytes from `addr` to the end of the last page is met by the
range, if the range is not empty. -/
theorem meets_of_lt {addr size x : ℕ} (h1 : firstPage addr ≤ x)
    (h2 : x < addr + size + tailLen (addr + size)) :
    Meets addr (max size 1) (x / RMC_FLASH_PAGE_SIZE) := by
  rw [tailLen, RMC_FLASH_PAGE_SIZE] at h2
  rw [firstPage] at h1
  simp only [Meets, RMC_FLASH_PAGE_SIZE]
  by_cases hx : x < addr + size
  · rcases Nat.lt_or_ge x addr with h3 | h3
    · exact ⟨addr, le_refl _, by omega, by omega⟩
    · exact ⟨x, h3, by omega, rfl⟩
  · by_cases hm : (addr + size) % 4096 = 0
    · simp [hm] at h2
      omega
    · rw [if_pos hm] at h2
      rcases Nat.eq_zero_or_pos size with h0 | h0
      · subst h0
        exact ⟨addr, le_refl _, by omega, by omega⟩
      · exact ⟨addr + size - 1, by omega, by omega, by omega⟩

/-- **Flash erase is byte-exact.**  When both buffers are obtained and no page
erase fails, the range reads as ones, every other byte as before, and every
flash command works on a page the range meets; an empty range touches no page
but that of `addr`. -/
theorem nu_rmc_erase_exact (env : EraseEnv) (s : State) {r : Region} {addr size : ℕ}
    (h : r.Has addr size) (hn : NoFailure env addr size) :
    (∀ x, bytes (nu_rmc_erase env s addr size).2.flash x =
      if addr ≤ x ∧ x < addr + size then 0xFF#8 else bytes s.flash x) ∧
    ∃ l, (nu_rmc_erase env s addr size).2.cmds = s.cmds ++ l ∧
      ∀ c ∈ l, Meets addr (max size 1) c.page := by
  obtain ⟨hv, k, l, hk, hc, hl⟩ := nu_rmc_erase_view env s h hn
  refine ⟨fun x => by rw [hv, overlay], _, by rw [hc, List.append_assoc], ?_⟩
  intro c hmem
  rcases List.mem_append.mp hmem with hmem | hmem
  · -- a page erase
    obtain ⟨j, hj, rfl⟩ := List.mem_map.mp hmem
    have hjk : j < k := List.mem_range.mp hj
    have h1 : (j + 1) * 4096 ≤ k * 4096 := Nat.mul_le_mul_right _ hjk
    exact meets_of_lt (Nat.le_add_right _ _) (by omega)
  · -- a restored word
    obtain ⟨x, hx, rfl⟩ := hl c hmem
    have hpage : (Cmd.write (x / 4 * 4)).page = x / RMC_FLASH_PAGE_SIZE := by
      simp only [Cmd.page, RMC_FLASH_PAGE_SIZE]
      omega
    rw [hpage]
    have hf := firstPage_le addr
    rcases hx with ⟨h1, h2⟩ | ⟨h1, h2⟩
    · exact meets_of_lt h1 (by omega)
    · exact meets_of_lt (by omega) h2

/-- An erase of 0x1100 bytes from 0x0F100010 on, when everything succeeds. -/
theorem nu_rmc_erase_exact_ldrom :
    bytes (nu_rmc_erase ⟨true, true, fun _ => none⟩ (flat 0) 0x0F100010 0x1100).2.flash
        0x0F10000F =
      bytes (flat 0).flash 0x0F10000F :=
  ((nu_rmc_erase_exact ⟨true, true, fun _ => none⟩ (flat 0) (r := .ldrom)
    ⟨by decide, by decide, by decide⟩ ⟨rfl, rfl, fun _ _ _ _ _ _ => rfl⟩).1 0x0F10000F).trans
    (if_neg (by decide))

/-- An empty range meets no page, yet erasing it erases and rewrites the page of
`addr` when `addr` is not page-aligned. -/
theorem nu_rmc_erase_empty_touches :
    ¬ ∀ (env : EraseEnv) (s : State) (r : Region) (addr size : ℕ), r.Has addr size →
      NoFailure env addr size →
      (∀ x, bytes (nu_rmc_erase env s addr size).2.flash x =
        if addr ≤ x ∧ x < addr + size then 0xFF#8 else bytes s.flash x) ∧
      ∃ l, (nu_rmc_erase env s addr size).2.cmds = s.cmds ++ l ∧
        ∀ c ∈ l, Meets addr size c.page := by
  intro hall
  have hr : Region.aprom.Has 0x10 0 := ⟨by decide, by decide, by decide⟩
  have hn : NoFailure ⟨true, true, fun _ => none⟩ 0x10 0 := ⟨rfl, rfl, fun _ _ _ _ _ _ => rfl⟩
  obtain ⟨-, l, hl, hmeets⟩ :=
    hall ⟨true, true, fun _ => none⟩ ⟨fun _ => 0, [], false, false, false⟩ _ _ _ hr hn
  obtain ⟨-, k, l', hk, hc, -⟩ := nu_rmc_erase_view ⟨true, true, fun _ => none⟩
    ⟨fun _ => 0, [], false, false, false⟩ hr hn
  rw [hl] at hc
  simp only [List.nil_append] at hc
  have h1 : k = 1 := by
    have : firstPage 0x10 = 0 := by decide
    have : tailLen (0x10 + 0) = 4080 := by decide
    omega
  subst h1
  obtain ⟨x, hx1, hx2, -⟩ := hmeets (.erase (firstPage 0x10)) (by rw [hc]; simp)
  omega

/-! ### Erase with failures -/

/-- The controller erases the `k` first pages of the range and refuses the next. -/
structure FirstFailure (isp : Isp) (addr size k : ℕ) : Prop where
  ok : ∀ j < k, PageOk isp (firstPage addr + j * 4096)
  inside : firstPage addr + k * 4096 < addr + size
  fails : ¬ PageOk isp (firstPage addr + k * 4096)

/-- Some step of the erase fails: a buffer that is needed, or a page. -/
def EraseFails (env : EraseEnv) (addr size : ℕ) : Prop :=
  NoBuffer env addr size ∨ ∃ k, FirstFailure env.isp addr size k

/-- The failure is reported and no byte outside the range is lost.  The driver
reports a failure by a size of 0. -/
def SafeFailure (s : State) (addr size : ℕ) (r : ℕ × State) : Prop :=
  r.1 = 0 ∧ ∀ x, ¬ (addr ≤ x ∧ x < addr + size) → bytes r.2.flash x = bytes s.flash x

/-- The first failure does no harm: the pages erased before it are smaller than
the size, no erased page held a byte before `addr` that was not ones already, and
the refused page kept its bytes outside the range. -/
structure HarmlessFailure (env : EraseEnv) (s : State) (addr size k : ℕ) : Prop where
  first : FirstFailure env.isp addr size k
  short : k * 4096 < size
  head : k ≠ 0 → ∀ x, firstPage addr ≤ x → x < addr → bytes s.flash x = 0xFF#8
  page : ∀ x, firstPage addr + k * 4096 ≤ x → x < firstPage addr + (k + 1) * 4096 →
    ¬ (addr ≤ x ∧ x < addr + size) →
    bytes (RMC_Erase env.isp s (firstPage addr + k * 4096)).2.flash x = bytes s.flash x

/-- The page loop stops at the first page the controller refuses. -/
theorem EraseLoopDone.failed_at {isp : Isp} {addr size k k' : ℕ} {failed : Bool} {s : State}
    {rp : ℕ × State} (hf : FirstFailure isp addr size k)
    (h : EraseLoopDone isp (addr + size) (firstPage addr) s 0 k' failed rp) :
    k' = k ∧ failed = true := by
  obtain ⟨hok, hin, hfail⟩ := hf
  have hlast := h.last
  have hle : k' ≤ k := by
    by_contra hlt
    exact hfail (h.ok k (by omega)).2
  rcases Nat.lt_or_eq_of_le hle with hlt | rfl
  · -- stopped earlier: neither by a refusal nor by the end of the range
    have h1 : (k' + 1) * 4096 ≤ k * 4096 := Nat.mul_le_mul_right _ hlt
    cases failed with
    | true =>
      simp only [if_true] at hlast
      exact absurd (hok k' hlt) hlast.2
    | false =>
      simp only [Bool.false_eq_true, if_false] at hlast
      omega
  · refine ⟨rfl, ?_⟩
    cases failed with
    | true => rfl
    | false =>
      simp only [Bool.false_eq_true, if_false] at hlast
      omega

theorem FirstFailure.isPage {isp : Isp} {r : Region} {addr size k : ℕ} (h : r.Has addr size)
    (hf : FirstFailure isp addr size k) : IsPage (firstPage addr + k * 4096) := by
  have hp := h.pages
  have hp' : r.Pages (firstPage addr + k * 4096) (addr + size) :=
    ⟨firstPage_aligned addr k, le_trans hp.base_le (Nat.le_add_right _ _), hp.le_stop⟩
  exact hp'.isPage hf.inside

/-- A masked failure: when the pages erased before the refused one are at least as
large as the size, the call returns a size that is not 0. -/
theorem nu_rmc_erase_masked (env : EraseEnv) (s : State) {r : Region} {addr size k : ℕ}
    (h : r.Has addr size) (hb : ¬ NoBuffer env addr size)
    (hf : FirstFailure env.isp addr size k) (hk : size ≤ k * 4096) :
    (nu_rmc_erase env s addr size).1 = k * 4096 + headLen addr + tailLen (addr + size) ∧
      (nu_rmc_erase env s addr size).1 ≠ 0 := by
  obtain ⟨k', failed, rp, hp, -, hm⟩ := nu_rmc_erase_done env s h hb
  obtain ⟨rfl, rfl⟩ := hp.failed_at hf
  have hret := (hm hk).1
  refine ⟨hret, ?_⟩
  rw [hret]
  intro h0
  -- nothing erased and nothing restored: then the range is empty and aligned
  have hhead := firstPage_add_headLen addr
  have hin := hf.inside
  omega

/-- A reported failure: the flash is what the page loop left. -/
theorem nu_rmc_erase_reported (env : EraseEnv) (s : State) {r : Region} {addr size k : ℕ}
    (h : r.Has addr size) (hb : ¬ NoBuffer env addr size)
    (hf : FirstFailure env.isp addr size k) (hk : k * 4096 < size) :
    (nu_rmc_erase env s addr size).1 = 0 ∧
      bytes (nu_rmc_erase env s addr size).2.flash =
        overlay (bytes (RMC_Erase env.isp s (firstPage addr + k * 4096)).2.flash)
          (firstPage addr) (k * 4096) fun _ => 0xFF#8 := by
  obtain ⟨k', failed, rp, hp, hs, -⟩ := nu_rmc_erase_done env s h hb
  obtain ⟨rfl, rfl⟩ := hp.failed_at hf
  have hv := hp.view
  simp only [if_true] at hv
  rw [hs hk, RMC_Erase_page _ _ (hf.isPage h)]
  exact ⟨rfl, hv⟩

/-- A page erase changes nothing outside its page. -/
theorem RMC_Erase_frame (isp : Isp) (s : State) {p x : ℕ} (hp : IsPage p)
    (hx : x < p ∨ p + 4096 ≤ x) :
    bytes (RMC_Erase isp s p).2.flash x = bytes s.flash x := by
  rw [RMC_Erase_page _ _ hp]
  refine RMC_Erase_loop_frame isp ?_ hx
  have := hp.aligned
  rw [RMC_FLASH_PAGE_SIZE] at this
  omega

/-- **A failing flash erase**: exactly when it is reported and loses nothing
outside the range. -/
theorem nu_rmc_erase_failure_iff (env : EraseEnv) (s : State) {r : Region} {addr size : ℕ}
    (h : r.Has addr size) (hfail : EraseFails env addr size) :
    SafeFailure s addr size (nu_rmc_erase env s addr size) ↔
      NoBuffer env addr size ∨ ∃ k, HarmlessFailure env s addr size k := by
  by_cases hb : NoBuffer env addr size
  · rw [nu_rmc_erase_noBuffer env s h hb]
    exact ⟨fun _ => Or.inl hb, fun _ => ⟨rfl, fun _ _ => rfl⟩⟩
  obtain ⟨k, hf⟩ := hfail.resolve_left hb
  have hpg := hf.isPage h
  have hfl := firstPage_le addr
  have hin := hf.inside
  have hsucc : firstPage addr + (k + 1) * 4096 = firstPage addr + k * 4096 + 4096 := by ring
  constructor
  · rintro ⟨hret, hout⟩
    refine Or.inr ⟨k, hf, ?_, ?_, ?_⟩
    · by_contra hk
      exact (nu_rmc_erase_masked env s h hb hf (by omega)).2 hret
    all_goals
      have hk : k * 4096 < size := by
        by_contra hk
        exact (nu_rmc_erase_masked env s h hb hf (by omega)).2 hret
      rw [(nu_rmc_erase_reported env s h hb hf hk).2] at hout
    · -- the head lies in the first page, which is erased
      intro h0 x h1 h2
      have h3 : 1 * 4096 ≤ k * 4096 := Nat.mul_le_mul_right _ (Nat.pos_of_ne_zero h0)
      have h4 : addr < firstPage addr + 4096 := by
        rw [firstPage]
        omega
      rw [← hout x (by omega), overlay_in ⟨h1, by omega⟩]
    · intro x h1 h2 h3
      rw [← hout x h3, overlay_out (by omega)]
  · intro hor
    obtain ⟨k', hf', hk', hhead, hpage⟩ := hor.resolve_left hb
    obtain rfl : k' = k := by
      by_contra hne
      rcases Nat.lt_or_gt_of_ne hne with hlt | hlt
      · exact hf'.fails (hf.ok k' hlt)
      · exact hf.fails (hf'.ok k hlt)
    obtain ⟨h1, h2⟩ := nu_rmc_erase_reported env s h hb hf hk'
    refine ⟨h1, fun x hx => ?_⟩
    rw [h2]
    by_cases hx1 : firstPage addr ≤ x ∧ x < firstPage addr + k' * 4096
    · -- an erased page: only the head can lie outside the range
      rw [overlay_in hx1]
      refine (hhead ?_ x hx1.1 (by omega)).symm
      rintro rfl
      rw [Nat.zero_mul, Nat.add_zero] at hx1
      exact absurd hx1.1 (Nat.not_le_of_lt hx1.2)
    · rw [overlay_out hx1]
      by_cases hx2 : firstPage addr + k' * 4096 ≤ x ∧ x < firstPage addr + (k' + 1) * 4096
      · exact hpage x hx2.1 hx2.2 hx
      · exact RMC_Erase_frame _ _ hpg (by omega)

/-- The controller refuses the page at `0x1000` and leaves it alone. -/
def refuseSecond (f : ℕ → BitVec 32) : EraseEnv :=
  ⟨true, true, fun a => if a = 0x1000 then some f else none⟩

theorem refuseSecond_first (f : ℕ → BitVec 32) :
    FirstFailure (refuseSecond f).isp 0x800 0x1000 1 := by
  refine ⟨?_, by decide, ?_⟩
  · intro j hj i hi
    obtain rfl : j = 0 := by omega
    exact if_neg (by rw [firstPage]; omega)
  · intro h
    exact absurd (h 0 (by decide)) (by simp [refuseSecond, firstPage])

theorem refuseSecond_buffers (f : ℕ → BitVec 32) :
    ¬ NoBuffer (refuseSecond f) 0x800 0x1000 := by
  rintro (⟨-, h⟩ | ⟨-, h⟩) <;> exact absurd h (by simp [refuseSecond])

/-- The two calls of `nu_rmc_erase_failure_iff` on a range inside one page. -/
theorem nu_rmc_erase_failure_iff_one_page :
    SafeFailure (flat 0) 0x1000 8 (nu_rmc_erase (refuseSecond (flat 0).flash) (flat 0) 0x1000 8) ↔
      NoBuffer (refuseSecond (flat 0).flash) 0x1000 8 ∨
        ∃ k, HarmlessFailure (refuseSecond (flat 0).flash) (flat 0) 0x1000 8 k :=
  nu_rmc_erase_failure_iff _ (flat 0) (r := .aprom) ⟨by decide, by decide, by decide⟩
    (Or.inr ⟨0, by simp, by decide, fun h => absurd (h 0 (by decide))
      (by simp [refuseSecond, firstPage])⟩)

/-- The erase of `[0x800, 0x1800)` with the second page refused is reported as a
success of two pages. -/
theorem nu_rmc_erase_reports_success :
    ¬ ∀ (env : EraseEnv) (s : State) (r : Region) (addr size : ℕ), r.Has addr size →
      EraseFails env addr size → SafeFailure s addr size (nu_rmc_erase env s addr size) := by
  intro hall
  have h : Region.aprom.Has 0x800 0x1000 := ⟨by decide, by decide, by decide⟩
  have hsafe := hall (refuseSecond fun _ => 0) ⟨fun _ => 0, [], false, false, false⟩ _ _ _ h
    (Or.inr ⟨1, refuseSecond_first _⟩)
  exact (nu_rmc_erase_masked _ _ h (refuseSecond_buffers _) (refuseSecond_first _) (by decide)).2
    hsafe.1

end Rmc
