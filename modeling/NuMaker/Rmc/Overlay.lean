/-
Flash reads and writes on the byte view.

* `nu_rmc_read_eq` — `nu_rmc_read` stores the bytes of the range and changes
  nothing;
* `nu_rmc_write_ok` — `nu_rmc_write` on a range of a region is one overlay of
  the byte view, whatever the alignment of the two ends;
* `nu_rmc_write_overlay` — hence a read after a write sees the buffer inside
  the range and the previous bytes outside.

The write loop holds a partly merged word in `isp_rdata` while the address is
not word-aligned; `pending` is the store with that word put in, and it is
`pending` that gains one byte (or one word) at every turn.
-/
import NuMaker.Rmc.Driver

namespace Rmc

theorem Region.Has.addrEnd {r : Region} {addr size : ℕ} (h : r.Has addr size) :
    addrEnd addr size = addr + size := by
  have h1 := h.le_stop
  have h2 : r.stop ≤ 0x0F102000 := by cases r <;> decide
  exact Nat.mod_eq_of_lt (by omega)

theorem shift_setWidth (w : BitVec 32) (a : ℕ) :
    (w >>> NU_GETBYTE_OFST a).setWidth 8 = byteOf w (a % 4) := by
  ext i hi
  simp only [NU_GETBYTE_OFST, byteOf, BitVec.getElem_setWidth, BitVec.getLsbD_ushiftRight,
    BitVec.getElem_extractLsb']
  rw [Nat.mul_comm]

theorem RMC_Read_walign (s : State) (addr : ℕ) :
    RMC_Read s (NU_GET_WALIGN addr) = s.flash (addr / 4) := by
  rw [RMC_Read, NU_GET_WALIGN, Nat.mul_div_cancel _ (by omega)]

/-! ### Read -/

theorem nu_rmc_read_loop_eq (s : State) {addr_end addr : ℕ} {isp_rdata : BitVec 32}
    {buf : List Byte} {read_size : ℕ} (hisp : addr % 4 ≠ 0 → isp_rdata = s.flash (addr / 4)) :
    nu_rmc_read_loop s addr_end addr isp_rdata buf read_size =
      (buf ++ (List.range' addr (addr_end - addr)).map (bytes s.flash),
        read_size + (addr_end - addr)) := by
  fun_induction nu_rmc_read_loop s addr_end addr isp_rdata buf read_size with
  | case1 addr isp_rdata buf read_size hlt isp' hw ih =>
    -- a whole word
    obtain ⟨h0, h4⟩ := hw
    obtain ⟨n, hn⟩ : ∃ n, addr_end - addr = n + 4 := ⟨addr_end - addr - 4, by omega⟩
    have hi : isp' = s.flash (addr / 4) := if_pos h0
    simp only [NU_GET_LSB2BIT] at h0
    rw [ih (fun h => absurd h (by omega)), hn, show addr_end - (addr + 4) = n by omega, hi]
    simp only [List.range'_succ, List.map_cons, List.append_assoc, List.cons_append,
      List.nil_append, Prod.mk.injEq]
    refine ⟨?_, by omega⟩
    simp only [bytes, h0, show (addr + 1) / 4 = addr / 4 by omega,
      show (addr + 1 + 1) / 4 = addr / 4 by omega, show (addr + 1 + 1 + 1) / 4 = addr / 4 by omega,
      show (addr + 1) % 4 = 1 by omega, show (addr + 1 + 1) % 4 = 2 by omega,
      show (addr + 1 + 1 + 1) % 4 = 3 by omega]
  | case2 addr isp_rdata buf read_size hlt isp' hw ih =>
    -- one byte of the word in `isp_rdata`
    obtain ⟨n, hn⟩ : ∃ n, addr_end - addr = n + 1 := ⟨addr_end - addr - 1, by omega⟩
    have hi : isp' = s.flash (addr / 4) := by
      by_cases h0 : NU_GET_LSB2BIT addr = 0
      · exact if_pos h0
      · exact (if_neg h0).trans (hisp h0)
    rw [ih (fun h => by rw [hi]; congr 1; omega), hn, show addr_end - (addr + 1) = n by omega,
      shift_setWidth, hi]
    simp only [List.range'_succ, List.map_cons, List.append_assoc, List.cons_append,
      List.nil_append, Prod.mk.injEq]
    exact ⟨rfl, by omega⟩
  | case3 addr isp_rdata buf read_size hlt =>
    rw [show addr_end - addr = 0 by omega]
    simp

/-- `nu_rmc_read` stores the bytes of the range and leaves the state alone. -/
theorem nu_rmc_read_eq (s : State) {addr size : ℕ} (h : addr + size < 2 ^ 32) :
    nu_rmc_read s addr size = (((List.range' addr size).map (bytes s.flash), size), s) := by
  have he : addrEnd addr size = addr + size := Nat.mod_eq_of_lt h
  rw [nu_rmc_read, he, nu_rmc_read_loop_eq]
  · rw [show addr + size - addr = size by omega]
    cases hl : s.regLocked <;> simp [SYS_UnlockReg, SYS_LockReg, ← hl]
  · intro h0
    exact (if_pos h0).trans (RMC_Read_walign _ addr)

/-! ### Write -/

/-- The driver's merge of one byte into a word. -/
theorem putByte_byte (w : BitVec 32) (b : Byte) {k j : ℕ} (hk : k < 4) (hj : j < 4) :
    byteOf (putByte w (k * 8) b) j = if j = k then b else byteOf w j := by
  ext i hi
  have h255 : ∀ n, (255#32).getLsbD n = decide (n < 8) := by
    intro n
    by_cases h : n < 32
    · interval_cases n <;> rfl
    · rw [BitVec.getLsbD_of_ge _ _ (by omega)]
      simp
      omega
  simp only [byteOf, putByte, BitVec.getElem_extractLsb', BitVec.getLsbD_or, BitVec.getLsbD_and,
    BitVec.getLsbD_not, BitVec.getLsbD_shiftLeft, BitVec.getLsbD_setWidth, h255]
  split
  · subst_vars
    simp
    grind
  · simp
    grind

/-- The byte view with the word held in `isp_rdata` put in, when one is held. -/
def pending (f : ℕ → BitVec 32) (addr : ℕ) (isp_rdata : BitVec 32) : ℕ → Byte :=
  if addr % 4 ≠ 0 then bytes (Function.update f (addr / 4) isp_rdata) else bytes f

/-- One byte merged at `addr` is one byte more in the pending view. -/
theorem pending_putByte (f : ℕ → BitVec 32) (addr : ℕ) (isp_rdata : BitVec 32) (b : Byte) :
    bytes (Function.update f (addr / 4)
        (putByte (if addr % 4 = 0 then f (addr / 4) else isp_rdata) (addr % 4 * 8) b)) =
      overlay (pending f addr isp_rdata) addr 1 fun _ => b := by
  funext x
  by_cases hw : x / 4 = addr / 4
  · rw [bytes, hw, Function.update_self, putByte_byte _ _ (by omega) (by omega)]
    by_cases hx : x % 4 = addr % 4
    · rw [if_pos hx, overlay_in (by omega)]
    · rw [if_neg hx, overlay_out (by omega), pending]
      by_cases h0 : addr % 4 = 0
      · rw [if_pos h0, if_neg (by omega), bytes, hw]
      · rw [if_neg h0, if_pos h0, bytes, hw, Function.update_self]
  · rw [bytes, Function.update_of_ne hw, overlay_out (by omega), pending]
    split
    · rw [bytes, Function.update_of_ne hw]
    · rfl

/-- A flash command is a write of a word that meets `[addr, addr + size)`. -/
def WritesIn (addr size : ℕ) (l : List Cmd) : Prop :=
  ∀ c ∈ l, ∃ x, addr ≤ x ∧ x < addr + size ∧ c = .write (x / 4 * 4)

/-- What the write loop has done when it ends: `s` is the state and `addr` the
address it started from, `r` its result. -/
structure WriteLoopDone (buf : ℕ → Byte) (addr_end addr : ℕ) (s : State) (isp_rdata : BitVec 32)
    (write_size : ℕ) (r : State × BitVec 32 × ℕ × ℕ) : Prop where
  view : pending r.1.flash addr_end r.2.1 =
    overlay (pending s.flash addr isp_rdata) addr (addr_end - addr) fun i => buf (write_size + i)
  addr_eq : r.2.2.1 = addr_end
  size_eq : r.2.2.2 = write_size + (addr_end - addr)
  frame : r.1 = { s with flash := r.1.flash, cmds := r.1.cmds }
  writes : ∃ l, r.1.cmds = s.cmds ++ l ∧ WritesIn addr (addr_end - addr) l

theorem nu_rmc_write_loop_done (buf : ℕ → Byte) {addr_end addr : ℕ} {s : State}
    (isp_rdata : BitVec 32) (write_size : ℕ) (hle : addr ≤ addr_end) :
    WriteLoopDone buf addr_end addr s isp_rdata write_size
      (nu_rmc_write_loop buf addr_end addr s isp_rdata write_size) := by
  fun_induction nu_rmc_write_loop buf addr_end addr s isp_rdata write_size with
  | case1 addr s isp_rdata write_size hlt hw ih =>
    -- a whole word
    obtain ⟨h4, h0⟩ := hw
    simp only [NU_GET_LSB2BIT] at h0
    obtain ⟨hv, ha, hs, hf, l, hl, hin⟩ := ih (by omega)
    refine ⟨?_, ha, by omega, hf, .write addr :: l, ?_, ?_⟩
    · rw [hv, pending, if_neg (by omega), bytes_RMC_Write _ _ h0, pending, if_neg (by omega)]
      have hword : overlay (bytes s.flash) addr 4 (byteOf (word fun k => buf (write_size + k)))
          = overlay (bytes s.flash) addr 4 fun i => buf (write_size + i) :=
        overlay_congr fun i hi => byteOf_word _ hi
      rw [hword, overlay_append _ (fun i => buf (write_size + i)) _ _ 4 _
        (fun i => by rw [Nat.add_assoc])]
      congr 1
      omega
    · rw [hl, RMC_Write]
      simp
    · intro c hc
      rcases List.mem_cons.mp hc with rfl | hc
      · exact ⟨addr, le_refl _, by omega, by rw [Nat.div_mul_cancel (Nat.dvd_of_mod_eq_zero h0)]⟩
      · obtain ⟨x, h1, h2, rfl⟩ := hin c hc
        exact ⟨x, by omega, by omega, rfl⟩
  | case2 addr s isp_rdata write_size hlt hw isp1 isp2 s' ih =>
    -- one byte merged into the word in `isp_rdata`
    obtain ⟨hv, ha, hs, hf, l, hl, hin⟩ := ih (by omega)
    have hisp1 : isp1 = if addr % 4 = 0 then s.flash (addr / 4) else isp_rdata := by
      by_cases h0 : addr % 4 = 0
      · rw [if_pos h0]
        exact (if_pos h0).trans (RMC_Read_walign s addr)
      · rw [if_neg h0]
        exact if_neg h0
    have hisp : isp2 = putByte (if addr % 4 = 0 then s.flash (addr / 4) else isp_rdata)
        (addr % 4 * 8) (buf write_size) := by
      simp only [isp2, hisp1, NU_GETBYTE_OFST]
    have hstep : pending s'.flash (addr + 1) isp2 =
        overlay (pending s.flash addr isp_rdata) addr 1 fun _ => buf write_size := by
      rw [← pending_putByte, ← hisp, pending]
      by_cases h3 : NU_GET_LSB2BIT addr = 3
      · have hs' : s' = RMC_Write s (NU_GET_WALIGN addr) isp2 := if_pos h3
        simp only [NU_GET_LSB2BIT] at h3
        rw [if_neg (by omega), hs', RMC_Write, NU_GET_WALIGN, Nat.mul_div_cancel _ (by omega)]
      · have hs' : s' = s := if_neg h3
        simp only [NU_GET_LSB2BIT] at h3
        rw [if_pos (by omega), hs', show (addr + 1) / 4 = addr / 4 by omega]
    have hs' : ∃ l', s'.cmds = s.cmds ++ l' ∧ (∀ c ∈ l', c = .write (addr / 4 * 4)) ∧
        s' = { s with flash := s'.flash, cmds := s'.cmds } := by
      by_cases h3 : NU_GET_LSB2BIT addr = 3
      · have hs' : s' = RMC_Write s (NU_GET_WALIGN addr) isp2 := if_pos h3
        exact ⟨[.write (addr / 4 * 4)], by rw [hs']; rfl, by simp, by rw [hs']; rfl⟩
      · have hs' : s' = s := if_neg h3
        exact ⟨[], by rw [hs']; simp, by simp, by rw [hs']⟩
    obtain ⟨l', hl', hc', hfr⟩ := hs'
    refine ⟨?_, ha, by omega, ?_, l' ++ l, ?_, ?_⟩
    · rw [hv, hstep, show (fun i => buf (write_size + 1 + i)) = fun i => buf (write_size + (1 + i))
        from funext fun i => by rw [Nat.add_assoc]]
      rw [show (fun _ : ℕ => buf write_size) = fun _ => buf (write_size + 0) from rfl]
      have h1 : overlay (pending s.flash addr isp_rdata) addr 1 (fun _ => buf (write_size + 0))
          = overlay (pending s.flash addr isp_rdata) addr 1 fun i => buf (write_size + i) :=
        overlay_congr fun i hi => by rw [show i = 0 by omega]
      rw [h1, overlay_append _ (fun i => buf (write_size + i)) _ _ 1 _ (fun _ => rfl)]
      congr 1
      omega
    · rw [hf, hfr]
    · rw [hl, hl', List.append_assoc]
    · intro c hc
      rcases List.mem_append.mp hc with hc | hc
      · exact ⟨addr, le_refl _, by omega, hc' c hc⟩
      · obtain ⟨x, h1, h2, rfl⟩ := hin c hc
        exact ⟨x, by omega, by omega, rfl⟩
  | case3 addr s isp_rdata write_size hlt =>
    obtain rfl : addr = addr_end := by omega
    exact ⟨by simp, rfl, by simp, rfl, [], by simp, by simp [WritesIn]⟩

/-- What a driver write of `size` bytes at `addr` does; `r` is its result. -/
structure WriteDone (s : State) (addr : ℕ) (buf : ℕ → Byte) (size : ℕ) (r : ℕ × State) : Prop where
  ret : r.1 = size
  view : bytes r.2.flash = overlay (bytes s.flash) addr size buf
  locked : r.2.regLocked = s.regLocked
  disabled : r.2.apuen = false ∧ r.2.lduen = false
  writes : 0 < size → ∃ l, r.2.cmds = s.cmds ++ l ∧ WritesIn addr size l

theorem nu_rmc_write_body_done (s : State) (buf : ℕ → Byte) {r : Region} {addr size : ℕ}
    (h : r.Has addr size) :
    WriteDone s addr buf size (nu_rmc_write_body s addr buf size) := by
  have hisp : pending s.flash addr
      (if NU_GET_LSB2BIT addr ≠ 0 then RMC_Read s (NU_GET_WALIGN addr) else 0) = bytes s.flash := by
    rw [pending]
    by_cases h0 : NU_GET_LSB2BIT addr ≠ 0
    · rw [if_pos h0, RMC_Read_walign, Function.update_eq_self, ite_self]
    · exact if_neg h0
  obtain ⟨hv, ha, hs, hf, l, hl, hin⟩ := nu_rmc_write_loop_done buf (s := s)
    (if NU_GET_LSB2BIT addr ≠ 0 then RMC_Read s (NU_GET_WALIGN addr) else 0) 0
    (Nat.le_add_right addr size)
  rw [hisp, Nat.add_sub_cancel_left] at hv
  rw [Nat.add_sub_cancel_left] at hs hin
  simp only [nu_rmc_write_body, h.addrEnd]
  generalize nu_rmc_write_loop buf (addr + size) addr s
    (if NU_GET_LSB2BIT addr ≠ 0 then RMC_Read s (NU_GET_WALIGN addr) else 0) 0 = res at *
  obtain ⟨s', isp', addr', size'⟩ := res
  simp only at hv ha hs hf hl ⊢
  subst ha
  rw [pending] at hv
  have hlock : s'.regLocked = s.regLocked := by rw [hf]
  -- the word left pending is flushed when the end is not word-aligned
  by_cases h0 : NU_GET_LSB2BIT (addr + size) ≠ 0
  · rw [if_pos h0]
    simp only [NU_GET_LSB2BIT] at h0
    rw [if_pos h0] at hv
    refine ⟨by omega, ?_, hlock, ⟨rfl, rfl⟩, fun hpos =>
      ⟨l ++ [.write (NU_GET_WALIGN (addr + size))], ?_, ?_⟩⟩
    · simp only [RMC_DISABLE_AP_UPDATE, RMC_DISABLE_LD_UPDATE, RMC_Write, NU_GET_WALIGN]
      rw [Nat.mul_div_cancel _ (by omega), hv]
      simp only [Nat.zero_add]
    · simp only [RMC_DISABLE_AP_UPDATE, RMC_DISABLE_LD_UPDATE, RMC_Write]
      rw [hl, List.append_assoc]
    · intro c hc
      rcases List.mem_append.mp hc with hc | hc
      · exact hin c hc
      · obtain rfl : c = _ := List.mem_singleton.mp hc
        refine ⟨addr + size - 1, by omega, by omega, ?_⟩
        rw [NU_GET_WALIGN, show (addr + size - 1) / 4 = (addr + size) / 4 by omega]
  · rw [if_neg h0]
    simp only [NU_GET_LSB2BIT] at h0
    rw [if_neg h0] at hv
    refine ⟨by omega, ?_, hlock, ⟨rfl, rfl⟩, fun _ => ⟨l, hl, hin⟩⟩
    simp only [RMC_DISABLE_AP_UPDATE, RMC_DISABLE_LD_UPDATE]
    rw [hv]
    simp only [Nat.zero_add]

/-- `nu_rmc_write` on a range of a region: one overlay of the byte view. -/
theorem nu_rmc_write_done (s : State) (buf : ℕ → Byte) {r : Region} {addr size : ℕ}
    (h : r.Has addr size) :
    WriteDone s addr buf size (nu_rmc_write s addr buf size) := by
  have hlock : ∀ s' : State, s'.regLocked = false →
      (if s.regLocked = true then SYS_LockReg s' else s').regLocked = s.regLocked := by
    intro s' hs'
    cases hl : s.regLocked
    · rw [if_neg (by simp)]
      exact hs'
    · rfl
  have hfield : ∀ {α : Type} (g : State → α), (∀ s', g (SYS_LockReg s') = g s') → ∀ s' : State,
      g (if s.regLocked = true then SYS_LockReg s' else s') = g s' := by
    intro α g hg s'
    split
    · exact hg s'
    · rfl
  -- both branches run the same body on a state that differs from `s` in control bits only
  have key : ∀ s₀ : State, s₀.flash = s.flash → s₀.cmds = s.cmds → s₀.regLocked = false →
      WriteDone s addr buf size ((nu_rmc_write_body s₀ addr buf size).1,
        if s.regLocked = true then SYS_LockReg (nu_rmc_write_body s₀ addr buf size).2
        else (nu_rmc_write_body s₀ addr buf size).2) := by
    intro s₀ hf hc hl
    obtain ⟨h1, h2, h3, ⟨h4, h5⟩, h6⟩ := nu_rmc_write_body_done s₀ buf h
    refine ⟨h1, ?_, hlock _ (h3.trans hl), ⟨?_, ?_⟩, ?_⟩
    · rw [hfield State.flash fun _ => rfl, h2, hf]
    · rw [hfield State.apuen fun _ => rfl, h4]
    · rw [hfield State.lduen fun _ => rfl, h5]
    · rw [hfield State.cmds fun _ => rfl, ← hc]
      exact h6
  rw [nu_rmc_write]
  obtain ⟨hb, hlt, hle⟩ := h
  cases r with
  | aprom =>
    simp only [Region.stop] at hlt
    simp only [if_pos hlt]
    exact key _ rfl rfl rfl
  | ldrom =>
    have hnot : ¬ addr < RMC_APROM_END := by
      simp only [Region.base, RMC_LDROM_BASE] at hb
      simp only [RMC_APROM_END]
      omega
    simp only [Region.stop] at hlt
    simp only [Region.base] at hb
    simp only [if_neg hnot, if_pos (And.intro hlt hb)]
    exact key _ rfl rfl rfl

/-- **Flash writes are an exact overlay.**  After a write of a range of a region
the driver reads the buffer inside the range and, everywhere else in the two
regions, what it read before. -/
theorem nu_rmc_write_overlay (s : State) (buf : ℕ → Byte) {r r' : Region}
    {addr size addr' size' : ℕ} (h : r.Has addr size) (h' : r'.Has addr' size') :
    (nu_rmc_write s addr buf size).1 = size ∧
      (nu_rmc_read (nu_rmc_write s addr buf size).2 addr' size').1.2 = size' ∧
      ∀ i < size', (nu_rmc_read (nu_rmc_write s addr buf size).2 addr' size').1.1[i]? =
        if addr ≤ addr' + i ∧ addr' + i < addr + size then some (buf (addr' + i - addr))
        else (nu_rmc_read s addr' size').1.1[i]? := by
  obtain ⟨hret, hview, -⟩ := nu_rmc_write_done s buf h
  have hlt : addr' + size' < 2 ^ 32 := by
    have := h'.addrEnd
    rw [Rmc.addrEnd] at this
    omega
  rw [nu_rmc_read_eq _ hlt, nu_rmc_read_eq _ hlt, hview]
  refine ⟨hret, rfl, fun i hi => ?_⟩
  simp only [List.getElem?_map, List.getElem?_range' hi, Option.map_some, Nat.one_mul]
  by_cases hin : addr ≤ addr' + i ∧ addr' + i < addr + size
  · rw [overlay_in hin, if_pos hin]
  · rw [overlay_out hin, if_neg hin]

/-- A write of five bytes inside two neighbouring words. -/
theorem nu_rmc_write_overlay_unaligned :
    (nu_rmc_read (nu_rmc_write (flat 0) 0x1FFE (fun i => BitVec.ofNat 8 (i + 1)) 5).2
        0x1FFD 1).1.1[0]? =
      (nu_rmc_read (flat 0) 0x1FFD 1).1.1[0]? :=
  ((nu_rmc_write_overlay (flat 0) _ (show Region.aprom.Has _ _ from ⟨by decide, by decide, by decide⟩)
    (show Region.aprom.Has _ _ from ⟨by decide, by decide, by decide⟩)).2.2 0 (by decide)).trans
    (if_neg (by decide))

end Rmc
