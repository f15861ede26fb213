/-
The RRAM memory controller as the flash driver sees it.

A flash word is a 32-bit value kept under its word number; `RMC_Read` and
`RMC_Write` get and assign one word, `RMC_Erase` fills one page with ones,
512 bytes per program command.  `bytes` is the byte view of the word store;
the lemmas here say what each command does to it:

* `bytes_RMC_Write` — a word write overlays four bytes;
* `RMC_Erase_loop_ok` — the program loop, when it succeeds, overlays ones;
* `RMC_Erase_loop_frame` — in any case it writes nothing outside its blocks;
* `RMC_Erase_page` — on a page of a region the parameter checks pass.

The registers of the controller that the driver touches (the write protection
of the system registers, the two update enables) are kept beside the store,
and `cmds` records the commands that change the flash, in order.
-/
import NuMaker.Lib.Overlay

namespace Rmc

/-! ### Memory map -/

def RMC_APROM_BASE : ℕ := 0x00000000
def RMC_APROM_END : ℕ := 0x00080000
def RMC_LDROM_BASE : ℕ := 0x0F100000
def RMC_LDROM_END : ℕ := 0x0F102000
def RMC_FLASH_PAGE_SIZE : ℕ := 0x1000
def RMC_MULTI_WORD_PROG_MAX_LEN : ℕ := 512

/-- The two regions a driver address can lie in. -/
inductive Region
  | aprom
  | ldrom
  deriving DecidableEq, Repr

def Region.base : Region → ℕ
  | .aprom => RMC_APROM_BASE
  | .ldrom => RMC_LDROM_BASE

def Region.stop : Region → ℕ
  | .aprom => RMC_APROM_END
  | .ldrom => RMC_LDROM_END

/-- The bytes `[addr, addr + size)` lie in the region `r`, as does `addr` itself. -/
structure Region.Has (r : Region) (addr size : ℕ) : Prop where
  base_le : r.base ≤ addr
  lt_stop : addr < r.stop
  le_stop : addr + size ≤ r.stop

/-! ### State and commands -/

abbrev Byte := BitVec 8

/-- A command that changes the flash. -/
inductive Cmd
  | write (addr : ℕ)
  | erase (addr : ℕ)
  deriving DecidableEq, Repr

/-- The page a command works on. -/
def Cmd.page : Cmd → ℕ
  | .write a => a / RMC_FLASH_PAGE_SIZE
  | .erase a => a / RMC_FLASH_PAGE_SIZE

structure State where
  /-- Flash words by word number. -/
  flash : ℕ → BitVec 32
  cmds : List Cmd
  /-- `SYS_IsRegLocked()`. -/
  regLocked : Bool
  /-- `ISPCTL.APUEN` and `ISPCTL.LDUEN`. -/
  apuen : Bool
  lduen : Bool

def SYS_UnlockReg (s : State) : State := { s with regLocked := false }
def SYS_LockReg (s : State) : State := { s with regLocked := true }
def RMC_ENABLE_AP_UPDATE (s : State) : State := { s with apuen := true }
def RMC_ENABLE_LD_UPDATE (s : State) : State := { s with lduen := true }
def RMC_DISABLE_AP_UPDATE (s : State) : State := { s with apuen := false }
def RMC_DISABLE_LD_UPDATE (s : State) : State := { s with lduen := false }

/-- `RMC_Read`: the word at a word-aligned address. -/
def RMC_Read (s : State) (u32Addr : ℕ) : BitVec 32 := s.flash (u32Addr / 4)

/-- `RMC_Write`: assign the word at a word-aligned address. -/
def RMC_Write (s : State) (u32Addr : ℕ) (u32Data : BitVec 32) : State :=
  { s with
    flash := Function.update s.flash (u32Addr / 4) u32Data
    cmds := s.cmds ++ [.write u32Addr] }

/-- What the controller answers to the program command of a 512-byte block:
`none` when it succeeds, `some g` when it fails and leaves the words `g`. -/
abbrev Isp := ℕ → Option (ℕ → BitVec 32)

/-- The words of the 512-byte block at `u32Addr` replaced by those of `g`. -/
def fillBlock (f : ℕ → BitVec 32) (u32Addr : ℕ) (g : ℕ → BitVec 32) : ℕ → BitVec 32 :=
  fun w => if u32Addr / 4 ≤ w ∧ w < (u32Addr + RMC_MULTI_WORD_PROG_MAX_LEN) / 4 then g w else f w

/-- The program loop of `RMC_Erase` over the `n` blocks from `u32Addr` on. -/
def RMC_Erase_loop (isp : Isp) : ℕ → ℕ → (ℕ → BitVec 32) → ℤ × (ℕ → BitVec 32)
  | 0, _, f => (0, f)
  | n + 1, u32Addr, f =>
    match isp u32Addr with
    | none =>
      RMC_Erase_loop isp n (u32Addr + RMC_MULTI_WORD_PROG_MAX_LEN)
        (fillBlock f u32Addr fun _ => 0xFFFFFFFF#32)
    | some g => (-1, fillBlock f u32Addr g)

/-- `RMC_Erase`: parameter checks, then the page in blocks. -/
def RMC_Erase (isp : Isp) (s : State) (u32PageAddr : ℕ) : ℤ × State :=
  if u32PageAddr % 256 ≠ 0 then (-2, s)
  else if u32PageAddr < RMC_APROM_END ∧ u32PageAddr + RMC_FLASH_PAGE_SIZE > RMC_APROM_END then
    (-2, s)
  else if ¬ u32PageAddr < RMC_APROM_END ∧
      ¬ (RMC_LDROM_BASE ≤ u32PageAddr ∧ u32PageAddr < RMC_LDROM_END) then (-2, s)
  else if ¬ u32PageAddr < RMC_APROM_END ∧
      u32PageAddr + RMC_FLASH_PAGE_SIZE > RMC_LDROM_END then (-2, s)
  else
    let r := RMC_Erase_loop isp (RMC_FLASH_PAGE_SIZE / RMC_MULTI_WORD_PROG_MAX_LEN) u32PageAddr
      s.flash
    (r.1, { s with flash := r.2, cmds := s.cmds ++ [.erase u32PageAddr] })

/-! ### The byte view -/

/-- Byte `k` of a word, the lowest first. -/
def byteOf (w : BitVec 32) (k : ℕ) : Byte := w.extractLsb' (8 * k) 8

/-- The byte at an address. -/
def bytes (f : ℕ → BitVec 32) (a : ℕ) : Byte := byteOf (f (a / 4)) (a % 4)

/-- The word made of four bytes, the lowest first. -/
def word (b : ℕ → Byte) : BitVec 32 := b 3 ++ b 2 ++ b 1 ++ b 0

theorem byteOf_word (b : ℕ → Byte) {k : ℕ} (hk : k < 4) : byteOf (word b) k = b k := by
  ext i hi
  simp only [byteOf, word, BitVec.getElem_extractLsb', BitVec.getLsbD_append]
  interval_cases k <;> grind

theorem byteOf_ones {k : ℕ} (hk : k < 4) : byteOf 0xFFFFFFFF#32 k = 0xFF#8 := by
  interval_cases k <;> rfl

/-- A word assignment overlays the four bytes of the word. -/
theorem bytes_update (f : ℕ → BitVec 32) (w : BitVec 32) {a : ℕ} (ha : a % 4 = 0) :
    bytes (Function.update f (a / 4) w) = overlay (bytes f) a 4 (byteOf w) := by
  funext x
  by_cases hx : a ≤ x ∧ x < a + 4
  · rw [overlay_in hx, bytes, show x / 4 = a / 4 by omega, Function.update_self]
    congr 1
    omega
  · rw [overlay_out hx, bytes, Function.update_of_ne (by omega), bytes]

theorem bytes_RMC_Write (s : State) (w : BitVec 32) {a : ℕ} (ha : a % 4 = 0) :
    bytes (RMC_Write s a w).flash = overlay (bytes s.flash) a 4 (byteOf w) :=
  bytes_update s.flash w ha

/-- A state all of whose bytes are `b`. -/
def flat (b : Byte) : State := ⟨fun _ => word fun _ => b, [], false, false, false⟩

theorem bytes_flat (b : Byte) (x : ℕ) : bytes (flat b).flash x = b := by
  have h : x % 4 < 4 := Nat.mod_lt _ (by decide)
  exact byteOf_word (fun _ => b) h

/-! ### Page erase -/

theorem bytes_fillBlock (f g : ℕ → BitVec 32) {a : ℕ} (ha : a % 512 = 0) :
    bytes (fillBlock f a g) = overlay (bytes f) a 512 (fun i => bytes g (a + i)) := by
  funext x
  have hw : a / 4 ≤ x / 4 ∧ x / 4 < (a + 512) / 4 ↔ a ≤ x ∧ x < a + 512 := by omega
  by_cases hx : a ≤ x ∧ x < a + 512
  · rw [overlay_in hx, bytes, fillBlock, RMC_MULTI_WORD_PROG_MAX_LEN, if_pos (hw.mpr hx), bytes,
      show a + (x - a) = x by omega]
  · rw [overlay_out hx, bytes, fillBlock, RMC_MULTI_WORD_PROG_MAX_LEN, if_neg (mt hw.mp hx), bytes]

/-- The program loop writes nothing outside its blocks. -/
theorem RMC_Erase_loop_frame (isp : Isp) {x : ℕ} : ∀ {n a : ℕ} {f : ℕ → BitVec 32},
    a % 512 = 0 → (x < a ∨ a + 512 * n ≤ x) →
    bytes (RMC_Erase_loop isp n a f).2 x = bytes f x := by
  intro n
  induction n with
  | zero =>
    intro a f _ _
    rfl
  | succ n ih =>
    intro a f ha hx
    have ha' : (a + 512) % 512 = 0 := by rwa [Nat.add_mod_right]
    have hx0 : ¬ (a ≤ x ∧ x < a + 512) := by omega
    have hx' : x < a + 512 ∨ a + 512 + 512 * n ≤ x := by omega
    rw [RMC_Erase_loop]
    cases hi : isp a with
    | none =>
      simp only [RMC_MULTI_WORD_PROG_MAX_LEN]
      rw [ih ha' hx', bytes_fillBlock _ _ ha, overlay_out hx0]
    | some g =>
      simp only
      rw [bytes_fillBlock _ _ ha, overlay_out hx0]

/-- When every block succeeds the blocks read as ones. -/
theorem RMC_Erase_loop_ok (isp : Isp) : ∀ {n a : ℕ} {f : ℕ → BitVec 32}, a % 512 = 0 →
    (∀ k < n, isp (a + 512 * k) = none) →
    (RMC_Erase_loop isp n a f).1 = 0 ∧
      bytes (RMC_Erase_loop isp n a f).2 = overlay (bytes f) a (512 * n) fun _ => 0xFF#8 := by
  intro n
  induction n with
  | zero =>
    intro a f _ _
    exact ⟨rfl, (overlay_zero _ _ _).symm⟩
  | succ n ih =>
    intro a f ha hk
    have h0 : isp a = none := by simpa using hk 0 (Nat.succ_pos n)
    obtain ⟨h1, h2⟩ := ih (a := a + 512) (f := fillBlock f a fun _ => 0xFFFFFFFF#32) (by omega)
      fun k hkn => by
        rw [show a + 512 + 512 * k = a + 512 * (k + 1) by ring]
        exact hk (k + 1) (by omega)
    rw [RMC_Erase_loop, h0]
    refine ⟨h1, ?_⟩
    simp only [RMC_MULTI_WORD_PROG_MAX_LEN]
    rw [h2, bytes_fillBlock _ _ ha]
    have hones : overlay (bytes f) a 512 (fun i => bytes (fun _ => 0xFFFFFFFF#32) (a + i))
        = overlay (bytes f) a 512 fun _ => 0xFF#8 :=
      overlay_congr fun i _ => byteOf_ones (Nat.mod_lt _ (by omega))
    rw [hones, overlay_append (bytes f) (fun _ => 0xFF#8) _ a 512 (512 * n) (fun _ => rfl)]
    congr 1
    ring

/-- A page of one of the two regions. -/
structure IsPage (p : ℕ) : Prop where
  aligned : p % RMC_FLASH_PAGE_SIZE = 0
  inside : p < RMC_APROM_END ∨ RMC_LDROM_BASE ≤ p ∧ p < RMC_LDROM_END

/-- On a page of a region the parameter checks of `RMC_Erase` pass. -/
theorem RMC_Erase_page (isp : Isp) (s : State) {p : ℕ} (hp : IsPage p) :
    RMC_Erase isp s p =
      ((RMC_Erase_loop isp 8 p s.flash).1,
        { s with flash := (RMC_Erase_loop isp 8 p s.flash).2, cmds := s.cmds ++ [.erase p] }) := by
  obtain ⟨h1, h2⟩ := hp
  simp only [RMC_FLASH_PAGE_SIZE, RMC_APROM_END, RMC_LDROM_BASE, RMC_LDROM_END] at h1 h2
  rw [RMC_Erase, if_neg (by omega),
    if_neg (by simp only [RMC_APROM_END, RMC_FLASH_PAGE_SIZE]; omega),
    if_neg (by simp only [RMC_APROM_END, RMC_LDROM_BASE, RMC_LDROM_END]; omega),
    if_neg (by simp only [RMC_APROM_END, RMC_FLASH_PAGE_SIZE, RMC_LDROM_END]; omega)]
  rfl

end Rmc
