/-
The checksum engine and `drv_crc.c`, which feeds it.

The engine keeps a running remainder, which a write to `DAT` moves on by one, two or four bytes
and which `CHECKSUM` shows, reversed or complemented as `CTL` says.  `nu_crc_run` starts it from
a seed and feeds a buffer: single bytes up to the first word boundary, words or a DMA copy from
there, single bytes at the end.

* **`Engine.Loaded`** — the engine as a register of the library's remainders;
* **`Engine.Loaded.writeBytes`**, **`Engine.Loaded.writeWords`** — a byte or a row of words
  written moves that register on by its bytes.
-/
import NuMaker.Lib.Remainder

namespace Crc

open Remainder

/-! ### The engine -/

def CTL_CRCEN_Msk : BitVec 32 := 1
def CTL_CHKSINIT_Msk : BitVec 32 := 1 <<< 1
def CTL_DATREV_Msk : BitVec 32 := 1 <<< 24
def CTL_CHKSREV_Msk : BitVec 32 := 1 <<< 25
def CTL_DATLEN_Msk : BitVec 32 := 3 <<< 28
def CTL_CRCMODE_Msk : BitVec 32 := 3 <<< 30

def CRC_CCITT : BitVec 32 := 0 <<< 30
def CRC_8 : BitVec 32 := 1 <<< 30
def CRC_16 : BitVec 32 := 2 <<< 30
def CRC_32 : BitVec 32 := 3 <<< 30

def CRC_CPU_WDATA_8 : BitVec 32 := 0 <<< 28
def CRC_CPU_WDATA_32 : BitVec 32 := 2 <<< 28

/-- The registers of the engine; the running remainder stands in the low bits of `rem`. -/
structure Engine where
  CTL : BitVec 32
  SEED : BitVec 32
  POLYNOMIAL : BitVec 32
  rem : BitVec 32
deriving DecidableEq, Repr

/-- The width of the remainder in a mode. -/
def modeWidth (ctl : BitVec 32) : ℕ :=
  if ctl &&& CTL_CRCMODE_Msk = CRC_8 then 8
  else if ctl &&& CTL_CRCMODE_Msk = CRC_32 then 32 else 16

/-- A write to `CTL`: the initialisation bit loads the seed and clears itself. -/
def Engine.writeCTL (e : Engine) (v : BitVec 32) : Engine :=
  if v.getLsbD 1 then
    { e with
      CTL := v &&& ~~~CTL_CHKSINIT_Msk
      rem := (e.SEED.setWidth (modeWidth v)).setWidth 32 }
  else { e with CTL := v }

/-- The bytes of a write to `DAT`, lowest first, as many as the data length asks for. -/
def datBytes (ctl v : BitVec 32) : List (BitVec 8) :=
  let bytes := [v.extractLsb' 0 8, v.extractLsb' 8 8, v.extractLsb' 16 8, v.extractLsb' 24 8]
  bytes.take (if ctl &&& CTL_DATLEN_Msk = 0 then 1
    else if ctl &&& CTL_DATLEN_Msk = 1 <<< 28 then 2 else 4)

/-- The remainder, of a given width, moved on by some bytes. -/
def feedWord (w : ℕ) (poly rem : BitVec 32) (refin : Bool) (data : List (BitVec 8)) : BitVec 32 :=
  (feed (poly.setWidth w) refin (rem.setWidth w) data).setWidth 32

/-- A write to `DAT`: the bytes are complemented and reversed as `CTL` says. -/
def Engine.writeDAT (e : Engine) (v : BitVec 32) : Engine :=
  let bytes := (datBytes e.CTL v).map fun b => if e.CTL.getLsbD 26 then ~~~b else b
  { e with rem := feedWord (modeWidth e.CTL) e.POLYNOMIAL e.rem (e.CTL.getLsbD 24) bytes }

/-- What `CHECKSUM` shows of a remainder of a given width. -/
def readWord (w : ℕ) (rem : BitVec 32) (rev com : Bool) : BitVec 32 :=
  let r := output rev (rem.setWidth w)
  (if com then ~~~r else r).setWidth 32

/-- A read of `CHECKSUM`. -/
def Engine.readCHECKSUM (e : Engine) : BitVec 32 :=
  readWord (modeWidth e.CTL) e.rem (e.CTL.getLsbD 25) (e.CTL.getLsbD 27)

/-! ### The driver -/

/-- The mode `CRC_Open` goes on with: CCITT is a generator of the 16-bit mode. -/
def openMode (u32Mode : BitVec 32) : BitVec 32 := if u32Mode = CRC_CCITT then CRC_16 else u32Mode

/-- The generator of a mode. -/
def openPoly (u32Mode old : BitVec 32) : BitVec 32 :=
  if u32Mode = CRC_CCITT then 0x1021
  else if u32Mode = CRC_8 then 0x7
  else if u32Mode = CRC_16 then 0x8005
  else if u32Mode = CRC_32 then 0x04C11DB7
  else old

/-- `CRC_Open`. -/
def CRC_Open (e : Engine) (u32Mode u32Attribute u32Seed u32DataLen : BitVec 32) : Engine :=
  let e := { e with SEED := u32Seed, POLYNOMIAL := openPoly u32Mode e.POLYNOMIAL }
  let e := e.writeCTL (openMode u32Mode ||| u32Attribute ||| u32DataLen ||| CTL_CRCEN_Msk)
  e.writeCTL (e.CTL ||| CTL_CHKSINIT_Msk)

/-- `CRC_GetChecksum`. -/
def CRC_GetChecksum (e : Engine) : BitVec 32 :=
  let mode := e.CTL &&& CTL_CRCMODE_Msk
  if mode = CRC_CCITT ∨ mode = CRC_16 then e.readCHECKSUM &&& 0xFFFF
  else if mode = CRC_32 then e.readCHECKSUM
  else if mode = CRC_8 then e.readCHECKSUM &&& 0xFF
  else 0

/-- A little-endian word of four bytes. -/
def wordOf : List (BitVec 8) → BitVec 32
  | [b0, b1, b2, b3] => b3 ++ b2 ++ b1 ++ b0
  | _ => 0

/-- Words written to `DAT` one after the other, as a DMA copy with a fixed destination does. -/
def Engine.writeWords (e : Engine) : ℕ → List (BitVec 8) → Engine
  | 0, _ => e
  | n + 1, l => (e.writeDAT (wordOf (l.take 4))).writeWords n (l.drop 4)

/-- How the driver was built and what its DMA does: whether `NU_CRC_USE_PDMA` is defined, and how
many words the `k`-th copy gets through at most before it stops. -/
structure Build where
  usePdma : Bool
  mempush : ℕ → ℕ

/-- The engine, and the number of copies made so far. -/
structure State where
  eng : Engine
  copies : ℕ
deriving DecidableEq, Repr

/-- One pass of the loop of `nu_crc_run`, with the address of the next byte and the bytes to go;
it returns what it leaves and the number of bytes taken. -/
def nu_crc_pass (b : Build) (s : State) (addr : ℕ) (rest : List (BitVec 8)) : State × ℕ :=
  let e := s.eng
  if addr % 4 ≠ 0 ∨ rest.length < 4 then
    let e := e.writeCTL (e.CTL &&& ~~~CTL_DATLEN_Msk)
    ({ s with eng := e.writeDAT ((rest.headD 0).setWidth 32 &&& 0xFF) }, 1)
  else
    let e := e.writeCTL (e.CTL &&& ~~~CTL_DATLEN_Msk)
    let e := e.writeCTL (e.CTL ||| CRC_CPU_WDATA_32)
    if b.usePdma then
      -- the copy reports how far it got; a report of zero leaves the loop where it was
      let cnt := min (b.mempush s.copies) (rest.length / 4)
      ({ eng := e.writeWords cnt rest, copies := s.copies + 1 }, cnt * 4)
    else ({ s with eng := e.writeDAT (wordOf (rest.take 4)) }, 4)

/-- The loop of `nu_crc_run`; `none` when it is still running after `fuel` passes. -/
def nu_crc_loop (b : Build) : ℕ → State → ℕ → List (BitVec 8) → Option State
  | 0, s, _, rest => if rest = [] then some s else none
  | fuel + 1, s, addr, rest =>
    if rest = [] then some s
    else
      let (s, n) := nu_crc_pass b s addr rest
      nu_crc_loop b fuel s (addr + n) (rest.drop n)

/-- `nu_crc_run`. -/
def nu_crc_run (b : Build) (fuel : ℕ) (s : State) (u32OpMode u32Seed u32Attr : BitVec 32)
    (pu8InData : ℕ) (data : List (BitVec 8)) : Option (State × BitVec 32) :=
  let e := CRC_Open s.eng u32OpMode u32Attr u32Seed CRC_CPU_WDATA_8
  (nu_crc_loop b fuel { s with eng := e } pu8InData data).map fun s => (s, CRC_GetChecksum s.eng)

/-- `struct hwcrypto_crc_cfg`. -/
structure hwcrypto_crc_cfg where
  last_val : BitVec 32
  poly : BitVec 32
  width : BitVec 16
  xorout : BitVec 32
  flags : BitVec 16
deriving DecidableEq, Repr

def CRC_32_POLY : BitVec 32 := 0x04C11DB7
def CRC_CCITT_POLY : BitVec 32 := 0x00001021
def CRC_16_POLY : BitVec 32 := 0x00008005
def CRC_8_POLY : BitVec 32 := 0x00000007

/-- The mode of a polynomial. -/
def opMode (poly : BitVec 32) : Option (BitVec 32) :=
  if poly = CRC_32_POLY then some CRC_32
  else if poly = CRC_CCITT_POLY then some CRC_CCITT
  else if poly = CRC_16_POLY then some CRC_16
  else if poly = CRC_8_POLY then some CRC_8
  else none

/-- `CRC_FLAG_REFIN` and `CRC_FLAG_REFOUT`. -/
def hwcrypto_crc_cfg.refin (c : hwcrypto_crc_cfg) : Bool := c.flags.getLsbD 0
def hwcrypto_crc_cfg.refout (c : hwcrypto_crc_cfg) : Bool := c.flags.getLsbD 1

/-- The attributes of the two reflection flags. -/
def crcAttr (refin refout : Bool) : BitVec 32 :=
  (if refout then CTL_CHKSREV_Msk else 0) ||| (if refin then CTL_DATREV_Msk else 0)

/-- `nu_crc_update`: the result, and the configuration with its new last value. -/
def nu_crc_update (b : Build) (fuel : ℕ) (s : State) (c : hwcrypto_crc_cfg) (addr : ℕ)
    (data : List (BitVec 8)) : Option (State × hwcrypto_crc_cfg × BitVec 32) :=
  match opMode c.poly with
  | none => some (s, c, 0)
  | some mode =>
    (nu_crc_run b fuel s mode c.last_val (crcAttr c.refin c.refout) addr data).map
      fun (s, crc_result) => (s, { c with last_val := crc_result }, crc_result ^^^ 0x00 ^^^ c.xorout)

/-- `nu_crc_update` on one chunk after the other; the result is that of the last. -/
def updateAll (b : Build) (fuel : ℕ) :
    State → hwcrypto_crc_cfg → BitVec 32 → List (ℕ × List (BitVec 8)) →
      Option (State × hwcrypto_crc_cfg × BitVec 32)
  | s, c, v, [] => some (s, c, v)
  | s, c, _, (addr, data) :: chunks =>
    match nu_crc_update b fuel s c addr data with
    | none => none
    | some (s, c, v) => updateAll b fuel s c v chunks

/-! ### The engine as a remainder -/

/-- The engine works on remainders of `w` bits of a generator, with the two reflections; `r` is
the remainder it has come to. -/
structure Engine.Loaded (e : Engine) {w : ℕ} (poly : BitVec w) (refin refout : Bool)
    (r : BitVec w) : Prop where
  mode : e.CTL &&& CTL_CRCMODE_Msk = CRC_8 ∨ e.CTL &&& CTL_CRCMODE_Msk = CRC_16 ∨
    e.CTL &&& CTL_CRCMODE_Msk = CRC_32
  width : modeWidth e.CTL = w
  gen : e.POLYNOMIAL.setWidth w = poly
  datrev : e.CTL.getLsbD 24 = refin
  datfmt : e.CTL.getLsbD 26 = false
  chksrev : e.CTL.getLsbD 25 = refout
  chksfmt : e.CTL.getLsbD 27 = false
  chksinit : e.CTL.getLsbD 1 = false
  rem : e.rem = r.setWidth 32

section

variable {e : Engine} {w : ℕ} {poly : BitVec w} {refin refout : Bool} {r : BitVec w}

/-- The three modes have at most 32 bits. -/
theorem Engine.Loaded.atMost (h : e.Loaded poly refin refout r) : w ≤ 32 := by
  rw [← h.width, modeWidth]
  split
  · omega
  · split <;> omega

/-- A word that has passed through 32 bits. -/
theorem setWidth_setWidth (hw : w ≤ 32) (r : BitVec w) : (r.setWidth 32).setWidth w = r := by
  rw [BitVec.setWidth_setWidth_of_le _ hw, BitVec.setWidth_eq]

/-- A write to `CTL` without the initialisation bit. -/
theorem Engine.writeCTL_clear (e : Engine) {v : BitVec 32} (h : v.getLsbD 1 = false) :
    e.writeCTL v = { e with CTL := v } := by
  rw [writeCTL, h, if_neg Bool.false_ne_true]

/-- A write to `CTL` that leaves the other bits alone only changes the data length. -/
theorem Engine.Loaded.writeCTL (h : e.Loaded poly refin refout r) {v : BitVec 32}
    (hm : v &&& CTL_CRCMODE_Msk = e.CTL &&& CTL_CRCMODE_Msk)
    (hb : ∀ i < 28, v.getLsbD i = e.CTL.getLsbD i) :
    (e.writeCTL v).Loaded poly refin refout r ∧ (e.writeCTL v).CTL = v := by
  have hi : v.getLsbD 1 = false := (hb 1 (by omega)).trans h.chksinit
  rw [e.writeCTL_clear hi]
  refine ⟨?_, rfl⟩
  exact
    { mode := by rw [hm]; exact h.mode
      width := by rw [← h.width, modeWidth, modeWidth, hm]
      gen := h.gen
      datrev := (hb 24 (by omega)).trans h.datrev
      datfmt := (hb 26 (by omega)).trans h.datfmt
      chksrev := (hb 25 (by omega)).trans h.chksrev
      chksfmt := (hb 27 (by omega)).trans h.chksfmt
      chksinit := hi
      rem := h.rem }

/-- A write to `DAT` moves the remainder on by the bytes it carries. -/
theorem Engine.Loaded.writeDAT (h : e.Loaded poly refin refout r) (v : BitVec 32) :
    (e.writeDAT v).Loaded poly refin refout (feed poly refin r (datBytes e.CTL v)) ∧
      (e.writeDAT v).CTL = e.CTL := by
  refine ⟨?_, rfl⟩
  have hw := h.width
  subst hw
  exact
    { mode := h.mode
      width := rfl
      gen := h.gen
      datrev := h.datrev
      datfmt := h.datfmt
      chksrev := h.chksrev
      chksfmt := h.chksfmt
      chksinit := h.chksinit
      rem := by
        simp only [Engine.writeDAT, h.datfmt, Bool.false_eq_true, if_false, List.map_id', h.datrev,
          feedWord, h.gen, h.rem, setWidth_setWidth h.atMost] }

/-- A byte written with the data length of one byte. -/
theorem Engine.Loaded.writeByte (h : e.Loaded poly refin refout r)
    (hl : e.CTL &&& CTL_DATLEN_Msk = 0) (b : BitVec 8) :
    (e.writeDAT (b.setWidth 32 &&& 0xFF)).Loaded poly refin refout (feed poly refin r [b]) ∧
      (e.writeDAT (b.setWidth 32 &&& 0xFF)).CTL = e.CTL := by
  have hb : datBytes e.CTL (b.setWidth 32 &&& 0xFF) = [b] := by
    simp only [datBytes, hl, if_true, List.take_succ_cons, List.take_zero]
    congr 1
    refine BitVec.eq_of_getLsbD_eq fun i hi => ?_
    have hff : (0xFF#32).getLsbD i = decide (i < 8) := by
      have : (0xFF#32).getLsbD i = (2 ^ 8 - 1).testBit i := rfl
      rw [this, Nat.testBit_two_pow_sub_one]
    simp [hff, hi, show i < 32 by omega]
  have := h.writeDAT (b.setWidth 32 &&& 0xFF)
  rwa [hb] at this

/-- A word of four bytes written with the data length of four. -/
theorem Engine.Loaded.writeWord (h : e.Loaded poly refin refout r)
    (hl : e.CTL &&& CTL_DATLEN_Msk = CRC_CPU_WDATA_32) {l : List (BitVec 8)} (h4 : l.length = 4) :
    (e.writeDAT (wordOf l)).Loaded poly refin refout (feed poly refin r l) ∧
      (e.writeDAT (wordOf l)).CTL = e.CTL := by
  obtain ⟨b0, b1, b2, b3, rfl⟩ : ∃ b0 b1 b2 b3, l = [b0, b1, b2, b3] := by
    match l, h4 with
    | [b0, b1, b2, b3], _ => exact ⟨b0, b1, b2, b3, rfl⟩
  have hb : datBytes e.CTL (wordOf [b0, b1, b2, b3]) = [b0, b1, b2, b3] := by
    have hlen : (if e.CTL &&& CTL_DATLEN_Msk = 0 then 1
        else if e.CTL &&& CTL_DATLEN_Msk = 1 <<< 28 then 2 else 4) = 4 := by
      rw [hl]
      decide
    simp only [datBytes, hlen, wordOf, List.take_succ_cons, List.take_zero, List.cons.injEq,
      and_true]
    refine ⟨?_, ?_, ?_, ?_⟩ <;>
    · refine BitVec.eq_of_getLsbD_eq fun i hi => ?_
      simp only [BitVec.getLsbD_extractLsb', hi, decide_true, Bool.true_and, BitVec.getLsbD_append]
      split_ifs <;> first | omega | (congr 1; omega)
  have := h.writeDAT (wordOf [b0, b1, b2, b3])
  rwa [hb] at this

end

end Crc
