/-
The true random number generator and its driver.

Writing START begins a generation, which puts a word into `DATA0` and raises DVIF when it
is through; only reading `DATA0` clears DVIF.  A start while a generation is under way
begins another in its place.  Generations are numbered, so that a word is known by the one
it comes from; how long each takes, in register reads, and what it gives is up to the
source.  `MODE` is 00, as `TRNG_Open` leaves it.

Each read of `DATA0` is noted with the generation that was started last and the one that
the status register reported valid.
-/
import Mathlib.Data.BitVec
import NuMaker.Lib.Polling

namespace Trng

def TRNG_CTL_LDOEN_Msk : BitVec 32 := 1 <<< 0
def TRNG_CTL_NRST_Msk : BitVec 32 := 1 <<< 1
def TRNG_CTL_TRNGEN_Msk : BitVec 32 := 1 <<< 2
def TRNG_CTL_START_Msk : BitVec 32 := 1 <<< 3
def TRNG_CTL_INSTANT_Msk : BitVec 32 := 1 <<< 8
def TRNG_CTL_RESEED_Msk : BitVec 32 := 1 <<< 9
def TRNG_CTL_UPDATE_Msk : BitVec 32 := 1 <<< 10
def TRNG_CTL_DVIEN_Msk : BitVec 32 := 1 <<< 31
def TRNG_STS_DVIF_Msk : BitVec 32 := 1 <<< 31

/-! ### The generator -/

/-- The source, and the clocks the driver counts its waits by: the word of each generation,
and after how many reads it is there, if ever. -/
structure Env where
  word : ℕ → BitVec 32
  delay : ℕ → Option ℕ
  SystemCoreClock : ℕ
  HCLKFreq : ℕ

/-- A read of `DATA0`: the generation started for it, the one reported valid since then, and
the one whose word was read. -/
structure Use where
  started : ℕ
  reported : Option ℕ
  gen : ℕ
  deriving DecidableEq, Repr

/-- The registers, with the generation in `DATA0`, the number of generations started and
the reads until the last of them is through. -/
structure Regs where
  CTL : BitVec 32
  DVIF : Bool
  data : ℕ
  started : ℕ
  pending : Option ℕ
  reported : Option ℕ
  uses : List Use
  data_le : data ≤ started

namespace Regs

variable (env : Env) (r : Regs)

/-- The time of one read. -/
def tick : Regs :=
  match r.pending with
  | some 0 => { r with DVIF := true, data := r.started, pending := none, data_le := Nat.le_refl _ }
  | some (n + 1) => { r with pending := some n }
  | none => r

/-- A write of `CTL`; START reads back as 0. -/
def writeCTL (v : BitVec 32) : Regs :=
  let r := { r with CTL := v &&& ~~~TRNG_CTL_START_Msk }
  if v &&& TRNG_CTL_START_Msk ≠ 0 then
    { r with
      started := r.started + 1
      pending := env.delay (r.started + 1)
      reported := none
      data_le := Nat.le_succ_of_le r.data_le }
  else r

/-- A read of `STS` for DVIF. -/
def readDVIF : Bool × Regs :=
  let r := r.tick
  (r.DVIF, { r with reported := if r.DVIF then some r.data else r.reported })

/-- A read of `CTL` for the bits of a mask. -/
def readCTL (mask : BitVec 32) : Bool × Regs :=
  let r := r.tick
  (decide (r.CTL &&& mask ≠ 0), r)

/-- A read of `DATA0`. -/
def readDATA : BitVec 32 × Regs :=
  (env.word r.data, { r with
    DVIF := false
    reported := none
    uses := r.uses ++ [⟨r.started, r.reported, r.data⟩] })

/-- The reset of the module. -/
def reset : Regs := { r with CTL := 0, DVIF := false, pending := none, reported := none }

end Regs

/-! ### The standard driver -/

variable (env : Env)

/-- A wait of `TRNG_Open` for a flag that is there after so many reads. -/
def openWait (after : Option ℕ) : Bool :=
  match after with
  | some n => n < (if env.SystemCoreClock = 0 then 2 ^ 32 else env.SystemCoreClock)
  | none => false

/-- `TRNG_Open`, with the reads until the LDO and the generator are ready. -/
def TRNG_Open (r : Regs) (ldo rdy : Option ℕ) : ℤ × Regs :=
  let r := r.reset.writeCTL env TRNG_CTL_LDOEN_Msk
  if ¬ openWait env ldo then (-1, r)
  else
    let r := r.writeCTL env (TRNG_CTL_TRNGEN_Msk ||| TRNG_CTL_LDOEN_Msk ||| TRNG_CTL_NRST_Msk)
    if ¬ openWait env rdy then (-1, r)
    else
      let r := r.writeCTL env (TRNG_CTL_TRNGEN_Msk ||| TRNG_CTL_LDOEN_Msk ||| TRNG_CTL_NRST_Msk |||
        TRNG_CTL_INSTANT_Msk ||| TRNG_CTL_RESEED_Msk ||| TRNG_CTL_UPDATE_Msk ||| TRNG_CTL_START_Msk)
      let w := poll Regs.readDVIF
        (if env.SystemCoreClock = 0 then 2 ^ 32 else env.SystemCoreClock) r
      (if w.1 then 0 else -1, w.2)

/-- `TRNG_GenWord`: what it returns, and the word it leaves. -/
def TRNG_GenWord (r : Regs) : (ℤ × BitVec 32) × Regs :=
  let r := r.writeCTL env (r.CTL ||| TRNG_CTL_START_Msk)
  let w := poll Regs.readDVIF env.SystemCoreClock r
  if w.1 then
    let d := w.2.readDATA env
    ((0, d.1), d.2)
  else ((-1, 0), w.2)

/-- Getting 32 random bits in `TRNG_GenBignum` and `TRNG_GenBignumHex`: the wait looks at `CTL`. -/
def bignumWord (r : Regs) : Option (BitVec 32) × Regs :=
  let r := r.writeCTL env (r.CTL ||| TRNG_CTL_START_Msk)
  let w := poll (Regs.readCTL · TRNG_STS_DVIF_Msk) (env.HCLKFreq / 100) r
  if w.1 then
    let d := w.2.readDATA env
    (some d.1, d.2)
  else (none, w.2)

/-- The loop of `TRNG_GenBignum` and `TRNG_GenBignumHex`, with `n` bytes to go at `i`, which
`emit` writes from the word shifted to its byte `j`. -/
def bignumLoop (emit : BitVec 32 → List (BitVec 8)) :
    ℕ → ℕ → ℕ → BitVec 32 → Regs → (ℤ × List (BitVec 8)) × Regs
  | 0, _, _, _, r => ((0, []), r)
  | n + 1, i, j, u32Reg, r =>
    if i % 4 = 0 then
      match bignumWord env r with
      | (none, r) => ((-1, []), r)
      | (some u32Reg, r) =>
        let p := bignumLoop emit n (i + 1) 1 u32Reg r
        ((p.1.1, emit (u32Reg >>> (0 * 8)) ++ p.1.2), p.2)
    else
      let p := bignumLoop emit n (i + 1) (j + 1) u32Reg r
      ((p.1.1, emit (u32Reg >>> (j * 8)) ++ p.1.2), p.2)

/-- `i32Len / 8`, compared as unsigned. -/
def byteCount (i32Len : BitVec 32) : ℕ := (i32Len.sdiv 8).toNat

/-- The byte that `TRNG_GenBignum` stores. -/
def emitByte (w : BitVec 32) : List (BitVec 8) := [(w &&& 0xff).setWidth 8]

/-- A hexadecimal digit as a character. -/
def hexDigit (c : BitVec 32) : BitVec 8 :=
  if 0xa ≤ c then (c - 0xa + 0x61).setWidth 8 else (c + 0x30).setWidth 8

/-- The two characters that `TRNG_GenBignumHex` stores. -/
def emitHex (w : BitVec 32) : List (BitVec 8) :=
  [hexDigit ((w &&& 0xf0) >>> 4), hexDigit (w &&& 0x0f)]

/-- `TRNG_GenBignum`: what it returns, and the bytes it has stored. -/
def TRNG_GenBignum (r : Regs) (i32Len : BitVec 32) : (ℤ × List (BitVec 8)) × Regs :=
  bignumLoop env emitByte (byteCount i32Len) 0 0 0 r

/-- `TRNG_GenBignumHex`: what it returns, and the characters it has stored. -/
def TRNG_GenBignumHex (r : Regs) (i32Len : BitVec 32) : (ℤ × List (BitVec 8)) × Regs :=
  bignumLoop env emitHex (byteCount i32Len) 0 0 0 r

/-! ### The device driver -/

/-- `nu_trng_rand`. -/
def nu_trng_rand (r : Regs) : BitVec 32 × Regs :=
  let p := TRNG_GenWord env r
  (p.1.2, p.2)

end Trng
