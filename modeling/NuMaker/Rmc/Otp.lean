/-
The one-time-programmable words: `RMC_ReadOTP`, `RMC_WriteOTP`, `RMC_LockOTP` and
`RMC_IsOTPLocked` over the word operations they are made of.

`RMC_Read` and `RMC_Write` tell a failure by `g_RMC_i32ErrCode`, and `RMC_Write` by its result
too; of the four functions none looks at either to make up its own result, and `RMC_WriteOTP`
takes the error code for its test of the index.

* **`RMC_Write_ok`**, **`RMC_Write_bad`** — the word operations;
* **`Call.truthful_iff`** — the calls whose result can be relied on.
-/
import NuMaker.Rmc.Isp

namespace Rmc.Otp

def RMC_OTP_BASE : BitVec 32 := 0x0F310000

/-- `ISPCMD` with the address and the word. -/
inductive Command
  | READ (ISPADDR : BitVec 32)
  | CLEAR_DATA_BUFFER
  | LOAD_DATA_BUFFER (ISPADDR ISPDAT : BitVec 32)
  | PROGRAM (ISPADDR ISPDAT : BitVec 32)
deriving DecidableEq, Repr

/-- The words, the driver's error code, and the commands so far. -/
structure Dev where
  words : ℕ → BitVec 32
  g_RMC_i32ErrCode : ℤ
  cmds : List Command

/-- The core clock, and what becomes of the commands. -/
structure Env where
  SystemCoreClock : BitVec 32
  replies : ℕ → Reply

variable (E : Env)

/-- Command `k` is done in time and without the fail flag. -/
def Env.Ok (k : ℕ) : Prop := (E.replies k).Done (RMC_TIMEOUT_WRITE E.SystemCoreClock)

instance (k : ℕ) : Decidable (E.Ok k) := inferInstanceAs (Decidable (Reply.Done _ _))

/-- A command, and whether it was done. -/
def Dev.trigger (c : Command) (s : Dev) : Bool × Dev :=
  let r := E.replies s.cmds.length
  let ok := decide (E.Ok s.cmds.length)
  let words := match c with
    | .PROGRAM ISPADDR ISPDAT =>
      Function.update s.words (ISPADDR.toNat / 4)
        (if ok then ISPDAT else r.left (ISPADDR.toNat / 4))
    | _ => s.words
  (ok, { s with cmds := s.cmds ++ [c], words := words })

/-- What a function does where it finds a command not done. -/
def Dev.fail (s : Dev) : Dev := { s with g_RMC_i32ErrCode := -1 }

def RMC_Read (u32Addr : BitVec 32) (s : Dev) : BitVec 32 × Dev :=
  let s := { s with g_RMC_i32ErrCode := 0 }
  let (ok, s) := s.trigger E (.READ u32Addr)
  if ok then (s.words (u32Addr.toNat / 4), s) else (0xFFFFFFFF, s.fail)

def RMC_Write (u32Addr u32Data : BitVec 32) (s : Dev) : ℤ × Dev :=
  let s := { s with g_RMC_i32ErrCode := 0 }
  let (ok, s) := s.trigger E .CLEAR_DATA_BUFFER
  if ok then
    let (ok, s) := s.trigger E (.LOAD_DATA_BUFFER u32Addr u32Data)
    if ok then
      let (ok, s) := s.trigger E (.PROGRAM u32Addr u32Data)
      if ok then (0, s) else (-1, s.fail)
    else (-1, s.fail)
  else (-1, s.fail)

/-- With what is stored in `*low_word` and `*high_word`. -/
def RMC_ReadOTP (otp_num : BitVec 32) (s : Dev) :
    ℤ × (Option (BitVec 32) × Option (BitVec 32)) × Dev :=
  let ret : ℤ := if 255 < otp_num then -2 else 0
  if ret = 0 then
    let (low, s) := RMC_Read E (RMC_OTP_BASE + otp_num * 8) s
    if s.g_RMC_i32ErrCode = 0 then
      let (high, s) := RMC_Read E (RMC_OTP_BASE + otp_num * 8 + 4) s
      (ret, (some low, some high), s)
    else (ret, (some low, none), s)
  else (ret, (none, none), s)

def RMC_LockOTP (otp_num : BitVec 32) (s : Dev) : ℤ × Dev :=
  let ret : ℤ := if 255 < otp_num then -2 else 0
  if ret = 0 then (ret, (RMC_Write E (RMC_OTP_BASE + 0x800 + otp_num * 4) 0 s).2) else (ret, s)

def RMC_IsOTPLocked (otp_num : BitVec 32) (s : Dev) : ℤ × Dev :=
  let ret : ℤ := if 255 < otp_num then -2 else 0
  if ret = 0 then
    let (u32data, s) := RMC_Read E (RMC_OTP_BASE + 0x800 + otp_num * 4) s
    (if u32data ≠ 0xFFFFFFFF then 1 else ret, s)
  else (ret, s)

def RMC_WriteOTP (otp_num low_word high_word : BitVec 32) (s : Dev) : ℤ × Dev :=
  let ret : ℤ := if 255 < otp_num then -2 else 0
  let s := if ret = 0 then (RMC_Write E (RMC_OTP_BASE + otp_num * 8) low_word s).2 else s
  let s := if s.g_RMC_i32ErrCode = 0 then
      (RMC_Write E (RMC_OTP_BASE + otp_num * 8 + 4) high_word s).2
    else s
  (ret, s)

/-! ### The word operations -/

variable {E} {s : Dev} {a v : BitVec 32}

theorem RMC_Read_ok (h : E.Ok s.cmds.length) :
    RMC_Read E a s =
      (s.words (a.toNat / 4), { s with g_RMC_i32ErrCode := 0, cmds := s.cmds ++ [.READ a] }) := by
  simp [RMC_Read, Dev.trigger, h]

/-- The commands of a word written. -/
def writing (a v : BitVec 32) : List Command :=
  [.CLEAR_DATA_BUFFER, .LOAD_DATA_BUFFER a v, .PROGRAM a v]

theorem RMC_Write_ok (h : ∀ i < 3, E.Ok (s.cmds.length + i)) :
    RMC_Write E a v s =
      (0, { s with
        g_RMC_i32ErrCode := 0
        cmds := s.cmds ++ writing a v
        words := Function.update s.words (a.toNat / 4) v }) := by
  have h0 : E.Ok s.cmds.length := h 0 (by decide)
  have h1 : E.Ok (s.cmds.length + 1) := h 1 (by decide)
  have h2 : E.Ok (s.cmds.length + 1 + 1) := h 2 (by decide)
  simp [RMC_Write, Dev.trigger, h0, h1, h2, writing]

theorem RMC_Write_bad (h : ∃ i < 3, ¬ E.Ok (s.cmds.length + i)) :
    (RMC_Write E a v s).1 = -1 ∧ (RMC_Write E a v s).2.g_RMC_i32ErrCode = -1 := by
  by_cases h0 : E.Ok s.cmds.length
  · by_cases h1 : E.Ok (s.cmds.length + 1)
    · -- it must be the third
      have h2 : ¬ E.Ok (s.cmds.length + 1 + 1) := by
        obtain ⟨i, hi, hne⟩ := h
        obtain rfl | rfl | rfl : i = 0 ∨ i = 1 ∨ i = 2 := by omega
        · exact absurd h0 hne
        · exact absurd h1 hne
        · exact hne
      simp [RMC_Write, Dev.trigger, h0, h1, h2, Dev.fail]
    · simp [RMC_Write, Dev.trigger, h0, h1, Dev.fail]
  · simp [RMC_Write, Dev.trigger, h0, Dev.fail]

/-- It always starts with a command. -/
theorem RMC_Write_cmds (E : Env) (a v : BitVec 32) (s : Dev) :
    s.cmds.length < (RMC_Write E a v s).2.cmds.length := by
  by_cases h0 : E.Ok s.cmds.length
  · by_cases h1 : E.Ok (s.cmds.length + 1)
    · by_cases h2 : E.Ok (s.cmds.length + 1 + 1)
      · simp [RMC_Write, Dev.trigger, h0, h1, h2]
      · simp [RMC_Write, Dev.trigger, h0, h1, h2, Dev.fail]
    · simp [RMC_Write, Dev.trigger, h0, h1, Dev.fail]
  · simp [RMC_Write, Dev.trigger, h0, Dev.fail]

/-! ### The four functions -/

/-- A call. -/
inductive Call
  | read (otp_num : BitVec 32)
  | write (otp_num low_word high_word : BitVec 32)
  | lock (otp_num : BitVec 32)
  | isLocked (otp_num : BitVec 32)
deriving DecidableEq, Repr

namespace Call

def otp_num : Call → BitVec 32
  | read n | write n _ _ | lock n | isLocked n => n

/-- The number of commands a call needs. -/
def needs : Call → ℕ
  | read _ => 2
  | write .. => 6
  | lock _ => 3
  | isLocked _ => 1

variable (E)

/-- The result, what is stored, and the state after the call. -/
def run (s : Dev) : Call → ℤ × (Option (BitVec 32) × Option (BitVec 32)) × Dev
  | read n => RMC_ReadOTP E n s
  | write n lo hi => ((RMC_WriteOTP E n lo hi s).1, (none, none), (RMC_WriteOTP E n lo hi s).2)
  | lock n => ((RMC_LockOTP E n s).1, (none, none), (RMC_LockOTP E n s).2)
  | isLocked n => ((RMC_IsOTPLocked E n s).1, (none, none), (RMC_IsOTPLocked E n s).2)

/-- The words a call is about hold, or were read, as its result says. -/
def Told (s : Dev) : Call → Prop
  | read n =>
    (RMC_ReadOTP E n s).2.1 =
      (some (s.words ((RMC_OTP_BASE + n * 8).toNat / 4)),
        some (s.words ((RMC_OTP_BASE + n * 8 + 4).toNat / 4)))
  | write n lo hi =>
    (RMC_WriteOTP E n lo hi s).2.words =
      Function.update (Function.update s.words ((RMC_OTP_BASE + n * 8).toNat / 4) lo)
        ((RMC_OTP_BASE + n * 8 + 4).toNat / 4) hi
  | lock n =>
    (RMC_LockOTP E n s).2.words =
      Function.update s.words ((RMC_OTP_BASE + 0x800 + n * 4).toNat / 4) 0
  | isLocked n =>
    (RMC_IsOTPLocked E n s).1 =
      if s.words ((RMC_OTP_BASE + 0x800 + n * 4).toNat / 4) ≠ 0xFFFFFFFF then 1 else 0

/-- **A result that can be relied on.**  In the range: a result that is not negative only if every
command that is needed was done, and then the words are as it says.  Out of it: a negative one,
and no command. -/
def Truthful (s : Dev) (f : Call) : Prop :=
  if f.otp_num ≤ 255 then
    0 ≤ (f.run E s).1 → (∀ i < f.needs, E.Ok (s.cmds.length + i)) ∧ f.Told E s
  else (f.run E s).1 < 0 ∧ (f.run E s).2.2.cmds = s.cmds

/-- In the range, every command is done.  Out of it, a write finds an error code. -/
def Fits (s : Dev) (f : Call) : Prop :=
  if f.otp_num ≤ 255 then ∀ i < f.needs, E.Ok (s.cmds.length + i)
  else ∀ n lo hi, f = write n lo hi → s.g_RMC_i32ErrCode ≠ 0

variable {E} {f : Call}

/-- The test of the index, as the functions make it. -/
theorem index_ok {n : BitVec 32} (hn : n ≤ 255) : (if 255 < n then (-2 : ℤ) else 0) = 0 :=
  if_neg (BitVec.not_lt.mpr hn)

theorem index_bad {n : BitVec 32} (hn : ¬ n ≤ 255) : (if 255 < n then (-2 : ℤ) else 0) = -2 :=
  if_pos (BitVec.not_le.mp hn)

/-- In the range no result is negative, whatever happens. -/
theorem run_nonneg (hn : f.otp_num ≤ 255) : 0 ≤ (f.run E s).1 := by
  cases f with
  | read n =>
    simp only [run, RMC_ReadOTP, @index_ok n hn, if_true]
    split <;> exact le_refl (0 : ℤ)
  | write n lo hi =>
    simp only [run, RMC_WriteOTP, @index_ok n hn]
    exact le_refl (0 : ℤ)
  | lock n =>
    simp only [run, RMC_LockOTP, @index_ok n hn, if_true]
    exact le_refl (0 : ℤ)
  | isLocked n =>
    simp only [run, RMC_IsOTPLocked, @index_ok n hn, if_true]
    split <;> decide

/-- Where every command is done, the words are as the result says. -/
theorem told (hn : f.otp_num ≤ 255) (hok : ∀ i < f.needs, E.Ok (s.cmds.length + i)) :
    f.Told E s := by
  cases f with
  | read n =>
    have h0 : E.Ok s.cmds.length := hok 0 (Nat.zero_lt_succ _)
    have h1 : E.Ok (s.cmds.length + 1) := hok 1 (show 1 < 2 by decide)
    simp only [Told, RMC_ReadOTP, @index_ok n hn, if_true, RMC_Read_ok h0]
    rw [RMC_Read_ok (by simpa using h1)]
  | write n lo hi =>
    have hlow : ∀ i < 3, E.Ok (s.cmds.length + i) := fun i hi =>
      hok i (Nat.lt_trans hi (show 3 < 6 by decide))
    have hhigh : ∀ i < 3, E.Ok ((s.cmds ++ writing (RMC_OTP_BASE + n * 8) lo).length + i) := by
      intro i hi
      rw [List.length_append, show (writing (RMC_OTP_BASE + n * 8) lo).length = 3 from rfl,
        Nat.add_assoc]
      exact hok (3 + i) (Nat.add_lt_add_left hi 3)
    simp only [Told, RMC_WriteOTP, @index_ok n hn, if_true, RMC_Write_ok hlow]
    rw [RMC_Write_ok hhigh]
  | lock n =>
    have hlow : ∀ i < 3, E.Ok (s.cmds.length + i) := hok
    simp only [Told, RMC_LockOTP, @index_ok n hn, if_true, RMC_Write_ok hlow]
  | isLocked n =>
    have h0 : E.Ok s.cmds.length := hok 0 (Nat.zero_lt_succ _)
    simp only [Told, RMC_IsOTPLocked, @index_ok n hn, if_true, RMC_Read_ok h0]

/-- Out of the range, the result is negative. -/
theorem run_neg (hn : ¬ f.otp_num ≤ 255) : (f.run E s).1 < 0 := by
  have hret : ¬ (-2 : ℤ) = 0 := by decide
  have hneg : (-2 : ℤ) < 0 := by decide
  cases f with
  | read n =>
    simp only [run, RMC_ReadOTP, @index_bad n hn, if_neg hret]
    exact hneg
  | write n lo hi =>
    simp only [run, RMC_WriteOTP, @index_bad n hn]
    exact hneg
  | lock n =>
    simp only [run, RMC_LockOTP, @index_bad n hn, if_neg hret]
    exact hneg
  | isLocked n =>
    simp only [run, RMC_IsOTPLocked, @index_bad n hn, if_neg hret]
    exact hneg

/-- Out of the range, the high word is written all the same unless an error was left behind. -/
theorem run_cmds (hn : ¬ f.otp_num ≤ 255) :
    (f.run E s).2.2.cmds = s.cmds ↔ ∀ n lo hi, f = write n lo hi → s.g_RMC_i32ErrCode ≠ 0 := by
  have hret : ¬ (-2 : ℤ) = 0 := by decide
  cases f with
  | read n =>
    simp only [run, RMC_ReadOTP, @index_bad n hn, if_neg hret]
    exact iff_of_true trivial fun n' lo hi h => by cases h
  | lock n =>
    simp only [run, RMC_LockOTP, @index_bad n hn, if_neg hret]
    exact iff_of_true trivial fun n' lo hi h => by cases h
  | isLocked n =>
    simp only [run, RMC_IsOTPLocked, @index_bad n hn, if_neg hret]
    exact iff_of_true trivial fun n' lo hi h => by cases h
  | write n lo hi =>
    simp only [run, RMC_WriteOTP, @index_bad n hn, if_neg hret]
    constructor
    · intro hcmds n' lo' hi' _ hzero
      rw [if_pos hzero] at hcmds
      have hlt := RMC_Write_cmds E (RMC_OTP_BASE + n * 8 + 4) hi s
      rw [hcmds] at hlt
      exact lt_irrefl _ hlt
    · intro h
      rw [if_neg (h n lo hi rfl)]

/-- **Whose results can be relied on.** -/
theorem truthful_iff (E : Env) (s : Dev) (f : Call) : f.Truthful E s ↔ f.Fits E s := by
  by_cases hn : f.otp_num ≤ 255
  · -- the result is never negative, so a command that fails makes it a wrong one
    rw [Truthful, if_pos hn, Fits, if_pos hn]
    exact ⟨fun h => (h (run_nonneg hn)).1, fun hok _ => ⟨hok, told hn hok⟩⟩
  · rw [Truthful, if_neg hn, Fits, if_neg hn, and_iff_right (run_neg hn)]
    exact run_cmds hn

/-- Every command ends with the fail flag. -/
def refusing : Env := { SystemCoreClock := 72000000, replies := fun _ => ⟨0, true, 0, fun _ => 0⟩ }

/-- The words are unwritten. -/
def blank : Dev := { words := fun _ => 0xFFFFFFFF, g_RMC_i32ErrCode := 0, cmds := [] }

/-- **A word that was not written is reported as written**, and index 256 is written to. -/
theorem write_unreported :
    (RMC_WriteOTP refusing 0 1 2 blank).1 = 0 ∧
      ¬ (write 0 1 2).Truthful refusing blank ∧ ¬ (write 256 1 2).Truthful refusing blank := by
  refine ⟨rfl, fun h => ?_, fun h => ?_⟩
  · have hall := ((if_pos (show (write 0 1 2).otp_num ≤ 255 by decide)).mp h (by decide)).1
    exact absurd (hall 0 (by decide)) (by decide)
  · have hcmds := ((if_neg (show ¬ (write 256 1 2).otp_num ≤ 255 by decide)).mp h).2
    exact absurd hcmds (by decide)

end Call

end Rmc.Otp
