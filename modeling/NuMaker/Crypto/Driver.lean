/-
The AES part of the crypto driver.

* **`nu_aes_crypt_run`** — one run of the engine over a buffer;
* **`nu_aes_crypt`** — a call of the driver: its checks, bounce buffers for what the engine cannot
  reach, and the chaining value that it leaves in the context.

A call is given what the world decides: the memory, what `rt_malloc` returns and what the engine
does.  Its result has the accesses that were made to buffers of the length that was given.
-/
import NuMaker.Lib.Cipher
import Mathlib.Data.BitVec
import Mathlib.Data.Int.Init

namespace Crypto

/-! ### Memory -/

abbrev Mem := BitVec 32 → BitVec 8

/-- The bytes from an address on. -/
def read (mem : Mem) (a : BitVec 32) : ℕ → BitVec 8 := fun i => mem (a + BitVec.ofNat 32 i)

/-- `n` bytes at an address. -/
def write (mem : Mem) (a : BitVec 32) (n : ℕ) (bytes : ℕ → BitVec 8) : Mem := fun x =>
  if (x - a).toNat < n then bytes (x - a).toNat else mem x

/-- The size of a block in bytes is 16. -/
abbrev Block := Fin 16 → BitVec 8

def toBlock (bytes : ℕ → BitVec 8) : Block := fun i => bytes i

/-! ### The engine -/

/-- What the engine is programmed with: `AES_Open`, `AES_SetKey`, `AES_SetInitVect` and
`AES_SetDMATransfer`, with the bytes at the source address. -/
structure Request where
  u32EncDec : Bool
  u32OpMode : Cipher.Mode
  u32KeySize : ℕ
  AES_KEY : List (BitVec 32)
  AES_IV : List (BitVec 32)
  AES_CNT : BitVec 32
  bytes : ℕ → BitVec 8

/-- The engine on one occasion: what it makes of what it is programmed with, whether it says that it
is done, and whether it says that it failed. -/
structure CRPT_T where
  crypt : Request → ℕ → BitVec 8
  AESIF : Bool
  AESEIF : Bool

def nu_get32_be (pos : ℕ → BitVec 8) (i : ℕ) : BitVec 32 :=
  let val := (pos i).setWidth 32
  let val := val <<< 8 + (pos (i + 1)).setWidth 32
  let val := val <<< 8 + (pos (i + 2)).setWidth 32
  val <<< 8 + (pos (i + 3)).setWidth 32

def AES_KEY_SIZE_128 : ℕ := 0
def AES_KEY_SIZE_192 : ℕ := 1
def AES_KEY_SIZE_256 : ℕ := 2

/-- `au32SwapKey`, as far as the engine is given it. -/
def au32SwapKey (key : ℕ → BitVec 8) (u32KeySize : ℕ) : List (BitVec 32) :=
  (List.range (4 + u32KeySize * 2)).map fun i => nu_get32_be key (4 * i)

/-- A block as memory. -/
def ofBlock (b : Block) (i : ℕ) : BitVec 8 := b ⟨i % 16, Nat.mod_lt i (Nat.succ_pos 15)⟩

def au32SwapIV (iv : Block) : List (BitVec 32) := (List.range 4).map fun i => nu_get32_be (ofBlock iv) (4 * i)

/-- The memory with what the engine wrote; `none` where the wait for the engine does not end.  An
error that it shows is printed, and no more. -/
def nu_aes_crypt_run (CRPT : CRPT_T) (mem : Mem) (bEncrypt : Bool) (u32OpMode : Cipher.Mode)
    (pu8Key : ℕ → BitVec 8) (u32KeySize : ℕ) (pu8IV : Block)
    (pu8InData pu8OutData u32DataLen : BitVec 32) : Option Mem :=
  let request : Request :=
    { u32EncDec := bEncrypt
      u32OpMode := u32OpMode
      u32KeySize := u32KeySize
      AES_KEY := au32SwapKey pu8Key u32KeySize
      AES_IV := au32SwapIV pu8IV
      AES_CNT := u32DataLen
      bytes := read mem pu8InData }
  if CRPT.AESIF then some (write mem pu8OutData u32DataLen.toNat (CRPT.crypt request)) else none

/-! ### The driver -/

/-- The types of context that there are for AES, and the others. -/
inductive HwcryptoType
  | AES (sub : Cipher.Mode)
  | other
  deriving DecidableEq

structure hwcrypto_symmetric where
  type : HwcryptoType
  key_bitlen : ℕ
  key : ℕ → BitVec 8
  iv : Block

structure hwcrypto_symmetric_info where
  encrypt : Bool
  data_in : BitVec 32
  data_out : BitVec 32
  length : BitVec 32

def RT_EOK : ℤ := 0
def RT_ERROR : ℤ := 1
def RT_ENOMEM : ℤ := 5
def RT_EINVAL : ℤ := 10

def SRAM_BASE : BitVec 32 := 0x20000000
def SRAM_END : BitVec 32 := 0x20000000 + 168 * 1024

/-- Not aligned, or out of the SRAM. -/
def misplaced (a : BitVec 32) : Bool := a % 4 ≠ 0 ∨ a < SRAM_BASE ∨ a > SRAM_END

def u32AESKeySize (key_bitlen : ℕ) : Option ℕ :=
  if key_bitlen = 128 then some AES_KEY_SIZE_128
  else if key_bitlen = 192 then some AES_KEY_SIZE_192
  else if key_bitlen = 256 then some AES_KEY_SIZE_256
  else none

/-- The end of a call: what it returns, if it does, the context and the memory, and the accesses, each
with its offset in a buffer of the given length and its number of bytes. -/
structure Outcome where
  ret : Option ℤ
  ctx : hwcrypto_symmetric
  mem : Mem
  accesses : List (ℕ × ℕ)

/-- Where the chaining value of CBC is looked for. -/
def lastBlock (length : BitVec 32) : BitVec 32 := (length - 1) / 16 * 16

/-- What follows once the buffers of the engine are known; `log` has what was accessed before. -/
def crypt_buffers (CRPT : CRPT_T) (mem : Mem) (symmetric_ctx : hwcrypto_symmetric)
    (symmetric_info : hwcrypto_symmetric_info) (u32AESOpMode : Cipher.Mode) (u32KeySize : ℕ)
    (data_in data_out : BitVec 32) (log : List (ℕ × ℕ)) : Outcome :=
  let len := symmetric_info.length.toNat
  let last := lastBlock symmetric_info.length
  let cbc := decide (u32AESOpMode = .CBC)
  -- saved first, as the output may replace the input
  let iv_temp := toBlock (read mem (data_in + last))
  let log := log ++ if cbc && !symmetric_info.encrypt then [(last.toNat, 16)] else []
  let log := log ++ [(0, len), (0, len)]
  match nu_aes_crypt_run CRPT mem symmetric_info.encrypt u32AESOpMode symmetric_ctx.key u32KeySize
      symmetric_ctx.iv data_in data_out symmetric_info.length with
  | none => ⟨none, symmetric_ctx, mem, log⟩
  | some mem =>
    let iv :=
      if cbc then
        if symmetric_info.encrypt then toBlock (read mem (data_out + last)) else iv_temp
      else symmetric_ctx.iv
    let log := log ++ if cbc && symmetric_info.encrypt then [(last.toNat, 16)] else []
    let symmetric_ctx := { symmetric_ctx with iv := iv }
    if misplaced symmetric_info.data_out then
      ⟨some RT_EOK, symmetric_ctx,
        write mem symmetric_info.data_out len (read mem data_out), log ++ [(0, len), (0, len)]⟩
    else ⟨some RT_EOK, symmetric_ctx, mem, log⟩

/-- `malloc_in` and `malloc_out` are what `rt_malloc` returns for the bounce buffers. -/
def nu_aes_crypt (CRPT : CRPT_T) (mem : Mem) (malloc_in malloc_out : Option (BitVec 32))
    (symmetric_ctx : hwcrypto_symmetric) (symmetric_info : hwcrypto_symmetric_info) : Outcome :=
  let len := symmetric_info.length.toNat
  if symmetric_info.length % 4 ≠ 0 then ⟨some (-RT_EINVAL), symmetric_ctx, mem, []⟩
  else
    match u32AESKeySize symmetric_ctx.key_bitlen with
    | none => ⟨some (-RT_EINVAL), symmetric_ctx, mem, []⟩
    | some u32KeySize =>
      match symmetric_ctx.type with
      | .other => ⟨some (-RT_ERROR), symmetric_ctx, mem, []⟩
      | .AES u32AESOpMode =>
        match (if misplaced symmetric_info.data_in then malloc_in else some symmetric_info.data_in) with
        | none => ⟨some (-RT_ENOMEM), symmetric_ctx, mem, []⟩
        | some data_in =>
          let (mem, log) :=
            if misplaced symmetric_info.data_in then
              (write mem data_in len (read mem symmetric_info.data_in), [(0, len), (0, len)])
            else (mem, [])
          match (if misplaced symmetric_info.data_out then malloc_out
            else some symmetric_info.data_out) with
          | none => ⟨some (-RT_ENOMEM), symmetric_ctx, mem, log⟩
          | some data_out =>
            crypt_buffers CRPT mem symmetric_ctx symmetric_info u32AESOpMode u32KeySize data_in
              data_out log

end Crypto
