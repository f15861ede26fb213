/-
The flash driver: `nu_rmc_read`, `nu_rmc_write`, `nu_rmc_erase`.

Addresses and sizes are 32-bit unsigned values; `addr_end` is their sum as the
driver computes it.  The word accesses through `buf` are taken as four byte
accesses, the lowest byte first.  Each function takes the driver mutex for the
whole of its body (`nu_rmc_erase` several times in turn), so a body is one
state transformation.

`nu_rmc_erase` saves the bytes of the first and last page that lie outside the
range, erases every page, and writes the saved bytes back; the save and the
write-back of the two ends are one definition each, used twice.
-/
import NuMaker.Rmc.Flash

namespace Rmc

def NU_GET_LSB2BIT (addr : ℕ) : ℕ := addr % 4
def NU_GETBYTE_OFST (addr : ℕ) : ℕ := addr % 4 * 8
def NU_GET_WALIGN (addr : ℕ) : ℕ := addr / 4 * 4

/-- `addr + size` in 32 bits. -/
def addrEnd (addr size : ℕ) : ℕ := (addr + size) % 2 ^ 32

/-! ### Read -/

/-- The loop of `nu_rmc_read`: the bytes stored at `buf` so far and their number. -/
def nu_rmc_read_loop (s : State) (addr_end addr : ℕ) (isp_rdata : BitVec 32)
    (buf : List Byte) (read_size : ℕ) : List Byte × ℕ :=
  if addr < addr_end then
    let isp_rdata := if NU_GET_LSB2BIT addr = 0 then RMC_Read s addr else isp_rdata
    if NU_GET_LSB2BIT addr = 0 ∧ addr_end - addr ≥ 4 then
      nu_rmc_read_loop s addr_end (addr + 4) isp_rdata
        (buf ++ [byteOf isp_rdata 0, byteOf isp_rdata 1, byteOf isp_rdata 2, byteOf isp_rdata 3])
        (read_size + 4)
    else
      nu_rmc_read_loop s addr_end (addr + 1) isp_rdata
        (buf ++ [(isp_rdata >>> NU_GETBYTE_OFST addr).setWidth 8]) (read_size + 1)
  else (buf, read_size)
  termination_by addr_end - addr

/-- `nu_rmc_read`: bytes stored, size read. -/
def nu_rmc_read (s : State) (addr size : ℕ) : (List Byte × ℕ) × State :=
  let addr_end := addrEnd addr size
  let u32RegLockBackup := s.regLocked
  let s := SYS_UnlockReg s
  let isp_rdata := if NU_GET_LSB2BIT addr ≠ 0 then RMC_Read s (NU_GET_WALIGN addr) else 0
  let r := nu_rmc_read_loop s addr_end addr isp_rdata [] 0
  (r, if u32RegLockBackup then SYS_LockReg s else s)

/-! ### Write -/

/-- `isp_rdata` with its byte at offset `ofst` replaced. -/
def putByte (isp_rdata : BitVec 32) (ofst : ℕ) (b : Byte) : BitVec 32 :=
  (isp_rdata &&& ~~~(0xFF#32 <<< ofst)) ||| (b.setWidth 32 <<< ofst)

/-- The loop of `nu_rmc_write`: state, pending word, address and size written
at its end.  `buf` has advanced by `write_size`. -/
def nu_rmc_write_loop (buf : ℕ → Byte) (addr_end addr : ℕ) (s : State) (isp_rdata : BitVec 32)
    (write_size : ℕ) : State × BitVec 32 × ℕ × ℕ :=
  if addr < addr_end then
    if addr_end - addr ≥ 4 ∧ NU_GET_LSB2BIT addr = 0 then
      nu_rmc_write_loop buf addr_end (addr + 4)
        (RMC_Write s addr (word fun k => buf (write_size + k))) isp_rdata (write_size + 4)
    else
      let isp_rdata := if NU_GET_LSB2BIT addr = 0 then RMC_Read s (NU_GET_WALIGN addr) else isp_rdata
      let isp_rdata := putByte isp_rdata (NU_GETBYTE_OFST addr) (buf write_size)
      let s := if NU_GET_LSB2BIT addr = 3 then RMC_Write s (NU_GET_WALIGN addr) isp_rdata else s
      nu_rmc_write_loop buf addr_end (addr + 1) s isp_rdata (write_size + 1)
  else (s, isp_rdata, addr, write_size)
  termination_by addr_end - addr

/-- The part of `nu_rmc_write` between the update enable and `Exit2`. -/
def nu_rmc_write_body (s : State) (addr : ℕ) (buf : ℕ → Byte) (size : ℕ) : ℕ × State :=
  let addr_end := addrEnd addr size
  let isp_rdata := if NU_GET_LSB2BIT addr ≠ 0 then RMC_Read s (NU_GET_WALIGN addr) else 0
  let (s, isp_rdata, addr, write_size) := nu_rmc_write_loop buf addr_end addr s isp_rdata 0
  let s := if NU_GET_LSB2BIT addr ≠ 0 then RMC_Write s (NU_GET_WALIGN addr) isp_rdata else s
  (write_size, RMC_DISABLE_LD_UPDATE (RMC_DISABLE_AP_UPDATE s))

/-- `nu_rmc_write`: size written. -/
def nu_rmc_write (s : State) (addr : ℕ) (buf : ℕ → Byte) (size : ℕ) : ℕ × State :=
  let u32RegLockBackup := s.regLocked
  let s := SYS_UnlockReg s
  let (write_size, s) :=
    if addr < RMC_APROM_END then nu_rmc_write_body (RMC_ENABLE_AP_UPDATE s) addr buf size
    else if addr < RMC_LDROM_END ∧ RMC_LDROM_BASE ≤ addr then
      nu_rmc_write_body (RMC_ENABLE_LD_UPDATE s) addr buf size
    else (0, s)
  (write_size, if u32RegLockBackup then SYS_LockReg s else s)

/-! ### Erase -/

/-- What the environment answers to one `nu_rmc_erase` call: the two
`rt_malloc` calls and the controller's program commands. -/
structure EraseEnv where
  malloc_sd : Bool
  malloc_ed : Bool
  isp : Isp

/-- The length of the part of the first page before `addr`. -/
def headLen (addr : ℕ) : ℕ := addr % RMC_FLASH_PAGE_SIZE

/-- The length of the part of the last page from `addr_end` on. -/
def tailLen (addr_end : ℕ) : ℕ :=
  if addr_end % RMC_FLASH_PAGE_SIZE ≠ 0 then
    RMC_FLASH_PAGE_SIZE - addr_end % RMC_FLASH_PAGE_SIZE
  else 0

/-- Save the `len` bytes from `addr` on in an allocated buffer; nothing to do
when `len` is 0, `none` when the driver gives up. -/
def savePart (malloc : Bool) (s : State) (addr len : ℕ) : Option (List Byte) :=
  if len ≠ 0 then
    if malloc then
      let r := nu_rmc_read s addr len
      if r.1.2 ≠ len then none else some r.1.1
    else none
  else some []

/-- The page loop of `nu_rmc_erase`. -/
def nu_rmc_erase_loop (isp : Isp) (addr_end addrptr : ℕ) (s : State) (erased_size : ℕ) :
    ℕ × State :=
  if addrptr < addr_end then
    let r := RMC_Erase isp s addrptr
    if r.1 ≠ 0 then (erased_size, r.2)
    else
      nu_rmc_erase_loop isp addr_end (addrptr + RMC_FLASH_PAGE_SIZE) r.2
        (erased_size + RMC_FLASH_PAGE_SIZE)
  else (erased_size, s)
  termination_by addr_end - addrptr
  decreasing_by simp only [RMC_FLASH_PAGE_SIZE]; omega

/-- The locked section of `nu_rmc_erase` that erases the pages: size erased. -/
def nu_rmc_erase_pages (isp : Isp) (s : State) (addr size : ℕ) : ℕ × State :=
  let addr_end := addrEnd addr size
  let addrptr := addr / RMC_FLASH_PAGE_SIZE * RMC_FLASH_PAGE_SIZE
  let u32RegLockBackup := s.regLocked
  let s := SYS_UnlockReg s
  let (erased_size, s) :=
    if addr ≤ RMC_APROM_END then
      let r := nu_rmc_erase_loop isp addr_end addrptr (RMC_ENABLE_AP_UPDATE s) 0
      (r.1, RMC_DISABLE_LD_UPDATE (RMC_DISABLE_AP_UPDATE r.2))
    else if addr < RMC_LDROM_END ∧ RMC_LDROM_BASE ≤ addr then
      let r := nu_rmc_erase_loop isp addr_end addrptr (RMC_ENABLE_LD_UPDATE s) 0
      (r.1, RMC_DISABLE_LD_UPDATE (RMC_DISABLE_AP_UPDATE r.2))
    else (0, s)
  (erased_size, if u32RegLockBackup then SYS_LockReg s else s)

/-- Write the saved bytes back at `addr` and count them; `false` when the driver
gives up. -/
def restorePart (s : State) (addr : ℕ) (page_temp : List Byte) (len erased_size : ℕ) :
    Bool × ℕ × State :=
  if len ≠ 0 then
    let r := nu_rmc_write s addr (fun i => page_temp.getD i 0) len
    if r.1 ≠ len then (false, erased_size, r.2) else (true, erased_size + len, r.2)
  else (true, erased_size, s)

/-- `nu_rmc_erase`: size erased. -/
def nu_rmc_erase (env : EraseEnv) (s : State) (addr size : ℕ) : ℕ × State :=
  let addr_end := addrEnd addr size
  match savePart env.malloc_sd s (addr - headLen addr) (headLen addr) with
  | none => (0, s)
  | some page_sdtemp =>
    match savePart env.malloc_ed s addr_end (tailLen addr_end) with
    | none => (0, s)
    | some page_edtemp =>
      let (erased_size, s) := nu_rmc_erase_pages env.isp s addr size
      if erased_size ≥ size then
        match restorePart s (addr - headLen addr) page_sdtemp (headLen addr) erased_size with
        | (false, erased_size, s) => (erased_size, s)
        | (true, erased_size, s) =>
          (restorePart s addr_end page_edtemp (tailLen addr_end) erased_size).2
      else (0, s)

end Rmc
