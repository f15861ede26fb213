/-
CAN FD bit timing: `CANFD_CalculateTimingValues`, `CANFD_GetSegments` and
`CANFD_SetTimingConfig`.

The search runs through the time quanta of a bit, the nominal prescalers and,
with FD enabled, the same for the data phase; it stops at the first setting it
accepts.  Every product is one of 32 bits, the divider is kept in a byte, and
the values found are masked, decremented and shifted into their registers.

* `CANFD_CalculateTimingValues_found` — what the search accepts;
* `CANFD_timing_exact` — when the values found fit their fields and no product
  was cut off, the registers give exactly the bit rates that were accepted;
* `CANFD_timing_capped` — a nominal rate above the maximum is replaced by it.
-/
import NuMaker.Lib.BitField

namespace Canfd

def MAX_NOMINAL_BAUDRATE : ℕ := 1000000

/-- The time quanta of a bit, `MAX_TIME_QUANTA` down to `MIN_TIME_QUANTA`. -/
def timeQuanta : List ℕ :=
  [25, 24, 23, 22, 21, 20, 19, 18, 17, 16, 15, 14, 13, 12, 11, 10, 9, 8]

/-- The product of two 32-bit values. -/
def mul32 (a b : ℕ) : ℕ := a * b % 2 ^ 32

/-- Conversion to `uint8_t`. -/
def u8 (x : ℤ) : ℕ := (x % 2 ^ 8).toNat

/-- `CANFD_TIMEING_CONFIG_T`. -/
structure CANFD_TIMEING_CONFIG_T where
  u8PreDivider : ℕ
  u16NominalPrescaler : ℕ
  u8NominalRJumpwidth : ℕ
  u8NominalPhaseSeg1 : ℕ
  u8NominalPhaseSeg2 : ℕ
  u8NominalPropSeg : ℕ
  u8DataPrescaler : ℕ
  u8DataRJumpwidth : ℕ
  u8DataPhaseSeg1 : ℕ
  u8DataPhaseSeg2 : ℕ
  u8DataPropSeg : ℕ
  deriving DecidableEq, Repr

/-! ### Segments -/

/-- `(int)(u32Ntq * ideal_sp)`, the quanta before the sample point.  The products
that occur are exact in `float`, so the quotient of integers is the same. -/
def int32P1 (baudRate tq : ℕ) : ℕ :=
  if baudRate ≥ 1000000 then tq * 3 / 4
  else if baudRate ≥ 800000 then tq * 4 / 5
  else tq * 7 / 8

/-- `CANFD_GetSegments`, with the divider and prescalers found before. -/
def CANFD_GetSegments (u32NominalBaudRate u32DataBaudRate u32Ntq u32Dtq : ℕ)
    (u8PreDivider u16NominalPrescaler u8DataPrescaler : ℕ) : CANFD_TIMEING_CONFIG_T where
  u8PreDivider := u8PreDivider
  u16NominalPrescaler := u16NominalPrescaler
  u8NominalRJumpwidth := u8 ((u32Ntq + (5 - 1)) / 5)
  u8NominalPhaseSeg1 := u8 (int32P1 u32NominalBaudRate u32Ntq - 1)
  u8NominalPhaseSeg2 := u8 (u32Ntq - int32P1 u32NominalBaudRate u32Ntq)
  u8NominalPropSeg := 0
  u8DataPrescaler := u8DataPrescaler
  u8DataRJumpwidth := if u32Dtq > 0 then u8 ((u32Dtq + (5 - 1)) / 5) else 0
  u8DataPhaseSeg1 := if u32Dtq > 0 then u8 (int32P1 u32DataBaudRate u32Dtq - 1) else 0
  u8DataPhaseSeg2 := if u32Dtq > 0 then u8 (u32Dtq - int32P1 u32DataBaudRate u32Dtq) else 0
  u8DataPropSeg := 0

/-! ### Search -/

/-- `CANFD_CalculateTimingValues`, `none` for `FALSE`.  `fdoe` is `CCCR.FDOE`.  A
division by a product that wraps to 0 gives 0, as the core's does. -/
def CANFD_CalculateTimingValues (fdoe : Bool)
    (u32NominalBaudRate u32DataBaudRate u32SourceClock_Hz : ℕ) : Option CANFD_TIMEING_CONFIG_T :=
  let u32NominalBaudRate :=
    if u32NominalBaudRate > MAX_NOMINAL_BAUDRATE then MAX_NOMINAL_BAUDRATE else u32NominalBaudRate
  timeQuanta.findSome? fun i32Ntq =>
    let i32Nclk := mul32 u32NominalBaudRate i32Ntq
    (List.range' 1 0x400).findSome? fun u16NominalPrescaler =>
      let i32Nclk2 := mul32 i32Nclk u16NominalPrescaler
      if u32SourceClock_Hz / i32Nclk2 ≤ 256 ∧ u32SourceClock_Hz % i32Nclk2 = 0 then
        let u8PreDivider := u8 (u32SourceClock_Hz / i32Nclk2 : ℕ)
        if fdoe then
          let u32DataBaudRate := if u32DataBaudRate = 0 then u32NominalBaudRate else u32DataBaudRate
          if u32DataBaudRate = u32NominalBaudRate ∧ u16NominalPrescaler ≤ 0x20 then
            some (CANFD_GetSegments u32NominalBaudRate u32DataBaudRate i32Ntq i32Ntq
              u8PreDivider u16NominalPrescaler (u8 u16NominalPrescaler))
          else
            timeQuanta.findSome? fun i32Dtq =>
              let i32Dclk := mul32 u32DataBaudRate i32Dtq
              (List.range' 1 0x20).findSome? fun u8DataPrescaler =>
                let i32Dclk2 := mul32 i32Dclk u8DataPrescaler
                if u32SourceClock_Hz = mul32 i32Dclk2 u8PreDivider then
                  some (CANFD_GetSegments u32NominalBaudRate u32DataBaudRate i32Ntq i32Dtq
                    u8PreDivider u16NominalPrescaler u8DataPrescaler)
                else none
        else
          some (CANFD_GetSegments u32NominalBaudRate 0 i32Ntq 0 u8PreDivider u16NominalPrescaler 0)
      else none

/-! ### Registers -/

/-- The two CAN FD modules. -/
inductive Module
  | CANFD0
  | CANFD1
  deriving DecidableEq, Repr

/-- The position of the module's 4-bit divider field in `CLKDIV5`. -/
def Module.CANFDDIV_Pos : Module → ℕ
  | .CANFD0 => 0
  | .CANFD1 => 4

/-- The registers of one module that hold its bit timing. -/
structure CANFD_T where
  CCCR : BitVec 32
  NBTP : BitVec 32
  DBTP : BitVec 32

structure Regs where
  CLKDIV5 : BitVec 32
  canfd : Module → CANFD_T

/-- `CCCR.FDOE`, bit 8. -/
def CANFD_T.FDOE (r : CANFD_T) : Bool := r.CCCR.getLsbD 8

/-- `((x & mask) - 1) << pos`. -/
def encode (x mask pos : ℕ) : BitVec 32 := (BitVec.ofNat 32 (x &&& mask) - 1) <<< pos

/-- `CANFD_SetTimingConfig`. -/
def CANFD_SetTimingConfig (s : Regs) (psCanfd : Module) (psConfig : CANFD_TIMEING_CONFIG_T) :
    Regs :=
  let r := s.canfd psCanfd
  let CCCR := r.CCCR ||| 0x2#32
  let NBTP := encode psConfig.u8NominalRJumpwidth 0x7F 25 +
    encode psConfig.u16NominalPrescaler 0x1FF 16 +
    encode (psConfig.u8NominalPhaseSeg1 + psConfig.u8NominalPropSeg) 0xFF 8 +
    encode psConfig.u8NominalPhaseSeg2 0x7F 0
  let DBTP :=
    if CCCR.getLsbD 8 then
      encode psConfig.u8DataPrescaler 0x1F 16 +
        encode (psConfig.u8DataPhaseSeg1 + psConfig.u8DataPropSeg) 0x1F 8 +
        encode psConfig.u8DataPhaseSeg2 0xF 4 +
        encode psConfig.u8DataRJumpwidth 0xF 0
    else r.DBTP
  { CLKDIV5 := setField s.CLKDIV5 psCanfd.CANFDDIV_Pos 4
      (BitVec.ofNat 32 psConfig.u8PreDivider - 1)
    canfd := Function.update s.canfd psCanfd ⟨CCCR, NBTP, DBTP⟩ }

/-! ### What the segments are -/

theorem mem_timeQuanta {q : ℕ} (h : q ∈ timeQuanta) : 8 ≤ q ∧ q ≤ 25 := by
  simp only [timeQuanta, List.mem_cons, List.not_mem_nil, or_false] at h
  omega

theorem u8_of_lt {x : ℕ} (h : x < 2 ^ 8) : u8 x = x := by
  rw [u8]
  omega

/-- The quanta before the sample point leave room for both segments. -/
theorem int32P1_bounds (baudRate : ℕ) {q : ℕ} (h : 8 ≤ q ∧ q ≤ 25) :
    6 ≤ int32P1 baudRate q ∧ int32P1 baudRate q ≤ 21 ∧ int32P1 baudRate q < q ∧
      q ≤ int32P1 baudRate q + 7 := by
  rw [int32P1]
  split
  · omega
  · split <;> omega

/-- The segments of a phase of `q` quanta, as they are kept in the configuration:
they fit their register fields and make up the bit with the sync segment. -/
structure Segments (q rJumpwidth phaseSeg1 phaseSeg2 : ℕ) : Prop where
  sum : 1 + phaseSeg1 + phaseSeg2 = q
  sjw : 1 ≤ rJumpwidth ∧ rJumpwidth ≤ 5
  seg1 : 5 ≤ phaseSeg1 ∧ phaseSeg1 ≤ 20
  seg2 : 1 ≤ phaseSeg2 ∧ phaseSeg2 ≤ 7

theorem segments (baudRate : ℕ) {q : ℕ} (h : 8 ≤ q ∧ q ≤ 25) :
    Segments q (u8 ((q + (5 - 1)) / 5)) (u8 (int32P1 baudRate q - 1))
      (u8 (q - int32P1 baudRate q)) := by
  obtain ⟨h1, h2, h3, h4⟩ := int32P1_bounds baudRate h
  refine ⟨?_, ?_, ?_, ?_⟩ <;> simp only [u8] <;> omega

/-! ### What the search accepts -/

/-- The rate the nominal phase is set to. -/
def nominalRate (u32NominalBaudRate : ℕ) : ℕ := min u32NominalBaudRate MAX_NOMINAL_BAUDRATE

/-- The rate the data phase is set to. -/
def dataRate (u32NominalBaudRate u32DataBaudRate : ℕ) : ℕ :=
  if u32DataBaudRate = 0 then nominalRate u32NominalBaudRate else u32DataBaudRate

/-- A setting the search accepts, with 32-bit products. -/
structure Found (fdoe : Bool) (nominal data clk : ℕ) (cfg : CANFD_TIMEING_CONFIG_T) : Prop where
  prop_eq : cfg.u8NominalPropSeg = 0 ∧ cfg.u8DataPropSeg = 0
  prescaler_ge : 1 ≤ cfg.u16NominalPrescaler
  nominal_eq : ∃ q, Segments q cfg.u8NominalRJumpwidth cfg.u8NominalPhaseSeg1
      cfg.u8NominalPhaseSeg2 ∧
    (∃ k ≤ 256, clk = mul32 (mul32 nominal q) cfg.u16NominalPrescaler * k ∧
      cfg.u8PreDivider = k % 256)
  data_eq : fdoe = true → 1 ≤ cfg.u8DataPrescaler ∧
    ∃ q, Segments q cfg.u8DataRJumpwidth cfg.u8DataPhaseSeg1 cfg.u8DataPhaseSeg2 ∧
      ((data = nominal ∧ cfg.u8DataPrescaler = cfg.u16NominalPrescaler ∧
          q = 1 + cfg.u8NominalPhaseSeg1 + cfg.u8NominalPhaseSeg2) ∨
        clk = mul32 (mul32 (mul32 data q) cfg.u8DataPrescaler) cfg.u8PreDivider)

theorem CANFD_CalculateTimingValues_found {fdoe : Bool} {nominal data clk : ℕ}
    {cfg : CANFD_TIMEING_CONFIG_T}
    (h : CANFD_CalculateTimingValues fdoe nominal data clk = some cfg) :
    Found fdoe (nominalRate nominal) (dataRate nominal data) clk cfg := by
  have hcap : (if nominal > MAX_NOMINAL_BAUDRATE then MAX_NOMINAL_BAUDRATE else nominal) =
      nominalRate nominal := by
    rw [nominalRate, min_def]
    split <;> split <;> omega
  have hu8 : ∀ k : ℕ, u8 k = k % 256 := by
    intro k
    rw [u8]
    omega
  simp only [CANFD_CalculateTimingValues, hcap] at h
  obtain ⟨q, hq, h⟩ := List.exists_of_findSome?_eq_some h
  obtain ⟨p, hp, h⟩ := List.exists_of_findSome?_eq_some h
  have hp' : 1 ≤ p ∧ p ≤ 0x400 := by
    have := List.mem_range'_1.mp hp
    omega
  have hseg := segments (nominalRate nominal) (mem_timeQuanta hq)
  by_cases hacc : clk / mul32 (mul32 (nominalRate nominal) q) p ≤ 256 ∧
      clk % mul32 (mul32 (nominalRate nominal) q) p = 0
  · rw [if_pos hacc] at h
    have hclk : clk = mul32 (mul32 (nominalRate nominal) q) p *
        (clk / mul32 (mul32 (nominalRate nominal) q) p) :=
      (Nat.mul_div_cancel' (Nat.dvd_of_mod_eq_zero hacc.2)).symm
    cases fdoe with
    | false =>
      obtain rfl := Option.some.inj h
      exact ⟨⟨rfl, rfl⟩, hp'.1, ⟨q, hseg, _, hacc.1, hclk, hu8 _⟩, fun h => absurd h (by decide)⟩
    | true =>
      simp only [if_true] at h
      by_cases hsame : (if data = 0 then nominalRate nominal else data) = nominalRate nominal ∧
          p ≤ 0x20
      · -- the nominal setting is used for both
        rw [if_pos hsame] at h
        obtain rfl := Option.some.inj h
        have hpos : q > 0 := lt_of_lt_of_le (by decide) (mem_timeQuanta hq).1
        have hp8 : u8 p = p := u8_of_lt (by omega)
        refine ⟨⟨rfl, rfl⟩, hp'.1, ⟨q, hseg, _, hacc.1, hclk, hu8 _⟩, fun _ => ⟨?_, q, ?_,
          Or.inl ⟨hsame.1, hp8, hseg.sum.symm⟩⟩⟩
        · exact le_of_le_of_eq hp'.1 hp8.symm
        · simp only [CANFD_GetSegments, if_pos hpos]
          exact segments _ (mem_timeQuanta hq)
      · rw [if_neg hsame] at h
        obtain ⟨dq, hdq, h⟩ := List.exists_of_findSome?_eq_some h
        obtain ⟨dp, hdp, h⟩ := List.exists_of_findSome?_eq_some h
        by_cases hd : clk = mul32 (mul32 (mul32 (if data = 0 then nominalRate nominal else data) dq)
            dp) (u8 (clk / mul32 (mul32 (nominalRate nominal) q) p : ℕ))
        · rw [if_pos hd] at h
          obtain rfl := Option.some.inj h
          have hpos : dq > 0 := lt_of_lt_of_le (by decide) (mem_timeQuanta hdq).1
          refine ⟨⟨rfl, rfl⟩, hp'.1, ⟨q, hseg, _, hacc.1, hclk, hu8 _⟩, fun _ => ⟨?_, dq, ?_,
            Or.inr hd⟩⟩
          · exact (List.mem_range'_1.mp hdp).1
          · simp only [CANFD_GetSegments, if_pos hpos]
            exact segments _ (mem_timeQuanta hdq)
        · rw [if_neg hd] at h
          exact absurd h (by simp)
  · rw [if_neg hacc] at h
    exact absurd h (by simp)

/-! ### What the registers hold -/

namespace Regs

variable (s : Regs) (m : Module)

/-- The clock divider of a module. -/
def divider : ℕ := field s.CLKDIV5 m.CANFDDIV_Pos 4 + 1

/-- Clock periods in a nominal bit: divider, prescaler, quanta. -/
def nominalTime : ℕ :=
  s.divider m * (field (s.canfd m).NBTP 16 9 + 1) *
    (1 + (field (s.canfd m).NBTP 8 8 + 1) + (field (s.canfd m).NBTP 0 7 + 1))

/-- Clock periods in a data bit. -/
def dataTime : ℕ :=
  s.divider m * (field (s.canfd m).DBTP 16 5 + 1) *
    (1 + (field (s.canfd m).DBTP 8 5 + 1) + (field (s.canfd m).DBTP 4 4 + 1))

end Regs

/-- The values found fit their register fields, and no product of the search was
cut off at 32 bits. -/
structure Fits (fdoe : Bool) (nominal data : ℕ) (cfg : CANFD_TIMEING_CONFIG_T) : Prop where
  divider : 1 ≤ cfg.u8PreDivider ∧ cfg.u8PreDivider ≤ 16
  prescaler : cfg.u16NominalPrescaler ≤ 511
  nominal_lt : nominal * (1 + cfg.u8NominalPhaseSeg1 + cfg.u8NominalPhaseSeg2) *
    cfg.u16NominalPrescaler < 2 ^ 32
  dataPrescaler : fdoe = true → cfg.u8DataPrescaler ≤ 31
  data_lt : fdoe = true → data * (1 + cfg.u8DataPhaseSeg1 + cfg.u8DataPhaseSeg2) *
    cfg.u8DataPrescaler * cfg.u8PreDivider < 2 ^ 32

/-- The registers hold the configuration: every value is within its field. -/
structure Holds (s : Regs) (m : Module) (fdoe : Bool) (cfg : CANFD_TIMEING_CONFIG_T) : Prop where
  divider : s.divider m = cfg.u8PreDivider
  prescaler : field (s.canfd m).NBTP 16 9 + 1 = cfg.u16NominalPrescaler
  seg1 : field (s.canfd m).NBTP 8 8 + 1 = cfg.u8NominalPhaseSeg1 + cfg.u8NominalPropSeg
  seg2 : field (s.canfd m).NBTP 0 7 + 1 = cfg.u8NominalPhaseSeg2
  sjw : field (s.canfd m).NBTP 25 7 + 1 = cfg.u8NominalRJumpwidth
  dataPrescaler : fdoe = true → field (s.canfd m).DBTP 16 5 + 1 = cfg.u8DataPrescaler
  dataSeg1 : fdoe = true →
    field (s.canfd m).DBTP 8 5 + 1 = cfg.u8DataPhaseSeg1 + cfg.u8DataPropSeg
  dataSeg2 : fdoe = true → field (s.canfd m).DBTP 4 4 + 1 = cfg.u8DataPhaseSeg2
  dataSjw : fdoe = true → field (s.canfd m).DBTP 0 4 + 1 = cfg.u8DataRJumpwidth

/-- A value within its mask is encoded as one less, at its position. -/
theorem encode_toNat {x len pos : ℕ} (h1 : 1 ≤ x) (h2 : x < 2 ^ len) (hw : len + pos ≤ 32) :
    (encode x (2 ^ len - 1) pos).toNat = 2 ^ pos * (x - 1) := by
  have hx : x < 2 ^ 32 := lt_of_lt_of_le h2 (Nat.pow_le_pow_right (by omega) (by omega))
  have hsub : (BitVec.ofNat 32 x - 1).toNat = x - 1 := by
    rw [BitVec.toNat_sub, BitVec.toNat_ofNat]
    simp
    omega
  have hprod : (x - 1) * 2 ^ pos < 2 ^ 32 := by
    calc (x - 1) * 2 ^ pos < 2 ^ len * 2 ^ pos :=
          Nat.mul_lt_mul_of_pos_right (by omega) (by positivity)
      _ = 2 ^ (len + pos) := (Nat.pow_add _ _ _).symm
      _ ≤ 2 ^ 32 := Nat.pow_le_pow_right (by omega) hw
  rw [encode, Nat.and_two_pow_sub_one_of_lt_two_pow h2, BitVec.toNat_shiftLeft, hsub,
    Nat.shiftLeft_eq, Nat.mod_eq_of_lt hprod, Nat.mul_comm]

/-- The divider field. -/
theorem CANFD_SetTimingConfig_divider (s : Regs) (m : Module) {cfg : CANFD_TIMEING_CONFIG_T}
    (h : 1 ≤ cfg.u8PreDivider ∧ cfg.u8PreDivider ≤ 16) :
    (CANFD_SetTimingConfig s m cfg).divider m = cfg.u8PreDivider ∧
      ∀ m', m' ≠ m → (CANFD_SetTimingConfig s m cfg).divider m' = s.divider m' := by
  have hv : (BitVec.ofNat 32 cfg.u8PreDivider - 1).toNat = cfg.u8PreDivider - 1 := by
    rw [BitVec.toNat_sub, BitVec.toNat_ofNat]
    simp
    omega
  have hlt : (BitVec.ofNat 32 cfg.u8PreDivider - 1).toNat < 2 ^ 4 := by omega
  refine ⟨?_, fun m' hm => ?_⟩
  · rw [Regs.divider, CANFD_SetTimingConfig, field_setField hlt (by cases m <;> decide), hv]
    omega
  · rw [Regs.divider, Regs.divider, CANFD_SetTimingConfig, field_setField_of_disjoint hlt]
    cases m <;> cases m' <;> first | exact absurd rfl hm | decide

/-- The four fields of a bit timing register read back: `d` at the bottom, then `c`,
`b` and `a`, with `gd`, `gc` and `gb` unused bits between them. -/
theorem field_encode {a b c d : ℕ} (la lb lc ld gb gc gd : ℕ) (ha : 1 ≤ a ∧ a < 2 ^ la)
    (hb : 1 ≤ b ∧ b < 2 ^ lb) (hc : 1 ≤ c ∧ c < 2 ^ lc) (hd : 1 ≤ d ∧ d < 2 ^ ld)
    (hw : ld + gd + (lc + gc) + (lb + gb) + la ≤ 32) {r : BitVec 32}
    (hr : r = encode a (2 ^ la - 1) (ld + gd + (lc + gc) + (lb + gb)) +
      encode b (2 ^ lb - 1) (ld + gd + (lc + gc)) + encode c (2 ^ lc - 1) (ld + gd) +
      encode d (2 ^ ld - 1) 0) :
    field r (ld + gd + (lc + gc) + (lb + gb)) la + 1 = a ∧
      field r (ld + gd + (lc + gc)) lb + 1 = b ∧ field r (ld + gd) lc + 1 = c ∧
      field r 0 ld + 1 = d := by
  have hslot : ∀ {x y l g m : ℕ}, x < 2 ^ l → y < 2 ^ m → x + 2 ^ l * y < 2 ^ (l + (m + g)) := by
    intro x y l g m hx hy
    calc x + 2 ^ l * y < 2 ^ l + 2 ^ l * y := by omega
      _ = 2 ^ l * (y + 1) := by ring
      _ ≤ 2 ^ l * 2 ^ m := Nat.mul_le_mul_left _ hy
      _ = 2 ^ (l + m) := (Nat.pow_add _ _ _).symm
      _ ≤ 2 ^ (l + (m + g)) := Nat.pow_le_pow_right (by omega) (by omega)
  have hd' : d - 1 < 2 ^ (ld + gd) :=
    lt_of_lt_of_le (by omega) (Nat.pow_le_pow_right (by omega) (Nat.le_add_right ld gd))
  have hc' := hslot (g := gc) (m := lc) hd' (y := c - 1) (by omega)
  have hb' := hslot (g := gb) (m := lb) hc' (y := b - 1) (by omega)
  have ha' := hslot (g := 0) (m := la) hb' (y := a - 1) (by omega)
  have hlt := lt_of_lt_of_le ha' (Nat.pow_le_pow_right (n := 2) (by omega) hw)
  have hval : r.toNat = d - 1 + 2 ^ (ld + gd) * (c - 1) + 2 ^ (ld + gd + (lc + gc)) * (b - 1) +
      2 ^ (ld + gd + (lc + gc) + (lb + gb)) * (a - 1) := by
    simp only [hr, BitVec.toNat_add, Nat.mod_add_mod]
    rw [encode_toNat ha.1 ha.2 (by omega), encode_toNat hb.1 hb.2 (by omega),
      encode_toNat hc.1 hc.2 (by omega), encode_toNat hd.1 hd.2 (by omega), ← Nat.mod_eq_of_lt hlt]
    congr 1
    ring
  refine ⟨?_, ?_, ?_, ?_⟩
  · rw [field_pack (v := a - 1) (b := 0) hb' (by omega) (by rw [hval]; ring)]
    omega
  · rw [field_pack (v := b - 1) (b := 2 ^ gb * (a - 1)) hc' (by omega) (by rw [hval]; ring)]
    omega
  · rw [field_pack (v := c - 1) (b := 2 ^ gc * ((b - 1) + 2 ^ (lb + gb) * (a - 1))) hd' (by omega)
      (by rw [hval]; ring)]
    omega
  · rw [field_pack (a := 0) (v := d - 1)
      (b := 2 ^ gd * ((c - 1) + 2 ^ (lc + gc) * ((b - 1) + 2 ^ (lb + gb) * (a - 1)))) (by omega)
      (by omega) (by rw [hval]; ring)]
    omega

theorem CANFD_SetTimingConfig_holds (s : Regs) (m : Module) {nominal data clk : ℕ}
    {cfg : CANFD_TIMEING_CONFIG_T} (h : Found (s.canfd m).FDOE nominal data clk cfg)
    (hf : Fits (s.canfd m).FDOE nominal data cfg) :
    Holds (CANFD_SetTimingConfig s m cfg) m (s.canfd m).FDOE cfg := by
  obtain ⟨⟨hp1, hp2⟩, hp, ⟨q, ⟨-, hn2, hn3, hn4⟩, -⟩, hdata⟩ := h
  have hpre := hf.prescaler
  have hcanfd : (CANFD_SetTimingConfig s m cfg).canfd m = _ := Function.update_self _ _ _
  have hN := field_encode 7 9 8 7 0 0 1
    (a := cfg.u8NominalRJumpwidth) (b := cfg.u16NominalPrescaler)
    (c := cfg.u8NominalPhaseSeg1 + cfg.u8NominalPropSeg) (d := cfg.u8NominalPhaseSeg2)
    (r := ((CANFD_SetTimingConfig s m cfg).canfd m).NBTP)
    (by omega) (by omega) (by omega) (by omega) (by omega) (congrArg CANFD_T.NBTP hcanfd)
  have hD : (s.canfd m).FDOE = true →
      field ((CANFD_SetTimingConfig s m cfg).canfd m).DBTP 16 5 + 1 = cfg.u8DataPrescaler ∧
      field ((CANFD_SetTimingConfig s m cfg).canfd m).DBTP 8 5 + 1 =
        cfg.u8DataPhaseSeg1 + cfg.u8DataPropSeg ∧
      field ((CANFD_SetTimingConfig s m cfg).canfd m).DBTP 4 4 + 1 = cfg.u8DataPhaseSeg2 ∧
      field ((CANFD_SetTimingConfig s m cfg).canfd m).DBTP 0 4 + 1 = cfg.u8DataRJumpwidth := by
    intro hfd
    obtain ⟨hd0, dq, ⟨-, hd2, hd3, hd4⟩, -⟩ := hdata hfd
    have hdpre := hf.dataPrescaler hfd
    have hcce : ((s.canfd m).CCCR ||| 2#32).getLsbD 8 = true := by
      rw [CANFD_T.FDOE] at hfd
      rw [BitVec.getLsbD_or, hfd, Bool.true_or]
    exact field_encode 5 5 4 4 3 0 0
      (a := cfg.u8DataPrescaler) (b := cfg.u8DataPhaseSeg1 + cfg.u8DataPropSeg)
      (c := cfg.u8DataPhaseSeg2) (d := cfg.u8DataRJumpwidth)
      (r := ((CANFD_SetTimingConfig s m cfg).canfd m).DBTP)
      (by omega) (by omega) (by omega) (by omega) (by omega)
      ((congrArg CANFD_T.DBTP hcanfd).trans (if_pos hcce))
  obtain ⟨hsjw, hbrp, hseg1, hseg2⟩ := hN
  exact ⟨(CANFD_SetTimingConfig_divider s m hf.divider).1, hbrp, hseg1, hseg2, hsjw,
    fun h => (hD h).1, fun h => (hD h).2.1, fun h => (hD h).2.2.1, fun h => (hD h).2.2.2⟩

/-! ### The bit rates -/

theorem mul32_mul32 (a b c : ℕ) : mul32 (mul32 a b) c = a * b * c % 2 ^ 32 := by
  rw [mul32, mul32, Nat.mod_mul_mod]

/-- **CAN FD bit timing.**  When the search finds a setting that fits its fields and
whose products were not cut off, the registers hold it and give exactly the bit
rates: the nominal one capped at the maximum, and with FD enabled the data one,
where 0 stands for the nominal rate.  The other module keeps its divider. -/
theorem CANFD_timing_exact {s : Regs} {m : Module} {nominal data clk : ℕ}
    {cfg : CANFD_TIMEING_CONFIG_T}
    (h : CANFD_CalculateTimingValues (s.canfd m).FDOE nominal data clk = some cfg)
    (hf : Fits (s.canfd m).FDOE (nominalRate nominal) (dataRate nominal data) cfg) :
    Holds (CANFD_SetTimingConfig s m cfg) m (s.canfd m).FDOE cfg ∧
      clk = nominalRate nominal * (CANFD_SetTimingConfig s m cfg).nominalTime m ∧
      ((s.canfd m).FDOE = true →
        clk = dataRate nominal data * (CANFD_SetTimingConfig s m cfg).dataTime m) ∧
      ∀ m', m' ≠ m → (CANFD_SetTimingConfig s m cfg).divider m' = s.divider m' := by
  have hfound := CANFD_CalculateTimingValues_found h
  have hh := CANFD_SetTimingConfig_holds s m hfound hf
  obtain ⟨⟨hp1, hp2⟩, hp, ⟨q, hseg, k, hk, hclk, hdiv⟩, hdata⟩ := hfound
  obtain ⟨hd1, hd2⟩ := hf.divider
  have hkd : k = cfg.u8PreDivider := by omega
  have hnom : clk = nominalRate nominal * q * cfg.u16NominalPrescaler * cfg.u8PreDivider := by
    have hlt := hf.nominal_lt
    rw [hseg.sum] at hlt
    rw [hclk, mul32_mul32, Nat.mod_eq_of_lt hlt, hkd]
  refine ⟨hh, ?_, fun hfd => ?_, (CANFD_SetTimingConfig_divider s m hf.divider).2⟩
  · rw [Regs.nominalTime, hh.divider, hh.prescaler, hh.seg1, hh.seg2, hp1, Nat.add_zero, hseg.sum,
      hnom]
    ring
  · obtain ⟨-, dq, hdseg, hd⟩ := hdata hfd
    rw [Regs.dataTime, hh.divider, hh.dataPrescaler hfd, hh.dataSeg1 hfd, hh.dataSeg2 hfd, hp2,
      Nat.add_zero, hdseg.sum]
    rcases hd with ⟨hrate, hpre, hq⟩ | hd
    · -- the nominal setting is used for both
      rw [hrate, hpre, hq, hseg.sum, hnom]
      ring
    · have hlt := hf.data_lt hfd
      rw [hdseg.sum] at hlt
      have hwrap : mul32 (mul32 (mul32 (dataRate nominal data) dq) cfg.u8DataPrescaler)
          cfg.u8PreDivider =
          dataRate nominal data * dq * cfg.u8DataPrescaler * cfg.u8PreDivider := by
        rw [mul32_mul32 (dataRate nominal data) dq, mul32, Nat.mod_mul_mod, Nat.mod_eq_of_lt hlt]
      rw [hd, hwrap]
      ring

/-- Reset values, with FD enabled or not. -/
def resetRegs (fdoe : Bool) : Regs :=
  ⟨0, fun _ => ⟨if fdoe then 0x100#32 else 0, 0x06000A03#32, 0x00000A33#32⟩⟩

/-- The setting found for 1 Mbit/s at 25 MHz. -/
def oneMbit (fdoe : Bool) : CANFD_TIMEING_CONFIG_T :=
  if fdoe then ⟨1, 1, 5, 17, 7, 0, 1, 5, 17, 7, 0⟩ else ⟨1, 1, 5, 17, 7, 0, 0, 0, 0, 0, 0⟩

/-- FD at 1 Mbit/s for both phases, from 25 MHz. -/
theorem CANFD_timing_exact_one_mbit :
    25000000 = 1000000 *
      (CANFD_SetTimingConfig (resetRegs true) .CANFD1 (oneMbit true)).dataTime .CANFD1 :=
  (CANFD_timing_exact (s := resetRegs true) (m := .CANFD1)
    (show CANFD_CalculateTimingValues _ 1000000 0 25000000 = some (oneMbit true) from rfl)
    ⟨by decide, by decide, by decide, fun _ => by decide, fun _ => by decide⟩).2.2.1 rfl

/-- A request of 2 Mbit/s is accepted and gives 1 Mbit/s. -/
theorem CANFD_timing_capped :
    ¬ ∀ (s : Regs) (m : Module) (nominal data clk : ℕ) (cfg : CANFD_TIMEING_CONFIG_T),
      CANFD_CalculateTimingValues (s.canfd m).FDOE nominal data clk = some cfg →
      clk = nominal * (CANFD_SetTimingConfig s m cfg).nominalTime m := by
  intro hall
  have h := hall (resetRegs false) .CANFD0 2000000 0 25000000 (oneMbit false) (by rfl)
  have ht : (CANFD_SetTimingConfig (resetRegs false) .CANFD0 (oneMbit false)).nominalTime .CANFD0 =
      25 := by decide
  rw [ht] at h
  exact absurd h (by decide)

end Canfd
