/-
The baud rates of the UART of a USCI.

The clock is divided three times: `PDSCNT` is the least pre-divider that the quotient allows, and
for every `DSCNT` the best `CLKDIV` is tried.

* **`search_spec`** — the search ends with the pair that comes nearest to the quotient;
* **`overruns_spec`** — the quotients for which the best `CLKDIV`, rounded up, runs over its field;
* **`solve_iff`** — when the dividers are found and fit;
* **`serial_programmed`** — what both functions make of them.
-/
import NuMaker.Lib.BitField
import NuMaker.Lib.Nearest
import Mathlib.Tactic

namespace Uart.Usci

/-! ### The dividers -/

/-- A division, which must not be by zero. -/
def udiv (a b : ℕ) : Option ℕ := if b = 0 then none else some (a / b)

/-- `u32Div`: the quotient of the clock and the rate, or one more.  No clock is so fast that the
quotient is the largest word, and the sum wraps around. -/
def u32Div (u32PCLKFreq u32baudrate : ℕ) : Option ℕ := do
  let u32Div ← udiv u32PCLKFreq u32baudrate
  let u32Tmp := (← udiv u32PCLKFreq u32Div) - u32baudrate
  let u32Tmp2 := u32baudrate - (← udiv u32PCLKFreq (u32Div + 1))
  return if u32Tmp ≥ u32Tmp2 then u32Div + 1 else u32Div

/-- `u32PDSCnt`. -/
def u32PDSCnt (u32Div : ℕ) : ℕ :=
  ((List.range' 1 4).find? fun u32PDSCnt => u32Div ≤ 0x400 * 0x10 * u32PDSCnt).getD 4

/-- `u32ClkDiv` for one `u32DSCnt`, and `u32Tmp2`, how far from the quotient the two come. -/
def u32ClkDiv (u32Div u32DSCnt : ℕ) : ℕ × ℕ :=
  let u32ClkDiv := u32Div / u32DSCnt
  let (u32ClkDiv, u32Tmp, u32Tmp2) :=
    if u32ClkDiv > 0x400 then
      (0x400, u32Div - 0x400 * u32DSCnt, u32Div - 0x400 * u32DSCnt + 1)
    else
      (u32ClkDiv, u32Div - u32ClkDiv * u32DSCnt, (u32ClkDiv + 1) * u32DSCnt - u32Div)
  if u32Tmp ≥ u32Tmp2 then (u32ClkDiv + 1, u32Tmp2) else (u32ClkDiv, u32Tmp)

/-- `u32Min`, `u32MinDSCnt` and `u32MinClkDiv` after the search. -/
def search (u32Div : ℕ) : ℕ × (ℕ × ℕ) :=
  Nearest.row (fun a => some (u32ClkDiv u32Div a.1).2) (2 ^ 32 - 1, (0, 0))
    ((List.range' 6 11).map fun u32DSCnt => (u32DSCnt, (u32ClkDiv u32Div u32DSCnt).1))

/-- `u32PDSCnt`, `u32MinDSCnt` and `u32MinClkDiv`. -/
def solve (u32PCLKFreq u32baudrate : ℕ) : Option (ℕ × ℕ × ℕ) := do
  let u32Div ← u32Div u32PCLKFreq u32baudrate
  -- from here on the smallest rate there is
  if u32Div ≥ 65536 then return (4, 0x10, 0x400)
  let u32PDSCnt := u32PDSCnt u32Div
  return (u32PDSCnt, (search (u32Div / u32PDSCnt)).2)

/-! ### The functions -/

/-- The registers of a unit. -/
structure Regs where
  CTL : BitVec 32
  LINECTL : BitVec 32
  DATIN0 : BitVec 32
  BRGEN : BitVec 32
  PROTCTL : BitVec 32

/-- What is written to `BRGEN`. -/
def brgen (u32PDSCnt u32MinDSCnt u32MinClkDiv : ℕ) : BitVec 32 :=
  (BitVec.ofNat 32 u32MinClkDiv - 1) <<< 16 ||| (BitVec.ofNat 32 u32MinDSCnt - 1) <<< 10 |||
    (BitVec.ofNat 32 u32PDSCnt - 1) <<< 8

/-- The rate that is returned. -/
def rate (u32PCLKFreq u32PDSCnt u32MinDSCnt u32MinClkDiv : ℕ) : Option ℕ := do
  udiv (← udiv (← udiv u32PCLKFreq u32PDSCnt) u32MinDSCnt) u32MinClkDiv

def UUART_WORD_LEN_8 : BitVec 32 := 8#32 <<< 8
def UUART_LINECTL_LSB_Msk : BitVec 32 := 1#32 <<< 0
def UUART_LINECTL_DWIDTH_Msk : BitVec 32 := 0xf#32 <<< 8
def UUART_PROTCTL_PROTEN_Msk : BitVec 32 := 1#32 <<< 31
def UUART_PROTCTL_STICKEN_Msk : BitVec 32 := 1#32 <<< 26
def UUART_PROTCTL_EVENPARITY_Msk : BitVec 32 := 1#32 <<< 2
def UUART_PROTCTL_PARITYEN_Msk : BitVec 32 := 1#32 <<< 1
def UUART_PROTCTL_STOPB_Msk : BitVec 32 := 1#32 <<< 0

def UUART_Open (u32PCLKFreq : ℕ) (r : Regs) (u32baudrate : ℕ) : Option (Regs × ℕ) := do
  let (u32PDSCnt, u32MinDSCnt, u32MinClkDiv) ← solve u32PCLKFreq u32baudrate
  let r : Regs :=
    { CTL := 2#32 <<< 0
      LINECTL := UUART_WORD_LEN_8 ||| UUART_LINECTL_LSB_Msk
      DATIN0 := 2#32 <<< 3
      BRGEN := brgen u32PDSCnt u32MinDSCnt u32MinClkDiv
      PROTCTL := r.PROTCTL ||| UUART_PROTCTL_PROTEN_Msk }
  return (r, ← rate u32PCLKFreq u32PDSCnt u32MinDSCnt u32MinClkDiv)

def UUART_SetLine_Config (u32PCLKFreq : ℕ) (r : Regs) (u32baudrate : ℕ)
    (u32data_width u32parity u32stop_bits : BitVec 32) : Option (Regs × ℕ) := do
  let (BRGEN, u32PDSCnt, u32MinDSCnt, u32MinClkDiv) ←
    if u32baudrate ≠ 0 then do
      let (u32PDSCnt, u32MinDSCnt, u32MinClkDiv) ← solve u32PCLKFreq u32baudrate
      pure (brgen u32PDSCnt u32MinDSCnt u32MinClkDiv, u32PDSCnt, u32MinDSCnt, u32MinClkDiv)
    else
      pure (r.BRGEN, field r.BRGEN 8 2 + 1, field r.BRGEN 10 5 + 1, field r.BRGEN 16 10 + 1)
  let PROTCTL := r.PROTCTL &&& ~~~(UUART_PROTCTL_STICKEN_Msk ||| UUART_PROTCTL_EVENPARITY_Msk |||
    UUART_PROTCTL_PARITYEN_Msk) ||| u32parity
  let r : Regs :=
    { r with
      LINECTL := r.LINECTL &&& ~~~UUART_LINECTL_DWIDTH_Msk ||| u32data_width
      BRGEN := BRGEN
      PROTCTL := PROTCTL &&& ~~~UUART_PROTCTL_STOPB_Msk ||| u32stop_bits }
  return (r, ← rate u32PCLKFreq u32PDSCnt u32MinDSCnt u32MinClkDiv)

/-! ### One pair of dividers -/

/-- How far two numbers are apart. -/
def apart (a b : ℕ) : ℕ := (a - b) + (b - a)

variable {n d : ℕ}

/-- For one `DSCNT` no `CLKDIV` of its field comes nearer. -/
theorem u32ClkDiv_spec (hd : 0 < d) :
    (u32ClkDiv n d).2 = apart n (d * (u32ClkDiv n d).1) ∧
      (∀ k ≤ 0x400, (u32ClkDiv n d).2 ≤ apart n (d * k)) ∧
      ((u32ClkDiv n d).1 ≤ 0x400 ∨
        (u32ClkDiv n d).1 = 0x401 ∧ n / d = 0x400 ∧ d ≤ 2 * (n % d)) := by
  have hdm := Nat.div_add_mod n d
  have hmod := Nat.mod_lt n hd
  rw [u32ClkDiv]
  by_cases hbig : n / d > 0x400
  · have hmul : d * 0x401 ≤ d * (n / d) := Nat.mul_le_mul_left d hbig
    have hswap : 0x400 * d = d * 0x400 := Nat.mul_comm _ _
    rw [if_pos hbig]
    dsimp only
    rw [if_neg (by omega)]
    refine ⟨?_, fun k hk => ?_, Or.inl (le_refl _)⟩
    · rw [apart, hswap]
      omega
    · have hle : d * k ≤ d * 0x400 := Nat.mul_le_mul_left d hk
      rw [apart, hswap]
      omega
  · have hsub : n - n / d * d = n % d := by
      rw [Nat.mul_comm]
      omega
    have hadd : (n / d + 1) * d - n = d - n % d := by
      rw [Nat.add_mul, Nat.mul_comm, Nat.one_mul]
      omega
    rw [if_neg hbig]
    dsimp only
    rw [hsub, hadd]
    -- below the quotient and above it
    have hfar : ∀ k, (n % d ≤ apart n (d * k) ∧ k ≤ n / d) ∨
        (d - n % d ≤ apart n (d * k) ∧ n / d < k) := by
      intro k
      rcases Nat.lt_or_ge (n / d) k with hk | hk
      · have hle : d * (n / d + 1) ≤ d * k := Nat.mul_le_mul_left d hk
        rw [Nat.mul_add, Nat.mul_one] at hle
        refine Or.inr ⟨?_, hk⟩
        rw [apart]
        omega
      · have hle : d * k ≤ d * (n / d) := Nat.mul_le_mul_left d hk
        refine Or.inl ⟨?_, hk⟩
        rw [apart]
        omega
    split
    · next hup =>
      refine ⟨?_, fun k _ => ?_, ?_⟩
      · dsimp only
        rw [apart, Nat.mul_add, Nat.mul_one]
        omega
      · rcases hfar k with h | h <;> omega
      · dsimp only
        omega
    · next hdown =>
      refine ⟨?_, fun k _ => ?_, Or.inl (by omega)⟩
      · dsimp only
        rw [apart]
        omega
      · rcases hfar k with h | h <;> omega

/-! ### The search -/

/-- A quotient, for which the best `CLKDIV` of the best `DSCNT` is rounded up to one more than its
field holds. -/
def overruns : List ℕ :=
  [7174, 9223, 9224, 10249, 11273, 11274, 12299, 13323, 13324, 14345, 14346, 14347, 14348, 14349,
    15368, 15369, 15370, 15371, 15372, 15373, 15374]

theorem overruns_spec : ∀ x ∈ overruns, (search x).2.2 = 0x401 := by decide +kernel

/-- A quotient whose `CLKDIV` may be rounded up to that lies behind the last multiple of its
`DSCNT`. -/
theorem overruns_complete : ∀ d ∈ List.range' 6 10, ∀ r ∈ List.range 16,
    (search (d * 0x400 + r)).2.2 ≤ 0x400 ∨ d * 0x400 + r ∈ overruns := by decide +kernel

/-- The least quotients: from three on `CLKDIV` is not zero. -/
theorem search_small : ∀ x ∈ List.range 9, 1 ≤ (search x).2.2 ∧ (search x).2.2 ≤ 0x400 ↔ 3 ≤ x := by
  decide +kernel

/-- With the largest `DSCNT` the quotient is missed by half a step at most. -/
theorem u32ClkDiv_sixteen (hn : n ≤ 0x4000) : (u32ClkDiv n 16).2 ≤ 8 := by
  obtain ⟨-, hle, -⟩ := @u32ClkDiv_spec n 16 (by omega)
  refine Nat.le_trans (hle ((n + 8) / 16) (by omega)) ?_
  rw [apart]
  omega

/-- What the search ends with is one of the pairs, and none of them is nearer. -/
theorem search_best (hn : n ≤ 0x4000) :
    ∃ d, (6 ≤ d ∧ d ≤ 16) ∧ search n = ((u32ClkDiv n d).2, d, (u32ClkDiv n d).1) ∧
      ∀ d', 6 ≤ d' → d' ≤ 16 → (u32ClkDiv n d).2 ≤ (u32ClkDiv n d').2 := by
  have hbest : Nearest.Best (fun a : ℕ × ℕ => some (u32ClkDiv n a.1).2) (2 ^ 32 - 1, (0, 0))
      ((List.range' 6 11).map fun d => (d, (u32ClkDiv n d).1)) (search n) :=
    Nearest.row_best _ _
  have hmem : ∀ d, 6 ≤ d → d ≤ 16 →
      (d, (u32ClkDiv n d).1) ∈ (List.range' 6 11).map fun d => (d, (u32ClkDiv n d).1) := by
    intro d hlo hhi
    exact List.mem_map.2 ⟨d, List.mem_range'_1.2 (by omega), rfl⟩
  have hle : ∀ d, 6 ≤ d → d ≤ 16 → (search n).1 ≤ (u32ClkDiv n d).2 :=
    fun d hlo hhi => hbest.le _ (hmem d hlo hhi) _ rfl
  rcases hbest.found with hstart | ⟨hin, hdist⟩
  · have h16 := hle 16 (by omega) (by omega)
    have h8 := u32ClkDiv_sixteen hn
    rw [hstart] at h16
    dsimp only at h16
    omega
  · obtain ⟨d, hd, heq⟩ := List.mem_map.1 hin
    rw [List.mem_range'_1] at hd
    rw [← heq, Option.some.injEq] at hdist
    dsimp only at hdist
    refine ⟨d, by omega, ?_, fun d' hlo hhi => ?_⟩
    · rw [hdist, heq]
    · rw [hdist]
      exact hle d' hlo hhi

/-- **The search.**  From a quotient of three on a pair is found whose `CLKDIV` fits, unless the
quotient is one of `overruns`; it comes within eight counts and no pair of the fields comes
nearer. -/
theorem search_spec (hn : n ≤ 0x4000) :
    (6 ≤ (search n).2.1 ∧ (search n).2.1 ≤ 16) ∧
      (∀ d k, 6 ≤ d → d ≤ 16 → k ≤ 0x400 →
        apart n ((search n).2.1 * (search n).2.2) ≤ apart n (d * k)) ∧
      apart n ((search n).2.1 * (search n).2.2) ≤ 8 ∧
      ((1 ≤ (search n).2.2 ∧ (search n).2.2 ≤ 0x400) ↔ 3 ≤ n ∧ n ∉ overruns) := by
  obtain ⟨d, ⟨hlo, hhi⟩, heq, hmin⟩ := search_best hn
  obtain ⟨herr, hle, hover⟩ := @u32ClkDiv_spec n d (by omega)
  have h8 := Nat.le_trans (hmin 16 (by omega) (by omega)) (u32ClkDiv_sixteen hn)
  refine ⟨?_, ?_, ?_, ?_⟩
  · rw [heq]
    exact ⟨hlo, hhi⟩
  · intro d' k hlo' hhi' hk
    obtain ⟨-, hle', -⟩ := @u32ClkDiv_spec n d' (by omega)
    rw [heq]
    dsimp only
    rw [← herr]
    exact Nat.le_trans (hmin d' hlo' hhi') (hle' k hk)
  · rw [heq]
    dsimp only
    rw [← herr]
    exact h8
  · by_cases hsmall : n ≤ 8
    · have hnot : n ∉ overruns := by
        intro h
        have hlarge : ∀ x ∈ overruns, 8 < x := by decide
        exact absurd (hlarge n h) (by omega)
      rw [search_small n (List.mem_range.2 (by omega)), and_iff_left hnot]
    constructor
    · rintro ⟨-, hmax⟩
      refine ⟨by omega, fun h => ?_⟩
      rw [overruns_spec n h] at hmax
      omega
    · rintro ⟨-, hnot⟩
      refine ⟨?_, ?_⟩
      · -- without a `CLKDIV` all of the quotient would be missed
        by_contra h0
        have hzero : (u32ClkDiv n d).1 = 0 := by
          rw [heq] at h0
          dsimp only at h0
          omega
        rw [hzero, apart] at herr
        omega
      · rcases hover with hfit | ⟨hone, hq, hr⟩
        · rw [heq]
          exact hfit
        · have hdm := Nat.div_add_mod n d
          have hmod := Nat.mod_lt n (show 0 < d by omega)
          rw [hq] at hdm
          have hd15 : d ≤ 15 := by
            by_contra h
            obtain rfl : d = 16 := by omega
            omega
          have hin := overruns_complete d (List.mem_range'_1.2 (by omega)) (n % d)
            (List.mem_range.2 (by omega))
          rw [hdm] at hin
          exact hin.resolve_right hnot

/-! ### All three dividers -/

variable {pclk baud D : ℕ}

/-- The quotient, for a rate that is not above the clock. -/
theorem u32Div_spec (hpos : 0 < baud) :
    (u32Div pclk baud = none ↔ pclk < baud) ∧
      ∀ D, u32Div pclk baud = some D → D = pclk / baud ∨ D = pclk / baud + 1 := by
  have hne : ¬ baud = 0 := by omega
  have hzero : pclk / baud = 0 ↔ pclk < baud := by
    rw [Nat.div_eq_zero_iff]
    omega
  have heq : u32Div pclk baud = if pclk / baud = 0 then none else
      some (if pclk / (pclk / baud) - baud ≥ baud - pclk / (pclk / baud + 1) then pclk / baud + 1
        else pclk / baud) := by
    rw [u32Div, udiv, if_neg hne]
    by_cases hq : pclk / baud = 0 <;> simp [udiv, hq]
  rw [heq]
  by_cases hq : pclk / baud = 0
  · rw [if_pos hq]
    exact ⟨iff_of_true rfl (hzero.1 hq), fun D h => by cases h⟩
  · rw [if_neg hq]
    refine ⟨iff_of_false (by simp) (mt hzero.2 hq), fun D h => ?_⟩
    obtain rfl := Option.some.inj h
    split
    · exact Or.inr rfl
    · exact Or.inl rfl

/-- The pre-divider. -/
theorem u32PDSCnt_spec (hD : D < 65536) :
    (1 ≤ u32PDSCnt D ∧ u32PDSCnt D ≤ 4) ∧ D ≤ 0x4000 * u32PDSCnt D ∧
      ∀ p, 1 ≤ p → D ≤ 0x4000 * p → u32PDSCnt D ≤ p := by
  have heq : u32PDSCnt D =
      if D ≤ 0x4000 then 1 else if D ≤ 0x8000 then 2 else if D ≤ 0xC000 then 3 else 4 := by
    rw [u32PDSCnt, show List.range' 1 4 = [1, 2, 3, 4] from rfl]
    simp only [List.find?_cons, List.find?_nil]
    by_cases h1 : D ≤ 0x4000
    · simp [h1]
    · by_cases h2 : D ≤ 0x8000
      · simp [h1, h2]
      · by_cases h3 : D ≤ 0xC000 <;> simp [h1, h2, h3, show D ≤ 0x10000 by omega]
  rw [heq]
  refine ⟨?_, ?_, fun p hp hle => ?_⟩ <;> split <;> (try split) <;> (try split) <;> omega

/-- Dividers that their fields hold. -/
structure Fits (x : ℕ × ℕ × ℕ) : Prop where
  pdscnt : 1 ≤ x.1 ∧ x.1 ≤ 4
  dscnt : 6 ≤ x.2.1 ∧ x.2.1 ≤ 16
  clkdiv : 1 ≤ x.2.2 ∧ x.2.2 ≤ 0x400

/-- A quotient that the dividers are found for: none of the first three, and none whose `CLKDIV`
runs over. -/
def Solvable (D : ℕ) : Prop := 65536 ≤ D ∨ 3 ≤ D ∧ D / u32PDSCnt D ∉ overruns

theorem solve_eq (h : u32Div pclk baud = some D) :
    solve pclk baud = some (if 65536 ≤ D then (4, 0x10, 0x400)
      else (u32PDSCnt D, (search (D / u32PDSCnt D)).2)) := by
  rw [solve, h, Option.bind_eq_bind, Option.bind_some]
  split
  · rfl
  · rfl

/-- The quotient that is searched for is in the range of the search. -/
theorem quotient_le (hD : D < 65536) : D / u32PDSCnt D ≤ 0x4000 ∧ (3 ≤ D / u32PDSCnt D ↔ 3 ≤ D) := by
  obtain ⟨⟨hlo, hhi⟩, hle, hmin⟩ := u32PDSCnt_spec hD
  refine ⟨Nat.div_le_of_le_mul (by rwa [Nat.mul_comm] at hle), ?_⟩
  rw [Nat.le_div_iff_mul_le hlo]
  by_cases hone : D ≤ 0x4000 * 1
  · have := hmin 1 (by omega) hone
    rw [show u32PDSCnt D = 1 by omega]
  · omega

/-- **When the dividers are found.** -/
theorem solve_iff (h : u32Div pclk baud = some D) :
    (∃ x, solve pclk baud = some x ∧ Fits x) ↔ Solvable D := by
  rw [solve_eq h]
  by_cases hlarge : 65536 ≤ D
  · rw [if_pos hlarge]
    exact iff_of_true ⟨_, rfl, by constructor <;> decide⟩ (Or.inl hlarge)
  · obtain ⟨hpd, -⟩ := u32PDSCnt_spec (show D < 65536 by omega)
    obtain ⟨hle, h3⟩ := quotient_le (show D < 65536 by omega)
    obtain ⟨hds, -, -, hck⟩ := search_spec hle
    rw [if_neg hlarge, Solvable, or_iff_right hlarge, ← h3, ← hck]
    constructor
    · rintro ⟨x, hx, hfit⟩
      obtain rfl := Option.some.inj hx
      exact hfit.clkdiv
    · intro hfit
      exact ⟨_, rfl, hpd, hds, hfit⟩

/-! ### The registers -/

def PDSCNT (r : BitVec 32) : ℕ := field r 8 2
def DSCNT (r : BitVec 32) : ℕ := field r 10 5
def CLKDIV (r : BitVec 32) : ℕ := field r 16 10

/-- What the clock is divided by. -/
def total (r : BitVec 32) : ℕ := (PDSCNT r + 1) * ((DSCNT r + 1) * (CLKDIV r + 1))

theorem brgen_toNat {x : ℕ × ℕ × ℕ} (h : Fits x) :
    (brgen x.1 x.2.1 x.2.2).toNat =
      2 ^ 8 * ((x.1 - 1) + 2 ^ 2 * ((x.2.1 - 1) + 2 ^ 6 * (x.2.2 - 1))) := by
  obtain ⟨⟨hp, hp'⟩, ⟨hd, hd'⟩, hc, hc'⟩ := h
  have hC : ((BitVec.ofNat 32 x.2.2 - 1) <<< 16).toNat = 2 ^ 16 * (x.2.2 - 1) := by
    rw [BitVec.toNat_shiftLeft, BitVec.toNat_sub, BitVec.toNat_ofNat, Nat.shiftLeft_eq,
      show (1 : BitVec 32).toNat = 1 from rfl]
    omega
  have hD : ((BitVec.ofNat 32 x.2.1 - 1) <<< 10).toNat = 2 ^ 10 * (x.2.1 - 1) := by
    rw [BitVec.toNat_shiftLeft, BitVec.toNat_sub, BitVec.toNat_ofNat, Nat.shiftLeft_eq,
      show (1 : BitVec 32).toNat = 1 from rfl]
    omega
  have hP : ((BitVec.ofNat 32 x.1 - 1) <<< 8).toNat = 2 ^ 8 * (x.1 - 1) := by
    rw [BitVec.toNat_shiftLeft, BitVec.toNat_sub, BitVec.toNat_ofNat, Nat.shiftLeft_eq,
      show (1 : BitVec 32).toNat = 1 from rfl]
    omega
  rw [brgen, BitVec.toNat_or, BitVec.toNat_or, hC, hD, hP,
    ← Nat.two_pow_add_eq_or_of_lt (by omega),
    show 2 ^ 16 * (x.2.2 - 1) + 2 ^ 10 * (x.2.1 - 1) =
      2 ^ 10 * ((x.2.1 - 1) + 2 ^ 6 * (x.2.2 - 1)) by omega,
    ← Nat.two_pow_add_eq_or_of_lt (by omega)]
  omega

/-- The dividers that are written are read back, and nothing else is set. -/
theorem brgen_fields {x : ℕ × ℕ × ℕ} (h : Fits x) :
    PDSCNT (brgen x.1 x.2.1 x.2.2) + 1 = x.1 ∧ DSCNT (brgen x.1 x.2.1 x.2.2) + 1 = x.2.1 ∧
      CLKDIV (brgen x.1 x.2.1 x.2.2) + 1 = x.2.2 ∧ field (brgen x.1 x.2.1 x.2.2) 0 8 = 0 ∧
      field (brgen x.1 x.2.1 x.2.2) 15 1 = 0 ∧ field (brgen x.1 x.2.1 x.2.2) 26 6 = 0 := by
  have hr := brgen_toNat h
  obtain ⟨⟨hp, hp'⟩, ⟨hd, hd'⟩, hc, hc'⟩ := h
  rw [PDSCNT, DSCNT, CLKDIV, field, field, field, field, field, field, hr]
  omega

/-- The registers after a call and what it returned: the dividers fit their fields with no other bit
set, and the rate is theirs.  For a rate from a 65536th to a sixth of the clock they come within 64
counts of the quotient, and for that `PDSCNT` no others come nearer to the rounded one. -/
structure Programmed (pclk baud D : ℕ) (r : BitVec 32) (ret : ℕ) : Prop where
  rest : field r 0 8 = 0 ∧ field r 15 1 = 0 ∧ field r 26 6 = 0
  dscnt : 5 ≤ DSCNT r ∧ DSCNT r ≤ 15
  rate : ret = pclk / total r
  within : pclk ≤ 65536 * baud → 6 * baud ≤ pclk →
    total r * baud ≤ pclk + 64 * baud ∧ pclk ≤ (total r + 64) * baud
  nearest : pclk ≤ 65536 * baud → ∀ d k, 6 ≤ d → d ≤ 16 → 1 ≤ k → k ≤ 0x400 →
    apart (D / (PDSCNT r + 1)) ((DSCNT r + 1) * (CLKDIV r + 1)) ≤
      apart (D / (PDSCNT r + 1)) (d * k)

theorem rate_eq {x : ℕ × ℕ × ℕ} (h : Fits x) :
    rate pclk x.1 x.2.1 x.2.2 = some (pclk / (x.1 * (x.2.1 * x.2.2))) := by
  obtain ⟨⟨hp, -⟩, ⟨hd, -⟩, hc, -⟩ := h
  rw [rate, udiv, if_neg (by omega), Option.bind_eq_bind, Option.bind_some, udiv, if_neg (by omega),
    Option.bind_some, udiv, if_neg (by omega), Nat.div_div_eq_div_mul, Nat.div_div_eq_div_mul]

/-- How far the dividers are from the quotient, all three together. -/
theorem total_near {x : ℕ × ℕ × ℕ} (hs : solve pclk baud = some x) (h : u32Div pclk baud = some D)
    (hle : D ≤ 65537) :
    x.1 * (x.2.1 * x.2.2) ≤ D + 32 ∧ D ≤ x.1 * (x.2.1 * x.2.2) + 35 ∧
      ∀ d k, 6 ≤ d → d ≤ 16 → k ≤ 0x400 →
        apart (D / x.1) (x.2.1 * x.2.2) ≤ apart (D / x.1) (d * k) := by
  rw [solve_eq h] at hs
  obtain rfl := Option.some.inj hs
  by_cases hlarge : 65536 ≤ D
  · rw [if_pos hlarge]
    dsimp only
    refine ⟨by omega, by omega, fun d k _ _ _ => ?_⟩
    rw [show D / 4 = 16 * 1024 by omega, apart, Nat.sub_self]
    exact Nat.zero_le _
  · obtain ⟨⟨hlo, hhi⟩, -⟩ := u32PDSCnt_spec (show D < 65536 by omega)
    obtain ⟨-, hbest, h8, -⟩ := search_spec (quotient_le (show D < 65536 by omega)).1
    rw [if_neg hlarge]
    dsimp only
    refine ⟨?_, ?_, hbest⟩
    -- eight counts, and what the division by the pre-divider loses
    all_goals
      have hdm := Nat.div_add_mod D (u32PDSCnt D)
      have hmod := Nat.mod_lt D (show u32PDSCnt D > 0 by omega)
      rw [apart] at h8
      generalize (search (D / u32PDSCnt D)).2.1 * (search (D / u32PDSCnt D)).2.2 = m at h8
      generalize D / u32PDSCnt D = q at h8 hdm
      generalize u32PDSCnt D = p at hlo hhi hdm hmod
      obtain rfl | rfl | rfl | rfl : p = 1 ∨ p = 2 ∨ p = 3 ∨ p = 4 := by omega
      all_goals omega

theorem programmed {x : ℕ × ℕ × ℕ} (hpos : 0 < baud) (hs : solve pclk baud = some x) (hfit : Fits x)
    (h : u32Div pclk baud = some D) :
    Programmed pclk baud D (brgen x.1 x.2.1 x.2.2) (pclk / (x.1 * (x.2.1 * x.2.2))) := by
  obtain ⟨hP, hD, hC, hrest⟩ := brgen_fields hfit
  have htotal : total (brgen x.1 x.2.1 x.2.2) = x.1 * (x.2.1 * x.2.2) := by
    rw [total, hP, hD, hC]
  have hdm := Nat.div_add_mod pclk baud
  have hmod := Nat.mod_lt pclk hpos
  -- the quotient, where the rate is in range
  have hle : pclk ≤ 65536 * baud → D ≤ 65537 := by
    intro hlow
    have hq : pclk / baud ≤ 65536 := Nat.div_le_of_le_mul (by rwa [Nat.mul_comm] at hlow)
    have := (u32Div_spec hpos).2 D h
    omega
  refine ⟨hrest, ?_, by rw [htotal], fun hlow _ => ?_, fun hlow d k hd hd' _ hk => ?_⟩
  · have := hfit.dscnt
    omega
  · obtain ⟨hup, hdown, -⟩ := total_near hs h (hle hlow)
    have hquot : pclk / baud ≤ D ∧ D ≤ pclk / baud + 1 := by
      have := (u32Div_spec hpos).2 D h
      omega
    rw [htotal]
    generalize x.1 * (x.2.1 * x.2.2) = t at hup hdown
    have hlo : t * baud ≤ (pclk / baud + 33) * baud := Nat.mul_le_mul_right baud (by omega)
    have hhi : (pclk / baud + 1) * baud ≤ (t + 64) * baud := Nat.mul_le_mul_right baud (by omega)
    rw [Nat.add_mul, Nat.mul_comm (pclk / baud)] at hlo hhi
    omega
  · rw [hP, hD, hC]
    exact (total_near hs h (hle hlow)).2.2 d k hd hd' hk

theorem open_brgen {x : ℕ × ℕ × ℕ} {v : ℕ} (r : Regs) (hs : solve pclk baud = some x)
    (hrate : rate pclk x.1 x.2.1 x.2.2 = some v) :
    ∃ r', UUART_Open pclk r baud = some (r', v) ∧ r'.BRGEN = brgen x.1 x.2.1 x.2.2 := by
  rw [UUART_Open, hs, Option.bind_eq_bind, Option.bind_some]
  dsimp only
  rw [hrate]
  exact ⟨_, rfl, rfl⟩

theorem setLine_brgen {x : ℕ × ℕ × ℕ} {v : ℕ} (r : Regs) (w p s : BitVec 32) (hpos : 0 < baud)
    (hs : solve pclk baud = some x) (hrate : rate pclk x.1 x.2.1 x.2.2 = some v) :
    ∃ r', UUART_SetLine_Config pclk r baud w p s = some (r', v) ∧
      r'.BRGEN = brgen x.1 x.2.1 x.2.2 := by
  rw [UUART_SetLine_Config, if_pos (Nat.ne_of_gt hpos), hs, Option.bind_eq_bind, Option.bind_eq_bind,
    Option.bind_some]
  dsimp only
  rw [Option.pure_def, Option.bind_some]
  dsimp only
  rw [hrate]
  exact ⟨_, rfl, rfl⟩

/-- **Both functions program the dividers that the search finds**, and the same ones. -/
theorem serial_programmed (pclk baud D : ℕ) (r : Regs) (u32data_width u32parity u32stop_bits : BitVec 32)
    (hpos : 0 < baud) (h : u32Div pclk baud = some D) (hD : Solvable D) :
    ∃ r₁ r₂ ret, UUART_Open pclk r baud = some (r₁, ret) ∧
      UUART_SetLine_Config pclk r baud u32data_width u32parity u32stop_bits = some (r₂, ret) ∧
      r₂.BRGEN = r₁.BRGEN ∧ Programmed pclk baud D r₁.BRGEN ret := by
  obtain ⟨x, hs, hfit⟩ := (solve_iff h).2 hD
  have hrate := @rate_eq pclk x hfit
  obtain ⟨r₁, hopen, hb₁⟩ := open_brgen r hs hrate
  obtain ⟨r₂, hset, hb₂⟩ := setLine_brgen r u32data_width u32parity u32stop_bits hpos hs hrate
  refine ⟨r₁, r₂, _, hopen, hset, hb₂.trans hb₁.symm, ?_⟩
  rw [hb₁]
  exact programmed hpos hs hfit h

/-- 115200 baud from 72 MHz. -/
theorem serial_programmed_115200 :
    ∃ r₁ r₂ ret, UUART_Open 72000000 ⟨0, 0, 0, 0, 0⟩ 115200 = some (r₁, ret) ∧
      UUART_SetLine_Config 72000000 ⟨0, 0, 0, 0, 0⟩ 115200 (8#32 <<< 8) 0 0 = some (r₂, ret) ∧
      r₂.BRGEN = r₁.BRGEN ∧ Programmed 72000000 115200 625 r₁.BRGEN ret :=
  serial_programmed 72000000 115200 625 ⟨0, 0, 0, 0, 0⟩ (8#32 <<< 8) 0 0 (by decide) (by decide)
    (Or.inr (by decide))

-- a `CLKDIV` of 1025, and one of zero
example : solve 72000000 4683 = some (1, 15, 0x401) := by decide +kernel
example : UUART_Open 72000000 ⟨0, 0, 0, 0, 0⟩ 50000000 = none := by decide +kernel

/-! ### The quotient itself -/

/-- No other dividers with the same `PDSCNT` come nearer to the quotient as a fraction. -/
def NearestTotal (pclk baud : ℕ) (r : BitVec 32) : Prop :=
  ∀ d k : ℕ, 6 ≤ d → d ≤ 16 → 1 ≤ k → k ≤ 0x400 →
    |(total r : ℚ) - pclk / baud| ≤ |((PDSCNT r + 1) * (d * k) : ℚ) - pclk / baud|

/-- A quotient of 16.6 is rounded to 17, and to that 18 is as near as 16. -/
theorem not_nearestTotal :
    (UUART_Open 12000000 ⟨0, 0, 0, 0, 0⟩ 722892).map (fun x => x.1.BRGEN) = some (brgen 1 6 3) ∧
      ¬ NearestTotal 12000000 722892 (brgen 1 6 3) := by
  have hP : PDSCNT (brgen 1 6 3) = 0 := by decide
  have htotal : total (brgen 1 6 3) = 18 := by decide
  refine ⟨by decide +kernel, fun h => ?_⟩
  have h8 := h 8 2 (by omega) (by omega) (by omega) (by omega)
  rw [hP, htotal] at h8
  norm_num [abs_le] at h8

end Uart.Usci
