/-
Whether the search of `CANFD_CalculateTimingValues` is total.

It always ends, but it divides by the product of rate, quanta and prescaler cut off at 32 bits.
That product is 0 for the rate 0 and for three other rates, `2 ^ 18`, `3 * 2 ^ 18` and `2 ^ 19`, at
the pairs `(16, 1024)` and `(24, 1024)`, which the search comes to unless it stops before.  And
what it accepts is a setting only modulo `2 ^ 32`: a source clock of 0 always is.

* **`mul32_eq_zero`** — where a product vanishes;
* **`CANFD_CalculateTimingValues_total_iff`** — the rates and clocks for which no divisor is 0
  and a setting is found only if there is one.
-/
import NuMaker.Canfd.Timing
import NuMaker.Lib.Search
import Mathlib.Data.Nat.Prime.Basic
import Mathlib.Tactic.IntervalCases

namespace Canfd

/-! ### The search as one list -/

/-- Quanta and prescaler, in the order in which they are tried. -/
def pairs : List (ℕ × ℕ) :=
  timeQuanta.flatMap fun q => (List.range' 1 0x400).map fun p => (q, p)

/-- Earlier in the search. -/
def Before (x y : ℕ × ℕ) : Prop := y.1 < x.1 ∨ (x.1 = y.1 ∧ x.2 < y.2)

/-- The divisor at a pair. -/
def divisor (rate : ℕ) (x : ℕ × ℕ) : ℕ := mul32 (mul32 rate x.1) x.2

/-- What is done at a pair, for the nominal rate as capped and the data rate as given. -/
def attempt (fdoe : Bool) (rate data clk : ℕ) (x : ℕ × ℕ) : Option CANFD_TIMEING_CONFIG_T :=
  if clk / divisor rate x ≤ 256 ∧ clk % divisor rate x = 0 then
    let u8PreDivider := u8 (clk / divisor rate x : ℕ)
    if fdoe then
      let data := if data = 0 then rate else data
      if data = rate ∧ x.2 ≤ 0x20 then
        some (CANFD_GetSegments rate data x.1 x.1 u8PreDivider x.2 (u8 x.2))
      else
        timeQuanta.findSome? fun i32Dtq =>
          (List.range' 1 0x20).findSome? fun u8DataPrescaler =>
            if clk = mul32 (mul32 (mul32 data i32Dtq) u8DataPrescaler) u8PreDivider then
              some (CANFD_GetSegments rate data x.1 i32Dtq u8PreDivider x.2 u8DataPrescaler)
            else none
    else some (CANFD_GetSegments rate 0 x.1 0 u8PreDivider x.2 0)
  else none

theorem findSome?_flatMap_map {α β γ : Type*} (f : α × β → Option γ) (l : List α) (m : List β) :
    (l.flatMap fun a => m.map fun b => (a, b)).findSome? f =
      l.findSome? fun a => m.findSome? fun b => f (a, b) := by
  induction l with
  | nil => rfl
  | cons a l ih =>
    rw [List.flatMap_cons, List.findSome?_append, ih, List.findSome?_map, List.findSome?_cons]
    simp only [Function.comp_def]
    cases m.findSome? fun b => f (a, b) <;> rfl

/-- The two loops are one search. -/
theorem CANFD_CalculateTimingValues_eq (fdoe : Bool) (nominal data clk : ℕ) :
    CANFD_CalculateTimingValues fdoe nominal data clk =
      pairs.findSome? (attempt fdoe (nominalRate nominal) data clk) := by
  have hcap : (if nominal > MAX_NOMINAL_BAUDRATE then MAX_NOMINAL_BAUDRATE else nominal) =
      nominalRate nominal := by
    rw [nominalRate, min_def]
    split <;> split <;> omega
  rw [pairs, findSome?_flatMap_map, CANFD_CalculateTimingValues, hcap]
  rfl

theorem mem_pairs {x : ℕ × ℕ} : x ∈ pairs ↔ x.1 ∈ timeQuanta ∧ 1 ≤ x.2 ∧ x.2 ≤ 1024 := by
  obtain ⟨q, p⟩ := x
  simp only [pairs, List.mem_flatMap, List.mem_map, Prod.mk.injEq, List.mem_range'_1]
  constructor
  · rintro ⟨q', hq, p', hp, rfl, rfl⟩
    exact ⟨hq, hp.1, by omega⟩
  · rintro ⟨hq, hp, hp'⟩
    exact ⟨q, hq, p, ⟨hp, by omega⟩, rfl, rfl⟩

theorem before_asymm (x y : ℕ × ℕ) (h : Before x y) : ¬ Before y x := by
  unfold Before at *
  omega

theorem pairs_pairwise : pairs.Pairwise Before := by
  have hquanta : timeQuanta.Pairwise (· > ·) := by decide
  rw [pairs, List.pairwise_flatMap]
  refine ⟨fun q _ => ?_, hquanta.imp fun {q q'} hq x hx y hy => ?_⟩
  · rw [List.pairwise_map]
    exact List.Pairwise.imp (fun h => Or.inr ⟨rfl, h⟩) List.pairwise_lt_range'
  · obtain ⟨p, -, rfl⟩ := List.mem_map.mp hx
    obtain ⟨p', -, rfl⟩ := List.mem_map.mp hy
    exact Or.inl hq

/-! ### Where a divisor vanishes -/

theorem divisor_eq (rate : ℕ) (x : ℕ × ℕ) : divisor rate x = rate * x.1 * x.2 % 2 ^ 32 :=
  mul32_mul32 rate x.1 x.2

/-- The power of two in each of the quanta. -/
theorem exists_two_pow_of_mem {q : ℕ} (h : q ∈ timeQuanta) :
    ∃ e < 5, ∃ o < 26, q = 2 ^ e * o ∧ Nat.Coprime 2 o ∧
      (e ≤ 2 ∨ (q = 16 ∧ e = 4) ∨ ((q = 8 ∨ q = 24) ∧ e = 3)) := by
  revert q
  decide

/-- What a power of two leaves to the other factor when it divides a product with one of the
quanta. -/
theorem two_pow_dvd_of_dvd_mul {n q : ℕ} (hq : q ∈ timeQuanta) (h : 2 ^ 32 ∣ n * q) :
    2 ^ 30 ∣ n ∨ (q = 16 ∧ 2 ^ 28 ∣ n) ∨ ((q = 8 ∨ q = 24) ∧ 2 ^ 29 ∣ n) := by
  obtain ⟨e, he, o, -, rfl, hodd, hcases⟩ := exists_two_pow_of_mem hq
  have hdvd : 2 ^ (32 - e) ∣ n := by
    have hpow : 2 ^ 32 ∣ n * 2 ^ e :=
      (Nat.Coprime.pow_left 32 hodd).dvd_of_dvd_mul_right (by rwa [Nat.mul_assoc])
    have hsplit : 2 ^ (32 - e) * 2 ^ e = 2 ^ 32 := by rw [← Nat.pow_add]; congr 1; omega
    exact Nat.dvd_of_mul_dvd_mul_right (Nat.two_pow_pos e) (hsplit ▸ hpow)
  rcases hcases with h2 | ⟨hq, rfl⟩ | ⟨hq, rfl⟩
  · exact Or.inl ((Nat.pow_dvd_pow 2 (by omega)).trans hdvd)
  · exact Or.inr (Or.inl ⟨hq, hdvd⟩)
  · exact Or.inr (Or.inr ⟨hq, hdvd⟩)

/-- The rates and prescalers whose product is `2 ^ 28`, `2 ^ 29` or `3 * 2 ^ 28`. -/
theorem prescaler_of_mul {rate p : ℕ} (hrate : rate ≤ 1000000) (hp : p ≤ 1024)
    (h : rate * p = 2 ^ 28 ∨ rate * p = 2 ^ 29 ∨ rate * p = 3 * 2 ^ 28) :
    (rate * p ≠ 2 ^ 29 ∧ p = 1024 ∧ (rate = 2 ^ 18 ∨ rate = 3 * 2 ^ 18)) ∨
      (rate * p ≠ 3 * 2 ^ 28 ∧ rate = 2 ^ 19) := by
  have hdvd : p ∣ 3 * 2 ^ 29 := by
    rcases h with h | h | h
    · exact (Dvd.intro_left rate h).trans (by decide)
    · exact (Dvd.intro_left rate h).trans (by decide)
    · exact (Dvd.intro_left rate h).trans (by decide)
  -- so the prescaler is a power of two, or three times one
  obtain ⟨c, d, hc, hd, rfl⟩ := Nat.dvd_mul.mp hdvd
  obtain ⟨b, -, rfl⟩ := (Nat.dvd_prime_pow Nat.prime_two).mp hd
  have hc' : c = 1 ∨ c = 3 := (Nat.dvd_prime Nat.prime_three).mp hc
  have hb : b ≤ 10 := by
    have hle : 2 ^ b ≤ 2 ^ 10 := (Nat.le_mul_of_pos_left _ (by omega)).trans hp
    exact (Nat.pow_le_pow_iff_right (by decide)).mp hle
  rcases hc' with rfl | rfl <;> interval_cases b <;> omega

/-- The divisor vanishes for the rate 0, and for three more rates at their pairs. -/
theorem divisor_eq_zero {rate : ℕ} (hrate : rate ≤ 1000000) {x : ℕ × ℕ} (hx : x ∈ pairs)
    (h : divisor rate x = 0) :
    rate = 0 ∨ ((rate = 2 ^ 18 ∨ rate = 3 * 2 ^ 18) ∧ x = (16, 1024)) ∨
      (rate = 2 ^ 19 ∧ (x = (24, 1024) ∨ Before (24, 1024) x)) := by
  obtain ⟨q, p⟩ := x
  obtain ⟨hq, hp1, hp⟩ := mem_pairs.mp hx
  simp only at hq hp1 hp
  rw [divisor_eq] at h
  have hdvd : 2 ^ 32 ∣ rate * p * q := by
    rw [Nat.mul_right_comm]
    exact Nat.dvd_of_mod_eq_zero h
  have hlt : rate * p < 2 ^ 30 := by
    calc rate * p ≤ 1000000 * 1024 := Nat.mul_le_mul hrate hp
      _ < 2 ^ 30 := by decide
  have hzero : rate * p = 0 → rate = 0 := fun h => (Nat.mul_eq_zero.mp h).resolve_right (by omega)
  rcases two_pow_dvd_of_dvd_mul hq hdvd with hn | ⟨rfl, hn⟩ | ⟨hq', hn⟩
  · exact Or.inl (hzero (Nat.eq_zero_of_dvd_of_lt hn hlt))
  · -- sixteen quanta
    by_cases h0 : rate * p = 0
    · exact Or.inl (hzero h0)
    · have hmul : rate * p = 2 ^ 28 ∨ rate * p = 2 ^ 29 ∨ rate * p = 3 * 2 ^ 28 := by omega
      rcases prescaler_of_mul hrate hp hmul with ⟨-, rfl, hr⟩ | ⟨-, hr⟩
      · exact Or.inr (Or.inl ⟨hr, rfl⟩)
      · exact Or.inr (Or.inr ⟨hr, Or.inr (Or.inl (by decide : 16 < 24))⟩)
  · -- eight or twenty-four
    by_cases h0 : rate * p = 0
    · exact Or.inl (hzero h0)
    · have hmul : rate * p = 2 ^ 29 := by omega
      rcases prescaler_of_mul hrate hp (Or.inr (Or.inl hmul)) with ⟨hne, -⟩ | ⟨-, hr⟩
      · exact absurd hmul hne
      · have hp' : p = 1024 := by subst hr; omega
        refine Or.inr (Or.inr ⟨hr, ?_⟩)
        rcases hq' with rfl | rfl
        · exact Or.inr (Or.inl (by decide : 8 < 24))
        · exact Or.inl (by rw [hp'])

/-- There it does vanish. -/
theorem divisor_zero_pairs :
    (∀ x, divisor 0 x = 0) ∧ divisor (2 ^ 18) (16, 1024) = 0 ∧
      divisor (3 * 2 ^ 18) (16, 1024) = 0 ∧ divisor (2 ^ 19) (24, 1024) = 0 := by
  refine ⟨fun x => ?_, by decide, by decide, by decide⟩
  rw [divisor_eq, Nat.zero_mul, Nat.zero_mul, Nat.zero_mod]

/-! ### What is accepted -/

/-- Quanta and prescaler of the data phase. -/
def DataPair (y : ℕ × ℕ) : Prop := y.1 ∈ timeQuanta ∧ 1 ≤ y.2 ∧ y.2 ≤ 32

/-- The clock is what a pair and a divider `k` make of the rates, when products are taken through
`m`: the nominal bit, and with FD enabled the data bit, for which the nominal setting does if the
rates are the same and the prescaler fits. -/
def Matches (m : ℕ → ℕ) (fdoe : Bool) (rate data clk : ℕ) (x : ℕ × ℕ) (k : ℕ) : Prop :=
  1 ≤ k ∧ k ≤ 256 ∧ clk = m (rate * x.1 * x.2) * k ∧
    (fdoe = true → (data = rate ∧ x.2 ≤ 32) ∨
      (k < 256 ∧ ∃ y, DataPair y ∧ clk = m (data * y.1 * y.2 * k)))

/-- A product kept in 32 bits. -/
def cut (n : ℕ) : ℕ := n % 2 ^ 32

/-- There is a setting that gives the rates from the clock. -/
def Setting (fdoe : Bool) (rate data clk : ℕ) : Prop :=
  ∃ x ∈ pairs, ∃ k, Matches id fdoe rate data clk x k

/-- There is one modulo `2 ^ 32`, and one of its products is cut off. -/
def CutOff (fdoe : Bool) (rate data clk : ℕ) : Prop :=
  ∃ x ∈ pairs, ∃ k, Matches cut fdoe rate data clk x k ∧
    (2 ^ 32 ≤ rate * x.1 * x.2 ∨ (fdoe = true ∧ ¬ (data = rate ∧ x.2 ≤ 32) ∧
      ∃ y, DataPair y ∧ clk = cut (data * y.1 * y.2 * k) ∧ 2 ^ 32 ≤ data * y.1 * y.2 * k))

/-- The data loops find a pair iff there is one. -/
theorem findSome?_data_isSome_iff {γ : Type*} (data clk k : ℕ) (cfg : ℕ → ℕ → γ) :
    (timeQuanta.findSome? fun i32Dtq =>
        (List.range' 1 0x20).findSome? fun u8DataPrescaler =>
          if clk = mul32 (mul32 (mul32 data i32Dtq) u8DataPrescaler) k then
            some (cfg i32Dtq u8DataPrescaler)
          else none).isSome ↔
      ∃ y, DataPair y ∧ clk = cut (data * y.1 * y.2 * k) := by
  have hmul : ∀ q p, mul32 (mul32 (mul32 data q) p) k = cut (data * q * p * k) := by
    intro q p
    rw [mul32_mul32 data q p, mul32, Nat.mod_mul_mod, cut]
  simp only [List.findSome?_isSome_iff, List.mem_range'_1, hmul]
  constructor
  · rintro ⟨q, hq, p, hp, h⟩
    refine ⟨(q, p), ⟨hq, hp.1, by omega⟩, ?_⟩
    by_contra hne
    rw [if_neg hne] at h
    exact absurd h Bool.false_ne_true
  · rintro ⟨⟨q, p⟩, ⟨hq, hp, hp'⟩, h⟩
    refine ⟨q, hq, p, ⟨hp, by omega⟩, ?_⟩
    rw [if_pos h]
    rfl

/-- A clock that runs is accepted at a pair iff some divider matches. -/
theorem attempt_isSome_iff {fdoe : Bool} {rate data clk : ℕ} (hclk : clk ≠ 0) (x : ℕ × ℕ) :
    (attempt fdoe rate data clk x).isSome ↔
      ∃ k, Matches cut fdoe rate (if data = 0 then rate else data) clk x k := by
  set d := if data = 0 then rate else data with hd
  have hu8 : ∀ k : ℕ, u8 k = k % 256 := by
    intro k
    rw [u8]
    omega
  -- the quotient is the only divider that can match
  have hquot : ∀ k, clk = divisor rate x * k → clk / divisor rate x = k := by
    intro k hk
    have hpos : 0 < divisor rate x := Nat.pos_of_ne_zero fun h => hclk (by rw [hk, h, Nat.zero_mul])
    exact Nat.div_eq_of_eq_mul_right hpos hk
  have hcut : cut (rate * x.1 * x.2) = divisor rate x := (divisor_eq rate x).symm
  unfold attempt Matches
  rw [hcut]
  by_cases hacc : clk / divisor rate x ≤ 256 ∧ clk % divisor rate x = 0
  · obtain ⟨hle, hmod⟩ := hacc
    have hmul : clk = divisor rate x * (clk / divisor rate x) :=
      (Nat.mul_div_cancel' (Nat.dvd_of_mod_eq_zero hmod)).symm
    set k := clk / divisor rate x with hk
    have hk1 : 1 ≤ k := Nat.one_le_iff_ne_zero.mpr fun h => hclk (by rw [hmul, h, Nat.mul_zero])
    have honly : ∀ k', clk = divisor rate x * k' → k' = k := fun k' h => (hquot k' h).symm
    rw [if_pos ⟨hle, hmod⟩]
    cases fdoe with
    | false =>
      refine iff_of_true rfl ⟨k, hk1, hle, hmul, fun h => absurd h (by decide)⟩
    | true =>
      simp only [if_true, ← hd]
      by_cases hsame : d = rate ∧ x.2 ≤ 0x20
      · rw [if_pos hsame]
        exact iff_of_true rfl ⟨k, hk1, hle, hmul, fun _ => Or.inl hsame⟩
      · rw [if_neg hsame, findSome?_data_isSome_iff]
        constructor
        · rintro ⟨y, hy, h⟩
          refine ⟨k, hk1, hle, hmul, fun _ => Or.inr ?_⟩
          -- a divider of 256 is kept as 0, and then no data pair matches
          have hlt : k < 256 := by
            by_contra hge
            have h256 : k = 256 := by omega
            rw [hu8, h256, Nat.mod_self, Nat.mul_zero] at h
            exact hclk h
          rw [hu8, Nat.mod_eq_of_lt hlt] at h
          exact ⟨hlt, y, hy, h⟩
        · rintro ⟨k', -, -, hk', h⟩
          obtain rfl := honly k' hk'
          obtain ⟨hlt, y, hy, h⟩ := (h trivial).resolve_left hsame
          exact ⟨y, hy, by rwa [hu8, Nat.mod_eq_of_lt hlt]⟩
  · rw [if_neg hacc]
    refine iff_of_false (by decide) ?_
    rintro ⟨k, hk1, hk256, hk, -⟩
    refine hacc ⟨(hquot k hk).trans_le hk256, ?_⟩
    rw [hk, Nat.mul_mod_right]

/-! ### Totality -/

/-- What a total search owes its caller: it divides by none but positive numbers, and reports a
failure when there is no setting. -/
structure Total (fdoe : Bool) (nominal data clk : ℕ) : Prop where
  divides : ∀ x ∈ Search.tried (attempt fdoe (nominalRate nominal) data clk) pairs,
    divisor (nominalRate nominal) x ≠ 0
  fails : ¬ Setting fdoe (nominalRate nominal) (dataRate nominal data) clk →
    CANFD_CalculateTimingValues fdoe nominal data clk = none

/-- A pair before `z` matches, if only modulo `2 ^ 32`. -/
def StopsBefore (fdoe : Bool) (rate data clk : ℕ) (z : ℕ × ℕ) : Prop :=
  ∃ x ∈ pairs, Before x z ∧ ∃ k, Matches cut fdoe rate data clk x k

/-- The rates and clocks that the search is total on: none is 0, for three rates the search stops
before it comes to the product that vanishes, and a product that is cut off does not stand in for
a setting there is not. -/
structure Regular (fdoe : Bool) (rate data clk : ℕ) : Prop where
  clock : clk ≠ 0
  rate_ne : rate ≠ 0
  sixteen : rate = 2 ^ 18 ∨ rate = 3 * 2 ^ 18 → StopsBefore fdoe rate data clk (16, 1024)
  twentyFour : rate = 2 ^ 19 → StopsBefore fdoe rate data clk (24, 1024)
  exact : Setting fdoe rate data clk ∨ ¬ CutOff fdoe rate data clk

/-- A match whose products are not cut off is a setting. -/
theorem Setting.of_matches {fdoe : Bool} {rate data clk : ℕ} {x : ℕ × ℕ} {k : ℕ} (hx : x ∈ pairs)
    (h : Matches cut fdoe rate data clk x k) (hcut : ¬ CutOff fdoe rate data clk) :
    Setting fdoe rate data clk := by
  have hnominal : rate * x.1 * x.2 < 2 ^ 32 := by
    by_contra hge
    exact hcut ⟨x, hx, k, h, Or.inl (Nat.le_of_not_lt hge)⟩
  obtain ⟨hk1, hk256, hclk, hdata⟩ := id h
  refine ⟨x, hx, k, hk1, hk256, ?_, fun hfd => ?_⟩
  · rw [hclk, cut, Nat.mod_eq_of_lt hnominal]
    rfl
  · by_cases hsame : data = rate ∧ x.2 ≤ 32
    · exact Or.inl hsame
    · obtain ⟨hlt, y, hy, hd⟩ := (hdata hfd).resolve_left hsame
      have hprod : data * y.1 * y.2 * k < 2 ^ 32 := by
        by_contra hge
        exact hcut ⟨x, hx, k, h, Or.inr ⟨hfd, hsame, y, hy, hd, Nat.le_of_not_lt hge⟩⟩
      exact Or.inr ⟨hlt, y, hy, hd.trans (Nat.mod_eq_of_lt hprod)⟩

theorem head_pairs : ∃ l, pairs = (25, 1) :: l := ⟨pairs.tail, rfl⟩

/-- The first pair of all is tried whatever comes. -/
theorem first_tried (f : ℕ × ℕ → Option CANFD_TIMEING_CONFIG_T) :
    (25, 1) ∈ Search.tried f pairs := by
  obtain ⟨l, hl⟩ := head_pairs
  rw [hl]
  exact Search.mem_tried_head f (25, 1) l

/-- A clock of 0 is accepted at the first pair. -/
theorem attempt_clock_zero (fdoe : Bool) (rate data : ℕ) :
    (attempt fdoe rate data 0 (25, 1)).isSome := by
  have hacc : 0 / divisor rate (25, 1) ≤ 256 ∧ 0 % divisor rate (25, 1) = 0 := by simp
  unfold attempt
  rw [if_pos hacc, Nat.zero_div]
  cases fdoe with
  | false => rfl
  | true =>
    simp only [if_true]
    by_cases hsame : (if data = 0 then rate else data) = rate ∧ 1 ≤ 0x20
    · rw [if_pos hsame]
      rfl
    · rw [if_neg hsame, findSome?_data_isSome_iff]
      exact ⟨(25, 1), ⟨by decide, by decide, by decide⟩, by simp [u8, cut]⟩

theorem nominalRate_le (nominal : ℕ) : nominalRate nominal ≤ 1000000 := Nat.min_le_right _ _

/-- A pair at which a divisor vanishes is tried unless the search has stopped before it. -/
theorem Total.stopsBefore {fdoe : Bool} {nominal data clk : ℕ} (h : Total fdoe nominal data clk)
    (hclk : clk ≠ 0) {z : ℕ × ℕ} (hz : z ∈ pairs) (hzero : divisor (nominalRate nominal) z = 0) :
    StopsBefore fdoe (nominalRate nominal) (dataRate nominal data) clk z := by
  have hnot : z ∉ Search.tried (attempt fdoe (nominalRate nominal) data clk) pairs :=
    fun hmem => h.divides z hmem hzero
  rw [Search.mem_tried_iff before_asymm _ pairs_pairwise] at hnot
  push Not at hnot
  obtain ⟨x, hx, hbefore, hsome⟩ := hnot hz
  exact ⟨x, hx, hbefore, (attempt_isSome_iff hclk x).mp (Option.isSome_iff_ne_none.mpr hsome)⟩

/-- **Totality.**  The search is total exactly on the regular rates and clocks. -/
theorem CANFD_CalculateTimingValues_total_iff (fdoe : Bool) (nominal data clk : BitVec 32) :
    Total fdoe nominal.toNat data.toNat clk.toNat ↔
      Regular fdoe (nominalRate nominal.toNat) (dataRate nominal.toNat data.toNat) clk.toNat := by
  generalize nominal.toNat = nominal
  generalize data.toNat = data
  generalize clk.toNat = clk
  have hle := nominalRate_le nominal
  obtain ⟨hz0, hz18, hz318, hz19⟩ := divisor_zero_pairs
  have hsome : (CANFD_CalculateTimingValues fdoe nominal data clk).isSome ↔
      ∃ x ∈ pairs, (attempt fdoe (nominalRate nominal) data clk x).isSome := by
    rw [CANFD_CalculateTimingValues_eq, List.findSome?_isSome_iff]
  constructor
  · intro h
    have hrate : nominalRate nominal ≠ 0 := by
      intro h0
      exact h.divides (25, 1) (first_tried _) (h0 ▸ hz0 (25, 1))
    have hclk : clk ≠ 0 := by
      rintro rfl
      have hacc := hsome.mpr ⟨(25, 1), mem_pairs.mpr (by decide), attempt_clock_zero fdoe _ data⟩
      obtain ⟨x, hx, k, hk1, -, heq, -⟩ : Setting fdoe (nominalRate nominal)
          (dataRate nominal data) 0 := by
        by_contra hno
        rw [h.fails hno] at hacc
        exact Bool.false_ne_true hacc
      obtain ⟨hq, hp, -⟩ := mem_pairs.mp hx
      have hpos : 0 < nominalRate nominal * x.1 * x.2 * k :=
        Nat.mul_pos (Nat.mul_pos (Nat.mul_pos (Nat.pos_of_ne_zero hrate)
          (Nat.lt_of_lt_of_le (by decide) (mem_timeQuanta hq).1)) hp) hk1
      exact absurd heq (Nat.ne_of_lt hpos)
    refine ⟨hclk, hrate, fun hr => h.stopsBefore hclk (mem_pairs.mpr (by decide)) ?_,
      fun hr => h.stopsBefore hclk (mem_pairs.mpr (by decide)) (hr ▸ hz19), ?_⟩
    · rcases hr with hr | hr
      · exact hr ▸ hz18
      · exact hr ▸ hz318
    · -- something is accepted by a cut-off product, so there must be a setting
      by_contra hno
      push Not at hno
      obtain ⟨hsetting, x, hx, k, hk, -⟩ := hno
      have hacc := hsome.mpr ⟨x, hx, (attempt_isSome_iff hclk x).mpr ⟨k, hk⟩⟩
      rw [h.fails hsetting] at hacc
      exact Bool.false_ne_true hacc
  · intro h
    refine ⟨fun x hx hzero => ?_, fun hno => ?_⟩
    · rw [Search.mem_tried_iff before_asymm _ pairs_pairwise] at hx
      obtain ⟨hmem, hbefore⟩ := hx
      have hstop : ∀ z, StopsBefore fdoe (nominalRate nominal) (dataRate nominal data) clk z →
          ¬ (x = z ∨ Before z x) := by
        rintro z ⟨y, hy, hyz, hk⟩ hxz
        have hyx : Before y x := by
          rcases hxz with rfl | hzx
          · exact hyz
          · unfold Before at *
            omega
        have hnone := hbefore y hy hyx
        have hacc : (attempt fdoe (nominalRate nominal) data clk y).isSome :=
          (attempt_isSome_iff h.clock y).mpr hk
        rw [hnone] at hacc
        exact Bool.false_ne_true hacc
      rcases divisor_eq_zero hle hmem hzero with h0 | ⟨hr, hx⟩ | ⟨hr, hx⟩
      · exact h.rate_ne h0
      · exact hstop _ (h.sixteen hr) (Or.inl hx)
      · exact hstop _ (h.twentyFour hr) hx
    · by_contra hne
      obtain ⟨x, hx, hacc⟩ := hsome.mp (Option.isSome_iff_ne_none.mpr hne)
      obtain ⟨k, hk⟩ := (attempt_isSome_iff h.clock x).mp hacc
      exact hno (Setting.of_matches hx hk (h.exact.resolve_left hno))

/-- At 524288 bit/s from the 12 MHz oscillator the search divides by zero: the products before the
pair `(24, 1024)` are multiples of `2 ^ 19`, which does not divide the clock. -/
theorem CANFD_CalculateTimingValues_divides_by_zero : ¬ Total false 524288 0 12000000 := by
  intro h
  obtain ⟨x, hx, -, k, -, -, hk, -⟩ :=
    h.stopsBefore (by decide) (mem_pairs.mpr (by decide) : (24, 1024) ∈ pairs) (by decide)
  have hdvd : 2 ^ 19 ∣ 12000000 := by
    rw [hk, cut]
    refine Dvd.dvd.mul_right ?_ k
    rw [Nat.dvd_mod_iff (by decide), show nominalRate 524288 = 2 ^ 19 by decide, Nat.mul_assoc]
    exact Nat.dvd_mul_right _ _
  exact absurd hdvd (by decide)

end Canfd
