/-
Pins by their names: `nu_gpio_pin_get`.

A name is a string of C, as the caller has it; reading behind its terminator has no result.  The
parser looks at single characters of the name first, and leaves the number to `atol`.

* **`nu_gpio_pin_get`** — the parser;
* **`Names`** — the language it is for;
* **`pin_get_two`** — what it makes of any name of two characters or more;
* **`pin_get_right_iff`** — the names it gets right.
-/
import NuMaker.Gpio.Driver
import NuMaker.Lib.Numeral

namespace Gpio

open Numeral

def RT_EINVAL : ℤ := 10

def NU_GET_PININDEX (port pin : ℕ) : ℤ := port * 16 + pin

/-! ### The parser -/

/-- What becomes of the number, once it is converted. -/
def pin_of_number (name : CString) (number : ℤ) : Option ℤ :=
  if number > 15 then some (-RT_EINVAL)
  else
    (name.at 1).bind fun c =>
      if 'A'.toUInt8 ≤ c ∧ c ≤ 'H'.toUInt8 then
        some (((c.toNat : ℤ) - 'A'.toNat) * 0x10 + number)
      else if 'a'.toUInt8 ≤ c ∧ c ≤ 'h'.toUInt8 then
        some (((c.toNat : ℤ) - 'a'.toNat) * 0x10 + number)
      else some (-RT_EINVAL)

/-- `none` is a read behind the terminator of the name. -/
def nu_gpio_pin_get (name : CString) : Option ℤ :=
  (name.at 2).bind fun c =>
    if c = 0 then some (-RT_EINVAL)
    else if c = '.'.toUInt8 then
      (name.at 3).bind fun c =>
        if c = 0 then some (-RT_EINVAL) else pin_of_number name (atol (name.chars.drop 3))
    else pin_of_number name (atol (name.chars.drop 2))

/-! ### The language -/

/-- The port of a letter. -/
def portOf (c : UInt8) : Option ℕ :=
  if 'A'.toUInt8 ≤ c ∧ c ≤ 'H'.toUInt8 then some (c.toNat - 'A'.toNat)
  else if 'a'.toUInt8 ≤ c ∧ c ≤ 'h'.toUInt8 then some (c.toNat - 'a'.toNat)
  else none

/-- What is behind the optional point. -/
def text : List UInt8 → List UInt8
  | c :: rest => if c = '.'.toUInt8 then rest else c :: rest
  | [] => []

/-- The port has the pin. -/
def Exists (port pin : ℕ) : Prop := pin ≤ 15 ∧ nu_port_check (NU_GET_PININDEX port pin) = RT_EOK

/-- The name of a pin: `P`, the letter of the port, maybe a point, and the digits of the pin. -/
def Names (name : CString) (port pin : ℕ) : Prop :=
  ∃ letter digits, (name.chars = 'P'.toUInt8 :: letter :: digits ∨
      name.chars = 'P'.toUInt8 :: letter :: '.'.toUInt8 :: digits) ∧
    portOf letter = some port ∧ digits ≠ [] ∧ (∀ c ∈ digits, isdigit c) ∧
    decimal digits = pin ∧ Exists port pin

/-- A name of a pin gives its index, which no name of another pin gives, and all other strings give the
error. -/
structure Right (name : CString) : Prop where
  index : ∀ port pin, Names name port pin →
    nu_gpio_pin_get name = some (NU_GET_PININDEX port pin)
  distinct : ∀ name' port pin port' pin', Names name port pin → Names name' port' pin' →
    nu_gpio_pin_get name = nu_gpio_pin_get name' → port = port' ∧ pin = pin'
  error : (¬ ∃ port pin, Names name port pin) → nu_gpio_pin_get name = some (-RT_EINVAL)

/-! ### What the parser computes -/

theorem portOf_lt {c : UInt8} {port : ℕ} (h : portOf c = some port) : port < 8 := by
  simp only [portOf, UInt8.le_iff_toNat_le] at h
  change (if 65 ≤ c.toNat ∧ c.toNat ≤ 72 then some (c.toNat - 65)
    else if 97 ≤ c.toNat ∧ c.toNat ≤ 104 then some (c.toNat - 97) else none) = some port at h
  split at h
  · cases h; omega
  · split at h
    · cases h; omega
    · cases h

theorem exists_iff {port pin : ℕ} (hport : port < 8) :
    Exists port pin ↔ pin ≤ 15 ∧ (port = 7 → pin ≤ 11) := by
  refine and_congr_right fun hpin => ?_
  have hP : NU_GET_PORT (NU_GET_PININDEX port pin) = port := by
    simp only [NU_GET_PORT, NU_GET_PININDEX]
    omega
  have hN : NU_GET_PINS (NU_GET_PININDEX port pin) = pin := by
    simp only [NU_GET_PINS, NU_GET_PININDEX]
    omega
  simp only [nu_port_check, hP, hN, NU_PORT_CNT, NU_PH, MAX_PORTH_PIN_MAX, RT_ERROR, RT_EOK]
  have hcnt : ¬ (port : ℤ) ≥ 8 := by omega
  rw [if_neg hcnt]
  split <;> omega

/-- The digits of a name are what the parser takes for its text. -/
theorem names_iff {name : CString} {port pin : ℕ} :
    Names name port pin ↔ ∃ letter rest, name.chars = 'P'.toUInt8 :: letter :: rest ∧
      portOf letter = some port ∧ text rest ≠ [] ∧ (∀ c ∈ text rest, isdigit c) ∧
      decimal (text rest) = pin ∧ Exists port pin := by
  constructor
  · rintro ⟨letter, digits, hchars | hchars, hport, hne, hdigits, hpin⟩
    · -- a digit is not a point
      have htext : text digits = digits := by
        rcases digits with _ | ⟨c, digits⟩
        · rfl
        · have hc : c ≠ '.'.toUInt8 := by
            rintro rfl
            exact absurd (hdigits _ List.mem_cons_self) (by decide)
          rw [text, if_neg hc]
      exact ⟨letter, digits, hchars, hport, by rwa [htext], by rwa [htext], by rwa [htext]⟩
    · have htext : text ('.'.toUInt8 :: digits) = digits := by rw [text, if_pos rfl]
      exact ⟨letter, _, hchars, hport, by rwa [htext], by rwa [htext], by rwa [htext]⟩
  · rintro ⟨letter, rest, hchars, hport, hne, hdigits, hpin⟩
    refine ⟨letter, text rest, ?_, hport, hne, hdigits, hpin⟩
    rcases rest with _ | ⟨c, rest⟩
    · exact Or.inl hchars
    · by_cases hc : c = '.'.toUInt8
      · exact Or.inr (by rw [text, if_pos hc, ← hc, hchars])
      · exact Or.inl (by rw [text, if_neg hc, hchars])

/-- A converted number and the letter decide. -/
theorem pin_of_number_eq {name : CString} {c₀ c₁ : UInt8} {rest : List UInt8}
    (h : name.chars = c₀ :: c₁ :: rest) (number : ℤ) :
    pin_of_number name number =
      some (if number > 15 then -RT_EINVAL
        else match portOf c₁ with
          | some port => port * 16 + number
          | none => -RT_EINVAL) := by
  have hat : name.at 1 = some c₁ := by simp [CString.at, h]
  rw [pin_of_number, hat, Option.bind_some]
  by_cases hnum : number > 15
  · rw [if_pos hnum, if_pos hnum]
  rw [if_neg hnum, if_neg hnum]
  by_cases hupper : 'A'.toUInt8 ≤ c₁ ∧ c₁ ≤ 'H'.toUInt8
  · have hge : 'A'.toNat ≤ c₁.toNat := UInt8.le_iff_toNat_le.mp hupper.1
    rw [if_pos hupper, portOf, if_pos hupper]
    simp only [Nat.cast_sub hge]
  · by_cases hlower : 'a'.toUInt8 ≤ c₁ ∧ c₁ ≤ 'h'.toUInt8
    · have hge : 'a'.toNat ≤ c₁.toNat := UInt8.le_iff_toNat_le.mp hlower.1
      rw [if_neg hupper, if_pos hlower, portOf, if_neg hupper, if_pos hlower]
      simp only [Nat.cast_sub hge]
    · rw [if_neg hupper, if_neg hlower, portOf, if_neg hupper, if_neg hlower]

/-- **The parser on two characters and more**: without a text there is an error, and its number is
converted, whatever it is made of, and whatever the first character is. -/
theorem pin_get_two {name : CString} {c₀ c₁ : UInt8} {rest : List UInt8}
    (h : name.chars = c₀ :: c₁ :: rest) :
    nu_gpio_pin_get name =
      if text rest = [] then some (-RT_EINVAL) else pin_of_number name (atol (text rest)) := by
  have hnonzero : ∀ c ∈ rest, c ≠ 0 := fun c hc =>
    name.nonzero c (by rw [h]; exact List.mem_cons_of_mem _ (List.mem_cons_of_mem _ hc))
  rw [nu_gpio_pin_get, CString.at, CString.at, h]
  rcases rest with _ | ⟨c₂, rest⟩
  · simp [text]
  have hc₂ : c₂ ≠ 0 := hnonzero c₂ List.mem_cons_self
  by_cases hpoint : c₂ = '.'.toUInt8
  · have hdot : '.'.toUInt8 ≠ 0 := by decide
    rcases rest with _ | ⟨c₃, rest⟩
    · simp [text, hpoint, hdot]
    · have hc₃ : c₃ ≠ 0 := hnonzero c₃ (List.mem_cons_of_mem _ List.mem_cons_self)
      simp [text, hpoint, hdot, hc₃]
  · simp [text, hpoint, hc₂]

/-- A name that is too short is read behind its terminator. -/
theorem pin_get_short {name : CString} (h : name.chars.length < 2) :
    nu_gpio_pin_get name = none := by
  have hat : name.at 2 = none := by
    rw [CString.at, List.getElem?_eq_none_iff, List.length_append, List.length_singleton]
    omega
  rw [nu_gpio_pin_get, hat, Option.bind_none]

theorem names_length {name : CString} {port pin : ℕ} (h : Names name port pin) :
    2 ≤ name.chars.length := by
  obtain ⟨letter, rest, hchars, -⟩ := names_iff.mp h
  rw [hchars]
  simp

/-- **The parser is right on the names of pins.** -/
theorem pin_get_of_names {name : CString} {port pin : ℕ} (h : Names name port pin) :
    nu_gpio_pin_get name = some (NU_GET_PININDEX port pin) := by
  obtain ⟨letter, rest, hchars, hport, hne, hdigits, rfl, hexists⟩ := names_iff.mp h
  have hpin : decimal (text rest) ≤ 15 := hexists.1
  have hatol : atol (text rest) = decimal (text rest) := by
    rw [atol_of_digits hdigits, min_eq_left (by omega)]
  have hnum : ¬ (decimal (text rest) : ℤ) > 15 := by omega
  rw [pin_get_two hchars, if_neg hne, pin_of_number_eq hchars, hatol, if_neg hnum, hport]
  rfl

/-! ### Which names it gets right -/

/-- A string that is not the name of a pin, and is taken for one: there are two characters, a port
letter, and a number that is not too large; but something else is before it or in its text, or the
port has fewer pins.  (With one number for each port the index is the error by chance.) -/
def Misread (name : CString) : Prop :=
  ∃ c₀ letter rest port, name.chars = c₀ :: letter :: rest ∧ portOf letter = some port ∧
    text rest ≠ [] ∧ atol (text rest) ≤ 15 ∧
    (c₀ ≠ 'P'.toUInt8 ∨ (∃ c ∈ text rest, ¬ isdigit c) ∨ (port = 7 ∧ atol (text rest) > 11)) ∧
    atol (text rest) ≠ -RT_EINVAL - port * 16

theorem not_names_of_misread {name : CString} (h : Misread name) :
    ¬ ∃ port pin, Names name port pin := by
  obtain ⟨c₀, letter, rest, port, hchars, hport, -, -, hbad, -⟩ := h
  rintro ⟨port', pin, hnames⟩
  obtain ⟨letter', rest', hchars', hport', -, hdigits, rfl, hexists⟩ := names_iff.mp hnames
  rw [hchars', List.cons.injEq, List.cons.injEq] at hchars
  obtain ⟨rfl, rfl, rfl⟩ := hchars
  obtain rfl : port' = port := Option.some.inj (hport'.symm.trans hport)
  have hpins := (exists_iff (portOf_lt hport)).mp hexists
  rcases hbad with hP | ⟨c, hc, hnot⟩ | ⟨hH, hnum⟩
  · exact hP rfl
  · exact hnot (hdigits c hc)
  · rw [atol_of_digits hdigits] at hnum
    have := hpins.2 hH
    omega

/-- Without a name, a port letter and a number that is not too large are all it takes. -/
theorem misread_of_not_names {name : CString} {c₀ letter : UInt8} {rest : List UInt8} {port : ℕ}
    (hchars : name.chars = c₀ :: letter :: rest) (hport : portOf letter = some port)
    (hne : text rest ≠ []) (hnum : atol (text rest) ≤ 15)
    (hval : atol (text rest) ≠ -RT_EINVAL - port * 16)
    (hnot : ¬ ∃ port pin, Names name port pin) : Misread name := by
  refine ⟨c₀, letter, rest, port, hchars, hport, hne, hnum, ?_, hval⟩
  by_contra hall
  push Not at hall
  obtain ⟨rfl, hdigits, hH⟩ := hall
  have hatol := atol_of_digits hdigits
  refine hnot ⟨port, decimal (text rest), names_iff.mpr
    ⟨letter, rest, hchars, hport, hne, hdigits, rfl, ?_⟩⟩
  refine (exists_iff (portOf_lt hport)).mpr ⟨by omega, fun h7 => ?_⟩
  have := hH h7
  omega

theorem right_of_not_names {name : CString} (hlen : 2 ≤ name.chars.length)
    (hnot : ¬ ∃ port pin, Names name port pin) :
    nu_gpio_pin_get name = some (-RT_EINVAL) ↔ ¬ Misread name := by
  obtain ⟨c₀, letter, rest, hchars⟩ : ∃ c₀ letter rest, name.chars = c₀ :: letter :: rest := by
    match hchars : name.chars, hlen with
    | c₀ :: letter :: rest, _ => exact ⟨c₀, letter, rest, rfl⟩
  -- what a misread string would have to be like is read off this one
  have hmis : ∀ {P : Prop}, (∀ port, portOf letter = some port → text rest ≠ [] →
      atol (text rest) ≤ 15 → atol (text rest) ≠ -RT_EINVAL - port * 16 → P) →
      Misread name → P := by
    rintro P hP ⟨c₀', letter', rest', port, hchars', hport, hne, hnum, -, hval⟩
    rw [hchars', List.cons.injEq, List.cons.injEq] at hchars
    obtain ⟨rfl, rfl, rfl⟩ := hchars
    exact hP port hport hne hnum hval
  rw [pin_get_two hchars, pin_of_number_eq hchars]
  by_cases hne : text rest = []
  · exact iff_of_true (by rw [if_pos hne]) (hmis fun _ _ h _ _ => h hne)
  by_cases hnum : atol (text rest) > 15
  · exact iff_of_true (by rw [if_neg hne, if_pos hnum]) (hmis fun _ _ _ h _ => absurd hnum h.not_gt)
  rw [if_neg hne, if_neg hnum, Option.some_inj]
  cases hport : portOf letter with
  | none =>
    refine iff_of_true rfl (hmis fun port h _ _ _ => ?_)
    rw [hport] at h
    cases h
  | some port =>
    constructor
    · intro hval
      refine hmis fun port' h _ _ hval' => hval' ?_
      obtain rfl : port = port' := Option.some.inj (hport.symm.trans h)
      simp only at hval
      omega
    · intro hgood
      by_contra hval
      simp only at hval
      exact hgood (misread_of_not_names hchars hport hne (by omega) (by omega) hnot)

/-- Two pins have not the same index. -/
theorem pin_get_injective {name name' : CString} {port pin port' pin' : ℕ}
    (h : Names name port pin) (h' : Names name' port' pin')
    (heq : nu_gpio_pin_get name = nu_gpio_pin_get name') : port = port' ∧ pin = pin' := by
  rw [pin_get_of_names h, pin_get_of_names h', Option.some_inj] at heq
  obtain ⟨_, _, _, _, _, _, _, hexists⟩ := h
  obtain ⟨_, _, _, _, _, _, _, hexists'⟩ := h'
  have hpin := hexists.1
  have hpin' := hexists'.1
  simp only [NU_GET_PININDEX] at heq
  omega

/-- **The names that the parser gets right.** -/
theorem pin_get_right_iff (name : CString) :
    Right name ↔ 2 ≤ name.chars.length ∧ ¬ Misread name := by
  by_cases hnames : ∃ port pin, Names name port pin
  · refine iff_of_true ⟨fun _ _ => pin_get_of_names, fun _ _ _ _ _ => pin_get_injective,
      fun h => absurd hnames h⟩ ⟨?_, fun h => ?_⟩
    · obtain ⟨port, pin, h⟩ := hnames
      exact names_length h
    · exact not_names_of_misread h hnames
  · have hright : Right name ↔ nu_gpio_pin_get name = some (-RT_EINVAL) :=
      ⟨fun h => h.error hnames, fun h => ⟨fun port pin hn => absurd ⟨port, pin, hn⟩ hnames,
        fun _ port pin _ _ hn => absurd ⟨port, pin, hn⟩ hnames, fun _ => h⟩⟩
    rw [hright]
    by_cases hlen : 2 ≤ name.chars.length
    · rw [right_of_not_names hlen hnames]
      exact (and_iff_right hlen).symm
    · rw [pin_get_short (by omega)]
      exact iff_of_false (fun h => by cases h) fun h => hlen h.1

/-- `PH15`. -/
def ph15 : CString := ⟨[80, 72, 49, 53], by simp⟩

/-- `PH15` is given an index, though port H ends with pin 11. -/
theorem pin_get_accepts_ph15 : ¬ ∀ name, Right name := by
  intro h
  have hmis : Misread ph15 :=
    ⟨80, 72, [49, 53], 7, rfl, by decide, by decide, by decide, Or.inr (Or.inr (by decide)),
      by decide⟩
  have herr := (h ph15).error (not_names_of_misread hmis)
  exact absurd herr (by decide)

end Gpio
