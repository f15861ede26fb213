/-
Cyclic redundancy checks, over a register of any width.

`shiftIn` divides by the generator one bit at a time; `check` is the checksum with the usual
parameters: seed, reflected input, reflected output.

* **`feed_append`** — the register after two pieces of data is that of the second, started from
  the register after the first;
* **`exists_feed_ne_reverse`** — from any register one byte leads to a value that reflection
  changes, unless the generator itself is its own reflection.
-/
import Mathlib.Tactic

namespace Remainder

variable {w : ℕ}

/-- One bit into the register: the top bit, against the data bit, selects the generator. -/
def shiftIn (poly r : BitVec w) (b : Bool) : BitVec w :=
  if r.msb ^^ b then r <<< 1 ^^^ poly else r <<< 1

/-- The bits of a byte in the order they are shifted in: from the top, or from the bottom when
the input is reflected. -/
def byteBits (refin : Bool) (b : BitVec 8) : List Bool :=
  if refin then (List.range 8).map b.getLsbD else (List.range 8).map b.getMsbD

/-- The register after some data. -/
def feed (poly : BitVec w) (refin : Bool) (r : BitVec w) (data : List (BitVec 8)) : BitVec w :=
  data.foldl (fun r b => (byteBits refin b).foldl (shiftIn poly) r) r

/-- The register as it is read. -/
def output (refout : Bool) (r : BitVec w) : BitVec w := if refout then r.reverse else r

/-- The checksum of some data. -/
def check (poly seed : BitVec w) (refin refout : Bool) (data : List (BitVec 8)) : BitVec w :=
  output refout (feed poly refin seed data)

@[simp] theorem feed_nil (poly : BitVec w) (refin : Bool) (r : BitVec w) :
    feed poly refin r [] = r := rfl

/-- **Data may be cut anywhere**, as long as the register is kept. -/
theorem feed_append (poly : BitVec w) (refin : Bool) (r : BitVec w) (a b : List (BitVec 8)) :
    feed poly refin r (a ++ b) = feed poly refin (feed poly refin r a) b :=
  List.foldl_append

theorem reverse_xor (a b : BitVec w) : (a ^^^ b).reverse = a.reverse ^^^ b.reverse := by
  refine BitVec.eq_of_getLsbD_eq fun i hi => ?_
  simp only [BitVec.getLsbD_reverse, BitVec.getLsbD_xor, BitVec.getMsbD_xor]

/-- The last bit of the data decides whether the generator is added. -/
theorem shiftIn_true (poly r : BitVec w) :
    shiftIn poly r true = shiftIn poly r false ^^^ poly := by
  unfold shiftIn
  cases r.msb
  · rfl
  · simp [BitVec.xor_assoc]

/-- **Reflection is seen**: of two bytes that differ in the bit fed last, one leads to a register
that is not its own reflection. -/
theorem exists_feed_ne_reverse {poly : BitVec w} (hp : poly.reverse ≠ poly) (refin : Bool)
    (r : BitVec w) : ∃ b, (feed poly refin r [b]).reverse ≠ feed poly refin r [b] := by
  obtain ⟨x, b0, b1, h0, h1⟩ : ∃ (x : BitVec w) (b0 b1 : BitVec 8),
      feed poly refin r [b0] = shiftIn poly x false ∧
      feed poly refin r [b1] = shiftIn poly x true := by
    refine ⟨(List.replicate 7 false).foldl (shiftIn poly) r, 0, if refin then 0x80 else 1, ?_⟩
    cases refin
    · exact ⟨rfl, rfl⟩
    · exact ⟨rfl, rfl⟩
  by_contra hall
  push Not at hall
  refine hp ?_
  have e0 := hall b0
  have e1 := hall b1
  rw [h0] at e0
  rw [h1, shiftIn_true, reverse_xor, e0] at e1
  -- two reflected registers that differ by the generator make it its own reflection
  have := congrArg (shiftIn poly x false ^^^ ·) e1
  simpa [← BitVec.xor_assoc] using this

/-- A check of 16 bits with both reflections, over the nine digits customary for it. -/
example : check (0x8005 : BitVec 16) 0 true true
    [0x31, 0x32, 0x33, 0x34, 0x35, 0x36, 0x37, 0x38, 0x39] = 0xBB3D := by decide +kernel

end Remainder
