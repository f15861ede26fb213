/-
The modes of a block cipher, as machines whose state is the chaining value.

* **`Cipher.step_inverse`** — decryption undoes encryption, block by block;
* **`Cipher.step_injective`** — in the modes that encrypt the chaining value by itself, the output
  shows it.
-/
import Mathlib.Tactic.Common

/-- A block cipher under a key, with what its modes need of blocks: addition modulo two, and the step
of a counter. -/
structure Cipher (B : Type*) where
  enc : B → B
  dec : B → B
  dec_enc : ∀ b, dec (enc b) = b
  xor : B → B → B
  xor_comm : ∀ a b, xor a b = xor b a
  xor_cancel : ∀ a b, xor (xor a b) b = a
  incr : B → B

namespace Cipher

inductive Mode
  | ECB | CBC | CFB | OFB | CTR
  deriving DecidableEq

variable {B : Type*} (C : Cipher B)

/-- One block: what comes out, and the next chaining value. -/
def step (m : Mode) (encrypt : Bool) (c x : B) : B × B :=
  match m, encrypt with
  | .ECB, true => (C.enc x, c)
  | .ECB, false => (C.dec x, c)
  | .CBC, true => (C.enc (C.xor x c), C.enc (C.xor x c))
  | .CBC, false => (C.xor (C.dec x) c, x)
  | .CFB, true => (C.xor x (C.enc c), C.xor x (C.enc c))
  | .CFB, false => (C.xor x (C.enc c), x)
  | .OFB, _ => (C.xor x (C.enc c), C.enc c)
  | .CTR, _ => (C.xor x (C.enc c), C.incr c)

/-- **Decryption undoes encryption**, and both hand on the same chaining value. -/
theorem step_inverse (m : Mode) (c x : B) :
    C.step m false c (C.step m true c x).1 = (x, (C.step m true c x).2) := by
  cases m with
  | ECB => exact Prod.ext (C.dec_enc x) rfl
  | CBC => exact Prod.ext ((congrArg (C.xor · c) (C.dec_enc _)).trans (C.xor_cancel x c)) rfl
  | CFB | OFB | CTR => exact Prod.ext (C.xor_cancel x _) rfl

theorem xor_left_cancel {a b x : B} (h : C.xor x a = C.xor x b) : a = b := by
  rw [C.xor_comm x a, C.xor_comm x b] at h
  rw [← C.xor_cancel a x, h, C.xor_cancel]

theorem enc_injective {a b : B} (h : C.enc a = C.enc b) : a = b := by
  rw [← C.dec_enc a, h, C.dec_enc]

/-- The modes that encrypt the chaining value by itself. -/
def Mode.Streams : Mode → Prop
  | .CFB | .OFB | .CTR => True
  | .ECB | .CBC => False

theorem step_injective {m : Mode} (hm : m.Streams) (encrypt : Bool) (c d x : B)
    (h : (C.step m encrypt c x).1 = (C.step m encrypt d x).1) : c = d := by
  cases m with
  | ECB | CBC => exact hm.elim
  | CFB | OFB | CTR =>
    cases encrypt <;> exact C.enc_injective (C.xor_left_cancel h)

/-- In these modes the chaining value of CBC is the last block of the ciphertext. -/
theorem step_CBC_snd (encrypt : Bool) (c x : B) :
    (C.step .CBC encrypt c x).2 = if encrypt then (C.step .CBC encrypt c x).1 else x := by
  cases encrypt <;> rfl

end Cipher
