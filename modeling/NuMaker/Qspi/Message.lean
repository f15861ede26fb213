/-
Messages on the QSPI bus: `nu_qspi_mode_config` and `nu_qspi_bus_xfer` of `drv_qspi.c`.

A message has up to five phases, each on a number of lines of its own.  Before a phase the driver
programs the line mode, whose bits it sets one at a time; what a phase drives is the words it
writes, as the register has them at that time.  The result is recorded phase by phase:

* **`stage_eq_asked`** — when one phase appears as it was asked for;
* **`idle_iff`** — when the dummy phase is the clocks it was asked for;
* **`message_asWritten_iff`** — when a whole message appears as written.
-/
import NuMaker.NuUtils.Bytes

open NuUtils (getLe)

namespace Qspi

/-! ### Messages -/

/-- The instruction of a `struct rt_qspi_message`. -/
structure Instruction where
  content : BitVec 8
  qspi_lines : ℕ

/-- Its address and its alternate bytes; the size is in bits. -/
structure Field where
  content : BitVec 32
  size : ℕ
  qspi_lines : ℕ

/-- `struct rt_qspi_message`.  A buffer to send is the memory from its address on. -/
structure rt_qspi_message where
  send_buf : Option (ℕ → BitVec 8)
  recv_buf : Bool
  length : ℕ
  cs_take : Bool
  cs_release : Bool
  instruction : Instruction
  address : Field
  alternate_bytes : Field
  dummy_cycles : ℕ
  qspi_data_lines : ℕ

/-- The line counts a message may name; a phase on no line is absent. -/
def Lines (n : ℕ) : Prop := n = 0 ∨ n = 1 ∨ n = 2 ∨ n = 4

/-- The sizes: up to four bytes. -/
def Size (n : ℕ) : Prop := n = 0 ∨ n = 8 ∨ n = 16 ∨ n = 24 ∨ n = 32

/-- A message as its type is meant: known line counts and sizes, and data in one direction. -/
structure rt_qspi_message.WellFormed (m : rt_qspi_message) : Prop where
  instruction : Lines m.instruction.qspi_lines
  address : Lines m.address.qspi_lines ∧ Size m.address.size
  alternate : Lines m.alternate_bytes.qspi_lines ∧ Size m.alternate_bytes.size
  data : Lines m.qspi_data_lines
  direction : m.recv_buf = !m.send_buf.isSome

/-! ### The line mode -/

/-- The fields of `QSPI_CTL` that select the lines. -/
structure Ctl where
  DATDIR : Bool
  DUALIOEN : Bool
  QUADIOEN : Bool
deriving DecidableEq, Repr

/-- The lines in use; with both modes enabled there is no telling. -/
def Ctl.lines (c : Ctl) : Option ℕ :=
  if c.DUALIOEN then if c.QUADIOEN then none else some 2
  else if c.QUADIOEN then some 4 else some 1

/-- `nu_qspi_mode_config`: `tx` says that there is a buffer to send.  Enabling a mode sets its
bit and leaves that of the other; without `RT_SFUD_USING_QSPI` there is one line. -/
def nu_qspi_mode_config (sfud : Bool) (c : Ctl) (tx : Bool) (qspi_lines : ℕ) : Ctl × ℕ :=
  (if sfud && decide (1 < qspi_lines) then
      if qspi_lines = 2 then { c with DATDIR := tx, DUALIOEN := true }
      else if qspi_lines = 4 then { c with DATDIR := tx, QUADIOEN := true }
      else c
    else { c with DUALIOEN := false, QUADIOEN := false },
    qspi_lines)

/-- A word on the wire: its lines, its direction, its bits, and its value where it is driven. -/
structure Word where
  lines : Option ℕ
  out : Bool
  bits : ℕ
  value : Option (BitVec 32)
deriving DecidableEq, Repr

/-- A word written to the controller.  On one line it is driven if there is something to send; on
more lines the direction bit decides. -/
def Ctl.word (c : Ctl) (bits : ℕ) (tx : Option (BitVec 32)) : Word :=
  let out := if c.lines = some 1 then tx.isSome else c.DATDIR
  { lines := c.lines, out := out, bits := bits, value := if out then some (tx.getD 0) else none }

/-! ### The driver -/

/-- A bus: the mode register, the select line, the configuration that was opened, and the bytes
that follow its field `dummy` in memory. -/
structure Bus where
  ctl : Ctl
  ssHigh : Bool
  csHigh : Bool
  noCs : Bool
  data_width : ℕ
  beyond : ℕ → BitVec 8
  width_ok : data_width = 8 ∨ data_width = 16 ∨ data_width = 24 ∨ data_width = 32

/-- The words `nu_spi_transfer` writes for a buffer: as many as reach its length. -/
def payload (tx : Option (ℕ → BitVec 8)) (length bytes_per_word : ℕ) : List (Option (BitVec 32)) :=
  (List.range ((length + bytes_per_word - 1) / bytes_per_word)).map fun k =>
    tx.map fun mem => getLe mem (k * bytes_per_word) bytes_per_word

/-- The switch on the bytes of an address: the reversed bytes that are sent, first to last. -/
def reversed (content : BitVec 32) : ℕ → Option (List (BitVec 8))
  | 1 => some [content.setWidth 8]
  | 2 => some [(content >>> 8).setWidth 8, content.setWidth 8]
  | 3 => some [(content >>> 16).setWidth 8, (content >>> 8).setWidth 8, content.setWidth 8]
  | 4 => some [(content >>> 24).setWidth 8, (content >>> 16).setWidth 8,
      (content >>> 8).setWidth 8, content.setWidth 8]
  | _ => none

/-- The bytes of a field that may be present. -/
def Field.prepared (f : Field) (present : Bool) : Option (List (BitVec 8)) :=
  if present then reversed f.content (f.size / 8) else some []

/-- The words of bytes that are sent one by one. -/
def sent (bytes : List (BitVec 8)) : List (Option (BitVec 32)) := bytes.map fun b => some (b.setWidth 32)

/-- What the message has driven, phase by phase. -/
structure Trace where
  instruction : List Word
  address : List Word
  alternate : List Word
  dummy : List Word
  data : List Word

/-- A phase that is present: the line mode, then `nu_spi_transfer`.  Next to the mode register it
hands on `u8last`, the lines of the last phase so far. -/
def stage (sfud : Bool) (width : ℕ) (present tx : Bool) (qspi_lines : ℕ)
    (words : List (Option (BitVec 32))) (st : Ctl × ℕ) : (Ctl × ℕ) × List Word :=
  if present then
    let st := nu_qspi_mode_config sfud st.1 tx qspi_lines
    (st, words.map (st.1.word width))
  else (st, [])

/-- The bytes from the field `dummy` on: four of filler, then what follows in memory. -/
def Bus.dummy (s : Bus) (i : ℕ) : BitVec 8 := if i < 4 then 0x00 else s.beyond i

/-- The select line at the start or the end of a message. -/
def Bus.select (s : Bus) (doIt active : Bool) : Bus :=
  if doIt && !s.noCs then { s with ssHigh := active == s.csHigh } else s

/-- `nu_qspi_bus_xfer`: what was driven, the bus, and the length returned.  It does not return
where it divides by zero, or at an assertion. -/
def nu_qspi_bus_xfer (sfud : Bool) (s : Bus) (m : rt_qspi_message) : Option (Trace × Bus × ℕ) := do
  let bytes_per_word := s.data_width / 8
  let s := s.select m.cs_take true
  let (st, instruction) := stage sfud s.data_width (m.instruction.content ≠ 0) true
    m.instruction.qspi_lines (sent [m.instruction.content]) (s.ctl, 1)
  let bytes ← m.address.prepared (0 < m.address.size)
  let (st, address) := stage sfud s.data_width (0 < m.address.size) true m.address.qspi_lines
    (sent bytes) st
  -- the size is in bits: no size of whole bytes is within this bound
  let hasAlternate := 0 < m.alternate_bytes.size ∧ m.alternate_bytes.size ≤ 4
  let bytes ← m.alternate_bytes.prepared hasAlternate
  let (st, alternate) := stage sfud s.data_width hasAlternate true m.alternate_bytes.qspi_lines
    (sent bytes) st
  -- eight is divided by the lines, and the cycles by the quotient
  if 0 < m.dummy_cycles ∧ 8 / st.2 = 0 then none
  else
    let (st, dummy) := stage sfud s.data_width (0 < m.dummy_cycles) true st.2
      (payload (some s.dummy) (m.dummy_cycles / (8 / st.2)) 1) st
    let (st, data) := stage sfud s.data_width (0 < m.length) m.send_buf.isSome m.qspi_data_lines
      (payload m.send_buf m.length bytes_per_word) st
    some (⟨instruction, address, alternate, dummy, data⟩,
      { s with ctl := st.1 }.select m.cs_release false, if 0 < m.length then m.length else 1)

/-! ### A message as it is written -/

/-- A phase as it is asked for: its values on its lines, or nothing. -/
def asked (lines : ℕ) (out : Bool) (bits : ℕ) (values : List (Option (BitVec 32))) : List Word :=
  if lines = 0 then [] else values.map fun v => ⟨some lines, out, bits, v⟩

/-- The bytes of a field, most significant first. -/
def Field.bytes (f : Field) : List (BitVec 8) :=
  (List.range (f.size / 8)).reverse.map fun k => (f.content >>> (8 * k)).setWidth 8

/-- A word of the dummy phase: filler, driven on known lines. -/
def Word.Filler (w : Word) : Prop := w.lines.isSome ∧ w.out = true ∧ w.value = some 0

/-- The clocks a word takes. -/
def Word.clocks (w : Word) : ℕ := w.bits / w.lines.getD 1

/-- **A message appears as written.** -/
structure Trace.AsWritten (t : Trace) (s : Bus) (m : rt_qspi_message) : Prop where
  instruction : t.instruction = asked m.instruction.qspi_lines true 8 (sent [m.instruction.content])
  address : t.address = asked m.address.qspi_lines true 8 (sent m.address.bytes)
  alternate : t.alternate = asked m.alternate_bytes.qspi_lines true 8 (sent m.alternate_bytes.bytes)
  dummy : (t.dummy.map Word.clocks).sum = m.dummy_cycles ∧ ∀ w ∈ t.dummy, w.Filler
  data : t.data = asked m.qspi_data_lines m.send_buf.isSome s.data_width
    (payload m.send_buf m.length (s.data_width / 8))
  whole : s.data_width / 8 ∣ m.length

/-- A phase on `n` lines gets them: one line always, two if four are not enabled before it, four
if two are not; and only with `RT_SFUD_USING_QSPI`. -/
def LineOk (sfud : Bool) (c : Ctl) (n : ℕ) : Prop :=
  n ≤ 1 ∨ sfud = true ∧ (n = 2 → c.QUADIOEN = false) ∧ (n = 4 → c.DUALIOEN = false)

/-- The line mode after a phase that got its lines. -/
def Ctl.after (c : Ctl) (n : ℕ) : Ctl := { c with DUALIOEN := n = 2, QUADIOEN := n = 4 }

/-- Phases one after the other, those that are present, from a mode register on. -/
def LinesOk (sfud : Bool) : Ctl → List (Option ℕ) → Prop
  | _, [] => True
  | c, none :: rest => LinesOk sfud c rest
  | c, some n :: rest => LineOk sfud c n ∧ LinesOk sfud (c.after n) rest

/-- The lines of the last phase before the dummy clocks. -/
def rt_qspi_message.dummyLines (m : rt_qspi_message) : ℕ :=
  if 0 < m.address.size then m.address.qspi_lines
  else if m.instruction.content ≠ 0 then m.instruction.qspi_lines else 1

/-- The lines of the phases the driver takes for present. -/
def rt_qspi_message.phases (m : rt_qspi_message) : List (Option ℕ) :=
  [if m.instruction.content ≠ 0 then some m.instruction.qspi_lines else none,
   if 0 < m.address.size then some m.address.qspi_lines else none,
   if 0 < m.dummy_cycles then some m.dummyLines else none,
   if 0 < m.length then some m.qspi_data_lines else none]

/-- The condition on a message and the bus it meets. -/
structure MessageOk (sfud : Bool) (s : Bus) (m : rt_qspi_message) : Prop where
  /-- An instruction is present exactly if it is not zero. -/
  instruction : m.instruction.content ≠ 0 ↔ m.instruction.qspi_lines ≠ 0
  /-- An address or data that is there has lines. -/
  address : 0 < m.address.size → m.address.qspi_lines ≠ 0
  data : 0 < m.length → m.qspi_data_lines ≠ 0
  /-- There are no alternate bytes. -/
  alternate : m.alternate_bytes.size = 0 ∨ m.alternate_bytes.qspi_lines = 0
  /-- What goes byte by byte goes over a bus of bytes. -/
  width : (m.instruction.content ≠ 0 ∨ 0 < m.address.size ∨ 0 < m.dummy_cycles) → s.data_width = 8
  whole : s.data_width / 8 ∣ m.length
  /-- The dummy cycles are whole bytes, and past the fourth the memory is filler. -/
  dummy : 8 / m.dummyLines ∣ m.dummy_cycles ∧
    ∀ i, 4 ≤ i → i < m.dummy_cycles / (8 / m.dummyLines) → s.beyond i = 0
  /-- No phase on two lines follows one on four, or the other way round. -/
  lines : LinesOk sfud s.ctl m.phases

/-! ### One phase -/

/-- Whatever the mode register is, one line is got; two and four as `LineOk` says. -/
theorem mode_config_lines {sfud : Bool} {c : Ctl} {tx : Bool} {n : ℕ} (hn : Lines n) (h0 : n ≠ 0) :
    (nu_qspi_mode_config sfud c tx n).1.lines = some n ↔ LineOk sfud c n := by
  obtain ⟨dir, dual, quad⟩ := c
  rcases hn with rfl | rfl | rfl | rfl
  · exact absurd rfl h0
  · simp [nu_qspi_mode_config, Ctl.lines, LineOk]
  · cases sfud <;> cases quad <;> simp [nu_qspi_mode_config, Ctl.lines, LineOk]
  · cases sfud <;> cases dual <;> simp [nu_qspi_mode_config, Ctl.lines, LineOk]

/-- A phase that gets its lines gets its direction, and leaves its line mode. -/
theorem mode_config_after {sfud : Bool} {c : Ctl} {tx : Bool} {n : ℕ} (hn : Lines n)
    (hok : LineOk sfud c n) :
    (1 < n → (nu_qspi_mode_config sfud c tx n).1.DATDIR = tx) ∧
    (nu_qspi_mode_config sfud c tx n).1.DUALIOEN = decide (n = 2) ∧
    (nu_qspi_mode_config sfud c tx n).1.QUADIOEN = decide (n = 4) := by
  obtain ⟨dir, dual, quad⟩ := c
  rcases hn with rfl | rfl | rfl | rfl
  · simp [nu_qspi_mode_config]
  · simp [nu_qspi_mode_config]
  · obtain ⟨rfl, hq, -⟩ := hok.resolve_left (by omega)
    simp only at hq
    simp [nu_qspi_mode_config, hq]
  · obtain ⟨rfl, -, hd⟩ := hok.resolve_left (by omega)
    simp only at hd
    simp [nu_qspi_mode_config, hd]

/-- The word of a phase that gets its lines. -/
theorem word_of_lineOk {sfud : Bool} {c : Ctl} {tx : Bool} {n bits : ℕ} {v : Option (BitVec 32)}
    (hn : Lines n) (h0 : n ≠ 0) (hok : LineOk sfud c n) (hv : v.isSome = tx) :
    (nu_qspi_mode_config sfud c tx n).1.word bits v = ⟨some n, tx, bits, v⟩ := by
  have hlines := (@mode_config_lines sfud c tx n hn h0).2 hok
  have hdir := (@mode_config_after sfud c tx n hn hok).1
  subst hv
  have hval : (if v.isSome = true then some (v.getD 0) else none) = v := by cases v <;> rfl
  rw [Ctl.word, hlines]
  by_cases h1 : n = 1
  · rw [if_pos (congrArg some h1), hval]
  · have hne : ¬ (some n = some 1) := by simpa using h1
    rw [if_neg hne, hdir (by omega), hval]

/-- **When a phase appears as it was asked for**: it is present exactly if it has lines, and then
it gets them, and its words have the bits the bus has. -/
theorem stage_eq_asked {sfud : Bool} {width bits n : ℕ} {present tx : Bool}
    {values : List (Option (BitVec 32))} {st : Ctl × ℕ} (hn : Lines n)
    (hvalues : ∀ v ∈ values, v.isSome = tx) (hne : present = true → values ≠ []) :
    (stage sfud width present tx n values st).2 = asked n tx bits values ↔
      (present = true → n ≠ 0 ∧ LineOk sfud st.1 n ∧ width = bits) ∧
      (n ≠ 0 → values ≠ [] → present = true) := by
  cases present with
  | false =>
    rw [stage, if_neg Bool.false_ne_true, asked]
    by_cases h0 : n = 0
    · simp [h0]
    · rw [if_neg h0]
      constructor
      · intro h
        exact ⟨fun hf => absurd hf Bool.false_ne_true,
          fun _ hv => absurd (List.map_eq_nil_iff.1 h.symm) hv⟩
      · rintro ⟨-, h⟩
        have hnil : values = [] := by
          by_contra hv
          exact Bool.false_ne_true (h h0 hv)
        rw [hnil]
        rfl
  | true =>
    have hvne := hne rfl
    rw [stage, if_pos rfl, asked]
    dsimp only
    by_cases h0 : n = 0
    · rw [if_pos h0]
      simp [h0, hvne]
    · rw [if_neg h0]
      constructor
      · intro heq
        refine ⟨fun _ => ⟨h0, ?_, ?_⟩, fun _ _ => rfl⟩
        · obtain ⟨v, rest, rfl⟩ := List.exists_cons_of_ne_nil hvne
          have hw := (List.cons.inj heq).1
          exact (mode_config_lines hn h0).1 (congrArg Word.lines hw)
        · obtain ⟨v, rest, rfl⟩ := List.exists_cons_of_ne_nil hvne
          exact congrArg Word.bits (List.cons.inj heq).1
      · rintro ⟨h, -⟩
        obtain ⟨-, hok, rfl⟩ := h rfl
        refine List.map_congr_left fun v hv => ?_
        exact word_of_lineOk hn h0 hok (hvalues v hv)

/-- What a phase hands on: the lines it got, and the mode they leave. -/
theorem stage_state {sfud : Bool} {width n : ℕ} {present tx : Bool}
    {values : List (Option (BitVec 32))} {st : Ctl × ℕ} (hn : Lines n)
    (hok : present = true → LineOk sfud st.1 n) :
    (stage sfud width present tx n values st).1.2 = (if present then n else st.2) ∧
    (stage sfud width present tx n values st).1.1.DUALIOEN =
      (if present then st.1.after n else st.1).DUALIOEN ∧
    (stage sfud width present tx n values st).1.1.QUADIOEN =
      (if present then st.1.after n else st.1).QUADIOEN := by
  cases present with
  | false => exact ⟨rfl, rfl, rfl⟩
  | true =>
    have h := (@mode_config_after sfud st.1 tx n hn (hok rfl)).2
    exact ⟨rfl, h.1, h.2⟩

/-- The clocks of the dummy bytes: they are the cycles asked for exactly if the bytes are the bus's
words and the cycles fill them. -/
theorem dummy_clocks_iff {cycles width n : ℕ} (hn : n = 1 ∨ n = 2 ∨ n = 4)
    (hw : width = 8 ∨ width = 16 ∨ width = 24 ∨ width = 32) :
    cycles / (8 / n) * (width / n) = cycles ↔ (0 < cycles → width = 8) ∧ 8 / n ∣ cycles := by
  have hbyte : cycles / (8 / n) * (8 / n) = cycles ↔ 8 / n ∣ cycles :=
    ⟨fun h => ⟨_, ((Nat.mul_comm _ _).trans h).symm⟩, fun h => Nat.div_mul_cancel h⟩
  rcases hw with rfl | hw
  · simpa using hbyte
  · -- longer words overshoot, unless there are none
    have hbig : 2 * (8 / n) ≤ width / n := by
      rcases hn with rfl | rfl | rfl <;> rcases hw with rfl | rfl | rfl <;> decide
    have hpos : 0 < 8 / n := by rcases hn with rfl | rfl | rfl <;> decide
    constructor
    · intro h
      have hlt : cycles < 8 / n * (cycles / (8 / n) + 1) := Nat.lt_mul_div_succ cycles hpos
      have hle := Nat.mul_le_mul_left (cycles / (8 / n)) hbig
      have hzero : cycles = 0 := by
        by_contra hc
        have h1 : cycles / (8 / n) * (2 * (8 / n)) = 2 * (8 / n * (cycles / (8 / n))) := by ring
        have h2 : 8 / n * (cycles / (8 / n) + 1) = 8 / n * (cycles / (8 / n)) + 8 / n := by ring
        have hq : cycles / (8 / n) = 0 := by
          by_contra hq
          have := Nat.le_mul_of_pos_right (8 / n) (Nat.pos_of_ne_zero hq)
          omega
        rw [hq, Nat.zero_mul] at h
        exact hc h.symm
      simp [hzero]
    · rintro ⟨h, -⟩
      have hzero : cycles = 0 := by
        by_contra hc
        have := h (Nat.pos_of_ne_zero hc)
        omega
      simp [hzero]

/-- A byte of the dummy phase, as it is written. -/
theorem getLe_one (mem : ℕ → BitVec 8) (k : ℕ) : getLe mem k 1 = (mem k).setWidth 32 := by
  simp [getLe]

/-- Widening keeps a byte from being zero. -/
theorem setWidth_eq_zero {b : BitVec 8} : b.setWidth 32 = 0 ↔ b = 0 := by
  constructor
  · intro h
    have := congrArg BitVec.toNat h
    rw [BitVec.toNat_setWidth, Nat.mod_eq_of_lt (by have := b.isLt; omega)] at this
    exact BitVec.eq_of_toNat_eq this
  · rintro rfl
    rfl

/-- **When the dummy phase is what was asked for**, once it gets its lines. -/
theorem idle_iff {sfud : Bool} {s : Bus} {cycles n k : ℕ} {c : Ctl} (hn : n = 1 ∨ n = 2 ∨ n = 4)
    (hok : LineOk sfud c n) :
    (((stage sfud s.data_width (0 < cycles) true n (payload (some s.dummy) (cycles / (8 / n)) 1)
        (c, k)).2.map Word.clocks).sum = cycles ∧
      ∀ w ∈ (stage sfud s.data_width (0 < cycles) true n
        (payload (some s.dummy) (cycles / (8 / n)) 1) (c, k)).2, w.Filler) ↔
    (0 < cycles → s.data_width = 8) ∧ 8 / n ∣ cycles ∧
      ∀ i, 4 ≤ i → i < cycles / (8 / n) → s.beyond i = 0 := by
  have hlines : Lines n := Or.inr hn
  have h0 : n ≠ 0 := by omega
  by_cases hc : 0 < cycles
  · have hwords : (stage sfud s.data_width (0 < cycles) true n
        (payload (some s.dummy) (cycles / (8 / n)) 1) (c, k)).2 =
        (List.range (cycles / (8 / n))).map fun i =>
          (⟨some n, true, s.data_width, some ((s.dummy i).setWidth 32)⟩ : Word) := by
      rw [stage, if_pos (by simpa using hc), payload, Nat.add_sub_cancel, Nat.div_one]
      dsimp only
      rw [List.map_map]
      refine List.map_congr_left fun i _ => ?_
      simp only [Function.comp_apply, Option.map_some, Nat.mul_one, getLe_one]
      exact word_of_lineOk hlines h0 hok rfl
    have hsum : (((List.range (cycles / (8 / n))).map fun i =>
        (⟨some n, true, s.data_width, some ((s.dummy i).setWidth 32)⟩ : Word)).map
          Word.clocks).sum = cycles / (8 / n) * (s.data_width / n) := by
      rw [List.map_map]
      simp [Function.comp_def, Word.clocks]
    have hfill : (∀ w ∈ (List.range (cycles / (8 / n))).map fun i =>
        (⟨some n, true, s.data_width, some ((s.dummy i).setWidth 32)⟩ : Word), w.Filler) ↔
        ∀ i, 4 ≤ i → i < cycles / (8 / n) → s.beyond i = 0 := by
      simp only [List.forall_mem_map, List.mem_range, Word.Filler, Option.isSome_some, true_and,
        Option.some.injEq, setWidth_eq_zero]
      constructor
      · intro h i h4 hi
        have := h i hi
        rwa [Bus.dummy, if_neg (by omega)] at this
      · intro h i hi
        unfold Bus.dummy
        split
        · rfl
        · exact h i (by omega) hi
    rw [hwords, hsum, hfill, dummy_clocks_iff hn s.width_ok, and_assoc]
  · obtain rfl : cycles = 0 := by omega
    simp [stage]

/-! ### A whole message -/

theorem LineOk.congr {sfud : Bool} {c c' : Ctl} (hd : c.DUALIOEN = c'.DUALIOEN)
    (hq : c.QUADIOEN = c'.QUADIOEN) (n : ℕ) : LineOk sfud c n ↔ LineOk sfud c' n := by
  rw [LineOk, LineOk, hd, hq]

/-- A line mode that was got can be got again. -/
theorem LineOk.again {sfud : Bool} {c : Ctl} {n : ℕ} (h : LineOk sfud c n) :
    LineOk sfud (c.after n) n := by
  rcases h with h | ⟨hs, -, -⟩
  · exact Or.inl h
  · refine Or.inr ⟨hs, fun h2 => ?_, fun h4 => ?_⟩
    · simp [Ctl.after, h2]
    · simp [Ctl.after, h4]

theorem linesOk_cons_ite {sfud : Bool} {c : Ctl} {p : Prop} [Decidable p] {n : ℕ}
    {rest : List (Option ℕ)} :
    LinesOk sfud c ((if p then some n else none) :: rest) ↔
      (p → LineOk sfud c n) ∧ LinesOk sfud (if p then c.after n else c) rest := by
  by_cases hp : p
  · simp [hp, LinesOk]
  · simp [hp, LinesOk]

/-- The bytes of an address are the reversed ones the switch prepares. -/
theorem reversed_eq {f : Field} (hs : Size f.size) (hpos : 0 < f.size) :
    reversed f.content (f.size / 8) = some f.bytes := by
  obtain ⟨content, size, lines⟩ := f
  rcases hs with rfl | rfl | rfl | rfl | rfl
  · exact absurd hpos (lt_irrefl 0)
  · simp [reversed, Field.bytes, List.range_succ]
  · simp [reversed, Field.bytes, List.range_succ]
  · simp [reversed, Field.bytes, List.range_succ]
  · simp [reversed, Field.bytes, List.range_succ]

section Whole

variable (sfud : Bool) (s : Bus) (m : rt_qspi_message)

/-- The instruction's phase. -/
def instructionStage : (Ctl × ℕ) × List Word :=
  stage sfud s.data_width (m.instruction.content ≠ 0) true m.instruction.qspi_lines
    (sent [m.instruction.content]) (s.ctl, 1)

/-- The address's. -/
def addressStage : (Ctl × ℕ) × List Word :=
  stage sfud s.data_width (0 < m.address.size) true m.address.qspi_lines (sent m.address.bytes)
    (instructionStage sfud s m).1

/-- The dummy cycles'. -/
def dummyStage : (Ctl × ℕ) × List Word :=
  stage sfud s.data_width (0 < m.dummy_cycles) true (addressStage sfud s m).1.2
    (payload (some s.dummy) (m.dummy_cycles / (8 / (addressStage sfud s m).1.2)) 1)
    (addressStage sfud s m).1

/-- The data's. -/
def dataStage : (Ctl × ℕ) × List Word :=
  stage sfud s.data_width (0 < m.length) m.send_buf.isSome m.qspi_data_lines
    (payload m.send_buf m.length (s.data_width / 8)) (dummyStage sfud s m).1

variable {sfud s m}

/-- The transfer is its phases, and there is none for the alternate bytes. -/
theorem nu_qspi_bus_xfer_eq (hm : m.WellFormed) :
    nu_qspi_bus_xfer sfud s m =
      if 0 < m.dummy_cycles ∧ 8 / (addressStage sfud s m).1.2 = 0 then none
      else some (⟨(instructionStage sfud s m).2, (addressStage sfud s m).2, [],
          (dummyStage sfud s m).2, (dataStage sfud s m).2⟩,
        ({ s.select m.cs_take true with ctl := (dataStage sfud s m).1.1 } : Bus).select
          m.cs_release false, if 0 < m.length then m.length else 1) := by
  have hselect : ∀ b, (s.select b true).ctl = s.ctl ∧ (s.select b true).data_width = s.data_width ∧
      (s.select b true).dummy = s.dummy := by
    intro b
    unfold Bus.select
    split <;> exact ⟨rfl, rfl, rfl⟩
  have hno : ¬ (0 < m.alternate_bytes.size ∧ m.alternate_bytes.size ≤ 4) := by
    rcases hm.alternate.2 with h | h | h | h | h <;> omega
  have hbytes : m.address.prepared (0 < m.address.size) = some m.address.bytes := by
    by_cases hpos : 0 < m.address.size
    · rw [Field.prepared, if_pos (by simpa using hpos), reversed_eq hm.address.2 hpos]
    · have hzero : m.address.size = 0 := by omega
      rw [Field.prepared, if_neg (by simpa using hpos), Field.bytes, hzero]
      rfl
  obtain ⟨hctl, hwidth, hdummy⟩ := hselect m.cs_take
  unfold nu_qspi_bus_xfer
  simp only [hctl, hwidth, hdummy, hbytes, hno, decide_false, Option.bind_eq_bind,
    Option.bind_some]
  rfl

/-- The mode register the driver has after a phase, by its two enable bits. -/
def SameMode (c c' : Ctl) : Prop := c.DUALIOEN = c'.DUALIOEN ∧ c.QUADIOEN = c'.QUADIOEN

/-- A phase's conditions, on the mode register a run of good phases leaves. -/
theorem phase_iff {width bits n : ℕ} {p : Prop} [Decidable p] {tx : Bool}
    {values : List (Option (BitVec 32))} {st : Ctl × ℕ} {c : Ctl} (hn : Lines n)
    (hst : SameMode st.1 c) (hvalues : ∀ v ∈ values, v.isSome = tx) (hne : p → values ≠ []) :
    (stage sfud width p tx n values st).2 = asked n tx bits values ↔
      (p → n ≠ 0 ∧ LineOk sfud c n ∧ width = bits) ∧ (n ≠ 0 → values ≠ [] → p) := by
  rw [stage_eq_asked hn hvalues (fun hp => hne (of_decide_eq_true hp)), LineOk.congr hst.1 hst.2]
  simp only [decide_eq_true_eq]

theorem stage_sameMode {width n : ℕ} {p : Prop} [Decidable p] {tx : Bool}
    {values : List (Option (BitVec 32))} {st : Ctl × ℕ} {c : Ctl} (hn : Lines n)
    (hst : SameMode st.1 c) (hok : p → LineOk sfud c n) :
    (stage sfud width p tx n values st).1.2 = (if p then n else st.2) ∧
    SameMode (stage sfud width p tx n values st).1.1 (if p then c.after n else c) := by
  have h := @stage_state sfud width n p tx values st hn fun hp =>
    (LineOk.congr hst.1 hst.2 n).2 (hok (of_decide_eq_true hp))
  by_cases hp : p
  · simp only [hp, decide_true, if_true] at h ⊢
    exact ⟨h.1, h.2.1, h.2.2⟩
  · simp only [hp, decide_false, Bool.false_eq_true, if_false] at h ⊢
    exact ⟨h.1, h.2.1.trans hst.1, h.2.2.trans hst.2⟩

theorem sent_isSome {bytes : List (BitVec 8)} : ∀ v ∈ sent bytes, v.isSome = true := by
  intro v hv
  obtain ⟨b, -, rfl⟩ := List.mem_map.1 hv
  rfl

theorem payload_isSome {tx : Option (ℕ → BitVec 8)} {length w : ℕ} :
    ∀ v ∈ payload tx length w, v.isSome = tx.isSome := by
  intro v hv
  obtain ⟨k, -, rfl⟩ := List.mem_map.1 hv
  simp

theorem payload_ne_nil {tx : Option (ℕ → BitVec 8)} {length w : ℕ} (hw : 0 < w) :
    payload tx length w ≠ [] ↔ 0 < length := by
  rw [payload, Ne, List.map_eq_nil_iff, List.range_eq_nil, Nat.div_eq_zero_iff]
  omega

theorem Field.bytes_ne_nil {f : Field} (hs : Size f.size) : sent f.bytes ≠ [] ↔ 0 < f.size := by
  rw [sent, Ne, List.map_eq_nil_iff, Field.bytes, List.map_eq_nil_iff, List.reverse_eq_nil_iff,
    List.range_eq_nil]
  rcases hs with h | h | h | h | h <;> omega

variable (s m) in
/-- The mode register that an instruction on its lines leaves. -/
def afterInstruction : Ctl :=
  if m.instruction.content ≠ 0 then s.ctl.after m.instruction.qspi_lines else s.ctl

variable (s m) in
/-- And an address on its. -/
def afterAddress : Ctl :=
  if 0 < m.address.size then (afterInstruction s m).after m.address.qspi_lines
  else afterInstruction s m

variable (s m) in
/-- And the dummy cycles. -/
def afterDummy : Ctl :=
  if 0 < m.dummy_cycles then (afterAddress s m).after m.dummyLines else afterAddress s m

/-- The lines of a message, phase after phase. -/
theorem phases_iff : LinesOk sfud s.ctl m.phases ↔
    (m.instruction.content ≠ 0 → LineOk sfud s.ctl m.instruction.qspi_lines) ∧
    (0 < m.address.size → LineOk sfud (afterInstruction s m) m.address.qspi_lines) ∧
    (0 < m.dummy_cycles → LineOk sfud (afterAddress s m) m.dummyLines) ∧
    (0 < m.length → LineOk sfud (afterDummy s m) m.qspi_data_lines) := by
  rw [rt_qspi_message.phases, linesOk_cons_ite, linesOk_cons_ite, linesOk_cons_ite,
    linesOk_cons_ite, LinesOk, and_true]
  rfl

/-- The first phase's conditions. -/
theorem instruction_iff (hm : m.WellFormed) :
    (instructionStage sfud s m).2 =
        asked m.instruction.qspi_lines true 8 (sent [m.instruction.content]) ↔
      (m.instruction.content ≠ 0 → m.instruction.qspi_lines ≠ 0 ∧
        LineOk sfud s.ctl m.instruction.qspi_lines ∧ s.data_width = 8) ∧
      (m.instruction.qspi_lines ≠ 0 → m.instruction.content ≠ 0) := by
  have h := @phase_iff sfud s.data_width 8 _ (m.instruction.content ≠ 0) _ true
    (sent [m.instruction.content]) (s.ctl, 1) s.ctl hm.instruction ⟨rfl, rfl⟩ sent_isSome
    fun _ => List.cons_ne_nil _ _
  refine h.trans (and_congr_right fun _ => ?_)
  exact forall_congr' fun _ => ⟨fun h => h (List.cons_ne_nil _ _), fun h _ => h⟩

theorem instruction_state (hm : m.WellFormed)
    (hI : m.instruction.content ≠ 0 → LineOk sfud s.ctl m.instruction.qspi_lines) :
    (instructionStage sfud s m).1.2 =
      (if m.instruction.content ≠ 0 then m.instruction.qspi_lines else 1) ∧
    SameMode (instructionStage sfud s m).1.1 (afterInstruction s m) :=
  stage_sameMode hm.instruction ⟨rfl, rfl⟩ hI

/-- The address's, after an instruction that got its lines. -/
theorem address_iff (hm : m.WellFormed)
    (hI : m.instruction.content ≠ 0 → LineOk sfud s.ctl m.instruction.qspi_lines) :
    (addressStage sfud s m).2 = asked m.address.qspi_lines true 8 (sent m.address.bytes) ↔
      (0 < m.address.size → m.address.qspi_lines ≠ 0 ∧
        LineOk sfud (afterInstruction s m) m.address.qspi_lines ∧ s.data_width = 8) := by
  have hb := Field.bytes_ne_nil hm.address.2
  have h := @phase_iff sfud s.data_width 8 _ (0 < m.address.size) _ true (sent m.address.bytes) _ _
    hm.address.1 (instruction_state hm hI).2 sent_isSome hb.2
  refine h.trans (and_iff_left fun _ hne => hb.1 hne)

theorem address_state (hm : m.WellFormed)
    (hI : m.instruction.content ≠ 0 → LineOk sfud s.ctl m.instruction.qspi_lines)
    (hA : 0 < m.address.size → LineOk sfud (afterInstruction s m) m.address.qspi_lines) :
    (addressStage sfud s m).1.2 = m.dummyLines ∧
    SameMode (addressStage sfud s m).1.1 (afterAddress s m) := by
  obtain ⟨i2, i1⟩ := instruction_state hm hI
  obtain ⟨a2, a1⟩ := @stage_sameMode sfud s.data_width _ (0 < m.address.size) _ true
    (sent m.address.bytes) _ _ hm.address.1 i1 hA
  refine ⟨a2.trans ?_, a1⟩
  unfold rt_qspi_message.dummyLines
  rw [i2]

/-- The dummy cycles go by lines the last phase got. -/
theorem dummyLines_ok (hm : m.WellFormed)
    (hI : m.instruction.content ≠ 0 → m.instruction.qspi_lines ≠ 0 ∧
      LineOk sfud s.ctl m.instruction.qspi_lines)
    (hA : 0 < m.address.size → m.address.qspi_lines ≠ 0 ∧
      LineOk sfud (afterInstruction s m) m.address.qspi_lines) :
    (m.dummyLines = 1 ∨ m.dummyLines = 2 ∨ m.dummyLines = 4) ∧
    LineOk sfud (afterAddress s m) m.dummyLines := by
  unfold rt_qspi_message.dummyLines afterAddress
  by_cases hsize : 0 < m.address.size
  · rw [if_pos hsize, if_pos hsize]
    exact ⟨hm.address.1.resolve_left (hA hsize).1, (hA hsize).2.again⟩
  · rw [if_neg hsize, if_neg hsize]
    unfold afterInstruction
    by_cases hcont : m.instruction.content ≠ 0
    · rw [if_pos hcont, if_pos hcont]
      exact ⟨hm.instruction.resolve_left (hI hcont).1, (hI hcont).2.again⟩
    · rw [if_neg hcont, if_neg hcont]
      exact ⟨Or.inl rfl, Or.inl (le_refl 1)⟩

/-- The dummy cycles' conditions. -/
theorem dummy_iff {st : Ctl × ℕ} (hst : (addressStage sfud s m).1 = st)
    (hk : st.2 = m.dummyLines) (hn : m.dummyLines = 1 ∨ m.dummyLines = 2 ∨ m.dummyLines = 4)
    (hok : LineOk sfud st.1 m.dummyLines) :
    (((dummyStage sfud s m).2.map Word.clocks).sum = m.dummy_cycles ∧
      ∀ w ∈ (dummyStage sfud s m).2, w.Filler) ↔
    (0 < m.dummy_cycles → s.data_width = 8) ∧ 8 / m.dummyLines ∣ m.dummy_cycles ∧
      ∀ i, 4 ≤ i → i < m.dummy_cycles / (8 / m.dummyLines) → s.beyond i = 0 := by
  rw [dummyStage, hst, hk]
  exact idle_iff hn hok

theorem dummy_state {c : Ctl} (hn : Lines m.dummyLines)
    (hst : (addressStage sfud s m).1.2 = m.dummyLines)
    (hc : SameMode (addressStage sfud s m).1.1 c)
    (hok : 0 < m.dummy_cycles → LineOk sfud c m.dummyLines) :
    SameMode (dummyStage sfud s m).1.1 (if 0 < m.dummy_cycles then c.after m.dummyLines else c) := by
  rw [dummyStage, hst]
  exact (stage_sameMode hn hc hok).2

/-- The data's conditions. -/
theorem data_iff (hm : m.WellFormed) {c : Ctl} (hc : SameMode (dummyStage sfud s m).1.1 c) :
    (dataStage sfud s m).2 = asked m.qspi_data_lines m.send_buf.isSome s.data_width
        (payload m.send_buf m.length (s.data_width / 8)) ↔
      (0 < m.length → m.qspi_data_lines ≠ 0 ∧ LineOk sfud c m.qspi_data_lines) := by
  have hw : 0 < s.data_width / 8 := by rcases s.width_ok with h | h | h | h <;> rw [h] <;> decide
  have hp := @payload_ne_nil m.send_buf m.length _ hw
  have h := @phase_iff sfud s.data_width s.data_width _ (0 < m.length) _ m.send_buf.isSome
    (payload m.send_buf m.length (s.data_width / 8)) _ c hm.data hc payload_isSome hp.2
  refine h.trans ((and_iff_left fun _ hne => hp.1 hne).trans ?_)
  simp only [and_true]

/-- The alternate bytes are never sent. -/
theorem alternate_iff (hm : m.WellFormed) :
    [] = asked m.alternate_bytes.qspi_lines true 8 (sent m.alternate_bytes.bytes) ↔
      m.alternate_bytes.size = 0 ∨ m.alternate_bytes.qspi_lines = 0 := by
  have hb := Field.bytes_ne_nil hm.alternate.2
  unfold asked
  split
  · rename_i h0
    simp [h0]
  · rename_i h0
    rw [eq_comm, List.map_eq_nil_iff, or_iff_left h0, ← not_iff_not, ← Ne, hb]
    omega

/-- A message that appears as written meets the condition. -/
theorem MessageOk.of_asWritten (hm : m.WellFormed)
    (h : ∃ t s' n, nu_qspi_bus_xfer sfud s m = some (t, s', n) ∧ t.AsWritten s m) :
    MessageOk sfud s m := by
  obtain ⟨t, s', n, he, ht⟩ := h
  rw [nu_qspi_bus_xfer_eq hm, Option.ite_none_left_eq_some] at he
  obtain ⟨-, he⟩ := he
  obtain rfl := (Prod.mk.inj (Option.some.inj he)).1
  -- each phase in its turn, the mode register of the next from the ones before
  obtain ⟨hI, hI'⟩ := (instruction_iff hm).1 ht.instruction
  have hIl := fun h => (hI h).2.1
  have hA := (address_iff hm hIl).1 ht.address
  obtain ⟨hk, hmode⟩ := address_state hm hIl fun h => (hA h).2.1
  obtain ⟨hn, hD⟩ := dummyLines_ok hm (fun h => ⟨(hI h).1, (hI h).2.1⟩)
    fun h => ⟨(hA h).1, (hA h).2.1⟩
  obtain ⟨hdw, hdummy⟩ := (dummy_iff rfl hk hn ((LineOk.congr hmode.1 hmode.2 _).2 hD)).1 ht.dummy
  have hT := (data_iff hm (dummy_state (Or.inr hn) hk hmode fun _ => hD)).1 ht.data
  refine ⟨⟨fun h => (hI h).1, hI'⟩, fun h => (hA h).1, fun h => (hT h).1,
    (alternate_iff hm).1 ht.alternate, ?_, ht.whole, hdummy, ?_⟩
  · rintro (h | h | h)
    · exact (hI h).2.2
    · exact (hA h).2.2
    · exact hdw h
  · exact phases_iff.2 ⟨hIl, fun h => (hA h).2.1, fun _ => hD, fun h => (hT h).2⟩

/-- A message that meets the condition appears as written. -/
theorem MessageOk.asWritten (hm : m.WellFormed) (h : MessageOk sfud s m) :
    ∃ t s' n, nu_qspi_bus_xfer sfud s m = some (t, s', n) ∧ t.AsWritten s m := by
  rw [nu_qspi_bus_xfer_eq hm]
  obtain ⟨hIl, hAl, hDl, hTl⟩ := phases_iff.1 h.lines
  obtain ⟨hk, hmode⟩ := address_state hm hIl hAl
  obtain ⟨hn, hD⟩ := dummyLines_ok hm (fun hc => ⟨h.instruction.1 hc, hIl hc⟩)
    fun hs => ⟨h.address hs, hAl hs⟩
  have hpos : 8 / m.dummyLines ≠ 0 := by rcases hn with hn | hn | hn <;> rw [hn] <;> decide
  rw [hk, if_neg fun hc => hpos hc.2]
  refine ⟨_, _, _, rfl, ?_, ?_, ?_, ?_, ?_, h.whole⟩
  · exact (instruction_iff hm).2
      ⟨fun hc => ⟨h.instruction.1 hc, hIl hc, h.width (Or.inl hc)⟩, h.instruction.2⟩
  · exact (address_iff hm hIl).2
      fun hs => ⟨h.address hs, hAl hs, h.width (Or.inr (Or.inl hs))⟩
  · exact (alternate_iff hm).2 h.alternate
  · exact (dummy_iff rfl hk hn ((LineOk.congr hmode.1 hmode.2 _).2 hD)).2
      ⟨fun hc => h.width (Or.inr (Or.inr hc)), h.dummy⟩
  · exact (data_iff hm (dummy_state (Or.inr hn) hk hmode fun _ => hD)).2
      fun hl => ⟨h.data hl, hTl hl⟩

/-- **When a message appears on the wire as written.** -/
theorem message_asWritten_iff (hm : m.WellFormed) :
    (∃ t s' n, nu_qspi_bus_xfer sfud s m = some (t, s', n) ∧ t.AsWritten s m) ↔
      MessageOk sfud s m :=
  ⟨MessageOk.of_asWritten hm, MessageOk.asWritten hm⟩

/-- A bus of bytes on one line; the memory after its filler is not zero. -/
def bus8 : Bus where
  ctl := ⟨false, false, false⟩
  ssHigh := true
  csHigh := false
  noCs := false
  data_width := 8
  beyond _ := 0xFF
  width_ok := Or.inl rfl

/-- A fast read: the command and the address on one line, a dummy byte, sixteen bytes of data. -/
def fastRead : rt_qspi_message where
  send_buf := none
  recv_buf := true
  length := 16
  cs_take := true
  cs_release := true
  instruction := ⟨0x0B, 1⟩
  address := ⟨0x123456, 24, 1⟩
  alternate_bytes := ⟨0, 0, 0⟩
  dummy_cycles := 8
  qspi_data_lines := 1

theorem fastRead_asWritten_iff :
    (∃ t s' n, nu_qspi_bus_xfer true bus8 fastRead = some (t, s', n) ∧ t.AsWritten bus8 fastRead) ↔
      MessageOk true bus8 fastRead :=
  message_asWritten_iff ⟨by simp [Lines, fastRead], by simp [Lines, Size, fastRead],
    by simp [Lines, Size, fastRead], by simp [Lines, fastRead], rfl⟩

/-- A read on four lines, with a mode byte after the address and four dummy cycles. -/
def quadRead : rt_qspi_message :=
  { fastRead with
    instruction := ⟨0xEB, 1⟩, address := ⟨0x123456, 24, 4⟩, alternate_bytes := ⟨0xA5, 8, 4⟩
    dummy_cycles := 4, qspi_data_lines := 4 }

/-- Its mode byte is not sent; and where the dummy cycles of a fast read are four, there are none. -/
theorem quadRead_not_asWritten :
    (¬ ∃ t s' n, nu_qspi_bus_xfer true bus8 quadRead = some (t, s', n) ∧
      t.AsWritten bus8 quadRead) ∧
    ¬ ∃ t s' n, nu_qspi_bus_xfer true bus8 { fastRead with dummy_cycles := 4 } = some (t, s', n) ∧
      t.AsWritten bus8 { fastRead with dummy_cycles := 4 } := by
  constructor
  · intro h
    have := (MessageOk.of_asWritten ⟨by simp [Lines, quadRead, fastRead],
      by simp [Lines, Size, quadRead], by simp [Lines, Size, quadRead], by simp [Lines, quadRead],
      rfl⟩ h).alternate
    exact absurd this (by simp [quadRead])
  · intro h
    have := (MessageOk.of_asWritten ⟨by simp [Lines, fastRead], by simp [Lines, Size, fastRead],
      by simp [Lines, Size, fastRead], by simp [Lines, fastRead], rfl⟩ h).dummy.1
    exact absurd this (by simp [rt_qspi_message.dummyLines, fastRead])

end Whole

end Qspi

