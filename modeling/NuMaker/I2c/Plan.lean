/-
What a master transfer should do.

The plan of a list of messages is the sequence of operations that puts each of them on the bus
once; a transfer follows it as far as nothing goes wrong.

* **`plan`**, **`plan_nodup`** — the operations, each of them once;
* **`Right`** — what is promised of a transfer: it keeps to the plan, acknowledges what it
  receives as it should, and returns the truth;
* **`Clean`** — the condition: what goes wrong first, if anything, is a START or an address.
-/
import NuMaker.I2c.Transfer

namespace I2c

variable (p : Port)

/-! ### The plan -/

/-- The bytes of a message. -/
def byteSlots (num i : ℕ) (m : rt_i2c_msg) : List Slot :=
  (List.range' 0 m.len).map fun k =>
    if m.has RT_I2C_RD then .read i k !(decide (i = num - 1 ∧ k = m.len - 1))
    else .write i k (m.buf k) (m.has RT_I2C_IGNORE_NACK)

/-- What comes before them. -/
def headSlots (i : ℕ) (m : rt_i2c_msg) : List Slot :=
  if m.has RT_I2C_NO_START then []
  else (if i = 0 then [] else [.restart i]) ++ (addrSlots p i m).getD []

/-- The messages from the `i`-th on. -/
def slotsFrom (num : ℕ) : ℕ → List rt_i2c_msg → List Slot
  | _, [] => []
  | i, m :: ms => headSlots p i m ++ byteSlots num i m ++ slotsFrom num (i + 1) ms

/-- The whole transfer. -/
def plan (msgs : List rt_i2c_msg) : List Slot :=
  .start :: slotsFrom p msgs.length 0 msgs ++ [.stop]

/-! ### What is promised -/

/-- A byte of a message. -/
def Slot.isByte : Slot → Bool
  | .addr .. | .write .. | .read .. => true
  | _ => false

/-- A byte that has to be acknowledged. -/
def Slot.owed : Slot → Bool
  | .addr _ _ _ _ ignore | .write _ _ _ ignore => !ignore
  | _ => false

/-- Another byte is received before the next STOP or START, and so before the next address. -/
def readsOn : List Slot → Bool
  | .read .. :: _ => true
  | .write .. :: rest => readsOn rest
  | _ => false

/-- Received bytes are acknowledged, except the last before a STOP or START. -/
def AcksRight : List Slot → Prop
  | [] => True
  | .read _ _ ack :: rest => ack = readsOn rest ∧ AcksRight rest
  | _ :: rest => AcksRight rest

/-- A transfer of the messages that returns `ret` and leaves `log`. -/
structure Right (msgs : List rt_i2c_msg) (ret : ℕ) (log : List (Slot × Reply)) : Prop where
  /-- Every byte at most once, in the order of the list. -/
  once : ((log.map Prod.fst).filter Slot.isByte).Sublist ((plan p msgs).filter Slot.isByte)
  acks : AcksRight (log.map Prod.fst)
  /-- It returns the number of messages exactly if every byte that has to be was acknowledged and
  nothing else went wrong. -/
  honest : ret = msgs.length ↔
    (∀ slot ∈ plan p msgs, slot.owed = true → (slot, .ack) ∈ log) ∧
      ∀ e ∈ log, e.1.fine e.2 = true

/-- The transfer ends, and is right. -/
def Good (bus : Bus) (msgs : List rt_i2c_msg) : Prop :=
  ∃ fuel ret s, nu_mst_xfer p bus msgs fuel = some (ret, s) ∧ Right p msgs ret s.log

/-! ### And when -/

/-- Along these operations, what goes wrong first is one at which the driver stops; and as far as
that, received bytes are acknowledged as they should be. -/
def CleanFrom (bus : Bus) : List (Slot × Reply) → List Slot → Prop
  | _, [] => True
  | h, slot :: rest =>
    (∀ i k ack, slot = .read i k ack → ack = readsOn rest) ∧
      if slot.fine (bus.reply h slot) then CleanFrom bus (h ++ [(slot, bus.reply h slot)]) rest
      else slot.stops = true

/-- The condition for a behaviour of the bus. -/
def Clean (bus : Bus) (msgs : List rt_i2c_msg) : Prop := CleanFrom bus [] (plan p msgs)

/-- The condition for all of them: there are no bytes, and no address may go unacknowledged. -/
def Idle (msgs : List rt_i2c_msg) : Prop :=
  ∀ m ∈ msgs, m.len = 0 ∧ (m.has RT_I2C_NO_START = true ∨ m.has RT_I2C_IGNORE_NACK = false)

/-- The masters take 7-bit addresses; 10-bit ones if they know their first byte. -/
def Supported (msgs : List rt_i2c_msg) : Prop :=
  ∀ m ∈ msgs, m.has RT_I2C_ADDR_10BIT = true → p.addr10.isSome

/-! ### Each operation once -/

/-- The message an operation belongs to. -/
def Slot.message : Slot → Option ℕ
  | .start | .stop => none
  | .restart i | .again i _ | .addr i _ _ _ _ | .write i _ _ _ | .read i _ _ => some i

variable {p}

theorem addrSlots_message {i : ℕ} {m : rt_i2c_msg} {slots : List Slot}
    (h : addrSlots p i m = some slots) {slot : Slot} (hs : slot ∈ slots) :
    slot.message = some i ∧ slot.stops = !m.has RT_I2C_IGNORE_NACK ∧
      (slot.fine .nack = true → m.has RT_I2C_IGNORE_NACK = true) ∧
      ((∃ g, slot = .again i g) ∨ ∃ k b rd g, slot = .addr i k b rd g) := by
  unfold addrSlots at h
  dsimp only at h
  split at h
  · obtain ⟨first, -, rfl⟩ := Option.map_eq_some_iff.1 h
    split at hs
    · simp only [List.cons_append, List.nil_append, List.mem_cons, List.not_mem_nil, or_false] at hs
      rcases hs with rfl | rfl | rfl | rfl <;> simp [Slot.message, Slot.stops, Slot.fine]
    · simp only [List.append_nil, List.mem_cons, List.not_mem_nil, or_false] at hs
      rcases hs with rfl | rfl <;> simp [Slot.message, Slot.stops, Slot.fine]
  · obtain rfl := Option.some.inj h
    rw [List.mem_singleton] at hs
    subst hs
    simp [Slot.message, Slot.stops, Slot.fine]

theorem addrSlots_isSome (i : ℕ) {m : rt_i2c_msg}
    (hsup : m.has RT_I2C_ADDR_10BIT = true → p.addr10.isSome) :
    ∃ slots, addrSlots p i m = some slots := by
  unfold addrSlots
  dsimp only
  split
  · rename_i h10
    obtain ⟨first, hf⟩ := Option.isSome_iff_exists.1 (hsup h10)
    exact ⟨_, by rw [hf]; rfl⟩
  · exact ⟨_, rfl⟩

theorem addrSlots_ne_nil {i : ℕ} {m : rt_i2c_msg} {slots : List Slot}
    (h : addrSlots p i m = some slots) : slots ≠ [] := by
  unfold addrSlots at h
  dsimp only at h
  split at h
  · obtain ⟨first, -, rfl⟩ := Option.map_eq_some_iff.1 h
    simp
  · obtain rfl := Option.some.inj h
    simp

theorem addrSlots_nodup {i : ℕ} {m : rt_i2c_msg} {slots : List Slot}
    (h : addrSlots p i m = some slots) : slots.Nodup := by
  unfold addrSlots at h
  dsimp only at h
  split at h
  · obtain ⟨first, -, rfl⟩ := Option.map_eq_some_iff.1 h
    split <;> simp
  · obtain rfl := Option.some.inj h
    exact List.nodup_singleton _

theorem byteSlots_message {num i : ℕ} {m : rt_i2c_msg} {slot : Slot}
    (hs : slot ∈ byteSlots num i m) :
    slot.message = some i ∧ ((∃ k b g, slot = .write i k b g) ∨ ∃ k a, slot = .read i k a) := by
  obtain ⟨k, -, rfl⟩ := List.mem_map.1 hs
  split
  · exact ⟨rfl, Or.inr ⟨_, _, rfl⟩⟩
  · exact ⟨rfl, Or.inl ⟨_, _, _, rfl⟩⟩

theorem headSlots_message {i : ℕ} {m : rt_i2c_msg} {slot : Slot} (hs : slot ∈ headSlots p i m) :
    slot.message = some i ∧ (slot = .restart i ∨ (∃ g, slot = .again i g) ∨
      ∃ k b rd g, slot = .addr i k b rd g) := by
  unfold headSlots at hs
  split at hs
  · cases hs
  · rcases List.mem_append.1 hs with h | h
    · split at h
      · cases h
      · rw [List.mem_singleton] at h
        subst h
        exact ⟨rfl, Or.inl rfl⟩
    · cases ha : addrSlots p i m with
      | none => simp [ha] at h
      | some slots =>
        rw [ha, Option.getD_some] at h
        obtain ⟨h1, -, -, h2⟩ := addrSlots_message ha h
        exact ⟨h1, Or.inr h2⟩

theorem slotsFrom_message {num i : ℕ} {ms : List rt_i2c_msg} {slot : Slot}
    (hs : slot ∈ slotsFrom p num i ms) : ∃ j, i ≤ j ∧ slot.message = some j := by
  induction ms generalizing i with
  | nil => cases hs
  | cons m ms ih =>
    simp only [slotsFrom, List.mem_append] at hs
    rcases hs with (h | h) | h
    · exact ⟨i, le_refl i, (headSlots_message h).1⟩
    · exact ⟨i, le_refl i, (byteSlots_message h).1⟩
    · obtain ⟨j, hj, hm⟩ := ih h
      exact ⟨j, by omega, hm⟩

theorem headSlots_nodup (i : ℕ) (m : rt_i2c_msg) : (headSlots p i m).Nodup := by
  unfold headSlots
  split
  · exact List.nodup_nil
  · cases ha : addrSlots p i m with
    | none => split <;> simp
    | some slots =>
      rw [Option.getD_some]
      split
      · exact addrSlots_nodup ha
      · refine List.nodup_cons.2 ⟨fun h => ?_, addrSlots_nodup ha⟩
        obtain ⟨-, -, -, ⟨g, hg⟩ | ⟨k, b, rd, g, hg⟩⟩ := addrSlots_message ha h <;> cases hg

theorem byteSlots_nodup (num i : ℕ) (m : rt_i2c_msg) : (byteSlots num i m).Nodup := by
  refine List.Nodup.map_on ?_ (List.nodup_range' 1)
  intro k _ k' _ h
  split at h
  · exact (Slot.read.inj h).2.1
  · exact (Slot.write.inj h).2.1

theorem slotsFrom_nodup (num i : ℕ) (ms : List rt_i2c_msg) : (slotsFrom p num i ms).Nodup := by
  induction ms generalizing i with
  | nil => exact List.nodup_nil
  | cons m ms ih =>
    refine List.Nodup.append (List.Nodup.append (headSlots_nodup i m) (byteSlots_nodup num i m) ?_)
      (ih (i + 1)) ?_
    · intro slot h1 h2
      obtain ⟨-, h | ⟨g, h⟩ | ⟨k, b, rd, g, h⟩⟩ := headSlots_message h1 <;>
        obtain ⟨-, ⟨k', b', g', h'⟩ | ⟨k', a', h'⟩⟩ := byteSlots_message h2 <;>
        exact Slot.noConfusion (h.symm.trans h')
    · intro slot h1 h2
      obtain ⟨j, hj, hm⟩ := slotsFrom_message h2
      have hi : slot.message = some i := by
        rcases List.mem_append.1 h1 with h | h
        · exact (headSlots_message h).1
        · exact (byteSlots_message h).1
      have := Option.some.inj (hi.symm.trans hm)
      omega

/-- **The plan has each operation once.** -/
theorem plan_nodup (msgs : List rt_i2c_msg) : (plan p msgs).Nodup := by
  have hends : ∀ slot ∈ slotsFrom p msgs.length 0 msgs, slot ≠ .start ∧ slot ≠ .stop := by
    intro slot h
    obtain ⟨j, -, hm⟩ := slotsFrom_message h
    constructor <;> rintro rfl <;> cases hm
  refine List.nodup_cons.2 ⟨fun h => ?_, ?_⟩
  · rcases List.mem_append.1 h with h | h
    · exact (hends _ h).1 rfl
    · simp at h
  · refine List.Nodup.append (slotsFrom_nodup _ _ _) (List.nodup_singleton _) ?_
    intro slot h1 h2
    exact (hends slot h1).2 (List.mem_singleton.1 h2)

end I2c
