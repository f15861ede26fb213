/-
The errors a master transfer loses.

An error in the bytes of a message, or at an address whose NACK may be ignored, does not end the
loop over the messages: the transfer goes on, and returns as if nothing had happened, or goes
through the messages again.

* **`errorBus`**, **`not_good`** — time-outs that are lost on every list that moves bytes;
* **`xfer_right_iff`** — the lists whose transfer is right whatever the bus does;
* **`nack_lost`**, **`replayed_for_ever`** — a byte nobody acknowledged.
-/
import NuMaker.I2c.Honest

namespace I2c

variable {p : Port} {s : State p} {m : rt_i2c_msg} {i : ℕ}

/-! ### Time-outs -/

/-- A bus on which everything at which the driver does not stop takes too long. -/
def errorBus : Bus where
  reply _ slot := if slot.stops then .ack else .timeout
  data _ := 0

/-- Something went wrong. -/
def Wrong (log : List (Slot × Reply)) : Prop := ∃ e ∈ log, e.1.fine e.2 = false

theorem Wrong.mono {log log' : List (Slot × Reply)} (h : Wrong log) (hp : log <+: log') :
    Wrong log' := by
  obtain ⟨e, he, hf⟩ := h
  exact ⟨e, hp.subset he, hf⟩

theorem issue_stops (law : p.Lawful) (hq : law.quiet s.hw) {slot : Slot} (hs : slot.stops = true) :
    ∃ s', issue p errorBus s slot = (.ok, s') ∧ law.quiet s'.hw ∧ s.log <+: s'.log := by
  refine ⟨_, Prod.ext ?_ rfl, ?_, List.prefix_append _ _⟩
  · simp only [issue, errorBus, hs, if_true]
    exact (law.quiet_ack hq).1
  · simp only [issue, errorBus, hs, if_true]
    exact (law.quiet_ack hq).2

theorem issue_timeout (law : p.Lawful) (hq : law.quiet s.hw) {slot : Slot}
    (hs : slot.stops = false) : ∃ s', issue p errorBus s slot = (.timeout, s') ∧
    law.quiet s'.hw ∧ s.log <+: s'.log ∧ Wrong s'.log := by
  refine ⟨_, Prod.ext ?_ rfl, ?_, List.prefix_append _ _, ?_⟩
  · simp only [issue, errorBus, hs, Bool.false_eq_true, if_false]
    exact (law.quiet_timeout hq).1
  · simp only [issue, errorBus, hs, Bool.false_eq_true, if_false]
    exact (law.quiet_timeout hq).2
  · refine ⟨_, List.mem_append_right _ (List.mem_singleton_self _), ?_⟩
    cases slot <;> simp_all [errorBus, Slot.fine]

/-- An address goes through, unless its NACK may be ignored: then its time-out is. -/
theorem sendSlots_errors (law : p.Lawful) (hq : law.quiet s.hw) {ignore_nack : Bool}
    {slots : List Slot} (hslots : ∀ slot ∈ slots, slot.stops = !ignore_nack) :
    ∃ b s', sendSlots p errorBus ignore_nack slots s = (b, s') ∧ law.quiet s'.hw ∧
      s.log <+: s'.log ∧ (ignore_nack = false → b = true) ∧
        (ignore_nack = true → slots ≠ [] → Wrong s'.log) := by
  induction slots generalizing s with
  | nil => exact ⟨true, s, rfl, hq, List.prefix_refl _, fun _ => rfl, fun _ h => absurd rfl h⟩
  | cons slot slots ih =>
    have hs := hslots slot (by simp)
    cases ignore_nack with
    | false =>
      obtain ⟨s₁, h1, h2, h3⟩ := issue_stops law hq hs
      obtain ⟨b, s', h4, h5, h6, h7, -⟩ := ih h2 fun x hx => hslots x (by simp [hx])
      refine ⟨b, s', ?_, h5, h3.trans h6, h7, fun h => absurd h (by decide)⟩
      simp only [sendSlots, h1, h4]
    | true =>
      obtain ⟨s₁, h1, h2, h3, h4⟩ := issue_timeout law hq hs
      refine ⟨false, s₁, ?_, h2, h3, fun h => absurd h (by decide), fun _ _ => h4⟩
      simp only [sendSlots, h1]

theorem address_errors (law : p.Lawful) (hq : law.quiet s.hw)
    (hsup : m.has RT_I2C_ADDR_10BIT = true → p.addr10.isSome) :
    ∃ s', address p errorBus i m s = .goOn s' ∧ law.quiet s'.hw ∧ s.log <+: s'.log ∧
      (m.has RT_I2C_IGNORE_NACK = true → Wrong s'.log) := by
  obtain ⟨slots, ha⟩ := addrSlots_isSome i hsup
  obtain ⟨b, s', h1, h2, h3, h4, h5⟩ := sendSlots_errors law hq
    (fun slot hs => (addrSlots_message ha hs).2.1)
  refine ⟨s', ?_, h2, h3, fun h => h5 h (addrSlots_ne_nil ha)⟩
  simp only [address, nu_send_address, ha, h1]
  cases hg : m.has RT_I2C_IGNORE_NACK with
  | false =>
    rw [h4 hg]
    rfl
  | true => rw [Bool.not_true, Bool.and_false, if_neg Bool.false_ne_true]

theorem head_errors (law : p.Lawful) (hq : law.quiet s.hw)
    (hsup : m.has RT_I2C_ADDR_10BIT = true → p.addr10.isSome) :
    ∃ s', head p errorBus i m s = .goOn s' ∧ law.quiet s'.hw ∧ s.log <+: s'.log ∧
      (m.has RT_I2C_NO_START = false → m.has RT_I2C_IGNORE_NACK = true → Wrong s'.log) := by
  unfold head
  by_cases hns : m.has RT_I2C_NO_START = true
  · rw [if_pos hns]
    exact ⟨s, rfl, hq, List.prefix_refl _, fun h => by rw [hns] at h; cases h⟩
  · rw [if_neg hns]
    split
    · obtain ⟨s', h1, h2, h3, h4⟩ := address_errors law hq hsup (i := i)
      exact ⟨s', h1, h2, h3, fun _ => h4⟩
    · obtain ⟨s₁, h1, h2, h3⟩ := @issue_stops p s law hq (.restart i) rfl
      obtain ⟨s', h4, h5, h6, h7⟩ := address_errors law h2 hsup (i := i)
      simp only [h1]
      exact ⟨s', h4, h5, h3.trans h6, fun _ => h7⟩

/-- The bytes end with the first, and leave the index. -/
theorem moveBytes_errors (law : p.Lawful) (hq : law.quiet s.hw) (num : ℕ) :
    ∃ s', moveBytes p errorBus num i m s = (i, s') ∧ law.quiet s'.hw ∧ s.log <+: s'.log ∧
      (m.len ≠ 0 → Wrong s'.log) := by
  unfold moveBytes
  cases hlen : m.len with
  | zero => exact ⟨s, by simp [receiveBytes, sendBytes], hq, List.prefix_refl _, by simp⟩
  | succ n =>
    split
    · obtain ⟨s', h1, h2, h3, h4⟩ := @issue_timeout p s law hq (.read i 0
        (decide ((if i = num - 1 then 1 else 0) + (if 0 = m.len - 1 then 1 else 0) ≠ 2))) rfl
      exact ⟨s', by simp only [receiveBytes, h1], h2, h3, fun _ => h4⟩
    · obtain ⟨s', h1, h2, h3, h4⟩ := @issue_timeout p s law hq (.write i 0 (m.buf 0)
        (m.has RT_I2C_IGNORE_NACK)) rfl
      exact ⟨s', by simp only [sendBytes, h1], h2, h3, fun _ => h4⟩

/-- The loop goes through all the messages. -/
theorem messages_errors (law : p.Lawful) {msgs ms : List rt_i2c_msg} (hsup : Supported p msgs)
    (hms : msgs.drop i = ms) (hi : i ≤ msgs.length) (hq : law.quiet s.hw) :
    ∃ fuel s', messages p errorBus msgs fuel i s = some (msgs.length, s') ∧ law.quiet s'.hw ∧
      s.log <+: s'.log ∧ (¬ Idle ms → Wrong s'.log) := by
  induction ms generalizing i s with
  | nil =>
    have hlen : msgs.length ≤ i := List.drop_eq_nil_iff.1 hms
    have hnone : msgs[i]? = none := List.getElem?_eq_none hlen
    obtain rfl : i = msgs.length := by omega
    exact ⟨1, s, by simp only [messages, hnone], hq, List.prefix_refl _,
      fun h => absurd (fun m hm => by cases hm) h⟩
  | cons m ms ih =>
    have hsome : msgs[i]? = some m := by
      rw [← List.head?_drop, hms]
      rfl
    have hlt : i < msgs.length := (List.getElem?_eq_some_iff.1 hsome).1
    have hdrop : msgs.drop (i + 1) = ms := by rw [← List.tail_drop, hms]; rfl
    obtain ⟨s₁, h1, h2, h3, h4⟩ := head_errors law hq (hsup m (List.mem_of_getElem? hsome)) (i := i)
    obtain ⟨s₂, h5, h6, h7, h8⟩ := moveBytes_errors law h2 msgs.length (i := i) (m := m)
    obtain ⟨fuel, s', h9, h10, h11, h12⟩ := ih hdrop hlt h6
    refine ⟨fuel + 1, s', by simp only [messages, hsome, h1, h5, h9], h10,
      h3.trans (h7.trans h11), fun hidle => ?_⟩
    by_cases hms' : Idle ms
    · -- this one is not idle
      by_cases hlen : m.len = 0
      · have hm : m.has RT_I2C_NO_START = false ∧ m.has RT_I2C_IGNORE_NACK = true := by
          by_contra hno
          refine hidle fun x hx => ?_
          rcases List.mem_cons.1 hx with rfl | hx
          · refine ⟨hlen, ?_⟩
            cases h1 : x.has RT_I2C_NO_START <;> cases h2 : x.has RT_I2C_IGNORE_NACK <;> simp_all
          · exact hms' x hx
        exact (h4 hm.1 hm.2).mono (h7.trans h11)
      · exact (h8 hlen).mono h11
    · exact h12 hms'

/-- On this bus a list that is not idle is not transferred right. -/
theorem not_good (law : p.Lawful) {msgs : List rt_i2c_msg} (hsup : Supported p msgs)
    (hidle : ¬ Idle msgs) : ¬ Good p errorBus msgs := by
  rintro ⟨fuel, ret, s, hx, hright⟩
  obtain ⟨s₁, h1, h2, -⟩ :=
    @issue_stops p ⟨p.init, [], fun _ _ => 0⟩ law law.init_quiet .start rfl
  obtain ⟨fuel', s₂, h3, h4, -, h5⟩ := messages_errors law hsup rfl (Nat.zero_le _) h2
  obtain ⟨s₃, h6, -, h7⟩ := @issue_stops p s₂ law h4 .stop rfl
  have hxfer : nu_mst_xfer p errorBus msgs fuel' = some (msgs.length, s₃) := by
    simp only [nu_mst_xfer, h1, h3, Option.map_some, finish, h6]
  obtain ⟨rfl, rfl⟩ := Prod.mk.inj (nu_mst_xfer_unique hx hxfer)
  obtain ⟨e, he, hf⟩ := (h5 hidle).mono h7
  have hall := (hright.honest.1 rfl).2 e he
  rw [hf] at hall
  cases hall

/-! ### The lists that are transferred right -/

theorem cleanFrom_of_stops {bus : Bus} {slots : List Slot} (hs : ∀ slot ∈ slots, slot.stops = true)
    (h : List (Slot × Reply)) : CleanFrom bus h slots := by
  induction slots generalizing h with
  | nil => trivial
  | cons slot slots ih =>
    have hslot := hs slot (by simp)
    refine ⟨?_, ?_⟩
    · rintro i k ack rfl
      cases hslot
    · split
      · exact ih (fun x hx => hs x (by simp [hx])) _
      · exact hslot

theorem slotsFrom_stops {msgs : List rt_i2c_msg} (hidle : Idle msgs) (num i : ℕ) :
    ∀ slot ∈ slotsFrom p num i msgs, slot.stops = true := by
  induction msgs generalizing i with
  | nil => exact fun slot hs => by cases hs
  | cons m ms ih =>
    obtain ⟨hlen, hflags⟩ := hidle m (by simp)
    intro slot hs
    simp only [slotsFrom, byteSlots, hlen, List.range'_zero, List.map_nil, List.append_nil,
      List.mem_append] at hs
    rcases hs with hs | hs
    · unfold headSlots at hs
      split at hs
      · cases hs
      · rename_i hns
        have hignore : m.has RT_I2C_IGNORE_NACK = false := hflags.resolve_left hns
        rcases List.mem_append.1 hs with hs | hs
        · split at hs
          · cases hs
          · rw [List.mem_singleton] at hs
            rw [hs]
            rfl
        · cases ha : addrSlots p i m with
          | none => simp [ha] at hs
          | some slots =>
            rw [ha, Option.getD_some] at hs
            rw [(addrSlots_message ha hs).2.1, hignore]
            rfl
    · exact ih (fun x hx => hidle x (by simp [hx])) (i + 1) slot hs

theorem clean_of_idle {msgs : List rt_i2c_msg} (hidle : Idle msgs) (bus : Bus) :
    Clean p bus msgs := by
  refine cleanFrom_of_stops (fun slot hs => ?_) []
  simp only [plan, List.cons_append, List.mem_cons, List.mem_append, List.not_mem_nil,
    or_false] at hs
  rcases hs with rfl | hs | rfl
  · rfl
  · exact slotsFrom_stops hidle _ _ slot hs
  · rfl

/-- A message of one byte to a device. -/
def oneByte : rt_i2c_msg := ⟨0x50, 0, 1, fun _ => 0xAA⟩

/-- A bus on which the device acknowledges its address, but no byte. -/
def dataNack : Bus where
  reply _ slot := if slot matches .write .. then .nack else .ack
  data _ := 0

theorem oneByte_not_good (master : Master) : ¬ Good master.port dataNack [oneByte] := by
  rintro ⟨fuel, ret, s, hx, hright⟩
  have hrun : ∃ s', nu_mst_xfer master.port dataNack [oneByte] 2 = some (1, s') ∧
      (Slot.write 0 0 0xAA false, Reply.nack) ∈ s'.log := by
    cases master <;> exact ⟨_, rfl, by decide⟩
  obtain ⟨s', hs', hmem⟩ := hrun
  obtain ⟨rfl, rfl⟩ := Prod.mk.inj (nu_mst_xfer_unique hx hs')
  exact Bool.false_ne_true ((hright.honest.1 rfl).2 _ hmem)

/-- The second of two such messages is sent again and again. -/
theorem messages_replayed (fuel : ℕ) (s : State i2c) :
    messages i2c dataNack [oneByte, oneByte] fuel 1 s = none := by
  induction fuel generalizing s with
  | zero => rfl
  | succ fuel ih => exact ih _

/-- **So the transfer does not end.** -/
theorem replayed_for_ever (fuel : ℕ) :
    nu_i2c_mst_xfer dataNack [oneByte, oneByte] fuel = none := by
  cases fuel with
  | zero => rfl
  | succ fuel => exact congrArg (Option.map _) (messages_replayed fuel _)

end I2c
