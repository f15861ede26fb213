/-
When a master transfer is right.

Under the condition the driver goes along the plan: each of its pieces, the address, the bytes
and the loop over the messages, does its part of it, or breaks off where the driver stops.

* **`Ran`**, **`Broke`** — along the plan, to the end or up to what went wrong;
* **`messages_spec`** — the loop over the messages does the one or the other;
* **`xfer_right`** — and then the transfer is right.
-/
import NuMaker.I2c.Plan

namespace I2c

variable (bus : Bus)

/-! ### Along the plan -/

/-- All the operations were done, and nothing went wrong. -/
inductive Ran : List (Slot × Reply) → List Slot → List (Slot × Reply) → Prop
  | nil (h) : Ran h [] h
  | cons {h slot slots h'} : slot.fine (bus.reply h slot) = true →
      Ran (h ++ [(slot, bus.reply h slot)]) slots h' → Ran h (slot :: slots) h'

/-- They were done as far as one that went wrong, and at which the driver stops. -/
inductive Broke : List (Slot × Reply) → List Slot → List (Slot × Reply) → Prop
  | here {h slot} (rest) : slot.stops = true → slot.fine (bus.reply h slot) = false →
      Broke h (slot :: rest) (h ++ [(slot, bus.reply h slot)])
  | later {h slot slots h'} : slot.fine (bus.reply h slot) = true →
      Broke (h ++ [(slot, bus.reply h slot)]) slots h' → Broke h (slot :: slots) h'

variable {bus} {h h₁ h' : List (Slot × Reply)} {a b : List Slot}

theorem Ran.append (ha : Ran bus h a h₁) (hb : Ran bus h₁ b h') : Ran bus h (a ++ b) h' := by
  induction ha with
  | nil => exact hb
  | cons hf _ ih => exact Ran.cons hf (ih hb)

theorem Ran.broke (ha : Ran bus h a h₁) (hb : Broke bus h₁ b h') : Broke bus h (a ++ b) h' := by
  induction ha with
  | nil => exact hb
  | cons hf _ ih => exact Broke.later hf (ih hb)

/-- The first part of what was done. -/
theorem Ran.front (hr : Ran bus h (a ++ b) h') : ∃ h₁, Ran bus h a h₁ := by
  induction a generalizing h with
  | nil => exact ⟨h, Ran.nil h⟩
  | cons slot a ih =>
    cases hr with
    | cons hf hrest =>
      obtain ⟨h₁, h1⟩ := ih hrest
      exact ⟨h₁, Ran.cons hf h1⟩

theorem Broke.append (ha : Broke bus h a h') (b : List Slot) : Broke bus h (a ++ b) h' := by
  induction ha with
  | here rest hs hf => exact Broke.here _ hs hf
  | later hf _ ih => exact Broke.later hf ih

/-- The condition for what follows. -/
theorem CleanFrom.ran (hc : CleanFrom bus h (a ++ b)) (hr : Ran bus h a h') :
    CleanFrom bus h' b := by
  induction hr with
  | nil => exact hc
  | cons hf _ ih =>
    have := hc.2
    rw [if_pos hf] at this
    exact ih this

/-- What all went well leaves in the log. -/
theorem Ran.log (hr : Ran bus h a h') :
    ∃ l, h' = h ++ l ∧ l.map Prod.fst = a ∧ ∀ e ∈ l, e.1.fine e.2 = true := by
  induction hr with
  | nil h => exact ⟨[], (List.append_nil h).symm, rfl, by simp⟩
  | @cons h slot slots h' hf _ ih =>
    obtain ⟨l, rfl, rfl, hl⟩ := ih
    refine ⟨(slot, bus.reply h slot) :: l, by simp, rfl, ?_⟩
    intro e he
    rcases List.mem_cons.1 he with rfl | he
    · exact hf
    · exact hl e he

/-- And what broke off. -/
theorem Broke.log (hb : Broke bus h a h') : ∃ pre slot post l r, a = pre ++ slot :: post ∧
    h' = h ++ l ++ [(slot, r)] ∧ l.map Prod.fst = pre ∧ slot.stops = true ∧
      slot.fine r = false ∧ Ran bus h pre (h ++ l) := by
  induction hb with
  | @here h slot rest hs hf =>
    exact ⟨[], slot, rest, [], _, rfl, by simp, rfl, hs, hf, by simpa using Ran.nil h⟩
  | @later h slot slots h' hf _ ih =>
    obtain ⟨pre, x, post, l, r, rfl, rfl, rfl, hx, hr, hran⟩ := ih
    refine ⟨slot :: l.map Prod.fst, x, post, (slot, bus.reply h slot) :: l, r, rfl, by simp, rfl,
      hx, hr, Ran.cons hf ?_⟩
    simpa using hran

/-! ### Acknowledging -/

/-- No byte is received past an operation at which the driver stops. -/
theorem readsOn_stops {slot : Slot} (hs : slot.stops = true) (l : List Slot) :
    readsOn (slot :: l) = false := by
  cases slot with
  | write | read => cases hs
  | _ => rfl

theorem acksRight_stops {slot : Slot} (hs : slot.stops = true) (l : List Slot) :
    AcksRight (slot :: l) ↔ AcksRight l := by
  cases slot with
  | write | read => cases hs
  | _ => rfl

theorem readsOn_cut {slot : Slot} (hs : slot.stops = true) (pre l l' : List Slot) :
    readsOn (pre ++ slot :: l) = readsOn (pre ++ slot :: l') := by
  induction pre with
  | nil => rw [List.nil_append, List.nil_append, readsOn_stops hs, readsOn_stops hs]
  | cons x pre ih => cases x <;> first | exact ih | rfl

theorem acksRight_cons {slot : Slot} {l : List Slot}
    (hslot : ∀ i k ack, slot = .read i k ack → ack = readsOn l) (hl : AcksRight l) :
    AcksRight (slot :: l) := by
  cases slot with
  | read i k ack => exact ⟨hslot i k ack rfl, hl⟩
  | _ => exact hl

/-- Along what was done the bytes are acknowledged right, also if it broke off after it. -/
theorem Ran.acks {slot : Slot} (hs : slot.stops = true) {post rest : List Slot}
    (hr : Ran bus h a h') (hc : CleanFrom bus h (a ++ slot :: post)) (hrest : AcksRight rest) :
    AcksRight (a ++ slot :: rest) := by
  induction hr with
  | nil => exact (acksRight_stops hs rest).2 hrest
  | cons hf _ ih =>
    obtain ⟨hslot, hnext⟩ := hc
    rw [if_pos hf] at hnext
    refine acksRight_cons (fun i k ack he => ?_) (ih hnext)
    rw [hslot i k ack he]
    exact readsOn_cut hs _ _ _

/-! ### The driver's pieces -/

variable {p : Port} {s s' : State p} {slot : Slot} {m : rt_i2c_msg} {i : ℕ}

/-- An operation that goes well. -/
theorem issue_fine (law : p.Lawful) (hinv : law.inv s.hw)
    (hf : slot.fine (bus.reply s.log slot) = true) : ∃ o s', issue p bus s slot = (o, s') ∧
    s'.log = s.log ++ [(slot, bus.reply s.log slot)] ∧ law.inv s'.hw ∧
      (o = .ok ∨ o = .bad ∧ slot.fine .nack = true) := by
  refine ⟨_, _, rfl, rfl, ?_⟩
  cases hr : bus.reply s.log slot with
  | timeout => cases slot <;> simp [hr, Slot.fine] at hf
  | ack => exact ⟨(law.ack hinv).2, Or.inl (law.ack hinv).1⟩
  | nack =>
    rw [hr] at hf
    exact ⟨(law.nack hinv hf).2, Or.inr ⟨(law.nack hinv hf).1, hf⟩⟩

/-- One that goes wrong, at which the driver stops. -/
theorem issue_wrong (law : p.Lawful) (hinv : law.inv s.hw) (hs : slot.stops = true)
    (hf : slot.fine (bus.reply s.log slot) = false) : ∃ o s', issue p bus s slot = (o, s') ∧
    s'.log = s.log ++ [(slot, bus.reply s.log slot)] ∧ o ≠ .ok :=
  ⟨_, _, rfl, rfl, law.wrong hinv hs hf⟩

/-- Operations that are fine without an acknowledgement only if that is ignored. -/
theorem sendSlots_spec (law : p.Lawful) {ignore_nack : Bool} {slots rest : List Slot}
    (hslots : ∀ slot ∈ slots, slot.stops = !ignore_nack ∧
      (slot.fine .nack = true → ignore_nack = true))
    (hinv : law.inv s.hw) (hc : CleanFrom bus s.log (slots ++ rest)) :
    (∃ s', sendSlots p bus ignore_nack slots s = (true, s') ∧ Ran bus s.log slots s'.log ∧
      law.inv s'.hw) ∨
    (ignore_nack = false ∧ ∃ s', sendSlots p bus ignore_nack slots s = (false, s') ∧
      Broke bus s.log slots s'.log) := by
  induction slots generalizing s with
  | nil => exact Or.inl ⟨s, rfl, Ran.nil _, hinv⟩
  | cons slot slots ih =>
    obtain ⟨-, hnext⟩ := hc
    obtain ⟨hstops, hnack⟩ := hslots slot (by simp)
    by_cases hf : slot.fine (bus.reply s.log slot) = true
    · rw [if_pos hf] at hnext
      obtain ⟨o, s₁, hs₁, hlog, hinv₁, ho⟩ := issue_fine law hinv hf
      rw [← hlog] at hnext
      have hgo : sendSlots p bus ignore_nack (slot :: slots) s =
          sendSlots p bus ignore_nack slots s₁ := by
        rcases ho with rfl | ⟨rfl, hn⟩
        · simp only [sendSlots, hs₁]
        · simp only [sendSlots, hs₁, hnack hn, if_true]
      rw [hgo]
      rcases ih (fun x hx => hslots x (by simp [hx])) hinv₁ hnext with
        ⟨s', h1, h2, h3⟩ | ⟨h0, s', h1, h2⟩
      · exact Or.inl ⟨s', h1, Ran.cons hf (hlog ▸ h2), h3⟩
      · exact Or.inr ⟨h0, s', h1, Broke.later hf (hlog ▸ h2)⟩
    · rw [if_neg hf] at hnext
      rw [Bool.not_eq_true] at hf
      obtain ⟨o, s₁, hs₁, hlog, ho⟩ := issue_wrong law hinv hnext hf
      have hig : ignore_nack = false := by rw [hnext] at hstops; simpa using hstops
      refine Or.inr ⟨hig, s₁, ?_, hlog ▸ Broke.here _ hnext hf⟩
      cases o with
      | ok => exact absurd rfl ho
      | timeout => simp only [sendSlots, hs₁]
      | bad => simp only [sendSlots, hs₁, hig, Bool.false_eq_true, if_false]

/-- An operation that goes wrong is one at which the driver stops: the others are fine. -/
theorem CleanFrom.fine {h : List (Slot × Reply)} {rest : List Slot} (hs : slot.stops = false)
    (hc : CleanFrom bus h (slot :: rest)) : slot.fine (bus.reply h slot) = true := by
  by_contra hf
  have hstop := hc.2
  rw [if_neg hf, hs] at hstop
  cases hstop

theorem sendBytes_spec (law : p.Lawful) {rest : List Slot} (left cnt_data : ℕ)
    (hinv : law.inv s.hw) (hc : CleanFrom bus s.log ((List.range' cnt_data left).map (fun k =>
      Slot.write i k (m.buf k) (m.has RT_I2C_IGNORE_NACK)) ++ rest)) :
    ∃ s', sendBytes p bus i m left cnt_data s = (i, s') ∧ law.inv s'.hw ∧
      Ran bus s.log ((List.range' cnt_data left).map fun k =>
        Slot.write i k (m.buf k) (m.has RT_I2C_IGNORE_NACK)) s'.log := by
  induction left generalizing cnt_data s with
  | zero => exact ⟨s, rfl, hinv, Ran.nil _⟩
  | succ left ih =>
    rw [List.range'_succ, List.map_cons] at hc ⊢
    have hf := hc.fine rfl
    have hnext := hc.2
    rw [if_pos hf] at hnext
    obtain ⟨o, s₁, hs₁, hlog, hinv₁, ho⟩ := issue_fine law hinv hf
    rw [← hlog] at hnext
    obtain ⟨s', h1, h2, h3⟩ := ih (cnt_data + 1) hinv₁ hnext
    refine ⟨s', ?_, h2, Ran.cons hf (hlog ▸ h3)⟩
    rcases ho with rfl | ⟨rfl, hn⟩
    · simp only [sendBytes, hs₁, h1]
    · simp only [Slot.fine] at hn
      simp only [sendBytes, hs₁]
      rw [if_pos hn, h1]

/-- The driver's count of reasons, and the plan. -/
theorem rd_nack_eq (num i k len : ℕ) :
    decide ((if i = num - 1 then 1 else 0) + (if k = len - 1 then 1 else 0) ≠ 2) =
      !(decide (i = num - 1 ∧ k = len - 1)) := by
  by_cases h1 : i = num - 1 <;> by_cases h2 : k = len - 1 <;> simp [h1, h2]

theorem receiveBytes_spec (law : p.Lawful) {num : ℕ} {rest : List Slot} (left cnt_data : ℕ)
    (hinv : law.inv s.hw) (hc : CleanFrom bus s.log ((List.range' cnt_data left).map (fun k =>
      Slot.read i k !(decide (i = num - 1 ∧ k = m.len - 1))) ++ rest)) :
    ∃ s', receiveBytes p bus num i m left cnt_data s = (i, s') ∧ law.inv s'.hw ∧
      Ran bus s.log ((List.range' cnt_data left).map fun k =>
        Slot.read i k !(decide (i = num - 1 ∧ k = m.len - 1))) s'.log := by
  induction left generalizing cnt_data s with
  | zero => exact ⟨s, rfl, hinv, Ran.nil _⟩
  | succ left ih =>
    rw [List.range'_succ, List.map_cons] at hc ⊢
    have hf := hc.fine rfl
    have hnext := hc.2
    rw [if_pos hf] at hnext
    obtain ⟨o, s₁, hs₁, hlog, hinv₁, ho⟩ := issue_fine law hinv hf
    rw [← hlog] at hnext
    obtain rfl : o = .ok := by
      rcases ho with rfl | ⟨-, hn⟩
      · rfl
      · cases hn
    obtain ⟨s', h1, h2, h3⟩ := @ih (s₁.store i cnt_data (bus.data s₁.log)) (cnt_data + 1) hinv₁ hnext
    refine ⟨s', ?_, h2, Ran.cons hf (hlog ▸ h3)⟩
    rw [← rd_nack_eq] at hs₁
    simp only [receiveBytes, hs₁, h1]

theorem moveBytes_spec (law : p.Lawful) {num : ℕ} {rest : List Slot} (hinv : law.inv s.hw)
    (hc : CleanFrom bus s.log (byteSlots num i m ++ rest)) :
    ∃ s', moveBytes p bus num i m s = (i, s') ∧ law.inv s'.hw ∧
      Ran bus s.log (byteSlots num i m) s'.log := by
  unfold byteSlots at hc ⊢
  unfold moveBytes
  by_cases hrd : m.has RT_I2C_RD = true
  · simp only [hrd, if_true] at hc ⊢
    exact receiveBytes_spec law m.len 0 hinv hc
  · simp only [hrd, Bool.false_eq_true, if_false] at hc ⊢
    exact sendBytes_spec law m.len 0 hinv hc

/-! ### The messages -/

theorem address_spec (law : p.Lawful) {slots rest : List Slot} (ha : addrSlots p i m = some slots)
    (hinv : law.inv s.hw) (hc : CleanFrom bus s.log (slots ++ rest)) :
    (∃ s', address p bus i m s = .goOn s' ∧ Ran bus s.log slots s'.log ∧ law.inv s'.hw) ∨
      ∃ s', address p bus i m s = .leave 0 s' ∧ Broke bus s.log slots s'.log := by
  have hslots : ∀ slot ∈ slots, slot.stops = !m.has RT_I2C_IGNORE_NACK ∧
      (slot.fine .nack = true → m.has RT_I2C_IGNORE_NACK = true) := fun slot hs =>
    ⟨(addrSlots_message ha hs).2.1, (addrSlots_message ha hs).2.2.1⟩
  rcases sendSlots_spec law hslots hinv hc with ⟨s', h1, h2, h3⟩ | ⟨h0, s', h1, h2⟩
  · left
    refine ⟨s', ?_, h2, h3⟩
    simp only [address, nu_send_address, ha, h1, Bool.not_true, Bool.false_and, Bool.false_eq_true,
      if_false]
  · right
    refine ⟨s', ?_, h2⟩
    simp only [address, nu_send_address, ha, h1]
    rw [h0]
    rfl

theorem head_spec (law : p.Lawful) {rest : List Slot}
    (hsup : m.has RT_I2C_ADDR_10BIT = true → p.addr10.isSome) (hinv : law.inv s.hw)
    (hc : CleanFrom bus s.log (headSlots p i m ++ rest)) :
    (∃ s', head p bus i m s = .goOn s' ∧ Ran bus s.log (headSlots p i m) s'.log ∧
      law.inv s'.hw) ∨
    ∃ i' s', head p bus i m s = .leave i' s' ∧ i' ≤ i ∧
      Broke bus s.log (headSlots p i m) s'.log := by
  obtain ⟨slots, ha⟩ := addrSlots_isSome i hsup
  unfold headSlots at hc ⊢
  rw [ha, Option.getD_some] at hc ⊢
  unfold head
  by_cases hns : m.has RT_I2C_NO_START = true
  · rw [if_pos hns, if_pos hns]
    exact Or.inl ⟨s, rfl, Ran.nil _, hinv⟩
  · rw [if_neg hns] at hc
    rw [if_neg hns, if_neg hns]
    by_cases hi : i = 0
    · rw [if_pos hi, List.nil_append] at hc
      rw [if_pos hi, if_pos hi, List.nil_append]
      rcases address_spec law ha hinv hc with h | ⟨s', h1, h2⟩
      · exact Or.inl h
      · exact Or.inr ⟨0, s', h1, Nat.zero_le _, h2⟩
    · rw [if_neg hi] at hc
      rw [if_neg hi, if_neg hi]
      by_cases hf : (Slot.restart i).fine (bus.reply s.log (.restart i)) = true
      · obtain ⟨-, hnext⟩ := hc
        rw [if_pos hf] at hnext
        obtain ⟨o, s₁, hs₁, hlog, hinv₁, ho⟩ := issue_fine law hinv hf
        rw [← hlog] at hnext
        obtain rfl : o = .ok := by
          rcases ho with rfl | ⟨-, hn⟩
          · rfl
          · cases hn
        simp only [hs₁]
        rcases address_spec law ha hinv₁ hnext with ⟨s', h1, h2, h3⟩ | ⟨s', h1, h2⟩
        · exact Or.inl ⟨s', h1, Ran.cons hf (hlog ▸ h2), h3⟩
        · exact Or.inr ⟨0, s', h1, Nat.zero_le _, Broke.later hf (hlog ▸ h2)⟩
      · rw [Bool.not_eq_true] at hf
        obtain ⟨o, s₁, hs₁, hlog, ho⟩ := issue_wrong law hinv rfl hf
        have hbroke : Broke bus s.log (.restart i :: slots) s₁.log := hlog ▸ Broke.here _ rfl hf
        cases o with
        | ok => exact absurd rfl ho
        | timeout => exact Or.inr ⟨i, s₁, by simp only [hs₁], le_refl i, hbroke⟩
        | bad => exact Or.inr ⟨0, s₁, by simp only [hs₁], Nat.zero_le i, hbroke⟩

/-- **The loop over the messages** goes along the plan to the end, or stops before. -/
theorem messages_spec (law : p.Lawful) {msgs ms : List rt_i2c_msg} {rest : List Slot}
    (hsup : Supported p msgs) (hms : msgs.drop i = ms) (hi : i ≤ msgs.length)
    (hinv : law.inv s.hw) (hc : CleanFrom bus s.log (slotsFrom p msgs.length i ms ++ rest)) :
    ∃ fuel i' s', messages p bus msgs fuel i s = some (i', s') ∧
      (i' = msgs.length ∧ Ran bus s.log (slotsFrom p msgs.length i ms) s'.log ∧ law.inv s'.hw ∨
        i' < msgs.length ∧ Broke bus s.log (slotsFrom p msgs.length i ms) s'.log) := by
  induction ms generalizing i s with
  | nil =>
    have hlen : msgs.length ≤ i := List.drop_eq_nil_iff.1 hms
    have hnone : msgs[i]? = none := List.getElem?_eq_none hlen
    exact ⟨1, i, s, by simp only [messages, hnone], Or.inl ⟨by omega, Ran.nil _, hinv⟩⟩
  | cons m ms ih =>
    have hsome : msgs[i]? = some m := by
      rw [← List.head?_drop, hms]
      rfl
    have hlt : i < msgs.length := (List.getElem?_eq_some_iff.1 hsome).1
    have hdrop : msgs.drop (i + 1) = ms := by rw [← List.tail_drop, hms]; rfl
    have hm : m ∈ msgs := List.mem_of_getElem? hsome
    simp only [slotsFrom, List.append_assoc] at hc ⊢
    rcases head_spec law (hsup m hm) hinv hc with ⟨s₁, h1, h2, h3⟩ | ⟨i', s', h1, h2, h3⟩
    · have hc₁ := hc.ran h2
      obtain ⟨s₂, h4, h5, h6⟩ := moveBytes_spec law h3 hc₁
      obtain ⟨fuel, i', s', h7, h8⟩ := ih hdrop hlt h5 (hc₁.ran h6)
      refine ⟨fuel + 1, i', s', by simp only [messages, hsome, h1, h4, h7], ?_⟩
      rcases h8 with ⟨h8, h9, h10⟩ | ⟨h8, h9⟩
      · exact Or.inl ⟨h8, h2.append (h6.append h9), h10⟩
      · exact Or.inr ⟨h8, h2.broke (h6.broke h9)⟩
    · exact ⟨1, i', s', by simp only [messages, hsome, h1],
        Or.inr ⟨by omega, h3.append _⟩⟩

/-! ### The transfer -/

/-- The transfer goes along the plan to the end and returns the number of messages; or something
goes wrong, and it returns less, with or without a STOP. -/
theorem nu_mst_xfer_spec (law : p.Lawful) {msgs : List rt_i2c_msg} (hne : msgs ≠ [])
    (hsup : Supported p msgs) (hc : Clean p bus msgs) :
    ∃ fuel ret s, nu_mst_xfer p bus msgs fuel = some (ret, s) ∧
      (ret = msgs.length ∧ Ran bus [] (plan p msgs) s.log ∨
        ret < msgs.length ∧ (Broke bus [] (plan p msgs) s.log ∨ ∃ h r,
          Broke bus [] (.start :: slotsFrom p msgs.length 0 msgs) h ∧ s.log = h ++ [(.stop, r)])) := by
  have hpos : 0 < msgs.length := List.length_pos_iff.2 hne
  set s₀ : State p := ⟨p.init, [], fun _ _ => 0⟩ with hs₀
  by_cases hf : Slot.start.fine (bus.reply s₀.log .start) = true
  · have hnext := hc.2
    rw [if_pos hf] at hnext
    obtain ⟨o, s, hs, hlog, hinv, ho⟩ := issue_fine law (s := s₀) law.init_inv hf
    obtain rfl : o = .ok := by
      rcases ho with rfl | ⟨-, hn⟩
      · rfl
      · cases hn
    rw [← hlog] at hnext
    obtain ⟨fuel, i', s', h1, h2⟩ := messages_spec law hsup rfl (Nat.zero_le _) hinv hnext
    have hxfer : nu_mst_xfer p bus msgs fuel = some (finish p bus i' s') := by
      simp only [nu_mst_xfer, ← hs₀, hs, h1, Option.map_some]
    rcases h2 with ⟨rfl, h3, hinv'⟩ | ⟨hlt, h3⟩
    · have hran : Ran bus [] (.start :: slotsFrom p msgs.length 0 msgs) s'.log :=
        Ran.cons hf (hlog ▸ h3)
      by_cases hstop : Slot.stop.fine (bus.reply s'.log .stop) = true
      · obtain ⟨o, s'', hs'', hlog'', -, ho⟩ := issue_fine law hinv' hstop
        obtain rfl : o = .ok := by
          rcases ho with rfl | ⟨-, hn⟩
          · rfl
          · cases hn
        refine ⟨fuel, msgs.length, s'', by simp only [hxfer, finish, hs''], Or.inl ⟨rfl, ?_⟩⟩
        rw [hlog'']
        exact hran.append (Ran.cons hstop (Ran.nil _))
      · rw [Bool.not_eq_true] at hstop
        obtain ⟨o, s'', hs'', hlog'', ho⟩ := issue_wrong law hinv' rfl hstop
        refine ⟨fuel, 0, s'', ?_, Or.inr ⟨hpos, Or.inl ?_⟩⟩
        · cases o with
          | ok => exact absurd rfl ho
          | timeout | bad => simp only [hxfer, finish, hs'']
        · rw [hlog'']
          exact hran.broke (Broke.here [] rfl hstop)
    · have hbroke : Broke bus [] (.start :: slotsFrom p msgs.length 0 msgs) s'.log :=
        Broke.later hf (hlog ▸ h3)
      have hret : (finish p bus i' s').1 < msgs.length := by
        unfold finish
        split
        · exact hlt
        · exact hpos
      have hstop : (finish p bus i' s').2.log =
          s'.log ++ [(.stop, bus.reply s'.log .stop)] := by
        unfold finish
        split <;> rename_i heq <;> exact congrArg (fun x => x.2.log) heq.symm
      exact ⟨fuel, _, _, hxfer, Or.inr ⟨hret, Or.inr ⟨s'.log, _, hbroke, hstop⟩⟩⟩
  · rw [Bool.not_eq_true] at hf
    obtain ⟨o, s, hs, hlog, ho⟩ := issue_wrong law (s := s₀) law.init_inv rfl hf
    refine ⟨0, 0, s, ?_, Or.inr ⟨hpos, Or.inl ?_⟩⟩
    · cases o with
      | ok => exact absurd rfl ho
      | timeout | bad => simp only [nu_mst_xfer, ← hs₀, hs]
    · rw [hlog]
      exact Broke.here _ rfl hf

/-- Something that went wrong settles what the transfer has to return. -/
theorem honest_of_wrong {msgs : List rt_i2c_msg} {ret : ℕ} {log : List (Slot × Reply)}
    (hret : ret < msgs.length) {e : Slot × Reply} (he : e ∈ log) (hf : e.1.fine e.2 = false) :
    ret = msgs.length ↔ (∀ slot ∈ plan p msgs, slot.owed = true → (slot, .ack) ∈ log) ∧
      ∀ e ∈ log, e.1.fine e.2 = true := by
  constructor
  · intro h
    omega
  · rintro ⟨-, hall⟩
    rw [hall e he] at hf
    cases hf

/-- A byte that has to be acknowledged, and went well, was. -/
theorem ack_of_owed {slot : Slot} {r : Reply} (howed : slot.owed = true) (hf : slot.fine r = true) :
    r = .ack := by
  cases r with
  | ack => rfl
  | timeout => cases slot <;> cases hf
  | nack =>
    cases slot with
    | addr | write => simp_all [Slot.owed, Slot.fine]
    | _ => cases hf

/-- **Under the condition the transfer is right.** -/
theorem xfer_right (law : p.Lawful) {msgs : List rt_i2c_msg} (hne : msgs ≠ [])
    (hsup : Supported p msgs) (hc : Clean p bus msgs) : Good p bus msgs := by
  obtain ⟨fuel, ret, s, hx, h⟩ := nu_mst_xfer_spec law hne hsup hc
  refine ⟨fuel, ret, s, hx, ?_⟩
  rcases h with ⟨rfl, hran⟩ | ⟨hret, hbroke | ⟨h, r, hbroke, hlog⟩⟩
  · obtain ⟨l, hl, hmap, hfine⟩ := hran.log
    rw [List.nil_append] at hl
    rw [hl]
    refine ⟨by rw [hmap], ?_, ?_⟩
    · obtain ⟨h₁, hfirst⟩ := Ran.front hran
      rw [hmap]
      exact hfirst.acks rfl hc trivial
    · refine ⟨fun _ => ⟨fun slot hs howed => ?_, hfine⟩, fun _ => rfl⟩
      rw [← hmap] at hs
      obtain ⟨⟨slot', r⟩, he, rfl⟩ := List.mem_map.1 hs
      rwa [← ack_of_owed howed (hfine _ he)]
  · obtain ⟨pre, slot, post, l, r, hplan, hl, hmap, hstops, hf, hran⟩ := hbroke.log
    rw [List.nil_append] at hl
    rw [hl]
    refine ⟨?_, ?_, honest_of_wrong hret (List.mem_append_right _ (List.mem_singleton_self _)) hf⟩
    · rw [hplan, List.map_append, hmap]
      exact List.Sublist.filter _ (List.Sublist.append (List.Sublist.refl pre) (by simp))
    · rw [Clean, hplan] at hc
      rw [List.map_append, hmap]
      exact hran.acks hstops hc trivial
  · obtain ⟨pre, slot, post, l, r', hplan, hl, hmap, hstops, hf, hran⟩ := hbroke.log
    rw [List.nil_append] at hl
    rw [hlog, hl]
    have hwhole : plan p msgs = pre ++ slot :: (post ++ [.stop]) := by
      rw [plan, ← List.cons_append, hplan, List.append_assoc]
    refine ⟨?_, ?_, honest_of_wrong hret (List.mem_append_left _
      (List.mem_append_right _ (List.mem_singleton_self _))) hf⟩
    · rw [hwhole, List.map_append, List.map_append, hmap, List.append_assoc]
      -- the STOP comes early, but is no byte
      refine List.Sublist.filter _ (List.Sublist.append (List.Sublist.refl pre) ?_)
      exact List.Sublist.cons_cons slot (List.sublist_append_right post [.stop])
    · rw [Clean, hwhole] at hc
      rw [List.map_append, List.map_append, hmap, List.append_assoc]
      exact hran.acks hstops hc trivial

end I2c
