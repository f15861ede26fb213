/-
Messages through the CAN driver.

* `nu_canfd_frames` — a message written to a Tx element and read back from the same
  words is the same message; a message read stays inside the caller's message exactly
  when its length code is one of up to 8 bytes or the build has room for 64.
-/
import NuMaker.Canfd.Driver

namespace Canfd

/-! ### Identifiers and lengths -/

theorem CANFD_GET_SID_SET_SID {id : BitVec 29} (h : id.toNat < 2 ^ 11) :
    CANFD_GET_SID (CANFD_SET_SID id) = id := by
  refine BitVec.eq_of_toNat_eq ?_
  have hlow : (id &&& 0x7FF).toNat = id.toNat := by
    rw [BitVec.toNat_and]
    exact (Nat.and_two_pow_sub_one_eq_mod id.toNat 11).trans (Nat.mod_eq_of_lt h)
  rw [CANFD_GET_SID, CANFD_SET_SID, BitVec.toNat_ushiftRight, BitVec.toNat_shiftLeft, hlow,
    Nat.shiftLeft_eq, Nat.shiftRight_eq_div_pow, Nat.mod_eq_of_lt (by omega),
    Nat.mul_div_cancel _ (by decide)]

theorem CANFD_DecodeDLC_le (dlc : ℕ) : CANFD_DecodeDLC dlc ≤ 64 := by
  rw [CANFD_DecodeDLC]
  split_ifs <;> omega

/-- The length codes of up to 8 bytes. -/
theorem CANFD_DecodeDLC_le_eight {dlc : ℕ} : CANFD_DecodeDLC dlc ≤ 8 ↔ dlc ≤ 8 := by
  rw [CANFD_DecodeDLC]
  split_ifs <;> omega

/-- The length code of a message. -/
theorem sTxMsg_DLC {pmsg : rt_can_msg} {b : CANFD_TX_BUF_T} (h : sTxMsg pmsg = some b)
    (hlen : pmsg.len.toNat ≤ 8) : b.DLC.toNat = pmsg.len.toNat := by
  rw [sTxMsg] at h
  simp only [show ¬ pmsg.len.toNat > 64 by omega, if_false] at h
  by_cases h0 : pmsg.len.toNat > 0
  · simp only [h0, if_true, Option.some.injEq] at h
    subst h
    rw [BitVec.toNat_ofNat, CANFD_EncodeDLC, if_pos hlen]
    exact Nat.mod_eq_of_lt (by omega)
  · simp only [h0, if_false, Option.some.injEq] at h
    subst h
    have hz : pmsg.len.toNat = 0 := by omega
    rw [hz]
    rfl

/-- The fields of a message. -/
structure Carries (b : CANFD_TX_BUF_T) (pmsg : rt_can_msg) : Prop where
  XTD : b.XTD = pmsg.ide
  RTR : b.RTR = pmsg.rtr
  ID : b.ID = if pmsg.ide ≠ 0 then pmsg.id else CANFD_SET_SID pmsg.id
  DB : ∀ i < pmsg.len.toNat, b.DB i = pmsg.data i

theorem sTxMsg_carries {pmsg : rt_can_msg} {b : CANFD_TX_BUF_T} (h : sTxMsg pmsg = some b) :
    Carries b pmsg := by
  rw [sTxMsg] at h
  by_cases hbig : pmsg.len.toNat > 64
  · simp [hbig] at h
  · simp only [hbig, if_false] at h
    by_cases h0 : pmsg.len.toNat > 0
    · simp only [h0, if_true, Option.some.injEq] at h
      subst h
      exact ⟨rfl, rfl, rfl, fun i hi => if_pos hi⟩
    · simp only [h0, if_false, Option.some.injEq] at h
      subst h
      exact ⟨rfl, rfl, rfl, fun i hi => absurd hi (by omega)⟩

/-! ### There and back -/

/-- The id has as many bits as its kind. -/
def rt_can_msg.Proper (m : rt_can_msg) : Prop := m.ide = RT_CAN_STDID → m.id.toNat < 2 ^ 11

/-- The same message. -/
structure SameMsg (m m' : rt_can_msg) : Prop where
  id : m'.id = m.id
  ide : m'.ide = m.ide
  rtr : m'.rtr = m.rtr
  len : m'.len = m.len
  data : ∀ i < m.len.toNat, m'.data i = m.data i

theorem bit_cases (x : BitVec 1) : x = 0 ∨ x = 1 := by
  revert x
  decide

/-- A message read from the words it was written to. -/
theorem received_same (b : Build) {m : rt_can_msg} (hm : m.Proper) (hlen : m.len.toNat ≤ 8)
    {t : CANFD_TX_BUF_T} (ht : sTxMsg m = some t) {r : CANFD_RX_BUF_T} (hr : Echoes t r)
    (pmsg : rt_can_msg) (boxno : ℕ) :
    SameMsg m (received b r pmsg boxno).1 ∧ (received b r pmsg boxno).2 = m.len.toNat := by
  have hc := sTxMsg_carries ht
  have hdlc : CANFD_DecodeDLC r.DLC.toNat = m.len.toNat := by
    rw [hr.DLC, sTxMsg_DLC ht hlen, CANFD_DecodeDLC, if_pos hlen]
  have hxtd : r.XTD = m.ide := hr.XTD.trans hc.XTD
  have hrtr : r.RTR = m.rtr := hr.RTR.trans hc.RTR
  have hid : r.ID = if m.ide ≠ 0 then m.id else CANFD_SET_SID m.id := hr.ID.trans hc.ID
  constructor
  · constructor
    · simp only [received, hxtd, hid]
      rcases bit_cases m.ide with h | h
      · simp only [h, ne_eq, not_true_eq_false, if_false]
        exact CANFD_GET_SID_SET_SID (hm h)
      · simp only [h, ne_eq]
        rfl
    · simp only [received, hxtd]
      rcases bit_cases m.ide with h | h
      · rw [h]
        rfl
      · rw [h]
        rfl
    · simp only [received, hrtr]
      rcases bit_cases m.rtr with h | h
      · rw [h]
        rfl
      · rw [h]
        rfl
    · simp only [received, hdlc]
      exact BitVec.ofNat_toNat ..
    · intro i hi
      simp only [received, hdlc, hi, if_true]
      rw [hr.DB i (by omega), hc.DB i hi]
  · exact hdlc

/-- The element at the front of Rx FIFO 0. -/
def nu_canfd.front (can : nu_canfd) : ℕ :=
  can.port.elemAddr .fifo0 sizeofBuf (field can.port.ctl.RXF0S 8 6)

/-- Rx FIFO 0 holds something. -/
def nu_canfd.Pending (can : nu_canfd) : Prop := field can.port.ctl.RXF0S 0 7 > 0

/-- What is at the front of Rx FIFO 0. -/
def nu_canfd.rxElem (can : nu_canfd) : CANFD_RX_BUF_T :=
  .ofWords fun k => can.port.ram (can.front + k)

theorem nu_canfd_recvmsg_pending (b : Build) {can : nu_canfd} (h : can.Pending) (pmsg : rt_can_msg)
    (boxno : ℕ) : ∃ can', nu_canfd_recvmsg b can pmsg boxno =
      (RT_EOK, (received b can.rxElem pmsg boxno).1, (received b can.rxElem pmsg boxno).2, can') := by
  have ht : ∃ port, CANFD_Transfer_RF0 can.port = (some (can.front, can.rxElem), port) := by
    rw [nu_canfd.Pending] at h
    exact ⟨_, by rw [CANFD_Transfer_RF0, if_pos h]; rfl⟩
  obtain ⟨port, ht⟩ := ht
  exact ⟨_, by rw [nu_canfd_recvmsg, ht]⟩

/-- A message written is in the words of its element. -/
theorem nu_canfd_sendmsg_words {σ σ' : Port} {m : rt_can_msg} {boxno : ℕ}
    (h : nu_canfd_sendmsg σ m boxno = some (RT_EOK, σ')) : ∃ t, sTxMsg m = some t ∧
      ∀ k < 18, σ'.ram (σ'.elemAddr .tx sizeofBuf boxno + k) = t.words k := by
  obtain ⟨t, ht, hr⟩ := Option.map_eq_some_iff.mp h
  refine ⟨t, ht, fun k hk => ?_⟩
  rw [CANFD_Transfer_DTB] at hr
  by_cases hmax : boxno ≥ CANFD_MAX_TX_BUF_ELEMS
  · simp [hmax, RT_EOK, RT_ERROR] at hr
  · by_cases hpend : σ.ctl.TXBRP.getLsbD boxno = true
    · simp [hmax, hpend, RT_EOK, RT_ERROR] at hr
    · simp only [hmax, hpend, if_false] at hr
      obtain rfl := (Prod.mk.inj hr).2
      show putWords σ.ram (σ.elemAddr .tx sizeofBuf boxno) 18 t.words
        (σ.elemAddr .tx sizeofBuf boxno + k) = t.words k
      rw [putWords, if_pos ⟨Nat.le_add_right _ _, Nat.add_lt_add_left hk _⟩, Nat.add_sub_cancel_left]

/-- A message reported has a length that fits in `data`, and no byte is written behind
it. -/
structure Inside (b : Build) (r : ℤ × rt_can_msg × ℕ × nu_canfd) : Prop where
  len : r.1 = RT_EOK → r.2.1.len.toNat ≤ b.dataSize
  written : r.2.2.1 ≤ b.dataSize

theorem nu_canfd_recvmsg_inside_iff (b : Build) (can : nu_canfd) (pmsg : rt_can_msg) (boxno : ℕ) :
    Inside b (nu_canfd_recvmsg b can pmsg boxno) ↔
      (can.Pending → b.RT_CAN_USING_CANFD = true ∨ can.rxElem.DLC.toNat ≤ 8) := by
  by_cases hp : can.Pending
  · obtain ⟨can', hr⟩ := nu_canfd_recvmsg_pending b hp pmsg boxno
    rw [hr]
    have h64 := CANFD_DecodeDLC_le can.rxElem.DLC.toNat
    have hlen : (received b can.rxElem pmsg boxno).1.len.toNat =
        CANFD_DecodeDLC can.rxElem.DLC.toNat := by
      rw [received, BitVec.toNat_ofNat]
      exact Nat.mod_eq_of_lt (by omega)
    have hiff : CANFD_DecodeDLC can.rxElem.DLC.toNat ≤ b.dataSize ↔
        b.RT_CAN_USING_CANFD = true ∨ can.rxElem.DLC.toNat ≤ 8 := by
      rw [Build.dataSize]
      cases b.RT_CAN_USING_CANFD with
      | true => simp [h64]
      | false => simp [CANFD_DecodeDLC_le_eight]
    constructor
    · rintro ⟨-, hw⟩ -
      exact hiff.mp hw
    · intro h
      constructor
      · intro _
        rw [hlen]
        exact hiff.mpr (h hp)
      · exact hiff.mpr (h hp)
  · have hr : nu_canfd_recvmsg b can pmsg boxno = (-RT_ERROR, pmsg, 0, can) := by
      have hp' : ¬ field can.port.ctl.RXF0S 0 7 > 0 := hp
      rw [nu_canfd_recvmsg, CANFD_Transfer_RF0, if_neg hp']
    rw [hr]
    constructor
    · exact fun _ h => absurd h hp
    · intro _
      constructor
      · have hne : -RT_ERROR ≠ RT_EOK := by decide
        exact fun h => absurd h hne
      · exact Nat.zero_le _

/-- **Messages through the driver**: they survive the way through an element, and a
message read stays inside the caller's exactly when its length code is one of up to 8
bytes or there is room for 64. -/
theorem nu_canfd_frames (b : Build) :
    (∀ (σ σ' : Port) (m : rt_can_msg) (boxno : ℕ), m.Proper → m.len.toNat ≤ 8 →
      nu_canfd_sendmsg σ m boxno = some (RT_EOK, σ') →
      ∀ (can : nu_canfd) (pmsg : rt_can_msg) (boxno' : ℕ), can.Pending →
        (∀ k < 18, can.port.ram (can.front + k) = σ'.ram (σ'.elemAddr .tx sizeofBuf boxno + k)) →
        (nu_canfd_recvmsg b can pmsg boxno').1 = RT_EOK ∧
          SameMsg m (nu_canfd_recvmsg b can pmsg boxno').2.1) ∧
    ∀ (can : nu_canfd) (pmsg : rt_can_msg) (boxno : ℕ),
      Inside b (nu_canfd_recvmsg b can pmsg boxno) ↔
        (can.Pending → b.RT_CAN_USING_CANFD = true ∨ can.rxElem.DLC.toNat ≤ 8) := by
  constructor
  · intro σ σ' m boxno hm hlen hs can pmsg boxno' hp hsame
    obtain ⟨t, ht, hwords⟩ := nu_canfd_sendmsg_words hs
    have hecho : Echoes t can.rxElem :=
      echoes_ofWords t fun k hk => (hsame k hk).trans (hwords k hk)
    obtain ⟨can', hr⟩ := nu_canfd_recvmsg_pending b hp pmsg boxno'
    rw [hr]
    exact ⟨rfl, (received_same b hm hlen ht hecho pmsg boxno').1⟩
  · exact nu_canfd_recvmsg_inside_iff b

/-- A build without `RT_CAN_USING_CANFD`. -/
def classicBuild : Build := ⟨true, false, fun _ => (.zero, ⟨1, 0, 0⟩), ⟨0, 12000000, 72000000⟩⟩

/-- A driver whose Rx FIFO 0 holds an element with the given words. -/
def holding (w : ℕ → BitVec 32) : nu_canfd where
  base := .CANFD0
  int_flag := 0
  sCANFD_Config := defaultConfig
  config := ⟨CAN1MBaud, 0, 0⟩
  status := ⟨0, 0, 0, 0⟩
  hdr := fun _ => false
  port := { powerOn with ctl := { Ctl.zero with RXF0S := 1 }, ram := w }

/-- Three bytes of the standard identifier `0x123`. -/
def threeBytes : rt_can_msg := ⟨0x123, RT_CAN_STDID, RT_CAN_DTR, 3, 0, fun i => BitVec.ofNat 8 i⟩

/-- Three bytes go through. -/
theorem nu_canfd_frames_three_bytes : ∃ σ', nu_canfd_sendmsg powerOn threeBytes 0 = some (RT_EOK, σ') ∧
    SameMsg threeBytes (nu_canfd_recvmsg classicBuild
      (holding fun k => σ'.ram (σ'.elemAddr .tx sizeofBuf 0 + k)) threeBytes 0).2.1 := by
  refine ⟨_, rfl, ?_⟩
  refine ((nu_canfd_frames classicBuild).1 powerOn _ threeBytes 0 ?_ ?_ rfl (holding _) threeBytes 0 ?_
    ?_).2
  · intro _
    decide
  · decide
  · show field (1 : BitVec 32) 0 7 > 0
    decide
  · intro k _
    show _ = _
    rw [show (holding _).front = 0 from rfl, Nat.zero_add]
    rfl

/-- A classic frame with the length code 15 is reported with 64 bytes. -/
theorem nu_canfd_recvmsg_overrun : ¬ ∀ (b : Build) (can : nu_canfd) (pmsg : rt_can_msg) (boxno : ℕ),
    Inside b (nu_canfd_recvmsg b can pmsg boxno) := by
  intro h
  have hin := h classicBuild (holding fun k => if k = 1 then 0xF0000 else 0) threeBytes 0
  have hwritten : (nu_canfd_recvmsg classicBuild (holding fun k => if k = 1 then 0xF0000 else 0)
      threeBytes 0).2.2.1 = 64 := by decide
  have := hin.written
  rw [hwritten] at this
  exact absurd this (by decide)

end Canfd
