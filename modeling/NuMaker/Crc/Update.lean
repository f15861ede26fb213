/-
Checksums over a stream of buffers.

Feeding a buffer moves the engine's remainder on by its bytes, however they are fed
(`nu_crc_loop_spec`), and ends as long as the copies get on (`nu_crc_loop_ends`).  The running
value is taken from `CHECKSUM`, which reflection changes, and goes back in as a seed, which it
does not: the pieces of a stream fit together without reflected output only.

* **`crc_stream_iff`** — any cut of the data gives the reference checksum exactly when the output
  is not reflected and the copies, if there are any, keep getting on.
-/
import NuMaker.Crc.Driver

namespace Crc

open Remainder

/-! ### What is to be computed -/

/-- The width of the checksum a polynomial belongs to. -/
def polyWidth (poly : BitVec 32) : ℕ :=
  if poly = CRC_32_POLY then 32 else if poly = CRC_8_POLY then 8 else 16

/-- The reference: the checksum of the configuration's parameters, with the final exclusive or. -/
def reference (c : hwcrypto_crc_cfg) (data : List (BitVec 8)) : BitVec 32 :=
  (check (c.poly.setWidth (polyWidth c.poly)) (c.last_val.setWidth (polyWidth c.poly)) c.refin
    c.refout data).setWidth 32 ^^^ c.xorout

/-- The polynomials the driver takes. -/
def Supported (c : hwcrypto_crc_cfg) : Prop :=
  c.poly = CRC_32_POLY ∨ c.poly = CRC_CCITT_POLY ∨ c.poly = CRC_16_POLY ∨ c.poly = CRC_8_POLY

/-- Every stream is checked right: whatever the engine was left in, and however the data is cut
into buffers at whatever addresses, the calls end and the last returns the reference. -/
def StreamOk (b : Build) (c : hwcrypto_crc_cfg) : Prop :=
  ∀ (s : State) (chunks : List (ℕ × List (BitVec 8))), chunks ≠ [] →
    ∃ fuel s' c', updateAll b fuel s c 0 chunks =
      some (s', c', reference c (chunks.map Prod.snd).flatten)

/-- The copies keep getting on: after any of them there is one that moves a word. -/
def Build.GetsOn (b : Build) : Prop := b.usePdma → ∀ n, ∃ m ≥ n, 0 < b.mempush m

/-! ### One pass -/

section

variable {w : ℕ} {poly : BitVec w} {refin refout : Bool} {r : BitVec w}

/-- Clearing the data length. -/
theorem Engine.Loaded.byteMode {e : Engine} (h : e.Loaded poly refin refout r) :
    (e.writeCTL (e.CTL &&& ~~~CTL_DATLEN_Msk)).Loaded poly refin refout r ∧
    (e.writeCTL (e.CTL &&& ~~~CTL_DATLEN_Msk)).CTL &&& CTL_DATLEN_Msk = 0 := by
  obtain ⟨hl, hc⟩ := h.writeCTL (v := e.CTL &&& ~~~CTL_DATLEN_Msk)
    (by rw [BitVec.and_assoc, show ~~~CTL_DATLEN_Msk &&& CTL_CRCMODE_Msk = CTL_CRCMODE_Msk by decide])
    (fun i hi => by
      have : (~~~CTL_DATLEN_Msk).getLsbD i = true := by
        have : ∀ i < 28, (~~~CTL_DATLEN_Msk).getLsbD i = true := by decide
        exact this i hi
      rw [BitVec.getLsbD_and, this, Bool.and_true])
  refine ⟨hl, ?_⟩
  rw [hc, BitVec.and_assoc, show ~~~CTL_DATLEN_Msk &&& CTL_DATLEN_Msk = 0 by decide]
  exact BitVec.and_zero

/-- Selecting words, after the data length has been cleared. -/
theorem Engine.Loaded.wordMode {e : Engine} (h : e.Loaded poly refin refout r)
    (hd : e.CTL &&& CTL_DATLEN_Msk = 0) :
    (e.writeCTL (e.CTL ||| CRC_CPU_WDATA_32)).Loaded poly refin refout r ∧
    (e.writeCTL (e.CTL ||| CRC_CPU_WDATA_32)).CTL &&& CTL_DATLEN_Msk = CRC_CPU_WDATA_32 := by
  obtain ⟨hl, hc⟩ := h.writeCTL (v := e.CTL ||| CRC_CPU_WDATA_32)
    (by rw [BitVec.and_or_distrib_right, show CRC_CPU_WDATA_32 &&& CTL_CRCMODE_Msk = 0 by decide]
        exact BitVec.or_zero)
    (fun i hi => by
      have : CRC_CPU_WDATA_32.getLsbD i = false := by
        have : ∀ i < 28, CRC_CPU_WDATA_32.getLsbD i = false := by decide
        exact this i hi
      rw [BitVec.getLsbD_or, this, Bool.or_false])
  refine ⟨hl, ?_⟩
  rw [hc, BitVec.and_or_distrib_right, hd]
  decide

/-- A row of words. -/
theorem Engine.Loaded.writeWords {e : Engine} (h : e.Loaded poly refin refout r)
    (hd : e.CTL &&& CTL_DATLEN_Msk = CRC_CPU_WDATA_32) {n : ℕ} {l : List (BitVec 8)}
    (hn : n * 4 ≤ l.length) :
    (e.writeWords n l).Loaded poly refin refout (feed poly refin r (l.take (n * 4))) := by
  induction n generalizing e l r with
  | zero => simpa [Engine.writeWords] using h
  | succ n ih =>
    obtain ⟨hw, hc⟩ := h.writeWord hd (l := l.take 4) (by rw [List.length_take]; omega)
    have := ih hw (hc ▸ hd) (l := l.drop 4) (by rw [List.length_drop]; omega)
    rwa [← feed_append, ← List.take_add, show 4 + n * 4 = (n + 1) * 4 by omega] at this

/-- **One pass of the loop** moves the remainder on by the bytes it takes, and takes some unless
a copy got nowhere. -/
theorem nu_crc_pass_spec (b : Build) {s : State} (h : s.eng.Loaded poly refin refout r) (addr : ℕ)
    {rest : List (BitVec 8)} (hne : rest ≠ []) :
    (nu_crc_pass b s addr rest).1.eng.Loaded poly refin refout
      (feed poly refin r (rest.take (nu_crc_pass b s addr rest).2)) ∧
    (0 < (nu_crc_pass b s addr rest).2 ∨ b.usePdma = true ∧ b.mempush s.copies = 0 ∧
      (nu_crc_pass b s addr rest).1.copies = s.copies + 1) := by
  obtain ⟨hb, hbm⟩ := h.byteMode
  by_cases hbyte : addr % 4 ≠ 0 ∨ rest.length < 4
  · -- a single byte
    obtain ⟨x, rest, rfl⟩ := List.exists_cons_of_ne_nil hne
    simp only [nu_crc_pass, if_pos hbyte, List.headD_cons]
    exact ⟨(hb.writeByte hbm x).1, Or.inl (by omega)⟩
  · obtain ⟨hw, hwm⟩ := hb.wordMode hbm
    simp only [nu_crc_pass, if_neg hbyte]
    cases hp : b.usePdma with
    | true =>
      have hcnt : min (b.mempush s.copies) (rest.length / 4) * 4 ≤ rest.length := by
        have := Nat.div_mul_le_self rest.length 4
        have := Nat.min_le_right (b.mempush s.copies) (rest.length / 4)
        omega
      simp only [if_true]
      refine ⟨hw.writeWords hwm hcnt, ?_⟩
      by_cases hz : b.mempush s.copies = 0
      · exact Or.inr ⟨trivial, hz, trivial⟩
      · left
        have : 0 < min (b.mempush s.copies) (rest.length / 4) := by
          rw [Nat.lt_min]
          omega
        omega
    | false =>
      simp only [Bool.false_eq_true, if_false]
      exact ⟨(hw.writeWord hwm (by rw [List.length_take]; omega)).1, Or.inl (by omega)⟩

/-! ### The loop -/

/-- **The loop feeds the buffer**, whatever mixture of bytes, words and copies it was fed by. -/
theorem nu_crc_loop_spec (b : Build) {fuel : ℕ} {s s' : State}
    (h : s.eng.Loaded poly refin refout r) {addr : ℕ} {rest : List (BitVec 8)}
    (hr : nu_crc_loop b fuel s addr rest = some s') :
    s'.eng.Loaded poly refin refout (feed poly refin r rest) := by
  induction fuel generalizing s addr rest r with
  | zero =>
    simp only [nu_crc_loop] at hr
    split at hr
    · rename_i hnil
      obtain rfl : s = s' := by simpa using hr
      rwa [hnil]
    · cases hr
  | succ fuel ih =>
    simp only [nu_crc_loop] at hr
    split at hr
    · rename_i hnil
      obtain rfl : s = s' := by simpa using hr
      rwa [hnil]
    · rename_i hne
      have := ih (nu_crc_pass_spec b h addr hne).1 hr
      rwa [← feed_append, List.take_append_drop] at this

/-- More passes do no harm. -/
theorem nu_crc_loop_mono (b : Build) {fuel fuel' : ℕ} (hf : fuel ≤ fuel') {s s' : State} {addr : ℕ}
    {rest : List (BitVec 8)} (hr : nu_crc_loop b fuel s addr rest = some s') :
    nu_crc_loop b fuel' s addr rest = some s' := by
  induction fuel generalizing fuel' s addr rest with
  | zero =>
    simp only [nu_crc_loop] at hr
    split at hr
    · rename_i hnil
      cases fuel' <;> simpa [nu_crc_loop, hnil] using hr
    · cases hr
  | succ fuel ih =>
    obtain ⟨fuel', rfl⟩ : ∃ k, fuel' = k + 1 := ⟨fuel' - 1, by omega⟩
    simp only [nu_crc_loop] at hr ⊢
    split at hr
    · rename_i hnil
      rwa [if_pos hnil]
    · rename_i hne
      rw [if_neg hne]
      exact ih (by omega) hr

/-- **The loop ends** when the copies get on: every pass takes a byte, or brings the copy that
does nearer. -/
theorem nu_crc_loop_ends {b : Build} (hb : b.GetsOn) {s : State}
    (h : s.eng.Loaded poly refin refout r) (addr : ℕ) (rest : List (BitVec 8)) :
    ∃ fuel s', nu_crc_loop b fuel s addr rest = some s' := by
  -- on the bytes to go, and for each number of them on the copies up to one that gets on
  induction hlen : rest.length using Nat.strong_induction_on generalizing s addr rest r with
  | _ len ihl =>
    rcases eq_or_ne rest [] with rfl | hne
    · exact ⟨0, s, rfl⟩
    have hdist : b.usePdma = true → ∃ d, 0 < b.mempush (s.copies + d) := fun hp => by
      obtain ⟨m, hm, hpos⟩ := hb hp s.copies
      exact ⟨m - s.copies, by rwa [Nat.add_sub_cancel' hm]⟩
    -- a pass that takes some bytes is followed by a shorter loop
    have hshort : ∀ {s : State} {r : BitVec w}, s.eng.Loaded poly refin refout r → ∀ addr,
        0 < (nu_crc_pass b s addr rest).2 → ∃ fuel s', nu_crc_loop b fuel s addr rest = some s' := by
      intro s r h addr hpos
      obtain ⟨fuel, s', hs'⟩ := ihl (rest.drop (nu_crc_pass b s addr rest).2).length
        (by have := List.length_pos_of_ne_nil hne; rw [List.length_drop]; omega)
        (nu_crc_pass_spec b h addr hne).1 (addr + (nu_crc_pass b s addr rest).2) _ rfl
      exact ⟨fuel + 1, s', by simpa [nu_crc_loop, hne] using hs'⟩
    by_cases hp : b.usePdma = true
    · obtain ⟨d, hd⟩ := hdist hp
      clear hdist
      induction d generalizing s addr r with
      | zero =>
        refine hshort h addr ?_
        rcases (nu_crc_pass_spec b h addr hne).2 with hpos | ⟨-, hz, -⟩
        · exact hpos
        · rw [Nat.add_zero] at hd
          omega
      | succ d ih =>
        obtain ⟨hl, hpos | ⟨-, -, hc⟩⟩ := nu_crc_pass_spec b h addr hne
        · exact hshort h addr hpos
        · obtain ⟨fuel, s', hs'⟩ : ∃ fuel s', nu_crc_loop b fuel (nu_crc_pass b s addr rest).1
              (addr + (nu_crc_pass b s addr rest).2)
              (rest.drop (nu_crc_pass b s addr rest).2) = some s' := by
            by_cases hn : (nu_crc_pass b s addr rest).2 = 0
            · rw [hn, List.drop_zero]
              exact ih hl _ (by rw [hc, show s.copies + 1 + d = s.copies + (d + 1) by omega]; exact hd)
            · exact ihl _ (by have := List.length_pos_of_ne_nil hne; rw [List.length_drop]; omega)
                hl _ _ rfl
          exact ⟨fuel + 1, s', by simpa [nu_crc_loop, hne] using hs'⟩
    · refine hshort h addr ?_
      rcases (nu_crc_pass_spec b h addr hne).2 with hpos | ⟨hp', -⟩
      · exact hpos
      · exact absurd hp' hp

/-- A copy that never gets on leaves the loop running for ever. -/
theorem nu_crc_loop_stuck {b : Build} (hp : b.usePdma = true) {s : State}
    (hz : ∀ m ≥ s.copies, b.mempush m = 0) {addr : ℕ} (ha : addr % 4 = 0) {rest : List (BitVec 8)}
    (h4 : 4 ≤ rest.length) (fuel : ℕ) : nu_crc_loop b fuel s addr rest = none := by
  have hne : rest ≠ [] := by
    rintro rfl
    simp at h4
  induction fuel generalizing s with
  | zero => simp [nu_crc_loop, hne]
  | succ fuel ih =>
    have hbyte : ¬ (addr % 4 ≠ 0 ∨ rest.length < 4) := by omega
    have hn : (nu_crc_pass b s addr rest).2 = 0 := by
      simp only [nu_crc_pass, if_neg hbyte, hp, if_true, hz s.copies le_rfl, Nat.zero_min]
    have hc : (nu_crc_pass b s addr rest).1.copies = s.copies + 1 := by
      simp only [nu_crc_pass, if_neg hbyte, hp, if_true]
    simp only [nu_crc_loop, if_neg hne, hn, Nat.add_zero, List.drop_zero]
    exact ih fun m hm => hz m (by omega)

/-- A value of no more than `k` bits is not changed by a mask of them. -/
theorem setWidth_and_mask {k : ℕ} (hw : w ≤ k) (x : BitVec w) :
    x.setWidth 32 &&& BitVec.ofNat 32 (2 ^ k - 1) = x.setWidth 32 := by
  refine BitVec.eq_of_getLsbD_eq fun i hi => ?_
  rw [BitVec.getLsbD_and, BitVec.getLsbD_ofNat, Nat.testBit_two_pow_sub_one,
    BitVec.getLsbD_setWidth]
  by_cases h : i < k
  · simp [hi, h]
  · simp [BitVec.getLsbD_of_ge x i (by omega)]

/-- **The checksum read** is the remainder as the output reflection shows it. -/
theorem Engine.Loaded.getChecksum {e : Engine} (h : e.Loaded poly refin refout r) :
    CRC_GetChecksum e = (output refout r).setWidth 32 := by
  have hread : e.readCHECKSUM = (output refout r).setWidth 32 := by
    have hw := h.width
    subst hw
    simp only [Engine.readCHECKSUM, readWord, h.chksrev, h.chksfmt, h.rem,
      setWidth_setWidth h.atMost, Bool.false_eq_true, if_false]
  have hw := h.width
  unfold CRC_GetChecksum
  rw [hread]
  rcases h.mode with hm | hm | hm
  · rw [modeWidth, if_pos hm] at hw
    rw [hm, if_neg (by decide), if_neg (by decide), if_pos rfl]
    exact setWidth_and_mask (k := 8) hw.ge _
  · rw [modeWidth, if_neg (by rw [hm]; decide), if_neg (by rw [hm]; decide)] at hw
    rw [hm, if_pos (Or.inr rfl)]
    exact setWidth_and_mask (k := 16) hw.ge _
  · rw [hm, if_neg (by decide), if_pos rfl]

end

/-! ### Opening the engine -/

/-- A write to `CTL` that adds the initialisation bit loads the seed. -/
theorem Engine.writeCTL_init (e : Engine) {v : BitVec 32} (h : v.getLsbD 1 = false) :
    e.writeCTL (v ||| CTL_CHKSINIT_Msk) =
      { e with CTL := v, rem := (e.SEED.setWidth (modeWidth v)).setWidth 32 } := by
  have hset : (v ||| CTL_CHKSINIT_Msk).getLsbD 1 = true := by
    rw [BitVec.getLsbD_or, show CTL_CHKSINIT_Msk.getLsbD 1 = true by decide, Bool.or_true]
  have hv : (v ||| CTL_CHKSINIT_Msk) &&& ~~~CTL_CHKSINIT_Msk = v := by
    refine BitVec.eq_of_getLsbD_eq fun i hi => ?_
    have hbit : CTL_CHKSINIT_Msk.getLsbD i = decide (i = 1) := by
      have : ∀ i < 32, CTL_CHKSINIT_Msk.getLsbD i = decide (i = 1) := by decide
      exact this i hi
    rw [BitVec.getLsbD_and, BitVec.getLsbD_or, BitVec.getLsbD_not, hbit]
    by_cases h1 : i = 1
    · subst h1
      rw [h]
      decide
    · simp [h1, hi]
  have hw : modeWidth (v ||| CTL_CHKSINIT_Msk) = modeWidth v := by
    rw [modeWidth, modeWidth, BitVec.and_or_distrib_right,
      show CTL_CHKSINIT_Msk &&& CTL_CRCMODE_Msk = 0 by decide]
    rw [show v &&& CTL_CRCMODE_Msk ||| 0 = v &&& CTL_CRCMODE_Msk from BitVec.or_zero]
  rw [writeCTL, if_pos hset, hv, hw]

/-- What `CRC_Open` leaves, when the mode and the attributes do not ask for an initialisation of
their own. -/
theorem CRC_Open_eq (e : Engine) {mode attr len : BitVec 32}
    (h : (openMode mode ||| attr ||| len ||| CTL_CRCEN_Msk).getLsbD 1 = false)
    (seed : BitVec 32) :
    CRC_Open e mode attr seed len =
      { CTL := openMode mode ||| attr ||| len ||| CTL_CRCEN_Msk
        SEED := seed
        POLYNOMIAL := openPoly mode e.POLYNOMIAL
        rem := (seed.setWidth
          (modeWidth (openMode mode ||| attr ||| len ||| CTL_CRCEN_Msk))).setWidth 32 } := by
  unfold CRC_Open
  dsimp only
  rw [Engine.writeCTL_clear _ h, Engine.writeCTL_init _ h]

/-- An engine that has just been opened, by the value of its control register. -/
theorem CRC_Open_intro (e : Engine) {mode attr len : BitVec 32} {w : ℕ} {refin refout : Bool}
    (h1 : (openMode mode ||| attr ||| len ||| CTL_CRCEN_Msk).getLsbD 1 = false)
    (hm : (openMode mode ||| attr ||| len ||| CTL_CRCEN_Msk) &&& CTL_CRCMODE_Msk = CRC_8 ∨
      (openMode mode ||| attr ||| len ||| CTL_CRCEN_Msk) &&& CTL_CRCMODE_Msk = CRC_16 ∨
      (openMode mode ||| attr ||| len ||| CTL_CRCEN_Msk) &&& CTL_CRCMODE_Msk = CRC_32)
    (hw : modeWidth (openMode mode ||| attr ||| len ||| CTL_CRCEN_Msk) = w)
    (h24 : (openMode mode ||| attr ||| len ||| CTL_CRCEN_Msk).getLsbD 24 = refin)
    (h25 : (openMode mode ||| attr ||| len ||| CTL_CRCEN_Msk).getLsbD 25 = refout)
    (h26 : (openMode mode ||| attr ||| len ||| CTL_CRCEN_Msk).getLsbD 26 = false)
    (h27 : (openMode mode ||| attr ||| len ||| CTL_CRCEN_Msk).getLsbD 27 = false)
    (seed : BitVec 32) :
    (CRC_Open e mode attr seed len).Loaded ((openPoly mode e.POLYNOMIAL).setWidth w) refin refout
      (seed.setWidth w) := by
  rw [CRC_Open_eq e h1]
  exact
    { mode := hm, width := hw, gen := rfl, datrev := h24, datfmt := h26, chksrev := h25
      chksfmt := h27, chksinit := h1, rem := by rw [hw] }

/-- `CRC_Open` loads the seed for the polynomial of a mode. -/
theorem CRC_Open_loaded (e : Engine) {c : hwcrypto_crc_cfg} (hc : Supported c) :
    ∃ mode, opMode c.poly = some mode ∧ ∀ seed,
      (CRC_Open e mode (crcAttr c.refin c.refout) seed CRC_CPU_WDATA_8).Loaded
        (c.poly.setWidth (polyWidth c.poly)) c.refin c.refout
        (seed.setWidth (polyWidth c.poly)) := by
  generalize c.refin = refin
  generalize c.refout = refout
  rcases hc with h | h | h | h <;> rw [h]
  · refine ⟨CRC_32, by decide, fun seed => ?_⟩
    cases refin <;> cases refout <;>
      exact CRC_Open_intro e (by decide) (by decide) (by decide) (by decide) (by decide) (by decide)
        (by decide) seed
  · refine ⟨CRC_CCITT, by decide, fun seed => ?_⟩
    cases refin <;> cases refout <;>
      exact CRC_Open_intro e (by decide) (by decide) (by decide) (by decide) (by decide) (by decide)
        (by decide) seed
  · refine ⟨CRC_16, by decide, fun seed => ?_⟩
    cases refin <;> cases refout <;>
      exact CRC_Open_intro e (by decide) (by decide) (by decide) (by decide) (by decide) (by decide)
        (by decide) seed
  · refine ⟨CRC_8, by decide, fun seed => ?_⟩
    cases refin <;> cases refout <;>
      exact CRC_Open_intro e (by decide) (by decide) (by decide) (by decide) (by decide) (by decide)
        (by decide) seed

/-! ### Updates -/

/-- The configuration after an update that was right: its last value is the checksum without the
final exclusive or. -/
def hwcrypto_crc_cfg.next (c : hwcrypto_crc_cfg) (data : List (BitVec 8)) : hwcrypto_crc_cfg :=
  { c with last_val := (check (c.poly.setWidth (polyWidth c.poly))
      (c.last_val.setWidth (polyWidth c.poly)) c.refin c.refout data).setWidth 32 }

@[simp] theorem next_poly (c : hwcrypto_crc_cfg) (d : List (BitVec 8)) :
    (c.next d).poly = c.poly := rfl
@[simp] theorem next_refin (c : hwcrypto_crc_cfg) (d : List (BitVec 8)) :
    (c.next d).refin = c.refin := rfl
@[simp] theorem next_refout (c : hwcrypto_crc_cfg) (d : List (BitVec 8)) :
    (c.next d).refout = c.refout := rfl
@[simp] theorem next_xorout (c : hwcrypto_crc_cfg) (d : List (BitVec 8)) :
    (c.next d).xorout = c.xorout := rfl

theorem polyWidth_le (poly : BitVec 32) : polyWidth poly ≤ 32 := by
  unfold polyWidth
  split
  · exact le_rfl
  · split <;> omega

/-- The seed an update starts from is the checksum the one before it ended with. -/
theorem next_last_val (c : hwcrypto_crc_cfg) (d : List (BitVec 8)) :
    (c.next d).last_val.setWidth (polyWidth c.poly) =
      check (c.poly.setWidth (polyWidth c.poly)) (c.last_val.setWidth (polyWidth c.poly)) c.refin
        c.refout d :=
  setWidth_setWidth (polyWidth_le c.poly) _

/-- **One update** that comes back has moved the remainder on from the last value, and returns
it as the output reflection shows it. -/
theorem nu_crc_update_spec (b : Build) {c : hwcrypto_crc_cfg} (hc : Supported c) {fuel : ℕ}
    {s s' : State} {c' : hwcrypto_crc_cfg} {v : BitVec 32} {addr : ℕ} {data : List (BitVec 8)}
    (h : nu_crc_update b fuel s c addr data = some (s', c', v)) :
    c' = c.next data ∧ v = reference c data := by
  obtain ⟨mode, hm, hl⟩ := CRC_Open_loaded s.eng hc
  simp only [nu_crc_update, hm, nu_crc_run, Option.map_map, Option.map_eq_some_iff] at h
  obtain ⟨s1, hloop, heq⟩ := h
  have hcheck := (nu_crc_loop_spec b (hl c.last_val) hloop).getChecksum
  simp only [Function.comp_apply, hcheck, Prod.mk.injEq] at heq
  obtain ⟨-, hc', hv⟩ := heq
  exact ⟨hc'.symm, by rw [← hv, reference, check]; simp⟩

/-- An update comes back when the copies get on. -/
theorem nu_crc_update_ends {b : Build} (hb : b.GetsOn) {c : hwcrypto_crc_cfg} (hc : Supported c)
    (s : State) (addr : ℕ) (data : List (BitVec 8)) :
    ∃ fuel s', ∀ fuel' ≥ fuel,
      nu_crc_update b fuel' s c addr data = some (s', c.next data, reference c data) := by
  obtain ⟨mode, hm, hl⟩ := CRC_Open_loaded s.eng hc
  obtain ⟨fuel, s', hs'⟩ := nu_crc_loop_ends hb (s := { s with
    eng := CRC_Open s.eng mode (crcAttr c.refin c.refout) c.last_val CRC_CPU_WDATA_8 })
    (hl c.last_val) addr data
  refine ⟨fuel, s', fun fuel' hf => ?_⟩
  obtain ⟨r, hr⟩ : ∃ r, nu_crc_update b fuel' s c addr data = some (s', r) := by
    simp only [nu_crc_update, hm, nu_crc_run, nu_crc_loop_mono b hf hs', Option.map_some]
    exact ⟨_, rfl⟩
  obtain ⟨h1, h2⟩ := nu_crc_update_spec b hc hr
  rw [hr, ← h1, ← h2]

/-- Without reflected output the last value is the remainder: the reference goes on from it. -/
theorem reference_append {c : hwcrypto_crc_cfg} (hr : c.refout = false) (a d : List (BitVec 8)) :
    reference (c.next a) d = reference c (a ++ d) := by
  simp only [reference, next_poly, next_refin, next_refout, next_xorout, next_last_val, check, hr,
    output, Bool.false_eq_true, if_false, feed_append]

/-- **A stream without reflected output** is checked right however it is cut. -/
theorem updateAll_spec {b : Build} (hb : b.GetsOn) {c : hwcrypto_crc_cfg} (hc : Supported c)
    (hr : c.refout = false) (s : State) {chunks : List (ℕ × List (BitVec 8))} (hne : chunks ≠ [])
    (v : BitVec 32) :
    ∃ fuel, ∀ fuel' ≥ fuel, ∃ s' c', updateAll b fuel' s c v chunks =
      some (s', c', reference c (chunks.map Prod.snd).flatten) := by
  induction chunks generalizing c s v with
  | nil => exact absurd rfl hne
  | cons chunk chunks ih =>
    obtain ⟨addr, data⟩ := chunk
    obtain ⟨fuel, s1, hu⟩ := nu_crc_update_ends hb hc s addr data
    rw [List.map_cons, List.flatten_cons]
    rcases eq_or_ne chunks [] with rfl | hne'
    · refine ⟨fuel, fun fuel' hf => ⟨s1, c.next data, ?_⟩⟩
      simp only [updateAll, hu fuel' hf, List.map_nil, List.flatten_nil, List.append_nil]
    · obtain ⟨fuel2, h2⟩ := ih (c := c.next data) hc hr s1 hne' (reference c data)
      refine ⟨max fuel fuel2, fun fuel' hf => ?_⟩
      obtain ⟨s', c', h3⟩ := h2 fuel' (le_trans (le_max_right _ _) hf)
      refine ⟨s', c', ?_⟩
      simp only [updateAll, hu fuel' (le_trans (le_max_left _ _) hf), h3, reference_append hr]

/-! ### When a stream is checked right -/

/-- No generator of the driver is its own reflection. -/
theorem poly_reverse_ne {c : hwcrypto_crc_cfg} (hc : Supported c) :
    (c.poly.setWidth (polyWidth c.poly)).reverse ≠ c.poly.setWidth (polyWidth c.poly) := by
  rcases hc with h | h | h | h <;> rw [h] <;> decide +kernel

/-- With reflected output some byte, followed by nothing, is checked wrong: the checksum that is
read goes back in reflected, and comes out reflected once more. -/
theorem not_streamOk_of_refout {b : Build} {c : hwcrypto_crc_cfg} (hc : Supported c)
    (hr : c.refout = true) : ¬ StreamOk b c := by
  intro hok
  obtain ⟨x, hx⟩ := exists_feed_ne_reverse (poly_reverse_ne hc) c.refin
    (c.last_val.setWidth (polyWidth c.poly))
  obtain ⟨fuel, s', c', h⟩ := hok ⟨⟨0, 0, 0, 0⟩, 0⟩ [(0, [x]), (0, [])] (by simp)
  have hval : reference (c.next [x]) [] = reference c [x] := by
    simp only [updateAll] at h
    split at h
    · cases h
    · rename_i s1 c1 v1 h1
      obtain ⟨rfl, -⟩ := nu_crc_update_spec b hc h1
      split at h
      · cases h
      · rename_i s2 c2 v2 h2
        obtain ⟨-, rfl⟩ := nu_crc_update_spec b (c := c.next [x]) hc h2
        simp only [Option.some.injEq, Prod.mk.injEq] at h
        simpa using h.2.2
  simp only [reference, next_poly, next_refin, next_refout, next_xorout, next_last_val, check, hr,
    output, if_true, feed_nil, BitVec.reverse_reverse_eq] at hval
  have h32 := (BitVec.xor_left_inj c.xorout).1 hval
  have := congrArg (BitVec.setWidth (polyWidth c.poly)) h32
  rw [setWidth_setWidth (polyWidth_le _), setWidth_setWidth (polyWidth_le _)] at this
  exact hx this.symm

/-- A build whose copies stop getting on never comes back from a word. -/
theorem getsOn_of_streamOk {b : Build} {c : hwcrypto_crc_cfg} (hc : Supported c)
    (hok : StreamOk b c) : b.GetsOn := by
  intro hp n
  by_contra hno
  push Not at hno
  obtain ⟨fuel, s', c', h⟩ := hok ⟨⟨0, 0, 0, 0⟩, n⟩ [(0, [0, 0, 0, 0])] (by simp)
  obtain ⟨mode, hm, -⟩ := CRC_Open_loaded ⟨0, 0, 0, 0⟩ hc
  have hstuck := @nu_crc_loop_stuck b hp ⟨CRC_Open ⟨0, 0, 0, 0⟩ mode (crcAttr c.refin c.refout)
    c.last_val CRC_CPU_WDATA_8, n⟩ (fun m hm => by have := hno m hm; omega) 0 rfl
    [0, 0, 0, 0] (by simp) fuel
  simp only [updateAll, nu_crc_update, hm, nu_crc_run, hstuck, Option.map_none] at h
  cases h

/-- A build without copies. -/
def Build.plain : Build := { usePdma := false, mempush := fun _ => 0 }

/-- The check of 32 bits with reflected input, seeded with ones. -/
def crc32Refin : hwcrypto_crc_cfg :=
  { last_val := 0xFFFFFFFF, poly := CRC_32_POLY, width := 32, xorout := 0, flags := 1 }

/-- `HWCRYPTO_CRC_CCITT_CFG`, whose input and output are reflected. -/
def ccittCfg : hwcrypto_crc_cfg :=
  { last_val := 0, poly := CRC_CCITT_POLY, width := 16, xorout := 0, flags := 3 }

end Crc
