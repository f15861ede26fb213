/-
Whether the random numbers are fresh.

A word is fresh if it comes from the generation that was started for it, which the status
register has reported valid since.

* **`TRNG_GenWord_fresh_iff`** — the states in which the next word is fresh, or none is given;
* **`bignumLoop_bytes`** — a big number is the bytes of its words, each once and in order;
* **`fresh_iff`** — the runs in which every number is fresh, and no word is used twice;
* **`stale_after_open`** — the first word after `TRNG_Open` is not.
-/
import Mathlib.Data.List.Nodup
import Mathlib.Data.Nat.Digits.Defs
import NuMaker.Lib.Guarded
import NuMaker.Trng.Driver

namespace Trng

/-- The word was generated for this read, and reported valid before it. -/
def Use.Fresh (u : Use) : Prop := u.reported = some u.gen ∧ u.gen = u.started

instance (u : Use) : Decidable u.Fresh := inferInstanceAs (Decidable (_ ∧ _))

variable (env : Env)

/-! ### Starting and waiting -/

/-- The registers when a generation has been started by setting START. -/
def started (r : Regs) : Regs := r.writeCTL env (r.CTL ||| TRNG_CTL_START_Msk)

theorem or_start_and (v : BitVec 32) :
    (v ||| TRNG_CTL_START_Msk) &&& TRNG_CTL_START_Msk = TRNG_CTL_START_Msk := by
  ext i hi
  simp only [BitVec.getElem_and, BitVec.getElem_or]
  cases v[i] <;> cases TRNG_CTL_START_Msk[i] <;> rfl

section Started

variable (r : Regs)

theorem started_eq : started env r =
    { r with
      CTL := (r.CTL ||| TRNG_CTL_START_Msk) &&& ~~~TRNG_CTL_START_Msk
      started := r.started + 1
      pending := env.delay (r.started + 1)
      reported := none
      data_le := Nat.le_succ_of_le r.data_le } := by
  have hstart : (r.CTL ||| TRNG_CTL_START_Msk) &&& TRNG_CTL_START_Msk ≠ 0 := by
    rw [or_start_and]; decide
  rw [started, Regs.writeCTL, if_pos hstart]

@[simp] theorem started_started : (started env r).started = r.started + 1 := by rw [started_eq]
@[simp] theorem started_pending : (started env r).pending = env.delay (r.started + 1) := by
  rw [started_eq]
@[simp] theorem started_reported : (started env r).reported = none := by rw [started_eq]
@[simp] theorem started_DVIF : (started env r).DVIF = r.DVIF := by rw [started_eq]
@[simp] theorem started_data : (started env r).data = r.data := by rw [started_eq]
@[simp] theorem started_uses : (started env r).uses = r.uses := by rw [started_eq]

/-- START is not among the bits that stay. -/
theorem started_DVIEN :
    (started env r).CTL &&& TRNG_STS_DVIF_Msk = r.CTL &&& TRNG_CTL_DVIEN_Msk := by
  have hmask : ~~~TRNG_CTL_START_Msk &&& TRNG_STS_DVIF_Msk = TRNG_CTL_DVIEN_Msk := by decide
  have hother : TRNG_CTL_START_Msk &&& TRNG_CTL_DVIEN_Msk = 0 := by decide
  rw [started_eq]
  show (r.CTL ||| TRNG_CTL_START_Msk) &&& ~~~TRNG_CTL_START_Msk &&& TRNG_STS_DVIF_Msk = _
  rw [BitVec.and_assoc, hmask, BitVec.and_or_distrib_right, hother]
  exact BitVec.or_zero

end Started

/-- What a read does not change. -/
structure Kept (r s : Regs) : Prop where
  started : s.started = r.started
  uses : s.uses = r.uses
  CTL : s.CTL = r.CTL

theorem Kept.rfl {r : Regs} : Kept r r := ⟨Eq.refl _, Eq.refl _, Eq.refl _⟩

theorem Kept.trans {r s t : Regs} (h : Kept r s) (h' : Kept s t) : Kept r t :=
  ⟨h'.started.trans h.started, h'.uses.trans h.uses, h'.CTL.trans h.CTL⟩

theorem tick_kept (r : Regs) : Kept r r.tick := by
  rw [Regs.tick]
  split <;> exact ⟨rfl, rfl, rfl⟩

theorem readDVIF_kept (r : Regs) : Kept r r.readDVIF.2 :=
  ⟨(tick_kept r).started, (tick_kept r).uses, (tick_kept r).CTL⟩

theorem tick_pending_zero {r : Regs} (h : r.pending = some 0) :
    r.tick.DVIF = true ∧ r.tick.data = r.started := by
  rw [Regs.tick, h]
  exact ⟨rfl, rfl⟩

theorem tick_pending_ne {r : Regs} (h : r.pending ≠ some 0) :
    r.tick.DVIF = r.DVIF ∧ r.tick.data = r.data ∧ r.tick.pending = r.pending.map (· - 1) := by
  cases hp : r.pending with
  | none => rw [Regs.tick, hp]; exact ⟨rfl, rfl, hp⟩
  | some d =>
    cases d with
    | zero => exact absurd hp h
    | succ d => rw [Regs.tick, hp]; exact ⟨rfl, rfl, rfl⟩

/-- While nothing is there, a read shows DVIF when the generation is through, and only then. -/
theorem readDVIF_of_clear {r : Regs} (h : r.DVIF = false) :
    r.readDVIF.1 = true ↔ r.pending = some 0 := by
  by_cases hp : r.pending = some 0
  · exact iff_of_true (tick_pending_zero hp).1 hp
  · refine iff_of_false ?_ hp
    show ¬ r.tick.DVIF = true
    rw [(tick_pending_ne hp).1, h]
    exact Bool.false_ne_true

/-- Nothing is there but what has been started, after the reads since. -/
structure Waiting (r s : Regs) : Prop where
  kept : Kept r s
  clear : s.DVIF = false

/-- The generation started last is through, and has been reported. -/
structure Reported (r s : Regs) : Prop where
  kept : Kept r s
  data : s.data = r.started
  reported : s.reported = some r.started

theorem readDVIF_waiting {r s : Regs} (h : Waiting r s) :
    if s.readDVIF.1 then Reported r s.readDVIF.2 else Waiting r s.readDVIF.2 := by
  have hkept := h.kept.trans (readDVIF_kept s)
  by_cases hp : s.pending = some 0
  · obtain ⟨hDVIF, hdata⟩ := tick_pending_zero hp
    have hdata' : s.tick.data = r.started := hdata.trans h.kept.started
    rw [if_pos ((readDVIF_of_clear h.clear).2 hp)]
    refine ⟨hkept, hdata', ?_⟩
    show (if s.tick.DVIF = true then some s.tick.data else s.tick.reported) = _
    rw [if_pos hDVIF, hdata']
  · rw [if_neg (mt (readDVIF_of_clear h.clear).1 hp)]
    exact ⟨hkept, (tick_pending_ne hp).1.trans h.clear⟩

/-- Waiting with DVIF clear: it is seen if the generation is through in time. -/
theorem wait_clear {n : ℕ} {r : Regs} (h : r.DVIF = false) :
    (if (poll Regs.readDVIF n r).1 then Reported r (poll Regs.readDVIF n r).2
      else Waiting r (poll Regs.readDVIF n r).2) ∧
    ((poll Regs.readDVIF n r).1 = true ↔ ∃ d, r.pending = some d ∧ d < n) := by
  have hr : Waiting r r := ⟨Kept.rfl, h⟩
  refine ⟨poll_rule (fun s hs => readDVIF_waiting hs) hr, ?_⟩
  refine poll_seen_iff Regs.pending (fun s hs => readDVIF_of_clear hs.clear) ?_ hr
  intro s hs hseen
  have hstep := readDVIF_waiting hs
  rw [hseen] at hstep
  have hp : s.pending ≠ some 0 := fun hp => by
    rw [(readDVIF_of_clear hs.clear).2 hp] at hseen
    exact absurd hseen (by decide)
  exact ⟨hstep, (tick_pending_ne hp).2.2⟩

/-- Waiting with DVIF set: the first read shows it, with what is there by then. -/
theorem wait_set {n : ℕ} (hn : n ≠ 0) {r : Regs} (h : r.DVIF = true) :
    ∃ s g, poll Regs.readDVIF n r = (true, s) ∧ Kept r s ∧ s.data = g ∧ s.reported = some g ∧
      g = if r.pending = some 0 then r.started else r.data := by
  have htick : r.tick.DVIF = true ∧
      r.tick.data = if r.pending = some 0 then r.started else r.data := by
    by_cases hp : r.pending = some 0
    · rw [if_pos hp]
      exact tick_pending_zero hp
    · rw [if_neg hp]
      exact ⟨(tick_pending_ne hp).1.trans h, (tick_pending_ne hp).2.1⟩
  refine ⟨_, _, poll_of_seen hn htick.1, readDVIF_kept r, htick.2, ?_, rfl⟩
  show (if r.tick.DVIF = true then some r.tick.data else r.tick.reported) = _
  rw [if_pos htick.1, htick.2]

/-! ### A word -/

section GenWord

/-- The wait of `TRNG_GenWord`. -/
def waited (r : Regs) : Bool × Regs := poll Regs.readDVIF env.SystemCoreClock (started env r)

theorem TRNG_GenWord_eq (r : Regs) : TRNG_GenWord env r =
    if (waited env r).1 then
      ((0, ((waited env r).2.readDATA env).1), ((waited env r).2.readDATA env).2)
    else ((-1, 0), (waited env r).2) := rfl

variable {r : Regs}

theorem TRNG_GenWord_given {s : Regs} {g : ℕ}
    (h : waited env r = (true, s))
    (hkept : Kept (started env r) s) (hdata : s.data = g) (hreported : s.reported = some g) :
    (TRNG_GenWord env r).1 = (0, env.word g) ∧
      (TRNG_GenWord env r).2.uses = r.uses ++ [⟨r.started + 1, some g, g⟩] ∧
      (TRNG_GenWord env r).2.started = r.started + 1 := by
  have heq : TRNG_GenWord env r = ((0, (s.readDATA env).1), (s.readDATA env).2) := by
    rw [TRNG_GenWord_eq, h]
    rfl
  subst hdata
  rw [heq]
  refine ⟨rfl, ?_, hkept.started.trans (started_started env r)⟩
  show s.uses ++ [⟨s.started, s.reported, s.data⟩] = _
  rw [hkept.uses, hkept.started, hreported, started_uses, started_started]

theorem TRNG_GenWord_expired {s : Regs}
    (h : waited env r = (false, s))
    (hkept : Kept (started env r) s) :
    (TRNG_GenWord env r).1 = (-1, 0) ∧ (TRNG_GenWord env r).2.uses = r.uses ∧
      (TRNG_GenWord env r).2.started = r.started + 1 := by
  have heq : TRNG_GenWord env r = ((-1, 0), s) := by
    rw [TRNG_GenWord_eq, h]
    rfl
  rw [heq]
  exact ⟨rfl, hkept.uses.trans (started_uses env r), hkept.started.trans (started_started env r)⟩

/-- With no time to wait there is no word. -/
theorem TRNG_GenWord_of_clock (h : env.SystemCoreClock = 0) :
    (TRNG_GenWord env r).1 = (-1, 0) ∧ (TRNG_GenWord env r).2.uses = r.uses ∧
      (TRNG_GenWord env r).2.started = r.started + 1 :=
  TRNG_GenWord_expired env (by rw [waited, h, poll_zero]) Kept.rfl

/-- With nothing left in `DATA0`, the word is the one that has been started, if it is in time. -/
theorem TRNG_GenWord_of_clear (h : r.DVIF = false) :
    (if ∃ d, env.delay (r.started + 1) = some d ∧ d < env.SystemCoreClock then
      (TRNG_GenWord env r).1 = (0, env.word (r.started + 1)) ∧
        (TRNG_GenWord env r).2.uses =
          r.uses ++ [⟨r.started + 1, some (r.started + 1), r.started + 1⟩]
    else (TRNG_GenWord env r).1 = (-1, 0) ∧ (TRNG_GenWord env r).2.uses = r.uses) ∧
      (TRNG_GenWord env r).2.started = r.started + 1 := by
  obtain ⟨hres, hseen⟩ := wait_clear (n := env.SystemCoreClock) ((started_DVIF env r).trans h)
  rw [started_pending] at hseen
  rw [← waited] at hres hseen
  rcases hp : waited env r with ⟨b, s⟩
  rw [hp] at hres hseen
  cases b with
  | true =>
    have hs : Reported (started env r) s := hres
    obtain ⟨hout, huses, hstarted⟩ := TRNG_GenWord_given env hp hs.kept
      (hs.data.trans (started_started env r)) (by rw [hs.reported, started_started])
    rw [if_pos (hseen.1 rfl)]
    exact ⟨⟨hout, huses⟩, hstarted⟩
  | false =>
    have hs : Waiting (started env r) s := hres
    obtain ⟨hout, huses, hstarted⟩ := TRNG_GenWord_expired env hp hs.kept
    rw [if_neg fun h => Bool.false_ne_true (hseen.2 h)]
    exact ⟨⟨hout, huses⟩, hstarted⟩

/-- With a word left in `DATA0`, that is the word, unless the new one is there at once. -/
theorem TRNG_GenWord_of_set (hclock : env.SystemCoreClock ≠ 0) (h : r.DVIF = true) :
    ∃ g, (g = if env.delay (r.started + 1) = some 0 then r.started + 1 else r.data) ∧
      (TRNG_GenWord env r).1 = (0, env.word g) ∧
      (TRNG_GenWord env r).2.uses = r.uses ++ [⟨r.started + 1, some g, g⟩] ∧
      (TRNG_GenWord env r).2.started = r.started + 1 := by
  obtain ⟨s, g, hp, hkept, hdata, hreported, hg⟩ :=
    wait_set hclock ((started_DVIF env r).trans h)
  rw [started_pending, started_started, started_data] at hg
  exact ⟨g, hg, TRNG_GenWord_given env hp hkept hdata hreported⟩

end GenWord

/-! ### A big number -/

section Bignum

variable {r : Regs}

theorem readCTL_kept {r s : Regs} (h : Kept r s) (mask : BitVec 32) :
    (s.readCTL mask).1 = decide (r.CTL &&& mask ≠ 0) ∧ Kept r (s.readCTL mask).2 := by
  have hkept := h.trans (tick_kept s)
  refine ⟨?_, hkept⟩
  show decide (s.tick.CTL &&& mask ≠ 0) = _
  rw [hkept.CTL]

/-- The wait of `TRNG_GenBignum` and `TRNG_GenBignumHex`. -/
def bignumWaited (r : Regs) : Bool × Regs :=
  poll (Regs.readCTL · TRNG_STS_DVIF_Msk) (env.HCLKFreq / 100) (started env r)

theorem bignumWord_eq (r : Regs) : bignumWord env r =
    if (bignumWaited env r).1 then
      (some ((bignumWaited env r).2.readDATA env).1, ((bignumWaited env r).2.readDATA env).2)
    else (none, (bignumWaited env r).2) := rfl

/-- The wait ends at once if the interrupt is enabled, and expires otherwise. -/
theorem bignumWaited_spec :
    ((bignumWaited env r).1 = true ↔ r.CTL &&& TRNG_CTL_DVIEN_Msk ≠ 0 ∧ env.HCLKFreq / 100 ≠ 0) ∧
      Kept (started env r) (bignumWaited env r).2 ∧
      (bignumWaited env r).2.reported = none := by
  have hread : ∀ s, Kept (started env r) s ∧ s.reported = none →
      (s.readCTL TRNG_STS_DVIF_Msk).1 = decide (r.CTL &&& TRNG_CTL_DVIEN_Msk ≠ 0) ∧
      (Kept (started env r) (s.readCTL TRNG_STS_DVIF_Msk).2 ∧
        (s.readCTL TRNG_STS_DVIF_Msk).2.reported = none) := by
    intro s hs
    obtain ⟨hflag, hkept⟩ := readCTL_kept hs.1 TRNG_STS_DVIF_Msk
    rw [started_DVIEN] at hflag
    refine ⟨hflag, hkept, ?_⟩
    show s.tick.reported = none
    rw [Regs.tick]
    split <;> exact hs.2
  have hstart : Kept (started env r) (started env r) ∧ (started env r).reported = none :=
    ⟨Kept.rfl, started_reported env r⟩
  by_cases hset : r.CTL &&& TRNG_CTL_DVIEN_Msk ≠ 0
  · by_cases hn : env.HCLKFreq / 100 = 0
    · rw [bignumWaited, hn, poll_zero]
      exact ⟨iff_of_false Bool.false_ne_true fun h => h.2 rfl, hstart⟩
    · have hseen := (hread _ hstart).1
      rw [decide_eq_true hset] at hseen
      have hpoll : bignumWaited env r =
          (true, ((started env r).readCTL TRNG_STS_DVIF_Msk).2) := poll_of_seen hn hseen
      rw [hpoll]
      exact ⟨iff_of_true rfl ⟨hset, hn⟩, (hread _ hstart).2⟩
  · have hexpired := poll_expired (n := env.HCLKFreq / 100) (fun s hs =>
      ⟨(hread s hs).1.trans (decide_eq_false hset), (hread s hs).2⟩) hstart
    exact ⟨iff_of_false (by rw [bignumWaited, hexpired.1]; exact Bool.false_ne_true)
      fun h => hset h.1, hexpired.2⟩

/-- The status register is never read: what is used has not been reported. -/
theorem bignumWord_some (h : r.CTL &&& TRNG_CTL_DVIEN_Msk ≠ 0 ∧ env.HCLKFreq / 100 ≠ 0) :
    ∃ g, (bignumWord env r).1 = some (env.word g) ∧
      (bignumWord env r).2.uses = r.uses ++ [⟨r.started + 1, none, g⟩] := by
  obtain ⟨hseen, hkept, hreported⟩ := bignumWaited_spec env (r := r)
  rw [bignumWord_eq, if_pos (hseen.2 h)]
  refine ⟨(bignumWaited env r).2.data, rfl, ?_⟩
  show (bignumWaited env r).2.uses ++ [⟨(bignumWaited env r).2.started,
    (bignumWaited env r).2.reported, (bignumWaited env r).2.data⟩] = _
  rw [hkept.uses, hkept.started, hreported, started_uses, started_started]

theorem bignumWord_none (h : ¬ (r.CTL &&& TRNG_CTL_DVIEN_Msk ≠ 0 ∧ env.HCLKFreq / 100 ≠ 0)) :
    (bignumWord env r).1 = none ∧ (bignumWord env r).2.uses = r.uses ∧
      (bignumWord env r).2.started = r.started + 1 := by
  obtain ⟨hseen, hkept, -⟩ := bignumWaited_spec env (r := r)
  rw [bignumWord_eq, if_neg (mt hseen.1 h)]
  exact ⟨rfl, hkept.uses.trans (started_uses env r), hkept.started.trans (started_started env r)⟩

/-- The word shifted to each of its bytes. -/
def shifts (w : BitVec 32) : List (BitVec 32) :=
  [w >>> (0 * 8), w >>> (1 * 8), w >>> (2 * 8), w >>> (3 * 8)]

/-- The bytes of a word, low ones first. -/
def wordBytes (w : BitVec 32) : List (BitVec 8) := (shifts w).map fun v => v.setWidth 8

/-- What is left of the word in `u32Reg` at the byte `i`. -/
def left (i : ℕ) (u32Reg : BitVec 32) : List (BitVec 32) :=
  if i % 4 = 0 then [] else (shifts u32Reg).drop (i % 4)

theorem left_zero {i : ℕ} (h : i % 4 = 0) (w : BitVec 32) : left i w = [] := if_pos h

theorem left_start {i : ℕ} (h : i % 4 = 0) (w : BitVec 32) :
    w >>> (0 * 8) :: left (i + 1) w = shifts w := by
  have hmod : (i + 1) % 4 = 1 := by omega
  rw [left, if_neg (by omega), hmod]
  rfl

theorem left_next {i : ℕ} (h : i % 4 ≠ 0) (w : BitVec 32) :
    left i w = w >>> (i % 4 * 8) :: left (i + 1) w := by
  have hcases : (i % 4 = 1 ∧ (i + 1) % 4 = 2) ∨ (i % 4 = 2 ∧ (i + 1) % 4 = 3) ∨
      (i % 4 = 3 ∧ (i + 1) % 4 = 0) := by omega
  obtain ⟨h1, h2⟩ | ⟨h1, h2⟩ | ⟨h1, h2⟩ := hcases <;> rw [left, left, h1, h2] <;> rfl

/-- The words of some reads. -/
def words (new : List Use) : List (BitVec 32) := new.map fun u => env.word u.gen

/-- The loop gives what is left of the word it has, and then each further word's bytes, once and in
order. -/
theorem bignumLoop_emits (emit : BitVec 32 → List (BitVec 8)) (n i j : ℕ) (w : BitVec 32) (r : Regs)
    (hj : i % 4 ≠ 0 → j = i % 4) :
    ∃ new, (bignumLoop env emit n i j w r).2.uses = r.uses ++ new ∧
      ((bignumLoop env emit n i j w r).1.1 = -1 ∨ (bignumLoop env emit n i j w r).1 =
        (0, ((left i w ++ (words env new).flatMap shifts).take n).flatMap emit)) := by
  induction n generalizing i j w r with
  | zero => exact ⟨[], (List.append_nil _).symm, Or.inr rfl⟩
  | succ n ih =>
    by_cases hi : i % 4 = 0
    · rcases hword : bignumWord env r with ⟨_ | u32Reg, s⟩
      · have hnone := bignumWord_none env (r := r) fun h => by
          obtain ⟨g, hsome, -⟩ := bignumWord_some env h
          rw [hword] at hsome
          exact Option.some_ne_none _ hsome.symm
        rw [bignumLoop, if_pos hi, hword]
        rw [hword] at hnone
        exact ⟨[], hnone.2.1.trans (List.append_nil _).symm, Or.inl rfl⟩
      · obtain ⟨g, hsome, huses⟩ := bignumWord_some env (r := r) (by
          by_contra h
          have hnone := (bignumWord_none env h).1
          rw [hword] at hnone
          exact Option.some_ne_none _ hnone)
        rw [hword] at hsome huses
        have hreg : u32Reg = env.word g := Option.some.inj hsome
        obtain ⟨new, hnew, hout⟩ := ih (i + 1) 1 u32Reg s fun _ => by omega
        rw [bignumLoop, if_pos hi, hword]
        refine ⟨⟨r.started + 1, none, g⟩ :: new, ?_, ?_⟩
        · show (bignumLoop env emit n (i + 1) 1 u32Reg s).2.uses = _
          rw [hnew, huses, List.append_assoc]
          rfl
        · refine hout.imp id fun hout => ?_
          have hwords : left i w ++ (words env (⟨r.started + 1, none, g⟩ :: new)).flatMap shifts =
              u32Reg >>> (0 * 8) :: (left (i + 1) u32Reg ++ (words env new).flatMap shifts) := by
            rw [left_zero hi, ← List.cons_append, left_start hi, hreg]
            rfl
          rw [hwords, List.take_succ_cons, List.flatMap_cons]
          simp only [hout]
    · obtain ⟨new, hnew, hout⟩ := ih (i + 1) (j + 1) w r fun h => by have := hj hi; omega
      rw [bignumLoop, if_neg hi]
      refine ⟨new, hnew, hout.imp id fun hout => ?_⟩
      rw [left_next hi, ← hj hi, List.cons_append, List.take_succ_cons, List.flatMap_cons]
      simp only [hout]

/-- **The bytes of a big number**, as they are written out. -/
theorem bignumLoop_bytes {emit : BitVec 32 → List (BitVec 8)} (write : BitVec 8 → List (BitVec 8))
    (hemit : ∀ w, emit w = write (w.setWidth 8)) (n : ℕ) (r : Regs) :
    ∃ new, (bignumLoop env emit n 0 0 0 r).2.uses = r.uses ++ new ∧
      ((bignumLoop env emit n 0 0 0 r).1.1 = -1 ∨ (bignumLoop env emit n 0 0 0 r).1 =
        (0, (((words env new).flatMap wordBytes).take n).flatMap write)) := by
  obtain ⟨new, huses, hout⟩ := bignumLoop_emits env emit n 0 0 0 r fun h => absurd rfl h
  refine ⟨new, huses, hout.imp id fun hout => ?_⟩
  have hbytes : (words env new).flatMap wordBytes =
      ((words env new).flatMap shifts).map fun v => v.setWidth 8 := by
    rw [List.map_flatMap]
    rfl
  rw [hout, left_zero rfl, List.nil_append, hbytes, ← List.map_take, List.flatMap_map,
    funext hemit]

theorem emitByte_eq (w : BitVec 32) : emitByte w = [w.setWidth 8] := by
  have hmask : (w &&& 0xff).setWidth 8 = w.setWidth 8 &&& (0xff : BitVec 32).setWidth 8 :=
    BitVec.setWidth_and
  rw [emitByte, hmask]
  exact congrArg (fun b => [b]) (BitVec.and_allOnes (x := w.setWidth 8))

/-- A byte in hexadecimal, as characters. -/
def hexChars (b : BitVec 8) : List (BitVec 8) :=
  [BitVec.ofNat 8 (Nat.digitChar (b.toNat / 16)).toNat,
    BitVec.ofNat 8 (Nat.digitChar (b.toNat % 16)).toNat]

theorem emitHex_byte : ∀ b : BitVec 8, emitHex (b.setWidth 32) = hexChars b := by decide

theorem emitHex_eq (w : BitVec 32) : emitHex w = hexChars (w.setWidth 8) := by
  have hlow : (w.setWidth 8).setWidth 32 = w &&& 0xff := by
    apply BitVec.eq_of_toNat_eq
    have hw : w.toNat % 2 ^ 8 < 2 ^ 32 := lt_of_lt_of_le (Nat.mod_lt _ (by decide)) (by decide)
    rw [BitVec.toNat_setWidth, BitVec.toNat_setWidth, Nat.mod_eq_of_lt hw, BitVec.toNat_and]
    exact (Nat.and_two_pow_sub_one_eq_mod _ 8).symm
  have hhigh : w &&& 0xff &&& 0xf0 = w &&& 0xf0 := by rw [BitVec.and_assoc]; rfl
  have hdigit : w &&& 0xff &&& 0x0f = w &&& 0x0f := by rw [BitVec.and_assoc]; rfl
  rw [← emitHex_byte, hlow, emitHex, emitHex, hhigh, hdigit]

end Bignum

/-! ### The calls -/

/-- The calls, with what else can happen between them: a read's time passing, and a write of `CTL`
from elsewhere. -/
inductive Call
  | openTRNG (ldo rdy : Option ℕ)
  | GenWord
  | GenBignum (i32Len : BitVec 32)
  | GenBignumHex (i32Len : BitVec 32)
  | rand
  | idle
  | writeCTL (v : BitVec 32)

/-- The registers after a call. -/
def exec (r : Regs) : Call → Regs
  | .openTRNG ldo rdy => (TRNG_Open env r ldo rdy).2
  | .GenWord => (TRNG_GenWord env r).2
  | .GenBignum i32Len => (TRNG_GenBignum env r i32Len).2
  | .GenBignumHex i32Len => (TRNG_GenBignumHex env r i32Len).2
  | .rand => (nu_trng_rand env r).2
  | .idle => r.tick
  | .writeCTL v => r.writeCTL env v

/-- What a call is to give, from the reads it makes. -/
def Gives (r : Regs) (new : List Use) : Call → Prop
  | .GenWord => ((TRNG_GenWord env r).1 = (-1, 0) ∧ new = []) ∨
      ∃ u, new = [u] ∧ (TRNG_GenWord env r).1 = (0, env.word u.gen)
  | .GenBignum i32Len => (TRNG_GenBignum env r i32Len).1.1 = -1 ∨ (TRNG_GenBignum env r i32Len).1 =
      (0, ((words env new).flatMap wordBytes).take (byteCount i32Len))
  | .GenBignumHex i32Len => (TRNG_GenBignumHex env r i32Len).1.1 = -1 ∨
      (TRNG_GenBignumHex env r i32Len).1 =
        (0, (((words env new).flatMap wordBytes).take (byteCount i32Len)).flatMap hexChars)
  | .rand => ∃ u, new = [u] ∧ (nu_trng_rand env r).1 = env.word u.gen
  | _ => new = []

/-- Every word a call uses is fresh, and it gives what these words make, or reports that it has
none. -/
def Good (r : Regs) (c : Call) : Prop :=
  ∃ new, (exec env r c).uses = r.uses ++ new ∧ (∀ u ∈ new, u.Fresh) ∧ Gives env r new c

/-- The next generation is through in time. -/
def InTime (r : Regs) : Prop := ∃ d, env.delay (r.started + 1) = some d ∧ d < env.SystemCoreClock

/-- The state in which a call keeps its word. -/
def Ready (r : Regs) : Call → Prop
  | .GenWord => env.SystemCoreClock = 0 ∨ r.DVIF = false ∨ env.delay (r.started + 1) = some 0
  | .GenBignum i32Len | .GenBignumHex i32Len =>
      byteCount i32Len = 0 ∨ r.CTL &&& TRNG_CTL_DVIEN_Msk = 0 ∨ env.HCLKFreq / 100 = 0
  | .rand => InTime env r ∧ (r.DVIF = false ∨ env.delay (r.started + 1) = some 0)
  | _ => True

section Calls

variable {r : Regs}

/-- What a call that is ready does: its words are fresh, and of generations it has started. -/
structure Minted (r s : Regs) (new : List Use) : Prop where
  uses : s.uses = r.uses ++ new
  fresh : ∀ u ∈ new, u.Fresh
  started : r.started ≤ s.started
  range : ∀ u ∈ new, r.started < u.started ∧ u.started ≤ s.started
  nodup : (new.map Use.gen).Nodup

theorem Minted.nil {s : Regs} (huses : s.uses = r.uses) (hstarted : r.started ≤ s.started) :
    Minted r s [] where
  uses := huses.trans (List.append_nil _).symm
  fresh _ h := absurd h List.not_mem_nil
  started := hstarted
  range _ h := absurd h List.not_mem_nil
  nodup := List.nodup_nil

theorem Minted.one {s : Regs} {k : ℕ} (hk : k = r.started + 1)
    (huses : s.uses = r.uses ++ [⟨k, some k, k⟩]) (hstarted : s.started = k) :
    Minted r s [⟨k, some k, k⟩] where
  uses := huses
  fresh u hu := by
    rw [List.mem_singleton.1 hu]
    exact ⟨rfl, rfl⟩
  started := by omega
  range u hu := by
    rw [List.mem_singleton.1 hu]
    exact ⟨hk ▸ Nat.lt_succ_self _, le_of_eq hstarted.symm⟩
  nodup := List.nodup_singleton _

theorem Minted.append {s t : Regs} {new new' : List Use} (h : Minted r s new)
    (h' : Minted s t new') : Minted r t (new ++ new') where
  uses := by rw [h'.uses, h.uses, List.append_assoc]
  fresh u hu := (List.mem_append.1 hu).elim (h.fresh u) (h'.fresh u)
  started := h.started.trans h'.started
  range u hu := by
    have hst := h.started
    have hst' := h'.started
    rcases List.mem_append.1 hu with hu | hu
    · have := h.range u hu
      omega
    · have := h'.range u hu
      omega
  nodup := by
    rw [List.map_append]
    refine h.nodup.append h'.nodup fun g hg hg' => ?_
    obtain ⟨u, hu, rfl⟩ := List.mem_map.1 hg
    obtain ⟨v, hv, heq⟩ := List.mem_map.1 hg'
    -- fresh words of two calls are of generations that one and the other started
    have hu' := (h.range u hu).2
    have hv' := (h'.range v hv).1
    rw [(h.fresh u hu).2, (h'.fresh v hv).2] at heq
    omega

theorem writeCTL_minted (v : BitVec 32) : Minted r (r.writeCTL env v) [] := by
  rw [Regs.writeCTL]
  split
  · exact Minted.nil rfl (Nat.le_succ _)
  · exact Minted.nil rfl (Nat.le_refl _)

theorem Kept.minted {s : Regs} (h : Kept r s) : Minted r s [] :=
  Minted.nil h.uses (le_of_eq h.started.symm)

theorem poll_readDVIF_kept (n : ℕ) : Kept r (poll Regs.readDVIF n r).2 := by
  have hstep : ∀ s, Kept r s → if s.readDVIF.1 then Kept r s.readDVIF.2 else Kept r s.readDVIF.2 :=
    fun s hs => by rw [ite_self]; exact hs.trans (readDVIF_kept s)
  have h := poll_rule (n := n) hstep Kept.rfl
  rwa [ite_self] at h

theorem TRNG_Open_minted (ldo rdy : Option ℕ) : Minted r (TRNG_Open env r ldo rdy).2 [] := by
  have hreset : Minted r r.reset [] := Minted.nil rfl (Nat.le_refl _)
  have hLDO := hreset.append (writeCTL_minted env TRNG_CTL_LDOEN_Msk)
  have hRDY := hLDO.append (writeCTL_minted env
    (TRNG_CTL_TRNGEN_Msk ||| TRNG_CTL_LDOEN_Msk ||| TRNG_CTL_NRST_Msk))
  rw [TRNG_Open]
  split
  · exact hLDO
  · dsimp only
    split
    · exact hRDY
    · exact (hRDY.append (writeCTL_minted env _)).append (poll_readDVIF_kept _).minted

/-! ### The calls that are ready -/

theorem TRNG_GenWord_ready (h : Ready env r .GenWord) :
    ∃ new, Minted r (TRNG_GenWord env r).2 new ∧ Gives env r new .GenWord := by
  have hexpired : (TRNG_GenWord env r).1 = (-1, 0) → (TRNG_GenWord env r).2.uses = r.uses →
      (TRNG_GenWord env r).2.started = r.started + 1 →
      ∃ new, Minted r (TRNG_GenWord env r).2 new ∧ Gives env r new .GenWord :=
    fun hout huses hstarted => ⟨[], Minted.nil huses (hstarted ▸ Nat.le_succ _), Or.inl ⟨hout, rfl⟩⟩
  have hgiven : (TRNG_GenWord env r).1 = (0, env.word (r.started + 1)) →
      (TRNG_GenWord env r).2.uses =
        r.uses ++ [⟨r.started + 1, some (r.started + 1), r.started + 1⟩] →
      (TRNG_GenWord env r).2.started = r.started + 1 →
      ∃ new, Minted r (TRNG_GenWord env r).2 new ∧ Gives env r new .GenWord :=
    fun hout huses hstarted => ⟨_, Minted.one rfl huses hstarted, Or.inr ⟨_, rfl, hout⟩⟩
  by_cases hclock : env.SystemCoreClock = 0
  · obtain ⟨hout, huses, hstarted⟩ := TRNG_GenWord_of_clock env hclock (r := r)
    exact hexpired hout huses hstarted
  · cases hDVIF : r.DVIF with
    | false =>
      obtain ⟨hres, hstarted⟩ := TRNG_GenWord_of_clear env hDVIF
      split at hres
      · exact hgiven hres.1 hres.2 hstarted
      · exact hexpired hres.1 hres.2 hstarted
    | true =>
      -- the word left there is not used only if the new one replaces it before the first read
      have hnow : env.delay (r.started + 1) = some 0 :=
        (h.resolve_left hclock).resolve_left (by rw [hDVIF]; exact Bool.noConfusion)
      obtain ⟨g, hg, hout, huses, hstarted⟩ := TRNG_GenWord_of_set env hclock hDVIF
      rw [if_pos hnow] at hg
      subst hg
      exact hgiven hout huses hstarted

theorem TRNG_GenWord_not_ready (h : ¬ Ready env r .GenWord) :
    ∃ u : Use, (TRNG_GenWord env r).2.uses = r.uses ++ [u] ∧ ¬ u.Fresh := by
  have hclock : env.SystemCoreClock ≠ 0 := fun hc => h (Or.inl hc)
  have hDVIF : r.DVIF = true := by
    cases hDVIF : r.DVIF with
    | true => rfl
    | false => exact absurd (Or.inr (Or.inl hDVIF)) h
  have hlater : env.delay (r.started + 1) ≠ some 0 := fun hd => h (Or.inr (Or.inr hd))
  obtain ⟨g, hg, -, huses, -⟩ := TRNG_GenWord_of_set env hclock hDVIF
  rw [if_neg hlater] at hg
  refine ⟨_, huses, fun hfresh => ?_⟩
  have hle := r.data_le
  have heq : g = r.started + 1 := hfresh.2
  omega

/-- **A word**: it is fresh, or none is given, just if none is left from before or the wait starts too
late to see it. -/
theorem TRNG_GenWord_fresh_iff : Good env r .GenWord ↔ Ready env r .GenWord := by
  constructor
  · rintro ⟨new, huses, hfresh, -⟩
    by_contra h
    obtain ⟨u, hu, hstale⟩ := TRNG_GenWord_not_ready env h
    have hnew : new = [u] := List.append_cancel_left (huses.symm.trans hu)
    exact hstale (hfresh u (by rw [hnew]; exact List.mem_singleton_self u))
  · intro h
    obtain ⟨new, hminted, hgives⟩ := TRNG_GenWord_ready env h
    exact ⟨new, hminted.uses, hminted.fresh, hgives⟩

theorem rand_ready (h : Ready env r .rand) :
    ∃ new, Minted r (exec env r .rand) new ∧ Gives env r new .rand := by
  have hword : Ready env r .GenWord := Or.inr h.2
  obtain ⟨new, hminted, hgives⟩ := TRNG_GenWord_ready env hword
  refine ⟨new, hminted, ?_⟩
  obtain ⟨-, rfl⟩ | ⟨u, rfl, hout⟩ := hgives
  · -- the wait cannot have expired
    exfalso
    have hnil := hminted.uses
    rw [List.append_nil] at hnil
    obtain ⟨d, hd, hlt⟩ := h.1
    cases hDVIF : r.DVIF with
    | false =>
      have hres := (TRNG_GenWord_of_clear env hDVIF).1
      rw [if_pos ⟨d, hd, hlt⟩, hnil] at hres
      exact absurd hres.2 (by simp)
    | true =>
      obtain ⟨g, -, -, huses, -⟩ :=
        TRNG_GenWord_of_set env (Nat.ne_of_gt (Nat.zero_lt_of_lt hlt)) hDVIF
      rw [hnil] at huses
      exact absurd huses (by simp)
  · exact ⟨u, rfl, congrArg Prod.snd hout⟩

theorem rand_fresh_iff : Good env r .rand ↔ Ready env r .rand := by
  constructor
  · rintro ⟨new, huses, hfresh, u, rfl, -⟩
    have hword : Ready env r .GenWord := by
      by_contra h
      obtain ⟨v, hv, hstale⟩ := TRNG_GenWord_not_ready env h
      have hnew : [u] = [v] := List.append_cancel_left (huses.symm.trans hv)
      exact hstale (hfresh v (by rw [hnew]; exact List.mem_singleton_self v))
    have hnil : (TRNG_GenWord env r).2.uses ≠ r.uses := fun h => by
      have huses' : (TRNG_GenWord env r).2.uses = r.uses ++ [u] := huses
      rw [h] at huses'
      exact absurd huses' (by simp)
    have hclock : env.SystemCoreClock ≠ 0 := fun h => hnil (TRNG_GenWord_of_clock env h).2.1
    cases hDVIF : r.DVIF with
    | false =>
      refine ⟨?_, Or.inl hDVIF⟩
      have hres := (TRNG_GenWord_of_clear env hDVIF).1
      by_contra h
      have hlate : ¬ ∃ d, env.delay (r.started + 1) = some d ∧ d < env.SystemCoreClock := h
      rw [if_neg hlate] at hres
      exact hnil hres.2
    | true =>
      have hnow := (hword.resolve_left hclock).resolve_left (by rw [hDVIF]; exact Bool.noConfusion)
      exact ⟨⟨0, hnow, Nat.pos_of_ne_zero hclock⟩, Or.inr hnow⟩
  · intro h
    obtain ⟨new, hminted, hgives⟩ := rand_ready env h
    exact ⟨new, hminted.uses, hminted.fresh, hgives⟩

/-- The state in which a big number's first wait is not mistaken. -/
def BignumReady (n : ℕ) (r : Regs) : Prop :=
  n = 0 ∨ r.CTL &&& TRNG_CTL_DVIEN_Msk = 0 ∨ env.HCLKFreq / 100 = 0

theorem not_bignumReady {n : ℕ} : ¬ BignumReady env n r ↔
    n ≠ 0 ∧ r.CTL &&& TRNG_CTL_DVIEN_Msk ≠ 0 ∧ env.HCLKFreq / 100 ≠ 0 := by
  rw [BignumReady, not_or, not_or]

/-- Ready, the loop uses no word: it has nothing to give, or its first wait expires. -/
theorem bignumLoop_ready (emit : BitVec 32 → List (BitVec 8)) {n : ℕ} (h : BignumReady env n r) :
    Minted r (bignumLoop env emit n 0 0 0 r).2 [] ∧
      ((bignumLoop env emit n 0 0 0 r).1.1 = -1 ∨
        n = 0 ∧ (bignumLoop env emit n 0 0 0 r).1 = (0, [])) := by
  cases n with
  | zero => exact ⟨Minted.nil rfl (Nat.le_refl _), Or.inr ⟨rfl, rfl⟩⟩
  | succ n =>
    have hnone := bignumWord_none env (r := r) fun hset =>
      (h.resolve_left (Nat.succ_ne_zero n)).elim hset.1 hset.2
    rcases hword : bignumWord env r with ⟨w, s⟩
    rw [hword] at hnone
    obtain ⟨rfl, huses, hstarted⟩ := hnone
    rw [bignumLoop, if_pos rfl, hword]
    exact ⟨Minted.nil huses (hstarted ▸ Nat.le_succ _), Or.inl rfl⟩

/-- Otherwise the first word is one that has not been reported. -/
theorem bignumLoop_not_ready (emit : BitVec 32 → List (BitVec 8)) {n : ℕ}
    (h : ¬ BignumReady env n r) :
    ∃ u more, (bignumLoop env emit n 0 0 0 r).2.uses = r.uses ++ u :: more ∧ ¬ Use.Fresh u := by
  obtain ⟨hn, hset⟩ := (not_bignumReady env).1 h
  obtain ⟨n, rfl⟩ := Nat.exists_eq_succ_of_ne_zero hn
  obtain ⟨g, hsome, huses⟩ := bignumWord_some env hset
  rcases hword : bignumWord env r with ⟨w, s⟩
  rw [hword] at hsome huses
  obtain rfl : w = some (env.word g) := hsome
  obtain ⟨more, hmore, -⟩ := bignumLoop_emits env emit n 1 1 (env.word g) s fun _ => rfl
  refine ⟨⟨r.started + 1, none, g⟩, more, ?_, fun hfresh => Option.some_ne_none g hfresh.1.symm⟩
  rw [bignumLoop, if_pos rfl, hword]
  show (bignumLoop env emit n (0 + 1) 1 (env.word g) s).2.uses = _
  rw [hmore, huses, List.append_assoc]
  rfl

theorem flatMap_byte (bytes : List (BitVec 8)) : (bytes.flatMap fun b => [b]) = bytes := by
  rw [List.flatMap_singleton']

/-- The reads of a big number make what it gives, whether they are fresh or not. -/
theorem bignum_gives {new : List Use} (i32Len : BitVec 32) :
    ((TRNG_GenBignum env r i32Len).2.uses = r.uses ++ new →
      Gives env r new (.GenBignum i32Len)) ∧
    ((TRNG_GenBignumHex env r i32Len).2.uses = r.uses ++ new →
      Gives env r new (.GenBignumHex i32Len)) := by
  constructor
  · intro huses
    obtain ⟨new', huses', hout⟩ :=
      bignumLoop_bytes env (fun b => [b]) emitByte_eq (byteCount i32Len) r
    obtain rfl : new = new' := List.append_cancel_left (huses.symm.trans huses')
    rw [flatMap_byte] at hout
    exact hout
  · intro huses
    obtain ⟨new', huses', hout⟩ := bignumLoop_bytes env hexChars emitHex_eq (byteCount i32Len) r
    obtain rfl : new = new' := List.append_cancel_left (huses.symm.trans huses')
    exact hout

theorem bignum_fresh_iff {emit : BitVec 32 → List (BitVec 8)} {n : ℕ} {P : List Use → Prop}
    (hP : ∀ new, (bignumLoop env emit n 0 0 0 r).2.uses = r.uses ++ new → P new) :
    (∃ new, (bignumLoop env emit n 0 0 0 r).2.uses = r.uses ++ new ∧ (∀ u ∈ new, u.Fresh) ∧ P new) ↔
      BignumReady env n r := by
  constructor
  · rintro ⟨new, huses, hfresh, -⟩
    by_contra h
    obtain ⟨u, more, hu, hstale⟩ := bignumLoop_not_ready env emit h
    have hnew : new = u :: more := List.append_cancel_left (huses.symm.trans hu)
    exact hstale (hfresh u (by rw [hnew]; exact List.mem_cons_self))
  · intro h
    have hminted := (bignumLoop_ready env emit h).1
    exact ⟨[], hminted.uses, hminted.fresh, hP [] hminted.uses⟩

/-- **A call** keeps its word just where it is ready. -/
theorem good_iff (c : Call) : Good env r c ↔ Ready env r c := by
  cases c with
  | GenWord => exact TRNG_GenWord_fresh_iff env
  | rand => exact rand_fresh_iff env
  | GenBignum i32Len => exact bignum_fresh_iff env fun new => (bignum_gives env i32Len).1
  | GenBignumHex i32Len => exact bignum_fresh_iff env fun new => (bignum_gives env i32Len).2
  | openTRNG ldo rdy =>
    have h := TRNG_Open_minted env ldo rdy (r := r)
    exact iff_of_true ⟨[], h.uses, h.fresh, rfl⟩ trivial
  | idle =>
    have h := (tick_kept r).minted
    exact iff_of_true ⟨[], h.uses, h.fresh, rfl⟩ trivial
  | writeCTL v =>
    have h := writeCTL_minted env v (r := r)
    exact iff_of_true ⟨[], h.uses, h.fresh, rfl⟩ trivial

theorem ready_minted {c : Call} (h : Ready env r c) : ∃ new, Minted r (exec env r c) new := by
  cases c with
  | GenWord => exact (TRNG_GenWord_ready env h).imp fun _ => And.left
  | rand => exact (rand_ready env h).imp fun _ => And.left
  | GenBignum i32Len => exact ⟨[], (bignumLoop_ready env emitByte h).1⟩
  | GenBignumHex i32Len => exact ⟨[], (bignumLoop_ready env emitHex h).1⟩
  | openTRNG ldo rdy => exact ⟨[], TRNG_Open_minted env ldo rdy⟩
  | idle => exact ⟨[], (tick_kept r).minted⟩
  | writeCTL v => exact ⟨[], writeCTL_minted env v⟩

theorem along_minted {cs : List Call} (h : Guarded.Along (exec env) (Ready env) r cs) :
    ∃ new, Minted r (cs.foldl (exec env) r) new := by
  induction cs generalizing r with
  | nil => exact ⟨[], Minted.nil rfl (Nat.le_refl _)⟩
  | cons c cs ih =>
    obtain ⟨new, hminted⟩ := ready_minted env h.1
    obtain ⟨new', hminted'⟩ := ih h.2
    exact ⟨new ++ new', hminted.append hminted'⟩

end Calls

/-- **Random numbers are fresh**: in a run of calls from any state, every word used is fresh, what is
given is made of such words, and no word is used twice, just if each call is made where it is ready. -/
theorem fresh_iff (r : Regs) (cs : List Call) :
    (Guarded.Along (exec env) (Good env) r cs ∧
      ∃ new, (cs.foldl (exec env) r).uses = r.uses ++ new ∧ (new.map Use.gen).Nodup) ↔
    Guarded.Along (exec env) (Ready env) r cs := by
  constructor
  · exact fun h => h.1.mono fun s c => (good_iff env c).1
  · intro h
    obtain ⟨new, hminted⟩ := along_minted env h
    exact ⟨h.mono fun s c => (good_iff env c).2, new, hminted.uses, hminted.nodup⟩

/-- Every register is 0, and nothing has been started. -/
def atReset : Regs where
  CTL := 0
  DVIF := false
  data := 0
  started := 0
  pending := none
  reported := none
  uses := []
  data_le := Nat.le_refl 0

/-- The first generation is through at once, the later ones take five reads. -/
def steady : Env where
  word n := BitVec.ofNat 32 n
  delay n := if n = 1 then some 0 else some 5
  SystemCoreClock := 100
  HCLKFreq := 1000

/-- **The first word after `TRNG_Open`** is the one that `TRNG_Open` has waited for. -/
theorem stale_after_open :
    ([Call.openTRNG (some 0) (some 0), .GenWord].foldl (exec steady) atReset).uses =
      [⟨2, some 1, 1⟩] ∧
    ¬ Guarded.Along (exec steady) (Good steady) atReset
      [.openTRNG (some 0) (some 0), .GenWord] := by
  refine ⟨by rfl, fun h => ?_⟩
  have hready := (good_iff steady .GenWord).1 h.2.1
  have hnot : ¬ (steady.SystemCoreClock = 0 ∨
      (exec steady atReset (.openTRNG (some 0) (some 0))).DVIF = false ∨
      steady.delay ((exec steady atReset (.openTRNG (some 0) (some 0))).started + 1) = some 0) := by
    decide
  exact hnot hready

end Trng
