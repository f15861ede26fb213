/-
Control and bulk requests.

A control request becomes the control list; what was on it is held by its endpoint records
from then on (`Inv.displace`).  Its ED, if it has one, is taken out of the layout for a moment
(`Inv.drop`), so that a request with an old ED starts like one with a new ED.  A bulk request
gives its ED a queue.
-/
import NuMaker.Lib.BitMask
import NuMaker.Ohci.Steps

namespace Ohci

/-! ### What the EDs are made with -/

theorem and_eq_zero_of_bits {w : ℕ} {x m : BitVec w} (h : ∀ i, m.getLsbD i = true → x.getLsbD i = false) :
    x &&& m = 0 := by
  refine BitVec.eq_of_getLsbD_eq fun i _ => ?_
  rw [BitVec.getLsbD_and]
  cases hm : m.getLsbD i with
  | false => simp
  | true => simp [h i hm]

theorem ed_make_info_skip (udev : UDEV_T) (ep : Option Usb.EP_INFO_T) : ed_make_info udev ep &&& ED_SKIP = 0 := by
  have hin : ED_DIR_IN.getLsbD 14 = false := by decide
  have hout : ED_DIR_OUT.getLsbD 14 = false := by decide
  have hiso : ED_FORMAT_ISO.getLsbD 14 = false := by decide
  have hlow : ED_SPEED_LOW.getLsbD 14 = false := by decide
  have hmask : ∀ i < 32, ED_SKIP.getLsbD i = true → i = 14 := by decide
  refine and_eq_zero_of_bits fun i hi => ?_
  obtain rfl := hmask i (BitVec.lt_of_getLsbD hi) hi
  match ep with
  | none =>
    simp only [ed_make_info, BitVec.getLsbD_or, apply_ite (fun v : BitVec 32 => v.getLsbD 14), hlow]
    simp
  | some ep =>
    simp only [ed_make_info, BitVec.getLsbD_or, apply_ite (fun v : BitVec 32 => v.getLsbD 14), hlow, hin, hout,
      hiso]
    simp

theorem ed_make_info_iso (udev : UDEV_T) (ep : Usb.EP_INFO_T) :
    ed_make_info udev (some ep) &&& ED_FORMAT_ISO ≠ 0 ↔ ep.bmAttributes &&& 3 = 1 := by
  have hin : ED_DIR_IN.getLsbD 15 = false := by decide
  have hout : ED_DIR_OUT.getLsbD 15 = false := by decide
  have hiso : ED_FORMAT_ISO.getLsbD 15 = true := by decide
  have hlow : ED_SPEED_LOW.getLsbD 15 = false := by decide
  refine (and_bit_ne_zero _ 15).trans ?_
  simp only [ed_make_info, BitVec.getLsbD_or, apply_ite (fun v : BitVec 32 => v.getLsbD 15), hlow, hin, hout, hiso]
  simp

theorem ed_make_info_number {udev : UDEV_T} (h : udev.dev_num < 128) :
    ed_make_info udev none &&& ED_EP_ADDR_Msk = 0 := by
  have hlow : ∀ i < 11, ED_SPEED_LOW.getLsbD i = false := by decide
  have hmask : ∀ i < 32, ED_EP_ADDR_Msk.getLsbD i = true → 7 ≤ i ∧ i < 11 := by decide
  refine and_eq_zero_of_bits fun i hi => ?_
  obtain ⟨h7, h11⟩ := hmask i (BitVec.lt_of_getLsbD hi) hi
  have hdev : udev.dev_num.getLsbD i = false :=
    Nat.testBit_lt_two_pow (lt_of_lt_of_le (BitVec.lt_def.mp h) (Nat.pow_le_pow_right two_pos h7))
  have h16 : i < 16 := h11.trans (by decide)
  simp [ed_make_info, apply_ite (fun v : BitVec 32 => v.getLsbD i), hlow i h11, hdev, h16]

/-- Without a tail an ED is on no interrupt list, or isochronous. -/
theorem ED_T.Tailed.of_none {ed : ED_T} {o : Place} {q : List ℕ} (h : ed.TailP = none)
    (ho : o ≠ .ints ∨ ed.Info &&& ED_FORMAT_ISO ≠ 0) : ed.Tailed o q := by
  constructor
  · exact fun _ => h
  · intro t ht
    rw [h] at ht
    cases ht
  · exact fun _ => h
  · intro hints hgeneral
    rcases ho with hne | hiso
    · exact absurd hints hne
    · exact absurd hgeneral hiso

/-! ### Requests that get nowhere -/

theorem foldl_free_ohci_TD : ∀ {l : List ℕ} {s : State}, l.Nodup → (∀ t ∈ l, s.unit_used t = true) →
    l.foldl (fun s t => free_ohci_TD s (some t)) s = { s with
      unit_used := fun t => s.unit_used t && decide (t ∉ l)
      events := s.events ++ l.map fun t => .free_ohci_TD t true } := by
  intro l
  induction l with
  | nil =>
    intro s _ _
    simp
  | cons a l ih =>
    intro s hd hu
    obtain ⟨hal, hd⟩ := List.nodup_cons.mp hd
    have hu' : ∀ t ∈ l, (free_ohci_TD s (some a)).unit_used t = true := by
      intro t ht
      rw [free_ohci_TD]
      dsimp only
      rw [Function.update_of_ne fun hta : t = a => hal (hta ▸ ht)]
      exact hu t (List.mem_cons_of_mem a ht)
    have hused : (fun t => (free_ohci_TD s (some a)).unit_used t && decide (t ∉ l)) =
        fun t => s.unit_used t && decide (t ∉ a :: l) := by
      funext t
      by_cases hta : t = a
      · subst hta
        simp [free_ohci_TD]
      · simp [free_ohci_TD, hta]
    rw [List.foldl_cons, ih hd hu', hused]
    simp [free_ohci_TD, hu a List.mem_cons_self]

section

variable {ep0 : ℕ → Bool} {s : State} {d : Option ℕ} {L : Place → List ℕ} {rem : List ℕ}

theorem free_clean {evs : List Event} {l : List ℕ} (h : ∀ ev ∈ evs, ev.Clean) :
    ∀ ev ∈ evs ++ l.map fun t => .free_ohci_TD t true, ev.Clean := by
  intro ev hev
  rcases List.mem_append.mp hev with hev | hev
  · exact h ev hev
  · obtain ⟨t, -, rfl⟩ := List.mem_map.mp hev
    exact rfl

/-- A control request that is short of memory gives its TDs back. -/
theorem Took.undone {u : ℕ} {s₁ : State} {l l' : List ℕ} (ht : Took u s s₁ l) (hp : l'.Perm l)
    (h : Inv ep0 ⟨s, d⟩ L rem) :
    Inv ep0 ⟨l'.foldl (fun s t => free_ohci_TD s (some t)) s₁, d⟩ L rem := by
  have hused : ∀ t ∈ l', s₁.unit_used t = true := by
    intro t htl
    rw [ht.used, decide_eq_true (hp.mem_iff.mp htl), Bool.or_true]
  rw [foldl_free_ohci_TD (hp.nodup_iff.mpr ht.nodup) hused]
  refine h.congr ?_ ?_ ?_ ?_ ht.rest.Ied ht.rest.remove ht.rest.done ?_ ?_
  · funext t
    dsimp only
    rw [ht.used]
    by_cases htl : t ∈ l
    · rw [(ht.fresh t htl).2]
      simp [htl, hp.mem_iff]
    · simp [htl, hp.mem_iff]
  · intro e _
    rw [ht.ed]
    exact .refl _
  · intro t hu
    refine ht.td t fun htl => ?_
    dsimp only at hu
    rw [(ht.fresh t htl).2] at hu
    cases hu
  · exact State.head_congr ht.rest.control ht.rest.bulk ht.rest.Ied
  · intro p
    dsimp only
    rw [ht.rest.ep]
  · dsimp only
    rw [ht.rest.events]
    exact free_clean h.clean

/-! ### Control -/

/-- The layout when the control list has been let go. -/
def displaced (L : Place → List ℕ) : Place → List ℕ :=
  Function.update (Function.update L .loose (L .control ++ L .loose)) .control []

theorem displaced_of_ne {o : Place} (hc : o ≠ .control) (hl : o ≠ .loose) : displaced L o = L o := by
  rw [displaced, Function.update_of_ne hc, Function.update_of_ne hl]

theorem mem_displaced {o : Place} {t : ℕ} :
    t ∈ displaced L o ↔ o ≠ .control ∧ (t ∈ L o ∨ o = .loose ∧ t ∈ L .control) := by
  by_cases hc : o = .control
  · subst hc
    simp [displaced]
  · by_cases hl : o = .loose
    · subst hl
      simp [displaced, or_comm]
    · simp [displaced_of_ne hc hl, hc, hl]

/-- What was on the control list is not lost. -/
theorem exists_displaced {o : Place} {t : ℕ} (h : t ∈ L o) :
    ∃ o', o'.ofED = o.ofED ∧ t ∈ displaced L o' := by
  by_cases hc : o = .control
  · subst hc
    exact ⟨.loose, rfl, mem_displaced.mpr ⟨Place.noConfusion, Or.inr ⟨rfl, h⟩⟩⟩
  · exact ⟨o, rfl, mem_displaced.mpr ⟨hc, Or.inl h⟩⟩

theorem Inv.displace (h : Inv ep0 ⟨s, d⟩ L rem) :
    Inv ep0 ⟨{ s with HcControlHeadED := none }, d⟩ (displaced L) rem := by
  have hqueue : ∀ e, displaced L (.queue e) = L (.queue e) :=
    fun _ => displaced_of_ne Place.noConfusion Place.noConfusion
  have hints : displaced L .ints = L .ints := displaced_of_ne Place.noConfusion Place.noConfusion
  have hED : ∀ {o : Place} {e : ℕ}, o.ofED = true → e ∈ displaced L o → ∃ o', o'.ofED = true ∧ e ∈ L o' ∧
      (o' = o ∨ o' = .control ∧ o = .loose) := by
    intro o e ho he
    rcases (mem_displaced.mp he).2 with he | ⟨hl, he⟩
    · exact ⟨o, ho, he, Or.inl rfl⟩
    · exact ⟨.control, rfl, he, Or.inr ⟨rfl, hl⟩⟩
  have hplace : ∀ {o : Place} {e : ℕ}, o.ofED = true ∧ e ∈ L o → ∃ o', o'.ofED = true ∧ e ∈ displaced L o' := by
    rintro o e ⟨ho, he⟩
    obtain ⟨o', ho', he'⟩ := exists_displaced he
    exact ⟨o', ho'.trans ho, he'⟩
  have hholder : ∀ {o : Place} {e : ℕ}, o = .control ∨ o = .loose → e ∈ displaced L o →
      e ∈ rem ∨ ∃ p, ep0 p = true ∧ (s.ep p).hw_pipe = some e := by
    intro o e ho he
    obtain ⟨hc, he⟩ := mem_displaced.mp he
    rcases he with he | ⟨-, he⟩
    · exact h.holder ho he
    · exact h.holder (Or.inl rfl) he
  constructor
  · constructor
    · constructor
      · intro o
        by_cases hc : o = .control
        · rw [hc, displaced, Function.update_self]
          exact List.nodup_nil
        · by_cases hl : o = .loose
          · rw [hl, displaced, Function.update_of_ne Place.noConfusion, Function.update_self]
            refine List.nodup_append.mpr ⟨h.nodup _, h.nodup _, ?_⟩
            rintro a ha b hb rfl
            exact Place.noConfusion (h.once ha hb)
          · rw [displaced_of_ne hc hl]
            exact h.nodup o
      · intro o o' t ho ho'
        obtain ⟨hc, ho⟩ := mem_displaced.mp ho
        obtain ⟨hc', ho'⟩ := mem_displaced.mp ho'
        rcases ho with ho | ⟨hl, ho⟩
        · rcases ho' with ho' | ⟨hl', ho'⟩
          · exact h.once ho ho'
          · exact absurd (h.once ho ho') hc
        · rcases ho' with ho' | ⟨hl', ho'⟩
          · exact absurd (h.once ho' ho) hc'
          · rw [hl, hl']
      · intro o t ht
        rcases (mem_displaced.mp ht).2 with ht | ⟨-, ht⟩
        · exact h.pool ht
        · exact h.pool ht
      · intro o ho
        match o with
        | .control =>
          rw [displaced, Function.update_self]
          exact rfl
        | .bulk =>
          rw [displaced_of_ne Place.noConfusion Place.noConfusion]
          exact h.lists .bulk rfl
        | .ints =>
          rw [hints]
          exact h.lists .ints rfl
      · intro o e ho he
        obtain ⟨o', ho', he', -⟩ := hED ho he
        rw [hqueue]
        exact h.queue ho' he'
      · rw [displaced_of_ne Place.noConfusion Place.noConfusion]
        exact h.done
      · exact h.remove
      · exact h.rem_nodup
      · intro e he
        obtain ⟨o, ho⟩ := h.rem_ed e he
        exact hplace ho
      · rw [hints]
        exact h.nodes
      · rw [hints]
        exact h.below
      · intro e he
        exact absurd rfl (mem_displaced.mp he).1
      · rw [displaced_of_ne Place.noConfusion Place.noConfusion]
        exact h.plain
    · intro t ht hu
      obtain ⟨o, ho⟩ := h.all t ht hu
      obtain ⟨o', -, ho'⟩ := exists_displaced ho
      exact ⟨o', ho'⟩
    · intro e t ht
      rw [hqueue] at ht
      obtain ⟨o, ho⟩ := h.owned ht
      exact hplace ho
    · rw [displaced_of_ne Place.noConfusion Place.noConfusion]
      exact h.pending
    · intro e he
      rcases hholder (Or.inr rfl) he with hr | ⟨p, -, hp⟩
      · exact Or.inl hr
      · exact Or.inr ⟨p, hp⟩
    · intro p e hp
      obtain ⟨hrem, o, ho⟩ := h.pipes hp
      exact ⟨hrem, hplace ho⟩
    · exact h.only
    · exact h.clean
  · intro o e ho he
    rw [hqueue]
    obtain ⟨o', ho', he', rfl | ⟨rfl, rfl⟩⟩ := hED ho he
    · exact h.tailed ho' he'
    · have ht := h.tailed ho' he'
      exact ⟨fun _ => ht.other Place.noConfusion, ht.last, ht.iso, Place.noConfusion⟩
  · exact h.skipped
  · exact h.nodes_skipped
  · intro p e o hp ho he
    obtain ⟨o', ho', he', rfl | ⟨rfl, rfl⟩⟩ := hED ho he
    · exact h.named hp ho' he'
    · obtain ⟨hskip, hiff⟩ := h.named hp ho' he'
      refine ⟨hskip, hiff.trans ?_⟩
      simp
  · exact hholder
  · rw [hints]
    exact h.tree.congr rfl fun _ _ => rfl
  · exact h.first

/-- The layout without the ED `e`, which is on none of the lists. -/
def dropped (L : Place → List ℕ) (e : ℕ) : Place → List ℕ :=
  Function.update L .loose ((L .loose).filter (· ≠ e))

/-- An ED without TDs that is on none of the lists goes back to the pool. -/
theorem Inv.drop (h : Inv ep0 ⟨s, d⟩ L rem) {p e : ℕ} (hp : (s.ep p).hw_pipe = some e) (he : e ∈ L .loose)
    (hq : L (.queue e) = []) :
    Inv ep0 ⟨{ s with unit_used := Function.update s.unit_used e false }.setHwPipe p none, d⟩ (dropped L e)
      rem := by
  have hother : ∀ {o : Place}, o ≠ .loose → dropped L e o = L o := fun ho => Function.update_of_ne ho _ _
  have hmem : ∀ {o : Place} {t : ℕ}, t ∈ dropped L e o ↔ t ∈ L o ∧ t ≠ e := by
    intro o t
    by_cases ho : o = .loose
    · rw [ho, dropped, Function.update_self, List.mem_filter, decide_eq_true_iff]
    · rw [hother ho]
      refine ⟨fun ht => ⟨ht, ?_⟩, And.left⟩
      rintro rfl
      exact ho (h.once ht he)
  have hpipe : ∀ p', ((({ s with unit_used := Function.update s.unit_used e false } : State).setHwPipe p none).ep
      p').hw_pipe = if p' = p then none else (s.ep p').hw_pipe := by
    intro p'
    by_cases hpp : p' = p
    · subst hpp
      simp [State.setHwPipe]
    · simp [State.setHwPipe, hpp]
  have hpipe_some : ∀ {p' a}, ((({ s with unit_used := Function.update s.unit_used e false } : State).setHwPipe p
      none).ep p').hw_pipe = some a → (s.ep p').hw_pipe = some a ∧ a ≠ e := by
    intro p' a ha
    rw [hpipe] at ha
    by_cases hpp : p' = p
    · rw [if_pos hpp] at ha
      cases ha
    · rw [if_neg hpp] at ha
      refine ⟨ha, ?_⟩
      rintro rfl
      exact hpp (h.only ha hp)
  have hholder : ∀ (P : ℕ → Prop) {a : ℕ}, a ≠ e → (a ∈ rem ∨ ∃ p', P p' ∧ (s.ep p').hw_pipe = some a) →
      a ∈ rem ∨ ∃ p', P p' ∧ ((({ s with unit_used := Function.update s.unit_used e false } : State).setHwPipe p
        none).ep p').hw_pipe = some a := by
    rintro P a hne (ha | ⟨p', hP, ha⟩)
    · exact Or.inl ha
    · refine Or.inr ⟨p', hP, ?_⟩
      rw [hpipe, if_neg, ha]
      rintro rfl
      rw [hp] at ha
      exact hne (Option.some_inj.mp ha).symm
  have hrem : e ∉ rem := (h.pipes hp).1
  constructor
  · constructor
    · constructor
      · intro o
        by_cases ho : o = .loose
        · rw [ho, dropped, Function.update_self]
          exact (h.nodup _).filter _
        · rw [hother ho]
          exact h.nodup o
      · intro o o' t ht ht'
        exact h.once (hmem.mp ht).1 (hmem.mp ht').1
      · intro o t ht
        obtain ⟨ht, hne⟩ := hmem.mp ht
        refine ⟨(h.pool ht).1, ?_⟩
        refine (Function.update_of_ne hne _ _).trans ?_
        exact (h.pool ht).2
      · intro o ho
        have hne : o ≠ .loose := by
          rintro rfl
          cases ho
        rw [hother hne]
        cases o with
        | control => exact h.lists .control rfl
        | bulk => exact h.lists .bulk rfl
        | ints => exact h.lists .ints rfl
        | loose => exact absurd rfl hne
        | queue _ => exact absurd ho Bool.false_ne_true
        | done => exact absurd ho Bool.false_ne_true
        | pending => exact absurd ho Bool.false_ne_true
      · intro o a ho ha
        rw [hother Place.noConfusion]
        exact h.queue ho (hmem.mp ha).1
      · rw [hother Place.noConfusion]
        exact h.done
      · exact h.remove
      · exact h.rem_nodup
      · intro a ha
        obtain ⟨o, ho, hao⟩ := h.rem_ed a ha
        refine ⟨o, ho, hmem.mpr ⟨hao, ?_⟩⟩
        rintro rfl
        exact hrem ha
      · rw [hother Place.noConfusion]
        exact h.nodes
      · rw [hother Place.noConfusion]
        exact h.below
      · rw [hother Place.noConfusion]
        exact h.number
      · rw [hother Place.noConfusion]
        exact h.plain
    · intro t ht hu
      have hne : t ≠ e := by
        rintro rfl
        have hfalse : Function.update s.unit_used t false t = true := hu
        rw [Function.update_self] at hfalse
        cases hfalse
      have hu' : s.unit_used t = true := (Function.update_of_ne hne _ _).symm.trans hu
      obtain ⟨o, ho⟩ := h.all t ht hu'
      exact ⟨o, hmem.mpr ⟨ho, hne⟩⟩
    · intro a t ht
      rw [hother Place.noConfusion] at ht
      obtain ⟨o, ho, ha⟩ := h.owned ht
      refine ⟨o, ho, hmem.mpr ⟨ha, ?_⟩⟩
      rintro rfl
      rw [hq] at ht
      cases ht
    · rw [hother Place.noConfusion]
      exact h.pending
    · intro a ha
      obtain ⟨ha, hne⟩ := hmem.mp ha
      have := hholder (fun _ => True) hne ((h.held a ha).imp id fun hex => hex.imp fun _ hp' => ⟨trivial, hp'⟩)
      exact this.imp id fun hex => hex.imp fun _ hp' => hp'.2
    · intro p' a ha
      obtain ⟨ha, hne⟩ := hpipe_some ha
      obtain ⟨har, o, ho, hao⟩ := h.pipes ha
      exact ⟨har, o, ho, hmem.mpr ⟨hao, hne⟩⟩
    · intro p₁ p₂ a h₁ h₂
      exact h.only (hpipe_some h₁).1 (hpipe_some h₂).1
    · exact h.clean
  · intro o a ho ha
    rw [hother Place.noConfusion]
    exact h.tailed ho (hmem.mp ha).1
  · exact h.skipped
  · exact h.nodes_skipped
  · intro p' a o ha ho hao
    exact h.named (hpipe_some ha).1 ho (hmem.mp hao).1
  · intro o a ho ha
    obtain ⟨ha, hne⟩ := hmem.mp ha
    exact hholder (fun p' => ep0 p' = true) hne (h.holder ho ha)
  · rw [hother Place.noConfusion]
    exact h.tree.congr rfl fun _ _ => rfl
  · exact h.first

/-- What `ctrlStart` changes. -/
theorem ctrlStart_eq (s : State) (u ed td_setup td_data td_status : ℕ) :
    ∃ td utr, ctrlStart s u ed td_setup td_data td_status = ({ s with
        td := td
        ed := Function.update s.ed ed { s.ed ed with
          TailP := none
          HeadP := some td_setup
          halted := false
          toggleCarry := false
          Info := ed_make_info (s.utr u).udev none
          NextED := none }
        utr := utr
        HcControlHeadED := some ed } : State).setHwPipe (s.utr u).udev.ep0 (some ed) ∧
      ∀ t ∉ ctrlTDs (s.utr u).data_len td_setup td_data td_status, td t = s.td t := by
  unfold ctrlStart ctrlTDs
  by_cases h : 0 < (s.utr u).data_len
  · simp only [h, if_true]
    refine ⟨_, _, rfl, ?_⟩
    intro t ht
    simp only [List.mem_cons, List.not_mem_nil, or_false, not_or] at ht
    simp [State.setHwPipe, State.setUTR, State.setED, State.setTD, ht.1, ht.2.1, ht.2.2]
  · simp only [h, if_false]
    refine ⟨_, _, rfl, ?_⟩
    intro t ht
    simp only [List.mem_cons, List.not_mem_nil, or_false, not_or] at ht
    simp [State.setHwPipe, State.setUTR, State.setED, State.setTD, ht.1, ht.2]

theorem GotED.ed_of_ne {s s₁ : State} {old : Option ℕ} {ed : ℕ} {new : Bool} (h : GotED s old ed new s₁) {a : ℕ}
    (ha : a ≠ ed) : s₁.ed a = s.ed a := by
  cases h with
  | found _ => rfl
  | new _ halloc =>
    obtain ⟨-, -, rfl⟩ := alloc_ohci_ED_eq_some halloc
    exact Function.update_of_ne ha _ _

/-- With an ED that was in use, or a new one, `ed` is in use. -/
theorem GotED.used {s s₁ : State} {old : Option ℕ} {ed : ℕ} {new : Bool} (h : GotED s old ed new s₁)
    (hold : new = false → s.unit_used ed = true) : s₁.unit_used = Function.update s.unit_used ed true := by
  cases h with
  | found _ => rw [← hold rfl, Function.update_eq_self]
  | new _ halloc =>
    obtain ⟨-, -, rfl⟩ := alloc_ohci_ED_eq_some halloc
    rfl

theorem GotED.not_mem {s s₁ s₂ : State} {old : Option ℕ} {u ed : ℕ} {new : Bool} {l : List ℕ}
    (h : GotED s₁ old ed new s₂) (ht : Took u s s₁ l) (hold : new = false → s.unit_used ed = true) : ed ∉ l := by
  intro hm
  cases h with
  | found _ =>
    have := hold rfl
    rw [(ht.fresh ed hm).2] at this
    cases this
  | new _ halloc =>
    have := (alloc_ohci_ED_eq_some halloc).2.1
    rw [ht.used, decide_eq_true hm, Bool.or_true] at this
    cases this

theorem setHwPipe_hw_pipe (s : State) (p p' : ℕ) (v : Option ℕ) :
    ((s.setHwPipe p v).ep p').hw_pipe = if p' = p then v else (s.ep p').hw_pipe := by
  by_cases hp : p' = p
  · subst hp
    simp [State.setHwPipe]
  · simp [State.setHwPipe, hp]

/-- The request takes an ED that is free: a new one, or its own that has been dropped. -/
theorem Inv.ctrlStart {s₀ s₁ s₂ : State} {u ed td_setup td_data td_status : ℕ} {new : Bool}
    (ht : Took u s s₁ (ctrlTDs (s.utr u).data_len td_setup td_data td_status))
    (got : GotED s₁ (s.ep (s.utr u).udev.ep0).hw_pipe ed new s₂) (hold : new = false → s.unit_used ed = true)
    (h : Inv ep0 ⟨s₀, d⟩ L rem) (hempty : L .control = [])
    (hs : s₀ = ({ s with
      HcControlHeadED := none
      unit_used := Function.update s.unit_used ed false } : State).setHwPipe (s.utr u).udev.ep0 none)
    (hlt : ed < MEM_POOL_UNIT_NUM) (hep0 : ep0 (s.utr u).udev.ep0 = true)
    (hdev : (s.utr u).udev.dev_num < 128) :
    Inv ep0 ⟨Ohci.ctrlStart s₂ u ed td_setup td_data td_status, d⟩
      (extended L .control ed [ed] (ctrlTDs (s.utr u).data_len td_setup td_data td_status)) rem := by
  obtain ⟨htd₂, hutr₂, hrest₂⟩ := got.keeps
  have hutr : s₂.utr = s.utr := hutr₂.trans ht.utr
  have hrest := ht.rest.trans hrest₂
  have hedl := got.not_mem ht hold
  have hused₂ := got.used fun hnew => by rw [ht.used, hold hnew, Bool.true_or]
  have hnodup : (ctrlTDs (s₂.utr u).data_len td_setup td_data td_status).Nodup := by
    rw [hutr]
    exact ht.nodup
  have hlinks := ctrlStart_links (s := s₂) (u := u) ed hnodup
  obtain ⟨td, utr, heq, htd⟩ := ctrlStart_eq s₂ u ed td_setup td_data td_status
  rw [hutr] at heq htd hlinks
  rw [heq] at hlinks ⊢
  generalize hs' : State.setHwPipe _ _ _ = s' at hlinks ⊢
  set tds := ctrlTDs (s.utr u).data_len td_setup td_data td_status
  have hed_of_ne : ∀ a ≠ ed, s'.ed a = s₀.ed a := by
    intro a ha
    have hleft : s'.ed a = s₂.ed a := by
      rw [← hs']
      exact Function.update_of_ne ha _ s₂.ed
    rw [hleft, got.ed_of_ne ha, ht.ed, hs]
    rfl
  have hed : s'.ed ed = { s₂.ed ed with
      TailP := none
      HeadP := some td_setup
      halted := false
      toggleCarry := false
      Info := ed_make_info (s.utr u).udev none
      NextED := none } := by
    rw [← hs']
    exact Function.update_self ed _ s₂.ed
  have hfree : s₀.unit_used ed = false := by
    rw [hs]
    exact Function.update_self ed false s.unit_used
  have hqueue : L (.queue ed) = [] := h.queue_eq_nil hfree
  refine h.extend (o := .control) (F := ed :: tds) ?_ (Or.inr ⟨(s.utr u).udev.ep0, by simp [hep0], ?_, ?_, ?_⟩)
  · constructor
    · exact rfl
    · intro t htF
      rcases List.mem_cons.mp htF with rfl | htF
      · exact ⟨hlt, hfree⟩
      · refine ⟨(ht.fresh t htF).1, ?_⟩
        have hne : t ≠ ed := fun hte => hedl (hte ▸ htF)
        rw [hs]
        exact (Function.update_of_ne hne _ _).trans (ht.fresh t htF).2
    · intro t
      rw [← hs']
      change s₂.unit_used t = _
      by_cases hte : t = ed
      · rw [hte, hused₂, Function.update_self]
        simp
      · have hs₀ : s₀.unit_used t = s.unit_used t := by
          rw [hs]
          exact Function.update_of_ne hte _ _
        rw [hused₂, Function.update_of_ne hte, ht.used, hs₀]
        simp [hte]
    · intro t
      rw [hempty]
      simp
      tauto
    · intro t
      have hne : t ∈ tds → t ≠ ed := fun htl hte => hedl (hte ▸ htl)
      rw [hqueue]
      simp
      tauto
    · exact List.mem_singleton_self ed
    · exact List.nodup_singleton ed
    · exact ht.nodup
    · rw [hempty]
      exact List.nil_sublist _
    · intro a ha
      rw [hed_of_ne a ha]
      exact (SameED.refl _).key
    · intro a ha
      rw [State.NextED, State.NextED, hed_of_ne a fun hae => ha (hae ▸ List.mem_singleton_self ed)]
    · intro t htF _
      have htl : t ∉ tds := fun htl => htF (List.mem_cons_of_mem ed htl)
      have hleft : s'.td t = td t := by
        rw [← hs']
        rfl
      rw [State.NextTD, State.NextTD, hleft, htd t htl, htd₂, ht.td t htl, hs]
      rfl
    · rw [← hs', State.head]
      refine ⟨rfl, ?_⟩
      rw [hs', State.NextED, hed]
      exact rfl
    · intro o' ho'
      rw [← hs', hs]
      cases o' with
      | control => exact absurd rfl ho'
      | bulk => exact hrest.bulk
      | ints => exact congrArg (fun I : ℕ → ℕ => some (I 5)) hrest.Ied
      | loose => rfl
      | queue _ => rfl
      | done => rfl
      | pending => rfl
    · rw [hed]
      exact hlinks
    · rw [← hs', hs]
      exact hrest.Ied
    · rw [← hs', hs]
      exact hrest.remove
    · rw [← hs', hs]
      exact hrest.done
    · rw [← hs', hs]
      exact hrest.events
    · exact fun hF => absurd List.mem_cons_self hF
    · rw [hed]
      exact ed_make_info_skip (s.utr u).udev none
    · rw [hed]
      exact .of_none rfl (Or.inl Place.noConfusion)
    · exact Place.noConfusion
    · exact Place.noConfusion
    · intro _
      rw [hed]
      exact ed_make_info_number hdev
    · exact Place.noConfusion
  · intro p' _ hp'
    obtain ⟨-, o, -, heo⟩ := h.pipes hp'
    exact h.not_mem hfree o heo
  · intro _
    left
    rw [hs, setHwPipe_hw_pipe, if_pos rfl]
  · intro p'
    rw [← hs', setHwPipe_hw_pipe, hs, setHwPipe_hw_pipe]
    by_cases hp' : p' = (s.utr u).udev.ep0
    · simp [hp']
    · simp [hp', hrest.ep]

/-- A control request keeps the units, if it finds no TDs on its ED when it gets its units. -/
theorem Inv.ctrl_xfer (h : Inv ep0 ⟨s, d⟩ L rem) {u : ℕ} (hep0 : ep0 (s.utr u).udev.ep0 = true)
    (hdev : (s.utr u).udev.dev_num < 128)
    (hcare : ctrlUnits s u ≤ s.free →
      ∀ e, (s.ep (s.utr u).udev.ep0).hw_pipe = some e → (s.ed e).HeadP = none) :
    ∃ L', Inv ep0 ⟨(ohci_ctrl_xfer s u).2, d⟩ L' rem := by
  have hdone := ohci_ctrl_xfer_done s u
  generalize ohci_ctrl_xfer s u = r at hdone ⊢
  cases hdone with
  | short ht hp => exact ⟨L, ht.undone hp h⟩
  | @started s₁ s₂ ed td_setup td_data td_status new ht got =>
    have hlen : (ctrlTDs (s.utr u).data_len td_setup td_data td_status).length =
        (ctrlTDs (s.utr u).data_len 0 0 0).length := by
      unfold ctrlTDs
      split
      · rfl
      · rfl
    cases got with
    | found hpipe =>
      have hfits : ctrlUnits s u ≤ s.free := by
        rw [ctrlUnits, hpipe, ← hlen]
        exact length_le_free ht.nodup ht.fresh
      obtain ⟨-, o, ho, hed⟩ := h.pipes hpipe
      have hplace := (h.named hpipe ho hed).2.mp hep0
      have hq : L (.queue ed) = [] := by
        have hl := h.queue ho hed
        dsimp only at hl
        rw [hcare hfits ed hpipe] at hl
        exact List.head?_eq_none_iff.mp hl.head_eq.symm
      have hloose : ed ∈ displaced L .loose := by
        refine mem_displaced.mpr ⟨Place.noConfusion, ?_⟩
        rcases hplace with rfl | rfl
        · exact Or.inr ⟨rfl, hed⟩
        · exact Or.inl hed
      have hqd : displaced L (.queue ed) = [] := by
        rw [displaced_of_ne Place.noConfusion Place.noConfusion, hq]
      have hempty : dropped (displaced L) ed .control = [] := by
        rw [dropped, Function.update_of_ne Place.noConfusion, displaced, Function.update_self]
      exact ⟨_, (h.displace.drop hpipe hloose hqd).ctrlStart ht (.found hpipe) (fun _ => (h.pool hed).2)
        hempty rfl (h.pool hed).1 hep0 hdev⟩
    | new hpipe halloc =>
      obtain ⟨hlt, hfree, hs₂⟩ := alloc_ohci_ED_eq_some halloc
      rw [ht.used, Bool.or_eq_false_iff] at hfree
      have hempty : displaced L .control = [] := by
        rw [displaced, Function.update_self]
      have hsame : ({ s with HcControlHeadED := none } : State) = ({ s with
          HcControlHeadED := none
          unit_used := Function.update s.unit_used ed false } : State).setHwPipe (s.utr u).udev.ep0 none := by
        rw [State.setHwPipe]
        dsimp only
        rw [← hpipe, Function.update_eq_self, ← hfree.1, Function.update_eq_self]
      exact ⟨_, h.displace.ctrlStart ht (.new hpipe halloc) (fun hnew => Bool.noConfusion hnew) hempty hsame hlt hep0
        hdev⟩

/-! ### Bulk -/

/-- What `ohci_bulk_xfer` does with the TDs that the loop has built. -/
def bulkFinish (u ed : ℕ) (new : Bool) : Bool × State × Option ℕ → ℤ × State
  | (false, s, td_list) => (USBH_ERR_MEMORY_OUT, free_ohci_ED (freeTDs MEM_POOL_UNIT_NUM s td_list) ed)
  | (true, s, td_list) => (0, bulkStart s u ed td_list new)

/-- With the units it needs a bulk request gets through; else it changes nothing. -/
theorem bulk_xfer_through {u p : ℕ}
    (hold : ∀ e, s.findED s.HcBulkHeadED (s.info u p) = some e → (s.ed e).HeadP = (s.ed e).TailP →
      bulkTDs s u ≤ s.free)
    (hnew : s.findED s.HcBulkHeadED (s.info u p) = none → s.free = 0 ∨ bulkTDs s u + 1 ≤ s.free) :
    (ohci_bulk_xfer s u p).2 = s ∨ (ohci_bulk_xfer s u p).1 = 0 := by
  have hloop : ∀ {s₁ : State} {ed : ℕ} (new : Bool), bulkTDs s u ≤ s₁.free →
      (bulkFinish u ed new (bulkLoop u ed (bulkInfo (s.ep p)) ((s.utr u).data_len.toNat / 4096 + 1)
        (bulkPrepare s₁ u p ed (s.info u p) new) (s.utr u).buff (s.utr u).data_len none)).1 = 0 := by
    intro s₁ ed new hle
    have hfree : (bulkPrepare s₁ u p ed (s.info u p) new).free = s₁.free := by
      cases new with
      | false => rfl
      | true => rfl
    have hok := bulkLoop_ok u ed (bulkInfo (s.ep p)) _ _ (s.utr u).buff (s.utr u).data_len none
      (hle.trans_eq hfree.symm)
    generalize bulkLoop u ed (bulkInfo (s.ep p)) _ (bulkPrepare s₁ u p ed (s.info u p) new) _ _ none = r at hok ⊢
    obtain ⟨ok, s₂, td_list⟩ := r
    obtain rfl : ok = true := hok
    rfl
  unfold ohci_bulk_xfer
  dsimp only
  cases hfind : s.findED s.HcBulkHeadED (s.info u p) with
  | some ed =>
    have hfits := hold ed hfind
    unfold State.findED State.info at hfind
    rw [hfind]
    by_cases hbusy : (s.ed ed).HeadP = (s.ed ed).TailP
    · simp only [Option.any_some, hbusy, ne_eq, not_true, decide_false, Bool.false_eq_true, if_false]
      exact Or.inr (hloop false (hfits hbusy))
    · simp only [Option.any_some, hbusy, ne_eq, not_false_eq_true, decide_true, if_true]
      exact Or.inl trivial
  | none =>
    have hfits := hnew hfind
    unfold State.findED State.info at hfind
    rw [hfind]
    simp only [Option.any_none, Bool.false_eq_true, if_false]
    cases halloc : alloc_ohci_ED s with
    | mk o s₁ =>
      cases o with
      | none =>
        obtain ⟨-, rfl⟩ := alloc_ohci_ED_eq_none halloc
        exact Or.inl rfl
      | some ed =>
        obtain ⟨hlt, hfree, hs₁⟩ := alloc_ohci_ED_eq_some halloc
        have hone : s₁.free + 1 = s.free := free_succ hlt hfree (by rw [hs₁])
        have hle : bulkTDs s u ≤ s₁.free := by omega
        exact Or.inr (hloop true hle)

theorem bulkStart_old (s : State) (u ed : ℕ) (td_list : Option ℕ) : ∃ utr, bulkStart s u ed td_list false =
    { s with
      utr := utr
      ed := Function.update s.ed ed { s.ed ed with HeadP := td_list, halted := false } } :=
  ⟨_, rfl⟩

theorem bulkStart_new (s : State) (u ed : ℕ) (td_list : Option ℕ) : ∃ utr, bulkStart s u ed td_list true =
    { s with
      utr := utr
      ed := Function.update s.ed ed { s.ed ed with
        HeadP := td_list
        halted := false
        toggleCarry := false
        NextED := s.HcBulkHeadED }
      HcBulkHeadED := some ed } := by
  refine ⟨Function.update s.utr u { s.utr u with status := 0 }, ?_⟩
  simp [bulkStart, State.setED, State.setUTR]

/-- The ED found on a list is one of it. -/
theorem findED_mem {h : Option ℕ} {l : List ℕ} {info : BitVec 32} {e : ℕ} (hl : Links s.NextED h l none)
    (hn : l.length ≤ MEM_POOL_UNIT_NUM) (hf : s.findED h info = some e) : e ∈ l ∧ (s.ed e).Info = info := by
  rw [State.findED, Links.search_eq_find? _ hl hn] at hf
  have hInfo : decide ((s.ed e).Info = info) = true := List.find?_some (p := fun e => decide ((s.ed e).Info = info)) hf
  exact ⟨List.mem_of_find?_eq_some hf, of_decide_eq_true hInfo⟩

/-- A bulk request whose ED is on the list and has no TDs. -/
theorem Inv.bulk_old (h : Inv ep0 ⟨s, d⟩ L rem) {u p ed : ℕ} {s₂ : State} {td_list : Option ℕ} {l : List ℕ}
    (hgoes : BulkGoes s u p ed false s s₂ true td_list l)
    (hfind : s.findED s.HcBulkHeadED (s.info u p) = some ed) (hep0 : ep0 p = false) (hpriv : s.Private p ed) :
    ∃ L', Inv ep0 ⟨bulkStart s₂ u ed td_list false, d⟩ L' rem := by
  obtain ⟨hmem, hInfo⟩ := findED_mem (h.lists .bulk rfl) (h.length_le .bulk) hfind
  have hb := hgoes.built.building
  rw [List.nil_append] at hb
  have hskip : (s.ed ed).Info &&& ED_SKIP = 0 := by
    rw [hInfo]
    exact ed_make_info_skip (s.utr u).udev (some (s.ep p))
  have htail : (s.ed ed).TailP = none := (h.tailed rfl hmem).other Place.noConfusion
  have hq : L (.queue ed) = [] := by
    have hl := h.queue rfl hmem
    dsimp only at hl
    rw [hgoes.idle rfl, htail] at hl
    exact List.head?_eq_none_iff.mp hl.head_eq.symm
  obtain ⟨utr, heq⟩ := bulkStart_old s₂ u ed td_list
  rw [heq]
  generalize hs' : State.mk _ _ _ _ _ _ _ _ _ _ _ _ = s'
  have hkey : SameED (s.ed ed) (s₂.ed ed) := hb.ed ed
  have hed : s'.ed ed = { s₂.ed ed with HeadP := td_list, halted := false } := by
    rw [← hs']
    exact Function.update_self ed _ s₂.ed
  have hx : Extends s s' L .bulk ed l (L .bulk) l := by
    refine .of_old h rfl hmem hskip hb.fresh ?_ ?_ hb.nodup ?_ ?_ ?_ ?_ ?_ ?_ ?_ ?_ ?_
    · rw [← hs']
      exact hb.used
    · intro t
      rw [hq]
      simp
    · intro a ha
      have hleft : s'.ed a = s₂.ed a := by
        rw [← hs']
        exact Function.update_of_ne ha _ s₂.ed
      rw [hleft]
      exact hb.ed a
    · rw [hed]
      exact hkey.Info
    · rw [hed]
      exact hkey.NextED
    · rw [hed]
      exact hkey.bInterval
    · intro t htl _
      rw [← hs']
      exact congrArg TD_T.NextTD (hb.td t htl)
    · rw [hed, ← hs']
      exact hb.links
    · rw [hed]
      exact .of_none (hkey.TailP.trans htail) (Or.inl Place.noConfusion)
    · rw [← hs']
      exact State.head_congr hb.rest.control hb.rest.bulk hb.rest.Ied
    · rw [← hs']
      exact ⟨hb.rest.Ied, hb.rest.remove, hb.rest.done, hb.rest.events⟩
  refine ⟨_, h.extend hx (Or.inr ⟨p, by simp [hep0], hpriv, ?_, ?_⟩)⟩
  · intro hp0
    rw [hep0] at hp0
    cases hp0
  · intro p'
    rw [← hs', ← setHwPipe_hw_pipe]
    exact congrArg (fun ep : ℕ → Usb.EP_INFO_T => (ep p').hw_pipe) hb.rest.ep

/-- A bulk request with a new ED, which becomes the head of the list. -/
theorem Inv.bulk_new (h : Inv ep0 ⟨s, d⟩ L rem) {u p ed : ℕ} {s₁ s₂ : State} {td_list : Option ℕ} {l : List ℕ}
    (hgoes : BulkGoes s u p ed true s₁ s₂ true td_list l) (halloc : alloc_ohci_ED s = (some ed, s₁))
    (hep0 : ep0 p = false) : ∃ L', Inv ep0 ⟨bulkStart s₂ u ed td_list true, d⟩ L' rem := by
  obtain ⟨hlt, hfree, hs₁⟩ := alloc_ohci_ED_eq_some halloc
  have hb := hgoes.built.building
  rw [List.nil_append, hs₁] at hb
  have hnot := h.not_mem hfree
  have hedl : ed ∉ l := by
    intro hm
    have hused := (hb.fresh ed hm).2
    have htrue : Function.update s.unit_used ed true ed = false := hused
    rw [Function.update_self] at htrue
    cases htrue
  have hfresh : ∀ t ∈ l, t < MEM_POOL_UNIT_NUM ∧ s.unit_used t = false := by
    intro t htl
    refine ⟨(hb.fresh t htl).1, ?_⟩
    have hne : t ≠ ed := fun hte => hedl (hte ▸ htl)
    have hupdate : Function.update s.unit_used ed true t = false := (hb.fresh t htl).2
    rwa [Function.update_of_ne hne] at hupdate
  obtain ⟨utr, heq⟩ := bulkStart_new s₂ u ed td_list
  rw [heq]
  generalize hs' : State.mk _ _ _ _ _ _ _ _ _ _ _ _ = s'
  have hed_of_ne : ∀ a ≠ ed, SameED (s.ed a) (s'.ed a) := by
    intro a ha
    have hleft : s'.ed a = s₂.ed a := by
      rw [← hs']
      exact Function.update_of_ne ha _ s₂.ed
    have hright : s.ed a = (bulkPrepare { s.setED ed ED_T.zero with
        unit_used := Function.update s.unit_used ed true } u p ed (s.info u p) true).ed a := by
      simp [bulkPrepare, State.setUTR, State.setHwPipe, State.setED, ha]
    rw [hleft, hright]
    exact hb.ed a
  have hkey : SameED { ED_T.zero with Info := s.info u p } (s₂.ed ed) := by
    have hprep : (bulkPrepare { s.setED ed ED_T.zero with
        unit_used := Function.update s.unit_used ed true } u p ed (s.info u p) true).ed ed =
        { ED_T.zero with Info := s.info u p } := by
      simp [bulkPrepare, State.setUTR, State.setHwPipe, State.setED, ED_T.zero]
    rw [← hprep]
    exact hb.ed ed
  have hed : s'.ed ed = { s₂.ed ed with
      HeadP := td_list
      halted := false
      toggleCarry := false
      NextED := s.HcBulkHeadED } := by
    rw [← hs', ← show s₂.HcBulkHeadED = s.HcBulkHeadED from hb.rest.bulk]
    exact Function.update_self ed _ s₂.ed
  have hNextED : s'.NextED = Function.update s.NextED ed s.HcBulkHeadED := by
    funext a
    by_cases ha : a = ed
    · rw [ha, Function.update_self, State.NextED, hed]
    · rw [Function.update_of_ne ha]
      exact (hed_of_ne a ha).NextED
  refine ⟨extended L .bulk ed (ed :: L .bulk) l, h.extend (F := ed :: l) ?_
    (Or.inr ⟨p, by simp [hep0], fun p' _ hp' => ?_, ?_, ?_⟩)⟩
  · constructor
    · exact rfl
    · intro t htF
      rcases List.mem_cons.mp htF with rfl | htF
      · exact ⟨hlt, hfree⟩
      · exact hfresh t htF
    · intro t
      rw [← hs']
      refine (hb.used t).trans ?_
      have hprep : (bulkPrepare { s.setED ed ED_T.zero with
          unit_used := Function.update s.unit_used ed true } u p ed (s.info u p) true).unit_used =
          Function.update s.unit_used ed true := rfl
      rw [hprep]
      by_cases hte : t = ed
      · simp [hte]
      · simp [hte]
    · intro t
      have := hnot .bulk
      simp
      tauto
    · intro t
      have hne : t ∈ l → t ≠ ed := fun htl hte => hedl (hte ▸ htl)
      rw [h.queue_eq_nil hfree]
      simp
      tauto
    · exact List.mem_cons_self
    · exact List.nodup_cons.mpr ⟨hnot .bulk, h.nodup .bulk⟩
    · exact hb.nodup
    · exact List.sublist_cons_self ed _
    · exact fun a ha => (hed_of_ne a ha).key
    · intro a ha
      have hne : a ≠ ed := fun hae => ha (hae ▸ List.mem_cons_self)
      rw [hNextED, Function.update_of_ne hne]
    · intro t htF _
      rw [← hs']
      exact congrArg TD_T.NextTD (hb.td t fun htl => htF (List.mem_cons_of_mem ed htl))
    · rw [hNextED, ← hs']
      exact Links.push (h.lists .bulk rfl) (hnot .bulk)
    · intro o' ho'
      rw [← hs']
      cases o' with
      | bulk => exact absurd rfl ho'
      | control => exact hb.rest.control
      | ints => exact congrArg (fun I : ℕ → ℕ => some (I 5)) hb.rest.Ied
      | loose => rfl
      | queue _ => rfl
      | done => rfl
      | pending => rfl
    · rw [hed, ← hs']
      exact hb.links
    · rw [← hs']
      exact hb.rest.Ied
    · rw [← hs']
      exact hb.rest.remove
    · rw [← hs']
      exact hb.rest.done
    · rw [← hs']
      exact hb.rest.events
    · exact fun hF => absurd List.mem_cons_self hF
    · rw [hed, hkey.Info]
      exact ed_make_info_skip (s.utr u).udev (some (s.ep p))
    · rw [hed]
      exact .of_none hkey.TailP (Or.inl Place.noConfusion)
    · exact Place.noConfusion
    · exact Place.noConfusion
    · exact Place.noConfusion
    · intro _
      rw [hed]
      exact hkey.bInterval
  · obtain ⟨-, o, -, heo⟩ := h.pipes hp'
    exact hnot o heo
  · intro hp0
    rw [hep0] at hp0
    cases hp0
  · intro p'
    rw [← hs', ← setHwPipe_hw_pipe]
    exact congrArg (fun ep : ℕ → Usb.EP_INFO_T => (ep p').hw_pipe) hb.rest.ep

/-- A bulk request keeps the units, if it is refused as busy, finds no unit at all for a new ED,
or gets all its units and the ED it finds is its own. -/
theorem Inv.bulk_xfer (h : Inv ep0 ⟨s, d⟩ L rem) {u p : ℕ} (hep0 : ep0 p = false)
    (hcare : match s.findED s.HcBulkHeadED (s.info u p) with
      | some e => (s.ed e).HeadP = (s.ed e).TailP → bulkTDs s u ≤ s.free ∧ s.Private p e
      | none => s.free = 0 ∨ bulkTDs s u + 1 ≤ s.free) :
    ∃ L', Inv ep0 ⟨(ohci_bulk_xfer s u p).2, d⟩ L' rem := by
  have hthrough : (ohci_bulk_xfer s u p).2 = s ∨ (ohci_bulk_xfer s u p).1 = 0 := by
    refine bulk_xfer_through ?_ ?_
    · intro e he hidle
      rw [he] at hcare
      exact (hcare hidle).1
    · intro hnone
      rw [hnone] at hcare
      exact hcare
  have hdone := ohci_bulk_xfer_done s u p
  generalize ohci_bulk_xfer s u p = r at hthrough hdone ⊢
  rcases hthrough with hsame | hzero
  · rw [hsame]
    exact ⟨L, h⟩
  · cases hdone with
    | busy => exact ⟨L, h⟩
    | noED _ => exact ⟨L, h⟩
    | short _ => exact absurd (show USBH_ERR_MEMORY_OUT = 0 from hzero) (by decide)
    | @started ed new s₁ s₂ td_list l hgoes =>
      have hgot := hgoes.got
      cases hgot with
      | found hfind =>
        rw [hfind] at hcare
        exact h.bulk_old hgoes hfind hep0 (hcare (hgoes.idle rfl)).2
      | new _ halloc => exact h.bulk_new hgoes halloc hep0

end

end Ohci
