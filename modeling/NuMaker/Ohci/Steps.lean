/-
The operations that submit nothing.

Filling records, the controller retiring a TD and handing over its done list, and a caller that
quits: each keeps the units where the layout has them, or moves one.
-/
import Mathlib.Logic.Equiv.Basic
import NuMaker.Ohci.Growth

namespace Ohci

section

variable {ep0 : ℕ → Bool} {σ : World} {L : Place → List ℕ} {rem : List ℕ}

theorem Inv.fill (h : Inv ep0 σ L rem) (u : ℕ) (utr : UTR_T) :
    Inv ep0 { σ with drv := σ.drv.setUTR u utr } L rem :=
  h.congr rfl (fun _ _ => .refl _) (fun _ _ => rfl) (fun o => by cases o <;> rfl) rfl rfl rfl (fun _ => rfl)
    h.clean

theorem Inv.describe (h : Inv ep0 σ L rem) (p : ℕ) (ep : Usb.EP_INFO_T) :
    Inv ep0 { σ with drv := { σ.drv with
      ep := Function.update σ.drv.ep p { ep with hw_pipe := (σ.drv.ep p).hw_pipe } } } L rem := by
  refine h.congr rfl (fun _ _ => .refl _) (fun _ _ => rfl) (fun o => by cases o <;> rfl) rfl rfl rfl ?_ h.clean
  intro p'
  by_cases hp : p' = p
  · subst hp
    simp
  · simp [hp]

theorem Inv.frame (h : Inv ep0 σ L rem) (n : BitVec 16) :
    Inv ep0 { σ with drv := { σ.drv with frame_no := n } } L rem :=
  h.congr rfl (fun _ _ => .refl _) (fun _ _ => rfl) (fun o => by cases o <;> rfl) rfl rfl rfl (fun _ => rfl)
    h.clean

/-! ### Quitting -/

theorem skip_or (info : BitVec 32) :
    (info ||| ED_SKIP) &&& ED_SKIP ≠ 0 ∧
      (info ||| ED_SKIP) &&& ED_FORMAT_ISO = info &&& ED_FORMAT_ISO ∧
      (info ||| ED_SKIP) &&& ED_EP_ADDR_Msk = info &&& ED_EP_ADDR_Msk := by
  have hskip : ED_SKIP &&& ED_SKIP = ED_SKIP := BitVec.and_self
  have hiso : ED_SKIP &&& ED_FORMAT_ISO = 0 := by decide
  have haddr : ED_SKIP &&& ED_EP_ADDR_Msk = 0 := by decide
  refine ⟨?_, ?_, ?_⟩
  · rw [BitVec.and_or_distrib_right, hskip]
    intro h
    exact absurd (BitVec.or_eq_zero_iff.mp h).2 (by decide)
  · rw [BitVec.and_or_distrib_right, hiso]
    exact BitVec.or_zero
  · rw [BitVec.and_or_distrib_right, haddr]
    exact BitVec.or_zero

variable {s : State} {d : Option ℕ}

/-- The EDs that are named are on the lists, and not to be skipped. -/
theorem Inv.ne_node (h : Inv ep0 ⟨s, d⟩ L rem) {p e : ℕ} (hp : (s.ep p).hw_pipe = some e) {i : ℕ}
    (hi : i ≤ 5) : s.Ied i ≠ e := by
  intro he
  obtain ⟨-, o, ho, heo⟩ := h.pipes hp
  have hskip := (h.named hp ho heo).1
  rw [← he] at hskip
  exact h.nodes_skipped i hi hskip

/-- The endpoint of record `p` goes to the removal list. -/
theorem Inv.quit (h : Inv ep0 ⟨s, d⟩ L rem) {p ed : ℕ} (hp : (s.ep p).hw_pipe = some ed) :
    Inv ep0 ⟨({ s.setED ed { s.ed ed with Info := (s.ed ed).Info ||| ED_SKIP, next := s.ed_remove_list } with
      ed_remove_list := some ed }).setHwPipe p none, d⟩ L (ed :: rem) := by
  obtain ⟨hskip, hiso, haddr⟩ := skip_or (s.ed ed).Info
  obtain ⟨hrem, o₀, ho₀, hed₀⟩ := h.pipes hp
  set s' := ({ s.setED ed { s.ed ed with Info := (s.ed ed).Info ||| ED_SKIP, next := s.ed_remove_list } with
      ed_remove_list := some ed }).setHwPipe p none with hs'
  have hself : s'.ed ed = { s.ed ed with Info := (s.ed ed).Info ||| ED_SKIP, next := s.ed_remove_list } :=
    Function.update_self _ _ _
  have hother : ∀ a ≠ ed, s'.ed a = s.ed a := fun a ha => Function.update_of_ne ha _ _
  have hsame : ∀ a, (s'.ed a).NextED = (s.ed a).NextED ∧ (s'.ed a).HeadP = (s.ed a).HeadP ∧
      (s'.ed a).TailP = (s.ed a).TailP ∧ (s'.ed a).bInterval = (s.ed a).bInterval := by
    intro a
    by_cases ha : a = ed
    · rw [ha, hself]
      exact ⟨rfl, rfl, rfl, rfl⟩
    · rw [hother a ha]
      exact ⟨rfl, rfl, rfl, rfl⟩
  have hInfo : ∀ a, (s'.ed a).Info &&& ED_FORMAT_ISO = (s.ed a).Info &&& ED_FORMAT_ISO ∧
      (s'.ed a).Info &&& ED_EP_ADDR_Msk = (s.ed a).Info &&& ED_EP_ADDR_Msk := by
    intro a
    by_cases ha : a = ed
    · rw [ha, hself]
      exact ⟨hiso, haddr⟩
    · rw [hother a ha]
      exact ⟨rfl, rfl⟩
  have hNextED : s'.NextED = s.NextED := funext fun a => (hsame a).1
  have hnode : ∀ a, s'.node a = s.node a := by
    intro a
    rw [State.node, State.node, get_int_tree_head_node, get_int_tree_head_node, (hsame a).2.2.2]
    rfl
  have hpipe : ∀ p', (s'.ep p').hw_pipe = if p' = p then none else (s.ep p').hw_pipe := by
    intro p'
    by_cases hpp : p' = p
    · subst hpp
      simp [hs', State.setHwPipe]
    · simp [hs', State.setHwPipe, State.setED, hpp]
  have hpipe_some : ∀ {p' e}, (s'.ep p').hw_pipe = some e → (s.ep p').hw_pipe = some e ∧ e ≠ ed := by
    intro p' e he
    rw [hpipe] at he
    by_cases hpp : p' = p
    · rw [if_pos hpp] at he
      cases he
    · rw [if_neg hpp] at he
      refine ⟨he, ?_⟩
      rintro rfl
      exact hpp (h.only he hp)
  have hholder : ∀ (P : ℕ → Prop) {e : ℕ}, (e ∈ rem ∨ ∃ p', P p' ∧ (s.ep p').hw_pipe = some e) →
      e ∈ ed :: rem ∨ ∃ p', P p' ∧ (s'.ep p').hw_pipe = some e := by
    rintro P e (he | ⟨p', hP, he⟩)
    · exact Or.inl (List.mem_cons_of_mem ed he)
    · by_cases hpp : p' = p
      · rw [hpp, hp] at he
        exact Or.inl (Option.some_inj.mp he ▸ List.mem_cons_self)
      · exact Or.inr ⟨p', hP, by rw [hpipe, if_neg hpp, he]⟩
  constructor
  · constructor
    · constructor
      · exact h.nodup
      · exact h.once
      · exact h.pool
      · intro o ho
        have hhead : s'.head o = s.head o := by cases o <;> rfl
        dsimp only
        rw [hNextED, hhead]
        exact h.lists o ho
      · intro o e ho he
        dsimp only
        rw [(hsame e).2.1]
        exact h.queue ho he
      · exact h.done
      · have hnext : s'.next = Function.update s.next ed s.ed_remove_list := by
          have := setED_next s ed { s.ed ed with
            Info := (s.ed ed).Info ||| ED_SKIP, next := s.ed_remove_list }
          exact this
        dsimp only
        rw [hnext]
        exact Links.push h.remove hrem
      · exact List.nodup_cons.mpr ⟨hrem, h.rem_nodup⟩
      · intro e he
        rcases List.mem_cons.mp he with rfl | he
        · exact ⟨o₀, ho₀, hed₀⟩
        · exact h.rem_ed e he
      · intro i hi
        refine ⟨(h.nodes i hi).1, fun hmem => ?_⟩
        rcases List.mem_cons.mp hmem with he | he
        · exact h.ne_node hp hi he
        · exact (h.nodes i hi).2 he
      · intro e he hnot
        dsimp only
        rw [hnode]
        exact h.below e he hnot
      · intro e he
        dsimp only
        rw [(hInfo e).2]
        exact h.number e he
      · intro e he
        dsimp only
        rw [(hsame e).2.2.2]
        exact h.plain e he
    · exact h.all
    · exact h.owned
    · exact h.pending
    · intro e he
      have := hholder (fun _ => True) ((h.held e he).imp id fun hex => hex.imp fun _ hp' => ⟨trivial, hp'⟩)
      exact this.imp id fun hex => hex.imp fun _ hp' => hp'.2
    · intro p' e he
      obtain ⟨he, hne⟩ := hpipe_some he
      obtain ⟨hnot, hplace⟩ := h.pipes he
      exact ⟨fun hm => (List.mem_cons.mp hm).elim hne hnot, hplace⟩
    · intro p₁ p₂ e h₁ h₂
      exact h.only (hpipe_some h₁).1 (hpipe_some h₂).1
    · exact h.clean
  · intro o e ho he
    have ht := h.tailed ho he
    dsimp only at ht ⊢
    by_cases hee : e = ed
    · -- it is to be skipped now
      subst hee
      constructor
      · rw [(hsame e).2.2.1]
        exact ht.other
      · rw [(hsame e).2.2.1]
        exact ht.last
      · rw [(hsame e).2.2.1, (hInfo e).1]
        exact ht.iso
      · intro _ _ hno
        rw [hself] at hno
        exact absurd hno hskip
    · rw [hother e hee]
      exact ht
  · intro e he
    dsimp only
    rcases List.mem_cons.mp he with rfl | he
    · rw [hself]
      exact hskip
    · rw [hother e fun hee => hrem (hee ▸ he)]
      exact h.skipped e he
  · intro i hi
    have hne : s.Ied i ≠ ed := h.ne_node hp hi
    have hI : s'.Ied i = s.Ied i := rfl
    dsimp only
    rw [hI, hother _ hne]
    exact h.nodes_skipped i hi
  · intro p' e o he ho heo
    obtain ⟨he, hne⟩ := hpipe_some he
    dsimp only
    rw [hother e hne]
    exact h.named he ho heo
  · intro o e ho he
    exact hholder (fun p => ep0 p = true) (h.holder ho he)
  · exact h.tree.congr rfl fun e _ => (hsame e).2.2.2
  · exact h.first

theorem Inv.quitEp (h : Inv ep0 ⟨s, d⟩ L rem) (p : ℕ) : ∃ rem', Inv ep0 ⟨quitEp s p, d⟩ L rem' := by
  rw [Ohci.quitEp]
  cases hp : (s.ep p).hw_pipe with
  | none => exact ⟨rem, h⟩
  | some ed =>
    -- an ED that is named is not on the removal list yet
    have hlen : rem.length ≤ MEM_POOL_UNIT_NUM := length_le_pool h.rem_nodup fun e he => by
      obtain ⟨o, -, heo⟩ := h.rem_ed e he
      exact (h.pool heo).1
    have hnone : Links.search s.next (· = ed) MEM_POOL_UNIT_NUM s.ed_remove_list = none := by
      rw [← Option.not_isSome_iff_eq_none, Links.search_isSome_iff h.remove hlen]
      rintro ⟨a, ha, hae⟩
      exact (h.pipes hp).1 (of_decide_eq_true hae ▸ ha)
    refine ⟨ed :: rem, ?_⟩
    dsimp only
    rw [add_to_ED_remove_list, hnone]
    exact h.quit hp

/-- What `ohci_quit_xfer` does for its first argument. -/
def quitByUtr (s : State) (utr : Option ℕ) : ℤ × State :=
  match utr with
  | none => (0, s)
  | some u =>
    match (s.utr u).ep with
    | none => (USBH_ERR_NOT_FOUND, s)
    | some p => if (s.ep p).hw_pipe = none then (USBH_ERR_NOT_FOUND, s) else (0, Ohci.quitEp s p)

/-- And then for the second. -/
def quitByEp (byUtr : ℤ × State) (ep : Option ℕ) : ℤ × State :=
  if byUtr.1 ≠ 0 then byUtr else
    match ep with
    | none => byUtr
    | some p => (0, Ohci.quitEp byUtr.2 p)

theorem Inv.quit_xfer (h : Inv ep0 ⟨s, d⟩ L rem) (utr ep : Option ℕ) :
    ∃ rem', Inv ep0 ⟨(ohci_quit_xfer s utr ep).2, d⟩ L rem' := by
  have hbyUtr : ∃ rem', Inv ep0 ⟨(quitByUtr s utr).2, d⟩ L rem' := by
    cases utr with
    | none => exact ⟨rem, h⟩
    | some u =>
      dsimp only [quitByUtr]
      cases (s.utr u).ep with
      | none => exact ⟨rem, h⟩
      | some p =>
        dsimp only
        split
        · exact ⟨rem, h⟩
        · exact h.quitEp p
  have hbyEp : ∀ byUtr : ℤ × State, (∃ rem', Inv ep0 ⟨byUtr.2, d⟩ L rem') →
      ∃ rem', Inv ep0 ⟨(quitByEp byUtr ep).2, d⟩ L rem' := by
    rintro byUtr ⟨rem', h'⟩
    unfold quitByEp
    split
    · exact ⟨rem', h'⟩
    · cases ep with
      | none => exact ⟨rem', h'⟩
      | some p => exact h'.quitEp p
  exact hbyEp (quitByUtr s utr) hbyUtr

/-! ### The controller -/

/-- The first TD of an ED goes to the controller's list. -/
theorem Inv.retired (h : Inv ep0 σ L rem) {e t : ℕ} (td : TD_T) (halted toggleCarry : Bool)
    (ht : (σ.drv.ed e).HeadP = some t) (hl : σ.drv.linked e = true) (htail : (σ.drv.ed e).TailP ≠ some t) :
    ∃ L', Inv ep0 (σ.retired e t td halted toggleCarry) L' rem := by
  obtain ⟨o₀, ho₀, he₀⟩ := (linked_iff h.lists h.length_le e).mp hl
  have hq := h.queue (Place.ofED_of_scheduled ho₀) he₀
  rw [ht] at hq
  obtain ⟨q, hLq⟩ : ∃ q, L (.queue e) = t :: q := by
    cases hL : L (.queue e) with
    | nil =>
      rw [hL] at hq
      cases hq
    | cons a q =>
      rw [hL] at hq
      obtain rfl := Option.some_inj.mp hq.1
      exact ⟨q, rfl⟩
  rw [hLq] at hq
  have htq : t ∈ L (.queue e) := hLq ▸ List.mem_cons_self
  obtain ⟨htnot, hqd⟩ := List.nodup_cons.mp (hLq ▸ h.nodup (.queue e))
  set L' := Function.update (Function.update L (.queue e) q) .pending (t :: L .pending) with hL'
  have hpending : L' .pending = t :: L .pending := Function.update_self _ _ _
  have hqueue : L' (.queue e) = q := by
    rw [hL', Function.update_of_ne Place.noConfusion, Function.update_self]
  have hother : ∀ o, o ≠ .pending → o ≠ .queue e → L' o = L o := by
    intro o h₁ h₂
    rw [hL', Function.update_of_ne h₁, Function.update_of_ne h₂]
  have hED : ∀ o : Place, o.ofED = true → L' o = L o := by
    intro o ho
    refine hother o ?_ ?_
    · rintro rfl
      cases ho
    · rintro rfl
      cases ho
  have hmem : ∀ {o a}, a ∈ L' o → a ≠ t ∧ a ∈ L o ∨ a = t ∧ o = .pending := by
    intro o a ha
    by_cases hp : o = .pending
    · rw [hp, hpending] at ha
      rcases List.mem_cons.mp ha with hat | ha'
      · exact Or.inr ⟨hat, hp⟩
      · refine Or.inl ⟨?_, hp ▸ ha'⟩
        rintro rfl
        exact Place.noConfusion (h.once ha' htq)
    · by_cases hqe : o = .queue e
      · rw [hqe, hqueue] at ha
        refine Or.inl ⟨fun hat => htnot (hat ▸ ha), ?_⟩
        rw [hqe, hLq]
        exact List.mem_cons_of_mem t ha
      · rw [hother o hp hqe] at ha
        refine Or.inl ⟨?_, ha⟩
        rintro rfl
        exact hqe (h.once ha htq)
  set s' := (σ.retired e t td halted toggleCarry).drv with hs'
  have htd_t : s'.NextTD t = σ.HcDoneHead := by
    rw [hs', World.retired, setTD_NextTD, Function.update_self]
  have htd : ∀ a ≠ t, s'.NextTD a = σ.drv.NextTD a := by
    intro a ha
    rw [hs', World.retired, setTD_NextTD, Function.update_of_ne ha]
    rfl
  have hlinks : ∀ {l : List ℕ} {b : Option ℕ}, t ∉ l → Links σ.drv.NextTD b l none →
      Links s'.NextTD b l none := fun hnot hl =>
    (Links.congr fun a ha => htd a fun hat => hnot (hat ▸ ha)).mpr hl
  have hed_e : (s'.ed e).HeadP = σ.drv.NextTD t :=
    congrArg ED_T.HeadP (Function.update_self e _ σ.drv.ed)
  have hed : ∀ a ≠ e, s'.ed a = σ.drv.ed a := fun a ha => Function.update_of_ne ha _ σ.drv.ed
  have hsame : ∀ a, (s'.ed a).NextED = (σ.drv.ed a).NextED ∧ (s'.ed a).Info = (σ.drv.ed a).Info ∧
      (s'.ed a).TailP = (σ.drv.ed a).TailP ∧ (s'.ed a).bInterval = (σ.drv.ed a).bInterval ∧
      (s'.ed a).next = (σ.drv.ed a).next := by
    intro a
    by_cases ha : a = e
    · rw [ha, show s'.ed e = _ from Function.update_self e _ σ.drv.ed]
      exact ⟨rfl, rfl, rfl, rfl, rfl⟩
    · rw [hed a ha]
      exact ⟨rfl, rfl, rfl, rfl, rfl⟩
  have hNextED : s'.NextED = σ.drv.NextED := funext fun a => (hsame a).1
  have hnext : s'.next = σ.drv.next := funext fun a => (hsame a).2.2.2.2
  have hnode : ∀ a, s'.node a = σ.drv.node a := by
    intro a
    rw [State.node, State.node, get_int_tree_head_node, get_int_tree_head_node, (hsame a).2.2.2.1]
    rfl
  refine ⟨L', ?_⟩
  constructor
  · constructor
    · constructor
      · intro o
        by_cases hp : o = .pending
        · rw [hp, hpending]
          exact List.nodup_cons.mpr ⟨fun hm => Place.noConfusion (h.once hm htq), h.nodup _⟩
        · by_cases hqe : o = .queue e
          · rw [hqe, hqueue]
            exact hqd
          · rw [hother o hp hqe]
            exact h.nodup o
      · intro o₁ o₂ a h₁ h₂
        rcases hmem h₁ with ⟨hne, h₁⟩ | ⟨hat, h₁⟩
        · rcases hmem h₂ with ⟨-, h₂⟩ | ⟨hat, -⟩
          · exact h.once h₁ h₂
          · exact absurd hat hne
        · rcases hmem h₂ with ⟨hne, -⟩ | ⟨-, h₂⟩
          · exact absurd hat hne
          · rw [h₁, h₂]
      · intro o a ha
        rcases hmem ha with ⟨-, ha⟩ | ⟨rfl, -⟩
        · exact h.pool ha
        · exact h.pool htq
      · intro o ho
        have hhead : s'.head o = σ.drv.head o := by cases o <;> rfl
        rw [hED o (Place.ofED_of_scheduled ho), hNextED, hhead]
        exact h.lists o ho
      · intro o a ho ha
        rw [hED o ho] at ha
        by_cases hae : a = e
        · subst hae
          rw [hqueue, hed_e]
          exact hlinks htnot hq.2
        · have hne : Place.queue a ≠ .queue e := fun hh => hae (Place.queue.inj hh)
          rw [hother _ Place.noConfusion hne, hed a hae]
          exact hlinks (fun hm => hne (h.once hm htq)) (h.queue ho ha)
      · rw [hother _ Place.noConfusion Place.noConfusion]
        exact hlinks (fun hm => Place.noConfusion (h.once hm htq)) h.done
      · rw [hnext]
        exact h.remove
      · exact h.rem_nodup
      · intro a ha
        obtain ⟨o, ho, hao⟩ := h.rem_ed a ha
        exact ⟨o, ho, by rw [hED o ho]; exact hao⟩
      · rw [hED _ rfl]
        exact h.nodes
      · intro a ha hnot
        rw [hED _ rfl] at ha ⊢
        rw [hnode]
        exact h.below a ha hnot
      · intro a ha
        rw [hED _ rfl] at ha
        rw [(hsame a).2.1]
        exact h.number a ha
      · intro a ha
        rw [hED _ rfl] at ha
        rw [(hsame a).2.2.2.1]
        exact h.plain a ha
    · intro a ha hu
      obtain ⟨o, hao⟩ := h.all a ha hu
      by_cases hat : a = t
      · exact ⟨.pending, by rw [hpending, hat]; exact List.mem_cons_self⟩
      · by_cases hp : o = .pending
        · exact ⟨.pending, by rw [hpending]; exact List.mem_cons_of_mem t (hp ▸ hao)⟩
        · by_cases hqe : o = .queue e
          · rw [hqe, hLq] at hao
            exact ⟨.queue e, by rw [hqueue]; exact (List.mem_cons.mp hao).resolve_left hat⟩
          · exact ⟨o, by rw [hother o hp hqe]; exact hao⟩
    · intro a b hb
      rcases hmem hb with ⟨-, hb⟩ | ⟨-, hb⟩
      · obtain ⟨o, ho, hao⟩ := h.owned hb
        exact ⟨o, ho, by rw [hED o ho]; exact hao⟩
      · cases hb
    · rw [hpending]
      refine ⟨rfl, ?_⟩
      rw [htd_t]
      exact hlinks (fun hm => Place.noConfusion (h.once hm htq)) h.pending
    · rw [hED _ rfl]
      exact h.held
    · intro p a hp
      obtain ⟨hnot, o, ho, hao⟩ := h.pipes hp
      exact ⟨hnot, o, ho, by rw [hED o ho]; exact hao⟩
    · exact h.only
    · exact h.clean
  · intro o a ho ha
    rw [hED o ho] at ha
    have htl := h.tailed ho ha
    by_cases hae : a = e
    · subst hae
      constructor
      · rw [(hsame a).2.2.1]
        exact htl.other
      · intro t' ht'
        rw [(hsame a).2.2.1] at ht'
        obtain ⟨l, hl⟩ := htl.last t' ht'
        rw [hLq] at hl
        cases l with
        | nil => exact absurd (ht'.trans (congrArg some (List.cons.inj hl).1.symm)) htail
        | cons b l => exact ⟨l, by rw [hqueue]; exact (List.cons.inj hl).2⟩
      · rw [(hsame a).2.1, (hsame a).2.2.1]
        exact htl.iso
      · rw [(hsame a).2.1, (hsame a).2.2.1]
        exact htl.int
    · have hne : Place.queue a ≠ .queue e := fun hh => hae (Place.queue.inj hh)
      rw [hother _ Place.noConfusion hne, hed a hae]
      exact htl
  · intro a ha
    rw [(hsame a).2.1]
    exact h.skipped a ha
  · intro i hi
    rw [(hsame _).2.1]
    exact h.nodes_skipped i hi
  · intro p a o hp ho ha
    rw [hED o ho] at ha
    rw [(hsame a).2.1]
    exact h.named hp ho ha
  · intro o a ho ha
    rw [hED o (by rcases ho with rfl | rfl <;> rfl)] at ha
    exact h.holder ho ha
  · rw [hED _ rfl]
    exact h.tree.congr rfl fun a _ => (hsame a).2.2.2.1
  · exact h.first

/-- The controller's list becomes the done list. -/
theorem Inv.handOver (h : Inv ep0 σ L rem) (hnone : σ.drv.done_head = none) :
    Inv ep0 ⟨{ σ.drv with done_head := σ.HcDoneHead }, none⟩ (L ∘ Equiv.swap .done .pending) rem := by
  have hdone : L .done = [] := by
    have hl := h.done
    rw [hnone] at hl
    cases hL : L .done with
    | nil => rfl
    | cons a l =>
      rw [hL] at hl
      exact nomatch hl.1
  have hED : ∀ o : Place, o.ofED = true → (L ∘ Equiv.swap .done .pending) o = L o := by
    intro o ho
    rw [Function.comp_apply, Equiv.swap_apply_of_ne_of_ne]
    · rintro rfl
      cases ho
    · rintro rfl
      cases ho
  have hqueue : ∀ e, (L ∘ Equiv.swap .done .pending) (.queue e) = L (.queue e) := fun e => by
    rw [Function.comp_apply, Equiv.swap_apply_of_ne_of_ne Place.noConfusion Place.noConfusion]
  constructor
  · constructor
    · constructor
      · exact fun o => h.nodup _
      · exact fun ha ha' => (Equiv.swap Place.done .pending).injective (h.once ha ha')
      · exact fun ha => h.pool ha
      · intro o ho
        rw [hED o (Place.ofED_of_scheduled ho)]
        have hl := h.lists o ho
        match o with
        | .control | .bulk | .ints => exact hl
      · intro o e ho he
        rw [hED o ho] at he
        rw [hqueue]
        exact h.queue ho he
      · rw [Function.comp_apply, Equiv.swap_apply_left]
        exact h.pending
      · exact h.remove
      · exact h.rem_nodup
      · intro a ha
        obtain ⟨o, ho, hao⟩ := h.rem_ed a ha
        exact ⟨o, ho, by rw [hED o ho]; exact hao⟩
      · rw [hED _ rfl]
        exact h.nodes
      · rw [hED _ rfl]
        exact h.below
      · rw [hED _ rfl]
        exact h.number
      · rw [hED _ rfl]
        exact h.plain
    · intro a ha hu
      obtain ⟨o, hao⟩ := h.all a ha hu
      refine ⟨Equiv.swap .done .pending o, ?_⟩
      rw [Function.comp_apply, Equiv.swap_apply_self]
      exact hao
    · intro a b hb
      rw [hqueue] at hb
      obtain ⟨o, ho, hao⟩ := h.owned hb
      exact ⟨o, ho, by rw [hED o ho]; exact hao⟩
    · rw [Function.comp_apply, Equiv.swap_apply_right, hdone]
      rfl
    · rw [hED _ rfl]
      exact h.held
    · intro p a hp
      obtain ⟨hnot, o, ho, hao⟩ := h.pipes hp
      exact ⟨hnot, o, ho, by rw [hED o ho]; exact hao⟩
    · exact h.only
    · exact h.clean
  · intro o a ho ha
    rw [hED o ho] at ha
    rw [hqueue]
    exact h.tailed ho ha
  · exact h.skipped
  · exact h.nodes_skipped
  · intro p a o hp ho ha
    rw [hED o ho] at ha
    exact h.named hp ho ha
  · intro o a ho ha
    rw [hED o (by rcases ho with rfl | rfl <;> rfl)] at ha
    exact h.holder ho ha
  · rw [hED _ rfl]
    exact h.tree.congr rfl fun _ _ => rfl
  · exact h.first

/-! ### Interrupts -/

/-- The first ED of the removal list gone, every unit in use has its place still: its TDs are given
back with it, and an ED on none of the lists has none. -/
theorem Layout.removeFirst_all {e : ℕ} (h : Layout s L (e :: rem)) (hs : Sought s L e)
    (hloose : e ∈ L .loose → L (.queue e) = [])
    (hall : ∀ t < MEM_POOL_UNIT_NUM, s.unit_used t = true → ∃ o, t ∈ L o) :
    ∀ t < MEM_POOL_UNIT_NUM, (removeFirst s e).unit_used t = true → ∃ o, t ∈ without L [e] o := by
  obtain ⟨o₁, ho₁, heo₁⟩ := h.rem_ed e List.mem_cons_self
  obtain ⟨s₁, utr, tds, -, htds, heq⟩ := h.removeFirst_eq hs
  intro t ht hu
  rw [heq] at hu
  dsimp only at hu
  have hte : t ≠ e := by
    rintro rfl
    rw [Function.update_self] at hu
    cases hu
  rw [Function.update_of_ne hte, Bool.and_eq_true, decide_eq_true_iff] at hu
  obtain ⟨o, hto⟩ := hall t ht hu.1
  refine ⟨o, ?_⟩
  by_cases ho : o.ofED = true
  · rw [without_singleton ho, List.mem_filter]
    exact ⟨hto, decide_eq_true hte⟩
  · cases o with
    | control => exact absurd rfl ho
    | bulk => exact absurd rfl ho
    | ints => exact absurd rfl ho
    | loose => exact absurd rfl ho
    | done => exact hto
    | pending => exact hto
    | queue a =>
      rw [without, if_neg]
      · exact hto
      · intro ha
        obtain rfl := List.mem_singleton.mp ha
        rcases htds with htds | ⟨-, hno⟩
        · exact hu.2 (htds ▸ hto)
        · have hl : a ∈ L .loose := by
            cases o₁ with
            | control => exact absurd heo₁ (hno _ rfl)
            | bulk => exact absurd heo₁ (hno _ rfl)
            | ints => exact absurd heo₁ (hno _ rfl)
            | loose => exact heo₁
            | queue _ => exact absurd ho₁ Bool.false_ne_true
            | done => exact absurd ho₁ Bool.false_ne_true
            | pending => exact absurd ho₁ Bool.false_ne_true
          rw [hloose hl] at hto
          cases hto

theorem Layout.removeLoop_all : ∀ {rem : List ℕ} {n : ℕ} {s : State} {L : Place → List ℕ}, Layout s L rem →
    rem.length ≤ n → (∀ e ∈ rem, Sought s L e) → (∀ e ∈ rem, e ∈ L .loose → L (.queue e) = []) →
    (∀ t < MEM_POOL_UNIT_NUM, s.unit_used t = true → ∃ o, t ∈ L o) →
    ∀ t < MEM_POOL_UNIT_NUM, (removeLoop n s).unit_used t = true → ∃ o, t ∈ without L rem o := by
  intro rem
  induction rem with
  | nil =>
    intro n s L h _ _ _ hall t ht hu
    have hnone : s.ed_remove_list = none := h.remove
    have hdone : removeLoop n s = s := by
      cases n with
      | zero => rfl
      | succ n => rw [removeLoop, hnone]
    rw [hdone] at hu
    rw [without_nil]
    exact hall t ht hu
  | cons e rem ih =>
    intro n s L h hn hs hloose hall
    obtain ⟨n, rfl⟩ := Nat.exists_eq_succ_of_ne_zero (Nat.ne_of_gt (Nat.zero_lt_of_lt hn))
    have hse := hs e List.mem_cons_self
    have hrel := h.removeFirst_relinked hse
    have hstep : removeLoop (n + 1) s = removeLoop n (removeFirst s e) := by
      rw [removeLoop, h.remove.1]
    rw [hstep, ← without_cons]
    refine ih (h.removeFirst_layout hse) (Nat.le_of_succ_le_succ hn) ?_ ?_ ?_
    · intro a ha o ho hao
      rw [hrel.sought]
      exact hs a (List.mem_cons_of_mem e ha) o ho (without_subset hao)
    · intro a ha hal
      have hnil := hloose a (List.mem_cons_of_mem e ha) (without_subset hal)
      exact List.subset_nil.mp (hnil ▸ without_subset)
    · exact h.removeFirst_all hse (hloose e List.mem_cons_self) hall

/-- The nodes are not to be removed. -/
theorem Tree.filter {l : List ℕ} (h : Tree s l) (hnodes : ∀ i ≤ 5, s.Ied i ∈ L .ints ∧ s.Ied i ∉ rem) :
    Tree s (l.filter (· ∉ rem)) := by
  have hkeep : ∀ i ≤ 5, decide (s.Ied i ∉ rem) = true := fun i hi => decide_eq_true (hnodes i hi).2
  have hpair : ∀ {a i : ℕ}, decide (a ∉ rem) = true → i ≤ 5 → [a, s.Ied i].Sublist l →
      [a, s.Ied i].Sublist (l.filter (· ∉ rem)) := by
    intro a i ha hi hsub
    have hboth : [a, s.Ied i].filter (· ∉ rem) = [a, s.Ied i] := by
      refine List.filter_eq_self.mpr fun b hb => ?_
      rcases List.mem_pair.mp hb with rfl | rfl
      · exact ha
      · exact hkeep i hi
    exact hboth ▸ hsub.filter (· ∉ rem)
  constructor
  · intro i j hij hj
    exact hpair (hkeep j hj) (hij.le.trans hj) (h.nodes hij hj)
  · intro e he hnot i hi
    obtain ⟨hel, hrem⟩ := List.mem_filter.mp he
    exact hpair hrem (hi.le.trans (headLoop_le 5 0 _)) (h.above e hel hnot i hi)

theorem Log.clean {evs : List Event} {dones : List (ℕ × Bool)} {eds : List (ℕ × Bool × Bool)}
    (h : Log evs dones eds) (hdones : ∀ x ∈ dones, x.2 = true) (heds : ∀ x ∈ eds, x.2 = (true, false)) :
    ∀ ev ∈ evs, ev.Clean := by
  intro ev hev
  cases ev with
  | td_done t used =>
    refine hdones (t, used) ?_
    rw [← h.dones]
    exact List.mem_filterMap.mpr ⟨_, hev, rfl⟩
  | free_ohci_TD t used => exact h.tds t used hev
  | free_ohci_ED e used linked =>
    refine Prod.mk.inj (heds (e, used, linked) ?_)
    rw [← h.eds]
    exact List.mem_filterMap.mpr ⟨_, hev, rfl⟩

/-- The removal pass. -/
theorem Inv.remove_ed (h : Inv ep0 ⟨s, d⟩ L rem) (hgood : ∀ e ∈ rem, Removable s e)
    (hloose : ∀ e ∈ rem, s.linked e = false → (s.ed e).HeadP = none) :
    Inv ep0 ⟨remove_ed s, d⟩ (without L rem) [] := by
  have hlen : rem.length ≤ MEM_POOL_UNIT_NUM := length_le_pool h.rem_nodup fun e he => by
    obtain ⟨o, -, heo⟩ := h.rem_ed e he
    exact (h.pool heo).1
  have hsought : ∀ e ∈ rem, Sought s L e := fun e he => (h.toLayout.sought_iff e).mpr (hgood e he)
  have hempty : ∀ e ∈ rem, e ∈ L .loose → L (.queue e) = [] := by
    intro e he hl
    have hnot : s.linked e = false := by
      rw [Bool.eq_false_iff]
      intro hlinked
      obtain ⟨o, ho, heo⟩ := (linked_iff h.lists h.length_le e).mp hlinked
      obtain rfl := h.once heo hl
      cases ho
    have hq := h.queue rfl hl
    dsimp only at hq
    rw [hloose e he hnot] at hq
    exact List.head?_eq_none_iff.mp hq.head_eq.symm
  obtain ⟨hlayout, hrel, evs, hevs, hlog⟩ := h.toLayout.removeLoop_eq hlen hsought
  have hall := h.toLayout.removeLoop_all hlen hsought hempty h.all
  change Layout (Ohci.remove_ed s) (without L rem) [] at hlayout
  change Relinked s (Ohci.remove_ed s) at hrel
  have hkept : ∀ {o : Place} {e : ℕ}, o.ofED = true → e ∈ without L rem o → e ∈ L o ∧ e ∉ rem := by
    intro o e ho he
    rw [without_of_ofED ho, List.mem_filter] at he
    exact ⟨he.1, of_decide_eq_true he.2⟩
  have hqueue : ∀ {e : ℕ}, e ∉ rem → without L rem (.queue e) = L (.queue e) := fun he => if_neg he
  constructor
  · constructor
    · exact hlayout
    · exact hall
    · intro e t ht
      by_cases hrem : e ∈ rem
      · rw [without, if_pos hrem] at ht
        cases ht
      · rw [hqueue hrem] at ht
        obtain ⟨o, ho, heo⟩ := h.owned ht
        refine ⟨o, ho, ?_⟩
        rw [without_of_ofED ho, List.mem_filter]
        exact ⟨heo, decide_eq_true hrem⟩
    · refine (Links.congr fun t _ => ?_).mpr h.pending
      rw [State.NextTD, State.NextTD, hrel.td]
    · intro e he
      obtain ⟨hel, hnot⟩ := hkept rfl he
      rcases h.held e hel with hr | hp
      · exact absurd hr hnot
      · exact Or.inr (by rw [hrel.ep]; exact hp)
    · intro p e hp
      dsimp only at hp
      rw [hrel.ep] at hp
      obtain ⟨hnot, o, ho, heo⟩ := h.pipes hp
      refine ⟨List.not_mem_nil, o, ho, ?_⟩
      rw [without_of_ofED ho, List.mem_filter]
      exact ⟨heo, decide_eq_true hnot⟩
    · intro p p' e hp hp'
      dsimp only at hp hp'
      rw [hrel.ep] at hp hp'
      exact h.only hp hp'
    · intro ev hev
      dsimp only at hev
      rw [Ohci.remove_ed, hevs, List.mem_append] at hev
      rcases hev with hev | hev
      · exact h.clean ev hev
      · refine hlog.clean (by simp) ?_ ev hev
        intro x hx
        obtain ⟨e, -, rfl⟩ := List.mem_map.mp hx
        rfl
  · intro o e ho he
    obtain ⟨heo, hnot⟩ := hkept ho he
    have ht := h.tailed ho heo
    rw [hqueue hnot]
    dsimp only
    rw [hrel.ed e]
    exact ⟨ht.other, ht.last, ht.iso, ht.int⟩
  · exact fun e he => absurd he List.not_mem_nil
  · intro i hi
    dsimp only
    rw [hrel.Ied, hrel.ed]
    exact h.nodes_skipped i hi
  · intro p e o hp ho he
    dsimp only at hp ⊢
    rw [hrel.ep] at hp
    rw [hrel.ed e]
    exact h.named hp ho (hkept ho he).1
  · intro o e ho he
    have hED : o.ofED = true := by
      rcases ho with rfl | rfl
      · rfl
      · rfl
    obtain ⟨heo, hnot⟩ := hkept hED he
    rcases h.holder ho heo with hr | hp
    · exact absurd hr hnot
    · exact Or.inr (by dsimp only; rw [hrel.ep]; exact hp)
  · rw [without_of_ofED rfl]
    refine (h.tree.filter h.nodes).congr hrel.Ied fun e _ => ?_
    dsimp only
    rw [hrel.ed e]
  · dsimp only
    rw [hrel.Ied]
    exact h.first

/-- The done-queue pass. -/
theorem Inv.reclaim (h : Inv ep0 ⟨s, d⟩ L rem) :
    Inv ep0 ⟨reclaim s, d⟩ (Function.update L .done []) rem := by
  have hlayout := h.toLayout.reclaim_layout
  obtain ⟨td, utr, heq, htd⟩ := h.toLayout.reclaim_eq
  have hother : ∀ {o : Place}, o ≠ .done → Function.update L .done [] o = L o :=
    fun ho => Function.update_of_ne ho _ _
  have hED : ∀ {o : Place}, o.ofED = true → Function.update L .done [] o = L o := by
    intro o ho
    refine hother ?_
    rintro rfl
    cases ho
  rw [heq] at hlayout ⊢
  constructor
  · constructor
    · exact hlayout
    · intro t ht hu
      dsimp only at hu
      rw [Bool.and_eq_true, decide_eq_true_iff] at hu
      obtain ⟨o, hto⟩ := h.all t ht hu.1
      refine ⟨o, ?_⟩
      rw [hother]
      · exact hto
      · rintro rfl
        exact hu.2 hto
    · intro e t ht
      rw [hother Place.noConfusion] at ht
      obtain ⟨o, ho, heo⟩ := h.owned ht
      exact ⟨o, ho, by rw [hED ho]; exact heo⟩
    · rw [hother Place.noConfusion]
      refine (Links.congr fun t ht => ?_).mpr h.pending
      exact congrArg TD_T.NextTD (htd t fun hd => Place.noConfusion (h.once ht hd))
    · rw [hED rfl]
      exact h.held
    · intro p e hp
      obtain ⟨hnot, o, ho, heo⟩ := h.pipes hp
      exact ⟨hnot, o, ho, by rw [hED ho]; exact heo⟩
    · exact h.only
    · intro ev hev
      dsimp only at hev
      rcases List.mem_append.mp hev with hev | hev
      · exact h.clean ev hev
      · refine (Log.retirements (L .done).reverse).clean ?_ (by simp) ev hev
        intro x hx
        obtain ⟨t, -, rfl⟩ := List.mem_map.mp hx
        rfl
  · intro o e ho he
    rw [hED ho] at he
    rw [hother Place.noConfusion]
    exact h.tailed ho he
  · exact h.skipped
  · exact h.nodes_skipped
  · intro p e o hp ho he
    rw [hED ho] at he
    exact h.named hp ho he
  · intro o e ho he
    rw [hED (by rcases ho with rfl | rfl <;> rfl)] at he
    exact h.holder ho he
  · rw [hED rfl]
    exact h.tree.congr rfl fun _ _ => rfl
  · exact h.first

theorem Inv.irq (h : Inv ep0 ⟨s, d⟩ L rem) (SF WDH : Bool)
    (hgood : SF = true → ∀ e ∈ rem, Removable s e ∧ (s.linked e = false → (s.ed e).HeadP = none)) :
    ∃ L' rem', Inv ep0 ⟨USBH_IRQHandler s SF WDH, d⟩ L' rem' := by
  have hpass : ∃ L' rem', Inv ep0 ⟨if SF = true then Ohci.remove_ed s else s, d⟩ L' rem' := by
    cases SF with
    | false => exact ⟨L, rem, h⟩
    | true => exact ⟨_, _, h.remove_ed (fun e he => (hgood rfl e he).1) fun e he => (hgood rfl e he).2⟩
  obtain ⟨L', rem', h'⟩ := hpass
  unfold USBH_IRQHandler
  cases WDH with
  | false => exact ⟨L', rem', h'⟩
  | true => exact ⟨_, _, h'.reclaim⟩

end

end Ohci
