/-
The interrupt handler.

* `handled_iff` — one run of the handler retires the done list in order and takes the
  removed endpoints out of the schedule before it frees them exactly when each of them is
  on the list that its endpoint number and its interval select.
-/
import NuMaker.Ohci.Removal

namespace Ohci

/-! ### The done list -/

/-- The loop reverses the links of the TDs of `l` and puts them in front of `l'`. -/
theorem reverseLoop_eq : ∀ {l l' : List ℕ} {n : ℕ} {s : State} {h prev : Option ℕ},
    Links s.NextTD h l none → Links s.NextTD prev l' none → (l.reverse ++ l').Nodup → l.length ≤ n →
    ∃ td, (reverseLoop n s h prev).1 = { s with td := td } ∧
      Links (fun t => (td t).NextTD) (reverseLoop n s h prev).2 (l.reverse ++ l') none ∧
      ∀ t ∉ l, td t = s.td t := by
  intro l
  induction l with
  | nil =>
    intro l' n s h prev hl hl' _ _
    obtain rfl : h = none := hl
    have hnone : reverseLoop n s none prev = (s, prev) := by
      cases n with
      | zero => rfl
      | succ n => rfl
    rw [hnone]
    exact ⟨s.td, rfl, hl', fun _ _ => rfl⟩
  | cons a l ih =>
    intro l' n s h prev hl hl' hd hn
    obtain ⟨rfl, hl⟩ := hl
    obtain ⟨n, rfl⟩ := Nat.exists_eq_succ_of_ne_zero (Nat.ne_of_gt (Nat.zero_lt_of_lt hn))
    rw [List.reverse_cons, List.append_assoc, List.singleton_append] at hd ⊢
    have hal : a ∉ l := fun ha =>
      (List.nodup_append.mp hd).2.2 a (List.mem_reverse.mpr ha) a List.mem_cons_self rfl
    have hal' : a ∉ l' := (List.nodup_cons.mp (List.nodup_append.mp hd).2.1).1
    have hN := setTD_NextTD s a { s.td a with NextTD := prev }
    rw [reverseLoop]
    -- `a` leads back to what is reversed already
    obtain ⟨td, heq, hlinks, htd⟩ := ih (s := s.setTD a { s.td a with NextTD := prev }) (h := s.NextTD a)
      (by rw [hN]; exact (Links.update_iff hal _).mpr hl) (by rw [hN]; exact Links.push hl' hal') hd
      (Nat.le_of_succ_le_succ hn)
    refine ⟨td, heq, hlinks, ?_⟩
    intro t ht
    rw [List.mem_cons, not_or] at ht
    rw [htd t ht.2, setTD_td, Function.update_of_ne ht.1]

theorem td_done_eq (s : State) (t : ℕ) : ∃ utr, td_done s t = { s with
    utr := utr
    events := s.events ++ [.td_done t (s.unit_used t)] } := by
  unfold td_done
  dsimp only
  split
  · exact ⟨_, rfl⟩
  · exact ⟨s.utr, rfl⟩

/-- What happens to the TDs `l`. -/
def retirements (l : List ℕ) : List Event := l.flatMap fun t => [.td_done t true, .free_ohci_TD t true]

theorem reclaimLoop_eq : ∀ {l : List ℕ} {n : ℕ} {s : State} {h : Option ℕ}, Links s.NextTD h l none →
    l.length ≤ n → l.Nodup → (∀ t ∈ l, s.unit_used t = true) →
    ∃ utr, reclaimLoop n s h = { s with
      unit_used := fun t => s.unit_used t && decide (t ∉ l)
      utr := utr
      events := s.events ++ retirements l } := by
  intro l
  induction l with
  | nil =>
    intro n s h hl _ _ _
    obtain rfl : h = none := hl
    refine ⟨s.utr, ?_⟩
    cases n with
    | zero => simp [reclaimLoop, retirements]
    | succ n => simp [reclaimLoop, retirements]
  | cons a l ih =>
    intro n s h hl hn hd hu
    obtain ⟨rfl, hl⟩ := hl
    obtain ⟨hal, hd⟩ := List.nodup_cons.mp hd
    obtain ⟨n, rfl⟩ := Nat.exists_eq_succ_of_ne_zero (Nat.ne_of_gt (Nat.zero_lt_of_lt hn))
    obtain ⟨utr, hdone⟩ := td_done_eq s a
    have hused := hu a List.mem_cons_self
    have hone : free_ohci_TD (td_done s a) (some a) = { s with
        unit_used := Function.update s.unit_used a false
        utr := utr
        events := s.events ++ [.td_done a true, .free_ohci_TD a true] } := by
      rw [hdone, free_ohci_TD]
      simp only [hused, List.append_assoc, List.singleton_append]
    have hu' : ∀ t ∈ l, Function.update s.unit_used a false t = true := by
      intro t ht
      rw [Function.update_of_ne fun hta : t = a => hal (hta ▸ ht)]
      exact hu t (List.mem_cons_of_mem a ht)
    have hfree : (fun t => Function.update s.unit_used a false t && decide (t ∉ l)) =
        fun t => s.unit_used t && decide (t ∉ a :: l) := by
      funext t
      by_cases hta : t = a
      · subst hta
        simp
      · simp [hta]
    obtain ⟨utr', heq⟩ := ih (s := { s with
      unit_used := Function.update s.unit_used a false
      utr := utr
      events := s.events ++ [.td_done a true, .free_ohci_TD a true] }) hl (Nat.le_of_succ_le_succ hn) hd hu'
    refine ⟨utr', ?_⟩
    rw [reclaimLoop, hone]
    refine heq.trans ?_
    rw [hfree, retirements, retirements, List.flatMap_cons, List.append_assoc]

theorem Log.retirements (l : List ℕ) : Log (retirements l) (l.map fun t => (t, true)) [] := by
  induction l with
  | nil => exact Log.nil
  | cons a l ih =>
    have hone : Log [.td_done a true, .free_ohci_TD a true] [(a, true)] [] :=
      ⟨rfl, rfl, by simp⟩
    exact hone.append ih

/-- The done-queue pass empties the done list. -/
theorem Layout.reclaim_eq {s : State} {L : Place → List ℕ} {rem : List ℕ} (h : Layout s L rem) :
    ∃ td utr, reclaim s = { s with
        unit_used := fun t => s.unit_used t && decide (t ∉ L .done)
        td := td
        done_head := none
        utr := utr
        events := s.events ++ retirements (L .done).reverse } ∧
      ∀ t ∉ L .done, td t = s.td t := by
  have hlen := h.length_le .done
  have hd := h.nodup .done
  obtain ⟨td, heq, hlinks, htd⟩ := reverseLoop_eq (s := { s with done_head := none }) (n := MEM_POOL_UNIT_NUM)
    h.done (show Links _ none [] none from rfl) (by simpa using hd) hlen
  rw [List.append_nil] at hlinks
  obtain ⟨utr, hrec⟩ := reclaimLoop_eq (s := { s with done_head := none, td := td }) (n := MEM_POOL_UNIT_NUM)
    hlinks (by simpa using hlen) (by simpa using hd) fun t ht => (h.pool (List.mem_reverse.mp ht)).2
  refine ⟨td, utr, ?_, htd⟩
  rw [reclaim, heq, hrec]
  simp only [List.mem_reverse]

theorem Layout.reclaim_layout {s : State} {L : Place → List ℕ} {rem : List ℕ} (h : Layout s L rem) :
    Layout (reclaim s) (Function.update L .done []) rem := by
  obtain ⟨td, utr, heq, htd⟩ := h.reclaim_eq
  have hsub : ∀ {o t}, t ∈ Function.update L .done [] o → t ∈ L o ∧ o ≠ .done := by
    intro o t ht
    by_cases ho : o = .done
    · subst ho
      simp at ht
    · rw [Function.update_of_ne ho] at ht
      exact ⟨ht, ho⟩
  have hED : ∀ {o : Place}, o.ofED = true → Function.update L .done [] o = L o := by
    rintro o ho
    exact Function.update_of_ne (by rintro rfl; cases ho) _ _
  have hints : Function.update L .done [] .ints = L .ints := hED rfl
  rw [heq]
  constructor
  · intro o
    by_cases ho : o = .done
    · subst ho
      rw [Function.update_self]
      exact List.nodup_nil
    · rw [Function.update_of_ne ho]
      exact h.nodup o
  · exact fun ht ht' => h.once (hsub ht).1 (hsub ht').1
  · intro o t ht
    obtain ⟨ht, ho⟩ := hsub ht
    obtain ⟨hlt, hu⟩ := h.pool ht
    have hnot : t ∉ L .done := fun hd => ho (h.once ht hd)
    exact ⟨hlt, by simp [hu, hnot]⟩
  · intro o ho
    rw [hED (Place.ofED_of_scheduled ho)]
    have hhead := h.lists o ho
    match o with
    | .control | .bulk | .ints => exact hhead
  · intro o e ho he
    rw [hED ho] at he
    rw [Function.update_of_ne (show Place.queue e ≠ .done from Place.noConfusion)]
    refine (Links.congr ?_).mpr (h.queue ho he)
    intro t ht
    have hnot : t ∉ L .done := fun hd => Place.noConfusion (h.once ht hd)
    exact congrArg TD_T.NextTD (htd t hnot)
  · rw [Function.update_self]
    rfl
  · exact h.remove
  · exact h.rem_nodup
  · intro e he
    obtain ⟨o, ho, heo⟩ := h.rem_ed e he
    exact ⟨o, ho, by rw [hED ho]; exact heo⟩
  · rw [hints]
    exact h.nodes
  · rw [hints]
    exact h.below
  · rw [hED rfl]
    exact h.number
  · rw [hED rfl]
    exact h.plain

/-! ### What has happened stays -/

theorem unlinkLoop_events {e : ℕ} : ∀ (n : ℕ) (s : State) (h : Option ℕ) (found : Bool),
    (unlinkLoop e n s h found).1.events = s.events := by
  intro n
  induction n with
  | zero => exact fun _ _ _ => rfl
  | succ n ih =>
    intro s h found
    cases h with
    | none => rfl
    | some a =>
      rw [unlinkLoop]
      split
      · exact ih _ _ _
      · exact ih _ _ _

theorem unlinkED_events (s : State) (e : ℕ) : (unlinkED s e).1.events = s.events := by
  unfold unlinkED
  split
  · split
    · rfl
    · exact unlinkLoop_events _ _ _ _
  · split
    · dsimp only
      split
      · rfl
      · rfl
    · split
      · rfl
      · exact unlinkLoop_events _ _ _ _

theorem removeTDs_events : ∀ (n : ℕ) (s : State) (h : Option ℕ), s.events <+: (removeTDs n s h).events := by
  intro n
  induction n with
  | zero => exact fun _ _ => List.prefix_refl _
  | succ n ih =>
    intro s h
    cases h with
    | none => exact List.prefix_refl _
    | some a =>
      rw [removeTDs]
      refine List.IsPrefix.trans ?_ (ih _ _)
      cases (s.td a).utr with
      | none => exact List.prefix_append _ _
      | some u => exact List.prefix_append _ _

theorem removeFirst_events (s : State) (e : ℕ) : s.events <+: (removeFirst s e).events := by
  have hfree : ∀ σ : State, σ.events <+: (free_ohci_ED σ e).events := fun _ => List.prefix_append _ _
  have hun : s.events <+: (unlinkED s e).1.events := by rw [unlinkED_events]
  unfold removeFirst
  dsimp only
  refine List.IsPrefix.trans ?_ (hfree _)
  split
  · exact hun.trans (removeTDs_events _ _ _)
  · exact hun

theorem removeLoop_events : ∀ (n : ℕ) (s : State), s.events <+: (removeLoop n s).events := by
  intro n
  induction n with
  | zero => exact fun _ => List.prefix_refl _
  | succ n ih =>
    intro s
    rw [removeLoop]
    split
    · exact (removeFirst_events s _).trans (ih _)
    · exact List.prefix_refl _

theorem reverseLoop_events : ∀ (n : ℕ) (s : State) (h prev : Option ℕ),
    (reverseLoop n s h prev).1.events = s.events := by
  intro n
  induction n with
  | zero => exact fun _ _ _ => rfl
  | succ n ih =>
    intro s h prev
    cases h with
    | none => rfl
    | some a => exact ih _ _ _

theorem reclaimLoop_events : ∀ (n : ℕ) (s : State) (h : Option ℕ),
    s.events <+: (reclaimLoop n s h).events := by
  intro n
  induction n with
  | zero => exact fun _ _ => List.prefix_refl _
  | succ n ih =>
    intro s h
    cases h with
    | none => exact List.prefix_refl _
    | some a =>
      obtain ⟨utr, hdone⟩ := td_done_eq s a
      rw [reclaimLoop]
      refine List.IsPrefix.trans ?_ (ih _ _)
      rw [hdone]
      exact (List.prefix_append _ _).trans (List.prefix_append _ _)

theorem reclaim_events (s : State) : s.events <+: (reclaim s).events := by
  rw [reclaim]
  refine List.IsPrefix.trans ?_ (reclaimLoop_events _ _ _)
  rw [reverseLoop_events]

/-- If an ED is on another list than the one searched for it, it is freed while linked. -/
theorem Layout.removeLoop_linked : ∀ {rem : List ℕ} {n : ℕ} {s : State} {L : Place → List ℕ},
    Layout s L rem → rem.length ≤ n → ¬ (∀ e ∈ rem, Sought s L e) →
    ∃ evs e, (removeLoop n s).events = s.events ++ evs ∧ .free_ohci_ED e true true ∈ evs := by
  intro rem
  induction rem with
  | nil =>
    intro n s L _ _ hbad
    exact absurd (fun e he => absurd he List.not_mem_nil) hbad
  | cons e rem ih =>
    intro n s L h hn hbad
    obtain ⟨n, rfl⟩ := Nat.exists_eq_succ_of_ne_zero (Nat.ne_of_gt (Nat.zero_lt_of_lt hn))
    have hstep : removeLoop (n + 1) s = removeLoop n (removeFirst s e) := by
      rw [removeLoop, h.remove.1]
    obtain ⟨hrem, -⟩ := List.nodup_cons.mp h.rem_nodup
    rw [hstep]
    by_cases hse : Sought s L e
    · -- the first one goes well, another does not
      have hbad' : ¬ ∀ a ∈ rem, Sought (removeFirst s e) (without L [e]) a := by
        intro hall
        refine hbad fun a ha => ?_
        rcases List.mem_cons.mp ha with rfl | ha
        · exact hse
        · intro o ho hao
          rw [← (h.removeFirst_relinked hse).sought]
          refine hall a ha o ho ?_
          rw [without_singleton (Place.ofED_of_scheduled ho), List.mem_filter]
          exact ⟨hao, decide_eq_true fun hae => hrem (hae ▸ ha)⟩
      obtain ⟨evs, a, hevs, hmem⟩ := ih (h.removeFirst_layout hse) (Nat.le_of_succ_le_succ hn) hbad'
      obtain ⟨evs₁, hevs₁⟩ := removeFirst_events s e
      refine ⟨evs₁ ++ evs, a, ?_, List.mem_append_right _ hmem⟩
      rw [hevs, ← hevs₁, List.append_assoc]
    · obtain ⟨o, ho, he, hne⟩ : ∃ o, o.scheduled = true ∧ e ∈ L o ∧ o ≠ s.sought e := by
        by_contra hno
        refine hse fun o ho he => ?_
        by_contra hne
        exact hno ⟨o, ho, he, hne⟩
      obtain ⟨evs, hevs⟩ := removeLoop_events n (removeFirst s e)
      refine ⟨.free_ohci_ED e true true :: evs, e, ?_, List.mem_cons_self⟩
      rw [← hevs, h.removeFirst_linked ho he hne, List.append_assoc, List.singleton_append]

/-! ### The handler -/

/-- The handler has done its work: the TDs of the done list are done with once each, in
the order in which they were completed, none of them freed before; each removed ED is
freed once, off every list; the other EDs are where they were, with their TDs. -/
structure Handled (s s' : State) (L : Place → List ℕ) (rem : List ℕ) (SF WDH : Bool) : Prop where
  log : Log (s'.events.drop s.events.length)
    (if WDH then (L .done).reverse.map fun t => (t, true) else [])
    (if SF then rem.map fun e => (e, true, false) else [])
  lists : ∀ o, o.scheduled = true →
    Links s'.NextED (s'.head o) ((L o).filter fun e => SF = false ∨ e ∉ rem) none
  queues : ∀ o e, o.ofED = true → e ∈ L o → (SF = false ∨ e ∉ rem) →
    (s'.ed e).HeadP = (s.ed e).HeadP ∧ Links s'.NextTD (s'.ed e).HeadP (L (.queue e)) none
  done : s'.done_head = if WDH then none else s.done_head
  removed : s'.ed_remove_list = if SF then none else s.ed_remove_list

/-- An ED on the bulk list or an interrupt list has an endpoint number, and on an
interrupt list an interval. -/
def Removable (s : State) (e : ℕ) : Prop :=
  (s.on .bulk e = true ∨ s.on .ints e = true → (s.ed e).Info &&& ED_EP_ADDR_Msk ≠ 0) ∧
    (s.on .ints e = true → (s.ed e).bInterval ≠ 0)

theorem Layout.sought_iff {s : State} {L : Place → List ℕ} {rem : List ℕ} (h : Layout s L rem) (e : ℕ) :
    Sought s L e ↔ Removable s e := by
  unfold Sought Removable State.sought
  rw [on_iff h.lists h.length_le (o := .bulk) rfl, on_iff h.lists h.length_le (o := .ints) rfl]
  constructor
  · intro hs
    constructor
    · rintro (he | he) h0
      · have := hs .bulk rfl he
        rw [if_pos h0] at this
        cases this
      · have := hs .ints rfl he
        rw [if_pos h0] at this
        cases this
    · intro he h0
      have := hs .ints rfl he
      have hpos : ¬ 0 < (s.ed e).bInterval := by
        rw [h0]
        decide
      rw [if_neg hpos] at this
      split at this
      · cases this
      · cases this
  · rintro ⟨hnumber, hint⟩ o ho he
    match o with
    | .control => rw [if_pos (h.number e he)]
    | .bulk =>
      have hpos : ¬ 0 < (s.ed e).bInterval := by
        rw [h.plain e he]
        decide
      rw [if_neg (hnumber (Or.inl he)), if_neg hpos]
    | .ints =>
      have hpos : 0 < (s.ed e).bInterval := by
        have := hint he
        bv_omega
      rw [if_neg (hnumber (Or.inr he)), if_pos hpos]

theorem drop_of_append {evs evs' l : List Event} (h : evs' = evs ++ l) : evs'.drop evs.length = l := by
  rw [h, List.drop_left]

/-- After the removal pass, if there is one. -/
structure Passed (s s₁ : State) (L L₁ : Place → List ℕ) (rem rem₁ : List ℕ) (SF : Bool) (evs : List Event) :
    Prop where
  layout : Layout s₁ L₁ rem₁
  relinked : Relinked s s₁
  events : s₁.events = s.events ++ evs
  log : Log evs [] (if SF then rem.map fun e => (e, true, false) else [])
  kept : ∀ o, o.ofED = true → L₁ o = (L o).filter fun e => SF = false ∨ e ∉ rem
  queue : ∀ e, SF = false ∨ e ∉ rem → L₁ (.queue e) = L (.queue e)
  done : L₁ .done = L .done
  removed : s₁.ed_remove_list = if SF then none else s.ed_remove_list

theorem Layout.removal_passed {s : State} {L : Place → List ℕ} {rem : List ℕ} (h : Layout s L rem) (SF : Bool)
    (hlen : rem.length ≤ MEM_POOL_UNIT_NUM) (hgood : SF = true → ∀ e ∈ rem, Sought s L e) :
    ∃ L₁ rem₁ evs, Passed s (if SF then remove_ed s else s) L L₁ rem rem₁ SF evs := by
  cases SF with
  | false =>
    refine ⟨L, rem, [], h, .refl s, by simp, Log.nil, ?_, fun _ _ => rfl, rfl, rfl⟩
    intro o _
    exact (List.filter_eq_self.mpr fun _ _ => by simp).symm
  | true =>
    obtain ⟨hlayout, hrel, evs, hevs, hlog⟩ := h.removeLoop_eq hlen (hgood rfl)
    refine ⟨without L rem, [], evs, hlayout, hrel, hevs, hlog, ?_, ?_, rfl, hlayout.remove⟩
    · intro o ho
      rw [without_of_ofED ho]
      congr 1
      funext a
      simp
    · rintro e (he | he)
      · cases he
      · rw [without, if_neg he]

section

variable {s s₁ : State} {L L₁ : Place → List ℕ} {rem rem₁ : List ℕ} {SF : Bool} {evs : List Event}

/-- What is left is where it was. -/
theorem Passed.rest (h : Passed s s₁ L L₁ rem rem₁ SF evs) {s' : State} {L' : Place → List ℕ}
    (hlayout : Layout s' L' rem₁) (hed : s'.ed = s₁.ed) (hkept : ∀ o ≠ .done, L' o = L₁ o) :
    (∀ o, o.scheduled = true →
      Links s'.NextED (s'.head o) ((L o).filter fun e => SF = false ∨ e ∉ rem) none) ∧
    ∀ o e, o.ofED = true → e ∈ L o → (SF = false ∨ e ∉ rem) →
      (s'.ed e).HeadP = (s.ed e).HeadP ∧ Links s'.NextTD (s'.ed e).HeadP (L (.queue e)) none := by
  have hL' : ∀ o, o.ofED = true → L' o = (L o).filter fun e => SF = false ∨ e ∉ rem := by
    intro o ho
    rw [hkept o (by rintro rfl; cases ho), h.kept o ho]
  constructor
  · intro o ho
    rw [← hL' o (Place.ofED_of_scheduled ho)]
    exact hlayout.lists o ho
  · intro o e ho he hk
    have he' : e ∈ L' o := by
      rw [hL' o ho, List.mem_filter]
      exact ⟨he, decide_eq_true hk⟩
    have hq := hlayout.queue ho he'
    rw [hkept _ Place.noConfusion, h.queue e hk] at hq
    exact ⟨by rw [hed, h.relinked.ed e], hq⟩

theorem Passed.handled (h : Passed s s₁ L L₁ rem rem₁ SF evs) : Handled s s₁ L rem SF false := by
  obtain ⟨hlists, hqueues⟩ := h.rest h.layout rfl fun _ _ => rfl
  refine ⟨?_, hlists, hqueues, h.relinked.done, h.removed⟩
  rw [drop_of_append h.events]
  exact h.log

theorem Passed.handled_reclaim (h : Passed s s₁ L L₁ rem rem₁ SF evs) :
    Handled s (reclaim s₁) L rem SF true := by
  obtain ⟨td, utr, heq, -⟩ := h.layout.reclaim_eq
  have hed : (reclaim s₁).ed = s₁.ed := by rw [heq]
  have hevents : (reclaim s₁).events = s.events ++ (evs ++ retirements (L₁ .done).reverse) := by
    rw [heq, ← List.append_assoc, ← h.events]
  obtain ⟨hlists, hqueues⟩ := h.rest h.layout.reclaim_layout hed fun o ho => Function.update_of_ne ho _ _
  refine ⟨?_, hlists, hqueues, by rw [heq]; rfl, by rw [heq]; exact h.removed⟩
  have hlog := h.log.append (Log.retirements (L₁ .done).reverse)
  rw [List.nil_append, List.append_nil, h.done] at hlog
  rw [drop_of_append hevents, h.done]
  exact hlog

end

/-- **One run of the handler retires every TD of the done list and takes every removed ED
off its list before it frees it exactly when no ED to be removed is in the schedule with
endpoint number 0, but for the control list, or on an interrupt list with interval 0.** -/
theorem handled_iff {s : State} {L : Place → List ℕ} {rem : List ℕ} (h : Layout s L rem) (SF WDH : Bool) :
    Handled s (USBH_IRQHandler s SF WDH) L rem SF WDH ↔ (SF = true → ∀ e ∈ rem, Removable s e) := by
  have hlen : rem.length ≤ MEM_POOL_UNIT_NUM := length_le_pool h.rem_nodup fun e he => by
    obtain ⟨o, -, heo⟩ := h.rem_ed e he
    exact (h.pool heo).1
  have hall : (∀ e ∈ rem, Removable s e) ↔ ∀ e ∈ rem, Sought s L e :=
    forall₂_congr fun e _ => (h.sought_iff e).symm
  rw [hall]
  constructor
  · rintro hh rfl
    by_contra hbad
    obtain ⟨evs, e, hevs, hmem⟩ := h.removeLoop_linked hlen hbad
    have hgrow : (remove_ed s).events <+: (USBH_IRQHandler s true WDH).events := by
      cases WDH with
      | false => exact List.prefix_refl _
      | true => exact reclaim_events _
    obtain ⟨evs', hevs'⟩ := hgrow
    have hdrop : (USBH_IRQHandler s true WDH).events.drop s.events.length = evs ++ evs' :=
      drop_of_append (by rw [← hevs', remove_ed, hevs, List.append_assoc])
    have heds := hh.log.eds
    rw [hdrop, if_pos rfl] at heds
    have hfreed : (e, true, true) ∈ (evs ++ evs').filterMap Event.freedED :=
      List.mem_filterMap.mpr ⟨_, List.mem_append_left _ hmem, rfl⟩
    rw [heds] at hfreed
    obtain ⟨a, -, ha⟩ := List.mem_map.mp hfreed
    cases ha
  · intro hgood
    obtain ⟨L₁, rem₁, evs, hpass⟩ := h.removal_passed SF hlen hgood
    unfold USBH_IRQHandler
    dsimp only
    generalize (if SF = true then remove_ed s else s) = s₁ at hpass ⊢
    cases WDH with
    | false => exact hpass.handled
    | true => exact hpass.handled_reclaim

/-- An interrupt endpoint with interval `b` behind the last node, with a TD, is to be
removed; another TD is done. -/
def oneInterrupt (b : BitVec 8) : State where
  unit_used := fun i => decide (i < 9)
  ed := fun i => { ED_T.zero with
    Info := if i = 6 then ED_SKIP ||| 0x81 else ED_SKIP
    HeadP := if i = 6 then some 7 else none
    NextED := if i = 0 then some 6 else if i < 6 then some (i - 1) else none
    bInterval := if i = 6 then b else 0 }
  td := fun _ => { TD_T.zero with utr := some 0 }
  HcControlHeadED := none
  HcBulkHeadED := none
  Ied := id
  ed_remove_list := some 6
  done_head := some 8
  frame_no := 0
  utr := fun _ =>
    { udev := ⟨false, 1, 64, 1⟩, bmRequestType := 0, setup := 0, ep := some 0, buff := 0x1000,
      bIsTransferDone := false, data_len := 8, xfer_len := 0, bIsoNewSched := false, iso_sf := 0,
      iso_xlen := fun _ => 0, iso_buff := fun _ => 0, iso_status := fun _ => 0, td_cnt := 2, status := 0,
      func := true, calls := 0 }
  ep := fun _ => ⟨0x81, 3, 0, 0, 64, none⟩
  events := []

def oneInterruptPlaces : Place → List ℕ
  | .ints => [5, 4, 3, 2, 1, 0, 6]
  | .queue e => if e = 6 then [7] else []
  | .done => [8]
  | .control | .bulk | .loose | .pending => []

theorem oneInterrupt_layout {b : BitVec 8} (hb : headLoop 5 0 b.toNat = 0) :
    Layout (oneInterrupt b) oneInterruptPlaces [6] := by
  have hmem : ∀ o t, t ∈ oneInterruptPlaces o →
      t < 9 ∧ o = if t < 7 then .ints else if t = 7 then .queue 6 else .done := by
    intro o t ht
    match o with
    | .ints =>
      have hall : ∀ t ∈ oneInterruptPlaces .ints, t < 7 := by decide
      have := hall t ht
      exact ⟨by omega, (if_pos this).symm⟩
    | .queue e =>
      rw [oneInterruptPlaces] at ht
      split at ht
      case isTrue h =>
        obtain rfl := List.mem_singleton.mp ht
        exact ⟨by decide, by rw [h]; rfl⟩
      case isFalse => cases ht
    | .done =>
      obtain rfl := List.mem_singleton.mp ht
      exact ⟨by decide, rfl⟩
  constructor
  · intro o
    match o with
    | .ints => decide
    | .queue e =>
      rw [oneInterruptPlaces]
      split
      · exact List.nodup_singleton 7
      · exact List.nodup_nil
    | .done => exact List.nodup_singleton 8
    | .control | .bulk | .loose | .pending => exact List.nodup_nil
  · exact fun ht ht' => ((hmem _ _ ht).2).trans ((hmem _ _ ht').2).symm
  · intro o t ht
    have hlt := (hmem o t ht).1
    exact ⟨hlt.trans (by decide), decide_eq_true hlt⟩
  · intro o ho
    match o with
    | .control | .bulk => rfl
    | .ints => exact ⟨rfl, rfl, rfl, rfl, rfl, rfl, rfl, rfl⟩
  · intro o e ho he
    by_cases h6 : e = 6
    · subst h6
      exact ⟨rfl, rfl⟩
    · have hhead : ((oneInterrupt b).ed e).HeadP = none := if_neg h6
      rw [hhead, oneInterruptPlaces, if_neg h6]
      rfl
  · exact ⟨rfl, rfl⟩
  · exact ⟨rfl, rfl⟩
  · exact List.nodup_singleton 6
  · intro e he
    obtain rfl := List.mem_singleton.mp he
    exact ⟨.ints, rfl, by decide⟩
  · have hall : ∀ i ≤ 5, i ∈ oneInterruptPlaces .ints ∧ i ∉ [6] := by decide
    exact hall
  · intro e he hnot
    have hall : ∀ e ∈ oneInterruptPlaces .ints, e ≤ 5 ∨ e = 6 := by decide
    rcases hall e he with h5 | rfl
    · exact absurd rfl (hnot e h5)
    · have hnode : (oneInterrupt b).node 6 = 0 := hb
      rw [hnode]
      decide
  · exact fun e he => absurd he List.not_mem_nil
  · exact fun e he => absurd he List.not_mem_nil

/-- With interval 1 all is well. -/
theorem handled_interval_one : Handled (oneInterrupt 1) (USBH_IRQHandler (oneInterrupt 1) true true)
    oneInterruptPlaces [6] true true := by
  refine (handled_iff (oneInterrupt_layout (by decide)) true true).mpr fun _ e he => ?_
  obtain rfl := List.mem_singleton.mp he
  exact ⟨fun _ => by decide, fun _ => by decide⟩

/-- With interval 0 the ED is freed on its list. -/
theorem unhandled_interval_zero :
    Layout (oneInterrupt 0) oneInterruptPlaces [6] ∧
      .free_ohci_ED 6 true true ∈ (USBH_IRQHandler (oneInterrupt 0) true true).events ∧
      ¬ Handled (oneInterrupt 0) (USBH_IRQHandler (oneInterrupt 0) true true) oneInterruptPlaces [6]
        true true := by
  have hevents : (USBH_IRQHandler (oneInterrupt 0) true true).events =
      [.free_ohci_ED 6 true true, .td_done 8 true, .free_ohci_TD 8 true] := by decide +kernel
  refine ⟨oneInterrupt_layout (by decide), ?_, ?_⟩
  · rw [hevents]
    exact List.mem_cons_self
  · intro h
    have heds := h.log.eds
    rw [hevents] at heds
    cases heds

end Ohci
