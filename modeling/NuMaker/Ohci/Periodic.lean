/-
Interrupt and isochronous requests.

Both find their ED from the node of the interval on, or hang a new one behind that node
(`Extends.of_hung`).  The queue of an interrupt ED ends in a dummy TD, which a request fills
and follows with the next dummy; an isochronous request appends eight TDs.
-/
import NuMaker.Ohci.Requests

namespace Ohci

section

variable {ep0 : ℕ → Bool} {s : State} {d : Option ℕ} {L : Place → List ℕ} {rem : List ℕ}

/-! ### Searching and giving back -/

/-- The ED that is found from a node on is on the interrupt lists. -/
theorem Layout.findInt_mem (h : Layout s L rem) {u p e : ℕ} (hf : s.findInt u p = some e) :
    e ∈ L .ints ∧ (s.ed e).Info = s.info u p := by
  obtain ⟨l₁, l₂, heq, hl⟩ := h.fromIed (headLoop_le 5 0 (s.ep p).bInterval.toNat)
  have hlen : (s.Ied (headLoop 5 0 (s.ep p).bInterval.toNat) :: l₂).length ≤ MEM_POOL_UNIT_NUM := by
    have := h.length_le .ints
    rw [heq, List.length_append] at this
    omega
  obtain ⟨hmem, hInfo⟩ := findED_mem hl hlen hf
  refine ⟨?_, hInfo⟩
  rw [heq]
  exact List.mem_append_right l₁ hmem

/-- An ED that has just been taken is on none of the lists. -/
theorem Layout.not_linked (h : Layout s L rem) {s' : State} {e : ℕ} (hnot : ∀ o, e ∉ L o)
    (hNext : ∀ a ≠ e, s'.NextED a = s.NextED a) (hhead : ∀ o, s'.head o = s.head o) : s'.linked e = false := by
  have hl : ∀ o, o.scheduled = true → Links s'.NextED (s'.head o) (L o) none := by
    intro o ho
    rw [hhead]
    exact (Links.congr fun a ha => hNext a fun hae => hnot o (hae ▸ ha)).mpr (h.lists o ho)
  rw [Bool.eq_false_iff]
  intro hlinked
  obtain ⟨o, -, ho⟩ := (linked_iff hl h.length_le e).mp hlinked
  exact hnot o ho

/-- A request that has taken units, changed nothing else of what is in use, and given them back. -/
theorem Inv.given_back (h : Inv ep0 ⟨s, d⟩ L rem) {s' : State} {F : List ℕ}
    (hfresh : ∀ t ∈ F, s.unit_used t = false)
    (hused : ∀ t, s'.unit_used t = (s.unit_used t && decide (t ∉ F)))
    (hed : ∀ a ∉ F, SameED (s.ed a) (s'.ed a)) (htd : ∀ a ∉ F, s'.td a = s.td a)
    (hhead : ∀ o, s'.head o = s.head o) (hI : s'.Ied = s.Ied)
    (hremove : s'.ed_remove_list = s.ed_remove_list) (hdone : s'.done_head = s.done_head)
    (hpipe : ∀ p, (s'.ep p).hw_pipe = (s.ep p).hw_pipe) (hclean : ∀ ev ∈ s'.events, ev.Clean) :
    Inv ep0 ⟨s', d⟩ L rem := by
  have hnot : ∀ t, s.unit_used t = true → t ∉ F := by
    intro t hu ht
    rw [hfresh t ht] at hu
    cases hu
  refine h.congr ?_ ?_ ?_ hhead hI hremove hdone hpipe hclean
  · funext t
    rw [hused]
    by_cases ht : t ∈ F
    · have hu : s.unit_used t = false := hfresh t ht
      simp [hu]
    · simp [ht]
  · exact fun e hu => hed e (hnot e hu)
  · exact fun t hu => htd t (hnot t hu)

/-! ### Interrupt requests -/

/-- `intStart` with an ED that was there. -/
theorem intStart_old (s : State) (u p ed td td_new ied : ℕ) :
    ∃ utr v, intStart s u p ed td td_new ied false = ({ s with
        td := Function.update s.td td v
        ed := Function.update s.ed ed { s.ed ed with TailP := some td_new }
        utr := utr } : State).setHwPipe p (some ed) ∧ v.NextTD = some td_new :=
  ⟨_, _, rfl, rfl⟩

/-- With a new ED it is the same, and the ED is hung behind the node. -/
theorem intStart_new (s : State) (u p ed td td_new ied : ℕ) :
    intStart s u p ed td td_new ied true = hookED (intStart s u p ed td td_new ied false) ed ied := rfl

/-- An interrupt request whose ED is there: the dummy at the end of the queue becomes its TD. -/
theorem Inv.int_old (h : Inv ep0 ⟨s, d⟩ L rem) {u p ed td_new : ℕ} (ied : ℕ) {s₁ : State}
    (halloc : alloc_ohci_TD s (some u) = (some td_new, s₁)) (hfind : s.findInt u p = some ed)
    (hep0 : ep0 p = false) (hgeneral : (s.ep p).bmAttributes &&& 3 ≠ 1) (hpriv : s.Private p ed) :
    ∃ L', Inv ep0 ⟨intStart s₁ u p ed ((s₁.ed ed).TailP.getD 0) td_new ied false, d⟩ L' rem := by
  obtain ⟨hlt, hfree, hs₁⟩ := alloc_ohci_TD_eq_some halloc
  obtain ⟨hmem, hInfo⟩ := h.findInt_mem hfind
  have hskip : (s.ed ed).Info &&& ED_SKIP = 0 := by
    rw [hInfo]
    exact ed_make_info_skip (s.utr u).udev (some (s.ep p))
  have hformat : (s.ed ed).Info &&& ED_FORMAT_ISO = 0 := by
    rw [hInfo]
    by_contra hne
    exact hgeneral ((ed_make_info_iso (s.utr u).udev (s.ep p)).mp hne)
  have htailed : (s.ed ed).Tailed .ints (L (.queue ed)) := h.tailed rfl hmem
  obtain ⟨td, htail⟩ := Option.ne_none_iff_exists'.mp (htailed.int rfl hformat hskip)
  obtain ⟨q, hq⟩ := htailed.last td htail
  have hlinks := h.queue rfl hmem
  have hnodup := h.nodup (.queue ed)
  dsimp only at hlinks
  rw [hq] at hlinks hnodup
  have hnot : td_new ∉ q ++ [td] := hq ▸ h.not_mem hfree (.queue ed)
  have htd : td ≠ td_new := by
    rintro rfl
    exact hnot (List.mem_append_right q (List.mem_singleton_self td))
  have htail₁ : (s₁.ed ed).TailP.getD 0 = td := by
    rw [hs₁]
    exact congrArg (·.getD 0) htail
  obtain ⟨utr, v, heq, hv⟩ := intStart_old s₁ u p ed td td_new ied
  rw [htail₁, heq]
  generalize hs' : State.setHwPipe _ _ _ = s'
  have hed : s'.ed ed = { s.ed ed with TailP := some td_new } := by
    rw [← hs', hs₁]
    exact Function.update_self ed _ s.ed
  have hNextTD : s'.NextTD = Function.update (Function.update s.NextTD td_new none) td (some td_new) := by
    have h₁ := setTD_NextTD s td_new { TD_T.zero with utr := some u }
    have h₂ := setTD_NextTD s₁ td v
    rw [hv, hs₁] at h₂
    rw [← hs', ← show TD_T.zero.NextTD = none from rfl, ← h₁, hs₁]
    exact h₂
  have hx : Extends s s' L .ints ed [td_new] (L .ints) (q ++ [td] ++ [td_new]) := by
    refine .of_old h rfl hmem hskip ?_ ?_ ?_ ?_ ?_ ?_ ?_ ?_ ?_ ?_ ?_ ?_ ?_
    · intro t ht
      obtain rfl := List.mem_singleton.mp ht
      exact ⟨hlt, hfree⟩
    · intro t
      rw [← hs', hs₁]
      change Function.update s.unit_used td_new true t = _
      by_cases ht : t = td_new
      · simp [ht]
      · simp [ht]
    · intro t
      rw [hq, List.mem_append, List.mem_singleton]
    · exact List.nodup_append.mpr ⟨hnodup, List.nodup_singleton _, fun a ha b hb hab =>
        hnot (List.mem_singleton.mp hb ▸ hab ▸ ha)⟩
    · intro a ha
      have hleft : s'.ed a = s.ed a := by
        rw [← hs', hs₁]
        exact Function.update_of_ne ha _ s.ed
      rw [hleft]
      exact .refl _
    · rw [hed]
    · rw [hed]
    · rw [hed]
    · intro t ht htq
      rw [hq] at htq
      rw [hNextTD, Function.update_of_ne, Function.update_of_ne]
      · rintro rfl
        exact ht (List.mem_singleton_self t)
      · rintro rfl
        exact htq (List.mem_append_right q (List.mem_singleton_self t))
    · rw [hNextTD, hed]
      refine Links.chain ((Links.update_iff hnot none).mpr hlinks) ?_ hnodup fun hm => htd (List.mem_singleton.mp hm)
      rw [Links.cons_iff, Function.update_self]
      exact ⟨rfl, rfl⟩
    · rw [hed]
      constructor
      · exact fun hne => absurd rfl hne
      · intro t ht
        exact ⟨q ++ [td], by rw [Option.some_inj.mp ht]⟩
      · exact fun hiso => absurd hformat hiso
      · exact fun _ _ _ => Option.some_ne_none _
    · rw [← hs', hs₁]
      exact State.head_congr rfl rfl rfl
    · rw [← hs', hs₁]
      exact ⟨rfl, rfl, rfl, rfl⟩
  refine ⟨_, h.extend hx (Or.inr ⟨p, by simp [hep0], hpriv, ?_, ?_⟩)⟩
  · intro hp0
    rw [hep0] at hp0
    cases hp0
  · intro p'
    rw [← hs', setHwPipe_hw_pipe, hs₁]
    rfl

/-- An interrupt request with a new ED, which gets two dummies: one becomes its TD. -/
theorem Inv.int_new (h : Inv ep0 ⟨s, d⟩ L rem) {u p ed td td_new : ℕ} {s₁ s₂ s₃ s₄ : State}
    (h₁ : alloc_ohci_TD s (some u) = (some td_new, s₁)) (h₂ : alloc_ohci_ED s₁ = (some ed, s₂))
    (hs₃ : s₃ = s₂.setED ed { s₂.ed ed with
      Info := s.info u p
      HeadP := none
      bInterval := (s.ep p).bInterval })
    (h₄ : alloc_ohci_TD s₃ none = (some td, s₄)) (hep0 : ep0 p = false)
    (hgeneral : (s.ep p).bmAttributes &&& 3 ≠ 1) :
    ∃ L', Inv ep0 ⟨intStart (s₄.setED ed { s₄.ed ed with HeadP := some td, TailP := some td }) u p ed td td_new
      (get_int_tree_head_node s (s.ep p).bInterval) true, d⟩ L' rem := by
  obtain ⟨hlt₁, hfree₁, hs₁⟩ := alloc_ohci_TD_eq_some h₁
  obtain ⟨hlt₂, hfree₂, hs₂⟩ := alloc_ohci_ED_eq_some h₂
  obtain ⟨hlt₄, hfree₄, hs₄⟩ := alloc_ohci_TD_eq_some h₄
  have hused₁ : s₁.unit_used = Function.update s.unit_used td_new true := by rw [hs₁]
  have hused₃ : s₃.unit_used = Function.update (Function.update s.unit_used td_new true) ed true := by
    rw [hs₃, hs₂, hs₁]
    rfl
  rw [hused₁] at hfree₂
  rw [hused₃] at hfree₄
  have hne₂ : ed ≠ td_new := by
    rintro rfl
    rw [Function.update_self] at hfree₂
    cases hfree₂
  have hne₃ : td ≠ ed := by
    rintro rfl
    rw [Function.update_self] at hfree₄
    cases hfree₄
  rw [Function.update_of_ne hne₂] at hfree₂
  rw [Function.update_of_ne hne₃] at hfree₄
  have hne₄ : td ≠ td_new := by
    rintro rfl
    rw [Function.update_self] at hfree₄
    cases hfree₄
  rw [Function.update_of_ne hne₄] at hfree₄
  obtain ⟨utr, v, heq, hv⟩ := intStart_old (s₄.setED ed { s₄.ed ed with HeadP := some td, TailP := some td }) u p ed
    td td_new (get_int_tree_head_node s (s.ep p).bInterval)
  rw [intStart_new, heq]
  generalize hs' : State.setHwPipe _ _ _ = s'
  have hInfo : (s'.ed ed).Info = s.info u p := by
    rw [← hs', hs₄, hs₃]
    simp [State.setHwPipe, State.setED, State.setTD]
  have hHeadP : (s'.ed ed).HeadP = some td := by
    rw [← hs']
    simp [State.setHwPipe, State.setED]
  have hTailP : (s'.ed ed).TailP = some td_new := by
    rw [← hs']
    simp [State.setHwPipe]
  have hbInterval : (s'.ed ed).bInterval = (s.ep p).bInterval := by
    rw [← hs', hs₄, hs₃]
    simp [State.setHwPipe, State.setED, State.setTD]
  have hNextTD : s'.NextTD = Function.update (Function.update s.NextTD td_new none) td (some td_new) := by
    funext t
    rw [← hs', hs₄, hs₃, hs₂, hs₁]
    by_cases ht : t = td
    · simp [State.NextTD, State.setHwPipe, State.setED, State.setTD, ht, hv]
    · by_cases htn : t = td_new
      · simp [State.NextTD, State.setHwPipe, State.setED, State.setTD, htn, hne₄.symm, TD_T.zero]
      · simp [State.NextTD, State.setHwPipe, State.setED, State.setTD, ht, htn]
  have hx : ∃ l, Extends s (hookED s' ed (s.Ied (headLoop 5 0 (s.ep p).bInterval.toNat))) L .ints ed
      [ed, td, td_new] l [td, td_new] := by
    refine Extends.of_hung h (headLoop_le 5 0 _) List.mem_cons_self ?_ ?_ ?_ ?_ ?_ ?_ ?_ ?_ ?_ ?_ ?_ ?_
    · intro t ht
      simp only [List.mem_cons, List.not_mem_nil, or_false] at ht
      rcases ht with rfl | rfl | rfl
      · exact ⟨hlt₂, hfree₂⟩
      · exact ⟨hlt₄, hfree₄⟩
      · exact ⟨hlt₁, hfree₁⟩
    · intro t
      have hused : s'.unit_used t = Function.update s₃.unit_used td true t := by
        rw [← hs', hs₄]
        rfl
      rw [hused, hused₃]
      by_cases ht : t = td
      · simp [ht]
      · by_cases hte : t = ed
        · simp [hte, hne₃.symm]
        · by_cases htn : t = td_new
          · simp [htn, hne₄.symm, hne₂.symm]
          · simp [ht, hte, htn]
    · intro t
      simp only [List.mem_cons, List.not_mem_nil, or_false]
      constructor
      · rintro (rfl | rfl)
        · exact ⟨Or.inr (Or.inl rfl), hne₃⟩
        · exact ⟨Or.inr (Or.inr rfl), hne₂.symm⟩
      · tauto
    · simp [hne₄]
    · intro a ha
      have hsame : s'.ed a = s.ed a := by
        rw [← hs', hs₄, hs₃, hs₂, hs₁]
        simp [State.setHwPipe, State.setED, State.setTD, ha]
      rw [hsame]
      exact .refl _
    · rw [State.level, hbInterval]
    · rw [hInfo]
      exact ed_make_info_skip (s.utr u).udev (some (s.ep p))
    · intro t ht
      simp only [List.mem_cons, List.not_mem_nil, or_false, not_or] at ht
      rw [hNextTD, Function.update_of_ne ht.2.1, Function.update_of_ne ht.2.2]
    · rw [hNextTD, hHeadP]
      simp [hne₄.symm]
    · constructor
      · exact fun hne => absurd rfl hne
      · intro t ht
        rw [hTailP] at ht
        exact ⟨[td], by rw [Option.some_inj.mp ht]; rfl⟩
      · intro hiso
        rw [hInfo] at hiso
        exact absurd ((ed_make_info_iso (s.utr u).udev (s.ep p)).mp hiso) hgeneral
      · intro _ _ _
        rw [hTailP]
        exact Option.some_ne_none _
    · rw [← hs', hs₄, hs₃, hs₂, hs₁]
      exact State.head_congr rfl rfl rfl
    · rw [← hs', hs₄, hs₃, hs₂, hs₁]
      exact ⟨rfl, rfl, rfl, rfl⟩
  obtain ⟨l, hx⟩ := hx
  refine ⟨_, h.extend hx (Or.inr ⟨p, by simp [hep0], fun p' _ hp' => ?_, ?_, ?_⟩)⟩
  · obtain ⟨-, o, -, heo⟩ := h.pipes hp'
    exact h.not_mem hfree₂ o heo
  · intro hp0
    rw [hep0] at hp0
    cases hp0
  · intro p'
    have hep : (s'.ep p').hw_pipe = if p' = p then some ed else (s.ep p').hw_pipe := by
      rw [← hs', setHwPipe_hw_pipe, hs₄, hs₃, hs₂, hs₁]
      rfl
    exact hep

/-- Short of its second dummy the request gives back the ED and the first. -/
theorem Inv.int_undone (h : Inv ep0 ⟨s, d⟩ L rem) {u p ed td_new : ℕ} {s₁ s₂ s₃ : State}
    (h₁ : alloc_ohci_TD s (some u) = (some td_new, s₁)) (h₂ : alloc_ohci_ED s₁ = (some ed, s₂))
    (hs₃ : s₃ = s₂.setED ed { s₂.ed ed with
      Info := s.info u p
      HeadP := none
      bInterval := (s.ep p).bInterval }) :
    Inv ep0 ⟨free_ohci_TD (free_ohci_ED s₃ ed) (some td_new), d⟩ L rem := by
  obtain ⟨-, hfree₁, hs₁⟩ := alloc_ohci_TD_eq_some h₁
  obtain ⟨-, hfree₂, hs₂⟩ := alloc_ohci_ED_eq_some h₂
  have hused₁ : s₁.unit_used = Function.update s.unit_used td_new true := by rw [hs₁]
  have hused₃ : s₃.unit_used = Function.update (Function.update s.unit_used td_new true) ed true := by
    rw [hs₃, hs₂, hs₁]
    rfl
  rw [hused₁] at hfree₂
  have hne : ed ≠ td_new := by
    rintro rfl
    rw [Function.update_self] at hfree₂
    cases hfree₂
  rw [Function.update_of_ne hne] at hfree₂
  have hed : ∀ a ≠ ed, s₃.ed a = s.ed a := by
    intro a ha
    rw [hs₃, hs₂, hs₁]
    simp [State.setED, State.setTD, ha]
  have hhead : ∀ o, s₃.head o = s.head o := by
    rw [hs₃, hs₂, hs₁]
    exact State.head_congr rfl rfl rfl
  have hlinked : s₃.linked ed = false := by
    refine h.not_linked (h.not_mem hfree₂) (fun a ha => ?_) hhead
    rw [State.NextED, State.NextED, hed a ha]
  have hevents : (free_ohci_TD (free_ohci_ED s₃ ed) (some td_new)).events =
      s.events ++ [.free_ohci_ED ed true false] ++ [.free_ohci_TD td_new true] := by
    simp only [free_ohci_TD, free_ohci_ED, hlinked, hused₃, Function.update_self, Function.update_of_ne hne.symm]
    rw [hs₃, hs₂, hs₁]
    rfl
  refine h.given_back (F := [ed, td_new]) ?_ ?_ ?_ ?_ hhead ?_ ?_ ?_ ?_ ?_
  · intro t ht
    rcases List.mem_pair.mp ht with rfl | rfl
    · exact hfree₂
    · exact hfree₁
  · intro t
    simp only [free_ohci_TD, free_ohci_ED, hused₃]
    by_cases ht : t = td_new
    · simp [ht]
    · by_cases hte : t = ed
      · simp [hte, hne]
      · simp [ht, hte]
  · intro a ha
    have : s₃.ed a = s.ed a := hed a fun hae => ha (hae ▸ List.mem_cons_self)
    change SameED (s.ed a) (s₃.ed a)
    rw [this]
    exact .refl _
  · intro a ha
    have hne : a ≠ td_new := fun hat => ha (hat ▸ List.mem_cons_of_mem _ List.mem_cons_self)
    change s₃.td a = s.td a
    rw [hs₃, hs₂, hs₁]
    simp [State.setED, State.setTD, hne]
  · change s₃.Ied = s.Ied
    rw [hs₃, hs₂, hs₁]
    rfl
  · change s₃.ed_remove_list = s.ed_remove_list
    rw [hs₃, hs₂, hs₁]
    rfl
  · change s₃.done_head = s.done_head
    rw [hs₃, hs₂, hs₁]
    rfl
  · intro p'
    change (s₃.ep p').hw_pipe = (s.ep p').hw_pipe
    rw [hs₃, hs₂, hs₁]
    rfl
  · rw [hevents]
    intro ev hev
    rcases List.mem_append.mp hev with hev | hev
    · rcases List.mem_append.mp hev with hev | hev
      · exact h.clean ev hev
      · rw [List.mem_singleton.mp hev]
        exact ⟨rfl, rfl⟩
    · rw [List.mem_singleton.mp hev]
      exact rfl

/-- An interrupt request keeps the units, if it does not find exactly one of them for a new ED and
the ED it finds is its own. -/
theorem Inv.int_xfer (h : Inv ep0 ⟨s, d⟩ L rem) {u p : ℕ} (hep0 : ep0 p = false)
    (hgeneral : (s.ep p).bmAttributes &&& 3 ≠ 1)
    (hcare : (s.utr u).data_len ≤ 64 →
      match s.findInt u p with
      | some e => s.free ≠ 0 → s.Private p e
      | none => s.free ≠ 1) :
    ∃ L', Inv ep0 ⟨(ohci_int_xfer s u p).2, d⟩ L' rem := by
  unfold ohci_int_xfer
  dsimp only
  by_cases hlen : 64 < (s.utr u).data_len
  · rw [if_pos hlen]
    exact ⟨L, h⟩
  · rw [if_neg hlen]
    replace hcare := hcare (BitVec.not_lt.mp hlen)
    cases h₁ : alloc_ohci_TD s (some u) with
    | mk o s₁ =>
    cases o with
    | none =>
      obtain ⟨-, rfl⟩ := alloc_ohci_TD_eq_none h₁
      exact ⟨L, h⟩
    | some td_new =>
      obtain ⟨hlt₁, hfree₁, hs₁⟩ := alloc_ohci_TD_eq_some h₁
      have hone : s₁.free + 1 = s.free := free_succ hlt₁ hfree₁ (by rw [hs₁])
      have hsearch : Links.search s₁.NextED (fun e => (s₁.ed e).Info = ed_make_info (s.utr u).udev (some (s.ep p)))
          MEM_POOL_UNIT_NUM (some (get_int_tree_head_node s₁ (s.ep p).bInterval)) = s.findInt u p := by
        rw [hs₁]
        rfl
      have hnode : get_int_tree_head_node s₁ (s.ep p).bInterval = get_int_tree_head_node s (s.ep p).bInterval := by
        rw [hs₁]
        rfl
      dsimp only
      rw [hsearch, hnode]
      cases hfind : s.findInt u p with
      | some ed =>
        rw [hfind] at hcare
        have hpos : s.free ≠ 0 := by omega
        exact h.int_old (get_int_tree_head_node s (s.ep p).bInterval) h₁ hfind hep0 hgeneral (hcare hpos)
      | none =>
        rw [hfind] at hcare
        dsimp only
        cases h₂ : alloc_ohci_ED s₁ with
        | mk o s₂ =>
        cases o with
        | none =>
          -- the one unit that was left would be lost
          obtain ⟨hnone, _⟩ := alloc_ohci_ED_eq_none h₂
          have hzero := free_eq_zero_iff.mpr hnone
          omega
        | some ed =>
          dsimp only
          cases h₄ : alloc_ohci_TD (s₂.setED ed { s₂.ed ed with
              Info := ed_make_info (s.utr u).udev (some (s.ep p))
              HeadP := none
              bInterval := (s.ep p).bInterval }) none with
          | mk o s₄ =>
          cases o with
          | none =>
            obtain ⟨-, rfl⟩ := alloc_ohci_TD_eq_none h₄
            exact ⟨L, h.int_undone h₁ h₂ rfl⟩
          | some td => exact h.int_new h₁ h₂ rfl h₄ hep0 hgeneral

/-! ### Isochronous requests -/

/-- Hang a TD on the one that was last, as the loop does. -/
def hangLast (s : State) (td_list last_td : Option ℕ) (td : ℕ) : State :=
  match td_list, last_td with
  | some _, some l => s.setTD l { s.td l with NextTD := some td }
  | _, _ => s

/-- To hang a TD on the one that was last is to hang it on the list. -/
theorem hangLast_eq {s : State} {td_list last_td : Option ℕ} {l : List ℕ} (t : ℕ)
    (hl : Links s.NextTD td_list l none) (hd : l.Nodup) (hn : l.length ≤ MEM_POOL_UNIT_NUM)
    (hlast : ∀ t, last_td = some t → ∃ l', l = l' ++ [t]) (hfirst : last_td = none → l = []) :
    hangLast s td_list last_td t = hang s td_list t := by
  cases td_list with
  | none => rfl
  | some a =>
    have hne : l ≠ [] := by
      rintro rfl
      exact absurd hl (Option.some_ne_none a)
    obtain ⟨b, rfl⟩ := Option.ne_none_iff_exists'.mp (mt hfirst hne)
    obtain ⟨l', rfl⟩ := hlast b rfl
    rw [hangLast, hang, lastTD_eq hl hd hn]

/-- What the loop makes of the frames: the TDs of the list, one a frame. -/
theorem isoLoop_built (u ed : ℕ) (s₀ : State) : ∀ (n i : ℕ) (s : State) (td_list last_td : Option ℕ)
    (l : List ℕ), Building u s₀ s td_list l → (∀ t, last_td = some t → ∃ l', l = l' ++ [t]) →
    (last_td = none → l = []) →
    ∃ ok s' td_list' l', isoLoop u ed n i s td_list last_td = (ok, s', td_list') ∧
      Building u s₀ s' td_list' (l ++ l') ∧ (ok = true → l'.length = n) ∧ (n ≤ s.free → ok = true) := by
  intro n
  induction n with
  | zero =>
    intro i s td_list last_td l h _ _
    exact ⟨true, s, td_list, [], rfl, by simpa using h, fun _ => rfl, fun _ => rfl⟩
  | succ n ih =>
    intro i s td_list last_td l h hlast hfirst
    set s₁ := s.setUTR u { s.utr u with
      iso_status := Function.update (s.utr u).iso_status i USBH_ERR_NOT_ACCESS1 } with hs₁
    have h₁ : Building u s₀ s₁ td_list l :=
      ⟨h.links, h.nodup, h.fresh, h.used, h.td, h.owner, h.ed,
        fun v hv => (Function.update_of_ne hv _ s.utr).trans (h.utr v hv),
        h.rest.trans ⟨rfl, rfl, rfl, rfl, rfl, rfl, rfl⟩⟩
    cases halloc : alloc_ohci_TD s₁ (some u) with
    | mk o s₂ =>
    cases o with
    | none =>
      obtain ⟨hnone, rfl⟩ := alloc_ohci_TD_eq_none halloc
      have hzero : s.free = 0 := free_eq_zero_iff.mpr hnone
      refine ⟨false, s₁, td_list, [], ?_, by simpa using h₁, fun hok => Bool.noConfusion hok, fun hle => by omega⟩
      simp only [isoLoop, ← hs₁, halloc]
    | some t =>
      obtain ⟨ht, hfree, hs₂⟩ := alloc_ohci_TD_eq_some halloc
      have hone : s₂.free + 1 = s₁.free := free_succ ht hfree (by rw [hs₂])
      have hfree₁ : s₁.free = s.free := rfl
      set v : TD_T := { s₂.td t with
        Info := TD_CC ||| TD_TYPE_ISO ||| (s₂.ed ed).next_sf.setWidth 32
        CBP := (s₂.utr u).iso_buff i &&& ~~~0xFFF
        BE := (s₂.utr u).iso_buff i + ((s₂.utr u).iso_xlen i).setWidth 32 - 1
        PSW := 0xE000 ||| ((s₂.utr u).iso_buff i &&& 0xFFF).setWidth 16
        ed := some ed } with hv
      set s₃ := s₂.setTD t v with hs₃
      set s₄ := s₃.setED ed { s₃.ed ed with
        next_sf := (s₃.ed ed).next_sf + BitVec.ofNat 16 (get_ohci_interval (s₃.ed ed).bInterval) } with hs₄
      set s₅ := s₄.setUTR u { s₄.utr u with td_cnt := (s₄.utr u).td_cnt + 1 } with hs₅
      have hzero : s₂.td t = { TD_T.zero with utr := some u } := by
        rw [hs₂]
        exact Function.update_self t _ s₁.td
      have htd : s₅.td = Function.update s₁.td t v := by
        have h₁ : s₅.td = Function.update s₂.td t v := rfl
        rw [h₁, hs₂]
        exact Function.update_idem _ _ _
      have hed : ∀ e, SameED (s₁.ed e) (s₅.ed e) := by
        intro e
        have hleft : s₅.ed e = Function.update s₁.ed ed { s₁.ed ed with
            next_sf := (s₁.ed ed).next_sf + BitVec.ofNat 16 (get_ohci_interval (s₁.ed ed).bInterval) } e := by
          rw [hs₅, hs₄, hs₃, hs₂]
          rfl
        rw [hleft]
        by_cases he : e = ed
        · subst he
          rw [Function.update_self]
          exact ⟨rfl, rfl, rfl, rfl, rfl, rfl⟩
        · rw [Function.update_of_ne he]
          exact .refl _
      have happ : Building u s₀ (hang s₅ td_list t) (some (td_list.getD t)) (l ++ [t]) := by
        refine h₁.append ht hfree ?_ htd ?_ ?_ hed ?_ ?_
        · rw [hs₅, hs₄, hs₃, hs₂]
          rfl
        · rw [hv, hzero]
          rfl
        · rw [hv, hzero]
        · intro w hw
          have hutr : s₂.utr = s₁.utr := by
            rw [hs₂]
            rfl
          exact (Function.update_of_ne hw _ _).trans (congrFun hutr w)
        · rw [hs₅, hs₄, hs₃, hs₂]
          exact ⟨rfl, rfl, rfl, rfl, rfl, rfl, rfl⟩
      have hlinks : Links s₅.NextTD td_list l none := by
        refine (Links.congr fun c hc => ?_).mpr h₁.links
        have hct : c ≠ t := by
          intro hct
          rw [← hct, h₁.used, decide_eq_true hc, Bool.or_true] at hfree
          cases hfree
        rw [State.NextTD, State.NextTD, htd, Function.update_of_ne hct]
      have hhang := hangLast_eq t hlinks h.nodup h.length_le hlast hfirst
      have hstep : isoLoop u ed (n + 1) i s td_list last_td =
          isoLoop u ed n (i + 1) (hang s₅ td_list t) (some (td_list.getD t)) (some t) := by
        rw [← hhang]
        simp only [isoLoop, ← hs₁, halloc]
        rfl
      have hfree₅ : (hang s₅ td_list t).free = s₂.free := by
        cases td_list with
        | none => rfl
        | some b => rfl
      obtain ⟨ok, s', td_list', l', heq, hb, hlen, hok⟩ := ih (i + 1) (hang s₅ td_list t) _ (some t) _ happ
        (fun a ha => ⟨l, by rw [Option.some_inj.mp ha]⟩) fun hnone => absurd hnone (Option.some_ne_none t)
      refine ⟨ok, s', td_list', t :: l', hstep.trans heq, by simpa using hb, ?_, ?_⟩
      · intro hk
        rw [List.length_cons, hlen hk]
      · intro hle
        exact hok (by omega)

/-- When the frames of a request begin. -/
def isoSchedule (s : State) (u ed : ℕ) : State :=
  let s :=
    if (s.utr u).bIsoNewSched then
      s.setED ed { s.ed ed with next_sf := s.frame_no + OHCI_ISO_DELAY }
    else s
  s.setUTR u { s.utr u with td_cnt := 0, iso_sf := (s.ed ed).next_sf }

theorem isoPrepare_old (s : State) (u p ed : ℕ) (info : BitVec 32) (b : BitVec 8) :
    isoPrepare s u p ed info b false = isoSchedule (s.setHwPipe p (some ed)) u ed := rfl

theorem isoPrepare_new (s : State) (u p ed : ℕ) (info : BitVec 32) (b : BitVec 8) :
    isoPrepare s u p ed info b true =
      isoSchedule (s.setED ed { s.ed ed with Info := info, HeadP := none, bInterval := b }) u ed := rfl

theorem isoSchedule_eq (s : State) (u e : ℕ) :
    ∃ ed utr, isoSchedule s u e = { s with ed := ed, utr := utr } ∧ ∀ a, SameED (s.ed a) (ed a) := by
  unfold isoSchedule
  by_cases h : (s.utr u).bIsoNewSched
  · simp only [h, if_true]
    refine ⟨_, _, rfl, ?_⟩
    intro a
    by_cases ha : a = e
    · subst ha
      rw [setED_ed, Function.update_self]
      exact ⟨rfl, rfl, rfl, rfl, rfl, rfl⟩
    · rw [setED_ed, Function.update_of_ne ha]
      exact .refl _
  · simp only [h, if_false, Bool.false_eq_true]
    exact ⟨_, _, rfl, fun a => .refl _⟩

/-- The TDs go to the end of the queue of the ED. -/
def isoAppend (s : State) (ed : ℕ) (td_list : Option ℕ) : State :=
  match (s.ed ed).HeadP with
  | none => s.setED ed { s.ed ed with HeadP := td_list, halted := false }
  | some h => s.setTD (lastTD s h) { s.td (lastTD s h) with NextTD := td_list }

theorem isoStart_old (s : State) (u ed ied : ℕ) (td_list : Option ℕ) : isoStart s u ed ied td_list false =
    isoAppend (s.setUTR u { s.utr u with status := 0 }) ed td_list := rfl

theorem isoStart_new (s : State) (u ed ied : ℕ) (td_list : Option ℕ) : isoStart s u ed ied td_list true =
    hookED (isoAppend (s.setUTR u { s.utr u with status := 0 }) ed td_list) ed ied := rfl

theorem isoAppend_eq {s : State} {e : ℕ} {td_list : Option ℕ} {q l : List ℕ}
    (hq : Links s.NextTD (s.ed e).HeadP q none) (hl : Links s.NextTD td_list l none) (hd : (q ++ l).Nodup)
    (hn : q.length ≤ MEM_POOL_UNIT_NUM) :
    ∃ td ed, isoAppend s e td_list = { s with td := td, ed := ed } ∧
      (∀ a ≠ e, ed a = s.ed a) ∧ (∀ t ∉ q, td t = s.td t) ∧
      Links (fun t => (td t).NextTD) (ed e).HeadP (q ++ l) none ∧
      (ed e).Info = (s.ed e).Info ∧ (ed e).TailP = (s.ed e).TailP ∧ (ed e).NextED = (s.ed e).NextED ∧
      (ed e).bInterval = (s.ed e).bInterval := by
  obtain ⟨hqd, -, hdisj⟩ := List.nodup_append.mp hd
  unfold isoAppend
  cases hhead : (s.ed e).HeadP with
  | none =>
    rw [hhead] at hq
    obtain rfl : q = [] := List.head?_eq_none_iff.mp hq.head_eq.symm
    refine ⟨s.td, Function.update s.ed e { s.ed e with HeadP := td_list, halted := false }, rfl, ?_, ?_, ?_⟩
    · exact fun a ha => Function.update_of_ne ha _ _
    · exact fun _ _ => rfl
    · rw [Function.update_self]
      exact ⟨hl, rfl, rfl, rfl, rfl⟩
  | some h =>
    rw [hhead] at hq
    rcases List.eq_nil_or_concat' q with rfl | ⟨q, b, rfl⟩
    · exact absurd hq (Option.some_ne_none h)
    · have hlast := lastTD_eq hq hqd hn
      dsimp only
      rw [hlast]
      refine ⟨Function.update s.td b { s.td b with NextTD := td_list }, s.ed, rfl, ?_, ?_, ?_⟩
      · exact fun _ _ => rfl
      · intro t ht
        refine Function.update_of_ne (fun htb => ht ?_) _ _
        rw [htb]
        exact List.mem_append_right q (List.mem_singleton_self b)
      · have hnext : (fun t => (Function.update s.td b { s.td b with NextTD := td_list } t).NextTD) =
            Function.update s.NextTD b td_list :=
          setTD_NextTD s b { s.td b with NextTD := td_list }
        rw [hnext, hhead]
        have hb : b ∉ l := fun hbl => hdisj b (List.mem_append_right q (List.mem_singleton_self b)) b hbl rfl
        exact ⟨hq.chain hl hqd hb, rfl, rfl, rfl, rfl⟩

/-- An isochronous request whose ED is there: its TDs come after those in the queue. -/
theorem Inv.iso_old (h : Inv ep0 ⟨s, d⟩ L rem) {u p ed : ℕ} (ied : ℕ) {s₂ : State} {td_list : Option ℕ}
    {l : List ℕ} (hb : Building u (isoSchedule (s.setHwPipe p (some ed)) u ed) s₂ td_list l)
    (hfind : s.findInt u p = some ed) (hep0 : ep0 p = false) (hiso : (s.ep p).bmAttributes &&& 3 = 1)
    (hpriv : s.Private p ed) : ∃ L', Inv ep0 ⟨isoStart s₂ u ed ied td_list false, d⟩ L' rem := by
  obtain ⟨hmem, hInfo⟩ := h.findInt_mem hfind
  obtain ⟨ed₁, utr₁, hprep, hed₁⟩ := isoSchedule_eq (s.setHwPipe p (some ed)) u ed
  rw [hprep] at hb
  have hskip : (s.ed ed).Info &&& ED_SKIP = 0 := by
    rw [hInfo]
    exact ed_make_info_skip (s.utr u).udev (some (s.ep p))
  have hformat : (s.ed ed).Info &&& ED_FORMAT_ISO ≠ 0 := by
    rw [hInfo]
    exact (ed_make_info_iso (s.utr u).udev (s.ep p)).mpr hiso
  have htail : (s.ed ed).TailP = none := (h.tailed rfl hmem).iso hformat
  have hsame : ∀ a, SameED (s.ed a) (s₂.ed a) := fun a => (hed₁ a).trans (hb.ed a)
  have hfresh : ∀ t ∈ l, t < MEM_POOL_UNIT_NUM ∧ s.unit_used t = false := hb.fresh
  have hnot : ∀ t ∈ l, t ∉ L (.queue ed) := fun t ht => h.not_mem (hfresh t ht).2 _
  have hq : Links s₂.NextTD (s₂.ed ed).HeadP (L (.queue ed)) none := by
    rw [(hsame ed).HeadP]
    refine (Links.congr fun t ht => ?_).mpr (h.queue rfl hmem)
    exact congrArg TD_T.NextTD (hb.td t fun htl => hnot t htl ht)
  have hd : (L (.queue ed) ++ l).Nodup := List.nodup_append.mpr
    ⟨h.nodup _, hb.nodup, fun a ha b hbl hab => hnot b hbl (hab ▸ ha)⟩
  obtain ⟨td, ed₂, heq, hed₂, htd, hlinks, hInfo₂, hTailP, hNext, hInt⟩ :=
    isoAppend_eq (s := s₂.setUTR u { s₂.utr u with status := 0 }) hq hb.links hd (h.length_le _)
  rw [isoStart_old, heq]
  generalize hs' : State.mk _ _ _ _ _ _ _ _ _ _ _ _ = s'
  have hx : Extends s s' L .ints ed l (L .ints) (L (.queue ed) ++ l) := by
    refine .of_old h rfl hmem hskip hfresh ?_ ?_ hd ?_ ?_ ?_ ?_ ?_ ?_ ?_ ?_ ?_
    · rw [← hs']
      exact hb.used
    · intro t
      rw [List.mem_append]
    · intro a ha
      have hleft : s'.ed a = s₂.ed a := by
        rw [← hs']
        exact hed₂ a ha
      rw [hleft]
      exact hsame a
    · rw [← hs']
      exact hInfo₂.trans (hsame ed).Info
    · rw [← hs']
      exact hNext.trans (hsame ed).NextED
    · rw [← hs']
      exact hInt.trans (hsame ed).bInterval
    · intro t htl htq
      rw [← hs']
      exact congrArg TD_T.NextTD ((htd t htq).trans (hb.td t htl))
    · rw [← hs']
      exact hlinks
    · have htail' : (s'.ed ed).TailP = none := by
        rw [← hs']
        exact hTailP.trans ((hsame ed).TailP.trans htail)
      have hInfo' : (s'.ed ed).Info = (s.ed ed).Info := by
        rw [← hs']
        exact hInfo₂.trans (hsame ed).Info
      exact .of_none htail' (Or.inr (hInfo' ▸ hformat))
    · rw [← hs']
      exact State.head_congr hb.rest.control hb.rest.bulk hb.rest.Ied
    · rw [← hs']
      exact ⟨hb.rest.Ied, hb.rest.remove, hb.rest.done, hb.rest.events⟩
  refine ⟨_, h.extend hx (Or.inr ⟨p, by simp [hep0], hpriv, ?_, ?_⟩)⟩
  · intro hp0
    rw [hep0] at hp0
    cases hp0
  · intro p'
    rw [← hs', ← setHwPipe_hw_pipe]
    exact congrArg (fun ep : ℕ → Usb.EP_INFO_T => (ep p').hw_pipe) hb.rest.ep

/-- From `s` to `s₂` a new ED has been made and the TDs `l` for it, none of them in use yet. -/
structure Readied (s s₂ : State) (ed : ℕ) (info : BitVec 32) (b : BitVec 8) (td_list : Option ℕ) (l : List ℕ) :
    Prop where
  links : Links s₂.NextTD td_list l none
  nodup : (ed :: l).Nodup
  fresh : ∀ t ∈ ed :: l, t < MEM_POOL_UNIT_NUM ∧ s.unit_used t = false
  used : ∀ t, s₂.unit_used t = (s.unit_used t || decide (t ∈ ed :: l))
  eds : ∀ a ≠ ed, SameED (s.ed a) (s₂.ed a)
  ed : SameED { ED_T.zero with Info := info, bInterval := b } (s₂.ed ed)
  td : ∀ t ∉ l, s₂.td t = s.td t
  rest : SameRest s s₂

theorem Readied.of_building {u ed : ℕ} {info : BitVec 32} {b : BitVec 8} {s₁ s₂ : State} {td_list : Option ℕ}
    {l : List ℕ} (halloc : alloc_ohci_ED s = (some ed, s₁))
    (hb : Building u (isoSchedule (s₁.setED ed { s₁.ed ed with Info := info, HeadP := none, bInterval := b }) u ed)
      s₂ td_list l) : Readied s s₂ ed info b td_list l := by
  obtain ⟨hlt, hfree, hs₁⟩ := alloc_ohci_ED_eq_some halloc
  obtain ⟨ed₁, utr₁, hprep, hed₁⟩ := isoSchedule_eq
    (s₁.setED ed { s₁.ed ed with Info := info, HeadP := none, bInterval := b }) u ed
  rw [hprep, hs₁] at hb
  rw [hs₁] at hed₁
  have hused : ∀ t ∈ l, Function.update s.unit_used ed true t = false := fun t ht => (hb.fresh t ht).2
  have hnot : ed ∉ l := by
    intro hm
    have := hused ed hm
    rw [Function.update_self] at this
    cases this
  constructor
  · exact hb.links
  · exact List.nodup_cons.mpr ⟨hnot, hb.nodup⟩
  · intro t ht
    rcases List.mem_cons.mp ht with rfl | ht
    · exact ⟨hlt, hfree⟩
    · have hne : t ≠ ed := fun hte => hnot (hte ▸ ht)
      have := hused t ht
      rw [Function.update_of_ne hne] at this
      exact ⟨(hb.fresh t ht).1, this⟩
  · intro t
    refine (hb.used t).trans ?_
    change (Function.update s.unit_used ed true t || decide (t ∈ l)) = _
    by_cases hte : t = ed
    · simp [hte]
    · simp [hte]
  · intro a ha
    have hleft : SameED (s.ed a) (ed₁ a) := by
      have := hed₁ a
      rw [setED_ed, Function.update_of_ne ha] at this
      rw [show s.ed a = Function.update s.ed ed ED_T.zero a from (Function.update_of_ne ha _ _).symm]
      exact this
    exact hleft.trans (hb.ed a)
  · have hleft : SameED { ED_T.zero with Info := info, bInterval := b } (ed₁ ed) := by
      have := hed₁ ed
      simp only [State.setED, Function.update_self] at this
      exact this
    exact hleft.trans (hb.ed ed)
  · exact hb.td
  · exact ⟨hb.rest.control, hb.rest.bulk, hb.rest.Ied, hb.rest.remove, hb.rest.done, hb.rest.ep, hb.rest.events⟩

/-- An isochronous request with a new ED. -/
theorem Inv.iso_new (h : Inv ep0 ⟨s, d⟩ L rem) {u p ed : ℕ} {s₂ : State} {td_list : Option ℕ} {l : List ℕ}
    (hr : Readied s s₂ ed (s.info u p) (s.ep p).bInterval td_list l) (hiso : (s.ep p).bmAttributes &&& 3 = 1) :
    ∃ L', Inv ep0 ⟨isoStart s₂ u ed (get_int_tree_head_node s (s.ep p).bInterval) td_list true, d⟩ L' rem := by
  have hformat : s.info u p &&& ED_FORMAT_ISO ≠ 0 := (ed_make_info_iso (s.utr u).udev (s.ep p)).mpr hiso
  have hq : Links s₂.NextTD (s₂.ed ed).HeadP [] none := hr.ed.HeadP
  obtain ⟨td, ed₂, heq, hed₂, htd, hlinks, hInfo₂, hTailP, hNext, hInt⟩ :=
    isoAppend_eq (s := s₂.setUTR u { s₂.utr u with status := 0 }) hq hr.links (List.nodup_cons.mp hr.nodup).2
      (Nat.zero_le _)
  rw [isoStart_new, heq]
  generalize hs' : State.mk _ _ _ _ _ _ _ _ _ _ _ _ = s'
  have hInfo' : (s'.ed ed).Info = s.info u p := by
    rw [← hs']
    exact hInfo₂.trans hr.ed.Info
  have hx : ∃ l', Extends s (hookED s' ed (s.Ied (headLoop 5 0 (s.ep p).bInterval.toNat))) L .ints ed (ed :: l) l'
      l := by
    refine Extends.of_hung h (headLoop_le 5 0 _) List.mem_cons_self hr.fresh ?_ ?_ (List.nodup_cons.mp hr.nodup).2
      ?_ ?_ ?_ ?_ ?_ ?_ ?_ ?_
    · rw [← hs']
      exact hr.used
    · intro t
      have hne : t ∈ l → t ≠ ed := fun htl hte => (List.nodup_cons.mp hr.nodup).1 (hte ▸ htl)
      rw [List.mem_cons]
      tauto
    · intro a ha
      have hleft : s'.ed a = s₂.ed a := by
        rw [← hs']
        exact hed₂ a ha
      rw [hleft]
      exact hr.eds a ha
    · have hbInterval : (s'.ed ed).bInterval = (s.ep p).bInterval := by
        rw [← hs']
        exact hInt.trans hr.ed.bInterval
      rw [State.level, hbInterval]
    · rw [hInfo']
      exact ed_make_info_skip (s.utr u).udev (some (s.ep p))
    · intro t ht
      rw [← hs']
      exact congrArg TD_T.NextTD ((htd t List.not_mem_nil).trans
        (hr.td t fun htl => ht (List.mem_cons_of_mem ed htl)))
    · rw [← hs']
      exact hlinks
    · have htail : (s'.ed ed).TailP = none := by
        rw [← hs']
        exact hTailP.trans hr.ed.TailP
      exact .of_none htail (Or.inr (hInfo' ▸ hformat))
    · rw [← hs']
      exact State.head_congr hr.rest.control hr.rest.bulk hr.rest.Ied
    · rw [← hs']
      exact ⟨hr.rest.Ied, hr.rest.remove, hr.rest.done, hr.rest.events⟩
  obtain ⟨l', hx⟩ := hx
  refine ⟨_, h.extend hx (Or.inl ⟨Place.noConfusion, fun p' => ?_⟩)⟩
  have hep : (s'.ep p').hw_pipe = (s.ep p').hw_pipe := by
    rw [← hs']
    exact congrArg (fun ep : ℕ → Usb.EP_INFO_T => (ep p').hw_pipe) hr.rest.ep
  exact hep

/-- Short of TDs the request gives back those it has and the new ED. -/
theorem Inv.iso_undone (h : Inv ep0 ⟨s, d⟩ L rem) {ed : ℕ} {info : BitVec 32} {b : BitVec 8} {s₂ : State}
    {td_list : Option ℕ} {l : List ℕ} (hr : Readied s s₂ ed info b td_list l) :
    Inv ep0 ⟨free_ohci_ED (freeTDs MEM_POOL_UNIT_NUM s₂ td_list) ed, d⟩ L rem := by
  obtain ⟨hnot, hd⟩ := List.nodup_cons.mp hr.nodup
  have hfree : s.unit_used ed = false := (hr.fresh ed List.mem_cons_self).2
  have hlen : l.length ≤ MEM_POOL_UNIT_NUM :=
    length_le_pool hd fun t ht => (hr.fresh t (List.mem_cons_of_mem ed ht)).1
  have hused : ∀ t ∈ ed :: l, s₂.unit_used t = true := fun t ht => by
    rw [hr.used, decide_eq_true ht, Bool.or_true]
  have hfreed := freeTDs_eq hr.links hlen hd fun t ht => hused t (List.mem_cons_of_mem ed ht)
  generalize freeTDs MEM_POOL_UNIT_NUM s₂ td_list = s₃ at hfreed ⊢
  have hlinked : s₃.linked ed = false := by
    rw [hfreed]
    exact h.not_linked (h.not_mem hfree) (fun a ha => (hr.eds a ha).NextED)
      (State.head_congr hr.rest.control hr.rest.bulk hr.rest.Ied)
  have hused₃ : s₃.unit_used ed = true := by
    rw [hfreed]
    simp [hused ed List.mem_cons_self, hnot]
  refine h.given_back (F := ed :: l) (fun t ht => (hr.fresh t ht).2) ?_ ?_ ?_ ?_ ?_ ?_ ?_ ?_ ?_
  · intro t
    simp only [free_ohci_ED, hfreed]
    by_cases hte : t = ed
    · simp [hte]
    · by_cases htl : t ∈ l
      · simp [hte, htl]
      · simp [hte, htl, hr.used]
  · intro a ha
    have hne : a ≠ ed := fun hae => ha (hae ▸ List.mem_cons_self)
    simp only [free_ohci_ED, hfreed]
    exact hr.eds a hne
  · intro t ht
    simp only [free_ohci_ED, hfreed]
    exact hr.td t fun htl => ht (List.mem_cons_of_mem ed htl)
  · simp only [free_ohci_ED, hfreed]
    exact State.head_congr hr.rest.control hr.rest.bulk hr.rest.Ied
  · simp only [free_ohci_ED, hfreed]
    exact hr.rest.Ied
  · simp only [free_ohci_ED, hfreed]
    exact hr.rest.remove
  · simp only [free_ohci_ED, hfreed]
    exact hr.rest.done
  · intro p
    simp only [free_ohci_ED, hfreed]
    exact congrArg (fun ep : ℕ → Usb.EP_INFO_T => (ep p).hw_pipe) hr.rest.ep
  · simp only [free_ohci_ED, hlinked, hused₃]
    rw [hfreed]
    intro ev hev
    rcases List.mem_append.mp hev with hev | hev
    · have hclean : ∀ ev ∈ s₂.events, ev.Clean := by
        rw [hr.rest.events]
        exact h.clean
      exact free_clean hclean ev hev
    · rw [List.mem_singleton.mp hev]
      exact ⟨rfl, rfl⟩

/-- What `ohci_iso_xfer` does with the TDs that the loop has built for a new ED. -/
def isoFinish (u ed ied : ℕ) : Bool × State × Option ℕ → ℤ × State
  | (false, s, td_list) => (USBH_ERR_MEMORY_OUT, free_ohci_ED (freeTDs MEM_POOL_UNIT_NUM s td_list) ed)
  | (true, s, td_list) => (0, isoStart s u ed ied td_list true)

/-- An isochronous request keeps the units, if one that finds its ED gets all its units and the ED
is its own. -/
theorem Inv.iso_xfer (h : Inv ep0 ⟨s, d⟩ L rem) {u p : ℕ} (hep0 : ep0 p = false)
    (hiso : (s.ep p).bmAttributes &&& 3 = 1)
    (hcare : match s.findInt u p with
      | some e => IF_PER_UTR ≤ s.free ∧ s.Private p e
      | none => True) :
    ∃ L', Inv ep0 ⟨(ohci_iso_xfer s u p).2, d⟩ L' rem := by
  unfold ohci_iso_xfer
  dsimp only
  have hsearch : Links.search s.NextED (fun e => (s.ed e).Info = ed_make_info (s.utr u).udev (some (s.ep p)))
      MEM_POOL_UNIT_NUM (some (get_int_tree_head_node s (s.ep p).bInterval)) = s.findInt u p := rfl
  rw [hsearch]
  cases hfind : s.findInt u p with
  | some ed =>
    rw [hfind] at hcare
    dsimp only [Option.isNone_some]
    obtain ⟨ok, s₂, td_list, l, heq, hb, -, hok⟩ := isoLoop_built u ed _ IF_PER_UTR 0 _ none none []
      (Building.refl u (isoSchedule (s.setHwPipe p (some ed)) u ed)) (fun t ht => Option.noConfusion rfl (heq_of_eq ht))
      fun _ => rfl
    have hfree : (isoSchedule (s.setHwPipe p (some ed)) u ed).free = s.free := by
      obtain ⟨ed₁, utr₁, hprep, -⟩ := isoSchedule_eq (s.setHwPipe p (some ed)) u ed
      rw [hprep]
      rfl
    obtain rfl := hok (hcare.1.trans_eq hfree.symm)
    rw [isoPrepare_old, heq]
    exact h.iso_old (get_int_tree_head_node s (s.ep p).bInterval) hb hfind hep0 hiso hcare.2
  | none =>
    dsimp only [Option.isNone_none]
    cases halloc : alloc_ohci_ED s with
    | mk o s₁ =>
    cases o with
    | none =>
      obtain ⟨-, rfl⟩ := alloc_ohci_ED_eq_none halloc
      exact ⟨L, h⟩
    | some ed =>
      dsimp only
      obtain ⟨ok, s₂, td_list, l, heq, hb, -, -⟩ := isoLoop_built u ed _ IF_PER_UTR 0 _ none none []
        (Building.refl u (isoSchedule (s₁.setED ed { s₁.ed ed with
          Info := s.info u p
          HeadP := none
          bInterval := (s.ep p).bInterval }) u ed)) (fun t ht => Option.noConfusion rfl (heq_of_eq ht)) fun _ => rfl
      have hr : Readied s s₂ ed (s.info u p) (s.ep p).bInterval td_list l := .of_building halloc hb
      rw [isoPrepare_new]
      change ∃ L', Inv ep0 ⟨(isoFinish u ed (get_int_tree_head_node s (s.ep p).bInterval)
        (isoLoop u ed IF_PER_UTR 0 (isoSchedule (s₁.setED ed { s₁.ed ed with
          Info := s.info u p
          HeadP := none
          bInterval := (s.ep p).bInterval }) u ed) none none)).2, d⟩ L' rem
      rw [heq]
      cases ok with
      | false => exact ⟨L, h.iso_undone hr⟩
      | true => exact h.iso_new hr hiso

end

end Ohci
