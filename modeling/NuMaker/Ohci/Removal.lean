/-
The removal pass.
-/
import NuMaker.Ohci.Layout

namespace Ohci

/-! ### Unlinking -/

/-- The list that `remove_ed` searches for an ED. -/
def State.sought (s : State) (e : ℕ) : Place :=
  if (s.ed e).Info &&& ED_EP_ADDR_Msk = 0 then .control
  else if 0 < (s.ed e).bInterval then .ints
  else .bulk

theorem unlinkLoop_absent {e : ℕ} {s : State} : ∀ {l : List ℕ} {n : ℕ} {h : Option ℕ} {found : Bool},
    Links s.NextED h l none → (∀ a ∈ l, s.NextED a ≠ some e) → unlinkLoop e n s h found = (s, found) := by
  intro l
  induction l with
  | nil =>
    intro n h found hl _
    obtain rfl : h = none := hl
    cases n with
    | zero => rfl
    | succ n => rfl
  | cons a l ih =>
    intro n h found hl hne
    obtain ⟨rfl, hl⟩ := hl
    cases n with
    | zero => rfl
    | succ n =>
      have ha : ¬ (s.ed a).NextED = some e := hne a List.mem_cons_self
      rw [unlinkLoop, if_neg ha]
      exact ih hl fun b hb => hne b (List.mem_cons_of_mem a hb)

/-- The loop links the node that leads to the ED on, and finds no other. -/
theorem unlinkLoop_present {e p : ℕ} {s : State} : ∀ {l : List ℕ} {n : ℕ} {h : Option ℕ} {found : Bool},
    Links s.NextED h l none → l.Nodup → l.length ≤ n → p ∈ l → (∀ a ∈ l, s.NextED a = some e ↔ a = p) →
    unlinkLoop e n s h found = (s.setED p { s.ed p with NextED := (s.ed e).NextED }, true) := by
  intro l
  induction l with
  | nil =>
    intro n h found _ _ _ hp
    cases hp
  | cons a l ih =>
    intro n h found hl hd hn hp hiff
    obtain ⟨rfl, hl⟩ := hl
    obtain ⟨hal, hd⟩ := List.nodup_cons.mp hd
    obtain ⟨n, rfl⟩ := Nat.exists_eq_succ_of_ne_zero (Nat.ne_of_gt (Nat.zero_lt_of_lt hn))
    rw [unlinkLoop]
    by_cases hap : a = p
    · subst hap
      have hnext : s.NextED a = some e := (hiff a List.mem_cons_self).mpr rfl
      rw [hnext] at hl
      cases l with
      | nil => exact absurd hl (by simp)
      | cons b l =>
        obtain ⟨hb, hl⟩ := hl
        obtain rfl := Option.some_inj.mp hb
        have hal' : a ∉ l := fun ha => hal (List.mem_cons_of_mem e ha)
        rw [if_pos (show (s.ed a).NextED = some e from hnext)]
        have hrest : (s.setED a { s.ed a with NextED := (s.ed e).NextED }).NextED =
            Function.update s.NextED a (s.ed e).NextED := setED_NextED s a _
        refine unlinkLoop_absent (l := l) ?_ ?_
        · rw [hrest, setED_ed, Function.update_self]
          exact (Links.update_iff hal' _).mpr hl
        · intro b hb
          have hba : b ≠ a := fun h => hal' (h ▸ hb)
          rw [hrest, Function.update_of_ne hba]
          exact fun h => hba ((hiff b (by simp [hb])).mp h)
    · have hne : ¬ (s.ed a).NextED = some e := fun h => hap ((hiff a List.mem_cons_self).mp h)
      rw [if_neg hne]
      have hpl : p ∈ l := (List.mem_cons.mp hp).resolve_left (Ne.symm hap)
      exact ih hl hd (Nat.le_of_succ_le_succ hn) hpl fun b hb => hiff b (List.mem_cons_of_mem a hb)

/-- The EDs and the heads of their lists may be others. -/
structure ListsOnly (s s' : State) : Prop where
  unit_used : s'.unit_used = s.unit_used
  td : s'.td = s.td
  Ied : s'.Ied = s.Ied
  remove : s'.ed_remove_list = s.ed_remove_list
  done : s'.done_head = s.done_head
  frame_no : s'.frame_no = s.frame_no
  utr : s'.utr = s.utr
  ep : s'.ep = s.ep
  events : s'.events = s.events

/-- `e` has been taken out of the lists, and nothing else has changed. -/
structure Unlinked (s s' : State) (L : Place → List ℕ) (e : ℕ) : Prop where
  same : ListsOnly s s'
  ed : ∀ a, s'.ed a = { s.ed a with NextED := (s'.ed a).NextED }
  lists : ∀ o, o.scheduled = true → Links s'.NextED (s'.head o) ((L o).filter (· ≠ e)) none

theorem filter_ne_self {l : List ℕ} {e : ℕ} (h : e ∉ l) : l.filter (· ≠ e) = l := by
  rw [List.filter_eq_self]
  intro a ha
  exact decide_eq_true fun hae => h (hae ▸ ha)

section

variable {s : State} {L : Place → List ℕ} {rem : List ℕ} {e : ℕ} {o : Place}

/-- The node before `e` is linked on. -/
theorem Layout.unlinked_set (h : Layout s L rem) (ho : o.scheduled = true) (he : e ∈ L o) {p : ℕ}
    (hp : p ∈ L o)
    (hl : Links (Function.update s.NextED p (s.NextED e)) (s.head o) ((L o).filter (· ≠ e)) none) :
    Unlinked s (s.setED p { s.ed p with NextED := (s.ed e).NextED }) L e := by
  constructor
  · exact ⟨rfl, rfl, rfl, rfl, rfl, rfl, rfl, rfl, rfl⟩
  · intro a
    rw [setED_ed]
    by_cases ha : a = p
    · subst ha
      rw [Function.update_self]
    · rw [Function.update_of_ne ha]
  · intro o' ho'
    rw [setED_NextED]
    have hhead : (s.setED p { s.ed p with NextED := (s.ed e).NextED }).head o' = s.head o' := by
      match o' with
      | .control | .bulk | .ints | .loose | .queue _ | .done | .pending => rfl
    rw [hhead]
    by_cases hoo : o' = o
    · subst hoo
      exact hl
    · rw [filter_ne_self fun hm => hoo (h.once hm he)]
      exact (Links.update_iff (fun hm => hoo (h.once hm hp)) _).mpr (h.lists o' ho')

/-- The head of the control list or of the bulk list moves on. -/
theorem Layout.unlinked_head (h : Layout s L rem) (he : e ∈ L o) {s' : State} (hed : s'.ed = s.ed)
    (hsame : ListsOnly s s') (hhead : s'.head o = s.NextED e) (hother : ∀ o' ≠ o, s'.head o' = s.head o')
    (hl : Links s.NextED (s.NextED e) ((L o).filter (· ≠ e)) none) : Unlinked s s' L e := by
  have hN : s'.NextED = s.NextED := by
    funext a
    rw [State.NextED, State.NextED, hed]
  refine ⟨hsame, fun a => by rw [hed], ?_⟩
  intro o' ho'
  rw [hN]
  by_cases hoo : o' = o
  · subst hoo
    rw [hhead]
    exact hl
  · rw [hother o' hoo, filter_ne_self fun hm => hoo (h.once hm he)]
    exact h.lists o' ho'

/-- An ED that is on the list `remove_ed` searches is taken out. -/
theorem Layout.unlinkED_found (h : Layout s L rem) (hrem : e ∈ rem) (he : e ∈ L (s.sought e)) :
    ∃ s', unlinkED s e = (s', true) ∧ Unlinked s s' L e := by
  unfold State.sought at he
  unfold unlinkED
  by_cases hep : (s.ed e).Info &&& ED_EP_ADDR_Msk = 0
  · rw [if_pos hep] at he ⊢
    rcases Links.takeOut (h.lists .control rfl) (h.nodup _) he with ⟨hh, hl⟩ | ⟨p, hp, hh, -, hiff, hl⟩
    · rw [if_pos (show s.HcControlHeadED = some e from hh)]
      refine ⟨_, rfl, h.unlinked_head he rfl ⟨rfl, rfl, rfl, rfl, rfl, rfl, rfl, rfl, rfl⟩ rfl ?_ hl⟩
      intro o' ho'
      match o' with
      | .control => exact absurd rfl ho'
      | .bulk | .ints | .loose | .queue _ | .done | .pending => rfl
    · rw [if_neg (show ¬ s.HcControlHeadED = some e from hh)]
      exact ⟨_, unlinkLoop_present (h.lists .control rfl) (h.nodup _) (h.length_le _) hp hiff,
        h.unlinked_set rfl he hp hl⟩
  · rw [if_neg hep] at he ⊢
    by_cases hb : 0 < (s.ed e).bInterval
    · rw [if_pos hb] at he ⊢
      -- an interrupt ED is not a node: the search begins above it
      have hnot : ∀ i ≤ 5, e ≠ s.Ied i := fun i hi hei => (h.nodes i hi).2 (hei ▸ hrem)
      obtain ⟨l₁, l₂, heq, hl₂⟩ := h.below_split he hnot
      have hints := h.lists .ints rfl
      have hd := h.nodup .ints
      rcases Links.takeOut hints hd he with ⟨hh, -⟩ | ⟨p, hp, hh, -, hiff, hl⟩
      · exact absurd (Option.some_inj.mp hh).symm (hnot 5 (le_refl 5))
      · rw [heq] at hints hd
        have hfrom : Links s.NextED (some (s.node e)) (s.node e :: l₂) none := ⟨rfl, Links.next_eq hints⟩
        have hd₂ : (s.node e :: l₂).Nodup := (List.nodup_append.mp hd).2.1
        have hsub : ∀ a ∈ s.node e :: l₂, a ∈ L .ints := fun a ha => heq ▸ List.mem_append_right l₁ ha
        have hp₂ : p ∈ s.node e :: l₂ := by
          rcases Links.takeOut hfrom hd₂ (List.mem_cons_of_mem _ hl₂) with ⟨hh', -⟩ | ⟨p', hp', -, -, hiff', -⟩
          · obtain ⟨i, hi, hnode⟩ := node_eq s e
            exact absurd (Option.some_inj.mp hh').symm (hnode ▸ hnot i hi)
          · have hpp := (hiff p' (hsub p' hp')).mp ((hiff' p' hp').mpr rfl)
            exact hpp ▸ hp'
        have hsearch : Links.search s.NextED (fun ed => s.NextED ed = some e) MEM_POOL_UNIT_NUM
            (some (s.node e)) = some p := by
          refine Links.search_eq_some hfrom ?_ hp₂ ?_
          · exact length_le_pool hd₂ fun t ht => (h.pool (hsub t ht)).1
          · intro b hb'
            rw [decide_eq_true_iff]
            exact hiff b (hsub b hb')
        have hgo : get_int_tree_head_node s (s.ed e).bInterval = s.node e := rfl
        refine ⟨s.setED p { s.ed p with NextED := (s.ed e).NextED }, ?_, h.unlinked_set rfl he hp hl⟩
        rw [hgo]
        dsimp only
        rw [hsearch]
    · rw [if_neg hb] at he ⊢
      rcases Links.takeOut (h.lists .bulk rfl) (h.nodup _) he with ⟨hh, hl⟩ | ⟨p, hp, hh, -, hiff, hl⟩
      · rw [if_pos (show s.HcBulkHeadED = some e from hh)]
        refine ⟨_, rfl, h.unlinked_head he rfl ⟨rfl, rfl, rfl, rfl, rfl, rfl, rfl, rfl, rfl⟩ rfl ?_ hl⟩
        intro o' ho'
        match o' with
        | .bulk => exact absurd rfl ho'
        | .control | .ints | .loose | .queue _ | .done | .pending => rfl
      · rw [if_neg (show ¬ s.HcBulkHeadED = some e from hh)]
        exact ⟨_, unlinkLoop_present (h.lists .bulk rfl) (h.nodup _) (h.length_le _) hp hiff,
          h.unlinked_set rfl he hp hl⟩

/-- An ED that is not on that list is not found. -/
theorem Layout.unlinkED_absent (h : Layout s L rem) (he : e ∉ L (s.sought e)) :
    unlinkED s e = (s, false) := by
  have hnext : ∀ o, o.scheduled = true → e ∉ L o → ∀ a ∈ L o, s.NextED a ≠ some e := by
    intro o ho hne a ha hnext
    exact hne (Links.mem_of_next (h.lists o ho) ha hnext)
  have hhead : ∀ o, o.scheduled = true → e ∉ L o → s.head o ≠ some e := by
    intro o ho hne hh
    rw [(h.lists o ho).head_eq] at hh
    exact hne (List.mem_of_mem_head? hh)
  unfold State.sought at he
  unfold unlinkED
  by_cases hep : (s.ed e).Info &&& ED_EP_ADDR_Msk = 0
  · rw [if_pos hep] at he ⊢
    rw [if_neg (show ¬ s.HcControlHeadED = some e from hhead .control rfl he)]
    exact unlinkLoop_absent (h.lists .control rfl) (hnext .control rfl he)
  · rw [if_neg hep] at he ⊢
    by_cases hb : 0 < (s.ed e).bInterval
    · rw [if_pos hb] at he ⊢
      obtain ⟨l₁, l₂, heq, hfrom⟩ := h.fromNode e
      have hsub : ∀ a ∈ s.node e :: l₂, a ∈ L .ints := fun a ha => heq ▸ List.mem_append_right l₁ ha
      have hd : (s.node e :: l₂).Nodup := (List.nodup_append.mp (heq ▸ h.nodup .ints)).2.1
      have hsearch : Links.search s.NextED (fun ed => s.NextED ed = some e) MEM_POOL_UNIT_NUM
          (some (s.node e)) = none := by
        rw [Links.search_eq_find? _ hfrom (length_le_pool hd fun t ht => (h.pool (hsub t ht)).1),
          List.find?_eq_none]
        intro a ha
        rw [decide_eq_true_iff]
        exact hnext .ints rfl he a (hsub a ha)
      have hgo : get_int_tree_head_node s (s.ed e).bInterval = s.node e := rfl
      rw [hgo]
      dsimp only
      rw [hsearch]
    · rw [if_neg hb] at he ⊢
      rw [if_neg (show ¬ s.HcBulkHeadED = some e from hhead .bulk rfl he)]
      exact unlinkLoop_absent (h.lists .bulk rfl) (hnext .bulk rfl he)

end

/-! ### The TDs of a removed ED -/

theorem removeTDs_eq : ∀ {l : List ℕ} {n : ℕ} {s : State} {h : Option ℕ}, Links s.NextTD h l none →
    l.length ≤ n → l.Nodup → (∀ t ∈ l, s.unit_used t = true) →
    ∃ utr, removeTDs n s h = { s with
      unit_used := fun t => s.unit_used t && decide (t ∉ l)
      utr := utr
      events := s.events ++ l.map fun t => .free_ohci_TD t true } := by
  intro l
  induction l with
  | nil =>
    intro n s h hl _ _ _
    obtain rfl : h = none := hl
    refine ⟨s.utr, ?_⟩
    cases n with
    | zero => simp [removeTDs]
    | succ n => simp [removeTDs]
  | cons a l ih =>
    intro n s h hl hn hd hu
    obtain ⟨rfl, hl⟩ := hl
    obtain ⟨hal, hd⟩ := List.nodup_cons.mp hd
    obtain ⟨n, rfl⟩ := Nat.exists_eq_succ_of_ne_zero (Nat.ne_of_gt (Nat.zero_lt_of_lt hn))
    have hu' : ∀ t ∈ l, Function.update s.unit_used a false t = true := by
      intro t ht
      rw [Function.update_of_ne fun hta : t = a => hal (hta ▸ ht)]
      exact hu t (List.mem_cons_of_mem a ht)
    have hused : (fun t => Function.update s.unit_used a false t && decide (t ∉ l)) =
        fun t => s.unit_used t && decide (t ∉ a :: l) := by
      funext t
      by_cases hta : t = a
      · subst hta
        simp
      · simp [hta]
    -- nothing that the rest of the list depends on is in the requests
    have hrest : ∀ utr, ∃ utr', removeTDs n { s with
          unit_used := Function.update s.unit_used a false
          utr := utr
          events := s.events ++ [.free_ohci_TD a true] } (s.td a).NextTD = { s with
        unit_used := fun t => s.unit_used t && decide (t ∉ a :: l)
        utr := utr'
        events := s.events ++ (a :: l).map fun t => .free_ohci_TD t true } := by
      intro utr
      obtain ⟨utr', heq⟩ := ih (s := { s with
        unit_used := Function.update s.unit_used a false
        utr := utr
        events := s.events ++ [.free_ohci_TD a true] }) hl (Nat.le_of_succ_le_succ hn) hd hu'
      refine ⟨utr', heq.trans ?_⟩
      rw [hused, List.map_cons, List.append_assoc, List.singleton_append]
    have hfree : free_ohci_TD s (some a) = { s with
        unit_used := Function.update s.unit_used a false
        events := s.events ++ [.free_ohci_TD a true] } := by
      rw [free_ohci_TD, hu a List.mem_cons_self]
    rw [removeTDs, hfree]
    cases (s.td a).utr with
    | none => exact hrest s.utr
    | some u => exact hrest (Function.update s.utr u (s.utr u).abort)

/-! ### One endpoint -/

/-- An ED on a list of the controller is on the list `remove_ed` searches for it. -/
def Sought (s : State) (L : Place → List ℕ) (e : ℕ) : Prop :=
  ∀ o, o.scheduled = true → e ∈ L o → o = s.sought e

section

variable {s : State} {L : Place → List ℕ} {rem : List ℕ} {e : ℕ}

theorem Unlinked.refl (h : Layout s L rem) (he : ∀ o, o.scheduled = true → e ∉ L o) : Unlinked s s L e := by
  refine ⟨⟨rfl, rfl, rfl, rfl, rfl, rfl, rfl, rfl, rfl⟩, fun _ => rfl, fun o ho => ?_⟩
  rw [filter_ne_self (he o ho)]
  exact h.lists o ho

/-- Taken out, an ED is not linked. -/
theorem Unlinked.linked {s' : State} (hu : Unlinked s s' L e) (h : Layout s L rem) : s'.linked e = false := by
  rw [Bool.eq_false_iff]
  intro hl
  have hlen : ∀ o, ((L o).filter (· ≠ e)).length ≤ MEM_POOL_UNIT_NUM := fun o =>
    (List.length_filter_le _ _).trans (h.length_le o)
  obtain ⟨o, -, he⟩ := (linked_iff hu.lists hlen e).mp hl
  simp at he

/-- What `remove_ed` does with the first ED of the removal list, if it searches the right
list. -/
theorem Layout.removeFirst_eq (h : Layout s L (e :: rem)) (hs : Sought s L e) :
    ∃ s₁ utr tds, Unlinked s s₁ L e ∧
      (tds = L (.queue e) ∨ tds = [] ∧ ∀ o, o.scheduled = true → e ∉ L o) ∧
      removeFirst s e = { s with
        unit_used := Function.update (fun t => s.unit_used t && decide (t ∉ tds)) e false
        ed := s₁.ed
        HcControlHeadED := s₁.HcControlHeadED
        HcBulkHeadED := s₁.HcBulkHeadED
        utr := utr
        ed_remove_list := (s.ed e).next
        events := s.events ++ (tds.map fun t => .free_ohci_TD t true) ++ [.free_ohci_ED e true false] } := by
  obtain ⟨o, ho, heo⟩ := h.rem_ed e List.mem_cons_self
  have hequeue : e ∉ L (.queue e) := by
    intro hq
    rw [h.once heo hq] at ho
    cases ho
  have hused : s.unit_used e = true := (h.pool heo).2
  have hfree : ∀ σ : State, σ.unit_used e = true → σ.linked e = false → free_ohci_ED σ e = { σ with
      unit_used := Function.update σ.unit_used e false
      events := σ.events ++ [.free_ohci_ED e true false] } := by
    intro σ hσ hl
    rw [free_ohci_ED, hσ, hl]
  unfold removeFirst
  by_cases hfound : e ∈ L (s.sought e)
  · obtain ⟨s₁, heq, hu⟩ := h.unlinkED_found List.mem_cons_self hfound
    have hN : s₁.NextTD = s.NextTD := by
      funext t
      rw [State.NextTD, State.NextTD, hu.same.td]
    have hhead : (s₁.ed e).HeadP = (s.ed e).HeadP := by rw [hu.ed e]
    have hnext : (s₁.ed e).next = (s.ed e).next := by rw [hu.ed e]
    have hq := h.queue ho heo
    rw [← hN, ← hhead] at hq
    obtain ⟨utr, htds⟩ := removeTDs_eq hq (h.length_le _) (h.nodup _) fun t ht => by
      rw [hu.same.unit_used]
      exact (h.pool ht).2
    refine ⟨s₁, utr, L (.queue e), hu, Or.inl rfl, ?_⟩
    rw [heq]
    dsimp only
    rw [if_pos rfl, htds, hfree]
    · simp only [hu.same.unit_used, hu.same.td, hu.same.Ied, hu.same.done, hu.same.frame_no, hu.same.ep,
        hu.same.events, hnext]
    · simp [hu.same.unit_used, hused, hequeue]
    · exact hu.linked h
  · have hloose : ∀ o, o.scheduled = true → e ∉ L o := fun o ho he => hfound (hs o ho he ▸ he)
    have hu := Unlinked.refl h hloose
    refine ⟨s, s.utr, [], hu, Or.inr ⟨rfl, hloose⟩, ?_⟩
    rw [h.unlinkED_absent hfound]
    dsimp only
    rw [if_neg Bool.false_ne_true, hfree]
    · simp
    · exact hused
    · exact hu.linked h

/-- After the first ED is removed the rest is where it was. -/
theorem Layout.removeFirst_layout (h : Layout s L (e :: rem)) (hs : Sought s L e) :
    Layout (removeFirst s e) (without L [e]) rem := by
  obtain ⟨o₁, ho₁, heo₁⟩ := h.rem_ed e List.mem_cons_self
  obtain ⟨s₁, utr, tds, hu, htds, heq⟩ := h.removeFirst_eq hs
  obtain ⟨hremove, hrest⟩ := List.nodup_cons.mp h.rem_nodup
  have htd : (removeFirst s e).td = s.td := by rw [heq]
  have hed : (removeFirst s e).ed = s₁.ed := by rw [heq]
  have hI : (removeFirst s e).Ied = s.Ied := by rw [heq]
  have hdone : (removeFirst s e).done_head = s.done_head := by rw [heq]
  have hNTD : (removeFirst s e).NextTD = s.NextTD := by
    funext t
    rw [State.NextTD, State.NextTD, htd]
  have hHeadP : ∀ a, ((removeFirst s e).ed a).HeadP = (s.ed a).HeadP := fun a => by rw [hed, hu.ed a]
  have hnext : (removeFirst s e).next = s.next := by
    funext a
    rw [State.next, State.next, hed, hu.ed a]
  have hInfo : ∀ a, ((removeFirst s e).ed a).Info = (s.ed a).Info := fun a => by rw [hed, hu.ed a]
  have hInt : ∀ a, ((removeFirst s e).ed a).bInterval = (s.ed a).bInterval := fun a => by rw [hed, hu.ed a]
  have hnode : ∀ a, (removeFirst s e).node a = s.node a := by
    intro a
    rw [State.node, State.node, get_int_tree_head_node, get_int_tree_head_node, hInt, hI]
  have hne : ∀ {o t}, t ∈ without L [e] o → t ≠ e := by
    rintro o t ht rfl
    have hoo := h.once (without_subset ht) heo₁
    rw [hoo, without_singleton ho₁] at ht
    simp at ht
  constructor
  · exact fun o => without_nodup (h.nodup o)
  · exact fun ht ht' => h.once (without_subset ht) (without_subset ht')
  · intro o t ht
    have hu' : (removeFirst s e).unit_used t = (s.unit_used t && decide (t ∉ tds)) := by
      rw [heq]
      dsimp only
      rw [Function.update_of_ne (hne ht)]
    have hnot : t ∉ tds := by
      intro htt
      rcases htds with rfl | ⟨rfl, -⟩
      · rw [h.once (without_subset ht) htt] at ht
        simp [without] at ht
      · cases htt
    obtain ⟨hlt, hused⟩ := h.pool (without_subset ht)
    exact ⟨hlt, by rw [hu', hused, decide_eq_true hnot]; rfl⟩
  · intro o ho
    have hhead : (removeFirst s e).head o = s₁.head o :=
      State.head_congr (by rw [heq]) (by rw [heq]) (by rw [hI, hu.same.Ied]) o
    have hN : (removeFirst s e).NextED = s₁.NextED := by
      funext a
      rw [State.NextED, State.NextED, hed]
    rw [hhead, hN, without_singleton (Place.ofED_of_scheduled ho)]
    exact hu.lists o ho
  · intro o a ho ha
    have hqueue : without L [e] (.queue a) = L (.queue a) := by
      rw [without, if_neg]
      simpa using hne ha
    rw [hNTD, hHeadP, hqueue]
    exact h.queue ho (without_subset ha)
  · rw [hNTD, hdone]
    exact h.done
  · have hremove' : (removeFirst s e).ed_remove_list = s.next e := by
      rw [heq]
      rfl
    rw [hnext, hremove']
    exact h.remove.2
  · exact hrest
  · intro a ha
    obtain ⟨o, ho, hao⟩ := h.rem_ed a (List.mem_cons_of_mem e ha)
    refine ⟨o, ho, ?_⟩
    rw [without_singleton ho, List.mem_filter]
    exact ⟨hao, decide_eq_true fun hae => hremove (hae ▸ ha)⟩
  · intro i hi
    obtain ⟨hmem, hnot⟩ := h.nodes i hi
    rw [List.mem_cons, not_or] at hnot
    rw [hI, without_singleton rfl, List.mem_filter]
    exact ⟨⟨hmem, decide_eq_true hnot.1⟩, hnot.2⟩
  · intro a ha hnot
    rw [hI] at hnot
    obtain ⟨i, hi, hi'⟩ := node_eq s a
    have hnode_ne : s.node a ≠ e := by
      rw [hi']
      exact fun h' => (h.nodes i hi).2 (h' ▸ List.mem_cons_self)
    have hkept : [s.node a, a].filter (· ≠ e) = [s.node a, a] := by
      simp [hnode_ne, hne ha]
    rw [without_singleton rfl, hnode, ← hkept]
    exact (h.below a (without_subset ha) hnot).filter _
  · intro a ha
    rw [hInfo]
    exact h.number a (without_subset ha)
  · intro a ha
    rw [hInt]
    exact h.plain a (without_subset ha)

/-- An ED that is on another list than the one searched is freed where it is. -/
theorem Layout.removeFirst_linked (h : Layout s L (e :: rem)) {o : Place} (ho : o.scheduled = true)
    (he : e ∈ L o) (hne : o ≠ s.sought e) :
    (removeFirst s e).events = s.events ++ [.free_ohci_ED e true true] := by
  have habsent : e ∉ L (s.sought e) := fun h' => hne (h.once he h')
  have hlinked : s.linked e = true := (linked_iff h.lists h.length_le e).mpr ⟨o, ho, he⟩
  unfold removeFirst
  rw [h.unlinkED_absent habsent]
  dsimp only
  rw [if_neg Bool.false_ne_true, free_ohci_ED]
  have hused : s.unit_used e = true := (h.pool he).2
  exact congrArg₂ (fun a b => s.events ++ [.free_ohci_ED e a b]) hused hlinked

end

/-! ### What has happened -/

def Event.doneTD : Event → Option (ℕ × Bool)
  | .td_done t used => some (t, used)
  | .free_ohci_TD _ _ | .free_ohci_ED _ _ _ => none

def Event.freedED : Event → Option (ℕ × Bool × Bool)
  | .free_ohci_ED e used linked => some (e, used, linked)
  | .td_done _ _ | .free_ohci_TD _ _ => none

/-- The TDs done with and the EDs freed, in order; every TD freed was in use. -/
structure Log (evs : List Event) (dones : List (ℕ × Bool)) (eds : List (ℕ × Bool × Bool)) : Prop where
  dones : evs.filterMap Event.doneTD = dones
  eds : evs.filterMap Event.freedED = eds
  tds : ∀ t used, Event.free_ohci_TD t used ∈ evs → used = true

theorem Log.nil : Log [] [] [] := ⟨rfl, rfl, by simp⟩

theorem Log.append {evs evs' : List Event} {dones dones' : List (ℕ × Bool)}
    {eds eds' : List (ℕ × Bool × Bool)} (h : Log evs dones eds) (h' : Log evs' dones' eds') :
    Log (evs ++ evs') (dones ++ dones') (eds ++ eds') := by
  constructor
  · rw [List.filterMap_append, h.dones, h'.dones]
  · rw [List.filterMap_append, h.eds, h'.eds]
  · intro t used ht
    rcases List.mem_append.mp ht with ht | ht
    · exact h.tds t used ht
    · exact h'.tds t used ht

theorem Log.frees (tds : List ℕ) : Log (tds.map fun t => .free_ohci_TD t true) [] [] := by
  refine ⟨?_, ?_, ?_⟩
  · rw [List.filterMap_map, List.filterMap_eq_nil_iff]
    exact fun _ _ => rfl
  · rw [List.filterMap_map, List.filterMap_eq_nil_iff]
    exact fun _ _ => rfl
  · intro t used ht
    obtain ⟨t', -, h⟩ := List.mem_map.mp ht
    exact (Event.free_ohci_TD.inj h).2.symm

/-! ### The pass -/

/-- But for the links between the EDs the descriptors are the same. -/
structure Relinked (s s' : State) : Prop where
  ed : ∀ a, s'.ed a = { s.ed a with NextED := (s'.ed a).NextED }
  td : s'.td = s.td
  Ied : s'.Ied = s.Ied
  done : s'.done_head = s.done_head
  frame_no : s'.frame_no = s.frame_no
  ep : s'.ep = s.ep

theorem Relinked.refl (s : State) : Relinked s s := ⟨fun _ => rfl, rfl, rfl, rfl, rfl, rfl⟩

theorem Relinked.trans {s s' s'' : State} (h : Relinked s s') (h' : Relinked s' s'') : Relinked s s'' := by
  refine ⟨?_, h'.td.trans h.td, h'.Ied.trans h.Ied, h'.done.trans h.done, h'.frame_no.trans h.frame_no,
    h'.ep.trans h.ep⟩
  intro a
  rw [h'.ed a, h.ed a]

theorem Relinked.sought {s s' : State} (h : Relinked s s') (e : ℕ) : s'.sought e = s.sought e := by
  rw [State.sought, State.sought, h.ed e]

section

variable {s : State} {L : Place → List ℕ}

theorem Layout.removeFirst_relinked {e : ℕ} {rem : List ℕ} (h : Layout s L (e :: rem)) (hs : Sought s L e) :
    Relinked s (removeFirst s e) := by
  obtain ⟨s₁, utr, tds, hu, -, heq⟩ := h.removeFirst_eq hs
  rw [heq]
  exact ⟨hu.ed, rfl, rfl, rfl, rfl, rfl⟩

/-- If every ED is on the list that is searched for it, the pass takes all of them out. -/
theorem Layout.removeLoop_eq : ∀ {rem : List ℕ} {n : ℕ} {s : State} {L : Place → List ℕ}, Layout s L rem →
    rem.length ≤ n → (∀ e ∈ rem, Sought s L e) →
    Layout (removeLoop n s) (without L rem) [] ∧ Relinked s (removeLoop n s) ∧
      ∃ evs, (removeLoop n s).events = s.events ++ evs ∧ Log evs [] (rem.map fun e => (e, true, false)) := by
  intro rem
  induction rem with
  | nil =>
    intro n s L h _ _
    have hnone : s.ed_remove_list = none := h.remove
    have hdone : removeLoop n s = s := by
      cases n with
      | zero => rfl
      | succ n => rw [removeLoop, hnone]
    have hL : without L [] = L := by
      funext o
      match o with
      | .control | .bulk | .ints | .loose => exact List.filter_eq_self.mpr (by simp)
      | .queue _ | .done | .pending => rfl
    rw [hdone, hL]
    exact ⟨h, .refl s, [], by simp, Log.nil⟩
  | cons e rem ih =>
    intro n s L h hn hs
    obtain ⟨n, rfl⟩ := Nat.exists_eq_succ_of_ne_zero (Nat.ne_of_gt (Nat.zero_lt_of_lt hn))
    have hse := hs e List.mem_cons_self
    have hfirst := h.removeFirst_layout hse
    have hrel := h.removeFirst_relinked hse
    have hs' : ∀ a ∈ rem, Sought (removeFirst s e) (without L [e]) a := by
      intro a ha o ho hao
      rw [hrel.sought]
      exact hs a (List.mem_cons_of_mem e ha) o ho (without_subset hao)
    obtain ⟨hlayout, hrel', evs, hevs, hlog⟩ := ih hfirst (Nat.le_of_succ_le_succ hn) hs'
    obtain ⟨s₁, utr, tds, hu, -, heq⟩ := h.removeFirst_eq hse
    have hev : (removeFirst s e).events =
        s.events ++ (tds.map fun t => .free_ohci_TD t true) ++ [.free_ohci_ED e true false] := by rw [heq]
    have hstep : removeLoop (n + 1) s = removeLoop n (removeFirst s e) := by
      rw [removeLoop, h.remove.1]
    have hone : Log [.free_ohci_ED e true false] [] [(e, true, false)] := ⟨rfl, rfl, by simp⟩
    rw [hstep, ← without_cons]
    refine ⟨hlayout, hrel.trans hrel', _, ?_, ((Log.frees tds).append hone).append hlog⟩
    rw [hevs, hev, List.append_assoc, List.append_assoc, List.append_assoc]

end

end Ohci
