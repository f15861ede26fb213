/-
A submission that starts: an ED and its TDs get their places.

Whatever the kind of request, at the end one ED, found or new, has a queue with new TDs in
it and is on one of the lists (`Extends`), and an endpoint record may name it; `Inv.extend`
carries the invariant over.
-/
import NuMaker.Ohci.Conservation

namespace Ohci

/-- But for its links and for what the controller sees of it an ED is the same. -/
structure SameKey (e₀ e : ED_T) : Prop where
  Info : e.Info = e₀.Info
  TailP : e.TailP = e₀.TailP
  HeadP : e.HeadP = e₀.HeadP
  bInterval : e.bInterval = e₀.bInterval
  next : e.next = e₀.next

theorem SameED.key {e₀ e : ED_T} (h : SameED e₀ e) : SameKey e₀ e :=
  ⟨h.Info, h.TailP, h.HeadP, h.bInterval, h.next⟩

theorem SameKey.tailed {e₀ e : ED_T} (h : SameKey e₀ e) {o : Place} {q : List ℕ} (ht : e₀.Tailed o q) :
    e.Tailed o q := by
  constructor
  · rw [h.TailP]
    exact ht.other
  · rw [h.TailP]
    exact ht.last
  · rw [h.TailP, h.Info]
    exact ht.iso
  · rw [h.TailP, h.Info]
    exact ht.int

/-- From `s` to `s'` the list `o` has become `l` and the queue of `ed` `q`: the units `F`
were free and are now there, `ed` too if it was free. -/
structure Extends (s s' : State) (L : Place → List ℕ) (o : Place) (ed : ℕ) (F l q : List ℕ) : Prop where
  sched : o.scheduled = true
  fresh : ∀ t ∈ F, t < MEM_POOL_UNIT_NUM ∧ s.unit_used t = false
  used : ∀ t, s'.unit_used t = (s.unit_used t || decide (t ∈ F))
  mem_list : ∀ t, t ∈ l ↔ t ∈ L o ∨ t ∈ F ∧ t = ed
  mem_queue : ∀ t, t ∈ q ↔ t ∈ L (.queue ed) ∨ t ∈ F ∧ t ≠ ed
  ed_mem : ed ∈ l
  list_nodup : l.Nodup
  queue_nodup : q.Nodup
  sub : (L o).Sublist l
  eds : ∀ a ≠ ed, SameKey (s.ed a) (s'.ed a)
  others : ∀ a ∉ l, s'.NextED a = s.NextED a
  tds : ∀ t ∉ F, t ∉ L (.queue ed) → s'.NextTD t = s.NextTD t
  list : Links s'.NextED (s'.head o) l none
  heads : ∀ o' ≠ o, s'.head o' = s.head o'
  queue : Links s'.NextTD (s'.ed ed).HeadP q none
  Ied : s'.Ied = s.Ied
  remove : s'.ed_remove_list = s.ed_remove_list
  done : s'.done_head = s.done_head
  events : s'.events = s.events
  old : ed ∉ F → (s.ed ed).Info &&& ED_SKIP = 0 ∧ (s'.ed ed).bInterval = (s.ed ed).bInterval
  noskip : (s'.ed ed).Info &&& ED_SKIP = 0
  tailed : (s'.ed ed).Tailed o q
  below : o = .ints → ed ∈ F → [s'.node ed, ed].Sublist l
  tree : o = .ints → Tree s' l
  number : o = .control → (s'.ed ed).Info &&& ED_EP_ADDR_Msk = 0
  plain : o = .bulk → (s'.ed ed).bInterval = 0

/-- An endpoint record of the right kind names `ed` in `s'`, and no other does; but for a
control ED there need not be one. -/
def Names (ep0 : ℕ → Bool) (s s' : State) (o : Place) (ed : ℕ) : Prop :=
  (o ≠ .control ∧ ∀ p, (s'.ep p).hw_pipe = (s.ep p).hw_pipe) ∨
    ∃ p, (ep0 p = true ↔ o = .control) ∧ s.Private p ed ∧
      (ep0 p = true → (s.ep p).hw_pipe = none ∨ (s.ep p).hw_pipe = some ed) ∧
      ∀ p', (s'.ep p').hw_pipe = if p' = p then some ed else (s.ep p').hw_pipe

/-- The layout after it. -/
def extended (L : Place → List ℕ) (o : Place) (ed : ℕ) (l q : List ℕ) : Place → List ℕ :=
  Function.update (Function.update L o l) (.queue ed) q

section

variable {ep0 : ℕ → Bool} {s s' : State} {d : Option ℕ} {L : Place → List ℕ} {rem : List ℕ} {o : Place}
  {ed : ℕ} {F l q : List ℕ}

theorem extended_queue : extended L o ed l q (.queue ed) = q := Function.update_self _ _ _

theorem Extends.extended_list (hx : Extends s s' L o ed F l q) : extended L o ed l q o = l := by
  have hne : o ≠ .queue ed := by
    rintro rfl
    exact absurd hx.sched Bool.false_ne_true
  rw [extended, Function.update_of_ne hne, Function.update_self]

theorem extended_other {o' : Place} (ho : o' ≠ o) (hq : o' ≠ .queue ed) : extended L o ed l q o' = L o' := by
  rw [extended, Function.update_of_ne hq, Function.update_of_ne ho]

/-- Where the units are: where they were, or new on the list or in the queue. -/
theorem Extends.mem_iff (hx : Extends s s' L o ed F l q) (o' : Place) (t : ℕ) :
    t ∈ extended L o ed l q o' ↔ t ∈ L o' ∨ t ∈ F ∧ o' = if t = ed then o else .queue ed := by
  have hne : o ≠ .queue ed := by
    rintro rfl
    exact absurd hx.sched Bool.false_ne_true
  by_cases hq : o' = .queue ed
  · subst hq
    rw [extended_queue, hx.mem_queue]
    by_cases ht : t = ed
    · simp [ht, hne.symm]
    · simp [ht]
  · by_cases ho : o' = o
    · subst ho
      rw [hx.extended_list, hx.mem_list]
      by_cases ht : t = ed
      · simp [ht]
      · simp [ht, hne]
    · rw [extended_other ho hq]
      by_cases ht : t = ed
      · simp [ht, ho]
      · simp [ht, hq]

/-! ### What stays -/

theorem Extends.not_mem_of_fresh (hx : Extends s s' L o ed F l q) (h : Inv ep0 ⟨s, d⟩ L rem) {t : ℕ}
    (ht : t ∈ F) (o' : Place) : t ∉ L o' := h.not_mem (hx.fresh t ht).2 o'

theorem Extends.not_mem_rem (hx : Extends s s' L o ed F l q) (h : Inv ep0 ⟨s, d⟩ L rem) : ed ∉ rem := by
  intro hr
  by_cases hF : ed ∈ F
  · obtain ⟨o', -, he⟩ := h.rem_ed ed hr
    exact hx.not_mem_of_fresh h hF o' he
  · exact h.skipped ed hr (hx.old hF).1

theorem Extends.ne_node (hx : Extends s s' L o ed F l q) (h : Inv ep0 ⟨s, d⟩ L rem) {i : ℕ} (hi : i ≤ 5) :
    s.Ied i ≠ ed := by
  intro he
  by_cases hF : ed ∈ F
  · have hmem : s.Ied i ∈ L .ints := (h.nodes i hi).1
    exact hx.not_mem_of_fresh h hF .ints (he ▸ hmem)
  · have hskip : (s.ed (s.Ied i)).Info &&& ED_SKIP ≠ 0 := h.nodes_skipped i hi
    rw [he] at hskip
    exact hskip (hx.old hF).1

/-- But for `ed` the EDs are where they were. -/
theorem Extends.mem_of_ne (hx : Extends s s' L o ed F l q) {o' : Place} {a : ℕ} (ho : o'.ofED = true)
    (ha : a ∈ extended L o ed l q o') (hne : a ≠ ed) : a ∈ L o' := by
  rcases (hx.mem_iff o' a).mp ha with ha | ⟨-, hq⟩
  · exact ha
  · rw [if_neg hne] at hq
    rw [hq] at ho
    cases ho

theorem Extends.place_eq (hx : Extends s s' L o ed F l q) (h : Inv ep0 ⟨s, d⟩ L rem) {o' : Place}
    (ha : ed ∈ extended L o ed l q o') : o' = o := by
  rcases (hx.mem_iff o' ed).mp ha with ha | ⟨-, hq⟩
  · rcases (hx.mem_list ed).mp hx.ed_mem with he | ⟨hF, -⟩
    · exact h.once ha he
    · exact absurd ha (hx.not_mem_of_fresh h hF o')
  · rw [if_pos rfl] at hq
    exact hq

theorem Extends.queue_of_ne {a : ℕ} (hne : a ≠ ed) (hs : o.scheduled = true) :
    extended L o ed l q (.queue a) = L (.queue a) := by
  refine extended_other ?_ fun h => hne (Place.queue.inj h)
  rintro rfl
  cases hs

theorem Extends.node_eq (hx : Extends s s' L o ed F l q) {a : ℕ} (ha : a ≠ ed ∨ ed ∉ F) :
    s'.node a = s.node a := by
  have hInt : (s'.ed a).bInterval = (s.ed a).bInterval := by
    by_cases hne : a = ed
    · subst hne
      exact (hx.old (ha.resolve_left (absurd rfl))).2
    · exact (hx.eds a hne).bInterval
  rw [State.node, State.node, get_int_tree_head_node, get_int_tree_head_node, hInt, hx.Ied]

/-- The TDs that are not in the queue lead where they led. -/
theorem Extends.links (hx : Extends s s' L o ed F l q) (h : Inv ep0 ⟨s, d⟩ L rem) {o' : Place}
    {a : Option ℕ} (hq : o' ≠ .queue ed) (hl : Links s.NextTD a (L o') none) :
    Links s'.NextTD a (L o') none := by
  refine (Links.congr ?_).mpr hl
  intro t ht
  exact hx.tds t (fun hF => hx.not_mem_of_fresh h hF o' ht) fun htq => hq (h.once ht htq)

theorem Extends.ints_sublist (hx : Extends s s' L o ed F l q) :
    (L .ints).Sublist (extended L o ed l q .ints) := by
  by_cases ho : .ints = o
  · rw [ho, hx.extended_list]
    exact hx.sub
  · rw [extended_other ho Place.noConfusion]

/-! ### The invariant -/

theorem Extends.layout (hx : Extends s s' L o ed F l q) (h : Inv ep0 ⟨s, d⟩ L rem) :
    Layout s' (extended L o ed l q) rem := by
  have hsched := hx.sched
  constructor
  · intro o'
    by_cases hq : o' = .queue ed
    · subst hq
      rw [extended_queue]
      exact hx.queue_nodup
    · by_cases ho : o' = o
      · subst ho
        rw [hx.extended_list]
        exact hx.list_nodup
      · rw [extended_other ho hq]
        exact h.nodup o'
  · intro o₁ o₂ t h₁ h₂
    rcases (hx.mem_iff o₁ t).mp h₁ with h₁ | ⟨hF, h₁⟩
    · rcases (hx.mem_iff o₂ t).mp h₂ with h₂ | ⟨hF, h₂⟩
      · exact h.once h₁ h₂
      · exact absurd h₁ (hx.not_mem_of_fresh h hF o₁)
    · rcases (hx.mem_iff o₂ t).mp h₂ with h₂ | ⟨-, h₂⟩
      · exact absurd h₂ (hx.not_mem_of_fresh h hF o₂)
      · rw [h₁, h₂]
  · intro o' t ht
    rw [hx.used]
    rcases (hx.mem_iff o' t).mp ht with ht | ⟨hF, -⟩
    · obtain ⟨hlt, hu⟩ := h.pool ht
      dsimp only at hu
      exact ⟨hlt, by rw [hu, Bool.true_or]⟩
    · exact ⟨(hx.fresh t hF).1, by rw [decide_eq_true hF, Bool.or_true]⟩
  · intro o' ho'
    by_cases ho : o' = o
    · subst ho
      rw [hx.extended_list]
      exact hx.list
    · have hq : o' ≠ .queue ed := by
        rintro rfl
        cases ho'
      rw [extended_other ho hq, hx.heads o' ho]
      refine (Links.congr ?_).mpr (h.lists o' ho')
      intro a ha
      refine hx.others a fun hal => ?_
      rcases (hx.mem_list a).mp hal with hao | ⟨hF, -⟩
      · exact ho (h.once ha hao)
      · exact hx.not_mem_of_fresh h hF o' ha
  · intro o' a ho' ha
    by_cases hne : a = ed
    · subst hne
      rw [extended_queue]
      exact hx.queue
    · rw [Extends.queue_of_ne hne hsched, (hx.eds a hne).HeadP]
      exact hx.links h (fun h => hne (Place.queue.inj h)) (h.queue ho' (hx.mem_of_ne ho' ha hne))
  · have hdone : extended L o ed l q .done = L .done := by
      refine extended_other ?_ Place.noConfusion
      rintro rfl
      cases hsched
    rw [hdone, hx.done]
    exact hx.links h Place.noConfusion h.done
  · rw [hx.remove]
    refine (Links.congr ?_).mpr h.remove
    intro a ha
    exact (hx.eds a fun hae => hx.not_mem_rem h (hae ▸ ha)).next
  · exact h.rem_nodup
  · intro a ha
    obtain ⟨o', ho', hao⟩ := h.rem_ed a ha
    exact ⟨o', ho', (hx.mem_iff o' a).mpr (Or.inl hao)⟩
  · intro i hi
    rw [hx.Ied]
    exact ⟨(hx.mem_iff _ _).mpr (Or.inl (h.nodes i hi).1), (h.nodes i hi).2⟩
  · intro a ha hnot
    rw [hx.Ied] at hnot
    by_cases hnew : a = ed ∧ ed ∈ F
    · obtain ⟨rfl, hF⟩ := hnew
      obtain rfl : .ints = o := hx.place_eq h ha
      rw [hx.extended_list]
      exact hx.below rfl hF
    · have ha' : a ∈ L .ints := by
        rcases (hx.mem_iff .ints a).mp ha with ha | ⟨hF, ho⟩
        · exact ha
        · by_cases hae : a = ed
          · exact absurd ⟨hae, hae ▸ hF⟩ hnew
          · rw [if_neg hae] at ho
            cases ho
      rw [hx.node_eq (by tauto)]
      exact (h.below a ha' hnot).trans hx.ints_sublist
  · intro a ha
    by_cases hne : a = ed
    · subst hne
      exact hx.number (hx.place_eq h ha).symm
    · rw [(hx.eds a hne).Info]
      exact h.number a (hx.mem_of_ne rfl ha hne)
  · intro a ha
    by_cases hne : a = ed
    · subst hne
      exact hx.plain (hx.place_eq h ha).symm
    · rw [(hx.eds a hne).bInterval]
      exact h.plain a (hx.mem_of_ne rfl ha hne)

/-- What an endpoint record names after it. -/
theorem Names.pipe_eq (hn : Names ep0 s s' o ed) {p e : ℕ} (hp : (s'.ep p).hw_pipe = some e) :
    (s.ep p).hw_pipe = some e ∨ e = ed ∧ (ep0 p = true ↔ o = .control) := by
  rcases hn with ⟨-, hsame⟩ | ⟨p₀, hiff, -, -, hpipe⟩
  · exact Or.inl (hsame p ▸ hp)
  · rw [hpipe] at hp
    by_cases hpp : p = p₀
    · rw [if_pos hpp] at hp
      exact Or.inr ⟨(Option.some_inj.mp hp).symm, hpp ▸ hiff⟩
    · rw [if_neg hpp] at hp
      exact Or.inl hp

/-- An ED other than `ed` that a record of endpoint 0 names is named still. -/
theorem Names.pipe_of_ne (hn : Names ep0 s s' o ed) {p e : ℕ} (hne : e ≠ ed) (hp0 : ep0 p = true)
    (hp : (s.ep p).hw_pipe = some e) : (s'.ep p).hw_pipe = some e := by
  rcases hn with ⟨-, hsame⟩ | ⟨p₀, -, -, hold, hpipe⟩
  · rw [hsame, hp]
  · have hpp : p ≠ p₀ := by
      rintro rfl
      rcases hold hp0 with hnone | hed
      · rw [hnone] at hp
        cases hp
      · rw [hed] at hp
        exact hne (Option.some_inj.mp hp).symm
    rw [hpipe, if_neg hpp, hp]

/-- The units conserved, a submission that starts conserves them. -/
theorem Inv.extend (h : Inv ep0 ⟨s, d⟩ L rem) (hx : Extends s s' L o ed F l q) (hn : Names ep0 s s' o ed) :
    Inv ep0 ⟨s', d⟩ (extended L o ed l q) rem := by
  have hsched := hx.sched
  have hnotloose : o ≠ .loose := by
    rintro rfl
    cases hsched
  have hholder : ∀ {o' e}, o' = .control ∨ o' = .loose → e ∈ extended L o ed l q o' →
      e ∈ rem ∨ ∃ p, ep0 p = true ∧ (s'.ep p).hw_pipe = some e := by
    intro o' e ho' he
    have hED : o'.ofED = true := by
      rcases ho' with rfl | rfl
      · rfl
      · rfl
    by_cases hne : e = ed
    · subst hne
      obtain rfl := hx.place_eq h he
      have hctl : o' = .control := ho'.resolve_right hnotloose
      rcases hn with ⟨hno, -⟩ | ⟨p, hiff, -, -, hpipe⟩
      · exact absurd hctl hno
      · exact Or.inr ⟨p, hiff.mpr hctl, by rw [hpipe, if_pos rfl]⟩
    · rcases h.holder ho' (hx.mem_of_ne hED he hne) with hr | ⟨p, hp0, hp⟩
      · exact Or.inl hr
      · exact Or.inr ⟨p, hp0, hn.pipe_of_ne hne hp0 hp⟩
  constructor
  · constructor
    · exact hx.layout h
    · intro t ht hu
      dsimp only at hu
      rw [hx.used, Bool.or_eq_true_iff, decide_eq_true_iff] at hu
      rcases hu with hu | hF
      · obtain ⟨o', ho'⟩ := h.all t ht hu
        exact ⟨o', (hx.mem_iff o' t).mpr (Or.inl ho')⟩
      · exact ⟨_, (hx.mem_iff _ t).mpr (Or.inr ⟨hF, rfl⟩)⟩
    · intro e t ht
      by_cases hne : e = ed
      · subst hne
        refine ⟨o, Place.ofED_of_scheduled hsched, ?_⟩
        rw [hx.extended_list]
        exact hx.ed_mem
      · rw [Extends.queue_of_ne hne hsched] at ht
        obtain ⟨o', ho', he⟩ := h.owned ht
        exact ⟨o', ho', (hx.mem_iff o' e).mpr (Or.inl he)⟩
    · have hpending : extended L o ed l q .pending = L .pending := by
        refine extended_other ?_ Place.noConfusion
        rintro rfl
        cases hsched
      rw [hpending]
      exact hx.links h Place.noConfusion h.pending
    · intro e he
      rcases hholder (Or.inr rfl) he with hr | ⟨p, -, hp⟩
      · exact Or.inl hr
      · exact Or.inr ⟨p, hp⟩
    · intro p e hp
      rcases hn.pipe_eq hp with hp | ⟨rfl, -⟩
      · obtain ⟨hrem, o', ho', he⟩ := h.pipes hp
        exact ⟨hrem, o', ho', (hx.mem_iff o' e).mpr (Or.inl he)⟩
      · refine ⟨hx.not_mem_rem h, o, Place.ofED_of_scheduled hsched, ?_⟩
        rw [hx.extended_list]
        exact hx.ed_mem
    · intro p p' e hp hp'
      dsimp only at hp hp'
      rcases hn with ⟨-, hsame⟩ | ⟨p₀, -, hpriv, -, hpipe⟩
      · rw [hsame] at hp hp'
        exact h.only hp hp'
      · rw [hpipe] at hp hp'
        by_cases h₁ : p = p₀
        · by_cases h₂ : p' = p₀
          · rw [h₁, h₂]
          · rw [if_pos h₁] at hp
            rw [if_neg h₂, ← hp] at hp'
            exact absurd hp' (hpriv p' h₂)
        · rw [if_neg h₁] at hp
          by_cases h₂ : p' = p₀
          · rw [if_pos h₂, ← hp] at hp'
            exact absurd hp'.symm (hpriv p h₁)
          · rw [if_neg h₂] at hp'
            exact h.only hp hp'
    · dsimp only
      rw [hx.events]
      exact h.clean
  · intro o' e ho' he
    by_cases hne : e = ed
    · subst hne
      rw [hx.place_eq h he, extended_queue]
      exact hx.tailed
    · rw [Extends.queue_of_ne hne hsched]
      exact (hx.eds e hne).tailed (h.tailed ho' (hx.mem_of_ne ho' he hne))
  · intro e he
    dsimp only
    rw [(hx.eds e fun hee => hx.not_mem_rem h (hee ▸ he)).Info]
    exact h.skipped e he
  · intro i hi
    dsimp only
    rw [hx.Ied, (hx.eds _ (hx.ne_node h hi)).Info]
    exact h.nodes_skipped i hi
  · intro p e o' hp ho' he
    rcases hn.pipe_eq hp with hp | ⟨rfl, hiff⟩
    · obtain ⟨-, o₁, ho₁, he₁⟩ := h.pipes hp
      obtain ⟨hskip, hiff⟩ := h.named hp ho₁ he₁
      obtain rfl : o₁ = o' := (hx.layout h).once ((hx.mem_iff o₁ e).mpr (Or.inl he₁)) he
      refine ⟨?_, hiff⟩
      by_cases hne : e = ed
      · exact hne ▸ hx.noskip
      · dsimp only
        rw [(hx.eds e hne).Info]
        exact hskip
    · obtain rfl := hx.place_eq h he
      refine ⟨hx.noskip, ?_⟩
      rw [hiff]
      exact ⟨Or.inl, fun ho => ho.resolve_right hnotloose⟩
  · exact hholder
  · by_cases ho : o = .ints
    · subst ho
      rw [hx.extended_list]
      exact hx.tree rfl
    · rw [extended_other (Ne.symm ho) Place.noConfusion]
      refine h.tree.congr hx.Ied fun e he => (hx.eds e ?_).bInterval
      rintro rfl
      exact ho (hx.place_eq h ((hx.mem_iff _ _).mpr (Or.inl he))).symm
  · dsimp only
    rw [hx.Ied]
    exact h.first

/-! ### Old and new EDs -/

/-- But for endpoint records and units the rest of the driver is the same. -/
structure SameLists (s s' : State) : Prop where
  Ied : s'.Ied = s.Ied
  remove : s'.ed_remove_list = s.ed_remove_list
  done : s'.done_head = s.done_head
  events : s'.events = s.events

/-- An ED on a list of the controller gets TDs. -/
theorem Extends.of_old (h : Inv ep0 ⟨s, d⟩ L rem) (ho : o.scheduled = true) (hmem : ed ∈ L o)
    (hskip : (s.ed ed).Info &&& ED_SKIP = 0)
    (hfresh : ∀ t ∈ F, t < MEM_POOL_UNIT_NUM ∧ s.unit_used t = false)
    (hused : ∀ t, s'.unit_used t = (s.unit_used t || decide (t ∈ F)))
    (hq : ∀ t, t ∈ q ↔ t ∈ L (.queue ed) ∨ t ∈ F) (hqd : q.Nodup)
    (heds : ∀ a ≠ ed, SameED (s.ed a) (s'.ed a)) (hInfo : (s'.ed ed).Info = (s.ed ed).Info)
    (hNext : (s'.ed ed).NextED = (s.ed ed).NextED) (hint : (s'.ed ed).bInterval = (s.ed ed).bInterval)
    (htds : ∀ t ∉ F, t ∉ L (.queue ed) → s'.NextTD t = s.NextTD t)
    (hqueue : Links s'.NextTD (s'.ed ed).HeadP q none) (htailed : (s'.ed ed).Tailed o q)
    (hhead : ∀ o, s'.head o = s.head o) (hrest : SameLists s s') : Extends s s' L o ed F (L o) q := by
  have hedF : ed ∉ F := by
    intro hF
    have hu : s.unit_used ed = true := (h.pool hmem).2
    rw [(hfresh ed hF).2] at hu
    cases hu
  have hne : ∀ t ∈ F, t ≠ ed := fun t ht hte => hedF (hte ▸ ht)
  have hNextED : s'.NextED = s.NextED := by
    funext a
    by_cases ha : a = ed
    · rw [ha]
      exact hNext
    · exact (heds a ha).NextED
  constructor
  · exact ho
  · exact hfresh
  · exact hused
  · intro t
    have := hne t
    tauto
  · intro t
    have := hne t
    rw [hq]
    tauto
  · exact hmem
  · exact h.nodup o
  · exact hqd
  · exact List.Sublist.refl _
  · exact fun a ha => (heds a ha).key
  · exact fun a _ => congrFun hNextED a
  · exact htds
  · rw [hNextED, hhead]
    exact h.lists o ho
  · exact fun o _ => hhead o
  · exact hqueue
  · exact hrest.Ied
  · exact hrest.remove
  · exact hrest.done
  · exact hrest.events
  · exact fun _ => ⟨hskip, hint⟩
  · rw [hInfo]
    exact hskip
  · exact htailed
  · exact fun _ hF => absurd hF hedF
  · rintro rfl
    refine h.tree.congr hrest.Ied fun a _ => ?_
    by_cases ha : a = ed
    · rw [ha]
      exact hint
    · exact (heds a ha).bInterval
  · rintro rfl
    rw [hInfo]
    exact h.number ed hmem
  · rintro rfl
    rw [hint]
    exact h.plain ed hmem

/-- From a node on, the interrupt lists. -/
theorem Layout.fromIed (h : Layout s L rem) {i : ℕ} (hi : i ≤ 5) :
    ∃ l₁ l₂, L .ints = l₁ ++ s.Ied i :: l₂ ∧ Links s.NextED (some (s.Ied i)) (s.Ied i :: l₂) none := by
  obtain ⟨l₁, l₂, heq⟩ := List.append_of_mem (h.nodes i hi).1
  have hl := h.lists .ints rfl
  rw [heq] at hl
  exact ⟨l₁, l₂, heq, rfl, Links.next_eq hl⟩

/-- A new ED behind its node. -/
theorem Tree.insert {i : ℕ} {l₁ l₂ : List ℕ} (h : Tree s (l₁ ++ s.Ied i :: l₂)) (hi : i ≤ 5)
    (hI : s'.Ied = s.Ied) (hint : ∀ a ≠ ed, (s'.ed a).bInterval = (s.ed a).bInterval) (hlevel : s'.level ed = i)
    (hd : (l₁ ++ s.Ied i :: l₂).Nodup) : Tree s' (l₁ ++ s.Ied i :: ed :: l₂) := by
  have hsub : (l₁ ++ s.Ied i :: l₂).Sublist (l₁ ++ s.Ied i :: ed :: l₂) :=
    (((List.sublist_cons_self ed l₂).cons_cons _).append_left l₁)
  constructor
  · intro a b hab hb
    rw [hI]
    exact (h.nodes hab hb).trans hsub
  · intro e he hnot j hj
    rw [hI] at hnot ⊢
    by_cases hee : e = ed
    · -- the nodes below come after its own node
      subst hee
      rw [hlevel] at hj
      have hpair := h.nodes hj hi
      have hj₂ : s.Ied j ∈ l₂ := (pair_sublist_iff hd).mp hpair
      exact ((List.singleton_sublist.mpr hj₂).cons_cons e).trans
        ((List.sublist_cons_self _ _).trans (List.sublist_append_right l₁ _))
    · have hel : e ∈ l₁ ++ s.Ied i :: l₂ := by
        simp only [List.mem_append, List.mem_cons] at he ⊢
        tauto
      have hlev : s'.level e = s.level e := by rw [State.level, State.level, hint e hee]
      exact (h.above e hel hnot j (hlev ▸ hj)).trans hsub

/-- Hang an ED behind a node. -/
def hookED (s : State) (ed ied : ℕ) : State :=
  let s := s.setED ed { s.ed ed with NextED := (s.ed ied).NextED }
  s.setED ied { s.ed ied with NextED := some ed }

theorem hookED_key (s : State) (ed ied a : ℕ) : SameKey (s.ed a) ((hookED s ed ied).ed a) := by
  have hset : ∀ (s : State) (e : ℕ) (v : Option ℕ), SameKey (s.ed a) ((s.setED e { s.ed e with NextED := v }).ed a) := by
    intro s e v
    by_cases ha : a = e
    · subst ha
      rw [setED_ed, Function.update_self]
      exact ⟨rfl, rfl, rfl, rfl, rfl⟩
    · rw [setED_ed, Function.update_of_ne ha]
      exact ⟨rfl, rfl, rfl, rfl, rfl⟩
  have h₁ := hset s ed (s.ed ied).NextED
  have h₂ := hset (s.setED ed { s.ed ed with NextED := (s.ed ied).NextED }) ied (some ed)
  exact ⟨h₂.Info.trans h₁.Info, h₂.TailP.trans h₁.TailP, h₂.HeadP.trans h₁.HeadP, h₂.bInterval.trans h₁.bInterval,
    h₂.next.trans h₁.next⟩

theorem hookED_NextED (s : State) (ed ied : ℕ) :
    (hookED s ed ied).NextED = Function.update (Function.update s.NextED ed (s.NextED ied)) ied (some ed) := by
  rw [hookED, setED_NextED, setED_NextED, State.NextED]

/-- A new ED, ready with its TDs in `s'`, is hung behind node `i`. -/
theorem Extends.of_hung (h : Inv ep0 ⟨s, d⟩ L rem) {i : ℕ} (hi : i ≤ 5) (hedF : ed ∈ F)
    (hfresh : ∀ t ∈ F, t < MEM_POOL_UNIT_NUM ∧ s.unit_used t = false)
    (hused : ∀ t, s'.unit_used t = (s.unit_used t || decide (t ∈ F)))
    (hq : ∀ t, t ∈ q ↔ t ∈ F ∧ t ≠ ed) (hqd : q.Nodup) (heds : ∀ a ≠ ed, SameED (s.ed a) (s'.ed a))
    (hlevel : s'.level ed = i) (hskip : (s'.ed ed).Info &&& ED_SKIP = 0)
    (htds : ∀ t ∉ F, s'.NextTD t = s.NextTD t) (hqueue : Links s'.NextTD (s'.ed ed).HeadP q none)
    (htailed : (s'.ed ed).Tailed .ints q) (hhead : ∀ o, s'.head o = s.head o) (hrest : SameLists s s') :
    ∃ l, Extends s (hookED s' ed (s.Ied i)) L .ints ed F l q := by
  have hnot := h.not_mem (hfresh ed hedF).2
  obtain ⟨l₁, l₂, heq⟩ := List.append_of_mem (h.nodes i hi).1
  have hd := h.nodup .ints
  have hl := h.lists .ints rfl
  have hnoted := hnot .ints
  have htree := h.tree
  dsimp only at heq hl htree
  rw [heq] at hd hl hnoted htree
  have hkey : SameKey (s'.ed ed) ((hookED s' ed (s.Ied i)).ed ed) := hookED_key s' ed (s.Ied i) ed
  have heds' : ∀ a ≠ ed, SameKey (s.ed a) ((hookED s' ed (s.Ied i)).ed a) := by
    intro a ha
    have h₁ := (heds a ha).key
    have h₂ := hookED_key s' ed (s.Ied i) a
    exact ⟨h₂.Info.trans h₁.Info, h₂.TailP.trans h₁.TailP, h₂.HeadP.trans h₁.HeadP,
      h₂.bInterval.trans h₁.bInterval, h₂.next.trans h₁.next⟩
  have hnode : s.Ied i ≠ ed := by
    rintro rfl
    exact hnoted (List.mem_append_right l₁ List.mem_cons_self)
  have hNext : (hookED s' ed (s.Ied i)).NextED =
      Function.update (Function.update s.NextED ed (s.NextED (s.Ied i))) (s.Ied i) (some ed) := by
    rw [hookED_NextED, show s'.NextED (s.Ied i) = s.NextED (s.Ied i) from (heds _ hnode).NextED]
    congr 1
    funext a
    by_cases ha : a = ed
    · rw [ha, Function.update_self, Function.update_self]
    · rw [Function.update_of_ne ha, Function.update_of_ne ha]
      exact (heds a ha).NextED
  have hlev : (hookED s' ed (s.Ied i)).level ed = i := by
    rw [State.level, hkey.bInterval]
    exact hlevel
  refine ⟨l₁ ++ s.Ied i :: ed :: l₂, ?_⟩
  constructor
  · exact rfl
  · exact hfresh
  · exact hused
  · intro t
    rw [heq]
    simp only [List.mem_append, List.mem_cons]
    constructor
    · rintro (ht | rfl | rfl | ht)
      · exact Or.inl (Or.inl ht)
      · exact Or.inl (Or.inr (Or.inl rfl))
      · exact Or.inr ⟨hedF, rfl⟩
      · exact Or.inl (Or.inr (Or.inr ht))
    · tauto
  · intro t
    rw [hq, h.queue_eq_nil (hfresh ed hedF).2]
    simp
  · simp
  · have hperm : (l₁ ++ s.Ied i :: ed :: l₂).Perm (ed :: (l₁ ++ s.Ied i :: l₂)) :=
      ((List.Perm.swap ed _ l₂).append_left l₁).trans List.perm_middle
    exact hperm.nodup_iff.mpr (List.nodup_cons.mpr ⟨hnoted, hd⟩)
  · exact hqd
  · rw [heq]
    exact (((List.sublist_cons_self ed l₂).cons_cons _).append_left l₁)
  · exact heds'
  · intro a ha
    simp only [List.mem_append, List.mem_cons, not_or] at ha
    rw [hNext, Function.update_of_ne ha.2.1, Function.update_of_ne ha.2.2.1]
  · exact fun t htF _ => htds t htF
  · rw [hNext, show (hookED s' ed (s.Ied i)).head .ints = s.head .ints from hhead .ints]
    exact Links.insert hl hd hnoted
  · exact fun o _ => (State.head_congr rfl rfl rfl o).trans (hhead o)
  · rw [hkey.HeadP]
    exact hqueue
  · exact hrest.Ied
  · exact hrest.remove
  · exact hrest.done
  · exact hrest.events
  · exact fun hF => absurd hedF hF
  · rw [hkey.Info]
    exact hskip
  · exact hkey.tailed htailed
  · intro _ _
    have hI : (hookED s' ed (s.Ied i)).Ied = s.Ied := hrest.Ied
    have hnode : (hookED s' ed (s.Ied i)).node ed = s.Ied i := by
      rw [State.node, get_int_tree_head_node, hI]
      exact congrArg s.Ied hlev
    rw [hnode]
    exact ((List.singleton_sublist.mpr List.mem_cons_self).cons_cons _).trans (List.sublist_append_right l₁ _)
  · exact fun _ => htree.insert hi hrest.Ied (fun a ha => (heds' a ha).bInterval) hlev hd
  · exact Place.noConfusion
  · exact Place.noConfusion

end

end Ohci
