/-
Where the units of the pool are.

A layout gives for every place (a list of the controller, the TDs of an ED, the done list)
the units there; no unit is at two places.  An ED that waits in the removal list is still
where it was.  `Layout` ties a layout to the links of a state.
-/
import NuMaker.Ohci.Pool

namespace Ohci

/-- Where a unit can be: an ED on a list of the controller or on none, a TD on its ED, in
the done list, or with the controller still. -/
inductive Place
  | control
  | bulk
  | ints
  | loose
  | queue (e : ℕ)
  | done
  | pending
  deriving DecidableEq, Repr

/-- The places of the EDs. -/
def Place.ofED : Place → Bool
  | .control | .bulk | .ints | .loose => true
  | .queue _ | .done | .pending => false

/-- The lists of the controller. -/
def Place.scheduled : Place → Bool
  | .control | .bulk | .ints => true
  | .loose | .queue _ | .done | .pending => false

/-- The node the search for an interrupt ED begins at. -/
def State.node (s : State) (e : ℕ) : ℕ := get_int_tree_head_node s (s.ed e).bInterval

theorem Place.ofED_of_scheduled {o : Place} (h : o.scheduled = true) : o.ofED = true := by
  match o with
  | .control | .bulk | .ints => rfl

/-- The head of a list of the controller. -/
def State.head (s : State) : Place → Option ℕ
  | .control => s.HcControlHeadED
  | .bulk => s.HcBulkHeadED
  | .ints => some (s.Ied 5)
  | .loose | .queue _ | .done | .pending => none

theorem State.head_congr {s s' : State} (hcontrol : s'.HcControlHeadED = s.HcControlHeadED)
    (hbulk : s'.HcBulkHeadED = s.HcBulkHeadED) (hI : s'.Ied = s.Ied) (o : Place) : s'.head o = s.head o := by
  cases o with
  | control => exact hcontrol
  | bulk => exact hbulk
  | ints => rw [State.head, State.head, hI]
  | loose | queue _ | done | pending => rfl

/-- The units are where `L` says, and `rem` are the EDs to be removed. -/
structure Layout (s : State) (L : Place → List ℕ) (rem : List ℕ) : Prop where
  nodup : ∀ o, (L o).Nodup
  once : ∀ {o o' t}, t ∈ L o → t ∈ L o' → o = o'
  pool : ∀ {o t}, t ∈ L o → t < MEM_POOL_UNIT_NUM ∧ s.unit_used t = true
  lists : ∀ o, o.scheduled = true → Links s.NextED (s.head o) (L o) none
  queue : ∀ {o e}, o.ofED = true → e ∈ L o → Links s.NextTD (s.ed e).HeadP (L (.queue e)) none
  done : Links s.NextTD s.done_head (L .done) none
  remove : Links s.next s.ed_remove_list rem none
  rem_nodup : rem.Nodup
  rem_ed : ∀ e ∈ rem, ∃ o, o.ofED = true ∧ e ∈ L o
  nodes : ∀ i ≤ 5, s.Ied i ∈ L .ints ∧ s.Ied i ∉ rem
  below : ∀ e ∈ L .ints, (∀ i ≤ 5, e ≠ s.Ied i) → [s.node e, e].Sublist (L .ints)
  number : ∀ e ∈ L .control, (s.ed e).Info &&& ED_EP_ADDR_Msk = 0
  plain : ∀ e ∈ L .bulk, (s.ed e).bInterval = 0

/-- The layout without the EDs `rem` and their TDs. -/
def without (L : Place → List ℕ) (rem : List ℕ) : Place → List ℕ
  | .queue e => if e ∈ rem then [] else L (.queue e)
  | .control => (L .control).filter (· ∉ rem)
  | .bulk => (L .bulk).filter (· ∉ rem)
  | .ints => (L .ints).filter (· ∉ rem)
  | .loose => (L .loose).filter (· ∉ rem)
  | .done => L .done
  | .pending => L .pending

theorem without_of_ofED {L : Place → List ℕ} {rem : List ℕ} {o : Place} (h : o.ofED = true) :
    without L rem o = (L o).filter (· ∉ rem) := by
  match o with
  | .control | .bulk | .ints | .loose => rfl

theorem without_singleton {L : Place → List ℕ} {e : ℕ} {o : Place} (h : o.ofED = true) :
    without L [e] o = (L o).filter (· ≠ e) := by
  rw [without_of_ofED h]
  congr 1
  funext a
  simp

@[simp] theorem without_nil (L : Place → List ℕ) : without L [] = L := by
  funext o
  match o with
  | .control | .bulk | .ints | .loose => exact List.filter_eq_self.mpr (by simp)
  | .queue _ | .done | .pending => rfl

theorem without_subset {L : Place → List ℕ} {rem : List ℕ} {o : Place} : without L rem o ⊆ L o := by
  match o with
  | .control | .bulk | .ints | .loose => exact List.filter_subset_self _
  | .done | .pending => exact List.Subset.refl _
  | .queue e =>
    rw [without]
    split
    · exact List.nil_subset _
    · exact List.Subset.refl _

theorem without_nodup {L : Place → List ℕ} {rem : List ℕ} {o : Place} (h : (L o).Nodup) :
    (without L rem o).Nodup := by
  match o with
  | .control | .bulk | .ints | .loose => exact h.filter _
  | .done | .pending => exact h
  | .queue e =>
    rw [without]
    split
    · exact List.nodup_nil
    · exact h

theorem without_cons (L : Place → List ℕ) (e : ℕ) (rem : List ℕ) :
    without (without L [e]) rem = without L (e :: rem) := by
  have hfilter : ∀ l : List ℕ, (l.filter (· ∉ [e])).filter (· ∉ rem) = l.filter (· ∉ e :: rem) := by
    intro l
    rw [List.filter_filter]
    congr 1
    funext a
    by_cases h : a = e
    · simp [h]
    · simp [h]
  funext o
  match o with
  | .control | .bulk | .ints | .loose => exact hfilter _
  | .done | .pending => rfl
  | .queue a =>
    by_cases h : a = e
    · simp [without, h]
    · simp [without, h]

/-- `e` is on a list of the controller. -/
def State.on (s : State) (o : Place) (e : ℕ) : Bool :=
  (Links.search s.NextED (· = e) MEM_POOL_UNIT_NUM (s.head o)).isSome

section

variable {s : State} {M : Place → List ℕ} (hl : ∀ o, o.scheduled = true → Links s.NextED (s.head o) (M o) none)
  (hn : ∀ o, (M o).length ≤ MEM_POOL_UNIT_NUM)

include hl hn

theorem on_iff {o : Place} (ho : o.scheduled = true) (e : ℕ) : s.on o e = true ↔ e ∈ M o := by
  rw [State.on, Links.search_isSome_iff (hl o ho) (hn o)]
  simp

/-- The controller gets at an ED if it is on one of its lists. -/
theorem linked_iff (e : ℕ) : s.linked e = true ↔ ∃ o, o.scheduled = true ∧ e ∈ M o := by
  have hany : s.linked e = true ↔ e ∈ M .control ∨ e ∈ M .bulk ∨ e ∈ M .ints := by
    rw [← on_iff hl hn (o := .control) rfl, ← on_iff hl hn (o := .bulk) rfl, ← on_iff hl hn (o := .ints) rfl,
      State.linked]
    simp [State.on, State.head]
  rw [hany]
  constructor
  · rintro (he | he | he)
    · exact ⟨.control, rfl, he⟩
    · exact ⟨.bulk, rfl, he⟩
    · exact ⟨.ints, rfl, he⟩
  · rintro ⟨o, ho, he⟩
    cases o with
    | control => exact Or.inl he
    | bulk => exact Or.inr (Or.inl he)
    | ints => exact Or.inr (Or.inr he)
    | loose => cases ho
    | queue _ => cases ho
    | done => cases ho
    | pending => cases ho

end

section

variable {s : State} {L : Place → List ℕ} {rem : List ℕ}

theorem Layout.length_le (h : Layout s L rem) (o : Place) : (L o).length ≤ MEM_POOL_UNIT_NUM :=
  length_le_pool (h.nodup o) fun _ ht => (h.pool ht).1

theorem headLoop_le : ∀ n i interval : ℕ, headLoop n i interval ≤ i + n := by
  intro n
  induction n with
  | zero => exact fun i _ => le_refl i
  | succ n ih =>
    intro i interval
    rw [headLoop]
    split
    · exact Nat.le_add_right i (n + 1)
    · have := ih (i + 1) (interval >>> 1)
      omega

/-- The search begins at one of the nodes. -/
theorem node_eq (s : State) (e : ℕ) : ∃ i ≤ 5, s.node e = s.Ied i :=
  ⟨_, headLoop_le 5 0 _, rfl⟩

/-- An interrupt ED comes after its node. -/
theorem Layout.below_split (h : Layout s L rem) {e : ℕ} (he : e ∈ L .ints) (hnot : ∀ i ≤ 5, e ≠ s.Ied i) :
    ∃ l₁ l₂, L .ints = l₁ ++ s.node e :: l₂ ∧ e ∈ l₂ := by
  obtain ⟨r₁, r₂, heq, hnode, hrest⟩ := List.cons_sublist_iff.mp (h.below e he hnot)
  obtain ⟨l₁, l₂, rfl⟩ := List.append_of_mem hnode
  exact ⟨l₁, l₂ ++ r₂, by simpa using heq, List.mem_append_right _ (List.singleton_sublist.mp hrest)⟩

/-- What is on the interrupt lists from the node of `e` on. -/
theorem Layout.fromNode (h : Layout s L rem) (e : ℕ) :
    ∃ l₁ l₂, L .ints = l₁ ++ s.node e :: l₂ ∧ Links s.NextED (some (s.node e)) (s.node e :: l₂) none := by
  obtain ⟨i, hi, hnode⟩ := node_eq s e
  have hmem : s.node e ∈ L .ints := hnode ▸ (h.nodes i hi).1
  obtain ⟨l₁, l₂, heq⟩ := List.append_of_mem hmem
  have hl := h.lists .ints rfl
  rw [heq] at hl
  exact ⟨l₁, l₂, heq, rfl, Links.next_eq hl⟩

end

end Ohci
