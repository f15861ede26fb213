/-
Save–change–restore transactions on a shared memory.

A transaction saves two sets of cells in a private buffer, changes the memory
cell by cell on a support that contains them, and writes the saved cells back,
each of these in a step of its own.  It may also give up before the change, or
leave out the restore.  Several transactions run interleaved.

A run is *clean* when no step writes a cell that another transaction holds in
its buffer.  `CleanRun.serial` — in a clean run that ends with every
transaction done, the memory is that of the transactions run one after the
other, in the order of their change steps.

The invariant keeps the memory as it would be if every pending restore had
happened already; it changes in change steps only, and then by `eff`, the effect
of the whole transaction.
-/
import Mathlib.Tactic
import Mathlib.Data.Set.Disjoint
import Mathlib.Order.CompletePartialOrder

namespace Transaction

variable {ι β κ : Type*}

/-- A transaction: the cells saved first and second, the change, its support,
whether the saved cells are written back, and whether it gives up instead. -/
structure Txn (ι β : Type*) where
  first : Set ι
  second : Set ι
  support : Set ι
  change : ι → β → β
  restores : Prop
  aborts : Prop
  first_sub : first ⊆ support
  second_sub : second ⊆ support
  change_frame : ∀ x ∉ support, ∀ b, change x b = b

inductive Phase (ι β : Type*)
  | idle
  | saved1 (buf : ι → β)
  | saved2 (buf : ι → β)
  | changed (buf : ι → β)
  | restored1 (buf : ι → β)
  | done

/-- The buffered value of a cell. -/
def Phase.value : Phase ι β → ι → Option β
  | .idle, _ => none
  | .saved1 b, x => some (b x)
  | .saved2 b, x => some (b x)
  | .changed b, x => some (b x)
  | .restored1 b, x => some (b x)
  | .done, _ => none

/-- The change has been made, or given up. -/
def Phase.After : Phase ι β → Prop
  | .changed _ => True
  | .restored1 _ => True
  | .done => True
  | _ => False

namespace Txn

variable (T : Txn ι β)

/-- The cells saved and not written back yet. -/
def held : Phase ι β → Set ι
  | .idle => ∅
  | .saved1 _ => T.first
  | .saved2 _ => T.first ∪ T.second
  | .changed _ => T.first ∪ T.second
  | .restored1 _ => T.second
  | .done => ∅

/-- The held cells whose restore is due. -/
def dirty : Phase ι β → Set ι
  | .changed _ => T.first ∪ T.second
  | .restored1 _ => T.second
  | _ => ∅

open Classical in
/-- The effect of the whole transaction. -/
noncomputable def eff (m : ι → β) : ι → β :=
  fun x => if T.aborts ∨ (T.restores ∧ x ∈ T.first ∪ T.second) then m x else T.change x (m x)

/-- One step of a transaction on the memory, with the cells it writes. -/
inductive Step : Phase ι β → (ι → β) → Set ι → Phase ι β → (ι → β) → Prop
  | save1 {m b} (h : ∀ x ∈ T.first, b x = m x) : Step .idle m ∅ (.saved1 b) m
  | save2 {m b b'} (h1 : ∀ x ∈ T.first, b' x = b x) (h2 : ∀ x ∈ T.second, b' x = m x) :
    Step (.saved1 b) m ∅ (.saved2 b') m
  | change {m b} (ha : ¬ T.aborts) (hr : T.restores) :
    Step (.saved2 b) m T.support (.changed b) fun x => T.change x (m x)
  | finish {m b} (ha : ¬ T.aborts) (hr : ¬ T.restores) :
    Step (.saved2 b) m T.support .done fun x => T.change x (m x)
  | restore1 {m m' b b'} (h1 : ∀ x ∈ T.first, m' x = b x) (h2 : ∀ x ∉ T.first, m' x = m x)
    (hb : ∀ x ∈ T.second, b' x = b x) : Step (.changed b) m T.first (.restored1 b') m'
  | restore2 {m m' b} (h1 : ∀ x ∈ T.second, m' x = b x) (h2 : ∀ x ∉ T.second, m' x = m x) :
    Step (.restored1 b) m T.second .done m'
  | abort0 {m} (ha : T.aborts) : Step .idle m ∅ .done m
  | abort1 {m b} (ha : T.aborts) : Step (.saved1 b) m ∅ .done m
  | atomic {m} (ha : ¬ T.aborts) (hr : ¬ T.restores) :
    Step .idle m T.support .done fun x => T.change x (m x)

variable {T}

theorem dirty_sub_held (ph : Phase ι β) : T.dirty ph ⊆ T.held ph := by
  cases ph <;> simp [dirty, held]

theorem held_sub_support (ph : Phase ι β) : T.held ph ⊆ T.support := by
  cases ph with
  | idle => exact Set.empty_subset _
  | saved1 b => exact T.first_sub
  | saved2 b => exact Set.union_subset T.first_sub T.second_sub
  | changed b => exact Set.union_subset T.first_sub T.second_sub
  | restored1 b => exact T.second_sub
  | done => exact Set.empty_subset _

/-- A step changes only the cells it is said to write. -/
theorem Step.frame {ph ph' : Phase ι β} {m m' : ι → β} {t : Set ι}
    (h : T.Step ph m t ph' m') {x : ι} (hx : x ∉ t) : m' x = m x := by
  cases h with
  | change ha hr => exact T.change_frame x hx _
  | finish ha hr => exact T.change_frame x hx _
  | atomic ha hr => exact T.change_frame x hx _
  | restore1 h1 h2 hb => exact h2 x hx
  | restore2 h1 h2 => exact h2 x hx
  | _ => rfl

end Txn

/-- A clean interleaved run of the transactions `T`. -/
inductive CleanRun [DecidableEq κ] (T : κ → Txn ι β) (ph₀ : κ → Phase ι β) (m₀ : ι → β) :
    (κ → Phase ι β) → (ι → β) → Prop
  | refl : CleanRun T ph₀ m₀ ph₀ m₀
  | step {ph m i t p' m'} (h : CleanRun T ph₀ m₀ ph m) (hs : (T i).Step (ph i) m t p' m')
    (hc : ∀ j, j ≠ i → Disjoint t ((T j).held (ph j))) :
    CleanRun T ph₀ m₀ (Function.update ph i p') m'

/-- The memory `L` with every due restore made, and the order of the changes so far. -/
structure Inv (T : κ → Txn ι β) (m₀ : ι → β) (ph : κ → Phase ι β) (m L : ι → β)
    (order : List κ) : Prop where
  stale : ∀ j, ∀ x ∈ (T j).dirty (ph j), (ph j).value x = some (L x)
  fresh : ∀ x, (∀ j, x ∉ (T j).dirty (ph j)) → L x = m x
  saved : ∀ j, ∀ x ∈ (T j).held (ph j), x ∉ (T j).dirty (ph j) → (ph j).value x = some (m x)
  serial : L = order.foldl (fun m i => (T i).eff m) m₀
  after : ∀ j, j ∈ order ↔ (ph j).After
  nodup : order.Nodup

theorem Inv.init (T : κ → Txn ι β) (m₀ : ι → β) : Inv T m₀ (fun _ => .idle) m₀ m₀ [] :=
  ⟨fun _ _ h => absurd h (by simp [Txn.dirty]), fun _ _ => rfl,
    fun _ _ h => absurd h (by simp [Txn.held]), rfl, by simp [Phase.After], List.nodup_nil⟩

section Preserve

variable [DecidableEq κ] {T : κ → Txn ι β} {m₀ m m' L : ι → β} {ph : κ → Phase ι β}
  {order : List κ} {i : κ} {t : Set ι} {p' : Phase ι β}

/-- A step that makes no change keeps `L`: saves, restores. -/
theorem Inv.keep (h : Inv T m₀ ph m L order) (hs : (T i).Step (ph i) m t p' m')
    (hc : ∀ j, j ≠ i → Disjoint t ((T j).held (ph j))) (ha : p'.After ↔ (ph i).After)
    (hstale : ∀ x ∈ (T i).dirty p', p'.value x = some (L x))
    (hfresh : ∀ x, x ∉ (T i).dirty p' → (∀ j, j ≠ i → x ∉ (T j).dirty (ph j)) → L x = m' x)
    (hsaved : ∀ x ∈ (T i).held p', x ∉ (T i).dirty p' → p'.value x = some (m' x)) :
    Inv T m₀ (Function.update ph i p') m' L order := by
  refine ⟨?_, ?_, ?_, h.serial, ?_, h.nodup⟩
  · intro j x hx
    by_cases hj : j = i
    · subst hj
      rw [Function.update_self] at hx ⊢
      exact hstale x hx
    · rw [Function.update_of_ne hj] at hx ⊢
      exact h.stale j x hx
  · intro x hx
    refine hfresh x ?_ fun j hj => ?_
    · simpa using hx i
    · have := hx j
      rwa [Function.update_of_ne hj] at this
  · intro j x hx hd
    by_cases hj : j = i
    · subst hj
      rw [Function.update_self] at hx hd ⊢
      exact hsaved x hx hd
    · rw [Function.update_of_ne hj] at hx hd ⊢
      rw [hs.frame fun hxt => (Set.disjoint_left.mp (hc j hj)) hxt hx]
      exact h.saved j x hx hd
  · intro j
    by_cases hj : j = i
    · subst hj
      rw [Function.update_self, ha]
      exact h.after j
    · rw [Function.update_of_ne hj]
      exact h.after j

/-- The step that makes (or gives up) the change turns `L` into `eff L`. -/
theorem Inv.change (h : Inv T m₀ ph m L order) (hs : (T i).Step (ph i) m t p' m')
    (hc : ∀ j, j ≠ i → Disjoint t ((T j).held (ph j))) (hb : ¬ (ph i).After) (ha : p'.After)
    (hstale : ∀ x ∈ (T i).dirty p', p'.value x = some ((T i).eff L x))
    (hother : ∀ x ∉ t, (T i).eff L x = L x)
    (hfresh : ∀ x, x ∉ (T i).dirty p' → L x = m x → (T i).eff L x = m' x)
    (hsaved : (T i).held p' ⊆ (T i).dirty p') :
    Inv T m₀ (Function.update ph i p') m' ((T i).eff L) (order ++ [i]) := by
  have hd : ∀ j, j ≠ i → ∀ x ∈ (T j).held (ph j), x ∉ t := fun j hj x hx hxt =>
    (Set.disjoint_left.mp (hc j hj)) hxt hx
  have hdi : (T i).dirty (ph i) = ∅ := by
    cases hp : ph i <;> simp_all [Txn.dirty, Phase.After]
  refine ⟨?_, ?_, ?_, ?_, ?_, ?_⟩
  · intro j x hx
    by_cases hj : j = i
    · subst hj
      rw [Function.update_self] at hx ⊢
      exact hstale x hx
    · rw [Function.update_of_ne hj] at hx ⊢
      rw [hother x (hd j hj x (Txn.dirty_sub_held _ hx))]
      exact h.stale j x hx
  · intro x hx
    have hxi : x ∉ (T i).dirty p' := by simpa using hx i
    refine hfresh x hxi (h.fresh x fun j => ?_)
    by_cases hj : j = i
    · subst hj
      rw [hdi]
      exact Set.notMem_empty x
    · have := hx j
      rwa [Function.update_of_ne hj] at this
  · intro j x hx hdx
    by_cases hj : j = i
    · subst hj
      rw [Function.update_self] at hx hdx
      exact absurd (hsaved hx) hdx
    · rw [Function.update_of_ne hj] at hx hdx ⊢
      rw [hs.frame (hd j hj x hx)]
      exact h.saved j x hx hdx
  · rw [List.foldl_append, ← h.serial]
    rfl
  · intro j
    rw [List.mem_append, List.mem_singleton, h.after j]
    by_cases hj : j = i
    · subst hj
      simp [ha]
    · rw [Function.update_of_ne hj]
      simp [hj]
  · refine List.nodup_append.mpr ⟨h.nodup, by simp, ?_⟩
    intro a ha' b hb' hab
    rw [List.mem_singleton] at hb'
    subst hab hb'
    exact hb ((h.after _).mp ha')

/-- **Step lemma**: every clean step preserves the invariant. -/
theorem Inv.step (h : Inv T m₀ ph m L order) (hs : (T i).Step (ph i) m t p' m')
    (hc : ∀ j, j ≠ i → Disjoint t ((T j).held (ph j))) :
    ∃ L' order', Inv T m₀ (Function.update ph i p') m' L' order' := by
  have hsv := h.saved i
  have hst := h.stale i
  have hfr := h.fresh
  obtain ⟨p, hp⟩ : ∃ p, p = ph i := ⟨_, rfl⟩
  have hs' := hs
  rw [← hp] at hs' hsv hst
  -- a cell of `i` that no other transaction holds dirty
  have hfree : ∀ x ∈ t, ∀ j, j ≠ i → x ∉ (T j).dirty (ph j) := fun x hx j hj hd =>
    (Set.disjoint_left.mp (hc j hj)) hx (Txn.dirty_sub_held _ hd)
  have hnd : ∀ {q : Phase ι β}, q = ph i → (T i).dirty q = ∅ → ∀ x,
      (∀ j, j ≠ i → x ∉ (T j).dirty (ph j)) → L x = m x := by
    intro q hq hd x hx
    refine hfr x fun j => ?_
    by_cases hj : j = i
    · subst hj
      rw [← hq, hd]
      exact Set.notMem_empty x
    · exact hx j hj
  cases hs' with
  | save1 hb =>
    refine ⟨L, order, h.keep hs hc (by simp [Phase.After, ← hp]) (by simp [Txn.dirty])
      (fun x _ hx => hnd hp rfl x hx) ?_⟩
    intro x hx _
    exact congrArg some (hb x hx)
  | @save2 _ b b' h1 h2 =>
    refine ⟨L, order, h.keep hs hc (by simp [Phase.After, ← hp]) (by simp [Txn.dirty])
      (fun x _ hx => hnd hp rfl x hx) ?_⟩
    intro x hx _
    rcases hx with hx | hx
    · exact (congrArg some (h1 x hx)).trans (hsv x hx (by simp [Txn.dirty]))
    · exact congrArg some (h2 x hx)
  | @change _ b ha hr =>
    -- the buffer agrees with the memory on the saved cells, and no one else holds them
    have hkept : ∀ x ∈ (T i).first ∪ (T i).second, (T i).eff L x = L x ∧ b x = L x := by
      intro x hx
      have hLm : L x = m x := hnd hp rfl x (hfree x (Txn.held_sub_support (T := T i) (.saved2 b) hx))
      have hbm : some (b x) = some (m x) := hsv x hx (by simp [Txn.dirty])
      refine ⟨?_, ?_⟩
      · exact if_pos (Or.inr ⟨hr, hx⟩)
      · exact (Option.some.inj hbm).trans hLm.symm
    refine ⟨_, _, h.change hs hc (by simp [Phase.After, ← hp]) trivial ?_ ?_ ?_ ?_⟩
    · intro x hx
      obtain ⟨h1, h2⟩ := hkept x hx
      rw [h1, ← h2]
      rfl
    · intro x hx
      have hnk : x ∉ (T i).first ∪ (T i).second := fun hk =>
        hx (Txn.held_sub_support (T := T i) (.saved2 b) hk)
      rw [Txn.eff, if_neg (by tauto), (T i).change_frame x hx]
    · intro x hx hLm
      rw [Txn.eff, if_neg (fun hc' => hc'.elim ha fun hk => hx hk.2), hLm]
    · exact fun x hx => hx
  | @finish _ b ha hr =>
    refine ⟨_, _, h.change hs hc (by simp [Phase.After, ← hp]) trivial (by simp [Txn.dirty]) ?_ ?_
      (by simp [Txn.held])⟩
    · intro x hx
      rw [Txn.eff, if_neg (by tauto), (T i).change_frame x hx]
    · intro x _ hLm
      rw [Txn.eff, if_neg (by tauto), hLm]
  | atomic ha hr =>
    refine ⟨_, _, h.change hs hc (by simp [Phase.After, ← hp]) trivial (by simp [Txn.dirty]) ?_ ?_
      (by simp [Txn.held])⟩
    · intro x hx
      rw [Txn.eff, if_neg (by tauto), (T i).change_frame x hx]
    · intro x _ hLm
      rw [Txn.eff, if_neg (by tauto), hLm]
  | abort0 ha =>
    have heff : (T i).eff L = L := funext fun x => if_pos (Or.inl ha)
    refine ⟨_, _, h.change hs hc (by simp [Phase.After, ← hp]) trivial (by simp [Txn.dirty]) ?_ ?_
      (by simp [Txn.held])⟩
    · exact fun x _ => congrFun heff x
    · exact fun x _ hLm => (congrFun heff x).trans hLm
  | abort1 ha =>
    have heff : (T i).eff L = L := funext fun x => if_pos (Or.inl ha)
    refine ⟨_, _, h.change hs hc (by simp [Phase.After, ← hp]) trivial (by simp [Txn.dirty]) ?_ ?_
      (by simp [Txn.held])⟩
    · exact fun x _ => congrFun heff x
    · exact fun x _ hLm => (congrFun heff x).trans hLm
  | @restore1 _ _ b b' h1 h2 hb =>
    refine ⟨L, order, h.keep hs hc (by simp [Phase.After, ← hp]) ?_ ?_ ?_⟩
    · exact fun x hx => (congrArg some (hb x hx)).trans (hst x (Or.inr hx))
    · intro x hx hoth
      by_cases hf : x ∈ (T i).first
      · rw [h1 x hf]
        exact (Option.some.inj (hst x (Or.inl hf))).symm
      · rw [h2 x hf]
        refine hfr x fun j => ?_
        by_cases hj : j = i
        · subst hj
          rw [← hp]
          exact fun hd => hd.elim hf hx
        · exact hoth j hj
    · exact fun x hx hnx => absurd hx hnx
  | @restore2 _ _ b h1 h2 =>
    refine ⟨L, order, h.keep hs hc (by simp [Phase.After, ← hp]) (by simp [Txn.dirty]) ?_
      (by simp [Txn.held])⟩
    intro x _ hoth
    by_cases hf : x ∈ (T i).second
    · rw [h1 x hf]
      exact (Option.some.inj (hst x hf)).symm
    · rw [h2 x hf]
      refine hfr x fun j => ?_
      by_cases hj : j = i
      · subst hj
        rw [← hp]
        exact hf
      · exact hoth j hj

end Preserve

/-- **Run lemma**: the invariant holds after every clean run. -/
theorem CleanRun.inv [DecidableEq κ] {T : κ → Txn ι β} {m₀ m : ι → β} {ph : κ → Phase ι β}
    (h : CleanRun T (fun _ => .idle) m₀ ph m) : ∃ L order, Inv T m₀ ph m L order := by
  induction h with
  | refl => exact ⟨_, _, Inv.init T m₀⟩
  | step _ hs hc ih =>
    obtain ⟨L, order, hi⟩ := ih
    exact hi.step hs hc

/-- **A finished clean run is serial**: its memory is that of the transactions
run one after the other in some order. -/
theorem CleanRun.serial [DecidableEq κ] {T : κ → Txn ι β} {m₀ m : ι → β} {ph : κ → Phase ι β}
    (h : CleanRun T (fun _ => .idle) m₀ ph m) (hd : ∀ j, ph j = .done) :
    ∃ order : List κ, order.Nodup ∧ (∀ j, j ∈ order) ∧
      m = order.foldl (fun m i => (T i).eff m) m₀ := by
  obtain ⟨L, order, hi⟩ := h.inv
  refine ⟨order, hi.nodup, fun j => ?_, ?_⟩
  · rw [hi.after j, hd j]
    trivial
  · rw [← hi.serial]
    funext x
    exact (hi.fresh x fun j => by rw [hd j]; exact Set.notMem_empty x).symm

/-- Two transactions: the memory is that of one order or the other. -/
theorem CleanRun.serial_two {T : Bool → Txn ι β} {m₀ m : ι → β} {ph : Bool → Phase ι β}
    (h : CleanRun T (fun _ => .idle) m₀ ph m) (hd : ∀ j, ph j = .done) :
    m = (T true).eff ((T false).eff m₀) ∨ m = (T false).eff ((T true).eff m₀) := by
  obtain ⟨order, hn, hall, hm⟩ := h.serial hd
  rcases order with _ | ⟨a, _ | ⟨b, _ | ⟨c, l⟩⟩⟩
  · exact absurd (hall true) (by simp)
  · cases a
    · exact absurd (hall true) (by simp)
    · exact absurd (hall false) (by simp)
  · cases a <;> cases b
    · simp at hn
    · exact Or.inl hm
    · exact Or.inr hm
    · simp at hn
  · cases a <;> cases b <;> cases c <;> simp at hn

end Transaction
