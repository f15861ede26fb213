/-
Searches that stop at the first hit.

`tried f l` is what `l.findSome? f` looks at: the elements up to the first one that `f` accepts,
and that one.  In a list that is sorted by a relation, an element is tried iff all before it are
rejected (`mem_tried_iff`), so a property of everything the search touches is a question of the
elements alone.
-/
import Mathlib.Data.List.Basic

namespace Search

variable {α β : Type*}

/-- The elements a search looks at. -/
def tried (f : α → Option β) : List α → List α
  | [] => []
  | a :: l => a :: if (f a).isSome then [] else tried f l

theorem tried_subset (f : α → Option β) (l : List α) : ∀ a ∈ tried f l, a ∈ l := by
  induction l with
  | nil => exact fun a ha => ha
  | cons b l ih =>
    intro a ha
    rcases List.mem_cons.mp ha with rfl | ha
    · exact List.mem_cons_self
    · split at ha
      · exact absurd ha List.not_mem_nil
      · exact List.mem_cons_of_mem b (ih a ha)

/-- The first element is always tried. -/
theorem mem_tried_head (f : α → Option β) (a : α) (l : List α) : a ∈ tried f (a :: l) :=
  List.mem_cons_self

/-- An element is tried iff the search has not stopped before it. -/
theorem mem_tried_iff {R : α → α → Prop} (hasymm : ∀ a b, R a b → ¬ R b a)
    (f : α → Option β) {l : List α} (hl : l.Pairwise R) (a : α) :
    a ∈ tried f l ↔ a ∈ l ∧ ∀ b ∈ l, R b a → f b = none := by
  induction hl with
  | nil => exact ⟨fun h => absurd h List.not_mem_nil, fun h => h.1⟩
  | @cons c l hc hl ih =>
    constructor
    · intro ha
      refine ⟨tried_subset f (c :: l) a ha, fun b hb hba => ?_⟩
      rcases List.mem_cons.mp ha with rfl | ha
      · -- nothing of the list is before its head
        rcases List.mem_cons.mp hb with rfl | hb
        · exact absurd hba (hasymm b b hba)
        · exact absurd (hc b hb) (hasymm b a hba)
      · by_cases hf : (f c).isSome
        · rw [if_pos hf] at ha
          exact absurd ha List.not_mem_nil
        · rw [if_neg hf] at ha
          rcases List.mem_cons.mp hb with rfl | hb
          · exact Option.not_isSome_iff_eq_none.mp hf
          · exact (ih.mp ha).2 b hb hba
    · rintro ⟨ha, hbefore⟩
      rcases List.mem_cons.mp ha with rfl | ha
      · exact mem_tried_head f a l
      · have hf : f c = none := hbefore c List.mem_cons_self (hc a ha)
        have hrest := ih.mpr ⟨ha, fun b hb => hbefore b (List.mem_cons_of_mem c hb)⟩
        refine List.mem_cons_of_mem c ?_
        rw [hf]
        exact hrest

end Search
