/-
Handles that own cells of a table.

`Handles place cell heap val`: an open handle `k` has a place `l` of the table, the cell
there holds an address, and the heap holds the handle's value at that address; no two
handles have one place, no two cells one address, and what is in a cell or on the heap
is a handle's.  Opening a handle at an empty cell and closing one keep it
(`Handles.alloc`, `Handles.free`), and when no handle is open the heap is empty
(`Handles.none_left`).
-/
import Mathlib.Logic.Function.Basic
import Mathlib.Tactic.Common

variable {κ L α β : Type*}

/-- Open handles own their cells, each its own, and nothing else is allocated. -/
structure Handles (place : κ → Option L) (cell : L → Option α) (heap : α → Option β)
    (val : κ → Option β) : Prop where
  filled : ∀ k l, place k = some l → ∃ a v, cell l = some a ∧ heap a = some v ∧ val k = some v
  owned : ∀ l a, cell l = some a → ∃ k, place k = some l
  place_inj : ∀ k k' l, place k = some l → place k' = some l → k = k'
  cell_inj : ∀ l l' a, cell l = some a → cell l' = some a → l = l'
  used : ∀ a v, heap a = some v → ∃ l, cell l = some a

namespace Handles

variable {place : κ → Option L} {cell : L → Option α} {heap : α → Option β} {val : κ → Option β}

theorem init (hp : ∀ k, place k = none) (hc : ∀ l, cell l = none) (hh : ∀ a, heap a = none) :
    Handles place cell heap val := by
  constructor
  · exact fun k l h => absurd ((hp k).symm.trans h) (by simp)
  · exact fun l a h => absurd ((hc l).symm.trans h) (by simp)
  · exact fun k _ l h => absurd ((hp k).symm.trans h) (by simp)
  · exact fun l _ a h => absurd ((hc l).symm.trans h) (by simp)
  · exact fun a v h => absurd ((hh a).symm.trans h) (by simp)

/-- Without open handles nothing is allocated. -/
theorem none_left (h : Handles place cell heap val) (hp : ∀ k, place k = none) (a : α) :
    heap a = none := by
  by_contra hne
  obtain ⟨v, hv⟩ := Option.ne_none_iff_exists'.mp hne
  obtain ⟨l, hl⟩ := h.used a v hv
  obtain ⟨k, hk⟩ := h.owned l a hl
  rw [hp k] at hk
  cases hk

/-- The address of a handle is no other handle's. -/
theorem alone (h : Handles place cell heap val) {k k' : κ} {l l' : L} {a : α} (hne : k' ≠ k)
    (hk : place k = some l) (hk' : place k' = some l') (ha : cell l = some a) : cell l' ≠ some a := by
  intro ha'
  obtain rfl := h.cell_inj l l' a ha ha'
  exact hne (h.place_inj k' k l hk' hk)

/-- What is owned depends on the places only. -/
theorem congr {place' : κ → Option L} {val' : κ → Option β} (h : Handles place cell heap val)
    (hp : ∀ k, place' k = place k) (hv : ∀ k, (place k).isSome → val' k = val k) :
    Handles place' cell heap val' := by
  obtain rfl : place' = place := funext hp
  refine { h with filled := ?_ }
  intro k l hk
  rw [hv k (Option.isSome_iff_exists.mpr ⟨l, hk⟩)]
  exact h.filled k l hk

variable [DecidableEq κ] [DecidableEq L] [DecidableEq α]

/-- A handle opens at an empty cell with fresh memory. -/
theorem alloc (h : Handles place cell heap val) {k : κ} {l : L} {a : α} (v : β)
    (hk : place k = none) (hl : cell l = none) (ha : heap a = none) :
    Handles (Function.update place k (some l)) (Function.update cell l (some a))
      (Function.update heap a (some v)) (Function.update val k (some v)) := by
  have hfree : ∀ j, place j ≠ some l := by
    intro j hj
    obtain ⟨b, w, hb, -⟩ := h.filled j l hj
    rw [hl] at hb
    cases hb
  have hnew : ∀ m, cell m ≠ some a := by
    intro m hm
    obtain ⟨j, hj⟩ := h.owned m a hm
    obtain ⟨b, w, hb, hw, -⟩ := h.filled j m hj
    rw [hm, Option.some_inj] at hb
    subst hb
    rw [ha] at hw
    cases hw
  constructor
  · intro j m hj
    by_cases hjk : j = k
    · subst hjk
      rw [Function.update_self, Option.some_inj] at hj
      subst hj
      exact ⟨a, v, by rw [Function.update_self], by rw [Function.update_self], by rw [Function.update_self]⟩
    · rw [Function.update_of_ne hjk] at hj
      obtain ⟨b, w, hb, hw, hv⟩ := h.filled j m hj
      have hml : m ≠ l := fun hml => hfree j (hml ▸ hj)
      have hba : b ≠ a := fun hba => hnew m (hba ▸ hb)
      exact ⟨b, w, by rwa [Function.update_of_ne hml], by rwa [Function.update_of_ne hba],
        by rwa [Function.update_of_ne hjk]⟩
  · intro m b hm
    by_cases hml : m = l
    · subst hml
      exact ⟨k, by rw [Function.update_self]⟩
    · rw [Function.update_of_ne hml] at hm
      obtain ⟨j, hj⟩ := h.owned m b hm
      have hjk : j ≠ k := by
        rintro rfl
        rw [hk] at hj
        cases hj
      exact ⟨j, by rwa [Function.update_of_ne hjk]⟩
  · intro j j' m hj hj'
    by_cases hjk : j = k
    · by_cases hjk' : j' = k
      · rw [hjk, hjk']
      · subst hjk
        rw [Function.update_self, Option.some_inj] at hj
        subst hj
        rw [Function.update_of_ne hjk'] at hj'
        exact absurd hj' (hfree j')
    · rw [Function.update_of_ne hjk] at hj
      by_cases hjk' : j' = k
      · subst hjk'
        rw [Function.update_self, Option.some_inj] at hj'
        subst hj'
        exact absurd hj (hfree j)
      · rw [Function.update_of_ne hjk'] at hj'
        exact h.place_inj j j' m hj hj'
  · intro m m' b hm hm'
    by_cases hml : m = l
    · by_cases hml' : m' = l
      · rw [hml, hml']
      · subst hml
        rw [Function.update_self, Option.some_inj] at hm
        subst hm
        rw [Function.update_of_ne hml'] at hm'
        exact absurd hm' (hnew m')
    · rw [Function.update_of_ne hml] at hm
      by_cases hml' : m' = l
      · subst hml'
        rw [Function.update_self, Option.some_inj] at hm'
        subst hm'
        exact absurd hm (hnew m)
      · rw [Function.update_of_ne hml'] at hm'
        exact h.cell_inj m m' b hm hm'
  · intro b w hw
    by_cases hba : b = a
    · subst hba
      exact ⟨l, by rw [Function.update_self]⟩
    · rw [Function.update_of_ne hba] at hw
      obtain ⟨m, hm⟩ := h.used b w hw
      have hml : m ≠ l := by
        rintro rfl
        rw [hl] at hm
        cases hm
      exact ⟨m, by rwa [Function.update_of_ne hml]⟩

/-- A handle closes, and its cell and its memory are free. -/
theorem free (h : Handles place cell heap val) {k : κ} {l : L} {a : α} (hk : place k = some l)
    (ha : cell l = some a) : Handles (Function.update place k none) (Function.update cell l none)
      (Function.update heap a none) val := by
  -- an open handle that is left has another place and another address
  have hother : ∀ j m, Function.update place k none j = some m → j ≠ k ∧ place j = some m ∧ m ≠ l := by
    intro j m hj
    have hjk : j ≠ k := by
      rintro rfl
      rw [Function.update_self] at hj
      cases hj
    rw [Function.update_of_ne hjk] at hj
    exact ⟨hjk, hj, fun hml => hjk (h.place_inj j k l (hml ▸ hj) hk)⟩
  have hcell : ∀ m b, Function.update cell l none m = some b → m ≠ l ∧ cell m = some b ∧ b ≠ a := by
    intro m b hm
    have hml : m ≠ l := by
      rintro rfl
      rw [Function.update_self] at hm
      cases hm
    rw [Function.update_of_ne hml] at hm
    exact ⟨hml, hm, fun hba => hml (h.cell_inj m l a (hba ▸ hm) ha)⟩
  constructor
  · intro j m hj
    obtain ⟨-, hj', hml⟩ := hother j m hj
    obtain ⟨b, w, hb, hw, hv⟩ := h.filled j m hj'
    have hba : b ≠ a := fun hba => hml (h.cell_inj m l a (hba ▸ hb) ha)
    exact ⟨b, w, by rwa [Function.update_of_ne hml], by rwa [Function.update_of_ne hba], hv⟩
  · intro m b hm
    obtain ⟨hml, hm', -⟩ := hcell m b hm
    obtain ⟨j, hj⟩ := h.owned m b hm'
    have hjk : j ≠ k := by
      rintro rfl
      exact hml (Option.some_inj.mp (hj.symm.trans hk))
    exact ⟨j, by rwa [Function.update_of_ne hjk]⟩
  · intro j j' m hj hj'
    exact h.place_inj j j' m (hother j m hj).2.1 (hother j' m hj').2.1
  · intro m m' b hm hm'
    exact h.cell_inj m m' b (hcell m b hm).2.1 (hcell m' b hm').2.1
  · intro b w hw
    have hba : b ≠ a := by
      rintro rfl
      rw [Function.update_self] at hw
      cases hw
    rw [Function.update_of_ne hba] at hw
    obtain ⟨m, hm⟩ := h.used b w hw
    have hml : m ≠ l := by
      rintro rfl
      exact hba (Option.some_inj.mp (hm.symm.trans ha))
    exact ⟨m, by rwa [Function.update_of_ne hml]⟩

end Handles
