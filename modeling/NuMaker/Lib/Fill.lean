/-
Filling spans of a word memory.

A sequence of fills with one value leaves that value in every span and nothing else
changed (`fillAll_apply`).  Whether it wipes a set of words and stays inside another
is a question of the spans and of what the memory held (`fillAll_clean_iff`).
-/
import Mathlib.Data.List.Basic
import Mathlib.Data.Set.Basic

/-- `words` words from `start` on. -/
structure Span where
  start : ℕ
  words : ℕ
  deriving DecidableEq, Repr

namespace Span

/-- The words of a span. -/
def Has (s : Span) (i : ℕ) : Prop := s.start ≤ i ∧ i < s.start + s.words

instance (s : Span) (i : ℕ) : Decidable (s.Has i) := inferInstanceAs (Decidable (_ ∧ _))

theorem not_has_empty (a i : ℕ) : ¬ Has ⟨a, 0⟩ i := by
  rintro ⟨h1, h2⟩
  exact absurd (lt_of_le_of_lt h1 h2) (lt_irrefl _)

theorem Has.mono {a n n' i : ℕ} (h : Has ⟨a, n⟩ i) (hn : n ≤ n') : Has ⟨a, n'⟩ i :=
  ⟨h.1, lt_of_lt_of_le h.2 (Nat.add_le_add_left hn a)⟩

/-- The words of some spans. -/
def Cover (l : List Span) (i : ℕ) : Prop := ∃ s ∈ l, s.Has i

instance (l : List Span) (i : ℕ) : Decidable (Cover l i) :=
  inferInstanceAs (Decidable (∃ s ∈ l, s.Has i))

@[simp] theorem cover_nil (i : ℕ) : ¬ Cover [] i := by
  rintro ⟨s, hs, -⟩
  cases hs

@[simp] theorem cover_cons (s : Span) (l : List Span) (i : ℕ) :
    Cover (s :: l) i ↔ s.Has i ∨ Cover l i := by
  simp [Cover]

end Span

section Fill

variable {α : Type*}

def fill (m : ℕ → α) (s : Span) (v : α) : ℕ → α := fun i => if s.Has i then v else m i

def fillAll (m : ℕ → α) (l : List Span) (v : α) : ℕ → α := l.foldl (fun m s => fill m s v) m

@[simp] theorem fillAll_nil (m : ℕ → α) (v : α) : fillAll m [] v = m := rfl

@[simp] theorem fillAll_cons (m : ℕ → α) (s : Span) (l : List Span) (v : α) :
    fillAll m (s :: l) v = fillAll (fill m s v) l v := rfl

theorem fillAll_append (m : ℕ → α) (l l' : List Span) (v : α) :
    fillAll m (l ++ l') v = fillAll (fillAll m l v) l' v := List.foldl_append

/-- A fill leaves its value in the spans and the rest as it was. -/
theorem fillAll_apply (v : α) (i : ℕ) : ∀ (l : List Span) (m : ℕ → α),
    fillAll m l v i = if Span.Cover l i then v else m i := by
  intro l
  induction l with
  | nil =>
    intro m
    simp
  | cons s l ih =>
    intro m
    rw [fillAll_cons, ih, fill]
    by_cases hs : s.Has i
    · simp [hs]
    · simp [hs]

/-- **Wiping `want` inside `own`**, for one content. -/
theorem fillAll_clean_iff (m : ℕ → α) (l : List Span) (v : α) (want own : ℕ → Prop) :
    ((∀ i, want i → fillAll m l v i = v) ∧ ∀ i, ¬ own i → fillAll m l v i = m i) ↔
      (∀ i, want i → ¬ Span.Cover l i → m i = v) ∧
        ∀ i, Span.Cover l i → ¬ own i → m i = v := by
  constructor
  · rintro ⟨hw, ho⟩
    constructor
    · intro i hi hc
      have := hw i hi
      rwa [fillAll_apply, if_neg hc] at this
    · intro i hc hi
      have := ho i hi
      rw [fillAll_apply, if_pos hc] at this
      exact this.symm
  · rintro ⟨hw, ho⟩
    constructor
    · intro i hi
      rw [fillAll_apply]
      by_cases hc : Span.Cover l i
      · rw [if_pos hc]
      · rw [if_neg hc]
        exact hw i hi hc
    · intro i hi
      rw [fillAll_apply]
      by_cases hc : Span.Cover l i
      · rw [if_pos hc]
        exact (ho i hc hi).symm
      · rw [if_neg hc]

end Fill
