/-
Ownership of a pool of tokens.

`Ledger pool free owns` says that every token of `pool` is free or owned by
exactly one owner, in one place, and that nothing else is.  Taking tokens from
the free ones and giving back all that an owner has keep it
(`Ledger.take`, `Ledger.give`); when no owner has any, the whole pool is
free (`Ledger.all_free`).
-/
import Mathlib.Tactic
import Mathlib.Data.Set.Disjoint

variable {τ κ : Type*}

/-- Every token of `pool` is free or owned exactly once, and no other token is. -/
structure Ledger (pool free : Set τ) (owns : κ → List τ) : Prop where
  covered : ∀ t ∈ pool, t ∈ free ∨ ∃ k, t ∈ owns k
  free_sub : free ⊆ pool
  owns_sub : ∀ k, ∀ t ∈ owns k, t ∈ pool
  not_both : ∀ k, ∀ t ∈ owns k, t ∉ free
  one : ∀ k k' t, t ∈ owns k → t ∈ owns k' → k = k'
  nodup : ∀ k, (owns k).Nodup

namespace Ledger

variable {pool free : Set τ} {owns : κ → List τ}

theorem init (pool : Set τ) : Ledger pool pool (fun _ : κ => ([] : List τ)) :=
  ⟨fun _ ht => Or.inl ht, subset_rfl, fun _ _ h => absurd h (by simp),
    fun _ _ h => absurd h (by simp), fun _ _ _ h => absurd h (by simp), fun _ => List.nodup_nil⟩

variable [DecidableEq κ]

/-- An owner without tokens takes some of the free ones. -/
theorem take (h : Ledger pool free owns) {k : κ} {l : List τ} (hk : owns k = [])
    (hl : ∀ t ∈ l, t ∈ free) (hn : l.Nodup) :
    Ledger pool (free \ {t | t ∈ l}) (Function.update owns k l) := by
  refine ⟨?_, ?_, ?_, ?_, ?_, ?_⟩
  · intro t ht
    by_cases htl : t ∈ l
    · exact Or.inr ⟨k, by rwa [Function.update_self]⟩
    · rcases h.covered t ht with hf | ⟨j, hj⟩
      · exact Or.inl ⟨hf, htl⟩
      · refine Or.inr ⟨j, ?_⟩
        rw [Function.update_of_ne]
        · exact hj
        · rintro rfl
          rw [hk] at hj
          exact absurd hj (by simp)
  · exact fun t ht => h.free_sub ht.1
  · intro j t ht
    by_cases hj : j = k
    · subst hj
      rw [Function.update_self] at ht
      exact h.free_sub (hl t ht)
    · rw [Function.update_of_ne hj] at ht
      exact h.owns_sub j t ht
  · intro j t ht hf
    by_cases hj : j = k
    · subst hj
      rw [Function.update_self] at ht
      exact hf.2 ht
    · rw [Function.update_of_ne hj] at ht
      exact h.not_both j t ht hf.1
  · -- a token just taken was free, so no other owner has it
    have hnew : ∀ j t, j ≠ k → t ∈ owns j → t ∉ l := fun j t _ hj ht =>
      h.not_both j t hj (hl t ht)
    intro j j' t hj hj'
    by_cases h1 : j = k <;> by_cases h2 : j' = k
    · rw [h1, h2]
    · subst h1
      rw [Function.update_self] at hj
      rw [Function.update_of_ne h2] at hj'
      exact absurd hj (hnew j' t h2 hj')
    · subst h2
      rw [Function.update_self] at hj'
      rw [Function.update_of_ne h1] at hj
      exact absurd hj' (hnew j t h1 hj)
    · rw [Function.update_of_ne h1] at hj
      rw [Function.update_of_ne h2] at hj'
      exact h.one j j' t hj hj'
  · intro j
    by_cases hj : j = k
    · subst hj
      rwa [Function.update_self]
    · rw [Function.update_of_ne hj]
      exact h.nodup j

/-- An owner gives back all it has. -/
theorem give (h : Ledger pool free owns) (k : κ) :
    Ledger pool (free ∪ {t | t ∈ owns k}) (Function.update owns k []) := by
  have hown : ∀ {j t}, t ∈ Function.update owns k [] j → j ≠ k ∧ t ∈ owns j := by
    intro j t ht
    by_cases hj : j = k
    · subst hj
      rw [Function.update_self] at ht
      exact absurd ht (by simp)
    · rw [Function.update_of_ne hj] at ht
      exact ⟨hj, ht⟩
  refine ⟨?_, ?_, fun j t ht => h.owns_sub j t (hown ht).2, ?_, ?_, ?_⟩
  · intro t ht
    rcases h.covered t ht with hf | ⟨j, hj⟩
    · exact Or.inl (Or.inl hf)
    · by_cases hjk : j = k
      · subst hjk
        exact Or.inl (Or.inr hj)
      · exact Or.inr ⟨j, by rwa [Function.update_of_ne hjk]⟩
  · rintro t (hf | ht)
    · exact h.free_sub hf
    · exact h.owns_sub k t ht
  · rintro j t ht (hf | hk)
    · exact h.not_both j t (hown ht).2 hf
    · exact (hown ht).1 (h.one j k t (hown ht).2 hk)
  · exact fun j j' t hj hj' => h.one j j' t (hown hj).2 (hown hj').2
  · intro j
    by_cases hj : j = k
    · subst hj
      rw [Function.update_self]
      exact List.nodup_nil
    · rw [Function.update_of_ne hj]
      exact h.nodup j

omit [DecidableEq κ] in
/-- Nothing is lost: when no owner has a token, all of them are free. -/
theorem all_free (h : Ledger pool free owns) (hk : ∀ k, owns k = []) : free = pool := by
  refine Set.Subset.antisymm h.free_sub fun t ht => ?_
  rcases h.covered t ht with hf | ⟨k, hkt⟩
  · exact hf
  · rw [hk k] at hkt
    exact absurd hkt (by simp)

end Ledger
