/-
A latched event: raised, acknowledged, delivered.

An event is latched when it is raised (raising it again does nothing until it is
acknowledged), held by its handler from the acknowledgement on, and counted when
it is delivered.  Whatever the order of the steps, what was raised is what was
delivered, what is held and what is latched (`Latch.Step.balanced`), so nothing
is lost or delivered twice once the latch is empty (`Latch.Balanced.eq_of_empty`).
-/
import Mathlib.Tactic
import Mathlib.Logic.Relation

/-- An event source: is it latched, does the handler hold it, and how often was it
raised and delivered. -/
@[ext] structure Latch where
  set : Bool
  held : Bool
  raised : ℕ
  delivered : ℕ

namespace Latch

/-- What can happen to a latch in one step. -/
inductive Step : Latch → Latch → Prop
  | stay (l : Latch) : Step l l
  | raise (h : Bool) (r d : ℕ) : Step ⟨false, h, r, d⟩ ⟨true, h, r + 1, d⟩
  | ack (r d : ℕ) : Step ⟨true, false, r, d⟩ ⟨false, true, r, d⟩
  | deliver (s : Bool) (r d : ℕ) : Step ⟨s, true, r, d⟩ ⟨s, false, r, d + 1⟩

section Intro

variable {l l' : Latch}

theorem Step.of_eq (h : l' = l) : Step l l' := h ▸ .stay l

theorem Step.of_raise (hs : l.set = false) (hs' : l'.set = true) (hh : l'.held = l.held)
    (hr : l'.raised = l.raised + 1) (hd : l'.delivered = l.delivered) : Step l l' := by
  obtain ⟨s, h, r, d⟩ := l
  obtain ⟨s', h', r', d'⟩ := l'
  obtain ⟨rfl, rfl, rfl, rfl, rfl⟩ : s = false ∧ s' = true ∧ h' = h ∧ r' = r + 1 ∧ d' = d :=
    ⟨hs, hs', hh, hr, hd⟩
  exact .raise h' r d'

theorem Step.of_ack (hs : l.set = true) (hs' : l'.set = false) (hh : l.held = false)
    (hh' : l'.held = true) (hr : l'.raised = l.raised) (hd : l'.delivered = l.delivered) :
    Step l l' := by
  obtain ⟨s, h, r, d⟩ := l
  obtain ⟨s', h', r', d'⟩ := l'
  obtain ⟨rfl, rfl, rfl, rfl, rfl, rfl⟩ : s = true ∧ s' = false ∧ h = false ∧ h' = true ∧ r' = r ∧
    d' = d := ⟨hs, hs', hh, hh', hr, hd⟩
  exact .ack r' d'

theorem Step.of_deliver (hs : l'.set = l.set) (hh : l.held = true) (hh' : l'.held = false)
    (hr : l'.raised = l.raised) (hd : l'.delivered = l.delivered + 1) : Step l l' := by
  obtain ⟨s, h, r, d⟩ := l
  obtain ⟨s', h', r', d'⟩ := l'
  obtain ⟨rfl, rfl, rfl, rfl, rfl⟩ : s' = s ∧ h = true ∧ h' = false ∧ r' = r ∧ d' = d + 1 :=
    ⟨hs, hh, hh', hr, hd⟩
  exact .deliver s' r' d

end Intro

/-- Nothing is lost and nothing is delivered twice. -/
def Balanced (l : Latch) : Prop := l.raised = l.delivered + l.held.toNat + l.set.toNat

theorem Step.balanced {l l' : Latch} (h : Step l l') (hb : l.Balanced) : l'.Balanced := by
  cases h with
  | stay => exact hb
  | raise h r d =>
    simp only [Balanced, Bool.toNat_false, Bool.toNat_true] at hb ⊢
    omega
  | ack r d =>
    simp only [Balanced, Bool.toNat_false, Bool.toNat_true] at hb ⊢
    omega
  | deliver s r d =>
    simp only [Balanced, Bool.toNat_false, Bool.toNat_true] at hb ⊢
    omega

theorem Balanced.le {l : Latch} (h : l.Balanced) : l.delivered ≤ l.raised := by
  rw [Balanced] at h
  omega

theorem Balanced.eq_of_empty {l : Latch} (h : l.Balanced) (hs : l.set = false) (hh : l.held = false) :
    l.delivered = l.raised := by
  rw [Balanced, hs, hh] at h
  simpa using h.symm

end Latch
