/-
Singly linked lists.

`Links next h l e`: from the head `h` the links `next` lead through the nodes `l`, in
order, to `e`.  A path depends on the links of its nodes only (`Links.congr`); nodes come
in behind the head or behind a node (`Links.push`, `Links.insert`), lists are chained
(`Links.chain`), a node is taken out (`Links.takeOut`); a search along the links finds what
a search of the list finds (`Links.search_eq_find?`).
-/
import Mathlib.Data.List.Basic
import Mathlib.Data.List.Nodup
import Mathlib.Logic.Function.Basic
import Mathlib.Tactic.Common

variable {α : Type*}

/-- From `h` the links lead through `l` to `e`. -/
def Links (next : α → Option α) : Option α → List α → Option α → Prop
  | h, [], e => h = e
  | h, a :: l, e => h = some a ∧ Links next (next a) l e

/-- The first node with property `p` along the links, within `n` nodes. -/
def Links.search (next : α → Option α) (p : α → Bool) : ℕ → Option α → Option α
  | 0, _ => none
  | _ + 1, none => none
  | n + 1, some a => if p a then some a else Links.search next p n (next a)

/-- In a list without repetition `b` comes after `a` if it is in the rest behind `a`. -/
theorem pair_sublist_iff {a b : α} {l₁ l₂ : List α} (hd : (l₁ ++ a :: l₂).Nodup) :
    [a, b].Sublist (l₁ ++ a :: l₂) ↔ b ∈ l₂ := by
  constructor
  · intro h
    induction l₁ with
    | nil =>
      cases h with
      | cons _ h => exact absurd (h.subset List.mem_cons_self) (List.nodup_cons.mp hd).1
      | cons_cons _ h => exact List.singleton_sublist.mp h
    | cons c l₁ ih =>
      rw [List.cons_append] at h hd
      obtain ⟨hnot, hd⟩ := List.nodup_cons.mp hd
      cases h with
      | cons _ h => exact ih hd h
      | cons_cons _ h => exact absurd (List.mem_append_right l₁ List.mem_cons_self) hnot
  · intro hb
    exact ((List.singleton_sublist.mpr hb).cons_cons a).trans (List.sublist_append_right l₁ _)

namespace Links

variable {next next' : α → Option α} {h e : Option α} {l l₁ l₂ : List α} {a p : α}

@[simp] theorem nil_iff : Links next h [] e ↔ h = e := Iff.rfl

@[simp] theorem cons_iff : Links next h (a :: l) e ↔ h = some a ∧ Links next (next a) l e := Iff.rfl

theorem append_iff : Links next h (l₁ ++ l₂) e ↔ ∃ m, Links next h l₁ m ∧ Links next m l₂ e := by
  induction l₁ generalizing h with
  | nil => simp
  | cons a l₁ ih => simp only [List.cons_append, cons_iff, ih, and_assoc, exists_and_left]

/-- Only the links of the nodes count. -/
theorem congr (hn : ∀ a ∈ l, next' a = next a) : Links next' h l e ↔ Links next h l e := by
  induction l generalizing h with
  | nil => simp
  | cons a l ih =>
    rw [cons_iff, cons_iff, hn a List.mem_cons_self, ih fun b hb => hn b (List.mem_cons_of_mem a hb)]

theorem head_eq (hp : Links next h l none) : h = l.head? := by
  cases l with
  | nil => exact hp
  | cons a l => exact hp.1

theorem unique (hp : Links next h l₁ none) (hp' : Links next h l₂ none) : l₁ = l₂ := by
  induction l₁ generalizing h l₂ with
  | nil =>
    obtain rfl : h = none := hp
    cases l₂ with
    | nil => rfl
    | cons b l₂ => exact absurd hp'.1 (by simp)
  | cons a l₁ ih =>
    obtain ⟨rfl, hp⟩ := hp
    cases l₂ with
    | nil => exact absurd hp' (by simp)
    | cons b l₂ =>
      obtain ⟨hb, hp'⟩ := hp'
      obtain rfl := Option.some_inj.mp hb
      rw [ih hp hp']

/-- The link of a node is the node after it. -/
theorem next_eq (hp : Links next h (l₁ ++ a :: l₂) e) : Links next (next a) l₂ e := by
  obtain ⟨m, -, hm⟩ := append_iff.mp hp
  exact hm.2

theorem mem_of_next (hp : Links next h l none) (ha : a ∈ l) (hn : next a = some p) : p ∈ l := by
  obtain ⟨l₁, l₂, rfl⟩ := List.append_of_mem ha
  have h₂ := next_eq hp
  rw [hn] at h₂
  cases l₂ with
  | nil => exact absurd h₂ (by simp)
  | cons b l₂ =>
    obtain rfl := Option.some_inj.mp h₂.1
    simp

/-- Only the node before `a` leads to it. -/
theorem next_iff {b : α} (hp : Links next h (l₁ ++ p :: a :: l₂) none) (hd : (l₁ ++ p :: a :: l₂).Nodup)
    (hb : b ∈ l₁ ++ p :: a :: l₂) : next b = some a ↔ b = p := by
  constructor
  · intro hba
    obtain ⟨m₁, m₂, heq⟩ := List.append_of_mem hb
    rw [heq] at hp
    have hrest := next_eq hp
    rw [hba] at hrest
    cases m₂ with
    | nil => exact absurd hrest (by simp)
    | cons c m₂ =>
      obtain rfl := Option.some_inj.mp hrest.1
      -- `p` and `b` are both what comes before `a`
      have hsplit : m₁ ++ [b] ++ a :: m₂ = l₁ ++ [p] ++ a :: l₂ := by simpa using heq.symm
      have hd' : (m₁ ++ [b] ++ a :: m₂).Nodup := by
        rw [hsplit]
        simpa using hd
      have hfront : a ∉ m₁ ++ [b] := fun ha =>
        (List.nodup_append.mp hd').2.2 a ha a List.mem_cons_self rfl
      have hback : a ∉ m₂ := (List.nodup_cons.mp (List.nodup_append.mp hd').2.1).1
      obtain ⟨hsame, -⟩ := (List.append_cons_inj_of_notMem hfront hback).mp hsplit
      simpa using List.append_inj_right' hsame rfl
  · rintro rfl
    exact (next_eq hp).1

variable [DecidableEq α]

theorem update_iff (ha : a ∉ l) (v : Option α) :
    Links (Function.update next a v) h l e ↔ Links next h l e :=
  Links.congr fun b hb => Function.update_of_ne (fun hba : b = a => ha (hba ▸ hb)) v next

/-- A new node becomes the head. -/
theorem push (hp : Links next h l e) (ha : a ∉ l) :
    Links (Function.update next a h) (some a) (a :: l) e := by
  rw [cons_iff, Function.update_self]
  exact ⟨rfl, (update_iff ha h).mpr hp⟩

/-- A new node comes behind `p`. -/
theorem insert (hp : Links next h (l₁ ++ p :: l₂) e) (hd : (l₁ ++ p :: l₂).Nodup)
    (ha : a ∉ l₁ ++ p :: l₂) :
    Links (Function.update (Function.update next a (next p)) p (some a)) h (l₁ ++ p :: a :: l₂) e := by
  obtain ⟨m, h₁, h₂⟩ := append_iff.mp hp
  have hp₁ : p ∉ l₁ := fun hm => (List.nodup_append.mp hd).2.2 p hm p List.mem_cons_self rfl
  have hp₂ : p ∉ l₂ := (List.nodup_cons.mp (List.nodup_append.mp hd).2.1).1
  simp only [List.mem_append, List.mem_cons, not_or] at ha
  refine append_iff.mpr ⟨m, ?_, h₂.1, ?_⟩
  · exact (update_iff hp₁ _).mpr ((update_iff ha.1 _).mpr h₁)
  · rw [Function.update_self]
    refine ⟨rfl, ?_⟩
    rw [Function.update_of_ne ha.2.1, Function.update_self]
    exact (update_iff hp₂ _).mpr ((update_iff ha.2.2 _).mpr h₂.2)

/-- The last node leads on to another list. -/
theorem chain {k : Option α} (hp : Links next h (l₁ ++ [p]) none) (hk : Links next k l₂ e)
    (hd : (l₁ ++ [p]).Nodup) (hp₂ : p ∉ l₂) :
    Links (Function.update next p k) h (l₁ ++ [p] ++ l₂) e := by
  obtain ⟨m, h₁, hm, -⟩ := append_iff.mp hp
  have hp₁ : p ∉ l₁ := fun hm => (List.nodup_append.mp hd).2.2 p hm p (by simp) rfl
  refine append_iff.mpr ⟨k, append_iff.mpr ⟨m, (update_iff hp₁ k).mpr h₁, hm, ?_⟩,
    (update_iff hp₂ k).mpr hk⟩
  rw [Function.update_self]
  exact rfl

/-- The node behind `p` is taken out. -/
theorem unlink (hp : Links next h (l₁ ++ p :: a :: l₂) e) (hd : (l₁ ++ p :: a :: l₂).Nodup) :
    Links (Function.update next p (next a)) h (l₁ ++ p :: l₂) e := by
  obtain ⟨m, h₁, h₂⟩ := append_iff.mp hp
  have hp₁ : p ∉ l₁ := fun hm => (List.nodup_append.mp hd).2.2 p hm p List.mem_cons_self rfl
  have hp₂ : p ∉ a :: l₂ := (List.nodup_cons.mp (List.nodup_append.mp hd).2.1).1
  refine append_iff.mpr ⟨m, (update_iff hp₁ _).mpr h₁, h₂.1, ?_⟩
  rw [Function.update_self]
  exact (update_iff (fun hm => hp₂ (List.mem_cons_of_mem a hm)) _).mpr h₂.2.2

/-- A node is taken out: it is the head, or the one node that leads to it is linked on. -/
theorem takeOut (hp : Links next h l none) (hd : l.Nodup) (ha : a ∈ l) :
    (h = some a ∧ Links next (next a) (l.filter (· ≠ a)) none) ∨
      ∃ p ∈ l, h ≠ some a ∧ p ≠ a ∧ (∀ b ∈ l, next b = some a ↔ b = p) ∧
        Links (Function.update next p (next a)) h (l.filter (· ≠ a)) none := by
  obtain ⟨l₁, l₂, rfl⟩ := List.append_of_mem ha
  have ha₁ : a ∉ l₁ := fun hm => (List.nodup_append.mp hd).2.2 a hm a List.mem_cons_self rfl
  have ha₂ : a ∉ l₂ := (List.nodup_cons.mp (List.nodup_append.mp hd).2.1).1
  have hfilter : (l₁ ++ a :: l₂).filter (· ≠ a) = l₁ ++ l₂ := by
    have hkeep : ∀ l : List α, a ∉ l → l.filter (· ≠ a) = l := by
      intro l hl
      rw [List.filter_eq_self]
      intro b hb
      exact decide_eq_true (fun hba => hl (hba ▸ hb))
    rw [List.filter_append, List.filter_cons_of_neg (by simp), hkeep l₁ ha₁, hkeep l₂ ha₂]
  rw [hfilter]
  rcases List.eq_nil_or_concat' l₁ with rfl | ⟨l₁, p, rfl⟩
  · exact Or.inl ⟨hp.1, hp.2⟩
  · rw [List.append_assoc, List.singleton_append] at hp hd
    have hpa : p ≠ a := fun h => ha₁ (by simp [h])
    refine Or.inr ⟨p, by simp, ?_, hpa, ?_, ?_⟩
    · rintro rfl
      cases l₁ with
      | nil => exact hpa (Option.some_inj.mp hp.1).symm
      | cons b l₁ => exact ha₁ (by simp [Option.some_inj.mp hp.1])
    · intro b hb
      rw [List.append_assoc, List.singleton_append] at hb
      exact next_iff hp hd hb
    · rw [List.append_assoc, List.singleton_append]
      exact unlink hp hd

end Links

/-- A search along the links is a search of the list. -/
theorem Links.search_eq_find? {next : α → Option α} (p : α → Bool) {n : ℕ} {h : Option α} {l : List α}
    (hp : Links next h l none) (hn : l.length ≤ n) : Links.search next p n h = l.find? p := by
  induction l generalizing n h with
  | nil =>
    obtain rfl : h = none := hp
    cases n with
    | zero => rfl
    | succ n => rfl
  | cons a l ih =>
    obtain ⟨rfl, hp⟩ := hp
    obtain ⟨n, rfl⟩ := Nat.exists_eq_succ_of_ne_zero (Nat.ne_of_gt (Nat.zero_lt_of_lt hn))
    rw [Links.search, List.find?_cons, ih hp (Nat.le_of_succ_le_succ hn)]
    cases p a with
    | true => rfl
    | false => rfl

theorem Links.search_eq_some {next : α → Option α} {P : α → Bool} {n : ℕ} {h : Option α} {l : List α}
    {p : α} (hp : Links next h l none) (hn : l.length ≤ n) (hl : p ∈ l)
    (hP : ∀ b ∈ l, P b = true ↔ b = p) : Links.search next P n h = some p := by
  rw [Links.search_eq_find? P hp hn]
  cases hf : l.find? P with
  | none => exact absurd ((hP p hl).mpr rfl) (List.find?_eq_none.mp hf p hl)
  | some b => rw [(hP b (List.mem_of_find?_eq_some hf)).mp (List.find?_some hf)]

theorem Links.search_isSome_iff {next : α → Option α} {P : α → Bool} {n : ℕ} {h : Option α} {l : List α}
    (hp : Links next h l none) (hn : l.length ≤ n) :
    (Links.search next P n h).isSome = true ↔ ∃ a ∈ l, P a = true := by
  rw [Links.search_eq_find? P hp hn, List.find?_isSome]
