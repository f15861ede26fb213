/-
What the PDMA engine does to memory.

The engine performs the descriptors handed to it one after another, unit by unit
(`engine`).  For a transfer with both addresses incremented that is one run of moves
from source to destination (`Moves.engine`).
-/
import NuMaker.Lib.ByteCopy
import NuMaker.Pdma.Chain

namespace Pdma

/-! ### Performing descriptors -/

/-- The first `n` units of a descriptor. -/
def DSCT_T.units (d : DSCT_T) (M : TracedMem 32) : ℕ → TracedMem 32
  | 0 => M
  | n + 1 => (d.units M n).move (chainAddr d.dstInc d.DA (n * d.bytes))
      (chainAddr d.srcInc d.SA (n * d.bytes)) d.bytes

/-- A descriptor moves one unit more than its count field says. -/
def DSCT_T.perform (M : TracedMem 32) (d : DSCT_T) : TracedMem 32 := d.units M (d.TXCNT + 1)

/-- The descriptors from an address on, at most `fuel` of them. -/
def walkFrom (s : State) (id : ℕ) : ℕ → BitVec 32 → List Desc
  | 0, _ => []
  | fuel + 1, a =>
    descAt a :: if (s.desc id (descAt a)).OPMODE = 2 then
      walkFrom s id fuel (s.desc id (descAt a)).NEXT else []

/-- The descriptors the engine performs: a list has no more than the pool. -/
def handedTo (s : State) (id : ℕ) : List Desc :=
  if (s.desc id .chan).OPMODE = 2 then
    walkFrom s id NU_PDMA_SGTBL_POOL_SIZE (s.desc id .chan).NEXT
  else [.chan]

/-- The engine performs the work of channel `id`. -/
def engine (s : State) (id : ℕ) (M : TracedMem 32) : TracedMem 32 :=
  ((handedTo s id).map (s.desc id)).foldl DSCT_T.perform M

/-! ### The descriptors performed are those handed -/

theorem Walk.walkFrom_eq {s : State} {id : ℕ} {a : BitVec 32} {l : List Desc} (h : Walk s id a l) :
    ∀ {fuel : ℕ}, l.length ≤ fuel → walkFrom s id fuel a = l := by
  induction h with
  | last h =>
    intro fuel hf
    obtain ⟨fuel, rfl⟩ : ∃ f, fuel = f + 1 := ⟨fuel - 1, by simp at hf; omega⟩
    rw [walkFrom, if_neg h]
  | next h hw ih =>
    intro fuel hf
    obtain ⟨fuel, rfl⟩ : ∃ f, fuel = f + 1 := ⟨fuel - 1, by simp at hf; omega⟩
    rw [walkFrom, if_pos h, ih (by simpa using hf)]

theorem Handed.handedTo_eq {s : State} {id : ℕ} {l : List Desc} (h : Handed s id l)
    (hlen : l.length ≤ NU_PDMA_SGTBL_POOL_SIZE) : handedTo s id = l := by
  cases h with
  | one h => rw [handedTo, if_neg h]
  | list h hw => rw [handedTo, if_pos h, hw.walkFrom_eq hlen]

/-! ### One run of moves -/

section Copy

variable {w : ℕ} {e : nu_pdma_memctrl_t} (he : e = .eMemCtl_SrcInc_DstInc)

include he

/-- With both addresses incremented a descriptor is one run of moves. -/
theorem Controlled.perform {d : DSCT_T} (h : Controlled e w d) (M : TracedMem 32) :
    DSCT_T.perform M d = M.moves d.DA d.SA (w / 8) (d.TXCNT + 1) := by
  have hunits : ∀ n, d.units M n = M.moves d.DA d.SA (w / 8) n := by
    intro n
    induction n with
    | zero => rfl
    | succ n ih =>
      rw [DSCT_T.units, TracedMem.moves, ih, h.bytes, h.src, h.dst, he]
      rfl
  exact hunits _

/-- Descriptors that follow one another are one run of moves. -/
theorem perform_follow (hw : 8 ∣ w) : ∀ {ds : List DSCT_T} {dst src : BitVec 32} (M : TracedMem 32),
    (∀ d ∈ ds.head?, d.SA = src ∧ d.DA = dst) → ds.IsChain (Follows e w) →
    (∀ d ∈ ds, Controlled e w d) →
    ds.foldl DSCT_T.perform M = M.moves dst src (w / 8) ((ds.map fun d => d.TXCNT + 1).sum) := by
  intro ds
  induction ds with
  | nil => exact fun _ _ _ _ => rfl
  | cons d ds ih =>
    intro dst src M hhead hchain hctl
    obtain ⟨rfl, rfl⟩ := hhead d rfl
    rw [List.foldl_cons, (hctl d List.mem_cons_self).perform he, List.map_cons, List.sum_cons,
      TracedMem.moves_add M d.DA d.SA (w / 8) (d.TXCNT + 1)]
    refine ih _ (fun d' hd' => ?_) hchain.tail fun d' hd' => hctl d' (List.mem_cons_of_mem d hd')
    have hf : Follows e w d d' := by
      cases ds with
      | nil => exact absurd hd' (by simp)
      | cons d'' ds =>
        obtain rfl := Option.some.inj hd'
        exact (List.isChain_cons_cons.mp hchain).1
    have hdiv : (d.TXCNT + 1) * w / 8 = (d.TXCNT + 1) * (w / 8) := Nat.mul_div_assoc _ hw
    rw [hf.src, hf.dst, hdiv, he]
    exact ⟨rfl, rfl⟩

end Copy

/-- **What the engine does** for a transfer with both addresses incremented. -/
theorem Moves.engine {s : State} {id w n : ℕ} {src dst : BitVec 32} {l : List Desc}
    (h : Moves s id w src dst n l) (hw : 8 ∣ w) (hlen : l.length ≤ NU_PDMA_SGTBL_POOL_SIZE)
    (he : (s.nu_pdma_chn_arr (arrayIdx id)).m_eMemCtl = .eMemCtl_SrcInc_DstInc) (M : TracedMem 32) :
    engine s id M = M.moves dst src (w / 8) n := by
  rw [Pdma.engine, h.handed.handedTo_eq hlen, @perform_follow w _ he hw _ dst src M ?_ h.follow ?_,
    List.map_map]
  · exact congrArg _ h.units
  · intro d hd
    rw [List.head?_map] at hd
    obtain ⟨p, hp, rfl⟩ := Option.map_eq_some_iff.mp hd
    exact h.first p hp
  · intro d hd
    obtain ⟨p, hp, rfl⟩ := List.mem_map.mp hd
    exact h.control p hp

end Pdma
