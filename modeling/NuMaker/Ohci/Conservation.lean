/-
The operations of the driver and the controller, and what they conserve.

Between two operations every unit of the pool is free or at exactly one place of a layout,
every ED off the lists of the controller is held by an endpoint record or by the removal
list, and an endpoint record holds an ED that is there and that no other record holds
(`Conserved`).  `Inv` adds what carries this over a run: where the dummy TD of an interrupt
endpoint is, and which ED an endpoint record may name.
-/
import NuMaker.Ohci.Handler
import NuMaker.Ohci.Submit

namespace Ohci

/-! ### Operations -/

/-- The driver, and the list of the TDs that the controller has not handed over yet. -/
structure World where
  drv : State
  HcDoneHead : Option ℕ

/-- What callers, the driver and the controller do: fill a request or an endpoint record,
submit, quit; the controller counts frames, retires the first TD of an ED, hands over its
done list, and interrupts. -/
inductive Op
  | fill (u : ℕ) (utr : UTR_T)
  | describe (p : ℕ) (ep : Usb.EP_INFO_T)
  | ctrl_xfer (u : ℕ)
  | bulk_xfer (u p : ℕ)
  | int_xfer (u p : ℕ)
  | iso_xfer (u p : ℕ)
  | quit_xfer (utr ep : Option ℕ)
  | frame (n : BitVec 16)
  | retire (ed : ℕ) (td : TD_T) (halted toggleCarry : Bool)
  | handOver
  | irq (SF WDH : Bool)

/-- The controller takes TD `t` off ED `e`, with what it has written into them. -/
def World.retired (σ : World) (e t : ℕ) (td : TD_T) (halted toggleCarry : Bool) : World :=
  let s := σ.drv.setED e { σ.drv.ed e with
    HeadP := σ.drv.NextTD t
    halted := halted
    toggleCarry := toggleCarry }
  ⟨s.setTD t { td with
    NextTD := σ.HcDoneHead
    ed := (σ.drv.td t).ed
    utr := (σ.drv.td t).utr }, some t⟩

def World.step (σ : World) : Op → Option World
  | .fill u utr => some { σ with drv := σ.drv.setUTR u utr }
  | .describe p ep => some { σ with drv := { σ.drv with
      ep := Function.update σ.drv.ep p { ep with hw_pipe := (σ.drv.ep p).hw_pipe } } }
  | .ctrl_xfer u => some { σ with drv := (ohci_ctrl_xfer σ.drv u).2 }
  | .bulk_xfer u p => some { σ with drv := (ohci_bulk_xfer σ.drv u p).2 }
  | .int_xfer u p => some { σ with drv := (ohci_int_xfer σ.drv u p).2 }
  | .iso_xfer u p => some { σ with drv := (ohci_iso_xfer σ.drv u p).2 }
  | .quit_xfer utr ep => some { σ with drv := (ohci_quit_xfer σ.drv utr ep).2 }
  | .frame n => some { σ with drv := { σ.drv with frame_no := n } }
  | .retire e td halted toggleCarry =>
    match (σ.drv.ed e).HeadP with
    | none => none
    | some t =>
      if σ.drv.linked e = true ∧ (σ.drv.ed e).TailP ≠ some t then
        some (σ.retired e t td halted toggleCarry)
      else none
  | .handOver =>
    if σ.drv.done_head = none then some ⟨{ σ.drv with done_head := σ.HcDoneHead }, none⟩ else none
  | .irq SF WDH => some { σ with drv := USBH_IRQHandler σ.drv SF WDH }

/-- What the callers see to: a record of endpoint 0 (`ep0`) is used for control requests
and no other, addresses of devices have 7 bits, and isochronous endpoints get isochronous
requests and interrupt endpoints do not. -/
def World.Proper (ep0 : ℕ → Bool) (σ : World) : Op → Prop
  | .ctrl_xfer u => ep0 (σ.drv.utr u).udev.ep0 = true ∧ (σ.drv.utr u).udev.dev_num < 128
  | .bulk_xfer _ p => ep0 p = false
  | .int_xfer _ p => ep0 p = false ∧ (σ.drv.ep p).bmAttributes &&& 3 ≠ 1
  | .iso_xfer _ p => ep0 p = false ∧ (σ.drv.ep p).bmAttributes &&& 3 = 1
  | .fill _ _ | .describe _ _ | .quit_xfer _ _ | .frame _ | .retire _ _ _ _ | .handOver | .irq _ _ => True

/-- The ED an interrupt or isochronous request finds. -/
def State.findInt (s : State) (u p : ℕ) : Option ℕ :=
  s.findED (some (get_int_tree_head_node s (s.ep p).bInterval)) (s.info u p)

/-- No other endpoint record names the ED. -/
def State.Private (s : State) (p e : ℕ) : Prop := ∀ p' ≠ p, (s.ep p').hw_pipe ≠ some e

/-- The units that a control request takes. -/
def ctrlUnits (s : State) (u : ℕ) : ℕ :=
  (ctrlTDs (s.utr u).data_len 0 0 0).length +
    if (s.ep (s.utr u).udev.ep0).hw_pipe = none then 1 else 0

/-- The TDs that a bulk request takes. -/
def bulkTDs (s : State) (u : ℕ) : ℕ :=
  (chunks ((s.utr u).data_len.toNat / 4096 + 1) (s.utr u).buff (s.utr u).data_len).length

/-- The condition under which an operation conserves the units:
* a control request that gets its units finds no TDs on its ED;
* a bulk request is refused as busy, or finds no unit at all for a new ED, or gets all its
  units, and the ED it finds is its own;
* an interrupt request does not find exactly one unit when it needs a new ED, and the ED it
  finds is its own;
* an isochronous request that finds its ED, which is its own, gets all its units;
* the removal pass finds every ED on the list it searches for it, but for one that is on no
  list, which has no TDs. -/
def World.Careful (σ : World) : Op → Prop
  | .ctrl_xfer u => ctrlUnits σ.drv u ≤ σ.drv.free →
      ∀ e, (σ.drv.ep (σ.drv.utr u).udev.ep0).hw_pipe = some e → (σ.drv.ed e).HeadP = none
  | .bulk_xfer u p =>
      match σ.drv.findED σ.drv.HcBulkHeadED (σ.drv.info u p) with
      | some e => (σ.drv.ed e).HeadP = (σ.drv.ed e).TailP →
          bulkTDs σ.drv u ≤ σ.drv.free ∧ σ.drv.Private p e
      | none => σ.drv.free = 0 ∨ bulkTDs σ.drv u + 1 ≤ σ.drv.free
  | .int_xfer u p => (σ.drv.utr u).data_len ≤ 64 →
      match σ.drv.findInt u p with
      | some e => σ.drv.free ≠ 0 → σ.drv.Private p e
      | none => σ.drv.free ≠ 1
  | .iso_xfer u p =>
      match σ.drv.findInt u p with
      | some e => IF_PER_UTR ≤ σ.drv.free ∧ σ.drv.Private p e
      | none => True
  | .irq SF _ => SF = true → ∀ e,
      (Links.search σ.drv.next (· = e) MEM_POOL_UNIT_NUM σ.drv.ed_remove_list).isSome = true →
        Removable σ.drv e ∧ (σ.drv.linked e = false → (σ.drv.ed e).HeadP = none)
  | .fill _ _ | .describe _ _ | .quit_xfer _ _ | .frame _ | .retire _ _ _ _ | .handOver => True

/-! ### What is conserved -/

/-- A unit is freed or retired while in use, an ED only off the lists. -/
def Event.Clean : Event → Prop
  | .td_done _ used => used = true
  | .free_ohci_TD _ used => used = true
  | .free_ohci_ED _ used linked => used = true ∧ linked = false

/-- **The units are conserved**: a unit in use is at a place of the layout, which has every
unit at one place at most; the TDs hang on EDs of the layout; an ED off the lists is held by an
endpoint record or by the removal list; an endpoint record names an ED of the layout that is not
to be removed and that no other record names; nothing has been freed that was free or linked. -/
structure Conserved (σ : World) (L : Place → List ℕ) (rem : List ℕ) : Prop extends
    Layout σ.drv L rem where
  all : ∀ t < MEM_POOL_UNIT_NUM, σ.drv.unit_used t = true → ∃ o, t ∈ L o
  owned : ∀ {e t}, t ∈ L (.queue e) → ∃ o, o.ofED = true ∧ e ∈ L o
  pending : Links σ.drv.NextTD σ.HcDoneHead (L .pending) none
  held : ∀ e ∈ L .loose, e ∈ rem ∨ ∃ p, (σ.drv.ep p).hw_pipe = some e
  pipes : ∀ {p e}, (σ.drv.ep p).hw_pipe = some e → e ∉ rem ∧ ∃ o, o.ofED = true ∧ e ∈ L o
  only : ∀ {p p' e}, (σ.drv.ep p).hw_pipe = some e → (σ.drv.ep p').hw_pipe = some e → p = p'
  clean : ∀ ev ∈ σ.drv.events, ev.Clean

/-- The tail of an ED: that of an interrupt endpoint is its dummy TD, the last of the
queue, and that of any other is null. -/
structure ED_T.Tailed (ed : ED_T) (o : Place) (q : List ℕ) : Prop where
  other : o ≠ .ints → ed.TailP = none
  last : ∀ t, ed.TailP = some t → ∃ l, q = l ++ [t]
  iso : ed.Info &&& ED_FORMAT_ISO ≠ 0 → ed.TailP = none
  int : o = .ints → ed.Info &&& ED_FORMAT_ISO = 0 → ed.Info &&& ED_SKIP = 0 → ed.TailP ≠ none

/-- The level of the interrupt tree that an ED hangs on. -/
def State.level (s : State) (e : ℕ) : ℕ := headLoop 5 0 (s.ed e).bInterval.toNat

/-- The order of the interrupt lists: the nodes come from the highest level down, and an ED
before the nodes of the levels below its own. -/
structure Tree (s : State) (l : List ℕ) : Prop where
  nodes : ∀ {i j}, i < j → j ≤ 5 → [s.Ied j, s.Ied i].Sublist l
  above : ∀ e ∈ l, (∀ i ≤ 5, e ≠ s.Ied i) → ∀ i < s.level e, [e, s.Ied i].Sublist l

/-- The invariant.  Records of endpoint 0 name control EDs, other records others; the EDs
that are named are not to be skipped, unlike the nodes and the EDs to be removed.  The nodes
are the first units of the pool. -/
structure Inv (ep0 : ℕ → Bool) (σ : World) (L : Place → List ℕ) (rem : List ℕ) : Prop extends
    Conserved σ L rem where
  tailed : ∀ {o e}, o.ofED = true → e ∈ L o → (σ.drv.ed e).Tailed o (L (.queue e))
  skipped : ∀ e ∈ rem, (σ.drv.ed e).Info &&& ED_SKIP ≠ 0
  nodes_skipped : ∀ i ≤ 5, (σ.drv.ed (σ.drv.Ied i)).Info &&& ED_SKIP ≠ 0
  named : ∀ {p e o}, (σ.drv.ep p).hw_pipe = some e → o.ofED = true → e ∈ L o →
    (σ.drv.ed e).Info &&& ED_SKIP = 0 ∧ (ep0 p = true ↔ o = .control ∨ o = .loose)
  holder : ∀ {o e}, o = .control ∨ o = .loose → e ∈ L o →
    e ∈ rem ∨ ∃ p, ep0 p = true ∧ (σ.drv.ep p).hw_pipe = some e
  tree : Tree σ.drv (L .ints)
  first : ∀ i ≤ 5, σ.drv.Ied i = 5 - i

/-- The order counts only the nodes and the intervals. -/
theorem Tree.congr {s s' : State} {l : List ℕ} (h : Tree s l) (hI : s'.Ied = s.Ied)
    (hint : ∀ e ∈ l, (s'.ed e).bInterval = (s.ed e).bInterval) : Tree s' l := by
  constructor
  · intro i j hij hj
    rw [hI]
    exact h.nodes hij hj
  · intro e he hnot i hi
    rw [hI] at hnot ⊢
    rw [State.level, hint e he] at hi
    exact h.above e he hnot i hi

section

variable {ep0 : ℕ → Bool} {σ : World} {L : Place → List ℕ} {rem : List ℕ}

/-- A unit that is free is at no place. -/
theorem Conserved.not_mem (h : Conserved σ L rem) {t : ℕ} (ht : σ.drv.unit_used t = false) (o : Place) :
    t ∉ L o := by
  intro hm
  rw [(h.pool hm).2] at ht
  cases ht

/-- A unit that is free is no ED. -/
theorem Conserved.queue_eq_nil (h : Conserved σ L rem) {e : ℕ} (he : σ.drv.unit_used e = false) :
    L (.queue e) = [] := by
  refine List.eq_nil_iff_forall_not_mem.mpr fun t ht => ?_
  obtain ⟨o, -, heo⟩ := h.owned ht
  exact h.not_mem he o heo

theorem SameED.tailed {e₀ e : ED_T} (h : SameED e₀ e) {o : Place} {q : List ℕ} (ht : e₀.Tailed o q) :
    e.Tailed o q := by
  constructor
  · rw [h.TailP]
    exact ht.other
  · rw [h.TailP]
    exact ht.last
  · rw [h.TailP, h.Info]
    exact ht.iso
  · rw [h.TailP, h.Info]
    exact ht.int

/-- Only the units in use and the links count. -/
theorem Inv.congr (h : Inv ep0 σ L rem) {s' : State} (hused : s'.unit_used = σ.drv.unit_used)
    (hed : ∀ e, σ.drv.unit_used e = true → SameED (σ.drv.ed e) (s'.ed e))
    (htd : ∀ t, σ.drv.unit_used t = true → s'.td t = σ.drv.td t)
    (hhead : ∀ o, s'.head o = σ.drv.head o) (hI : s'.Ied = σ.drv.Ied)
    (hremove : s'.ed_remove_list = σ.drv.ed_remove_list) (hdone : s'.done_head = σ.drv.done_head)
    (hpipe : ∀ p, (s'.ep p).hw_pipe = (σ.drv.ep p).hw_pipe) (hclean : ∀ ev ∈ s'.events, ev.Clean) :
    Inv ep0 { σ with drv := s' } L rem := by
  have hedL : ∀ {o e}, e ∈ L o → SameED (σ.drv.ed e) (s'.ed e) := fun he => hed _ (h.pool he).2
  have hedR : ∀ e ∈ rem, SameED (σ.drv.ed e) (s'.ed e) := by
    intro e he
    obtain ⟨o, -, heo⟩ := h.rem_ed e he
    exact hedL heo
  have hlinks : ∀ {o a}, Links σ.drv.NextTD a (L o) none → Links s'.NextTD a (L o) none := by
    intro o a hl
    refine (Links.congr ?_).mpr hl
    intro t ht
    rw [State.NextTD, State.NextTD, htd t (h.pool ht).2]
  have hnode : ∀ {o e}, e ∈ L o → s'.node e = σ.drv.node e := by
    intro o e he
    rw [State.node, State.node, get_int_tree_head_node, get_int_tree_head_node, (hedL he).bInterval, hI]
  constructor
  · constructor
    · constructor
      · exact h.nodup
      · exact h.once
      · intro o t ht
        dsimp only
        rw [hused]
        exact h.pool ht
      · intro o ho
        dsimp only
        rw [hhead]
        refine (Links.congr ?_).mpr (h.lists o ho)
        intro e he
        exact (hedL he).NextED
      · intro o e ho he
        dsimp only
        rw [(hedL he).HeadP]
        exact hlinks (h.queue ho he)
      · dsimp only
        rw [hdone]
        exact hlinks h.done
      · dsimp only
        rw [hremove]
        refine (Links.congr ?_).mpr h.remove
        intro e he
        exact (hedR e he).next
      · exact h.rem_nodup
      · exact h.rem_ed
      · dsimp only
        rw [hI]
        exact h.nodes
      · intro e he hnot
        dsimp only at hnot ⊢
        rw [hI] at hnot
        rw [hnode he]
        exact h.below e he hnot
      · intro e he
        dsimp only
        rw [(hedL he).Info]
        exact h.number e he
      · intro e he
        dsimp only
        rw [(hedL he).bInterval]
        exact h.plain e he
    · dsimp only
      rw [hused]
      exact h.all
    · exact h.owned
    · exact hlinks h.pending
    · intro e he
      dsimp only
      simp only [hpipe]
      exact h.held e he
    · intro p e hp
      dsimp only at hp
      rw [hpipe] at hp
      exact h.pipes hp
    · intro p p' e hp hp'
      dsimp only at hp hp'
      rw [hpipe] at hp hp'
      exact h.only hp hp'
    · exact hclean
  · intro o e ho he
    exact (hedL he).tailed (h.tailed ho he)
  · intro e he
    dsimp only
    rw [(hedR e he).Info]
    exact h.skipped e he
  · intro i hi
    dsimp only
    rw [hI, (hedL (h.nodes i hi).1).Info]
    exact h.nodes_skipped i hi
  · intro p e o hp ho he
    dsimp only at hp ⊢
    rw [hpipe] at hp
    rw [(hedL he).Info]
    exact h.named hp ho he
  · intro o e ho he
    dsimp only
    simp only [hpipe]
    exact h.holder ho he
  · exact h.tree.congr hI fun e he => (hedL he).bInterval
  · dsimp only
    rw [hI]
    exact h.first

end

end Ohci
