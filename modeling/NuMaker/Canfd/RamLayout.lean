/-
The layout of `CANFD_CalculateRamAddress`.

The regions are packed for elements with 64 bytes of data: the counts have no size code, and an Rx
or Tx element takes the `sizeof` of its type whatever code its queue is set up with.

* **`CANFD_CalculateRamAddress_tiles`** — at that stride the regions follow one another and fill
  exactly the bytes returned;
* **`CANFD_CalculateRamAddress_layout`** — elements of any size code are in order, apart, aligned
  and inside; they end at the size returned iff the last region holds 64-byte elements.
-/
import NuMaker.Canfd.Elements
import NuMaker.Lib.Tiling

namespace Canfd

/-! ### Configurations -/

def CANFD_MAX_RX_BUF_ELEMS : ℕ := 64
def CANFD_MAX_TX_EVENT_FIFO_ELEMS : ℕ := 32

/-- The counts are within the hardware maxima. -/
structure CANFD_ELEM_SIZE_T.Within (n : CANFD_ELEM_SIZE_T) : Prop where
  sid : n.u32SIDFC.toNat ≤ CANFD_MAX_11_BIT_FTR_ELEMS
  xid : n.u32XIDFC.toNat ≤ CANFD_MAX_29_BIT_FTR_ELEMS
  fifo0 : n.u32RxFifo0.toNat ≤ CANFD_MAX_RX_FIFO0_ELEMS.toNat
  fifo1 : n.u32RxFifo1.toNat ≤ CANFD_MAX_RX_FIFO1_ELEMS.toNat
  rxBuf : n.u32RxBuf.toNat ≤ CANFD_MAX_RX_BUF_ELEMS
  txBuf : n.u32TxBuf.toNat ≤ CANFD_MAX_TX_BUF_ELEMS
  txFifoQueue : n.u32TxFifoQueue.toNat ≤ CANFD_MAX_TX_BUF_ELEMS
  txEvent : n.u32TxEventFifo.toNat ≤ CANFD_MAX_TX_EVENT_FIFO_ELEMS

/-- The size codes of the queues whose elements hold data. -/
structure Codes where
  fifo0 : E_CANFD_DATA_FIELD_SIZE
  fifo1 : E_CANFD_DATA_FIELD_SIZE
  rxBuf : E_CANFD_DATA_FIELD_SIZE
  tx : E_CANFD_DATA_FIELD_SIZE
deriving DecidableEq, Repr

/-- A region: where it starts, its elements, the bytes between two of them and the bytes of one. -/
structure Region where
  start : ℕ
  count : ℕ
  stride : ℕ
  size : ℕ
deriving DecidableEq, Repr

/-- The end of the last element. -/
def Region.stop (r : Region) : ℕ := r.start + r.count * r.size

/-- The regions in the order of the offsets. -/
def regions (part : CANFD_RAM_PART_T) (n : CANFD_ELEM_SIZE_T) (codes : Codes) : List Region :=
  [⟨part.u32SIDFC_FLSSA.toNat, n.u32SIDFC.toNat, sizeofSidFilter, sizeofSidFilter⟩,
    ⟨part.u32XIDFC_FLESA.toNat, n.u32XIDFC.toNat, sizeofXidFilter, sizeofXidFilter⟩,
    ⟨part.u32RXF0C_F0SA.toNat, n.u32RxFifo0.toNat, sizeofBuf, elemWords codes.fifo0 * 4⟩,
    ⟨part.u32RXF1C_F1SA.toNat, n.u32RxFifo1.toNat, sizeofBuf, elemWords codes.fifo1 * 4⟩,
    ⟨part.u32RXBC_RBSA.toNat, n.u32RxBuf.toNat, sizeofBuf, elemWords codes.rxBuf * 4⟩,
    ⟨part.u32TXEFC_EFSA.toNat, n.u32TxEventFifo.toNat, sizeofTxEvent, sizeofTxEvent⟩,
    ⟨part.u32TXBC_TBSA.toNat, n.u32TxBuf.toNat + n.u32TxFifoQueue.toNat, sizeofBuf,
      elemWords codes.tx * 4⟩]

/-- The regions of a configuration after `CANFD_CalculateRamAddress`. -/
def laidOut (part : CANFD_RAM_PART_T) (n : CANFD_ELEM_SIZE_T) (codes : Codes) : List Region :=
  regions (CANFD_CalculateRamAddress part n).2.1 (CANFD_CalculateRamAddress part n).2.2 codes

/-! ### The offsets -/

/-- One statement of `CANFD_CalculateRamAddress`: a region of `n` elements of `k` bytes. -/
def place (n k : BitVec 32) (set : CANFD_RAM_PART_T → BitVec 32 → CANFD_RAM_PART_T)
    (p : BitVec 32 × CANFD_RAM_PART_T) : BitVec 32 × CANFD_RAM_PART_T :=
  if n > 0 then (p.1 + n * k, set p.2 p.1) else p

section

variable (n k : BitVec 32) {set : CANFD_RAM_PART_T → BitVec 32 → CANFD_RAM_PART_T}
  (p : BitVec 32 × CANFD_RAM_PART_T) (get : CANFD_RAM_PART_T → BitVec 32)

/-- Without elements the offset stays, as adding none of them would leave it. -/
theorem place_fst : (place n k set p).1 = p.1 + n * k := by
  unfold place
  split
  case isTrue => rfl
  case isFalse h =>
    have hzero : n = 0 := BitVec.eq_of_toNat_eq (Nat.eq_zero_of_not_pos h)
    rw [hzero, show (0 : BitVec 32) * k = 0 from BitVec.zero_mul]
    exact (BitVec.add_zero p.1).symm

theorem place_self (hset : ∀ part a, get (set part a) = a) (hn : 0 < n.toNat) :
    get (place n k set p).2 = p.1 := by
  unfold place
  rw [if_pos (show n > 0 from hn)]
  exact hset p.2 p.1

theorem place_other (hset : ∀ part a, get (set part a) = get part) :
    get (place n k set p).2 = get p.2 := by
  unfold place
  split
  · exact hset p.2 p.1
  · rfl

/-- The regions placed so far, each by its address field and its bytes, fill the RAM up to the
offset. -/
structure Packed (p : BitVec 32 × CANFD_RAM_PART_T) (l : List ((CANFD_RAM_PART_T → BitVec 32) × ℕ))
    (used : ℕ) : Prop where
  tiles : Tiles 0 (l.map fun r => ((r.1 p.2).toNat, r.2)) used
  offset : p.1.toNat = used

/-- A further region, when its address field is not one of those placed and the bytes fit. -/
theorem Packed.place {p : BitVec 32 × CANFD_RAM_PART_T}
    {l : List ((CANFD_RAM_PART_T → BitVec 32) × ℕ)} {used : ℕ} (h : Packed p l used)
    (set : CANFD_RAM_PART_T → BitVec 32 → CANFD_RAM_PART_T) (hset : ∀ part a, get (set part a) = a)
    (hother : ∀ r ∈ l, ∀ part a, r.1 (set part a) = r.1 part)
    (hfit : used + n.toNat * k.toNat < 2 ^ 32) :
    Packed (place n k set p) (l ++ [(get, n.toNat * k.toNat)]) (used + n.toNat * k.toNat) where
  tiles := by
    have hkept : l.map (fun r => ((r.1 (Canfd.place n k set p).2).toNat, r.2))
        = l.map fun r => ((r.1 p.2).toNat, r.2) :=
      List.map_congr_left fun r hr => by rw [place_other n k p r.1 (hother r hr)]
    rw [List.map_append, hkept]
    refine h.tiles.snoc fun hpos => ?_
    have hn : 0 < n.toNat := Nat.pos_of_mul_pos_right hpos
    exact (congrArg BitVec.toNat (place_self n k p get hset hn)).trans h.offset
  offset := by
    rw [place_fst, BitVec.toNat_add, BitVec.toNat_mul, h.offset]
    omega

end

/-- The regions before the Tx buffers, one after another. -/
def beforeTx (part : CANFD_RAM_PART_T) (n : CANFD_ELEM_SIZE_T) : BitVec 32 × CANFD_RAM_PART_T :=
  place n.u32TxEventFifo 8 (fun part a => { part with u32TXEFC_EFSA := a }) <|
  place n.u32RxBuf 72 (fun part a => { part with u32RXBC_RBSA := a }) <|
  place n.u32RxFifo1 72 (fun part a => { part with u32RXF1C_F1SA := a }) <|
  place n.u32RxFifo0 72 (fun part a => { part with u32RXF0C_F0SA := a }) <|
  place n.u32XIDFC 8 (fun part a => { part with u32XIDFC_FLESA := a }) <|
  place n.u32SIDFC 4 (fun part a => { part with u32SIDFC_FLSSA := a }) (0, part)

theorem CANFD_CalculateRamAddress_eq (part : CANFD_RAM_PART_T) (n : CANFD_ELEM_SIZE_T) :
    CANFD_CalculateRamAddress part n =
      if n.u32TxBuf + n.u32TxFifoQueue > 0 then
        ((beforeTx part n).1 + ((txElems n).u32TxBuf + (txElems n).u32TxFifoQueue) * 72,
          { (beforeTx part n).2 with u32TXBC_TBSA := (beforeTx part n).1 }, txElems n)
      else ((beforeTx part n).1, (beforeTx part n).2, n) := rfl

theorem CANFD_ELEM_SIZE_T.Within.bounds {n : CANFD_ELEM_SIZE_T} (h : n.Within) :
    n.u32SIDFC.toNat ≤ 128 ∧ n.u32XIDFC.toNat ≤ 64 ∧ n.u32RxFifo0.toNat ≤ 64 ∧
      n.u32RxFifo1.toNat ≤ 64 ∧ n.u32RxBuf.toNat ≤ 64 ∧ n.u32TxEventFifo.toNat ≤ 32 :=
  ⟨h.sid, h.xid, h.fifo0, h.fifo1, h.rxBuf, h.txEvent⟩

theorem beforeTx_packed (part : CANFD_RAM_PART_T) {n : CANFD_ELEM_SIZE_T} (h : n.Within) :
    Packed (beforeTx part n)
      [(CANFD_RAM_PART_T.u32SIDFC_FLSSA, n.u32SIDFC.toNat * 4),
        (CANFD_RAM_PART_T.u32XIDFC_FLESA, n.u32XIDFC.toNat * 8),
        (CANFD_RAM_PART_T.u32RXF0C_F0SA, n.u32RxFifo0.toNat * 72),
        (CANFD_RAM_PART_T.u32RXF1C_F1SA, n.u32RxFifo1.toNat * 72),
        (CANFD_RAM_PART_T.u32RXBC_RBSA, n.u32RxBuf.toNat * 72),
        (CANFD_RAM_PART_T.u32TXEFC_EFSA, n.u32TxEventFifo.toNat * 8)]
      (n.u32SIDFC.toNat * 4 + n.u32XIDFC.toNat * 8 + n.u32RxFifo0.toNat * 72 +
        n.u32RxFifo1.toNat * 72 + n.u32RxBuf.toNat * 72 + n.u32TxEventFifo.toNat * 8) := by
  obtain ⟨h1, h2, h3, h4, h5, h6⟩ := h.bounds
  have hstart : Packed ((0 : BitVec 32), part) [] 0 := ⟨rfl, rfl⟩
  have hsid := hstart.place n.u32SIDFC 4 CANFD_RAM_PART_T.u32SIDFC_FLSSA
    (fun part a => { part with u32SIDFC_FLSSA := a }) (fun _ _ => rfl) (by simp) (by simp; omega)
  have hxid := hsid.place n.u32XIDFC 8 CANFD_RAM_PART_T.u32XIDFC_FLESA
    (fun part a => { part with u32XIDFC_FLESA := a }) (fun _ _ => rfl) (by simp) (by simp; omega)
  have hfifo0 := hxid.place n.u32RxFifo0 72 CANFD_RAM_PART_T.u32RXF0C_F0SA
    (fun part a => { part with u32RXF0C_F0SA := a }) (fun _ _ => rfl) (by simp) (by simp; omega)
  have hfifo1 := hfifo0.place n.u32RxFifo1 72 CANFD_RAM_PART_T.u32RXF1C_F1SA
    (fun part a => { part with u32RXF1C_F1SA := a }) (fun _ _ => rfl) (by simp) (by simp; omega)
  have hrxBuf := hfifo1.place n.u32RxBuf 72 CANFD_RAM_PART_T.u32RXBC_RBSA
    (fun part a => { part with u32RXBC_RBSA := a }) (fun _ _ => rfl) (by simp) (by simp; omega)
  have htxEvent := hrxBuf.place n.u32TxEventFifo 8 CANFD_RAM_PART_T.u32TXEFC_EFSA
    (fun part a => { part with u32TXEFC_EFSA := a }) (fun _ _ => rfl) (by simp) (by simp; omega)
  rw [Nat.zero_add] at htxEvent
  exact htxEvent
/-- The elements of the Tx region, buffers and FIFO together. -/
def txCount (n : CANFD_ELEM_SIZE_T) : BitVec 32 :=
  (txElems n).u32TxBuf + (txElems n).u32TxFifoQueue

theorem toNat_txCount {n : CANFD_ELEM_SIZE_T} (h : n.Within) :
    (txCount n).toNat = (txElems n).u32TxBuf.toNat + (txElems n).u32TxFifoQueue.toNat ∧
      (txCount n).toNat ≤ 32 := by
  have hbuf : n.u32TxBuf.toNat ≤ 32 := h.txBuf
  have hqueue : n.u32TxFifoQueue.toNat ≤ 32 := h.txFifoQueue
  have hsum : (n.u32TxBuf + n.u32TxFifoQueue).toNat = n.u32TxBuf.toNat + n.u32TxFifoQueue.toNat := by
    rw [BitVec.toNat_add]
    omega
  unfold txCount txElems
  split
  case isTrue => exact ⟨rfl, Nat.le_refl 32⟩
  case isFalse hle =>
    have hle' : ¬ 32 < (n.u32TxBuf + n.u32TxFifoQueue).toNat := hle
    exact ⟨hsum, by omega⟩

/-- The Tx region is placed as the others are, with the counts that are left in the
configuration. -/
theorem CANFD_CalculateRamAddress_eq_place (part : CANFD_RAM_PART_T) (n : CANFD_ELEM_SIZE_T) :
    CANFD_CalculateRamAddress part n =
      ((place (txCount n) 72 (fun part a => { part with u32TXBC_TBSA := a }) (beforeTx part n)).1,
        (place (txCount n) 72 (fun part a => { part with u32TXBC_TBSA := a }) (beforeTx part n)).2,
        txElems n) := by
  rw [CANFD_CalculateRamAddress_eq]
  unfold place
  split
  case isTrue hpos =>
    have hcount : txCount n > 0 := by
      unfold txCount txElems
      split
      · exact (by decide : (16 + 16 : BitVec 32) > 0)
      · exact hpos
    rw [if_pos hcount]
    rfl
  case isFalse hzero =>
    -- the count is zero, so the bound of 32 is not exceeded and nothing is replaced
    have hsum : n.u32TxBuf + n.u32TxFifoQueue = 0 :=
      BitVec.eq_of_toNat_eq (Nat.eq_zero_of_not_pos hzero)
    have hsame : txElems n = n := by
      unfold txElems
      rw [hsum, if_neg (by decide)]
    rw [txCount, hsame, if_neg hzero]

/-- At the stride of its type every region follows the one before it, and together they fill the
bytes returned. -/
theorem CANFD_CalculateRamAddress_tiles (part : CANFD_RAM_PART_T) {n : CANFD_ELEM_SIZE_T}
    (h : n.Within) (codes : Codes) :
    Tiles 0 ((laidOut part n codes).map fun r => (r.start, r.count * r.stride))
      (CANFD_CalculateRamAddress part n).1.toNat := by
  obtain ⟨hcount, hle⟩ := toNat_txCount h
  have hsame : (txElems n).u32SIDFC = n.u32SIDFC ∧ (txElems n).u32XIDFC = n.u32XIDFC ∧
      (txElems n).u32RxFifo0 = n.u32RxFifo0 ∧ (txElems n).u32RxFifo1 = n.u32RxFifo1 ∧
      (txElems n).u32RxBuf = n.u32RxBuf ∧ (txElems n).u32TxEventFifo = n.u32TxEventFifo := by
    unfold txElems
    split <;> exact ⟨rfl, rfl, rfl, rfl, rfl, rfl⟩
  obtain ⟨h1, h2, h3, h4, h5, h6⟩ := hsame
  have hbefore := beforeTx_packed part h
  have hall := hbefore.place (txCount n) 72 CANFD_RAM_PART_T.u32TXBC_TBSA
    (fun part a => { part with u32TXBC_TBSA := a }) (fun _ _ => rfl) (by simp) (by
      obtain ⟨b1, b2, b3, b4, b5, b6⟩ := h.bounds
      simp only [BitVec.reduceToNat]
      omega)
  rw [laidOut, regions, CANFD_CalculateRamAddress_eq_place]
  simp only [h1, h2, h3, h4, h5, h6, ← hcount]
  rw [hall.offset]
  exact hall.tiles

/-- An element of any size code is whole words and fits between two elements. -/
theorem elemWords_le (code : E_CANFD_DATA_FIELD_SIZE) : elemWords code * 4 ≤ sizeofBuf := by
  cases code <;> decide

theorem regions_size (part : CANFD_RAM_PART_T) (n : CANFD_ELEM_SIZE_T) (codes : Codes) :
    ∀ r ∈ regions part n codes, r.size ≤ r.stride ∧ 4 ∣ r.size ∧ 4 ∣ r.stride ∧ 0 < r.stride := by
  have hbuf : 4 ∣ sizeofBuf ∧ 0 < sizeofBuf := by decide
  have hcode : ∀ c, elemWords c * 4 ≤ sizeofBuf ∧ 4 ∣ elemWords c * 4 ∧ 4 ∣ sizeofBuf ∧
      0 < sizeofBuf := fun c => ⟨elemWords_le c, Dvd.intro_left _ rfl, hbuf⟩
  simp only [regions, List.forall_mem_cons, List.not_mem_nil, false_implies, implies_true, and_true]
  exact ⟨by decide, by decide, hcode _, hcode _, hcode _, by decide, hcode _⟩

/-- The last region that has elements. -/
def lastUsed (l : List Region) : Option Region := (l.filter fun r => 0 < r.count).getLast?

/-- What is asked of a layout that is `size` bytes long: the regions that have elements are in
order without an overlap, start at words, and the last of their elements ends at `size`. -/
structure Layout (l : List Region) (size : ℕ) : Prop where
  ordered : l.Pairwise fun r t => 0 < r.count → 0 < t.count → r.stop ≤ t.start
  aligned : ∀ r ∈ l, 0 < r.count → 4 ∣ r.start ∧ 4 ∣ r.size
  stop : size = ((lastUsed l).map Region.stop).getD 0

/-- At the stride of its type the last element ends at the size returned. -/
theorem CANFD_CalculateRamAddress_last (part : CANFD_RAM_PART_T) {n : CANFD_ELEM_SIZE_T}
    (h : n.Within) (codes : Codes) :
    (CANFD_CalculateRamAddress part n).1.toNat =
      ((lastUsed (laidOut part n codes)).map fun r => r.start + r.count * r.stride).getD 0 := by
  have hsize : ∀ r ∈ laidOut part n codes,
      r.size ≤ r.stride ∧ 4 ∣ r.size ∧ 4 ∣ r.stride ∧ 0 < r.stride := regions_size _ _ codes
  have hused : ∀ r ∈ laidOut part n codes,
      decide (0 < r.count * r.stride) = decide (0 < r.count) := by
    intro r hr
    rw [decide_eq_decide]
    exact ⟨Nat.pos_of_mul_pos_right, fun hpos => Nat.mul_pos hpos (hsize r hr).2.2.2⟩
  have hlast := (CANFD_CalculateRamAddress_tiles part h codes).last
  rw [List.filter_map, List.getLast?_map, Option.map_map] at hlast
  rw [hlast, lastUsed, ← List.filter_congr hused]
  rfl

/-- **The message RAM.**  For all counts within the hardware maxima and all size codes the regions
are in order, apart, word-aligned and within the bytes returned.  At the stride of 64 bytes of
data they fill these bytes without a gap, and so they end there exactly when the last of them
holds such elements. -/
theorem CANFD_CalculateRamAddress_layout (part : CANFD_RAM_PART_T) {n : CANFD_ELEM_SIZE_T}
    (h : n.Within) (codes : Codes) :
    ((laidOut part n codes).Pairwise fun r t => 0 < r.count → 0 < t.count → r.stop ≤ t.start) ∧
      (∀ r ∈ laidOut part n codes, 0 < r.count → 4 ∣ r.start ∧ 4 ∣ r.size ∧
        r.stop ≤ (CANFD_CalculateRamAddress part n).1.toNat) ∧
      Tiles 0 ((laidOut part n codes).map fun r => (r.start, r.count * r.stride))
        (CANFD_CalculateRamAddress part n).1.toNat ∧
      (Layout (laidOut part n codes) (CANFD_CalculateRamAddress part n).1.toNat ↔
        ∀ r ∈ lastUsed (laidOut part n codes), r.size = r.stride) := by
  have htiles := CANFD_CalculateRamAddress_tiles part h codes
  have hsize : ∀ r ∈ laidOut part n codes,
      r.size ≤ r.stride ∧ 4 ∣ r.size ∧ 4 ∣ r.stride ∧ 0 < r.stride := regions_size _ _ codes
  have hordered : (laidOut part n codes).Pairwise fun r t =>
      0 < r.count → 0 < t.count → r.stop ≤ t.start := by
    have hord := List.pairwise_map.mp htiles.pairwise
    refine hord.imp_of_mem fun {r t} hr ht hrt hrpos htpos => ?_
    obtain ⟨hle, -, -, hr0⟩ := hsize r hr
    obtain ⟨-, -, -, ht0⟩ := hsize t ht
    calc r.stop ≤ r.start + r.count * r.stride := Nat.add_le_add_left (Nat.mul_le_mul_left _ hle) _
      _ ≤ t.start := hrt (Nat.mul_pos hrpos hr0) (Nat.mul_pos htpos ht0)
  have haligned : ∀ r ∈ laidOut part n codes, 0 < r.count → 4 ∣ r.start ∧ 4 ∣ r.size ∧
      r.stop ≤ (CANFD_CalculateRamAddress part n).1.toNat := by
    intro r hr hpos
    obtain ⟨hle, hsz, hstride, hr0⟩ := hsize r hr
    have hmem := List.mem_map_of_mem (f := fun r : Region => (r.start, r.count * r.stride)) hr
    have hin := htiles.within _ hmem (Nat.mul_pos hpos hr0)
    refine ⟨htiles.dvd_start (Nat.dvd_zero 4) ?_ _ hmem (Nat.mul_pos hpos hr0), hsz, ?_⟩
    · intro t ht
      obtain ⟨r', hr', rfl⟩ := List.mem_map.mp ht
      exact Nat.dvd_mul_left_of_dvd (hsize r' hr').2.2.1 _
    · exact (Nat.add_le_add_left (Nat.mul_le_mul_left _ hle) _).trans hin.2
  refine ⟨hordered, haligned, htiles, fun hl r hr => ?_, fun hl => ⟨hordered, fun r hr hpos =>
    ⟨(haligned r hr hpos).1, (haligned r hr hpos).2.1⟩, ?_⟩⟩
  · -- the same elements end at one place with both sizes
    have hlast := CANFD_CalculateRamAddress_last part h codes
    rw [hl.stop, Option.mem_def.mp hr] at hlast
    have hpos : 0 < r.count := by
      simpa using (List.mem_filter.mp (List.mem_of_getLast? (Option.mem_def.mp hr))).2
    exact Nat.eq_of_mul_eq_mul_left hpos (Nat.add_left_cancel hlast)
  · rw [CANFD_CalculateRamAddress_last part h codes]
    rcases hlast : lastUsed (laidOut part n codes) with _ | r
    · rfl
    · rw [Option.map_some, Option.map_some, Region.stop, hl r hlast]

/-- One Rx FIFO element. -/
def oneElem : CANFD_ELEM_SIZE_T := ⟨0, 0, 1, 0, 0, 0, 0, 0, 1⟩

/-- With eight bytes of data it ends at 16, and 72 bytes are returned. -/
theorem CANFD_CalculateRamAddress_byte8 :
    ¬ Layout (laidOut ⟨0, 0, 0, 0, 0, 0, 0⟩ oneElem ⟨.eCANFD_BYTE8, .eCANFD_BYTE8, .eCANFD_BYTE8,
      .eCANFD_BYTE8⟩) (CANFD_CalculateRamAddress ⟨0, 0, 0, 0, 0, 0, 0⟩ oneElem).1.toNat := by
  intro h
  exact absurd h.stop (by decide)

/-- With 64 bytes it is laid out as asked. -/
theorem CANFD_CalculateRamAddress_layout_one :
    Layout (laidOut ⟨0, 0, 0, 0, 0, 0, 0⟩ oneElem ⟨.eCANFD_BYTE64, .eCANFD_BYTE8, .eCANFD_BYTE8,
      .eCANFD_BYTE8⟩) (CANFD_CalculateRamAddress ⟨0, 0, 0, 0, 0, 0, 0⟩ oneElem).1.toNat :=
  (CANFD_CalculateRamAddress_layout ⟨0, 0, 0, 0, 0, 0, 0⟩ (n := oneElem)
    ⟨by decide, by decide, by decide, by decide, by decide, by decide, by decide, by decide⟩
    ⟨.eCANFD_BYTE64, .eCANFD_BYTE8, .eCANFD_BYTE8, .eCANFD_BYTE8⟩).2.2.2.mpr (by decide)

end Canfd
