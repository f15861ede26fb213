/-
The elements of the message RAM and `CANFD_Transfer`.

An element is a few words of packed fields.  Each kind is written and read back field
by field, so that what is packed is what is unpacked (`CANFD_SID_FILTER_T.ofWord_word`,
`CANFD_XID_FILTER_T.ofWords_words`); a Tx element and an Rx element share the places
of the identifier, of `RTR`, `XTD` and `DLC` and of the data.
-/
import NuMaker.Canfd.MessageRam

namespace Canfd

/-! ### Filters -/

/-- `CANFD_SID_FILTER_T`. -/
structure CANFD_SID_FILTER_T where
  SFID2 : BitVec 11
  SFID1 : BitVec 11
  SFEC : BitVec 3
  SFT : BitVec 2
  deriving DecidableEq, Repr

/-- `CANFD_XID_FILTER_T`. -/
structure CANFD_XID_FILTER_T where
  EFID1 : BitVec 29
  EFEC : BitVec 3
  EFID2 : BitVec 29
  EFT : BitVec 2
  deriving DecidableEq, Repr

def CANFD_SID_FILTER_T.word (f : CANFD_SID_FILTER_T) : BitVec 32 :=
  f.SFT ++ (f.SFEC ++ (f.SFID1 ++ ((0 : BitVec 5) ++ f.SFID2)))

def CANFD_SID_FILTER_T.ofWord (w : BitVec 32) : CANFD_SID_FILTER_T :=
  ⟨w.extractLsb' 0 11, w.extractLsb' 16 11, w.extractLsb' 27 3, w.extractLsb' 30 2⟩

def CANFD_XID_FILTER_T.word0 (f : CANFD_XID_FILTER_T) : BitVec 32 := f.EFEC ++ f.EFID1

def CANFD_XID_FILTER_T.word1 (f : CANFD_XID_FILTER_T) : BitVec 32 :=
  f.EFT ++ ((0 : BitVec 1) ++ f.EFID2)

def CANFD_XID_FILTER_T.ofWords (w0 w1 : BitVec 32) : CANFD_XID_FILTER_T :=
  ⟨w0.extractLsb' 0 29, w0.extractLsb' 29 3, w1.extractLsb' 0 29, w1.extractLsb' 30 2⟩

theorem extract_low {n m : ℕ} (x : BitVec n) (y : BitVec m) : (x ++ y).extractLsb' 0 m = y :=
  BitVec.extractLsb'_append_eq_right

theorem extract_high {n m : ℕ} (x : BitVec n) (y : BitVec m) : (x ++ y).extractLsb' m n = x :=
  BitVec.extractLsb'_append_eq_left

/-- A field of the low part. -/
theorem extract_below {n m k len : ℕ} (x : BitVec n) (y : BitVec m) (h : k + len ≤ m) :
    (x ++ y).extractLsb' k len = y.extractLsb' k len :=
  BitVec.extractLsb'_append_eq_of_add_le h

theorem CANFD_SID_FILTER_T.ofWord_word (f : CANFD_SID_FILTER_T) :
    CANFD_SID_FILTER_T.ofWord f.word = f := by
  have h2 : f.word.extractLsb' 0 11 = f.SFID2 := by
    rw [word, extract_below _ _ (by decide), extract_below _ _ (by decide),
      extract_below _ _ (by decide), extract_low]
  have h1 : f.word.extractLsb' 16 11 = f.SFID1 := by
    rw [word, extract_below _ _ (by decide), extract_below _ _ (by decide)]
    exact extract_high _ _
  have hec : f.word.extractLsb' 27 3 = f.SFEC := by
    rw [word, extract_below _ _ (by decide)]
    exact extract_high _ _
  have hft : f.word.extractLsb' 30 2 = f.SFT := extract_high _ _
  rw [ofWord, h2, h1, hec, hft]

theorem CANFD_XID_FILTER_T.ofWords_words (f : CANFD_XID_FILTER_T) :
    CANFD_XID_FILTER_T.ofWords f.word0 f.word1 = f := by
  have h1 : f.word0.extractLsb' 0 29 = f.EFID1 := extract_low _ _
  have hec : f.word0.extractLsb' 29 3 = f.EFEC := extract_high _ _
  have h2 : f.word1.extractLsb' 0 29 = f.EFID2 := by
    rw [word1, extract_below _ _ (by decide), extract_low]
  have hft : f.word1.extractLsb' 30 2 = f.EFT := extract_high _ _
  rw [ofWords, h1, hec, h2, hft]

/-! ### Messages -/

/-- `CANFD_TX_BUF_T`. -/
structure CANFD_TX_BUF_T where
  ID : BitVec 29
  RTR : BitVec 1
  XTD : BitVec 1
  ESI : BitVec 1
  MM_H : BitVec 8
  DLC : BitVec 4
  BRS : BitVec 1
  FDF : BitVec 1
  EFC : BitVec 1
  MM_L : BitVec 8
  DB : ℕ → BitVec 8

/-- `CANFD_RX_BUF_T`. -/
structure CANFD_RX_BUF_T where
  ID : BitVec 29
  RTR : BitVec 1
  XTD : BitVec 1
  ESI : BitVec 1
  RXTS : BitVec 16
  DLC : BitVec 4
  BRS : BitVec 1
  FDF : BitVec 1
  FIDX : BitVec 7
  ANMF : BitVec 1
  DB : ℕ → BitVec 8

/-- `{0}`. -/
def CANFD_TX_BUF_T.zero : CANFD_TX_BUF_T := ⟨0, 0, 0, 0, 0, 0, 0, 0, 0, 0, fun _ => 0⟩

/-- Four bytes of data, the first one lowest. -/
def dataWord (DB : ℕ → BitVec 8) (k : ℕ) : BitVec 32 :=
  DB (4 * k + 3) ++ (DB (4 * k + 2) ++ (DB (4 * k + 1) ++ DB (4 * k)))

/-- The byte `i` of data words. -/
def dataByte (w : ℕ → BitVec 32) (i : ℕ) : BitVec 8 := (w (i / 4)).extractLsb' (8 * (i % 4)) 8

/-- The words of a Tx element. -/
def CANFD_TX_BUF_T.words (b : CANFD_TX_BUF_T) : ℕ → BitVec 32
  | 0 => b.ESI ++ (b.XTD ++ (b.RTR ++ b.ID))
  | 1 => b.MM_L ++ (b.EFC ++ ((0 : BitVec 1) ++ (b.FDF ++ (b.BRS ++ (b.DLC ++ (b.MM_H ++ (0 : BitVec 8)))))))
  | k + 2 => dataWord b.DB k

/-- An Rx element read from its words. -/
def CANFD_RX_BUF_T.ofWords (w : ℕ → BitVec 32) : CANFD_RX_BUF_T where
  ID := (w 0).extractLsb' 0 29
  RTR := (w 0).extractLsb' 29 1
  XTD := (w 0).extractLsb' 30 1
  ESI := (w 0).extractLsb' 31 1
  RXTS := (w 1).extractLsb' 0 16
  DLC := (w 1).extractLsb' 16 4
  BRS := (w 1).extractLsb' 20 1
  FDF := (w 1).extractLsb' 21 1
  FIDX := (w 1).extractLsb' 24 7
  ANMF := (w 1).extractLsb' 31 1
  DB := dataByte fun k => w (k + 2)

theorem dataByte_dataWord (DB : ℕ → BitVec 8) (i : ℕ) : dataByte (dataWord DB) i = DB i := by
  have hi : i = 4 * (i / 4) + i % 4 := (Nat.div_add_mod i 4).symm
  have hlt : i % 4 < 4 := Nat.mod_lt _ (by decide)
  rw [dataByte, dataWord]
  generalize i / 4 = q at hi ⊢
  generalize i % 4 = r at hi hlt ⊢
  subst hi
  interval_cases r
  · rw [extract_below _ _ (by decide), extract_below _ _ (by decide)]
    exact extract_low _ _
  · rw [extract_below _ _ (by decide), extract_below _ _ (by decide)]
    exact extract_high _ _
  · rw [extract_below _ _ (by decide)]
    exact extract_high _ _
  · exact extract_high _ _

/-- What an Rx element read from the words of a Tx element has in common with it. -/
structure Echoes (b : CANFD_TX_BUF_T) (r : CANFD_RX_BUF_T) : Prop where
  ID : r.ID = b.ID
  RTR : r.RTR = b.RTR
  XTD : r.XTD = b.XTD
  DLC : r.DLC = b.DLC
  DB : ∀ i < 64, r.DB i = b.DB i

theorem echoes_ofWords (b : CANFD_TX_BUF_T) {w : ℕ → BitVec 32} (hw : ∀ k < 18, w k = b.words k) :
    Echoes b (.ofWords w) := by
  have h0 := hw 0 (by decide)
  have h1 := hw 1 (by decide)
  constructor
  · show (w 0).extractLsb' 0 29 = b.ID
    rw [h0, CANFD_TX_BUF_T.words, extract_below _ _ (by decide), extract_below _ _ (by decide)]
    exact extract_low _ _
  · show (w 0).extractLsb' 29 1 = b.RTR
    rw [h0, CANFD_TX_BUF_T.words, extract_below _ _ (by decide), extract_below _ _ (by decide)]
    exact extract_high _ _
  · show (w 0).extractLsb' 30 1 = b.XTD
    rw [h0, CANFD_TX_BUF_T.words, extract_below _ _ (by decide)]
    exact extract_high _ _
  · show (w 1).extractLsb' 16 4 = b.DLC
    rw [h1, CANFD_TX_BUF_T.words, extract_below _ _ (by decide), extract_below _ _ (by decide),
      extract_below _ _ (by decide), extract_below _ _ (by decide), extract_below _ _ (by decide)]
    exact extract_high _ _
  · intro i hi
    show dataByte (fun k => w (k + 2)) i = b.DB i
    rw [← dataByte_dataWord b.DB i]
    have hk : i / 4 + 2 < 18 := by omega
    exact congrArg (fun x : BitVec 32 => x.extractLsb' (8 * (i % 4)) 8) (hw _ hk)

/-! ### `CANFD_Transfer` -/

def CANFD_MAX_11_BIT_FTR_ELEMS : ℕ := 128
def CANFD_MAX_29_BIT_FTR_ELEMS : ℕ := 64
def CANFD_MAX_TX_BUF_ELEMS : ℕ := 32

/-- `memcpy` of `n` words. -/
def putWords (ram : ℕ → BitVec 32) (a n : ℕ) (w : ℕ → BitVec 32) : ℕ → BitVec 32 :=
  fun i => if a ≤ i ∧ i < a + n then w (i - a) else ram i

/-- `CANFD_GET_SID_ADDR` and the like, as words of the message RAM. -/
def Port.elemAddr (σ : Port) (p : Part) (bytes u32Idx : ℕ) : ℕ :=
  σ.ctl.start p + u32Idx * (bytes / 4)

/-- `CANFD_Transfer` of a standard filter: the word it is at, `none` for `NULL`. -/
def CANFD_Transfer_SID (σ : Port) (psUserData : CANFD_SID_FILTER_T) (u32Idx : ℕ) : Option ℕ × Port :=
  if u32Idx ≥ CANFD_MAX_11_BIT_FTR_ELEMS then (none, σ)
  else
    let psFilter := σ.elemAddr .sid sizeofSidFilter u32Idx
    (some psFilter, { σ with ram := putWords σ.ram psFilter 1 fun _ => psUserData.word })

/-- `CANFD_Transfer` of an extended filter. -/
def CANFD_Transfer_XID (σ : Port) (psUserData : CANFD_XID_FILTER_T) (u32Idx : ℕ) : Option ℕ × Port :=
  if u32Idx ≥ CANFD_MAX_29_BIT_FTR_ELEMS then (none, σ)
  else
    let psFilter := σ.elemAddr .xid sizeofXidFilter u32Idx
    (some psFilter, { σ with
      ram := putWords σ.ram psFilter 2 fun k => if k = 0 then psUserData.word0 else psUserData.word1 })

/-- `CANFD_Transfer` to a dedicated Tx buffer. -/
def CANFD_Transfer_DTB (σ : Port) (psUserData : CANFD_TX_BUF_T) (u32Idx : ℕ) : Option ℕ × Port :=
  if u32Idx ≥ CANFD_MAX_TX_BUF_ELEMS then (none, σ)
  else if σ.ctl.TXBRP.getLsbD u32Idx then (none, σ)
  else
    let psDstTxBuf := σ.elemAddr .tx sizeofBuf u32Idx
    (some psDstTxBuf, { σ with
      ctl := { σ.ctl with TXBAR := (1 : BitVec 32) <<< u32Idx }
      ram := putWords σ.ram psDstTxBuf 18 psUserData.words })

/-- `CANFD_Transfer` from Rx FIFO 0, with the message read.  Writing 1 clears a flag of
`IR`. -/
def CANFD_Transfer_RF0 (σ : Port) : Option (ℕ × CANFD_RX_BUF_T) × Port :=
  if field σ.ctl.RXF0S 0 7 > 0 then
    let GetIndex := field σ.ctl.RXF0S 8 6
    let psRxBuffer := σ.elemAddr .fifo0 sizeofBuf GetIndex
    let ctl := { σ.ctl with RXF0A := BitVec.ofNat 32 GetIndex }
    let ctl := if ctl.RXF0S.getLsbD 25 then { ctl with IR := ctl.IR &&& ~~~0x8 } else ctl
    (some (psRxBuffer, .ofWords fun k => σ.ram (psRxBuffer + k)), { σ with ctl := ctl })
  else (none, σ)

end Canfd
