/-
The AES driver: calls one after another.

`crypt_spec` says what a call does that the engine serves: its output is one run of the mode, from the
chaining value in the context, and of the modes with a chaining value only CBC leaves the next one
there.  So pieces of a message come out as the message does in CBC; in CFB, OFB and CTR every piece
starts anew.

* **`results_eq`** — the outputs of a row of calls;
* **`aes_chains`** — chaining, the bounds of the accesses, and the report of failures.
-/
import NuMaker.Crypto.Driver
import NuMaker.Lib.Mealy
import Mathlib.Tactic.IntervalCases

namespace Crypto

variable {mem : Mem} {a : BitVec 32} {n : ℕ} {d d' : ℕ → BitVec 8}

/-! ### Blocks in memory -/

/-- The first `n` blocks. -/
def blocks (n : ℕ) (bytes : ℕ → BitVec 8) : List Block :=
  (List.range n).map fun k => toBlock fun i => bytes (16 * k + i)

theorem blocks_length (n : ℕ) (d : ℕ → BitVec 8) : (blocks n d).length = n := by
  rw [blocks, List.length_map, List.length_range]

theorem blocks_succ (n : ℕ) (d : ℕ → BitVec 8) :
    blocks (n + 1) d = blocks n d ++ [toBlock fun i => d (16 * n + i)] := by
  rw [blocks, List.range_succ, List.map_append]
  rfl

theorem blocks_congr (h : ∀ i < 16 * n, d i = d' i) : blocks n d = blocks n d' := by
  refine List.map_congr_left fun k hk => funext fun i => ?_
  rw [List.mem_range] at hk
  exact h _ (by omega)

theorem read_write {i : ℕ} (hi : i < n) (hn : n ≤ 2 ^ 32) : read (write mem a n d) a i = d i := by
  have hsub : (a + BitVec.ofNat 32 i - a).toNat = i := by
    rw [BitVec.add_comm, BitVec.add_sub_cancel, BitVec.toNat_ofNat, Nat.mod_eq_of_lt (by omega)]
  rw [read, write, hsub, if_pos hi]

theorem read_add (mem : Mem) (a b : BitVec 32) (i : ℕ) : read mem (a + b) i = read mem a (b.toNat + i) := by
  rw [read, read, BitVec.ofNat_add, BitVec.ofNat_toNat, BitVec.setWidth_eq, BitVec.add_assoc]

/-! ### A call -/

/-- A call, with what the world decides. -/
structure Call where
  CRPT : CRPT_T
  mem : Mem
  malloc_in : Option (BitVec 32)
  malloc_out : Option (BitVec 32)
  data_in : BitVec 32
  data_out : BitVec 32
  length : BitVec 32

def Call.run (call : Call) (ctx : hwcrypto_symmetric) (encrypt : Bool) : Outcome :=
  nu_aes_crypt call.CRPT call.mem call.malloc_in call.malloc_out ctx
    ⟨encrypt, call.data_in, call.data_out, call.length⟩

/-- The buffer that the engine reads, and the memory with the data in it. -/
def Call.buffer_in (call : Call) : Option (BitVec 32) :=
  if misplaced call.data_in then call.malloc_in else some call.data_in

def Call.buffer_out (call : Call) : Option (BitVec 32) :=
  if misplaced call.data_out then call.malloc_out else some call.data_out

/-- The call gets to the engine, with a context in that mode. -/
structure Call.Reaches (call : Call) (ctx : hwcrypto_symmetric) (m : Cipher.Mode) (ks : ℕ)
    (data_in data_out : BitVec 32) : Prop where
  length : call.length % 4 = 0
  key : u32AESKeySize ctx.key_bitlen = some ks
  type : ctx.type = .AES m
  buffer_in : call.buffer_in = some data_in
  buffer_out : call.buffer_out = some data_out

/-- The memory when the buffers are there, and what was accessed for that. -/
def Call.staged (call : Call) (data_in : BitVec 32) : Mem × List (ℕ × ℕ) :=
  if misplaced call.data_in then
    (write call.mem data_in call.length.toNat (read call.mem call.data_in),
      [(0, call.length.toNat), (0, call.length.toNat)])
  else (call.mem, [])

theorem run_of_reaches {call : Call} {ctx : hwcrypto_symmetric} {m : Cipher.Mode} {ks : ℕ}
    {data_in data_out : BitVec 32} (encrypt : Bool) (h : call.Reaches ctx m ks data_in data_out) :
    call.run ctx encrypt =
      crypt_buffers call.CRPT (call.staged data_in).1 ctx
        ⟨encrypt, call.data_in, call.data_out, call.length⟩ m ks data_in data_out
        (call.staged data_in).2 := by
  have hin := h.buffer_in
  have hout := h.buffer_out
  rw [Call.buffer_in] at hin
  rw [Call.buffer_out] at hout
  rw [Call.run, nu_aes_crypt]
  simp only [h.length, ne_eq, not_true_eq_false, if_false, h.key, h.type, hin, hout]
  rfl

/-- The engine is given the bytes of the caller's buffer. -/
theorem staged_read {call : Call} {data_in : BitVec 32} (h : call.buffer_in = some data_in) {i : ℕ}
    (hi : i < call.length.toNat) :
    read (call.staged data_in).1 data_in i = read call.mem call.data_in i := by
  rw [Call.staged]
  rw [Call.buffer_in] at h
  split at h
  · next hm =>
    rw [if_pos hm]
    exact read_write hi (Nat.le_of_lt call.length.isLt)
  · next hm =>
    rw [if_neg hm, Option.some.inj h]

/-- The offset of the last block. -/
theorem lastBlock_toNat {length : BitVec 32} (hlen : length.toNat = 16 * (n + 1)) :
    (lastBlock length).toNat = 16 * n := by
  have hlt := length.isLt
  have hsub : (length - 1).toNat = 16 * n + 15 := by
    rw [BitVec.toNat_sub, hlen, show (1 : BitVec 32).toNat = 1 from rfl]
    omega
  rw [lastBlock, BitVec.toNat_mul, BitVec.toNat_udiv, hsub, show (16 : BitVec 32).toNat = 16 from rfl]
  omega

/-- The block that is taken for the chaining value. -/
theorem toBlock_last {length : BitVec 32} (hlen : length.toNat = 16 * (n + 1)) (mem : Mem)
    (a : BitVec 32) : blocks (n + 1) (read mem a) =
      blocks n (read mem a) ++ [toBlock (read mem (a + lastBlock length))] := by
  rw [blocks_succ]
  congr 2
  funext i
  rw [toBlock, toBlock, read_add, lastBlock_toNat hlen]

/-- The engine works: under the key and the chaining value that it is given, it runs the mode over
whole blocks. -/
structure Implements (K : List (BitVec 32) → Cipher Block) (e : CRPT_T) : Prop where
  done : e.AESIF = true
  error : e.AESEIF = false
  crypt : ∀ (req : Request) (n : ℕ) (iv : Block), 0 < n → req.AES_CNT.toNat = 16 * n →
    req.AES_IV = au32SwapIV iv → blocks n (e.crypt req) =
      (Mealy.run ((K req.AES_KEY).step req.u32OpMode req.u32EncDec) iv (blocks n req.bytes)).1

/-- The blocks of the input, and of the output after a call. -/
def Call.input (call : Call) : List Block := blocks (call.length.toNat / 16) (read call.mem call.data_in)

def Call.output (call : Call) (ctx : hwcrypto_symmetric) (encrypt : Bool) : List Block :=
  blocks (call.length.toNat / 16) (read (call.run ctx encrypt).mem call.data_out)

/-- The chaining value that CBC ends with. -/
theorem chain_CBC (C : Cipher Block) (encrypt : Bool) (iv x : Block) (bs : List Block) :
    ∃ out y, (Mealy.run (C.step .CBC encrypt) iv (bs ++ [x])).1 = out ++ [y] ∧
      (Mealy.run (C.step .CBC encrypt) iv (bs ++ [x])).2 = if encrypt then y else x := by
  rw [Mealy.run_append]
  exact ⟨_, _, rfl, C.step_CBC_snd encrypt _ x⟩

/-- What CBC leaves for a chaining value is the last block of the ciphertext, saved before the run when
it is the input. -/
theorem iv_CBC {C : Cipher Block} {encrypt : Bool} {iv : Block} {length data_in data_out : BitVec 32}
    {mem mem' : Mem} (hlen : length.toNat = 16 * (n + 1))
    (hout : blocks (n + 1) (read mem' data_out) =
      (Mealy.run (C.step .CBC encrypt) iv (blocks (n + 1) (read mem data_in))).1) :
    (if encrypt then toBlock (read mem' (data_out + lastBlock length))
      else toBlock (read mem (data_in + lastBlock length))) =
      (Mealy.run (C.step .CBC encrypt) iv (blocks (n + 1) (read mem data_in))).2 := by
  rw [toBlock_last hlen mem data_in] at hout ⊢
  obtain ⟨out, y, h1, h2⟩ := chain_CBC C encrypt iv (toBlock (read mem (data_in + lastBlock length)))
    (blocks n (read mem data_in))
  rw [toBlock_last hlen mem' data_out, h1] at hout
  have hy := List.cons.inj (List.append_inj_right' hout rfl)
  rw [h2, hy.1]

/-- **A call that the engine serves**: one run of the mode, and the next chaining value for CBC only. -/
theorem crypt_spec {K : List (BitVec 32) → Cipher Block} {call : Call} {ctx : hwcrypto_symmetric}
    {m : Cipher.Mode} {ks : ℕ} {data_in data_out : BitVec 32} (encrypt : Bool)
    (h : call.Reaches ctx m ks data_in data_out) (hK : Implements K call.CRPT)
    (hlen : call.length.toNat = 16 * (n + 1)) :
    (call.run ctx encrypt).ret = some RT_EOK ∧
      call.output ctx encrypt =
        (Mealy.run ((K (au32SwapKey ctx.key ks)).step m encrypt) ctx.iv call.input).1 ∧
      (call.run ctx encrypt).ctx =
        { ctx with iv := if m = .CBC
            then (Mealy.run ((K (au32SwapKey ctx.key ks)).step m encrypt) ctx.iv call.input).2
            else ctx.iv } := by
  have hdiv : call.length.toNat / 16 = n + 1 := by omega
  have hsmall : call.length.toNat ≤ 2 ^ 32 := Nat.le_of_lt call.length.isLt
  rw [Call.output, Call.input, hdiv, run_of_reaches encrypt h]
  have hstaged : blocks (n + 1) (read (call.staged data_in).1 data_in) =
      blocks (n + 1) (read call.mem call.data_in) :=
    blocks_congr fun i hi => staged_read h.buffer_in (by omega)
  rw [← hstaged]
  generalize (call.staged data_in).1 = mem
  generalize (call.staged data_in).2 = log
  -- what the engine puts out
  have hcrypt := hK.crypt
    { u32EncDec := encrypt, u32OpMode := m, u32KeySize := ks, AES_KEY := au32SwapKey ctx.key ks,
      AES_IV := au32SwapIV ctx.iv, AES_CNT := call.length, bytes := read mem data_in }
    (n + 1) ctx.iv (Nat.succ_pos n) hlen rfl
  dsimp only at hcrypt
  have hback : ∀ (mem' : Mem) a d, blocks (n + 1) (read (write mem' a call.length.toNat d) a) =
      blocks (n + 1) d := fun mem' a d => blocks_congr fun i hi => read_write (by omega) hsmall
  have hout := (hback mem data_out _).trans hcrypt
  rw [crypt_buffers, nu_aes_crypt_run, if_pos hK.done]
  dsimp only
  generalize call.CRPT.crypt _ = bytes at hout ⊢
  have hctx : (if decide (m = Cipher.Mode.CBC) = true then
        if encrypt = true then
          toBlock (read (write mem data_out call.length.toNat bytes) (data_out + lastBlock call.length))
        else toBlock (read mem (data_in + lastBlock call.length))
      else ctx.iv) = if m = .CBC
            then (Mealy.run ((K (au32SwapKey ctx.key ks)).step m encrypt) ctx.iv
              (blocks (n + 1) (read mem data_in))).2
            else ctx.iv := by
    by_cases hm : m = .CBC
    · subst hm
      simp only [decide_true, if_true]
      exact iv_CBC hlen hout
    · simp only [hm, decide_false, if_false, Bool.false_eq_true]
  rw [hctx]
  have hbuf := h.buffer_out
  rw [Call.buffer_out] at hbuf
  split at hbuf
  · next hmis =>
    rw [if_pos hmis]
    exact ⟨rfl, (hback _ _ _).trans hout, rfl⟩
  · next hmis =>
    rw [if_neg hmis]
    obtain rfl := Option.some.inj hbuf
    exact ⟨rfl, hout, rfl⟩

/-! ### Calls one after another -/

/-- A call with a whole number of blocks, which finds its buffers and a working engine. -/
structure Call.Served (K : List (BitVec 32) → Cipher Block) (call : Call) : Prop where
  works : Implements K call.CRPT
  pos : 0 < call.length.toNat
  whole : call.length.toNat % 16 = 0
  buffer_in : call.buffer_in.isSome
  buffer_out : call.buffer_out.isSome

/-- The outputs of calls with one context. -/
def results (encrypt : Bool) : hwcrypto_symmetric → List Call → List Block
  | _, [] => []
  | ctx, call :: calls => call.output ctx encrypt ++ results encrypt (call.run ctx encrypt).ctx calls

theorem Call.Served.reaches {K : List (BitVec 32) → Cipher Block} {call : Call}
    {ctx : hwcrypto_symmetric} {m : Cipher.Mode} {ks : ℕ} (h : call.Served K)
    (hkey : u32AESKeySize ctx.key_bitlen = some ks) (htype : ctx.type = .AES m) :
    ∃ data_in data_out, call.Reaches ctx m ks data_in data_out := by
  obtain ⟨data_in, hin⟩ := Option.isSome_iff_exists.1 h.buffer_in
  obtain ⟨data_out, hout⟩ := Option.isSome_iff_exists.1 h.buffer_out
  refine ⟨data_in, data_out, BitVec.eq_of_toNat_eq ?_, hkey, htype, hin, hout⟩
  have := h.whole
  rw [BitVec.toNat_umod, show (4 : BitVec 32).toNat = 4 from rfl,
    show (0 : BitVec 32).toNat = 0 from rfl]
  omega

theorem Call.Served.input_ne_nil {K : List (BitVec 32) → Cipher Block} {call : Call}
    (h : call.Served K) : call.input ≠ [] := by
  intro hnil
  have hlen : call.length.toNat / 16 = 0 := by
    rw [← blocks_length (call.length.toNat / 16) (read call.mem call.data_in)]
    exact congrArg List.length hnil
  have := h.pos
  have := h.whole
  omega

section
variable {K : List (BitVec 32) → Cipher Block} {m : Cipher.Mode} {ks : ℕ} {encrypt : Bool}

/-- **The outputs**: CBC goes on from piece to piece, and the other modes begin anew. -/
theorem results_eq : ∀ {calls : List Call} {ctx : hwcrypto_symmetric},
    u32AESKeySize ctx.key_bitlen = some ks → ctx.type = .AES m → (∀ call ∈ calls, call.Served K) →
    results encrypt ctx calls =
      if m = .CBC then
        Mealy.runs ((K (au32SwapKey ctx.key ks)).step m encrypt) ctx.iv (calls.map Call.input)
      else Mealy.restarts ((K (au32SwapKey ctx.key ks)).step m encrypt) ctx.iv (calls.map Call.input)
  | [], _, _, _, _ => by
    split
    · rfl
    · rfl
  | call :: calls, ctx, hkey, htype, hserved => by
    have hs := hserved call List.mem_cons_self
    obtain ⟨data_in, data_out, hr⟩ := hs.reaches hkey htype
    obtain ⟨n, hn⟩ : ∃ n, call.length.toNat = 16 * (n + 1) := by
      have := hs.pos
      have := hs.whole
      exact ⟨call.length.toNat / 16 - 1, by omega⟩
    obtain ⟨-, hout, hctx⟩ := crypt_spec encrypt hr hs.works hn
    have hrest : ∀ c ∈ calls, c.Served K := fun c hc => hserved c (List.mem_cons_of_mem call hc)
    rw [results, hout, hctx]
    -- the context has another chaining value, and the key and the mode that it had
    have ih : results encrypt { ctx with iv := if m = .CBC
        then (Mealy.run ((K (au32SwapKey ctx.key ks)).step m encrypt) ctx.iv call.input).2
        else ctx.iv } calls = _ := results_eq hkey htype hrest
    rw [ih]
    by_cases hm : m = .CBC
    · simp only [hm, if_true]
      rfl
    · simp only [hm, if_false]
      rfl

/-- What is asked of the outputs of a message in pieces: they are those of one run, and decryption
from the same chaining value gives the message back. -/
structure Chains (C : Cipher Block) (m : Cipher.Mode) (encrypt : Bool) (iv : Block)
    (message out : List Block) : Prop where
  whole : out = (Mealy.run (C.step m encrypt) iv message).1
  undone : encrypt = true → (Mealy.run (C.step m false) iv out).1 = message

theorem chains_of_whole {C : Cipher Block} {iv : Block} {message out : List Block}
    (h : out = (Mealy.run (C.step m encrypt) iv message).1) : Chains C m encrypt iv message out := by
  refine ⟨h, ?_⟩
  rintro rfl
  rw [h, Mealy.run_inverse (C.step_inverse m)]

theorem chains_iff {calls : List Call} {ctx : hwcrypto_symmetric} (hm : m ≠ .ECB)
    (hkey : u32AESKeySize ctx.key_bitlen = some ks) (htype : ctx.type = .AES m)
    (hserved : ∀ call ∈ calls, call.Served K) :
    Chains (K (au32SwapKey ctx.key ks)) m encrypt ctx.iv (calls.map Call.input).flatten
        (results encrypt ctx calls) ↔
      m = .CBC ∨ ∀ before call after, calls = before ++ call :: after →
        (Mealy.run ((K (au32SwapKey ctx.key ks)).step m encrypt) ctx.iv
          (before.map Call.input).flatten).2 = ctx.iv := by
  refine Iff.trans ⟨Chains.whole, chains_of_whole⟩ ?_
  rw [results_eq hkey htype hserved]
  by_cases hcbc : m = .CBC
  · rw [if_pos hcbc, Mealy.runs_eq]
    exact iff_of_true rfl (Or.inl hcbc)
  · have hstream : m.Streams := by
      revert hm hcbc
      cases m with
      | ECB | CBC => exact fun h h' => absurd rfl (by first | exact h | exact h')
      | CFB | OFB | CTR => exact fun _ _ => trivial
    have hne : ∀ p ∈ calls.map Call.input, p ≠ [] := by
      intro p hp
      obtain ⟨call, hcall, rfl⟩ := List.mem_map.1 hp
      exact (hserved call hcall).input_ne_nil
    rw [if_neg hcbc, or_iff_right hcbc,
      Mealy.restarts_iff (Cipher.step_injective _ hstream encrypt) hne]
    constructor
    · rintro h before call after rfl
      exact h (before.map Call.input) call.input (after.map Call.input) (by rw [List.map_append]; rfl)
    · intro h before p after hps
      obtain ⟨before', rest, rfl, rfl, hrest⟩ := List.map_eq_append_iff.1 hps
      obtain ⟨call, after', rfl, rfl, rfl⟩ := List.map_eq_cons_iff.1 hrest
      exact h before' call after' rfl

end

/-! ### Bounds and failures -/

variable {call : Call} {ctx : hwcrypto_symmetric} {encrypt : Bool}

theorem staged_accesses (call : Call) (data_in : BitVec 32) :
    ∀ p ∈ (call.staged data_in).2, p = (0, call.length.toNat) := by
  intro p hp
  rw [Call.staged] at hp
  split at hp <;> simp_all

theorem refused {r : ℤ} {mem : Mem} {log : List (ℕ × ℕ)} {len : ℕ} (hr : r ≠ RT_EOK)
    (hlog : ∀ p ∈ log, p = (0, len)) :
    (∃ r', (Outcome.mk (some r) ctx mem log).ret = some r' ∧ r' ≠ RT_EOK) ∧
      ∀ p ∈ (Outcome.mk (some r) ctx mem log).accesses, p = (0, len) := ⟨⟨r, rfl, hr⟩, hlog⟩

/-- A call gets to the engine, or it returns an error and has accessed whole buffers at most. -/
theorem run_cases (call : Call) (ctx : hwcrypto_symmetric) (encrypt : Bool) :
    (∃ m ks data_in data_out, call.Reaches ctx m ks data_in data_out) ∨
      (∃ r, (call.run ctx encrypt).ret = some r ∧ r ≠ RT_EOK) ∧
        ∀ p ∈ (call.run ctx encrypt).accesses, p = (0, call.length.toNat) := by
  by_cases hlen : call.length % 4 = 0
  · refine (em _).imp_right fun hno => ?_
    rw [Call.run, nu_aes_crypt]
    simp only [hlen, ne_eq, not_true_eq_false, if_false]
    split
    · exact refused (by decide) (by simp)
    · next ks hkey =>
      split
      · exact refused (by decide) (by simp)
      · next m htype =>
        split
        · exact refused (by decide) (by simp)
        · next data_in hin =>
          split
          · refine refused (by decide) ?_
            exact staged_accesses call data_in
          · next data_out hout =>
            exact absurd ⟨m, ks, data_in, data_out, hlen, hkey, htype, hin, hout⟩ hno
  · rw [Call.run, nu_aes_crypt, if_pos hlen]
    exact Or.inr (refused (by decide) (by simp))

/-- No byte outside the lengths of the buffers is accessed. -/
def InBounds (call : Call) (ctx : hwcrypto_symmetric) (encrypt : Bool) : Prop :=
  ∀ p ∈ (call.run ctx encrypt).accesses, p.1 + p.2 ≤ call.length.toNat

/-- The last block is within the buffer when there are whole blocks, and one at least. -/
theorem lastBlock_fits (length : BitVec 32) :
    (lastBlock length).toNat + 16 ≤ length.toNat ↔ 0 < length.toNat ∧ length.toNat % 16 = 0 := by
  have hlt := length.isLt
  rw [lastBlock, BitVec.toNat_mul, BitVec.toNat_udiv, BitVec.toNat_sub,
    show (16 : BitVec 32).toNat = 16 from rfl, show (1 : BitVec 32).toNat = 1 from rfl]
  omega

/-- CBC takes the last block of the input before the run, or of the output after it. -/
def TakesLast (call : Call) (m : Cipher.Mode) (encrypt : Bool) : Prop :=
  m = .CBC ∧ (encrypt = true → call.CRPT.AESIF = true)

theorem accesses_eq {m : Cipher.Mode} {ks : ℕ} {data_in data_out : BitVec 32}
    (h : call.Reaches ctx m ks data_in data_out) :
    (call.run ctx encrypt).accesses = (call.staged data_in).2 ++
      (if decide (m = .CBC) && !encrypt then [((lastBlock call.length).toNat, 16)] else []) ++
      [(0, call.length.toNat), (0, call.length.toNat)] ++
      if call.CRPT.AESIF then
        (if decide (m = .CBC) && encrypt then [((lastBlock call.length).toNat, 16)] else []) ++
          if misplaced call.data_out then [(0, call.length.toNat), (0, call.length.toNat)] else []
      else [] := by
  rw [run_of_reaches encrypt h, crypt_buffers, nu_aes_crypt_run]
  cases call.CRPT.AESIF with
  | false => exact (List.append_nil _).symm
  | true =>
    cases misplaced call.data_out with
    | false =>
      simp only [if_true, Bool.false_eq_true, if_false, List.append_nil]
    | true => simp only [if_true, List.append_assoc]

/-- What a call accesses that gets to the engine: its buffers, and a last block. -/
theorem mem_accesses {m : Cipher.Mode} {ks : ℕ} {data_in data_out : BitVec 32}
    (h : call.Reaches ctx m ks data_in data_out) {p : ℕ × ℕ} :
    p ∈ (call.run ctx encrypt).accesses ↔
      p = (0, call.length.toNat) ∨ p = ((lastBlock call.length).toNat, 16) ∧ TakesLast call m encrypt := by
  have hlog := staged_accesses call data_in p
  rw [accesses_eq h, TakesLast]
  by_cases hm : m = .CBC <;> cases encrypt <;> cases call.CRPT.AESIF <;>
    simp only [List.mem_append, List.mem_cons, List.not_mem_nil, hm, decide_true, decide_false,
      Bool.not_true, Bool.not_false, Bool.and_true, Bool.and_false, if_true, Bool.false_eq_true, if_false]
      <;> grind

/-- **The accesses are in bounds** unless CBC takes a last block of a length that is no positive
multiple of 16. -/
theorem reaches_inBounds {m : Cipher.Mode} {ks : ℕ} {data_in data_out : BitVec 32}
    (h : call.Reaches ctx m ks data_in data_out) :
    InBounds call ctx encrypt ↔
      (TakesLast call m encrypt → 0 < call.length.toNat ∧ call.length.toNat % 16 = 0) := by
  rw [← lastBlock_fits]
  constructor
  · exact fun hb ht => hb _ ((mem_accesses h).2 (Or.inr ⟨rfl, ht⟩))
  · intro ht p hp
    rcases (mem_accesses h).1 hp with rfl | ⟨rfl, htake⟩
    · exact Nat.le_of_eq (Nat.zero_add _)
    · exact ht htake

/-- An engine that fails gives no error: the call returns as if it had not, or it does not return. -/
theorem reaches_ret {m : Cipher.Mode} {ks : ℕ} {data_in data_out : BitVec 32}
    (h : call.Reaches ctx m ks data_in data_out) :
    (call.run ctx encrypt).ret = if call.CRPT.AESIF then some RT_EOK else none := by
  rw [run_of_reaches encrypt h, crypt_buffers, nu_aes_crypt_run]
  cases call.CRPT.AESIF with
  | false => rfl
  | true =>
    cases misplaced call.data_out with
    | false => rfl
    | true => rfl

/-- **Calls of the driver**, with `K` for the cipher.  The outputs of a row of calls are those of one run
over the whole message, and decryption undoes them, exactly in CBC and where the chaining value comes
back to what it was at first; the accesses of a call are in bounds unless CBC takes a last block of a
length that is no positive multiple of 16; and a failure of the engine is never reported. -/
theorem aes_chains (K : List (BitVec 32) → Cipher Block) :
    (∀ (m : Cipher.Mode) (encrypt : Bool) (ctx : hwcrypto_symmetric) (ks : ℕ) (calls : List Call),
      m ≠ .ECB → u32AESKeySize ctx.key_bitlen = some ks → ctx.type = .AES m →
      (∀ call ∈ calls, call.Served K) →
      (Chains (K (au32SwapKey ctx.key ks)) m encrypt ctx.iv (calls.map Call.input).flatten
          (results encrypt ctx calls) ↔
        m = .CBC ∨ ∀ before call after, calls = before ++ call :: after →
          (Mealy.run ((K (au32SwapKey ctx.key ks)).step m encrypt) ctx.iv
            (before.map Call.input).flatten).2 = ctx.iv)) ∧
    (∀ (call : Call) (ctx : hwcrypto_symmetric) (encrypt : Bool),
      InBounds call ctx encrypt ↔
        ∀ ks data_in data_out, call.Reaches ctx .CBC ks data_in data_out →
          (encrypt = true → call.CRPT.AESIF = true) →
          0 < call.length.toNat ∧ call.length.toNat % 16 = 0) ∧
    (∀ (call : Call) (ctx : hwcrypto_symmetric) (encrypt : Bool) (m : Cipher.Mode) (ks : ℕ)
        (data_in data_out : BitVec 32), call.Reaches ctx m ks data_in data_out →
      ((call.CRPT.AESEIF = true → ∃ r, (call.run ctx encrypt).ret = some r ∧ r ≠ RT_EOK) ↔
        call.CRPT.AESEIF = false)) := by
  refine ⟨fun m encrypt ctx ks calls hm hkey htype hserved => chains_iff hm hkey htype hserved,
    fun call ctx encrypt => ?_, fun call ctx encrypt m ks data_in data_out hr => ?_⟩
  · rcases run_cases call ctx encrypt with ⟨m, ks, data_in, data_out, hr⟩ | ⟨⟨r, hret, hne⟩, hacc⟩
    · rw [reaches_inBounds hr]
      constructor
      · intro h ks' data_in' data_out' hr' hdone
        obtain rfl : m = .CBC := HwcryptoType.AES.inj (hr.type.symm.trans hr'.type)
        exact h ⟨rfl, hdone⟩
      · rintro h ⟨rfl, hdone⟩
        exact h ks data_in data_out hr hdone
    · -- refused, so it did not get to the engine
      refine iff_of_true (fun p hp => ?_) fun ks data_in data_out hr => ?_
      · rw [hacc p hp]
        exact Nat.le_of_eq (Nat.zero_add _)
      · rw [reaches_ret hr] at hret
        split at hret
        · exact absurd (Option.some.inj hret).symm hne
        · cases hret
  · rw [reaches_ret hr]
    constructor
    · intro h
      refine Bool.eq_false_iff.2 fun hfail => ?_
      obtain ⟨r, hret, hne⟩ := h hfail
      split at hret
      · exact hne (Option.some.inj hret).symm
      · cases hret
    · rintro hok hfail
      rw [hok] at hfail
      cases hfail

/-! ### A known block

The key is the bytes from 0 to 15; under it, AES takes `plain` to `secret`. -/

def plain : Block := fun i => BitVec.ofNat 8 (17 * i)

def secret : Block := fun i =>
  [0x69, 0xc4, 0xe0, 0xd8, 0x6a, 0x7b, 0x04, 0x30, 0xd8, 0xcd, 0xb7, 0x80, 0x70, 0xb4, 0xc5, 0x5a].getD i 0

/-- A cipher that does to `plain` what AES does. -/
def known : Cipher Block where
  enc b := fun i => b i ^^^ (plain i ^^^ secret i)
  dec b := fun i => b i ^^^ (plain i ^^^ secret i)
  dec_enc b := funext fun i => by rw [BitVec.xor_assoc, BitVec.xor_self, BitVec.xor_zero]
  xor a b := fun i => a i ^^^ b i
  xor_comm a b := funext fun i => BitVec.xor_comm _ _
  xor_cancel a b := funext fun i => by rw [BitVec.xor_assoc, BitVec.xor_self, BitVec.xor_zero]
  incr b := fun i => if ∀ j, i < j → b j = 0xff then b i + 1 else b i

theorem nu_get32_be_toNat (pos : ℕ → BitVec 8) (i : ℕ) :
    (nu_get32_be pos i).toNat = (pos i).toNat * 2 ^ 24 + (pos (i + 1)).toNat * 2 ^ 16 +
      (pos (i + 2)).toNat * 2 ^ 8 + (pos (i + 3)).toNat := by
  have h0 := (pos i).isLt
  have h1 := (pos (i + 1)).isLt
  have h2 := (pos (i + 2)).isLt
  have h3 := (pos (i + 3)).isLt
  simp only [nu_get32_be, BitVec.toNat_add, BitVec.toNat_shiftLeft, BitVec.toNat_setWidth,
    Nat.shiftLeft_eq]
  omega

/-- The chaining value that the engine finds in its registers. -/
def ivOf (AES_IV : List (BitVec 32)) : Block := fun i =>
  (AES_IV.getD (i.val / 4) 0 >>> (24 - 8 * (i.val % 4))).setWidth 8

theorem ofBlock_eq (b : Block) {i : ℕ} {j : Fin 16} (h : i % 16 = j.val) : ofBlock b i = b j :=
  congrArg b (Fin.ext h)

theorem ivOf_swap (iv : Block) : ivOf (au32SwapIV iv) = iv := by
  funext i
  have hi := i.isLt
  have hget : (au32SwapIV iv).getD (i.val / 4) 0 =
      nu_get32_be (ofBlock iv) (4 * (i.val / 4)) := by
    rw [au32SwapIV, List.getD_eq_getElem?_getD, List.getElem?_map, List.getElem?_range (by omega)]
    rfl
  apply BitVec.eq_of_toNat_eq
  rw [ivOf, hget, BitVec.toNat_setWidth, BitVec.toNat_ushiftRight, nu_get32_be_toNat,
    Nat.shiftRight_eq_div_pow]
  have hb : ∀ j, (ofBlock iv j).toNat < 256 := fun j => (iv _).isLt
  have h0 := hb (4 * (i.val / 4))
  have h1 := hb (4 * (i.val / 4) + 1)
  have h2 := hb (4 * (i.val / 4) + 2)
  have h3 := hb (4 * (i.val / 4) + 3)
  have hself : iv i = ofBlock iv (4 * (i.val / 4) + i.val % 4) := (ofBlock_eq iv (by omega)).symm
  rw [hself]
  have hr : i.val % 4 < 4 := by omega
  generalize i.val / 4 = q at h0 h1 h2 h3 ⊢
  generalize i.val % 4 = r at hr ⊢
  interval_cases r
  · simp only [Nat.add_zero]
    omega
  · omega
  · omega
  · omega

/-- The bytes of blocks. -/
def ofBlocks (bs : List Block) : ℕ → BitVec 8 := fun i => ofBlock (bs.getD (i / 16) fun _ => 0) i

theorem blocks_getElem {k : ℕ} (hk : k < (blocks n d).length) :
    (blocks n d)[k] = toBlock fun i => d (16 * k + i) := by
  simp only [blocks, List.getElem_map, List.getElem_range]

theorem blocks_ofBlocks (bs : List Block) : blocks bs.length (ofBlocks bs) = bs := by
  refine List.ext_getElem (blocks_length _ _) fun k hk hk' => funext fun i => ?_
  have hdiv : (16 * k + i.val) / 16 = k := by omega
  have hmod : (16 * k + i.val) % 16 = i.val := by omega
  rw [blocks_getElem]
  simp only [toBlock, ofBlocks, hdiv, ofBlock_eq _ hmod, List.getD_eq_getElem?_getD,
    List.getElem?_eq_getElem hk', Option.getD_some]

/-- An engine that runs the modes of `known`. -/
def engine : CRPT_T where
  crypt req := ofBlocks (Mealy.run (known.step req.u32OpMode req.u32EncDec) (ivOf req.AES_IV)
    (blocks (req.AES_CNT.toNat / 16) req.bytes)).1
  AESIF := true
  AESEIF := false

theorem engine_implements : Implements (fun _ => known) engine where
  done := rfl
  error := rfl
  crypt := by
    intro req n iv hn hcnt hiv
    have hdiv : req.AES_CNT.toNat / 16 = n := by omega
    have hlen : (Mealy.run (known.step req.u32OpMode req.u32EncDec) iv (blocks n req.bytes)).1.length
        = n := by rw [Mealy.run_length, blocks_length]
    have h := blocks_ofBlocks (Mealy.run (known.step req.u32OpMode req.u32EncDec) iv
      (blocks n req.bytes)).1
    rw [hlen] at h
    dsimp only [engine]
    rw [hdiv, hiv, ivOf_swap]
    exact h

/-- A context with the key, and `plain` for the chaining value. -/
def context (m : Cipher.Mode) : hwcrypto_symmetric where
  type := .AES m
  key_bitlen := 128
  key i := BitVec.ofNat 8 i
  iv := plain

/-- A call with a block of zeros, in place. -/
def zeros : Call where
  CRPT := engine
  mem _ := 0
  malloc_in := none
  malloc_out := none
  data_in := 0x20000000
  data_out := 0x20000000
  length := 16

theorem zeros_served : zeros.Served fun _ => known :=
  ⟨engine_implements, by decide, by decide, by decide, by decide⟩

theorem aes_chains_zeros :
    (Chains known .CBC true plain ([zeros].map Call.input).flatten
        (results true (context .CBC) [zeros]) ↔
      Cipher.Mode.CBC = .CBC ∨ ∀ before call after, [zeros] = before ++ call :: after →
        (Mealy.run (known.step .CBC true) plain (before.map Call.input).flatten).2 = plain) ∧
    ((zeros.CRPT.AESEIF = true →
        ∃ r, (zeros.run (context .CBC) true).ret = some r ∧ r ≠ RT_EOK) ↔
      zeros.CRPT.AESEIF = false) :=
  ⟨(aes_chains fun _ => known).1 .CBC true (context .CBC) 0 [zeros] (by decide) rfl rfl (by
      intro call hcall
      rw [List.mem_singleton.1 hcall]
      exact zeros_served),
    (aes_chains fun _ => known).2.2 zeros (context .CBC) true .CBC 0 0x20000000 0x20000000
      ⟨by decide, rfl, rfl, by decide, by decide⟩⟩

/-- **CFB forgets the chaining value**: of two blocks of zeros the second comes out as the first did. -/
theorem cfb_forgets :
    ¬ ∀ (K : List (BitVec 32) → Cipher Block) (m : Cipher.Mode) (encrypt : Bool)
        (ctx : hwcrypto_symmetric) (ks : ℕ) (calls : List Call), m ≠ .ECB →
      u32AESKeySize ctx.key_bitlen = some ks → ctx.type = .AES m → (∀ call ∈ calls, call.Served K) →
      Chains (K (au32SwapKey ctx.key ks)) m encrypt ctx.iv (calls.map Call.input).flatten
        (results encrypt ctx calls) := by
  intro h
  have hserved : ∀ call ∈ [zeros, zeros], call.Served fun _ => known := by
    intro call hcall
    rcases List.mem_pair.1 hcall with rfl | rfl <;> exact zeros_served
  have hchain := (chains_iff (by decide) rfl rfl hserved).1
    (h (fun _ => known) .CFB true (context .CFB) 0 [zeros, zeros] (by decide) rfl rfl hserved)
  rcases hchain with hcbc | hchain
  · cases hcbc
  · -- after the first block the chaining value is `secret`
    have hfirst := congrFun (hchain [zeros] zeros [] rfl) 0
    exact absurd hfirst (by decide)

end Crypto
