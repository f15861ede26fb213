/-
Frames of one length on a line that may lose letters or add some.

The first letter of a frame is marked and the others are not.  A decoder that waits for a marked letter
and then takes letters as they come, marked or not, is lost by a disturbance in the middle of a frame;
but not for long.

* **`decode`** — the frames found, and the letters of one that is not complete;
* **`decode_frames`** — from any point on, the first frame of an undisturbed stretch may be spoilt, and
  all others are found.
-/
import Mathlib.Data.List.Basic
import Mathlib.Tactic.Common

namespace Framing

variable {α : Type*} (mark : α → Bool) (n : ℕ)

/-- One letter: what has been collected after it, and the frame that it completes. -/
def feed (buf : List α) (c : α) : List α × Option (List α) :=
  if buf = [] ∧ mark c = false then ([], none)
  else if buf.length + 1 = n then ([], some (buf ++ [c]))
  else (buf ++ [c], none)

def decode : List α → List α → List (List α) × List α
  | buf, [] => ([], buf)
  | buf, c :: cs =>
    let r := feed mark n buf c
    let t := decode r.1 cs
    (r.2.toList ++ t.1, t.2)

/-- A frame, as it is sent. -/
structure Frame (f : List α) : Prop where
  length : f.length = n
  head : ∀ c ∈ f.head?, mark c = true
  tail : ∀ c ∈ f.tail, mark c = false

variable {mark n}

theorem decode_append (buf cs ds : List α) :
    decode mark n buf (cs ++ ds) =
      ((decode mark n buf cs).1 ++ (decode mark n (decode mark n buf cs).2 ds).1,
        (decode mark n (decode mark n buf cs).2 ds).2) := by
  induction cs generalizing buf with
  | nil => rfl
  | cons c cs ih =>
    simp only [List.cons_append, decode, ih, List.append_assoc]

theorem decode_one (buf : List α) (c : α) :
    decode mark n buf [c] = ((feed mark n buf c).2.toList, (feed mark n buf c).1) := by
  simp only [decode, List.append_nil]

/-- What is collected is less than a frame, and begins with a marked letter. -/
structure Partial (mark : α → Bool) (n : ℕ) (buf : List α) : Prop where
  short : buf.length < n
  head : ∀ c ∈ buf.head?, mark c = true

theorem Partial.feed {buf : List α} (h : Partial mark n buf) (c : α) :
    Partial mark n (feed mark n buf c).1 := by
  have hpos : 0 < n := Nat.zero_lt_of_lt h.short
  rw [Framing.feed]
  split_ifs with hskip hfull
  · exact ⟨hpos, fun c hc => by cases hc⟩
  · exact ⟨hpos, fun c hc => by cases hc⟩
  · have := h.short
    refine ⟨by rw [List.length_append, List.length_singleton]; omega, fun d hd => ?_⟩
    cases buf with
    | nil =>
      obtain rfl : c = d := Option.some_inj.mp hd
      exact (Bool.not_eq_false _).mp fun hc => hskip ⟨rfl, hc⟩
    | cons b bs => exact h.head d hd

theorem Partial.decode {buf : List α} (h : Partial mark n buf) (cs : List α) :
    Partial mark n (decode mark n buf cs).2 := by
  induction cs generalizing buf with
  | nil => exact h
  | cons c cs ih => exact ih (h.feed c)

/-- Letters that are taken as they come, until the frame is full. -/
theorem decode_fill {buf cs : List α} (hbuf : buf ≠ []) (hcs : cs ≠ [])
    (hlen : buf.length + cs.length = n) : decode mark n buf cs = ([buf ++ cs], []) := by
  induction cs generalizing buf with
  | nil => exact absurd rfl hcs
  | cons c cs ih =>
    rw [List.length_cons] at hlen
    have hskip : ¬ (buf = [] ∧ mark c = false) := fun h => hbuf h.1
    rw [decode, feed, if_neg hskip]
    by_cases hlast : cs = []
    · subst hlast
      rw [if_pos (by simpa using hlen)]
      rfl
    · have := List.length_pos_of_ne_nil hlast
      rw [if_neg (by omega)]
      have hih := ih (List.append_ne_nil_of_right_ne_nil buf (List.cons_ne_nil c [])) hlast
        (by rw [List.length_append, List.length_singleton]; omega)
      rw [List.append_assoc, List.singleton_append] at hih
      exact hih

/-- Letters that belong to no frame. -/
theorem decode_skip {cs : List α} (h : ∀ c ∈ cs, mark c = false) : decode mark n [] cs = ([], []) := by
  induction cs with
  | nil => rfl
  | cons c cs ih =>
    rw [decode, feed, if_pos ⟨rfl, h c List.mem_cons_self⟩]
    exact ih fun d hd => h d (List.mem_cons_of_mem c hd)

theorem decode_frame {f : List α} (h : Frame mark n f) (hn : 1 < n) : decode mark n [] f = ([f], []) := by
  have hlen := h.length
  cases f with
  | nil =>
    rw [List.length_nil] at hlen
    omega
  | cons c cs =>
    rw [List.length_cons] at hlen
    have hskip : ¬ (([] : List α) = [] ∧ mark c = false) := fun hc =>
      Bool.noConfusion (hc.2.symm.trans (h.head c rfl))
    rw [decode, feed, if_neg hskip, List.length_nil, if_neg (by omega)]
    exact decode_fill (List.cons_ne_nil c []) (List.ne_nil_of_length_pos (by omega))
      (by rw [List.nil_append, List.length_singleton]; omega)

/-- In the middle of a frame the decoder takes the next one for the rest of it. -/
theorem decode_spoilt {buf f : List α} (hbuf : buf ≠ []) (h : Frame mark n f)
    (hlen : buf.length < n) :
    decode mark n buf f = ([buf ++ f.take (n - buf.length)], []) := by
  have hflen := h.length
  have hpos := List.length_pos_of_ne_nil hbuf
  have hne : f.take (n - buf.length) ≠ [] := by
    refine List.ne_nil_of_length_pos ?_
    rw [List.length_take]
    omega
  have hfill : decode mark n buf (f.take (n - buf.length)) = ([buf ++ f.take (n - buf.length)], []) :=
    decode_fill hbuf hne (by rw [List.length_take]; omega)
  have hrest : ∀ c ∈ f.drop (n - buf.length), mark c = false := by
    intro c hc
    refine h.tail c ?_
    rw [← List.drop_one]
    exact List.mem_of_mem_drop (l := f.drop 1) (i := n - buf.length - 1)
      (by rw [List.drop_drop]; convert hc using 2; omega)
  conv_lhs => rw [← List.take_append_drop (n - buf.length) f]
  rw [decode_append, hfill]
  dsimp only
  rw [decode_skip hrest]
  rfl

theorem decode_frames_nil {fs : List (List α)} (h : ∀ f ∈ fs, Frame mark n f) (hn : 1 < n) :
    decode mark n [] fs.flatten = (fs, []) := by
  induction fs with
  | nil => rfl
  | cons f fs ih =>
    rw [List.flatten_cons, decode_append, decode_frame (h f List.mem_cons_self) hn]
    dsimp only
    rw [ih fun g hg => h g (List.mem_cons_of_mem f hg)]
    rfl

/-- **Only the first frame can be spoilt**, whatever came before it. -/
theorem decode_frames {buf : List α} (hbuf : Partial mark n buf) {f : List α} {fs : List (List α)}
    (h : ∀ g ∈ f :: fs, Frame mark n g) (hn : 1 < n) :
    ∃ g, decode mark n buf (f :: fs).flatten = (g :: fs, []) := by
  have hrest : decode mark n [] fs.flatten = (fs, []) :=
    decode_frames_nil (fun g hg => h g (List.mem_cons_of_mem f hg)) hn
  rw [List.flatten_cons, decode_append]
  by_cases hnil : buf = []
  · subst hnil
    rw [decode_frame (h f List.mem_cons_self) hn]
    dsimp only
    rw [hrest]
    exact ⟨f, rfl⟩
  · rw [decode_spoilt hnil (h f List.mem_cons_self) hbuf.short]
    dsimp only
    rw [hrest]
    exact ⟨_, rfl⟩

end Framing
