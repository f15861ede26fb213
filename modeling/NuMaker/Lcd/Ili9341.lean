/-
The ILI9341 panel of `lcd_ili9341.c`, over either of its interfaces: the commands and data the
drawing functions send, and what the panel makes of them.

A drawing function opens a window of columns and pages, whose bounds the panel takes inclusively,
and sends pixels that fill it in raster order.  The lines open a window up to their last point
and send a pixel less, `ili9341_lcd_blit_line` opens one a column too wide.

* **`Display.recv_window`** — what a window and its pixels leave in the panel's memory;
* **`exact_iff`** — which calls send exactly the pixels of their windows and so draw their shape.
-/
import NuMaker.Lib.Raster
import Mathlib.Data.BitVec

namespace Ili9341

/-! ### The interfaces -/

/-- `NU_PKG_USING_ILI9341_SPI` or `NU_PKG_USING_ILI9341_EBI`. -/
inductive Bus
  | spi
  | ebi
deriving DecidableEq, Repr

/-- A transfer to the panel, by the level of the D/CX pin: a command byte, or data.  On the SPI
bus a 16-bit datum is two bytes, the high one first; on the EBI it is one bus cycle. -/
inductive Xfer
  | cmd (b : BitVec 8)
  | data16 (w : BitVec 16)
deriving DecidableEq, Repr

def ili9341_send_cmd (cmd : BitVec 8) : List Xfer := [.cmd cmd]

def ili9341_send_pixel_data (pixel : BitVec 16) : List Xfer := [.data16 pixel]

def ili9341_send_pixels (pixels : List (BitVec 16)) : List Xfer := pixels.map .data16

/-- A command with two coordinates: as two 16-bit data over SPI, as four bytes over the EBI. -/
def setRange (bus : Bus) (cmd : BitVec 8) (s e : BitVec 16) : List Xfer :=
  ili9341_send_cmd cmd ++
    match bus with
    | .spi => [.data16 s, .data16 e]
    | .ebi => [.data16 ((s >>> 8) &&& 0xFF), .data16 (s &&& 0xFF),
        .data16 ((e >>> 8) &&& 0xFF), .data16 (e &&& 0xFF)]

def ili9341_set_column (bus : Bus) (StartCol EndCol : BitVec 16) : List Xfer :=
  setRange bus 0x2A StartCol EndCol

def ili9341_set_page (bus : Bus) (StartPage EndPage : BitVec 16) : List Xfer :=
  setRange bus 0x2B StartPage EndPage

/-! ### The drawing functions -/

/-- What the build fixes: the orientation and the number of line buffers of the framebuffer. -/
structure Config where
  /-- `NU_PKG_ILI9341_HORIZONTAL`. -/
  horizontal : Bool
  /-- `NU_PKG_ILI9341_LINE_BUFFER_NUMBER`, where there is an offscreen framebuffer. -/
  lines : Option ℕ
  lines_pos : ∀ n ∈ lines, 0 < n

variable (cfg : Config) (bus : Bus)

def Config.XSIZE_PHYS : ℕ := if cfg.horizontal then 320 else 240

def Config.YSIZE_PHYS : ℕ := if cfg.horizontal then 240 else 320

/-- An `int` passed for an `rt_uint16_t`. -/
def u16 (x : ℤ) : BitVec 16 := BitVec.ofInt 16 x

/-- `struct rt_device_rect_info`. -/
structure rt_device_rect_info where
  x : BitVec 16
  y : BitVec 16
  width : BitVec 16
  height : BitVec 16
deriving DecidableEq, Repr

/-- The pixels are read from `pixels` in the order they lie there. -/
def ili9341_fillrect (pixels : ℕ → BitVec 16) (pRectInfo : rt_device_rect_info) : List Xfer :=
  ili9341_set_column bus pRectInfo.x (u16 (pRectInfo.x.toNat + pRectInfo.width.toNat - 1)) ++
  ili9341_set_page bus pRectInfo.y (u16 (pRectInfo.y.toNat + pRectInfo.height.toNat - 1)) ++
  ili9341_send_cmd 0x2c ++
  ili9341_send_pixels
    ((List.range (pRectInfo.height.toNat * pRectInfo.width.toNat)).map pixels)

/-- The loop of `ili9341_fillscreen` over the line buffers, from `filled_line_num` on.  Each turn
colours the `n` lines of the framebuffer before it sends them. -/
def fillLoop (framebuffer : ℕ → BitVec 16) (color : BitVec 16) (n : ℕ) (hn : 0 < n)
    (filled_line_num : ℕ) : List Xfer :=
  if filled_line_num < cfg.YSIZE_PHYS then
    ili9341_fillrect bus (fun i => if i < cfg.XSIZE_PHYS * n then color else framebuffer i)
      { x := 0, y := u16 filled_line_num, width := u16 cfg.XSIZE_PHYS
        height := u16 (if n < cfg.YSIZE_PHYS then n else cfg.YSIZE_PHYS : ℕ) } ++
    fillLoop framebuffer color n hn (filled_line_num + n)
  else []
termination_by cfg.YSIZE_PHYS - filled_line_num

def ili9341_fillscreen (framebuffer : ℕ → BitVec 16) (color : BitVec 16) : List Xfer :=
  match h : cfg.lines with
  | some n => fillLoop cfg bus framebuffer color n (cfg.lines_pos n h) 0
  | none =>
    ili9341_set_column bus 0 (u16 (cfg.XSIZE_PHYS - 1)) ++
    ili9341_set_page bus 0 (u16 (cfg.YSIZE_PHYS - 1)) ++
    ili9341_send_cmd 0x2c ++
    ili9341_send_pixels (List.replicate (cfg.XSIZE_PHYS * cfg.YSIZE_PHYS) color)

def ili9341_lcd_set_pixel (color : BitVec 16) (x y : ℤ) : List Xfer :=
  ili9341_set_column bus (u16 x) (u16 x) ++ ili9341_set_page bus (u16 y) (u16 y) ++
  ili9341_send_cmd 0x2c ++ ili9341_send_pixel_data color

/-- The loop runs while `x1 < x2`. -/
def ili9341_lcd_draw_hline (pixel : BitVec 16) (x1 x2 y : ℤ) : List Xfer :=
  ili9341_set_column bus (u16 x1) (u16 x2) ++ ili9341_set_page bus (u16 y) (u16 y) ++
  ili9341_send_cmd 0x2c ++ ili9341_send_pixels (List.replicate (x2 - x1).toNat pixel)

/-- The loop runs while `y1 < y2`. -/
def ili9341_lcd_draw_vline (pixel : BitVec 16) (x y1 y2 : ℤ) : List Xfer :=
  ili9341_set_column bus (u16 x) (u16 x) ++ ili9341_set_page bus (u16 y1) (u16 y2) ++
  ili9341_send_cmd 0x2c ++ ili9341_send_pixels (List.replicate (y2 - y1).toNat pixel)

def ili9341_lcd_blit_line (pixels : ℕ → BitVec 16) (x y : ℤ) (size : ℕ) : List Xfer :=
  ili9341_set_column bus (u16 x) (u16 (x + size)) ++ ili9341_set_page bus (u16 y) (u16 y) ++
  ili9341_send_cmd 0x2c ++ ili9341_send_pixels ((List.range size).map pixels)

theorem Config.XSIZE_PHYS_le (cfg : Config) : 0 < cfg.XSIZE_PHYS ∧ cfg.XSIZE_PHYS ≤ 320 := by
  rw [Config.XSIZE_PHYS]
  split <;> omega

theorem Config.YSIZE_PHYS_le (cfg : Config) : 0 < cfg.YSIZE_PHYS ∧ cfg.YSIZE_PHYS ≤ 320 := by
  rw [Config.YSIZE_PHYS]
  split <;> omega

theorem u16_natCast {n : ℕ} (hn : n < 65536) : (u16 n).toNat = n := by
  rw [u16, BitVec.toNat_ofInt]
  omega

/-- The last column or row of a rectangle: the one before the first, if it has no extent there. -/
theorem u16_last (a b : BitVec 16) (h : a.toNat + b.toNat ≤ 320) :
    (u16 (a.toNat + b.toNat - 1)).toNat =
      if a.toNat + b.toNat = 0 then 65535 else a.toNat + b.toNat - 1 := by
  rw [u16, BitVec.toNat_ofInt]
  split <;> omega

theorem u16_pred {n : ℕ} (hn : 0 < n) (hn' : n ≤ 65536) : (u16 (n - 1)).toNat = n - 1 := by
  rw [show (n : ℤ) - 1 = (n - 1 : ℕ) by omega]
  exact u16_natCast (by omega)

/-! ### The panel -/

/-- The panel: the bounds of commands `2Ah` and `2Bh`, the command in force and the bytes that
came since, the write pointer and the memory.  `opened` records the windows of the memory writes
so far, the last one first, with the number of pixels each received. -/
structure Display where
  SC : BitVec 16
  EC : BitVec 16
  SP : BitVec 16
  EP : BitVec 16
  command : BitVec 8
  pars : List (BitVec 8)
  pos : ℕ × ℕ
  gram : ℕ × ℕ → BitVec 16
  opened : List (Window × ℕ)

namespace Display

/-- The registers after reset. -/
def reset : Display :=
  { SC := 0, EC := 0x00EF, SP := 0, EP := 0x013F, command := 0, pars := [], pos := (0, 0)
    gram := fun _ => 0, opened := [] }

def win (d : Display) : Window := ⟨d.SC.toNat, d.EC.toNat, d.SP.toNat, d.EP.toNat⟩

/-- A parameter byte; the fourth one sets the bounds. -/
def param (d : Display) (b : BitVec 8) : Display :=
  match d.pars ++ [b] with
  | [s1, s0, e1, e0] =>
    if d.command = 0x2A then { d with SC := s1 ++ s0, EC := e1 ++ e0, pars := [] }
    else if d.command = 0x2B then { d with SP := s1 ++ s0, EP := e1 ++ e0, pars := [] }
    else { d with pars := [] }
  | l => { d with pars := l }

/-- A pixel goes where the pointer stands, and the pointer on. -/
def pixel (d : Display) (v : BitVec 16) : Display :=
  { d with
    gram := Function.update d.gram d.pos v
    pos := d.win.next d.pos
    opened := match d.opened with
      | [] => []
      | (w, n) :: l => (w, n + 1) :: l }

/-- A byte of a pixel over SPI. -/
def pixelByte (d : Display) (b : BitVec 8) : Display :=
  match d.pars with
  | [hi] => { d with pars := [] }.pixel (hi ++ b)
  | _ => { d with pars := [b] }

/-- Command `2Ch` takes the pointer to the window's corner. -/
def recv (bus : Bus) (d : Display) : Xfer → Display
  | .cmd b =>
    if b = 0x2C then
      { d with command := b, pars := [], pos := d.win.origin, opened := (d.win, 0) :: d.opened }
    else { d with command := b, pars := [] }
  | .data16 w =>
    match bus with
    | .spi =>
      if d.command = 0x2C then (d.pixelByte (w.extractLsb' 8 8)).pixelByte (w.extractLsb' 0 8)
      else (d.param (w.extractLsb' 8 8)).param (w.extractLsb' 0 8)
    | .ebi => if d.command = 0x2C then d.pixel w else d.param (w.extractLsb' 0 8)

def run (bus : Bus) (d : Display) (l : List Xfer) : Display := l.foldl (recv bus) d

variable (bus : Bus) (d : Display)

@[simp] theorem run_append (l l' : List Xfer) :
    d.run bus (l ++ l') = (d.run bus l).run bus l' := List.foldl_append

theorem bytes_append (w : BitVec 16) : w.extractLsb' 8 8 ++ w.extractLsb' 0 8 = w :=
  @BitVec.extractLsb'_append_extractLsb' 8 8 w

theorem getLsbD_0xFF {i : ℕ} (hi : i < 8) : (0xFF : BitVec 16).getLsbD i = true := by
  revert i
  decide

theorem low_byte (w : BitVec 16) : (w &&& 0xFF).extractLsb' 0 8 = w.extractLsb' 0 8 := by
  ext i hi
  simpa using fun _ => getLsbD_0xFF hi

theorem high_byte (w : BitVec 16) : (w >>> 8).extractLsb' 0 8 = w.extractLsb' 8 8 := by
  ext i hi
  simp

/-- Both interfaces bring the same bounds to the panel. -/
theorem run_set_column (s e : BitVec 16) :
    d.run bus (ili9341_set_column bus s e) =
      { d with command := 0x2A, pars := [], SC := s, EC := e } := by
  cases bus with
  | spi => simp [run, ili9341_set_column, setRange, ili9341_send_cmd, recv, param, bytes_append]
  | ebi =>
    simp only [run, ili9341_set_column, setRange, ili9341_send_cmd, recv, param, List.foldl,
      List.cons_append, List.nil_append, low_byte]
    simp [high_byte, bytes_append]

theorem run_set_page (s e : BitVec 16) :
    d.run bus (ili9341_set_page bus s e) =
      { d with command := 0x2B, pars := [], SP := s, EP := e } := by
  cases bus with
  | spi => simp [run, ili9341_set_page, setRange, ili9341_send_cmd, recv, param, bytes_append]
  | ebi =>
    simp only [run, ili9341_set_page, setRange, ili9341_send_cmd, recv, param, List.foldl,
      List.cons_append, List.nil_append, low_byte]
    simp [high_byte, bytes_append]

/-- A pixel is one datum on either interface. -/
theorem recv_pixel (v : BitVec 16) (hc : d.command = 0x2C) (hp : d.pars = []) :
    d.recv bus (.data16 v) = d.pixel v := by
  cases bus with
  | spi => simp [recv, pixelByte, pixel, hc, hp, win, bytes_append]
  | ebi => simp [recv, hc]

theorem run_pixels {w : Window} {n : ℕ} {rest : List (Window × ℕ)} : ∀ (px : List (BitVec 16))
    (d : Display), d.command = 0x2C → d.pars = [] → d.opened = (w, n) :: rest →
    d.run bus (ili9341_send_pixels px) =
      { d with
        gram := d.win.paint d.gram d.pos px
        pos := d.win.next^[px.length] d.pos
        opened := (w, n + px.length) :: rest } := by
  intro px
  induction px generalizing n with
  | nil =>
    intro d _ _ ho
    simp [run, ili9341_send_pixels, Window.paint, ← ho]
  | cons v px ih =>
    intro d hc hp ho
    have hstep : d.run bus (ili9341_send_pixels (v :: px)) =
        (d.pixel v).run bus (ili9341_send_pixels px) := by
      simp only [run, ili9341_send_pixels, List.map_cons, List.foldl_cons,
        recv_pixel bus d v hc hp]
    have ho' : (d.pixel v).opened = (w, n + 1) :: rest := by simp [pixel, ho]
    rw [hstep, ih (d.pixel v) hc hp ho']
    simp [pixel, win, Window.paint, Nat.add_assoc, Nat.add_comm 1]

/-- **A window and its pixels**: the pixels are painted from the corner of the window on. -/
theorem recv_window (s e s' e' : BitVec 16) (px : List (BitVec 16)) :
    let w : Window := ⟨s.toNat, e.toNat, s'.toNat, e'.toNat⟩
    let d' := d.run bus (ili9341_set_column bus s e ++ ili9341_set_page bus s' e' ++
      ili9341_send_cmd 0x2c ++ ili9341_send_pixels px)
    d'.opened = (w, px.length) :: d.opened ∧ d'.gram = w.paint d.gram w.origin px := by
  intro w d'
  have hcmd : ∀ d0 : Display, d0.run bus (ili9341_send_cmd 0x2c) =
      { d0 with
        command := 0x2C, pars := [], pos := d0.win.origin
        opened := (d0.win, 0) :: d0.opened } := fun d0 => rfl
  simp only [d', run_append, run_set_column, run_set_page, hcmd]
  rw [run_pixels bus px _ rfl rfl rfl]
  simp [w, win]

/-- A window filled with one colour. -/
theorem recv_solid {s e s' e' : BitVec 16} {px : List (BitVec 16)} {w : Window}
    {color : BitVec 16} (hw : w = ⟨s.toNat, e.toNat, s'.toNat, e'.toNat⟩)
    (hlen : px.length = w.area) (hcolor : ∀ v ∈ px, v = color) :
    let d' := d.run bus (ili9341_set_column bus s e ++ ili9341_set_page bus s' e' ++
      ili9341_send_cmd 0x2c ++ ili9341_send_pixels px)
    d'.opened = (w, w.area) :: d.opened ∧
      ∀ p, d'.gram p = if w.Has p then color else d.gram p := by
  subst hw
  intro d'
  obtain ⟨hopened, hgram⟩ := recv_window bus d s e s' e' px
  rw [hlen] at hopened
  refine ⟨hopened, fun p => ?_⟩
  rw [hgram, Window.paint_apply _ _ _ _ hlen.le]
  by_cases hp : Window.Has ⟨s.toNat, e.toNat, s'.toNat, e'.toNat⟩ p
  · have hidx : Window.index ⟨s.toNat, e.toNat, s'.toNat, e'.toNat⟩ p < px.length := by
      rw [hlen]
      exact Window.index_lt hp
    rw [if_pos hp, if_pos hp, List.getElem?_eq_getElem hidx]
    exact hcolor _ (List.getElem_mem hidx)
  · rw [if_neg hp, if_neg hp]

end Display

/-! ### Drawing exactly -/

/-- A call of a drawing function, with its arguments. -/
inductive Draw
  | rect (pixels : ℕ → BitVec 16) (r : rt_device_rect_info)
  | set_pixel (color : BitVec 16) (x y : ℤ)
  | hline (pixel : BitVec 16) (x1 x2 y : ℤ)
  | vline (pixel : BitVec 16) (x y1 y2 : ℤ)
  | blit_line (pixels : ℕ → BitVec 16) (x y : ℤ) (size : ℕ)
  | screen (framebuffer : ℕ → BitVec 16) (color : BitVec 16)

namespace Draw

/-- What the call sends. -/
def sends : Draw → List Xfer
  | rect pixels r => ili9341_fillrect bus pixels r
  | set_pixel color x y => ili9341_lcd_set_pixel bus color x y
  | hline pixel x1 x2 y => ili9341_lcd_draw_hline bus pixel x1 x2 y
  | vline pixel x y1 y2 => ili9341_lcd_draw_vline bus pixel x y1 y2
  | blit_line pixels x y size => ili9341_lcd_blit_line bus pixels x y size
  | screen framebuffer color => ili9341_fillscreen cfg bus framebuffer color

/-- The coordinates of the call lie on the screen. -/
def OnScreen : Draw → Prop
  | rect _ r => r.x.toNat + r.width.toNat ≤ cfg.XSIZE_PHYS ∧
      r.y.toNat + r.height.toNat ≤ cfg.YSIZE_PHYS
  | set_pixel _ x y => (0 ≤ x ∧ x < cfg.XSIZE_PHYS) ∧ 0 ≤ y ∧ y < cfg.YSIZE_PHYS
  | hline _ x1 x2 y => ((0 ≤ x1 ∧ x1 < cfg.XSIZE_PHYS) ∧ 0 ≤ x2 ∧ x2 < cfg.XSIZE_PHYS) ∧
      0 ≤ y ∧ y < cfg.YSIZE_PHYS
  | vline _ x y1 y2 => (0 ≤ x ∧ x < cfg.XSIZE_PHYS) ∧
      (0 ≤ y1 ∧ y1 < cfg.YSIZE_PHYS) ∧ 0 ≤ y2 ∧ y2 < cfg.YSIZE_PHYS
  | blit_line _ x y size => (0 ≤ x ∧ x + size ≤ cfg.XSIZE_PHYS) ∧ 0 ≤ y ∧ y < cfg.YSIZE_PHYS
  | screen _ _ => True

/-- The colour the call asks for at a point, none outside its shape.  The ends of a line belong
to it. -/
def asks : Draw → ℕ × ℕ → Option (BitVec 16)
  | rect pixels r, p =>
    if (r.x.toNat ≤ p.1 ∧ p.1 < r.x.toNat + r.width.toNat) ∧
        r.y.toNat ≤ p.2 ∧ p.2 < r.y.toNat + r.height.toNat then
      some (pixels ((p.2 - r.y.toNat) * r.width.toNat + (p.1 - r.x.toNat)))
    else none
  | set_pixel color x y, p => if (p.1 : ℤ) = x ∧ (p.2 : ℤ) = y then some color else none
  | hline pixel x1 x2 y, p =>
    if (x1 ≤ p.1 ∧ (p.1 : ℤ) ≤ x2) ∧ (p.2 : ℤ) = y then some pixel else none
  | vline pixel x y1 y2, p =>
    if (p.1 : ℤ) = x ∧ y1 ≤ p.2 ∧ (p.2 : ℤ) ≤ y2 then some pixel else none
  | blit_line pixels x y size, p =>
    if (x ≤ p.1 ∧ (p.1 : ℤ) < x + size) ∧ (p.2 : ℤ) = y then some (pixels (p.1 - x).toNat)
    else none
  | screen _ color, p => if p.1 < cfg.XSIZE_PHYS ∧ p.2 < cfg.YSIZE_PHYS then some color else none

/-- **Drawing exactly**: every window of the call receives as many pixels as it has, and of the
points on the screen those of the shape get their colour and the others keep theirs. -/
def Exact (d : Display) (op : Draw) : Prop :=
  let d' := { d with opened := [] }.run bus (op.sends cfg bus)
  (∀ e ∈ d'.opened, e.2 = e.1.area) ∧
  ∀ p : ℕ × ℕ, p.1 < cfg.XSIZE_PHYS → p.2 < cfg.YSIZE_PHYS →
    d'.gram p = (op.asks cfg p).getD (d.gram p)

/-- The calls that draw exactly: a line only where it has no point, a blit never, a rectangle
unless it is without extent at the first column or row. -/
def Fits : Draw → Prop
  | rect _ r => (0 < r.width ∧ 0 < r.height) ∨ (r.width = 0 ∧ 0 < r.x) ∨ (r.height = 0 ∧ 0 < r.y)
  | set_pixel _ _ _ => True
  | hline _ x1 x2 _ => x2 < x1
  | vline _ _ y1 y2 => y2 < y1
  | blit_line _ _ _ _ => False
  | screen _ _ => True

variable {cfg bus} {d : Display} {op : Draw}

/-- A call with one window. -/
theorem exact_of_window {s e s' e' : BitVec 16} {px : List (BitVec 16)}
    (hs : op.sends cfg bus = ili9341_set_column bus s e ++ ili9341_set_page bus s' e' ++
      ili9341_send_cmd 0x2c ++ ili9341_send_pixels px)
    (hlen : px.length = Window.area ⟨s.toNat, e.toNat, s'.toNat, e'.toNat⟩)
    (hasks : ∀ p, op.asks cfg p =
      if Window.Has ⟨s.toNat, e.toNat, s'.toNat, e'.toNat⟩ p then
        px[Window.index ⟨s.toNat, e.toNat, s'.toNat, e'.toNat⟩ p]? else none) :
    op.Exact cfg bus d := by
  obtain ⟨hopened, hgram⟩ := Display.recv_window bus { d with opened := [] } s e s' e' px
  rw [Exact, hs]
  refine ⟨fun x hx => ?_, fun p _ _ => ?_⟩
  · rw [hopened, List.mem_singleton] at hx
    rw [hx]
    exact hlen
  · rw [hgram, Window.paint_apply _ _ _ _ hlen.le, hasks]
    split
    · rfl
    · rfl

/-- The count alone already rules a call out. -/
theorem not_exact_of_window {s e s' e' : BitVec 16} {px : List (BitVec 16)}
    (hs : op.sends cfg bus = ili9341_set_column bus s e ++ ili9341_set_page bus s' e' ++
      ili9341_send_cmd 0x2c ++ ili9341_send_pixels px)
    (hlen : px.length ≠ Window.area ⟨s.toNat, e.toNat, s'.toNat, e'.toNat⟩) :
    ¬ op.Exact cfg bus d := by
  obtain ⟨hopened, -⟩ := Display.recv_window bus { d with opened := [] } s e s' e' px
  rw [Exact, hs]
  rintro ⟨hcount, -⟩
  refine hlen (hcount (_, px.length) ?_)
  rw [hopened]
  exact List.mem_singleton_self _

/-- A list of the pixels of a window, by their number. -/
theorem range_getElem? {f : ℕ → BitVec 16} {n i : ℕ} (hi : i < n) :
    ((List.range n).map f)[i]? = some (f i) := by
  rw [List.getElem?_map, List.getElem?_range hi]
  rfl

theorem exact_set_pixel (color : BitVec 16) {x y : ℤ} (h : (set_pixel color x y).OnScreen cfg) :
    (set_pixel color x y).Exact cfg bus d := by
  obtain ⟨⟨hx0, hx⟩, hy0, hy⟩ := h
  obtain ⟨x, rfl⟩ := Int.eq_ofNat_of_zero_le hx0
  obtain ⟨y, rfl⟩ := Int.eq_ofNat_of_zero_le hy0
  have hX := Config.XSIZE_PHYS_le cfg
  have hY := Config.YSIZE_PHYS_le cfg
  have hux : (u16 (x : ℤ)).toNat = x := u16_natCast (by omega)
  have huy : (u16 (y : ℤ)).toNat = y := u16_natCast (by omega)
  refine @exact_of_window _ _ _ _ _ _ _ _ [color] rfl ?_ fun p => ?_
  · rw [hux, huy]
    simp [Window.area, Window.width, Window.height]
  · rw [hux, huy]
    by_cases hp : p.1 = x ∧ p.2 = y
    · simp [asks, Window.Has, Window.index, hp]
    · rw [asks, if_neg (by omega), if_neg (by rw [Window.has_mk]; omega)]

/-- A line with the ends `a` and `b` opens a window of `b + 1 - a` points for `b - a` pixels. -/
theorem exact_line {s e s' e' : BitVec 16} {pixel : BitVec 16} {a b : ℕ}
    (hs : op.sends cfg bus = ili9341_set_column bus s e ++ ili9341_set_page bus s' e' ++
      ili9341_send_cmd 0x2c ++
      ili9341_send_pixels (List.replicate ((b : ℤ) - a).toNat pixel))
    (harea : Window.area ⟨s.toNat, e.toNat, s'.toNat, e'.toNat⟩ = b + 1 - a)
    (hasks : b < a → ∀ p, op.asks cfg p = none) :
    op.Exact cfg bus d ↔ b < a := by
  constructor
  · intro hexact
    by_contra hle
    refine not_exact_of_window hs ?_ hexact
    rw [List.length_replicate, harea]
    omega
  · intro hlt
    have harea0 : Window.area ⟨s.toNat, e.toNat, s'.toNat, e'.toNat⟩ = 0 := by omega
    refine exact_of_window hs ?_ fun p => ?_
    · rw [List.length_replicate, harea0]
      omega
    · rw [hasks hlt, if_neg]
      intro hp
      have hidx := Window.index_lt hp
      omega

theorem exact_hline (pixel : BitVec 16) {x1 x2 y : ℤ}
    (h : (hline pixel x1 x2 y).OnScreen cfg) :
    (hline pixel x1 x2 y).Exact cfg bus d ↔ x2 < x1 := by
  obtain ⟨⟨⟨hx10, hx1⟩, hx20, hx2⟩, -⟩ := h
  obtain ⟨x1, rfl⟩ := Int.eq_ofNat_of_zero_le hx10
  obtain ⟨x2, rfl⟩ := Int.eq_ofNat_of_zero_le hx20
  have hX := Config.XSIZE_PHYS_le cfg
  rw [exact_line rfl ?_ ?_, Int.ofNat_lt]
  · simp [Window.area, Window.width, Window.height, u16_natCast (show x1 < 65536 by omega),
      u16_natCast (show x2 < 65536 by omega)]
  · intro hlt p
    rw [asks, if_neg (by omega)]

theorem exact_vline (pixel : BitVec 16) {x y1 y2 : ℤ}
    (h : (vline pixel x y1 y2).OnScreen cfg) :
    (vline pixel x y1 y2).Exact cfg bus d ↔ y2 < y1 := by
  obtain ⟨-, ⟨hy10, hy1⟩, hy20, hy2⟩ := h
  obtain ⟨y1, rfl⟩ := Int.eq_ofNat_of_zero_le hy10
  obtain ⟨y2, rfl⟩ := Int.eq_ofNat_of_zero_le hy20
  have hY := Config.YSIZE_PHYS_le cfg
  rw [exact_line rfl ?_ ?_, Int.ofNat_lt]
  · simp [Window.area, Window.width, Window.height, u16_natCast (show y1 < 65536 by omega),
      u16_natCast (show y2 < 65536 by omega)]
  · intro hlt p
    rw [asks, if_neg (by omega)]

/-- The window of a blit has a column more than the blit has pixels. -/
theorem not_exact_blit_line (pixels : ℕ → BitVec 16) {x y : ℤ} {size : ℕ}
    (h : (blit_line pixels x y size).OnScreen cfg) :
    ¬ (blit_line pixels x y size).Exact cfg bus d := by
  obtain ⟨⟨hx0, hx⟩, -⟩ := h
  obtain ⟨x, rfl⟩ := Int.eq_ofNat_of_zero_le hx0
  have hX := Config.XSIZE_PHYS_le cfg
  have hlast : (u16 ((x : ℤ) + size)).toNat = x + size := by
    rw [← Nat.cast_add]
    exact u16_natCast (by omega)
  refine not_exact_of_window rfl ?_
  simp only [Window.area, Window.width, Window.height, hlast,
    u16_natCast (show x < 65536 by omega), List.length_map, List.length_range,
    Nat.add_sub_cancel_left, Nat.mul_one]
  omega

/-- The extent of a rectangle, as the panel takes it. -/
theorem rect_side (a b : BitVec 16) (h : a.toNat + b.toNat ≤ 320) :
    (u16 (a.toNat + b.toNat - 1)).toNat + 1 - a.toNat =
      if a.toNat + b.toNat = 0 then 65536 else b.toNat := by
  rw [u16_last a b h]
  split <;> omega

theorem exact_rect (pixels : ℕ → BitVec 16) {r : rt_device_rect_info}
    (h : (rect pixels r).OnScreen cfg) :
    (rect pixels r).Exact cfg bus d ↔ (rect pixels r).Fits := by
  obtain ⟨hx, hy⟩ := h
  have hX := Config.XSIZE_PHYS_le cfg
  have hY := Config.YSIZE_PHYS_le cfg
  have hW := rect_side r.x r.width (by omega)
  have hH := rect_side r.y r.height (by omega)
  have hfits : (rect pixels r).Fits ↔ (0 < r.width.toNat ∧ 0 < r.height.toNat) ∨
      (r.width.toNat = 0 ∧ 0 < r.x.toNat) ∨ (r.height.toNat = 0 ∧ 0 < r.y.toNat) := by
    simp [Fits, BitVec.lt_def, ← BitVec.toNat_inj]
  rw [hfits]
  constructor
  · intro hexact
    by_contra hne
    refine not_exact_of_window rfl ?_ hexact
    rw [List.length_map, List.length_range, Window.area, Window.width, Window.height, hW, hH]
    by_cases hw : r.x.toNat + r.width.toNat = 0
    · -- the window has 65536 columns, and at least one page
      rw [if_pos hw, show r.width.toNat = 0 by omega, Nat.mul_zero]
      split <;> omega
    · rw [if_neg hw, if_pos (by omega), show r.height.toNat = 0 by omega, Nat.zero_mul]
      omega
  · intro hfit
    have hlen : r.height.toNat * r.width.toNat =
        (if r.x.toNat + r.width.toNat = 0 then 65536 else r.width.toNat) *
          (if r.y.toNat + r.height.toNat = 0 then 65536 else r.height.toNat) := by
      rcases hfit with ⟨hw, hh⟩ | ⟨hw, hx0⟩ | ⟨hh, hy0⟩
      · rw [if_neg (by omega), if_neg (by omega), Nat.mul_comm]
      · rw [if_neg (by omega), hw, Nat.mul_zero, Nat.zero_mul]
      · have hy : ¬ r.y.toNat + r.height.toNat = 0 := by omega
        rw [if_neg hy, hh, Nat.zero_mul, Nat.mul_zero]
    have harea : ((List.range (r.height.toNat * r.width.toNat)).map pixels).length =
        Window.area ⟨r.x.toNat, (u16 (r.x.toNat + r.width.toNat - 1)).toNat,
          r.y.toNat, (u16 (r.y.toNat + r.height.toNat - 1)).toNat⟩ := by
      rw [List.length_map, List.length_range, Window.area, Window.width, Window.height, hW, hH]
      exact hlen
    refine exact_of_window rfl harea fun p => ?_
    have hcol := u16_last r.x r.width (by omega)
    have hrow := u16_last r.y r.height (by omega)
    by_cases hp : Window.Has ⟨r.x.toNat, (u16 (r.x.toNat + r.width.toNat - 1)).toNat,
        r.y.toNat, (u16 (r.y.toNat + r.height.toNat - 1)).toNat⟩ p
    · -- a window with a point has an area, so both sides of the rectangle have an extent
      have hidx := Window.index_lt hp
      rw [← harea, List.length_map, List.length_range] at hidx
      have hh : 0 < r.height.toNat := Nat.pos_of_mul_pos_right (Nat.zero_lt_of_lt hidx)
      have hw : 0 < r.width.toNat := Nat.pos_of_mul_pos_left (Nat.zero_lt_of_lt hidx)
      rw [if_pos hp, range_getElem? hidx, asks, if_pos, Window.index, Window.width, hW,
        if_neg (by omega)]
      rw [Window.has_mk, hcol, hrow, if_neg (by omega), if_neg (by omega)] at hp
      omega
    · rw [if_neg hp, asks, if_neg]
      intro hin
      refine hp ?_
      rw [Window.has_mk, hcol, hrow, if_neg (by omega), if_neg (by omega)]
      omega

/-- A turn of the loop opens the `h` lines from `y` on. -/
theorem recv_lines {f : ℕ → BitVec 16} {color : BitVec 16} {y h : ℕ} (hy : y < 320)
    (hh : 0 < h) (hh' : h ≤ 320) (hf : ∀ i < cfg.XSIZE_PHYS * h, f i = color) (d : Display) :
    let w : Window := ⟨0, cfg.XSIZE_PHYS - 1, y, y + h - 1⟩
    let d' := d.run bus (ili9341_fillrect bus f
      { x := 0, y := u16 y, width := u16 cfg.XSIZE_PHYS, height := u16 h })
    d'.opened = (w, w.area) :: d.opened ∧
      ∀ p, d'.gram p = if w.Has p then color else d.gram p := by
  intro w
  have hX := Config.XSIZE_PHYS_le cfg
  have huy : (u16 (y : ℤ)).toNat = y := u16_natCast (by omega)
  have huh : (u16 (h : ℤ)).toNat = h := u16_natCast (by omega)
  have huX : (u16 (cfg.XSIZE_PHYS : ℤ)).toNat = cfg.XSIZE_PHYS := u16_natCast (by omega)
  have hcol : (u16 ((0 : BitVec 16).toNat + (u16 (cfg.XSIZE_PHYS : ℤ)).toNat - 1)).toNat =
      cfg.XSIZE_PHYS - 1 := by
    rw [huX, show (0 : BitVec 16).toNat = 0 from rfl, Nat.cast_zero, zero_add]
    exact u16_pred hX.1 (by omega)
  have hrow : (u16 ((u16 (y : ℤ)).toNat + (u16 (h : ℤ)).toNat - 1)).toNat = y + h - 1 := by
    rw [huy, huh, ← Nat.cast_add]
    exact u16_pred (by omega) (by omega)
  refine Display.recv_solid bus d ?_ ?_ ?_
  · rw [Window.mk.injEq]
    exact ⟨rfl, hcol.symm, huy.symm, hrow.symm⟩
  · rw [List.length_map, List.length_range, huh, huX, Nat.mul_comm]
    simp only [w, Window.area, Window.width, Window.height]
    congr 1 <;> omega
  · intro v hv
    obtain ⟨i, hi, rfl⟩ := List.mem_map.mp hv
    rw [List.mem_range, huh, huX, Nat.mul_comm] at hi
    exact hf i hi

variable (cfg bus) in
/-- **The loop over the line buffers**: its windows are filled, and the lines from
`filled_line_num` on have the colour. -/
theorem recv_fillLoop (framebuffer : ℕ → BitVec 16) (color : BitVec 16) {n : ℕ} (hn : 0 < n)
    (filled_line_num : ℕ) : ∀ d : Display, (∀ e ∈ d.opened, e.2 = e.1.area) →
    let d' := d.run bus (fillLoop cfg bus framebuffer color n hn filled_line_num)
    (∀ e ∈ d'.opened, e.2 = e.1.area) ∧ ∀ p : ℕ × ℕ, p.1 < cfg.XSIZE_PHYS → p.2 < cfg.YSIZE_PHYS →
      d'.gram p = if filled_line_num ≤ p.2 then color else d.gram p := by
  have hX := Config.XSIZE_PHYS_le cfg
  have hY := Config.YSIZE_PHYS_le cfg
  induction filled_line_num using fillLoop.induct cfg n hn with
  | case1 y hlt ih =>
    intro d hd
    have hbuf : ∀ i < cfg.XSIZE_PHYS * (if n < cfg.YSIZE_PHYS then n else cfg.YSIZE_PHYS),
        (if i < cfg.XSIZE_PHYS * n then color else framebuffer i) = color := by
      intro i hi
      refine if_pos (Nat.lt_of_lt_of_le hi (Nat.mul_le_mul_left _ ?_))
      split <;> omega
    obtain ⟨hopened, hgram⟩ := @recv_lines cfg bus _ color y _ (by omega)
      (by split <;> omega) (by split <;> omega) hbuf d
    rw [fillLoop, if_pos hlt]
    simp only [Display.run_append]
    obtain ⟨hrest, hlater⟩ := ih _ (by
      rw [hopened]
      intro e he
      rcases List.mem_cons.mp he with rfl | he
      · rfl
      · exact hd e he)
    refine ⟨hrest, fun p hx hy => ?_⟩
    -- a line of this turn keeps what the later turns do not write again
    rw [hlater p hx hy, hgram p]
    by_cases h1 : y + n ≤ p.2
    · rw [if_pos h1, if_pos (by omega)]
    · rw [if_neg h1]
      refine if_congr ?_ rfl rfl
      rw [Window.has_mk]
      split <;> omega
  | case2 y hge =>
    intro d hd
    rw [fillLoop, if_neg hge]
    refine ⟨hd, fun p _ hp => ?_⟩
    rw [if_neg (by omega)]
    rfl

theorem exact_screen (framebuffer : ℕ → BitVec 16) (color : BitVec 16) (d : Display) :
    (screen framebuffer color).Exact cfg bus d := by
  have hX := Config.XSIZE_PHYS_le cfg
  have hY := Config.YSIZE_PHYS_le cfg
  rw [Exact, sends, ili9341_fillscreen]
  split
  · obtain ⟨hcount, hgram⟩ := recv_fillLoop cfg bus framebuffer color
      (cfg.lines_pos _ ‹_›) 0 { d with opened := [] } (by simp)
    refine ⟨hcount, fun p hx hy => ?_⟩
    rw [hgram p hx hy, if_pos (Nat.zero_le _), asks, if_pos ⟨hx, hy⟩]
    rfl
  · obtain ⟨hopened, hgram⟩ := @Display.recv_solid bus { d with opened := [] } 0
      (u16 (cfg.XSIZE_PHYS - 1)) 0 (u16 (cfg.YSIZE_PHYS - 1))
      (List.replicate (cfg.XSIZE_PHYS * cfg.YSIZE_PHYS) color)
      ⟨0, cfg.XSIZE_PHYS - 1, 0, cfg.YSIZE_PHYS - 1⟩ color
      (by rw [u16_pred hX.1 (by omega), u16_pred hY.1 (by omega)]; rfl)
      (by
        simp only [List.length_replicate, Window.area, Window.width, Window.height]
        congr 1 <;> omega)
      (fun v hv => List.eq_of_mem_replicate hv)
    refine ⟨fun e he => ?_, fun p hx hy => ?_⟩
    · rw [hopened, List.mem_singleton] at he
      rw [he]
    · rw [hgram p, if_pos (by rw [Window.has_mk]; omega), asks, if_pos ⟨hx, hy⟩]
      rfl

/-- **Which calls draw exactly.**  On the screen, a call sends exactly the pixels of its windows,
and so draws its shape and nothing else, if and only if it fits. -/
theorem exact_iff (cfg : Config) (bus : Bus) (d : Display) (op : Draw) (h : op.OnScreen cfg) :
    op.Exact cfg bus d ↔ op.Fits := by
  cases op with
  | rect pixels r => exact exact_rect pixels h
  | set_pixel color x y => exact iff_of_true (exact_set_pixel color h) trivial
  | hline pixel x1 x2 y => exact exact_hline pixel h
  | vline pixel x y1 y2 => exact exact_vline pixel h
  | blit_line pixels x y size => exact iff_of_false (not_exact_blit_line pixels h) id
  | screen framebuffer color => exact iff_of_true (exact_screen framebuffer color d) trivial

/-- The default orientation, without a framebuffer. -/
def landscape : Config := ⟨true, none, fun _ h => by cases h⟩

/-- A rectangle in the lower right corner. -/
theorem exact_iff_corner :
    (rect (fun _ => 0xf800) { x := 310, y := 230, width := 10, height := 10 }).Exact landscape .spi
      Display.reset :=
  (exact_iff landscape .spi Display.reset
    (rect (fun _ => 0xf800) { x := 310, y := 230, width := 10, height := 10 })
    ⟨by decide, by decide⟩).mpr (.inl ⟨by decide, by decide⟩)

/-- The line of `lcd_test` from `x = 100` to `120`: a window of 21 points gets 20 pixels. -/
theorem hline_stale :
    let op := hline 0xffff 100 120 100
    op.OnScreen landscape ∧
      (Display.reset.run .spi (op.sends landscape .spi)).opened = [(⟨100, 120, 100, 100⟩, 20)] ∧
      Window.area ⟨100, 120, 100, 100⟩ = 21 ∧ ¬ op.Exact landscape .spi Display.reset := by
  intro op
  have hscreen : op.OnScreen landscape := by
    refine ⟨⟨⟨?_, ?_⟩, ?_, ?_⟩, ?_, ?_⟩ <;> decide
  refine ⟨hscreen, ?_, rfl, fun hexact => ?_⟩
  · exact (Display.recv_window .spi Display.reset 100 120 100 100 (List.replicate 20 0xffff)).1
  · exact absurd ((exact_hline 0xffff hscreen).mp hexact) (by decide)

end Draw

end Ili9341
