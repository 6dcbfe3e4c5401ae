import Mathlib.Tactic.SplitIfs
import TeachingKernel.Console.Model

/-!
# The console is a scrolling terminal

The terminal of this file is the purpose of the class in its own terms: a cursor
that is always on the screen, cells that hold a character and its attribute, and
a line feed that scrolls when there is no row left. Each character that `putch`
handles is one step of the terminal.
-/

namespace TeachingKernel.Display

open ForLoop

structure Cell where
  glyph : Byte
  color : Byte
  deriving DecidableEq, Repr

def Cell.word (c : Cell) : BitVec 16 := c.color ++ c.glyph

structure Terminal where
  row : Fin 25
  col : Fin 80
  screen : Fin 25 → Fin 80 → Cell

namespace Terminal

def blankCell (color : Byte) : Cell := ⟨0x20, color⟩

def blank (color : Byte) : Terminal := ⟨0, 0, fun _ _ => blankCell color⟩

/-- Rows 1 to 24 become rows 0 to 23, the last row becomes blank. -/
def scrolled (color : Byte) (screen : Fin 25 → Fin 80 → Cell) : Fin 25 → Fin 80 → Cell :=
  fun r k => if h : r.val + 1 < 25 then screen ⟨r.val + 1, h⟩ k else blankCell color

def newline (color : Byte) (t : Terminal) : Terminal :=
  if h : t.row.val + 1 < 25 then { t with row := ⟨t.row.val + 1, h⟩, col := 0 }
  else { t with col := 0, screen := scrolled color t.screen }

/-- The cursor goes to a column, or to the next line where the row has no such column. -/
def moveTo (color : Byte) (t : Terminal) (x : Nat) : Terminal :=
  if h : x < 80 then { t with col := ⟨x, h⟩ } else t.newline color

def put (color : Byte) (t : Terminal) (glyph : Byte) : Terminal :=
  { t with
    screen := Function.update t.screen t.row
      (Function.update (t.screen t.row) t.col ⟨glyph, color⟩) }

def Printable (b : Byte) : Prop := 0x20 ≤ b.toNat ∧ b.toNat < 0x80

instance (b : Byte) : Decidable (Printable b) := inferInstanceAs (Decidable (_ ∧ _))

/-- Bytes that are neither printable nor one of the five controls are ignored. -/
def feed (color : Byte) (t : Terminal) (b : Byte) : Terminal :=
  if b = 0x08#8 then t.moveTo color (t.col.val - 1)
  else if b = 0x09#8 then t.moveTo color ((t.col.val / 8 + 1) * 8)
  else if b = 0x0D#8 then t.moveTo color 0
  else if b = 0x0A#8 then t.newline color
  else if Printable b then (t.put color b).moveTo color (t.col.val + 1)
  else t

end Terminal

namespace Console

def color (c : Console) : Byte := c.attrib.setWidth 8

/-- The units of the text memory are the cells of the terminal, row by row, and only
they have been stored to. -/
structure ShowsScreen (c : Console) (screen : Fin 25 → Fin 80 → Cell) : Prop where
  cells : ∀ (r : Fin 25) (k : Fin 80), c.text.unit (r.val * 80 + k.val) = (screen r k).word
  within : c.text.StoredWithin 0 (2 * (80 * 25))

structure Shows (c : Console) (t : Terminal) : Prop extends c.ShowsScreen t.screen where
  col : c.csrX = t.col.val
  row : c.csrY = t.row.val

variable {c : Console} {t : Terminal}

/-- The terminal keeps its cursor on the screen, so the console does. -/
theorem Shows.cursor (h : c.Shows t) : 0 ≤ c.csrX ∧ c.csrX < 80 ∧ 0 ≤ c.csrY ∧ c.csrY < 25 := by
  rw [h.col, h.row]
  omega

/-! ## The stored values -/

theorem setWidth_or_shiftLeft (ch : Byte) (attrib : Word) (hch : ch.toNat < 0x80) :
    (ch.signExtend 32 ||| attrib <<< 8).setWidth 16 = attrib.setWidth 8 ++ ch := by
  have hmsb : ch.msb = false := by
    rw [BitVec.msb_eq_decide]
    exact decide_eq_false (by omega)
  apply BitVec.eq_of_getLsbD_eq
  intro i hi
  rw [BitVec.getLsbD_append, BitVec.getLsbD_setWidth, BitVec.getLsbD_or, BitVec.getLsbD_signExtend,
    BitVec.getLsbD_shiftLeft]
  by_cases h : i < 8
  · simp [h, hi, show i < 32 by omega]
  · simp [h, hi, hmsb, show i < 32 by omega, show i - 8 < 8 by omega]

theorem blank_eq (c : Console) : blank c.attrib = (Terminal.blankCell c.color).word :=
  setWidth_or_shiftLeft 0x20 c.attrib (by decide)

theorem cell_eq {ch : Byte} (hch : Terminal.Printable ch) :
    cell c.attrib ch = (Cell.mk ch c.color).word :=
  setWidth_or_shiftLeft ch c.attrib hch.2

/-- The comparison `_c >= ' '` is signed, which leaves out the bytes from 0x80 on. -/
theorem sle_iff_printable (ch : Byte) : (0x20#8).sle ch = true ↔ Terminal.Printable ch := by
  rw [BitVec.sle_iff_toInt_le, BitVec.toInt_eq_toNat_cond ch, Terminal.Printable]
  have hlt := ch.isLt
  have hspace : (0x20#8).toInt = 0x20 := rfl
  rw [hspace]
  by_cases h : 2 * ch.toNat < 2 ^ 8
  · rw [if_pos h]
    omega
  · rw [if_neg h]
    omega

/-! ## Scrolling and the end of the row -/

theorem scroll_of_row (h : c.csrY < 25) : c.scroll = c := if_neg (by omega)

/-- One row past the end: rows move up by one and the last row is blank. -/
theorem scroll_showsScreen {screen : Fin 25 → Fin 80 → Cell} (hs : c.ShowsScreen screen)
    (hrow : c.csrY = 25) :
    c.scroll.ShowsScreen (Terminal.scrolled c.color screen) ∧ c.scroll.csrX = c.csrX ∧
      c.scroll.csrY = 24 := by
  have hscroll : c.scroll = { c with
      text := (c.text.copy (2 * 0) (2 * 80) (2 * 1920)).fill 1920 (blank c.attrib) 80
      csrY := 24 } := by
    rw [scroll, hrow]
    rfl
  rw [hscroll]
  refine ⟨⟨fun r k => ?_, ?_⟩, rfl, rfl⟩
  · rw [ByteBuffer.unit_fill, ByteBuffer.unit_copy (by omega), Terminal.scrolled]
    by_cases h : r.val + 1 < 25
    · rw [if_neg (by omega), if_pos (by omega), dif_pos h, ← hs.cells ⟨r.val + 1, h⟩ k]
      congr 1
      push_cast
      omega
    · rw [if_pos (by omega), dif_neg h, blank_eq]
  · exact ByteBuffer.fill_within (ByteBuffer.copy_within hs.within (by omega) (by omega)) (by omega)
      (by omega)

theorem moveCursor_shows : (moveCursor c).Shows t ↔ c.Shows t :=
  ⟨fun h => ⟨⟨h.cells, h.within⟩, h.col, h.row⟩, fun h => ⟨⟨h.cells, h.within⟩, h.col, h.row⟩⟩

/-- At the start of the row below the terminal's: a new line, with scrolling where needed. -/
theorem scroll_shows_newline (hs : c.ShowsScreen t.screen) (hcol : c.csrX = 0)
    (hrow : c.csrY = t.row.val + 1) : c.scroll.Shows (t.newline c.color) := by
  unfold Terminal.newline
  by_cases h : t.row.val + 1 < 25
  · rw [dif_pos h, scroll_of_row (by omega)]
    exact ⟨hs, hcol, by simpa using hrow⟩
  · rw [dif_neg h]
    obtain ⟨hscreen, hx, hy⟩ := scroll_showsScreen hs (by omega)
    have hlast : t.row.val = 24 := by omega
    exact ⟨hscreen, hx.trans hcol, by rw [hy, hlast]; rfl⟩

/-- The tail of `putch` brings a column past the end of the row to the next line. -/
theorem scroll_wrap_shows_moveTo {x : Nat} (hs : c.ShowsScreen t.screen) (hcol : c.csrX = x)
    (hrow : c.csrY = t.row.val) : (scroll (wrap c)).Shows (t.moveTo c.color x) := by
  unfold Terminal.moveTo wrap
  by_cases h : x < 80
  · rw [dif_pos h, if_neg (by omega), scroll_of_row (by omega)]
    exact ⟨hs, hcol, hrow⟩
  · rw [dif_neg h, if_pos (by omega)]
    exact scroll_shows_newline (c := { c with csrX := 0, csrY := c.csrY + 1 }) ⟨hs.cells, hs.within⟩
      rfl (by simp [hrow])

theorem wrap_of_col (h : c.csrX < 80) : wrap c = c := if_neg (by omega)

/-! ## One character -/

theorem storeUnit_showsScreen (h : c.Shows t) (glyph : Byte) :
    ({ c with
      text := c.text.storeUnit (c.csrY * 80 + c.csrX) (Cell.mk glyph c.color).word } :
        Console).ShowsScreen (t.put c.color glyph).screen := by
  constructor
  · intro r k
    simp only [ByteBuffer.unit_storeUnit, Terminal.put, Function.update_apply, h.col, h.row]
    by_cases hr : r = t.row
    · subst hr
      rw [if_pos rfl, Function.update_apply]
      by_cases hk : k = t.col
      · subst hk
        rw [if_pos rfl, if_pos rfl]
      · have hne : k.val ≠ t.col.val := fun he => hk (Fin.ext he)
        rw [if_neg hk, if_neg (by omega), h.cells]
    · have hne : r.val ≠ t.row.val := fun he => hr (Fin.ext he)
      rw [if_neg hr, if_neg (by omega), h.cells]
  · refine ByteBuffer.storeUnit_within h.within ?_ ?_
    · rw [h.col, h.row]
      omega
    · rw [h.col, h.row]
      omega

/-- Each character is one step of the terminal. -/
theorem putch_shows (h : c.Shows t) (ch : Byte) :
    (c.putch ch).Shows (t.feed c.color ch) := by
  rw [putch, moveCursor_shows]
  unfold handle Terminal.feed
  by_cases hback : ch = 0x08#8
  · rw [if_pos hback, if_pos hback]
    by_cases hx : c.csrX = 0
    · have hzero : t.col.val - 1 = t.col.val := by
        have := h.col
        omega
      rw [if_neg (not_not.mpr hx), hzero]
      exact scroll_wrap_shows_moveTo h.toShowsScreen h.col h.row
    · rw [if_pos hx]
      exact scroll_wrap_shows_moveTo (c := { c with csrX := c.csrX - 1 }) ⟨h.cells, h.within⟩
        (by have := h.col; simp only; omega) h.row
  rw [if_neg hback, if_neg hback]
  by_cases htab : ch = 0x09#8
  · rw [if_pos htab, if_pos htab]
    exact scroll_wrap_shows_moveTo (c := { c with csrX := (c.csrX + 8) / 8 * 8 })
      ⟨h.cells, h.within⟩ (by have := h.col; simp only; omega) h.row
  rw [if_neg htab, if_neg htab]
  by_cases hcr : ch = 0x0D#8
  · rw [if_pos hcr, if_pos hcr]
    exact scroll_wrap_shows_moveTo (c := { c with csrX := 0 }) ⟨h.cells, h.within⟩ rfl h.row
  rw [if_neg hcr, if_neg hcr]
  by_cases hlf : ch = 0x0A#8
  · rw [if_pos hlf, if_pos hlf, wrap_of_col (by simp)]
    exact scroll_shows_newline (c := { c with csrX := 0, csrY := c.csrY + 1 })
      ⟨h.cells, h.within⟩ rfl (by simp [h.row])
  rw [if_neg hlf, if_neg hlf]
  by_cases hprint : Terminal.Printable ch
  · rw [if_pos ((sle_iff_printable ch).mpr hprint), if_pos hprint, cell_eq hprint]
    have hscreen := storeUnit_showsScreen h ch
    exact scroll_wrap_shows_moveTo (t := t.put c.color ch)
      (c := { c with
        text := c.text.storeUnit (c.csrY * 80 + c.csrX) (Cell.mk ch c.color).word
        csrX := c.csrX + 1 })
      ⟨hscreen.cells, hscreen.within⟩ (by simp [h.col]) h.row
  · rw [if_neg (fun hle => hprint ((sle_iff_printable ch).mp hle)), if_neg hprint,
      wrap_of_col h.cursor.2.1, scroll_of_row h.cursor.2.2.2]
    exact h

@[simp] theorem attrib_putch (c : Console) (ch : Byte) : (c.putch ch).attrib = c.attrib := by
  have hscroll : ∀ d : Console, d.scroll.attrib = d.attrib := by
    intro d
    unfold scroll
    split_ifs <;> rfl
  have hwrap : (wrap (handle c ch)).attrib = (handle c ch).attrib := by
    unfold wrap
    split_ifs <;> rfl
  have hhandle : (handle c ch).attrib = c.attrib := by
    unfold handle
    split_ifs <;> rfl
  exact (hscroll _).trans (hwrap.trans hhandle)

theorem foldl_putch_shows (h : c.Shows t) (s : List Byte) :
    (s.foldl putch c).Shows (s.foldl (Terminal.feed c.color) t) := by
  induction s generalizing c t with
  | nil => exact h
  | cons ch s ih =>
      have hrest := ih (putch_shows h ch)
      rwa [color, attrib_putch] at hrest

/-! ## From `init` on -/

theorem cls_shows (within : c.text.StoredWithin 0 (2 * (80 * 25))) :
    (cls c).Shows (Terminal.blank c.color) := by
  have hrows := forRange_invariant
    (P := fun i b => (∀ j : Int, 0 ≤ j → j < i * 80 → b.unit j = blank c.attrib) ∧
      ByteBuffer.StoredWithin b 0 (2 * (80 * 25)))
    (f := fun i text => memsetw text (i * 80) (blank c.attrib) 80) (s := c.text)
    (Nat.zero_le 25) ⟨fun j h0 hj => by omega, within⟩ ?_
  · refine ⟨⟨fun r k => ?_, hrows.2⟩, rfl, rfl⟩
    exact (hrows.1 _ (by omega) (by omega)).trans (blank_eq c)
  · intro i b _ hi hb
    have hcount : (80 : Word).toNat = 80 := rfl
    refine ⟨fun j h0 hj => ?_, ?_⟩
    · rw [memsetw, ByteBuffer.unit_fill, hcount]
      by_cases hin : (i : Int) * 80 ≤ j ∧ j < i * 80 + (80 : Nat)
      · rw [if_pos hin]
      · rw [if_neg hin]
        exact hb.1 j h0 (by omega)
    · exact ByteBuffer.fill_within hb.2 (by omega) (by rw [hcount]; omega)

theorem init_shows (byte : Int → Byte) (foreColor backColor : Byte) :
    (init ⟨byte, []⟩ foreColor backColor).Shows
      (Terminal.blank (init ⟨byte, []⟩ foreColor backColor).color) :=
  cls_shows (c := setTextColor ⟨0, 0, 0, ⟨byte, []⟩, []⟩ foreColor backColor)
    (by intro x hx; cases hx)

/-- After `init`, with any attribute set since, `puts` does to the screen what the
terminal does, character by character, and every store so far went to a cell. -/
theorem puts_eq_terminal (byte : Int → Byte) (foreColor backColor : Byte) (attrib : Word)
    (s : List Byte) :
    let c₀ := init ⟨byte, []⟩ foreColor backColor
    let putFirst (n : Nat) := ((cString s).take n).foldl putch { c₀ with attrib := attrib }
    let fedFirst (n : Nat) := ((cString s).take n).foldl (Terminal.feed (attrib.setWidth 8))
      (Terminal.blank c₀.color)
    puts { c₀ with attrib := attrib } s = putFirst (strlen s) ∧
      ∀ n,
        (0 ≤ (putFirst n).csrX ∧ (putFirst n).csrX < 80 ∧
          0 ≤ (putFirst n).csrY ∧ (putFirst n).csrY < 25) ∧
        (∀ x ∈ (putFirst n).text.stored, 0 ≤ x / 2 ∧ x / 2 < 80 * 25) ∧
        (putFirst n).csrX = (fedFirst n).col.val ∧ (putFirst n).csrY = (fedFirst n).row.val ∧
        ∀ (r : Fin 25) (k : Fin 80),
          (putFirst n).text.unit (r.val * 80 + k.val) = ((fedFirst n).screen r k).word := by
  intro c₀ putFirst fedFirst
  refine ⟨?_, fun n => ?_⟩
  · simp only [putFirst]
    rw [puts_eq, strlen_eq, List.take_length]
  · have hstart : ({ c₀ with attrib := attrib } : Console).Shows (Terminal.blank c₀.color) :=
      have h := init_shows byte foreColor backColor
      ⟨⟨h.cells, h.within⟩, h.col, h.row⟩
    have hshows : (putFirst n).Shows (fedFirst n) := foldl_putch_shows hstart _
    refine ⟨hshows.cursor, fun x hx => ?_, hshows.col, hshows.row, hshows.cells⟩
    have hx := hshows.within x hx
    omega

end Console

end TeachingKernel.Display
