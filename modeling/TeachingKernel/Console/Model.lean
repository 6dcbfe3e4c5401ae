import TeachingKernel.Lib.ByteBuffer

/-!
# The console

`Console`, which is the same file in P4, P5 and P6. The 80 x 25 cells of the text
screen are the 16-bit units from `textmemptr` on, so the bytes around that pointer
are a buffer. `ports` lists what was written to the VGA controller, last write first.
-/

namespace TeachingKernel.Display

open ForLoop

structure Console where
  attrib : Word
  csrX : Int
  csrY : Int
  text : ByteBuffer
  ports : List (Word × Byte)

/-- `memcpy`: its count runs down to zero, so a negative one is as good as unsigned. -/
def memcpy (b : ByteBuffer) (dest src : Int) (count : Word) : ByteBuffer :=
  b.copy dest src count.toNat

def memsetw (b : ByteBuffer) (dest : Int) (val : BitVec 16) (count : Word) : ByteBuffer :=
  b.fill dest val count.toNat

def strlen : List Byte → Nat
  | [] => 0
  | b :: s => if b ≠ 0 then strlen s + 1 else 0

namespace Console

/-- `0x20 | (attrib << 8)`, passed on as an `unsigned short`. -/
def blank (attrib : Word) : BitVec 16 := (0x20#32 ||| attrib <<< 8).setWidth 16

def scroll (c : Console) : Console :=
  if c.csrY ≥ 25 then
    let temp : Word := BitVec.ofInt 32 (c.csrY - 25 + 1)
    let text := memcpy c.text 0 (2 * (temp * 80).toNat) ((25 - temp) * 80 * 2)
    { c with
      text := memsetw text ((25 - temp) * 80).toNat (blank c.attrib) 80
      csrY := 25 - 1 }
  else c

/-- Only the two index registers are written; the lines that would send the position
are commented out. -/
def moveCursor (c : Console) : Console :=
  { c with ports := (0x3D4, 15) :: (0x3D4, 14) :: c.ports }

def cls (c : Console) : Console :=
  moveCursor { c with
    text := forRange 0 25 (fun i text => memsetw text (i * 80) (blank c.attrib) 80) c.text
    csrX := 0
    csrY := 0 }

/-- `(_backcolor << 4) | (_forecolor & 0x0F)` -/
def setTextColor (c : Console) (foreColor backColor : Byte) : Console :=
  { c with attrib := backColor.setWidth 32 <<< 4 ||| (foreColor.setWidth 32 &&& 0x0F#32) }

/-- `text` is what memory holds around `CONSOLE_START_ADDRESS`. -/
def init (text : ByteBuffer) (foreColor backColor : Byte) : Console :=
  cls (setTextColor ⟨0, 0, 0, text, []⟩ foreColor backColor)

/-- The value stored for a character: `_c | (attrib << 8)` with `_c` a signed `char`. -/
def cell (attrib : Word) (ch : Byte) : BitVec 16 :=
  (ch.signExtend 32 ||| attrib <<< 8).setWidth 16

/-- The chain of character cases in `putch`. `& ~(8 - 1)` rounds down to a multiple of 8. -/
def handle (c : Console) (ch : Byte) : Console :=
  if ch = 0x08#8 then if c.csrX ≠ 0 then { c with csrX := c.csrX - 1 } else c
  else if ch = 0x09#8 then { c with csrX := (c.csrX + 8) / 8 * 8 }
  else if ch = 0x0D#8 then { c with csrX := 0 }
  else if ch = 0x0A#8 then { c with csrX := 0, csrY := c.csrY + 1 }
  else if (0x20#8).sle ch then
    { c with
      text := c.text.storeUnit (c.csrY * 80 + c.csrX) (cell c.attrib ch)
      csrX := c.csrX + 1 }
  else c

def wrap (c : Console) : Console :=
  if c.csrX ≥ 80 then { c with csrX := 0, csrY := c.csrY + 1 } else c

def putch (c : Console) (ch : Byte) : Console := moveCursor (scroll (wrap (handle c ch)))

def puts (c : Console) (s : List Byte) : Console :=
  forRange 0 (strlen s) (fun i c => c.putch (s.getD i 0)) c

end Console

/-- The bytes of a string in front of its terminator. -/
def cString (s : List Byte) : List Byte := s.takeWhile (· ≠ 0)

theorem cString_append_zero {s : List Byte} (hs : ∀ b ∈ s, b ≠ 0) (rest : List Byte) :
    cString (s ++ 0 :: rest) = s := by
  rw [cString, List.takeWhile_append_of_pos (by simpa using hs)]
  simp

theorem strlen_eq (s : List Byte) : strlen s = (cString s).length := by
  induction s with
  | nil => rfl
  | cons b s ih =>
      rw [strlen, cString, List.takeWhile_cons]
      by_cases hb : b = 0
      · simp [hb]
      · rw [if_pos hb, if_pos (decide_eq_true hb), List.length_cons, ih, cString]

theorem cString_isPrefix (s : List Byte) : cString s <+: s := List.takeWhile_prefix _

theorem getD_eq_getElem_cString {s : List Byte} {i : Nat} (hi : i < (cString s).length) :
    s.getD i 0 = (cString s)[i] := by
  have hs : i < s.length := Nat.lt_of_lt_of_le hi (cString_isPrefix s).length_le
  rw [List.getD_eq_getElem?_getD, List.getElem?_eq_getElem hs, Option.getD_some,
    (cString_isPrefix s).getElem hi]

/-- `puts` puts the characters in front of the terminator one after another. -/
theorem Console.puts_eq (c : Console) (s : List Byte) :
    c.puts s = (cString s).foldl Console.putch c := by
  have hinv := forRange_invariant
    (P := fun i t => t = ((cString s).take i).foldl Console.putch c)
    (f := fun i c => Console.putch c (s.getD i 0)) (s := c) (Nat.zero_le (strlen s)) rfl ?_
  · rw [strlen_eq, List.take_length] at hinv
    rw [← hinv, Console.puts, strlen_eq]
  · intro i t _ hi ht
    rw [strlen_eq] at hi
    rw [ht, getD_eq_getElem_cString hi, List.take_succ_eq_append_getElem hi, List.foldl_append]
    rfl

end TeachingKernel.Display
