import Mathlib.Logic.Function.Basic
import TeachingKernel.Lib.ForLoop

/-!
# An LBA28 disk controller

Two drives behind one set of ports. Writing the command port makes the controller
hold the command that its registers spell, in place of a command it still held.
The status port answers data request (08) for the command held, after any number
of answers without it, and then 256 words go through the data port.
-/

namespace TeachingKernel.Ata

open ForLoop

inductive Drive where
  | master | slave
  deriving DecidableEq, Repr

inductive Direction where
  | read | write
  deriving DecidableEq, Repr

structure Command where
  direction : Direction
  drive : Drive
  block : BitVec 28
  deriving DecidableEq

abbrev Media := Drive → BitVec 28 → Nat → BitVec 16

/-- `delays` says how often the status port does not request data for the command
with that number; `waits` is what remains of it for the command held. -/
structure Controller where
  low : BitVec 8
  mid : BitVec 8
  high : BitVec 8
  device : BitVec 8
  held : Option Command
  position : Nat
  waits : Nat
  issued : Nat
  delays : Nat → Nat
  media : Media

namespace Controller

def drive (c : Controller) : Drive := if c.device.getLsbD 4 then .slave else .master

def block (c : Controller) : BitVec 28 :=
  (c.device.setWidth 4 ++ c.high ++ c.mid ++ c.low).cast (by decide)

def hold (c : Controller) (direction : Direction) : Controller :=
  { c with
    held := some ⟨direction, c.drive, c.block⟩
    position := 0
    waits := c.delays c.issued
    issued := c.issued + 1 }

/-- A byte written to a port. Ports without a meaning here keep no state. -/
def outb (c : Controller) (port : BitVec 16) (v : BitVec 8) : Controller :=
  if port = 0x1F3 then { c with low := v }
  else if port = 0x1F4 then { c with mid := v }
  else if port = 0x1F5 then { c with high := v }
  else if port = 0x1F6 then { c with device := v }
  else if port = 0x1F7 then
    if v = 0x20 then c.hold .read else if v = 0x30 then c.hold .write else c
  else c

def inb (c : Controller) (port : BitVec 16) : BitVec 8 × Controller :=
  if port = 0x1F7 ∧ c.held.isSome then
    if c.waits = 0 then (0x08, c) else (0, { c with waits := c.waits - 1 })
  else (0, c)

def advance (c : Controller) : Controller :=
  if c.position + 1 = 256 then { c with held := none, position := 0 }
  else { c with position := c.position + 1 }

def inw (c : Controller) : BitVec 16 × Controller :=
  match c.held with
  | some ⟨.read, d, b⟩ => if c.waits = 0 then (c.media d b c.position, c.advance) else (0, c)
  | _ => (0, c)

def storeWord (m : Media) (d : Drive) (b : BitVec 28) (i : Nat) (v : BitVec 16) : Media :=
  fun d' b' j => if d' = d ∧ b' = b ∧ j = i then v else m d' b' j

def outw (c : Controller) (v : BitVec 16) : Controller :=
  match c.held with
  | some ⟨.write, d, b⟩ =>
      if c.waits = 0 then { c with media := storeWord c.media d b c.position v }.advance else c
  | _ => c

/-- The controller requests data for a command of which no word was transferred. -/
structure Requests (c : Controller) (command : Command) : Prop where
  held : c.held = some command
  start : c.position = 0
  ready : c.waits = 0

section

variable {c : Controller} {d : Drive} {b : BitVec 28}

def done (c : Controller) : Controller := { c with held := none, position := 0 }

theorem inw_of_held (hheld : c.held = some ⟨.read, d, b⟩) (hready : c.waits = 0) :
    c.inw = (c.media d b c.position, c.advance) := by
  rw [inw, hheld]
  exact if_pos hready

theorem outw_of_held (hheld : c.held = some ⟨.write, d, b⟩) (hready : c.waits = 0)
    (v : BitVec 16) :
    c.outw v = { c with media := storeWord c.media d b c.position v }.advance := by
  rw [outw, hheld]
  exact if_pos hready

def after (c : Controller) (k : Nat) : Controller :=
  if k = 256 then c.done else { c with position := k }

theorem Requests.after_zero {command : Command} (h : c.Requests command) : c.after 0 = c := by
  have hstart := h.start
  cases c
  cases hstart
  rfl

theorem advance_position (c : Controller) (k : Nat) :
    advance { c with position := k } = c.after (k + 1) := by
  unfold advance after done
  by_cases hlast : k + 1 = 256
  · simp only [if_pos hlast]
  · simp only [if_neg hlast]

/-- Reading 256 words, with whatever the program does with each of them. -/
theorem Requests.read_words {σ : Type} (h : c.Requests ⟨.read, d, b⟩)
    (use : Nat → BitVec 16 → σ → σ) (s : σ) :
    forRange 0 256 (fun i (p : Controller × σ) => (p.1.inw.2, use i p.1.inw.1 p.2)) (c, s) =
      (c.done, forRange 0 256 (fun i s => use i (c.media d b i) s) s) := by
  refine forRange_invariant
    (P := fun k p => p = (c.after k, forRange 0 k (fun i s => use i (c.media d b i) s) s))
    (Nat.zero_le 256) (by rw [h.after_zero]; rfl) ?_
  rintro k p - hk rfl
  have hinw : (c.after k).inw = (c.media d b k, c.after (k + 1)) := by
    rw [after, if_neg (by omega), ← advance_position]
    exact inw_of_held h.held h.ready
  rw [hinw, forRange_succ (Nat.zero_le k)]

def storeWords (m : Media) (d : Drive) (b : BitVec 28) (k : Nat) (v : Nat → BitVec 16) : Media :=
  fun d' b' j => if d' = d ∧ b' = b ∧ j < k then v j else m d' b' j

theorem storeWord_storeWords (m : Media) (d : Drive) (b : BitVec 28) (k : Nat)
    (v : Nat → BitVec 16) :
    storeWord (storeWords m d b k v) d b k (v k) = storeWords m d b (k + 1) v := by
  funext d' b' j
  unfold storeWord storeWords
  by_cases hblock : d' = d ∧ b' = b
  · obtain ⟨rfl, rfl⟩ := hblock
    by_cases hj : j = k
    · simp [hj]
    · simp [hj, show j < k + 1 ↔ j < k by omega]
  · have hk : ¬(d' = d ∧ b' = b ∧ j = k) := fun h => hblock ⟨h.1, h.2.1⟩
    have hlt : ∀ n, ¬(d' = d ∧ b' = b ∧ j < n) := fun n h => hblock ⟨h.1, h.2.1⟩
    rw [if_neg hk, if_neg (hlt k), if_neg (hlt (k + 1))]

theorem outw_position {k : Nat} (hheld : c.held = some ⟨.write, d, b⟩) (hready : c.waits = 0)
    (m : Media) (v : BitVec 16) :
    outw { c with position := k, media := m } v =
      { c.after (k + 1) with media := storeWord m d b k v } := by
  rw [outw_of_held (c := { c with position := k, media := m }) hheld hready]
  unfold advance after done
  by_cases hlast : k + 1 = 256
  · simp only [if_pos hlast]
  · simp only [if_neg hlast]

/-- Writing the 256 words `v`. -/
theorem Requests.write_words (h : c.Requests ⟨.write, d, b⟩) (v : Nat → BitVec 16) :
    forRange 0 256 (fun i (c : Controller) => c.outw (v i)) c =
      { c.done with media := storeWords c.media d b 256 v } := by
  have hloop := forRange_invariant (a := 0) (b := 256) (s := c)
    (f := fun i (c : Controller) => c.outw (v i))
    (P := fun k p => p = { c.after k with media := storeWords c.media d b k v })
    (Nat.zero_le 256) ?_ ?_
  · rw [hloop, after, if_pos rfl]
  · rw [h.after_zero]
    have hnone : storeWords c.media d b 0 v = c.media := by
      funext d' b' j
      exact if_neg fun hj => Nat.not_lt_zero j hj.2.2
    rw [hnone]
  · rintro k p - hk rfl
    have hat : { c.after k with media := storeWords c.media d b k v } =
        { c with position := k, media := storeWords c.media d b k v } := by
      rw [after, if_neg (by omega)]
    rw [hat, outw_position h.held h.ready, storeWord_storeWords]

end

end Controller

end TeachingKernel.Ata
