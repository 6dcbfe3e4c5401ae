import Mathlib.Data.List.GetD
import TeachingKernel.Interrupts.Descriptors
import TeachingKernel.Lib.X86Calls
import TeachingKernel.Switch.Restore

/-!
# The low-level stubs

`irq_low.asm` and the exception part of `idt_low.asm`, from the words that the processor
pushes to the interrupt return. The dispatchers are called as functions, which get a
pointer to the registers on the stack.
-/

namespace TeachingKernel.Interrupts

open X86 Runs Switch

/-! ## The way in -/

/-- TF, NT, RF and VM, and IF for an interrupt gate. -/
def gateMask (clearIf : Bool) : Word := 0x34100 ||| if clearIf then 0x200 else 0

/-- `protected_mode_int` from its first push on, at the same privilege. -/
def enter (s : Cpu) (pushed : List Word) (cs : Selector) (clearIf : Bool) : Cpu :=
  { pushed.foldl Cpu.push s with
    place := .inside 0
    cs := cs
    eflags := s.eflags &&& ~~~gateMask clearIf }

/-- What is pushed for an interrupt of the controllers in front of the instruction at
`eip`. -/
def interruptWords (s : Cpu) (eip : Word) : List Word := [s.eflags, s.cs.setWidth 32, eip]

def pushError (vector : Nat) : Bool :=
  vector = 8 || vector = 10 || vector = 11 || vector = 12 || vector = 13 || vector = 14 ||
    vector = 17

def exceptionWords (s : Cpu) (eflags eip : Word) (vector : Nat) (errorCode : BitVec 16) :
    List Word :=
  [eflags, s.cs.setWidth 32, eip] ++ if pushError vector then [errorCode.setWidth 32] else []

/-! ## The stubs -/

/-- `irq_common_stub` and `isr_common_stub`, which differ in the function they call. -/
def commonStub (dispatch : Word) : List Line :=
  [.instr .pushad, .instr (.pushSeg .ds), .instr (.pushSeg .es), .instr (.pushSeg .fs),
    .instr (.pushSeg .gs),
    .movReg .eax .esp,
    .instr (.pushReg .eax), .movImm .eax dispatch, .callReg .eax, .popReg .eax,
    .instr (.popSeg .gs), .instr (.popSeg .fs), .instr (.popSeg .es), .instr (.popSeg .ds),
    .instr .popad, .instr (.addImm .esp 8), .instr .iret]

def stub (bytes : List Word) (dispatch : Word) : List Line :=
  bytes.map (fun v => .instr (.pushImm v)) ++ [.jmp (bytes.length + 1)] ++ commonStub dispatch

def irqStub (dispatch : Word) (n : Nat) : List Line := stub [0, BitVec.ofNat 32 (32 + n)] dispatch

/-- `_isr0` to `_isr31`. Those of the exceptions 8 and 10 to 14 push no error code. -/
def isrBytes (n : Nat) : List Word :=
  if n = 8 ∨ 10 ≤ n ∧ n ≤ 14 then [BitVec.ofNat 32 n] else [0, BitVec.ofNat 32 n]

def isrStub (dispatch : Word) (n : Nat) : List Line := stub (isrBytes n) dispatch

/-- `REGS`, without the words that only a change of privilege pushes. -/
structure Regs where
  gs : Word
  fs : Word
  es : Word
  ds : Word
  edi : Word
  esi : Word
  ebp : Word
  esp : Word
  ebx : Word
  edx : Word
  ecx : Word
  eax : Word
  intNo : Word
  errCode : Word
  eip : Word
  cs : Word
  eflags : Word
  deriving DecidableEq

def readRegs (m : Memory) (r : Word) : Regs :=
  let field (k : Nat) : Word := m.readWord (r + 4 * BitVec.ofNat 32 k)
  { gs := field 0, fs := field 1, es := field 2, ds := field 3, edi := field 4, esi := field 5
    ebp := field 6, esp := field 7, ebx := field 8, edx := field 9, ecx := field 10
    eax := field 11, intNo := field 12, errCode := field 13, eip := field 14, cs := field 15
    eflags := field 16 }

/-- Without the upper halves of the selectors, which are not pushed. -/
def Regs.pushed (r : Regs) : Regs :=
  { r with
    gs := (r.gs.setWidth 16).setWidth 32
    fs := (r.fs.setWidth 16).setWidth 32
    es := (r.es.setWidth 16).setWidth 32
    ds := (r.ds.setWidth 16).setWidth 32 }

/-! ## The words on the stack -/

/-- What `pusha` and the pushes of the segment registers add to `n` words, the selectors
as words. -/
def registerWords (s : Cpu) (n : Nat) : List Word :=
  [s.reg .eax, s.reg .ecx, s.reg .edx, s.reg .ebx, stackSlot (s.reg .esp) n, s.reg .ebp,
    s.reg .esi, s.reg .edi] ++
  [(s.seg .ds).setWidth 32, (s.seg .es).setWidth 32, (s.seg .fs).setWidth 32,
    (s.seg .gs).setWidth 32]

def frameWords (s : Cpu) (words : List Word) : List Word :=
  words ++ registerWords s words.length ++ [stackSlot (s.reg .esp) (words.length + 12)]

/-- The same word, or the same selector where only that is pushed. -/
def SameSlot (words : List Word) (j : Nat) (v w : Word) : Prop :=
  if words.length + 8 ≤ j ∧ j < words.length + 12 then v.setWidth 16 = w.setWidth 16 else v = w

/-- The first `n` words are pushed in memory `m`, and nothing beyond the scratch. -/
structure Framed (h : Handlers) (s₀ : Cpu) (words : List Word) (n : Nat) (m : Memory) : Prop where
  slots : ∀ j < n,
    SameSlot words j (stackWord m (s₀.reg .esp) (j + 1)) ((frameWords s₀ words).getD j 0)
  kept : ∀ b, ¬ h.Scratch (s₀.reg .esp) b → m b = s₀.mem b

structure Filled (h : Handlers) (s₀ : Cpu) (words : List Word) (n : Nat) (s : Cpu) : Prop where
  esp : s.reg .esp = stackSlot (s₀.reg .esp) n
  framed : Framed h s₀ words n s.mem
  reg : ∀ r, r ≠ .esp → s.reg r = s₀.reg r
  seg : s.seg = s₀.seg

section

variable {h : Handlers} {s₀ s t : Cpu} {words : List Word} {m : Memory} {i j k n : Nat} {v : Word}

theorem sameSlot_of_eq {w : Word} (h : v = w) : SameSlot words j v w := by
  subst h
  unfold SameSlot
  split <;> rfl

theorem Framed.word (hf : Framed h s₀ words n m) (hj : j < n)
    (hfull : j < words.length + 8 ∨ words.length + 12 ≤ j) :
    stackWord m (s₀.reg .esp) (j + 1) = (frameWords s₀ words).getD j 0 := by
  have hslot := hf.slots j hj
  rwa [SameSlot, if_neg (by omega)] at hslot

theorem Framed.selector (hf : Framed h s₀ words n m) (hj : j < n) (hlo : words.length + 8 ≤ j)
    (hhi : j < words.length + 12) : (stackWord m (s₀.reg .esp) (j + 1)).setWidth 16 =
      ((frameWords s₀ words).getD j 0).setWidth 16 := by
  have hslot := hf.slots j hj
  rwa [SameSlot, if_pos ⟨hlo, hhi⟩] at hslot

theorem slot_of_not_scratch {top b : Word} (hb : ¬ h.Scratch top b) (hn : 1 ≤ n)
    (hdepth : 4 * n ≤ h.depth) (hfits : h.depth < 2 ^ 32) : 4 ≤ (b - stackSlot top n).toNat := by
  have hmul := toNat_four_mul (j := n) (by omega)
  have hout : ¬ (1 ≤ (top - b).toNat ∧ (top - b).toNat ≤ h.depth) := fun hc => hb (.inl hc)
  unfold stackSlot
  generalize (4 * BitVec.ofNat 32 n : Word) = x at hmul ⊢
  bv_omega

theorem Framed.push (hf : Framed h s₀ words n s.mem) (hesp : s.reg .esp = stackSlot (s₀.reg .esp) n)
    (hv : SameSlot words n v ((frameWords s₀ words).getD n 0)) (hdepth : 4 * (n + 1) ≤ h.depth)
    (hfits : h.depth < 2 ^ 32) (hn : n < 2 ^ 20) : Framed h s₀ words (n + 1) (s.push v).mem := by
  refine ⟨fun j hj => ?_, fun b hb => ?_⟩
  · rw [stackWord_push hesp (by omega) (by omega)]
    by_cases heq : j = n
    · rw [if_pos (by omega), heq]
      exact hv
    · rw [if_neg (by omega)]
      exact hf.slots j (by omega)
  · have hslot := slot_of_not_scratch (n := n + 1) hb (by omega) hdepth hfits
    rw [Cpu.push_keeps s v (by
      rw [Cpu.below, hesp, stackSlot_sub]
      exact hslot)]
    exact hf.kept b hb

theorem Filled.push (hf : Filled h s₀ words n s)
    (hv : SameSlot words n v ((frameWords s₀ words).getD n 0)) (hdepth : 4 * (n + 1) ≤ h.depth)
    (hfits : h.depth < 2 ^ 32) (hn : n < 2 ^ 20) : Filled h s₀ words (n + 1) (s.push v) := by
  refine ⟨?_, hf.framed.push hf.esp hv hdepth hfits hn, fun r hr => ?_, hf.seg⟩
  · rw [reg_push hf.esp, if_pos rfl]
  · rw [reg_push hf.esp, if_neg hr]
    exact hf.reg r hr

theorem Filled.foldl_push (vs : List Word) (hf : Filled h s₀ words n s)
    (hvs : ∀ j < vs.length, vs.getD j 0 = (frameWords s₀ words).getD (n + j) 0)
    (hdepth : 4 * (n + vs.length) ≤ h.depth) (hfits : h.depth < 2 ^ 32)
    (hn : n + vs.length < 2 ^ 20) : Filled h s₀ words (n + vs.length) (vs.foldl Cpu.push s) := by
  induction vs generalizing n s with
  | nil => exact hf
  | cons v vs ih =>
      rw [List.length_cons] at hdepth hn hvs
      have hfirst : v = (frameWords s₀ words).getD n 0 := by simpa using hvs 0 (by omega)
      have hnext := ih (hf.push (sameSlot_of_eq hfirst) (by omega) hfits (by omega))
        (fun j hj => by
          have hj' := hvs (j + 1) (by omega)
          rw [List.getD_cons_succ] at hj'
          rw [hj', Nat.add_right_comm, Nat.add_assoc]) (by omega) (by omega)
      rw [List.foldl_cons, List.length_cons, Nat.add_comm vs.length, ← Nat.add_assoc]
      exact hnext

end

/-! ## The frame -/

/-- What the interrupt return goes on with: the words that it takes for the instruction
pointer, the code segment and the flags are the ones above the last two. -/
def frameContext (s : Cpu) (words : List Word) : Context :=
  ⟨words.getD (words.length - 3) 0, (words.getD (words.length - 4) 0).setWidth 16,
    words.getD (words.length - 5) 0, s.reg, s.seg⟩

def frameTop (s : Cpu) (words : List Word) : Word := stackSlot (s.reg .esp) (words.length - 5)

def frameRegs (s : Cpu) (words : List Word) : Regs where
  gs := (s.seg .gs).setWidth 32
  fs := (s.seg .fs).setWidth 32
  es := (s.seg .es).setWidth 32
  ds := (s.seg .ds).setWidth 32
  edi := s.reg .edi
  esi := s.reg .esi
  ebp := s.reg .ebp
  esp := stackSlot (s.reg .esp) words.length
  ebx := s.reg .ebx
  edx := s.reg .edx
  ecx := s.reg .ecx
  eax := s.reg .eax
  intNo := words.getD (words.length - 1) 0
  errCode := words.getD (words.length - 2) 0
  eip := words.getD (words.length - 3) 0
  cs := words.getD (words.length - 4) 0
  eflags := words.getD (words.length - 5) 0

section

variable {h : Handlers} {s₀ s : Cpu} {words : List Word} {m : Memory} {i j n : Nat}

theorem frame_words (hj : j < words.length) :
    (frameWords s₀ words).getD j 0 = words.getD j 0 := by
  rw [frameWords, List.append_assoc, List.getD_append _ _ _ _ hj]

theorem frame_registers (hi : i < 12) :
    (frameWords s₀ words).getD (words.length + i) 0 =
      (registerWords s₀ words.length).getD i 0 := by
  rw [frameWords, List.append_assoc, List.getD_append_right _ _ _ _ (Nat.le_add_right ..),
    Nat.add_sub_cancel_left, List.getD_append _ _ _ _ hi]

theorem frame_pointer : (frameWords s₀ words).getD (words.length + 12) 0 =
    stackSlot (s₀.reg .esp) (words.length + 12) := by
  rw [frameWords, List.append_assoc, List.getD_append_right _ _ _ _ (Nat.le_add_right ..),
    Nat.add_sub_cancel_left]
  rfl

theorem selector_setWidth (a : X86.Selector) : (a.setWidth 32).setWidth 16 = a := by
  rw [BitVec.setWidth_setWidth_of_le _ (by decide), BitVec.setWidth_eq]

theorem Framed.savedTo (hf : Framed h s₀ words (words.length + 12) m)
    (hfive : 5 ≤ words.length) : SavedTo m (frameTop s₀ words) (frameContext s₀ words) 17 := by
  have hword : ∀ j, 1 ≤ j → j ≤ 5 → stackWord m (frameTop s₀ words) j =
      words.getD (words.length - (6 - j)) 0 := by
    intro j hpos hj
    rw [frameTop, stackWord_stackSlot,
      show words.length - 5 + j = words.length - (6 - j) + 1 by omega,
      hf.word (by omega) (by omega), frame_words (by omega)]
  have hslot : ∀ i, stackWord m (frameTop s₀ words) (i + 6) =
      stackWord m (s₀.reg .esp) (words.length + i + 1) := by
    intro i
    rw [frameTop, stackWord_stackSlot,
      show words.length - 5 + (i + 6) = words.length + i + 1 by omega]
  have hreg : ∀ i < 8, stackWord m (frameTop s₀ words) (i + 6) =
      (registerWords s₀ words.length).getD i 0 := by
    intro i hi
    rw [hslot, hf.word (by omega) (by omega), frame_registers (by omega)]
  have hseg : ∀ i, 8 ≤ i → i < 12 → (stackWord m (frameTop s₀ words) (i + 6)).setWidth 16 =
      ((registerWords s₀ words.length).getD i 0).setWidth 16 := by
    intro i hlo hhi
    rw [hslot, hf.selector (by omega) (by omega) (by omega), frame_registers (by omega)]
  refine ⟨hword 1 (by decide) (by decide), ?_, hword 3 (by decide) (by decide), fun r hr _ => ?_,
    fun r _ => ?_⟩
  · rw [hword 2 (by decide) (by decide)]
    rfl
  · cases r with
    | esp => exact absurd rfl hr
    | eax => exact hreg 0 (by decide)
    | ecx => exact hreg 1 (by decide)
    | edx => exact hreg 2 (by decide)
    | ebx => exact hreg 3 (by decide)
    | ebp => exact hreg 5 (by decide)
    | esi => exact hreg 6 (by decide)
    | edi => exact hreg 7 (by decide)
  · cases r with
    | ds => exact (hseg 8 (by decide) (by decide)).trans (selector_setWidth _)
    | es => exact (hseg 9 (by decide) (by decide)).trans (selector_setWidth _)
    | fs => exact (hseg 10 (by decide) (by decide)).trans (selector_setWidth _)
    | gs => exact (hseg 11 (by decide) (by decide)).trans (selector_setWidth _)

/-- The handler reads the frame from its lowest word up. -/
theorem Framed.readRegs (hf : Framed h s₀ words (words.length + 12) m)
    (hfive : 5 ≤ words.length) :
    (readRegs m (stackSlot (s₀.reg .esp) (words.length + 12))).pushed = frameRegs s₀ words := by
  have hfield : ∀ k < words.length + 12, m.readWord (stackSlot (s₀.reg .esp) (words.length + 12) +
      4 * BitVec.ofNat 32 k) = stackWord m (s₀.reg .esp) (words.length + 11 - k + 1) := by
    intro k hk
    rw [show words.length + 12 = words.length + 12 - k + k by omega, stackSlot_add,
      show words.length + 12 - k = words.length + 11 - k + 1 by omega]
    rfl
  have hseg : ∀ k < 4, ((m.readWord (stackSlot (s₀.reg .esp) (words.length + 12) +
      4 * BitVec.ofNat 32 k)).setWidth 16).setWidth 32 =
      ((((registerWords s₀ words.length).getD (11 - k) 0).setWidth 16).setWidth 32 : Word) := by
    intro k hk
    rw [hfield k (by omega), hf.selector (by omega) (by omega) (by omega),
      show words.length + 11 - k = words.length + (11 - k) by omega, frame_registers (by omega)]
  have hselector : ∀ a : X86.Selector, (((a.setWidth 32 : Word).setWidth 16).setWidth 32 : Word) =
      a.setWidth 32 := fun a => congrArg (BitVec.setWidth 32) (selector_setWidth a)
  have hreg : ∀ k, 4 ≤ k → k < 12 → m.readWord (stackSlot (s₀.reg .esp) (words.length + 12) +
      4 * BitVec.ofNat 32 k) = (registerWords s₀ words.length).getD (11 - k) 0 := by
    intro k hlo hhi
    rw [hfield k (by omega), hf.word (by omega) (by omega),
      show words.length + 11 - k = words.length + (11 - k) by omega, frame_registers (by omega)]
  have hword : ∀ k, 12 ≤ k → k < 17 → m.readWord (stackSlot (s₀.reg .esp) (words.length + 12) +
      4 * BitVec.ofNat 32 k) = words.getD (words.length - (k - 11)) 0 := by
    intro k hk hlt
    rw [hfield k (by omega), hf.word (by omega) (by omega),
      show words.length + 11 - k = words.length - (k - 11) by omega, frame_words (by omega)]
  rw [Interrupts.readRegs, frameRegs, Regs.pushed]
  simp only [Regs.mk.injEq]
  exact ⟨(hseg 0 (by decide)).trans (hselector _), (hseg 1 (by decide)).trans (hselector _),
    (hseg 2 (by decide)).trans (hselector _), (hseg 3 (by decide)).trans (hselector _),
    hreg 4 (by decide) (by decide), hreg 5 (by decide) (by decide),
    hreg 6 (by decide) (by decide), hreg 7 (by decide) (by decide),
    hreg 8 (by decide) (by decide), hreg 9 (by decide) (by decide),
    hreg 10 (by decide) (by decide), hreg 11 (by decide) (by decide),
    hword 12 (by decide) (by decide), hword 13 (by decide) (by decide),
    hword 14 (by decide) (by decide), hword 15 (by decide) (by decide),
    hword 16 (by decide) (by decide)⟩

end

/-! ## The lines of a stub -/

section

variable {bytes : List Word} {dispatch : Word} {i j : Nat}

theorem stub_bytes (hi : i < bytes.length) :
    (stub bytes dispatch)[i]? = some (.instr (.pushImm (bytes.getD i 0))) := by
  rw [stub, List.append_assoc, List.getElem?_append_left (by rwa [List.length_map]),
    List.getElem?_map, List.getElem?_eq_getElem hi, List.getD_eq_getElem _ _ hi]
  rfl

theorem stub_jmp : (stub bytes dispatch)[bytes.length]? = some (.jmp (bytes.length + 1)) := by
  rw [stub, List.append_assoc, List.getElem?_append_right (by rw [List.length_map]),
    List.length_map, Nat.sub_self]
  rfl

theorem stub_common : (stub bytes dispatch)[bytes.length + 1 + j]? = (commonStub dispatch)[j]? := by
  have hlen : (bytes.map (fun v => Line.instr (.pushImm v)) ++
      [Line.jmp (bytes.length + 1)]).length =
      bytes.length + 1 := by
    rw [List.length_append, List.length_map]
    rfl
  rw [stub, List.getElem?_append_right (by omega), hlen, Nat.add_sub_cancel_left]

end

end TeachingKernel.Interrupts
