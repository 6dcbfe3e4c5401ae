import Mathlib.Tactic.IntervalCases
import TeachingKernel.Lib.X86

/-!
# Descriptor tables

The entries that `GDT::set_gate` and `IDT::set_gate` write, how the processor takes them
apart, and the tables of `main` of P5 and of P6. The processor runs in ring 0, and there
is no local descriptor table.
-/

namespace TeachingKernel.Interrupts

open X86

/-! ## Entries -/

structure GdtEntry where
  limitLow : BitVec 16
  baseLow : BitVec 16
  baseMiddle : Byte
  access : Byte
  granularity : Byte
  baseHigh : Byte
  deriving DecidableEq

structure IdtEntry where
  baseLo : BitVec 16
  sel : Selector
  always0 : Byte
  flags : Byte
  baseHi : BitVec 16
  deriving DecidableEq

/-- `GDT::set_gate` -/
def gdtEntry (base limit : Word) (access gran : Byte) : GdtEntry where
  baseLow := (base &&& 0xFFFF).setWidth 16
  baseMiddle := ((base >>> 16) &&& 0xFF).setWidth 8
  baseHigh := ((base >>> 24) &&& 0xFF).setWidth 8
  limitLow := (limit &&& 0xFFFF).setWidth 16
  granularity := ((limit >>> 16) &&& 0x0F).setWidth 8 ||| (gran &&& 0xF0)
  access := access

/-- `IDT::set_gate` -/
def idtEntry (base : Word) (sel : Selector) (flags : Byte) : IdtEntry where
  baseLo := (base &&& 0xFFFF).setWidth 16
  baseHi := ((base >>> 16) &&& 0xFFFF).setWidth 16
  sel := sel
  always0 := 0
  flags := flags

def GdtEntry.dwords (e : GdtEntry) : Word × Word :=
  (e.limitLow.setWidth 32 ||| (e.baseLow.setWidth 32 <<< 16),
    e.baseMiddle.setWidth 32 ||| (e.access.setWidth 32 <<< 8) |||
      (e.granularity.setWidth 32 <<< 16) ||| (e.baseHigh.setWidth 32 <<< 24))

def IdtEntry.dwords (e : IdtEntry) : Word × Word :=
  (e.baseLo.setWidth 32 ||| (e.sel.setWidth 32 <<< 16),
    e.always0.setWidth 32 ||| (e.flags.setWidth 32 <<< 8) ||| (e.baseHi.setWidth 32 <<< 16))

/-! ## The processor -/

inductive Fields where
  | segment (base limitScaled : Word) (g db avl : Bool)
  | gate (paramCount : Byte) (destSelector : Selector) (destOffset : Word)
  | taskGate (tssSelector : Selector)
  deriving DecidableEq

/-- `bx_descriptor_t`. Without fields it is not valid. -/
structure Descriptor where
  p : Bool
  dpl : Byte
  segment : Bool
  type : Byte
  fields : Option Fields
  deriving DecidableEq

def segmentFields (dword1 dword2 : Word) : Fields :=
  let limit := (dword1 &&& 0xFFFF) ||| (dword2 &&& 0x000F0000)
  let g : Bool := dword2 &&& 0x00800000 > 0
  .segment ((dword1 >>> 16) ||| ((dword2 &&& 0xFF) <<< 16) ||| (dword2 &&& 0xFF000000))
    (if g then (limit <<< 12) ||| 0xFFF else limit) g (dword2 &&& 0x00400000 > 0)
    (dword2 &&& 0x00100000 > 0)

def parseDescriptor (dword1 dword2 : Word) : Descriptor :=
  let arByte : Byte := (dword2 >>> 8).setWidth 8
  let segment : Bool := (arByte >>> 4) &&& 1 = 1
  let type := arByte &&& 0xF
  { p := (arByte >>> 7) &&& 1 = 1
    dpl := (arByte >>> 5) &&& 3
    segment := segment
    type := type
    fields :=
      if segment then some (segmentFields dword1 dword2)
      else if type = 4 ∨ type = 6 ∨ type = 7 then
        some (.gate ((dword2 &&& 0x1F).setWidth 8) ((dword1 >>> 16).setWidth 16)
          (dword1 &&& 0xFFFF))
      else if type = 12 ∨ type = 14 ∨ type = 15 then
        some (.gate ((dword2 &&& 0x1F).setWidth 8) ((dword1 >>> 16).setWidth 16)
          ((dword2 &&& 0xFFFF0000) ||| (dword1 &&& 0x0000FFFF)))
      else if type = 5 then some (.taskGate ((dword1 >>> 16).setWidth 16))
      else if type = 1 ∨ type = 2 ∨ type = 3 ∨ type = 9 ∨ type = 11 then
        some (segmentFields dword1 dword2)
      else none }

structure Tables where
  gdt : Nat → GdtEntry
  gdtLimit : Nat
  idt : Byte → IdtEntry
  idtLimit : Nat

inductive Fault where
  | generalProtection (errorCode : BitVec 16)
  | notPresent (errorCode : BitVec 16)
  deriving DecidableEq

inductive Entry where
  | gate32 (cs : Selector) (eip : Word) (clearIf : Bool)
  | gate16
  | task
  deriving DecidableEq

def fetchRawDescriptor (t : Tables) (selector : Selector) : Except Fault (Nat × Word × Word) :=
  let index := (selector >>> 3).toNat
  if selector &&& 4 ≠ 0 ∨ index * 8 + 7 > t.gdtLimit then
    .error (.generalProtection (selector &&& 0xFFFC))
  else .ok (index, (t.gdt index).dwords)

def Tables.touch (t : Tables) (index : Nat) : Tables :=
  { t with gdt := fun i =>
      if i = index then { t.gdt i with access := (t.gdt i).access ||| 1 } else t.gdt i }

/-- `protected_mode_int` in ring 0, for interrupts and exceptions. The EXT bit that Bochs sets in
the error code of a fault met while it delivers an external interrupt is left out. -/
def protectedModeInt (t : Tables) (vector : Byte) : Except Fault (Entry × Tables) :=
  let errorCode : BitVec 16 := BitVec.ofNat 16 (vector.toNat * 8 + 2)
  if vector.toNat * 8 + 7 > t.idtLimit then .error (.generalProtection errorCode)
  else
    let gate := parseDescriptor (t.idt vector).dwords.1 (t.idt vector).dwords.2
    match gate.segment, gate.fields with
    | true, _ | _, none | _, some (.segment ..) => .error (.generalProtection errorCode)
    | false, some (.taskGate _) =>
        if gate.p then .ok (.task, t) else .error (.notPresent errorCode)
    | false, some (.gate _ destSelector destOffset) =>
        if gate.type = 4 ∨ gate.type = 12 then .error (.generalProtection errorCode)
        else if !gate.p then .error (.notPresent errorCode)
        else if destSelector &&& 0xFFFC = 0 then .error (.generalProtection 0)
        else do
          let (index, dword1, dword2) ← fetchRawDescriptor t destSelector
          let cs := parseDescriptor dword1 dword2
          match cs.segment, cs.fields with
          | true, some (.segment _ limitScaled _ _ _) =>
              if cs.type &&& 8 = 0 ∨ cs.dpl > 0 then
                .error (.generalProtection (destSelector &&& 0xFFFC))
              else if !cs.p then .error (.notPresent (destSelector &&& 0xFFFC))
              else if destOffset > limitScaled then .error (.generalProtection 0)
              else if gate.type ≥ 14 then
                .ok (.gate32 (destSelector &&& 0xFFFC) destOffset (gate.type &&& 1 = 0),
                  t.touch index)
              else .ok (.gate16, t.touch index)
          | _, _ => .error (.generalProtection (destSelector &&& 0xFFFC))

/-! ## The tables of the kernel -/

def Tables.setIdt (t : Tables) (num : Byte) (base : Word) (sel : Selector) (flags : Byte) :
    Tables :=
  { t with idt := fun v => if v = num then idtEntry base sel flags else t.idt v }

def Tables.setGdt (t : Tables) (num : Nat) (base limit : Word) (access gran : Byte) : Tables :=
  { t with gdt := fun i => if i = num then gdtEntry base limit access gran else t.gdt i }

/-- `gdt_flush`: the data segments are loaded and then the code segment. -/
def Tables.gdtFlush (t : Tables) : Tables := (t.touch 2).touch 1

def Tables.gdtInit (t : Tables) : Tables :=
  let t := { t with gdtLimit := 8 * 3 - 1 }
  let t := t.setGdt 0 0 0 0 0
  let t := t.setGdt 1 0 0xFFFFFFFF 0x9A 0xCF
  let t := t.setGdt 2 0 0xFFFFFFFF 0x92 0xCF
  t.gdtFlush

def Tables.idtInit (t : Tables) : Tables :=
  { t with idtLimit := 8 * 256 - 1, idt := fun _ => ⟨0, 0, 0, 0, 0⟩ }

/-- `ExceptionHandler::init_dispatcher`, as far as the tables go. `isr` are the addresses
of the stubs. -/
def Tables.exceptionInit (t : Tables) (isr : Nat → Word) : Tables :=
  (List.range 32).foldl (fun t i => t.setIdt (BitVec.ofNat 8 i) (isr i) 0x08 0x8E) t

def Tables.interruptInit (t : Tables) (irq : Nat → Word) : Tables :=
  (List.range 16).foldl (fun t i => t.setIdt (BitVec.ofNat 8 (i + 32)) (irq i) 0x08 0x8E) t

/-- The tables of `main`, from whatever the boot loader left. -/
def mainTables (isr irq : Nat → Word) (t : Tables) : Tables :=
  ((t.gdtInit.idtInit).exceptionInit isr).interruptInit irq

/-! ## What the processor reads back -/

section

variable (base limit : Word) (sel : Selector) (flags access gran : Byte)

theorem idtEntry_flags : ((idtEntry base sel flags).dwords.2 >>> 8).setWidth 8 = flags := by
  ext i hi
  interval_cases i <;> simp [IdtEntry.dwords, idtEntry]

theorem idtEntry_sel : ((idtEntry base sel flags).dwords.1 >>> 16).setWidth 16 = sel := by
  ext i hi
  interval_cases i <;> simp [IdtEntry.dwords, idtEntry]

theorem idtEntry_base : ((idtEntry base sel flags).dwords.2 &&& 0xFFFF0000) |||
    ((idtEntry base sel flags).dwords.1 &&& 0x0000FFFF) = base := by
  ext i hi
  interval_cases i <;> simp [IdtEntry.dwords, idtEntry]

theorem gdtEntry_access :
    ((gdtEntry base limit access gran).dwords.2 >>> 8).setWidth 8 = access := by
  ext i hi
  interval_cases i <;> simp [GdtEntry.dwords, gdtEntry]

theorem gdtEntry_base : ((gdtEntry base limit access gran).dwords.1 >>> 16) |||
    (((gdtEntry base limit access gran).dwords.2 &&& 0xFF) <<< 16) |||
      ((gdtEntry base limit access gran).dwords.2 &&& 0xFF000000) = base := by
  ext i hi
  interval_cases i <;> simp [GdtEntry.dwords, gdtEntry]

theorem gdtEntry_limit : ((gdtEntry base limit access gran).dwords.1 &&& 0xFFFF) |||
    ((gdtEntry base limit access gran).dwords.2 &&& 0x000F0000) = limit &&& 0xFFFFF := by
  ext i hi
  interval_cases i <;> simp [GdtEntry.dwords, gdtEntry]

theorem gdtEntry_gran {i : Nat} (hlow : 20 ≤ i) (hhigh : i < 24) :
    (gdtEntry base limit access gran).dwords.2.getLsbD i = gran.getLsbD (i - 16) := by
  interval_cases i <;> simp [GdtEntry.dwords, gdtEntry]

theorem decide_and_twoPow (a : Word) {i : Nat} (hi : i < 32) :
    decide (a &&& BitVec.twoPow 32 i > 0) = a.getLsbD i := by
  have hpos : (0 : Word) < BitVec.twoPow 32 i := by
    rw [BitVec.lt_def, BitVec.toNat_twoPow, Nat.mod_eq_of_lt (Nat.pow_lt_pow_right (by decide) hi)]
    exact Nat.two_pow_pos i
  rw [BitVec.and_twoPow]
  split
  · rename_i hbit
    rw [hbit]
    exact decide_eq_true hpos
  · rename_i hbit
    rw [Bool.eq_false_iff.mpr hbit]
    rfl

/-- A segment is read back as it was given to `set_gate`, its limit in 20 bits and its
granularity in the upper half of the byte. -/
theorem parse_gdtEntry (hsegment : (access >>> 4) &&& 1 = 1) :
    parseDescriptor (gdtEntry base limit access gran).dwords.1
      (gdtEntry base limit access gran).dwords.2 =
    { p := (access >>> 7) &&& 1 = 1
      dpl := (access >>> 5) &&& 3
      segment := true
      type := access &&& 0xF
      fields := some (.segment base
        (if gran.getLsbD 7 then ((limit &&& 0xFFFFF) <<< 12) ||| 0xFFF else limit &&& 0xFFFFF)
        (gran.getLsbD 7) (gran.getLsbD 6) (gran.getLsbD 4)) } := by
  have hg := fun {i : Nat} (h20 : 20 ≤ i) (h24 : i < 24) =>
    (decide_and_twoPow (gdtEntry base limit access gran).dwords.2 (show i < 32 by omega)).trans
      (gdtEntry_gran base limit access gran h20 h24)
  have h23 := hg (i := 23) (by decide) (by decide)
  have h22 := hg (i := 22) (by decide) (by decide)
  have h20 := hg (i := 20) (by decide) (by decide)
  simp only [parseDescriptor, gdtEntry_access, hsegment, decide_true, if_true]
  rw [segmentFields]
  rw [gdtEntry_base, gdtEntry_limit, show (0x00800000 : Word) = BitVec.twoPow 32 23 from rfl,
    show (0x00400000 : Word) = BitVec.twoPow 32 22 from rfl,
    show (0x00100000 : Word) = BitVec.twoPow 32 20 from rfl, h23, h22, h20]

/-- A gate of type 14 or 15 is read back as it was given to `set_gate`. -/
theorem parse_idtEntry (hgate : (flags >>> 4) &&& 1 ≠ 1) (htype : flags &&& 0xF = 14) :
    parseDescriptor (idtEntry base sel flags).dwords.1 (idtEntry base sel flags).dwords.2 =
    { p := (flags >>> 7) &&& 1 = 1
      dpl := (flags >>> 5) &&& 3
      segment := false
      type := 14
      fields := some (.gate (((idtEntry base sel flags).dwords.2 &&& 0x1F).setWidth 8) sel
        base) } := by
  simp only [parseDescriptor, idtEntry_flags, idtEntry_sel, idtEntry_base, hgate, htype]
  simp

end

/-! ## Deliveries -/

section

variable {t : Tables} {isr irq : Nat → Word}

theorem foldl_setIdt (t : Tables) (f : Nat → Word) (sel : Selector) (flags : Byte) (k n : Nat)
    (hfit : n + k ≤ 256) :
    (List.range n).foldl (fun t i => t.setIdt (BitVec.ofNat 8 (i + k)) (f i) sel flags) t =
      { t with idt := fun v =>
          if k ≤ v.toNat ∧ v.toNat < n + k then idtEntry (f (v.toNat - k)) sel flags
          else t.idt v } := by
  induction n with
  | zero =>
      have hnone : ∀ v : Byte, ¬ (k ≤ v.toNat ∧ v.toNat < 0 + k) := fun v h => by omega
      simp only [hnone, if_false]
      rfl
  | succ n ih =>
      rw [List.range_succ, List.foldl_append, ih (by omega), List.foldl_cons, List.foldl_nil,
        Tables.setIdt]
      simp only [Tables.mk.injEq, true_and, and_true]
      funext v
      have hnum : (BitVec.ofNat 8 (n + k)).toNat = n + k := by
        rw [BitVec.toNat_ofNat, Nat.mod_eq_of_lt (by omega)]
      by_cases hv : v = BitVec.ofNat 8 (n + k)
      · have hval : v.toNat = n + k := by rw [hv, hnum]
        rw [if_pos hv, if_pos (by omega), hval, Nat.add_sub_cancel]
      · have hval : v.toNat ≠ n + k := fun heq => hv (BitVec.eq_of_toNat_eq (heq.trans hnum.symm))
        rw [if_neg hv]
        have hsame : (k ≤ v.toNat ∧ v.toNat < n + k) ↔ (k ≤ v.toNat ∧ v.toNat < n + 1 + k) := by
          omega
        simp only [hsame]

/-- The gates of the 48 stubs, and the flat segments. -/
theorem mainTables_eq (isr irq : Nat → Word) (t : Tables) :
    mainTables isr irq t =
      { gdt := t.gdtInit.gdt
        gdtLimit := 23
        idtLimit := 2047
        idt := fun v =>
          if v.toNat < 32 then idtEntry (isr v.toNat) 0x08 0x8E
          else if v.toNat < 48 then idtEntry (irq (v.toNat - 32)) 0x08 0x8E
          else ⟨0, 0, 0, 0, 0⟩ } := by
  have hexc := foldl_setIdt t.gdtInit.idtInit isr 0x08 0x8E 0 32 (by decide)
  simp only [Nat.add_zero] at hexc
  rw [mainTables, Tables.interruptInit, foldl_setIdt _ irq 0x08 0x8E 32 16 (by decide),
    Tables.exceptionInit, hexc]
  simp only [Tables.mk.injEq]
  refine ⟨rfl, rfl, ?_, rfl⟩
  funext v
  by_cases hlow : v.toNat < 32
  · rw [if_neg (by omega), if_pos (by omega), if_pos hlow]
    rfl
  · rw [if_neg hlow]
    by_cases hmid : v.toNat < 48
    · rw [if_pos (by omega), if_pos hmid]
    · rw [if_neg (by omega), if_neg (by omega), if_neg hmid]
      rfl

theorem gdtInit_code (t : Tables) : t.gdtInit.gdt 1 = gdtEntry 0 0xFFFFFFFF 0x9B 0xCF := by
  simp [Tables.gdtInit, Tables.gdtFlush, Tables.touch, Tables.setGdt]
  decide

theorem gdtInit_touch (t : Tables) : (fun i => if i = 1 then
    { t.gdtInit.gdt i with access := (t.gdtInit.gdt i).access ||| 1 } else t.gdtInit.gdt i) =
      t.gdtInit.gdt := by
  funext i
  split
  · rename_i h
    rw [h, gdtInit_code]
    rfl
  · rfl

theorem protectedModeInt_gate {v : Byte} {eip : Word} (hlimit : t.idtLimit = 2047)
    (hgdt : t.gdtLimit = 23) (hcode : t.gdt 1 = gdtEntry 0 0xFFFFFFFF 0x9B 0xCF)
    (hgate : t.idt v = idtEntry eip 0x08 0x8E) :
    protectedModeInt t v = .ok (.gate32 0x08 eip true, t.touch 1) := by
  have hv := v.isLt
  have hparse := parse_idtEntry eip 0x08 0x8E (by decide) (by decide)
  have hcs : parseDescriptor (gdtEntry 0 0xFFFFFFFF 0x9B 0xCF).dwords.1
      (gdtEntry 0 0xFFFFFFFF 0x9B 0xCF).dwords.2 =
        ⟨true, 0, true, 11, some (.segment 0 0xFFFFFFFF true true false)⟩ := by
    rw [parse_gdtEntry 0 0xFFFFFFFF 0x9B 0xCF (by decide)]
    decide
  have hfetch : fetchRawDescriptor t 0x08 = .ok (1, (t.gdt 1).dwords) := by
    rw [fetchRawDescriptor, hgdt]
    rfl
  rw [protectedModeInt, if_neg (by omega), hgate, hparse]
  dsimp only
  rw [if_neg (by decide), if_neg (by decide), if_neg (by decide), hfetch, hcode]
  have hbelow : ¬ eip > 0xFFFFFFFF := by
    have hlt := eip.isLt
    rw [gt_iff_lt, BitVec.lt_def]
    exact Nat.not_lt.mpr (Nat.le_of_lt_succ hlt)
  simp only [bind, Except.bind, hcs]
  rw [if_neg (by decide), if_neg (by decide), if_neg hbelow, if_pos (by decide),
    show (0x08 : Selector) &&& 0xFFFC = 0x08 by decide, decide_eq_true (by decide)]

theorem protectedModeInt_absent {v : Byte} (hgate : t.idt v = ⟨0, 0, 0, 0, 0⟩) :
    protectedModeInt t v = .error (.generalProtection (BitVec.ofNat 16 (v.toNat * 8 + 2))) := by
  have hparse : parseDescriptor (IdtEntry.dwords ⟨0, 0, 0, 0, 0⟩).1
      (IdtEntry.dwords ⟨0, 0, 0, 0, 0⟩).2 = ⟨false, 0, false, 0, none⟩ := by
    decide
  rw [protectedModeInt]
  split
  · rfl
  · rw [hgate, hparse]

/-- Every exception and every interrupt of the controllers enters its stub with
interrupts off, and any other vector is a protection fault, from whatever tables the boot
loader left. A delivery does not change the tables. -/
theorem deliveries_enter_stubs (isr irq : Nat → Word) (t : Tables) (v : Byte) :
    protectedModeInt (mainTables isr irq t) v =
      if v.toNat < 32 then .ok (.gate32 0x08 (isr v.toNat) true, mainTables isr irq t)
      else if v.toNat < 48 then .ok (.gate32 0x08 (irq (v.toNat - 32)) true, mainTables isr irq t)
      else .error (.generalProtection (BitVec.ofNat 16 (v.toNat * 8 + 2))) := by
  have htouch : (mainTables isr irq t).touch 1 = mainTables isr irq t := by
    rw [mainTables_eq, Tables.touch]
    simp only [gdtInit_touch]
  have hcode : (mainTables isr irq t).gdt 1 = gdtEntry 0 0xFFFFFFFF 0x9B 0xCF := by
    rw [mainTables_eq]
    exact gdtInit_code t
  have hlimits : (mainTables isr irq t).idtLimit = 2047 ∧ (mainTables isr irq t).gdtLimit = 23 := by
    rw [mainTables_eq]
    exact ⟨rfl, rfl⟩
  have hidt : (mainTables isr irq t).idt v =
      if v.toNat < 32 then idtEntry (isr v.toNat) 0x08 0x8E
      else if v.toNat < 48 then idtEntry (irq (v.toNat - 32)) 0x08 0x8E
      else ⟨0, 0, 0, 0, 0⟩ := by
    rw [mainTables_eq]
  split
  · rename_i hlow
    rw [if_pos hlow] at hidt
    rw [protectedModeInt_gate hlimits.1 hlimits.2 hcode hidt, htouch]
  · rename_i hlow
    rw [if_neg hlow] at hidt
    split
    · rename_i hmid
      rw [if_pos hmid] at hidt
      rw [protectedModeInt_gate hlimits.1 hlimits.2 hcode hidt, htouch]
    · rename_i hmid
      rw [if_neg hmid] at hidt
      exact protectedModeInt_absent hidt

end

end TeachingKernel.Interrupts
