import TeachingKernel.Switch.Footprint

/-!
# The stack of a new thread

`Thread::Thread` of P5. The constructor pushes twenty words on the empty stack: the
argument of the thread function, the address to which it returns, its own address, and a
frame as if the thread had been interrupted at the start of `thread_start`.
-/

namespace TeachingKernel.Switch

open X86

def kernelDs : Word := 0x10

/-- The addresses that the linker gives to the variables and functions of `thread.C`. -/
structure Symbols where
  nextFreePid : Word
  currentThread : Word
  threadStart : Word
  threadShutdown : Word

structure NewThread where
  thread : Word
  tfunction : Word
  stack : Word
  stackSize : Word

namespace NewThread

/-- Members by their offsets: `esp`, `thread_id`, `stack`, `stack_size`. -/
def espAt (n : NewThread) : Word := n.thread

def threadIdAt (n : NewThread) : Word := n.thread + 4

def stackAt (n : NewThread) : Word := n.thread + 8

def stackSizeAt (n : NewThread) : Word := n.thread + 12

def push (n : NewThread) (m : Memory) (v : Word) : Memory :=
  let m := m.writeWord n.espAt (m.readWord n.espAt - 4)
  m.writeWord (m.readWord n.espAt) v

def contextWords (n : NewThread) (y : Symbols) : List Word :=
  [0, y.threadShutdown, n.tfunction,
    -- EFLAGS, CS and EIP
    0, kernelCs, y.threadStart,
    -- error code and interrupt number
    0, 0,
    -- eax, ecx, edx, ebx, esp, ebp, esi, edi
    0, 0, 0, 0, 0, 0, 0, 0,
    -- ds, es, fs, gs
    kernelDs, kernelDs, 0, 0]

/-- `setup_context`, without the line it prints on the console. -/
def setupContext (n : NewThread) (y : Symbols) (m : Memory) : Memory :=
  (n.contextWords y).foldl n.push m

/-- The memory, and the addresses of the words accessed so far. -/
structure Watched where
  mem : Memory
  accessed : List Word

def Watched.read (s : Watched) (a : Word) : Word × Watched :=
  (s.mem.readWord a, ⟨s.mem, s.accessed ++ [a]⟩)

def Watched.write (s : Watched) (a v : Word) : Watched :=
  ⟨s.mem.writeWord a v, s.accessed ++ [a]⟩

/-- `push` once more, access by access. The member `esp` is read, written and read again. -/
def pushWatched (n : NewThread) (s : Watched) (v : Word) : Watched :=
  let r := s.read n.espAt
  let s := r.2.write n.espAt (r.1 - 4)
  let r := s.read n.espAt
  r.2.write r.1 v

def setupContextWatched (n : NewThread) (y : Symbols) (m : Memory) : Watched :=
  (n.contextWords y).foldl n.pushWatched ⟨m, []⟩

/-- The constructor in front of its call of `setup_context`. -/
def setMembers (n : NewThread) (y : Symbols) (m : Memory) : Memory :=
  let pid := m.readWord y.nextFreePid
  let m := m.writeWord y.nextFreePid (pid + 1)
  let m := m.writeWord n.threadIdAt pid
  let m := m.writeWord n.espAt (n.stack + n.stackSize)
  let m := m.writeWord n.stackAt n.stack
  m.writeWord n.stackSizeAt n.stackSize

def construct (n : NewThread) (y : Symbols) (m : Memory) : Memory :=
  n.setupContext y (n.setMembers y m)

/-! ## The frame -/

/-- The end of the stack area. Slot 1 of the stack is its last word. -/
def top (n : NewThread) : Word := n.stack + n.stackSize

def contextSlots : Nat := 20

def startTop (n : NewThread) : Word := stackSlot n.top 3

def InStack (n : NewThread) (b : Word) : Prop := (b - n.stack).toNat < n.stackSize.toNat

/-- The word at `a` lies in the stack area. -/
def InArea (n : NewThread) (a : Word) : Prop := ∀ b, InWord a b → n.InStack b

/-- The bytes of the object that the constructor writes. -/
def InObject (n : NewThread) (b : Word) : Prop := (b - n.thread).toNat < 16

/-- The area has room for the frame, which does not cover the stack pointer of the thread. -/
structure Placed (n : NewThread) : Prop where
  room : 80 ≤ n.stackSize.toNat
  apart : ∀ j, 1 ≤ j → j ≤ contextSlots → Memory.Apart (stackSlot n.top j) n.espAt

def context (y : Symbols) : Context where
  eip := y.threadStart
  cs := kernelCs.setWidth 16
  eflags := 0
  reg _ := 0
  seg
    | .ds | .es => kernelDs.setWidth 16
    | .fs | .gs => 0

/-- The bytes that a thread needs to start: its frame and its stack pointer. -/
def Guarded (n : NewThread) (b : Word) : Prop :=
  InSlots n.top contextSlots b ∨ InWord n.espAt b

structure Constructed (n : NewThread) (y : Symbols) (m : Memory) : Prop where
  esp : m.readWord n.espAt = stackSlot n.startTop frameSlots
  shutdown : stackWord m n.top 2 = y.threadShutdown
  tfunction : stackWord m n.top 3 = n.tfunction
  saved : SavedTo m n.startTop (context y) frameSlots

section

variable {n : NewThread} {y : Symbols} {m : Memory} {v b : Word} {j k : Nat}

theorem inStack_of_inSlots (hn : n.Placed) (hb : InSlots n.top contextSlots b) : n.InStack b := by
  have hroom := hn.room
  unfold InSlots contextSlots top at hb
  unfold InStack
  bv_omega

theorem inSlots_of_stackSlot (hj : 1 ≤ j) (hle : j ≤ contextSlots)
    (hb : InWord (stackSlot n.top j) b) : InSlots n.top contextSlots b :=
  inSlots_of_inWord hj hle (by decide) hb

/-- One push: the next slot holds the word, and the slots above it are kept. -/
theorem readWord_push (hn : n.Placed) (hesp : m.readWord n.espAt = stackSlot n.top k)
    (hk : k < contextSlots) :
    (n.push m v).readWord n.espAt = stackSlot n.top (k + 1) ∧
      ∀ j, 1 ≤ j → j ≤ contextSlots → stackWord (n.push m v) n.top j =
        if j = k + 1 then v else stackWord m n.top j := by
  unfold contextSlots at *
  have hapart := hn.apart (k + 1) (by omega) hk
  have hmem : n.push m v = (m.writeWord n.espAt (stackSlot n.top (k + 1))).writeWord
      (stackSlot n.top (k + 1)) v := by
    rw [push, hesp, ← stackSlot_succ, Memory.readWord_writeWord_same]
  rw [hmem]
  constructor
  · rw [Memory.readWord_writeWord_apart hapart, Memory.readWord_writeWord_same]
  · intro j hj hle
    rw [stackWord_writeWord (by omega) (by omega)]
    have hother := hn.apart j hj hle
    rw [show stackWord (m.writeWord n.espAt _) n.top j = stackWord m n.top j from
      Memory.readWord_writeWord_apart ⟨hother.2, hother.1⟩]

/-- Pushed words lie in their slots, and the slots above them are kept. -/
theorem foldl_push (hn : n.Placed) (vs : List Word) (hesp : m.readWord n.espAt = stackSlot n.top k)
    (hlen : k + vs.length ≤ contextSlots) :
    (vs.foldl n.push m).readWord n.espAt = stackSlot n.top (k + vs.length) ∧
      (∀ j, 1 ≤ j → j ≤ k → stackWord (vs.foldl n.push m) n.top j = stackWord m n.top j) ∧
      ∀ i v, vs[i]? = some v → stackWord (vs.foldl n.push m) n.top (k + i + 1) = v := by
  induction vs generalizing m k with
  | nil => exact ⟨hesp, fun _ _ _ => rfl, fun i v hv => by cases hv⟩
  | cons v vs ih =>
      rw [List.length_cons] at hlen
      obtain ⟨hesp', hword⟩ := readWord_push (v := v) hn hesp (by omega)
      obtain ⟨hend, habove, hpushed⟩ := ih hesp' (by omega)
      rw [List.foldl_cons, List.length_cons]
      refine ⟨?_, fun j hj hle => ?_, fun i w hw => ?_⟩
      · rw [hend, Nat.add_right_comm, Nat.add_assoc]
      · rw [habove j hj (by omega), hword j hj (by omega), if_neg (by omega)]
      · cases i with
        | zero =>
            rw [Nat.add_zero, habove _ (by omega) (Nat.le_refl _), hword _ (by omega) (by omega),
              if_pos rfl]
            exact Option.some.inj hw
        | succ i =>
            rw [show k + (i + 1) + 1 = k + 1 + i + 1 by omega]
            exact hpushed i w hw

/-- Pushes only write the slots and the stack pointer of the thread. -/
theorem foldl_push_keeps (hn : n.Placed) (vs : List Word)
    (hesp : m.readWord n.espAt = stackSlot n.top k) (hlen : k + vs.length ≤ contextSlots)
    (hslot : ¬ InSlots n.top contextSlots b) (hcell : ¬ InWord n.espAt b) :
    vs.foldl n.push m b = m b := by
  induction vs generalizing m k with
  | nil => rfl
  | cons v vs ih =>
      rw [List.length_cons] at hlen
      have hesp' := (readWord_push (v := v) hn hesp (by omega)).1
      have hwritten : ¬ InWord (stackSlot n.top (k + 1)) b := fun hc =>
        hslot (inSlots_of_stackSlot (by omega) (by omega) hc)
      rw [List.foldl_cons, ih hesp' (by omega), push, hesp, ← stackSlot_succ,
        Memory.readWord_writeWord_same, writeWord_keeps _ hwritten, writeWord_keeps _ hcell]

theorem mem_foldl_pushWatched (n : NewThread) (vs : List Word) (s : Watched) :
    (vs.foldl n.pushWatched s).mem = vs.foldl n.push s.mem := by
  induction vs generalizing s with
  | nil => rfl
  | cons v vs ih => exact ih (n.pushWatched s v)

/-- Pushes access the slots and the stack pointer of the thread. -/
theorem accessed_foldl_pushWatched (hn : n.Placed) (vs : List Word) {s : Watched}
    (hesp : s.mem.readWord n.espAt = stackSlot n.top k) (hlen : k + vs.length ≤ contextSlots)
    (hs : ∀ a ∈ s.accessed, a = n.espAt ∨ n.InArea a) :
    ∀ a ∈ (vs.foldl n.pushWatched s).accessed, a = n.espAt ∨ n.InArea a := by
  induction vs generalizing s k with
  | nil => exact hs
  | cons v vs ih =>
      rw [List.length_cons] at hlen
      have hslot : n.InArea (stackSlot n.top (k + 1)) := fun b hb =>
        inStack_of_inSlots hn (inSlots_of_stackSlot (by omega) (by omega) hb)
      have haccessed : (n.pushWatched s v).accessed =
          s.accessed ++ [n.espAt, n.espAt, n.espAt, stackSlot n.top (k + 1)] := by
        simp only [pushWatched, Watched.read, Watched.write, List.append_assoc,
          List.cons_append, List.nil_append, Memory.readWord_writeWord_same, hesp,
          ← stackSlot_succ]
      refine ih (readWord_push hn hesp (by omega)).1 (by omega) fun a ha => ?_
      rw [haccessed, List.mem_append] at ha
      rcases ha with ha | ha
      · exact hs a ha
      · simp only [List.mem_cons, List.not_mem_nil, or_false] at ha
        rcases ha with rfl | rfl | rfl | rfl
        · exact .inl rfl
        · exact .inl rfl
        · exact .inl rfl
        · exact .inr hslot

theorem Constructed.congr {m' : Memory} (hm : n.Constructed y m)
    (hkeeps : ∀ b, n.Guarded b → m' b = m b) : n.Constructed y m' := by
  have hword : ∀ j, 1 ≤ j → j ≤ contextSlots → stackWord m' n.top j = stackWord m n.top j :=
    fun j hj hle => stackWord_keeps fun b hb => hkeeps b (.inl (inSlots_of_stackSlot hj hle hb))
  refine ⟨?_, ?_, ?_, hm.saved.congr (by decide) fun j _ hle => ?_⟩
  · rw [← hm.esp]
    exact Memory.readWord_congr fun b hb => hkeeps b (.inr hb)
  · rw [hword 2 (by decide) (by decide)]
    exact hm.shutdown
  · rw [hword 3 (by decide) (by decide)]
    exact hm.tfunction
  · unfold frameSlots at hle
    rw [startTop, stackWord_stackSlot, stackWord_stackSlot]
    exact hword _ (by omega) (by unfold contextSlots; omega)

/-- On the empty stack every word goes to its slot. -/
theorem stackWord_setupContext (hn : n.Placed) (hesp : m.readWord n.espAt = n.top) (y : Symbols)
    (hv : (n.contextWords y)[j]? = some v) :
    stackWord (n.setupContext y m) n.top (j + 1) = v := by
  obtain ⟨-, -, hpushed⟩ := foldl_push hn (n.contextWords y) (hesp.trans (stackSlot_zero _).symm)
    (Nat.le_refl _)
  have hword := hpushed j v hv
  rwa [Nat.zero_add] at hword

theorem constructed_setupContext (hn : n.Placed) (hesp : m.readWord n.espAt = n.top) :
    n.Constructed y (n.setupContext y m) := by
  have hend := (foldl_push hn (n.contextWords y) (hesp.trans (stackSlot_zero _).symm)
    (Nat.le_refl _)).1
  have hpushed := fun j v => stackWord_setupContext hn hesp y (j := j) (v := v)
  have hword : ∀ j v, (n.contextWords y)[2 + j]? = some v →
      stackWord (n.setupContext y m) n.startTop j = v := by
    intro j v hv
    rw [startTop, stackWord_stackSlot, show 3 + j = 2 + j + 1 by omega]
    exact hpushed _ v hv
  refine ⟨?_, hpushed 1 _ rfl, hpushed 2 _ rfl, hword 1 _ rfl, ?_, hword 3 _ rfl, fun r _ _ => ?_,
    fun r _ => ?_⟩
  · exact hend.trans (stackSlot_stackSlot n.top 3 frameSlots).symm
  · rw [hword 2 _ rfl]
    rfl
  · cases r <;> exact hword _ _ rfl
  · cases r <;> rw [hword _ _ rfl] <;> rfl

theorem readWord_setMembers (n : NewThread) (y : Symbols) (m : Memory) :
    (n.setMembers y m).readWord n.espAt = n.top := by
  have h8 : Memory.Apart n.stackAt n.espAt := by
    unfold stackAt espAt
    constructor <;> bv_omega
  have h12 : Memory.Apart n.stackSizeAt n.espAt := by
    unfold stackSizeAt espAt
    constructor <;> bv_omega
  rw [setMembers, Memory.readWord_writeWord_apart h12, Memory.readWord_writeWord_apart h8,
    Memory.readWord_writeWord_same, top]

theorem setMembers_keeps (hobject : ¬ n.InObject b) (hpid : ¬ InWord y.nextFreePid b) :
    n.setMembers y m b = m b := by
  have hmember : ∀ a, (a - n.thread).toNat ≤ 12 → ¬ InWord a b := by
    intro a ha hc
    unfold InWord at hc
    exact hobject (by unfold InObject; bv_omega)
  have hsize : ¬ InWord n.stackSizeAt b := hmember _ (by unfold stackSizeAt; bv_omega)
  have hstack : ¬ InWord n.stackAt b := hmember _ (by unfold stackAt; bv_omega)
  have hesp : ¬ InWord n.espAt b := hmember _ (by unfold espAt; bv_omega)
  have hid : ¬ InWord n.threadIdAt b := hmember _ (by unfold threadIdAt; bv_omega)
  rw [setMembers, writeWord_keeps _ hsize, writeWord_keeps _ hstack, writeWord_keeps _ hesp,
    writeWord_keeps _ hid, writeWord_keeps _ hpid]

theorem constructed_construct (hn : n.Placed) (y : Symbols) (m : Memory) :
    n.Constructed y (n.construct y m) :=
  constructed_setupContext hn (n.readWord_setMembers y m)

theorem stackWord_construct (hn : n.Placed) (y : Symbols) (m : Memory)
    (hv : (n.contextWords y)[j]? = some v) : stackWord (n.construct y m) n.top (j + 1) = v :=
  stackWord_setupContext hn (n.readWord_setMembers y m) y hv

/-- `setup_context` accesses the stack area and the member `esp`. -/
theorem accessed_construct (hn : n.Placed) (y : Symbols) (m : Memory) :
    (n.setupContextWatched y (n.setMembers y m)).mem = n.construct y m ∧
      ∀ a ∈ (n.setupContextWatched y (n.setMembers y m)).accessed,
        a = n.espAt ∨ n.InArea a :=
  ⟨n.mem_foldl_pushWatched _ _, accessed_foldl_pushWatched hn _
    ((n.readWord_setMembers y m).trans (stackSlot_zero _).symm) (Nat.le_refl _)
    fun a ha => by cases ha⟩

/-- The constructor writes the frame, the object and the counter of thread ids. -/
theorem construct_keeps (hn : n.Placed) (hslot : ¬ InSlots n.top contextSlots b)
    (hobject : ¬ n.InObject b) (hpid : ¬ InWord y.nextFreePid b) : n.construct y m b = m b := by
  have hcell : ¬ InWord n.espAt b := by
    unfold InWord espAt
    unfold InObject at hobject
    omega
  have hesp := (n.readWord_setMembers y m).trans (stackSlot_zero _).symm
  rw [construct, setupContext, foldl_push_keeps hn _ hesp (Nat.le_refl _) hslot hcell,
    setMembers_keeps hobject hpid]

end

end NewThread

end TeachingKernel.Switch
