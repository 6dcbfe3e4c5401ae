import TeachingKernel.Lib.Word

/-!
# Machine constants
-/

namespace TeachingKernel

/-- `Machine::PAGE_SIZE`, which is also `ContFramePool::FRAME_SIZE`. -/
def pageSize : Word := 4096#32

def entriesPerPage : Nat := 1024

@[simp] theorem pageSize_toNat : pageSize.toNat = 4096 := rfl

end TeachingKernel
