import Mathlib.Data.Nat.Notation

/-!
# Types and constants of the port

What heap, lists and scheduler take from `portmacro.h`.
-/

namespace RT1064.Kernel

abbrev TickType_t := BitVec 32

def portMAX_DELAY : TickType_t := 0xFFFFFFFF#32

def portBYTE_ALIGNMENT : ℕ := 8

def portBYTE_ALIGNMENT_MASK : ℕ := 0x0007

end RT1064.Kernel
