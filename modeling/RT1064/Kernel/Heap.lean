import Mathlib.Data.Nat.Bitwise
import Mathlib.Logic.Function.Basic
import RT1064.Core.While
import RT1064.Kernel.Portmacro

/-!
# The heap of the kernel

`heap_5.c` as it is built: a `size_t` has 32 bits, blocks are aligned to eight bytes, and the heap
protector, the clearing of freed memory and the hook for failed requests are off. Memory is read in
cells of eight bytes, since that is what a `BlockLink_t` takes; an address is a number and `NULL` is
zero. A function has no result where an assertion fails or a walk over the list does not end.

`vTaskSuspendAll` and `xTaskResumeAll` stand around every change, so a call is one step.
-/

namespace RT1064.Kernel

open Core

/-! ### Arithmetic of `size_t` -/

def heapSIZE_MAX : ℕ := 2 ^ 32 - 1

def addSize (a b : ℕ) : ℕ := (a + b) % 2 ^ 32

def subSize (a b : ℕ) : ℕ := (a + (2 ^ 32 - b)) % 2 ^ 32

/-- The complement `~a`. -/
def notSize (a : ℕ) : ℕ := heapSIZE_MAX - a

def heapADD_WILL_OVERFLOW (a b : ℕ) : Prop := heapSIZE_MAX - b < a

def heapSUBTRACT_WILL_UNDERFLOW (a b : ℕ) : Prop := a < b

instance (a b : ℕ) : Decidable (heapADD_WILL_OVERFLOW a b) :=
  inferInstanceAs (Decidable (_ < _))

instance (a b : ℕ) : Decidable (heapSUBTRACT_WILL_UNDERFLOW a b) :=
  inferInstanceAs (Decidable (_ < _))

def sizeofBlockLink : ℕ := 8

def xHeapStructSize : ℕ :=
  addSize sizeofBlockLink (portBYTE_ALIGNMENT - 1) &&& notSize portBYTE_ALIGNMENT_MASK

def heapMINIMUM_BLOCK_SIZE : ℕ := xHeapStructSize <<< 1

/-- The most significant bit of a size says that the block belongs to the application. -/
def heapBLOCK_ALLOCATED_BITMASK : ℕ := 1 <<< (4 * 8 - 1)

/-- No walk has more rounds than there are cells. -/
def cellCount : ℕ := 2 ^ 29

/-- Nothing happens after a failed assertion. -/
def configASSERT (p : Prop) [Decidable p] : Option Unit := if p then some () else none

/-! ### What the arithmetic does in range -/

lemma addSize_of_lt {a b : ℕ} (h : a + b < 2 ^ 32) : addSize a b = a + b := Nat.mod_eq_of_lt h

lemma subSize_of_le {a b : ℕ} (h : b ≤ a) (ha : a < 2 ^ 32) : subSize a b = a - b := by
  rw [subSize]
  omega

lemma and_mask (a : ℕ) : a &&& portBYTE_ALIGNMENT_MASK = a % 8 :=
  Nat.and_two_pow_sub_one_eq_mod a 3

lemma and_allocated {a : ℕ} (h : a < 2 ^ 32) :
    a &&& heapBLOCK_ALLOCATED_BITMASK = 0 ↔ a < 2 ^ 31 := by
  show a &&& 2 ^ 31 = 0 ↔ _
  rw [Nat.and_two_pow, Nat.testBit_eq_decide_div_mod_eq]
  simp
  omega

lemma or_allocated {a : ℕ} (h : a < 2 ^ 31) : a ||| heapBLOCK_ALLOCATED_BITMASK = a + 2 ^ 31 := by
  have := Nat.two_pow_add_eq_or_of_lt h 1
  rw [Nat.mul_one] at this
  show a ||| 2 ^ 31 = _
  rw [Nat.or_comm]
  omega

lemma and_not_allocated {a : ℕ} (h : a < 2 ^ 31) :
    (a + 2 ^ 31) &&& notSize heapBLOCK_ALLOCATED_BITMASK = a := by
  have := Nat.and_two_pow_sub_one_eq_mod (a + 2 ^ 31) 31
  show (a + 2 ^ 31) &&& (2 ^ 31 - 1) = a
  omega

lemma and_not_mask {a : ℕ} (h : a < 2 ^ 32) :
    a &&& notSize portBYTE_ALIGNMENT_MASK = a / 8 * 8 := by
  show a &&& (2 ^ 32 - 1 - 7) = _
  have h29 : (2 ^ 32 - 1 - 7 : ℕ) = (2 ^ 29 - 1) <<< 3 := by decide
  have hr : a / 8 * 8 = (a >>> 3) <<< 3 := by
    rw [Nat.shiftRight_eq_div_pow, Nat.shiftLeft_eq]
  rw [h29, hr]
  apply Nat.eq_of_testBit_eq
  intro i
  rw [Nat.testBit_and, Nat.testBit_shiftLeft, Nat.testBit_shiftLeft, Nat.testBit_shiftRight,
    Nat.testBit_two_pow_sub_one]
  by_cases hi : 3 ≤ i
  · by_cases hi' : i < 32
    · have : i - 3 < 29 := by omega
      simp [hi, this, Nat.add_sub_cancel' hi]
    · have hpow : 2 ^ 32 ≤ 2 ^ i := Nat.pow_le_pow_right (by decide) (by omega)
      have : a.testBit i = false := Nat.testBit_lt_two_pow (h.trans_le hpow)
      simp [hi, this, Nat.add_sub_cancel' hi]
  · simp [hi]

@[simp] lemma xHeapStructSize_eq : xHeapStructSize = 8 := by decide

@[simp] lemma heapMINIMUM_BLOCK_SIZE_eq : heapMINIMUM_BLOCK_SIZE = 16 := by decide

lemma configASSERT_of {p : Prop} [Decidable p] (h : p) : configASSERT p = some () := if_pos h

/-! ### The state -/

structure BlockLink_t where
  pxNextFreeBlock : ℕ
  xBlockSize : ℕ
deriving DecidableEq, Repr

structure HeapRegion_t where
  pucStartAddress : ℕ
  xSizeInBytes : ℕ
deriving DecidableEq, Repr

/-- The memory and the variables of `heap_5.c`; `xStart` is the address of the list head. -/
structure Heap where
  link : ℕ → BlockLink_t
  xStart : ℕ
  pxEnd : ℕ := 0
  xFreeBytesRemaining : ℕ := 0
  xMinimumEverFreeBytesRemaining : ℕ := 0
  xNumberOfSuccessfulAllocations : ℕ := 0
  xNumberOfSuccessfulFrees : ℕ := 0

namespace Heap

def next (h : Heap) (a : ℕ) : ℕ := (h.link a).pxNextFreeBlock

def size (h : Heap) (a : ℕ) : ℕ := (h.link a).xBlockSize

def setNext (h : Heap) (a v : ℕ) : Heap :=
  { h with link := Function.update h.link a { h.link a with pxNextFreeBlock := v } }

def setSize (h : Heap) (a v : ℕ) : Heap :=
  { h with link := Function.update h.link a { h.link a with xBlockSize := v } }

lemma link_ext {h H : Heap} {a : ℕ} (hnext : H.next a = h.next a) (hsize : H.size a = h.size a) :
    H.link a = h.link a := by
  cases hH : H.link a
  cases hh : h.link a
  simp_all [next, size]

section Cells

variable (h : Heap) (a v b : ℕ)

@[simp] lemma next_setNext : (h.setNext a v).next b = if b = a then v else h.next b := by
  simp only [next, setNext, Function.update_apply]
  split_ifs <;> rfl

@[simp] lemma size_setNext : (h.setNext a v).size b = h.size b := by
  simp only [size, setNext, Function.update_apply]
  split_ifs with hb
  · rw [hb]
  · rfl

@[simp] lemma next_setSize : (h.setSize a v).next b = h.next b := by
  simp only [next, setSize, Function.update_apply]
  split_ifs with hb
  · rw [hb]
  · rfl

@[simp] lemma size_setSize : (h.setSize a v).size b = if b = a then v else h.size b := by
  simp only [size, setSize, Function.update_apply]
  split_ifs <;> rfl

end Cells

/-! ### `pvPortMalloc` -/

/-- The size of the block for a request: the header and the padding come on top, and zero stands
for a request that is refused. -/
def blockSize (xWantedSize : ℕ) : ℕ :=
  if 0 < xWantedSize then
    if heapADD_WILL_OVERFLOW xWantedSize xHeapStructSize then 0
    else
      let xWantedSize := addSize xWantedSize xHeapStructSize
      if xWantedSize &&& portBYTE_ALIGNMENT_MASK ≠ 0 then
        let xAdditionalRequiredSize :=
          subSize portBYTE_ALIGNMENT (xWantedSize &&& portBYTE_ALIGNMENT_MASK)
        if heapADD_WILL_OVERFLOW xWantedSize xAdditionalRequiredSize then 0
        else addSize xWantedSize xAdditionalRequiredSize
      else xWantedSize
  else xWantedSize

/-- The two pointers of the walk in `pvPortMalloc`. -/
structure Walk where
  pxPreviousBlock : ℕ
  pxBlock : ℕ

/-- The walk to the first block that is large enough, or to the end of the list. -/
def findBlock (h : Heap) (xWantedSize : ℕ) : Option Walk :=
  whileLoop (fun w : Walk => h.size w.pxBlock < xWantedSize ∧ h.next w.pxBlock ≠ 0)
    (fun w => ⟨w.pxBlock, h.next w.pxBlock⟩) cellCount ⟨h.xStart, h.next h.xStart⟩

/-- The end of a block that is larger than required goes back to the list. -/
def splitBlock (h : Heap) (w : Walk) (xWantedSize : ℕ) : Option Heap := do
  if heapMINIMUM_BLOCK_SIZE < subSize (h.size w.pxBlock) xWantedSize then
    let pxNewBlockLink := addSize w.pxBlock xWantedSize
    configASSERT (pxNewBlockLink &&& portBYTE_ALIGNMENT_MASK = 0)
    let h := h.setSize pxNewBlockLink (subSize (h.size w.pxBlock) xWantedSize)
    let h := h.setSize w.pxBlock xWantedSize
    let h := h.setNext pxNewBlockLink (h.next w.pxPreviousBlock)
    some (h.setNext w.pxPreviousBlock pxNewBlockLink)
  else some h

/-- The counters, and the mark in the header. -/
def markAllocated (h : Heap) (pxBlock : ℕ) : Heap :=
  let h := { h with xFreeBytesRemaining := subSize h.xFreeBytesRemaining (h.size pxBlock) }
  let h :=
    if h.xFreeBytesRemaining < h.xMinimumEverFreeBytesRemaining then
      { h with xMinimumEverFreeBytesRemaining := h.xFreeBytesRemaining }
    else h
  let h := h.setSize pxBlock (h.size pxBlock ||| heapBLOCK_ALLOCATED_BITMASK)
  let h := h.setNext pxBlock 0
  { h with xNumberOfSuccessfulAllocations := addSize h.xNumberOfSuccessfulAllocations 1 }

/-- The block that the walk has found is taken out of the list. -/
def takeBlock (h : Heap) (w : Walk) (xWantedSize : ℕ) : Option (ℕ × Heap) := do
  let pvReturn := addSize (h.next w.pxPreviousBlock) xHeapStructSize
  let h := h.setNext w.pxPreviousBlock (h.next w.pxBlock)
  configASSERT (¬ heapSUBTRACT_WILL_UNDERFLOW (h.size w.pxBlock) xWantedSize)
  let h ← h.splitBlock w xWantedSize
  some (pvReturn, h.markAllocated w.pxBlock)

def pvPortMalloc (h : Heap) (xWantedSize : ℕ) : Option (ℕ × Heap) := do
  configASSERT (h.pxEnd ≠ 0)
  let xWantedSize := blockSize xWantedSize
  let (pvReturn, h) ←
    if xWantedSize &&& heapBLOCK_ALLOCATED_BITMASK = 0 then
      if 0 < xWantedSize ∧ xWantedSize ≤ h.xFreeBytesRemaining then do
        let w ← h.findBlock xWantedSize
        if w.pxBlock ≠ h.pxEnd then h.takeBlock w xWantedSize else some (0, h)
      else some (0, h)
    else some (0, h)
  configASSERT (pvReturn &&& portBYTE_ALIGNMENT_MASK = 0)
  some (pvReturn, h)

/-! ### `vPortFree` -/

/-- The block in the list after which the address comes. -/
def findPlace (h : Heap) (pxBlockToInsert : ℕ) : Option ℕ :=
  whileLoop (fun pxIterator => h.next pxIterator < pxBlockToInsert)
    (fun pxIterator => h.next pxIterator) cellCount h.xStart

/-- The block is joined with the one before if they touch; the address is that of the block then. -/
def joinBefore (h : Heap) (pxIterator pxBlockToInsert : ℕ) : Heap × ℕ :=
  if addSize pxIterator (h.size pxIterator) = pxBlockToInsert then
    (h.setSize pxIterator (addSize (h.size pxIterator) (h.size pxBlockToInsert)), pxIterator)
  else (h, pxBlockToInsert)

/-- The block is joined with the one behind if they touch, and takes over its pointer. -/
def joinBehind (h : Heap) (pxIterator pxBlockToInsert : ℕ) : Heap :=
  if addSize pxBlockToInsert (h.size pxBlockToInsert) = h.next pxIterator then
    if h.next pxIterator ≠ h.pxEnd then
      let h := h.setSize pxBlockToInsert
        (addSize (h.size pxBlockToInsert) (h.size (h.next pxIterator)))
      h.setNext pxBlockToInsert (h.next (h.next pxIterator))
    else h.setNext pxBlockToInsert h.pxEnd
  else h.setNext pxBlockToInsert (h.next pxIterator)

def prvInsertBlockIntoFreeList (h : Heap) (pxBlockToInsert : ℕ) : Option Heap := do
  let pxIterator ← h.findPlace pxBlockToInsert
  let (h, pxBlockToInsert) := h.joinBefore pxIterator pxBlockToInsert
  let h := h.joinBehind pxIterator pxBlockToInsert
  if pxIterator ≠ pxBlockToInsert then some (h.setNext pxIterator pxBlockToInsert) else some h

def isAllocated (h : Heap) (pxLink : ℕ) : Prop :=
  h.size pxLink &&& heapBLOCK_ALLOCATED_BITMASK ≠ 0

instance (h : Heap) (pxLink : ℕ) : Decidable (h.isAllocated pxLink) :=
  inferInstanceAs (Decidable (_ ≠ _))

def vPortFree (h : Heap) (pv : ℕ) : Option Heap := do
  if pv ≠ 0 then
    let pxLink := subSize pv xHeapStructSize
    configASSERT (h.isAllocated pxLink)
    configASSERT (h.next pxLink = 0)
    if h.isAllocated pxLink then
      if h.next pxLink = 0 then
        let h := h.setSize pxLink (h.size pxLink &&& notSize heapBLOCK_ALLOCATED_BITMASK)
        let h := { h with xFreeBytesRemaining := addSize h.xFreeBytesRemaining (h.size pxLink) }
        let h ← h.prvInsertBlockIntoFreeList pxLink
        some { h with xNumberOfSuccessfulFrees := addSize h.xNumberOfSuccessfulFrees 1 }
      else some h
    else some h
  else some h

def xPortGetFreeHeapSize (h : Heap) : ℕ := h.xFreeBytesRemaining

def xPortGetMinimumEverFreeHeapSize (h : Heap) : ℕ := h.xMinimumEverFreeBytesRemaining

/-! ### `vPortGetHeapStats` -/

structure HeapStats_t where
  xAvailableHeapSpaceInBytes : ℕ
  xSizeOfLargestFreeBlockInBytes : ℕ
  xSizeOfSmallestFreeBlockInBytes : ℕ
  xNumberOfFreeBlocks : ℕ
  xMinimumEverFreeBytesRemaining : ℕ
  xNumberOfSuccessfulAllocations : ℕ
  xNumberOfSuccessfulFrees : ℕ
deriving DecidableEq, Repr

/-- The variables of the walk in `vPortGetHeapStats`. -/
structure StatsWalk where
  pxBlock : ℕ
  xBlocks : ℕ
  xMaxSize : ℕ
  xMinSize : ℕ

/-- One round of the walk. -/
def StatsWalk.visit (h : Heap) (w : StatsWalk) : StatsWalk where
  pxBlock := h.next w.pxBlock
  xBlocks := addSize w.xBlocks 1
  xMaxSize := if w.xMaxSize < h.size w.pxBlock then h.size w.pxBlock else w.xMaxSize
  xMinSize :=
    if h.size w.pxBlock ≠ 0 then
      if h.size w.pxBlock < w.xMinSize then h.size w.pxBlock else w.xMinSize
    else w.xMinSize

def vPortGetHeapStats (h : Heap) : Option HeapStats_t := do
  let w : StatsWalk := ⟨h.next h.xStart, 0, 0, portMAX_DELAY.toNat⟩
  let w ← if w.pxBlock ≠ 0 then
      whileLoop (fun w : StatsWalk => w.pxBlock ≠ h.pxEnd) (StatsWalk.visit h) cellCount w
    else some w
  some {
    xAvailableHeapSpaceInBytes := h.xFreeBytesRemaining
    xSizeOfLargestFreeBlockInBytes := w.xMaxSize
    xSizeOfSmallestFreeBlockInBytes := w.xMinSize
    xNumberOfFreeBlocks := w.xBlocks
    xMinimumEverFreeBytesRemaining := h.xMinimumEverFreeBytesRemaining
    xNumberOfSuccessfulAllocations := h.xNumberOfSuccessfulAllocations
    xNumberOfSuccessfulFrees := h.xNumberOfSuccessfulFrees }

/-! ### `vPortDefineHeapRegions` -/

/-- The aligned start of a region, and the bytes from there to its end. -/
def alignRegion (pxHeapRegion : HeapRegion_t) : ℕ × ℕ :=
  let xAddress := pxHeapRegion.pucStartAddress
  if xAddress &&& portBYTE_ALIGNMENT_MASK ≠ 0 then
    let xAddress := addSize xAddress (portBYTE_ALIGNMENT - 1)
    let xAddress := xAddress &&& notSize portBYTE_ALIGNMENT_MASK
    (xAddress,
      subSize pxHeapRegion.xSizeInBytes (subSize xAddress pxHeapRegion.pucStartAddress))
  else (xAddress, pxHeapRegion.xSizeInBytes)

/-- One round of the loop: the heap, and the size of the first block of the region. -/
def defineRegion (h : Heap) (xDefinedRegions : ℕ) (pxHeapRegion : HeapRegion_t) :
    Option (Heap × ℕ) := do
  let (xAlignedHeap, xTotalRegionSize) := alignRegion pxHeapRegion
  let h ←
    if xDefinedRegions = 0 then
      some { h with link := Function.update h.link h.xStart ⟨xAlignedHeap, 0⟩ }
    else do
      configASSERT (h.pxEnd ≠ 0)
      configASSERT (h.pxEnd < xAlignedHeap)
      some h
  let pxPreviousFreeBlock := h.pxEnd
  let xAddress := addSize xAlignedHeap xTotalRegionSize
  let xAddress := subSize xAddress xHeapStructSize
  let xAddress := xAddress &&& notSize portBYTE_ALIGNMENT_MASK
  let h := { h with pxEnd := xAddress }
  let h := h.setSize h.pxEnd 0
  let h := h.setNext h.pxEnd 0
  let pxFirstFreeBlockInRegion := xAlignedHeap
  let h := h.setSize pxFirstFreeBlockInRegion (subSize xAddress pxFirstFreeBlockInRegion)
  let h := h.setNext pxFirstFreeBlockInRegion h.pxEnd
  let h :=
    if pxPreviousFreeBlock ≠ 0 then h.setNext pxPreviousFreeBlock pxFirstFreeBlockInRegion else h
  some (h, h.size pxFirstFreeBlockInRegion)

/-- The loop over the regions, which ends at one of size zero; there is no result if none comes
before the end of the array. -/
def defineRegions (h : Heap) (xDefinedRegions xTotalHeapSize : ℕ) :
    List HeapRegion_t → Option (Heap × ℕ)
  | []                  => none
  | pxHeapRegion :: rest =>
    if 0 < pxHeapRegion.xSizeInBytes then do
      let (h, xBlockSize) ← h.defineRegion xDefinedRegions pxHeapRegion
      h.defineRegions (xDefinedRegions + 1) (addSize xTotalHeapSize xBlockSize) rest
    else some (h, xTotalHeapSize)

def vPortDefineHeapRegions (h : Heap) (pxHeapRegions : List HeapRegion_t) : Option Heap := do
  configASSERT (h.pxEnd = 0)
  let (h, xTotalHeapSize) ← h.defineRegions 0 0 pxHeapRegions
  let h := { h with xMinimumEverFreeBytesRemaining := xTotalHeapSize }
  let h := { h with xFreeBytesRemaining := xTotalHeapSize }
  configASSERT (xTotalHeapSize ≠ 0)
  some h

end Heap

/-! ### The regions of the program -/

def xHeapRegions : List HeapRegion_t :=
  [⟨0x20200000, 128 * 1024⟩, ⟨0x20220000, 128 * 1024⟩, ⟨0, 0⟩]

def ConfigureHeapRegions (h : Heap) : Option Heap := h.vPortDefineHeapRegions xHeapRegions

end RT1064.Kernel
