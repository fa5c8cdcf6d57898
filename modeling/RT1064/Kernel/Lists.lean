import RT1064.Core.Rota
import RT1064.Core.While
import RT1064.Kernel.Portmacro

/-!
# The lists of the kernel

`list.c` with its pointers: every list has an end marker, and the items and the marker form a
circle in both directions. List and item structures are names here; a pointer names an item or the
marker of a list. The owner of an item is the item itself, as each is a part of its owner. A
function has no result where it would follow a null pointer or take a marker for an item.
-/

namespace RT1064.Kernel

open Core

universe u

inductive Node (L I : Type u)
  | xListEnd (pxList : L)
  | item (pxItem : I)
deriving DecidableEq, Repr

/-- The memory of all lists and items. -/
structure Lists (L I : Type u) where
  pxNext : Node L I → Node L I
  pxPrevious : Node L I → Node L I
  xItemValue : Node L I → TickType_t
  pxContainer : I → Option L
  uxNumberOfItems : L → ℕ
  pxIndex : L → Node L I

namespace Lists

variable {L I : Type u} [DecidableEq L] [DecidableEq I]

def setNext (m : Lists L I) (a b : Node L I) : Lists L I :=
  { m with pxNext := Function.update m.pxNext a b }

def setPrevious (m : Lists L I) (a b : Node L I) : Lists L I :=
  { m with pxPrevious := Function.update m.pxPrevious a b }

def setValue (m : Lists L I) (a : Node L I) (v : TickType_t) : Lists L I :=
  { m with xItemValue := Function.update m.xItemValue a v }

def setContainer (m : Lists L I) (i : I) (c : Option L) : Lists L I :=
  { m with pxContainer := Function.update m.pxContainer i c }

def setNumber (m : Lists L I) (l : L) (n : ℕ) : Lists L I :=
  { m with uxNumberOfItems := Function.update m.uxNumberOfItems l n }

def setIndex (m : Lists L I) (l : L) (a : Node L I) : Lists L I :=
  { m with pxIndex := Function.update m.pxIndex l a }

/-! ### The functions of `list.c` -/

def vListInitialise (m : Lists L I) (pxList : L) : Lists L I :=
  let m := m.setIndex pxList (.xListEnd pxList)
  let m := m.setValue (.xListEnd pxList) portMAX_DELAY
  let m := m.setNext (.xListEnd pxList) (.xListEnd pxList)
  let m := m.setPrevious (.xListEnd pxList) (.xListEnd pxList)
  m.setNumber pxList 0

def vListInitialiseItem (m : Lists L I) (pxItem : I) : Lists L I := m.setContainer pxItem none

def listSET_LIST_ITEM_VALUE (m : Lists L I) (pxItem : I) (xValue : TickType_t) : Lists L I :=
  m.setValue (.item pxItem) xValue

def vListInsertEnd (m : Lists L I) (pxList : L) (pxNewListItem : I) : Lists L I :=
  let pxIndex := m.pxIndex pxList
  let m := m.setNext (.item pxNewListItem) pxIndex
  let m := m.setPrevious (.item pxNewListItem) (m.pxPrevious pxIndex)
  let m := m.setNext (m.pxPrevious pxIndex) (.item pxNewListItem)
  let m := m.setPrevious pxIndex (.item pxNewListItem)
  let m := m.setContainer pxNewListItem (some pxList)
  m.setNumber pxList (m.uxNumberOfItems pxList + 1)

/-- The item after which one with the value comes; a walk with more rounds than the list has items
does not end. -/
def insertionPoint (m : Lists L I) (pxList : L) (xValueOfInsertion : TickType_t) :
    Option (Node L I) :=
  if xValueOfInsertion = portMAX_DELAY then some (m.pxPrevious (.xListEnd pxList))
  else whileLoop (fun pxIterator => m.xItemValue (m.pxNext pxIterator) ≤ xValueOfInsertion)
    (fun pxIterator => m.pxNext pxIterator) (m.uxNumberOfItems pxList) (.xListEnd pxList)

def vListInsert (m : Lists L I) (pxList : L) (pxNewListItem : I) : Option (Lists L I) := do
  let pxIterator ← m.insertionPoint pxList (m.xItemValue (.item pxNewListItem))
  let m := m.setNext (.item pxNewListItem) (m.pxNext pxIterator)
  let m := m.setPrevious (m.pxNext (.item pxNewListItem)) (.item pxNewListItem)
  let m := m.setPrevious (.item pxNewListItem) pxIterator
  let m := m.setNext pxIterator (.item pxNewListItem)
  let m := m.setContainer pxNewListItem (some pxList)
  some (m.setNumber pxList (m.uxNumberOfItems pxList + 1))

def uxListRemove (m : Lists L I) (pxItemToRemove : I) : Option (ℕ × Lists L I) := do
  let pxList ← m.pxContainer pxItemToRemove
  let m := m.setPrevious (m.pxNext (.item pxItemToRemove)) (m.pxPrevious (.item pxItemToRemove))
  let m := m.setNext (m.pxPrevious (.item pxItemToRemove)) (m.pxNext (.item pxItemToRemove))
  let m :=
    if m.pxIndex pxList = .item pxItemToRemove then
      m.setIndex pxList (m.pxPrevious (.item pxItemToRemove))
    else m
  let m := m.setContainer pxItemToRemove none
  let m := m.setNumber pxList (m.uxNumberOfItems pxList - 1)
  some (m.uxNumberOfItems pxList, m)

/-! ### The macros of `list.h` -/

def listCURRENT_LIST_LENGTH (m : Lists L I) (pxList : L) : ℕ := m.uxNumberOfItems pxList

/-- The owner of what a pointer names. -/
def pvOwner : Node L I → Option I
  | .xListEnd _ => none
  | .item i     => some i

def listGET_OWNER_OF_NEXT_ENTRY (m : Lists L I) (pxList : L) : Option (I × Lists L I) := do
  let m := m.setIndex pxList (m.pxNext (m.pxIndex pxList))
  let m :=
    if m.pxIndex pxList = .xListEnd pxList then m.setIndex pxList (m.pxNext (.xListEnd pxList))
    else m
  let pxTCB ← pvOwner (m.pxIndex pxList)
  some (pxTCB, m)

def listGET_OWNER_OF_HEAD_ENTRY (m : Lists L I) (pxList : L) : Option I :=
  pvOwner (m.pxNext (.xListEnd pxList))

def listGET_ITEM_VALUE_OF_HEAD_ENTRY (m : Lists L I) (pxList : L) : TickType_t :=
  m.xItemValue (m.pxNext (.xListEnd pxList))

end Lists

end RT1064.Kernel
