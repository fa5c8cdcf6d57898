import Mathlib.Tactic
import Mathlib.Data.BitVec
import RT1064.Core.Memory
import RT1064.Core.Run

/-!
# The byte ring buffer

`Ringbuffer` holds its bytes on the heap between `_start` and `_end`; one byte stays free so that
a full buffer does not look empty. `size_t` is `BitVec w`, so all index arithmetic is modulo
`2 ^ w`. A pointer to bytes is a function of the offset, `none` being the null pointer; each
`memcpy` into or out of the heap block reports the span of the block it touches.
-/

namespace RT1064

open Core

variable {w : ℕ}

/-- The members of the class, with their initial values. -/
structure Ringbuffer (w : ℕ) where
  _size : BitVec w := 0
  _ringbuffer : Option (ℕ → UInt8) := none
  _start : BitVec w := 0
  _end : BitVec w := 0

/-- What a member function returns, the object it leaves, and the spans of the heap block that
its `memcpy` calls touched. -/
structure Ringbuffer.Result (w : ℕ) (α : Type) where
  ret : α
  rb : Ringbuffer w
  touched : List Span

namespace Ringbuffer

/-- `memcpy(&_ringbuffer[off], src, len)`. -/
def copyIn (rb : Ringbuffer w) (off : BitVec w) (src : ℕ → UInt8) (len : BitVec w) :
    Ringbuffer w :=
  { rb with _ringbuffer := rb._ringbuffer.map fun m => copyInto m off.toNat src len.toNat }

/-- The bytes at `&_ringbuffer[off]`. Behind a null pointer there is nothing to model. -/
def bytesAt (rb : Ringbuffer w) (off : BitVec w) : ℕ → UInt8 :=
  fun i => (rb._ringbuffer.getD fun _ => 0) (off.toNat + i)

/-- The constructor: no storage is allocated. -/
def new : Ringbuffer w := {}

/-- `allocate`; `none` where the assertion fails. The bytes of a block from `new[]` are not
initialised, so they are an argument. -/
def allocate (rb : Ringbuffer w) (buffer_size : BitVec w) (block : ℕ → UInt8) :
    Option (Result w Bool) :=
  if rb._ringbuffer.isSome then none
  else
    let rb := { rb with _size := buffer_size, _ringbuffer := some block }
    some ⟨rb._ringbuffer.isSome, rb, []⟩

def deallocate (rb : Ringbuffer w) : Ringbuffer w :=
  { rb with _ringbuffer := none, _size := 0 }

def space_available (rb : Ringbuffer w) : BitVec w :=
  if rb._end < rb._start then rb._start - rb._end - 1
  else rb._start - rb._end - 1 + rb._size

def space_used (rb : Ringbuffer w) : BitVec w :=
  if rb._start ≤ rb._end then rb._end - rb._start
  else rb._end - rb._start + rb._size

def push_back (rb : Ringbuffer w) (buf : Option (ℕ → UInt8)) (buf_len : BitVec w) :
    Result w Bool :=
  match buf with
  | none => ⟨false, rb, []⟩
  | some src =>
    if buf_len = 0 then ⟨false, rb, []⟩
    else if rb._end < rb._start then
      -- add after end up to start, no wrap around
      let available := rb._start - rb._end - 1
      if available < buf_len then ⟨false, rb, []⟩
      else
        ⟨true, { rb.copyIn rb._end src buf_len with _end := rb._end + buf_len },
          [⟨rb._end.toNat, buf_len.toNat⟩]⟩
    else
      -- add after end, maybe wrap around
      let available := rb._start - rb._end - 1 + rb._size
      if available < buf_len then ⟨false, rb, []⟩
      else
        let remaining_packet_len := rb._size - rb._end
        if remaining_packet_len < buf_len then
          let rest := buf_len - remaining_packet_len
          let rb1 := { rb.copyIn rb._end src remaining_packet_len with _end := 0 }
          let rb2 := rb1.copyIn rb1._end (fun i => src (remaining_packet_len.toNat + i)) rest
          ⟨true, { rb2 with _end := rb2._end + rest },
            [⟨rb._end.toNat, remaining_packet_len.toNat⟩, ⟨rb1._end.toNat, rest.toNat⟩]⟩
        else
          ⟨true, { rb.copyIn rb._end src buf_len with _end := rb._end + buf_len },
            [⟨rb._end.toNat, buf_len.toNat⟩]⟩

/-- `math::min`. -/
def min (a b : BitVec w) : BitVec w := if a < b then a else b

/-- `pop_front` returns the number of bytes and leaves them in the caller's buffer. -/
def pop_front (rb : Ringbuffer w) (buf : Option (ℕ → UInt8)) (buf_max_len : BitVec w) :
    Result w (BitVec w × Option (ℕ → UInt8)) :=
  match buf with
  | none => ⟨(0, none), rb, []⟩
  | some out =>
    if rb._start = rb._end then ⟨(0, some out), rb, []⟩
    else if rb._start < rb._end then
      -- no wrap around
      let to_copy_len := min (rb._end - rb._start) buf_max_len
      ⟨(to_copy_len, some (copyInto out 0 (rb.bytesAt rb._start) to_copy_len.toNat)),
        { rb with _start := rb._start + to_copy_len },
        [⟨rb._start.toNat, to_copy_len.toNat⟩]⟩
    else
      -- potential wrap around
      let held := rb._end - rb._start + rb._size
      let to_copy_len := if buf_max_len < held then buf_max_len else held
      let remaining_buf_len := rb._size - rb._start
      if remaining_buf_len < to_copy_len then
        let rest := to_copy_len - remaining_buf_len
        let out1 := copyInto out 0 (rb.bytesAt rb._start) remaining_buf_len.toNat
        let rb1 := { rb with _start := 0 }
        let out2 := copyInto out1 remaining_buf_len.toNat (rb1.bytesAt rb1._start) rest.toNat
        ⟨(to_copy_len, some out2), { rb1 with _start := rb1._start + rest },
          [⟨rb._start.toNat, remaining_buf_len.toNat⟩, ⟨rb1._start.toNat, rest.toNat⟩]⟩
      else
        ⟨(to_copy_len, some (copyInto out 0 (rb.bytesAt rb._start) to_copy_len.toNat)),
          { rb with _start := rb._start + to_copy_len },
          [⟨rb._start.toNat, to_copy_len.toNat⟩]⟩

/-! ### Calls and histories -/

/-- The calls a client makes between `allocate` and `deallocate`. -/
inductive Call (w : ℕ) where
  | push_back (buf : Option (ℕ → UInt8)) (buf_len : BitVec w)
  | pop_front (buf : Option (ℕ → UInt8)) (buf_max_len : BitVec w)
  | space_used
  | space_available

/-- The value a call hands back. -/
inductive Reply (w : ℕ) where
  | pushed (ok : Bool)
  | popped (n : BitVec w) (buf : Option (ℕ → UInt8))
  | space (n : BitVec w)

/-- One call. -/
def call (rb : Ringbuffer w) : Call w → Result w (Reply w)
  | .push_back buf len =>
    let r := rb.push_back buf len
    ⟨.pushed r.ret, r.rb, r.touched⟩
  | .pop_front buf max =>
    let r := rb.pop_front buf max
    ⟨.popped r.ret.1 r.ret.2, r.rb, r.touched⟩
  | .space_used      => ⟨.space rb.space_used, rb, []⟩
  | .space_available => ⟨.space rb.space_available, rb, []⟩

/-- A call as a step of a machine that answers. -/
def step (rb : Ringbuffer w) (c : Call w) : Reply w × Ringbuffer w :=
  ((rb.call c).ret, (rb.call c).rb)

/-- Each `memcpy` of each call of the run stays inside a block of `n` bytes. -/
def StaysInside (n : ℕ) (rb : Ringbuffer w) (cs : List (Call w)) : Prop :=
  EveryStep (fun rb c => (rb.call c).rb) (fun rb c => ∀ t ∈ (rb.call c).touched, t.Within n) rb cs

/-- What can happen to an object over its life. -/
inductive Op (w : ℕ) where
  | call (c : Call w)
  | allocate (buffer_size : BitVec w) (block : ℕ → UInt8)
  | deallocate

/-- One operation; `none` where an assertion fails. -/
def apply (rb : Ringbuffer w) : Op w → Option (Ringbuffer w)
  | .call c           => some (rb.call c).rb
  | .allocate n block => (rb.allocate n block).map Result.rb
  | .deallocate       => some rb.deallocate

/-- The object after a history of operations. -/
def history (rb : Ringbuffer w) (ops : List (Op w)) : Option (Ringbuffer w) :=
  ops.foldlM apply rb

end Ringbuffer

end RT1064
