import Open3DStream.Lib.Buffer
import Open3DStream.Lib.Words

/-! A byte vector that typed values are pushed onto, and a cursor that they are read back at. -/

namespace Open3DStream

open Lib

/-- What ends a call: an exception, or a `memcpy` that would run past the end of the vector. -/
inductive Fault where
  | StreamException (text : String)
  | out_of_range
  | length_error
  | pastEnd
deriving DecidableEq

/-- `std::vector<uint8_t>::max_size()`. -/
def maxSize : Nat := 9223372036854775807

/-- The vector and the cursor. -/
@[ext] structure BinaryStream where
  bytes : List UInt8
  ptr : Nat
  swaporder : Bool
  size_le : bytes.length ≤ maxSize
deriving DecidableEq

/-- A sum of `size_t`. -/
def addSize (a b : Nat) : Nat := (a + b) % 18446744073709551616

/-- A difference of `size_t`. -/
def subSize (a b : Nat) : Nat := (a + (18446744073709551616 - b)) % 18446744073709551616

/-- The end of an error text, for a caller that says what it is reading. -/
def whileGetting (msg : Option String) : String := msg.elim "" (" while getting " ++ ·)

namespace BinaryStream

def empty : BinaryStream := ⟨[], 0, false, Nat.zero_le _⟩

def size (s : BinaryStream) : Nat := s.bytes.length

def done (s : BinaryStream) : Bool := decide (s.size ≤ s.ptr)

/-! ### Writing -/

def push_back (s : BinaryStream) (b : UInt8) : Except Fault BinaryStream :=
  if h : s.bytes.length < maxSize then
    .ok { s with
      bytes := s.bytes ++ [b]
      size_le := by
        rw [List.length_append]
        exact h }
  else .error .length_error

/-- The first `len` bytes of a buffer. -/
def push (s : BinaryStream) (buf : List UInt8) (len : Nat) : Except Fault BinaryStream :=
  (buf.take len).foldlM push_back s

def pushFloat (s : BinaryStream) (value : UInt32) : Except Fault BinaryStream :=
  s.push (toBytes 4 value.toNat) 4

def pushDouble (s : BinaryStream) (value : UInt64) : Except Fault BinaryStream :=
  s.push (toBytes 8 value.toNat) 8

def pushUInt16 (s : BinaryStream) (value : UInt16) : Except Fault BinaryStream :=
  s.push (toBytes 2 value.toNat) 2

def pushUInt32 (s : BinaryStream) (value : UInt32) : Except Fault BinaryStream :=
  s.push (toBytes 4 value.toNat) 4

def pushUInt64 (s : BinaryStream) (value : UInt64) : Except Fault BinaryStream :=
  s.push (toBytes 8 value.toNat) 8

def pushUInt8 (s : BinaryStream) (value : UInt8) : Except Fault BinaryStream := s.push_back value

/-- The length goes into sixteen bits. -/
def pushVector (s : BinaryStream) (value : List UInt8) : Except Fault BinaryStream := do
  let s ← s.pushUInt16 (.ofNat value.length)
  s.push value value.length

/-- The length goes into eight bits. -/
def pushString (s : BinaryStream) (value : List UInt8) : Except Fault BinaryStream := do
  let s ← s.push_back (.ofNat value.length)
  value.foldlM push_back s

/-! ### Reading -/

/-- The result of a read, what is left in the variable, and the stream. -/
abbrev Got (δ : Type) := Except Fault Unit × δ × BinaryStream

/-- `buf` has room for `len` bytes. -/
def get (s : BinaryStream) (buf : List UInt8) (len : Nat) (msg : Option String) :
    Got (List UInt8) :=
  let sz := s.size
  if sz < addSize s.ptr len then
    let text := "Attempt to read " ++ toString len ++ " bytes with " ++
      toString (subSize s.size s.ptr) ++ " bytes remaining" ++ whileGetting msg
    (.error (.StreamException text), overwrite buf 0 (List.replicate len 0), { s with ptr := s.size })
  else
    match s.bytes[s.ptr]? with
    | none => (.error .out_of_range, buf, s)
    | some _ =>
      if s.size < s.ptr + len then (.error .pastEnd, buf, s)
      else
        (.ok (), overwrite buf 0 ((s.bytes.drop s.ptr).take len),
          { s with ptr := addSize s.ptr len })

/-- The reads of words, which differ in the size of the variable and in how many of its bytes
are read. -/
def getWord (s : BinaryStream) (width len value : Nat) (msg : Option String) : Got Nat :=
  let (result, memory, s) := s.get (toBytes width value) len msg
  match result with
  | .error e => (.error e, ofBytes memory, s)
  | .ok _ => (.ok (), ofBytes (if s.swaporder then memory.reverse else memory), s)

def getFloat (s : BinaryStream) (value : UInt32) (msg : Option String) : Got UInt32 :=
  let (result, value, s) := s.getWord 4 4 value.toNat msg
  (result, .ofNat value, s)

/-- As many bytes as a float has. -/
def getDouble (s : BinaryStream) (value : UInt64) (msg : Option String) : Got UInt64 :=
  let (result, value, s) := s.getWord 8 4 value.toNat msg
  (result, .ofNat value, s)

def getUInt32 (s : BinaryStream) (value : UInt32) (msg : Option String) : Got UInt32 :=
  let (result, value, s) := s.getWord 4 4 value.toNat msg
  (result, .ofNat value, s)

def getUInt16 (s : BinaryStream) (value : UInt16) (msg : Option String) : Got UInt16 :=
  let (result, value, s) := s.getWord 2 2 value.toNat msg
  (result, .ofNat value, s)

def getUInt64 (s : BinaryStream) (value : UInt64) (msg : Option String) : Got UInt64 :=
  let (result, value, s) := s.getWord 8 8 value.toNat msg
  (result, .ofNat value, s)

/-- `at(ptr++)`, which moves the cursor also if it throws. -/
def next (s : BinaryStream) : Except Fault UInt8 × BinaryStream :=
  ((s.bytes[s.ptr]?).elim (.error .out_of_range) .ok, { s with ptr := addSize s.ptr 1 })

def getUInt8 (s : BinaryStream) (value : UInt8) (msg : Option String) : Got UInt8 :=
  if s.size ≤ s.ptr then
    (.error (.StreamException
      ("Attempt to a char read past the end of the buffer" ++ whileGetting msg)), 255, s)
  else
    match s.next with
    | (.error e, s) => (.error e, value, s)
    | (.ok b, s) => (.ok (), b, s)

/-- The loop over the elements from `i` on, of which `left` are left. -/
def getElements (msg : Option String) (s : BinaryStream) (value : List UInt8) (i : Nat) :
    Nat → Got (List UInt8)
  | 0 => (.ok (), value, s)
  | left + 1 =>
    if s.size ≤ s.ptr then
      (.error (.StreamException
        ("Read past end while getting data buffer" ++ whileGetting msg)), value, s)
    else
      match s.next with
      | (.error e, s) => (.error e, value, s)
      | (.ok b, s) => getElements msg s (value.set i b) (i + 1) left

/-- The length is read without the caller's message, and the variable is resized before
anything else is. -/
def getVector (s : BinaryStream) (value : List UInt8) (msg : Option String) : Got (List UInt8) :=
  match s.getUInt16 0 none with
  | (.error e, _, s) => (.error e, value, s)
  | (.ok _, len, s) => getElements msg s (resize value len.toNat) 0 len.toNat

/-- The loop over the characters. -/
def getChars (s : BinaryStream) (value : List UInt8) : Nat → Got (List UInt8)
  | 0 => (.ok (), value, s)
  | left + 1 =>
    if s.ptr < s.size then
      match s.next with
      | (.error e, s) => (.error e, value, s)
      | (.ok b, s) => getChars s (value ++ [b]) left
    else (.ok (), value, s)

def getString (s : BinaryStream) (_value : List UInt8) (msg : Option String) : Got (List UInt8) :=
  if s.done then
    (.error (.StreamException
      ("Attempt to read past end looking for string" ++ whileGetting msg)), [], s)
  else
    match s.next with
    | (.error e, s) => (.error e, [], s)
    | (.ok len, s) =>
      if s.size < addSize len.toNat s.ptr then
        (.error (.StreamException ("Incomplete string" ++ whileGetting msg)), [], s)
      else s.getChars [] len.toNat

end BinaryStream

end Open3DStream
