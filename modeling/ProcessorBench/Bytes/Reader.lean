import ProcessorBench.Bytes.Basic

/-!
# Reading a byte string from the front

A reader consumes a prefix of its input and hands on the rest. It carries no position: a read that
finds too few bytes reports how many were left and how many it lacked, and whoever knows the length
of the whole input turns that into an offset.
-/

namespace ProcessorBench

/-- Why a read stopped. -/
inductive ReadFailure (ε : Type) where
  /-- Only `left` bytes were left where `lacking` more were wanted. -/
  | shortfall (left lacking : Nat)
  /-- The bytes were there and were refused. -/
  | refused (cause : ε)
deriving DecidableEq, Repr

/-- A read from the front of a byte string: a value and the bytes after it, or why there is none. -/
abbrev Reader (ε : Type) := StateT Bytes (Except (ReadFailure ε))

namespace Reader

variable {ε : Type}

/-- Refuse what was read. -/
def refuse {α : Type} (cause : ε) : Reader ε α := throw (.refused cause)

/-- The outcome of a pure step that may refuse. -/
def ofExcept {α : Type} : Except ε α → Reader ε α
  | .ok a => pure a
  | .error cause => refuse cause

/-- A read that wants one byte more than there is, whatever the input. -/
def exhausted {α : Type} : Reader ε α := fun bytes => .error (.shortfall bytes.length 1)

/-- The next `n` bytes. -/
def take (n : Nat) : Reader ε Bytes := fun bytes =>
  match bytes.split? n with
  | some result => .ok result
  | none => .error (.shortfall bytes.length (n - bytes.length))

/-- All bytes that are left. -/
def takeAll : Reader ε Bytes := fun bytes => .ok (bytes, [])

/-- The value a reader would give, without consuming anything. -/
def peek {α : Type} (item : Reader ε α) : Reader ε α := fun bytes =>
  match item bytes with
  | .ok (value, _) => .ok (value, bytes)
  | .error failure => .error failure

/-- An unsigned big-endian number of `width` bytes. -/
def number (width : Nat) : Reader ε Nat := return (← take width).toNat

/-- An unsigned byte. -/
def u8 : Reader ε UInt8 := return UInt8.ofNat (← number 1)

/-- An unsigned 16-bit word. -/
def u16 : Reader ε UInt16 := return UInt16.ofNat (← number 2)

/-- An unsigned 32-bit word. -/
def u32 : Reader ε UInt32 := return UInt32.ofNat (← number 4)

/-- The same reader `n` times over. -/
def times {α : Type} (item : Reader ε α) : Nat → Reader ε (List α)
  | 0 => pure []
  | n + 1 => return (← item) :: (← times item n)

/-- A 16-bit count and then that many items. -/
def counted {α : Type} (item : Reader ε α) : Reader ε (List α) := do
  times item (← u16).toNat

end Reader

end ProcessorBench
