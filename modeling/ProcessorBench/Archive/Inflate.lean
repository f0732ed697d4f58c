import ProcessorBench.Bytes.Basic

/-!
# Compressed data

Compressed data is a row of blocks, read bit by bit. A block is a row of symbols in a prefix code; a symbol
is a byte, or a copy of bytes that came before. `Inflate.decode?` writes the blocks out.
-/

namespace ProcessorBench.Inflate

/-- The bits of a byte, the lowest first. -/
def bitsOfByte (b : UInt8) : List Bool := (List.range 8).map fun i => b.toNat.testBit i

/-- The bits of some bytes in the order in which they are read. -/
def bitsOf (bytes : Bytes) : List Bool := bytes.flatMap bitsOfByte

/-- Bytes that have been filled with bits, the lowest first. Bits that do not fill a byte are left out. -/
def bytesOfBits : List Bool → Bytes
  | b₀ :: b₁ :: b₂ :: b₃ :: b₄ :: b₅ :: b₆ :: b₇ :: rest =>
    UInt8.ofNat ([b₇, b₆, b₅, b₄, b₃, b₂, b₁, b₀].foldl (fun n b => 2 * n + b.toNat) 0) ::
      bytesOfBits rest
  | _ => []

/-- Why decoding ends early. -/
inductive Stop where
  /-- There are no more bits. -/
  | exhausted
  /-- The bits are no compressed data. -/
  | corrupt
deriving DecidableEq, Repr

/-- A step of decoding: the bits that are left, and the bytes written so far, which remain when it stops. -/
structure State where
  bits : List Bool
  output : Array UInt8 := #[]

/-- A step that may stop. -/
abbrev Step := EStateM Stop State

/-- Read one bit. -/
def bit : Step Bool := fun ⟨bits, output⟩ =>
  match bits with
  | b :: rest => .ok b ⟨rest, output⟩
  | [] => .error .exhausted ⟨[], output⟩

/-- Read a number of so many bits, the lowest first. -/
def number : Nat → Step Nat
  | 0 => return 0
  | n + 1 => do
    let low ← bit
    return low.toNat + 2 * (← number n)

/-- Read numbers of three bits. -/
def numbers (width : Nat) : Nat → Step (List Nat)
  | 0 => return []
  | n + 1 => return (← number width) :: (← numbers width n)

/-- Write a byte. -/
def emit (b : UInt8) : Step Unit := fun ⟨bits, output⟩ => .ok () ⟨bits, output.push b⟩

/-- Write again so many of the bytes that are the given distance back. -/
def copy (distance : Nat) : Nat → Step Unit
  | 0 => return
  | n + 1 => fun ⟨bits, output⟩ =>
    if h : 0 < distance ∧ distance ≤ output.size then
      have inside : output.size - distance < output.size := by omega
      copy distance n ⟨bits, output.push output[output.size - distance]⟩
    else .error .corrupt ⟨bits, output⟩

/-! ## Prefix codes -/

/-- A prefix code: for each length from 1 to the greatest one, the symbols of that length in their order. Words
of one length follow each other, and those of a greater length come after them. -/
abbrev PrefixCode := List (List Nat)

namespace PrefixCode

/-- The prefix code in which each symbol has a word of the given length, or none for length 0. One without
words has room for words of length 1. -/
def ofLengths (lengths : List Nat) : PrefixCode :=
  (List.range (lengths.foldl max 1)).map fun i =>
    (lengths.zipIdx.filter fun (length, _) => length = i + 1).map (·.2)

/-- Whether there are no words. -/
def isEmpty (code : PrefixCode) : Bool := code.all (·.isEmpty)

/-- How many words of the greatest length are free, when `free` words of length 0 are. Nothing if there are
too many words. -/
def room? : PrefixCode → (free : Nat) → Option Nat
  | [], free => some free
  | symbols :: longer, free =>
    if symbols.length ≤ 2 * free then room? longer (2 * free - symbols.length) else none

/-- Whether no word is free. -/
def isComplete (code : PrefixCode) : Bool := code.room? 1 = some 0

/-- Whether the code is complete, or has at most one word, which is a single bit. -/
def isUsable (code : PrefixCode) : Bool :=
  code.isComplete || code.length ≤ 1 && (code.room? 1).isSome

end PrefixCode

/-- Read a symbol. The words of the lengths that are left start at `first`, and `code` is what has been
read of the word. -/
def symbolFrom : PrefixCode → (first code : Nat) → Step Nat
  | [], _, _ => throw .corrupt
  | symbols :: longer, first, code => do
    let code := 2 * code + (← bit).toNat
    let first := 2 * first
    match symbols[code - first]? with
    | some symbol => return symbol
    | none => symbolFrom longer (first + symbols.length) code

/-- Read a symbol of a prefix code. -/
def symbol (code : PrefixCode) : Step Nat := symbolFrom code 0 0

/-! ## Blocks -/

/-- The number of further bits and the least length, for each symbol of a copy. -/
def copyLengths : List (Nat × Nat) :=
  [(0, 3), (0, 4), (0, 5), (0, 6), (0, 7), (0, 8), (0, 9), (0, 10), (1, 11), (1, 13), (1, 15), (1, 17),
   (2, 19), (2, 23), (2, 27), (2, 31), (3, 35), (3, 43), (3, 51), (3, 59), (4, 67), (4, 83), (4, 99),
   (4, 115), (5, 131), (5, 163), (5, 195), (5, 227), (0, 258)]

/-- The number of further bits and the least distance, for each symbol of a distance. -/
def copyDistances : List (Nat × Nat) :=
  [(0, 1), (0, 2), (0, 3), (0, 4), (1, 5), (1, 7), (2, 9), (2, 13), (3, 17), (3, 25), (4, 33), (4, 49),
   (5, 65), (5, 97), (6, 129), (6, 193), (7, 257), (7, 385), (8, 513), (8, 769), (9, 1025), (9, 1537),
   (10, 2049), (10, 3073), (11, 4097), (11, 6145), (12, 8193), (12, 12289), (13, 16385), (13, 24577)]

/-- Read the rest of a number whose row in a table is known. -/
def ranged (table : List (Nat × Nat)) (row : Nat) : Step Nat :=
  match table[row]? with
  | some (extra, least) => return least + (← number extra)
  | none => throw .corrupt

/-- The symbol that ends a block. -/
def endOfBlock : Nat := 256

/-- Read symbols to the end of the block. Each takes a bit at least, so that there are no more symbols
than bits. -/
def symbols (literals distances : PrefixCode) : (fuel : Nat) → Step Unit
  | 0 => throw .exhausted
  | fuel + 1 => do
    let s ← symbol literals
    if s < endOfBlock then
      emit (UInt8.ofNat s)
      symbols literals distances fuel
    else if s = endOfBlock then return
    else
      let length ← ranged copyLengths (s - endOfBlock - 1)
      let distance ← ranged copyDistances (← symbol distances)
      copy distance length
      symbols literals distances fuel

/-- The code for bytes and copies of a block that brings none. -/
def fixedLiterals : PrefixCode :=
  .ofLengths (List.replicate 144 8 ++ List.replicate 112 9 ++ List.replicate 24 7 ++ List.replicate 8 8)

/-- The code for distances of a block that brings none. -/
def fixedDistances : PrefixCode := .ofLengths (List.replicate 32 5)

/-- The greatest number of literals and copies that a block can have words for. -/
def greatestLiteralCount : Nat := endOfBlock + 1 + copyLengths.length

/-- The order in which the lengths of the code for lengths are written. -/
def lengthOrder : List Nat := [16, 17, 18, 0, 8, 7, 9, 6, 10, 5, 11, 4, 12, 3, 13, 2, 14, 1, 15]

/-- Read so many lengths of code words, the last ones first in `known`. A length can be repeated. -/
def lengths (code : PrefixCode) (count : Nat) : (fuel : Nat) → (known : List Nat) → Step (List Nat)
  | 0, _ => throw .exhausted
  | fuel + 1, known => do
    if known.length > count then throw .corrupt
    if known.length = count then return known.reverse
    let s ← symbol code
    if s < 16 then lengths code count fuel (s :: known)
    else if s = 16 then
      let times := 3 + (← number 2)
      match known with
      | last :: _ => lengths code count fuel (List.replicate times last ++ known)
      | [] => throw .corrupt
    else if s = 17 then lengths code count fuel (List.replicate (3 + (← number 3)) 0 ++ known)
    else lengths code count fuel (List.replicate (11 + (← number 7)) 0 ++ known)

/-- Read the two codes of a block that brings its own. If the code for their lengths has no words, each length
is a bit that says nothing, so that there is no word for the end of the block. -/
def dynamicCodes : Step (PrefixCode × PrefixCode) := do
  let literalCount := 257 + (← number 5)
  let distanceCount := 1 + (← number 5)
  let lengthCount := 4 + (← number 4)
  if literalCount > greatestLiteralCount || distanceCount > copyDistances.length then throw .corrupt
  let given ← numbers 3 lengthCount
  let lengthOf s := ((lengthOrder.zip given).lookup s).getD 0
  let code := PrefixCode.ofLengths ((List.range lengthOrder.length).map lengthOf)
  let count := literalCount + distanceCount
  if code.isEmpty then
    discard <| number count
    throw .corrupt
  unless code.isComplete do throw .corrupt
  let all ← lengths code count (count + 1) []
  if all[endOfBlock]? = some 0 then throw .corrupt
  let literals := PrefixCode.ofLengths (all.take literalCount)
  let distances := PrefixCode.ofLengths (all.drop literalCount)
  unless literals.isUsable && distances.isUsable do throw .corrupt
  return (literals, distances)

/-- Pass over bits up to the next byte, whose bits are all there. -/
def align : Step Unit := modify fun s => { s with bits := s.bits.drop (s.bits.length % 8) }

/-- Write bytes that have been stored as they are. -/
def stored : Step Unit := do
  align
  let size ← number 16
  let inverse ← number 16
  if size + inverse ≠ 0xFFFF then throw .corrupt
  let present := (← get).bits.take (8 * size)
  modify fun s => { bits := s.bits.drop (8 * size), output := s.output ++ bytesOfBits present }
  if present.length < 8 * size then throw .exhausted

/-- Read blocks up to the one that says it is the last. -/
def blocks : (fuel : Nat) → Step Unit
  | 0 => throw .exhausted
  | fuel + 1 => do
    let isLast ← bit
    match ← number 2 with
    | 0 => stored
    | 1 => symbols fixedLiterals fixedDistances ((← get).bits.length + 1)
    | 2 =>
      let (literals, distances) ← dynamicCodes
      symbols literals distances ((← get).bits.length + 1)
    | _ => throw .corrupt
    if isLast then return
    blocks fuel

/-- The data that some bytes are the compressed form of. If they break off, it is the part that they give;
if they are no compressed data, there is none. -/
def decode? (bytes : Bytes) : Option Bytes :=
  let bits := bitsOf bytes
  match (blocks (bits.length + 1)).run { bits } with
  | .ok () state | .error .exhausted state => some state.output.toList
  | .error .corrupt _ => none

end ProcessorBench.Inflate
