import ProcessorBench.Bytes.Basic

/-!
# Check sums

`Crc32.ofBytes` is the remainder, with its bits in reverse, of the bytes as a polynomial over two elements.
Archives keep it beside each file, to find out whether the file has been damaged.
-/

namespace ProcessorBench.Crc32

/-- The divisor without its leading term, the lowest power in the highest bit. -/
def polynomial : UInt32 := 0xEDB88320

/-- Shift one bit out, and subtract the divisor if the bit is set. -/
def shift (r : UInt32) : UInt32 := if r % 2 = 1 then (r >>> 1) ^^^ polynomial else r >>> 1

/-- Take another byte into the remainder. -/
def step (r : UInt32) (b : UInt8) : UInt32 := Nat.repeat shift 8 (r ^^^ b.toUInt32)

/-- The check sum of some bytes. -/
def ofBytes (bytes : Bytes) : UInt32 := bytes.foldl step 0xFFFFFFFF ^^^ 0xFFFFFFFF

end ProcessorBench.Crc32
