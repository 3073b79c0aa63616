namespace StackCode

/-!
# CRC-32

* `crc32` — the cyclic redundancy check of the reflected polynomial `0xEDB88320`, with all bits
  set at the start and flipped at the end.
-/

namespace Crc32

/-- The reflected polynomial of the checksum. -/
def polynomial : UInt32 := 0xEDB88320

/-- Divides by the polynomial for one bit. -/
def step (crc : UInt32) : UInt32 :=
  if crc &&& 1 = 1 then (crc >>> 1) ^^^ polynomial else crc >>> 1

/-- Takes in one byte. -/
def update (crc : UInt32) (byte : UInt8) : UInt32 :=
  let c := crc ^^^ byte.toUInt32
  step (step (step (step (step (step (step (step c)))))))

end Crc32

/-- The checksum of some bytes. -/
def crc32 (bytes : List UInt8) : UInt32 := ~~~(bytes.foldl Crc32.update 0xFFFFFFFF)

end StackCode
