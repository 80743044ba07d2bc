/-!
# Fingerprints

A 64-bit hash of a text by the FNV-1a rule: starting from the offset basis, each byte of the UTF-8
form is combined by exclusive or, and the result is multiplied by the prime, modulo `2 ^ 64`.
-/

namespace PluralRules

structure Fingerprint where
  value : UInt64
  deriving DecidableEq, Repr

namespace Fingerprint

/-- The hash of no bytes at all. -/
def offsetBasis : UInt64 := 0xcbf29ce484222325

/-- The multiplier of every step. -/
def prime : UInt64 := 0x100000001b3

def step (hash : UInt64) (byte : UInt8) : UInt64 := (hash ^^^ byte.toUInt64) * prime

def ofChars (s : List Char) : Fingerprint :=
  ⟨(s.flatMap String.utf8EncodeChar).foldl step offsetBasis⟩

def ofString (s : String) : Fingerprint := ofChars s.toList

/-- Sixteen hexadecimal digits under the name of what they identify. -/
def toString (f : Fingerprint) : String :=
  let digits := Nat.toDigits 16 f.value.toNat
  "ExpressionHash(" ++ String.ofList (List.replicate (16 - digits.length) '0' ++ digits) ++ ")"

end Fingerprint

end PluralRules
