import Mathlib.Data.List.Basic
import Mathlib.Data.UInt

/-!
# The protobuf wire format

A number is written seven bits a byte, the lowest first, with the high bit set on all bytes but the
last. A byte string is written behind its length, and a field behind a byte that holds its tag.
-/

namespace Wire

/-- `fuel` bounds the number of further bytes; a number is fuel enough for itself. -/
def varintWith : (fuel n : Nat) → List UInt8
  | 0, n => [UInt8.ofNat n]
  | fuel + 1, n =>
      if n < 128 then [UInt8.ofNat n]
      else UInt8.ofNat (n % 128 + 128) :: varintWith fuel (n / 128)

def varint (n : Nat) : List UInt8 := varintWith n n

def readVarint : List UInt8 → Option (Nat × List UInt8)
  | [] => none
  | byte :: rest =>
      if byte.toNat < 128 then some (byte.toNat, rest)
      else (readVarint rest).map fun (n, rest) => (byte.toNat - 128 + 128 * n, rest)

def delimited (bytes : List UInt8) : List UInt8 := varint bytes.length ++ bytes

def readDelimited (input : List UInt8) : Option (List UInt8 × List UInt8) :=
  (readVarint input).bind fun (n, rest) =>
    if n ≤ rest.length then some (rest.take n, rest.drop n) else none

def readTag (tag : UInt8) : List UInt8 → Option (List UInt8)
  | [] => none
  | byte :: rest => if byte = tag then some rest else none

theorem toNat_ofNat_of_lt {n : Nat} (h : n < 256) : (UInt8.ofNat n).toNat = n := by
  rw [UInt8.toNat_ofNat']
  omega

theorem readVarint_varintWith {fuel n : Nat} (h : n ≤ fuel) (rest : List UInt8) :
    readVarint (varintWith fuel n ++ rest) = some (n, rest) := by
  induction fuel generalizing n with
  | zero =>
      obtain rfl : n = 0 := by omega
      rfl
  | succ fuel ih =>
      unfold varintWith
      by_cases hsmall : n < 128
      · rw [if_pos hsmall, List.singleton_append, readVarint, toNat_ofNat_of_lt (by omega),
          if_pos hsmall]
      · have hbyte : (UInt8.ofNat (n % 128 + 128)).toNat = n % 128 + 128 :=
          toNat_ofNat_of_lt (by omega)
        have hvalue : n % 128 + 128 - 128 + 128 * (n / 128) = n := by omega
        rw [if_neg hsmall, List.cons_append, readVarint, hbyte, if_neg (by omega),
          ih (by omega), Option.map_some]
        simp only [hvalue]

theorem readVarint_varint (n : Nat) (rest : List UInt8) :
    readVarint (varint n ++ rest) = some (n, rest) :=
  readVarint_varintWith (Nat.le_refl n) rest

theorem readDelimited_delimited (bytes rest : List UInt8) :
    readDelimited (delimited bytes ++ rest) = some (bytes, rest) := by
  have hlength : bytes.length ≤ (bytes ++ rest).length := by simp
  rw [readDelimited, delimited, List.append_assoc, readVarint_varint, Option.bind_some]
  simp only [hlength, if_true, List.take_left, List.drop_left]

@[simp]
theorem readTag_cons (tag : UInt8) (rest : List UInt8) : readTag tag (tag :: rest) = some rest :=
  if_pos rfl

end Wire
