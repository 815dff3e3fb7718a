import Mathlib.Data.List.Basic
import Mathlib.Data.UInt

/-!
# Text encodings of bytes

Hexadecimal digits and base 64 with padding. Both write printable characters only, and reading back
what was written gives the bytes.
-/

namespace Hexadecimal

def digit (value : Nat) : UInt8 :=
  if value < 10 then UInt8.ofNat (0x30 + value) else UInt8.ofNat (0x57 + value)

def value (character : UInt8) : Nat :=
  if character.toNat < 0x40 then character.toNat - 0x30 else character.toNat - 0x57

def encode : List UInt8 → List UInt8
  | [] => []
  | byte :: rest => digit (byte.toNat / 16) :: digit (byte.toNat % 16) :: encode rest

def decode : List UInt8 → List UInt8
  | high :: low :: rest => UInt8.ofNat (value high * 16 + value low) :: decode rest
  | _ => []

theorem value_digit : ∀ n < 16, value (digit n) = n := by decide

theorem digit_ne_zero : ∀ n < 16, digit n ≠ 0 := by decide

theorem decode_encode (bytes : List UInt8) : decode (encode bytes) = bytes := by
  induction bytes with
  | nil => rfl
  | cons byte rest ih =>
      have hlt := byte.toNat_lt
      have hhigh : byte.toNat / 16 < 16 := by omega
      have hlow : byte.toNat % 16 < 16 := by omega
      have hsum : byte.toNat / 16 * 16 + byte.toNat % 16 = byte.toNat := by omega
      rw [encode, decode, value_digit _ hhigh, value_digit _ hlow, hsum, ih, UInt8.ofNat_toNat]

theorem zero_notMem_encode (bytes : List UInt8) : 0 ∉ encode bytes := by
  induction bytes with
  | nil => simp [encode]
  | cons byte rest ih =>
      have hlt := byte.toNat_lt
      have hhigh := digit_ne_zero (byte.toNat / 16) (by omega)
      have hlow := digit_ne_zero (byte.toNat % 16) (by omega)
      rw [encode, List.mem_cons, List.mem_cons]
      exact fun hmem => hmem.elim (fun h => hhigh h.symm)
        fun hmem => hmem.elim (fun h => hlow h.symm) ih

end Hexadecimal

namespace Base64Codec

def digit (value : Nat) : UInt8 :=
  if value < 26 then UInt8.ofNat (0x41 + value)
  else if value < 52 then UInt8.ofNat (0x47 + value)
  else if value < 62 then UInt8.ofNat (value - 4)
  else if value = 62 then 0x2B
  else 0x2F

def pad : UInt8 := 0x3D

def value? (character : UInt8) : Option Nat :=
  if 0x41 ≤ character ∧ character ≤ 0x5A then some (character.toNat - 0x41)
  else if 0x61 ≤ character ∧ character ≤ 0x7A then some (character.toNat - 0x47)
  else if 0x30 ≤ character ∧ character ≤ 0x39 then some (character.toNat + 4)
  else if character = 0x2B then some 62
  else if character = 0x2F then some 63
  else none

def encode : List UInt8 → List UInt8
  | [] => []
  | [a] => [digit (a.toNat / 4), digit (a.toNat % 4 * 16), pad, pad]
  | [a, b] =>
      [digit (a.toNat / 4), digit (a.toNat % 4 * 16 + b.toNat / 16), digit (b.toNat % 16 * 4), pad]
  | a :: b :: c :: rest =>
      digit (a.toNat / 4) :: digit (a.toNat % 4 * 16 + b.toNat / 16)
        :: digit (b.toNat % 16 * 4 + c.toNat / 64) :: digit (c.toNat % 64) :: encode rest

def decodeGroup (p q r s : UInt8) : Option (List UInt8) := do
  let p ← value? p
  let q ← value? q
  if r = pad then return [UInt8.ofNat (p * 4 + q / 16)]
  let r ← value? r
  if s = pad then return [UInt8.ofNat (p * 4 + q / 16), UInt8.ofNat (q % 16 * 16 + r / 4)]
  let s ← value? s
  return [UInt8.ofNat (p * 4 + q / 16), UInt8.ofNat (q % 16 * 16 + r / 4),
    UInt8.ofNat (r % 4 * 64 + s)]

def decode : List UInt8 → Option (List UInt8)
  | [] => some []
  | p :: q :: r :: s :: rest => do
      let bytes ← decodeGroup p q r s
      let later ← decode rest
      return bytes ++ later
  | _ => none

theorem value?_digit : ∀ n < 64, value? (digit n) = some n := by decide

theorem digit_ne_pad : ∀ n < 64, digit n ≠ pad := by decide

theorem digit_ne_zero : ∀ n < 64, digit n ≠ 0 := by decide

theorem decodeGroup_three (a b c : UInt8) :
    decodeGroup (digit (a.toNat / 4)) (digit (a.toNat % 4 * 16 + b.toNat / 16))
      (digit (b.toNat % 16 * 4 + c.toNat / 64)) (digit (c.toNat % 64)) = some [a, b, c] := by
  have ha := a.toNat_lt
  have hb := b.toNat_lt
  have hc := c.toNat_lt
  have hfirst : a.toNat / 4 * 4 + (a.toNat % 4 * 16 + b.toNat / 16) / 16 = a.toNat := by omega
  have hsecond : (a.toNat % 4 * 16 + b.toNat / 16) % 16 * 16
      + (b.toNat % 16 * 4 + c.toNat / 64) / 4 = b.toNat := by omega
  have hthird : (b.toNat % 16 * 4 + c.toNat / 64) % 4 * 64 + c.toNat % 64 = c.toNat := by omega
  rw [decodeGroup, value?_digit _ (by omega), value?_digit _ (by omega),
    value?_digit _ (by omega), value?_digit _ (by omega)]
  have hr := digit_ne_pad (b.toNat % 16 * 4 + c.toNat / 64) (by omega)
  have hs := digit_ne_pad (c.toNat % 64) (by omega)
  simp only [Option.bind_eq_bind, Option.bind_some, hr, hs, if_false, hfirst, hsecond, hthird,
    UInt8.ofNat_toNat, Option.pure_def]

theorem decodeGroup_two (a b : UInt8) :
    decodeGroup (digit (a.toNat / 4)) (digit (a.toNat % 4 * 16 + b.toNat / 16))
      (digit (b.toNat % 16 * 4)) pad = some [a, b] := by
  have ha := a.toNat_lt
  have hb := b.toNat_lt
  have hfirst : a.toNat / 4 * 4 + (a.toNat % 4 * 16 + b.toNat / 16) / 16 = a.toNat := by omega
  have hsecond : (a.toNat % 4 * 16 + b.toNat / 16) % 16 * 16 + b.toNat % 16 * 4 / 4
      = b.toNat := by omega
  rw [decodeGroup, value?_digit _ (by omega), value?_digit _ (by omega),
    value?_digit _ (by omega)]
  have hr := digit_ne_pad (b.toNat % 16 * 4) (by omega)
  simp only [Option.bind_eq_bind, Option.bind_some, hr, if_false, if_true, hfirst, hsecond,
    UInt8.ofNat_toNat, Option.pure_def]

theorem decodeGroup_one (a : UInt8) :
    decodeGroup (digit (a.toNat / 4)) (digit (a.toNat % 4 * 16)) pad pad = some [a] := by
  have ha := a.toNat_lt
  have hfirst : a.toNat / 4 * 4 + a.toNat % 4 * 16 / 16 = a.toNat := by omega
  rw [decodeGroup, value?_digit _ (by omega), value?_digit _ (by omega)]
  simp only [Option.bind_eq_bind, Option.bind_some, if_true, hfirst, UInt8.ofNat_toNat,
    Option.pure_def]

theorem decode_encode (bytes : List UInt8) : decode (encode bytes) = some bytes := by
  induction bytes using encode.induct with
  | case1 => rfl
  | case2 a => rw [encode, decode, decodeGroup_one]; rfl
  | case3 a b => rw [encode, decode, decodeGroup_two]; rfl
  | case4 a b c rest ih => rw [encode, decode, decodeGroup_three, ih]; rfl

theorem zero_notMem_encode (bytes : List UInt8) : 0 ∉ encode bytes := by
  have hpad : (0 : UInt8) ≠ pad := by decide
  have hdigit : ∀ n < 64, (0 : UInt8) ≠ digit n := fun n hn => (digit_ne_zero n hn).symm
  induction bytes using encode.induct with
  | case1 => simp [encode]
  | case2 a =>
      have ha := a.toNat_lt
      simp [encode, hpad, hdigit (a.toNat / 4) (by omega), hdigit (a.toNat % 4 * 16) (by omega)]
  | case3 a b =>
      have ha := a.toNat_lt
      have hb := b.toNat_lt
      simp [encode, hpad, hdigit (a.toNat / 4) (by omega),
        hdigit (a.toNat % 4 * 16 + b.toNat / 16) (by omega), hdigit (b.toNat % 16 * 4) (by omega)]
  | case4 a b c rest ih =>
      have ha := a.toNat_lt
      have hb := b.toNat_lt
      have hc := c.toNat_lt
      simp [encode, ih, hdigit (a.toNat / 4) (by omega),
        hdigit (a.toNat % 4 * 16 + b.toNat / 16) (by omega),
        hdigit (b.toNat % 16 * 4 + c.toNat / 64) (by omega), hdigit (c.toNat % 64) (by omega)]

end Base64Codec
