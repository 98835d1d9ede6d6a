/-!
# Decoded source text

A source text is a list of bytes. `decode` cuts it into symbols: a scalar value with its
shortest UTF-8 form, or a single byte that belongs to no such form. Overlong forms, surrogates and
values above U+10FFFF are ill-formed, byte by byte.
-/
namespace FlowCheck

/-- One character of a source text, or one byte that encodes none. -/
inductive Symbol where
  | scalar (c : Char)
  | illFormed (b : UInt8)
  deriving DecidableEq, Repr

namespace Symbol

/-- The character a symbol stands for; an ill-formed byte reads as U+FFFD. -/
def char : Symbol → Char
  | scalar c => c
  | illFormed _ => '\uFFFD'

/-- The number of bytes that a symbol takes up. -/
def width : Symbol → Nat
  | scalar c => c.utf8Size
  | illFormed _ => 1

/-- Bytes `80` to `BF`, which continue a multi-byte form. -/
def isContinuation (b : UInt8) : Bool := 0x80 ≤ b && b ≤ 0xBF

/-- The payload bits of a continuation byte. -/
def payload (b : UInt8) : Nat := b.toNat % 64

def twoBytes? (b₀ b₁ : UInt8) : Option Char :=
  if 0xC2 ≤ b₀ && b₀ ≤ 0xDF && isContinuation b₁ then
    some (Char.ofNat (b₀.toNat % 32 * 64 + payload b₁))
  else none

/-- The second byte is bounded so that overlong forms and surrogates are refused. -/
def threeBytes? (b₀ b₁ b₂ : UInt8) : Option Char :=
  let low : UInt8 := if b₀ = 0xE0 then 0xA0 else 0x80
  let high : UInt8 := if b₀ = 0xED then 0x9F else 0xBF
  if 0xE0 ≤ b₀ && b₀ ≤ 0xEF && low ≤ b₁ && b₁ ≤ high && isContinuation b₂ then
    some (Char.ofNat (b₀.toNat % 16 * 4096 + payload b₁ * 64 + payload b₂))
  else none

/-- The second byte is bounded so that overlong forms and values above U+10FFFF are refused. -/
def fourBytes? (b₀ b₁ b₂ b₃ : UInt8) : Option Char :=
  let low : UInt8 := if b₀ = 0xF0 then 0x90 else 0x80
  let high : UInt8 := if b₀ = 0xF4 then 0x8F else 0xBF
  if 0xF0 ≤ b₀ && b₀ ≤ 0xF4 && low ≤ b₁ && b₁ ≤ high && isContinuation b₂ && isContinuation b₃ then
    some (Char.ofNat
      (b₀.toNat % 8 * 262144 + payload b₁ * 4096 + payload b₂ * 64 + payload b₃))
  else none

/-- The symbols of a text, first to last; a byte that starts no well-formed form stands alone. -/
def decode : List UInt8 → List Symbol
  | [] => []
  | b₀ :: t₀ =>
    if b₀ < 0x80 then scalar (Char.ofNat b₀.toNat) :: decode t₀
    else match t₀ with
      | [] => [illFormed b₀]
      | b₁ :: t₁ =>
        match twoBytes? b₀ b₁ with
        | some c => scalar c :: decode t₁
        | none => match t₁ with
          | [] => illFormed b₀ :: decode (b₁ :: [])
          | b₂ :: t₂ =>
            match threeBytes? b₀ b₁ b₂ with
            | some c => scalar c :: decode t₂
            | none => match t₂ with
              | [] => illFormed b₀ :: decode (b₁ :: b₂ :: [])
              | b₃ :: t₃ =>
                match fourBytes? b₀ b₁ b₂ b₃ with
                | some c => scalar c :: decode t₃
                | none => illFormed b₀ :: decode (b₁ :: b₂ :: b₃ :: t₃)

/-- A byte order mark at the start of a text is no part of it. -/
def dropMark : List UInt8 → List UInt8
  | 0xEF :: 0xBB :: 0xBF :: rest => rest
  | bytes => bytes

end Symbol

/-- A source text as its reader delivered it: the bytes, and why reading stopped early if it did. -/
structure Source where
  file : String := ""
  bytes : List UInt8
  failure : Option String := none
  deriving Repr

end FlowCheck
