import OnePass.Text.Quoted

namespace OnePass.Text.Utf8

inductive Reason where
  | invalidStart
  | invalidContinuation
  | unexpectedEnd

/-- Bytes `first` to `last` of the input are no character; the one at `first` is
`byte`. -/
structure Malformed where
  byte : Nat
  first : Nat
  last : Nat
  reason : Reason

def Reason.text : Reason → String
  | .invalidStart => "invalid start byte"
  | .invalidContinuation => "invalid continuation byte"
  | .unexpectedEnd => "unexpected end of data"

def Malformed.message (m : Malformed) : String :=
  let place :=
    if m.first = m.last then
      s!"byte 0x{String.ofList (hexDigits 2 m.byte)} in position {m.first}"
    else s!"bytes in position {m.first}-{m.last}"
  s!"'utf-8' codec can't decode {place}: {m.reason.text}"

/-- A character of which some bytes are still to come. The next byte has to lie
between `low` and `high`, and each one after it between `0x80` and `0xBF`. -/
structure Unfinished where
  byte : Nat
  first : Nat
  value : Nat
  missing : Nat
  low : Nat
  high : Nat

/-- What a byte of at least `0x80` starts. The bounds on the second byte keep
out longer forms than needed, surrogates, and code points above `0x10FFFF`. -/
def start? (byte position : Nat) : Option Unfinished :=
  if 0xC2 ≤ byte && byte ≤
    0xDF then some ⟨byte, position, byte - 0xC0, 1, 0x80, 0xBF⟩
  else if 0xE0 ≤ byte && byte ≤ 0xEF then
    some ⟨byte, position, byte - 0xE0, 2,
      if byte = 0xE0 then 0xA0 else 0x80, if byte = 0xED then 0x9F else 0xBF⟩
  else if 0xF0 ≤ byte && byte ≤ 0xF4 then
    some ⟨byte, position, byte - 0xF0, 3,
      if byte = 0xF0 then 0x90 else 0x80, if byte = 0xF4 then 0x8F else 0xBF⟩
  else none

/-- Reads on at `position`, with the characters before it in `done`, last first.
-/
def decodeFrom (position : Nat) (done : List Char) :
    Option Unfinished → List UInt8 → Except Malformed (List Char)
  | none, [] => .ok done.reverse
  | some begun, [] =>
      .error ⟨begun.byte, begun.first, position - 1, .unexpectedEnd⟩
  | none, b :: rest =>
      if b.toNat < 0x80 then
        decodeFrom (position + 1) (Char.ofNat b.toNat :: done) none rest
      else
        match start? b.toNat position with
        | none => .error ⟨b.toNat, position, position, .invalidStart⟩
        | some begun => decodeFrom (position + 1) done (some begun) rest
  | some begun, b :: rest =>
      if begun.low ≤ b.toNat && b.toNat ≤ begun.high then
        let value := begun.value * 0x40 + (b.toNat - 0x80)
        if begun.missing = 1 then
          decodeFrom (position + 1) (Char.ofNat value :: done) none rest
        else
          decodeFrom (position + 1) done
            (some ⟨begun.byte, begun.first, value, begun.missing - 1, 0x80,
              0xBF⟩) rest
      else .error ⟨begun.byte, begun.first, position - 1, .invalidContinuation⟩

def decode (bytes : List UInt8) : Except Malformed (List Char) :=
  decodeFrom 0 [] none bytes

end OnePass.Text.Utf8
