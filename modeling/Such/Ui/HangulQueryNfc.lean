import Such.Base.ByteText

/-! Composition of conjoining Hangul jamo in content queries. Code points are
natural numbers; anything but well-formed UTF-8 is passed on unchanged. -/
namespace Such.HangulQueryNfc
open ByteText

def lBase : Nat := 0x1100
def vBase : Nat := 0x1161
def tBase : Nat := 0x11A7
def sBase : Nat := 0xAC00
def lCount : Nat := 19
def vCount : Nat := 21
def tCount : Nat := 28
def sCount : Nat := lCount * vCount * tCount

/-- Sequence length and leading payload announced by a non-ASCII lead byte. -/
def leadByte (lead : Nat) : Option (Nat × Nat) :=
  if 0xC2 ≤ lead ∧ lead ≤ 0xDF then some (2, lead % 0x20)
  else if 0xE0 ≤ lead ∧ lead ≤ 0xEF then some (3, lead % 0x10)
  else if 0xF0 ≤ lead ∧ lead ≤ 0xF4 then some (4, lead % 0x08)
  else none

/-- Shifts in the payload of `count` continuation bytes. -/
def continuation : Nat → Nat → Bytes → Option (Nat × Bytes)
  | 0, value, rest => some (value, rest)
  | _ + 1, _, [] => none
  | count + 1, value, byte :: rest =>
    if byte.toNat / 0x40 ≠ 2 then none
    else continuation count (value * 0x40 + byte.toNat % 0x40) rest

def validScalar (length value : Nat) : Bool :=
  !((length = 2 ∧ value < 0x80) ∨ (length = 3 ∧ value < 0x800) ∨
    (length = 4 ∧ value < 0x10000) ∨ (0xD800 ≤ value ∧ value ≤ 0xDFFF) ∨ 0x10FFFF < value)

/-- The first code point and what follows it. -/
def decodeOne : Bytes → Option (Nat × Bytes)
  | [] => none
  | lead :: rest =>
    if lead.toNat < 0x80 then some (lead.toNat, rest)
    else
      match leadByte lead.toNat with
      | none => none
      | some (length, payload) =>
        if rest.length + 1 < length then none
        else
          match continuation (length - 1) payload rest with
          | none => none
          | some (value, rest) => if validScalar length value then some (value, rest) else none

/-- Every step consumes a byte, so the input length is fuel enough. -/
def decodeFrom : Nat → Bytes → Option (List Nat)
  | _, [] => some []
  | 0, _ :: _ => none
  | fuel + 1, input =>
    match decodeOne input with
    | none => none
    | some (value, rest) => (decodeFrom fuel rest).map (value :: ·)

def decode (input : Bytes) : Option (List Nat) := decodeFrom input.length input

def appendUtf8 (codepoint : Nat) : Bytes :=
  if codepoint < 0x80 then [UInt8.ofNat codepoint]
  else if codepoint < 0x800 then
    [UInt8.ofNat (0xC0 + codepoint / 0x40), UInt8.ofNat (0x80 + codepoint % 0x40)]
  else if codepoint < 0x10000 then
    [UInt8.ofNat (0xE0 + codepoint / 0x1000), UInt8.ofNat (0x80 + codepoint / 0x40 % 0x40),
      UInt8.ofNat (0x80 + codepoint % 0x40)]
  else
    [UInt8.ofNat (0xF0 + codepoint / 0x40000), UInt8.ofNat (0x80 + codepoint / 0x1000 % 0x40),
      UInt8.ofNat (0x80 + codepoint / 0x40 % 0x40), UInt8.ofNat (0x80 + codepoint % 0x40)]

/-- What a code point turns the previous one into, if they compose. -/
def composePair (previous c : Nat) : Option Nat :=
  if lBase ≤ previous ∧ previous < lBase + lCount ∧ vBase ≤ c ∧ c < vBase + vCount then
    some (sBase + ((previous - lBase) * vCount + (c - vBase)) * tCount)
  else if sBase ≤ previous ∧ previous < sBase + sCount ∧ (previous - sBase) % tCount = 0 ∧
      tBase < c ∧ c < tBase + tCount then
    some (previous + (c - tBase))
  else none

/-- One code point pushed on the composed text, newest first. -/
def pushComposed (composed : List Nat) (c : Nat) : List Nat :=
  match composed with
  | [] => [c]
  | previous :: older =>
    match composePair previous c with
    | some merged => merged :: older
    | none => c :: previous :: older

def composeHangulQueryNfc (input : Bytes) : Bytes :=
  if !occursIn [0xE1, 0x84] input && !occursIn [0xE1, 0x85] input && !occursIn [0xE1, 0x86] input then
    input
  else
    match decode input with
    | none => input
    | some decoded => (decoded.foldl pushComposed []).reverse.flatMap appendUtf8

end Such.HangulQueryNfc
