import TileBindery.Bytes

/-!
# Base64

The standard alphabet with mandatory canonical padding: four symbols for three octets, and a last
group that is filled up with padding marks.  A reader reports the octet at which a text stops being
canonical; texts are scanned in blocks of eight octets, and only the last block may hold padding.
-/

namespace TileBindery
namespace Base64

def pad : UInt8 := 61

/-- The symbol of a number below sixty-four. -/
def symbol (n : Nat) : Char :=
  if n < 26 then Char.ofNat (65 + n)
  else if n < 52 then Char.ofNat (71 + n)
  else if n < 62 then Char.ofNat (n - 4)
  else if n = 62 then '+'
  else '/'

/-- The number of a symbol, given as an octet of text. -/
def symbolValue? (octet : UInt8) : Option Nat :=
  let n := octet.toNat
  if 65 ≤ n ∧ n ≤ 90 then some (n - 65)
  else if 97 ≤ n ∧ n ≤ 122 then some (n - 71)
  else if 48 ≤ n ∧ n ≤ 57 then some (n + 4)
  else if n = 43 then some 62
  else if n = 47 then some 63
  else none

def encode : Bytes → List Char
  | [] => []
  | [a] => [symbol (a.toNat / 4), symbol (a.toNat % 4 * 16), '=', '=']
  | [a, b] =>
      [symbol (a.toNat / 4), symbol (a.toNat % 4 * 16 + b.toNat / 16),
        symbol (b.toNat % 16 * 4), '=']
  | a :: b :: c :: rest =>
      symbol (a.toNat / 4) :: symbol (a.toNat % 4 * 16 + b.toNat / 16) ::
        symbol (b.toNat % 16 * 4 + c.toNat / 64) :: symbol (c.toNat % 64) :: encode rest

/-- Reasons why a text is not canonical base64. -/
inductive Fault where
  /-- An octet that may not stand at its offset. -/
  | badOctet (octet : UInt8) (offset : Nat)
  /-- One symbol more than whole groups, which holds less than an octet. -/
  | loneSymbol
  /-- The last group is not filled up. -/
  | badPadding
  /-- The last symbol sets bits that belong to no octet. -/
  | looseBits (octet : UInt8) (offset : Nat)
  deriving DecidableEq, Repr

def Fault.message : Fault → String
  | .badOctet octet offset =>
      "Invalid byte " ++ toString octet.toNat ++ ", offset " ++ toString offset ++ "."
  | .loneSymbol => "Encoded text cannot have a 6-bit remainder."
  | .badPadding => "Invalid padding"
  | .looseBits octet offset =>
      "Invalid last symbol " ++ toString octet.toNat ++ ", offset " ++ toString offset ++ "."

/-- The numbers of the symbols that stand from `offset` on, none of which may be padding. -/
def symbols (offset : Nat) : Bytes → Except Fault (List Nat)
  | [] => .ok []
  | octet :: rest =>
      match symbolValue? octet with
      | none => .error (.badOctet octet offset)
      | some n => (symbols (offset + 1) rest).map (n :: ·)

/-- The symbols of the last block, as octets with their numbers.  `start` is the offset of the
block, `index` the place inside it, and `padding` the place of the block's first padding mark. -/
def lastSymbols (start : Nat) (index : Nat) (padding : Option Nat) :
    Bytes → Except Fault (List (UInt8 × Nat))
  | [] => .ok []
  | octet :: rest =>
      if octet = pad then
        if index % 4 < 2 then .error (.badOctet pad (start + padding.getD index))
        else lastSymbols start (index + 1) (some (padding.getD index)) rest
      else
        match padding, symbolValue? octet with
        | some first, _ => .error (.badOctet pad (start + first))
        | none, none => .error (.badOctet octet (start + index))
        | none, some n => (lastSymbols start (index + 1) none rest).map ((octet, n) :: ·)

/-- The octets that a list of symbol numbers holds; bits left over are dropped. -/
def octetsOf : List Nat → Bytes
  | a :: b :: c :: d :: rest =>
      UInt8.ofNat (a * 4 + b / 16) :: UInt8.ofNat (b % 16 * 16 + c / 4) ::
        UInt8.ofNat (c % 4 * 64 + d) :: octetsOf rest
  | [a, b, c] => [UInt8.ofNat (a * 4 + b / 16), UInt8.ofNat (b % 16 * 16 + c / 4)]
  | [a, b] => [UInt8.ofNat (a * 4 + b / 16)]
  | _ => []

/-- Whether the last of `count` symbols, of number `n`, sets bits that belong to no octet. -/
def hasLooseBits (count n : Nat) : Bool :=
  match count % 4 with
  | 2 => n % 16 ≠ 0
  | 3 => n % 4 ≠ 0
  | _ => false

/-- The octets that a text, given by its own octets, writes down. -/
def decode (text : Bytes) : Except Fault Bytes :=
  let count := text.length
  if count % 4 = 1 then
    match text.getLast? with
    | some last =>
        if last ≠ pad ∧ symbolValue? last = none then .error (.badOctet last (count - 1))
        else .error .loneSymbol
    | none => .error .loneSymbol
  else
    let start := (count - 1) / 8 * 8
    match symbols 0 (text.take start), lastSymbols start 0 none (text.drop start) with
    | .error fault, _ => .error fault
    | .ok _, .error fault => .error fault
    | .ok body, .ok last =>
        if count % 4 ≠ 0 then .error .badPadding
        else
          match last.getLast? with
          | some (octet, n) =>
              if hasLooseBits last.length n then
                .error (.looseBits octet (start + last.length - 1))
              else .ok (octetsOf (body ++ last.map (·.2)))
          | none => .ok (octetsOf body)

end Base64
end TileBindery
