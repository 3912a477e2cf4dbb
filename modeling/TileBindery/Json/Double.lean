import TileBindery.Binary64.Decimal
import TileBindery.Binary64.Shortest
import TileBindery.Json.Value

/-!
# Doubles in JSON

A number is read as the double nearest to it; numbers that round beyond the largest double are
refused.  Written numbers are the shortest that read back.
-/

namespace TileBindery
namespace JsonNumber

def decimal (number : JsonNumber) : Decimal :=
  .ofParts number.integer (number.fraction.getD [])
    (number.exponent.elim 0 fun exponent => Decimal.signedPower exponent.1 exponent.2)

/-- The double nearest to a number, or `none` beyond the largest. -/
def toBinary64? (number : JsonNumber) : Option Binary64 :=
  let magnitude := number.decimal.nearestMagnitude
  if magnitude = Binary64.infinityMagnitude then none
  else some (.ofMagnitude number.negative magnitude)

end JsonNumber

namespace JsonValue

def double? : JsonValue → Option Binary64
  | .number found => found.toBinary64?
  | _ => none

end JsonValue

namespace JsonWriter

/-- Numbers in JSON are positional from one hundred-thousandth up to ten to the sixteenth, an exponent
always has its sign, and of two shortest decimals that are equally near the even one is written. -/
def layout : Binary64.Layout := ⟨.toEven, -5, 16, "e+"⟩

def double (x : Binary64) : List Char :=
  if x.isNaN ∨ x.isInfinite then "null".toList else (x.finiteText layout).toList

end JsonWriter
end TileBindery
