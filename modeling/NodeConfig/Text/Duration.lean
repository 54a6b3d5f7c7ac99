import NodeConfig.Power

namespace NodeConfig

namespace Duration

/-- Exactly `width` digits of a number, without the zeros at their end. -/
def places (width n : Nat) : List Char :=
  let ds := Nat.toDigits 10 n
  let padded := List.replicate (width - ds.length) '0' ++ ds
  (padded.reverse.dropWhile (· = '0')).reverse

def inUnit (width ns : Nat) (unit : String) : String :=
  let fraction := places width (ns % pow10 width)
  toString (ns / pow10 width) ++
    (if fraction = [] then "" else "." ++ String.ofList fraction) ++ unit

end Duration

def durationText (ns : Nat) : String :=
  if pow10 9 ≤ ns then Duration.inUnit 9 ns "s"
  else if pow10 6 ≤ ns then Duration.inUnit 6 ns "ms"
  else if pow10 3 ≤ ns then Duration.inUnit 3 ns "µs"
  else toString ns ++ "ns"

end NodeConfig
