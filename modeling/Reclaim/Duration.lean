import Reclaim.Fault

/-!
# Durations

A duration is a number of whole seconds and of nanoseconds below one second.  It is shown in the
largest unit of which it holds a whole one, as an exact decimal without zeros at its end.
-/

namespace Reclaim

structure Duration where
  secs : UInt64
  nanos : Nat
deriving DecidableEq

namespace Duration

def nanosPerSec : Nat := 1000000000

/-- A duration from seconds and nanoseconds; whole seconds among the nanoseconds are carried
over. -/
def new (secs : UInt64) (nanos : UInt32) : Except Fault Duration :=
  let total := secs.toNat + nanos.toNat / nanosPerSec
  if total < UInt64.size then
    .ok ⟨UInt64.ofNat total, nanos.toNat % nanosPerSec⟩
  else
    .error .durationOverflow

/-- The decimal `whole + part / 10 ^ places`, for a `part` below `10 ^ places`, without zeros at the
end. -/
def decimal (whole part places : Nat) : String :=
  let digits := Nat.toDigits 10 part
  let padded := List.replicate (places - digits.length) '0' ++ digits
  let fraction := (padded.reverse.dropWhile (· = '0')).reverse
  if fraction.isEmpty then toString whole else toString whole ++ "." ++ String.ofList fraction

def text (d : Duration) : String :=
  if d.secs > 0 then decimal d.secs.toNat d.nanos 9 ++ "s"
  else if 1000000 ≤ d.nanos then decimal (d.nanos / 1000000) (d.nanos % 1000000) 6 ++ "ms"
  else if 1000 ≤ d.nanos then decimal (d.nanos / 1000) (d.nanos % 1000) 3 ++ "µs"
  else decimal d.nanos 0 0 ++ "ns"

end Duration

end Reclaim
