import Reclaim.Duration
import Reclaim.Workload.Basic

/-!
# Timings of the three stacks

One workload is run on each of the three stacks, and a report shows the time each of them took.
-/

namespace Reclaim

/-- The times that one workload took on the three stacks. -/
structure Timings where
  locked : Duration
  counted : Duration
  hazard : Duration

namespace Timings

def fields (r : Timings) : List (String × String) :=
  [("mutex", r.locked.text), ("ref_counted", r.counted.text),
    ("hazard_pointer", r.hazard.text)]

def asLine (r : Timings) : String := Text.record "ComparisonReport" r.fields

def asLines (r : Timings) : String := Text.recordLines "ComparisonReport" r.fields

def rule : String := String.ofList (List.replicate 56 '#')

/-- A report as it is printed, with the given texts for the three times: a blank line, and then the
times between two rules. -/
def layout (locked counted hazard : String) : String :=
  String.join <| List.map (· ++ "\n")
    ["", rule, "Mutex<Vec>:          " ++ locked, "Split ref counting:  " ++ counted,
      "Hazard pointers:     " ++ hazard, rule]

def print (r : Timings) : String := layout r.locked.text r.counted.text r.hazard.text

end Timings

/-- Runs a workload on the three stacks in turn; the first fault ends it. -/
def Workload.compare (w : Workload) : Except Fault Unit := do
  (w.run ({} : LockedStack UInt64)).2
  (w.run ({} : CountedStack UInt64)).2
  (w.run (Hazard.SoleStack.empty .implicit :
    Hazard.SoleStack Hazard.processWideCapacity UInt64)).2

end Reclaim
