import ChipEight.Machine.Cycle

/-!
# The cycles of a frame

A frame runs a number of cycles and counts what they did.  It ends early where the
machine begins to wait for a key, since the machine could do nothing else until the
host reads the keys again, and where the machine halts with a fault.
-/

namespace ChipEight

structure FrameReport where
  /-- The cycles that executed an opcode or passed one over. -/
  cycles : Nat
  /-- Whether the frame ended early because the machine waits for a key. -/
  blocked : Bool
  /-- The cycles that passed over an opcode which stands for no instruction. -/
  unknown : Nat
deriving DecidableEq

namespace FrameReport

def empty : FrameReport := ⟨0, false, 0⟩

/-- The report with one more cycle counted. -/
def count (report : FrameReport) : Outcome → FrameReport
  | .advanced => { report with cycles := report.cycles + 1 }
  | .unknown _ =>
    { report with cycles := report.cycles + 1, unknown := report.unknown + 1 }
  | .blocked => { report with blocked := true }

end FrameReport

namespace Machine

/-- Runs up to a number of cycles, adding them to a report. -/
def cycles : Nat → FrameReport → Machine → Except Fault FrameReport × Machine
  | 0, report, machine => (.ok report, machine)
  | limit + 1, report, machine =>
    match machine.step with
    | (.error fault, halted) => (.error fault, halted)
    | (.ok .blocked, waiting) => (.ok (report.count .blocked), waiting)
    | (.ok outcome, next) => cycles limit (report.count outcome) next

end Machine
end ChipEight
