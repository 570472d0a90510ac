import Js5.Bytes

/-! # Runs of four: four equal bytes are followed by a count of how many more there are -/

namespace Js5.Bzip2

structure Runs where
  output : Array UInt8
  last : UInt8
  run : Nat

namespace Runs

def start : Runs := ⟨#[], 0, 0⟩

def next (r : Runs) (x : UInt8) : Runs :=
  if r.run = 4 then ⟨r.output ++ Array.replicate x.toNat r.last, r.last, 0⟩
  else if r.run ≠ 0 ∧ x = r.last then ⟨r.output.push x, x, r.run + 1⟩
  else ⟨r.output.push x, x, 1⟩

end Runs

/-- The bytes that a block stands for, and whether its last run has its count. A block that ends in a run of
four takes the byte `after` for the count that it lacks. -/
def expandRuns (block : Array UInt8) (after : UInt8) : Array UInt8 × Bool :=
  let r := block.foldl Runs.next .start
  if r.run = 4 then ((r.next after).output, false) else (r.output, true)

end Js5.Bzip2
