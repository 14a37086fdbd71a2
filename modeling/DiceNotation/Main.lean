import DiceNotation.CommandLine

/-!
The program: evaluates a dice expression given as an argument or on the input.
-/

namespace DiceNotation.CommandLine

/-- As many rolls as a run may use. -/
def rollLimit : Nat := 100000

/-- A script of random rolls; the same seed gives the same script. -/
def randomScript (seed : Option Int) : IO (List Int) := do
  let start ← match seed with
    | some n => pure (mkStdGen (2 * n.natAbs + if n < 0 then 1 else 0))
    | none => do
      let bytes ← IO.getRandomBytes 8
      pure (mkStdGen (bytes.toList.foldl (fun n b => n * 256 + b.toNat) 0))
  let rec draw (gen : StdGen) (rolls : List Int) : Nat → List Int
    | 0 => rolls
    | n + 1 =>
      let (roll, gen) := randNat gen 0 (2 ^ 64 - 1)
      draw gen (Int.ofNat roll :: rolls) n
  return draw start [] rollLimit

/-- Ends with a message on the error output. -/
def complain (message : String) (code : UInt32) : IO UInt32 := do
  (← IO.getStderr).putStrLn message
  return code

end DiceNotation.CommandLine

open DiceNotation CommandLine in
def main (args : List String) : IO UInt32 := do
  let options ← match Options.ofArgs args with
    | .ok options => pure options
    | .error .help => do
      IO.print helpText
      return 0
    | .error .usage => return (← complain ((helpText.splitOn "\n\n").headD "") 2)
  let input ← if options.readsInput then (← IO.getStdin).readToEnd else pure ""
  let environment : Environment := ⟨← IO.getEnv "ROLLEXPR_SEED", ← IO.getEnv "ROLLEXPR_DEBUG_PY_TRACE"⟩
  match Job.ofOptions options input environment with
  | .error message => complain message 1
  | .ok job =>
    let run := job.run (← randomScript job.seed)
    IO.print run.out
    (← IO.getStderr).putStr run.err
    match run.ending with
    | .ok code => return code.toUInt32
    | .error trouble => complain trouble.message 1
