import CssGuard.Fuzz.Campaign

/-!
# The command line

- `inspect [--base-uri URI] [--id-suffix SUFFIX] [--container-class CLASS] [CSS]`: all
  that happens to a style sheet, which is read from standard input if it is not given
- `fuzz [-n N] [-s SEED] [-v] [--save-failures] [--sample N]`: a
  campaign of generated style sheets
-/

namespace CssGuard

/-- Prints an inspection; one that refuses its configuration fails. -/
def inspectCommand (args : List Text) : IO UInt32 := do
  let a := InspectArguments.read args
  let input ← if a.css.isNone then (← IO.getStdin).readToEnd else pure ""
  let r := inspect (a.withInput input.toList)
  IO.print (String.ofList r.output)
  match r.misuse with
  | none => return 0
  | some misuse =>
    IO.eprintln (String.ofList misuse.message)
    return 1

namespace Fuzz

/-- How many numbers a test case may read before its tape is used up. -/
def tapeLengthPerTest : Nat := 2000

/-- A tape of pseudo-random numbers. -/
def randomTape (length : Nat) (gen : StdGen) : Tape :=
  let draw (state : List Nat × StdGen) : List Nat × StdGen :=
    let (n, gen) := randNat state.2 0 1000000
    (n :: state.1, gen)
  { rest := (length.repeat draw ([], gen)).1 }

/-- How many seconds, begun ones included, it takes to sanitize the next test case. -/
def timeNext (c : Campaign) : IO Int := do
  let begun ← IO.monoMsNow
  let _ ← IO.lazyPure fun _ => (sanitize c.generate.1).value
  let ended ← IO.monoMsNow
  return ((ended - begun + 999) / 1000 : Nat)

/-- Runs a campaign by the clock. -/
def runTimed (o : Options) (tape : Tape) : IO Outcome := do
  let begun ← IO.monoMsNow
  let mut c := Campaign.start o [] tape
  for number in List.range o.tests.toNat do
    let seconds ← timeNext c
    c := Campaign.test o number { c with elapsed := [seconds] }
  let ended ← IO.monoMsNow
  return c.conclude o ⟨max 1 ((ended - begun) / 1000), ended / 1000⟩

/-- Prints a campaign, and writes its failures if asked to. -/
def command (args : List Text) : IO UInt32 := do
  let o := Options.read args
  let seed ← match o.seed with
    | some n => pure n.natAbs
    | none => IO.rand 0 1000000000
  let cases := max o.tests.toNat (o.sample.getD 0).toNat
  let tape := randomTape (cases * tapeLengthPerTest) (mkStdGen seed)
  let r ← match o.sample with
    | none | some 0 => runTimed o tape
    | some count => pure (runSample o count tape)
  IO.print (String.ofList r.output)
  for (name, content) in r.files do
    IO.FS.writeFile (String.ofList name) (String.ofList content)
  return (r.exit.getD 0).toUInt32

end Fuzz

end CssGuard

open CssGuard in
/-- Runs the named command. -/
def main (args : List String) : IO UInt32 := do
  match args with
  | "inspect" :: rest => inspectCommand (Text.ofStrings rest)
  | "fuzz" :: rest => Fuzz.command (Text.ofStrings rest)
  | _ =>
    IO.eprintln "expected one of: inspect, fuzz"
    return 2
