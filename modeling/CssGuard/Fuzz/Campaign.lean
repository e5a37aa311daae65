import CssGuard.Fuzz.Check
import CssGuard.Fuzz.Generate
import CssGuard.Inspect

/-!
# Campaigns

A campaign sanitizes many generated style sheets and reports those whose output has
problems and those that took too long.

- `Campaign.test`: one test case
- `Campaign.report`: the report (`run_fuzzer`)
- `Options.read`, `run`: the command line (`main`)
-/

namespace CssGuard.Fuzz

open Text

/-! ## Options -/

/-- What a campaign is asked to do. -/
structure Options where
  /-- How many test cases. -/
  tests : Int := 1000
  /-- The seed of the generator, for the report. -/
  seed : Option Int := none
  /-- Progress and failures are printed as they come. -/
  verbose : Bool := false
  /-- Failures are written to a file. -/
  saveFailures : Bool := false
  /-- Print so many test cases, and do not sanitize them. -/
  sample : Option Int := none

/-- The number a decimal numeral stands for. -/
def natural? (t : Text) : Option Nat :=
  if !t.isEmpty && t.all isPlainDigit then
    some (t.foldl (fun n c => 10 * n + hexValue c) 0)
  else none

/-- The number a decimal numeral with an optional sign stands for. -/
def integer? : Text → Option Int
  | '-' :: t => (natural? t).map fun n => -(n : Int)
  | '+' :: t => (natural? t).map fun n => (n : Int)
  | t => (natural? t).map fun n => (n : Int)

/-- The options of the command. -/
def optionNames : OptionNames :=
  { valued := ["-n", "--num-tests", "-s", "--seed", "--sample"]
    switches := ["-v", "--verbose", "--save-failures"] }

namespace Options

/-- The options with the one of a name set, or switched on. -/
def set (o : Options) (name : Text) (value : Option Int) : Options :=
  if name = "-n" ∨ name = "--num-tests" then { o with tests := value.getD o.tests }
  else if name = "-s" ∨ name = "--seed" then { o with seed := value }
  else if name = "--sample" then { o with sample := value }
  else if name = "-v" ∨ name = "--verbose" then { o with verbose := true }
  else if name = "--save-failures" then { o with saveFailures := true }
  else o

/-- The options with one more argument; operands mean nothing. -/
def add (o : Options) : Argument → Options
  | .operand _ => o
  | .option name value => o.set name (value.bind integer?)

/-- Reads the arguments of a command line. -/
def read (args : List Text) : Options :=
  (optionNames.read args).foldl add {}

end Options

/-! ## Test cases -/

/-- A test case that took too long. -/
structure Hang where
  number : Nat
  css : Text
  seconds : Int

/-- A test case whose output has problems. -/
structure Violation where
  number : Nat
  css : Text
  output : Text
  problems : List Text

/-- The state of a campaign. -/
structure Campaign where
  tape : Tape
  /-- How many seconds each of the next test cases takes; none if it is used up. -/
  elapsed : List Int
  /-- What was printed. -/
  log : Text := []
  hangs : List Hang := []
  violations : List Violation := []
  successes : Nat := 0

/-- A test case that takes longer hangs. -/
def maxSeconds : Int := 5

/-- Seconds with two places. -/
def secondsText (seconds : Int) : Text :=
  decimalInt seconds ++ ".00"

namespace Campaign

/-- Prints a line. -/
def print (t : Text) (c : Campaign) : Campaign :=
  { c with log := c.log ++ line t }

/-- Prints a line if asked to. -/
def tell (o : Options) (t : Text) (c : Campaign) : Campaign :=
  if o.verbose then c.print t else c

/-- Generates a test case. -/
def generate (c : Campaign) : Text × Campaign :=
  let (css, tape) := sheet c.tape
  (css, { c with tape })

/-- Measures a test case. -/
def measure (c : Campaign) : Int × Campaign :=
  (c.elapsed.headD 0, { c with elapsed := c.elapsed.tail })

/-- Judges the output of a test case that did not hang. -/
def judge (o : Options) (number : Nat) (css output : Text) (c : Campaign) : Campaign :=
  match (problems output).value with
  | [] => { c with successes := c.successes + 1 }
  | list =>
    Campaign.tell o
      ("  VIOLATION: Test " ++ decimal number ++ ": " ++ joined "; " list)
      { c with violations := c.violations ++ [⟨number, css, output, list⟩] }

/-- One test case. -/
def test (o : Options) (number : Nat) (c : Campaign) : Campaign :=
  let (css, c) := c.generate
  let c := if number % 100 = 0 then
      c.tell o ("  Test " ++ decimal number ++ "/" ++ decimalInt o.tests ++ "...")
    else c
  let (seconds, c) := c.measure
  if maxSeconds < seconds then
    Campaign.tell o
      ("  HANG: Test " ++ decimal number ++ " took " ++ secondsText seconds ++ "s")
      { c with hangs := c.hangs ++ [⟨number, css, seconds⟩] }
  else c.judge o number css (sanitize css).value

/-- All test cases, in order. -/
def testAll (o : Options) (c : Campaign) : Campaign :=
  (List.range o.tests.toNat).foldl (fun c number => c.test o number) c

/-- No test case failed. -/
def succeeded (c : Campaign) : Bool :=
  c.hangs.isEmpty && c.violations.isEmpty

end Campaign

/-! ## Reports -/

/-- The number of test cases in a second, with one place; a half
goes to the even neighbour. -/
def rateText (tests : Int) (seconds : Nat) : Text :=
  let tenths := 10 * tests.natAbs
  let quotient := tenths / seconds
  let twice := 2 * (tenths % seconds)
  let rounded :=
    if seconds < twice ∨ (twice = seconds ∧ quotient % 2 = 1) then quotient + 1
    else quotient
  (if tests < 0 then ['-'] else []) ++ decimal (rounded / 10) ++ "." ++
    decimal (rounded % 10)

/-- A rule across the report. -/
def ruler : Text :=
  List.replicate 60 '='

/-- The heading of a part of the report. -/
def heading (title : Text) : Text :=
  line ('\n' :: ruler) ++ line title ++ line ruler

/-- The number of a test case at the start of its details. -/
def testTitle (number : Nat) : Text :=
  "\nTest #" ++ decimal number

/-- A shown part of a text under its name. -/
def excerptLine (name t : Text) : Text :=
  line ("  " ++ name ++ ": " ++ excerpt t ++ "...")

/-- The details of a violation. -/
def Violation.details (v : Violation) : Text :=
  line (testTitle v.number ++ ":") ++ excerptLine "CSS" v.css ++
    excerptLine "Output" v.output ++ v.problems.flatMap fun p => line ("  - " ++ p)

/-- The details of a hang. -/
def Hang.details (h : Hang) : Text :=
  line (testTitle h.number ++ " (" ++ secondsText h.seconds ++ "s):") ++
    excerptLine "CSS" h.css

/-- The entry of a violation in the file of failures. -/
def Violation.saved (v : Violation) : Text :=
  line ("=== VIOLATION #" ++ decimal v.number ++ " ===") ++ line ("CSS:\n" ++ v.css)
    ++ line ("Output:\n" ++ v.output) ++
      line (line ("Problems:\n" ++ joined "\n" v.problems))

/-- The entry of a hang in the file of failures. -/
def Hang.saved (h : Hang) : Text :=
  line ("=== HANG #" ++ decimal h.number ++ " (" ++ secondsText h.seconds ++ "s) ===")
    ++ line (line ("CSS:\n" ++ h.css))

namespace Campaign

/-- The counts of a campaign that took the given time. -/
def summary (o : Options) (seconds : Nat) (c : Campaign) : Text :=
  heading "FUZZING RESULTS: justcss"
    ++ line ("Total tests:    " ++ decimalInt o.tests)
    ++ line ("Successes:      " ++ decimal c.successes)
    ++ line "Crashes:        0"
    ++ line ("Hangs (>5s):    " ++ decimal c.hangs.length)
    ++ line ("Violations:     " ++ decimal c.violations.length)
    ++ line ("Total time:     " ++ secondsText seconds ++ "s")
    ++ line ("Tests/second:   " ++ rateText o.tests seconds)

/-- The details of the first violations. -/
def violationDetails (c : Campaign) : Text :=
  if c.violations.isEmpty then []
  else heading "VIOLATION DETAILS:" ++ (c.violations.take 10).flatMap Violation.details

/-- The details of the first hangs. -/
def hangDetails (c : Campaign) : Text :=
  if c.hangs.isEmpty then []
  else heading "HANG DETAILS:" ++ (c.hangs.take 5).flatMap Hang.details

/-- All that is printed of a campaign, its failures apart. -/
def report (o : Options) (seconds : Nat) (c : Campaign) : Text :=
  c.log ++ c.summary o seconds ++ c.violationDetails ++ c.hangDetails

/-- The content of the file of failures. -/
def failures (o : Options) (c : Campaign) : Text :=
  line "Fuzzing results for justcss"
    ++ line (line ("Seed: " ++ match o.seed with
      | none => Setting.absent.shown
      | some n => decimalInt n))
    ++ c.violations.flatMap Violation.saved ++ c.hangs.flatMap Hang.saved

end Campaign

/-! ## The command line -/

/-- What a command gives. -/
structure Outcome where
  /-- What is printed. -/
  output : Text
  /-- The exit status; none if the command just ends. -/
  exit : Option Nat
  /-- The files written, with their contents. -/
  files : List (Text × Text) := []
  /-- The seeds given to the generator. -/
  seeds : List Int := []
  /-- How many numbers of the tape were read. -/
  used : Nat

/-- When a campaign takes place. -/
structure Timing where
  /-- How many seconds it takes. -/
  seconds : Nat
  /-- The time at its end, which names the file of failures. -/
  stamp : Nat

/-- Prints test cases. -/
def runSample (o : Options) (count : Int) (tape : Tape) : Outcome :=
  let texts := (Draw.times sheet count.toNat) tape
  { output := texts.1.zipIdx.flatMap fun (css, i) =>
      line ("=== Sample " ++ decimal (i + 1) ++ " ===") ++ line css ++ line []
    exit := none
    seeds := o.seed.toList
    used := texts.2.used }

/-- The campaign before its first test case. -/
def Campaign.start (o : Options) (elapsed : List Int) (tape : Tape) : Campaign :=
  { tape, elapsed, log := line ("Fuzzing justcss with " ++ decimalInt o.tests ++
    " test cases...") }

/-- What comes of a campaign whose test cases are all done. -/
def Campaign.conclude (o : Options) (timing : Timing) (c : Campaign) : Outcome :=
  let report := c.report o timing.seconds
  let name : Text := "fuzz_failures_justcss_" ++ decimal timing.stamp ++ ".txt"
  let saves := o.saveFailures && !c.succeeded
  { output := if saves then report ++ line ("\nFailures saved to " ++ name) else report
    exit := some (if c.succeeded then 0 else 1)
    files := if saves then [(name, c.failures o)] else []
    seeds := o.seed.toList
    used := c.tape.used }

/-- Runs the command with the given options. The test cases take the given seconds. -/
def run (o : Options) (timing : Timing) (elapsed : List Int) (tape : Tape) : Outcome :=
  match o.sample with
  | none | some 0 => ((Campaign.start o elapsed tape).testAll o).conclude o timing
  | some count => runSample o count tape

end CssGuard.Fuzz
