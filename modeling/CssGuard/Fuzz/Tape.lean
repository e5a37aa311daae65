import CssGuard.Text.Basic

/-!
# Decision tapes

A generator of test cases takes its decisions from a tape of numbers, so a run can be
repeated. A tape that is used up goes on with zeros.

- `Tape`, `Draw`: the tape, and a computation that reads it
- `Draw.chance`, `Draw.between`, `Draw.choice`, `Draw.choices`, `Draw.weighted`: decisions
-/

namespace CssGuard.Fuzz

/-- A tape of numbers, and how many were read. -/
structure Tape where
  rest : List Nat
  used : Nat := 0

/-- A computation that reads the tape. -/
abbrev Draw := StateM Tape

namespace Draw

/-- Reads the next number. -/
def next : Draw Nat := fun tape =>
  match tape.rest with
  | [] => (0, { tape with used := tape.used + 1 })
  | n :: rest => (n, ⟨rest, tape.used + 1⟩)

/-- Decides for yes with the given chance in a hundred. -/
def chance (percent : Nat) : Draw Bool := do
  return (← next) % 100 < percent

/-- Decides for a number between two others, ends included. -/
def between (low high : Int) : Draw Int := do
  return low + Int.fmod (← next) (high - low + 1)

/-- Decides for a member of a list. -/
def choice {α : Type} [Inhabited α] (list : List α) : Draw α := do
  return list.getD ((← next) % list.length) default

/-- Makes a number of decisions of one kind. -/
def times {α : Type} (draw : Draw α) : Nat → Draw (List α)
  | 0 => pure []
  | n + 1 => do
    let a ← draw
    let more ← times draw n
    return a :: more

/-- Decides for members of a list, and puts them together. -/
def choices (list : List Text) (count : Int) : Draw Text := do
  return (← times (choice list) count.toNat).flatten

/-- The item in whose share of the whole a number lies. -/
def pick {α : Type} (fallback : α) (n : Nat) : List (Nat × α) → α
  | [] => fallback
  | (weight, a) :: rest => if n < weight then a else pick fallback (n - weight) rest

/-- Decides for an item, each with the given weight. -/
def weighted {α : Type} (fallback : α) (items : List (Nat × α)) : Draw α := do
  return pick fallback ((← next) % items.foldl (fun total item => total + item.1) 0) items

end Draw

end CssGuard.Fuzz
