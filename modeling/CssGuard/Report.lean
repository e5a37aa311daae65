import CssGuard.Issue

/-!
# Reports

Diagnostics are collected in reports. Reports can be opened inside one another, and then
only the innermost one collects; without an open report a diagnostic is lost.

- `Reports`: the open reports
- `Reports.begin`, `Reports.add`, `Reports.end?`: opening a report, adding to it, and
  closing it (`collect_errors`, `emit_error`)
-/

namespace CssGuard

/-- The open reports, innermost first, each with its entries in order. -/
abbrev Reports := List (List Diagnostic)

namespace Reports

/-- Opens a report. -/
def begin (reports : Reports) : Reports :=
  [] :: reports

/-- Adds an entry to the innermost report. -/
def add (d : Diagnostic) : Reports → Reports
  | [] => []
  | innermost :: outer => (innermost ++ [d]) :: outer

/-- Closes the innermost report and gives its entries. -/
def end? : Reports → Option (List Diagnostic × Reports)
  | [] => none
  | innermost :: outer => some (innermost, outer)

/-- How many entries the open reports have, outermost first. -/
def sizes (reports : Reports) : List Nat :=
  (reports.map List.length).reverse

end Reports

end CssGuard
