import CssGuard.Sheet.Sanitize

/-!
# Import sessions

The sheets that were asked for, by number, with what has come of each. An import is
complete when its own sheet and all sheets below it have been delivered; for a
complete import of the main sheet the text is handed on.

- `Request`: a sheet that was asked for (`_ImportSlot`)
- `Session`: all requests, and how many are not yet delivered (`_ImportContext`)
- `Session.slotTexts`: the texts of the imported sheets so far
- `Session.register`, `Session.settle`, `Session.close`: a request is made, counted and
  delivered
-/

namespace CssGuard

/-- A sheet that was asked for. -/
structure Request where
  uri : Text
  /-- The media that the sheet is for, if there are any. -/
  media : Option Text
  /-- The request for the sheet that imports this one; none for the main sheet. -/
  parent : Option Nat
  /-- How many levels of sheets may be imported below this one. -/
  levels : Nat
  /-- The output of the sheet once it was delivered and read to its end. -/
  delivered : Option (List Part)
  /-- One for the request itself until it is delivered, and one for each import of the
  sheet that is not complete. -/
  waiting : Nat
deriving DecidableEq

/-- A sheet that was asked for, and was not yet delivered and read to its end. -/
def Request.isPending (r : Request) : Bool :=
  r.delivered.isNone

/-- The text in place of an import, when sheets below have the given texts. -/
def Request.text (imported : Nat → Text) (r : Request) : Text :=
  match r.delivered with
  | none => []
  | some parts =>
    let text := partsText imported parts
    match r.media with
    | some media =>
      if text.isEmpty || media.isEmpty then text
      else "@media " ++ media ++ '\x7b' :: text ++ ['\x7d']
    | none => text

/-- The requests so far, by number, and how many are not yet delivered. -/
structure Session where
  requests : List Request
  pending : Nat
deriving DecidableEq

namespace Session

/-- No request yet. -/
def start : Session := ⟨[], 0⟩

/-- The texts of requests numbered from `first` on. A sheet is asked for before those it
imports, so each text needs only later ones. -/
def textsFrom (first : Nat) : List Request → List Text
  | [] => []
  | r :: rest =>
    let later := textsFrom (first + 1) rest
    r.text (fun number => later.getD (number - (first + 1)) []) :: later

/-- The texts in place of all imports, by number. -/
def slotTexts (s : Session) : List Text :=
  textsFrom 0 s.requests

/-- The text in place of an import. -/
def slotText (s : Session) (number : Nat) : Text :=
  s.slotTexts.getD number []

/-- The text of a sheet with the imports delivered so far. -/
def textOf (s : Session) (parts : List Part) : Text :=
  let texts := s.slotTexts
  partsText (fun number => texts.getD number []) parts

/-- The session with one request changed. -/
def modify (s : Session) (number : Nat) (f : Request → Request) : Session :=
  { s with requests := s.requests.modify number f }

/-- One more import to wait for. -/
def awaitMore (s : Session) : Option Nat → Session
  | none => s
  | some number => s.modify number fun r => { r with waiting := r.waiting + 1 }

/-- Makes a request from the sheet of request `parent`, or from the main sheet. Its number
is the number of requests before it. -/
def register (s : Session) (parent : Option Nat) (levels : Nat)
    (request : ImportRequest) : Session :=
  let s := s.awaitMore parent
  ⟨s.requests ++ [⟨request.uri, request.media, parent, levels, none, 1⟩], s.pending + 1⟩

/-- Counts one thing less to wait for at a request, and at those above it that are
complete with it. When an import of the main sheet is complete its text is handed on. -/
def settle (number : Nat) (s : Session) : Traced Session :=
  let s := s.modify number fun r => { r with waiting := r.waiting - 1 }
  match s.requests[number]? with
  | none => pure s
  | some r =>
    if r.waiting ≠ 0 then pure s
    else
      match r.parent with
      | none => ⟨s, [.continued (s.slotText number) (s.pending > 0)]⟩
      | some parent => if parent < number then settle parent s else pure s
termination_by number

/-- Delivers the output of a sheet. -/
def close (s : Session) (number : Nat) (parts : List Part) : Traced Session :=
  let s := s.modify number fun r => { r with delivered := some parts }
  settle number { s with pending := s.pending - 1 }

end Session

end CssGuard
