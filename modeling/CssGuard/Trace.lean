import CssGuard.Issue

/-!
# Traces

What happens while a text is sanitized, besides the result: issues, questions
to the URL policy, requests for imported sheets and the answers handed on. All
of it is one list, in order.

- `Notice`, `Trace`: what happened
- `Traced`: a value with the trace of its computation; its monad appends traces
- `Trace.issues`, `Trace.consultations`, …: one kind of notice
-/

namespace CssGuard

/-- One thing that happened. -/
inductive Notice where
  /-- Something was dropped. -/
  | issue (cause : Issue)
  /-- The URL policy was asked about a URL used by a property or at-rule. -/
  | consulted (uri user : Text)
  /-- An imported sheet was asked for. -/
  | requested (uri : Text)
  /-- The text of a finished import was handed on, and whether
  sheets are still awaited. -/
  | continued (text : Text) (more : Bool)
deriving DecidableEq

/-- What happened, in order. -/
abbrev Trace := List Notice

namespace Trace

/-- What was dropped, in order. -/
def issues (t : Trace) : List Issue :=
  t.filterMap fun
    | .issue cause => some cause
    | _ => none

/-- The questions to the URL policy, in order. -/
def consultations (t : Trace) : List (Text × Text) :=
  t.filterMap fun
    | .consulted uri user => some (uri, user)
    | _ => none

/-- The sheets asked for, in order. -/
def requests (t : Trace) : List Text :=
  t.filterMap fun
    | .requested uri => some uri
    | _ => none

/-- The finished imports, in order. -/
def continuations (t : Trace) : List (Text × Bool) :=
  t.filterMap fun
    | .continued text more => some (text, more)
    | _ => none

/-- The report of a trace. -/
def diagnostics (t : Trace) : List Diagnostic :=
  t.issues.map Diagnostic.ofIssue

end Trace

/-- A value and the trace of its computation. -/
structure Traced (α : Type) where
  value : α
  trace : Trace
deriving DecidableEq

namespace Traced

variable {α β : Type}

instance : Monad Traced where
  pure a := ⟨a, []⟩
  bind x f := ⟨(f x.value).value, x.trace ++ (f x.value).trace⟩

@[simp] theorem value_pure (a : α) : (pure a : Traced α).value = a := rfl

@[simp] theorem trace_pure (a : α) : (pure a : Traced α).trace = [] := rfl

@[simp] theorem value_bind (x : Traced α) (f : α → Traced β) :
    (x >>= f).value = (f x.value).value := rfl

@[simp] theorem trace_bind (x : Traced α) (f : α → Traced β) :
    (x >>= f).trace = x.trace ++ (f x.value).trace := rfl

instance : LawfulMonad Traced :=
  .mk' _ (fun x => congrArg (Traced.mk x.value) (List.append_nil x.trace))
    (fun _ _ => rfl) fun _ _ _ => congrArg (Traced.mk _) (List.append_assoc ..)

@[simp] theorem value_map (f : α → β) (x : Traced α) : (f <$> x).value = f x.value := rfl

@[simp] theorem trace_map (f : α → β) (x : Traced α) : (f <$> x).trace = x.trace :=
  List.append_nil _

/-- Records one notice. -/
def note (n : Notice) : Traced Unit := ⟨(), [n]⟩

/-- Reports an issue. -/
def report (cause : Issue) : Traced Unit := note (.issue cause)

/-- Reports an issue and gives a value. -/
def reporting (cause : Issue) (a : α) : Traced α := ⟨a, [.issue cause]⟩

/-- Runs a traced function over a list, in order. -/
def collect (f : α → Traced β) : List α → Traced (List β)
  | [] => pure []
  | a :: rest => do
    let b ← f a
    let bs ← collect f rest
    pure (b :: bs)

end Traced

end CssGuard
