import CssGuard.Proofs.Import.Session

/-!
# Sheets with imports, step by step

A requested sheet can be delivered at any moment, also while other sheets are being read:
inside the call that asked for it, inside a call that asked for another one, or when a
text is handed on. What was begun last is finished first, so the sheets that are being
read are a stack.

- `OpenSheet`, `Assembling`: a sheet that is being read, and an
  assembly in the middle of its calls
- `Step`: one signal of the innermost sheet, its end, or a delivery to any request
- `Reaches`: steps one after the other, with the deliveries and the trace of all of them
- `reaches_begin`, `reaches_deliver?`: the functions that assemble a sheet take such steps
-/

namespace CssGuard

/-- A sheet that is being read. -/
structure OpenSheet where
  /-- The request that the sheet answers; none for the main sheet. -/
  owner : Option Nat
  context : SheetContext
  state : SheetState
  /-- The signals that are still to come. -/
  rest : List Signal

/-- An assembly in the middle of its calls. Between the calls no sheet is being read. -/
structure Assembling extends Assembly where
  /-- The sheets that are being read, innermost first. -/
  sheets : List OpenSheet

/-- The sheets that are being read, by the requests that they answer. -/
def Assembling.owners (a : Assembling) : List (Option Nat) :=
  a.sheets.map OpenSheet.owner

/-- The number of a request and the text that is delivered to it. -/
abbrev Delivery := Nat × Text

/-- What the sheet of a request depends on. -/
def Request.context (ctx : SheetContext) (r : Request) : SheetContext :=
  { ctx with base := some r.uri, importLevels := some r.levels }

/-- How many levels of sheets may be imported below the imports of a sheet. -/
def SheetContext.levelsBelow (ctx : SheetContext) : Nat :=
  ctx.importLevels.getD 0 - 1

/-- One step of an assembly, with what is delivered in it and its trace. -/
inductive Step (ctx : SheetContext) :
    Assembling → List Delivery → Trace → Assembling → Prop
  /-- The innermost sheet has an issue. -/
  | issue {parts session owner context state cause rest others} :
    Step ctx ⟨⟨parts, session⟩, ⟨owner, context, state,
      .issue cause :: rest⟩ :: others⟩ [] [.issue cause] ⟨⟨parts, session⟩, ⟨owner,
      context, state, rest⟩ :: others⟩
  /-- An event of the innermost sheet that asks for nothing. -/
  | event {parts session owner context state e rest others}
    (hrequest : (state.step context e).value.request = none) :
    Step ctx ⟨⟨parts, session⟩, ⟨owner, context, state, .event e :: rest⟩ :: others⟩ []
      (state.step context e).trace
      ⟨⟨parts, session⟩, ⟨owner, context, (state.step context e).value.state,
        rest⟩ :: others⟩
  /-- An event of the innermost sheet that asks for a sheet. -/
  | request {parts session owner context state e rest others r}
    (hrequest : (state.step context e).value.request = some r) :
    Step ctx ⟨⟨parts, session⟩, ⟨owner, context, state, .event e :: rest⟩ :: others⟩ []
      ((state.step context e).trace ++ [.requested r.uri])
      ⟨⟨parts, session.register owner context.levelsBelow r⟩,
        ⟨owner, context,
          (state.step context e).value.state.addSlot session.requests.length, rest⟩ ::
          others⟩
  /-- The main sheet ends. -/
  | mainEnd {parts session context state others} :
    Step ctx ⟨⟨parts, session⟩, ⟨none, context, state, []⟩ :: others⟩ [] []
      ⟨⟨state.parts, session⟩, others⟩
  /-- The sheet of a request ends. -/
  | close {parts session number context state others} :
    Step ctx ⟨⟨parts, session⟩, ⟨some number, context, state, []⟩ :: others⟩ []
      (session.close number state.parts).trace
      ⟨⟨parts, (session.close number state.parts).value⟩, others⟩
  /-- The first text is delivered to a request. -/
  | deliver {a : Assembling} {number css r} (hr : a.session.requests[number]? = some r)
    (hpending : r.isPending) (hfree : some number ∉ a.owners) :
    Step ctx a [(number, css)] (lex css).trace
      { a with sheets :=
          ⟨some number, r.context ctx, .start, sheetSignals (lex css).value⟩ :: a.sheets }
  /-- A text is delivered to a request whose sheet is being read or has been. -/
  | again {a : Assembling} {number css r} (hr : a.session.requests[number]? = some r)
    (hbusy : r.isPending → some number ∈ a.owners) :
    Step ctx a [(number, css)] [] a

/-- Steps one after the other. -/
inductive Reaches (ctx : SheetContext) (a : Assembling) :
    List Delivery → Trace → Assembling → Prop
  | refl : Reaches ctx a [] [] a
  | step {log trace b log' trace' c} (h : Reaches ctx a log trace b)
    (hstep : Step ctx b log' trace' c) : Reaches ctx a (log ++ log') (trace ++ trace') c

/-- The assembly before its main sheet is read. -/
def Assembling.initial (ctx : SheetContext) (levels : Nat) (css : Text) : Assembling :=
  ⟨⟨[], .start⟩, [⟨none, { ctx with importLevels := some levels }, .start,
    sheetSignals (lex css).value⟩]⟩

variable {ctx : SheetContext} {a b c : Assembling} {log log' : List Delivery}
  {trace trace' : Trace}

theorem Reaches.trans (h : Reaches ctx a log trace b) (h' : Reaches ctx b log' trace' c) :
    Reaches ctx a (log ++ log') (trace ++ trace') c := by
  induction h' with
  | refl => rwa [List.append_nil, List.append_nil]
  | step _ hstep ih =>
    rw [← List.append_assoc, ← List.append_assoc]
    exact .step ih hstep

theorem Step.reaches (h : Step ctx a log trace b) : Reaches ctx a log trace b :=
  .step .refl h

/-! ## Requests are never forgotten -/

theorem Step.length_requests_le (h : Step ctx a log trace b) :
    a.session.requests.length ≤ b.session.requests.length := by
  cases h with
  | request => exact Session.length_requests_register .. ▸ Nat.le_succ _
  | close => exact Nat.le_of_eq (Session.length_requests_close ..).symm
  | _ => exact Nat.le_refl _

theorem Reaches.length_requests_le (h : Reaches ctx a log trace b) :
    a.session.requests.length ≤ b.session.requests.length := by
  induction h with
  | refl => exact Nat.le_refl _
  | step _ hstep ih => exact Nat.le_trans ih hstep.length_requests_le

/-! ## The functions that assemble a sheet -/

/-- All sheets that are being read answer requests that were made. -/
def Assembling.OwnersKnown (a : Assembling) : Prop :=
  ∀ number, some number ∈ a.owners → number < a.session.requests.length

/-- Making a request notes it and registers it, and then takes steps. -/
def Serves (ctx : SheetContext) (owner : Option Nat) (levels : Nat)
    (request : MakeRequest) : Prop :=
  ∀ (r : ImportRequest) (parts : List Part) (session : Session) (sheets : List OpenSheet),
    Assembling.OwnersKnown ⟨⟨parts, session⟩, sheets⟩ →
    ∃ log trace, (request r session).trace = .requested r.uri :: trace ∧
      Reaches ctx ⟨⟨parts, session.register owner levels r⟩, sheets⟩ log trace
        ⟨⟨parts, (request r session).value⟩, sheets⟩

variable {parts : List Part} {sheets others : List OpenSheet} {session : Session}

theorem Assembling.OwnersKnown.of_reaches
    (h : Assembling.OwnersKnown ⟨⟨parts, session⟩, sheets⟩) {session' : Session}
    (hreaches :
      Reaches ctx ⟨⟨parts, session⟩, sheets⟩ log trace ⟨⟨parts, session'⟩, sheets⟩) :
    Assembling.OwnersKnown ⟨⟨parts, session'⟩, sheets⟩ :=
  fun number hnumber => Nat.lt_of_lt_of_le (h number hnumber) hreaches.length_requests_le

theorem Assembling.OwnersKnown.register
    (h : Assembling.OwnersKnown ⟨⟨parts, session⟩, sheets⟩) (parent : Option Nat)
    (levels : Nat) (r : ImportRequest) :
    Assembling.OwnersKnown ⟨⟨parts, session.register parent levels r⟩, sheets⟩ :=
  fun number hnumber =>
    Session.length_requests_register session parent levels r ▸ Nat.lt_succ_of_lt
      (h number hnumber)

theorem SheetContext.levelsBelow_eq {context : SheetContext} {below : Nat}
    (h : context.importLevels = some (below + 1)) : context.levelsBelow = below := by
  rw [SheetContext.levelsBelow, h]
  rfl

/-- The signals of a sheet are taken one by one. -/
theorem reaches_runWithImports {owner : Option Nat} {context : SheetContext}
    (request : MakeRequest) (hserves : ∀ below, context.importLevels = some (below + 1) →
      Serves ctx owner below request)
    (state : SheetState) (signals : List Signal)
    (hknown : Assembling.OwnersKnown ⟨⟨parts, session⟩,
      ⟨owner, context, state, signals⟩ :: others⟩) :
    ∃ log, Reaches ctx ⟨⟨parts, session⟩, ⟨owner, context, state, signals⟩ :: others⟩ log
      (runWithImports context request state session signals).trace
      ⟨⟨parts, (runWithImports context request state session signals).value.2⟩,
        ⟨owner, context, (runWithImports context request state session signals).value.1,
          []⟩ :: others⟩ := by
  induction signals generalizing state session with
  | nil => exact ⟨[], .refl⟩
  | cons signal signals ih =>
    cases signal with
    | issue cause =>
      obtain ⟨log, h⟩ := ih state hknown
      exact ⟨log, Step.issue.reaches.trans h⟩
    | event e =>
      cases hr : (state.step context e).value.request with
      | none =>
        obtain ⟨log, h⟩ := ih (state.step context e).value.state hknown
        rw [runWithImports, Traced.trace_bind, Traced.value_bind, hr]
        exact ⟨log, (Step.event hr).reaches.trans h⟩
      | some r =>
        obtain ⟨-, -, -, ⟨below, hbelow⟩, -⟩ := request_of_step hr
        have hknown' : Assembling.OwnersKnown ⟨⟨parts, session⟩, ⟨owner, context,
          (state.step context e).value.state.addSlot session.requests.length,
          signals⟩ :: others⟩ := hknown
        -- what is imported is read in between, in steps of its own
        obtain ⟨log, trace, htrace, h⟩ := hserves below hbelow r parts session _ hknown'
        obtain ⟨log', h'⟩ := ih _ ((hknown'.register owner below r).of_reaches h)
        rw [← SheetContext.levelsBelow_eq hbelow] at h
        have hall := (Step.request hr).reaches.trans (h.trans h')
        rw [List.append_assoc, List.singleton_append, ← List.cons_append,
          ← htrace] at hall
        rw [runWithImports, Traced.trace_bind, Traced.value_bind, hr]
        exact ⟨_, hall⟩

/-- A delivery takes steps and leaves the sheets that are being read as they are. -/
theorem reaches_deliverWith {ctx : ImportContext} {levels number : Nat}
    {request : MakeRequest}
    (hserves : ∀ below, levels = below + 1 → Serves ctx.sheet (some number) below request)
    {r : Request} (hr : session.requests[number]? = some r) (hlevels : r.levels = levels)
    (hknown : Assembling.OwnersKnown ⟨⟨parts, session⟩, sheets⟩)
    (hfree : some number ∉ sheets.map OpenSheet.owner) (css : Text) :
    ∃ log, Reaches ctx.sheet ⟨⟨parts, session⟩, sheets⟩ log
      (deliverWith ctx levels request number css session).trace
      ⟨⟨parts, (deliverWith ctx levels request number css session).value⟩, sheets⟩ := by
  subst hlevels
  unfold deliverWith
  rw [hr]
  dsimp only
  by_cases hpending : r.isPending
  · have hopen : Step ctx.sheet ⟨⟨parts, session⟩, sheets⟩ [(number, css)]
        (lex css).trace _ :=
      Step.deliver hr hpending hfree
    have hknown' : Assembling.OwnersKnown ⟨⟨parts, session⟩,
        ⟨some number, r.context ctx.sheet, .start, sheetSignals (lex css).value⟩ ::
          sheets⟩ := by
      intro n hn
      rcases List.mem_cons.mp hn with hn | hn
      · exact Option.some.inj hn ▸ (List.getElem?_eq_some_iff.mp hr).1
      · exact hknown n hn
    obtain ⟨log, h⟩ := reaches_runWithImports _
      (fun below hbelow => hserves below (Option.some.inj hbelow)) _ _ hknown'
    rw [if_pos hpending]
    have hall := hopen.reaches.trans (h.trans Step.close.reaches)
    exact ⟨_, hall⟩
  · rw [if_neg hpending]
    exact ⟨[(number, css)], (Step.again hr fun h => absurd h hpending).reaches⟩

theorem serves_makeRequest {ctx : ImportContext} {owner : Option Nat} {levels : Nat}
    {answer : Nat → Text → Session → Traced Session}
    (hanswer : ∀ (number : Nat) (css : Text) (parts : List Part) (session : Session)
      (sheets : List OpenSheet) (r : Request), session.requests[number]? = some r →
      r.levels = levels → Assembling.OwnersKnown ⟨⟨parts, session⟩, sheets⟩ →
      some number ∉ sheets.map OpenSheet.owner →
      ∃ log, Reaches ctx.sheet ⟨⟨parts, session⟩, sheets⟩ log
      (answer number css session).trace
        ⟨⟨parts, (answer number css session).value⟩, sheets⟩) :
    Serves ctx.sheet owner levels (makeRequest ctx owner levels answer) := by
  intro r parts session sheets hknown
  unfold makeRequest
  cases ctx.prompt r.uri with
  | none => exact ⟨[], [], rfl, .refl⟩
  | some css =>
    -- the number of a new request is known to no sheet that is being read
    have hfree : some session.requests.length ∉ sheets.map OpenSheet.owner :=
      fun hnumber => Nat.lt_irrefl _ (hknown _ hnumber)
    obtain ⟨w, hr⟩ :=
      Session.exists_of_getElem?_records (s := session.register owner levels r)
        (n := session.requests.length) (r := ⟨r.uri, r.media, owner, levels, none, 0⟩)
      (by rw [Session.records_register, ← Session.length_records,
        List.getElem?_concat_length])
    obtain ⟨log, h⟩ :=
      hanswer _ css parts _ sheets _ hr rfl (hknown.register owner levels r) hfree
    exact ⟨log, _, rfl, h⟩

theorem reaches_deliver {ctx : ImportContext} (levels number : Nat) (css : Text)
    (parts : List Part) (session : Session) (sheets : List OpenSheet) (r : Request)
    (hr : session.requests[number]? = some r) (hlevels : r.levels = levels)
    (hknown : Assembling.OwnersKnown ⟨⟨parts, session⟩, sheets⟩)
    (hfree : some number ∉ sheets.map OpenSheet.owner) :
    ∃ log, Reaches ctx.sheet ⟨⟨parts, session⟩, sheets⟩ log
      (deliver ctx levels number css session).trace
      ⟨⟨parts, (deliver ctx levels number css session).value⟩, sheets⟩ := by
  induction levels generalizing number css parts session sheets r with
  | zero => exact reaches_deliverWith (fun _ h => by cases h) hr hlevels hknown hfree css
  | succ levels ih =>
    refine reaches_deliverWith (fun below h => ?_) hr hlevels hknown hfree css
    cases h
    exact serves_makeRequest ih

/-- The main sheet is read, and the requests that are answered at
once are answered, in steps. -/
theorem reaches_begin (ctx : ImportContext) (levels : Nat) (css : Text) :
    ∃ log trace, (Assembly.begin ctx levels css).trace = (lex css).trace ++ trace ∧
      Reaches ctx.sheet (.initial ctx.sheet levels css) log trace
        ⟨(Assembly.begin ctx levels css).value, []⟩ := by
  have hknown : (Assembling.initial ctx.sheet levels css).OwnersKnown :=
    fun _ h => by cases List.mem_singleton.mp h
  cases levels with
  | zero =>
    obtain ⟨log, h⟩ := reaches_runWithImports (fun _ session => pure session)
      (fun below hbelow => by cases hbelow) _ _ hknown
    exact ⟨_, _, rfl, h.trans Step.mainEnd.reaches⟩
  | succ levels =>
    obtain ⟨log, h⟩ := reaches_runWithImports
      (makeRequest ctx none levels (CssGuard.deliver ctx levels))
      (fun below hbelow => by
        cases hbelow; exact serves_makeRequest (reaches_deliver levels)) _ _ hknown
    exact ⟨_, _, rfl, h.trans Step.mainEnd.reaches⟩

/-- A delivery between the calls is a row of steps from one
moment between them to another. -/
theorem reaches_deliver? {ctx : ImportContext} {a : Assembly} {number : Nat} {css : Text}
    {out : Traced Assembly} (h : a.deliver? ctx number css = some out) :
    ∃ log, Reaches ctx.sheet ⟨a, []⟩ log out.trace ⟨out.value, []⟩ := by
  obtain ⟨r, hr, rfl⟩ := Option.map_eq_some_iff.mp h
  obtain ⟨log, h⟩ :=
    @reaches_deliver ctx r.levels number css a.parts a.session [] r hr rfl (fun _ h => by
      cases h) List.not_mem_nil
  rw [Traced.trace_bind, Traced.trace_pure, List.append_nil]
  exact ⟨log, h⟩

end CssGuard
