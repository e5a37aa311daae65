import CssGuard.Import.Run
import CssGuard.Proofs.Event.Rules
import Mathlib.Data.List.Induction

/-!
# Outlines of sheets

What a sheet writes, and which sheets it asks for, depends on its own text and context and
on nothing that happens to other sheets meanwhile. The outline of a sheet is what it
writes with its imports numbered within the sheet; the places they get in a session are
another numbering of the same output.

- `request_of_step`: when an event asks for a sheet
- `frame_step`: what an event does to the output and to the rules that are open
- `Outline`, `outline`: what a sheet writes, and what its imports ask for
- `SheetState.renumber`: the same output with other numbers at the places of imports
- `step_renumber`: an event does not depend on these numbers
- `inlined`: the text of a sheet in which the imports are replaced by their sheets
-/

namespace CssGuard

/-! ## Requests -/

/-- A medium that an import is for is never the empty one. -/
theorem media_ne_nil_of_importMedia {ctx : SheetContext} {target : Text}
    {tokens : List Token} {media : Option Text}
    (h : (importMedia ctx target tokens).value = some media) : media ≠ some [] := by
  unfold importMedia at h
  split at h
  · cases h
    exact fun heq => by cases heq
  · rw [Traced.value_bind] at h
    split at h
    · cases h
    · rename_i hne
      cases h
      intro heq
      rw [Option.some.inj heq] at hne
      exact hne rfl

/-- The request of an `@import` rule with the given header: the policy was asked about the
target of the rule, resolved against the URL of its sheet, and returned the URL of the
request. That it was asked comes last in the trace. -/
structure ImportRequest.IsFor (ctx : SheetContext) (header : List Token) (trace : Trace)
    (r : ImportRequest) : Prop where
  levels : ∃ below, ctx.importLevels = some (below + 1)
  media : r.media ≠ some []
  granted : ∃ first target ask earlier, (header.dropWhile (· = Token.space)).head? =
    some first ∧ importTarget? first = some target ∧ ctx.policy = some ask ∧
    ask (Url.resolve ctx.base target) "@import" = some r.uri ∧ Url.isHarmless r.uri ∧
    trace = earlier ++ [.consulted (Url.resolve ctx.base target) "@import"]

theorem isFor_of_importTarget {ctx : SheetContext} {levels : Nat}
    {header rest : List Token} {first : Token} {target : Text} {r : ImportRequest}
    (hlevels : ctx.importLevels = some levels)
    (hheader : header.dropWhile (· = Token.space) = first :: rest)
    (htarget : importTarget? first = some target)
    (h : (importTarget ctx levels target rest).value = some r) :
    r.IsFor ctx header (importTarget ctx levels target rest).trace := by
  unfold importTarget at h ⊢
  rw [Traced.value_bind] at h
  rw [Traced.trace_bind]
  split at h
  · cases h
  · rename_i media hmedia
    cases levels with
    | zero => cases h
    | succ below =>
      rw [Traced.value_bind] at h
      split at h
      · cases h
      · rename_i uri huri
        obtain ⟨ask, hask, hgranted, hsafe, htrace⟩ := Url.granted_of_accept huri
        cases h
        refine ⟨⟨below, hlevels⟩, media_ne_nil_of_importMedia hmedia, first, target, ask,
          (importMedia ctx target rest).trace,
            by rw [hheader]; rfl, htarget, hask, hgranted, hsafe, ?_⟩
        dsimp only
        rw [Traced.trace_bind, htrace, huri]
        rfl

/-- An event asks for a sheet only if it is an `@import` rule outside all blocks of a
sheet that has a level left, and the policy returned the URL that is asked for. -/
theorem request_of_step {ctx : SheetContext} {s : SheetState} {e : Event}
    {r : ImportRequest} (h : (s.step ctx e).value.request = some r) :
    ∃ header, e = .startAtRule "@import" header ∧ s.stack = [] ∧
      r.IsFor ctx header (s.step ctx e).trace := by
  cases e with
  | startAtRule name header =>
    change (s.startAtRule ctx name header).value.request = some r at h
    refine ⟨header, ?_⟩
    show _ ∧ _ ∧ r.IsFor ctx header (s.startAtRule ctx name header).trace
    unfold SheetState.startAtRule at h ⊢
    split at h
    · cases h
    rename_i heliding
    rw [if_neg heliding]
    split at h
    · rw [Traced.value_bind] at h
      split at h <;> cases h
    rename_i hmedia
    rw [if_neg hmedia]
    split at h
    · rename_i hname
      rw [if_pos hname, Traced.trace_bind, Traced.trace_pure, List.append_nil]
      change (importRequest ctx s header).value = some r at h
      unfold importRequest at h ⊢
      split at h
      · cases h
      rename_i levels hlevels
      split at h
      · rename_i hstack
        rw [if_pos hstack]
        split at h
        · cases h
        split at h
        · cases h
        rename_i first rest hheader _ target htarget
        exact ⟨by rw [hname], List.isEmpty_iff.mp hstack,
          isFor_of_importTarget hlevels hheader htarget h⟩
      · cases h
    · cases h
  | _ => cases h

/-! ## What an event does to a sheet -/

theorem pushes_startAtRule (ctx : SheetContext) (s : SheetState) (name : Text)
    (header : List Token) :
    ∃ m, (s.startAtRule ctx name header).value.state = s.push m := by
  unfold SheetState.startAtRule
  split
  · exact ⟨_, rfl⟩
  split
  · rw [Traced.value_bind]
    split <;> exact ⟨_, rfl⟩
  split <;> exact ⟨_, rfl⟩

theorem pushes_startRuleset (ctx : SheetContext) (s : SheetState)
    (selector : List Token) : ∃ m, (s.startRuleset ctx selector).value = s.push m := by
  unfold SheetState.startRuleset
  split <;> exact ⟨_, rfl⟩

/-- An event adds texts to what was written, unless a sheet begins with it. A rule that
opens is put on the stack, and taken off when it ends. -/
theorem frame_step (ctx : SheetContext) (s : SheetState) (e : Event) :
    ∃ (kept : List Part) (texts : List Text), kept <+: s.parts ∧
      (s.step ctx e).value.state.parts = kept ++ texts.map .text ∧
      (s.step ctx e).value.state.stack.length = e.openAfter s.stack.length := by
  -- most events leave the output as it is
  have hsame : ∀ s' : SheetState, s'.parts = s.parts →
      s'.stack.length = e.openAfter s.stack.length →
      ∃ (kept : List Part) (texts : List Text), kept <+: s.parts ∧
        s'.parts = kept ++ texts.map .text ∧
        s'.stack.length = e.openAfter s.stack.length :=
    fun s' hparts hstack => ⟨s.parts, [], List.prefix_refl _, by simp [hparts], hstack⟩
  obtain ⟨parts, stack⟩ := s
  cases e with
  | startSheet => exact ⟨[], [], List.nil_prefix, rfl, rfl⟩
  | endSheet => exact hsame _ rfl rfl
  | startAtRule name header =>
    obtain ⟨m, hm⟩ := pushes_startAtRule ctx ⟨parts, stack⟩ name header
    exact hsame _ (congrArg SheetState.parts hm :)
      (congrArg (List.length ∘ SheetState.stack) hm :)
  | endAtRule => exact hsame _ rfl List.length_tail
  | startBlock =>
    rcases stack with _ | ⟨m, stack⟩
    · exact hsame _ rfl rfl
    cases m with
    | atRule header => exact ⟨parts, [header ++ ['\x7b']], List.prefix_refl _, rfl, rfl⟩
    | _ => exact hsame _ rfl rfl
  | endBlock =>
    rcases stack with _ | ⟨m, stack⟩
    · exact hsame _ rfl rfl
    cases m with
    | atRule header => exact ⟨parts, [['\x7d']], List.prefix_refl _, rfl, rfl⟩
    | _ => exact hsame _ rfl rfl
  | startRuleset selector =>
    obtain ⟨m, hm⟩ := pushes_startRuleset ctx ⟨parts, stack⟩ selector
    exact hsame _ (congrArg SheetState.parts hm :)
      (congrArg (List.length ∘ SheetState.stack) hm :)
  | endRuleset =>
    rcases stack with _ | ⟨m, stack⟩
    · exact hsame _ rfl rfl
    cases m with
    | ruleset selection declarations =>
      have hwrite := SheetState.foldl_write ⟨parts, stack⟩
        (rulesetTexts ctx.schema selection declarations).value
      exact ⟨parts, _, List.prefix_refl _, congrArg SheetState.parts hwrite,
        congrArg (List.length ∘ SheetState.stack) hwrite⟩
    | _ => exact hsame _ rfl rfl
  | declaration name value =>
    rcases stack with _ | ⟨m, stack⟩
    · exact hsame _ rfl rfl
    cases m <;> exact hsame _ rfl rfl

/-! ## Outlines -/

/-- What was written of a sheet, with its imports numbered within the
sheet, and what they ask for. -/
structure Outline where
  state : SheetState
  requests : List ImportRequest

/-- The outline after one more signal. -/
def Outline.next (ctx : SheetContext) (o : Outline) : Signal → Outline
  | .issue _ => o
  | .event e =>
    match (o.state.step ctx e).value.request with
    | none => ⟨(o.state.step ctx e).value.state, o.requests⟩
    | some r =>
      ⟨(o.state.step ctx e).value.state.addSlot o.requests.length, o.requests ++ [r]⟩

/-- The outline after the given signals. -/
def outlineOf (ctx : SheetContext) (signals : List Signal) : Outline :=
  signals.foldl (Outline.next ctx) ⟨.start, []⟩

/-- The outline of a sheet. -/
def outline (ctx : SheetContext) (css : Text) : Outline :=
  outlineOf ctx (sheetSignals (lex css).value)

variable {ctx : SheetContext}

theorem outlineOf_concat (signals : List Signal) (signal : Signal) :
    outlineOf ctx (signals ++ [signal]) = (outlineOf ctx signals).next ctx signal := by
  simp [outlineOf]

theorem Outline.next_of_no_request {o : Outline} {e : Event}
    (h : (o.state.step ctx e).value.request = none) :
    o.next ctx (.event e) = ⟨(o.state.step ctx e).value.state, o.requests⟩ := by
  rw [Outline.next, h]

theorem Outline.next_of_request {o : Outline} {e : Event} {r : ImportRequest}
    (h : (o.state.step ctx e).value.request = some r) :
    o.next ctx (.event e) =
      ⟨(o.state.step ctx e).value.state.addSlot o.requests.length,
        o.requests ++ [r]⟩ := by
  rw [Outline.next, h]

/-! ## Places of imports -/

/-- The numbers at the places of imports. -/
def slots (parts : List Part) : List Nat :=
  parts.filterMap fun
    | .text _ => none
    | .slot k => some k

theorem mem_slots {parts : List Part} {k : Nat} : k ∈ slots parts ↔ .slot k ∈ parts := by
  rw [slots, List.mem_filterMap]
  constructor
  · rintro ⟨part, hpart, h⟩
    cases part with
    | text t => cases h
    | slot k' => cases h; exact hpart
  · exact fun h => ⟨_, h, rfl⟩

theorem slots_append_texts (parts : List Part) (texts : List Text) :
    slots (parts ++ texts.map .text) = slots parts := by
  simp [slots]

@[simp] theorem SheetState.slots_addSlot (s : SheetState) (k : Nat) :
    slots (s.addSlot k).parts = slots s.parts ++ [k] := by
  simp [slots, addSlot]

/-- An event adds no place of an import by itself. -/
theorem slots_step_subset (s : SheetState) (e : Event) :
    slots (s.step ctx e).value.state.parts ⊆ slots s.parts := by
  obtain ⟨kept, texts, hkept, hparts, -⟩ := frame_step ctx s e
  rw [hparts, slots_append_texts]
  exact (hkept.filterMap _).subset

/-- In an outline each place of an import has the number of a request. -/
theorem lt_of_mem_slots_outlineOf (signals : List Signal) :
    ∀ k ∈ slots (outlineOf ctx signals).state.parts,
    k < (outlineOf ctx signals).requests.length := by
  induction signals using List.reverseRecOn with
  | nil => exact fun k hk => absurd hk List.not_mem_nil
  | append_singleton signals signal ih =>
    rw [outlineOf_concat]
    cases signal with
    | issue cause => exact ih
    | event e =>
      cases h : ((outlineOf ctx signals).state.step ctx e).value.request with
      | none =>
        rw [Outline.next_of_no_request h]
        exact fun k hk => ih k (slots_step_subset _ e hk)
      | some r =>
        rw [Outline.next_of_request h]
        intro k hk
        rw [SheetState.slots_addSlot, List.mem_append, List.mem_singleton] at hk
        rw [List.length_append, List.length_singleton]
        rcases hk with hk | rfl
        · exact Nat.lt_succ_of_lt (ih k (slots_step_subset _ e hk))
        · exact Nat.lt_succ_self _

/-! ## Numbers of imports -/

/-- A piece of output, with the numbers of imports looked up in a list. -/
def Part.renumber (numbers : List Nat) : Part → Part
  | .text t => .text t
  | .slot k => .slot (numbers.getD k 0)

/-- A state, with the numbers of imports looked up in a list. -/
def SheetState.renumber (numbers : List Nat) (s : SheetState) : SheetState :=
  { s with parts := s.parts.map (Part.renumber numbers) }

namespace SheetState

variable (numbers : List Nat) (s : SheetState)

@[simp] theorem isEliding_renumber : (s.renumber numbers).isEliding = s.isEliding := rfl

@[simp] theorem write_renumber (t : Text) :
    (s.renumber numbers).write t = (s.write t).renumber numbers := by
  simp [write, renumber, Part.renumber]

theorem foldl_write_renumber (ts : List Text) :
    ts.foldl (fun s t => s.write t) (s.renumber numbers) =
      (ts.foldl (fun s t => s.write t) s).renumber numbers := by
  rw [foldl_write, foldl_write]
  simp [renumber, Part.renumber]

/-- A new import at the end of the numbers. -/
theorem addSlot_renumber (number : Nat) {k : Nat} (hk : k = numbers.length)
    (hslots : ∀ k' ∈ slots s.parts, k' < numbers.length) :
    (s.renumber numbers).addSlot number =
      (s.addSlot k).renumber (numbers ++ [number]) := by
  have hold : s.parts.map (Part.renumber numbers) =
      s.parts.map (Part.renumber (numbers ++ [number])) := by
    refine List.map_congr_left fun part hpart => ?_
    cases part with
    | text t => rfl
    | slot k' =>
      rw [Part.renumber, Part.renumber, List.getD_eq_getElem?_getD,
        List.getD_eq_getElem?_getD,
        List.getElem?_append_left (hslots k' (mem_slots.mpr hpart))]
  subst hk
  simp [addSlot, renumber, hold, Part.renumber]

end SheetState

theorem startAtRule_renumber (numbers : List Nat) (s : SheetState) (name : Text)
    (header : List Token) :
    (s.renumber numbers).startAtRule ctx name header =
      ⟨⟨(s.startAtRule ctx name header).value.state.renumber numbers,
        (s.startAtRule ctx name header).value.request⟩,
        (s.startAtRule ctx name header).trace⟩ := by
  have himport : importRequest ctx (s.renumber numbers) header =
    importRequest ctx s header := rfl
  unfold SheetState.startAtRule
  rw [SheetState.isEliding_renumber, himport]
  split
  · rfl
  split
  · simp only [Bind.bind]
    split <;> rfl
  split
  · rfl
  · rfl

theorem startBlock_renumber (numbers : List Nat) (s : SheetState) :
    (s.renumber numbers).startBlock = s.startBlock.renumber numbers := by
  obtain ⟨parts, _ | ⟨m, stack⟩⟩ := s
  · rfl
  cases m with
  | atRule header => exact SheetState.write_renumber ..
  | _ => rfl

theorem endBlock_renumber (numbers : List Nat) (s : SheetState) :
    (s.renumber numbers).endBlock = s.endBlock.renumber numbers := by
  obtain ⟨parts, _ | ⟨m, stack⟩⟩ := s
  · rfl
  cases m with
  | atRule header =>
    exact congrArg (fun s => (SheetState.pop s).push .elided)
      (SheetState.write_renumber ..)
  | _ => rfl

theorem startRuleset_renumber (numbers : List Nat) (s : SheetState)
    (selector : List Token) :
    (s.renumber numbers).startRuleset ctx selector =
      ⟨(s.startRuleset ctx selector).value.renumber numbers,
        (s.startRuleset ctx selector).trace⟩ := by
  unfold SheetState.startRuleset
  rw [SheetState.isEliding_renumber]
  split <;> rfl

theorem endRuleset_renumber (numbers : List Nat) (s : SheetState) :
    (s.renumber numbers).endRuleset ctx =
      ⟨(s.endRuleset ctx).value.renumber numbers, (s.endRuleset ctx).trace⟩ := by
  obtain ⟨parts, _ | ⟨m, stack⟩⟩ := s
  · rfl
  cases m with
  | ruleset selection declarations =>
    exact congrArg (Traced.mk · _)
      (SheetState.foldl_write_renumber numbers ⟨parts, stack⟩ (rulesetTexts _ _ _).value)
  | _ => rfl

theorem declare_renumber (numbers : List Nat) (s : SheetState) (name : Text)
    (value : List Token) :
    (s.renumber numbers).declare ctx name value =
      ⟨(s.declare ctx name value).value.renumber numbers,
        (s.declare ctx name value).trace⟩ := by
  obtain ⟨parts, _ | ⟨m, stack⟩⟩ := s
  · rfl
  cases m <;> rfl

/-- What an event does does not depend on the numbers of the imports so far. -/
theorem step_renumber (numbers : List Nat) (s : SheetState) (e : Event) :
    (s.renumber numbers).step ctx e =
      ⟨⟨(s.step ctx e).value.state.renumber numbers, (s.step ctx e).value.request⟩,
        (s.step ctx e).trace⟩ := by
  cases e with
  | startSheet => rfl
  | endSheet => rfl
  | startAtRule name header => exact startAtRule_renumber numbers s name header
  | endAtRule => rfl
  | startBlock => simp only [SheetState.step, startBlock_renumber]; rfl
  | endBlock => simp only [SheetState.step, endBlock_renumber]; rfl
  | startRuleset selector => simp only [SheetState.step, startRuleset_renumber]; rfl
  | endRuleset => simp only [SheetState.step, endRuleset_renumber]; rfl
  | declaration name value => simp only [SheetState.step, declare_renumber]; rfl

/-! ## Inlined sheets -/

/-- A text for some media, or for all of them. Of an empty text nothing is written. -/
def inMedia (media : Option Text) (t : Text) : Text :=
  match media with
  | some media => if t.isEmpty then [] else "@media " ++ media ++ '\x7b' :: t ++ ['\x7d']
  | none => t

/-- The text of an outline when each import that is answered is replaced
by the text of its sheet. -/
def Outline.spliced (o : Outline) (answer : Nat → Option Text)
    (sheet : Nat → ImportRequest → Text → Text) : Text :=
  partsText (fun k =>
    match o.requests[k]?, answer k with
    | some r, some css => inMedia r.media (sheet k r css)
    | _, _ => []) o.state.parts

/-- The sanitized text of a sheet with the given URL, below which sheets may be imported
to `levels` levels, when every import is replaced by the text of its sheet, if there is an
answer to it. The name of an import is its place: its number in the sheet, after the place
of the sheet. -/
def inlined (ctx : SheetContext) :
    (levels : Nat) → (base : Option Text) → (answers : List Nat → Option Text) →
    Text → Text
  | 0, base, answers, css =>
    (outline { ctx with base, importLevels := some 0 } css).spliced (fun k => answers [k])
      fun _ _ _ => []
  | levels + 1, base, answers, css =>
    (outline { ctx with base, importLevels := some (levels + 1) } css).spliced
      (fun k => answers [k]) fun k r => inlined ctx levels (some r.uri) fun place =>
        answers (k :: place)

end CssGuard
