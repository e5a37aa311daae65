import CssGuard.Proofs.Import.Steps

/-!
# Sheets follow their outlines

Sheets are requested while others are being read, and they are delivered in any order. At
any moment each sheet, read to its end or not, is as its outline says, for the text that
was delivered first to its request and for the numbers that its imports got.

- `firstText`, `sheetText`, `sheetContext`: the text of a sheet and what it depends on
- `Follows`: how far a sheet was read, in terms of its outline
- `Tracks`: what is known of all sheets at any moment
- `Tracks.step`, `tracks_of_reaches`: every step keeps it, so it holds in every run
-/

namespace CssGuard

/-! ## Sheets -/

/-- The text that was delivered first to a request. -/
def firstText (log : List Delivery) (number : Nat) : Option Text :=
  (log.find? fun d => d.1 = number).map Prod.snd

/-- The text of the main sheet, or the one that was delivered first to a request. -/
def sheetText (css : Text) (log : List Delivery) : Option Nat → Option Text
  | none => some css
  | some number => firstText log number

/-- What the main sheet depends on, or the sheet of a request. -/
def sheetContext (ctx : SheetContext) (levels : Nat) (rs : List Request) :
    Option Nat → Option SheetContext
  | none => some { ctx with importLevels := some levels }
  | some number => rs[number]?.map (Request.context ctx)

/-- What a request asks for. -/
def Request.asked (r : Request) : ImportRequest :=
  ⟨r.uri, r.media⟩

/-- A sheet was read up to some signal: its state is that of the outline so far, with the
numbers of its imports, and these ask for what the outline says. -/
structure Follows (rs : List Request) (owner : Option Nat) (context : SheetContext)
    (done : List Signal) (state : SheetState) : Prop where
  state_eq : state = (outlineOf context done).state.renumber (kids rs owner)
  asked_eq : (kids rs owner).map (fun n => rs[n]?.map Request.asked) =
    (outlineOf context done).requests.map some

variable {ctx context : SheetContext} {levels : Nat} {css : Text} {rs : List Request}
  {owner : Option Nat} {done : List Signal} {state : SheetState} {log : List Delivery}

theorem follows_start (h : kids rs owner = []) : Follows rs owner context [] .start where
  state_eq := rfl
  asked_eq := by rw [h]; rfl

theorem Follows.length_kids (h : Follows rs owner context done state) :
    (kids rs owner).length = (outlineOf context done).requests.length := by
  rw [← List.length_map (f := fun n => rs[n]?.map Request.asked), h.asked_eq,
    List.length_map]

theorem Follows.issue (h : Follows rs owner context done state) (cause : Issue) :
    Follows rs owner context (done ++ [.issue cause]) state where
  state_eq := by rw [outlineOf_concat]; exact h.state_eq
  asked_eq := by rw [outlineOf_concat]; exact h.asked_eq

theorem Follows.event (h : Follows rs owner context done state) {e : Event}
    (hrequest : (state.step context e).value.request = none) :
    Follows rs owner context (done ++ [.event e]) (state.step context e).value.state := by
  rw [h.state_eq, step_renumber] at hrequest ⊢
  constructor
  · rw [outlineOf_concat, Outline.next_of_no_request hrequest]
  · rw [outlineOf_concat, Outline.next_of_no_request hrequest]
    exact h.asked_eq

/-- The requests of a sheet are asked for in their order. -/
theorem asked_append (r : Request) :
    (kids rs owner).map (fun n => (rs ++ [r])[n]?.map Request.asked) =
      (kids rs owner).map fun n => rs[n]?.map Request.asked := by
  refine List.map_congr_left fun n hn => ?_
  obtain ⟨r', hr', -⟩ := mem_kids.mp hn
  rw [List.getElem?_append_left (List.getElem?_eq_some_iff.mp hr').1]

theorem Follows.request (h : Follows rs owner context done state) {e : Event}
    {q : ImportRequest} (hrequest : (state.step context e).value.request = some q)
    {r : Request} (hparent : r.parent = owner) (hasked : r.asked = q) :
    Follows (rs ++ [r]) owner context (done ++ [.event e])
      ((state.step context e).value.state.addSlot rs.length) := by
  rw [h.state_eq, step_renumber] at hrequest ⊢
  have hkids : kids (rs ++ [r]) owner = kids rs owner ++ [rs.length] := by
    rw [kids_append, if_pos hparent]
  constructor
  · rw [outlineOf_concat, Outline.next_of_request hrequest, hkids]
    refine SheetState.addSlot_renumber _ _ _ h.length_kids.symm fun k hk => ?_
    rw [h.length_kids]
    exact lt_of_mem_slots_outlineOf done k (slots_step_subset _ e hk)
  · rw [outlineOf_concat, Outline.next_of_request hrequest, hkids, List.map_append,
      asked_append, h.asked_eq, List.map_append]
    simp [hasked]

/-- A request of another sheet changes nothing for a sheet. -/
theorem Follows.append (h : Follows rs owner context done state) {r : Request}
    (hparent : r.parent ≠ owner) : Follows (rs ++ [r]) owner context done state := by
  have hkids : kids (rs ++ [r]) owner = kids rs owner := by
    rw [kids_append, if_neg hparent, List.append_nil]
  constructor
  · rw [hkids]
    exact h.state_eq
  · rw [hkids, asked_append]
    exact h.asked_eq

theorem Follows.delivering (h : Follows rs owner context done state) (number : Nat)
    (parts : List Part) :
    Follows (delivering number parts rs) owner context done state := by
  have hasked : ∀ n : Nat, (CssGuard.delivering number parts rs)[n]?.map Request.asked =
      rs[n]?.map Request.asked := by
    intro n
    rw [getElem?_delivering, Option.map_map]
    refine congrArg (fun f => rs[n]?.map f) (funext fun r => ?_)
    rw [Function.comp_apply]
    split <;> rfl
  constructor
  · rw [kids_delivering]
    exact h.state_eq
  · rw [kids_delivering]
    simp only [hasked]
    exact h.asked_eq

/-- A sheet was read to its end, and this is what it wrote. -/
def HasOutput (rs : List Request) (owner : Option Nat) (context : SheetContext)
    (css : Text) (parts : List Part) : Prop :=
  ∃ state, Follows rs owner context (sheetSignals (lex css).value) state ∧
    state.parts = parts

/-! ## All sheets at any moment -/

/-- A sheet that is being read follows its outline, and its text is known and not
yet delivered to its end. -/
structure OpenSheet.Tracks (ctx : SheetContext) (levels : Nat) (css : Text)
    (rs : List Request) (log : List Delivery) (sheet : OpenSheet) : Prop where
  context : sheetContext ctx levels rs sheet.owner = some sheet.context
  undelivered : ∀ n, sheet.owner = some n → ∀ r : Request, rs[n]? = some r →
    r.delivered = none
  progress : ∃ text done, sheetText css log sheet.owner = some text ∧
    sheetSignals (lex text).value = done ++ sheet.rest ∧
    Follows rs sheet.owner sheet.context done sheet.state

/-- What is known of all requests. -/
structure Orderly (ctx : SheetContext) (levels : Nat) (rs : List Request) : Prop where
  /-- A sheet is asked for before those it imports. -/
  later : ∀ (n : Nat) (r : Request), rs[n]? = some r → ∀ p, r.parent = some p → p < n
  media : ∀ (n : Nat) (r : Request), rs[n]? = some r → r.media ≠ some []
  levels : ∀ (n : Nat) (r : Request), rs[n]? = some r →
    ∃ c, sheetContext ctx levels rs r.parent = some c ∧
    c.importLevels = some (r.levels + 1)

/-- What is known of all sheets after the deliveries in `log`. -/
structure Tracks (ctx : SheetContext) (levels : Nat) (css : Text) (a : Assembling)
    (log : List Delivery) : Prop where
  orderly : Orderly ctx levels a.session.records
  known : ∀ d ∈ log, d.1 < a.session.records.length
  nodup : a.owners.Nodup
  reading : ∀ sheet ∈ a.sheets, sheet.Tracks ctx levels css a.session.records log
  finished : ∀ n r parts, a.session.records[n]? = some r → r.delivered = some parts →
    ∃ text, firstText log n = some text ∧
      HasOutput a.session.records (some n) (r.context ctx) text parts
  untouched : ∀ n r, a.session.records[n]? = some r → r.delivered = none →
    some n ∉ a.owners → firstText log n = none ∧ kids a.session.records (some n) = []
  main : none ∉ a.owners →
    HasOutput a.session.records none { ctx with importLevels := some levels } css a.parts

theorem tracks_initial (ctx : SheetContext) (levels : Nat) (css : Text) :
    Tracks ctx levels css (.initial ctx levels css) [] where
  orderly :=
    { later := fun _ _ h => by cases h
      media := fun _ _ h => by cases h
      levels := fun _ _ h => by cases h }
  known _ h := by cases h
  nodup := List.pairwise_singleton ..
  reading := by
    refine List.forall_mem_singleton.mpr
      { context := rfl
        undelivered := fun _ h => by cases h
        progress := ⟨css, [], rfl, rfl, follows_start rfl⟩ }
  finished _ _ _ h := by cases h
  untouched _ _ h := by cases h
  main h := absurd (List.mem_singleton_self _) h

variable {asm : Assembly} {sheet : OpenSheet} {others : List OpenSheet}

/-- The innermost sheet was read further. -/
theorem Tracks.advance (h : Tracks ctx levels css ⟨asm, sheet :: others⟩ log)
    {state : SheetState} {rest : List Signal}
    (hprogress : ∀ text done, sheetSignals (lex text).value = done ++ sheet.rest →
      Follows asm.session.records sheet.owner sheet.context done sheet.state →
      ∃ done', sheetSignals (lex text).value = done' ++ rest ∧
        Follows asm.session.records sheet.owner sheet.context done' state) :
    Tracks ctx levels css ⟨asm, ⟨sheet.owner, sheet.context, state,
      rest⟩ :: others⟩ log where
  orderly := h.orderly
  known := h.known
  nodup := h.nodup
  reading := by
    obtain ⟨hhead, hothers⟩ := List.forall_mem_cons.mp h.reading
    obtain ⟨text, done, htext, hsignals, hfollows⟩ := hhead.progress
    obtain ⟨done', hsignals', hfollows'⟩ := hprogress text done hsignals hfollows
    exact List.forall_mem_cons.mpr
      ⟨⟨hhead.context, hhead.undelivered, text, done', htext, hsignals', hfollows'⟩,
        hothers⟩
  finished := h.finished
  untouched := h.untouched
  main := h.main

/-! ### A request -/

/-- A record is an old one or the new one. -/
theorem getElem?_concat_cases {new r : Request} {n : Nat}
    (h : (rs ++ [new])[n]? = some r) : rs[n]? = some r ∨ n = rs.length ∧ r = new := by
  rw [List.getElem?_append] at h
  split at h
  · exact .inl h
  · rename_i hn
    obtain ⟨hlt, hr⟩ := List.getElem?_eq_some_iff.mp h
    rw [List.length_singleton] at hlt
    rw [List.getElem_singleton] at hr
    exact .inr ⟨by omega, hr.symm⟩

theorem sheetContext_append {c : SheetContext}
    (h : sheetContext ctx levels rs owner = some c) (new : Request) :
    sheetContext ctx levels (rs ++ [new]) owner = some c := by
  cases owner with
  | none => exact h
  | some n =>
    obtain ⟨r, hr, -⟩ := Option.map_eq_some_iff.mp h
    rw [sheetContext, List.getElem?_append_left (List.getElem?_eq_some_iff.mp hr).1]
    exact h

/-- A sheet whose context is known answers an older request. -/
theorem lt_of_sheetContext {c : SheetContext} {n : Nat}
    (h : sheetContext ctx levels rs (some n) = some c) : n < rs.length := by
  obtain ⟨r, hr, -⟩ := Option.map_eq_some_iff.mp h
  exact (List.getElem?_eq_some_iff.mp hr).1

theorem kids_length (h : Orderly ctx levels rs) : kids rs (some rs.length) = [] := by
  refine List.eq_nil_iff_forall_not_mem.mpr fun n hn => ?_
  obtain ⟨r, hr, hparent⟩ := mem_kids.mp hn
  exact Nat.lt_asymm (h.later n r hr _ hparent) (List.getElem?_eq_some_iff.mp hr).1

theorem Orderly.append (h : Orderly ctx levels rs) {new : Request} {c : SheetContext}
    (hcontext : sheetContext ctx levels rs new.parent = some c)
    (hlevels : c.importLevels = some (new.levels + 1)) (hmedia : new.media ≠ some []) :
    Orderly ctx levels (rs ++ [new]) where
  later n r hr p hp := by
    rcases getElem?_concat_cases hr with hr | ⟨rfl, rfl⟩
    · exact h.later n r hr p hp
    · rw [hp] at hcontext
      exact lt_of_sheetContext hcontext
  media n r hr := by
    rcases getElem?_concat_cases hr with hr | ⟨-, rfl⟩
    · exact h.media n r hr
    · exact hmedia
  levels n r hr := by
    rcases getElem?_concat_cases hr with hr | ⟨-, rfl⟩
    · obtain ⟨c, hc, hl⟩ := h.levels n r hr
      exact ⟨c, sheetContext_append hc _, hl⟩
    · exact ⟨c, sheetContext_append hcontext _, hlevels⟩

/-- A request of another sheet changes nothing for a sheet that is being read. -/
theorem OpenSheet.Tracks.append (h : sheet.Tracks ctx levels css rs log) {new : Request}
    (hparent : new.parent ≠ sheet.owner) (hnew : new.delivered = none) :
    sheet.Tracks ctx levels css (rs ++ [new]) log where
  context := sheetContext_append h.context new
  undelivered n hn r hr := by
    rcases getElem?_concat_cases hr with hr | ⟨-, rfl⟩
    · exact h.undelivered n hn r hr
    · exact hnew
  progress := by
    obtain ⟨text, done, htext, hsignals, hfollows⟩ := h.progress
    exact ⟨text, done, htext, hsignals, hfollows.append hparent⟩

theorem HasOutput.append {parts : List Part} (h : HasOutput rs owner context css parts)
    {new : Request} (hparent : new.parent ≠ owner) :
    HasOutput (rs ++ [new]) owner context css parts := by
  obtain ⟨state, hfollows, hparts⟩ := h
  exact ⟨state, hfollows.append hparent, hparts⟩

theorem firstText_eq_none {n : Nat} (h : ∀ d ∈ log, d.1 < n) :
    firstText log n = none := by
  rw [firstText, Option.map_eq_none_iff, List.find?_eq_none]
  intro d hd
  have := h d hd
  simp only [decide_eq_true_eq]
  omega

theorem Tracks.request {parts : List Part} {session : Session} {e : Event}
    {rest : List Signal} {q : ImportRequest}
    (h : Tracks ctx levels css ⟨⟨parts, session⟩,
      ⟨owner, context, state, .event e :: rest⟩ :: others⟩ log)
    (hrequest : (state.step context e).value.request = some q) :
    Tracks ctx levels css ⟨⟨parts, session.register owner context.levelsBelow q⟩,
      ⟨owner, context, (state.step context e).value.state.addSlot session.requests.length,
        rest⟩ :: others⟩ log := by
  obtain ⟨hhead, hothers⟩ := List.forall_mem_cons.mp h.reading
  obtain ⟨howner, -⟩ := List.nodup_cons.mp h.nodup
  obtain ⟨-, -, -, ⟨below, hbelow⟩, hmedia, -⟩ := request_of_step hrequest
  have hrecords := Session.records_register session owner context.levelsBelow q
  have hlength := Session.length_records session
  -- of the new record only these four facts are used below
  generalize hnew : Request.mk q.uri q.media owner context.levelsBelow none 0 =
    new at hrecords
  have hparent : new.parent = owner := by rw [← hnew]
  have hundelivered : new.delivered = none := by rw [← hnew]
  have hasked : new.asked = q := by rw [← hnew]; rfl
  have hlevels : context.importLevels = some (new.levels + 1) := by
    rw [← hnew, hbelow, SheetContext.levelsBelow_eq hbelow]
  constructor
  case orderly =>
    rw [hrecords]
    exact h.orderly.append (hparent ▸ hhead.context) hlevels
      (by rw [← hnew]; exact hmedia)
  case known =>
    intro d hd
    rw [hrecords, List.length_append]
    exact Nat.lt_add_right _ (h.known d hd)
  case nodup => exact h.nodup
  case reading =>
    refine List.forall_mem_cons.mpr ⟨⟨?_, ?_, ?_⟩, fun sheet hsheet => ?_⟩
    · rw [hrecords]
      exact sheetContext_append hhead.context new
    · rw [hrecords]
      intro n hn r hr
      rcases getElem?_concat_cases hr with hr | ⟨-, rfl⟩
      · exact hhead.undelivered n hn r hr
      · exact hundelivered
    · obtain ⟨text, done, htext, hsignals, hfollows⟩ := hhead.progress
      refine ⟨text, done ++ [.event e], htext, by simpa using hsignals, ?_⟩
      rw [hrecords, ← hlength]
      exact hfollows.request hrequest hparent hasked
    · rw [hrecords]
      refine (hothers sheet hsheet).append ?_ hundelivered
      rw [hparent]
      exact fun heq => howner (List.mem_map.mpr ⟨sheet, hsheet, heq.symm⟩)
  case finished =>
    intro n r parts' hr hd
    rw [hrecords] at hr ⊢
    rcases getElem?_concat_cases hr with hr | ⟨-, rfl⟩
    · obtain ⟨text, htext, houtput⟩ := h.finished n r parts' hr hd
      refine ⟨text, htext, houtput.append ?_⟩
      -- the sheet that asks is still being read, so it is none of the finished ones
      intro heq
      rw [hhead.undelivered n (hparent ▸ heq) r hr] at hd
      cases hd
    · rw [hundelivered] at hd
      cases hd
  case untouched =>
    intro n r hr hd hfree
    -- only a sheet that is being read gets a new import
    have hne : new.parent ≠ some n := fun heq =>
      hfree (hparent ▸ heq ▸ List.mem_cons_self)
    rw [hrecords] at hr ⊢
    rw [kids_append, if_neg hne, List.append_nil]
    rcases getElem?_concat_cases hr with hr | ⟨rfl, -⟩
    · exact h.untouched n r hr hd hfree
    · exact ⟨firstText_eq_none h.known, kids_length h.orderly⟩
  case main =>
    intro hfree
    rw [hrecords]
    exact (h.main hfree).append fun heq => hfree (hparent ▸ heq ▸ List.mem_cons_self)

/-! ### The end of a sheet -/

theorem OpenSheet.Tracks.hasOutput (h : sheet.Tracks ctx levels css rs log)
    (hrest : sheet.rest = []) :
    ∃ text, sheetText css log sheet.owner = some text ∧
      HasOutput rs sheet.owner sheet.context text sheet.state.parts := by
  obtain ⟨text, done, htext, hsignals, hfollows⟩ := h.progress
  rw [hrest, List.append_nil] at hsignals
  exact ⟨text, htext, sheet.state, hsignals ▸ hfollows, rfl⟩

theorem sheetContext_delivering (number : Nat) (parts : List Part) :
    sheetContext ctx levels (delivering number parts rs) owner =
      sheetContext ctx levels rs owner := by
  cases owner with
  | none => rfl
  | some n =>
    rw [sheetContext, getElem?_delivering, Option.map_map, sheetContext]
    refine congrArg (fun f => rs[n]?.map f) (funext fun r => ?_)
    rw [Function.comp_apply]
    split <;> rfl

/-- After a delivery a record has the same parent, media and levels. -/
theorem exists_of_delivering {number n : Nat} {parts : List Part} {r : Request}
    (h : (delivering number parts rs)[n]? = some r) :
    ∃ r', rs[n]? = some r' ∧ r'.parent = r.parent ∧ r'.media = r.media ∧
    r'.levels = r.levels := by
  rw [getElem?_delivering] at h
  obtain ⟨r', hr', rfl⟩ := Option.map_eq_some_iff.mp h
  refine ⟨r', hr', ?_⟩
  split <;> exact ⟨rfl, rfl, rfl⟩

/-- A delivery changes only the request that it is for. -/
theorem cases_of_delivering {number n : Nat} {parts : List Part} {r : Request}
    (h : (delivering number parts rs)[n]? = some r) :
    n ≠ number ∧ rs[n]? = some r ∨
      n = number ∧ ∃ r', rs[n]? = some r' ∧ r = { r' with delivered := some parts } := by
  rw [getElem?_delivering] at h
  obtain ⟨r', hr', rfl⟩ := Option.map_eq_some_iff.mp h
  by_cases hn : number = n
  · rw [if_pos hn]
    exact .inr ⟨hn.symm, r', hr', rfl⟩
  · rw [if_neg hn]
    exact .inl ⟨fun heq => hn heq.symm, hr'⟩

theorem Orderly.delivering (h : Orderly ctx levels rs) (number : Nat)
    (parts : List Part) : Orderly ctx levels (delivering number parts rs) where
  later n r hr p hp := by
    obtain ⟨r', hr', hparent, -⟩ := exists_of_delivering hr
    exact h.later n r' hr' p (hparent ▸ hp)
  media n r hr := by
    obtain ⟨r', hr', -, hmedia, -⟩ := exists_of_delivering hr
    exact hmedia ▸ h.media n r' hr'
  levels n r hr := by
    obtain ⟨r', hr', hparent, -, hlevels⟩ := exists_of_delivering hr
    rw [sheetContext_delivering, ← hparent, ← hlevels]
    exact h.levels n r' hr'

theorem HasOutput.delivering {parts : List Part}
    (h : HasOutput rs owner context css parts) (number : Nat) (parts' : List Part) :
    HasOutput (delivering number parts' rs) owner context css parts := by
  obtain ⟨state, hfollows, hparts⟩ := h
  exact ⟨state, hfollows.delivering number parts', hparts⟩

theorem Tracks.mainEnd {parts : List Part} {session : Session}
    (h : Tracks ctx levels css ⟨⟨parts, session⟩,
      ⟨none, context, state, []⟩ :: others⟩ log) :
    Tracks ctx levels css ⟨⟨state.parts, session⟩, others⟩ log := by
  obtain ⟨hhead, hothers⟩ := List.forall_mem_cons.mp h.reading
  constructor
  case orderly => exact h.orderly
  case known => exact h.known
  case nodup => exact (List.nodup_cons.mp h.nodup).2
  case reading => exact hothers
  case finished => exact h.finished
  case untouched =>
    intro n r hr hd hfree
    refine h.untouched n r hr hd fun hmem => ?_
    rcases List.mem_cons.mp hmem with heq | hmem
    · cases heq
    · exact hfree hmem
  case main =>
    intro _
    obtain ⟨text, htext, houtput⟩ := hhead.hasOutput rfl
    cases htext
    cases hhead.context
    exact houtput

theorem Tracks.close {parts : List Part} {session : Session} {number : Nat}
    (h : Tracks ctx levels css ⟨⟨parts, session⟩, ⟨some number, context, state,
      []⟩ :: others⟩ log) :
    Tracks ctx levels css ⟨⟨parts, (session.close number state.parts).value⟩,
      others⟩ log := by
  obtain ⟨hhead, hothers⟩ := List.forall_mem_cons.mp h.reading
  obtain ⟨hnumber, hnodup⟩ := List.nodup_cons.mp h.nodup
  have hrecords := Session.records_close session number state.parts
  -- the sheet that ends is the only one that is no longer being read
  have hskip : ∀ owner : Option Nat, owner ≠ some number →
      owner ∉ Assembling.owners ⟨⟨parts, session⟩, others⟩ →
      owner ∉ Assembling.owners ⟨⟨parts, session⟩, ⟨some number, context, state,
        []⟩ :: others⟩ :=
    fun owner hne hfree hmem => (List.mem_cons.mp hmem).elim hne hfree
  constructor
  case orderly =>
    rw [hrecords]
    exact h.orderly.delivering number state.parts
  case known =>
    rw [hrecords, CssGuard.delivering, List.length_modify]
    exact h.known
  case nodup => exact hnodup
  case reading =>
    intro sheet hsheet
    have htracks := hothers sheet hsheet
    rw [hrecords]
    refine ⟨(sheetContext_delivering ..).trans htracks.context, fun n hn r hr => ?_, ?_⟩
    · rcases cases_of_delivering hr with ⟨-, hr⟩ | ⟨rfl, -⟩
      · exact htracks.undelivered n hn r hr
      · exact absurd (List.mem_map.mpr ⟨sheet, hsheet, hn⟩) hnumber
    · obtain ⟨text, done, htext, hsignals, hfollows⟩ := htracks.progress
      exact ⟨text, done, htext, hsignals, hfollows.delivering ..⟩
  case finished =>
    intro n r parts' hr hd
    rw [hrecords] at hr ⊢
    rcases cases_of_delivering hr with ⟨-, hr⟩ | ⟨rfl, r', hr', rfl⟩
    · obtain ⟨text, htext, houtput⟩ := h.finished n r parts' hr hd
      exact ⟨text, htext, houtput.delivering ..⟩
    · obtain ⟨text, htext, houtput⟩ := hhead.hasOutput rfl
      cases hd
      have hcontext := hhead.context
      rw [sheetContext, hr', Option.map_some, Option.some.injEq] at hcontext
      exact ⟨text, htext, (hcontext ▸ houtput).delivering ..⟩
  case untouched =>
    intro n r hr hd hfree
    rw [hrecords] at hr ⊢
    rw [kids_delivering]
    rcases cases_of_delivering hr with ⟨hne, hr⟩ | ⟨rfl, r', -, rfl⟩
    · exact h.untouched n r hr hd (hskip _ (fun heq => hne (Option.some.inj heq)) hfree)
    · cases hd
  case main =>
    intro hfree
    rw [hrecords]
    exact (h.main (hskip _ (fun heq => by cases heq) hfree)).delivering ..

/-! ### Deliveries -/

variable {text : Text}

theorem firstText_append {n : Nat} (h : firstText log n = some text)
    (log' : List Delivery) : firstText (log ++ log') n = some text := by
  obtain ⟨d, hd, rfl⟩ := Option.map_eq_some_iff.mp h
  rw [firstText, List.find?_append, hd]
  rfl

theorem sheetText_append (h : sheetText css log owner = some text)
    (log' : List Delivery) : sheetText css (log ++ log') owner = some text := by
  cases owner with
  | none => exact h
  | some n => exact firstText_append h log'

theorem firstText_concat {n number : Nat} (h : firstText log n = none) (css : Text) :
    firstText (log ++ [(number, css)]) n = if number = n then some css else none := by
  rw [firstText, List.find?_append, Option.map_eq_none_iff.mp h]
  by_cases hn : number = n <;> simp [hn]

theorem OpenSheet.Tracks.mono (h : sheet.Tracks ctx levels css rs log)
    (log' : List Delivery) : sheet.Tracks ctx levels css rs (log ++ log') where
  context := h.context
  undelivered := h.undelivered
  progress := by
    obtain ⟨text, done, htext, hsignals, hfollows⟩ := h.progress
    exact ⟨text, done, sheetText_append htext log', hsignals, hfollows⟩

variable {a : Assembling} {number : Nat} {r : Request}

theorem Tracks.known_concat (h : Tracks ctx levels css a log)
    (hr : a.session.requests[number]? = some r) :
    ∀ d ∈ log ++ [(number, text)], d.1 < a.session.records.length :=
  List.forall_mem_append.mpr ⟨h.known, List.forall_mem_singleton.mpr
    (List.getElem?_eq_some_iff.mp (Session.getElem?_records hr)).1⟩

/-- Later deliveries do not change which text came first. -/
theorem Tracks.finished_append (h : Tracks ctx levels css a log)
    (log' : List Delivery) {n : Nat} {r : Request} {parts : List Part}
    (hr : a.session.records[n]? = some r) (hd : r.delivered = some parts) :
    ∃ text, firstText (log ++ log') n = some text ∧
      HasOutput a.session.records (some n) (r.context ctx) text parts := by
  obtain ⟨text, htext, houtput⟩ := h.finished n r parts hr hd
  exact ⟨text, firstText_append htext log', houtput⟩

theorem Tracks.deliver (h : Tracks ctx levels css a log)
    (hr : a.session.requests[number]? = some r) (hpending : r.isPending)
    (hfree : some number ∉ a.owners) : Tracks ctx levels css { a with sheets :=
      ⟨some number, r.context ctx, .start, sheetSignals (lex text).value⟩ :: a.sheets }
      (log ++ [(number, text)]) := by
  have hrecord := Session.getElem?_records hr
  have hnone : r.delivered = none := Option.isNone_iff_eq_none.mp hpending
  -- no text was delivered before, so this one is the first
  obtain ⟨hfirst, hkids⟩ := h.untouched number _ hrecord hnone hfree
  constructor
  case orderly => exact h.orderly
  case known => exact h.known_concat hr
  case nodup => exact List.nodup_cons.mpr ⟨hfree, h.nodup⟩
  case reading =>
    refine List.forall_mem_cons.mpr ⟨⟨?_, ?_, ?_⟩,
      fun sheet hsheet => (h.reading sheet hsheet).mono _⟩
    · rw [sheetContext, hrecord]
      rfl
    · intro n hn r' hr'
      cases hn
      rw [hrecord] at hr'
      cases hr'
      exact hnone
    · refine ⟨text, [], ?_, rfl, follows_start hkids⟩
      rw [sheetText, firstText_concat hfirst, if_pos rfl]
  case finished => exact fun n r' parts hr' hd => h.finished_append _ hr' hd
  case untouched =>
    intro n r' hr' hd hfree'
    have hne : number ≠ n := fun heq => hfree' (heq ▸ List.mem_cons_self)
    obtain ⟨hfirst', hkids'⟩ :=
      h.untouched n r' hr' hd fun hmem => hfree' (List.mem_cons_of_mem _ hmem)
    exact ⟨by rw [firstText_concat hfirst', if_neg hne], hkids'⟩
  case main => exact fun hfree' => h.main fun hmem => hfree' (List.mem_cons_of_mem _ hmem)

theorem Tracks.again (h : Tracks ctx levels css a log)
    (hr : a.session.requests[number]? = some r)
    (hbusy : r.isPending → some number ∈ a.owners) :
    Tracks ctx levels css a (log ++ [(number, text)]) := by
  have hrecord := Session.getElem?_records hr
  constructor
  case orderly => exact h.orderly
  case known => exact h.known_concat hr
  case nodup => exact h.nodup
  case reading => exact fun sheet hsheet => (h.reading sheet hsheet).mono _
  case finished => exact fun n r' parts hr' hd => h.finished_append _ hr' hd
  case untouched =>
    intro n r' hr' hd hfree
    obtain ⟨hfirst, hkids⟩ := h.untouched n r' hr' hd hfree
    have hne : number ≠ n := by
      rintro rfl
      rw [hrecord] at hr'
      cases hr'
      exact hfree (hbusy (Option.isNone_iff_eq_none.mpr hd))
    exact ⟨by rw [firstText_concat hfirst, if_neg hne], hkids⟩
  case main => exact h.main

/-! ### Runs -/

/-- Every step keeps what is known of the sheets. -/
theorem Tracks.step {a b : Assembling} {log' : List Delivery} {trace : Trace}
    (h : Tracks ctx levels css a log) (hstep : Step ctx a log' trace b) :
    Tracks ctx levels css b (log ++ log') := by
  cases hstep with
  | issue =>
    rw [List.append_nil]
    exact h.advance fun text done hsignals hfollows =>
      ⟨done ++ [_], by simpa using hsignals, hfollows.issue _⟩
  | event hrequest =>
    rw [List.append_nil]
    exact h.advance fun text done hsignals hfollows =>
      ⟨done ++ [_], by simpa using hsignals, hfollows.event hrequest⟩
  | request hrequest =>
    rw [List.append_nil]
    exact h.request hrequest
  | mainEnd =>
    rw [List.append_nil]
    exact h.mainEnd
  | close =>
    rw [List.append_nil]
    exact h.close
  | deliver hr hpending hfree => exact h.deliver hr hpending hfree
  | again hr hbusy => exact h.again hr hbusy

theorem Tracks.reaches {a b : Assembling} {log' : List Delivery} {trace : Trace}
    (h : Tracks ctx levels css a log) (hreaches : Reaches ctx a log' trace b) :
    Tracks ctx levels css b (log ++ log') := by
  induction hreaches with
  | refl => rwa [List.append_nil]
  | step _ hstep ih => exact List.append_assoc .. ▸ ih.step hstep

/-- In every run the sheets are as their outlines say. -/
theorem tracks_of_reaches {a : Assembling} {trace : Trace}
    (h : Reaches ctx (.initial ctx levels css) log trace a) :
    Tracks ctx levels css a log :=
  (tracks_initial ctx levels css).reaches h

end CssGuard
