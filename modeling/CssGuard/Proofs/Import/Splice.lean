import CssGuard.Proofs.Import.Tracks

/-!
# Imports are spliced in place

Between the calls the text of an assembly is that of its main sheet with every import
replaced by the sheet that was delivered for it first, and the imports of that sheet by
theirs. So the order of the deliveries does not matter.

- `answersOf`, `Assembling.answers`: the texts first delivered,
  by the places of the imports
- `Tracks.slotText_eq`: the text in place of an import
- `text_eq_inlined`: the text between the calls
-/

namespace CssGuard

variable {ctx context : SheetContext} {levels : Nat} {css : Text} {rs : List Request}
  {owner : Option Nat} {done : List Signal} {state : SheetState} {log : List Delivery}
  {asm : Assembly} {a : Assembling}

/-! ## The text between the calls -/

/-- The request at a place below a sheet: its number in the sheet,
then its place below its own. -/
def requestAt (rs : List Request) : Option Nat → List Nat → Option Nat
  | owner, [] => owner
  | owner, k :: place => (kids rs owner)[k]?.bind fun n => requestAt rs (some n) place

/-- The texts that were delivered first to the requests below a sheet, by their places. -/
def answersOf (rs : List Request) (log : List Delivery) (owner : Option Nat)
    (place : List Nat) : Option Text :=
  (requestAt rs owner place).bind (firstText log)

/-- The texts that were delivered first for the imports of an
assembly, by their places. -/
def Assembling.answers (a : Assembling) (log : List Delivery) : List Nat → Option Text :=
  answersOf a.session.records log none

theorem partsText_renumber (f : Nat → Text) (numbers : List Nat) (parts : List Part) :
    partsText f (parts.map (Part.renumber numbers)) =
      partsText (fun k => f (numbers.getD k 0)) parts := by
  rw [partsText, List.flatMap_map]
  refine List.flatMap_congr fun part _ => ?_
  cases part <;> rfl

theorem Request.text_eq_inMedia {r : Request} {parts : List Part}
    (hd : r.delivered = some parts) (hmedia : r.media ≠ some []) (f : Nat → Text) :
    r.text f = inMedia r.media (partsText f parts) := by
  rw [Request.text, hd]
  dsimp only
  unfold inMedia
  cases hm : r.media with
  | none => rfl
  | some media =>
    rw [hm] at hmedia
    have hne : media.isEmpty = false := by
      cases media with
      | nil => exact absurd rfl hmedia
      | cons c media => rfl
    dsimp only
    rw [hne, Bool.or_false]
    split
    · rename_i hempty
      exact List.isEmpty_iff.mp hempty
    · rfl

/-- The places of imports in what a sheet wrote are those of its own imports. -/
theorem HasOutput.slots_subset {parts : List Part}
    (h : HasOutput rs owner context css parts) : slots parts ⊆ kids rs owner := by
  obtain ⟨state, hfollows, rfl⟩ := h
  intro n hn
  rw [hfollows.state_eq, mem_slots] at hn
  obtain ⟨part, hpart, heq⟩ := List.mem_map.mp hn
  cases part with
  | text t => cases heq
  | slot k =>
    have hk := lt_of_mem_slots_outlineOf _ k (mem_slots.mpr hpart)
    rw [← hfollows.length_kids] at hk
    rw [Part.renumber, List.getD_eq_getElem?_getD, List.getElem?_eq_getElem hk] at heq
    cases heq
    exact List.getElem_mem hk

/-- The places of imports in what was delivered to a request are those of
the imports of its sheet. -/
theorem Tracks.mem_kids_of_mem_slots {a : Assembling} (h : Tracks ctx levels css a log)
    {n k : Nat} {r : Request} (hr : a.session.records[n]? = some r) (hk : k ∈ r.slots) :
    k ∈ kids a.session.records (some n) := by
  rw [Request.slots] at hk
  cases hd : r.delivered with
  | none =>
    rw [hd] at hk
    cases hk
  | some parts =>
    rw [hd] at hk
    obtain ⟨text, -, houtput⟩ := h.finished n r parts hr hd
    exact houtput.slots_subset hk

/-- The text in place of an import, from those in place of its own imports. -/
theorem Tracks.slotText_eq {a : Assembling} (h : Tracks ctx levels css a log) {n : Nat}
    {r : Request} (hr : a.session.records[n]? = some r) :
    a.session.slotText n = r.text a.session.slotText := by
  refine Session.slotText_eq hr fun k hk => ?_
  obtain ⟨r', hr', hparent⟩ := mem_kids.mp (h.mem_kids_of_mem_slots hr hk)
  exact h.orderly.later k r' hr' n hparent

theorem eq_of_sheetContext {c : SheetContext} {left : Nat}
    (h : sheetContext ctx levels rs owner = some c) (hleft : c.importLevels = some left) :
    c = { ctx with base := c.base, importLevels := some left } := by
  rw [← hleft]
  cases owner with
  | none =>
    cases h
    rfl
  | some n =>
    obtain ⟨r, -, rfl⟩ := Option.map_eq_some_iff.mp h
    rfl

/-- An import has one level less below it than its sheet. -/
theorem Orderly.left_eq (h : Orderly ctx levels rs) {c : SheetContext} {left : Nat}
    (hcontext : sheetContext ctx levels rs owner = some c)
    (hleft : c.importLevels = some left) {n : Nat} {r : Request} (hr : rs[n]? = some r)
    (hparent : r.parent = owner) : left = r.levels + 1 := by
  obtain ⟨c', hc', hl⟩ := h.levels n r hr
  rw [hparent, hcontext] at hc'
  cases hc'
  exact Option.some.inj (hleft.symm.trans hl)

/-- An import of a sheet that was read: its number in the session, its
record and what was asked. -/
theorem Follows.exists_kid (h : Follows rs owner context done state) {k : Nat}
    (hk : k < (outlineOf context done).requests.length) :
    ∃ n r, (kids rs owner)[k]? = some n ∧ rs[n]? = some r ∧ r.parent = owner ∧
      (outlineOf context done).requests[k]? = some r.asked := by
  have hk' : k < (kids rs owner).length := h.length_kids ▸ hk
  have hasked := congrArg (fun l : List (Option ImportRequest) => l[k]?) h.asked_eq
  rw [List.getElem?_map, List.getElem?_map, List.getElem?_eq_getElem hk'] at hasked
  obtain ⟨r, hr, hparent⟩ := mem_kids.mp (List.getElem_mem hk')
  refine ⟨_, r, List.getElem?_eq_getElem hk', hr, hparent, ?_⟩
  rw [Option.map_some, hr, Option.map_some, List.getElem?_eq_getElem hk, Option.map_some,
    Option.some.injEq] at hasked
  rw [List.getElem?_eq_getElem hk, hasked]

/-- The output of a sheet, when the texts in place of its imports are known. -/
theorem HasOutput.partsText_eq {parts : List Part}
    (h : HasOutput rs owner context css parts) {f : Nat → Text}
    {answer : Nat → Option Text} {sheet : Nat → ImportRequest → Text → Text}
    (hslot : ∀ k n r, (kids rs owner)[k]? = some n → rs[n]? = some r → r.parent = owner →
      f n = match answer k with
        | some css => inMedia r.media (sheet k r.asked css)
        | none => []) :
    partsText f parts = (outline context css).spliced answer sheet := by
  obtain ⟨state, hfollows, rfl⟩ := h
  rw [hfollows.state_eq, SheetState.renumber, partsText_renumber, Outline.spliced]
  refine partsText_congr fun k hk => ?_
  obtain ⟨n, r, hn, hr, hparent, hasked⟩ :=
    hfollows.exists_kid (lt_of_mem_slots_outlineOf _ k hk)
  rw [List.getD_eq_getElem?_getD, hn, Option.getD_some, hslot k n r hn hr hparent,
    outline, hasked]
  cases answer k <;> rfl

/-- The output of a sheet has its imports inlined, when no sheet is being read. The
induction is on the levels that are left below the sheet. -/
theorem Tracks.partsText_eq (h : Tracks ctx levels css ⟨asm, []⟩ log) {left : Nat}
    {owner : Option Nat} {c : SheetContext} {text : Text} {parts : List Part}
    (hcontext : sheetContext ctx levels asm.session.records owner = some c)
    (hleft : c.importLevels = some left)
    (houtput : HasOutput asm.session.records owner c text parts) :
    partsText asm.session.slotText parts =
      inlined ctx left c.base (answersOf asm.session.records log owner) text := by
  induction left generalizing owner c text parts with
  | zero =>
    rw [inlined, ← eq_of_sheetContext hcontext hleft]
    -- no level is left, so the sheet has no imports of its own
    exact houtput.partsText_eq fun k n r _ hr hparent =>
      absurd (h.orderly.left_eq hcontext hleft hr hparent) (by simp)
  | succ left ih =>
    rw [inlined, ← eq_of_sheetContext hcontext hleft]
    refine houtput.partsText_eq fun k n r hn hr hparent => ?_
    -- the places below an import are the places of the imported sheet
    have hplace : ∀ place, answersOf asm.session.records log owner (k :: place) =
        answersOf asm.session.records log (some n) place := by
      intro place
      rw [answersOf, requestAt, hn]
      rfl
    have hanswer : answersOf asm.session.records log owner [k] = firstText log n :=
      hplace []
    rw [h.slotText_eq hr, hanswer]
    cases hd : r.delivered with
    | none => rw [(h.untouched n r hr hd List.not_mem_nil).1, Request.text, hd]
    | some parts' =>
      obtain ⟨text', htext', houtput'⟩ := h.finished n r parts' hr hd
      have hlevel := h.orderly.left_eq hcontext hleft hr hparent
      rw [htext', Request.text_eq_inMedia hd (h.orderly.media n r hr)]
      simp only [hplace]
      refine congrArg (inMedia r.media) (ih ?_ ?_ houtput')
      · rw [sheetContext, hr, Option.map_some]
      · exact congrArg some (Nat.succ.inj hlevel).symm

/-- Between the calls the text of an assembly is that of its main sheet with each import
replaced by the sheet first delivered for it, and the imports of that sheet by theirs. -/
theorem Tracks.text_eq (h : Tracks ctx levels css ⟨asm, []⟩ log) :
    asm.text =
      inlined ctx levels ctx.base (answersOf asm.session.records log none) css := by
  rw [Assembly.text, Session.textOf_eq]
  exact h.partsText_eq (c := { ctx with importLevels := some levels }) rfl rfl
    (h.main List.not_mem_nil)

/-- In every run, with deliveries at any moments, in any order and any number of times:
between the calls the text is that of the main sheet with each import replaced, in its
place, by the sanitized text that was delivered first for it, and nothing in the place of
an import without an answer. So two runs with the same answers have the same text, in
whatever order these came. -/
theorem text_eq_inlined {trace : Trace}
    (h : Reaches ctx (.initial ctx levels css) log trace a) (hidle : a.sheets = []) :
    a.text = inlined ctx levels ctx.base (a.answers log) css ∧
    ∀ (b : Assembling) (log' : List Delivery) (trace' : Trace),
      Reaches ctx (.initial ctx levels css) log' trace' b → b.sheets = [] →
      b.answers log' = a.answers log → b.text = a.text := by
  have htext : ∀ {a : Assembling} {log : List Delivery} {trace : Trace},
      Reaches ctx (.initial ctx levels css) log trace a → a.sheets = [] →
      a.text = inlined ctx levels ctx.base (a.answers log) css := by
    rintro ⟨asm, sheets⟩ log trace hreaches rfl
    exact (tracks_of_reaches hreaches).text_eq
  refine ⟨htext h hidle, fun b log' trace' h' hidle' hanswers => ?_⟩
  rw [htext h hidle, htext h' hidle', hanswers]

/-- A context whose policy returns every URL, and where the sheet `a`, which imports
`b`, is delivered at once. -/
def promptContext : ImportContext where
  sheet :=
    { confinement := .standard
      policy := some fun uri _ => some uri
      base := none }
  prompt uri := if uri = ['a'] then some "@import 'b';@media tv\x7b\x7d" else none

/-- The sheet `a` is delivered at once and for some media, and
its import `b` comes later. -/
theorem text_eq_inlined_nested :
    ∃ log trace a,
      Reaches promptContext.sheet
        (.initial promptContext.sheet 2 "@import 'a' screen;@media print\x7b\x7d")
        log trace a ∧
      a.sheets = [] ∧
      a.text = inlined promptContext.sheet 2 none (a.answers log)
        "@import 'a' screen;@media print\x7b\x7d" ∧
      a.text =
      "@media screen\x7b@media all\x7b\x7d@media tv\x7b\x7d\x7d@media print\x7b\x7d" := by
  have hdeliver :
      ((Assembly.begin promptContext 2
        "@import 'a' screen;@media print\x7b\x7d").value.deliver? promptContext 1
          "@media all\x7b\x7d").map (fun out => out.value.text) =
      some
        "@media screen\x7b@media all\x7b\x7d@media tv\x7b\x7d\x7d@media print\x7b\x7d".toList := by
    decide +kernel
  obtain ⟨out, hout, htext⟩ := Option.map_eq_some_iff.mp hdeliver
  obtain ⟨log, trace, -, h⟩ :=
    reaches_begin promptContext 2 "@import 'a' screen;@media print\x7b\x7d"
  obtain ⟨log', h'⟩ := reaches_deliver? hout
  exact ⟨_, _, _, h.trans h', rfl, (text_eq_inlined (h.trans h') rfl).1, htext⟩

end CssGuard
