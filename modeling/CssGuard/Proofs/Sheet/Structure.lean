import CssGuard.Proofs.Event.Recovery
import CssGuard.Proofs.Sheet.Run

/-!
# The structure of a sanitized sheet

Whatever sheet is sanitized, the result is read back without a complaint: it
has media rules with blocks and rulesets with declarations of known properties,
and its braces are balanced.

- `SheetSettings.standard`: a configuration with the standard elements, media and schema
- `AreSafe`: events of media rules and rulesets, well nested
- `sanitizeStylesheet_wellStructured`: the structure of a sanitized sheet
-/

namespace CssGuard

open Text

/-! ## Configurations -/

/-- A callback, or none. -/
def Hook.ofOption {α : Type} : Option α → Hook α
  | none => .absent
  | some value => .supplied value

/-- The confinement with the standard names of elements. -/
def Confinement.standardized (c : Confinement) : Confinement :=
  { c with tagPolicy := TagPolicy.standard }

/-- Any confinement with the standard elements, any policy and any base, with the
standard media and schema. -/
def SheetSettings.standard (c : Confinement) (policy : Option Url.Policy)
    (base : Option Text) : SheetSettings where
  confinement := some c.standardized
  policy := Hook.ofOption policy
  base := base

/-- What the sheet depends on under such a configuration. -/
def SheetContext.standard (c : Confinement) (policy : Option Url.Policy)
    (base : Option Text) : SheetContext where
  confinement := c.standardized
  policy := policy
  base := base

theorem SheetContext.schema_standard (c : Confinement) (policy : Option Url.Policy)
    (base : Option Text) :
    (SheetContext.standard c policy base).schema = defaultSchema := by
  unfold SheetContext.standard
  dsimp only

theorem sanitizeStylesheet_ofOption (c : Confinement) (policy : Option Url.Policy)
    (schema : Schema) (types : List Text) (base : Option Text) (css : Text) :
    sanitizeStylesheet ⟨some c, Hook.ofOption policy, schema, types, base⟩ css =
      .ok (sanitizeSheet ⟨c, policy, schema, types, base, none⟩ css) := by
  cases policy with
  | none => rfl
  | some ask => rfl

theorem sanitizeStylesheet_standard (c : Confinement) (policy : Option Url.Policy)
    (base : Option Text) (css : Text) :
    sanitizeStylesheet (.standard c policy base) css =
      .ok (sanitizeSheet (.standard c policy base) css) := by
  unfold SheetSettings.standard SheetContext.standard
  exact sanitizeStylesheet_ofOption ..

theorem isStandard_standard (c : Confinement) (policy : Option Url.Policy)
    (base : Option Text) : (SheetContext.standard c policy base).IsStandard :=
  ⟨rfl, rfl, isPlain_of_mem_defaultSchema⟩

/-! ## Events -/

/-- Events of media rules with blocks, and of rulesets that declare
properties of the schema. -/
inductive AreSafe (schema : Schema) : List Event → Prop
  | nil : AreSafe schema []
  | media {header : List Token} {body rest : List Event} (hbody : AreSafe schema body)
    (hrest : AreSafe schema rest) :
    AreSafe schema (.startAtRule "@media" header :: .startBlock ::
      (body ++ .endBlock :: .endAtRule :: rest))
  | ruleset {selector : List Token} {declarations : List (Text × List Token)}
    {rest : List Event} (hne : declarations ≠ [])
    (hnames : ∀ d ∈ declarations, d.1 ∈ schema.names) (hrest : AreSafe schema rest) :
    AreSafe schema (.startRuleset selector ::
      (declarations.map fun d => .declaration d.1 d.2) ++ .endRuleset :: rest)

/-- Safe events in which `depth` blocks of media rules that began before are closed. -/
def Closes (schema : Schema) : Nat → List Event → Prop
  | 0, es => AreSafe schema es
  | depth + 1, es => ∃ inner rest, AreSafe schema inner ∧ Closes schema depth rest ∧
      es = inner ++ .endBlock :: .endAtRule :: rest

/-- What may stand in front of safe events may stand in front
of those that close blocks. -/
theorem Closes.prepend {schema : Schema} {first : List Event}
    (hfirst : ∀ es, AreSafe schema es → AreSafe schema (first ++ es)) {depth : Nat}
    {es : List Event} (h : Closes schema depth es) :
    Closes schema depth (first ++ es) := by
  cases depth with
  | zero => exact hfirst es h
  | succ depth =>
    obtain ⟨inner, rest, hinner, hrest, rfl⟩ := h
    exact ⟨first ++ inner, rest, hfirst inner hinner, hrest, (List.append_assoc ..).symm⟩

theorem Line.HasOrigin.mem_names {ctx : ValueContext} {T : Trace} {l : Line}
    (h : l.HasOrigin ctx T) : l.name ∈ ctx.schema.names := by
  obtain ⟨d, hd⟩ := h
  obtain ⟨e, he⟩ := hd.find?
  exact Schema.mem_names_of_find? he

theorem mediaName_eq : ("@media".toList : Text) = Item.mediaKeyword := by
  decide

variable {ctx : SheetContext} {T : Trace} {items : List Item}

theorem areSafe_opening (c : Confinement) (queries : List (Text × List Token))
    {schema : Schema} {body rest : List Event} (hbody : AreSafe schema body)
    (hrest : AreSafe schema rest) :
    AreSafe schema (Item.events c (.opening queries) ++
      (body ++ .endBlock :: .endAtRule :: rest)) := by
  rw [Item.events, ← mediaName_eq]
  exact .media hbody hrest

theorem areSafe_rule {selectors : List Complex} {lines : List Line}
    (h : Item.IsSound ctx T (.rule selectors lines)) {rest : List Event}
    (hrest : AreSafe ctx.schema rest) :
    AreSafe ctx.schema (Item.events ctx.confinement (.rule selectors lines) ++ rest) := by
  obtain ⟨-, hne, hlines⟩ := h.valid
  have hnames : ∀ d ∈ lines.map fun l => (l.name, l.value), d.1 ∈ ctx.schema.names := by
    intro d hd
    obtain ⟨l, hl, rfl⟩ := List.mem_map.mp hd
    exact (hlines l hl).mem_names
  have hdeclarations : (lines.map fun l => (l.name, l.value)) ≠ [] := fun hnil =>
    hne (List.map_eq_nil_iff.mp hnil)
  have hevents : Item.events ctx.confinement (.rule selectors lines) ++ rest =
      .startRuleset (dropEndSpace (Item.selector ctx.confinement selectors)) ::
        ((lines.map fun l => (l.name, l.value)).map fun d => .declaration d.1 d.2) ++
          .endRuleset :: rest := by
    rw [Item.events, List.map_map, List.append_assoc]
    rfl
  rw [hevents]
  exact .ruleset hdeclarations hnames hrest

/-- The events of a row of items close as many blocks as are open before it. -/
theorem closes_items {depth depth' : Nat} (hnested : Nested depth items depth')
    (hsound : ∀ item ∈ items, item.IsSound ctx T) (hend : depth' = 0) :
    Closes ctx.schema depth (items.flatMap (Item.events ctx.confinement)) := by
  induction hnested with
  | nil =>
    rw [hend]
    exact .nil
  | cons hstep _ ih =>
    obtain ⟨hitem, hitems⟩ := List.forall_mem_cons.mp hsound
    have hrest := ih hitems hend
    rw [List.flatMap_cons]
    cases hstep with
    | @opening queries _ _ =>
      -- the block that is closed first is the one that was opened here
      obtain ⟨inner, rest, hinner, hrest, heq⟩ := hrest
      have hclosed : ∀ es, AreSafe ctx.schema es → AreSafe ctx.schema
          (Item.events ctx.confinement (.opening queries) ++
            (inner ++ [.endBlock, .endAtRule]) ++ es) := by
        intro es hes
        have hsafe := areSafe_opening ctx.confinement queries hinner hes
        rwa [List.append_assoc, List.append_assoc]
      have hprepend := hrest.prepend hclosed
      rw [List.append_assoc, List.append_assoc] at hprepend
      rw [heq]
      exact hprepend
    | closing => exact ⟨[], _, .nil, hrest, rfl⟩
    | rule => exact hrest.prepend fun es hes => areSafe_rule hitem hes

/-! ## Braces -/

theorem balance_line {l : Line} (h : l.IsLegible) (depth : Nat) :
    Balance depth l.tokens depth := by
  have hname := (isBareName_of_isPlainIdent h.name).isValueToken_self.not_structural
  refine balance_of_not_mem (fun t ht => ?_) depth
  rcases List.mem_append.mp ht with ht | ht
  · refine not_mem_braces_of_not_isStructural ?_
    rcases List.mem_cons.mp ht with rfl | ht
    · exact hname
    · rcases List.mem_cons.mp ht with rfl | ht
      · decide
      · exact h.not_isStructural t ht
  · rw [List.mem_singleton.mp ht]
    decide

theorem balance_item {c : Confinement} {item : Item} (h : item.IsValid c Line.IsLegible)
    {depth depth' : Nat} (hstep : item.Steps depth depth') :
    Balance depth (item.tokens c) depth' := by
  cases hstep with
  | @opening queries _ _ =>
    refine Balance.append (balance_of_not_mem (fun t ht => ?_) depth) (balance_open depth)
    refine not_mem_braces_of_not_isStructural ?_
    rcases List.mem_cons.mp ht with rfl | ht
    · decide
    · exact (Item.not_of_mem_header h.2 t ht).1
  | closing => exact balance_close _
  | @rule selectors lines _ =>
    obtain ⟨⟨-, hselectors⟩, -, hlines⟩ := h
    have hfits : fits false (Item.selector c selectors) = true := by
      rw [Item.selector, fits_squeeze]
      exact fits_listReading hselectors
    have hselector : Balance depth (Item.selector c selectors) depth :=
      balance_of_not_mem (fun t ht => not_mem_braces_of_not_isStructural
        (not_of_fits hfits t ht).1) depth
    have hbody : Balance (depth + 1) (lines.flatMap Line.tokens) (depth + 1) :=
      balance_flatMap fun l hl => balance_line (hlines l hl) _
    have hrule :=
      (hselector.append (balance_open depth)).append (hbody.append (balance_close depth))
    rw [List.append_assoc, List.singleton_append] at hrule
    rw [Item.tokens, List.append_assoc]
    exact hrule

theorem balance_items {c : Confinement}
    (h : ∀ item ∈ items, item.IsValid c Line.IsLegible) {depth depth' : Nat}
    (hnested : Nested depth items depth') :
    Balance depth (items.flatMap (Item.tokens c)) depth' := by
  induction hnested with
  | nil => exact balance_of_not_mem (fun _ h => absurd h List.not_mem_nil) _
  | cons hstep _ ih =>
    obtain ⟨hitem, hitems⟩ := List.forall_mem_cons.mp h
    rw [List.flatMap_cons]
    exact (balance_item hitem hstep).append (ih hitems)

/-! ## Sanitized sheets -/

/-- The items of a sanitized sheet, and what they are read back as. -/
theorem exists_items_read (hctx : ctx.IsStandard) (css : Text) :
    ∃ items, (∀ item ∈ items, item.IsSound ctx (sanitizeSheet ctx css).trace) ∧
      Nested 0 items 0 ∧
      lex (sanitizeSheet ctx css).value =
        ⟨items.flatMap (Item.tokens ctx.confinement), []⟩ ∧
      sheetSignals (items.flatMap (Item.tokens ctx.confinement)) =
        (Event.startSheet :: items.flatMap (Item.events ctx.confinement) ++
          [Event.endSheet]).map .event := by
  obtain ⟨items, htext, hnested, hsound⟩ := exists_items hctx css
  have hvalid := fun item hitem => (hsound item hitem).isValid hctx
  refine ⟨items, hsound, hnested, ?_, sheetSignals_items hvalid hnested⟩
  rw [htext]
  exact lex_items hvalid

/-- Whatever sheet is sanitized, with whatever policy and base: the result is read back
without a complaint, as media rules with blocks and rulesets with declarations of known
properties, and its braces are balanced. -/
theorem sanitizeStylesheet_wellStructured (c : Confinement) (policy : Option Url.Policy)
    (base : Option Text) (css : Text) :
    ∃ out, sanitizeStylesheet (.standard c policy base) css = .ok out ∧
      (lex out.value).trace = [] ∧ issues (sheetSignals (lex out.value).value) = [] ∧
      (∃ es,
        events (sheetSignals (lex out.value).value) = .startSheet :: es ++ [.endSheet] ∧
        AreSafe defaultSchema es) ∧
      (∀ n, ((lex out.value).value.take n).count Token.closeBrace ≤
        ((lex out.value).value.take n).count Token.openBrace) ∧
      (lex out.value).value.count Token.openBrace =
        (lex out.value).value.count Token.closeBrace := by
  have hctx := isStandard_standard c policy base
  obtain ⟨items, hsound, hnested, hlex, hsignals⟩ := exists_items_read hctx css
  have hbalance :=
    balance_items (fun item hitem => (hsound item hitem).isValid hctx) hnested
  have hsafe := closes_items hnested hsound rfl
  rw [SheetContext.schema_standard] at hsafe
  refine ⟨_, sanitizeStylesheet_standard c policy base css, ?_⟩
  rw [hlex, hsignals, issues_map_event, events_map_event]
  refine ⟨rfl, rfl, ⟨_, rfl, hsafe⟩, fun n => ?_, ?_⟩
  · have htake := hbalance.take n
    rwa [Nat.zero_add] at htake
  · have htotal := hbalance.total
    rwa [Nat.zero_add, Nat.zero_add] at htotal

end CssGuard
