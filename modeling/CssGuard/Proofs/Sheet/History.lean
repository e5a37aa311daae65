import CssGuard.Proofs.Sheet.Structure

/-!
# Visited links in a sanitized sheet

A page can measure what a rule about visited links sets, so in a sanitized
sheet such a rule sets only properties that may be set there, however the
selectors of the source were mixed.

- `rulesets`: the rulesets among events, each with its selector and its declarations
- `rulesets_items`: the rulesets of a sanitized sheet are its rules
- `sanitizeStylesheet_keepsHistory`: what a rule about visited links sets
-/

namespace CssGuard

open Text

/-- A ruleset that was read. -/
structure Ruleset where
  selector : List Token
  /-- The properties that are set, with their values. -/
  declarations : List (Text × List Token)

/-- The declaration of an event. -/
def Event.declaration? : Event → Option (Text × List Token)
  | .declaration name value => some (name, value)
  | _ => none

/-- The rulesets among events, each with the declarations up to its end. -/
def rulesets : List Event → List Ruleset
  | [] => []
  | .startRuleset selector :: rest =>
    ⟨selector, (rest.takeWhile (· ≠ .endRuleset)).filterMap Event.declaration?⟩ ::
      rulesets rest
  | _ :: rest => rulesets rest

/-- The rulesets of an item. -/
def Item.rulesets (c : Confinement) : Item → List Ruleset
  | .rule selectors lines =>
    [⟨dropEndSpace (selector c selectors), lines.map fun l => (l.name, l.value)⟩]
  | _ => []

/-! ## Rules -/

theorem rulesets_lines (lines : List Line) (rest : List Event) :
    rulesets (lines.map Line.event ++ rest) = rulesets rest := by
  induction lines with
  | nil => rfl
  | cons l lines ih => exact ih

theorem takeWhile_lines (lines : List Line) (rest : List Event) :
    (lines.map Line.event ++ .endRuleset :: rest).takeWhile (· ≠ .endRuleset) =
      lines.map Line.event := by
  have hne : ∀ e ∈ lines.map Line.event, decide (e ≠ Event.endRuleset) = true := by
    intro e he
    obtain ⟨l, -, rfl⟩ := List.mem_map.mp he
    exact decide_eq_true fun heq => by cases heq
  rw [List.takeWhile_append_of_pos hne, List.takeWhile_cons_of_neg (by simp),
    List.append_nil]

theorem declarations_lines (lines : List Line) :
    (lines.map Line.event).filterMap Event.declaration? =
      lines.map fun l => (l.name, l.value) := by
  rw [List.filterMap_map]
  exact congrFun List.filterMap_eq_map' lines

theorem rulesets_item (c : Confinement) (item : Item) (rest : List Event) :
    rulesets (item.events c ++ rest) = item.rulesets c ++ rulesets rest := by
  cases item with
  | opening queries => rfl
  | closing => rfl
  | rule selectors lines =>
    have hend : rulesets (.endRuleset :: rest) = rulesets rest := rfl
    rw [Item.events, List.append_assoc, List.cons_append, rulesets, List.singleton_append,
      takeWhile_lines, declarations_lines, rulesets_lines, hend, Item.rulesets,
      List.singleton_append]

/-- The rulesets of a sanitized sheet are its rules. -/
theorem rulesets_items (c : Confinement) (items : List Item) (rest : List Event) :
    rulesets (items.flatMap (Item.events c) ++ rest) =
      items.flatMap (Item.rulesets c) ++ rulesets rest := by
  induction items with
  | nil => rfl
  | cons item items ih =>
    rw [List.flatMap_cons, List.append_assoc, rulesets_item, ih, List.flatMap_cons,
      List.append_assoc]

/-- A rule whose selectors tell visited links from others sets
only what may be set there. -/
theorem allowsInLink_of_mem_rulesets {ctx : SheetContext} {T : Trace} {item : Item}
    (h : item.IsSound ctx T) {r : Ruleset} (hr : r ∈ item.rulesets ctx.confinement)
    {pseudo : Text} (hpseudo : pseudo ∈ historyPseudoClasses)
    (hselector : [Token.colon, pseudo] <:+: r.selector) :
    ∀ d ∈ r.declarations, ctx.schema.allowsInLink d.1 := by
  cases item with
  | opening queries => cases hr
  | closing => cases hr
  | rule selectors lines =>
    rw [List.mem_singleton.mp hr] at hselector ⊢
    obtain ⟨⟨-, hvalid⟩, -⟩ := h.valid
    rcases h.orderly with hplain | ⟨-, hallowed⟩
    · -- without such a pseudo-class the colon is followed by something else
      have hquiet := isQuiet_listReading fun s hs => ⟨hvalid s hs, hplain s hs⟩
      rw [← isQuiet_squeeze] at hquiet
      exact absurd hselector (not_infix_of_isQuiet (isQuiet_dropEndSpace hquiet) hpseudo)
    · intro d hd
      obtain ⟨l, hl, rfl⟩ := List.mem_map.mp hd
      exact hallowed l hl

/-- In a sanitized sheet every ruleset whose selector names visited or
unvisited links, by a colon and the name of the pseudo-class, sets only
properties that may be set for them. -/
theorem sanitizeStylesheet_keepsHistory (c : Confinement) (policy : Option Url.Policy)
    (base : Option Text) (css : Text) :
    ∃ out, sanitizeStylesheet (.standard c policy base) css = .ok out ∧
      ∀ r ∈ rulesets (events (sheetSignals (lex out.value).value)),
        ([Token.colon, "link"] <:+: r.selector ∨
          [Token.colon, "visited"] <:+: r.selector) →
        ∀ d ∈ r.declarations, defaultSchema.allowsInLink d.1 := by
  have hctx := isStandard_standard c policy base
  obtain ⟨items, hsound, -, hlex, hsignals⟩ := exists_items_read hctx css
  refine ⟨_, sanitizeStylesheet_standard c policy base css, fun r hr hselector => ?_⟩
  rw [hlex, hsignals, events_map_event] at hr
  change r ∈ rulesets (items.flatMap (Item.events c.standardized) ++ [.endSheet]) at hr
  rw [rulesets_items, List.mem_append] at hr
  rcases hr with hr | hr
  · obtain ⟨item, hitem, hr⟩ := List.mem_flatMap.mp hr
    rw [← SheetContext.schema_standard c policy base]
    rcases hselector with hselector | hselector
    · exact allowsInLink_of_mem_rulesets (hsound item hitem) hr
        (List.mem_cons_self ..) hselector
    · exact allowsInLink_of_mem_rulesets (hsound item hitem) hr
        (List.mem_cons_of_mem _ (List.mem_cons_self ..)) hselector
  · cases hr

end CssGuard
