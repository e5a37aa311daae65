import CssGuard.Proofs.Sheet.Characters

/-!
# No markup in a sanitized sheet

A sheet inside of a style element ends where an end tag begins, whatever the rules of the
sheet say. A sanitized sheet cannot begin a tag: everything in it is a name, a number, a
known mark, a string or a URL. Names and numbers have no angle bracket, and strings and
URLs escape it, also where the policy put it into a URL.

- `Atom.not_lt_mem_text`: values
- `Declared.not_lt_mem_text`: declarations
- `sanitizeStylesheet_markupFree`: sheets
-/

namespace CssGuard

open Text Escape

theorem isUnselectable_lt : IsUnselectable '<' :=
  ⟨⟨by decide, by decide⟩, by decide, by decide⟩

theorem isUnwritten_lt : IsUnwritten '<' :=
  ⟨isUnselectable_lt.toIsUnnamed, by decide⟩

/-! ## Values -/

/-- What is left of a token under an entry: only a string or a URL could hold the
character, and they escape it. -/
theorem Atom.not_lt_mem_text {ctx : ValueContext} (hctx : ctx.IsPlain)
    {G : Text → Prop} {e : Entry} (he : e.IsPlain) {a : Scrap}
    (h : Atom ctx Shape G e a) : '<' ∉ a.text := by
  rcases h.cases_text hctx he with hplain | ⟨-, s, rfl⟩ | ⟨-, uri, -, rfl⟩
  · exact hplain _ isUnwritten_lt
  · exact isUnselectable_lt.not_mem_quoted s
  · have hescaped : '<' ∉ Url.escape uri :=
      fun hmem => absurd (Url.not_isSpecial_of_mem_escape hmem) (by decide)
    simp [Scrap.text, hescaped]

theorem Declared.not_lt_mem_text {ctx : ValueContext} (hctx : ctx.IsPlain)
    {G : Text → Text → Prop} {d : Declaration} {l : Line} (h : Declared ctx Shape G d l) :
    '<' ∉ l.text := by
  cases h with
  | @intro name e kept scraps important hname hlower hfind hne hkept =>
    have he := hctx.entries _ (Schema.mem_of_find? hfind).1
    have hscraps : ∀ a ∈ scraps, '<' ∉ a.text :=
      isUnwritten_lt.not_mem_emitted hctx (fun _ _ => trivial)
        (fun _ he ha => ha.not_lt_mem_text hctx he) trivial he hkept
    have hrow : '<' ∉ spread true (scraps ++ importance important) := by
      rw [mem_spread (by decide)]
      rintro ⟨a, ha, hmem⟩
      rcases List.mem_append.mp ha with ha | ha
      · exact hscraps a ha hmem
      · exact isUnwritten_lt.not_mem_importance important a ha hmem
    simp [Line.text, isUnselectable_lt.not_mem_ident hname, hrow]

/-! ## Sheets -/

theorem not_lt_mem_joined {ts : List Text} (h : ∀ t ∈ ts, '<' ∉ t) :
    '<' ∉ joined ", " ts := by
  rw [mem_joined (by decide)]
  rintro ⟨t, ht, hmem⟩
  exact h t ht hmem

theorem Item.IsSound.not_lt_mem_text {ctx : SheetContext}
    (hctx : ctx.IsStandard) {T : Trace} {item : Item} (h : item.IsSound ctx T) :
    '<' ∉ item.text ctx.confinement := by
  have hvalid := h.valid
  cases item with
  | opening queries =>
    have hqueries : '<' ∉ joined ", " (queries.map Prod.fst) :=
      not_lt_mem_joined (List.forall_mem_map.mpr fun q hq => isUnwritten_lt.not_mem_query
        (hvalid.2 q hq))
    have hkeyword : '<' ∉ Item.mediaKeyword := by decide
    simp only [Item.text, List.mem_append, List.mem_cons, not_or]
    exact ⟨⟨hkeyword, by decide, hqueries⟩, by decide⟩
  | closing => exact (by decide : '<' ∉ ['\x7d'])
  | rule selectors lines =>
    obtain ⟨⟨-, hselectors⟩, -, hlines⟩ := hvalid
    have hselector : '<' ∉ joined ", " (selectors.map (Complex.text ctx.confinement)) :=
      not_lt_mem_joined (List.forall_mem_map.mpr
        fun s hs => isUnselectable_lt.not_mem_complex (isUnwritten_lt.not_mem_idSuffix _)
          (isUnwritten_lt.not_mem_start _) (hselectors s hs))
    have hbody : '<' ∉ lines.flatMap Line.text := by
      intro hmem
      obtain ⟨l, hl, hmem⟩ := List.mem_flatMap.mp hmem
      obtain ⟨d, hd⟩ := hlines l hl
      exact hd.not_lt_mem_text hctx.values hmem
    simp only [Item.text, List.mem_append, List.mem_cons, not_or]
    exact ⟨⟨hselector, by decide, hbody⟩, by decide⟩

/-- Whatever the sheet, its base and its confinement are, and whatever the policy
returns, a sheet sanitized with the standard elements, media and schema has no `<`, so it
closes no element around it. -/
theorem sanitizeStylesheet_markupFree (c : Confinement) (policy : Option Url.Policy)
    (base : Option Text) (css : Text) :
    ∃ out, sanitizeStylesheet (.standard c policy base) css = .ok out ∧
      '<' ∉ out.value := by
  have hctx := isStandard_standard c policy base
  refine ⟨_, sanitizeStylesheet_standard c policy base css, ?_⟩
  obtain ⟨items, htext, -, hsound⟩ := exists_items hctx css
  rw [htext]
  intro hmem
  obtain ⟨item, hitem, hmem⟩ := List.mem_flatMap.mp hmem
  exact (hsound item hitem).not_lt_mem_text hctx hmem

end CssGuard
