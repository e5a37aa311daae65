import CssGuard.Proofs.Sheet.Urls
import CssGuard.Proofs.Value.Renewal

/-!
# Sanitizing lines again

The line of a declaration is read back and sanitized again with what becomes of its
scraps, or it is left out. Nothing changes if every scrap stays as it is, and only
then are the tokens the same.

- `Renewed.eq_self`, `Renewed.stays_of_tokens_eq`: rows of scraps that stay
- `Declared.again`: what becomes of a declaration
- `LinesRenew`: what becomes of a row of lines
- `exists_linesRenew`: the declarations that are left of a row of lines
-/

namespace CssGuard

open Text

variable {base : Option Text}

/-! ## Rows of scraps -/

theorem Renewed.eq_self {row row' : List Scrap} (h : Renewed base row row')
    (hstays : ∀ a ∈ row, a.again? base = some a) : row' = row := by
  induction h with
  | nil => rfl
  | @keep a a' row row' ha _ ih =>
    obtain ⟨hself, hrest⟩ := List.forall_mem_cons.mp hstays
    rw [ih hrest, Option.some.inj (ha.symm.trans hself)]
  | @drop a row row' ha _ _ _ =>
    rw [hstays a (List.mem_cons_self ..)] at ha
    cases ha
  | @empty n inner row row' hne _ _ ihinner _ =>
    -- a call that is left out has something inside that is left out
    refine absurd (ihinner fun a ha => hstays a ?_).symm hne
    exact List.mem_cons_of_mem _ (List.mem_append_left _ ha)

/-- Of a row of which nothing is left, some scrap is left out. -/
theorem Renewed.exists_lost {row row' : List Scrap} (h : Renewed base row row')
    (hnil : row' = []) (hne : row ≠ []) : ∃ a ∈ row, a.again? base = none := by
  induction h with
  | nil => exact absurd rfl hne
  | keep => cases hnil
  | drop ha => exact ⟨_, List.mem_cons_self .., ha⟩
  | empty hinner _ _ ihinner _ =>
    obtain ⟨a, ha, hnone⟩ := ihinner rfl hinner
    exact ⟨a, List.mem_cons_of_mem _ (List.mem_append_left _ ha), hnone⟩

theorem Scrap.tokens_ne_nil (a : Scrap) : a.tokens ≠ [] := by
  cases a <;> exact List.cons_ne_nil _ _

theorem Scrap.length_again {a a' : Scrap} (h : a.again? base = some a') :
    a'.tokens.length = a.tokens.length := by
  cases a with
  | plain t | line t =>
    rw [Scrap.again?] at h
    split at h
    · cases h
    · cases h
      rfl
  | url uri =>
    obtain ⟨uri', -, rfl⟩ := Option.map_eq_some_iff.mp h
    rfl
  | important =>
    cases h
    rfl

theorem Renewed.length_le {row row' : List Scrap} (h : Renewed base row row') :
    (row'.flatMap Scrap.tokens).length ≤ (row.flatMap Scrap.tokens).length := by
  induction h with
  | nil => exact Nat.le_refl _
  | keep ha _ ih =>
    rw [List.flatMap_cons, List.flatMap_cons, List.length_append, List.length_append,
      Scrap.length_again ha]
    exact Nat.add_le_add_left ih _
  | drop _ _ _ ih =>
    rw [List.flatMap_cons, List.length_append]
    omega
  | empty _ _ _ _ ih =>
    rw [tokens_call, List.length_append]
    omega

/-- A row whose tokens are the same again is a row of scraps whose tokens are. -/
theorem Renewed.stays_of_tokens_eq {row row' : List Scrap} (h : Renewed base row row')
    (htokens : row'.flatMap Scrap.tokens = row.flatMap Scrap.tokens) :
    ∀ a ∈ row, ∃ a', a.again? base = some a' ∧ a'.tokens = a.tokens := by
  induction h with
  | nil => exact fun a ha => absurd ha List.not_mem_nil
  | @keep a a' row row' ha _ ih =>
    rw [List.flatMap_cons, List.flatMap_cons] at htokens
    obtain ⟨hfirst, hrest⟩ := List.append_inj htokens (Scrap.length_again ha)
    exact List.forall_mem_cons.mpr ⟨⟨a', ha, hfirst⟩, ih hrest⟩
  | @drop a row row' _ _ hrow _ =>
    have hle := hrow.length_le
    have hpos := List.length_pos_iff.mpr a.tokens_ne_nil
    rw [htokens, List.flatMap_cons, List.length_append] at hle
    omega
  | @empty n inner row row' _ _ hrow _ _ =>
    have hle := hrow.length_le
    rw [htokens, tokens_call, List.length_append, List.cons_append,
      List.length_cons] at hle
    omega

/-! ## Scraps that stay -/

/-- A URL in the token is written in the same way when it is seen from the base again. -/
def Token.UrlStays (base : Option Text) (t : Token) : Prop :=
  ∀ body, t.urlBody? = some body → Url.again? base (Escape.decode body) = some
    (Escape.decode body)

/-- A token with a URL inside begins like one. -/
theorem Shape.beginsUrl_of_urlBody? {t : Token} (h : Shape t) {body : Text}
    (hbody : t.urlBody? = some body) : t.beginsUrl := by
  obtain ⟨s, -, heq, -⟩ := h.of_urlBody? hbody
  rw [heq]
  rfl

variable {a a' : Scrap}

theorem Scrap.again?_eq_self (hnew : '\n' ∉ a.text)
    (hnul : ∀ uri, a = .url uri → '\x00' ∉ uri)
    (hforeign : ∀ t ∈ a.tokens, beginsForeign t = false)
    (hurl : ∀ t ∈ a.tokens, t.UrlStays base) : a.again? base = some a := by
  cases a with
  | plain t =>
    rw [Scrap.again?, hforeign t (List.mem_singleton.mpr rfl)]
    rfl
  | line t => exact absurd (List.mem_append_right t (List.mem_singleton.mpr rfl)) hnew
  | url uri =>
    have hstays := hurl _ (List.mem_singleton.mpr rfl) _ (urlBody?_quote uri)
    rw [Escape.decode_escapeString (hnul uri rfl)] at hstays
    rw [Scrap.again?, hstays]
    rfl
  | important => rfl

/-- Nothing that is kept begins with a digit outside ASCII, neither before nor after. -/
theorem Scrap.beginsForeign_eq_of_again? (h : a.again? base = some a') :
    (∀ t ∈ a.tokens, beginsForeign t = false) ∧ ∀ t ∈ a'.tokens,
    beginsForeign t = false := by
  cases a with
  | plain t | line t =>
    rw [Scrap.again?] at h
    split at h
    · cases h
    · rename_i hforeign
      cases h
      have hall : ∀ u ∈ [t], beginsForeign u = false :=
        List.forall_mem_singleton.mpr (Bool.eq_false_iff.mpr hforeign)
      exact ⟨hall, hall⟩
  | url uri =>
    obtain ⟨uri', -, rfl⟩ := Option.map_eq_some_iff.mp h
    have hletter : beginsForeign ['u'] = false := by decide
    exact ⟨List.forall_mem_singleton.mpr hletter, List.forall_mem_singleton.mpr hletter⟩
  | important =>
    cases h
    decide

theorem Url.not_nul_mem_again? {uri uri' : Text} (h : Url.again? base uri = some uri') :
    '\x00' ∉ uri' ∧ '\n' ∉ uri' := by
  unfold Url.again? at h
  split at h
  · cases h
    exact ⟨fun hmem => absurd (Url.not_isSpecial_of_mem_escape hmem) (by decide),
      fun hmem => absurd (Url.not_isSpecial_of_mem_escape hmem) (by decide)⟩
  · cases h

/-- Nothing that is kept has a newline. -/
theorem Scrap.not_newline_mem_again? (h : a.again? base = some a')
    (hnew : ∀ t ∈ a.tokens, '\n' ∉ t) : '\n' ∉ a'.text := by
  cases a with
  | plain t | line t =>
    rw [Scrap.again?] at h
    split at h
    · cases h
    · cases h
      exact hnew t (List.mem_singleton.mpr rfl)
  | url uri =>
    obtain ⟨uri', huri', rfl⟩ := Option.map_eq_some_iff.mp h
    simp [Scrap.text, (Url.not_nul_mem_again? huri').2]
  | important =>
    cases h
    decide

theorem Scrap.urlBody?_of_mem_tokens {uri : Text} :
    ∀ t ∈ (Scrap.url uri).tokens, t.urlBody? = some (Escape.escapeString uri) :=
  List.forall_mem_singleton.mpr (urlBody?_quote uri)

/-- The tokens of a scrap stay if it is no URL or one that stays. -/
theorem Scrap.urlStays_of_mem_tokens (ha : a.IsLegible) (hshape : ∀ t ∈ a.tokens, Shape t)
    (hnul : ∀ uri, a = .url uri → '\x00' ∉ uri)
    (h : ∀ uri, a = .url uri → Url.again? base uri = some uri) :
    ∀ t ∈ a.tokens, t.UrlStays base := by
  intro t ht body hbody
  obtain ⟨uri, rfl⟩ := ha.url t ht ((hshape t ht).beginsUrl_of_urlBody? hbody)
  rw [← Option.some.inj ((urlBody?_of_mem_tokens t ht).symm.trans hbody),
    Escape.decode_escapeString (hnul uri rfl)]
  exact h uri rfl

/-- A URL whose token is the same again stays. -/
theorem Scrap.again?_of_tokens_eq {uri : Text} (hnul : '\x00' ∉ uri)
    (h : (Scrap.url uri).again? base = some a')
    (htokens : a'.tokens = (Scrap.url uri).tokens) : Url.again? base uri = some uri := by
  obtain ⟨uri', huri', rfl⟩ := Option.map_eq_some_iff.mp h
  have hmem : ∀ t ∈ (Scrap.url uri').tokens,
      t.urlBody? = some (Escape.escapeString uri) :=
    htokens ▸ urlBody?_of_mem_tokens
  have heq : Escape.escapeString uri = Escape.escapeString uri' :=
    Option.some.inj ((hmem _ (List.mem_singleton.mpr rfl)).symm.trans
      (urlBody?_of_mem_tokens _ (List.mem_singleton.mpr rfl)))
  have hsame : uri = uri' := by
    rw [← Escape.decode_escapeString hnul, heq,
      Escape.decode_escapeString (Url.not_nul_mem_again? huri').1]
  rw [huri', ← hsame]

/-- A character other than the space between scraps comes from a scrap. -/
theorem mem_spread {x : Char} (hx : x ≠ ' ') (opened : Bool) (row : List Scrap) :
    x ∈ spread opened row ↔ ∃ a ∈ row, x ∈ a.text := by
  induction row generalizing opened with
  | nil => simp [spread]
  | cons a row ih =>
    have hgap : x ∉ (if opened || a.isTight then [] else [' '] : Text) := by
      split <;> simp [hx]
    rw [spread, List.mem_append, List.mem_append, ih, or_iff_right hgap]
    simp

/-- What becomes of a row has no newline, and nothing in it begins
with a digit outside ASCII. -/
theorem Renewed.forall_mem {row row' : List Scrap} (h : Renewed base row row')
    (hnew : ∀ t ∈ row.flatMap Scrap.tokens, '\n' ∉ t) :
    ∀ a' ∈ row', '\n' ∉ a'.text ∧ ∀ t ∈ a'.tokens, beginsForeign t = false := by
  induction h with
  | nil => exact fun a ha => absurd ha List.not_mem_nil
  | keep ha _ ih =>
    obtain ⟨hfirst, hrest⟩ := List.forall_mem_append.mp hnew
    exact List.forall_mem_cons.mpr
      ⟨⟨Scrap.not_newline_mem_again? ha hfirst, (Scrap.beginsForeign_eq_of_again? ha).2⟩,
        ih hrest⟩
  | drop _ _ _ ih => exact ih (List.forall_mem_append.mp hnew).2
  | empty _ _ _ _ ih =>
    rw [tokens_call] at hnew
    exact ih (List.forall_mem_append.mp hnew).2

/-! ## Declarations -/

theorem splitImportant_concat (ts : List Token) :
    splitImportant (ts ++ Scrap.important.tokens) = (ts, true) := by
  have hlower : lower "important" = "important".toList := by decide
  rw [splitImportant, List.reverse_append]
  show (if lower "important" = "important".toList then _ else _) = _
  rw [if_pos hlower]
  exact congrArg (·, true) ts.reverse_reverse

theorem splitImportant_of_not_mem {ts : List Token} (h : ['!'] ∉ ts) :
    splitImportant ts = (ts, false) := by
  unfold splitImportant
  split
  · rename_i last rest heq
    refine absurd (List.mem_reverse.mp ?_) h
    rw [heq]
    exact List.mem_cons_of_mem _ (List.mem_cons_self ..)
  · rfl

variable {ctx : ValueContext} {G : Text → Text → Prop}

/-- The tokens of a value do not mark importance and have no newline. -/
theorem Emitted.of_mem_tokens {G : Text → Prop} (hctx : ctx.IsOpen)
    {levels : Nat} {e : Entry} (he : e.IsPlain) {ts : List Token} {scraps : List Scrap}
    (h : Emitted ctx Shape G levels e ts scraps) :
    ∀ t ∈ scraps.flatMap Scrap.tokens, t ≠ ['!'] ∧ '\n' ∉ t := by
  induction h with
  | nil => exact fun t ht => absurd ht List.not_mem_nil
  | atom ha _ ih =>
    obtain ⟨t, htokens, hsingle, -⟩ := ha.again hctx he []
    rw [List.flatMap_cons, htokens]
    exact List.forall_mem_append.mpr
      ⟨List.forall_mem_singleton.mpr ⟨hsingle.not_bang, hsingle.no_newline⟩, ih he⟩
  | @call _ _ f raw n args ts inner scraps hraw hlower hform hfunction hargs _ _
    ihinner ih =>
    obtain ⟨hmem, hf⟩ := Schema.mem_of_function? hfunction
    have hident := (isPlainIdent_function he hmem).1
    have hopener : n ++ ['('] ≠ ['!'] ∧ '\n' ∉ n ++ ['('] := by
      refine ⟨fun heq => ?_, fun hnew => ?_⟩
      · have hlast := congrArg List.getLast? heq
        rw [List.getLast?_concat] at hlast
        cases hlast
      · exact not_newline_mem_of_isPlainIdent hident
          ((List.mem_append.mp hnew).resolve_right (by decide))
    rw [tokens_call]
    exact List.forall_mem_append.mpr ⟨List.forall_mem_cons.mpr ⟨hopener,
      List.forall_mem_append.mpr ⟨ihinner (hctx.entries _ hf), by decide⟩⟩, ih he⟩

/-- The tokens of a line have no newline. -/
theorem Declared.not_newline_mem (hctx : ctx.IsOpen) {d : Declaration} {l : Line}
    (h : Declared ctx Shape G d l) : ∀ t ∈ l.value, '\n' ∉ t := by
  cases h with
  | intro important hname hlower hfind hne hkept =>
    have he := hctx.entries _ (Schema.mem_of_find? hfind).1
    rw [Line.value, List.flatMap_append]
    refine List.forall_mem_append.mpr ⟨fun t ht => (hkept.of_mem_tokens hctx he t ht).2,
      ?_⟩
    cases important with
    | false => exact fun t ht => absurd ht List.not_mem_nil
    | true => decide

theorem Declared.not_nul_mem {d : Declaration} {l : Line} (h : Declared ctx Shape G d l) :
    ∀ a ∈ l.row, ∀ uri, a = .url uri → '\x00' ∉ uri := by
  rintro a ha uri rfl
  obtain ⟨granted, -, rfl⟩ := h.granted_of_mem ha
  exact fun hmem => absurd (Url.not_isSpecial_of_mem_escape hmem) (by decide)

/-- What is kept of a value that is sanitized again: nothing, along with some scrap of it,
or what becomes of its scraps. -/
theorem RenewsTo.kept {levels : Nat} {e : Entry} {scraps : List Scrap} {draft : Draft}
    (h : RenewsTo ctx levels e scraps draft) (hne : scraps ≠ []) :
    ((if draft.finish.refused then [] else draft.finish.tokens) = [] ∧
        ∃ a ∈ scraps, a.again? ctx.base = none) ∨
      ∃ ts' scraps', (if draft.finish.refused then [] else draft.finish.tokens) = ts' ∧
        ts' ≠ [] ∧
        Emitted ctx Shape (fun _ => True) levels e ts' scraps' ∧
        Renewed ctx.base scraps scraps' := by
  rcases h with ⟨hrefused, uri, huri, hnone⟩ | ⟨ts', scraps', rfl, hemitted, hrenewed⟩
  · refine .inl ⟨if_pos hrefused, .url uri, huri, ?_⟩
    rw [Scrap.again?, hnone]
    rfl
  · rw [Draft.finish, coalesce_tokens, if_neg Bool.false_ne_true]
    by_cases hts : ts' = []
    · subst hts
      cases hemitted
      exact .inl ⟨rfl, hrenewed.exists_lost rfl hne⟩
    · exact .inr ⟨ts', scraps', rfl, hts, hemitted, hrenewed⟩

theorem value_sanitizeDeclaration {name : Text} {e : Entry} {value ts : List Token}
    {important : Bool} (hlower : lower name = name)
    (hfind : ctx.schema.find? name = some e)
    (hsplit : splitImportant value = (ts, important)) {kept : List Token}
    (hkept : (if (sanitizeAt ctx name maxCallDepth e ts).value.refused then []
      else (sanitizeAt ctx name maxCallDepth e ts).value.tokens) = kept) :
    (sanitizeDeclaration ctx name value).value =
      if kept.isEmpty then none
        else some ⟨name, kept ++ (importance important).map Scrap.text⟩ := by
  unfold sanitizeDeclaration sanitizeProperty
  rw [hsplit, map_text_importance, ← hkept]
  dsimp only
  rw [Traced.value_bind, Traced.value_pure, hlower, hlower, hfind]
  dsimp only
  rw [Traced.value_bind, Traced.value_pure]

theorem splitImportant_value {ts : List Token} {important : Bool} (h : ['!'] ∉ ts) :
    splitImportant (ts ++ (importance important).flatMap Scrap.tokens) =
      (ts, important) := by
  cases important with
  | false =>
    show splitImportant (ts ++ []) = _
    rw [List.append_nil]
    exact splitImportant_of_not_mem h
  | true => exact splitImportant_concat ts

/-- What becomes of a declaration: it is left out with some scrap of its line, or it is
left with what becomes of its scraps. -/
theorem Declared.again (hctx : ctx.IsOpen) {d : Declaration} {l : Line}
    (h : Declared ctx Shape G d l) (hshape : ∀ t ∈ l.value, Shape t) :
    ((sanitizeDeclaration ctx l.name l.value).value = none ∧ ∃ a ∈ l.row,
      a.again? ctx.base = none) ∨
      ∃ d' row, (sanitizeDeclaration ctx l.name l.value).value = some d' ∧
        Declared ctx Shape (fun _ _ => True) d' ⟨l.name, row⟩ ∧
        Renewed ctx.base l.row row := by
  cases h with
  | @intro name e kept scraps important hname hlower hfind hne hkept =>
    have he := hctx.entries _ (Schema.mem_of_find? hfind).1
    have hbang : ['!'] ∉ scraps.flatMap Scrap.tokens := fun hmem =>
      (hkept.of_mem_tokens hctx he _ hmem).1 rfl
    rw [Line.value, List.flatMap_append] at hshape ⊢
    have hrenews : RenewsTo ctx maxCallDepth e scraps (sanitizeFrom ctx name e
        (argumentsAt ctx name maxCallDepth) (callEnds (scraps.flatMap Scrap.tokens)) 0 0
        (scraps.flatMap Scrap.tokens)).value :=
      hkept.again hctx he (List.forall_mem_append.mp hshape).1 0 []
    have hkeeps := hrenews.kept (hkept.scraps_ne_nil hne)
    rw [← value_sanitizeAt] at hkeeps
    rcases hkeeps with
      ⟨hnil, a, ha, hnone⟩ | ⟨ts', scraps', heq, hts', hemitted, hrenewed⟩
    · exact .inl ⟨value_sanitizeDeclaration hlower hfind
        (splitImportant_value hbang) hnil, a, List.mem_append_left _ ha, hnone⟩
    · have himportance : Renewed ctx.base (importance important)
          (importance important) := by
        cases important with
        | false => exact .nil
        | true => exact .keep rfl .nil
      refine .inr ⟨_, _, ?_, .intro important hname hlower hfind hts' hemitted,
        hrenewed.append himportance⟩
      rw [value_sanitizeDeclaration hlower hfind (splitImportant_value hbang) heq,
        if_neg (by simpa using hts')]

/-! ## Rows of lines -/

/-- What becomes of a row of lines: a line is left with what becomes of its scraps, or it
is left out with one of them. -/
inductive LinesRenew (base : Option Text) : List Line → List Line → Prop
  | nil : LinesRenew base [] []
  | keep {l : Line} {row : List Scrap} {lines lines' : List Line}
    (h : Renewed base l.row row) (hrest : LinesRenew base lines lines') :
    LinesRenew base (l :: lines) (⟨l.name, row⟩ :: lines')
  | drop {l : Line} {lines lines' : List Line} (h : ∃ a ∈ l.row, a.again? base = none)
    (hrest : LinesRenew base lines lines') : LinesRenew base (l :: lines) lines'

variable {lines lines' : List Line}

theorem LinesRenew.append (h : LinesRenew base lines lines') {more more' : List Line}
    (hmore : LinesRenew base more more') :
    LinesRenew base (lines ++ more) (lines' ++ more') := by
  induction h with
  | nil => exact hmore
  | keep hrow _ ih => exact .keep hrow ih
  | drop hlost _ ih => exact .drop hlost ih

theorem LinesRenew.eq_self (h : LinesRenew base lines lines')
    (hstays : ∀ l ∈ lines, ∀ a ∈ l.row, a.again? base = some a) : lines' = lines := by
  induction h with
  | nil => rfl
  | keep hrow _ ih =>
    obtain ⟨hl, hrest⟩ := List.forall_mem_cons.mp hstays
    rw [ih hrest, hrow.eq_self hl]
  | drop hlost =>
    obtain ⟨a, ha, hnone⟩ := hlost
    rw [hstays _ (List.mem_cons_self ..) a ha] at hnone
    cases hnone

theorem LinesRenew.length_le (h : LinesRenew base lines lines') :
    lines'.length ≤ lines.length := by
  induction h with
  | nil => exact Nat.le_refl _
  | keep _ _ ih => exact Nat.succ_le_succ ih
  | drop _ _ ih => exact Nat.le_succ_of_le ih

/-- Lines that are read back as the same declarations have scraps
whose tokens are the same. -/
theorem LinesRenew.stays_of_eq (h : LinesRenew base lines lines')
    (heq : (lines'.map fun l => (l.name, l.value)) =
      lines.map fun l => (l.name, l.value)) :
    ∀ l ∈ lines, ∀ a ∈ l.row, ∃ a', a.again? base = some a' ∧ a'.tokens = a.tokens := by
  induction h with
  | nil => exact fun l hl => absurd hl List.not_mem_nil
  | keep hrow _ ih =>
    obtain ⟨hfirst, hrest⟩ := List.cons.inj heq
    exact List.forall_mem_cons.mpr ⟨hrow.stays_of_tokens_eq (Prod.mk.inj hfirst).2,
      ih hrest⟩
  | drop _ hrest =>
    have hlength := congrArg List.length heq
    have hle := hrest.length_le
    rw [List.length_map, List.length_map, List.length_cons] at hlength
    omega

/-- What becomes of lines has no newline, and nothing in it begins
with a digit outside ASCII. -/
theorem LinesRenew.forall_mem (h : LinesRenew base lines lines')
    (hnew : ∀ l ∈ lines, ∀ t ∈ l.value, '\n' ∉ t) :
    ∀ l ∈ lines', '\n' ∉ spread true l.row ∧ ∀ t ∈ l.value, beginsForeign t = false := by
  induction h with
  | nil => exact fun l hl => absurd hl List.not_mem_nil
  | keep hrow _ ih =>
    obtain ⟨hl, hrest⟩ := List.forall_mem_cons.mp hnew
    have hall := hrow.forall_mem hl
    refine List.forall_mem_cons.mpr ⟨⟨fun hmem => ?_, fun t ht => ?_⟩, ih hrest⟩
    · obtain ⟨a, ha, hmem⟩ := (mem_spread (by decide) true _).mp hmem
      exact (hall a ha).1 hmem
    · obtain ⟨a, ha, ht⟩ := List.mem_flatMap.mp ht
      exact (hall a ha).2 t ht
  | drop _ _ ih => exact ih (List.forall_mem_cons.mp hnew).2

theorem LinesRenew.exists_name (h : LinesRenew base lines lines') :
    ∀ l' ∈ lines', ∃ l ∈ lines, l.name = l'.name := by
  induction h with
  | nil => exact fun l hl => absurd hl List.not_mem_nil
  | keep _ _ ih =>
    refine List.forall_mem_cons.mpr ⟨⟨_, List.mem_cons_self .., rfl⟩, fun l' hl' => ?_⟩
    obtain ⟨l, hl, hname⟩ := ih l' hl'
    exact ⟨l, List.mem_cons_of_mem _ hl, hname⟩
  | drop _ _ ih =>
    intro l' hl'
    obtain ⟨l, hl, hname⟩ := ih l' hl'
    exact ⟨l, List.mem_cons_of_mem _ hl, hname⟩

/-- The declarations that are left of lines that are sanitized again. -/
def Line.renewals (ctx : ValueContext) (lines : List Line) : List Declaration :=
  lines.filterMap fun l => (sanitizeDeclaration ctx l.name l.value).value

/-- The declarations that are left of lines are written as what becomes of the lines. -/
theorem exists_linesRenew (hctx : ctx.IsOpen)
    (h : ∀ l ∈ lines, (∃ d, Declared ctx Shape G d l) ∧ ∀ t ∈ l.value, Shape t) :
    ∃ lines', LinesRenew ctx.base lines lines' ∧
      List.Forall₂ (Declared ctx Shape fun _ _ => True) (Line.renewals ctx lines)
        lines' := by
  induction lines with
  | nil => exact ⟨[], .nil, .nil⟩
  | cons l lines ih =>
    obtain ⟨⟨⟨d, hd⟩, hshape⟩, hlines⟩ := List.forall_mem_cons.mp h
    obtain ⟨lines', hrenew, hdeclared⟩ := ih hlines
    rcases hd.again hctx hshape with ⟨hnone, hlost⟩ | ⟨d', row, hsome, hd', hrow⟩
    · refine ⟨lines', .drop hlost hrenew, ?_⟩
      simp only [Line.renewals, List.filterMap_cons, hnone]
      exact hdeclared
    · refine ⟨⟨l.name, row⟩ :: lines', .keep hrow hrenew, ?_⟩
      simp only [Line.renewals, List.filterMap_cons, hsome]
      exact .cons hd' hdeclared

theorem render_eq_of_declared (hctx : ctx.IsPlain) {ds : List Declaration}
    (h : List.Forall₂ (Declared ctx Shape G) ds lines) :
    ds.flatMap Declaration.render = lines.flatMap Line.text := by
  induction h with
  | nil => rfl
  | cons hd _ ih =>
    rw [List.flatMap_cons, List.flatMap_cons, ih, hd.render_eq hctx fun _ hs => hs]

theorem exists_of_mem_declared {ds : List Declaration}
    (h : List.Forall₂ (Declared ctx Shape G) ds lines) :
    (∀ d ∈ ds, ∃ l ∈ lines, Declared ctx Shape G d l) ∧
      ∀ l ∈ lines, ∃ d, Declared ctx Shape G d l := by
  induction h with
  | nil =>
    exact ⟨fun d hd => absurd hd List.not_mem_nil, fun l hl => absurd hl List.not_mem_nil⟩
  | cons hd _ ih =>
    refine ⟨List.forall_mem_cons.mpr ⟨⟨_, List.mem_cons_self .., hd⟩, fun d' hd' => ?_⟩,
      List.forall_mem_cons.mpr ⟨⟨_, hd⟩, ih.2⟩⟩
    obtain ⟨l, hl, hdeclared⟩ := ih.1 d' hd'
    exact ⟨l, List.mem_cons_of_mem _ hl, hdeclared⟩

end CssGuard
