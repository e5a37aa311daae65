import CssGuard.Proofs.Consultations
import CssGuard.Proofs.Sheet.Structure

/-!
# URLs in sanitized sheets and style attributes

No URL gets into a sanitized sheet or style attribute but through the policy: each URL
token is complete, and holds the escaped form of a URL that the policy returned, with
no scheme or a harmless one.

- `OnlyGrantedUrls`: what is said of the URLs of a result
- `Emitted.granted_of_mem`: the URLs among the scraps of a value were granted
- `exists_lines_collectDeclarations`: a sanitized style attribute is a row of lines
- `onlyGrantedUrls_sanitize`: the URLs of sanitized sheets and style attributes
-/

namespace CssGuard

open Text

/-- The token is a complete URL token, and inside it is the escaped form of a URL that the
policy returned when it was asked, during the run with the given trace, for a property of
the schema. The scheme of what is inside is harmless. -/
def IsGrantedUrl (schema : Schema) (policy : Option Url.Policy) (trace : Trace)
    (t : Token) : Prop :=
  ∃ ask body uri user granted, policy = some ask ∧
    t = "url(\"" ++ body ++ "\")" ∧ t.urlBody? = some body ∧
    .consulted uri user ∈ trace ∧ user ∈ schema.names ∧ ask uri user = some granted ∧
    Escape.decode body = Url.escape granted ∧
    ∀ scheme ∈ Url.scheme? (Escape.decode body), scheme ∈ Url.harmlessSchemes

/-- Every token that begins like a URL is one that the policy granted, the policy is asked
about harmless URLs only, and without a policy there is no such token. -/
structure OnlyGrantedUrls (schema : Schema) (policy : Option Url.Policy)
    (out : Traced Text) : Prop where
  granted : ∀ t ∈ (lex out.value).value, t.beginsUrl →
    IsGrantedUrl schema policy out.trace t
  asked : ∀ uri user, .consulted uri user ∈ out.trace → Url.isHarmless uri
  refused : policy = none → ∀ t ∈ (lex out.value).value, ¬ t.beginsUrl

/-! ## Values and lines -/

variable {ctx : ValueContext} {S : Token → Prop} {G : Text → Prop}

theorem Scrap.ofText_ne_url (t uri : Text) : Scrap.ofText t ≠ .url uri := by
  unfold Scrap.ofText
  split
  · intro h
    cases h
  · intro h
    cases h

theorem Atom.granted {e : Entry} {uri : Text} (h : Atom ctx S G e (.url uri)) :
    ∃ granted, G granted ∧ uri = Url.escape granted := by
  generalize ha : Scrap.url uri = a at h
  cases h with
  | url hgrant => exact ⟨_, hgrant, Scrap.url.inj ha⟩
  | quantity => exact absurd ha.symm (Scrap.ofText_ne_url _ _)
  | name => exact absurd ha.symm (Scrap.ofText_ne_url _ _)
  | _ => cases ha

/-- The URLs among the scraps of a value were granted. -/
theorem Emitted.granted_of_mem {levels : Nat} {e : Entry} {ts : List Token}
    {scraps : List Scrap} (h : Emitted ctx S G levels e ts scraps) {uri : Text}
    (hmem : Scrap.url uri ∈ scraps) :
    ∃ granted, G granted ∧ uri = Url.escape granted := by
  induction h with
  | nil => cases hmem
  | atom ha _ ih =>
    rcases List.mem_cons.mp hmem with heq | hmem
    · rw [← heq] at ha
      exact ha.granted
    · exact ih hmem
  | call _ _ _ _ _ _ _ ihinner ih =>
    rcases List.mem_append.mp hmem with hmem | hmem
    · rcases List.mem_cons.mp hmem with heq | hmem
      · cases heq
      · exact ihinner hmem
    · rcases List.mem_cons.mp hmem with heq | hmem
      · cases heq
      · exact ih hmem

theorem Declared.granted_of_mem {G : Text → Text → Prop} {d : Declaration} {l : Line}
    (h : Declared ctx S G d l) {uri : Text} (hmem : Scrap.url uri ∈ l.row) :
    ∃ granted, G l.name granted ∧ uri = Url.escape granted := by
  cases h with
  | intro important _ _ _ _ hkept =>
    refine hkept.granted_of_mem ((List.mem_append.mp hmem).resolve_right fun hmem => ?_)
    cases important with
    | false => cases hmem
    | true => cases List.mem_singleton.mp hmem

variable {T : Trace}

theorem isGrantedUrl_of_granted {policy : Option Url.Policy} {schema : Schema}
    {user granted : Text} (huser : user ∈ schema.names)
    (h : Granted policy T user granted) :
    IsGrantedUrl schema policy T ("url(" ++ Escape.quote (Url.escape granted) ++
      ")") := by
  obtain ⟨ask, uri, hpolicy, hmem, hask, hharmless⟩ := h
  have hnul : '\x00' ∉ Url.escape granted := fun hnul =>
    absurd (Url.not_isSpecial_of_mem_escape hnul) (by decide)
  have hdecode := Escape.decode_escapeString hnul
  have htoken : "url(".toList ++ Escape.quote (Url.escape granted) ++ ")".toList =
      "url(\"".toList ++ Escape.escapeString (Url.escape granted) ++ "\")".toList := by
    simp [Escape.quote]
  refine ⟨ask, _, uri, user, granted, hpolicy, htoken, urlBody?_quote _, hmem, huser,
    hask, hdecode, ?_⟩
  intro scheme hscheme
  have hall := Url.harmless_scheme?_escape hharmless
  rw [← hdecode, hscheme] at hall
  exact of_decide_eq_true hall

/-- What begins like a URL in a line was granted. -/
theorem Line.HasOrigin.isGrantedUrl (hctx : ctx.IsPlain) {l : Line}
    (h : l.HasOrigin ctx T) :
    ∀ t ∈ l.tokens, t.beginsUrl → IsGrantedUrl ctx.schema ctx.policy T t := by
  have hlegible := h.isLegible hctx
  intro t ht hurl
  rcases List.mem_append.mp ht with ht | ht
  · rcases List.mem_cons.mp ht with rfl | ht
    · exact absurd hurl
        (Token.not_beginsUrl (isBareName_of_isPlainIdent hlegible.name).not_paren_mem)
    rcases List.mem_cons.mp ht with rfl | ht
    · exact absurd hurl (by decide)
    rcases mem_spreadTokens (mem_squeeze ht) with rfl | ⟨a, ha, ht⟩
    · exact absurd hurl (by decide)
    obtain ⟨uri, rfl⟩ := (hlegible.row a ha).url t ht hurl
    have hname := h.mem_names
    obtain ⟨d, hd⟩ := h
    obtain ⟨granted, hgranted, rfl⟩ := hd.granted_of_mem ha
    rw [List.mem_singleton.mp ht]
    exact isGrantedUrl_of_granted hname hgranted
  · rw [List.mem_singleton.mp ht] at hurl
    exact absurd hurl (by decide)

/-- Without a policy nothing is granted. -/
theorem onlyGrantedUrls {schema : Schema} {policy : Option Url.Policy} {out : Traced Text}
    (hgranted : ∀ t ∈ (lex out.value).value, t.beginsUrl →
      IsGrantedUrl schema policy out.trace t)
    (hasks : out.Asks (IsFairQuestion schema)) : OnlyGrantedUrls schema policy out where
  granted := hgranted
  asked uri user h := (hasks _ h).1
  refused hpolicy t ht hurl := by
    obtain ⟨ask, _, _, _, _, hask, -⟩ := hgranted t ht hurl
    rw [hpolicy] at hask
    cases hask

/-! ## Sheets -/

/-- What begins like a URL in an item was granted. -/
theorem Item.IsSound.isGrantedUrl {ctx : SheetContext} (hctx : ctx.IsStandard)
    {item : Item} (h : item.IsSound ctx T) :
    ∀ t ∈ item.tokens ctx.confinement, t.beginsUrl →
    IsGrantedUrl ctx.schema ctx.policy T t := by
  have hmark : ∀ t ∈ [Item.mediaKeyword, Token.openBrace, Token.closeBrace],
    ¬ t.beginsUrl := by decide
  intro t ht hurl
  cases item with
  | opening queries =>
    rcases List.mem_append.mp ht with ht | ht
    · rcases List.mem_cons.mp ht with rfl | ht
      · exact absurd hurl (hmark _ (by decide))
      · exact absurd hurl (Item.not_of_mem_header h.valid.2 t ht).2
    · rw [List.mem_singleton.mp ht] at hurl
      exact absurd hurl (hmark _ (by decide))
  | closing =>
    rw [List.mem_singleton.mp ht] at hurl
    exact absurd hurl (hmark _ (by decide))
  | rule selectors lines =>
    obtain ⟨⟨-, hselectors⟩, -, hlines⟩ := h.valid
    rcases List.mem_append.mp ht with ht | ht
    · rcases List.mem_append.mp ht with ht | ht
      · have hfits := fits_listReading hselectors
        exact absurd hurl (not_of_fits hfits t (mem_squeeze ht)).2.2
      · rcases List.mem_cons.mp ht with rfl | ht
        · exact absurd hurl (hmark _ (by decide))
        · obtain ⟨l, hl, ht⟩ := List.mem_flatMap.mp ht
          exact (hlines l hl).isGrantedUrl hctx.values t ht hurl
    · rw [List.mem_singleton.mp ht] at hurl
      exact absurd hurl (hmark _ (by decide))

theorem onlyGrantedUrls_sanitizeSheet {ctx : SheetContext} (hctx : ctx.IsStandard)
    (css : Text) : OnlyGrantedUrls ctx.schema ctx.policy (sanitizeSheet ctx css) := by
  obtain ⟨items, hsound, -, hlex, -⟩ := exists_items_read hctx css
  refine onlyGrantedUrls (fun t ht hurl => ?_) (asks_sanitizeSheet ctx css)
  rw [hlex] at ht
  obtain ⟨item, hitem, ht⟩ := List.mem_flatMap.mp ht
  exact (hsound item hitem).isGrantedUrl hctx t ht hurl

/-! ## Style attributes -/

theorem exists_lines_declarationText (hctx : ctx.IsPlain) {signal : Signal}
    (hsignal : signal.Declares Shape) (hT : (declarationText ctx signal).trace ⊆ T) :
    ∃ lines : List Line, (declarationText ctx signal).value = lines.flatMap Line.text ∧
      ∀ l ∈ lines, l.HasOrigin ctx T := by
  have hnothing : ∃ lines : List Line, ([] : Text) = lines.flatMap Line.text ∧
      ∀ l ∈ lines, l.HasOrigin ctx T := ⟨[], rfl, fun _ h => absurd h List.not_mem_nil⟩
  cases signal with
  | issue cause => exact hnothing
  | event e =>
    cases e with
    | declaration name value =>
      obtain ⟨⟨raw, hraw, rfl⟩, hvalue, -⟩ := hsignal
      rw [declarationText, Traced.trace_bind, List.append_subset] at hT
      rw [declarationText, Traced.value_bind, Traced.value_pure]
      cases hd : (sanitizeDeclaration ctx (lower raw) value).value with
      | none => exact hnothing
      | some d =>
        obtain ⟨l, hl⟩ :=
          declared_of_sanitizeDeclaration hctx (fun _ h => h) hraw hvalue hT.1 hd
        refine ⟨[l], ?_, List.forall_mem_singleton.mpr ⟨d, hl⟩⟩
        rw [List.flatMap_singleton, ← hl.render_eq hctx fun _ h => h]
        exact List.flatMap_singleton ..
    | _ => exact hnothing

/-- A sanitized style attribute is a row of lines. -/
theorem exists_lines_collectDeclarations (hctx : ctx.IsPlain) {tokens : List Token}
    (htokens : ∀ t ∈ tokens, Shape t) (hT : (collectDeclarations ctx tokens).trace ⊆ T) :
    ∃ lines : List Line,
      (collectDeclarations ctx tokens).value = lines.flatMap Line.text ∧
      ∀ l ∈ lines, l.HasOrigin ctx T := by
  have hsignals := declares_of_mem_declarationSignals htokens
  rw [collectDeclarations, Traced.trace_bind, List.append_subset] at hT
  rw [collectDeclarations, Traced.value_bind, Traced.value_pure]
  replace hT := hT.1
  generalize declarationSignals tokens = signals at hsignals hT
  induction signals with
  | nil => exact ⟨[], rfl, fun _ h => absurd h List.not_mem_nil⟩
  | cons signal signals ih =>
    obtain ⟨hsignal, hrest⟩ := List.forall_mem_cons.mp hsignals
    rw [Traced.collect, Traced.trace_bind, Traced.trace_bind, List.append_subset,
      List.append_subset] at hT
    obtain ⟨lines, htext, horigin⟩ := exists_lines_declarationText hctx hsignal hT.1
    obtain ⟨lines', htext', horigin'⟩ := ih hrest hT.2.1
    refine ⟨lines ++ lines', ?_, fun l hl => ?_⟩
    · rw [Traced.collect, Traced.value_bind, Traced.value_bind, Traced.value_pure,
        List.flatten_cons, htext, htext', List.flatMap_append]
    · exact (List.mem_append.mp hl).elim (horigin l) (horigin' l)

theorem onlyGrantedUrls_collectDeclarations (hctx : ctx.IsPlain) (css : Text) :
    OnlyGrantedUrls ctx.schema ctx.policy (lex css >>= collectDeclarations ctx) := by
  obtain ⟨lines, htext, horigin⟩ := exists_lines_collectDeclarations hctx
    (fun t ht => shape_of_mem_lex ht) (List.subset_append_right (lex css).trace _)
  have hlexes := lexes_flatMap fun l hl => ((horigin l hl).isLegible hctx).lexes
  refine onlyGrantedUrls (fun t ht hurl => ?_)
    ((asks_lex css).bind (asks_collectDeclarations ctx _))
  rw [Traced.value_bind, htext, hlexes.lex_eq] at ht
  obtain ⟨l, hl, ht⟩ := List.mem_flatMap.mp ((List.dropWhile_sublist _).subset ht)
  exact (horigin l hl).isGrantedUrl hctx t ht hurl

/-- A configuration of style attributes with the standard schema, in which
global names are dropped. -/
def AttributeSettings.standard (policy : Option Url.Policy) (base : Option Text) :
    AttributeSettings where
  policy := Hook.ofOption policy
  base := base
  idSuffix := none

theorem sanitizeStyleAttribute_standard (policy : Option Url.Policy) (base : Option Text)
    (css : Text) :
    sanitizeStyleAttribute (.standard policy base) css =
      .ok (lex css >>= collectDeclarations ⟨policy, base, defaultSchema, none⟩) := by
  unfold AttributeSettings.standard
  cases policy with
  | none => rfl
  | some ask => rfl

/-- Whatever sheet or style attribute is sanitized, with whatever policy and base:
no URL is in the result that the policy did not return, and all of them have no
scheme or a harmless one. -/
theorem onlyGrantedUrls_sanitize (c : Confinement) (policy : Option Url.Policy)
    (base : Option Text) (css : Text) :
    (∃ out, sanitizeStylesheet (.standard c policy base) css = .ok out ∧
      OnlyGrantedUrls defaultSchema policy out) ∧
    ∃ out, sanitizeStyleAttribute (.standard policy base) css = .ok out ∧
      OnlyGrantedUrls defaultSchema policy out := by
  constructor
  · refine ⟨_, sanitizeStylesheet_standard c policy base css, ?_⟩
    have hurls := onlyGrantedUrls_sanitizeSheet (isStandard_standard c policy base) css
    rw [SheetContext.schema_standard] at hurls
    exact hurls
  · have hplain : ValueContext.IsPlain ⟨policy, base, defaultSchema, none⟩ :=
      ⟨isPlain_of_mem_defaultSchema, fun _ h => by cases h⟩
    exact ⟨_, sanitizeStyleAttribute_standard policy base css,
      onlyGrantedUrls_collectDeclarations hplain css⟩

end CssGuard
