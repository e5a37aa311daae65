import CssGuard.Proofs.Lexer.TokenTests
import CssGuard.Proofs.Value.Scraps
import CssGuard.Proofs.Value.Tree

/-!
# What a sanitized value is made of

Every token of a sanitized value has its origin: a source token of a certain form under an
entry that permits it, a URL that the policy granted, or a call of a permitted function.
`Emitted` is the record of these origins, together with the scraps that the value is
written as.

- `Granted`: the policy returned a URL when it was asked
- `Atom`: the origin of a scrap that belongs to no call
- `Emitted`: the origins of the tokens of a value, calls included
- `emitted_sanitizeAt`: the tokens of a sanitized value have these origins
-/

namespace CssGuard

open Text Escape

/-- The policy was asked about a URL used by `user` and
returned the harmless URL `uri`. -/
def Granted (policy : Option Url.Policy) (trace : Trace) (user uri : Text) : Prop :=
  ∃ ask asked, policy = some ask ∧ .consulted asked user ∈ trace ∧
    ask asked user = some uri ∧ Url.isHarmless uri

/-- A text as a scrap; a final newline is set apart. -/
def Scrap.ofText (t : Text) : Scrap :=
  if t.getLast? = some '\n' then .line t.dropLast else .plain t

theorem Scrap.text_ofText (t : Text) : (Scrap.ofText t).text = t := by
  unfold Scrap.ofText
  split
  · rename_i hlast
    obtain ⟨front, rfl⟩ := List.getLast?_eq_some_iff.mp hlast
    rw [List.dropLast_concat]
    rfl
  · rfl

theorem Scrap.text_url_escape (uri : Text) :
    (Scrap.url (Url.escape uri)).text = Url.token uri := by
  show ['u', 'r', 'l', '(', '"'] ++ Url.escape uri ++ ['"', ')'] =
    "url(\"".toList ++ Url.escape uri ++ "\")".toList
  simp

/-! ## Origins -/

/-- The origin of a scrap that belongs to no call: a source token, of those that satisfy
`S`, and what the entry permits, or a URL that satisfies `G`. -/
inductive Atom (ctx : ValueContext) (S : Token → Prop) (G : Text → Prop) (e : Entry) :
    Scrap → Prop
  | keyword {raw : Token} (hraw : S raw) (hform : Form.of e raw = .keyword) :
    Atom ctx S G e (.plain (lower raw))
  | color {raw : Token} (hraw : S raw) (hform : Form.of e raw = .color)
    (hentry : e.allows .hashColor) : Atom ctx S G e (.plain (lower raw))
  | quantity {raw t : Token} (hraw : S raw) (hform : Form.of e raw = .quantity)
    (hnormal : normalQuantity? e (lower raw) = some t) : Atom ctx S G e (Scrap.ofText t)
  | name {raw : Token} {suffix : Text} (hraw : S raw) (hform : Form.of e raw = .name)
    (hentry : e.allows .propertyName = false) (hsuffix : ctx.idSuffix = some suffix) :
    Atom ctx S G e (Scrap.ofText (raw ++ suffix))
  | property {raw : Token} (hraw : S raw) (hform : Form.of e raw = .name)
    (hentry : e.allows .propertyName) (hglobal : e.allows .globalName = false)
    (hfind : (ctx.schema.find? (lower raw)).isSome) : Atom ctx S G e (.plain (lower raw))
  | string {raw : Token} {body : Text} (hraw : S raw)
    (hform : Form.of e raw = .string (some body))
    (hurl : (e.allows .url && !e.allows .unreservedWord) = false)
    (hentry : e.allows .quotedString && !(e.allows .url && e.allows .unreservedWord)) :
    Atom ctx S G e (.plain (quote (decode body)))
  | words {ws : List Token} (hws : ∀ raw ∈ ws, S raw ∧ Form.of e raw = .word)
    (hne : ws ≠ []) : Atom ctx S G e (.plain (quoteWords (joined [' '] (ws.map lower))))
  | url {uri : Text} (hgrant : G uri) (hentry : e.allows .url)
    (hpolicy : ctx.policy.isSome) : Atom ctx S G e (.url (Url.escape uri))

/-- The origins of the tokens of a value under an entry, with calls nested at most
`levels` deep, and the scraps that the tokens are written as. -/
inductive Emitted (ctx : ValueContext) (S : Token → Prop) (G : Text → Prop) :
    Nat → Entry → List Token → List Scrap → Prop
  | nil {levels : Nat} {e : Entry} : Emitted ctx S G levels e [] []
  | atom {levels : Nat} {e : Entry} {a : Scrap} {ts : List Token} {scraps : List Scrap}
    (ha : Atom ctx S G e a) (h : Emitted ctx S G levels e ts scraps) :
    Emitted ctx S G levels e (a.text :: ts) (a :: scraps)
  | call {levels : Nat} {e f : Entry} {raw : Token} {n : Text} {args ts : List Token}
    {inner scraps : List Scrap} (hraw : S raw) (hlower : lower raw = n ++ ['('])
    (hform : Form.of e raw = .call)
    (hfunction : ctx.schema.function? e (withoutVendor n) = some f) (hargs : args ≠ [])
    (hinner : Emitted ctx S G levels f args inner)
    (h : Emitted ctx S G (levels + 1) e ts scraps) :
    Emitted ctx S G (levels + 1) e ((n ++ ['('] ++ joinValue args ++ [')']) :: ts)
      (.plain (n ++ ['(']) :: inner ++ .plain Token.closeParen :: scraps)

variable {ctx : ValueContext} {S : Token → Prop} {G : Text → Prop}

theorem Emitted.append {levels : Nat} {e : Entry} {ts us : List Token}
    {scraps scraps' : List Scrap} (h : Emitted ctx S G levels e ts scraps)
    (h' : Emitted ctx S G levels e us scraps') :
    Emitted ctx S G levels e (ts ++ us) (scraps ++ scraps') := by
  induction h with
  | nil => exact h'
  | atom ha _ ih => exact .atom ha (ih h')
  | call hraw hlower hform hfunction hargs hinner _ _ ih =>
    have := Emitted.call hraw hlower hform hfunction hargs hinner (ih h')
    simpa only [List.cons_append, List.append_assoc] using this

theorem Emitted.single {levels : Nat} {e : Entry} {a : Scrap} (ha : Atom ctx S G e a) :
    Emitted ctx S G levels e [a.text] [a] :=
  .atom ha .nil

theorem Emitted.scraps_ne_nil {levels : Nat} {e : Entry} {ts : List Token}
    {scraps : List Scrap} (h : Emitted ctx S G levels e ts scraps) (hne : ts ≠ []) :
    scraps ≠ [] := by
  cases h with
  | nil => exact absurd rfl hne
  | atom => exact List.cons_ne_nil _ _
  | call => exact List.cons_ne_nil _ _

/-! ## The form of a token -/

/-- What a form says about a token. -/
def Form.Says (e : Entry) (raw : Token) : Form → Prop
  | .blank => (lower raw).isEmpty ∨ (lower raw).head? = some ' '
  | .string body => raw.stringBody? = body
  | .keyword => lower raw = "inherit" ∨ withoutVendor (lower raw) ∈ e.literals
  | .color => isHashColor (lower raw)
  | .quantity => beginsQuantity (lower raw)
  | .url body => raw.urlBody? = body
  | .call => Token.opensParen (lower raw)
  | .name => e.takesNames ∧ isName (lower raw)
  | .word => e.takesWords ∧ isWord (lower raw)
  | .other => True

theorem Form.says_of (e : Entry) (raw : Token) : Form.Says e raw (Form.of e raw) := by
  unfold Form.of Form.ofLower
  refine iteInduction (fun h => ?_) fun _ => ?_
  · exact (Bool.or_eq_true_iff.mp h).imp_right of_decide_eq_true
  refine iteInduction (fun h => rfl) fun _ => ?_
  refine iteInduction (fun h => ?_) fun _ => ?_
  · exact (Bool.or_eq_true_iff.mp h).imp of_decide_eq_true of_decide_eq_true
  refine iteInduction (fun h => h) fun _ => ?_
  refine iteInduction (fun h => h) fun _ => ?_
  refine iteInduction (fun h => rfl) fun _ => ?_
  refine iteInduction (fun h => h) fun _ => ?_
  refine iteInduction (fun h => ?_) fun _ => ?_
  · exact Bool.and_eq_true_iff.mp (Bool.and_eq_true_iff.mp h).1
  refine iteInduction (fun h => ?_) fun _ => trivial
  exact Bool.and_eq_true_iff.mp h

theorem Form.says_of_eq {e : Entry} {raw : Token} {form : Form}
    (h : Form.of e raw = form) : Form.Says e raw form :=
  h ▸ Form.says_of e raw

/-! ## What is kept of a token -/

/-- The text is made of words of the source, with a space between them. -/
def IsRowOfWords (S : Token → Prop) (e : Entry) (text : Text) : Prop :=
  ∃ ws, ws ≠ [] ∧ (∀ raw ∈ ws, S raw ∧ Form.of e raw = .word) ∧
    text = joined [' '] (ws.map lower)

theorem mem_joined {sep : Text} {c : Char} (hc : c ∉ sep) (ts : List Text) :
    c ∈ joined sep ts ↔ ∃ t ∈ ts, c ∈ t := by
  induction ts with
  | nil => simp [joined]
  | cons t ts ih =>
    cases ts with
    | nil => simp [joined]
    | cons u ts =>
      rw [joined, List.mem_append, List.mem_append, ih, or_iff_left hc]
      · simp
      · simp

theorem joined_concat {sep : Text} {ts : List Text} (hne : ts ≠ []) (t : Text) :
    joined sep (ts ++ [t]) = joined sep ts ++ sep ++ t := by
  induction ts with
  | nil => exact absurd rfl hne
  | cons u ts ih =>
    cases ts with
    | nil => rfl
    | cons v ts =>
      have hcons : ∀ ts, joined sep (u :: v :: ts) = u ++ sep ++ joined sep (v :: ts) :=
        fun _ => rfl
      rw [List.cons_append, List.cons_append, hcons, hcons, ← List.cons_append,
        ih (List.cons_ne_nil _ _)]
      simp only [List.append_assoc]

/-- The origin of a piece of a value. -/
def Piece.HasOrigin (ctx : ValueContext) (S : Token → Prop) (G : Text → Prop)
    (levels : Nat) (e : Entry) : Piece → Prop
  | .token t => ∃ scraps, Emitted ctx S G levels e [t] scraps
  | .word w => ∃ raw, S raw ∧ Form.of e raw = .word ∧ w = lower raw

theorem hasOrigin_of_atom {levels : Nat} {e : Entry} {a : Scrap} (ha : Atom ctx S G e a) :
    Piece.HasOrigin ctx S G levels e (.token a.text) :=
  ⟨[a], .single ha⟩

theorem forall_mem_ofOption {P : Piece → Prop} {o : Option Token}
    (h : ∀ t, o = some t → P (.token t)) : ∀ p ∈ (Draft.ofOption o).pieces, P p := by
  cases o with
  | none => intro p hp; cases hp
  | some t => exact List.forall_mem_singleton.mpr (h t rfl)

/-- The words kept of one token or more are put between quotes. -/
theorem emitted_coalesce {levels : Nat} {e : Entry} {pieces : List Piece}
    (h : ∀ p ∈ pieces, p.HasOrigin ctx S G levels e) :
    ∀ {pending : Option Text}, (∀ text ∈ pending, IsRowOfWords S e text) →
      ∃ scraps, Emitted ctx S G levels e (coalesce pending pieces) scraps := by
  have hquote : ∀ {pending : Option Text}, (∀ text ∈ pending, IsRowOfWords S e text) →
      ∃ scraps, Emitted ctx S G levels e (pending.map quoteWords).toList scraps := by
    intro pending hpending
    cases pending with
    | none => exact ⟨[], .nil⟩
    | some text =>
      obtain ⟨ws, hne, hws, rfl⟩ := hpending text rfl
      exact ⟨_, .single (.words hws hne)⟩
  induction pieces with
  | nil => exact fun {_} hpending => hquote hpending
  | cons p pieces ih =>
    intro pending hpending
    have hrest := @ih fun p hp => h p (List.mem_cons_of_mem _ hp)
    cases p with
    | token t =>
      -- a token ends the row of words before it
      obtain ⟨scraps₁, h₁⟩ := hquote hpending
      obtain ⟨scraps₂, h₂⟩ := h _ (List.mem_cons_self ..)
      obtain ⟨scraps₃, h₃⟩ := @hrest none (by simp)
      exact ⟨_, h₁.append (h₂.append h₃)⟩
    | word w =>
      obtain ⟨raw, hraw, hform, rfl⟩ := h _ (List.mem_cons_self ..)
      -- a word goes on with the row, or begins one
      refine hrest ?_
      rintro text ⟨⟩
      cases pending with
      | none => exact ⟨[raw], by simp, by simp [hraw, hform], rfl⟩
      | some words =>
        obtain ⟨ws, hne, hws, rfl⟩ := hpending words rfl
        refine ⟨ws ++ [raw], by simp, List.forall_mem_append.mpr ⟨hws,
          by simp [hraw, hform]⟩, ?_⟩
        rw [List.map_append, List.map_singleton, joined_concat (by simpa using hne),
          List.append_assoc]
        rfl

section Spec

variable {T : Trace} {property : Text} {levels : Nat} {e : Entry}

theorem hasOrigin_keepUrl {body : Text} (hentry : e.allows .url)
    (hpolicy : ctx.policy.isSome) (hT : (keepUrl ctx property body).trace ⊆ T) :
    ∀ p ∈ (keepUrl ctx property body).value.pieces,
      p.HasOrigin ctx S (Granted ctx.policy T property) levels e := by
  unfold keepUrl at hT ⊢
  simp only [Traced.value_bind, Traced.trace_bind, List.append_subset] at hT ⊢
  split
  · rename_i uri haccept
    obtain ⟨ask, hask, hgiven, hgood, htrace⟩ := Url.granted_of_accept haccept
    rw [htrace] at hT
    refine List.forall_mem_singleton.mpr ?_
    rw [← Scrap.text_url_escape]
    exact hasOrigin_of_atom (.url ⟨ask, _, hask, hT.1 (List.mem_singleton.mpr rfl),
      hgiven, hgood⟩ hentry hpolicy)
  · exact fun p hp => absurd hp (List.not_mem_nil)

theorem hasOrigin_keepForm {raw : Token} (hraw : S raw)
    (hT : (keepForm ctx property e raw (Form.of e raw)).trace ⊆ T) :
    ∀ p ∈ (keepForm ctx property e raw (Form.of e raw)).value.pieces,
      p.HasOrigin ctx S (Granted ctx.policy T property) levels e := by
  have hempty : ∀ p ∈ (pure Draft.empty : Traced Draft).value.pieces,
      p.HasOrigin ctx S (Granted ctx.policy T property) levels e :=
    fun p hp => absurd hp List.not_mem_nil
  cases hform : Form.of e raw with
  | string body =>
    rw [hform] at hT
    cases body with
    | none => exact hempty
    | some body =>
      rw [keepForm] at hT ⊢
      -- a string is a URL where URLs are permitted and words are not
      by_cases hurl : e.allows .url && !e.allows .unreservedWord
      · rw [if_pos hurl] at hT ⊢
        split
        · rename_i hpolicy
          rw [if_pos hpolicy] at hT
          exact hasOrigin_keepUrl (Bool.and_eq_true_iff.mp hurl).1 hpolicy hT
        · exact hempty
      · rw [if_neg hurl]
        split
        · rename_i hentry
          exact List.forall_mem_singleton.mpr
            (hasOrigin_of_atom (.string hraw hform (Bool.not_eq_true _ ▸ hurl) hentry))
        · exact hempty
  | keyword =>
    exact List.forall_mem_singleton.mpr (hasOrigin_of_atom (.keyword hraw hform))
  | color =>
    rw [keepForm]
    rw [Traced.value_pure]
    split
    · rename_i hentry
      exact List.forall_mem_singleton.mpr (hasOrigin_of_atom (.color hraw hform hentry))
    · exact hempty
  | quantity =>
    refine forall_mem_ofOption fun t ht => ?_
    rw [← Scrap.text_ofText t]
    exact hasOrigin_of_atom (.quantity hraw hform ht)
  | url body =>
    rw [hform] at hT
    cases body with
    | none => exact hempty
    | some body =>
      rw [keepForm] at hT ⊢
      split
      · rename_i h
        rw [if_pos h] at hT
        obtain ⟨hentry, hpolicy⟩ := Bool.and_eq_true_iff.mp h
        exact hasOrigin_keepUrl hentry hpolicy hT
      · exact hempty
  | name =>
    rw [keepForm]
    split
    · rename_i hentry
      refine forall_mem_ofOption fun t ht => ?_
      obtain ⟨suffix, hsuffix, rfl⟩ := Option.map_eq_some_iff.mp ht
      have := Atom.name (G := Granted ctx.policy T property) hraw hform
        (by simpa using hentry) hsuffix
      rw [← Scrap.text_ofText (raw ++ suffix)]
      exact hasOrigin_of_atom this
    · rename_i hentry
      split
      · rename_i h
        obtain ⟨hglobal, hfind⟩ := Bool.and_eq_true_iff.mp h
        exact List.forall_mem_singleton.mpr (hasOrigin_of_atom
          (.property hraw hform (by simpa using hentry) (by simpa using hglobal) hfind))
      · exact hempty
  | word => exact List.forall_mem_singleton.mpr ⟨raw, hraw, hform, rfl⟩
  | blank => exact hempty
  | call => exact hempty
  | other => exact hempty

theorem trace_keepForm_subset (ctx : ValueContext) (property : Text) (e : Entry)
    (raw : Token) :
    (keepForm ctx property e raw (Form.of e raw)).trace ⊆
    (keep ctx property e raw).trace := by
  rw [trace_keep]
  exact List.subset_append_left ..

theorem hasOrigin_keep {raw : Token} (hraw : S raw)
    (hT : (keep ctx property e raw).trace ⊆ T) :
    ∀ p ∈ (keep ctx property e raw).value.pieces,
      p.HasOrigin ctx S (Granted ctx.policy T property) levels e := by
  rw [value_keep]
  exact hasOrigin_keepForm hraw (List.Subset.trans (trace_keepForm_subset ..) hT)

/-- The arguments of calls are sanitized into tokens that have their origins. -/
def EmitsArguments (ctx : ValueContext) (S : Token → Prop) (T : Trace) (property : Text)
    (levels : Nat) : Option SanitizeArguments → Prop
  | none => True
  | some inner => ∃ below, levels = below + 1 ∧ ∀ f args, (∀ t ∈ args, S t) →
      (inner f args).trace ⊆ T →
      ∃ scraps, Emitted ctx S (Granted ctx.policy T property) below f
        (inner f args).value.tokens scraps

theorem hasOrigin_keepCall {inner : Option SanitizeArguments}
    (hinner : EmitsArguments ctx S T property levels inner) {raw : Token}
    {args : List Token} (hraw : S raw) (hform : Form.of e raw = .call)
    (hargs : ∀ t ∈ args, S t)
    (hT : (keepCall ctx property e inner (lower raw) args).trace ⊆ T) :
    ∀ p ∈ (keepCall ctx property e inner (lower raw) args).value.pieces,
      p.HasOrigin ctx S (Granted ctx.policy T property) levels e := by
  obtain ⟨n, hn⟩ :=
    List.getLast?_eq_some_iff.mp (of_decide_eq_true (Form.says_of_eq hform))
  cases inner with
  | none => exact fun p hp => absurd hp List.not_mem_nil
  | some inner =>
    obtain ⟨below, rfl, hinner⟩ := hinner
    rw [keepCall, hn, List.dropLast_concat] at hT ⊢
    cases hf : ctx.schema.function? e (withoutVendor n) with
    | none => exact fun p hp => absurd hp List.not_mem_nil
    | some f =>
      simp only [hf, Traced.trace_bind, Traced.value_bind, List.append_subset] at hT ⊢
      obtain ⟨scraps, hscraps⟩ := hinner f args hargs hT.1
      split
      · exact fun p hp => absurd hp List.not_mem_nil
      split
      · exact fun p hp => absurd hp List.not_mem_nil
      · rename_i hne
        have hne : (inner f args).value.tokens ≠ [] := by simpa using hne
        exact List.forall_mem_singleton.mpr ⟨_, .call hraw hn hform hf hne hscraps .nil⟩

theorem hasOrigin_sanitizeFrom {inner : Option SanitizeArguments}
    (hinner : EmitsArguments ctx S T property levels inner) {ends : List (Nat × Nat)}
    {ts : List Token} (hts : ∀ t ∈ ts, S t) : ∀ {place skip : Nat},
      (sanitizeFrom ctx property e inner ends place skip ts).trace ⊆ T →
      ∀ p ∈ (sanitizeFrom ctx property e inner ends place skip ts).value.pieces,
        p.HasOrigin ctx S (Granted ctx.policy T property) levels e := by
  induction ts with
  | nil => exact fun _ p hp => absurd hp List.not_mem_nil
  | cons raw rest ih =>
    obtain ⟨hraw, hrest⟩ := List.forall_mem_cons.mp hts
    have ih := @ih hrest
    intro place skip hT
    cases skip with
    -- the tokens of a call that was dealt with are skipped
    | succ skip => exact ih hT
    | zero =>
      unfold sanitizeFrom at hT ⊢
      split
      · rename_i hform
        rw [if_pos hform] at hT
        split
        · exact fun p hp => absurd hp List.not_mem_nil
        · rename_i close hclose
          simp only [hclose, Traced.trace_bind, List.append_subset] at hT
          simp only [Traced.value_bind, Traced.value_pure]
          intro p hp
          rcases List.mem_append.mp hp with hp | hp
          · exact hasOrigin_keepCall hinner hraw hform
              (fun t ht => hrest t (List.mem_of_mem_take ht)) hT.1 p hp
          · exact ih hT.2.1 p hp
      · rename_i hform
        rw [if_neg hform] at hT
        simp only [Traced.trace_bind, List.append_subset] at hT
        simp only [Traced.value_bind, Traced.value_pure]
        intro p hp
        rcases List.mem_append.mp hp with hp | hp
        · exact hasOrigin_keep hraw hT.1 p hp
        · exact ih hT.2.1 p hp

end Spec

/-- The tokens of a sanitized value have their origins. -/
theorem emitted_sanitizeAt {T : Trace} {property : Text} {levels : Nat} :
    ∀ {e : Entry} {ts : List Token}, (∀ t ∈ ts, S t) →
      (sanitizeAt ctx property levels e ts).trace ⊆ T →
      ∃ scraps, Emitted ctx S (Granted ctx.policy T property) levels e
        (sanitizeAt ctx property levels e ts).value.tokens scraps := by
  induction levels with
  | zero =>
    intro e ts hts hT
    exact emitted_coalesce (@hasOrigin_sanitizeFrom _ _ _ _ _ _ none trivial _ _ hts _ _
      (List.append_subset.mp hT).1) (by simp)
  | succ levels ih =>
    intro e ts hts hT
    have hinner : EmitsArguments ctx S T property (levels + 1)
        (some (sanitizeAt ctx property levels)) :=
      ⟨levels, rfl, fun f args hargs htrace => ih hargs htrace⟩
    exact emitted_coalesce (hasOrigin_sanitizeFrom hinner hts
      (List.append_subset.mp hT).1) (by simp)

end CssGuard
