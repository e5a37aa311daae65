import CssGuard.Proofs.Value.Forms

/-!
# Sanitizing a value again

A sanitized value is read back scrap by scrap and sanitized again. URLs are then seen from
the base once more and may be refused, a newline after a token is gone, and numbers that
begin with a digit outside ASCII are dropped, along with calls of which nothing is left.
All other scraps stay.

- `Url.again?`, `Scrap.again?`: what becomes of a URL, and of a scrap
- `Atom.again`: what is kept of the token of an atom
- `AreClosed`: tokens that close all calls they open
- `Renewed`: what becomes of a row of scraps
- `Emitted.again`: what becomes of a value
-/

namespace CssGuard

open Text Escape
open scoped Text.ByCharacter

/-- What a URL that was written is written as again, if it is still harmless. -/
def Url.again? (base : Option Text) (uri : Text) : Option Text :=
  if Url.isHarmless (Url.resolve base uri) then some (Url.escape (Url.resolve base uri))
  else none

/-- The texts that a value may get from its context are plain, no name is changed, and
every harmless URL is accepted. -/
structure ValueContext.IsOpen (ctx : ValueContext) : Prop extends ctx.IsPlain where
  policy : ctx.policy = some fun uri _ => some uri
  unsuffixed : ctx.idSuffix = some []

theorem value_keepUrl {ctx : ValueContext} (hctx : ctx.IsOpen) (property body : Text) :
    (keepUrl ctx property body).value =
      match Url.again? ctx.base (decode body) with
      | some uri => .single (Scrap.url uri).text
      | none => ⟨[], true⟩ := by
  unfold keepUrl Url.again?
  rw [Traced.value_bind, hctx.policy, Url.accept]
  by_cases h : Url.isHarmless (Url.resolve ctx.base (decode body))
  · rw [if_pos h, if_pos h]
    simp only [Option.filter_some, h, if_true, Traced.value_pure, Scrap.text_url_escape]
  · rw [if_neg h, if_neg h]
    rfl

/-! ## Atoms -/

/-- The scrap is a URL. -/
def Scrap.isUrl : Scrap → Bool
  | url _ => true
  | _ => false

/-- What a scrap is when it is sanitized again, if anything is left of it. -/
def Scrap.again? (base : Option Text) : Scrap → Option Scrap
  | plain t | line t => if beginsForeign t then none else some (plain t)
  | url uri => (Url.again? base uri).map url
  | important => some important

/-- A token that opens or closes no call, does not mark importance and has no newline. -/
structure IsSingle (t : Token) : Prop where
  not_close : t ≠ Token.closeParen
  not_bang : t ≠ ['!']
  opens_eq : t.opensCall = false
  no_newline : '\n' ∉ t

/-- The characters that no single token has, strings and URLs aside. -/
def singleMarks : List Char :=
  ['(', ')', '!', '\n']

theorem isSingle_of_chars {t : Token} (h : ∀ c ∈ singleMarks, c ∉ t) : IsSingle t := by
  refine ⟨?_, ?_, ?_, h '\n' (by decide)⟩
  · rintro rfl
    exact h ')' (by decide) (List.mem_singleton.mpr rfl)
  · rintro rfl
    exact h '!' (by decide) (List.mem_singleton.mpr rfl)
  · rw [Token.opensCall, opensParen_eq_false (h '(' (by decide))]
    rfl

theorem isSingle_quote (s : Text) : IsSingle (quote s) := by
  refine ⟨?_, ?_, ?_, not_newline_mem_quote s⟩
  · intro heq
    cases (List.cons.inj heq).1
  · intro heq
    cases (List.cons.inj heq).1
  · rw [Token.opensCall]
    simp [quote]

theorem isSingle_url (uri : Text) : IsSingle ("url(" ++ quote uri ++ ")") := by
  refine ⟨fun heq => ?_, fun heq => ?_, ?_, ?_⟩
  · cases (List.cons.inj heq).1
  · cases (List.cons.inj heq).1
  · have hlast : ("url(".toList ++ quote uri ++ ")".toList).getLast? = some ')' :=
      List.getLast?_concat
    rw [Token.opensCall, Token.opensParen, hlast]
    rfl
  · simp [not_newline_mem_quote]

theorem IsBareName.isSingle {n : Text} (h : IsBareName n) : IsSingle n :=
  isSingle_of_chars fun c hc hmem =>
    absurd (h.all c hmem) ((by decide : ∀ c ∈ singleMarks, ¬ isNameChar c) c hc)

theorem IsNumeral.isSingle {t : Text} (h : IsNumeral t) : IsSingle t := by
  have hclass : ∀ c ∈ singleMarks, ¬ isDecimal c ∧ c ∉ numberMarks ∧ c ≠ '%' ∧
      ¬ isSmall c := by
    decide
  refine isSingle_of_chars fun c hc => ?_
  obtain ⟨hdecimal, hmark, hpercent, hsmall⟩ := hclass c hc
  exact h.not_mem hdecimal hmark hpercent hsmall

theorem beginsForeign_eq_false {t : Text} (h : ∀ c ∈ t.head?, c.toNat < 0x80) :
    beginsForeign t = false := by
  unfold beginsForeign
  cases hhead : t.head? with
  | none => rfl
  | some c =>
    have hascii := h c hhead
    show (isDecimal c && !isPlainDigit c) = false
    rw [isDecimal_eq_of_ascii hascii, Bool.and_not_self]

theorem IsBareName.beginsForeign_eq {n : Text} (h : IsBareName n) :
    beginsForeign n = false := by
  have hdigit : ∀ c ∈ n.head?, ¬ isDecimal c := by
    rcases h.cases with ⟨c, rest, rfl, hc, hdigit⟩ | ⟨c, rest, rfl, hc, hdigit⟩
    · rintro d ⟨⟩ hdecimal
      exact hdigit (isDigit_of_isDecimal hdecimal)
    · rintro d ⟨⟩
      decide
  unfold beginsForeign
  cases hhead : n.head? with
  | none => rfl
  | some c => simp [hdigit c hhead]

variable {ctx : ValueContext} {G : Text → Prop} {property : Text} {e : Entry}

/-- What is kept of the token of an atom that is sanitized again. -/
structure KeepsAgain (ctx : ValueContext) (property : Text) (e : Entry) (a : Scrap)
    (t : Token) : Prop where
  form : Form.of e t ≠ .call
  value : (keep ctx property e t).value = match a.again? ctx.base with
    | some a' => .single a'.text
    | none => ⟨[], a.isUrl⟩
  origin : ∀ a' ∈ a.again? ctx.base, Atom ctx Shape (fun _ => True) e a'

/-- A token that is kept as it is. -/
theorem keepsAgain_plain {t : Token} {form : Form} (hform : Form.of e t = form)
    (hcall : form ≠ .call) (hforeign : beginsForeign t = false)
    (hvalue : (keepForm ctx property e t form).value = .single t)
    (horigin : Atom ctx Shape (fun _ => True) e (.plain t)) :
    KeepsAgain ctx property e (.plain t) t := by
  have hagain : (Scrap.plain t).again? ctx.base = some (.plain t) := by
    rw [Scrap.again?, hforeign]
    rfl
  refine ⟨hform ▸ hcall, ?_, ?_⟩
  · rw [value_keep, hform, hvalue, hagain]
    rfl
  · rw [hagain]
    rintro a' ⟨⟩
    exact horigin

/-- A keyword, a colour or the name of a property was written in small
letters, and is kept as it is. -/
theorem keepsAgain_lower {raw : Token} {form : Form} (hform : Form.of e raw = form)
    (hkind : form = .keyword ∨ form = .color ∨ form = .name)
    (hchars : ∀ c ∈ lower raw, isPlainNameChar c ∨ c ∈ '#' :: valueSigns)
    (hvalue : lower (lower raw) = lower raw →
      (keepForm ctx property e (lower raw) form).value = .single (lower raw))
    (horigin : Shape (lower raw) → Form.of e (lower raw) = form →
      lower (lower raw) = lower raw →
      Atom ctx Shape (fun _ => True) e (.plain (lower raw))) :
    IsSingle (lower raw) ∧
      (Shape (lower raw) → KeepsAgain ctx property e (.plain (lower raw))
        (lower raw)) := by
  have hclass : ∀ c, isPlainNameChar c ∨ c ∈ '#' :: valueSigns →
      c ∉ singleMarks ∧ c.toNat < 0x80 := by
    intro c hc
    have hascii : c.toNat < 0x80 :=
      hc.elim ascii_of_isPlainNameChar
        ((by decide : ∀ c ∈ '#' :: valueSigns, c.toNat < 0x80) c)
    exact ⟨forall_ascii (fun c => isPlainNameChar c ∨ c ∈ '#' :: valueSigns →
      c ∉ singleMarks) (by decide) hascii hc, hascii⟩
  have hascii : ∀ c ∈ lower raw, c.toNat < 0x80 := fun c hc => (hclass c (hchars c hc)).2
  have htwice : lower (lower raw) = lower raw :=
    lower_lower_of_ascii_or_isDigit fun c hc => .inl (hascii c hc)
  have hagain : Form.of e (lower raw) = form := by
    refine Form.of_lower htwice hform ?_ ?_ <;> rcases hkind with rfl | rfl | rfl <;> simp
  refine ⟨isSingle_of_chars fun c hc hmem => (hclass c (hchars c hmem)).1 hc,
    fun hshape => ?_⟩
  refine keepsAgain_plain hagain ?_ (beginsForeign_eq_false fun c hc => ?_)
    (hvalue htwice) (horigin hshape hagain htwice)
  · rcases hkind with rfl | rfl | rfl <;> simp
  · exact hascii c (List.mem_of_mem_head? hc)

/-- A string is kept as it is where strings are. -/
theorem keepsAgain_quote {s : Text} (hnul : '\x00' ∉ s)
    (hurl : (e.allows .url && !e.allows .unreservedWord) = false)
    (hentry : e.allows .quotedString && !(e.allows .url && e.allows .unreservedWord))
    (hshape : Shape (quote s)) :
    KeepsAgain ctx property e (.plain (quote s)) (quote s) := by
  have hform := Form.of_quote e s
  refine keepsAgain_plain hform (by simp) (beginsForeign_eq_false ?_) ?_ ?_
  · rintro c ⟨⟩
    decide
  · rw [keepForm, hurl, if_neg (by decide), if_pos hentry, decode_escapeString hnul]
    rfl
  · have horigin : Atom ctx Shape (fun _ => True) e
        (.plain (quote (decode (escapeString s)))) :=
      .string hshape hform hurl hentry
    rwa [decode_escapeString hnul] at horigin

theorem Scrap.ofText_of_no_newline {t : Text} (h : '\n' ∉ t) :
    Scrap.ofText t = .plain t :=
  if_neg fun hlast => h (List.mem_of_getLast? hlast)

theorem Scrap.ofText_cases {t q : Text} (hline : IsMaybeLine t q) (hnew : '\n' ∉ t) :
    Scrap.ofText q = .plain t ∨ Scrap.ofText q = .line t := by
  rcases hline with rfl | rfl
  · exact .inl (Scrap.ofText_of_no_newline hnew)
  · refine .inr ?_
    rw [Scrap.ofText, if_pos List.getLast?_concat, List.dropLast_concat]

/-- A quantity that was in normal form is kept, unless it begins
with a digit outside ASCII. -/
theorem keepsAgain_quantity (he : e.IsPlain) {q r t : Text}
    (hnormal : normalQuantity? e q = some r) (hcapital : 'E' ∉ q) (ht : IsNumeral t)
    (hline : IsMaybeLine t r) (hshape : Shape t) :
    KeepsAgain ctx property e (Scrap.ofText r) t := by
  obtain ⟨hquantity, hself⟩ := normalQuantity?_eq_self hnormal hcapital ht hline
  have hnew : '\n' ∉ t := ht.not_mem (by decide) (by decide) (by decide) (by decide)
  have hlower : lower t = t := by
    refine ht.lower_eq fun hmem => ?_
    rcases (cases_of_normalQuantity? hnormal).1 _ (hline.mem hmem) with heq | hmem
    · exact absurd heq (by decide)
    · exact hcapital hmem
  have hform := ht.form_eq hquantity hlower he
  have hagain : (Scrap.ofText r).again? ctx.base =
      if beginsForeign t then none else some (.plain t) := by
    rcases Scrap.ofText_cases hline hnew with heq | heq <;> rw [heq] <;> rfl
  have hurl : (Scrap.ofText r).isUrl = false := by
    rcases Scrap.ofText_cases hline hnew with heq | heq <;> rw [heq] <;> rfl
  by_cases hforeign : beginsForeign t
  · rw [if_pos hforeign] at hform hagain
    refine ⟨by simp [hform], ?_, by simp [hagain]⟩
    rw [value_keep, hform, hagain, hurl]
    rfl
  · rw [if_neg hforeign] at hform hagain
    refine ⟨by simp [hform], ?_, ?_⟩
    · rw [value_keep, hform, hagain, keepForm, hlower, hself]
      rfl
    · rw [hagain]
      rintro a' ⟨⟩
      rw [← Scrap.ofText_of_no_newline hnew]
      exact .quantity hshape hform (by rw [hlower, hself])

/-- A URL is seen from the base again, and may be refused then. -/
theorem keepsAgain_url (hctx : ctx.IsOpen) (he : e.IsPlain) (hentry : e.allows .url)
    {uri : Text} (hspecial : ∀ c ∈ uri, ¬ Url.isSpecial c) :
    KeepsAgain ctx property e (.url uri) ("url(" ++ quote uri ++ ")") := by
  have hform := Form.of_url he uri
  have hnul : '\x00' ∉ uri := fun hmem => hspecial _ hmem (by decide)
  have hpolicy : ctx.policy.isSome := by
    rw [hctx.policy]
    rfl
  refine ⟨fun hcall => ?_, ?_, ?_⟩
  · rw [hform] at hcall
    cases hcall
  · rw [value_keep, hform, keepForm, hentry, hpolicy, if_pos (by decide),
      value_keepUrl hctx, decode_escapeString hnul, Scrap.again?]
    cases Url.again? ctx.base uri <;> rfl
  · intro a' ha'
    obtain ⟨uri', huri', rfl⟩ := Option.map_eq_some_iff.mp ha'
    unfold Url.again? at huri'
    split at huri'
    · cases huri'
      exact .url trivial hentry hpolicy
    · cases huri'

/-- An atom is one token, and what is kept of it when it is sanitized again. -/
theorem Atom.again (hctx : ctx.IsOpen) (he : e.IsPlain) (property : Text) {a : Scrap}
    (ha : Atom ctx Shape G e a) :
    ∃ t, a.tokens = [t] ∧ IsSingle t ∧ (Shape t → KeepsAgain ctx property e a t) := by
  cases ha with
  | @keyword raw hraw hform =>
    refine ⟨lower raw, rfl, keepsAgain_lower hform (.inl rfl) ?_ ?_ ?_⟩
    · exact fun c hc => (chars_of_keyword he (Form.says_of_eq hform) c hc).imp_right
        (List.mem_cons_of_mem _)
    · intro htwice
      rw [keepForm, htwice]
      rfl
    · intro hshape hagain htwice
      have horigin : Atom ctx Shape (fun _ => True) e (.plain (lower (lower raw))) :=
        .keyword hshape hagain
      rwa [htwice] at horigin
  | @color raw hraw hform hentry =>
    refine ⟨lower raw, rfl, keepsAgain_lower hform (.inr (.inl rfl)) ?_ ?_ ?_⟩
    · obtain ⟨digits, heq, -, hall⟩ := hraw.exists_of_isHashColor (Form.says_of_eq hform)
      rw [heq]
      exact List.forall_mem_cons.mpr ⟨.inr (by decide), fun c hc => .inl
        (isPlainNameChar_of_isSmallNameChar (isSmallNameChar_of_isSmallHexDigit
          (hall c hc)))⟩
    · intro htwice
      rw [keepForm, htwice, if_pos hentry]
      rfl
    · intro hshape hagain htwice
      have horigin : Atom ctx Shape (fun _ => True) e (.plain (lower (lower raw))) :=
        .color hshape hagain hentry
      rwa [htwice] at horigin
  | @quantity raw q hraw hform hnormal =>
    obtain ⟨t, ht, hline⟩ := isNumeral_of_normalQuantity? hnormal
    have hnew : '\n' ∉ t := ht.not_mem (by decide) (by decide) (by decide) (by decide)
    refine ⟨t, ?_, ht.isSingle,
      keepsAgain_quantity he hnormal (not_capital_mem_lower raw) ht hline⟩
    rcases Scrap.ofText_cases hline hnew with heq | heq <;> rw [heq] <;> rfl
  | @name raw suffix hraw hform hentry hsuffix =>
    have hname := hraw.isBareName (Form.says_of_eq hform).2
    -- the suffix is empty, so the name stays what it is
    have hnil : suffix = [] := by
      rw [hctx.unsuffixed] at hsuffix
      exact (Option.some.inj hsuffix).symm
    have hline : Scrap.ofText (raw ++ suffix) = .plain raw := by
      rw [hnil, List.append_nil]
      exact Scrap.ofText_of_no_newline hname.not_newline_mem
    rw [hline]
    refine ⟨raw, rfl, hname.isSingle, fun hshape => keepsAgain_plain hform (by decide)
      hname.beginsForeign_eq ?_ ?_⟩
    · rw [keepForm, hentry, hctx.unsuffixed]
      simp [Draft.ofOption, Draft.single]
    · have horigin : Atom ctx Shape (fun _ => True) e (Scrap.ofText (raw ++ suffix)) :=
        .name hshape hform hentry hsuffix
      rwa [hline] at horigin
  | @property raw hraw hform hentry hglobal hfind =>
    obtain ⟨-, hall⟩ := hraw.exists_of_isName (Form.says_of_eq hform).2
    refine ⟨lower raw, rfl, keepsAgain_lower hform (.inr (.inr rfl)) ?_ ?_ ?_⟩
    · exact fun c hc => .inl (isPlainNameChar_of_isSmallNameChar (hall c hc))
    · intro htwice
      rw [keepForm, hentry, if_neg (by decide), hglobal, htwice,
        if_pos (by simpa using hfind)]
      rfl
    · intro hshape hagain htwice
      have horigin : Atom ctx Shape (fun _ => True) e (.plain (lower (lower raw))) :=
        .property hshape hagain hentry hglobal (by rwa [htwice])
      rwa [htwice] at horigin
  | @string raw body hraw hform hurl hentry =>
    obtain ⟨s, hnul, -, rfl⟩ := hraw.of_stringBody? (Form.says_of_eq hform)
    rw [decode_escapeString hnul]
    exact ⟨quote s, rfl, isSingle_quote s, keepsAgain_quote hnul hurl hentry⟩
  | words hws hne =>
    obtain ⟨heq, hnul⟩ := quoteWords_eq (chars_of_words (fun _ h => h) hws)
    obtain ⟨raw, hraw⟩ := List.exists_mem_of_ne_nil _ hne
    -- where words are permitted, the string that is made of them is permitted as well
    have hentry := (Form.says_of_eq (hws raw hraw).2).1
    simp only [Entry.takesWords, Bool.and_eq_true, Bool.not_eq_true'] at hentry
    rw [heq]
    exact ⟨_, rfl, isSingle_quote _, keepsAgain_quote hnul (by simp [hentry])
      (by simp [hentry])⟩
  | @url uri hgrant hentry hpolicy =>
    exact ⟨_, rfl, isSingle_url _, fun _ => keepsAgain_url hctx he hentry fun c hc =>
      Url.not_isSpecial_of_mem_escape hc⟩

/-! ## Calls -/

theorem next_single {t : Token} (h : IsSingle t) (place : Nat) (opened : List Nat)
    (found : List (Nat × Nat)) :
    CallScan.next ⟨place, opened, found⟩ t = ⟨place + 1, opened, found⟩ := by
  rw [CallScan.next, if_neg h.not_close, h.opens_eq]
  rfl

theorem next_opener {n : Text} (hn : IsBareName n) (place : Nat) (opened : List Nat)
    (found : List (Nat × Nat)) :
    CallScan.next ⟨place, opened, found⟩ (n ++ ['(']) =
      ⟨place + 1, place :: opened, found⟩ := by
  have hparen : Token.opensParen (n ++ ['(']) = true :=
    decide_eq_true List.getLast?_concat
  have hclose : n ++ ['('] ≠ Token.closeParen := by
    intro heq
    rw [heq] at hparen
    exact absurd hparen (by decide)
  have hopens : Token.opensCall (n ++ ['(']) = true := by
    obtain ⟨c, t, rfl⟩ : ∃ c t, n = c :: t := by
      rcases hn.cases with ⟨c, t, rfl, -⟩ | ⟨c, t, rfl, -⟩ <;> exact ⟨_, _, rfl⟩
    have hc := hn.all c (List.mem_cons_self ..)
    have hquote : ∀ d ∈ ['"', '\''], c ≠ d := by
      rintro d hd rfl
      exact absurd hc ((by decide : ∀ d ∈ ['"', '\''], ¬ isNameChar d) c hd)
    rw [Token.opensCall, hparen]
    simp [hquote '"' (by decide), hquote '\'' (by decide)]
  rw [CallScan.next, if_neg hclose, if_pos hopens]

/-- Every call that the tokens open they close, so what was open
before them is open after them. -/
def AreClosed (ts : List Token) : Prop :=
  ∀ place opened found, ∃ more, ts.foldl CallScan.next ⟨place, opened, found⟩ =
    ⟨place + ts.length, opened, more ++ found⟩ ∧ ∀ p ∈ more, place ≤ p.1

theorem areClosed_nil : AreClosed [] :=
  fun _ _ _ => ⟨[], rfl, by simp⟩

theorem AreClosed.append {ts us : List Token} (ht : AreClosed ts) (hu : AreClosed us) :
    AreClosed (ts ++ us) := by
  intro place opened found
  obtain ⟨more, hmore, hplaces⟩ := ht place opened found
  obtain ⟨more', hmore', hplaces'⟩ := hu (place + ts.length) opened (more ++ found)
  refine ⟨more' ++ more, ?_, fun p hp => ?_⟩
  · rw [List.foldl_append, hmore, hmore', List.length_append, Nat.add_assoc,
      List.append_assoc]
  · rcases List.mem_append.mp hp with hp | hp
    · have := hplaces' p hp
      omega
    · exact hplaces p hp

theorem areClosed_single {t : Token} (h : IsSingle t) : AreClosed [t] :=
  fun _ _ _ => ⟨[], next_single h .., by simp⟩

/-- A call is found with its arguments. -/
theorem foldl_next_call {n : Text} (hn : IsBareName n) {args : List Token}
    (hargs : AreClosed args) (place : Nat) (opened : List Nat)
    (found : List (Nat × Nat)) :
    ∃ more, ((n ++ ['(']) :: args ++ [Token.closeParen]).foldl CallScan.next ⟨place,
      opened, found⟩ =
        ⟨place + (args.length + 2), opened,
          (place, place + 1 + args.length) :: more ++ found⟩ ∧
      ∀ p ∈ more, place ≤ p.1 := by
  obtain ⟨more, hmore, hplaces⟩ := hargs (place + 1) (place :: opened) found
  refine ⟨more, ?_, fun p hp => Nat.le_of_succ_le (hplaces p hp)⟩
  rw [List.cons_append, List.foldl_cons, next_opener hn, List.foldl_append, hmore,
    List.foldl_cons, List.foldl_nil, CallScan.next, if_pos rfl]
  show CallScan.mk (place + 1 + args.length + 1) _ _ = _
  rw [show place + 1 + args.length + 1 = place + (args.length + 2) by omega]
  rfl

theorem areClosed_call {n : Text} (hn : IsBareName n) {args : List Token}
    (hargs : AreClosed args) :
    AreClosed ((n ++ ['(']) :: args ++ [Token.closeParen]) := by
  intro place opened found
  obtain ⟨more, hmore, hplaces⟩ := foldl_next_call hn hargs place opened found
  refine ⟨(place, place + 1 + args.length) :: more, ?_,
    List.forall_mem_cons.mpr ⟨Nat.le_refl _, hplaces⟩⟩
  rw [hmore]
  simp

variable {levels : Nat} {ts : List Token} {scraps : List Scrap}

theorem tokens_call (n : Text) (inner scraps : List Scrap) :
    (.plain (n ++ ['(']) :: inner ++ .plain Token.closeParen :: scraps).flatMap
      Scrap.tokens = ((n ++ ['(']) :: inner.flatMap Scrap.tokens ++ [Token.closeParen]) ++
        scraps.flatMap Scrap.tokens := by
  simp [Scrap.tokens]

/-- The tokens of a value close their calls. -/
theorem Emitted.areClosed (hctx : ctx.IsOpen) (he : e.IsPlain)
    (h : Emitted ctx Shape G levels e ts scraps) :
    AreClosed (scraps.flatMap Scrap.tokens) := by
  induction h with
  | nil => exact areClosed_nil
  | @atom _ _ a ts scraps ha _ ih =>
    obtain ⟨t, htokens, hsingle, -⟩ := ha.again hctx he []
    rw [List.flatMap_cons, htokens]
    exact (areClosed_single hsingle).append (ih he)
  | @call _ _ f raw n args ts inner scraps hraw hlower hform hfunction hargs _ _
    ihinner ih =>
    obtain ⟨hmem, hf⟩ := Schema.mem_of_function? hfunction
    rw [tokens_call]
    have hname := isBareName_of_isPlainIdent (isPlainIdent_function he hmem).1
    exact (areClosed_call hname (ihinner (hctx.entries _ hf))).append (ih he)

/-! ## Values -/

/-- What becomes of a row of scraps: some are left out, and a call of which nothing is
left inside is left out as a whole. -/
inductive Renewed (base : Option Text) : List Scrap → List Scrap → Prop
  | nil : Renewed base [] []
  | keep {a a' : Scrap} {row row' : List Scrap} (ha : a.again? base = some a')
    (h : Renewed base row row') : Renewed base (a :: row) (a' :: row')
  | drop {a : Scrap} {row row' : List Scrap} (ha : a.again? base = none)
    (hurl : a.isUrl = false) (h : Renewed base row row') : Renewed base (a :: row) row'
  | empty {n : Text} {inner row row' : List Scrap} (hne : inner ≠ [])
    (hinner : Renewed base inner []) (h : Renewed base row row') :
    Renewed base (.plain (n ++ ['(']) :: inner ++ .plain Token.closeParen :: row) row'

theorem Renewed.append {base : Option Text} {row row' more more' : List Scrap}
    (h : Renewed base row row') (hmore : Renewed base more more') :
    Renewed base (row ++ more) (row' ++ more') := by
  induction h with
  | nil => exact hmore
  | keep ha _ ih => exact .keep ha ih
  | drop ha hurl _ ih => exact .drop ha hurl ih
  | empty hne hinner _ _ ih =>
    rw [List.append_assoc, List.cons_append]
    exact .empty hne hinner ih

/-- What becomes of a value that is sanitized again: a URL in it is refused, or the value
is left with what becomes of its scraps. -/
def RenewsTo (ctx : ValueContext) (levels : Nat) (e : Entry) (scraps : List Scrap)
    (d : Draft) : Prop :=
  (d.refused = true ∧ ∃ uri, .url uri ∈ scraps ∧ Url.again? ctx.base uri = none) ∨
    ∃ ts' scraps', d = ⟨ts'.map .token, false⟩ ∧
      Emitted ctx Shape (fun _ => True) levels e ts' scraps' ∧
      Renewed ctx.base scraps scraps'

theorem RenewsTo.cons {a : Scrap} {t : Token} (ha : KeepsAgain ctx property e a t)
    {d : Draft} (h : RenewsTo ctx levels e scraps d) :
    RenewsTo ctx levels e (a :: scraps) ((keep ctx property e t).value.append d) := by
  have hvalue := ha.value
  rcases h with ⟨hrefused, uri, huri, hnone⟩ | ⟨ts', scraps', rfl, hemitted, hrenewed⟩
  · refine .inl ⟨?_, uri, List.mem_cons_of_mem _ huri, hnone⟩
    rw [Draft.append, hrefused, Bool.or_true]
  · cases hagain : a.again? ctx.base with
    | some a' =>
      rw [hagain] at hvalue
      refine .inr ⟨a'.text :: ts', a' :: scraps', ?_,
        .atom (ha.origin a' hagain) hemitted, .keep hagain hrenewed⟩
      rw [hvalue]
      rfl
    | none =>
      rw [hagain] at hvalue
      rw [hvalue]
      cases hurl : a.isUrl with
      | true =>
        cases a with
        | url uri =>
          exact .inl ⟨rfl, uri, List.mem_cons_self ..,
            by simpa [Scrap.again?] using hagain⟩
        | _ => cases hurl
      | false => exact .inr ⟨ts', scraps', rfl, hemitted, .drop hagain hurl hrenewed⟩

theorem value_sanitizeAt (ctx : ValueContext) (property : Text) (levels : Nat) (e : Entry)
    (ts : List Token) :
    (sanitizeAt ctx property levels e ts).value =
      (sanitizeFrom ctx property e (argumentsAt ctx property levels) (callEnds ts) 0 0
        ts).value.finish := by
  rw [sanitizeAt_def]
  rfl

theorem coalesce_tokens (ts : List Token) : coalesce none (ts.map .token) = ts := by
  induction ts with
  | nil => rfl
  | cons t ts ih =>
    rw [List.map_cons, coalesce, ih]
    rfl

theorem value_keepCall {f : Entry} {n : Text}
    (hf : ctx.schema.function? e (withoutVendor n) = some f) (inner : SanitizeArguments)
    (args : List Token) :
    (keepCall ctx property e (some inner) (n ++ ['(']) args).value =
      (inner f args).value.inCall (n ++ ['(']) := by
  rw [keepCall_eq (by rwa [List.dropLast_concat])]
  rfl

theorem again?_plain {base : Option Text} {t : Token} (h : ∀ c ∈ t, c.toNat < 0x80) :
    (Scrap.plain t).again? base = some (.plain t) := by
  rw [Scrap.again?, beginsForeign_eq_false fun c hc => h c (List.mem_of_mem_head? hc)]
  rfl

/-- A call is left out when nothing is left of its arguments,
and refused when they are. -/
theorem RenewsTo.call {f : Entry} {n : Text} (hascii : ∀ c ∈ n ++ ['('], c.toNat < 0x80)
    (hraw : Shape (n ++ ['('])) (hlower : lower (n ++ ['(']) = n ++ ['('])
    (hform : Form.of e (n ++ ['(']) = .call)
    (hf : ctx.schema.function? e (withoutVendor n) = some f) {inner : List Scrap}
    (hne : inner ≠ [])
    (hinner : RenewsTo ctx levels f inner (sanitizeFrom ctx property f
      (argumentsAt ctx property levels) (callEnds (inner.flatMap Scrap.tokens)) 0 0
      (inner.flatMap Scrap.tokens)).value)
    {d : Draft} (h : RenewsTo ctx (levels + 1) e scraps d) :
    RenewsTo ctx (levels + 1) e (.plain (n ++ ['(']) :: inner ++
      .plain Token.closeParen :: scraps) ((keepCall ctx property e
        (argumentsAt ctx property (levels + 1)) (n ++ ['('])
          (inner.flatMap Scrap.tokens)).value.append d) := by
  have hkept := value_sanitizeAt ctx property levels f (inner.flatMap Scrap.tokens)
  rw [argumentsAt, value_keepCall hf, hkept]
  rcases hinner with
    ⟨hrefused, uri, huri, hnone⟩ | ⟨ts₁, scraps₁, hdraft, hemitted₁, hrenewed₁⟩
  · refine .inl ⟨?_, uri, by simp [huri], hnone⟩
    rw [Kept.inCall, Draft.finish, if_pos hrefused]
    rfl
  rw [hdraft, Draft.finish, coalesce_tokens, Kept.inCall, if_neg Bool.false_ne_true]
  rcases h with ⟨hrefused, uri, huri, hnone⟩ | ⟨ts₂, scraps₂, rfl, hemitted₂, hrenewed₂⟩
  · refine .inl ⟨?_, uri, by simp [huri], hnone⟩
    rw [Draft.append, hrefused, Bool.or_true]
  by_cases hts : ts₁ = []
  · subst hts
    cases hemitted₁
    exact .inr ⟨ts₂, scraps₂, rfl, hemitted₂, .empty hne hrenewed₁ hrenewed₂⟩
  · rw [if_neg (by simpa using hts)]
    refine .inr ⟨_, _, rfl, .call hraw hlower hform hf hts hemitted₁ hemitted₂, ?_⟩
    exact .keep (again?_plain hascii)
      (hrenewed₁.append (.keep (again?_plain (by decide)) hrenewed₂))

/-- A call that is closed is sanitized with its arguments, and
what follows it after it. -/
theorem value_sanitizeFrom_call {inner : Option SanitizeArguments}
    {ends : List (Nat × Nat)} {place : Nat} {t : Token} {args rest : List Token}
    (hform : Form.of e t = .call) (hlower : lower t = t)
    (hlookup : ends.lookup place = some (place + 1 + args.length)) :
    (sanitizeFrom ctx property e inner ends place 0
      ((t :: args ++ [Token.closeParen]) ++ rest)).value =
      (keepCall ctx property e inner t args).value.append
        (sanitizeFrom ctx property e inner ends (place + (args.length + 2)) 0
          rest).value := by
  rw [List.append_assoc, List.cons_append, List.singleton_append,
    sanitizeFrom_call rest hform hlookup, hlower]
  rfl

/-- What becomes of a value that is sanitized again. -/
theorem Emitted.again (hctx : ctx.IsOpen) (he : e.IsPlain)
    (h : Emitted ctx Shape G levels e ts scraps)
    (hshape : ∀ t ∈ scraps.flatMap Scrap.tokens, Shape t) (place : Nat)
    (found : List (Nat × Nat)) :
    RenewsTo ctx levels e scraps (sanitizeFrom ctx property e
      (argumentsAt ctx property levels) ((scraps.flatMap Scrap.tokens).foldl CallScan.next
        ⟨place, [], found⟩).found place 0
      (scraps.flatMap Scrap.tokens)).value := by
  induction h generalizing place found with
  | nil => exact .inr ⟨[], [], rfl, .nil, .nil⟩
  | @atom levels e a ts scraps ha _ ih =>
    obtain ⟨t, htokens, hsingle, hkeeps⟩ := ha.again hctx he property
    rw [List.flatMap_cons, htokens, List.singleton_append] at hshape ⊢
    obtain ⟨ht, hrest⟩ := List.forall_mem_cons.mp hshape
    have hkeeps := hkeeps ht
    have hmore := ih he hrest (place + 1) found
    rw [List.foldl_cons, next_single hsingle, sanitizeFrom, if_neg hkeeps.form]
    exact hmore.cons hkeeps
  | @call levels e f raw n args ts inner scraps hraw hlower hform hfunction hargs hinner
    hscraps ihinner ih =>
    obtain ⟨hmem, hf⟩ := Schema.mem_of_function? hfunction
    have hident := (isPlainIdent_function he hmem).1
    have hname := isBareName_of_isPlainIdent hident
    have hplain := hctx.entries _ hf
    rw [tokens_call] at hshape ⊢
    obtain ⟨hcall, hrest⟩ := List.forall_mem_append.mp hshape
    obtain ⟨hopener, hcall⟩ := List.forall_mem_cons.mp hcall
    have hinnerShape := (List.forall_mem_append.mp hcall).1
    have hascii : ∀ c ∈ n ++ ['('], c.toNat < 0x80 := List.forall_mem_append.mpr
      ⟨ascii_of_isPlainIdent hident, by decide⟩
    have htwice : lower (n ++ ['(']) = n ++ ['('] := by
      rw [← hlower]
      exact lower_lower_of_ascii_or_isDigit fun c hc => .inl (hascii c (hlower ▸ hc))
    have hagain : Form.of e (n ++ ['(']) = .call := by
      rw [← hlower] at htwice ⊢
      exact Form.of_lower htwice hform (by simp) (by simp)
    have hclosed := hinner.areClosed hctx hplain
    obtain ⟨more, hmore, -⟩ := foldl_next_call hname hclosed place [] found
    obtain ⟨more', hmore', hplaces'⟩ := hscraps.areClosed hctx he
      (place + ((inner.flatMap Scrap.tokens).length + 2)) []
      ((place, place + 1 + (inner.flatMap Scrap.tokens).length) :: more ++ found)
    rw [List.foldl_append, hmore]
    -- the places found later are behind the call
    have hlookup : ((scraps.flatMap Scrap.tokens).foldl CallScan.next
        ⟨place + ((inner.flatMap Scrap.tokens).length + 2), [],
          (place, place + 1 + (inner.flatMap Scrap.tokens).length) :: more ++
            found⟩).found.lookup place =
        some (place + 1 + (inner.flatMap Scrap.tokens).length) := by
      have hnone : more'.lookup place = none := by
        rw [List.lookup_eq_none_iff]
        intro p hp
        have := hplaces' p hp
        exact bne_iff_ne.mpr (by omega)
      rw [hmore', List.lookup_append, hnone, List.cons_append, List.lookup_cons_self]
      rfl
    rw [value_sanitizeFrom_call hagain htwice hlookup]
    exact RenewsTo.call hascii hopener htwice hagain hfunction
      (hinner.scraps_ne_nil hargs) (ihinner hplain hinnerShape 0 []) (ih he hrest _ _)

end CssGuard
