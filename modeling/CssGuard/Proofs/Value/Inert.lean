import CssGuard.Proofs.Value.Permitted

/-!
# Sanitized values are inert

The text of a sanitized value is read without a report, and nothing in it ends a
declaration or a block or begins an at-rule, even if no lexer produced the tokens of the
value. The one exception is a word that passes with a newline after it: the string that it
is written as ends with its line. So a value is inert exactly if there is no such string
in it.

- `Token.isInert`, `Token.isBroken`: harmless tokens, and strings with a newline in them
- `ReadsInert`: a text is read as harmless tokens in front of what follows it in a value
- `Permitted.passes_or_breaks`: a permitted token is inert, or
  it is a string that is broken
- `sanitizeProperty_inert_iff`: the values that are inert
-/

namespace CssGuard

open Text Escape Lexeme
open scoped Text.ByCharacter

/-- The token ends no declaration and no block, and begins no at-rule. -/
def Token.isInert (t : Token) : Bool :=
  t ∉ [Token.semicolon, Token.openBrace, Token.closeBrace] && t.head? ≠ some '@'

/-- The token is a string with a newline in it. -/
def Token.isBroken (t : Token) : Bool :=
  t.head? = some '"' && '\n' ∈ t

/-- In front of what follows it in a value, the text is read as harmless tokens. -/
def ReadsInert (t : Text) : Prop :=
  ∃ ts, Reads endsValue t ts ∧ ∀ u ∈ ts, u.isInert

/-- The token is read as harmless tokens, and it is no broken string. -/
structure Token.Passes (t : Token) : Prop where
  reads : ReadsInert t
  unbroken : ¬ t.isBroken

/-- The token is a broken string, and it is reported whatever follows it. -/
structure Token.Breaks (t : Token) : Prop where
  broken : t.isBroken
  clean : ∀ c ∈ t, isClean c
  not_sound : ∀ rest, ¬ IsSound (t ++ rest)

/-! ## Single tokens -/

/-- The characters that strings and tokens that are not harmless begin with. -/
def inertMarks : List Char :=
  [';', '\x7b', '\x7d', '@', '"']

/-- The token begins like a harmless token that is no string. -/
def Token.BeginsInert (t : Token) : Prop :=
  ∀ c ∈ t.head?, c ∉ inertMarks

theorem beginsInert_cons {c : Char} (h : c ∉ inertMarks) (t : Text) :
    Token.BeginsInert (c :: t) := by
  rintro d ⟨⟩
  exact h

theorem Token.BeginsInert.isInert {t : Token} (h : t.BeginsInert) : t.isInert := by
  cases t with
  | nil => rfl
  | cons c t =>
    have hc := h c rfl
    simp only [inertMarks, List.mem_cons, List.not_mem_nil, or_false, not_or] at hc
    simp [Token.isInert, Token.semicolon, Token.openBrace, Token.closeBrace, hc]

theorem Token.BeginsInert.not_isBroken {t : Token} (h : t.BeginsInert) :
    ¬ t.isBroken := by
  intro hbroken
  have hquote := of_decide_eq_true (Bool.and_eq_true_iff.mp hbroken).1
  exact h _ hquote (by decide)

/-- A token that is read as harmless tokens, none of them a string. -/
theorem passes_of_reads {follow : Char → Bool} {t : Token} {us : List Token}
    (hreads : Reads follow t us) (hfollow : ∀ c, endsValue c → follow c)
    (hus : ∀ u ∈ us, u.isInert) (ht : t.BeginsInert) : t.Passes :=
  ⟨⟨us, hreads.mono hfollow, hus⟩, ht.not_isBroken⟩

/-- A token that is read as itself. -/
theorem passes_self {follow : Char → Bool} {t : Token} (hreads : Reads follow t [t])
    (hfollow : ∀ c, endsValue c → follow c) (ht : t.BeginsInert) : t.Passes :=
  passes_of_reads hreads hfollow (List.forall_mem_singleton.mpr ht.isInert) ht

/-- A token that is read as itself, maybe with a newline after it. -/
theorem passes_maybeLine {follow : Char → Bool} {t q : Token} (hline : IsMaybeLine t q)
    (hreads : Reads follow t [t]) (hfollow : ∀ c, endsValue c → follow c)
    (hnew : follow '\n') (hne : t ≠ []) (ht : t.BeginsInert) : q.Passes := by
  have hq : q.BeginsInert := by
    rw [Token.BeginsInert, hline.head? hne]
    exact ht
  rcases hline with rfl | rfl
  · exact passes_self hreads hfollow hq
  -- after the token the newline is read as a space
  · have hspace := reads_space (by decide : isSpace '\n') (by decide)
    refine passes_of_reads (hreads.append_cons hspace hnew) (fun _ _ => rfl) ?_ hq
    exact List.forall_mem_cons.mpr ⟨ht.isInert, List.forall_mem_singleton.mpr (by decide)⟩

theorem IsBareName.beginsInert {n : Text} (hn : IsBareName n) (t : Text) :
    Token.BeginsInert (n ++ t) := by
  have hmark : ∀ c ∈ n, c ∉ inertMarks := fun c hc hmem =>
    absurd (hn.all c hc) ((by decide : ∀ c ∈ inertMarks, ¬ isNameChar c) c hmem)
  rcases hn.cases with ⟨c, rest, rfl, -⟩ | ⟨c, rest, rfl, -⟩
  · exact beginsInert_cons (hmark _ (List.mem_cons_self ..)) _
  · exact beginsInert_cons (hmark _ (List.mem_cons_self ..)) _

theorem passes_name {n : Text} (hn : IsBareName n) : Token.Passes n := by
  have hbegins := hn.beginsInert []
  rw [List.append_nil] at hbegins
  exact passes_self (reads_name hn) endsName_of_endsValue hbegins

theorem valueSigns_class : ∀ c ∈ valueSigns, c ∈ loneChars ∧
    (∀ d ∈ [' ', ',', ')', ';'], endsLone c d) ∧ c ∉ inertMarks := by
  decide

theorem passes_sign {c : Char} (hc : c ∈ valueSigns) : Token.Passes [c] := by
  obtain ⟨hlone, hends, hmark⟩ := valueSigns_class c hc
  exact passes_self (reads_lone hlone) (fun d hd => hends d (of_decide_eq_true hd))
    (beginsInert_cons hmark [])

/-- A sign with a vendor's mark in front of it. The hyphen goes on with the name that the
mark begins, the other signs are tokens of their own. -/
theorem passes_vendorSign {mark : Text} (hmark : mark ∈ vendorMarks) {c : Char}
    (hc : c ∈ valueSigns) : Token.Passes (mark ++ [c]) := by
  by_cases hhyphen : c = '-'
  · subst hhyphen
    exact passes_name (isBareName_of_isPlainIdent (isPlainIdent_vendor hmark (by decide)))
  have hident := isPlainIdent_vendor hmark (t := []) (by decide)
  rw [List.append_nil] at hident
  have hn := isBareName_of_isPlainIdent hident
  obtain ⟨d, rest, hcons, -⟩ := exists_of_mem_vendorMarks hmark
  have hclass : ∀ c ∈ valueSigns, c ≠ '-' → endsRun c ∧ c ≠ '(' := by decide
  have hname : Reads (· == c) mark [mark] := by
    have hrange : ∀ more, Starts (· == c) more → codeRange? (mark ++ more) = none := by
      intro more _
      rw [hcons]
      exact codeRange?_eq_none_of_head (by decide)
    have hfollow : ∀ d, (d == c) = true → endsRun d ∧ d ≠ '(' := by
      intro d hd
      rw [eq_of_beq hd]
      exact hclass c hc hhyphen
    have hreads := hn.isSpelling.reads_name_of hfollow hrange
    rwa [decode_name hn.all, hn.escapeIdent_eq] at hreads
  obtain ⟨hlone, hends, hsign⟩ := valueSigns_class c hc
  refine passes_of_reads (hname.append_cons (reads_lone hlone) (beq_self_eq_true c))
    (fun d hd => hends d (of_decide_eq_true hd)) ?_ (hn.beginsInert [c])
  have hmarkInert := (hn.beginsInert []).isInert
  rw [List.append_nil] at hmarkInert
  exact List.forall_mem_cons.mpr ⟨hmarkInert,
    List.forall_mem_singleton.mpr (beginsInert_cons hsign []).isInert⟩

theorem passes_keyword {e : Entry} (he : e.IsPlain) {t : Token}
    (h : withoutVendor t ∈ e.literals) : t.Passes := by
  have hplain := he.literals _ h
  rcases withoutVendor_cases t with heq | ⟨mark, hmark, heq⟩
  · rw [heq] at hplain
    rcases Bool.or_eq_true_iff.mp hplain with hident | hsign
    · exact passes_name (isBareName_of_isPlainIdent hident)
    · obtain ⟨c, hc, hsingle⟩ := List.any_eq_true.mp hsign
      rw [of_decide_eq_true hsingle]
      exact passes_sign hc
  · rw [heq]
    rcases Bool.or_eq_true_iff.mp hplain with hident | hsign
    · exact passes_name (isBareName_of_isPlainIdent
        (isPlainIdent_vendor hmark (all_of_isPlainIdent hident)))
    · obtain ⟨c, hc, hsingle⟩ := List.any_eq_true.mp hsign
      rw [of_decide_eq_true hsingle]
      exact passes_vendorSign hmark hc

theorem passes_color {t : Token} (h : isHashColor t) : t.Passes := by
  have hcolor : ∀ u, isHashColor.color u → ∃ digits, u = '#' :: digits ∧
      (∀ c ∈ digits, isNameChar c) ∧ digits ≠ [] := by
    intro u hu
    unfold isHashColor.color at hu
    split at hu
    · rename_i digits
      obtain ⟨hall, hlength⟩ := Bool.and_eq_true_iff.mp hu
      refine ⟨digits, rfl, fun c hc => ?_, ?_⟩
      · exact isNameChar_of_isSmallNameChar
          (isSmallNameChar_of_isSmallHexDigit (List.all_eq_true.mp hall c hc))
      · rintro rfl
        simp at hlength
    · cases hu
  obtain ⟨u, ⟨digits, rfl, hall, hne⟩, hline⟩ := exists_of_isLineOf hcolor h
  exact passes_maybeLine hline (reads_hash hall hne) endsName_of_endsValue (by decide)
    (List.cons_ne_nil _ _) (beginsInert_cons (by decide) digits)

theorem IsNumeral.beginsInert {t : Text} (h : IsNumeral t) : Token.BeginsInert t := by
  obtain ⟨digits, unit, rfl, hdigits, -⟩ := h
  obtain ⟨c, rest, rfl, hc, -⟩ := (beginsNumber_of_accepts hdigits).exists_cons
  refine beginsInert_cons (fun hmem => ?_) _
  rcases hc with hc | hc
  · exact absurd hc ((by decide : ∀ c ∈ inertMarks, ¬ isDecimal c) c hmem)
  · exact (by decide : ∀ c ∈ inertMarks, ¬ (c = '.' ∨ c = '+' ∨ c = '-')) c hmem hc

theorem passes_quantity {t : Token} (h : isQuantity t) : t.Passes := by
  obtain ⟨n, hn, hline⟩ := isNumeral_of_isQuantity h
  exact passes_maybeLine hline (reads_numeral hn) endsNumber_of_endsValue
    (by decide) hn.ne_nil
      hn.beginsInert

theorem passes_quote (s : Text) : Token.Passes (quote s) := by
  refine ⟨⟨_, (reads_string (isStringBody_escapeString s) (isClean_escapeString s)).mono
    fun _ _ => rfl, List.forall_mem_singleton.mpr ?_⟩, fun hbroken => ?_⟩
  · simp [Token.isInert, quote, Token.semicolon, Token.openBrace, Token.closeBrace]
  · exact not_newline_mem_quote s (of_decide_eq_true (Bool.and_eq_true_iff.mp hbroken).2)

theorem passes_url (uri : Text) : Token.Passes (Url.token uri) := by
  have hspecial : ∀ c ∈ Url.escape uri, ¬ Url.isSpecial c := fun c hc =>
    Url.not_isSpecial_of_mem_escape hc
  have hreads := reads_url (Url.isStringBody_of_not_isSpecial hspecial) fun c hc =>
    Url.isClean_of_not_isSpecial (hspecial c hc)
  refine passes_of_reads hreads (fun _ _ => rfl) (List.forall_mem_singleton.mpr ?_)
    (beginsInert_cons (by decide) _)
  exact (beginsInert_cons (by decide) _).isInert

/-- A string that is not closed in its line is reported. -/
theorem not_isSound_openString {b rest : Text} (hb : IsStringBody b) :
    ¬ IsSound ('"' :: (b ++ '\n' :: rest)) := by
  have hlongest : (stringBody '"').longest? (b ++ '\n' :: rest) =
      some (b, '\n' :: rest) :=
    (stringBody '"').longest?_append hb rfl (Automaton.stuck_of_step_eq_none _ rfl)
  have hstring : string? ('"' :: (b ++ '\n' :: rest)) =
      some (⟨.openString, '"' :: b⟩, '\n' :: rest) := by
    rw [string?, if_pos (.inl rfl), hlongest]
    rfl
  have hfirst : first? ('"' :: (b ++ '\n' :: rest)) =
      some (⟨.openString, '"' :: b⟩, '\n' :: rest) := by
    rw [first?, space?_eq_none (by decide), comment?_eq_none
      fun h => absurd h (by decide), mark?_eq_none (by decide)
        fun h => absurd h (by decide), hstring]
    rfl
  intro hsound
  have hissue := hsound ⟨.openString, '"' :: b⟩
    (by rw [lexemes_of_first? hfirst]; exact List.mem_cons_self ..) .start
  cases hissue

/-- Words between quotes are a string, or a broken one. -/
theorem passes_or_breaks_words {ws : List Text} (hws : ∀ w ∈ ws, isWord w) :
    Token.Passes (quoteWords (joined [' '] ws)) ∨
    Token.Breaks (quoteWords (joined [' '] ws)) := by
  have hchars : ∀ c ∈ joined [' '] ws, isSmallNameChar c ∨ c = ' ' ∨ c = '\n' := by
    intro c hc
    by_cases hspace : c = ' '
    · exact .inr (.inl hspace)
    · rw [mem_joined (by simpa using hspace)] at hc
      obtain ⟨w, hw, hmem⟩ := hc
      exact (chars_of_isWord (hws w hw) c hmem).imp_right .inr
  generalize joined [' '] ws = words at hchars
  by_cases hnew : '\n' ∈ words
  · refine .inr ⟨?_, ?_, fun rest => ?_⟩
    · simp [Token.isBroken, quoteWords, hnew]
    · have hclean : ∀ c ∈ words, isClean c := by
        intro c hc
        rcases hchars c hc with hname | rfl | rfl
        · exact (isClean_of_isNameChar (isNameChar_of_isSmallNameChar hname)).1
        · decide
        · decide
      refine List.forall_mem_cons.mpr ⟨by decide, List.forall_mem_append.mpr ⟨hclean, ?_⟩⟩
      exact List.forall_mem_singleton.mpr (by decide)
    · -- up to the first newline the words are the inside of a string
      obtain ⟨b, more, rfl, hb⟩ := List.eq_append_cons_of_mem hnew
      have hbody : IsStringBody b := by
        have hquote : quoteWords b = quote b := by
          refine (quoteWords_eq fun c hc => ?_).1
          rcases hchars c (List.mem_append_left _ hc) with hname | hspace | rfl
          · exact .inl hname
          · exact .inr hspace
          · exact absurd hc hb
        have hescape : b = escapeString b :=
          List.append_cancel_right (List.cons.inj hquote).2
        rw [hescape]
        exact isStringBody_escapeString b
      have hunsound := @not_isSound_openString b (more ++ '"' :: rest) hbody
      simpa [quoteWords] using hunsound
  · refine .inl ?_
    rw [(quoteWords_eq fun c hc => ?_).1]
    · exact passes_quote words
    · rcases hchars c hc with hname | hspace | rfl
      · exact .inl hname
      · exact .inr hspace
      · exact absurd hc hnew

/-! ## Rows of tokens -/

theorem ReadsInert.append {t u : Text} (ht : ReadsInert t) (hu : ReadsInert u)
    (hstart : ∀ rest, Starts endsValue rest → Starts endsValue (u ++ rest)) :
    ReadsInert (t ++ u) := by
  obtain ⟨ts, hts, htsInert⟩ := ht
  obtain ⟨us, hus, husInert⟩ := hu
  exact ⟨ts ++ us, hts.append hus hstart, List.forall_mem_append.mpr ⟨htsInert, husInert⟩⟩

theorem starts_joinTail (ts : List Token) (rest : Text) (hrest : Starts endsValue rest) :
    Starts endsValue (joinTail ts ++ rest) := by
  cases ts with
  | nil => exact hrest
  | cons t ts =>
    rw [joinTail, List.flatMap_cons]
    split
    · rename_i hcomma
      rw [hcomma]
      exact starts_cons.mpr (by decide)
    · exact starts_cons.mpr (by decide)

theorem readsInert_joinTail {ts : List Token} (h : ∀ t ∈ ts, ReadsInert t) :
    ReadsInert (joinTail ts) := by
  induction ts with
  | nil => exact ⟨[], reads_nil _, fun _ hmem => absurd hmem List.not_mem_nil⟩
  | cons t ts ih =>
    obtain ⟨ht, hts⟩ := List.forall_mem_cons.mp h
    rw [joinTail, List.flatMap_cons]
    refine ReadsInert.append ?_ (ih hts) (starts_joinTail ts)
    split
    · exact ht
    · obtain ⟨us, hus, husInert⟩ := ht
      exact ⟨Token.space :: us,
        (reads_space (by decide) (by decide)).append_of_anything hus,
        List.forall_mem_cons.mpr ⟨by decide, husInert⟩⟩

theorem readsInert_joinValue {ts : List Token} (h : ∀ t ∈ ts, ReadsInert t) :
    ReadsInert (joinValue ts) := by
  cases ts with
  | nil => exact readsInert_joinTail h
  | cons t ts =>
    obtain ⟨ht, hts⟩ := List.forall_mem_cons.mp h
    exact ht.append (readsInert_joinTail hts) (starts_joinTail ts)

theorem passes_call {n : Text} (hn : IsBareName n)
    (hurl : n.map Char.toLower ≠ ['u', 'r', 'l']) {args : List Token}
    (hargs : ∀ t ∈ args, ReadsInert t) :
    Token.Passes (n ++ ['('] ++ joinValue args ++ [')']) := by
  obtain ⟨us, hus, husInert⟩ := readsInert_joinValue hargs
  have hclose : Reads anything [')'] [Token.closeParen] :=
    reads_mark (by decide) (by decide)
  have hreads :=
    ((reads_call hn hurl).append_of_anything hus).append_cons hclose (by decide)
  refine passes_of_reads hreads (fun _ _ => rfl) ?_ ?_
  · refine List.forall_mem_append.mpr ⟨List.forall_mem_append.mpr ⟨?_, husInert⟩,
      by decide⟩
    exact List.forall_mem_singleton.mpr (hn.beginsInert ['(']).isInert
  · rw [List.append_assoc, List.append_assoc]
    exact hn.beginsInert _

/-- The texts of the schema are plain, names get nothing appended since they are dropped,
and no function takes strings. -/
structure ValueContext.IsTame (ctx : ValueContext) : Prop where
  entries : ∀ e ∈ ctx.schema.entries, e.IsPlain
  unnamed : ctx.idSuffix = none
  functions : ∀ e ∈ ctx.schema.entries, ∀ name f, ctx.schema.function? e name = some f →
    f.allows .quotedString = false

/-- A permitted token is inert, or it is a string that is broken. -/
theorem Permitted.passes_or_breaks {ctx : ValueContext} (hctx : ctx.IsTame)
    {G : Text → Prop} {levels : Nat} {e : Entry} (he : e ∈ ctx.schema.entries) {t : Token}
    (h : Permitted ctx G levels e t) :
    t.Passes ∨ (e.allows .quotedString ∧ t.Breaks) := by
  induction h with
  | inherit => exact .inl (passes_name (isBareName_of_isPlainIdent (by decide)))
  | keyword hliteral => exact .inl (passes_keyword (hctx.entries _ he) hliteral)
  | color hentry ht => exact .inl (passes_color ht)
  | quantity hentry ht hhead => exact .inl (passes_quantity ht)
  | negative hentry ht hhead => exact .inl (passes_quantity ht)
  | string s hentry => exact .inl (passes_quote s)
  | words hentry hws hne =>
    exact (passes_or_breaks_words hws).imp_right fun h => ⟨hentry, h⟩
  | url hentry hpolicy hgrant => exact .inl (passes_url _)
  | call hfunction hne hargs ih =>
    obtain ⟨hmem, hf⟩ := Schema.mem_of_function? hfunction
    obtain ⟨hname, hurl⟩ := isPlainIdent_function (hctx.entries _ he) hmem
    refine .inl (passes_call (isBareName_of_isPlainIdent hname) hurl fun t ht => ?_)
    -- inside of a call nothing is broken, since functions take no strings
    rcases ih t ht hf with hpasses | ⟨hentry, -⟩
    · exact hpasses.reads
    · rw [hctx.functions _ he _ _ hfunction] at hentry
      cases hentry
  | name hentry hname hsuffix =>
    rw [hctx.unnamed] at hsuffix
    cases hsuffix
  | property hentry hname hproperty =>
    obtain ⟨e', he', rfl⟩ := Schema.exists_of_mem_names hname
    refine .inl (passes_name (isBareName_of_isPlainIdent ?_))
    rcases Bool.or_eq_true_iff.mp (hctx.entries e' he').name with hident | hkey
    · exact hident
    · exact absurd (Bool.and_eq_true_iff.mp hkey).1 hproperty

theorem isSound_joinTail_iff {ts : List Token} :
    IsSound (joinTail ts) ↔ IsSound (joinValue ts) := by
  cases ts with
  | nil => exact Iff.rfl
  | cons t ts =>
    rw [joinTail_cons]
    split
    · exact Iff.rfl
    · exact isSound_space (by decide) _

/-- The text of a value is sound only if none of its tokens is broken. -/
theorem not_isBroken_of_isSound {ts : List Token} (h : ∀ t ∈ ts, t.Passes ∨ t.Breaks)
    (hsound : IsSound (joinValue ts)) : ∀ t ∈ ts, ¬ t.isBroken := by
  induction ts with
  | nil => exact fun _ hmem => absurd hmem List.not_mem_nil
  | cons t ts ih =>
    obtain ⟨ht, hts⟩ := List.forall_mem_cons.mp h
    rw [joinValue_cons] at hsound
    rcases ht with hpasses | hbreaks
    · obtain ⟨us, hus, -⟩ := hpasses.reads
      have hstart := starts_joinTail ts [] (starts_nil _)
      rw [List.append_nil] at hstart
      -- a token that passes is read up to the next one, so the rest is sound by itself
      have hrest := isSound_joinTail_iff.mp ((hus.sound _ hstart).mp hsound)
      exact List.forall_mem_cons.mpr ⟨hpasses.unbroken, ih hts hrest⟩
    · exact absurd hsound (hbreaks.not_sound _)

theorem isClean_joinValue {ts : List Token} (h : ∀ t ∈ ts, ∀ c ∈ t, isClean c) :
    ∀ c ∈ joinValue ts, isClean c := by
  cases ts with
  | nil => exact fun _ hmem => absurd hmem List.not_mem_nil
  | cons t ts =>
    obtain ⟨ht, hts⟩ := List.forall_mem_cons.mp h
    refine List.forall_mem_append.mpr ⟨ht, fun c hc => ?_⟩
    obtain ⟨u, hu, hmem⟩ := List.mem_flatMap.mp hc
    split at hmem
    · exact hts u hu c hmem
    · rcases List.mem_cons.mp hmem with rfl | hmem
      · decide
      · exact hts u hu c hmem

/-- A row of tokens that pass or break is inert exactly if none of them is broken. -/
theorem inert_joinValue_iff {ts : List Token} (h : ∀ t ∈ ts, t.Passes ∨ t.Breaks) :
    ((lex (joinValue ts)).trace = [] ∧ ∀ t ∈ (lex (joinValue ts)).value, t.isInert) ↔
      ∀ t ∈ ts, ¬ t.isBroken := by
  constructor
  · rintro ⟨htrace, -⟩
    have hclean : ∀ t ∈ ts, ∀ c ∈ t, isClean c := by
      intro t ht
      rcases h t ht with hpasses | hbreaks
      · obtain ⟨us, hus, -⟩ := hpasses.reads
        exact hus.clean
      · exact hbreaks.clean
    exact not_isBroken_of_isSound h
      ((trace_lex_eq_nil_iff (isClean_joinValue hclean)).mp htrace)
  · intro hunbroken
    have hreads : ∀ t ∈ ts, ReadsInert t := by
      intro t ht
      rcases h t ht with hpasses | hbreaks
      · exact hpasses.reads
      · exact absurd hbreaks.broken (hunbroken t ht)
    obtain ⟨us, hus, husInert⟩ := readsInert_joinValue hreads
    rw [lex_of_reads hus]
    exact ⟨rfl, fun t ht => husInert t (mem_of_mem_foldr_consCollapsed
      ((List.dropWhile_sublist _).subset ht))⟩

/-! ## Properties -/

/-- The tokens that are left of a value pass, or they are broken strings. -/
theorem passes_or_breaks_sanitizeProperty {ctx : ValueContext} (hctx : ctx.IsTame)
    (name : Text) (value : List Token) :
    ∀ t ∈ (sanitizeProperty ctx name value).value, t.Passes ∨ t.Breaks := by
  intro t ht
  cases hfind : ctx.schema.find? (lower name) with
  | none =>
    rw [sanitizeProperty, hfind] at ht
    cases ht
  | some e =>
    have he := (Schema.mem_of_find? hfind).1
    exact ((permitted_of_find? hfind value t ht).passes_or_breaks hctx he).imp_right
      And.right

theorem not_function_of_mem_defaultTable : ∀ d ∈ defaultTable,
    d.permissions.allows .quotedString → ¬ List.isSuffixOf ['(', ')'] (lower d.name) := by
  decide +kernel

/-- No function of the default schema takes strings. -/
theorem isTame_default (policy : Option Url.Policy) (base : Option Text) :
    ValueContext.IsTame ⟨policy, base, defaultSchema, none⟩ := by
  refine ⟨isPlain_of_mem_defaultSchema, rfl, fun e he name f hf => ?_⟩
  obtain ⟨d, hd, hname, hpermissions⟩ :=
    Schema.exists_of_function? comesFrom_of_mem_defaultSchema he hf
  have hsuffix : List.isSuffixOf ['(', ')'] (lower d.name) := by
    rw [hname]
    exact List.isSuffixOf_iff_suffix.mpr (List.suffix_append ..)
  rw [Entry.allows, hpermissions]
  exact Bool.eq_false_iff.mpr fun hentry =>
    not_function_of_mem_defaultTable d hd hentry hsuffix

/-- What is left of a value by the default schema is read without a report, and
nothing in it ends a declaration or a block or begins an at-rule, exactly if there is
no string with a newline in it. -/
theorem sanitizeProperty_inert_iff (policy : Option Url.Policy) (base : Option Text)
    (name : Text) (value : List Token) :
    let kept := (sanitizeProperty ⟨policy, base, defaultSchema, none⟩ name value).value
    ((lex (joinValue kept)).trace = [] ∧ ∀ t ∈ (lex (joinValue kept)).value, t.isInert) ↔
      ∀ t ∈ kept, ¬ t.isBroken :=
  inert_joinValue_iff (passes_or_breaks_sanitizeProperty
    (isTame_default policy base) name value)

/-- A word that passes with a newline after it is written as a string that its line does
not end, and what follows is read as if it stood outside of strings. -/
theorem sanitizeProperty_not_inert :
    let kept := (sanitizeProperty ⟨none, none, defaultSchema, none⟩ "font-family"
      ["a\n", ",", "\";\x7d@import\""]).value
    joinValue kept = "\"a\n\", \";\x7d@import\"" ∧ (lex (joinValue kept)).trace ≠ [] ∧
      ∃ t ∈ (lex (joinValue kept)).value, ¬ t.isInert := by
  decide +kernel

end CssGuard
