import CssGuard.Proofs.Value.Emitted

/-!
# Sanitized values are legible

The scraps of a sanitized value are legible: names and numbers, strings and URLs, signs,
and calls of plain functions. So its text is read back scrap by scrap.

- `ValueContext.IsPlain`: the texts that a value may get from its context are plain
- `Atom.isAtom`: a scrap with an origin is a legible atom
- `Emitted.isLegible`: the scraps of a value are legible
- `Emitted.joins`: the text of a value is the text of its scraps, whatever comes after it
-/

namespace CssGuard

open Text Escape
open scoped Text.ByCharacter

/-- The texts of the schema are plain, and what names get appended is a suffix. -/
structure ValueContext.IsPlain (ctx : ValueContext) : Prop where
  entries : ∀ e ∈ ctx.schema.entries, e.IsPlain
  suffix : ∀ suffix ∈ ctx.idSuffix, isIdSuffix suffix

/-! ## Atoms -/

/-- A text whose final newline is set apart. -/
theorem isAtom_ofText {t q : Text} (h : IsMaybeLine t q) (hnew : '\n' ∉ t)
    (hplain : (Scrap.plain t).IsAtom) (hline : (Scrap.line t).IsAtom) :
    (Scrap.ofText q).IsAtom := by
  rcases h with rfl | rfl
  · have hlast : ¬ q.getLast? = some '\n' :=
      fun hlast => hnew (List.mem_of_getLast? hlast)
    rw [Scrap.ofText, if_neg hlast]
    exact hplain
  · rw [Scrap.ofText, if_pos List.getLast?_concat, List.dropLast_concat]
    exact hline

theorem isAtom_ofText_name {n q : Text} (h : IsMaybeLine n q) (hn : IsBareName n) :
    (Scrap.ofText q).IsAtom :=
  isAtom_ofText h hn.not_newline_mem (isAtom_name hn) (isAtom_nameLine hn)

theorem isAtom_ofText_numeral {t q : Text} (h : IsMaybeLine t q) (ht : IsNumeral t) :
    (Scrap.ofText q).IsAtom :=
  isAtom_ofText h (ht.not_mem (by decide) (by decide) (by decide) (by decide))
    (isAtom_numeral ht) (isAtom_numeralLine ht)

theorem isNameChar_of_isWordChar {c : Char} (h : isWordChar c) : isNameChar c := by
  rcases ascii_or_foreign c with hc | hc
  · exact forall_ascii (fun c => isWordChar c → isNameChar c) (by decide) hc h
  · exact isNameChar_of_isForeign hc

/-- A name with a suffix is a name, maybe with a newline after it. -/
theorem exists_name_suffix {n suffix : Text} (hn : IsBareName n)
    (hsuffix : isIdSuffix suffix) :
    ∃ n', IsBareName n' ∧ IsMaybeLine n' (n ++ suffix) := by
  have hchars : ∀ {u : Text}, (u.all fun c => isWordChar c || c = '-') = true →
      IsBareName (n ++ u) := by
    intro u hu
    refine ⟨fun c hc => ?_, hn.begins.append u⟩
    rcases List.mem_append.mp hc with hc | hc
    · exact hn.all c hc
    · rcases Bool.or_eq_true_iff.mp (List.all_eq_true.mp hu c hc) with hc | hc
      · exact isNameChar_of_isWordChar hc
      · rw [of_decide_eq_true hc]
        decide
  rcases cases_of_isLineOf hsuffix with hu | ⟨u, rfl, hu⟩
  · exact ⟨_, hchars hu, .inl rfl⟩
  · exact ⟨_, hchars hu, .inr (List.append_assoc ..).symm⟩

theorem isPlainNameChar_of_isSmallNameChar {c : Char} (h : isSmallNameChar c) :
    isPlainNameChar c := by
  unfold isPlainNameChar
  simp only [isSmallNameChar, Bool.or_eq_true, decide_eq_true_eq] at h
  rcases h with ((h | h) | h) | h
  · simp [isLetter_of_isSmall h]
  · simp [h]
  · simp [h]
  · simp [h]

theorem isNameChar_of_isSmallNameChar {c : Char} (h : isSmallNameChar c) : isNameChar c :=
  isNameChar_of_isPlainNameChar (isPlainNameChar_of_isSmallNameChar h)

theorem isSmallNameChar_of_isSmallHexDigit {c : Char} (h : isSmallHexDigit c) :
    isSmallNameChar c := by
  rcases Bool.or_eq_true_iff.mp h with h | h
  · simp [isSmallNameChar, h]
  · obtain ⟨hfirst, hlast⟩ := Bool.and_eq_true_iff.mp h
    have hsmall : isSmall c := by
      simp only [decide_eq_true_eq, Char.le_def, UInt32.le_iff_toNat_le] at hfirst hlast
      exact isSmall_iff.mpr ⟨hfirst, Nat.le_trans hlast (by decide)⟩
    simp [isSmallNameChar, hsmall]

theorem isAtom_plainKeyword {t : Text} (h : isPlainKeyword t) :
    (Scrap.plain t).IsAtom := by
  rcases Bool.or_eq_true_iff.mp h with hident | hsign
  · exact isAtom_name (isBareName_of_isPlainIdent hident)
  · obtain ⟨c, hc, heq⟩ := List.any_eq_true.mp hsign
    rw [of_decide_eq_true heq]
    exact isAtom_sign hc

/-- A keyword, maybe with a vendor's mark in front of it. No token has that mark in front
of a sign other than the hyphen. -/
theorem isAtom_keyword {e : Entry} (he : e.IsPlain) {raw : Token} (hraw : Shape raw)
    (h : lower raw = "inherit" ∨ withoutVendor (lower raw) ∈ e.literals) :
    (Scrap.plain (lower raw)).IsAtom := by
  rcases h with h | h
  · rw [h]
    exact isAtom_name (isBareName_of_isPlainIdent (by decide))
  · have hplain := he.literals _ h
    rcases withoutVendor_cases (lower raw) with heq | ⟨mark, hmark, heq⟩
    · rw [heq] at hplain
      exact isAtom_plainKeyword hplain
    · refine isAtom_name (isBareName_of_isPlainIdent ?_)
      rw [heq]
      refine isPlainIdent_vendor hmark ?_
      rcases Bool.or_eq_true_iff.mp hplain with hident | hsign
      · exact all_of_isPlainIdent hident
      · obtain ⟨c, hc, hsingle⟩ := List.any_eq_true.mp hsign
        rw [of_decide_eq_true hsingle] at heq ⊢
        obtain ⟨d, rest, rfl, hd, -⟩ := exists_of_mem_vendorMarks hmark
        have hclass : ∀ c ∈ valueSigns, c.toNat < 0x80 ∧ ¬ isSmall c ∧
            (isNameChar c ∨ c ∈ ['\\', ' ', '('] → isPlainNameChar c) := by
          decide
        obtain ⟨hascii, hsmall, hname⟩ := hclass c hc
        refine List.forall_mem_singleton.mpr (hname (hraw.nameChars_of_lower heq hd c ?_))
        refine mem_of_mem_lower ?_ hascii hsmall
        rw [heq]
        exact List.mem_append_right _ (List.mem_singleton.mpr rfl)

theorem escapeString_eq_self {t : Text} (h : ∀ c ∈ t, ¬ isStringSpecial c) :
    escapeString t = t := by
  induction t with
  | nil => rfl
  | cons c t ih =>
    obtain ⟨hc, ht⟩ := List.forall_mem_cons.mp h
    have hcons : escapeString (c :: t) = [c] ++ escapeString t := by
      rw [escapeString, List.flatMap_cons, if_neg hc]
      rfl
    rw [hcons, ih ht]
    rfl

/-- Words between quotes are a string. -/
theorem quoteWords_eq {w : Text} (hw : ∀ c ∈ w, isSmallNameChar c ∨ c = ' ') :
    quoteWords w = quote w ∧ '\x00' ∉ w := by
  have hchar : ∀ c ∈ w, ¬ isStringSpecial c ∧ c ≠ '\x00' := by
    intro c hc
    rcases hw c hc with h | rfl
    · have hname := isNameChar_of_isSmallNameChar h
      rcases ascii_or_foreign c with hascii | hforeign
      · exact forall_ascii (fun c => isNameChar c → ¬ isStringSpecial c ∧ c ≠ '\x00')
          (by decide) hascii hname
      · refine ⟨fun hs => not_ascii_of_isForeign hforeign (ascii_of_isStringSpecial hs),
          ?_⟩
        rintro rfl
        exact absurd hforeign (by decide)
    · decide
  refine ⟨?_, fun hnul => (hchar _ hnul).2 rfl⟩
  rw [quote, escapeString_eq_self fun c hc => (hchar c hc).1, quoteWords]

variable {ctx : ValueContext} {S : Token → Prop} {G : Text → Prop}

/-- Words of tokens have only characters of words. -/
theorem chars_of_words (hS : ∀ t, S t → Shape t) {e : Entry} {ws : List Token}
    (hws : ∀ raw ∈ ws, S raw ∧ Form.of e raw = .word) :
    ∀ c ∈ joined [' '] (ws.map lower), isSmallNameChar c ∨ c = ' ' := by
  intro c hc
  by_cases hspace : c = ' '
  · exact .inr hspace
  · rw [mem_joined (by simpa using hspace)] at hc
    obtain ⟨w, hw, hmem⟩ := hc
    obtain ⟨raw, hraw, rfl⟩ := List.mem_map.mp hw
    obtain ⟨hshape, hform⟩ := hws raw hraw
    obtain ⟨d, rest, heq, hd, hrest⟩ :=
      (hS raw hshape).exists_of_isWord (Form.says_of_eq hform).2
    rw [heq] at hmem
    rcases List.mem_cons.mp hmem with rfl | hmem
    · refine .inl ?_
      rcases Bool.or_eq_true_iff.mp hd with hd | hd <;> simp [isSmallNameChar, hd]
    · exact .inl (hrest c hmem)

/-- A scrap with an origin is a legible atom. -/
theorem Atom.isAtom (hctx : ctx.IsPlain) (hS : ∀ t, S t → Shape t) {e : Entry}
    (he : e.IsPlain) {a : Scrap} (h : Atom ctx S G e a) : a.IsAtom := by
  cases h with
  | keyword hraw hform => exact isAtom_keyword he (hS _ hraw) (Form.says_of_eq hform)
  | color hraw hform =>
    obtain ⟨digits, heq, hne, hall⟩ :=
      (hS _ hraw).exists_of_isHashColor (Form.says_of_eq hform)
    rw [heq]
    exact isAtom_hash (fun c hc =>
      isNameChar_of_isSmallNameChar (isSmallNameChar_of_isSmallHexDigit (hall c hc))) hne
  | quantity hraw hform hnormal =>
    obtain ⟨t, ht, hline⟩ := isNumeral_of_normalQuantity? hnormal
    exact isAtom_ofText_numeral hline ht
  | name hraw hform hentry hsuffix =>
    have hname := (hS _ hraw).isBareName (Form.says_of_eq hform).2
    obtain ⟨n, hn, hline⟩ := exists_name_suffix hname (hctx.suffix _ hsuffix)
    exact isAtom_ofText_name hline hn
  | property hraw hform hentry hglobal hfind =>
    obtain ⟨hbegins, hall⟩ := (hS _ hraw).exists_of_isName (Form.says_of_eq hform).2
    exact isAtom_name ⟨fun c hc => isNameChar_of_isSmallNameChar (hall c hc), hbegins⟩
  | string hraw hform hurl hentry =>
    obtain ⟨s, hnul, -, rfl⟩ := (hS _ hraw).of_stringBody? (Form.says_of_eq hform)
    rw [decode_escapeString hnul]
    exact isAtom_quote hnul
  | words hws hne =>
    obtain ⟨heq, hnul⟩ := quoteWords_eq (chars_of_words hS hws)
    rw [heq]
    exact isAtom_quote hnul
  | url hgrant hentry hpolicy =>
    exact isAtom_url fun c hc => Url.not_isSpecial_of_mem_escape hc

/-- The name of a permitted function. -/
theorem isPlainIdent_function {e : Entry} (he : e.IsPlain) {n : Text}
    (h : withoutVendor n ∈ e.functionNames) :
    isPlainIdent n ∧ n.map Char.toLower ≠ ['u', 'r', 'l'] := by
  obtain ⟨hident, hurl⟩ := Bool.and_eq_true_iff.mp (he.functions _ h)
  rcases withoutVendor_cases n with heq | ⟨mark, hmark, heq⟩
  · rw [heq] at hident hurl
    exact ⟨hident, of_decide_eq_true hurl⟩
  · have hvendor := isPlainIdent_vendor hmark (all_of_isPlainIdent hident)
    obtain ⟨c, rest, rfl, -⟩ := exists_of_mem_vendorMarks hmark
    rw [heq]
    refine ⟨hvendor, fun hmap => ?_⟩
    exact absurd (List.cons.inj hmap).1 (by decide)

/-! ## Values -/

/-- The scraps of a value are legible. -/
theorem Emitted.isLegible (hctx : ctx.IsPlain) (hS : ∀ t, S t → Shape t)
    {levels : Nat} {e : Entry} (he : e.IsPlain) {ts : List Token} {scraps : List Scrap}
    (h : Emitted ctx S G levels e ts scraps) : ∀ a ∈ scraps, a.IsLegible := by
  induction h with
  | nil => exact fun a ha => absurd ha List.not_mem_nil
  | atom ha _ ih =>
    exact List.forall_mem_cons.mpr ⟨(ha.isAtom hctx hS he).toIsLegible, ih he⟩
  | call hraw hlower hform hfunction hargs _ _ ihinner ih =>
    obtain ⟨hmem, hf⟩ := Schema.mem_of_function? hfunction
    obtain ⟨hname, hurl⟩ := isPlainIdent_function he hmem
    intro a ha
    rcases List.mem_append.mp ha with ha | ha
    · rcases List.mem_cons.mp ha with rfl | ha
      · exact isLegible_call (isBareName_of_isPlainIdent hname) hurl
      · exact ihinner (hctx.entries _ hf) a ha
    · rcases List.mem_cons.mp ha with rfl | ha
      · exact isLegible_closeParen
      · exact ih he a ha

/-- The text of the tokens of a value after its first. -/
def joinTail (ts : List Token) : Text :=
  ts.flatMap fun t => if t = Token.comma then t else ' ' :: t

theorem joinValue_cons (t : Token) (ts : List Token) :
    joinValue (t :: ts) = t ++ joinTail ts :=
  rfl

theorem joinTail_cons (t : Token) (ts : List Token) :
    joinTail (t :: ts) = (if t = Token.comma then []
      else [' ']) ++ joinValue (t :: ts) := by
  rw [joinTail, List.flatMap_cons, joinValue_cons]
  split <;> rfl

/-- A first token joins the rest of a value in the same way wherever it stands. -/
theorem joins_cons {t : Token} {ts : List Token} {a : Scrap} {row : List Scrap}
    {rest : Text} (htight : a.isTight = decide (t = Token.comma))
    (h : a.text ++ spread a.opens row = joinValue (t :: ts) ++ rest) :
    spread false (a :: row) = joinTail (t :: ts) ++ rest ∧
      spread true (a :: row) = joinValue (t :: ts) ++ rest := by
  constructor
  · rw [spread, htight, joinTail_cons, List.append_assoc, h, List.append_assoc]
    by_cases hcomma : t = Token.comma
    · simp [hcomma]
    · simp [hcomma]
  · rw [← h]
    rfl

/-- The text of a value is the text of its scraps, at the beginning
of a row and in the middle. -/
theorem Emitted.joins (hctx : ctx.IsPlain) (hS : ∀ t, S t → Shape t)
    {levels : Nat} {e : Entry} (he : e.IsPlain) {ts : List Token} {scraps : List Scrap}
    (h : Emitted ctx S G levels e ts scraps) (row : List Scrap) :
    spread false (scraps ++ row) = joinTail ts ++ spread false row ∧
      (ts ≠ [] → spread true (scraps ++ row) = joinValue ts ++ spread false row) := by
  induction h generalizing row with
  | nil => exact ⟨rfl, fun hne => absurd rfl hne⟩
  | @atom _ _ a ts scraps ha _ ih =>
    have hatom := ha.isAtom hctx hS he
    have htight : a.isTight = decide (a.text = Token.comma) := by
      rw [Scrap.isTight, decide_eq_false hatom.not_close, Bool.or_false]
    have hjoin : a.text ++ spread a.opens (scraps ++ row) =
        joinValue (a.text :: ts) ++ spread false row := by
      rw [hatom.opens_eq, (ih he row).1, joinValue_cons, List.append_assoc]
    exact ⟨(joins_cons htight hjoin).1, fun _ => (joins_cons htight hjoin).2⟩
  | @call _ _ f raw n args ts inner scraps hraw hlower hform hfunction hargs _ _
    ihinner ih =>
    have hf := (Schema.mem_of_function? hfunction).2
    have hopens : (Scrap.plain (n ++ ['('])).opens = true := by
      rw [Scrap.opens, Token.opensParen]
      exact decide_eq_true List.getLast?_concat
    have hopening : ∀ c, n ++ ['('] = [c] → c = '(' := by
      intro c hc
      have hlast := congrArg List.getLast? hc
      rw [List.getLast?_concat] at hlast
      exact (Option.some.inj hlast).symm
    have hclosing : n ++ ['('] ++ joinValue args ++ [')'] ≠ Token.comma := by
      intro hc
      have hlast := congrArg List.getLast? hc
      rw [List.getLast?_concat] at hlast
      exact absurd hlast (by decide)
    have htight : (Scrap.plain (n ++ ['('])).isTight =
        decide (n ++ ['('] ++ joinValue args ++ [')'] = Token.comma) := by
      rw [decide_eq_false hclosing, Scrap.isTight, Bool.or_eq_false_iff]
      exact ⟨decide_eq_false fun hc => absurd (hopening _ hc) (by decide),
        decide_eq_false fun hc => absurd (hopening _ hc) (by decide)⟩
    -- after the arguments the closing parenthesis stands without a space
    have hclose : spread false (.plain Token.closeParen :: (scraps ++ row)) =
        [')'] ++ (joinTail ts ++ spread false row) := by
      rw [spread, show (Scrap.plain Token.closeParen).isTight = true from by decide,
        show (Scrap.plain Token.closeParen).opens = false from by decide, (ih he row).1]
      rfl
    have hjoin : (Scrap.plain (n ++ ['('])).text ++
        spread (Scrap.plain (n ++ ['('])).opens (inner ++
          .plain Token.closeParen :: (scraps ++ row)) =
        joinValue ((n ++ ['('] ++ joinValue args ++ [')']) :: ts) ++
          spread false row := by
      rw [hopens, (ihinner (hctx.entries _ hf) _).2 hargs, hclose, joinValue_cons]
      simp only [Scrap.text, List.append_assoc]
    have hrow : .plain (n ++ ['(']) :: inner ++ .plain Token.closeParen :: scraps ++ row =
        .plain (n ++ ['(']) :: (inner ++ .plain Token.closeParen :: (scraps ++ row)) := by
      simp only [List.cons_append, List.append_assoc]
    rw [hrow]
    exact ⟨(joins_cons htight hjoin).1, fun _ => (joins_cons htight hjoin).2⟩

theorem Scrap.IsAtom.text_not_mem {a : Scrap} (h : a.IsAtom) :
    a.text ∉ [Token.space, Token.colon, Token.semicolon] := by
  intro hmem
  have hsingle : ∃ c ∈ [' ', ':', ';'], a.text = [c] := by
    simp only [List.mem_cons, List.not_mem_nil, or_false] at hmem
    rcases hmem with h | h | h
    · exact ⟨' ', by decide, h⟩
    · exact ⟨':', by decide, h⟩
    · exact ⟨';', by decide, h⟩
  obtain ⟨c, hc, htext⟩ := hsingle
  cases a with
  | plain t =>
    have ht := h.tokens t (List.mem_singleton.mpr rfl)
    simp only [List.mem_cons, List.not_mem_nil, or_false] at hmem
    rcases hmem with hspace | hcolon | hsemi
    · exact ht.not_space hspace
    · exact ht.not_colon hcolon
    · exact ht.not_structural (by rw [show t = Token.semicolon from hsemi]; decide)
  | line t =>
    have hlast : some '\n' = [c].getLast? := by
      rw [← htext]
      exact List.getLast?_concat.symm
    have hnew : '\n' = c := Option.some.inj hlast
    rw [← hnew] at hc
    exact absurd hc (by decide)
  | url uri => cases (List.cons.inj htext).2
  | important => exact absurd hmem (by decide)

/-- No token of a value is a space or a mark between declarations. -/
theorem Emitted.not_mem_marks (hctx : ctx.IsPlain) (hS : ∀ t, S t → Shape t)
    {levels : Nat} {e : Entry} (he : e.IsPlain) {ts : List Token} {scraps : List Scrap}
    (h : Emitted ctx S G levels e ts scraps) :
    ∀ t ∈ ts, t ∉ [Token.space, Token.colon, Token.semicolon] := by
  induction h with
  | nil => exact fun t ht => absurd ht List.not_mem_nil
  | atom ha _ ih =>
    exact List.forall_mem_cons.mpr ⟨(ha.isAtom hctx hS he).text_not_mem, ih he⟩
  | call _ _ _ _ _ _ _ _ ih =>
    refine List.forall_mem_cons.mpr ⟨fun hmem => ?_, ih he⟩
    have hlast : ∀ t ∈ [Token.space, Token.colon, Token.semicolon],
        t.getLast? ≠ some ')' := by
      decide
    exact hlast _ hmem List.getLast?_concat

end CssGuard
