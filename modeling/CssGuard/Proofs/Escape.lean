import CssGuard.Proofs.Text.Classes
import CssGuard.Escape

/-!
# Escapes are read back

Decoding undoes the escapes that encoding writes, and never gives a NUL.

- `decodeFrom_append`: decoding in pieces
- `decode_eq_self`: a text without a backslash
- `decodeFrom_hexEscape`, `decode_escapeString`: what an escape stands for
- `not_nul_mem_decode`: decoding gives no NUL
- `escapeIdent_of_no_backslash`: a name that needed no escape is the text it stands for
- `escapeIdent_cons`, `escapeIdent_hyphen`: how a name is written, character by character
- `decode_escapeName`, `decode_escapeIdent`: what a name stands for
-/

namespace CssGuard.Escape

open Text

/-! ## Decoding in pieces -/

/-- What a text adds, and what is open after it. -/
def readAll (mode : Mode) : Text → Text × Mode
  | [] => ([], mode)
  | c :: rest =>
    ((read mode c).1 ++ (readAll (read mode c).2 rest).1,
      (readAll (read mode c).2 rest).2)

theorem decodeFrom_append (mode : Mode) (t u : Text) :
    decodeFrom mode (t ++ u) = (readAll mode t).1 ++ decodeFrom (readAll mode t).2 u := by
  induction t generalizing mode with
  | nil => rfl
  | cons c t ih => rw [List.cons_append, decodeFrom, ih, readAll, List.append_assoc]

theorem readAll_append (mode : Mode) (t u : Text) :
    readAll mode (t ++ u) =
      ((readAll mode t).1 ++ (readAll (readAll mode t).2 u).1,
        (readAll (readAll mode t).2 u).2) := by
  induction t generalizing mode with
  | nil => rfl
  | cons c t ih => rw [List.cons_append, readAll, ih, readAll, List.append_assoc]

theorem decodeFrom_cons_plain {c : Char} (h : c ≠ '\\') (t : Text) :
    decodeFrom .plain (c :: t) = c :: decodeFrom .plain t := by
  rw [decodeFrom, read, readPlain, if_neg h]
  rfl

/-- A text without a backslash stands for itself. -/
theorem decode_eq_self {t : Text} (h : '\\' ∉ t) : decode t = t := by
  induction t with
  | nil => rfl
  | cons c t ih =>
    rw [List.mem_cons, not_or] at h
    rw [decode, decodeFrom_cons_plain (Ne.symm h.1)]
    exact congrArg (c :: ·) (ih h.2)

/-! ## The escape of a character -/

theorem isHexDigit_digitChar {n : Nat} (h : n < 16) :
    isHexDigit n.digitChar ∧ hexValue n.digitChar = n := by
  have : ∀ m : Fin 16, isHexDigit m.val.digitChar ∧ hexValue m.val.digitChar = m.val := by
    decide
  exact this ⟨n, h⟩

/-- The digits of a number lead to the number. -/
theorem readAll_hex (k : Nat) : ∀ n, n < Nat.pow 16 (k + 1) → k < 6 →
    ∃ count ≤ k + 1, readAll .backslash (hex n) = ([], .digits n count) := by
  induction k with
  | zero =>
    intro n hn _
    have hn : n < 16 := hn
    obtain ⟨hhex, hvalue⟩ := isHexDigit_digitChar hn
    refine ⟨1, Nat.le_refl 1, ?_⟩
    rw [hex, Nat.toDigits_of_lt_base hn, readAll, read, if_pos hhex, hvalue]
    rfl
  | succ k ih =>
    intro n hn hk
    have hn : n < Nat.pow 16 (k + 1) * 16 := hn
    by_cases hsmall : n < 16
    · have hpow : 16 ≤ Nat.pow 16 (k + 1) := Nat.le_pow (Nat.succ_pos k)
      obtain ⟨count, hcount, hread⟩ := ih n (Nat.lt_of_lt_of_le hsmall hpow) (by omega)
      exact ⟨count, by omega, hread⟩
    · obtain ⟨count, hcount, hread⟩ := ih (n / 16) (by omega) (by omega)
      obtain ⟨hhex, hvalue⟩ := isHexDigit_digitChar (Nat.mod_lt n (by decide : 0 < 16))
      refine ⟨count + 1, by omega, ?_⟩
      rw [hex] at hread ⊢
      rw [Nat.toDigits_eq_if (by decide), if_neg hsmall, readAll_append, hread]
      show ([] ++ (readAll (.digits (n / 16) count) [(n % 16).digitChar]).1, _) = _
      rw [readAll, read, if_pos ⟨hhex, by omega⟩, hvalue, Nat.div_add_mod]
      rfl

theorem toNat_lt (c : Char) : c.toNat < 0x110000 := by
  have h := c.valid
  simp only [UInt32.isValidChar, Nat.isValidChar] at h
  show c.val.toNat < _
  omega

theorem ofCode_toNat {c : Char} (h : c ≠ '\x00') : ofCode c.toNat = c := by
  have hvalid := c.valid
  simp only [UInt32.isValidChar, Nat.isValidChar] at hvalid
  have hnat : c.toNat = c.val.toNat := rfl
  have hzero : c.toNat ≠ 0 := by
    intro hc
    rw [← Char.ofNat_toNat c, hc] at h
    exact h rfl
  rw [ofCode, if_neg (by omega), Char.ofNat_toNat]

theorem readAll_hexEscape {c : Char} (h : c ≠ '\x00') :
    readAll .plain (hexEscape c) = ([c], .plain) := by
  obtain ⟨count, hcount, hread⟩ := readAll_hex 5 c.toNat
    (Nat.lt_of_lt_of_le (toNat_lt c) (by decide)) (by decide)
  have hspace : readAll (.digits c.toNat count) [' '] = ([c], .plain) := by
    rw [readAll, read, if_neg (by rintro ⟨h, -⟩; cases h), if_neg (by decide),
      if_pos (by decide : isSpace ' '), ofCode_toNat h]
    rfl
  rw [hexEscape, List.cons_append, readAll, read, readPlain, if_pos rfl]
  simp only [readAll_append, hread, hspace]
  rfl

/-- The escape of a character stands for the character. -/
theorem decodeFrom_hexEscape {c : Char} (h : c ≠ '\x00') (t : Text) :
    decodeFrom .plain (hexEscape c ++ t) = c :: decodeFrom .plain t := by
  rw [decodeFrom_append, readAll_hexEscape h]
  rfl

/-- Escaping for a string is undone by decoding. -/
theorem decode_escapeString {t : Text} (h : '\x00' ∉ t) :
    decode (escapeString t) = t := by
  induction t with
  | nil => rfl
  | cons c t ih =>
    rw [List.mem_cons, not_or] at h
    rw [escapeString, List.flatMap_cons, decode]
    split
    · rw [decodeFrom_hexEscape (Ne.symm h.1)]
      exact congrArg (c :: ·) (ih h.2)
    · rename_i hspecial
      rw [List.singleton_append, decodeFrom_cons_plain]
      · exact congrArg (c :: ·) (ih h.2)
      · rintro rfl
        exact hspecial rfl

/-- An escape in digits stands for a character. -/
theorem decodeFrom_digits_ne_nil {value count : Nat} {t : Text} :
    decodeFrom (.digits value count) t ≠ [] := by
  induction t generalizing value count with
  | nil => exact List.cons_ne_nil _ _
  | cons c t ih =>
    rw [decodeFrom, read]
    split
    · exact ih
    · repeat' split
      all_goals exact List.cons_ne_nil _ _

/-! ## No NUL -/

theorem ofCode_ne_nul (n : Nat) : ofCode n ≠ '\x00' := by
  unfold ofCode
  split
  · decide
  · rename_i h
    intro heq
    have hvalid : n.isValidChar := by
      unfold Nat.isValidChar
      omega
    have hnat : (Char.ofNat n).toNat = n := by
      rw [Char.ofNat, dif_pos hvalid]
      rfl
    rw [heq] at hnat
    exact h (.inl hnat.symm)

theorem not_nul_mem_read {mode : Mode} {c : Char} (h : c ≠ '\x00') :
    '\x00' ∉ (read mode c).1 := by
  have hne := Ne.symm h
  have hcode := fun n => Ne.symm (ofCode_ne_nul n)
  unfold read readPlain
  repeat' split
  all_goals simp [hne, hcode]

theorem not_nul_mem_decodeFrom {t : Text} (h : '\x00' ∉ t) :
    ∀ {mode : Mode}, '\x00' ∉ decodeFrom mode t := by
  induction t with
  | nil =>
    intro mode
    cases mode with
    | plain => decide
    | backslash => decide
    | digits value count => simpa [decodeFrom, finish] using Ne.symm (ofCode_ne_nul value)
    | afterReturn => decide
  | cons c t ih =>
    intro mode
    rw [List.mem_cons, not_or] at h
    rw [decodeFrom, List.mem_append, not_or]
    exact ⟨not_nul_mem_read (Ne.symm h.1), ih h.2⟩

/-- Decoding gives no NUL. -/
theorem not_nul_mem_decode {t : Text} (h : '\x00' ∉ t) : '\x00' ∉ decode t :=
  not_nul_mem_decodeFrom h

/-! ## Characters of escaped texts -/

theorem isHexDigit_of_mem_hex {n : Nat} {c : Char} (h : c ∈ hex n) : isHexDigit c := by
  induction n using Nat.strongRecOn with
  | _ n ih =>
    rw [hex, Nat.toDigits_eq_if (by decide)] at h
    split at h
    · rename_i hn
      rw [List.mem_singleton.mp h]
      exact (isHexDigit_digitChar hn).1
    · rename_i hn
      rcases List.mem_append.mp h with h | h
      · exact ih (n / 16) (by omega) h
      · rw [List.mem_singleton.mp h]
        exact (isHexDigit_digitChar (Nat.mod_lt n (by decide))).1

theorem ascii_of_isHexDigit {c : Char} (h : isHexDigit c) : c.toNat < 0x80 := by
  simp only [isHexDigit, Char.isDigit, Bool.or_eq_true, Bool.and_eq_true,
    decide_eq_true_eq, Char.le_def, UInt32.le_iff_toNat_le, ge_iff_le] at h
  have : c.toNat = c.val.toNat := rfl
  have hf : ('f' : Char).val.toNat = 0x66 := rfl
  have hF : ('F' : Char).val.toNat = 0x46 := rfl
  have h9 : ('9' : Char).val.toNat = 0x39 := rfl
  omega

theorem isPlainNameChar_of_isHexDigit {c : Char} (h : isHexDigit c) : isPlainNameChar c :=
  forall_ascii (fun c => isHexDigit c → isPlainNameChar c) (by decide)
    (ascii_of_isHexDigit h) h

/-- An escape is made of a backslash, hexadecimal digits and a space. -/
theorem mem_hexEscape {c d : Char} (h : d ∈ hexEscape c) :
    d = '\\' ∨ isHexDigit d ∨ d = ' ' := by
  rcases List.mem_append.mp h with h | h
  · rcases List.mem_cons.mp h with h | h
    · exact .inl h
    · exact .inr (.inl (isHexDigit_of_mem_hex h))
  · exact .inr (.inr (List.mem_singleton.mp h))

theorem ascii_of_isStringSpecial {c : Char} (h : isStringSpecial c) : c.toNat < 0x80 := by
  simp only [isStringSpecial, Bool.or_eq_true, decide_eq_true_eq] at h
  rcases h with ((((((h | rfl) | rfl) | rfl) | rfl) | rfl) | rfl) | rfl
  · omega
  all_goals decide

/-- What is escaped in strings is not in an escaped text,
except for the mark of escapes. -/
theorem not_mem_escapeString {x : Char} (hx : isStringSpecial x) (hmark : x ≠ '\\')
    (t : Text) : x ∉ escapeString t := by
  have hescape : ∀ c, x ∉ hexEscape c := by
    intro c hmem
    refine forall_ascii (fun x => isStringSpecial x → x ≠ '\\' →
      ¬ (x = '\\' ∨ isHexDigit x ∨ x = ' ')) ?_ (ascii_of_isStringSpecial hx) hx hmark
        (mem_hexEscape hmem)
    decide
  intro hmem
  obtain ⟨c, -, hc⟩ := List.mem_flatMap.mp hmem
  split at hc
  · exact hescape c hc
  · rename_i hspecial
    rw [← List.mem_singleton.mp hc] at hspecial
    exact hspecial hx

/-- What is escaped in strings does not stand in one, except for the
marks of strings and escapes. -/
theorem not_mem_quote {x : Char} (hx : isStringSpecial x) (hmark : x ∉ ['"', '\\'])
    (t : Text) : x ∉ quote t := by
  simp only [List.mem_cons, List.not_mem_nil, or_false, not_or] at hmark
  simp [quote, not_mem_escapeString hx hmark.2, hmark.1]

theorem not_newline_mem_quote (t : Text) : '\n' ∉ quote t :=
  not_mem_quote (by decide) (by decide) t

theorem backslash_mem_hexEscape (c : Char) : '\\' ∈ hexEscape c :=
  List.mem_append_left _ (List.mem_cons_self ..)

theorem mem_escapeName {t : Text} {c : Char} (h : c ∈ escapeName t) :
    isNameChar c ∨ c = '\\' ∨ c = ' ' := by
  obtain ⟨d, -, hd⟩ := List.mem_flatMap.mp h
  split at hd
  · rename_i hname
    exact .inl (List.mem_singleton.mp hd ▸ hname)
  · rcases mem_hexEscape hd with h | h | h
    · exact .inr (.inl h)
    · exact .inl (isNameChar_of_isPlainNameChar (isPlainNameChar_of_isHexDigit h))
    · exact .inr (.inr h)

/-- The leading digit is the only one that is escaped on top. -/
theorem mem_escapeLeadingDigit {t : Text} {c : Char} (h : c ∈ escapeLeadingDigit t) :
    c ∈ t ∨ c = '\\' ∨ isHexDigit c ∨ c = ' ' := by
  unfold escapeLeadingDigit at h
  split at h
  · rename_i d rest
    split at h
    · rw [List.mem_append, List.mem_cons] at h
      rcases h with (rfl | h) | h
      · exact .inl (List.mem_cons_self ..)
      · exact .inr (mem_hexEscape h)
      · exact .inl (List.mem_cons_of_mem _ (List.mem_cons_of_mem _ h))
    · exact .inl h
  · rename_i d rest _
    split at h
    · rcases List.mem_append.mp h with h | h
      · exact .inr (mem_hexEscape h)
      · exact .inl (List.mem_cons_of_mem _ h)
    · exact .inl h
  · exact .inl h

/-- A name is made of name characters and of escapes. -/
theorem mem_escapeIdent {t : Text} {c : Char} (h : c ∈ escapeIdent t) :
    isNameChar c ∨ c = '\\' ∨ c = ' ' := by
  rcases mem_escapeLeadingDigit h with h | h | h | h
  · exact mem_escapeName h
  · exact .inr (.inl h)
  · exact .inl (isNameChar_of_isPlainNameChar (isPlainNameChar_of_isHexDigit h))
  · exact .inr (.inr h)

theorem escapeName_eq_self {t : Text} (h : ∀ c ∈ t, isNameChar c) : escapeName t = t := by
  induction t with
  | nil => rfl
  | cons c t ih =>
    rw [escapeName, List.flatMap_cons, if_pos (h c (List.mem_cons_self ..))]
    exact congrArg (c :: ·) (ih fun d hd => h d (List.mem_cons_of_mem _ hd))

theorem all_isNameChar_of_no_backslash {t : Text} (h : '\\' ∉ escapeName t) :
    ∀ c ∈ t, isNameChar c := by
  intro c hc
  by_cases hname : isNameChar c
  · exact hname
  · refine absurd (List.mem_flatMap.mpr ⟨c, hc, ?_⟩) h
    rw [if_neg hname]
    exact backslash_mem_hexEscape c

/-- The first character, after a hyphen, is no digit. -/
def NoLeadingDigit : Text → Prop
  | '-' :: c :: _ => ¬ isDigit c
  | c :: _ => ¬ isDigit c
  | [] => True

theorem escapeLeadingDigit_eq_self {t : Text} (h : NoLeadingDigit t) :
    escapeLeadingDigit t = t := by
  unfold escapeLeadingDigit
  split
  · exact if_neg h
  · rename_i c rest hne
    refine if_neg ?_
    unfold NoLeadingDigit at h
    split at h
    · rename_i heq
      cases heq
      exact absurd rfl (hne _ _ rfl)
    · rename_i heq
      cases heq
      exact h
    · rename_i heq
      cases heq
  · rfl

theorem noLeadingDigit_of_no_backslash {t : Text} (h : '\\' ∉ escapeLeadingDigit t) :
    NoLeadingDigit t := by
  unfold NoLeadingDigit
  split
  · intro hc
    rw [escapeLeadingDigit, if_pos hc] at h
    exact h (List.mem_append_left _ (List.mem_cons_of_mem _ (backslash_mem_hexEscape _)))
  · rename_i c rest hne
    intro hc
    rw [escapeLeadingDigit, if_pos hc] at h
    · exact h (List.mem_append_left _ (backslash_mem_hexEscape _))
    · exact hne
  · trivial

/-- A name without a backslash is the text that it stands for. -/
theorem escapeIdent_of_no_backslash {t : Text} (h : '\\' ∉ escapeIdent t) :
    escapeIdent t = t ∧ (∀ c ∈ t, isNameChar c) ∧ NoLeadingDigit t := by
  have hlead := noLeadingDigit_of_no_backslash h
  have hident : escapeIdent t = escapeName t := escapeLeadingDigit_eq_self hlead
  have hall := all_isNameChar_of_no_backslash (hident ▸ h)
  have hname := escapeName_eq_self hall
  refine ⟨hident.trans hname, hall, ?_⟩
  rwa [hname] at hlead

theorem escapeIdent_eq_self {t : Text} (hall : ∀ c ∈ t, isNameChar c)
    (hlead : NoLeadingDigit t) : escapeIdent t = t := by
  rw [escapeIdent, escapeName_eq_self hall, escapeLeadingDigit_eq_self hlead]

/-! ## Names stand for their text -/

/-- The first character of a name, or the one after a hyphen: a digit is escaped, too. -/
def escapeLead (c : Char) : Text :=
  if isNameChar c ∧ ¬ isDigit c then [c] else hexEscape c

theorem escapeName_cons (c : Char) (t : Text) :
    escapeName (c :: t) = (if isNameChar c then [c] else hexEscape c) ++ escapeName t :=
  List.flatMap_cons

/-- An identifier that begins with no hyphen. -/
theorem escapeIdent_cons {c : Char} (hc : c ≠ '-') (t : Text) :
    escapeIdent (c :: t) = escapeLead c ++ escapeName t := by
  rw [escapeIdent, escapeName_cons]
  by_cases hname : isNameChar c
  · rw [if_pos hname, List.singleton_append, escapeLeadingDigit]
    · by_cases hdigit : isDigit c
      · rw [if_pos hdigit, escapeLead, if_neg fun h => h.2 hdigit]
      · rw [if_neg hdigit, escapeLead, if_pos ⟨hname, hdigit⟩]
        rfl
    · exact fun _ _ h _ => hc h
  · rw [if_neg hname, escapeLead, if_neg fun h => hname h.1]
    exact escapeLeadingDigit_eq_self (by decide : ¬ isDigit '\\')

/-- An identifier that begins with a hyphen and something after it. -/
theorem escapeIdent_hyphen (c : Char) (t : Text) :
    escapeIdent ('-' :: c :: t) = '-' :: (escapeLead c ++ escapeName t) := by
  rw [escapeIdent, escapeName_cons, if_pos (by decide), List.singleton_append,
    escapeName_cons]
  by_cases hname : isNameChar c
  · rw [if_pos hname, List.singleton_append, escapeLeadingDigit]
    by_cases hdigit : isDigit c
    · rw [if_pos hdigit, escapeLead, if_neg fun h => h.2 hdigit]
      rfl
    · rw [if_neg hdigit, escapeLead, if_pos ⟨hname, hdigit⟩]
      rfl
  · rw [if_neg hname, escapeLead, if_neg fun h => hname h.1]
    exact escapeLeadingDigit_eq_self (by decide : ¬ isDigit '\\')

/-- A character that is written in one of the two ways stands for itself. -/
theorem decodeFrom_written {p : Prop} [Decidable p] {c : Char} (hp : p → isNameChar c)
    (hnul : c ≠ '\x00') (t : Text) :
    decodeFrom .plain ((if p then [c] else hexEscape c) ++ t) =
      c :: decodeFrom .plain t := by
  split
  · rename_i h
    refine decodeFrom_cons_plain ?_ t
    rintro rfl
    exact absurd (hp h) (by decide)
  · exact decodeFrom_hexEscape hnul t

theorem decode_escapeName {t : Text} (h : '\x00' ∉ t) : decode (escapeName t) = t := by
  induction t with
  | nil => rfl
  | cons c t ih =>
    rw [List.mem_cons, not_or] at h
    rw [escapeName_cons, decode, decodeFrom_written id (Ne.symm h.1)]
    exact congrArg (c :: ·) (ih h.2)

theorem decodeFrom_escapeLead {c : Char} {t : Text} (h : '\x00' ∉ c :: t) :
    decodeFrom .plain (escapeLead c ++ escapeName t) = c :: t := by
  rw [List.mem_cons, not_or] at h
  rw [escapeLead, decodeFrom_written And.left (Ne.symm h.1)]
  exact congrArg (c :: ·) (decode_escapeName h.2)

/-- Escaping for an identifier is undone by decoding. -/
theorem decode_escapeIdent {t : Text} (h : '\x00' ∉ t) : decode (escapeIdent t) = t := by
  cases t with
  | nil => rfl
  | cons c t =>
    by_cases hc : c = '-'
    · subst hc
      cases t with
      | nil => decide
      | cons d t =>
        rw [escapeIdent_hyphen, decode, decodeFrom_cons_plain (by decide),
          decodeFrom_escapeLead fun hmem => h (List.mem_cons_of_mem _ hmem)]
    · rw [escapeIdent_cons hc, decode, decodeFrom_escapeLead h]

end CssGuard.Escape
