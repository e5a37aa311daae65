import CssGuard.Text.Basic
import Mathlib.Algebra.Ring.Parity
import Mathlib.Data.List.Basic

/-!
# Texts with quotes

In a text whose quotes come in pairs, a quote opens a pair if an even number of quotes
is in front of it, and closes one if that number is odd. So what a quote does can be
told from the text before it.

- `quotedPart`: the text inside of quotes, or outside of them
- `QuotedAfter`, `WellQuoted`: the quotes of a text come in pairs
- `QuotedAfter.exists_body`, `QuotedAfter.endsQuote_of_odd`: what follows
  an opening and a closing quote
- `count_eq_add_quotedPart`: every character is inside of quotes or outside
-/

namespace CssGuard.Text

/-! ## Pairs of quotes -/

/-- The parts of a text inside of quotes, if the text itself
begins inside of quotes or not. -/
def quotedPart (inside : Bool) : Text → Text
  | [] => []
  | c :: rest =>
    if c = '"' then quotedPart (!inside) rest
    else if inside then c :: quotedPart inside rest
    else quotedPart inside rest

/-- What begins the token of a URL. -/
def urlOpener : Text :=
  ['u', 'r', 'l', '(']

/-- What can follow a closing quote. -/
def endsQuote (c : Char) : Bool :=
  c ∈ [' ', ',', ')', ';', ']']

/-- The quotes of a text that stands after `before` come in pairs. Characters
outside of the pairs satisfy `P`, and what is between quotes after the
beginning of a URL satisfies `U`. -/
inductive QuotedAfter (P : Char → Prop) (U : Text → Prop) : Text → Text → Prop
  | nil {before : Text} : QuotedAfter P U before []
  | bare {before rest : Text} {c : Char} (hc : c ≠ '"') (hP : P c)
    (h : QuotedAfter P U (before ++ [c]) rest) : QuotedAfter P U before (c :: rest)
  | pair {before body rest : Text} {next : Char} (hbody : '"' ∉ body)
    (hurl : urlOpener <:+ before → U body) (hnext : endsQuote next)
    (h : QuotedAfter P U (before ++ '"' :: body ++ ['"']) (next :: rest)) :
    QuotedAfter P U before ('"' :: body ++ '"' :: next :: rest)

/-- The quotes of a text come in pairs, whatever it stands after. -/
def WellQuoted (P : Char → Prop) (U : Text → Prop) (t : Text) : Prop :=
  ∀ before, QuotedAfter P U before t

/-- Two ways to split a text at the same character: at the same
place, or at a later one. -/
theorem cases_of_append_cons_eq {d : Char} {t u t' u' : Text} (ht : d ∉ t)
    (h : t ++ d :: u = t' ++ d :: u') :
    (t' = t ∧ u = u') ∨ ∃ more, t' = t ++ d :: more ∧ u = more ++ d :: u' := by
  rcases List.append_eq_append_iff.mp h with ⟨more, rfl, hu⟩ | ⟨more, rfl, hu⟩
  · cases more with
    | nil => exact .inl ⟨by simp, (List.cons.inj hu).2⟩
    | cons c more =>
      obtain ⟨rfl, hrest⟩ := List.cons.inj hu
      exact .inr ⟨more, rfl, hrest⟩
  · cases more with
    | nil => exact .inl ⟨by simp, (List.cons.inj hu).2.symm⟩
    | cons c more =>
      rw [← (List.cons.inj hu).1] at ht
      exact absurd (by simp) ht

theorem eq_of_append_cons_eq {d : Char} {t u t' u' : Text} (ht : d ∉ t) (ht' : d ∉ t')
    (h : t ++ d :: u = t' ++ d :: u') : t = t' := by
  rcases cases_of_append_cons_eq ht h with ⟨rfl, -⟩ | ⟨more, rfl, -⟩
  · rfl
  · exact absurd (by simp) ht'

/-- A text that ends in `s` has all of it after any character that is not in it. -/
theorem exists_of_append_eq_append_cons {d : Char} {s t u u' : Text} (hs : d ∉ s)
    (h : t ++ s = u ++ d :: u') : ∃ more, u' = more ++ s := by
  rcases List.append_eq_append_iff.mp h with ⟨more, -, hmore⟩ | ⟨more, -, hmore⟩
  · exact absurd (by simp [hmore]) hs
  · cases more with
    | nil =>
      rw [List.nil_append] at hmore
      exact absurd (hmore ▸ List.mem_cons_self ..) hs
    | cons c more => exact ⟨more, (List.cons.inj hmore).2⟩

variable {P : Char → Prop} {U : Text → Prop}

namespace QuotedAfter

theorem mono {P' : Char → Prop} (hP : ∀ c, P c → P' c) {before t : Text}
    (h : QuotedAfter P U before t) : QuotedAfter P' U before t := by
  induction h with
  | nil => exact .nil
  | bare hc hp _ ih => exact .bare hc (hP _ hp) ih
  | pair hbody hurl hnext _ ih => exact .pair hbody hurl hnext ih

theorem append {before t u : Text} (ht : QuotedAfter P U before t)
    (hu : QuotedAfter P U (before ++ t) u) : QuotedAfter P U before (t ++ u) := by
  induction ht with
  | nil => simpa using hu
  | bare hc hP _ ih => exact .bare hc hP (ih (by simpa using hu))
  | pair hbody hurl hnext _ ih =>
    rw [List.append_assoc]
    exact .pair hbody hurl hnext (ih (by simpa using hu))

theorem of_bare {t : Text} (h : ∀ c ∈ t, c ≠ '"' ∧ P c) :
    ∀ before, QuotedAfter P U before t := by
  induction t with
  | nil => exact fun _ => .nil
  | cons c t ih =>
    obtain ⟨hc, ht⟩ := List.forall_mem_cons.mp h
    exact fun before => .bare hc.1 hc.2 (ih ht _)

/-- Quotes come in pairs. -/
theorem even_count {before t : Text} (h : QuotedAfter P U before t) :
    Even (t.count '"') := by
  induction h with
  | nil => simp
  | bare hc _ _ ih => rwa [List.count_cons_of_ne hc]
  | pair hbody _ _ _ ih =>
    rw [List.cons_append, List.count_cons_self, List.count_append,
      List.count_eq_zero.mpr hbody, List.count_cons_self, Nat.zero_add]
    exact ih.add even_two

/-- What follows an opening quote is the body of a string or of a URL. -/
theorem exists_body {before t a r : Text} (h : QuotedAfter P U before t)
    (ht : t = a ++ '"' :: r) (heven : Even (a.count '"')) :
    ∃ body rest, r = body ++ '"' :: rest ∧ '"' ∉ body ∧
      (urlOpener <:+ before ++ a → U body) := by
  induction h generalizing a with
  | nil => simp at ht
  | @bare before rest c hc _ _ ih =>
    cases a with
    | nil => exact absurd (List.cons.inj ht).1 hc
    | cons d a =>
      obtain ⟨rfl, hrest⟩ := List.cons.inj ht
      rw [List.count_cons_of_ne hc] at heven
      simpa using ih hrest heven
  | @pair before body rest next hbody hurl hnext _ ih =>
    cases a with
    | nil =>
      refine ⟨body, next :: rest, (List.cons.inj ht).2.symm, hbody,
        fun hopener => hurl ?_⟩
      simpa using hopener
    | cons d a =>
      obtain ⟨rfl, hrest⟩ := List.cons.inj ht
      rw [List.count_cons_self, Nat.even_add_one] at heven
      rcases cases_of_append_cons_eq hbody hrest with ⟨rfl, -⟩ | ⟨a', rfl, hrest'⟩
      · exact absurd (by simp [List.count_eq_zero.mpr hbody]) heven
      · rw [List.count_append, List.count_eq_zero.mpr hbody, List.count_cons_self,
          Nat.zero_add, Nat.even_add_one, not_not] at heven
        simpa using ih hrest' heven

/-- What follows a closing quote. -/
theorem endsQuote_of_odd {before t a r : Text} {c : Char} (h : QuotedAfter P U before t)
    (ht : t = a ++ '"' :: c :: r) (hodd : Odd (a.count '"')) : endsQuote c := by
  induction h generalizing a with
  | nil => simp at ht
  | @bare before rest c' hc _ _ ih =>
    cases a with
    | nil => exact absurd (List.cons.inj ht).1 hc
    | cons d a =>
      obtain ⟨rfl, hrest⟩ := List.cons.inj ht
      rw [List.count_cons_of_ne hc] at hodd
      exact ih hrest hodd
  | @pair before body rest next hbody hurl hnext _ ih =>
    cases a with
    | nil => exact absurd hodd (by simp)
    | cons d a =>
      obtain ⟨rfl, hrest⟩ := List.cons.inj ht
      rw [List.count_cons_self, Nat.odd_add_one] at hodd
      rcases cases_of_append_cons_eq hbody hrest with ⟨rfl, hnext'⟩ | ⟨a', rfl, hrest'⟩
      · exact (List.cons.inj hnext').1 ▸ hnext
      · rw [List.count_append, List.count_eq_zero.mpr hbody, List.count_cons_self,
          Nat.zero_add, Nat.odd_add_one, not_not] at hodd
        exact ih hrest' hodd

end QuotedAfter

/-! ## Parts inside and outside -/

theorem quotedPart_quote (inside : Bool) (t : Text) :
    quotedPart inside ('"' :: t) = quotedPart (!inside) t :=
  if_pos rfl

theorem quotedPart_cons {c : Char} (hc : c ≠ '"') (inside : Bool) (t : Text) :
    quotedPart inside (c :: t) = (if inside then [c] else []) ++ quotedPart inside t := by
  rw [quotedPart, if_neg hc]
  split <;> rfl

/-- After pairs of quotes, a text is where it was before. -/
theorem quotedPart_append (inside : Bool) (t u : Text) :
    quotedPart inside (t ++ u) =
      quotedPart inside t ++ quotedPart (if Even (t.count '"') then inside
        else !inside) u := by
  induction t generalizing inside with
  | nil => simp [quotedPart]
  | cons c t ih =>
    by_cases hc : c = '"'
    · rw [hc, List.cons_append, quotedPart_quote, quotedPart_quote, ih,
        List.count_cons_self, Bool.not_not]
      simp only [Nat.even_add_one, ite_not]
    · rw [List.cons_append, quotedPart_cons hc, quotedPart_cons hc, ih,
        List.count_cons_of_ne hc, List.append_assoc]

theorem quotedPart_append_of_even {t : Text} (h : Even (t.count '"')) (inside : Bool)
    (u : Text) :
    quotedPart inside (t ++ u) = quotedPart inside t ++ quotedPart inside u := by
  rw [quotedPart_append, if_pos h]

theorem quotedPart_false_of_not_mem {t : Text} (h : '"' ∉ t) :
    quotedPart false t = [] := by
  induction t with
  | nil => rfl
  | cons c t ih =>
    rw [List.mem_cons, not_or] at h
    rw [quotedPart_cons (Ne.symm h.1), ih h.2]
    rfl

/-- Characters outside of quotes. -/
theorem QuotedAfter.forall_mem_quotedPart {before t : Text}
    (h : QuotedAfter P U before t) : ∀ c ∈ quotedPart true t, P c := by
  induction h with
  | nil => exact fun c hc => absurd hc List.not_mem_nil
  | bare hc hP _ ih =>
    rw [quotedPart_cons hc]
    exact List.forall_mem_cons.mpr ⟨hP, ih⟩
  | pair hbody _ _ _ ih =>
    have heven : Even (List.count '"' _) := List.count_eq_zero.mpr hbody ▸ Even.zero
    rw [List.cons_append, quotedPart_quote, Bool.not_true,
      quotedPart_append_of_even heven, quotedPart_false_of_not_mem hbody,
      quotedPart_quote]
    exact ih

/-- Every character is inside of quotes or outside. -/
theorem count_eq_add_quotedPart {c : Char} (hc : c ≠ '"') (inside : Bool) (t : Text) :
    t.count c = (quotedPart inside t).count c + (quotedPart (!inside) t).count c := by
  induction t generalizing inside with
  | nil => rfl
  | cons d t ih =>
    by_cases hd : d = '"'
    · rw [hd, List.count_cons_of_ne hc.symm, quotedPart_quote, quotedPart_quote,
        ih (!inside)]
    · rw [quotedPart_cons hd, quotedPart_cons hd, List.count_append, List.count_append,
        List.count_cons, ih inside]
      cases inside
      · simp [List.count_singleton]
        omega
      · simp [List.count_singleton]
        omega

namespace WellQuoted

theorem mono {P' : Char → Prop} (hP : ∀ c, P c → P' c) {t : Text} (h : WellQuoted P U t) :
    WellQuoted P' U t :=
  fun before => (h before).mono hP

theorem append {t u : Text} (ht : WellQuoted P U t) (hu : WellQuoted P U u) :
    WellQuoted P U (t ++ u) :=
  fun before => (ht before).append (hu _)

theorem of_bare {t : Text} (h : ∀ c ∈ t, c ≠ '"' ∧ P c) : WellQuoted P U t :=
  QuotedAfter.of_bare h

theorem flatMap {α : Type} {xs : List α} {f : α → Text}
    (h : ∀ a ∈ xs, WellQuoted P U (f a)) : WellQuoted P U (xs.flatMap f) := by
  induction xs with
  | nil => exact fun _ => .nil
  | cons a xs ih =>
    obtain ⟨ha, hxs⟩ := List.forall_mem_cons.mp h
    exact ha.append (ih hxs)

theorem joined {sep : Text} (hsep : WellQuoted P U sep) {ts : List Text}
    (h : ∀ t ∈ ts, WellQuoted P U t) : WellQuoted P U (joined sep ts) := by
  induction ts with
  | nil => exact fun _ => .nil
  | cons t ts ih =>
    obtain ⟨ht, hts⟩ := List.forall_mem_cons.mp h
    cases ts with
    | nil => exact ht
    | cons u ts => exact (ht.append hsep).append (ih hts)

end WellQuoted

end CssGuard.Text
