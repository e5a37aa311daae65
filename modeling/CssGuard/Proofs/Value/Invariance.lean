import CssGuard.Proofs.Value.Emitted
import Mathlib.Logic.Relation

/-!
# What a sanitized value does not depend on

Two things about a value make no difference. Spaces between its tokens are passed over,
wherever they stand: calls are closed in the same places, and the same is kept, reported
and asked. The case of its letters matters for strings, URLs and global names only, so
where none of these is permitted, values that differ in the case of letters leave the
same.

- `upToClose?_filter`: where a call is closed, with and without the spaces
- `sanitizeProperty_spaceless`: values with and without their spaces
- `SameLetters`, `lower_eq_of_sameLetters`: texts that differ in the case of letters
- `Schema.Reaches`: the entries that a value can be sanitized under
- `sanitizeProperty_caseless`: values that differ in the case of letters
-/

namespace CssGuard

open Text
open scoped Text.ByCharacter

/-! ## Spaces -/

section Spaces

variable {ctx : ValueContext} {property : Text} {e : Entry}

theorem turn?_space (depth : Nat) : turn? depth Token.space = some depth :=
  rfl

/-- A call is closed by the same parenthesis when the spaces are left out. -/
theorem upToClose?_filter (ts : List Token) : ∀ depth,
    upToClose? depth (ts.filter (· ≠ Token.space)) = (upToClose? depth ts).map
      (Prod.map (List.filter (· ≠ Token.space)) (List.filter (· ≠ Token.space))) := by
  induction ts with
  | nil => exact fun _ => rfl
  | cons t ts ih =>
    intro depth
    by_cases ht : t = Token.space
    · subst ht
      rw [List.filter_cons_of_neg (by simp), ih, upToClose?, turn?_space, Option.map_map]
      congr 1
    · rw [List.filter_cons_of_pos (by simpa using ht), upToClose?, upToClose?]
      cases turn? depth t with
      | none => rfl
      | some depth =>
        have hcons : ∀ rest : List Token, (t :: rest).filter (· ≠ Token.space) =
            t :: rest.filter (· ≠ Token.space) :=
          fun _ => List.filter_cons_of_pos (by simpa using ht)
        simp only [ih, Option.map_map]
        congr 1
        funext call
        simp only [Function.comp, Prod.map, hcons, id_eq]

theorem callAt?_filter (opener : Token) (rest : List Token) :
    callAt? opener (rest.filter (· ≠ Token.space)) = (callAt? opener rest).map
      (Prod.map (List.filter (· ≠ Token.space)) (List.filter (· ≠ Token.space))) := by
  unfold callAt?
  split
  · exact upToClose?_filter rest 0
  · rfl

theorem keep_space (ctx : ValueContext) (property : Text) (e : Entry) :
    keep ctx property e Token.space = pure .empty :=
  rfl

theorem ne_space_of_call {raw : Token} (h : Form.of e raw = .call) :
    raw ≠ Token.space := by
  rintro rfl
  cases h

/-- What is kept, reported and asked is the same with and without the spaces. The
induction is on the tree of the value with its spaces. -/
theorem keep_of_filter (ctx : ValueContext) (property : Text) (levels : Nat) (e : Entry)
    (ts : List Token) :
    (ValueTree.of ctx levels e (ts.filter (· ≠ Token.space))).keep ctx property e =
      (ValueTree.of ctx levels e ts).keep ctx property e := by
  fun_induction ValueTree.of ctx levels e ts with
  | case1 => rw [List.filter_nil, ValueTree.of]
  | case2 levels e raw rest hform hcall =>
    have hcall' := callAt?_filter raw rest
    rw [hcall, Option.map_none] at hcall'
    rw [List.filter_cons_of_pos (by simpa using ne_space_of_call hform),
      ValueTree.of_unclosed hform hcall']
    rfl
  | case3 e raw rest hform args after hcall ih =>
    have hcall' := callAt?_filter raw rest
    rw [hcall, Option.map_some] at hcall'
    rw [List.filter_cons_of_pos (by simpa using ne_space_of_call hform),
      ValueTree.of_closed hform hcall']
    simp only [ValueTree.keep, ih]
  | case4 e raw rest hform args after hcall below hf ih =>
    have hcall' := callAt?_filter raw rest
    rw [hcall, Option.map_some] at hcall'
    rw [List.filter_cons_of_pos (by simpa using ne_space_of_call hform),
      ValueTree.of_closed hform hcall']
    simp only [hf, ValueTree.keep, ih]
  | case5 e raw rest hform args after hcall below f hf ihargs ih =>
    have hcall' := callAt?_filter raw rest
    rw [hcall, Option.map_some] at hcall'
    rw [List.filter_cons_of_pos (by simpa using ne_space_of_call hform),
      ValueTree.of_closed hform hcall']
    simp only [hf, ValueTree.keep, ihargs, ih]
  | case6 levels e raw rest hform ih =>
    by_cases hraw : raw = Token.space
    · subst hraw
      rw [List.filter_cons_of_neg (by simp), ih, ValueTree.keep, keep_space, pure_bind]
      exact (bind_pure _).symm
    · rw [List.filter_cons_of_pos (by simpa using hraw), ValueTree.of_token hform,
        ValueTree.keep, ValueTree.keep, ih]

end Spaces

/-- Spaces in a value make no difference: the same tokens are left of it, and the same is
reported and asked, in the same order. -/
theorem sanitizeProperty_spaceless (ctx : ValueContext) (name : Text)
    (value : List Token) :
    sanitizeProperty ctx name (value.filter (· ≠ Token.space)) =
      sanitizeProperty ctx name value := by
  cases hfind : ctx.schema.find? (lower name) with
  | none =>
    unfold sanitizeProperty
    rw [hfind]
  | some e => rw [sanitizeProperty_eq hfind, sanitizeProperty_eq hfind, keep_of_filter]

/-! ## Letters -/

namespace Text

/-- The text with small letters in place of the capitals of ASCII. -/
def small (t : Text) : Text :=
  t.map Char.toLower

/-- The texts differ at most in the case of ASCII letters. -/
def SameLetters (t u : Text) : Prop :=
  small t = small u

instance (t u : Text) : Decidable (SameLetters t u) :=
  inferInstanceAs (Decidable (small t = small u))

/-- What does not tell a capital of ASCII from its small letter, does
not see the case of letters. -/
theorem toLower_congr {α : Type} (f : Char → α)
    (h : ∀ n : Fin 128, f (Char.ofNat n).toLower = f (Char.ofNat n)) (c : Char) :
    f c.toLower = f c := by
  rcases ascii_or_foreign c with hc | hc
  · exact forall_ascii (fun c => f c.toLower = f c) h hc
  · rw [toLower_of_isForeign hc]

theorem meetsCased_small (t : Text) : meetsCased (small t) = meetsCased t := by
  have hignored := toLower_congr caseIgnorableRanges.contains (by decide)
  have hcased := toLower_congr casedRanges.contains (by decide)
  unfold meetsCased
  induction t with
  | nil => rfl
  | cons c t ih =>
    rw [small, List.map_cons]
    by_cases hc : caseIgnorableRanges.contains c
    · rw [List.dropWhile_cons_of_pos ((hignored c).trans hc),
        List.dropWhile_cons_of_pos hc]
      exact ih
    · rw [List.dropWhile_cons_of_neg (by rwa [hignored]), List.dropWhile_cons_of_neg hc]
      exact hcased c

theorem lowerAfter_small (t : Text) :
    ∀ before, lowerAfter (small before) (small t) = lowerAfter before t := by
  have hsigma := toLower_congr (fun c => decide (c = 'Σ')) (by decide)
  have hchar := toLower_congr lowerChar (by decide)
  induction t with
  | nil => exact fun _ => rfl
  | cons c t ih =>
    intro before
    have hbetween : lowerBetween (small before) c.toLower (small t) =
        lowerBetween before c t := by
      rw [lowerBetween, lowerBetween, endsWord, endsWord, meetsCased_small,
        meetsCased_small, hchar]
      exact ite_congr (propext (decide_eq_decide.mp (hsigma c))) (fun _ => rfl)
        fun _ => rfl
    exact congrArg₂ (· ++ ·) hbetween (ih (c :: before))

/-- The lower-case form of a text does not depend on the case of its ASCII letters. -/
theorem lower_small (t : Text) : lower (small t) = lower t :=
  lowerAfter_small t []

theorem lower_eq_of_sameLetters {t u : Text} (h : SameLetters t u) :
    lower t = lower u := by
  rw [← lower_small t, h, lower_small]

end Text

/-- The tokens with small letters in place of the capitals of ASCII. -/
def smallTokens (ts : List Token) : List Token :=
  ts.map small

section Letters

theorem smallTokens_cons (t : Token) (ts : List Token) :
    smallTokens (t :: ts) = small t :: smallTokens ts :=
  rfl

theorem small_eq_closeParen_iff {t : Token} :
    small t = Token.closeParen ↔ t = Token.closeParen := by
  have hparen := toLower_congr (fun c => decide (c = ')')) (by decide)
  cases t with
  | nil => exact Iff.rfl
  | cons c t =>
    simpa [small, Token.closeParen] using fun _ => decide_eq_decide.mp (hparen c)

theorem opensCall_small (t : Token) : Token.opensCall (small t) = t.opensCall := by
  have hmark : ∀ x ∈ ['(', '"', '\''], ∀ o : Option Char, o.map Char.toLower = some x ↔
      o = some x := by
    intro x hx o
    cases o with
    | none => simp
    | some c =>
      have hx := (by decide : ∀ x ∈ ['(', '"', '\''], ∀ n : Fin 128,
        decide ((Char.ofNat n).toLower = x) = decide (Char.ofNat n = x)) x hx
      simpa using decide_eq_decide.mp (toLower_congr (fun c => decide (c = x)) hx c)
  simp only [Token.opensCall, Token.opensParen, small, List.getLast?_map,
    List.head?_map, ne_eq, hmark '(' (by decide), hmark '"' (by decide),
    hmark '\'' (by decide)]

theorem turn?_small (depth : Nat) (t : Token) :
    turn? depth (small t) = turn? depth t := by
  unfold turn?
  rw [opensCall_small]
  exact ite_congr (propext small_eq_closeParen_iff) (fun _ => rfl) fun _ => rfl

/-- A call is closed by the same parenthesis, whatever the case of the letters is. -/
theorem upToClose?_smallTokens (ts : List Token) : ∀ depth,
    upToClose? depth (smallTokens ts) =
      (upToClose? depth ts).map (Prod.map smallTokens smallTokens) := by
  induction ts with
  | nil => exact fun _ => rfl
  | cons t ts ih =>
    intro depth
    rw [smallTokens_cons, upToClose?, turn?_small, upToClose?]
    cases turn? depth t with
    | none => rfl
    | some depth =>
      simp only [ih, Option.map_map]
      rfl

theorem callAt?_smallTokens (opener : Token) (rest : List Token) :
    callAt? (small opener) (smallTokens rest) =
      (callAt? opener rest).map (Prod.map smallTokens smallTokens) := by
  rw [callAt?, callAt?, opensCall_small]
  split
  · exact upToClose?_smallTokens rest 0
  · rfl

end Letters

/-! ## Entries that do not see the case of letters -/

/-- Under the entry only lower-case forms are kept: it permits no strings, no
URLs and no global names. -/
def Entry.isCaseless (e : Entry) : Bool :=
  !e.allows .quotedString && !e.allows .url && !e.allows .globalName

/-- The entry of a function that `e` permits, or of one that such a
function permits, and so on. -/
def Schema.Reaches (s : Schema) : Entry → Entry → Prop :=
  Relation.ReflTransGen fun e f => ∃ function, s.function? e function = some f

section Caseless

variable {ctx : ValueContext} {property : Text} {e : Entry}

/-- The forms are the same, except for what is inside of strings and URLs. -/
inductive Form.Alike : Form → Form → Prop
  | refl (form : Form) : Alike form form
  | string (body body' : Option Text) : Alike (.string body) (.string body')
  | url (body body' : Option Text) : Alike (.url body) (.url body')

theorem Form.Alike.ite {c : Prop} [Decidable c] {x x' y y' : Form} (hx : x.Alike x')
    (hy : y.Alike y') : (if c then x else y).Alike (if c then x' else y') := by
  split
  · exact hx
  · exact hy

/-- Only what is inside of strings and URLs is not judged by the
lower-case form of a token. -/
theorem Form.alike_ofLower (e : Entry) (raw raw' t : Token) :
    (Form.ofLower e raw t).Alike (Form.ofLower e raw' t) := by
  unfold Form.ofLower
  refine .ite (.refl _) ?_
  refine .ite (.string _ _) ?_
  refine .ite (.refl _) ?_
  refine .ite (.refl _) ?_
  refine .ite (.refl _) ?_
  exact .ite (.url _ _) (.refl _)

theorem Form.alike_small (e : Entry) (raw : Token) :
    (Form.of e (small raw)).Alike (Form.of e raw) := by
  unfold Form.of
  rw [lower_small]
  exact Form.alike_ofLower ..

theorem Form.Alike.eq_call_iff {form form' : Form} (h : form.Alike form') :
    form = .call ↔ form' = .call := by
  cases h with
  | refl => exact Iff.rfl
  | string => simp
  | url => simp

theorem form_small_eq_call_iff {raw : Token} :
    Form.of e (small raw) = .call ↔ Form.of e raw = .call :=
  (Form.alike_small e raw).eq_call_iff

/-- Of a token that is neither string nor URL its lower-case form is kept. -/
theorem keepForm_small (he : e.isCaseless) (raw : Token) :
    keepForm ctx property e (small raw) (Form.of e (small raw)) =
      keepForm ctx property e raw (Form.of e raw) := by
  simp only [Entry.isCaseless, Bool.and_eq_true, Bool.not_eq_true'] at he
  obtain ⟨⟨hquoted, hunlinked⟩, hlocal⟩ := he
  have hstring : ∀ raw body, keepForm ctx property e raw (.string body) =
      pure .empty := by
    intro raw body
    cases body with
    | none => rfl
    | some body => simp [keepForm, hquoted, hunlinked]
  have hurl : ∀ raw body, keepForm ctx property e raw (.url body) = pure .empty := by
    intro raw body
    cases body with
    | none => rfl
    | some body => simp [keepForm, hunlinked]
  have hsays := Form.says_of e raw
  have halike := Form.alike_small e raw
  generalize Form.of e (small raw) = form at halike
  generalize Form.of e raw = form' at hsays halike
  cases halike with
  | string => rw [hstring, hstring]
  | url => rw [hurl, hurl]
  | refl =>
    cases form with
    | string => rw [hstring, hstring]
    | url => rw [hurl, hurl]
    | name =>
      -- a name under an entry without global names is the name of a property
      have hproperty := hsays.1
      rw [Entry.takesNames, hlocal, Bool.false_or] at hproperty
      simp only [keepForm, hproperty, Bool.not_true, Bool.false_eq_true, if_false,
        lower_small]
    | _ => simp only [keepForm, lower_small]

/-- What is left does not depend on the case of the letters. The induction is on the tree
of the value, and goes on to the entries of the functions that are called. -/
theorem value_keep_smallTokens (ctx : ValueContext) (property : Text)
    (levels : Nat) (e : Entry) (ts : List Token)
    (he : ∀ f, ctx.schema.Reaches e f → f.isCaseless) :
    ((ValueTree.of ctx levels e (smallTokens ts)).keep ctx property e).value =
      ((ValueTree.of ctx levels e ts).keep ctx property e).value := by
  fun_induction ValueTree.of ctx levels e ts with
  | case1 => rw [smallTokens, List.map_nil, ValueTree.of]
  | case2 levels e raw rest hform hcall =>
    have hcall' := callAt?_smallTokens raw rest
    rw [hcall, Option.map_none] at hcall'
    rw [smallTokens_cons, ValueTree.of_unclosed (form_small_eq_call_iff.mpr hform) hcall']
    rfl
  | case3 e raw rest hform args after hcall ih =>
    have hcall' := callAt?_smallTokens raw rest
    rw [hcall, Option.map_some] at hcall'
    rw [smallTokens_cons, ValueTree.of_closed (form_small_eq_call_iff.mpr hform) hcall']
    simp only [ValueTree.keep, Traced.value_bind, Traced.value_pure, ih he, lower_small]
  | case4 e raw rest hform args after hcall below hf ih =>
    have hcall' := callAt?_smallTokens raw rest
    rw [hcall, Option.map_some] at hcall'
    rw [smallTokens_cons, ValueTree.of_closed (form_small_eq_call_iff.mpr hform) hcall']
    simp only [lower_small, hf, ValueTree.keep, Traced.value_bind,
      Traced.value_pure, ih he]
  | case5 e raw rest hform args after hcall below f hf ihargs ih =>
    have hcall' := callAt?_smallTokens raw rest
    rw [hcall, Option.map_some] at hcall'
    rw [smallTokens_cons, ValueTree.of_closed (form_small_eq_call_iff.mpr hform) hcall']
    simp only [lower_small, hf, ValueTree.keep, Traced.value_bind,
      Traced.value_pure, ih he, ihargs fun g hg => he g (.head ⟨_, hf⟩ hg)]
  | case6 levels e raw rest hform ih =>
    rw [smallTokens_cons, ValueTree.of_token (mt form_small_eq_call_iff.mp hform)]
    simp only [ValueTree.keep, Traced.value_bind, Traced.value_pure, ih he, value_keep,
      keepForm_small (he e .refl)]

end Caseless

/-- Where neither the entry of a property nor that of a function that it can lead to
permits strings, URLs or global names, properties and values that differ in the case of
ASCII letters leave the same. -/
theorem sanitizeProperty_caseless {ctx : ValueContext} {name name' : Text}
    {value value' : List Token}
    (he : ∀ e, ctx.schema.find? (lower name) = some e →
      ∀ f, ctx.schema.Reaches e f → f.isCaseless)
    (hname : SameLetters name name') (hvalue : List.Forall₂ SameLetters value value') :
    (sanitizeProperty ctx name value).value =
      (sanitizeProperty ctx name' value').value := by
  have hlower : lower name' = lower name := (lower_eq_of_sameLetters hname).symm
  have hsmall : smallTokens value = smallTokens value' := by
    induction hvalue with
    | nil => rfl
    | cons h _ ih => exact congrArg₂ List.cons h ih
  cases hfind : ctx.schema.find? (lower name) with
  | none =>
    unfold sanitizeProperty
    rw [hlower, hfind]
    rfl
  | some e =>
    have hreach := he e hfind
    rw [sanitizeProperty_eq hfind, sanitizeProperty_eq (hlower.symm ▸ hfind),
      Traced.value_map, Traced.value_map, hlower,
      ← value_keep_smallTokens _ _ _ _ value hreach, hsmall,
      value_keep_smallTokens _ _ _ _ value' hreach]

/-- What an entry of a schema leads to are entries of the schema. -/
theorem Schema.Reaches.mem {s : Schema} {e f : Entry} (h : s.Reaches e f)
    (he : e ∈ s.entries) : f ∈ s.entries := by
  cases h with
  | refl => exact he
  | tail _ hlast => exact (Schema.mem_of_function? hlast.choose_spec).2

/-- A schema of lengths, in which a function is called inside of itself. -/
def lengthSchema : Schema where
  entries := [⟨"width", .only [.quantity], [["auto"]], [("calc", 1)]⟩,
    ⟨"calc()", .only [.quantity, .negativeQuantity], [["+", "-"]], [("calc", 1)]⟩]
  index := [("width", 0), ("calc()", 1)]

/-- A length with nested calls, in capitals and in small letters. -/
theorem sanitizeProperty_caseless_nestedCalls :
    (sanitizeProperty ⟨none, none, lengthSchema, none⟩ "WIDTH"
      ["CALC(", "1E2PX", " ", "-", "-moz-Calc(", "2EM", ")", ")"]).value =
        (sanitizeProperty ⟨none, none, lengthSchema, none⟩ "width"
          ["calc(", "1e2px", " ", "-", "-MOZ-calc(", "2em", ")", ")"]).value ∧
    (sanitizeProperty ⟨none, none, lengthSchema, none⟩ "width"
      ["calc(", "1e2px", " ", "-", "-MOZ-calc(", "2em", ")", ")"]).value =
        [("calc(1e2px - -moz-calc(2em))" : Text)] := by
  have hcaseless : ∀ f ∈ lengthSchema.entries, f.isCaseless := by decide
  refine ⟨sanitizeProperty_caseless ?_ (by decide) ?_, by decide +kernel⟩
  · exact fun e hfind f hreach => hcaseless f (hreach.mem (Schema.mem_of_find? hfind).1)
  · refine .cons ?_
      (.cons ?_ (.cons ?_ (.cons ?_ (.cons ?_ (.cons ?_ (.cons ?_ (.cons ?_ .nil)))))))
    all_goals decide

end CssGuard
