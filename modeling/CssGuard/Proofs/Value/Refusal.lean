import CssGuard.Proofs.Value.Tree

/-!
# Refused URLs

The URLs of a value are those of its tokens and of the arguments of its calls, as deep as
calls are permitted. These are all that the policy is asked about, those with a harmful
scheme aside, and one that is refused empties the value. What stands inside of a call that
is dropped or not closed makes no difference: nobody looks at it.

- `Token.url?`, `ValueTree.urls`: the URL of a token, and those of a tree
- `ValueContext.Refuses`: a URL is refused
- `KeepsUrls`, `ValueTree.keepsUrls`: what is kept of a tree goes by its URLs
- `ValueTree.hidden`: the tokens of a tree, with those inside of
  calls that are dropped hidden
- `ValueTree.keep_hidden`: hiding these tokens changes nothing
- `sanitizeProperty_urls`: values and their URLs
-/

namespace CssGuard

open Text Escape

/-- The URL that a token is read as, where URLs are permitted and
there is a policy to ask. -/
def Token.url? (ctx : ValueContext) (e : Entry) (raw : Token) : Option Text :=
  match Form.of e raw with
  | .string (some body) =>
    if e.allows .url && !e.allows .unreservedWord && ctx.policy.isSome then
      some (decode body) else none
  | .url (some body) =>
    if e.allows .url && ctx.policy.isSome then some (decode body) else none
  | _ => none

/-- The URLs of a tree, in order. -/
def ValueTree.urls (ctx : ValueContext) (e : Entry) : ValueTree → List Text
  | nil => []
  | token raw rest => (raw.url? ctx e).toList ++ rest.urls ctx e
  | call _ f arguments rest => arguments.urls ctx f ++ rest.urls ctx e
  | dropped _ _ _ rest => rest.urls ctx e
  | unclosed .. => []

/-- The URL is refused for a property: seen from the base it has a scheme that is not
harmless, or the policy does not answer with a harmless URL. -/
def ValueContext.Refuses (ctx : ValueContext) (property uri : Text) : Prop :=
  ∃ ask, ctx.policy = some ask ∧ (¬ Url.isHarmless (Url.resolve ctx.base uri) ∨
    ∀ answer, ask (Url.resolve ctx.base uri) property = some answer →
    ¬ Url.isHarmless answer)

/-- The questions to the policy about some URLs. -/
def ValueContext.questions (ctx : ValueContext) (property : Text) (uris : List Text) :
    List (Text × Text) :=
  ((uris.map (Url.resolve ctx.base)).filter Url.isHarmless).map (·, property)

variable {ctx : ValueContext} {property : Text} {e : Entry}

theorem ValueContext.questions_append (uris uris' : List Text) :
    ctx.questions property (uris ++ uris') =
      ctx.questions property uris ++ ctx.questions property uris' := by
  simp [questions]

theorem Trace.issues_append (t t' : Trace) :
    Trace.issues (t ++ t') = Trace.issues t ++ Trace.issues t' :=
  List.filterMap_append

theorem Trace.consultations_append (t t' : Trace) :
    Trace.consultations (t ++ t') = Trace.consultations t ++ Trace.consultations t' :=
  List.filterMap_append

/-! ## Single tokens -/

theorem Url.accept_eq_none_iff (hpolicy : ctx.policy.isSome) (property uri : Text) :
    (Url.accept ctx.policy (Url.resolve ctx.base uri) property).value = none ↔
      ctx.Refuses property uri := by
  obtain ⟨ask, hask⟩ := Option.isSome_iff_exists.mp hpolicy
  unfold ValueContext.Refuses Url.accept
  rw [hask]
  by_cases hharmless : Url.isHarmless (Url.resolve ctx.base uri)
  · simp [hharmless, Option.filter_eq_none_iff]
  · simp [hharmless]

theorem Url.consultations_accept (hpolicy : ctx.policy.isSome) (property uri : Text) :
    (Url.accept ctx.policy (Url.resolve ctx.base uri) property).trace.consultations =
      ctx.questions property [uri] := by
  obtain ⟨ask, hask⟩ := Option.isSome_iff_exists.mp hpolicy
  unfold ValueContext.questions Url.accept
  rw [hask]
  by_cases hharmless : Url.isHarmless (Url.resolve ctx.base uri)
  · simp [hharmless, Trace.consultations]
  · simp [hharmless, Trace.consultations]

theorem Url.issues_accept (policy : Option Url.Policy) (uri user : Text) :
    (Url.accept policy uri user).trace.issues = [] := by
  unfold Url.accept
  split
  · rfl
  split
  · rfl
  · rfl

/-- A token with a URL is kept as the URL that was accepted for it, or refused. -/
theorem keepForm_of_url? {raw : Token} {uri : Text} (h : raw.url? ctx e = some uri) :
    ctx.policy.isSome ∧ ∃ body, decode body = uri ∧
      keepForm ctx property e raw (Form.of e raw) = keepUrl ctx property body := by
  unfold Token.url? at h
  split at h
  · rename_i body hform
    split at h
    · rename_i hurl
      cases h
      simp only [Bool.and_eq_true] at hurl
      refine ⟨hurl.2, body, rfl, ?_⟩
      rw [hform, keepForm, if_pos (by simp [hurl]), if_pos hurl.2]
    · cases h
  · rename_i body hform
    split at h
    · rename_i hurl
      cases h
      refine ⟨(Bool.and_eq_true_iff.mp hurl).2, body, rfl, ?_⟩
      rw [hform, keepForm, if_pos hurl]
    · cases h
  · cases h

/-- Nobody is asked about a token without a URL, and it is not refused. -/
theorem keepForm_of_not_url? {raw : Token} (h : raw.url? ctx e = none) :
    ∃ d : Draft, d.refused = false ∧
    keepForm ctx property e raw (Form.of e raw) = pure d := by
  unfold Token.url? at h
  generalize Form.of e raw = form at h
  cases form with
  | string body =>
    cases body with
    | none => exact ⟨_, rfl, rfl⟩
    | some body =>
      rw [keepForm]
      split
      · rename_i hurl
        -- without a policy there is nobody to be asked
        have hpolicy : ¬ ctx.policy.isSome := fun hpolicy => by simp [hurl, hpolicy] at h
        rw [if_neg hpolicy]
        exact ⟨_, rfl, rfl⟩
      split
      · exact ⟨_, rfl, rfl⟩
      · exact ⟨_, rfl, rfl⟩
  | url body =>
    cases body with
    | none => exact ⟨_, rfl, rfl⟩
    | some body =>
      have hurl : ¬ (e.allows .url && ctx.policy.isSome) := fun hurl => by
        simp [hurl] at h
      rw [keepForm, if_neg hurl]
      exact ⟨_, rfl, rfl⟩
  | color =>
    refine ⟨_, ?_, rfl⟩
    split
    · rfl
    · rfl
  | name =>
    rw [keepForm]
    split
    · exact ⟨_, rfl, rfl⟩
    split
    · exact ⟨_, rfl, rfl⟩
    · exact ⟨_, rfl, rfl⟩
  | _ => exact ⟨_, rfl, rfl⟩

/-! ## Trees -/

/-- What is kept goes by the given URLs: the policy is asked about them, those that are
refused are reported and refuse the whole, and if none is refused something is kept. -/
structure KeepsUrls (ctx : ValueContext) (property : Text) (uris : List Text)
    (x : Traced Draft) : Prop where
  refused_iff : x.value.refused ↔ ∃ uri ∈ uris, ctx.Refuses property uri
  rejected_iff : ∀ uri, .rejectedUrl property uri ∈ x.trace.issues ↔
    uri ∈ uris ∧ ctx.Refuses property uri
  consultations : x.trace.consultations = ctx.questions property uris
  keeps : uris ≠ [] → ¬ x.value.refused → x.value.pieces ≠ []

theorem keepsUrls_pure {d : Draft} (h : d.refused = false) :
    KeepsUrls ctx property [] (pure d) where
  refused_iff := by simp [h]
  rejected_iff := by simp [Trace.issues]
  consultations := rfl
  keeps h := absurd rfl h

theorem keepsUrls_reporting {cause : Issue}
    (h : ∀ uri, cause ≠ .rejectedUrl property uri) :
    KeepsUrls ctx property [] (Traced.reporting cause .empty) where
  refused_iff := by simp [Traced.reporting, Draft.empty]
  rejected_iff uri := by simp [Traced.reporting, Trace.issues, (h uri).symm]
  consultations := rfl
  keeps h := absurd rfl h

theorem KeepsUrls.append {x y : Traced Draft} {uris uris' : List Text}
    (hx : KeepsUrls ctx property uris x) (hy : KeepsUrls ctx property uris' y) :
    KeepsUrls ctx property (uris ++ uris') (do
      let draft ← x
      let more ← y
      pure (draft.append more)) where
  refused_iff := by
    show (x.value.refused || y.value.refused) = true ↔ _
    rw [Bool.or_eq_true, hx.refused_iff, hy.refused_iff]
    simp only [List.mem_append, or_and_right, exists_or]
  rejected_iff uri := by
    simp only [Traced.trace_bind, Traced.trace_pure, Trace.issues_append, List.append_nil,
      List.mem_append, hx.rejected_iff, hy.rejected_iff, or_and_right]
  consultations := by
    simp only [Traced.trace_bind, Traced.trace_pure, Trace.consultations_append,
      List.append_nil]
    rw [hx.consultations, hy.consultations, ctx.questions_append]
  keeps := by
    intro hne hrefused
    obtain ⟨hrefused, hrefused'⟩ := not_or.mp (mt Bool.or_eq_true_iff.mpr hrefused)
    by_cases huris : uris = []
    · rw [huris, List.nil_append] at hne
      exact List.append_ne_nil_of_right_ne_nil _ (hy.keeps hne hrefused')
    · exact List.append_ne_nil_of_left_ne_nil (hx.keeps huris hrefused) _

theorem keepsUrls_keepUrl (hpolicy : ctx.policy.isSome) (body : Text) :
    KeepsUrls ctx property [decode body] (keepUrl ctx property body) := by
  have hnone := Url.accept_eq_none_iff hpolicy property (decode body)
  have hasks := Url.consultations_accept hpolicy property (decode body)
  have hissues :=
    Url.issues_accept ctx.policy (Url.resolve ctx.base (decode body)) property
  simp only [keepUrl]
  -- the answer is all that matters now, not how it came about
  generalize Url.accept ctx.policy (Url.resolve ctx.base (decode body)) property = x
    at hnone hasks hissues ⊢
  obtain ⟨answer, trace⟩ := x
  cases answer with
  | none =>
    have hrefuses := hnone.mp rfl
    refine ⟨⟨fun _ => ⟨_, List.mem_singleton.mpr rfl, hrefuses⟩, fun _ => rfl⟩,
      fun uri => ?_, ?_, fun _ h => absurd rfl h⟩
    · rw [Traced.trace_bind, Trace.issues_append, hissues, List.nil_append,
        List.mem_singleton]
      constructor
      · intro h
        cases List.mem_singleton.mp h
        exact ⟨rfl, hrefuses⟩
      · rintro ⟨rfl, -⟩
        exact List.mem_singleton.mpr rfl
    · rw [Traced.trace_bind, Trace.consultations_append, hasks]
      exact List.append_nil _
  | some uri =>
    have haccepts : ∀ uri ∈ [decode body], ¬ ctx.Refuses property uri := by
      intro uri hmem
      rw [List.mem_singleton.mp hmem, ← hnone]
      exact Option.some_ne_none _
    refine ⟨⟨fun h => (nomatch h), fun ⟨uri, hmem, h⟩ => absurd h (haccepts uri hmem)⟩,
      fun uri => ⟨fun h => ?_, fun ⟨hmem, h⟩ => absurd h (haccepts uri hmem)⟩, ?_,
      fun _ _ => List.cons_ne_nil _ _⟩
    · rw [Traced.trace_bind, Trace.issues_append, hissues] at h
      cases h
    · rw [Traced.trace_bind, Trace.consultations_append, hasks]
      exact List.append_nil _

theorem keepsUrls_keepForm (ctx : ValueContext) (property : Text) (e : Entry)
    (raw : Token) :
    KeepsUrls ctx property (raw.url? ctx e).toList
      (keepForm ctx property e raw (Form.of e raw)) := by
  cases hurl : raw.url? ctx e with
  | none =>
    obtain ⟨d, hrefused, heq⟩ := keepForm_of_not_url? hurl
    rw [heq]
    exact keepsUrls_pure hrefused
  | some uri =>
    obtain ⟨hpolicy, body, rfl, heq⟩ := keepForm_of_url? hurl
    rw [heq]
    exact keepsUrls_keepUrl hpolicy body

theorem keepsUrls_keep (raw : Token) :
    KeepsUrls ctx property (raw.url? ctx e).toList (keep ctx property e raw) := by
  have h := keepsUrls_keepForm ctx property e raw
  refine ⟨?_, fun uri => ?_, ?_, ?_⟩
  · rw [value_keep]
    exact h.refused_iff
  · rw [trace_keep, Trace.issues_append, List.mem_append, h.rejected_iff]
    split
    · simp [Trace.issues]
    · simp [Trace.issues]
  · rw [trace_keep, Trace.consultations_append, h.consultations]
    split
    · exact List.append_nil _
    · exact List.append_nil _
  · rw [value_keep]
    exact h.keeps

theorem coalesce_eq_nil_iff {pieces : List Piece} :
    coalesce none pieces = [] ↔ pieces = [] := by
  have hpending : ∀ (words : Text) (pieces : List Piece),
      coalesce (some words) pieces ≠ [] := by
    intro words pieces
    induction pieces generalizing words with
    | nil => exact List.cons_ne_nil _ _
    | cons p pieces ih =>
      cases p with
      | token t => exact List.cons_ne_nil _ _
      | word w => exact ih _
  cases pieces with
  | nil => exact ⟨fun _ => rfl, fun _ => rfl⟩
  | cons p pieces =>
    refine ⟨fun h => ?_, fun h => absurd h (List.cons_ne_nil _ _)⟩
    cases p with
    | token t => exact absurd h (List.cons_ne_nil _ _)
    | word w => exact absurd h (hpending w pieces)

/-- What is kept of a call with the given arguments. -/
theorem inCall_finish (d : Draft) (opener : Token) :
    (d.finish.inCall opener).refused = d.refused ∧
      (¬ d.refused → ((d.finish.inCall opener).pieces = [] ↔ d.pieces = [])) := by
  unfold Kept.inCall Draft.finish
  by_cases hrefused : d.refused
  · simp [hrefused]
  by_cases hpieces : d.pieces = []
  · simp [hrefused, hpieces, coalesce, Draft.empty]
  · simp [hrefused, hpieces, coalesce_eq_nil_iff, Draft.single]

/-- A call is refused when its arguments are, and nothing is kept of it
when nothing is kept of them. -/
theorem KeepsUrls.inCall {x : Traced Draft} {uris : List Text}
    (h : KeepsUrls ctx property uris x) (opener : Token) :
    KeepsUrls ctx property uris (do
      let draft ← x
      pure (draft.finish.inCall opener)) := by
  obtain ⟨hrefused, hpieces⟩ := inCall_finish x.value opener
  refine ⟨?_, fun uri => ?_, ?_, fun hne hcall => ?_⟩
  · rw [Traced.value_bind, Traced.value_pure, hrefused]
    exact h.refused_iff
  · simpa using h.rejected_iff uri
  · simpa using h.consultations
  · rw [Traced.value_bind, Traced.value_pure, hrefused] at hcall
    exact mt (hpieces hcall).mp (h.keeps hne hcall)

/-- What is kept of a tree goes by its URLs. -/
theorem ValueTree.keepsUrls (tree : ValueTree) (e : Entry) :
    KeepsUrls ctx property (tree.urls ctx e) (tree.keep ctx property e) := by
  induction tree generalizing e with
  | nil => exact keepsUrls_pure rfl
  | token raw rest ih => exact (keepsUrls_keep raw).append (ih e)
  | call opener f arguments rest ihargs ih =>
    have h := ((ihargs f).inCall (lower opener)).append (ih e)
    simp only [bind_assoc, pure_bind] at h
    exact h
  | dropped opener tooDeep inside rest ih =>
    refine (keepsUrls_reporting fun uri => ?_).append (ih e)
    cases tooDeep <;> exact nofun
  | unclosed opener inside => exact keepsUrls_reporting nofun

/-! ## Calls that are dropped -/

/-- What is left of a token that nobody looks at: whether it opens or closes a call. -/
def Token.hidden (t : Token) : Token :=
  if t = Token.closeParen ∨ t.opensCall then t else []

/-- The tokens of a tree, with those inside of calls that are
dropped or not closed hidden. -/
def ValueTree.hidden : ValueTree → List Token
  | nil => []
  | token raw rest => raw :: rest.hidden
  | call opener _ arguments rest =>
    opener :: (arguments.hidden ++ Token.closeParen :: rest.hidden)
  | dropped opener _ inside rest =>
    opener :: (inside.map Token.hidden ++ Token.closeParen :: rest.hidden)
  | unclosed opener inside => opener :: inside.map Token.hidden

theorem turn?_hidden (depth : Nat) (t : Token) :
    turn? depth t.hidden = turn? depth t := by
  unfold Token.hidden
  split
  · rfl
  · rename_i h
    obtain ⟨hclose, hopens⟩ := not_or.mp h
    rw [turn?_of_ne hclose, turn?_of_ne (by decide), if_neg hopens]
    rfl

theorem depthAfter?_cons (depth : Nat) (t : Token) (ts : List Token) :
    depthAfter? depth (t :: ts) = (turn? depth t).bind (depthAfter? · ts) :=
  rfl

theorem depthAfter?_append (depth : Nat) (ts us : List Token) :
    depthAfter? depth (ts ++ us) = (depthAfter? depth ts).bind (depthAfter? · us) :=
  List.foldlM_append

theorem depthAfter?_map_hidden (ts : List Token) :
    ∀ depth, depthAfter? depth (ts.map Token.hidden) = depthAfter? depth ts := by
  induction ts with
  | nil => exact fun _ => rfl
  | cons t ts ih =>
    intro depth
    rw [List.map_cons, depthAfter?_cons, depthAfter?_cons, turn?_hidden]
    simp only [ih]

/-- Hiding tokens does not change how deep the others stand in calls. -/
theorem ValueTree.depthAfter?_hidden (ctx : ValueContext) (levels : Nat) (e : Entry)
    (ts : List Token) :
    ∀ depth, depthAfter? depth (of ctx levels e ts).hidden = depthAfter? depth ts := by
  -- tokens that are hidden inside of a call, and after it
  have hclosed : ∀ {raw rest args after args' after'},
      callAt? raw rest = some (args, after) →
      (∀ depth, depthAfter? depth args' = depthAfter? depth args) →
      (∀ depth, depthAfter? depth after' = depthAfter? depth after) → ∀ depth,
      depthAfter? depth (raw :: (args' ++ Token.closeParen :: after')) =
        depthAfter? depth (raw :: rest) := by
    intro raw rest args after args' after' hcall hargs hafter depth
    rw [append_of_callAt? hcall]
    simp only [depthAfter?_cons, depthAfter?_append, hargs, hafter]
  fun_induction of ctx levels e ts with
  | case1 => exact fun _ => rfl
  | case2 levels e raw rest hform hcall =>
    intro depth
    rw [hidden, depthAfter?_cons, depthAfter?_cons]
    simp only [depthAfter?_map_hidden]
  | case3 e raw rest hform args after hcall ih =>
    exact hclosed hcall (depthAfter?_map_hidden args) ih
  | case4 e raw rest hform args after hcall below hf ih =>
    exact hclosed hcall (depthAfter?_map_hidden args) ih
  | case5 e raw rest hform args after hcall below f hf ihargs ih =>
    exact hclosed hcall ihargs ih
  | case6 levels e raw rest hform ih =>
    intro depth
    rw [hidden, depthAfter?_cons, depthAfter?_cons]
    simp only [ih]

/-- What stands inside of calls that are dropped or not closed makes no difference. -/
theorem ValueTree.keep_hidden (ctx : ValueContext) (property : Text)
    (levels : Nat) (e : Entry) (ts : List Token) :
    (of ctx levels e (of ctx levels e ts).hidden).keep ctx property e =
      (of ctx levels e ts).keep ctx property e := by
  -- a call is closed where it was, if the tokens inside lead as deep as before
  have hclosed : ∀ {raw rest args after args' after'},
      callAt? raw rest = some (args, after) → depthAfter? 0 args' = depthAfter? 0 args →
      callAt? raw (args' ++ Token.closeParen :: after') = some (args', after') := by
    intro raw rest args after args' after' hcall hargs
    obtain ⟨hopens, -, hdepth⟩ := callAt?_eq_some_iff.mp hcall
    exact callAt?_eq_some_iff.mpr ⟨hopens, rfl, hargs.trans hdepth⟩
  fun_induction of ctx levels e ts with
  | case1 => rw [hidden, of]
  | case2 levels e raw rest hform hcall =>
    have hnone : callAt? raw (rest.map Token.hidden) = none := by
      rw [callAt?_eq_none_iff, depthAfter?_map_hidden]
      exact callAt?_eq_none_iff.mp hcall
    rw [hidden, of_unclosed hform hnone]
    rfl
  | case3 e raw rest hform args after hcall ih =>
    rw [hidden, of_closed hform (hclosed hcall (depthAfter?_map_hidden args 0)),
      keep, keep, ih]
  | case4 e raw rest hform args after hcall below hf ih =>
    rw [hidden, of_closed hform (hclosed hcall (depthAfter?_map_hidden args 0))]
    simp only [hf]
    rw [keep, keep, ih]
  | case5 e raw rest hform args after hcall below f hf ihargs ih =>
    -- inside of these arguments only some tokens are hidden
    rw [hidden, of_closed hform (hclosed hcall (depthAfter?_hidden ctx below f args 0))]
    simp only [hf]
    rw [keep, keep, ihargs, ih]
  | case6 levels e raw rest hform ih => rw [hidden, of_token hform, keep, keep, ih]

/-! ## Properties -/

theorem KeepsUrls.value_ne_nil {uris : List Text} {x : Traced Draft}
    (h : KeepsUrls ctx property uris x) (hne : uris ≠ [])
    (haccepts : ∀ uri ∈ uris, ¬ ctx.Refuses property uri) :
    (if x.value.refused then [] else coalesce none x.value.pieces) ≠ [] := by
  have hrefused : ¬ x.value.refused := by
    rw [h.refused_iff]
    exact fun ⟨uri, hmem, hrefuses⟩ => haccepts uri hmem hrefuses
  rw [if_neg hrefused, ne_eq, coalesce_eq_nil_iff]
  exact h.keeps hne hrefused

/-- The policy is asked about the harmless URLs of a value and no others, those that are
refused are reported, and one that is refused empties the value. With URLs of which none
is refused, something is left of the value. URLs inside of calls that are dropped or not
closed are not among them, and the value is sanitized just as if nothing stood there. -/
theorem sanitizeProperty_urls (ctx : ValueContext) (name : Text) (value : List Token) :
    let result := sanitizeProperty ctx name value
    (ctx.schema.find? (lower name) = none → result.trace.consultations = []) ∧
    ∀ e, ctx.schema.find? (lower name) = some e →
      let tree := ValueTree.of ctx maxCallDepth e value
      result.trace.consultations = ctx.questions (lower name) (tree.urls ctx e) ∧
      (∀ uri, .rejectedUrl (lower name) uri ∈ result.trace.issues ↔
        uri ∈ tree.urls ctx e ∧ ctx.Refuses (lower name) uri) ∧
      ((∃ uri ∈ tree.urls ctx e, ctx.Refuses (lower name) uri) → result.value = []) ∧
      (tree.urls ctx e ≠ [] → (∀ uri ∈ tree.urls ctx e, ¬ ctx.Refuses (lower name) uri) →
        result.value ≠ []) ∧
      sanitizeProperty ctx name tree.hidden = result := by
  refine ⟨fun hfind => ?_, fun e hfind => ?_⟩
  · rw [sanitizeProperty, hfind]
    rfl
  · have h : KeepsUrls ctx (lower name) _ _ :=
      (ValueTree.of ctx maxCallDepth e value).keepsUrls e
    simp only [sanitizeProperty_eq hfind, Traced.trace_map, Traced.value_map,
      ValueTree.keep_hidden]
    refine ⟨h.consultations, h.rejected_iff, fun hrefuses => ?_, h.value_ne_nil, trivial⟩
    exact if_pos (h.refused_iff.mpr hrefuses)

/-- A property that takes images, by their URLs or as a function of them, with a
policy that refuses one URL. -/
def imageContext : ValueContext where
  policy := some fun uri _ => if uri = "b" then none else some uri
  base := none
  schema.entries := [⟨"icon", .only [.url], [], [("image", 1)]⟩,
    ⟨"image()", .only [.url], [], []⟩]
  schema.index := [("icon", 0), ("image()", 1)]
  idSuffix := none

theorem sanitizeProperty_urls_nested :
    let value : List Token :=
      ["url(\"a\")", "image(", "url(\"b\")", ")", "paint(", "url(\"c\")", ")"]
    let icon : Entry := ⟨"icon", .only [.url], [], [("image", 1)]⟩
    imageContext.schema.find? (lower "icon") = some icon ∧
      ['b'] ∈ (ValueTree.of imageContext maxCallDepth icon value).urls imageContext icon ∧
      imageContext.Refuses "icon" ['b'] ∧
      (sanitizeProperty imageContext "icon" value).value = [] := by
  intro value icon
  have hfind : imageContext.schema.find? (lower "icon") = some icon := by decide +kernel
  obtain ⟨-, hrejected, hempty, -⟩ :=
    (sanitizeProperty_urls imageContext "icon" value).2 icon hfind
  have hlower : lower "icon" = "icon" := by decide +kernel
  rw [hlower] at hrejected hempty
  obtain ⟨hmem, hrefuses⟩ := (hrejected ['b']).mp (by decide +kernel)
  exact ⟨hfind, hmem, hrefuses, hempty ⟨_, hmem, hrefuses⟩⟩

end CssGuard
