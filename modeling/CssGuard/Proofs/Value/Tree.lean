import CssGuard.Value.Sanitize

/-!
# Values as trees

A value is a row of tokens and calls, and the arguments of a call are such a row again.
The sanitizer does not build this tree: it looks up where each call is closed and skips
what it has dealt with. Here the tree is built, and what is kept of a value is read off it
by recursion. All that is said of whole values afterwards follows the tree, and no place
in a list comes into it.

- `depthAfter?`, `upToClose?`: how deep tokens lead into calls, and where a call is closed
- `lookup_callEnds`: one pass over the tokens finds the same matches
- `ValueTree`, `ValueTree.of`: a value as a tree
- `ValueTree.keep`: what is kept of a tree
- `sanitizeAt_eq`, `sanitizeProperty_eq`: values are sanitized as their trees
-/

namespace CssGuard

open Text

/-! ## Where a call is closed -/

/-- How many calls are open after a token when `depth` are open before it; none when it
closes a call that is not among them. -/
def turn? (depth : Nat) (t : Token) : Option Nat :=
  if t = Token.closeParen then
    match depth with
    | 0 => none
    | depth + 1 => some depth
  else some (if t.opensCall then depth + 1 else depth)

/-- How many calls are open after some tokens, if they close no call but those. -/
def depthAfter? (depth : Nat) (ts : List Token) : Option Nat :=
  ts.foldlM turn? depth

/-- The tokens before the parenthesis that closes a call inside which `depth` others are
open, and the tokens after it. -/
def upToClose? : (depth : Nat) → List Token → Option (List Token × List Token)
  | _, [] => none
  | depth, t :: rest =>
    match turn? depth t with
    | none => some ([], rest)
    | some depth => (upToClose? depth rest).map (Prod.map (t :: ·) id)

theorem turn?_eq_none_iff {depth : Nat} {t : Token} :
    turn? depth t = none ↔ t = Token.closeParen ∧ depth = 0 := by
  unfold turn?
  split
  · rename_i ht
    cases depth with
    | zero => simp [ht]
    | succ depth => simp
  · rename_i ht
    simp [ht]

theorem turn?_of_ne {depth : Nat} {t : Token} (h : t ≠ Token.closeParen) :
    turn? depth t = some (if t.opensCall then depth + 1 else depth) := by
  unfold turn?
  rw [if_neg h]

/-- A call is closed by the first parenthesis in front of which all that
was opened inside is closed. -/
theorem upToClose?_eq_some_iff {ts args after : List Token} : ∀ {depth : Nat},
    upToClose? depth ts = some (args, after) ↔
      ts = args ++ Token.closeParen :: after ∧ depthAfter? depth args = some 0 := by
  induction ts generalizing args with
  | nil => simp [upToClose?]
  | cons t ts ih =>
    intro depth
    rw [upToClose?]
    cases hturn : turn? depth t with
    | none =>
      -- the token closes the call
      obtain ⟨rfl, rfl⟩ := turn?_eq_none_iff.mp hturn
      cases args with
      | nil => simp [depthAfter?]
      | cons a args =>
        simp only [List.cons_append, List.cons.injEq, depthAfter?, List.foldlM_cons]
        constructor
        · intro h
          cases h
        · rintro ⟨⟨rfl, -⟩, h⟩
          rw [hturn] at h
          cases h
    | some d =>
      -- the token is inside of the call, so it is the first argument
      cases args with
      | nil =>
        simp only [List.nil_append, List.cons.injEq, depthAfter?, List.foldlM_nil]
        constructor
        · intro h
          obtain ⟨p, -, hp⟩ := Option.map_eq_some_iff.mp h
          cases hp
        · rintro ⟨⟨rfl, -⟩, h⟩
          cases h
          cases hturn
      | cons a args =>
        simp only [List.cons_append, List.cons.injEq, depthAfter?, List.foldlM_cons]
        constructor
        · intro h
          obtain ⟨⟨args', after'⟩, hp, heq⟩ := Option.map_eq_some_iff.mp h
          cases heq
          obtain ⟨rfl, hdepth⟩ := ih.mp hp
          refine ⟨⟨rfl, rfl⟩, ?_⟩
          rw [hturn]
          exact hdepth
        · rintro ⟨⟨rfl, hts⟩, h⟩
          rw [hturn] at h
          rw [ih.mpr ⟨hts, h⟩]
          rfl

theorem upToClose?_eq_none_iff {ts : List Token} : ∀ {depth : Nat},
    upToClose? depth ts = none ↔ (depthAfter? depth ts).isSome := by
  induction ts with
  | nil => simp [upToClose?, depthAfter?]
  | cons t ts ih =>
    intro depth
    rw [upToClose?, depthAfter?, List.foldlM_cons]
    cases hturn : turn? depth t with
    | none => simp
    | some d => exact Option.map_eq_none_iff.trans ih

/-- What a token opens, and where that is closed in what follows it. -/
def callAt? (opener : Token) (rest : List Token) : Option (List Token × List Token) :=
  if opener.opensCall then upToClose? 0 rest else none

theorem callAt?_eq_some_iff {opener : Token} {rest args after : List Token} :
    callAt? opener rest = some (args, after) ↔ opener.opensCall ∧
      rest = args ++ Token.closeParen :: after ∧ depthAfter? 0 args = some 0 := by
  unfold callAt?
  split
  · rename_i hopens
    exact upToClose?_eq_some_iff.trans ⟨fun h => ⟨hopens, h⟩, fun h => h.2⟩
  · rename_i hopens
    exact ⟨fun h => (nomatch h), fun h => absurd h.1 hopens⟩

theorem callAt?_eq_none_iff {opener : Token} {rest : List Token} :
    callAt? opener rest = none ↔ (opener.opensCall → (depthAfter? 0 rest).isSome) := by
  unfold callAt?
  split
  · rename_i hopens
    exact upToClose?_eq_none_iff.trans ⟨fun h _ => h, fun h => h hopens⟩
  · rename_i hopens
    exact ⟨fun _ h => absurd h hopens, fun _ => rfl⟩

theorem append_of_callAt? {opener : Token} {rest args after : List Token}
    (h : callAt? opener rest = some (args, after)) :
    rest = args ++ Token.closeParen :: after :=
  (callAt?_eq_some_iff.mp h).2.1

theorem length_lt_of_callAt? {opener : Token} {rest args after : List Token}
    (h : callAt? opener rest = some (args, after)) :
    after.length < (opener :: rest).length := by
  rw [append_of_callAt? h]
  simp only [List.length_cons, List.length_append]
  omega

/-! ## The pass that finds the matches -/

namespace CallScan

/-- What one token does to a scan. -/
theorem next_cases (s : CallScan) (t : Token) :
    (t = Token.closeParen ∧ s.opened = [] ∧ s.next t = ⟨s.place + 1, [], s.found⟩) ∨
    (∃ i opened, t = Token.closeParen ∧ s.opened = i :: opened ∧
      s.next t = ⟨s.place + 1, opened, (i, s.place) :: s.found⟩) ∨
    (t ≠ Token.closeParen ∧ t.opensCall ∧
      s.next t = ⟨s.place + 1, s.place :: s.opened, s.found⟩) ∨
    (t ≠ Token.closeParen ∧ ¬ t.opensCall ∧ s.next t = ⟨s.place + 1, s.opened,
      s.found⟩) := by
  unfold next
  by_cases hclose : t = Token.closeParen
  · rw [if_pos hclose]
    cases hopened : s.opened with
    | nil => exact .inl ⟨hclose, rfl, rfl⟩
    | cons i opened => exact .inr (.inl ⟨i, opened, hclose, rfl, rfl⟩)
  · rw [if_neg hclose]
    by_cases hopens : t.opensCall
    · rw [if_pos hopens]
      exact .inr (.inr (.inl ⟨hclose, hopens, rfl⟩))
    · rw [if_neg hopens]
      exact .inr (.inr (.inr ⟨hclose, hopens, rfl⟩))

/-- The places that a scan knows lie behind it. -/
structure IsBehind (s : CallScan) : Prop where
  opened : ∀ p ∈ s.opened, p < s.place
  found : ∀ q ∈ s.found, q.1 < s.place

theorem IsBehind.next {s : CallScan} (h : s.IsBehind) (t : Token) :
    (s.next t).IsBehind := by
  have hopened : ∀ p ∈ s.opened, p < s.place + 1 :=
    fun p hp => Nat.lt_succ_of_lt (h.opened p hp)
  have hfound : ∀ q ∈ s.found, q.1 < s.place + 1 :=
    fun q hq => Nat.lt_succ_of_lt (h.found q hq)
  obtain ⟨-, -, heq⟩ | ⟨i, opened, -, hs, heq⟩ | ⟨-, -, heq⟩ | ⟨-, -, heq⟩ :=
    s.next_cases t <;> rw [heq]
  · exact ⟨by simp, hfound⟩
  · rw [hs] at hopened
    obtain ⟨hi, hrest⟩ := List.forall_mem_cons.mp hopened
    exact ⟨hrest, List.forall_mem_cons.mpr ⟨hi, hfound⟩⟩
  · exact ⟨List.forall_mem_cons.mpr ⟨Nat.lt_succ_self _, hopened⟩, hfound⟩
  · exact ⟨hopened, hfound⟩

theorem place_next (s : CallScan) (t : Token) : (s.next t).place = s.place + 1 := by
  obtain ⟨-, -, heq⟩ | ⟨i, opened, -, -, heq⟩ | ⟨-, -, heq⟩ | ⟨-, -, heq⟩ :=
    s.next_cases t <;> rw [heq]

theorem place_foldl_next (ts : List Token) (s : CallScan) :
    (ts.foldl next s).place = s.place + ts.length := by
  induction ts generalizing s with
  | nil => rfl
  | cons t ts ih =>
    rw [List.foldl_cons, ih, place_next, List.length_cons]
    omega

theorem IsBehind.foldl_next {s : CallScan} (h : s.IsBehind) (ts : List Token) :
    (ts.foldl CallScan.next s).IsBehind := by
  induction ts generalizing s with
  | nil => exact h
  | cons t ts ih => exact ih (h.next t)

/-- What was found for a place behind the scan stays, unless a call is open there. -/
theorem lookup_foldl_next {p : Nat} (ts : List Token) :
    ∀ {s : CallScan}, p < s.place → p ∉ s.opened →
    (ts.foldl next s).found.lookup p = s.found.lookup p := by
  induction ts with
  | nil => exact fun _ _ => rfl
  | cons t ts ih =>
    intro s hplace hopened
    rw [List.foldl_cons]
    obtain ⟨-, -, heq⟩ | ⟨i, opened, -, hs, heq⟩ | ⟨-, -, heq⟩ | ⟨-, -, heq⟩ :=
      s.next_cases t <;> rw [heq]
    · exact ih (Nat.lt_succ_of_lt hplace) List.not_mem_nil
    · rw [hs, List.mem_cons, not_or] at hopened
      rw [ih (Nat.lt_succ_of_lt hplace) hopened.2, List.lookup_cons,
        beq_false_of_ne hopened.1]
    · refine ih (Nat.lt_succ_of_lt hplace) ?_
      rw [List.mem_cons, not_or]
      exact ⟨Nat.ne_of_lt hplace, hopened⟩
    · exact ih (Nat.lt_succ_of_lt hplace) hopened

/-- A call inside which other calls are open is found where it is closed. -/
theorem lookup_of_opened {p : Nat} {outside : List Nat} (ts : List Token) :
    ∀ {place : Nat} {inside : List Nat} {found : List (Nat × Nat)}, p < place →
      p ∉ inside → p ∉ outside → found.lookup p = none →
      (ts.foldl next ⟨place, inside ++ p :: outside, found⟩).found.lookup p =
        (upToClose? inside.length ts).map fun call => place + call.1.length := by
  -- `inside` are the calls that were opened after the one at `p`; it is closed
  -- when none of them is left
  induction ts with
  | nil => exact fun _ _ _ hfound => hfound
  | cons t ts ih =>
    intro place inside found hplace hinside houtside hfound
    have hmap : ∀ depth, ((upToClose? depth ts).map (Prod.map (t :: ·) id)).map
        (fun call => place + call.1.length) =
        (upToClose? depth ts).map fun call => place + 1 + call.1.length := by
      intro depth
      rw [Option.map_map]
      congr 1
      funext call
      simp only [Function.comp, Prod.map, List.length_cons]
      omega
    have hbehind := Nat.lt_succ_of_lt hplace
    rw [List.foldl_cons, upToClose?]
    obtain ⟨-, hs, -⟩ | ⟨i, opened, rfl, hs, heq⟩ | ⟨hclose, hopens, heq⟩ |
        ⟨hclose, hopens, heq⟩ :=
      next_cases ⟨place, inside ++ p :: outside, found⟩ t
    · simp at hs
    · rw [heq]
      cases inside with
      | nil =>
        cases hs
        rw [lookup_foldl_next ts hbehind houtside, List.lookup_cons, BEq.rfl]
        rfl
      | cons q inside =>
        cases hs
        rw [List.mem_cons, not_or] at hinside
        have hfound' : List.lookup p ((i, place) :: found) = none := by
          rw [List.lookup_cons, beq_false_of_ne hinside.1]
          exact hfound
        exact (ih hbehind hinside.2 houtside hfound').trans (hmap _).symm
    · have hinside' : p ∉ place :: inside := by
        rw [List.mem_cons, not_or]
        exact ⟨Nat.ne_of_lt hplace, hinside⟩
      rw [heq, turn?_of_ne hclose, if_pos hopens]
      have hmore := ih hbehind hinside' houtside hfound
      rw [List.length_cons] at hmore
      exact hmore.trans (hmap _).symm
    · rw [heq, turn?_of_ne hclose, if_neg hopens]
      exact (ih hbehind hinside houtside hfound).trans (hmap _).symm

end CallScan

/-- The pass finds for an opener the place where its call is closed. -/
theorem lookup_callEnds (before : List Token) (t : Token) (rest : List Token) :
    (callEnds (before ++ t :: rest)).lookup before.length =
      (callAt? t rest).map fun call => before.length + 1 + call.1.length := by
  rw [callEnds, List.foldl_append, List.foldl_cons]
  have hplace : (before.foldl CallScan.next ⟨0, [], []⟩).place = before.length := by
    rw [CallScan.place_foldl_next, Nat.zero_add]
  have hbehind : (before.foldl CallScan.next ⟨0, [], []⟩).IsBehind :=
    CallScan.IsBehind.foldl_next ⟨by simp, by simp⟩ before
  generalize before.foldl CallScan.next ⟨0, [], []⟩ = s at hplace hbehind
  rw [← hplace]
  -- the scan knows nothing of its own place yet: what is found there is found from `t` on
  have hopened : s.place ∉ s.opened := fun hmem => Nat.lt_irrefl _ (hbehind.opened _ hmem)
  have hfound : s.found.lookup s.place = none := by
    rw [List.lookup_eq_none_iff]
    intro q hq
    exact bne_iff_ne.mpr (Nat.ne_of_gt (hbehind.found q hq))
  by_cases hopens : t.opensCall
  · rw [callAt?, if_pos hopens]
    obtain ⟨rfl, -⟩ | ⟨_, _, rfl, -⟩ | ⟨-, -, heq⟩ | ⟨-, hnot, -⟩ := s.next_cases t
    · cases hopens
    · cases hopens
    · rw [heq]
      exact @CallScan.lookup_of_opened _ _ rest _ [] _ (Nat.lt_succ_self _)
        List.not_mem_nil hopened hfound
    · exact absurd hopens hnot
  · rw [callAt?, if_neg hopens, Option.map_none]
    have hnext : (s.next t).found.lookup s.place = none ∧
        s.place ∉ (s.next t).opened := by
      obtain ⟨-, -, heq⟩ | ⟨i, opened, -, hs, heq⟩ | ⟨-, h, -⟩ | ⟨-, -, heq⟩ :=
        s.next_cases t
      · rw [heq]
        exact ⟨hfound, List.not_mem_nil⟩
      · rw [hs, List.mem_cons, not_or] at hopened
        rw [heq, List.lookup_cons, beq_false_of_ne hopened.1]
        exact ⟨hfound, hopened.2⟩
      · exact absurd h hopens
      · rw [heq]
        exact ⟨hfound, hopened⟩
    rw [CallScan.lookup_foldl_next rest
      (by rw [CallScan.place_next]; exact Nat.lt_succ_self _) hnext.2]
    exact hnext.1

/-! ## Trees -/

/-- What is kept of a call whose arguments were sanitized. -/
def Kept.inCall (kept : Kept) (opener : Token) : Draft :=
  if kept.refused then ⟨[], true⟩
  else if kept.tokens.isEmpty then .empty
  else .single (opener ++ joinValue kept.tokens ++ ")")

/-- A value, or the arguments of a call. -/
inductive ValueTree where
  /-- The end. -/
  | nil
  /-- A token that opens no call, and what follows it. -/
  | token (raw : Token) (rest : ValueTree)
  /-- A call of a function that is permitted, its arguments, and what follows it. -/
  | call (opener : Token) (function : Entry) (arguments rest : ValueTree)
  /-- A call that is nested too deep or not permitted, what stands
  inside, and what follows it. -/
  | dropped (opener : Token) (tooDeep : Bool) (inside : List Token) (rest : ValueTree)
  /-- A call that is not closed, and all that follows its opener. -/
  | unclosed (opener : Token) (inside : List Token)

namespace ValueTree

/-- The tree of tokens under an entry, with calls nested at most `levels` deep. -/
def of (ctx : ValueContext) (levels : Nat) (e : Entry) (ts : List Token) : ValueTree :=
  match ts with
  | [] => nil
  | raw :: rest =>
    if Form.of e raw = .call then
      match _hcall : callAt? raw rest with
      | none => unclosed raw rest
      | some (args, after) =>
        match levels with
        | 0 => dropped raw true args (of ctx 0 e after)
        | below + 1 =>
          match ctx.schema.function? e (withoutVendor (lower raw).dropLast) with
          | none => dropped raw false args (of ctx (below + 1) e after)
          | some f => call raw f (of ctx below f args) (of ctx (below + 1) e after)
    else token raw (of ctx levels e rest)
termination_by (levels, ts.length)
decreasing_by
  · exact Prod.Lex.right _ (length_lt_of_callAt? ‹_›)
  · exact Prod.Lex.right _ (length_lt_of_callAt? ‹_›)
  · exact Prod.Lex.left _ _ (Nat.lt_succ_self _)
  · exact Prod.Lex.right _ (length_lt_of_callAt? ‹_›)
  · exact Prod.Lex.right _ (Nat.lt_succ_self _)

section Equations

variable {ctx : ValueContext} {levels : Nat} {e : Entry} {raw : Token}
  {rest args after : List Token}

theorem of_token (hform : Form.of e raw ≠ .call) :
    of ctx levels e (raw :: rest) = token raw (of ctx levels e rest) := by
  rw [of, if_neg hform]

theorem of_unclosed (hform : Form.of e raw = .call) (hcall : callAt? raw rest = none) :
    of ctx levels e (raw :: rest) = unclosed raw rest := by
  rw [of, if_pos hform]
  split
  · rfl
  · rename_i h
    rw [hcall] at h
    cases h

theorem of_closed (hform : Form.of e raw = .call)
    (hcall : callAt? raw rest = some (args, after)) :
    of ctx levels e (raw :: rest) =
      match levels with
      | 0 => dropped raw true args (of ctx 0 e after)
      | below + 1 =>
        match ctx.schema.function? e (withoutVendor (lower raw).dropLast) with
        | none => dropped raw false args (of ctx (below + 1) e after)
        | some f => call raw f (of ctx below f args) (of ctx (below + 1) e after) := by
  rw [of, if_pos hform]
  split
  · rename_i h
    rw [hcall] at h
    cases h
  · rename_i h
    rw [hcall] at h
    cases h
    rfl

end Equations

/-- What is kept of a tree. -/
def keep (ctx : ValueContext) (property : Text) (e : Entry) : ValueTree → Traced Draft
  | nil => pure .empty
  | token raw rest => do
    let draft ← CssGuard.keep ctx property e raw
    let more ← rest.keep ctx property e
    pure (draft.append more)
  | call opener f arguments rest => do
    let inner ← arguments.keep ctx property f
    let more ← rest.keep ctx property e
    pure ((inner.finish.inCall (lower opener)).append more)
  | dropped opener tooDeep _ rest => do
    let draft ← Traced.reporting (if tooDeep then
      .callsTooDeep (lower opener) maxCallDepth
      else .disallowedCall (lower opener) property) Draft.empty
    let more ← rest.keep ctx property e
    pure (draft.append more)
  | unclosed opener _ => Traced.reporting (.unterminatedCall (lower opener)) .empty

end ValueTree

/-! ## Single tokens -/

theorem value_keep (ctx : ValueContext) (property : Text) (e : Entry) (raw : Token) :
    (keep ctx property e raw).value =
      (keepForm ctx property e raw (Form.of e raw)).value := by
  unfold keep
  split
  · rename_i hform
    rw [hform]
    rfl
  · rw [Traced.value_bind]
    split <;> rfl

/-- A token of which nothing is kept is reported, spaces aside. -/
theorem trace_keep (ctx : ValueContext) (property : Text) (e : Entry) (raw : Token) :
    (keep ctx property e raw).trace =
      (keepForm ctx property e raw (Form.of e raw)).trace ++
      if Form.of e raw ≠ .blank ∧
      (keepForm ctx property e raw (Form.of e raw)).value.pieces = [] then
        [.issue (.disallowedValue raw property)]
      else [] := by
  unfold keep
  split
  · rename_i hform
    rw [hform]
    rfl
  · rename_i hform
    rw [Traced.trace_bind]
    congr 1
    split
    · rename_i hpieces
      rw [if_pos ⟨hform, List.isEmpty_iff.mp hpieces⟩]
      rfl
    · rename_i hpieces
      rw [if_neg fun h => hpieces (List.isEmpty_iff.mpr h.2)]
      rfl

/-! ## The sanitizer -/

/-- How the arguments of calls are sanitized. -/
def argumentsAt (ctx : ValueContext) (property : Text) : Nat → Option SanitizeArguments
  | 0 => none
  | levels + 1 => some (sanitizeAt ctx property levels)

section Sanitizer

variable {ctx : ValueContext} {property : Text} {e : Entry}

theorem sanitizeAt_def (ctx : ValueContext) (property : Text) (levels : Nat) (e : Entry)
    (ts : List Token) :
    sanitizeAt ctx property levels e ts = (do
      let draft ← sanitizeFrom ctx property e (argumentsAt ctx property levels)
        (callEnds ts) 0 0 ts
      pure draft.finish) := by
  cases levels <;> rfl

theorem sanitizeFrom_skip (inner : Option SanitizeArguments) (ends : List (Nat × Nat))
    (ts us : List Token) (place : Nat) :
    sanitizeFrom ctx property e inner ends place ts.length (ts ++ us) =
      sanitizeFrom ctx property e inner ends (place + ts.length) 0 us := by
  induction ts generalizing place with
  | nil => rfl
  | cons t ts ih =>
    rw [List.length_cons, List.cons_append, sanitizeFrom, ih, Nat.add_right_comm,
      Nat.add_assoc]

/-- A call that is closed is sanitized with its arguments, and
what follows it after it. -/
theorem sanitizeFrom_call {inner : Option SanitizeArguments} {ends : List (Nat × Nat)}
    {place : Nat} {raw : Token} {args : List Token} (after : List Token)
    (hform : Form.of e raw = .call)
    (hlookup : ends.lookup place = some (place + 1 + args.length)) :
    sanitizeFrom ctx property e inner ends place 0
      (raw :: (args ++ Token.closeParen :: after)) = (do
        let draft ← keepCall ctx property e inner (lower raw) args
        let more ← sanitizeFrom ctx property e inner ends
          (place + (args.length + 2)) 0 after
        pure (draft.append more)) := by
  have htake : (args ++ Token.closeParen :: after).take (place + 1 + args.length - place -
      1) = args := by
    rw [show place + 1 + args.length - place - 1 = args.length by omega, List.take_left]
  -- the arguments are skipped, and the parenthesis after them
  have hskip : sanitizeFrom ctx property e inner ends (place + 1)
      (args ++ [Token.closeParen]).length (args ++ [Token.closeParen] ++ after) = _ :=
    sanitizeFrom_skip inner ends _ after (place + 1)
  rw [List.length_append, List.length_singleton, List.append_assoc,
    List.singleton_append] at hskip
  rw [sanitizeFrom, if_pos hform, hlookup]
  simp only [htake]
  rw [show place + 1 + args.length - place = args.length + 1 by omega, hskip,
    show place + 1 + (args.length + 1) = place + (args.length + 2) by omega]

theorem keepCall_eq {f : Entry} {opener : Token}
    (hf : ctx.schema.function? e (withoutVendor opener.dropLast) = some f)
    (inner : SanitizeArguments) (args : List Token) :
    keepCall ctx property e (some inner) opener args =
      (do
        let kept ← inner f args
        pure (kept.inCall opener)) := by
  rw [keepCall]
  simp only [hf]
  congr 1
  funext kept
  unfold Kept.inCall
  split
  · rfl
  split
  · rfl
  · rfl

/-- The places of a value are found by the pass over it, so a call that is closed is
sanitized with its arguments wherever it stands. -/
theorem sanitizeFrom_callAt {inner : Option SanitizeArguments} (before : List Token)
    {raw : Token} {rest args after : List Token} (hform : Form.of e raw = .call)
    (hcall : callAt? raw rest = some (args, after)) :
    sanitizeFrom ctx property e inner (callEnds (before ++ raw :: rest)) before.length 0
      (raw :: rest) = (do
        let draft ← keepCall ctx property e inner (lower raw) args
        let more ← sanitizeFrom ctx property e inner
          (callEnds ((before ++ raw :: (args ++ [Token.closeParen])) ++ after))
          (before ++ raw :: (args ++ [Token.closeParen])).length 0 after
        pure (draft.append more)) := by
  have hlookup := lookup_callEnds before raw rest
  rw [hcall] at hlookup
  obtain rfl := append_of_callAt? hcall
  rw [sanitizeFrom_call after hform hlookup]
  simp

/-- From any place on, tokens are sanitized as their tree. -/
theorem sanitizeFrom_eq (ctx : ValueContext) (property : Text) (levels : Nat) (e : Entry)
    (ts : List Token) : ∀ before : List Token,
      sanitizeFrom ctx property e (argumentsAt ctx property levels)
        (callEnds (before ++ ts)) before.length 0 ts =
          (ValueTree.of ctx levels e ts).keep ctx property e := by
  -- the matches are those of the whole value, so the tokens before stay in the statement
  fun_induction ValueTree.of ctx levels e ts with
  | case1 => exact fun _ => rfl
  | case2 levels e raw rest hform hcall =>
    intro before
    have hlookup := lookup_callEnds before raw rest
    rw [hcall, Option.map_none] at hlookup
    rw [sanitizeFrom, if_pos hform, hlookup]
    rfl
  | case3 e raw rest hform args after hcall ih =>
    intro before
    rw [sanitizeFrom_callAt before hform hcall, ih, argumentsAt, keepCall]
    rfl
  | case4 e raw rest hform args after hcall below hf ih =>
    intro before
    rw [sanitizeFrom_callAt before hform hcall, ih, argumentsAt, keepCall]
    simp only [hf]
    rfl
  | case5 e raw rest hform args after hcall below f hf ihargs ih =>
    intro before
    rw [sanitizeFrom_callAt before hform hcall, ih, argumentsAt, keepCall_eq hf,
      sanitizeAt_def]
    -- arguments are a value of their own, with matches of their own
    have hargs := ihargs []
    rw [List.nil_append, List.length_nil] at hargs
    rw [hargs, ValueTree.keep]
    simp only [bind_assoc, pure_bind]
  | case6 levels e raw rest hform ih =>
    intro before
    have hmore := ih (before ++ [raw])
    rw [List.append_assoc, List.singleton_append, List.length_append,
      List.length_singleton] at hmore
    rw [sanitizeFrom, if_neg hform, hmore]
    rfl

/-- Tokens under an entry are sanitized as their tree. -/
theorem sanitizeAt_eq (ctx : ValueContext) (property : Text) (levels : Nat) (e : Entry)
    (ts : List Token) :
    sanitizeAt ctx property levels e ts =
      Draft.finish <$> (ValueTree.of ctx levels e ts).keep ctx property e := by
  rw [sanitizeAt_def, ← sanitizeFrom_eq ctx property levels e ts [], map_eq_pure_bind]
  rfl

/-- The value of a property is sanitized as its tree under the entry of the property. -/
theorem sanitizeProperty_eq {ctx : ValueContext} {name : Text} {e : Entry}
    (hfind : ctx.schema.find? (lower name) = some e) (value : List Token) :
    sanitizeProperty ctx name value =
      (fun draft : Draft => if draft.refused then [] else coalesce none draft.pieces) <$>
        (ValueTree.of ctx maxCallDepth e value).keep ctx (lower name) e := by
  rw [sanitizeProperty]
  simp only [hfind, sanitizeAt_eq]
  rw [map_eq_pure_bind, map_eq_pure_bind, bind_assoc]
  rfl

end Sanitizer

end CssGuard
