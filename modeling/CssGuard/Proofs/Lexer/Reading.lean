import CssGuard.Token

/-!
# Reading pieces of text

A text is read piece by piece: which tokens a piece gives does not depend on what follows
it, as long as the next character is one that cannot extend it. Pieces that are read in
this way can be put together.

- `tokensFrom`, `IsSound`: the tokens of a text, and that nothing in it is reported
- `Reads`: a piece gives certain tokens in front of the characters that may follow it
- `Reads.append`: pieces put together
- `reads_of_first?`: a piece that is one lexeme
- `squeeze`: tokens in which runs of spaces are made one
- `lex_of_reads`: a whole text
- `Lexes`: a piece that ends with a mark, so that no space goes over its end
-/

namespace CssGuard

open Text

/-- The tokens of a text, runs of spaces made one. -/
def tokensFrom (t : Text) : List Token :=
  ((lexemes t).filterMap Lexeme.token?).foldr consCollapsed []

/-- Nothing in the text is reported, wherever it stands. -/
def IsSound (t : Text) : Prop :=
  ∀ l ∈ lexemes t, ∀ p, l.issue? p = none

/-- The character is kept as it is when a text is cleaned. -/
def isClean (c : Char) : Bool :=
  c ≠ '\r' && c ≠ '\x0c' && c ≠ '\x00'

/-- The text may begin with what the class admits, or be at its end. -/
def Starts (follow : Char → Bool) (t : Text) : Prop :=
  ∀ c ∈ t.head?, follow c

/-- The piece `t` gives the tokens `ts`, whatever follows it within the class `follow`. -/
structure Reads (follow : Char → Bool) (t : Text) (ts : List Token) : Prop where
  tokens : ∀ rest, Starts follow rest →
    tokensFrom (t ++ rest) = ts.foldr consCollapsed (tokensFrom rest)
  sound : ∀ rest, Starts follow rest → (IsSound (t ++ rest) ↔ IsSound rest)
  clean : ∀ c ∈ t, isClean c

/-- Every character may follow. -/
def anything : Char → Bool :=
  fun _ => true

theorem starts_anything (t : Text) : Starts anything t :=
  fun _ _ => rfl

theorem starts_nil (follow : Char → Bool) : Starts follow [] := by
  rintro c ⟨⟩

theorem starts_cons {follow : Char → Bool} {c : Char} {t : Text} :
    Starts follow (c :: t) ↔ follow c := by
  constructor
  · intro h
    exact h c rfl
  · rintro h c ⟨⟩
    exact h

theorem Starts.mono {p q : Char → Bool} {t : Text} (h : Starts p t)
    (hpq : ∀ c, p c → q c) : Starts q t :=
  fun c hc => hpq c (h c hc)

/-! ## Lexeme by lexeme -/

theorem tokensFrom_nil : tokensFrom [] = [] := by
  rw [tokensFrom, lexemes_of_first?_none rfl]
  rfl

theorem isSound_nil : IsSound [] := by
  intro l hl
  rw [lexemes_of_first?_none rfl] at hl
  cases hl

theorem tokensFrom_of_first? {t rest : Text} {l : Lexeme}
    (h : Lexeme.first? t = some (l, rest)) :
    tokensFrom t = l.token?.toList.foldr consCollapsed (tokensFrom rest) := by
  rw [tokensFrom, lexemes_of_first? h, List.filterMap_cons]
  cases l.token? with
  | none => rfl
  | some tok => rfl

theorem isSound_iff_of_first? {t rest : Text} {l : Lexeme}
    (h : Lexeme.first? t = some (l, rest)) (hl : ∀ p, l.issue? p = none) :
    IsSound t ↔ IsSound rest := by
  rw [IsSound, lexemes_of_first? h, List.forall_mem_cons]
  exact and_iff_right hl

/-! ## Pieces -/

theorem reads_nil (follow : Char → Bool) : Reads follow [] [] where
  tokens _ _ := rfl
  sound _ _ := Iff.rfl
  clean _ h := by cases h

/-- One piece after another. -/
theorem Reads.append {p q : Char → Bool} {t u : Text} {ts us : List Token}
    (ht : Reads p t ts) (hu : Reads q u us)
    (hstart : ∀ rest, Starts q rest → Starts p (u ++ rest)) :
    Reads q (t ++ u) (ts ++ us) where
  tokens rest hrest := by
    rw [List.append_assoc, ht.tokens _ (hstart rest hrest), hu.tokens _ hrest,
      List.foldr_append]
  sound rest hrest := by
    rw [List.append_assoc, ht.sound _ (hstart rest hrest), hu.sound _ hrest]
  clean c hc := (List.mem_append.mp hc).elim (ht.clean c) (hu.clean c)

theorem Reads.mono {p q : Char → Bool} {t : Text} {ts : List Token} (h : Reads p t ts)
    (hqp : ∀ c, q c → p c) : Reads q t ts where
  tokens rest hrest := h.tokens rest (hrest.mono hqp)
  sound rest hrest := h.sound rest (hrest.mono hqp)
  clean := h.clean

/-- A piece that may be followed by anything, and one after it. -/
theorem Reads.append_of_anything {q : Char → Bool} {t u : Text} {ts us : List Token}
    (ht : Reads anything t ts) (hu : Reads q u us) : Reads q (t ++ u) (ts ++ us) :=
  ht.append hu fun _ _ => starts_anything _

/-- A piece, and one after it that begins with a character that may follow. -/
theorem Reads.append_cons {p q : Char → Bool} {c : Char} {t u : Text} {ts us : List Token}
    (ht : Reads p t ts) (hu : Reads q (c :: u) us) (hc : p c) :
    Reads q (t ++ c :: u) (ts ++ us) :=
  ht.append hu fun _ _ => starts_cons.mpr hc

/-- A piece that is one lexeme. -/
theorem reads_of_first? {follow : Char → Bool} {t : Text} {l : Lexeme} {tok : Token}
    (hfirst : ∀ rest, Starts follow rest → Lexeme.first? (t ++ rest) = some (l, rest))
    (htoken : l.token? = some tok) (hissue : ∀ p, l.issue? p = none)
    (hclean : ∀ c ∈ t, isClean c) : Reads follow t [tok] where
  tokens rest hrest := by
    rw [tokensFrom_of_first? (hfirst rest hrest), htoken]
    rfl
  sound rest hrest := isSound_iff_of_first? (hfirst rest hrest) hissue
  clean := hclean

/-! ## Spaces -/

/-- A second space in a row changes nothing. -/
theorem consCollapsed_space_space (ts : List Token) :
    consCollapsed Token.space (consCollapsed Token.space ts) =
      consCollapsed Token.space ts := by
  by_cases h : ts = [] ∨ ts.head? = some Token.space
  · have hcons : consCollapsed Token.space ts = ts := if_pos ⟨rfl, h⟩
    rw [hcons, hcons]
  · have hcons : consCollapsed Token.space ts = Token.space :: ts :=
      if_neg fun hc => h hc.2
    rw [hcons]
    exact if_pos ⟨rfl, .inr rfl⟩

theorem first?_space {c : Char} {t : Text} (hc : isSpace c) :
    Lexeme.first? (c :: t) = some (⟨.blank, c :: t.takeWhile isSpace⟩,
      t.dropWhile isSpace) := by
  rw [Lexeme.first?, Lexeme.space?, List.takeWhile_cons, List.dropWhile_cons,
    if_pos hc, if_pos hc]
  rfl

/-- White space in front of a text gives one space. -/
theorem tokensFrom_space {c : Char} (hc : isSpace c) (t : Text) :
    tokensFrom (c :: t) = consCollapsed Token.space (tokensFrom t) := by
  rw [tokensFrom_of_first? (first?_space hc)]
  show consCollapsed Token.space (tokensFrom (t.dropWhile isSpace)) = _
  cases t with
  | nil => rfl
  | cons d t =>
    by_cases hd : isSpace d
    · rw [tokensFrom_of_first? (first?_space hd), List.dropWhile_cons, if_pos hd]
      exact (consCollapsed_space_space _).symm
    · rw [List.dropWhile_cons, if_neg hd]

theorem isSound_space {c : Char} (hc : isSpace c) (t : Text) :
    IsSound (c :: t) ↔ IsSound t := by
  rw [isSound_iff_of_first? (first?_space hc) fun _ => rfl]
  cases t with
  | nil => rfl
  | cons d t =>
    by_cases hd : isSpace d
    · rw [List.dropWhile_cons, if_pos hd, isSound_iff_of_first? (first?_space hd)
        fun _ => rfl]
    · rw [List.dropWhile_cons, if_neg hd]

theorem reads_space {c : Char} (hc : isSpace c) (hclean : isClean c) :
    Reads anything [c] [Token.space] where
  tokens rest _ := tokensFrom_space hc rest
  sound rest _ := isSound_space hc rest
  clean _ h := List.mem_singleton.mp h ▸ hclean

/-- Tokens in which runs of spaces are made one. -/
def squeeze : List Token → List Token
  | [] => []
  | t :: rest =>
    if t = Token.space ∧ (squeeze rest).head? = some Token.space then squeeze rest
    else t :: squeeze rest

theorem squeeze_singleton (t : Token) : squeeze [t] = [t] :=
  if_neg fun h => absurd h.2 (by decide)

/-- In front of a token that is no space, only runs of spaces are collapsed. -/
theorem foldr_consCollapsed_cons {x : Token} (hx : x ≠ Token.space) (xs ts : List Token) :
    ts.foldr consCollapsed (x :: xs) = squeeze ts ++ x :: xs := by
  induction ts with
  | nil => rfl
  | cons t ts ih =>
    rw [List.foldr_cons, ih, consCollapsed, squeeze]
    have hiff : (squeeze ts ++ x :: xs = [] ∨
        (squeeze ts ++ x :: xs).head? = some Token.space) ↔
        (squeeze ts).head? = some Token.space := by
      cases squeeze ts with
      | nil => simp [hx]
      | cons y ys => simp
    simp only [hiff]
    split
    · rfl
    · rfl

theorem consCollapsed_of_ne {x : Token} (hx : x ≠ Token.space) (ts : List Token) :
    consCollapsed x ts = x :: ts :=
  if_neg fun h => hx h.1

theorem mem_squeeze {t : Token} {ts : List Token} (h : t ∈ squeeze ts) : t ∈ ts := by
  induction ts with
  | nil => exact h
  | cons x ts ih =>
    rw [squeeze] at h
    split at h
    · exact List.mem_cons_of_mem _ (ih h)
    · rcases List.mem_cons.mp h with rfl | h
      · exact List.mem_cons_self ..
      · exact List.mem_cons_of_mem _ (ih h)

/-- Only spaces are left out. -/
theorem filter_squeeze (ts : List Token) :
    (squeeze ts).filter (· ≠ Token.space) = ts.filter (· ≠ Token.space) := by
  induction ts with
  | nil => rfl
  | cons t ts ih =>
    rw [squeeze]
    split
    · rename_i h
      rw [ih, h.1]
      rfl
    · rw [List.filter_cons, List.filter_cons, ih]

/-! ## Whole texts -/

theorem clean_eq_self {t : Text} (h : ∀ c ∈ t, isClean c) : clean t = t := by
  have key : ∀ (t done : Text), (∀ c ∈ t, isClean c) →
      t.foldl (fun (afterReturn, done) c =>
        if afterReturn ∧ c = '\n' then (false, done) else (c = '\r', cleanChar c :: done))
        (false, done) = (false, t.reverse ++ done) := by
    intro t
    induction t with
    | nil => intro done _; rfl
    | cons c t ih =>
      intro done h
      have hc : isClean c := h c (List.mem_cons_self ..)
      simp only [isClean, Bool.and_eq_true, ne_eq, decide_not, Bool.not_eq_true',
        decide_eq_false_iff_not] at hc
      have hchar : cleanChar c = c := by
        rw [cleanChar, if_neg (by rintro (h | h) <;> simp_all), if_neg hc.2]
      rw [List.foldl_cons]
      simp only [Bool.false_eq_true, false_and, if_false, hchar, hc.1.1, decide_false]
      rw [ih _ fun c hc => h c (List.mem_cons_of_mem _ hc), List.reverse_cons,
        List.append_assoc]
      rfl
  rw [clean, key t [] h, List.append_nil, List.reverse_reverse]

/-- Whether there is something to report about a lexeme does not depend on its place. -/
theorem issue?_eq_none_iff (l : Lexeme) (p q : Position) :
    l.issue? p = none ↔ l.issue? q = none := by
  unfold Lexeme.issue?
  cases l.kind with
  | number digits unit =>
    dsimp only
    split
    · exact Iff.rfl
    · simp
  | delimiter c =>
    dsimp only
    split
    · exact Iff.rfl
    · simp
  | _ => simp

/-- Nothing in lexemes is reported exactly if there is nothing to
report about any of them. -/
theorem lexemeIssues_eq_nil_iff {ls : List Lexeme} :
    lexemeIssues ls = [] ↔ ∀ l ∈ ls, ∀ p, l.issue? p = none := by
  have key : ∀ (ls : List Lexeme) (p : Position) (found : List Issue),
      (ls.foldl lexemeIssues.step (p, found)).2 = [] ↔
        found = [] ∧ ∀ l ∈ ls, ∀ p, l.issue? p = none := by
    intro ls
    induction ls with
    | nil => simp
    | cons l ls ih =>
      intro p found
      have hl : l.issue? p = none ↔ ∀ q, l.issue? q = none :=
        ⟨fun h q => (issue?_eq_none_iff l p q).mp h, fun h => h p⟩
      rw [List.foldl_cons, lexemeIssues.step, ih, List.append_eq_nil_iff,
        Option.toList_eq_nil_iff, hl, List.forall_mem_cons]
      constructor
      · exact fun h => ⟨h.1.2, h.1.1, h.2⟩
      · exact fun h => ⟨⟨h.2.1, h.1⟩, h.2.2⟩
  rw [lexemeIssues, List.reverse_eq_nil_iff, key]
  exact and_iff_right rfl

/-- A clean text is read without a report exactly if it is sound. -/
theorem trace_lex_eq_nil_iff {t : Text} (h : ∀ c ∈ t, isClean c) :
    (lex t).trace = [] ↔ IsSound t := by
  rw [lex, clean_eq_self h]
  exact List.map_eq_nil_iff.trans lexemeIssues_eq_nil_iff

/-- The tokens of a whole text that can be read in pieces; nothing in it is reported. -/
theorem lex_of_reads {follow : Char → Bool} {t : Text} {ts : List Token}
    (h : Reads follow t ts) :
    lex t = ⟨(ts.foldr consCollapsed []).dropWhile (· = Token.space), []⟩ := by
  have htokens := h.tokens [] (starts_nil _)
  have hsound := (h.sound [] (starts_nil _)).mpr isSound_nil
  rw [List.append_nil] at htokens hsound
  rw [tokensFrom_nil] at htokens
  rw [lex, clean_eq_self h.clean]
  simp only [lexemeIssues_eq_nil_iff.mpr hsound, List.map_nil, Traced.mk.injEq, and_true]
  rw [← htokens]
  rfl

/-! ## Pieces that end with a mark -/

/-- The text gives exactly the tokens `ts`, whatever follows it. -/
def Lexes (t : Text) (ts : List Token) : Prop :=
  ∃ raw, Reads anything t raw ∧ ∀ rest, raw.foldr consCollapsed rest = ts ++ rest

theorem lexes_nil : Lexes [] [] :=
  ⟨[], reads_nil _, fun _ => rfl⟩

theorem Lexes.append {t u : Text} {ts us : List Token} (ht : Lexes t ts)
    (hu : Lexes u us) : Lexes (t ++ u) (ts ++ us) := by
  obtain ⟨raw, hreads, hcollapse⟩ := ht
  obtain ⟨raw', hreads', hcollapse'⟩ := hu
  refine ⟨raw ++ raw', hreads.append_of_anything hreads', fun rest => ?_⟩
  rw [List.foldr_append, hcollapse', hcollapse, List.append_assoc]

theorem lexes_flatMap {α : Type} {xs : List α} {text : α → Text} {tokens : α → List Token}
    (h : ∀ x ∈ xs, Lexes (text x) (tokens x)) :
    Lexes (xs.flatMap text) (xs.flatMap tokens) := by
  induction xs with
  | nil => exact lexes_nil
  | cons x xs ih =>
    rw [List.flatMap_cons, List.flatMap_cons]
    exact (h x (List.mem_cons_self ..)).append (ih
      fun y hy => h y (List.mem_cons_of_mem _ hy))

/-- A piece and the mark after it. -/
theorem Reads.lexes {follow : Char → Bool} {c : Char} {t : Text} {x : Token}
    {ts : List Token} (ht : Reads follow t ts) (hc : follow c)
    (hx : Reads anything [c] [x]) (hspace : x ≠ Token.space) :
    Lexes (t ++ [c]) (squeeze ts ++ [x]) := by
  refine ⟨ts ++ [x], ht.append_cons hx hc, fun rest => ?_⟩
  rw [List.foldr_append, List.foldr_cons, List.foldr_nil, consCollapsed_of_ne hspace,
    foldr_consCollapsed_cons hspace, List.append_assoc]
  rfl

theorem lexes_of_reads {c : Char} {x : Token} (hx : Reads anything [c] [x])
    (hspace : x ≠ Token.space) : Lexes [c] [x] :=
  (reads_nil anything).lexes rfl hx hspace

/-- The tokens of a whole text; nothing in it is reported. -/
theorem Lexes.lex_eq {t : Text} {ts : List Token} (h : Lexes t ts) :
    lex t = ⟨ts.dropWhile (· = Token.space), []⟩ := by
  obtain ⟨raw, hreads, hcollapse⟩ := h
  rw [lex_of_reads hreads, hcollapse, List.append_nil]

end CssGuard
