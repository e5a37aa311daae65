import CssGuard.Proofs.Url.Authority
import Mathlib.Data.List.DropRight

/-!
# What a rule checks and what is written

A rule looks at a URL without the blanks around it, and at its host without the tabs and
line breaks in it. What is written is the whole URL, with its special characters escaped,
the blanks of ASCII among them. The rule accepts that, too, with two exceptions: an
escaped blank in front makes any URL a relative one, and an escape in the host makes it
another host.

- `bare`: the part of a URL that a rule looks at once it is escaped
- `startsEscaped`, `namesPlace`, `keepsPlace`: what the exceptions are about
- `hostOf?_escape_iff`: when a URL has the same host once it is escaped
- `accepts_iff`: a rule looks at the form of a URL, and at the
  host in the forms that name one
- `accepts_written_iff`: when a rule accepts what is written for a URL it has accepted
-/

namespace CssGuard.Url

open Text
open scoped Text.ByCharacter

/-! ## Blanks -/

/-- A blank that is not escaped, since it is outside of ASCII. -/
def isKeptBlank (c : Char) : Bool :=
  isBlank c && !isSpecial c

/-- A URL without the blanks around it, up to those that are escaped. -/
def bare (uri : Text) : Text :=
  (uri.dropWhile isKeptBlank).rdropWhile isKeptBlank

/-- A blank in front of the URL is escaped. -/
def startsEscaped (uri : Text) : Bool :=
  (uri.dropWhile isKeptBlank).head?.any isBlank

theorem isBlank_of_isKeptBlank {c : Char} (h : isKeptBlank c) : isBlank c :=
  (Bool.and_eq_true_iff.mp h).1

theorem isKeptBlank_eq {c : Char} (h : ¬ isSpecial c) : isKeptBlank c = isBlank c := by
  simp [isKeptBlank, h]

theorem not_isKeptBlank {c : Char} (h : isSpecial c) : ¬ isKeptBlank c := by
  simp [isKeptBlank, h]

theorem isSpecial_of_isBlank {c : Char} (hblank : isBlank c) (hkept : ¬ isKeptBlank c) :
    isSpecial c :=
  by_contra fun hplain => hkept ((isKeptBlank_eq hplain).trans hblank)

theorem escape_cons (c : Char) (t : Text) :
    escape (c :: t) = (if isSpecial c then percentEscape c else [c]) ++ escape t :=
  List.flatMap_cons

theorem escape_append (t u : Text) : escape (t ++ u) = escape t ++ escape u :=
  List.flatMap_append

theorem dropWhile_escape (t : Text) :
    (escape t).dropWhile isBlank = escape (t.dropWhile isKeptBlank) := by
  induction t with
  | nil => rfl
  | cons c t ih =>
    rw [escape_cons, List.dropWhile_cons]
    by_cases hc : isSpecial c
    · rw [if_pos hc, if_neg (not_isKeptBlank hc), percentEscape, List.cons_append,
        List.dropWhile_cons, if_neg (by decide), ← List.cons_append, ← percentEscape,
        escape_cons, if_pos hc]
    · rw [if_neg hc, isKeptBlank_eq hc, List.singleton_append, List.dropWhile_cons]
      split
      · exact ih
      · rw [escape_cons, if_neg hc, List.singleton_append]

theorem rdropWhile_escape (t : Text) :
    (escape t).rdropWhile isBlank = escape (t.rdropWhile isKeptBlank) := by
  induction t using List.reverseRecOn with
  | nil => rfl
  | append_singleton t c ih =>
    rw [escape_append, escape_cons, List.rdropWhile_concat]
    by_cases hc : isSpecial c
    · -- the last character of an escape is a digit
      have hne : percentEscape c ≠ [] := List.cons_ne_nil _ _
      have hlast : ¬ isBlank ((percentEscape c).getLast hne) :=
        (of_mem_percentEscape hc (List.getLast_mem hne)).2.1
      have hconcat : escape t ++ (percentEscape c ++ escape []) =
          (escape t ++ (percentEscape c).dropLast) ++
            [(percentEscape c).getLast hne] := by
        rw [List.append_assoc, List.dropLast_append_getLast hne]
        exact congrArg (escape t ++ ·) (List.append_nil _)
      rw [if_pos hc, if_neg (not_isKeptBlank hc), hconcat,
        List.rdropWhile_concat_neg _ _ _ hlast, ← hconcat, escape_append,
        escape_cons, if_pos hc]
    · have hconcat : escape t ++ ([c] ++ escape []) = escape t ++ [c] := by simp [escape]
      rw [if_neg hc, isKeptBlank_eq hc, hconcat, List.rdropWhile_concat]
      split
      · exact ih
      · rw [escape_append, escape_cons, if_neg hc, hconcat]

/-- What a rule looks at once a URL is escaped. -/
theorem strip_escape (uri : Text) : strip (escape uri) = escape (bare uri) := by
  show ((escape uri).dropWhile isBlank).rdropWhile isBlank = _
  rw [dropWhile_escape, rdropWhile_escape]
  rfl

/-- An escaped blank in front is what a rule sees first. -/
theorem strip_escape_of_startsEscaped {uri : Text} (h : startsEscaped uri) :
    ∃ rest, strip (escape uri) = '%' :: rest := by
  rw [startsEscaped] at h
  have hhead := List.head?_dropWhile_not isKeptBlank uri
  cases hfront : uri.dropWhile isKeptBlank with
  | nil =>
    rw [hfront] at h
    cases h
  | cons c v =>
    rw [hfront] at h hhead
    have hkept : ¬ isKeptBlank c := by simpa using hhead
    have hspecial : isSpecial c := isSpecial_of_isBlank (by simpa using h) hkept
    have hbare : bare uri = (c :: v).rdropWhile isKeptBlank := by rw [bare, hfront]
    have hne : bare uri ≠ [] := fun hnil =>
      hkept (List.rdropWhile_eq_nil_iff.mp (hbare.symm.trans hnil) c
        (List.mem_cons_self ..))
    obtain ⟨d, rest, hcons⟩ := List.exists_cons_of_ne_nil hne
    have hprefix : d :: rest <+: c :: v := by
      rw [← hcons, hbare]
      exact List.rdropWhile_prefix _ _
    obtain ⟨rfl, -⟩ := List.cons_prefix_cons.mp hprefix
    rw [strip_escape, hcons, escape_cons, if_pos hspecial]
    exact ⟨_, rfl⟩

/-- Without an escaped blank in front, the blanks in front are
the same before and after. -/
theorem dropWhile_isBlank_eq {uri : Text} (h : ¬ startsEscaped uri) :
    uri.dropWhile isBlank = uri.dropWhile isKeptBlank := by
  have hsplit : uri.dropWhile isBlank =
      (uri.dropWhile isKeptBlank).dropWhile isBlank := by
    conv_lhs => rw [← List.takeWhile_append_dropWhile (p := isKeptBlank) (l := uri)]
    exact List.dropWhile_append_of_pos fun c hc =>
      isBlank_of_isKeptBlank (List.mem_takeWhile_imp hc)
  rw [hsplit]
  rw [startsEscaped] at h
  cases hfront : uri.dropWhile isKeptBlank with
  | nil => rfl
  | cons c v =>
    rw [hfront] at h
    exact List.dropWhile_cons_of_neg (by simpa using h)

/-- Without an escaped blank in front, a rule looks at the same text before and after,
except for blanks behind it, the last of which is escaped. -/
theorem exists_bare_eq {uri : Text} (h : ¬ startsEscaped uri) :
    ∃ back, bare uri = strip uri ++ back ∧ (∀ c ∈ back, isBlank c) ∧
      ∀ c ∈ back.getLast?, isSpecial c := by
  have hstrip : strip uri = (bare uri).rdropWhile isBlank := by
    show (uri.dropWhile isBlank).rdropWhile isBlank = _
    rw [dropWhile_isBlank_eq h, bare]
    generalize uri.dropWhile isKeptBlank = v
    conv_lhs => rw [← v.rdropWhile_append_rtakeWhile (p := isKeptBlank)]
    rw [List.rdropWhile, List.reverse_append, List.dropWhile_append_of_pos,
      ← List.rdropWhile]
    exact fun c hc =>
      isBlank_of_isKeptBlank (List.mem_rtakeWhile_imp (List.mem_reverse.mp hc))
  have happend : bare uri = strip uri ++ (bare uri).rtakeWhile isBlank := by
    rw [hstrip, List.rdropWhile_append_rtakeWhile]
  refine ⟨(bare uri).rtakeWhile isBlank, happend,
    fun c hc => List.mem_rtakeWhile_imp hc, ?_⟩
  intro c hc
  have hblank : isBlank c := List.mem_rtakeWhile_imp (List.mem_of_mem_getLast? hc)
  -- it is the last character of what is left when the blanks that are kept are gone
  have hlast : c ∈ (bare uri).getLast? := by
    rw [happend]
    exact List.mem_getLast?_append_of_mem_getLast? hc
  obtain ⟨hne, rfl⟩ := List.mem_getLast?_eq_getLast hlast
  exact isSpecial_of_isBlank hblank (List.rdropWhile_last_not _ _ hne)

/-! ## Forms -/

/-- A character that shows what form a URL has. -/
def isFormChar (c : Char) : Bool :=
  c ∈ marks || isSchemeChar c

theorem ascii_of_isFormChar {c : Char} (h : isFormChar c) : c.toNat < 0x80 := by
  simp only [isFormChar, isSchemeChar, Bool.or_eq_true, decide_eq_true_eq] at h
  rcases h with hmark | (((hletter | hdigit) | rfl) | rfl) | rfl
  · exact (by decide : ∀ c ∈ marks, c.toNat < 0x80) c hmark
  · exact ascii_of_isPlainNameChar (isPlainNameChar_of_isLetter hletter)
  · exact ascii_of_isPlainNameChar (by simp [isPlainNameChar, hdigit])
  all_goals decide

theorem plain_of_isFormChar {c : Char} (h : isFormChar c) : ¬ isSpecial c ∧ ¬ isBlank c :=
  forall_ascii (fun c => isFormChar c → ¬ isSpecial c ∧ ¬ isBlank c) (by decide)
    (ascii_of_isFormChar h) h

/-- Escaping keeps the characters in front that show the form, and adds none. -/
theorem prefix_escape_iff {m t : Text} (hm : ∀ c ∈ m, isFormChar c) :
    m <+: escape t ↔ m <+: t := by
  constructor
  · rintro ⟨rest, heq⟩
    have hne : ∀ c ∈ m, c ≠ '%' := by
      rintro c hc rfl
      exact absurd (hm _ hc) (by decide)
    obtain ⟨rest', rfl, -⟩ := exists_of_escape_eq_append hne heq.symm
    exact List.prefix_append _ _
  · rintro ⟨rest, rfl⟩
    rw [escape_append, escape_eq_self fun c hc => (plain_of_isFormChar (hm c hc)).1]
    exact List.prefix_append _ _

theorem prefix_append_iff {m t b : Text} (hm : ∀ c ∈ m, isFormChar c)
    (hb : ∀ c ∈ b, isBlank c) : m <+: t ++ b ↔ m <+: t := by
  refine ⟨?_, fun h => h.trans (List.prefix_append _ _)⟩
  rintro ⟨rest, heq⟩
  rcases List.append_eq_append_iff.mp heq with ⟨more, rfl, -⟩ | ⟨more, rfl, hblank⟩
  · exact List.prefix_append _ _
  · cases more with
    | nil => simp
    | cons c more =>
      have hc : c ∈ b := hblank ▸ List.mem_cons_self ..
      have hform := hm c (List.mem_append_right _ (List.mem_cons_self ..))
      exact absurd (hb c hc) (plain_of_isFormChar hform).2

theorem isFormChar_of_scheme {c : Char} {front : Text} (hc : isLetter c)
    (hfront : ∀ d ∈ front, isSchemeChar d) : ∀ d ∈ c :: front ++ [':'], isFormChar d := by
  intro d hd
  rw [List.cons_append, List.mem_cons, List.mem_append, List.mem_singleton] at hd
  rcases hd with rfl | hd | rfl
  · simp [isFormChar, isSchemeChar, hc]
  · simp [isFormChar, hfront d hd]
  · decide

theorem scheme?_eq_some_iff {t s : Text} :
    scheme? t = some s ↔ ∃ c front, isLetter c ∧
    (∀ d ∈ front, isSchemeChar d) ∧ s = lower (c :: front) ∧
    c :: front ++ [':'] <+: t := by
  constructor
  · intro h
    obtain ⟨c, front, rest, rfl, hc, hfront, rfl⟩ := exists_of_scheme? h
    exact ⟨c, front, hc, hfront, rfl, rest, by simp⟩
  · rintro ⟨c, front, hc, hfront, rfl, rest, rfl⟩
    rw [List.append_assoc, List.singleton_append]
    exact scheme?_cons hc hfront rest

theorem scheme?_cons_eq_none {c : Char} (hc : ¬ isLetter c) {t : Text} :
    scheme? (c :: t) = none := by
  cases hscheme : scheme? (c :: t) with
  | none => rfl
  | some s =>
    obtain ⟨d, front, rest, heq, hd, -⟩ := exists_of_scheme? hscheme
    obtain ⟨rfl, -⟩ := List.cons.inj heq
    exact absurd hd hc

theorem singleton_prefix_iff {c : Char} {t : Text} : [c] <+: t ↔ t.head? = some c := by
  rw [List.head?_eq_some_iff]
  exact exists_congr fun _ => eq_comm

/-- A URL that names a host, or should: one with a scheme, or one that takes
only that from elsewhere. -/
def namesPlace (t : Text) : Bool :=
  List.isPrefixOf ['/', '/'] t || (scheme? t).isSome

section Written

variable {b : Text} (hb : ∀ c ∈ b, isBlank c)

include hb

theorem prefix_escape_append_iff {m t : Text} (hm : ∀ c ∈ m, isFormChar c) :
    m <+: escape (t ++ b) ↔ m <+: t :=
  (prefix_escape_iff hm).trans (prefix_append_iff hm hb)

theorem isPrefixOf_slashes_escape_append (t : Text) :
    List.isPrefixOf ['/', '/'] (escape (t ++ b)) = List.isPrefixOf ['/', '/'] t := by
  rw [Bool.eq_iff_iff, List.isPrefixOf_iff_prefix, List.isPrefixOf_iff_prefix]
  exact prefix_escape_append_iff hb (by decide)

theorem scheme?_escape_append (t : Text) : scheme? (escape (t ++ b)) = scheme? t := by
  refine Option.ext fun s => ?_
  rw [scheme?_eq_some_iff, scheme?_eq_some_iff]
  refine exists_congr fun c => exists_congr fun front => ?_
  refine and_congr_right fun hc => and_congr_right fun hfront =>
    and_congr_right fun _ => ?_
  exact prefix_escape_append_iff hb (isFormChar_of_scheme hc hfront)

theorem namesPlace_escape_append (t : Text) :
    namesPlace (escape (t ++ b)) = namesPlace t := by
  rw [namesPlace, namesPlace, isPrefixOf_slashes_escape_append hb,
    scheme?_escape_append hb]

end Written

/-! ## Hosts of URLs -/

/-- The part of a URL after its scheme. -/
def afterScheme (t : Text) : Text :=
  match splitScheme? t with
  | some (_, rest) => rest
  | none => t

/-- The authority of a URL without its scheme. -/
def authority? : Text → Option Text
  | '/' :: '/' :: rest => some (rest.takeWhile fun c => !(c = '/' || c = '?' || c = '#'))
  | _ => none

/-- The host of a URL. -/
def hostOf? (t : Text) : Option Text :=
  (Reference.parse? [] t).bind fun p => host? p.authority

theorem parseAfterScheme?_bind (scheme t : Text) :
    ((parseAfterScheme? scheme t).bind fun p => host? p.authority) =
      (authority? t).bind namedHost? := by
  fun_cases authority? t with
  | case1 rest =>
    rw [parseAfterScheme?, List.span_eq_takeWhile_dropWhile, Option.bind_some, namedHost?]
    dsimp only
    split
    · rfl
    · rfl
  | case2 t h =>
    -- the authority is the empty one, which is well-formed and names no host
    rw [parseAfterScheme?]
    · exact namedHost?_nil
    · exact h

theorem hostOf?_eq (t : Text) :
    hostOf? t = (authority? (afterScheme (readable t))).bind namedHost? := by
  rw [hostOf?, Reference.parse?, afterScheme]
  cases splitScheme? (readable t) with
  | none => exact parseAfterScheme?_bind _ _
  | some split => exact parseAfterScheme?_bind _ _

/-- A text that has `rest` after a scheme, or after no scheme at all if
it begins with two slashes. -/
inductive HasRest : Text → Text → Prop
  | slashes (rest : Text) : HasRest ('/' :: '/' :: rest) ('/' :: '/' :: rest)
  | scheme (c : Char) (front rest : Text) (hc : isLetter c)
    (hfront : ∀ d ∈ front, isSchemeChar d) : HasRest (c :: front ++ ':' :: rest) rest

theorem exists_hasRest {t : Text} (h : namesPlace t) : ∃ rest, HasRest t rest := by
  rw [namesPlace, Bool.or_eq_true, List.isPrefixOf_iff_prefix,
    Option.isSome_iff_exists] at h
  rcases h with ⟨rest, rfl⟩ | ⟨scheme, hscheme⟩
  · exact ⟨_, .slashes rest⟩
  · obtain ⟨c, front, rest, rfl, hc, hfront, -⟩ := exists_of_scheme? hscheme
    exact ⟨rest, .scheme c front rest hc hfront⟩

theorem readable_cons {c : Char} (hc : ¬ isSpecial c) (t : Text) :
    readable (c :: t) = dropControls (c :: t) := by
  have hlarge : ¬ c.toNat ≤ 0x20 := fun hle => hc (by simp [isSpecial, hle])
  rw [readable, List.dropWhile_cons_of_neg (by simpa using hlarge), dropControls]

theorem readable_eq_self {t : Text} (h : ∀ c ∈ t, ¬ isSpecial c) : readable t = t := by
  cases t with
  | nil => rfl
  | cons c t => rw [readable_cons (h c (List.mem_cons_self ..)), dropControls_eq_self h]

namespace HasRest

variable {t rest : Text}

theorem afterScheme_eq (h : HasRest t rest) : afterScheme t = rest := by
  cases h with
  | slashes rest =>
    have hnone : scheme? ('/' :: '/' :: rest) = none := scheme?_cons_eq_none (by decide)
    rw [afterScheme, Option.map_eq_none_iff.mp hnone]
  | scheme c front _ hc hfront =>
    have hcolon : ':' ∉ c :: front := by
      rw [List.mem_cons, not_or]
      refine ⟨?_, fun hmem => absurd (hfront _ hmem) (by decide)⟩
      rintro rfl
      exact absurd hc (by decide)
    rw [afterScheme, splitScheme?, cut_append_cons hcolon]
    dsimp only
    rw [if_pos (Bool.and_eq_true_iff.mpr ⟨hc, List.all_eq_true.mpr hfront⟩)]

theorem append (h : HasRest t rest) (b : Text) : HasRest (t ++ b) (rest ++ b) := by
  cases h with
  | slashes rest => exact .slashes (rest ++ b)
  | scheme c front _ hc hfront =>
    rw [List.append_assoc]
    exact .scheme c front (rest ++ b) hc hfront

theorem escape (h : HasRest t rest) : HasRest (escape t) (escape rest) := by
  cases h with
  | slashes rest => exact .slashes (Url.escape rest)
  | scheme c front _ hc hfront =>
    have hplain := List.forall_mem_append.mp (isFormChar_of_scheme hc hfront)
    rw [Url.escape, keepsMarks_escape.flatMap_append_cons (by decide), ← Url.escape,
      ← Url.escape, escape_eq_self fun d hd => (plain_of_isFormChar (hplain.1 d hd)).1]
    exact .scheme c front _ hc hfront

theorem readable (h : HasRest t rest) : HasRest (readable t) (dropControls rest) := by
  cases h with
  | slashes rest => exact .slashes (dropControls rest)
  | scheme c front _ hc hfront =>
    have hplain := List.forall_mem_append.mp (isFormChar_of_scheme hc hfront)
    have hkept : dropControls (c :: front) = c :: front :=
      dropControls_eq_self fun d hd => (plain_of_isFormChar (hplain.1 d hd)).1
    rw [List.cons_append,
      readable_cons (plain_of_isFormChar (hplain.1 c (List.mem_cons_self ..))).1,
      ← List.cons_append, dropControls_eq_flatMap,
      keepsMarks_dropControls.flatMap_append_cons (by decide), ← dropControls_eq_flatMap,
      ← dropControls_eq_flatMap, hkept]
    exact .scheme c front _ hc hfront

end HasRest

theorem mem_marks_of_ends {c : Char} (h : ¬ (!(c = '/' || c = '?' || c = '#')) = true) :
    c ∈ marks := by
  simp only [Bool.not_eq_true', Bool.not_eq_false, Bool.or_eq_true,
    decide_eq_true_eq] at h
  rcases h with (rfl | rfl) | rfl
  all_goals decide

theorem authority?_eq_none_iff {t : Text} : authority? t = none ↔ ¬ ['/', '/'] <+: t := by
  fun_cases authority? t with
  | case1 rest => simp
  | case2 t h =>
    refine iff_of_true rfl ?_
    rintro ⟨rest, rfl⟩
    exact h rest rfl

theorem exists_of_authority? {t a : Text} (h : authority? t = some a) :
    ∃ rest, t = '/' :: '/' :: rest ∧ a = rest.takeWhile fun c => !(c = '/' || c =
      '?' || c = '#') := by
  revert h
  fun_cases authority? t with
  | case1 rest =>
    rintro ⟨⟩
    exact ⟨rest, rfl, rfl⟩
  | case2 => exact fun h => nomatch h

theorem authority?_escape (t : Text) :
    authority? (escape t) = (authority? t).map escape := by
  cases hauthority : authority? t with
  | none =>
    rw [authority?_eq_none_iff] at hauthority
    exact authority?_eq_none_iff.mpr (mt (prefix_escape_iff (by decide)).mp hauthority)
  | some a =>
    obtain ⟨rest, rfl, rfl⟩ := exists_of_authority? hauthority
    exact congrArg some (keepsMarks_escape.takeWhile_flatMap
      (fun c => mem_marks_of_ends) rest)

theorem takeWhile_append_cases {p : Char → Bool} {b : Text} (hb : ∀ c ∈ b, p c)
    (t : Text) :
    (t ++ b).takeWhile p = t.takeWhile p ∨ (t ++ b).takeWhile p = t.takeWhile p ++ b := by
  rw [List.takeWhile_append]
  split
  · rename_i hall
    rw [List.takeWhile_eq_self_iff.mpr hb, (List.takeWhile_prefix p).eq_of_length hall]
    exact .inr rfl
  · exact .inl rfl

/-- Blanks behind a URL are behind its authority if that is its last part. -/
theorem authority?_append {b : Text} (hb : ∀ c ∈ b, isBlank c) (t : Text) :
    ∃ b', (b' = [] ∨ b' = b) ∧ authority? (t ++ b) = (authority? t).map (· ++ b') := by
  cases hauthority : authority? t with
  | none =>
    rw [authority?_eq_none_iff] at hauthority
    refine ⟨[], .inl rfl, authority?_eq_none_iff.mpr ?_⟩
    exact mt (prefix_append_iff (by decide) hb).mp hauthority
  | some a =>
    obtain ⟨rest, rfl, rfl⟩ := exists_of_authority? hauthority
    have hinside : ∀ c ∈ b, (!(c = '/' || c = '?' || c = '#')) = true := fun c hc =>
      by_contra fun hends => not_mem_marks_of_isBlank (hb c hc) (mem_marks_of_ends hends)
    rcases takeWhile_append_cases hinside rest with heq | heq
    · exact ⟨[], .inl rfl, congrArg some (heq.trans (List.append_nil _).symm)⟩
    · exact ⟨b, .inr rfl, congrArg some heq⟩

theorem authority?_dropControls {t a : Text} (h : authority? t = some a) :
    authority? (dropControls t) = some (dropControls a) := by
  obtain ⟨rest, rfl, rfl⟩ := exists_of_authority? h
  rw [dropControls_eq_flatMap, dropControls_eq_flatMap]
  exact congrArg some (keepsMarks_dropControls.takeWhile_flatMap
    (fun c => mem_marks_of_ends) rest)

/-- The URL has an authority, and nothing in its host or
beside its brackets is escaped. -/
def keepsPlace (uri : Text) : Bool :=
  (authority? (afterScheme uri)).any fun a =>
    ((placeOf a).beside ++ (placeOf a).host).all fun c => !isSpecial c

/-- A URL that names a host, and blanks behind it, the last of which is escaped: the host
is the same once they are written exactly if the place of it is kept. -/
theorem hostOf?_escape_iff {t b h : Text} (hnames : namesPlace t)
    (hb : ∀ c ∈ b, isBlank c) (hlast : ∀ c ∈ b.getLast?, isSpecial c)
    (hhost : hostOf? t = some h) :
    hostOf? (escape (t ++ b)) = some h ↔ keepsPlace (t ++ b) := by
  obtain ⟨rest, hrest⟩ := exists_hasRest hnames
  rw [hostOf?_eq, hrest.readable.afterScheme_eq] at hhost
  rw [hostOf?_eq, readable_eq_self fun c => not_isSpecial_of_mem_escape,
    (hrest.append b).escape.afterScheme_eq, authority?_escape, keepsPlace,
    (hrest.append b).afterScheme_eq]
  obtain ⟨b', hb', happend⟩ := authority?_append hb rest
  rw [happend]
  cases hauthority : authority? rest with
  | none => exact iff_of_false (fun h => nomatch h) (fun h => nomatch h)
  | some a =>
    rw [authority?_dropControls hauthority, Option.bind_some] at hhost
    have hback : (∀ c ∈ b', isBlank c) ∧ ∀ c ∈ b'.getLast?, isSpecial c := by
      rcases hb' with rfl | rfl
      · exact ⟨fun c hc => absurd hc List.not_mem_nil, fun c hc => by cases hc⟩
      · exact ⟨hb, hlast⟩
    rw [Option.map_some, Option.map_some, Option.bind_some,
      namedHost?_escape_iff hback.1 hback.2 hhost, Option.any_some, List.all_eq_true]
    simp only [Bool.not_eq_true', Bool.not_eq_true]

/-! ## Rules -/

/-- A rule allows the form of a URL, whatever its host. -/
def Rule.allowsForm (r : Rule) (t : Text) : Bool :=
  if t.isEmpty then false
  else if t.head? = some '#' then r.allowFragment
  else if List.isPrefixOf ['/', '/'] t then r.allowSchemeless
  else match scheme? t with
    | none => r.allowRelative
    | some scheme => scheme ∈ r.schemes

/-- The host is looked at in the forms that name one. -/
theorem accepts_iff (rule : Rule) (uri : Text) :
    rule.accepts uri ↔ rule.allowsForm (strip uri) ∧
    (namesPlace (strip uri) → rule.allowsHost (strip uri)) := by
  rw [Rule.accepts, Rule.allowsForm, namesPlace]
  generalize strip uri = t
  split
  · simp
  · split
    · rename_i hfragment
      obtain ⟨rest, rfl⟩ := List.head?_eq_some_iff.mp hfragment
      simp [scheme?_cons_eq_none (c := '#') (by decide)]
    · split
      · rename_i hslashes
        simp [hslashes]
      · rename_i hslashes
        cases scheme? t with
        | none => simp [hslashes]
        | some scheme => simp

theorem allowsHost_iff (rule : Rule) (t : Text) :
    rule.allowsHost t ↔ ∀ hosts, rule.hosts = some hosts → ∃ host ∈ hosts,
    hostOf? t = some host := by
  rw [Rule.allowsHost]
  cases rule.hosts with
  | none => simp
  | some hosts =>
    show ((hostOf? t).any (· ∈ hosts)) = true ↔ _
    simp [Option.any_eq_true, and_comm]

/-- What a rule says about the form of a URL, it says once it is written. -/
theorem allowsForm_escape_append (rule : Rule) {t b : Text} (ht : t ≠ [])
    (hb : ∀ c ∈ b, isBlank c) :
    rule.allowsForm (escape (t ++ b)) = rule.allowsForm t := by
  have hne : escape (t ++ b) ≠ [] := by simp [escape_eq_nil_iff, ht]
  have hhash : (escape (t ++ b)).head? = some '#' ↔ t.head? = some '#' := by
    rw [← singleton_prefix_iff, ← singleton_prefix_iff]
    exact prefix_escape_append_iff hb (by decide)
  simp only [Rule.allowsForm, List.isEmpty_iff, hne, ht, hhash,
    isPrefixOf_slashes_escape_append hb, scheme?_escape_append hb]

/-- What a rule makes of a URL that has an escaped blank in front once it is written. -/
theorem accepts_escape_of_startsEscaped {rule : Rule} {uri : Text}
    (h : startsEscaped uri) : rule.accepts (escape uri) = rule.allowRelative := by
  obtain ⟨rest, hrest⟩ := strip_escape_of_startsEscaped h
  have hscheme : scheme? ('%' :: rest) = none := scheme?_cons_eq_none (by decide)
  simp [Rule.accepts, hrest, hscheme]

theorem accepts_of_accept {rule : Rule} {uri user r : Text}
    (h : (accept (some rule.policy) uri user).value = some r) : rule.accepts r := by
  obtain ⟨ask, hask, hasked, -⟩ := granted_of_accept h
  cases hask
  obtain ⟨haccepts, hsame⟩ := Option.ite_none_right_eq_some.mp hasked
  exact Option.some.inj hsame ▸ haccepts

/-- A rule accepts what is written for a URL that it has accepted, unless a blank in front
of the URL is escaped and the rule allows no relative ones, or an escape is in the place
that the URL names and the host that is written is not allowed. -/
theorem accepts_written_iff {rule : Rule} {uri user r text : Text}
    (h : (accept (some rule.policy) uri user).value = some r)
    (htext : token r = "url(\"" ++ text ++ "\")") :
    rule.accepts text ↔
      if startsEscaped r then rule.allowRelative = true
      else namesPlace (strip r) → ∀ hosts, rule.hosts = some hosts →
        keepsPlace (bare r) ∨
          ∃ host ∈ hosts, hostOf? (strip text) = some host ∧
          hostOf? (strip r) ≠ some host := by
  have haccepts := accepts_of_accept h
  obtain rfl : escape r = text := List.append_cancel_left (List.append_cancel_right htext)
  split
  · rename_i hstarts
    rw [accepts_escape_of_startsEscaped hstarts]
  · rename_i hstarts
    obtain ⟨back, hbare, hblank, hlast⟩ := exists_bare_eq hstarts
    obtain ⟨hform, hhost⟩ := (accepts_iff rule r).mp haccepts
    have hne : strip r ≠ [] := fun hnil => by
      rw [hnil] at hform
      cases hform
    rw [accepts_iff, strip_escape, hbare, allowsForm_escape_append rule hne hblank,
      namesPlace_escape_append hblank, allowsHost_iff, and_iff_right hform]
    refine imp_congr_right fun hnames => forall_congr' fun hosts =>
      imp_congr_right fun hhosts => ?_
    obtain ⟨checked, hmem, hchecked⟩ :=
      (allowsHost_iff rule _).mp (hhost hnames) hosts hhosts
    rw [← hostOf?_escape_iff hnames hblank hlast hchecked]
    constructor
    · rintro ⟨host, hallowed, hwritten⟩
      by_cases hsame : host = checked
      · exact .inl (hsame ▸ hwritten)
      · refine .inr ⟨host, hallowed, hwritten, fun hhost => hsame ?_⟩
        exact Option.some.inj (hhost.symm.trans hchecked)
    · rintro (hwritten | ⟨host, hallowed, hwritten, -⟩)
      · exact ⟨checked, hmem, hwritten⟩
      · exact ⟨host, hallowed, hwritten⟩

/-- A rule for one host, and nothing relative. -/
def oneHost : Rule :=
  { Rule.standard with allowRelative := false, hosts := some ["a.example"] }

/-- Escapes in the user information, the port and the path,
and an escaped blank behind. -/
theorem accepts_written_iff_around :
    (accept (some oneHost.policy) "http://us er@A.example:8\t0/x y " "background").value =
      some "http://us er@A.example:8\t0/x y " ∧
    token "http://us er@A.example:8\t0/x y " =
      "url(\"" ++ "http://us%20er@A.example:8%090/x%20y%20" ++ "\")" ∧
    oneHost.accepts "http://us%20er@A.example:8%090/x%20y%20" := by
  have haccept : (accept (some oneHost.policy) "http://us er@A.example:8\t0/x y "
    "background").value =
      some "http://us er@A.example:8\t0/x y " := by decide
  have htoken : token "http://us er@A.example:8\t0/x y " =
      "url(\"" ++ "http://us%20er@A.example:8%090/x%20y%20" ++ "\")" := by decide
  refine ⟨haccept, htoken, (accepts_written_iff haccept htoken).mpr ?_⟩
  rw [if_neg (by decide)]
  exact fun _ hosts _ => .inl (by decide)

/-- An escaped blank in front makes a URL relative, and an escaped tab in a
host makes it another host. -/
theorem not_accepts_written :
    (accept (some oneHost.policy) " http://a.example/" "background").value =
      some " http://a.example/" ∧
    token " http://a.example/" = "url(\"" ++ "%20http://a.example/" ++ "\")" ∧
    ¬ oneHost.accepts "%20http://a.example/" ∧
    (accept (some oneHost.policy) "http://a.ex\tample/" "background").value =
      some "http://a.ex\tample/" ∧
    token "http://a.ex\tample/" = "url(\"" ++ "http://a.ex%09ample/" ++ "\")" ∧
    ¬ oneHost.accepts "http://a.ex%09ample/" := by
  decide

end CssGuard.Url
