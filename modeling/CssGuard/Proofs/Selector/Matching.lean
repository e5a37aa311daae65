import CssGuard.Proofs.Selector.Confinement
import Mathlib.Data.List.Infix

/-!
# Attribute selectors keep their meaning

In a confined document the values of attributes that name things have a suffix: after the
value if it is one name, after each of its words if it is a list of names. A comparison is
carried over to such a document so that it holds of the changed values exactly where it
held before.

Two kinds of comparisons do not keep their meaning. The beginning of a name can be looked
for with a value that goes on like the suffix, and then it is found in shorter names with
their suffix, too. And a suffix with a newline in it, which is overlooked when a
confinement is made, is no part of a word.

- `wordsOf`, `matchesValue`: where a comparison holds
- `suffixWords`: a list of names in a confined document
- `RunsInto`: the value goes on like the suffix
- `matches_begins_iff`, `not_matches_begins`: looking for the beginning of a name
- `matches_word_iff`: looking for a word
- `matches_translated_iff`: which comparisons keep their meaning
-/

namespace CssGuard

open Text

/-! ## Comparisons -/

/-- The words of a text, between white space. -/
def wordsOf (x : Text) : List Text :=
  (x.splitOnP isSpace).filter (· ≠ [])

/-- An attribute with the value `x` satisfies the comparison with `v`. -/
def matchesValue (operator : Token) (x v : Text) : Bool :=
  if operator = "=" then x = v
  else if operator = "~=" then v ∈ wordsOf x
  else if operator = "|=" then x = v || (v ++ ['-']).isPrefixOf x
  -- nothing is found where an empty text is looked for
  else if v.isEmpty then false
  else if operator = "^=" then v.isPrefixOf x
  else if operator = "$=" then v.isSuffixOf x
  else if operator = "*=" then hasPart v x
  else false

/-- A list of names in a confined document: each of its words has the suffix. -/
def suffixWords (suffix x : Text) : Text :=
  joined [' '] ((wordsOf x).map (· ++ suffix))

theorem matchesValue_equals (x v : Text) : matchesValue "=" x v ↔ x = v := by
  simp [matchesValue]

theorem matchesValue_word (x v : Text) : matchesValue "~=" x v ↔ v ∈ wordsOf x := by
  simp [matchesValue]

theorem matchesValue_begins (x v : Text) : matchesValue "^=" x v ↔ v ≠ [] ∧ v <+: x := by
  simp [matchesValue]

theorem matchesValue_ends (x v : Text) : matchesValue "$=" x v ↔ v ≠ [] ∧ v <:+ x := by
  simp [matchesValue]

/-! ## Words -/

theorem isSpace_eq_false_of_mem_splitOnP {x w : Text} (h : w ∈ x.splitOnP isSpace) :
    ∀ c ∈ w, isSpace c = false := by
  induction x generalizing w with
  | nil =>
    rw [List.splitOnP_nil, List.mem_singleton] at h
    rw [h]
    exact fun c hc => absurd hc List.not_mem_nil
  | cons d x ih =>
    rw [List.splitOnP_cons_eq_if_modifyHead] at h
    split at h
    · rcases List.mem_cons.mp h with rfl | h
      · exact fun c hc => absurd hc List.not_mem_nil
      · exact ih h
    · rename_i hd
      obtain ⟨first, others, hsplit⟩ :=
        List.exists_cons_of_ne_nil (List.splitOnP_ne_nil isSpace x)
      rw [hsplit, List.modifyHead_cons] at h
      rcases List.mem_cons.mp h with rfl | h
      · exact List.forall_mem_cons.mpr ⟨Bool.eq_false_iff.mpr hd,
          ih (hsplit ▸ List.mem_cons_self ..)⟩
      · exact ih (hsplit ▸ List.mem_cons_of_mem _ h)

/-- A word is not empty, and there is no white space in it. -/
def IsSingleWord (w : Text) : Prop :=
  w ≠ [] ∧ ∀ c ∈ w, isSpace c = false

theorem isSingleWord_of_mem_wordsOf {x w : Text} (h : w ∈ wordsOf x) :
    IsSingleWord w := by
  obtain ⟨hmem, hne⟩ := List.mem_filter.mp h
  exact ⟨of_decide_eq_true hne, isSpace_eq_false_of_mem_splitOnP hmem⟩

theorem wordsOf_append_space {c : Char} (hc : isSpace c) (x y : Text) :
    wordsOf (x ++ c :: y) = wordsOf x ++ wordsOf y := by
  rw [wordsOf, List.splitOnP_append_cons x y hc, List.filter_append]
  rfl

theorem wordsOf_word {w : Text} (h : IsSingleWord w) : wordsOf w = [w] := by
  rw [wordsOf, List.splitOnP_eq_singleton h.2]
  exact List.filter_cons_of_pos (decide_eq_true h.1)

/-- Words that are written with a space between them. -/
theorem wordsOf_joined {ws : List Text} (h : ∀ w ∈ ws, IsSingleWord w) :
    wordsOf (joined [' '] ws) = ws := by
  induction ws with
  | nil => rfl
  | cons w ws ih =>
    obtain ⟨hw, hws⟩ := List.forall_mem_cons.mp h
    cases ws with
    | nil => exact wordsOf_word hw
    | cons w' ws =>
      show wordsOf (w ++ [' '] ++ joined [' '] (w' :: ws)) = _
      rw [List.append_assoc, List.singleton_append, wordsOf_append_space rfl,
        wordsOf_word hw, ih hws]
      rfl

theorem wordsOf_suffixWords {suffix : Text} (h : ∀ c ∈ suffix, isSpace c = false)
    (x : Text) : wordsOf (suffixWords suffix x) = (wordsOf x).map (· ++ suffix) := by
  refine wordsOf_joined fun w hw => ?_
  obtain ⟨word, hmem, rfl⟩ := List.mem_map.mp hw
  obtain ⟨hne, hspace⟩ := isSingleWord_of_mem_wordsOf hmem
  exact ⟨List.append_ne_nil_of_left_ne_nil hne suffix,
    List.forall_mem_append.mpr ⟨hspace, h⟩⟩

/-- Looking for a word keeps its meaning, unless the suffix has a newline in it and the
word could have been found before. -/
theorem matches_word_iff {suffix value : Text} (hsuffix : isIdSuffix suffix)
    (hvalue : value ≠ []) :
    (∀ x, matchesValue "~=" x value ↔
      matchesValue "~=" (suffixWords suffix x) (value ++ suffix)) ↔
      ¬ ('\n' ∈ suffix ∧ ∀ c ∈ value, isSpace c = false) := by
  simp only [matchesValue_word]
  by_cases hnew : '\n' ∈ suffix
  · -- the value that is looked for has white space in it, so it is never found
    have hnever : ∀ x, value ++ suffix ∉ wordsOf x := by
      intro x hmem
      exact absurd ((isSingleWord_of_mem_wordsOf hmem).2 _
        (List.mem_append_right value hnew)) (by decide)
    constructor
    · rintro hall ⟨-, hspace⟩
      refine hnever _ ((hall value).mp ?_)
      rw [wordsOf_word ⟨hvalue, hspace⟩]
      exact List.mem_singleton_self value
    · intro hspace x
      exact iff_of_false (fun hmem => hspace ⟨hnew, (isSingleWord_of_mem_wordsOf hmem).2⟩)
        (hnever _)
  · have hspace : ∀ c ∈ suffix, isSpace c = false := fun c hc =>
      Bool.eq_false_iff.mpr
        (isClean_of_isNameChar (isNameChar_of_mem_idSuffix hsuffix hnew c hc)).2
    refine iff_of_true (fun x => ?_) fun h => hnew h.1
    rw [wordsOf_suffixWords hspace]
    constructor
    · exact List.mem_map_of_mem
    · intro hmem
      obtain ⟨word, hword, heq⟩ := List.mem_map.mp hmem
      rwa [List.append_cancel_right heq] at hword

/-! ## Beginnings of names -/

/-- The value goes on like the suffix: it ends with a beginning of the suffix, and
something stands before that. -/
def RunsInto (value suffix : Text) : Prop :=
  ∃ p ∈ value.tail.tails, p ≠ [] ∧ p <+: suffix

instance (value suffix : Text) : Decidable (RunsInto value suffix) :=
  List.decidableBEx _ _

theorem runsInto_iff {value suffix : Text} :
    RunsInto value suffix ↔ ∃ x p, x ≠ [] ∧ p ≠ [] ∧ value = x ++ p ∧ p <+: suffix := by
  constructor
  · rintro ⟨p, hmem, hne, hp⟩
    obtain ⟨x, hx⟩ := (List.mem_tails _ _).mp hmem
    cases value with
    | nil =>
      obtain ⟨-, rfl⟩ := List.append_eq_nil_iff.mp hx
      exact absurd rfl hne
    | cons c value =>
      exact ⟨c :: x, p, List.cons_ne_nil _ _, hne, congrArg (c :: ·) hx.symm, hp⟩
  · rintro ⟨x, p, hx, hne, rfl, hp⟩
    obtain ⟨c, x, rfl⟩ := List.exists_cons_of_ne_nil hx
    exact ⟨p, (List.mem_tails _ _).mpr ⟨x, rfl⟩, hne, hp⟩

/-- Looking for the beginning of a name keeps its meaning exactly if the value does
not go on like the suffix. -/
theorem matches_begins_iff {suffix value : Text} (hvalue : value ≠ []) :
    (∀ x, x ≠ [] → (matchesValue "^=" x value ↔ matchesValue "^=" (x ++ suffix) value)) ↔
      ¬ RunsInto value suffix := by
  simp only [matchesValue_begins, runsInto_iff]
  constructor
  · rintro hall ⟨x, p, hx, hp, rfl, hsuffix⟩
    have hlong :=
      ((hall x hx).mpr ⟨hvalue, (List.prefix_append_right_inj x).mpr hsuffix⟩).2.length_le
    have hpos := List.length_pos_iff.mpr hp
    rw [List.length_append] at hlong
    omega
  · intro hnot x hx
    refine and_congr_right fun _ => ⟨fun h => h.trans (List.prefix_append x suffix), ?_⟩
    rintro ⟨rest, hrest⟩
    -- either the value ends in the name, or it goes on in the suffix
    rcases List.append_eq_append_iff.mp hrest with ⟨more, rfl, -⟩ | ⟨p, rfl, hp⟩
    · exact List.prefix_append value more
    · by_cases hne : p = []
      · rw [hne, List.append_nil]
      · exact absurd ⟨x, p, hx, hne, rfl, ⟨rest, hp.symm⟩⟩ hnot

/-- Where the value goes on like the suffix, it is of no use to look for
another beginning instead. -/
theorem not_matches_begins {suffix value : Text} (h : RunsInto value suffix)
    (other : Text) :
    ¬ ∀ x, x ≠ [] → (matchesValue "^=" x value ↔
      matchesValue "^=" (x ++ suffix) other) := by
  simp only [matchesValue_begins]
  obtain ⟨x, p, hx, hp, rfl, hsuffix⟩ := runsInto_iff.mp h
  have hvalue : x ++ p ≠ [] := List.append_ne_nil_of_left_ne_nil hx p
  intro hall
  -- what is looked for begins every name that the value begins, so it begins the value
  have hbegins : ∀ y, other ≠ [] ∧ other <+: x ++ p ++ (y ++ suffix) := by
    intro y
    have hy := (hall (x ++ p ++ y) (List.append_ne_nil_of_left_ne_nil hvalue y)).mp
      ⟨hvalue, List.prefix_append ..⟩
    rwa [List.append_assoc] at hy
  have hother : other <+: x ++ p := by
    obtain ⟨d, suffix', hd⟩ := List.exists_cons_of_ne_nil fun hnil : suffix = [] =>
      hp (List.prefix_nil.mp (hnil ▸ hsuffix))
    obtain ⟨c, hc⟩ : ∃ c : Char, c ≠ d := by
      by_cases heq : 'a' = d
      · exact ⟨'b', fun hb => absurd (heq.trans hb.symm) (by decide)⟩
      · exact ⟨'a', heq⟩
    have hnil := (hbegins []).2
    have hcons := (hbegins [c]).2
    rcases List.prefix_or_prefix_of_prefix hnil (List.prefix_append (x ++ p) _) with
      h | ⟨r, rfl⟩
    · exact h
    · rw [List.prefix_append_right_inj, hd] at hnil hcons
      cases r with
      | nil => exact (List.append_nil _).symm ▸ List.prefix_refl _
      | cons e r =>
        exact absurd ((List.cons_prefix_cons.mp hcons).1.symm.trans
          (List.cons_prefix_cons.mp hnil).1) hc
  -- then it begins the shorter name with its suffix, too
  have hshort : other <+: x ++ suffix :=
    hother.trans ((List.prefix_append_right_inj x).mpr hsuffix)
  have hlong := ((hall x hx).mpr ⟨(hbegins []).1, hshort⟩).2.length_le
  have hpos := List.length_pos_iff.mpr hp
  rw [List.length_append] at hlong
  omega

/-! ## Comparisons that are carried over -/

/-- A comparison that is carried over compares with a value that is not empty, and the
value stays the same or gets the suffix. -/
theorem carry_of_translateValue? {suffix value value' : Text} {kind : AttributeKind}
    {operator : Token} (hkind : kind.isKept = false)
    (h : translateValue? suffix kind operator value false = some value') :
    value ≠ [] ∧ (kind.carry operator = some .same ∧ value' = value ∨
      kind.carry operator = some .suffixed ∧ value' = value ++ suffix) := by
  rw [translateValue?, hkind] at h
  simp only [Bool.false_and, Bool.or_false] at h
  cases hcarry : kind.carry operator with
  | none =>
    rw [hcarry] at h
    cases h
  | some carry =>
    rw [hcarry] at h
    by_cases hvalue : value = []
    · rw [hvalue] at h
      cases h
    · cases carry <;> simp_all

theorem carryName_eq_same {operator : Token} (h : carryName operator = some .same) :
    operator = "^=" := by
  unfold carryName at h
  split at h
  · cases h
  · split at h
    · assumption
    · cases h

theorem carryName_eq_suffixed {operator : Token}
    (h : carryName operator = some .suffixed) : operator = "=" ∨ operator = "$=" := by
  unfold carryName at h
  split at h
  · rename_i hoperator
    simpa using hoperator
  · split at h <;> cases h

theorem carryNames_eq {operator : Token} {carry : Carry}
    (h : carryNames operator = some carry) : operator = "~=" ∧ carry = .suffixed := by
  unfold carryNames at h
  split at h
  · rename_i hoperator
    exact ⟨hoperator, (Option.some.inj h).symm⟩
  · cases h

/-- Equal names and ends of names keep their meaning with the suffix after them. -/
theorem matches_suffixed_iff {operator : Token} (h : operator = "=" ∨ operator = "$=")
    {suffix value : Text} (hvalue : value ≠ []) (x : Text) :
    matchesValue operator x value ↔
      matchesValue operator (x ++ suffix) (value ++ suffix) := by
  have hne : value ++ suffix ≠ [] := List.append_ne_nil_of_left_ne_nil hvalue suffix
  rcases h with rfl | rfl
  · rw [matchesValue_equals, matchesValue_equals, List.append_left_inj]
  · rw [matchesValue_ends, matchesValue_ends, List.suffix_append_inj_of_length_eq rfl]
    simp [hvalue, hne]

/-- A comparison that is carried over keeps its meaning for all values that are not empty,
if they are names, and for all values if they are lists of names. There are two
exceptions, and in the first of them no comparison with the same operator has that
meaning: the beginning of a name is looked for with a value that goes on like the suffix,
and a word is looked for where the suffix has a newline in it. -/
theorem matches_translated_iff (c : Confinement) (operator : Token)
    (value value' : Text) :
    (∀ kind ∈ [AttributeKind.id, .idRef, .globalName],
      translateValue? c.idSuffix kind operator value false = some value' →
      ((∀ x, x ≠ [] →
          (matchesValue operator x value ↔
            matchesValue operator (x ++ c.idSuffix) value')) ↔
        ¬ (operator = "^=" ∧ RunsInto value c.idSuffix)) ∧
      (operator = "^=" ∧ RunsInto value c.idSuffix → ∀ other, ¬ ∀ x, x ≠ [] →
        (matchesValue operator x value ↔
          matchesValue operator (x ++ c.idSuffix) other))) ∧
    (translateValue? c.idSuffix .idRefs operator value false = some value' →
      ((∀ x, matchesValue operator x value ↔
          matchesValue operator (suffixWords c.idSuffix x) value') ↔
        ¬ ('\n' ∈ c.idSuffix ∧ ∀ ch ∈ value, isSpace ch = false))) := by
  constructor
  · intro kind hkind h
    have hnames : kind.isKept = false ∧ kind.carry operator = carryName operator := by
      simp only [List.mem_cons, List.not_mem_nil, or_false] at hkind
      rcases hkind with rfl | rfl | rfl <;> exact ⟨rfl, rfl⟩
    obtain ⟨hvalue, hcases⟩ := carry_of_translateValue? hnames.1 h
    rw [hnames.2] at hcases
    rcases hcases with ⟨hcarry, rfl⟩ | ⟨hcarry, rfl⟩
    · rw [carryName_eq_same hcarry]
      refine ⟨?_, fun hruns other => not_matches_begins hruns.2 other⟩
      rw [matches_begins_iff hvalue]
      simp
    · have hoperator := carryName_eq_suffixed hcarry
      have hne : operator ≠ "^=" := by
        rcases hoperator with rfl | rfl <;> decide
      refine ⟨iff_of_true (fun x _ => matches_suffixed_iff hoperator hvalue x)
        fun hruns => hne hruns.1, ?_⟩
      exact fun hruns => absurd hruns.1 hne
  · intro h
    obtain ⟨hvalue, hcases⟩ := carry_of_translateValue? rfl h
    rcases hcases with ⟨hcarry, -⟩ | ⟨hcarry, rfl⟩
    · cases (carryNames_eq hcarry).2
    · rw [(carryNames_eq hcarry).1]
      exact matches_word_iff c.idSuffix_valid hvalue

/-- A suffix that begins with a hyphen, and a value without one. -/
theorem matches_translated_iff_hyphen :
    isIdSuffix "-x" ∧ ¬ RunsInto "ab" "-x" ∧
    translateValue? "-x" .id "^=" "ab" false = some "ab".toList ∧
    (∀ x, x ≠ [] →
      (matchesValue "^=" x "ab" ↔ matchesValue "^=" (x ++ "-x".toList) "ab")) ∧
    translateValue? "-x" .idRefs "~=" "ab" false = some "ab-x".toList ∧
    ∀ x, matchesValue "~=" x "ab" ↔ matchesValue "~=" (suffixWords "-x" x) "ab-x" := by
  have hsuffix : isIdSuffix "-x" := by decide
  have hruns : ¬ RunsInto "ab" "-x" := by decide
  have hname : translateValue? "-x" .id "^=" "ab" false = some "ab".toList := by decide
  have hnames : translateValue? "-x" .idRefs "~=" "ab" false = some "ab-x".toList := by
    decide
  let c : Confinement := ⟨"-x", none, TagPolicy.standard, hsuffix, rfl⟩
  have hid := (matches_translated_iff c "^=" "ab" "ab").1 .id (by decide) hname
  have hidRefs := (matches_translated_iff c "~=" "ab" "ab-x").2 hnames
  refine ⟨hsuffix, hruns, hname, hid.1.mpr fun h => hruns h.2, hnames, hidRefs.mpr ?_⟩
  exact fun h => absurd h.1 (by decide : '\n' ∉ "-x".toList)

/-- A name that goes on like the value once the suffix stands after it, and a
suffix that is a newline. -/
theorem matches_translated_runsInto :
    isIdSuffix "bc" ∧ translateValue? "bc" .id "^=" "ab" false = some "ab".toList ∧
    matchesValue "^=" "a" "ab" = false ∧ matchesValue "^=" "abc" "ab" = true ∧
    isIdSuffix "\n" ∧ translateValue? "\n" .idRefs "~=" "a" false = some "a\n".toList ∧
    matchesValue "~=" "a" "a" = true ∧
    matchesValue "~=" (suffixWords "\n" "a") "a\n" = false := by
  decide

end CssGuard
