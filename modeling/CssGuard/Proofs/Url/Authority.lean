import CssGuard.Proofs.Text.Lower
import CssGuard.Proofs.Url.Escape
import Mathlib.Data.List.Basic

/-!
# Hosts in rewritten URLs

A URL is looked at without its tabs and line breaks, and it is written with its special
characters escaped. Both rewrite it character by character, and neither touches the
characters that divide it into its parts, so the parts of a rewritten URL are its parts
rewritten. A host is the same in both if and only if nothing had to be rewritten in the
part of the authority that is up to its port.

- `KeepsMarks`: a rewriting that leaves the parts as they are
- `Place`, `Place.ofText`: an authority after its user information, by its parts
- `ofText_flatMap`, `ofText_append`: the parts of a rewritten
  place, and with blanks behind
- `namedHost?_escape_iff`: when an authority names the same host in both
-/

namespace CssGuard.Url

open Text
open scoped Text.ByCharacter

/-! ## Rewriting character by character -/

/-- The characters that divide a URL into its parts. -/
def marks : List Char :=
  [':', '/', '?', '#', '@', '[', ']']

/-- Rewriting by `f`, character by character, neither changes nor adds a mark. -/
structure KeepsMarks (f : Char → Text) : Prop where
  mark : ∀ c ∈ marks, f c = [c]
  other : ∀ c ∉ marks, ∀ d ∈ f c, d ∉ marks

/-- A text without tabs and line breaks. -/
def dropControls (t : Text) : Text :=
  t.filter fun c => !(c = '\t' || c = '\n' || c = '\r')

theorem dropControls_eq_flatMap (t : Text) :
    dropControls t =
      t.flatMap fun c => if c = '\t' || c = '\n' || c = '\r' then [] else [c] := by
  induction t with
  | nil => rfl
  | cons c t ih =>
    rw [List.flatMap_cons, ← ih, dropControls, List.filter_cons, ← dropControls]
    by_cases hc : c = '\t' || c = '\n' || c = '\r'
    · rw [hc]
      rfl
    · rw [Bool.eq_false_iff.mpr hc]
      rfl

theorem keepsMarks_dropControls :
    KeepsMarks fun c => if c = '\t' || c = '\n' || c = '\r' then [] else [c] where
  mark := by decide
  other c hc d hd := by
    split at hd
    · exact absurd hd List.not_mem_nil
    · exact List.mem_singleton.mp hd ▸ hc

/-- An escape has nothing in it that is read in another way. -/
theorem of_mem_percentEscape {c d : Char} (hc : isSpecial c) (hd : d ∈ percentEscape c) :
    d ∉ marks ∧ ¬ isBlank d ∧ d.toNat < 0x80 :=
  forall_ascii (fun c => isSpecial c → ∀ d ∈ percentEscape c, d ∉ marks ∧ ¬ isBlank d ∧
    d.toNat < 0x80) (by decide) (ascii_of_isSpecial hc) hc d hd

theorem keepsMarks_escape :
    KeepsMarks fun c => if isSpecial c then percentEscape c else [c] where
  mark := by decide
  other c hc d hd := by
    split at hd
    · rename_i hspecial
      exact (of_mem_percentEscape hspecial hd).1
    · exact List.mem_singleton.mp hd ▸ hc

theorem not_mem_marks_of_isBlank {c : Char} (h : isBlank c) : c ∉ marks := by
  intro hmem
  exact (by decide : ∀ c ∈ marks, ¬ isBlank c) c hmem h

/-- What is removed is special. -/
theorem mem_dropControls {c : Char} {t : Text} (h : c ∈ t) (hc : ¬ isSpecial c) :
    c ∈ dropControls t := by
  refine List.mem_filter.mpr ⟨h, ?_⟩
  have hne : ∀ d ∈ ['\t', '\n', '\r'], c ≠ d := fun d hd =>
    ne_of_not_isSpecial hc ((by decide : ∀ d ∈ ['\t', '\n', '\r'], isSpecial d) d hd)
  simp only [List.forall_mem_cons, List.not_mem_nil, false_implies, implies_true,
    and_true] at hne
  simp [hne]

theorem dropControls_eq_self {t : Text} (h : ∀ c ∈ t, ¬ isSpecial c) :
    dropControls t = t := by
  refine List.filter_eq_self.mpr fun c hc => ?_
  exact (List.mem_filter.mp (mem_dropControls hc (h c hc))).2

namespace KeepsMarks

variable {f : Char → Text} (hf : KeepsMarks f) {d : Char} (hd : d ∈ marks)

include hf hd

theorem mem_flatMap_iff {t : Text} : d ∈ t.flatMap f ↔ d ∈ t := by
  constructor
  · intro h
    obtain ⟨c, hc, hdc⟩ := List.mem_flatMap.mp h
    by_cases hmark : c ∈ marks
    · rw [hf.mark c hmark, List.mem_singleton] at hdc
      exact hdc ▸ hc
    · exact absurd hd (hf.other c hmark d hdc)
  · intro h
    refine List.mem_flatMap.mpr ⟨d, h, ?_⟩
    rw [hf.mark d hd]
    exact List.mem_singleton.mpr rfl

theorem flatMap_append_cons (t u : Text) :
    (t ++ d :: u).flatMap f = t.flatMap f ++ d :: u.flatMap f := by
  rw [List.flatMap_append, List.flatMap_cons, hf.mark d hd, List.singleton_append]

omit hd in
/-- A run that only marks end is rewritten as a whole. -/
theorem takeWhile_flatMap {p : Char → Bool} (hp : ∀ c, ¬ p c → c ∈ marks) (t : Text) :
    (t.flatMap f).takeWhile p = (t.takeWhile p).flatMap f := by
  induction t with
  | nil => rfl
  | cons c t ih =>
    rw [List.flatMap_cons]
    by_cases hc : p c
    · have hall : ∀ d ∈ f c, p d := by
        intro d hd
        by_cases hmark : c ∈ marks
        · rw [hf.mark c hmark, List.mem_singleton] at hd
          exact hd ▸ hc
        · exact by_contra fun hnot => hf.other c hmark d hd (hp d hnot)
      rw [List.takeWhile_append_of_pos hall, ih, List.takeWhile_cons, if_pos hc,
        List.flatMap_cons]
    · rw [hf.mark c (hp c hc), List.singleton_append, List.takeWhile_cons, if_neg hc,
        List.takeWhile_cons, if_neg hc]
      rfl

end KeepsMarks

/-! ## Cutting -/

theorem forall_ne_of_not_mem {d : Char} {t : Text} (h : d ∉ t) :
    ∀ c ∈ t, decide (c ≠ d) := by
  intro c hc
  rw [decide_eq_true_eq]
  rintro rfl
  exact h hc

theorem cut_of_not_mem {d : Char} {t : Text} (h : d ∉ t) : cut d t = (t, none) := by
  have hall := forall_ne_of_not_mem h
  rw [cut, List.span_eq_takeWhile_dropWhile, List.takeWhile_eq_self_iff.mpr hall,
    List.dropWhile_eq_nil_iff.mpr hall]

theorem cut_append_cons {d : Char} {t : Text} (h : d ∉ t) (u : Text) :
    cut d (t ++ d :: u) = (t, some u) := by
  have hall := forall_ne_of_not_mem h
  rw [cut, List.span_eq_takeWhile_dropWhile, List.takeWhile_append_of_pos hall,
    List.dropWhile_append_of_pos hall, List.takeWhile_cons, List.dropWhile_cons,
    if_neg (by simp), if_neg (by simp), List.append_nil]

/-- A text has no `d` in it, or it is cut at the first one. -/
theorem cut_cases (d : Char) (t : Text) :
    (d ∉ t ∧ cut d t = (t, none)) ∨
      ∃ before after, t = before ++ d :: after ∧ d ∉ before ∧
      cut d t = (before, some after) := by
  by_cases h : d ∈ t
  · obtain ⟨before, after, rfl, hbefore⟩ := List.eq_append_cons_of_mem h
    exact .inr ⟨before, after, rfl, hbefore, cut_append_cons hbefore after⟩
  · exact .inl ⟨h, cut_of_not_mem h⟩

/-- Nothing is before the cut of a text that is empty or begins with it. -/
theorem fst_cut_eq_nil_iff {d : Char} {t : Text} :
    (cut d t).1 = [] ↔ t = [] ∨ t.head? = some d := by
  rcases cut_cases d t with ⟨h, hcut⟩ | ⟨before, after, rfl, hbefore, hcut⟩
  · rw [hcut]
    exact (or_iff_left fun hhead => h (List.mem_of_mem_head? hhead)).symm
  · rw [hcut]
    cases before with
    | nil => simp
    | cons c before =>
      simp only [List.mem_cons, not_or] at hbefore
      simp [Ne.symm hbefore.1]

theorem cut_flatMap {f : Char → Text} (hf : KeepsMarks f) {d : Char} (hd : d ∈ marks)
    (t : Text) :
    cut d (t.flatMap f) = ((cut d t).1.flatMap f, (cut d t).2.map (·.flatMap f)) := by
  rcases cut_cases d t with ⟨h, hcut⟩ | ⟨before, after, rfl, hbefore, hcut⟩
  · rw [hcut, cut_of_not_mem fun hmem => h ((hf.mem_flatMap_iff hd).mp hmem)]
    rfl
  · rw [hcut, hf.flatMap_append_cons hd,
      cut_append_cons fun hmem => hbefore ((hf.mem_flatMap_iff hd).mp hmem)]
    rfl

/-- More text after a text goes to what is after the cut, or after
all of it if there is none. -/
theorem cut_append {d : Char} {u : Text} (hu : d ∉ u) (t : Text) :
    cut d (t ++ u) =
      ((cut d t).1 ++ (if (cut d t).2.isSome then [] else u),
        (cut d t).2.map (· ++ u)) := by
  rcases cut_cases d t with ⟨h, hcut⟩ | ⟨before, after, rfl, hbefore, hcut⟩
  · rw [hcut, cut_of_not_mem (List.not_mem_append h hu)]
    rfl
  · rw [hcut, List.append_assoc, List.cons_append, cut_append_cons hbefore]
    simp

theorem afterLast_of_not_mem {d : Char} {t : Text} (h : d ∉ t) : afterLast d t = t := by
  have hall := forall_ne_of_not_mem (mt List.mem_reverse.mp h)
  rw [afterLast, List.takeWhile_eq_self_iff.mpr hall, List.reverse_reverse]

theorem afterLast_append_cons {d : Char} {u : Text} (h : d ∉ u) (t : Text) :
    afterLast d (t ++ d :: u) = u := by
  have hall := forall_ne_of_not_mem (mt List.mem_reverse.mp h)
  rw [afterLast, List.reverse_append, List.reverse_cons, List.append_assoc,
    List.takeWhile_append_of_pos hall, List.singleton_append, List.takeWhile_cons,
    if_neg (by simp), List.append_nil, List.reverse_reverse]

/-- A text has no `d` in it, or something follows the last one. -/
theorem afterLast_cases (d : Char) (t : Text) :
    (d ∉ t ∧ afterLast d t = t) ∨
      ∃ before after, t = before ++ d :: after ∧ d ∉ after ∧ afterLast d t = after := by
  by_cases h : d ∈ t
  · obtain ⟨after, before, heq, hafter⟩ :=
      List.eq_append_cons_of_mem (List.mem_reverse.mpr h)
    have hafter : d ∉ after.reverse := fun hmem => hafter (List.mem_reverse.mp hmem)
    obtain rfl : t = before.reverse ++ d :: after.reverse := by
      rw [← List.reverse_reverse t, heq]
      simp
    exact .inr ⟨_, _, rfl, hafter, afterLast_append_cons hafter _⟩
  · exact .inl ⟨h, afterLast_of_not_mem h⟩

theorem afterLast_flatMap {f : Char → Text} (hf : KeepsMarks f) {d : Char}
    (hd : d ∈ marks) (t : Text) :
    afterLast d (t.flatMap f) = (afterLast d t).flatMap f := by
  rcases afterLast_cases d t with ⟨h, hlast⟩ | ⟨before, after, rfl, hafter, hlast⟩
  · rw [hlast, afterLast_of_not_mem fun hmem => h ((hf.mem_flatMap_iff hd).mp hmem)]
  · rw [hlast, hf.flatMap_append_cons hd,
      afterLast_append_cons fun hmem => hafter ((hf.mem_flatMap_iff hd).mp hmem)]

theorem afterLast_append {d : Char} {u : Text} (hu : d ∉ u) (t : Text) :
    afterLast d (t ++ u) = afterLast d t ++ u := by
  rcases afterLast_cases d t with ⟨h, hlast⟩ | ⟨before, after, rfl, hafter, hlast⟩
  · rw [hlast, afterLast_of_not_mem (List.not_mem_append h hu)]
  · rw [hlast, List.append_assoc, List.cons_append,
      afterLast_append_cons (List.not_mem_append hafter hu)]

theorem mem_of_mem_afterLast {d c : Char} {t : Text} (h : c ∈ afterLast d t) : c ∈ t := by
  rcases afterLast_cases d t with ⟨-, hlast⟩ | ⟨before, after, rfl, -, hlast⟩
  · exact hlast ▸ h
  · rw [hlast] at h
    exact List.mem_append_right _ (List.mem_cons_of_mem _ h)

/-! ## Places -/

/-- The parts of an authority after its user information. -/
inductive Place where
  /-- A host and maybe a port. -/
  | named (host : Text) (port : Option Text)
  /-- A host in brackets, what is before them, and what is
  after them if they are closed. -/
  | bracketed (before host : Text) (after : Option Text)

namespace Place

/-- The parts of a text. -/
def ofText (t : Text) : Place :=
  match cut '[' t with
  | (_, none) => .named (cut ':' t).1 (cut ':' t).2
  | (before, some inside) => .bracketed before (cut ']' inside).1 (cut ']' inside).2

def host : Place → Text
  | named host _ => host
  | bracketed _ host _ => host

/-- What stands beside the brackets, up to the port. -/
def beside : Place → Text
  | named _ _ => []
  | bracketed before _ none => before
  | bracketed before _ (some after) => before ++ (cut ':' after).1

/-- The place with its parts rewritten. -/
def flatMap (f : Char → Text) : Place → Place
  | named host port => named (host.flatMap f) (port.map (·.flatMap f))
  | bracketed before host after =>
    bracketed (before.flatMap f) (host.flatMap f) (after.map (·.flatMap f))

/-- The place with more text behind its last part. -/
def append (b : Text) : Place → Place
  | named host none => named (host ++ b) none
  | named host (some port) => named host (some (port ++ b))
  | bracketed before host none => bracketed before (host ++ b) none
  | bracketed before host (some after) => bracketed before host (some (after ++ b))

theorem host_flatMap (f : Char → Text) (p : Place) :
    (p.flatMap f).host = p.host.flatMap f := by
  cases p <;> rfl

theorem beside_flatMap {f : Char → Text} (hf : KeepsMarks f) (p : Place) :
    (p.flatMap f).beside = p.beside.flatMap f := by
  cases p with
  | named host port => rfl
  | bracketed before host after =>
    cases after with
    | none => rfl
    | some after =>
      show before.flatMap f ++ (cut ':' (after.flatMap f)).1 =
        (before ++ (cut ':' after).1).flatMap f
      rw [cut_flatMap hf (by decide), List.flatMap_append]

/-- More text behind a place is behind its host, or it leaves the host as it is. -/
theorem host_append (b : Text) (p : Place) :
    (p.append b).host = p.host ++ b ∨ (p.append b).host = p.host := by
  cases p with
  | named host port =>
    cases port with
    | none => exact .inl rfl
    | some port => exact .inr rfl
  | bracketed before host after =>
    cases after with
    | none => exact .inl rfl
    | some after => exact .inr rfl

theorem beside_append {b : Text} (hb : ':' ∉ b) (p : Place) :
    (p.append b).beside = p.beside ++ b ∨ (p.append b).beside = p.beside := by
  cases p with
  | named host port =>
    cases port with
    | none => exact .inr rfl
    | some port => exact .inr rfl
  | bracketed before host after =>
    cases after with
    | none => exact .inr rfl
    | some after =>
      show before ++ (cut ':' (after ++ b)).1 = before ++ (cut ':' after).1 ++ b ∨
        before ++ (cut ':' (after ++ b)).1 = before ++ (cut ':' after).1
      rw [cut_append hb]
      rcases cut ':' after with ⟨front, _ | port⟩
      · exact .inl (List.append_assoc ..).symm
      · exact .inr (by simp)

end Place

theorem ofText_flatMap {f : Char → Text} (hf : KeepsMarks f) (t : Text) :
    Place.ofText (t.flatMap f) = (Place.ofText t).flatMap f := by
  rw [Place.ofText, Place.ofText, cut_flatMap hf (by decide), cut_flatMap hf (by decide)]
  rcases cut '[' t with ⟨before, _ | inside⟩
  · rfl
  · dsimp only [Option.map_some]
    rw [cut_flatMap hf (by decide)]
    rfl

theorem ofText_append {b : Text} (hb : ∀ c ∈ b, c ∉ marks) (t : Text) :
    Place.ofText (t ++ b) = (Place.ofText t).append b := by
  have hnot : ∀ d ∈ marks, d ∉ b := fun d hd hmem => hb d hmem hd
  rw [Place.ofText, Place.ofText, cut_append (hnot _ (by decide)),
    cut_append (hnot _ (by decide))]
  rcases cut '[' t with ⟨before, _ | inside⟩
  · rcases cut ':' t with ⟨host, _ | port⟩
    · rfl
    · simp only [Option.map_none, Option.map_some, Option.isSome_some, if_true,
        List.append_nil]
      rfl
  · simp only [Option.map_some, Option.isSome_some, if_true, List.append_nil,
      cut_append (hnot ']' (by decide))]
    rcases cut ']' inside with ⟨host, _ | after⟩
    · rfl
    · simp only [Option.map_some, Option.isSome_some, if_true, List.append_nil]
      rfl

/-- The place of an authority. -/
def placeOf (a : Text) : Place :=
  Place.ofText (afterLast '@' a)

theorem placeOf_flatMap {f : Char → Text} (hf : KeepsMarks f) (a : Text) :
    placeOf (a.flatMap f) = (placeOf a).flatMap f := by
  rw [placeOf, afterLast_flatMap hf (by decide), ofText_flatMap hf]
  rfl

theorem placeOf_append {b : Text} (hb : ∀ c ∈ b, c ∉ marks) (a : Text) :
    placeOf (a ++ b) = (placeOf a).append b := by
  rw [placeOf, afterLast_append fun hmem => hb _ hmem (by decide), ofText_append hb]
  rfl

theorem hostPart_eq (a : Text) : (hostPart a).1 = (placeOf a).host := by
  rw [hostPart, placeOf, Place.ofText]
  rcases cut '[' (afterLast '@' a) with ⟨before, _ | inside⟩
  · rfl
  · rfl

theorem bracketsAlone_iff (a : Text) : bracketsAlone a ↔ (placeOf a).beside = [] := by
  rw [bracketsAlone, placeOf, Place.ofText]
  rcases cut '[' (afterLast '@' a) with ⟨before, _ | inside⟩
  · exact iff_of_true rfl rfl
  · dsimp only
    rcases cut ']' inside with ⟨host, _ | after⟩
    · simp [Place.beside]
    · simp [Place.beside, fst_cut_eq_nil_iff]

/-- Without a bracket, nothing stands beside brackets. -/
theorem beside_placeOf_of_not_mem {a : Text} (h : '[' ∉ a) : (placeOf a).beside = [] := by
  rw [placeOf, Place.ofText, cut_of_not_mem fun hmem => h (mem_of_mem_afterLast hmem)]
  rfl

/-! ## Hosts -/

/-- The host that an authority names, if it is one. -/
def namedHost? (a : Text) : Option Text :=
  if isAuthority a then host? a else none

theorem namedHost?_nil : namedHost? [] = none := by
  decide

theorem isAuthority_iff (t : Text) :
    isAuthority t ↔
      ('[' ∈ t ↔ ']' ∈ t) ∧ ('[' ∈ t → (placeOf t).beside = [] ∧
        isBracketed (placeOf t).host) ∧ ¬ t.any (· ∈ delimiterForms) := by
  simp only [isAuthority, Bool.and_eq_true, Bool.or_eq_true, decide_eq_true_eq,
    decide_eq_decide, Bool.not_eq_true', decide_eq_false_iff_not, bracketsAlone_iff,
    hostPart_eq, Bool.not_eq_true, and_assoc]
  rw [← imp_iff_not_or]

theorem host?_congr {a a' : Text} (h : (placeOf a).host = (placeOf a').host) :
    host? a = host? a' := by
  rw [← hostPart_eq, ← hostPart_eq] at h
  rw [host?, host?, h]

/-- A host has the percent signs that are written in its place. -/
theorem count_of_host? {a h : Text} (hhost : host? a = some h) :
    h.count '%' = (placeOf a).host.count '%' := by
  have hlower : ∀ {t : Text}, '%' ∉ t → (lower t).count '%' = 0 := fun hnot =>
    List.count_eq_zero.mpr fun hmem =>
      hnot (mem_of_mem_lower hmem (by decide) (by decide))
  rw [host?, hostPart_eq] at hhost
  generalize (placeOf a).host = host at hhost ⊢
  split at hhost
  · cases hhost
  · rcases cut_cases '%' host with ⟨hnot, hcut⟩ | ⟨name, zone, rfl, hnot, hcut⟩
    · rw [hcut] at hhost
      cases hhost
      rw [hlower hnot, List.count_eq_zero.mpr hnot]
    · rw [hcut] at hhost
      cases hhost
      rw [List.count_append, List.count_append, hlower hnot, List.count_eq_zero.mpr hnot]

theorem escape_eq_nil_iff {t : Text} : escape t = [] ↔ t = [] := by
  constructor
  · intro h
    cases t with
    | nil => rfl
    | cons c t =>
      rw [escape, List.flatMap_cons, List.append_eq_nil_iff] at h
      have hc := h.1
      split at hc
      · cases hc
      · cases hc
  · rintro rfl
    rfl

theorem count_escape (t : Text) :
    (escape t).count '%' = t.count '%' + t.countP isSpecial := by
  induction t with
  | nil => rfl
  | cons c t ih =>
    rw [escape, List.flatMap_cons, ← escape, List.count_append, ih, List.count_cons,
      List.countP_cons]
    split
    · rename_i hc
      have hone : (percentEscape c).count '%' = 1 ∧ c ≠ '%' :=
        forall_ascii (fun c => isSpecial c → (percentEscape c).count '%' = 1 ∧
          c ≠ '%') (by decide) (ascii_of_isSpecial hc) hc
      rw [hone.1, if_neg (by simpa using hone.2)]
      omega
    · rw [List.count_singleton]
      omega

theorem host_placeOf_dropControls (a : Text) :
    (placeOf (dropControls a)).host = dropControls (placeOf a).host := by
  rw [dropControls_eq_flatMap, placeOf_flatMap keepsMarks_dropControls,
    Place.host_flatMap, ← dropControls_eq_flatMap]

theorem beside_placeOf_dropControls (a : Text) :
    (placeOf (dropControls a)).beside = dropControls (placeOf a).beside := by
  rw [dropControls_eq_flatMap, placeOf_flatMap keepsMarks_dropControls,
    Place.beside_flatMap keepsMarks_dropControls, ← dropControls_eq_flatMap]

section Rewritten

variable {a b : Text} (hb : ∀ c ∈ b, isBlank c)

include hb

theorem placeOf_escape_append :
    placeOf (escape (a ++ b)) =
      ((placeOf a).append b).flatMap
        fun c => if isSpecial c then percentEscape c else [c] := by
  rw [escape, placeOf_flatMap keepsMarks_escape,
    placeOf_append fun c hc => not_mem_marks_of_isBlank (hb c hc)]

theorem host_placeOf_escape_append :
    (placeOf (escape (a ++ b))).host = escape ((placeOf a).append b).host := by
  rw [placeOf_escape_append hb, Place.host_flatMap]
  rfl

theorem beside_placeOf_escape_append :
    (placeOf (escape (a ++ b))).beside = escape ((placeOf a).append b).beside := by
  rw [placeOf_escape_append hb, Place.beside_flatMap keepsMarks_escape]
  rfl

/-- The same brackets are in both. -/
theorem mem_escape_append_iff {d : Char} (hd : d ∈ marks) :
    d ∈ escape (a ++ b) ↔ d ∈ dropControls a := by
  rw [escape, keepsMarks_escape.mem_flatMap_iff hd, dropControls_eq_flatMap,
    keepsMarks_dropControls.mem_flatMap_iff hd, List.mem_append]
  exact or_iff_left fun hmem => not_mem_marks_of_isBlank (hb d hmem) hd

/-- Neither hides a delimiter if the other does not. -/
theorem any_delimiterForms_escape_append
    (h : ¬ (dropControls a).any (· ∈ delimiterForms)) :
    ¬ (escape (a ++ b)).any (· ∈ delimiterForms) := by
  have hforms : ∀ d ∈ delimiterForms, 0x80 ≤ d.toNat ∧ ¬ isSpecial d ∧ ¬ isBlank d := by
    decide
  rw [List.any_eq_true]
  rintro ⟨d, hmem, hd⟩
  rw [decide_eq_true_eq] at hd
  obtain ⟨hforeign, hspecial, hblank⟩ := hforms d hd
  obtain ⟨c, hc, hdc⟩ := List.mem_flatMap.mp hmem
  split at hdc
  · rename_i hc
    have hascii := (of_mem_percentEscape hc hdc).2.2
    omega
  · rw [← List.mem_singleton.mp hdc] at hc
    rcases List.mem_append.mp hc with hc | hc
    · exact h (List.any_eq_true.mpr ⟨d, mem_dropControls hc hspecial, decide_eq_true hd⟩)
    · exact hblank (hb d hc)

/-- A host that is the same in both has nothing in it to be escaped, since each escape
would add a percent sign. -/
theorem not_isSpecial_of_host?_eq {h : Text} (hchecked : host? (dropControls a) = some h)
    (hwritten : host? (escape (a ++ b)) = some h) :
    ∀ c ∈ ((placeOf a).append b).host, ¬ isSpecial c := by
  have hcount := (count_of_host? hwritten).symm.trans (count_of_host? hchecked)
  rw [host_placeOf_escape_append hb, count_escape, host_placeOf_dropControls] at hcount
  have hdropped : (dropControls (placeOf a).host).count '%' ≤
      (placeOf a).host.count '%' :=
    List.filter_sublist.count_le _
  have hbehind : (placeOf a).host.count '%' ≤ ((placeOf a).append b).host.count '%' := by
    rcases (placeOf a).host_append b with heq | heq
    · rw [heq]
      exact (List.sublist_append_left _ _).count_le _
    · rw [heq]
  have hnone : ((placeOf a).append b).host.countP isSpecial = 0 := by omega
  exact List.countP_eq_zero.mp hnone

end Rewritten

/-- The blanks behind are not part of a text without special characters, since
the last of them is special. -/
theorem eq_of_append_cases {b t u : Text} (hlast : ∀ c ∈ b.getLast?, isSpecial c)
    (h : u = t ++ b ∨ u = t) (hu : ∀ c ∈ u, ¬ isSpecial c) : u = t := by
  rcases h with rfl | rfl
  · cases hlast' : b.getLast? with
    | none => rw [List.getLast?_eq_none_iff.mp hlast', List.append_nil]
    | some c =>
      have hmem : c ∈ t ++ b := List.mem_append_right _ (List.mem_of_mem_getLast? hlast')
      exact absurd (hlast c hlast') (hu c hmem)
  · rfl

/-- An authority that names a host without its tabs and line breaks, and blanks behind it,
the last of which is escaped: with its special characters escaped it names the same host
exactly if none of them is in the host or beside its brackets. -/
theorem namedHost?_escape_iff {a b h : Text} (hb : ∀ c ∈ b, isBlank c)
    (hlast : ∀ c ∈ b.getLast?, isSpecial c)
    (hchecked : namedHost? (dropControls a) = some h) :
    namedHost? (escape (a ++ b)) = some h ↔
      ∀ c ∈ (placeOf (a ++ b)).beside ++ (placeOf (a ++ b)).host, ¬ isSpecial c := by
  have hmarks : ∀ c ∈ b, c ∉ marks := fun c hc => not_mem_marks_of_isBlank (hb c hc)
  rw [namedHost?] at hchecked ⊢
  rw [Option.ite_none_right_eq_some] at hchecked ⊢
  rw [placeOf_append hmarks, List.forall_mem_append]
  obtain ⟨hauthority, hhost⟩ := hchecked
  constructor
  · rintro ⟨hwritten, hsame⟩
    refine ⟨?_, not_isSpecial_of_host?_eq hb hhost hsame⟩
    have hnil : (placeOf (escape (a ++ b))).beside = [] := by
      by_cases hopen : '[' ∈ escape (a ++ b)
      · exact (((isAuthority_iff _).mp hwritten).2.1 hopen).1
      · exact beside_placeOf_of_not_mem hopen
    rw [beside_placeOf_escape_append hb, escape_eq_nil_iff] at hnil
    rw [hnil]
    exact fun c hc => absurd hc List.not_mem_nil
  · rintro ⟨hbeside, hplain⟩
    have hbesides := eq_of_append_cases hlast
      ((placeOf a).beside_append fun hmem => hmarks _ hmem (by decide)) hbeside
    have hhosts := eq_of_append_cases hlast ((placeOf a).host_append b) hplain
    rw [hbesides] at hbeside
    rw [hhosts] at hplain
    have hsame : (placeOf (escape (a ++ b))).host = (placeOf (dropControls a)).host := by
      rw [host_placeOf_escape_append hb, hhosts, escape_eq_self hplain,
        host_placeOf_dropControls, dropControls_eq_self hplain]
    obtain ⟨hpairs, halone, hforms⟩ := (isAuthority_iff _).mp hauthority
    refine ⟨(isAuthority_iff _).mpr ?_, (host?_congr hsame).trans hhost⟩
    rw [mem_escape_append_iff hb (by decide), mem_escape_append_iff hb (by decide), hsame]
    refine ⟨hpairs, fun hopen => ⟨?_, (halone hopen).2⟩,
      any_delimiterForms_escape_append hb hforms⟩
    have hnil := (halone hopen).1
    rw [beside_placeOf_dropControls, dropControls_eq_self hbeside] at hnil
    rw [beside_placeOf_escape_append hb, hbesides, hnil]
    rfl

end CssGuard.Url
