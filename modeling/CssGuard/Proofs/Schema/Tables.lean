import CssGuard.Proofs.Schema
import Mathlib.Data.List.Perm.Basic
import Mathlib.Data.List.Nodup

/-!
# Schemas from tables

A table is a list of definitions in any order, and the functions of a definition may be
defined after it, or be the definition itself. The entries of a schema refer to each other
by their places, which depend on the order of the table. What they refer to does not: a
reference under the name of a function is the one that the index has for the name with
parentheses.

- `find?_ofTable`: what a schema holds under a name
- `ofTable_eq_error_iff`: when a table is refused, and for which reference
- `lookup_functions`, `calls_of_find?`: what the functions of an entry refer to
- `filter_name_eq_of_perm`: the definitions of one name in a table
  that is put into another order
- `ofTable_resolved`: references, and the order of definitions
-/

namespace CssGuard.Schema

open Text

/-! ## What is found under a name -/

theorem index_ofTable {table : List Definition} {s : Schema} (h : ofTable table = .ok s) :
    s.index = (declared table).index := by
  rw [(linked_of_ofTable h).2, index_foldl_linkTo]

/-- A schema holds under a name the entry of its last definition, linked to the functions
of all definitions of the name. -/
theorem find?_ofTable {table : List Definition} {s : Schema} (h : ofTable table = .ok s)
    (name : Text) :
    s.find? name = (table.reverse.find? fun d => lower d.name = name).map fun d =>
      { d.entry with functions :=
          (listedUnder name (references table)).foldl (linkFunction s.index) [] } := by
  rw [index_ofTable h, (linked_of_ofTable h).2, find?_foldl_linkTo, find?_declared,
    Option.map_map]
  rfl

theorem functions_of_find? {table : List Definition} {s : Schema}
    (h : ofTable table = .ok s) {name : Text} {e : Entry} (he : s.find? name = some e) :
    e.functions = (listedUnder name (references table)).foldl
      (linkFunction s.index) [] := by
  rw [find?_ofTable h] at he
  obtain ⟨d, -, rfl⟩ := Option.map_eq_some_iff.mp he
  rfl

/-- A name is known if and only if it is defined. -/
theorem isSome_lookup_ofTable {table : List Definition} {s : Schema}
    (h : ofTable table = .ok s) {name : Text} :
    (s.index.lookup name).isSome ↔ name ∈ table.map fun d => lower d.name := by
  rw [index_ofTable h, isSome_lookup_declared]

/-! ## References that are refused -/

/-- The reference has no parentheses, or there is no definition of its name. -/
def Dangles (table : List Definition) (function : Text) : Prop :=
  ¬ ['(', ')'] <:+ lower function ∨ lower function ∉ table.map fun d => lower d.name

instance (table : List Definition) (function : Text) :
    Decidable (Dangles table function) :=
  inferInstanceAs (Decidable (_ ∨ _))

theorem not_resolves_iff {table : List Definition} {function : Text} :
    ¬ (declared table).Resolves function ↔ Dangles table function := by
  rw [Resolves, Dangles, isSome_lookup_declared, not_and_or]

/-- A table is refused for the first reference that dangles. -/
theorem ofTable_eq_error_iff {table : List Definition} {cause : Misuse} :
    ofTable table = .error cause ↔
      ∃ d f, (references table).find? (fun r => Dangles table r.2) = some (d, f) ∧
        cause = .unknownFunction d.name f := by
  rw [ofTable_eq]
  simp only [not_resolves_iff]
  cases (references table).find? fun r => Dangles table r.2 with
  | none => simp
  | some r =>
    obtain ⟨d, f⟩ := r
    simp [eq_comm]

theorem exists_error_iff {table : List Definition} :
    (∃ cause, ofTable table = .error cause) ↔
    ∃ d ∈ table, ∃ f ∈ d.functions, Dangles table f := by
  constructor
  · rintro ⟨cause, h⟩
    obtain ⟨d, f, hfind, -⟩ := ofTable_eq_error_iff.mp h
    obtain ⟨hd, hf⟩ := mem_references.mp (List.mem_of_find?_eq_some hfind)
    have hdangles := List.find?_some hfind
    exact ⟨d, hd, f, hf, of_decide_eq_true hdangles⟩
  · rintro ⟨d, hd, f, hf, hdangles⟩
    have hsome : ((references table).find? fun r => Dangles table r.2).isSome := by
      rw [List.find?_isSome]
      exact ⟨(d, f), mem_references.mpr ⟨hd, hf⟩, decide_eq_true hdangles⟩
    obtain ⟨r, hr⟩ := Option.isSome_iff_exists.mp hsome
    exact ⟨_, ofTable_eq_error_iff.mpr ⟨r.1, r.2, hr, rfl⟩⟩

/-! ## References that are kept -/

theorem dropLast_eq_iff {key function : Text} (h : ['(', ')'] <:+ key) :
    key.dropLast.dropLast = function ↔ key = functionKey function := by
  constructor
  · rintro rfl
    exact (functionKey_dropLast h).symm
  · rintro rfl
    simp [functionKey]

/-- After functions were added, a name refers to what the index has for the name with
parentheses if one of them has it, and otherwise to what it referred to before. -/
theorem lookup_foldl_linkFunction {s : Schema} {function : Text}
    {functions : List Text} :
    ∀ {links : List (Text × EntryRef)}, (∀ f ∈ functions, s.Resolves f) →
      (functions.foldl (linkFunction s.index) links).lookup function =
        if ∃ f ∈ functions, lower f = functionKey function then
          s.index.lookup (functionKey function)
        else links.lookup function := by
  induction functions with
  | nil => simp
  | cons f functions ih =>
    intro links h
    obtain ⟨hparens, hknown⟩ := h f (List.mem_cons_self ..)
    obtain ⟨target, htarget⟩ := Option.isSome_iff_exists.mp hknown
    have hlink : (linkFunction s.index links f).lookup function =
        if lower f = functionKey function then some target
          else links.lookup function := by
      simp only [linkFunction, htarget, lookup_assign, dropLast_eq_iff hparens]
    rw [List.foldl_cons, ih fun f' hf' => h f' (List.mem_cons_of_mem _ hf'), hlink]
    by_cases hkey : lower f = functionKey function
    · simp [hkey, ← htarget]
    · simp [hkey]

/-- The functions that an entry permits, each with the name of
the entry that it refers to. -/
def calls (s : Schema) (e : Entry) : List (Text × Option Text) :=
  e.functions.map (Prod.map id fun ref => (s.get? ref).map Entry.name)

/-- After functions were added, each of them refers to an entry with its name. -/
theorem map_foldl_linkFunction {s : Schema} {functions : List Text} :
    ∀ {links : List (Text × EntryRef)}, (∀ f ∈ functions, s.Resolves f) →
      (functions.foldl (linkFunction s.index) links).map
          (Prod.map id fun ref => (s.get? ref).map Entry.name) =
        functions.foldl
          (fun calls f => assign (lower f).dropLast.dropLast (some (lower f)) calls)
          (links.map (Prod.map id fun ref => (s.get? ref).map Entry.name)) := by
  induction functions with
  | nil => exact fun _ => rfl
  | cons f functions ih =>
    intro links h
    obtain ⟨target, htarget⟩ :=
      Option.isSome_iff_exists.mp (h f (List.mem_cons_self ..)).2
    obtain ⟨g, hg, hname⟩ := exists_get?_of_lookup htarget
    rw [List.foldl_cons, List.foldl_cons,
      ih fun f' hf' => h f' (List.mem_cons_of_mem _ hf'), linkFunction, htarget]
    dsimp only
    rw [map_assign, hg, Option.map_some, hname]

theorem mem_listedUnder {name function : Text} :
    function ∈ listedUnder name (references table) ↔
      ∃ d ∈ table, lower d.name = name ∧ function ∈ d.functions := by
  rw [listedUnder, List.mem_map]
  constructor
  · rintro ⟨⟨d, f⟩, hr, rfl⟩
    obtain ⟨hr, hname⟩ := List.mem_filter.mp hr
    obtain ⟨hd, hf⟩ := mem_references.mp hr
    exact ⟨d, hd, of_decide_eq_true hname, hf⟩
  · rintro ⟨d, hd, hname, hf⟩
    exact ⟨(d, function), List.mem_filter.mpr ⟨mem_references.mpr ⟨hd, hf⟩,
      decide_eq_true hname⟩, rfl⟩

section Accepted

variable {table : List Definition} {s : Schema} (h : ofTable table = .ok s)
include h

theorem resolves_of_mem_listedUnder {name f : Text}
    (hf : f ∈ listedUnder name (references table)) : s.Resolves f := by
  obtain ⟨d, hd, -, hf⟩ := mem_listedUnder.mp hf
  rw [Resolves, index_ofTable h]
  exact (linked_of_ofTable h).1 _ (mem_references.mpr ⟨hd, hf⟩)

/-- Under the name of a function that a definition of its name lists, and under no other,
an entry refers to what the index has for the name with parentheses. -/
theorem lookup_functions {name : Text} {e : Entry} (he : s.find? name = some e)
    (function : Text) :
    e.functions.lookup function =
      if ∃ d ∈ table, lower d.name = name ∧
          ∃ f ∈ d.functions, lower f = functionKey function
      then s.index.lookup (functionKey function) else none := by
  have hlisted :
      (∃ f ∈ listedUnder name (references table), lower f = functionKey function) ↔
      ∃ d ∈ table, lower d.name = name ∧
        ∃ f ∈ d.functions, lower f = functionKey function := by
    simp only [mem_listedUnder]
    grind
  rw [functions_of_find? h he, lookup_foldl_linkFunction
    fun f hf => resolves_of_mem_listedUnder h hf]
  simp only [hlisted, List.lookup_nil]

/-- A function that a definition lists refers to the entry that the
schema has under its name. -/
theorem exists_lookup_functions {d : Definition} (hd : d ∈ table) {e : Entry}
    (he : s.find? (lower d.name) = some e) {f : Text} (hf : f ∈ d.functions) :
    ∃ function target g, lower f = functionKey function ∧
      e.functions.lookup function = some target ∧ s.index.lookup (lower f) = some target ∧
      s.get? target = some g ∧ g.name = lower f := by
  obtain ⟨hparens, hknown⟩ :=
    resolves_of_mem_listedUnder h (mem_listedUnder.mpr ⟨d, hd, rfl, hf⟩)
  obtain ⟨target, htarget⟩ := Option.isSome_iff_exists.mp hknown
  obtain ⟨g, hg, hname⟩ := exists_get?_of_lookup htarget
  have hkey := (functionKey_dropLast hparens).symm
  refine ⟨_, target, g, hkey, ?_, htarget, hg, hname⟩
  rw [lookup_functions h he, if_pos ⟨d, hd, rfl, f, hf, hkey⟩, ← hkey, htarget]

/-- An entry refers to nothing but what the definitions of its name list. -/
theorem isSome_lookup_functions_iff {name : Text} {e : Entry} (he : s.find? name = some e)
    (function : Text) :
    (e.functions.lookup function).isSome ↔
      ∃ d ∈ table, lower d.name = name ∧
        ∃ f ∈ d.functions, lower f = functionKey function := by
  rw [lookup_functions h he]
  split
  · rename_i hlisted
    refine iff_of_true ?_ hlisted
    obtain ⟨d, hd, hname, f, hf, hkey⟩ := hlisted
    rw [← hkey]
    exact (resolves_of_mem_listedUnder h (mem_listedUnder.mpr ⟨d, hd, hname, hf⟩)).2
  · rename_i hlisted
    exact iff_of_false Bool.false_ne_true hlisted

theorem calls_of_find? {name : Text} {e : Entry} (he : s.find? name = some e) :
    s.calls e = (listedUnder name (references table)).foldl
      (fun calls f => assign (lower f).dropLast.dropLast (some (lower f)) calls) [] := by
  rw [calls, functions_of_find? h he]
  exact map_foldl_linkFunction fun f hf => resolves_of_mem_listedUnder h hf

end Accepted

/-! ## The order of definitions -/

/-- Where each name is defined at most once, the definitions of one name do not depend
on the order of the table. -/
theorem filter_name_eq_of_perm {table table' : List Definition}
    (hperm : table.Perm table') (hnodup : (table.map fun d => lower d.name).Nodup)
    (key : Text) :
    table.filter (lower ·.name = key) = table'.filter (lower ·.name = key) := by
  have hfilter := hperm.filter (lower ·.name = key)
  have hnames : ((table.filter (lower ·.name = key)).map fun d => lower d.name).Nodup :=
    hnodup.sublist (List.filter_sublist.map _)
  have hkey : ∀ d ∈ table.filter (lower ·.name = key), lower d.name = key :=
    fun d hd => of_decide_eq_true (List.mem_filter.mp hd).2
  generalize table.filter (lower ·.name = key) = ds at hfilter hnames hkey
  match ds with
  | [] => exact (List.nil_perm.mp hfilter).symm
  | [d] => exact (List.singleton_perm.mp hfilter)
  | d :: d' :: ds =>
    -- two definitions of the name have it twice
    have hsame : lower d.name = lower d'.name :=
      (hkey d (by simp)).trans (hkey d' (by simp)).symm
    simp [hsame] at hnames

theorem listedUnder_references (table : List Definition) (name : Text) :
    listedUnder name (references table) =
      (table.filter (lower ·.name = name)).flatMap Definition.functions := by
  induction table with
  | nil => rfl
  | cons d table ih =>
    rw [listedUnder, references] at ih
    rw [listedUnder, references, List.flatMap_cons, List.filter_append,
      List.map_append, ih]
    by_cases hname : lower d.name = name
    · simp [hname, List.filter_map, Function.comp_def]
    · simp [hname, List.filter_map, Function.comp_def]

theorem dangles_iff_of_perm {table table' : List Definition} (hperm : table.Perm table')
    (function : Text) : Dangles table function ↔ Dangles table' function := by
  rw [Dangles, Dangles, (hperm.map _).mem_iff]

theorem exists_error_iff_of_perm {table table' : List Definition}
    (hperm : table.Perm table') :
    (∃ cause, ofTable table = .error cause) ↔ ∃ cause, ofTable table' = .error cause := by
  simp only [exists_error_iff, hperm.mem_iff, dangles_iff_of_perm hperm]

/-- Entries of two schemas that permit the same: the same tokens and keywords, and calls
of the same functions, by entries of the same names. -/
structure Alike (s s' : Schema) (e e' : Entry) : Prop where
  name : e.name = e'.name
  permissions : e.permissions = e'.permissions
  groups : e.groups = e'.groups
  calls : s.calls e = s'.calls e'

/-- Where each name is defined at most once, schemas from the same definitions in
different orders hold the same under each name. -/
theorem alike_of_perm {table table' : List Definition} (hperm : table.Perm table')
    (hnodup : (table.map fun d => lower d.name).Nodup) {s s' : Schema}
    (h : ofTable table = .ok s) (h' : ofTable table' = .ok s') (name : Text) :
    Option.Rel (Alike s s') (s.find? name) (s'.find? name) := by
  have hfilter := filter_name_eq_of_perm hperm hnodup name
  have hlast : (table.reverse.find? fun d => lower d.name = name) =
      table'.reverse.find? fun d => lower d.name = name := by
    rw [← List.head?_filter, ← List.head?_filter, List.filter_reverse,
      List.filter_reverse, hfilter]
  have hfind := find?_ofTable h name
  have hfind' := find?_ofTable h' name
  rw [← hlast] at hfind'
  cases hd : table.reverse.find? fun d => lower d.name = name with
  | none =>
    rw [hfind, hfind', hd]
    exact .none
  | some d =>
    rw [hd, Option.map_some] at hfind hfind'
    have hcalls := calls_of_find? h hfind
    have hcalls' := calls_of_find? h' hfind'
    have hlisted : listedUnder name (references table) =
        listedUnder name (references table') := by
      rw [listedUnder_references, listedUnder_references, hfilter]
    rw [hfind, hfind']
    exact .some ⟨rfl, rfl, rfl, by rw [hcalls, hcalls', hlisted]⟩

theorem names_perm_of_perm {table table' : List Definition} (hperm : table.Perm table')
    {s s' : Schema} (h : ofTable table = .ok s) (h' : ofTable table' = .ok s') :
    s.names.Perm s'.names := by
  refine (List.perm_ext_iff_of_nodup s.names_nodup s'.names_nodup).mpr fun name => ?_
  rw [mem_map_fst_iff_lookup, mem_map_fst_iff_lookup, isSome_lookup_ofTable h,
    isSome_lookup_ofTable h', (hperm.map _).mem_iff]

/-! ## Tables -/

/-- A table is refused exactly when a definition refers to a function without parentheses
or without a definition, and it is refused for the first such reference. Otherwise each
function that a definition lists refers, in the entry under the definition's name, to the
entry that the schema has under the name with parentheses, and the entry refers to no
others. Where no two names are the same in lower case, the order of the table does not
matter. -/
theorem ofTable_resolved (table : List Definition) :
    ((∃ cause, ofTable table = .error cause) ↔
      ∃ d ∈ table, ∃ f ∈ d.functions,
        ¬ ['(', ')'] <:+ lower f ∨ lower f ∉ table.map fun d => lower d.name) ∧
    (∀ cause, ofTable table = .error cause ↔
      ∃ d f, (references table).find? (fun r => Dangles table r.2) = some (d, f) ∧
        cause = .unknownFunction d.name f) ∧
    (∀ s, ofTable table = .ok s →
      (∀ d ∈ table, ∃ owner e, s.index.lookup (lower d.name) = some owner ∧
        s.get? owner = some e ∧ ∀ f ∈ d.functions, ∃ function target g,
          lower f = functionKey function ∧ e.functions.lookup function = some target ∧
          s.index.lookup (lower f) = some target ∧ s.get? target = some g ∧
          g.name = lower f) ∧
      ∀ name e, s.find? name = some e → ∀ function, (e.functions.lookup function).isSome ↔
        ∃ d ∈ table, lower d.name = name ∧
          ∃ f ∈ d.functions, lower f = functionKey function) ∧
    ∀ table', table.Perm table' → (table.map fun d => lower d.name).Nodup →
      (∃ cause cause', ofTable table = .error cause ∧ ofTable table' = .error cause') ∨
      ∃ s s', ofTable table = .ok s ∧ ofTable table' = .ok s' ∧ s.names.Perm s'.names ∧
        ∀ name, Option.Rel (Alike s s') (s.find? name) (s'.find? name) := by
  refine ⟨exists_error_iff, fun cause => ofTable_eq_error_iff,
    fun s hs => ⟨fun d hd => ?_, ?_⟩, fun table' hperm hnodup => ?_⟩
  · have hknown := (isSome_lookup_ofTable hs).mpr (List.mem_map_of_mem hd)
    obtain ⟨owner, howner⟩ := Option.isSome_iff_exists.mp hknown
    obtain ⟨e, he, -⟩ := exists_get?_of_lookup howner
    have hfind : s.find? (lower d.name) = some e := by
      rw [find?, howner, Option.bind_some, he]
    exact ⟨owner, e, howner, he, fun f hf => exists_lookup_functions hs hd hfind hf⟩
  · exact fun name e he function => isSome_lookup_functions_iff hs he function
  · have hboth := exists_error_iff_of_perm hperm
    cases h : ofTable table with
    | error cause =>
      obtain ⟨cause', h'⟩ := hboth.mp ⟨cause, h⟩
      exact .inl ⟨cause, cause', rfl, h'⟩
    | ok s =>
      cases h' : ofTable table' with
      | error cause' =>
        obtain ⟨cause, hcause⟩ := hboth.mpr ⟨cause', h'⟩
        rw [h] at hcause
        cases hcause
      | ok s' =>
        exact .inr ⟨s, s', rfl, rfl, names_perm_of_perm hperm h h',
          alike_of_perm hperm hnodup h h'⟩

-- An entry that has lost its name to a later one is not linked, and nothing refers to it.
example : ((ofTable [⟨"calc()", .only [.quantity], [], ["Calc()"]⟩,
    ⟨"CALC()", .only [], [["+"]], []⟩]).toOption.map fun s =>
      (s.index, s.entries.map Entry.functions)) =
    some ([("calc()".toList, 1)], [[], [("calc".toList, 1)]]) := by
  decide

/-- A table with a reference to a later definition, which refers to itself. -/
def nestedLengths : List Definition :=
  [⟨"Width", .only [.quantity], [["auto"]], ["CALC()"]⟩,
    ⟨"calc()", .only [.quantity, .negativeQuantity], [], ["Calc()"]⟩]

/-- The table is accepted, its references lead where they should, and in the other order
it gives the same entries. -/
theorem ofTable_resolved_nestedLengths :
    ∃ s s', ofTable nestedLengths = .ok s ∧ ofTable nestedLengths.reverse = .ok s' ∧
      (∀ d ∈ nestedLengths, ∃ owner e, s.index.lookup (lower d.name) = some owner ∧
        s.get? owner = some e ∧ ∀ f ∈ d.functions, ∃ function target g,
          lower f = functionKey function ∧ e.functions.lookup function = some target ∧
          s.index.lookup (lower f) = some target ∧ s.get? target = some g ∧
          g.name = lower f) ∧
      ∀ name, Option.Rel (Alike s s') (s.find? name) (s'.find? name) := by
  obtain ⟨herror, -, hresolved, horder⟩ := ofTable_resolved nestedLengths
  have hdefined : ∀ d ∈ nestedLengths, ∀ f ∈ d.functions,
      ['(', ')'] <:+ lower f ∧ lower f ∈ nestedLengths.map fun d => lower d.name := by
    decide
  have haccepted : ¬ ∃ cause, ofTable nestedLengths = .error cause := by
    rw [herror]
    rintro ⟨d, hd, f, hf, hdangling⟩
    exact not_and_or.mpr hdangling (hdefined d hd f hf)
  rcases horder _ (List.reverse_perm _).symm (by decide) with
    ⟨cause, _, h, -⟩ | ⟨s, s', hs, hs', -, halike⟩
  · exact absurd ⟨cause, h⟩ haccepted
  · exact ⟨s, s', hs, hs', (hresolved s hs).1, halike⟩

end CssGuard.Schema
