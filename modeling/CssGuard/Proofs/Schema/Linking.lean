import CssGuard.Schema.Basic

/-!
# Linking a schema

A schema is built in two passes over its table. The first one makes the entries, and the
second one links each of them to the entries of its functions. What is found under a name
changes with each step of a pass in a way that one lemma says, and what a whole pass does
follows by induction over the table.

- `find?_declare`, `find?_foldl_declare`: one step of the first pass, and all of it
- `resolve_eq`: one step of the second pass
- `ofTable_eq`: both passes, with the first reference that cannot be linked
- `find?_foldl_linkTo`: what the second pass adds to the entry under a name
- `comesFrom_of_mem`: what the entries of a schema permit comes from its table
-/

namespace CssGuard.Schema

open Text

/-! ## Values under names -/

theorem lookup_assign {α : Type} (name : Text) (value : α) (list : List (Text × α))
    (key : Text) :
    (assign name value list).lookup key =
      if name = key then some value else list.lookup key := by
  fun_induction assign name value list with grind

theorem mem_map_fst_iff_lookup {α : Type} {list : List (Text × α)} {key : Text} :
    key ∈ list.map Prod.fst ↔ (list.lookup key).isSome := by
  induction list with
  | nil => simp
  | cons p list ih => grind

theorem mem_of_lookup {α : Type} {list : List (Text × α)} {key : Text} {value : α}
    (h : list.lookup key = some value) : (key, value) ∈ list := by
  induction list with
  | nil => cases h
  | cons p list ih => grind

/-- To assign values and to map them is the same in either order. -/
theorem map_assign {α β : Type} (f : α → β) (name : Text) (value : α)
    (list : List (Text × α)) :
    (assign name value list).map (Prod.map id f) =
      assign name (f value) (list.map (Prod.map id f)) := by
  fun_induction assign name value list with grind [assign]

/-! ## The index -/

/-- A name of the index refers to an entry of this name. -/
theorem exists_get?_of_lookup {s : Schema} {name : Text} {ref : EntryRef}
    (h : s.index.lookup name = some ref) : ∃ e, s.get? ref = some e ∧ e.name = name :=
  Option.map_eq_some_iff.mp (s.index_valid _ (mem_of_lookup h))

theorem isSome_find? {s : Schema} {name : Text} :
    (s.find? name).isSome = (s.index.lookup name).isSome := by
  unfold find?
  cases h : s.index.lookup name with
  | none => rfl
  | some ref =>
    obtain ⟨e, he, -⟩ := exists_get?_of_lookup h
    rw [Option.bind_some, he]
    rfl

/-- Two names never refer to one entry. -/
theorem lookup_inj {s : Schema} {name name' : Text} {ref : EntryRef}
    (h : s.index.lookup name = some ref) (h' : s.index.lookup name' = some ref) :
    name = name' := by
  obtain ⟨e, he, hname⟩ := exists_get?_of_lookup h
  obtain ⟨e', he', hname'⟩ := exists_get?_of_lookup h'
  rw [he] at he'
  cases he'
  rw [← hname, hname']

/-! ## The first pass -/

/-- An entry is found under its own name, and under another name what was there before. -/
theorem find?_declare (s : Schema) (d : Definition) (name : Text) :
    (s.declare d).find? name =
      if lower d.name = name then some d.entry else s.find? name := by
  have hlookup : (s.declare d).index.lookup name =
      if lower d.name = name then some s.entries.length else s.index.lookup name :=
    lookup_assign ..
  rw [find?, find?, hlookup]
  split
  · exact List.getElem?_concat_length
  · cases h : s.index.lookup name with
    | none => rfl
    | some ref =>
      obtain ⟨e, he, -⟩ := exists_get?_of_lookup h
      exact List.getElem?_append_left (List.getElem?_eq_some_iff.mp he).1

/-- Of all entries that are made under a name the last one is found. -/
theorem find?_foldl_declare (name : Text) (table : List Definition) : ∀ s : Schema,
    (table.foldl declare s).find? name =
      ((table.reverse.find? fun d => lower d.name = name).map Definition.entry).or
        (s.find? name) := by
  induction table with
  | nil => exact fun _ => rfl
  | cons d table ih =>
    intro s
    rw [List.foldl_cons, ih, find?_declare, List.reverse_cons, List.find?_append,
      List.find?_singleton]
    cases table.reverse.find? fun d => lower d.name = name with
    | some d' => rfl
    | none =>
      by_cases hname : lower d.name = name
      · simp [hname]
      · simp [hname]

/-- The schema after the first pass. -/
def declared (table : List Definition) : Schema :=
  table.foldl declare empty

theorem find?_declared (table : List Definition) (name : Text) :
    (declared table).find? name =
    (table.reverse.find? fun d => lower d.name = name).map Definition.entry :=
  (find?_foldl_declare name table empty).trans (Option.or_none ..)

/-- The names that are known after the first pass are those that are
defined, wherever in the table. -/
theorem isSome_lookup_declared {table : List Definition} {name : Text} :
    ((declared table).index.lookup name).isSome ↔
      name ∈ table.map fun d => lower d.name := by
  rw [← isSome_find?, find?_declared, Option.isSome_map, List.find?_isSome]
  simp [List.mem_map]

/-! ## The second pass -/

/-- A function can be linked: it is listed with its parentheses, and its name is known. -/
def Resolves (s : Schema) (function : Text) : Prop :=
  ['(', ')'] <:+ lower function ∧ (s.index.lookup (lower function)).isSome

instance (s : Schema) (function : Text) : Decidable (s.Resolves function) :=
  inferInstanceAs (Decidable (_ ∧ _))

/-- The references of a table, each with the definition that makes it, in order. -/
def references (table : List Definition) : List (Definition × Text) :=
  table.flatMap fun d => d.functions.map (d, ·)

theorem mem_references {table : List Definition} {d : Definition} {f : Text} :
    (d, f) ∈ references table ↔ d ∈ table ∧ f ∈ d.functions := by
  simp [references]

/-- The references of an entry, with the one for a function as the
index has it for its name. -/
def linkFunction (index : List (Text × EntryRef)) (functions : List (Text × EntryRef))
    (function : Text) : List (Text × EntryRef) :=
  match index.lookup (lower function) with
  | none => functions
  | some target => assign (lower function).dropLast.dropLast target functions

/-- Links the entry under a definition's name to the entry
under the name of a function. -/
def linkTo (s : Schema) (r : Definition × Text) : Schema :=
  match s.index.lookup (lower r.1.name), s.index.lookup (lower r.2) with
  | some owner, some target => s.link owner (lower r.2).dropLast.dropLast target
  | _, _ => s

theorem index_linkTo (s : Schema) (r : Definition × Text) :
    (s.linkTo r).index = s.index := by
  unfold linkTo
  split <;> rfl

theorem index_foldl_linkTo (refs : List (Definition × Text)) :
    ∀ s : Schema, (refs.foldl linkTo s).index = s.index := by
  induction refs with
  | nil => exact fun _ => rfl
  | cons r refs ih => exact fun s => (ih _).trans (index_linkTo s r)

theorem resolves_linkTo {s : Schema} {r : Definition × Text} {function : Text} :
    (s.linkTo r).Resolves function ↔ s.Resolves function := by
  rw [Resolves, Resolves, index_linkTo]

/-- Links a reference, or refuses the definition and the function. -/
def linkOrRefuse (s : Schema) (r : Definition × Text) : Except Misuse Schema :=
  if s.Resolves r.2 then .ok (s.linkTo r) else .error (.unknownFunction r.1.name r.2)

theorem resolve_eq {s : Schema} {d : Definition} {owner : EntryRef}
    (howner : s.index.lookup (lower d.name) = some owner) (function : Text) :
    resolve d owner s function = s.linkOrRefuse (d, function) := by
  unfold resolve linkOrRefuse Resolves linkTo
  simp only [howner]
  cases s.index.lookup (lower function) with
  | none => simp
  | some target => simp [List.isSuffixOf_iff_suffix]

theorem foldlM_resolve {d : Definition} {owner : EntryRef} (functions : List Text) :
    ∀ {s : Schema}, s.index.lookup (lower d.name) = some owner →
      functions.foldlM (resolve d owner) s =
        (functions.map (d, ·)).foldlM linkOrRefuse s := by
  induction functions with
  | nil => exact fun _ => rfl
  | cons function functions ih =>
    intro s howner
    rw [List.map_cons, List.foldlM_cons, List.foldlM_cons, resolve_eq howner,
      linkOrRefuse]
    split
    · exact ih (by rw [index_linkTo, howner])
    · rfl

/-- A run over references links all of them, or refuses the first
one that does not resolve. -/
theorem foldlM_linkOrRefuse (refs : List (Definition × Text)) : ∀ s : Schema,
    refs.foldlM linkOrRefuse s =
      match refs.find? fun r => ¬ s.Resolves r.2 with
      | some r => .error (.unknownFunction r.1.name r.2)
      | none => .ok (refs.foldl linkTo s) := by
  induction refs with
  | nil => exact fun _ => rfl
  | cons r refs ih =>
    intro s
    rw [List.foldlM_cons, linkOrRefuse, List.find?_cons]
    by_cases hresolves : s.Resolves r.2
    · -- what resolves is the same after a link, since the index is
      rw [if_pos hresolves]
      refine (ih (s.linkTo r)).trans ?_
      simp only [resolves_linkTo, hresolves, not_true_eq_false, decide_false,
        List.foldl_cons]
    · simp only [hresolves, not_false_eq_true, decide_true]
      rfl

/-- A run over references that refuses none of them has linked them all. -/
theorem linked_of_foldlM {refs : List (Definition × Text)} {s s' : Schema}
    (h : refs.foldlM linkOrRefuse s = .ok s') :
    (∀ r ∈ refs, s.Resolves r.2) ∧ s' = refs.foldl linkTo s := by
  rw [foldlM_linkOrRefuse] at h
  split at h
  · cases h
  · rename_i hnone
    refine ⟨fun r hr => ?_, (Except.ok.inj h).symm⟩
    simpa using List.find?_eq_none.mp hnone r hr

/-- One definition after the other is one reference after the other. -/
theorem foldlM_resolveAll (table : List Definition) :
    ∀ {s : Schema}, (∀ d ∈ table, (s.index.lookup (lower d.name)).isSome) →
      table.foldlM resolveAll s = (references table).foldlM linkOrRefuse s := by
  induction table with
  | nil => exact fun _ => rfl
  | cons d table ih =>
    intro s hnames
    obtain ⟨owner, howner⟩ :=
      Option.isSome_iff_exists.mp (hnames d (List.mem_cons_self ..))
    have hresolve : resolveAll s d = (d.functions.map (d, ·)).foldlM linkOrRefuse s := by
      rw [← foldlM_resolve d.functions howner, resolveAll]
      simp only [Definition.entry, howner]
    rw [List.foldlM_cons, hresolve, references, List.flatMap_cons, List.foldlM_append]
    cases h : (d.functions.map (d, ·)).foldlM linkOrRefuse s with
    | error cause => rfl
    | ok s' =>
      refine ih fun d' hd' => ?_
      rw [(linked_of_foldlM h).2, index_foldl_linkTo]
      exact hnames d' (List.mem_cons_of_mem _ hd')

/-- After the first pass, the references of the table are taken one after the other. -/
theorem ofTable_eq_foldlM (table : List Definition) :
    ofTable table = (references table).foldlM linkOrRefuse (declared table) :=
  foldlM_resolveAll table fun _ hd => isSome_lookup_declared.mpr (List.mem_map_of_mem hd)

/-- A table is refused for its first reference that does not resolve after the first pass.
If there is none, all references are linked. -/
theorem ofTable_eq (table : List Definition) :
    ofTable table =
      match (references table).find? fun r => ¬ (declared table).Resolves r.2 with
      | some r => .error (.unknownFunction r.1.name r.2)
      | none => .ok ((references table).foldl linkTo (declared table)) :=
  (ofTable_eq_foldlM table).trans (foldlM_linkOrRefuse ..)

/-- A table that is accepted has all its references linked. -/
theorem linked_of_ofTable {table : List Definition} {s : Schema}
    (h : ofTable table = .ok s) :
    (∀ r ∈ references table, (declared table).Resolves r.2) ∧
      s = (references table).foldl linkTo (declared table) :=
  linked_of_foldlM ((ofTable_eq_foldlM table).symm.trans h)

/-! ## Linked entries -/

/-- A reference is added to the entry under the name of the definition that
makes it, and to no other. -/
theorem find?_linkTo (s : Schema) (r : Definition × Text) (name : Text) :
    (s.linkTo r).find? name = (s.find? name).map fun e =>
      if lower r.1.name = name then
        { e with functions := linkFunction s.index e.functions r.2 } else e := by
  unfold linkTo linkFunction
  cases howner : s.index.lookup (lower r.1.name) with
  | none =>
    have hnone : lower r.1.name = name → s.find? name = none := by
      rintro rfl
      rw [find?, howner, Option.bind_none]
    by_cases hname : lower r.1.name = name
    · simp [hnone hname]
    · simp [hname]
  | some owner =>
    cases htarget : s.index.lookup (lower r.2) with
    | none => simp
    | some target =>
      show
        ((s.link owner _ target).index.lookup name).bind (s.link owner _ target).get? = _
      rw [find?]
      show (s.index.lookup name).bind _ = _
      cases hname : s.index.lookup name with
      | none => rfl
      | some ref =>
        have howned : owner = ref ↔ lower r.1.name = name := by
          constructor
          · rintro rfl
            exact lookup_inj howner hname
          · rintro rfl
            rw [howner] at hname
            exact Option.some.inj hname
        show (s.entries.modify owner _)[ref]? = s.entries[ref]?.map _
        rw [List.getElem?_modify]
        simp only [howned]
        rfl

/-- The functions that the definitions of a name refer to. -/
def listedUnder (name : Text) (refs : List (Definition × Text)) : List Text :=
  (refs.filter fun r => lower r.1.name = name).map Prod.snd

/-- The second pass adds to the entry under a name what the definitions
of the name list, in order. -/
theorem find?_foldl_linkTo (name : Text) (refs : List (Definition × Text)) : ∀ s : Schema,
    (refs.foldl linkTo s).find? name = (s.find? name).map fun e =>
      { e with functions :=
          (listedUnder name refs).foldl (linkFunction s.index) e.functions } := by
  induction refs with
  | nil =>
    intro s
    exact Option.map_id'.symm
  | cons r refs ih =>
    intro s
    rw [List.foldl_cons, ih, find?_linkTo, Option.map_map, index_linkTo]
    congr 1
    funext e
    by_cases hname : lower r.1.name = name
    · simp [hname, listedUnder]
    · simp [hname, listedUnder]

/-! ## Origins in the table -/

/-- What an entry of a schema permits comes from a table: all but the
functions from one definition, and each function from some definition, with
the entry of this name in the schema. -/
structure ComesFrom (table : List Definition) (s : Schema) (e : Entry) : Prop where
  definition : ∃ d ∈ table, e.name = lower d.name ∧ e.permissions = d.permissions ∧
    e.groups = d.groups
  functions : ∀ p ∈ e.functions, ∃ d ∈ table, ∃ f ∈ d.functions,
    lower f = functionKey p.1 ∧ (s.get? p.2).map Entry.name = some (lower f)

/-- A name with parentheses is the key of the function without them. -/
theorem functionKey_dropLast {key : Text} (h : ['(', ')'] <:+ key) :
    functionKey key.dropLast.dropLast = key := by
  obtain ⟨bare, rfl⟩ := h
  simp [functionKey]

theorem mem_entries_link {s : Schema} {owner target : EntryRef}
    {function : Text} {e : Entry} (h : e ∈ (s.link owner function target).entries) :
    ∃ e₀ ∈ s.entries, e.name = e₀.name ∧ e.permissions = e₀.permissions ∧
      e.groups = e₀.groups ∧
      ∀ p ∈ e.functions, p = (function, target) ∨ p ∈ e₀.functions := by
  obtain ⟨ref, href⟩ := List.mem_iff_getElem?.mp h
  replace href : (s.entries.modify owner _)[ref]? = some e := href
  rw [List.getElem?_modify] at href
  obtain ⟨e₀, he₀, rfl⟩ := Option.map_eq_some_iff.mp href
  refine ⟨e₀, List.mem_of_getElem? he₀, ?_⟩
  split
  · exact ⟨rfl, rfl, rfl, fun p hp => mem_assign hp⟩
  · exact ⟨rfl, rfl, rfl, fun p hp => .inr hp⟩

theorem comesFrom_linkTo {table : List Definition} {s : Schema} {r : Definition × Text}
    (hr : r ∈ references table) (hresolves : s.Resolves r.2)
    (h : ∀ e ∈ s.entries, ComesFrom table s e) :
    ∀ e ∈ (s.linkTo r).entries, ComesFrom table (s.linkTo r) e := by
  unfold linkTo
  split
  · rename_i owner target _ htarget
    intro e he
    obtain ⟨e₀, he₀, hname, hpermissions, hgroups, hfunctions⟩ := mem_entries_link he
    obtain ⟨hdefinition, hold⟩ := h e₀ he₀
    refine ⟨by rwa [hname, hpermissions, hgroups], fun p hp => ?_⟩
    rw [show ((s.link _ _ _).get? p.2).map Entry.name = (s.get? p.2).map Entry.name from
      map_name_modify ..]
    rcases hfunctions p hp with rfl | hp
    · obtain ⟨hd, hf⟩ := mem_references.mp hr
      obtain ⟨g, hg, hkey⟩ := exists_get?_of_lookup htarget
      refine ⟨r.1, hd, r.2, hf, (functionKey_dropLast hresolves.1).symm, ?_⟩
      rw [hg, Option.map_some, hkey]
    · exact hold p hp
  · exact h

theorem comesFrom_foldl_linkTo {table : List Definition}
    {refs : List (Definition × Text)} :
    ∀ {s : Schema}, (∀ r ∈ refs, r ∈ references table ∧ s.Resolves r.2) →
      (∀ e ∈ s.entries, ComesFrom table s e) →
      ∀ e ∈ (refs.foldl linkTo s).entries, ComesFrom table (refs.foldl linkTo s) e := by
  induction refs with
  | nil => exact fun _ h => h
  | cons r refs ih =>
    intro s hrefs h
    obtain ⟨⟨hr, hresolves⟩, hrefs⟩ := List.forall_mem_cons.mp hrefs
    refine ih (fun r' hr' => (hrefs r' hr').imp_right resolves_linkTo.mpr) ?_
    exact comesFrom_linkTo hr hresolves h

theorem entries_foldl_declare (table : List Definition) : ∀ s : Schema,
    (table.foldl declare s).entries = s.entries ++ table.map Definition.entry := by
  induction table with
  | nil => exact fun s => (List.append_nil s.entries).symm
  | cons d table ih =>
    intro s
    rw [List.foldl_cons, ih, List.map_cons]
    exact List.append_assoc ..

/-- What the entries of a schema permit comes from its table. -/
theorem comesFrom_of_mem {table : List Definition} {s : Schema}
    (h : ofTable table = .ok s) : ∀ e ∈ s.entries, ComesFrom table s e := by
  obtain ⟨hresolves, rfl⟩ := linked_of_ofTable h
  refine comesFrom_foldl_linkTo (fun r hr => ⟨hr, hresolves r hr⟩) fun e he => ?_
  rw [declared, entries_foldl_declare] at he
  obtain ⟨d, hd, rfl⟩ := List.mem_map.mp he
  exact ⟨⟨d, hd, rfl, rfl, rfl⟩, fun p hp => nomatch hp⟩

/-- The entry of a function comes from a definition of its name. -/
theorem exists_of_function? {table : List Definition} {s : Schema}
    (h : ∀ e ∈ s.entries, ComesFrom table s e) {e f : Entry} (he : e ∈ s.entries)
    {name : Text} (hf : s.function? e name = some f) :
    ∃ d ∈ table, lower d.name = functionKey name ∧ f.permissions = d.permissions := by
  obtain ⟨ref, href, hget⟩ := Option.bind_eq_some_iff.mp hf
  obtain ⟨-, -, function, -, hkey, hname⟩ := (h e he).functions _ (mem_of_lookup href)
  obtain ⟨⟨d, hd, hfname, hpermissions, -⟩, -⟩ := h f (List.mem_of_getElem? hget)
  refine ⟨d, hd, ?_, hpermissions⟩
  rw [hget, Option.map_some, hkey] at hname
  rw [← hfname, Option.some.inj hname]

end CssGuard.Schema
