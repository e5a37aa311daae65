import CssGuard.Proofs.Schema.Linking
import CssGuard.Proofs.Text.Lower
import CssGuard.Schema.Default

/-!
# Plain schemas

Where the names, keywords and functions of a schema are written in plain characters, each
of them is one token wherever it stands. The texts of a schema stand in its table, so the
table is all that has to be looked at.

- `Entry.IsPlain`: the texts of an entry are plain
- `isPlain_of_mem_defaultSchema`: the entries of the default schema are plain
-/

namespace CssGuard

open Text

/-! ## Plain texts -/

/-- The signs that stand between the parts of a value. -/
def valueSigns : List Char :=
  [',', '/', '*', '+', '-']

/-- A keyword in plain characters, or a sign. -/
def isPlainKeyword (t : Text) : Bool :=
  isPlainIdent t || valueSigns.any fun c => t = [c]

/-- The name of a function, in plain characters, that does not write a URL. -/
def isPlainFunction (f : Text) : Bool :=
  isPlainIdent f && f.map Char.toLower ≠ ['u', 'r', 'l']

/-- The name of a property, in plain characters, or the key of a function. -/
def isPlainKey (name : Text) : Bool :=
  isPlainIdent name || (List.isSuffixOf ['(', ')'] name && '"' ∉ name)

/-- The texts of an entry are plain. -/
structure Entry.IsPlain (e : Entry) : Prop where
  name : isPlainKey e.name
  literals : ∀ t ∈ e.literals, isPlainKeyword t
  functions : ∀ f ∈ e.functionNames, isPlainFunction f

/-- The texts of a definition are plain. -/
def Definition.isPlain (d : Definition) : Bool :=
  isPlainKey (lower d.name) && d.groups.flatten.all isPlainKeyword &&
    d.functions.all fun f => isPlainFunction (lower f).dropLast.dropLast

/-- Entries from plain definitions are plain. -/
theorem Schema.ComesFrom.isPlain {table : List Definition}
    (htable : ∀ d ∈ table, d.isPlain) {s : Schema} {e : Entry}
    (h : Schema.ComesFrom table s e) : e.IsPlain := by
  obtain ⟨⟨d, hd, hname, -, hgroups⟩, hfunctions⟩ := h
  obtain ⟨hd, -⟩ := Bool.and_eq_true_iff.mp (htable d hd)
  obtain ⟨hkey, hliterals⟩ := Bool.and_eq_true_iff.mp hd
  refine ⟨by rwa [hname], ?_, fun f hf => ?_⟩
  · rw [Entry.literals, hgroups]
    exact List.all_eq_true.mp hliterals
  · obtain ⟨p, hp, rfl⟩ := List.mem_map.mp hf
    obtain ⟨d', hd', f', hf', hkey, -⟩ := hfunctions p hp
    have hplain := List.all_eq_true.mp (Bool.and_eq_true_iff.mp (htable d' hd')).2 f' hf'
    rw [hkey] at hplain
    simpa [Schema.functionKey] using hplain

theorem isPlain_of_mem_defaultTable : ∀ d ∈ defaultTable, d.isPlain := by
  decide +kernel

/-- What the entries of the default schema permit comes from the default table. -/
theorem comesFrom_of_mem_defaultSchema :
    ∀ e ∈ defaultSchema.entries, Schema.ComesFrom defaultTable defaultSchema e := by
  unfold defaultSchema
  split
  · rename_i s hs
    exact Schema.comesFrom_of_mem hs
  · exact fun e he => nomatch he

/-- The entries of the default schema are plain. -/
theorem isPlain_of_mem_defaultSchema : ∀ e ∈ defaultSchema.entries, e.IsPlain :=
  fun e he => (comesFrom_of_mem_defaultSchema e he).isPlain isPlain_of_mem_defaultTable

/-! ## Entries by name -/

theorem Schema.mem_of_find? {s : Schema} {name : Text} {e : Entry}
    (h : s.find? name = some e) : e ∈ s.entries ∧ e.name = name := by
  obtain ⟨ref, href, he⟩ := Option.bind_eq_some_iff.mp h
  obtain ⟨e', he', hname⟩ := Schema.exists_get?_of_lookup href
  rw [he] at he'
  cases he'
  exact ⟨List.mem_of_getElem? he, hname⟩

theorem Schema.mem_names_of_find? {s : Schema} {name : Text} {e : Entry}
    (h : s.find? name = some e) : name ∈ s.names := by
  obtain ⟨ref, href, -⟩ := Option.bind_eq_some_iff.mp h
  exact List.mem_map.mpr ⟨_, Schema.mem_of_lookup href, rfl⟩

theorem Schema.exists_of_mem_names {s : Schema} {name : Text} (h : name ∈ s.names) :
    ∃ e ∈ s.entries, e.name = name := by
  obtain ⟨p, hp, rfl⟩ := List.mem_map.mp h
  obtain ⟨e, he, hname⟩ := Option.map_eq_some_iff.mp (s.index_valid p hp)
  exact ⟨e, List.mem_of_getElem? he, hname⟩

theorem Schema.mem_of_function? {s : Schema} {e f : Entry} {name : Text}
    (h : s.function? e name = some f) : name ∈ e.functionNames ∧ f ∈ s.entries := by
  obtain ⟨ref, href, hf⟩ := Option.bind_eq_some_iff.mp h
  exact ⟨List.mem_map.mpr ⟨_, Schema.mem_of_lookup href, rfl⟩, List.mem_of_getElem? hf⟩

/-! ## Vendor names -/

/-- A name is what a vendor put in front of it, and the rest. -/
theorem withoutVendor_cases (name : Text) :
    withoutVendor name = name ∨ ∃ mark ∈ vendorMarks,
    name = mark ++ withoutVendor name := by
  unfold withoutVendor
  split
  · rename_i mark hmark
    have hfound := List.find?_some hmark
    obtain ⟨rest, rfl⟩ := List.isPrefixOf_iff_prefix.mp hfound
    refine .inr ⟨mark, List.mem_of_find?_eq_some hmark, ?_⟩
    rw [List.drop_left]
  · exact .inl rfl

/-- A hyphen, a small letter and more characters of plain names. -/
def isPlainMark : Text → Bool
  | '-' :: c :: rest => isSmall c && rest.all isPlainNameChar
  | _ => false

theorem exists_of_mem_vendorMarks {mark : Text} (h : mark ∈ vendorMarks) :
    ∃ c rest, mark = '-' :: c :: rest ∧ isSmall c ∧ ∀ d ∈ rest, isPlainNameChar d := by
  have hall : ∀ mark ∈ vendorMarks, isPlainMark mark := by
    decide
  have hmark := hall mark h
  unfold isPlainMark at hmark
  split at hmark
  · rename_i c rest
    obtain ⟨hc, hrest⟩ := Bool.and_eq_true_iff.mp hmark
    exact ⟨c, rest, rfl, hc, List.all_eq_true.mp hrest⟩
  · cases hmark

/-- A vendor's mark in front of plain characters makes a plain name. -/
theorem isPlainIdent_vendor {mark t : Text} (hmark : mark ∈ vendorMarks)
    (ht : ∀ c ∈ t, isPlainNameChar c) : isPlainIdent (mark ++ t) := by
  obtain ⟨c, rest, rfl, hc, hrest⟩ := exists_of_mem_vendorMarks hmark
  show ((isLetter c || c = '_') && (rest ++ t).all isPlainNameChar) = true
  rw [List.all_append, List.all_eq_true.mpr hrest, List.all_eq_true.mpr ht,
    isLetter_of_isSmall hc]
  rfl

end CssGuard
