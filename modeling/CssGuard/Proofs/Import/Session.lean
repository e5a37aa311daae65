import CssGuard.Proofs.Import.Outline
import Mathlib.Data.List.Basic

/-!
# What is known of requests

Requests are only added, and of a request that was made nothing changes but its
delivery and how much it waits for. What its sheet writes is found through its number
and the numbers of its own imports.

- `Session.records`: the requests without their counts
- `kids`: the numbers of the imports of a sheet
- `slotText_eq`: the text in place of an import, from the texts in place of those below it
-/

namespace CssGuard

/-- The records after a delivery to a request. -/
def delivering (number : Nat) (parts : List Part) (rs : List Request) : List Request :=
  rs.modify number fun r => { r with delivered := some parts }

namespace Session

/-! ## Requests without their counts -/

/-- The requests, with nothing said about what they wait for. -/
def records (s : Session) : List Request :=
  s.requests.map fun r => { r with waiting := 0 }

theorem length_records (s : Session) : s.records.length = s.requests.length :=
  List.length_map ..

theorem getElem?_records {s : Session} {n : Nat} {r : Request}
    (h : s.requests[n]? = some r) : s.records[n]? = some { r with waiting := 0 } := by
  rw [records, List.getElem?_map, h, Option.map_some]

theorem exists_of_getElem?_records {s : Session} {n : Nat} {r : Request}
    (h : s.records[n]? = some r) :
    ∃ w, s.requests[n]? = some { r with waiting := w } := by
  rw [records, List.getElem?_map, Option.map_eq_some_iff] at h
  obtain ⟨r', hr', rfl⟩ := h
  exact ⟨r'.waiting, hr'⟩

theorem records_modify (s : Session) (n : Nat) {f : Request → Request}
    {g : Request → Request}
    (hfg : ∀ r, { f r with waiting := 0 } = g { r with waiting := 0 }) :
    (s.modify n f).records = s.records.modify n g := by
  refine List.ext_getElem? fun k => ?_
  rw [records, modify, List.getElem?_map, List.getElem?_modify,
    List.getElem?_modify, records, List.getElem?_map]
  cases s.requests[k]? with
  | none => rfl
  | some r =>
    by_cases hk : n = k
    · simp [hk, hfg]
    · simp [hk]

theorem records_modify_waiting (s : Session) (n : Nat) (g : Nat → Nat) :
    (s.modify n fun r => { r with waiting := g r.waiting }).records = s.records := by
  have h := records_modify (f := fun r => { r with waiting := g r.waiting }) (g := id) s n
    fun _ => rfl
  rw [h, List.modify_id]

@[simp] theorem records_settle (number : Nat) (s : Session) :
    (settle number s).value.records = s.records := by
  fun_induction settle number s with
  | case1 number s s' => exact records_modify_waiting s number (· - 1)
  | case2 number s s' => exact records_modify_waiting s number (· - 1)
  | case3 number s s' => exact records_modify_waiting s number (· - 1)
  | case4 number s s' r hr parent _ _ _ ih =>
    exact ih.trans (records_modify_waiting s number (· - 1))
  | case5 number s s' => exact records_modify_waiting s number (· - 1)

@[simp] theorem pending_settle (number : Nat) (s : Session) :
    (settle number s).value.pending = s.pending := by
  fun_induction settle number s with
  | case4 _ _ _ _ _ _ _ _ _ ih => exact ih
  | _ => rfl

theorem records_close (s : Session) (number : Nat) (parts : List Part) :
    (s.close number parts).value.records = delivering number parts s.records := by
  rw [close, records_settle]
  exact records_modify s number fun _ => rfl

theorem records_awaitMore (s : Session) (parent : Option Nat) :
    (s.awaitMore parent).records = s.records := by
  cases parent with
  | none => rfl
  | some n => exact records_modify_waiting s n (· + 1)

theorem records_register (s : Session) (parent : Option Nat) (levels : Nat)
    (r : ImportRequest) :
    (s.register parent levels r).records =
      s.records ++ [⟨r.uri, r.media, parent, levels, none, 0⟩] := by
  rw [← records_awaitMore s parent]
  simp [register, records]

theorem length_requests_close (s : Session) (number : Nat) (parts : List Part) :
    (s.close number parts).value.requests.length = s.requests.length := by
  rw [← length_records, records_close, delivering, List.length_modify, length_records]

theorem length_requests_register (s : Session) (parent : Option Nat) (levels : Nat)
    (r : ImportRequest) :
    (s.register parent levels r).requests.length = s.requests.length + 1 := by
  rw [← length_records, records_register, List.length_append, length_records]
  rfl

end Session

/-! ## Texts in place of imports -/

theorem partsText_congr {f g : Nat → Text} {parts : List Part}
    (h : ∀ n ∈ slots parts, f n = g n) : partsText f parts = partsText g parts := by
  refine List.flatMap_congr fun part hpart => ?_
  cases part with
  | text t => rfl
  | slot n => exact h n (mem_slots.mpr hpart)

/-- The places of imports in what was delivered to a request. -/
def Request.slots (r : Request) : List Nat :=
  CssGuard.slots (r.delivered.getD [])

theorem Request.text_congr {f g : Nat → Text} {r : Request}
    (h : ∀ n ∈ r.slots, f n = g n) : r.text f = r.text g := by
  unfold Request.text
  cases hd : r.delivered with
  | none => rfl
  | some parts =>
    have hslots : ∀ n ∈ CssGuard.slots parts, f n = g n := fun n hn =>
      h n (by rwa [Request.slots, hd])
    dsimp only
    rw [partsText_congr hslots]

namespace Session

/-- A text needs only the later ones when its own imports have greater numbers. -/
theorem getElem?_textsFrom {first k : Nat} {rs : List Request} {r : Request}
    (h : rs[k]? = some r) (hslots : ∀ n ∈ r.slots, first + k < n) :
    (textsFrom first rs)[k]? =
      some (r.text fun n => (textsFrom first rs).getD (n - first) []) := by
  induction rs generalizing first k with
  | nil => cases h
  | cons r' rs ih =>
    rw [textsFrom]
    cases k with
    | zero =>
      cases h
      rw [List.getElem?_cons_zero]
      refine congrArg some (Request.text_congr fun n hn => ?_)
      obtain ⟨m, rfl⟩ := Nat.exists_eq_add_of_lt (hslots n hn)
      rw [show first + 0 + m + 1 - (first + 1) = m by omega,
        show first + 0 + m + 1 - first = m + 1 by omega, List.getD_cons_succ]
    | succ k =>
      rw [List.getElem?_cons_succ] at h ⊢
      rw [ih h fun n hn => by have := hslots n hn; omega]
      refine congrArg some (Request.text_congr fun n hn => ?_)
      obtain ⟨m, rfl⟩ := Nat.exists_eq_add_of_lt (hslots n hn)
      rw [show first + (k + 1) + m + 1 - (first + 1) = k + m + 1 by omega,
        show first + (k + 1) + m + 1 - first = k + m + 1 + 1 by
          omega, List.getD_cons_succ]

theorem textsFrom_records (s : Session) (first : Nat) :
    textsFrom first s.records = textsFrom first s.requests := by
  rw [records]
  generalize s.requests = rs
  induction rs generalizing first with
  | nil => rfl
  | cons r rs ih =>
    rw [List.map_cons, textsFrom, textsFrom, ih]
    rfl

/-- The text in place of an import, when its own imports were requested after it. -/
theorem slotText_eq {s : Session} {n : Nat} {r : Request} (h : s.records[n]? = some r)
    (hslots : ∀ k ∈ r.slots, n < k) : s.slotText n = r.text s.slotText := by
  rw [slotText, slotTexts, ← textsFrom_records, List.getD_eq_getElem?_getD,
    getElem?_textsFrom h (by simpa using hslots), Option.getD_some, textsFrom_records]
  rfl

theorem textOf_eq (s : Session) (parts : List Part) :
    s.textOf parts = partsText s.slotText parts :=
  rfl

end Session

/-! ## The imports of a sheet -/

/-- The numbers of the imports of a sheet, in order: those of the sheet of a request,
or those of the main sheet. -/
def kids (rs : List Request) (owner : Option Nat) : List Nat :=
  (List.range rs.length).filter fun n => (rs[n]?).any (·.parent = owner)

variable {rs : List Request} {owner : Option Nat}

theorem mem_kids {n : Nat} :
    n ∈ kids rs owner ↔ ∃ r, rs[n]? = some r ∧
    r.parent = owner := by
  rw [kids, List.mem_filter, List.mem_range]
  constructor
  · rintro ⟨hn, h⟩
    rw [List.getElem?_eq_getElem hn, Option.any_some] at h
    exact ⟨_, List.getElem?_eq_getElem hn, of_decide_eq_true h⟩
  · rintro ⟨r, hr, rfl⟩
    exact ⟨(List.getElem?_eq_some_iff.mp hr).1, by rw [hr]; exact decide_eq_true rfl⟩

theorem kids_append (r : Request) :
    kids (rs ++ [r]) owner =
      kids rs owner ++ if r.parent = owner then [rs.length] else [] := by
  have hold : (List.range rs.length).filter (fun n => ((rs ++ [r])[n]?).any
      (·.parent = owner)) = kids rs owner := by
    refine List.filter_congr fun n hn => ?_
    rw [List.getElem?_append_left (List.mem_range.mp hn)]
  rw [kids, List.length_append, List.length_singleton, List.range_succ,
    List.filter_append, hold]
  by_cases h : r.parent = owner <;> simp [h]

theorem kids_modify {f : Request → Request} (hf : ∀ r, (f r).parent = r.parent)
    (n : Nat) : kids (rs.modify n f) owner = kids rs owner := by
  rw [kids, List.length_modify]
  refine List.filter_congr fun k _ => ?_
  rw [List.getElem?_modify]
  cases rs[k]? with
  | none => rfl
  | some r => by_cases hk : n = k <;> simp [hk, hf]

theorem getElem?_delivering (number : Nat) (parts : List Part) (n : Nat) :
    (delivering number parts rs)[n]? =
      rs[n]?.map fun r => if number = n then { r with delivered := some parts } else r :=
  List.getElem?_modify ..

theorem kids_delivering (number : Nat) (parts : List Part) :
    kids (delivering number parts rs) owner = kids rs owner :=
  kids_modify (f := fun r => { r with delivered := some parts }) (fun _ => rfl) number

end CssGuard
