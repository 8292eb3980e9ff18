/-! Tables that keep the order in which their keys were first stored. Storing
under a present key replaces the value and leaves the key where it is; storing
under a new key appends. No key occurs twice. -/
namespace ModuleBundler

universe u v

/-- Entries in the order in which their keys were first stored. -/
structure Table (κ : Type u) (α : Type v) where
  entries : List (κ × α)
  distinct : (entries.map Prod.fst).Nodup

namespace Table

variable {κ : Type u} {α : Type v}

def empty : Table κ α := ⟨[], List.nodup_nil⟩

instance : EmptyCollection (Table κ α) := ⟨empty⟩

instance : Inhabited (Table κ α) := ⟨empty⟩

def keys (t : Table κ α) : List κ := t.entries.map Prod.fst

def values (t : Table κ α) : List α := t.entries.map Prod.snd

def size (t : Table κ α) : Nat := t.entries.length

theorem nodup_keys (t : Table κ α) : t.keys.Nodup := t.distinct

@[simp] theorem keys_empty : (∅ : Table κ α).keys = [] := rfl

@[ext] theorem ext {s t : Table κ α} (same : s.entries = t.entries) : s = t := by
  cases s; cases t; simp_all

variable [DecidableEq κ]

def get? (t : Table κ α) (key : κ) : Option α :=
  (t.entries.find? fun e => e.1 = key).map Prod.snd

def contains (t : Table κ α) (key : κ) : Bool := decide (key ∈ t.keys)

/-- Changes the value under a key, if there is one. -/
def modify (t : Table κ α) (key : κ) (change : α → α) : Table κ α where
  entries := t.entries.map fun e => if e.1 = key then (e.1, change e.2) else e
  distinct := by
    have same : (t.entries.map fun e => if e.1 = key then (e.1, change e.2) else e).map Prod.fst
        = t.entries.map Prod.fst := by
      simp only [List.map_map]
      refine List.map_congr_left fun e _ => ?_
      simp only [Function.comp_apply]
      split <;> rfl
    rw [same]
    exact t.distinct

def insert (t : Table κ α) (key : κ) (value : α) : Table κ α :=
  if present : key ∈ t.keys then t.modify key fun _ => value
  else ⟨t.entries ++ [(key, value)], by
    have := t.distinct
    simp only [List.map_append, List.map_cons, List.map_nil, List.nodup_append, List.nodup_cons,
      List.not_mem_nil, not_false_eq_true, List.nodup_nil, and_self, List.mem_singleton, true_and]
    exact ⟨this, fun x hx y hy => by rintro rfl; exact present (hy ▸ hx)⟩⟩

def insertAll (t : Table κ α) (entries : List (κ × α)) : Table κ α :=
  entries.foldl (fun t e => t.insert e.1 e.2) t

def ofList (entries : List (κ × α)) : Table κ α := (∅ : Table κ α).insertAll entries

def erase (t : Table κ α) (key : κ) : Table κ α where
  entries := t.entries.filter fun e => e.1 ≠ key
  distinct := t.distinct.sublist (List.filter_sublist.map _)

theorem keys_modify (t : Table κ α) (key : κ) (change : α → α) :
    (t.modify key change).keys = t.keys := by
  simp only [keys, modify, List.map_map]
  refine List.map_congr_left fun e _ => ?_
  simp only [Function.comp_apply]
  split <;> rfl

theorem keys_insert_of_mem {t : Table κ α} {key : κ} (present : key ∈ t.keys) (value : α) :
    (t.insert key value).keys = t.keys := by
  simp [insert, present, keys_modify]

theorem keys_insert_of_not_mem {t : Table κ α} {key : κ} (fresh : key ∉ t.keys) (value : α) :
    (t.insert key value).keys = t.keys ++ [key] := by
  rw [insert, dif_neg fresh]
  simp [keys]

theorem keys_erase (t : Table κ α) (key : κ) :
    (t.erase key).keys = t.keys.filter (· ≠ key) := by
  simp only [keys, erase, List.filter_map]
  rfl

theorem mem_keys_of_get? {t : Table κ α} {key : κ} {value : α} (found : t.get? key = some value) :
    key ∈ t.keys := by
  simp only [get?, Option.map_eq_some_iff] at found
  obtain ⟨e, he, _⟩ := found
  have key_eq := List.find?_some he
  simp only [decide_eq_true_eq] at key_eq
  exact key_eq ▸ List.mem_map_of_mem (List.mem_of_find?_eq_some he)

@[simp] theorem get?_empty (key : κ) : (∅ : Table κ α).get? key = none := rfl

/-- An entry is what the table has under its key. -/
theorem mem_entries_iff {t : Table κ α} {key : κ} {value : α} :
    (key, value) ∈ t.entries ↔ t.get? key = some value := by
  obtain ⟨entries, distinct⟩ := t
  induction entries with
  | nil => simp [get?]
  | cons e rest ih =>
    obtain ⟨once, others⟩ := List.nodup_cons.mp distinct
    have later := ih others
    simp only [get?] at later ⊢
    by_cases here : e.1 = key
    · have single : (key, value) ∉ rest := fun member =>
        once (here ▸ List.mem_map_of_mem (f := Prod.fst) member)
      rw [List.mem_cons, List.find?_cons_of_pos (by simpa using here)]
      simp [single, Prod.ext_iff, here, eq_comm]
    · rw [List.mem_cons, List.find?_cons_of_neg (by simpa using here), later]
      simp [Prod.ext_iff, Ne.symm here]

theorem mem_keys_iff_isSome {t : Table κ α} {key : κ} :
    key ∈ t.keys ↔ (t.get? key).isSome = true := by
  simp [keys, get?, List.find?_isSome]

theorem contains_iff_isSome {t : Table κ α} {key : κ} :
    t.contains key = true ↔ (t.get? key).isSome = true := by
  rw [contains, decide_eq_true_iff, mem_keys_iff_isSome]

theorem eq_empty_of_get? {t : Table κ α} (nothing : ∀ key, t.get? key = none) : t = ∅ := by
  apply ext
  apply List.eq_nil_iff_forall_not_mem.mpr
  intro e he
  have present : e.1 ∈ t.keys := List.mem_map_of_mem he
  rw [mem_keys_iff_isSome, nothing] at present
  contradiction

theorem get?_modify_self (t : Table κ α) (key : κ) (change : α → α) :
    (t.modify key change).get? key = (t.get? key).map change := by
  simp only [get?, modify, List.find?_map, Option.map_map]
  have same : ((fun e : κ × α => decide (e.1 = key)) ∘
      fun e => if e.1 = key then (e.1, change e.2) else e) = fun e => decide (e.1 = key) := by
    funext e
    simp only [Function.comp_apply]
    split <;> rfl
  rw [same]
  cases found : t.entries.find? fun e => decide (e.1 = key) with
  | none => rfl
  | some e =>
    have here : e.1 = key := by simpa using List.find?_some found
    simp [here]

theorem get?_modify_of_ne {t : Table κ α} {key other : κ} (ne : other ≠ key) (change : α → α) :
    (t.modify key change).get? other = t.get? other := by
  simp only [get?, modify, List.find?_map, Option.map_map]
  have same : ((fun e : κ × α => decide (e.1 = other)) ∘
      fun e => if e.1 = key then (e.1, change e.2) else e) = fun e => decide (e.1 = other) := by
    funext e
    simp only [Function.comp_apply]
    split <;> rfl
  rw [same]
  cases found : t.entries.find? fun e => decide (e.1 = other) with
  | none => rfl
  | some e =>
    have there : e.1 = other := by simpa using List.find?_some found
    simp [there, ne]

@[simp] theorem get?_insert_self (t : Table κ α) (key : κ) (value : α) :
    (t.insert key value).get? key = some value := by
  unfold insert
  split
  next present =>
    obtain ⟨before, found⟩ := Option.isSome_iff_exists.mp (mem_keys_iff_isSome.mp present)
    rw [get?_modify_self, found]
    rfl
  next fresh =>
    have absent : (t.entries.find? fun e => decide (e.1 = key)) = none := by
      rw [List.find?_eq_none]
      intro e he here
      exact fresh (of_decide_eq_true here ▸ List.mem_map_of_mem he)
    simp [get?, List.find?_append, absent]

theorem get?_insert_of_ne {t : Table κ α} {key other : κ} (ne : other ≠ key) (value : α) :
    (t.insert key value).get? other = t.get? other := by
  unfold insert
  split
  next => exact get?_modify_of_ne ne _
  next => simp [get?, List.find?_append, ne.symm]

theorem get?_insert (t : Table κ α) (key other : κ) (value : α) :
    (t.insert key value).get? other = if other = key then some value else t.get? other := by
  split
  next same => rw [same, get?_insert_self]
  next ne => exact get?_insert_of_ne ne value

theorem mem_keys_insert {t : Table κ α} {key other : κ} {value : α} (present : other ∈ t.keys) :
    other ∈ (t.insert key value).keys := by
  rw [mem_keys_iff_isSome] at present ⊢
  rw [get?_insert]
  split
  next => rfl
  next => exact present

/-- Of two values stored under one key, the later counts, at the place of the first. -/
theorem insert_insert (t : Table κ α) (key : κ) (first second : α) :
    (t.insert key first).insert key second = t.insert key second := by
  have stored : key ∈ (t.insert key first).keys :=
    mem_keys_iff_isSome.mpr (by rw [get?_insert_self]; rfl)
  apply ext
  rw [insert, dif_pos stored]
  by_cases present : key ∈ t.keys
  · rw [insert, dif_pos present, insert, dif_pos present]
    simp only [modify, List.map_map]
    refine List.map_congr_left fun e _ => ?_
    by_cases here : e.1 = key <;> simp [here]
  · rw [insert, dif_neg present, insert, dif_neg present]
    have others : ∀ e ∈ t.entries, (if e.1 = key then (e.1, second) else e) = e := by
      intro e member
      have other : e.1 ≠ key := fun here => present (here ▸ List.mem_map_of_mem member)
      rw [if_neg other]
    simp only [modify, List.map_append, List.map_cons, List.map_nil, if_pos]
    rw [List.map_congr_left others, List.map_id']

/-- Storing all entries of a table covers what was there under their keys, and nothing else. -/
theorem get?_insertAll (t s : Table κ α) (key : κ) :
    (t.insertAll s.entries).get? key = (s.get? key).or (t.get? key) := by
  obtain ⟨entries, distinct⟩ := s
  induction entries generalizing t with
  | nil => rfl
  | cons e rest ih =>
    obtain ⟨once, others⟩ := List.nodup_cons.mp distinct
    change ((t.insert e.1 e.2).insertAll rest).get? key = _
    rw [ih _ others, get?_insert]
    by_cases here : key = e.1
    · subst here
      have absent : (rest.find? fun other => decide (other.1 = e.1)) = none := by
        rw [List.find?_eq_none]
        intro other member same
        exact once (of_decide_eq_true same ▸ List.mem_map_of_mem member)
      simp [get?, absent]
    · simp [get?, here, Ne.symm here]

@[simp] theorem get?_erase_self (t : Table κ α) (key : κ) : (t.erase key).get? key = none := by
  simp [get?, erase, List.find?_filter]

theorem get?_erase_of_ne {t : Table κ α} {key other : κ} (ne : other ≠ key) :
    (t.erase key).get? other = t.get? other := by
  simp only [get?, erase, List.find?_filter]
  congr 2
  funext e
  by_cases here : e.1 = other <;> simp [here, ne]

end Table
end ModuleBundler
