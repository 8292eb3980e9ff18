/-! Sets that remember the order in which their members arrived. The members
form a duplicate-free list; inserting one that is present changes nothing.
`missing` counts how much of a finite universe a set has yet to reach, which is
the quantity that bounds every search of this library. -/
namespace ModuleBundler

universe u

/-- Members in the order of their first insertion. -/
structure OrderedSet (α : Type u) where
  toList : List α
  nodup : toList.Nodup

namespace OrderedSet

variable {α : Type u}

def empty : OrderedSet α := ⟨[], List.nodup_nil⟩

instance : EmptyCollection (OrderedSet α) := ⟨empty⟩

instance : Inhabited (OrderedSet α) := ⟨empty⟩

instance : Membership α (OrderedSet α) := ⟨fun s a => a ∈ s.toList⟩

theorem mem_def {s : OrderedSet α} {a : α} : a ∈ s ↔ a ∈ s.toList := Iff.rfl

@[simp] theorem not_mem_empty (a : α) : a ∉ (∅ : OrderedSet α) := List.not_mem_nil

@[ext] theorem ext {s t : OrderedSet α} (same : s.toList = t.toList) : s = t := by
  cases s; cases t; simp_all

variable [DecidableEq α]

instance (a : α) (s : OrderedSet α) : Decidable (a ∈ s) :=
  inferInstanceAs (Decidable (a ∈ s.toList))

instance : DecidableEq (OrderedSet α) := fun s t =>
  decidable_of_iff (s.toList = t.toList) ⟨ext, congrArg toList⟩

/-- Appends a new member; a present one keeps its place. -/
def insert (s : OrderedSet α) (a : α) : OrderedSet α :=
  if present : a ∈ s then s
  else ⟨s.toList ++ [a], by
    have := s.nodup
    simp only [List.nodup_append, List.nodup_cons, List.not_mem_nil, not_false_eq_true,
      List.nodup_nil, and_self, List.mem_singleton, true_and]
    exact ⟨this, fun x hx y hy => by rintro rfl; exact present (hy ▸ hx)⟩⟩

def insertAll (s : OrderedSet α) (members : List α) : OrderedSet α := members.foldl insert s

def ofList (members : List α) : OrderedSet α := (∅ : OrderedSet α).insertAll members

def erase (s : OrderedSet α) (a : α) : OrderedSet α :=
  ⟨s.toList.filter (· ≠ a), s.nodup.sublist List.filter_sublist⟩

@[simp] theorem mem_insert {s : OrderedSet α} {a b : α} : b ∈ s.insert a ↔ b ∈ s ∨ b = a := by
  unfold insert
  split
  · exact ⟨Or.inl, fun h => h.elim id fun h => h ▸ ‹_›⟩
  · simp [mem_def]

@[simp] theorem mem_erase {s : OrderedSet α} {a b : α} : b ∈ s.erase a ↔ b ∈ s ∧ b ≠ a := by
  simp [erase, mem_def]

theorem mem_insertAll {s : OrderedSet α} {members : List α} {a : α} :
    a ∈ s.insertAll members ↔ a ∈ s ∨ a ∈ members := by
  induction members generalizing s with
  | nil => simp [insertAll]
  | cons first rest ih =>
    rw [insertAll, List.foldl_cons]
    change a ∈ (s.insert first).insertAll rest ↔ _
    rw [ih, mem_insert, List.mem_cons, or_assoc]

theorem toList_insert_of_mem {s : OrderedSet α} {a : α} (present : a ∈ s) :
    (s.insert a).toList = s.toList := by
  simp [insert, present]

theorem toList_insert_of_not_mem {s : OrderedSet α} {a : α} (fresh : a ∉ s) :
    (s.insert a).toList = s.toList ++ [a] := by
  simp [insert, fresh]

theorem prefix_insert (s : OrderedSet α) (a : α) : s.toList <+: (s.insert a).toList := by
  by_cases present : a ∈ s
  · simp [toList_insert_of_mem present]
  · simp [toList_insert_of_not_mem present]

theorem toList_insertAll (s : OrderedSet α) (members : List α) :
    (s.insertAll members).toList = s.toList ++ (members.removeAll s.toList).eraseDups := by
  induction members generalizing s with
  | nil => simp [insertAll, List.removeAll]
  | cons first rest ih =>
    rw [insertAll, List.foldl_cons]
    change ((s.insert first).insertAll rest).toList = _
    rw [ih]
    by_cases present : first ∈ s
    · rw [toList_insert_of_mem present, List.removeAll, List.removeAll, List.filter_cons_of_neg]
      simpa using mem_def.mp present
    · have later : rest.removeAll (s.toList ++ [first]) =
          (rest.removeAll s.toList).filter fun a => !a == first := by
        rw [List.removeAll, List.removeAll, List.filter_filter]
        refine List.filter_congr fun a _ => ?_
        by_cases same : a = first <;> simp [same]
      rw [toList_insert_of_not_mem present, later, List.removeAll, List.removeAll,
        List.filter_cons_of_pos, List.eraseDups_cons]
      · simp
      · simpa using mt mem_def.mpr present

/-- A set made of a list has its members in the order of their first places. -/
theorem toList_ofList (members : List α) : (ofList members).toList = members.eraseDups := by
  have all : members.removeAll (∅ : OrderedSet α).toList = members :=
    List.filter_eq_self.mpr fun _ _ => rfl
  rw [ofList, toList_insertAll, all]
  rfl

/-- How many places of `bound` hold something outside the set. -/
def missing (s : OrderedSet α) (bound : List α) : Nat := bound.countP (· ∉ s)

theorem missing_le_of_subset {s t : OrderedSet α} (bound : List α) (subset : ∀ a ∈ s, a ∈ t) :
    t.missing bound ≤ s.missing bound := by
  refine List.countP_mono_left fun x _ outside => ?_
  simp only [decide_eq_true_eq] at outside ⊢
  exact fun inside => outside (subset x inside)

theorem missing_insert_le (s : OrderedSet α) (bound : List α) (a : α) :
    (s.insert a).missing bound ≤ s.missing bound :=
  missing_le_of_subset bound fun _ inside => mem_insert.mpr (.inl inside)

/-- Reaching a member of the universe for the first time lowers the count. -/
theorem missing_insert_lt {s : OrderedSet α} {bound : List α} {a : α}
    (fresh : a ∉ s) (inside : a ∈ bound) : (s.insert a).missing bound < s.missing bound := by
  induction bound with
  | nil => cases inside
  | cons b rest ih =>
    have le := missing_insert_le s rest a
    unfold missing at *
    rw [List.countP_cons, List.countP_cons]
    rcases List.mem_cons.mp inside with rfl | hr
    · rw [if_neg (by simp), if_pos (by simpa using fresh)]
      exact Nat.lt_succ_of_le le
    · have head : (if decide (b ∉ s.insert a) = true then 1 else 0)
          ≤ if decide (b ∉ s) = true then 1 else 0 := by
        by_cases hb : b ∈ s <;> by_cases hab : b = a <;> simp [hb, hab]
      exact Nat.add_lt_add_of_lt_of_le (ih hr) head

end OrderedSet
end ModuleBundler
