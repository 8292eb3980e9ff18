import Mathlib.Data.List.Nodup
import ModuleBundler.Graph.Validity

/-! Graphs as two lists. A diagram is a list of modules and a list of edges, each
without repetitions, in the order in which they came; the four tables of a graph are
read off from it. Every operation that changes a graph is an operation on the two
lists: modules and edges are appended or struck out, and nothing else happens. -/
namespace ModuleBundler

namespace Table

universe u v

variable {κ : Type u} {α : Type v}

/-- The table of a function on some keys. -/
def tabulate (keys : List κ) (distinct : keys.Nodup) (f : κ → α) : Table κ α :=
  ⟨keys.map fun key => (key, f key), by simpa [Function.comp_def] using distinct⟩

variable {keys : List κ} {distinct : keys.Nodup} {f g : κ → α}

@[simp] theorem keys_tabulate : (tabulate keys distinct f).keys = keys := by
  simp [Table.keys, tabulate, Function.comp_def]

theorem tabulate_congr {others : List κ} {distinct' : others.Nodup} (same : keys = others)
    (agree : ∀ key ∈ keys, f key = g key) :
    tabulate keys distinct f = tabulate others distinct' g := by
  subst same
  apply ext
  simpa [tabulate] using agree

variable [DecidableEq κ] {key : κ}

theorem get?_tabulate : (tabulate keys distinct f).get? key =
    if key ∈ keys then some (f key) else none := by
  have search : ((keys.map fun k => (k, f k)).find? fun e => e.1 = key) =
      (keys.find? (· = key)).map fun k => (k, f k) := by
    rw [List.find?_map]
    rfl
  rw [get?, tabulate, search, Option.map_map]
  split
  next present =>
    have found : (keys.find? (· = key)).isSome = true :=
      List.find?_isSome.mpr ⟨key, present, decide_eq_true rfl⟩
    obtain ⟨other, here⟩ := Option.isSome_iff_exists.mp found
    have met := List.find?_some here
    have same : other = key := of_decide_eq_true met
    rw [here, same]
    rfl
  next absent =>
    have none : keys.find? (· = key) = none := by
      rw [List.find?_eq_none]
      rintro k member same
      exact absent (of_decide_eq_true same ▸ member)
    simp [none]

theorem modify_tabulate (change : α → α) : (tabulate keys distinct f).modify key change =
    tabulate keys distinct fun k => if k = key then change (f k) else f k := by
  apply ext
  simp only [modify, tabulate, List.map_map]
  refine List.map_congr_left fun k _ => ?_
  simp only [Function.comp_apply]
  split <;> rfl

/-- One change under several keys, if making it twice is making it once. -/
theorem foldl_modify_tabulate {change : α → α} (idem : ∀ a, change (change a) = change a)
    (marked : List κ) : marked.foldl (fun t k => t.modify k change) (tabulate keys distinct f) =
      tabulate keys distinct fun k => if k ∈ marked then change (f k) else f k := by
  induction marked generalizing f with
  | nil => simp
  | cons first rest ih =>
    rw [List.foldl_cons, modify_tabulate, ih]
    refine tabulate_congr rfl fun k _ => ?_
    by_cases here : k = first <;> by_cases later : k ∈ rest <;> simp [here, later, idem]

theorem insert_tabulate (fresh : key ∉ keys) (a : α) (distinct' : (keys ++ [key]).Nodup) :
    (tabulate keys distinct f).insert key a =
      tabulate (keys ++ [key]) distinct' fun k => if k = key then a else f k := by
  apply ext
  rw [insert, dif_neg (by simpa using fresh)]
  simp only [tabulate, List.map_append, List.map_cons, List.map_nil, if_pos]
  congr 1
  refine List.map_congr_left fun k member => ?_
  have other : k ≠ key := fun same => fresh (same ▸ member)
  rw [if_neg other]

theorem erase_tabulate (distinct' : (keys.filter (· ≠ key)).Nodup) :
    (tabulate keys distinct f).erase key = tabulate (keys.filter (· ≠ key)) distinct' f := by
  apply ext
  simp only [erase, tabulate, List.filter_map]
  rfl

end Table

namespace Graph

/-- What one module depends on, by the ids of both. -/
abbrev Edge := String × String

/-- The end of an edge that an index files it under. -/
def Index.near : Index → Edge → String
  | outgoing, e => e.1
  | incoming, e => e.2

/-- The end of an edge that an index lists. -/
def Index.far : Index → Edge → String
  | outgoing, e => e.2
  | incoming, e => e.1

def Index.other : Index → Index
  | outgoing => incoming
  | incoming => outgoing

theorem Index.eq_of_ends {i : Index} {d e : Edge} (near : i.near d = i.near e)
    (far : i.far d = i.far e) : d = e := by
  cases i with
  | outgoing => exact Prod.ext near far
  | incoming => exact Prod.ext far near

theorem Index.apart_iff (i : Index) {e : Edge} {id : String} :
    e.1 ≠ id ∧ e.2 ≠ id ↔ i.near e ≠ id ∧ i.far e ≠ id := by
  cases i with
  | outgoing => rfl
  | incoming => exact and_comm

/-- Modules and edges in the order in which they came. -/
structure Diagram where
  modules : List Module
  edges : List Edge
  distinct : (modules.map Module.id).Nodup
  simple : edges.Nodup
  closed : ∀ e ∈ edges, e.1 ∈ modules.map Module.id ∧ e.2 ∈ modules.map Module.id

namespace Diagram

variable (d : Diagram)

def ids : List String := d.modules.map Module.id

theorem nodup_ids : d.ids.Nodup := d.distinct

/-- The far ends of the edges that an index files under a module, in the order of the edges. -/
def row (i : Index) (id : String) : OrderedSet String where
  toList := (d.edges.filter fun e => i.near e = id).map i.far
  nodup := by
    refine List.Nodup.map_on ?_ (d.simple.filter _)
    intro a ha b hb same
    have nearA : i.near a = id := of_decide_eq_true (List.mem_filter.mp ha).2
    have nearB : i.near b = id := of_decide_eq_true (List.mem_filter.mp hb).2
    exact Index.eq_of_ends (nearA.trans nearB.symm) same

def rows (i : Index) : Table String (OrderedSet String) := .tabulate d.ids d.nodup_ids (d.row i)

def entryPoints : OrderedSet String :=
  ⟨(d.modules.filter (·.isEntry)).map Module.id, d.distinct.sublist (List.filter_sublist.map _)⟩

/-- The four tables of the graph that has these modules and edges. -/
def toGraph : Graph where
  nodes := ⟨d.modules.map fun m => (m.id, m), by simpa [Function.comp_def] using d.distinct⟩
  outgoing := d.rows .outgoing
  incoming := d.rows .incoming
  entries := d.entryPoints

def empty : Diagram := ⟨[], [], List.nodup_nil, List.nodup_nil, by simp⟩

/-- Appends a new module. -/
def add (m : Module) (fresh : m.id ∉ d.ids) : Diagram where
  modules := d.modules ++ [m]
  edges := d.edges
  distinct := by
    rw [List.map_append]
    exact d.distinct.append (List.nodup_singleton _) (by simpa [ids] using fresh)
  simple := d.simple
  closed e member := by
    obtain ⟨source, target⟩ := d.closed e member
    rw [List.map_append]
    exact ⟨List.mem_append_left _ source, List.mem_append_left _ target⟩

/-- Appends an edge, unless it is there. -/
def connect (e : Edge) (known : e.1 ∈ d.ids ∧ e.2 ∈ d.ids) : Diagram where
  modules := d.modules
  edges := if e ∈ d.edges then d.edges else d.edges ++ [e]
  distinct := d.distinct
  simple := by
    split
    · exact d.simple
    next fresh => exact d.simple.append (List.nodup_singleton _) (by simpa using fresh)
  closed other member := by
    split at member
    · exact d.closed other member
    · rcases List.mem_append.mp member with old | new
      · exact d.closed other old
      · rw [List.mem_singleton.mp new]
        exact known

/-- Strikes out a module and the edges that touch it. -/
def remove (id : String) : Diagram where
  modules := d.modules.filter (·.id ≠ id)
  edges := d.edges.filter fun e => e.1 ≠ id ∧ e.2 ≠ id
  distinct := d.distinct.sublist (List.filter_sublist.map _)
  simple := d.simple.filter _
  closed e member := by
    obtain ⟨old, apart⟩ := List.mem_filter.mp member
    obtain ⟨source, target⟩ := d.closed e old
    simp only [decide_eq_true_eq] at apart
    have stays : ∀ other ∈ d.modules.map Module.id, other ≠ id →
        other ∈ (d.modules.filter (·.id ≠ id)).map Module.id := by
      simp only [List.mem_map, List.mem_filter]
      rintro _ ⟨m, member, rfl⟩ ne
      exact ⟨m, ⟨member, by simpa using ne⟩, rfl⟩
    exact ⟨stays _ source apart.1, stays _ target apart.2⟩

variable {d} {i : Index} {id other : String} {e : Edge}

theorem ids_remove : (d.remove id).ids = d.ids.filter (· ≠ id) := by
  simp only [ids, remove, List.filter_map]
  rfl

theorem near_mem_ids (member : e ∈ d.edges) (i : Index) : i.near e ∈ d.ids := by
  cases i with
  | outgoing => exact (d.closed e member).1
  | incoming => exact (d.closed e member).2

section Rows

theorem mem_row : other ∈ d.row i id ↔ ∃ e ∈ d.edges, i.near e = id ∧ i.far e = other := by
  simp [OrderedSet.mem_def, row, and_assoc]

theorem mem_row_near : i.far e ∈ d.row i (i.near e) ↔ e ∈ d.edges := by
  rw [mem_row]
  constructor
  · rintro ⟨f, member, near, far⟩
    exact Index.eq_of_ends near far ▸ member
  · exact fun member => ⟨e, member, rfl, rfl⟩

theorem mem_row_other : other ∈ d.row i.other id ↔ id ∈ d.row i other := by
  cases i <;> simp only [mem_row, Index.other, Index.near, Index.far] <;>
    exact exists_congr fun e => and_congr_right fun _ => and_comm

theorem row_eq_empty (unknown : id ∉ d.ids) : d.row i id = ∅ := by
  apply OrderedSet.ext
  apply List.eq_nil_iff_forall_not_mem.mpr
  intro other member
  obtain ⟨e, known, rfl, -⟩ := mem_row.mp member
  exact unknown (near_mem_ids known i)

/-- An edge adds its far end to the row of its near end, and changes no other row. -/
theorem row_connect (known : e.1 ∈ d.ids ∧ e.2 ∈ d.ids) : (d.connect e known).row i id =
    if id = i.near e then (d.row i id).insert (i.far e) else d.row i id := by
  apply OrderedSet.ext
  by_cases old : e ∈ d.edges
  · have same : ((d.connect e known).row i id).toList = (d.row i id).toList := by
      simp only [row, connect, if_pos old]
    rw [same]
    split
    next here =>
      subst here
      rw [OrderedSet.toList_insert_of_mem (mem_row_near.mpr old)]
    next => rfl
  · have grown : ((d.connect e known).row i id).toList =
        (d.row i id).toList ++ if i.near e = id then [i.far e] else [] := by
      simp only [row, connect, if_neg old, List.filter_append, List.map_append, List.filter_cons,
        List.filter_nil]
      by_cases here : i.near e = id <;> simp [here]
    rw [grown]
    by_cases here : id = i.near e
    · subst here
      have fresh : i.far e ∉ d.row i (i.near e) := fun member => old (mem_row_near.mp member)
      rw [if_pos rfl, if_pos rfl, OrderedSet.toList_insert_of_not_mem fresh]
    · rw [if_neg here, if_neg (Ne.symm here), List.append_nil]

/-- A module that is struck out disappears from the rows of all others. -/
theorem row_remove (apart : other ≠ id) : (d.remove id).row i other = (d.row i other).erase id := by
  apply OrderedSet.ext
  simp only [row, remove, OrderedSet.erase, List.filter_filter, List.filter_map]
  congr 1
  refine List.filter_congr fun e _ => Bool.eq_iff_iff.mpr ?_
  simp only [Bool.and_eq_true, decide_eq_true_eq, Function.comp_apply, Index.apart_iff i]
  constructor
  · rintro ⟨here, -, there⟩
    exact ⟨there, here⟩
  · rintro ⟨there, here⟩
    exact ⟨here, fun gone => apart (here.symm.trans gone), there⟩

end Rows

section Tables

@[simp] theorem moduleIds_toGraph : d.toGraph.moduleIds = d.ids := by
  simp [moduleIds, toGraph, Table.keys, ids, Function.comp_def]

theorem contains_toGraph : d.toGraph.contains id = decide (id ∈ d.ids) := by
  rw [contains, Table.contains]
  exact decide_eq_decide.mpr (by rw [← moduleIds_toGraph]; rfl)

theorem get?_rows : (d.rows i).get? id = if id ∈ d.ids then some (d.row i id) else none := by
  rw [rows, Table.get?_tabulate]

theorem require_of_mem (known : id ∈ d.ids) : ∃ m, d.toGraph.require id = .ok m := by
  rw [← moduleIds_toGraph] at known
  obtain ⟨m, found⟩ := Option.isSome_iff_exists.mp (Table.mem_keys_iff_isSome.mp known)
  exact ⟨m, by simp only [require, found]⟩

theorem require_of_not_mem (unknown : id ∉ d.ids) :
    d.toGraph.require id = .error (.unknown id) := by
  rw [← moduleIds_toGraph, moduleIds, Table.mem_keys_iff_isSome, Option.not_isSome_iff_eq_none]
    at unknown
  simp only [require, unknown]

/-- A new module has an empty row. -/
theorem rows_add {m : Module} (fresh : m.id ∉ d.ids) :
    (d.rows i).insert m.id ∅ = (d.add m fresh).rows i := by
  have appended : d.ids ++ [m.id] = (d.add m fresh).ids := by simp [ids, add]
  have distinct : (d.ids ++ [m.id]).Nodup := appended ▸ (d.add m fresh).distinct
  refine (Table.insert_tabulate fresh _ distinct).trans ?_
  refine Table.tabulate_congr appended fun k _ => ?_
  split
  next same => exact (same ▸ row_eq_empty (d := d) fresh).symm
  next => rfl

theorem rows_connect (known : e.1 ∈ d.ids ∧ e.2 ∈ d.ids) :
    (d.rows i).modify (i.near e) (·.insert (i.far e)) = (d.connect e known).rows i := by
  rw [rows, Table.modify_tabulate]
  exact Table.tabulate_congr rfl fun k _ => (row_connect known).symm

/-- It is enough to strike a module out of the rows that its own row in the other index names. -/
theorem rows_remove : ((d.row i.other id).toList.foldl (fun t k => t.modify k (·.erase id))
    (d.rows i)).erase id = (d.remove id).rows i := by
  have idem : ∀ row : OrderedSet String, (row.erase id).erase id = row.erase id := by
    intro row
    apply OrderedSet.ext
    simp [OrderedSet.erase, List.filter_filter]
  rw [rows, Table.foldl_modify_tabulate idem,
    Table.erase_tabulate (d.nodup_ids.filter _)]
  refine Table.tabulate_congr ids_remove.symm fun k member => ?_
  have apart : k ≠ id := by simpa using (List.mem_filter.mp member).2
  rw [row_remove apart]
  split
  next => rfl
  next unnamed =>
    have absent : id ∉ d.row i k := fun present => unnamed (mem_row_other.mpr present)
    apply OrderedSet.ext
    refine (List.filter_eq_self.mpr fun x member => ?_).symm
    have other : x ≠ id := fun same => absent (same ▸ member)
    simpa using other

end Tables

end Diagram
end Graph
end ModuleBundler
