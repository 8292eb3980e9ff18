import ModuleBundler.Proofs.Graph.Mutation

/-! What a graph says of a module after any changes. It says what the last addition of
the module that was not refused has told it: the time of the addition, and the metadata
name by name. Metadata that name an id go before the id of the module. -/
namespace ModuleBundler.Graph

open Mutation

/-- The module that a change adds, unless it is refused. -/
def addition? (g : Graph) : Mutation → Option Module
  | .addModule id metadata isEntry timestamp =>
    if g.contains id then none else some ⟨id, metadata, isEntry, timestamp⟩
  | .addDependency .. | .removeModule _ | .clear => none

/-- The modules that are added by some changes, in the order in which they are. -/
def additions (g : Graph) : List Mutation → List Module
  | [] => []
  | change :: rest => (g.addition? change).toList ++ additions (g.settle change) rest

section Nodes

variable {g h : Graph} {id : String}

theorem ok_of_bind {α β : Type} {x : Except Error α} {f : α → Except Error β} {b : β}
    (done : x >>= f = .ok b) : ∃ a, x = .ok a ∧ f a = .ok b := by
  cases x with
  | error e => cases done
  | ok a => exact ⟨a, rfl, done⟩

theorem nodes_addModule {metadata : Table String Json} {isEntry : Bool} {timestamp : Float}
    (added : g.addModule id metadata isEntry timestamp = .ok h) :
    h.nodes = g.nodes.insert id ⟨id, metadata, isEntry, timestamp⟩ := by
  unfold addModule at added
  split at added
  · cases added
  · cases added
    rfl

theorem nodes_addDependency {source target : String}
    (connected : g.addDependency source target = .ok h) : h.nodes = g.nodes := by
  obtain ⟨_, -, connected⟩ := ok_of_bind connected
  obtain ⟨_, -, connected⟩ := ok_of_bind connected
  dsimp only at connected
  split at connected
  · cases connected
  · split at connected
    · cases connected
    · cases connected
      rfl

theorem nodes_removeModule (removed : g.removeModule id = .ok h) : h.nodes = g.nodes.erase id := by
  obtain ⟨_, -, removed⟩ := ok_of_bind removed
  split at removed
  · dsimp only at removed
    split at removed
    · cases removed
      rfl
    · cases removed
  · cases removed

theorem settle_of_error {change : Mutation} {e : Error} (refused : g.mutate change = .error e) :
    g.settle change = g := by
  rw [settle, refused]
  rfl

theorem settle_of_ok {change : Mutation} (done : g.mutate change = .ok h) :
    g.settle change = h := by
  rw [settle, done]
  rfl

/-- What is there after a change has just been added, or was there before. -/
theorem get?_nodes_settle {change : Mutation} {m : Module}
    (now : (g.settle change).nodes.get? id = some m) :
    ((g.addition? change).toList.reverse.find? fun m => m.id = id).or (g.nodes.get? id) =
      some m := by
  cases outcome : g.mutate change with
  | error e =>
    rw [settle_of_error outcome] at now
    cases change with
    | addModule other metadata isEntry timestamp =>
      have known : g.contains other = true := by
        by_contra fresh
        rw [mutate, addModule, if_neg fresh] at outcome
        cases outcome
      rw [addition?, if_pos known]
      exact now
    | addDependency | removeModule | clear => exact now
  | ok h =>
    rw [settle_of_ok outcome] at now
    cases change with
    | addModule other metadata isEntry timestamp =>
      have fresh : ¬ g.contains other = true := by
        intro known
        rw [mutate, addModule, if_pos known] at outcome
        cases outcome
      rw [nodes_addModule outcome, Table.get?_insert] at now
      rw [addition?, if_neg fresh]
      by_cases same : id = other
      · subst same
        simpa using now
      · simpa [same, Ne.symm same] using now
    | addDependency source target =>
      rw [nodes_addDependency outcome] at now
      exact now
    | removeModule other =>
      rw [nodes_removeModule outcome] at now
      by_cases same : id = other
      · subst same
        rw [Table.get?_erase_self] at now
        cases now
      · rw [Table.get?_erase_of_ne same] at now
        exact now
    | clear =>
      cases outcome
      cases now

end Nodes

/-- What is there after some changes has been added last by them, or was there before. -/
theorem get?_nodes_foldl {g : Graph} {changes : List Mutation} {id : String} {m : Module}
    (now : (changes.foldl settle g).nodes.get? id = some m) :
    ((additions g changes).reverse.find? fun m => m.id = id).or (g.nodes.get? id) = some m := by
  induction changes generalizing g with
  | nil => exact now
  | cons change rest ih =>
    have later := ih now
    rw [additions, List.reverse_append, List.find?_append, Option.or_assoc]
    rw [Option.or_eq_some_iff] at later ⊢
    exact later.imp_right fun ⟨unadded, before⟩ => ⟨unadded, get?_nodes_settle before⟩

section Describe

variable {g h : Graph} {id : String} {m : Module}

theorem describe_congr (same : h.nodes.get? id = g.nodes.get? id) :
    h.describe id = g.describe id := by
  rw [describe, describe, require, require, same]

/-- The names of a record: the metadata go before the id, and the time before the metadata. -/
theorem describe_of_get? (found : g.nodes.get? id = some m) :
    ∃ fields, g.describe id = .ok fields ∧
      fields.get? "timestamp" = some (.real m.timestamp) ∧
      fields.get? "id" = some ((m.metadata.get? "id").getD (.text m.id)) ∧
      ∀ name, name ≠ "id" → name ≠ "timestamp" → fields.get? name = m.metadata.get? name := by
  refine ⟨_, by rw [describe, require, found]; rfl, Table.get?_insert_self _ _ _, ?_, ?_⟩
  · rw [Table.get?_insert_of_ne (by decide), Table.get?_insertAll]
    cases m.metadata.get? "id" <;> rfl
  · intro name other undated
    rw [Table.get?_insert_of_ne undated, Table.get?_insertAll]
    have unnamed : ((∅ : Table String Json).insert "id" (.text m.id)).get? name = none :=
      Table.get?_insert_of_ne other _
    change (m.metadata.get? name).or (((∅ : Table String Json).insert "id" _).get? name) = _
    rw [unnamed, Option.or_none]

end Describe

/-- Changes that are none of a module's business: those that are refused, those of edges, and those
of other modules. -/
inductive Mutation.Spares (g : Graph) (id : String) : Mutation → Prop where
  | refused {change} : (g.mutate change).isOk = false → Spares g id change
  | edge {source target} : Spares g id (.addDependency source target)
  | added {other metadata isEntry timestamp} : other ≠ id →
      Spares g id (.addModule other metadata isEntry timestamp)
  | removed {other} : other ≠ id → Spares g id (.removeModule other)

theorem Mutation.Spares.get?_nodes {g : Graph} {id : String} {change : Mutation}
    (spares : Spares g id change) : (g.settle change).nodes.get? id = g.nodes.get? id := by
  cases outcome : g.mutate change with
  | error e => rw [settle_of_error outcome]
  | ok h =>
    rw [settle_of_ok outcome]
    cases spares with
    | refused refused =>
      rw [outcome] at refused
      cases refused
    | edge => rw [nodes_addDependency outcome]
    | added other => rw [nodes_addModule outcome, Table.get?_insert_of_ne other.symm]
    | removed other => rw [nodes_removeModule outcome, Table.get?_erase_of_ne other.symm]

/-- The record of a module that is there after any changes. -/
theorem record_of_last_addition (changes : List Mutation) (id : String)
    (present : id ∈ (ofMutations changes).moduleIds) :
    ∃ m fields, (additions .empty changes).reverse.find? (fun m => m.id = id) = some m ∧
      (ofMutations changes).describe id = .ok fields ∧
      fields.get? "timestamp" = some (.real m.timestamp) ∧
      fields.get? "id" = some ((m.metadata.get? "id").getD (.text id)) ∧
      (∀ name, name ≠ "id" → name ≠ "timestamp" → fields.get? name = m.metadata.get? name) ∧
      ∀ change : Mutation, change.Spares (ofMutations changes) id →
        ((ofMutations changes).settle change).describe id = .ok fields := by
  obtain ⟨m, found⟩ := Option.isSome_iff_exists.mp (Table.mem_keys_iff_isSome.mp present)
  obtain ⟨fields, described, time, name, others⟩ := describe_of_get? found
  have last : (additions .empty changes).reverse.find? (fun m => m.id = id) = some m := by
    have either := get?_nodes_foldl found
    rwa [show Graph.empty.nodes.get? id = none from rfl, Option.or_none] at either
  have own : m.id = id := by simpa using List.find?_some last
  rw [own] at name
  refine ⟨m, fields, last, described, time, name, others, fun change spares => ?_⟩
  rw [describe_congr spares.get?_nodes, described]

/-- A module that is added, added again in vain, removed and added anew. -/
theorem record_of_last_addition_anew :
    let changes : List Mutation := [.addModule "a" (.ofList [("path", .text "old")]) false 1.0,
      .addModule "a" (.ofList [("path", .text "vain")]) true 2.0, .removeModule "a",
      .addModule "a" (.ofList [("path", .text "new")]) false 3.0]
    ∃ fields, (ofMutations changes).describe "a" = .ok fields ∧
      fields.get? "id" = some (.text "a") ∧ fields.get? "timestamp" = some (.real 3.0) ∧
      fields.get? "path" = some (.text "new") ∧
      ((ofMutations changes).settle (.addModule "a" ∅ true 4.0)).describe "a" = .ok fields := by
  intro changes
  obtain ⟨m, fields, last, described, time, name, others, spared⟩ :=
    record_of_last_addition changes "a" (by decide +kernel)
  have added : (additions .empty changes).reverse.find? (fun m => m.id = "a") =
    some ⟨"a", .ofList [("path", .text "new")], false, 3.0⟩ := by rfl
  obtain rfl := Option.some.inj (added.symm.trans last)
  have refused : ((ofMutations changes).mutate (.addModule "a" ∅ true 4.0)).isOk = false := by
    decide +kernel
  exact ⟨fields, described, name, time, others "path" (by decide) (by decide),
    spared _ (.refused refused)⟩

/-- The law that a record has the id of its module is false: metadata may name another. -/
theorem record_renamed_by_metadata :
    ¬ ∀ (changes : List Mutation) (id : String), id ∈ (ofMutations changes).moduleIds →
      ∃ fields, (ofMutations changes).describe id = .ok fields ∧
        fields.get? "id" = some (.text id) := by
  intro law
  obtain ⟨fields, described, own⟩ :=
    law [.addModule "a" (.ofList [("id", .text "b")]) false 0.0] "a" (by decide +kernel)
  obtain rfl := Except.ok.inj described
  have renamed : some (Json.text "b") = some (Json.text "a") := own
  have same : "b" = "a" := Json.text.inj (Option.some.inj renamed)
  exact absurd same (by decide)

end ModuleBundler.Graph
