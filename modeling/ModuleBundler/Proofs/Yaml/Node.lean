import ModuleBundler.Proofs.Yaml.Stream
import ModuleBundler.Yaml.Node

/-! The document of a text that is not whole: there is none. The composer takes a token only
after it has looked at it, so it never takes one that breaks the text, and it comes to a
document only at the end of the stream. -/
namespace ModuleBundler.Yaml

variable {obstacle : Option Failure} {tokens : List Token}

theorem Sealed.of_cons {t : Token} (whole : Sealed obstacle (t :: tokens))
    (inner : ∀ cause, t ≠ .broken cause) : Sealed obstacle tokens where
  due cause member := whole.due cause (List.mem_cons_of_mem _ member)
  broken cut := by
    obtain ⟨cause, member⟩ := whole.broken cut
    rcases List.mem_cons.mp member with same | member
    · exact absurd same.symm (inner cause)
    · exact ⟨cause, member⟩
  endless cut member := whole.endless cut (List.mem_cons_of_mem _ member)

namespace Composer

variable {α β : Type} {x : Compose α} {f : α → Compose β} {c : Composer}
  {P : Composer → Prop}

section Rules

/-- A reading of sealed tokens comes to a state with a property, or fails as is due. -/
def Reaches (obstacle : Option Failure) (P : Composer → Prop) (x : Compose α) : Prop :=
  ∀ c, Sealed obstacle c.tokens → Settles obstacle (fun r => P r.2) (x c)

/-- The same where the token ahead has been looked at. -/
def ReachesAhead (obstacle : Option Failure) (P : Composer → Prop) (x : Compose α) : Prop :=
  ∀ c, Sealed obstacle c.tokens → Sealed obstacle (c.tokens.drop 1) →
    Settles obstacle (fun r => P r.2) (x c)

/-- The tokens that are left are sealed as well. -/
abbrev Keeps (obstacle : Option Failure) (x : Compose α) : Prop :=
  Reaches obstacle (fun c => Sealed obstacle c.tokens) x

/-- A step that takes no token. -/
def Stays (obstacle : Option Failure) (x : Compose α) : Prop :=
  ∀ c, Settles obstacle (fun r => r.2.tokens = c.tokens) (x c)

theorem keeps_pure (a : α) : Keeps obstacle (pure a : Compose α) := fun _ whole => .ok whole

theorem reaches_fail (cause : Flaw) : Reaches obstacle P (fail cause : Compose α) :=
  fun _ _ => .flaw cause

theorem reaches_fail_bind (cause : Flaw) (f : α → Compose β) :
    Reaches obstacle P (fail cause >>= f) :=
  fun _ _ => .flaw cause

theorem Reaches.bind (first : Keeps obstacle x) (next : ∀ a, Reaches obstacle P (f a)) :
    Reaches obstacle P (x >>= f) :=
  fun c whole => (first c whole).stateBind fun a c whole => next a c whole

theorem Reaches.ahead (reaches : Reaches obstacle P x) : ReachesAhead obstacle P x :=
  fun c whole _ => reaches c whole

theorem stays_pure (a : α) : Stays obstacle (pure a : Compose α) := fun _ => .ok rfl

theorem stays_fail (cause : Flaw) : Stays obstacle (fail cause : Compose α) := fun _ => .flaw cause

theorem Stays.keeps (stays : Stays obstacle x) : Keeps obstacle x :=
  fun c whole => (stays c).imp fun r same => show Sealed obstacle r.2.tokens from same ▸ whole

theorem Stays.bind (first : Stays obstacle x) (next : ∀ a, Stays obstacle (f a)) :
    Stays obstacle (x >>= f) :=
  fun c => (first c).stateBind fun a c' same => (next a c').imp fun _ same' => same'.trans same

theorem Stays.bindAhead (first : Stays obstacle x) (next : ∀ a, ReachesAhead obstacle P (f a)) :
    ReachesAhead obstacle P (x >>= f) :=
  fun c whole behind => (first c).stateBind fun a c' same =>
    next a c' (same ▸ whole) (same ▸ behind)

/-- The token ahead breaks nothing off and, in a text with an obstacle, is not the end. -/
theorem settles_ahead (whole : Sealed obstacle c.tokens) :
    Settles obstacle (fun r => r.2 = c ∧ Sealed obstacle (c.tokens.drop 1) ∧
      (obstacle ≠ none → r.1 ≠ .streamEnd)) (Composer.ahead c) := by
  obtain ⟨tokens, nodes, anchors, handles, depth⟩ := c
  cases tokens with
  | nil =>
    refine .ok ⟨rfl, whole, fun cut _ => ?_⟩
    obtain ⟨cause, member⟩ := whole.broken cut
    cases member
  | cons t rest =>
    have endless : obstacle ≠ none → t ≠ .streamEnd := fun cut same =>
      whole.endless cut (same ▸ List.mem_cons_self)
    cases t with
    | broken cause => exact .error (whole.due cause List.mem_cons_self)
    | _ => exact .ok ⟨rfl, whole.of_cons fun _ same => (by cases same), endless⟩

theorem reaches_ahead {f : Token → Compose α}
    (next : ∀ t, (obstacle ≠ none → t ≠ .streamEnd) → ReachesAhead obstacle P (f t)) :
    Reaches obstacle P (Composer.ahead >>= f) := by
  intro c whole
  refine (settles_ahead whole).stateBind fun t c' found => ?_
  obtain ⟨rfl, behind, endless⟩ := found
  exact next t endless c' whole behind

/-- A token that has been looked at is taken. -/
theorem reachesAhead_pass {f : Unit → Compose α} (next : Reaches obstacle P (f ())) :
    ReachesAhead obstacle P (pass >>= f) :=
  fun c _ behind => next { c with tokens := c.tokens.drop 1 } behind

end Rules

section Steps

theorem stays_get : Stays obstacle (get : Compose Composer) := fun _ => .ok rfl

theorem stays_add (node : Node) : Stays obstacle (add node) := fun _ => .ok rfl

theorem stays_fill (id : NodeId) (content : Content) : Stays obstacle (fill id content) :=
  fun _ => .ok rfl

theorem stays_emptyNode : Stays obstacle emptyNode := stays_add _

theorem stays_addAnchored (anchor : Option String) (node : Node) :
    Stays obstacle (addAnchored anchor node) := by
  intro c
  cases anchor with
  | none => exact .ok rfl
  | some name => exact .ok rfl

theorem stays_tagName? (tag : Option TagText) : Stays obstacle (tagName? tag) := by
  unfold tagName?
  split
  next => exact stays_pure _
  next => exact stays_pure _
  next =>
    refine stays_get.bind fun found => ?_
    split
    next => exact stays_pure _
    next => exact stays_fail _

theorem stays_refuseRepeated (anchor : Option String) : Stays obstacle (refuseRepeated anchor) := by
  unfold refuseRepeated
  split
  next =>
    refine stays_get.bind fun found => ?_
    split
    next => exact stays_fail _
    next => exact stays_pure _
  next => exact stays_pure _

theorem keeps_within {read : Compose α} (keeps : Keeps obstacle read) :
    Keeps obstacle (within read) := by
  intro c whole
  unfold within
  refine Settles.stateBind (P := fun r => r.2.tokens = c.tokens) (.ok rfl) fun _ c₁ same₁ => ?_
  refine Settles.stateBind (stays_get c₁) fun found c₂ same₂ => ?_
  dsimp only
  split
  next => exact .error Failure.isDue_nestedTooDeep
  next =>
    refine (keeps c₂ (same₂.trans same₁ ▸ whole)).stateBind fun answer c₃ whole => ?_
    exact .ok whole

theorem keeps_properties : Keeps obstacle properties := by
  unfold properties
  refine reaches_ahead fun t _ => ?_
  split
  next =>
    refine reachesAhead_pass (reaches_ahead fun t _ => ?_)
    split
    next => exact reachesAhead_pass (keeps_pure _)
    next => exact (keeps_pure _).ahead
  next =>
    refine reachesAhead_pass (reaches_ahead fun t _ => ?_)
    split
    next => exact reachesAhead_pass (keeps_pure _)
    next => exact (keeps_pure _).ahead
  next => exact (keeps_pure _).ahead

theorem keeps_separator (isFirst : Bool) (refusal : Flaw) :
    Keeps obstacle (separator isFirst refusal) := by
  unfold separator
  split
  next =>
    refine reaches_ahead fun t _ => ?_
    split
    next => exact fun c _ behind => .ok behind
    next => exact (reaches_fail _).ahead
  next => exact keeps_pure _

theorem keeps_absent (p : Properties) (name : Option String) : Keeps obstacle (absent p name) := by
  rw [absent]
  split
  next => exact reaches_fail _
  next => exact (stays_addAnchored _ _).keeps

end Steps

section Nodes

/-- What is read with so much fuel keeps the tokens sealed. -/
structure NodesKeep (obstacle : Option Failure) (fuel : Nat) : Prop where
  node : ∀ place, Keeps obstacle (node fuel place)
  nodeUnless : ∀ ends place, Keeps obstacle (nodeUnless ends fuel place)
  items : Keeps obstacle (items fuel)
  looseItems : Keeps obstacle (looseItems fuel)
  entryValue : Keeps obstacle (entryValue fuel)
  entries : Keeps obstacle (entries fuel)
  pair : Keeps obstacle (pair fuel)
  bracketedItems : ∀ isFirst, Keeps obstacle (bracketedItems fuel isFirst)
  bracketedEntries : ∀ isFirst, Keeps obstacle (bracketedEntries fuel isFirst)

variable {fuel : Nat}

theorem NodesKeep.nodeUnless_succ (keep : NodesKeep obstacle fuel) (ends : Token → Bool) (place : Place) :
    Keeps obstacle (Composer.nodeUnless ends (fuel + 1) place) := by
  rw [Composer.nodeUnless]
  refine reaches_ahead fun t _ => ?_
  split
  next => exact stays_emptyNode.keeps.ahead
  next => exact (keep.node place).ahead

theorem NodesKeep.items_succ (keep : NodesKeep obstacle fuel) :
    Keeps obstacle (Composer.items (fuel + 1)) := by
  rw [Composer.items]
  refine reaches_ahead fun t _ => ?_
  split
  next =>
    exact reachesAhead_pass <| (keep.nodeUnless _ _).bind fun _ => keep.items.bind fun _ => keeps_pure _
  next => exact reachesAhead_pass (keeps_pure _)
  next => exact (reaches_fail _).ahead

theorem NodesKeep.looseItems_succ (keep : NodesKeep obstacle fuel) :
    Keeps obstacle (Composer.looseItems (fuel + 1)) := by
  rw [Composer.looseItems]
  refine reaches_ahead fun t _ => ?_
  split
  next =>
    exact reachesAhead_pass <| (keep.nodeUnless _ _).bind fun _ => keep.looseItems.bind fun _ =>
      keeps_pure _
  next => exact (keeps_pure _).ahead

theorem NodesKeep.entryValue_succ (keep : NodesKeep obstacle fuel) :
    Keeps obstacle (Composer.entryValue (fuel + 1)) := by
  rw [Composer.entryValue]
  refine reaches_ahead fun t _ => ?_
  split
  next => exact reachesAhead_pass (keep.nodeUnless _ _)
  next => exact stays_emptyNode.keeps.ahead

theorem NodesKeep.entries_succ (keep : NodesKeep obstacle fuel) :
    Keeps obstacle (Composer.entries (fuel + 1)) := by
  rw [Composer.entries]
  refine reaches_ahead fun t _ => ?_
  split
  next =>
    exact reachesAhead_pass <| (keep.nodeUnless _ _).bind fun _ => keep.entryValue.bind fun _ =>
      keep.entries.bind fun _ => keeps_pure _
  next => exact reachesAhead_pass (keeps_pure _)
  next => exact (reaches_fail _).ahead

theorem NodesKeep.pair_succ (keep : NodesKeep obstacle fuel) :
    Keeps obstacle (Composer.pair (fuel + 1)) := by
  rw [Composer.pair]
  refine (stays_add _).keeps.bind fun id => Reaches.bind ?_ fun _ =>
    (stays_fill _ _).keeps.bind fun _ => keeps_pure _
  refine keeps_within <| (keep.nodeUnless _ _).bind fun _ => reaches_ahead fun t _ => ?_
  split
  next => exact reachesAhead_pass <| (keep.nodeUnless _ _).bind fun _ => keeps_pure _
  next => exact (stays_emptyNode.keeps.bind fun _ => keeps_pure _).ahead

theorem NodesKeep.bracketedItems_succ (keep : NodesKeep obstacle fuel) (isFirst : Bool) :
    Keeps obstacle (Composer.bracketedItems (fuel + 1) isFirst) := by
  rw [Composer.bracketedItems]
  refine reaches_ahead fun t _ => ?_
  split
  next => exact reachesAhead_pass (keeps_pure _)
  next =>
    refine Reaches.ahead <| (keeps_separator _ _).bind fun _ => reaches_ahead fun t _ => ?_
    split
    next =>
      exact reachesAhead_pass <| keep.pair.bind fun _ => (keep.bracketedItems _).bind fun _ =>
        keeps_pure _
    next => exact reachesAhead_pass (keeps_pure _)
    next =>
      exact Reaches.ahead <| (keep.node _).bind fun _ => (keep.bracketedItems _).bind fun _ =>
        keeps_pure _

theorem NodesKeep.bracketedEntries_succ (keep : NodesKeep obstacle fuel) (isFirst : Bool) :
    Keeps obstacle (Composer.bracketedEntries (fuel + 1) isFirst) := by
  rw [Composer.bracketedEntries]
  refine reaches_ahead fun t _ => ?_
  split
  next => exact reachesAhead_pass (keeps_pure _)
  next =>
    refine Reaches.ahead <| (keeps_separator _ _).bind fun _ => reaches_ahead fun t _ => ?_
    split
    next =>
      refine reachesAhead_pass <| (keep.nodeUnless _ _).bind fun _ => reaches_ahead fun t _ => ?_
      split
      next =>
        exact reachesAhead_pass <| (keep.nodeUnless _ _).bind fun _ =>
          (keep.bracketedEntries _).bind fun _ => keeps_pure _
      next =>
        exact Reaches.ahead <| stays_emptyNode.keeps.bind fun _ =>
          (keep.bracketedEntries _).bind fun _ => keeps_pure _
    next => exact reachesAhead_pass (keeps_pure _)
    next =>
      exact Reaches.ahead <| (keep.node _).bind fun _ => stays_emptyNode.keeps.bind fun _ =>
        (keep.bracketedEntries _).bind fun _ => keeps_pure _

/-- A collection is added, read and filled in. -/
theorem keeps_collection {anchor : Option String} {node : Node} {read : Compose α}
    (keeps : Keeps obstacle read) (content : α → Content) :
    Keeps obstacle (do
      let id ← addAnchored anchor node
      fill id (content (← within read))
      return id) :=
  (stays_addAnchored _ _).keeps.bind fun _ => (keeps_within keeps).bind fun _ =>
    (stays_fill _ _).keeps.bind fun _ => keeps_pure _

theorem NodesKeep.node_succ (keep : NodesKeep obstacle fuel) (place : Place) :
    Keeps obstacle (Composer.node (fuel + 1) place) := by
  rw [Composer.node]
  refine reaches_ahead fun t _ => ?_
  split
  next =>
    refine reachesAhead_pass <| stays_get.keeps.bind fun _ => ?_
    split
    next => exact keeps_pure _
    next => exact reaches_fail _
  next =>
    refine Reaches.ahead <| keeps_properties.bind fun p => (stays_tagName? _).keeps.bind fun name =>
      reaches_ahead fun first _ => (stays_refuseRepeated _).bindAhead fun _ => ?_
    dsimp only
    split
    next => exact reachesAhead_pass (stays_addAnchored _ _).keeps
    next =>
      split
      next => exact (keeps_collection keep.looseItems _).ahead
      next => exact (keeps_absent _ _).ahead
    next => exact reachesAhead_pass (keeps_collection (keep.bracketedItems _) _)
    next => exact reachesAhead_pass (keeps_collection (keep.bracketedEntries _) _)
    next =>
      split
      next => exact (keeps_absent _ _).ahead
      next => exact reachesAhead_pass (keeps_collection keep.items _)
    next =>
      split
      next => exact (keeps_absent _ _).ahead
      next => exact reachesAhead_pass (keeps_collection keep.entries _)
    next => exact (keeps_absent _ _).ahead

theorem nodesKeep (fuel : Nat) : NodesKeep obstacle fuel := by
  induction fuel with
  | zero =>
    refine ⟨fun _ => ?_, fun _ _ => ?_, ?_, ?_, ?_, ?_, ?_, fun _ => ?_, fun _ => ?_⟩ <;>
      exact reaches_fail _
  | succ fuel ih =>
    exact ⟨ih.node_succ, ih.nodeUnless_succ, ih.items_succ, ih.looseItems_succ, ih.entryValue_succ,
      ih.entries_succ, ih.pair_succ, ih.bracketedItems_succ, ih.bracketedEntries_succ⟩

end Nodes

section Root

theorem keeps_directives (fuel : Nat) (versionGiven : Bool) (handles : List (String × String)) :
    Keeps obstacle (directives fuel versionGiven handles) := by
  induction fuel generalizing versionGiven handles with
  | zero => exact reaches_fail _
  | succ fuel ih =>
    rw [directives]
    refine reaches_ahead fun t _ => ?_
    split
    next =>
      refine reachesAhead_pass ?_
      split
      next =>
        dsimp only
        split
        next => exact reaches_fail_bind _ _
        next =>
          split
          next => exact reaches_fail_bind _ _
          next => exact ih _ _
      next =>
        split
        next => exact reaches_fail _
        next => exact ih _ _
      next => exact ih _ _
    next => exact Reaches.ahead fun _ whole => .ok whole

theorem keeps_passEnds (fuel : Nat) : Keeps obstacle (passEnds fuel) := by
  induction fuel with
  | zero => exact reaches_fail _
  | succ fuel ih =>
    rw [passEnds]
    refine reaches_ahead fun t _ => ?_
    split
    next => exact reachesAhead_pass ih
    next => exact (keeps_pure _).ahead

/-- The end of the stream is the end of a text without an obstacle. -/
theorem reaches_finish (fuel : Nat) : Reaches obstacle (fun _ => obstacle = none) (finish fuel) := by
  rw [finish]
  refine (keeps_passEnds fuel).bind fun _ => reaches_ahead fun t endless => ?_
  split
  next => exact fun _ _ _ => .ok (Classical.byContradiction fun cut => endless cut rfl)
  next =>
    refine Reaches.ahead <| (keeps_directives _ _ _).bind fun _ => reaches_ahead fun t _ => ?_
    split
    next => exact (reaches_fail _).ahead
    next => exact (reaches_fail _).ahead

theorem reaches_root (fuel : Nat) : Reaches obstacle (fun _ => obstacle = none) (root fuel) := by
  have behind (id : NodeId) : Reaches obstacle (fun _ => obstacle = none)
      (finish fuel >>= fun _ => pure (some id)) :=
    fun c whole => (reaches_finish fuel c whole).stateBind fun _ _ none => .ok none
  rw [root]
  dsimp only
  refine reaches_ahead fun t endless => ?_
  split
  case h_1 => exact fun _ _ _ => .ok (Classical.byContradiction fun cut => endless cut rfl)
  case h_4 => exact Reaches.ahead <| ((nodesKeep fuel).node _).bind behind
  -- With directives or without, the document has a start.
  all_goals
    refine Reaches.ahead <| (keeps_directives _ _ _).bind fun _ => reaches_ahead fun t _ => ?_
    split
    next => exact reachesAhead_pass <| ((nodesKeep fuel).nodeUnless _ _).bind behind
    next => exact Reaches.ahead (reaches_fail_bind _ _)

end Root

end Composer

/-- A text with an obstacle holds no document, and what it fails with is due. -/
theorem settles_ofInput? (input : Input) :
    Settles input.obstacle (fun _ => input.obstacle = none) (Document.ofInput? input) := by
  rw [Document.ofInput?]
  refine Settles.bind (Composer.reaches_root _ _ (sealed_tokens input)) fun found none => ?_
  exact .ok none

end ModuleBundler.Yaml
