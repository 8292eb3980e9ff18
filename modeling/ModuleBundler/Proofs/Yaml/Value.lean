import ModuleBundler.Proofs.Yaml.Node
import ModuleBundler.Yaml.Loader

/-! The value of a text. Making values of a document may fail, but never because of bytes
that are no text. So the loader says that the bytes are none only where they are not, and
a text with an obstacle has no value. -/
namespace ModuleBundler.Yaml

namespace Builder

variable {α β : Type} {x : Build α} {f : α → Build β}

section Rules

/-- A step that does not say of any bytes that they are no text. -/
def Sound (x : Build α) : Prop := ∀ b, Settles none (fun _ => True) (x b)

theorem sound_pure (a : α) : Sound (pure a) := fun _ => .ok trivial

theorem sound_fail (cause : Flaw) : Sound (fail cause : Build α) := fun _ => .flaw cause

theorem Sound.bind (first : Sound x) (next : ∀ a, Sound (f a)) : Sound (x >>= f) :=
  fun b => (first b).stateBind fun a b' _ => next a b'

theorem sound_get : Sound (get : Build Builder) := fun _ => .ok trivial

theorem sound_modify (change : Builder → Builder) : Sound (modify change : Build Unit) :=
  fun _ => .ok trivial

theorem sound_mapM {f : α → Build β} (each : ∀ a, Sound (f a)) (items : List α) :
    Sound (items.mapM f) := by
  induction items with
  | nil => exact sound_pure _
  | cons a items ih =>
    rw [List.mapM_cons]
    exact (each a).bind fun _ => ih.bind fun _ => sound_pure _

theorem sound_forM {f : α → Build Unit} (each : ∀ a, Sound (f a)) (items : List α) :
    Sound (items.forM f) := by
  induction items with
  | nil => exact sound_pure _
  | cons a items ih => exact (each a).bind fun _ => ih

theorem sound_foldlM {f : β → α → Build β} (each : ∀ s a, Sound (f s a)) (items : List α) (s : β) :
    Sound (items.foldlM f s) := by
  induction items generalizing s with
  | nil => exact sound_pure _
  | cons a items ih =>
    rw [List.foldlM_cons]
    exact (each s a).bind ih

theorem sound_findM? {test : α → Build Bool} (each : ∀ a, Sound (test a)) (items : List α) :
    Sound (items.findM? test) := by
  induction items with
  | nil => exact sound_pure _
  | cons a items ih =>
    rw [List.findM?]
    refine (each a).bind fun found => ?_
    split
    next => exact sound_pure _
    next => exact ih

end Rules

section Steps

theorem sound_node (id : NodeId) : Sound (node id) := by
  rw [node]
  refine sound_get.bind fun b => ?_
  split
  next => exact sound_pure _
  next => exact sound_fail _

theorem sound_part? (id : NodeId) : Sound (part? id) := sound_get.bind fun _ => sound_pure _

theorem sound_entriesOf (id : NodeId) : Sound (entriesOf id) := by
  rw [entriesOf]
  refine (sound_node id).bind fun n => ?_
  split
  next => exact sound_pure _
  next => exact sound_fail _

theorem sound_itemsOf (id : NodeId) : Sound (itemsOf id) := by
  rw [itemsOf]
  refine (sound_node id).bind fun n => ?_
  split
  next => exact sound_pure _
  next => exact sound_fail _

theorem sound_setPart (id : NodeId) (part : Part) : Sound (setPart id part) := sound_modify _

theorem sound_changeNode (id : NodeId) (change : Node → Node) : Sound (changeNode id change) :=
  sound_modify _

theorem sound_setEntries (id : NodeId) (entries : List (NodeId × NodeId)) :
    Sound (setEntries id entries) :=
  sound_changeNode _ _

theorem sound_openContainer (id : NodeId) (part : Part) : Sound (openContainer id part) :=
  (sound_setPart id part).bind fun _ => sound_modify _

theorem sound_scalarText (fuel : Nat) (id : NodeId) : Sound (scalarText fuel id) := by
  induction fuel generalizing id with
  | zero => exact sound_fail _
  | succ fuel ih =>
    rw [scalarText]
    refine (sound_node id).bind fun n => ?_
    split
    next => exact sound_pure _
    next => exact sound_fail _
    next entries _ =>
      refine (sound_findM? (fun e => ?_) entries).bind fun found => ?_
      · exact (sound_node e.1).bind fun _ => sound_pure _
      · split
        next => exact ih _
        next => exact sound_fail _

theorem settles_scalar {answer : Except ScalarError α} :
    Settles none (fun _ => True) (Scalar.scalar answer) := by
  cases answer with
  | ok a => exact .ok trivial
  | error cause => exact .scalar cause

theorem settles_binary (text : String) : Settles none (fun _ => True) (Scalar.binary text) := by
  rw [Scalar.binary]
  refine .ite (.flaw _) ?_
  split
  next => exact .ok trivial
  next => exact .flaw _

theorem settles_read? {tag : Tag} {text : String} {found : Except Failure Settings.Value}
    (read : Scalar.read? tag text = some found) : Settles none (fun _ => True) found := by
  rw [Scalar.read?.eq_def] at read
  split at read
  all_goals cases read
  all_goals first
    | exact .ok trivial
    | exact settles_scalar
    | exact (settles_binary text).bind fun _ _ => .ok trivial

theorem settles_failed {cause : Failure} (settles : Settles none (fun _ : α => True) (.error cause)) :
    Settles none (fun _ : β => True) (.error cause) :=
  .error (settles.of_error rfl)

theorem sound_make (id : NodeId) : Sound (make id) := by
  unfold make
  refine (sound_part? id).bind fun part => ?_
  split
  next => exact sound_pure _
  next =>
    refine (sound_node id).bind fun n => ?_
    split
    all_goals try first
      | exact sound_openContainer _ _
      | exact sound_fail _
    -- What is left is the tag of a leaf.
    refine sound_get.bind fun b => (sound_scalarText _ _).bind fun text =>
      (sound_node id).bind fun n => ?_
    dsimp only
    split
    next => exact fun _ => .scalar _
    next =>
      split
      next => exact sound_setPart _ _
      next read => exact fun _ => settles_failed (settles_read? read)
      next => exact sound_fail _

theorem sound_makeKey (id : NodeId) : Sound (makeKey id) := by
  rw [makeKey]
  refine (sound_make id).bind fun _ => (sound_part? id).bind fun found => ?_
  split
  next => exact sound_pure _
  next => exact sound_fail _

end Steps

section Merges

variable {flatten : NodeId → Build Unit}

theorem sound_mergedFrom (sound : ∀ id, Sound (flatten id)) (source : NodeId) :
    Sound (mergedFrom flatten source) := by
  rw [mergedFrom]
  refine (sound_node source).bind fun n => ?_
  split
  next => exact (sound source).bind fun _ => sound_entriesOf source
  next items _ =>
    refine (sound_mapM (fun item => ?_) items).bind fun _ => sound_pure _
    exact (sound_entriesOf item).bind fun _ => (sound item).bind fun _ => sound_entriesOf item
  next => exact sound_fail _

theorem sound_resolveMerges (sound : ∀ id, Sound (flatten id)) (id : NodeId) (fuel place : Nat)
    (ahead merged : List (NodeId × NodeId)) :
    Sound (resolveMerges flatten id fuel place ahead merged) := by
  induction fuel generalizing place ahead merged with
  | zero => exact sound_fail _
  | succ fuel ih =>
    cases ahead with
    | nil => exact sound_pure _
    | cons entry ahead =>
      rw [resolveMerges]
      refine (sound_node _).bind fun n => ?_
      split
      next =>
        exact (sound_entriesOf id).bind fun _ => (sound_setEntries _ _).bind fun _ =>
          (sound_mergedFrom sound _).bind fun _ => (sound_entriesOf id).bind fun _ => ih _ _ _
      next => exact (sound_changeNode _ _).bind fun _ => ih _ _ _
      next => exact ih _ _ _

theorem sound_flatten (fuel : Nat) (id : NodeId) : Sound (Builder.flatten fuel id) := by
  induction fuel generalizing id with
  | zero => exact sound_fail _
  | succ fuel ih =>
    rw [Builder.flatten]
    refine (sound_entriesOf id).bind fun _ => sound_get.bind fun _ =>
      (sound_resolveMerges ih _ _ _ _ _).bind fun merged => ?_
    split
    next => exact (sound_entriesOf id).bind fun _ => sound_setEntries _ _
    next => exact sound_pure _

end Merges

section Containers

theorem sound_makeEntries (id : NodeId) : Sound (makeEntries id) := by
  rw [makeEntries]
  refine (sound_entriesOf id).bind fun _ => sound_get.bind fun _ => (sound_flatten _ _).bind fun _ =>
    (sound_entriesOf id).bind fun entries => sound_foldlM (fun made entry => ?_) entries []
  exact (sound_makeKey _).bind fun _ => (sound_make _).bind fun _ => sound_pure _

theorem sound_fillContainer (id : NodeId) : Sound (fillContainer id) := by
  rw [fillContainer]
  refine (sound_part? id).bind fun part => ?_
  split
  next =>
    exact (sound_itemsOf id).bind fun items => (sound_forM sound_make items).bind fun _ =>
      sound_setPart _ _
  next =>
    refine (sound_itemsOf id).bind fun items => (sound_mapM (fun item => ?_) items).bind fun _ =>
      sound_setPart _ _
    refine (sound_entriesOf item).bind fun entries => ?_
    split
    next => exact (sound_make _).bind fun _ => (sound_make _).bind fun _ => sound_pure _
    next => exact sound_fail _
  next => exact (sound_makeEntries id).bind fun _ => sound_setPart _ _
  next => exact (sound_makeEntries id).bind fun _ => sound_setPart _ _
  next => exact sound_pure _

theorem sound_fillAll (fuel : Nat) : Sound (fillAll fuel) := by
  induction fuel with
  | zero => exact sound_pure _
  | succ fuel ih =>
    rw [fillAll]
    refine sound_get.bind fun b => ?_
    dsimp only
    split
    next => exact sound_pure _
    next =>
      exact (sound_modify _).bind fun _ => (sound_forM sound_fillContainer _).bind fun _ => ih

end Containers

end Builder

theorem settles_value (d : Document) : Settles none (fun _ => True) d.value := by
  rw [Document.value]
  refine Settles.bind (P := fun _ => True) ?_ fun _ _ => .ok trivial
  exact (Builder.sound_make _).bind (fun _ => Builder.sound_fillAll _) _

/-- A text with an obstacle has no value, and the loader says of the bytes that they are no text only
where that is the obstacle. -/
theorem settles_valueOf (input : Input) :
    Settles input.obstacle (fun _ => input.obstacle = none) (valueOf input) := by
  rw [valueOf]
  refine (settles_ofInput? input).bind fun found whole => ?_
  split
  next => exact .ok whole
  next document => exact (settles_value document).amid.imp fun _ _ => whole

variable {content : ByteArray}

/-- Bytes that are no UTF-8 have no value. -/
theorem valueOf_of_invalid (invalid : ¬ content.IsValidUTF8) (v : Settings.Value) :
    valueOf (.ofContent content) ≠ .ok v :=
  fun found => Input.obstacle_of_invalid invalid ((settles_valueOf _).of_ok found)

/-- Bytes that are UTF-8 are always taken for a text. -/
theorem valueOf_of_valid (valid : content.IsValidUTF8) :
    valueOf (.ofContent content) ≠ .error .undecodable :=
  fun failed => Input.obstacle_of_valid valid ((settles_valueOf _).of_error failed rfl)

/-- The loader makes nothing of bytes that are no UTF-8. -/
theorem loader_of_invalid (invalid : ¬ content.IsValidUTF8) (v : Settings.Value) :
    loader content ≠ .ok v := by
  unfold loader
  have valueless := valueOf_of_invalid invalid
  generalize valueOf (.ofContent content) = found at valueless
  cases found with
  | error cause => exact nofun
  | ok v => exact absurd rfl (valueless v)

/-- Of bytes that are UTF-8 the loader never reports that they are no text. -/
theorem loader_of_valid (valid : content.IsValidUTF8) :
    loader content ≠ .error .undecodable := by
  unfold loader
  have readable := valueOf_of_valid valid
  generalize valueOf (.ofContent content) = found at readable
  cases found with
  | error cause =>
    cases cause with
    | undecodable => exact absurd rfl readable
    | _ => exact nofun
  | ok v => exact nofun

end ModuleBundler.Yaml
