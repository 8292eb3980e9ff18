import ModuleBundler.Bundle.Build

/-! Properties that the steps of a build inherit from their parts. A build does
nothing to its host but look, report, record and pause, besides asking its token
for leave; so what holds of these and survives sequencing holds of every step. Two
such properties follow: no step changes a file, and on a host without faults a
step sees nothing but the files. -/
namespace ModuleBundler.Source

open Cancellation ModuleBundler.Bundle

/-- A property of steps on a host that sequencing keeps and the elementary steps have. -/
structure Compositional (P : {α : Type} → StateM Host α → Prop) : Prop where
  pure : ∀ {α : Type} (a : α), P (pure a : StateM Host α)
  bind : ∀ {α β : Type} {x : StateM Host α} {f : α → StateM Host β},
    P x → (∀ a, P (f a)) → P (x >>= f)
  look : ∀ path, P (Host.look path)
  report : ∀ entry, P (Host.report entry)
  visit : ∀ path, P (Host.recordVisit path)
  pause : ∀ seconds, P (Host.pause seconds)

namespace Compositional

variable {P : {α : Type} → StateM Host α → Prop} (c : Compositional P)

include c

theorem openFile (path : String) : P (Host.openFile path) := by
  refine c.bind (c.look path) fun looked => ?_
  cases looked with
  | error e => exact c.pure _
  | ok entry => cases entry <;> exact c.pure _

theorem readOnce (r : Reader) (path : String) : P (r.readOnce path) := by
  refine c.bind (c.look _) fun looked => ?_
  cases looked with
  | error e => exact c.pure _
  | ok entry =>
    dsimp only
    split
    · exact c.pure _
    · refine c.bind (c.openFile path) fun opened => ?_
      cases opened with
      | error e => exact c.pure _
      | ok content =>
        dsimp only
        split
        · exact c.pure _
        · refine c.bind (c.report _) fun _ => c.bind (c.openFile path) fun again => ?_
          cases again <;> exact c.pure _

theorem backOff (path : String) (attempt : Nat) (e : ReadError) :
    P (Reader.backOff path attempt e) := by
  unfold Reader.backOff
  split
  · exact c.pure _
  · exact c.bind (c.report _) fun _ => c.bind (c.pause _) fun _ => c.pure _

theorem enter (reading : Reading) : P reading.enter := c.bind (c.visit _) fun _ => c.pure _

theorem begin (r : Reader) (path : String) : P (Reading.begin r path) := c.enter _

theorem perform (r : Reader) (reading : Reading) : P (reading.perform r) := by
  refine c.bind (c.readOnce r _) fun read => ?_
  cases read with
  | ok text => exact c.pure _
  | error e =>
    dsimp only
    split
    · exact c.pure _
    · split
      · refine c.bind (c.backOff _ _ e) fun waited => ?_
        cases waited with
        | true => exact c.bind (c.enter _) fun _ => c.pure _
        | false => exact c.pure _
      · exact c.bind (c.report _) fun _ => c.pure _

theorem finish (r : Reader) (reading : Reading) : P (reading.finish r) := by
  induction left : reading.left using Nat.strongRecOn generalizing reading with
  | ind n ih =>
    rw [Reading.finish]
    refine c.bind (c.perform r reading) fun outcome => ?_
    cases outcome with
    | done text => exact c.pure _
    | failed e => exact c.pure _
    | again next fewer => exact ih next.left (left ▸ fewer) next rfl

theorem readText (r : Reader) (path : String) : P (r.readText path) :=
  c.bind (c.begin r path) fun reading => c.finish r reading

theorem importsOf (r : Resolver) (path content : String) : P (r.importsOf path content) :=
  c.bind (c.report _) fun _ => c.pure _

theorem readImports (r : Resolver) (path : String) : P (r.readImports path) := by
  refine c.bind (c.readText r.reader path) fun read => ?_
  cases read with
  | error e => exact c.pure _
  | ok content => exact c.bind (c.importsOf r path content) fun _ => c.pure _

variable {token : Option Token} (leave : P (Resolver.leave token))

include leave

theorem discover (r : Resolver) (d : Discovery) : P (d.advance r token) := by
  unfold Discovery.advance
  cases d.reading with
  | some reading =>
    refine c.bind (c.perform r.reader reading) fun outcome => ?_
    cases outcome with
    | done content => exact c.bind (c.importsOf r _ content) fun _ => c.pure _
    | failed e => exact c.pure _
    | again next fewer => exact c.pure _
  | none =>
    dsimp only
    split
    · exact c.pure _
    · refine c.bind leave fun answer => ?_
      cases answer with
      | error e => exact c.pure _
      | ok _ => exact c.bind (c.begin r.reader _) fun _ => c.pure _

omit leave in
theorem fail (p : Plan) (cause : DiscoveryError) : P (Build.fail p cause) :=
  c.bind (c.report _) fun _ => c.pure _

omit leave in
theorem collect (p : Plan) (files sections rest : List String) :
    P (Build.collect p files sections rest) := by
  cases rest with
  | nil => exact c.bind (c.report _) fun _ => c.pure _
  | cons path rest => exact c.bind (c.begin _ path) fun _ => c.pure _

omit leave in
theorem build (p : Plan) (leave : P (Resolver.leave p.token)) (b : Build) : P (b.advance p) := by
  unfold Build.advance
  cases b with
  | discovering d =>
    refine c.bind (c.discover leave p.resolver d) fun outcome => ?_
    cases outcome with
    | going next => exact c.pure _
    | failed walk e => exact c.fail p e
    | done walk => exact c.collect p _ _ _
  | collecting files rest reading sections =>
    refine c.bind (c.perform p.resolver.reader reading) fun outcome => ?_
    cases outcome with
    | failed e => exact c.fail p _
    | again next fewer => exact c.pure _
    | done content => exact c.collect p _ _ _

end Compositional

/-- What a step leaves alone: the files, and the absence of faults. -/
structure Host.Follows (before after : Host) : Prop where
  disk : after.disk = before.disk
  calm : before.faults = [] → after.faults = []

namespace Host.Follows

variable {h k l : Host}

theorem refl (h : Host) : Follows h h := ⟨rfl, id⟩

theorem trans (first : Follows h k) (second : Follows k l) : Follows h l :=
  ⟨second.disk.trans first.disk, fun calm => second.calm (first.calm calm)⟩

end Host.Follows

/-- A step that changes no file and lays no fault. -/
def KeepsFiles {α : Type} (step : StateM Host α) : Prop := ∀ h, Host.Follows h (step h).2

theorem look_keepsFiles (path : String) : KeepsFiles (Host.look path) := fun _ =>
  ⟨rfl, fun calm => by simp [Host.look, calm]⟩

theorem keepsFiles : Compositional KeepsFiles where
  pure _ h := .refl h
  bind first rest h := (first h).trans (rest _ _)
  look := look_keepsFiles
  report _ _ := ⟨rfl, id⟩
  visit _ _ := ⟨rfl, id⟩
  pause _ _ := ⟨rfl, id⟩

theorem leave_keepsFiles (token : Option Token) : KeepsFiles (Resolver.leave token) := fun _ =>
  ⟨rfl, id⟩

/-- A step that changes no file and, without faults, sees nothing but the files. -/
structure SeesFiles {α : Type} (step : StateM Host α) : Prop where
  keeps : KeepsFiles step
  same : ∀ h k, h.faults = [] → k.faults = [] → h.disk = k.disk → (step h).1 = (step k).1

theorem look_seesFiles (path : String) : SeesFiles (Host.look path) where
  keeps := look_keepsFiles path
  same h k calm calm' disk := by simp [Host.look, calm, calm', disk]

theorem seesFiles : Compositional SeesFiles where
  pure a := ⟨keepsFiles.pure a, fun _ _ _ _ _ => rfl⟩
  look := look_seesFiles
  report entry := ⟨keepsFiles.report entry, fun _ _ _ _ _ => rfl⟩
  visit path := ⟨keepsFiles.visit path, fun _ _ _ _ _ => rfl⟩
  pause seconds := ⟨keepsFiles.pause seconds, fun _ _ _ _ _ => rfl⟩
  bind {α β x f} first rest := by
    refine ⟨keepsFiles.bind first.keeps fun a => (rest a).keeps, ?_⟩
    intro h k calm calm' disk
    have files : (x h).2.disk = (x k).2.disk := by
      rw [(first.keeps h).disk, (first.keeps k).disk, disk]
    have answer := first.same h k calm calm' disk
    have next := (rest (x h).1).same _ _ ((first.keeps h).calm calm)
      ((first.keeps k).calm calm') files
    exact next.trans (by rw [answer]; rfl)

theorem leave_seesFiles : SeesFiles (Resolver.leave none) :=
  ⟨leave_keepsFiles none, fun _ _ _ _ _ => rfl⟩

end ModuleBundler.Source
