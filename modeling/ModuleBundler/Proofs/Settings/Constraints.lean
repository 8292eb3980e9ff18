import Mathlib.Data.List.Forall2
import ModuleBundler.Proofs.Settings.Merge

/-! Settings against their constraints. The constraint of each setting is stated on the
values themselves, and taking a value over decides it. So the settings that come out of a
document hold, name by name, what the document gives under the name if that is allowed,
and the default if not; every other entry draws one complaint; and settings that are read
back as a document are those that were written. -/
namespace ModuleBundler.Settings

variable {entries : List (Value × Value)} {s t next : Settings} {f g : Field} {v : Value}

/-- The digests that are always there; those in the last row have no length of their own. -/
def guaranteedDigests : List String :=
  ["md5", "sha1", "sha224", "sha256", "sha384", "sha512",
    "sha3_224", "sha3_256", "sha3_384", "sha3_512", "blake2b", "blake2s",
    "shake_128", "shake_256"]

/-- What a value has to be under the name of a setting. -/
def Field.Allows : Field → Value → Prop
  | .sourceExtensions, v => ∃ found : List String, v = .list (found.map .text) ∧ found ≠ [] ∧
      ∀ e ∈ found, ∃ rest, rest ≠ [] ∧ e.toList = '.' :: rest
  | .minify, v => ∃ b, v = .bool b
  | .fingerprintAlgorithm, v => ∃ name ∈ guaranteedDigests, v = .text name ∧
      ¬ "shake_".toList <+: name.toList
  | .readMaxRetries, v | .maxFileSizeKb, v => ∃ n, v = .whole n ∧ 0 < n
  | .resolveTimeout, v => (∃ n, v = .whole n ∧ 0 ≤ n) ∨ ∃ x : Float, v = .real x ∧ 0.0 ≤ x
  | .watchIgnorePatterns, v => ∃ found : List String, v = .list (found.map .text)

section Readers

theorem mapM_eq_some_iff {α β : Type} {read : α → Option β} {items : List α} {found : List β} :
    items.mapM read = some found ↔ items.map read = found.map some := by
  induction items generalizing found with
  | nil => cases found <;> simp
  | cons item rest ih =>
    rw [List.mapM_cons, List.map_cons]
    cases read item with
    | none => cases found <;> simp
    | some first =>
      cases found with
      | nil => cases rest.mapM read <;> simp
      | cons head tail =>
        rw [List.map_cons, List.cons.injEq, ← ih, Option.some.injEq]
        cases rest.mapM read <;> simp

theorem texts?_eq_some_iff {found : List String} :
    texts? v = some found ↔ v = .list (found.map .text) := by
  cases v with
  | list items =>
    rw [texts?, mapM_eq_some_iff, Value.list.injEq]
    induction items generalizing found with
    | nil => cases found <;> simp
    | cons item rest ih => cases item <;> cases found <;> simp [ih]
  | _ => simp [texts?]

theorem extensions?_eq_some_iff {found : List String} :
    extensions? v = some found ↔ v = .list (found.map .text) ∧ found ≠ [] ∧
      ∀ e ∈ found, ∃ rest, rest ≠ [] ∧ e.toList = '.' :: rest := by
  constructor
  · intro read
    refine ⟨?_, extensions?_spec read⟩
    obtain ⟨texts, listed, guarded⟩ := Option.bind_eq_some_iff.mp read
    obtain ⟨_, -, same⟩ := Option.bind_eq_some_iff.mp guarded
    cases same
    exact texts?_eq_some_iff.mp listed
  · rintro ⟨listed, some, dotted⟩
    have extension : ∀ e ∈ found, isExtension e = true := by
      intro e member
      obtain ⟨rest, more, chars⟩ := dotted e member
      have long : 1 < e.length := by
        have := List.length_pos_iff.mpr more
        rw [← String.length_toList, chars, List.length_cons]
        omega
      simp [isExtension, chars, long]
    have passed : (!found.isEmpty && found.all isExtension) = true := by
      simpa [some] using extension
    rw [extensions?, texts?_eq_some_iff.mpr listed]
    exact Option.bind_eq_some_iff.mpr ⟨found, rfl, by rw [passed]; rfl⟩

theorem positive?_eq_some_iff {n : Int} : positive? v = some n ↔ v = .whole n ∧ 0 < n := by
  cases v <;> simp [positive?]
  grind

theorem duration?_eq_some_iff {d : Decimal.Number} :
    duration? v = some d ↔ v = ofNumber d ∧
      ((∃ n, v = .whole n ∧ 0 ≤ n) ∨ ∃ x : Float, v = .real x ∧ 0.0 ≤ x) := by
  cases v <;> cases d <;> simp [duration?, ofNumber]
  · grind
  · grind

theorem ofName?_eq_some_iff {name : String} {a : Digest.Algorithm} :
    Digest.Algorithm.ofName? name = some a ↔ a.name = name := by
  constructor
  · intro found
    simpa using List.find?_some found
  · rintro rfl
    exact Digest.Algorithm.ofName?_name a

/-- The digests of fixed length are the algorithms that can be chosen. -/
theorem exists_algorithm_iff {name : String} : (∃ a : Digest.Algorithm, a.name = name) ↔
    name ∈ guaranteedDigests ∧ ¬ "shake_".toList <+: name.toList := by
  constructor
  · rintro ⟨a, rfl⟩
    cases a <;> decide
  · rintro ⟨known, fixed⟩
    have named : ∀ name ∈ guaranteedDigests, "shake_".toList.isPrefixOf name.toList = true ∨
        (Digest.Algorithm.ofName? name).isSome = true := by decide
    rcases named name known with sized | found
    · exact absurd (List.isPrefixOf_iff_prefix.mp sized) fixed
    · obtain ⟨a, found⟩ := Option.isSome_iff_exists.mp found
      exact ⟨a, ofName?_eq_some_iff.mp found⟩

end Readers

section Fields

theorem Field.name_injective {f g : Field} (same : f.name = g.name) : f = g := by
  have named : ∀ f ∈ all, ∀ g ∈ all, f.name = g.name → f = g := by decide
  exact named f (by cases f <;> decide) g (by cases g <;> decide) same

theorem Field.entry_inj {value : Value} (same : (Value.text f.name, v) = (.text g.name, value)) :
    f = g ∧ v = value :=
  ⟨name_injective (Value.text.inj (congrArg Prod.fst same)), congrArg Prod.snd same⟩

theorem Field.ofValue?_eq_some_iff : Field.ofValue? v = some f ↔ v = .text f.name := by
  cases v with
  | text name =>
    rw [Value.text.injEq, Field.ofValue?]
    constructor
    · intro found
      have named := List.find?_some (p := fun f => Field.name f == name) found
      exact (beq_iff_eq.mp named).symm
    · rintro rfl
      cases f <;> rfl
  | _ => simp [Field.ofValue?]

/-- A value that is taken over is allowed, and stands under its name. -/
theorem allows_of_set? (accepted : s.set? f v = some next) : f.Allows v ∧ next.get f = v := by
  cases f with
  | sourceExtensions =>
    obtain ⟨found, read, rfl⟩ := Option.map_eq_some_iff.mp accepted
    obtain ⟨rfl, some, dotted⟩ := extensions?_eq_some_iff.mp read
    exact ⟨⟨found, rfl, some, dotted⟩, rfl⟩
  | minify =>
    cases v <;> cases accepted
    exact ⟨⟨_, rfl⟩, rfl⟩
  | fingerprintAlgorithm =>
    cases v with
    | text name =>
      obtain ⟨a, read, rfl⟩ := Option.map_eq_some_iff.mp accepted
      have named := ofName?_eq_some_iff.mp read
      obtain ⟨known, fixed⟩ := exists_algorithm_iff.mp ⟨a, named⟩
      exact ⟨⟨name, known, rfl, fixed⟩, congrArg Value.text named⟩
    | _ => cases accepted
  | readMaxRetries | maxFileSizeKb =>
    obtain ⟨n, read, rfl⟩ := Option.map_eq_some_iff.mp accepted
    obtain ⟨rfl, positive⟩ := positive?_eq_some_iff.mp read
    exact ⟨⟨n, rfl, positive⟩, rfl⟩
  | resolveTimeout =>
    obtain ⟨d, read, rfl⟩ := Option.map_eq_some_iff.mp accepted
    obtain ⟨same, allowed⟩ := duration?_eq_some_iff.mp read
    exact ⟨allowed, same.symm⟩
  | watchIgnorePatterns =>
    obtain ⟨found, read, rfl⟩ := Option.map_eq_some_iff.mp accepted
    obtain rfl := texts?_eq_some_iff.mp read
    exact ⟨⟨found, rfl⟩, rfl⟩

/-- What is allowed is taken over. -/
theorem exists_set?_of_allows (s : Settings) (allowed : f.Allows v) :
    ∃ next, s.set? f v = some next := by
  cases f with
  | sourceExtensions =>
    obtain ⟨found, form⟩ := allowed
    exact ⟨_, Option.map_eq_some_iff.mpr ⟨found, extensions?_eq_some_iff.mpr form, rfl⟩⟩
  | minify =>
    obtain ⟨b, rfl⟩ := allowed
    exact ⟨_, rfl⟩
  | fingerprintAlgorithm =>
    obtain ⟨name, known, rfl, fixed⟩ := allowed
    obtain ⟨a, named⟩ := exists_algorithm_iff.mpr ⟨known, fixed⟩
    exact ⟨_, Option.map_eq_some_iff.mpr ⟨a, ofName?_eq_some_iff.mpr named, rfl⟩⟩
  | readMaxRetries | maxFileSizeKb =>
    obtain ⟨n, form⟩ := allowed
    exact ⟨_, Option.map_eq_some_iff.mpr ⟨n, positive?_eq_some_iff.mpr form, rfl⟩⟩
  | resolveTimeout =>
    obtain ⟨d, same⟩ : ∃ d, v = ofNumber d := by
      obtain ⟨n, rfl, -⟩ | ⟨x, rfl, -⟩ := allowed
      · exact ⟨.whole n, rfl⟩
      · exact ⟨.real x, rfl⟩
    exact ⟨_, Option.map_eq_some_iff.mpr ⟨d, duration?_eq_some_iff.mpr ⟨same, allowed⟩, rfl⟩⟩
  | watchIgnorePatterns =>
    obtain ⟨found, form⟩ := allowed
    exact ⟨_, Option.map_eq_some_iff.mpr ⟨found, texts?_eq_some_iff.mpr form, rfl⟩⟩

theorem default_allowed (f : Field) : f.Allows (default.get f) := by
  cases f with
  | sourceExtensions => exact ⟨[".js"], rfl, by decide, by simp⟩
  | minify => exact ⟨true, rfl⟩
  | fingerprintAlgorithm => exact ⟨"sha256", by decide, rfl, by decide⟩
  | readMaxRetries | maxFileSizeKb => exact ⟨_, rfl, by decide⟩
  | resolveTimeout => exact .inl ⟨0, rfl, Int.le_refl 0⟩
  | watchIgnorePatterns => exact ⟨[], rfl⟩

/-- Settings are known by what stands under each name. -/
theorem eq_of_get (same : ∀ f, s.get f = t.get f) : s = t := by
  obtain ⟨extensions, minify, algorithm, retries, size, timeout, patterns⟩ := s
  obtain ⟨extensions', minify', algorithm', retries', size', timeout', patterns'⟩ := t
  obtain rfl : extensions = extensions' := map_text_injective (Value.list.inj (same .sourceExtensions))
  obtain rfl : minify = minify' := Value.bool.inj (same .minify)
  obtain rfl : algorithm = algorithm' := by
    have named : algorithm.name = algorithm'.name := Value.text.inj (same .fingerprintAlgorithm)
    have found := Digest.Algorithm.ofName?_name algorithm
    rw [named, Digest.Algorithm.ofName?_name] at found
    exact (Option.some.inj found).symm
  obtain rfl : retries = retries' := Value.whole.inj (same .readMaxRetries)
  obtain rfl : size = size' := Value.whole.inj (same .maxFileSizeKb)
  obtain rfl : timeout = timeout' := by
    have number : ofNumber timeout = ofNumber timeout' := same .resolveTimeout
    cases timeout <;> cases timeout' <;> cases number <;> rfl
  obtain rfl : patterns = patterns' := map_text_injective (Value.list.inj (same .watchIgnorePatterns))
  rfl

end Fields

section Entries

/-- No setting is named twice. -/
def NamesApart (entries : List (Value × Value)) : Prop :=
  entries.Pairwise fun a b => ∀ name, a.1 = .text name → b.1 ≠ .text name

/-- What an entry of a document draws: a complaint if its name is not known or its value not
allowed, and nothing otherwise. -/
inductive Draws : Value × Value → Option Complaint → Prop where
  | unknown {key v : Value} : (∀ f : Field, key ≠ .text f.name) →
      Draws (key, v) (some (.unknown key))
  | invalid {f : Field} {v : Value} : ¬ f.Allows v → Draws (.text f.name, v) (some (.invalid f v))
  | valid {f : Field} {v : Value} : f.Allows v → Draws (.text f.name, v) none

/-- One entry: what it draws is put behind the complaints, and only an allowed value takes the
place of the one that stood under its name. -/
structure Merged.Takes (m : Merged) (entry : Value × Value) (after : Merged)
    (drawn : Option Complaint) : Prop where
  draws : Draws entry drawn
  complaints : after.complaints = m.complaints ++ drawn.toList
  allowed : ∀ (f : Field) v, entry = (.text f.name, v) → f.Allows v → after.settings.get f = v
  spared : ∀ f : Field, (∀ v, entry = (.text f.name, v) → ¬ f.Allows v) →
    after.settings.get f = m.settings.get f

theorem Merged.take_takes (m : Merged) (entry : Value × Value) :
    ∃ drawn, m.Takes entry (m.take entry) drawn := by
  obtain ⟨key, v⟩ := entry
  cases known : Field.ofValue? key with
  | none =>
    have unknown : ∀ f : Field, key ≠ .text f.name := by
      intro f named
      rw [Field.ofValue?_eq_some_iff.mpr named] at known
      cases known
    refine ⟨some (.unknown key), .unknown unknown, ?_, ?_, ?_⟩ <;> simp only [take, known]
    · rfl
    · intro f v' same
      exact absurd (congrArg Prod.fst same) (unknown f)
    · exact fun _ _ => trivial
  | some f =>
    obtain rfl := Field.ofValue?_eq_some_iff.mp known
    cases accepted : m.settings.set? f v with
    | none =>
      have refused : ¬ f.Allows v := by
        intro allowed
        obtain ⟨next, taken⟩ := exists_set?_of_allows m.settings allowed
        rw [accepted] at taken
        cases taken
      refine ⟨some (.invalid f v), .invalid refused, ?_, ?_, ?_⟩ <;>
        simp only [take, known, accepted]
      · rfl
      · intro g v' same allowed
        obtain ⟨rfl, rfl⟩ := Field.entry_inj same
        exact absurd allowed refused
      · exact fun _ _ => trivial
    | some next =>
      obtain ⟨allowed, stands⟩ := allows_of_set? accepted
      refine ⟨none, .valid allowed, ?_, ?_, ?_⟩ <;> simp only [take, known, accepted]
      · exact (List.append_nil _).symm
      · intro g v' same _
        obtain ⟨rfl, rfl⟩ := Field.entry_inj same
        exact stands
      · intro g other
        refine get_set?_of_ne accepted fun same => ?_
        subst same
        exact other v rfl allowed

/-- Entries one after the other draw a complaint each, or none. -/
theorem foldl_take_draws (entries : List (Value × Value)) (m : Merged) :
    ∃ drawn, List.Forall₂ Draws entries drawn ∧
      (entries.foldl Merged.take m).complaints = m.complaints ++ drawn.filterMap id := by
  induction entries generalizing m with
  | nil => exact ⟨[], .nil, (List.append_nil _).symm⟩
  | cons entry rest ih =>
    obtain ⟨first, taken⟩ := m.take_takes entry
    obtain ⟨later, draws, complaints⟩ := ih (m.take entry)
    refine ⟨first :: later, .cons taken.draws draws, ?_⟩
    rw [List.foldl_cons, complaints, taken.complaints, List.append_assoc]
    cases first <;> rfl

/-- A name without an allowed value keeps what stood under it. -/
theorem get_foldl_of_spared (spared : ∀ v, (.text f.name, v) ∈ entries → ¬ f.Allows v)
    (m : Merged) : (entries.foldl Merged.take m).settings.get f = m.settings.get f := by
  induction entries generalizing m with
  | nil => rfl
  | cons entry rest ih =>
    obtain ⟨first, taken⟩ := m.take_takes entry
    rw [List.foldl_cons, ih fun v member => spared v (List.mem_cons_of_mem _ member)]
    exact taken.spared f fun v same => spared v (same ▸ List.mem_cons_self)

/-- An allowed value is not replaced where its setting is named once. -/
theorem get_foldl_of_allowed (apart : NamesApart entries) (member : (.text f.name, v) ∈ entries)
    (allowed : f.Allows v) (m : Merged) : (entries.foldl Merged.take m).settings.get f = v := by
  induction entries generalizing m with
  | nil => cases member
  | cons entry rest ih =>
    obtain ⟨here, later⟩ := List.pairwise_cons.mp apart
    rw [List.foldl_cons]
    rcases List.mem_cons.mp member with rfl | member
    · obtain ⟨first, taken⟩ := m.take_takes (.text f.name, v)
      rw [get_foldl_of_spared fun v' again => absurd rfl (here _ again f.name rfl)]
      exact taken.allowed f v rfl allowed
    · exact ih later member _

end Entries

section Reports

/-- How a complaint is reported. -/
def Complaint.report (c : Complaint) : Log.Entry := Log.plain .warning part c.message

theorem hasHuge_of_mem {entry : Value × Value} (short : Value.anyHugeEntry entries = false)
    (member : entry ∈ entries) : entry.1.hasHuge = false ∧ entry.2.hasHuge = false := by
  induction entries with
  | nil => cases member
  | cons first rest ih =>
    simp only [Value.anyHugeEntry, Bool.or_eq_false_iff] at short
    rcases List.mem_cons.mp member with rfl | later
    · exact short.1
    · exact ih short.2 later

theorem reports_of_short {complaints : List Complaint}
    (short : ∀ c ∈ complaints, c.subject.hasHuge = false) :
    reports complaints = (complaints.map Complaint.report, true) := by
  induction complaints with
  | nil => rfl
  | cons c rest ih =>
    rw [reports, short c List.mem_cons_self, if_neg Bool.false_ne_true,
      ih fun c member => short c (List.mem_cons_of_mem _ member)]
    rfl

/-- A complaint shows the name or the value of an entry. -/
theorem short_of_draws {drawn : List (Option Complaint)} (draws : List.Forall₂ Draws entries drawn)
    (short : Value.anyHugeEntry entries = false) :
    ∀ c ∈ drawn.filterMap id, c.subject.hasHuge = false := by
  induction draws with
  | nil => exact fun _ none => absurd none List.not_mem_nil
  | cons first later ih =>
    have here := hasHuge_of_mem short List.mem_cons_self
    simp only [Value.anyHugeEntry, Bool.or_eq_false_iff] at short
    cases first with
    | valid => exact ih short.2
    | unknown => exact List.forall_mem_cons.mpr ⟨here.1, ih short.2⟩
    | invalid => exact List.forall_mem_cons.mpr ⟨here.2, ih short.2⟩

theorem ofValue_of_short {complaints : List Complaint}
    (made : (merge entries).complaints = complaints)
    (short : ∀ c ∈ complaints, c.subject.hasHuge = false) :
    ofValue (.mapping entries) =
      (.ok (merge entries).settings, complaints.map Complaint.report) := by
  rw [ofValue]
  dsimp only
  rw [made, reports_of_short short]
  rfl

end Reports

section RoundTrip

theorem namesApart_toEntries (s : Settings) : NamesApart s.toEntries := by
  have nodup : Field.all.Nodup := by decide
  refine List.pairwise_map.mpr (nodup.imp fun apart name first second => apart ?_)
  exact Field.name_injective
    ((Value.text.inj first).trans (Value.text.inj second).symm)

theorem mem_toEntries (s : Settings) (f : Field) : (.text f.name, s.get f) ∈ s.toEntries :=
  List.mem_map.mpr ⟨f, by cases f <;> decide, rfl⟩

theorem filterMap_of_allowed {drawn : List (Option Complaint)}
    (draws : List.Forall₂ Draws entries drawn)
    (allowed : ∀ entry ∈ entries, ∃ f : Field, entry.1 = .text f.name ∧ f.Allows entry.2) :
    drawn.filterMap id = [] := by
  induction draws with
  | nil => rfl
  | cons first later ih =>
    obtain ⟨⟨f, named, good⟩, others⟩ := List.forall_mem_cons.mp allowed
    cases first with
    | valid => exact ih others
    | unknown unnamed => exact absurd named (unnamed f)
    | invalid refused =>
      obtain rfl := Field.name_injective (Value.text.inj named)
      exact absurd good refused

/-- Settings that meet their constraints are read back as they were written, without a
complaint. -/
theorem ofValue_toEntries (allowed : ∀ f : Field, f.Allows (s.get f)) :
    ofValue (.mapping s.toEntries) = (.ok s, []) := by
  obtain ⟨drawn, draws, complaints⟩ := foldl_take_draws s.toEntries ⟨default, []⟩
  have none : drawn.filterMap id = [] := by
    refine filterMap_of_allowed draws fun entry member => ?_
    obtain ⟨f, -, rfl⟩ := List.mem_map.mp member
    exact ⟨f, rfl, allowed f⟩
  have same : (merge s.toEntries).settings = s := eq_of_get fun f =>
    get_foldl_of_allowed (namesApart_toEntries s) (mem_toEntries s f) (allowed f) _
  rw [none] at complaints
  rw [ofValue_of_short complaints fun _ member => absurd member List.not_mem_nil, same]
  rfl

end RoundTrip

/-- What comes to stand under a name is the allowed value of the document, or else the default. -/
theorem get_merge (apart : NamesApart entries) (f : Field) :
    (∃ v, (.text f.name, v) ∈ entries ∧ f.Allows v ∧ (merge entries).settings.get f = v) ∨
      (∀ v, (.text f.name, v) ∈ entries → ¬ f.Allows v) ∧
        (merge entries).settings.get f = default.get f := by
  by_cases given : ∃ v, (.text f.name, v) ∈ entries ∧ f.Allows v
  · obtain ⟨v, member, allowed⟩ := given
    exact .inl ⟨v, member, allowed, get_foldl_of_allowed apart member allowed _⟩
  · have none : ∀ v, (.text f.name, v) ∈ entries → ¬ f.Allows v :=
      fun v member allowed => given ⟨v, member, allowed⟩
    exact .inr ⟨none, get_foldl_of_spared none _⟩

/-- Settings from any document that names each setting once and has no number too long to be
shown: under each of the seven names stands what the document gives there if that is allowed, and
the default if not, whatever else the document holds and in whatever order; each entry draws one
report if its name is unknown or its value not allowed, and none otherwise; and the settings,
written as a document, give themselves. -/
theorem merge_pointwise (apart : NamesApart entries)
    (short : (Value.mapping entries).hasHuge = false) :
    ∃ s drawn, List.Forall₂ Draws entries drawn ∧
      ofValue (.mapping entries) = (.ok s, (drawn.filterMap id).map Complaint.report) ∧
      s.toEntries.map Prod.fst = ["source_extensions", "minify", "fingerprint_algorithm",
        "read_max_retries", "max_file_size_kb", "resolve_timeout_seconds",
        "watch_ignore_patterns"].map .text ∧
      (∀ f : Field, (.text f.name, s.get f) ∈ s.toEntries ∧ f.Allows (s.get f)) ∧
      (∀ (f : Field) v, (.text f.name, v) ∈ entries → f.Allows v → s.get f = v) ∧
      (∀ f : Field, (∀ v, (.text f.name, v) ∈ entries → ¬ f.Allows v) →
        s.get f = default.get f) ∧
      (∀ (f : Field) others t, NamesApart others → (ofValue (.mapping others)).1 = .ok t →
        (∀ v, (.text f.name, v) ∈ others ↔ (.text f.name, v) ∈ entries) → t.get f = s.get f) ∧
      ofValue (.mapping s.toEntries) = (.ok s, []) := by
  obtain ⟨drawn, draws, complaints⟩ := foldl_take_draws entries ⟨default, []⟩
  have allowed : ∀ f : Field, f.Allows ((merge entries).settings.get f) := by
    intro f
    obtain ⟨v, -, good, stands⟩ | ⟨-, stands⟩ := get_merge apart f
    · exact stands ▸ good
    · exact stands ▸ default_allowed f
  refine ⟨(merge entries).settings, drawn, draws,
    ofValue_of_short complaints (short_of_draws draws short), rfl,
    fun f => ⟨mem_toEntries _ f, allowed f⟩,
    fun f v member good => get_foldl_of_allowed apart member good _,
    fun f none => get_foldl_of_spared none _, ?_, ofValue_toEntries allowed⟩
  intro f others t apart' made same
  obtain rfl := merge_of_ofValue made
  obtain ⟨v, member, good, stands⟩ | ⟨none, stands⟩ := get_merge apart f
  · rw [stands]
    exact get_foldl_of_allowed apart' ((same v).mpr member) good _
  · rw [stands]
    exact get_foldl_of_spared (fun v member => none v ((same v).mp member)) _

/-- Of a truth value in place of a number, no number at all, a digest without a length, a list with
one bad ending, a name that is no text, and a good value, only the last is taken over. -/
theorem merge_pointwise_mixed :
    let entries : List (Value × Value) :=
      [(.text "read_max_retries", .bool true), (.text "resolve_timeout_seconds", .real (0.0 / 0.0)),
        (.text "fingerprint_algorithm", .text "shake_128"),
        (.text "source_extensions", .list [.text ".js", .text "."]),
        (.whole 1, .back .mapping), (.text "minify", .bool false)]
    NamesApart entries ∧ (Value.mapping entries).hasHuge = false ∧
      ∃ s drawn, List.Forall₂ Draws entries drawn ∧
        ofValue (.mapping entries) = (.ok s, (drawn.filterMap id).map Complaint.report) ∧
        s = { default with minify := false } := by
  intro entries
  have apart : NamesApart entries := by simp [NamesApart, entries]
  have short : (Value.mapping entries).hasHuge = false := by decide +kernel
  obtain ⟨s, drawn, draws, made, -, -, taken, spared, -, -⟩ := merge_pointwise apart short
  refine ⟨apart, short, s, drawn, draws, made, eq_of_get fun f => ?_⟩
  by_cases here : f = .minify
  · subst here
    exact taken .minify (.bool false) (by simp [entries, Field.name]) ⟨false, rfl⟩
  · rw [spared f fun v member allowed => ?_]
    · cases f <;> first | exact absurd rfl here | rfl
    · have refused : (default.set? f v).isNone = true := by
        cases f <;> simp [entries, Field.name] at member here <;> subst member <;> decide
      obtain ⟨next, accepted⟩ := exists_set?_of_allows default allowed
      rw [accepted] at refused
      cases refused

end ModuleBundler.Settings
