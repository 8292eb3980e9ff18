import ModuleBundler.Log.Line
import ModuleBundler.Proofs.Calendar
import ModuleBundler.Proofs.Json.Printable

/-! Log lines are faithful. The line of a record is one line of printable ASCII, and reading
it as JSON gives back what the record says and nothing else: no field can take the place
of what the record itself says, whatever its name or its value. -/
namespace ModuleBundler.Log

open Calendar Decimal

/-! ### The time -/

/-- Seconds in the years from 1 to 9999. -/
def InCalendar (created : Number) : Prop :=
  ∃ n, microseconds? created = some n ∧ -62135596800000000 ≤ n ∧ n < 253402300800000000

/-- A day of the calendar and a time of day, a number of microseconds after the start of 1970. -/
structure IsTime (date : Date) (time : TimeOfDay) (n : Int) : Prop where
  count : dayNumber date * 86400000000 + time.microseconds = n
  year : 1 ≤ date.year ∧ date.year ≤ 9999
  month : 1 ≤ date.month ∧ date.month ≤ 12
  day : 1 ≤ date.day ∧ date.day ≤ daysInMonth date.year date.month
  clock : time.hour < 24 ∧ time.minute < 60 ∧ time.second < 60 ∧ time.microsecond < 1000000

theorem isTime_ofMicroseconds {n : Int}
    (year : 1 ≤ (ofMicroseconds n).1.year ∧ (ofMicroseconds n).1.year ≤ 9999) :
    IsTime (ofMicroseconds n).1 (ofMicroseconds n).2 n := by
  obtain ⟨month, month', day, day'⟩ := valid_ofDayNumber (n / 86400000000)
  refine ⟨ofMicroseconds_exact n, year, ⟨month, month'⟩, ⟨day, day'⟩, ?_⟩
  unfold ofMicroseconds TimeOfDay.ofMicroseconds
  dsimp only
  omega

theorem year_ofMicroseconds_iff {n : Int} :
    1 ≤ (ofMicroseconds n).1.year ∧ (ofMicroseconds n).1.year ≤ 9999 ↔
      -62135596800000000 ≤ n ∧ n < 253402300800000000 := by
  refine year_ofDayNumber_iff.trans ?_
  omega

theorem timeOf_of_inCalendar {created : Number} (inside : InCalendar created) :
    ∃ found, timeOf created = .ok found := by
  obtain ⟨n, counted, first, last⟩ := inside
  have year := year_ofMicroseconds_iff.mpr ⟨first, last⟩
  have seconds : Nat.pow 2 63 = 9223372036854775808 := rfl
  have years : Nat.pow 2 31 = 2147483648 := rfl
  have held : isHeld created (n / 1000000) = true := by
    cases created <;> simp only [isHeld, Bool.and_eq_true, decide_eq_true_eq] <;> omega
  have clock : isClockYear (ofMicroseconds n).1.year = true := by
    simp only [isClockYear, Bool.and_eq_true, decide_eq_true_eq]
    omega
  refine ⟨ofMicroseconds n, ?_⟩
  unfold timeOf clockTime
  rw [counted]
  dsimp only
  rw [held, clock]
  exact if_pos year

theorem timestamp_of_inCalendar {created : Number} (inside : InCalendar created) :
    ∃ stamp, timestamp created = .ok stamp := by
  obtain ⟨⟨date, time⟩, found⟩ := timeOf_of_inCalendar inside
  refine ⟨s!"{date.text}T{time.text}Z", ?_⟩
  unfold timestamp
  rw [found]
  rfl

theorem ofMicroseconds_of_timeOf {created : Number} {date : Date} {time : TimeOfDay}
    (told : timeOf created = .ok (date, time)) : ∃ n, microseconds? created = some n ∧
      ofMicroseconds n = (date, time) ∧ 1 ≤ date.year ∧ date.year ≤ 9999 := by
  unfold timeOf clockTime at told
  cases counted : microseconds? created with
  | none =>
    rw [counted] at told
    cases told
  | some n =>
    rw [counted] at told
    dsimp only at told
    split at told
    · cases told
    split at told
    · cases told
    change (if 1 ≤ (ofMicroseconds n).1.year ∧ (ofMicroseconds n).1.year ≤ 9999 then
      Except.ok (ofMicroseconds n) else _) = _ at told
    split at told
    next year =>
      have same := Except.ok.inj told
      rw [same] at year
      exact ⟨n, rfl, same, year⟩
    next => cases told

/-- A time stamp is a time of the calendar, the one that the seconds count. -/
theorem isTime_of_timestamp {created : Number} {stamp : String}
    (told : timestamp created = .ok stamp) : InCalendar created ∧
      ∃ n date time, microseconds? created = some n ∧ IsTime date time n ∧
        stamp = s!"{date.text}T{time.text}Z" := by
  unfold timestamp at told
  cases found : timeOf created with
  | error e =>
    rw [found] at told
    cases told
  | ok pair =>
    obtain ⟨date, time⟩ := pair
    obtain ⟨n, counted, parts, year⟩ := ofMicroseconds_of_timeOf found
    rw [found] at told
    have year' : 1 ≤ (ofMicroseconds n).1.year ∧ (ofMicroseconds n).1.year ≤ 9999 := by
      rwa [parts]
    have isTime := isTime_ofMicroseconds year'
    rw [parts] at isTime
    exact ⟨⟨n, counted, year_ofMicroseconds_iff.mp year'⟩, n, date, time, counted, isTime,
      (Except.ok.inj told).symm⟩

/-! ### The members -/

namespace Record

variable (r : Record)

/-- What the record itself says. -/
def own (stamp : String) : Table String Json where
  entries := [("timestamp", .text stamp), ("level", .text r.level.name),
    ("logger", .text r.logger), ("thread", .text r.thread), ("message", .text r.message)]
  distinct := (by decide : ["timestamp", "level", "logger", "thread", "message"].Nodup)

/-- The fields that are let in. -/
def given : List (String × Json) :=
  ((r.fields.map (·.entries)).getD []).filter fun f => !reserved.contains f.1

/-- The exception as a member. -/
def raised : List (String × Json) :=
  r.exception.toList.map fun trace => ("exception", Json.text trace)

theorem not_reserved_of_given {f : String × Json} (member : f ∈ r.given) : f.1 ∉ reserved := by
  have free := (List.mem_filter.mp member).2
  rwa [Bool.not_eq_true', List.contains_eq_mem, decide_eq_false_iff_not] at free

theorem nodup_given : (r.given.map Prod.fst).Nodup := by
  unfold given
  cases r.fields with
  | none => exact List.nodup_nil
  | some fields => exact fields.distinct.sublist (List.filter_sublist.map _)

theorem nodup_added : ((r.given ++ r.raised).map Prod.fst).Nodup := by
  rw [List.map_append, List.nodup_append]
  refine ⟨r.nodup_given, ?_, ?_⟩
  · unfold raised
    cases r.exception with
    | none => exact List.nodup_nil
    | some e => exact List.nodup_singleton _
  · rintro name given _ raised rfl
    obtain ⟨f, member, rfl⟩ := List.mem_map.mp given
    obtain ⟨m, found, same⟩ := List.mem_map.mp raised
    obtain ⟨e, -, rfl⟩ := List.mem_map.mp found
    have held : "exception" ∈ reserved := by decide
    exact r.not_reserved_of_given member (same ▸ held)

/-- What comes behind the record's own members. -/
def added : Table String Json := ⟨r.given ++ r.raised, r.nodup_added⟩

theorem find?_given (name : String) : (r.given.find? fun f => f.1 = name) =
    if name ∈ reserved then none
    else r.fields.bind fun fields => fields.entries.find? fun f => f.1 = name := by
  split
  next held =>
    rw [List.find?_eq_none]
    intro f member same
    exact r.not_reserved_of_given member (of_decide_eq_true same ▸ held)
  next free =>
    unfold given
    rw [List.find?_filter]
    cases r.fields with
    | none => rfl
    | some fields =>
      refine congrArg (fields.entries.find? ·) (funext fun f => ?_)
      by_cases same : f.1 = name
      · have outside : reserved.contains name = false := by
          rw [List.contains_eq_mem, decide_eq_false free]
        simp only [same, outside, Bool.not_false, decide_true, and_self]
      · simp only [decide_eq_false same, Bool.false_eq_true, and_false, decide_false]

theorem find?_raised (name : String) : (r.raised.find? fun m => m.1 = name).map Prod.snd =
    if name = "exception" then r.exception.map Json.text else none := by
  unfold raised
  cases r.exception with
  | none => exact (ite_self _).symm
  | some e =>
    by_cases same : name = "exception"
    · rw [if_pos same, same]
      rfl
    · rw [if_neg same]
      refine congrArg (Option.map Prod.snd) (List.find?_cons_of_neg ?_)
      exact fun other => same (of_decide_eq_true other).symm

theorem get?_added (name : String) : r.added.get? name =
    if name = "exception" then r.exception.map Json.text
    else if name ∈ reserved then none
    else r.fields.bind (·.get? name) := by
  have parts : r.added.get? name = ((r.given.find? fun f => f.1 = name).map Prod.snd).or
      ((r.raised.find? fun m => m.1 = name).map Prod.snd) := by
    unfold added Table.get?
    dsimp only
    rw [List.find?_append, Option.map_or]
  rw [parts, find?_given, find?_raised]
  by_cases same : name = "exception"
  · have held : "exception" ∈ reserved := by decide
    rw [if_pos same, if_pos same, same, if_pos held]
    rfl
  · rw [if_neg same, if_neg same, Option.or_none]
    split
    · rfl
    · cases r.fields <;> rfl

theorem own_texts (stamp : String) : ∀ m ∈ (r.own stamp).entries, ∃ s, m.2 = Json.text s := by
  simp only [own, List.forall_mem_cons, Json.text.injEq, exists_eq', List.not_mem_nil,
    false_implies, implies_true, and_self]

theorem own_keys {stamp name : String} (member : name ∈ (r.own stamp).keys) :
    name ∈ reserved ∧ name ≠ "exception" := by
  have all : ∀ key ∈ ["timestamp", "level", "logger", "thread", "message"],
      key ∈ reserved ∧ key ≠ "exception" := by decide
  exact all name member

theorem get?_own {name : String} (stamp : String)
    (other : name ∉ reserved ∨ name = "exception") : (r.own stamp).get? name = none := by
  cases found : (r.own stamp).get? name with
  | none => rfl
  | some v =>
    obtain ⟨held, differs⟩ := r.own_keys (Table.mem_keys_of_get? found)
    exact absurd other (not_or.mpr ⟨not_not_intro held, differs⟩)

/-- The members of the line at a time. -/
def membersAt (stamp : String) : Table String Json :=
  (Table.ofList (r.own stamp).entries).insertAll r.added.entries

theorem get?_membersAt (stamp name : String) :
    (r.membersAt stamp).get? name = (r.added.get? name).or ((r.own stamp).get? name) := by
  rw [membersAt, Table.ofList, Table.get?_insertAll, Table.get?_insertAll, Table.get?_empty,
    Option.or_none]

/-- No field takes the place of what the record says. -/
theorem get?_membersAt_own {stamp name : String} {v : Json}
    (said : (name, v) ∈ (r.own stamp).entries) : (r.membersAt stamp).get? name = some v := by
  have found := Table.mem_entries_iff.mp said
  obtain ⟨held, other⟩ := r.own_keys (Table.mem_keys_of_get? found)
  rw [get?_membersAt, get?_added, if_neg other, if_pos held, Option.none_or, found]

theorem get?_membersAt_exception (stamp : String) :
    (r.membersAt stamp).get? "exception" = r.exception.map Json.text := by
  rw [get?_membersAt, get?_added, if_pos rfl, r.get?_own stamp (.inr rfl), Option.or_none]

theorem get?_membersAt_field (stamp : String) {name : String} (free : name ∉ reserved) :
    (r.membersAt stamp).get? name = r.fields.bind (·.get? name) := by
  have other : name ≠ "exception" := fun same => free (same ▸ by decide)
  rw [get?_membersAt, get?_added, if_neg other, if_neg free, r.get?_own stamp (.inl free),
    Option.or_none]

theorem isFinite_membersAt (stamp : String)
    (finite : ∀ fields ∈ r.fields, ∀ f ∈ fields.entries, f.2.IsFinite) :
    ∀ m ∈ (r.membersAt stamp).entries, m.2.IsFinite := by
  rintro ⟨name, v⟩ member
  have found := Table.mem_entries_iff.mp member
  by_cases same : name = "exception"
  · rw [same, get?_membersAt_exception] at found
    obtain ⟨e, -, rfl⟩ := Option.map_eq_some_iff.mp found
    exact .text _
  by_cases held : name ∈ reserved
  · rw [get?_membersAt, get?_added, if_neg same, if_pos held, Option.none_or] at found
    obtain ⟨s, text⟩ := r.own_texts stamp _ (Table.mem_entries_iff.mpr found)
    exact text ▸ .text s
  · rw [r.get?_membersAt_field stamp held] at found
    obtain ⟨fields, given, found⟩ := Option.bind_eq_some_iff.mp found
    exact finite fields given _ (Table.mem_entries_iff.mpr found)

theorem members_of_timestamp {stamp : String} (told : timestamp r.created = .ok stamp) :
    r.members = .ok (r.membersAt stamp) := by
  unfold members
  rw [told]
  rfl

theorem line_of_timestamp {stamp : String} (told : timestamp r.created = .ok stamp) :
    r.line = .ok (Json.object (r.membersAt stamp).entries).render := by
  unfold line
  rw [r.members_of_timestamp told]
  rfl

theorem line_of_error {e : TimeError} (missing : timestamp r.created = .error e) :
    r.line = .error e := by
  unfold line members
  rw [missing]
  rfl

/-- There is no line only if the seconds name no time. -/
theorem timestamp_of_line {text : String} (written : r.line = .ok text) :
    ∃ stamp, timestamp r.created = .ok stamp ∧
      text = (Json.object (r.membersAt stamp).entries).render := by
  cases told : timestamp r.created with
  | error e =>
    rw [r.line_of_error told] at written
    cases written
  | ok stamp =>
    rw [r.line_of_timestamp told] at written
    exact ⟨stamp, rfl, (Except.ok.inj written).symm⟩

/-- A record whose message holds quotes, line breaks and text like that of a line, and whose fields
bear the names of what the record says. -/
def spoofed (exception : Option String) : Record where
  created := .whole 1700000000
  level := .info
  logger := "bundler.\"cache\""
  thread := "worker\r\n1"
  message := "done\n\x7b\"level\": \"ERROR\"\x7d \u2028 😀"
  fields := some ⟨[("level", .text "ERROR"), ("exception", .null), ("message", .text ""),
    ("sizes", .object [("mean", .real 0.1),
      ("all", .array [.whole (-3), .real 1e300, .bool true])])],
    by decide⟩
  exception := exception

/-- An exception over several lines, with a cause. -/
def causedTrace : String :=
  "PermissionError: \"/p/a.js\"\r\n\nwhich caused\n\n  in load, line 12\nReadError: no text \u2029"

end Record

end ModuleBundler.Log
