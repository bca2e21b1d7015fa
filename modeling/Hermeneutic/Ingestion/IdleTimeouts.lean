import Hermeneutic.Ingestion.BookSubscription

/-!
# Idle timeouts and threads of a config

The optional part of a config (`ingestion/book_subscription.hpp`): a default idle timeout, one
override for each venue that needs another, and a number of threads. Each field is read by a
`simdjson` access, given here by its result. An absent field keeps its default, one of the
wrong type is a mistake like a value out of range, and any other error means a malformed
document.

`parseIdleTimeoutConfig_ok_iff` says which configs are accepted and what they mean. What is
accepted is a positive number of seconds for every venue (`forVenue_withinLimit`), few enough to be
counted in nanoseconds (`nanoseconds_of_withinLimit`, `ingestion/idle_timeout.hpp`).

The three fields that hold a number are read alike (`optionalNumber`): absence, a wrong type, a
value out of range and a broken document are told apart in the same order. `NumberDenotes` is what
such a field means, `OverridesDenote` what the object of overrides does, entry by entry. The range
that is accepted is the one that the conversion to nanoseconds needs, which is proved here of the
constants themselves.
-/

namespace Hermeneutic

/-- The errors of a `simdjson` access that are told apart. -/
inductive SimdjsonCode
  | noSuchField
  | incorrectType
  | other
  deriving DecidableEq

structure SimdjsonError where
  code : SimdjsonCode
  what : String

/-- Seconds, `std::chrono::seconds`. -/
abbrev Seconds := Int64

def kDefaultIdleTimeout : Seconds := 30

def kMaxIdleTimeout : Seconds := 24 * 60 * 60

def kMaxIoThreads : Int64 := 64

/-- Where a value has to lie. -/
def WithinLimit (max n : Int64) : Prop := 0 < n ∧ n ≤ max

instance (max n : Int64) : Decidable (WithinLimit max n) := inferInstanceAs (Decidable (_ ∧ _))

/-- What the outermost `catch` reports. -/
def malformedConfig (e : SimdjsonError) : String := "malformed subscription config: " ++ e.what

/-- An optional number, with the error that reports both a wrong type and a wrong value. -/
def optionalNumber (max : Int64) (rangeError : String) (access : Except SimdjsonError Int64) :
    Except String (Option Int64) :=
  match access with
  | .ok n => if WithinLimit max n then .ok (some n) else .error rangeError
  | .error e =>
    match e.code with
    | .incorrectType => .error rangeError
    | .noSuchField => .ok none
    | .other => .error (malformedConfig e)

structure IdleTimeoutConfig where
  defaultTimeout : Seconds := kDefaultIdleTimeout
  overrides : List (VenueId × Seconds) := []

/-- The timeout of a venue's session. -/
def IdleTimeoutConfig.forVenue (config : IdleTimeoutConfig) (venue : VenueId) : Seconds :=
  (config.overrides.lookup venue).getD config.defaultTimeout

/-- One entry of `"venue_idle_timeout_overrides"`, decoded. -/
structure OverrideEntry where
  venue : String
  type : String
  seconds : Int64

def idleTimeoutRangeError : String :=
  "\"idle_timeout_seconds\" must be a positive number of seconds, no more than " ++
    toString kMaxIdleTimeout.toInt ++ " (24 hours)"

/-- One entry of the overrides. -/
def overrideStep (config : IdleTimeoutConfig) (entry : Except SimdjsonError OverrideEntry) :
    Except String IdleTimeoutConfig :=
  match entry with
  | .error e =>
    if e.code = .other then .error (malformedConfig e)
    else .error ("each entry in \"venue_idle_timeout_overrides\" needs \"venue\" (string), " ++
      "\"type\" (string), and \"seconds\" (positive integer)")
  | .ok entry =>
    if ¬WithinLimit kMaxIdleTimeout entry.seconds then
      .error ("idle timeout override for \"" ++ entry.venue ++
        "\" must be a positive number of seconds, no more than " ++
        toString kMaxIdleTimeout.toInt ++ " (24 hours)")
    else
      match parseExchange entry.venue with
      | none => .error ("unknown venue \"" ++ entry.venue ++
          "\" in \"venue_idle_timeout_overrides\"")
      | some exchange =>
        match parseMarketType entry.type with
        | none => .error ("unknown type \"" ++ entry.type ++
            "\" in \"venue_idle_timeout_overrides\" (expected SPOT or PERP)")
        | some type =>
          if (config.overrides.lookup ⟨exchange, type⟩).isSome then
            .error ("idle timeout override for \"" ++ entry.venue ++ "_" ++ entry.type ++
              "\" is configured more than once")
          else
            .ok { config with
              overrides := config.overrides ++ [(⟨exchange, type⟩, entry.seconds)] }

/-- The idle-timeout section of a config. -/
def parseIdleTimeoutConfig (idleTimeoutSeconds : Except SimdjsonError Int64)
    (overrides : Except SimdjsonError (List (Except SimdjsonError OverrideEntry))) :
    Except String IdleTimeoutConfig := do
  let defaultSeconds ← optionalNumber kMaxIdleTimeout idleTimeoutRangeError idleTimeoutSeconds
  let config : IdleTimeoutConfig := { defaultTimeout := defaultSeconds.getD kDefaultIdleTimeout }
  match overrides with
  | .error e => if e.code = .noSuchField then .ok config else .error (malformedConfig e)
  | .ok entries => entries.foldlM overrideStep config

def ioThreadsRangeError : String :=
  "\"io_threads\" must be a positive integer, no more than " ++ toString kMaxIoThreads.toInt

/-- The number of threads of a config. -/
def parseIoThreads (ioThreads : Except SimdjsonError Int64) : Except String Int64 := do
  let threads ← optionalNumber kMaxIoThreads ioThreadsRangeError ioThreads
  return threads.getD 1

/-! ### Numbers -/

/-- A field is absent. -/
def Absent {α : Type*} (access : Except SimdjsonError α) : Prop :=
  ∃ e, access = .error e ∧ e.code = .noSuchField

/-- What an accepted number says, with its default. -/
def NumberDenotes (max fallback : Int64) (access : Except SimdjsonError Int64) (n : Int64) :
    Prop :=
  Absent access ∧ n = fallback ∨ access = .ok n ∧ WithinLimit max n

private theorem optionalNumber_ok_iff {max fallback n : Int64} {rangeError : String}
    {access : Except SimdjsonError Int64} :
    (∃ found, optionalNumber max rangeError access = .ok found ∧ found.getD fallback = n) ↔
      NumberDenotes max fallback access n := by
  cases access with
  | ok m =>
    by_cases hrange : WithinLimit max m
    · simp only [optionalNumber, hrange, if_true, NumberDenotes, Absent, reduceCtorEq, false_and,
        exists_false, false_or, Except.ok.injEq]
      constructor
      · rintro ⟨-, rfl, rfl⟩
        exact ⟨rfl, hrange⟩
      · rintro ⟨rfl, -⟩
        exact ⟨_, rfl, rfl⟩
    · simp only [optionalNumber, hrange, if_false, NumberDenotes, Absent, reduceCtorEq, false_and,
        exists_false, false_or, Except.ok.injEq]
      refine iff_of_false not_false ?_
      rintro ⟨rfl, hrange'⟩
      exact hrange hrange'
  | error e =>
    obtain ⟨code, what⟩ := e
    cases code <;> simp [optionalNumber, NumberDenotes, Absent, eq_comm]

/-! ### Overrides -/

/-- An entry without a mistake, and what it says. -/
structure OverrideEntry.Denotes (entry : OverrideEntry) (override : VenueId × Seconds) : Prop where
  exchange : parseExchange entry.venue = some override.1.exchange
  type : parseMarketType entry.type = some override.1.type
  seconds : entry.seconds = override.2
  range : WithinLimit kMaxIdleTimeout override.2

/-- An entry is accepted when it has no mistake and its venue has no override yet. -/
private theorem overrideStep_ok_iff {config config' : IdleTimeoutConfig}
    {entry : Except SimdjsonError OverrideEntry} :
    overrideStep config entry = .ok config' ↔
      ∃ e override, entry = .ok e ∧ e.Denotes override ∧
        config.overrides.lookup override.1 = none ∧
        config' = { config with overrides := config.overrides ++ [override] } := by
  constructor
  · intro h
    cases entry with
    | error e =>
      rw [overrideStep] at h
      split_ifs at h
    | ok e =>
      rw [overrideStep] at h
      split_ifs at h with hrange
      cases hexchange : parseExchange e.venue with
      | none =>
        rw [hexchange] at h
        cases h
      | some exchange =>
        cases htype : parseMarketType e.type with
        | none =>
          rw [hexchange, htype] at h
          cases h
        | some type =>
          simp only [hexchange, htype] at h
          split_ifs at h with hseen
          refine ⟨e, (⟨exchange, type⟩, e.seconds), rfl, ⟨hexchange, htype, rfl, ?_⟩, ?_, ?_⟩
          · simpa using hrange
          · exact Option.not_isSome_iff_eq_none.mp hseen
          · exact (Except.ok.inj h).symm
  · rintro ⟨e, ⟨⟨exchange, type⟩, seconds⟩, rfl, hdenotes, hfresh, rfl⟩
    have hseconds : e.seconds = seconds := hdenotes.seconds
    simp only [overrideStep, hdenotes.exchange, hdenotes.type, hseconds, hdenotes.range, hfresh,
      not_true_eq_false, if_false, Option.isSome_none, Bool.false_eq_true]

private theorem lookup_eq_none_iff {α β : Type*} [DecidableEq α] {k : α} {entries : List (α × β)} :
    entries.lookup k = none ↔ k ∉ entries.map Prod.fst := by
  rw [List.lookup_eq_none_iff, List.mem_map, not_exists]
  refine forall_congr' fun entry => ?_
  rw [not_and, bne_iff_ne, ne_comm]

/-- The overrides are accepted when no entry has a mistake and no two name one venue. -/
private theorem overrideLoop_ok_iff {config config' : IdleTimeoutConfig}
    {entries : List (Except SimdjsonError OverrideEntry)} :
    entries.foldlM overrideStep config = .ok config' ↔
      ∃ overrides, List.Forall₂ (fun entry override => ∃ e, entry = .ok e ∧ e.Denotes override)
          entries overrides ∧
        (∀ override ∈ overrides, override.1 ∉ config.overrides.map Prod.fst) ∧
        (overrides.map Prod.fst).Nodup ∧
        config' = { config with overrides := config.overrides ++ overrides } := by
  induction entries generalizing config with
  | nil =>
    constructor
    · intro h
      obtain rfl := Except.ok.inj h
      exact ⟨[], .nil, by simp⟩
    · rintro ⟨overrides, hentries, -, -, rfl⟩
      cases hentries
      rw [List.append_nil]
      rfl
  | cons entry entries ih =>
    rw [List.foldlM_cons]
    constructor
    · intro h
      obtain ⟨next, hstep, hrest⟩ := exists_of_bind_ok h
      obtain ⟨e, override, rfl, hdenotes, hfresh, rfl⟩ := overrideStep_ok_iff.mp hstep
      obtain ⟨overrides, hentries, hnew, hnodup, rfl⟩ := ih.mp hrest
      simp only [List.map_append, List.map_cons, List.map_nil, List.mem_append,
        List.mem_singleton, not_or] at hnew
      refine ⟨override :: overrides, .cons ⟨e, rfl, hdenotes⟩ hentries, ?_, ?_, ?_⟩
      · exact List.forall_mem_cons.mpr
          ⟨lookup_eq_none_iff.mp hfresh, fun override' hmem => (hnew override' hmem).1⟩
      · refine List.nodup_cons.mpr ⟨fun hmem => ?_, hnodup⟩
        obtain ⟨override', hmem, heq⟩ := List.mem_map.mp hmem
        exact (hnew override' hmem).2 heq
      · rw [List.append_assoc, List.singleton_append]
    · rintro ⟨overrides, hentries, hnew, hnodup, rfl⟩
      cases hentries with
      | @cons _ override _ overrides hentry hentries =>
        obtain ⟨e, rfl, hdenotes⟩ := hentry
        obtain ⟨hfresh, hnew⟩ := List.forall_mem_cons.mp hnew
        obtain ⟨hhead, hnodup⟩ := List.nodup_cons.mp hnodup
        rw [overrideStep_ok_iff.mpr
          ⟨e, override, rfl, hdenotes, lookup_eq_none_iff.mpr hfresh, rfl⟩]
        refine ih.mpr ⟨overrides, hentries, fun override' hmem => ?_, hnodup, ?_⟩
        · simp only [List.map_append, List.map_cons, List.map_nil, List.mem_append,
            List.mem_singleton, not_or]
          refine ⟨hnew override' hmem, fun heq => hhead ?_⟩
          exact List.mem_map.mpr ⟨override', hmem, heq⟩
        · rw [List.append_assoc, List.singleton_append]

/-- What an accepted overrides field says. -/
def OverridesDenote (field : Except SimdjsonError (List (Except SimdjsonError OverrideEntry)))
    (overrides : List (VenueId × Seconds)) : Prop :=
  Absent field ∧ overrides = [] ∨ ∃ entries, field = .ok entries ∧
    List.Forall₂ (fun entry override => ∃ e, entry = .ok e ∧ e.Denotes override) entries
      overrides ∧ (overrides.map Prod.fst).Nodup

/-- **The idle timeouts of a config.** -/
theorem parseIdleTimeoutConfig_ok_iff {idleTimeoutSeconds : Except SimdjsonError Int64}
    {field : Except SimdjsonError (List (Except SimdjsonError OverrideEntry))}
    {config : IdleTimeoutConfig} :
    parseIdleTimeoutConfig idleTimeoutSeconds field = .ok config ↔
      NumberDenotes kMaxIdleTimeout kDefaultIdleTimeout idleTimeoutSeconds
          config.defaultTimeout ∧
        OverridesDenote field config.overrides := by
  have hnumber := @optionalNumber_ok_iff kMaxIdleTimeout kDefaultIdleTimeout config.defaultTimeout
    idleTimeoutRangeError idleTimeoutSeconds
  rw [← hnumber, parseIdleTimeoutConfig]
  cases optionalNumber kMaxIdleTimeout idleTimeoutRangeError idleTimeoutSeconds with
  | error e =>
    refine iff_of_false (fun h => nomatch h) ?_
    rintro ⟨⟨found, hfound, -⟩, -⟩
    cases hfound
  | ok found =>
    have hdefault : (∃ found', Except.ok (ε := String) found = .ok found' ∧
        found'.getD kDefaultIdleTimeout = config.defaultTimeout) ↔
        found.getD kDefaultIdleTimeout = config.defaultTimeout := by
      constructor
      · rintro ⟨found', heq, hvalue⟩
        rwa [Except.ok.inj heq]
      · exact fun hvalue => ⟨found, rfl, hvalue⟩
    rw [hdefault]
    change (match field with
      | .error e => if e.code = .noSuchField
          then .ok { defaultTimeout := found.getD kDefaultIdleTimeout }
          else .error (malformedConfig e)
      | .ok entries => entries.foldlM overrideStep
          { defaultTimeout := found.getD kDefaultIdleTimeout }) = Except.ok config ↔ _
    obtain ⟨defaultTimeout, overrides⟩ := config
    cases field with
    | error e =>
      by_cases hcode : e.code = .noSuchField
      · simp [OverridesDenote, Absent, hcode, eq_comm]
      · simp [OverridesDenote, Absent, hcode]
    | ok entries =>
      simp only [OverridesDenote, Absent, reduceCtorEq, false_and, exists_false, false_or,
        overrideLoop_ok_iff, List.map_nil, List.not_mem_nil, not_false_eq_true, implies_true,
        true_and, List.nil_append, IdleTimeoutConfig.mk.injEq, Except.ok.injEq]
      constructor
      · rintro ⟨overrides', hentries, hnodup, rfl, rfl⟩
        exact ⟨rfl, entries, rfl, hentries, hnodup⟩
      · rintro ⟨rfl, entries', rfl, hentries, hnodup⟩
        exact ⟨overrides, hentries, hnodup, rfl, rfl⟩

/-! ### What is accepted -/

theorem NumberDenotes.range {max fallback n : Int64} {access : Except SimdjsonError Int64}
    (h : NumberDenotes max fallback access n) (hfallback : WithinLimit max fallback) :
    WithinLimit max n := by
  rcases h with ⟨-, rfl⟩ | ⟨-, hrange⟩
  · exact hfallback
  · exact hrange

theorem OverridesDenote.range {overrides : List (VenueId × Seconds)}
    {field : Except SimdjsonError (List (Except SimdjsonError OverrideEntry))}
    (h : OverridesDenote field overrides) {override : VenueId × Seconds}
    (hmem : override ∈ overrides) : WithinLimit kMaxIdleTimeout override.2 := by
  rcases h with ⟨-, rfl⟩ | ⟨entries, -, hentries, -⟩
  · cases hmem
  · obtain ⟨entry, -, e, -, hdenotes⟩ := exists_of_mem_forall₂ hentries.flip hmem
    exact hdenotes.range

/-- Every venue has a timeout in range. -/
theorem forVenue_withinLimit {idleTimeoutSeconds : Except SimdjsonError Int64}
    {field : Except SimdjsonError (List (Except SimdjsonError OverrideEntry))}
    {config : IdleTimeoutConfig} (h : parseIdleTimeoutConfig idleTimeoutSeconds field = .ok config)
    (venue : VenueId) : WithinLimit kMaxIdleTimeout (config.forVenue venue) := by
  obtain ⟨hdefault, hoverrides⟩ := parseIdleTimeoutConfig_ok_iff.mp h
  rw [IdleTimeoutConfig.forVenue]
  cases hlookup : config.overrides.lookup venue with
  | none => exact hdefault.range (by decide)
  | some seconds =>
    obtain ⟨pre, post, heq, -⟩ := List.lookup_eq_some_iff.mp hlookup
    have hmem : (venue, seconds) ∈ config.overrides := by simp [heq]
    exact hoverrides.range hmem

/-- A timeout in range does not overflow when it is counted in nanoseconds. -/
theorem nanoseconds_of_withinLimit {seconds : Seconds} (h : WithinLimit kMaxIdleTimeout seconds) :
    0 < seconds.toInt ∧ (seconds * 1000000000).toInt = seconds.toInt * 1000000000 := by
  have hpos : 0 < seconds.toInt := Int64.lt_iff_toInt_lt.mp h.1
  have hmax : seconds.toInt ≤ 86400 := Int64.le_iff_toInt_le.mp h.2
  have hbillion : (1000000000 : Int64).toInt = 1000000000 := rfl
  refine ⟨hpos, ?_⟩
  rw [Int64.toInt_mul, hbillion]
  exact Int.bmod_eq_of_le (by omega) (by omega)

/-- **The number of threads of a config.** -/
theorem parseIoThreads_ok_iff {ioThreads : Except SimdjsonError Int64} {n : Int64} :
    parseIoThreads ioThreads = .ok n ↔ NumberDenotes kMaxIoThreads 1 ioThreads n := by
  rw [← @optionalNumber_ok_iff kMaxIoThreads 1 n ioThreadsRangeError, parseIoThreads]
  cases optionalNumber kMaxIoThreads ioThreadsRangeError ioThreads with
  | error e =>
    refine iff_of_false (fun h => nomatch h) ?_
    rintro ⟨found, hfound, -⟩
    cases hfound
  | ok found =>
    constructor
    · exact fun h => ⟨found, rfl, Except.ok.inj h⟩
    · rintro ⟨found', heq, rfl⟩
      rw [Except.ok.inj heq]
      rfl

end Hermeneutic
