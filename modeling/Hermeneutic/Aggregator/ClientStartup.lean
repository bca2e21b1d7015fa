import Hermeneutic.Aggregator.BandLabels
import Hermeneutic.ForMathlib.ListTraversal
import Hermeneutic.Symbol.BookId

/-!
# Starting a client

`clientMain` is what `main` of `apps/aggregator/client_main.cpp` makes of its arguments: a
list of the books, or one stream a book in one of the other modes; or the lines it exits with.
The band flags are taken out first, wherever they stand.

`Requests` says what a command line asks for. A client starts for exactly these, and does what
is asked (`client_runs_what_is_asked`): in particular no band it was given fails for its
thresholds, and every label is the number it stands for.

The model reads an argument the way the source does, with `std::stoi` on the duration and its two
exceptions, and keeps the texts of every error. The specification does not: a number is what its
digits say (`IsInteger`, `IsNumber`), a list of thresholds is one in the flags' grammar, and the
defaults are lists of that kind like any other. For each reader there is one lemma that says what
it accepts and returns, and `clientMain` is a sequence of these. That the outcome does not depend
on where the flags stand is a fact about `extractFlags` alone: it depends on the arguments that
are no flags, in their order, and on the last value of each flag.
-/

namespace Hermeneutic

open BasicFixedPoint

/-! ### The flags -/

/-- The band flags, pulled out of the arguments. -/
structure CliFlags where
  volumeThresholdsCsv : Option (List Char) := none
  priceBpsCsv : Option (List Char) := none

def kVolumeFlag : String := "--volume-thresholds="

def kPriceFlag : String := "--price-bps="

/-- What is behind the name of a flag, in an argument that begins with it. -/
def flagValue (flag arg : String) : Option (List Char) :=
  if flag.toList.isPrefixOf arg.toList then some (arg.toList.drop flag.toList.length) else none

/-- Pulls the flags out of the arguments; a flag given twice is an error. -/
def extractFlags (flags : CliFlags) : List String → Except String (CliFlags × List String)
  | [] => .ok (flags, [])
  | arg :: args =>
    match flagValue kVolumeFlag arg, flagValue kPriceFlag arg with
    | some csv, _ =>
      if flags.volumeThresholdsCsv.isSome then .error (kVolumeFlag ++ " given more than once")
      else extractFlags { flags with volumeThresholdsCsv := some csv } args
    | none, some csv =>
      if flags.priceBpsCsv.isSome then .error (kPriceFlag ++ " given more than once")
      else extractFlags { flags with priceBpsCsv := some csv } args
    | none, none => (extractFlags flags args).map fun (flags, rest) => (flags, arg :: rest)

/-! ### The arguments -/

inductive Mode
  | bbo
  | volumeBands
  | priceBands
  | list
  deriving DecidableEq

/-- How a mode is asked for. -/
def Mode.token : Mode → String
  | bbo => "bbo"
  | volumeBands => "volume-bands"
  | priceBands => "price-bands"
  | list => "list"

def parseMode (token : String) : Option Mode :=
  if token = "bbo" then some .bbo
  else if token = "volume-bands" then some .volumeBands
  else if token = "price-bands" then some .priceBands
  else if token = "list" then some .list
  else none

/-- What `std::stoi` throws. -/
inductive StoiException
  | invalidArgument
  | outOfRange
  deriving DecidableEq

/-- `std::isspace`. -/
def isSpace (c : Char) : Bool :=
  c = ' ' || c = '\t' || c = '\n' || c = '\x0b' || c = '\x0c' || c = '\r'

/-- The sign `std::strtol` takes. -/
def strtolSign : List Char → Bool × List Char
  | '-' :: rest => (true, rest)
  | '+' :: rest => (false, rest)
  | text => (false, text)

/-- What digits behind a sign denote. -/
def signed (negative : Bool) (digits : List Char) : ℤ :=
  if negative then -digitsValue digits else digitsValue digits

/-- `std::stoi`: the number at the start of a text, and what it did not consume. -/
def stoi (text : List Char) : Except StoiException (Int32 × List Char) :=
  let (negative, digits) := strtolSign (text.dropWhile isSpace)
  let pattern := digits.takeWhile Char.isDigit
  if pattern.isEmpty then .error .invalidArgument
  else
    let parsed := signed negative pattern
    if parsed < -2 ^ 31 ∨ parsed > 2 ^ 31 - 1 then .error .outOfRange
    else .ok (Int32.ofInt parsed, digits.dropWhile Char.isDigit)

/-- The duration, consumed to its end. -/
def parseDuration (text : String) : Except String Int32 :=
  match stoi text.toList with
  | .ok (duration, rest) =>
    if rest.isEmpty then .ok duration
    else .error ("invalid duration_seconds \"" ++ text ++
      "\" (trailing characters after the integer)")
  | .error .outOfRange =>
    .error ("invalid duration_seconds \"" ++ text ++ "\" (integer out of range)")
  | .error .invalidArgument =>
    .error ("invalid duration_seconds \"" ++ text ++ "\" (expected an integer)")

/-- The books, up to the first that is malformed. -/
def parseBooks (tokens : List String) : Except String (List BookId) :=
  tokens.mapM fun token =>
    match parseBookId token.toList with
    | some id => .ok id
    | none => .error ("invalid book \"" ++ token ++
        "\" (expected e.g. BTC_USDT.SPOT or BTC_USDT.PERP)")

/-! ### The client -/

/-- A line on the standard error. -/
inductive StderrLine
  | text (line : String)
  /-- What `print_usage` prints. -/
  | usage
  deriving DecidableEq

/-- Replaces the thresholds by the ones of a flag. -/
def applyBandOverride {α : Type} (csv : Option (List Char)) (parse : List Char → Option (List α))
    (flagName hint : String) (target : List α) : Except String (List α) :=
  match csv with
  | none => .ok target
  | some csv =>
    match parse csv with
    | some parsed => .ok parsed
    | none =>
      .error ("invalid " ++ flagName ++ "=\"" ++ String.ofList csv ++ "\" (" ++ hint ++ ")")

/-- The thresholds of a band list, and the note that its flag is ignored. -/
def bandThresholds {α : Type} (mode applies : Mode) (csv : Option (List Char))
    (parse : List Char → Option (List α)) (flagName hint : String) (target : List α) :
    Except (List StderrLine) (List α × List StderrLine) :=
  if mode = applies then
    match applyBandOverride csv parse flagName hint target with
    | .ok thresholds => .ok (thresholds, [])
    | .error line => .error [.text line, .usage]
  else
    .ok (target, if csv.isSome then
      [.text ("note: " ++ flagName ++ "= has no effect in " ++ mode.token ++ " mode (ignored)")]
      else [])

def kDefaultVolumeBandThresholds : List Notional :=
  [⟨1000000000000000⟩, ⟨5000000000000000⟩, ⟨10000000000000000⟩, ⟨25000000000000000⟩,
    ⟨50000000000000000⟩]

def kDefaultPriceBandBps : List Int32 := [50, 100, 200, 500, 1000]

/-- What a client does. -/
inductive ClientRun
  | list (address : String)
  /-- One thread a book, and a stop after `duration` seconds if that is positive. -/
  | publish (mode : Mode) (address : String) (duration : Int32) (books : List BookId)
      (config : BandConfig)

/-- The part of `main` that the modes with a stream share. -/
def publishMain (fmt : FormatFixed) (flags : CliFlags) (mode : Mode) (address : String)
    (args : List String) : Except (List StderrLine) (ClientRun × List StderrLine) := do
  let (volumeThresholds, volumeNotes) ← bandThresholds mode .volumeBands flags.volumeThresholdsCsv
    parseVolumeThresholds "--volume-thresholds"
    ("expected a comma-separated, ascending, strictly positive list of integers - " ++
      "no decimals or scientific notation - e.g. 1000000,5000000,10000000,25000000,50000000")
    kDefaultVolumeBandThresholds
  let (priceBps, priceNotes) ← (bandThresholds mode .priceBands flags.priceBpsCsv parsePriceBps
    "--price-bps"
    "expected a comma-separated, ascending bps list in [0, 10000), e.g. 50,100,200,500,1000"
    kDefaultPriceBandBps).mapError (volumeNotes ++ ·)
  let notes := volumeNotes ++ priceNotes
  let config : BandConfig :=
    { volumeThresholds
      volumeLabels := buildLabels volumeThresholds (formatNotionalLabel fmt)
      priceBps
      priceLabels := buildLabels priceBps formatBpsLabel }
  match args with
  | durationStr :: tokens@(_ :: _) =>
    let duration ← (parseDuration durationStr).mapError (notes ++ [.text ·, .usage])
    let books ← (parseBooks tokens).mapError (notes ++ [.text ·])
    return (.publish mode address duration books config, notes)
  | _ => .error (notes ++ [.usage])

/-- What `main` makes of its arguments, behind the name of the program. -/
def clientMain (fmt : FormatFixed) (args : List String) :
    Except (List StderrLine) (ClientRun × List StderrLine) := do
  let (flags, args) ← (extractFlags {} args).mapError ([.text ·, .usage])
  match args with
  | address :: modeStr :: rest =>
    match parseMode modeStr with
    | none => .error [.text ("unknown mode \"" ++ modeStr ++
        "\" (expected bbo, volume-bands, price-bands, or list)"), .usage]
    | some .list =>
      if !rest.isEmpty || flags.volumeThresholdsCsv.isSome || flags.priceBpsCsv.isSome then
        .error [.text "list takes no further arguments", .usage]
      else .ok (.list address, [])
    | some mode => publishMain fmt flags mode address rest
  | _ => .error [.usage]

/-! ### Pulling the flags out -/

/-- An argument that is no flag. -/
def isPositional (arg : String) : Bool :=
  (flagValue kVolumeFlag arg).isNone && (flagValue kPriceFlag arg).isNone

/-- The values given for a flag. -/
def flagValues (flag : String) (args : List String) : List (List Char) :=
  args.filterMap (flagValue flag)

/-- No argument begins with both flags. -/
private theorem flagValue_price_of_volume {arg : String} {csv : List Char}
    (h : flagValue kVolumeFlag arg = some csv) : flagValue kPriceFlag arg = none := by
  rw [flagValue, Option.ite_none_right_eq_some, List.isPrefixOf_iff_prefix] at h
  refine if_neg fun hprice => ?_
  rw [List.isPrefixOf_iff_prefix] at hprice
  rcases List.prefix_or_prefix_of_prefix h.1 hprice with hprefix | hprefix
  · exact absurd hprefix (by decide)
  · exact absurd hprefix (by decide)

section ExtractFlags

variable {flags flags' : CliFlags} {arg : String} {args rest : List String} {csv : List Char}

private theorem extractFlags_volume (h : flagValue kVolumeFlag arg = some csv) :
    extractFlags flags (arg :: args) =
      if flags.volumeThresholdsCsv.isSome then .error (kVolumeFlag ++ " given more than once")
      else extractFlags { flags with volumeThresholdsCsv := some csv } args := by
  rw [extractFlags, h]

private theorem extractFlags_price (hvolume : flagValue kVolumeFlag arg = none)
    (h : flagValue kPriceFlag arg = some csv) :
    extractFlags flags (arg :: args) =
      if flags.priceBpsCsv.isSome then .error (kPriceFlag ++ " given more than once")
      else extractFlags { flags with priceBpsCsv := some csv } args := by
  rw [extractFlags, hvolume, h]

private theorem extractFlags_positional (hvolume : flagValue kVolumeFlag arg = none)
    (hprice : flagValue kPriceFlag arg = none) :
    extractFlags flags (arg :: args) =
      (extractFlags flags args).map fun p => (p.1, arg :: p.2) := by
  rw [extractFlags, hvolume, hprice]

/-- What is pulled out: at most one value for each flag, and the other arguments remain. -/
private theorem extractFlags_ok_iff : extractFlags flags args = .ok (flags', rest) ↔
    flags.volumeThresholdsCsv.toList ++ flagValues kVolumeFlag args =
        flags'.volumeThresholdsCsv.toList ∧
      flags.priceBpsCsv.toList ++ flagValues kPriceFlag args = flags'.priceBpsCsv.toList ∧
      args.filter isPositional = rest := by
  -- a flag given before does not fit into the flags with another value of it
  have htwice : ∀ (csv csv' : List Char) (values : List (List Char)) (o : Option (List Char)),
      [csv] ++ csv' :: values ≠ o.toList := by
    rintro csv csv' values (_ | csv'') h <;> simp at h
  induction args generalizing flags rest with
  | nil =>
    have hinj : ∀ o o' : Option (List Char), o.toList = o'.toList ↔ o = o' := by
      rintro (_ | csv) (_ | csv') <;> simp
    obtain ⟨volume, price⟩ := flags
    obtain ⟨volume', price'⟩ := flags'
    simp only [extractFlags, flagValues, List.filterMap_nil, List.filter_nil, List.append_nil,
      hinj, Except.ok.injEq, Prod.mk.injEq, CliFlags.mk.injEq, and_assoc]
  | cons arg args ih =>
    cases hvolume : flagValue kVolumeFlag arg with
    | some csv =>
      rw [extractFlags_volume hvolume, flagValues, flagValues, List.filterMap_cons_some hvolume,
        List.filterMap_cons_none (flagValue_price_of_volume hvolume),
        List.filter_cons_of_neg (by simp [isPositional, hvolume])]
      cases hgiven : flags.volumeThresholdsCsv with
      | some csv' => exact iff_of_false nofun fun h => htwice _ _ _ _ h.1
      | none => exact ih
    | none =>
      cases hprice : flagValue kPriceFlag arg with
      | some csv =>
        rw [extractFlags_price hvolume hprice, flagValues, flagValues,
          List.filterMap_cons_none hvolume, List.filterMap_cons_some hprice,
          List.filter_cons_of_neg (by simp [isPositional, hprice])]
        cases hgiven : flags.priceBpsCsv with
        | some csv' => exact iff_of_false nofun fun h => htwice _ _ _ _ h.2.1
        | none => exact ih
      | none =>
        rw [extractFlags_positional hvolume hprice, flagValues, flagValues,
          List.filterMap_cons_none hvolume, List.filterMap_cons_none hprice,
          List.filter_cons_of_pos (by simp [isPositional, hvolume, hprice])]
        constructor
        · intro h
          cases hargs : extractFlags flags args with
          | error message =>
            rw [hargs] at h
            cases h
          | ok p =>
            obtain ⟨flags₀, rest₀⟩ := p
            rw [hargs] at h
            obtain ⟨rfl, rfl⟩ := Prod.mk.inj (Except.ok.inj h)
            obtain ⟨hvolumes, hprices, hrest⟩ := ih.mp hargs
            exact ⟨hvolumes, hprices, congrArg (arg :: ·) hrest⟩
        · rintro ⟨hvolumes, hprices, rfl⟩
          rw [ih.mpr ⟨hvolumes, hprices, rfl⟩]
          rfl

private theorem filter_flag (args : List String) (h : isPositional arg = false) :
    (arg :: args).filter isPositional = args.filter isPositional ∧
      ((arg :: args).filter fun arg => !isPositional arg) =
        arg :: args.filter fun arg => !isPositional arg := by
  simp [h]

/-- The flags are pulled out wherever they stand between the other arguments. -/
private theorem extractFlags_eq : extractFlags flags args =
    (extractFlags flags (args.filter fun arg => !isPositional arg)).map
      fun p => (p.1, args.filter isPositional) := by
  induction args generalizing flags with
  | nil => rfl
  | cons arg args ih =>
    cases hvolume : flagValue kVolumeFlag arg with
    | some csv =>
      obtain ⟨hdrop, hkeep⟩ := filter_flag args
        (show isPositional arg = false by simp [isPositional, hvolume])
      rw [hdrop, hkeep, extractFlags_volume hvolume, extractFlags_volume hvolume]
      split
      · rfl
      · exact ih
    | none =>
      cases hprice : flagValue kPriceFlag arg with
      | some csv =>
        obtain ⟨hdrop, hkeep⟩ := filter_flag args
          (show isPositional arg = false by simp [isPositional, hprice])
        rw [hdrop, hkeep, extractFlags_price hvolume hprice, extractFlags_price hvolume hprice]
        split
        · rfl
        · exact ih
      | none =>
        have hkeep : (arg :: args).filter isPositional = arg :: args.filter isPositional :=
          List.filter_cons_of_pos (by simp [isPositional, hvolume, hprice])
        have hdrop : ((arg :: args).filter fun arg => !isPositional arg) =
            args.filter fun arg => !isPositional arg :=
          List.filter_cons_of_neg (by simp [isPositional, hvolume, hprice])
        rw [hkeep, hdrop, extractFlags_positional hvolume hprice, ih]
        cases extractFlags flags (args.filter fun arg => !isPositional arg) <;> rfl

end ExtractFlags

/-! ### The other arguments -/

private theorem parseMode_eq_some_iff {token : String} {mode : Mode} :
    parseMode token = some mode ↔ mode.token = token := by
  constructor
  · intro h
    simp only [parseMode] at h
    split_ifs at h with hbbo hvolume hprice hlist
    all_goals
      obtain rfl := Option.some.inj h
      exact Eq.symm ‹token = _›
  · rintro rfl
    cases mode <;> decide

/-- A decimal integer, behind spaces and an optional sign. -/
def IsInteger (text : List Char) (n : ℤ) : Prop :=
  ∃ spaces digits, (∀ c ∈ spaces, isSpace c) ∧ IsNumber digits ∧
    (text = spaces ++ digits ∧ n = digitsValue digits ∨
      text = spaces ++ '+' :: digits ∧ n = digitsValue digits ∨
      text = spaces ++ '-' :: digits ∧ n = -digitsValue digits)

/-- What is behind the spaces is read to its end if that is a number. -/
private theorem stoi_ok_iff_isNumber {text digits : List Char} {negative : Bool} {n : Int32}
    (hsign : strtolSign (text.dropWhile isSpace) = (negative, digits)) :
    stoi text = .ok (n, []) ↔ IsNumber digits ∧ n.toInt = signed negative digits := by
  have hbounds : -2 ^ 31 ≤ n.toInt ∧ n.toInt < 2 ^ 31 := ⟨n.le_toInt, n.toInt_lt⟩
  simp only [stoi, hsign]
  constructor
  · intro h
    split_ifs at h with hempty hrange
    obtain ⟨hn, hrest⟩ := Prod.mk.inj (Except.ok.inj h)
    have hdigits : AllDigits digits := List.dropWhile_eq_nil_iff.mp hrest
    rw [List.takeWhile_eq_self_iff.mpr hdigits] at hempty hn hrange
    refine ⟨⟨by simpa using hempty, hdigits⟩, ?_⟩
    rw [← hn, Int32.toInt_ofInt_of_le (by omega) (by omega)]
  · rintro ⟨⟨hne, hdigits⟩, hn⟩
    rw [List.takeWhile_eq_self_iff.mpr hdigits, List.dropWhile_eq_nil_iff.mpr hdigits,
      if_neg (by simpa using hne), ← hn, if_neg (by omega), Int32.ofInt_toInt]

/-- The spaces in front are skipped. -/
private theorem dropWhile_spaces {spaces body : List Char}
    (hspaces : ∀ c ∈ spaces, isSpace c = true)
    (hbody : body.head?.all fun c => !isSpace c) :
    (spaces ++ body).dropWhile isSpace = body := by
  rw [List.dropWhile_append_of_pos hspaces]
  cases body with
  | nil => rfl
  | cons c body => exact List.dropWhile_cons_of_neg (by simpa using hbody)

private theorem isSpace_of_isDigit {c : Char} (h : c.isDigit = true) : isSpace c = false := by
  by_contra hspace
  rw [Bool.not_eq_false, isSpace] at hspace
  simp only [Bool.or_eq_true, decide_eq_true_eq] at hspace
  rcases hspace with ((((rfl | rfl) | rfl) | rfl) | rfl) | rfl <;> cases h

private theorem strtolSign_cases (body : List Char) :
    (∃ rest, body = '-' :: rest ∧ strtolSign body = (true, rest)) ∨
      (∃ rest, body = '+' :: rest ∧ strtolSign body = (false, rest)) ∨
      strtolSign body = (false, body) := by
  rw [strtolSign.eq_def]
  split
  · rename_i rest
    exact .inl ⟨rest, rfl, rfl⟩
  · rename_i rest
    exact .inr (.inl ⟨rest, rfl, rfl⟩)
  · exact .inr (.inr rfl)

/-- Digits have no sign. -/
private theorem strtolSign_of_isNumber {digits : List Char} (h : IsNumber digits) :
    strtolSign digits = (false, digits) := by
  have hne : ∀ c rest, c.isDigit = false → digits ≠ c :: rest := by
    rintro c rest hc rfl
    rw [h.2 c List.mem_cons_self] at hc
    cases hc
  rcases strtolSign_cases digits with ⟨rest, heq, -⟩ | ⟨rest, heq, -⟩ | hsign
  · exact absurd heq (hne _ _ (by decide))
  · exact absurd heq (hne _ _ (by decide))
  · exact hsign

/-- **The duration**: a text is consumed to its end exactly when it is an integer. -/
theorem stoi_ok_iff {text : List Char} {n : Int32} :
    stoi text = .ok (n, []) ↔ IsInteger text n.toInt := by
  constructor
  · intro h
    have hspaces : ∀ c ∈ text.takeWhile isSpace, isSpace c = true :=
      fun c hc => List.mem_takeWhile_imp hc
    have htext := List.takeWhile_append_dropWhile (p := isSpace) (l := text)
    -- from here on only that they are spaces matters
    generalize text.takeWhile isSpace = spaces at hspaces htext
    rcases strtolSign_cases (text.dropWhile isSpace) with
      ⟨rest, hbody, hsign⟩ | ⟨rest, hbody, hsign⟩ | hsign
    · obtain ⟨hnumber, hn⟩ := (stoi_ok_iff_isNumber hsign).mp h
      exact ⟨spaces, rest, hspaces, hnumber, .inr (.inr ⟨by rw [← hbody, htext], hn⟩)⟩
    · obtain ⟨hnumber, hn⟩ := (stoi_ok_iff_isNumber hsign).mp h
      exact ⟨spaces, rest, hspaces, hnumber, .inr (.inl ⟨by rw [← hbody, htext], hn⟩)⟩
    · obtain ⟨hnumber, hn⟩ := (stoi_ok_iff_isNumber hsign).mp h
      exact ⟨spaces, _, hspaces, hnumber, .inl ⟨htext.symm, hn⟩⟩
  · rintro ⟨spaces, digits, hspaces, hnumber, ⟨rfl, hn⟩ | ⟨rfl, hn⟩ | ⟨rfl, hn⟩⟩
    · have hbody : digits.head?.all fun c => !isSpace c := by
        cases digits with
        | nil => rfl
        | cons c digits => simp [isSpace_of_isDigit (hnumber.2 c List.mem_cons_self)]
      have hsign : strtolSign ((spaces ++ digits).dropWhile isSpace) = (false, digits) := by
        rw [dropWhile_spaces hspaces hbody, strtolSign_of_isNumber hnumber]
      exact (stoi_ok_iff_isNumber hsign).mpr ⟨hnumber, hn⟩
    · have hsign : strtolSign ((spaces ++ '+' :: digits).dropWhile isSpace) = (false, digits) := by
        rw [dropWhile_spaces hspaces (by simp [isSpace]), strtolSign]
      exact (stoi_ok_iff_isNumber hsign).mpr ⟨hnumber, hn⟩
    · have hsign : strtolSign ((spaces ++ '-' :: digits).dropWhile isSpace) = (true, digits) := by
        rw [dropWhile_spaces hspaces (by simp [isSpace]), strtolSign]
      exact (stoi_ok_iff_isNumber hsign).mpr ⟨hnumber, hn⟩

private theorem parseDuration_ok_iff {text : String} {n : Int32} :
    parseDuration text = .ok n ↔ IsInteger text.toList n.toInt := by
  rw [← stoi_ok_iff, parseDuration]
  rcases stoi text.toList with (_ | _) | ⟨n', rest⟩
  · simp
  · simp
  · cases rest <;> simp

private theorem parseBooks_ok_iff {tokens : List String} {books : List BookId} :
    parseBooks tokens = .ok books ↔
      List.Forall₂ (fun token id => id.symbol.Plain ∧ id.toString = token) tokens books := by
  have htoken : ∀ (token : String) (id : BookId),
      (match parseBookId token.toList with
        | some id => .ok id
        | none => .error ("invalid book \"" ++ token ++
            "\" (expected e.g. BTC_USDT.SPOT or BTC_USDT.PERP)") : Except String BookId) = .ok id ↔
        id.symbol.Plain ∧ id.toString = token := by
    intro token id
    rw [← String.toList_inj, ← parseBookId_eq_some_iff]
    cases parseBookId token.toList <;> simp
  rw [parseBooks, mapM_eq_ok_iff]
  simp only [htoken]

/-! ### What is asked for -/

/-- The default thresholds, as the flags would list them. -/
def defaultVolumeList : String := "1000000,5000000,10000000,25000000,50000000"

def defaultBpsList : String := "50,100,200,500,1000"

private theorem parseVolumeThresholds_default :
    parseVolumeThresholds defaultVolumeList.toList = some kDefaultVolumeBandThresholds := by
  decide +kernel

private theorem parsePriceBps_default :
    parsePriceBps defaultBpsList.toList = some kDefaultPriceBandBps := by
  decide +kernel

/-- The list of a band flag in the mode that reads it, and the default one elsewhere. -/
def bandList (mode applies : Mode) (csv : Option (List Char)) (default : String) : List Char :=
  if mode = applies then csv.getD default.toList else default.toList

/-- What a command line can ask for. -/
inductive ClientRequest
  | list (address : String)
  | publish (mode : Mode) (address : String) (duration : Int32) (books : List BookId)
      (volumes bps : List ℕ)

/-- What a command line asks for: the flags may stand anywhere, each once at most. -/
inductive Requests (args : List String) : ClientRequest → Prop
  | list {address : String} (positional : args.filter isPositional = [address, "list"])
      (volume : flagValues kVolumeFlag args = []) (price : flagValues kPriceFlag args = []) :
      Requests args (.list address)
  | publish {mode : Mode} {address text : String} {seconds : Int32} {tokens : List String}
      {ids : List BookId} {volumes bps : List ℕ} {volumeCsv priceCsv : Option (List Char)}
      (positional : args.filter isPositional = address :: mode.token :: text :: tokens)
      (streams : mode ≠ .list)
      (volume : flagValues kVolumeFlag args = volumeCsv.toList)
      (price : flagValues kPriceFlag args = priceCsv.toList)
      (volume_list : IsVolumeList (bandList mode .volumeBands volumeCsv defaultVolumeList) volumes)
      (bps_list : let csv := bandList mode .priceBands priceCsv defaultBpsList
        IsBpsList csv bps ∨ SignedZeroFirst csv bps)
      (duration : IsInteger text.toList seconds.toInt)
      (some_book : tokens ≠ [])
      (books : List.Forall₂ (fun token id => id.symbol.Plain ∧ id.toString = token) tokens ids) :
      Requests args (.publish mode address seconds ids volumes bps)

/-- A band configuration is for lists of numbers: their thresholds, which the band functions take,
and labels that read as them. -/
structure BandConfig.For (config : BandConfig) (volumes bps : List ℕ) : Prop where
  volumeThresholds : config.volumeThresholds.map val = volumes.map fun n : ℕ => (n : ℤ) * 10 ^ 9
  volumeLabels : ReadsAs config.volumeLabels volumes
  priceBps : config.priceBps.map Int32.toInt = bps.map fun n : ℕ => (n : ℤ)
  priceLabels : ReadsAs config.priceLabels bps
  volume_accepted : ∀ levels,
    volumeBandPrices levels config.volumeThresholds ≠ .error .invalidArgument
  bps_accepted : ∀ side levels reference,
    priceBandDepth side levels reference config.priceBps ≠ .error .invalidArgument

/-- A client does what is asked for. -/
def ClientRun.Does : ClientRun → ClientRequest → Prop
  | .list address, .list address' => address = address'
  | .publish mode address duration books config,
      .publish mode' address' duration' books' volumes bps =>
    (mode = mode' ∧ address = address' ∧ duration = duration' ∧ books = books') ∧
      config.For volumes bps
  | _, _ => False

section Bands

variable {α : Type} {mode applies : Mode} {csv : Option (List Char)}
  {parse : List Char → Option (List α)} {flagName hint default : String}
  {target thresholds : List α}

/-- A band list is read from the flag or from the default. -/
private theorem bandThresholds_ok_iff (hdefault : parse default.toList = some target) :
    (∃ notes, bandThresholds mode applies csv parse flagName hint target =
      .ok (thresholds, notes)) ↔ parse (bandList mode applies csv default) = some thresholds := by
  rw [bandThresholds, bandList]
  split
  · cases csv with
    | none => simp [applyBandOverride, hdefault]
    | some csv =>
      simp only [applyBandOverride, Option.getD_some]
      cases parse csv <;> simp
  · simp [hdefault]

end Bands

/-- A sign in front of a list of basis points does not change the numbers. -/
private theorem exists_isBpsList {csv : List Char} {bps : List ℕ}
    (h : IsBpsList csv bps ∨ SignedZeroFirst csv bps) : ∃ digits, IsBpsList digits bps := by
  rcases h with hlist | ⟨rest, -, hlist, -⟩
  · exact ⟨csv, hlist⟩
  · exact ⟨rest, hlist⟩

/-- The configuration of what the flags or the defaults list. -/
private theorem bandConfig_for (fmt : FormatFixed) {volumeCsv priceCsv : List Char}
    {volumeThresholds : List Notional} {priceBps : List Int32} {volumes bps : List ℕ}
    (hvolumes : IsVolumeList volumeCsv volumes)
    (hvolumeValues : volumeThresholds.map val = volumes.map fun n : ℕ => (n : ℤ) * 10 ^ 9)
    (hbps : IsBpsList priceCsv bps ∨ SignedZeroFirst priceCsv bps)
    (hbpsValues : priceBps.map Int32.toInt = bps.map fun n : ℕ => (n : ℤ)) :
    BandConfig.For
      { volumeThresholds
        volumeLabels := buildLabels volumeThresholds (formatNotionalLabel fmt)
        priceBps
        priceLabels := buildLabels priceBps formatBpsLabel } volumes bps := by
  have hvolumeParse : parseVolumeThresholds volumeCsv = some volumeThresholds :=
    parseVolumeThresholds_eq_some_iff.mpr ⟨volumes, hvolumes, hvolumeValues⟩
  have hbpsParse : parsePriceBps priceCsv = some priceBps :=
    parsePriceBps_eq_some_iff.mpr ⟨bps, hbps, hbpsValues⟩
  obtain ⟨digits, hdigits⟩ := exists_isBpsList hbps
  exact
    { volumeThresholds := hvolumeValues
      volumeLabels := readsAs_notional fmt hvolumeValues hvolumes.ascending
      priceBps := hbpsValues
      priceLabels := readsAs_bps hbpsValues hdigits.ascending
      volume_accepted := volumeBandPrices_ne (volumeThresholdsValid_of_parse hvolumeParse)
      bps_accepted := fun side => priceBandDepth_ne (bpsThresholdsValid_of_parse hbpsParse side) }

/-! ### What a client does -/

section ClientMain

variable {fmt : FormatFixed} {flags : CliFlags} {mode : Mode} {address : String}
  {args : List String} {run : ClientRun}

/-- What the parts of a command line with a stream are. -/
private theorem publishMain_ok_iff :
    (∃ notes, publishMain fmt flags mode address args = .ok (run, notes)) ↔
    ∃ volumeThresholds priceBps text seconds tokens ids,
      args = text :: tokens ∧ tokens ≠ [] ∧
      parseVolumeThresholds (bandList mode .volumeBands flags.volumeThresholdsCsv
        defaultVolumeList) = some volumeThresholds ∧
      parsePriceBps (bandList mode .priceBands flags.priceBpsCsv defaultBpsList) = some priceBps ∧
      parseDuration text = .ok seconds ∧ parseBooks tokens = .ok ids ∧
      run = .publish mode address seconds ids
        { volumeThresholds
          volumeLabels := buildLabels volumeThresholds (formatNotionalLabel fmt)
          priceBps
          priceLabels := buildLabels priceBps formatBpsLabel } := by
  constructor
  · rintro ⟨notes, h⟩
    obtain ⟨⟨volumeThresholds, volumeNotes⟩, hvolume, h⟩ := exists_of_bind_ok h
    obtain ⟨⟨priceBps, priceNotes⟩, hprice, h⟩ := exists_of_bind_ok h
    have hvolumes := (bandThresholds_ok_iff parseVolumeThresholds_default).mp ⟨_, hvolume⟩
    have hbps := (bandThresholds_ok_iff parsePriceBps_default).mp ⟨_, mapError_ok_iff.mp hprice⟩
    -- the bands are read before the arguments are counted
    match args with
    | [] => cases h
    | [_] => cases h
    | text :: token :: tokens =>
      obtain ⟨seconds, hseconds, h⟩ := exists_of_bind_ok h
      obtain ⟨ids, hids, h⟩ := exists_of_bind_ok h
      obtain ⟨rfl, -⟩ := Prod.mk.inj (Except.ok.inj h)
      exact ⟨volumeThresholds, priceBps, text, seconds, token :: tokens, ids, rfl,
        List.cons_ne_nil _ _, hvolumes, hbps, mapError_ok_iff.mp hseconds,
        mapError_ok_iff.mp hids, rfl⟩
  · rintro ⟨volumeThresholds, priceBps, text, seconds, tokens, ids, rfl, hne, hvolumes, hbps,
      hseconds, hids, rfl⟩
    obtain ⟨volumeNotes, hvolume⟩ :=
      (bandThresholds_ok_iff parseVolumeThresholds_default).mpr hvolumes
    obtain ⟨priceNotes, hprice⟩ := (bandThresholds_ok_iff parsePriceBps_default).mpr hbps
    obtain ⟨token, tokens, rfl⟩ := List.exists_cons_of_ne_nil hne
    refine ⟨volumeNotes ++ priceNotes, ?_⟩
    rw [publishMain, hvolume, hprice]
    simp only [Except.mapError, bind, Except.bind, hseconds, hids]
    rfl

/-- What the parts of a command line are. -/
private theorem clientMain_ok_iff : (∃ notes, clientMain fmt args = .ok (run, notes)) ↔
    ∃ flags modeStr rest address mode,
      extractFlags {} args = .ok (flags, address :: modeStr :: rest) ∧
      parseMode modeStr = some mode ∧
      (mode = .list ∧ rest = [] ∧ flags.volumeThresholdsCsv = none ∧ flags.priceBpsCsv = none ∧
          run = .list address ∨
        mode ≠ .list ∧ ∃ notes, publishMain fmt flags mode address rest = .ok (run, notes)) := by
  constructor
  · rintro ⟨notes, h⟩
    obtain ⟨⟨flags, rest⟩, hflags, h⟩ := exists_of_bind_ok h
    have hextract := mapError_ok_iff.mp hflags
    match rest with
    | [] => cases h
    | [_] => cases h
    | address :: modeStr :: rest =>
      cases hmode : parseMode modeStr with
      | none =>
        simp only [hmode] at h
        cases h
      | some mode =>
        refine ⟨flags, modeStr, rest, address, mode, hextract, hmode, ?_⟩
        simp only [hmode] at h
        cases mode with
        | list =>
          by_cases hextra : (!rest.isEmpty || flags.volumeThresholdsCsv.isSome ||
            flags.priceBpsCsv.isSome) = true
          · rw [if_pos hextra] at h
            cases h
          · rw [if_neg hextra] at h
            obtain ⟨rfl, -⟩ := Prod.mk.inj (Except.ok.inj h)
            simp only [Bool.or_eq_true, not_or, Bool.not_eq_true, Bool.not_eq_false',
              List.isEmpty_iff, Option.isSome_eq_false_iff, Option.isNone_iff_eq_none] at hextra
            exact .inl ⟨rfl, hextra.1.1, hextra.1.2, hextra.2, rfl⟩
        | bbo | volumeBands | priceBands => exact .inr ⟨nofun, notes, h⟩
  · rintro ⟨flags, modeStr, rest, address, mode, hextract, hmode, hrun⟩
    rcases hrun with ⟨rfl, rfl, hvolume, hprice, rfl⟩ | ⟨hne, notes, hpublish⟩
    · refine ⟨[], ?_⟩
      rw [clientMain, hextract]
      simp only [Except.mapError, bind, Except.bind, hmode, hvolume, hprice]
      rfl
    · refine ⟨notes, ?_⟩
      rw [clientMain, hextract]
      simp only [Except.mapError, bind, Except.bind, hmode]
      cases mode with
      | list => exact absurd rfl hne
      | bbo | volumeBands | priceBands => exact hpublish

end ClientMain

/-- A client that is asked for something starts, and does it. -/
private theorem Requests.exists_run (fmt : FormatFixed) {args : List String}
    {request : ClientRequest}
    (h : Requests args request) :
    ∃ run notes, clientMain fmt args = .ok (run, notes) ∧ run.Does request := by
  cases h with
  | @list address positional volume price =>
    have hextract : extractFlags {} args = .ok ({}, [address, "list"]) :=
      extractFlags_ok_iff.mpr ⟨volume, price, positional⟩
    obtain ⟨notes, hmain⟩ := clientMain_ok_iff.mpr
      ⟨_, _, _, _, .list, hextract, by decide, .inl ⟨rfl, rfl, rfl, rfl, rfl⟩⟩
    exact ⟨.list address, notes, hmain, rfl⟩
  | @publish mode address text seconds tokens ids volumes bps volumeCsv priceCsv positional streams
      volume price volume_list bps_list duration some_book books =>
    have hextract : extractFlags {} args =
        .ok (⟨volumeCsv, priceCsv⟩, address :: mode.token :: text :: tokens) :=
      extractFlags_ok_iff.mpr ⟨volume, price, positional⟩
    obtain ⟨digits, hdigits⟩ := exists_isBpsList bps_list
    obtain ⟨volumeThresholds, hvolumeValues⟩ := exists_volume_values volume_list
    obtain ⟨priceBps, hbpsValues⟩ := exists_bps_values hdigits
    have hvolumes : parseVolumeThresholds (bandList mode .volumeBands volumeCsv
        defaultVolumeList) = some volumeThresholds :=
      parseVolumeThresholds_eq_some_iff.mpr ⟨volumes, volume_list, hvolumeValues⟩
    have hbps : parsePriceBps (bandList mode .priceBands priceCsv defaultBpsList) = some priceBps :=
      parsePriceBps_eq_some_iff.mpr ⟨bps, bps_list, hbpsValues⟩
    obtain ⟨notes, hmain⟩ := clientMain_ok_iff.mpr
      ⟨_, _, _, _, mode, hextract, parseMode_eq_some_iff.mpr rfl, .inr ⟨streams,
        publishMain_ok_iff.mpr ⟨volumeThresholds, priceBps, text, seconds, tokens, ids, rfl,
          some_book, hvolumes, hbps, parseDuration_ok_iff.mpr duration,
          parseBooks_ok_iff.mpr books, rfl⟩⟩⟩
    exact ⟨_, notes, hmain, ⟨rfl, rfl, rfl, rfl⟩,
      bandConfig_for fmt volume_list hvolumeValues bps_list hbpsValues⟩

/-- What a client does was asked for. -/
private theorem exists_requests {fmt : FormatFixed} {args : List String} {run : ClientRun}
    {notes : List StderrLine} (h : clientMain fmt args = .ok (run, notes)) :
    ∃ request, Requests args request ∧ run.Does request := by
  obtain ⟨flags, modeStr, rest, address, mode, hextract, hmode, hrun⟩ :=
    clientMain_ok_iff.mp ⟨notes, h⟩
  obtain rfl := parseMode_eq_some_iff.mp hmode
  obtain ⟨hvolume, hprice, hpositional⟩ := extractFlags_ok_iff.mp hextract
  rcases hrun with ⟨rfl, rfl, hvolumeNone, hpriceNone, rfl⟩ | ⟨hstreams, hpublish⟩
  · rw [hvolumeNone] at hvolume
    rw [hpriceNone] at hprice
    exact ⟨.list address, .list hpositional hvolume hprice, rfl⟩
  · obtain ⟨volumeThresholds, priceBps, text, seconds, tokens, ids, rfl, hne, hvolumes, hbps,
      hseconds, hids, rfl⟩ := publishMain_ok_iff.mp hpublish
    obtain ⟨volumes, hvolumeList, hvolumeValues⟩ := parseVolumeThresholds_eq_some_iff.mp hvolumes
    obtain ⟨bps, hbpsList, hbpsValues⟩ := parsePriceBps_eq_some_iff.mp hbps
    exact ⟨.publish mode address seconds ids volumes bps,
      .publish hpositional hstreams hvolume hprice hvolumeList hbpsList
        (parseDuration_ok_iff.mp hseconds) hne (parseBooks_ok_iff.mp hids),
      ⟨rfl, rfl, rfl, rfl⟩, bandConfig_for fmt hvolumeList hvolumeValues hbpsList hbpsValues⟩

/-- **A client runs what is asked.** It starts exactly on the command lines that ask for
something, does what they ask, with bands that do not fail for their thresholds and are
labelled by their numbers, and whether and how it starts does not depend on where the flags
stand. -/
theorem client_runs_what_is_asked (fmt : FormatFixed) (args : List String) :
    (∀ request, Requests args request →
      ∃ run notes, clientMain fmt args = .ok (run, notes) ∧ run.Does request) ∧
    (∀ run notes, clientMain fmt args = .ok (run, notes) →
      ∃ request, Requests args request ∧ run.Does request) ∧
    ∀ args' : List String, args'.filter isPositional = args.filter isPositional →
      (args'.filter fun arg => !isPositional arg) = (args.filter fun arg => !isPositional arg) →
      clientMain fmt args' = clientMain fmt args := by
  refine ⟨fun request h => h.exists_run fmt, fun run notes h => exists_requests h,
    fun args' hpositional hflags => ?_⟩
  have hextract : extractFlags {} args' = extractFlags {} args := by
    rw [extractFlags_eq, hpositional, hflags, ← extractFlags_eq]
  rw [clientMain, clientMain, hextract]

/-- A flag behind the address, and one book. -/
theorem client_runs_what_is_asked_sample : ∃ run notes,
    clientMain sampleFormat
        ["host:1", "--price-bps=10,20", "price-bands", "+5", "BTC_USDT.SPOT"] =
      .ok (run, notes) ∧
    run.Does (.publish .priceBands "host:1" 5 [⟨⟨⟨"BTC"⟩, ⟨"USDT"⟩⟩, .spot⟩]
      [1000000, 5000000, 10000000, 25000000, 50000000] [10, 20]) := by
  refine (client_runs_what_is_asked _ _).1 _ (@Requests.publish _ .priceBands "host:1" "+5" 5
    ["BTC_USDT.SPOT"] _ _ _ none (some "10,20".toList) (by decide) (by decide) (by decide)
    (by decide) ?_ (.inl ?_) ?_ (by decide) ?_)
  · exact ⟨⟨["1000000".toList, "5000000".toList, "10000000".toList, "25000000".toList,
      "50000000".toList], by simp, by simp [IsNumber, AllDigits], by decide, by decide⟩,
      by decide, by decide⟩
  · exact ⟨⟨["10".toList, "20".toList], by simp, by simp [IsNumber, AllDigits], by decide,
      by decide⟩, by decide, by decide⟩
  · exact ⟨[], ['5'], by simp, by simp [IsNumber, AllDigits], .inr (.inl ⟨by decide, by decide⟩)⟩
  · exact .cons ⟨⟨⟨by decide, by decide⟩, ⟨by decide, by decide⟩⟩, by decide⟩ .nil

end Hermeneutic
