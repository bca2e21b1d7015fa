import Mathlib.Data.Set.List
import Hermeneutic.Aggregator.BandConfig
import Hermeneutic.Book.VolumeBands

/-!
# What the band flags accept

`parseVolumeThresholds` accepts the lists of numbers that are strictly increasing, positive and
in range, and returns them at nine decimals. `parsePriceBps` accepts the lists of numbers that
are strictly increasing and below ten thousand, and one kind of string more: `std::from_chars`
takes a minus sign, and zero passes the range check behind one. Being the smallest value it can
only come first (`parsePriceBps_eq_some_iff`).

Every list that either parser returns is in order and in range for the band functions, on both
sides: none of their errors is `invalid_argument`.

The acceptance of each parser is first said token by token, with the number a token spells as the
witness (`IsNumber`), and then for the list, where the order of the tokens is the order of the
numbers. The minus sign is the one place where a token is accepted that spells no number;
`signedZeroFirst_iff` finds it at the head of the list. `bandFlagsExact_iff` is then the exact
condition under which both parsers and the functions behind them do what the help text says.
-/

namespace Hermeneutic

open BasicFixedPoint

/-- A list of thresholds in whole notional units. -/
structure IsVolumeList (csv : List Char) (numbers : List ℕ) : Prop where
  grammar : IsNumberList csv numbers
  ascending : numbers.Pairwise (· < ·)
  range : ∀ n ∈ numbers, 0 < n ∧ n ≤ (2 ^ 63 - 1) / 10 ^ 9

/-- A list of basis points. -/
structure IsBpsList (csv : List Char) (numbers : List ℕ) : Prop where
  grammar : IsNumberList csv numbers
  ascending : numbers.Pairwise (· < ·)
  range : ∀ n ∈ numbers, n < 10000

/-- A list of basis points from zero on, with a minus sign in front of it. -/
def SignedZeroFirst (csv : List Char) (numbers : List ℕ) : Prop :=
  ∃ rest, csv = '-' :: rest ∧ IsBpsList rest numbers ∧ numbers.head? = some 0

/-! ### The parsers -/

/-- A volume flag is read as a list of thresholds, or not at all. -/
theorem parseVolumeThresholds_eq_some_iff {csv : List Char} {result : List Notional} :
    parseVolumeThresholds csv = some result ↔
      ∃ numbers, IsVolumeList csv numbers ∧
        result.map val = numbers.map fun n : ℕ => (n : ℤ) * 10 ^ 9 := by
  have hmap : (splitCsv csv).map (fun token => (digitsValue token : ℤ) * 10 ^ 9) =
      ((splitCsv csv).map digitsValue).map fun n : ℕ => (n : ℤ) * 10 ^ 9 := by
    rw [List.map_map]
    rfl
  have hascending : ((splitCsv csv).map fun token => (digitsValue token : ℤ) * 10 ^ 9).Pairwise
      (· < ·) ↔ ((splitCsv csv).map digitsValue).Pairwise (· < ·) := by
    rw [hmap, List.pairwise_map]
    refine List.Pairwise.iff fun {a b} => ?_
    omega
  rw [parseVolumeThresholds]
  refine (parseAscendingList_eq_some_iff val (fun token => (digitsValue token : ℤ) * 10 ^ 9)
    (fun _ _ => le_iff_val_le) fun token value => parseVolumeToken_iff).trans ?_
  rw [hascending, hmap]
  constructor
  · rintro ⟨htokens, hvalues, hsorted⟩
    refine ⟨_, ⟨isNumberList_iff.mpr ⟨fun token h => (htokens token h).1, rfl⟩, hsorted, ?_⟩,
      hvalues⟩
    exact List.forall_mem_map.mpr fun token h => (htokens token h).2
  · rintro ⟨numbers, ⟨hgrammar, hsorted, hrange⟩, hvalues⟩
    obtain ⟨htokens, rfl⟩ := isNumberList_iff.mp hgrammar
    refine ⟨fun token h => ⟨htokens token h, ?_⟩, hvalues, hsorted⟩
    exact hrange _ (List.mem_map_of_mem h)

private theorem stripSign_of_isNumber {token : List Char} (h : IsNumber token) :
    stripSign token = (false, token) := by
  refine stripSign_of_ne ?_
  rintro rest rfl
  exact absurd (h.2 '-' List.mem_cons_self) (by decide)

/-- A string splits into at least one token. -/
private theorem exists_splitCsv (csv : List Char) :
    ∃ token tokens, splitCsv csv = token :: tokens :=
  List.exists_cons_of_ne_nil (List.splitOn_ne_nil ',' csv)

/-- A sign in front of a list is a sign in front of its first token. -/
private theorem splitCsv_minus {rest : List Char} {token : List Char} {tokens : List (List Char)}
    (h : splitCsv rest = token :: tokens) :
    splitCsv ('-' :: rest) = ('-' :: token) :: tokens := by
  rw [splitCsv] at h ⊢
  rw [List.splitOn_cons_eq_if_modifyHead, if_neg (by decide), h, List.modifyHead_cons]

private theorem eq_minus_of_splitCsv {csv token : List Char} {tokens : List (List Char)}
    (h : splitCsv csv = ('-' :: token) :: tokens) :
    ∃ rest, csv = '-' :: rest ∧ splitCsv rest = token :: tokens := by
  cases csv with
  | nil => simp [splitCsv] at h
  | cons c rest =>
    rw [splitCsv, List.splitOn_cons_eq_if_modifyHead] at h
    split_ifs at h with hc
    · cases h
    · obtain ⟨token', tokens', hrest⟩ := exists_splitCsv rest
      rw [splitCsv] at hrest
      rw [hrest, List.modifyHead_cons] at h
      obtain ⟨hhead, rfl⟩ := List.cons.inj h
      obtain ⟨rfl, rfl⟩ := List.cons.inj hhead
      exact ⟨rest, rfl, hrest⟩

/-- What the tokens of a basis-point flag stand for. -/
def bpsNumbers (tokens : List (List Char)) : List ℕ :=
  tokens.map fun token => digitsValue (stripSign token).2

private theorem bpsNumbers_of_isNumber {tokens : List (List Char)}
    (h : ∀ token ∈ tokens, IsNumber token) : bpsNumbers tokens = tokens.map digitsValue :=
  List.map_congr_left fun token hmem => by rw [stripSign_of_isNumber (h token hmem)]

private theorem bpsNumbers_minus (ds : List Char) {tokens : List (List Char)}
    (h : ∀ token ∈ tokens, IsNumber token) :
    bpsNumbers (('-' :: ds) :: tokens) = (ds :: tokens).map digitsValue :=
  congrArg (digitsValue ds :: ·) (bpsNumbers_of_isNumber h)

/-- Zero behind a minus sign can only come first in an ascending list. -/
private theorem bpsTokens_iff {token : List Char} {tokens : List (List Char)}
    (hascending : (bpsNumbers (token :: tokens)).Pairwise (· < ·)) :
    (∀ t ∈ token :: tokens, (IsNumber t ∧ digitsValue t < 10000) ∨ IsSignedZero t) ↔
      ((IsNumber token ∧ digitsValue token < 10000) ∨ IsSignedZero token) ∧
        ∀ t ∈ tokens, IsNumber t ∧ digitsValue t < 10000 := by
  rw [List.forall_mem_cons]
  refine and_congr_right fun _ => forall₂_congr fun t ht => or_iff_left ?_
  rintro ⟨ds, rfl, -, hzero⟩
  have hlt := (List.pairwise_cons.mp hascending).1 _ (List.mem_map_of_mem ht)
  simp only [stripSign, hzero] at hlt
  exact Nat.not_lt_zero _ hlt

/-- A string is a list of basis points by its tokens. -/
private theorem isBpsList_iff {csv : List Char} {numbers : List ℕ} : IsBpsList csv numbers ↔
    (∀ token ∈ splitCsv csv, IsNumber token ∧ digitsValue token < 10000) ∧
      (splitCsv csv).map digitsValue = numbers ∧ numbers.Pairwise (· < ·) := by
  constructor
  · rintro ⟨hgrammar, hascending, hrange⟩
    obtain ⟨hall, rfl⟩ := isNumberList_iff.mp hgrammar
    exact ⟨fun t ht => ⟨hall t ht, hrange _ (List.mem_map_of_mem ht)⟩, rfl, hascending⟩
  · rintro ⟨hall, rfl, hascending⟩
    exact ⟨isNumberList_iff.mpr ⟨fun t ht => (hall t ht).1, rfl⟩, hascending,
      List.forall_mem_map.mpr fun t ht => (hall t ht).2⟩

/-- A sign in front of a list from zero on makes a signed zero of the first token and leaves
the others. -/
private theorem signedZeroFirst_iff {csv token : List Char} {tokens : List (List Char)}
    {numbers : List ℕ} (hsplit : splitCsv csv = token :: tokens) :
    SignedZeroFirst csv numbers ↔ IsSignedZero token ∧
      (∀ t ∈ tokens, IsNumber t ∧ digitsValue t < 10000) ∧
      bpsNumbers (token :: tokens) = numbers ∧ numbers.Pairwise (· < ·) := by
  constructor
  · rintro ⟨rest, rfl, hlist, hhead⟩
    obtain ⟨ds, tokens', hsplit'⟩ := exists_splitCsv rest
    rw [splitCsv_minus hsplit'] at hsplit
    obtain ⟨rfl, rfl⟩ := List.cons.inj hsplit
    obtain ⟨hall, rfl, hascending⟩ := isBpsList_iff.mp hlist
    rw [hsplit'] at hall hascending hhead ⊢
    obtain ⟨hfirst, hrest⟩ := List.forall_mem_cons.mp hall
    exact ⟨⟨ds, rfl, hfirst.1, Option.some.inj hhead⟩, hrest,
      bpsNumbers_minus ds fun t ht => (hrest t ht).1, hascending⟩
  · rintro ⟨⟨ds, rfl, hnumber, hzero⟩, hrest, rfl, hascending⟩
    obtain ⟨rest, rfl, hsplit'⟩ := eq_minus_of_splitCsv hsplit
    have hnumbers := bpsNumbers_minus ds fun t ht => (hrest t ht).1
    refine ⟨rest, rfl, isBpsList_iff.mpr ⟨?_, ?_, hascending⟩, ?_⟩
    · rw [hsplit']
      exact List.forall_mem_cons.mpr ⟨⟨hnumber, by omega⟩, hrest⟩
    · rw [hsplit', hnumbers]
    · exact congrArg some hzero

/-- A basis-point flag is read as a list of basis points, or as one from zero on behind a minus
sign. -/
theorem parsePriceBps_eq_some_iff {csv : List Char} {result : List Int32} :
    parsePriceBps csv = some result ↔
      ∃ numbers, (IsBpsList csv numbers ∨ SignedZeroFirst csv numbers) ∧
        result.map Int32.toInt = numbers.map fun n : ℕ => (n : ℤ) := by
  have hmap : (splitCsv csv).map (fun token => (digitsValue (stripSign token).2 : ℤ)) =
      (bpsNumbers (splitCsv csv)).map fun n : ℕ => (n : ℤ) := by
    rw [bpsNumbers, List.map_map]
    rfl
  have hcast : ∀ numbers : List ℕ, (numbers.map fun n : ℕ => (n : ℤ)).Pairwise (· < ·) ↔
      numbers.Pairwise (· < ·) := by
    intro numbers
    rw [List.pairwise_map]
    exact List.Pairwise.iff fun {a b} => Nat.cast_lt
  rw [parsePriceBps]
  refine (parseAscendingList_eq_some_iff Int32.toInt
    (fun token => (digitsValue (stripSign token).2 : ℤ)) (fun _ _ => Int32.le_iff_toInt_le)
    fun token value => parseBpsToken_iff).trans ?_
  obtain ⟨token, tokens, hsplit⟩ := exists_splitCsv csv
  rw [hmap, hcast, hsplit]
  constructor
  · rintro ⟨hgood, hvalues, hascending⟩
    obtain ⟨hfirst, hrest⟩ := (bpsTokens_iff hascending).mp hgood
    refine ⟨_, ?_, hvalues⟩
    rcases hfirst with hfirst | hzero
    · have hall : ∀ t ∈ token :: tokens, IsNumber t ∧ digitsValue t < 10000 :=
        List.forall_mem_cons.mpr ⟨hfirst, hrest⟩
      refine .inl (isBpsList_iff.mpr ?_)
      rw [hsplit]
      exact ⟨hall, (bpsNumbers_of_isNumber fun t ht => (hall t ht).1).symm, hascending⟩
    · exact .inr ((signedZeroFirst_iff hsplit).mpr ⟨hzero, hrest, rfl, hascending⟩)
  · rintro ⟨numbers, hlist | hsigned, hvalues⟩
    · obtain ⟨hall, rfl, hascending⟩ := isBpsList_iff.mp hlist
      rw [hsplit] at hall hascending hvalues
      rw [bpsNumbers_of_isNumber fun t ht => (hall t ht).1]
      exact ⟨fun t ht => .inl (hall t ht), hvalues, hascending⟩
    · obtain ⟨hzero, hrest, rfl, hascending⟩ := (signedZeroFirst_iff hsplit).mp hsigned
      exact ⟨(bpsTokens_iff hascending).mpr ⟨.inr hzero, hrest⟩, hvalues, hascending⟩

/-- Every number in range is the value of a threshold. -/
theorem exists_volume_values {csv : List Char} {numbers : List ℕ} (h : IsVolumeList csv numbers) :
    ∃ result : List Notional, result.map val = numbers.map fun n : ℕ => (n : ℤ) * 10 ^ 9 := by
  refine (Set.ext_iff.mp (Set.range_list_map val) _).mpr (List.forall_mem_map.mpr fun n hn => ?_)
  have hle := (h.range n hn).2
  exact ⟨fromRawChecked (n * 10 ^ 9), val_fromRawChecked (by omega) (by rw [int64Max]; omega)⟩

theorem exists_bps_values {csv : List Char} {numbers : List ℕ} (h : IsBpsList csv numbers) :
    ∃ result : List Int32, result.map Int32.toInt = numbers.map fun n : ℕ => (n : ℤ) := by
  refine (Set.ext_iff.mp (Set.range_list_map Int32.toInt) _).mpr
    (List.forall_mem_map.mpr fun n hn => ?_)
  have hlt := h.range n hn
  exact ⟨Int32.ofInt n, Int32.toInt_ofInt_of_le (by omega) (by omega)⟩

/-! ### The band functions -/

private theorem fromRawSafe_ne {decimals : ℕ} (value : ℤ) :
    (fromRawSafe value : Except Errc (BasicFixedPoint decimals)) ≠ .error .invalidArgument := by
  rw [fromRawSafe]
  split_ifs <;> simp

private theorem vwapAt_ne (w : VolumeBandWalk) (level : Level) (threshold : Notional) :
    w.vwapAt level threshold ≠ .error .invalidArgument := by
  have hdivide : ∀ (notional : Notional) (size : Size),
      (notional / size : Except Errc Price) ≠ .error .invalidArgument := by
    intro notional size
    change fixedDivide 9 notional size ≠ _
    rw [fixedDivide]
    split_ifs <;> simp
  simp only [VolumeBandWalk.vwapAt, vwapAtPartialFill]
  split_ifs <;> first | exact hdivide _ _ | simp

private theorem crossWhile_ne (w : VolumeBandWalk) (level : Level) (nextCumNotional : Notional)
    (next : List Notional) (result : List VolumeBand) :
    w.crossWhile level nextCumNotional next result ≠ .error .invalidArgument := by
  induction next generalizing result with
  | nil => simp [VolumeBandWalk.crossWhile]
  | cons threshold next ih =>
    rw [VolumeBandWalk.crossWhile]
    split_ifs
    · exact bind_ne_error (vwapAt_ne w level threshold) fun vwap => ih _
    · simp

/-- The volume bands report `invalid_argument` for their thresholds only. -/
theorem volumeBandPrices_ne {thresholds : List Notional} (h : volumeThresholdsValid thresholds)
    (levels : List Level) : volumeBandPrices levels thresholds ≠ .error .invalidArgument := by
  rw [volumeBandPrices, h]
  refine bind_ne_error (foldlM_ne_error (fun w level => ?_) levels _) fun w => nofun
  rw [VolumeBandWalk.walkLevel]
  split_ifs
  · simp
  · refine bind_ne_error (fromRawSafe_ne _) fun nextCumNotional => ?_
    exact bind_ne_error (crossWhile_ne w level nextCumNotional w.next w.result) fun p => nofun

private theorem reportWhile_ne (side : SidePolicy) (reference : Price) (outside : Int32 → Bool)
    (cumSize : Size) (cumNotional : Notional) (next : List Int32) (result : List PriceBand) :
    PriceBandWalk.reportWhile side reference outside cumSize cumNotional next result ≠
      .error .invalidArgument := by
  have hround : ∀ bps, side.roundInner reference bps ≠ .error .invalidArgument := by
    intro bps
    cases side <;> exact fromRawSafe_ne _
  induction next generalizing result with
  | nil => simp [PriceBandWalk.reportWhile]
  | cons bps next ih =>
    rw [PriceBandWalk.reportWhile]
    split_ifs
    · simp
    · exact bind_ne_error (hround bps) fun boundary => ih _

private theorem walkLevels_ne (side : SidePolicy) (reference : Price) (levels : List Level)
    (w : PriceBandWalk) :
    PriceBandWalk.walkLevels side reference levels w ≠ .error .invalidArgument := by
  induction levels generalizing w with
  | nil => simp [PriceBandWalk.walkLevels]
  | cons level levels ih =>
    rw [PriceBandWalk.walkLevels]
    split_ifs
    · simp
    · refine bind_ne_error (reportWhile_ne side reference _ _ _ _ _) fun w => ?_
      split_ifs
      · nofun
      · refine bind_ne_error ?_ ih
        exact bind_ne_error (fromRawSafe_ne _) fun cumNotional => nofun

/-- The price bands report `invalid_argument` for their thresholds only. -/
theorem priceBandDepth_ne {side : SidePolicy} {bpsThresholds : List Int32}
    (h : bpsThresholdsValid side bpsThresholds) (levels : List Level) (reference : Price) :
    priceBandDepth side levels reference bpsThresholds ≠ .error .invalidArgument := by
  rw [priceBandDepth, h]
  simp only [Bool.not_true, Bool.false_eq_true, if_false]
  split_ifs
  · simp
  · refine bind_ne_error (walkLevels_ne side reference levels _) fun w => ?_
    exact bind_ne_error (reportWhile_ne side reference _ _ _ _ _) fun w => nofun

/-- What the volume flag accepts is in order and positive. -/
theorem volumeThresholdsValid_of_parse {csv : List Char} {result : List Notional}
    (h : parseVolumeThresholds csv = some result) : volumeThresholdsValid result := by
  obtain ⟨numbers, hlist, hvalues⟩ := parseVolumeThresholds_eq_some_iff.mp h
  have hascending : (result.map val).Pairwise (· ≤ ·) := by
    rw [hvalues, List.pairwise_map]
    exact hlist.ascending.imp fun {a b} hlt => by omega
  have hpositive : ∀ v ∈ result.map val, 0 < v := by
    rw [hvalues, List.forall_mem_map]
    exact fun n hn => by have := (hlist.range n hn).1; omega
  rw [List.pairwise_map] at hascending
  rw [List.forall_mem_map] at hpositive
  rw [volumeThresholdsValid, Bool.and_eq_true, decide_eq_true_eq, List.all_eq_true]
  exact ⟨hascending.imp fun {a b} => le_iff_val_le.mpr, fun n hn => decide_eq_true (hpositive n hn)⟩

/-- What the basis-point flag accepts is in order and in range for both sides. -/
theorem bpsThresholdsValid_of_parse {csv : List Char} {result : List Int32}
    (h : parsePriceBps csv = some result) (side : SidePolicy) :
    bpsThresholdsValid side result := by
  obtain ⟨numbers, hlist, hvalues⟩ := parsePriceBps_eq_some_iff.mp h
  -- the sign in front of a list changes neither its order nor its range
  obtain ⟨digits, hdigits⟩ : ∃ digits, IsBpsList digits numbers := by
    rcases hlist with hlist | ⟨rest, -, hlist, -⟩
    · exact ⟨csv, hlist⟩
    · exact ⟨rest, hlist⟩
  have hascending : (result.map Int32.toInt).Pairwise (· ≤ ·) := by
    rw [hvalues, List.pairwise_map]
    exact hdigits.ascending.imp fun {a b} hlt => by omega
  have hrange : ∀ v ∈ result.map Int32.toInt, 0 ≤ v ∧ v < 10000 := by
    rw [hvalues, List.forall_mem_map]
    exact fun n hn => by have := hdigits.range n hn; omega
  rw [List.pairwise_map] at hascending
  rw [List.forall_mem_map] at hrange
  simp only [bpsThresholdsValid, Bool.and_eq_true, Bool.or_eq_true, decide_eq_true_eq,
    List.all_eq_true]
  refine ⟨⟨hascending.imp fun {a b} => Int32.le_iff_toInt_le.mpr, fun bps hbps => ?_⟩,
    .inr fun bps hbps => ?_⟩
  · exact Int32.le_iff_toInt_le.mpr (hrange bps hbps).1
  · exact Int32.lt_iff_toInt_lt.mpr (hrange bps hbps).2

/-! ### The flags -/

/-- Both flags take the digits-only grammar exactly, return what was spelled, and pass nothing
on that the band functions reject. -/
structure BandFlagsExact (csv : List Char) : Prop where
  volume_accepts : (∃ result, parseVolumeThresholds csv = some result) ↔
    ∃ numbers, IsVolumeList csv numbers
  volume_returns : ∀ result numbers, parseVolumeThresholds csv = some result →
    IsVolumeList csv numbers → result.map val = numbers.map fun n : ℕ => (n : ℤ) * 10 ^ 9
  bps_accepts : (∃ result, parsePriceBps csv = some result) ↔ ∃ numbers, IsBpsList csv numbers
  bps_returns : ∀ result numbers, parsePriceBps csv = some result → IsBpsList csv numbers →
    result.map Int32.toInt = numbers.map fun n : ℕ => (n : ℤ)
  volume_accepted : ∀ result, parseVolumeThresholds csv = some result → ∀ levels,
    volumeBandPrices levels result ≠ .error .invalidArgument
  bps_accepted : ∀ result, parsePriceBps csv = some result → ∀ side levels reference,
    priceBandDepth side levels reference result ≠ .error .invalidArgument

theorem IsNumberList.unique {csv : List Char} {numbers numbers' : List ℕ}
    (h : IsNumberList csv numbers) (h' : IsNumberList csv numbers') : numbers = numbers' :=
  (isNumberList_iff.mp h).2.symm.trans (isNumberList_iff.mp h').2

/-- A list of numbers starts with a digit. -/
private theorem IsNumberList.ne_minus {rest : List Char} {numbers : List ℕ} :
    ¬IsNumberList ('-' :: rest) numbers := by
  intro h
  obtain ⟨token, tokens, hsplit⟩ := exists_splitCsv rest
  have htokens := (isNumberList_iff.mp h).1
  rw [splitCsv_minus hsplit] at htokens
  exact absurd ((htokens _ List.mem_cons_self).2 '-' List.mem_cons_self) (by decide)

/-- The flags are exact on every string but a list from zero on behind a minus sign. -/
theorem bandFlagsExact_iff (csv : List Char) :
    BandFlagsExact csv ↔ ¬∃ numbers, SignedZeroFirst csv numbers := by
  constructor
  · rintro hexact ⟨numbers, rest, rfl, hlist, hhead⟩
    obtain ⟨result, hvalues⟩ := exists_bps_values hlist
    have hparse : parsePriceBps ('-' :: rest) = some result :=
      parsePriceBps_eq_some_iff.mpr ⟨numbers, .inr ⟨rest, rfl, hlist, hhead⟩, hvalues⟩
    obtain ⟨numbers', hlist'⟩ := hexact.bps_accepts.mp ⟨result, hparse⟩
    exact IsNumberList.ne_minus hlist'.grammar
  · intro hunsigned
    have hbps : ∀ result, parsePriceBps csv = some result → ∃ numbers, IsBpsList csv numbers ∧
        result.map Int32.toInt = numbers.map fun n : ℕ => (n : ℤ) := by
      intro result h
      obtain ⟨numbers, hlist | hsigned, hvalues⟩ := parsePriceBps_eq_some_iff.mp h
      · exact ⟨numbers, hlist, hvalues⟩
      · exact absurd ⟨numbers, hsigned⟩ hunsigned
    refine ⟨⟨fun ⟨result, h⟩ => ?_, fun ⟨numbers, hlist⟩ => ?_⟩, fun result numbers h hlist => ?_,
      ⟨fun ⟨result, h⟩ => ?_, fun ⟨numbers, hlist⟩ => ?_⟩, fun result numbers h hlist => ?_,
      fun result h => ?_, fun result h side => ?_⟩
    · obtain ⟨numbers, hlist, -⟩ := parseVolumeThresholds_eq_some_iff.mp h
      exact ⟨numbers, hlist⟩
    · obtain ⟨result, hvalues⟩ := exists_volume_values hlist
      exact ⟨result, parseVolumeThresholds_eq_some_iff.mpr ⟨numbers, hlist, hvalues⟩⟩
    · obtain ⟨numbers', hlist', hvalues⟩ := parseVolumeThresholds_eq_some_iff.mp h
      rw [hvalues, hlist'.grammar.unique hlist.grammar]
    · obtain ⟨numbers, hlist, -⟩ := hbps result h
      exact ⟨numbers, hlist⟩
    · obtain ⟨result, hvalues⟩ := exists_bps_values hlist
      exact ⟨result, parsePriceBps_eq_some_iff.mpr ⟨numbers, .inl hlist, hvalues⟩⟩
    · obtain ⟨numbers', hlist', hvalues⟩ := hbps result h
      rw [hvalues, hlist'.grammar.unique hlist.grammar]
    · exact volumeBandPrices_ne (volumeThresholdsValid_of_parse h)
    · exact priceBandDepth_ne (bpsThresholdsValid_of_parse h side)

/-- `-0` is taken for zero basis points, and is no list of digits. -/
theorem bandFlagsExact_fails :
    parsePriceBps ['-', '0'] = some [0] ∧ ¬BandFlagsExact ['-', '0'] := by
  have hparse : parsePriceBps ['-', '0'] = some [0] := by decide
  refine ⟨hparse, fun hexact => ?_⟩
  obtain ⟨numbers, hlist⟩ := hexact.bps_accepts.mp ⟨[0], hparse⟩
  exact IsNumberList.ne_minus hlist.grammar

end Hermeneutic
