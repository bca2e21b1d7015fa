import Hermeneutic.ForMathlib.JsonText
import Hermeneutic.Ingestion.Feeds

/-!
# What the feeds send

A `subscribe_message` is put together from strings, with the symbols as they are.
`subscribeRequest` is the request meant; `subscribe_message_exact` says when the message is its
text.

A message and the text of its request have the same front and back, and in between the same
separators (`toList_joined`); so they are equal exactly if they agree symbol by symbol, which an
argument about lengths gives (`written_iff`), an escaped symbol being longer than a plain one.
Each exchange then contributes its own front, back and element. Binance lowers the case of a
symbol, which changes nothing about what has to be escaped.
-/

namespace Hermeneutic

open Json

/-- The loop writes the elements with commas between them. -/
private theorem toList_joined (element : NativeSymbol → String) (symbols : List NativeSymbol) :
    (joined element symbols).toList =
      [','].intercalate (symbols.map fun symbol => (element symbol).toList) := by
  have hbehind : ∀ (symbols : List NativeSymbol) (text : String) (i : ℕ), 0 < i →
      ((symbols.zipIdx i).foldl
        (fun text s => (if s.2 > 0 then text ++ "," else text) ++ element s.1) text).toList =
        text.toList ++ symbols.flatMap fun symbol => ',' :: (element symbol).toList := by
    intro symbols
    induction symbols with
    | nil => simp
    | cons symbol symbols ih =>
      intro text i hi
      rw [List.zipIdx_cons, List.foldl_cons, ih _ _ (Nat.succ_pos i), if_pos hi]
      simp
  have hflat : ∀ (symbol : NativeSymbol) (symbols : List NativeSymbol),
      [','].intercalate ((symbol :: symbols).map fun symbol => (element symbol).toList) =
        (element symbol).toList ++
          symbols.flatMap fun symbol => ',' :: (element symbol).toList := by
    intro symbol symbols
    induction symbols generalizing symbol with
    | nil => simp
    | cons symbol' symbols ih =>
      simp only [List.map_cons] at ih ⊢
      rw [List.intercalate_cons_cons, ih]
      simp
  cases symbols with
  | nil => rfl
  | cons symbol symbols =>
    rw [joined, List.zipIdx_cons, List.foldl_cons, hbehind _ _ _ (Nat.succ_pos 0), hflat]
    simp

/-- The request that subscribes to the books of the symbols. -/
def subscribeRequest (venue : VenueId) (symbols : List NativeSymbol) : Json :=
  match venue.exchange with
  | .binance => .object [("method", .text "SUBSCRIBE"),
      ("params", .array (symbols.map fun symbol => .text (symbol.toLower ++ "@depth@100ms"))),
      ("id", .integer 1)]
  | .bybit => .object [("op", .text "subscribe"),
      ("args", .array (symbols.map fun symbol => .text ("orderbook.50." ++ symbol)))]
  | .okx => .object [("op", .text "subscribe"),
      ("args", .array (symbols.map fun symbol =>
        .object [("channel", .text "books"), ("instId", .text symbol)]))]

/-- Nothing in the symbol must be escaped in a JSON text. -/
def PlainSymbol (symbol : NativeSymbol) : Prop := ∀ c ∈ symbol.toList, mustEscape c = false

private theorem toList_wrapped (front text back : String) :
    (front ++ text ++ back).toList = front.toList ++ (text.toList ++ back.toList) := by
  rw [String.toList_append, String.toList_append, List.append_assoc]

section Written

variable {message : String} {request : Json} {element : NativeSymbol → String}
  {doc : NativeSymbol → Json} {chars : NativeSymbol → List Char} {front back a b : List Char}
  {symbols : List NativeSymbol}

/-- A message that writes its symbols as they are, and a request that has them in strings: the
message is the text of the request if no symbol needs an escape, and only then. -/
private theorem written_iff
    (hmessage : message.toList = front ++ ((joined element symbols).toList ++ back))
    (hrequest : request.compact = front ++ (compactElems (symbols.map doc) ++ back))
    (helement : ∀ symbol, (element symbol).toList = a ++ (chars symbol ++ b))
    (hdoc : ∀ symbol, (doc symbol).compact = a ++ ((chars symbol).flatMap escape ++ b))
    (hplain : ∀ symbol, (∀ c ∈ chars symbol, mustEscape c = false) ↔ PlainSymbol symbol) :
    message.toList = request.compact ↔ ∀ symbol ∈ symbols, PlainSymbol symbol := by
  have hle : ∀ symbol, (element symbol).toList.length ≤ (doc symbol).compact.length := by
    intro symbol
    have hescape := length_le_flatMap_escape (chars symbol)
    rw [helement, hdoc]
    simp only [List.length_append]
    omega
  have heq : ∀ symbol, (element symbol).toList = (doc symbol).compact ↔ PlainSymbol symbol := by
    intro symbol
    rw [helement, hdoc, List.append_cancel_left_eq, List.append_cancel_right_eq, eq_comm,
      flatMap_escape_eq_self_iff, hplain]
  rw [hmessage, hrequest, List.append_cancel_left_eq, List.append_cancel_right_eq, toList_joined,
    compactElems_eq, List.map_map]
  exact (intercalate_map_eq_iff hle symbols).trans (forall₂_congr fun symbol _ => heq symbol)

end Written

variable (symbols : List NativeSymbol)

theorem Binance.subscribeMessage_iff (type : MarketType) :
    (Binance.subscribeMessage "100ms" symbols).toList =
        (subscribeRequest ⟨.binance, type⟩ symbols).compact ↔
      ∀ symbol ∈ symbols, PlainSymbol symbol := by
  have hmessage : (Binance.subscribeMessage "100ms" symbols).toList =
      "\x7b\"method\":\"SUBSCRIBE\",\"params\":[".toList ++
        ((joined (fun symbol => "\"" ++ symbol.toLower ++ "@depth@" ++ "100ms" ++ "\"")
          symbols).toList ++ "],\"id\":1\x7d".toList) :=
    toList_wrapped _ _ _
  have hrequest : (subscribeRequest ⟨.binance, type⟩ symbols).compact =
      "\x7b\"method\":\"SUBSCRIBE\",\"params\":[".toList ++
        (compactElems (symbols.map fun symbol => .text (symbol.toLower ++ "@depth@100ms")) ++
          "],\"id\":1\x7d".toList) := by
    simp only [subscribeRequest, compact, compactFields, List.append_assoc, List.cons_append]
    rfl
  have helement : ∀ symbol : NativeSymbol,
      ("\"" ++ symbol.toLower ++ "@depth@" ++ "100ms" ++ "\"").toList =
        ['\x22'] ++ (symbol.toLower.toList ++ "@depth@100ms\"".toList) := by
    intro symbol
    simp only [String.toList_append, List.append_assoc]
    rfl
  have hdoc : ∀ symbol : NativeSymbol, (Json.text (symbol.toLower ++ "@depth@100ms")).compact =
      ['\x22'] ++ (symbol.toLower.toList.flatMap escape ++ "@depth@100ms\"".toList) := by
    intro symbol
    simp only [compact, quoteText, String.toList_append, List.flatMap_append, List.append_assoc]
    rfl
  refine written_iff hmessage hrequest helement hdoc fun symbol => ?_
  have hlower : symbol.toLower.toList = symbol.toList.map Char.toLower := String.toList_map
  simp only [PlainSymbol, hlower, List.forall_mem_map, mustEscape_toLower]

theorem Bybit.subscribeMessage_iff (type : MarketType) :
    (Bybit.subscribeMessage 50 symbols).toList =
        (subscribeRequest ⟨.bybit, type⟩ symbols).compact ↔
      ∀ symbol ∈ symbols, PlainSymbol symbol := by
  have hmessage : (Bybit.subscribeMessage 50 symbols).toList =
      "\x7b\"op\":\"subscribe\",\"args\":[".toList ++
        ((joined (fun symbol => "\"orderbook." ++ toString (50 : ℤ) ++ "." ++ symbol ++ "\"")
          symbols).toList ++ "]\x7d".toList) :=
    toList_wrapped _ _ _
  have hrequest : (subscribeRequest ⟨.bybit, type⟩ symbols).compact =
      "\x7b\"op\":\"subscribe\",\"args\":[".toList ++
        (compactElems (symbols.map fun symbol => .text ("orderbook.50." ++ symbol)) ++
          "]\x7d".toList) := by
    simp only [subscribeRequest, compact, compactFields, List.append_assoc, List.cons_append]
    rfl
  have helement : ∀ symbol : NativeSymbol,
      ("\"orderbook." ++ toString (50 : ℤ) ++ "." ++ symbol ++ "\"").toList =
        "\"orderbook.50.".toList ++ (symbol.toList ++ ['\x22']) := by
    intro symbol
    simp only [String.toList_append, List.append_assoc]
    rfl
  have hdoc : ∀ symbol : NativeSymbol, (Json.text ("orderbook.50." ++ symbol)).compact =
      "\"orderbook.50.".toList ++ (symbol.toList.flatMap escape ++ ['\x22']) := by
    intro symbol
    simp only [compact, quoteText, String.toList_append, List.flatMap_append, List.append_assoc]
    rfl
  exact written_iff hmessage hrequest helement hdoc fun symbol => Iff.rfl

theorem Okx.subscribeMessage_iff (type : MarketType) :
    (Okx.subscribeMessage symbols).toList = (subscribeRequest ⟨.okx, type⟩ symbols).compact ↔
      ∀ symbol ∈ symbols, PlainSymbol symbol := by
  have hmessage : (Okx.subscribeMessage symbols).toList =
      "\x7b\"op\":\"subscribe\",\"args\":[".toList ++
        ((joined (fun symbol =>
          "\x7b\"channel\":\"books\",\"instId\":\"" ++ symbol ++ "\"\x7d") symbols).toList ++
          "]\x7d".toList) :=
    toList_wrapped _ _ _
  have hrequest : (subscribeRequest ⟨.okx, type⟩ symbols).compact =
      "\x7b\"op\":\"subscribe\",\"args\":[".toList ++
        (compactElems (symbols.map fun symbol =>
          .object [("channel", .text "books"), ("instId", .text symbol)]) ++ "]\x7d".toList) := by
    simp only [subscribeRequest, compact, compactFields, List.append_assoc, List.cons_append]
    rfl
  have helement : ∀ symbol : NativeSymbol,
      ("\x7b\"channel\":\"books\",\"instId\":\"" ++ symbol ++ "\"\x7d").toList =
        "\x7b\"channel\":\"books\",\"instId\":\"".toList ++
          (symbol.toList ++ "\"\x7d".toList) := by
    intro symbol
    simp only [String.toList_append, List.append_assoc]
  have hdoc : ∀ symbol : NativeSymbol,
      (Json.object [("channel", .text "books"), ("instId", .text symbol)]).compact =
        "\x7b\"channel\":\"books\",\"instId\":\"".toList ++
          (symbol.toList.flatMap escape ++ "\"\x7d".toList) := by
    intro symbol
    simp only [compact, compactFields, quoteText, List.append_assoc, List.cons_append]
    rfl
  exact written_iff hmessage hrequest helement hdoc fun symbol => Iff.rfl

/-- **What the feeds send.** A feed's subscription is the JSON text of the request for exactly the
symbols it is given if no symbol needs an escape in a string, and only then. -/
theorem subscribe_message_exact (p : OnDemand) (venue : VenueId) :
    ((wiredFeed p venue).subscribeMessage symbols).toList =
        (subscribeRequest venue symbols).compact ↔
      ∀ symbol ∈ symbols, PlainSymbol symbol := by
  obtain ⟨exchange, type⟩ := venue
  match exchange, type with
  | .binance, .spot | .binance, .perp => exact Binance.subscribeMessage_iff symbols _
  | .bybit, .spot | .bybit, .perp => exact Bybit.subscribeMessage_iff symbols _
  | .okx, .spot | .okx, .perp => exact Okx.subscribeMessage_iff symbols _

end Hermeneutic
