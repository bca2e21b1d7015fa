import Hermeneutic.Symbol.BookId

/-!
# Each venue's spelling of a pair

`nativeSymbol` (`symbol/symbol.hpp`) concatenates a pair the way its venue spells it: Binance
and Bybit put the two codes side by side, OKX separates them with a dash and tags a swap.

A concatenation does not mark where the base ends. `BoundaryMoved` says how two different pairs
come to be spelt alike, and `nativeSymbol_eq_iff` that there is no other way.

Two pairs with the same spelling split the same text in two places, or the market tells them
apart. The first case is a base that is a proper prefix of the other base, with the rest moved to
the front of the quote; the proof is a comparison of two appended lists. For OKX the dash is part
of the text, so the boundary can move across a dash that a code itself holds, which the codes that
a config can name do not exclude.
-/

namespace Hermeneutic

/-- An exchange by its configured name. -/
def parseExchange (token : String) : Option Exchange :=
  if token = "BINANCE" then some .binance
  else if token = "BYBIT" then some .bybit
  else if token = "OKX" then some .okx
  else none

/-- The configured name of an exchange. -/
def exchangeName : Exchange → String
  | .binance => "BINANCE"
  | .bybit => "BYBIT"
  | .okx => "OKX"

/-- The symbol a venue's feed subscribes with. -/
def nativeSymbol (exchange : Exchange) (symbol : BaseQuote) (type : MarketType) : NativeSymbol :=
  match exchange with
  | .binance | .bybit => symbol.base.code ++ symbol.quote.code
  | .okx =>
    let suffix := match type with
      | .spot => ""
      | .perp => "-SWAP"
    symbol.base.code ++ "-" ++ symbol.quote.code ++ suffix

theorem parseExchange_exchangeName (exchange : Exchange) :
    parseExchange (exchangeName exchange) = some exchange := by
  cases exchange <;> rfl

theorem exchangeName_of_parseExchange {token : String} {exchange : Exchange}
    (h : parseExchange token = some exchange) : token = exchangeName exchange := by
  rw [parseExchange] at h
  split_ifs at h with hbinance hbybit hokx
  · obtain rfl := Option.some.inj h
    exact hbinance
  · obtain rfl := Option.some.inj h
    exact hbybit
  · obtain rfl := Option.some.inj h
    exact hokx

/-- The second pair has the boundary between base and quote further right, in the spelling of
an exchange: part of the first quote belongs to its base. On OKX the part starts behind the
first dash and the second dash follows it. -/
def BoundaryMoved (exchange : Exchange) (symbol symbol' : BaseQuote) : Prop :=
  match exchange with
  | .binance | .bybit => ∃ moved, moved ≠ [] ∧
      symbol'.base.code.toList = symbol.base.code.toList ++ moved ∧
      symbol.quote.code.toList = moved ++ symbol'.quote.code.toList
  | .okx => ∃ moved,
      symbol'.base.code.toList = symbol.base.code.toList ++ '-' :: moved ∧
      symbol.quote.code.toList = moved ++ '-' :: symbol'.quote.code.toList

/-- A boundary that is moved lands elsewhere. -/
theorem not_boundaryMoved_self (exchange : Exchange) (symbol : BaseQuote) :
    ¬BoundaryMoved exchange symbol symbol := by
  cases exchange <;> simp +contextual [BoundaryMoved]

private theorem BaseQuote.eq_of_toList {symbol symbol' : BaseQuote}
    (hbase : symbol.base.code.toList = symbol'.base.code.toList)
    (hquote : symbol.quote.code.toList = symbol'.quote.code.toList) : symbol = symbol' := by
  obtain ⟨⟨base⟩, ⟨quote⟩⟩ := symbol
  obtain ⟨⟨base'⟩, ⟨quote'⟩⟩ := symbol'
  obtain rfl := String.toList_inj.mp hbase
  obtain rfl := String.toList_inj.mp hquote
  rfl

/-- Two codes side by side, read apart again. -/
private theorem append_codes_eq_iff {symbol symbol' : BaseQuote} :
    symbol.base.code.toList ++ symbol.quote.code.toList =
        symbol'.base.code.toList ++ symbol'.quote.code.toList ↔
      symbol = symbol' ∨ BoundaryMoved .binance symbol symbol' ∨
        BoundaryMoved .binance symbol' symbol := by
  rw [List.append_eq_append_iff]
  constructor
  · rintro (⟨moved, hbase, hquote⟩ | ⟨moved, hbase, hquote⟩)
    · cases moved with
      | nil =>
        exact .inl (BaseQuote.eq_of_toList (by simpa using hbase.symm) (by simpa using hquote))
      | cons c cs => exact .inr (.inl ⟨c :: cs, by simp, hbase, hquote⟩)
    · cases moved with
      | nil =>
        exact .inl (BaseQuote.eq_of_toList (by simpa using hbase) (by simpa using hquote.symm))
      | cons c cs => exact .inr (.inr ⟨c :: cs, by simp, hbase, hquote⟩)
  · rintro (rfl | ⟨moved, -, hbase, hquote⟩ | ⟨moved, -, hbase, hquote⟩)
    · exact .inl ⟨[], by simp, by simp⟩
    · exact .inl ⟨moved, hbase, hquote⟩
    · exact .inr ⟨moved, hbase, hquote⟩

/-- Two codes with a dash between them, read apart again. -/
private theorem append_dash_codes_eq_iff {symbol symbol' : BaseQuote} :
    symbol.base.code.toList ++ '-' :: symbol.quote.code.toList =
        symbol'.base.code.toList ++ '-' :: symbol'.quote.code.toList ↔
      symbol = symbol' ∨ BoundaryMoved .okx symbol symbol' ∨
        BoundaryMoved .okx symbol' symbol := by
  rw [List.append_eq_append_iff]
  constructor
  · rintro (⟨moved, hbase, hquote⟩ | ⟨moved, hbase, hquote⟩)
    · cases moved with
      | nil =>
        exact .inl (BaseQuote.eq_of_toList (by simpa using hbase.symm) (by simpa using hquote))
      | cons c cs =>
        obtain ⟨rfl, htail⟩ := List.cons.inj hquote
        exact .inr (.inl ⟨cs, hbase, htail⟩)
    · cases moved with
      | nil =>
        exact .inl (BaseQuote.eq_of_toList (by simpa using hbase) (by simpa using hquote.symm))
      | cons c cs =>
        obtain ⟨rfl, htail⟩ := List.cons.inj hquote
        exact .inr (.inr ⟨cs, hbase, htail⟩)
  · rintro (rfl | ⟨moved, hbase, hquote⟩ | ⟨moved, hbase, hquote⟩)
    · exact .inl ⟨[], by simp, by simp⟩
    · exact .inl ⟨'-' :: moved, hbase, by rw [hquote, List.cons_append]⟩
    · exact .inr ⟨'-' :: moved, hbase, by rw [hquote, List.cons_append]⟩

/-- A venue spells two pairs alike only when the boundary between the codes is moved. -/
theorem nativeSymbol_eq_iff {exchange : Exchange} {symbol symbol' : BaseQuote}
    (type : MarketType) :
    nativeSymbol exchange symbol type = nativeSymbol exchange symbol' type ↔
      symbol = symbol' ∨ BoundaryMoved exchange symbol symbol' ∨
        BoundaryMoved exchange symbol' symbol := by
  rw [← String.toList_inj]
  cases exchange with
  | binance =>
    rw [← append_codes_eq_iff]
    simp only [nativeSymbol, String.toList_append]
  | bybit =>
    refine Iff.trans ?_ append_codes_eq_iff
    simp only [nativeSymbol, String.toList_append]
  | okx =>
    rw [← append_dash_codes_eq_iff]
    have hdash : "-".toList = ['-'] := rfl
    simp only [nativeSymbol, String.toList_append, hdash, List.append_assoc,
      List.singleton_append]
    rw [← List.append_assoc, ← List.append_assoc, List.append_left_inj]

end Hermeneutic
