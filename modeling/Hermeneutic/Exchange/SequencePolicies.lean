import Hermeneutic.Book.SymbolSync

/-!
# The venues' sequence policies

How each venue numbers its depth updates, as the three predicates and the flag `SymbolSync`
is parametrised by (`exchange/*/…_sequence_policy.hpp`). The Binance venues race a REST
snapshot against the stream; Bybit and OKX push the snapshot first. Ids are `uint64_t`, and
`+ 1` wraps as it does there.
-/

namespace Hermeneutic

/-- Binance USDS-M Futures: ranges `U..u` with a back-pointer `pu`. -/
def binanceFuturesSequencePolicy : SequencePolicy where
  trustsConnectionOrder := false
  shouldDropBuffered event snapshot := event.finalId < snapshot.lastUpdateId
  bridgesSnapshot event snapshot :=
    event.firstId ≤ snapshot.lastUpdateId && event.finalId ≥ snapshot.lastUpdateId
  isContiguous event lastAppliedFinalId := event.prevFinalId == lastAppliedFinalId

/-- Binance Spot: adjacent ranges `U..u`, no back-pointer. -/
def binanceSpotSequencePolicy : SequencePolicy where
  trustsConnectionOrder := false
  shouldDropBuffered event snapshot := event.finalId ≤ snapshot.lastUpdateId
  bridgesSnapshot event snapshot :=
    event.firstId ≤ snapshot.lastUpdateId + 1 && event.finalId ≥ snapshot.lastUpdateId + 1
  isContiguous event lastAppliedFinalId := event.firstId == lastAppliedFinalId + 1

/-- Bybit, spot and linear: one id `u` per update, consecutive. -/
def bybitSequencePolicy : SequencePolicy where
  trustsConnectionOrder := true
  shouldDropBuffered event snapshot := event.finalId ≤ snapshot.lastUpdateId
  bridgesSnapshot event snapshot := event.finalId == snapshot.lastUpdateId + 1
  isContiguous event lastAppliedFinalId := event.finalId == lastAppliedFinalId + 1

/-- OKX, spot and swap: one id `seqId` per update with a back-pointer `prevSeqId`. -/
def okxSequencePolicy : SequencePolicy where
  trustsConnectionOrder := true
  shouldDropBuffered event snapshot := event.finalId < snapshot.lastUpdateId
  bridgesSnapshot event snapshot := event.prevFinalId == snapshot.lastUpdateId
  isContiguous event lastAppliedFinalId := event.prevFinalId == lastAppliedFinalId

end Hermeneutic
