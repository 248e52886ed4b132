import CoreFlow.Allocator.RangeStats

/-!
# Throughput of an instance

`ThroughputEstimator.analyze_throughput` searches for the highest request rate whose prefills, decode
iterations and cache swaps fit into a second, asking a latency predictor at every midpoint. The quotients
are exact here, and the profiles behind the predictor are parameters. A division by zero raises.
-/

namespace CoreFlow

/-- `a / b`; `none` is a `ZeroDivisionError`. -/
def pyDiv (a b : ℚ) : Option ℚ := if b = 0 then none else some (a / b)

/-- `a // b`. -/
def pyFloorDiv (a b : ℚ) : Option Int := (pyDiv a b).map Int.floor

/-- `int` of a float cuts off the fraction. -/
def truncInt (q : ℚ) : Int := if 0 ≤ q then ⌊q⌋ else ⌈q⌉

/-- What the profiles predict for one layer. -/
structure LatencyModels where
  mlp : (batchSize : Int) → ℚ
  attnDecode : (batchSize totalTokens : Int) → ℚ
  attnPrefill : (batchSize totalTokens : Int) → ℚ
  interference : (batchSize largeSeqLen smallSeqLen : Int) → ℚ

/-- The arguments of `predict_latency`. -/
structure PredictCall where
  numLayers : Int
  decodeBatchSize : Int
  avgDecodeLength : Int
  longestDecodeLength : Int
  prefillQueryLen : Int
  prefillSeqLen : Int
  interference : Bool
deriving DecidableEq

namespace PredictCall

/-- The interference model is asked. -/
def AsksInterference (call : PredictCall) : Prop := call.decodeBatchSize ≠ 1 ∧ call.interference = true

instance (call : PredictCall) : Decidable call.AsksInterference := inferInstanceAs (Decidable (_ ∧ _))

/-- `int(avg_remaining_length)`, what the interference model gets as `small_seq_len`. -/
def smallSeqLen (call : PredictCall) : Option Int :=
  (pyDiv (call.avgDecodeLength * call.decodeBatchSize - call.longestDecodeLength : Int)
    (call.decodeBatchSize - 1 : Int)).map truncInt

/-- `predict_latency`. -/
def predictLatency (models : LatencyModels) (call : PredictCall) : Option ℚ := do
  let mlpLatency := call.numLayers * models.mlp (call.decodeBatchSize + call.prefillQueryLen)
  let decodeAttnLatency := call.numLayers *
    models.attnDecode call.decodeBatchSize (call.decodeBatchSize * call.avgDecodeLength)
  let prefillAttnLatency :=
    if call.prefillQueryLen ≠ 0 then
      call.numLayers * models.attnPrefill call.prefillQueryLen call.prefillSeqLen
    else 0
  let interferenceLatency ←
    if call.AsksInterference then do
      let smallSeqLen ← call.smallSeqLen
      some (call.numLayers * models.interference call.decodeBatchSize call.longestDecodeLength smallSeqLen)
    else some 0
  some (mlpLatency + interferenceLatency + decodeAttnLatency + prefillAttnLatency)

/-- The arguments are in the domain of the profiles. -/
structure InDomain (chunkSize : Int) (call : PredictCall) : Prop where
  batch : 1 ≤ call.decodeBatchSize
  query : 0 ≤ call.prefillQueryLen ∧ call.prefillQueryLen ≤ chunkSize
  lengths : 0 ≤ call.avgDecodeLength ∧ 0 ≤ call.longestDecodeLength ∧ 0 ≤ call.prefillSeqLen
  remaining : call.AsksInterference → ∃ n ∈ call.smallSeqLen, 0 ≤ n

end PredictCall

structure ThroughputEstimator where
  chunkSize : Int
  swapLatency : ℚ
deriving DecidableEq

/-- `request_stats`. -/
structure RequestStats where
  max : Int
  prompt : Int
  decode : Int
  cached : Int
deriving DecidableEq

/-- The statistics that are passed on, unless the range is skipped. -/
def RangeStats.requestStats (stats : RangeStats) : Option RequestStats :=
  if stats.avgDecodeLength = 0 then none
  else some ⟨stats.maxLength, stats.avgPrefillLength, stats.avgDecodeLength, stats.avgCachedTokens⟩

/-- `E_C + E_P + E_D // 2`. -/
def RequestStats.avgLength (stats : RequestStats) : Int := stats.cached + stats.prompt + stats.decode / 2

/-- The bounds of the binary search. -/
structure SearchState where
  left : ℚ
  right : ℚ
deriving DecidableEq

def SearchState.mid (s : SearchState) : ℚ := (s.right + s.left) / 2

/-- `1e-9`. -/
def tiny : ℚ := 1 / 10 ^ 9

/-- The arguments of a throughput analysis. -/
structure Analysis where
  estimator : ThroughputEstimator
  models : LatencyModels
  numLayers : Int
  stats : RequestStats
  interference : Bool

namespace Analysis

/-- The call for an iteration with a prefill chunk. -/
def prefillCall (a : Analysis) (batch : Int) : PredictCall where
  numLayers := a.numLayers
  decodeBatchSize := batch
  avgDecodeLength := a.stats.avgLength
  longestDecodeLength := a.stats.max
  prefillQueryLen := min a.stats.prompt (a.estimator.chunkSize - batch)
  prefillSeqLen := a.stats.cached + a.stats.prompt / 2
  interference := a.interference

/-- The call for a decode iteration. -/
def decodeCall (a : Analysis) (batch : Int) : PredictCall :=
  { a.prefillCall batch with prefillQueryLen := 0, prefillSeqLen := 0 }

/-- The batch size at a midpoint, and the expected number of prefill chunks. -/
def batchSize (a : Analysis) (maxBatch : Int) (mid : ℚ) : Option (Int × ℚ) := do
  let expectedChunks ← pyDiv (a.stats.prompt * mid) a.estimator.chunkSize
  let wanted ← pyDiv (a.stats.decode * mid) (max expectedChunks tiny)
  some (min maxBatch ⌈wanted⌉, expectedChunks)

/-- One pass of the search, with the calls that it makes. -/
def searchStep (a : Analysis) (maxBatch : Int) (s : SearchState) : Option (SearchState × List PredictCall) := do
  let timeSwap := min (s.mid * a.estimator.swapLatency) 1
  if 1 ≤ timeSwap then some ({ s with right := s.mid }, [])
  else do
    let (batch, expectedChunks) ← a.batchSize maxBatch s.mid
    if batch < 1 then some ({ s with right := s.mid }, [])
    else do
      let latencyPrefill ← (a.prefillCall batch).predictLatency a.models
      let timePrefill := min (expectedChunks * latencyPrefill) (1 - timeSwap)
      if 1 - timeSwap ≤ timePrefill then some ({ s with right := s.mid }, [a.prefillCall batch])
      else do
        let latencyDecode ← (a.decodeCall batch).predictLatency a.models
        let numDecodeIter ← pyFloorDiv (1 - timePrefill - timeSwap) (max latencyDecode tiny)
        let swapIter ← pyFloorDiv timeSwap (max latencyDecode tiny)
        let prefillIter ← pyFloorDiv timePrefill (max latencyPrefill tiny)
        let others := truncInt (batch - s.mid)
        let tokensPerSec := others * swapIter + others * prefillIter + max 0 numDecodeIter * batch
        if a.stats.decode * s.mid < tokensPerSec then
          some ({ s with left := s.mid }, [a.prefillCall batch, a.decodeCall batch])
        else some ({ s with right := s.mid }, [a.prefillCall batch, a.decodeCall batch])

/-- The loop, with all calls that it makes. -/
def search (a : Analysis) (maxBatch : Int) : Nat → SearchState → Option (SearchState × List PredictCall)
  | 0, s => some (s, [])
  | n + 1, s => do
    let (s', calls) ← a.searchStep maxBatch s
    let (last, others) ← a.search maxBatch n s'
    some (last, calls ++ others)

/-- `B_max`. -/
def maxBatch (a : Analysis) (instanceMemTokens : Int) : Option Int := do
  let slots ← pyFloorDiv instanceMemTokens a.stats.avgLength
  some (max 1 slots)

/-- `analyze_throughput`, with all calls of the predictor. -/
def analyzeThroughput (a : Analysis) (instanceMemTokens : Int) : Option (ℚ × List PredictCall) := do
  let maxBatch ← a.maxBatch instanceMemTokens
  let (s, calls) ← a.search maxBatch 20 ⟨0, 20⟩
  some (s.left, calls)

end Analysis

end CoreFlow
