import Agentfork.Bench.StockCache
import Agentfork.Kv.ExactAdmission

/-! # The cache-pressure simulator and its model

A parent prefix is requested and then children that share it, with unrelated
requests in between, against the stock cache and against a cache that pins the
parent. The model predicts what the parent and its children are charged. -/

namespace Agentfork.Bench

open Kv (TreeKVCache CacheError)

inductive Pattern where
  | sustained
  | burst
  deriving DecidableEq, Repr

/-- A scenario that has passed the checks of `__post_init__`. -/
structure PressureScenario where
  prefixTokens : Nat
  nChildren : Nat
  suffixTokens : Nat
  interleavedTokens : Nat
  capacityTokens : Nat
  pattern : Pattern
  children : 1 ≤ nChildren
  capacity : 0 < capacityTokens
  request : prefixTokens + suffixTokens ≠ 0
  fits : prefixTokens + suffixTokens ≤ capacityTokens

/-! ## The model -/

/-- `max(0, capacity_tokens - prefix_tokens)` -/
def breakEvenU (prefixTokens capacityTokens : Nat) : Nat := capacityTokens - prefixTokens

def stockParentHits (ps : PressureScenario) : Nat :=
  let evicts := breakEvenU ps.prefixTokens ps.capacityTokens < ps.interleavedTokens
  match ps.pattern with
  | .burst => if ¬ evicts then ps.nChildren else ps.nChildren - 1
  | .sustained => if ¬ evicts then ps.nChildren else 0

/-- One arm of the prediction, without the rates that are rounded from it. -/
structure ArmPrediction where
  parentHits : Nat
  misses : Nat
  prefillCharged : Nat
  deriving DecidableEq, Repr

structure PressurePrediction where
  breakEvenU : Nat
  stock : ArmPrediction
  pinned : ArmPrediction
  pinningWins : Bool
  deriving DecidableEq, Repr

/-- `pressure_model` without `parent_hit_rate` and `compute_ratio_prefill`, which are
floats rounded from these counts. -/
def pressureModel (ps : PressureScenario) : PressurePrediction :=
  let hits := stockParentHits ps
  let misses := ps.nChildren - hits
  let pinnedPrefill := ps.prefixTokens + ps.nChildren * ps.suffixTokens
  let stockPrefill := ps.prefixTokens + ps.nChildren * ps.suffixTokens + misses * ps.prefixTokens
  { breakEvenU := breakEvenU ps.prefixTokens ps.capacityTokens
    stock := ⟨hits, misses, stockPrefill⟩
    pinned := ⟨ps.nChildren, 0, pinnedPrefill⟩
    pinningWins := decide (0 < misses) }

/-! ## The simulator -/

/-- `_TokenGen` -/
structure TokenGen where
  next : Nat
  ranges : Dict String Nat

namespace TokenGen

def new : TokenGen := ⟨0, Dict.empty⟩

def block (gen : TokenGen) (name : String) (size : Nat) : List Nat × TokenGen :=
  match gen.ranges.get? name with
  | some start => (List.range' start size, gen)
  | none => (List.range' gen.next size, ⟨gen.next + size, gen.ranges.insert name gen.next⟩)

def fresh (gen : TokenGen) (size : Nat) : List Nat × TokenGen :=
  (List.range' gen.next size, { gen with next := gen.next + size })

end TokenGen

def suffixName (child : Nat) : String := "suffix-" ++ toString child

/-- There is an unrelated request before the child. -/
def PressureScenario.applies (ps : PressureScenario) (child : Nat) : Bool :=
  decide (0 < ps.interleavedTokens) && (decide (ps.pattern = .sustained) || decide (child = 0))

structure Measurement where
  parentHits : Nat
  nChildren : Nat
  prefillCharged : Int
  /-- what the parent and the children were charged -/
  childPrefillCharged : Int
  deriving DecidableEq, Repr

/-! ### The stock arm -/

structure StockRun where
  gen : TokenGen
  cache : StockRadixCache
  hits : Nat
  childCharged : Nat

namespace StockRun

def gap (ps : PressureScenario) (run : StockRun) (child : Nat) : StockRun :=
  if ps.applies child then
    let (noise, gen) := run.gen.fresh ps.interleavedTokens
    { run with gen := gen, cache := (run.cache.runRequest noise).2 }
  else run

def child (ps : PressureScenario) (tokens : List Nat) (run : StockRun) (child : Nat) : StockRun :=
  let before := run.cache.prefillCharged
  let matched := run.cache.matchPrefix tokens
  let (suffix, gen) := run.gen.block (suffixName child) ps.suffixTokens
  let cache := (run.cache.runRequest (tokens ++ suffix)).2
  { gen := gen
    cache := cache
    hits := if ps.prefixTokens ≤ matched then run.hits + 1 else run.hits
    childCharged := run.childCharged + (cache.prefillCharged - before) }

def start (ps : PressureScenario) : List Nat × StockRun :=
  let (tokens, gen) := TokenGen.new.block "parent" ps.prefixTokens
  let cache := ((StockRadixCache.fresh ps.capacityTokens).runRequest tokens).2
  (tokens, ⟨gen, cache, 0, cache.prefillCharged⟩)

/-- The run after some children. -/
def after (ps : PressureScenario) (tokens : List Nat) (run : StockRun) : Nat → StockRun
  | 0 => run
  | children + 1 => ((run.after ps tokens children).gap ps children).child ps tokens children

end StockRun

def runStock (ps : PressureScenario) : Measurement :=
  let (tokens, run) := StockRun.start ps
  let run := run.after ps tokens ps.nChildren
  ⟨run.hits, ps.nChildren, run.cache.prefillCharged, run.childCharged⟩

/-! ### The pinned arm -/

structure PinnedRun where
  gen : TokenGen
  cache : TreeKVCache Nat
  hits : Nat
  childCharged : Int

namespace PinnedRun

/-- What a call returns, with the cache that it leaves; an error ends the run. -/
def call {α : Type} (result : Except CacheError α × TreeKVCache Nat) : Except CacheError (α × TreeKVCache Nat) :=
  result.1.map fun value => (value, result.2)

def noiseName (child : Nat) : String := "noise-" ++ toString child

def childName (child : Nat) : String := "child-" ++ toString child

/-- The unrelated request has a tree of its own, which is gone when it is done. -/
def gap (ps : PressureScenario) (clock : Nat → Nat) (run : PinnedRun) (child : Nat) : Except CacheError PinnedRun :=
  if ps.applies child then do
    let (_, cache) ← call (run.cache.createTree (noiseName child))
    let (noise, gen) := run.gen.fresh ps.interleavedTokens
    let (_, cache) ← call (cache.extend (clock (3 * child + 1)) (noiseName child) noise)
    let (_, cache) ← call (cache.kill (noiseName child))
    .ok { run with gen := gen, cache := cache }
  else .ok run

def extendUnlessEmpty (cache : TreeKVCache Nat) (now : Nat) (treeId : String) (tokens : List Nat) :
    Except CacheError (TreeKVCache Nat) :=
  if tokens = [] then .ok cache else (call (cache.extend now treeId tokens)).map Prod.snd

def child (ps : PressureScenario) (clock : Nat → Nat) (tokens : List Nat) (run : PinnedRun) (child : Nat) :
    Except CacheError PinnedRun := do
  let (_, cache) ← call (run.cache.forkBranch "parent" (some (childName child)))
  let (matched, cache) ← call (cache.matchTreePrefix (clock (3 * child + 2)) (childName child) tokens)
  let before := cache.stats.prefillTokensCharged
  let (suffix, gen) := run.gen.block (suffixName child) ps.suffixTokens
  let cache ← extendUnlessEmpty cache (clock (3 * child + 3)) (childName child) suffix
  .ok { gen := gen
        cache := cache
        hits := if ps.prefixTokens ≤ matched then run.hits + 1 else run.hits
        childCharged := run.childCharged + (cache.stats.prefillTokensCharged - before) }

/-- Room for the parent, its children and one unrelated request. -/
def capacity (ps : PressureScenario) : Nat :=
  max ps.capacityTokens (ps.prefixTokens + ps.nChildren * ps.suffixTokens + ps.interleavedTokens + 1)

def start (ps : PressureScenario) (clock : Nat → Nat) : Except CacheError (List Nat × PinnedRun) := do
  let cache ← TreeKVCache.new (capacity ps) none
  let (tokens, gen) := TokenGen.new.block "parent" ps.prefixTokens
  let (_, cache) ← call (cache.createTree "parent")
  let cache ← extendUnlessEmpty cache (clock 0) "parent" tokens
  .ok (tokens, ⟨gen, cache, 0, cache.stats.prefillTokensCharged⟩)

/-- The run after some children; an error ends it. -/
def after (ps : PressureScenario) (clock : Nat → Nat) (tokens : List Nat) (run : PinnedRun) :
    Nat → Except CacheError PinnedRun
  | 0 => .ok run
  | children + 1 => do
    let run ← after ps clock tokens run children
    let run ← run.gap ps clock children
    run.child ps clock tokens children

end PinnedRun

/-- The clock gives its readings in the order in which the cache asks for them. -/
def runPinned (ps : PressureScenario) (clock : Nat → Nat) : Except CacheError Measurement := do
  let (tokens, run) ← PinnedRun.start ps clock
  let run ← run.after ps clock tokens ps.nChildren
  .ok ⟨run.hits, ps.nChildren, run.cache.stats.prefillTokensCharged, run.childCharged⟩

end Agentfork.Bench
