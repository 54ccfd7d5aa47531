import Mathlib.Data.Rat.Defs
import Gateway.Lib.Dict

/-!
Load accounting, from `gateway/load_tracker.py`.

The tables are `defaultdict`s: an absent backend counts as `0`. `max(0, n - 1)` on a
count is the subtraction of `Nat`.
-/

namespace Gateway

/-- `LoadTracker`. -/
structure LoadTracker (B : Type) where
  inflight : Dict B Nat
  inflightTokens : Dict B Nat
  kvUsage : Dict B ℚ

namespace LoadTracker

variable {B : Type}

/-- `LoadTracker()`. -/
def empty : LoadTracker B := ⟨.empty, .empty, .empty⟩

variable [DecidableEq B]

/-- `inflight[b]`. -/
def inflightOf (l : LoadTracker B) (b : B) : Nat := l.inflight.getD b 0

/-- `kv_usage[b]`. -/
def kvUsageOf (l : LoadTracker B) (b : B) : ℚ := l.kvUsage.getD b 0

/-- `on_dispatch(backend_id, tokens)`. -/
def onDispatch (l : LoadTracker B) (b : B) (tokens : Nat) : LoadTracker B :=
  { l with
    inflight := l.inflight.set b (l.inflightOf b + 1)
    inflightTokens := l.inflightTokens.set b (l.inflightTokens.getD b 0 + tokens) }

/-- `on_complete(backend_id, tokens)`. -/
def onComplete (l : LoadTracker B) (b : B) (tokens : Nat) : LoadTracker B :=
  { l with
    inflight := l.inflight.set b (l.inflightOf b - 1)
    inflightTokens := l.inflightTokens.set b (l.inflightTokens.getD b 0 - tokens) }

/-- What `admin_remove_backend` drops: `inflight.pop(b)` and `kv_usage.pop(b)`. The
token count stays. -/
def forget (l : LoadTracker B) (b : B) : LoadTracker B :=
  { l with inflight := l.inflight.erase b, kvUsage := l.kvUsage.erase b }

theorem inflightOf_onDispatch (l : LoadTracker B) (b b' : B) (tokens : Nat) :
    (l.onDispatch b tokens).inflightOf b' =
      if b' = b then l.inflightOf b + 1 else l.inflightOf b' :=
  Dict.getD_set ..

theorem inflightOf_onComplete (l : LoadTracker B) (b b' : B) (tokens : Nat) :
    (l.onComplete b tokens).inflightOf b' =
      if b' = b then l.inflightOf b - 1 else l.inflightOf b' :=
  Dict.getD_set ..

theorem inflightOf_forget (l : LoadTracker B) (b b' : B) :
    (l.forget b).inflightOf b' = if b' = b then 0 else l.inflightOf b' :=
  Dict.getD_erase ..

end LoadTracker

end Gateway
