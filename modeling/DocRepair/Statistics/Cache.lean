import DocRepair.Fault
/-!
# `DocRepair.Statistics.Cache` — one computed value, kept for a while

A value is computed on demand and kept until its time is up or it is discarded. When a computation
fails, what was kept before stays; so it does when it cannot be told whether its time is up.

## Contents

* `Timed` — times of which it can be told whether a span since one of them is over;
* `Entry` — a value with the time it was computed and how long it may be kept;
* `Cache` — how long values are kept, and the entry held;
* `fresh?` — the entry held, if its time is not up;
* `get` — the entry held or a new one;
* `invalidate` — discards the entry.
-/

namespace DocRepair.Statistics

/-- A value with the time it was computed and how long it may be kept. -/
structure Entry (τ α : Type) where
  computedAt : τ
  ttl : τ
  value : α
deriving Repr

/-- How long values may be kept, and the entry held. -/
structure Cache (τ α : Type) where
  ttl : τ
  entry : Option (Entry τ α) := none
deriving Repr

/-- Times of which it can be told whether a span of time since one of them is over. -/
class Timed (τ : Type) where
  isOver : (start span now : τ) → Except Fault Bool

variable {τ α : Type} [Timed τ]

/-- Whether the time of an entry is up: from its last moment on. -/
def Entry.expired (e : Entry τ α) (now : τ) : Except Fault Bool :=
  Timed.isOver e.computedAt e.ttl now

namespace Cache

/-- The entry held, if its time is not up. -/
def fresh? (c : Cache τ α) (now : τ) : Except Fault (Option (Entry τ α)) :=
  match c.entry with
  | some e => do .ok (if ← e.expired now then none else some e)
  | none => .ok none

/-- The entry held if it is fresh, else a new one, which is then held; a computation that fails
    leaves the cache as it is. -/
def get (c : Cache τ α) (now : τ) (compute : Except Fault α) :
    Except Fault (Entry τ α) × Cache τ α :=
  match c.fresh? now with
  | .error fault => (.error fault, c)
  | .ok (some e) => (.ok e, c)
  | .ok none =>
    match compute with
    | .ok value =>
      let e : Entry τ α := ⟨now, c.ttl, value⟩
      (.ok e, { c with entry := some e })
    | .error fault => (.error fault, c)

/-- The cache without its entry. -/
def invalidate (c : Cache τ α) : Cache τ α :=
  { c with entry := none }

end Cache

end DocRepair.Statistics
