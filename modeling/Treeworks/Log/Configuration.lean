import Treeworks.Log.Level
import Treeworks.Failure
import Treeworks.Settings

/-! The configuration of logging: what filters events and how they are written, the levels of the
stream, and the loggers that keep what they were first used with. -/
namespace Treeworks

/-- How events are written to the stream. -/
inductive LogFormat
  | data
  | console
  deriving DecidableEq, Repr, Inhabited

/-- What an event goes through: a filter by family, or else by the level of its logger; then the
format. -/
structure Chain where
  filter : Option FamilyFilter
  format : LogFormat
  deriving Inhabited

/-- The state of logging. Before any configuration there is no chain and events are recorded as
they are; the stream is there from the first configuration that succeeds. `rootLevel` and `ownLevel`
are the stream's levels for foreign and own loggers. `kept` holds the chains of the loggers that were
used under a configuration. -/
structure Logging where
  configured : Bool
  chain : Option Chain
  rootLevel : Nat
  ownLevel : Nat
  kept : Table Chain
  deriving Inhabited

namespace Logging

/-- Logging as it starts. -/
def initial : Logging := ⟨false, none, 30, 0, []⟩

/-- The level from which a logger's events reach the stream. -/
def streamLevel (l : Logging) (logger : String) : Nat :=
  if logger = "unified" || logger.startsWith "unified." then
    if l.ownLevel = 0 then l.rootLevel else l.ownLevel
  else l.rootLevel

/-- Whether the stream takes a logger's events of a method. -/
def streamTakes (l : Logging) (logger : String) (method : LogMethod) : Bool :=
  l.streamLevel logger ≤ method.level

/-- The chain that a kept logger uses; the first use under a configuration fixes it. -/
def chainOf (l : Logging) (logger : String) : Option Chain × Logging :=
  match l.kept.get? logger with
  | some c => (some c, l)
  | none =>
    match l.chain with
    | none => (none, l)
    | some c => (some c, { l with kept := l.kept.set logger c })

/-- Configures logging. The level is looked up when the filter by family is made, else after the
chain was replaced. -/
def arrange (l : Logging) (level : String) (format : LogFormat) (families : Option Elements) :
    Except Failure Unit × Logging :=
  match families, level? level with
  | none, none => (.error (.lacksKey level), { l with chain := some ⟨none, format⟩ })
  | some _, none => (.error (.lacksKey level), l)
  | none, some n =>
    (.ok (), { l with configured := true, chain := some ⟨none, format⟩, rootLevel := n, ownLevel := n })
  | some families, some n =>
    (.ok (), { l with
      configured := true, chain := some ⟨some ⟨families, n⟩, format⟩, rootLevel := 10, ownLevel := 10 })

end Logging
end Treeworks
