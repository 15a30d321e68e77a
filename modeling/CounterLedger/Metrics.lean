/-
Metrics: how many invocations of each entry point were accepted and rejected.
-/
import CounterLedger.Contract
import CounterLedger.Text.Numeral

namespace CounterLedger

/-- Whether an invocation succeeded. -/
inductive Status where
  | accepted
  | rejected
deriving DecidableEq

/-- The word of a status. -/
def Status.name : Status → Bytes
  | .accepted => utf8 "accepted"
  | .rejected => utf8 "rejected"

/-- Invocations of one entry point. -/
structure Tally where
  accepted : Nat := 0
  rejected : Nat := 0
deriving DecidableEq

namespace Tally

/-- The invocations with one status. -/
def count (t : Tally) : Status → Nat
  | .accepted => t.accepted
  | .rejected => t.rejected

/-- One more invocation. -/
def record (t : Tally) : Status → Tally
  | .accepted => { t with accepted := t.accepted + 1 }
  | .rejected => { t with rejected := t.rejected + 1 }

end Tally

/-- Invocations of each entry point. -/
structure Metrics where
  instantiate : Tally := {}
  execute : Tally := {}
  query : Tally := {}
deriving DecidableEq

namespace Metrics

/-- The invocations of one entry point with one status. -/
def count (m : Metrics) (e : Entry) (s : Status) : Nat :=
  match e with
  | .instantiate => m.instantiate.count s
  | .execute => m.execute.count s
  | .query => m.query.count s

/-- One more invocation. -/
def record (m : Metrics) (e : Entry) (s : Status) : Metrics :=
  match e with
  | .instantiate => { m with instantiate := m.instantiate.record s }
  | .execute => { m with execute := m.execute.record s }
  | .query => { m with query := m.query.record s }

/-- The counters that have been used, in the order of their names. -/
def used (m : Metrics) : List (Entry × Status × Nat) :=
  let all : List (Entry × Status) :=
    [(.execute, .accepted), (.execute, .rejected), (.instantiate, .accepted),
     (.instantiate, .rejected), (.query, .accepted), (.query, .rejected)]
  (all.map fun (e, s) => (e, s, m.count e s)).filter fun (_, _, n) => n ≠ 0

/-- The name of the counters. -/
def counterName : Bytes := utf8 "cwcounter_native_calls_total"

/-- The counters as text for a scraper; nothing when none has been used. -/
def exposition (m : Metrics) : Bytes :=
  match m.used with
  | [] => []
  | lines =>
    utf8 "# HELP " ++ counterName ++
      utf8 " total number of contract invocations per entry point and status\n# TYPE " ++
      counterName ++ utf8 " counter\n" ++
      lines.flatMap fun (e, s, n) =>
        counterName ++ utf8 "\x7bentry=\"" ++ e.name ++ utf8 "\",status=\"" ++ s.name ++
          utf8 "\"\x7d " ++ Numeral.decimal n ++ utf8 "\n"

end Metrics

end CounterLedger
