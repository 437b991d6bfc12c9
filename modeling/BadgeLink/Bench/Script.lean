import BadgeLink.Bench.Basic

/-!
# Scripted ports

A port that follows a script: what its reads yield, and whether its writes and flushes succeed. A
script is a list of items, each of which decides for a while and is then dropped.
-/

namespace BadgeLink

/-- An item of the script for reads. -/
inductive Delivery where
  | bytes (data : List UInt8)
  | idle (reads : Nat)
  | fault (f : PortFault) (reads : Nat)
  /-- Nothing, until so many bytes have been accepted in all. -/
  | untilAccepted (bytes : Nat)
  /-- Nothing, until a time in microseconds. -/
  | untilTime (time : Nat)
deriving DecidableEq, Repr

/-- An item of the script for writes or for flushes. -/
inductive Reception where
  | accept (calls : Nat)
  | busy (calls : Nat)
  | fault (f : PortFault) (calls : Nat)
deriving DecidableEq, Repr

structure Script where
  deliveries : List Delivery := []
  writes : List Reception := []
  flushes : List Reception := []
  /-- The number of bytes accepted in all. -/
  accepted : Nat := 0
deriving DecidableEq, Repr

namespace Script

/-- One read: what the first item that is not used up yields, and the items after it. When all are
used up, the line is idle. -/
def deliver (clock accepted : Nat) : List Delivery → Reading × List Delivery
  | [] => (.idle, [])
  | .bytes [] :: rest => deliver clock accepted rest
  | .bytes (b :: data) :: rest => (.byte b, .bytes data :: rest)
  | .idle 0 :: rest => deliver clock accepted rest
  | .idle (n + 1) :: rest => (.idle, .idle n :: rest)
  | .fault _ 0 :: rest => deliver clock accepted rest
  | .fault f (n + 1) :: rest => (.fault f, .fault f n :: rest)
  | .untilAccepted n :: rest =>
    if n ≤ accepted then deliver clock accepted rest else (.idle, .untilAccepted n :: rest)
  | .untilTime t :: rest =>
    if t ≤ clock then deliver clock accepted rest else (.idle, .untilTime t :: rest)

/-- One write or flush: how the first item that is not used up lets it end, and the items after it.
When all are used up, it succeeds. -/
def consult : List Reception → Acceptance × List Reception
  | [] => (.done, [])
  | .accept 0 :: rest => consult rest
  | .accept (n + 1) :: rest => (.done, .accept n :: rest)
  | .busy 0 :: rest => consult rest
  | .busy (n + 1) :: rest => (.busy, .busy n :: rest)
  | .fault _ 0 :: rest => consult rest
  | .fault f (n + 1) :: rest => (.fault f, .fault f n :: rest)

def port : SimulatedPort Script where
  read clock s :=
    let (r, deliveries) := deliver clock s.accepted s.deliveries
    (r, { s with deliveries })
  write _ s :=
    match consult s.writes with
    | (.done, writes) => (.ok .done, { s with writes, accepted := s.accepted + 1 })
    | (r, writes) => (.ok r, { s with writes })
  flush s :=
    let (r, flushes) := consult s.flushes
    (r, { s with flushes })

def extend (s : Script) (deliveries : List Delivery) (writes flushes : List Reception) : Script :=
  { s with
    deliveries := s.deliveries ++ deliveries
    writes := s.writes ++ writes
    flushes := s.flushes ++ flushes }

end Script

end BadgeLink
