/-!
Whose turn it is. A worker keeps its turn until it has nothing left to do. Workers that were woken
while the controller itself was at work come next, and after them those woken from outside, each
kind in the order in which they were woken.
-/
namespace GatewayRules

/-- The workers that are to run, by the numbers of their handlers. -/
structure Schedule where
  running : Option Nat
  /-- Workers that were woken by the work of another, by a feed or by a direct pass. -/
  roused : List Nat
  /-- Workers that were woken from outside. -/
  waiting : List Nat
  deriving DecidableEq, Repr, Inhabited

namespace Schedule

def empty : Schedule := ⟨none, [], []⟩

def holds (s : Schedule) (h : Nat) : Bool :=
  s.running = some h || s.roused.contains h || s.waiting.contains h

/-- Lets a worker stand in line before those woken from outside, unless it has a place. -/
def rouse (s : Schedule) (h : Nat) : Schedule :=
  if s.holds h then s else { s with roused := s.roused ++ [h] }

/-- Gives a worker a place in line, unless it has one. While a worker has the turn, it is the one
that wakes others. -/
def wake (s : Schedule) (h : Nat) : Schedule :=
  if s.holds h then s
  else if s.running.isSome then s.rouse h
  else { s with waiting := s.waiting ++ [h] }

/-- Lets the workers that were woken since an earlier moment stand before those woken from outside
until then. -/
def promoteSince (s earlier : Schedule) : Schedule :=
  { s with
    roused := s.roused ++ s.waiting.drop earlier.waiting.length
    waiting := s.waiting.take earlier.waiting.length }

/-- The next turn. A worker that is not ready when its turn comes gives up its place. -/
def next? (s : Schedule) (isReady : Nat → Bool) : Option (Nat × Schedule) :=
  match s.running.filter isReady with
  | some h => some (h, s)
  | none =>
    match s.roused.dropWhile (!isReady ·) with
    | h :: roused => some (h, ⟨some h, roused, s.waiting⟩)
    | [] =>
      match s.waiting.dropWhile (!isReady ·) with
      | h :: waiting => some (h, ⟨some h, [], waiting⟩)
      | [] => none

theorem isReady_of_next? {s next : Schedule} {isReady : Nat → Bool} {h : Nat}
    (turn : s.next? isReady = some (h, next)) : isReady h = true := by
  have head {l rest : List Nat} (e : l.dropWhile (!isReady ·) = h :: rest) : isReady h = true := by
    have := List.head_dropWhile_not (fun k => !isReady k) (l := l) (by simp [e])
    simpa [e] using this
  unfold next? at turn
  split at turn
  · next k e =>
    obtain ⟨rfl, -⟩ := Prod.mk.inj (Option.some.inj turn)
    exact (Option.filter_eq_some_iff.1 e).2
  · split at turn
    · next k roused e =>
      obtain ⟨rfl, -⟩ := Prod.mk.inj (Option.some.inj turn)
      exact head e
    · split at turn
      · next k waiting e =>
        obtain ⟨rfl, -⟩ := Prod.mk.inj (Option.some.inj turn)
        exact head e
      · cases turn

end Schedule

end GatewayRules
