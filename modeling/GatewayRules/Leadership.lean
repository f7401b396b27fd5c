/-!
Leadership among controller members: one topic has at most one leader, and only the leader programs
rules. `LocalLeadership` serves a member that runs without a cluster.
-/
namespace GatewayRules

structure Member where
  id : String
  deriving DecidableEq, Repr, Inhabited

instance : ToString Member := ⟨Member.id⟩

inductive CandidacyNotice where
  | acquired (topic : String) (leader : Member)
  | withdrew (topic : String)
  | notLeading (topic : String) (leader : Member)
  deriving DecidableEq, Repr, Inhabited

/-- Who leads which topic, as far as one member decides it alone. -/
structure LocalLeadership where
  self : Member
  seats : List (String × Member)
  deriving DecidableEq, Repr, Inhabited

namespace LocalLeadership

def ofMember (self : Member) : LocalLeadership := ⟨self, []⟩

def leader (l : LocalLeadership) (topic : String) : Option Member := l.seats.lookup topic

def run (l : LocalLeadership) (topic : String) : LocalLeadership × Option CandidacyNotice :=
  match l.leader topic with
  | some leader => (l, if leader = l.self then some (.acquired topic leader) else none)
  | none => ({ l with seats := (topic, l.self) :: l.seats }, some (.acquired topic l.self))

def withdraw (l : LocalLeadership) (topic : String) : LocalLeadership × Option CandidacyNotice :=
  match l.leader topic with
  | some leader =>
    if leader = l.self then
      ({ l with seats := l.seats.filter (·.1 ≠ topic) }, some (.withdrew topic))
    else (l, some (.notLeading topic leader))
  | none => (l, none)

end LocalLeadership

/-- The service that handlers ask: one leader for every topic that candidacies do not change, or a
member on its own. -/
inductive Leadership where
  | appointed (leader : Option Member)
  | solitary (service : LocalLeadership)
  deriving DecidableEq, Repr, Inhabited

namespace Leadership

def leader : Leadership → String → Option Member
  | appointed leader, _ => leader
  | solitary service, topic => service.leader topic

def run : Leadership → String → Leadership × Option CandidacyNotice
  | appointed leader, _ => (.appointed leader, none)
  | solitary service, topic =>
    let (service, notice) := service.run topic
    (.solitary service, notice)

def withdraw : Leadership → String → Leadership × Option CandidacyNotice
  | appointed leader, _ => (.appointed leader, none)
  | solitary service, topic =>
    let (service, notice) := service.withdraw topic
    (.solitary service, notice)

def appoint : Leadership → Option Member → Leadership
  | appointed _, leader => .appointed leader
  | solitary service, _ => .solitary service

end Leadership

/-- A topic as one member sees it: nothing is remembered, and every question goes to the service. -/
structure Gate where
  self : Member
  topic : String
  deriving DecidableEq, Repr, Inhabited

namespace Gate

def activate (g : Gate) (l : Leadership) : Leadership × Option CandidacyNotice := l.run g.topic

def deactivate (g : Gate) (l : Leadership) : Leadership × Option CandidacyNotice :=
  l.withdraw g.topic

def isLeader (g : Gate) (l : Leadership) : Bool := l.leader g.topic == some g.self

end Gate

end GatewayRules
