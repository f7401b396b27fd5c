import GatewayRules.Leadership
import Mathlib.Data.List.Basic
import Mathlib.Data.List.Induction

/-!
A member on its own leads a topic from its candidacy to its withdrawal, through whichever gates it
is made to run and to withdraw. Only that member is ever seated, so that no withdrawal is turned
down.
-/
namespace GatewayRules

/-- A call that changes a candidacy, made to the service directly or through a gate. -/
inductive Bid where
  | run (topic : String)
  | withdraw (topic : String)
  | activate (gate : Gate)
  | deactivate (gate : Gate)
  deriving DecidableEq, Repr

namespace Bid

def topic : Bid → String
  | run topic | withdraw topic => topic
  | activate gate | deactivate gate => gate.topic

def stands : Bid → Bool
  | run _ | activate _ => true
  | withdraw _ | deactivate _ => false

def lastStands (topic : String) (bids : List Bid) : Bool :=
  ((bids.filter (·.topic = topic)).getLast?.map stands).getD false

theorem lastStands_concat (topic : String) (bids : List Bid) (b : Bid) :
    lastStands topic (bids ++ [b]) =
      if b.topic = topic then b.stands else lastStands topic bids := by
  unfold lastStands
  by_cases same : b.topic = topic <;> simp [same]

end Bid

namespace LocalLeadership

variable {l : LocalLeadership}

/-- Whoever leads a topic is the member that the service is of. -/
def Sole (l : LocalLeadership) : Prop :=
  ∀ topic leader, l.leader topic = some leader → leader = l.self

theorem sole_ofMember (self : Member) : (ofMember self).Sole := fun _ _ found => by cases found

theorem self_run (l : LocalLeadership) (topic : String) : (l.run topic).1.self = l.self := by
  unfold run
  split <;> rfl

theorem self_withdraw (l : LocalLeadership) (topic : String) :
    (l.withdraw topic).1.self = l.self := by
  unfold withdraw
  split
  · split <;> rfl
  · rfl

theorem lookup_filter_ne (seats : List (String × Member)) (topic other : String) :
    (seats.filter (·.1 ≠ topic)).lookup other =
      if other = topic then none else seats.lookup other := by
  induction seats with
  | nil => simp
  | cons seat rest ih =>
    obtain ⟨held, leader⟩ := seat
    by_cases gone : held = topic
    · rw [List.filter_cons_of_neg (by simpa using gone), ih]
      by_cases same : other = topic
      · rw [if_pos same, if_pos same]
      · have apart : (other == held) = false := by simpa [gone] using same
        rw [if_neg same, if_neg same, List.lookup_cons, apart]
    · rw [List.filter_cons_of_pos (by simpa using gone), List.lookup_cons, List.lookup_cons, ih]
      by_cases here : other = held
      · have other_ne : other ≠ topic := fun same => gone (here.symm.trans same)
        simp [here, gone]
      · have apart : (other == held) = false := by simpa using here
        simp only [apart]

theorem leader_run (sole : l.Sole) (topic other : String) :
    (l.run topic).1.leader other = if other = topic then some l.self else l.leader other := by
  unfold run
  split
  · next leader found =>
    by_cases same : other = topic
    · rw [if_pos same, same, found, sole topic leader found]
    · rw [if_neg same]
  · by_cases same : other = topic
    · simp [leader, same]
    · have apart : (other == topic) = false := by simpa using same
      simp [leader, List.lookup_cons, apart, same]

theorem leader_withdraw (sole : l.Sole) (topic other : String) :
    (l.withdraw topic).1.leader other = if other = topic then none else l.leader other := by
  unfold withdraw
  split
  · next leader found =>
    rw [if_pos (sole topic leader found)]
    exact lookup_filter_ne l.seats topic other
  · next vacant =>
    by_cases same : other = topic
    · rw [if_pos same, same, vacant]
    · rw [if_neg same]

theorem notice_run (sole : l.Sole) (topic : String) :
    (l.run topic).2 = some (.acquired topic l.self) := by
  unfold run
  split
  · next leader found =>
    obtain rfl := sole topic leader found
    exact if_pos rfl
  · rfl

/-- A withdrawal is never turned down; where there is no candidacy, it comes to nothing. -/
theorem notice_withdraw (sole : l.Sole) (topic : String) :
    (l.withdraw topic).2 = if (l.leader topic).isSome then some (.withdrew topic) else none := by
  unfold withdraw
  split
  · next leader found => rw [if_pos (sole topic leader found), found]; rfl
  · next vacant => rw [vacant]; rfl

theorem Sole.run (sole : l.Sole) (topic : String) : (l.run topic).1.Sole := by
  intro other leader found
  rw [leader_run sole] at found
  rw [self_run]
  split at found
  · exact (Option.some.inj found).symm
  · exact sole other leader found

theorem Sole.withdraw (sole : l.Sole) (topic : String) : (l.withdraw topic).1.Sole := by
  intro other leader found
  rw [leader_withdraw sole] at found
  rw [self_withdraw]
  split at found
  · cases found
  · exact sole other leader found

def bid (l : LocalLeadership) (b : Bid) : LocalLeadership × Option CandidacyNotice :=
  if b.stands then l.run b.topic else l.withdraw b.topic

theorem self_bid (l : LocalLeadership) (b : Bid) : (l.bid b).1.self = l.self := by
  unfold bid
  split
  · exact self_run l b.topic
  · exact self_withdraw l b.topic

theorem Sole.bid (sole : l.Sole) (b : Bid) : (l.bid b).1.Sole := by
  unfold LocalLeadership.bid
  split
  · exact sole.run b.topic
  · exact sole.withdraw b.topic

theorem leader_bid (sole : l.Sole) (b : Bid) (topic : String) : (l.bid b).1.leader topic =
    if b.topic = topic then (if b.stands then some l.self else none) else l.leader topic := by
  unfold bid
  split
  · simp only [leader_run sole, eq_comm]
  · simp only [leader_withdraw sole, eq_comm]

theorem notice_bid (sole : l.Sole) (b : Bid) : (l.bid b).2 =
    if b.stands then some (.acquired b.topic l.self)
    else if (l.leader b.topic).isSome then some (.withdrew b.topic) else none := by
  unfold bid
  split
  · exact notice_run sole b.topic
  · exact notice_withdraw sole b.topic

end LocalLeadership

namespace Leadership

def bid (l : Leadership) : Bid → Leadership × Option CandidacyNotice
  | .run topic => l.run topic
  | .withdraw topic => l.withdraw topic
  | .activate gate => gate.activate l
  | .deactivate gate => gate.deactivate l

def after (l : Leadership) (bids : List Bid) : Leadership := bids.foldl (fun l b => (l.bid b).1) l

theorem after_concat (l : Leadership) (bids : List Bid) (b : Bid) :
    l.after (bids ++ [b]) = ((l.after bids).bid b).1 := List.foldl_concat ..

/-- A gate adds nothing to what it calls, whoever it is of. -/
theorem bid_solitary (service : LocalLeadership) (b : Bid) :
    (solitary service).bid b = (.solitary (service.bid b).1, (service.bid b).2) := by
  cases b <;> rfl

/-- What calls make of a service: it stays the one of its member, who leads just the topics on which
the last call is for a candidacy. -/
theorem after_solitary (self : Member) (bids : List Bid) : ∃ service : LocalLeadership,
    (solitary (.ofMember self)).after bids = .solitary service ∧ service.self = self ∧
    service.Sole ∧
    ∀ topic, service.leader topic = if Bid.lastStands topic bids then some self else none := by
  induction bids using List.reverseRecOn with
  | nil => exact ⟨_, rfl, rfl, LocalLeadership.sole_ofMember self, fun _ => rfl⟩
  | append_singleton bids b ih =>
    obtain ⟨service, same, rfl, sole, leader⟩ := ih
    refine ⟨(service.bid b).1, ?_, service.self_bid b, sole.bid b, fun topic => ?_⟩
    · rw [after_concat, same, bid_solitary]
    · rw [LocalLeadership.leader_bid sole, Bid.lastStands_concat, leader]
      split <;> rfl

/-- A member on its own leads from its candidacy to its withdrawal. After any calls, made directly
or through any gates, the leader of a topic is the service's own member if the last call on that
topic is for a candidacy, and there is none otherwise. Every call for a candidacy is told to the log
as acquiring the topic, and one for its end as withdrawing from it or, if it does not lead, not at
all; it is never told that another member leads. A gate leads if it is of that same member and the
last call on its topic is for a candidacy. -/
theorem leads_from_run_to_withdrawal (self : Member) (bids : List Bid) :
    let l := (solitary (.ofMember self)).after bids
    (∀ topic, l.leader topic = if Bid.lastStands topic bids then some self else none) ∧
    (∀ b : Bid, (l.bid b).2 =
      if b.stands then some (.acquired b.topic self)
      else if Bid.lastStands b.topic bids then some (.withdrew b.topic) else none) ∧
    ∀ g : Gate, g.isLeader l ↔ g.self = self ∧ Bid.lastStands g.topic bids := by
  obtain ⟨service, same, rfl, sole, leader⟩ := after_solitary self bids
  intro l
  have leads (topic : String) :
      l.leader topic = if Bid.lastStands topic bids then some service.self else none :=
    (congrArg (·.leader topic) same).trans (leader topic)
  refine ⟨leads, fun b => ?_, fun g => ?_⟩
  · have noticed : (l.bid b).2 = (service.bid b).2 := by
      simp only [l, same, bid_solitary]
    rw [noticed, LocalLeadership.notice_bid sole, leader]
    cases Bid.lastStands b.topic bids <;> rfl
  · unfold Gate.isLeader
    rw [leads, beq_iff_eq]
    cases Bid.lastStands g.topic bids with
    | true => simpa using eq_comm
    | false => simp

end Leadership
end GatewayRules
