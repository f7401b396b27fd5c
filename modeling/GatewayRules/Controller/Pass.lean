import GatewayRules.Controller.State

/-!
One pass over the complete nodes for one network. Each pair of network and node runs on its own:
what goes wrong with one pair is logged and counted, and the others go on.
-/
namespace GatewayRules

inductive PairFault where
  | skipped (error : RuleError)
  | refused (error : RuleError)
  | crashed (crash : Crash)
  deriving DecidableEq, Repr, Inhabited

namespace PairFault

def notice (n : Network) (x : Node) (action : Action) : PairFault → Notice
  | skipped error => .ruleSkipped n.name error
  | refused error => .ruleRefused action n.name x.bridge error
  | crashed crash => .ruleCrashed n.name x.hostname crash

end PairFault

def ArmedCrash.countDown (seam : Seam) : List ArmedCrash → List ArmedCrash × Option Crash
  | [] => ([], none)
  | c :: rest =>
    if c.seam = seam then
      match c.after with
      | 0 => (rest, some c.crash)
      | k + 1 => ({ c with after := k } :: rest, none)
    else
      let (rest, crash) := countDown seam rest
      (c :: rest, crash)

/-- Counts every hook down, and separates those that are due. -/
def Hook.countDown (hooks : List Hook) : List Hook × List Hook :=
  (hooks.filterMap fun k => if k.after = 0 then none else some { k with after := k.after - 1 },
    hooks.filter (·.after = 0))

namespace Controller

def enter (s : Controller) (h : Nat) (seam : Seam) (call : Call) : Controller × Option Crash :=
  let (crashes, crash) := ArmedCrash.countDown seam s.crashes
  ({ s.note (.call h call) with crashes }, crash)

def fireHooks (s : Controller) : Controller :=
  let (waiting, due) := Hook.countDown s.hooks
  (due.flatMap Hook.actions).foldl disturb { s with hooks := waiting }

/-- The resolver is asked only for a node that does not own the network. -/
def buildRule (s : Controller) (h : Nat) (n : Network) (x : Node) (owner : Option Node) :
    Controller × Except PairFault Rule :=
  if x.Owns n then (s, (synthesize s.resolver n x owner).mapError .skipped)
  else match s.enter h .resolver (.read .resolver) with
    | (s, some crash) => (s, .error (.crashed crash))
    | (s, none) => (s, (synthesize s.resolver n x owner).mapError .skipped)

def request (s : Controller) (h : Nat) (r : Request) : Controller × Except PairFault Unit :=
  match s.enter h .installer (.submit r) with
  | (s, some crash) => (s, .error (.crashed crash))
  | (s, none) =>
    match s.refusals.lookup r.rule.device with
    | some reason =>
      (s.note (.call h (.refused r.rule.device)),
        .error (.refused (.refused r.rule.device reason)))
    | none =>
      let s := (s.note (.call h (.accepted r))).fireHooks
      (if s.logsRequests then s.log (.requested r) else s, .ok ())

def pair (s : Controller) (h : Nat) (p : Placement) (n : Network) (x : Node) (owner : Option Node)
    (action : Action) : Controller × Except PairFault Unit :=
  match s.buildRule h n x owner with
  | (s, .error fault) => (s, .error fault)
  | (s, .ok rule) => s.request h ⟨rule, p, action⟩

def settlePair (h : Nat) (p : Placement) (n : Network) (owner : Option Node) (action : Action) :
    Controller × Report → Node → Controller × Report
  | (s, report), x =>
    match s.pair h p n x owner action with
    | (s, .ok ()) => (s, { report with applied := report.applied + 1 })
    | (s, .error fault) =>
      (s.log (fault.notice n x action), { report with failed := report.failed + 1 })

/-- The complete nodes and the owner are read once, before the first pair. -/
def pass (s : Controller) (h : Nat) (p : Placement) (n : Network) (action : Action) :
    Controller × Except Crash Report :=
  match s.enter h .completeNodes (.read .completeNodes) with
  | (s, some crash) => (s, .error crash)
  | (s, none) =>
    let nodes := s.inventory.completeNodes
    match s.enter h .node (.read .node) with
    | (s, some crash) => (s, .error crash)
    | (s, none) =>
      let owner := s.inventory.node? n.name
      let (s, report) := nodes.foldl (settlePair h p n owner action) (s, ⟨0, 0⟩)
      (s.log (.passed n.name action report), .ok report)

/-- A pass for each network in turn, up to one that breaks off. -/
def passEach (h : Nat) (p : Placement) : Controller → List Network → Controller × Option Crash
  | s, [] => (s, none)
  | s, n :: rest =>
    match s.pass h p n .install with
    | (s, .error crash) => (s, some crash)
    | (s, .ok _) => passEach h p s rest

end Controller

end GatewayRules
