import GatewayRules.Proofs.Isolation
import Mathlib.Data.List.Basic

/-!
What becomes of each pair of a pass. A pair is accepted, cannot be built, is refused, or breaks off
with the resolver or with the installer. Its fate shows in what it writes, and it is the same
whatever becomes of the others.
-/
namespace GatewayRules
open Journal

def Entry.complaint? : Entry → Option Notice
  | .log notice => if notice.level = .warn ∨ notice.level = .error then some notice else none
  | _ => none

def Journal.complaints (journal : List Entry) : List Notice :=
  journal.filterMap Entry.complaint?

theorem Journal.complaints_append (first second : List Entry) :
    complaints (first ++ second) = complaints first ++ complaints second :=
  List.filterMap_append

theorem Journal.calls_own (h : Nat) (cs : List Call) : calls h (cs.map (.call h)) = cs := by
  unfold calls
  rw [List.filterMap_map]
  simp [Function.comp_def, Entry.callBy?]

theorem Journal.calls_call (h : Nat) (c : Call) : calls h [.call h c] = [c] := calls_own h [c]

theorem Journal.calls_logged (h : Nat) (notices : List Notice) :
    calls h (notices.map .log) = [] := by
  unfold calls
  rw [List.filterMap_map]
  exact List.filterMap_eq_nil_iff.2 fun _ _ => rfl

namespace ArmedCrash

/-- Whatever is left of what is armed, and whatever the answer, there is something armed to begin
with. -/
theorem exists_countDown (seam : Seam) (left : List ArmedCrash) (answer : Option Crash) :
    ∃ crashes, countDown seam crashes = (left, answer) := by
  cases answer with
  | some crash => exact ⟨⟨seam, 0, crash⟩ :: left, by simp [countDown]⟩
  | none =>
    induction left with
    | nil => exact ⟨[], rfl⟩
    | cons c rest ih =>
      by_cases here : c.seam = seam
      · refine ⟨{ c with after := c.after + 1 } :: rest, ?_⟩
        rw [countDown, if_pos here]
      · obtain ⟨crashes, counted⟩ := ih
        refine ⟨c :: crashes, ?_⟩
        rw [countDown, if_neg here, counted]

theorem length_add_countDown (seam : Seam) (crashes : List ArmedCrash) :
    (countDown seam crashes).1.length + (countDown seam crashes).2.toList.length =
      crashes.length := by
  induction crashes with
  | nil => rfl
  | cons c rest ih =>
    by_cases here : c.seam = seam
    · cases count : c.after <;> simp [countDown, here, count]
    · simp only [countDown, here, if_false, List.length_cons]
      omega

end ArmedCrash

/-- The calls of a pair in which a collaborator breaks off. What is said of a call that the pair
does not make has no effect. -/
structure Strike where
  resolver : Option Crash
  installer : Option Crash
  deriving DecidableEq, Repr

namespace Controller

section Pair

variable (s : Controller) (h : Nat) (p : Placement) (n : Network) (owner : Option Node)
  (action : Action) (x : Node) (k : Strike)

def requestOf : Except PairFault Request :=
  match if x.Owns n then none else k.resolver with
  | some crash => .error (.crashed crash)
  | none =>
    match synthesize s.resolver n x owner with
    | .error e => .error (.skipped e)
    | .ok rule => .ok ⟨rule, p, action⟩

def fate : Except PairFault Unit :=
  match s.requestOf p n owner action x k with
  | .error fault => .error fault
  | .ok r =>
    match k.installer with
    | some crash => .error (.crashed crash)
    | none => s.verdict r

def handing : List Entry :=
  match s.requestOf p n owner action x k with
  | .error _ => []
  | .ok r => .call h (.submit r) :: if k.installer = none then s.answer h r else []

def minutes : List Entry :=
  (if x.Owns n then [] else [.call h (.read .resolver)]) ++
    s.handing h p n owner action x k ++
    (complaint? n x action (s.fate p n owner action x k)).toList.map .log

/-- What is armed strikes the installer so, if it is handed a request, and this is left of it. -/
def Hits (crashes left : List ArmedCrash) : Prop :=
  match s.requestOf p n owner action x k with
  | .error _ => left = crashes
  | .ok _ => ArmedCrash.countDown .installer crashes = (left, k.installer)

/-- What is armed strikes the pair so, and this is left of it. -/
def Strikes (crashes left : List ArmedCrash) : Prop :=
  if x.Owns n then s.Hits p n owner action x k crashes left
  else ∃ between, ArmedCrash.countDown .resolver crashes = (between, k.resolver) ∧
    s.Hits p n owner action x k between left

end Pair

variable {s : Controller} {h : Nat} {p : Placement} {n : Network} {owner : Option Node}
  {action : Action} {x : Node} {k : Strike} {crashes left : List ArmedCrash}

theorem requestOf_of_through (through : (if x.Owns n then none else k.resolver) = none) :
    s.requestOf p n owner action x k =
      match synthesize s.resolver n x owner with
      | .error e => .error (.skipped e)
      | .ok rule => .ok ⟨rule, p, action⟩ := by
  rw [requestOf, through]

theorem requestOf_of_unstruck : s.requestOf p n owner action x ⟨none, none⟩ =
    match synthesize s.resolver n x owner with
    | .error e => .error (.skipped e)
    | .ok rule => .ok ⟨rule, p, action⟩ :=
  requestOf_of_through (ite_self _)

theorem exists_hits_left (resolver : Option Crash) (crashes : List ArmedCrash) :
    ∃ installer left, s.Hits p n owner action x ⟨resolver, installer⟩ crashes left := by
  let counted := ArmedCrash.countDown .installer crashes
  unfold Hits
  cases made : s.requestOf p n owner action x ⟨resolver, counted.2⟩ with
  | error fault => exact ⟨counted.2, crashes, by rw [made]⟩
  | ok r => exact ⟨counted.2, counted.1, by rw [made]⟩

theorem exists_hits (k : Strike) (left : List ArmedCrash) :
    ∃ crashes, s.Hits p n owner action x k crashes left := by
  unfold Hits
  cases s.requestOf p n owner action x k with
  | error fault => exact ⟨left, rfl⟩
  | ok r => exact ArmedCrash.exists_countDown .installer left k.installer

theorem exists_strikes_left (crashes : List ArmedCrash) :
    ∃ k left, s.Strikes p n owner action x k crashes left := by
  unfold Strikes
  by_cases owns : x.Owns n
  · simp only [if_pos owns]
    obtain ⟨installer, left, hits⟩ := exists_hits_left none crashes
    exact ⟨_, left, hits⟩
  · simp only [if_neg owns]
    let counted := ArmedCrash.countDown .resolver crashes
    obtain ⟨installer, left, hits⟩ := exists_hits_left counted.2 counted.1
    exact ⟨_, left, counted.1, rfl, hits⟩

/-- Whatever a pair is to be struck by, something armed strikes it so. -/
theorem exists_strikes (k : Strike) (left : List ArmedCrash) :
    ∃ crashes, s.Strikes p n owner action x k crashes left := by
  unfold Strikes
  obtain ⟨between, hits⟩ := exists_hits k left
  by_cases owns : x.Owns n
  · simp only [if_pos owns]
    exact ⟨between, hits⟩
  · simp only [if_neg owns]
    obtain ⟨crashes, counted⟩ := ArmedCrash.exists_countDown .resolver between k.resolver
    exact ⟨crashes, between, counted, hits⟩

theorem enter_advance (seam : Seam) (c : Call) {answer : Option Crash}
    (counted : ArmedCrash.countDown seam crashes = (left, answer)) (written : List Entry) :
    (s.advance crashes written).enter h seam c =
      (s.advance left (written ++ [.call h c]), answer) := by
  unfold enter
  dsimp only [advance]
  rw [counted]
  simp [note]

theorem place_of_hits (unhooked : s.hooks = [])
    (through : (if x.Owns n then none else k.resolver) = none)
    (hits : s.Hits p n owner action x k crashes left) (written : List Entry) :
    (s.advance crashes written).place h p n x owner action =
      (s.advance left (written ++ s.handing h p n owner action x k),
        s.fate p n owner action x k) := by
  have same : (s.advance crashes written).resolver = s.resolver := rfl
  unfold Hits at hits
  unfold place fate handing
  rw [requestOf_of_through through] at hits ⊢
  rw [same]
  generalize synthesize s.resolver n x owner = built at hits ⊢
  cases built with
  | error e =>
    obtain rfl : left = crashes := hits
    simp
  | ok rule =>
    have entered := enter_advance (s := s) (h := h) .installer (.submit ⟨rule, p, action⟩) hits
      written
    have unhooked' : (s.advance crashes written).hooks = [] := unhooked
    dsimp only
    rw [request_eq unhooked', entered]
    cases k.installer with
    | some crash => simp [proceed]
    | none =>
      refine Prod.ext ?_ rfl
      exact (advance_advance ..).trans (congrArg (s.advance left) (List.append_assoc ..))

theorem pair_of_strikes (unhooked : s.hooks = [])
    (strikes : s.Strikes p n owner action x k crashes left) (written : List Entry) :
    (s.advance crashes written).pair h p n x owner action =
      (s.advance left (written ++ ((if x.Owns n then [] else [.call h (.read .resolver)]) ++
        s.handing h p n owner action x k)), s.fate p n owner action x k) := by
  unfold Strikes at strikes
  rw [pair_eq]
  by_cases owns : x.Owns n
  · rw [if_pos owns] at strikes
    rw [if_pos owns, if_pos owns, place_of_hits unhooked (if_pos owns) strikes]
    rfl
  · rw [if_neg owns] at strikes
    obtain ⟨between, counted, hits⟩ := strikes
    rw [if_neg owns, if_neg owns, enter_advance .resolver _ counted]
    cases struck : k.resolver with
    | none =>
      have through : (if x.Owns n then none else k.resolver) = none := by rw [struck, ite_self]
      dsimp only [proceed]
      rw [place_of_hits unhooked through hits, List.append_assoc]
    | some crash =>
      have request : s.requestOf p n owner action x k = .error (.crashed crash) := by
        rw [requestOf, if_neg owns, struck]
      unfold Hits at hits
      rw [request] at hits
      obtain rfl : left = between := hits
      simp [proceed, handing, fate, request]

/-- A pair is settled as it is struck, and adds what is written of it. -/
theorem settlePair_of_strikes (unhooked : s.hooks = [])
    (strikes : s.Strikes p n owner action x k crashes left) (written : List Entry)
    (report : Report) :
    settlePair h p n owner action (s.advance crashes written, report) x =
      (s.advance left (written ++ s.minutes h p n owner action x k),
        count report (s.fate p n owner action x k)) := by
  rw [settlePair_eq, pair_of_strikes unhooked strikes, logSome_eq_advance]
  simp [advance, minutes]

/-- The pair is one in which a collaborator breaks off. -/
def brokeOff : Except PairFault Unit → Bool
  | .error (.crashed _) => true
  | _ => false

theorem brokeOff_verdict (s : Controller) (r : Request) : brokeOff (s.verdict r) = false := by
  unfold verdict
  cases s.refusals.lookup r.rule.device <;> rfl

/-- What goes off at a pair is what is missing afterwards. -/
theorem Hits.length (hits : s.Hits p n owner action x k crashes left)
    (through : (if x.Owns n then none else k.resolver) = none) :
    left.length + (brokeOff (s.fate p n owner action x k)).toNat = crashes.length := by
  unfold Hits at hits
  unfold fate
  rw [requestOf_of_through through] at hits ⊢
  generalize synthesize s.resolver n x owner = built at hits ⊢
  cases built with
  | error e =>
    obtain rfl : left = crashes := hits
    rfl
  | ok rule =>
    have counted : ArmedCrash.countDown .installer crashes = (left, k.installer) := hits
    have kept := ArmedCrash.length_add_countDown .installer crashes
    rw [counted] at kept
    cases struck : k.installer with
    | none =>
      rw [struck] at kept
      dsimp only
      rwa [brokeOff_verdict]
    | some crash =>
      rw [struck] at kept
      exact kept

theorem Strikes.length (strikes : s.Strikes p n owner action x k crashes left) :
    left.length + (brokeOff (s.fate p n owner action x k)).toNat = crashes.length := by
  unfold Strikes at strikes
  by_cases owns : x.Owns n
  · rw [if_pos owns] at strikes
    exact strikes.length (if_pos owns)
  · rw [if_neg owns] at strikes
    obtain ⟨between, counted, hits⟩ := strikes
    have kept := ArmedCrash.length_add_countDown .resolver crashes
    rw [counted] at kept
    cases struck : k.resolver with
    | none =>
      rw [struck] at kept
      exact (hits.length (by rw [struck, ite_self])).trans kept
    | some crash =>
      rw [struck] at kept
      have request : s.requestOf p n owner action x k = .error (.crashed crash) := by
        rw [requestOf, if_neg owns, struck]
      unfold Hits at hits
      rw [request] at hits
      obtain rfl : left = between := hits
      rw [fate, request]
      exact kept

section Written
variable (s h p n owner action x k)

/-- What a pair comes to, with what is written when it hands its request over. -/
theorem fate_cases :
    (∃ fault, s.requestOf p n owner action x k = .error fault ∧
      s.fate p n owner action x k = .error fault ∧ s.handing h p n owner action x k = []) ∨
    ∃ r, s.requestOf p n owner action x k = .ok r ∧
      ((∃ crash, s.fate p n owner action x k = .error (.crashed crash) ∧
        s.handing h p n owner action x k = [.submit r].map (.call h)) ∨
      (∃ e, s.fate p n owner action x k = .error (.refused e) ∧
        s.handing h p n owner action x k =
          [.submit r, .refused r.rule.device].map (.call h)) ∨
      (s.fate p n owner action x k = .ok () ∧
        s.handing h p n owner action x k = [.submit r, .accepted r].map (.call h) ++
          if s.logsRequests then [.log (.requested r)] else [])) := by
  unfold fate handing
  cases made : s.requestOf p n owner action x k with
  | error fault => exact .inl ⟨fault, rfl, rfl, rfl⟩
  | ok r =>
    refine .inr ⟨r, rfl, ?_⟩
    cases k.installer with
    | some crash => exact .inl ⟨crash, rfl, rfl⟩
    | none =>
      dsimp only
      unfold verdict answer
      cases s.refusals.lookup r.rule.device with
      | some reason => exact .inr (.inl ⟨_, rfl, rfl⟩)
      | none => exact .inr (.inr ⟨rfl, rfl⟩)

theorem reads_are_quiet (reads : List Seam) :
    submitted h (reads.map fun seam => .call h (.read seam)) = [] ∧
      accepted h (reads.map fun seam => .call h (.read seam)) = [] ∧
      complaints (reads.map fun seam => .call h (.read seam)) = [] := by
  have calls : calls h (reads.map fun seam => .call h (.read seam)) = reads.map .read := by
    rw [← calls_own h (reads.map .read), List.map_map]
    rfl
  refine ⟨?_, ?_, ?_⟩
  · rw [submitted, calls, List.filterMap_map]
    exact List.filterMap_eq_nil_iff.2 fun _ _ => rfl
  · rw [accepted, calls, List.filterMap_map]
    exact List.filterMap_eq_nil_iff.2 fun _ _ => rfl
  · rw [complaints, List.filterMap_map]
    exact List.filterMap_eq_nil_iff.2 fun _ _ => rfl

theorem asking_is_quiet :
    submitted h (if x.Owns n then [] else [.call h (.read .resolver)]) = [] ∧
      accepted h (if x.Owns n then [] else [.call h (.read .resolver)]) = [] ∧
      complaints (if x.Owns n then [] else [.call h (.read .resolver)]) = [] := by
  split
  · exact reads_are_quiet h []
  · exact reads_are_quiet h [.resolver]

theorem submitted_minutes :
    submitted h (s.minutes h p n owner action x k) =
      (s.requestOf p n owner action x k).toOption.toList := by
  have handed : submitted h (s.handing h p n owner action x k) =
      (s.requestOf p n owner action x k).toOption.toList := by
    obtain ⟨fault, request, -, written⟩ | ⟨r, request, ⟨crash, -, written⟩ | ⟨e, -, written⟩ |
      ⟨-, written⟩⟩ := s.fate_cases h p n owner action x k
    · rw [request, written]
      rfl
    · rw [request, written, submitted, calls_own]
      rfl
    · rw [request, written, submitted, calls_own]
      rfl
    · rw [request, written, submitted, calls_append, calls_own]
      cases s.logsRequests <;> rfl
  unfold minutes
  rw [submitted_append, submitted_append, (asking_is_quiet h n x).1, handed]
  simp [submitted, calls_logged]

theorem accepted_minutes :
    accepted h (s.minutes h p n owner action x k) =
      if s.fate p n owner action x k = .ok () then
        (s.requestOf p n owner action x k).toOption.toList else [] := by
  have handed : accepted h (s.handing h p n owner action x k) =
      if s.fate p n owner action x k = .ok () then
        (s.requestOf p n owner action x k).toOption.toList else [] := by
    obtain ⟨fault, request, fate, written⟩ | ⟨r, request, ⟨crash, fate, written⟩ |
      ⟨e, fate, written⟩ | ⟨fate, written⟩⟩ := s.fate_cases h p n owner action x k
    · rw [fate, written]
      rfl
    · rw [fate, written, accepted, calls_own]
      rfl
    · rw [fate, written, accepted, calls_own]
      rfl
    · rw [fate, request, written, accepted, calls_append, calls_own]
      cases s.logsRequests <;> rfl
  unfold minutes
  rw [accepted_append, accepted_append, (asking_is_quiet h n x).2.1, handed]
  simp [accepted, calls_logged]

theorem length_accepted_minutes :
    (accepted h (s.minutes h p n owner action x k)).length =
      if s.fate p n owner action x k = .ok () then 1 else 0 := by
  rw [accepted_minutes]
  obtain ⟨fault, request, fate, -⟩ | ⟨r, request, ⟨crash, fate, -⟩ | ⟨e, fate, -⟩ | ⟨fate, -⟩⟩ :=
    s.fate_cases h p n owner action x k
  · rw [fate]
    rfl
  · rw [fate]
    rfl
  · rw [fate]
    rfl
  · rw [fate, request]
    rfl

theorem complaints_minutes :
    complaints (s.minutes h p n owner action x k) =
      (complaint? n x action (s.fate p n owner action x k)).toList := by
  have handed : complaints (s.handing h p n owner action x k) = [] := by
    obtain ⟨fault, -, -, written⟩ | ⟨r, -, ⟨crash, -, written⟩ | ⟨e, -, written⟩ |
      ⟨-, written⟩⟩ := s.fate_cases h p n owner action x k
    · rw [written]
      rfl
    · rw [written]
      rfl
    · rw [written]
      rfl
    · rw [written]
      cases s.logsRequests <;> rfl
  have logged : complaints ((complaint? n x action (s.fate p n owner action x k)).toList.map .log) =
      (complaint? n x action (s.fate p n owner action x k)).toList := by
    rcases s.fate p n owner action x k with (_ | _ | _) | _ <;> rfl
  unfold minutes
  rw [complaints_append, complaints_append, (asking_is_quiet h n x).2.2, handed, logged]
  rfl

end Written

section Pairs
variable (s h p n owner action)

def StrikesEach : List (Node × Strike) → List ArmedCrash → List ArmedCrash → Prop
  | [], crashes, left => left = crashes
  | q :: rest, crashes, left =>
    ∃ between, s.Strikes p n owner action q.1 q.2 crashes between ∧
      StrikesEach rest between left

def tally (pairs : List (Node × Strike)) : Report :=
  (pairs.map fun q => s.fate p n owner action q.1 q.2).foldl count ⟨0, 0⟩

def proceedings (pairs : List (Node × Strike)) : List Entry :=
  [.call h (.read .completeNodes), .call h (.read .node)] ++
    pairs.flatMap (fun q => s.minutes h p n owner action q.1 q.2) ++
    [.log (.passed n.name action (s.tally p n owner action pairs))]

end Pairs

variable {pairs : List (Node × Strike)}

theorem exists_strikesEach_left (nodes : List Node) (crashes : List ArmedCrash) :
    ∃ pairs left, pairs.map Prod.fst = nodes ∧
      s.StrikesEach p n owner action pairs crashes left := by
  induction nodes generalizing crashes with
  | nil => exact ⟨[], crashes, rfl, rfl⟩
  | cons x rest ih =>
    obtain ⟨k, between, strikes⟩ := exists_strikes_left crashes
    obtain ⟨pairs, left, rfl, later⟩ := ih between
    exact ⟨(x, k) :: pairs, left, rfl, between, strikes, later⟩

theorem exists_strikesEach (pairs : List (Node × Strike)) (left : List ArmedCrash) :
    ∃ crashes, s.StrikesEach p n owner action pairs crashes left := by
  induction pairs with
  | nil => exact ⟨left, rfl⟩
  | cons q rest ih =>
    obtain ⟨between, later⟩ := ih
    obtain ⟨crashes, strikes⟩ := exists_strikes q.2 between
    exact ⟨crashes, between, strikes, later⟩

theorem StrikesEach.length (strikes : s.StrikesEach p n owner action pairs crashes left) :
    left.length + pairs.countP (fun q => brokeOff (s.fate p n owner action q.1 q.2)) =
      crashes.length := by
  induction pairs generalizing crashes with
  | nil =>
    obtain rfl : left = crashes := strikes
    rfl
  | cons q rest ih =>
    obtain ⟨between, first, later⟩ := strikes
    rw [List.countP_cons, ← first.length, ← ih later]
    cases brokeOff (s.fate p n owner action q.1 q.2) <;> simp [Nat.add_assoc]

theorem foldl_settlePair_of_strikes (unhooked : s.hooks = [])
    (strikes : s.StrikesEach p n owner action pairs crashes left) (written : List Entry)
    (report : Report) :
    (pairs.map Prod.fst).foldl (settlePair h p n owner action) (s.advance crashes written, report) =
      (s.advance left (written ++ pairs.flatMap fun q => s.minutes h p n owner action q.1 q.2),
        (pairs.map fun q => s.fate p n owner action q.1 q.2).foldl count report) := by
  induction pairs generalizing crashes written report with
  | nil =>
    obtain rfl : left = crashes := strikes
    simp
  | cons q rest ih =>
    obtain ⟨between, first, later⟩ := strikes
    rw [List.map_cons, List.foldl_cons, settlePair_of_strikes unhooked first, ih later]
    simp

/-- Reading the nodes or the owner at the beginning of a pass breaks off. -/
def readingCrash (crashes : List ArmedCrash) : Option Crash :=
  match ArmedCrash.countDown .completeNodes crashes with
  | (_, some crash) => some crash
  | (crashes, none) => (ArmedCrash.countDown .node crashes).2

theorem advance_nil (s : Controller) (crashes : List ArmedCrash) :
    s.advance crashes [] = { s with crashes } := by
  simp [advance]

theorem pass_of_readingCrash {crash : Crash} (breaks : readingCrash crashes = some crash) :
    ∃ left, ∃ reads : List Seam, ({ s with crashes }.pass h p n action) =
      (s.advance left (reads.map fun seam => .call h (.read seam)), .error crash) := by
  unfold readingCrash at breaks
  rw [pass_eq, ← advance_nil]
  rcases listed : ArmedCrash.countDown .completeNodes crashes with ⟨between, _ | early⟩
  · rw [listed] at breaks
    dsimp only at breaks
    rcases found : ArmedCrash.countDown .node between with ⟨left, _ | late⟩
    · rw [found] at breaks
      cases breaks
    · rw [found] at breaks
      cases breaks
      rw [enter_advance .completeNodes _ listed]
      dsimp only [proceed]
      rw [enter_advance .node _ found]
      exact ⟨left, [.completeNodes, .node], rfl⟩
  · rw [listed] at breaks
    cases breaks
    rw [enter_advance .completeNodes _ listed]
    exact ⟨between, [.completeNodes], rfl⟩

/-- Once the nodes and the owner are read, the pass goes through the pairs to its end. -/
theorem pass_of_listing {listing finding : List ArmedCrash}
    (listed : ArmedCrash.countDown .completeNodes crashes = (listing, none))
    (found : ArmedCrash.countDown .node listing = (finding, none)) :
    { s with crashes }.pass h p n action =
      let reads : List Entry := [.call h (.read .completeNodes), .call h (.read .node)]
      let r := s.inventory.completeNodes.foldl
        (settlePair h p n (s.inventory.node? n.name) action) (s.advance finding reads, ⟨0, 0⟩)
      (r.1.logSome (some (.passed n.name action r.2)), .ok r.2) := by
  rw [pass_eq, ← advance_nil, enter_advance .completeNodes _ listed]
  dsimp only [proceed]
  rw [enter_advance .node _ found]
  rfl

theorem pass_of_strikes (unhooked : s.hooks = []) {listing finding : List ArmedCrash}
    (listed : ArmedCrash.countDown .completeNodes crashes = (listing, none))
    (found : ArmedCrash.countDown .node listing = (finding, none))
    (strikes : s.StrikesEach p n (s.inventory.node? n.name) action pairs finding left)
    (all : pairs.map Prod.fst = s.inventory.completeNodes) :
    { s with crashes }.pass h p n action =
      (s.advance left (s.proceedings h p n (s.inventory.node? n.name) action pairs),
        .ok (s.tally p n (s.inventory.node? n.name) action pairs)) := by
  rw [pass_of_listing listed found, ← all]
  dsimp only
  rw [foldl_settlePair_of_strikes unhooked strikes, logSome_eq_advance, advance_advance]
  simp [proceedings, tally, advance]

theorem foldl_count (results : List (Except PairFault Unit)) (report : Report) :
    results.foldl count report =
      ⟨report.applied + results.countP (· = .ok ()),
        report.failed + results.countP (· ≠ .ok ())⟩ := by
  induction results generalizing report with
  | nil => rfl
  | cons result rest ih =>
    rw [List.foldl_cons, ih]
    cases result <;> simp [count, Nat.add_assoc, Nat.add_comm 1]

theorem applied_tally (s : Controller) (pairs : List (Node × Strike)) :
    (s.tally p n owner action pairs).applied =
      pairs.countP fun q => s.fate p n owner action q.1 q.2 = .ok () := by
  rw [tally, foldl_count, List.countP_map]
  exact Nat.zero_add _

/-- Every pair is counted once. -/
theorem total_tally (s : Controller) (pairs : List (Node × Strike)) :
    (s.tally p n owner action pairs).applied + (s.tally p n owner action pairs).failed =
      pairs.length := by
  have split := List.length_eq_countP_add_countP (· = Except.ok ())
    (l := pairs.map fun q => s.fate p n owner action q.1 q.2)
  rw [tally, foldl_count, ← List.length_map (fun q => s.fate p n owner action q.1 q.2), split]
  simp

/-- What is read off a pass entry by entry, and not off its report, is read off its beginning and
its pairs. -/
theorem read_proceedings {α : Type} {read : List Entry → List α}
    (append : ∀ first second, read (first ++ second) = read first ++ read second)
    (closing : ∀ report, read [.log (.passed n.name action report)] = [])
    (s : Controller) (pairs : List (Node × Strike)) :
    read (s.proceedings h p n owner action pairs) =
      read [.call h (.read .completeNodes), .call h (.read .node)] ++
        pairs.flatMap fun q => read (s.minutes h p n owner action q.1 q.2) := by
  have nil : read [] = [] := List.self_eq_append_left.1 (append [] [])
  have body : read (pairs.flatMap fun q => s.minutes h p n owner action q.1 q.2) =
      pairs.flatMap fun q => read (s.minutes h p n owner action q.1 q.2) := by
    induction pairs with
    | nil => exact nil
    | cons q rest ih => rw [List.flatMap_cons, append, ih, List.flatMap_cons]
  unfold proceedings
  rw [append, append, closing, body]
  exact List.append_nil _

theorem submitted_proceedings (s : Controller) (pairs : List (Node × Strike)) :
    submitted h (s.proceedings h p n owner action pairs) =
      pairs.filterMap fun q => (s.requestOf p n owner action q.1 q.2).toOption := by
  have opening := (reads_are_quiet h [.completeNodes, .node]).1
  rw [List.map_cons, List.map_singleton] at opening
  rw [read_proceedings (submitted_append h) fun _ => rfl, opening, List.nil_append]
  simp only [submitted_minutes]
  exact (List.filterMap_eq_flatMap_toList ..).symm

theorem length_accepted_proceedings (s : Controller) (pairs : List (Node × Strike)) :
    (accepted h (s.proceedings h p n owner action pairs)).length =
      pairs.countP fun q => s.fate p n owner action q.1 q.2 = .ok () := by
  have opening := (reads_are_quiet h [.completeNodes, .node]).2.1
  rw [List.map_cons, List.map_singleton] at opening
  rw [read_proceedings (accepted_append h) fun _ => rfl, opening, List.nil_append]
  induction pairs with
  | nil => rfl
  | cons q rest ih =>
    rw [List.flatMap_cons, List.length_append, length_accepted_minutes, ih, List.countP_cons,
      Nat.add_comm]
    simp only [decide_eq_true_eq]

theorem complaints_proceedings (s : Controller) (pairs : List (Node × Strike)) :
    complaints (s.proceedings h p n owner action pairs) =
      pairs.filterMap fun q => complaint? n q.1 action (s.fate p n owner action q.1 q.2) := by
  have opening := (reads_are_quiet h [.completeNodes, .node]).2.2
  rw [List.map_cons, List.map_singleton] at opening
  rw [read_proceedings complaints_append fun _ => rfl, opening, List.nil_append]
  simp only [complaints_minutes]
  exact (List.filterMap_eq_flatMap_toList ..).symm

theorem device_of_synthesize {r : Resolver} {rule : Rule}
    (built : synthesize r n x owner = .ok rule) : rule.device = x.bridge := by
  unfold synthesize at built
  cases treated : treatment r n x owner with
  | error e =>
    rw [treated] at built
    cases built
  | ok treatment =>
    rw [treated] at built
    cases built
    rfl

theorem synthesize_congr_port {r r' : Resolver} (same : r'.port n x = r.port n x) :
    synthesize r' n x owner = synthesize r n x owner := by
  unfold synthesize treatment
  rw [same]

/-- Of all there is to find ports and to refuse, only what concerns the pair makes a difference to
it. -/
theorem fate_congr {s' : Controller} (port : s'.resolver.port n x = s.resolver.port n x)
    (refusal : s'.refusals.lookup x.bridge = s.refusals.lookup x.bridge)
    (logs : s'.logsRequests = s.logsRequests) (k : Strike) :
    s'.fate p n owner action x k = s.fate p n owner action x k ∧
      s'.minutes h p n owner action x k = s.minutes h p n owner action x k := by
  have request : s'.requestOf p n owner action x k = s.requestOf p n owner action x k := by
    unfold requestOf
    rw [synthesize_congr_port port]
  have installed : ∀ r, s.requestOf p n owner action x k = .ok r →
      s'.verdict r = s.verdict r ∧ s'.answer h r = s.answer h r := by
    intro r made
    have device : r.rule.device = x.bridge := by
      unfold requestOf at made
      split at made
      · cases made
      · split at made
        · cases made
        · next rule built =>
          cases made
          exact device_of_synthesize built
    unfold verdict answer
    rw [device, refusal, logs]
    exact ⟨rfl, rfl⟩
  unfold minutes handing fate
  rw [request]
  cases made : s.requestOf p n owner action x k with
  | error fault => exact ⟨rfl, rfl⟩
  | ok r =>
    obtain ⟨verdict, answer⟩ := installed r made
    dsimp only
    rw [verdict, answer]
    exact ⟨rfl, rfl⟩

theorem requestOf_eq_ok_iff {r : Request} :
    s.requestOf p n owner action x k = .ok r ↔
      (¬x.Owns n → k.resolver = none) ∧
        ∃ rule, synthesize s.resolver n x owner = .ok rule ∧ r = ⟨rule, p, action⟩ := by
  have through : (if x.Owns n then none else k.resolver) = none ↔
      (¬x.Owns n → k.resolver = none) := by
    split
    · next owns => exact ⟨fun _ foreign => absurd owns foreign, fun _ => rfl⟩
    · next foreign => exact ⟨fun unstruck _ => unstruck, fun unstruck => unstruck foreign⟩
  unfold requestOf
  cases asked : if x.Owns n then none else k.resolver with
  | some crash =>
    refine ⟨nofun, fun ⟨unstruck, _⟩ => ?_⟩
    rw [asked] at through
    cases through.2 unstruck
  | none =>
    have unstruck := through.1 asked
    cases synthesize s.resolver n x owner with
    | error e => exact ⟨nofun, fun ⟨_, _, built, _⟩ => by cases built⟩
    | ok rule =>
      constructor
      · rintro ⟨⟩
        exact ⟨unstruck, rule, rfl, rfl⟩
      · rintro ⟨-, _, ⟨⟩, rfl⟩
        rfl

theorem countDowns_of_readingCrash (reads : readingCrash crashes = none) :
    ∃ listing finding, ArmedCrash.countDown .completeNodes crashes = (listing, none) ∧
      ArmedCrash.countDown .node listing = (finding, none) ∧ finding.length = crashes.length := by
  have kept := ArmedCrash.length_add_countDown .completeNodes crashes
  unfold readingCrash at reads
  rcases listed : ArmedCrash.countDown .completeNodes crashes with ⟨listing, _ | crash⟩
  · rw [listed] at reads kept
    have kept' := ArmedCrash.length_add_countDown .node listing
    refine ⟨listing, (ArmedCrash.countDown .node listing).1, rfl, Prod.ext rfl reads, ?_⟩
    dsimp only at reads
    rw [reads] at kept'
    exact kept'.trans kept
  · rw [listed] at reads
    cases reads

/-- The work of a handler makes no calls for another one. -/
theorem calls_pass_of_ne (s : Controller) {j : Nat} (other : j ≠ h) :
    calls j (s.pass h p n action).1.journal = calls j s.journal := by
  obtain ⟨entries, _, journal, -, -, others, -⟩ := (pass_working s h p n action).doings
  rw [journal, calls_append, calls_eq_doings j entries, others j other]
  exact List.append_nil _

theorem sorted_completeNodes (v : Inventory) :
    v.completeNodes.Pairwise (·.hostname < ·.hostname) :=
  v.nodes.sorted.filter _

/-- A pass answers for every pair, and each pair fares on its own. If reading the nodes or the owner
breaks off, the pass does, with nothing submitted. Otherwise it ends, whatever else breaks off, and
every complete node is counted as applied or as failed: applied if the installer has accepted its
request, failed if there is one complaint about it in the log. What is submitted is the requests of
the nodes whose rules can be built, by hostname, and nothing else. The resolver and the installer
can break off at any choice of pairs. What becomes of a pair depends on what strikes it, on its own
port and on the refusal of its own device. -/
theorem pairs_fare_on_their_own (s : Controller) (h : Nat) (p : Placement) (n : Network)
    (action : Action) (unhooked : s.hooks = []) :
    let nodes := s.inventory.completeNodes
    let owner := s.inventory.node? n.name
    let request (q : Node × Strike) := s.requestOf p n owner action q.1 q.2
    let fate (q : Node × Strike) := s.fate p n owner action q.1 q.2
    let minutes (q : Node × Strike) := s.minutes h p n owner action q.1 q.2
    let outcome (pairs : List (Node × Strike)) (left : List ArmedCrash) :=
      (s.advance left (s.proceedings h p n owner action pairs),
        Except.ok (s.tally p n owner action pairs))
    nodes.Pairwise (·.hostname < ·.hostname) ∧
    (∀ crash, readingCrash s.crashes = some crash → ∃ left entries,
      s.pass h p n action = (s.advance left entries, .error crash) ∧ submitted h entries = []) ∧
    (readingCrash s.crashes = none → ∃ pairs left, pairs.map Prod.fst = nodes ∧
      s.pass h p n action = outcome pairs left ∧
      left.length + pairs.countP (fun q => brokeOff (fate q)) = s.crashes.length) ∧
    (∀ pairs left, pairs.map Prod.fst = nodes →
      ∃ crashes, { s with crashes }.pass h p n action = outcome pairs left) ∧
    (∀ pairs, pairs.map Prod.fst = nodes →
      let report := s.tally p n owner action pairs
      let entries := s.proceedings h p n owner action pairs
      report.applied + report.failed = nodes.length ∧
      report.applied = (accepted h entries).length ∧
      submitted h entries = pairs.filterMap (fun q => (request q).toOption) ∧
      complaints entries = pairs.filterMap fun q => complaint? n q.1 action (fate q)) ∧
    (∀ j ≠ h, calls j (s.pass h p n action).1.journal = calls j s.journal) ∧
    (∀ q r, request q = .ok r ↔ (¬q.1.Owns n → q.2.resolver = none) ∧
      ∃ rule, synthesize s.resolver n q.1 owner = .ok rule ∧ r = ⟨rule, p, action⟩) ∧
    (∀ q, (fate q = .ok () ∧ (accepted h (minutes q)).length = 1 ∧ complaints (minutes q) = []) ∨
      ∃ fault, fate q = .error fault ∧ accepted h (minutes q) = [] ∧
        complaints (minutes q) = [fault.notice n q.1 action]) ∧
    ∀ (s' : Controller) (q : Node × Strike),
      s'.resolver.port n q.1 = s.resolver.port n q.1 →
      s'.refusals.lookup q.1.bridge = s.refusals.lookup q.1.bridge →
      s'.logsRequests = s.logsRequests →
      s'.fate p n owner action q.1 q.2 = fate q ∧
        s'.minutes h p n owner action q.1 q.2 = minutes q := by
  intro nodes owner request fate minutes outcome
  refine ⟨sorted_completeNodes _, ?_, ?_, ?_, ?_, fun j other => calls_pass_of_ne s other,
    fun q r => requestOf_eq_ok_iff, ?_, fun s' q port refusal logs =>
      fate_congr port refusal logs q.2⟩
  · intro crash breaks
    have broken : ∃ left, ∃ reads : List Seam, s.pass h p n action =
        (s.advance left (reads.map fun seam => .call h (.read seam)), .error crash) :=
      pass_of_readingCrash breaks
    obtain ⟨left, reads, broken⟩ := broken
    exact ⟨left, _, broken, (reads_are_quiet h reads).1⟩
  · intro reads
    obtain ⟨listing, finding, listed, found, same⟩ := countDowns_of_readingCrash reads
    obtain ⟨pairs, left, all, strikes⟩ := exists_strikesEach_left nodes finding
    exact ⟨pairs, left, all, pass_of_strikes unhooked listed found strikes all,
      strikes.length.trans same⟩
  · intro pairs left all
    obtain ⟨finding, strikes⟩ := exists_strikesEach pairs left
    obtain ⟨listing, found⟩ := ArmedCrash.exists_countDown .node finding none
    obtain ⟨crashes, listed⟩ := ArmedCrash.exists_countDown .completeNodes listing none
    exact ⟨crashes, pass_of_strikes unhooked listed found strikes all⟩
  · intro pairs all report entries
    refine ⟨?_, ?_, submitted_proceedings s pairs, complaints_proceedings s pairs⟩
    · rw [← all, List.length_map]
      exact total_tally s pairs
    · exact (applied_tally s pairs).trans (length_accepted_proceedings s pairs).symm
  · intro q
    have one := s.length_accepted_minutes h p n owner action q.1 q.2
    have told := s.complaints_minutes h p n owner action q.1 q.2
    rcases ended : fate q with fault | ⟨⟨⟩⟩
    · rw [show s.fate p n owner action q.1 q.2 = .error fault from ended] at one told
      exact .inr ⟨fault, rfl, List.length_eq_zero_iff.1 one, told⟩
    · rw [show s.fate p n owner action q.1 q.2 = .ok () from ended] at one told
      exact .inl ⟨rfl, one, told⟩

/-- One pair for each fate: accepted, refused, not built, and broken off at either call. -/
theorem pairs_fare_on_their_own_each_way :
    let n : Network := ⟨"a", "blue", .vxlan, default, none⟩
    let ports : TunnelPorts := ⟨some ⟨1⟩, none, none⟩
    let node (hostname : String) (ports : TunnelPorts) : Node :=
      ⟨hostname, ⟨hostname⟩, default, default, .complete, ports⟩
    let nodes := [node "a" .none, node "b" ports, node "c" .none, node "d" ports, node "e" ports]
    let inventory := nodes.foldl (fun v x => v.update (.upsertNode x)) Inventory.empty
    let s := { initial (.solitary (.ofMember ⟨"a"⟩)) with
      inventory, refusals := [(⟨"b"⟩, "full")] }
    s.hooks = [] ∧ ∃ crashes, ({ s with crashes }.pass 0 .default n .install).2 = .ok ⟨1, 4⟩ ∧
      (submitted 0 ({ s with crashes }.pass 0 .default n .install).1.journal).map
        (·.rule.device) = [⟨"a"⟩, ⟨"b"⟩, ⟨"e"⟩] := by
  intro n ports node nodes inventory s
  let pairs : List (Node × Strike) := [(node "a" .none, ⟨none, none⟩),
    (node "b" ports, ⟨none, none⟩), (node "c" .none, ⟨none, none⟩),
    (node "d" ports, ⟨some .wordless, none⟩), (node "e" ports, ⟨none, some .wordless⟩)]
  obtain ⟨-, -, -, chosen, -⟩ := pairs_fare_on_their_own s 0 .default n .install rfl
  obtain ⟨crashes, passed⟩ := chosen pairs [] (by decide)
  refine ⟨rfl, crashes, ?_⟩
  rw [passed]
  decide

end Controller
end GatewayRules
