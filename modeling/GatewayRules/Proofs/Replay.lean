import GatewayRules.Flow
import Mathlib.Data.Finset.Basic

/-! What is in place after requests have been carried out: the last request about a key decides. -/
namespace GatewayRules

/-- What a device tells rules by: everything but the application. -/
def Request.key (r : Request) : Rule × UInt32 × UInt32 :=
  (r.rule, r.placement.priority, r.placement.table)

def replay (requests : List Request) : Finset (Rule × UInt32 × UInt32) :=
  requests.foldl (fun keys r =>
    match r.action with
    | .install => insert r.key keys
    | .remove => keys.erase r.key) ∅

theorem replay_append_install (requests : List Request) (rule : Rule) (p : Placement) :
    replay (requests ++ [⟨rule, p, .install⟩]) =
      insert (rule, p.priority, p.table) (replay requests) := by
  simp [replay, Request.key]

theorem replay_append_remove (requests : List Request) (rule : Rule) (p : Placement) :
    replay (requests ++ [⟨rule, p, .remove⟩]) =
      (replay requests).erase (rule, p.priority, p.table) := by
  simp [replay, Request.key]

section
variable {key : Rule × UInt32 × UInt32} {requests more : List Request}

theorem mem_replay_concat {r : Request} : key ∈ replay (requests ++ [r]) ↔
    (r.key = key ∧ r.action = .install) ∨ (r.key ≠ key ∧ key ∈ replay requests) := by
  obtain ⟨rule, p, action⟩ := r
  by_cases same : Request.key ⟨rule, p, action⟩ = key
  · subst key
    cases action with
    | install => simp [replay_append_install, Request.key]
    | remove => simp [replay_append_remove, Request.key]
  · have other : key ≠ (rule, p.priority, p.table) := fun equal => same equal.symm
    cases action with
    | install => simp [replay_append_install, same, other]
    | remove => simp [replay_append_remove, same, other]

/-- Every key in place has been installed. -/
theorem of_mem_replay (inPlace : key ∈ replay requests) : ∃ r ∈ requests, r.key = key := by
  induction requests using List.reverseRecOn with
  | nil => simp [replay] at inPlace
  | append_singleton rest r ih =>
    rcases mem_replay_concat.1 inPlace with ⟨same, -⟩ | ⟨-, old⟩
    · exact ⟨r, List.mem_append_right _ List.mem_cons_self, same⟩
    · obtain ⟨r', member, same⟩ := ih old
      exact ⟨r', List.mem_append_left _ member, same⟩

theorem mem_replay_append_installs (installs : ∀ r ∈ more, r.action = .install) :
    key ∈ replay (requests ++ more) ↔ key ∈ replay requests ∨ ∃ r ∈ more, r.key = key := by
  induction more using List.reverseRecOn with
  | nil => simp
  | append_singleton rest r ih =>
    obtain ⟨earlier, last⟩ := List.forall_mem_append.1 installs
    have install : r.action = .install := last r List.mem_cons_self
    rw [← List.append_assoc, mem_replay_concat, ih earlier]
    by_cases same : r.key = key <;> simp [same, install]

theorem mem_replay_append_removes (removes : ∀ r ∈ more, r.action = .remove) :
    key ∈ replay (requests ++ more) ↔ key ∈ replay requests ∧ ∀ r ∈ more, r.key ≠ key := by
  induction more using List.reverseRecOn with
  | nil => simp
  | append_singleton rest r ih =>
    obtain ⟨earlier, last⟩ := List.forall_mem_append.1 removes
    have remove : r.action = .remove := last r List.mem_cons_self
    rw [← List.append_assoc, mem_replay_concat, ih earlier, List.forall_mem_append,
      List.forall_mem_singleton]
    simp only [remove, reduceCtorEq, and_false, false_or]
    exact ⟨fun ⟨other, old, rest⟩ => ⟨old, rest, other⟩, fun ⟨old, rest, other⟩ => ⟨other, old, rest⟩⟩

/-- Requests about other keys do not matter. -/
theorem mem_replay_filter (key : Rule × UInt32 × UInt32) (requests : List Request) :
    key ∈ replay (requests.filter (·.key = key)) ↔ key ∈ replay requests := by
  induction requests using List.reverseRecOn with
  | nil => rfl
  | append_singleton rest r ih =>
    rw [List.filter_append, mem_replay_concat]
    by_cases same : r.key = key
    · rw [List.filter_cons_of_pos (by simpa using same), List.filter_nil, mem_replay_concat]
      simp [same]
    · rw [List.filter_cons_of_neg (by simpa using same), List.filter_nil, List.append_nil, ih]
      simp [same]

theorem mem_replay_congr {key : Rule × UInt32 × UInt32} {first second : List Request}
    (same : first.filter (·.key = key) = second.filter (·.key = key)) :
    key ∈ replay first ↔ key ∈ replay second := by
  rw [← mem_replay_filter key first, same, mem_replay_filter]

end

end GatewayRules
