/-! Text cut at every occurrence of a character, and put together again. -/
namespace GatewayRules.Text

def fields (sep : Char) : List Char → List (List Char)
  | [] => [[]]
  | c :: rest =>
    if c = sep then [] :: fields sep rest
    else match fields sep rest with
      | [] => [[c]]
      | first :: others => (c :: first) :: others

def join (sep : List Char) : List (List Char) → List Char
  | [] => []
  | [part] => part
  | part :: others => part ++ sep ++ join sep others

theorem fields_ne_nil (sep : Char) (s : List Char) : fields sep s ≠ [] := by
  cases s with
  | nil => simp [fields]
  | cons c rest =>
    by_cases h : c = sep
    · simp [fields, h]
    · simp only [fields, h, if_false]
      split <;> simp

theorem fields_of_not_mem {sep : Char} {s : List Char} (h : sep ∉ s) : fields sep s = [s] := by
  induction s with
  | nil => rfl
  | cons c rest ih =>
    have ne : c ≠ sep := fun e => h (by simp [e])
    have rest_free : sep ∉ rest := fun m => h (by simp [m])
    simp [fields, ne, ih rest_free]

theorem fields_append_sep {sep : Char} {part : List Char} (h : sep ∉ part) (s : List Char) :
    fields sep (part ++ sep :: s) = part :: fields sep s := by
  induction part with
  | nil => simp [fields]
  | cons c rest ih =>
    have ne : c ≠ sep := fun e => h (by simp [e])
    have rest_free : sep ∉ rest := fun m => h (by simp [m])
    simp [fields, ne, ih rest_free]

theorem fields_join {sep : Char} {parts : List (List Char)} (nonempty : parts ≠ [])
    (free : ∀ part ∈ parts, sep ∉ part) : fields sep (join [sep] parts) = parts := by
  induction parts with
  | nil => exact absurd rfl nonempty
  | cons part others ih =>
    cases others with
    | nil => exact fields_of_not_mem (free part (by simp))
    | cons next more =>
      have h := ih (by simp) fun p m => free p (by simp [m])
      simp only [join, List.append_assoc, List.singleton_append] at h ⊢
      rw [fields_append_sep (free part (by simp)), h]

/-- Parts that are not empty and do not have the separator are known by what they are joined to. -/
theorem join_inj {sep : Char} {parts parts' : List (List Char)} (free : ∀ part ∈ parts, sep ∉ part)
    (free' : ∀ part ∈ parts', sep ∉ part) (filled : [] ∉ parts) (filled' : [] ∉ parts') :
    join [sep] parts = join [sep] parts' ↔ parts = parts' := by
  have empty {parts : List (List Char)} (free : ∀ part ∈ parts, sep ∉ part)
      (filled : [] ∉ parts) (nothing : join [sep] parts = []) : parts = [] := by
    cases parts with
    | nil => rfl
    | cons part others =>
      have cut := fields_join (List.cons_ne_nil part others) free
      rw [nothing] at cut
      have single : [] ∈ part :: others := cut ▸ List.mem_singleton.2 rfl
      exact absurd single filled
  constructor
  · intro same
    by_cases left : parts = []
    · subst left
      exact (empty free' filled' same.symm).symm
    · by_cases right : parts' = []
      · subst right
        exact empty free filled same
      · rw [← fields_join left free, ← fields_join right free', same]
  · rintro rfl
    rfl

theorem join_fields (sep : Char) (s : List Char) : join [sep] (fields sep s) = s := by
  induction s with
  | nil => rfl
  | cons c rest ih =>
    by_cases h : c = sep
    · subst h
      cases e : fields c rest with
      | nil => exact absurd e (fields_ne_nil c rest)
      | cons first others => rw [e] at ih; simp [fields, e, join, ih]
    · cases e : fields sep rest with
      | nil => exact absurd e (fields_ne_nil sep rest)
      | cons first others =>
        rw [e] at ih
        cases others with
        | nil => simpa [fields, h, e, join] using ih
        | cons next more => simpa [fields, h, e, join] using ih

theorem join_cons_cons (sep first next : List Char) (more : List (List Char)) :
    join sep (first :: next :: more) = first ++ sep ++ join sep (next :: more) := rfl

theorem mem_join_of_mem {sep c : Char} {part : List Char} {parts : List (List Char)}
    (listed : part ∈ parts) (inside : c ∈ part) : c ∈ join [sep] parts := by
  induction parts with
  | nil => cases listed
  | cons first others ih =>
    cases others with
    | nil =>
      obtain rfl := List.mem_singleton.1 listed
      exact inside
    | cons next more =>
      rw [join_cons_cons]
      rcases List.mem_cons.1 listed with rfl | later
      · exact List.mem_append_left _ (List.mem_append_left _ inside)
      · exact List.mem_append_right _ (ih later)

theorem eq_or_mem_of_mem_join {sep c : Char} {parts : List (List Char)}
    (member : c ∈ join [sep] parts) : c = sep ∨ ∃ part ∈ parts, c ∈ part := by
  induction parts with
  | nil => cases member
  | cons first others ih =>
    cases others with
    | nil => exact .inr ⟨first, List.mem_cons_self, member⟩
    | cons next more =>
      rw [join_cons_cons] at member
      rcases List.mem_append.1 member with front | later
      · rcases List.mem_append.1 front with inside | between
        · exact .inr ⟨first, List.mem_cons_self, inside⟩
        · exact .inl (List.mem_singleton.1 between)
      · rcases ih later with same | ⟨part, listed, inside⟩
        · exact .inl same
        · exact .inr ⟨part, List.mem_cons_of_mem _ listed, inside⟩

end GatewayRules.Text
