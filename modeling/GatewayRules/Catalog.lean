/-!
Records filed under a text key of their own, in increasing order of the key. Order on texts is by
code point, which is the order of their UTF-8 octets.
-/
namespace GatewayRules

/-- Records of the type carry the text under which they are filed. -/
class Keyed (α : Type) where
  key : α → String

export Keyed (key)

/-- A finite set of records, at most one to a key. -/
structure Catalog (α : Type) [Keyed α] where
  records : List α
  sorted : records.Pairwise (key · < key ·)

namespace Catalog

variable {α : Type} [Keyed α]

def insertRecord (r : α) : List α → List α
  | [] => [r]
  | x :: rest =>
    if key r < key x then r :: x :: rest
    else if key x < key r then x :: insertRecord r rest
    else r :: rest

theorem mem_insertRecord {r y : α} {records : List α} (h : y ∈ insertRecord r records) :
    y = r ∨ y ∈ records := by
  induction records with
  | nil => simpa [insertRecord] using h
  | cons x rest ih =>
    simp only [insertRecord] at h
    split at h
    · simpa using h
    split at h
    · rcases List.mem_cons.1 h with h | h
      · simp [h]
      · rcases ih h with h | h <;> simp [h]
    · rcases List.mem_cons.1 h with h | h <;> simp [h]

private theorem key_eq_of_not_lt {x y : α} (h₁ : ¬key x < key y) (h₂ : ¬key y < key x) :
    key x = key y :=
  String.le_antisymm (String.not_lt.1 h₂) (String.not_lt.1 h₁)

theorem sorted_insertRecord (r : α) {records : List α}
    (sorted : records.Pairwise (key · < key ·)) :
    (insertRecord r records).Pairwise (key · < key ·) := by
  induction records with
  | nil => simp [insertRecord]
  | cons x rest ih =>
    obtain ⟨head, tail⟩ := List.pairwise_cons.1 sorted
    simp only [insertRecord]
    split
    · next lt =>
      refine List.pairwise_cons.2 ⟨fun y m => ?_, sorted⟩
      rcases List.mem_cons.1 m with rfl | m
      · exact lt
      · exact String.lt_trans lt (head y m)
    split
    · next lt =>
      refine List.pairwise_cons.2 ⟨fun y m => ?_, ih tail⟩
      rcases mem_insertRecord m with rfl | m
      · exact lt
      · exact head y m
    · next h₁ h₂ =>
      refine List.pairwise_cons.2 ⟨fun y m => ?_, tail⟩
      rw [key_eq_of_not_lt h₁ h₂]
      exact head y m

def empty : Catalog α := ⟨[], .nil⟩

instance : EmptyCollection (Catalog α) := ⟨empty⟩

instance : Inhabited (Catalog α) := ⟨empty⟩

/-- Adds a record, or replaces the one with its key. -/
def insert (c : Catalog α) (r : α) : Catalog α :=
  ⟨insertRecord r c.records, sorted_insertRecord r c.sorted⟩

def erase (c : Catalog α) (k : String) : Catalog α :=
  ⟨c.records.filter (key · ≠ k), c.sorted.filter _⟩

def find? (c : Catalog α) (k : String) : Option α := c.records.find? (key · = k)

def toList (c : Catalog α) : List α := c.records

instance : Membership α (Catalog α) := ⟨fun c r => r ∈ c.records⟩

theorem key_of_find? {c : Catalog α} {k : String} {r : α} (h : c.find? k = some r) :
    key r = k := by
  simpa using List.find?_some h

theorem mem_of_find? {c : Catalog α} {k : String} {r : α} (h : c.find? k = some r) : r ∈ c :=
  List.mem_of_find?_eq_some h

theorem mem_toList {c : Catalog α} {r : α} : r ∈ c.toList ↔ r ∈ c := Iff.rfl

theorem eq_of_key {c : Catalog α} {r x : α} (hr : r ∈ c) (hx : x ∈ c) (same : key r = key x) :
    r = x := by
  have apart {r x : α} (lt : key r < key x) (same : key r = key x) : False :=
    String.lt_irrefl (key x) (same ▸ lt)
  obtain ⟨records, sorted⟩ := c
  change r ∈ records at hr
  change x ∈ records at hx
  induction sorted with
  | nil => cases hr
  | cons head _ ih =>
    rcases List.mem_cons.1 hr with rfl | inRest <;> rcases List.mem_cons.1 hx with rfl | inRest'
    · rfl
    · exact (apart (head x inRest') same).elim
    · exact (apart (head r inRest) same.symm).elim
    · exact ih inRest inRest'

theorem find?_eq_some_iff {c : Catalog α} {k : String} {r : α} :
    c.find? k = some r ↔ r ∈ c ∧ key r = k := by
  refine ⟨fun found => ⟨mem_of_find? found, key_of_find? found⟩, fun ⟨stored, filed⟩ => ?_⟩
  cases found : c.find? k with
  | none => exact absurd filed (by simpa using List.find?_eq_none.1 found r stored)
  | some x => rw [eq_of_key (mem_of_find? found) stored ((key_of_find? found).trans filed.symm)]

theorem find?_eq_none_iff {c : Catalog α} {k : String} :
    c.find? k = none ↔ ∀ r ∈ c, key r ≠ k := by
  unfold find?
  rw [List.find?_eq_none]
  simp [Membership.mem]

theorem mem_erase {c : Catalog α} {k : String} {r : α} :
    r ∈ c.erase k ↔ r ∈ c ∧ key r ≠ k := by
  change r ∈ c.records.filter (key · ≠ k) ↔ _
  rw [List.mem_filter, decide_eq_true_iff]
  rfl

private theorem mem_insertRecord_iff {r x : α} {records : List α}
    (sorted : records.Pairwise (key · < key ·)) :
    x ∈ insertRecord r records ↔ x = r ∨ (x ∈ records ∧ key x ≠ key r) := by
  have lt_ne {y z : α} (lt : key y < key z) : key z ≠ key y := fun same =>
    String.lt_irrefl (key z) (same ▸ lt)
  induction sorted with
  | nil => simp [insertRecord]
  | @cons y rest head sorted ih =>
    simp only [insertRecord]
    split
    · next lt =>
      have later : x ∈ y :: rest → key x ≠ key r := fun m => by
        rcases List.mem_cons.1 m with rfl | m
        · exact lt_ne lt
        · exact lt_ne (String.lt_trans lt (head x m))
      rw [List.mem_cons]
      exact or_congr_right ⟨fun m => ⟨m, later m⟩, And.left⟩
    split
    · next lt =>
      rw [List.mem_cons, List.mem_cons]
      refine (or_congr_right ih).trans ⟨?_, ?_⟩
      · rintro (rfl | rfl | ⟨m, other⟩)
        · exact .inr ⟨.inl rfl, (lt_ne lt).symm⟩
        · exact .inl rfl
        · exact .inr ⟨.inr m, other⟩
      · rintro (rfl | ⟨rfl | m, other⟩)
        · exact .inr (.inl rfl)
        · exact .inl rfl
        · exact .inr (.inr ⟨m, other⟩)
    · next h₁ h₂ =>
      have same : key r = key y := key_eq_of_not_lt h₁ h₂
      rw [List.mem_cons, List.mem_cons]
      constructor
      · rintro (rfl | m)
        · exact .inl rfl
        · exact .inr ⟨.inr m, same ▸ lt_ne (head x m)⟩
      · rintro (rfl | ⟨rfl | m, other⟩)
        · exact .inl rfl
        · exact absurd same.symm other
        · exact .inr m

theorem mem_insert {c : Catalog α} {r x : α} :
    x ∈ c.insert r ↔ x = r ∨ (x ∈ c ∧ key x ≠ key r) := mem_insertRecord_iff c.sorted

theorem find?_insert_self (c : Catalog α) (r : α) : (c.insert r).find? (key r) = some r :=
  find?_eq_some_iff.2 ⟨mem_insert.2 (.inl rfl), rfl⟩

theorem find?_insert_of_ne (c : Catalog α) {r : α} {k : String} (other : key r ≠ k) :
    (c.insert r).find? k = c.find? k := by
  refine Option.ext fun x => ?_
  rw [find?_eq_some_iff, find?_eq_some_iff, mem_insert]
  constructor
  · rintro ⟨rfl | ⟨stored, -⟩, filed⟩
    · exact absurd filed other
    · exact ⟨stored, filed⟩
  · rintro ⟨stored, filed⟩
    exact ⟨.inr ⟨stored, filed ▸ other.symm⟩, filed⟩

theorem find?_erase_of_ne (c : Catalog α) {j k : String} (other : k ≠ j) :
    (c.erase j).find? k = c.find? k := by
  refine Option.ext fun x => ?_
  rw [find?_eq_some_iff, find?_eq_some_iff, mem_erase]
  constructor
  · rintro ⟨⟨stored, -⟩, filed⟩
    exact ⟨stored, filed⟩
  · rintro ⟨stored, filed⟩
    exact ⟨⟨stored, filed ▸ other⟩, filed⟩

theorem find?_erase_self (c : Catalog α) (k : String) : (c.erase k).find? k = none :=
  find?_eq_none_iff.2 fun _ stored => (mem_erase.1 stored).2

@[ext] theorem ext {c d : Catalog α} (h : c.records = d.records) : c = d := by
  cases c; cases d; cases h; rfl

end Catalog

end GatewayRules
