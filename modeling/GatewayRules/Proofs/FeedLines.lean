import GatewayRules.Controller.Feed

/-!
The lines of a feed are the texts that it was joined from, if these have no control characters.
-/
namespace GatewayRules

namespace Text

theorem octet_of_mem_encode {c : Char} {b : UInt8} (member : b ∈ String.utf8EncodeChar c) :
    b.toNat = c.toNat ∨ 0x80 ≤ b.toNat := by
  have wrap (n : Nat) : (UInt8.ofNat n).toNat = n % 256 := UInt8.toNat_ofNat'
  unfold String.utf8EncodeChar at member
  extract_lets v at member
  split at member
  · refine .inl ?_
    rw [List.mem_singleton.1 member, wrap]
    change v % 256 = v
    omega
  · refine .inr ?_
    split at member
    · simp only [List.mem_cons, List.not_mem_nil, or_false] at member
      rcases member with rfl | rfl <;> rw [wrap] <;> omega
    split at member
    · simp only [List.mem_cons, List.not_mem_nil, or_false] at member
      rcases member with rfl | rfl | rfl <;> rw [wrap] <;> omega
    · simp only [List.mem_cons, List.not_mem_nil, or_false] at member
      rcases member with rfl | rfl | rfl | rfl <;> rw [wrap] <;> omega

theorem le_octet_of_mem {s : List Char} (printing : ∀ c ∈ s, 0x20 ≤ c.toNat) {b : UInt8}
    (member : b ∈ toUtf8 s) : 0x20 ≤ b.toNat := by
  obtain ⟨c, mem, encoded⟩ := List.mem_flatMap.1 member
  have low := printing c mem
  rcases octet_of_mem_encode encoded with same | high
  · omega
  · omega

theorem toUtf8_ne_nil {s : List Char} (some : s ≠ []) : toUtf8 s ≠ [] := by
  cases s with
  | nil => exact absurd rfl some
  | cons c s => simp [toUtf8, String.utf8EncodeChar_ne_nil]

theorem trim_of_ends {first last : Char} (opens : isBlank first = false)
    (closes : isBlank last = false) (inner : List Char) :
    trim (first :: inner ++ [last]) = first :: inner ++ [last] := by
  simp [trim, opens, closes]

end Text

namespace Feed
open Text

variable {line : List UInt8}

theorem lines_append (whole : lineFeed ∉ line) (rest : List UInt8) :
    lines (line ++ lineFeed :: rest) = (line ++ [lineFeed]) :: lines rest := by
  induction line with
  | nil => simp [lines]
  | cons b line ih =>
    rw [List.mem_cons, not_or] at whole
    simp [lines, ih whole.2, Ne.symm whole.1]

theorem lines_of_not_mem (some : line ≠ []) (whole : lineFeed ∉ line) : lines line = [line] := by
  induction line with
  | nil => exact absurd rfl some
  | cons b line ih =>
    rw [List.mem_cons, not_or] at whole
    cases line with
    | nil => simp [lines, Ne.symm whole.1]
    | cons c line =>
      have later := ih (List.cons_ne_nil c line) whole.2
      rw [lines, if_neg (Ne.symm whole.1), later]

theorem content_of_not_mem (whole : lineFeed ∉ line) : content line = line := by
  unfold content
  split
  · next empty => rw [List.reverse_eq_nil_iff.1 empty]
  · next last before reversed =>
    rw [if_pos]
    rintro rfl
    exact whole (List.mem_reverse.1 (reversed ▸ List.mem_cons_self))

theorem content_ended (last : line.getLast? ≠ some carriageReturn) :
    content (line ++ [lineFeed]) = line := by
  rw [← List.head?_reverse] at last
  unfold content
  rw [List.reverse_append, List.reverse_singleton, List.singleton_append]
  simp only [ne_eq, not_true, if_false, if_neg last, List.reverse_reverse]

/-- Joined texts without control characters are the contents of the lines. -/
theorem content_lines {texts : List (List Char)}
    (printed : ∀ text ∈ texts, text ≠ [] ∧ ∀ c ∈ text, 0x20 ≤ c.toNat) :
    (lines (toUtf8 (join ['\n'] texts))).map content = texts.map toUtf8 := by
  have printing {text : List Char} (member : text ∈ texts) (b : UInt8) (low : b.toNat < 0x20) :
      b ∉ toUtf8 text := fun mem => by
    have high := le_octet_of_mem (printed text member).2 mem
    omega
  induction texts with
  | nil => rfl
  | cons text others ih =>
    have whole : lineFeed ∉ toUtf8 text := printing List.mem_cons_self _ (by decide)
    have plain : carriageReturn ∉ toUtf8 text := printing List.mem_cons_self _ (by decide)
    have some := toUtf8_ne_nil (printed text List.mem_cons_self).1
    cases others with
    | nil =>
      -- The last text has no line end after it.
      simp [join, lines_of_not_mem some whole, content_of_not_mem whole]
    | cons next more =>
      have later := ih (fun t member => printed t (List.mem_cons_of_mem _ member))
        fun member => printing (List.mem_cons_of_mem _ member)
      have feed : toUtf8 ['\n'] = [lineFeed] := by decide
      have joined : toUtf8 (join ['\n'] (text :: next :: more)) =
          toUtf8 text ++ lineFeed :: toUtf8 (join ['\n'] (next :: more)) := by
        rw [join, toUtf8_append, toUtf8_append, feed, List.append_assoc]
        · rfl
        · exact nofun
      have last : (toUtf8 text).getLast? ≠ .some carriageReturn := fun same =>
        plain (List.mem_of_getLast? same)
      rw [joined, lines_append whole, List.map_cons, content_ended last, later]
      rfl

end Feed
end GatewayRules
