import GatewayRules.Proofs.UpdateLog

/-!
What a feed of any octets does. It is cut into lines, and the updates on the lines before the first
that is no text are applied one after the other; a line with no update on it does nothing. So two
feeds with a line end between them do what they do one after the other.
-/
namespace GatewayRules
open Text

namespace Text

/-- Octets are decoded if they are those of a text. -/
theorem ofUtf8_eq_ok_iff {bytes : List UInt8} {s : List Char} :
    ofUtf8 bytes = .ok s ↔ bytes = toUtf8 s := by
  constructor
  · intro decoded
    unfold ofUtf8 at decoded
    split at decoded
    · next chars found =>
      have same : chars.toList = s := Except.ok.inj decoded
      have some : bytes.toByteArray.utf8Decode?.isSome = true := by rw [found]; rfl
      have encoded := ByteArray.utf8Encode_get_utf8Decode? (b := bytes.toByteArray) (h := some)
      simp only [found, Option.get_some, same] at encoded
      exact (List.toByteArray_inj.1 encoded).symm
    · cases decoded
  · rintro rfl
    exact ofUtf8_toUtf8 s

theorem mem_of_octet {s : List Char} {c : Char} {b : UInt8} (member : b ∈ toUtf8 s)
    (same : b.toNat = c.toNat) (ascii : b.toNat < 0x80) : c ∈ s := by
  obtain ⟨d, mem, encoded⟩ := List.mem_flatMap.1 member
  have own : b.toNat = d.toNat := by
    rcases octet_of_mem_encode encoded with own | high
    · exact own
    · omega
  have one : c = d := Char.toNat_inj.1 (same.symm.trans own)
  rwa [one]

theorem trim_concat {c : Char} (blank : isBlank c = true) (s : List Char) :
    trim (s ++ [c]) = trim s := by
  unfold trim
  rw [List.dropWhile_append]
  split
  · next empty =>
    rw [List.isEmpty_iff.1 empty]
    simp [blank]
  · simp [blank]

end Text

namespace Feed

/-- Octets in lines. A line ends in a line feed, with or without a carriage return before it, or with
the octets. -/
inductive Splits : List UInt8 → List (List UInt8) → Prop where
  | nil : Splits [] []
  | last {line : List UInt8} : line ≠ [] → lineFeed ∉ line → Splits line [line]
  | fed {line rest : List UInt8} {lines : List (List UInt8)} :
    lineFeed ∉ line → line.getLast? ≠ some carriageReturn → Splits rest lines →
      Splits (line ++ lineFeed :: rest) (line :: lines)
  | returned {line rest : List UInt8} {lines : List (List UInt8)} :
    lineFeed ∉ line → Splits rest lines →
      Splits (line ++ carriageReturn :: lineFeed :: rest) (line :: lines)

theorem content_returned (line : List UInt8) :
    content (line ++ [carriageReturn] ++ [lineFeed]) = line := by
  simp [content]

theorem content_of_splits {bytes : List UInt8} {ls : List (List UInt8)} (splits : Splits bytes ls) :
    (lines bytes).map content = ls := by
  induction splits with
  | nil => rfl
  | @last line some whole =>
    rw [lines_of_not_mem some whole, List.map_singleton, content_of_not_mem whole]
  | fed whole last _ ih => rw [lines_append whole, List.map_cons, content_ended last, ih]
  | @returned line rest lines whole _ ih =>
    have ended : lineFeed ∉ line ++ [carriageReturn] := by
      rw [List.mem_append, not_or]
      exact ⟨whole, by decide⟩
    have split := lines_append ended rest
    rw [List.append_assoc, List.singleton_append] at split
    rw [split, List.map_cons, content_returned, ih]

theorem splits_lines (bytes : List UInt8) : Splits bytes ((lines bytes).map content) := by
  induction size : bytes.length using Nat.strongRecOn generalizing bytes with
  | ind n ih =>
    by_cases fed : lineFeed ∈ bytes
    · obtain ⟨line, rest, rfl, whole⟩ := List.eq_append_cons_of_mem fed
      rw [List.length_append, List.length_cons] at size
      have later : Splits rest ((lines rest).map content) := ih rest.length (by omega) rest rfl
      rw [lines_append whole, List.map_cons]
      by_cases last : line.getLast? = some carriageReturn
      · obtain ⟨before, rfl⟩ := List.getLast?_eq_some_iff.1 last
        rw [content_returned, List.append_assoc, List.singleton_append]
        rw [List.mem_append, not_or] at whole
        exact .returned whole.1 later
      · rw [content_ended last]
        exact .fed whole last later
    · by_cases empty : bytes = []
      · subst empty
        exact .nil
      · rw [lines_of_not_mem empty fed, List.map_singleton, content_of_not_mem fed]
        exact .last empty fed

/-- The octets hold these texts on their lines, and then lines of which the first is no text. -/
structure Legible (bytes : List UInt8) (texts : List (List Char)) (rest : List (List UInt8)) :
    Prop where
  splits : Splits bytes (texts.map toUtf8 ++ rest)
  stops : ∀ line ∈ rest.head?, ∀ text, line ≠ toUtf8 text

theorem exists_legible (bytes : List UInt8) : ∃ texts rest, Legible bytes texts rest := by
  have cut (ls : List (List UInt8)) :
      ∃ (texts : List (List Char)) (rest : List (List UInt8)), ls = texts.map toUtf8 ++ rest ∧
        ∀ line ∈ rest.head?, ∀ text, line ≠ toUtf8 text := by
    induction ls with
    | nil => exact ⟨[], [], rfl, nofun⟩
    | cons line others ih =>
      by_cases decodes : ∃ text, line = toUtf8 text
      · obtain ⟨text, rfl⟩ := decodes
        obtain ⟨texts, rest, rfl, stops⟩ := ih
        exact ⟨text :: texts, rest, rfl, stops⟩
      · refine ⟨[], line :: others, rfl, fun other head text same => ?_⟩
        obtain rfl := Option.some.inj head
        exact decodes ⟨text, same⟩
  obtain ⟨texts, rest, same, stops⟩ := cut ((lines bytes).map content)
  exact ⟨texts, rest, same ▸ splits_lines bytes, stops⟩

def update? (text : List Char) : Option Update := (Update.reader.readText (trim text)).toOption

theorem update?_concat {c : Char} (blank : Text.isBlank c = true) (text : List Char) :
    update? (text ++ [c]) = update? text := by
  rw [update?, trim_concat blank, update?]

theorem Line.ofChars_cases (text : List Char) :
    (∃ u, ofChars text = .update u ∧ update? text = some u) ∨
      (ofChars text = .blank ∧ update? text = none) ∨
        (ofChars text = .malformed ∧ update? text = none) := by
  unfold ofChars update?
  generalize trim text = trimmed
  cases trimmed with
  | nil => exact .inr (.inl ⟨rfl, rfl⟩)
  | cons c others =>
    cases read : Update.reader.readText (c :: others) with
    | error e => exact .inr (.inr ⟨by simp only [read], rfl⟩)
    | ok u => exact .inl ⟨u, by simp only [read], rfl⟩

theorem splits_text {text : List Char} (whole : '\n' ∉ text) :
    ∃ text', update? text' = update? text ∧ ∀ rest ls,
      Splits rest ls → Splits (toUtf8 text ++ lineFeed :: rest) (toUtf8 text' :: ls) := by
  have free {text : List Char} (whole : '\n' ∉ text) : lineFeed ∉ toUtf8 text := fun member =>
    whole (mem_of_octet member rfl (by decide))
  rcases List.eq_nil_or_concat' text with rfl | ⟨before, c, rfl⟩
  · exact ⟨[], rfl, fun rest ls later => .fed List.not_mem_nil nofun later⟩
  · by_cases returned : c = '\r'
    · subst returned
      have octet : toUtf8 ['\r'] = [carriageReturn] := by decide
      refine ⟨before, (update?_concat (by decide) before).symm, fun rest ls later => ?_⟩
      rw [toUtf8_append, octet, List.append_assoc]
      exact .returned (free fun member => whole (List.mem_append_left _ member)) later
    · refine ⟨before ++ [c], rfl, fun rest ls later => .fed (free whole) (fun last => ?_) later⟩
      have one : toUtf8 [c] = String.utf8EncodeChar c := by simp [toUtf8]
      rw [toUtf8_append, one, List.getLast?_append_of_ne_nil _ String.utf8EncodeChar_ne_nil] at last
      have member : carriageReturn ∈ toUtf8 [c] := one ▸ List.mem_of_getLast? last
      have same := mem_of_octet (c := '\r') member rfl (by decide)
      exact returned (List.mem_singleton.1 same).symm

theorem updates_cons (text : List Char) (texts : List (List Char)) :
    (text :: texts).filterMap update? = (update? text).toList ++ texts.filterMap update? := by
  rw [List.filterMap_cons]
  cases update? text <;> rfl

/-- A text without line ends is a line, or empty. -/
theorem legible_line {text : List Char} (whole : '\n' ∉ text) : ∃ alone,
    Legible (toUtf8 text) alone [] ∧ alone.filterMap update? = (update? text).toList := by
  by_cases empty : text = []
  · subst empty
    exact ⟨[], ⟨.nil, nofun⟩, rfl⟩
  · have octets : lineFeed ∉ toUtf8 text := fun member =>
      whole (mem_of_octet member rfl (by decide))
    have alone : Splits (toUtf8 text) [toUtf8 text] := .last (toUtf8_ne_nil empty) octets
    refine ⟨[text], ⟨alone, nofun⟩, ?_⟩
    rw [updates_cons, List.filterMap_nil, List.append_nil]

/-- With a line end after a text, its lines stay what they are, up to blanks and a blank line, and
any octets may follow. -/
theorem legible_join (text : List Char) : ∃ alone joined, Legible (toUtf8 text) alone [] ∧
    joined.filterMap update? = alone.filterMap update? ∧
      ∀ bytes texts rest, Legible bytes texts rest →
        Legible (toUtf8 text ++ lineFeed :: bytes) (joined ++ texts) rest := by
  have feed : toUtf8 ['\n'] = [lineFeed] := by decide
  induction size : text.length using Nat.strongRecOn generalizing text with
  | ind n ih =>
    by_cases fed : '\n' ∈ text
    · obtain ⟨line, later, rfl, whole⟩ := List.eq_append_cons_of_mem fed
      rw [List.length_append, List.length_cons] at size
      obtain ⟨alone, joined, first, same, second⟩ := ih later.length (by omega) later rfl
      obtain ⟨line', -, ended⟩ := splits_text whole
      have split : toUtf8 (line ++ '\n' :: later) = toUtf8 line ++ lineFeed :: toUtf8 later := by
        rw [← List.singleton_append, toUtf8_append, toUtf8_append, feed, List.singleton_append]
      refine ⟨line' :: alone, line' :: joined, ⟨?_, first.stops⟩, ?_, ?_⟩
      · rw [split]
        exact ended _ _ first.splits
      · rw [List.filterMap_cons, List.filterMap_cons, same]
      · intro bytes texts rest legible
        refine ⟨?_, legible.stops⟩
        rw [split, List.append_assoc, List.cons_append]
        exact ended _ _ (second bytes texts rest legible).splits
    · obtain ⟨text', same, ended⟩ := splits_text fed
      obtain ⟨alone, legible, one⟩ := legible_line fed
      refine ⟨alone, [text'], legible, ?_, fun bytes texts rest later => ?_⟩
      · rw [updates_cons, same, one, List.filterMap_nil, List.append_nil]
      · exact ⟨ended bytes _ later.splits, later.stops⟩

def ending : List (List UInt8) → Except Utf8Fault Unit
  | [] => .ok ()
  | line :: _ => (ofUtf8 line).map fun _ => ()

theorem ending_of_stops {line : List UInt8} (stops : ∀ text, line ≠ toUtf8 text)
    (others : List (List UInt8)) :
    ∃ fault, ofUtf8 line = .error fault ∧ ending (line :: others) = .error fault := by
  cases decoded : ofUtf8 line with
  | ok text => exact absurd (ofUtf8_eq_ok_iff.1 decoded) (stops text)
  | error fault => exact ⟨fault, rfl, by rw [ending, decoded]; rfl⟩

end Feed

namespace Controller

/-- A line of text does what the update on it does, or nothing. -/
theorem feedLine_of_text {line : List UInt8} {text : List Char}
    (content : Feed.content line = toUtf8 text) (s : Controller) (applied : Nat) :
    ∃ t, s.feedLine applied line = .ok (t, applied + (Feed.update? text).toList.length) ∧
      t.unlogged = ((Feed.update? text).toList.foldl update s).unlogged := by
  simp only [feedLine, content, ofUtf8_toUtf8, bind, Except.bind]
  obtain ⟨u, read, known⟩ | ⟨read, unknown⟩ | ⟨read, unknown⟩ := Feed.Line.ofChars_cases text
  · refine ⟨(s.log (.applying u)).apply u, by rw [read, known]; rfl, ?_⟩
    rw [known, unlogged_apply]
    exact (LogBlind.update u).same (unlogged_log s _)
  · refine ⟨s, by rw [read, unknown]; rfl, ?_⟩
    rw [unknown]
    rfl
  · refine ⟨s.log .malformedUpdate, by rw [read, unknown]; rfl, ?_⟩
    rw [unknown]
    exact unlogged_log s _

theorem feedLines_of_texts {ls : List (List UInt8)} {texts : List (List Char)}
    {rest : List (List UInt8)} (contents : ls.map Feed.content = texts.map toUtf8 ++ rest)
    (stops : ∀ line ∈ rest.head?, ∀ text, line ≠ toUtf8 text) (s : Controller) (applied : Nat) :
    let us := texts.filterMap Feed.update?
    (s.feedLines applied ls).1.unlogged = (us.foldl update s).unlogged ∧
      (s.feedLines applied ls).2 = (Feed.ending rest).map fun _ => applied + us.length := by
  induction texts generalizing ls s applied with
  | nil =>
    cases ls with
    | nil =>
      obtain rfl : rest = [] := contents.symm
      exact ⟨unlogged_log s _, rfl⟩
    | cons line others =>
      obtain rfl : Feed.content line :: others.map Feed.content = rest := contents
      obtain ⟨fault, undecoded, ended⟩ :=
        Feed.ending_of_stops (stops _ rfl) (others.map Feed.content)
      have failed : s.feedLine applied line = .error fault := by
        simp only [feedLine, undecoded, bind, Except.bind]
      rw [feedLines, failed, ended]
      exact ⟨rfl, rfl⟩
  | cons text texts ih =>
    cases ls with
    | nil => cases contents
    | cons line others =>
      obtain ⟨first, later⟩ := List.cons.inj contents
      obtain ⟨t, done, same⟩ := feedLine_of_text first s applied
      obtain ⟨effect, count⟩ := ih later t (applied + (Feed.update? text).toList.length)
      rw [feedLines, done, Feed.updates_cons]
      refine ⟨effect.trans ?_, count.trans ?_⟩
      · rw [List.foldl_append]
        exact (LogBlind.foldl LogBlind.update _).same same
      · rw [List.length_append, Nat.add_assoc]

theorem feed_of_legible {bytes : List UInt8} {texts : List (List Char)} {rest : List (List UInt8)}
    (legible : Feed.Legible bytes texts rest) (s : Controller) :
    let us := texts.filterMap Feed.update?
    (s.feed bytes).1.unlogged = (us.foldl update s).unlogged ∧
      (s.feed bytes).2 = (Feed.ending rest).map fun _ => us.length := by
  intro us
  have contents := Feed.content_of_splits legible.splits
  obtain ⟨effect, count⟩ := feedLines_of_texts contents legible.stops s 0
  rw [Nat.zero_add] at count
  exact ⟨effect, count⟩

/-- States that are the same but for the log have the same inventory and have told the same. -/
theorem told_of_unlogged {s t : Controller} (same : s.unlogged = t.unlogged) :
    s.inventory = t.inventory ∧
      ∀ l, Journal.delivered l s.journal = Journal.delivered l t.journal := by
  have inventory : s.unlogged.inventory = t.unlogged.inventory := congrArg Controller.inventory same
  have deeds : Journal.deeds s.journal = Journal.deeds t.journal := congrArg journal same
  refine ⟨inventory, fun l => ?_⟩
  rw [← Journal.delivered_deeds, deeds, Journal.delivered_deeds]

/-- A feed is a fold over its lines. Any octets hold texts on their lines up to the first line that is
no text. Whatever the inventory is before, the updates on those lines are applied in order and
nothing else happens but records in the log; the number of the updates is given if all lines are
texts, and otherwise the fault. So what is fed after a text and a line end does as much as it does in
a feed of its own after the text, and the numbers add up. -/
theorem feed_folds_lines (s : Controller) :
    (∀ bytes, (∃ texts rest, Feed.Legible bytes texts rest) ∧
      ∀ texts rest, Feed.Legible bytes texts rest →
        let fed := s.feed bytes
        let us := texts.filterMap Feed.update?
        let applied := us.foldl update s
        fed.1.inventory = applied.inventory ∧
          (∀ l, Journal.delivered l fed.1.journal = Journal.delivered l applied.journal) ∧
          fed.1.unlogged = applied.unlogged ∧
          (rest = [] → fed.2 = .ok us.length) ∧ (rest ≠ [] → ∃ fault, fed.2 = .error fault)) ∧
    ∀ (text : List Char) (bytes : List UInt8),
      let first := s.feed (toUtf8 text)
      let second := first.1.feed bytes
      let joined := s.feed (toUtf8 text ++ Feed.lineFeed :: bytes)
      joined.1.inventory = second.1.inventory ∧
        (∀ l, Journal.delivered l joined.1.journal = Journal.delivered l second.1.journal) ∧
        joined.1.unlogged = second.1.unlogged ∧
        ∃ count, first.2 = .ok count ∧ joined.2 = second.2.map (count + ·) := by
  refine ⟨fun bytes => ⟨Feed.exists_legible bytes, fun texts rest legible => ?_⟩,
    fun text bytes => ?_⟩
  · intro fed us applied
    obtain ⟨effect, count⟩ := feed_of_legible legible s
    obtain ⟨inventory, told⟩ := told_of_unlogged effect
    refine ⟨inventory, told, effect, ?_, fun some => ?_⟩
    · rintro rfl
      exact count
    · obtain ⟨line, others, rfl⟩ := List.exists_cons_of_ne_nil some
      obtain ⟨fault, -, ended⟩ := Feed.ending_of_stops (legible.stops line rfl) others
      rw [ended] at count
      exact ⟨fault, count⟩
  · intro first second joined
    obtain ⟨texts, rest, legible⟩ := Feed.exists_legible bytes
    obtain ⟨alone, before, readFirst, same, join⟩ := Feed.legible_join text
    have readJoined := join bytes texts rest legible
    obtain ⟨effectFirst, countFirst⟩ := feed_of_legible readFirst s
    obtain ⟨effectSecond, countSecond⟩ := feed_of_legible legible first.1
    obtain ⟨effectJoined, countJoined⟩ := feed_of_legible readJoined s
    have effect : joined.1.unlogged = second.1.unlogged := by
      rw [List.filterMap_append, same, List.foldl_append] at effectJoined
      refine effectJoined.trans (Eq.trans ?_ effectSecond.symm)
      exact (LogBlind.foldl LogBlind.update _).same effectFirst.symm
    obtain ⟨inventory, told⟩ := told_of_unlogged effect
    refine ⟨inventory, told, effect, (alone.filterMap Feed.update?).length, countFirst, ?_⟩
    rw [List.filterMap_append, same, List.length_append] at countJoined
    refine countJoined.trans ?_
    rw [countSecond]
    cases Feed.ending rest <;> rfl

/-- A network, a blank line, a line that breaks off, the removal of a network that is not there, and
octets that are no text, with line ends of both kinds; what comes after those is not looked at. -/
theorem feed_folds_lines_up_to_fault :
    let n : Network := ⟨"compute-1", "blue", .vxlan, ⟨10, 0, 0, 1⟩, none⟩
    let removal (id : String) : List Char := (Update.removeNetwork id).toJson.chars
    let texts : List (List Char) := [(Update.upsertNetwork n).toJson.chars ++ ['\r'],
      [' ', '\u00a0'], (removal "blue").dropLast, '\t' :: removal "red"]
    let bytes := toUtf8 (join ['\n'] texts) ++ [13, 10, 0xc3, 13, 10] ++ toUtf8 (removal "blue")
    let s := initial (.appointed none)
    Feed.Legible bytes [(Update.upsertNetwork n).toJson.chars, [' ', '\u00a0'],
        (removal "blue").dropLast, '\t' :: removal "red"] [[0xc3], toUtf8 (removal "blue")] ∧
      (s.feed bytes).1.inventory =
        (s.inventory.update (.upsertNetwork n)).update (.removeNetwork "red") ∧
      ∃ fault, (s.feed bytes).2 = .error fault := by
  intro n removal texts bytes s
  have legible : Feed.Legible bytes [(Update.upsertNetwork n).toJson.chars, [' ', '\u00a0'],
      (removal "blue").dropLast, '\t' :: removal "red"] [[0xc3], toUtf8 (removal "blue")] := by
    constructor
    · refine Eq.subst (motive := Feed.Splits bytes) ?_ (Feed.splits_lines bytes)
      decide +kernel
    · intro line head text same
      obtain rfl := Option.some.inj head
      have undecoded : ofUtf8 [0xc3] = .error ⟨0, none⟩ := by decide +kernel
      rw [ofUtf8_eq_ok_iff.2 same] at undecoded
      cases undecoded
  obtain ⟨inventory, -, -, -, fails⟩ := ((feed_folds_lines s).1 bytes).2 _ _ legible
  have us : List.filterMap Feed.update? [(Update.upsertNetwork n).toJson.chars, [' ', '\u00a0'],
      (removal "blue").dropLast, '\t' :: removal "red"] =
        [.upsertNetwork n, .removeNetwork "red"] := by decide +kernel
  rw [us] at inventory
  exact ⟨legible, inventory, fails nofun⟩

end Controller
end GatewayRules
