import Mathlib.Data.List.DropRight
import GatewayRules.Proofs.Feeding
import GatewayRules.Proofs.Integral
import GatewayRules.Proofs.MemberOrder
import GatewayRules.Proofs.Truncation

/-!
Updates that break off. No beginning of the text of an update is an update, so nothing comes of a
line that was cut off, and where nothing unknown is named the only complaint is that it ends too
early.
-/
namespace GatewayRules.Json

namespace Quotation

/-- A text that breaks off between its elements lacks its end, also within a pair of surrogates. -/
theorem decode_of_beginning {gs gs' : List Glyph} {cs : List Char}
    (decoded : decode none gs = .ok cs) (left : gs' <+: gs) : decode (some .unfinished) gs' = .error .unfinished := by
  fun_induction decode none gs generalizing gs' cs with
  | case2 =>
    rw [List.prefix_nil.1 left]
    rfl
  | case3 c rest ih =>
    obtain ⟨cs, later, -⟩ := map_eq_ok_iff.1 decoded
    rcases List.prefix_cons_iff.1 left with rfl | ⟨r, rfl, left'⟩
    · rfl
    · rw [decode, ih later left']
      rfl
  | case4 high low rest pair ih =>
    obtain ⟨cs, later, -⟩ := map_eq_ok_iff.1 decoded
    rcases List.prefix_cons_iff.1 left with rfl | ⟨r, rfl, left'⟩
    · rfl
    rcases List.prefix_cons_iff.1 left' with rfl | ⟨r', rfl, left''⟩
    · -- the second half of the pair is missing
      obtain ⟨first, -⟩ := Bool.and_eq_true_iff.1 pair
      rw [decode, if_pos first]
    · rw [decode, if_pos pair, ih later left'']
      rfl
  | _ => cases decoded

theorem text_of_beginning {gs gs' : List Glyph} {name : String}
    (named : (⟨gs, none⟩ : Quotation).text = .ok name) (left : gs' <+: gs) :
    (⟨gs', some .unfinished⟩ : Quotation).text = .error .unfinished := by
  obtain ⟨cs, decoded, -⟩ := map_eq_ok_iff.1 named
  have broken := decode_of_beginning decoded left
  simp only [text, broken, Except.map]

end Quotation

namespace Tree

/-- A value that may be taken in and breaks off may be taken in too or is unfinished; brackets and
braces that break off are unfinished in any case. -/
def Lacks : Piece → Tree → Prop
  | .value t, t' | .padded t, t' => ∀ depth, t.vet depth = .ok () → t.Integral →
    t'.vet depth = .ok () ∨ t'.vet depth = .error .unfinished
  | .items ts, t' => ∀ depth, vetItems depth ts = .ok () → IntegralItems ts →
    t'.vet (depth + 1) = .error .unfinished
  | .members ms, t' => ∀ depth, vetMembers depth ms = .ok () → IntegralMembers ms →
    t'.vet (depth + 1) = .error .unfinished

theorem lacks_of_cut {p : Piece} {t' : Tree} (cut : Cut p t') : Lacks p t' := by
  induction cut with
  | absent | broken => exact fun depth _ _ => .inr rfl
  | number integer =>
    rintro depth - whole
    obtain ⟨i, rfl⟩ := integer whole
    exact .inl rfl
  | string left =>
    rintro depth vetted -
    obtain ⟨name, named, -⟩ := map_eq_ok_iff.1 vetted
    refine .inr ?_
    rw [vet, Quotation.text_of_beginning named left]
    rfl
  | emptyArray =>
    rintro depth vetted -
    cases depth with
    | zero => cases vetted
    | succ depth => exact .inr rfl
  | emptyObject =>
    rintro depth vetted -
    cases depth with
    | zero => cases vetted
    | succ depth => exact .inr rfl
  | array cut ih =>
    intro depth vetted integral
    cases depth with
    | zero => cases vetted
    | succ depth => exact .inr (ih depth (vet_array_iff.1 vetted).1 integral)
  | object cut ih =>
    intro depth vetted integral
    cases depth with
    | zero => cases vetted
    | succ depth => exact .inr (ih depth (vet_object_iff.1 vetted).1 integral)
  | whole => exact fun depth vetted _ => .inl vetted
  | padded cut ih => exact ih
  | lastItem cut ih =>
    intro depth vetted integral
    have first := (vetItems_cons_iff.1 vetted).1
    rcases ih depth first integral.1 with value | value <;>
      simp [vet, vetItems, value, ArrayEnd.check, bind, Except.bind]
  | nextItem cut ih =>
    intro depth vetted integral
    obtain ⟨first, others⟩ := vetItems_cons_iff.1 vetted
    have later := ih depth others integral.2
    simp only [vet, vetItems, first, bind, Except.bind] at later ⊢
    exact later
  | nameless => exact fun depth _ _ => rfl
  | name left =>
    rintro depth vetted -
    obtain ⟨⟨name, named⟩, -⟩ := vetMembers_cons_iff.1 vetted
    simp only [vet, vetMembers, Quotation.text_of_beginning named left, bind, Except.bind]
  | colon =>
    rintro depth vetted -
    obtain ⟨⟨name, named⟩, -⟩ := vetMembers_cons_iff.1 vetted
    simp only [vet, vetMembers, named, bind, Except.bind]
  | lastMember cut ih =>
    intro depth vetted integral
    obtain ⟨⟨name, named⟩, first, -⟩ := vetMembers_cons_iff.1 vetted
    rcases ih depth first integral.1 with value | value <;>
      simp [vet, vetMembers, named, value, ObjectEnd.check, bind, Except.bind]
  | nextMember cut ih =>
    intro depth vetted integral
    obtain ⟨⟨name, named⟩, first, others⟩ := vetMembers_cons_iff.1 vetted
    have later := ih depth others integral.2
    simp only [vet, vetMembers, named, first, bind, Except.bind] at later ⊢
    exact later

/-- What has an end is not whole: items have no bracket, and members lack a value or the brace. -/
def Opens : Piece → Tree → Prop
  | .items _, t => ∃ ts, t = .array ts (.broken .unfinished)
  | .members _, t => ∃ ms close, t = .object ms close ∧ (close = .closed → ∃ q, (q, absent) ∈ ms)
  | .value _, _ | .padded _, _ => True

theorem opens_of_cut {p : Piece} {t' : Tree} (cut : Cut p t') : Opens p t' := by
  induction cut with
  | lastItem cut ih => exact ⟨_, rfl⟩
  | nextItem cut ih =>
    obtain ⟨ts, same⟩ := ih
    cases same
    exact ⟨_, rfl⟩
  | nameless => exact ⟨_, _, rfl, nofun⟩
  | @name gs gs' => exact ⟨_, _, rfl, fun _ => ⟨_, List.mem_singleton.2 rfl⟩⟩
  | colon => exact ⟨_, _, rfl, fun _ => ⟨_, List.mem_singleton.2 rfl⟩⟩
  | lastMember => exact ⟨_, _, rfl, nofun⟩
  | nextMember cut ih =>
    obtain ⟨ms, close, same, missing⟩ := ih
    cases same
    refine ⟨_, _, rfl, fun closed => ?_⟩
    obtain ⟨q, member⟩ := missing closed
    exact ⟨q, List.mem_cons_of_mem _ member⟩
  | _ => trivial

theorem not_whole_of_cut {t t' : Tree} (cut : Cut (.value t) t')
    (container : (∃ ts, t = .array ts .closed) ∨ ∃ ms, t = .object ms .closed) :
    t'.skip ≠ .ok () := by
  intro whole
  cases cut with
  | absent | broken | emptyArray | emptyObject => cases whole
  | number | string left => obtain ⟨ts, same⟩ | ⟨ms, same⟩ := container <;> cases same
  | array cut =>
    obtain ⟨ts, rfl⟩ := opens_of_cut cut
    cases (skip_array_iff.1 whole).2
  | object cut =>
    obtain ⟨ms, close, rfl, missing⟩ := opens_of_cut cut
    obtain ⟨members, closed⟩ := skip_object_iff.1 whole
    obtain ⟨q, member⟩ := missing closed
    cases skip_of_mem members _ member

end Tree

end GatewayRules.Json

namespace GatewayRules.Update
open Json

variable {kind kind' : Option (Reader Update)} {others others' ms : List (Quotation × Tree)}

theorem skip_of_readKind {t : Tree} {read : Reader Update} (known : readKind t = .ok read) :
    t.skip = .ok () := by
  obtain ⟨q, rfl, name, text⟩ := string_of_readKind known
  rw [Tree.skip, Quotation.fault_of_text text]

/-- Members that are taken in are whole. -/
theorem skip_of_takeMembers {taken : Option (Reader Update) × List (Quotation × Tree)}
    (done : takeMembers kind others ms = .ok taken) : Tree.skipMembers ms = .ok () := by
  induction ms generalizing kind others with
  | nil => rfl
  | cons m ms ih =>
    obtain ⟨_, _, takes, later⟩ := takeMembers_cons_iff.1 done
    refine Tree.skipMembers_cons_iff.2 ?_
    cases takes with
    | kind named known =>
      exact ⟨Quotation.fault_of_text named, skip_of_readKind known, ih later⟩
    | other named other vetted =>
      exact ⟨Quotation.fault_of_text named, Tree.skip_of_vet _ vetted, ih later⟩

/-- What is read as an update is a whole array or object. -/
theorem whole_of_read {mode : Mode} {t : Tree} {u : Update} (read : reader mode t = .ok u) :
    t.skip = .ok () ∧ ((∃ ts, t = .array ts .closed) ∨ ∃ ms, t = .object ms .closed) := by
  cases t with
  | object ms close =>
    obtain ⟨rfl, kind, others, done, -⟩ := reader_object_iff.1 read
    exact ⟨Tree.skip_object_iff.2 ⟨skip_of_takeMembers done, rfl⟩, .inr ⟨ms, rfl⟩⟩
  | array ts close =>
    obtain ⟨rfl, kind, items, _, rfl, known, vetted, -⟩ := reader_array_iff.1 read
    have all := Tree.skipItems_cons_iff.2
      ⟨skip_of_readKind known, Tree.skipItems_of_vet items vetted⟩
    exact ⟨Tree.skip_array_iff.2 ⟨all, rfl⟩, .inl ⟨_, rfl⟩⟩
  | _ => cases read

/-- What is left of an update that breaks off is no update. -/
theorem refused_of_cut {mode : Mode} {t t' : Tree} {u : Update} (read : reader mode t = .ok u)
    (cut : Cut (.value t) t') : ∃ e, reader mode t' = .error e := by
  cases again : reader mode t' with
  | error e => exact ⟨e, rfl⟩
  | ok u' => exact absurd (whole_of_read again).1 (Tree.not_whole_of_cut cut (whole_of_read read).2)

theorem readKind_cut {t t' : Tree} {read : Reader Update} (known : readKind t = .ok read)
    (cut : Cut (.padded t) t') :
    readKind t' = .ok read ∨ readKind t' = .error (.fault .unfinished) := by
  obtain ⟨q, rfl, name, text⟩ := string_of_readKind known
  cases cut with
  | whole => exact .inl known
  | padded cut =>
    cases cut with
    | absent | broken => exact .inr rfl
    | string left =>
      refine .inr ?_
      rw [readKind, Quotation.text_of_beginning text left]
      rfl

theorem takeMembers_takes {m : Quotation × Tree} (takes : Takes kind others m kind' others')
    (ms : List (Quotation × Tree)) :
    takeMembers kind others (m :: ms) = takeMembers kind' others' ms := by
  cases takes with
  | kind named known => simp [takeMembers, named, known, orFault, bind, Except.bind]
  | other named other vetted =>
    simp [takeMembers, named, other, vetted, orFault, bind, Except.bind]

theorem text_of_takes {m : Quotation × Tree} (takes : Takes kind others m kind' others') :
    ∃ name, m.1.text = .ok name := by
  cases takes with
  | kind named known => exact ⟨_, named⟩
  | other named other vetted => exact ⟨_, named⟩

theorem takeMembers_cut {ms' : List (Quotation × Tree)} {close : ObjectEnd}
    (cut : Cut (.members ms) (.object ms' close)) (integral : Tree.IntegralMembers ms)
    {taken : Option (Reader Update) × List (Quotation × Tree)}
    (done : takeMembers kind others ms = .ok taken) :
    takeMembers kind others ms' = .error (.fault .unfinished) ∨
      ∃ taken', takeMembers kind others ms' = .ok taken' ∧ close.check = .error .unfinished := by
  induction ms generalizing kind others ms' with
  | nil =>
    cases cut
    exact .inr ⟨_, rfl, rfl⟩
  | cons m ms ih =>
    obtain ⟨_, _, takes, later⟩ := takeMembers_cons_iff.1 done
    cases cut with
    | nameless => exact .inr ⟨_, rfl, rfl⟩
    | name left =>
      obtain ⟨name, named⟩ := text_of_takes takes
      refine .inl ?_
      simp [takeMembers, Quotation.text_of_beginning named left, orFault, bind, Except.bind]
    | colon =>
      refine .inl ?_
      cases takes with
      | kind named known =>
        have broken : readKind .absent = .error (.fault .unfinished) := rfl
        simp [takeMembers, named, orFault, bind, Except.bind, broken]
      | other named other vetted =>
        simp [takeMembers, named, other, Tree.vet, orFault, bind, Except.bind]
    | @lastMember q t t' _ cut =>
      cases takes with
      | kind named known =>
        rcases readKind_cut known cut with same | broken
        · exact .inr ⟨_, takeMembers_takes (.kind named same) [], rfl⟩
        · refine .inl ?_
          simp [takeMembers, named, orFault, bind, Except.bind, broken]
      | other named other vetted =>
        rcases Tree.lacks_of_cut cut maxDepth vetted integral.1 with same | broken
        · exact .inr ⟨_, takeMembers_takes (.other named other same) [], rfl⟩
        · refine .inl ?_
          simp [takeMembers, named, other, broken, orFault, bind, Except.bind]
    | nextMember cut =>
      rw [takeMembers_takes takes]
      exact ih cut integral.2 later

/-- What is left of an update that holds no numbers but integers ends too early. -/
theorem unfinished_of_cut {mode : Mode} {t t' : Tree} {u : Update} (read : reader mode t = .ok u)
    (integral : t.Integral) (cut : Cut (.value t) t') :
    reader mode t' = .error (.fault .unfinished) := by
  cases cut with
  | absent | broken | emptyObject => rfl
  | number | string | emptyArray => cases read
  | @array ts t' cut =>
    obtain ⟨-, kind, items, chosen, rfl, known, vetted, -⟩ := reader_array_iff.1 read
    cases cut with
    | @lastItem _ first _ cut =>
      rcases readKind_cut known cut with same | broken
      · simp [reader, same, Tree.vetItems, ArrayEnd.check, orFault, bind, Except.bind]
      · simp [reader, broken, bind, Except.bind]
    | @nextItem _ _ items' close cut =>
      have broken := Tree.lacks_of_cut cut maxDepth vetted integral.2
      simp only [Tree.vet] at broken
      simp only [reader, known, bind, Except.bind]
      cases value : Tree.vetItems maxDepth items' with
      | error fault =>
        rw [value] at broken
        cases broken
        rfl
      | ok =>
        simp only [value, bind, Except.bind] at broken
        simp only [orFault, broken]
  | @object ms t' cut =>
    obtain ⟨ms', close, rfl, -⟩ := Tree.opens_of_cut cut
    obtain ⟨-, kind, others, done, -⟩ := reader_object_iff.1 read
    rcases takeMembers_cut cut integral done with broken | ⟨taken, later, broken⟩
    · simp [reader, broken, bind, Except.bind]
    · simp [reader, later, broken, orFault, bind, Except.bind]

end GatewayRules.Update

namespace GatewayRules

namespace Text

/-- No blank stands at an end. -/
structure Trimmed (s : List Char) : Prop where
  first : ∀ c ∈ s.head?, isBlank c = false
  last : ∀ c ∈ s.getLast?, isBlank c = false

theorem first_of_beginning {p s : List Char} (first : ∀ c ∈ s.head?, isBlank c = false)
    (inside : p <+: s) : ∀ c ∈ p.head?, isBlank c = false := by
  intro c head
  obtain ⟨rest, rfl⟩ := inside
  exact first c (List.mem_head?_append_of_mem_head? head)

theorem trimmed_trim (s : List Char) : Trimmed (trim s) := by
  have inside : trim s <+: s.dropWhile isBlank := List.rdropWhile_prefix isBlank _
  constructor
  · refine first_of_beginning (fun c head => ?_) inside
    have first := List.head?_dropWhile_not isBlank s
    rwa [head] at first
  · intro c last
    have some : trim s ≠ [] := by
      intro empty
      rw [empty] at last
      cases last
    have own := List.rdropWhile_last_not isBlank (s.dropWhile isBlank) some
    rw [List.getLast?_eq_getLast_of_ne_nil some] at last
    obtain rfl := Option.some.inj last
    exact Bool.eq_false_iff.2 own

/-- Of the beginning of a trimmed text, only blanks at the end are trimmed. -/
theorem trim_beginning {p s : List Char} (trimmed : Trimmed s) (inside : p <+: s) :
    trim p <+: p := by
  have whole : p.dropWhile isBlank = p := by
    cases p with
    | nil => rfl
    | cons c p =>
      have first := first_of_beginning trimmed.first inside c rfl
      exact List.dropWhile_cons_of_neg (by rw [first]; decide)
  have left : trim p <+: p.dropWhile isBlank := List.rdropWhile_prefix isBlank _
  rwa [whole] at left

end Text

namespace Json

/-- A trimmed text has no blanks around the value. -/
theorem spells_of_trimmed {t : Tree} {s : List Char} (spelled : Spells (.padded t) s)
    (trimmed : Text.Trimmed s) : Spells (.value t) s := by
  have blank {c : Char} (blank : isBlank c = true) : Text.isBlank c = true := by
    simp only [isBlank, Bool.or_eq_true, decide_eq_true_eq] at blank
    rcases blank with ((rfl | rfl) | rfl) | rfl <;> decide
  cases spelled with
  | @padded _ a s b before value after =>
    obtain rfl : a = [] := by
      cases a with
      | nil => rfl
      | cons c a =>
        have first := trimmed.first c rfl
        rw [blank (before c List.mem_cons_self)] at first
        cases first
    rcases List.eq_nil_or_concat' b with rfl | ⟨b, c, rfl⟩
    · rwa [List.append_nil]
    · have last := trimmed.last c (by simp)
      rw [blank (after c (by simp))] at last
      cases last

end Json

namespace Update
open Json Text

/-- The beginning of the text of an update is no update, and ends too early if the update names
nothing unknown. -/
theorem refused_of_beginning {s p : List Char} {u : Update} (read : reader.readText s = .ok u)
    (trimmed : Trimmed s) (inside : p <+: s) (short : p ≠ s) :
    ∃ e, reader.readText p = .error e ∧
      (u.Familiar (Tree.scan s).1 → e = .fault .unfinished) := by
  have accepted := (Reader.readText_iff.1 read).1
  have spelled := spells_of_trimmed (proper_of_read read (whole_of_read accepted).1) trimmed
  obtain ⟨t', scanned, cut⟩ := Tree.scan_of_beginning spelled inside short
  obtain ⟨e, refused⟩ := refused_of_cut accepted cut
  have failed : reader.readText p = .error e := by
    simp only [Reader.readText, scanned, refused]
    rfl
  refine ⟨e, failed, fun familiar => ?_⟩
  have unfinished := unfinished_of_cut accepted (integral_of_read accepted familiar) cut
  exact Except.error.inj (refused.symm.trans unfinished)

end Update

namespace Feed
open Text

theorem update?_of_beginning {s p : List Char} {u : Update}
    (read : Update.reader.readText s = .ok u) (trimmed : Trimmed s) (inside : p <+: s)
    (short : p ≠ s) : update? p = none := by
  have left := trim_beginning trimmed inside
  have shorter : trim p ≠ s := by
    rintro rfl
    exact short (inside.eq_of_length (le_antisymm inside.length_le left.length_le))
  obtain ⟨e, refused, -⟩ :=
    Update.refused_of_beginning read trimmed (left.trans inside) shorter
  rw [update?, refused]
  rfl

end Feed

namespace Controller
open Text

variable {text : List Char}

theorem feed_of_idle (whole : '\n' ∉ text) (idle : Feed.update? text = none) (s : Controller) :
    (s.feed (toUtf8 text)).1.unlogged = s.unlogged ∧ (s.feed (toUtf8 text)).2 = .ok 0 := by
  obtain ⟨alone, legible, one⟩ := Feed.legible_line whole
  obtain ⟨effect, count⟩ := feed_of_legible legible s
  rw [one, idle] at effect count
  exact ⟨effect, count⟩

/-- A line without an update does nothing among others. -/
theorem feed_past_idle (idle : Feed.update? text = none) {bytes bytes' : List UInt8}
    {before after : List (List Char)} {rest : List (List UInt8)}
    (legible : Feed.Legible bytes (before ++ text :: after) rest)
    (without : Feed.Legible bytes' (before ++ after) rest) (s : Controller) :
    (s.feed bytes).1.unlogged = (s.feed bytes').1.unlogged ∧
      (s.feed bytes).2 = (s.feed bytes').2 := by
  obtain ⟨effect, count⟩ := feed_of_legible legible s
  obtain ⟨effect', count'⟩ := feed_of_legible without s
  have same : (before ++ text :: after).filterMap Feed.update? =
      (before ++ after).filterMap Feed.update? := by
    rw [List.filterMap_append, Feed.updates_cons, idle, List.filterMap_append]
    rfl
  rw [same] at effect count
  exact ⟨effect.trans effect'.symm, count.trans count'.symm⟩

/-- No beginning of an update is an update. Of the text of one, without blanks around it, every
proper beginning is refused, and as ending too early if the text names nothing unknown. So nothing
comes of a line that holds the beginning, with any blanks around it. Fed alone it counts as no
update and changes nothing but the log, and among other lines it changes nothing of what comes of
those. -/
theorem cut_off_update_is_not_applied {line p : List Char} {u : Update}
    (read : Update.reader.readText (trim line) = .ok u) (inside : p <+: trim line)
    (short : p ≠ trim line) :
    (∃ e, Update.reader.readText p = .error e ∧
      (u.Familiar (Json.Tree.scan (trim line)).1 → e = .fault .unfinished)) ∧
    ∀ cut, trim cut = trim p → ∀ s : Controller,
      ('\n' ∉ cut →
        let fed := s.feed (toUtf8 cut)
        fed.2 = .ok 0 ∧ fed.1.inventory = s.inventory ∧
          (∀ l, Journal.delivered l fed.1.journal = Journal.delivered l s.journal) ∧
          fed.1.unlogged = s.unlogged) ∧
      ∀ bytes bytes' before after rest, Feed.Legible bytes (before ++ cut :: after) rest →
        Feed.Legible bytes' (before ++ after) rest →
          let fed := s.feed bytes
          let without := s.feed bytes'
          fed.2 = without.2 ∧ fed.1.inventory = without.1.inventory ∧
            (∀ l, Journal.delivered l fed.1.journal = Journal.delivered l without.1.journal) ∧
            fed.1.unlogged = without.1.unlogged := by
  have trimmed := trimmed_trim line
  refine ⟨Update.refused_of_beginning read trimmed inside short, fun cut same s => ?_⟩
  have idle : Feed.update? cut = none := by
    rw [Feed.update?, same]
    exact Feed.update?_of_beginning read trimmed inside short
  constructor
  · intro one fed
    obtain ⟨effect, count⟩ := feed_of_idle one idle s
    obtain ⟨inventory, told⟩ := told_of_unlogged effect
    exact ⟨count, inventory, told, effect⟩
  · intro bytes bytes' before after rest legible shorter fed without
    obtain ⟨effect, count⟩ := feed_past_idle idle legible shorter s
    obtain ⟨inventory, told⟩ := told_of_unlogged effect
    exact ⟨count, inventory, told, effect⟩

/-- The removal of a node, and a node that breaks off inside a port number where the feed ends. The
digits that are left would make a port as well. -/
theorem cut_off_update_is_not_applied_inside_port :
    let x : Node := ⟨"compute-1", ⟨"of:01"⟩, ⟨2, 0, 0, 0, 0, 1⟩, ⟨10, 0, 0, 1⟩, .complete,
      ⟨some ⟨4789⟩, none, none⟩⟩
    let first := (Update.removeNode "compute-2").toJson.chars
    let line := '\u00a0' :: ((Update.upsertNode x).toJson.chars ++ ['\r'])
    let p := (trim line).take 175
    let s := initial (.appointed none)
    p.reverse.take 4 = ['7', '4', ':', '"'] ∧
      Update.reader.readText p = .error (.fault .unfinished) ∧
      ((s.feed (toUtf8 p)).2 = .ok 0 ∧ (s.feed (toUtf8 p)).1.inventory = s.inventory) ∧
      (s.feed (toUtf8 (first ++ '\n' :: p))).1.inventory = (s.feed (toUtf8 first)).1.inventory := by
  intro x first line p s
  have read : Update.reader.readText (trim line) = .ok (.upsertNode x) := by decide +kernel
  have inside : p <+: trim line := List.take_prefix ..
  have short : p ≠ trim line := by decide +kernel
  obtain ⟨⟨e, refused, known⟩, idle⟩ := cut_off_update_is_not_applied read inside short
  obtain ⟨alone, among⟩ := idle p rfl s
  obtain rfl : e = .fault .unfinished := known (by decide +kernel)
  obtain ⟨count, inventory, -, -⟩ := alone (by decide +kernel)
  have legible : Feed.Legible (toUtf8 (first ++ '\n' :: p)) ([first] ++ p :: []) [] := by
    refine ⟨Eq.subst (motive := Feed.Splits _) ?_ (Feed.splits_lines _), nofun⟩
    decide +kernel
  have without : Feed.Legible (toUtf8 first) ([first] ++ []) [] := by
    refine ⟨Eq.subst (motive := Feed.Splits _) ?_ (Feed.splits_lines _), nofun⟩
    decide +kernel
  obtain ⟨-, same, -, -⟩ := among _ _ [first] [] [] legible without
  exact ⟨by decide +kernel, refused, ⟨count, inventory⟩, same⟩

end Controller

end GatewayRules
