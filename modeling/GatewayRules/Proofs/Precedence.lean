import GatewayRules.Proofs.Reading
import GatewayRules.Settings.Load

/-!
Which value a setting gets. For every field the first source that speaks of it decides, alone and
without regard to what other sources say, and the settings are loaded if what it says is of the
field's kind.
-/
namespace GatewayRules
open Json (bind_eq_ok_iff)

inductive Setting.Kind where
  | text
  | textOrNull
  | word
  | flag
  deriving DecidableEq, Repr

def Setting.Kind.Admits : Kind → Setting → Prop
  | .text, v => ∃ text, v = .text text
  | .textOrNull, v => v = .null ∨ ∃ text, v = .text text
  | .word, v => ∃ i : Int, v = .integer i ∧ 0 ≤ i ∧ i < UInt32.size
  | .flag, v => ∃ value, v = .flag value

namespace Setting

def ofTextOrNull : Option String → Setting
  | some value => .text value
  | none => .null

def ofWord (w : UInt32) : Setting := .integer w.toNat

theorem ofWord_inj {w w' : UInt32} : ofWord w = ofWord w' ↔ w = w' := by
  rw [ofWord, ofWord, integer.injEq, Int.natCast_inj, UInt32.toNat_inj]

theorem admits_text_iff {v : Setting} : Kind.text.Admits v ↔ ∃ t, v = .text t := Iff.rfl

theorem admits_flag_iff {v : Setting} : Kind.flag.Admits v ↔ ∃ b, v = .flag b := Iff.rfl

theorem admits_textOrNull_iff {v : Setting} :
    Kind.textOrNull.Admits v ↔ ∃ t, v = ofTextOrNull t := by
  constructor
  · rintro (rfl | ⟨value, rfl⟩)
    · exact ⟨none, rfl⟩
    · exact ⟨some value, rfl⟩
  · rintro ⟨_ | value, rfl⟩
    · exact .inl rfl
    · exact .inr ⟨value, rfl⟩

theorem admits_word_iff {v : Setting} : Kind.word.Admits v ↔ ∃ w, v = ofWord w := by
  constructor
  · rintro ⟨i, rfl, nonneg, small⟩
    refine ⟨UInt32.ofNat i.toNat, congrArg Setting.integer ?_⟩
    have bound : i.toNat < UInt32.size := by omega
    rw [UInt32.toNat_ofNat_of_lt' bound]
    omega
  · rintro ⟨w, rfl⟩
    exact ⟨w.toNat, rfl, Int.natCast_nonneg _, Int.ofNat_lt.2 w.toNat_lt_size⟩

/-! A reader accepts just the value that its result is written as; where nothing is said, the
default stands for what is said. -/

variable {key : String} {said : Option Setting}

theorem asText_eq_ok_iff {default text : String} :
    asText key default said = .ok text ↔ said.getD (.text default) = .text text := by
  rcases said with _ | v
  · simp [asText]
  · cases v <;> simp [asText]

theorem asTextOrNull_eq_ok_iff {text : Option String} :
    asTextOrNull key said = .ok text ↔ said.getD .null = ofTextOrNull text := by
  rcases said with _ | v
  · cases text <;> simp [asTextOrNull, ofTextOrNull]
  · cases v <;> cases text <;> simp [asTextOrNull, ofTextOrNull]

theorem asWord_eq_ok_iff {default w : UInt32} :
    asWord key default said = .ok w ↔ said.getD (ofWord default) = ofWord w := by
  rcases said with _ | v
  · simp [asWord, ofWord_inj]
  · cases v with
    | integer i =>
      unfold asWord ofWord
      dsimp only [Option.getD_some]
      split
      · next range =>
        have bound : i.toNat < UInt32.size := by omega
        rw [Except.ok.injEq, Setting.integer.injEq, ← UInt32.toNat_inj,
          UInt32.toNat_ofNat_of_lt' bound]
        omega
      · next range =>
        refine ⟨nofun, fun same => (range ?_).elim⟩
        obtain rfl := Setting.integer.inj same
        exact ⟨Int.natCast_nonneg _, Int.ofNat_lt.2 w.toNat_lt_size⟩
    | _ => simp [asWord, ofWord]

theorem asFlag_eq_ok_iff {default flag : Bool} :
    asFlag key default said = .ok flag ↔ said.getD (.flag default) = .flag flag := by
  rcases said with _ | v
  · simp [asFlag]
  · cases v <;> simp [asFlag]

end Setting

namespace Settings
open Setting

def fields : List (String × Kind) := [("app_name", .text), ("gateway_priority", .word),
  ("inventory_file", .textOrNull), ("local_node_id", .textOrNull), ("read_stdin_feed", .flag),
  ("routing_table", .word)]

theorem forall_fields {p : String × Kind → Prop} :
    (∀ f ∈ fields, p f) ↔ p ("app_name", .text) ∧ p ("gateway_priority", .word) ∧
      p ("inventory_file", .textOrNull) ∧ p ("local_node_id", .textOrNull) ∧
      p ("read_stdin_feed", .flag) ∧ p ("routing_table", .word) := by
  simp [fields]

def entries (c : Settings) : List (String × Setting) := [("app_name", .text c.app),
  ("gateway_priority", .ofWord c.priority), ("inventory_file", .ofTextOrNull c.inventoryFile),
  ("local_node_id", .ofTextOrNull c.localId), ("read_stdin_feed", .flag c.readsFeed),
  ("routing_table", .ofWord c.table)]

/-- The value that a field has if no source speaks of it. -/
def defaultFor (key : String) : Setting := (Settings.default.entries.lookup key).getD .null

/-- The entries of the fields, of which those that are not given have their defaults. -/
def filled (value : String → Option Setting) : List (String × Setting) :=
  fields.map fun f => (f.1, (value f.1).getD (defaultFor f.1))

theorem filled_eq_iff {value : String → Option Setting} {c : Settings} :
    filled value = c.entries ↔
      asText "app_name" Settings.default.app (value "app_name") = .ok c.app ∧
      asWord "gateway_priority" Settings.default.priority (value "gateway_priority") =
        .ok c.priority ∧
      asTextOrNull "inventory_file" (value "inventory_file") = .ok c.inventoryFile ∧
      asTextOrNull "local_node_id" (value "local_node_id") = .ok c.localId ∧
      asFlag "read_stdin_feed" Settings.default.readsFeed (value "read_stdin_feed") =
        .ok c.readsFeed ∧
      asWord "routing_table" Settings.default.table (value "routing_table") = .ok c.table := by
  have unfolded : filled value =
      [("app_name", (value "app_name").getD (.text Settings.default.app)),
        ("gateway_priority", (value "gateway_priority").getD (.ofWord Settings.default.priority)),
        ("inventory_file", (value "inventory_file").getD .null),
        ("local_node_id", (value "local_node_id").getD .null),
        ("read_stdin_feed", (value "read_stdin_feed").getD (.flag Settings.default.readsFeed)),
        ("routing_table", (value "routing_table").getD (.ofWord Settings.default.table))] := rfl
  rw [asText_eq_ok_iff, asWord_eq_ok_iff, asTextOrNull_eq_ok_iff, asTextOrNull_eq_ok_iff,
    asFlag_eq_ok_iff, asWord_eq_ok_iff, unfolded]
  simp only [entries, List.cons.injEq, Prod.mk.injEq, true_and, and_true]

theorem ofValues_eq_ok_iff {value : String → Option Setting} {c : Settings} :
    ofValues value = .ok c ↔ filled value = c.entries ∧ Text.trim c.app.toList ≠ [] := by
  rw [filled_eq_iff]
  unfold ofValues
  simp only [bind_eq_ok_iff]
  constructor
  · rintro ⟨app, h₁, priority, h₂, file, h₃, localId, h₄, feed, h₅, table, h₆, made⟩
    split at made
    · cases made
    · next named =>
      obtain rfl := Except.ok.inj made
      exact ⟨⟨h₁, h₂, h₃, h₄, h₅, h₆⟩, by simpa using named⟩
  · rintro ⟨⟨h₁, h₂, h₃, h₄, h₅, h₆⟩, named⟩
    refine ⟨_, h₁, _, h₂, _, h₃, _, h₄, _, h₅, _, h₆, ?_⟩
    rw [if_neg (by simpa using named)]
    rfl

theorem ofValues_congr {value value' : String → Option Setting}
    (same : ∀ f ∈ fields, value f.1 = value' f.1) : ofValues value = ofValues value' := by
  obtain ⟨h₁, h₂, h₃, h₄, h₅, h₆⟩ := forall_fields.1 same
  simp only [ofValues, h₁, h₂, h₃, h₄, h₅, h₆]

/-- A table is one of settings if the value of every field is of the kind of the field. -/
theorem exists_entries_iff {value : String → Setting} :
    (∃ c : Settings, fields.map (fun f => (f.1, value f.1)) = c.entries) ↔
      ∀ f ∈ fields, f.2.Admits (value f.1) := by
  rw [forall_fields]
  simp only [admits_text_iff, admits_word_iff, admits_textOrNull_iff, admits_flag_iff, fields,
    entries, List.map_cons, List.map_nil, List.cons.injEq, Prod.mk.injEq, true_and, and_true]
  constructor
  · rintro ⟨c, h₁, h₂, h₃, h₄, h₅, h₆⟩
    exact ⟨⟨_, h₁⟩, ⟨_, h₂⟩, ⟨_, h₃⟩, ⟨_, h₄⟩, ⟨_, h₅⟩, ⟨_, h₆⟩⟩
  · rintro ⟨⟨app, h₁⟩, ⟨priority, h₂⟩, ⟨file, h₃⟩, ⟨localId, h₄⟩, ⟨feed, h₅⟩, ⟨table, h₆⟩⟩
    exact ⟨⟨app, localId, priority, table, file, feed⟩, h₁, h₂, h₃, h₄, h₅, h₆⟩

end Settings

namespace Environment

def lowered (name : String) : List Char := name.toList.map Char.toLower

def IsPlain (name : String) : Prop := ∀ c ∈ name.toList, c ≠ '.' ∧ Text.isBlank c = false

theorem dropMarker_eq_some_iff {mark s rest : List Char} :
    dropMarker mark s = some rest ↔
      ∃ front, s = front ++ rest ∧ front.map Char.toLower = mark := by
  induction mark generalizing s with
  | nil => simp [dropMarker]
  | cons m mark ih =>
    cases s with
    | nil => simp [dropMarker]
    | cons c s =>
      unfold dropMarker
      split
      · next same =>
        rw [ih]
        constructor
        · rintro ⟨front, rfl, rfl⟩
          exact ⟨c :: front, rfl, by rw [List.map_cons, same]⟩
        · rintro ⟨_ | ⟨d, front⟩, split, lower⟩
          · cases lower
          · rw [List.cons_append, List.cons.injEq] at split
            exact ⟨front, split.2, (List.cons.inj lower).2⟩
      · next other =>
        refine ⟨nofun, ?_⟩
        rintro ⟨_ | ⟨d, front⟩, split, lower⟩
        · cases lower
        · rw [List.cons_append, List.cons.injEq] at split
          exact absurd (split.1 ▸ (List.cons.inj lower).1) other

theorem trim_of_free {s : List Char} (free : ∀ c ∈ s, Text.isBlank c = false) :
    Text.trim s = s := by
  have kept : ∀ l : List Char, (∀ c ∈ l, Text.isBlank c = false) →
      l.dropWhile Text.isBlank = l := by
    rintro (_ | ⟨c, l⟩) free
    · rfl
    · rw [List.dropWhile_cons, free c List.mem_cons_self, if_neg Bool.false_ne_true]
  rw [Text.trim, kept s free, kept _ fun c member => free c (List.mem_reverse.1 member),
    List.reverse_reverse]

theorem toLower_ne_dot {c : Char} (other : c ≠ '.') : c.toLower ≠ '.' := by
  unfold Char.toLower
  split
  · next upper =>
    intro dot
    have low : 65 ≤ c.val.toNat := UInt32.le_iff_toNat_le.1 upper.1
    have high : c.val.toNat ≤ 90 := UInt32.le_iff_toNat_le.1 upper.2
    have moved : (c.val.toNat + 32) % 2 ^ 32 = 46 := congrArg (fun c => c.val.toNat) dot
    omega
  · exact other

/-- A plain name with the marker stands for what follows it, unless nothing does. -/
theorem key?_of_marked {name : String} (plain : IsPlain name) {front rest : List Char}
    (split : name.toList = front ++ rest) (marked : front.map Char.toLower = marker.toList) :
    key? name = if rest = [] then none else some [rest.map Char.toLower] := by
  have part : ∀ c ∈ rest, c ≠ '.' ∧ Text.isBlank c = false := fun c member =>
    plain c (split ▸ List.mem_append_right front member)
  have undotted : '.' ∉ rest.map Char.toLower := by
    intro dot
    obtain ⟨c, member, lower⟩ := List.mem_map.1 dot
    exact toLower_ne_dot (part c member).1 lower
  have dropped : dropMarker marker.toList (Text.trim name.toList) = some rest := by
    rw [trim_of_free fun c member => (plain c member).2]
    exact dropMarker_eq_some_iff.2 ⟨front, split, marked⟩
  have trimmed := trim_of_free fun c member => (part c member).2
  rw [key?, dropped, Option.bind_eq_bind, Option.bind_some, trimmed,
    Text.fields_of_not_mem undotted]
  cases rest <;> rfl

theorem key?_eq_some_iff {name : String} (plain : IsPlain name) {parts : List (List Char)} :
    key? name = some parts ↔
      ∃ key ≠ [], parts = [key] ∧ lowered name = marker.toList ++ key := by
  constructor
  · intro found
    cases dropped : dropMarker marker.toList (Text.trim name.toList) with
    | none => rw [key?, dropped] at found; cases found
    | some rest =>
      rw [trim_of_free fun c member => (plain c member).2] at dropped
      obtain ⟨front, split, marked⟩ := dropMarker_eq_some_iff.1 dropped
      rw [key?_of_marked plain split marked] at found
      split at found
      · cases found
      · next something =>
        refine ⟨rest.map Char.toLower, by simpa using something, (Option.some.inj found).symm, ?_⟩
        rw [lowered, split, List.map_append, marked]
  · rintro ⟨key, something, rfl, spelled⟩
    obtain ⟨front, rest, split, marked, rfl⟩ := List.map_eq_append_iff.1 spelled
    rw [key?_of_marked plain split marked, if_neg fun none => something (by rw [none]; rfl)]

/-- The layer of variables with plain names has for a key what the last variable says whose name is
the marker and the key, in whatever case. -/
theorem layer_lookup {environment : List (String × String)}
    (plain : ∀ v ∈ environment, IsPlain v.1) {key : String} (something : key ≠ "") :
    (layer environment).lookup key =
      (environment.reverse.find? fun v => lowered v.1 = marker.toList ++ key.toList).map
        fun v => value v.2 := by
  rw [layer, ← List.filterMap_reverse]
  have each : ∀ v ∈ environment.reverse, IsPlain v.1 := fun v member =>
    plain v (List.mem_reverse.1 member)
  generalize environment.reverse = latest at each
  induction latest with
  | nil => rfl
  | cons v rest ih =>
    have later := ih fun w member => each w (List.mem_cons_of_mem v member)
    have simple := @key?_eq_some_iff v.1 (each v List.mem_cons_self)
    rw [List.filterMap_cons, List.find?_cons]
    by_cases named : lowered v.1 = marker.toList ++ key.toList
    · have found := simple.2 ⟨key.toList, by simpa using something, rfl, named⟩
      simp [setting?, found, named]
    · rw [decide_eq_false named, ← later]
      cases found : key? v.1 with
      | none => simp [setting?, found]
      | some parts =>
        obtain ⟨other, -, rfl, spelled⟩ := simple.1 found
        have differs : (key == String.ofList other) = false := by
          rw [beq_eq_false_iff_ne]
          rintro rfl
          exact named (by simpa using spelled)
        have speaks : setting? v.1 v.2 = some (String.ofList other, value v.2) := by
          rw [setting?, found]
        rw [speaks]
        dsimp only
        rw [List.lookup_cons, differs]

end Environment

/-- The value that wins: that of the environment, else of the JSON file, else of the TOML file, else
the default. -/
def Layer.winning (environment json toml : Layer) (key : String) : Setting :=
  match environment.lookup key, json.lookup key, toml.lookup key with
  | some value, _, _ => value
  | none, some value, _ => value
  | none, none, some value => value
  | none, none, none => Settings.defaultFor key

theorem Layer.find?_three (environment json toml : Layer) (key : String) :
    find? [environment, json, toml] key =
      (environment.lookup key).or ((json.lookup key).or (toml.lookup key)) := by
  rw [find?, List.findSome?_cons, List.findSome?_cons, List.findSome?_cons, List.findSome?_nil]
  cases environment.lookup key <;> cases json.lookup key <;> cases toml.lookup key <;> rfl

theorem Layer.find?_getD (environment json toml : Layer) (key : String) :
    (find? [environment, json, toml] key).getD (Settings.defaultFor key) =
      winning environment json toml key := by
  rw [find?_three, winning]
  cases environment.lookup key <;> cases json.lookup key <;> cases toml.lookup key <;> rfl

namespace Settings

theorem load_eq {s : Sources} {json toml : Layer}
    (readsJson : Sources.fileLayer Layer.ofJson? s.json = .ok json)
    (readsToml : Sources.fileLayer Toml.layer? s.toml = .ok toml) :
    load s = ofValues (Layer.find? [Environment.layer s.environment, json, toml]) := by
  rw [load, Sources.layers, readsJson, readsToml]
  rfl

theorem filled_find? (environment json toml : Layer) :
    filled (Layer.find? [environment, json, toml]) =
      fields.map fun f => (f.1, Layer.winning environment json toml f.1) :=
  List.map_congr_left fun f _ => by rw [Layer.find?_getD]

/-- Where the files can be read, the settings are made of the values that win: they are loaded if
each of these is of the kind of its field and the name is not blank, and what they override does
not matter. What the environment says is what the last variable of a field says. -/
theorem load_by_precedence {s : Sources} {json toml : Layer}
    (readsJson : Sources.fileLayer Layer.ofJson? s.json = .ok json)
    (readsToml : Sources.fileLayer Toml.layer? s.toml = .ok toml) :
    let environment := Environment.layer s.environment
    let value := Layer.winning environment json toml
    ((∃ c, load s = .ok c) ↔ (∀ f ∈ fields, f.2.Admits (value f.1)) ∧
      ∃ name, value "app_name" = .text name ∧ Text.trim name.toList ≠ []) ∧
    (∀ c, load s = .ok c → c.entries = fields.map fun f => (f.1, value f.1)) ∧
    (∀ (s' : Sources) (json' toml' : Layer), s'.environment = s.environment →
      Sources.fileLayer Layer.ofJson? s'.json = .ok json' →
      Sources.fileLayer Toml.layer? s'.toml = .ok toml' →
      (∀ f ∈ fields, environment.lookup f.1 = none → json'.lookup f.1 = json.lookup f.1 ∧
        (json.lookup f.1 = none → toml'.lookup f.1 = toml.lookup f.1)) →
      load s' = load s) ∧
    ((∀ v ∈ s.environment, Environment.IsPlain v.1) → ∀ f ∈ fields,
      environment.lookup f.1 = (s.environment.reverse.find? fun v =>
        Environment.lowered v.1 = Environment.marker.toList ++ f.1.toList).map
          fun v => Environment.value v.2) := by
  intro environment value
  have loaded {c : Settings} : load s = .ok c ↔
      fields.map (fun f => (f.1, value f.1)) = c.entries ∧ Text.trim c.app.toList ≠ [] := by
    rw [load_eq readsJson readsToml, ofValues_eq_ok_iff, filled_find?]
  have appOf {c : Settings} (same : fields.map (fun f => (f.1, value f.1)) = c.entries) :
      value "app_name" = .text c.app :=
    congrArg Prod.snd (List.cons.inj same).1
  refine ⟨?_, fun c made => (loaded.1 made).1.symm, ?_, ?_⟩
  · constructor
    · rintro ⟨c, made⟩
      obtain ⟨same, named⟩ := loaded.1 made
      exact ⟨exists_entries_iff.1 ⟨c, same⟩, c.app, appOf same, named⟩
    · rintro ⟨kinds, name, app, named⟩
      obtain ⟨c, same⟩ := exists_entries_iff.2 kinds
      obtain rfl : c.app = name := Setting.text.inj ((appOf same).symm.trans app)
      exact ⟨c, loaded.2 ⟨same, named⟩⟩
  · intro s' json' toml' sameEnvironment readsJson' readsToml' agree
    rw [load_eq readsJson readsToml, load_eq readsJson' readsToml', sameEnvironment]
    refine ofValues_congr fun f member => ?_
    rw [Layer.find?_three, Layer.find?_three]
    cases spoken : (Environment.layer s.environment).lookup f.1 with
    | some v => rfl
    | none =>
      obtain ⟨sameJson, sameToml⟩ := agree f member spoken
      rw [sameJson]
      cases written : json.lookup f.1 with
      | some v => rfl
      | none => rw [sameToml written]
  · intro plain f member
    refine Environment.layer_lookup plain ?_
    revert f
    decide

theorem fileLayer_of_read {read : List Char → Option Layer} {text : List Char} {layer : Layer}
    (reads : read text = some layer) : Sources.fileLayer read (some text) = .ok layer := by
  rw [Sources.fileLayer, reads]

/-- A flag for the table in the TOML file is overridden by the number in the JSON file. -/
def overridden : Sources where
  toml := some "routing_table = true".toList
  json := some "\x7b\"routing_table\":40\x7d".toList
  environment := [("GWSYNC_APP_NAME", "edge")]

theorem load_overridden :
    Sources.fileLayer Layer.ofJson? overridden.json = .ok [("routing_table", .integer 40)] ∧
    Sources.fileLayer Toml.layer? overridden.toml = .ok [("routing_table", .flag true)] ∧
    ∃ c, load overridden = .ok c ∧ c.entries = [("app_name", .text "edge"),
      ("gateway_priority", .ofWord Placement.defaultPriority), ("inventory_file", .null),
      ("local_node_id", .null), ("read_stdin_feed", .flag true),
      ("routing_table", .integer 40)] := by
  have json : Sources.fileLayer Layer.ofJson? overridden.json =
      .ok [("routing_table", .integer 40)] := fileLayer_of_read (by decide +kernel)
  have toml : Sources.fileLayer Toml.layer? overridden.toml =
      .ok [("routing_table", .flag true)] := fileLayer_of_read (by decide +kernel)
  have spoken : Environment.layer overridden.environment = [("app_name", .text "edge")] := by
    decide +kernel
  obtain ⟨loaded, entries, -, -⟩ := load_by_precedence json toml
  rw [spoken] at loaded entries
  obtain ⟨c, made⟩ := loaded.2 ⟨forall_fields.2 ⟨⟨_, rfl⟩, ⟨_, rfl, by decide⟩, .inl rfl,
    .inl rfl, ⟨_, rfl⟩, ⟨_, rfl, by decide⟩⟩, "edge", rfl, by decide⟩
  exact ⟨json, toml, c, made, entries c made⟩

end Settings
end GatewayRules
