import Mathlib
import NodeConfig.Log.Line
import NodeConfig.Proofs.Json.Write
import NodeConfig.Proofs.Schema

namespace NodeConfig

/-- A number has the 64 bits that are read back exactly. -/
def FieldValue.Small : FieldValue → Prop
  | .int n => n < pow2 64
  | _ => True

/-- Fields do not take the place of one another, or of the message, and their numbers are small. -/
structure Event.WellFormed (e : Event) : Prop where
  distinct : ("message" :: e.fields.map Prod.fst).Nodup
  small : ∀ f ∈ e.fields, f.2.Small

namespace Json

def OneLine (s : String) : Prop := 0x0A ∉ Utf8.ofString s

variable {s t : String} {ms : List (String × Json)}

theorem oneLine_append (hs : OneLine s) (ht : OneLine t) : OneLine (s ++ t) := by
  rw [OneLine, Utf8.ofString_append, List.mem_append]
  exact not_or.2 ⟨hs, ht⟩

/-- A line break in a text is escaped like every control. -/
theorem oneLine_escape (c : Char) : OneLine (escape c) := by
  unfold escape
  split
  case h_8 _ _ _ _ hbreak _ _ =>
    split
    · next hcontrol =>
      have hunit : ∀ n < 0x20, OneLine ("\\u" ++ hex4 n) := by
        unfold OneLine
        decide
      exact hunit _ hcontrol
    · intro hmem
      have hc : Utf8.ofString (String.singleton c) = Utf8.encodeChar c := by
        simp [Utf8.ofString, Utf8.encode]
      rw [hc] at hmem
      have hcode : (0x0A : UInt8).toNat = c.toNat := Utf8.toNat_of_mem_encodeChar hmem (by decide)
      exact hbreak (Char.toNat_inj.1 hcode.symm)
  -- The other escapes are fixed texts.
  all_goals
    unfold OneLine
    decide

theorem oneLine_quote (s : String) : OneLine (quote s) := by
  have hquote : OneLine "\"" := by
    unfold OneLine
    decide
  have hbody : OneLine (String.join (s.toList.map escape)) := by
    rw [OneLine, Utf8.ofString_join]
    intro hmem
    obtain ⟨t, ht, hmem⟩ := List.mem_flatMap.1 hmem
    obtain ⟨c, -, rfl⟩ := List.mem_map.1 ht
    exact oneLine_escape c hmem
  exact oneLine_append (oneLine_append hquote hbody) hquote

theorem oneLine_nat (n : ℕ) : OneLine (JsonNumber.int n).text := by
  obtain ⟨⟨-, hdigits⟩, -⟩ := repr_digits n
  intro hmem
  have hdigit : isDigit 0x0A = true := hdigits _ hmem
  exact absurd hdigit (by decide)

theorem oneLine_commaSeparated {ts : List String} (h : ∀ t ∈ ts, OneLine t) :
    OneLine (commaSeparated ts) := by
  have hcomma : OneLine "," := by
    unfold OneLine
    decide
  induction ts with
  | nil => exact List.not_mem_nil
  | cons t ts ih =>
    cases ts with
    | nil => exact h t List.mem_cons_self
    | cons u ts =>
      have hrest := ih fun t ht => h t (List.mem_cons_of_mem _ ht)
      exact oneLine_append (oneLine_append (h t List.mem_cons_self) hcomma) hrest

theorem oneLine_object (h : ∀ m ∈ ms, OneLine m.2.compact) : OneLine (object ms).compact := by
  have hsigns : OneLine "\x7b" ∧ OneLine ":" ∧ OneLine "\x7d" := by
    unfold OneLine
    decide
  obtain ⟨hopen, hcolon, hclose⟩ := hsigns
  rw [compact, compactMembers_eq]
  refine oneLine_append (oneLine_append hopen (oneLine_commaSeparated ?_)) hclose
  intro t ht
  obtain ⟨m, hm, rfl⟩ := List.mem_map.1 ht
  exact oneLine_append (oneLine_append (oneLine_quote m.1) hcolon) (h m hm)

/-- A member whose name no other has is the one that is read. -/
theorem lastNamed_of_mem {name : String} {v : Json} (h : (ms.map Prod.fst).Nodup)
    (hm : (name, v) ∈ ms) : lastNamed name ms = some v := by
  cases hlast : lastNamed name ms with
  | none =>
    rw [lastNamed_eq_none_iff] at hlast
    exact absurd (List.mem_map_of_mem hm) hlast
  | some w =>
    have heq := List.inj_on_of_nodup_map h hm (mem_of_lastNamed hlast) rfl
    rw [(Prod.mk.inj heq).2]

/-- A member of an object as it is written, if no other has its name, is there with its meaning. -/
theorem member?_meaning {name : String} {v : Json} (h : (ms.map Prod.fst).Nodup)
    (hm : (name, v) ∈ ms) : (object ms).meaning.member? name = some v.meaning := by
  rw [meaning_object, member?_insertMembers, lastNamed_map, lastNamed_of_mem h hm]
  rfl

theorem member?_meaning_none {name : String} (h : name ∉ ms.map Prod.fst) :
    (object ms).meaning.member? name = none := by
  rw [meaning_object, member?_insertMembers, lastNamed_map, lastNamed_eq_none_iff.2 h]
  rfl

end Json

namespace Log

open Json

variable {e : Event} {v : FieldValue}

def jsonText (time : String) (e : Event) : Bytes := Utf8.ofString (jsonEvent time e).compact

/-- All that an event says can be told from a value: its members and those of its fields, with no
other field among them. -/
structure Tells (time : String) (e : Event) (j : Json) : Prop where
  isObject : ∃ ms, j = .object ms
  timestamp : j.member? "timestamp" = some (.string time)
  level : j.member? "level" = some (.string e.level.name)
  target : j.member? "target" = some (.string e.target)
  fields : ∃ fields, j.member? "fields" = some fields ∧
    fields.member? "message" = some (.string e.message) ∧
    (∀ f ∈ e.fields, fields.member? f.1 = some (jsonValue f.2)) ∧
    ∀ name, name ≠ "message" → name ∉ e.fields.map Prod.fst → fields.member? name = none

theorem scalar_jsonValue (h : v.Small) :
    Scalar (Utf8.ofString (jsonValue v).compact) (jsonValue v) := by
  cases v with
  | shown s => exact .string (stringText_quote s)
  | quoted s => exact .string (stringText_quote s)
  | int n =>
    have hn : n < 2 ^ 64 := h
    exact scalar_int (by omega) (by exact_mod_cast hn)
  | bool b =>
    cases b with
    | false => exact .falseWord
    | true => exact .trueWord

theorem oneLine_jsonValue (v : FieldValue) : OneLine (jsonValue v).compact := by
  cases v with
  | shown s => exact oneLine_quote s
  | quoted s => exact oneLine_quote s
  | int n => exact oneLine_nat n
  | bool b =>
    unfold OneLine
    cases b <;> decide

/-- The members of an event's fields, the message before all others. -/
def fieldMembers (e : Event) : List (String × Json) :=
  ("message", .string e.message) :: e.fields.map fun f => (f.1, jsonValue f.2)

theorem names_fieldMembers (e : Event) :
    (fieldMembers e).map Prod.fst = "message" :: e.fields.map Prod.fst := by
  rw [fieldMembers, List.map_cons, List.map_map]
  rfl

theorem mem_fieldMembers {m : String × Json} (hm : m ∈ fieldMembers e) :
    m = ("message", .string e.message) ∨ ∃ f ∈ e.fields, m = (f.1, jsonValue f.2) := by
  rcases List.mem_cons.1 hm with rfl | hm
  · exact .inl rfl
  · obtain ⟨f, hf, rfl⟩ := List.mem_map.1 hm
    exact .inr ⟨f, hf, rfl⟩

def eventMembers (time : String) (e : Event) : List (String × Json) :=
  [("timestamp", .string time), ("level", .string e.level.name),
    ("fields", .object (fieldMembers e)), ("target", .string e.target)]

theorem jsonEvent_eq (time : String) (e : Event) :
    jsonEvent time e = .object (eventMembers time e) := rfl

theorem mem_eventMembers {time : String} {m : String × Json} (hm : m ∈ eventMembers time e) :
    (∃ s, m.2 = .string s) ∨ m.2 = .object (fieldMembers e) := by
  simp only [eventMembers, List.mem_cons, List.not_mem_nil, or_false] at hm
  rcases hm with rfl | rfl | rfl | rfl
  · exact .inl ⟨_, rfl⟩
  · exact .inl ⟨_, rfl⟩
  · exact .inr rfl
  · exact .inl ⟨_, rfl⟩

theorem oneLine_jsonEvent (time : String) (e : Event) : OneLine (jsonEvent time e).compact := by
  have hfields : OneLine (object (fieldMembers e)).compact := by
    apply oneLine_object
    intro m hm
    rcases mem_fieldMembers hm with rfl | ⟨f, -, rfl⟩
    · exact oneLine_quote _
    · exact oneLine_jsonValue f.2
  rw [jsonEvent_eq]
  apply oneLine_object
  intro m hm
  obtain ⟨s, hs⟩ | hobject := mem_eventMembers hm
  · rw [hs]
    exact oneLine_quote s
  · rw [hobject]
    exact hfields

theorem isDocument_jsonText (time : String) (h : e.WellFormed) :
    IsDocument (jsonText time e) (jsonEvent time e) := by
  have hstring : ∀ depth s, Written depth (Utf8.ofString (Json.string s).compact) (.string s) :=
    fun _ s => written_scalar (.string (stringText_quote s))
  have hfields : Written 126 (Utf8.ofString (object (fieldMembers e)).compact)
      (.object (fieldMembers e)) := by
    apply written_object
    intro m hm
    rcases mem_fieldMembers hm with rfl | ⟨f, hf, rfl⟩
    · exact hstring 125 e.message
    · exact written_scalar (scalar_jsonValue (h.small f hf))
  apply padded_self
  rw [jsonText, jsonEvent_eq]
  apply written_object
  intro m hm
  obtain ⟨s, hs⟩ | hobject := mem_eventMembers hm
  · rw [hs]
    exact hstring 126 s
  · rw [hobject]
    exact hfields

theorem tells_meaning (time : String) (h : e.WellFormed) :
    Tells time e (jsonEvent time e).meaning := by
  have hnames : ((eventMembers time e).map Prod.fst).Nodup := by
    show ["timestamp", "level", "fields", "target"].Nodup
    decide
  have hfields : ((fieldMembers e).map Prod.fst).Nodup := by
    rw [names_fieldMembers]
    exact h.distinct
  have hmember : ∀ name v, (name, v) ∈ eventMembers time e →
      (jsonEvent time e).meaning.member? name = some v.meaning :=
    fun _ _ hm => member?_meaning hnames hm
  refine ⟨⟨_, meaning_object _⟩, hmember _ (.string time) (by simp [eventMembers]),
    hmember _ (.string e.level.name) (by simp [eventMembers]),
    hmember _ (.string e.target) (by simp [eventMembers]), (object (fieldMembers e)).meaning,
    hmember _ _ (by simp [eventMembers]), member?_meaning hfields List.mem_cons_self, ?_, ?_⟩
  · intro f hf
    have hmem : (f.1, jsonValue f.2) ∈ fieldMembers e :=
      List.mem_cons_of_mem _ (List.mem_map_of_mem hf)
    rw [member?_meaning hfields hmem, (scalar_jsonValue (h.small f hf)).meaning_eq]
  · intro name hmessage hname
    apply member?_meaning_none
    rw [names_fieldMembers, List.mem_cons, not_or]
    exact ⟨hmessage, hname⟩

/-- What is read from the line of an event tells the event. -/
theorem exists_parse_jsonText (time : String) (h : e.WellFormed) :
    ∃ j, Json.parse (jsonText time e) = .ok j ∧ Tells time e j :=
  ⟨_, parse_eq_ok_iff_document.2 ⟨_, isDocument_jsonText time h, rfl⟩, tells_meaning time h⟩

/-- The lines of events split into one piece for each, and nothing after the last. -/
theorem splitOn_lines {o : LogOptions} (ho : o.format = .json) (time : String) (es : List Event) :
    (es.flatMap fun e => Utf8.ofString (line o time e)).splitOn 0x0A =
      es.map (jsonText time) ++ [[]] := by
  induction es with
  | nil => rfl
  | cons e es ih =>
    have hline : Utf8.ofString (line o time e) = jsonText time e ++ [0x0A] := by
      rw [line, ho]
      exact Utf8.ofString_append _ _
    have hbreak : 0x0A ∉ jsonText time e := oneLine_jsonEvent time e
    rw [List.flatMap_cons, hline, List.append_assoc, List.singleton_append,
      List.splitOn_append_cons_self_of_not_mem hbreak, ih]
    rfl

end Log

end NodeConfig
