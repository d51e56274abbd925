import MiHarness.Core.Json
import MiHarness.Library.Delimited
import MiHarness.Server.Projection

/-!
# The codec of the event stream

The server writes each event of a run as a frame of text, and `SseParser` reads the text back as it
arrives.  Strings of the client are sequences of UTF-16 code units, and a chunk may end anywhere,
also inside a pair of them.

The loop of `push` cuts the buffer at its blank lines, so by `Delimiter.cut_append` the frames of a
stream do not depend on its chunks (`pushes_eq`).  A text that the server writes has one blank line,
at its end, as the payload is JSON and holds no control character (`StreamItem.ends`).
-/

namespace MiHarness

open Library

/-! ## Strings of the client -/

/-- A string of JavaScript. -/
abbrev JsString := List UInt16

/-- The code units of a character. -/
def utf16 (c : Char) : JsString :=
  if c.toNat < 0x10000 then [c.toNat.toUInt16]
  else [(0xd800 + (c.toNat - 0x10000) / 0x400).toUInt16,
    (0xdc00 + (c.toNat - 0x10000) % 0x400).toUInt16]

/-- The string that a text of the server is. -/
def js (text : String) : JsString := text.toList.flatMap utf16

abbrev lf : UInt16 := 10
abbrev cr : UInt16 := 13

/-! ## The delimiters -/

/-- What follows a match of `\r?\n`. -/
def eatLineEnd : JsString → Option JsString
  | [] => none
  | c :: s =>
      if c = lf then some s
      else if c = cr ∧ s.head? = some lf then some s.tail
      else none

theorem eatLineEnd_cases {s rest : JsString} (eaten : eatLineEnd s = some rest) :
    s = lf :: rest ∨ s = cr :: lf :: rest := by
  cases s with
  | nil => cases eaten
  | cons c s =>
      rw [eatLineEnd] at eaten
      split at eaten
      · rename_i newline
        cases eaten
        exact .inl (newline ▸ rfl)
      · split at eaten
        · rename_i pair
          obtain ⟨rfl, next⟩ := pair
          cases s with
          | nil => cases next
          | cons d s =>
              cases next
              cases eaten
              exact .inr rfl
        · cases eaten

theorem eatLineEnd_lf (s : JsString) : eatLineEnd (lf :: s) = some s := rfl

theorem eatLineEnd_crlf (s : JsString) : eatLineEnd (cr :: lf :: s) = some s := rfl

theorem eatLineEnd_append {s rest : JsString} (t : JsString) (eaten : eatLineEnd s = some rest) :
    eatLineEnd (s ++ t) = some (rest ++ t) := by
  rcases eatLineEnd_cases eaten with rfl | rfl
  · exact eatLineEnd_lf _
  · exact eatLineEnd_crlf _

/-- Where more text completes a line end, there is nothing or a carriage return. -/
theorem eatLineEnd_early {s t : JsString} (miss : eatLineEnd s = none)
    (hit : eatLineEnd (s ++ t) ≠ none) : s = [] ∨ s = [cr] := by
  obtain ⟨rest, eaten⟩ := Option.ne_none_iff_exists'.mp hit
  cases s with
  | nil => exact .inl rfl
  | cons c s =>
      rcases eatLineEnd_cases eaten with same | same
      · cases same
        cases miss
      · cases s with
        | nil => exact .inr (by cases same; rfl)
        | cons d s =>
            cases same
            cases miss

/-- `/\r?\n/`. -/
def lineEnd : Delimiter UInt16 where
  eat := eatLineEnd
  shrinks eaten := by
    rcases eatLineEnd_cases eaten with rfl | rfl
    · exact Nat.lt_succ_self _
    · exact Nat.lt_succ_of_lt (Nat.lt_succ_self _)
  stays := eatLineEnd_append
  early t miss hit := by
    rcases eatLineEnd_early miss hit with same | same
    · cases same
    · cases same
      rfl

/-- What follows a match of `\r?\n\r?\n`. -/
def eatBlankLine (s : JsString) : Option JsString := (eatLineEnd s).bind eatLineEnd

/-- `/\r?\n\r?\n/`. -/
def blankLine : Delimiter UInt16 where
  eat := eatBlankLine
  shrinks eaten := by
    obtain ⟨mid, first, second⟩ := Option.bind_eq_some_iff.mp eaten
    exact (lineEnd.shrinks second).trans (lineEnd.shrinks first)
  stays t eaten := by
    obtain ⟨mid, first, second⟩ := Option.bind_eq_some_iff.mp eaten
    rw [eatBlankLine, eatLineEnd_append t first]
    exact eatLineEnd_append t second
  early {c s} t miss hit := by
    -- the first line end is there, or nothing follows that could be one
    cases first : eatLineEnd (c :: s) with
    | none =>
        have more : eatLineEnd (c :: s ++ t) ≠ none := fun none => hit (by rw [eatBlankLine, none]; rfl)
        rcases eatLineEnd_early first more with same | same
        · cases same
        · cases same
          rfl
    | some rest =>
        have second : eatLineEnd rest = none := by
          rw [eatBlankLine, first] at miss
          exact miss
        have more : eatLineEnd (rest ++ t) ≠ none := by
          rw [eatBlankLine, eatLineEnd_append t first] at hit
          exact hit
        rcases eatLineEnd_early second more with rfl | rfl
        · rcases eatLineEnd_cases first with same | same <;> cases same <;> rfl
        · rcases eatLineEnd_cases first with same | same <;> cases same <;> rfl

/-! ## The parser -/

structure SseFrame where
  event : JsString
  data : JsString
  id : Option JsString
deriving DecidableEq, Repr

/-- The accumulators of the loop over the lines of a frame. -/
structure FrameFields where
  event : JsString := js "message"
  eventId : Option JsString := none
  data : List JsString := []

/-- `indexOf(":")` and the two parts of the line, the value without one leading space. -/
def fieldOf (line : JsString) : JsString × JsString :=
  match line.findIdx? (· = 58) with
  | none => (line, [])
  | some colon =>
      let value := line.drop (colon + 1)
      (line.take colon, if value.head? = some 32 then value.tail else value)

def FrameFields.line (fields : FrameFields) (line : JsString) : FrameFields :=
  if line.head? = some 58 then fields
  else
    let name := (fieldOf line).1
    let value := (fieldOf line).2
    { event := if name = js "event" then value else fields.event
      eventId := if name = js "id" ∧ 0 ∉ value then some value else fields.eventId
      data := if name = js "data" then fields.data ++ [value] else fields.data }

/-- `raw.split(/\r?\n/)`. -/
def splitLines (raw : JsString) : List JsString := (lineEnd.cut raw).1 ++ [(lineEnd.cut raw).2]

def SseFrame.ofFields (fields : FrameFields) : Option SseFrame :=
  if fields.data = [] then none
  else some ⟨fields.event, [lf].intercalate fields.data, fields.eventId⟩

/-- The frame of what stands before a blank line. -/
def frameOf (raw : JsString) : Option SseFrame :=
  SseFrame.ofFields ((splitLines raw).foldl FrameFields.line {})

structure SseParser where
  buffer : JsString := []
deriving DecidableEq, Repr

def SseParser.overflow : String := "事件数据超过客户端上限，需要重新读取快照。"

def SseParser.push (parser : SseParser) (chunk : JsString) :
    Except String (List SseFrame × SseParser) :=
  let cut := blankLine.cut (parser.buffer ++ chunk)
  if cut.2.length > 2000000 then .error overflow
  else .ok (cut.1.filterMap frameOf, { buffer := cut.2 })

/-- The chunks of a connection one after another, and the frames of all of them. -/
def SseParser.pushes (parser : SseParser) : List JsString → Except String (List SseFrame × SseParser)
  | [] => .ok ([], parser)
  | chunk :: chunks => do
      let (frames, parser) ← parser.push chunk
      let (later, parser) ← parser.pushes chunks
      .ok (frames ++ later, parser)

/-! ## The frames of the server -/

/-- The text of a `uuid4`. -/
structure Uuid where
  text : String
  hex : ∀ c ∈ text.toList, c ∈ "0123456789abcdef-".toList

/-- What `Store.events` returns of a durable event. -/
structure DurableEvent where
  eventId : Uuid
  type : EventType
  timestamp : String
  seq : Nat
  data : JsonData

/-- What `publish_ephemeral` writes. -/
structure EphemeralEvent where
  eventId : Uuid
  timestamp : String
  data : JsonData

def DurableEvent.json (runId : Uuid) (e : DurableEvent) : JsonData :=
  .object [("schema_version", .int 1), ("event_id", .string e.eventId.text),
    ("run_id", .string runId.text), ("type", .string e.type.text),
    ("timestamp", .string e.timestamp), ("durability", .string "durable"), ("seq", .int e.seq),
    ("data", e.data)]

def EphemeralEvent.json (runId : Uuid) (e : EphemeralEvent) : JsonData :=
  .object [("schema_version", .int 1), ("event_id", .string e.eventId.text),
    ("run_id", .string runId.text), ("type", .string "message.delta"),
    ("timestamp", .string e.timestamp), ("durability", .string "ephemeral"), ("seq", .null),
    ("data", e.data)]

def DurableEvent.text (runId : Uuid) (e : DurableEvent) : String :=
  "id: " ++ runId.text ++ ":" ++ e.seq.repr ++ "\nevent: " ++ e.type.text ++ "\ndata: " ++
    canonicalJson (e.json runId) ++ "\n\n"

def EphemeralEvent.text (runId : Uuid) (e : EphemeralEvent) : String :=
  "event: message.delta\ndata: " ++ canonicalJson (e.json runId) ++ "\n\n"

/-- What `stream` yields. -/
inductive StreamItem where
  | durable (e : DurableEvent)
  | ephemeral (e : EphemeralEvent)
  | heartbeat

def StreamItem.text (runId : Uuid) : StreamItem → String
  | .durable e => e.text runId
  | .ephemeral e => e.text runId
  | .heartbeat => ": heartbeat\n\n"

/-- What the client is to see of it. -/
def StreamItem.frame (runId : Uuid) : StreamItem → Option SseFrame
  | .durable e => some ⟨js e.type.text, js (canonicalJson (e.json runId)),
      some (js (runId.text ++ ":" ++ e.seq.repr))⟩
  | .ephemeral e => some ⟨js "message.delta", js (canonicalJson (e.json runId)), none⟩
  | .heartbeat => none

/-! ## Lines -/

theorem js_append (a b : String) : js (a ++ b) = js a ++ js b := by
  rw [js, String.toList_append, List.flatMap_append]
  rfl

/-- A text without control characters. -/
def PlainLine (line : JsString) : Prop := ∀ u ∈ line, 0x20 ≤ u.toNat

instance : DecidablePred PlainLine := fun line =>
  List.decidableBAll (fun u : UInt16 => 0x20 ≤ u.toNat) line

namespace PlainLine

theorem append {a b : JsString} (ha : PlainLine a) (hb : PlainLine b) : PlainLine (a ++ b) := by
  intro u hu
  rcases List.mem_append.mp hu with hu | hu
  · exact ha u hu
  · exact hb u hu

theorem utf16 {c : Char} (printed : 0x20 ≤ c.toNat) : PlainLine (utf16 c) := by
  have bound : c.toNat < 0x110000 := by
    rcases c.valid with h | ⟨-, h⟩
    · exact Nat.lt_trans h (by decide)
    · exact h
  intro u hu
  unfold MiHarness.utf16 at hu
  split at hu
  · rw [List.mem_singleton.mp hu, Nat.toUInt16_eq, UInt16.toNat_ofNat']
    omega
  · rcases List.mem_cons.mp hu with rfl | hu
    · rw [Nat.toUInt16_eq, UInt16.toNat_ofNat']
      omega
    · rw [List.mem_singleton.mp hu, Nat.toUInt16_eq, UInt16.toNat_ofNat']
      omega

theorem js {text : String} (printed : Printed text.toList) : PlainLine (js text) := by
  intro u hu
  obtain ⟨c, hc, hu⟩ := List.mem_flatMap.mp hu
  exact utf16 (printed c hc) u hu

theorem head {c : UInt16} {line : JsString} (plain : PlainLine (c :: line)) (s : JsString) :
    eatLineEnd (c :: s) = none := by
  have above := plain c (List.mem_cons_self ..)
  rw [eatLineEnd, if_neg, if_neg]
  · rintro ⟨rfl, -⟩
    exact absurd above (by decide)
  · rintro rfl
    exact absurd above (by decide)

theorem tail {c : UInt16} {line : JsString} (plain : PlainLine (c :: line)) : PlainLine line :=
  fun u hu => plain u (List.mem_cons_of_mem _ hu)

theorem ends {line : JsString} (plain : PlainLine line) : lineEnd.Ends line (line ++ [lf]) := by
  intro t
  induction line with
  | nil => exact search_hit rfl
  | cons c line ih =>
      have later := ih plain.tail
      show search eatLineEnd (c :: (line ++ [lf] ++ t)) = _
      rw [search_miss (plain.head _)]
      exact congrArg (Option.map _) later

theorem unended {line : JsString} (plain : PlainLine line) : search eatLineEnd line = none := by
  induction line with
  | nil => rfl
  | cons c line ih => rw [search_miss (plain.head _), ih plain.tail]; rfl

theorem splitLines {line : JsString} (plain : PlainLine line) : splitLines line = [line] := by
  rw [MiHarness.splitLines, lineEnd.cut_of_none plain.unended]
  rfl

theorem splitLines_cons {line : JsString} (plain : PlainLine line) (rest : JsString) :
    MiHarness.splitLines (line ++ lf :: rest) = line :: MiHarness.splitLines rest := by
  have cuts := plain.ends.cut rest
  rw [List.append_assoc] at cuts
  rw [MiHarness.splitLines, show line ++ lf :: rest = line ++ ([lf] ++ rest) from rfl, cuts]
  rfl

/-- A line that is not the last one of its frame. -/
theorem search_cons {line : JsString} (plain : PlainLine line) {rest : JsString}
    (more : eatLineEnd rest = none) : search eatBlankLine (line ++ lf :: rest) =
      (search eatBlankLine rest).map fun p => (line ++ lf :: p.1, p.2) := by
  induction line with
  | nil => exact search_miss more
  | cons c line ih =>
      have miss : eatBlankLine (c :: (line ++ lf :: rest)) = none := by
        rw [eatBlankLine, plain.head]
        rfl
      rw [List.cons_append, search_miss miss, ih plain.tail, Option.map_map]
      rfl

/-- The last line of a frame. -/
theorem search_last {line : JsString} (plain : PlainLine line) (t : JsString) :
    search eatBlankLine (line ++ lf :: lf :: t) = some (line, t) := by
  induction line with
  | nil => exact search_hit rfl
  | cons c line ih =>
      have miss : eatBlankLine (c :: (line ++ lf :: lf :: t)) = none := by
        rw [eatBlankLine, plain.head]
        rfl
      rw [List.cons_append, search_miss miss, ih plain.tail]
      rfl

end PlainLine

/-! ## Fields -/

/-- The line of a field. -/
def fieldLine (name : String) (value : JsString) : JsString := js name ++ 58 :: 32 :: value

theorem fieldOf_value {name : JsString} (plain : 58 ∉ name) (value : JsString) :
    fieldOf (name ++ 58 :: 32 :: value) = (name, value) := by
  have absent : name.findIdx? (· = 58) = none := by
    refine List.findIdx?_eq_none_iff.mpr fun u hu => decide_eq_false fun same => ?_
    exact plain (same ▸ hu)
  have colon : (name ++ 58 :: 32 :: value).findIdx? (· = 58) = some name.length := by
    rw [List.findIdx?_append, absent, List.findIdx?_cons]
    simp
  rw [fieldOf, colon]
  simp

/-- The three fields of the protocol, written out. -/
theorem js_id : js "id" = [105, 100] := by decide

theorem js_event : js "event" = [101, 118, 101, 110, 116] := by decide

theorem js_data : js "data" = [100, 97, 116, 97] := by decide

theorem FrameFields.line_id (fields : FrameFields) {value : JsString} (plain : PlainLine value) :
    fields.line (fieldLine "id" value) = { fields with eventId := some value } := by
  have zero : 0 ∉ value := fun h => absurd (plain 0 h) (by decide)
  have read : fieldOf (fieldLine "id" value) = (js "id", value) :=
    fieldOf_value (by rw [js_id]; decide) value
  rw [FrameFields.line, if_neg (by rw [fieldLine, js_id]; exact fun h => by cases h), read]
  simp [js_id, js_event, js_data, zero]

theorem FrameFields.line_event (fields : FrameFields) (value : JsString) :
    fields.line (fieldLine "event" value) = { fields with event := value } := by
  have read : fieldOf (fieldLine "event" value) = (js "event", value) :=
    fieldOf_value (by rw [js_event]; decide) value
  rw [FrameFields.line, if_neg (by rw [fieldLine, js_event]; exact fun h => by cases h), read]
  simp [js_id, js_event, js_data]

theorem FrameFields.line_data (fields : FrameFields) (value : JsString) :
    fields.line (fieldLine "data" value) = { fields with data := fields.data ++ [value] } := by
  have read : fieldOf (fieldLine "data" value) = (js "data", value) :=
    fieldOf_value (by rw [js_data]; decide) value
  rw [FrameFields.line, if_neg (by rw [fieldLine, js_data]; exact fun h => by cases h), read]
  simp [js_id, js_event, js_data]

theorem plain_fieldLine {name : String} {value : JsString} (named : Printed name.toList)
    (plain : PlainLine value) : PlainLine (fieldLine name value) := by
  have sep : PlainLine [58, 32] := by decide
  exact (PlainLine.js named).append (PlainLine.append sep plain)

theorem js_canonicalJson (value : JsonData) :
    js (canonicalJson value) = value.dumps.flatMap utf16 := by
  rw [js, canonicalJson, String.toList_ofList]

/-- A payload is one line. -/
theorem plain_canonicalJson (value : JsonData) : PlainLine (js (canonicalJson value)) :=
  .js (canonicalJson_printed value)

theorem plain_id (runId : Uuid) (seq : Nat) : PlainLine (js (runId.text ++ ":" ++ seq.repr)) := by
  have hex : Printed "0123456789abcdef-".toList := by decide
  refine .js ?_
  rw [String.toList_append, String.toList_append]
  exact (Printed.append (fun c hc => hex c (runId.hex c hc)) (by decide)).append (.nat seq)

theorem plain_type (type : EventType) : PlainLine (js type.text) :=
  .js (by cases type <;> decide)

/-! ## The codec -/

/-- What stands before the blank line of an item. -/
def StreamItem.raw (runId : Uuid) : StreamItem → JsString
  | .durable e => fieldLine "id" (js (runId.text ++ ":" ++ e.seq.repr)) ++ lf ::
      (fieldLine "event" (js e.type.text) ++ lf ::
        fieldLine "data" (js (canonicalJson (e.json runId))))
  | .ephemeral e => fieldLine "event" (js "message.delta") ++ lf ::
      fieldLine "data" (js (canonicalJson (e.json runId)))
  | .heartbeat => js ": heartbeat"

theorem js_durable (runId : Uuid) (e : DurableEvent) :
    js (e.text runId) = (StreamItem.durable e).raw runId ++ [lf, lf] := by
  have start : js "id: " = js "id" ++ [58, 32] := by decide
  have second : js "\nevent: " = lf :: js "event" ++ [58, 32] := by decide
  have third : js "\ndata: " = lf :: js "data" ++ [58, 32] := by decide
  have blank : js "\n\n" = [lf, lf] := by decide
  unfold DurableEvent.text StreamItem.raw fieldLine
  -- the texts are named, so that no rewriting looks into them
  generalize "id: " = a, ":" = b, "\nevent: " = c, "\ndata: " = d, "\n\n" = z at *
  simp only [js_append, start, second, third, blank, List.append_assoc,
    List.cons_append, List.nil_append]

theorem js_ephemeral (runId : Uuid) (e : EphemeralEvent) :
    js (e.text runId) = (StreamItem.ephemeral e).raw runId ++ [lf, lf] := by
  have start : js "event: message.delta\ndata: " =
      js "event" ++ 58 :: 32 :: js "message.delta" ++ lf :: js "data" ++ [58, 32] := by
    decide
  have blank : js "\n\n" = [lf, lf] := by decide
  unfold EphemeralEvent.text StreamItem.raw fieldLine
  generalize "event: message.delta\ndata: " = a, "\n\n" = z at *
  simp only [js_append, start, blank, List.append_assoc, List.cons_append, List.nil_append]

theorem StreamItem.js_text (runId : Uuid) (item : StreamItem) :
    js (item.text runId) = item.raw runId ++ [lf, lf] := by
  cases item with
  | durable e => exact js_durable runId e
  | ephemeral e => exact js_ephemeral runId e
  | heartbeat =>
      show js ": heartbeat\n\n" = js ": heartbeat" ++ [lf, lf]
      decide

/-- A line of a field does not look like the end of one. -/
theorem eatLineEnd_event (value rest : JsString) :
    eatLineEnd (fieldLine "event" value ++ rest) = none := by
  rw [fieldLine, js_event]
  rfl

theorem eatLineEnd_data (value rest : JsString) :
    eatLineEnd (fieldLine "data" value ++ rest) = none := by
  rw [fieldLine, js_data]
  rfl

theorem plain_data (value : JsonData) : PlainLine (fieldLine "data" (js (canonicalJson value))) :=
  plain_fieldLine (by decide) (plain_canonicalJson value)

/-- An item is one delimited text. -/
theorem StreamItem.ends (runId : Uuid) (item : StreamItem) :
    blankLine.Ends (item.raw runId) (js (item.text runId)) := by
  intro t
  show search eatBlankLine _ = _
  rw [js_text, List.append_assoc]
  cases item with
  | durable e =>
      have id := plain_fieldLine (by decide : Printed "id".toList) (plain_id runId e.seq)
      have event := plain_fieldLine (by decide : Printed "event".toList) (plain_type e.type)
      have last := (plain_data (e.json runId)).search_last t
      have two := event.search_cons (eatLineEnd_data (js (canonicalJson (e.json runId))) (lf :: lf :: t))
      have three := id.search_cons (eatLineEnd_event (js e.type.text)
        (lf :: (fieldLine "data" (js (canonicalJson (e.json runId))) ++ lf :: lf :: t)))
      rw [last] at two
      rw [two] at three
      simpa [StreamItem.raw] using three
  | ephemeral e =>
      have event := plain_fieldLine (by decide : Printed "event".toList)
        (PlainLine.js (by decide : Printed "message.delta".toList))
      have last := (plain_data (e.json runId)).search_last t
      have two := event.search_cons (eatLineEnd_data (js (canonicalJson (e.json runId))) (lf :: lf :: t))
      rw [last] at two
      simpa [StreamItem.raw] using two
  | heartbeat => exact (PlainLine.js (by decide : Printed ": heartbeat".toList)).search_last t

/-- A frame with one line of data. -/
theorem SseFrame.ofFields_single {fields : FrameFields} {value : JsString}
    (single : fields.data = [value]) :
    SseFrame.ofFields fields = some ⟨fields.event, value, fields.eventId⟩ := by
  rw [SseFrame.ofFields, single, if_neg (List.cons_ne_nil _ _), List.intercalate,
    List.intersperse_singleton, List.flatten_singleton]

/-- The client sees of an item what it is to see. -/
theorem StreamItem.frameOf_raw (runId : Uuid) (item : StreamItem) :
    frameOf (item.raw runId) = item.frame runId := by
  cases item with
  | durable e =>
      have id := plain_fieldLine (by decide : Printed "id".toList) (plain_id runId e.seq)
      have event := plain_fieldLine (by decide : Printed "event".toList) (plain_type e.type)
      rw [frameOf, raw, id.splitLines_cons, event.splitLines_cons, (plain_data _).splitLines]
      simp only [List.foldl_cons, List.foldl_nil, FrameFields.line_id _ (plain_id runId e.seq),
        FrameFields.line_event, FrameFields.line_data]
      exact SseFrame.ofFields_single rfl
  | ephemeral e =>
      have event := plain_fieldLine (by decide : Printed "event".toList)
        (PlainLine.js (by decide : Printed "message.delta".toList))
      rw [frameOf, raw, event.splitLines_cons, (plain_data _).splitLines]
      simp only [List.foldl_cons, List.foldl_nil, FrameFields.line_event, FrameFields.line_data]
      exact SseFrame.ofFields_single rfl
  | heartbeat =>
      have plain := PlainLine.js (by decide : Printed ": heartbeat".toList)
      have comment : (js ": heartbeat").head? = some 58 := by decide
      rw [frameOf, raw, plain.splitLines, List.foldl_cons, List.foldl_nil, FrameFields.line,
        if_pos comment]
      rfl

/-- The frames that the chunks yield are those of the whole text, as long as no tail is too long. -/
theorem SseParser.pushes_eq (chunks : List JsString) (received : JsString)
    (short : ∀ k, (blankLine.cut (received ++ (chunks.take k).flatten)).2.length ≤ 2000000) :
    SseParser.pushes { buffer := (blankLine.cut received).2 } chunks =
      .ok ((blankLine.cut ((blankLine.cut received).2 ++ chunks.flatten)).1.filterMap frameOf,
        { buffer := (blankLine.cut (received ++ chunks.flatten)).2 }) := by
  induction chunks generalizing received with
  | nil =>
      rw [List.flatten_nil, List.append_nil, List.append_nil, blankLine.cut_tail]
      rfl
  | cons chunk chunks ih =>
      have next := congrArg Prod.snd (blankLine.cut_append received chunk)
      have later : ∀ k, (blankLine.cut (received ++ chunk ++ (chunks.take k).flatten)).2.length ≤
          2000000 := by
        intro k
        rw [List.append_assoc]
        exact short (k + 1)
      have room : ¬(blankLine.cut ((blankLine.cut received).2 ++ chunk)).2.length > 2000000 := by
        have here := later 0
        rw [List.take_zero, List.flatten_nil, List.append_nil, next] at here
        exact Nat.not_lt.mpr here
      have rest := ih (received ++ chunk) later
      rw [next] at rest
      have pieces := blankLine.cut_append ((blankLine.cut received).2 ++ chunk) chunks.flatten
      rw [pushes, push]
      dsimp only
      rw [if_neg room]
      show (SseParser.pushes _ chunks >>= _) = _
      rw [rest, List.flatten_cons, ← List.append_assoc, ← List.append_assoc, pieces]
      show Except.ok _ = _
      rw [List.filterMap_append]

/-- Whatever the chunks of the stream are, the client sees the frames of the items in their order. -/
theorem stream_parsed (runId : Uuid) (items : List StreamItem) (chunks : List JsString)
    (cut : chunks.flatten = (items.map fun item => js (item.text runId)).flatten)
    (short : ∀ k tail, Unterminated (items.map fun item => js (item.text runId))
      (chunks.take k).flatten tail → tail.length ≤ 2000000) :
    SseParser.pushes {} chunks = .ok (items.filterMap (StreamItem.frame runId), {}) := by
  have ends := StreamItem.ends runId
  have whole := Delimiter.cut_texts ends items
  have room : ∀ k, (blankLine.cut (([] : JsString) ++ (chunks.take k).flatten)).2.length ≤
      2000000 := by
    intro k
    have inside : (chunks.take k).flatten <+: (items.map fun item => js (item.text runId)).flatten :=
      cut ▸ (List.take_prefix k chunks).flatten
    obtain ⟨done, rest, tail, rfl, received, next, cuts⟩ := Delimiter.cut_prefix ends inside
    rw [List.nil_append, cuts]
    exact short k tail ⟨_, _, List.map_append, received, next⟩
  have run := SseParser.pushes_eq chunks [] room
  rw [blankLine.cut_of_none rfl, List.nil_append, cut, whole] at run
  rw [run, List.filterMap_map]
  refine congrArg (fun frames => Except.ok (frames, ({} : SseParser))) ?_
  exact List.filterMap_congr fun item _ => item.frameOf_raw runId

/-! ## A stream that arrives one code unit at a time -/

namespace Sample

def streamedRun : Uuid where
  text := "6f1c2d34-0000-4000-8000-0123456789ab"
  hex := @of_decide_eq_true _ (List.decidableBAll _ _) (by decide)

/-- A message, a heartbeat and a delta, with line ends and a pair of code units in the payloads. -/
def streamed : List StreamItem :=
  [.durable ⟨streamedRun, .messageCommitted, "2026-01-01T00:00:00.000Z", 1,
      .object [("role", .string "user"), ("parts", .array [.string "a\n\nb\r\n"])]⟩,
    .heartbeat,
    .ephemeral ⟨streamedRun, "2026-01-01T00:00:01.000Z", .object [("text", .string "😀")]⟩]

end Sample

theorem stream_parsed_units : SseParser.pushes {}
    ((Sample.streamed.map fun item => js (item.text Sample.streamedRun)).flatten.map fun u => [u]) =
      .ok (Sample.streamed.filterMap (StreamItem.frame Sample.streamedRun), {}) := by
  have units : ∀ text : JsString, (text.map fun u => [u]).flatten = text := by
    intro text
    induction text with
    | nil => rfl
    | cons u text ih => exact congrArg (u :: ·) ih
  have length : (Sample.streamed.map fun item => js (item.text Sample.streamedRun)).flatten.length ≤
      2000000 := by
    simp only [Sample.streamed, List.map, StreamItem.js_text, StreamItem.raw, js_canonicalJson]
    decide +kernel
  refine stream_parsed _ _ _ (units _) fun k tail cut => ?_
  obtain ⟨done, rest, -, received, -⟩ := cut
  have inside := (List.take_prefix k
    ((Sample.streamed.map fun item => js (item.text Sample.streamedRun)).flatten.map fun u =>
      [u])).flatten.length_le
  rw [units, received, List.length_append] at inside
  exact (Nat.le_add_left _ _).trans (inside.trans length)

end MiHarness
