import AgenticPlatform.Streaming
import AgenticPlatform.Streams.Utf8
import AgenticPlatform.Streams.Framing

/-! Server-sent events on the wire: the gateway's frames, and the console's reader that takes them
from the chunks of the response in which they arrive. -/
namespace AgenticPlatform
open Streams (Emitter Decoder decode utf8 splitLines splitBlocks prepend)
open Streams.Emitter

/-- The four hexadecimal digits of a code unit. -/
def hex4 (n : Nat) : List Char :=
  [Nat.digitChar (n / 4096 % 16), Nat.digitChar (n / 256 % 16), Nat.digitChar (n / 16 % 16),
    Nat.digitChar (n % 16)]

/-- The characters with an escape of their own. -/
def shortEscapes : List (Char × Char) :=
  [('"', '"'), ('\\', '\\'), ('\n', 'n'), ('\r', 'r'), ('\t', 't'), ('\x08', 'b'), ('\x0c', 'f')]

/-- A character inside the quotes, where everything beyond printable ASCII is escaped. -/
def escapeChar (c : Char) : List Char :=
  match shortEscapes.find? fun escape => escape.1 = c with
  | some escape => ['\\', escape.2]
  | none =>
      if 32 ≤ c.toNat ∧ c.toNat ≤ 126 then [c]
      else if c.toNat < 0x10000 then '\\' :: 'u' :: hex4 c.toNat
      else
        let n := c.toNat - 0x10000
        '\\' :: 'u' :: hex4 (0xD800 + n / 0x400) ++ '\\' :: 'u' :: hex4 (0xDC00 + n % 0x400)

def quoted (s : String) : List Char := '"' :: s.toList.flatMap escapeChar ++ ['"']

mutual

/-- The text of `json.dumps(v)`; `float` is `float.__repr__`. -/
def dumpsText (float : Rat → String) : Json → List Char
  | .null => "null".toList
  | .bool b => (if b then "true" else "false").toList
  | .int n => (toString n).toList
  | .float q => (float q).toList
  | .str s => quoted s
  | .arr xs => '[' :: dumpsItems float xs ++ [']']
  | .obj kvs => '\x7b' :: dumpsFields float kvs ++ ['\x7d']

def dumpsItems (float : Rat → String) : List Json → List Char
  | [] => []
  | [v] => dumpsText float v
  | v :: rest => dumpsText float v ++ ", ".toList ++ dumpsItems float rest

def dumpsFields (float : Rat → String) : List (String × Json) → List Char
  | [] => []
  | [(k, v)] => quoted k ++ ": ".toList ++ dumpsText float v
  | (k, v) :: rest => quoted k ++ ": ".toList ++ dumpsText float v ++ ", ".toList ++
    dumpsFields float rest

end

/-- `json.dumps(v)`. -/
def jsonDumps (float : Rat → String) (v : Json) : String := String.ofList (dumpsText float v)

def formatSseMessage (float : Rat → String) (event : ExecutionStreamEvent) : String :=
  if event.eventType = .heartbeat then ": heartbeat\n\n"
  else "event: " ++ event.eventType.value ++ "\ndata: " ++ jsonDumps float
    (.obj event.modelDump) ++ "\n\n"

/-- White space and line terminators, as `trim` removes them. -/
def isJsSpace (c : Char) : Bool :=
  let n := c.toNat
  (9 ≤ n && n ≤ 13) || n = 0x20 || n = 0xA0 || n = 0x1680 || (0x2000 ≤ n && n ≤ 0x200A) || n =
    0x2028 ||
    n = 0x2029 || n = 0x202F || n = 0x205F || n = 0x3000 || n = 0xFEFF

/-- `block.trim()`. -/
def jsTrim (block : List Char) : List Char :=
  ((block.dropWhile isJsSpace).reverse.dropWhile isJsSpace).reverse

/-- `parse` is `JSON.parse`, where it does not throw. -/
def parseSseBlock (parse : String → Option Json) (block : List Char) : Option Json :=
  let trimmed := jsTrim block
  if trimmed.isEmpty || trimmed.head? = some ':' then none
  else
    match (splitLines '\n' trimmed).find? fun ln => "data: ".toList.isPrefixOf ln with
    | none => none
    | some dataLine => parse (String.ofList (dataLine.drop 6))

/-- What the reader keeps between two reads. -/
structure ReaderState where
  decoder : Decoder
  buffer : List Char

/-- One `reader.read()` of `runStream`, with the values passed to `onEvent`. -/
def readChunk (parse : String → Option Json) (chunk : List UInt8) :
    Emitter ReaderState Json := fun s =>
  let (decoder, text) := decode chunk s.decoder
  let parts := splitBlocks '\n' (s.buffer ++ text)
  (⟨decoder, parts.getLastD []⟩, parts.dropLast.filterMap (parseSseBlock parse))

/-- The values that `runStream` passes to `onEvent`. -/
def runStream (parse : String → Option Json) (chunks : List (List UInt8)) : List Json :=
  (each (readChunk parse) chunks ⟨.fresh, []⟩).2

/-- A printable ASCII character. -/
def Printable (c : Char) : Prop := 32 ≤ c.toNat ∧ c.toNat ≤ 126

instance (c : Char) : Decidable (Printable c) := inferInstanceAs (Decidable (_ ∧ _))

/-- A property of the characters of a literal, by evaluation. -/
theorem forall_of_all {P : Char → Prop} [DecidablePred P] {cs : List Char}
    (all : (cs.all fun c => decide (P c)) = true) : ∀ c ∈ cs, P c :=
  fun c member => of_decide_eq_true (List.all_eq_true.mp all c member)

theorem hex4_printable {n : Nat} : ∀ c ∈ hex4 n, Printable c := by
  have digits : ∀ k < 16, Printable (Nat.digitChar k) := by decide
  intro c member
  simp only [hex4, List.mem_cons, List.not_mem_nil, or_false] at member
  rcases member with rfl | rfl | rfl | rfl
  all_goals exact digits _ (Nat.mod_lt _ (by decide))

theorem escaped_printable {n : Nat} : ∀ c ∈ '\\' :: 'u' :: hex4 n, Printable c :=
  List.forall_mem_cons.mpr ⟨by decide, List.forall_mem_cons.mpr ⟨by decide, hex4_printable⟩⟩

theorem escapeChar_printable {c : Char} : ∀ d ∈ escapeChar c, Printable d := by
  unfold escapeChar
  split
  · next escape found =>
      have listed : shortEscapes.all (fun pair => decide (Printable pair.2)) = true := by decide
      have printable :=
        of_decide_eq_true (List.all_eq_true.mp listed escape (List.mem_of_find?_eq_some found))
      exact List.forall_mem_cons.mpr ⟨by decide, List.forall_mem_singleton.mpr printable⟩
  split
  · next printable => exact List.forall_mem_singleton.mpr printable
  split
  · exact escaped_printable
  · exact List.forall_mem_append.mpr ⟨escaped_printable, escaped_printable⟩

theorem quoted_printable {s : String} : ∀ c ∈ quoted s, Printable c := by
  have quote : ∀ c ∈ ['"'], Printable c := List.forall_mem_singleton.mpr (by decide)
  refine List.forall_mem_append.mpr ⟨List.forall_mem_append.mpr ⟨quote, ?_⟩, quote⟩
  intro c member
  obtain ⟨d, -, escaped⟩ := List.mem_flatMap.mp member
  exact escapeChar_printable c escaped

theorem int_printable {n : Int} : ∀ c ∈ (toString n).toList, Printable c := by
  have digits : ∀ m : Nat, ∀ c ∈ Nat.toDigits 10 m, Printable c := by
    intro m c member
    have digit := Nat.isDigit_of_mem_toDigits (by decide) (by decide) member
    simp only [Char.isDigit, Bool.and_eq_true, decide_eq_true_eq] at digit
    have low : 48 ≤ c.toNat := digit.1
    have high : c.toNat ≤ 57 := digit.2
    exact ⟨by omega, by omega⟩
  rw [Int.toString_eq_repr]
  cases n with
  | ofNat n => simpa [Int.repr] using digits n
  | negSucc n => simpa [Int.repr] using ⟨by decide, digits (n + 1)⟩

/-- `float.__repr__` writes printable ASCII. -/
def FloatsPrintable (float : Rat → String) : Prop := ∀ q, ∀ c ∈ (float q).toList, Printable c

section
variable {float : Rat → String}

mutual

theorem dumpsText_printable (floats : FloatsPrintable float) :
    ∀ v : Json, ∀ c ∈ dumpsText float v, Printable c
  | .null => show ∀ c ∈ "null".toList, Printable c from forall_of_all (by decide)
  | .bool true => show ∀ c ∈ "true".toList, Printable c from forall_of_all (by decide)
  | .bool false => show ∀ c ∈ "false".toList, Printable c from forall_of_all (by decide)
  | .int n => int_printable
  | .float q => floats q
  | .str s => quoted_printable
  | .arr xs => List.forall_mem_append.mpr
      ⟨List.forall_mem_cons.mpr ⟨by decide, dumpsItems_printable floats xs⟩,
        forall_of_all (by decide)⟩
  | .obj kvs => List.forall_mem_append.mpr
      ⟨List.forall_mem_cons.mpr ⟨by decide, dumpsFields_printable floats kvs⟩,
        forall_of_all (by decide)⟩

theorem dumpsItems_printable (floats : FloatsPrintable float) :
    ∀ xs : List Json, ∀ c ∈ dumpsItems float xs, Printable c
  | [] => List.forall_mem_nil _
  | [v] => dumpsText_printable floats v
  | v :: w :: rest => List.forall_mem_append.mpr
      ⟨List.forall_mem_append.mpr ⟨dumpsText_printable floats v, forall_of_all (by decide)⟩,
        dumpsItems_printable floats (w :: rest)⟩

theorem dumpsFields_printable (floats : FloatsPrintable float) :
    ∀ kvs : List (String × Json), ∀ c ∈ dumpsFields float kvs, Printable c
  | [] => List.forall_mem_nil _
  | [(k, v)] => List.forall_mem_append.mpr
      ⟨List.forall_mem_append.mpr ⟨quoted_printable, forall_of_all (by decide)⟩,
        dumpsText_printable floats v⟩
  | (k, v) :: kv :: rest => List.forall_mem_append.mpr
      ⟨List.forall_mem_append.mpr
        ⟨List.forall_mem_append.mpr
          ⟨List.forall_mem_append.mpr ⟨quoted_printable, forall_of_all (by decide)⟩,
            dumpsText_printable floats v⟩, forall_of_all (by decide)⟩,
        dumpsFields_printable floats (kv :: rest)⟩

end

/-- No printable character is a line feed. -/
theorem Printable.plain {c : Char} (printable : Printable c) : c ≠ '\n' := by
  rintro rfl
  exact absurd printable (by decide)

/-- A message without the blank line that ends it. -/
def sseFrame (float : Rat → String) (event : ExecutionStreamEvent) : List Char :=
  if event.eventType = .heartbeat then ": heartbeat".toList
  else ("event: ".toList ++ event.eventType.value.toList) ++
    '\n' :: ("data: ".toList ++ dumpsText float (.obj event.modelDump))

theorem formatSseMessage_toList {event : ExecutionStreamEvent} :
    (formatSseMessage float event).toList = sseFrame float event ++ ['\n', '\n'] := by
  unfold formatSseMessage sseFrame
  split
  · decide
  · simp [jsonDumps]

theorem eventType_printable (etype : ExecutionStreamEventType) :
    ∀ c ∈ etype.value.toList, Printable c := by
  cases etype
  all_goals exact forall_of_all (by decide)

theorem plain_of_printable {line : List Char} (printable : ∀ c ∈ line, Printable c) :
    ∀ c ∈ line, c ≠ '\n' :=
  fun c member => (printable c member).plain

theorem eventLine_printable (event : ExecutionStreamEvent) :
    ∀ c ∈ "event: ".toList ++ event.eventType.value.toList, Printable c :=
  List.forall_mem_append.mpr ⟨forall_of_all (by decide), eventType_printable _⟩

theorem dataLine_printable (floats : FloatsPrintable float) (event : ExecutionStreamEvent) :
    ∀ c ∈ "data: ".toList ++ dumpsText float (.obj event.modelDump), Printable c :=
  List.forall_mem_append.mpr ⟨forall_of_all (by decide), dumpsText_printable floats _⟩

theorem splitBlocks_frame (floats : FloatsPrintable float) {event : ExecutionStreamEvent}
    {rest : List Char} :
    splitBlocks '\n' (sseFrame float event ++ '\n' :: '\n' :: rest) =
      sseFrame float event :: splitBlocks '\n' rest := by
  unfold sseFrame
  split
  · rw [Streams.splitBlocks_line (forall_of_all (by decide)), Streams.splitBlocks_blank]
    rfl
  · have first := plain_of_printable (eventLine_printable event)
    have second := plain_of_printable (dataLine_printable floats event)
    rw [List.append_assoc, Streams.splitBlocks_line first, List.cons_append,
      Streams.splitBlocks_cons, Streams.splitBlocks_line second, Streams.splitBlocks_blank]
    · simp [prepend]
    · simp

theorem jsTrim_of_solid {c d : Char} {mid : List Char} (head : isJsSpace c = false)
    (last : isJsSpace d = false) :
    jsTrim (c :: (mid ++ [d])) = c :: (mid ++ [d]) := by
  have front : (c :: (mid ++ [d])).dropWhile isJsSpace = c :: (mid ++ [d]) :=
    List.dropWhile_cons_of_neg (by simp [head])
  have back : (c :: (mid ++ [d])).reverse = d :: (c :: mid).reverse := by simp
  rw [jsTrim, front, back, List.dropWhile_cons_of_neg (by simp [last]), ← back,
    List.reverse_reverse]

/-- The two lines of a frame that is no heartbeat. -/
theorem splitLines_frame {first second : List Char} (plain : ∀ c ∈ first, c ≠ '\n')
    (plain' : ∀ c ∈ second, c ≠ '\n') :
    splitLines '\n' (first ++ '\n' :: second) = [first, second] := by
  rw [Streams.splitLines_line plain, Streams.splitLines_newline, ← List.append_nil second,
    Streams.splitLines_line plain']
  simp [prepend, splitLines]

theorem parseSseBlock_frame (floats : FloatsPrintable float) {parse : String → Option Json}
    {event : ExecutionStreamEvent} :
    parseSseBlock parse (sseFrame float event) =
      if event.eventType = .heartbeat then none
        else parse (jsonDumps float (.obj event.modelDump)) := by
  unfold sseFrame
  split
  · have blank : jsTrim ": heartbeat".toList = ": heartbeat".toList := by decide
    simp only [parseSseBlock, blank]
    rfl
  · have trimmed : jsTrim (("event: ".toList ++ event.eventType.value.toList) ++
        '\n' :: ("data: ".toList ++ dumpsText float (.obj event.modelDump))) =
        ("event: ".toList ++ event.eventType.value.toList) ++
          '\n' :: ("data: ".toList ++ dumpsText float (.obj event.modelDump)) := by
      have solid := @jsTrim_of_solid 'e' '\x7d' ("vent: ".toList ++ event.eventType.value.toList ++
        '\n' :: ("data: ".toList ++ '\x7b' :: dumpsFields float event.modelDump)) (by
          decide) (by decide)
      simpa [dumpsText] using solid
    have lines := splitLines_frame (plain_of_printable (eventLine_printable event))
      (plain_of_printable (dataLine_printable floats event))
    simp only [parseSseBlock, trimmed, lines]
    rfl

/-- The messages of these events, one after the other, are cut into their frames. -/
theorem splitBlocks_messages (floats : FloatsPrintable float) {events : List ExecutionStreamEvent} :
    splitBlocks '\n' (events.flatMap fun event => (formatSseMessage float event).toList) =
      events.map (sseFrame float) ++ [[]] := by
  induction events with
  | nil => rfl
  | cons event rest ih =>
      rw [List.flatMap_cons, formatSseMessage_toList, List.append_assoc, List.cons_append,
        List.cons_append, List.nil_append, splitBlocks_frame floats, ih]
      rfl

variable {parse : String → Option Json}

/-- The reader cuts its blocks from the decoded text, whatever the chunks are. -/
theorem each_readChunk {chunks : List (List UInt8)} {decoder : Decoder} {buffer : List Char} :
    ∃ texts : List (List Char), texts.flatten = (decode chunks.flatten decoder).2 ∧
      (each (readChunk parse) chunks ⟨decoder, buffer⟩).2 =
        (each (Streams.assemble '\n') texts buffer).2.filterMap (parseSseBlock parse) := by
  induction chunks generalizing decoder buffer with
  | nil => exact ⟨[], rfl, rfl⟩
  | cons chunk rest ih =>
      set text := (decode chunk decoder).2 with isText
      obtain ⟨texts, decoded, later⟩ := @ih (decode chunk decoder).1
        ((splitBlocks '\n' (buffer ++ text)).getLastD [])
      refine ⟨text :: texts, ?_, ?_⟩
      · rw [List.flatten_cons, List.flatten_cons, Streams.decode_append, andThen_snd, decoded]
      · rw [each, each, andThen_snd, andThen_snd, List.filterMap_append]
        exact congrArg₂ (· ++ ·) rfl later

theorem message_ascii (floats : FloatsPrintable float) (event : ExecutionStreamEvent) :
    ∀ c ∈ (formatSseMessage float event).toList, c.toNat < 128 := by
  have ascii : ∀ {cs : List Char}, (∀ c ∈ cs, Printable c) → ∀ c ∈ cs, c.toNat < 128 :=
    fun printable c member => Nat.lt_of_le_of_lt (printable c member).2 (by decide)
  rw [formatSseMessage_toList]
  refine List.forall_mem_append.mpr ⟨?_, forall_of_all (by decide)⟩
  unfold sseFrame
  split
  · exact forall_of_all (by decide)
  · refine List.forall_mem_append.mpr ⟨ascii (eventLine_printable event), List.forall_mem_cons.mpr
      ⟨by decide, ?_⟩⟩
    exact ascii (dataLine_printable floats event)

/-- The bytes that the gateway sends for these events. -/
def sseBytes (float : Rat → String) (events : List ExecutionStreamEvent) : List UInt8 :=
  events.flatMap fun event => utf8 (formatSseMessage float event).toList

theorem decode_sseBytes (floats : FloatsPrintable float) {events : List ExecutionStreamEvent} :
    (decode (sseBytes float events) .fresh).2 =
      events.flatMap fun event => (formatSseMessage float event).toList := by
  have whole : sseBytes float events =
    utf8 (events.flatMap fun event => (formatSseMessage float event).toList) := by
    simp only [sseBytes, utf8, List.flatMap_assoc]
  have ascii : ∀ c ∈ events.flatMap fun event => (formatSseMessage float event).toList,
    c.toNat < 128 := by
    intro c member
    obtain ⟨event, -, there⟩ := List.mem_flatMap.mp member
    exact message_ascii floats event c there
  obtain ⟨seen, decoded⟩ := Streams.decode_ascii ascii false
  rw [whole]
  exact congrArg Prod.snd decoded

/-- The console's reader passes on the events that are no heartbeats, once each and in order,
however the bytes of the stream are cut into chunks. -/
theorem sse_round_trips (parse : String → Option Json) (float : Rat → String)
    (floats : FloatsPrintable float) (events : List ExecutionStreamEvent)
    (inverts : ∀ event ∈ events, parse (jsonDumps float (.obj event.modelDump)) =
      some (.obj event.modelDump))
    (chunks : List (List UInt8)) (arrive : chunks.flatten = sseBytes float events) :
    runStream parse chunks =
      (events.filter fun event => event.eventType ≠ .heartbeat).map fun event => .obj
        event.modelDump := by
  obtain ⟨texts, decoded, read⟩ := @each_readChunk parse chunks .fresh []
  rw [arrive, decode_sseBytes floats] at decoded
  rw [runStream, read, Streams.each_assemble rfl, List.nil_append, decoded,
    splitBlocks_messages floats, List.dropLast_concat, List.filterMap_map]
  clear read decoded arrive
  induction events with
  | nil => rfl
  | cons event rest ih =>
      have tail := ih fun other member => inverts other (List.mem_cons_of_mem event member)
      rw [List.filterMap_cons, List.filter_cons, Function.comp_apply, parseSseBlock_frame floats]
      by_cases beat : event.eventType = .heartbeat
      · simp only [beat, if_true, ne_eq, not_true_eq_false, decide_false,
          Bool.false_eq_true, if_false]
        exact tail
      · simp only [beat, if_false, inverts event List.mem_cons_self, ne_eq, not_false_eq_true,
          decide_true, if_true, List.map_cons, tail]

end

/-- A trace event whose payload has blank lines and a character beyond ASCII. -/
def spacedEvent : ExecutionStreamEvent :=
  ⟨.traceEvent, ⟨1⟩, 1, 0, [("event_type", .str "note"), ("detail", .str "a\n\ndata: \u00e9")]⟩

theorem sse_round_trips_bytewise : ∃ parse : String → Option Json,
    runStream parse
      ((sseBytes (fun _ => "0.0") [spacedEvent, heartbeatEvent ⟨1⟩ 1 0]).map fun byte => [byte]) =
      [.obj spacedEvent.modelDump] := by
  let parse : String → Option Json := fun s =>
    if s = jsonDumps (fun _ => "0.0") (.obj spacedEvent.modelDump) then some
      (.obj spacedEvent.modelDump)
    else if s = jsonDumps (fun _ => "0.0") (.obj (heartbeatEvent ⟨1⟩ 1 0).modelDump) then
      some (.obj (heartbeatEvent ⟨1⟩ 1 0).modelDump)
    else none
  have digits : ∀ c ∈ "0.0".toList, Printable c := forall_of_all (by decide)
  have floats : FloatsPrintable fun _ => "0.0" := fun _ => digits
  refine ⟨parse, sse_round_trips parse (fun _ => "0.0") floats [spacedEvent, heartbeatEvent
    ⟨1⟩ 1 0] ?_ _ ?_⟩
  · refine List.forall_mem_cons.mpr ⟨if_pos rfl, List.forall_mem_singleton.mpr ?_⟩
    decide +kernel
  · rw [← List.flatMap_def]
    exact List.flatMap_singleton' _

end AgenticPlatform
