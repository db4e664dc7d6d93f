import FragmentMemory.CodeUnits
import FragmentMemory.JsonRpcDispatch

/-! # Message frames

The server writes its answers to an event stream (`sseWrite`, between heartbeats) or to standard output (`stdio`, one
line for each).  The reader of a stream cuts it into lines and those into events; what it reads of a stream, and of
one that breaks off anywhere, is what was written, in order.
-/
namespace FragmentMemory.MessageFrames
open CodeUnits JsonRpcDispatch

/-! ## Lines -/

/-- The lines that end in the text. -/
def linesFrom (line : List ℕ) : List ℕ → List (List ℕ)
  | [] => []
  | unit :: rest => if unit = 10 then line :: linesFrom [] rest else linesFrom (line ++ [unit]) rest

/-- A text without a line end; with no carriage return in it the line feeds are its only line ends. -/
structure Line where
  units : List ℕ
  free : ∀ unit ∈ units, unit ≠ 10 ∧ unit ≠ 13

theorem linesFrom_feed (line rest : List ℕ) : linesFrom line (10 :: rest) = line :: linesFrom [] rest := if_pos rfl

theorem linesFrom_append (line : List ℕ) (text : Line) (rest : List ℕ) :
    linesFrom line (text.units ++ rest) = linesFrom (line ++ text.units) rest := by
  obtain ⟨units, hfree⟩ := text
  induction units generalizing line with
  | nil => rw [List.nil_append, List.append_nil]
  | cons unit units ih =>
    rw [List.forall_mem_cons] at hfree
    have hrest := ih (line ++ [unit]) hfree.2
    rw [List.append_assoc, List.singleton_append] at hrest
    rw [List.cons_append, linesFrom, if_neg hfree.1.1]
    exact hrest

/-- A line is read up to its line feed. -/
theorem linesFrom_line (text : Line) (rest : List ℕ) :
    linesFrom [] (text.units ++ 10 :: rest) = text.units :: linesFrom [] rest := by
  rw [linesFrom_append, List.nil_append, linesFrom_feed]

/-- Of a text that goes on, the lines so far are the first ones. -/
theorem linesFrom_cut (line text more : List ℕ) : linesFrom line text <+: linesFrom line (text ++ more) := by
  induction text generalizing line with
  | nil => exact List.nil_prefix
  | cons unit rest ih =>
    rw [List.cons_append, linesFrom, linesFrom]
    split
    · exact List.cons_prefix_cons.mpr ⟨rfl, ih []⟩
    · exact ih (line ++ [unit])

/-! ## Events -/

structure Event where
  type : List ℕ
  data : List ℕ

/-- The event in progress. -/
structure Pending where
  type : List ℕ := []
  data : List ℕ := []

/-- The units of an ASCII text. -/
def ascii (text : String) : List ℕ := text.toList.map Char.toNat

/-- The name of the field in a line, and its value behind the colon and one blank. -/
def field (line : List ℕ) : List ℕ × List ℕ :=
  let value := (line.dropWhile (· ≠ 58)).tail
  (line.takeWhile (· ≠ 58), if value.head? = some 32 then value.tail else value)

/-- One line of an event stream: an empty one ends the event, one with a colon first is a comment. -/
def Pending.read (pending : Pending) (line : List ℕ) : Pending × Option Event :=
  if line = [] then
    ({}, if pending.data = [] then none
      else some ⟨if pending.type = [] then ascii "message" else pending.type, pending.data.dropLast⟩)
  else if (field line).1 = ascii "event" then ({ pending with type := (field line).2 }, none)
  else if (field line).1 = ascii "data" then ({ pending with data := pending.data ++ (field line).2 ++ [10] }, none)
  else (pending, none)

def readLines : Pending → List (List ℕ) → List Event
  | _, [] => []
  | pending, line :: rest => (pending.read line).2.toList ++ readLines (pending.read line).1 rest

/-- The events of a stream. -/
def readEvents (stream : List ℕ) : List Event := readLines {} (linesFrom [] stream)

theorem readLines_append (pending : Pending) (lines more : List (List ℕ)) :
    readLines pending lines <+: readLines pending (lines ++ more) := by
  induction lines generalizing pending with
  | nil => exact List.nil_prefix
  | cons line lines ih =>
    rw [List.cons_append, readLines, readLines]
    exact (List.prefix_append_right_inj _).mpr (ih _)

/-- Of a stream that breaks off, the events so far are the first ones. -/
theorem readEvents_cut {text stream : List ℕ} (h : text <+: stream) : readEvents text <+: readEvents stream := by
  obtain ⟨more, rfl⟩ := h
  obtain ⟨later, hlater⟩ := linesFrom_cut [] text more
  rw [readEvents, readEvents, ← hlater]
  exact readLines_append _ _ _

/-! ## The event stream of a session -/

/-- `JSON.stringify` without indentation, which escapes line ends, and `JSON.parse`. -/
structure JsonCodec where
  stringify : Json → Line
  parse : List ℕ → Option Json
  parse_stringify : ∀ value, parse (stringify value).units = some value

variable (codec : JsonCodec)

inductive Payload
  | text (line : Line)
  | json (value : Json)

/-- `typeof data === "string" ? data : JSON.stringify(data)`. -/
def Payload.line : Payload → Line
  | .text line => line
  | .json value => codec.stringify value

/-- What `sseWrite` writes. -/
def sseWrite (writable : Bool) (event : Line) (data : Payload) : List ℕ :=
  if writable then ascii "event: " ++ event.units ++ 10 :: (ascii "data: " ++ (data.line codec).units ++ [10, 10])
  else []

/-- A call of `sseWrite`, or a heartbeat. -/
inductive Write
  | sse (writable : Bool) (event : Line) (data : Payload)
  | ping (writable : Bool)

def Write.frame : Write → List ℕ
  | .sse writable event data => sseWrite codec writable event data
  | .ping writable => if writable then ascii ": ping" ++ [10, 10] else []

/-- The event that is to be read. -/
def Write.event? : Write → Option Event
  | .sse true event data => some ⟨if event.units = [] then ascii "message" else event.units, (data.line codec).units⟩
  | .sse false _ _ | .ping _ => none

/-- The stream of the calls. -/
def sent (calls : List Write) : List ℕ := calls.flatMap (Write.frame codec)

/-- A line of a field. -/
theorem field_ascii {name : List ℕ} (hname : 58 ∉ name) (value : List ℕ) :
    field (name ++ 58 :: 32 :: value) = (name, value) := by
  have hfree : ∀ unit ∈ name, decide (unit ≠ 58) = true := by
    intro unit hunit
    rw [decide_eq_true_eq]
    rintro rfl
    exact hname hunit
  rw [field, List.takeWhile_append_of_pos hfree, List.dropWhile_append_of_pos hfree]
  simp

theorem read_event (pending : Pending) (value : List ℕ) :
    pending.read (ascii "event: " ++ value) = ({ pending with type := value }, none) := by
  have hname : 58 ∉ ascii "event" := by decide
  have hfield : field (ascii "event: " ++ value) = (ascii "event", value) := field_ascii hname value
  rw [Pending.read, if_neg (List.append_ne_nil_of_left_ne_nil (by decide) _), hfield, if_pos rfl]

theorem read_data (pending : Pending) (value : List ℕ) :
    pending.read (ascii "data: " ++ value) = ({ pending with data := pending.data ++ value ++ [10] }, none) := by
  have hname : 58 ∉ ascii "data" := by decide
  have hfield : field (ascii "data: " ++ value) = (ascii "data", value) := field_ascii hname value
  have hother : ascii "data" ≠ ascii "event" := by decide
  rw [Pending.read, if_neg (List.append_ne_nil_of_left_ne_nil (by decide) _), hfield, if_neg hother, if_pos rfl]

/-- A fixed text in front of a line. -/
def Line.after (text : String) (h : ∀ unit ∈ ascii text, unit ≠ 10 ∧ unit ≠ 13) (line : Line) : Line where
  units := ascii text ++ line.units
  free := List.forall_mem_append.mpr ⟨h, line.free⟩

theorem read_frame (call : Write) (rest : List ℕ) : readLines {} (linesFrom [] (call.frame codec ++ rest)) =
    (call.event? codec).toList ++ readLines {} (linesFrom [] rest) := by
  rcases call with ⟨_ | _, event, data⟩ | ⟨_ | _⟩
  · rfl
  · have hlines : linesFrom [] ((Write.sse true event data).frame codec ++ rest) =
        (ascii "event: " ++ event.units) :: (ascii "data: " ++ (data.line codec).units) :: [] :: linesFrom [] rest := by
      have hevent := linesFrom_line (event.after "event: " (by decide))
        (ascii "data: " ++ (data.line codec).units ++ 10 :: 10 :: rest)
      have hdata := linesFrom_line ((data.line codec).after "data: " (by decide)) (10 :: rest)
      rw [linesFrom_feed] at hdata
      rw [Line.after] at hevent hdata
      rw [hdata] at hevent
      rw [← hevent, Write.frame, sseWrite, if_pos rfl]
      simp only [List.append_assoc, List.cons_append, List.nil_append]
    have hdata : ({} : Pending).data ++ (data.line codec).units ++ [10] ≠ [] := by simp
    rw [hlines, readLines, read_event, readLines, read_data, readLines, Pending.read, if_pos rfl, if_neg hdata]
    simp [Write.event?]
  · rfl
  · have hline := linesFrom_line ⟨ascii ": ping", by decide⟩ (10 :: rest)
    rw [linesFrom_feed] at hline
    have hlines : linesFrom [] ((Write.ping true).frame codec ++ rest) =
        ascii ": ping" :: [] :: linesFrom [] rest := hline
    rw [hlines, readLines, readLines]
    rfl

/-- What the client of a stream reads: the events that were written, each once and in order, with what was sent as
their data; of a stream that breaks off, the first of them. -/
structure Delivered (calls : List Write) : Prop where
  whole : readEvents (sent codec calls) = calls.filterMap (Write.event? codec)
  cut : ∀ text, text <+: sent codec calls → readEvents text <+: calls.filterMap (Write.event? codec)
  data : ∀ event value read, Write.event? codec (.sse true event (.json value)) = some read →
    codec.parse read.data = some value

/-- The object that a response is. -/
def responseJson (response : Response) : Json :=
  .object ([("jsonrpc", .string "2.0"), ("id", response.id)] ++ match response.body with
    | .ok result => [("result", result)]
    | .error e => [("error", .object ([("code", e.code), ("message", .string e.message)] ++
        (e.data.map fun data => ("data", data)).toList))])

variable {σ : Type*} (sessionData : σ)

/-- What is answered to one line. -/
def answer (handlers : Handlers σ) (line : List ℕ) : Option Response :=
  if trimUnits line = [] then none
  else match codec.parse line with
    | none => some (jsonRpcError .null (.number (-32700)) "Parse error")
    | some message => (dispatchJsonRpc handlers message sessionData).outcome.response?

/-- The lines of the input, each with the handlers as they answer to it. -/
abbrev Input (σ : Type*) := List (List ℕ × Handlers σ)

/-- The answers in their order. -/
def answers (input : Input σ) : List Response := input.filterMap fun line => answer codec sessionData line.2 line.1

/-- The loop of `stdio`: what is written for the lines of the input. -/
def stdio : Input σ → List ℕ
  | [] => []
  | line :: rest =>
    (answer codec sessionData line.2 line.1).elim []
      (fun response => (codec.stringify (responseJson response)).units ++ [10]) ++ stdio rest

/-- The id under which a message is answered; a notification is not. -/
def requestId (message : Json) : Option Json :=
  if (version message).text? ≠ some "2.0" then some ((message.property "id").getD .null)
  else match (message.property "method").bind Json.text? with
    | none => some ((message.property "id").getD .null)
    | some method => if method = "notifications/initialized" then none else message.property "id"

/-- The id under which a line is answered. -/
def lineId (line : List ℕ) : Option Json :=
  if trimUnits line = [] then none else (codec.parse line).elim (some .null) requestId

theorem id_dispatchMethod (handlers : Handlers σ) (method : String) (id params : Option Json) :
    (dispatchMethod handlers method id params sessionData).outcome.response?.map Response.id =
      if method = "notifications/initialized" then none else id := by
  rw [dispatchMethod]
  split
  · rfl
  · cases id with
    | none => cases lookup method <;> rfl
    | some id =>
      cases lookup method with
      | none => rfl
      | some callable =>
        obtain ⟨response, hresponse, hid⟩ := settle_response id (call handlers params sessionData callable)
        simp only [hresponse, Option.map_some, hid]

theorem id_dispatchJsonRpc (handlers : Handlers σ) (message : Json) :
    (dispatchJsonRpc handlers message sessionData).outcome.response?.map Response.id = requestId message := by
  cases message with
  | null | bool _ | number _ | string _ => rfl
  | array _ | object _ =>
    simp only [dispatchJsonRpc, requestId, Json.isObject, Bool.not_true, Bool.false_eq_true, if_false]
    split
    · rfl
    · cases (Json.property "method" _).bind Json.text? with
      | none => rfl
      | some method => exact id_dispatchMethod sessionData handlers method _ _

theorem ids_answers (input : Input σ) :
    (answers codec sessionData input).map Response.id = input.filterMap fun line => lineId codec line.1 := by
  rw [answers, List.map_filterMap]
  refine List.filterMap_congr fun line _ => ?_
  rw [answer, lineId]
  split
  · rfl
  · cases codec.parse line.1 with
    | none => rfl
    | some message => exact id_dispatchJsonRpc sessionData line.2 message

theorem linesFrom_stdio (input : Input σ) : linesFrom [] (stdio codec sessionData input) =
    (answers codec sessionData input).map fun response => (codec.stringify (responseJson response)).units := by
  induction input with
  | nil => rfl
  | cons line rest ih =>
    rw [stdio, answers, List.filterMap_cons]
    cases answer codec sessionData line.2 line.1 with
    | none => exact ih
    | some response =>
      have hline := linesFrom_line (codec.stringify (responseJson response)) (stdio codec sessionData rest)
      rw [Option.elim_some, List.append_assoc, List.singleton_append, hline, ih]
      rfl

/-- Each line that asks for an answer gets one line of the output, in order and under its id; what is read of an output
that breaks off are the first of the answers. -/
structure Answered (input : Input σ) : Prop where
  whole : (linesFrom [] (stdio codec sessionData input)).map codec.parse =
    (answers codec sessionData input).map fun response => some (responseJson response)
  cut : ∀ text, text <+: stdio codec sessionData input → (linesFrom [] text).map codec.parse <+:
    (answers codec sessionData input).map fun response => some (responseJson response)
  ids : (answers codec sessionData input).map Response.id = input.filterMap fun line => lineId codec line.1

end FragmentMemory.MessageFrames
