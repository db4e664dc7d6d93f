import Mathlib.Algebra.Order.Ring.Unbundled.Rat
import Mathlib.Data.List.Basic

/-! # JSON-RPC dispatch

`dispatchJsonRpc` on any parsed message.  The handlers of the registered methods are given; a method is looked up in
an object literal, which has the properties of `Object.prototype` as well.
-/
namespace FragmentMemory.JsonRpcDispatch

inductive Json
  | null
  | bool (value : Bool)
  | number (value : ℚ)
  | string (value : String)
  | array (items : List Json)
  | object (fields : List (String × Json))

namespace Json

def truthy : Json → Bool
  | null => false
  | bool value => value
  | number value => value ≠ 0
  | string value => value ≠ ""
  | array _ | object _ => true

/-- `value && typeof value === "object"`. -/
def isObject : Json → Bool
  | array _ | object _ => true
  | null | bool _ | number _ | string _ => false

/-- The string, where `typeof` says that it is one. -/
def text? : Json → Option String
  | string value => some value
  | null | bool _ | number _ | array _ | object _ => none

/-- An own property; an array has none of the names that are asked for. -/
def property (name : String) : Json → Option Json
  | object fields => (fields.find? fun entry => entry.1 = name).map Prod.snd
  | null | bool _ | number _ | string _ | array _ => none

end Json

/-- A thrown error: a violation of a symbolic policy, or any other with its code. -/
inductive Failure
  | policy (message : String) (violations : List String) (fragmentType : Option String)
  | error (code : Option Json) (message : String)

structure RpcError where
  code : Json
  message : String
  data : Option Json := none

structure Response where
  id : Json
  /-- `result` or `error`. -/
  body : Except RpcError Json

def jsonRpcError (id : Json) (code : Json) (message : String) (data : Option Json := none) : Response where
  id := id
  body := .error ⟨code, message, data⟩

def jsonRpcResult (id result : Json) : Response where
  id := id
  body := .ok result

/-- The `kind` with its response. -/
inductive Outcome
  | accepted
  | ok (response : Response)
  | error (response : Response)

def Outcome.response? : Outcome → Option Response
  | accepted => none
  | ok response | error response => some response

/-- The exported handlers, with `sessionData` for `tools/list` only. -/
structure Handlers (σ : Type*) where
  handleInitialize : Option Json → Except Failure Json
  handleToolsList : Option Json → σ → Except Failure Json
  handleToolsCall : Option Json → Except Failure Json
  handlePromptsList : Option Json → Except Failure Json
  handlePromptsGet : Option Json → Except Failure Json
  handleResourcesList : Option Json → Except Failure Json
  handleResourcesRead : Option Json → Except Failure Json

/-- The keys of `METHOD_MAP`. -/
inductive Method
  | initialize_ | toolsList | toolsCall | promptsList | promptsGet | resourcesList | resourcesRead
  deriving DecidableEq

namespace Method

def name : Method → String
  | initialize_ => "initialize"
  | toolsList => "tools/list"
  | toolsCall => "tools/call"
  | promptsList => "prompts/list"
  | promptsGet => "prompts/get"
  | resourcesList => "resources/list"
  | resourcesRead => "resources/read"

def all : List Method := [initialize_, toolsList, toolsCall, promptsList, promptsGet, resourcesList, resourcesRead]

end Method

/-- The names of `Object.prototype`. -/
inductive Inherited
  | constructor | defineGetter | defineSetter | hasOwnProperty | lookupGetter | lookupSetter | isPrototypeOf
  | propertyIsEnumerable | toString | valueOf | proto | toLocaleString
  deriving DecidableEq

namespace Inherited

def name : Inherited → String
  | constructor => "constructor"
  | defineGetter => "__defineGetter__"
  | defineSetter => "__defineSetter__"
  | hasOwnProperty => "hasOwnProperty"
  | lookupGetter => "__lookupGetter__"
  | lookupSetter => "__lookupSetter__"
  | isPrototypeOf => "isPrototypeOf"
  | propertyIsEnumerable => "propertyIsEnumerable"
  | toString => "toString"
  | valueOf => "valueOf"
  | proto => "__proto__"
  | toLocaleString => "toLocaleString"

def all : List Inherited :=
  [constructor, defineGetter, defineSetter, hasOwnProperty, lookupGetter, lookupSetter, isPrototypeOf,
    propertyIsEnumerable, toString, valueOf, proto, toLocaleString]

/-- The call without a receiver and without arguments: `Object()` is a new object, `isPrototypeOf` is false for what
is no object, `toString` names the type of `undefined`, the others throw a `TypeError`; the value of `__proto__` is
no function. -/
def call : Inherited → Except Failure Json
  | constructor => .ok (.object [])
  | isPrototypeOf => .ok (.bool false)
  | toString => .ok (.string "[object Undefined]")
  | defineGetter | defineSetter | hasOwnProperty | lookupGetter | lookupSetter | propertyIsEnumerable | valueOf
  | toLocaleString => .error (.error none "Cannot convert undefined or null to object")
  | proto => .error (.error none "handler is not a function")

end Inherited

/-- What `METHOD_MAP[method]` can be. -/
inductive Callable
  | registered (method : Method)
  | inherited (property : Inherited)
  deriving DecidableEq

/-- `METHOD_MAP[method]`. -/
def lookup (method : String) : Option Callable :=
  ((Method.all.find? fun m => m.name = method).map Callable.registered).or
    ((Inherited.all.find? fun property => property.name = method).map Callable.inherited)

variable {σ : Type*} (handlers : Handlers σ)

def callHandler (params : Option Json) (sessionData : σ) : Method → Except Failure Json
  | .initialize_ => handlers.handleInitialize params
  | .toolsList => handlers.handleToolsList params sessionData
  | .toolsCall => handlers.handleToolsCall params
  | .promptsList => handlers.handlePromptsList params
  | .promptsGet => handlers.handlePromptsGet params
  | .resourcesList => handlers.handleResourcesList params
  | .resourcesRead => handlers.handleResourcesRead params

def call (params : Option Json) (sessionData : σ) : Callable → Except Failure Json
  | .registered method => callHandler handlers params sessionData method
  | .inherited property => property.call

/-- The response of the `catch`. -/
def caught (id : Json) : Failure → Response
  | .policy message violations fragmentType =>
    jsonRpcError id (.number (-32003)) message (some (.object [("violations", .array (violations.map Json.string)),
      ("fragmentType", fragmentType.elim Json.null Json.string)]))
  | .error code message =>
    let errorCode := (code.filter Json.truthy).getD (.number (-32603))
    match errorCode with
    | .number value =>
      jsonRpcError id errorCode (if value = -32601 ∨ value = -32602 then message else "Internal error")
    | .null | .bool _ | .string _ | .array _ | .object _ => jsonRpcError id errorCode "Internal error"

/-- The outcome of a call; without an id the message is a notification. -/
def settle (id : Option Json) (result : Except Failure Json) : Outcome :=
  match id, result with
  | none, _ => .accepted
  | some id, .ok result => .ok (jsonRpcResult id result)
  | some id, .error failure => .ok (caught id failure)

/-- The functions that were run, and the outcome. -/
structure Dispatch where
  ran : List Callable
  outcome : Outcome

/-- From the `try` on. -/
def dispatchMethod (method : String) (id params : Option Json) (sessionData : σ) : Dispatch :=
  if method = "notifications/initialized" then ⟨[], .accepted⟩
  else match lookup method with
    | some callable => ⟨[callable], settle id (call handlers params sessionData callable)⟩
    | none =>
      ⟨[], id.elim .accepted fun id => .ok (jsonRpcError id (.number (-32601)) ("Method not found: " ++ method))⟩

/-- `msg.jsonrpc || "2.0"`. -/
def version (msg : Json) : Json := ((msg.property "jsonrpc").filter Json.truthy).getD (.string "2.0")

def dispatchJsonRpc (msg : Json) (sessionData : σ) : Dispatch :=
  if !msg.isObject then ⟨[], .error (jsonRpcError .null (.number (-32600)) "Invalid Request")⟩
  else
    let id := msg.property "id"
    let invalid (detail : String) : Dispatch :=
      ⟨[], .error (jsonRpcError (id.getD .null) (.number (-32600)) "Invalid Request" (some (.string detail)))⟩
    if (version msg).text? ≠ some "2.0" then invalid "jsonrpc must be '2.0'"
    else match (msg.property "method").bind Json.text? with
      | none => invalid "method must be string"
      | some method => dispatchMethod handlers method id (msg.property "params") sessionData

/-! ## The lookup -/

theorem Method.mem_all (m : Method) : m ∈ Method.all := by
  cases m <;> decide

theorem Inherited.mem_all (property : Inherited) : property ∈ Inherited.all := by
  cases property <;> decide

theorem name_ne_name (m : Method) (property : Inherited) : m.name ≠ property.name := by
  cases m <;> cases property <;> decide

theorem inherited_ne_notification (property : Inherited) : property.name ≠ "notifications/initialized" := by
  cases property <;> decide

theorem lookup_eq_none_iff {method : String} :
    lookup method = none ↔ (∀ m : Method, m.name ≠ method) ∧ ∀ property : Inherited, property.name ≠ method := by
  have hregistered : (Method.all.find? fun m => m.name = method) = none ↔ ∀ m : Method, m.name ≠ method := by
    rw [List.find?_eq_none]
    refine ⟨fun h m => ?_, fun h m _ => ?_⟩
    · simpa using h m m.mem_all
    · simpa using h m
  have hinherited : (Inherited.all.find? fun property => property.name = method) = none ↔
      ∀ property : Inherited, property.name ≠ method := by
    rw [List.find?_eq_none]
    refine ⟨fun h property => ?_, fun h property _ => ?_⟩
    · simpa using h property property.mem_all
    · simpa using h property
  rw [lookup, Option.or_eq_none_iff, Option.map_eq_none_iff, Option.map_eq_none_iff, hregistered, hinherited]

/-! ## Outcomes -/

theorem caught_id (id : Json) (failure : Failure) : (caught id failure).id = id := by
  cases failure with
  | policy message violations fragmentType => rfl
  | error code message =>
    simp only [caught]
    split <;> rfl

theorem settle_response (id : Json) (result : Except Failure Json) :
    ∃ response, (settle (some id) result).response? = some response ∧ response.id = id := by
  cases result with
  | ok value => exact ⟨_, rfl, rfl⟩
  | error failure => exact ⟨_, rfl, caught_id id failure⟩

/-- The message is a request object with this method. -/
def Names (msg : Json) (method : String) : Prop :=
  msg.isObject = true ∧ (version msg).text? = some "2.0" ∧ (msg.property "method").bind Json.text? = some method

theorem names_unique {msg : Json} {first second : String} (h : Names msg first) (h' : Names msg second) :
    first = second :=
  Option.some.inj (h.2.2.symm.trans h'.2.2)

variable {handlers} {msg : Json} {sessionData : σ}

theorem dispatchJsonRpc_of_names {method : String} (h : Names msg method) : dispatchJsonRpc handlers msg sessionData =
    dispatchMethod handlers method (msg.property "id") (msg.property "params") sessionData := by
  obtain ⟨hobject, hversion, hmethod⟩ := h
  simp [dispatchJsonRpc, hobject, hversion, hmethod]

/-- A message that is no request object is refused, under its id. -/
theorem dispatchJsonRpc_of_not_names (h : ∀ method, ¬ Names msg method) {id : Json} (hid : msg.property "id" = some id) :
    ∃ response, (dispatchJsonRpc handlers msg sessionData).outcome.response? = some response ∧ response.id = id := by
  have hobject : msg.isObject = true := by
    cases msg with
    | object fields => rfl
    | array items => rfl
    | null => cases hid
    | bool value => cases hid
    | number value => cases hid
    | string value => cases hid
  rw [dispatchJsonRpc, hobject, Bool.not_true, if_neg Bool.false_ne_true]
  simp only [hid, Option.getD_some]
  split
  · exact ⟨_, rfl, rfl⟩
  · rename_i hversion
    cases hmethod : (msg.property "method").bind Json.text? with
    | none => exact ⟨_, rfl, rfl⟩
    | some method => exact absurd ⟨hobject, not_not.mp hversion, hmethod⟩ (h method)

/-! ## Known methods -/

/-- A method that is not registered runs nothing and is answered as unknown, in silence without an id; a message with
an id gets a response with it. -/
structure Answered (msg : Json) (dispatch : Dispatch) : Prop where
  unknown : ∀ method, Names msg method → (∀ m : Method, m.name ≠ method) → dispatch.ran = [] ∧
    dispatch.outcome = (msg.property "id").elim .accepted fun id =>
      .ok (jsonRpcError id (.number (-32601)) ("Method not found: " ++ method))
  answered : ∀ id, msg.property "id" = some id →
    ∃ response, dispatch.outcome.response? = some response ∧ response.id = id

/-- The method is a name of `Object.prototype`, or that of the notification in a message with an id. -/
def Misread (msg : Json) : Prop :=
  ∃ method, Names msg method ∧ ((∃ property : Inherited, property.name = method) ∨
    (method = "notifications/initialized" ∧ (msg.property "id").isSome = true))

/-- A name that the lookup finds is run. -/
theorem ran_of_inherited {property : Inherited} (h : Names msg property.name) :
    (dispatchJsonRpc handlers msg sessionData).ran ≠ [] := by
  have hfound : lookup property.name ≠ none := by
    intro hnone
    exact (lookup_eq_none_iff.mp hnone).2 property rfl
  obtain ⟨callable, hcallable⟩ := Option.ne_none_iff_exists'.mp hfound
  rw [dispatchJsonRpc_of_names h, dispatchMethod, if_neg (inherited_ne_notification property), hcallable]
  exact List.cons_ne_nil callable []

theorem answered_of_names {method : String} (h : Names msg method) (hknown : ∀ property : Inherited, property.name ≠ method)
    (hnotification : method = "notifications/initialized" → msg.property "id" = none) :
    Answered msg (dispatchJsonRpc handlers msg sessionData) := by
  rw [dispatchJsonRpc_of_names h, dispatchMethod]
  by_cases hmethod : method = "notifications/initialized"
  · rw [if_pos hmethod]
    have hid := hnotification hmethod
    refine ⟨fun other _ _ => ⟨rfl, by rw [hid]; rfl⟩, fun id hsome => ?_⟩
    rw [hid] at hsome
    cases hsome
  · rw [if_neg hmethod]
    cases hlookup : lookup method with
    | none =>
      refine ⟨fun other hother _ => ⟨rfl, by rw [names_unique hother h]⟩, fun id hid => ?_⟩
      rw [hid]
      exact ⟨_, rfl, rfl⟩
    | some callable =>
      refine ⟨fun other hother hother' => ?_, fun id hid => ?_⟩
      · rw [names_unique hother h] at hother'
        rw [lookup_eq_none_iff.mpr ⟨hother', hknown⟩] at hlookup
        cases hlookup
      · rw [hid]
        exact settle_response id _

theorem dispatchJsonRpc_answered_iff (handlers : Handlers σ) (msg : Json) (sessionData : σ) :
    Answered msg (dispatchJsonRpc handlers msg sessionData) ↔ ¬ Misread msg := by
  constructor
  · rintro h ⟨method, hnames, ⟨property, rfl⟩ | ⟨rfl, hid⟩⟩
    · exact ran_of_inherited hnames (h.unknown _ hnames fun m => name_ne_name m property).1
    · obtain ⟨id, hid⟩ := Option.isSome_iff_exists.mp hid
      obtain ⟨response, hresponse, -⟩ := h.answered id hid
      rw [dispatchJsonRpc_of_names hnames, dispatchMethod, if_pos rfl] at hresponse
      cases hresponse
  · intro h
    by_cases hnames : ∃ method, Names msg method
    · obtain ⟨method, hmethod⟩ := hnames
      refine answered_of_names hmethod (fun property hproperty => h ⟨method, hmethod, Or.inl ⟨property, hproperty⟩⟩) ?_
      intro hnotification
      by_contra hid
      exact h ⟨method, hmethod, Or.inr ⟨hnotification, Option.isSome_iff_ne_none.mpr hid⟩⟩
    · rw [not_exists] at hnames
      refine ⟨fun method hmethod => absurd hmethod (hnames method), fun id hid => dispatchJsonRpc_of_not_names hnames hid⟩

/-- Handlers that answer nothing. -/
def silentHandlers : Handlers Unit where
  handleInitialize _ := .ok .null
  handleToolsList _ _ := .ok .null
  handleToolsCall _ := .ok .null
  handlePromptsList _ := .ok .null
  handlePromptsGet _ := .ok .null
  handleResourcesList _ := .ok .null
  handleResourcesRead _ := .ok .null

def toStringRequest : Json :=
  .object [("jsonrpc", .string "2.0"), ("id", .number 1), ("method", .string "toString")]

/-- `toString` is run, and its result is the response. -/
theorem toString_answered : (dispatchJsonRpc silentHandlers toStringRequest ()).ran = [.inherited .toString] ∧
    ¬ Answered toStringRequest (dispatchJsonRpc silentHandlers toStringRequest ()) := by
  have hran : (dispatchJsonRpc silentHandlers toStringRequest ()).ran = [.inherited .toString] := by decide
  refine ⟨hran, fun h => ?_⟩
  have hnone := (h.unknown "toString" ⟨rfl, rfl, rfl⟩ (fun m => by cases m <;> decide)).1
  rw [hran] at hnone
  cases hnone

end FragmentMemory.JsonRpcDispatch
