import AIService.Data.Digits
import AIService.Data.Regex
import AIService.Http.Request
import Mathlib.Data.List.AList

/-!
# `http::router::Router`

Exact routes are found in two maps, dynamic routes by trying their expressions in the order
in which they were added; two vectors hold the labels of the dynamic routes.  `Selected` says
which registration a request goes to, and `route_registered` that `route` goes there.
-/

namespace AIService.Http

structure RouteKey where
  method : Method
  path : Bytes
deriving DecidableEq

/-- `RouteHandlerObj` and `RouteCallbackObj`. -/
structure RouteObj (ρ τ : Type) where
  method_ : Method
  pathRegex_ : ρ
  target_ : τ

/-- Handlers are objects `η`, callbacks functions `κ`. -/
structure Router (ρ η κ : Type) where
  handlers_ : AList fun _ : RouteKey => η := ∅
  callbacks_ : AList fun _ : RouteKey => κ := ∅
  regexHandlers_ : List (RouteObj ρ η) := []
  regexCallbacks_ : List (RouteObj ρ κ) := []
  regexHandlerLabels_ : List Bytes := []
  regexCallbackLabels_ : List Bytes := []

/-! ## Expressions -/

/-- The text goes on with `:([^/]+)`. -/
def startsParameter : Bytes → Bool
  | 58 :: c :: _ => c ≠ 47
  | _ => false

/-- `regex_replace` of `/:([^/]+)` by `/([^/]+)`; `inside` a match up to its end. -/
def replaceParameters (inside : Bool) : Bytes → Bytes
  | [] => []
  | b :: rest =>
      if inside && b ≠ 47 then replaceParameters true rest
      else if b = 47 && startsParameter rest then bytes "/([^/]+)" ++ replaceParameters true rest
      else b :: replaceParameters false rest

/-- The text that `convertToRegex` hands to the engine. -/
def convertToRegex (pathPattern : Bytes) : Bytes :=
  bytes "^" ++ replaceParameters false pathPattern ++ bytes "$"

/-- The loop of `extractPathParameters` from the group `i` on. -/
def extractFrom : Nat → List Bytes → HttpRequest → HttpRequest
  | _, [], request => request
  | i, group :: groups, request =>
      extractFrom (i + 1) groups (request.setPathParameters (bytes "param" ++ digits i) group)

def extractPathParameters (groups : List Bytes) (request : HttpRequest) : HttpRequest :=
  extractFrom 1 groups request

/-! ## Registration -/

/-- How the two vectors of a dynamic route take what is appended to them. -/
inductive Storing
  | done
  /-- `push_back` of the label throws. -/
  | labelThrows
  /-- `emplace_back` of the route throws, and the label is taken back. -/
  | entryThrows

variable {ρ η κ τ : Type} (engine : RegexEngine ρ)

/-- `addRegexHandler` and `addRegexCallback` on their two vectors; the flag tells whether the
call returned. -/
def addRegex (storing : Storing) (method : Method) (path : Bytes) (target : τ)
    (routes : List (RouteObj ρ τ)) (labels : List Bytes) :
    Bool × List (RouteObj ρ τ) × List Bytes :=
  match engine.compile (convertToRegex path) with
  | none => (false, routes, labels)
  | some pathRegex =>
      match storing with
      | .labelThrows => (false, routes, labels)
      | .entryThrows => (false, routes, (labels ++ [path]).dropLast)
      | .done => (true, routes ++ [⟨method, pathRegex, target⟩], labels ++ [path])

namespace Router

variable (router : Router ρ η κ)

def registerHandler (method : Method) (path : Bytes) (handler : η) : Router ρ η κ :=
  { router with handlers_ := router.handlers_.insert ⟨method, path⟩ handler }

def registerCallback (method : Method) (path : Bytes) (callback : κ) : Router ρ η κ :=
  { router with callbacks_ := router.callbacks_.insert ⟨method, path⟩ callback }

def addRegexHandler (storing : Storing) (method : Method) (path : Bytes) (handler : η) :
    Bool × Router ρ η κ :=
  let (returned, routes, labels) := addRegex engine storing method path handler
    router.regexHandlers_ router.regexHandlerLabels_
  (returned, { router with regexHandlers_ := routes, regexHandlerLabels_ := labels })

def addRegexCallback (storing : Storing) (method : Method) (path : Bytes) (callback : κ) :
    Bool × Router ρ η κ :=
  let (returned, routes, labels) := addRegex engine storing method path callback
    router.regexCallbacks_ router.regexCallbackLabels_
  (returned, { router with regexCallbacks_ := routes, regexCallbackLabels_ := labels })

end Router

/-! ## Routing -/

inductive Target (η κ : Type)
  | handler (handler : η)
  | callback (callback : κ)

/-- A call of a target: the request it sees and the response it is handed. -/
structure Invocation (η κ : Type) where
  target : Target η κ
  req : HttpRequest
  resp : HttpResponse

/-- What `route` calls and returns; `none` where it reads a label outside its vector. -/
abbrev Routed (η κ : Type) := Option (List (Invocation η κ) × Bool)

/-- The groups with which a dynamic route matches. -/
def RouteObj.matched (obj : RouteObj ρ τ) (req : HttpRequest) : Option (List Bytes) :=
  if obj.method_ = req.method then engine.regexMatch obj.pathRegex_ req.path else none

/-- The loop over dynamic routes from `index` on, `routes` being those that are left. -/
def routeRegex (toTarget : τ → Target η κ) (labels : List Bytes) (req : HttpRequest)
    (resp : HttpResponse) : Nat → List (RouteObj ρ τ) → Routed η κ
  | _, [] => some ([], false)
  | index, obj :: routes =>
      match obj.matched engine req with
      | none => routeRegex toTarget labels req resp (index + 1) routes
      | some groups =>
          labels[index]?.map fun label =>
            ([⟨toTarget obj.target_, extractPathParameters groups req, resp.setLogRoute label⟩], true)

def Router.route (router : Router ρ η κ) (req : HttpRequest) (resp : HttpResponse) : Routed η κ :=
  let key : RouteKey := ⟨req.method, req.path⟩
  match router.handlers_.lookup key with
  | some handler => some ([⟨.handler handler, req, resp.setLogRoute key.path⟩], true)
  | none =>
      match router.callbacks_.lookup key with
      | some callback => some ([⟨.callback callback, req, resp.setLogRoute key.path⟩], true)
      | none =>
          (routeRegex engine .handler router.regexHandlerLabels_ req resp 0
            router.regexHandlers_).bind fun (calls, found) =>
              if found then some (calls, true)
              else
                (routeRegex engine .callback router.regexCallbackLabels_ req resp 0
                  router.regexCallbacks_).map fun (later, found) => (calls ++ later, found)

/-! ## What was registered -/

inductive Registration (η κ : Type)
  | handler (method : Method) (path : Bytes) (handler : η)
  | callback (method : Method) (path : Bytes) (callback : κ)
  | regexHandler (storing : Storing) (method : Method) (path : Bytes) (handler : η)
  | regexCallback (storing : Storing) (method : Method) (path : Bytes) (callback : κ)

/-- The registration, whether it returns or throws. -/
def Router.register (router : Router ρ η κ) : Registration η κ → Bool × Router ρ η κ
  | .handler method path handler => (true, router.registerHandler method path handler)
  | .callback method path callback => (true, router.registerCallback method path callback)
  | .regexHandler storing method path handler =>
      router.addRegexHandler engine storing method path handler
  | .regexCallback storing method path callback =>
      router.addRegexCallback engine storing method path callback

/-- The router after some registrations, those that threw included. -/
def registerAll (regs : List (Registration η κ)) : Router ρ η κ :=
  regs.foldl (fun router reg => (router.register engine reg).2) {}

namespace Registration

/-- The order in which `route` asks. -/
inductive Kind
  | handler
  | callback
  | regexHandler
  | regexCallback
deriving DecidableEq

def Kind.rank : Kind → Nat
  | .handler => 0
  | .callback => 1
  | .regexHandler => 2
  | .regexCallback => 3

/-- An exact route. -/
def Kind.isExact : Kind → Bool
  | .handler => true
  | .callback => true
  | .regexHandler => false
  | .regexCallback => false

def kind : Registration η κ → Kind
  | .handler .. => .handler
  | .callback .. => .callback
  | .regexHandler .. => .regexHandler
  | .regexCallback .. => .regexCallback

def path : Registration η κ → Bytes
  | .handler _ path _ => path
  | .callback _ path _ => path
  | .regexHandler _ _ path _ => path
  | .regexCallback _ _ path _ => path

def target : Registration η κ → Target η κ
  | .handler _ _ object => .handler object
  | .callback _ _ function => .callback function
  | .regexHandler _ _ _ object => .handler object
  | .regexCallback _ _ _ function => .callback function

/-- The groups with which a dynamic route that could be stored matches. -/
def regexAnswers (storing : Storing) (method : Method) (path : Bytes) (req : HttpRequest) :
    Option (List Bytes) :=
  match storing with
  | .done =>
      if method = req.method then
        (engine.compile (convertToRegex path)).bind fun regex => engine.regexMatch regex req.path
      else none
  | _ => none

/-- The groups with which the registration matches a request. -/
def answers (req : HttpRequest) : Registration η κ → Option (List Bytes)
  | .handler method path _ => if (⟨method, path⟩ : RouteKey) = ⟨req.method, req.path⟩ then some [] else none
  | .callback method path _ => if (⟨method, path⟩ : RouteKey) = ⟨req.method, req.path⟩ then some [] else none
  | .regexHandler storing method path _ => regexAnswers engine storing method path req
  | .regexCallback storing method path _ => regexAnswers engine storing method path req

/-- The call of the target when it matches with `groups`. -/
def invocation (reg : Registration η κ) (groups : List Bytes) (req : HttpRequest) (resp : HttpResponse) :
    Invocation η κ :=
  ⟨reg.target, extractPathParameters groups req, resp.setLogRoute reg.path⟩

end Registration

/-- The registration that a request goes to, with the groups of its match: one of the first
kind that matches, and of that kind the last exact one or the first dynamic one. -/
structure Selected (regs : List (Registration η κ)) (req : HttpRequest) (reg : Registration η κ)
    (groups : List Bytes) : Prop where
  answers : reg.answers engine req = some groups
  kind : ∀ other ∈ regs, other.answers engine req ≠ none → reg.kind.rank ≤ other.kind.rank
  place : ∃ before after, regs = before ++ reg :: after ∧
    ∀ other ∈ if reg.kind.isExact then after else before,
      other.kind = reg.kind → other.answers engine req = none

/-! ## The tables -/

section tables

open Registration (kind)

/-- What the map of handlers has under a key because of a registration. -/
def handlerAt (key : RouteKey) : Registration η κ → Option η
  | .handler method path object => if (⟨method, path⟩ : RouteKey) = key then some object else none
  | _ => none

def callbackAt (key : RouteKey) : Registration η κ → Option κ
  | .callback method path function => if (⟨method, path⟩ : RouteKey) = key then some function else none
  | _ => none

/-- What a dynamic registration adds to its vectors. -/
def entry (storing : Storing) (method : Method) (path : Bytes) (target : τ) :
    Option (RouteObj ρ τ × Bytes) :=
  match storing with
  | .done => (engine.compile (convertToRegex path)).map fun regex => (⟨method, regex, target⟩, path)
  | _ => none

def handlerEntry : Registration η κ → Option (RouteObj ρ η × Bytes)
  | .regexHandler storing method path object => entry engine storing method path object
  | _ => none

def callbackEntry : Registration η κ → Option (RouteObj ρ κ × Bytes)
  | .regexCallback storing method path function => entry engine storing method path function
  | _ => none

theorem addRegex_entry (storing : Storing) (method : Method) (path : Bytes) (target : τ)
    (routes : List (RouteObj ρ τ)) (labels : List Bytes) :
    (addRegex engine storing method path target routes labels).2 =
      (routes ++ (entry engine storing method path target).toList.map (·.1),
        labels ++ (entry engine storing method path target).toList.map (·.2)) := by
  unfold addRegex entry
  cases storing <;> cases engine.compile (convertToRegex path) <;> simp

theorem lookup_insert (table : AList fun _ : RouteKey => τ) (key key' : RouteKey) (target : τ) :
    (table.insert key target).lookup key' =
      (if key = key' then some target else none).or (table.lookup key') := by
  split
  · next same => rw [same, AList.lookup_insert, Option.some_or]
  · next other => rw [AList.lookup_insert_ne (Ne.symm other), Option.none_or]

variable (router : Router ρ η κ) (reg : Registration η κ)

theorem register_handlers (key : RouteKey) :
    (router.register engine reg).2.handlers_.lookup key =
      (handlerAt key reg).or (router.handlers_.lookup key) := by
  cases reg with
  | handler method path object => exact lookup_insert _ _ _ _
  | _ => rfl

theorem register_callbacks (key : RouteKey) :
    (router.register engine reg).2.callbacks_.lookup key =
      (callbackAt key reg).or (router.callbacks_.lookup key) := by
  cases reg with
  | callback method path function => exact lookup_insert _ _ _ _
  | _ => rfl

theorem register_regexHandlers :
    (router.register engine reg).2.regexHandlers_ =
        router.regexHandlers_ ++ (handlerEntry engine reg).toList.map (·.1) ∧
      (router.register engine reg).2.regexHandlerLabels_ =
        router.regexHandlerLabels_ ++ (handlerEntry engine reg).toList.map (·.2) := by
  cases reg with
  | regexHandler storing method path object => exact Prod.mk.inj (addRegex_entry engine storing method path object _ _)
  | _ => exact ⟨(List.append_nil _).symm, (List.append_nil _).symm⟩

theorem register_regexCallbacks :
    (router.register engine reg).2.regexCallbacks_ =
        router.regexCallbacks_ ++ (callbackEntry engine reg).toList.map (·.1) ∧
      (router.register engine reg).2.regexCallbackLabels_ =
        router.regexCallbackLabels_ ++ (callbackEntry engine reg).toList.map (·.2) := by
  cases reg with
  | regexCallback storing method path function =>
      exact Prod.mk.inj (addRegex_entry engine storing method path function _ _)
  | _ => exact ⟨(List.append_nil _).symm, (List.append_nil _).symm⟩

/-- The tables of a router are what the registrations have put there. -/
structure Tables (router : Router ρ η κ) (regs : List (Registration η κ)) : Prop where
  handlers : ∀ key, router.handlers_.lookup key = regs.reverse.findSome? (handlerAt key)
  callbacks : ∀ key, router.callbacks_.lookup key = regs.reverse.findSome? (callbackAt key)
  regexHandlers : router.regexHandlers_ = (regs.filterMap (handlerEntry engine)).map (·.1)
  regexHandlerLabels : router.regexHandlerLabels_ = (regs.filterMap (handlerEntry engine)).map (·.2)
  regexCallbacks : router.regexCallbacks_ = (regs.filterMap (callbackEntry engine)).map (·.1)
  regexCallbackLabels : router.regexCallbackLabels_ = (regs.filterMap (callbackEntry engine)).map (·.2)

variable {engine router}

theorem Tables.register {regs : List (Registration η κ)} (tables : Tables engine router regs) :
    Tables engine (router.register engine reg).2 (regs ++ [reg]) := by
  have added {τ : Type} (f : Registration η κ → Option τ) :
      (regs ++ [reg]).filterMap f = regs.filterMap f ++ (f reg).toList := by
    rw [List.filterMap_append]
    cases h : f reg <;> simp [h]
  have asked {τ : Type} (f : Registration η κ → Option τ) :
      (regs ++ [reg]).reverse.findSome? f = (f reg).or (regs.reverse.findSome? f) := by
    rw [List.reverse_append, List.reverse_singleton, List.singleton_append, List.findSome?_cons]
    cases f reg <;> rfl
  obtain ⟨handlerRoutes, handlerLabels⟩ := register_regexHandlers engine router reg
  obtain ⟨callbackRoutes, callbackLabels⟩ := register_regexCallbacks engine router reg
  exact
    { handlers := fun key => by rw [register_handlers, asked, tables.handlers]
      callbacks := fun key => by rw [register_callbacks, asked, tables.callbacks]
      regexHandlers := by rw [handlerRoutes, added, List.map_append, tables.regexHandlers]
      regexHandlerLabels := by rw [handlerLabels, added, List.map_append, tables.regexHandlerLabels]
      regexCallbacks := by rw [callbackRoutes, added, List.map_append, tables.regexCallbacks]
      regexCallbackLabels := by rw [callbackLabels, added, List.map_append, tables.regexCallbackLabels] }

theorem tables_registerAll (engine : RegexEngine ρ) (regs : List (Registration η κ)) :
    Tables engine (registerAll engine regs) regs := by
  induction regs using List.reverseRecOn with
  | nil => exact ⟨fun _ => rfl, fun _ => rfl, rfl, rfl, rfl, rfl⟩
  | append_singleton regs reg ih =>
      rw [registerAll, List.foldl_append]
      exact ih.register reg

end tables

/-! ## Routing by the tables -/

section routing

variable {engine} {req : HttpRequest}

/-- The loop stops at the first route that matches, and the label beside it is there. -/
theorem routeRegex_split {α : Type} (engine : RegexEngine ρ) (req : HttpRequest) (toTarget : τ → Target η κ) (resp : HttpResponse)
    (f : α → Option (RouteObj ρ τ × Bytes)) (all : List α) (front : List Bytes) :
    (∃ before a after obj label groups, all = before ++ a :: after ∧ f a = some (obj, label) ∧
      obj.matched engine req = some groups ∧
      (∀ b ∈ before, ∀ obj label, f b = some (obj, label) → obj.matched engine req = none) ∧
      routeRegex engine toTarget (front ++ (all.filterMap f).map (·.2)) req resp front.length
          ((all.filterMap f).map (·.1)) =
        some ([⟨toTarget obj.target_, extractPathParameters groups req, resp.setLogRoute label⟩], true)) ∨
    (∀ a ∈ all, ∀ obj label, f a = some (obj, label) → obj.matched engine req = none) ∧
      routeRegex engine toTarget (front ++ (all.filterMap f).map (·.2)) req resp front.length
        ((all.filterMap f).map (·.1)) = some ([], false) := by
  induction all generalizing front with
  | nil => exact .inr ⟨fun _ member => absurd member List.not_mem_nil, rfl⟩
  | cons a all ih =>
      cases here : f a with
      | none =>
          rw [List.filterMap_cons_none here]
          have first : ∀ obj label, f a = some (obj, label) → obj.matched engine req = none := by
            intro obj label found
            rw [here] at found
            cases found
          rcases ih front with ⟨before, b, after, obj, label, groups, rfl, there, matched, earlier, eq⟩ |
            ⟨silent, eq⟩
          · exact .inl ⟨a :: before, b, after, obj, label, groups, rfl, there, matched,
              List.forall_mem_cons.mpr ⟨first, earlier⟩, eq⟩
          · exact .inr ⟨List.forall_mem_cons.mpr ⟨first, silent⟩, eq⟩
      | some e =>
          obtain ⟨obj, label⟩ := e
          rw [List.filterMap_cons_some here, List.map_cons, List.map_cons]
          cases matched : obj.matched engine req with
          | some groups =>
              refine .inl ⟨[], a, all, obj, label, groups, rfl, here, matched,
                fun _ member => absurd member List.not_mem_nil, ?_⟩
              rw [routeRegex, matched]
              simp
          | none =>
              have next := ih (front ++ [label])
              rw [List.append_assoc, List.singleton_append, List.length_append, List.length_singleton]
                at next
              have skip : routeRegex engine toTarget
                  (front ++ label :: (all.filterMap f).map (·.2)) req resp front.length
                    (obj :: (all.filterMap f).map (·.1)) =
                  routeRegex engine toTarget (front ++ label :: (all.filterMap f).map (·.2)) req resp
                    (front.length + 1) ((all.filterMap f).map (·.1)) := by
                rw [routeRegex, matched]
              rw [skip]
              have first : ∀ obj' label', f a = some (obj', label') → obj'.matched engine req = none := by
                intro obj' label' found
                rw [here] at found
                cases found
                exact matched
              rcases next with ⟨before, b, after, obj', label', groups, rfl, there, matched', earlier, eq⟩ |
                ⟨silent, eq⟩
              · exact .inl ⟨a :: before, b, after, obj', label', groups, rfl, there, matched',
                  List.forall_mem_cons.mpr ⟨first, earlier⟩, eq⟩
              · exact .inr ⟨List.forall_mem_cons.mpr ⟨first, silent⟩, eq⟩

/-- No registration of the kind matches. -/
def Silent (engine : RegexEngine ρ) (regs : List (Registration η κ)) (req : HttpRequest)
    (kind : Registration.Kind) : Prop :=
  ∀ reg ∈ regs, reg.kind = kind → reg.answers engine req = none

variable {regs : List (Registration η κ)} {reg : Registration η κ}

/-- A dynamic registration answers for what it has put into the vectors. -/
theorem entry_some {storing : Storing} {method : Method} {path : Bytes} {target : τ}
    {e : RouteObj ρ τ × Bytes} (found : entry engine storing method path target = some e) :
    e.1.target_ = target ∧ e.2 = path ∧
      Registration.regexAnswers engine storing method path req = e.1.matched engine req := by
  unfold entry at found
  cases storing with
  | done =>
      obtain ⟨regex, compiled, rfl⟩ := Option.map_eq_some_iff.mp found
      refine ⟨rfl, rfl, ?_⟩
      rw [Registration.regexAnswers, compiled]
      rfl
  | _ => cases found

theorem entry_none {storing : Storing} {method : Method} {path : Bytes} {target : τ}
    (absent : entry engine storing method path target = none) :
    Registration.regexAnswers engine storing method path req = none := by
  unfold entry at absent
  cases storing with
  | done =>
      rw [Registration.regexAnswers, Option.map_eq_none_iff.mp absent]
      exact ite_self _
  | _ => rfl

theorem handlerEntry_some (req : HttpRequest) {e : RouteObj ρ η × Bytes} (found : handlerEntry engine reg = some e) :
    reg.kind = .regexHandler ∧ reg.target = .handler e.1.target_ ∧ reg.path = e.2 ∧
      reg.answers engine req = e.1.matched engine req := by
  cases reg with
  | regexHandler storing method path object =>
      obtain ⟨target, label, answers⟩ := entry_some found
      exact ⟨rfl, congrArg Target.handler target.symm, label.symm, answers⟩
  | _ => cases found

theorem callbackEntry_some (req : HttpRequest) {e : RouteObj ρ κ × Bytes} (found : callbackEntry engine reg = some e) :
    reg.kind = .regexCallback ∧ reg.target = .callback e.1.target_ ∧ reg.path = e.2 ∧
      reg.answers engine req = e.1.matched engine req := by
  cases reg with
  | regexCallback storing method path function =>
      obtain ⟨target, label, answers⟩ := entry_some found
      exact ⟨rfl, congrArg Target.callback target.symm, label.symm, answers⟩
  | _ => cases found

/-- A registration whose route does not match is silent, and so is one without a route. -/
theorem silent_of_handlerEntry (kind : reg.kind = .regexHandler)
    (fails : ∀ obj label, handlerEntry engine reg = some (obj, label) → obj.matched engine req = none) :
    reg.answers engine req = none := by
  cases found : handlerEntry engine reg with
  | some e => exact (handlerEntry_some req found).2.2.2.trans (fails e.1 e.2 found)
  | none =>
      cases reg with
      | regexHandler storing method path object => exact entry_none found
      | _ => cases kind

theorem silent_of_callbackEntry (kind : reg.kind = .regexCallback)
    (fails : ∀ obj label, callbackEntry engine reg = some (obj, label) → obj.matched engine req = none) :
    reg.answers engine req = none := by
  cases found : callbackEntry engine reg with
  | some e => exact (callbackEntry_some req found).2.2.2.trans (fails e.1 e.2 found)
  | none =>
      cases reg with
      | regexCallback storing method path function => exact entry_none found
      | _ => cases kind

/-- The key under which `route` looks for exact routes. -/
def keyOf (req : HttpRequest) : RouteKey := ⟨req.method, req.path⟩

theorem handlerAt_some (engine : RegexEngine ρ) {object : η} (found : handlerAt (keyOf req) reg = some object) :
    reg.kind = .handler ∧ reg.target = .handler object ∧ reg.path = req.path ∧
      reg.answers engine req = some [] := by
  cases reg with
  | handler method path object' =>
      rw [handlerAt] at found
      split at found
      · next same =>
          cases found
          exact ⟨rfl, rfl, congrArg RouteKey.path same, if_pos same⟩
      · cases found
  | _ => cases found

theorem callbackAt_some (engine : RegexEngine ρ) {function : κ} (found : callbackAt (keyOf req) reg = some function) :
    reg.kind = .callback ∧ reg.target = .callback function ∧ reg.path = req.path ∧
      reg.answers engine req = some [] := by
  cases reg with
  | callback method path function' =>
      rw [callbackAt] at found
      split at found
      · next same =>
          cases found
          exact ⟨rfl, rfl, congrArg RouteKey.path same, if_pos same⟩
      · cases found
  | _ => cases found

theorem silent_of_handlerAt (kind : reg.kind = .handler) (absent : handlerAt (keyOf req) reg = none) :
    reg.answers engine req = none := by
  cases reg with
  | handler method path object =>
      refine if_neg fun same => ?_
      rw [handlerAt, keyOf, if_pos same] at absent
      cases absent
  | _ => cases kind

theorem silent_of_callbackAt (kind : reg.kind = .callback) (absent : callbackAt (keyOf req) reg = none) :
    reg.answers engine req = none := by
  cases reg with
  | callback method path function =>
      refine if_neg fun same => ?_
      rw [callbackAt, keyOf, if_pos same] at absent
      cases absent
  | _ => cases kind

/-- The last registration that puts something under a key. -/
theorem last_split {f : Registration η κ → Option τ} {t : τ} (found : regs.reverse.findSome? f = some t) :
    ∃ before reg after, regs = before ++ reg :: after ∧ f reg = some t ∧ ∀ other ∈ after, f other = none := by
  obtain ⟨late, reg, early, eq, here, later⟩ := List.findSome?_eq_some_iff.mp found
  refine ⟨early.reverse, reg, late.reverse, ?_, here, fun other member => later other (List.mem_reverse.mp member)⟩
  rw [← List.reverse_reverse regs, eq]
  simp

theorem Selected.exact {before after : List (Registration η κ)} {groups : List Bytes}
    (answers : reg.answers engine req = some groups) (exact_ : reg.kind.isExact = true)
    (better : ∀ kind : Registration.Kind, kind.rank < reg.kind.rank →
      Silent engine (before ++ reg :: after) req kind)
    (later : ∀ other ∈ after, other.kind = reg.kind → other.answers engine req = none) :
    Selected engine (before ++ reg :: after) req reg groups where
  answers := answers
  kind other member some := Nat.le_of_not_lt fun less => some (better _ less other member rfl)
  place := ⟨before, after, rfl, by rwa [exact_]⟩

theorem Selected.dynamic {before after : List (Registration η κ)} {groups : List Bytes}
    (answers : reg.answers engine req = some groups) (dynamic : reg.kind.isExact = false)
    (better : ∀ kind : Registration.Kind, kind.rank < reg.kind.rank →
      Silent engine (before ++ reg :: after) req kind)
    (earlier : ∀ other ∈ before, other.kind = reg.kind → other.answers engine req = none) :
    Selected engine (before ++ reg :: after) req reg groups where
  answers := answers
  kind other member some := Nat.le_of_not_lt fun less => some (better _ less other member rfl)
  place := ⟨before, after, rfl, by rwa [dynamic]⟩

/-- Two places in a list are the same, or one is before the other. -/
theorem same_or_apart {α : Type} {a b : α} {before after before' after' : List α}
    (eq : before ++ a :: after = before' ++ b :: after') :
    a = b ∨ (a ∈ before' ∧ b ∈ after) ∨ (b ∈ before ∧ a ∈ after') := by
  rcases List.append_eq_append_iff.mp eq with ⟨mid, rfl, cut⟩ | ⟨mid, rfl, cut⟩
  · cases mid with
    | nil => exact .inl (List.cons.inj cut).1
    | cons c mid =>
        obtain ⟨rfl, rfl⟩ := List.cons.inj cut
        exact .inr (.inl ⟨by simp, by simp⟩)
  · cases mid with
    | nil => exact .inl (List.cons.inj cut).1.symm
    | cons c mid =>
        obtain ⟨rfl, rfl⟩ := List.cons.inj cut
        exact .inr (.inr ⟨by simp, by simp⟩)

/-- A request has one selected registration at most. -/
theorem Selected.unique {reg reg' : Registration η κ} {groups groups' : List Bytes}
    (selected : Selected engine regs req reg groups) (selected' : Selected engine regs req reg' groups') :
    reg = reg' ∧ groups = groups' := by
  obtain ⟨answers, kind, before, after, split, place⟩ := selected
  obtain ⟨answers', kind', before', after', split', place'⟩ := selected'
  have some : reg.answers engine req ≠ none := by simp [answers]
  have some' : reg'.answers engine req ≠ none := by simp [answers']
  have rank : reg.kind.rank = reg'.kind.rank :=
    Nat.le_antisymm (kind reg' (by simp [split']) some') (kind' reg (by simp [split]) some)
  have same : reg.kind = reg'.kind := by
    revert rank
    cases reg.kind <;> cases reg'.kind <;> decide
  have one : reg = reg' := by
    rw [← same] at place'
    rcases same_or_apart (split.symm.trans split') with eq | ⟨early, late⟩ | ⟨early, late⟩
    · exact eq
    all_goals
      cases exact_ : reg.kind.isExact with
      | true =>
          rw [exact_] at place place'
          first
            | exact absurd (place _ late same.symm) some'
            | exact absurd (place' _ late rfl) some
      | false =>
          rw [exact_] at place place'
          first
            | exact absurd (place _ early same.symm) some'
            | exact absurd (place' _ early rfl) some
  refine ⟨one, ?_⟩
  rw [one, answers'] at answers
  exact (Option.some.inj answers).symm

theorem silent_below_callback (handler : Silent engine regs req .handler) (kind : Registration.Kind)
    (better : kind.rank < Registration.Kind.callback.rank) : Silent engine regs req kind := by
  cases kind with
  | handler => exact handler
  | _ => exact absurd better (by decide)

theorem silent_below_regexHandler (handler : Silent engine regs req .handler)
    (callback : Silent engine regs req .callback) (kind : Registration.Kind)
    (better : kind.rank < Registration.Kind.regexHandler.rank) : Silent engine regs req kind := by
  cases kind with
  | handler => exact handler
  | callback => exact callback
  | _ => exact absurd better (by decide)

theorem silent_below_regexCallback (handler : Silent engine regs req .handler)
    (callback : Silent engine regs req .callback) (regexHandler : Silent engine regs req .regexHandler)
    (kind : Registration.Kind) (better : kind.rank < Registration.Kind.regexCallback.rank) :
    Silent engine regs req kind := by
  cases kind with
  | handler => exact handler
  | callback => exact callback
  | regexHandler => exact regexHandler
  | regexCallback => exact absurd better (by decide)

/-- What `route` finds in the map of handlers is the selected registration. -/
theorem selected_handler (engine : RegexEngine ρ) {object : η} (resp : HttpResponse)
    (found : regs.reverse.findSome? (handlerAt (keyOf req)) = some object) :
    ∃ reg, Selected engine regs req reg [] ∧
      reg.invocation [] req resp = ⟨.handler object, req, resp.setLogRoute req.path⟩ := by
  obtain ⟨before, reg, after, rfl, here, later⟩ := last_split found
  obtain ⟨kind, target, path, answers⟩ := handlerAt_some engine here
  refine ⟨reg, .exact answers (by rw [kind]; rfl) ?_ ?_, ?_⟩
  · intro better less
    rw [kind] at less
    exact absurd less (Nat.not_lt_zero _)
  · exact fun other member same => silent_of_handlerAt (same.trans kind) (later other member)
  · rw [Registration.invocation, target, path]
    rfl

theorem selected_callback {function : κ} (resp : HttpResponse)
    (found : regs.reverse.findSome? (callbackAt (keyOf req)) = some function)
    (handler : Silent engine regs req .handler) :
    ∃ reg, Selected engine regs req reg [] ∧
      reg.invocation [] req resp = ⟨.callback function, req, resp.setLogRoute req.path⟩ := by
  obtain ⟨before, reg, after, rfl, here, later⟩ := last_split found
  obtain ⟨kind, target, path, answers⟩ := callbackAt_some engine here
  refine ⟨reg, .exact answers (by rw [kind]; rfl) ?_ ?_, ?_⟩
  · intro better less
    rw [kind] at less
    exact silent_below_callback handler better less
  · exact fun other member same => silent_of_callbackAt (same.trans kind) (later other member)
  · rw [Registration.invocation, target, path]
    rfl

theorem selected_regexHandler {before after : List (Registration η κ)} {obj : RouteObj ρ η}
    {label : Bytes} {groups : List Bytes} (resp : HttpResponse)
    (here : handlerEntry engine reg = some (obj, label)) (matched : obj.matched engine req = some groups)
    (earlier : ∀ other ∈ before, ∀ obj label, handlerEntry engine other = some (obj, label) →
      obj.matched engine req = none)
    (handler : Silent engine (before ++ reg :: after) req .handler)
    (callback : Silent engine (before ++ reg :: after) req .callback) :
    Selected engine (before ++ reg :: after) req reg groups ∧
      reg.invocation groups req resp =
        ⟨.handler obj.target_, extractPathParameters groups req, resp.setLogRoute label⟩ := by
  obtain ⟨kind, target, path, answers⟩ := handlerEntry_some req here
  refine ⟨.dynamic (answers.trans matched) (by rw [kind]; rfl) ?_ ?_, ?_⟩
  · intro better less
    rw [kind] at less
    exact silent_below_regexHandler handler callback better less
  · exact fun other member same => silent_of_handlerEntry (same.trans kind) (earlier other member)
  · rw [Registration.invocation, target, path]

theorem selected_regexCallback {before after : List (Registration η κ)} {obj : RouteObj ρ κ}
    {label : Bytes} {groups : List Bytes} (resp : HttpResponse)
    (here : callbackEntry engine reg = some (obj, label)) (matched : obj.matched engine req = some groups)
    (earlier : ∀ other ∈ before, ∀ obj label, callbackEntry engine other = some (obj, label) →
      obj.matched engine req = none)
    (handler : Silent engine (before ++ reg :: after) req .handler)
    (callback : Silent engine (before ++ reg :: after) req .callback)
    (regexHandler : Silent engine (before ++ reg :: after) req .regexHandler) :
    Selected engine (before ++ reg :: after) req reg groups ∧
      reg.invocation groups req resp =
        ⟨.callback obj.target_, extractPathParameters groups req, resp.setLogRoute label⟩ := by
  obtain ⟨kind, target, path, answers⟩ := callbackEntry_some req here
  refine ⟨.dynamic (answers.trans matched) (by rw [kind]; rfl) ?_ ?_, ?_⟩
  · intro better less
    rw [kind] at less
    exact silent_below_regexCallback handler callback regexHandler better less
  · exact fun other member same => silent_of_callbackEntry (same.trans kind) (earlier other member)
  · rw [Registration.invocation, target, path]

/-- A request goes to the registration selected for it, or nowhere. -/
theorem route_registered (engine : RegexEngine ρ) (regs : List (Registration η κ)) (req : HttpRequest)
    (resp : HttpResponse) :
    (∃ reg groups, Selected engine regs req reg groups ∧
      (registerAll engine regs).route engine req resp = some ([reg.invocation groups req resp], true)) ∨
    (∀ reg ∈ regs, reg.answers engine req = none) ∧
      (registerAll engine regs).route engine req resp = some ([], false) := by
  have tables := tables_registerAll engine regs
  unfold Router.route
  dsimp only
  rw [tables.handlers]
  cases handled : regs.reverse.findSome? (handlerAt ⟨req.method, req.path⟩) with
  | some object =>
      obtain ⟨reg, selected, eq⟩ := selected_handler engine resp handled
      exact .inl ⟨reg, [], selected, by rw [eq]⟩
  | none =>
  have handler : Silent engine regs req .handler := fun reg member kind =>
    silent_of_handlerAt kind (List.findSome?_eq_none_iff.mp handled reg (List.mem_reverse.mpr member))
  dsimp only
  rw [tables.callbacks]
  cases called : regs.reverse.findSome? (callbackAt ⟨req.method, req.path⟩) with
  | some function =>
      obtain ⟨reg, selected, eq⟩ := selected_callback resp called handler
      exact .inl ⟨reg, [], selected, by rw [eq]⟩
  | none =>
  have callback : Silent engine regs req .callback := fun reg member kind =>
    silent_of_callbackAt kind (List.findSome?_eq_none_iff.mp called reg (List.mem_reverse.mpr member))
  dsimp only
  rw [tables.regexHandlers, tables.regexHandlerLabels, tables.regexCallbacks, tables.regexCallbackLabels]
  rcases routeRegex_split engine req Target.handler resp (handlerEntry engine) regs [] with
    ⟨before, reg, after, obj, label, groups, rfl, here, matched, earlier, eq⟩ | ⟨fails, eq⟩
  · obtain ⟨selected, called⟩ := selected_regexHandler resp here matched earlier handler callback
    rw [List.nil_append, List.length_nil] at eq
    exact .inl ⟨reg, groups, selected, by rw [eq, called]; rfl⟩
  have regexHandler : Silent engine regs req .regexHandler := fun reg member kind =>
    silent_of_handlerEntry kind (fails reg member)
  rw [List.nil_append, List.length_nil] at eq
  rw [eq, Option.bind_some]
  dsimp only
  rw [if_neg Bool.false_ne_true]
  rcases routeRegex_split engine req Target.callback resp (callbackEntry engine) regs [] with
    ⟨before, reg, after, obj, label, groups, rfl, here, matched, earlier, eq⟩ | ⟨fails, eq⟩
  · obtain ⟨selected, called⟩ :=
      selected_regexCallback resp here matched earlier handler callback regexHandler
    rw [List.nil_append, List.length_nil] at eq
    exact .inl ⟨reg, groups, selected, by rw [eq, called]; rfl⟩
  rw [List.nil_append, List.length_nil] at eq
  rw [eq]
  refine .inr ⟨fun reg member => ?_, rfl⟩
  cases kind : reg.kind with
  | handler => exact handler reg member kind
  | callback => exact callback reg member kind
  | regexHandler => exact regexHandler reg member kind
  | regexCallback => exact silent_of_callbackEntry kind (fails reg member)

end routing

/-- The tables act as one priority list: the target of the selected registration is called
once, with its path as the label, and nothing is called just when nothing matches. -/
theorem route_selects (engine : RegexEngine ρ) (regs : List (Registration η κ)) (req : HttpRequest)
    (resp : HttpResponse) :
    ((∃ reg groups, Selected engine regs req reg groups) ∨ ∀ reg ∈ regs, reg.answers engine req = none) ∧
      (∀ reg groups, Selected engine regs req reg groups →
        (registerAll engine regs).route engine req resp =
          some ([⟨reg.target, extractPathParameters groups req, resp.setLogRoute reg.path⟩], true)) ∧
      ((registerAll engine regs).route engine req resp = some ([], false) ↔
        ∀ reg ∈ regs, reg.answers engine req = none) := by
  have absurd_ {reg : Registration η κ} {groups : List Bytes} (selected : Selected engine regs req reg groups)
      (silent : ∀ reg ∈ regs, reg.answers engine req = none) : False := by
    obtain ⟨before, after, split, -⟩ := selected.place
    have member : reg ∈ regs := by simp [split]
    have answers := selected.answers
    rw [silent reg member] at answers
    cases answers
  rcases route_registered engine regs req resp with ⟨reg, groups, selected, eq⟩ | ⟨silent, eq⟩
  · refine ⟨.inl ⟨reg, groups, selected⟩, fun reg' groups' selected' => ?_, fun none => ?_, fun silent => ?_⟩
    · obtain ⟨rfl, rfl⟩ := selected.unique selected'
      exact eq
    · rw [eq] at none
      cases none
    · exact (absurd_ selected silent).elim
  · exact ⟨.inr silent, fun reg groups selected => (absurd_ selected silent).elim, fun _ => silent, fun _ => eq⟩

end AIService.Http
