import MiniNetDist.Library.Bytes
import MiniNetDist.Library.CharArray
import MiniNetDist.Library.Run

/-! The router of `mini-app-protocol/src/rest_api.c`. The dispatcher answers 405 at the first route whose pattern
matches, without a look at the routes behind it. -/

namespace MiniNetDist.AppProtocol.Rest

open Library

def REST_MAX_RESOURCES : Nat := 64
def REST_MAX_URI_PATTERN : Nat := 256
def REST_MAX_PATH_SEGMENTS : Nat := 16
def REST_MAX_PARAM_NAME : Nat := 64
def REST_MAX_PARAM_VALUE : Nat := 256

inductive RESTMethod where
  | get
  | post
  | put
  | delete
  | patch
  | options
  | head
  deriving DecidableEq, Repr

def RESTMethod.toNat : RESTMethod → Nat
  | .get => 0
  | .post => 1
  | .put => 2
  | .delete => 3
  | .patch => 4
  | .options => 5
  | .head => 6

structure RESTParam where
  key : CharArray REST_MAX_PARAM_NAME
  value : CharArray REST_MAX_PARAM_VALUE
  deriving DecidableEq, Repr

structure RESTHeader where
  name : CharArray REST_MAX_PARAM_NAME
  value : CharArray REST_MAX_PARAM_VALUE
  deriving DecidableEq, Repr

structure RESTRequest where
  uri : CharArray REST_MAX_URI_PATTERN
  method : RESTMethod
  headers : List RESTHeader
  body : Bytes
  pathParams : List RESTParam
  query : List RESTParam
  deriving DecidableEq, Repr

structure RESTResponse where
  statusCode : Nat
  headers : List RESTHeader
  body : Bytes
  deriving DecidableEq, Repr

abbrev RESTHandler := RESTRequest → RESTResponse → RESTResponse

structure RESTResource where
  uriPattern : CharArray REST_MAX_URI_PATTERN
  methods : UInt8
  handler : RESTHandler

structure RESTRouter where
  resources : List RESTResource
  fits : resources.length ≤ REST_MAX_RESOURCES

section Registration

def restRouterInit : RESTRouter := ⟨[], Nat.zero_le _⟩

/-- The bit of a method in a mask of eight bits. -/
def methodBit (method : Nat) : UInt8 := .ofNat (1 <<< method)

/-- Fill the next slot, which is zero since the router was set up. -/
def register (router : RESTRouter) (uriPattern : CString) (methods : UInt8) (handler : RESTHandler) :
    Except Int RESTRouter :=
  if room : router.resources.length < REST_MAX_RESOURCES then
    .ok
      { resources := router.resources ++ [⟨.store REST_MAX_URI_PATTERN uriPattern, methods, handler⟩]
        fits := List.length_append.trans_le room }
  else .error (-2)

def restRegisterRoute (router : RESTRouter) (uriPattern : CString) (method : RESTMethod) (handler : RESTHandler) :
    Except Int RESTRouter :=
  register router uriPattern (0 ||| methodBit method.toNat) handler

def restRegisterRoutes (router : RESTRouter) (uriPattern : CString) (methods : List UInt8) (handler : RESTHandler) :
    Except Int RESTRouter :=
  register router uriPattern (methods.foldl (fun mask method => mask ||| methodBit method.toNat) 0) handler

end Registration

section Matching

def tolower (char : UInt8) : UInt8 := if 65 ≤ char ∧ char ≤ 90 then char + 32 else char

/-- A parameter as the matcher writes it; a part that does not fit is left as it is. -/
def RESTParam.fill (old : RESTParam) (name value : CString) : RESTParam :=
  { key := if name.length < REST_MAX_PARAM_NAME then .store REST_MAX_PARAM_NAME name else old.key
    value := if value.length < REST_MAX_PARAM_VALUE then .store REST_MAX_PARAM_VALUE value else old.value }

/-- The loop of the matcher. The first argument counts the characters of a name in braces still to be passed over;
`old` is what the array of parameters holds before. -/
def matchFrom (old : Nat → RESTParam) (maxParams : Nat) :
    Nat → CString → CString → List RESTParam → Bool × List RESTParam
  | _, [], uri, params => (uri = [], params)
  | skip + 1, _ :: pattern, uri, params => matchFrom old maxParams skip pattern uri params
  | 0, _ :: _, [], params => (false, params)
  | 0, char :: pattern, first :: uri, params =>
    if char = 123 then
      let name := pattern.takeWhile (· ≠ 125)
      let value := (first :: uri).takeWhile (· ≠ 47)
      matchFrom old maxParams (name.length + 1) pattern ((first :: uri).dropWhile (· ≠ 47))
        (if params.length < maxParams then params ++ [(old params.length).fill name value] else params)
    else if tolower char ≠ tolower first then (false, params)
    else matchFrom old maxParams 0 pattern uri params

def restUriMatch (pattern uri : CString) (old : Nat → RESTParam) (maxParams : Nat) : Bool × List RESTParam :=
  matchFrom old maxParams 0 pattern uri []

end Matching

section Dispatch

def restResponseInit : RESTResponse := ⟨200, [], []⟩

def restResponseSet (resp : RESTResponse) (code : Nat) (body : CString) : RESTResponse :=
  { resp with
    statusCode := code
    body := body }

/-- Add a path parameter while there is room. -/
def RESTRequest.addParam (req : RESTRequest) (param : RESTParam) : RESTRequest :=
  if req.pathParams.length < REST_MAX_PATH_SEGMENTS then { req with pathParams := req.pathParams ++ [param] } else req

/-- The loop over the routes; `stack` is what the array of parameters holds at the start of each pass. -/
def dispatchFrom (req : RESTRequest) (stack : Nat → Nat → RESTParam) : Nat → List RESTResource → Int × RESTResponse
  | _, [] => (404, restResponseSet restResponseInit 404 (ascii "\x7b\"error\": \"Not Found\"\x7d"))
  | i, route :: routes =>
    match restUriMatch route.uriPattern.text req.uri.text (stack i) REST_MAX_PATH_SEGMENTS with
    | (true, params) =>
      if route.methods &&& methodBit req.method.toNat = 0 then
        (405, restResponseSet restResponseInit 405 (ascii "\x7b\"error\": \"Method Not Allowed\"\x7d"))
      else (0, route.handler (params.foldl RESTRequest.addParam req) restResponseInit)
    | (false, _) => dispatchFrom req stack (i + 1) routes

def restDispatchFull (router : RESTRouter) (req : RESTRequest) (stack : Nat → Nat → RESTParam) : Int × RESTResponse :=
  dispatchFrom req stack 0 router.resources

end Dispatch

section Routing

inductive RegisterCall where
  | route (uriPattern : CString) (method : RESTMethod) (handler : RESTHandler)
  | routes (uriPattern : CString) (methods : List UInt8) (handler : RESTHandler)

/-- A call that fails leaves the router as it is. -/
def RESTRouter.call (router : RESTRouter) : RegisterCall → RESTRouter
  | .route uriPattern method handler => (restRegisterRoute router uriPattern method handler).toOption.getD router
  | .routes uriPattern methods handler => (restRegisterRoutes router uriPattern methods handler).toOption.getD router

def blankParam : RESTParam := ⟨.store _ [], .store _ []⟩

/-- The route's pattern matches. -/
def RESTResource.serves (route : RESTResource) (uri : CString) : Bool :=
  (restUriMatch route.uriPattern.text uri (fun _ => blankParam) REST_MAX_PATH_SEGMENTS).1

def RESTResource.allows (route : RESTResource) (method : RESTMethod) : Prop :=
  route.methods &&& methodBit method.toNat ≠ 0

instance (route : RESTResource) (method : RESTMethod) : Decidable (route.allows method) :=
  inferInstanceAs (Decidable (_ ≠ _))

/-- Some route matches and allows the method. -/
def RESTRouter.Answers (router : RESTRouter) (req : RESTRequest) : Prop :=
  ∃ route ∈ router.resources, route.serves req.uri.text = true ∧ route.allows req.method

/-- The handler of a matching route is invoked if one allows the method; 405 says that some route matches and none
allows it. -/
structure Finds (router : RESTRouter) (req : RESTRequest) (stack : Nat → Nat → RESTParam) : Prop where
  handled : router.Answers req → ∃ route ∈ router.resources, route.serves req.uri.text = true ∧
    route.allows req.method ∧ ∃ params : List RESTParam,
      restDispatchFull router req stack = (0, route.handler (params.foldl RESTRequest.addParam req) restResponseInit)
  refused : (restDispatchFull router req stack).1 = 405 →
    (∃ route ∈ router.resources, route.serves req.uri.text = true) ∧ ¬ router.Answers req

/-- The first route that matches allows the method, if any route that matches does. -/
def FirstAllows (router : RESTRouter) (req : RESTRequest) : Prop :=
  router.Answers req → ∀ first ∈ router.resources.find? (·.serves req.uri.text), first.allows req.method

/-- Whether a pattern matches does not depend on the array for the parameters. -/
theorem matchFrom_fst (old other : Nat → RESTParam) (maxParams skip : Nat) (pattern uri : CString)
    (params params' : List RESTParam) :
    (matchFrom old maxParams skip pattern uri params).1 = (matchFrom other maxParams skip pattern uri params').1 := by
  induction pattern generalizing skip uri params params' with
  | nil => cases skip <;> rfl
  | cons char pattern ih =>
    cases skip with
    | succ skip => exact ih skip uri params params'
    | zero =>
      cases uri with
      | nil => rfl
      | cons first uri =>
        simp only [matchFrom]
        by_cases brace : char = 123
        · rw [if_pos brace, if_pos brace]
          exact ih _ _ _ _
        · rw [if_neg brace, if_neg brace]
          by_cases different : tolower char ≠ tolower first
          · rw [if_pos different, if_pos different]
          · rw [if_neg different, if_neg different]
            exact ih _ _ _ _

/-- The first route that matches decides. -/
theorem dispatchFrom_eq (req : RESTRequest) (stack : Nat → Nat → RESTParam) (i : Nat) (routes : List RESTResource) :
    match routes.find? (·.serves req.uri.text) with
    | none => (dispatchFrom req stack i routes).1 = 404
    | some route =>
      (¬ route.allows req.method → (dispatchFrom req stack i routes).1 = 405) ∧
      (route.allows req.method → ∃ params : List RESTParam, dispatchFrom req stack i routes =
        (0, route.handler (params.foldl RESTRequest.addParam req) restResponseInit)) := by
  induction routes generalizing i with
  | nil => rfl
  | cons route routes ih =>
    have same : (restUriMatch route.uriPattern.text req.uri.text (stack i) REST_MAX_PATH_SEGMENTS).1 =
      route.serves req.uri.text := matchFrom_fst _ _ _ _ _ _ _ _
    rw [List.find?_cons]
    cases result : restUriMatch route.uriPattern.text req.uri.text (stack i) REST_MAX_PATH_SEGMENTS with
    | mk matched params =>
      rw [result] at same
      rw [← same]
      cases matched with
      | false =>
        simp only [dispatchFrom, result]
        exact ih (i + 1)
      | true =>
        simp only [dispatchFrom, result]
        constructor
        · intro disallowed
          rw [if_pos (Decidable.not_not.mp disallowed)]
        · intro allowed
          exact ⟨params, if_neg allowed⟩

/-- The dispatcher finds the handler exactly when the first route that matches allows the method or no matching route
does. -/
theorem rest_dispatch_finds_iff (calls : List RegisterCall) (req : RESTRequest) (stack : Nat → Nat → RESTParam) :
    Finds (calls.foldl RESTRouter.call restRouterInit) req stack ↔
      FirstAllows (calls.foldl RESTRouter.call restRouterInit) req := by
  generalize calls.foldl RESTRouter.call restRouterInit = router
  have outcome := dispatchFrom_eq req stack 0 router.resources
  cases found : router.resources.find? (·.serves req.uri.text) with
  | none =>
    have unserved : ¬ router.Answers req := by
      rintro ⟨route, registered, serves, -⟩
      exact List.find?_eq_none.mp found route registered serves
    rw [found] at outcome
    constructor
    · intro _ answers
      exact absurd answers unserved
    · intro _
      refine ⟨fun answers => absurd answers unserved, ?_⟩
      intro refused
      rw [restDispatchFull, outcome] at refused
      exact absurd refused (by decide)
  | some first =>
    have serves := List.find?_some found
    have registered := List.mem_of_find?_eq_some found
    rw [found] at outcome
    obtain ⟨refusing, handling⟩ := outcome
    by_cases allowed : first.allows req.method
    · obtain ⟨params, handled⟩ := handling allowed
      constructor
      · intro _ _ route same
        cases Option.some.inj (found.symm.trans same)
        exact allowed
      · intro _
        refine ⟨fun _ => ⟨first, registered, serves, allowed, params, handled⟩, ?_⟩
        intro refused
        rw [restDispatchFull, handled] at refused
        exact absurd refused (show ¬ (0 : Int) = 405 by decide)
    · have refused := refusing allowed
      constructor
      · intro finds answers
        exact absurd answers (finds.refused refused).2
      · intro firstAllows
        have unanswered : ¬ router.Answers req := fun answers => allowed (firstAllows answers first found)
        exact ⟨fun answers => absurd answers unanswered, fun _ => ⟨⟨first, registered, serves⟩, unanswered⟩⟩

/-- A POST to `/a`. -/
def postRequest : RESTRequest := ⟨.store _ (ascii "/a"), .post, [], [], [], []⟩

/-- A handler that says what it was registered for. -/
def answering (text : String) : RESTHandler := fun _ resp => restResponseSet resp 200 (ascii text)

/-- One route for GET and one for POST, with the same pattern. -/
def getThenPost : List RegisterCall :=
  [.route (ascii "/a") .get (answering "get"), .route (ascii "/a") .post (answering "post")]

/-- The POST is refused at the route for GET. -/
theorem second_method_refused :
    (restDispatchFull (getThenPost.foldl RESTRouter.call restRouterInit) postRequest fun _ _ => blankParam).1 = 405 ∧
      ¬ Finds (getThenPost.foldl RESTRouter.call restRouterInit) postRequest fun _ _ => blankParam := by
  have refused : (restDispatchFull (getThenPost.foldl RESTRouter.call restRouterInit) postRequest
      fun _ _ => blankParam).1 = 405 := by decide
  refine ⟨refused, ?_⟩
  intro finds
  apply (finds.refused refused).2
  exact ⟨⟨.store _ (ascii "/a"), 2, answering "post"⟩, .tail _ (.head _), by decide, by decide⟩

end Routing

end MiniNetDist.AppProtocol.Rest
