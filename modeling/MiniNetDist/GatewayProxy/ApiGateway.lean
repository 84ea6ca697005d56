import Mathlib.Data.List.Induction
import MiniNetDist.Library.CharArray
import MiniNetDist.Library.Earliest

/-! The routes of `mini-gateway-proxy/src/api_gateway.c`. One pass over the table mixes exact, wildcard and prefix
matches with the check of the method. -/

namespace MiniNetDist.GatewayProxy.ApiGateway

open Library

def AG_MAX_ROUTES : Nat := 128
def AG_PATH_LEN : Nat := 256
def AG_SERVICE_LEN : Nat := 256

/-- The methods are those below `num_methods`. -/
structure APIRoute where
  path : CharArray AG_PATH_LEN
  methods : List (CharArray 16)
  upstreamHost : CharArray AG_SERVICE_LEN
  upstreamPort : Int
  authRequired : Bool
  rateLimitRps : Int
  deriving DecidableEq, Repr

/-- The routes are those below `num_routes`. -/
structure APIGateway where
  routes : List APIRoute
  deriving DecidableEq, Repr

def gatewayInit : APIGateway := ⟨[]⟩

def methodMatch (route : APIRoute) (method : CString) : Bool :=
  route.methods.any fun allowed => allowed.text = method || allowed.text = ascii "ANY"

/-- What `gateway_register_route` is called with. -/
structure Registration where
  path : CString
  method : CString
  upstream : CString
  port : Int
  authRequired : Bool
  rateLimitRps : Int

def gatewayRegisterRoute (gw : APIGateway) (given : Registration) : Int × APIGateway :=
  if gw.routes.length ≥ AG_MAX_ROUTES then (-1, gw)
  else
    let route : APIRoute := {
      path := .store AG_PATH_LEN given.path
      methods := [.store 16 given.method]
      upstreamHost := .store AG_SERVICE_LEN given.upstream
      upstreamPort := given.port
      authRequired := given.authRequired
      rateLimitRps := given.rateLimitRps }
    (0, ⟨gw.routes ++ [route]⟩)

/-- The table after some routes were registered. -/
def registered (given : List Registration) : APIGateway :=
  given.foldl (fun gw given => (gatewayRegisterRoute gw given).2) gatewayInit

/-- The path of the route ends with an asterisk, and the path begins with what stands before it. -/
def WildcardMatch (path : CString) (route : APIRoute) : Prop :=
  route.path.text.getLast? = some 42 ∧ route.path.text.take (route.path.text.length - 1) <+: path
  deriving Decidable

/-- The body of the loop of `gateway_match_route`, with the best route so far and the length of its path. -/
def matchRound (path method : CString) (state : Option APIRoute × Nat) (route : APIRoute) :
    (Option APIRoute × Nat) ⊕ APIRoute :=
  let (best, bestLen) := state
  let routeLen := route.path.text.length
  if routeLen = 0 then .inl (best, bestLen)
  else if path = route.path.text then
    if methodMatch route method then .inr route
    else if routeLen > bestLen then .inl (some route, routeLen)
    else .inl (best, bestLen)
  else if WildcardMatch path route ∧ methodMatch route method then .inr route
  else
    let (best, bestLen) :=
      if WildcardMatch path route ∧ routeLen > bestLen then (some route, routeLen) else (best, bestLen)
    if route.path.text <+: path ∧ routeLen > bestLen then
      if methodMatch route method then .inr route else .inl (some route, routeLen)
    else .inl (best, bestLen)

def gatewayMatchRoute (gw : APIGateway) (path method : CString) : Option APIRoute :=
  match Earliest.search (matchRound path method) (none, 0) gw.routes with
  | .inl (best, _) => best
  | .inr route => some route

/-- The path of the route is the path, a beginning of it, or one up to a trailing asterisk. -/
def Matches (path : CString) (route : APIRoute) : Prop :=
  path = route.path.text ∨ route.path.text <+: path ∨ WildcardMatch path route
  deriving Decidable

/-- A route that is returned matches the path and allows the method, and has the longest path of all such routes; none
is returned only if there is no such route. -/
def Enforces (gw : APIGateway) (path method : CString) : Prop :=
  (∀ route ∈ gatewayMatchRoute gw path method,
    route ∈ gw.routes ∧ Matches path route ∧ methodMatch route method = true ∧
      ∀ other ∈ gw.routes, Matches path other → methodMatch other method = true →
        other.path.text.length ≤ route.path.text.length) ∧
  (gatewayMatchRoute gw path method = none →
    ∀ route ∈ gw.routes, Matches path route → methodMatch route method = false)

/-- The route matches and allows the method. If it matches as a prefix only, its path is longer than that of every route
before it that matches and does not allow the method. -/
def Preferred (path method : CString) (before : List APIRoute) (route : APIRoute) : Prop :=
  Matches path route ∧ methodMatch route method = true ∧
    (path = route.path.text ∨ WildcardMatch path route ∨
      ∀ other ∈ before, Matches path other → methodMatch other method = false →
        other.path.text.length < route.path.text.length)

/-- Where a route matches, the first one that is preferred has the longest path of all that match and allow the
method. -/
def LongestFirst (gw : APIGateway) (path method : CString) : Prop :=
  (∀ route ∈ gw.routes, ¬Matches path route) ∨
    ∃ before route after, Earliest.First (Preferred path method) gw.routes before route after ∧
      ∀ other ∈ gw.routes, Matches path other → methodMatch other method = true →
        other.path.text.length ≤ route.path.text.length

section Rounds

variable {path method : CString} {before : List APIRoute} {route : APIRoute} {state : Option APIRoute × Nat}

/-- The best route so far is one that matches and does not allow the method, with the longest path of these. -/
structure Passed (path method : CString) (before : List APIRoute) (state : Option APIRoute × Nat) : Prop where
  longest : ∀ route ∈ before, Matches path route → methodMatch route method = false →
    route.path.text.length ≤ state.2
  best : state = (none, 0) ∨ ∃ route ∈ before, Matches path route ∧ methodMatch route method = false ∧
    state = (some route, route.path.text.length)

theorem Passed.longer_iff (passed : Passed path method before state) (named : route.path.text ≠ []) :
    (∀ other ∈ before, Matches path other → methodMatch other method = false →
      other.path.text.length < route.path.text.length) ↔ state.2 < route.path.text.length := by
  constructor
  · intro longer
    rcases passed.best with rfl | ⟨best, held, fits, refuses, rfl⟩
    · exact List.length_pos_iff.mpr named
    · exact longer best held fits refuses
  · intro longer other held fits refuses
    exact Nat.lt_of_le_of_lt (passed.longest other held fits refuses) longer

/-- What one round does with a route that has a path. -/
theorem matchRound_eq (named : route.path.text ≠ []) :
    matchRound path method state route =
      if Matches path route then
        if methodMatch route method then
          if path = route.path.text ∨ WildcardMatch path route ∨ state.2 < route.path.text.length then .inr route
          else .inl state
        else .inl (if state.2 < route.path.text.length then (some route, route.path.text.length) else state)
      else .inl state := by
  obtain ⟨best, bestLen⟩ := state
  have filled : ¬route.path.text.length = 0 := fun empty => named (List.length_eq_zero_iff.mp empty)
  simp only [matchRound, Matches, if_neg filled, gt_iff_lt]
  by_cases exact : path = route.path.text
  · simp only [exact, true_or, if_true]
    split <;> [rfl; split <;> rfl]
  · by_cases wild : WildcardMatch path route
    · simp only [exact, wild, true_and, or_true, true_or, if_true, if_false]
      split
      · rfl
      · by_cases longer : bestLen < route.path.text.length
        · simp [longer]
        · simp [longer]
    · simp only [exact, wild, false_and, or_false, false_or, if_false]
      by_cases begins : route.path.text <+: path
      · by_cases longer : bestLen < route.path.text.length
        · simp [longer, begins]
        · simp [longer, begins]
      · simp [begins]

/-- A route that is passed over changes the best one only if it matches and does not allow the method. -/
theorem Passed.over (passed : Passed path method before state)
    (other : ¬(Matches path route ∧ methodMatch route method = false)) :
    Passed path method (before ++ [route]) state where
  longest := by
    intro candidate held fits refuses
    rcases List.mem_append.mp held with earlier | last
    · exact passed.longest candidate earlier fits refuses
    · rw [List.mem_singleton.mp last] at fits refuses
      exact absurd ⟨fits, refuses⟩ other
  best := by
    rcases passed.best with empty | ⟨best, held, rest⟩
    · exact .inl empty
    · exact .inr ⟨best, List.mem_append_left _ held, rest⟩

theorem Passed.refused (passed : Passed path method before state) (fits : Matches path route)
    (refuses : methodMatch route method = false) :
    Passed path method (before ++ [route])
      (if state.2 < route.path.text.length then (some route, route.path.text.length) else state) where
  longest := by
    intro candidate held fits' refuses'
    rcases List.mem_append.mp held with earlier | last
    · have shorter := passed.longest candidate earlier fits' refuses'
      split
      · rename_i longer
        exact Nat.le_trans shorter (Nat.le_of_lt longer)
      · exact shorter
    · rw [List.mem_singleton.mp last]
      split
      · exact Nat.le_refl _
      · rename_i shorter
        exact Nat.le_of_not_lt shorter
  best := by
    split
    · exact .inr ⟨route, List.mem_append_right _ (List.mem_singleton_self _), fits, refuses, rfl⟩
    · rcases passed.best with empty | ⟨best, held, rest⟩
      · exact .inl empty
      · exact .inr ⟨best, List.mem_append_left _ held, rest⟩

/-- A round returns the route that is preferred, and passes over every other one. -/
theorem Passed.round (passed : Passed path method before state) (named : route.path.text ≠ []) :
    Preferred path method before route ∧ matchRound path method state route = .inr route ∨
      ¬Preferred path method before route ∧ ∃ next, matchRound path method state route = .inl next ∧
        Passed path method (before ++ [route]) next := by
  rw [matchRound_eq named]
  by_cases fits : Matches path route
  · cases allows : methodMatch route method with
    | true =>
      rw [if_pos fits, if_pos rfl]
      by_cases wins : path = route.path.text ∨ WildcardMatch path route ∨ state.2 < route.path.text.length
      · rw [if_pos wins]
        exact .inl ⟨⟨fits, allows, wins.imp_right (Or.imp_right (passed.longer_iff named).mpr)⟩, rfl⟩
      · rw [if_neg wins]
        refine .inr ⟨fun preferred => wins ?_, _, rfl, passed.over ?_⟩
        · exact preferred.2.2.imp_right (Or.imp_right (passed.longer_iff named).mp)
        · exact fun both => Bool.false_ne_true (both.2.symm.trans allows)
    | false =>
      rw [if_pos fits, if_neg Bool.false_ne_true]
      refine .inr ⟨fun preferred => ?_, _, rfl, passed.refused fits allows⟩
      exact absurd (allows.symm.trans preferred.2.1) Bool.false_ne_true
  · rw [if_neg fits]
    exact .inr ⟨fun preferred => fits preferred.1, _, rfl, passed.over fun both => fits both.1⟩

/-- The route that is returned: the first one that is preferred, or else one that does not allow the method, if any
matches. -/
theorem gatewayMatchRoute_cases {gw : APIGateway} (named : ∀ route ∈ gw.routes, route.path.text ≠ [])
    (path method : CString) :
    (∃ before route after, Earliest.First (Preferred path method) gw.routes before route after ∧
      gatewayMatchRoute gw path method = some route) ∨
    (∃ route ∈ gw.routes, Matches path route ∧ methodMatch route method = false ∧
      gatewayMatchRoute gw path method = some route ∧ Earliest.Nowhere (Preferred path method) gw.routes) ∨
    (∀ route ∈ gw.routes, ¬Matches path route) ∧ gatewayMatchRoute gw path method = none := by
  have initial : Passed path method [] (none, 0) := ⟨(fun _ held => nomatch held), .inl rfl⟩
  have rounds : ∀ before route after state, gw.routes = before ++ route :: after → Passed path method before state →
      Preferred path method before route ∧ matchRound path method state route = .inr route ∨
        ¬Preferred path method before route ∧ ∃ next, matchRound path method state route = .inl next ∧
          Passed path method (before ++ [route]) next := by
    intro before route after state split passed
    exact passed.round (named route (split ▸ List.mem_append_right _ (List.mem_cons_self ..)))
  rw [gatewayMatchRoute]
  rcases Earliest.search_cases rounds initial with ⟨before, route, after, first, found⟩ | ⟨nowhere, last, ended, passed⟩
  · rw [found]
    exact .inl ⟨before, route, after, first, rfl⟩
  · rw [ended]
    right
    rcases passed.best with rfl | ⟨route, held, fits, refuses, rfl⟩
    · refine .inr ⟨?_, rfl⟩
      intro route held fits
      obtain ⟨before, after, split⟩ := List.append_of_mem held
      have filled := List.length_pos_iff.mpr (named route held)
      have refusesNone : ∀ other ∈ gw.routes, Matches path other → methodMatch other method = true := by
        intro other there fits'
        by_contra refuses
        have empty := passed.longest other there fits' (Bool.eq_false_iff.mpr refuses)
        exact named other there (List.length_eq_zero_iff.mp (Nat.le_zero.mp empty))
      refine nowhere before route after split ⟨fits, refusesNone route held fits, .inr (.inr ?_)⟩
      intro other there fits' refuses
      have allows := refusesNone other (split ▸ List.mem_append_left _ there) fits'
      exact absurd (refuses.symm.trans allows) Bool.false_ne_true
    · exact .inl ⟨route, held, fits, refuses, rfl, nowhere⟩

end Rounds

section Tables

variable {gw : APIGateway} {given : List Registration}

theorem store_named {path : CString} (named : cString path ≠ []) : (CharArray.store AG_PATH_LEN path).text ≠ [] := by
  cases path with
  | nil => exact named
  | cons first rest =>
    intro empty
    have zero : first = 0 := by
      by_contra other
      have kept : cString ((first :: rest).take (AG_PATH_LEN - 1)) = first :: cString (rest.take (AG_PATH_LEN - 2)) :=
        List.takeWhile_cons_of_pos (by simpa using other)
      exact List.cons_ne_nil _ _ (kept.symm.trans empty)
    exact named (List.takeWhile_cons_of_neg (by simpa using zero))

/-- Every route of a table has a path if all registrations have. -/
theorem registered_named (named : ∀ registration ∈ given, cString registration.path ≠ []) :
    ∀ route ∈ (registered given).routes, route.path.text ≠ [] := by
  induction given using List.reverseRecOn with
  | nil => exact fun route held => nomatch held
  | append_singleton earlier registration ih =>
    obtain ⟨before, last⟩ := List.forall_mem_append.mp named
    intro route held
    rw [registered, List.foldl_concat, gatewayRegisterRoute] at held
    split at held
    · exact ih before route held
    · rcases List.mem_append.mp held with old | new
      · exact ih before route old
      · rw [List.mem_singleton.mp new]
        exact store_named (last registration (List.mem_singleton_self _))

theorem enforces_iff (named : ∀ route ∈ gw.routes, route.path.text ≠ []) (path method : CString) :
    Enforces gw path method ↔ LongestFirst gw path method := by
  rcases gatewayMatchRoute_cases named path method with ⟨before, route, after, first, found⟩ |
      ⟨route, held, fits, refuses, found, nowhere⟩ | ⟨none, found⟩
  · have held : route ∈ gw.routes := first.split ▸ List.mem_append_right _ (List.mem_cons_self ..)
    obtain ⟨fits, allows, -⟩ := first.accepted
    rw [Enforces, found]
    constructor
    · intro ⟨returned, _⟩
      exact .inr ⟨before, route, after, first, (returned route rfl).2.2.2⟩
    · intro ordered
      refine ⟨?_, fun none => nomatch none⟩
      intro _ same
      obtain rfl := Option.some.inj same
      refine ⟨held, fits, allows, ?_⟩
      rcases ordered with none | ⟨_, other, _, again, longest⟩
      · exact absurd fits (none route held)
      · rw [first.unique again]
        exact longest
  · rw [Enforces, found]
    constructor
    · intro ⟨returned, _⟩
      exact absurd (refuses.symm.trans (returned route rfl).2.2.1) Bool.false_ne_true
    · intro ordered
      rcases ordered with none | ⟨_, _, _, first, _⟩
      · exact absurd fits (none route held)
      · exact absurd nowhere first.notNowhere
  · rw [Enforces, found]
    refine ⟨fun _ => .inl none, fun _ => ⟨fun _ returned => (nomatch returned), ?_⟩⟩
    exact fun _ route held fits => absurd fits (none route held)

/-- For every table of routes with paths, every path and every method: the routes enforce methods and specificity
exactly if no route matches, or the first preferred one is the longest that allows the method. -/
theorem gatewayMatchRoute_enforces_iff (named : ∀ registration ∈ given, cString registration.path ≠ [])
    (path method : CString) :
    Enforces (registered given) path method ↔ LongestFirst (registered given) path method :=
  enforces_iff (registered_named named) path method

/-- `GET /a`, for those who are authorized. -/
def getOnly : Registration := ⟨ascii "/a", ascii "GET", ascii "up", 80, true, 0⟩

/-- `GET /a/b`, a part of the other. -/
def inner : Registration := ⟨ascii "/a/b", ascii "GET", ascii "in", 80, true, 0⟩

/-- Two routes match, and the longer one was registered first. -/
theorem gatewayMatchRoute_enforces_inner :
    Enforces (registered [inner, getOnly]) (ascii "/a/b/c") (ascii "GET") := by
  have named : ∀ registration ∈ [inner, getOnly], cString registration.path ≠ [] :=
    List.forall_mem_cons.mpr ⟨by decide, List.forall_mem_singleton.mpr (by decide)⟩
  have nowhere : Earliest.Nowhere (Preferred (ascii "/a/b/c") (ascii "GET")) [] := by
    intro before route after none
    cases before <;> cases none
  refine (gatewayMatchRoute_enforces_iff named _ _).mpr (.inr ⟨[], ?_, (registered [getOnly]).routes, ?_, ?_⟩)
  · exact ⟨.store _ inner.path, [.store 16 inner.method], .store _ inner.upstream, 80, true, 0⟩
  · exact ⟨rfl, ⟨by decide, by decide, .inr (.inr (by decide))⟩, nowhere⟩
  · decide

/-- A route is returned for a method that it does not allow. -/
theorem gatewayMatchRoute_wrong_method : ¬Enforces (registered [getOnly]) (ascii "/a") (ascii "POST") := by
  intro ⟨returned, _⟩
  have found : (gatewayMatchRoute (registered [getOnly]) (ascii "/a") (ascii "POST")).isSome := by decide
  obtain ⟨route, same⟩ := Option.isSome_iff_exists.mp found
  obtain ⟨held, -, allows, -⟩ := returned route same
  obtain rfl := List.mem_singleton.mp held
  exact absurd allows (by decide)

end Tables

end MiniNetDist.GatewayProxy.ApiGateway
