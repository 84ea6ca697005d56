import MiniNetDist.GatewayProxy.HttpParse

/-! The middleware of `mini-gateway-proxy/src/middleware_chain.c`: the store of a request's context, which holds keys
and values as strings one after another, and the chain of handlers. -/

namespace MiniNetDist.GatewayProxy.Middleware

open Library Library.Tokens HttpParse

def MW_CTX_SIZE : Nat := 4096

structure HttpResponse where
  statusCode : Int
  headers : List HttpHeader
  deriving DecidableEq, Repr

/-- `store` has the first `store_len` bytes. -/
structure MiddlewareContext where
  request : Option HttpRequest
  response : Option HttpResponse
  store : Bytes
  aborted : Bool
  errorCode : Int
  deriving DecidableEq, Repr

section Store

def mwContextInit (req : Option HttpRequest) (resp : Option HttpResponse) : MiddlewareContext :=
  ⟨req, resp, [], false, 0⟩

def mwContextSet (ctx : MiddlewareContext) (key value : CString) : MiddlewareContext × Int :=
  if ctx.store.length + key.length + value.length + 2 ≥ MW_CTX_SIZE then (ctx, -1)
  else ({ ctx with store := ctx.store ++ (key ++ 0 :: (value ++ [0])) }, 0)

/-- The loop from `pos` on. -/
def findValue (key : CString) : Nat → Bytes → Option CString
  | 0, _ => none
  | _ + 1, [] => none
  | rounds + 1, memory =>
    let k := cString memory
    let rest := memory.drop (k.length + 1)
    let v := cString rest
    if k = key then some v else findValue key rounds (rest.drop (v.length + 1))

def mwContextGet (ctx : MiddlewareContext) (key : CString) : Option CString :=
  findValue key ctx.store.length ctx.store

/-- What the store is for: a value for each key that was set, the first one as long as there was room. -/
abbrev Pairs := List (CString × CString)

def Pairs.encode (pairs : Pairs) : Bytes := pairs.flatMap fun pair => pair.1 ++ 0 :: (pair.2 ++ [0])

def Pairs.set (pairs : Pairs) (pair : CString × CString) : Pairs :=
  if pairs.encode.length + pair.1.length + pair.2.length + 2 ≥ MW_CTX_SIZE then pairs else pairs ++ [pair]

def Pairs.get (pairs : Pairs) (key : CString) : Option CString := (pairs.find? fun pair => pair.1 = key).map (·.2)

/-- Keys and values are C strings. -/
def Pairs.Plain (pairs : Pairs) : Prop := ∀ pair ∈ pairs, 0 ∉ pair.1 ∧ 0 ∉ pair.2

variable {ctx : MiddlewareContext} {pairs : Pairs}

theorem cString_append {text : CString} (plain : 0 ∉ text) (rest : Bytes) : cString (text ++ 0 :: rest) = text := by
  have whole : text.takeWhile (· ≠ 0) = text := cString_eq plain
  rw [cString, List.takeWhile_append, if_pos (by rw [whole]), List.takeWhile_cons_of_neg (by simp), List.append_nil]

theorem findValue_encode (plain : pairs.Plain) (key : CString) {rounds : Nat} (enough : pairs.length ≤ rounds) :
    findValue key rounds pairs.encode = pairs.get key := by
  induction pairs generalizing rounds with
  | nil => cases rounds <;> rfl
  | cons pair pairs ih =>
    obtain ⟨⟨key0, value0⟩, others⟩ := List.forall_mem_cons.mp plain
    cases rounds with
    | zero => exact absurd enough (Nat.not_succ_le_zero _)
    | succ rounds =>
      have layout : Pairs.encode (pair :: pairs) = pair.1 ++ 0 :: (pair.2 ++ 0 :: Pairs.encode pairs) := by
        rw [Pairs.encode, List.flatMap_cons, List.append_assoc, List.cons_append, List.append_assoc]
        rfl
      have behind : ∀ (text rest : Bytes), (text ++ 0 :: rest).drop (text.length + 1) = rest := by
        intro text rest
        rw [← List.drop_drop, List.drop_left, List.drop_one, List.tail_cons]
      obtain ⟨byte, rest, filled⟩ := List.exists_cons_of_ne_nil
        (show pair.1 ++ 0 :: (pair.2 ++ 0 :: Pairs.encode pairs) ≠ [] by simp)
      rw [layout, filled, findValue, ← filled]
      · rw [cString_append key0, behind, cString_append value0, behind, ih others (Nat.le_of_succ_le_succ enough),
          Pairs.get, Pairs.get, List.find?_cons]
        by_cases same : pair.1 = key <;> simp [same]
      · nofun

theorem length_le_encode (pairs : Pairs) : pairs.length ≤ pairs.encode.length := by
  induction pairs with
  | nil => exact Nat.le_refl _
  | cons pair pairs ih =>
    rw [Pairs.encode, List.flatMap_cons, List.length_append, List.length_append, List.length_cons, List.length_cons]
    rw [Pairs.encode] at ih
    omega

theorem mwContextGet_encode (plain : pairs.Plain) (held : ctx.store = pairs.encode) (key : CString) :
    mwContextGet ctx key = pairs.get key := by
  rw [mwContextGet, held]
  exact findValue_encode plain key (length_le_encode pairs)

/-- One call sets the pair in both. -/
theorem mwContextSet_encode (held : ctx.store = pairs.encode) (pair : CString × CString) :
    (mwContextSet ctx pair.1 pair.2).1.store = (pairs.set pair).encode := by
  rw [mwContextSet, Pairs.set, held]
  split
  · exact held
  · rw [Pairs.encode, Pairs.encode, List.flatMap_append, List.flatMap_singleton]

theorem Pairs.Plain.set (plain : pairs.Plain) {pair : CString × CString} (fresh : 0 ∉ pair.1 ∧ 0 ∉ pair.2) :
    (pairs.set pair).Plain := by
  rw [Pairs.set]
  split
  · exact plain
  · intro other member
    rcases List.mem_append.mp member with old | new
    · exact plain other old
    · rwa [List.mem_singleton.mp new]

/-- The context after several calls of `mw_context_set`. -/
def setAll (ctx : MiddlewareContext) (calls : Pairs) : MiddlewareContext :=
  calls.foldl (fun ctx pair => (mwContextSet ctx pair.1 pair.2).1) ctx

theorem setAll_encode (plain : pairs.Plain) (held : ctx.store = pairs.encode) {calls : Pairs} (fresh : calls.Plain) :
    (setAll ctx calls).store = Pairs.encode (calls.foldl Pairs.set pairs) ∧
      Pairs.Plain (calls.foldl Pairs.set pairs) := by
  induction calls generalizing ctx pairs with
  | nil => exact ⟨held, plain⟩
  | cons pair calls ih =>
    obtain ⟨first, others⟩ := List.forall_mem_cons.mp fresh
    exact ih (plain.set first) (mwContextSet_encode held pair) others

theorem set_begins (calls : Pairs) (pairs : Pairs) : pairs <+: calls.foldl Pairs.set pairs := by
  induction calls generalizing pairs with
  | nil => exact List.prefix_refl _
  | cons pair calls ih =>
    refine List.IsPrefix.trans ?_ (ih (pairs.set pair))
    rw [Pairs.set]
    split
    · exact List.prefix_refl _
    · exact List.prefix_append _ _

theorem get_of_prefix {more : Pairs} (begins : pairs <+: more) {key value : CString}
    (found : pairs.get key = some value) : more.get key = some value := by
  obtain ⟨rest, rfl⟩ := begins
  obtain ⟨pair, first, rfl⟩ := Option.map_eq_some_iff.mp found
  rw [Pairs.get, List.find?_append, first]
  rfl

/-- In every run of calls, the store answers for a key with the first value that was set while there was room, and what
it once answers stays its answer. -/
theorem mwContextGet_first (req : Option HttpRequest) (resp : Option HttpResponse) {calls more : Pairs}
    (plain : calls.Plain) (plainToo : more.Plain) (key : CString) :
    mwContextGet (setAll (mwContextInit req resp) calls) key = Pairs.get (calls.foldl Pairs.set []) key ∧
      ∀ value, mwContextGet (setAll (mwContextInit req resp) calls) key = some value →
        mwContextGet (setAll (setAll (mwContextInit req resp) calls) more) key = some value := by
  have empty : Pairs.Plain [] := fun _ member => absurd member List.not_mem_nil
  have fresh : (mwContextInit req resp).store = Pairs.encode [] := rfl
  obtain ⟨held, kept⟩ := setAll_encode empty fresh plain
  obtain ⟨later, keptToo⟩ := setAll_encode kept held plainToo
  rw [mwContextGet_encode kept held, mwContextGet_encode keptToo later]
  exact ⟨rfl, fun value found => get_of_prefix (set_begins more _) found⟩

theorem mwContextGet_first_timeout :
    mwContextGet (setAll (mwContextInit none none) [(ascii "timeout.ms", ascii "30000")]) (ascii "timeout.ms") =
      some (ascii "30000") ∧
    mwContextGet (setAll (setAll (mwContextInit none none) [(ascii "timeout.ms", ascii "30000")])
      [(ascii "timeout.ms", ascii "5")]) (ascii "timeout.ms") = some (ascii "30000") := by
  have plain : Pairs.Plain [(ascii "timeout.ms", ascii "30000")] := by unfold Pairs.Plain; decide +kernel
  have plainToo : Pairs.Plain [(ascii "timeout.ms", ascii "5")] := by unfold Pairs.Plain; decide +kernel
  obtain ⟨answer, stays⟩ := mwContextGet_first none none plain plainToo (ascii "timeout.ms")
  have first := answer.trans (show _ = some (ascii "30000") by decide +kernel)
  exact ⟨first, stays _ first⟩

end Store

section Chain

/-- A handler, with its return value. None of the repository's handlers uses the pointer to the next node. -/
abbrev MiddlewareFunc := MiddlewareContext → MiddlewareContext × Int

/-- The chain from an index on. -/
def mwChainRunInternal : List MiddlewareFunc → MiddlewareContext → MiddlewareContext × Int
  | [], ctx => (ctx, 0)
  | handler :: rest, ctx =>
    if ctx.aborted then (ctx, ctx.errorCode)
    else
      let (ctx, ret) := handler ctx
      let ctx := if ret < 0 then { ctx with aborted := true, errorCode := ret } else ctx
      if ctx.aborted ∨ rest = [] then (ctx, ret) else mwChainRunInternal rest ctx

def mwChainRun (chain : List MiddlewareFunc) (ctx : MiddlewareContext) : MiddlewareContext × Int :=
  mwChainRunInternal chain { ctx with aborted := false, errorCode := 0 }

def hmGetHeader (req : HttpRequest) (name : CString) : Option CString :=
  (req.headers.find? fun h => strcasecmp h.name.text name).map (·.value.text)

/-- A response takes headers as long as there is room for them. -/
def hmResponseSetHeader (resp : HttpResponse) (name value : CString) : HttpResponse :=
  if resp.headers.length ≥ HM_MAX_HEADERS then resp
  else { resp with headers := resp.headers ++ [⟨.store _ name, .store _ value⟩] }

def mwBuiltinAuth : MiddlewareFunc := fun ctx =>
  match ctx.request with
  | none => (ctx, -1)
  | some req =>
    match hmGetHeader req (ascii "Authorization") with
    | none => ({ ctx with aborted := true, errorCode := 401 }, -1)
    | some auth =>
      if auth.take 7 ≠ ascii "Bearer " ∨ auth.length ≤ 7 then ({ ctx with aborted := true, errorCode := 401 }, -1)
      else ((mwContextSet ctx (ascii "auth.validated") (ascii "true")).1, 0)

def mwBuiltinLogger : MiddlewareFunc := fun ctx =>
  match ctx.request with
  | none => (ctx, -1)
  | some _ => ((mwContextSet ctx (ascii "log.timestamp") (ascii "<current>")).1, 0)

def corsHeaders (resp : HttpResponse) (origin : CString) : HttpResponse :=
  let resp := hmResponseSetHeader resp (ascii "Access-Control-Allow-Origin") origin
  let resp := hmResponseSetHeader resp (ascii "Access-Control-Allow-Methods") (ascii "GET,POST,PUT,DELETE,OPTIONS")
  let resp := hmResponseSetHeader resp (ascii "Access-Control-Allow-Headers") (ascii "Content-Type,Authorization")
  hmResponseSetHeader resp (ascii "Access-Control-Max-Age") (ascii "86400")

/-- A preflight is answered here, without an error. -/
def mwBuiltinCors : MiddlewareFunc := fun ctx =>
  match ctx.request with
  | none => (ctx, -1)
  | some req =>
    match hmGetHeader req (ascii "Origin") with
    | none => (ctx, 0)
    | some origin =>
      match ctx.response with
      | none => (ctx, 0)
      | some resp =>
        let resp := corsHeaders resp origin
        if req.method.text = ascii "OPTIONS" then
          let resp := hmResponseSetHeader { resp with statusCode := 204 } (ascii "Content-Length") (ascii "0")
          ({ ctx with response := some resp, aborted := true }, 0)
        else ({ ctx with response := some resp }, 0)

def mwBuiltinCompressor : MiddlewareFunc := fun ctx =>
  match ctx.request with
  | none => (ctx, -1)
  | some req =>
    match hmGetHeader req (ascii "Accept-Encoding") with
    | none => (ctx, 0)
    | some ae =>
      if (strstr (ascii "gzip") ae).isSome then
        ((mwContextSet ctx (ascii "compress.algorithm") (ascii "gzip")).1, 0)
      else if (strstr (ascii "deflate") ae).isSome then
        ((mwContextSet ctx (ascii "compress.algorithm") (ascii "deflate")).1, 0)
      else (ctx, 0)

def mwBuiltinTimeout : MiddlewareFunc := fun ctx =>
  match mwContextGet ctx (ascii "timeout.ms") with
  | none => ((mwContextSet ctx (ascii "timeout.ms") (ascii "30000")).1, 0)
  | some _ => (ctx, 0)

/-- The request has a header with a bearer token, which is not empty. -/
def Authorized (request : Option HttpRequest) : Prop :=
  ∃ req token,
    request = some req ∧ hmGetHeader req (ascii "Authorization") = some (ascii "Bearer " ++ token) ∧ token ≠ []

/-- A handler that does not change the request. -/
def KeepsRequest (handler : MiddlewareFunc) : Prop := ∀ ctx, (handler ctx).1.request = ctx.request

variable {ctx : MiddlewareContext} {handler : MiddlewareFunc}

theorem mwContextSet_request (ctx : MiddlewareContext) (key value : CString) :
    (mwContextSet ctx key value).1.request = ctx.request := by
  rw [mwContextSet]
  split <;> rfl

/-- The handlers of the repository. -/
theorem builtin_keepsRequest :
    ∀ handler ∈ [mwBuiltinAuth, mwBuiltinLogger, mwBuiltinCors, mwBuiltinCompressor, mwBuiltinTimeout],
      KeepsRequest handler := by
  simp only [List.forall_mem_cons, List.not_mem_nil, false_implies, implies_true, and_true]
  refine ⟨fun ctx => ?_, fun ctx => ?_, fun ctx => ?_, fun ctx => ?_, fun ctx => ?_⟩
  · rw [mwBuiltinAuth]
    split
    · rfl
    · split
      · rfl
      · split
        · rfl
        · exact mwContextSet_request ctx _ _
  · rw [mwBuiltinLogger]
    split
    · rfl
    · exact mwContextSet_request ctx _ _
  · rw [mwBuiltinCors]
    split
    · rfl
    · split
      · rfl
      · split
        · rfl
        · dsimp only
          split <;> rfl
  · rw [mwBuiltinCompressor]
    split
    · rfl
    · split
      · rfl
      · split
        · exact mwContextSet_request ctx _ _
        · split
          · exact mwContextSet_request ctx _ _
          · rfl
  · rw [mwBuiltinTimeout]
    split
    · exact mwContextSet_request ctx _ _
    · rfl

theorem bearer_iff (auth : CString) : (∃ token, auth = ascii "Bearer " ++ token ∧ token ≠ []) ↔
    ¬(auth.take 7 ≠ ascii "Bearer " ∨ auth.length ≤ 7) := by
  have seven : (ascii "Bearer ").length = 7 := by decide +kernel
  constructor
  · rintro ⟨token, rfl, filled⟩
    have more := List.length_pos_iff.mpr filled
    rw [List.take_left' seven, List.length_append, seven]
    rintro (differs | short)
    · exact differs rfl
    · omega
  · intro both
    obtain ⟨begins, long⟩ := not_or.mp both
    refine ⟨auth.drop 7, ?_, fun empty => long (List.drop_eq_nil_iff.mp empty)⟩
    rw [← not_not.mp begins, List.take_append_drop]

/-- The handler lets exactly the requests with a token pass. -/
theorem mwBuiltinAuth_iff (ctx : MiddlewareContext) : 0 ≤ (mwBuiltinAuth ctx).2 ↔ Authorized ctx.request := by
  have negative : ¬(0 : Int) ≤ -1 := by decide
  rw [mwBuiltinAuth]
  split
  next absent =>
    refine iff_of_false negative ?_
    rintro ⟨req, token, here, _⟩
    rw [absent] at here
    cases here
  next req present =>
    have only : Authorized ctx.request ↔
        ∃ token, hmGetHeader req (ascii "Authorization") = some (ascii "Bearer " ++ token) ∧ token ≠ [] := by
      rw [Authorized, present]
      constructor
      · rintro ⟨other, token, here, found⟩
        obtain rfl := Option.some.inj here
        exact ⟨token, found⟩
      · rintro ⟨token, found⟩
        exact ⟨req, token, rfl, found⟩
    rw [only]
    split
    next missing =>
      refine iff_of_false negative ?_
      rintro ⟨token, here, _⟩
      rw [missing] at here
      cases here
    next auth found =>
      have same : (∃ token, hmGetHeader req (ascii "Authorization") = some (ascii "Bearer " ++ token) ∧ token ≠ []) ↔
          ∃ token, auth = ascii "Bearer " ++ token ∧ token ≠ [] := by simp only [found, Option.some.injEq]
      rw [same, bearer_iff]
      split
      next refused => exact iff_of_false negative (not_not_intro refused)
      next accepted => exact iff_of_true (le_refl 0) accepted

/-- A handler with an error ends the chain. -/
theorem mwChainRunInternal_error (failed : (handler ctx).2 < 0) (active : ctx.aborted = false)
    (rest : List MiddlewareFunc) : mwChainRunInternal (handler :: rest) ctx =
      ({ (handler ctx).1 with aborted := true, errorCode := (handler ctx).2 }, (handler ctx).2) := by
  rw [mwChainRunInternal, if_neg (by rw [active]; decide)]
  dsimp only
  rw [if_pos failed, if_pos (.inl rfl)]

theorem mwChainRunInternal_guarded (before after : List MiddlewareFunc)
    (keeps : ∀ handler ∈ before, KeepsRequest handler) (denied : ¬Authorized ctx.request) :
    mwChainRunInternal (before ++ mwBuiltinAuth :: after) ctx =
        mwChainRunInternal (before ++ [mwBuiltinAuth]) ctx ∧
      (mwChainRunInternal (before ++ mwBuiltinAuth :: after) ctx).1.aborted = true := by
  induction before generalizing ctx with
  | nil =>
    rw [List.nil_append, List.nil_append]
    cases active : ctx.aborted with
    | true =>
      rw [mwChainRunInternal, mwChainRunInternal, if_pos active, if_pos active]
      exact ⟨rfl, active⟩
    | false =>
      have failed : (mwBuiltinAuth ctx).2 < 0 := not_le.mp (mt (mwBuiltinAuth_iff ctx).mp denied)
      rw [mwChainRunInternal_error failed active, mwChainRunInternal_error failed active]
      exact ⟨rfl, rfl⟩
  | cons handler before ih =>
    obtain ⟨first, others⟩ := List.forall_mem_cons.mp keeps
    rw [List.cons_append, List.cons_append, mwChainRunInternal, mwChainRunInternal]
    split
    next aborted => exact ⟨rfl, aborted⟩
    next =>
      have rest : ∀ tail, before ++ mwBuiltinAuth :: tail ≠ [] := fun tail =>
        List.append_ne_nil_of_right_ne_nil _ (List.cons_ne_nil _ _)
      have kept : (if (handler ctx).2 < 0 then
          { (handler ctx).1 with aborted := true, errorCode := (handler ctx).2 } else (handler ctx).1).request =
            ctx.request := by
        split <;> exact first ctx
      dsimp only
      generalize (if (handler ctx).2 < 0 then
        { (handler ctx).1 with aborted := true, errorCode := (handler ctx).2 } else (handler ctx).1) = next at kept ⊢
      by_cases stopped : next.aborted = true
      · rw [if_pos (.inl stopped), if_pos (.inl stopped)]
        exact ⟨rfl, stopped⟩
      · rw [if_neg (not_or.mpr ⟨stopped, rest after⟩), if_neg (not_or.mpr ⟨stopped, rest []⟩)]
        exact ih others (kept.symm ▸ denied)

/-- Without a bearer token, nothing behind the authentication has an effect, whatever stands before it, as long as that
leaves the request alone: the chain ends as if the authentication were its last handler, and is aborted. -/
theorem mwChainRun_guarded (before after : List MiddlewareFunc) (keeps : ∀ handler ∈ before, KeepsRequest handler)
    (ctx : MiddlewareContext) (denied : ¬Authorized ctx.request) :
    mwChainRun (before ++ mwBuiltinAuth :: after) ctx = mwChainRun (before ++ [mwBuiltinAuth]) ctx ∧
      (mwChainRun (before ++ mwBuiltinAuth :: after) ctx).1.aborted = true :=
  mwChainRunInternal_guarded before after keeps denied

/-- A logger and a timeout around the authentication, for a request without headers. -/
theorem mwChainRun_guarded_bare :
    mwChainRun ([mwBuiltinLogger] ++ mwBuiltinAuth :: [mwBuiltinTimeout]) (mwContextInit (some hmRequestInit) none) =
      mwChainRun ([mwBuiltinLogger] ++ [mwBuiltinAuth]) (mwContextInit (some hmRequestInit) none) := by
  refine (mwChainRun_guarded [mwBuiltinLogger] [mwBuiltinTimeout] ?_ _ ?_).1
  · intro handler listed
    rw [List.mem_singleton.mp listed]
    exact builtin_keepsRequest mwBuiltinLogger (by simp)
  · rintro ⟨req, token, here, found, _⟩
    obtain rfl := Option.some.inj here
    cases found

end Chain

end MiniNetDist.GatewayProxy.Middleware
