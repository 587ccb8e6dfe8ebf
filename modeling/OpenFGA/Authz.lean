/-
  Access control of the API on itself (`internal/authz/authz.go`), for write requests.

  `GetModulesForWriteRequest` collects the modules of the tuples of a request.
  `Authorize` asks for a check on the store first; only if that check does not succeed, and the
  request lies in a single module, it asks for a check on the module, one goroutine for
  each module.  What the checks answer is chosen by the schedule, and every call is kept with
  its answer.

  The module of a type and a relation is what `GetModuleForObjectTypeRelation` of the
  language package says, a parameter here.
-/

import OpenFGA.Lib.Run
import OpenFGA.TupleStrings

namespace OpenFGA.Authz
open List

/-! ## Names -/

inductive APIMethod where
  | readAuthorizationModel
  | readAuthorizationModels
  | read
  | write
  | listObjects
  | streamedListObjects
  | check
  | batchCheck
  | listUsers
  | writeAssertions
  | readAssertions
  | writeAuthorizationModel
  | listStores
  | createStore
  | getStore
  | deleteStore
  | expand
  | readChanges
deriving DecidableEq, Repr

/-- `getRelation`; an `APIMethod` has no other values, so it does not fail. -/
def getRelation : APIMethod → String
  | .readAuthorizationModel | .readAuthorizationModels => "can_call_read_authorization_models"
  | .read => "can_call_read"
  | .write => "can_call_write"
  | .listObjects | .streamedListObjects => "can_call_list_objects"
  | .check | .batchCheck => "can_call_check"
  | .listUsers => "can_call_list_users"
  | .writeAssertions => "can_call_write_assertions"
  | .readAssertions => "can_call_read_assertions"
  | .writeAuthorizationModel => "can_call_write_authorization_models"
  | .listStores => "can_call_list_stores"
  | .createStore => "can_call_create_stores"
  | .getStore => "can_call_get_store"
  | .deleteStore => "can_call_delete_store"
  | .expand => "can_call_expand"
  | .readChanges => "can_call_read_changes"

/-- `StoreIDType.String`. -/
def storeObject (storeID : String) : String := "store:" ++ storeID

/-- `ClientIDType.String`. -/
def clientObject (clientID : String) : String := "application:" ++ clientID

/-- `ModuleIDType.String`. -/
def moduleObject (storeID module : String) : String := "module:" ++ storeID ++ "|" ++ module

def maxModulesInRequest : Nat := 1

/-- A tuple, of which the code reads these fields only. -/
structure TupleKey where
  user : String
  relation : String
  object : String
deriving DecidableEq, Repr

def getSystemAccessTuple (storeID : String) : TupleKey where
  user := "system:fga"
  relation := "system"
  object := storeObject storeID

/-- The errors of this package, and those of the language package. -/
inductive Error where
  /-- `authorizationError` -/
  | authorization (cause : String)
  | language (text : String)
deriving DecidableEq, Repr

/-! ## The modules of a write request -/

/-- The type definitions of a model, and the module of a relation of a type. -/
structure Types (T : Type) where
  getTypeDefinition : String → Option T
  getModuleForObjectTypeRelation : T → String → Except String String

/-- The tuples of a write request. -/
structure WriteRequest where
  writes : List TupleKey
  deletes : List TupleKey

/-- The tuples of both lists, in the order in which the code looks at them. -/
def WriteRequest.tuples (req : WriteRequest) : List TupleKey := req.writes ++ req.deletes

section
variable {T : Type} (typesys : Types T)

/-- The module of the type and relation of one tuple; the body of the loop of
    `extractModulesFromTuples`. -/
def moduleOf (tupleKey : TupleKey) : Except Error String :=
  let objType := (Tuple.splitObject tupleKey.object).1
  match typesys.getTypeDefinition objType with
  | none => .error (.authorization s!"type '{objType}' not found")
  | some objectType =>
    match typesys.getModuleForObjectTypeRelation objectType tupleKey.relation with
    | .error text => .error (.language text)
    | .ok module => .ok module

/-- The loop of `extractModulesFromTuples`; a tuple without a module discards what was
    collected before it. -/
def extractModulesLoop : List String → List TupleKey → Except Error (List String)
  | modulesMap, [] => .ok modulesMap
  | modulesMap, tupleKey :: tupleKeys =>
    match moduleOf typesys tupleKey with
    | .error err => .error err
    | .ok module =>
      if module = "" then .ok []
      else extractModulesLoop (modulesMap.insert module) tupleKeys

/-- `extractModulesFromTuples`; the keys of a map are a list without repetition. -/
def extractModulesFromTuples (tupleKeys : List TupleKey) : Except Error (List String) :=
  extractModulesLoop typesys [] tupleKeys

/-- `GetModulesForWriteRequest` returns `modules`: the keys of the map, in the order in which
    the runtime ranges over it. -/
def GetModulesForWriteRequest (req : WriteRequest) (modules : List String) : Prop :=
  ∃ modulesMap, extractModulesFromTuples typesys req.tuples = .ok modulesMap ∧
    modules.Perm modulesMap

variable {typesys} {tupleKeys : List TupleKey} {modulesMap found : List String}

/-- What the loop returns: nothing, or the modules it had and those of the tuples, none of
    which is without one. -/
lemma extractModulesLoop_ok (h : extractModulesLoop typesys modulesMap tupleKeys = .ok found) :
    found = [] ∨
      ((∀ m ∈ modulesMap, m ∈ found) ∧
        ∀ t ∈ tupleKeys, ∃ m ∈ found, m ≠ "" ∧ moduleOf typesys t = .ok m) := by
  induction tupleKeys generalizing modulesMap with
  | nil =>
    cases h
    exact .inr ⟨fun _ hm => hm, nofun⟩
  | cons t ts ih =>
    rw [extractModulesLoop] at h
    split at h
    · cases h
    next m hmod =>
    split_ifs at h with hempty
    · cases h
      exact .inl rfl
    refine (ih h).imp_right fun ⟨hkept, hrest⟩ => ⟨fun m' hm' => ?_, fun t' ht' => ?_⟩
    · exact hkept m' (mem_insert_of_mem hm')
    · rcases mem_cons.mp ht' with rfl | ht'
      · exact ⟨m, hkept m mem_insert_self, hempty, hmod⟩
      · exact hrest t' ht'

lemma extractModulesLoop_mem (h : extractModulesLoop typesys modulesMap tupleKeys = .ok found) {m}
    (hm : m ∈ found) : m ∈ modulesMap ∨ ∃ t ∈ tupleKeys, moduleOf typesys t = .ok m := by
  induction tupleKeys generalizing modulesMap with
  | nil =>
    cases h
    exact .inl hm
  | cons t ts ih =>
    rw [extractModulesLoop] at h
    split at h
    · cases h
    next m' hmod =>
    split_ifs at h with hempty
    · cases h
      exact absurd hm not_mem_nil
    rcases ih h with hm | ⟨t', ht', hm⟩
    · rcases mem_insert_iff.mp hm with rfl | hm
      · exact .inr ⟨t, mem_cons_self, hmod⟩
      · exact .inl hm
    · exact .inr ⟨t', mem_cons_of_mem _ ht', hm⟩

/-- If a single module is returned, the request has tuples, and all of them have this module,
    which has a name. -/
lemma module_of_singleton {req m} (h : GetModulesForWriteRequest typesys req [m]) :
    m ≠ "" ∧ req.tuples ≠ [] ∧ ∀ t ∈ req.tuples, moduleOf typesys t = .ok m := by
  obtain ⟨modulesMap, hmap, hperm⟩ := h
  obtain rfl : modulesMap = [m] := perm_singleton.mp hperm.symm
  have hall : ∀ t ∈ req.tuples, m ≠ "" ∧ moduleOf typesys t = .ok m := by
    intro t ht
    rcases extractModulesLoop_ok hmap with hnil | ⟨-, hall⟩
    · cases hnil
    · obtain ⟨m', hm', hne, hmod⟩ := hall t ht
      cases mem_singleton.mp hm'
      exact ⟨hne, hmod⟩
  obtain ⟨t, ht, -⟩ := (extractModulesLoop_mem hmap mem_cons_self).resolve_left nofun
  exact ⟨(hall t ht).1, ne_nil_of_mem ht, fun t ht => (hall t ht).2⟩

end

/-! ## Authorize -/

/-- A check that the authorizer asks for, on the access-control store. -/
structure CheckRequest where
  storeID : String
  authorizationModelID : String
  user : String
  relation : String
  object : String
  contextualTuples : List TupleKey
deriving DecidableEq, Repr

/-- A check that was made, and its answer. -/
structure Call where
  request : CheckRequest
  answer : Except String Bool

/-- What a call of `Authorize` works with: the configuration of the authorizer, the client of the
    claims in the context, if there are any, and the arguments. -/
structure Access where
  configStoreID : String
  configModelID : String
  claims : Option String
  storeID : String
  apiMethod : APIMethod
  modules : List String

namespace Access

variable (c : Access)

/-- The request of `individualAuthorize`. -/
def request (clientID object : String) (contextualTuples : List TupleKey) : CheckRequest where
  storeID := c.configStoreID
  authorizationModelID := c.configModelID
  user := clientObject clientID
  relation := getRelation c.apiMethod
  object := object
  contextualTuples := contextualTuples

/-- The check on the store. -/
def storeRequest (clientID : String) : CheckRequest :=
  c.request clientID (storeObject c.storeID) [getSystemAccessTuple c.storeID]

/-- The check of `moduleAuthorize` on one module. -/
def moduleRequest (clientID module : String) : CheckRequest :=
  c.request clientID (moduleObject c.storeID module)
    [⟨storeObject c.storeID, "store", moduleObject c.storeID module⟩,
      getSystemAccessTuple c.storeID]

end Access

/-- The error of `individualAuthorize` for an answer. -/
def individualAuthorize : Except String Bool → Option Error
  | .error err => some (.authorization s!"check returned error: {err}")
  | .ok false => some (.authorization "check returned not allowed")
  | .ok true => none

lemma individualAuthorize_eq_none {answer}
    (h : individualAuthorize answer = none) : answer = .ok true := by
  rcases answer with err | allowed
  · cases h
  · cases allowed
    · cases h
    · rfl

/-- The error for too many modules. -/
def limitExceeded (modules : List String) : Error :=
  .authorization s!"the principal cannot write tuples of more than {maxModulesInRequest} module(s) in a single request (modules in request: {modules.length})"

/-- Where a call of `Authorize` is; while checks are made it has the client of the claims. -/
inductive Phase where
  /-- The check on the store is running. -/
  | store (clientID : String)
  /-- The goroutines of `moduleAuthorize` that are running, and the buffer of
      `errorChannel`. -/
  | modules (clientID : String) (running : List String) (errorChannel : List Error)
  /-- It has returned. -/
  | done (result : Option Error)

/-- The calls of `Check` so far, and where the authorizer is. -/
structure State where
  calls : List Call
  phase : Phase

/-- What happens next. -/
inductive Act where
  /-- The check on the store answers. -/
  | store (answer : Except String Bool)
  /-- The check of the `i`-th running goroutine answers, and the goroutine ends. -/
  | module (i : Nat) (answer : Except String Bool)
  /-- `wg.Wait` returns, and the channel is closed and drained. -/
  | wait

def checkAuthClaims (claims : Option String) : Except Error String :=
  match claims with
  | none => .error (.authorization "client ID not found in context or is empty")
  | some clientID =>
    if clientID = "" then .error (.authorization "client ID not found in context or is empty")
    else .ok clientID

/-- `Authorize` up to its first check. -/
def Access.start (c : Access) : State :=
  match checkAuthClaims c.claims with
  | .error err => ⟨[], .done (some err)⟩
  | .ok clientID => ⟨[], .store clientID⟩

/-- What follows the check on the store. -/
def afterStore (clientID : String) (modules : List String) (answer : Except String Bool) : Phase :=
  match individualAuthorize answer with
  | none => .done none
  | some err =>
    if 0 < modules.length then
      if maxModulesInRequest < modules.length then .done (some (limitExceeded modules))
      else .modules clientID modules []
    else .done (some err)

/-- One step of `Authorize`. -/
def Access.step (c : Access) (s : State) : Act → Option State
  | .store answer =>
    match s.phase with
    | .store clientID =>
      some ⟨s.calls ++ [⟨c.storeRequest clientID, answer⟩], afterStore clientID c.modules answer⟩
    | _ => none
  | .module i answer =>
    match s.phase with
    | .modules clientID running errorChannel =>
      match running[i]? with
      | none => none
      | some module =>
        some ⟨s.calls ++ [⟨c.moduleRequest clientID module, answer⟩],
          .modules clientID (running.eraseIdx i)
            (errorChannel ++ (individualAuthorize answer).toList)⟩
    | _ => none
  | .wait =>
    match s.phase with
    | .modules _ [] errorChannel => some ⟨s.calls, .done errorChannel.head?⟩
    | _ => none

/-! ## Safety -/

/-- The check was made and was allowed. -/
def Allowed (s : State) (request : CheckRequest) : Prop :=
  ∃ call ∈ s.calls, call.request = request ∧ call.answer = .ok true

/-- The client is the one of the claims, and it has a name. -/
def Access.Client (c : Access) (clientID : String) : Prop :=
  c.claims = some clientID ∧ clientID ≠ ""

/-- What holds on the way. -/
def Inv (c : Access) (s : State) : Prop :=
  match s.phase with
  | .store clientID => c.Client clientID
  | .modules clientID running errorChannel => c.Client clientID ∧ ∃ module, c.modules = [module] ∧
      (errorChannel = [] → module ∈ running ∨ Allowed s (c.moduleRequest clientID module))
  | .done result => result = none → ∃ clientID, c.Client clientID ∧
      (Allowed s (c.storeRequest clientID) ∨
        ∃ module, c.modules = [module] ∧ Allowed s (c.moduleRequest clientID module))

lemma afterStore_cases (clientID : String) (modules : List String) (answer : Except String Bool) :
    (answer = .ok true ∧ afterStore clientID modules answer = .done none) ∨
      (∃ err, afterStore clientID modules answer = .done (some err)) ∨
      ∃ module, modules = [module] ∧
        afterStore clientID modules answer = .modules clientID [module] [] := by
  rw [afterStore]
  split
  next h => exact .inl ⟨individualAuthorize_eq_none h, rfl⟩
  next err h =>
    split_ifs with hpos hmax
    · exact .inr (.inl ⟨_, rfl⟩)
    · obtain ⟨module, rfl⟩ := length_eq_one_iff.mp
        (Nat.le_antisymm (Nat.le_of_not_lt hmax) hpos)
      exact .inr (.inr ⟨module, rfl, rfl⟩)
    · exact .inr (.inl ⟨_, rfl⟩)

section
variable {c : Access} {s s' : State} {answer : Except String Bool}

lemma allowed_last {calls phase request} :
    Allowed ⟨calls ++ [⟨request, .ok true⟩], phase⟩ request :=
  ⟨_, mem_append_right _ mem_cons_self, rfl, rfl⟩

lemma Allowed.append {calls phase call request} (h : Allowed s request) (hcalls : s.calls = calls) :
    Allowed ⟨calls ++ [call], phase⟩ request := by
  obtain ⟨call', hmem, hcall⟩ := h
  exact ⟨call', mem_append_left _ (hcalls ▸ hmem), hcall⟩

lemma inv_store (hs : Inv c s) (hstep : c.step s (.store answer) = some s') :
    Inv c s' := by
  rw [Access.step] at hstep
  split at hstep <;> cases hstep
  next clientID hphase =>
    simp only [Inv, hphase] at hs
    rcases afterStore_cases clientID c.modules answer with ⟨rfl, h⟩ | ⟨err, h⟩ |
      ⟨module, hmodules, h⟩
    · simp only [Inv, h]
      exact fun _ => ⟨clientID, hs, .inl allowed_last⟩
    · simp only [Inv, h]
      exact nofun
    · simp only [Inv, h]
      exact ⟨hs, module, hmodules, fun _ => .inl mem_cons_self⟩

lemma inv_module {i} (hs : Inv c s) (hstep : c.step s (.module i answer) = some s') : Inv c s' := by
  rw [Access.step] at hstep
  split at hstep
  next hphase =>
    split at hstep
    · cases hstep
    next module hmodule =>
    cases hstep
    simp only [Inv, hphase] at hs
    obtain ⟨hclient, module', hmodules, hs⟩ := hs
    refine ⟨hclient, module', hmodules, fun herr => ?_⟩
    obtain ⟨hbefore, hnone⟩ := append_eq_nil_iff.mp herr
    obtain rfl := individualAuthorize_eq_none (Option.toList_eq_nil_iff.mp hnone)
    rcases hs hbefore with hrunning | hallowed
    · by_cases hself : module' = module
      · subst hself
        exact .inr allowed_last
      · refine .inl ((mem_eraseIdx_iff_getElem?).mpr ?_)
        obtain ⟨j, hj⟩ := mem_iff_getElem?.mp hrunning
        refine ⟨j, ?_, hj⟩
        rintro rfl
        rw [hj] at hmodule
        exact hself (Option.some.inj hmodule)
    · exact .inr (hallowed.append rfl)
  · cases hstep

lemma inv_wait (hs : Inv c s) (hstep : c.step s .wait = some s') : Inv c s' := by
  rw [Access.step] at hstep
  split at hstep <;> cases hstep
  next clientID errorChannel hphase =>
    simp only [Inv, hphase] at hs
    obtain ⟨hclient, module, hmodules, hs⟩ := hs
    intro hnone
    have hallowed := (hs (head?_eq_none_iff.mp hnone)).resolve_left not_mem_nil
    exact ⟨clientID, hclient, .inr ⟨module, hmodules, hallowed⟩⟩

lemma inv_step {a} (hs : Inv c s) (hstep : c.step s a = some s') : Inv c s' := by
  cases a with
  | store answer => exact inv_store hs hstep
  | module i answer => exact inv_module hs hstep
  | wait => exact inv_wait hs hstep

lemma inv_start : Inv c c.start := by
  unfold Access.start checkAuthClaims
  cases hclaims : c.claims with
  | none => exact nofun
  | some clientID =>
    by_cases hempty : clientID = ""
    · simp only [if_pos hempty]
      exact nofun
    · simp only [if_neg hempty]
      exact ⟨hclaims, hempty⟩

end

/-- A write request is only authorized by a check of the client in the claims that was allowed:
    one on the store, or one on the module that all tuples of the request belong to. -/
theorem authorize_write_scoped {T : Type} (typesys : Types T) (req : WriteRequest) (c : Access)
    (hmethod : c.apiMethod = .write)
    (hmodules : GetModulesForWriteRequest typesys req c.modules) (as : List Act) (s : State)
    (hrun : Lts.run c.step c.start as = some s) (hnil : s.phase = .done none) :
    ∃ clientID, c.claims = some clientID ∧ clientID ≠ "" ∧
      let store := "store:" ++ c.storeID
      let storeAllowed := Allowed s
        { storeID := c.configStoreID
          authorizationModelID := c.configModelID
          user := "application:" ++ clientID
          relation := "can_call_write"
          object := store
          contextualTuples := [⟨"system:fga", "system", store⟩] }
      (storeAllowed ∨ ∃ module, module ≠ "" ∧ req.tuples ≠ [] ∧
        (∀ t ∈ req.tuples, moduleOf typesys t = .ok module) ∧
        let object := "module:" ++ c.storeID ++ "|" ++ module
        Allowed s
          { storeID := c.configStoreID
            authorizationModelID := c.configModelID
            user := "application:" ++ clientID
            relation := "can_call_write"
            object := object
            contextualTuples := [⟨store, "store", object⟩, ⟨"system:fga", "system", store⟩] }) ∧
      ((∃ t ∈ req.tuples, moduleOf typesys t = .ok "") → storeAllowed) := by
  have hinv : Inv c s := Lts.run_invariant' (fun _ _ _ => inv_step) inv_start hrun
  simp only [Inv, hnil] at hinv
  obtain ⟨clientID, ⟨hclaims, hname⟩, hallowed⟩ := hinv trivial
  refine ⟨clientID, hclaims, hname, ?_⟩
  have hrelation : getRelation c.apiMethod = "can_call_write" := by rw [hmethod]; rfl
  simp only [Access.storeRequest, Access.moduleRequest, Access.request, hrelation] at hallowed
  rcases hallowed with hstore | ⟨module, hsingle, hmodule⟩
  · exact ⟨.inl hstore, fun _ => hstore⟩
  · rw [hsingle] at hmodules
    obtain ⟨hne, htuples, hall⟩ := module_of_singleton hmodules
    refine ⟨.inr ⟨module, hne, htuples, hall, hmodule⟩, ?_⟩
    rintro ⟨t, ht, hempty⟩
    rw [hall t ht] at hempty
    exact absurd (Except.ok.inj hempty) hne

-- A tuple of the module crm, written by a client that may write this module only.

private def crmTypes : Types Unit where
  getTypeDefinition _ := some ()
  getModuleForObjectTypeRelation _ _ := .ok "crm"

private def crmWrite : WriteRequest where
  writes := [⟨"user:anne", "owner", "account:1"⟩]
  deletes := []

private def crmAccess : Access where
  configStoreID := "access"
  configModelID := "model"
  claims := some "sales"
  storeID := "s1"
  apiMethod := .write
  modules := ["crm"]

private def crmSchedule : List Act := [.store (.ok false), .module 0 (.ok true), .wait]

/-- A request that is authorized by its module. -/
theorem authorize_write_scoped_crm :
    ∃ s, Lts.run crmAccess.step crmAccess.start crmSchedule = some s ∧ s.phase = .done none ∧
      Allowed s ⟨"access", "model", "application:sales", "can_call_write", "module:s1|crm",
        [⟨"store:s1", "store", "module:s1|crm"⟩, ⟨"system:fga", "system", "store:s1"⟩]⟩ := by
  refine ⟨_, rfl, rfl, ?_⟩
  have hmodules : GetModulesForWriteRequest crmTypes crmWrite crmAccess.modules :=
    ⟨["crm"], by rfl, List.Perm.refl _⟩
  obtain ⟨clientID, hclaims, -, hstore | ⟨module, -, -, hall, hallowed⟩, -⟩ :=
    authorize_write_scoped crmTypes crmWrite crmAccess rfl hmodules crmSchedule _ rfl rfl
  · cases hclaims
    obtain ⟨call, hcall, hrequest, hanswer⟩ := hstore
    rcases mem_cons.mp hcall with rfl | hcall
    · cases hanswer
    · cases mem_singleton.mp hcall
      exact absurd (congrArg CheckRequest.object hrequest) (by decide)
  · cases hclaims
    cases hall _ mem_cons_self
    exact hallowed

end OpenFGA.Authz
