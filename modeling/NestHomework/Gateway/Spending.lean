import NestHomework.Gateway.BearerToken
import NestHomework.Grpc.AuthGuard
import NestHomework.Grpc.RpcCall
import NestHomework.Services.Rows
import NestHomework.UserService.Deletion

/-! Who spends money. The gateway takes requests with a token and calls the transaction service,
which anyone else may call as well; the money moves in the two services behind it. -/
namespace NestHomework.Gateway
open Contracts Transition FileService Grpc Services TransactionService UserService

section Requests

/-- The field `amount` of a body. -/
inductive AmountField where
  | missing
  | other
  | number (value : ℚ)
  deriving DecidableEq

def AmountField.value : AmountField → Option ℚ
  | .number value => some value
  | _ => none

/-- The bounds of an amount, with the messages about them. -/
structure AmountRules where
  min : ℚ
  minMessage : String
  max : ℚ
  maxMessage : String

namespace AmountRules

def depositAmountRequest : AmountRules :=
  ⟨10,"Минимальная сумма 10",10000,"Максимальная сумма 10,000"⟩

def transferAmountRequest : AmountRules :=
  ⟨1/100,"Минимальная сумма $0.01",10000,"Максимальная сумма $10,000"⟩

/-- The messages of the checks that an amount does not pass. -/
def errors (r : AmountRules) (amount : AmountField) : List String :=
  [(decide (amount ≠ .missing),"Сумму нельзя оставлять пустой"),
    (amount.value.any fun v => (v*100).den = 1,"Максимум 2 знака после запятой"),
    (amount.value.any fun v => 0 < v,"Сумма должна быть положительной"),
    (amount.value.any fun v => r.min ≤ v,r.minMessage),
    (amount.value.any fun v => v ≤ r.max,r.maxMessage)].filterMap fun (passes,message) =>
      if passes then none else some message

end AmountRules

/-- `BigInt(Math.round(this.amount * 100))` -/
def amountInCents (amount : AmountField) : ℕ := (⌊(amount.value.getD 0)*100+1/2⌋).toNat

/-- The field `toAccountId`, which is `some none` when it is not the text of a UUID. -/
abbrev AccountField := Option (Option Uuid)

def toAccountIdErrors (toAccountId : AccountField) : List String :=
  [(toAccountId.isSome,"Account Id получателя должен быть заполнен"),
    (toAccountId.join.isSome,"Account Id должен быть валидным UUID")].filterMap
      fun (passes,message) => if passes then none else some message

inductive MoneyBody where
  | depositRub (amount : AmountField)
  | transferRub (amount : AmountField) (toAccountId : AccountField)
  deriving DecidableEq

structure HttpException where
  status : ℕ
  messages : List String
  deriving DecidableEq, Repr

/-- A call of the transaction service. -/
inductive TxRequest where
  | depositRub (data : DepositRubRequest)
  | transferRub (data : TransferRubRequest)
  deriving DecidableEq, Repr

namespace TxRequest

def method : TxRequest → String
  | depositRub _ => "depositRub"
  | transferRub _ => "transferRub"

def accountId : TxRequest → Uuid
  | depositRub data => data.accountId
  | transferRub data => data.accountId

def idempotencyKey : TxRequest → String
  | depositRub data => data.idempotencyKey
  | transferRub data => data.idempotencyKey

def amount : TxRequest → ℕ
  | depositRub data => data.amount
  | transferRub data => data.amount

def isTransfer : TxRequest → Bool
  | depositRub _ => false
  | transferRub _ => true

end TxRequest

/-- A request that the gateway has let through: its token, when it came, and what it becomes. -/
structure Ask where
  token : Jwt
  time : ℕ
  data : TxRequest
  deriving DecidableEq, Repr

namespace BalanceController
variable (validate : String → Bool)

/-- `@IdempotencyKey()` -/
def idempotencyKey (header : Option String) : Except HttpException String :=
  match header with
  | none => .error ⟨400,["Idempotency-Key должен быть валидным UUID"]⟩
  | some key =>
    if key = "" || !validate key then .error ⟨400,["Idempotency-Key должен быть валидным UUID"]⟩
    else .ok key

/-- The validation of the body, and the payload of the call. -/
def payload (accountId : Uuid) (idempotencyKey : String) : MoneyBody → Except HttpException TxRequest
  | .depositRub amount =>
    match AmountRules.depositAmountRequest.errors amount with
    | [] => .ok (.depositRub ⟨accountId,idempotencyKey,amountInCents amount⟩)
    | errors => .error ⟨400,errors⟩
  | .transferRub amount toAccountId =>
    match AmountRules.transferAmountRequest.errors amount++toAccountIdErrors toAccountId,
        toAccountId.join with
    | [], some toAccountId =>
      .ok (.transferRub ⟨accountId,idempotencyKey,amountInCents amount,toAccountId⟩)
    | errors, _ => .error ⟨400,errors⟩

/-- `depositRub` and `transferRub`, behind `JwtGuard` and `RolesGuard`, to which every role is
enough. -/
def receive (now : ℕ) (token : Option Jwt) (header : Option String) (body : MoneyBody) :
    Except HttpException Ask :=
  match token, JwtStrategy.validate now token with
  | some token, some (accountId,_) =>
    match idempotencyKey validate header with
    | .error e => .error e
    | .ok key => (payload accountId key body).map fun data => ⟨token,now,data⟩
  | _, _ => .error ⟨401,["Unauthorized"]⟩

end BalanceController

/-- An amount that passes its checks is a whole number of cents, at most 10000 roubles. -/
theorem AmountRules.of_errors {r : AmountRules} {amount : AmountField} (h : r.errors amount = []) :
    ∃ v : ℚ, amount = .number v ∧ (amountInCents amount : ℚ) = v*100 ∧ 0 < v ∧ r.min ≤ v ∧
      v ≤ r.max := by
  cases amount with
  | missing | other => simp [errors,AmountField.value] at h
  | number v =>
    simp only [errors,AmountField.value,Option.any_some,List.filterMap_eq_nil_iff,List.mem_cons,
      List.not_mem_nil,or_false,forall_eq_or_imp,forall_eq,ite_eq_left_iff,reduceCtorEq,imp_false,
      not_not,decide_eq_true_eq] at h
    obtain ⟨-,hwhole,hpos,hmin,hmax⟩ := h
    refine ⟨v,rfl,?_,hpos,hmin,hmax⟩
    have hint : ((v*100).num : ℚ) = v*100 := Rat.coe_int_num_of_den_eq_one hwhole
    have hfloor : ⌊v*100+1/2⌋ = (v*100).num := by
      rw [← hint,Int.floor_eq_iff]
      constructor
      · simp
      · norm_num
    have hnonneg : 0 ≤ (v*100).num := Rat.num_nonneg.mpr (by positivity)
    rw [amountInCents,AmountField.value,Option.getD_some,hfloor]
    have hcast : (((v*100).num.toNat : ℤ) : ℚ) = v*100 := by rw [Int.toNat_of_nonneg hnonneg,hint]
    exact_mod_cast hcast

end Requests

section Handlers

/-- `depositRub` and `transferRub` of the transaction service. -/
def GrpcProcessController (gateway : Option String) : List (String × Option AccessList) :=
  createGrpcController ["constructor","depositRub","transferRub"] []
    [("depositRub",[gateway]),("transferRub",[gateway])]

/-- How a handler fares: the answers of the other services, the uuids it generates, where its
database transaction is cut off, and what the filters make of an error. -/
structure Serving where
  balances : Except RpcException (ValidationAccountResponse × ValidationAccountResponse)
  createPayment : Except String CreatePaymentResponse
  id : Uuid
  inId : Uuid
  eventId : Uuid
  fault : Option ℕ
  error : CallError

namespace Serving
variable (v : Serving)

def depositRubCall (data : DepositRubRequest) : DepositRubCall :=
  ⟨data,v.balances.map Prod.fst,v.createPayment,v.id,v.fault⟩

def transferRubCall (data : TransferRubRequest) : TransferRubCall :=
  ⟨data,v.balances,v.id,v.inId,v.eventId,v.fault⟩

/-- The answer of the handler, and the tables after it. -/
def serve (db : TxDb) : TxRequest → Except CallError String × TxDb
  | .depositRub data =>
    let (answer,db) := (v.depositRubCall data).serve db
    ((answer.map (·.url)).mapError fun _ => v.error,db)
  | .transferRub data =>
    let (answer,db) := (v.transferRubCall data).serve db
    ((answer.map (·.message)).mapError fun _ => v.error,db)

/-- The uuids that the handler generates. -/
def uuids : TxRequest → List Uuid
  | .depositRub data => if (v.depositRubCall data).refused then [] else [v.id]
  | .transferRub data => if (v.transferRubCall data).refused then [] else [v.id,v.inId,v.eventId]

/-- A handler runs, with uuids that were never generated before. -/
def next (s : Services.State) (data : TxRequest) : Option (Except CallError String × Services.State) :=
  if (v.uuids data).Nodup ∧ ∀ u ∈ v.uuids data, u ∉ s.used then
    let (answer,tx) := v.serve s.tx data
    some (answer,{s with tx := tx, used := s.used++v.uuids data})
  else none

end Serving
end Handlers

/-- An attempt of the gateway's call, with its outcome at the transaction service. -/
abbrev TxAttempt := Option (Except CallError String)

structure MoneyRequest where
  ask : Ask
  call : RpcCall TxAttempt String
  deriving DecidableEq

structure SpendingOptions where
  tokens : TokenOptions
  retries : ℕ
  maxRetry : ℕ
  /-- `GATEWAY_ACCESS_TOKEN` of the gateway -/
  gatewayToken : String
  /-- `GATEWAY_ACCESS_TOKEN` of the transaction service -/
  allowedGateway : Option String
  /-- `validate` of `uuid` -/
  validate : String → Bool

structure SpendingRun where
  auth : AuthRun
  services : Services.State
  requests : List MoneyRequest

inductive SpendingAction where
  | auth (a : AuthAction)
  | services (a : Services.Action)
  | http (token : Option Jwt) (header : Option String) (body : MoneyBody)
  /-- the gateway's call -/
  | client (i : ℕ) (e : RpcStep)
  /-- an attempt of it arrives -/
  | serve (i j : ℕ) (v : Serving)
  /-- a call that is not the gateway's -/
  | rpc (values : List String) (data : TxRequest) (v : Serving)

/-- The action is one of the two requests that come over gRPC. -/
def overGrpc : Services.Action → Bool
  | .request (.depositRub _) _ => true
  | .request (.transferRub _) _ => true
  | _ => false

namespace SpendingRun
variable (o : SpendingOptions) (s : SpendingRun)

def initial (balances : List Balance) : SpendingRun := ⟨.initial,.initial balances,[]⟩

def asks : List Ask := s.requests.map (·.ask)

def setCall (i : ℕ) (q : MoneyRequest) (call : RpcCall TxAttempt String) : SpendingRun :=
  {s with requests := s.requests.set i {q with call := call}}

/-- A token in the header of a request was signed earlier. -/
def next : SpendingAction → Option SpendingRun
  | .auth a => (s.auth.next o.tokens a).map fun auth => {s with auth := auth}
  | .services a =>
    if overGrpc a then none
    else (s.services.next o.maxRetry a).map fun services => {s with services := services}
  | .http token header body =>
    if token.all (fun T => s.auth.signed.contains T) then
      match BalanceController.receive o.validate s.auth.now token header body with
      | .error _ => some s
      | .ok ask => some {s with requests := s.requests++[⟨ask,.start none⟩]}
    else none
  | .client i e => s.requests[i]?.bind fun q =>
    (q.call.step o.retries id none e).map (s.setCall i q)
  | .serve i j v => s.requests[i]?.bind fun q =>
    if q.call.attempts[j]? = some none then
      match dispatch (GrpcProcessController o.allowedGateway) q.ask.data.method
          (authorization (some o.gatewayToken)) with
      | .error e =>
        some (s.setCall i q (q.call.setAttempt j (some (.error (.status e.code e.details)))))
      | .ok _ => (v.next s.services q.ask.data).map fun (answer,services) =>
        {s.setCall i q (q.call.setAttempt j (some answer)) with services := services}
    else none
  | .rpc values data v =>
    match dispatch (GrpcProcessController o.allowedGateway) data.method values with
    | .error _ => some s
    | .ok _ => (v.next s.services data).map fun (_,services) => {s with services := services}

/-- Nobody else has the access token of the gateway, every outbox row is published at most once, and
every message is handled at most once. -/
def Orderly (s : SpendingRun) : SpendingAction → Prop
  | .services a => s.services.Single a
  | .rpc values _ _ => ∀ value ∈ values.head?, some (accessToken value) ≠ o.allowedGateway
  | _ => True

instance Orderly.decidable : ∀ a, Decidable (Orderly o s a)
  | .services a => inferInstanceAs (Decidable (s.services.Single a))
  | .rpc values _ _ => inferInstanceAs (Decidable (∀ value, value ∈ values.head? →
      some (accessToken value) ≠ o.allowedGateway))
  | .auth _ | .http _ _ _ | .client _ _ | .serve _ _ _ => .isTrue trivial

end SpendingRun

/-- The row takes nothing, or is what the request asks for. -/
def TxRequest.Explains (data : TxRequest) (row : Transaction) : Prop :=
  0 ≤ row.amount ∨ data.isTransfer ∧ row.accountId = data.accountId ∧
    row.idempotencyKey = data.idempotencyKey ∧ row.amount = -(data.amount : ℤ)

theorem next_request {s : Services.State} {r : Request} {fault : Option ℕ} (maxRetry : ℕ)
    (hfresh : r.uuids.Nodup ∧ ∀ u ∈ r.uuids, u ∉ s.used) (hr : r.accepted) :
    s.next maxRetry (.request r fault) =
      some {s with tx := r.call.after fault s.tx, used := s.used++r.uuids} := by
  rw [State.next]
  refine (if_pos hfresh).trans ?_
  rw [State.step,if_pos hr]
  rfl

/-- A handler does nothing, or makes a step of the services, which inserts what it is asked for. -/
theorem Serving.next_cases {v : Serving} {s t : Services.State} {data : TxRequest}
    {answer : Except CallError String} (maxRetry : ℕ) (h : v.next s data = some (answer,t)) :
    t = s ∨ ∃ r, s.next maxRetry (.request r v.fault) = some t ∧
      ∀ row ∈ callRows r.call, data.Explains row := by
  unfold Serving.next at h
  split at h
  next hfresh =>
    simp only [Option.some.injEq,Prod.mk.injEq] at h
    obtain ⟨-,rfl⟩ := h
    cases data with
    | depositRub data =>
      by_cases hrefused : (v.depositRubCall data).refused
      · obtain ⟨e,he⟩ : ∃ e, (v.depositRubCall data).serve s.tx = (.error e,s.tx) :=
          DepositRubCall.serve_refused hrefused
        refine .inl ?_
        simp only [serve,he,uuids,if_pos hrefused,List.append_nil]
      · cases hanswer : (v.depositRubCall data).createPayment with
        | error error =>
          exact absurd (by rw [DepositRubCall.refused,hanswer]; split <;> simp_all) hrefused
        | ok payment =>
          refine .inr ⟨.depositRub ((v.depositRubCall data).row payment.id),?_,?_⟩
          · simp only [uuids,if_neg hrefused] at hfresh ⊢
            refine (next_request (s := s)
              (r := .depositRub ((v.depositRubCall data).row payment.id)) maxRetry hfresh rfl).trans ?_
            rw [serve,DepositRubCall.serve_accepted hanswer hrefused]
            rfl
          · intro row hrow
            cases List.mem_singleton.mp hrow
            exact .inl (Int.natCast_nonneg _)
    | transferRub data =>
      by_cases hrefused : (v.transferRubCall data).refused
      · obtain ⟨r,-,hr⟩ : ∃ r, r ≠ .ok inProcess ∧ (v.transferRubCall data).serve s.tx = (r,s.tx) :=
          TransferRubCall.serve_refused hrefused
        refine .inl ?_
        simp only [serve,hr,uuids,if_pos hrefused,List.append_nil]
      · refine .inr ⟨.transferRub (v.transferRubCall data).rows,?_,?_⟩
        · simp only [uuids,if_neg hrefused] at hfresh ⊢
          have hne : data.accountId ≠ data.toAccountId := by
            intro hself
            exact hrefused (by simp [TransferRubCall.refused,transferRubCall,hself])
          refine (next_request (s := s) (r := .transferRub (v.transferRubCall data).rows) maxRetry
            hfresh (decide_eq_true hne)).trans ?_
          rw [serve,TransferRubCall.serve_accepted hrefused]
          rfl
        · intro row hrow
          simp only [callRows,Request.call,List.mem_cons,List.not_mem_nil,or_false] at hrow
          obtain rfl | rfl := hrow
          · exact .inr ⟨rfl,rfl,rfl,rfl⟩
          · exact .inl (Int.natCast_nonneg _)
  next => contradiction

theorem JwtStrategy.validate_some (now : ℕ) (T : Jwt) : JwtStrategy.validate now (some T) =
    if T.exp ≤ now/1000 then none else some (T.id,T.role) := by
  rw [JwtStrategy.validate,TokenService.verify]
  split <;> rfl

/-- What passes the gateway is for the account of a token that has not expired. -/
theorem BalanceController.receive_ok {validate : String → Bool} {now : ℕ} {token : Option Jwt}
    {header : Option String} {body : MoneyBody} {ask : Ask}
    (h : receive validate now token header body = .ok ask) :
    token = some ask.token ∧ ask.time = now ∧ now < ask.token.exp*1000 ∧
      ask.token.id = ask.data.accountId ∧ 0 < ask.data.amount ∧ ask.data.amount ≤ 1000000 := by
  cases token with
  | none => contradiction
  | some T =>
    by_cases hexpired : T.exp ≤ now/1000
    · simp only [receive,JwtStrategy.validate_some,if_pos hexpired] at h
      contradiction
    simp only [receive,JwtStrategy.validate_some,if_neg hexpired] at h
    split at h
    · contradiction
    next key _ =>
      obtain ⟨data,hdata,rfl⟩ : ∃ data, payload T.id key body = .ok data ∧
          (⟨T,now,data⟩ : Ask) = ask := by
        cases hpayload : payload T.id key body with
        | error e =>
          rw [hpayload] at h
          contradiction
        | ok data =>
          rw [hpayload] at h
          exact ⟨data,rfl,Except.ok.inj h⟩
      have hlive : now < T.exp*1000 := by omega
      refine ⟨rfl,rfl,hlive,?_⟩
      have hamount : ∀ {r : AmountRules} {amount : AmountField}, r.max = 10000 →
          r.errors amount = [] → 0 < amountInCents amount ∧ amountInCents amount ≤ 1000000 := by
        intro r amount hrmax herrors
        obtain ⟨v,-,hcents,hpos,-,hmax⟩ := AmountRules.of_errors herrors
        rw [hrmax] at hmax
        constructor
        · have : (0 : ℚ) < amountInCents amount := by rw [hcents]; positivity
          exact_mod_cast this
        · have : (amountInCents amount : ℚ) ≤ 1000000 := by rw [hcents]; linarith
          exact_mod_cast this
      cases body with
      | depositRub amount =>
        simp only [payload] at hdata
        split at hdata
        next herrors =>
          cases hdata
          exact ⟨rfl,hamount rfl herrors⟩
        next => contradiction
      | transferRub amount toAccountId =>
        simp only [payload] at hdata
        split at hdata
        next herrors _ =>
          cases hdata
          exact ⟨rfl,hamount rfl (List.append_eq_nil_iff.mp herrors).1⟩
        next => contradiction

namespace SpendingRun
variable {o : SpendingOptions} {balances : List Balance} {s t : SpendingRun} {a : SpendingAction}

/-- What holds after any orderly steps. -/
structure Sound (o : SpendingOptions) (balances : List Balance) (s : SpendingRun) : Prop where
  agreed : Agreed o.maxRetry balances s.services
  keys : (keys (frozen s.services.tx)).Nodup
  rows : ∀ row ∈ frozen s.services.tx, ∃ q ∈ s.asks, q.data.Explains row
  asks : ∀ q ∈ s.asks, q.token ∈ s.auth.signed ∧ q.token.id = q.data.accountId ∧
    q.time < q.token.exp*1000 ∧ q.data.amount ≤ 1000000

theorem Sound.initial (hw : UserDb.WellFormed ⟨balances,[],[]⟩) : (initial balances).Sound o balances :=
  ⟨.initial o.maxRetry hw,by simp [SpendingRun.initial,State.initial,frozen,Services.keys],
    by simp [SpendingRun.initial,State.initial,frozen],by simp [SpendingRun.initial,SpendingRun.asks]⟩

theorem asks_setCall {i : ℕ} {q : MoneyRequest} (hi : s.requests[i]? = some q)
    (call : RpcCall TxAttempt String) : (s.setCall i q call).asks = s.asks := by
  obtain ⟨hlt,rfl⟩ := List.getElem?_eq_some_iff.mp hi
  rw [asks,asks,setCall,List.map_set]
  refine Eq.trans (congrArg _ ?_) (List.set_getElem_self (i := i) (by simpa using hlt))
  rw [List.getElem_map]

/-- The transaction service runs the handlers of the gateway's calls only. -/
theorem allowed_of_dispatch {method : String} {values : List String} {u : Unit}
    (h : dispatch (GrpcProcessController o.allowedGateway) method values = .ok u) :
    ∃ value ∈ values.head?, some (accessToken value) = o.allowedGateway := by
  obtain ⟨acl,value,rest,hacl,rfl,hin⟩ := dispatch_iff.mp (by rw [h]; rfl)
  refine ⟨value,rfl,?_⟩
  have hcontroller : GrpcProcessController o.allowedGateway =
      [("depositRub",some [o.allowedGateway]),("transferRub",some [o.allowedGateway])] := by rfl
  rw [hcontroller,List.lookup_cons,List.lookup_cons] at hacl
  split at hacl
  · cases hacl
    exact List.mem_singleton.mp hin
  · split at hacl
    · cases hacl
      exact List.mem_singleton.mp hin
    · contradiction

/-- A step of the services keeps what holds, when its rows are asked for. -/
theorem Sound.services (h : s.Sound o balances) {a : Services.Action} {services : Services.State}
    (hs : s.services.next o.maxRetry a = some services) (hsingle : s.services.Single a)
    (hrows : ∀ r fault, a = .request r fault → ∀ row ∈ callRows r.call,
      ∃ q ∈ s.asks, q.data.Explains row) : Sound o balances {s with services := services} := by
  refine ⟨(h.agreed.next hsingle hs).1,?_,?_,h.asks⟩
  · obtain hsame | ⟨r,fault,-,-,hfree⟩ := inserts_next h.keys hs
    · exact (congrArg (fun rows => (Services.keys rows).Nodup) hsame).mpr h.keys
    · exact hfree
  · intro row hrow
    obtain hsame | ⟨r,fault,ha,hnew,-⟩ := inserts_next h.keys hs
    · exact h.rows row (hsame ▸ hrow)
    · obtain hrow | hrow := List.mem_append.mp (hnew ▸ hrow)
      · exact h.rows row hrow
      · exact hrows r fault ha row hrow

/-- The handler of a request that was let through. -/
theorem Sound.serve (h : s.Sound o balances) {v : Serving} {q : Ask} (hq : q ∈ s.asks)
    {answer : Except CallError String} {services : Services.State}
    (hs : v.next s.services q.data = some (answer,services)) :
    Sound o balances {s with services := services} := by
  obtain rfl | ⟨r,hnext,hrows⟩ := Serving.next_cases o.maxRetry hs
  · exact h
  · refine h.services hnext trivial fun r' fault hr row hrow => ⟨q,hq,?_⟩
    cases hr
    exact hrows row hrow

theorem Sound.setCall (h : s.Sound o balances) {i : ℕ} {q : MoneyRequest}
    (hi : s.requests[i]? = some q) (call : RpcCall TxAttempt String) :
    (s.setCall i q call).Sound o balances := by
  refine ⟨h.agreed,h.keys,?_,?_⟩
  · rw [asks_setCall hi]
    exact h.rows
  · rw [asks_setCall hi]
    exact h.asks

theorem Sound.next (h : s.Sound o balances) (hgood : Orderly o s a) (hn : s.next o a = some t) :
    t.Sound o balances := by
  cases a with
  | auth a =>
    obtain ⟨auth,hauth,rfl⟩ := Option.map_eq_some_iff.mp hn
    refine ⟨h.agreed,h.keys,h.rows,fun q hq => ?_⟩
    obtain ⟨hsigned,hrest⟩ := h.asks q hq
    exact ⟨AuthRun.signed_subset_of_next hauth hsigned,hrest⟩
  | services a =>
    simp only [SpendingRun.next] at hn
    split at hn
    · contradiction
    next hgrpc =>
      obtain ⟨services,hs,rfl⟩ := Option.map_eq_some_iff.mp hn
      refine h.services hs hgood fun r fault ha row hrow => ?_
      subst ha
      cases r with
      | depositRub | transferRub => exact absurd rfl hgrpc
      | succeeded | canceled => cases hrow
  | http token header body =>
    simp only [SpendingRun.next] at hn
    split at hn
    next hsigned =>
      split at hn
      · cases hn
        exact h
      next ask hask =>
        cases hn
        obtain ⟨rfl,htime,hlive,hid,-,hmax⟩ := BalanceController.receive_ok hask
        have hin : ask.token ∈ s.auth.signed := by simpa using hsigned
        have hasks : SpendingRun.asks {s with requests := s.requests++[⟨ask,.start none⟩]} =
            s.asks++[ask] := List.map_append
        refine ⟨h.agreed,h.keys,?_,?_⟩
        · rw [hasks]
          intro row hrow
          obtain ⟨q,hq,hexplains⟩ := h.rows row hrow
          exact ⟨q,List.mem_append_left _ hq,hexplains⟩
        · rw [hasks]
          intro q hq
          obtain hq | hq := List.mem_append.mp hq
          · exact h.asks q hq
          · cases List.mem_singleton.mp hq
            exact ⟨hin,hid,htime ▸ hlive,hmax⟩
    · contradiction
  | client i e =>
    obtain ⟨q,hi,hcall⟩ := Option.bind_eq_some_iff.mp hn
    obtain ⟨call,-,rfl⟩ := Option.map_eq_some_iff.mp hcall
    exact h.setCall hi call
  | serve i j v =>
    obtain ⟨q,hi,hserve⟩ := Option.bind_eq_some_iff.mp hn
    split at hserve
    · split at hserve
      · cases hserve
        exact h.setCall hi _
      · obtain ⟨⟨answer,services⟩,hs,rfl⟩ := Option.map_eq_some_iff.mp hserve
        have hq : q.ask ∈ s.asks := List.mem_map_of_mem (List.mem_of_getElem? hi)
        exact (h.serve hq hs).setCall (s := {s with services := services}) hi _
    · contradiction
  | rpc values data v =>
    simp only [SpendingRun.next] at hn
    split at hn
    · cases hn
      exact h
    next hdispatch =>
      obtain ⟨value,hvalue,hallowed⟩ := allowed_of_dispatch hdispatch
      exact absurd hallowed (hgood value hvalue)

/-- Money leaves an account only for transfers that the gateway has let through with a live token of
the account, and for those of one key only once, however often they are tried. -/
theorem spending_is_authorized {steps : List SpendingAction}
    (hw : UserDb.WellFormed ⟨balances,[],[]⟩)
    (hgood : Along (next o) (Orderly o) (initial balances) steps)
    (hr : runs (next o) (initial balances) steps = some s) :
    ∀ b ∈ s.services.user.balances, ∃ spent : List Ask,
      (∀ q ∈ spent, q ∈ s.asks ∧ q.data.isTransfer ∧ q.data.accountId = b.accountId ∧
        q.token.id = b.accountId ∧ q.token ∈ s.auth.signed ∧ q.time < q.token.exp*1000 ∧
        q.data.amount ≤ 1000000) ∧
      (spent.map (·.data.idempotencyKey)).Nodup ∧
      opening balances b.accountId b.currency-((spent.map (·.data.amount)).sum : ℕ) ≤ b.amount := by
  have h : Sound o balances s :=
    runs_invariant (fun _ _ _ h hgood hn => h.next hgood hn) (.initial hw) hgood hr
  intro b hb
  let rows := (settledRows s.services.tx.transactions s.services.user.outboxEvents).filter
    fun row => (entry row).key = (b.accountId,b.currency)
  have hrows : ∀ row ∈ rows, 0 ≤ row.amount ∨ ∃ q : Ask, (q ∈ s.asks ∧ q.data.isTransfer ∧
      q.data.accountId = b.accountId) ∧ q.data.idempotencyKey = row.idempotencyKey ∧
      row.amount = -(q.data.amount : ℤ) := by
    intro row hrow
    obtain ⟨hsettled,hkey⟩ := List.mem_filter.mp hrow
    have hin : frozenRow row ∈ frozen s.services.tx := mem_frozen (List.mem_filter.mp hsettled).1
    obtain ⟨q,hq,hgives | ⟨htransfer,haccount,hidem,hamount⟩⟩ := h.rows _ hin
    · exact .inl hgives
    · have hid : row.accountId = b.accountId := congrArg Prod.fst (of_decide_eq_true hkey)
      exact .inr ⟨q,⟨hq,htransfer,haccount.symm.trans hid⟩,hidem.symm,hamount⟩
  obtain ⟨spent,hspent,hkeys,hsum⟩ := Shared.exists_causes hrows
  refine ⟨spent,fun q hq => ?_,?_,?_⟩
  · obtain ⟨hin,htransfer,haccount⟩ := hspent q hq
    obtain ⟨hsigned,hid,hlive,hmax⟩ := h.asks q hin
    exact ⟨hin,htransfer,haccount,hid.trans haccount,hsigned,hlive,hmax⟩
  · have hall : (s.services.tx.transactions.map (·.idempotencyKey)).Nodup := keys_frozen _ ▸ h.keys
    exact (hkeys.trans ((List.filter_sublist.trans List.filter_sublist).map _)).nodup hall
  · rw [h.agreed.books.amounts b hb,State.credited,Shared.total,List.filter_map,List.map_map]
    change _ ≤ _+(rows.map Transaction.amount).sum
    omega

/-- Both services have the same access token in their environments. -/
def sharedToken : SpendingOptions :=
  ⟨AuthRun.sevenDays,2,3,"4e1d","4e1d",fun key => key.length = 36⟩

def transferKey : String := "018f3b1c-7c1e-7a34-9b0a-2f6d5c4e3b40"

/-- An account transfers 3 roubles. The answer is lost, and the gateway tries again; somebody else
guesses an access token. -/
def triedTwice : List SpendingAction :=
  AuthRun.verifiedAccount.map .auth++
  [.http (some (AuthRun.tokenOf 0)) (some transferKey) (.transferRub (.number 3) (some (some 2))),
    .serve 0 0 ⟨.ok (⟨1000⟩,⟨0⟩),.error "",21,22,23,none,.timeout⟩,.client 0 (.lose .timeout),
    .client 0 .resend,.serve 0 1 ⟨.ok (⟨1000⟩,⟨0⟩),.error "",24,25,26,none,.timeout⟩,
    .client 0 .answer,
    .rpc ["Bearer 0000"] (.transferRub ⟨1,"k",100,2⟩)
      ⟨.ok (⟨1000⟩,⟨0⟩),.error "",27,28,29,none,.timeout⟩,
    .services (.txWorker (.find [⟨23,21,.transferInited,
      some (.transferInited ⟨23,21,22,1,2,"RUB","300"⟩),false⟩])),
    .services (.txWorker (.publish (.acknowledged 30))),
    .services (.handleBalance ⟨23,.transferInited,.transferInited ⟨23,21,22,1,2,"RUB","300"⟩,some 30⟩
      ⟨31,32,33⟩ none)]


theorem spending_is_authorized_twice :
    let balances : List Balance := [⟨5,1000,"RUB",1,none⟩,⟨6,0,"RUB",2,none⟩]
    ∃ s, runs (next sharedToken) (initial balances) triedTwice = some s ∧
      s.services.user.balances = [⟨5,700,"RUB",1,none⟩,⟨6,300,"RUB",2,none⟩] ∧
      ∀ b ∈ s.services.user.balances, ∃ spent : List Ask,
        (∀ q ∈ spent, q ∈ s.asks ∧ q.token.id = b.accountId) ∧
        (spent.map (·.data.idempotencyKey)).Nodup ∧
        opening balances b.accountId b.currency-((spent.map (·.data.amount)).sum : ℕ) ≤ b.amount := by
  intro balances
  have hw : UserDb.WellFormed ⟨balances,[],[]⟩ := ⟨by decide,by decide⟩
  have hrun : (runs (next sharedToken) (initial balances) triedTwice).map
      (·.services.user.balances) = some [⟨5,700,"RUB",1,none⟩,⟨6,300,"RUB",2,none⟩] := by
    decide +kernel
  obtain ⟨s,hs,hbalances⟩ := Option.map_eq_some_iff.mp hrun
  have hgood : Along (next sharedToken) (Orderly sharedToken) (initial balances) triedTwice := by
    decide +kernel
  refine ⟨s,hs,hbalances,fun b hb => ?_⟩
  obtain ⟨spent,hspent,hrest⟩ := spending_is_authorized hw hgood hs b hb
  exact ⟨spent,fun q hq => ⟨(hspent q hq).1,(hspent q hq).2.2.2.1⟩,hrest⟩

end SpendingRun
end NestHomework.Gateway
