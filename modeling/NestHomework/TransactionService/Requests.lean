import NestHomework.Contracts.Grpc
import NestHomework.TransactionService.Commits

/-! The requests of `GrpcProcessService`. Deposits and transfers of all accounts share one unique
key, and the repository answers a request whose key is taken with whatever row has it. -/
namespace NestHomework.TransactionService
open Contracts Postgres Transition

/-- Why a request fails. -/
inductive Failure where
  | rpc (error : RpcException)
  | database (error : String)
  deriving DecidableEq, Repr

structure ValidationAccountResponse where
  amount : ℤ
  deriving DecidableEq, Repr

structure DepositRubRequest where
  accountId : Uuid
  idempotencyKey : String
  amount : ℕ
  deriving DecidableEq, Repr

structure DepositRubResponse where
  url : String
  deriving DecidableEq, Repr

structure TransferRubRequest where
  accountId : Uuid
  idempotencyKey : String
  amount : ℕ
  toAccountId : Uuid
  deriving DecidableEq, Repr

structure StringMessage where
  message : String
  deriving DecidableEq, Repr

/-- What the service reads of a new payment. A field that is missing is empty. -/
structure CreatePaymentResponse where
  id : String
  confirmationUrl : String
  deriving DecidableEq, Repr

/-- The error of a request whose accounts could not be validated. -/
def validationError (error : RpcException) : RpcException :=
  if error.code = some .unavailable ∨ error.code = some .deadlineExceeded then
    ⟨some .unavailable,"Balance service недоступен"⟩
  else error

def depositRub (data : DepositRubRequest)
    (validation : Except RpcException ValidationAccountResponse)
    (createPayment : Except String CreatePaymentResponse) (id : Uuid) :
    Proc Stmt Res Uuid (Except Failure DepositRubResponse) :=
  match validation with
  | .error error => .done (.error (.rpc (validationError error)))
  | .ok _ =>
    match createPayment with
    | .error _ => .done (.error (.rpc ⟨some .unavailable,"Ошибка создания ссылки на оплату"⟩))
    | .ok payment =>
      if payment.id = "" then
        .done (.error (.rpc ⟨some .internal,"Ошибка создания ссылки на оплату"⟩))
      else if payment.confirmationUrl = "" then
        .done (.error (.rpc ⟨some .internal,"Ошибка создания ссылки на оплату"⟩))
      else
        .transaction (create
          { id := id, accountId := data.accountId, amount := data.amount, currency := "RUB",
            type := .deposit, status := .pending, idempotencyKey := data.idempotencyKey,
            retryCount := 0, provider := some "YOOKASSA", method := some "bank_card",
            providerPaymentId := some payment.id, referenceId := none })
          fun tx => .done ((tx.map fun _ => ⟨payment.confirmationUrl⟩).mapError .database)

/-- The answer to a transfer that the balance does not cover. -/
def insufficient : StringMessage := ⟨"Не хватает средств для перевода"⟩

/-- The answer to an accepted transfer. -/
def inProcess : StringMessage :=
  ⟨"Транзакция в обработке. Вы увидите ее статус исполнения в уведомлении Websocket (http://localhost:3003)"⟩

/-- `balances` is the outcome of the two validations, of which one rejection is enough. -/
def transferRub (data : TransferRubRequest)
    (balances : Except RpcException (ValidationAccountResponse × ValidationAccountResponse))
    (outId inId eventId : Uuid) : Proc Stmt Res Transaction (Except Failure StringMessage) :=
  if data.accountId = data.toAccountId then
    .done (.error (.rpc ⟨some .invalidArgument,"Нельзя переводить самому себе"⟩))
  else
    match balances with
    | .error error => .done (.error (.rpc (validationError error)))
    | .ok (balanceOut,_) =>
      if balanceOut.amount < data.amount then .done (.ok insufficient)
      else
        .transaction (createTransfer data.accountId data.toAccountId data.amount "RUB"
            data.idempotencyKey outId inId eventId)
          fun tx => .done ((tx.map fun _ => inProcess).mapError .database)

/-- A request with one database transaction: the answer, and the tables after it. -/
def serve {ρ ω : Type} (p : Proc Stmt Res ρ ω) (fault : Option ℕ) (db : TxDb) : ω × TxDb :=
  let r := p.run server.toEngine [fault] db
  (r.1,r.2.foldl server.applyAll db)

/-- A call of `depositRub`: what the other services answer, the uuid of the row, and where the
database transaction is cut off. -/
structure DepositRubCall where
  data : DepositRubRequest
  validation : Except RpcException ValidationAccountResponse
  createPayment : Except String CreatePaymentResponse
  id : Uuid
  fault : Option ℕ

structure TransferRubCall where
  data : TransferRubRequest
  balances : Except RpcException (ValidationAccountResponse × ValidationAccountResponse)
  outId : Uuid
  inId : Uuid
  eventId : Uuid
  fault : Option ℕ

def DepositRubCall.serve (c : DepositRubCall) (db : TxDb) : Except Failure DepositRubResponse × TxDb :=
  TransactionService.serve (depositRub c.data c.validation c.createPayment c.id) c.fault db

def TransferRubCall.serve (c : TransferRubCall) (db : TxDb) : Except Failure StringMessage × TxDb :=
  TransactionService.serve (transferRub c.data c.balances c.outId c.inId c.eventId) c.fault db

/-- The tables, and the payments that the provider made: the `Idempotence-Key` and the id. -/
structure RequestState where
  db : TxDb
  payments : List (String × String)
  deriving DecidableEq, Repr

inductive RequestAction where
  | payment (idempotencyKey paymentId : String)
  | depositRub (c : DepositRubCall)
  | transferRub (c : TransferRubCall)

/-- A payment that `createPayment` answers with was made for the key of the request. -/
def DepositRubCall.answered (c : DepositRubCall) (payments : List (String × String)) : Bool :=
  match c.createPayment with
  | .error _ => true
  | .ok payment => payment.id = "" || payments.contains (c.data.idempotencyKey,payment.id)

namespace RequestState

/-- The provider may make several payments for one key, each under an id of its own. -/
def next (s : RequestState) : RequestAction → Option RequestState
  | .payment idempotencyKey paymentId =>
    if (s.payments.map (·.2)).contains paymentId then none
    else some {s with payments := (idempotencyKey,paymentId)::s.payments}
  | .depositRub c => if c.answered s.payments then some {s with db := (c.serve s.db).2} else none
  | .transferRub c => some {s with db := (c.serve s.db).2}

def initial : RequestState := ⟨⟨[],[],[]⟩,[]⟩

/-- What holds after any requests. -/
structure Sound (s : RequestState) : Prop where
  ids : (s.db.transactions.map (·.id)).Nodup
  keys : (s.db.transactions.map (·.idempotencyKey)).Nodup
  payments : (s.payments.map (·.2)).Nodup
  /-- A deposit holds a payment that was made for its own key. -/
  paid : ∀ t ∈ s.db.transactions, ∀ p, t.providerPaymentId = some p →
    (t.idempotencyKey,p) ∈ s.payments
  /-- The legs of a transfer refer to each other. -/
  legs : ∀ t ∈ s.db.transactions, t.type = .transferOut → ∃ u ∈ s.db.transactions,
    t.referenceId = some u.id ∧ u.type = .transferIn ∧ u.referenceId = some t.id ∧
      u.amount = -t.amount

end RequestState

section Serve
variable {db : TxDb}

/-- The request does not come to its database transaction. -/
def DepositRubCall.refused (c : DepositRubCall) : Bool :=
  match c.validation, c.createPayment with
  | .ok _, .ok payment => payment.id = "" || payment.confirmationUrl = ""
  | _, _ => true

def TransferRubCall.refused (c : TransferRubCall) : Bool :=
  c.data.accountId = c.data.toAccountId ||
    match c.balances with
    | .error _ => true
    | .ok (balanceOut,_) => balanceOut.amount < c.data.amount

def DepositRubCall.row (c : DepositRubCall) (paymentId : String) : NewDeposit :=
  ⟨c.id,c.data.accountId,c.data.amount,c.data.idempotencyKey,paymentId⟩

def TransferRubCall.rows (c : TransferRubCall) : NewTransfer :=
  ⟨c.data.accountId,c.data.toAccountId,c.data.amount,"RUB",c.data.idempotencyKey,c.outId,c.inId,
    c.eventId⟩

/-- The database transaction of the request is cut off. -/
def DepositRubCall.interrupted (c : DepositRubCall) (db : TxDb) : Bool :=
  match c.createPayment with
  | .error _ => false
  | .ok payment => (TransactionCall.create (c.row payment.id)).interrupted c.fault db

def TransferRubCall.interrupted (c : TransferRubCall) (db : TxDb) : Bool :=
  (TransactionCall.createTransfer c.rows).interrupted c.fault db

/-- The key is free, or its row is the deposit of this very payment. -/
def DepositRubCall.fits (c : DepositRubCall) (db : TxDb) : Bool :=
  match db.transactionOfKey c.data.idempotencyKey, c.createPayment with
  | some t, .ok payment => t.type = .deposit && t.accountId = c.data.accountId &&
      t.amount = c.data.amount && t.providerPaymentId = some payment.id
  | _, _ => true

/-- The key is free, or its row is the outgoing leg of this very transfer. -/
def TransferRubCall.fits (c : TransferRubCall) (db : TxDb) : Bool :=
  match db.transactionOfKey c.data.idempotencyKey with
  | none => true
  | some t => t.type = .transferOut && t.accountId = c.data.accountId &&
      t.amount = -(c.data.amount : ℤ) &&
      (t.referenceId.bind db.transaction).any (fun u => u.accountId = c.data.toAccountId)

/-- What the database transaction of a deposit does: the answer and the tables after it. -/
inductive DepositRubCall.Served (c : DepositRubCall) (db : TxDb) :
    Except Failure DepositRubResponse × TxDb → Prop
  | refused (refused : c.refused) (e : Failure) : Served c db (.error e,db)
  | failed (cause : c.interrupted db ∨ db.transactionOfKey c.data.idempotencyKey = none)
      (e : Failure) : Served c db (.error e,db)
  | existing {payment t} (answer : c.createPayment = .ok payment) (id : payment.id ≠ "")
      (accepted : ¬c.refused) (whole : ¬c.interrupted db)
      (found : db.transactionOfKey c.data.idempotencyKey = some t) :
      Served c db (.ok ⟨payment.confirmationUrl⟩,db)
  | stored {payment} (answer : c.createPayment = .ok payment) (id : payment.id ≠ "")
      (free : db.transactionOfKey c.data.idempotencyKey = none)
      (newId : db.transaction c.id = none) :
      Served c db (.ok ⟨payment.confirmationUrl⟩,
        server.applyAll db [.insertTransaction (c.row payment.id).data])

inductive TransferRubCall.Served (c : TransferRubCall) (db : TxDb) :
    Except Failure StringMessage × TxDb → Prop
  | refused {r} (refused : c.refused) (other : r ≠ .ok inProcess) : Served c db (r,db)
  | failed (cause : c.interrupted db ∨ db.transactionOfKey c.data.idempotencyKey = none)
      (e : Failure) : Served c db (.error e,db)
  | existing {t} (accepted : ¬c.refused) (whole : ¬c.interrupted db)
      (found : db.transactionOfKey c.data.idempotencyKey = some t) :
      Served c db (.ok inProcess,db)
  | stored (free : db.transactionOfKey c.data.idempotencyKey = none)
      (freeIn : db.transactionOfKey (c.data.idempotencyKey++"_in") = none)
      (newOut : db.transaction c.outId = none) (newIn : db.transaction c.inId = none)
      (distinct : c.outId ≠ c.inId) :
      Served c db (.ok inProcess,server.applyAll db [.insertTransaction c.rows.txOut,
        .insertTransaction c.rows.txIn,.insertOutboxEvent c.rows.event])

theorem serve_transaction {ρ ω : Type} (body : Tx Stmt Res ρ) (f : Except String ρ → ω)
    (fault : Option ℕ) : serve (.transaction body fun r => .done (f r)) fault db =
      (f ((server.run fault body db).map (·.1)),server.after fault body db) := by
  rw [serve,Proc.run_transaction,Engine.after]
  rcases server.run fault body db with e | ⟨a,ws⟩ <;> rfl

theorem DepositRubCall.serve_accepted {c : DepositRubCall} {payment : CreatePaymentResponse}
    (hanswer : c.createPayment = .ok payment) (haccepted : ¬c.refused) : c.serve db =
      ((((server.run c.fault (create (c.row payment.id).data) db).map (·.1)).map
        fun _ => ⟨payment.confirmationUrl⟩).mapError .database,
        server.after c.fault (create (c.row payment.id).data) db) := by
  obtain ⟨data,validation,createPayment,id,fault⟩ := c
  cases validation with
  | error error => exact absurd rfl haccepted
  | ok account =>
    cases hanswer
    simp only [refused,Bool.or_eq_true,decide_eq_true_eq,not_or] at haccepted
    rw [DepositRubCall.serve,depositRub,if_neg haccepted.1,if_neg haccepted.2]
    exact serve_transaction ..

theorem TransferRubCall.serve_accepted {c : TransferRubCall} (haccepted : ¬c.refused) : c.serve db =
    ((((server.run c.fault (createTransfer c.data.accountId c.data.toAccountId c.data.amount "RUB"
        c.data.idempotencyKey c.outId c.inId c.eventId) db).map (·.1)).map
        fun _ => inProcess).mapError .database,
      server.after c.fault (createTransfer c.data.accountId c.data.toAccountId c.data.amount "RUB"
        c.data.idempotencyKey c.outId c.inId c.eventId) db) := by
  obtain ⟨data,balances,outId,inId,eventId,fault⟩ := c
  cases balances with
  | error error => exact absurd (by simp [refused]) haccepted
  | ok balances =>
    simp only [refused,Bool.or_eq_true,decide_eq_true_eq,not_or] at haccepted
    rw [TransferRubCall.serve,transferRub,if_neg haccepted.1,if_neg haccepted.2]
    exact serve_transaction ..

/-- A refused request leaves the tables as they are. -/
theorem DepositRubCall.serve_refused {c : DepositRubCall} (h : c.refused) :
    ∃ e, c.serve db = (.error e,db) := by
  obtain ⟨data,validation,createPayment,id,fault⟩ := c
  rcases validation with error | account
  · exact ⟨_,rfl⟩
  rcases createPayment with error | payment
  · exact ⟨_,rfl⟩
  simp only [refused,Bool.or_eq_true,decide_eq_true_eq] at h
  rw [DepositRubCall.serve,depositRub]
  by_cases hid : payment.id = ""
  · rw [if_pos hid]
    exact ⟨_,rfl⟩
  · rw [if_neg hid,if_pos (h.resolve_left hid)]
    exact ⟨_,rfl⟩

theorem TransferRubCall.serve_refused {c : TransferRubCall} (h : c.refused) :
    ∃ r, r ≠ .ok inProcess ∧ c.serve db = (r,db) := by
  obtain ⟨data,balances,outId,inId,eventId,fault⟩ := c
  simp only [refused,Bool.or_eq_true,decide_eq_true_eq] at h
  rcases balances with error | balances
  · by_cases hself : data.accountId = data.toAccountId
    · rw [TransferRubCall.serve,transferRub,if_pos hself]
      exact ⟨_,by simp,rfl⟩
    · rw [TransferRubCall.serve,transferRub,if_neg hself]
      exact ⟨_,by simp,rfl⟩
  · by_cases hself : data.accountId = data.toAccountId
    · rw [TransferRubCall.serve,transferRub,if_pos hself]
      exact ⟨_,by simp,rfl⟩
    · have hlow : balances.1.amount < data.amount := by simpa using h.resolve_left hself
      rw [TransferRubCall.serve,transferRub,if_neg hself,if_pos hlow]
      exact ⟨_,by simp [insufficient,inProcess],rfl⟩

theorem DepositRubCall.interrupted_eq {c : DepositRubCall} {payment : CreatePaymentResponse}
    (h : c.createPayment = .ok payment) : c.interrupted db =
      server.interrupts c.fault (create (c.row payment.id).data) db := by
  rw [interrupted,h]
  rfl

theorem DepositRubCall.served (c : DepositRubCall) (db : TxDb) : c.Served db (c.serve db) := by
  by_cases hrefused : c.refused
  · obtain ⟨e,he⟩ := c.serve_refused hrefused
    rw [he]
    exact .refused hrefused e
  cases hanswer : c.createPayment with
  | error error => exact absurd (by rw [refused,hanswer]; split <;> simp_all) hrefused
  | ok payment =>
    have hid : payment.id ≠ "" := by
      intro h
      exact hrefused (by rw [refused,hanswer]; split <;> simp_all)
    rw [serve_accepted hanswer hrefused,Engine.after]
    rcases server.run_cases c.fault (create (c.row payment.id).data) db with
      ⟨e,he,hcause⟩ | ⟨a,ws,hok,hwhole,hws⟩
    · rw [he]
      rw [← interrupted_eq hanswer,TransactionCall.create_run,TransactionCall.commit] at hcause
      refine .failed (hcause.imp_right fun h => ?_) _
      split at h
      · contradiction
      · rename_i hfree
        exact Option.not_isSome_iff_eq_none.mp hfree
    · rw [hok]
      rw [TransactionCall.create_run,TransactionCall.commit] at hws
      rw [← interrupted_eq hanswer] at hwhole
      split at hws
      · rename_i hfound
        obtain ⟨t,ht⟩ := Option.isSome_iff_exists.mp hfound
        cases hws
        exact .existing hanswer hid hrefused hwhole ht
      · rename_i hfree
        split at hws
        · contradiction
        · rename_i hnew
          cases hws
          rw [Bool.or_eq_true_iff,not_or,Option.not_isSome_iff_eq_none] at hnew
          exact .stored hanswer hid (Option.not_isSome_iff_eq_none.mp hfree) hnew.1

theorem TransferRubCall.served (c : TransferRubCall) (db : TxDb) : c.Served db (c.serve db) := by
  by_cases hrefused : c.refused
  · obtain ⟨r,hr,he⟩ := c.serve_refused hrefused
    rw [he]
    exact .refused hrefused hr
  rw [serve_accepted hrefused,Engine.after]
  rcases server.run_cases c.fault (createTransfer c.data.accountId c.data.toAccountId c.data.amount
    "RUB" c.data.idempotencyKey c.outId c.inId c.eventId) db with
    ⟨e,he,hcause⟩ | ⟨a,ws,hok,hwhole,hws⟩
  · rw [he]
    refine .failed (hcause.imp_right fun h => ?_) _
    replace h := (TransactionCall.createTransfer_run c.rows).symm.trans h
    rw [TransactionCall.commit] at h
    split at h
    · contradiction
    · rename_i hfree
      exact Option.not_isSome_iff_eq_none.mp hfree
  · rw [hok]
    replace hws := (TransactionCall.createTransfer_run c.rows).symm.trans hws
    rw [TransactionCall.commit] at hws
    split at hws
    · rename_i hfound
      obtain ⟨t,ht⟩ := Option.isSome_iff_exists.mp hfound
      cases hws
      exact .existing hrefused hwhole ht
    · rename_i hfree
      split at hws
      · contradiction
      · rename_i hnew
        cases hws
        simp only [Bool.or_eq_true_iff,not_or,Option.not_isSome_iff_eq_none,
          decide_eq_true_eq] at hnew hfree
        exact .stored hfree hnew.2 hnew.1.1.1 hnew.1.1.2 hnew.1.2

end Serve

section Sound
variable {db : TxDb}

theorem not_mem_of_transaction_none {id : Uuid} (h : db.transaction id = none) :
    id ∉ db.transactions.map (·.id) := by
  simpa [TxDb.transaction,List.find?_eq_none] using h

theorem not_mem_of_transactionOfKey_none {key : String} (h : db.transactionOfKey key = none) :
    key ∉ db.transactions.map (·.idempotencyKey) := by
  simpa [TxDb.transactionOfKey,List.find?_eq_none] using h

theorem nodup_map_append {α κ : Type} {key : α → κ} {l : List α} {a : α}
    (h : (l.map key).Nodup) (ha : key a ∉ l.map key) : ((l++[a]).map key).Nodup := by
  rw [List.map_append,List.map_singleton,List.nodup_append]
  refine ⟨h,by simp,fun k hk k' hk' heq => ha ?_⟩
  rwa [← List.mem_singleton.mp hk',← heq]

end Sound

namespace RequestState

namespace Sound
variable {s : RequestState}

theorem initial : Sound initial := by
  constructor <;> simp [RequestState.initial]

theorem payment (h : s.Sound) {idempotencyKey paymentId : String}
    (hnew : paymentId ∉ s.payments.map (·.2)) :
    Sound {s with payments := (idempotencyKey,paymentId)::s.payments} where
  ids := h.ids
  keys := h.keys
  payments := List.nodup_cons.mpr ⟨hnew,h.payments⟩
  paid t ht p hp := List.mem_cons_of_mem _ (h.paid t ht p hp)
  legs := h.legs

theorem depositRub (h : s.Sound) {c : DepositRubCall} (hans : c.answered s.payments)
    {r : Except Failure DepositRubResponse × TxDb} (hserved : c.Served s.db r) :
    Sound {s with db := r.2} := by
  cases hserved with
  | refused | failed | existing => exact h
  | @stored payment answer id free newId =>
    rw [DepositRubCall.answered,answer] at hans
    refine ⟨nodup_map_append h.ids (not_mem_of_transaction_none newId),
      nodup_map_append h.keys (not_mem_of_transactionOfKey_none free),h.payments,?_,?_⟩
    · intro t ht p hp
      rcases List.mem_append.mp ht with ht | ht
      · exact h.paid t ht p hp
      · cases List.mem_singleton.mp ht
        cases hp
        have hmem : (c.data.idempotencyKey,payment.id) ∈ s.payments := by simpa [id] using hans
        exact hmem
    · intro t ht hout
      rcases List.mem_append.mp ht with ht | ht
      · obtain ⟨u,hu,hlegs⟩ := h.legs t ht hout
        exact ⟨u,List.mem_append_left _ hu,hlegs⟩
      · cases List.mem_singleton.mp ht
        contradiction

theorem transferRub (h : s.Sound) {c : TransferRubCall}
    {r : Except Failure StringMessage × TxDb} (hserved : c.Served s.db r) :
    Sound {s with db := r.2} := by
  cases hserved with
  | refused | failed | existing => exact h
  | stored free freeIn newOut newIn distinct =>
    have hids : ((s.db.transactions++[c.rows.txOut]++[c.rows.txIn]).map (·.id)).Nodup := by
      refine nodup_map_append (nodup_map_append h.ids (not_mem_of_transaction_none newOut)) ?_
      rw [List.map_append,List.mem_append,not_or]
      exact ⟨not_mem_of_transaction_none newIn,
        fun hmem => distinct (List.mem_singleton.mp hmem).symm⟩
    have hkeys : ((s.db.transactions++[c.rows.txOut]++[c.rows.txIn]).map
        (·.idempotencyKey)).Nodup := by
      refine nodup_map_append (nodup_map_append h.keys (not_mem_of_transactionOfKey_none free)) ?_
      rw [List.map_append,List.mem_append,not_or]
      exact ⟨not_mem_of_transactionOfKey_none freeIn,fun hmem =>
        TransactionCall.key_ne_append_in c.data.idempotencyKey (List.mem_singleton.mp hmem).symm⟩
    refine ⟨hids,hkeys,h.payments,?_,?_⟩
    · intro t ht p hp
      simp only [Engine.applyAll_cons,Engine.applyAll_nil,server_apply,Write.apply,
        List.append_assoc,List.mem_append,List.mem_singleton] at ht
      rcases ht with ht | rfl | rfl
      · exact h.paid t ht p hp
      · contradiction
      · contradiction
    · intro t ht hout
      simp only [Engine.applyAll_cons,Engine.applyAll_nil,server_apply,Write.apply,
        List.append_assoc,List.mem_append,List.mem_singleton] at ht ⊢
      rcases ht with ht | rfl | rfl
      · obtain ⟨u,hu,hlegs⟩ := h.legs t ht hout
        exact ⟨u,.inl hu,hlegs⟩
      · exact ⟨c.rows.txIn,by simp,rfl,rfl,rfl,by simp [NewTransfer.txOut,NewTransfer.txIn]⟩
      · contradiction

theorem next (h : s.Sound) {a : RequestAction} {t : RequestState} (hn : s.next a = some t) :
    t.Sound := by
  cases a with
  | payment idempotencyKey paymentId =>
    simp only [RequestState.next,List.contains_iff_mem] at hn
    split at hn
    · contradiction
    · cases hn
      exact h.payment (by assumption)
  | depositRub c =>
    simp only [RequestState.next] at hn
    split at hn
    · cases hn
      exact h.depositRub (by assumption) (c.served s.db)
    · contradiction
  | transferRub c =>
    cases hn
    exact h.transferRub (c.served s.db)

theorem of_runs {schedule : List RequestAction}
    (hr : runs RequestState.next .initial schedule = some s) : s.Sound :=
  runs_invariant' (fun _ _ _ h hn => next h hn) initial hr

theorem row_of_key (h : s.Sound) {t u : Transaction}
    (ht : s.db.transactionOfKey u.idempotencyKey = some t) (hu : u ∈ s.db.transactions) : t = u :=
  Option.some.inj (ht.symm.trans ((find?_key_iff h.keys).mpr ⟨hu,rfl⟩))

end Sound
end RequestState

/-- The transfer is in the table with both of its legs. -/
def TransferRubRequest.Recorded (data : TransferRubRequest) (db : TxDb) : Prop :=
  ∃ txOut ∈ db.transactions, ∃ txIn ∈ db.transactions,
    txOut.type = .transferOut ∧ txOut.idempotencyKey = data.idempotencyKey ∧
    txOut.accountId = data.accountId ∧ txOut.amount = -(data.amount : ℤ) ∧
    txOut.referenceId = some txIn.id ∧ txIn.type = .transferIn ∧
    txIn.referenceId = some txOut.id ∧ txIn.accountId = data.toAccountId ∧
    txIn.amount = data.amount

instance (data : TransferRubRequest) (db : TxDb) : Decidable (data.Recorded db) :=
  inferInstanceAs (Decidable (∃ txOut ∈ db.transactions, ∃ txIn ∈ db.transactions, _))

/-- The deposit of the payment is in the table. -/
def DepositRubRequest.Recorded (data : DepositRubRequest) (paymentId : String) (db : TxDb) : Prop :=
  ∃ t ∈ db.transactions, t.type = .deposit ∧ t.providerPaymentId = some paymentId ∧
    t.accountId = data.accountId ∧ t.amount = data.amount

instance (data : DepositRubRequest) (paymentId : String) (db : TxDb) :
    Decidable (data.Recorded paymentId db) :=
  inferInstanceAs (Decidable (∃ t ∈ db.transactions, _))

variable {schedule : List RequestAction} {s s' : RequestState}

theorem accepted_transfer_is_recorded (hr : runs RequestState.next .initial schedule = some s)
    (c : TransferRubCall) :
    ((c.serve s.db).1 = .ok inProcess → c.data.Recorded (c.serve s.db).2) ↔
      c.refused ∨ c.interrupted s.db ∨ c.fits s.db := by
  have h := RequestState.Sound.of_runs hr
  generalize hserve : c.serve s.db = r
  have hserved := c.served s.db
  rw [hserve] at hserved
  cases hserved with
  | refused hrefused other => simp [hrefused,other]
  | failed cause e =>
    have hcond : c.refused ∨ c.interrupted s.db ∨ c.fits s.db :=
      .inr (cause.imp_right fun hfree => by rw [TransferRubCall.fits,hfree])
    simp [hcond]
  | @existing t accepted whole found =>
    have hfits : c.fits s.db ↔ c.data.Recorded s.db := by
      rw [TransferRubCall.fits,found]
      simp only [Bool.and_eq_true,decide_eq_true_eq,Option.any_eq_true]
      constructor
      · rintro ⟨⟨⟨htype,haccount⟩,hamount⟩,u,hu,hto⟩
        have ht := List.mem_of_find?_eq_some found
        obtain ⟨txIn,hin,href,hintype,hback,hinamount⟩ := h.legs t ht htype
        have hfind : s.db.transaction txIn.id = some txIn := (find?_key_iff h.ids).mpr ⟨hin,rfl⟩
        rw [href,Option.bind_some,hfind] at hu
        cases hu
        exact ⟨t,ht,u,hin,htype,by simpa using List.find?_some found,haccount,hamount,href,
          hintype,hback,hto,by rw [hinamount,hamount,neg_neg]⟩
      · rintro ⟨txOut,hout,txIn,hin,htype,hkey,haccount,hamount,href,-,-,hto,-⟩
        rw [← hkey] at found
        cases h.row_of_key found hout
        have hfind : s.db.transaction txIn.id = some txIn := (find?_key_iff h.ids).mpr ⟨hin,rfl⟩
        exact ⟨⟨⟨htype,haccount⟩,hamount⟩,txIn,by rw [href,Option.bind_some,hfind],hto⟩
    simp [accepted,whole,hfits]
  | stored free =>
    have hfits : c.fits s.db := by rw [TransferRubCall.fits,free]
    refine ⟨fun _ => .inr (.inr hfits),fun _ _ => ⟨c.rows.txOut,?_,c.rows.txIn,?_,
      rfl,rfl,rfl,rfl,rfl,rfl,rfl,rfl,rfl⟩⟩
    · simp [Write.apply]
    · simp [Write.apply]

theorem deposit_link_is_recorded (hr : runs RequestState.next .initial schedule = some s)
    (c : DepositRubCall) (hc : s.next (.depositRub c) = some s') :
    (∀ payment, c.createPayment = .ok payment →
      (c.serve s.db).1 = .ok ⟨payment.confirmationUrl⟩ → c.data.Recorded payment.id s'.db) ↔
      c.refused ∨ c.interrupted s.db ∨ c.fits s.db := by
  have h := RequestState.Sound.of_runs hr
  simp only [RequestState.next] at hc
  split at hc
  case isFalse => contradiction
  rename_i hans
  cases hc
  generalize hserve : c.serve s.db = r
  have hserved := c.served s.db
  rw [hserve] at hserved
  cases hserved with
  | refused hrefused e => simp [hrefused]
  | failed cause e =>
    have hcond : c.refused ∨ c.interrupted s.db ∨ c.fits s.db :=
      .inr (cause.imp_right fun hfree => by rw [DepositRubCall.fits,hfree])
    simp [hcond]
  | @existing payment t answer id accepted whole found =>
    have hfits : c.fits s.db ↔ c.data.Recorded payment.id s.db := by
      rw [DepositRubCall.fits,found,answer]
      simp only [Bool.and_eq_true,decide_eq_true_eq]
      constructor
      · rintro ⟨⟨⟨htype,haccount⟩,hamount⟩,hpayment⟩
        exact ⟨t,List.mem_of_find?_eq_some found,htype,hpayment,haccount,hamount⟩
      · rintro ⟨u,hu,htype,hpayment,haccount,hamount⟩
        rw [DepositRubCall.answered,answer] at hans
        have hmade : (c.data.idempotencyKey,payment.id) ∈ s.payments := by simpa [id] using hans
        -- one payment has one key, and one key one row
        have hkey := List.inj_on_of_nodup_map h.payments (h.paid u hu _ hpayment) hmade rfl
        rw [← (Prod.mk.inj hkey).1] at found
        cases h.row_of_key found hu
        exact ⟨⟨⟨htype,haccount⟩,hamount⟩,hpayment⟩
    simp [accepted,whole,hfits,answer]
  | @stored payment answer id free =>
    have hfits : c.fits s.db := by rw [DepositRubCall.fits,free]
    refine ⟨fun _ => .inr (.inr hfits),fun _ payment' hpay _ => ?_⟩
    rw [answer] at hpay
    cases hpay
    exact ⟨(c.row payment.id).data,by simp [Write.apply],rfl,rfl,rfl,rfl⟩

section Shared

def sharedKey : String := "018f3b1c-7c1e-7a34-9b0a-2f6d5c4e3b2a"

/-- One account has used the key for a deposit. -/
def keyUsed : List RequestAction :=
  [.payment sharedKey "2d9b",.depositRub ⟨⟨1,sharedKey,5000⟩,.ok ⟨0⟩,
    .ok ⟨"2d9b","https://yoomoney.ru/2d9b"⟩,10,none⟩]

def usedState : RequestState :=
  ⟨⟨[NewDeposit.data ⟨10,1,5000,sharedKey,"2d9b"⟩],[],[]⟩,[(sharedKey,"2d9b")]⟩

theorem runs_keyUsed : runs RequestState.next .initial keyUsed = some usedState := by
  decide +kernel

/-- A transfer of another account. -/
def transferOf (idempotencyKey : String) : TransferRubCall :=
  ⟨⟨2,idempotencyKey,700,3⟩,.ok (⟨900⟩,⟨0⟩),11,12,13,none⟩

/-- A deposit of another account, for which the provider remembers the key. -/
def depositOf (amount : ℕ) (accountId : Uuid) : DepositRubCall :=
  ⟨⟨accountId,sharedKey,amount⟩,.ok ⟨0⟩,.ok ⟨"2d9b","https://yoomoney.ru/2d9b"⟩,14,none⟩

theorem accepted_transfer_is_lost : ∃ schedule s, runs RequestState.next .initial schedule = some s ∧
    ((transferOf sharedKey).serve s.db).1 = .ok inProcess ∧
    ¬(transferOf sharedKey).data.Recorded ((transferOf sharedKey).serve s.db).2 :=
  ⟨keyUsed,usedState,runs_keyUsed,by decide +kernel,by decide +kernel⟩

theorem accepted_transfer_is_recorded_new :
    (transferOf "018f3b1c-7c1e-7a34-9b0a-2f6d5c4e3b2b").data.Recorded
      ((transferOf "018f3b1c-7c1e-7a34-9b0a-2f6d5c4e3b2b").serve usedState.db).2 :=
  (accepted_transfer_is_recorded runs_keyUsed _).mpr (by decide +kernel) (by decide +kernel)

theorem deposit_link_is_foreign : ∃ schedule s s',
    runs RequestState.next .initial schedule = some s ∧
    s.next (.depositRub (depositOf 700 2)) = some s' ∧
    ((depositOf 700 2).serve s.db).1 = .ok ⟨"https://yoomoney.ru/2d9b"⟩ ∧
    ¬(depositOf 700 2).data.Recorded "2d9b" s'.db :=
  ⟨keyUsed,usedState,usedState,runs_keyUsed,by decide +kernel,by decide +kernel,by decide +kernel⟩

theorem deposit_link_is_recorded_again :
    (depositOf 5000 1).data.Recorded "2d9b" usedState.db :=
  have hnext : usedState.next (.depositRub (depositOf 5000 1)) = some usedState := by decide +kernel
  (deposit_link_is_recorded runs_keyUsed (depositOf 5000 1) hnext).mpr (by decide +kernel) _ rfl
    (by decide +kernel)

end Shared
end NestHomework.TransactionService
