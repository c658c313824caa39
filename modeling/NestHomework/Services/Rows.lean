import NestHomework.Services.Agreement
import NestHomework.TransactionService.Requests

/-! Where the rows of the transactions come from: only requests insert them, under keys that are
free. -/
namespace NestHomework.Services
open Contracts Postgres Outbox TransactionService
open UserService (BalanceMessage Outcome)

def writtenRows : Write → List Transaction
  | .insertTransaction data => [data]
  | _ => []

/-- The rows that a call inserts, unless it finds the key. -/
def callRows : TransactionCall → List Transaction
  | .create n => [n.data]
  | .createTransfer n => [n.txOut,n.txIn]
  | _ => []

def keys (rows : List Transaction) : List String := rows.map (·.idempotencyKey)

section Calls
variable {db : TxDb} {c : TransactionCall} {ws : List Write}

theorem frozen_applyAll (db : TxDb) (ws : List Write) :
    frozen (server.applyAll db ws) = frozen db++(ws.flatMap writtenRows).map frozenRow := by
  induction ws generalizing db with
  | nil => simp
  | cons w ws ih =>
    rw [Engine.applyAll_cons,ih,List.flatMap_cons,List.map_append,← List.append_assoc]
    congr 1
    cases w <;> simp [writtenRows]

theorem keys_frozen (db : TxDb) : keys (frozen db) = db.transactions.map (·.idempotencyKey) := by
  rw [keys,frozen,List.map_map]
  rfl

/-- The rows that a call leaves behind. -/
inductive Inserts (db : TxDb) (c : TransactionCall) (db' : TxDb) : Prop
  | nothing (same : frozen db' = frozen db)
  | rows (new : frozen db' = frozen db++callRows c) (free : (keys (frozen db')).Nodup)

theorem Effect.written (he : TransactionCall.Effect db c ws) :
    ws.flatMap writtenRows = [] ∨ ws.flatMap writtenRows = callRows c := by
  cases he with
  | created | createdTransfer => exact .inr rfl
  | nothing | completed | timedOut | updated | updatedByIds | copied | failed => exact .inl rfl

theorem frozenRow_callRows (c : TransactionCall) : (callRows c).map frozenRow = callRows c := by
  cases c <;> rfl

/-- The keys stay unique when the call has found its keys free. -/
theorem nodup_keys_callRows (hkeys : (keys (frozen db)).Nodup) (hc : c.commit db = some ws)
    (hws : ws ≠ []) : (keys (frozen db++callRows c)).Nodup := by
  rw [keys_frozen] at hkeys
  rw [keys,List.map_append,← keys,keys_frozen]
  cases c with
  | create n =>
    simp only [TransactionCall.commit] at hc
    split at hc
    · cases hc
      contradiction
    next hfree =>
      have hnew := not_mem_of_transactionOfKey_none (Option.not_isSome_iff_eq_none.mp hfree)
      simpa [callRows,NewDeposit.data,List.nodup_append,hkeys] using hnew
  | createTransfer n =>
    simp only [TransactionCall.commit] at hc
    split at hc
    · cases hc
      contradiction
    next hfree =>
      split at hc
      · contradiction
      next hfreeIn =>
        have hnew := not_mem_of_transactionOfKey_none (Option.not_isSome_iff_eq_none.mp hfree)
        simp only [Bool.or_eq_true,not_or] at hfreeIn
        have hnewIn := not_mem_of_transactionOfKey_none
          (Option.not_isSome_iff_eq_none.mp hfreeIn.2)
        have hne := TransactionCall.key_ne_append_in n.idempotencyKey
        rw [List.nodup_append]
        refine ⟨hkeys,by simpa [callRows,NewTransfer.txOut,NewTransfer.txIn] using hne,?_⟩
        rintro key hkey key' hkey' rfl
        simp only [callRows,NewTransfer.txOut,NewTransfer.txIn,List.map_cons,List.map_nil,
          List.mem_cons,List.not_mem_nil,or_false] at hkey'
        obtain rfl | rfl := hkey'
        · exact hnew hkey
        · exact hnewIn hkey
  | _ => simpa [callRows] using hkeys

theorem inserts_after (hkeys : (keys (frozen db)).Nodup) (c : TransactionCall) (fault : Option ℕ) :
    Inserts db c (c.after fault db) := by
  rw [TransactionCall.after_eq]
  split
  · exact .nothing rfl
  cases hc : c.commit db with
  | none => exact .nothing rfl
  | some ws =>
    rw [Option.getD_some]
    have hrows := frozen_applyAll db ws
    obtain hw | hw := Effect.written (TransactionCall.effect_of_commit hc)
    · exact .nothing (by rw [hrows,hw,List.map_nil,List.append_nil])
    · rw [hw,frozenRow_callRows] at hrows
      by_cases hws : ws = []
      · subst hws
        exact .nothing rfl
      · exact .rows hrows (hrows ▸ nodup_keys_callRows hkeys hc hws)

end Calls

section Steps
variable {maxRetry : ℕ}

theorem park_tx (s : State) (message : BalanceMessage) (idempotencyKey : Option Uuid)
    (rest : Proc UserService.Stmt UserService.Res Unit Outcome) :
    (s.park message idempotencyKey rest).tx = s.tx := by
  cases rest <;> rfl

/-- A balance handler leaves the transactions alone. -/
theorem proceed_tx (s : State) (message : BalanceMessage) (idempotencyKey : Option Uuid)
    (fault : Option ℕ) (rest : Proc UserService.Stmt UserService.Res Unit Outcome) :
    (s.proceed message idempotencyKey fault rest).tx = s.tx := by
  cases rest with
  | done result => rfl
  | transaction body next =>
    rw [State.proceed]
    split <;> exact park_tx ..

theorem callRows_resultCall {m : KafkaMessage} {ids : RetryIds} {call : TransactionCall}
    (h : resultCall maxRetry m ids = some call) : callRows call = [] := by
  unfold resultCall at h
  split at h <;> cases h <;> rfl

/-- A step inserts the rows of its request, or none. -/
theorem inserts_next {s t : State} {a : Action}
    (hkeys : (keys (frozen s.tx)).Nodup) (hs : s.next maxRetry a = some t) :
    frozen t.tx = frozen s.tx ∨ ∃ r fault, a = .request r fault ∧
      frozen t.tx = frozen s.tx++callRows r.call ∧ (keys (frozen t.tx)).Nodup := by
  unfold State.next at hs
  split at hs
  next =>
    obtain ⟨u,hu,rfl⟩ := Option.map_eq_some_iff.mp hs
    cases a with
    | request r fault =>
      simp only [State.step] at hu
      split at hu
      · cases hu
        cases inserts_after hkeys r.call fault with
        | nothing same => exact .inl same
        | rows new free => exact .inr ⟨r,fault,rfl,new,free⟩
      · contradiction
    | createAccount accountId rubId usdId usdtId =>
      simp only [State.step] at hu
      split at hu
      · cases hu
        exact .inl rfl
      · contradiction
    | txWorker a =>
      obtain ⟨w,hw,rfl⟩ := Option.map_eq_some_iff.mp hu
      refine .inl ?_
      cases Table.works_of_work hw <;> rfl
    | userWorker a =>
      obtain ⟨w,-,rfl⟩ := Option.map_eq_some_iff.mp hu
      exact .inl rfl
    | handleBalance m ids fault =>
      simp only [State.step] at hu
      split at hu
      · obtain ⟨message,-,rfl⟩ := Option.map_eq_some_iff.mp hu
        exact .inl (congrArg frozen (proceed_tx ..))
      · contradiction
    | resume i fault =>
      obtain ⟨h,-,rfl⟩ := Option.map_eq_some_iff.mp hu
      exact .inl (congrArg frozen (proceed_tx ..))
    | handleResult m ids fault =>
      simp only [State.step] at hu
      split at hu
      · obtain ⟨call,hcall,rfl⟩ := Option.map_eq_some_iff.mp hu
        refine .inl ?_
        cases inserts_after hkeys call fault with
        | nothing same => exact same
        | rows new => rwa [callRows_resultCall hcall,List.append_nil] at new
      · contradiction
  next => contradiction

end Steps
instance State.Single.decidable (s : State) : ∀ a, Decidable (s.Single a)
  | .txWorker (.publish p) => inferInstanceAs (Decidable (p.header.isSome → ∀ t, t ∈ s.txTick →
      ∀ e, e ∈ t.events.head? → ¬published s.messages e.id))
  | .userWorker (.publish p) => inferInstanceAs (Decidable (p.header.isSome → ∀ t, t ∈ s.userTick →
      ∀ e, e ∈ t.events.head? → ¬published s.messages e.id))
  | .handleBalance m _ _ =>
    inferInstanceAs (Decidable (∀ key, key ∈ m.idempotencyKey → key ∉ s.handled))
  | .handleResult m _ _ =>
    inferInstanceAs (Decidable (∀ key, key ∈ m.idempotencyKey → key ∉ s.handled))
  | .request _ _ | .createAccount _ _ _ _ | .resume _ _ | .txWorker (.find _) | .txWorker (.mark _)
  | .txWorker .crash | .userWorker (.find _) | .userWorker (.mark _) | .userWorker .crash =>
    .isTrue trivial

end NestHomework.Services
