import NestHomework.Services.Owed

/-! Lossless runs. Every target is served or owed after any of their steps. -/
namespace NestHomework.Services
open Contracts Postgres Outbox TransactionService Shared Transition
open UserService (BalanceMessage UserDb Balance RunIds)

/-- What a lossless step does. -/
inductive Turn (maxRetry : ℕ) (s : State) : Action → State → Prop
  | request {r fault ws} (hv : s.validated r) (he : TransactionCall.Effect s.tx r.call ws) :
      Turn maxRetry s (.request r fault) {s with tx := server.applyAll s.tx ws}
  | createAccount {accountId rubId usdId usdtId} :
      Turn maxRetry s (.createAccount accountId rubId usdId usdtId)
        {s with user := s.user.createAccount accountId rubId usdId usdtId}
  | txWorker {a w} (ha : a.Distinct txTable.id) (hw : txTable.Turn s.txTick s.tx a w) :
      Turn maxRetry s (.txWorker a)
        {s with tx := w.db, txTick := w.tick, messages := s.messages++w.sent.toList}
  | userWorker {a w} (ha : a.Distinct userTable.id) (hw : userTable.Turn s.userTick s.user a w) :
      Turn maxRetry s (.userWorker a)
        {s with user := w.db, userTick := w.tick, messages := s.messages++w.sent.toList}
  | skipped {m ids fault key} (hm : m ∈ s.messages) (hk : m.idempotencyKey = some key)
      (hdone : (s.user.processed key).isSome) :
      Turn maxRetry s (.handleBalance m ids fault) {s with handled := s.handled++[key]}
  | moved {m b ids fault key amount row} (hm : m ∈ s.messages) (hb : balanceMessage m = some b)
      (hk : m.idempotencyKey = some key) (hrow : s.user.balanceOf b.payer b.currency = some row) :
      Turn maxRetry s (.handleBalance m ids fault)
        ({s with handled := s.handled++[key]}.commit b (some key) (b.writes key amount ids s.user))
  | refused {m b ids fault key} (hm : m ∈ s.messages) (hb : balanceMessage m = some b)
      (hk : m.idempotencyKey = some key) : Turn maxRetry s (.handleBalance m ids fault) {s with
        handled := s.handled++[key]
        handlers := s.handlers++[⟨b,some key,b.catchBlock ids⟩]}
  | reported {i r ids row} (hi : s.handlers[i]? = some r)
      (hrest : r.rest = r.message.catchBlock ids)
      (hrow : s.user.balanceOf r.message.payer r.message.currency = some row) :
      Turn maxRetry s (.resume i none) ({s with handlers := s.handlers.eraseIdx i}.commit r.message
        r.idempotencyKey [.insertOutboxEvent
          ⟨ids.failedId,row.id,r.message.failedTopic,r.message.resultPayload,false⟩])
  | result {m ids call key} (hm : m ∈ s.messages) (hk : m.idempotencyKey = some key)
      (hc : resultCall maxRetry m ids = some call) :
      Turn maxRetry s (.handleResult m ids none) {s with
        tx := server.applyAll s.tx ((call.commit s.tx).getD [])
        handled := s.handled++[key]}

/-- The accounts that pay, or get a deposit, have their balances. -/
def Funded (s : State) : Prop :=
  ∀ t ∈ frozen s.tx, t.type ≠ .transferIn → (s.user.balanceOf t.accountId t.currency).isSome

/-- No two failure events or success events get one id: `pairs` has the id that each handler will use. -/
def Numbered (s : State) (pairs : List (Handler × Uuid)) : Prop :=
  pairs.map Prod.fst = s.handlers ∧
  (∀ p ∈ pairs, ∃ ids, p.1.rest = p.1.message.catchBlock ids ∧ ids.failedId = p.2) ∧
  (s.user.outboxEvents.map (·.id)++pairs.map Prod.snd).Nodup ∧
  ∀ u ∈ s.user.outboxEvents.map (·.id)++pairs.map Prod.snd, u ∈ s.used

/-- What lossless runs keep. -/
structure Intact (s : State) : Prop where
  contents : Contents s
  released : EventsReleased s.tx
  handled : ∀ key ∈ s.handled, key ∈ s.used
  processed : ∀ p ∈ s.tx.processedEvents, p.idempotencyKey ∈ s.handled
  recorded : ∀ p ∈ s.user.processedEvents, p.idempotencyKey ∈ s.handled
  txTick : txTable.TickSound s.txTick s.tx
  userTick : userTable.TickSound s.userTick s.user
  numbered : ∃ pairs, Numbered s pairs
  funded : Funded s
  statuses : ∀ t ∈ s.tx.transactions,
    t.status ≠ .balanceFailed ∧ (t.status = .timeout → t.type = .deposit)
  supplied : ∀ v, Served s.tx v ∨ Owed s v

section Inversion
variable {s t : State} {maxRetry : ℕ} {a : Action}

/-- The payer of a genuine message has a balance. -/
theorem Funded.payer (h : Funded s) {b : BalanceMessage} (hb : Genuine s.tx b) :
    ∃ row, s.user.balanceOf b.payer b.currency = some row := by
  obtain ⟨t,ht,htype,hacc,hcur⟩ := hb.payer_row
  exact Option.isSome_iff_exists.mp (hacc ▸ hcur ▸ h t ht htype)

theorem after_none (c : TransactionCall) (db : TxDb) :
    c.after none db = server.applyAll db ((c.commit db).getD []) := by
  have hnot : c.interrupted none db = false := by cases c <;> rfl
  rw [c.after_eq,hnot,if_neg Bool.false_ne_true]

/-- What is committed without a fault is an effect of the call. -/
theorem effect_commit (c : TransactionCall) (db : TxDb) :
    TransactionCall.Effect db c ((c.commit db).getD []) := by
  cases h : c.commit db with
  | none => exact .nothing
  | some ws => exact TransactionCall.effect_of_commit h

theorem turn_of_handleBalance (h : Contents s) {m : KafkaMessage} (hm : m ∈ s.messages)
    {b : BalanceMessage} (hb : balanceMessage m = some b) (ids : RunIds) (fault : Option ℕ) :
    Turn maxRetry s (.handleBalance m ids fault)
      ({s with handled := s.handled++m.idempotencyKey.toList}.proceed b m.idempotencyKey fault
        (b.handle m.idempotencyKey ids)) := by
  obtain ⟨key,-,hk⟩ := h.headersUsed m hm
  obtain ⟨amount,ha⟩ := ((h.messages m hm).genuine hb).amount
  rw [hk,b.handle_some key ids ha]
  simp only [State.proceed,Option.toList_some]
  cases hrun : (UserService.server true).run fault (b.call key amount ids).body s.user with
  | ok x =>
    obtain ⟨⟨⟩,ws⟩ := x
    cases hdone : s.user.processed key with
    | some e =>
      have hws := b.call_run_writes h.user key amount ids (by simp [hdone])
        (Engine.run_ok_of_fault _ hrun)
      subst hws
      exact .skipped hm hk (by simp [hdone])
    | none =>
      obtain rfl | ⟨-,hpay,rfl⟩ := b.call_ok h.user key amount ids hrun
      · have halone := Engine.run_ok_of_fault _ hrun
        by_cases hpay : b.payable amount s.user
        · rw [b.call_run_payable h.user key amount ids hdone hpay] at halone
          simp [BalanceMessage.writes] at halone
        · obtain ⟨e,he⟩ := b.call_run_refused h.user key amount ids hdone hpay
          rw [he] at halone
          contradiction
      · obtain ⟨row,hrow⟩ := payer_of_payable hpay
        exact .moved hm hb hk hrow
  | error e =>
    simp only [BalanceMessage.afterCall,b.catchBlock_eq,State.park]
    rw [← b.catchBlock_eq]
    exact .refused hm hb hk

theorem turn_of_resume (h : Contents s) (hfund : Funded s) {i : ℕ} {r : Handler}
    (hi : s.handlers[i]? = some r) : Turn maxRetry s (.resume i none)
      ({s with handlers := s.handlers.eraseIdx i}.proceed r.message r.idempotencyKey none
        r.rest) := by
  have hmem := List.mem_of_getElem? hi
  obtain ⟨⟨ids,hrest⟩,-⟩ := h.handlers r hmem
  obtain ⟨row,hrow⟩ := hfund.payer (h.handler_genuine hmem)
  have hrun := r.message.failure_run h.user ids (by simp [hrow])
  rw [BalanceMessage.resultEvent,hrow] at hrun
  have hstep := hrest
  rw [BalanceMessage.catchBlock_eq] at hstep
  rw [hstep]
  simp only [State.proceed,hrun,BalanceMessage.afterFailure,State.park]
  exact .reported hi hrest hrow

/-- The inversion of a lossless step. -/
theorem turn_of_step (h : Contents s) (hfund : Funded s) (hl : s.Lossless a)
    (hs : s.step maxRetry a = some t) : Turn maxRetry s a t := by
  cases a with
  | request r fault =>
    simp only [State.step] at hs
    split at hs
    · cases hs
      obtain ⟨ws,he,hafter⟩ := r.call.exists_effect fault s.tx
      rw [hafter]
      exact .request hl he
    · contradiction
  | createAccount accountId rubId usdId usdtId =>
    simp only [State.step] at hs
    split at hs
    · cases hs
      exact .createAccount
    · contradiction
  | txWorker a =>
    obtain ⟨w,hw,rfl⟩ := Option.map_eq_some_iff.mp hs
    exact .txWorker hl (Table.turn_of_work hw)
  | userWorker a =>
    obtain ⟨w,hw,rfl⟩ := Option.map_eq_some_iff.mp hs
    exact .userWorker hl (Table.turn_of_work hw)
  | handleBalance m ids fault =>
    simp only [State.step] at hs
    split at hs
    · rename_i hm
      obtain ⟨b,hb,rfl⟩ := Option.map_eq_some_iff.mp hs
      exact turn_of_handleBalance h hm hb ids fault
    · contradiction
  | resume i fault =>
    obtain ⟨r,hr,rfl⟩ := Option.map_eq_some_iff.mp hs
    obtain rfl : fault = none := hl
    exact turn_of_resume h hfund hr
  | handleResult m ids fault =>
    simp only [State.step] at hs
    split at hs
    · rename_i hm
      obtain ⟨call,hc,rfl⟩ := Option.map_eq_some_iff.mp hs
      obtain rfl : fault = none := hl
      obtain ⟨key,-,hk⟩ := h.headersUsed m hm
      rw [after_none,hk]
      exact .result hm hk hc
    · contradiction

end Inversion

section Kept
variable {s t : State} {maxRetry : ℕ} {a : Action}

theorem mem_unprocessed_applyAll {db : TxDb} (ws : List Write) {e : OutboxEvent} :
    e ∈ txTable.unprocessed (server.applyAll db ws) ↔
      e ∈ txTable.unprocessed db ∨ (e ∈ newEvents ws ∧ e.processed = false) := by
  simp only [txTable,outboxEvents_applyAll,List.mem_filter,List.mem_append,Bool.not_eq_true']
  tauto

theorem mem_userUnprocessed_applyAll {db : UserDb} (ws : List UserService.Write)
    {e : UserService.OutboxEvent} :
    e ∈ userTable.unprocessed ((UserService.server true).applyAll db ws) ↔
      e ∈ userTable.unprocessed db ∨ (e ∈ newUserEvents ws ∧ e.processed = false) := by
  simp only [userTable,userEvents_applyAll,List.mem_filter,List.mem_append,Bool.not_eq_true']
  tauto

theorem Turn.handled_subset (ht : Turn maxRetry s a t) : ∀ key ∈ s.handled, key ∈ t.handled := by
  cases ht with
  | skipped => exact fun key hk => List.mem_append_left _ hk
  | moved => exact fun key hk => List.mem_append_left _ hk
  | refused => exact fun key hk => List.mem_append_left _ hk
  | result => exact fun key hk => List.mem_append_left _ hk
  | _ => exact fun key => id

/-- What is handled was published. -/
theorem Turn.handled (ht : Turn maxRetry s a t) (h : Contents s)
    (hh : ∀ key ∈ s.handled, key ∈ s.used) : ∀ key ∈ t.handled, key ∈ s.used := by
  have hadd : ∀ {m : KafkaMessage} {key}, m ∈ s.messages → m.idempotencyKey = some key →
      ∀ k ∈ s.handled++[key], k ∈ s.used := by
    intro m key hm hk k hin
    obtain hin | hin := List.mem_append.mp hin
    · exact hh k hin
    · obtain ⟨key',hused,hk'⟩ := h.headersUsed m hm
      rw [hk,Option.some.injEq] at hk'
      rw [List.mem_singleton.mp hin,hk']
      exact hused
  cases ht with
  | skipped hm hk hdone => exact hadd hm hk
  | moved hm hb hk hrow => exact hadd hm hk
  | refused hm hb hk => exact hadd hm hk
  | result hm hk hc => exact hadd hm hk
  | _ => exact hh

theorem Turn.txTick (ht : Turn maxRetry s a t) (h : txTable.TickSound s.txTick s.tx) :
    txTable.TickSound t.txTick t.tx := by
  cases ht with
  | request hv he => exact h.mono (fun e he => (mem_unprocessed_applyAll _).mpr (.inl he))
  | result hm hk hc => exact h.mono (fun e he => (mem_unprocessed_applyAll _).mpr (.inl he))
  | txWorker ha hw => exact h.turn ha hw
  | _ => exact h

theorem Turn.userTick (ht : Turn maxRetry s a t) (h : userTable.TickSound s.userTick s.user) :
    userTable.TickSound t.userTick t.user := by
  cases ht with
  | moved hm hb hk hrow => exact h.mono (fun e he => (mem_userUnprocessed_applyAll _).mpr (.inl he))
  | reported hi hrest hrow =>
    exact h.mono (fun e he => (mem_userUnprocessed_applyAll _).mpr (.inl he))
  | userWorker ha hw => exact h.turn ha hw
  | createAccount => exact h.mono (fun _ => id)
  | _ => exact h

/-- The header of the message that a call is made for. -/
def callKey : TransactionCall → Option Uuid
  | .setStatusUpdated idempotencyKey _ _ => some idempotencyKey
  | .setStatusUpdatedByIds idempotencyKey _ _ _ => some idempotencyKey
  | .recreate c _ => some c.idempotencyKey
  | _ => none

theorem processed_effect {db : TxDb} {c : TransactionCall} {ws : List Write}
    (he : TransactionCall.Effect db c ws) {p : ProcessedEvent}
    (hp : p ∈ (server.applyAll db ws).processedEvents) :
    p ∈ db.processedEvents ∨ callKey c = some p.idempotencyKey := by
  cases he with
  | updated hnew ht hst =>
    obtain hp | hp := List.mem_append.mp hp
    · exact .inl hp
    · exact .inr (by rw [List.mem_singleton.mp hp,callKey])
  | updatedByIds hnew hout hin =>
    obtain hp | hp := List.mem_append.mp hp
    · exact .inl hp
    · exact .inr (by rw [List.mem_singleton.mp hp,callKey])
  | copied hnew hpres hlimit hevent hpay =>
    obtain hp | hp := List.mem_append.mp hp
    · exact .inl hp
    · exact .inr (by rw [List.mem_singleton.mp hp,callKey,RetryCall.record])
  | _ => exact .inl hp

theorem callKey_resultCall {m : KafkaMessage} {ids : RetryIds} {call : TransactionCall}
    (hc : resultCall maxRetry m ids = some call) : callKey call = m.idempotencyKey := by
  unfold resultCall at hc
  split at hc <;> cases hc <;> simp_all [callKey]

/-- What is processed was handled. -/
theorem Turn.processed (ht : Turn maxRetry s a t)
    (hp : ∀ p ∈ s.tx.processedEvents, p.idempotencyKey ∈ s.handled) :
    ∀ p ∈ t.tx.processedEvents, p.idempotencyKey ∈ t.handled := by
  have hkeep := ht.handled_subset
  cases ht with
  | @request r fault ws hv he =>
    intro p hin
    refine hp p ((processed_effect he hin).resolve_right (fun hkey => ?_))
    cases r <;> cases hkey
  | @result m ids call key hm hk hc =>
    intro p hin
    obtain hin | hkey := processed_effect (effect_commit call s.tx) hin
    · exact List.mem_append_left _ (hp p hin)
    · rw [callKey_resultCall hc,hk,Option.some.injEq] at hkey
      exact List.mem_append_right _ (by simp [hkey])
  | @txWorker a w ha hw =>
    have hsame : w.db.processedEvents = s.tx.processedEvents := hw.frame (·.processedEvents) fun _ => rfl
    exact fun p hin => hp p (hsame ▸ hin)
  | _ => exact fun p hin => hkeep _ (hp p hin)

theorem key_of_mem_writes {b : BalanceMessage} {key : Uuid} {amount : ℤ} {ids : RunIds}
    {db : UserDb} {p : UserService.ProcessedEvent}
    (hp : .insertProcessedEvent p ∈ b.writes key amount ids db) : p.idempotencyKey = key := by
  cases b <;> simp [BalanceMessage.writes,BalanceMessage.moves,BalanceMessage.resultEvent] at hp <;>
    simp [hp]

theorem Turn.recorded (ht : Turn maxRetry s a t)
    (hp : ∀ p ∈ s.user.processedEvents, p.idempotencyKey ∈ s.handled) :
    ∀ p ∈ t.user.processedEvents, p.idempotencyKey ∈ t.handled := by
  have hkeep := ht.handled_subset
  cases ht with
  | @moved m b ids fault key amount row hm hb hk hrow =>
    intro p hin
    obtain hin | hin := mem_processedEvents_applyAll _ hin
    · exact List.mem_append_left _ (hp p hin)
    · exact List.mem_append_right _ (by rw [key_of_mem_writes hin]; simp)
  | @userWorker a w ha hw =>
    have hsame : w.db.processedEvents = s.user.processedEvents := hw.frame (·.processedEvents) fun _ => rfl
    exact fun p hin => hp p (hsame ▸ hin)
  | _ => exact fun p hin => hkeep _ (hp p hin)

/-- The rows that a call adds. -/
theorem frozen_effect_cases {db : TxDb} {c : TransactionCall} {ws : List Write}
    (he : TransactionCall.Effect db c ws) {u : Transaction}
    (hu : u ∈ frozen (server.applyAll db ws)) : u ∈ frozen db ∨ (∃ n, c = .create n ∧ u = n.data) ∨
      ∃ n, c = .createTransfer n ∧ (u = n.txOut ∨ u = n.txIn) := by
  cases he with
  | @created n hid =>
    obtain hu | hu := List.mem_append.mp (frozen_insertTransaction n.data ▸ hu)
    · exact .inl hu
    · exact .inr (.inl ⟨n,rfl,List.mem_singleton.mp hu⟩)
  | @createdTransfer n hout hin hne =>
    have hrows : frozen (server.applyAll db [.insertTransaction n.txOut,.insertTransaction n.txIn,
        .insertOutboxEvent n.event]) = frozen db++[n.txOut]++[n.txIn] := by
      simp [frozenRow,NewTransfer.txOut,NewTransfer.txIn]
    rw [hrows,List.mem_append,List.mem_append,List.mem_singleton,List.mem_singleton] at hu
    obtain (hu | hu) | hu := hu
    · exact .inl hu
    · exact .inr (.inr ⟨n,rfl,.inl hu⟩)
    · exact .inr (.inr ⟨n,rfl,.inr hu⟩)
  | _ => exact .inl (by simpa [RetryCall.copyWrites,RetryCall.failWrites] using hu)

theorem Turn.funded (ht : Turn maxRetry s a t) (h : Funded s) : Funded t := by
  cases ht with
  | @request r fault ws hv he =>
    intro u hu htype
    obtain hu | ⟨n,hn,rfl⟩ | ⟨n,hn,rfl | rfl⟩ := frozen_effect_cases he hu
    · exact h u hu htype
    · cases r <;> cases hn
      exact hv
    · cases r <;> cases hn
      exact hv
    · exact absurd rfl htype
  | @result m ids call key hm hk hc =>
    intro u hu htype
    obtain hu | ⟨n,rfl,-⟩ | ⟨n,rfl,-⟩ := frozen_effect_cases (effect_commit call s.tx) hu
    · exact h u hu htype
    · have hkey := callKey_resultCall hc
      rw [hk] at hkey
      cases hkey
    · have hkey := callKey_resultCall hc
      rw [hk] at hkey
      cases hkey
  | createAccount =>
    exact fun u hu htype => balanceOf_isSome_createAccount (h u hu htype) _ _ _ _
  | @txWorker a w ha hw =>
    have hsame : w.db.transactions = s.tx.transactions := hw.frame (·.transactions) fun _ => rfl
    intro u hu htype
    rw [frozen,hsame] at hu
    exact h u hu htype
  | @userWorker a w ha hw =>
    have hsame : w.db.balances = s.user.balances := hw.frame (·.balances) fun _ => rfl
    intro u hu htype
    simp only [UserDb.balanceOf,hsame]
    exact h u hu htype
  | moved hm hb hk hrow => exact fun u hu htype => balanceOf_isSome_applyAll _ (h u hu htype)
  | reported hi hrest hrow => exact fun u hu htype => balanceOf_isSome_applyAll _ (h u hu htype)
  | _ => exact h

/-- The id of the failure event of a handler is its own. -/
theorem failedId_of_catchBlock (b : BalanceMessage) {ids ids' : RunIds}
    (h : b.catchBlock ids = b.catchBlock ids') : ids.failedId = ids'.failedId := by
  let db : UserDb := ⟨[⟨0,0,b.currency,b.payer,none⟩],[],[]⟩
  have hw : db.WellFormed := ⟨by simp [db],by simp [db]⟩
  have hrow : db.balanceOf b.payer b.currency = some ⟨0,0,b.currency,b.payer,none⟩ := by
    simp [db,UserDb.balanceOf]
  have hbody : (b.failure ids).body = (b.failure ids').body := by
    rw [BalanceMessage.catchBlock_eq,BalanceMessage.catchBlock_eq] at h
    exact (Proc.transaction.inj h).1
  have hrun := b.failure_run hw ids (by simp [hrow])
  rw [hbody,b.failure_run hw ids' (by simp [hrow]),BalanceMessage.resultEvent,
    BalanceMessage.resultEvent,hrow] at hrun
  simpa using hrun.symm

theorem Numbered.congr {pairs : List (Handler × Uuid)} (h : Numbered s pairs)
    (hh : t.handlers = s.handlers)
    (hids : t.user.outboxEvents.map (·.id) = s.user.outboxEvents.map (·.id))
    (hu : ∀ u ∈ s.used, u ∈ t.used) : Numbered t pairs :=
  ⟨h.1.trans hh.symm,h.2.1,hids ▸ h.2.2.1,fun u hin => hu u (h.2.2.2 u (hids ▸ hin))⟩

theorem Turn.numbered (ht : Turn maxRetry s a t) (hused : t.used = s.used)
    (hfresh : ∀ u ∈ a.uuids, u ∉ s.used) {pairs : List (Handler × Uuid)} (h : Numbered s pairs) :
    ∃ pairs, Numbered {t with used := t.used++a.uuids} pairs := by
  have hkeep : ∀ {u}, u ∈ s.used → u ∈ t.used++a.uuids :=
    fun hu => List.mem_append_left _ (hused ▸ hu)
  obtain ⟨hfst,hrest,hnodup,hold⟩ := h
  cases ht with
  | @moved m b ids fault key amount row hm hb hk hrow =>
    have hids : ((UserService.server true).applyAll s.user
        (b.writes key amount ids s.user)).outboxEvents.map (·.id) =
          s.user.outboxEvents.map (·.id)++[ids.outboxId] := by
      rw [userEvents_applyAll,newUserEvents_writes hrow,List.map_append]
      rfl
    have hnew := hfresh ids.outboxId (by simp [Action.uuids])
    have hperm : (s.user.outboxEvents.map (·.id)++[ids.outboxId]++pairs.map Prod.snd).Perm
        (ids.outboxId::(s.user.outboxEvents.map (·.id)++pairs.map Prod.snd)) := by
      rw [List.append_assoc]
      exact List.perm_middle
    refine ⟨pairs,hfst,hrest,?_,fun u hin => ?_⟩
    · simp only [State.commit,hids]
      exact hperm.nodup_iff.mpr (List.nodup_cons.mpr ⟨fun hin => hnew (hold _ hin),hnodup⟩)
    · simp only [State.commit,hids] at hin
      obtain rfl | hin := List.mem_cons.mp (hperm.mem_iff.mp hin)
      · exact List.mem_append_right _ (by simp [Action.uuids])
      · exact hkeep (hold u hin)
  | @refused m b ids fault key hm hb hk =>
    have hnew := hfresh ids.failedId (by simp [Action.uuids])
    refine ⟨pairs++[(⟨b,some key,b.catchBlock ids⟩,ids.failedId)],by simp [hfst],?_,?_,?_⟩
    · intro p hp
      obtain hp | hp := List.mem_append.mp hp
      · exact hrest p hp
      · rw [List.mem_singleton.mp hp]
        exact ⟨ids,rfl,rfl⟩
    · rw [List.map_append,← List.append_assoc]
      refine List.Nodup.append hnodup (List.nodup_singleton _) (fun u hin hu => ?_)
      rw [List.mem_singleton.mp hu] at hin
      exact hnew (hold _ hin)
    · intro u hin
      rw [List.map_append,← List.append_assoc] at hin
      obtain hin | hin := List.mem_append.mp hin
      · exact hkeep (hold u hin)
      · rw [List.mem_singleton.mp hin]
        exact List.mem_append_right _ (by simp [Action.uuids])
  | @reported i r ids row hi hr hrow =>
    obtain ⟨⟨r',failedId⟩,hp,rfl⟩ : ∃ p, pairs[i]? = some p ∧ p.1 = r := by
      rw [← hfst,List.getElem?_map] at hi
      exact Option.map_eq_some_iff.mp hi
    obtain ⟨ids',hr',hid⟩ := hrest _ (List.mem_of_getElem? hp)
    have heq : ids.failedId = failedId :=
      (failedId_of_catchBlock _ (hr.symm.trans hr')).trans hid
    obtain ⟨hlt,hget⟩ := List.getElem?_eq_some_iff.mp hp
    have hpairs := (List.getElem_cons_eraseIdx_perm hlt).map Prod.snd
    rw [hget,List.map_cons] at hpairs
    have hperm : (s.user.outboxEvents.map (·.id)++[failedId]++(pairs.eraseIdx i).map Prod.snd).Perm
        (s.user.outboxEvents.map (·.id)++pairs.map Prod.snd) := by
      rw [List.append_assoc]
      exact hpairs.append_left _
    have hids : ((UserService.server true).applyAll s.user [.insertOutboxEvent ⟨ids.failedId,row.id,
        r'.message.failedTopic,r'.message.resultPayload,false⟩]).outboxEvents.map (·.id) =
          s.user.outboxEvents.map (·.id)++[failedId] := by
      rw [← heq]
      exact List.map_append ..
    refine ⟨pairs.eraseIdx i,?_,fun p hin => hrest p (List.mem_of_mem_eraseIdx hin),?_,fun u hin => ?_⟩
    · rw [← List.eraseIdx_map,hfst]
      rfl
    · simp only [State.commit,hids]
      exact hperm.nodup_iff.mpr hnodup
    · simp only [State.commit,hids] at hin
      exact hkeep (hold u (hperm.mem_iff.mp hin))
  | @userWorker a w ha hw =>
    refine ⟨pairs,Numbered.congr ⟨hfst,hrest,hnodup,hold⟩ rfl ?_ (fun u => hkeep)⟩
    cases hw with
    | marked =>
      simp only
      split
      · rfl
      · simp only [userTable,List.map_map]
        refine List.map_congr_left (fun e _ => ?_)
        simp only [Function.comp_apply]
        split <;> rfl
    | _ => rfl
  | _ => exact ⟨pairs,Numbered.congr ⟨hfst,hrest,hnodup,hold⟩ rfl rfl (fun u => hkeep)⟩

theorem Change.known (hc : Change maxRetry s a t) (h : Contents s)
    (hfresh : ∀ u ∈ a.uuids, u ∉ s.used) (hk : ∀ u ∈ s.tx.transactions,
      u.status ≠ .balanceFailed ∧ (u.status = .timeout → u.type = .deposit)) :
    ∀ u ∈ t.tx.transactions, u.status ≠ .balanceFailed ∧ (u.status = .timeout → u.type = .deposit) := by
  intro u hu
  rcases hc.row_cases h hfresh hu with
    ⟨old,hold,hst,hfr⟩ | hst | hst | ⟨hst,htype⟩ | ⟨m,-,b,-,-,-,⟨hst,-⟩ | ⟨hst,-⟩⟩
  · have htype : old.type = u.type := (congrArg Transaction.type hfr :)
    rw [← hst,← htype]
    exact hk old hold
  · simp [hst]
  · simp [hst]
  · simp [hst,htype]
  · simp [hst]
  · simp [hst]

end Kept

section Supply
variable {s t : State} {maxRetry : ℕ} {a : Action} {v : Target}

/-- Everything that was on its way still is, or the target is owed in another place. -/
theorem Owed.of_parts (h : Owed s v)
    (he : ∀ e ∈ s.txBacklog, e.payload.map payloadTarget = some v → Owed t v)
    (hm : ∀ m ∈ s.unhandled, payloadTarget m.value = v → Owed t v)
    (hr : ∀ r ∈ s.handlers, messageTarget r.message = v → Owed t v)
    (hu : ∀ e ∈ s.userBacklog, payloadTarget e.payload = v → Owed t v) : Owed t v := by
  obtain ⟨e,hin,hv⟩ | ⟨m,hin,hv⟩ | ⟨r,hin,hv⟩ | ⟨e,hin,hv⟩ := h
  · exact he e hin hv
  · exact hm m hin hv
  · exact hr r hin hv
  · exact hu e hin hv

theorem Served.congr {db db' : TxDb} (h : Served db v) (hrows : db'.transactions = db.transactions) :
    Served db' v := fun t ht => h t (hrows ▸ ht)

theorem mem_txBacklog_applyAll {e : OutboxEvent} (ws : List Write) (he : e ∈ s.txBacklog) :
    e ∈ txTable.backlog s.txTick (server.applyAll s.tx ws) := by
  obtain ⟨hold,hid⟩ := Table.mem_backlog.mp he
  exact Table.mem_backlog.mpr ⟨(mem_unprocessed_applyAll ws).mpr (.inl hold),hid⟩

theorem mem_userBacklog_applyAll {e : UserService.OutboxEvent} (ws : List UserService.Write)
    (he : e ∈ s.userBacklog) :
    e ∈ userTable.backlog s.userTick ((UserService.server true).applyAll s.user ws) := by
  obtain ⟨hold,hid⟩ := Table.mem_backlog.mp he
  exact Table.mem_backlog.mpr ⟨(mem_userUnprocessed_applyAll ws).mpr (.inl hold),hid⟩

theorem isUnhandled_iff {handled : List Uuid} {m : KafkaMessage} {key : Uuid}
    (hk : m.idempotencyKey = some key) : isUnhandled handled m ↔ key ∉ handled := by
  simp [isUnhandled,hk]

/-- Only the message itself leaves when it is handled. -/
theorem Contents.mem_unhandled (h : Contents s) {m : KafkaMessage} (hm : m ∈ s.messages) {key : Uuid}
    (hk : m.idempotencyKey = some key) {m' : KafkaMessage} (hm' : m' ∈ s.unhandled) :
    m' = m ∨ m' ∈ s.messages.filter (isUnhandled (s.handled++[key])) := by
  obtain ⟨hmem,hun⟩ := List.mem_filter.mp hm'
  obtain ⟨key',-,hk'⟩ := h.headersUsed m' hmem
  by_cases heq : key' = key
  · refine .inl (List.inj_on_of_nodup_map h.headers hmem hm ?_)
    simp only [hk,hk',heq]
  · refine .inr (List.mem_filter.mpr ⟨hmem,(isUnhandled_iff hk').mpr (fun hin => ?_)⟩)
    obtain hin | hin := List.mem_append.mp hin
    · exact (isUnhandled_iff hk').mp hun hin
    · exact heq (List.mem_singleton.mp hin)

/-- A message that is published is not handled yet. -/
theorem mem_unhandled_published (hh : ∀ key ∈ s.handled, key ∈ s.used) {m : KafkaMessage}
    {header : Uuid} (hk : m.idempotencyKey = some header) (hnew : header ∉ s.used)
    (messages : List KafkaMessage) : m ∈ (messages++[m]).filter (isUnhandled s.handled) := by
  refine List.mem_filter.mpr ⟨by simp,(isUnhandled_iff hk).mpr (fun hin => hnew (hh _ hin))⟩

theorem mem_unhandled_append {m : KafkaMessage} (hm : m ∈ s.unhandled) (sent : Option KafkaMessage) :
    m ∈ (s.messages++sent.toList).filter (isUnhandled s.handled) := by
  obtain ⟨hmem,hun⟩ := List.mem_filter.mp hm
  exact List.mem_filter.mpr ⟨List.mem_append_left _ hmem,hun⟩

/-- A new event waits to be published. -/
theorem Intact.mem_txBacklog (h : Intact s) {ws : List Write} {e : OutboxEvent} (he : e ∈ newEvents ws)
    (hp : e.processed = false) (hnew : e.id ∉ s.used) :
    e ∈ txTable.backlog s.txTick (server.applyAll s.tx ws) := by
  refine Table.mem_backlog.mpr ⟨(mem_unprocessed_applyAll ws).mpr (.inr ⟨he,hp⟩),fun hin => ?_⟩
  obtain ⟨e',he',hid⟩ := h.txTick.stored _ hin
  have hid' : e'.id = e.id := hid
  exact hnew (hid' ▸ h.contents.txUsed e' (List.mem_filter.mp he').1)

theorem Intact.mem_userBacklog (h : Intact s) {ws : List UserService.Write}
    {e : UserService.OutboxEvent} (he : e ∈ newUserEvents ws) (hp : e.processed = false)
    (hnew : e.id ∉ s.user.outboxEvents.map (·.id)) :
    e ∈ userTable.backlog s.userTick ((UserService.server true).applyAll s.user ws) := by
  refine Table.mem_backlog.mpr ⟨(mem_userUnprocessed_applyAll ws).mpr (.inr ⟨he,hp⟩),fun hin => ?_⟩
  obtain ⟨e',he',hid⟩ := h.userTick.stored _ hin
  exact hnew (List.mem_map.mpr ⟨e',(List.mem_filter.mp he').1,hid⟩)

theorem Turn.mem_txPublished (h : Intact s) {a : WorkerAction OutboxEvent} {w : Work TxDb OutboxEvent}
    (hw : txTable.Turn s.txTick s.tx a w) {e : OutboxEvent} (he : e ∈ s.txBacklog)
    {p : Payload} (hp : e.payload = some p) : e ∈ txTable.backlog w.tick w.db ∨
      ∃ header, a = .publish (.acknowledged header) ∧
        w.sent = some ⟨e.id,e.topic,p,some header⟩ := by
  obtain he' | ⟨e',events,ids,header,htick,hid,rfl,hsent⟩ := hw.mem_backlog txTable_lawful he
  · exact .inl he'
  · refine .inr ⟨header,rfl,?_⟩
    have he' := h.txTick.unprocessed _ htick e' (by simp)
    obtain rfl := List.inj_on_of_nodup_map h.contents.tx.eventIds (List.mem_filter.mp he').1
      (List.mem_filter.mp (Table.mem_backlog.mp he).1).1 hid
    rw [hsent]
    simp only [txTable,hp,Option.map_some]

theorem Turn.mem_userPublished (h : Intact s) {a : WorkerAction UserService.OutboxEvent}
    {w : Work UserDb UserService.OutboxEvent} (hw : userTable.Turn s.userTick s.user a w)
    {e : UserService.OutboxEvent} (he : e ∈ s.userBacklog) : e ∈ userTable.backlog w.tick w.db ∨
      ∃ header, a = .publish (.acknowledged header) ∧
        w.sent = some ⟨e.id,e.topic,e.payload,some header⟩ := by
  obtain he' | ⟨e',events,ids,header,htick,hid,rfl,hsent⟩ := hw.mem_backlog userTable_lawful he
  · exact .inl he'
  · refine .inr ⟨header,rfl,?_⟩
    have he' := h.userTick.unprocessed _ htick e' (by simp)
    obtain ⟨pairs,-,-,hnodup,-⟩ := h.numbered
    obtain rfl := List.inj_on_of_nodup_map (List.nodup_append.mp hnodup).1
      (List.mem_filter.mp he').1 (List.mem_filter.mp (Table.mem_backlog.mp he).1).1 hid
    exact hsent

/-- A request leaves every target served or owed. -/
theorem Intact.supplied_request (h : Intact s) {r : Request} {ws : List Write}
    (he : TransactionCall.Effect s.tx r.call ws) (hfresh : ∀ u ∈ r.uuids, u ∉ s.used) (v : Target) :
    Served (server.applyAll s.tx ws) v ∨ Owed {s with tx := server.applyAll s.tx ws} v := by
  obtain hserved | howed := h.supplied v
  · obtain hserved | ⟨e,hin,hproc,hpay⟩ := hserved.effect h.contents.tx.sound he
    · exact .inl hserved
    · have hnew := hfresh _ (mem_eventUuids_request (effect_newEvents he hin))
      exact .inr (.inl ⟨e,h.mem_txBacklog hin hproc hnew,hpay⟩)
  · exact .inr (howed.of_parts (fun e hin hev => .inl ⟨e,mem_txBacklog_applyAll ws hin,hev⟩)
      (fun m hin hmv => .inr (.inl ⟨m,hin,hmv⟩)) (fun r hin hrv => .inr (.inr (.inl ⟨r,hin,hrv⟩)))
      (fun e hin hev => .inr (.inr (.inr ⟨e,hin,hev⟩))))

/-- A result takes its target further. -/
theorem Intact.supplied_result (h : Intact s) {m : KafkaMessage} (hm : m ∈ s.messages) {key : Uuid}
    (hk : m.idempotencyKey = some key) {ids : RetryIds} {call : TransactionCall}
    (hc : resultCall maxRetry m ids = some call) (hfresh : ids.outboxId ∉ s.used) (v : Target) :
    let t : State := {s with
      tx := server.applyAll s.tx ((call.commit s.tx).getD []), handled := s.handled++[key]}
    Served t.tx v ∨ Owed t v := by
  intro t
  have hkeep : ∀ e ∈ s.txBacklog, e ∈ t.txBacklog := fun e he => mem_txBacklog_applyAll _ he
  have hnew : ∀ e ∈ newEvents ((call.commit s.tx).getD []), e.processed = false → e ∈ t.txBacklog := by
    intro e he hp
    refine h.mem_txBacklog he hp ?_
    rw [mem_eventUuids_result hc (effect_newEvents (effect_commit call s.tx) he)]
    exact hfresh
  obtain hserved | howed := h.supplied v
  · rcases hserved.effect h.contents.tx.sound (effect_commit call s.tx) with
      hserved | ⟨e,hin,hproc,hpay⟩
    · exact .inl hserved
    · exact .inr (.inl ⟨e,hnew e hin hproc,hpay⟩)
  · obtain ⟨e,hin,hev⟩ | ⟨m',hin,hmv⟩ | ⟨r,hin,hrv⟩ | ⟨e,hin,hev⟩ := howed
    · exact .inr (.inl ⟨e,hkeep e hin,hev⟩)
    · obtain rfl | hin' := h.contents.mem_unhandled hm hk hin
      · have hnot : s.tx.processed key = none := by
          rw [TxDb.processed,List.find?_eq_none]
          intro p hp hkey
          have := h.processed p hp
          rw [of_decide_eq_true hkey] at this
          exact (isUnhandled_iff hk).mp (List.mem_filter.mp hin).2 this
        obtain ⟨b,hb,hval,⟨-,rfl⟩ | ⟨-,rfl⟩⟩ := resultCall_cases (h.contents.messages _ hm) hk hc
        all_goals
          rw [hval,payloadTarget_resultPayload] at hmv
          subst hmv
        · exact .inl (served_success h.contents.tx h.released hb hnot _)
        · obtain hserved | ⟨e,hin,hproc,hpay⟩ := served_failure h.contents.tx hb hnot maxRetry ids
          · exact .inl hserved
          · refine .inr (.inl ⟨e,hnew e hin hproc,?_⟩)
            rw [hpay,Option.map_some,payloadTarget_messagePayload]
      · exact .inr (.inr (.inl ⟨m',hin',hmv⟩))
    · exact .inr (.inr (.inr (.inl ⟨r,hin,hrv⟩)))
    · exact .inr (.inr (.inr (.inr ⟨e,hin,hev⟩)))

theorem payloadTarget_of_balanceMessage {m : KafkaMessage} {b : BalanceMessage}
    (hb : balanceMessage m = some b) : payloadTarget m.value = messageTarget b := by
  rw [(balanceMessage_iff.mp hb).2,payloadTarget_messagePayload]

/-- The failure event of a handler will be a new one. -/
theorem Intact.failedId_new (h : Intact s) {i : ℕ} {r : Handler} (hi : s.handlers[i]? = some r)
    {ids : RunIds} (hrest : r.rest = r.message.catchBlock ids) :
    ids.failedId ∉ s.user.outboxEvents.map (·.id) := by
  obtain ⟨pairs,hfst,hpairs,hnodup,-⟩ := h.numbered
  rw [← hfst,List.getElem?_map] at hi
  obtain ⟨p,hp,rfl⟩ := Option.map_eq_some_iff.mp hi
  have hmem := List.mem_of_getElem? hp
  obtain ⟨ids',hr,hid⟩ := hpairs p hmem
  rw [failedId_of_catchBlock _ (hrest.symm.trans hr),hid]
  exact fun hin => (List.nodup_append.mp hnodup).2.2 _ hin _ (List.mem_map_of_mem hmem) rfl

/-- Every step leaves every target served or owed. -/
theorem Turn.supplied (ht : Turn maxRetry s a t) (h : Intact s) (hfresh : ∀ u ∈ a.uuids, u ∉ s.used)
    (v : Target) : Served t.tx v ∨ Owed t v := by
  cases ht with
  | @request r fault ws hv he => exact h.supplied_request he hfresh v
  | @result m ids call key hm hk hc =>
    exact h.supplied_result hm hk hc (hfresh _ (by simp [Action.uuids])) v
  | createAccount => exact h.supplied v
  | @txWorker a w ha hw =>
    have hrows : w.db.transactions = s.tx.transactions := hw.frame (·.transactions) fun _ => rfl
    refine (h.supplied v).imp (fun hs => hs.congr hrows) (fun howed => howed.of_parts ?_ ?_ ?_ ?_)
    · intro e he hev
      obtain ⟨p,hp,hpv⟩ := Option.map_eq_some_iff.mp hev
      obtain he | ⟨header,rfl,hsent⟩ := Turn.mem_txPublished h hw he hp
      · exact .inl ⟨e,he,hev⟩
      · refine .inr (.inl ⟨⟨e.id,e.topic,p,some header⟩,?_,hpv⟩)
        rw [State.unhandled,hsent]
        exact mem_unhandled_published h.handled rfl (hfresh header (by simp [Action.uuids,
          WorkerAction.uuids,Publication.header])) _
    · exact fun m hm hmv => .inr (.inl ⟨m,mem_unhandled_append hm _,hmv⟩)
    · exact fun r hr hrv => .inr (.inr (.inl ⟨r,hr,hrv⟩))
    · exact fun e he hev => .inr (.inr (.inr ⟨e,he,hev⟩))
  | @userWorker a w ha hw =>
    refine (h.supplied v).imp_right (fun howed => howed.of_parts ?_ ?_ ?_ ?_)
    · exact fun e he hev => .inl ⟨e,he,hev⟩
    · exact fun m hm hmv => .inr (.inl ⟨m,mem_unhandled_append hm _,hmv⟩)
    · exact fun r hr hrv => .inr (.inr (.inl ⟨r,hr,hrv⟩))
    · intro e he hev
      obtain he | ⟨header,rfl,hsent⟩ := Turn.mem_userPublished h hw he
      · exact .inr (.inr (.inr ⟨e,he,hev⟩))
      · refine .inr (.inl ⟨⟨e.id,e.topic,e.payload,some header⟩,?_,hev⟩)
        rw [State.unhandled,hsent]
        exact mem_unhandled_published h.handled rfl (hfresh header (by simp [Action.uuids,
          WorkerAction.uuids,Publication.header])) _
  | @skipped m ids fault key hm hk hdone =>
    refine (h.supplied v).imp_right (fun howed => howed.of_parts ?_ ?_ ?_ ?_)
    · exact fun e he hev => .inl ⟨e,he,hev⟩
    · intro m' hm' hmv
      obtain rfl | hm'' := h.contents.mem_unhandled hm hk hm'
      · obtain ⟨p,hp⟩ := Option.isSome_iff_exists.mp hdone
        have hin := h.recorded p (List.mem_of_find?_eq_some hp)
        rw [show p.idempotencyKey = key by simpa using List.find?_some hp] at hin
        exact absurd hin ((isUnhandled_iff hk).mp (List.mem_filter.mp hm').2)
      · exact .inr (.inl ⟨m',hm'',hmv⟩)
    · exact fun r hr hrv => .inr (.inr (.inl ⟨r,hr,hrv⟩))
    · exact fun e he hev => .inr (.inr (.inr ⟨e,he,hev⟩))
  | @moved m b ids fault key amount row hm hb hk hrow =>
    have hevent := @newUserEvents_writes b key amount ids _ _ hrow
    refine (h.supplied v).imp_right (fun howed => howed.of_parts ?_ ?_ ?_ ?_)
    · exact fun e he hev => .inl ⟨e,he,hev⟩
    · intro m' hm' hmv
      obtain rfl | hm'' := h.contents.mem_unhandled hm hk hm'
      · refine .inr (.inr (.inr ⟨_,h.mem_userBacklog (hevent ▸ List.mem_singleton_self _) rfl ?_,?_⟩))
        · intro hin
          obtain ⟨pairs,-,-,-,hused⟩ := h.numbered
          exact hfresh ids.outboxId (by simp [Action.uuids]) (hused _ (List.mem_append_left _ hin))
        · rw [payloadTarget_resultPayload,← payloadTarget_of_balanceMessage hb]
          exact hmv
      · exact .inr (.inl ⟨m',hm'',hmv⟩)
    · exact fun r hr hrv => .inr (.inr (.inl ⟨r,hr,hrv⟩))
    · exact fun e he hev => .inr (.inr (.inr ⟨e,mem_userBacklog_applyAll _ he,hev⟩))
  | @refused m b ids fault key hm hb hk =>
    refine (h.supplied v).imp_right (fun howed => howed.of_parts ?_ ?_ ?_ ?_)
    · exact fun e he hev => .inl ⟨e,he,hev⟩
    · intro m' hm' hmv
      obtain rfl | hm'' := h.contents.mem_unhandled hm hk hm'
      · refine .inr (.inr (.inl ⟨_,List.mem_append_right _ (List.mem_singleton_self _),?_⟩))
        exact (payloadTarget_of_balanceMessage hb).symm.trans hmv
      · exact .inr (.inl ⟨m',hm'',hmv⟩)
    · exact fun r hr hrv => .inr (.inr (.inl ⟨r,List.mem_append_left _ hr,hrv⟩))
    · exact fun e he hev => .inr (.inr (.inr ⟨e,he,hev⟩))
  | @reported i r ids row hi hrest hrow =>
    refine (h.supplied v).imp_right (fun howed => howed.of_parts ?_ ?_ ?_ ?_)
    · exact fun e he hev => .inl ⟨e,he,hev⟩
    · exact fun m hm hmv => .inr (.inl ⟨m,hm,hmv⟩)
    · intro r' hr' hrv
      obtain rfl | hr' := mem_or_mem_eraseIdx hi hr'
      · refine .inr (.inr (.inr ⟨_,h.mem_userBacklog (List.mem_singleton_self _) rfl ?_,?_⟩))
        · exact h.failedId_new hi hrest
        · rw [payloadTarget_resultPayload]
          exact hrv
      · exact .inr (.inr (.inl ⟨r',hr',hrv⟩))
    · exact fun e he hev => .inr (.inr (.inr ⟨e,@mem_userBacklog_applyAll s _ _ he,hev⟩))

theorem Owed.congr {used : List Uuid} (h : Owed t v) : Owed {t with used := used} v := h

/-- A lossless step keeps all of it. -/
theorem Intact.turn (h : Intact s) (ht : Turn maxRetry s a t) (hc : Change maxRetry s a t)
    (hfresh : ∀ u ∈ a.uuids, u ∉ s.used) : Intact {t with used := t.used++a.uuids} := by
  obtain ⟨pairs,hpairs⟩ := h.numbered
  refine ⟨h.contents.change hc hfresh,hc.eventsReleased h.contents h.released hfresh,?_,
    ht.processed h.processed,ht.recorded h.recorded,ht.txTick h.txTick,ht.userTick h.userTick,
    ht.numbered hc.used_eq hfresh hpairs,ht.funded h.funded,hc.known h.contents hfresh h.statuses,
    fun v => (ht.supplied h hfresh v).imp_right Owed.congr⟩
  intro key hkey
  exact List.mem_append_left _ (hc.used_eq ▸ ht.handled h.contents h.handled key hkey)

theorem Intact.next {s' : State} (h : Intact s) (hl : s.Lossless a)
    (hs : s.next maxRetry a = some s') :
    Intact s' ∧ ∃ t, Turn maxRetry s a t ∧ Change maxRetry s a t ∧
      s' = {t with used := t.used++a.uuids} := by
  unfold State.next at hs
  split at hs
  · rename_i hu
    obtain ⟨t,hstep,rfl⟩ := Option.map_eq_some_iff.mp hs
    have ht := turn_of_step h.contents h.funded hl hstep
    have hc := change_of_step h.contents hstep
    exact ⟨h.turn ht hc hu.2,t,ht,hc,rfl⟩
  · contradiction

theorem Intact.initial {balances : List Balance} (hw : UserDb.WellFormed ⟨balances,[],[]⟩) :
    Intact (.initial balances) := by
  refine ⟨.initial hw,by simp [EventsReleased,State.initial],by simp [State.initial],
    by simp [State.initial],by simp [State.initial],.none,.none,⟨[],?_⟩,?_,by simp [State.initial],
    fun v => .inl (by simp [Served,State.initial])⟩
  · simp [Numbered,State.initial]
  · simp [Funded,State.initial,frozen]

end Supply
end NestHomework.Services
