import NestHomework.Services.Lossless

/-! Nothing gets stuck. When no more requests come, the services come to rest after a bounded number of
steps, in any order, and then every transaction has its outcome. -/
namespace NestHomework.Services
open Contracts Postgres Outbox TransactionService Shared Transition
open UserService (BalanceMessage UserDb Balance RunIds)

namespace State

/-- A step of what is left to do, with which nothing goes wrong. Messages are handled once. -/
def Calm (s : State) : Action → Prop
  | .txWorker a => a.Calm ∧ a.Distinct txTable.id
  | .userWorker a => a.Calm ∧ a.Distinct userTable.id
  | .handleBalance m _ _ => isUnhandled s.handled m
  | .resume _ fault => fault = none
  | .handleResult m _ fault => fault = none ∧ isUnhandled s.handled m
  | _ => False

/-- No calm step is left. -/
def AtRest (maxRetry : ℕ) (s : State) : Prop := ∀ a, s.Calm a → s.next maxRetry a = none

end State

/-- The steps that the retries of a target may take. -/
def due (maxRetry : ℕ) (db : TxDb) (v : Target) : ℕ := 9*(maxRetry-v.retryCount db)

section Costs
variable (d : Target → ℕ)

def eventCost (e : OutboxEvent) : ℕ := 9+((e.payload.map payloadTarget).map d).getD 0

def messageCost (m : KafkaMessage) : ℕ :=
  (if (balanceMessage m).isSome then 6 else 1)+d (payloadTarget m.value)

def handlerCost (r : Handler) : ℕ := 5+d (messageTarget r.message)

def userEventCost (e : UserService.OutboxEvent) : ℕ := 4+d (payloadTarget e.payload)

def State.txCost (s : State) : ℕ := (s.txBacklog.map (eventCost d)).sum+tickCost s.txTick

def State.messagesCost (s : State) : ℕ := (s.unhandled.map (messageCost d)).sum

def State.handlersCost (s : State) : ℕ := (s.handlers.map (handlerCost d)).sum

def State.userCost (s : State) : ℕ := (s.userBacklog.map (userEventCost d)).sum+tickCost s.userTick

def State.cost (s : State) : ℕ := s.txCost d+s.messagesCost d+s.handlersCost d+s.userCost d

end Costs

/-- A bound on the calm steps. -/
def State.load (maxRetry : ℕ) (s : State) : ℕ := s.cost (due maxRetry s.tx)

section Load
variable {s t : State} {maxRetry : ℕ} {a : Action} {d d' : Target → ℕ}

theorem eventCost_mono (h : ∀ v, d' v ≤ d v) (e : OutboxEvent) : eventCost d' e ≤ eventCost d e := by
  unfold eventCost
  cases e.payload with
  | none => exact le_rfl
  | some p => exact Nat.add_le_add_left (h _) 9

theorem cost_mono (h : ∀ v, d' v ≤ d v) (s : State) : s.cost d' ≤ s.cost d := by
  have htx := List.sum_le_sum (l := s.txBacklog) (fun e _ => eventCost_mono h e)
  have hm : s.messagesCost d' ≤ s.messagesCost d :=
    List.sum_le_sum (fun m _ => Nat.add_le_add_left (h (payloadTarget m.value)) _)
  have hr : s.handlersCost d' ≤ s.handlersCost d :=
    List.sum_le_sum (fun r _ => Nat.add_le_add_left (h (messageTarget r.message)) _)
  have hu : (s.userBacklog.map (userEventCost d')).sum ≤ (s.userBacklog.map (userEventCost d)).sum :=
    List.sum_le_sum (fun e _ => Nat.add_le_add_left (h (payloadTarget e.payload)) _)
  simp only [State.cost,State.txCost,State.userCost]
  omega

/-- A message that is handled takes its cost away. -/
theorem messagesCost_handled {m : KafkaMessage} (hm : m ∈ s.messages) {key : Uuid}
    (hk : m.idempotencyKey = some key) (hun : isUnhandled s.handled m) :
    ((s.messages.filter (isUnhandled (s.handled++[key]))).map (messageCost d)).sum+messageCost d m ≤
      s.messagesCost d := by
  have hfilter : s.messages.filter (isUnhandled (s.handled++[key])) =
      s.unhandled.filter (isUnhandled [key]) := by
    rw [State.unhandled,List.filter_filter]
    refine List.filter_congr (fun m' _ => ?_)
    unfold isUnhandled
    cases m'.idempotencyKey <;> simp [Bool.and_comm]
  rw [hfilter]
  exact sum_filter_add_le _ (List.mem_filter.mpr ⟨hm,hun⟩) (by simp [isUnhandled,hk])

/-- A message that is published adds its cost. -/
theorem messagesCost_published (handled : List Uuid) (messages : List KafkaMessage)
    {sent : Option KafkaMessage} {c : ℕ} (hc : ∀ m ∈ sent, messageCost d m ≤ c) :
    (((messages++sent.toList).filter (isUnhandled handled)).map (messageCost d)).sum ≤
      ((messages.filter (isUnhandled handled)).map (messageCost d)).sum+c := by
  rw [List.filter_append,List.map_append,List.sum_append]
  refine Nat.add_le_add_left ((sum_filter_le _ _ _).trans ?_) _
  cases sent with
  | none => simp
  | some m => simpa using hc m rfl

/-- What the writes of a call add to the backlog. -/
theorem txCost_applyAll (db : TxDb) (tick : Option (Tick OutboxEvent)) (ws : List Write) :
    ((txTable.backlog tick (server.applyAll db ws)).map (eventCost d)).sum ≤
      ((txTable.backlog tick db).map (eventCost d)).sum+((newEvents ws).map (eventCost d)).sum := by
  simp only [Table.backlog,txTable,outboxEvents_applyAll,List.filter_append,List.map_append,
    List.sum_append]
  refine Nat.add_le_add_left ((sum_filter_le _ _ _).trans (sum_filter_le _ _ _)) _

theorem userCost_applyAll (db : UserDb) (tick : Option (Tick UserService.OutboxEvent))
    (ws : List UserService.Write) :
    ((userTable.backlog tick ((UserService.server true).applyAll db ws)).map (userEventCost d)).sum ≤
      ((userTable.backlog tick db).map (userEventCost d)).sum+
        ((newUserEvents ws).map (userEventCost d)).sum := by
  simp only [Table.backlog,userTable,userEvents_applyAll,List.filter_append,List.map_append,
    List.sum_append]
  refine Nat.add_le_add_left ((sum_filter_le _ _ _).trans (sum_filter_le _ _ _)) _

theorem messageCost_of_balanceMessage {m : KafkaMessage} {b : BalanceMessage}
    (hb : balanceMessage m = some b) : messageCost d m = 6+d (messageTarget b) := by
  rw [messageCost,hb,payloadTarget_of_balanceMessage hb]
  rfl

/-- The publications of the user service are no balance messages. -/
theorem messageCost_of_answers {db : TxDb} {e : UserService.OutboxEvent} (h : Answers db e)
    (header : Uuid) :
    messageCost d ⟨e.id,e.topic,e.payload,some header⟩ = 1+d (payloadTarget e.payload) := by
  obtain ⟨b,-,-,ht | ht⟩ := h
  all_goals
    rw [messageCost,ht]
    cases b <;> rfl

/-- What a calm worker sends costs less than what it takes off. -/
theorem txWorker_cost (h : Intact s) {a : WorkerAction OutboxEvent} {w : Work TxDb OutboxEvent}
    (hw : txTable.Turn s.txTick s.tx a w) (ha : a.Calm) :
    ∃ c, (∀ m ∈ w.sent, messageCost d m ≤ c) ∧
      ((txTable.backlog w.tick w.db).map (eventCost d)).sum+tickCost w.tick+c+1 ≤ s.txCost d := by
  rcases hw.drains txTable_lawful h.txTick ha (eventCost d) with
    ⟨hsent,hcost⟩ | ⟨e,header,⟨tick,htick,he⟩,hsent,hcost⟩
  · exact ⟨0,by simp [hsent],hcost⟩
  · cases hm : txTable.message e header with
    | none =>
      refine ⟨0,by simp [hsent,hm],?_⟩
      simp only [eventCost,State.txCost,State.txBacklog] at hcost ⊢
      omega
    | some m =>
      obtain ⟨b,-,hpay,rfl⟩ := h.contents.speaks_txEvent (h.contents.txTick _ htick e he) hm
      refine ⟨6+d (messageTarget b),fun m hin => ?_,?_⟩
      · rw [hsent,hm,Option.mem_some_iff] at hin
        rw [← hin,messageCost_of_balanceMessage (balanceMessage_iff.mpr ⟨rfl,rfl⟩)]
      · simp only [eventCost,State.txCost,State.txBacklog,hpay,Option.map_some,
          payloadTarget_messagePayload,Option.getD_some] at hcost ⊢
        omega

theorem userWorker_cost (h : Intact s) {a : WorkerAction UserService.OutboxEvent}
    {w : Work UserDb UserService.OutboxEvent} (hw : userTable.Turn s.userTick s.user a w)
    (ha : a.Calm) : ∃ c, (∀ m ∈ w.sent, messageCost d m ≤ c) ∧
      ((userTable.backlog w.tick w.db).map (userEventCost d)).sum+tickCost w.tick+c+1 ≤
        s.userCost d := by
  rcases hw.drains userTable_lawful h.userTick ha (userEventCost d) with
    ⟨hsent,hcost⟩ | ⟨e,header,⟨tick,htick,he⟩,hsent,hcost⟩
  · exact ⟨0,by simp [hsent],hcost⟩
  · refine ⟨1+d (payloadTarget e.payload),fun m hin => ?_,?_⟩
    · rw [hsent] at hin
      obtain rfl : _ = m := Option.some.inj hin
      exact (messageCost_of_answers (h.contents.answers_userEvent
        (h.contents.userTick _ htick e he)) header).le
    · simp only [userEventCost,State.userCost,State.userBacklog] at hcost ⊢
      omega

/-- A calm step that is not about a result lowers the cost. -/
theorem Turn.cost_lt (ht : Turn maxRetry s a t) (h : Intact s) (ha : s.Calm a)
    (hresult : ∀ m ids fault, a ≠ .handleResult m ids fault) : t.cost d+1 ≤ s.cost d := by
  cases ht with
  | request hv he => exact ha.elim
  | createAccount => exact ha.elim
  | @txWorker a w hdistinct hw =>
    obtain ⟨c,hc,hcost⟩ := txWorker_cost (d := d) h hw ha.1
    have hm := messagesCost_published s.handled s.messages hc
    simp only [State.cost,State.txCost,State.messagesCost,State.txBacklog,State.unhandled,
      State.handlersCost,State.userCost,State.userBacklog] at hcost ⊢
    omega
  | @userWorker a w hdistinct hw =>
    obtain ⟨c,hc,hcost⟩ := userWorker_cost (d := d) h hw ha.1
    have hm := messagesCost_published s.handled s.messages hc
    simp only [State.cost,State.txCost,State.messagesCost,State.txBacklog,State.unhandled,
      State.handlersCost,State.userCost,State.userBacklog] at hcost ⊢
    omega
  | @skipped m ids fault key hm hk hdone =>
    obtain ⟨p,hp⟩ := Option.isSome_iff_exists.mp hdone
    have hin := h.recorded p (List.mem_of_find?_eq_some hp)
    rw [show p.idempotencyKey = key by simpa using List.find?_some hp] at hin
    exact absurd hin ((isUnhandled_iff hk).mp ha)
  | @moved m b ids fault key amount row hm hb hk hrow =>
    have hcost := messagesCost_handled (d := d) hm hk ha
    have hu := userCost_applyAll (d := d) s.user s.userTick (b.writes key amount ids s.user)
    rw [newUserEvents_writes hrow] at hu
    rw [messageCost_of_balanceMessage hb] at hcost
    simp only [List.map_singleton,List.sum_singleton,userEventCost,payloadTarget_resultPayload] at hu
    simp only [State.cost,State.txCost,State.messagesCost,State.txBacklog,State.unhandled,
      State.handlersCost,State.userCost,State.userBacklog,State.commit] at hcost ⊢
    omega
  | @refused m b ids fault key hm hb hk =>
    have hcost := messagesCost_handled (d := d) hm hk ha
    rw [messageCost_of_balanceMessage hb] at hcost
    simp only [State.cost,State.txCost,State.messagesCost,State.txBacklog,State.unhandled,
      State.handlersCost,State.userCost,State.userBacklog,List.map_append,List.sum_append,
      List.map_singleton,List.sum_singleton,handlerCost] at hcost ⊢
    omega
  | @reported i r ids row hi hrest hrow =>
    have hcost := sum_eraseIdx_add (handlerCost d) hi
    have hu := userCost_applyAll (d := d) s.user s.userTick [.insertOutboxEvent
      ⟨ids.failedId,row.id,r.message.failedTopic,r.message.resultPayload,false⟩]
    simp only [newUserEvents,List.filterMap_cons,List.filterMap_nil,List.map_singleton,
      List.sum_singleton,userEventCost,payloadTarget_resultPayload] at hu
    simp only [State.cost,State.txCost,State.messagesCost,State.txBacklog,State.unhandled,
      State.handlersCost,State.userCost,State.userBacklog,State.commit,handlerCost]
      at hcost ⊢
    omega
  | result hm hk hc => exact absurd rfl (hresult _ _ _)

theorem due_mono {db db' : TxDb} {v : Target} (h : v.retryCount db ≤ v.retryCount db') :
    due maxRetry db' v ≤ due maxRetry db v := by
  unfold due
  omega

/-- The event that a result may create costs less than the retry that it uses up. -/
theorem newEvents_cost (h : Contents s) {m : KafkaMessage} (hm : m ∈ s.messages) {key : Uuid}
    (hk : m.idempotencyKey = some key) {ids : RetryIds} {call : TransactionCall}
    (hc : resultCall maxRetry m ids = some call) {ws : List Write}
    (he : TransactionCall.Effect s.tx call ws) :
    ((newEvents ws).map (eventCost (due maxRetry (server.applyAll s.tx ws)))).sum ≤
      due maxRetry s.tx (payloadTarget m.value) := by
  obtain ⟨b,hb,hval,⟨-,rfl⟩ | ⟨-,rfl⟩⟩ := resultCall_cases (h.messages m hm) hk hc
  · have hnone : newEvents ws = [] := by
      refine List.eq_nil_iff_forall_not_mem.mpr (fun e hin => ?_)
      have := effect_newEvents he hin
      cases b <;> simp [successCall,eventUuids] at this
    simp [hnone]
  · cases he with
    | nothing => simp [newEvents]
    | failed hnew hpres hlimit => simp [newEvents,RetryCall.failWrites]
    | @copied _ _ event hnew hpres hlimit hevent hpay =>
      have hcost : ∀ d, eventCost d (RetryCall.copy ids event) = 9+d (messageTarget b) := by
        intro d
        rw [eventCost,RetryCall.copy,(h.tx.payload_of_outboxEvent hb hevent).2,Option.map_some,
          payloadTarget_messagePayload,Option.map_some,Option.getD_some]
      have hadd := retryCount_addRetryCount hpres
      have hrest := @retryCount_le_applyAll
        ((Write.addRetryCount (messageTarget b).ids).apply s.tx) (messageTarget b)
        [.insertOutboxEvent (RetryCall.copy ids event),
          .insertProcessedEvent ((failureCall maxRetry b key).record ids)]
      change ([RetryCall.copy ids event].map (eventCost (due maxRetry
        (server.applyAll ((Write.addRetryCount (messageTarget b).ids).apply s.tx)
          [.insertOutboxEvent (RetryCall.copy ids event),
            .insertProcessedEvent ((failureCall maxRetry b key).record ids)])))).sum ≤ _
      rw [List.map_singleton,List.sum_singleton,hcost,hval,payloadTarget_resultPayload]
      simp only [failureCall,due] at hlimit hadd hrest ⊢
      omega

/-- A calm step lowers the load. -/
theorem Turn.load_lt (ht : Turn maxRetry s a t) (h : Intact s) (ha : s.Calm a)
    (hc : Change maxRetry s a t) : t.load maxRetry+1 ≤ s.load maxRetry := by
  have hdue : ∀ v, due maxRetry t.tx v ≤ due maxRetry s.tx v :=
    fun v => due_mono (hc.retryCount_le v)
  by_cases hresult : ∃ m ids fault, a = .handleResult m ids fault
  · obtain ⟨m,ids,fault,rfl⟩ := hresult
    cases ht with
    | @result _ _ call key hm hk hcall =>
      have hleft := messagesCost_handled (d := due maxRetry s.tx) hm hk ha.2
      have hnew := newEvents_cost h.contents hm hk hcall (effect_commit call s.tx)
      have htx := txCost_applyAll (d := due maxRetry (server.applyAll s.tx ((call.commit s.tx).getD [])))
        s.tx s.txTick ((call.commit s.tx).getD [])
      -- the old events, messages and handlers, at the new costs
      have hkeep := cost_mono hdue {s with handled := s.handled++[key]}
      have hone : 1 ≤ if (balanceMessage m).isSome then 6 else 1 := by split <;> simp
      simp only [State.load,State.cost,State.txCost,State.messagesCost,State.txBacklog,State.unhandled,
        State.handlersCost,State.userCost,State.userBacklog,messageCost] at hleft hkeep ⊢
      omega
  · push Not at hresult
    have hcost := ht.cost_lt (d := due maxRetry s.tx) h ha hresult
    have hmono := cost_mono hdue t
    simp only [State.load]
    omega

end Load

section Rest
variable {s t : State} {maxRetry : ℕ} {a : Action}

theorem State.Calm.lossless (h : s.Calm a) : s.Lossless a := by
  cases a with
  | txWorker a => exact h.2
  | userWorker a => exact h.2
  | resume i fault => exact h
  | handleResult m ids fault => exact h.1
  | handleBalance m ids fault => trivial
  | _ => exact h.elim

/-- There are always new uuids. -/
theorem exists_fresh (used : List ℕ) : ∃ n, ∀ u, n ≤ u → u ∉ used := by
  induction used with
  | nil => exact ⟨0,by simp⟩
  | cons x used ih =>
    obtain ⟨n,hn⟩ := ih
    refine ⟨max (x+1) n,fun u hu hin => ?_⟩
    obtain rfl | hin := List.mem_cons.mp hin
    · omega
    · exact hn u (by omega) hin

/-- An action that the step allows is possible under new uuids. -/
theorem State.AtRest.step_none (h : s.AtRest maxRetry) (ha : s.Calm a) (hnodup : a.uuids.Nodup)
    (hfresh : ∀ u ∈ a.uuids, u ∉ s.used) : s.step maxRetry a = none := by
  have hnone := h a ha
  rw [State.next,if_pos ⟨hnodup,hfresh⟩] at hnone
  exact Option.map_eq_none_iff.mp hnone

theorem State.AtRest.txWorker (h : s.AtRest maxRetry) : s.txTick = none ∧ s.txBacklog = [] := by
  obtain ⟨n,hn⟩ := exists_fresh s.used
  refine txTable.idle_of_stuck n fun a hcalm hdistinct hsub hnodup => ?_
  have hnone := h.step_none (a := .txWorker a) ⟨hcalm,hdistinct⟩ hnodup (fun u hu =>
    hn u (List.mem_singleton.mp (hsub hu)).ge)
  rwa [State.step,Option.map_eq_none_iff] at hnone

theorem State.AtRest.userWorker (h : s.AtRest maxRetry) : s.userTick = none ∧ s.userBacklog = [] := by
  obtain ⟨n,hn⟩ := exists_fresh s.used
  refine userTable.idle_of_stuck n fun a hcalm hdistinct hsub hnodup => ?_
  have hnone := h.step_none (a := .userWorker a) ⟨hcalm,hdistinct⟩ hnodup (fun u hu =>
    hn u (List.mem_singleton.mp (hsub hu)).ge)
  rwa [State.step,Option.map_eq_none_iff] at hnone

/-- A message is for the one service or for the other. -/
theorem isSome_balanceMessage_or {db : TxDb} {m : KafkaMessage} (h : Speaks db m) {key : Uuid}
    (hk : m.idempotencyKey = some key) (maxRetry : ℕ) (ids : RetryIds) :
    (balanceMessage m).isSome ∨ (resultCall maxRetry m ids).isSome := by
  obtain ⟨b,-,hb | ⟨hv,ht⟩⟩ := h
  · exact .inl (by rw [balanceMessage_iff.mpr hb]; rfl)
  · refine .inr ?_
    unfold resultCall
    rcases ht with ht | ht <;> rw [hk,ht,hv] <;> cases b <;> rfl

theorem State.AtRest.messages (h : s.AtRest maxRetry) (hs : Contents s) : s.unhandled = [] := by
  refine List.eq_nil_iff_forall_not_mem.mpr (fun m hm => ?_)
  obtain ⟨hmem,hun⟩ := List.mem_filter.mp hm
  obtain ⟨key,-,hk⟩ := hs.headersUsed m hmem
  obtain ⟨n,hfresh⟩ := exists_fresh s.used
  obtain hsome | hsome := isSome_balanceMessage_or (hs.messages m hmem) hk maxRetry ⟨n,n+1⟩
  · have hnone := h.step_none (a := .handleBalance m ⟨n,n+1,n+2⟩ none) hun
      (by simp [Action.uuids]) (by simp [Action.uuids,hfresh])
    rw [State.step,if_pos hmem,Option.map_eq_none_iff] at hnone
    rw [hnone] at hsome
    contradiction
  · have hnone := h.step_none (a := .handleResult m ⟨n,n+1⟩ none) ⟨rfl,hun⟩
      (by simp [Action.uuids]) (by simp [Action.uuids,hfresh])
    rw [State.step,if_pos hmem,Option.map_eq_none_iff] at hnone
    rw [hnone] at hsome
    contradiction

theorem State.AtRest.handlers (h : s.AtRest maxRetry) : s.handlers = [] := by
  cases hr : s.handlers with
  | nil => rfl
  | cons r rs =>
    have hnone := h.step_none (a := .resume 0 none) rfl (by simp [Action.uuids])
      (by simp [Action.uuids])
    rw [State.step,hr] at hnone
    simp at hnone

/-- At rest nothing is owed. -/
theorem Intact.served (h : Intact s) (hrest : s.AtRest maxRetry) (v : Target) : Served s.tx v := by
  refine (h.supplied v).resolve_right (fun howed => ?_)
  obtain ⟨e,he,-⟩ | ⟨m,hm,-⟩ | ⟨r,hr,-⟩ | ⟨e,he,-⟩ := howed
  · rw [hrest.txWorker.2] at he
    contradiction
  · rw [hrest.messages h.contents] at hm
    contradiction
  · rw [hrest.handlers] at hr
    contradiction
  · rw [hrest.userWorker.2] at he
    contradiction

/-- At rest every transaction has its outcome, or waits for its payment. -/
theorem Intact.outcome (h : Intact s) (hrest : s.AtRest maxRetry) {row : Transaction}
    (hrow : row ∈ s.tx.transactions) : row.status = .balanceUpdated ∨ row.status = .failed ∨
      (row.type = .deposit ∧ (row.status = .pending ∨ row.status = .timeout)) := by
  have hfinished := h.served hrest _ row hrow rfl
  obtain ⟨hfailed,htimeout⟩ := h.statuses row hrow
  cases hst : row.status with
  | pending => simpa [finished,hst] using hfinished
  | completed => simp [finished,hst] at hfinished
  | balanceUpdated => exact .inl rfl
  | balanceFailed => exact absurd hst hfailed
  | failed => exact .inr (.inl rfl)
  | timeout => exact .inr (.inr ⟨htimeout hst,.inr rfl⟩)

/-- Nothing gets stuck: after any lossless run the services come to rest within `load` calm steps, in
whatever order these are taken. Then every transaction is `BALANCE_UPDATED` or `FAILED`, or it is a
deposit that was not paid, and both outboxes are published. -/
theorem nothing_gets_stuck (maxRetry : ℕ) {balances : List Balance}
    (hw : UserDb.WellFormed ⟨balances,[],[]⟩) {steps : List Action}
    (hl : Along (State.next maxRetry) State.Lossless (.initial balances) steps)
    (hr : runs (State.next maxRetry) (.initial balances) steps = some s) :
    (∃ more t, Along (State.next maxRetry) State.Calm s more ∧
      runs (State.next maxRetry) s more = some t ∧ t.AtRest maxRetry) ∧
    ∀ more t, Along (State.next maxRetry) State.Calm s more →
      runs (State.next maxRetry) s more = some t → more.length ≤ s.load maxRetry ∧
      (t.AtRest maxRetry →
        (∀ row ∈ t.tx.transactions, row.status = .balanceUpdated ∨ row.status = .failed ∨
          (row.type = .deposit ∧ (row.status = .pending ∨ row.status = .timeout))) ∧
        (∀ e ∈ t.tx.outboxEvents, e.processed) ∧ ∀ e ∈ t.user.outboxEvents, e.processed) := by
  have h : Intact s := runs_invariant (fun _ _ _ h hl hs => (h.next hl hs).1) (.initial hw) hl hr
  have hkeep : ∀ s a t, Intact s → s.Calm a → s.next maxRetry a = some t → Intact t :=
    fun _ _ _ h ha hs => (h.next ha.lossless hs).1
  have hlower : ∀ s a t, Intact s → s.Calm a → s.next maxRetry a = some t →
      t.load maxRetry+1 ≤ s.load maxRetry := by
    intro s a s' h ha hs
    obtain ⟨-,t,ht,hc,rfl⟩ := h.next ha.lossless hs
    exact ht.load_lt h ha hc
  refine ⟨exists_maximal (I := Intact) (State.load maxRetry) hkeep hlower h,fun more t hcalm hr' => ⟨?_,?_⟩⟩
  · have := runs_length_le (State.load maxRetry) hkeep hlower h hcalm hr'
    omega
  · intro hrest
    have ht : Intact t := runs_invariant hkeep h hcalm hr'
    refine ⟨fun row hrow => ht.outcome hrest hrow,fun e he => ?_,fun e he => ?_⟩
    · obtain ⟨htick,hback⟩ := hrest.txWorker
      by_contra hp
      refine List.eq_nil_iff_forall_not_mem.mp hback e (Table.mem_backlog.mpr ⟨?_,by simp [htick]⟩)
      exact List.mem_filter.mpr ⟨he,by simpa using hp⟩
    · obtain ⟨htick,hback⟩ := hrest.userWorker
      by_contra hp
      refine List.eq_nil_iff_forall_not_mem.mp hback e (Table.mem_backlog.mpr ⟨?_,by simp [htick]⟩)
      exact List.mem_filter.mpr ⟨he,by simpa using hp⟩

/-- A deposit is paid, and nothing else happens yet. -/
theorem nothing_gets_stuck_paid : ∃ s t more, runs (State.next 3) (.initial [⟨5,7,"RUB",10,none⟩])
      [.request (.depositRub ⟨1,10,100,"k","p"⟩) none,.request (.succeeded "p" 2) none] = some s ∧
    s.load 3 = 38 ∧ Along (State.next 3) State.Calm s more ∧ runs (State.next 3) s more = some t ∧
    t.AtRest 3 ∧ more.length ≤ 38 ∧ ∀ e ∈ t.user.outboxEvents, e.processed := by
  have hw : UserDb.WellFormed ⟨[⟨5,7,"RUB",10,none⟩],[],[]⟩ := ⟨by decide,by decide⟩
  have hrun : (runs (State.next 3) (.initial [⟨5,7,"RUB",10,none⟩])
      [.request (.depositRub ⟨1,10,100,"k","p"⟩) none,.request (.succeeded "p" 2) none]).map
        (·.load 3) = some 38 := by decide
  obtain ⟨s,hs,hload⟩ := Option.map_eq_some_iff.mp hrun
  have hl : Along (State.next 3) State.Lossless (.initial [⟨5,7,"RUB",10,none⟩])
      [.request (.depositRub ⟨1,10,100,"k","p"⟩) none,.request (.succeeded "p" 2) none] :=
    .cons (by rfl) rfl (.cons (by rfl) rfl trivial)
  obtain ⟨⟨more,t,hcalm,ht,hrest⟩,hall⟩ := nothing_gets_stuck 3 hw hl hs
  obtain ⟨hlen,hend⟩ := hall more t hcalm ht
  exact ⟨s,t,more,hs,hload,hcalm,ht,hrest,hload ▸ hlen,(hend hrest).2.2⟩

/-- Nothing is left to do when nothing is on its way. -/
theorem atRest_of_empty (htx : s.txTick = none) (htx' : s.txBacklog = []) (hm : s.unhandled = [])
    (hr : s.handlers = []) (hu : s.userTick = none) (hu' : s.userBacklog = []) :
    s.AtRest maxRetry := by
  intro a ha
  have hmessage : ∀ m ∈ s.messages, ¬isUnhandled s.handled m := by
    intro m hin hun
    exact List.eq_nil_iff_forall_not_mem.mp hm m (List.mem_filter.mpr ⟨hin,hun⟩)
  have hstep : s.step maxRetry a = none := by
    cases a with
    | request r fault => exact ha.elim
    | createAccount accountId rubId usdId usdtId => exact ha.elim
    | txWorker a =>
      rw [State.txBacklog,htx] at htx'
      rw [State.step,htx,Table.work_eq_none ha.1 htx',Option.map_none]
    | userWorker a =>
      rw [State.userBacklog,hu] at hu'
      rw [State.step,hu,Table.work_eq_none ha.1 hu',Option.map_none]
    | handleBalance m ids fault => exact if_neg (fun hin => hmessage m hin ha)
    | resume i fault => simp [State.step,hr]
    | handleResult m ids fault => exact if_neg (fun hin => hmessage m hin ha.2)
  unfold State.next
  split
  · rw [hstep,Option.map_none]
  · rfl

/-- At rest a success event stands behind the `BALANCE_UPDATED` rows and behind no others. -/
theorem Agreed.settled_iff {balances : List Balance} (h : Agreed maxRetry balances s)
    (hi : Intact s) (hrest : s.AtRest maxRetry) {row : Transaction} (hrow : row ∈ s.tx.transactions) :
    settled s.user.outboxEvents (transactionTarget row) ≠ 0 ↔ row.status = .balanceUpdated := by
  refine ⟨fun hne => ?_,h.statuses.updated row hrow⟩
  obtain hst | hst | ⟨htype,hst⟩ := hi.outcome hrest hrow
  · exact hst
  · have hended := (h.statuses.failed row hrow hst).outward
    have := settled_le_outward s (transactionTarget row)
    omega
  · obtain ⟨b,hb,hbv⟩ := hi.contents.genuine_of_settled hne
    have htarget : transactionTarget row = .deposit row.id := by simp only [transactionTarget,htype]
    obtain ⟨p,hp,hpending,htimeout⟩ := htarget ▸ hbv ▸ hb.released hi.released
    rw [hi.contents.tx.sound.phase_eq hrow,Option.some.injEq] at hp
    subst hp
    exact (hst.elim hpending htimeout).elim

/-- When rows are published once and messages handled once, the money that an account holds at rest
is what it started with and the amounts of its `BALANCE_UPDATED` transactions. -/
theorem books_agree_at_rest (maxRetry : ℕ) {balances : List Balance}
    (hw : UserDb.WellFormed ⟨balances,[],[]⟩) {steps : List Action}
    (hl : Along (State.next maxRetry) State.Lossless (.initial balances) steps)
    (hsingle : Along (State.next maxRetry) State.Single (.initial balances) steps)
    (hr : runs (State.next maxRetry) (.initial balances) steps = some s)
    (hrest : s.AtRest maxRetry) : ∀ b ∈ s.user.balances,
      b.amount = opening balances b.accountId b.currency+
        total ((s.tx.transactions.filter (fun t => t.status = .balanceUpdated)).map entry)
          (b.accountId,b.currency) := by
  have h : Agreed maxRetry balances s := runs_invariant
    (fun _ _ _ h hsingle hs => (h.next hsingle hs).1) (.initial maxRetry hw) hsingle hr
  have hi : Intact s := runs_invariant (fun _ _ _ h hl hs => (h.next hl hs).1) (.initial hw) hl hr
  have hrows : settledRows s.tx.transactions s.user.outboxEvents =
      s.tx.transactions.filter (fun t => t.status = .balanceUpdated) :=
    List.filter_congr (fun row hrow => decide_eq_decide.mpr (h.settled_iff hi hrest hrow))
  intro b hb
  rw [h.books.amounts b hb,State.credited,hrows]

/-- A deposit of 100 is credited, and a second one is not paid. -/
theorem books_agree_at_rest_credited :
    let balances : List Balance := [⟨5,7,"RUB",10,none⟩]
    let steps := creditedDeposit++[.userWorker (.mark false),
      .request (.depositRub ⟨21,10,50,"l","q"⟩) none]
    ∃ s, runs (State.next 3) (.initial balances) steps = some s ∧
      s.tx.statuses = [(1,.balanceUpdated),(21,.pending)] ∧
      s.user.balances = [⟨5,107,"RUB",10,none⟩] ∧
      ∀ b ∈ s.user.balances, b.amount = opening balances b.accountId b.currency+
        total ((s.tx.transactions.filter (fun t => t.status = .balanceUpdated)).map entry)
          (b.accountId,b.currency) := by
  intro balances steps
  have hw : UserDb.WellFormed ⟨balances,[],[]⟩ := ⟨by decide,by decide⟩
  have hrun : (runs (State.next 3) (.initial balances) steps).map (fun s =>
      (s.tx.statuses,s.user.balances)) =
        some ([(1,.balanceUpdated),(21,.pending)],[⟨5,107,"RUB",10,none⟩]) := by decide
  have hempty : (runs (State.next 3) (.initial balances) steps).map (fun s =>
      s.txTick.isNone && s.txBacklog.isEmpty && s.unhandled.isEmpty && s.handlers.isEmpty &&
        s.userTick.isNone && s.userBacklog.isEmpty) = some true := by decide
  obtain ⟨s,hs,hend⟩ := Option.map_eq_some_iff.mp hrun
  obtain ⟨hstatuses,hbalances⟩ := Prod.mk.inj hend
  rw [hs,Option.map_some,Option.some.injEq] at hempty
  simp only [Bool.and_eq_true,Option.isNone_iff_eq_none,List.isEmpty_iff] at hempty
  obtain ⟨⟨⟨⟨⟨htx,htx'⟩,hm⟩,hr⟩,hu⟩,hu'⟩ := hempty
  have hl : Along (State.next 3) State.Lossless (.initial balances) steps :=
    .cons (by rfl) rfl (.cons (by rfl) rfl (.cons (List.nodup_singleton _) rfl (.cons trivial rfl
      (.cons trivial rfl (.cons trivial rfl (.cons (List.nodup_singleton _) rfl (.cons trivial rfl
        (.cons rfl rfl (.cons trivial rfl (.cons (by rfl) rfl trivial))))))))))
  have hsingle : Along (State.next 3) State.Single (.initial balances) steps := by
    refine .cons trivial rfl (.cons trivial rfl (.cons trivial rfl (.cons ?_ rfl (.cons trivial rfl
      (.cons ?_ rfl (.cons trivial rfl (.cons ?_ rfl (.cons ?_ rfl (.cons trivial rfl
        (.cons trivial rfl trivial))))))))))
    · rintro _ t ⟨⟩ e ⟨⟩
      decide
    · rintro key ⟨⟩
      decide
    · rintro _ t ⟨⟩ e ⟨⟩
      decide
    · rintro key ⟨⟩
      decide
  exact ⟨s,hs,hstatuses,hbalances,books_agree_at_rest 3 hw hl hsingle hs
    (atRest_of_empty htx htx' hm hr hu hu')⟩

end Rest
end NestHomework.Services
