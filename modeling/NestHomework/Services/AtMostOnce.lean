import NestHomework.Services.Flow
import NestHomework.Transition.Run

/-! A careful run moves the money of a target at most once. An event that is published again gets a
new header, and then its money moves again. -/
namespace NestHomework.Services
open Contracts Postgres Outbox TransactionService Shared Transition
open UserService (BalanceMessage UserDb Balance RunIds)

/-- There is one order for a target at most, and a settled one moved the money. -/
structure Once (s : State) : Prop where
  contents : Contents s
  released : EventsReleased s.tx
  recorded : Recorded s
  carried : ∀ v, s.carried v ≤ 1
  moved : ∀ v, s.moved.count v = settled s.user.outboxEvents v

section Recorded
variable {s t : State} {maxRetry : ℕ} {a : Action}

theorem balanceOf_isSome_applyAll {db : UserDb} (ws : List UserService.Write) {accountId : Uuid}
    {currency : String} (h : (db.balanceOf accountId currency).isSome) :
    (((UserService.server true).applyAll db ws).balanceOf accountId currency).isSome := by
  have hlater : UserService.Later db ((UserService.server true).applyAll db ws) :=
    UserService.Later.applyAll (UserService.Similar.refl _ _ db) ws
  have hid := hlater.balanceOf_id accountId currency
  rw [← Option.isSome_map,hid,Option.isSome_map]
  exact h

theorem balanceOf_isSome_createAccount {db : UserDb} {accountId : Uuid} {currency : String}
    (h : (db.balanceOf accountId currency).isSome) (newId rubId usdId usdtId : Uuid) :
    ((db.createAccount newId rubId usdId usdtId).balanceOf accountId currency).isSome := by
  simp only [UserDb.balanceOf,UserDb.createAccount,List.find?_append,Option.isSome_or]
  rw [UserDb.balanceOf] at h
  rw [h,Bool.true_or]

theorem mem_processedEvents_applyAll {db : UserDb} (ws : List UserService.Write)
    {p : UserService.ProcessedEvent}
    (h : p ∈ ((UserService.server true).applyAll db ws).processedEvents) :
    p ∈ db.processedEvents ∨ .insertProcessedEvent p ∈ ws := by
  induction ws generalizing db with
  | nil => exact .inl h
  | cons w ws ih =>
    rcases ih h with h | h
    · cases w with
      | insertProcessedEvent data =>
        rcases List.mem_append.mp h with h | h
        · exact .inl h
        · exact .inr (by simp [List.mem_singleton.mp h])
      | _ => exact .inl h
    · exact .inr (List.mem_cons_of_mem _ h)

theorem Change.recorded (hc : Change maxRetry s a t) (hrec : Recorded s) : Recorded t := by
  have hmsgs := hc.messages_subset
  have hkeep : ∀ p ∈ s.user.processedEvents, ∃ m ∈ t.messages, ∃ b, balanceMessage m = some b ∧
      m.idempotencyKey = some p.idempotencyKey ∧
      (s.user.balanceOf b.payer b.currency).isSome := by
    intro p hp
    obtain ⟨m,hm,hrest⟩ := hrec p hp
    exact ⟨m,hmsgs m hm,hrest⟩
  cases hc with
  | @moved m b ids fault key amount hm hb hk ha hnew hpay =>
    intro p hp
    rcases mem_processedEvents_applyAll _ hp with hp | hp
    · obtain ⟨m',hm',b',hb',hk',hrow⟩ := hkeep p hp
      exact ⟨m',hm',b',hb',hk',balanceOf_isSome_applyAll _ hrow⟩
    · have hkey : p.idempotencyKey = key := by
        cases b <;> simp [BalanceMessage.writes,BalanceMessage.moves,BalanceMessage.resultEvent]
          at hp <;> simp [hp]
      obtain ⟨row,hrow⟩ := payer_of_payable hpay
      refine ⟨m,hm,b,hb,by rw [hkey,hk],balanceOf_isSome_applyAll _ (by simp [hrow])⟩
  | @reported i r fault e hi htopic hpay =>
    intro p hp
    obtain ⟨m',hm',b',hb',hk',hrow⟩ := hkeep p hp
    exact ⟨m',hm',b',hb',hk',balanceOf_isSome_applyAll _ hrow⟩
  | createAccount hids hnew hacc =>
    intro p hp
    obtain ⟨m',hm',b',hb',hk',hrow⟩ := hkeep p hp
    exact ⟨m',hm',b',hb',hk',balanceOf_isSome_createAccount hrow _ _ _ _⟩
  | _ => exact hkeep

/-- A step that moves money settles the target. -/
theorem Change.moved_count (hc : Change maxRetry s a t)
    (h : ∀ v, s.moved.count v = settled s.user.outboxEvents v) (v : Target) :
    t.moved.count v = settled t.user.outboxEvents v := by
  cases hc with
  | @moved m b ids fault key amount hm hb hk ha hnew hpay =>
    obtain ⟨row,hrow⟩ := payer_of_payable hpay
    simp only [State.commit,userEvents_applyAll,newUserEvents_writes hrow,settled_append,
      any_isIncrement_writes hrow,if_true,isSuccess_successTopic,Bool.true_and,
      payloadTarget_resultPayload,List.count_append,h v,List.count_singleton,
      beq_eq_decide,decide_eq_true_eq]
  | @reported i r fault e hi htopic hpay =>
    have hsettled := settled_append (v := v) s.user.outboxEvents e
    rw [htopic,isSuccess_failedTopic,Bool.false_and,if_neg Bool.false_ne_true] at hsettled
    exact (h v).trans hsettled.symm
  | userMark => exact (h v).trans (settled_mark _ _).symm
  | _ => exact h v

end Recorded

section Runs
variable {s s' : State} {maxRetry : ℕ} {a : Action}

theorem Flow.carried_le {t : State} {v : Target} (h : Flow maxRetry s t v)
    (hc : s.carried v ≤ 1) (hnew : ¬Released s.tx v → s.carried v = 0) : t.carried v ≤ 1 := by
  simp only [State.carried] at hc hnew ⊢
  cases h with
  | keep ho hr => omega
  | back ho hr => omega
  | copy ho hr hlimit => omega
  | release ho hr hrel =>
    have := hnew hrel.not_released
    omega

/-- A careful step keeps the invariant. -/
theorem Once.next (h : Once s) (hcare : s.Careful a) (hs : s.next maxRetry a = some s') :
    Once s' := by
  obtain ⟨t,hc,hfresh,rfl⟩ := change_of_next h.contents hs
  exact ⟨h.contents.change hc hfresh,hc.eventsReleased h.contents h.released hfresh,
    hc.recorded h.recorded,
    fun v => (hc.flow h.contents h.recorded hcare v).carried_le (h.carried v)
      (h.contents.carried_eq_zero h.released),
    hc.moved_count h.moved⟩

theorem Once.initial {balances : List Balance} (hw : UserDb.WellFormed ⟨balances,[],[]⟩) :
    Once (.initial balances) :=
  ⟨.initial hw,by simp [EventsReleased,State.initial],by simp [Recorded,State.initial],
    fun _ => Nat.zero_le _,fun _ => rfl⟩

/-- In a careful run the money of a deposit or of a transfer pair moves at most once. -/
theorem moved_at_most_once (maxRetry : ℕ) {balances : List Balance}
    (hw : UserDb.WellFormed ⟨balances,[],[]⟩) {steps : List Action} {s : State}
    (hcare : Along (State.next maxRetry) State.Careful (.initial balances) steps)
    (hr : runs (State.next maxRetry) (.initial balances) steps = some s) (v : Target) :
    s.moved.count v ≤ 1 := by
  have h : Once s := runs_invariant (fun _ _ _ h hcare hs => h.next hcare hs) (.initial hw) hcare hr
  have hc := h.carried v
  simp only [State.carried,State.outward] at hc
  rw [h.moved v]
  omega

/-- A paid deposit, up to the publication of its event under a header. -/
def paidDeposit (header : Uuid) : List Action :=
  [.request (.depositRub ⟨1,10,100,"k","p"⟩) none,.request (.succeeded "p" 2) none,
    .txWorker (.find [⟨2,1,.depositPaidSuccess,some (.depositPaid ⟨2,1,10,"RUB","100"⟩),false⟩]),
    .txWorker (.publish (.acknowledged header))]

def paidMessage (header : Uuid) : KafkaMessage :=
  ⟨2,.depositPaidSuccess,.depositPaid ⟨2,1,10,"RUB","100"⟩,some header⟩

/-- The message is handled twice, and the money moves once. -/
theorem moved_at_most_once_redelivered :
    let balances : List Balance := [⟨5,0,"RUB",10,none⟩]
    let steps := paidDeposit 3++[.handleBalance (paidMessage 3) ⟨11,12,13⟩ none,
      .handleBalance (paidMessage 3) ⟨21,22,23⟩ none]
    (runs (State.next 3) (.initial balances) steps).map (·.moved) = some [.deposit 1] ∧
      ∀ s, runs (State.next 3) (.initial balances) steps = some s → ∀ v, s.moved.count v ≤ 1 := by
  refine ⟨by decide,fun s hr => moved_at_most_once 3 ⟨by decide,by decide⟩ ?_ hr⟩
  refine .cons trivial rfl (.cons trivial rfl (.cons trivial rfl (.cons ?_ rfl
    (.cons ?_ rfl (.cons ?_ rfl trivial)))))
  · intro _ t ht e he
    cases ht
    cases he
    decide
  · exact fun _ _ _ _ _ _ => .inl (by decide)
  · intro b key amount hb hk ha
    cases hb
    cases hk
    cases ha
    exact .inr ⟨by decide,by decide⟩

/-- The worker crashes after the publication, publishes the event again under another header, and
the deposit is credited twice. -/
theorem republished_deposit_is_credited_twice :
    (runs (State.next 3) (.initial [⟨5,0,"RUB",10,none⟩]) (paidDeposit 3++
      [.txWorker .crash,
        .txWorker (.find [⟨2,1,.depositPaidSuccess,some (.depositPaid ⟨2,1,10,"RUB","100"⟩),false⟩]),
        .txWorker (.publish (.acknowledged 4)),.txWorker (.mark false),
        .handleBalance (paidMessage 3) ⟨11,12,13⟩ none,
        .handleBalance (paidMessage 4) ⟨21,22,23⟩ none])).map
      (fun s => (s.moved.count (.deposit 1),s.user.balances)) =
        some (2,[⟨5,200,"RUB",10,none⟩]) := by
  decide

end Runs
end NestHomework.Services
