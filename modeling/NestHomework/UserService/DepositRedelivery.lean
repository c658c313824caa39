import NestHomework.UserService.Redelivery

/-! A deposit is credited once however often its message is handled at the same time. The duplicate
check comes after the lock of the balance row, so at most one run is between its check and its
end. -/
namespace NestHomework.UserService
open Contracts Postgres Shared

section Deposit
variable {T : Type} [DecidableEq T] {job : T → BalanceMessage × Option Uuid} {ids : T → RunIds}
  {db₀ : UserDb} {s s' : UserState T} {payload : DepositPaidSuccessPayload} {key : Uuid} {amount : ℤ}
  {balance : Balance}

/-- The runs of the deposit message have not failed, and hold the balance row once they have
started. -/
structure Crediting (job : T → BalanceMessage × Option Uuid) (ids : T → RunIds) (db₀ : UserDb)
    (payload : DepositPaidSuccessPayload) (key : Uuid) (amount : ℤ) (balance : Balance)
    (s : UserState T) : Prop where
  sound : Sound db₀ job ids s
  unfailed : Unfailed job ids (.depositPaidSuccess payload) key amount s
  unrecorded : Unrecorded job key s
  owns : ∀ t a, (job t).2 = some key → s.session t = .active a →
    a.answered = [] ∨ s.owns t balance.id

theorem Crediting.one_inFlight (h : Crediting job ids db₀ payload key amount balance s) (t u : T)
    (ht : (job t).2 = some key) (hu : (job u).2 = some key) (hft : InFlight key s t)
    (hfu : InFlight key s u) : t = u := by
  have hown : ∀ t, (job t).2 = some key → InFlight key s t → s.owns t balance.id := by
    rintro t ht ⟨a,ha,hk⟩
    refine (h.owns t a ht ha).resolve_left (fun hnil => ?_)
    simp [hnil] at hk
  obtain ⟨m,hm,hx⟩ := State.owns_iff.mp (hown t ht hft)
  obtain ⟨n,hn,hy⟩ := State.owns_iff.mp (hown u hu hfu)
  by_contra hne
  have hcf := h.sound.twoPhase.exclusive t u balance.id m n hm hn hne
  rw [RowLock.conflicts_of_exclusive hx hy] at hcf
  contradiction

theorem Crediting.owns_setActive {a : Active Res Write Uuid Unit Outcome} {t : T}
    (h : Crediting job ids db₀ payload key amount balance s) (hses : s'.session = s.session)
    (hheld : ∀ v q n, (v,q,n) ∈ s.held → (v,q,n) ∈ s'.held)
    (ha : (job t).2 = some key → a.answered = [] ∨ s'.owns t balance.id) :
    ∀ u b, (job u).2 = some key → (s'.setActive t a).session u = .active b →
      b.answered = [] ∨ (s'.setActive t a).owns u balance.id := by
  intro u b hu hb
  rw [State.setActive_session,hses] at hb
  split at hb
  · rename_i heq
    subst heq
    cases hb
    exact ha hu
  · refine (h.owns u b hu hb).imp_right (fun ho => ?_)
    obtain ⟨m,hm,hx⟩ := State.owns_iff.mp ho
    exact State.owns_iff.mpr ⟨m,hheld _ _ _ hm,hx⟩

theorem Crediting.owns_finish {t : T} (h : Crediting job ids db₀ payload key amount balance s)
    (hses : s'.session = s.session) (hheld : s'.held = s.held)
    (rest : Proc Stmt Res Unit Outcome) :
    ∀ u b, (job u).2 = some key → (s'.finish t rest).session u = .active b →
      b.answered = [] ∨ (s'.finish t rest).owns u balance.id := by
  intro u b hu hb
  rw [State.finish_session,hses] at hb
  split at hb
  · contradiction
  · rename_i hne
    refine (h.owns u b hu hb).imp_right (fun ho => ?_)
    obtain ⟨m,hm,hx⟩ := State.owns_iff.mp ho
    exact State.owns_iff.mpr ⟨m,by simp [hheld,hm,hne],hx⟩

variable (hw : db₀.WellFormed) (hb : db₀.balanceOf payload.accountId payload.currency = some balance)

omit [DecidableEq T] in
include hb in
/-- The balance row is there in every later state. -/
theorem balanceOf_later {db : UserDb} (h : Later db₀ db) :
    ∃ b, db.balanceOf payload.accountId payload.currency = some b ∧ b.id = balance.id := by
  have := h.balanceOf_id payload.accountId payload.currency
  rw [hb] at this
  exact Option.map_eq_some_iff.mp this

include hw hb

/-- The first statement of a run waits for the balance row. -/
theorem Crediting.owns_first (h : Crediting job ids db₀ payload key amount balance s) {t : T}
    {a : Active Res Write Uuid Unit Outcome} (ht : (job t).2 = some key)
    (ha : s.session t = .active a) {st : Stmt} {k : Res st → Tx Stmt Res Unit}
    (hc : a.cur = .exec st k)
    (hrows : ∀ r ∈ (server true).reads st ((server true).view s.db a), s.owns t r) :
    s.owns t balance.id := by
  rcases h.owns t a ht ha with hnil | ho
  · have hpath := (h.sound.follows.active t a ha).2
    rw [(h.unfailed.active t a ht ha).1,hnil,BalanceMessage.call,BalanceCall.body,
      depositAndCreateOutboxEvent_eq] at hpath
    rcases hpath.cases_exec with ⟨-,hcur⟩ | ⟨r,rest,hne,-⟩
    · rw [hc] at hcur
      cases hcur
      have hlater : Later db₀ ((server true).view s.db a) :=
        h.sound.discipline.later.applyAll a.pending
      obtain ⟨b,hbal,hid⟩ := balanceOf_later hb hlater
      refine hrows balance.id ?_
      rw [server_reads,Stmt.rows,ofAccounts_eq (hlater.wellFormed hw),hbal]
      simp [hid]
    · contradiction
  · exact ho

theorem Crediting.next (hnn : db₀.NonNegative) (hpos : 0 ≤ amount)
    (h : Crediting job ids db₀ payload key amount balance s) {act : SessionAction Uuid T}
    (hq : Quiet (fun t => (job t).2 = some key) s act) (hs : (server true).next s act = some s') :
    Crediting job ids db₀ payload key amount balance s' := by
  obtain ⟨b,hbal,-⟩ := balanceOf_later hb h.sound.discipline.later
  have hbm := ((h.sound.wellFormed hw).balanceOf_eq_some.mp hbal).1
  have hpay : (BalanceMessage.depositPaidSuccess payload).payable amount s.db := by
    have := h.sound.nonNegative hw hnn b hbm
    simp only [BalanceMessage.payable,hbal,decide_eq_true_eq]
    omega
  refine ⟨h.sound.next hw hs,?_,h.unrecorded.next h.sound h.one_inFlight hs,?_⟩
  · refine h.unfailed.next hw h.sound h.unrecorded (fun _ => hpay) ?_ hq hs
    simp [BalanceMessage.payer,BalanceMessage.currency,hbal]
  · cases act with
    | «begin» t =>
      obtain ⟨body,next,-,rfl⟩ := Server.next_begin hs
      exact h.owns_setActive rfl (fun _ _ _ => id) (fun _ => .inl rfl)
    | start t plan =>
      obtain ⟨a,st,k,ha,-,-,-,rfl⟩ := Server.next_start hs
      exact h.owns_setActive rfl (fun _ _ _ => id) (fun ht => h.owns t a ht ha)
    | lock t =>
      obtain ⟨a,r,mode,plan,ha,-,-,rfl⟩ := Server.next_lock hs
      have hheld : ∀ v q n, (v,q,n) ∈ s.held → (v,q,n) ∈ (s.takeLock t r mode).held :=
        fun v q n hm => by simp [hm]
      refine h.owns_setActive rfl hheld (fun ht => (h.owns t a ht ha).imp_right (fun ho => ?_))
      obtain ⟨m,hm,hx⟩ := State.owns_iff.mp ho
      exact State.owns_iff.mpr ⟨m,hheld _ _ _ hm,hx⟩
    | exec t =>
      obtain ⟨a,st,k,ha,hc,-,hrows,-,⟨r,ws,-,rfl⟩ | ⟨e,-,rfl⟩⟩ := Server.next_exec hs
      · exact h.owns_setActive rfl (fun _ _ _ => id)
          (fun ht => .inr (h.owns_first hw hb ht ha hc hrows))
      · exact h.owns_finish rfl rfl _
    | commit t =>
      obtain ⟨a,x,ha,-,rfl⟩ := Server.next_commit hs
      exact h.owns_finish rfl rfl _
    | rollback t =>
      obtain ⟨a,e,ha,-,rfl⟩ := Server.next_rollback hs
      exact h.owns_finish rfl rfl _
    | abort t =>
      obtain ⟨a,ha,rfl⟩ := Server.next_abort hs
      exact h.owns_finish rfl rfl _

end Deposit

/-- However the runs of a deposit message interleave with each other and with the handling of other
messages, the deposit is credited once, recorded once and reported once, and never as failed. -/
theorem deposit_redelivery_idempotent {T : Type} [DecidableEq T]
    (job : T → BalanceMessage × Option Uuid) (ids : T → RunIds) (payload : DepositPaidSuccessPayload)
    (key : Uuid) (amount : ℤ) (ha : stringToBigInt payload.amount = some amount) (hpos : 0 ≤ amount)
    (db₀ : UserDb) (hw : db₀.WellFormed) (hnn : db₀.NonNegative) (balance : Balance)
    (hb : db₀.balanceOf payload.accountId payload.currency = some balance)
    (hnew : db₀.processed key = none)
    (hkey : ∀ t, (job t).2 = some key → (job t).1 = .depositPaidSuccess payload)
    (schedule : List (SessionAction Uuid T)) (s : UserState T)
    (hquiet : Transition.Along (server true).next (Quiet (fun t => (job t).2 = some key))
      (Server.initial db₀ (handlers job ids)) schedule)
    (hs : Transition.runs (server true).next (Server.initial db₀ (handlers job ids)) schedule = some s)
    (hn : ∃ t, (job t).2 = some key)
    (hdone : ∀ t, (job t).2 = some key → ∃ o, s.session t = .idle (.done o)) :
    s.db = (server true).applyAll db₀ (s.log.flatMap (·.writes)) ∧
    ∃ t, (job t).2 = some key ∧
      ownWrites job key s.log = depositWrites key amount payload.transactionId payload.eventId
        (ids t).processedId (ids t).outboxId balance.id ∧
      recordsOf key s.db = [⟨(ids t).processedId,key,.depositPaidSuccess⟩] := by
  have hkey0 : recordsOf key db₀ = [] := by
    by_contra hne
    have := hasKey_iff_recordsOf.mpr hne
    simp [UserDb.hasKey,hnew] at this
  have h0 : Crediting job ids db₀ payload key amount balance
      (Server.initial db₀ (handlers job ids)) := by
    refine ⟨.initial,.initial hkey ha,fun t _ hf => ?_,fun t a _ h => by contradiction⟩
    obtain ⟨a,h,-⟩ := hf
    contradiction
  have h : Crediting job ids db₀ payload key amount balance s := Transition.runs_invariant
    (I := Crediting job ids db₀ payload key amount balance)
    (fun _ _ _ hi hg hn => hi.next hw hb hnn hpos hg hn) h0 hquiet hs
  have hother : ∀ c ∈ s.log, c.body.Every (Stmt.Within (job c.session).2.toList) := by
    intro c hc
    obtain ⟨next,hsuf⟩ := h.sound.follows.log c hc
    exact (hsuf.every ((job c.session).1.handle_within (ids c.session) (job c.session).2)).1
  have hser := h.sound.twoPhase.serial
  refine ⟨hser.db_eq,?_⟩
  obtain ⟨t,ht⟩ := hn
  have hlog : t ∈ s.log.map (·.session) := by
    obtain ⟨o,ho⟩ := hdone t ht
    rcases h.unfailed.idle t _ ht ho with hp | ⟨-,hp⟩
    · contradiction
    · exact hp
  obtain ⟨c,hc,rfl⟩ := List.mem_map.mp hlog
  rcases (ownWrites_of_serial hw hkey0 hser h.unfailed.log hother).2 with
    ⟨hno,-⟩ | ⟨d,-,hdk,hwr,hrec⟩
  · exact absurd ht (hno c hc)
  · refine ⟨d.session,hdk,?_,hrec⟩
    rw [hwr]
    simp [BalanceMessage.writes,BalanceMessage.moves,BalanceMessage.resultEvent,
      BalanceMessage.payer,BalanceMessage.currency,hb,depositWrites,BalanceMessage.topic,
      BalanceMessage.successTopic,BalanceMessage.resultPayload]

/-- Two runs of one deposit message and a transfer from the same balance, all waiting for its row. -/
theorem deposit_redelivery_idempotent_twice :
    ∃ s : UserState (Fin 3), s.db.balances.map (·.amount) = [70,30] ∧
      ∃ t : Fin 3, ownWrites (fun t => if t = 2 then (.transferInited ⟨41,50,51,10,20,"RUB","30"⟩,some 8)
          else (.depositPaidSuccess ⟨40,30,10,"RUB","100"⟩,some 7)) 7 s.log =
        depositWrites 7 100 30 40 (60+t) (70+t) 1 := by
  let job : Fin 3 → BalanceMessage × Option Uuid := fun t =>
    if t = 2 then (.transferInited ⟨41,50,51,10,20,"RUB","30"⟩,some 8)
    else (.depositPaidSuccess ⟨40,30,10,"RUB","100"⟩,some 7)
  let ids : Fin 3 → RunIds := fun t => ⟨60+t,70+t,80+t⟩
  let db₀ : UserDb := ⟨[⟨1,0,"RUB",10,none⟩,⟨2,0,"RUB",20,none⟩],[],[]⟩
  let schedule : List (SessionAction Uuid (Fin 3)) :=
    [.begin 0,.begin 1,.begin 2,.start 2 [],.exec 2,.start 0 [(1,.update)],.lock 0,
      .start 1 [(1,.update)],.start 2 [(1,.update),(2,.update)],.exec 0,.start 0 [],.exec 0,
      .start 0 [(1,.noKeyUpdate)],.lock 0,.exec 0,.start 0 [],.exec 0,.start 0 [(1,.keyShare)],
      .lock 0,.exec 0,.commit 0,
      .lock 2,.lock 2,.exec 2,.start 2 [(1,.noKeyUpdate)],.lock 2,.exec 2,
      .start 2 [(2,.noKeyUpdate)],.lock 2,.exec 2,.start 2 [],.exec 2,.start 2 [(1,.keyShare)],
      .lock 2,.exec 2,.commit 2,
      .lock 1,.exec 1,.start 1 [],.exec 1,.commit 1]
  let run := Transition.runs (server true).next (Server.initial db₀ (handlers job ids)) schedule
  have hrun : run.map (fun s => (s.db.balances.map (·.amount),(s.session 0).finished,
      (s.session 1).finished)) = some ([70,30],true,true) := by decide
  obtain ⟨s,hs,hfacts⟩ := Option.map_eq_some_iff.mp hrun
  simp only [Prod.mk.injEq] at hfacts
  obtain ⟨hamounts,h0,h1⟩ := hfacts
  have hnn : db₀.NonNegative := by
    unfold UserDb.NonNegative
    decide
  have hdone : ∀ t, (job t).2 = some 7 → ∃ o, s.session t = .idle (.done o) := by
    intro t ht
    fin_cases t
    · exact Session.finished_iff.mp h0
    · exact Session.finished_iff.mp h1
    · exact absurd ht (by decide)
  obtain ⟨-,t,-,hown,-⟩ := deposit_redelivery_idempotent job ids ⟨40,30,10,"RUB","100"⟩ 7 100
    (by decide) (by decide) db₀ ⟨by decide,by decide⟩ hnn ⟨1,0,"RUB",10,none⟩ (by decide) (by decide)
    (by decide) schedule s (quiet_of_no_abort (by decide) _) hs ⟨0,by decide⟩ hdone
  exact ⟨s,hamounts,t,hown⟩

/-- The handler looks at no sign. A negative amount breaks the CHECK of the balance, so that both runs
of the message report a failure and nothing is credited. -/
theorem negative_deposit_is_refused :
    ∃ (schedule : List (SessionAction Uuid Bool)) (s : UserState Bool),
      stringToBigInt "-100" = some (-100) ∧ (∀ a ∈ schedule, a.aborts = false) ∧
      Transition.runs (server true).next (Server.initial ⟨[⟨1,50,"RUB",10,none⟩],[],[]⟩
        (handlers (fun _ => (.depositPaidSuccess ⟨40,30,10,"RUB","-100"⟩,some 7))
          (fun t => bif t then ⟨61,62,63⟩ else ⟨71,72,73⟩))) schedule = some s ∧
      (∀ t, ∃ o, s.session t = .idle (.done o)) ∧
      s.db.balances.map (·.amount) = [50] ∧ s.db.processedEvents = [] ∧
      s.db.outboxEvents.map (·.topic) = [.depositCreditingFailed,.depositCreditingFailed] := by
  let schedule : List (SessionAction Uuid Bool) :=
    [.begin true,.begin false,.start true [(1,.update)],.lock true,.start false [(1,.update)],
      .exec true,.start true [],.exec true,.start true [(1,.noKeyUpdate)],.lock true,.exec true,
      .lock false,.exec false,.start false [],.exec false,.start false [(1,.noKeyUpdate)],
      .lock false,.exec false,
      .begin true,.start true [],.exec true,.start true [(1,.keyShare)],.lock true,.exec true,
      .commit true,.begin false,.start false [],.exec false,.start false [(1,.keyShare)],
      .lock false,.exec false,.commit false]
  let start : UserState Bool := Server.initial ⟨[⟨1,50,"RUB",10,none⟩],[],[]⟩
    (handlers (fun _ => (.depositPaidSuccess ⟨40,30,10,"RUB","-100"⟩,some 7))
      (fun t => bif t then ⟨61,62,63⟩ else ⟨71,72,73⟩))
  have hrun : (Transition.runs (server true).next start schedule).map (fun s =>
      (s.db.balances.map (·.amount),s.db.processedEvents,s.db.outboxEvents.map (·.topic),
        (s.session true).finished,(s.session false).finished)) =
      some ([50],[],[.depositCreditingFailed,.depositCreditingFailed],true,true) := by decide
  obtain ⟨s,hs,hfacts⟩ := Option.map_eq_some_iff.mp hrun
  simp only [Prod.mk.injEq] at hfacts
  obtain ⟨hamounts,hprocessed,htopics,h1,h2⟩ := hfacts
  refine ⟨schedule,s,by decide,by decide,hs,?_,hamounts,hprocessed,htopics⟩
  rintro (_ | _)
  · exact Session.finished_iff.mp h2
  · exact Session.finished_iff.mp h1

end NestHomework.UserService
