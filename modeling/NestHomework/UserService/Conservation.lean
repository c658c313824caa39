import NestHomework.UserService.Commits

/-! Balance operations conserve money. The history of commits replays serially, so what one
operation does alone tells what every commit of a run does. -/
namespace NestHomework.UserService
open Contracts Postgres

def UserDb.NonNegative (db : UserDb) : Prop := ∀ b ∈ db.balances, 0 ≤ b.amount

/-- All the money of a currency. -/
def UserDb.total (db : UserDb) (currency : String) : ℤ :=
  ((db.balances.filter (fun b => b.currency = currency)).map (·.amount)).sum

/-- Row by row, only the balances of these accounts in this currency differ, and only in their
amounts. -/
def Untouched (accountIds : List Uuid) (currency : String) (db db' : UserDb) : Prop :=
  List.Forall₂ (fun b b' => b'.frozen = b.frozen ∧
    (¬(b.accountId ∈ accountIds ∧ b.currency = currency) → b' = b)) db.balances db'.balances

/-- One row, and no other, has more by the amount. -/
def RaisedOnce (accountId : Uuid) (currency : String) (amount : ℤ) (db db' : UserDb) : Prop :=
  ∃ l b r, db.balances = l++b::r ∧ b.accountId = accountId ∧ b.currency = currency ∧
    db'.balances = l++{b with amount := b.amount+amount}::r

/-- What a committed call may do to the balances. -/
def BalanceCall.Conserves : BalanceCall → UserDb → UserDb → Prop
  | .deposit idempotencyKey currency amount accountId _ _ _ _, db, db' =>
    db.processed idempotencyKey = none → RaisedOnce accountId currency amount db db'
  | .transfer _ fromAccountId toAccountId currency _ _ _ _ _ _, db, db' =>
    db'.NonNegative ∧ (∀ c, db'.total c = db.total c) ∧
      Untouched [fromAccountId,toAccountId] currency db db'
  | _, _, _ => True

def BalanceCall.AmountNonNegative : BalanceCall → Prop
  | .deposit _ _ amount _ _ _ _ _ => 0 ≤ amount
  | .transfer _ _ _ _ amount _ _ _ _ _ => 0 ≤ amount
  | _ => True

section Rows
variable {db : UserDb} {b : Balance}

theorem addAmount_split (hw : db.WellFormed) (hb : b ∈ db.balances) :
    ∃ l r, db.balances = l++b::r ∧ ∀ x, ((Write.addAmount b.id x).apply db).balances =
      l++{b with amount := b.amount+x}::r := by
  obtain ⟨l,r,h⟩ := List.append_of_mem hb
  refine ⟨l,r,h,fun x => ?_⟩
  have hnd := hw.ids
  rw [h,List.map_append,List.map_cons,List.nodup_append,List.nodup_cons] at hnd
  obtain ⟨-,⟨hr,-⟩,hl⟩ := hnd
  have hkeep : ∀ m : List Balance, (∀ c ∈ m, c.id ≠ b.id) →
      m.map (fun c => if c.id = b.id then {c with amount := c.amount+x} else c) = m := by
    intro m hm
    rw [List.map_congr_left (fun c hc => if_neg (hm c hc)),List.map_id']
  simp only [Write.apply,h,List.map_append,List.map_cons,if_true]
  rw [hkeep l,hkeep r]
  · intro c hc he
    exact hr (he ▸ List.mem_map_of_mem hc)
  · intro c hc he
    exact hl _ (List.mem_map_of_mem hc) _ (by simp) he

theorem total_addAmount (hw : db.WellFormed) (hb : b ∈ db.balances) (x : ℤ) (currency : String) :
    ((Write.addAmount b.id x).apply db).total currency =
      db.total currency+if b.currency = currency then x else 0 := by
  obtain ⟨l,r,h,h'⟩ := addAmount_split hw hb
  unfold UserDb.total
  rw [h',h]
  by_cases hc : b.currency = currency <;> simp [hc]
  omega

theorem NonNegative.addAmount (h : db.NonNegative) (hw : db.WellFormed) (hb : b ∈ db.balances)
    {x : ℤ} (hx : 0 ≤ b.amount+x) : ((Write.addAmount b.id x).apply db).NonNegative := by
  obtain ⟨l,r,he,he'⟩ := addAmount_split hw hb
  intro c hc
  rw [he'] at hc
  simp only [List.mem_append,List.mem_cons] at hc
  rcases hc with hc | rfl | hc
  · exact h c (by simp [he,hc])
  · exact hx
  · exact h c (by simp [he,hc])

theorem wellFormed_addAmount (hw : db.WellFormed) (id : Uuid) (x : ℤ) :
    ((Write.addAmount id x).apply db).WellFormed :=
  Later.wellFormed (Similar.right (.addAmount id x) (Similar.refl _ _ db) (fun _ _ h => h)
    (fun _ _ h => h)) hw

theorem NonNegative.reset (check : Bool) (h : db.NonNegative) (ids : List Uuid) :
    ((server check).applyAll db (ids.map (fun id => .setAmount id 0))).NonNegative := by
  induction ids generalizing db with
  | nil => exact h
  | cons id ids ih =>
    refine ih (fun b hb => ?_)
    obtain ⟨c,hc,rfl⟩ := List.mem_map.mp hb
    split
    · exact le_refl 0
    · exact h c hc

/-- A statement that passes the sign constraint keeps the amounts non-negative. -/
theorem NonNegative.exec (h : db.NonNegative) (hw : db.WellFormed) {s : Stmt} {r : Res s}
    {ws : List Write} (he : (server true).exec s db = .ok (r,ws)) :
    ((server true).applyAll db ws).NonNegative := by
  cases s with
  | updateBalance id x =>
    simp only [server_exec,Stmt.exec] at he
    cases hb : db.balance id with
    | none => simp [hb] at he
    | some b =>
      simp only [hb,Bool.true_and,decide_eq_true_eq] at he
      split at he
      · contradiction
      · rename_i hx
        cases he
        obtain ⟨hbm,rfl⟩ := mem_balance hb
        exact NonNegative.addAmount h hw hbm (by omega)
  | updateAllBalances =>
    cases he
    have := NonNegative.reset true h (db.balances.map (·.id))
    rw [List.map_map] at this
    exact this
  | createProcessedEvent data =>
    simp only [server_exec,Stmt.exec] at he
    split at he <;> cases he
    exact h
  | createOutboxEvent data =>
    simp only [server_exec,Stmt.exec] at he
    split at he <;> cases he
    exact h
  | _ =>
    cases he
    exact h

/-- A body that commits keeps the amounts non-negative. -/
theorem NonNegative.run (h : db.NonNegative) (hw : db.WellFormed) {p : Tx Stmt Res Unit}
    {x : Unit × List Write} (hr : (server true).run none p db = .ok x) :
    ((server true).applyAll db x.2).NonNegative := by
  induction p generalizing db x with
  | pure a =>
    rw [Engine.run_pure] at hr
    cases hr
    exact h
  | throw e =>
    rw [Engine.run_throw] at hr
    contradiction
  | exec s k ih =>
    cases he : (server true).exec s db with
    | error e =>
      rw [Engine.run_exec_error he] at hr
      contradiction
    | ok y =>
      obtain ⟨r,ws⟩ := y
      rw [Engine.run_exec_ok he] at hr
      have hw' : ((server true).applyAll db ws).WellFormed :=
        Later.wellFormed (Later.applyAll (Similar.refl _ _ db) ws) hw
      cases hrest : (server true).run none (k r) ((server true).applyAll db ws) with
      | error e => simp [hrest,Except.map] at hr
      | ok z =>
        simp only [hrest,Except.map,Except.ok.injEq] at hr
        subst hr
        rw [Engine.applyAll_append]
        exact ih r (NonNegative.exec h hw he) hw' hrest

end Rows

section Deposit
variable (check : Bool) {db : UserDb} {b : Balance} (hw : db.WellFormed) (hb : b ∈ db.balances)
  (idempotencyKey : Uuid) (amount : ℤ) (transactionId eventId processedId outboxId : Uuid)
include hw hb

theorem depositWrites_raisedOnce :
    RaisedOnce b.accountId b.currency amount db ((server check).applyAll db
      (depositWrites idempotencyKey amount transactionId eventId processedId outboxId b.id)) := by
  obtain ⟨l,r,h,h'⟩ := addAmount_split hw hb
  exact ⟨l,b,r,h,rfl,rfl,h' amount⟩

theorem depositWrites_nonNegative (hnn : db.NonNegative) (ha : 0 ≤ amount) :
    ((server check).applyAll db (depositWrites idempotencyKey amount transactionId eventId
      processedId outboxId b.id)).NonNegative :=
  NonNegative.addAmount hnn hw hb (x := amount) (by have := hnn b hb; omega)

end Deposit

section Transfer
variable (check : Bool) {db : UserDb} {sender receiver : Balance} (hw : db.WellFormed)
  (hs : sender ∈ db.balances) (hr : receiver ∈ db.balances) (hne : receiver.id ≠ sender.id)
  (idempotencyKey : Uuid) (amount : ℤ) (eventId outId inId processedId outboxId : Uuid)

include hr hne in
/-- The receiver is still there after the sender has paid. -/
theorem receiver_mem : receiver ∈ ((Write.addAmount sender.id (-amount)).apply db).balances :=
  List.mem_map.mpr ⟨receiver,hr,if_neg hne⟩

include hw hs hr hne

theorem transferWrites_total (hc : sender.currency = receiver.currency) (currency : String) :
    ((server check).applyAll db (transferWrites idempotencyKey amount eventId outId inId processedId
      outboxId sender.id receiver.id)).total currency = db.total currency := by
  have h1 := total_addAmount hw hs (-amount) currency
  have h2 := total_addAmount (wellFormed_addAmount hw sender.id (-amount))
    (receiver_mem hr hne amount) amount currency
  calc
    _ = ((Write.addAmount receiver.id amount).apply
        ((Write.addAmount sender.id (-amount)).apply db)).total currency := rfl
    _ = db.total currency := by
      rw [h2,h1,hc]
      split <;> omega

theorem transferWrites_nonNegative (hnn : db.NonNegative) (ha : 0 ≤ amount)
    (hfunds : amount ≤ sender.amount) :
    ((server check).applyAll db (transferWrites idempotencyKey amount eventId outId inId processedId
      outboxId sender.id receiver.id)).NonNegative := by
  have h1 := NonNegative.addAmount hnn hw hs (x := -amount) (by omega)
  exact NonNegative.addAmount h1 (wellFormed_addAmount hw sender.id (-amount))
    (receiver_mem hr hne amount) (x := amount) (by have := hnn receiver hr; omega)

omit hne in
theorem transferWrites_untouched (hc : sender.currency = receiver.currency) :
    Untouched [sender.accountId,receiver.accountId] sender.currency db ((server check).applyAll db
      (transferWrites idempotencyKey amount eventId outId inId processedId outboxId sender.id
        receiver.id)) := by
  have hstep : ∀ c ∈ db.balances, ∀ d ∈ db.balances, ¬(d.accountId ∈
      [sender.accountId,receiver.accountId] ∧ d.currency = sender.currency) →
      (c = sender ∨ c = receiver) → d.id ≠ c.id := by
    rintro c hcm d hdm hout (rfl | rfl) he <;>
      exact hout (by simp [hw.eq_of_id hdm hcm he,hc])
  refine List.forall₂_map_right_iff.mpr (List.forall₂_map_right_iff.mpr ?_)
  refine List.forall₂_same.mpr (fun d hd => ⟨?_,fun hout => ?_⟩)
  · split <;> split <;> rfl
  · rw [if_neg (hstep sender hs d hd hout (.inl rfl)),
      if_neg (hstep receiver hr d hd hout (.inr rfl))]

end Transfer

section Calls
variable {check : Bool} {db : UserDb} {ws : List Write}

/-- What the commit of a call does, when it runs alone. -/
theorem BalanceCall.conserves (c : BalanceCall) (ha : c.AmountNonNegative) (hw : db.WellFormed)
    (hnn : db.NonNegative) (h : (server check).run none c.body db = .ok ((),ws)) :
    c.Conserves db ((server check).applyAll db ws) ∧
      ((server check).applyAll db ws).NonNegative := by
  cases c with
  | deposit key currency amount accountId transactionId eventId processedId outboxId =>
    rw [BalanceCall.body,deposit_run hw,depositAlone] at h
    split at h
    · contradiction
    · rename_i b hb
      obtain ⟨hbm,rfl,rfl⟩ := hw.balanceOf_eq_some.mp hb
      split at h
      · rename_i hp
        cases h
        exact ⟨fun hn => by simp [hn] at hp,hnn⟩
      · split at h
        · contradiction
        · cases h
          exact ⟨fun _ => depositWrites_raisedOnce check hw hbm _ _ _ _ _ _,
            depositWrites_nonNegative check hw hbm _ _ _ _ _ _ hnn ha⟩
  | transfer key fromAccountId toAccountId currency amount eventId outId inId processedId outboxId =>
    have hsame : Untouched [fromAccountId,toAccountId] currency db db :=
      List.forall₂_same.mpr (fun _ _ => ⟨rfl,fun _ => rfl⟩)
    rw [BalanceCall.body,transfer_run hw,transferAlone] at h
    split at h
    · cases h
      exact ⟨⟨hnn,fun _ => rfl,hsame⟩,hnn⟩
    · split at h
      · contradiction
      · rename_i hne
        split at h
        · rename_i sender receiver hs hr
          obtain ⟨hsm,rfl,hsc⟩ := hw.balanceOf_eq_some.mp hs
          obtain ⟨hrm,rfl,hrc⟩ := hw.balanceOf_eq_some.mp hr
          have hid : receiver.id ≠ sender.id := fun he => hne (by rw [hw.eq_of_id hrm hsm he])
          have hcur := hsc.trans hrc.symm
          split at h
          · contradiction
          · split at h
            · contradiction
            · rename_i hfunds
              split at h
              · contradiction
              · cases h
                have hnn' := transferWrites_nonNegative check hw hsm hrm hid key amount
                  eventId outId inId processedId outboxId hnn ha (by omega)
                exact ⟨⟨hnn',transferWrites_total check hw hsm hrm hid _ _ _ _ _ _ _ hcur,
                  hsc ▸ transferWrites_untouched check hw hsm hrm _ _ _ _ _ _ _ hcur⟩,hnn'⟩
        · contradiction
  | createOutboxEvent accountId currency topic payload outboxId =>
    rw [BalanceCall.body,createOutboxEvent_run hw] at h
    split at h
    · contradiction
    · cases h
      exact ⟨trivial,hnn⟩
  | reset =>
    rw [BalanceCall.body,resetAllBalances_run] at h
    cases h
    have := NonNegative.reset check hnn (db.balances.map (·.id))
    rw [List.map_map] at this
    exact ⟨trivial,this⟩

end Calls

section Runs
variable {check : Bool} {T : Type} {call : T → BalanceCall} {db₀ db : UserDb}
  {log : List (Commit Res Write Unit T)}

/-- Serial commits keep the balances one for each account and currency, and non-negative. -/
theorem nonNegative_of_serial (hw : db₀.WellFormed) (hnn : db₀.NonNegative)
    (hpos : ∀ t, (call t).AmountNonNegative) (h : Server.Serial (server check) db₀ log db)
    (hbody : ∀ c ∈ log, c.body = (call c.session).body) : db.WellFormed ∧ db.NonNegative := by
  induction h with
  | nil => exact ⟨hw,hnn⟩
  | @snoc log db c _ alone ih =>
    obtain ⟨hw',hnn'⟩ := ih (fun d hd => hbody d (by simp [hd]))
    rw [hbody c (by simp)] at alone
    exact ⟨Later.wellFormed (Later.applyAll (Similar.refl _ _ db) c.writes) hw',
      ((call c.session).conserves (hpos _) hw' hnn' alone).2⟩

/-- In every run of balance operations each commit conserves money, whether or not the database
checks the sign of the amounts. -/
theorem balance_runs_conserve_money (check : Bool) {T : Type} [DecidableEq T]
    (call : T → BalanceCall) (hpos : ∀ t, (call t).AmountNonNegative) (db₀ : UserDb)
    (hw : db₀.WellFormed) (hnn : db₀.NonNegative)
    (s : State Res UserDb Write Uuid Uuid Unit (Except String Unit) T)
    (h : (server check).Reachable db₀ (fun t => .transaction (call t).body .done) s) :
    s.db = (server check).applyAll db₀ (s.log.flatMap (·.writes)) ∧
    ∀ before c after, s.log = before++c::after →
      (call c.session).Conserves
        ((server check).applyAll db₀ (before.flatMap (·.writes)))
        ((server check).applyAll db₀ ((before++[c]).flatMap (·.writes))) := by
  have hser := (Server.TwoPhase.reachable (fun t => ((call t).guarded check).single) h).serial
  have hbody := (Server.Accounted.reachable h).bodies
  refine ⟨hser.db_eq,fun before c after hlog => ?_⟩
  obtain ⟨db,hbefore,alone⟩ := hser.split hlog
  obtain ⟨hw',hnn'⟩ := nonNegative_of_serial hw hnn hpos hbefore
    (fun d hd => hbody d (by simp [hlog,hd]))
  rw [hbody c (by simp [hlog])] at alone
  have hc := ((call c.session).conserves (hpos _) hw' hnn' alone).1
  rw [hbefore.db_eq] at hc
  simpa using hc

/-- A deposit to a new account, and a transfer from it to another one while a second transfer that
it cannot fund is rolled back. -/
theorem balance_runs_conserve_money_new_accounts :
    ∃ s : State Res UserDb Write Uuid Uuid Unit (Except String Unit) (Fin 3),
      s.log.map (·.session) = [0,1] ∧
      s.db = (server false).applyAll
        (((⟨[],[],[]⟩ : UserDb).createAccount 10 1 2 3).createAccount 20 4 5 6)
        (s.log.flatMap (·.writes)) ∧
      s.db.total "RUB" = 50 ∧ s.db.NonNegative := by
  let call : Fin 3 → BalanceCall
    | 0 => .deposit 7 "RUB" 50 10 30 31 32 33
    | 1 => .transfer 8 10 20 "RUB" 40 40 41 42 43 44
    | 2 => .transfer 9 20 10 "RUB" 70 50 51 52 53 54
  let db₀ := ((⟨[],[],[]⟩ : UserDb).createAccount 10 1 2 3).createAccount 20 4 5 6
  let schedule : List (SessionAction Uuid (Fin 3)) :=
    [.begin 0,.start 0 [(1,.update)],.lock 0,.exec 0,.start 0 [],.exec 0,
      .start 0 [(1,.noKeyUpdate)],.lock 0,.exec 0,.start 0 [],.exec 0,.start 0 [(1,.keyShare)],
      .lock 0,.exec 0,.commit 0,
      .begin 1,.start 1 [],.exec 1,.start 1 [(1,.update),(4,.update)],.lock 1,.lock 1,.exec 1,
      .begin 2,.start 2 [],.exec 2,.start 2 [(1,.update),(4,.update)],
      .start 1 [(1,.noKeyUpdate)],.lock 1,.exec 1,.start 1 [(4,.noKeyUpdate)],.lock 1,.exec 1,
      .start 1 [],.exec 1,.start 1 [(1,.keyShare)],.lock 1,.exec 1,.commit 1,
      .lock 2,.lock 2,.exec 2,.rollback 2]
  let run := Transition.runs (server false).next
    (Server.initial (ω := Except String Unit) db₀ (fun t => .transaction (call t).body .done))
    schedule
  have hrun : run.map (fun s => (s.log.map (·.session),s.db.balances)) = some ([0,1],
      [⟨1,10,"RUB",10,none⟩,⟨2,0,"USD",10,none⟩,⟨3,0,"USDT",10,none⟩,
        ⟨4,40,"RUB",20,none⟩,⟨5,0,"USD",20,none⟩,⟨6,0,"USDT",20,none⟩]) := by decide
  obtain ⟨s,hs,hlog⟩ := Option.map_eq_some_iff.mp hrun
  obtain ⟨hsession,hdb⟩ := Prod.mk.inj hlog
  have hpos : ∀ t, (call t).AmountNonNegative := by
    intro t
    fin_cases t <;> simp [call,BalanceCall.AmountNonNegative]
  have hw : db₀.WellFormed := ⟨by decide,by decide⟩
  have hnn : db₀.NonNegative := by
    unfold UserDb.NonNegative
    decide
  obtain ⟨hwrites,-⟩ := balance_runs_conserve_money false call hpos db₀ hw hnn s ⟨schedule,hs⟩
  exact ⟨s,hsession,hwrites,by rw [UserDb.total,hdb]; decide,by rw [UserDb.NonNegative,hdb]; decide⟩

end Runs
end NestHomework.UserService
