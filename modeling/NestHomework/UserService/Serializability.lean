import NestHomework.UserService.Bodies

/-! The balance operations of the repository are serializable, although `READ COMMITTED` alone does
not promise it. -/
namespace NestHomework.UserService
open Contracts Postgres

/-- Every interleaving of balance operations leaves the balances, the keys and the outbox rows of
a serial execution of those that committed. -/
theorem balance_operations_serializable (check : Bool) {T : Type} [DecidableEq T]
    (call : T → BalanceCall) (db : UserDb)
    (s : State Res UserDb Write Uuid Uuid Unit (Except String Unit) T)
    (h : (server check).Reachable db (fun t => .transaction (call t).body .done) s) :
    ∃ order : List T, order.Nodup ∧
      (∀ t, t ∈ order ↔ s.session t = .idle (.done (.ok ()))) ∧
      (server check).serial db (order.map (fun t => (call t).body)) = .ok s.db := by
  obtain ⟨order,hn,hm,hs⟩ :=
    Server.exists_serial_order (fun t => (call t).guarded check) h
  exact ⟨order,hn,fun t => (hm t).trans ⟨fun ⟨_,hv⟩ => hv,fun hv => ⟨(),hv⟩⟩,hs⟩

theorem balance_operations_serializable_opposite :
    ∃ s : State Res UserDb Write Uuid Uuid Unit (Except String Unit) Bool,
      ∃ order : List Bool, order.Nodup ∧
        (∀ t, t ∈ order ↔ s.session t = .idle (.done (.ok ()))) ∧
        (server true).serial ⟨[⟨1,50,"RUB",10,none⟩,⟨2,0,"RUB",20,none⟩],[],[]⟩
          (order.map (fun t => (bif t then BalanceCall.transfer 5 10 20 "RUB" 40 60 61 62 63 64
            else .transfer 6 20 10 "RUB" 30 70 71 72 73 74).body)) = .ok s.db ∧
        s.db.balances.map (·.amount) = [40,10] := by
  let call : Bool → BalanceCall := fun t => bif t then .transfer 5 10 20 "RUB" 40 60 61 62 63 64
    else .transfer 6 20 10 "RUB" 30 70 71 72 73 74
  let schedule : List (SessionAction Uuid Bool) :=
    [.begin true,.begin false,.start true [],.exec true,.start false [],.exec false,
      .start true [(1,.update),(2,.update)],.lock true,
      .start false [(1,.update),(2,.update)],.lock true,.exec true,
      .start true [(1,.noKeyUpdate)],.lock true,.exec true,
      .start true [(2,.noKeyUpdate)],.lock true,.exec true,
      .start true [],.exec true,.start true [(1,.keyShare)],.lock true,.exec true,.commit true,
      .lock false,.lock false,.exec false,
      .start false [(2,.noKeyUpdate)],.lock false,.exec false,
      .start false [(1,.noKeyUpdate)],.lock false,.exec false,
      .start false [],.exec false,.start false [(2,.keyShare)],.lock false,.exec false,
      .commit false]
  let run := Transition.runs (server true).next
    (Server.initial (ω := Except String Unit) ⟨[⟨1,50,"RUB",10,none⟩,⟨2,0,"RUB",20,none⟩],[],[]⟩
      (fun t => .transaction (call t).body .done)) schedule
  have hamounts : run.map (fun s => s.db.balances.map (·.amount)) = some [40,10] := by decide
  obtain ⟨s,hs,ha⟩ := Option.map_eq_some_iff.mp hamounts
  obtain ⟨order,hn,hm,hser⟩ := balance_operations_serializable true call _ s ⟨schedule,hs⟩
  exact ⟨s,order,hn,hm,hser,ha⟩

end NestHomework.UserService
