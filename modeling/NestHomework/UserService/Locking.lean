import Mathlib.Data.List.Forall2
import NestHomework.Postgres.Serializable
import NestHomework.UserService.BalanceRepository

/-! Which rows and index entries the statements of the user service depend on. -/
namespace NestHomework.UserService
open Contracts Postgres

/-- The columns of a balance that no transaction writes. -/
def Balance.frozen (b : Balance) : Balance := {b with amount := 0}

def UserDb.hasKey (db : UserDb) (k : Uuid) : Prop := (db.processed k).isSome

def Stmt.absent : (s : Stmt) → Res s → List Uuid
  | .findUniqueProcessedEvent k, none => [k]
  | .createProcessedEvent data, _ => [data.idempotencyKey]
  | _, _ => []

def Write.touches : Write → List Uuid
  | .addAmount id _ => [id]
  | .setAmount id _ => [id]
  | _ => []

def Write.newKeys : Write → List Uuid
  | .insertProcessedEvent data => [data.idempotencyKey]
  | _ => []

/-- Two rows that a session cannot tell apart unless it has locked them. -/
def SameRow (R : Uuid → Prop) (b c : Balance) : Prop :=
  b.frozen = c.frozen ∧ (R b.id → b = c)

structure Similar (R A : Uuid → Prop) (db db' : UserDb) : Prop where
  balances : List.Forall₂ (SameRow R) db.balances db'.balances
  present : ∀ k e, db.processed k = some e → db'.processed k = some e
  absent : ∀ k, A k → db.processed k = none → db'.processed k = none

theorem SameRow.id_eq {R : Uuid → Prop} {b c : Balance} (h : SameRow R b c) : b.id = c.id :=
  congrArg (·.id) h.1

theorem SameRow.accountId_eq {R : Uuid → Prop} {b c : Balance} (h : SameRow R b c) :
    b.accountId = c.accountId := congrArg (·.accountId) h.1

theorem SameRow.currency_eq {R : Uuid → Prop} {b c : Balance} (h : SameRow R b c) :
    b.currency = c.currency := congrArg (·.currency) h.1

theorem Similar.refl (R A : Uuid → Prop) (db : UserDb) : Similar R A db db :=
  ⟨List.forall₂_same.mpr (fun _ _ => ⟨rfl,fun _ => rfl⟩),fun _ _ h => h,fun _ _ h => h⟩

section Similar
variable {R A : Uuid → Prop} {db db' : UserDb}

theorem forall₂_filter {α : Type*} {P : α → α → Prop} {p : α → Bool} {l l' : List α}
    (h : List.Forall₂ P l l') (hp : ∀ a b, P a b → p a = p b) :
    List.Forall₂ P (l.filter p) (l'.filter p) := by
  induction h with
  | nil => exact .nil
  | @cons a b _ _ hab _ ih =>
    rw [List.filter_cons,List.filter_cons,hp a b hab]
    split
    · exact .cons hab ih
    · exact ih

theorem Similar.ofAccounts (h : Similar R A db db') (accountIds : List Uuid) (currency : String) :
    List.Forall₂ (SameRow R) (db.ofAccounts accountIds currency)
      (db'.ofAccounts accountIds currency) :=
  forall₂_filter h.balances (fun a b hab => by rw [hab.accountId_eq,hab.currency_eq])

theorem map_id_of_forall₂ {l l' : List Balance} (h : List.Forall₂ (SameRow R) l l') :
    l'.map (·.id) = l.map (·.id) := by
  induction h with
  | nil => rfl
  | cons hab _ ih => simp [ih,hab.id_eq]

theorem eq_of_forall₂ {l l' : List Balance} (h : List.Forall₂ (SameRow R) l l')
    (hR : ∀ b ∈ l, R b.id) : l' = l := by
  induction h with
  | nil => rfl
  | cons hab _ ih =>
    simp only [List.mem_cons,forall_eq_or_imp] at hR
    rw [ih hR.2,hab.2 hR.1]

theorem forall₂_orderedInsert {l l' : List Balance} {a b : Balance} (hab : SameRow R a b)
    (h : List.Forall₂ (SameRow R) l l') :
    List.Forall₂ (SameRow R) (l.orderedInsert (fun b c => b.accountId ≤ c.accountId) a)
      (l'.orderedInsert (fun b c => b.accountId ≤ c.accountId) b) := by
  induction h with
  | nil => exact .cons hab .nil
  | @cons c d l l' hcd ht ih =>
    simp only [List.orderedInsert_cons,hab.accountId_eq,hcd.accountId_eq]
    split
    · exact .cons hab (.cons hcd ht)
    · exact .cons hcd ih

theorem forall₂_orderByAccount {l l' : List Balance} (h : List.Forall₂ (SameRow R) l l') :
    List.Forall₂ (SameRow R) (orderByAccount l) (orderByAccount l') := by
  induction h with
  | nil => exact .nil
  | cons hab _ ih => exact forall₂_orderedInsert hab ih

theorem rel_find? {α : Type*} {P : α → α → Prop} {p : α → Bool} {l l' : List α}
    (h : List.Forall₂ P l l') (hp : ∀ a b, P a b → p a = p b) :
    Option.Rel P (l.find? p) (l'.find? p) := by
  induction h with
  | nil => exact .none
  | @cons a b _ _ hab _ ih =>
    rw [List.find?_cons,List.find?_cons,hp a b hab]
    split
    · exact .some hab
    · exact ih

theorem Similar.balance (h : Similar R A db db') (id : Uuid) :
    Option.Rel (SameRow R) (db.balance id) (db'.balance id) :=
  rel_find? h.balances (fun a b hab => by rw [hab.id_eq])

theorem Similar.balance_isSome (h : Similar R A db db') (id : Uuid) :
    (db'.balance id).isSome = (db.balance id).isSome := by
  have hb := h.balance id
  generalize db.balance id = x at hb
  generalize db'.balance id = y at hb
  cases hb <;> rfl

theorem Similar.rows (h : Similar R A db db') (s : Stmt) : s.rows db' = s.rows db := by
  cases s with
  | selectBalanceForUpdate a c => exact map_id_of_forall₂ (h.ofAccounts [a] c)
  | selectBalancesForUpdate as c =>
    exact map_id_of_forall₂ (forall₂_orderByAccount (h.ofAccounts as c))
  | updateBalance id _ => simp only [Stmt.rows,h.balance_isSome]
  | updateAllBalances => exact map_id_of_forall₂ h.balances
  | _ => rfl

end Similar

theorem mem_balance {db : UserDb} {id : Uuid} {b : Balance} (h : db.balance id = some b) :
    b ∈ db.balances ∧ b.id = id :=
  ⟨List.mem_of_find?_eq_some h,by simpa using List.find?_some h⟩

/-- A write outside the locked rows changes no row that the session can tell apart. -/
theorem forall₂_map_right {R : Uuid → Prop} {l l' : List Balance} {f : Balance → Balance}
    (h : List.Forall₂ (SameRow R) l l') (hf : ∀ b, (f b).frozen = b.frozen)
    (hR : ∀ b, R b.id → f b = b) : List.Forall₂ (SameRow R) l (l'.map f) := by
  induction h with
  | nil => exact .nil
  | @cons a b _ _ hab _ ih =>
    refine .cons ⟨hab.1.trans (hf b).symm,fun ha => ?_⟩ ih
    rw [hR b (hab.id_eq ▸ ha)]
    exact hab.2 ha

theorem forall₂_map_both {R : Uuid → Prop} {l l' : List Balance} {f : Balance → Balance}
    (h : List.Forall₂ (SameRow R) l l') (hf : ∀ b, (f b).frozen = b.frozen) :
    List.Forall₂ (SameRow R) (l.map f) (l'.map f) := by
  induction h with
  | nil => exact .nil
  | @cons a b _ _ hab _ ih =>
    refine .cons ⟨by rw [hf,hf,hab.1],fun ha => ?_⟩ ih
    have hid : (f a).id = a.id := congrArg (·.id) (hf a)
    rw [hab.2 (hid ▸ ha)]

theorem processed_append (db : UserDb) (data : ProcessedEvent) (k : Uuid) :
    ((Write.insertProcessedEvent data).apply db).processed k =
      (db.processed k).or (if data.idempotencyKey = k then some data else none) := by
  simp only [UserDb.processed,Write.apply,List.find?_append]
  congr 1
  by_cases h : data.idempotencyKey = k <;> simp [h]

theorem Similar.right {R A : Uuid → Prop} {db db' : UserDb} (w : Write) (h : Similar R A db db')
    (hr : ∀ r ∈ w.touches, ¬R r) (hk : ∀ k ∈ w.newKeys, ¬A k) :
    Similar R A db (w.apply db') := by
  cases w with
  | addAmount id x =>
    refine ⟨forall₂_map_right h.balances (fun b => ?_) (fun b hb => ?_),h.present,h.absent⟩
    · split <;> rfl
    · rw [if_neg]
      rintro rfl
      exact hr b.id (by simp [Write.touches]) hb
  | setAmount id x =>
    refine ⟨forall₂_map_right h.balances (fun b => ?_) (fun b hb => ?_),h.present,h.absent⟩
    · split <;> rfl
    · rw [if_neg]
      rintro rfl
      exact hr b.id (by simp [Write.touches]) hb
  | insertProcessedEvent data =>
    refine ⟨h.balances,fun k e he => ?_,fun k hA hn => ?_⟩
    · rw [processed_append,h.present k e he]
      rfl
    · rw [processed_append,h.absent k hA hn,if_neg]
      · rfl
      · rintro rfl
        exact hk _ (by simp [Write.newKeys]) hA
  | insertOutboxEvent data => exact ⟨h.balances,h.present,h.absent⟩

theorem Similar.both {R A : Uuid → Prop} {db db' : UserDb} (w : Write) (h : Similar R A db db')
    (hk : ∀ k ∈ w.newKeys, A k) : Similar R A (w.apply db) (w.apply db') := by
  cases w with
  | addAmount id x =>
    exact ⟨forall₂_map_both h.balances (fun b => by split <;> rfl),h.present,h.absent⟩
  | setAmount id x =>
    exact ⟨forall₂_map_both h.balances (fun b => by split <;> rfl),h.present,h.absent⟩
  | insertProcessedEvent data =>
    refine ⟨h.balances,fun k e he => ?_,fun k hA hn => ?_⟩
    · rw [processed_append] at he ⊢
      cases hp : db.processed k with
      | some e' =>
        rw [hp] at he
        rw [h.present k e' hp]
        exact he
      | none =>
        rw [hp,Option.none_or] at he
        obtain ⟨rfl,rfl⟩ : data.idempotencyKey = k ∧ data = e := by simpa using he
        rw [h.absent _ (hk _ (by simp [Write.newKeys])) hp]
        simp
    · rw [processed_append] at hn ⊢
      rw [Option.or_eq_none_iff] at hn ⊢
      exact ⟨h.absent k hA hn.1,hn.2⟩
  | insertOutboxEvent data => exact ⟨h.balances,h.present,h.absent⟩

theorem hasKey_apply (db : UserDb) (w : Write) (k : Uuid) :
    (w.apply db).hasKey k ↔ db.hasKey k ∨ k ∈ w.newKeys := by
  cases w with
  | insertProcessedEvent data =>
    simp only [UserDb.hasKey,processed_append,Write.newKeys,List.mem_singleton]
    by_cases h : data.idempotencyKey = k
    · simp [h]
    · simp [h,Ne.symm h]
  | _ => simp [UserDb.hasKey,UserDb.processed,Write.apply,Write.newKeys]

theorem Similar.exec {check : Bool} {R A : Uuid → Prop} {db db' : UserDb} {s : Stmt} {r : Res s}
    {ws : List Write} (h : Similar R A db db') (hR : ∀ q ∈ s.rows db, R q)
    (hA : ∀ k ∈ s.absent r, A k) (he : s.exec check db = .ok (r,ws)) :
    s.exec check db' = .ok (r,ws) := by
  cases s with
  | selectBalanceForUpdate a c =>
    rw [← he]
    simp only [Stmt.exec,map_id_of_forall₂ (h.ofAccounts [a] c)]
  | selectBalancesForUpdate as c =>
    rw [← he]
    simp only [Stmt.exec]
    rw [eq_of_forall₂ (forall₂_orderByAccount (h.ofAccounts as c))
      (fun b hb => hR _ (List.mem_map_of_mem hb))]
  | findFirstBalance a c =>
    rw [← he]
    simp only [Stmt.exec,map_id_of_forall₂ (h.ofAccounts [a] c)]
  | findUniqueProcessedEvent k =>
    simp only [Stmt.exec,Except.ok.injEq,Prod.mk.injEq] at he ⊢
    obtain ⟨rfl,rfl⟩ := he
    refine ⟨?_,rfl⟩
    cases hp : db.processed k with
    | some e => exact h.present k e hp
    | none => exact h.absent k (hA k (by simp [Stmt.absent,hp])) hp
  | updateBalance id x =>
    simp only [Stmt.exec] at he ⊢
    have hb := h.balance id
    cases hdb : db.balance id with
    | none => simp [hdb] at he
    | some b =>
      rw [hdb] at hb he
      have hbR := hR id (by simp [Stmt.rows,hdb])
      cases hdb' : db'.balance id with
      | none => rw [hdb'] at hb; cases hb
      | some c =>
        rw [hdb'] at hb
        cases hb with
        | some hab =>
          rw [← (mem_balance hdb).2] at hbR
          rw [← hab.2 hbR]
          exact he
  | updateAllBalances =>
    rw [← he]
    simp only [Stmt.exec]
    have := map_id_of_forall₂ h.balances
    have hm := congrArg (List.map (fun i => Write.setAmount i 0)) this
    simp only [List.map_map,Function.comp_def] at hm
    rw [hm]
  | createProcessedEvent data =>
    simp only [Stmt.exec] at he ⊢
    split at he
    · contradiction
    · rename_i hn
      have := h.absent data.idempotencyKey (hA _ (by simp [Stmt.absent])) (by simpa using hn)
      rw [this]
      exact he
  | createOutboxEvent data =>
    simp only [Stmt.exec,h.balance_isSome] at he ⊢
    exact he

/-- `db'` is `db` after some writes: the balances differ in their amounts at most, and no processed
key is gone. -/
abbrev Later (db db' : UserDb) : Prop := Similar (fun _ => False) (fun _ => False) db db'

theorem Later.applyAll {check : Bool} {db db' : UserDb} (h : Later db db') (ws : List Write) :
    Later db ((server check).applyAll db' ws) := by
  induction ws generalizing db' with
  | nil => exact h
  | cons w ws ih => exact ih (Similar.right w h (fun _ _ h => h) (fun _ _ h => h))

theorem Later.mem {db db' : UserDb} (h : Later db db') {b : Balance} (hb : b ∈ db'.balances) :
    ∃ c ∈ db.balances, c.frozen = b.frozen := by
  have := h.balances
  generalize db.balances = l at this
  generalize db'.balances = l' at this hb
  induction this with
  | nil => contradiction
  | cons hab _ ih =>
    rcases List.mem_cons.mp hb with rfl | hb
    · exact ⟨_,by simp,hab.1⟩
    · obtain ⟨c,hc,he⟩ := ih hb
      exact ⟨c,by simp [hc],he⟩

/-- One balance for each account and currency, as `AccountRepository.create` inserts them. -/
structure UserDb.WellFormed (db : UserDb) : Prop where
  ids : (db.balances.map (·.id)).Nodup
  accounts : (db.balances.map (fun b => (b.accountId,b.currency))).Nodup

theorem Later.wellFormed {db db' : UserDb} (h : Later db db') (hw : db.WellFormed) :
    db'.WellFormed := by
  have hids : db'.balances.map (·.id) = db.balances.map (·.id) := map_id_of_forall₂ h.balances
  have hacc : db'.balances.map (fun b => (b.accountId,b.currency)) =
      db.balances.map (fun b => (b.accountId,b.currency)) := by
    have := h.balances
    generalize db.balances = l at this
    generalize db'.balances = l' at this
    induction this with
    | nil => rfl
    | cons hab _ ih => simp [ih,hab.accountId_eq,hab.currency_eq]
  exact ⟨hids ▸ hw.ids,hacc ▸ hw.accounts⟩

/-- The server of the user service obeys the laws of two-phase locking. -/
def lawful (check : Bool) : (server check).Lawful where
  hasKey := UserDb.hasKey
  absent := Stmt.absent
  touches := Write.touches
  newKeys := Write.newKeys
  Similar := Similar
  refl := Similar.refl
  right w h := h.right w
  both w h := h.both w
  exec_similar h hR hA he := h.exec hR hA he
  reads_similar s h := h.rows s
  exec_touches {s db r ws} he w hw q hq := by
    cases s with
    | updateBalance id x =>
      simp only [server_exec,Stmt.exec] at he
      cases hb : db.balance id with
      | none => simp [hb] at he
      | some b =>
        simp only [hb] at he
        split at he
        · contradiction
        · simp only [Except.ok.injEq,Prod.mk.injEq] at he
          obtain ⟨-,rfl⟩ := he
          simp_all [Write.touches,Stmt.rows]
    | updateAllBalances =>
      simp only [server_exec,Stmt.exec,Except.ok.injEq,Prod.mk.injEq] at he
      obtain ⟨-,rfl⟩ := he
      obtain ⟨b,hb,rfl⟩ := List.mem_map.mp hw
      simp only [Write.touches,List.mem_singleton] at hq
      subst hq
      exact List.mem_map_of_mem hb
    | createProcessedEvent data =>
      simp only [server_exec,Stmt.exec] at he
      split at he
      · contradiction
      · simp only [Except.ok.injEq,Prod.mk.injEq] at he
        obtain ⟨-,rfl⟩ := he
        simp_all [Write.touches]
    | createOutboxEvent data =>
      simp only [server_exec,Stmt.exec] at he
      split at he
      · simp only [Except.ok.injEq,Prod.mk.injEq] at he
        obtain ⟨-,rfl⟩ := he
        simp_all [Write.touches]
      · contradiction
    | _ =>
      simp only [server_exec,Stmt.exec,Except.ok.injEq,Prod.mk.injEq] at he
      obtain ⟨-,rfl⟩ := he
      simp at hw
  exec_newKeys {s db r ws} he := by
    cases s with
    | updateBalance id x =>
      simp only [server_exec,Stmt.exec] at he
      split at he
      · contradiction
      · split at he
        · contradiction
        · simp only [Except.ok.injEq,Prod.mk.injEq] at he
          obtain ⟨-,rfl⟩ := he
          rfl
    | updateAllBalances =>
      simp only [server_exec,Stmt.exec,Except.ok.injEq,Prod.mk.injEq] at he
      obtain ⟨-,rfl⟩ := he
      simp [Write.newKeys,Stmt.inserts,List.flatMap_map]
    | createProcessedEvent data =>
      simp only [server_exec,Stmt.exec] at he
      split at he
      · contradiction
      · simp only [Except.ok.injEq,Prod.mk.injEq] at he
        obtain ⟨-,rfl⟩ := he
        rfl
    | createOutboxEvent data =>
      simp only [server_exec,Stmt.exec] at he
      split at he
      · simp only [Except.ok.injEq,Prod.mk.injEq] at he
        obtain ⟨-,rfl⟩ := he
        rfl
      · contradiction
    | _ =>
      simp only [server_exec,Stmt.exec,Except.ok.injEq,Prod.mk.injEq] at he
      obtain ⟨-,rfl⟩ := he
      rfl
  exec_absent {s db r ws} he k hk := by
    cases s with
    | findUniqueProcessedEvent key =>
      simp only [server_exec,Stmt.exec,Except.ok.injEq,Prod.mk.injEq] at he
      obtain ⟨rfl,-⟩ := he
      cases hp : db.processed key with
      | some e => simp [Stmt.absent,hp] at hk
      | none =>
        simp only [Stmt.absent,hp,List.mem_singleton] at hk
        simp [UserDb.hasKey,hk,hp]
    | createProcessedEvent data =>
      simp only [server_exec,Stmt.exec] at he
      split at he
      · contradiction
      · simp only [Stmt.absent,List.mem_singleton] at hk
        simp_all [UserDb.hasKey]
    | _ => simp [Stmt.absent] at hk
  inserts_absent {s db r ws} he k hk := by
    cases s <;> simp_all [Stmt.inserts,Stmt.absent]
  hasKey_apply := hasKey_apply

@[simp] theorem lawful_absent (check : Bool) (s : Stmt) (r : Res s) :
    (lawful check).absent s r = s.absent r := rfl
@[simp] theorem lawful_hasKey (check : Bool) (db : UserDb) (k : Uuid) :
    (lawful check).hasKey db k ↔ db.hasKey k := Iff.rfl

end NestHomework.UserService
