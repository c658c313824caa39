import Mathlib.Tactic
import NestHomework.Postgres.Table
import NestHomework.UserService.Bodies

/-! Looking rows up by account. With one row for each account and currency the different queries of
the repository agree on the row they find. -/
namespace NestHomework.UserService
open Contracts Postgres

/-- The balance of an account in a currency. -/
def UserDb.balanceOf (db : UserDb) (accountId : Uuid) (currency : String) : Option Balance :=
  db.balances.find? (fun b => b.accountId = accountId && b.currency = currency)

/-- `AccountRepository.create`: one empty balance for each `Currency`. -/
def UserDb.createAccount (db : UserDb) (accountId rubId usdId usdtId : Uuid) : UserDb :=
  {db with balances := db.balances++[⟨rubId,0,"RUB",accountId,none⟩,⟨usdId,0,"USD",accountId,none⟩,
    ⟨usdtId,0,"USDT",accountId,none⟩]}

section WellFormed
variable {db : UserDb} {b c : Balance} {accountId : Uuid} {currency : String}

theorem UserDb.WellFormed.eq_of_id (hw : db.WellFormed) (hb : b ∈ db.balances)
    (hc : c ∈ db.balances) (h : b.id = c.id) : b = c :=
  List.inj_on_of_nodup_map hw.ids hb hc h

theorem UserDb.WellFormed.eq_of_account (hw : db.WellFormed) (hb : b ∈ db.balances)
    (hc : c ∈ db.balances) (ha : b.accountId = c.accountId) (hcur : b.currency = c.currency) :
    b = c :=
  List.inj_on_of_nodup_map hw.accounts hb hc (by simp [ha,hcur])

theorem UserDb.WellFormed.balance_eq (hw : db.WellFormed) (hb : b ∈ db.balances) :
    db.balance b.id = some b := by
  refine (find?_eq_some_iff_of_unique (fun x hx y hy h1 h2 => ?_)).mpr ⟨hb,by simp⟩
  simp only [decide_eq_true_eq] at h1 h2
  exact hw.eq_of_id hx hy (h1.trans h2.symm)

theorem UserDb.WellFormed.balanceOf_eq_some (hw : db.WellFormed) :
    db.balanceOf accountId currency = some b ↔
      b ∈ db.balances ∧ b.accountId = accountId ∧ b.currency = currency := by
  unfold UserDb.balanceOf
  rw [find?_eq_some_iff_of_unique]
  · simp
  · intro x hx y hy h1 h2
    simp only [Bool.and_eq_true,decide_eq_true_eq] at h1 h2
    exact hw.eq_of_account hx hy (h1.1.trans h2.1.symm) (h1.2.trans h2.2.symm)

theorem ofAccounts_head? (db : UserDb) (accountId : Uuid) (currency : String) :
    (db.ofAccounts [accountId] currency).head? = db.balanceOf accountId currency := by
  simp [UserDb.ofAccounts,UserDb.balanceOf]

theorem mem_ofAccounts {accountIds : List Uuid} :
    b ∈ db.ofAccounts accountIds currency ↔
      b ∈ db.balances ∧ b.accountId ∈ accountIds ∧ b.currency = currency := by
  simp [UserDb.ofAccounts]

theorem mem_orderByAccount {bs : List Balance} : b ∈ orderByAccount bs ↔ b ∈ bs :=
  (List.perm_insertionSort _ bs).mem_iff

theorem ofAccounts_length_le_one (hw : db.WellFormed) (accountId : Uuid) (currency : String) :
    (db.ofAccounts [accountId] currency).length ≤ 1 := by
  have hnd : (db.ofAccounts [accountId] currency).Nodup :=
    (List.Nodup.of_map _ hw.ids).filter _
  have hall : ∀ x ∈ db.ofAccounts [accountId] currency,
      ∀ y ∈ db.ofAccounts [accountId] currency, x = y := by
    intro x hx y hy
    simp only [mem_ofAccounts,List.mem_singleton] at hx hy
    exact hw.eq_of_account hx.1 hy.1 (hx.2.1.trans hy.2.1.symm) (hx.2.2.trans hy.2.2.symm)
  generalize db.ofAccounts [accountId] currency = l at hnd hall
  rcases l with _ | ⟨x,_ | ⟨y,l⟩⟩
  · simp
  · simp
  · have := hall x (by simp) y (by simp)
    simp [this] at hnd

theorem ofAccounts_eq (hw : db.WellFormed) (accountId : Uuid) (currency : String) :
    db.ofAccounts [accountId] currency = (db.balanceOf accountId currency).toList := by
  rw [← ofAccounts_head?]
  have hlen := ofAccounts_length_le_one hw accountId currency
  generalize db.ofAccounts [accountId] currency = l at hlen
  rcases l with _ | ⟨x,_ | ⟨y,l⟩⟩
  · rfl
  · rfl
  · simp at hlen

/-- `balances.find` on the locked rows finds what a direct lookup finds. -/
theorem find?_orderByAccount (hw : db.WellFormed) (currency : String) {accountIds : List Uuid}
    (ha : accountId ∈ accountIds) :
    (orderByAccount (db.ofAccounts accountIds currency)).find? (fun b => b.accountId = accountId) =
      db.balanceOf accountId currency := by
  refine Option.ext fun b => ?_
  rw [hw.balanceOf_eq_some,find?_eq_some_iff_of_unique]
  · rw [mem_orderByAccount,mem_ofAccounts,decide_eq_true_eq]
    constructor
    · rintro ⟨⟨hb,-,hc⟩,he⟩
      exact ⟨hb,he,hc⟩
    · rintro ⟨hb,he,hc⟩
      exact ⟨⟨hb,he ▸ ha,hc⟩,he⟩
  · intro x hx y hy h1 h2
    simp only [mem_orderByAccount,mem_ofAccounts,decide_eq_true_eq] at hx hy h1 h2
    exact hw.eq_of_account hx.1 hy.1 (h1.trans h2.symm) (hx.2.2.trans hy.2.2.symm)

/-- Two locked rows are the rows of two different accounts. -/
theorem two_le_length_selected (hw : db.WellFormed) (fromAccountId toAccountId : Uuid)
    (currency : String) :
    2 ≤ (orderByAccount (db.ofAccounts [fromAccountId,toAccountId] currency)).length ↔
      fromAccountId ≠ toAccountId ∧ (db.balanceOf fromAccountId currency).isSome ∧
        (db.balanceOf toAccountId currency).isSome := by
  rw [orderByAccount,List.length_insertionSort]
  constructor
  · intro hlen
    have hnd : (db.ofAccounts [fromAccountId,toAccountId] currency).Nodup :=
      (List.Nodup.of_map _ hw.ids).filter _
    have hmem : ∀ x ∈ db.ofAccounts [fromAccountId,toAccountId] currency, x ∈ db.balances ∧
        (x.accountId = fromAccountId ∨ x.accountId = toAccountId) ∧ x.currency = currency := by
      intro x hx
      simpa [mem_ofAccounts] using hx
    generalize db.ofAccounts [fromAccountId,toAccountId] currency = l at hlen hnd hmem
    rcases l with _ | ⟨x,_ | ⟨y,l⟩⟩
    · simp at hlen
    · simp at hlen
    · obtain ⟨hx,hxa,hxc⟩ := hmem x (by simp)
      obtain ⟨hy,hya,hyc⟩ := hmem y (by simp)
      have hne : x.accountId ≠ y.accountId := by
        intro he
        have := hw.eq_of_account hx hy he (hxc.trans hyc.symm)
        simp [this] at hnd
      have hsome : ∀ z ∈ db.balances, z.currency = currency →
          (db.balanceOf z.accountId currency).isSome := by
        intro z hz hc
        rw [(hw.balanceOf_eq_some).mpr ⟨hz,rfl,hc⟩]
        rfl
      have hsx := hsome x hx hxc
      have hsy := hsome y hy hyc
      rcases hxa with hxa | hxa <;> rcases hya with hya | hya <;> rw [hxa,hya] at hne <;>
        rw [hxa] at hsx <;> rw [hya] at hsy
      · exact absurd rfl hne
      · exact ⟨hne,hsx,hsy⟩
      · exact ⟨hne.symm,hsy,hsx⟩
      · exact absurd rfl hne
  · rintro ⟨hne,hs,hr⟩
    obtain ⟨s,hs⟩ := Option.isSome_iff_exists.mp hs
    obtain ⟨r,hr⟩ := Option.isSome_iff_exists.mp hr
    obtain ⟨hsm,hsa,hsc⟩ := hw.balanceOf_eq_some.mp hs
    obtain ⟨hrm,hra,hrc⟩ := hw.balanceOf_eq_some.mp hr
    have hsub : [s,r] ⊆ db.ofAccounts [fromAccountId,toAccountId] currency := by
      intro x hx
      simp only [List.mem_cons,List.not_mem_nil,or_false] at hx
      rcases hx with rfl | rfl
      · simp [mem_ofAccounts,hsm,hsa,hsc]
      · simp [mem_ofAccounts,hrm,hra,hrc]
    have hnd : [s,r].Nodup := by
      simp only [List.nodup_cons,List.mem_singleton,List.not_mem_nil,not_false_eq_true,
        List.nodup_nil,and_self,and_true]
      rintro rfl
      exact hne (hsa.symm.trans hra)
    exact (List.subperm_of_subset hnd hsub).length_le

/-- A new account keeps one row for each account and currency. -/
theorem UserDb.WellFormed.createAccount (hw : db.WellFormed) {rubId usdId usdtId : Uuid}
    (hids : [rubId,usdId,usdtId].Nodup) (hnew : ∀ b ∈ db.balances, b.id ∉ [rubId,usdId,usdtId])
    (hacc : ∀ b ∈ db.balances, b.accountId ≠ accountId) :
    (db.createAccount accountId rubId usdId usdtId).WellFormed := by
  refine ⟨?_,?_⟩
  · rw [UserDb.createAccount,List.map_append]
    refine List.Nodup.append hw.ids hids (fun i hi hj => ?_)
    obtain ⟨b,hb,rfl⟩ := List.mem_map.mp hi
    exact hnew b hb hj
  · rw [UserDb.createAccount,List.map_append]
    refine List.Nodup.append hw.accounts (by simp) (fun x hx hy => ?_)
    obtain ⟨b,hb,rfl⟩ := List.mem_map.mp hx
    refine hacc b hb ?_
    simp only [List.map_cons,List.map_nil,List.mem_cons,Prod.mk.injEq,List.not_mem_nil,or_false]
      at hy
    rcases hy with hy | hy | hy <;> exact hy.1

end WellFormed

/-- Writes keep the row of an account. -/
theorem Later.balanceOf_id {db db' : UserDb} (h : Later db db') (accountId : Uuid)
    (currency : String) : (db'.balanceOf accountId currency).map (·.id) =
      (db.balanceOf accountId currency).map (·.id) := by
  have hrel := rel_find? (p := fun b => b.accountId = accountId && b.currency = currency) h.balances
    (fun a b hab => by rw [hab.accountId_eq,hab.currency_eq])
  unfold UserDb.balanceOf
  generalize db.balances.find? _ = x at hrel ⊢
  generalize db'.balances.find? _ = y at hrel ⊢
  cases hrel with
  | some hab => exact congrArg some hab.id_eq.symm
  | none => rfl

end NestHomework.UserService
