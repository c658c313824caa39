import NestHomework.Services.Statuses
import NestHomework.Shared.Ledger

/-! The balances agree with the transactions: an account holds what it started with and the amounts
of its settled transactions. -/
namespace NestHomework.Services
open Contracts Postgres Outbox TransactionService Shared Transition
open UserService (BalanceMessage UserDb Balance RunIds)

/-- The amount column, under account and currency. -/
def entry (t : Transaction) : Entry (Uuid × String) ℤ := ⟨(t.accountId,t.currency),t.amount⟩

/-- The rows whose deposit or pair has a success event. -/
def settledRows (rows : List Transaction) (events : List UserService.OutboxEvent) :
    List Transaction :=
  rows.filter (fun t => settled events (transactionTarget t) ≠ 0)

/-- The sum of the amount column over the settled rows of an account in a currency. -/
def State.credited (s : State) (accountId : Uuid) (currency : String) : ℤ :=
  total ((settledRows s.tx.transactions s.user.outboxEvents).map entry) (accountId,currency)

/-- The initial value of a balance. A new account has nothing. -/
def opening (balances : List Balance) (accountId : Uuid) (currency : String) : ℤ :=
  ((balances.find? (fun b => b.accountId = accountId && b.currency = currency)).map
    (·.amount)).getD 0

/-- What the rows of the message move. -/
def messageEntries (b : BalanceMessage) (amount : ℤ) : List (Entry (Uuid × String) ℤ) :=
  match b with
  | .depositPaidSuccess p => [⟨(p.accountId,p.currency),amount⟩]
  | .transferInited p =>
    [⟨(p.fromAccountId,p.currency),-amount⟩,⟨(p.toAccountId,p.currency),amount⟩]

structure Books (balances : List Balance) (s : State) : Prop where
  amounts : ∀ b ∈ s.user.balances,
    b.amount = opening balances b.accountId b.currency+s.credited b.accountId b.currency
  kept : ∀ b ∈ balances, ∃ b' ∈ s.user.balances, b'.accountId = b.accountId
  accounts : ∀ t ∈ frozen s.tx, settled s.user.outboxEvents (transactionTarget t) ≠ 0 →
    ∃ b ∈ s.user.balances, b.accountId = t.accountId

section Entries
variable {db : TxDb} {b : BalanceMessage} {events : List UserService.OutboxEvent} {amount : ℤ}

theorem settledRows_frozen (rows : List Transaction) :
    (settledRows (rows.map frozenRow) events).map entry = (settledRows rows events).map entry := by
  rw [settledRows,List.filter_map,List.map_map]
  rfl

/-- The sum is over the rows as they were created. -/
theorem credited_eq {s : State} (accountId : Uuid) (currency : String) :
    s.credited accountId currency =
      total ((settledRows (frozen s.tx) s.user.outboxEvents).map entry) (accountId,currency) := by
  rw [State.credited,frozen,settledRows_frozen]

theorem TxContents.nodup_frozen (h : TxContents db) : ((frozen db).map (·.id)).Nodup := by
  rw [frozen,List.map_map]
  exact h.sound.ids

theorem TxContents.eq_of_frozen (h : TxContents db) {t u : Transaction} (ht : t ∈ frozen db)
    (hu : u ∈ frozen db) (hid : t.id = u.id) : t = u :=
  List.inj_on_of_nodup_map h.nodup_frozen ht hu hid

theorem mem_deposit_iff (h : TxContents db) {n : NewDeposit} (hn : n.data ∈ frozen db)
    (t : Transaction) :
    t ∈ (frozen db).filter (fun t => transactionTarget t = .deposit n.id) ↔ t ∈ [n.data] := by
  rw [List.mem_filter,decide_eq_true_eq,List.mem_singleton]
  constructor
  · rintro ⟨ht,htarget⟩
    rcases h.created t ht with ⟨n',rfl⟩ | ⟨n',rfl | rfl,-⟩
    · exact h.eq_of_frozen ht hn (RetryTarget.deposit.inj htarget)
    · cases htarget
    · cases htarget
  · rintro rfl
    exact ⟨hn,rfl⟩

theorem mem_transfer_iff (h : TxContents db) {n : NewTransfer} (hn : HasTransfer db n)
    (t : Transaction) :
    t ∈ (frozen db).filter (fun t => transactionTarget t = .transfer n.outId n.inId) ↔
      t ∈ [n.txOut,n.txIn] := by
  rw [List.mem_filter,decide_eq_true_eq,List.mem_pair]
  constructor
  · rintro ⟨ht,htarget⟩
    rcases h.created t ht with ⟨n',rfl⟩ | ⟨n',rfl | rfl,-⟩
    · cases htarget
    · exact .inl (h.eq_of_frozen ht hn.1 (RetryTarget.transfer.inj htarget).1)
    · exact .inr (h.eq_of_frozen ht hn.2.1 (RetryTarget.transfer.inj htarget).2)
  · rintro (rfl | rfl)
    · exact ⟨hn.1,rfl⟩
    · exact ⟨hn.2.1,rfl⟩

/-- The rows with the target of a genuine message post what the message moves. -/
theorem Genuine.entries (h : TxContents db) (hb : Genuine db b) (ha : b.amount = some amount) :
    (((frozen db).filter (fun t => transactionTarget t = messageTarget b)).map entry).Perm
      (messageEntries b amount) := by
  have hnodup : ∀ v, ((frozen db).filter (fun t => transactionTarget t = v)).Nodup :=
    fun v => (h.nodup_frozen.of_map _).filter _
  cases b with
  | depositPaidSuccess p =>
    obtain ⟨n,hn,hp,-⟩ := hb
    have hamount : n.amount = amount := by
      rw [BalanceMessage.amount,hp] at ha
      exact Option.some.inj ((stringToBigInt_toString n.amount).symm.trans ha)
    have hrows := (List.perm_ext_iff_of_nodup (hnodup (.deposit n.id))
      (List.nodup_singleton n.data)).mpr (mem_deposit_iff h hn)
    rw [hp,← hamount]
    exact hrows.map entry
  | transferInited p =>
    obtain ⟨n,hn,rfl,-⟩ := hb
    have hamount : n.amount = amount :=
      Option.some.inj ((stringToBigInt_toString n.amount).symm.trans ha)
    have hne : n.txOut ≠ n.txIn := by
      intro heq
      cases congrArg Transaction.type heq
    have hrows := (List.perm_ext_iff_of_nodup (hnodup (.transfer n.outId n.inId))
      (by simpa using hne)).mpr (mem_transfer_iff h hn)
    rw [← hamount]
    exact hrows.map entry

/-- A settled target brings its entries. -/
theorem credited_settle (h : TxContents db) (hb : Genuine db b) (ha : b.amount = some amount)
    {e : UserService.OutboxEvent} (ht : e.topic = b.successTopic) (hp : e.payload = b.resultPayload)
    (hnew : settled events (messageTarget b) = 0) (key : Uuid × String) :
    total ((settledRows (frozen db) (events++[e])).map entry) key =
      total ((settledRows (frozen db) events).map entry) key+total (messageEntries b amount) key := by
  have hstep : ∀ v, settled (events++[e]) v =
      settled events v+if messageTarget b = v then 1 else 0 := by
    intro v
    rw [settled_append,ht,hp,isSuccess_successTopic,Bool.true_and,payloadTarget_resultPayload]
    simp
  have hperm := filter_perm_append (l := frozen db)
    (p := fun t => settled events (transactionTarget t) ≠ 0)
    (q := fun t => settled (events++[e]) (transactionTarget t) ≠ 0)
    (r := fun t => transactionTarget t = messageTarget b)
    (fun t _ => by
      rw [hstep]
      by_cases hv : messageTarget b = transactionTarget t
      · simp [hv]
      · simp [hv,Ne.symm hv])
    (fun t _ hs ht => by
      rw [decide_eq_true_eq] at hs ht
      exact hs (ht ▸ hnew))
  have hentries := (hperm.map entry)
  rw [List.map_append] at hentries
  rw [settledRows,total_perm hentries,total_append,total_perm (hb.entries h ha),settledRows]

end Entries

section Amounts
variable {db : UserDb} {b : BalanceMessage} {amount : ℤ} {row : Balance}

theorem total_messageEntries_deposit (p : DepositPaidSuccessPayload) (accountId : Uuid)
    (currency : String) : total (messageEntries (.depositPaidSuccess p) amount) (accountId,currency) =
      if p.accountId = accountId ∧ p.currency = currency then amount else 0 := by
  simp [messageEntries,Prod.ext_iff]

theorem total_messageEntries_transfer (p : TransferInitedPayload) (accountId : Uuid)
    (currency : String) : total (messageEntries (.transferInited p) amount) (accountId,currency) =
      (if p.fromAccountId = accountId ∧ p.currency = currency then -amount else 0)+
        if p.toAccountId = accountId ∧ p.currency = currency then amount else 0 := by
  simp [messageEntries,Prod.ext_iff]

/-- The row of an account is the one with its id. -/
theorem id_eq_iff (hw : db.WellFormed) {accountId : Uuid} {currency : String}
    (hrow : db.balanceOf accountId currency = some row) {b : Balance} (hb : b ∈ db.balances) :
    b.id = row.id ↔ accountId = b.accountId ∧ currency = b.currency := by
  obtain ⟨hmem,rfl,rfl⟩ := hw.balanceOf_eq_some.mp hrow
  constructor
  · intro hid
    rw [hw.eq_of_id hb hmem hid]
    exact ⟨rfl,rfl⟩
  · rintro ⟨ha,hc⟩
    rw [hw.eq_of_account hb hmem ha.symm hc.symm]

/-- Records and events leave the balances alone. -/
theorem balances_writes {key : Uuid} {ids : RunIds}
    (hrow : db.balanceOf b.payer b.currency = some row) :
    ((UserService.server true).applyAll db (b.writes key amount ids db)).balances =
      ((UserService.server true).applyAll db (b.moves amount db)).balances := by
  rw [BalanceMessage.writes,BalanceMessage.resultEvent,hrow,Engine.applyAll_append]
  rfl

/-- The money transaction posts the entries of its message to the balances. -/
theorem balances_applyAll_writes (hw : db.WellFormed) {key : Uuid} {ids : RunIds}
    (hpay : b.payable amount db) :
    ((UserService.server true).applyAll db (b.writes key amount ids db)).balances =
      db.balances.map (fun row => {row with
        amount := row.amount+total (messageEntries b amount) (row.accountId,row.currency)}) := by
  obtain ⟨row,hrow⟩ := payer_of_payable hpay
  rw [balances_writes hrow]
  cases b with
  | depositPaidSuccess p =>
    rw [BalanceMessage.payer,BalanceMessage.currency] at hrow
    rw [BalanceMessage.moves,hrow]
    refine List.map_congr_left (fun x hx => ?_)
    simp only [total_messageEntries_deposit,← id_eq_iff hw hrow hx]
    split_ifs with hid
    · rfl
    · rw [Int.add_zero]
  | transferInited p =>
    simp only [BalanceMessage.payable] at hpay
    split at hpay
    · rename_i sender receiver hs hr
      rw [BalanceMessage.moves,hs,hr]
      refine List.map_map.trans (List.map_congr_left (fun x hx => ?_))
      simp only [total_messageEntries_transfer,← id_eq_iff hw hs hx,← id_eq_iff hw hr hx,
        Function.comp_apply]
      split_ifs <;> simp_all
    · contradiction

end Amounts

section Steps
variable {s t : State} {maxRetry : ℕ} {a : Action} {balances : List Balance}

theorem payable_accounts {b : BalanceMessage} {amount : ℤ} {db : UserDb} (hw : db.WellFormed)
    (hpay : b.payable amount db) : ∀ e ∈ messageEntries b amount,
      ∃ row ∈ db.balances, row.accountId = e.key.1 := by
  have hfound : ∀ {accountId currency row}, db.balanceOf accountId currency = some row →
      ∃ row ∈ db.balances, row.accountId = accountId := by
    intro accountId currency row hrow
    obtain ⟨hmem,ha,-⟩ := hw.balanceOf_eq_some.mp hrow
    exact ⟨row,hmem,ha⟩
  cases b with
  | depositPaidSuccess p =>
    intro e he
    obtain ⟨row,hrow⟩ := payer_of_payable hpay
    rw [List.mem_singleton.mp he]
    exact hfound hrow
  | transferInited p =>
    intro e he
    simp only [BalanceMessage.payable] at hpay
    split at hpay
    · rename_i sender receiver hs hr
      rcases List.mem_pair.mp he with rfl | rfl
      · exact hfound hs
      · exact hfound hr
    · contradiction

theorem id_mem_target (row : Transaction) : row.id ∈ (transactionTarget row).ids := by
  unfold transactionTarget
  split <;> simp [RetryTarget.ids]

/-- The rows of a genuine message are there. -/
theorem Genuine.isSome {db : TxDb} {b : BalanceMessage} (hb : Genuine db b) {id : Uuid}
    (hid : id ∈ (messageTarget b).ids) : (db.transaction id).isSome := by
  have hrow : ∀ data ∈ frozen db, (db.transaction data.id).isSome := by
    intro data hdata
    obtain ⟨u,hu,rfl⟩ := List.mem_map.mp hdata
    exact TransactionCall.isSome_transaction.mpr ⟨u,hu,rfl⟩
  cases b with
  | depositPaidSuccess p =>
    obtain ⟨n,hn,hp,-⟩ := hb
    have hpid : p.transactionId = n.data.id := congrArg DepositPaidSuccessPayload.transactionId hp
    rw [List.mem_singleton.mp hid,hpid]
    exact hrow _ hn
  | transferInited p =>
    obtain ⟨n,⟨hout,hin,-⟩,rfl,-⟩ := hb
    rcases List.mem_pair.mp hid with rfl | rfl
    · exact hrow _ hout
    · exact hrow _ hin

theorem frozen_effect {db : TxDb} {c : TransactionCall} {ws : List Write}
    (he : TransactionCall.Effect db c ws) : ∃ new, frozen (server.applyAll db ws) = frozen db++new ∧
      ∀ row ∈ new, db.transaction row.id = none := by
  cases he with
  | @created n hid =>
    exact ⟨[frozenRow n.data],frozen_insertTransaction n.data,
      fun row hrow => by rw [List.mem_singleton.mp hrow]; exact hid⟩
  | @createdTransfer n hout hin hne =>
    refine ⟨[frozenRow n.txOut,frozenRow n.txIn],?_,fun row hrow => ?_⟩
    · simp [frozen_insertTransaction]
    · rcases List.mem_pair.mp hrow with rfl | rfl
      · exact hout
      · exact hin
  | nothing => exact ⟨[],(List.append_nil _).symm,by simp⟩
  | completed ht hp hst => exact ⟨[],by simp,by simp⟩
  | timedOut ht hp hst => exact ⟨[],by simp,by simp⟩
  | updated hnew ht hst => exact ⟨[],by simp,by simp⟩
  | updatedByIds hnew hout hin => exact ⟨[],by simp,by simp⟩
  | copied hnew hpres hlimit hevent hpay => exact ⟨[],by simp [RetryCall.copyWrites],by simp⟩
  | failed hnew hpres hlimit => exact ⟨[],by simp [RetryCall.failWrites],by simp⟩

/-- A settled target has a genuine message. -/
theorem Contents.genuine_of_settled (h : Contents s) {v : Target}
    (hv : settled s.user.outboxEvents v ≠ 0) : ∃ b, Genuine s.tx b ∧ messageTarget b = v := by
  obtain ⟨e,he,hp⟩ := exists_of_countP_ne_zero hv
  rw [Bool.and_eq_true,decide_eq_true_eq] at hp
  exact h.genuine_of_userEvent he hp.2

/-- The new rows of a call are not settled. -/
theorem Contents.settled_new (h : Contents s) {row : Transaction}
    (hnew : s.tx.transaction row.id = none) :
    settled s.user.outboxEvents (transactionTarget row) = 0 := by
  by_contra hne
  obtain ⟨b,hb,hbv⟩ := h.genuine_of_settled hne
  have hsome := hb.isSome (hbv ▸ id_mem_target row)
  rw [hnew] at hsome
  contradiction

/-- What the accounts hold does not change when rows are added and the same targets are settled. -/
theorem Books.of_rows (hbooks : Books balances s) (hbal : t.user.balances = s.user.balances)
    {new : List Transaction} (hrows : frozen t.tx = frozen s.tx++new)
    (hnew : ∀ row ∈ new, settled s.user.outboxEvents (transactionTarget row) = 0)
    (hsettled : ∀ v, settled t.user.outboxEvents v = settled s.user.outboxEvents v) :
    Books balances t := by
  have hfilter : ∀ rows, settledRows rows t.user.outboxEvents =
      settledRows rows s.user.outboxEvents :=
    fun rows => List.filter_congr (fun row _ => by rw [hsettled])
  have hnone : settledRows new s.user.outboxEvents = [] :=
    List.filter_eq_nil_iff.mpr (fun row hrow => by simp [hnew row hrow])
  have hcredited : ∀ accountId currency, t.credited accountId currency =
      s.credited accountId currency := by
    intro accountId currency
    rw [credited_eq,credited_eq,hfilter,hrows]
    unfold settledRows at hnone ⊢
    rw [List.filter_append,hnone,List.append_nil]
  refine ⟨fun b hb => ?_,hbal ▸ hbooks.kept,fun row hrow hs => ?_⟩
  · rw [hcredited]
    exact hbooks.amounts b (hbal ▸ hb)
  · rw [hsettled] at hs
    rw [hrows,List.mem_append] at hrow
    rcases hrow with hrow | hrow
    · rw [hbal]
      exact hbooks.accounts row hrow hs
    · exact absurd (hnew row hrow) hs

theorem opening_eq_zero {accountId : Uuid} (h : ∀ b ∈ balances, b.accountId ≠ accountId)
    (currency : String) : opening balances accountId currency = 0 := by
  have hnone : balances.find? (fun b => b.accountId = accountId && b.currency = currency) = none :=
    List.find?_eq_none.mpr (fun b hb => by simp [h b hb])
  rw [opening,hnone]
  rfl

/-- A new account starts with nothing. -/
theorem Books.createAccount (hbooks : Books balances s) {accountId rubId usdId usdtId : Uuid}
    (hacc : ∀ b ∈ s.user.balances, b.accountId ≠ accountId) :
    Books balances {s with user := s.user.createAccount accountId rubId usdId usdtId} := by
  have hcredited : ∀ currency, s.credited accountId currency = 0 := by
    intro currency
    rw [credited_eq]
    refine total_eq_zero (fun e he heq => ?_)
    obtain ⟨row,hrow,rfl⟩ := List.mem_map.mp he
    obtain ⟨hmem,hs⟩ := List.mem_filter.mp hrow
    obtain ⟨b,hb,hba⟩ := hbooks.accounts row hmem (by simpa using hs)
    exact hacc b hb (hba.trans (Prod.mk.inj heq).1)
  have hopening := @opening_eq_zero balances accountId (by
    intro b hb heq
    obtain ⟨b',hb',ha⟩ := hbooks.kept b hb
    exact hacc b' hb' (ha.trans heq))
  refine ⟨fun b hb => ?_,fun b hb => ?_,fun row hrow hs => ?_⟩
  · rcases List.mem_append.mp hb with hb | hb
    · exact hbooks.amounts b hb
    · have hnew : b.amount = 0 ∧ b.accountId = accountId := by
        simp only [List.mem_cons,List.not_mem_nil,or_false] at hb
        rcases hb with rfl | rfl | rfl <;> exact ⟨rfl,rfl⟩
      rw [hnew.1,hnew.2,hopening,Int.zero_add]
      exact (hcredited b.currency).symm
  · obtain ⟨b',hb',ha⟩ := hbooks.kept b hb
    exact ⟨b',List.mem_append_left _ hb',ha⟩
  · obtain ⟨b',hb',ha⟩ := hbooks.accounts row hrow hs
    exact ⟨b',List.mem_append_left _ hb',ha⟩

/-- A money transaction posts the amounts of the rows that it settles. -/
theorem Books.moved (hbooks : Books balances s) (h : Contents s) {b : BalanceMessage}
    {key : Uuid} {amount : ℤ} {ids : RunIds} (hb : Genuine s.tx b) (ha : b.amount = some amount)
    (hpay : b.payable amount s.user) (hnew : settled s.user.outboxEvents (messageTarget b) = 0)
    (handled : List Uuid) : Books balances
      ({s with handled := handled}.commit b (some key) (b.writes key amount ids s.user)) := by
  obtain ⟨row,hrow⟩ := payer_of_payable hpay
  have hevents := userEvents_applyAll s.user (b.writes key amount ids s.user)
  rw [newUserEvents_writes hrow] at hevents
  have hbal := @balances_applyAll_writes _ _ _ h.user key ids hpay
  refine ⟨fun x hx => ?_,fun x hx => ?_,fun data hdata hs => ?_⟩
  · simp only [State.commit] at hx
    rw [hbal] at hx
    obtain ⟨x',hx',rfl⟩ := List.mem_map.mp hx
    rw [credited_eq]
    simp only [State.commit,hevents]
    rw [credited_settle h.tx hb ha rfl rfl hnew,← credited_eq,hbooks.amounts x' hx',Int.add_assoc]
  · obtain ⟨x',hx',hacc⟩ := hbooks.kept x hx
    simp only [State.commit,hbal]
    exact ⟨_,List.mem_map_of_mem hx',hacc⟩
  · have hold : ∃ x ∈ s.user.balances, x.accountId = data.accountId := by
      simp only [State.commit,hevents,settled_append,isSuccess_successTopic,Bool.true_and,
        payloadTarget_resultPayload] at hs
      by_cases hv : transactionTarget data = messageTarget b
      · have hmem : entry data ∈ ((frozen s.tx).filter
            (fun t => transactionTarget t = messageTarget b)).map entry :=
          List.mem_map_of_mem (List.mem_filter.mpr ⟨hdata,decide_eq_true hv⟩)
        exact payable_accounts h.user hpay _ ((hb.entries h.tx ha).mem_iff.mp hmem)
      · refine hbooks.accounts data hdata ?_
        simpa [Ne.symm hv] using hs
    obtain ⟨x,hx,hacc⟩ := hold
    simp only [State.commit,hbal]
    exact ⟨_,List.mem_map_of_mem hx,hacc⟩

/-- Every step keeps the books. -/
theorem Books.change (hbooks : Books balances s) (hc : Change maxRetry s a t) (h : Contents s)
    (ht : ∀ v, settled t.user.outboxEvents v ≤ 1) : Books balances t := by
  have hsame : ∀ t' : State, t'.user.balances = s.user.balances → t'.tx = s.tx →
      (∀ v, settled t'.user.outboxEvents v = settled s.user.outboxEvents v) → Books balances t' :=
    fun t' hbal htx hs => hbooks.of_rows hbal (by rw [htx,List.append_nil]) (by simp) hs
  cases hc with
  | request hr he =>
    obtain ⟨new,hrows,hnew⟩ := frozen_effect he
    exact hbooks.of_rows rfl hrows (fun row hrow => h.settled_new (hnew row hrow)) (fun _ => rfl)
  | result hm hk hc he =>
    obtain ⟨new,hrows,hnew⟩ := frozen_effect he
    exact hbooks.of_rows rfl hrows (fun row hrow => h.settled_new (hnew row hrow)) (fun _ => rfl)
  | createAccount hids hnew hacc => exact hbooks.createAccount hacc
  | @moved m b ids fault key amount hm hb hk ha hnew hpay =>
    refine hbooks.moved h ((h.messages m hm).genuine hb) ha hpay ?_ _
    obtain ⟨row,hrow⟩ := payer_of_payable hpay
    have hle := ht (messageTarget b)
    simp only [State.commit,userEvents_applyAll,newUserEvents_writes hrow,settled_append,
      isSuccess_successTopic,Bool.true_and,payloadTarget_resultPayload,decide_true,if_true] at hle
    omega
  | @reported i r fault e hi htopic hpay =>
    refine hsame _ rfl rfl (fun v => ?_)
    refine (settled_append s.user.outboxEvents e).trans ?_
    rw [htopic,isSuccess_failedTopic]
    rfl
  | txMark => exact hbooks.of_rows rfl (List.append_nil _).symm (by simp) (fun _ => rfl)
  | userMark => exact hsame _ rfl rfl (fun v => settled_mark _ _)
  | _ => exact hsame _ rfl rfl (fun _ => rfl)

end Steps

section Runs
variable {s s' : State} {maxRetry : ℕ} {a : Action} {balances : List Balance}

/-- All that holds of a run in which rows are published once and messages handled once. -/
structure Agreed (maxRetry : ℕ) (balances : List Balance) (s : State) : Prop where
  once : Once s
  tracked : Tracked s
  statuses : Statuses maxRetry s
  books : Books balances s

theorem Once.settled_le_one (h : Once s) (v : Target) : settled s.user.outboxEvents v ≤ 1 := by
  have hc := h.carried v
  have hle := settled_le_outward s v
  simp only [State.carried] at hc
  omega

/-- A step keeps the agreement, the orders that have ended, and the deposits that timed out. -/
theorem Agreed.next (h : Agreed maxRetry balances s) (hsingle : s.Single a)
    (hs : s.next maxRetry a = some s') : Agreed maxRetry balances s' ∧
      (∀ v, Ended maxRetry s v → Ended maxRetry s' v) ∧
      (∀ v, settled s.user.outboxEvents v ≤ settled s'.user.outboxEvents v) ∧
      ∀ id, s.tx.phase id = some (.deposit,.timeout) →
        s'.tx.phase id = some (.deposit,.timeout) := by
  have hcare := hsingle.careful h.tracked
  have honce := h.once.next hcare hs
  obtain ⟨t,hc,hfresh,rfl⟩ := change_of_next h.once.contents hs
  have hflow := hc.flow h.once.contents h.once.recorded hcare
  have htracked := hc.tracked h.tracked
  have hstatuses := h.statuses.change hc h.once honce hfresh hflow
  have hbooks := h.books.change hc h.once.contents honce.settled_le_one
  refine ⟨⟨honce,⟨htracked.answered,htracked.handlers⟩,?_,⟨hbooks.amounts,hbooks.kept,hbooks.accounts⟩⟩,
    fun v hv => ?_,hc.settled_le,fun id => hc.timeout_stays h.once.contents h.once.released⟩
  · refine ⟨fun row hrow hst => ?_,hstatuses.timeout,hstatuses.updated,hstatuses.succeeded⟩
    have hended := hstatuses.failed row hrow hst
    exact ⟨hended.released,hended.outward,hended.retryCount⟩
  · have hended := hv.change hc h.once.contents (hflow v)
    exact ⟨hended.released,hended.outward,hended.retryCount⟩

theorem Agreed.initial (maxRetry : ℕ) (hw : UserDb.WellFormed ⟨balances,[],[]⟩) :
    Agreed maxRetry balances (.initial balances) := by
  refine ⟨.initial hw,⟨by simp [State.initial],by simp [State.initial]⟩,
    ⟨by simp [State.initial],by simp [State.initial],by simp [State.initial],
      by simp [State.initial]⟩,⟨fun b hb => ?_,fun b hb => ⟨b,hb,rfl⟩,?_⟩⟩
  · have hfound := hw.balanceOf_eq_some.mpr ⟨hb,rfl,rfl⟩
    rw [UserDb.balanceOf] at hfound
    simp only at hfound
    rw [opening,hfound]
    simp [State.credited,State.initial,settledRows]
  · simp [frozen,State.initial]

/-- A deposit that timed out has no order. -/
theorem Once.settled_timeout (h : Once s) {id : Uuid}
    (hp : s.tx.phase id = some (.deposit,.timeout)) :
    settled s.user.outboxEvents (.deposit id) = 0 := by
  by_contra hne
  obtain ⟨b,hb,hbv⟩ := h.contents.genuine_of_settled hne
  obtain ⟨p,hp',-,htimeout⟩ := hbv ▸ hb.released h.released
  rw [hp] at hp'
  cases hp'
  exact htimeout rfl

/-- In a run in which rows are published once and messages handled once, a deposit or a pair has one
success event at most, a `BALANCE_UPDATED` one has it, a `FAILED` or `TIMEOUT` one has none then and
later, and each balance is what it was at first and the settled amounts. -/
theorem statuses_and_money_agree (maxRetry : ℕ) (hw : UserDb.WellFormed ⟨balances,[],[]⟩)
    {steps more : List Action}
    (hsingle : Along (State.next maxRetry) State.Single (.initial balances) (steps++more))
    (hr : runs (State.next maxRetry) (.initial balances) steps = some s)
    (hr' : runs (State.next maxRetry) s more = some s') :
    (∀ v, settled s.user.outboxEvents v ≤ 1) ∧
      (∀ t ∈ s.tx.transactions,
        (t.status = .balanceUpdated → settled s'.user.outboxEvents (transactionTarget t) = 1) ∧
        (t.status = .failed ∨ t.status = .timeout →
          settled s'.user.outboxEvents (transactionTarget t) = 0)) ∧
      ∀ b ∈ s.user.balances,
        b.amount = opening balances b.accountId b.currency+s.credited b.accountId b.currency := by
  obtain ⟨hsteps,hmore⟩ := hsingle.append hr
  have h : Agreed maxRetry balances s := runs_invariant
    (fun _ _ _ h hsingle hs => (h.next hsingle hs).1) (.initial maxRetry hw) hsteps hr
  refine ⟨h.once.settled_le_one,fun t ht => ⟨fun hst => ?_,fun hst => ?_⟩,h.books.amounts⟩
  · have hlater : Agreed maxRetry balances s' ∧
        settled s'.user.outboxEvents (transactionTarget t) ≠ 0 := by
      refine runs_invariant (I := fun s => Agreed maxRetry balances s ∧
        settled s.user.outboxEvents (transactionTarget t) ≠ 0) ?_
        ⟨h,h.statuses.updated t ht hst⟩ hmore hr'
      rintro s a s' ⟨h,hne⟩ hsingle hs
      obtain ⟨h',-,hle,-⟩ := h.next hsingle hs
      exact ⟨h',by have := hle (transactionTarget t); omega⟩
    have hone := hlater.1.once.settled_le_one (transactionTarget t)
    have hne := hlater.2
    omega
  · rcases hst with hst | hst
    · have hlater : Agreed maxRetry balances s' ∧ Ended maxRetry s' (transactionTarget t) := by
        refine runs_invariant (I := fun s => Agreed maxRetry balances s ∧
          Ended maxRetry s (transactionTarget t)) ?_ ⟨h,h.statuses.failed t ht hst⟩ hmore hr'
        rintro s a s' ⟨h,hended⟩ hsingle hs
        obtain ⟨h',hkeep,-⟩ := h.next hsingle hs
        exact ⟨h',hkeep _ hended⟩
      have hle := settled_le_outward s' (transactionTarget t)
      have hzero := hlater.2.outward
      omega
    · have htype := h.statuses.timeout t ht hst
      have hphase : s.tx.phase t.id = some (.deposit,.timeout) := by
        rw [h.once.contents.tx.sound.phase_eq ht,htype,hst]
      have hlater : Agreed maxRetry balances s' ∧
          s'.tx.phase t.id = some (.deposit,.timeout) := by
        refine runs_invariant (I := fun s => Agreed maxRetry balances s ∧
          s.tx.phase t.id = some (.deposit,.timeout)) ?_ ⟨h,hphase⟩ hmore hr'
        rintro s a s' ⟨h,hphase⟩ hsingle hs
        obtain ⟨h',-,-,hkeep⟩ := h.next hsingle hs
        exact ⟨h',hkeep _ hphase⟩
      have htarget : transactionTarget t = .deposit t.id := by
        simp only [transactionTarget,htype]
      rw [htarget]
      exact hlater.1.once.settled_timeout hlater.2

/-- A deposit of 100 is paid and credited; the success message comes last. -/
def creditedDeposit : List Action :=
  paidDeposit 3++[.txWorker (.mark false),.handleBalance (paidMessage 3) ⟨11,12,13⟩ none,
    .userWorker (.find [⟨12,5,.depositCreditingSuccess,.depositCrediting ⟨2,1⟩,false⟩]),
    .userWorker (.publish (.acknowledged 14)),
    .handleResult ⟨12,.depositCreditingSuccess,.depositCrediting ⟨2,1⟩,some 14⟩ ⟨15,16⟩ none]

theorem statuses_and_money_agree_credited :
    let balances : List Balance := [⟨5,7,"RUB",10,none⟩]
    (runs (State.next 3) (.initial balances) creditedDeposit).map
        (fun s => (s.tx.statuses,s.user.balances)) =
      some ([(1,.balanceUpdated)],[⟨5,107,"RUB",10,none⟩]) ∧
    ∀ s, runs (State.next 3) (.initial balances) creditedDeposit = some s →
      (∀ v, settled s.user.outboxEvents v ≤ 1) ∧
        (∀ t ∈ s.tx.transactions,
          (t.status = .balanceUpdated → settled s.user.outboxEvents (transactionTarget t) = 1) ∧
          (t.status = .failed ∨ t.status = .timeout →
            settled s.user.outboxEvents (transactionTarget t) = 0)) ∧
        ∀ b ∈ s.user.balances,
          b.amount = opening balances b.accountId b.currency+s.credited b.accountId b.currency := by
  refine ⟨by decide,fun s hr => ?_⟩
  have hw : UserDb.WellFormed ⟨[⟨5,7,"RUB",10,none⟩],[],[]⟩ := ⟨by decide,by decide⟩
  refine statuses_and_money_agree 3 hw ?_ hr (runs_nil s)
  rw [List.append_nil]
  refine .cons trivial rfl (.cons trivial rfl (.cons trivial rfl (.cons ?_ rfl (.cons trivial rfl
    (.cons ?_ rfl (.cons trivial rfl (.cons ?_ rfl (.cons ?_ rfl trivial))))))))
  · intro _ t ht e he
    cases ht
    cases he
    decide
  · intro key hk
    cases hk
    decide
  · intro _ t ht e he
    cases ht
    cases he
    decide
  · intro key hk
    cases hk
    decide

end Runs
end NestHomework.Services
