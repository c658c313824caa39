import NestHomework.NotificationService.History

/-! One document for one movement of money, as long as the notification is emitted once, is not
lost and the message is not dropped after its commit. -/
namespace NestHomework.NotificationService
open Contracts Postgres UserService Transition

section
variable {m : BalanceMessage} {key : Uuid} {db : UserDb} {recorded recorded' : Bool}

/-- What a handler of the message may still do. It is about to emit only when the message is
recorded. -/
inductive Rest (m : BalanceMessage) (key : Uuid) (recorded : Bool) :
    Proc Stmt Res Unit Outcome → Prop
  | handle (ids : RunIds) : Rest m key recorded (m.handle (some key) ids)
  | catchBlock (ids : RunIds) : Rest m key recorded (m.catchBlock ids)
  | notified {amount : ℤ} (hamount : m.amount = some amount) (hrecorded : recorded) :
    Rest m key recorded (.done (.notified (m.notification amount)))
  | failed : Rest m key recorded (.done .failed)
  | thrown (e : String) : Rest m key recorded (.done (.thrown e))

theorem Rest.mono {rest : Proc Stmt Res Unit Outcome} (h : Rest m key recorded rest)
    (hle : recorded → recorded') : Rest m key recorded' rest := by
  cases h with
  | handle ids => exact .handle ids
  | catchBlock ids => exact .catchBlock ids
  | notified hamount hrecorded => exact .notified hamount (hle hrecorded)
  | failed => exact .failed
  | thrown e => exact .thrown e

theorem Rest.of_done {outcome : Outcome} (h : Rest m key recorded (.done outcome)) :
    (∃ amount, m.amount = some amount ∧ recorded ∧ outcome = .notified (m.notification amount)) ∨
      ∀ message, outcome ≠ .notified message := by
  generalize hrest : Proc.done outcome = rest at h
  cases h with
  | handle ids =>
    cases hamount : m.amount with
    | none =>
      rw [m.handle_of_not_numeric key ids hamount,m.catchBlock_eq] at hrest
      cases hrest
    | some amount =>
      rw [m.handle_some key ids hamount] at hrest
      cases hrest
  | catchBlock ids =>
    rw [m.catchBlock_eq] at hrest
    cases hrest
  | notified hamount hrecorded =>
    cases hrest
    exact .inl ⟨_,hamount,hrecorded,rfl⟩
  | failed =>
    cases hrest
    exact .inr nofun
  | thrown e =>
    cases hrest
    exact .inr nofun

/-- A transaction moves the money exactly when it records the message. -/
def Books (key : Uuid) (db : UserDb) (ws : List Write) : Prop :=
  (((server true).applyAll db ws).processed key).isSome.toNat =
    (db.processed key).isSome.toNat+(ws.any Services.isIncrement).toNat

theorem Books.isSome {ws : List Write} (h : Books key db ws)
    (hrecorded : (db.processed key).isSome) :
    (((server true).applyAll db ws).processed key).isSome := by
  rw [Books,hrecorded] at h
  cases hafter : (((server true).applyAll db ws).processed key).isSome with
  | true => rfl
  | false =>
    rw [hafter,Bool.toNat_true,Bool.toNat_false] at h
    omega

theorem processed_append {db' : UserDb} {record : ProcessedEvent}
    (h : db'.processedEvents = db.processedEvents++[record]) (hkey : record.idempotencyKey = key) :
    (db'.processed key).isSome := by
  rw [UserDb.processed,h,List.find?_append]
  simp [hkey]

theorem books_call {amount : ℤ} {ids : RunIds} {fault : Option ℕ} {ws : List Write}
    (h : (server true).run fault (m.call key amount ids).body db = .ok ((),ws)) :
    Books key db ws ∧ (((server true).applyAll db ws).processed key).isSome := by
  rcases m.call_committed h with
    ⟨hrecorded,rfl⟩ | ⟨hnone,⟨id,increment,hmem⟩,-,record,hevents,hkey,-⟩
  · exact ⟨rfl,hrecorded⟩
  · have hrecorded := processed_append hevents hkey
    have hmoves : ws.any Services.isIncrement := List.any_eq_true.mpr ⟨_,hmem,rfl⟩
    refine ⟨?_,hrecorded⟩
    rw [Books,hrecorded,hnone,hmoves]
    rfl

theorem books_failure {ids : RunIds} {fault : Option ℕ} {ws : List Write}
    (h : (server true).run fault (m.failure ids).body db = .ok ((),ws)) :
    Books key db ws ∧ ((server true).applyAll db ws).processed key = db.processed key := by
  obtain ⟨e,-,-,rfl⟩ := m.failure_committed h
  exact ⟨rfl,rfl⟩

theorem Rest.transact {fault : Option ℕ} {body : Tx Stmt Res Unit}
    {nxt : Except String Unit → Proc Stmt Res Unit Outcome}
    (h : Rest m key (db.processed key).isSome (.transaction body nxt)) :
    (∀ e, Rest m key (db.processed key).isSome (nxt (.error e))) ∧
    ∀ ws, (server true).run fault body db = .ok ((),ws) → Books key db ws ∧
      Rest m key (((server true).applyAll db ws).processed key).isSome (nxt (.ok ())) := by
  have hfailure : ∀ ids, .transaction body nxt = m.catchBlock ids →
      (∀ e, Rest m key (db.processed key).isSome (nxt (.error e))) ∧
      ∀ ws, (server true).run fault body db = .ok ((),ws) → Books key db ws ∧
        Rest m key (((server true).applyAll db ws).processed key).isSome (nxt (.ok ())) := by
    intro ids hrest
    rw [m.catchBlock_eq] at hrest
    cases hrest
    exact ⟨.thrown,fun ws hrun => ⟨(books_failure hrun).1,.failed⟩⟩
  generalize hrest : Proc.transaction body nxt = rest at h
  cases h with
  | handle ids =>
    cases hamount : m.amount with
    | none => exact hfailure ids (hrest.trans (m.handle_of_not_numeric key ids hamount))
    | some amount =>
      rw [m.handle_some key ids hamount] at hrest
      cases hrest
      exact ⟨fun _ => .catchBlock ids,fun ws hrun =>
        ⟨(books_call hrun).1,.notified hamount (books_call hrun).2⟩⟩
  | catchBlock ids => exact hfailure ids hrest
  | notified => cases hrest
  | failed => cases hrest
  | thrown e => cases hrest

end

namespace History
variable {numberText : String → String} {m : BalanceMessage} {key : Uuid} {s t : History}
  {a : HistoryAction}

/-- What holds in every run, whatever is repeated or lost. -/
structure Traced (numberText : String → String) (m : BalanceMessage) (key : Uuid) (s : History) :
    Prop where
  running : ∀ rest, .running rest ∈ s.deliveries → Rest m key (s.db.processed key).isSome rest
  moved : s.moved = (s.db.processed key).isSome.toNat
  notifications : ∀ n ∈ s.notifications,
    ∃ amount, m.amount = some amount ∧ n.message = m.notification amount
  docs : ∀ d ∈ s.docs,
    ∃ amount, m.amount = some amount ∧ d = document numberText (m.notification amount)

/-- What one step does. -/
inductive Effect (numberText : String → String) (m : BalanceMessage) (key : Uuid) (s : History) :
    HistoryAction → History → Prop
  | deliver : Effect numberText m key s .deliver {s with deliveries := s.deliveries++[.pending]}
  | proceed {a : HistoryAction} {i : ℕ} {d d' : Handling} (hi : s.deliveries[i]? = some d)
    (hd : d'.unfinished) (hrest : ∀ rest, d' = .running rest →
      Rest m key (s.db.processed key).isSome rest) : Effect numberText m key s a (s.setDelivery i d')
  | commit {a : HistoryAction} {i : ℕ} {d : Handling} {rest : Proc Stmt Res Unit Outcome}
    {ws : List Write} (hi : s.deliveries[i]? = some d) (hbooks : Books key s.db ws)
    (hrest : Rest m key (((server true).applyAll s.db ws).processed key).isSome rest) :
    Effect numberText m key s a {s.setDelivery i (.running rest) with
      db := (server true).applyAll s.db ws, commits := s.commits++[ws]}
  | finish {i : ℕ} {outcome : Outcome} (hi : s.deliveries[i]? = some (.running (.done outcome)))
    (hrest : Rest m key (s.db.processed key).isSome (.done outcome)) :
    Effect numberText m key s (.finish i) (s.finishDelivery i outcome)
  | others {db : UserDb} (hdb : (db.processed key).isSome = (s.db.processed key).isSome) :
    Effect numberText m key s (.others db) {s with db := db}
  | stage {a : HistoryAction} {j : ℕ} {message : RmqMessage} {old new : Stage}
    (hj : s.notifications[j]? = some ⟨message,old⟩) :
    Effect numberText m key s a (s.setStage j message new)
  | lost {a : HistoryAction} {j : ℕ} (hbad : s.careful key a = false) :
    Effect numberText m key s a (s.drop j)
  | stored {a : HistoryAction} {j : ℕ} {message : RmqMessage} {old : Stage}
    (hj : s.notifications[j]? = some ⟨message,old⟩) :
    Effect numberText m key s a {s.drop j with docs := s.docs++[document numberText message]}

theorem Traced.effect (h : s.Traced numberText m key) (hn : s.next numberText m key a = some t) :
    Effect numberText m key s a t := by
  cases a with
  | deliver =>
    cases hn
    exact .deliver
  | start i ids =>
    simp only [next] at hn
    split at hn
    next hi =>
      cases hn
      exact .proceed hi rfl fun rest hrest => by cases hrest; exact .handle ids
    next => cases hn
  | transact i fault =>
    simp only [next] at hn
    split at hn
    next body rest hi =>
      obtain ⟨herror,hok⟩ := (h.running _ (List.mem_of_getElem? hi)).transact
      split at hn
      next e _ =>
        cases hn
        exact .proceed hi rfl fun _ hrest => by cases hrest; exact herror e
      next r ws hrun =>
        cases hn
        exact .commit hi (hok ws hrun).1 (hok ws hrun).2
    next => cases hn
  | finish i =>
    simp only [next] at hn
    split at hn
    next outcome hi =>
      cases hn
      exact .finish hi (h.running _ (List.mem_of_getElem? hi))
    next => cases hn
  | abort i =>
    simp only [next] at hn
    split at hn
    next hi =>
      cases hn
      exact .proceed hi rfl nofun
    next => cases hn
  | others db =>
    simp only [next] at hn
    split at hn
    next hdb =>
      cases hn
      exact .others hdb
    next => cases hn
  | publish j arrives =>
    simp only [next] at hn
    split at hn
    next hj =>
      cases arrives with
      | true =>
        cases hn
        exact .stage hj
      | false =>
        cases hn
        exact .lost rfl
    next => cases hn
  | take j =>
    simp only [next] at hn
    split at hn
    next hj =>
      cases hn
      exact .stage hj
    next => cases hn
  | ack j =>
    simp only [next] at hn
    split at hn
    next hj =>
      cases hn
      exact .stage hj
    next => cases hn
  | save j stored =>
    simp only [next] at hn
    split at hn
    next hj =>
      cases stored with
      | true =>
        cases hn
        exact .stored hj
      | false =>
        cases hn
        exact .lost rfl
    next => cases hn
  | die j =>
    simp only [next] at hn
    split at hn
    next hj =>
      cases hn
      exact .stage hj
    next hj =>
      cases hn
      exact .lost (by simp [careful,hj])
    next => cases hn

theorem moved_append {ws : List Write} (h : t.commits = s.commits++[ws]) :
    t.moved = s.moved+(ws.any Services.isIncrement).toNat := by
  simp only [moved,h,List.countP_append,List.countP_singleton]
  cases ws.any Services.isIncrement <;> rfl

theorem mem_setDelivery {i : ℕ} {d x : Handling} (h : x ∈ (s.setDelivery i d).deliveries) :
    x ∈ s.deliveries ∨ x = d := List.mem_or_eq_of_mem_set h

theorem finishDelivery_of_silent {i : ℕ} {outcome : Outcome}
    (h : ∀ message, outcome ≠ .notified message) :
    s.finishDelivery i outcome = s.setDelivery i .finished := by
  cases outcome with
  | notified message => exact absurd rfl (h message)
  | failed => rfl
  | thrown e => rfl

theorem Traced.next (h : s.Traced numberText m key) (hn : s.next numberText m key a = some t) :
    t.Traced numberText m key := by
  cases h.effect hn with
  | deliver =>
    refine {h with running := fun rest hrest => h.running rest ?_}
    simpa using hrest
  | proceed hi hd hrest =>
    refine {h with running := fun rest hmem => ?_}
    rcases mem_setDelivery hmem with hold | hnew
    · exact h.running rest hold
    · exact hrest rest hnew.symm
  | commit hi hbooks hrest =>
    refine {h with running := fun rest hmem => ?_, moved := ?_}
    · rcases mem_setDelivery hmem with hold | hnew
      · exact (h.running rest hold).mono hbooks.isSome
      · cases hnew
        exact hrest
    · rw [moved_append (s := s) rfl,h.moved]
      exact hbooks.symm
  | @finish i outcome hi hrest =>
    have hrunning : ∀ rest, .running rest ∈ (s.setDelivery i .finished).deliveries →
        Rest m key (s.db.processed key).isSome rest := by
      intro rest hmem
      rcases mem_setDelivery hmem with hold | hnew
      · exact h.running rest hold
      · cases hnew
    rcases hrest.of_done with ⟨amount,hamount,-,rfl⟩ | hsilent
    · refine {h with running := hrunning, notifications := fun n hn => ?_}
      rcases List.mem_append.mp hn with hold | hnew
      · exact h.notifications n hold
      · rw [List.mem_singleton.mp hnew]
        exact ⟨amount,hamount,rfl⟩
    · rw [finishDelivery_of_silent hsilent]
      exact {h with running := hrunning}
  | others hdb => exact {h with running := hdb ▸ h.running, moved := hdb ▸ h.moved}
  | stage hj =>
    refine {h with notifications := fun n hn => ?_}
    rcases List.mem_or_eq_of_mem_set hn with hold | rfl
    · exact h.notifications n hold
    · obtain ⟨amount,hamount,hmessage⟩ := h.notifications _ (List.mem_of_getElem? hj)
      exact ⟨amount,hamount,hmessage⟩
  | lost =>
    exact {h with notifications := fun n hn => h.notifications n (List.mem_of_mem_eraseIdx hn)}
  | stored hj =>
    refine {h with notifications := fun n hn => h.notifications n (List.mem_of_mem_eraseIdx hn),
                   docs := fun d hd => ?_}
    rcases List.mem_append.mp hd with hold | hnew
    · exact h.docs d hold
    · obtain ⟨amount,hamount,hmessage⟩ := h.notifications _ (List.mem_of_getElem? hj)
      rw [List.mem_singleton.mp hnew]
      exact ⟨amount,hamount,congrArg (document numberText) hmessage⟩

/-- Each notification that was emitted is on its way or in the collection, there is at most one, and
a recorded message is not done with before it is emitted. -/
structure Accounted (key : Uuid) (s : History) : Prop where
  sent : s.sent = s.notifications.length+s.docs.length
  once : s.sent ≤ 1
  recorded : s.sent ≠ 0 → (s.db.processed key).isSome
  owed : (s.db.processed key).isSome → s.sent = 0 → s.deliveries.any Handling.unfinished

theorem any_unfinished_set {i : ℕ} {d d' : Handling} (hi : s.deliveries[i]? = some d)
    (hd : d'.unfinished) : (s.setDelivery i d').deliveries.any Handling.unfinished :=
  List.any_eq_true.mpr ⟨d',List.mem_set (List.getElem?_eq_some_iff.mp hi).1 d',hd⟩

/-- The last delivery of a recorded message does not end in silence. -/
theorem owed_of_careful {i : ℕ} {outcome : Outcome}
    (hi : s.deliveries[i]? = some (.running (.done outcome)))
    (hsilent : ∀ message, outcome ≠ .notified message) (hgood : s.careful key (.finish i))
    (hrecorded : (s.db.processed key).isSome) (hsent : s.sent = 0) :
    (s.setDelivery i .finished).deliveries.any Handling.unfinished := by
  have hsome : (s.db.processed key).isNone = false := by
    rw [← Option.not_isSome,hrecorded]
    rfl
  have hzero : decide (s.sent ≠ 0) = false := by simp [hsent]
  cases outcome with
  | notified message => exact absurd rfl (hsilent message)
  | failed => simpa only [careful,hi,hsome,hzero,Bool.false_or,setDelivery] using hgood
  | thrown e => simpa only [careful,hi,hsome,hzero,Bool.false_or,setDelivery] using hgood

theorem Accounted.next (h : s.Accounted key) (htraced : s.Traced numberText m key)
    (hgood : s.careful key a) (hn : s.next numberText m key a = some t) : t.Accounted key := by
  cases htraced.effect hn with
  | deliver => exact {h with owed := fun _ _ => by simp [Handling.unfinished]}
  | proceed hi hd hrest => exact {h with owed := fun _ _ => any_unfinished_set hi hd}
  | commit hi hbooks hrest =>
    exact {h with recorded := fun hsent => hbooks.isSome (h.recorded hsent),
                  owed := fun _ _ => any_unfinished_set hi rfl}
  | finish hi hrest =>
    rcases hrest.of_done with ⟨amount,-,hrecorded,rfl⟩ | hsilent
    · simp only [careful,hi] at hgood
      have hzero : s.sent = 0 := of_decide_eq_true hgood
      have hsent := h.sent
      refine ⟨?_,?_,fun _ => hrecorded,fun _ hnone => ?_⟩
      · simp only [finishDelivery,setDelivery,List.length_append,List.length_singleton]
        omega
      · simp only [finishDelivery]
        omega
      · simp only [finishDelivery] at hnone
        omega
    · rw [finishDelivery_of_silent hsilent]
      exact {h with owed := owed_of_careful hi hsilent hgood}
  | others hdb => exact {h with recorded := hdb ▸ h.recorded, owed := hdb ▸ h.owed}
  | stage hj => exact {h with sent := by rw [setStage,List.length_set]; exact h.sent}
  | lost hbad =>
    rw [hbad] at hgood
    contradiction
  | stored hj =>
    refine {h with sent := ?_}
    have hlt := (List.getElem?_eq_some_iff.mp hj).1
    have hsent := h.sent
    simp only [drop,List.length_append,List.length_singleton,List.length_eraseIdx_of_lt hlt]
    omega

theorem traced_initial {db : UserDb} (h : db.processed key = none) :
    (initial db).Traced numberText m key where
  running := fun _ h => absurd h List.not_mem_nil
  moved := by simp [initial,moved,h]
  notifications := List.forall_mem_nil _
  docs := List.forall_mem_nil _

theorem accounted_initial {db : UserDb} (h : db.processed key = none) :
    (initial db).Accounted key where
  sent := rfl
  once := Nat.zero_le 1
  recorded := fun hsent => absurd rfl hsent
  owed := fun hrecorded => by simp [initial,h] at hrecorded

/-- Whatever is repeated or lost, the money moves once at most, and all documents are about it. -/
theorem traced {db₀ : UserDb} {as : List HistoryAction} (h0 : db₀.processed key = none)
    (hr : runs (History.next numberText m key) (initial db₀) as = some s) : s.Traced numberText m key :=
  runs_invariant' (fun _ _ _ h hn => h.next hn) (traced_initial h0) hr

/-- In a run of careful steps, the documents are as many as the movements of money whenever nothing
of the message is under way. -/
theorem one_document_per_movement (m : BalanceMessage) (key : Uuid) {db₀ : UserDb}
    (h0 : db₀.processed key = none) {as : List HistoryAction}
    (hgood : Along (History.next numberText m key) (fun s a => s.careful key a) (initial db₀) as)
    (hr : runs (History.next numberText m key) (initial db₀) as = some s) (hquiet : s.quiet) :
    s.docs.length = s.moved ∧ s.moved ≤ 1 := by
  obtain ⟨htraced,haccounted⟩ : s.Traced numberText m key ∧ s.Accounted key :=
    runs_invariant (I := fun s => s.Traced numberText m key ∧ s.Accounted key)
      (fun _ _ _ h hg hn => ⟨h.1.next hn,h.2.next h.1 hg hn⟩)
      ⟨traced_initial h0,accounted_initial h0⟩ hgood hr
  simp only [quiet,Bool.and_eq_true,Bool.not_eq_true',List.isEmpty_iff] at hquiet
  have hsent := haccounted.sent
  have honce := haccounted.once
  rw [hquiet.2,List.length_nil] at hsent
  rw [htraced.moved]
  cases hrecorded : (s.db.processed key).isSome with
  | true =>
    have hne : s.sent ≠ 0 := fun hzero => by
      have howed := haccounted.owed hrecorded hzero
      rw [hquiet.1] at howed
      contradiction
    rw [Bool.toNat_true]
    omega
  | false =>
    have hzero : s.sent = 0 := by
      by_contra hne
      have := haccounted.recorded hne
      rw [hrecorded] at this
      contradiction
    rw [Bool.toNat_false]
    omega

/-- The user service stops after the commit and before `emit`, and the notification service before
`ack`. Both do their work again. -/
theorem one_document_per_movement_restarts :
    let m : BalanceMessage := .depositPaidSuccess ⟨40,20,10,"RUB","500"⟩
    let as : List HistoryAction := [.deliver,.start 0 ⟨60,61,62⟩,.transact 0 none,.abort 0,
      .start 0 ⟨63,64,65⟩,.transact 0 none,.finish 0,.publish 0 true,.take 0,.die 0,.take 0,.ack 0,
      .save 0 true]
    ∃ s, runs (History.next id m 5) (initial ⟨[⟨1,0,"RUB",10,none⟩],[],[]⟩) as = some s ∧
      s.docs.length = s.moved ∧ s.moved = 1 := by
  intro m as
  have hrun : ∃ s ∈ runs (History.next id m 5) (initial ⟨[⟨1,0,"RUB",10,none⟩],[],[]⟩) as,
      s.quiet ∧ s.moved = 1 := by
    decide +kernel
  obtain ⟨s,hs,hquiet,hmoved⟩ := hrun
  refine ⟨s,hs,(one_document_per_movement m 5 rfl ?_ hs hquiet).1,hmoved⟩
  decide +kernel

/-- A message that is delivered again after its notification was emitted has two documents, and one
whose document could not be saved has none. -/
theorem documents_are_not_movements :
    let m : BalanceMessage := .depositPaidSuccess ⟨40,20,10,"RUB","500"⟩
    let db₀ : UserDb := ⟨[⟨1,0,"RUB",10,none⟩],[],[]⟩
    let first : List HistoryAction := [.deliver,.start 0 ⟨60,61,62⟩,.transact 0 none,.finish 0,
      .publish 0 true,.take 0,.ack 0]
    let again : List HistoryAction := [.deliver,.start 1 ⟨63,64,65⟩,.transact 1 none,.finish 1,
      .publish 0 true,.take 0,.ack 0,.save 0 true]
    db₀.processed 5 = none ∧
      (∃ s ∈ runs (History.next id m 5) (initial db₀) (first++[.save 0 true]++again),
        s.quiet ∧ s.moved = 1 ∧ s.docs.length = 2) ∧
      ∃ s ∈ runs (History.next id m 5) (initial db₀) (first++[.save 0 false]),
        s.quiet ∧ s.moved = 1 ∧ s.docs.length = 0 := by
  decide +kernel

end History
end NestHomework.NotificationService
