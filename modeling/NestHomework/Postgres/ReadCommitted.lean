import Mathlib.Logic.Function.Basic
import NestHomework.Transition.Run
import NestHomework.Postgres.Transaction

/-! PostgreSQL at `READ COMMITTED`, one statement at a time. A session runs the transactions of a
handler. A statement plans the row locks it needs, takes them one by one, waiting while another
session holds a conflicting one, and then answers from what is committed at that moment and its own
uncommitted writes. Locks and unique-index entries stay with the session until its transaction
ends. -/
namespace NestHomework.Postgres

/-- Row lock modes, from weak to strong. -/
inductive RowLock where
  | keyShare | share | noKeyUpdate | update
  deriving DecidableEq, Repr

/-- The conflict table of row locks. -/
def RowLock.conflicts : RowLock → RowLock → Bool
  | .keyShare, .update => true
  | .keyShare, _ => false
  | .share, .noKeyUpdate => true
  | .share, .update => true
  | .share, _ => false
  | .noKeyUpdate, .keyShare => false
  | .noKeyUpdate, _ => true
  | .update, _ => true

/-- The modes that a row is held in before it is written. -/
def RowLock.exclusive : RowLock → Bool
  | .noKeyUpdate => true
  | .update => true
  | _ => false

theorem RowLock.conflicts_comm (m n : RowLock) : m.conflicts n = n.conflicts m := by
  cases m <;> cases n <;> rfl

theorem RowLock.conflicts_of_exclusive {m n : RowLock} (hm : m.exclusive) (hn : n.exclusive) :
    m.conflicts n := by
  cases m <;> cases n <;> simp_all [exclusive,conflicts]

/-- An engine with row locks and a unique index. `plans` holds of the orders in which a statement
may take its locks, `reads` are the rows whose latest version it answers from, and `inserts` are
the entries it adds to the unique index. -/
structure Server (Stmt : Type) (Res : Stmt → Type) (DB Write Row Key : Type) extends
    Engine Stmt Res DB Write where
  plans : Stmt → DB → List (Row × RowLock) → Bool
  reads : Stmt → DB → List Row
  inserts : Stmt → List Key

variable {Stmt : Type} {Res : Stmt → Type} {DB Write Row Key ρ ω T : Type}

/-- A transaction in progress: its whole body, what is left of it, its uncommitted writes, the
locks its current statement still has to take, the statements answered so far, and the rest of
the handler. -/
structure Active (Res : Stmt → Type) (Write Row ρ ω : Type) where
  body : Tx Stmt Res ρ
  cur : Tx Stmt Res ρ
  pending : List Write
  plan : Option (List (Row × RowLock))
  answered : List ((s : Stmt) × Res s)
  next : Except String ρ → Proc Stmt Res ρ ω

inductive Session (Res : Stmt → Type) (Write Row ρ ω : Type) where
  | idle (rest : Proc Stmt Res ρ ω)
  | active (a : Active Res Write Row ρ ω)

/-- The handler has ended. -/
def Session.finished : Session Res Write Row ρ ω → Bool
  | .idle (.done _) => true
  | _ => false

theorem Session.finished_iff {x : Session Res Write Row ρ ω} :
    x.finished ↔ ∃ o, x = .idle (.done o) := by
  constructor
  · intro h
    unfold finished at h
    split at h
    · exact ⟨_,rfl⟩
    · contradiction
  · rintro ⟨o,rfl⟩
    rfl

/-- One line of the commit history. -/
structure Commit (Res : Stmt → Type) (Write ρ T : Type) where
  session : T
  body : Tx Stmt Res ρ
  value : ρ
  writes : List Write

/-- The committed database, the lock table, the uncommitted index entries, the sessions, and the
history of commits. -/
structure State (Res : Stmt → Type) (DB Write Row Key ρ ω T : Type) where
  db : DB
  held : List (T × Row × RowLock)
  entries : List (T × Key)
  session : T → Session Res Write Row ρ ω
  log : List (Commit Res Write ρ T)

inductive SessionAction (Row T : Type) where
  | begin (t : T)
  | start (t : T) (plan : List (Row × RowLock))
  | lock (t : T)
  | exec (t : T)
  | commit (t : T)
  | rollback (t : T)
  | abort (t : T)
  deriving DecidableEq

def SessionAction.aborts : SessionAction Row T → Bool
  | .abort _ => true
  | _ => false

/-- The session that makes the step. -/
def SessionAction.session : SessionAction Row T → T
  | .begin t | .start t _ | .lock t | .exec t | .commit t | .rollback t | .abort t => t

namespace State
variable (s : State Res DB Write Row Key ρ ω T)

/-- No other session holds the row in a conflicting mode. -/
def free [DecidableEq T] [DecidableEq Row] (t : T) (r : Row) (m : RowLock) : Bool :=
  s.held.all (fun h => h.1 = t || h.2.1 ≠ r || !m.conflicts h.2.2)

/-- The session holds the row in a mode for writing. -/
def owns [DecidableEq T] [DecidableEq Row] (t : T) (r : Row) : Bool :=
  s.held.any (fun h => h.1 = t && h.2.1 = r && h.2.2.exclusive)

/-- No other session has the entry uncommitted. -/
def unclaimed [DecidableEq T] [DecidableEq Key] (t : T) (k : Key) : Bool :=
  s.entries.all (fun e => e.1 = t || e.2 ≠ k)

def takeLock (t : T) (r : Row) (m : RowLock) : State Res DB Write Row Key ρ ω T :=
  {s with held := s.held++[(t,r,m)]}

def claim (t : T) (ks : List Key) : State Res DB Write Row Key ρ ω T :=
  {s with entries := s.entries++ks.map (fun k => (t,k))}

/-- The writes of a transaction become the committed state. -/
def record (db : DB) (c : Commit Res Write ρ T) : State Res DB Write Row Key ρ ω T :=
  {s with db := db, log := s.log++[c]}

def setActive [DecidableEq T] (t : T) (a : Active Res Write Row ρ ω) :
    State Res DB Write Row Key ρ ω T :=
  {s with session := Function.update s.session t (.active a)}

/-- The end of a transaction: its locks and uncommitted entries go, the handler moves on. -/
def finish [DecidableEq T] (t : T) (rest : Proc Stmt Res ρ ω) :
    State Res DB Write Row Key ρ ω T :=
  {s with
    held := s.held.filter (fun h => h.1 ≠ t)
    entries := s.entries.filter (fun e => e.1 ≠ t)
    session := Function.update s.session t (.idle rest)}

@[simp] theorem setActive_session [DecidableEq T] (t u : T) (a : Active Res Write Row ρ ω) :
    (s.setActive t a).session u = if u = t then .active a else s.session u := by
  simp [setActive,Function.update_apply]

@[simp] theorem finish_session [DecidableEq T] (t u : T) (rest : Proc Stmt Res ρ ω) :
    (s.finish t rest).session u = if u = t then .idle rest else s.session u := by
  simp [finish,Function.update_apply]

theorem setActive_self [DecidableEq T] (t : T) (a : Active Res Write Row ρ ω) :
    (s.setActive t a).session t = .active a := by simp

theorem setActive_of_ne [DecidableEq T] {t u : T} (a : Active Res Write Row ρ ω) (h : u ≠ t) :
    (s.setActive t a).session u = s.session u := by simp [h]

theorem finish_self [DecidableEq T] (t : T) (rest : Proc Stmt Res ρ ω) :
    (s.finish t rest).session t = .idle rest := by simp

theorem finish_of_ne [DecidableEq T] {t u : T} (rest : Proc Stmt Res ρ ω) (h : u ≠ t) :
    (s.finish t rest).session u = s.session u := by simp [h]

@[simp] theorem takeLock_session (t u : T) (r : Row) (m : RowLock) :
    (s.takeLock t r m).session u = s.session u := rfl
@[simp] theorem claim_session (t u : T) (ks : List Key) :
    (s.claim t ks).session u = s.session u := rfl
@[simp] theorem record_session (u : T) (db : DB) (c : Commit Res Write ρ T) :
    (s.record db c).session u = s.session u := rfl

section Fields
variable (t : T) (a : Active Res Write Row ρ ω) (rest : Proc Stmt Res ρ ω) (db : DB)
  (c : Commit Res Write ρ T) (r : Row) (m : RowLock) (ks : List Key)

@[simp] theorem takeLock_db : (s.takeLock t r m).db = s.db := rfl
@[simp] theorem claim_db : (s.claim t ks).db = s.db := rfl
@[simp] theorem record_db : (s.record db c).db = db := rfl
@[simp] theorem takeLock_log : (s.takeLock t r m).log = s.log := rfl
@[simp] theorem claim_log : (s.claim t ks).log = s.log := rfl
@[simp] theorem record_log : (s.record db c).log = s.log++[c] := rfl
@[simp] theorem claim_held : (s.claim t ks).held = s.held := rfl
@[simp] theorem record_held : (s.record db c).held = s.held := rfl
@[simp] theorem takeLock_held : (s.takeLock t r m).held = s.held++[(t,r,m)] := rfl
@[simp] theorem takeLock_entries : (s.takeLock t r m).entries = s.entries := rfl
@[simp] theorem record_entries : (s.record db c).entries = s.entries := rfl
@[simp] theorem claim_entries :
    (s.claim t ks).entries = s.entries++ks.map (fun k => (t,k)) := rfl

variable [DecidableEq T]

@[simp] theorem setActive_db : (s.setActive t a).db = s.db := rfl
@[simp] theorem finish_db : (s.finish t rest).db = s.db := rfl
@[simp] theorem setActive_log : (s.setActive t a).log = s.log := rfl
@[simp] theorem finish_log : (s.finish t rest).log = s.log := rfl
@[simp] theorem setActive_held : (s.setActive t a).held = s.held := rfl
@[simp] theorem finish_held :
    (s.finish t rest).held = s.held.filter (fun h => h.1 ≠ t) := rfl
@[simp] theorem setActive_entries : (s.setActive t a).entries = s.entries := rfl
@[simp] theorem finish_entries :
    (s.finish t rest).entries = s.entries.filter (fun e => e.1 ≠ t) := rfl

end Fields

section Tables
variable [DecidableEq T] {s : State Res DB Write Row Key ρ ω T} {t : T}

theorem owns_iff [DecidableEq Row] {r : Row} :
    s.owns t r ↔ ∃ m, (t,r,m) ∈ s.held ∧ m.exclusive := by
  simp only [owns,List.any_eq_true,Bool.and_eq_true,decide_eq_true_eq]
  constructor
  · rintro ⟨⟨u,q,m⟩,hm,⟨rfl,rfl⟩,he⟩; exact ⟨m,hm,he⟩
  · rintro ⟨m,hm,he⟩; exact ⟨_,hm,⟨rfl,rfl⟩,he⟩

/-- The end of one session takes no lock from another. -/
theorem owns_finish [DecidableEq Row] {u : T} (hne : u ≠ t) (rest : Proc Stmt Res ρ ω) (r : Row) :
    (s.finish t rest).owns u r = s.owns u r := by
  rw [Bool.eq_iff_iff,owns_iff,owns_iff]
  simp [hne]

theorem free_iff [DecidableEq Row] {r : Row} {m : RowLock} :
    s.free t r m ↔ ∀ u n, (u,r,n) ∈ s.held → u ≠ t → m.conflicts n = false := by
  simp only [free,List.all_eq_true,Bool.or_eq_true,decide_eq_true_eq,Bool.not_eq_true',ne_eq]
  constructor
  · intro h u n hm hne
    rcases h _ hm with (h | h) | h
    · exact absurd h hne
    · exact absurd rfl h
    · exact h
  · rintro h ⟨u,q,n⟩ hm
    by_cases hu : u = t
    · exact .inl (.inl hu)
    · by_cases hq : q = r
      · subst hq; exact .inr (h u n hm hu)
      · exact .inl (.inr hq)

theorem unclaimed_iff [DecidableEq Key] {k : Key} :
    s.unclaimed t k ↔ ∀ u, (u,k) ∈ s.entries → u = t := by
  simp only [unclaimed,List.all_eq_true,Bool.or_eq_true,decide_eq_true_eq,ne_eq]
  constructor
  · intro h u hm
    rcases h _ hm with h | h
    · exact h
    · exact absurd rfl h
  · rintro h ⟨u,q⟩ hm
    by_cases hq : q = k
    · subst hq; exact .inl (h u hm)
    · exact .inr hq

end Tables
end State

namespace Server
variable [DecidableEq T] [DecidableEq Row] [DecidableEq Key]
variable (S : Server Stmt Res DB Write Row Key)

/-- What a transaction sees: the committed state under its own writes. -/
def view (db : DB) (a : Active Res Write Row ρ ω) : DB := S.applyAll db a.pending

/-- One step of the server. -/
def next (s : State Res DB Write Row Key ρ ω T) :
    SessionAction Row T → Option (State Res DB Write Row Key ρ ω T)
  | .begin t =>
    match s.session t with
    | .idle (.transaction body next) => some (s.setActive t ⟨body,body,[],none,[],next⟩)
    | _ => none
  | .start t plan =>
    match s.session t with
    | .active ⟨body,.exec st k,pending,none,answered,next⟩ =>
      if S.plans st (S.applyAll s.db pending) plan then
        some (s.setActive t ⟨body,.exec st k,pending,some plan,answered,next⟩)
      else none
    | _ => none
  | .lock t =>
    match s.session t with
    | .active ⟨body,cur,pending,some ((r,m)::plan),answered,next⟩ =>
      if s.free t r m then
        some ((s.takeLock t r m).setActive t ⟨body,cur,pending,some plan,answered,next⟩)
      else none
    | _ => none
  | .exec t =>
    match s.session t with
    | .active ⟨body,.exec st k,pending,some [],answered,next⟩ =>
      if (S.reads st (S.applyAll s.db pending)).all (s.owns t) &&
          (S.inserts st).all (s.unclaimed t) then
        match S.exec st (S.applyAll s.db pending) with
        | .ok (r,ws) =>
          some ((s.claim t (S.inserts st)).setActive t
            ⟨body,k r,pending++ws,none,answered++[⟨st,r⟩],next⟩)
        | .error e => some (s.finish t (next (.error e)))
      else none
    | _ => none
  | .commit t =>
    match s.session t with
    | .active ⟨body,.pure x,pending,_,_,next⟩ =>
      some ((s.record (S.applyAll s.db pending) ⟨t,body,x,pending⟩).finish t (next (.ok x)))
    | _ => none
  | .rollback t =>
    match s.session t with
    | .active ⟨_,.throw e,_,_,_,next⟩ => some (s.finish t (next (.error e)))
    | _ => none
  | .abort t =>
    match s.session t with
    | .active a => some (s.finish t (a.next (.error "transaction aborted")))
    | _ => none

/-- All sessions are about to start their handlers over one committed database. -/
def initial (db : DB) (handler : T → Proc Stmt Res ρ ω) : State Res DB Write Row Key ρ ω T :=
  ⟨db,[],[],fun t => .idle (handler t),[]⟩

/-- The states that some schedule of the handlers reaches. -/
def Reachable (db : DB) (handler : T → Proc Stmt Res ρ ω)
    (s : State Res DB Write Row Key ρ ω T) : Prop :=
  ∃ schedule, Transition.runs S.next (initial db handler) schedule = some s

section Steps
variable {S} {s s' : State Res DB Write Row Key ρ ω T} {t : T}

theorem next_begin (h : S.next s (.begin t) = some s') :
    ∃ body next, s.session t = .idle (.transaction body next) ∧
      s' = s.setActive t ⟨body,body,[],none,[],next⟩ := by
  simp only [Server.next] at h
  split at h
  · exact ⟨_,_,by assumption,by simpa using h.symm⟩
  · contradiction

theorem next_start {plan : List (Row × RowLock)} (h : S.next s (.start t plan) = some s') :
    ∃ a st k, s.session t = .active a ∧ a.cur = .exec st k ∧ a.plan = none ∧
      S.plans st (S.view s.db a) plan ∧ s' = s.setActive t {a with plan := some plan} := by
  simp only [Server.next] at h
  split at h
  · rename_i body st k pending answered next ha
    split at h
    · exact ⟨_,st,k,ha,rfl,rfl,by assumption,by simpa using h.symm⟩
    · contradiction
  · contradiction

theorem next_lock (h : S.next s (.lock t) = some s') :
    ∃ a r m plan, s.session t = .active a ∧ a.plan = some ((r,m)::plan) ∧ s.free t r m ∧
      s' = (s.takeLock t r m).setActive t {a with plan := some plan} := by
  simp only [Server.next] at h
  split at h
  · rename_i body cur pending r m plan answered next ha
    split at h
    · exact ⟨_,r,m,plan,ha,rfl,by assumption,by simpa using h.symm⟩
    · contradiction
  · contradiction

/-- A statement answers and the body goes on, or its error ends the transaction. -/
theorem next_exec (h : S.next s (.exec t) = some s') :
    ∃ a st k, s.session t = .active a ∧ a.cur = .exec st k ∧ a.plan = some [] ∧
      (∀ r ∈ S.reads st (S.view s.db a), s.owns t r) ∧ (∀ k ∈ S.inserts st, s.unclaimed t k) ∧
      ((∃ r ws, S.exec st (S.view s.db a) = .ok (r,ws) ∧
          s' = (s.claim t (S.inserts st)).setActive t
            {a with
              cur := k r
              pending := a.pending++ws
              plan := none
              answered := a.answered++[⟨st,r⟩]}) ∨
        (∃ e, S.exec st (S.view s.db a) = .error e ∧ s' = s.finish t (a.next (.error e)))) := by
  simp only [Server.next] at h
  split at h
  · rename_i body st k pending answered next ha
    split at h
    · rename_i hg
      simp only [Bool.and_eq_true,List.all_eq_true] at hg
      refine ⟨_,st,k,ha,rfl,rfl,hg.1,hg.2,?_⟩
      split at h
      · rename_i r ws he
        exact .inl ⟨r,ws,he,by simpa using h.symm⟩
      · rename_i e he
        exact .inr ⟨e,he,by simpa using h.symm⟩
    · contradiction
  · contradiction

theorem next_commit (h : S.next s (.commit t) = some s') :
    ∃ a x, s.session t = .active a ∧ a.cur = .pure x ∧
      s' = (s.record (S.view s.db a) ⟨t,a.body,x,a.pending⟩).finish t (a.next (.ok x)) := by
  simp only [Server.next] at h
  split at h
  · exact ⟨_,_,by assumption,rfl,by simpa [view] using h.symm⟩
  · contradiction

theorem next_rollback (h : S.next s (.rollback t) = some s') :
    ∃ a e, s.session t = .active a ∧ a.cur = .throw e ∧ s' = s.finish t (a.next (.error e)) := by
  simp only [Server.next] at h
  split at h
  · exact ⟨_,_,by assumption,rfl,by simpa using h.symm⟩
  · contradiction

theorem next_abort (h : S.next s (.abort t) = some s') :
    ∃ a, s.session t = .active a ∧
      s' = s.finish t (a.next (.error "transaction aborted")) := by
  simp only [Server.next] at h
  split at h
  · exact ⟨_,by assumption,by simpa using h.symm⟩
  · contradiction

/-- Why a transaction ends without a commit. -/
inductive Fails (S : Server Stmt Res DB Write Row Key) (db : DB) (a : Active Res Write Row ρ ω)
    (act : SessionAction Row T) (e : String) : Prop
  | statement {st k} (cur : a.cur = .exec st k) (error : S.exec st (S.view db a) = .error e)
  | thrown (cur : a.cur = .throw e)
  | aborted (abort : act.aborts)

/-- What a step does to its session, to the committed database and to the history. -/
inductive Moves [DecidableEq T] [DecidableEq Row] (S : Server Stmt Res DB Write Row Key) (s s' : State Res DB Write Row Key ρ ω T)
    (act : SessionAction Row T) : Prop
  | begins {body next} (before : s.session act.session = .idle (.transaction body next))
      (after : s'.session act.session = .active ⟨body,body,[],none,[],next⟩) (db : s'.db = s.db)
      (log : s'.log = s.log)
  | waits {a plan} (before : s.session act.session = .active a)
      (after : s'.session act.session = .active {a with plan := plan}) (db : s'.db = s.db)
      (log : s'.log = s.log)
  | answers {a st k r ws} (exec : act = .exec act.session)
      (before : s.session act.session = .active a) (cur : a.cur = .exec st k)
      (answer : S.exec st (S.view s.db a) = .ok (r,ws))
      (rows : ∀ q ∈ S.reads st (S.view s.db a), s'.owns act.session q)
      (after : s'.session act.session = .active
        {a with
          cur := k r
          pending := a.pending++ws
          plan := none
          answered := a.answered++[⟨st,r⟩]})
      (db : s'.db = s.db) (log : s'.log = s.log)
  | commits {a x} (before : s.session act.session = .active a) (cur : a.cur = .pure x)
      (after : s'.session act.session = .idle (a.next (.ok x))) (db : s'.db = S.view s.db a)
      (log : s'.log = s.log++[⟨act.session,a.body,x,a.pending⟩])
      (commit : act = .commit act.session)
  | fails {a e} (before : s.session act.session = .active a) (why : Fails S s.db a act e)
      (after : s'.session act.session = .idle (a.next (.error e))) (db : s'.db = s.db)
      (log : s'.log = s.log)

omit [DecidableEq Key] in
/-- The history grows. -/
theorem Moves.mem_log {act : SessionAction Row T} (h : Moves S s s' act) {c : Commit Res Write ρ T}
    (hc : c ∈ s.log) : c ∈ s'.log := by
  cases h with
  | commits _ _ _ _ log => rw [log]; exact List.mem_append_left _ hc
  | begins _ _ _ log => rwa [log]
  | waits _ _ _ log => rwa [log]
  | answers _ _ _ _ _ _ _ log => rwa [log]
  | fails _ _ _ _ log => rwa [log]

omit [DecidableEq Key] in
/-- A step changes the committed database by the writes of at most one transaction. -/
theorem Moves.exists_writes {act : SessionAction Row T} (h : Moves S s s' act) :
    ∃ ws, s'.db = S.applyAll s.db ws := by
  cases h with
  | commits _ _ _ db => exact ⟨_,db⟩
  | begins _ _ db => exact ⟨[],db⟩
  | waits _ _ db => exact ⟨[],db⟩
  | answers _ _ _ _ _ _ db => exact ⟨[],db⟩
  | fails _ _ _ db => exact ⟨[],db⟩

/-- A step moves its own session and leaves the others where they are. -/
theorem moves_of_next {act : SessionAction Row T} (h : S.next s act = some s') :
    Moves S s s' act ∧ ∀ u, u ≠ act.session → s'.session u = s.session u := by
  cases act with
  | «begin» t =>
    obtain ⟨body,next,hi,rfl⟩ := next_begin h
    exact ⟨.begins hi (State.setActive_self ..) rfl rfl,fun _ hu => State.setActive_of_ne _ _ hu⟩
  | start t plan =>
    obtain ⟨a,st,k,ha,-,-,-,rfl⟩ := next_start h
    exact ⟨.waits ha (State.setActive_self ..) rfl rfl,fun _ hu => State.setActive_of_ne _ _ hu⟩
  | lock t =>
    obtain ⟨a,r,m,plan,ha,-,-,rfl⟩ := next_lock h
    exact ⟨.waits ha (State.setActive_self ..) rfl rfl,fun _ hu => State.setActive_of_ne _ _ hu⟩
  | exec t =>
    obtain ⟨a,st,k,ha,hc,-,hrows,-,⟨r,ws,hr,rfl⟩ | ⟨e,he,rfl⟩⟩ := next_exec h
    · exact ⟨.answers rfl ha hc hr hrows (State.setActive_self ..) rfl rfl,
        fun _ hu => State.setActive_of_ne _ _ hu⟩
    · exact ⟨.fails ha (.statement hc he) (State.finish_self ..) rfl rfl,
        fun _ hu => State.finish_of_ne _ _ hu⟩
  | commit t =>
    obtain ⟨a,x,ha,hc,rfl⟩ := next_commit h
    exact ⟨.commits ha hc (State.finish_self ..) rfl rfl rfl,fun _ hu => State.finish_of_ne _ _ hu⟩
  | rollback t =>
    obtain ⟨a,e,ha,hc,rfl⟩ := next_rollback h
    exact ⟨.fails ha (.thrown hc) (State.finish_self ..) rfl rfl,fun _ hu => State.finish_of_ne _ _ hu⟩
  | abort t =>
    obtain ⟨a,ha,rfl⟩ := next_abort h
    exact ⟨.fails ha (.aborted rfl) (State.finish_self ..) rfl rfl,
      fun _ hu => State.finish_of_ne _ _ hu⟩

/-- A session whose handler has ended makes no step. -/
theorem session_ne_of_done {o : ω} {as : List (SessionAction Row T)}
    (hd : s.session t = .idle (.done o)) (hr : Transition.runs S.next s as = some s') :
    ∀ act ∈ as, act.session ≠ t := by
  induction as generalizing s with
  | nil => simp
  | cons act as ih =>
    obtain ⟨u,hu,hrest⟩ := Transition.runs_cons.mp hr
    obtain ⟨hmoves,hframe⟩ := moves_of_next hu
    have hne : act.session ≠ t := by
      rintro rfl
      cases hmoves with
      | begins before => simp [before] at hd
      | waits before => simp [before] at hd
      | answers _ before => simp [before] at hd
      | commits before => simp [before] at hd
      | fails before => simp [before] at hd
    intro act' hmem
    rcases List.mem_cons.mp hmem with rfl | hmem
    · exact hne
    · exact ih (by rw [hframe t hne.symm,hd]) hrest act' hmem

end Steps
end Server
end NestHomework.Postgres
