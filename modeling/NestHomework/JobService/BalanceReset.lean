import NestHomework.Grpc.RpcCall
import NestHomework.Shared.Count

/-! The reset of all balances: from the gateway through the user service to the queue of the job
service, and back to the user service. Every call on the way is tried again, and so is a job. -/
namespace NestHomework.JobService
open Contracts FileService Grpc Transition

/-- The `retries` of a call, the `attempts` of a job, and how often the worker takes up a stalled
job again. -/
structure ResetOptions where
  retries : ℕ
  attempts : ℕ
  maxStalledCount : ℕ
  attempts_pos : 0 < attempts

def ResetOptions.default : ResetOptions := ⟨2,3,1,by decide⟩

/-- `resetAllBalances` of `BalanceService`, for one attempt of the worker. -/
structure ResetHandler where
  updated : Bool
  result : Option (Except CallError ℕ)
  deriving DecidableEq

def ResetHandler.sent : ResetHandler := ⟨false,none⟩

inductive JobMethod where
  | putResetBalanceJob
  | startResetBalanceJob
  | stopResetBalanceJob
  deriving DecidableEq, Repr

/-- A method of `JobService`, for one attempt of the user service. -/
structure JobHandler where
  executed : Bool
  result : Option (Except CallError String)
  deriving DecidableEq

def JobHandler.sent : JobHandler := ⟨false,none⟩

/-- A method of `BalanceService`, for one attempt of the gateway. -/
structure AdminHandler where
  jobCall : Option (RpcCall JobHandler String)
  result : Option (Except CallError String)
  deriving DecidableEq

def AdminHandler.sent : AdminHandler := ⟨none,none⟩

/-- A request of an account at the gateway. -/
structure AdminRequest where
  method : JobMethod
  accountId : Uuid
  call : RpcCall AdminHandler String
  deriving DecidableEq

inductive JobStage where
  | waiting
  | active
  | delayed
  | completed
  | failed
  deriving DecidableEq, Repr

/-- A job of the queue, with the calls of its runs. -/
structure Job where
  runs : List (RpcCall ResetHandler ℕ)
  stage : JobStage
  attemptsMade : ℕ
  stalledCount : ℕ
  deriving DecidableEq

/-- What `BalanceService` answers. -/
def message : JobMethod → String
  | .putResetBalanceJob => "Job \"balane-reset-all\" отправлен в очередь"
  | .startResetBalanceJob => "Job \"balane-reset-all\" запущен"
  | .stopResetBalanceJob => "Job \"balane-reset-all\" остановлен"

def accountNotFound : CallError :=
  .status (some .notFound) "Ваш аккаунт не существует или удален"

/-- What the caller of a handler sees of an error of the handler's own call. Only the errors that
`catchError` makes anew are instances of `RpcException`. -/
def rethrown : CallError → CallError
  | .status (some .unavailable) details => .status (some .unavailable) details
  | _ => .status (some .unknown) "Internal server error"

/-- The accounts that are not deleted, the requests, the cron job and the queue; and the history:
the accounts that a check has found, and the number of the cron ticks. -/
structure ResetRun where
  accounts : List Uuid
  requests : List AdminRequest
  isActive : Bool
  jobs : List Job
  checked : List Uuid
  ticks : ℕ
  deriving DecidableEq

inductive ResetAction where
  | register (account : Uuid)
  | delete (account : Uuid)
  | request (method : JobMethod) (account : Uuid)
  /-- the call of the gateway -/
  | client (i : ℕ) (e : RpcStep)
  /-- `findBy({ id })` -/
  | check (i j : ℕ)
  /-- the call of the user service -/
  | jobClient (i j : ℕ) (e : RpcStep)
  /-- the user service has its answer -/
  | conclude (i j : ℕ)
  | execute (i j k : ℕ)
  /-- the job service answers, with an error perhaps after it has executed the request -/
  | respond (i j k : ℕ) (error : Option CallError)
  | tick (added : Bool)
  | restart
  | activate (n : ℕ)
  /-- the call of the worker in a run of the job -/
  | worker (n m : ℕ) (e : RpcStep)
  /-- the `UPDATE` -/
  | update (n m l : ℕ)
  | reply (n m l : ℕ) (result : Except CallError ℕ)
  | finish (n : ℕ)
  | promote (n : ℕ)
  | stall (n : ℕ)

namespace ResetRun
variable (o : ResetOptions) (s : ResetRun)

def initial : ResetRun := ⟨[],[],false,[],[],0⟩

def job : Job := ⟨[],.waiting,0,0⟩

def setRequest (i : ℕ) (r : AdminRequest) : ResetRun := {s with requests := s.requests.set i r}

def setHandler (i j : ℕ) (r : AdminRequest) (h : AdminHandler) : ResetRun :=
  s.setRequest i {r with call := r.call.setAttempt j h}

def setJob (n : ℕ) (b : Job) : ResetRun := {s with jobs := s.jobs.set n b}

def setRun (n m : ℕ) (b : Job) (c : RpcCall ResetHandler ℕ) : ResetRun :=
  s.setJob n {b with runs := b.runs.set m c}

/-- `JobService` -/
def perform : JobMethod → ResetRun
  | .putResetBalanceJob => {s with jobs := s.jobs++[job]}
  | .startResetBalanceJob => {s with isActive := true}
  | .stopResetBalanceJob => {s with isActive := false}

/-- The step of an attempt of a request. -/
def handle (i j : ℕ) (r : AdminRequest) (h : AdminHandler) : ResetAction → Option ResetRun
  | .check .. =>
    if h = .sent then
      if r.accountId ∈ s.accounts then
        some {s.setHandler i j r ⟨some (.start .sent),none⟩ with checked := s.checked++[r.accountId]}
      else some (s.setHandler i j r ⟨none,some (.error accountNotFound)⟩)
    else none
  | .jobClient _ _ e =>
    h.jobCall.bind fun c => (c.step o.retries JobHandler.result .sent e).map fun c =>
      s.setHandler i j r {h with jobCall := some c}
  | .conclude .. =>
    match h.result, h.jobCall.map RpcCall.stage with
    | none, some (.returned _) =>
      some (s.setHandler i j r {h with result := some (.ok (message r.method))})
    | none, some (.threw e) => some (s.setHandler i j r {h with result := some (.error (rethrown e))})
    | _, _ => none
  | .execute _ _ k =>
    h.jobCall.bind fun c =>
      if c.attempts[k]? = some .sent then
        some ((s.setHandler i j r {h with jobCall := some (c.setAttempt k ⟨true,none⟩)}).perform
          r.method)
      else none
  | .respond _ _ k error =>
    h.jobCall.bind fun c =>
      match c.attempts[k]?, error with
      | some ⟨true,none⟩, none => some (s.setHandler i j r
          {h with jobCall := some (c.setAttempt k ⟨true,some (.ok "ok")⟩)})
      | some ⟨executed,none⟩, some e => some (s.setHandler i j r
          {h with jobCall := some (c.setAttempt k ⟨executed,some (.error e)⟩)})
      | _, _ => none
  | _ => none

/-- The step of a job. -/
def work (n : ℕ) (b : Job) : ResetAction → Option ResetRun
  | .activate _ =>
    match b.stage with
    | .waiting => some (s.setJob n {b with runs := b.runs++[.start .sent], stage := .active})
    | _ => none
  | .worker _ m e =>
    b.runs[m]?.bind fun c => (c.step o.retries ResetHandler.result .sent e).map (s.setRun n m b)
  | .update _ m l =>
    b.runs[m]?.bind fun c =>
      if c.attempts[l]? = some .sent then some (s.setRun n m b (c.setAttempt l ⟨true,none⟩)) else none
  | .reply _ m l result =>
    b.runs[m]?.bind fun c =>
      match c.attempts[l]?, result with
      | some ⟨true,none⟩, .ok resetCounts =>
        some (s.setRun n m b (c.setAttempt l ⟨true,some (.ok resetCounts)⟩))
      | some ⟨updated,none⟩, .error e =>
        some (s.setRun n m b (c.setAttempt l ⟨updated,some (.error e)⟩))
      | _, _ => none
  | .finish _ =>
    match b.stage, b.runs.getLast?.map RpcCall.stage with
    | .active, some (.returned _) => some (s.setJob n {b with stage := .completed})
    | .active, some (.threw _) =>
      some (s.setJob n {b with
        stage := if b.attemptsMade+1 < o.attempts then .delayed else .failed
        attemptsMade := b.attemptsMade+1})
    | _, _ => none
  | .promote _ =>
    match b.stage with
    | .delayed => some (s.setJob n {b with stage := .waiting})
    | _ => none
  | .stall _ =>
    match b.stage with
    | .active =>
      if b.stalledCount+1 ≤ o.maxStalledCount then
        some (s.setJob n {b with stage := .waiting, stalledCount := b.stalledCount+1})
      else some (s.setJob n {b with stage := .failed})
    | _ => none
  | _ => none

def next (a : ResetAction) : Option ResetRun :=
  match a with
  | .register account => some {s with accounts := s.accounts++[account]}
  | .delete account => some {s with accounts := s.accounts.filter (· ≠ account)}
  | .request method account =>
    some {s with requests := s.requests++[⟨method,account,.start .sent⟩]}
  | .client i e =>
    s.requests[i]?.bind fun r => (r.call.step o.retries AdminHandler.result .sent e).map fun call =>
      s.setRequest i {r with call := call}
  | .check i j | .jobClient i j _ | .conclude i j | .execute i j _ | .respond i j _ _ =>
    s.requests[i]?.bind fun r => r.call.attempts[j]?.bind fun h => s.handle o i j r h a
  | .tick added =>
    if s.isActive then
      some {s with ticks := s.ticks+1, jobs := if added then s.jobs++[job] else s.jobs}
    else none
  | .restart => some {s with isActive := false}
  | .activate n | .worker n _ _ | .update n _ _ | .reply n _ _ _ | .finish n | .promote n | .stall n =>
    s.jobs[n]?.bind fun b => s.work o n b a

end ResetRun

/-- How often the job service has executed the request of a handler. -/
def AdminHandler.executed (h : AdminHandler) : ℕ :=
  (h.jobCall.map fun c => c.attempts.countP JobHandler.executed).getD 0

def AdminRequest.executed (r : AdminRequest) : ℕ := (r.call.attempts.map AdminHandler.executed).sum

/-- How many jobs a request has put into the queue. -/
def AdminRequest.puts (r : AdminRequest) : ℕ :=
  if r.method = .putResetBalanceJob then r.executed else 0

/-- How often a job has reset the balances. -/
def Job.resets (b : Job) : ℕ :=
  (b.runs.map fun c => c.attempts.countP ResetHandler.updated).sum

structure AdminHandler.Sound (o : ResetOptions) (h : AdminHandler) : Prop where
  call : ∀ c, h.jobCall = some c → c.Sound o.retries JobHandler.result ∧
    ∀ g ∈ c.attempts, ∀ answer, g.result = some (.ok answer) → g.executed
  answered : ∀ answer, h.result = some (.ok answer) → 1 ≤ h.executed

structure AdminRequest.Sound (o : ResetOptions) (checked : List Uuid) (r : AdminRequest) : Prop where
  call : r.call.Sound o.retries AdminHandler.result
  handlers : ∀ h ∈ r.call.attempts, h.Sound o ∧ (h.jobCall ≠ none → r.accountId ∈ checked)

/-- The runs of a job, by its stage. -/
structure Job.Sound (o : ResetOptions) (b : Job) : Prop where
  runs : ∀ c ∈ b.runs, c.Sound o.retries ResetHandler.result ∧
    ∀ g ∈ c.attempts, ∀ answer, g.result = some (.ok answer) → g.updated
  counts : match b.stage with
    | .waiting | .delayed => b.runs.length = b.attemptsMade+b.stalledCount ∧
      b.attemptsMade < o.attempts ∧ b.stalledCount ≤ o.maxStalledCount
    | .active => b.runs.length = b.attemptsMade+b.stalledCount+1 ∧
      b.attemptsMade < o.attempts ∧ b.stalledCount ≤ o.maxStalledCount
    | .completed | .failed => b.runs.length ≤ o.attempts+o.maxStalledCount
  completed : b.stage = .completed → 1 ≤ b.resets

section Bounds
variable {o : ResetOptions} {r : AdminRequest} {h : AdminHandler} {b : Job} {checked : List Uuid}

theorem AdminHandler.Sound.executed_le (hh : h.Sound o) : h.executed ≤ o.retries+1 := by
  rw [AdminHandler.executed]
  cases hc : h.jobCall with
  | none => exact Nat.zero_le _
  | some c => exact List.countP_le_length.trans (hh.call c hc).1.length_le

theorem AdminRequest.Sound.executed_le (hr : r.Sound o checked) :
    r.executed ≤ (o.retries+1)*(o.retries+1) := by
  refine (Shared.sum_le_length_mul fun h hh => (hr.handlers h hh).1.executed_le).trans ?_
  exact Nat.mul_le_mul_right _ hr.call.length_le

/-- A request that is answered was executed. -/
theorem AdminRequest.Sound.executed_of_returned (hr : r.Sound o checked) {answer : String}
    (hreturned : r.call.stage = .returned answer) : 1 ≤ r.executed := by
  obtain ⟨h,hh,hresult⟩ := hr.call.answered answer hreturned
  exact ((hr.handlers h hh).1.answered answer hresult).trans
    (List.single_le_sum (fun _ _ => Nat.zero_le _) _ (List.mem_map_of_mem hh))

theorem AdminRequest.Sound.checked_of_executed (hr : r.Sound o checked) (hexecuted : 0 < r.executed) :
    r.accountId ∈ checked := by
  obtain ⟨n,hn,hne⟩ := List.exists_mem_ne_zero_of_sum_ne_zero hexecuted.ne'
  obtain ⟨h,hh,rfl⟩ := List.mem_map.mp hn
  refine (hr.handlers h hh).2 fun hnone => hne ?_
  rw [AdminHandler.executed,hnone]
  rfl

theorem Job.Sound.resets_le (hb : b.Sound o) :
    b.resets ≤ (o.attempts+o.maxStalledCount)*(o.retries+1) := by
  have hlen : b.runs.length ≤ o.attempts+o.maxStalledCount := by
    have := hb.counts
    split at this <;> omega
  refine (Shared.sum_le_length_mul fun c hc => ?_).trans (Nat.mul_le_mul_right _ hlen)
  exact List.countP_le_length.trans (hb.runs c hc).1.length_le

end Bounds

namespace ResetRun
variable {o : ResetOptions} {s t : ResetRun} {a : ResetAction}

section Handlers
variable {i j : ℕ} {r : AdminRequest} {h : AdminHandler}

/-- What an attempt of a request becomes in a step. -/
structure Goes (o : ResetOptions) (h h' : AdminHandler) : Prop where
  sound : h'.Sound o
  result : ∀ answer, h.result = some (.ok answer) → h'.result = some (.ok answer)

theorem goes_of_call {c : RpcCall JobHandler String} (hh : h.Sound o)
    (hc : c.Sound o.retries JobHandler.result ∧
      ∀ g ∈ c.attempts, ∀ answer, g.result = some (.ok answer) → g.executed)
    (hle : h.executed ≤ c.attempts.countP JobHandler.executed) :
    Goes o h {h with jobCall := some c} where
  sound := ⟨fun _ hd => Option.some.inj hd ▸ hc,fun answer hanswer => (hh.answered answer hanswer).trans hle⟩
  result _ hanswer := hanswer

/-- A handler goes on, a check finds the account, or the job service executes the request. -/
theorem handle_cases (hh : h.Sound o) (hs : s.handle o i j r h a = some t) : ∃ h', Goes o h h' ∧
    (t = s.setHandler i j r h' ∧ h'.executed = h.executed ∧ (h'.jobCall ≠ none → h.jobCall ≠ none) ∨
      t = {s.setHandler i j r h' with checked := s.checked++[r.accountId]} ∧
        h'.executed = h.executed ∧ r.accountId ∈ s.accounts ∨
      t = (s.setHandler i j r h').perform r.method ∧ h'.executed = h.executed+1 ∧
        h.jobCall ≠ none) := by
  cases a with
  | check =>
    simp only [handle] at hs
    split at hs
    next hsent =>
      subst hsent
      split at hs
      next hin =>
        cases hs
        refine ⟨⟨some (.start .sent),none⟩,⟨⟨fun c hc => ?_,nofun⟩,nofun⟩,
          .inr (.inl ⟨rfl,rfl,hin⟩)⟩
        obtain rfl := Option.some.inj hc
        refine ⟨RpcCall.sound_start,fun g hg answer hanswer => ?_⟩
        rw [List.mem_singleton.mp hg] at hanswer
        cases hanswer
      next =>
        cases hs
        exact ⟨⟨none,some (.error accountNotFound)⟩,⟨⟨nofun,nofun⟩,nofun⟩,.inl ⟨rfl,rfl,id⟩⟩
    next => contradiction
  | jobClient _ _ e =>
    obtain ⟨c,hc,hstep⟩ := Option.bind_eq_some_iff.mp hs
    obtain ⟨d,hd,rfl⟩ := Option.map_eq_some_iff.mp hstep
    obtain ⟨hcall,hdone⟩ := hh.call c hc
    have hcount : h.executed = d.attempts.countP JobHandler.executed := by
      rw [AdminHandler.executed,hc,RpcCall.countP_step hd rfl]
      rfl
    refine ⟨_,goes_of_call hh ⟨hcall.step hd,?_⟩ hcount.le,.inl ⟨rfl,hcount.symm,fun _ => by simp [hc]⟩⟩
    exact RpcCall.forall_step hd nofun hdone
  | conclude =>
    simp only [handle] at hs
    split at hs
    next answer hnone hstage =>
      cases hs
      obtain ⟨c,hc,hstage⟩ := Option.map_eq_some_iff.mp hstage
      obtain ⟨hcall,hdone⟩ := hh.call c hc
      refine ⟨{h with result := some (.ok (message r.method))},
        ⟨⟨hh.call,fun _ _ => ?_⟩,fun _ hanswer => ?_⟩,.inl ⟨rfl,rfl,id⟩⟩
      · obtain ⟨g,hg,hresult⟩ := hcall.answered answer hstage
        simp only [AdminHandler.executed,hc,Option.map_some,Option.getD_some]
        exact List.countP_pos_iff.mpr ⟨g,hg,hdone g hg answer hresult⟩
      · rw [hnone] at hanswer
        cases hanswer
    next error hnone _ =>
      cases hs
      refine ⟨{h with result := some (.error (rethrown error))},
        ⟨⟨hh.call,nofun⟩,fun _ hanswer => ?_⟩,.inl ⟨rfl,rfl,id⟩⟩
      rw [hnone] at hanswer
      cases hanswer
    next => contradiction
  | execute _ _ k =>
    obtain ⟨c,hc,hexecute⟩ := Option.bind_eq_some_iff.mp hs
    obtain ⟨hcall,hdone⟩ := hh.call c hc
    split at hexecute
    next hk =>
      cases hexecute
      have hcount : (c.setAttempt k ⟨true,none⟩).attempts.countP JobHandler.executed = h.executed+1 := by
        have := @RpcCall.countP_setAttempt _ _ c k _ ⟨true,none⟩ JobHandler.executed hk
        rw [AdminHandler.executed,hc]
        simpa [JobHandler.sent] using this
      refine ⟨_,goes_of_call hh ⟨hcall.setAttempt hk nofun,?_⟩ (by omega),
        .inr (.inr ⟨rfl,hcount,by simp [hc]⟩)⟩
      exact RpcCall.forall_setAttempt nofun hdone
    next => contradiction
  | respond _ _ k error =>
    obtain ⟨c,hc,hrespond⟩ := Option.bind_eq_some_iff.mp hs
    obtain ⟨hcall,hdone⟩ := hh.call c hc
    have hcount : ∀ {executed result result'}, c.attempts[k]? = some ⟨executed,result⟩ →
        h.executed = (c.setAttempt k ⟨executed,result'⟩).attempts.countP JobHandler.executed := by
      intro executed result result' hk
      have := @RpcCall.countP_setAttempt _ _ c k _ ⟨executed,result'⟩ JobHandler.executed hk
      rw [AdminHandler.executed,hc]
      exact (Nat.add_right_cancel this).symm
    split at hrespond
    next hk =>
      cases hrespond
      refine ⟨_,goes_of_call hh ⟨hcall.setAttempt hk nofun,?_⟩ (hcount hk).le,
        .inl ⟨rfl,(hcount hk).symm,fun _ => by simp [hc]⟩⟩
      exact RpcCall.forall_setAttempt (fun _ _ => rfl) hdone
    next hk =>
      cases hrespond
      refine ⟨_,goes_of_call hh ⟨hcall.setAttempt hk nofun,?_⟩ (hcount hk).le,
        .inl ⟨rfl,(hcount hk).symm,fun _ => by simp [hc]⟩⟩
      exact RpcCall.forall_setAttempt nofun hdone
    next => contradiction
  | _ => contradiction

end Handlers
section Jobs
variable {n m : ℕ} {b : Job} {c d : RpcCall ResetHandler ℕ}

theorem sound_job : job.Sound o where
  runs := nofun
  counts := ⟨rfl,o.attempts_pos,Nat.zero_le _⟩
  completed := nofun

/-- A run of a job goes on. -/
theorem sound_setRun (hb : b.Sound o) (hm : b.runs[m]? = some c)
    (hd : d.Sound o.retries ResetHandler.result ∧
      ∀ g ∈ d.attempts, ∀ answer, g.result = some (.ok answer) → g.updated)
    (hle : c.attempts.countP ResetHandler.updated ≤ d.attempts.countP ResetHandler.updated) :
    Job.Sound o {b with runs := b.runs.set m d} := by
  refine ⟨fun x hx => ?_,?_,fun hcompleted => ?_⟩
  · obtain hx | rfl := List.mem_or_eq_of_mem_set hx
    · exact hb.runs x hx
    · exact hd
  · simpa only [List.length_set] using hb.counts
  · have hsum := Shared.sum_set_add (b := d)
      (fun c : RpcCall ResetHandler ℕ => c.attempts.countP ResetHandler.updated) hm
    have hbefore := hb.completed hcompleted
    rw [Job.resets] at hbefore ⊢
    simp only at hsum ⊢
    omega

theorem work_cases (hb : b.Sound o) (hs : s.work o n b a = some t) :
    ∃ b', b'.Sound o ∧ t = s.setJob n b' := by
  cases a with
  | activate =>
    simp only [work] at hs
    split at hs
    next hstage =>
      cases hs
      have hcounts := hb.counts
      rw [hstage] at hcounts
      refine ⟨_,?_,rfl⟩
      refine ⟨fun c hc => ?_,⟨by simp [hcounts.1],hcounts.2⟩,nofun⟩
      obtain hc | hc := List.mem_append.mp hc
      · exact hb.runs c hc
      · rw [List.mem_singleton.mp hc]
        refine ⟨RpcCall.sound_start,fun g hg answer hanswer => ?_⟩
        rw [List.mem_singleton.mp hg] at hanswer
        cases hanswer
    next => contradiction
  | worker _ m e =>
    obtain ⟨c,hm,hstep⟩ := Option.bind_eq_some_iff.mp hs
    obtain ⟨d,hd,rfl⟩ := Option.map_eq_some_iff.mp hstep
    obtain ⟨hcall,hdone⟩ := hb.runs c (List.mem_of_getElem? hm)
    exact ⟨_,sound_setRun hb hm ⟨hcall.step hd,RpcCall.forall_step hd nofun hdone⟩
      (RpcCall.countP_step hd rfl).ge,rfl⟩
  | update _ m l =>
    obtain ⟨c,hm,hupdate⟩ := Option.bind_eq_some_iff.mp hs
    obtain ⟨hcall,hdone⟩ := hb.runs c (List.mem_of_getElem? hm)
    split at hupdate
    next hl =>
      cases hupdate
      have hcount := @RpcCall.countP_setAttempt _ _ c l _ ⟨true,none⟩ ResetHandler.updated hl
      simp only [ResetHandler.sent,Bool.toNat_false,Bool.toNat_true] at hcount
      refine ⟨_,?_,rfl⟩
      exact sound_setRun hb hm ⟨hcall.setAttempt hl nofun,RpcCall.forall_setAttempt nofun hdone⟩
        (by omega)
    next => contradiction
  | reply _ m l result =>
    obtain ⟨c,hm,hreply⟩ := Option.bind_eq_some_iff.mp hs
    obtain ⟨hcall,hdone⟩ := hb.runs c (List.mem_of_getElem? hm)
    split at hreply
    next resetCounts hl =>
      cases hreply
      have hcount := @RpcCall.countP_setAttempt _ _ c l _ ⟨true,some (.ok resetCounts)⟩
        ResetHandler.updated hl
      exact ⟨_,sound_setRun hb hm ⟨hcall.setAttempt hl nofun,
        RpcCall.forall_setAttempt (fun _ _ => rfl) hdone⟩ (Nat.add_right_cancel hcount).ge,rfl⟩
    next updated e hl =>
      cases hreply
      have hcount := @RpcCall.countP_setAttempt _ _ c l _ ⟨updated,some (.error e)⟩
        ResetHandler.updated hl
      refine ⟨_,?_,rfl⟩
      exact sound_setRun hb hm ⟨hcall.setAttempt hl nofun,RpcCall.forall_setAttempt nofun hdone⟩
        (Nat.add_right_cancel hcount).ge
    next => contradiction
  | finish =>
    simp only [work] at hs
    split at hs
    next answer hstage hlast =>
      cases hs
      obtain ⟨c,hc,hreturned⟩ := Option.map_eq_some_iff.mp hlast
      have hin := List.mem_of_getLast? hc
      obtain ⟨hcall,hdone⟩ := hb.runs c hin
      obtain ⟨g,hg,hresult⟩ := hcall.answered answer hreturned
      have hcounts := hb.counts
      rw [hstage] at hcounts
      refine ⟨_,?_,rfl⟩
      refine ⟨hb.runs,?_,fun _ => ?_⟩
      · change b.runs.length ≤ _
        omega
      · have hpos : 1 ≤ c.attempts.countP ResetHandler.updated :=
          List.countP_pos_iff.mpr ⟨g,hg,hdone g hg answer hresult⟩
        exact hpos.trans (List.single_le_sum (fun _ _ => Nat.zero_le _) _
          (List.mem_map_of_mem (f := fun c => c.attempts.countP ResetHandler.updated) hin))
    next error hstage hlast =>
      cases hs
      have hcounts := hb.counts
      rw [hstage] at hcounts
      refine ⟨_,?_,rfl⟩
      split
      next hretry =>
        refine ⟨hb.runs,⟨?_,hretry,hcounts.2.2⟩,nofun⟩
        change b.runs.length = b.attemptsMade+1+b.stalledCount
        omega
      next =>
        refine ⟨hb.runs,?_,nofun⟩
        change b.runs.length ≤ _
        omega
    next => contradiction
  | promote =>
    simp only [work] at hs
    split at hs
    next hstage =>
      cases hs
      have hcounts := hb.counts
      rw [hstage] at hcounts
      refine ⟨_,?_,rfl⟩
      exact ⟨hb.runs,hcounts,nofun⟩
    next => contradiction
  | stall =>
    simp only [work] at hs
    split at hs
    next hstage =>
      have hcounts := hb.counts
      rw [hstage] at hcounts
      split at hs
      next hle =>
        cases hs
        refine ⟨_,?_,rfl⟩
        refine ⟨hb.runs,⟨?_,hcounts.2.1,hle⟩,nofun⟩
        change b.runs.length = b.attemptsMade+(b.stalledCount+1)
        omega
      next =>
        cases hs
        refine ⟨_,?_,rfl⟩
        refine ⟨hb.runs,?_,nofun⟩
        change b.runs.length ≤ _
        omega
    next => contradiction
  | _ => contradiction

end Jobs

def resets (s : ResetRun) : ℕ := (s.jobs.map Job.resets).sum

/-- What holds in every run. -/
structure Sound (o : ResetOptions) (s : ResetRun) : Prop where
  requests : ∀ r ∈ s.requests, r.Sound o s.checked
  jobs : ∀ b ∈ s.jobs, b.Sound o
  length : s.jobs.length ≤ (s.requests.map AdminRequest.puts).sum+s.ticks
  started : s.isActive ∨ 0 < s.ticks → ∃ r ∈ s.requests, r.method = .startResetBalanceJob ∧
    0 < r.executed

section Sound
variable {i j n : ℕ} {r r' : AdminRequest} {h h' : AdminHandler} {b : Job} {checked : List Uuid}

theorem sound_mono (hr : r.Sound o s.checked) (hsub : s.checked ⊆ checked) : r.Sound o checked :=
  ⟨hr.call,fun h hh => ⟨(hr.handlers h hh).1,fun hcall => hsub ((hr.handlers h hh).2 hcall)⟩⟩

theorem sound_setAttempt (hr : r.Sound o s.checked) (hj : r.call.attempts[j]? = some h)
    (hgoes : Goes o h h') (hsub : s.checked ⊆ checked)
    (hchecked : h'.jobCall ≠ none → r.accountId ∈ checked) :
    AdminRequest.Sound o checked {r with call := r.call.setAttempt j h'} where
  call := hr.call.setAttempt hj hgoes.result
  handlers := RpcCall.forall_setAttempt ⟨hgoes.sound,hchecked⟩ (sound_mono hr hsub).handlers

theorem executed_setAttempt (hj : r.call.attempts[j]? = some h) :
    AdminRequest.executed {r with call := r.call.setAttempt j h'}+h.executed =
      r.executed+h'.executed :=
  Shared.sum_set_add AdminHandler.executed hj

theorem puts_congr (hmethod : r'.method = r.method) (h : r.executed = r'.executed) :
    r.puts = r'.puts := by
  rw [AdminRequest.puts,AdminRequest.puts,hmethod,h]

/-- A request goes on. -/
theorem Sound.request (hs : s.Sound o) (hi : s.requests[i]? = some r)
    (hrequests : t.requests = s.requests.set i r') (hsub : s.checked ⊆ t.checked)
    (hr : r'.Sound o t.checked) (hmethod : r'.method = r.method) (hle : r.executed ≤ r'.executed)
    (hjobs : ∀ b ∈ t.jobs, b.Sound o) (hlength : t.jobs.length+r.puts ≤ s.jobs.length+r'.puts)
    (hticks : t.ticks = s.ticks)
    (hactive : t.isActive → s.isActive ∨ r'.method = .startResetBalanceJob ∧ 0 < r'.executed) :
    t.Sound o := by
  have hnew : r' ∈ s.requests.set i r' := List.mem_set (List.getElem?_eq_some_iff.mp hi).1 r'
  refine ⟨fun x hx => ?_,hjobs,?_,fun h => ?_⟩
  · rw [hrequests] at hx
    obtain hx | rfl := List.mem_or_eq_of_mem_set hx
    · exact sound_mono (hs.requests x hx) hsub
    · exact hr
  · have hsum := Shared.sum_set_add (b := r') AdminRequest.puts hi
    have := hs.length
    rw [hrequests,hticks]
    omega
  · rw [hrequests]
    have hold : (s.isActive ∨ 0 < s.ticks) → ∃ r ∈ s.requests.set i r',
        r.method = .startResetBalanceJob ∧ 0 < r.executed := by
      intro hbefore
      obtain ⟨x,hx,hstart,hpos⟩ := hs.started hbefore
      obtain ⟨k,hk⟩ := List.getElem?_of_mem hx
      by_cases hik : i = k
      · subst hik
        obtain rfl := Option.some.inj (hi.symm.trans hk)
        exact ⟨r',hnew,hmethod.trans hstart,hpos.trans_le hle⟩
      · exact ⟨x,List.mem_of_getElem? ((List.getElem?_set_ne hik).trans hk),hstart,hpos⟩
    obtain h | h := h
    · obtain h | h := hactive h
      · exact hold (.inl h)
      · exact ⟨r',hnew,h⟩
    · exact hold (.inr (hticks ▸ h))

theorem Sound.handle (hs : s.Sound o) (hi : s.requests[i]? = some r)
    (hj : r.call.attempts[j]? = some h) (hn : s.handle o i j r h a = some t) : t.Sound o := by
  have hr := hs.requests r (List.mem_of_getElem? hi)
  obtain ⟨hh,hchecked⟩ := hr.handlers h (List.mem_of_getElem? hj)
  obtain ⟨h',hgoes,hcases⟩ := handle_cases hh hn
  have hexecuted := @executed_setAttempt _ r h h' hj
  have hsound : ∀ checked, s.checked ⊆ checked → (h'.jobCall ≠ none → r.accountId ∈ checked) →
      AdminRequest.Sound o checked {r with call := r.call.setAttempt j h'} :=
    fun _ => sound_setAttempt hr hj hgoes
  have hputs : h'.executed = h.executed →
      r.puts = AdminRequest.puts {r with call := r.call.setAttempt j h'} :=
    fun hsame => puts_congr rfl (by omega)
  obtain ⟨rfl,hsame,hcall⟩ | ⟨rfl,hsame,-⟩ | ⟨rfl,hone,hcall⟩ := hcases
  · refine hs.request hi rfl (List.Subset.refl _) (hsound _ (List.Subset.refl _)
      fun hne => hchecked (hcall hne)) rfl (by omega) hs.jobs ?_ rfl .inl
    exact Nat.add_le_add_left (hputs hsame).le _
  · refine hs.request hi rfl (List.subset_append_left ..) (hsound _ (List.subset_append_left ..)
      fun _ => by simp) rfl (by omega) hs.jobs ?_ rfl .inl
    exact Nat.add_le_add_left (hputs hsame).le _
  · have hin := hsound _ (List.Subset.refl _) fun _ => hchecked hcall
    cases hmethod : r.method with
    | putResetBalanceJob =>
      refine hs.request hi rfl (List.Subset.refl _) hin rfl (by omega) ?_ ?_ rfl .inl
      · intro b hb
        obtain hb | hb := List.mem_append.mp hb
        · exact hs.jobs b hb
        · exact List.mem_singleton.mp hb ▸ sound_job
      · simp only [perform,List.length_append,List.length_singleton,AdminRequest.puts,hmethod,
          if_true] at hexecuted ⊢
        change s.jobs.length+1+r.executed ≤ _
        omega
    | startResetBalanceJob =>
      refine hs.request hi rfl (List.Subset.refl _) hin rfl (by omega) hs.jobs ?_ rfl
        fun _ => .inr ⟨hmethod,by omega⟩
      simp [AdminRequest.puts,hmethod,perform,setHandler,setRequest]
    | stopResetBalanceJob =>
      refine hs.request hi rfl (List.Subset.refl _) hin rfl (by omega) hs.jobs ?_ rfl nofun
      simp [AdminRequest.puts,hmethod,perform,setHandler,setRequest]

theorem Sound.work (hs : s.Sound o) (hn : s.jobs[n]? = some b) (hwork : s.work o n b a = some t) :
    t.Sound o := by
  obtain ⟨b',hb',rfl⟩ := work_cases (hs.jobs b (List.mem_of_getElem? hn)) hwork
  refine ⟨hs.requests,fun x hx => ?_,?_,hs.started⟩
  · obtain hx | rfl := List.mem_or_eq_of_mem_set hx
    · exact hs.jobs x hx
    · exact hb'
  · simpa only [setJob,List.length_set] using hs.length

theorem Sound.next (hs : s.Sound o) (hn : s.next o a = some t) : t.Sound o := by
  cases a with
  | register | delete =>
    cases hn
    exact ⟨hs.requests,hs.jobs,hs.length,hs.started⟩
  | request method account =>
    cases hn
    refine ⟨fun r hr => ?_,hs.jobs,?_,fun h => ?_⟩
    · obtain hr | hr := List.mem_append.mp hr
      · exact hs.requests r hr
      · rw [List.mem_singleton.mp hr]
        refine ⟨RpcCall.sound_start,fun h hh => ?_⟩
        rw [List.mem_singleton.mp hh]
        exact ⟨⟨nofun,nofun⟩,nofun⟩
    · rw [List.map_append,List.sum_append]
      have := hs.length
      simp only at this ⊢
      omega
    · obtain ⟨r,hr,hstart⟩ := hs.started h
      exact ⟨r,List.mem_append_left _ hr,hstart⟩
  | client i e =>
    obtain ⟨r,hi,hstep⟩ := Option.bind_eq_some_iff.mp hn
    obtain ⟨call,hcall,rfl⟩ := Option.map_eq_some_iff.mp hstep
    have hr := hs.requests r (List.mem_of_getElem? hi)
    have hexecuted : AdminRequest.executed {r with call := call} = r.executed := by
      rw [AdminRequest.executed,AdminRequest.executed]
      obtain heq | heq := RpcCall.attempts_step hcall
      · rw [heq]
      · rw [heq,List.map_append,List.sum_append]
        rfl
    have hsound : AdminRequest.Sound o s.checked {r with call := call} :=
      ⟨hr.call.step hcall,RpcCall.forall_step hcall ⟨⟨nofun,nofun⟩,nofun⟩ hr.handlers⟩
    have hputs : r.puts = AdminRequest.puts {r with call := call} := puts_congr rfl hexecuted.symm
    exact hs.request hi rfl (List.Subset.refl _) hsound rfl hexecuted.ge hs.jobs
      (Nat.add_le_add_left hputs.le _) rfl .inl
  | check i j | jobClient i j | conclude i j | execute i j | respond i j =>
    obtain ⟨r,hi,hrest⟩ := Option.bind_eq_some_iff.mp hn
    obtain ⟨h,hj,hhandle⟩ := Option.bind_eq_some_iff.mp hrest
    exact hs.handle hi hj hhandle
  | tick added =>
    simp only [ResetRun.next] at hn
    split at hn
    next hactive =>
      cases hn
      refine ⟨hs.requests,fun b hb => ?_,?_,fun _ => hs.started (.inl hactive)⟩
      · split at hb
        · obtain hb | hb := List.mem_append.mp hb
          · exact hs.jobs b hb
          · exact List.mem_singleton.mp hb ▸ sound_job
        · exact hs.jobs b hb
      · have := hs.length
        split
        · simp only [List.length_append,List.length_singleton]
          omega
        · simp only
          omega
    next => contradiction
  | restart =>
    cases hn
    exact ⟨hs.requests,hs.jobs,hs.length,fun h => hs.started (.inr (h.resolve_left (by simp)))⟩
  | activate n | worker n | update n | reply n | finish n | promote n | stall n =>
    obtain ⟨b,hb,hwork⟩ := Option.bind_eq_some_iff.mp hn
    exact hs.work hb hwork

theorem sound_initial : Sound o initial where
  requests := nofun
  jobs := nofun
  length := Nat.zero_le _
  started h := absurd h (by simp [initial])

theorem perform_checked (method : JobMethod) : (s.perform method).checked = s.checked := by
  cases method <;> rfl

/-- Only a check that has found an account adds to the history of the checks. -/
theorem Sound.checked_next (hs : s.Sound o) (hn : s.next o a = some t) :
    ∀ id ∈ t.checked, id ∈ s.checked ∨ id ∈ s.accounts := by
  intro id hid
  cases a with
  | register | delete | request | restart =>
    cases hn
    exact .inl hid
  | client i e =>
    obtain ⟨r,hi,hstep⟩ := Option.bind_eq_some_iff.mp hn
    obtain ⟨call,hcall,rfl⟩ := Option.map_eq_some_iff.mp hstep
    exact .inl hid
  | check i j | jobClient i j | conclude i j | execute i j | respond i j =>
    obtain ⟨r,hi,hrest⟩ := Option.bind_eq_some_iff.mp hn
    obtain ⟨h,hj,hhandle⟩ := Option.bind_eq_some_iff.mp hrest
    have hh := (hs.requests r (List.mem_of_getElem? hi)).handlers h (List.mem_of_getElem? hj)
    obtain ⟨h',-,⟨rfl,-⟩ | ⟨rfl,-,hin⟩ | ⟨rfl,-⟩⟩ := handle_cases hh.1 hhandle
    · exact .inl hid
    · obtain hid | hid := List.mem_append.mp hid
      · exact .inl hid
      · exact .inr (List.mem_singleton.mp hid ▸ hin)
    · rw [perform_checked] at hid
      exact .inl hid
  | tick added =>
    simp only [ResetRun.next] at hn
    split at hn
    · cases hn
      exact .inl hid
    · contradiction
  | activate n | worker n | update n | reply n | finish n | promote n | stall n =>
    obtain ⟨b,hb,hwork⟩ := Option.bind_eq_some_iff.mp hn
    obtain ⟨b',-,rfl⟩ := work_cases (hs.jobs b (List.mem_of_getElem? hb)) hwork
    exact .inl hid

end Sound

section Runs
variable {as : List ResetAction}

theorem sound_of_runs (hr : runs (next o) initial as = some s) : s.Sound o :=
  runs_invariant' (fun _ _ _ hs hn => hs.next hn) sound_initial hr

/-- The accounts that a check has found were there before. -/
theorem existed_of_checked (hr : runs (next o) initial as = some s) {id : Uuid}
    (hid : id ∈ s.checked) : ∃ bs t, bs <+: as ∧ runs (next o) initial bs = some t ∧
      id ∈ t.accounts := by
  induction as using List.reverseRecOn generalizing s with
  | nil =>
    cases hr
    contradiction
  | append_singleton as a ih =>
    obtain ⟨v,hv,hs⟩ := runs_append.mp hr
    obtain ⟨u,hu,hnil⟩ := runs_cons.mp hs
    cases hnil
    obtain hid | hin := (sound_of_runs hv).checked_next hu id hid
    · obtain ⟨bs,t,hstart,ht⟩ := ih hv hid
      exact ⟨bs,t,hstart.trans (List.prefix_append ..),ht⟩
    · exact ⟨as,v,List.prefix_append ..,hv,hin⟩

/-- A request is executed at the job service a number of times that the retries bound, and once at
least if it is answered; so it is for the resets of a job; and together they bound the resets. -/
theorem resets_are_bounded (hr : runs (next o) initial as = some s) :
    (∀ r ∈ s.requests, r.executed ≤ (o.retries+1)*(o.retries+1) ∧
      ∀ answer, r.call.stage = .returned answer → 1 ≤ r.executed) ∧
    (∀ b ∈ s.jobs, b.resets ≤ (o.attempts+o.maxStalledCount)*(o.retries+1) ∧
      (b.stage = .completed → 1 ≤ b.resets)) ∧
    s.resets ≤ (s.requests.countP (·.method = .putResetBalanceJob)*((o.retries+1)*(o.retries+1))+
      s.ticks)*((o.attempts+o.maxStalledCount)*(o.retries+1)) := by
  have hs := sound_of_runs hr
  refine ⟨fun r hin => ⟨(hs.requests r hin).executed_le,
    fun _ => (hs.requests r hin).executed_of_returned⟩,
    fun b hb => ⟨(hs.jobs b hb).resets_le,(hs.jobs b hb).completed⟩,?_⟩
  have hjobs : s.resets ≤ s.jobs.length*((o.attempts+o.maxStalledCount)*(o.retries+1)) :=
    Shared.sum_le_length_mul fun b hb => (hs.jobs b hb).resets_le
  refine hjobs.trans (Nat.mul_le_mul_right _ (hs.length.trans (Nat.add_le_add_right ?_ _)))
  refine Shared.sum_le_countP_mul fun r hin => ?_
  rw [AdminRequest.puts]
  by_cases hput : r.method = .putResetBalanceJob
  · rw [if_pos hput,if_pos (decide_eq_true hput)]
    exact (hs.requests r hin).executed_le
  · rw [if_neg hput]
    exact Nat.zero_le _

/-- The balances are reset only if an account that existed has put the job into the queue or started
the cron job. -/
theorem resets_are_asked_for (hr : runs (next o) initial as = some s) (hpos : 0 < s.resets) :
    ∃ r ∈ s.requests, r.method ≠ .stopResetBalanceJob ∧ 0 < r.executed ∧ ∃ bs t, bs <+: as ∧
      runs (next o) initial bs = some t ∧ r.accountId ∈ t.accounts := by
  have hs := sound_of_runs hr
  obtain ⟨r,hin,hmethod,hexecuted⟩ : ∃ r ∈ s.requests, r.method ≠ .stopResetBalanceJob ∧
      0 < r.executed := by
    by_cases hticks : 0 < s.ticks
    · obtain ⟨r,hin,hstart,hexecuted⟩ := hs.started (.inr hticks)
      exact ⟨r,hin,by simp [hstart],hexecuted⟩
    · have hjobs : 0 < s.jobs.length := by
        refine Nat.pos_of_ne_zero fun hnil => ?_
        rw [resets,List.eq_nil_of_length_eq_zero hnil] at hpos
        exact absurd hpos (lt_irrefl 0)
      have hlength := hs.length
      obtain ⟨n,hn,hne⟩ := List.exists_mem_ne_zero_of_sum_ne_zero
        (show (s.requests.map AdminRequest.puts).sum ≠ 0 by omega)
      obtain ⟨r,hin,rfl⟩ := List.mem_map.mp hn
      rw [AdminRequest.puts] at hne
      split at hne
      next hput => exact ⟨r,hin,by simp [hput],Nat.pos_of_ne_zero hne⟩
      next => exact absurd rfl hne
  exact ⟨r,hin,hmethod,hexecuted,
    existed_of_checked hr ((hs.requests r hin).checked_of_executed hexecuted)⟩

end Runs
section Schedules

/-- A call whose attempts all do their part and lose the response. -/
def thrice (attempt : ℕ → List ResetAction) (client : RpcStep → ResetAction) : List ResetAction :=
  attempt 0++[client (.lose .timeout),client .resend]++
    attempt 1++[client (.lose .timeout),client .resend]++attempt 2++[client (.lose .timeout)]

/-- One request, of which every response is lost and every job stalls once. -/
def worstCase : List ResetAction :=
  [.register 1,.request .putResetBalanceJob 1]++
    thrice (fun j => .check 0 j::thrice (fun k => [.execute 0 j k]) (.jobClient 0 j)) (.client 0)++
    (List.range 9).flatMap fun n => (List.range 4).flatMap fun m =>
      .activate n::thrice (fun l => [.update n m l]) (.worker n m)++
        if m = 0 then [.stall n] else if m < 3 then [.finish n,.promote n] else [.finish n]

theorem worstCase_resets : (runs (next .default) initial worstCase).map (fun s =>
    (s.resets,s.requests.countP (·.method = .putResetBalanceJob),s.ticks)) = some (108,1,0) := by
  decide +kernel

/-- The bound is reached. -/
theorem resets_are_bounded_reached : ∃ s, runs (next .default) initial worstCase = some s ∧
    s.resets = 108 ∧ s.resets ≤ (1*(3*3)+0)*((3+1)*3) := by
  obtain ⟨s,hs,heq⟩ := Option.map_eq_some_iff.mp worstCase_resets
  obtain ⟨hresets,hputs,hticks⟩ : s.resets = 108 ∧
      s.requests.countP (·.method = .putResetBalanceJob) = 1 ∧ s.ticks = 0 := by
    simpa using heq
  have hbound := (resets_are_bounded hs).2.2
  rw [hputs,hticks] at hbound
  exact ⟨s,hs,hresets,hbound⟩

theorem resets_are_asked_for_once : ∃ s r, runs (next .default) initial worstCase = some s ∧
    r ∈ s.requests ∧ r.method ≠ .stopResetBalanceJob ∧ 0 < r.executed := by
  obtain ⟨s,hs,heq⟩ := Option.map_eq_some_iff.mp worstCase_resets
  have hresets : s.resets = 108 := congrArg Prod.fst heq
  obtain ⟨r,hin,hmethod,hexecuted,-⟩ := resets_are_asked_for hs (by omega)
  exact ⟨s,r,hs,hin,hmethod,hexecuted⟩

end Schedules

end ResetRun
end NestHomework.JobService
