import NestHomework.UserService.SoftDelete

/-! Saving an avatar takes two services. The file service puts the object into the bucket, asks the
user service for a row that names it, and removes the object when it gets no row. What it asks may
be lost, what it is answered too, and either may come late. -/
namespace NestHomework.FileService
open Contracts UserService Transition

/-- How a call over gRPC fails. -/
inductive CallError where
  | timeout
  | status (code : Option GrpcStatus) (details : String)
  deriving DecidableEq, Repr

/-- What the client sees of an error of the server. -/
def CallError.ofServer : AuthError → CallError
  | .rpc e => .status e.code e.details
  | _ => .status (some .unknown) "Internal server error"

namespace AbstractGrpcClient

def noRetryStatuses : List GrpcStatus :=
  [.invalidArgument,.notFound,.alreadyExists,.permissionDenied,.unauthenticated]

def final : CallError → Bool
  | .timeout => false
  | .status code _ => code.any (fun s => s ∈ noRetryStatuses)

/-- `catchError` -/
def caught : CallError → CallError
  | .timeout => .status (some .unavailable) "Service unavailable"
  | .status (some .unavailable) _ => .status (some .unavailable) "Service unavailable"
  | err => err

/-- The error that the call ends with, or none when it is tried again. -/
def failed (retries retryCount : ℕ) (err : CallError) : Option CallError :=
  if retryCount < retries && !final err then none else some (caught err)

end AbstractGrpcClient

/-- How far `createAvatar` is with the request of one attempt. -/
inductive Attempt where
  | sent
  | admitted (profileId : UuidString) (fileName : String)
  | committed (answer : AvatarResponse)
  | refused (error : AuthError)
  deriving DecidableEq

/-- The name that an attempt has asked a row for. -/
def Attempt.name? : Attempt → Option String
  | admitted _ fileName => some fileName
  | committed answer => some answer.name
  | _ => none

def Attempt.isCommitted : Attempt → Bool
  | committed _ => true
  | _ => false

inductive SaveError where
  | call (error : CallError)
  | removeFile (message : String)
  deriving DecidableEq, Repr

inductive SaveStage where
  | waiting (retryCount : ℕ)
  | delaying (retryCount : ℕ)
  | removing (error : CallError)
  | returned (answer : AvatarResponse)
  | threw (error : SaveError)
  deriving DecidableEq

/-- A call of `saveAvatarPath`. Its attempts are the requests that it has sent, the last of which is
the one it waits for. -/
structure Save where
  accountId : String
  path : String
  attempts : List Attempt
  stage : SaveStage
  deriving DecidableEq

namespace Save
variable (save : Save)

def finished : Bool :=
  match save.stage with
  | .returned _ => true
  | .threw _ => true
  | _ => false

/-- The name that the row of the avatar would have. -/
def fileName : Option String := fileOfPath save.path

/-- The attempt number `retryCount` has failed. -/
def fail (retries retryCount : ℕ) (err : CallError) : Save :=
  match AbstractGrpcClient.failed retries retryCount err with
  | none => {save with stage := .delaying retryCount}
  | some err => {save with stage := .removing err}

/-- The response of the last attempt arrives. -/
def answer (retries : ℕ) : Option Save :=
  match save.stage, save.attempts.getLast? with
  | .waiting _, some (.committed answer) => some {save with stage := .returned answer}
  | .waiting retryCount, some (.refused e) => some (save.fail retries retryCount (.ofServer e))
  | _, _ => none

/-- The last attempt ends without a response. -/
def lose (retries : ℕ) (err : CallError) : Option Save :=
  match save.stage with
  | .waiting retryCount => some (save.fail retries retryCount err)
  | _ => none

def resend : Option Save :=
  match save.stage with
  | .delaying retryCount =>
    some {save with attempts := save.attempts++[.sent], stage := .waiting (retryCount+1)}
  | _ => none

/-- `removeFile` is over, and the error of the call or its own is thrown. -/
def removed (failure : Option String) : Option Save :=
  match save.stage with
  | .removing err =>
    let error : SaveError := match failure with
      | none => .call err
      | some message => .removeFile message
    some {save with stage := .threw error}
  | _ => none

end Save

/-- The tables of the user service, the objects in the bucket, and the calls. -/
structure AvatarFiles where
  db : UsersDb
  now : ℕ
  bucket : List String
  saves : List Save
  deriving DecidableEq

/-- A step of one of the services, of the network, or of another client of the user service. `upload`
is the start of a call whose object has just been stored. -/
inductive AvatarAction where
  | wait (ms : ℕ)
  | write (w : UsersWrite)
  | upload (accountId path : String)
  | check (i k : ℕ)
  | insert (i k : ℕ) (id : UuidString)
  | answer (i : ℕ)
  | lose (i : ℕ) (err : CallError)
  | resend (i : ℕ)
  | remove (i : ℕ) (deleted : Bool) (failure : Option String)

namespace AvatarFiles
variable (c : UsersConfig) (retries : ℕ) (s : AvatarFiles)

def initial : AvatarFiles := ⟨⟨[],[],[]⟩,0,[],[]⟩

def onSave (i : ℕ) (step : Save → Option Save) : Option AvatarFiles :=
  (s.saves[i]?).bind fun save =>
    (step save).map fun after => {s with saves := s.saves.set i after}

/-- The name of an object is new, and only the file service may call `createAvatar`. -/
def next : AvatarAction → Option AvatarFiles
  | .wait ms => some {s with now := s.now+ms}
  | .write w =>
    if w.isCreateAvatar then none
    else match s.db.write c s.now w with
      | .error _ => some s
      | .ok db => some {s with db := db}
  | .upload accountId path =>
    if s.saves.any (fun save => save.fileName = fileOfPath path) then none
    else some {s with
      bucket := path::s.bucket, saves := s.saves++[⟨accountId,path,[.sent],.waiting 0⟩]}
  | .check i k => s.onSave i fun save =>
    if save.attempts[k]? = some .sent then
      match AvatarService.checkAvatar s.db c save.accountId save.path with
      | .error e => some {save with attempts := save.attempts.set k (.refused e)}
      | .ok (profileId,fileName) =>
        some {save with attempts := save.attempts.set k (.admitted profileId fileName)}
    else none
  | .insert i k id => (s.saves[i]?).bind fun save =>
    match save.attempts[k]? with
    | some (.admitted profileId fileName) =>
      match AvatarRepository.create s.db ⟨id,fileName,profileId,s.now,none⟩ with
      | .error e => s.onSave i fun save => some {save with attempts := save.attempts.set k (.refused e)}
      | .ok db => ({s with db := db} : AvatarFiles).onSave i fun save =>
        some {save with attempts := save.attempts.set k (.committed ⟨id,fileName⟩)}
    | _ => none
  | .answer i => s.onSave i (·.answer retries)
  | .lose i err => s.onSave i (·.lose retries err)
  | .resend i => s.onSave i (·.resend)
  | .remove i deleted failure => (s.saves[i]?).bind fun save =>
    if deleted || failure.isSome then
      let bucket := if deleted then s.bucket.filter (fun path => path ≠ save.path) else s.bucket
      ({s with bucket := bucket} : AvatarFiles).onSave i (·.removed failure)
    else none

/-- The rows of the finished calls that are not deleted name objects that are there. -/
def Backed : Prop :=
  ∀ save ∈ s.saves, save.finished → ∀ v ∈ s.db.avatars, v.deletedAt = none →
    save.fileName = some v.name → save.path ∈ s.bucket

/-- No object is removed whose row some attempt has committed, unless the row is deleted, and no row
is committed whose object has been removed. -/
def Paired : AvatarAction → Prop
  | .insert i k id => ∀ save ∈ s.saves[i]?, ∀ attempt ∈ save.attempts[k]?, ∀ name ∈ attempt.name?,
      save.path ∈ s.bucket ∨ ∃ v ∈ s.db.avatars, v.id = id ∨ v.name = name
  | .remove i deleted _ => deleted → ∀ save ∈ s.saves[i]?, ∀ attempt ∈ save.attempts,
      attempt.isCommitted → ∀ v ∈ s.db.avatars, attempt.name? = some v.name → v.deletedAt ≠ none
  | _ => True

instance : Decidable s.Backed := List.decidableBAll _ _

instance : ∀ a, Decidable (s.Paired a)
  | .insert .. => Option.decidableForallMem _
  | .remove _ deleted _ => if h : deleted then
      decidable_of_iff _ ⟨fun hp _ => hp,fun hp => hp h⟩
    else .isTrue fun hd => absurd hd h
  | .wait _ | .write _ | .upload .. | .check .. | .answer _ | .lose .. | .resend _ => .isTrue trivial

end AvatarFiles
end NestHomework.FileService
