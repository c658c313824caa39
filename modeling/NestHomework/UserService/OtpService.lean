import NestHomework.Redis.Store
import NestHomework.UserService.Otp

/-! `OtpService` over Redis, one whole call after another. All ids and purposes share one store,
and any time may pass between two calls. -/
namespace NestHomework.UserService
open Contracts Redis

def isUuid (s : String) : Bool :=
  s.toList.length = 36 && s.toList.zipIdx.all (fun (c,i) =>
    if i ∈ [8,13,18,23] then c = '-' else c.isDigit || ('a' ≤ c && c ≤ 'f'))

/-- A UUID in its text form. -/
structure UuidString where
  text : String
  isUuid : isUuid text
  deriving DecidableEq

inductive OtpKey where
  | email
  | password
  deriving DecidableEq, Repr

def OtpKey.name : OtpKey → String
  | email => "EMAIL"
  | password => "PASSWORD"

def codeKey (id : UuidString) (key : OtpKey) : String := "otp:"++key.name++":"++id.text

def cooldownKey (id : UuidString) (key : OtpKey) : String := codeKey id key++":cooldown"

section Keys
variable {id id' : UuidString} {key key' : OtpKey}

theorem UuidString.length (id : UuidString) : id.text.toList.length = 36 := by
  have h := id.isUuid
  rw [UserService.isUuid,Bool.and_eq_true,decide_eq_true_eq] at h
  exact h.1

theorem toList_codeKey (id : UuidString) (key : OtpKey) :
    (codeKey id key).toList = ("otp:"++key.name++":").toList++id.text.toList := by
  rw [codeKey,String.toList_append]

/-- The length of a key tells its purpose and its kind. -/
theorem length_codeKey (id : UuidString) (key : OtpKey) : (codeKey id key).toList.length =
    match key with
    | .email => 46
    | .password => 49 := by
  rw [toList_codeKey,List.length_append,id.length]
  cases key <;> rfl

theorem length_cooldownKey (id : UuidString) (key : OtpKey) : (cooldownKey id key).toList.length =
    match key with
    | .email => 55
    | .password => 58 := by
  rw [cooldownKey,String.toList_append,List.length_append,length_codeKey]
  cases key <;> rfl

theorem codeKey_inj : codeKey id key = codeKey id' key' ↔ id = id' ∧ key = key' := by
  constructor
  · intro h
    have hkey : key = key' := by
      have hlen := congrArg (fun s => s.toList.length) h
      simp only [length_codeKey] at hlen
      cases key <;> cases key' <;> simp_all
    subst hkey
    have htext := congrArg String.toList h
    rw [toList_codeKey,toList_codeKey,List.append_cancel_left_eq,String.toList_inj] at htext
    obtain ⟨text,hid⟩ := id
    obtain ⟨text',hid'⟩ := id'
    cases htext
    exact ⟨rfl,rfl⟩
  · rintro ⟨rfl,rfl⟩
    rfl

theorem cooldownKey_inj : cooldownKey id key = cooldownKey id' key' ↔ id = id' ∧ key = key' := by
  rw [← codeKey_inj,← String.toList_inj,← String.toList_inj,cooldownKey,cooldownKey,
    String.toList_append,String.toList_append,List.append_cancel_right_eq]

theorem codeKey_ne_cooldownKey : codeKey id key ≠ cooldownKey id' key' := by
  intro h
  have hlen := congrArg (fun s => s.toList.length) h
  simp only [length_codeKey,length_cooldownKey] at hlen
  cases key <;> cases key' <;> simp at hlen

end Keys

/-- A value in Redis: a hash with the fields `hash` and `attempts`, or a string. -/
inductive OtpValue (Hash : Type) where
  | hash (hash : Option Hash) (attempts : ℕ)
  | text (value : String)
  deriving DecidableEq, Repr

inductive OtpError where
  | rpc (error : RpcException)
  /-- The key holds a value of another type. -/
  | wrongType
  deriving DecidableEq, Repr

/-- `OTP_CODE_TTL` and `COOLDOWN_TTL` in seconds, and the least values that the environment may
give. -/
structure OtpConfig (Hash : Type) extends OtpOptions Hash where
  codeTtl : ℕ
  cooldownTtl : ℕ
  attemptsCount_min : 1 ≤ attemptsCount
  codeTtl_min : 100 ≤ codeTtl
  cooldownTtl_min : 30 ≤ cooldownTtl

namespace OtpService
variable {Hash : Type}

section Commands
variable (r : Store String (OtpValue Hash)) (now : ℕ) (key : String)

/-- `GET key` -/
def get : Except OtpError (Option String) :=
  match r.lookup now key with
  | none => .ok none
  | some (.text value) => .ok (some value)
  | some (.hash _ _) => .error .wrongType

/-- `HGET key hash` -/
def hget : Except OtpError (Option Hash) :=
  match r.lookup now key with
  | none => .ok none
  | some (.hash hash _) => .ok hash
  | some (.text _) => .error .wrongType

/-- `HSET key hash .. attempts 0` inside of a `MULTI`, where an error stops nothing. -/
def hset (hash : Hash) : Store String (OtpValue Hash) :=
  match r.lookup now key with
  | some (.text _) => r
  | _ => r.put now key (.hash (some hash) 0)

/-- `HINCRBY key attempts 1` -/
def hincrby : Except OtpError (ℕ × Store String (OtpValue Hash)) :=
  match r.lookup now key with
  | none => .ok (1,r.put now key (.hash none 1))
  | some (.hash hash attempts) => .ok (attempts+1,r.put now key (.hash hash (attempts+1)))
  | some (.text _) => .error .wrongType

end Commands

section Calls
variable (o : OtpConfig Hash) (r : Store String (OtpValue Hash)) (now : ℕ) (id : UuidString)

/-- `code` is what `generateCode` yields. -/
def generate (key : OtpKey) (code : String) :
    Except OtpError String × Store String (OtpValue Hash) :=
  let codeKey := codeKey id key
  let cooldownKey := cooldownKey id key
  match get r now cooldownKey with
  | .error e => (.error e,r)
  | .ok cooldown =>
    if cooldown.any (fun value => value ≠ "") then (.error (.rpc waitBeforeResend),r)
    else
      let stored := (hset r now codeKey (o.genOtpHash code)).expire now codeKey
        (now+1000*o.codeTtl)
      (.ok code,stored.set cooldownKey (.text "1") (some (now+1000*o.cooldownTtl)))

variable [DecidableEq Hash]

def verify (code : String) (key : OtpKey) : Except OtpError Unit × Store String (OtpValue Hash) :=
  let codeKey := codeKey id key
  let cooldownKey := cooldownKey id key
  match hget r now codeKey with
  | .error e => (.error e,r)
  | .ok none => (.error (.rpc ⟨some .notFound,"Код истек или не существует"⟩),r)
  | .ok (some storedHash) =>
    match hincrby r now codeKey with
    | .error e => (.error e,r)
    | .ok (attempts,r) =>
      if o.attemptsCount < attempts then (.error (.rpc waitBeforeResend),r.del [codeKey])
      else if storedHash ≠ o.genOtpHash code then
        (.error (.rpc ⟨some .unauthenticated,
          s!"Неверный код. Осталось попыток: {o.attemptsCount-attempts}"⟩),r)
      else (.ok (),r.del [codeKey,cooldownKey])

end Calls
end OtpService

inductive OtpRequest where
  | generate (code : String)
  | verify (code : String)
  deriving DecidableEq, Repr

/-- A call that has returned. -/
structure PastCall where
  time : ℕ
  id : UuidString
  key : OtpKey
  request : OtpRequest
  succeeded : Bool
  deriving DecidableEq

/-- The store, the clock in milliseconds, and the calls so far, the newest first. -/
structure OtpState (Hash : Type) where
  store : Store String (OtpValue Hash)
  now : ℕ
  past : List PastCall

inductive OtpStep where
  | wait (ms : ℕ)
  | call (id : UuidString) (key : OtpKey) (request : OtpRequest)
  deriving DecidableEq

namespace OtpState
variable {Hash : Type} [DecidableEq Hash] (o : OtpConfig Hash)

def initial : OtpState Hash := ⟨.empty,0,[]⟩

def serve (s : OtpState Hash) (id : UuidString) (key : OtpKey) :
    OtpRequest → Except OtpError OtpReply × Store String (OtpValue Hash)
  | .generate code =>
    let (answer,store) := OtpService.generate o s.store s.now id key code
    (answer.map .generated,store)
  | .verify code =>
    let (answer,store) := OtpService.verify o s.store s.now id code key
    (answer.map fun _ => .verified,store)

def next (s : OtpState Hash) : OtpStep → OtpState Hash
  | .wait ms => {s with now := s.now+ms}
  | .call id key request =>
    let (answer,store) := s.serve o id key request
    ⟨store,s.now,⟨s.now,id,key,request,answer.isOk⟩::s.past⟩

def after (steps : List OtpStep) : OtpState Hash := steps.foldl (next o) initial

end OtpState
end NestHomework.UserService
