import NestHomework.FileService.SaveAvatar
import NestHomework.UserService.OtpReference

/-! `AbstractGrpcClient.call` on a transport that loses nothing: what the retries do to a handler
that has answered. -/
namespace NestHomework.Grpc
open Contracts FileService Redis UserService

/-- An answer of a handler that is not a result. -/
structure ErrorStatus where
  code : GrpcStatus
  details : String
  deriving DecidableEq, Repr

/-- The error that the client makes of it. -/
def ErrorStatus.received (e : ErrorStatus) : CallError := .status (some e.code) e.details

abbrev Handler (S P R : Type) : Type := S → P → S × Except ErrorStatus R

/-- What a call leaves behind: the state of the server, the answers of the attempts in their order,
and what the caller gets. -/
structure Called (S R : Type) where
  state : S
  answers : List (Except ErrorStatus R)
  result : Except CallError R

namespace AbstractGrpcClient
open FileService.AbstractGrpcClient
variable {S P R : Type} (handler : Handler S P R) (payload : P)

/-- An attempt after which there is none. -/
def once (s : S) : Called S R :=
  let (s,answer) := handler s payload
  ⟨s,[answer],answer.mapError (·.received)⟩

/-- `retry({count,delay})`. The stream ends with the error that `delay` throws. -/
def retry : ℕ → S → Called S R
  | 0, s => once handler payload s
  | count+1, s =>
    match handler s payload with
    | (_, .ok _) => once handler payload s
    | (after, .error e) =>
      if final e.received then once handler payload s
      else
        let rest := retry count after
        {rest with answers := .error e::rest.answers}

def call (retries : ℕ) (s : S) : Called S R :=
  let called := retry handler payload retries s
  {called with result := called.result.mapError caught}

/-- The caller and the handler see one invocation. -/
structure Transparent (s : S) (called : Called S R) : Prop where
  answers : called.answers = [(handler s payload).2]
  state : called.state = (handler s payload).1
  result : called.result = (handler s payload).2.mapError (·.received)

/-- No attempt, however many there are, is answered with a status of the transport. -/
def Reliable (s : S) : Prop :=
  ∀ k e, (handler ((fun s => (handler s payload).1)^[k] s) payload).2 = .error e →
    e.code ≠ .unavailable ∧ e.code ≠ .deadlineExceeded

variable {handler payload} {s : S}

theorem final_received {e : ErrorStatus} : final e.received ↔ e.code ∈ noRetryStatuses := by
  simp [final,ErrorStatus.received]

theorem caught_received {e : ErrorStatus} (h : e.code ≠ .unavailable) :
    caught e.received = e.received := by
  unfold caught ErrorStatus.received
  split <;> simp_all

theorem retry_answers (handler : Handler S P R) (payload : P) (count : ℕ) (s : S) :
    ∃ rest, (retry handler payload count s).answers = (handler s payload).2::rest := by
  cases count with
  | zero => exact ⟨[],rfl⟩
  | succ count =>
    unfold retry
    split
    · exact ⟨[],rfl⟩
    · rename_i after e hanswer
      split
      · exact ⟨[],rfl⟩
      · exact ⟨_,by rw [hanswer]⟩

/-- After a result, or an error on the list, there is no attempt more. -/
theorem retry_of_final (h : ∀ e, (handler s payload).2 = .error e → e.code ∈ noRetryStatuses)
    (count : ℕ) : retry handler payload count s = once handler payload s := by
  cases count with
  | zero => rfl
  | succ count =>
    unfold retry
    split
    · rfl
    · rename_i after e hanswer
      rw [if_pos (final_received.mpr (h e (by rw [hanswer])))]

/-- Any other error is followed by an attempt, as long as one is left. -/
theorem retry_of_not_final {e : ErrorStatus} (he : (handler s payload).2 = .error e)
    (h : e.code ∉ noRetryStatuses) (count : ℕ) :
    2 ≤ (retry handler payload (count+1) s).answers.length := by
  cases hanswer : handler s payload with
  | mk after answer =>
    rw [hanswer] at he
    obtain ⟨rest,hrest⟩ := retry_answers handler payload count after
    have hfinal : ¬final e.received := fun hf => h (final_received.mp hf)
    simp only at he
    subst he
    simp only [retry,hanswer]
    rw [if_neg hfinal]
    simp [hrest]

theorem transparent_once (h : ∀ e, (handler s payload).2 = .error e → e.code ≠ .unavailable) :
    Transparent handler payload s
      {once handler payload s with result := (once handler payload s).result.mapError caught} where
  answers := rfl
  state := rfl
  result := by
    change ((handler s payload).2.mapError (·.received)).mapError caught = _
    cases hanswer : (handler s payload).2 with
    | ok r => rfl
    | error e => exact congrArg Except.error (caught_received (h e hanswer))

end AbstractGrpcClient

open AbstractGrpcClient FileService.AbstractGrpcClient in
/-- On a reliable transport the wrapper is transparent exactly where it does not retry: when no retry
is asked for, or the handler answers with a result or with one of the statuses on the list. -/
theorem call_is_transparent_iff {S P R : Type} {handler : Handler S P R} {payload : P} {s : S}
    (hreliable : Reliable handler payload s) (retries : ℕ) :
    Transparent handler payload s (call handler payload retries s) ↔
      retries = 0 ∨ ∀ e, (handler s payload).2 = .error e → e.code ∈ noRetryStatuses := by
  have havailable : ∀ e, (handler s payload).2 = .error e → e.code ≠ .unavailable :=
    fun e he => (hreliable 0 e he).1
  constructor
  · intro h
    by_contra hnot
    rw [not_or] at hnot
    push Not at hnot
    obtain ⟨hretries,e,he,hlist⟩ := hnot
    obtain ⟨count,rfl⟩ := Nat.exists_eq_succ_of_ne_zero hretries
    have htwo := retry_of_not_final he hlist count
    have hone : (retry handler payload (count+1) s).answers.length = 1 :=
      congrArg List.length h.answers
    omega
  · intro h
    have honce : retry handler payload retries s = once handler payload s := by
      obtain rfl | hfinal := h
      · rfl
      · exact retry_of_final hfinal retries
    unfold call
    rw [honce]
    exact transparent_once havailable

section Otp

/-- The status that the server sends for an error of `OtpService`. -/
def ErrorStatus.ofOtp : OtpError → ErrorStatus
  | .rpc e => ⟨e.code.getD .unknown,e.details⟩
  | .wrongType => ⟨.unknown,"Internal server error"⟩

/-- `verify` at one moment, for the code that the caller sends. -/
def verifyHandler (id : UuidString) (key : OtpKey) :
    Handler (Store String (OtpValue String)) String Unit :=
  fun r code =>
    let (answer,r) := OtpService.verify someConfig r 0 id code key
    (r,answer.mapError .ofOtp)

/-- A code whose attempts are used up. -/
def usedUp : Store String (OtpValue String) :=
  Store.empty.set (codeKey someId .email) (.hash (some "4821") 3) (some 200000)

theorem verify_code {id : UuidString} {key : OtpKey} {r : Store String (OtpValue String)}
    {code : String} {e : OtpError} (h : (OtpService.verify someConfig r 0 id code key).1 = .error e) :
    (ErrorStatus.ofOtp e).code ∈ [.notFound,.resourceExhausted,.unauthenticated,.unknown] := by
  rw [verify_eq] at h
  split at h
  · simp only [checkCode] at h
    split at h
    · cases h
      decide
    · split at h
      · cases h
        simp [ErrorStatus.ofOtp]
      · contradiction
  · cases h
    decide
  · cases h
    decide

theorem reliable_verifyHandler (id : UuidString) (key : OtpKey) (code : String)
    (r : Store String (OtpValue String)) :
    AbstractGrpcClient.Reliable (verifyHandler id key) code r := by
  intro k e he
  generalize (fun s => (verifyHandler id key s code).1)^[k] r = r' at he
  simp only [verifyHandler] at he
  cases hanswer : (OtpService.verify someConfig r' 0 id code key).1 with
  | ok _ =>
    rw [hanswer] at he
    contradiction
  | error e' =>
    have hcode := verify_code hanswer
    rw [hanswer] at he
    cases he
    exact ⟨fun heq => by simp [heq] at hcode,fun heq => by simp [heq] at hcode⟩

/-- The call that finds the attempts used up is refused with `RESOURCE_EXHAUSTED`. It is made again,
and the caller is told that there is no code. -/
theorem exhausted_verify_is_retried :
    AbstractGrpcClient.Reliable (verifyHandler someId .email) "4821" usedUp ∧
    (AbstractGrpcClient.call (verifyHandler someId .email) "4821" 2 usedUp).answers =
      [.error ⟨.resourceExhausted,"Подождите перед повторной отправкой"⟩,
        .error ⟨.notFound,"Код истек или не существует"⟩] ∧
    (AbstractGrpcClient.call (verifyHandler someId .email) "4821" 2 usedUp).result =
      .error (.status (some .notFound) "Код истек или не существует") := by
  refine ⟨reliable_verifyHandler someId .email "4821" usedUp,?_,?_⟩
  · decide +kernel
  · decide +kernel

theorem call_is_transparent_iff_absent : AbstractGrpcClient.Transparent
    (verifyHandler someId .email) "4821" Store.empty
    (AbstractGrpcClient.call (verifyHandler someId .email) "4821" 2 Store.empty) := by
  refine (call_is_transparent_iff (reliable_verifyHandler someId .email "4821" .empty) 2).mpr
    (.inr fun e he => ?_)
  have hanswer : (verifyHandler someId .email .empty "4821").2 =
      .error ⟨.notFound,"Код истек или не существует"⟩ := by decide +kernel
  rw [hanswer] at he
  cases he
  decide

end Otp
end NestHomework.Grpc
