import Mathlib.Tactic
import NestHomework.FileService.SaveAvatar

/-! `AbstractGrpcClient.call` on a transport that loses requests and responses. An attempt that the
client has given up runs on at the server. -/
namespace NestHomework.Grpc
open FileService

inductive RpcStage (R : Type) where
  | waiting (retryCount : ℕ)
  | delaying (retryCount : ℕ)
  | returned (answer : R)
  | threw (error : CallError)
  deriving DecidableEq

/-- A call with its attempts, the last of which is the one it waits for. `H` is what the server does
with one of them. -/
structure RpcCall (H R : Type) where
  attempts : List H
  stage : RpcStage R
  deriving DecidableEq

/-- What happens to a call. -/
inductive RpcStep where
  /-- the response of the last attempt arrives -/
  | answer
  /-- the last attempt ends without a response -/
  | lose (error : CallError)
  /-- the timer of `delay` fires -/
  | resend
  deriving DecidableEq

namespace RpcCall
variable {H R : Type} (retries : ℕ) (outcome : H → Option (Except CallError R)) (request : H)
  (c : RpcCall H R)

def start : RpcCall H R := ⟨[request],.waiting 0⟩

/-- The attempt number `retryCount` has failed. -/
def fail (retryCount : ℕ) (err : CallError) : RpcCall H R :=
  match AbstractGrpcClient.failed retries retryCount err with
  | none => {c with stage := .delaying retryCount}
  | some err => {c with stage := .threw err}

def step : RpcStep → Option (RpcCall H R)
  | .answer =>
    match c.stage, c.attempts.getLast?.bind outcome with
    | .waiting _, some (.ok answer) => some {c with stage := .returned answer}
    | .waiting retryCount, some (.error err) => some (c.fail retries retryCount err)
    | _, _ => none
  | .lose err =>
    match c.stage with
    | .waiting retryCount => some (c.fail retries retryCount err)
    | _ => none
  | .resend =>
    match c.stage with
    | .delaying retryCount => some ⟨c.attempts++[request],.waiting (retryCount+1)⟩
    | _ => none

/-- The attempt goes on at the server. -/
def setAttempt (j : ℕ) (h : H) : RpcCall H R := {c with attempts := c.attempts.set j h}

/-- The attempts are those that the count of the retries allows, and an answer is one of theirs. -/
structure Sound : Prop where
  attempts : match c.stage with
    | .waiting retryCount => c.attempts.length = retryCount+1 ∧ retryCount ≤ retries
    | .delaying retryCount => c.attempts.length = retryCount+1 ∧ retryCount < retries
    | _ => c.attempts.length ≤ retries+1
  answered : ∀ answer, c.stage = .returned answer → ∃ h ∈ c.attempts, outcome h = some (.ok answer)

variable {retries outcome request c} {d : RpcCall H R} {e : RpcStep} {j : ℕ} {h h' : H}

theorem sound_start : (start request).Sound retries outcome where
  attempts := ⟨rfl,Nat.zero_le _⟩
  answered := nofun

theorem Sound.length_le (hc : c.Sound retries outcome) : c.attempts.length ≤ retries+1 := by
  have := hc.attempts
  split at this <;> omega

theorem Sound.fail {retryCount : ℕ} {err : CallError} (hc : c.Sound retries outcome)
    (hstage : c.stage = .waiting retryCount) : (c.fail retries retryCount err).Sound retries outcome := by
  have hlen := hc.attempts
  rw [hstage] at hlen
  unfold RpcCall.fail
  split
  next hfailed =>
    refine ⟨⟨hlen.1,?_⟩,nofun⟩
    unfold AbstractGrpcClient.failed at hfailed
    split at hfailed
    next hretry => exact of_decide_eq_true (Bool.and_eq_true_iff.mp hretry).1
    next => contradiction
  next => exact ⟨(Nat.le_of_eq hlen.1).trans (Nat.add_le_add_right hlen.2 1),nofun⟩

theorem Sound.step (hc : c.Sound retries outcome) (hs : c.step retries outcome request e = some d) :
    d.Sound retries outcome := by
  cases e with
  | answer =>
    simp only [RpcCall.step] at hs
    split at hs
    next hstage houtcome =>
      cases hs
      refine ⟨hc.length_le,fun answer hanswer => ?_⟩
      cases hanswer
      obtain ⟨h,hlast,hok⟩ := Option.bind_eq_some_iff.mp houtcome
      exact ⟨h,List.mem_of_getLast? hlast,hok⟩
    next hstage _ =>
      cases hs
      exact hc.fail hstage
    next => contradiction
  | lose err =>
    simp only [RpcCall.step] at hs
    split at hs
    next hstage =>
      cases hs
      exact hc.fail hstage
    next => contradiction
  | resend =>
    simp only [RpcCall.step] at hs
    split at hs
    next hstage =>
      cases hs
      have hlen := hc.attempts
      rw [hstage] at hlen
      exact ⟨⟨by simp [hlen.1],hlen.2⟩,nofun⟩
    next => contradiction

/-- A step keeps the attempts, and adds the request to them when it sends again. -/
theorem attempts_step (hs : c.step retries outcome request e = some d) :
    d.attempts = c.attempts ∨ d.attempts = c.attempts++[request] := by
  have hfail : ∀ k err, (c.fail retries k err).attempts = c.attempts := by
    intro k err
    unfold RpcCall.fail
    split <;> rfl
  cases e <;> simp only [RpcCall.step] at hs <;> split at hs <;> cases hs
  · exact .inl rfl
  · exact .inl (hfail ..)
  · exact .inl (hfail ..)
  · exact .inr rfl

/-- What holds of the attempts and of the request holds after a step. -/
theorem forall_step {P : H → Prop} (hs : c.step retries outcome request e = some d) (hnew : P request)
    (hold : ∀ h ∈ c.attempts, P h) : ∀ h ∈ d.attempts, P h := by
  intro h hh
  obtain heq | heq := attempts_step hs
  · exact hold h (heq ▸ hh)
  · rw [heq] at hh
    obtain hh | hh := List.mem_append.mp hh
    · exact hold h hh
    · rwa [List.mem_singleton.mp hh]

theorem forall_setAttempt {P : H → Prop} (hnew : P h') (hold : ∀ h ∈ c.attempts, P h) :
    ∀ h ∈ (c.setAttempt j h').attempts, P h := by
  intro h hh
  obtain hh | rfl := List.mem_or_eq_of_mem_set hh
  · exact hold h hh
  · exact hnew

theorem countP_step {p : H → Bool} (hs : c.step retries outcome request e = some d)
    (hnew : p request = false) : d.attempts.countP p = c.attempts.countP p := by
  obtain heq | heq := attempts_step hs
  · rw [heq]
  · rw [heq,List.countP_append,List.countP_singleton,hnew]
    rfl

/-- The attempt goes over to `h'`, which counts when `h` does. -/
theorem countP_setAttempt {p : H → Bool} (hj : c.attempts[j]? = some h) :
    (c.setAttempt j h').attempts.countP p+(p h).toNat = c.attempts.countP p+(p h').toNat := by
  obtain ⟨hlt,hget⟩ := List.getElem?_eq_some_iff.mp hj
  have hpos : (p h).toNat ≤ c.attempts.countP p := by
    cases hp : p h with
    | false => exact Nat.zero_le _
    | true => exact List.countP_pos_iff.mpr ⟨h,List.mem_of_getElem? hj,hp⟩
  rw [RpcCall.setAttempt,List.countP_set hlt,hget]
  cases hp : p h <;> cases hp' : p h' <;> simp only [hp,Bool.toNat_true,Bool.toNat_false] at * <;>
    simp <;> omega

/-- An attempt that goes on keeps its outcome. -/
theorem Sound.setAttempt (hc : c.Sound retries outcome) (hj : c.attempts[j]? = some h)
    (hkeep : ∀ answer, outcome h = some (.ok answer) → outcome h' = some (.ok answer)) :
    (c.setAttempt j h').Sound retries outcome := by
  refine ⟨?_,fun answer hanswer => ?_⟩
  · simpa only [RpcCall.setAttempt,List.length_set] using hc.attempts
  · obtain ⟨g,hg,hok⟩ := hc.answered answer hanswer
    obtain ⟨i,hi⟩ := List.getElem?_of_mem hg
    by_cases hij : j = i
    · subst hij
      obtain rfl := Option.some.inj (hj.symm.trans hi)
      exact ⟨h',List.mem_set (List.getElem?_eq_some_iff.mp hj).1 h',hkeep answer hok⟩
    · refine ⟨g,List.mem_of_getElem? (i := i) ?_,hok⟩
      rwa [RpcCall.setAttempt,List.getElem?_set_ne hij]

end RpcCall
end NestHomework.Grpc
