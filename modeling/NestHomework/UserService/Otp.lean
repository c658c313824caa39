import Mathlib.Tactic
import NestHomework.Contracts.Grpc
import NestHomework.Transition.Run

/-! `OtpService` for one id and one purpose, one Redis command at a time. Any number of calls run
side by side, and a key may expire between any two commands. -/
namespace NestHomework.UserService
open Contracts Transition

/-- The value of the field `hash`. `number` is the place of its code among the generated ones. -/
structure StoredHash (Hash : Type) where
  number : ℕ
  hash : Hash
  deriving DecidableEq, Repr

/-- The hash at `otp:{key}:{id}`. `HINCRBY` makes one without the field `hash`. -/
structure CodeEntry (Hash : Type) where
  hash : Option (StoredHash Hash)
  attempts : ℕ
  deriving DecidableEq, Repr

/-- The two keys of an id and a purpose. -/
structure OtpStore (Hash : Type) where
  code : Option (CodeEntry Hash)
  cooldown : Bool
  deriving DecidableEq, Repr

namespace OtpStore
variable {Hash : Type} (r : OtpStore Hash)

def hget : Option (StoredHash Hash) := r.code.bind (·.hash)

/-- `HINCRBY codeKey attempts 1`, with the new value. -/
def hincrby : ℕ × OtpStore Hash :=
  let entry := r.code.getD ⟨none,0⟩
  (entry.attempts+1,{r with code := some {entry with attempts := entry.attempts+1}})

/-- The `MULTI` of `generate`. -/
def multi (_r : OtpStore Hash) (hash : StoredHash Hash) : OtpStore Hash := ⟨some ⟨some hash,0⟩,true⟩

def del : OtpStore Hash := {r with code := none}

def delBoth (_r : OtpStore Hash) : OtpStore Hash := ⟨none,false⟩

variable {r} {st : StoredHash Hash} {k : ℕ}

theorem hget_iff : r.hget = some st ↔ ∃ k, r.code = some ⟨some st,k⟩ := by
  obtain ⟨code,cooldown⟩ := r
  rcases code with _ | ⟨hash,attempts⟩ <;> simp [hget]

theorem hget_hincrby : r.hincrby.2.hget = r.hget := by
  obtain ⟨code,cooldown⟩ := r
  cases code <;> rfl

theorem code_hincrby : r.hincrby.2.code = some ⟨some st,k⟩ ↔
    r.hincrby.1 = k ∧ ∃ n, k = n+1 ∧ r.code = some ⟨some st,n⟩ := by
  obtain ⟨code,cooldown⟩ := r
  rcases code with _ | ⟨hash,attempts⟩
  · simp [hincrby]
  · simp only [hincrby,Option.getD_some,Option.some.injEq,CodeEntry.mk.injEq]
    constructor
    · rintro ⟨rfl,rfl⟩
      exact ⟨rfl,attempts,rfl,rfl,rfl⟩
    · rintro ⟨rfl,n,hn,rfl,-⟩
      exact ⟨rfl,rfl⟩

theorem hget_of_code {r' : OtpStore Hash} (h : r'.code = none ∨ r'.code = r.code)
    (hst : r'.hget = some st) : r.hget = some st := by
  rw [hget] at hst ⊢
  rcases h with h | h
  · rw [h] at hst
    contradiction
  · rwa [h] at hst

end OtpStore

inductive OtpReply where
  | generated (code : String)
  | verified
  deriving DecidableEq, Repr

/-- Where a call of `generate` or `verify` is: before its next command. -/
inductive OtpCall (Hash : Type) where
  /-- before `GET cooldownKey` -/
  | generate (code : String)
  /-- before the `MULTI` -/
  | store (code : String)
  /-- before `HGET codeKey hash` -/
  | verify (code : String)
  /-- before `HINCRBY codeKey attempts 1` -/
  | count (code : String) (storedHash : StoredHash Hash)
  /-- before `DEL codeKey` -/
  | exhausted
  /-- before `DEL codeKey cooldownKey` -/
  | consume (storedHash : StoredHash Hash)
  | returned (result : Except RpcException OtpReply)

/-- `OTP_ATTEMPTS_COUNT`, and `genOtpHash`. -/
structure OtpOptions (Hash : Type) where
  attemptsCount : ℕ
  genOtpHash : String → Hash

/-- The calls over the store, and what happened so far: the generated codes, the codes that a call
compared its input with, and those that a call was accepted with, each with the number of codes
generated by then. -/
structure OtpRun (Hash : Type) where
  store : OtpStore Hash
  call : ℕ → Option (OtpCall Hash)
  generated : List String
  compared : List ℕ
  accepted : List (ℕ × ℕ)

inductive OtpAction where
  | generate (i : ℕ) (code : String)
  | verify (i : ℕ) (code : String)
  | command (i : ℕ)
  | expireCode
  | expireCooldown
  deriving DecidableEq, Repr

def waitBeforeResend : RpcException :=
  ⟨some .resourceExhausted,"Подождите перед повторной отправкой"⟩

namespace OtpRun
variable {Hash : Type}

def initial : OtpRun Hash := ⟨⟨none,false⟩,fun _ => none,[],[],[]⟩

def setCall (s : OtpRun Hash) (i : ℕ) (c : OtpCall Hash) : OtpRun Hash :=
  {s with call := Function.update s.call i (some c)}

section Calls
variable {s : OtpRun Hash} {i j : ℕ} {c d : OtpCall Hash}

theorem setCall_call : (s.setCall i c).call j = if j = i then some c else s.call j :=
  Function.update_apply ..

/-- A call that stands elsewhere is one of the others. -/
theorem call_of_setCall (h : (s.setCall i c).call j = some d) (hne : d ≠ c) : s.call j = some d := by
  rw [setCall_call] at h
  split at h
  · exact absurd (Option.some.inj h).symm hne
  · exact h

end Calls

/-- What holds in every run: the stored hash is the newest one. -/
structure Sound (s : OtpRun Hash) : Prop where
  newest : ∀ st, s.store.hget = some st → st.number+1 = s.generated.length
  counting : ∀ i code st, s.call i = some (.count code st) → st.number < s.generated.length
  consuming : ∀ i st, s.call i = some (.consume st) → st.number < s.generated.length
  compared : ∀ n ∈ s.compared, n < s.generated.length
  accepted : ∀ n ∈ s.accepted.map (·.1), n < s.generated.length

theorem Sound.initial : Sound (initial : OtpRun Hash) :=
  ⟨fun _ h => by contradiction,fun _ _ _ h => by contradiction,fun _ _ h => by contradiction,
    fun _ h => by contradiction,fun _ h => by contradiction⟩

variable [DecidableEq Hash] (o : OtpOptions Hash)

/-- The next command of a call, and the code up to the one after it. -/
def command (s : OtpRun Hash) (i : ℕ) : OtpCall Hash → Option (OtpRun Hash)
  | .generate code =>
    some (s.setCall i (if s.store.cooldown then .returned (.error waitBeforeResend) else .store code))
  | .store code =>
    some {s.setCall i (.returned (.ok (.generated code))) with
      store := s.store.multi ⟨s.generated.length,o.genOtpHash code⟩
      generated := s.generated++[code]}
  | .verify code =>
    match s.store.hget with
    | none => some (s.setCall i (.returned (.error ⟨some .notFound,"Код истек или не существует"⟩)))
    | some storedHash => some (s.setCall i (.count code storedHash))
  | .count code storedHash =>
    let (attempts,store) := s.store.hincrby
    if o.attemptsCount < attempts then some {s.setCall i .exhausted with store := store}
    else
      let s := {s with store := store, compared := s.compared++[storedHash.number]}
      if storedHash.hash ≠ o.genOtpHash code then
        some (s.setCall i (.returned (.error ⟨some .unauthenticated,
          s!"Неверный код. Осталось попыток: {o.attemptsCount-attempts}"⟩)))
      else some (s.setCall i (.consume storedHash))
  | .exhausted =>
    some {s.setCall i (.returned (.error waitBeforeResend)) with store := s.store.del}
  | .consume storedHash =>
    some {s.setCall i (.returned (.ok .verified)) with
      store := s.store.delBoth
      accepted := s.accepted++[(storedHash.number,s.generated.length)]}
  | .returned _ => none

/-- A key has a time to live from the `MULTI` of `generate` on, until it is deleted. -/
def next (s : OtpRun Hash) : OtpAction → Option (OtpRun Hash)
  | .generate i code => if (s.call i).isSome then none else some (s.setCall i (.generate code))
  | .verify i code => if (s.call i).isSome then none else some (s.setCall i (.verify code))
  | .command i => (s.call i).bind (s.command o i)
  | .expireCode => if s.store.hget.isSome then some {s with store := s.store.del} else none
  | .expireCooldown => some {s with store := {s.store with cooldown := false}}

/-- What a step does to the store and to the history. -/
inductive Turn (o : OtpOptions Hash) (s : OtpRun Hash) : OtpAction → OtpRun Hash → Prop
  | moves {a} (i : ℕ) {c : OtpCall Hash} (count : ∀ code st, c ≠ .count code st)
      (consume : ∀ st, c ≠ .consume st) : Turn o s a (s.setCall i c)
  | reads {i code st} (found : s.store.hget = some st) :
      Turn o s (.command i) (s.setCall i (.count code st))
  | stores {i code} : Turn o s (.command i)
      {s.setCall i (.returned (.ok (.generated code))) with
        store := s.store.multi ⟨s.generated.length,o.genOtpHash code⟩
        generated := s.generated++[code]}
  | exceeds {i code st} (call : s.call i = some (.count code st)) :
      Turn o s (.command i) {s.setCall i .exhausted with store := s.store.hincrby.2}
  | compares {i code st c} (call : s.call i = some (.count code st))
      (within : s.store.hincrby.1 ≤ o.attemptsCount)
      (result : (∃ e, c = .returned (.error e)) ∨ c = .consume st) :
      Turn o s (.command i)
        {s.setCall i c with
          store := s.store.hincrby.2
          compared := s.compared++[st.number]}
  | deletes {i e} : Turn o s (.command i)
      {s.setCall i (.returned (.error e)) with store := s.store.del}
  | consumes {i st} (call : s.call i = some (.consume st)) : Turn o s (.command i)
      {s.setCall i (.returned (.ok .verified)) with
        store := s.store.delBoth
        accepted := s.accepted++[(st.number,s.generated.length)]}
  | expires {a store} (code : store.code = none ∨ store.code = s.store.code) :
      Turn o s a {s with store := store}

variable {o}

theorem turn_of_next {s t : OtpRun Hash} {a : OtpAction} (hn : s.next o a = some t) :
    Turn o s a t := by
  cases a with
  | generate i code =>
    simp only [next] at hn
    split at hn
    · contradiction
    · cases hn
      exact .moves i (by simp) (by simp)
  | verify i code =>
    simp only [next] at hn
    split at hn
    · contradiction
    · cases hn
      exact .moves i (by simp) (by simp)
  | command i =>
    obtain ⟨c,hc,hcommand⟩ := Option.bind_eq_some_iff.mp hn
    cases c with
    | generate code =>
      cases hcommand
      split <;> exact .moves i (by simp) (by simp)
    | store code =>
      cases hcommand
      exact .stores
    | verify code =>
      simp only [command] at hcommand
      split at hcommand
      · cases hcommand
        exact .moves i (by simp) (by simp)
      · cases hcommand
        exact .reads (by assumption)
    | count code storedHash =>
      simp only [command] at hcommand
      split at hcommand
      · cases hcommand
        exact .exceeds hc
      · rename_i hle
        split at hcommand
        · cases hcommand
          exact .compares hc (by omega) (.inl ⟨_,rfl⟩)
        · cases hcommand
          exact .compares hc (by omega) (.inr rfl)
    | exhausted =>
      cases hcommand
      exact .deletes
    | consume storedHash =>
      cases hcommand
      exact .consumes hc
    | returned result => contradiction
  | expireCode =>
    simp only [next] at hn
    split at hn
    · cases hn
      exact .expires (.inl rfl)
    · contradiction
  | expireCooldown =>
    cases hn
    exact .expires (.inr rfl)

variable {s t : OtpRun Hash} {a : OtpAction}

theorem Sound.next (h : s.Sound) (hn : s.next o a = some t) : t.Sound := by
  cases turn_of_next hn with
  | moves i count consume =>
    refine ⟨h.newest,fun j code st hj => ?_,fun j st hj => ?_,h.compared,h.accepted⟩
    · exact h.counting j code st (call_of_setCall hj (count code st).symm)
    · exact h.consuming j st (call_of_setCall hj (consume st).symm)
  | @reads i code st found =>
    refine ⟨h.newest,fun j code' st' hj => ?_,fun j st' hj => ?_,h.compared,h.accepted⟩
    · rw [setCall_call] at hj
      split at hj
      · cases hj
        exact Nat.lt_of_succ_le (h.newest st found).le
      · exact h.counting j code' st' hj
    · exact h.consuming j st' (call_of_setCall hj (by simp))
  | @stores i code =>
    refine ⟨fun st hst => ?_,fun j code' st hj => ?_,fun j st hj => ?_,fun n hn => ?_,fun n hn => ?_⟩
    · cases hst
      simp
    · have := h.counting j code' st (call_of_setCall hj (by simp))
      simp only [List.length_append,List.length_singleton]
      omega
    · have := h.consuming j st (call_of_setCall hj (by simp))
      simp only [List.length_append,List.length_singleton]
      omega
    · have := h.compared n hn
      simp only [List.length_append,List.length_singleton]
      omega
    · have := h.accepted n hn
      simp only [List.length_append,List.length_singleton]
      omega
  | @exceeds i code st call =>
    refine ⟨fun st hst => ?_,fun j code' st' hj => ?_,fun j st' hj => ?_,h.compared,h.accepted⟩
    · exact h.newest st (by rwa [OtpStore.hget_hincrby] at hst)
    · exact h.counting j code' st' (call_of_setCall hj (by simp))
    · exact h.consuming j st' (call_of_setCall hj (by simp))
  | @compares i code st c call within result =>
    refine ⟨fun st hst => ?_,fun j code' st' hj => ?_,fun j st' hj => ?_,fun n hn => ?_,h.accepted⟩
    · exact h.newest st (by rwa [OtpStore.hget_hincrby] at hst)
    · refine h.counting j code' st' (call_of_setCall hj ?_)
      rcases result with ⟨e,rfl⟩ | rfl <;> simp
    · change (s.setCall i c).call j = _ at hj
      rw [setCall_call] at hj
      split at hj
      · rcases result with ⟨e,rfl⟩ | rfl
        · simp at hj
        · cases hj
          exact h.counting i code st call
      · exact h.consuming j st' hj
    · rcases List.mem_append.mp hn with hn | hn
      · exact h.compared n hn
      · rw [List.mem_singleton.mp hn]
        exact h.counting i code st call
  | @deletes i e =>
    refine ⟨fun st hst => by contradiction,fun j code' st' hj => ?_,fun j st' hj => ?_,h.compared,
      h.accepted⟩
    · exact h.counting j code' st' (call_of_setCall hj (by simp))
    · exact h.consuming j st' (call_of_setCall hj (by simp))
  | @consumes i st call =>
    refine ⟨fun st hst => by contradiction,fun j code' st' hj => ?_,fun j st' hj => ?_,h.compared,
      fun n hn => ?_⟩
    · exact h.counting j code' st' (call_of_setCall hj (by simp))
    · exact h.consuming j st' (call_of_setCall hj (by simp))
    · rw [List.map_append] at hn
      rcases List.mem_append.mp hn with hn | hn
      · exact h.accepted n hn
      · rw [List.mem_singleton.mp hn]
        exact h.consuming i st call
  | expires code =>
    exact ⟨fun st hst => h.newest st (OtpStore.hget_of_code code hst),h.counting,h.consuming,h.compared,
      h.accepted⟩

/-- `HINCRBY` meets the hash that its call has read. -/
def Attached (s : OtpRun Hash) : OtpAction → Prop
  | .command i =>
    match s.call i with
    | some (.count _ storedHash) => s.store.hget = some storedHash
    | _ => True
  | _ => True

/-- An accepted call deletes the hash that it has compared with. -/
def Consumes (s : OtpRun Hash) : OtpAction → Prop
  | .command i =>
    match s.call i with
    | some (.consume storedHash) => s.store.hget = some storedHash
    | _ => True
  | _ => True

/-- The counter bounds the comparisons with the stored code. -/
structure Limited (o : OtpOptions Hash) (s : OtpRun Hash) : Prop where
  counted : ∀ st k, s.store.code = some ⟨some st,k⟩ → s.compared.count st.number ≤ k
  bound : ∀ n, s.compared.count n ≤ o.attemptsCount

theorem Limited.next (h : s.Limited o) (hs : s.Sound) (ha : s.Attached a)
    (hn : s.next o a = some t) : t.Limited o := by
  cases turn_of_next hn with
  | moves => exact ⟨h.counted,h.bound⟩
  | reads => exact ⟨h.counted,h.bound⟩
  | @stores i code =>
    refine ⟨fun st k hst => ?_,h.bound⟩
    cases hst
    have hnew : s.generated.length ∉ s.compared := fun hmem =>
      Nat.lt_irrefl _ (hs.compared _ hmem)
    exact (List.count_eq_zero_of_not_mem hnew).le
  | exceeds =>
    refine ⟨fun st k hst => ?_,h.bound⟩
    obtain ⟨-,n,rfl,hcode⟩ := OtpStore.code_hincrby.mp hst
    exact (h.counted st n hcode).trans (Nat.le_succ n)
  | @compares i code st c call within =>
    simp only [Attached,call] at ha
    obtain ⟨k,hcode⟩ := OtpStore.hget_iff.mp ha
    have hcount := h.counted st k hcode
    have hattempts : s.store.hincrby.1 = k+1 := by simp [OtpStore.hincrby,hcode]
    refine ⟨fun st' k' hst => ?_,fun n => ?_⟩
    · obtain ⟨rfl,n,-,hcode'⟩ := OtpStore.code_hincrby.mp hst
      rw [hcode] at hcode'
      cases hcode'
      rw [List.count_append,List.count_singleton_self]
      omega
    · rw [List.count_append,List.count_singleton]
      have := h.bound n
      split
      · rename_i heq
        rw [← beq_iff_eq.mp heq]
        omega
      · omega
  | deletes => exact ⟨fun st k hst => by contradiction,h.bound⟩
  | consumes => exact ⟨fun st k hst => by contradiction,h.bound⟩
  | expires code =>
    refine ⟨fun st k hst => ?_,h.bound⟩
    rcases code with code | code
    · rw [code] at hst
      contradiction
    · exact h.counted st k (code ▸ hst)

/-- The accepted codes. -/
structure Single (s : OtpRun Hash) : Prop where
  fresh : ∀ st, s.store.hget = some st → st.number ∉ s.accepted.map (·.1)
  once : (s.accepted.map (·.1)).Nodup
  newest : ∀ a ∈ s.accepted, a.1+1 = a.2

theorem Single.next (h : s.Single) (hs : s.Sound) (ha : s.Consumes a)
    (hn : s.next o a = some t) : t.Single := by
  cases turn_of_next hn with
  | moves => exact ⟨h.fresh,h.once,h.newest⟩
  | reads => exact ⟨h.fresh,h.once,h.newest⟩
  | @stores i code =>
    refine ⟨fun st hst hmem => ?_,h.once,h.newest⟩
    cases hst
    exact Nat.lt_irrefl _ (hs.accepted _ hmem)
  | exceeds => exact ⟨fun st hst => h.fresh st (by rwa [OtpStore.hget_hincrby] at hst),h.once,h.newest⟩
  | compares => exact ⟨fun st hst => h.fresh st (by rwa [OtpStore.hget_hincrby] at hst),h.once,h.newest⟩
  | deletes => exact ⟨fun st hst => by contradiction,h.once,h.newest⟩
  | @consumes i st call =>
    simp only [Consumes,call] at ha
    refine ⟨fun st hst => by contradiction,?_,fun b hb => ?_⟩
    · rw [List.map_append,List.nodup_append]
      refine ⟨h.once,by simp,fun n hn m hm heq => h.fresh st ha ?_⟩
      rw [List.map_singleton,List.mem_singleton] at hm
      have hnumber : n = st.number := heq.trans hm
      exact hnumber ▸ hn
    · rcases List.mem_append.mp hb with hb | hb
      · exact h.newest b hb
      · rw [List.mem_singleton.mp hb]
        exact hs.newest st ha
  | expires code =>
    exact ⟨fun st hst => h.fresh st (OtpStore.hget_of_code code hst),h.once,h.newest⟩

variable {as : List OtpAction}

/-- No code is compared with more often than `OTP_ATTEMPTS_COUNT` says, when every `HINCRBY` of a
run meets the hash that its call has read. -/
theorem attempts_are_limited (hgood : Along (OtpRun.next o) Attached .initial as)
    (hr : runs (OtpRun.next o) .initial as = some s) :
    ∀ number, s.compared.count number ≤ o.attemptsCount := by
  have hstep : ∀ (s : OtpRun Hash) a t, s.Sound ∧ s.Limited o → s.Attached a → s.next o a = some t →
      t.Sound ∧ t.Limited o := fun _ _ _ hI ha hn => ⟨hI.1.next hn,hI.2.next hI.1 ha hn⟩
  have h0 : Sound (.initial : OtpRun Hash) ∧ Limited o (.initial : OtpRun Hash) :=
    ⟨.initial,fun _ _ h => by contradiction,fun _ => Nat.zero_le _⟩
  exact (runs_invariant hstep h0 hgood hr).2.bound

/-- A code is accepted once, and only the newest one, when every accepted call of a run deletes the
hash that it has compared with. -/
theorem code_is_accepted_once (hgood : Along (OtpRun.next o) Consumes .initial as)
    (hr : runs (OtpRun.next o) .initial as = some s) :
    (s.accepted.map (·.1)).Nodup ∧ ∀ a ∈ s.accepted, a.1+1 = a.2 := by
  have hstep : ∀ (s : OtpRun Hash) a t, s.Sound ∧ s.Single → s.Consumes a → s.next o a = some t →
      t.Sound ∧ t.Single := fun _ _ _ hI ha hn => ⟨hI.1.next hn,hI.2.next hI.1 ha hn⟩
  have h0 : Sound (.initial : OtpRun Hash) ∧ Single (.initial : OtpRun Hash) :=
    ⟨.initial,fun _ h => by contradiction,.nil,fun _ h => by contradiction⟩
  have h := (runs_invariant hstep h0 hgood hr).2
  exact ⟨h.once,h.newest⟩

section Schedules

def threeAttempts : OtpOptions String := ⟨3,fun code => code⟩

/-- Four calls read the hash side by side. Two of them fail, the third is accepted, and the fourth
finds the attempts used up before the third one deletes the key. -/
def sideBySide : List OtpAction :=
  [.generate 0 "483920",.command 0,.command 0,.verify 1 "1",.verify 2 "2",.verify 3 "483920",
    .verify 4 "4",.command 1,.command 2,.command 3,.command 4,
    .command 1,.command 2,.command 3,.command 4,.command 3,.command 4]

theorem attempts_are_limited_side_by_side : ∃ s,
    runs (OtpRun.next threeAttempts) .initial sideBySide = some s ∧ s.compared = [0,0,0] ∧
      s.compared.count 0 ≤ 3 := by
  have hgood : Along (OtpRun.next threeAttempts) Attached .initial sideBySide :=
    .cons trivial rfl (.cons trivial rfl (.cons trivial rfl (.cons trivial rfl (.cons trivial rfl
      (.cons trivial rfl (.cons trivial rfl (.cons trivial rfl (.cons trivial rfl (.cons trivial rfl
        (.cons trivial rfl (.cons rfl rfl (.cons rfl rfl (.cons rfl rfl (.cons rfl rfl
          (.cons trivial rfl (.cons trivial rfl trivial))))))))))))))))
  exact ⟨_,rfl,rfl,attempts_are_limited hgood rfl 0⟩

theorem code_is_accepted_once_side_by_side : ∃ s,
    runs (OtpRun.next threeAttempts) .initial sideBySide = some s ∧ s.accepted = [(0,1)] ∧
      (s.accepted.map (·.1)).Nodup := by
  have hgood : Along (OtpRun.next threeAttempts) Consumes .initial sideBySide :=
    .cons trivial rfl (.cons trivial rfl (.cons trivial rfl (.cons trivial rfl (.cons trivial rfl
      (.cons trivial rfl (.cons trivial rfl (.cons trivial rfl (.cons trivial rfl (.cons trivial rfl
        (.cons trivial rfl (.cons trivial rfl (.cons trivial rfl (.cons trivial rfl (.cons trivial rfl
          (.cons rfl rfl (.cons trivial rfl trivial))))))))))))))))
  exact ⟨_,rfl,rfl,(code_is_accepted_once hgood rfl).1⟩

/-- Five calls read the hash. Three use up the attempts, the fourth deletes the key, and the fifth
begins to count anew. -/
def overrun : List OtpAction :=
  [.generate 0 "483920",.command 0,.command 0,.verify 1 "1",.verify 2 "2",.verify 3 "3",
    .verify 4 "4",.verify 5 "5",.command 1,.command 2,.command 3,.command 4,.command 5,
    .command 1,.command 2,.command 3,.command 4,.command 4,.command 5]

/-- Two calls compare with the code before one of them deletes it. -/
def acceptedTwice : List OtpAction :=
  [.generate 0 "483920",.command 0,.command 0,.verify 1 "483920",.verify 2 "483920",
    .command 1,.command 2,.command 1,.command 2,.command 1,.command 2]

theorem attempts_are_exceeded : ∃ s, runs (OtpRun.next threeAttempts) .initial overrun = some s ∧
    threeAttempts.attemptsCount < s.compared.count 0 :=
  ⟨_,rfl,by decide⟩

theorem code_is_accepted_twice : ∃ s,
    runs (OtpRun.next threeAttempts) .initial acceptedTwice = some s ∧
    ¬(s.accepted.map (·.1)).Nodup :=
  ⟨_,rfl,by decide⟩

end Schedules
end OtpRun
end NestHomework.UserService
