import NestHomework.UserService.OtpService

/-! What `OtpService` is for, in terms of the calls that were made, and that the two Redis keys of an
id and a purpose amount to it. -/
namespace NestHomework.UserService
open Contracts Redis

/-- The last code that was generated, and the calls after it, the newest first. -/
structure Issue where
  time : ℕ
  code : String
  since : List PastCall

def newest : List PastCall → Option Issue
  | [] => none
  | p::past =>
    match p.request, p.succeeded with
    | .generate code, true => some ⟨p.time,code,[]⟩
    | _, _ => (newest past).map (fun g => {g with since := p::g.since})

def PastCall.isVerify (p : PastCall) : Bool :=
  match p.request with
  | .verify _ => true
  | .generate _ => false

/-- The code was followed by a successful `verify`. -/
def Issue.consumed (g : Issue) : Bool := g.since.any (fun p => p.isVerify && p.succeeded)

/-- How many `verify` calls were made after the code. -/
def Issue.attempts (g : Issue) : ℕ := g.since.countP (·.isVerify)

section Reference
variable {Hash : Type} (o : OtpConfig Hash) (past : List PastCall) (now : ℕ)

/-- There is no code yet, or the last one is old enough, or it was used. -/
def mayGenerate : Prop := ∀ g ∈ newest past, g.time+1000*o.cooldownTtl ≤ now ∨ g.consumed

/-- The last code is this one; it is young enough, it was not used, and few enough calls tried. -/
def mayVerify (code : String) : Prop := ∃ g ∈ newest past,
  now < g.time+1000*o.codeTtl ∧ ¬g.consumed ∧ g.attempts < o.attemptsCount ∧ g.code = code

instance : Decidable (mayGenerate o past now) := inferInstanceAs (Decidable (∀ g ∈ newest past, _))

instance (code : String) : Decidable (mayVerify o past now code) :=
  inferInstanceAs (Decidable (∃ g ∈ newest past, _))

variable {o past now} {g : Issue}

theorem mayGenerate_iff (h : newest past = some g) :
    mayGenerate o past now ↔ g.time+1000*o.cooldownTtl ≤ now ∨ g.consumed := by
  simp [mayGenerate,h]

theorem mayVerify_iff (h : newest past = some g) (code : String) : mayVerify o past now code ↔
    now < g.time+1000*o.codeTtl ∧ ¬g.consumed ∧ g.attempts < o.attemptsCount ∧ g.code = code := by
  simp [mayVerify,h]

end Reference

/-- The calls for one id and one purpose. -/
def ofPair (id : UuidString) (key : OtpKey) (past : List PastCall) : List PastCall :=
  past.filter (fun p => p.id = id && p.key = key)

/-- The two entries of an id and a purpose. -/
structure OtpSlot (Hash : Type) where
  code : Option (Entry (OtpValue Hash))
  cooldown : Option (Entry (OtpValue Hash))

def slot {Hash : Type} (r : Store String (OtpValue Hash)) (id : UuidString) (key : OtpKey) :
    OtpSlot Hash := ⟨r (codeKey id key),r (cooldownKey id key)⟩

section Slot
variable {Hash : Type} (r : Store String (OtpValue Hash)) (id : UuidString) (key : OtpKey)

theorem slot_put (now : ℕ) (value : OtpValue Hash) : slot (r.put now (codeKey id key) value) id key =
    ⟨some ⟨value,(r.live now (codeKey id key)).bind (·.expiresAt)⟩,r (cooldownKey id key)⟩ := by
  rw [slot,r.put_self,r.put_of_ne _ _ codeKey_ne_cooldownKey.symm]

theorem slot_del_code :
    slot (r.del [codeKey id key]) id key = ⟨none,r (cooldownKey id key)⟩ := by
  rw [slot,r.del_of_mem (by simp),r.del_of_not_mem (by simp [codeKey_ne_cooldownKey.symm])]

theorem slot_del_both :
    slot (r.del [codeKey id key,cooldownKey id key]) id key = ⟨none,none⟩ := by
  rw [slot,r.del_of_mem (by simp),r.del_of_mem (by simp)]

end Slot

/-- The entry of a code that `attempts` calls have been counted for. -/
def codeEntry {Hash : Type} (o : OtpConfig Hash) (g : Issue) (attempts : ℕ) :
    Entry (OtpValue Hash) :=
  ⟨.hash (some (o.genOtpHash g.code)) attempts,some (g.time+1000*o.codeTtl)⟩

def cooldownEntry {Hash : Type} (o : OtpConfig Hash) (g : Issue) : Entry (OtpValue Hash) :=
  ⟨.text "1",some (g.time+1000*o.cooldownTtl)⟩

/-- What the two entries are after the calls of the pair. -/
inductive Tracks {Hash : Type} (o : OtpConfig Hash) (now : ℕ) (past : List PastCall) :
    OtpSlot Hash → Prop
  | nothing (last : newest past = none) : Tracks o now past ⟨none,none⟩
  | stored {g attempts} (last : newest past = some g) (unused : ¬g.consumed)
      (within : attempts ≤ o.attemptsCount)
      (counted : now < g.time+1000*o.codeTtl → attempts = g.attempts) :
      Tracks o now past ⟨some (codeEntry o g attempts),some (cooldownEntry o g)⟩
  | exhausted {g} (last : newest past = some g) (unused : ¬g.consumed)
      (beyond : o.attemptsCount ≤ g.attempts) :
      Tracks o now past ⟨none,some (cooldownEntry o g)⟩
  | consumed {g} (last : newest past = some g) (used : g.consumed) : Tracks o now past ⟨none,none⟩

section Newest
variable {past : List PastCall} {p : PastCall}

/-- A call that is no new code only adds to what came after the last one. -/
theorem newest_cons (h : p.isVerify ∨ p.succeeded = false) :
    newest (p::past) = (newest past).map (fun g => {g with since := p::g.since}) := by
  obtain ⟨time,id,key,request,succeeded⟩ := p
  cases request with
  | generate code =>
    cases succeeded with
    | false => rfl
    | true => simp [PastCall.isVerify] at h
  | verify code => rfl

theorem consumed_cons (g : Issue) : {g with since := p::g.since}.consumed =
    (p.isVerify && p.succeeded || g.consumed) := by
  rw [Issue.consumed,Issue.consumed,List.any_cons]

theorem attempts_cons (g : Issue) : {g with since := p::g.since}.attempts =
    g.attempts+(if p.isVerify then 1 else 0) := by
  rw [Issue.attempts,Issue.attempts,List.countP_cons]

end Newest

namespace Tracks
variable {Hash : Type} {o : OtpConfig Hash} {now : ℕ} {past : List PastCall} {sl : OtpSlot Hash}

theorem wait (h : Tracks o now past sl) (ms : ℕ) : Tracks o (now+ms) past sl := by
  cases h with
  | nothing last => exact .nothing last
  | stored last unused within counted =>
    exact .stored last unused within (fun hlive => counted (by omega))
  | exhausted last unused beyond => exact .exhausted last unused beyond
  | consumed last used => exact .consumed last used

/-- A refused `generate` leaves the entries as they are. -/
theorem refuse (h : Tracks o now past sl) {p : PastCall} (hp : p.isVerify = false)
    (hfail : p.succeeded = false) : Tracks o now (p::past) sl := by
  have hlast : ∀ g, newest past = some g →
      newest (p::past) = some {g with since := p::g.since} := by
    intro g hg
    rw [newest_cons (.inr hfail),hg]
    rfl
  cases h with
  | nothing last => exact .nothing (by rw [newest_cons (.inr hfail),last]; rfl)
  | @stored g attempts last unused within counted =>
    refine .stored (g := {g with since := p::g.since}) (hlast g last) ?_ within ?_
    · simpa [consumed_cons,hp] using unused
    · simpa [attempts_cons,hp] using counted
  | @exhausted g last unused beyond =>
    refine .exhausted (g := {g with since := p::g.since}) (hlast g last) ?_ ?_
    · simpa [consumed_cons,hp] using unused
    · simpa [attempts_cons,hp] using beyond
  | consumed last used => exact .consumed (hlast _ last) (by simp [consumed_cons,used])

/-- A call that fails when there is no code leaves the entries as they are. -/
theorem miss (h : Tracks o now past sl) {p : PastCall} (hfail : p.succeeded = false)
    (hnone : ∀ g attempts, sl.code = some (codeEntry o g attempts) →
      g.time+1000*o.codeTtl ≤ now) : Tracks o now (p::past) sl := by
  have hlast : ∀ g, newest past = some g →
      newest (p::past) = some {g with since := p::g.since} := by
    intro g hg
    rw [newest_cons (.inr hfail),hg]
    rfl
  cases h with
  | nothing last => exact .nothing (by rw [newest_cons (.inr hfail),last]; rfl)
  | @stored g attempts last unused within counted =>
    have hold := hnone g attempts rfl
    refine .stored (g := {g with since := p::g.since}) (hlast g last) ?_ within ?_
    · simpa [consumed_cons,hfail] using unused
    · intro hlive
      simp only at hlive
      omega
  | @exhausted g last unused beyond =>
    refine .exhausted (g := {g with since := p::g.since}) (hlast g last) ?_ ?_
    · simpa [consumed_cons,hfail] using unused
    · rw [attempts_cons]
      omega
  | consumed last used => exact .consumed (hlast _ last) (by simp [consumed_cons,used])

end Tracks

section Commands
variable {Hash : Type} {o : OtpConfig Hash} {r : Store String (OtpValue Hash)} {now : ℕ}
  {id : UuidString} {key : OtpKey} {code : String} {g : Issue} {attempts : ℕ}

theorem get_of_none (h : r.live now (cooldownKey id key) = none) :
    OtpService.get r now (cooldownKey id key) = .ok none := by
  rw [OtpService.get,Store.lookup,h]
  rfl

theorem get_cooldown (h : r (cooldownKey id key) = some (cooldownEntry o g))
    (ht : now < g.time+1000*o.cooldownTtl) :
    OtpService.get r now (cooldownKey id key) = .ok (some "1") := by
  rw [OtpService.get,Store.lookup,r.live_of_some now _ h,if_pos ht]
  rfl

theorem generate_of_cooldown (h : r (cooldownKey id key) = some (cooldownEntry o g))
    (ht : now < g.time+1000*o.cooldownTtl) :
    OtpService.generate o r now id key code = (.error (.rpc waitBeforeResend),r) := by
  simp only [OtpService.generate,get_cooldown h ht]
  rfl

/-- A code that is generated starts both entries anew. -/
theorem generate_of_free (hcooldown : r.live now (cooldownKey id key) = none)
    (hcode : ∀ v t, r (codeKey id key) ≠ some ⟨.text v,t⟩) :
    ∃ r', OtpService.generate o r now id key code = (.ok code,r') ∧
      slot r' id key = ⟨some (codeEntry o ⟨now,code,[]⟩ 0),
        some (cooldownEntry o ⟨now,code,[]⟩)⟩ := by
  simp only [OtpService.generate,get_of_none hcooldown]
  refine ⟨_,rfl,?_⟩
  have hset : OtpService.hset r now (codeKey id key) (o.genOtpHash code) =
      r.put now (codeKey id key) (.hash (some (o.genOtpHash code)) 0) := by
    rw [OtpService.hset]
    split
    · rename_i v hv
      rw [Store.lookup,Option.map_eq_some_iff] at hv
      obtain ⟨⟨value,t⟩,hlive,rfl⟩ := hv
      exact absurd (Option.filter_eq_some_iff.mp hlive).1 (hcode v t)
    · rfl
  rw [slot,hset,Store.set_of_ne _ _ codeKey_ne_cooldownKey,Store.expire_put,Store.set_self]
  rfl

variable [DecidableEq Hash]

/-- What `verify` does with a hash that it found, once the attempt is counted. -/
def checkCode (o : OtpConfig Hash) (counted : Store String (OtpValue Hash)) (id : UuidString)
    (code : String) (key : OtpKey) (storedHash : Hash) (attempts : ℕ) :
    Except OtpError Unit × Store String (OtpValue Hash) :=
  if o.attemptsCount < attempts then (.error (.rpc waitBeforeResend),counted.del [codeKey id key])
  else if storedHash ≠ o.genOtpHash code then
    (.error (.rpc ⟨some .unauthenticated,
      s!"Неверный код. Осталось попыток: {o.attemptsCount-attempts}"⟩),counted)
  else (.ok (),counted.del [codeKey id key,cooldownKey id key])

theorem verify_eq (code : String) : OtpService.verify o r now id code key =
    match r.lookup now (codeKey id key) with
    | some (.hash (some storedHash) attempts) => checkCode o (r.put now (codeKey id key)
        (.hash (some storedHash) (attempts+1))) id code key storedHash (attempts+1)
    | some (.text _) => (.error .wrongType,r)
    | _ => (.error (.rpc ⟨some .notFound,"Код истек или не существует"⟩),r) := by
  simp only [OtpService.verify,OtpService.hget,OtpService.hincrby]
  rcases r.lookup now (codeKey id key) with _ | ⟨_ | storedHash,attempts⟩ | value <;> rfl

theorem verify_of_none (h : r.live now (codeKey id key) = none) (code : String) :
    OtpService.verify o r now id code key =
      (.error (.rpc ⟨some .notFound,"Код истек или не существует"⟩),r) := by
  rw [verify_eq,Store.lookup,h]
  rfl

theorem verify_of_some (h : r (codeKey id key) = some (codeEntry o g attempts))
    (ht : now < g.time+1000*o.codeTtl) (code : String) : OtpService.verify o r now id code key =
      checkCode o (r.put now (codeKey id key) (.hash (some (o.genOtpHash g.code)) (attempts+1))) id
        code key (o.genOtpHash g.code) (attempts+1) := by
  rw [verify_eq,Store.lookup,r.live_of_some now _ h,if_pos ht]
  rfl

end Commands

namespace Tracks
variable {Hash : Type} {o : OtpConfig Hash} {now : ℕ} {past : List PastCall}
  {r : Store String (OtpValue Hash)} {id : UuidString} {key : OtpKey}

/-- A code that was just generated. -/
theorem fresh (o : OtpConfig Hash) (now : ℕ) (past : List PastCall) (id : UuidString)
    (key : OtpKey) (code : String) : Tracks o now (⟨now,id,key,.generate code,true⟩::past)
      ⟨some (codeEntry o ⟨now,code,[]⟩ 0),some (cooldownEntry o ⟨now,code,[]⟩)⟩ :=
  .stored rfl (by simp [Issue.consumed]) (by omega) (fun _ => rfl)

theorem not_text (h : Tracks o now past (slot r id key)) (v : String) (t : Option ℕ) :
    r (codeKey id key) ≠ some ⟨.text v,t⟩ := by
  generalize hs : slot r id key = sl at h
  have hcode : r (codeKey id key) = sl.code := congrArg OtpSlot.code hs
  rw [hcode]
  cases h <;> simp [codeEntry]

/-- `generate` succeeds when the reference says so, and the entries go on to tell the history. -/
theorem generate (h : Tracks o now past (slot r id key)) (code : String)
    {x : Except OtpError String × Store String (OtpValue Hash)}
    (hx : OtpService.generate o r now id key code = x) :
    (x.1.isOk ↔ mayGenerate o past now) ∧
      Tracks o now (⟨now,id,key,.generate code,x.1.isOk⟩::past) (slot x.2 id key) := by
  have htext := h.not_text
  have hfree : r.live now (cooldownKey id key) = none →
      x.1.isOk ∧ Tracks o now (⟨now,id,key,.generate code,x.1.isOk⟩::past) (slot x.2 id key) := by
    intro hlive
    obtain ⟨r',hr',hslot⟩ := generate_of_free hlive htext
    rw [hr'] at hx
    subst hx
    exact ⟨rfl,by rw [hslot]; exact fresh o now past id key code⟩
  have hcool : ∀ g, r (cooldownKey id key) = some (cooldownEntry o g) →
      newest past = some g → ¬g.consumed → (x.1.isOk ↔ mayGenerate o past now) ∧
      Tracks o now (⟨now,id,key,.generate code,x.1.isOk⟩::past) (slot x.2 id key) := by
    intro g hentry hlast hunused
    rw [mayGenerate_iff hlast]
    by_cases ht : now < g.time+1000*o.cooldownTtl
    · rw [generate_of_cooldown hentry ht] at hx
      subst hx
      refine ⟨iff_of_false (by simp [Except.isOk,Except.toBool]) ?_,h.refuse rfl rfl⟩
      rintro (hold | hused)
      · omega
      · exact hunused hused
    · obtain ⟨hok,htracks⟩ := hfree (by rw [r.live_of_some now _ hentry,if_neg ht])
      exact ⟨iff_of_true hok (.inl (by omega)),htracks⟩
  generalize hs : slot r id key = sl at h
  have hentry : r (cooldownKey id key) = sl.cooldown := congrArg OtpSlot.cooldown hs
  cases h with
  | nothing last =>
    obtain ⟨hok,htracks⟩ := hfree (r.live_of_none now hentry)
    exact ⟨iff_of_true hok (by simp [mayGenerate,last]),htracks⟩
  | stored last unused within counted => exact hcool _ hentry last unused
  | exhausted last unused beyond => exact hcool _ hentry last unused
  | consumed last used =>
    obtain ⟨hok,htracks⟩ := hfree (r.live_of_none now hentry)
    exact ⟨iff_of_true hok ((mayGenerate_iff last).mpr (.inr used)),htracks⟩

variable [DecidableEq Hash]

/-- `verify` of a code that has not expired. -/
theorem verify_live {g : Issue} (last : newest past = some g) (unused : ¬g.consumed)
    (within : g.attempts ≤ o.attemptsCount)
    (hentry : r (codeKey id key) = some (codeEntry o g g.attempts))
    (hcool : r (cooldownKey id key) = some (cooldownEntry o g))
    (ht : now < g.time+1000*o.codeTtl) (code : String)
    {x : Except OtpError Unit × Store String (OtpValue Hash)}
    (hx : OtpService.verify o r now id code key = x) :
    (x.1.isOk ↔ g.attempts < o.attemptsCount ∧ o.genOtpHash g.code = o.genOtpHash code) ∧
      Tracks o now (⟨now,id,key,.verify code,x.1.isOk⟩::past) (slot x.2 id key) := by
  have hlive := r.live_of_some now _ hentry
  rw [if_pos ht] at hlive
  rw [verify_of_some hentry ht,checkCode] at hx
  have hlast : ∀ succeeded, newest (⟨now,id,key,.verify code,succeeded⟩::past) =
      some {g with since := ⟨now,id,key,.verify code,succeeded⟩::g.since} := by
    intro succeeded
    rw [newest_cons (.inl rfl),last]
    rfl
  split_ifs at hx with hmany hhash
  · subst hx
    refine ⟨iff_of_false (by simp [Except.isOk,Except.toBool]) (by omega),?_⟩
    rw [slot_del_code,r.put_of_ne _ _ codeKey_ne_cooldownKey.symm,hcool]
    refine .exhausted (g := {g with since := ⟨now,id,key,.verify code,false⟩::g.since}) (hlast false)
      ?_ ?_
    · simpa [consumed_cons] using unused
    · rw [attempts_cons]
      omega
  · subst hx
    refine ⟨iff_of_false (by simp [Except.isOk,Except.toBool]) (fun h => hhash h.2),?_⟩
    rw [slot_put,hlive,hcool]
    refine .stored (g := {g with since := ⟨now,id,key,.verify code,false⟩::g.since}) (hlast false)
      ?_ (by omega) ?_
    · simpa [consumed_cons] using unused
    · intro _
      rw [attempts_cons]
      rfl
  · subst hx
    refine ⟨iff_of_true rfl ⟨by omega,not_not.mp hhash⟩,?_⟩
    rw [slot_del_both]
    exact .consumed (g := {g with since := ⟨now,id,key,.verify code,true⟩::g.since}) (hlast true)
      (by rw [consumed_cons]; rfl)

/-- `verify` succeeds when the reference says so, and the entries go on to tell the history. -/
theorem verify (h : Tracks o now past (slot r id key)) (code : String)
    {x : Except OtpError Unit × Store String (OtpValue Hash)}
    (hx : OtpService.verify o r now id code key = x) :
    ((∀ g, newest past = some g → o.genOtpHash g.code = o.genOtpHash code → g.code = code) →
      (x.1.isOk ↔ mayVerify o past now code)) ∧
      Tracks o now (⟨now,id,key,.verify code,x.1.isOk⟩::past) (slot x.2 id key) := by
  have hmiss : r.live now (codeKey id key) = none → x.1.isOk = false ∧
      Tracks o now (⟨now,id,key,.verify code,x.1.isOk⟩::past) (slot x.2 id key) := by
    intro hlive
    rw [verify_of_none hlive] at hx
    subst hx
    refine ⟨rfl,h.miss rfl (fun g attempts hentry => ?_)⟩
    by_contra ht
    rw [r.live_of_some now _ hentry,if_pos (by omega)] at hlive
    contradiction
  generalize hs : slot r id key = sl at h
  have hentry : r (codeKey id key) = sl.code := congrArg OtpSlot.code hs
  have hcool : r (cooldownKey id key) = sl.cooldown := congrArg OtpSlot.cooldown hs
  cases h with
  | nothing last =>
    obtain ⟨hfail,htracks⟩ := hmiss (r.live_of_none now hentry)
    exact ⟨fun _ => iff_of_false (by simp [hfail]) (by simp [mayVerify,last]),htracks⟩
  | exhausted last unused beyond =>
    obtain ⟨hfail,htracks⟩ := hmiss (r.live_of_none now hentry)
    refine ⟨fun _ => iff_of_false (by simp [hfail]) ?_,htracks⟩
    rw [mayVerify_iff last]
    omega
  | consumed last used =>
    obtain ⟨hfail,htracks⟩ := hmiss (r.live_of_none now hentry)
    exact ⟨fun _ => iff_of_false (by simp [hfail]) (by simp [mayVerify_iff last,used]),htracks⟩
  | @stored g attempts last unused within counted =>
    by_cases ht : now < g.time+1000*o.codeTtl
    · cases counted ht
      obtain ⟨hok,htracks⟩ := verify_live last unused within hentry hcool ht code hx
      refine ⟨fun hinj => hok.trans ?_,htracks⟩
      rw [mayVerify_iff last]
      constructor
      · rintro ⟨hfew,hhash⟩
        exact ⟨ht,unused,hfew,hinj g last hhash⟩
      · rintro ⟨-,-,hfew,hcode⟩
        exact ⟨hfew,by rw [hcode]⟩
    · obtain ⟨hfail,htracks⟩ := hmiss (by rw [r.live_of_some now _ hentry,if_neg ht])
      refine ⟨fun _ => iff_of_false (by simp [hfail]) ?_,htracks⟩
      rw [mayVerify_iff last]
      tauto

end Tracks
section Local
variable {Hash : Type} {o : OtpConfig Hash} {r r' : Store String (OtpValue Hash)} {now : ℕ}
  {id : UuidString} {key : OtpKey} {k : String}

/-- A call touches no key but the two of its pair. -/
theorem generate_frame (code : String) (hcode : k ≠ codeKey id key) (hcool : k ≠ cooldownKey id key) :
    (OtpService.generate o r now id key code).2 k = r k := by
  rw [OtpService.generate]
  split
  · rfl
  · split
    · rfl
    · have hput : ∀ v, r.put now (codeKey id key) v k = r k := fun v => r.put_of_ne now v hcode
      simp only [Store.set_of_ne _ _ hcool,Store.expire_of_ne _ _ hcode,OtpService.hset]
      rcases r.lookup now (codeKey id key) with _ | _ | _
      · exact hput _
      · exact hput _
      · rfl

theorem lookup_congr (h : r k = r' k) : r.lookup now k = r'.lookup now k := by
  rw [Store.lookup,Store.lookup,Store.live_congr _ _ h]

theorem hset_congr (now : ℕ) (h : r k = r' k) (hash : Hash) :
    OtpService.hset r now k hash k = OtpService.hset r' now k hash k := by
  rw [OtpService.hset,OtpService.hset,lookup_congr h]
  have hput := Store.put_congr r' now (OtpValue.hash (some hash) 0) h
  rcases r'.lookup now k with _ | _ | _
  · exact hput
  · exact hput
  · exact h

/-- A call of the pair sees no key but its own two. -/
theorem generate_congr (now : ℕ) (h : slot r id key = slot r' id key) (code : String) :
    (OtpService.generate o r now id key code).1 = (OtpService.generate o r' now id key code).1 ∧
      slot (OtpService.generate o r now id key code).2 id key =
        slot (OtpService.generate o r' now id key code).2 id key := by
  have hget : OtpService.get r now (cooldownKey id key) =
      OtpService.get r' now (cooldownKey id key) := by
    rw [OtpService.get,OtpService.get,lookup_congr (congrArg OtpSlot.cooldown h)]
  have hcode := Store.expire_congr _ now (hset_congr now (congrArg OtpSlot.code h)
    (o.genOtpHash code)) (now+1000*o.codeTtl)
  simp only [OtpService.generate,hget]
  split
  · exact ⟨rfl,h⟩
  · split
    · exact ⟨rfl,h⟩
    · refine ⟨rfl,?_⟩
      simp only [slot,Store.set_of_ne _ _ codeKey_ne_cooldownKey,Store.set_self,hcode]

variable [DecidableEq Hash]

theorem checkCode_frame (code : String) (storedHash : Hash) (attempts : ℕ)
    (hcode : k ≠ codeKey id key) (hcool : k ≠ cooldownKey id key) :
    (checkCode o r id code key storedHash attempts).2 k = r k := by
  rw [checkCode]
  split_ifs
  · exact r.del_of_not_mem (by simpa using hcode)
  · rfl
  · exact r.del_of_not_mem (by simp [hcode,hcool])

theorem checkCode_congr (h : slot r id key = slot r' id key) (code : String) (storedHash : Hash)
    (attempts : ℕ) : (checkCode o r id code key storedHash attempts).1 =
      (checkCode o r' id code key storedHash attempts).1 ∧
    slot (checkCode o r id code key storedHash attempts).2 id key =
      slot (checkCode o r' id code key storedHash attempts).2 id key := by
  rw [checkCode,checkCode]
  split_ifs
  · refine ⟨rfl,?_⟩
    rw [slot_del_code,slot_del_code,show r (cooldownKey id key) = r' (cooldownKey id key) from
      congrArg OtpSlot.cooldown h]
  · exact ⟨rfl,h⟩
  · exact ⟨rfl,by rw [slot_del_both,slot_del_both]⟩

theorem verify_frame (code : String) (hcode : k ≠ codeKey id key) (hcool : k ≠ cooldownKey id key) :
    (OtpService.verify o r now id code key).2 k = r k := by
  rw [verify_eq]
  rcases r.lookup now (codeKey id key) with _ | ⟨_ | storedHash,attempts⟩ | value
  · rfl
  · rfl
  · exact (checkCode_frame _ _ _ hcode hcool).trans (r.put_of_ne now _ hcode)
  · rfl

theorem verify_congr (now : ℕ) (h : slot r id key = slot r' id key) (code : String) :
    (OtpService.verify o r now id code key).1 = (OtpService.verify o r' now id code key).1 ∧
      slot (OtpService.verify o r now id code key).2 id key =
        slot (OtpService.verify o r' now id code key).2 id key := by
  have hcode : r (codeKey id key) = r' (codeKey id key) := congrArg OtpSlot.code h
  have hcool : r (cooldownKey id key) = r' (cooldownKey id key) := congrArg OtpSlot.cooldown h
  rw [verify_eq,verify_eq,lookup_congr hcode]
  rcases r'.lookup now (codeKey id key) with _ | ⟨_ | storedHash,attempts⟩ | value
  · exact ⟨rfl,h⟩
  · exact ⟨rfl,h⟩
  · refine checkCode_congr ?_ _ _ _
    rw [slot_put,slot_put,Store.live_congr _ _ hcode,hcool]
  · exact ⟨rfl,h⟩

end Local

/-- The step is for the pair, or lets time pass. -/
def OtpStep.concerns (id : UuidString) (key : OtpKey) : OtpStep → Bool
  | .wait _ => true
  | .call id' key' _ => id' = id && key' = key

def OtpRequest.code : OtpRequest → String
  | .generate code => code
  | .verify code => code

/-- The codes that were generated or tried. -/
def usedCodes (steps : List OtpStep) : List String :=
  steps.flatMap (fun
    | .wait _ => []
    | .call _ _ request => [request.code])

namespace OtpState
variable {Hash : Type} [DecidableEq Hash] {o : OtpConfig Hash} {s s' : OtpState Hash}
  {id id' : UuidString} {key key' : OtpKey}

theorem serve_frame (request : OtpRequest) {k : String} (hcode : k ≠ codeKey id key)
    (hcool : k ≠ cooldownKey id key) : (s.serve o id key request).2 k = s.store k := by
  cases request with
  | generate code => exact generate_frame code hcode hcool
  | verify code => exact verify_frame code hcode hcool

theorem slot_serve (request : OtpRequest) (hne : ¬(id' = id ∧ key' = key)) :
    slot (s.serve o id key request).2 id' key' = slot s.store id' key' := by
  rw [slot,slot,serve_frame _ (mt codeKey_inj.mp hne) codeKey_ne_cooldownKey,
    serve_frame _ codeKey_ne_cooldownKey.symm (mt cooldownKey_inj.mp hne)]

theorem serve_congr (hnow : s.now = s'.now) (h : slot s.store id key = slot s'.store id key)
    (request : OtpRequest) : (s.serve o id key request).1 = (s'.serve o id key request).1 ∧
      slot (s.serve o id key request).2 id key = slot (s'.serve o id key request).2 id key := by
  cases request with
  | generate code =>
    obtain ⟨hanswer,hslot⟩ := generate_congr (o := o) s'.now h code
    simp only [serve,hnow]
    exact ⟨congrArg (Except.map OtpReply.generated) hanswer,hslot⟩
  | verify code =>
    obtain ⟨hanswer,hslot⟩ := verify_congr (o := o) s'.now h code
    simp only [serve,hnow]
    exact ⟨congrArg (Except.map fun _ => OtpReply.verified) hanswer,hslot⟩

/-- The entries of every pair tell the calls for it. -/
def Tracked (o : OtpConfig Hash) (s : OtpState Hash) : Prop :=
  ∀ id key, Tracks o s.now (ofPair id key s.past) (slot s.store id key)

theorem isOk_map {ε α β : Type} (x : Except ε α) (f : α → β) : (x.map f).isOk = x.isOk := by
  cases x <;> rfl

theorem Tracked.serve (h : Tracked o s) (id : UuidString) (key : OtpKey) (request : OtpRequest) :
    Tracks o s.now (⟨s.now,id,key,request,(s.serve o id key request).1.isOk⟩::ofPair id key s.past)
      (slot (s.serve o id key request).2 id key) := by
  cases request with
  | generate code =>
    have hstep := ((h id key).generate code rfl).2
    simp only [OtpState.serve,isOk_map]
    exact hstep
  | verify code =>
    have hstep := ((h id key).verify code rfl).2
    simp only [OtpState.serve,isOk_map]
    exact hstep

theorem Tracked.next (h : Tracked o s) (step : OtpStep) : Tracked o (s.next o step) := by
  intro id' key'
  cases step with
  | wait ms => exact (h id' key').wait ms
  | call id key request =>
    by_cases hpair : id' = id ∧ key' = key
    · obtain ⟨rfl,rfl⟩ := hpair
      have hserve := h.serve id' key' request
      rw [ofPair] at hserve
      simp only [OtpState.next,ofPair,List.filter_cons,decide_true,Bool.and_self,if_true]
      exact hserve
    · have hserve := h id' key'
      rw [← slot_serve (o := o) request hpair] at hserve
      have hskip : ¬(id = id' ∧ key = key') := fun heq => hpair ⟨heq.1.symm,heq.2.symm⟩
      simp only [OtpState.next,ofPair,List.filter_cons]
      rw [if_neg (by simpa using hskip)]
      exact hserve

theorem Tracked.foldl (h : Tracked o s) (steps : List OtpStep) :
    Tracked o (steps.foldl (OtpState.next o) s) := by
  induction steps generalizing s with
  | nil => exact h
  | cons step steps ih => exact ih (h.next step)

theorem tracked_after (o : OtpConfig Hash) (steps : List OtpStep) : Tracked o (after o steps) :=
  Tracked.foldl (fun _ _ => .nothing rfl) steps

/-- What was called was a step. -/
theorem past_foldl (steps : List OtpStep) :
    ∀ p ∈ (steps.foldl (OtpState.next o) s).past, p ∈ s.past ∨ p.request.code ∈ usedCodes steps := by
  induction steps generalizing s with
  | nil => exact fun p hp => .inl hp
  | cons step steps ih =>
    intro p hp
    rw [usedCodes,List.flatMap_cons,List.mem_append]
    rcases ih p hp with hp | hp
    · cases step with
      | wait ms => exact .inl hp
      | call id key request =>
        rcases List.mem_cons.mp hp with rfl | hp
        · exact .inr (.inl (by simp))
        · exact .inl hp
    · exact .inr (.inr hp)

/-- Two runs that differ in calls for other pairs agree on this one. -/
theorem foldl_congr (hnow : s.now = s'.now) (h : slot s.store id key = slot s'.store id key)
    (steps : List OtpStep) :
    (steps.foldl (OtpState.next o) s).now =
        ((steps.filter (·.concerns id key)).foldl (OtpState.next o) s').now ∧
      slot (steps.foldl (OtpState.next o) s).store id key =
        slot ((steps.filter (·.concerns id key)).foldl (OtpState.next o) s').store id key := by
  induction steps generalizing s s' with
  | nil => exact ⟨hnow,h⟩
  | cons step steps ih =>
    rw [List.foldl_cons,List.filter_cons]
    cases step with
    | wait ms => exact ih (congrArg (·+ms) hnow) h
    | call id' key' request =>
      by_cases hpair : id' = id ∧ key' = key
      · obtain ⟨rfl,rfl⟩ := hpair
        rw [if_pos (by simp [OtpStep.concerns])]
        exact ih hnow (serve_congr hnow h request).2
      · have hskip : ¬(id = id' ∧ key = key') := fun heq => hpair ⟨heq.1.symm,heq.2.symm⟩
        rw [if_neg (by simpa [OtpStep.concerns] using hpair)]
        exact ih hnow ((slot_serve request hskip).trans h)

end OtpState

theorem newest_mem {past : List PastCall} {g : Issue} (h : newest past = some g) :
    ∃ p ∈ past, p.request = .generate g.code := by
  induction past generalizing g with
  | nil => contradiction
  | cons p past ih =>
    rw [newest] at h
    split at h
    · rename_i code hrequest hsucceeded
      cases h
      exact ⟨p,by simp,hrequest⟩
    · obtain ⟨g',hg',rfl⟩ := Option.map_eq_some_iff.mp h
      obtain ⟨q,hq,hcode⟩ := ih hg'
      exact ⟨q,List.mem_cons_of_mem _ hq,hcode⟩

/-- The answers are those of the reference, and calls for other pairs do not change them. The hash
tells the codes apart that are used. -/
theorem otp_service_equals_reference {Hash : Type} [DecidableEq Hash] (o : OtpConfig Hash)
    (steps : List OtpStep) (id : UuidString) (key : OtpKey) (code : String)
    (hinj : ∀ c ∈ code::usedCodes steps, ∀ c' ∈ code::usedCodes steps,
      o.genOtpHash c = o.genOtpHash c' → c = c') :
    let s := OtpState.after o steps
    let past := ofPair id key s.past
    let alone := OtpState.after o (steps.filter (·.concerns id key))
    ((s.serve o id key (.generate code)).1.isOk ↔ mayGenerate o past s.now) ∧
    ((s.serve o id key (.verify code)).1.isOk ↔ mayVerify o past s.now code) ∧
    ∀ request, (s.serve o id key request).1 = (alone.serve o id key request).1 := by
  intro s past alone
  have htracks := OtpState.tracked_after o steps id key
  obtain ⟨hnow,hslot⟩ : s.now = alone.now ∧ slot s.store id key = slot alone.store id key :=
    OtpState.foldl_congr rfl rfl steps
  refine ⟨?_,?_,fun request => (OtpState.serve_congr hnow hslot request).1⟩
  · simp only [OtpState.serve,OtpState.isOk_map]
    exact (htracks.generate code rfl).1
  · simp only [OtpState.serve,OtpState.isOk_map]
    refine (htracks.verify code rfl).1 (fun g hlast hhash => ?_)
    obtain ⟨p,hp,hrequest⟩ := newest_mem hlast
    have hused := (OtpState.past_foldl steps p (List.mem_filter.mp hp).1).resolve_left (by
      simp [OtpState.initial])
    rw [hrequest] at hused
    exact hinj g.code (List.mem_cons_of_mem _ hused) code (by simp) hhash

section Example

def someId : UuidString := ⟨"018f3b1c-7c1e-7a34-9b0a-2f6d5c4e3b2a",by decide +kernel⟩

def someConfig : OtpConfig String := ⟨⟨3,id⟩,300,60,by decide,by decide,by decide⟩

/-- A code is generated and tried, and another one a minute later. -/
def someSteps : List OtpStep :=
  [.call someId .email (.generate "4821"),.call someId .email (.verify "0000"),.wait 60000,
    .call someId .password (.verify "4821"),.call someId .email (.generate "7350"),.wait 1000]

theorem otp_service_equals_reference_resent :
    ((OtpState.after someConfig someSteps).serve someConfig someId .email (.verify "7350")).1.isOk ∧
    ¬((OtpState.after someConfig someSteps).serve someConfig someId .email (.verify "4821")).1.isOk :=
  ⟨(otp_service_equals_reference someConfig someSteps someId .email "7350" (by simp [someConfig])).2.1.mpr
      (by decide +kernel),
    (otp_service_equals_reference someConfig someSteps someId .email "4821"
      (by simp [someConfig])).2.1.not.mpr (by decide +kernel)⟩

end Example
end NestHomework.UserService
