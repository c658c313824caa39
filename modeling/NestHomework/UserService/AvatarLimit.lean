import NestHomework.UserService.SoftDelete

/-! Requests for avatars side by side, one access to the database at a time. `createAvatar` counts the
avatars of a profile in one access and adds one in another. -/
namespace NestHomework.UserService
open Transition

/-- How many avatars of the profile are not deleted. -/
def UsersDb.active (db : UsersDb) (profileId : UuidString) : ℕ :=
  db.avatars.countP (fun v => v.profileId = profileId && v.deletedAt.isNone)

/-- How many avatars a request has counted, and what has come and gone since. -/
structure AvatarCount where
  seen : ℕ
  added : ℕ
  removed : ℕ
  deriving DecidableEq, Repr

/-- Where a request is: before its next access. -/
inductive AvatarCall where
  | create (accountId path : String)
  | insert (profileId : UuidString) (fileName : String) (count : AvatarCount)
  | delete (accountId fileName : String)
  | update (accountId fileName : String)
  | returned (result : Except AuthError String)

structure AvatarRequests where
  db : UsersDb
  now : ℕ
  calls : List AvatarCall

inductive AvatarStep where
  | wait (ms : ℕ)
  | create (accountId path : String)
  | delete (accountId fileName : String)
  /-- `id` is what `uuidv7` yields for a new row. -/
  | access (i : ℕ) (id : UuidString)

namespace AvatarService

/-- The check of `deleteAvatar`. -/
def checkProfile (db : UsersDb) (accountId : String) : Except AuthError Unit :=
  match UsersRepository.findBy db ⟨accountId,"",""⟩ with
  | none => .error noProfile
  | some user => if user.deletedAt.isSome || user.profile.isNone then .error noProfile else .ok ()

/-- Both accesses of `deleteAvatar` at once. -/
theorem deleteAvatar_eq (db : UsersDb) (accountId fileName : String) (now : ℕ) :
    deleteAvatar db accountId fileName now = (checkProfile db accountId).bind fun _ =>
      match AvatarRepository.update db accountId fileName now with
      | .error _ => .error (.rpc (unauthenticated "Нет прав"))
      | .ok db => .ok (s!"Аватар {fileName} успешно удален",db) := by
  unfold deleteAvatar checkProfile
  cases UsersRepository.findBy db ⟨accountId,"",""⟩ with
  | none => rfl
  | some user =>
    simp only
    split <;> rfl

end AvatarService

/-- The number of avatars has changed. -/
def AvatarCount.track (count : AvatarCount) (before after : ℕ) : AvatarCount :=
  {count with added := count.added+(after-before), removed := count.removed+(before-after)}

def AvatarCall.track (before after : UsersDb) : AvatarCall → AvatarCall
  | .insert profileId fileName count =>
    .insert profileId fileName (count.track (before.active profileId) (after.active profileId))
  | call => call

/-- The row of the request still finds room in its profile, or is refused. -/
def AvatarCall.Fits (c : UsersConfig) (db : UsersDb) (now : ℕ) (id profileId : UuidString) :
    AvatarCall → Prop
  | .insert profileId' fileName count => profileId' = profileId →
      (AvatarRepository.create db ⟨id,fileName,profileId',now,none⟩).isOk →
      count.seen+count.added < c.maxAvatars+count.removed
  | _ => True

instance (c : UsersConfig) (db : UsersDb) (now : ℕ) (id profileId : UuidString) :
    ∀ call, Decidable (AvatarCall.Fits c db now id profileId call)
  | .insert _ _ _ => inferInstanceAs (Decidable (_ → _ → _))
  | .create .. | .delete .. | .update .. | .returned _ => .isTrue trivial

namespace AvatarRequests
variable (c : UsersConfig) (s : AvatarRequests)

def start (db : UsersDb) (now : ℕ) : AvatarRequests := ⟨db,now,[]⟩

def setCall (i : ℕ) (call : AvatarCall) : AvatarRequests := {s with calls := s.calls.set i call}

/-- The tables have changed. -/
def write (db : UsersDb) : AvatarRequests :=
  {s with db := db, calls := s.calls.map (·.track s.db db)}

/-- The next access of a request, and what follows it. -/
def access (i : ℕ) (id : UuidString) : AvatarCall → Option AvatarRequests
  | .create accountId path =>
    match AvatarService.checkAvatar s.db c accountId path with
    | .error e => some (s.setCall i (.returned (.error e)))
    | .ok (profileId,fileName) =>
      some (s.setCall i (.insert profileId fileName ⟨s.db.active profileId,0,0⟩))
  | .insert profileId fileName _ =>
    match AvatarRepository.create s.db ⟨id,fileName,profileId,s.now,none⟩ with
    | .error e => some (s.setCall i (.returned (.error e)))
    | .ok db => some ((s.write db).setCall i (.returned (.ok fileName)))
  | .delete accountId fileName =>
    match AvatarService.checkProfile s.db accountId with
    | .error e => some (s.setCall i (.returned (.error e)))
    | .ok _ => some (s.setCall i (.update accountId fileName))
  | .update accountId fileName =>
    match AvatarRepository.update s.db accountId fileName s.now with
    | .error _ => some (s.setCall i (.returned (.error (.rpc (unauthenticated "Нет прав")))))
    | .ok db => some ((s.write db).setCall i
        (.returned (.ok s!"Аватар {fileName} успешно удален")))
  | .returned _ => none

def next : AvatarStep → Option AvatarRequests
  | .wait ms => some {s with now := s.now+ms}
  | .create accountId path => some {s with calls := s.calls++[.create accountId path]}
  | .delete accountId fileName => some {s with calls := s.calls++[.delete accountId fileName]}
  | .access i id => (s.calls[i]?).bind (s.access c i id)

/-- A row that is added takes up room that its request has seen, less what others have taken since
and with what they have given back. -/
def Fits (profileId : UuidString) : AvatarStep → Prop
  | .access i id => ∀ call ∈ s.calls[i]?, call.Fits c s.db s.now id profileId
  | _ => True

instance (profileId : UuidString) : ∀ a, Decidable (s.Fits c profileId a)
  | .access _ _ => Option.decidableForallMem _
  | .wait _ | .create .. | .delete .. => .isTrue trivial

end AvatarRequests

namespace UsersDb
variable {db db' : UsersDb} {profileId : UuidString}

theorem active_create {avatar : Avatar} (profileId : UuidString)
    (h : AvatarRepository.create db avatar = .ok db') (hlive : avatar.deletedAt = none) :
    db'.active profileId = db.active profileId+if avatar.profileId = profileId then 1 else 0 := by
  obtain ⟨-,rfl⟩ := create_ok h
  simp [active,List.countP_append,List.countP_singleton,hlive]

/-- Marks only take avatars away. -/
theorem active_update_le {accountId fileName : String} {now : ℕ}
    (h : AvatarRepository.update db accountId fileName now = .ok db') :
    db'.active profileId ≤ db.active profileId := by
  unfold AvatarRepository.update at h
  split at h
  · cases h
    rw [active,active,List.countP_map]
    refine List.countP_mono_left fun v _ hv => ?_
    simp only [Function.comp_apply] at hv
    split at hv
    · simp at hv
    · exact hv
  · contradiction

end UsersDb

namespace AvatarRequests
variable {c : UsersConfig} {s t : AvatarRequests} {profileId : UuidString}

/-- What a request has counted, and what happened since, make up the number of now. -/
structure Counts (c : UsersConfig) (db : UsersDb) (profileId : UuidString) (count : AvatarCount) :
    Prop where
  room : count.seen < c.maxAvatars
  balance : db.active profileId+count.removed = count.seen+count.added

theorem Counts.track {db : UsersDb} {count : AvatarCount} (h : Counts c db profileId count)
    (db' : UsersDb) :
    Counts c db' profileId (count.track (db.active profileId) (db'.active profileId)) where
  room := h.room
  balance := by
    have := h.balance
    simp only [AvatarCount.track]
    omega

def Tracked (c : UsersConfig) (s : AvatarRequests) : Prop :=
  ∀ profileId fileName count, .insert profileId fileName count ∈ s.calls →
    Counts c s.db profileId count

theorem Tracked.setCall (h : s.Tracked c) {i : ℕ} {call : AvatarCall}
    (hcall : ∀ profileId fileName count, call = .insert profileId fileName count →
      Counts c s.db profileId count) : (s.setCall i call).Tracked c := by
  intro profileId fileName count hmem
  obtain hmem | heq := List.mem_or_eq_of_mem_set hmem
  · exact h profileId fileName count hmem
  · exact hcall profileId fileName count heq.symm

theorem Tracked.write (h : s.Tracked c) (db : UsersDb) : (s.write db).Tracked c := by
  intro profileId fileName count hmem
  obtain ⟨call,hcall,htrack⟩ := List.mem_map.mp hmem
  cases call with
  | insert profileId' fileName' count' =>
    cases htrack
    exact (h profileId fileName count' hcall).track db
  | create accountId path => contradiction
  | delete accountId fileName => contradiction
  | update accountId fileName => contradiction
  | returned result => contradiction

theorem Tracked.append (h : s.Tracked c) {call : AvatarCall}
    (hcall : ∀ profileId fileName count, call ≠ .insert profileId fileName count) :
    Tracked c {s with calls := s.calls++[call]} := by
  intro profileId fileName count hmem
  obtain hmem | hmem := List.mem_append.mp hmem
  · exact h profileId fileName count hmem
  · exact absurd (List.mem_singleton.mp hmem).symm (hcall profileId fileName count)

theorem Tracked.next (h : s.Tracked c) {a : AvatarStep} (hn : s.next c a = some t) : t.Tracked c := by
  cases a with
  | wait ms =>
    cases hn
    exact h
  | create accountId path =>
    cases hn
    exact h.append (by simp)
  | delete accountId fileName =>
    cases hn
    exact h.append (by simp)
  | access i id =>
    obtain ⟨call,-,haccess⟩ := Option.bind_eq_some_iff.mp hn
    cases call with
    | create accountId path =>
      simp only [access] at haccess
      split at haccess
      · cases haccess
        exact h.setCall (by simp)
      · rename_i profileId fileName hchecked
        cases haccess
        refine h.setCall fun profileId' fileName' count heq => ?_
        cases heq
        exact ⟨(UsersDb.checkAvatar_ok hchecked).2.2,rfl⟩
    | insert profileId fileName count =>
      simp only [access] at haccess
      split at haccess
      · cases haccess
        exact h.setCall (by simp)
      · cases haccess
        exact (h.write _).setCall (by simp)
    | delete accountId fileName =>
      simp only [access] at haccess
      split at haccess
      · cases haccess
        exact h.setCall (by simp)
      · cases haccess
        exact h.setCall (by simp)
    | update accountId fileName =>
      simp only [access] at haccess
      split at haccess
      · cases haccess
        exact h.setCall (by simp)
      · cases haccess
        exact (h.write _).setCall (by simp)
    | returned result => contradiction

/-- Only a row that is added can break the limit. -/
theorem Tracked.active_next (h : s.Tracked c) {a : AvatarStep} (hn : s.next c a = some t)
    (hsafe : s.db.active profileId ≤ c.maxAvatars) :
    t.db.active profileId ≤ c.maxAvatars ↔ s.Fits c profileId a := by
  cases a with
  | wait ms =>
    cases hn
    exact iff_of_true hsafe trivial
  | create accountId path =>
    cases hn
    exact iff_of_true hsafe trivial
  | delete accountId fileName =>
    cases hn
    exact iff_of_true hsafe trivial
  | access i id =>
    obtain ⟨call,hcall,haccess⟩ := Option.bind_eq_some_iff.mp hn
    have hfits : s.Fits c profileId (.access i id) ↔ call.Fits c s.db s.now id profileId := by
      simp only [Fits,hcall,Option.mem_some_iff,forall_eq']
    rw [hfits]
    cases call with
    | create accountId path =>
      simp only [access] at haccess
      split at haccess <;> cases haccess <;> exact iff_of_true hsafe trivial
    | insert profileId' fileName count =>
      simp only [access] at haccess
      split at haccess
      · rename_i e hrefused
        cases haccess
        refine iff_of_true hsafe fun _ hok => ?_
        rw [hrefused] at hok
        contradiction
      · rename_i db hcreated
        cases haccess
        have hactive := UsersDb.active_create profileId hcreated rfl
        have hbalance := (h profileId' fileName count (List.mem_of_getElem? hcall)).balance
        change db.active profileId ≤ c.maxAvatars ↔ _
        rw [hactive]
        simp only [AvatarCall.Fits,hcreated]
        by_cases hsame : profileId' = profileId
        · subst hsame
          simp only [if_true,Except.isOk,Except.toBool,forall_const]
          omega
        · simp [hsame,hsafe]
    | delete accountId fileName =>
      simp only [access] at haccess
      split at haccess <;> cases haccess <;> exact iff_of_true hsafe trivial
    | update accountId fileName =>
      simp only [access] at haccess
      split at haccess
      · cases haccess
        exact iff_of_true hsafe trivial
      · rename_i db hupdated
        cases haccess
        exact iff_of_true ((UsersDb.active_update_le hupdated).trans hsafe) trivial
    | returned result => contradiction

/-- A profile keeps to the limit in every state of a run, if and only if every row that is added to it
still finds the room that its request has seen. -/
theorem avatar_limit_holds_iff {db : UsersDb} {now : ℕ} (h0 : db.active profileId ≤ c.maxAvatars)
    {as : List AvatarStep} (hr : runs (next c) (start db now) as = some s) :
    Along (next c) (fun s a => s.Fits c profileId a) (start db now) as ↔
      ∀ before, before <+: as → ∀ t, runs (next c) (start db now) before = some t →
        t.db.active profileId ≤ c.maxAvatars := by
  have htracked : (start db now).Tracked c := fun _ _ _ hmem => absurd hmem List.not_mem_nil
  exact along_iff_safe (fun _ _ _ hI hn => Tracked.next hI hn)
    (fun _ _ _ hI hsafe hn => hI.active_next hn hsafe) htracked h0 hr

section Schedules

/-- One avatar for each profile. -/
def oneAvatar : UsersConfig := ⟨1,30000,containsInsensitive⟩

def bobsProfile : UuidString := ⟨"00000000-0000-7000-8000-000000000090",by decide⟩

def noAvatars : UsersDb :=
  ⟨[⟨⟨UsersState.bob,"bob","bob@mail.ru","hash",.user,true,none⟩,0⟩],
    [⟨bobsProfile,"Bob","Brown",30,"",UsersState.bob⟩],[]⟩

/-- The first avatar is deleted before the row of the second goes in. -/
def insteadOf : List AvatarStep :=
  [.create UsersState.bob.text "avatars/face.png",
    .access 0 ⟨"00000000-0000-7000-8000-000000000091",by decide⟩,
    .access 0 ⟨"00000000-0000-7000-8000-000000000092",by decide⟩,
    .delete UsersState.bob.text "face.png",
    .access 1 ⟨"00000000-0000-7000-8000-000000000093",by decide⟩,
    .access 1 ⟨"00000000-0000-7000-8000-000000000094",by decide⟩,
    .create UsersState.bob.text "avatars/smile.png",
    .access 2 ⟨"00000000-0000-7000-8000-000000000095",by decide⟩,
    .access 2 ⟨"00000000-0000-7000-8000-000000000096",by decide⟩]

theorem avatar_limit_holds_iff_instead_of :
    ∃ s, runs (next oneAvatar) (start noAvatars 0) insteadOf = some s ∧
      s.db.active bobsProfile = 1 ∧ ∀ before, before <+: insteadOf →
        ∀ t, runs (next oneAvatar) (start noAvatars 0) before = some t →
          t.db.active bobsProfile ≤ 1 := by
  have hrun : (runs (next oneAvatar) (start noAvatars 0) insteadOf).map
      (·.db.active bobsProfile) = some 1 := by decide +kernel
  obtain ⟨s,hs,hactive⟩ := Option.map_eq_some_iff.mp hrun
  exact ⟨s,hs,hactive,(avatar_limit_holds_iff (by decide) hs).mp (by decide +kernel)⟩

/-- Both requests count before either adds its row. -/
def bothCount : List AvatarStep :=
  [.create UsersState.bob.text "avatars/face.png",.create UsersState.bob.text "avatars/smile.png",
    .access 0 ⟨"00000000-0000-7000-8000-000000000091",by decide⟩,
    .access 1 ⟨"00000000-0000-7000-8000-000000000092",by decide⟩,
    .access 0 ⟨"00000000-0000-7000-8000-000000000093",by decide⟩,
    .access 1 ⟨"00000000-0000-7000-8000-000000000094",by decide⟩]

theorem both_count_none : noAvatars.active bobsProfile = 0 ∧
    ∃ s, runs (next oneAvatar) (start noAvatars 0) bothCount = some s ∧
      ¬s.db.active bobsProfile ≤ oneAvatar.maxAvatars := by
  have hrun : (runs (next oneAvatar) (start noAvatars 0) bothCount).map
      (·.db.active bobsProfile) = some 2 := by decide +kernel
  obtain ⟨s,hs,hactive⟩ := Option.map_eq_some_iff.mp hrun
  exact ⟨by decide,s,hs,by rw [hactive]; decide⟩

end Schedules
end AvatarRequests
end NestHomework.UserService
