import Mathlib.Data.Set.Finite.Basic
import Mathlib.Order.Interval.Set.Infinite
import NestHomework.Postgres.Table
import NestHomework.Transition.Run
import NestHomework.UserService.Users

/-! Rows that are marked as deleted. `findMe` hides them all, `findActive` hides the avatars, and the
pages of `findAll` hide neither the accounts nor the avatars. -/
namespace NestHomework.UserService
open Contracts Postgres Redis Transition

theorem UuidString.text_injective : Function.Injective UuidString.text := by
  rintro ⟨x,hx⟩ ⟨y,hy⟩ rfl
  rfl

theorem UuidString.text_ne (id : UuidString) : id.text ≠ "" := by
  intro h
  have hlen := id.length
  rw [h] at hlen
  exact absurd hlen (by decide)

def Avatar.mark (marked : Avatar → Bool) (t : ℕ) (v : Avatar) : Avatar :=
  if marked v then {v with deletedAt := some t} else v

def StoredAccount.mark (id : UuidString) (t : ℕ) (a : StoredAccount) : StoredAccount :=
  if a.id = id then {a with deletedAt := some t} else a

section Mark
variable (marked : Avatar → Bool) (t : ℕ) (v : Avatar) (id : UuidString) (a : StoredAccount)

@[simp] theorem Avatar.mark_id : (v.mark marked t).id = v.id := by unfold mark; split <;> rfl

@[simp] theorem Avatar.mark_name : (v.mark marked t).name = v.name := by unfold mark; split <;> rfl

@[simp] theorem Avatar.mark_profileId : (v.mark marked t).profileId = v.profileId := by
  unfold mark; split <;> rfl

@[simp] theorem StoredAccount.mark_id : (a.mark id t).id = a.id := by unfold mark; split <;> rfl

theorem Avatar.mark_live (h : (v.mark marked t).deletedAt = none) : v.mark marked t = v := by
  unfold mark at h ⊢
  by_cases hmarked : marked v
  · rw [if_pos hmarked] at h
    exact nomatch h
  · rw [if_neg hmarked]

theorem Avatar.mark_deletedAt (h : marked v) : (v.mark marked t).deletedAt = some t := by
  rw [mark,if_pos h]

theorem StoredAccount.mark_deletedAt (h : a.id = id) : (a.mark id t).deletedAt = some t := by
  rw [mark,if_pos h]

end Mark

namespace UsersDb
variable (db : UsersDb)

/-- Nothing is marked as deleted. -/
def Undeleted : Prop :=
  (∀ a ∈ db.accounts, a.deletedAt = none) ∧ ∀ v ∈ db.avatars, v.deletedAt = none

/-- The account is there and not deleted. -/
def Serves (accountId : String) : Prop :=
  ∃ a ∈ db.accounts, a.id.text = accountId ∧ a.deletedAt = none

/-- The calls that mark a row: `delete` of an account that is not deleted, and `deleteAvatar` of an
avatar that such an account has. -/
def SoftDeletes : UsersWrite → Prop
  | .delete accountId => db.Serves accountId
  | .deleteAvatar accountId fileName => db.Serves accountId ∧
    ∃ p ∈ db.profiles, p.accountId.text = accountId ∧
      ∃ v ∈ db.avatars, v.profileId = p.id ∧ v.name = fileName
  | _ => False

/-- No deleted row stands behind what a user is shown as. -/
def Hides (u : UserResponse) : Prop :=
  (∀ a ∈ db.accounts, a.id = u.id → a.deletedAt = none) ∧
    ∀ p ∈ u.profile, ∀ shown ∈ p.avatars, ∀ v ∈ db.avatars, v.id = shown.id → v.deletedAt = none

def HidesActive (u : ActiveUserResponse) : Prop :=
  (∀ a ∈ db.accounts, a.id = u.accountId → a.deletedAt = none) ∧
    ∀ name ∈ u.lastLoadedAvatar, ∀ v ∈ db.avatars, v.name = name → v.deletedAt = none

/-- What the indexes and the foreign keys of the schema say. -/
structure Consistent : Prop where
  accounts : (db.accounts.map (fun a => a.id)).Nodup
  owners : (db.profiles.map (fun p => p.accountId)).Nodup
  avatars : (db.avatars.map (fun v => v.id)).Nodup
  names : (db.avatars.map (fun v => v.name)).Nodup
  profile_of : ∀ v ∈ db.avatars, ∃ p ∈ db.profiles, p.id = v.profileId
  account_of : ∀ p ∈ db.profiles, ∃ a ∈ db.accounts, a.id = p.accountId

/-- A row of an avatar is added, a row is marked as deleted, or neither. -/
inductive ChangeKind where
  | uploads
  | marks
  | other

/-- What a call that goes through does to the tables. -/
inductive Change : ChangeKind → UsersDb → Prop
  | account (a : StoredAccount) (live : a.deletedAt = none)
      (fresh : ∀ b ∈ db.accounts, b.id ≠ a.id) :
      Change .other {db with accounts := db.accounts++[a]}
  | profile (p : Profile) (fresh : ∀ q ∈ db.profiles, q.accountId ≠ p.accountId)
      (owner : ∃ a ∈ db.accounts, a.id = p.accountId) :
      Change .other {db with profiles := db.profiles++[p]}
  | patch (f : Profile → Profile) (hf : ∀ p, (f p).id = p.id ∧ (f p).accountId = p.accountId) :
      Change .other {db with profiles := db.profiles.map f}
  | avatar (v : Avatar) (live : v.deletedAt = none)
      (fresh : ∀ w ∈ db.avatars, w.id ≠ v.id ∧ w.name ≠ v.name)
      (owner : ∃ p ∈ db.profiles, p.id = v.profileId) :
      Change .uploads {db with avatars := db.avatars++[v]}
  | deleteAvatar (marked : Avatar → Bool) (t : ℕ) (hit : ∃ v ∈ db.avatars, marked v) :
      Change .marks {db with avatars := db.avatars.map (·.mark marked t)}
  | delete (id : UuidString) (t : ℕ) (hit : ∃ a ∈ db.accounts, a.id = id) :
      Change .marks {db with accounts := db.accounts.map (·.mark id t)}

/-- The account of an id, as every call looks it up. -/
def account (accountId : String) : Option StoredAccount :=
  db.accounts.find? (fun a => a.id.text = accountId)

variable {db} {a : StoredAccount} {accountId : String}

theorem holds_id (accountId : String) (a : AccountRow) :
    FindBy.holds ⟨accountId,"",""⟩ a = decide (a.id.text = accountId) := by
  by_cases h : a.id.text = accountId
  · simp [FindBy.holds,← h,a.id.text_ne]
  · simp [FindBy.holds,h]

theorem findBy_users (accountId : String) : UsersRepository.findBy db ⟨accountId,"",""⟩ =
    (db.account accountId).map fun a =>
      {toUserResponse := db.select (fun v => v.deletedAt.isNone) a, role := a.role,
        deletedAt := a.deletedAt} := by
  simp only [UsersRepository.findBy,account,holds_id]

theorem findBy_accounts (accountId : String) :
    AccountRepository.findBy db.accountRows ⟨accountId,"",""⟩ =
      (db.account accountId).map (·.toAccountRow) := by
  simp only [AccountRepository.findBy,accountRows,List.find?_map,account,Function.comp_def,holds_id]

theorem mem_of_account (h : db.account accountId = some a) :
    a ∈ db.accounts ∧ a.id.text = accountId :=
  ⟨List.mem_of_find?_eq_some h,by simpa using List.find?_some h⟩

theorem account_iff (hids : (db.accounts.map (·.id)).Nodup) : db.account accountId = some a ↔
    a ∈ db.accounts ∧ a.id.text = accountId := by
  have htexts : (db.accounts.map fun a => a.id.text).Nodup := by
    simpa [Function.comp_def] using hids.map UuidString.text_injective
  exact find?_key_iff htexts

namespace Consistent
variable (hc : db.Consistent)
include hc

theorem account_eq_some : db.account accountId = some a ↔
    a ∈ db.accounts ∧ a.id.text = accountId := account_iff hc.accounts

theorem serves_iff : db.Serves accountId ↔
    ∃ a, db.account accountId = some a ∧ a.deletedAt = none := by
  constructor
  · rintro ⟨a,ha,hid,hlive⟩
    exact ⟨a,hc.account_eq_some.mpr ⟨ha,hid⟩,hlive⟩
  · rintro ⟨a,ha,hlive⟩
    obtain ⟨hmem,hid⟩ := mem_of_account ha
    exact ⟨a,hmem,hid,hlive⟩

theorem profile_eq_some {p : Profile} {id : UuidString} :
    db.profiles.find? (fun p => p.accountId = id) = some p ↔ p ∈ db.profiles ∧ p.accountId = id :=
  find?_key_iff hc.owners

end Consistent

section Change
variable {db' : UsersDb} {kind : ChangeKind}

theorem Change.consistent (h : db.Change kind db') (hc : db.Consistent) : db'.Consistent := by
  cases h with
  | account a _ fresh =>
    refine ⟨?_,hc.owners,hc.avatars,hc.names,hc.profile_of,fun p hp => ?_⟩
    · simpa [List.nodup_append] using ⟨hc.accounts,fresh⟩
    · obtain ⟨b,hb,hid⟩ := hc.account_of p hp
      exact ⟨b,by simp [hb],hid⟩
  | profile p fresh owner =>
    refine ⟨hc.accounts,?_,hc.avatars,hc.names,fun v hv => ?_,fun q hq => ?_⟩
    · simpa [List.nodup_append] using ⟨hc.owners,fresh⟩
    · obtain ⟨q,hq,hid⟩ := hc.profile_of v hv
      exact ⟨q,by simp [hq],hid⟩
    · obtain hq | rfl := List.mem_append.mp hq |>.imp_right List.mem_singleton.mp
      · exact hc.account_of q hq
      · exact owner
  | patch f hf =>
    refine ⟨hc.accounts,?_,hc.avatars,hc.names,fun v hv => ?_,fun q hq => ?_⟩
    · simpa [Function.comp_def,hf] using hc.owners
    · obtain ⟨q,hq,hid⟩ := hc.profile_of v hv
      exact ⟨f q,List.mem_map_of_mem hq,(hf q).1.trans hid⟩
    · obtain ⟨p,hp,rfl⟩ := List.mem_map.mp hq
      rw [(hf p).2]
      exact hc.account_of p hp
  | avatar v _ fresh owner =>
    refine ⟨hc.accounts,hc.owners,?_,?_,fun w hw => ?_,hc.account_of⟩
    · simpa [List.nodup_append] using ⟨hc.avatars,fun w hw => (fresh w hw).1⟩
    · simpa [List.nodup_append] using ⟨hc.names,fun w hw => (fresh w hw).2⟩
    · obtain hw | rfl := List.mem_append.mp hw |>.imp_right List.mem_singleton.mp
      · exact hc.profile_of w hw
      · exact owner
  | deleteAvatar marked t _ =>
    refine ⟨hc.accounts,hc.owners,?_,?_,fun w hw => ?_,hc.account_of⟩
    · simpa [Function.comp_def] using hc.avatars
    · simpa [Function.comp_def] using hc.names
    · obtain ⟨v,hv,rfl⟩ := List.mem_map.mp hw
      simpa using hc.profile_of v hv
  | delete id t _ =>
    refine ⟨?_,hc.owners,hc.avatars,hc.names,hc.profile_of,fun p hp => ?_⟩
    · simpa [Function.comp_def] using hc.accounts
    · obtain ⟨b,hb,hid⟩ := hc.account_of p hp
      exact ⟨b.mark id t,List.mem_map_of_mem hb,by simpa using hid⟩

/-- The rows that a call marks stay marked. -/
theorem Change.undeleted_iff (h : db.Change kind db') :
    db'.Undeleted ↔ db.Undeleted ∧ kind ≠ .marks := by
  cases h with
  | account a live _ => simp [Undeleted,or_imp,forall_and,live]
  | profile p _ _ => simp [Undeleted]
  | patch f _ => simp [Undeleted]
  | avatar v live _ _ => simp [Undeleted,or_imp,forall_and,live]
  | deleteAvatar marked t hit =>
    obtain ⟨v,hv,hm⟩ := hit
    refine ⟨fun hu => ?_,fun hu => absurd rfl hu.2⟩
    have hnone := hu.2 _ (List.mem_map_of_mem hv)
    rw [Avatar.mark_deletedAt marked t v hm] at hnone
    exact nomatch hnone
  | delete id t hit =>
    obtain ⟨a,ha,hid⟩ := hit
    refine ⟨fun hu => ?_,fun hu => absurd rfl hu.2⟩
    have hnone := hu.1 _ (List.mem_map_of_mem ha)
    rw [StoredAccount.mark_deletedAt t id a hid] at hnone
    exact nomatch hnone

/-- Only `createAvatar` adds avatars. The other calls mark some, or none. -/
theorem Change.avatars (h : db.Change kind db') (hkind : kind ≠ .uploads) :
    ∃ marked t, db'.avatars = db.avatars.map (·.mark marked t) := by
  have hnone : db.avatars = db.avatars.map (·.mark (fun _ => false) 0) :=
    (List.map_id' db.avatars).symm
  cases h with
  | account | profile | patch | delete => exact ⟨_,_,hnone⟩
  | avatar => exact absurd rfl hkind
  | deleteAvatar marked t _ => exact ⟨marked,t,rfl⟩

end Change

section Calls
variable {c : UsersConfig} {db' : UsersDb} {now : ℕ}

theorem change_of_register {email username password : String} {id : UuidString}
    (h : db.register email username password id now = .ok db') : db.Change .other db' := by
  unfold register AccountRepository.create at h
  split at h
  · cases h
  · split_ifs at h with htaken
    simp only [Except.ok.injEq] at h
    subst h
    refine .account _ rfl fun b hb hid => htaken ?_
    exact List.any_eq_true.mpr ⟨b.toAccountRow,List.mem_map_of_mem hb,
      by simp [show b.toAccountRow.id = id from hid]⟩

theorem findAndCheckUser_ok {user : SelectedUser}
    (h : ProfileService.findAndCheckUser db accountId = .ok user) :
    ∃ a, db.account accountId = some a ∧ a.deletedAt = none ∧
      user.toUserResponse = db.select (fun v => v.deletedAt.isNone) a := by
  rw [ProfileService.findAndCheckUser,findBy_users] at h
  cases ha : db.account accountId with
  | none => simp [ha] at h
  | some a =>
    rw [ha] at h
    simp only [Option.map_some] at h
    split_ifs at h with hdel
    simp only [Except.ok.injEq] at h
    exact ⟨a,rfl,by simpa using hdel,by rw [← h]⟩

theorem change_of_createProfile {firstName lastName description : String} {age : ℕ}
    {id : UuidString} {answer : ProfileResponse}
    (h : ProfileService.createProfile db accountId firstName lastName age description id =
      .ok (answer,db')) : db.Change .other db' := by
  unfold ProfileService.createProfile ProfileRepository.create at h
  cases hu : ProfileService.findAndCheckUser db accountId with
  | error e => simp [hu] at h
  | ok user =>
    obtain ⟨a,ha,-,huser⟩ := findAndCheckUser_ok hu
    simp only [hu] at h
    split_ifs at h with hprofile htaken
    · cases h
    · simp only [Except.map,Except.ok.injEq,Prod.mk.injEq] at h
      obtain ⟨-,rfl⟩ := h
      have hid : user.id = a.id := by rw [huser]; rfl
      refine .profile _ (fun q hq howner => htaken ?_) ⟨a,(mem_of_account ha).1,hid.symm⟩
      exact List.any_eq_true.mpr ⟨q,hq,by simpa using .inr howner⟩

theorem change_of_updateProfile {firstName lastName : Option String} {description : String}
    {age : Option ℕ} {answer : ProfileResponse}
    (h : ProfileService.updateProfile db accountId firstName lastName age description =
      .ok (answer,db')) : db.Change .other db' := by
  unfold ProfileService.updateProfile at h
  cases hu : ProfileService.findAndCheckUser db accountId with
  | error e => simp [hu] at h
  | ok user =>
    simp only [hu] at h
    split at h
    · cases h
    · simp only [Except.ok.injEq,Prod.mk.injEq] at h
      obtain ⟨-,rfl⟩ := h
      refine .patch _ fun p => ?_
      split_ifs <;> exact ⟨rfl,rfl⟩

/-- What `checkAvatar` has found: a profile with room for one more avatar. -/
theorem checkAvatar_ok {path fileName : String} {profileId : UuidString}
    (h : AvatarService.checkAvatar db c accountId path = .ok (profileId,fileName)) :
    fileOfPath path = some fileName ∧ (∃ p ∈ db.profiles, p.id = profileId) ∧
      db.avatars.countP (fun v => v.profileId = profileId && v.deletedAt.isNone) < c.maxAvatars := by
  unfold AvatarService.checkAvatar at h
  rw [findBy_users] at h
  cases ha : db.account accountId with
  | none => simp [ha] at h
  | some a =>
    simp only [ha,Option.map_some,select] at h
    split_ifs at h
    cases hp : db.profiles.find? (fun p => p.accountId = a.id) with
    | none => simp [hp] at h
    | some p =>
      simp only [hp,Option.map_some,List.length_map,← List.countP_eq_length_filter] at h
      split_ifs at h with hroom
      cases hf : fileOfPath path with
      | none => simp [hf] at h
      | some name =>
        simp only [hf,Except.ok.injEq,Prod.mk.injEq] at h
        obtain ⟨rfl,rfl⟩ := h
        exact ⟨rfl,⟨p,List.mem_of_find?_eq_some hp,rfl⟩,not_le.mp hroom⟩

theorem create_error {avatar : Avatar} {e : AuthError}
    (h : AvatarRepository.create db avatar = .error e) :
    ∃ v ∈ db.avatars, v.id = avatar.id ∨ v.name = avatar.name := by
  unfold AvatarRepository.create at h
  split_ifs at h with htaken
  obtain ⟨v,hv,htaken⟩ := List.any_eq_true.mp htaken
  exact ⟨v,hv,by simpa using htaken⟩

theorem create_ok {avatar : Avatar} (h : AvatarRepository.create db avatar = .ok db') :
    (∀ v ∈ db.avatars, v.id ≠ avatar.id ∧ v.name ≠ avatar.name) ∧
      db' = {db with avatars := db.avatars++[avatar]} := by
  unfold AvatarRepository.create at h
  split_ifs at h with htaken
  simp only [Except.ok.injEq] at h
  refine ⟨fun v hv => ?_,h.symm⟩
  rw [List.any_eq_true,not_exists] at htaken
  simpa [hv] using htaken v

theorem change_of_createAvatar {path : String} {id : UuidString} {answer : AvatarResponse}
    (h : AvatarService.createAvatar db c accountId path id now = .ok (answer,db')) :
    db.Change .uploads db' := by
  unfold AvatarService.createAvatar at h
  cases hallowed : AvatarService.checkAvatar db c accountId path with
  | error e => simp [hallowed] at h
  | ok found =>
    obtain ⟨profileId,fileName⟩ := found
    simp only [hallowed] at h
    cases hcreate : AvatarRepository.create db ⟨id,fileName,profileId,now,none⟩ with
    | error e => simp [hcreate,Except.map] at h
    | ok db₁ =>
      simp only [hcreate,Except.map,Except.ok.injEq,Prod.mk.injEq] at h
      obtain ⟨hfresh,rfl⟩ := create_ok hcreate
      obtain ⟨-,rfl⟩ := h
      exact .avatar _ rfl hfresh (checkAvatar_ok hallowed).2.1

theorem ofAccount_iff {fileName : String} {v : Avatar} :
    AvatarRepository.ofAccount db accountId fileName v ↔ v.name = fileName ∧
      ∃ p ∈ db.profiles, p.id = v.profileId ∧ p.accountId.text = accountId := by
  simp [AvatarRepository.ofAccount]

theorem change_of_deleteAvatar {fileName answer : String}
    (h : AvatarService.deleteAvatar db accountId fileName now = .ok (answer,db')) :
    db.Change .marks db' ∧ db.SoftDeletes (.deleteAvatar accountId fileName) := by
  unfold AvatarService.deleteAvatar AvatarRepository.update at h
  rw [findBy_users] at h
  cases ha : db.account accountId with
  | none => simp [ha] at h
  | some a =>
    simp only [ha,Option.map_some] at h
    split_ifs at h with hgone hany
    simp only [Except.ok.injEq,Prod.mk.injEq] at h
    obtain ⟨-,rfl⟩ := h
    obtain ⟨v,hv,hof⟩ := List.any_eq_true.mp hany
    refine ⟨.deleteAvatar _ now ⟨v,hv,hof⟩,?_,?_⟩
    · obtain ⟨hmem,hid⟩ := mem_of_account ha
      exact ⟨a,hmem,hid,by simp_all⟩
    · obtain ⟨hname,p,hp,hid,howner⟩ := ofAccount_iff.mp hof
      exact ⟨p,hp,howner,v,hv,hid.symm,hname⟩

theorem change_of_delete (h : db.delete accountId now = .ok db') :
    db.Change .marks db' ∧ db.SoftDeletes (.delete accountId) := by
  unfold delete at h
  rw [findBy_accounts] at h
  cases ha : db.account accountId with
  | none => simp [ha] at h
  | some a =>
    simp only [ha,Option.map_some] at h
    split_ifs at h with hgone
    simp only [Except.ok.injEq] at h
    subst h
    obtain ⟨hmem,hid⟩ := mem_of_account ha
    exact ⟨.delete a.id now ⟨a,hmem,rfl⟩,a,hmem,hid,by simpa using hgone⟩

theorem map_snd_ok {α β : Type} {r : Except AuthError (α × β)} {b : β}
    (h : r.map (·.2) = .ok b) : ∃ a, r = .ok (a,b) := by
  cases r with
  | error e => cases h
  | ok x =>
    cases h
    exact ⟨x.1,rfl⟩

/-- What a call that goes through has done. -/
theorem change_of_write {w : UsersWrite} (h : db.write c now w = .ok db') :
    ∃ kind, db.Change kind db' ∧ (kind = .marks ↔ db.SoftDeletes w) ∧
      (kind = .uploads ↔ w.isCreateAvatar) := by
  cases w with
  | register email username password id =>
    exact ⟨_,change_of_register h,by simp [SoftDeletes],by simp [UsersWrite.isCreateAvatar]⟩
  | createProfile accountId firstName lastName age description id =>
    obtain ⟨answer,h⟩ := map_snd_ok h
    exact ⟨_,change_of_createProfile h,by simp [SoftDeletes],by simp [UsersWrite.isCreateAvatar]⟩
  | updateProfile accountId firstName lastName age description =>
    obtain ⟨answer,h⟩ := map_snd_ok h
    exact ⟨_,change_of_updateProfile h,by simp [SoftDeletes],by simp [UsersWrite.isCreateAvatar]⟩
  | createAvatar accountId path id =>
    obtain ⟨answer,h⟩ := map_snd_ok h
    exact ⟨_,change_of_createAvatar h,by simp [SoftDeletes],by simp [UsersWrite.isCreateAvatar]⟩
  | deleteAvatar accountId fileName =>
    obtain ⟨answer,h⟩ := map_snd_ok h
    obtain ⟨hchange,hsoft⟩ := change_of_deleteAvatar h
    exact ⟨_,hchange,by simp [hsoft],by simp [UsersWrite.isCreateAvatar]⟩
  | delete accountId =>
    obtain ⟨hchange,hsoft⟩ := change_of_delete h
    exact ⟨_,hchange,by simp [hsoft],by simp [UsersWrite.isCreateAvatar]⟩

/-- A call that marks a row is not refused. -/
theorem write_of_softDeletes (hc : db.Consistent) {w : UsersWrite} (h : db.SoftDeletes w) (now : ℕ) :
    ∃ db', db.write c now w = .ok db' := by
  cases w with
  | register | createProfile | updateProfile | createAvatar => exact h.elim
  | deleteAvatar accountId fileName =>
    obtain ⟨hserves,p,hp,howner,v,hv,hid,hname⟩ := h
    obtain ⟨a,ha,hlive⟩ := hc.serves_iff.mp hserves
    obtain ⟨-,haid⟩ := mem_of_account ha
    have hprofile : db.profiles.find? (fun p => p.accountId = a.id) = some p :=
      hc.profile_eq_some.mpr ⟨hp,UuidString.text_injective (howner.trans haid.symm)⟩
    have hany : db.avatars.any (AvatarRepository.ofAccount db accountId fileName) :=
      List.any_eq_true.mpr ⟨v,hv,ofAccount_iff.mpr ⟨hname,p,hp,hid.symm,howner⟩⟩
    simp [write,AvatarService.deleteAvatar,findBy_users,ha,hlive,select,hprofile,
      AvatarRepository.update,hany,Except.map]
  | delete accountId =>
    obtain ⟨a,ha,hlive⟩ := hc.serves_iff.mp h
    simp [write,delete,findBy_accounts,ha,hlive]

end Calls
section Queries
variable {c : UsersConfig}

theorem findMe_ok {u : UserResponse} : UsersService.findMe db accountId = .ok u ↔
    ∃ a, db.account accountId = some a ∧ a.deletedAt = none ∧
      u = db.select (fun v => v.deletedAt.isNone) a := by
  rw [UsersService.findMe,findBy_users]
  cases ha : db.account accountId with
  | none => simp
  | some a => cases hdel : a.deletedAt <;> simp [hdel,eq_comm]

theorem authorize_ok : (∃ user, UsersService.authorize db accountId = .ok user) ↔
    ∃ a, db.account accountId = some a ∧ a.deletedAt = none := by
  rw [UsersService.authorize,findBy_users]
  cases ha : db.account accountId with
  | none => simp
  | some a => cases hdel : a.deletedAt <;> simp [hdel]

theorem mem_candidates {cursor username : Option String}
    (h : a ∈ UsersRepository.candidates db c cursor username) : a ∈ db.accounts := by
  unfold UsersRepository.candidates at h
  split at h
  · exact List.mem_of_mem_filter h
  · split at h
    · exact absurd h List.not_mem_nil
    · exact List.mem_of_mem_filter (List.mem_of_mem_filter h)

/-- Whatever is on a page is an account with all its avatars. -/
theorem mem_page {cursor username : Option String} {limit : ℕ} {page : FindAllUsersResponse}
    {u : UserResponse} (h : UsersRepository.findAll db c cursor limit username = .ok page)
    (hu : u ∈ page.data) : ∃ a ∈ db.accounts, u = db.select (fun _ => true) a := by
  have hsub : ∀ x ∈ (((UsersRepository.candidates db c cursor username).insertionSort
      (fun a b => a.createdAt ≤ b.createdAt)).drop (UsersRepository.skip cursor)).take (limit+1),
      x ∈ db.accounts := by
    intro x hx
    have hrow := List.mem_of_mem_drop (List.mem_of_mem_take hx)
    exact mem_candidates ((List.perm_insertionSort _ _).mem_iff.mp hrow)
  unfold UsersRepository.findAll UsersRepository.findAllOf at h
  simp only at h
  split at h
  · split at h
    · cases h
    · cases h
      obtain ⟨x,hx,rfl⟩ := List.mem_map.mp hu
      exact ⟨x,hsub x (List.mem_of_mem_dropLast hx),rfl⟩
  · cases h
    obtain ⟨x,hx,rfl⟩ := List.mem_map.mp hu
    exact ⟨x,hsub x hx,rfl⟩

/-- One page that is long enough shows every account. -/
theorem findAll_whole {limit : ℕ} (h : db.accounts.length ≤ limit) :
    UsersRepository.findAll db c none limit none = .ok
      ⟨(db.accounts.insertionSort (fun a b => a.createdAt ≤ b.createdAt)).map
        (db.select fun _ => true),none,false⟩ := by
  have hall : UsersRepository.candidates db c none none = db.accounts :=
    List.filter_eq_self.mpr fun a _ => rfl
  have htake : (db.accounts.insertionSort (fun a b => a.createdAt ≤ b.createdAt)).take (limit+1) =
      db.accounts.insertionSort (fun a b => a.createdAt ≤ b.createdAt) :=
    List.take_of_length_le (by rw [List.length_insertionSort]; omega)
  have hskip : UsersRepository.skip none = 0 := rfl
  simp only [UsersRepository.findAll,UsersRepository.findAllOf,hall,hskip,List.drop_zero,htake,
    List.length_insertionSort,gt_iff_lt,if_neg (Nat.not_lt.mpr h)]

theorem mem_findActive {minAge maxAge : ℕ} {u : ActiveUserResponse}
    (h : u ∈ UsersRepository.findActive db minAge maxAge) :
    (∃ a ∈ db.accounts, u.accountId = a.id) ∧
      ∀ name ∈ u.lastLoadedAvatar, ∃ v ∈ db.avatars, v.deletedAt = none ∧ v.name = name := by
  obtain ⟨a,ha,h⟩ := List.mem_flatMap.mp h
  obtain ⟨p,-,h⟩ := List.mem_filterMap.mp h
  simp only [Option.ite_none_right_eq_some,Option.some.injEq] at h
  obtain ⟨-,rfl⟩ := h
  refine ⟨⟨a,ha,rfl⟩,fun name hname => ?_⟩
  obtain ⟨v,hv,rfl⟩ := Option.mem_map.mp hname
  obtain ⟨hmem,hkeep⟩ := List.mem_filter.mp (List.argmax_mem hv)
  exact ⟨v,hmem,by simp_all,rfl⟩

variable {u : UserResponse}

/-- `findMe` shows nothing that is deleted. -/
theorem hides_findMe (hc : db.Consistent) (h : UsersService.findMe db accountId = .ok u) :
    db.Hides u := by
  obtain ⟨a,ha,hlive,rfl⟩ := findMe_ok.mp h
  refine ⟨fun b hb hid => ?_,fun p hp shown hshown v hv hid => ?_⟩
  · rw [List.inj_on_of_nodup_map hc.accounts hb (mem_of_account ha).1 hid]
    exact hlive
  · obtain ⟨q,-,rfl⟩ := Option.mem_map.mp hp
    obtain ⟨w,hw,rfl⟩ := List.mem_map.mp hshown
    obtain ⟨hmem,hkeep⟩ := List.mem_filter.mp hw
    rw [List.inj_on_of_nodup_map hc.avatars hv hmem hid]
    simp_all

/-- `findActive` shows no deleted avatar. -/
theorem avatar_of_findActive (hc : db.Consistent) {minAge maxAge : ℕ} {u : ActiveUserResponse}
    (h : u ∈ UsersRepository.findActive db minAge maxAge) :
    ∀ name ∈ u.lastLoadedAvatar, ∀ v ∈ db.avatars, v.name = name → v.deletedAt = none := by
  intro name hname v hv hv'
  obtain ⟨w,hw,hlive,rfl⟩ := (mem_findActive h).2 name hname
  rw [List.inj_on_of_nodup_map hc.names hv hw hv']
  exact hlive

theorem hides_of_undeleted (h : db.Undeleted) : db.Hides u :=
  ⟨fun a ha _ => h.1 a ha,fun _ _ _ _ v hv _ => h.2 v hv⟩

/-- With nothing deleted both selects show the same avatars. -/
theorem select_of_undeleted (h : db.Undeleted) (a : StoredAccount) :
    db.select (fun v => v.deletedAt.isNone) a = db.select (fun _ => true) a := by
  unfold select
  congr 2
  funext p
  congr 2
  refine List.filter_congr fun v hv => ?_
  simp [h.2 v hv]

/-- A deleted row stands behind some account, when all avatars are shown. -/
theorem exists_not_hides (hc : db.Consistent) (h : ¬db.Undeleted) :
    ∃ a ∈ db.accounts, ¬db.Hides (db.select (fun _ => true) a) := by
  rw [Undeleted,not_and_or] at h
  obtain h | h := h
  · push Not at h
    obtain ⟨a,ha,hdel⟩ := h
    exact ⟨a,ha,fun hh => hdel (hh.1 a ha rfl)⟩
  · push Not at h
    obtain ⟨v,hv,hdel⟩ := h
    obtain ⟨p,hp,hpid⟩ := hc.profile_of v hv
    obtain ⟨a,ha,haid⟩ := hc.account_of p hp
    have hprofile : db.profiles.find? (fun q => q.accountId = a.id) = some p :=
      hc.profile_eq_some.mpr ⟨hp,haid.symm⟩
    refine ⟨a,ha,fun hh => hdel ?_⟩
    refine hh.2 _ (Option.mem_map.mpr ⟨p,hprofile,rfl⟩) ⟨v.id,v.name⟩ ?_ v hv rfl
    exact List.mem_map.mpr ⟨v,List.mem_filter.mpr ⟨hv,by simp [hpid]⟩,rfl⟩

end Queries
end UsersDb

namespace CacheService
variable {c : UsersConfig} {cache : Store String FindAllUsersResponse} {now : ℕ} {key k : String}
  {page : FindAllUsersResponse}

/-- A number reads back from its digits. -/
theorem toDigits_injective : Function.Injective (Nat.toDigits 10) := by
  intro m n h
  rw [← Nat.ofDigitChars_ten_toDigits (n := m),h,Nat.ofDigitChars_ten_toDigits]

theorem usersKey_injective (username cursor : Option String) :
    Function.Injective (usersKey username cursor) := by
  intro m n h
  have hrepr : m.repr = n.repr := (String.append_right_inj _).mp h
  refine toDigits_injective ?_
  rw [← Nat.toList_repr,← Nat.toList_repr,hrepr]

theorem setBuffers_self : ∃ t, setBuffers c cache now key page key = some ⟨page,t⟩ := by
  have hlive : (cache.set key page none).live now key = some ⟨page,none⟩ := by
    rw [Store.live,Store.set_self]
    rfl
  unfold setBuffers expireBuffers
  split
  · refine ⟨some (now+c.cacheUsersTtl),?_⟩
    rw [Store.expire,hlive]
    exact Store.set_self ..
  · exact ⟨none,Store.set_self ..⟩

theorem setBuffers_of_ne (h : k ≠ key) : setBuffers c cache now key page k = cache k := by
  unfold setBuffers expireBuffers
  split
  · rw [Store.expire_of_ne _ _ h,Store.set_of_ne _ _ h]
  · rw [Store.set_of_ne _ _ h]

/-- An entry after a write is the page that was written, or an old one. -/
theorem setBuffers_some {e : Entry FindAllUsersResponse}
    (h : setBuffers c cache now key page k = some e) :
    (k = key ∧ e.value = page) ∨ cache k = some e := by
  by_cases hk : k = key
  · subst hk
    obtain ⟨t,ht⟩ : ∃ t, setBuffers c cache now k page k = some ⟨page,t⟩ := setBuffers_self
    rw [ht,Option.some.injEq] at h
    exact .inl ⟨rfl,by rw [← h]⟩
  · rw [setBuffers_of_ne hk] at h
    exact .inr h

end CacheService
namespace UsersState
variable (c : UsersConfig) (s : UsersState)

/-- Every answer in this state hides what is deleted. -/
structure Invisible : Prop where
  findMe : ∀ accountId u, UsersService.findMe s.db accountId = .ok u → s.db.Hides u
  findAll : ∀ r page, (UsersService.findAll c s r).1 = .ok page → ∀ u ∈ page.data, s.db.Hides u
  findActive : ∀ accountId minAge maxAge users,
    UsersService.findActive s.db accountId minAge maxAge = .ok users →
      ∀ u ∈ users, s.db.HidesActive u
  avatars : ∀ r page, (UsersService.findAll c s r).1 = .ok page → ∀ u ∈ page.data,
    ∀ me, UsersService.findMe s.db u.id.text = .ok me →
      u.profile.map (·.avatars) = me.profile.map (·.avatars)

/-- Every cached page is one that the tables of now give to some query. -/
structure Kept : Prop where
  consistent : s.db.Consistent
  pages : ∀ key e, s.cache key = some e → CacheService.usersPattern key ∧
    ∃ cursor limit username, UsersRepository.findAll s.db c cursor limit username = .ok e.value
  finite : {key | s.cache key ≠ none}.Finite

variable {c s}

theorem kept_initial : initial.Kept c where
  consistent := ⟨.nil,.nil,.nil,.nil,List.forall_mem_nil _,List.forall_mem_nil _⟩
  pages := nofun
  finite := by simp [initial,Store.empty]

/-- What a call of `findAll` leaves in the cache. -/
theorem findAll_cases (r : FindAllUsersRequest) : (UsersService.findAll c s r).2 = s ∨
    ∃ page, UsersRepository.findAll s.db c r.cursor (r.limit.getD 10) r.username = .ok page ∧
      (UsersService.findAll c s r).2 =
        ⟨s.db,CacheService.setBuffers c s.cache s.now
          (CacheService.usersKey r.username r.cursor (r.limit.getD 10)) page,s.now⟩ := by
  unfold UsersService.findAll
  cases UsersService.authorize s.db r.accountId with
  | error e => exact .inl rfl
  | ok user =>
    simp only
    cases s.cache.lookup s.now (CacheService.usersKey r.username r.cursor (r.limit.getD 10)) with
    | some page => exact .inl rfl
    | none =>
      cases h : UsersRepository.findAll s.db c r.cursor (r.limit.getD 10) r.username with
      | error e => exact .inl rfl
      | ok page => exact .inr ⟨page,rfl,rfl⟩

theorem findAll_ok (hk : s.Kept c) {r : FindAllUsersRequest} {page : FindAllUsersResponse}
    (h : (UsersService.findAll c s r).1 = .ok page) : s.db.Serves r.accountId ∧
      ∃ cursor limit username,
        UsersRepository.findAll s.db c cursor limit username = .ok page := by
  unfold UsersService.findAll at h
  cases hallowed : UsersService.authorize s.db r.accountId with
  | error e => simp [hallowed] at h
  | ok user =>
    refine ⟨hk.consistent.serves_iff.mpr (UsersDb.authorize_ok.mp ⟨user,hallowed⟩),?_⟩
    simp only [hallowed] at h
    split at h
    next cached hget =>
      cases h
      rw [Store.lookup,Option.map_eq_some_iff] at hget
      obtain ⟨e,he,rfl⟩ := hget
      exact (hk.pages _ e (Option.filter_eq_some_iff.mp he).1).2
    next =>
      split at h
      · cases h
      next hfind =>
        cases h
        exact ⟨_,_,_,hfind⟩

theorem kept_next (hk : s.Kept c) (call : UsersCall) : (next c s call).Kept c := by
  cases call with
  | wait ms => exact ⟨hk.consistent,hk.pages,hk.finite⟩
  | write w =>
    cases hw : s.db.write c s.now w with
    | error e => simpa only [next,hw] using hk
    | ok db =>
      simp only [next,hw]
      obtain ⟨kind,hchange,-⟩ := UsersDb.change_of_write hw
      refine ⟨hchange.consistent hk.consistent,fun key e he => ?_,hk.finite.subset fun key he => ?_⟩
      · simp only [CacheService.invalidate] at he
        split_ifs at he with hpattern
        exact absurd (hk.pages key e he).1 hpattern
      · simp only [CacheService.invalidate,Set.mem_ofPred_eq] at he
        split_ifs at he
        · exact absurd rfl he
        · exact he
  | findAll r =>
    simp only [next]
    obtain h | ⟨page,hfind,h⟩ := findAll_cases (c := c) (s := s) r
    · rw [h]
      exact hk
    · rw [h]
      refine ⟨hk.consistent,fun key e he => ?_,?_⟩
      · obtain ⟨rfl,hpage⟩ | he := CacheService.setBuffers_some he
        · exact ⟨CacheService.usersPattern_usersKey ..,_,_,_,hpage ▸ hfind⟩
        · exact hk.pages key e he
      · refine (hk.finite.insert (CacheService.usersKey r.username r.cursor (r.limit.getD 10))).subset
          fun key he => ?_
        obtain ⟨e,he⟩ := Option.ne_none_iff_exists'.mp he
        obtain ⟨rfl,-⟩ | he := CacheService.setBuffers_some he
        · exact .inl rfl
        · exact .inr (by simp [he])

theorem kept_after (calls : List UsersCall) : (after c calls).Kept c :=
  runs_invariant' (I := Kept c)
    (fun s call t hs ht => by cases ht; exact kept_next hs call) kept_initial
    (runs_total (next c) initial calls)

theorem invisible_of_undeleted (hk : s.Kept c) (h : s.db.Undeleted) : s.Invisible c where
  findMe _ _ _ := UsersDb.hides_of_undeleted h
  findAll _ _ _ _ _ := UsersDb.hides_of_undeleted h
  findActive _ _ _ _ _ _ _ := ⟨fun a ha _ => h.1 a ha,fun _ _ v hv _ => h.2 v hv⟩
  avatars r page hpage u hu me hme := by
    obtain ⟨-,cursor,limit,username,hfind⟩ := findAll_ok hk hpage
    obtain ⟨a,-,rfl⟩ := UsersDb.mem_page hfind hu
    obtain ⟨b,hb,-,rfl⟩ := UsersDb.findMe_ok.mp hme
    -- the account that `findMe` looks up has the id of the one on the page
    have hid : b.id = a.id := UuidString.text_injective (UsersDb.mem_of_account hb).2
    rw [UsersDb.select_of_undeleted h]
    simp only [UsersDb.select,hid]

theorem invisible_of_closed (hk : s.Kept c) (h : ∀ accountId, ¬s.db.Serves accountId) :
    s.Invisible c where
  findMe accountId u hu := UsersDb.hides_findMe hk.consistent hu
  findAll r page hpage := absurd (findAll_ok hk hpage).1 (h r.accountId)
  findActive accountId minAge maxAge users husers := by
    rw [UsersService.findActive] at husers
    cases hallowed : UsersService.authorize s.db accountId with
    | error e => simp [hallowed,Except.map] at husers
    | ok user =>
      exact absurd (hk.consistent.serves_iff.mpr (UsersDb.authorize_ok.mp ⟨user,hallowed⟩)) (h accountId)
  avatars r page hpage := absurd (findAll_ok hk hpage).1 (h r.accountId)

/-- A page whose key is not in the cache, long enough for all accounts, shows what is deleted. -/
theorem not_invisible (hk : s.Kept c) {accountId : String} (hserves : s.db.Serves accountId)
    (h : ¬s.db.Undeleted) : ¬s.Invisible c := by
  intro hinv
  obtain ⟨a,ha,hshown⟩ := UsersDb.exists_not_hides hk.consistent h
  obtain ⟨user,huser⟩ := UsersDb.authorize_ok.mpr (hk.consistent.serves_iff.mp hserves)
  have hfinite : {limit | s.cache (CacheService.usersKey none none limit) ≠ none}.Finite :=
    hk.finite.preimage ((CacheService.usersKey_injective none none).injOn)
  obtain ⟨limit,hlimit,hlong⟩ : ∃ limit,
      s.cache (CacheService.usersKey none none limit) = none ∧ s.db.accounts.length ≤ limit := by
    have hinf : {limit | s.db.accounts.length ≤ limit}.Infinite := Set.Ici_infinite _
    obtain ⟨limit,hlong,hout⟩ := (hinf.sdiff hfinite).nonempty
    exact ⟨limit,by simpa using hout,hlong⟩
  have hmiss : s.cache.lookup s.now (CacheService.usersKey none none limit) = none := by
    rw [Store.lookup,Store.live_of_none _ _ hlimit,Option.map_none]
  have hanswer : (UsersService.findAll c s ⟨accountId,none,none,some limit⟩).1 = .ok
      ⟨(s.db.accounts.insertionSort (fun a b => a.createdAt ≤ b.createdAt)).map
        (s.db.select fun _ => true),none,false⟩ := by
    simp only [UsersService.findAll,huser,Option.getD_some,hmiss,UsersDb.findAll_whole hlong]
  exact hshown (hinv.findAll _ _ hanswer _
    (List.mem_map_of_mem ((List.perm_insertionSort _ _).mem_iff.mpr ha)))

theorem invisible_iff (hk : s.Kept c) :
    s.Invisible c ↔ (∀ a ∈ s.db.accounts, a.deletedAt ≠ none) ∨ s.db.Undeleted := by
  have hclosed : (∀ a ∈ s.db.accounts, a.deletedAt ≠ none) ↔
      ∀ accountId, ¬s.db.Serves accountId := by
    constructor
    · rintro h accountId ⟨a,ha,-,hlive⟩
      exact h a ha hlive
    · exact fun h a ha hlive => h a.id.text ⟨a,ha,rfl,hlive⟩
  rw [hclosed]
  constructor
  · intro hinv
    by_contra hno
    rw [not_or,not_forall] at hno
    obtain ⟨⟨accountId,hserves⟩,hdel⟩ := hno
    exact not_invisible hk (not_not.mp hserves) hdel hinv
  · rintro (h | h)
    · exact invisible_of_closed hk h
    · exact invisible_of_undeleted hk h

/-- The calls that mark a row as deleted. -/
def SoftDeletes (s : UsersState) : UsersCall → Prop
  | .write w => s.db.SoftDeletes w
  | _ => False

theorem undeleted_next (hk : s.Kept c) (call : UsersCall) :
    (next c s call).db.Undeleted ↔ s.db.Undeleted ∧ ¬s.SoftDeletes call := by
  cases call with
  | wait ms => simp [next,SoftDeletes]
  | write w =>
    cases hw : s.db.write c s.now w with
    | error e =>
      have hno : ¬s.db.SoftDeletes w := fun h => by
        obtain ⟨db,hdb⟩ := UsersDb.write_of_softDeletes (c := c) hk.consistent h s.now
        exact nomatch hw.symm.trans hdb
      simp [next,hw,SoftDeletes,hno]
    | ok db =>
      obtain ⟨kind,hchange,hsoft,-⟩ := UsersDb.change_of_write hw
      simp [next,hw,SoftDeletes,hchange.undeleted_iff,← hsoft]
  | findAll r =>
    have hdb : (UsersService.findAll c s r).2.db = s.db := by
      obtain h | ⟨page,-,h⟩ := findAll_cases (c := c) (s := s) r <;> rw [h]
    simp [next,SoftDeletes,hdb]

theorem undeleted_after (calls : List UsersCall) : (after c calls).db.Undeleted ↔
    Along (fun s call => some (next c s call)) (fun s call => ¬s.SoftDeletes call) initial calls := by
  have hstep : ∀ s call t, s.Kept c → some (next c s call) = some t →
      (¬t.db.Undeleted ↔ ¬s.db.Undeleted ∨ s.SoftDeletes call) := by
    intro s call t hs ht
    cases ht
    rw [undeleted_next hs call]
    tauto
  have hflag := flag_iff (fun s call t hs ht => by cases ht; exact kept_next hs call) hstep
    kept_initial (runs_total (next c) initial calls)
  have hinitial : initial.db.Undeleted :=
    ⟨List.forall_mem_nil _,List.forall_mem_nil _⟩
  rw [← not_iff_not,after,hflag]
  simp [hinitial]

/-- What is marked as deleted is invisible in a reached state if and only if nobody may ask or
nothing has been marked. -/
theorem soft_deleted_is_invisible_iff (c : UsersConfig) (calls : List UsersCall) :
    (after c calls).Invisible c ↔ (∀ a ∈ (after c calls).db.accounts, a.deletedAt ≠ none) ∨
      Along (fun s call => some (next c s call)) (fun s call => ¬s.SoftDeletes call) initial
        calls := by
  rw [invisible_iff (kept_after calls),undeleted_after]

def alice : UuidString := ⟨"00000000-0000-7000-8000-00000000000a",by decide⟩

def bob : UuidString := ⟨"00000000-0000-7000-8000-00000000000b",by decide⟩

/-- Alice and Bob register. Bob adds a picture and takes it away again, and Alice deletes her
account. -/
def aliceAndBob : List UsersCall :=
  [.write (.register "alice@mail.ru" "alice" "hash" alice),.wait 5,
    .write (.register "bob@mail.ru" "bob" "hash" bob),
    .write (.createProfile bob.text "Bob" "Brown" 30 ""
      ⟨"00000000-0000-7000-8000-0000000000b1",by decide⟩),
    .write (.createAvatar bob.text "avatars/face.png"
      ⟨"00000000-0000-7000-8000-0000000000b2",by decide⟩),
    .write (.deleteAvatar bob.text "face.png"),.write (.delete alice.text)]

/-- Bob's list of users shows Alice, and the picture that he took away. -/
theorem deleted_rows_are_listed :
    let c : UsersConfig := ⟨5,30000,containsInsensitive⟩
    let s := after c aliceAndBob
    (UsersService.findAll c s ⟨bob.text,none,none,none⟩).1 = .ok
        ⟨[⟨alice,"alice","alice@mail.ru",0,none⟩,
          ⟨bob,"bob","bob@mail.ru",5,some ⟨⟨"00000000-0000-7000-8000-0000000000b1",by decide⟩,"Bob",
            "Brown",30,"",[⟨⟨"00000000-0000-7000-8000-0000000000b2",by decide⟩,"face.png"⟩]⟩⟩],
          none,false⟩ ∧
      (UsersService.findMe s.db bob.text).toOption.map (fun u => u.profile.map (·.avatars)) =
        some (some []) ∧
      ¬s.Invisible c := by
  intro c s
  have hanswer : (UsersService.findAll c s ⟨bob.text,none,none,none⟩).1 = .ok
      ⟨[⟨alice,"alice","alice@mail.ru",0,none⟩,
        ⟨bob,"bob","bob@mail.ru",5,some ⟨⟨"00000000-0000-7000-8000-0000000000b1",by decide⟩,"Bob",
          "Brown",30,"",[⟨⟨"00000000-0000-7000-8000-0000000000b2",by decide⟩,"face.png"⟩]⟩⟩],
        none,false⟩ := by decide +kernel
  refine ⟨hanswer,by decide +kernel,fun hinv => ?_⟩
  have hgone : ¬∀ a ∈ s.db.accounts, a.id = alice → a.deletedAt = none := by decide +kernel
  exact hgone (hinv.findAll _ _ hanswer _ List.mem_cons_self).1

end UsersState
end NestHomework.UserService
