import NestHomework.FileService.SaveAvatar

/-! When every row has its object. The file service takes a call for failed whose row is there when
the response of the attempt that committed it is lost or late, or when the attempt itself is late. -/
namespace NestHomework.FileService
open UserService Transition

namespace Save
variable {save after : Save} {retries : ℕ}

/-- What the file service does with a call that is not finished: attempts stay, and new ones have
asked for nothing yet. -/
structure Moves (save after : Save) : Prop where
  path : after.path = save.path
  active : save.finished = false
  kept : ∀ attempt ∈ save.attempts, attempt ∈ after.attempts
  new : ∀ attempt ∈ after.attempts, attempt ∈ save.attempts ∨ attempt = .sent

theorem Moves.of_attempts (hpath : after.path = save.path) (hactive : save.finished = false)
    (hattempts : after.attempts = save.attempts) : Moves save after :=
  ⟨hpath,hactive,by simp [hattempts],by simp +contextual [hattempts]⟩

theorem fail_attempts (save : Save) (retries retryCount : ℕ) (err : CallError) :
    (save.fail retries retryCount err).path = save.path ∧
      (save.fail retries retryCount err).attempts = save.attempts := by
  unfold fail
  split <;> exact ⟨rfl,rfl⟩

theorem answer_moves (h : save.answer retries = some after) : Moves save after := by
  unfold answer at h
  split at h
  next hstage _ =>
    cases h
    exact .of_attempts rfl (by simp [finished,hstage]) rfl
  next retryCount e hstage _ =>
    cases h
    obtain ⟨hpath,hattempts⟩ := fail_attempts save retries retryCount (.ofServer e)
    exact .of_attempts hpath (by simp [finished,hstage]) hattempts
  next => cases h

theorem lose_moves {err : CallError} (h : save.lose retries err = some after) :
    Moves save after := by
  unfold lose at h
  split at h
  next retryCount hstage =>
    cases h
    obtain ⟨hpath,hattempts⟩ := fail_attempts save retries retryCount err
    exact .of_attempts hpath (by simp [finished,hstage]) hattempts
  next => cases h

theorem resend_moves (h : save.resend = some after) : Moves save after := by
  unfold resend at h
  split at h
  next hstage =>
    cases h
    exact ⟨rfl,by simp [finished,hstage],fun a ha => by simp [ha],fun a ha => by simpa using ha⟩
  next => cases h

theorem removed_moves {failure : Option String} (h : save.removed failure = some after) :
    Moves save after ∧ after.finished := by
  unfold removed at h
  split at h
  next hstage =>
    cases h
    exact ⟨.of_attempts rfl (by simp [finished,hstage]) rfl,rfl⟩
  next => cases h

end Save

namespace AvatarFiles
variable {c : UsersConfig} {retries : ℕ} {s t : AvatarFiles} {save after : Save} {i : ℕ}

/-- Every row is one that an attempt has committed, and the object of a call stays until the call is
finished. -/
structure Sound (s : AvatarFiles) : Prop where
  names : (s.saves.map Save.fileName).Nodup
  asked : ∀ save ∈ s.saves, ∀ attempt ∈ save.attempts, ∀ name ∈ attempt.name?,
    save.fileName = some name
  rows : ∀ v ∈ s.db.avatars, ∃ save ∈ s.saves, ∃ attempt ∈ save.attempts,
    attempt.isCommitted ∧ attempt.name? = some v.name
  stored : ∀ save ∈ s.saves, ∀ attempt ∈ save.attempts, attempt.isCommitted →
    ∃ v ∈ s.db.avatars, attempt.name? = some v.name
  objects : ∀ save ∈ s.saves, save.finished = false → save.path ∈ s.bucket

theorem sound_initial : initial.Sound :=
  ⟨.nil,List.forall_mem_nil _,List.forall_mem_nil _,List.forall_mem_nil _,List.forall_mem_nil _⟩

theorem onSave_eq_some {step : Save → Option Save} (h : s.onSave i step = some t) :
    ∃ save after, s.saves[i]? = some save ∧ step save = some after ∧
      t = {s with saves := s.saves.set i after} := by
  simp only [onSave,Option.bind_eq_some_iff,Option.map_eq_some_iff] at h
  obtain ⟨save,hsave,after,hafter,rfl⟩ := h
  exact ⟨save,after,hsave,hafter,rfl⟩

/-- Two calls have different names. -/
theorem Sound.eq_of_fileName (h : s.Sound) {other : Save} (hs : save ∈ s.saves) (ho : other ∈ s.saves)
    (hname : save.fileName = other.fileName) : save = other :=
  List.inj_on_of_nodup_map h.names hs ho hname

/-- A call of the new list is the one that moved, or an old one of another name. -/
theorem Sound.mem_set (h : s.Sound) (hi : s.saves[i]? = some save) {x : Save}
    (hx : x ∈ s.saves.set i after) :
    x = after ∨ (x ∈ s.saves ∧ x.fileName ≠ save.fileName) := by
  obtain ⟨j,hj⟩ := List.mem_iff_getElem?.mp hx
  rw [List.getElem?_set] at hj
  split_ifs at hj with hij hlt
  · exact .inl (Option.some.inj hj).symm
  · refine .inr ⟨List.mem_of_getElem? hj,fun hname => hij ?_⟩
    have hnames : (s.saves.map Save.fileName)[i]? = (s.saves.map Save.fileName)[j]? := by
      rw [List.getElem?_map,List.getElem?_map,hi,hj,Option.map_some,Option.map_some,hname]
    have hlen : i < (s.saves.map Save.fileName).length := by
      rw [List.length_map]
      exact (List.getElem?_eq_some_iff.mp hi).1
    exact (List.getElem?_inj hlen h.names).mp hnames

theorem mem_set_self (hi : s.saves[i]? = some save) : after ∈ s.saves.set i after :=
  List.mem_set (List.getElem?_eq_some_iff.mp hi).1 after

theorem mem_set_of_ne {x : Save} (hi : s.saves[i]? = some save) (hx : x ∈ s.saves) (hne : x ≠ save) :
    x ∈ s.saves.set i after := by
  obtain ⟨j,hj⟩ := List.mem_iff_getElem?.mp hx
  refine List.mem_iff_getElem?.mpr ⟨j,?_⟩
  rw [List.getElem?_set,if_neg,hj]
  rintro rfl
  exact hne (Option.some.inj (hj.symm.trans hi))

/-- One call moves, and rows or objects may come or go with it. -/
theorem Sound.set (h : s.Sound) (hi : s.saves[i]? = some save) (hpath : after.path = save.path)
    (db : UsersDb) (bucket : List String)
    (hasked : ∀ attempt ∈ after.attempts, ∀ name ∈ attempt.name?, save.fileName = some name)
    (hkept : ∀ attempt ∈ save.attempts, attempt.isCommitted → attempt ∈ after.attempts)
    (hrows : ∀ v ∈ db.avatars, (∃ w ∈ s.db.avatars, w.name = v.name) ∨
      ∃ attempt ∈ after.attempts, attempt.isCommitted ∧ attempt.name? = some v.name)
    (hdb : ∀ v ∈ s.db.avatars, ∃ w ∈ db.avatars, w.name = v.name)
    (hnew : ∀ attempt ∈ after.attempts, attempt.isCommitted →
      attempt ∈ save.attempts ∨ ∃ v ∈ db.avatars, attempt.name? = some v.name)
    (hothers : ∀ path ∈ s.bucket, path ≠ save.path → path ∈ bucket)
    (hobject : after.finished = false → save.path ∈ bucket) :
    ({s with db := db, bucket := bucket, saves := s.saves.set i after} : AvatarFiles).Sound := by
  have hname : after.fileName = save.fileName := congrArg fileOfPath hpath
  have hsave := List.mem_of_getElem? hi
  have hold : ∀ attempt ∈ save.attempts, attempt.isCommitted →
      ∃ v ∈ db.avatars, attempt.name? = some v.name := fun attempt ha hcommitted => by
    obtain ⟨v,hv,hvn⟩ := h.stored save hsave attempt ha hcommitted
    obtain ⟨w,hw,hwn⟩ := hdb v hv
    exact ⟨w,hw,hwn ▸ hvn⟩
  refine ⟨?_,fun x hx => ?_,fun v hv => ?_,fun x hx => ?_,fun x hx => ?_⟩
  · have hset : (s.saves.map Save.fileName).set i after.fileName = s.saves.map Save.fileName := by
      obtain ⟨hlt,hget⟩ := List.getElem?_eq_some_iff.mp hi
      have hlen : i < (s.saves.map Save.fileName).length := by simpa using hlt
      have hself := List.set_getElem_self hlen
      rwa [List.getElem_map,hget,← hname] at hself
    rw [List.map_set,hset]
    exact h.names
  · obtain rfl | ⟨hx,-⟩ := h.mem_set hi hx
    · exact hname ▸ hasked
    · exact h.asked x hx
  · obtain ⟨w,hw,hwn⟩ | ⟨attempt,ha,hcommitted,hasks⟩ := hrows v hv
    · obtain ⟨x,hx,attempt,ha,hcommitted,hasks⟩ := h.rows w hw
      rw [hwn] at hasks
      by_cases hxs : x = save
      · subst hxs
        exact ⟨after,mem_set_self hi,attempt,hkept attempt ha hcommitted,hcommitted,hasks⟩
      · exact ⟨x,mem_set_of_ne hi hx hxs,attempt,ha,hcommitted,hasks⟩
    · exact ⟨after,mem_set_self hi,attempt,ha,hcommitted,hasks⟩
  · obtain rfl | ⟨hx,-⟩ := h.mem_set hi hx
    · intro attempt ha hcommitted
      obtain ha | hrow := hnew attempt ha hcommitted
      · exact hold attempt ha hcommitted
      · exact hrow
    · intro attempt ha hcommitted
      obtain ⟨v,hv,hvn⟩ := h.stored x hx attempt ha hcommitted
      obtain ⟨w,hw,hwn⟩ := hdb v hv
      exact ⟨w,hw,hwn ▸ hvn⟩
  · obtain rfl | ⟨hx,hne⟩ := h.mem_set hi hx
    · exact hpath ▸ hobject
    · exact fun hfin => hothers x.path (h.objects x hx hfin)
        fun hp => hne (congrArg fileOfPath hp)

/-- Whether the rows still have their objects is a matter of the call that moved. -/
theorem Sound.backed_set_iff (h : s.Sound) (hb : s.Backed) (hi : s.saves[i]? = some save)
    (hpath : after.path = save.path) (db : UsersDb) (bucket : List String)
    (hrows : ∀ v ∈ db.avatars, v.deletedAt = none →
      v ∈ s.db.avatars ∨ save.fileName = some v.name)
    (hothers : ∀ path ∈ s.bucket, path ≠ save.path → path ∈ bucket) :
    ({s with db := db, bucket := bucket, saves := s.saves.set i after} : AvatarFiles).Backed ↔
      (after.finished → ∀ v ∈ db.avatars, v.deletedAt = none → save.fileName = some v.name →
        save.path ∈ bucket) := by
  have hname : after.fileName = save.fileName := congrArg fileOfPath hpath
  constructor
  · intro hbacked hfin v hv hlive hvn
    exact hpath ▸ hbacked after (mem_set_self hi) hfin v hv hlive (hname ▸ hvn)
  · intro hafter x hx hfin v hv hlive hvn
    obtain rfl | ⟨hx,hne⟩ := h.mem_set hi hx
    · exact hpath ▸ hafter hfin v hv hlive (hname ▸ hvn)
    · have hold : v ∈ s.db.avatars :=
        (hrows v hv hlive).resolve_right fun hsv => hne (hvn.trans hsv.symm)
      exact hothers x.path (hb x hx hfin v hold hlive hvn) fun hp => hne (congrArg fileOfPath hp)

/-- A step of the file service for a call that is not finished. -/
theorem Sound.moves (h : s.Sound) (hi : s.saves[i]? = some save) (hm : Save.Moves save after) :
    ({s with saves := s.saves.set i after} : AvatarFiles).Sound ∧
      (s.Backed → ({s with saves := s.saves.set i after} : AvatarFiles).Backed) := by
  have hsave := List.mem_of_getElem? hi
  have hobject := h.objects save hsave hm.active
  refine ⟨h.set hi hm.path s.db s.bucket (fun attempt ha name hname => ?_)
    (fun attempt ha _ => hm.kept attempt ha) (fun v hv => .inl ⟨v,hv,rfl⟩) (fun v hv => ⟨v,hv,rfl⟩)
    (fun attempt ha hcommitted => .inl ?_) (fun _ hp _ => hp) (fun _ => hobject),
    fun hb => (h.backed_set_iff hb hi hm.path s.db s.bucket (fun v hv _ => .inl hv)
      fun _ hp _ => hp).mpr fun _ _ _ _ _ => hobject⟩
  · obtain ha | rfl := hm.new attempt ha
    · exact h.asked save hsave attempt ha name hname
    · cases hname
  · obtain ha | rfl := hm.new attempt ha
    · exact ha
    · cases hcommitted

/-- What the user service does with the request of an attempt, which commits a row or not. -/
structure Save.Serves (save after : Save) (k : ℕ) (new : Attempt) : Prop where
  path : after.path = save.path
  stage : after.stage = save.stage
  attempts : after.attempts = save.attempts.set k new
  old : ∃ attempt, save.attempts[k]? = some attempt ∧ attempt.isCommitted = false
  name : ∀ name ∈ new.name?, save.fileName = some name

namespace Save.Serves
variable {k : ℕ} {new : Attempt} (h : Save.Serves save after k new)
include h

theorem finished : after.finished = save.finished := by
  rw [Save.finished,h.stage]
  rfl

theorem asked {attempt : Attempt} (ha : attempt ∈ after.attempts)
    (hold : ∀ attempt ∈ save.attempts, ∀ name ∈ attempt.name?, save.fileName = some name) :
    ∀ name ∈ attempt.name?, save.fileName = some name := by
  obtain ha | rfl := List.mem_or_eq_of_mem_set (h.attempts ▸ ha)
  · exact hold attempt ha
  · exact h.name

theorem kept {attempt : Attempt} (ha : attempt ∈ save.attempts) (hcommitted : attempt.isCommitted) :
    attempt ∈ after.attempts := by
  obtain ⟨old,hk,hold⟩ := h.old
  obtain ⟨j,hj⟩ := List.mem_iff_getElem?.mp ha
  refine List.mem_iff_getElem?.mpr ⟨j,?_⟩
  rw [h.attempts,List.getElem?_set,if_neg,hj]
  rintro rfl
  obtain rfl := Option.some.inj (hj.symm.trans hk)
  exact absurd hcommitted (by simp [hold])

theorem new_mem : new ∈ after.attempts := by
  obtain ⟨old,hk,-⟩ := h.old
  rw [h.attempts]
  exact List.mem_set (List.getElem?_eq_some_iff.mp hk).1 new

theorem mem {attempt : Attempt} (ha : attempt ∈ after.attempts) :
    attempt ∈ save.attempts ∨ attempt = new := List.mem_or_eq_of_mem_set (h.attempts ▸ ha)

end Save.Serves

/-- The user service gets on with a request and commits no row. -/
theorem Sound.attempt (h : s.Sound) (hi : s.saves[i]? = some save) {k : ℕ} {new : Attempt}
    (hserves : Save.Serves save after k new) (hnew : new.isCommitted = false) :
    ({s with saves := s.saves.set i after} : AvatarFiles).Sound ∧
      (s.Backed → ({s with saves := s.saves.set i after} : AvatarFiles).Backed) := by
  have hsave := List.mem_of_getElem? hi
  refine ⟨h.set hi hserves.path s.db s.bucket (fun attempt ha => hserves.asked ha (h.asked save hsave))
    (fun attempt ha => hserves.kept ha) (fun v hv => .inl ⟨v,hv,rfl⟩) (fun v hv => ⟨v,hv,rfl⟩)
    (fun attempt ha hcommitted => .inl ?_) (fun _ hp _ => hp)
    (hserves.finished ▸ h.objects save hsave),
    fun hb => (h.backed_set_iff hb hi hserves.path s.db s.bucket (fun v hv _ => .inl hv)
      fun _ hp _ => hp).mpr (hserves.finished ▸ hb save hsave)⟩
  obtain ha | rfl := hserves.mem ha
  · exact ha
  · rw [hnew] at hcommitted
    cases hcommitted

/-- The user service commits a row. -/
theorem Sound.commit (h : s.Sound) (hi : s.saves[i]? = some save) {k : ℕ} {v : Avatar}
    {answer : AvatarResponse} (hserves : Save.Serves save after k (.committed answer))
    (hv : answer.name = v.name) (hlive : v.deletedAt = none) :
    let t : AvatarFiles := {s with
      db := {s.db with avatars := s.db.avatars++[v]}, saves := s.saves.set i after}
    t.Sound ∧ (s.Backed → (t.Backed ↔ save.path ∈ s.bucket)) := by
  have hsave := List.mem_of_getElem? hi
  have hname : save.fileName = some v.name := by
    rw [hserves.name answer.name rfl,hv]
  refine ⟨h.set hi hserves.path {s.db with avatars := s.db.avatars++[v]} s.bucket
    (fun attempt ha => hserves.asked ha (h.asked save hsave)) (fun attempt ha => hserves.kept ha)
    (fun w hw => ?_) (fun w hw => ⟨w,by simp [hw],rfl⟩) (fun attempt ha _ => ?_)
    (fun _ hp _ => hp) (hserves.finished ▸ h.objects save hsave),fun hb => ?_⟩
  · obtain hw | rfl := List.mem_append.mp hw |>.imp_right List.mem_singleton.mp
    · exact .inl ⟨w,hw,rfl⟩
    · exact .inr ⟨_,hserves.new_mem,rfl,congrArg some hv⟩
  · obtain ha | rfl := hserves.mem ha
    · exact .inl ha
    · exact .inr ⟨v,by simp,congrArg some hv⟩
  · refine (h.backed_set_iff hb hi hserves.path {s.db with avatars := s.db.avatars++[v]} s.bucket
      (fun w hw _ => ?_) fun _ hp _ => hp).trans ⟨fun hbacked => ?_,fun hp _ _ _ _ _ => hp⟩
    · obtain hw | rfl := List.mem_append.mp hw |>.imp_right List.mem_singleton.mp
      · exact .inl hw
      · exact .inr hname
    · cases hfin : save.finished with
      | false => exact h.objects save hsave hfin
      | true => exact hbacked (hserves.finished.trans hfin) v (by simp) hlive hname

theorem sound_check (h : s.Sound) {k : ℕ} (hn : s.next c retries (.check i k) = some t) :
    t.Sound ∧ (s.Backed → t.Backed) := by
  obtain ⟨save,after,hi,hstep,rfl⟩ := onSave_eq_some hn
  split_ifs at hstep with hk
  cases hallowed : AvatarService.checkAvatar s.db c save.accountId save.path with
  | error e =>
    simp only [hallowed,Option.some.injEq] at hstep
    subst hstep
    have hserves : Save.Serves save {save with attempts := save.attempts.set k (.refused e)} k
        (.refused e) := ⟨rfl,rfl,rfl,⟨_,hk,rfl⟩,nofun⟩
    exact h.attempt hi hserves rfl
  | ok found =>
    obtain ⟨profileId,fileName⟩ := found
    simp only [hallowed,Option.some.injEq] at hstep
    subst hstep
    refine h.attempt hi ⟨rfl,rfl,rfl,⟨_,hk,rfl⟩,fun name hname => ?_⟩ rfl
    cases hname
    exact (UsersDb.checkAvatar_ok hallowed).1

/-- A row is committed in time if and only if the object is still there. -/
theorem sound_insert (h : s.Sound) {k : ℕ} {id : UuidString}
    (hn : s.next c retries (.insert i k id) = some t) :
    t.Sound ∧ (s.Backed → (t.Backed ↔ s.Paired (.insert i k id))) := by
  obtain ⟨save,hi,hn⟩ := Option.bind_eq_some_iff.mp hn
  have hsave := List.mem_of_getElem? hi
  split at hn
  next profileId fileName hk =>
    have hname : save.fileName = some fileName :=
      h.asked save hsave _ (List.mem_of_getElem? hk) fileName rfl
    have hpaired : s.Paired (.insert i k id) ↔
        save.path ∈ s.bucket ∨ ∃ v ∈ s.db.avatars, v.id = id ∨ v.name = fileName := by
      simp [Paired,hi,hk,Attempt.name?]
    cases hcreate : AvatarRepository.create s.db ⟨id,fileName,profileId,s.now,none⟩ with
    | error e =>
      simp only [hcreate] at hn
      obtain ⟨save',after,hi',hstep,rfl⟩ := onSave_eq_some hn
      obtain rfl := Option.some.inj (hi.symm.trans hi')
      cases hstep
      have hserves : Save.Serves save
          {save with attempts := save.attempts.set k (.refused e)} k (.refused e) :=
        ⟨rfl,rfl,rfl,⟨_,hk,rfl⟩,nofun⟩
      obtain ⟨hsound,hbacked⟩ := h.attempt hi hserves rfl
      refine ⟨hsound,fun hb => iff_of_true (hbacked hb) (hpaired.mpr (.inr ?_))⟩
      exact UsersDb.create_error hcreate
    | ok db =>
      simp only [hcreate] at hn
      obtain ⟨hfresh,rfl⟩ := UsersDb.create_ok hcreate
      obtain ⟨save',after,hi',hstep,rfl⟩ := onSave_eq_some hn
      obtain rfl := Option.some.inj (hi.symm.trans hi')
      cases hstep
      have hserves : Save.Serves save
          {save with attempts := save.attempts.set k (.committed ⟨id,fileName⟩)} k
          (.committed ⟨id,fileName⟩) :=
        ⟨rfl,rfl,rfl,⟨_,hk,rfl⟩,fun name hasks => hname.trans hasks⟩
      obtain ⟨hsound,hbacked⟩ := h.commit (v := ⟨id,fileName,profileId,s.now,none⟩) hi hserves rfl
        rfl
      refine ⟨hsound,fun hb => (hbacked hb).trans (hpaired.trans (or_iff_left ?_)).symm⟩
      rintro ⟨v,hv,htaken⟩
      obtain ⟨hid,hfile⟩ := hfresh v hv
      exact htaken.elim hid hfile
  next => cases hn

/-- The rows that are there with the name of a call are the call's own. -/
theorem Sound.own (h : s.Sound) (hsave : save ∈ s.saves) {v : Avatar} (hv : v ∈ s.db.avatars)
    (hname : save.fileName = some v.name) :
    ∃ attempt ∈ save.attempts, attempt.isCommitted ∧ attempt.name? = some v.name := by
  obtain ⟨other,ho,attempt,ha,hcommitted,hasks⟩ := h.rows v hv
  have hother := h.asked other ho attempt ha v.name hasks
  obtain rfl := h.eq_of_fileName ho hsave (hother.trans hname.symm)
  exact ⟨attempt,ha,hcommitted,hasks⟩

/-- An object is removed in time if and only if no row of it is left. -/
theorem sound_remove (h : s.Sound) {deleted : Bool} {failure : Option String}
    (hn : s.next c retries (.remove i deleted failure) = some t) :
    t.Sound ∧ (s.Backed → (t.Backed ↔ s.Paired (.remove i deleted failure))) := by
  obtain ⟨save,hi,hn⟩ := Option.bind_eq_some_iff.mp hn
  have hsave := List.mem_of_getElem? hi
  obtain ⟨-,hn⟩ := Option.ite_none_right_eq_some.mp hn
  obtain ⟨save',after,hi',hstep,rfl⟩ := onSave_eq_some hn
  obtain rfl := Option.some.inj (hi.symm.trans hi')
  obtain ⟨hm,hfin⟩ := Save.removed_moves hstep
  have hothers : ∀ path ∈ s.bucket, path ≠ save.path →
      path ∈ if deleted then s.bucket.filter (fun path => path ≠ save.path) else s.bucket := by
    intro path hp hne
    split
    · exact List.mem_filter.mpr ⟨hp,by simpa using hne⟩
    · exact hp
  refine ⟨h.set hi hm.path s.db _ (fun attempt ha name hname => ?_)
    (fun attempt ha _ => hm.kept attempt ha) (fun v hv => .inl ⟨v,hv,rfl⟩) (fun v hv => ⟨v,hv,rfl⟩)
    (fun attempt ha hcommitted => .inl ?_) hothers (fun hactive => ?_),fun hb =>
    (h.backed_set_iff hb hi hm.path s.db _ (fun v hv _ => .inl hv) hothers).trans ?_⟩
  · obtain ha | rfl := hm.new attempt ha
    · exact h.asked save hsave attempt ha name hname
    · cases hname
  · obtain ha | rfl := hm.new attempt ha
    · exact ha
    · cases hcommitted
  · rw [hfin] at hactive
    cases hactive
  · cases deleted with
    | false => exact iff_of_true (fun _ _ _ _ _ => h.objects save hsave hm.active) nofun
    | true =>
      simp only [Paired,hi,if_true,forall_const,Option.mem_some_iff,forall_eq',hfin,List.mem_filter,
        ne_eq,not_true_eq_false,decide_false,Bool.false_eq_true,and_false,imp_false]
      constructor
      · intro hgone attempt ha hcommitted v hv hasks hlive
        exact hgone v hv hlive (h.asked save hsave attempt ha v.name hasks)
      · intro hpaired v hv hlive hname
        obtain ⟨attempt,ha,hcommitted,hasks⟩ := h.own hsave hv hname
        exact hpaired attempt ha hcommitted v hv hasks hlive

theorem sound_write (h : s.Sound) {w : UsersWrite} (hn : s.next c retries (.write w) = some t) :
    t.Sound ∧ (s.Backed → t.Backed) := by
  simp only [next] at hn
  split_ifs at hn with hcreate
  cases hw : s.db.write c s.now w with
  | error e =>
    simp only [hw,Option.some.injEq] at hn
    exact hn ▸ ⟨h,id⟩
  | ok db =>
    simp only [hw,Option.some.injEq] at hn
    subst hn
    obtain ⟨kind,hchange,-,huploads⟩ := UsersDb.change_of_write hw
    obtain ⟨marked,now,havatars⟩ := hchange.avatars fun hkind => hcreate (huploads.mp hkind)
    refine ⟨⟨h.names,h.asked,fun v hv => ?_,fun save hs attempt ha hcommitted => ?_,h.objects⟩,
      fun hb save hs hfin v hv hlive hname => ?_⟩
    · rw [havatars] at hv
      obtain ⟨old,hold,rfl⟩ := List.mem_map.mp hv
      simpa using h.rows old hold
    · obtain ⟨v,hv,hname⟩ := h.stored save hs attempt ha hcommitted
      exact ⟨v.mark marked now,havatars ▸ List.mem_map_of_mem hv,by simpa using hname⟩
    · rw [havatars] at hv
      obtain ⟨old,hold,rfl⟩ := List.mem_map.mp hv
      have hsame := old.mark_live marked now hlive
      rw [hsame] at hlive hname
      exact hb save hs hfin old hold hlive hname

theorem sound_upload (h : s.Sound) {accountId path : String}
    (hn : s.next c retries (.upload accountId path) = some t) :
    t.Sound ∧ (s.Backed → t.Backed) := by
  simp only [next] at hn
  split_ifs at hn with htaken
  simp only [Option.some.injEq] at hn
  subst hn
  have hsplit : ∀ x ∈ s.saves++[⟨accountId,path,[.sent],.waiting 0⟩],
      x ∈ s.saves ∨ x = ⟨accountId,path,[.sent],.waiting 0⟩ := fun x hx =>
    List.mem_append.mp hx |>.imp_right List.mem_singleton.mp
  refine ⟨⟨?_,fun x hx => ?_,fun v hv => ?_,fun x hx => ?_,fun x hx => ?_⟩,
    fun hb x hx hfin v hv hlive hname => ?_⟩
  · simp only [List.map_append,List.map_cons,List.map_nil,List.nodup_append]
    refine ⟨h.names,by simp,fun name hname other hother => ?_⟩
    obtain ⟨x,hx,rfl⟩ := List.mem_map.mp hname
    obtain rfl := List.mem_singleton.mp hother
    exact fun heq => htaken (List.any_eq_true.mpr ⟨x,hx,decide_eq_true heq⟩)
  · obtain hx | rfl := hsplit x hx
    · exact h.asked x hx
    · simp [Attempt.name?]
  · obtain ⟨x,hx,hrow⟩ := h.rows v hv
    exact ⟨x,by simp [hx],hrow⟩
  · obtain hx | rfl := hsplit x hx
    · exact h.stored x hx
    · simp [Attempt.isCommitted]
  · obtain hx | rfl := hsplit x hx
    · exact fun hfin => List.mem_cons_of_mem _ (h.objects x hx hfin)
    · exact fun _ => List.mem_cons_self
  · obtain hx | rfl := hsplit x hx
    · exact List.mem_cons_of_mem _ (hb x hx hfin v hv hlive hname)
    · cases hfin

/-- What a step keeps, and when it leaves the rows with their objects. -/
theorem next_spec (h : s.Sound) {a : AvatarAction} (hn : s.next c retries a = some t) :
    t.Sound ∧ (s.Backed → (t.Backed ↔ s.Paired a)) := by
  have htrivial : s.Paired a → (t.Sound ∧ (s.Backed → t.Backed)) →
      t.Sound ∧ (s.Backed → (t.Backed ↔ s.Paired a)) :=
    fun hp hkeep => ⟨hkeep.1,fun hb => iff_of_true (hkeep.2 hb) hp⟩
  cases a with
  | wait ms =>
    cases hn
    exact htrivial trivial ⟨⟨h.names,h.asked,h.rows,h.stored,h.objects⟩,id⟩
  | write w => exact htrivial trivial (sound_write h hn)
  | upload accountId path => exact htrivial trivial (sound_upload h hn)
  | check i k => exact htrivial trivial (sound_check h hn)
  | insert i k id => exact sound_insert h hn
  | answer i =>
    obtain ⟨save,after,hi,hstep,rfl⟩ := onSave_eq_some hn
    exact htrivial trivial (h.moves hi (Save.answer_moves hstep))
  | lose i err =>
    obtain ⟨save,after,hi,hstep,rfl⟩ := onSave_eq_some hn
    exact htrivial trivial (h.moves hi (Save.lose_moves hstep))
  | resend i =>
    obtain ⟨save,after,hi,hstep,rfl⟩ := onSave_eq_some hn
    exact htrivial trivial (h.moves hi (Save.resend_moves hstep))
  | remove i deleted failure => exact sound_remove h hn

/-- All states of a run have an object for each row of a finished call if and only if no step of it
parts a row from its object. -/
theorem rows_are_backed_iff {actions : List AvatarAction}
    (hr : runs (next c retries) initial actions = some s) :
    (∀ before, before <+: actions → ∀ t, runs (next c retries) initial before = some t → t.Backed) ↔
      Along (next c retries) Paired initial actions :=
  (along_iff_safe (fun _ _ _ h hn => (next_spec h hn).1) (fun _ _ _ h hb hn => (next_spec h hn).2 hb)
    sound_initial nofun hr).symm

/-- Bob has a profile. -/
def bobsProfile : List AvatarAction :=
  [.write (.register "bob@mail.ru" "bob" "hash" UsersState.bob),
    .write (.createProfile UsersState.bob.text "Bob" "Brown" 30 ""
      ⟨"00000000-0000-7000-8000-0000000000f1",by decide⟩)]

/-- Of two pictures one is saved, and the other one's request is lost time and again. -/
def savedAndLost : List AvatarAction := bobsProfile++
  [.upload UsersState.bob.text "avatars/a.png",.upload UsersState.bob.text "avatars/b.png",
    .check 0 0,.lose 1 .timeout,.insert 0 0 ⟨"00000000-0000-7000-8000-0000000000e1",by decide⟩,
    .answer 0,.resend 1,.lose 1 .timeout,.resend 1,.lose 1 .timeout,.remove 1 true none]

theorem rows_are_backed_despite_losses :
    ∃ s, runs (next ⟨5,30000,containsInsensitive⟩ 2) initial savedAndLost = some s ∧
      ∀ before, before <+: savedAndLost →
        ∀ t, runs (next ⟨5,30000,containsInsensitive⟩ 2) initial before = some t → t.Backed := by
  obtain ⟨s,hs⟩ := Option.isSome_iff_exists.mp (show (runs (next ⟨5,30000,containsInsensitive⟩ 2) initial
    savedAndLost).isSome = true by decide +kernel)
  exact ⟨s,hs,(rows_are_backed_iff hs).mpr (by decide +kernel)⟩

/-- The row is committed and the response is lost. The next attempts are refused for the name of their
own row, and the object of the row is removed. -/
def lostResponse : List AvatarAction := bobsProfile++
  [.upload UsersState.bob.text "avatars/a.png",.check 0 0,
    .insert 0 0 ⟨"00000000-0000-7000-8000-0000000000e1",by decide⟩,.lose 0 .timeout,.resend 0,
    .check 0 1,.insert 0 1 ⟨"00000000-0000-7000-8000-0000000000e2",by decide⟩,.answer 0,.resend 0,
    .check 0 2,.insert 0 2 ⟨"00000000-0000-7000-8000-0000000000e3",by decide⟩,.answer 0,
    .remove 0 true none]

theorem lost_response_removes_object :
    ∃ s ∈ runs (next ⟨5,30000,containsInsensitive⟩ 2) initial lostResponse, ¬s.Backed := by
  decide +kernel

end AvatarFiles
end NestHomework.FileService
