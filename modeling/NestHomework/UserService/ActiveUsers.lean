import NestHomework.Shared.Relational
import NestHomework.Shared.Ties
import NestHomework.UserService.SoftDelete

/-! The query of `findActive`, clause by clause, and what it is for: the users of an age who have a
description and more than two avatars. -/
namespace NestHomework.UserService
open Postgres Shared

namespace UsersDb
variable (db : UsersDb)

/-- The avatars of a profile that are not deleted. -/
def liveOf (p : Profile) : List Avatar :=
  db.avatars.filter (fun v => v.profileId = p.id && v.deletedAt.isNone)

end UsersDb

/-- A row of the joined tables, with the avatar of the subquery and its number. -/
abbrev JoinedRow := ((StoredAccount × Profile) × Avatar) × Option (Avatar × ℕ)

namespace UsersRepository
variable (db : UsersDb) (order : List Avatar) (minAge maxAge : ℤ)

/-- The subquery `last_avatar`. Its rows come by `created_at DESC`, in which avatars of one moment come
in any order. -/
def IsLastAvatarOrder : Prop :=
  Sorts (fun v => OrderDual.toDual v.createdAt) (db.avatars.filter (fun v => v.deletedAt.isNone)) order

def lastAvatar : List (Avatar × ℕ) := rowNumbers (fun v => v.profileId) order []

/-- `FROM accounts JOIN profiles` -/
def profiles : List (StoredAccount × Profile) :=
  join (fun a p => p.accountId = a.id) db.accounts db.profiles

def joined : List JoinedRow :=
  leftJoin (fun r v => v.1.profileId = r.1.2.id && v.2 = 1)
    (join (fun r v => v.profileId = r.2.id) (profiles db) db.avatars) (lastAvatar order)

/-- `WHERE`. The column `description` has no nulls, so that `IS NOT NULL` holds of every row. -/
def condition (r : JoinedRow) : Bool :=
  (minAge ≤ r.1.1.2.age && r.1.1.2.age ≤ maxAge) && r.1.2.deletedAt.isNone

/-- What `GROUP BY` goes by. -/
def groupKey (r : JoinedRow) : UuidString × UuidString × Option String :=
  (r.1.1.1.id,r.1.1.2.id,r.2.map (·.1.name))

/-- `SELECT` -/
def activeUser (a : StoredAccount) (p : Profile) (lastLoadedAvatar : Option String) :
    ActiveUserResponse :=
  ⟨a.id,a.username,a.email,a.createdAt,p.id,p.firstName,p.lastName,p.age,p.description,
    lastLoadedAvatar⟩

def findActiveOf : List ActiveUserResponse :=
  ((groupBy groupKey ((joined db order).filter (condition minAge maxAge))).filter
    (fun g => g.length > 2)).filterMap fun g =>
      g.head?.map fun r => activeUser r.1.1.1 r.1.1.2 (r.2.map (·.1.name))

end UsersRepository

namespace UsersDb
variable (db : UsersDb) (minAge maxAge : ℤ)

/-- A profile of somebody of the age who has more than two avatars. -/
def Shows (p : Profile) : Prop := minAge ≤ p.age ∧ p.age ≤ maxAge ∧ 2 < (db.liveOf p).length

instance (p : Profile) : Decidable (db.Shows minAge maxAge p) :=
  inferInstanceAs (Decidable (_ ∧ _ ∧ _))

/-- Somebody of the age who has a description and more than two avatars. -/
def Active (a : StoredAccount) : Prop :=
  ∃ p ∈ db.profiles, p.accountId = a.id ∧ db.Shows minAge maxAge p ∧ p.description ≠ ""

instance (a : StoredAccount) : Decidable (db.Active minAge maxAge a) :=
  inferInstanceAs (Decidable (∃ p ∈ db.profiles, _))

/-- What `findActive` is for: each active account once, with its profile and the newest of its avatars
that are not deleted. -/
structure FindsActive (users : List ActiveUserResponse) : Prop where
  accounts : (users.map (·.accountId)).Perm
    ((db.accounts.filter (db.Active minAge maxAge)).map (·.id))
  newest : ∀ u ∈ users, ∃ a ∈ db.accounts, ∃ p ∈ db.profiles, p.accountId = a.id ∧
    ∃ v ∈ db.liveOf p, u = UsersRepository.activeUser a p (some v.name) ∧
      ∀ w ∈ db.liveOf p, w.createdAt ≤ v.createdAt

end UsersDb

namespace UsersRepository
variable {db : UsersDb} {order : List Avatar} {minAge maxAge : ℤ}

/-- The avatar that the subquery joins to a profile. -/
def newest (order : List Avatar) (p : Profile) : Option Avatar :=
  order.find? (fun v => v.profileId = p.id)

theorem filter_lastAvatar (order : List Avatar) (p : Profile) :
    (lastAvatar order).filter (fun v => v.1.profileId = p.id && v.2 = 1) =
      ((newest order p).map (·,1)).toList := by
  rw [lastAvatar,filter_rowNumbers,if_neg List.not_mem_nil]
  rfl

/-- The rows of a profile after `WHERE`. -/
def block (db : UsersDb) (order : List Avatar) (minAge maxAge : ℤ) (r : StoredAccount × Profile) :
    List JoinedRow :=
  ((db.avatars.filter (fun v => v.profileId = r.2.id)).map
    fun v => ((r,v),(newest order r.2).map (·,1))).filter (condition minAge maxAge)

theorem filter_joined (db : UsersDb) (order : List Avatar) (minAge maxAge : ℤ) :
    (joined db order).filter (condition minAge maxAge) =
      (profiles db).flatMap (block db order minAge maxAge) := by
  unfold joined
  rw [leftJoin_of_unique (fun r => (newest order r.1.2).map (·,1))
    fun r _ => filter_lastAvatar order r.1.2]
  simp only [join,List.map_flatMap,List.filter_flatMap,List.map_map]
  rfl

theorem length_block (db : UsersDb) (order : List Avatar) (minAge maxAge : ℤ)
    (r : StoredAccount × Profile) : (block db order minAge maxAge r).length =
      if minAge ≤ r.2.age ∧ r.2.age ≤ maxAge then (db.liveOf r.2).length else 0 := by
  unfold block
  rw [List.filter_map,List.length_map,List.filter_filter]
  by_cases hage : minAge ≤ r.2.age ∧ r.2.age ≤ maxAge
  · rw [if_pos hage,UsersDb.liveOf]
    congr 1
    refine List.filter_congr fun v _ => ?_
    simp [condition,hage,Bool.and_comm]
  · rw [if_neg hage,List.length_eq_zero_iff,List.filter_eq_nil_iff]
    intro v _ hv
    simp only [condition,Function.comp_apply,Bool.and_eq_true,decide_eq_true_eq] at hv
    exact hage hv.1.1

/-- `HAVING` -/
theorem length_block_iff (order : List Avatar) {r : StoredAccount × Profile} :
    (block db order minAge maxAge r).length > 2 ↔ db.Shows minAge maxAge r.2 := by
  rw [length_block,UsersDb.Shows,← and_assoc]
  by_cases hage : minAge ≤ r.2.age ∧ r.2.age ≤ maxAge
  · simp only [hage,if_true,and_self,true_and,gt_iff_lt]
  · simp only [hage,if_false,false_and,gt_iff_lt,Nat.not_lt_zero]

theorem profiles_eq (hc : db.Consistent) : profiles db = db.accounts.filterMap fun a =>
    (db.profiles.find? (fun p => p.accountId = a.id)).map (a,·) := by
  rw [List.filterMap_eq_flatMap_toList,profiles,join]
  congr 1
  funext a
  rw [filter_key_eq_toList hc.owners a.id]
  cases db.profiles.find? (fun p => p.accountId = a.id) <;> rfl

/-- An account comes with one profile at most. -/
theorem nodup_profiles (hc : db.Consistent) : ((profiles db).map (·.1.id)).Nodup := by
  have hids : db.accounts.Pairwise (fun a b => a.id ≠ b.id) := List.pairwise_map.mp hc.accounts
  rw [profiles_eq hc,List.Nodup,List.pairwise_map,List.pairwise_filterMap]
  refine hids.imp fun hne r hr r' hr' => ?_
  obtain ⟨p,-,rfl⟩ := Option.map_eq_some_iff.mp hr
  obtain ⟨p',-,rfl⟩ := Option.map_eq_some_iff.mp hr'
  exact hne

/-- The query shows a user for each profile of the age with more than two avatars: the joins multiply
nothing, and every profile is one group. -/
theorem findActiveOf_eq (hc : db.Consistent) (order : List Avatar) (minAge maxAge : ℤ) :
    findActiveOf db order minAge maxAge =
      ((profiles db).filter (fun r => db.Shows minAge maxAge r.2)).map
        fun r => activeUser r.1 r.2 ((newest order r.2).map (·.name)) := by
  have hkeys : ((profiles db).map fun r =>
      (r.1.id,r.2.id,((newest order r.2).map fun v => (v,1)).map (·.1.name))).Nodup := by
    refine List.Nodup.of_map (·.1) ?_
    rw [List.map_map]
    exact nodup_profiles hc
  have hblock : ∀ r ∈ profiles db, ∀ row ∈ block db order minAge maxAge r,
      row.1.1 = r ∧ row.2 = (newest order r.2).map (·,1) := by
    intro r _ row hrow
    obtain ⟨v,-,rfl⟩ := List.mem_map.mp (List.mem_of_mem_filter hrow)
    exact ⟨rfl,rfl⟩
  have hgroups : groupBy groupKey ((profiles db).flatMap (block db order minAge maxAge)) =
      ((profiles db).map (block db order minAge maxAge)).filter (fun g => !g.isEmpty) :=
    groupBy_flatMap hkeys fun r hr row hrow => by
      obtain ⟨hpair,hlast⟩ := hblock r hr row hrow
      rw [groupKey,hpair,hlast]
  have hlong : ∀ r : StoredAccount × Profile, (decide ((block db order minAge maxAge r).length > 2) &&
      !(block db order minAge maxAge r).isEmpty) = decide (db.Shows minAge maxAge r.2) := by
    intro r
    rw [Bool.eq_iff_iff]
    simp only [Bool.and_eq_true,decide_eq_true_eq,Bool.not_eq_true',List.isEmpty_eq_false_iff]
    rw [← length_block_iff order]
    exact and_iff_left_of_imp fun hlong => List.ne_nil_of_length_pos (Nat.zero_lt_of_lt hlong)
  have hfirst : ∀ r ∈ (profiles db).filter (fun r => db.Shows minAge maxAge r.2),
      ((block db order minAge maxAge r).head?.map fun r =>
        activeUser r.1.1.1 r.1.1.2 (r.2.map (·.1.name))) =
        some (activeUser r.1 r.2 ((newest order r.2).map (·.name))) := by
    intro r hr
    obtain ⟨hmem,hshows⟩ := List.mem_filter.mp hr
    have hlong := length_block_iff order |>.mpr (of_decide_eq_true hshows)
    obtain ⟨row,hrow⟩ := Option.isSome_iff_exists.mp
      (List.isSome_head?.mpr (List.ne_nil_of_length_pos (Nat.zero_lt_of_lt hlong)))
    obtain ⟨hpair,hlast⟩ := hblock r hmem row (List.mem_of_head? hrow)
    rw [hrow,Option.map_some,hpair,hlast,Option.map_map]
    rfl
  unfold findActiveOf
  rw [filter_joined,hgroups,List.filter_filter,List.filter_map,List.filterMap_map]
  simp only [Function.comp_def,hlong]
  rw [List.filterMap_congr hfirst,List.filterMap_eq_map']

section Newest
variable {p : Profile}

/-- What stands before the joined avatar is of other profiles. -/
theorem newest_eq_some {v : Avatar} : newest order p = some v ↔
    v.profileId = p.id ∧ ∃ before behind, order = before++v::behind ∧
      ∀ w ∈ before, w.profileId ≠ p.id := by
  simp [newest,List.find?_eq_some_iff_append]

theorem mem_of_isLastAvatarOrder (horder : IsLastAvatarOrder db order) {v : Avatar} :
    v ∈ order ∧ v.profileId = p.id ↔ v ∈ db.liveOf p := by
  rw [horder.1.mem_iff,UsersDb.liveOf,List.mem_filter,List.mem_filter,Bool.and_eq_true,
    decide_eq_true_eq,and_assoc,and_comm (a := v.profileId = p.id)]

/-- A profile with avatars comes with a newest one. -/
theorem exists_newest (horder : IsLastAvatarOrder db order) (hlive : 0 < (db.liveOf p).length) :
    ∃ v ∈ db.liveOf p, newest order p = some v ∧ ∀ w ∈ db.liveOf p, w.createdAt ≤ v.createdAt := by
  obtain ⟨x,hx⟩ := List.exists_mem_of_length_pos hlive
  obtain ⟨hmem,hprofile⟩ := (mem_of_isLastAvatarOrder horder).mpr hx
  obtain ⟨v,hv⟩ := Option.isSome_iff_exists.mp (List.find?_isSome.mpr
    ⟨x,hmem,decide_eq_true hprofile⟩ : (newest order p).isSome)
  obtain ⟨hvp,before,behind,hsplit,hbefore⟩ := newest_eq_some.mp hv
  have hvmem : v ∈ order := by simp [hsplit]
  refine ⟨v,(mem_of_isLastAvatarOrder horder).mp ⟨hvmem,hvp⟩,hv,fun w hw => ?_⟩
  obtain ⟨hwmem,hwp⟩ := (mem_of_isLastAvatarOrder horder).mpr hw
  have hsorted := horder.2
  rw [hsplit,List.pairwise_append] at hsorted
  rw [hsplit,List.mem_append,List.mem_cons] at hwmem
  obtain hw | rfl | hw := hwmem
  · exact absurd hwp (hbefore w hw)
  · exact le_rfl
  · exact List.rel_of_pairwise_cons hsorted.2.1 hw

end Newest

theorem mem_profiles {r : StoredAccount × Profile} : r ∈ profiles db ↔
    r.1 ∈ db.accounts ∧ r.2 ∈ db.profiles ∧ r.2.accountId = r.1.id := by
  simp only [profiles,join,List.mem_flatMap,List.mem_map,List.mem_filter,decide_eq_true_eq]
  constructor
  · rintro ⟨a,ha,p,⟨hp,howner⟩,rfl⟩
    exact ⟨ha,hp,howner⟩
  · rintro ⟨ha,hp,howner⟩
    exact ⟨r.1,ha,r.2,⟨hp,howner⟩,rfl⟩

theorem accountIds (hc : db.Consistent) :
    (findActiveOf db order minAge maxAge).map (·.accountId) =
      ((profiles db).filter (fun r => db.Shows minAge maxAge r.2)).map (·.1.id) := by
  rw [findActiveOf_eq hc,List.map_map]
  rfl

/-- The query finds the active users when every profile that it shows has a description. -/
theorem findsActive_iff (hc : db.Consistent) (horder : IsLastAvatarOrder db order) :
    db.FindsActive minAge maxAge (findActiveOf db order minAge maxAge) ↔
      ∀ p ∈ db.profiles, db.Shows minAge maxAge p → p.description ≠ "" := by
  constructor
  · intro h p hp hshows
    obtain ⟨a,ha,howner⟩ := hc.account_of p hp
    have hids := h.accounts
    rw [accountIds hc] at hids
    have hshown : a.id ∈ ((profiles db).filter (fun r => db.Shows minAge maxAge r.2)).map (·.1.id) :=
      List.mem_map.mpr ⟨(a,p),List.mem_filter.mpr
        ⟨mem_profiles.mpr ⟨ha,hp,howner.symm⟩,decide_eq_true hshows⟩,rfl⟩
    obtain ⟨b,hb,hsame⟩ := List.mem_map.mp (hids.mem_iff.mp hshown)
    obtain ⟨p',hp',howner',-,hdescription⟩ := of_decide_eq_true (List.mem_filter.mp hb).2
    rw [← List.inj_on_of_nodup_map hc.owners hp' hp (howner'.trans (hsame.trans howner))]
    exact hdescription
  · intro hdescription
    constructor
    · rw [accountIds hc]
      have hfound : (((profiles db).filter (fun r => db.Shows minAge maxAge r.2)).map
          (·.1.id)).Nodup := (nodup_profiles hc).sublist (List.filter_sublist.map _)
      have hactive : ((db.accounts.filter (db.Active minAge maxAge)).map (·.id)).Nodup :=
        hc.accounts.sublist (List.filter_sublist.map _)
      refine (List.perm_ext_iff_of_nodup hfound hactive).mpr fun id => ?_
      simp only [List.mem_map,List.mem_filter,decide_eq_true_eq]
      constructor
      · rintro ⟨r,⟨hr,hshows⟩,rfl⟩
        obtain ⟨ha,hp,howner⟩ := mem_profiles.mp hr
        exact ⟨r.1,⟨ha,r.2,hp,howner,hshows,hdescription r.2 hp hshows⟩,rfl⟩
      · rintro ⟨a,⟨ha,p,hp,howner,hshows,-⟩,rfl⟩
        exact ⟨(a,p),⟨mem_profiles.mpr ⟨ha,hp,howner⟩,hshows⟩,rfl⟩
    · intro u hu
      rw [findActiveOf_eq hc] at hu
      obtain ⟨r,hr,rfl⟩ := List.mem_map.mp hu
      obtain ⟨hmem,hshows⟩ := List.mem_filter.mp hr
      obtain ⟨ha,hp,howner⟩ := mem_profiles.mp hmem
      have hlive := (of_decide_eq_true hshows).2.2
      obtain ⟨v,hv,hnewest,hlast⟩ := exists_newest (p := r.2) horder (by omega)
      exact ⟨r.1,ha,r.2,hp,howner,v,hv,by rw [hnewest]; rfl,hlast⟩

/-- `findActive` of the tables gives one of the answers of the query. -/
theorem exists_order_findActive (hc : db.Consistent) (minAge maxAge : ℕ) : ∃ order,
    IsLastAvatarOrder db order ∧ findActiveOf db order minAge maxAge = findActive db minAge maxAge := by
  let chosen (v : Avatar) : Bool := (db.avatars.filter
    (fun w => w.profileId = v.profileId && w.deletedAt.isNone)).argmax (·.createdAt) = some v
  obtain ⟨order,horder,hfirst⟩ := exists_sorts_first (fun v : Avatar => OrderDual.toDual v.createdAt)
    chosen (db.avatars.filter (fun v => v.deletedAt.isNone))
  have hnewest : ∀ p, newest order p = (db.liveOf p).argmax (·.createdAt) := by
    intro p
    cases hlive : (db.liveOf p).argmax (·.createdAt) with
    | none =>
      have hnone : db.liveOf p = [] := List.argmax_eq_none.mp hlive
      refine List.find?_eq_none.mpr fun v hv hprofile => ?_
      have hmem := (mem_of_isLastAvatarOrder horder).mp ⟨hv,of_decide_eq_true hprofile⟩
      rw [hnone] at hmem
      exact List.not_mem_nil hmem
    | some m =>
      have hm := List.argmax_mem hlive
      obtain ⟨v,hv,hsome,hlast⟩ := exists_newest horder (List.length_pos_of_mem hm)
      obtain ⟨hvp,before,behind,hsplit,hbefore⟩ := newest_eq_some.mp hsome
      obtain ⟨hmmem,hmp⟩ := (mem_of_isLastAvatarOrder horder).mpr hm
      have hchosen : ∀ w, w.profileId = p.id → (chosen w ↔ m = w) := fun w hw => by
        simp only [chosen,hw,decide_eq_true_eq]
        rw [← UsersDb.liveOf,hlive,Option.some.injEq]
      rw [hsome,Option.some.injEq]
      rw [hsplit,List.mem_append,List.mem_cons] at hmmem
      obtain hbad | rfl | hmmem := hmmem
      · exact absurd hmp (hbefore m hbad)
      · rfl
      · have hsame : v.createdAt = m.createdAt :=
          le_antisymm (List.le_of_mem_argmax hv hlive) (hlast m hm)
        rw [hsplit,List.pairwise_append] at hfirst
        have hv' := List.rel_of_pairwise_cons hfirst.2.1 hmmem (congrArg _ hsame)
          ((hchosen m hmp).mpr rfl)
        exact ((hchosen v hvp).mp hv').symm
  refine ⟨order,horder,?_⟩
  rw [findActiveOf_eq hc,profiles,join,findActive,List.filter_flatMap,List.map_flatMap]
  congr 1
  funext a
  rw [List.filter_map,List.map_map,← List.filterMap_eq_map,List.filterMap_filter]
  refine List.filterMap_congr fun p _ => ?_
  simp only [Function.comp_apply,hnewest,UsersDb.Shows,decide_eq_true_eq,Nat.cast_le]
  rfl

/-- Whatever calls came before, the query finds the active users, if and only if nobody of the age with
more than two avatars has left the description empty. -/
theorem find_active_iff (c : UsersConfig) (calls : List UsersCall) (minAge maxAge : ℤ) :
    (∀ order, IsLastAvatarOrder (UsersState.after c calls).db order →
      (UsersState.after c calls).db.FindsActive minAge maxAge
        (findActiveOf (UsersState.after c calls).db order minAge maxAge)) ↔
    ∀ p ∈ (UsersState.after c calls).db.profiles,
      (UsersState.after c calls).db.Shows minAge maxAge p → p.description ≠ "" := by
  have hc := (UsersState.kept_after (c := c) calls).consistent
  constructor
  · intro h
    obtain ⟨order,horder⟩ := exists_sorts (fun v : Avatar => OrderDual.toDual v.createdAt)
      ((UsersState.after c calls).db.avatars.filter (fun v => v.deletedAt.isNone))
    exact (findsActive_iff hc horder).mp (h order horder)
  · exact fun hdescription order horder => (findsActive_iff hc horder).mpr hdescription

section Silent

/-- Bob leaves the description empty and has three avatars. -/
def silentBob : List UsersCall :=
  [.write (.register "bob@mail.ru" "bob" "hash" UsersState.bob),
    .write (.createProfile UsersState.bob.text "Bob" "Brown" 30 ""
      ⟨"00000000-0000-7000-8000-000000000080",by decide⟩),
    .write (.createAvatar UsersState.bob.text "avatars/face.png"
      ⟨"00000000-0000-7000-8000-000000000081",by decide⟩),.wait 5,
    .write (.createAvatar UsersState.bob.text "avatars/smile.png"
      ⟨"00000000-0000-7000-8000-000000000082",by decide⟩),.wait 5,
    .write (.createAvatar UsersState.bob.text "avatars/wink.png"
      ⟨"00000000-0000-7000-8000-000000000083",by decide⟩)]

def silentDb : UsersDb :=
  ⟨[⟨⟨UsersState.bob,"bob","bob@mail.ru","hash",.user,false,none⟩,0⟩],
    [⟨⟨"00000000-0000-7000-8000-000000000080",by decide⟩,"Bob","Brown",30,"",UsersState.bob⟩],
    [⟨⟨"00000000-0000-7000-8000-000000000081",by decide⟩,"face.png",
        ⟨"00000000-0000-7000-8000-000000000080",by decide⟩,0,none⟩,
      ⟨⟨"00000000-0000-7000-8000-000000000082",by decide⟩,"smile.png",
        ⟨"00000000-0000-7000-8000-000000000080",by decide⟩,5,none⟩,
      ⟨⟨"00000000-0000-7000-8000-000000000083",by decide⟩,"wink.png",
        ⟨"00000000-0000-7000-8000-000000000080",by decide⟩,10,none⟩]⟩

theorem silent_bob_is_found :
    (UsersState.after ⟨5,30000,containsInsensitive⟩ silentBob).db = silentDb ∧
      IsLastAvatarOrder silentDb silentDb.avatars.reverse ∧
      (findActiveOf silentDb silentDb.avatars.reverse 18 60).map
        (fun u => (u.username,u.lastLoadedAvatar)) = [("bob",some "wink.png")] ∧
      ¬silentDb.FindsActive 18 60 (findActiveOf silentDb silentDb.avatars.reverse 18 60) := by
  have horder : IsLastAvatarOrder silentDb silentDb.avatars.reverse := by
    unfold IsLastAvatarOrder
    decide +kernel
  have hfound : (findActiveOf silentDb silentDb.avatars.reverse 18 60).map
      (fun u => (u.username,u.lastLoadedAvatar)) = [("bob",some "wink.png")] := by decide +kernel
  have hnobody : silentDb.accounts.filter (silentDb.Active 18 60) = [] := by decide +kernel
  refine ⟨by decide +kernel,horder,hfound,fun h => ?_⟩
  have hlen := h.accounts.length_eq
  rw [hnobody,List.length_map] at hlen
  have hone := congrArg List.length hfound
  rw [List.length_map,hlen] at hone
  exact absurd hone (by decide)

end Silent
end UsersRepository
end NestHomework.UserService
