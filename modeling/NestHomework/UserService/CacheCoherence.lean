import NestHomework.Transition.Run
import NestHomework.UserService.Users

/-! Calls of `findAll` among writers and their invalidations, one access to the database or to Redis
at a time. A page is stamped with the number of writes it has seen. -/
namespace NestHomework.UserService
open Redis Transition

structure CachedPage where
  page : FindAllUsersResponse
  version : ℕ
  deriving DecidableEq

/-- How far `handleUsersInvalidate` is. A scan owes the keys that have existed ever since it began
and that it has not returned, and after its last reply it owes nothing. -/
inductive Invalidation where
  | waiting
  | scanning (owed : List String)
  | deleting (keys : List String) (owed : Option (List String))
  | done
  deriving DecidableEq

/-- The next access of a call of `findAll`, or how the call has ended. -/
inductive ReadStage where
  | admitting
  | getting
  | reading
  | setting (page : CachedPage)
  | expiring (page : CachedPage)
  | answered (page : CachedPage)
  | failed (error : AuthError)
  deriving DecidableEq

/-- A call of `findAll`, with the invalidations as they were when it began. -/
structure UsersRead where
  request : FindAllUsersRequest
  started : List Invalidation
  stage : ReadStage

/-- The tables, Redis with the keys that were ever written, the clock, one invalidation for each
write that was committed, and the calls of `findAll`. -/
structure UsersCache where
  db : UsersDb
  cache : Store String CachedPage
  written : List String
  now : ℕ
  invalidations : List Invalidation
  reads : List UsersRead

/-- `commit` brings the tables into whatever state, `read` is the next access of a call, and `scan` is
a reply to the writer `w`. -/
inductive CacheAction where
  | wait (ms : ℕ)
  | commit (db : UsersDb)
  | start (request : FindAllUsersRequest)
  | read (i : ℕ)
  | scan (w : ℕ) (keys : List String) (last : Bool)
  | del (w : ℕ)

def FindAllUsersRequest.key (r : FindAllUsersRequest) : String :=
  CacheService.usersKey r.username r.cursor (r.limit.getD 10)

namespace Invalidation

/-- A scan owes nothing that is gone. -/
def prune (alive : String → Bool) : Invalidation → Invalidation
  | waiting => waiting
  | scanning owed => scanning (owed.filter alive)
  | deleting keys owed => deleting keys (owed.map (·.filter alive))
  | done => done

/-- The loop after a reply: it deletes what it was given, and it ends with the last reply. -/
def reply (owed keys : List String) (last : Bool) : Option Invalidation :=
  let rest := owed.filter (fun k => k ∉ keys)
  if last && !rest.isEmpty then none
  else if keys.isEmpty then some (if last then done else scanning rest)
  else some (deleting keys (if last then none else some rest))

/-- The key is still to be deleted. -/
def Owes (key : String) : Invalidation → Prop
  | waiting => True
  | scanning owed => key ∈ owed
  | deleting keys owed => key ∈ keys ∨ ∃ rest ∈ owed, key ∈ rest
  | done => False

instance (key : String) : ∀ inv : Invalidation, Decidable (inv.Owes key)
  | waiting => .isTrue trivial
  | scanning owed => inferInstanceAs (Decidable (key ∈ owed))
  | deleting keys owed => inferInstanceAs (Decidable (key ∈ keys ∨ ∃ rest ∈ owed, key ∈ rest))
  | done => .isFalse id

end Invalidation

namespace ReadStage

/-- The page that a call has answered with. -/
def answer? : ReadStage → Option CachedPage
  | answered page => some page
  | _ => none

/-- The page that goes into the cache next. -/
def toCache? : ReadStage → Option CachedPage
  | setting page => some page
  | _ => none

end ReadStage

/-- The invalidations of the writes that are newer than the page. -/
def CachedPage.unseen (page : CachedPage) (invalidations : List Invalidation) : List Invalidation :=
  invalidations.drop page.version

namespace UsersCache
variable (c : UsersConfig) (s : UsersCache)

def initial (db : UsersDb) : UsersCache := ⟨db,.empty,[],0,[],[]⟩

def alive (key : String) : Bool := (s.cache.live s.now key).isSome

def prune : UsersCache := {s with invalidations := s.invalidations.map (·.prune s.alive)}

/-- What a scan owes when it asks. -/
def owed : Invalidation → Option (List String)
  | .waiting => some (s.written.filter (fun k => CacheService.usersPattern k && s.alive k))
  | .scanning owed => some owed
  | _ => none

def scan (w : ℕ) (keys : List String) (last : Bool) : Option UsersCache :=
  if keys.all CacheService.usersPattern then do
    let invalidation ← s.invalidations[w]?
    let owed ← s.owed invalidation
    let after ← Invalidation.reply owed keys last
    return {s with invalidations := s.invalidations.set w after}
  else none

def del (w : ℕ) : Option UsersCache :=
  match s.invalidations[w]? with
  | some (.deleting keys owed) =>
    let after := match owed with
      | none => .done
      | some rest => .scanning rest
    some ({s with
      cache := s.cache.del keys, invalidations := s.invalidations.set w after} : UsersCache).prune
  | _ => none

/-- The next access of a call, with the stage that it leads to. -/
def access (r : FindAllUsersRequest) : ReadStage → Option (ReadStage × UsersCache)
  | .admitting =>
    match UsersService.authorize s.db r.accountId with
    | .error e => some (.failed e,s)
    | .ok _ => some (.getting,s)
  | .getting =>
    match s.cache.lookup s.now r.key with
    | some page => some (.answered page,s)
    | none => some (.reading,s)
  | .reading =>
    match UsersRepository.findAll s.db c r.cursor (r.limit.getD 10) r.username with
    | .error e => some (.failed e,s)
    | .ok page => some (.setting ⟨page,s.invalidations.length⟩,s)
  | .setting page =>
    some (.expiring page,
      {s with cache := s.cache.set r.key page none, written := r.key::s.written})
  | .expiring page =>
    let cache := CacheService.expireBuffers c s.cache s.now r.key
    some (.answered page,({s with cache := cache} : UsersCache).prune)
  | .answered _ => none
  | .failed _ => none

def next : CacheAction → Option UsersCache
  | .wait ms => some ({s with now := s.now+ms} : UsersCache).prune
  | .commit db => some {s with db := db, invalidations := s.invalidations++[.waiting]}
  | .start request =>
    some {s with reads := s.reads++[⟨request,s.invalidations,.admitting⟩]}
  | .read i => do
    let r ← s.reads[i]?
    let (stage,t) ← s.access c r.request r.stage
    return {t with reads := t.reads.set i {r with stage := stage}}
  | .scan w keys last => s.scan w keys last
  | .del w => s.del w

/-- No call has answered with a page that is older than a write whose invalidation was complete when
the call began. -/
def Coherent : Prop :=
  ∀ r ∈ s.reads, ∀ page ∈ r.stage.answer?, .done ∉ page.unseen r.started

/-- A page goes into the cache only while each write that it has not seen will still delete its
key. -/
def Timely : CacheAction → Prop
  | .read i => ∀ r ∈ s.reads[i]?, ∀ page ∈ r.stage.toCache?,
      ∀ invalidation ∈ page.unseen s.invalidations, invalidation.Owes r.request.key
  | _ => True

instance : Decidable s.Coherent := List.decidableBAll _ _

instance : ∀ a, Decidable (s.Timely a)
  | .read _ => Option.decidableForallMem _
  | .wait _ | .commit _ | .start _ | .scan .. | .del _ => .isTrue trivial

end UsersCache

namespace Invalidation
variable {key : String} {alive : String → Bool} {inv inv' : Invalidation}

/-- A key that is still there stays owed. -/
theorem Owes.prune (h : inv.Owes key) (hk : alive key) : (inv.prune alive).Owes key := by
  cases inv with
  | waiting | done => exact h
  | scanning owed => exact List.mem_filter.mpr ⟨h,hk⟩
  | deleting keys owed =>
    refine h.imp_right ?_
    rintro ⟨rest,hrest,hmem⟩
    exact ⟨_,Option.mem_map_of_mem _ hrest,List.mem_filter.mpr ⟨hmem,hk⟩⟩

/-- Whatever is owed is in the reply or stays owed. -/
theorem Owes.reply {owed keys : List String} {last : Bool} (h : reply owed keys last = some inv')
    (hk : key ∈ owed) : inv'.Owes key := by
  unfold Invalidation.reply at h
  cases last with
  | true =>
    -- the last reply leaves nothing out
    simp only [Bool.true_and,Bool.not_eq_true',if_true] at h
    split_ifs at h with hearly hempty
    all_goals
      have hall : ∀ k ∈ owed, k ∈ keys := by simpa using hearly
      have hmem := hall key hk
    · rw [List.isEmpty_iff.mp hempty] at hmem
      exact nomatch hmem
    · cases h
      exact .inl hmem
  | false =>
    have hrest : key ∈ keys ∨ key ∈ owed.filter (fun k => k ∉ keys) := by
      by_cases hmem : key ∈ keys
      · exact .inl hmem
      · exact .inr (List.mem_filter.mpr ⟨hk,by simpa using hmem⟩)
    simp only [Bool.false_and,Bool.false_eq_true,if_false] at h
    split_ifs at h with hempty
    · cases h
      exact hrest.resolve_left (by simp [List.isEmpty_iff.mp hempty])
    · cases h
      exact hrest.imp_right fun hr => ⟨_,rfl,hr⟩

end Invalidation

theorem CachedPage.mem_unseen {page : CachedPage} {invalidations : List Invalidation}
    {inv : Invalidation} :
    inv ∈ page.unseen invalidations ↔ ∃ w, page.version ≤ w ∧ invalidations[w]? = some inv := by
  rw [unseen,List.mem_iff_getElem?]
  simp only [List.getElem?_drop]
  constructor
  · rintro ⟨i,hi⟩
    exact ⟨_,Nat.le_add_right ..,hi⟩
  · rintro ⟨w,hw,hi⟩
    exact ⟨w-page.version,by rwa [Nat.add_sub_cancel' hw]⟩

namespace ReadStage

/-- The page that a call is about to write or has answered with. -/
def page? : ReadStage → Option CachedPage
  | setting page | expiring page | answered page => some page
  | _ => none

end ReadStage

/-- The invalidation of the write `w` is complete. -/
def Invalidated (invalidations : List Invalidation) (w : ℕ) : Prop :=
  invalidations[w]? = some .done

/-- Since a call began no invalidation was undone, and its page has seen the writes whose
invalidation was complete then. -/
def UsersRead.Fresh (invalidations : List Invalidation) (r : UsersRead) : Prop :=
  (∀ w, Invalidated r.started w → Invalidated invalidations w) ∧
    ∀ page ∈ r.stage.page?, ∀ w, Invalidated r.started w → w < page.version

theorem UsersRead.Fresh.mono {invalidations invalidations' : List Invalidation} {r : UsersRead}
    (h : r.Fresh invalidations)
    (hdone : ∀ w, Invalidated invalidations w → Invalidated invalidations' w) :
    r.Fresh invalidations' :=
  ⟨fun w hw => hdone w (h.1 w hw),h.2⟩

namespace UsersCache
variable {c : UsersConfig} {s t : UsersCache}

/-- Every page that is in the cache is still to be deleted on behalf of the writes that it has not
seen. -/
structure Sound (s : UsersCache) : Prop where
  stored : ∀ key e, s.cache key = some e → key ∈ s.written ∧ CacheService.usersPattern key
  owing : ∀ key e, s.cache.live s.now key = some e → ∀ w inv, e.value.version ≤ w →
    s.invalidations[w]? = some inv → inv.Owes key
  reads : ∀ r ∈ s.reads, r.Fresh s.invalidations

theorem sound_initial (db : UsersDb) : (initial db).Sound :=
  ⟨nofun,nofun,List.forall_mem_nil _⟩

theorem alive_iff {key : String} : s.alive key ↔ ∃ e, s.cache.live s.now key = some e :=
  Option.isSome_iff_exists

theorem invalidated_prune {w : ℕ} (h : Invalidated s.invalidations w) :
    Invalidated s.prune.invalidations w := by
  rw [Invalidated] at h
  simp only [UsersCache.prune,Invalidated,List.getElem?_map,h,Option.map_some]
  rfl

theorem Sound.prune (h : s.Sound) : s.prune.Sound where
  stored := h.stored
  owing key e he w inv hw hinv := by
    simp only [UsersCache.prune,List.getElem?_map,Option.map_eq_some_iff] at hinv
    obtain ⟨inv',hinv',rfl⟩ := hinv
    exact (h.owing key e he w inv' hw hinv').prune (alive_iff.mpr ⟨e,he⟩)
  reads r hr := (h.reads r hr).mono fun _ hw => invalidated_prune hw

/-- Entries that go away, or keep their page, owe nothing new. -/
theorem Sound.shrink (h : s.Sound) (cache : Store String CachedPage) (now : ℕ)
    (hstored : ∀ key e, cache key = some e → ∃ e', s.cache key = some e')
    (hlive : ∀ key e, cache.live now key = some e →
      ∃ e', s.cache.live s.now key = some e' ∧ e'.value = e.value) :
    ({s with cache := cache, now := now} : UsersCache).Sound where
  stored key e he := by
    obtain ⟨e',he'⟩ := hstored key e he
    exact h.stored key e' he'
  owing key e he w inv hw hinv := by
    obtain ⟨e',he',hvalue⟩ := hlive key e he
    exact h.owing key e' he' w inv (hvalue ▸ hw) hinv
  reads := h.reads

/-- The next state of one invalidation, which leaves no key behind. -/
theorem Sound.invalidate (h : s.Sound) {w : ℕ} {inv inv' : Invalidation}
    (hw : s.invalidations[w]? = some inv) (hopen : inv ≠ .done)
    (howes : ∀ key e, s.cache.live s.now key = some e → inv.Owes key → inv'.Owes key) :
    ({s with invalidations := s.invalidations.set w inv'} : UsersCache).Sound where
  stored := h.stored
  owing key e he v job hv hjob := by
    simp only [List.getElem?_set] at hjob
    split_ifs at hjob with hvw hlt
    · subst hvw
      cases hjob
      exact howes key e he (h.owing key e he w inv hv hw)
    · exact h.owing key e he v job hv hjob
  reads r hr := (h.reads r hr).mono fun v hv => by
    have hne : w ≠ v := fun hwv => hopen (by
      subst hwv
      exact Option.some.inj (hw.symm.trans hv))
    simpa only [Invalidated,List.getElem?_set,if_neg hne] using hv

theorem sound_scan (h : s.Sound) {w : ℕ} {keys : List String} {last : Bool}
    (hn : s.scan w keys last = some t) : t.Sound := by
  simp only [scan,Option.bind_eq_bind,Option.ite_none_right_eq_some,Option.bind_eq_some_iff,
    Option.pure_def,Option.some.injEq] at hn
  obtain ⟨-,inv,hw,owed,howed,inv',hreply,rfl⟩ := hn
  refine h.invalidate hw (fun hdone => ?_) fun key e he howes => .reply hreply ?_
  · rw [hdone] at howed
    cases howed
  · cases inv with
    | waiting =>
      cases howed
      obtain ⟨hwritten,hpattern⟩ := h.stored key e (Store.live_eq_some _ _ |>.mp he).1
      exact List.mem_filter.mpr ⟨hwritten,by simp [hpattern,alive_iff.mpr ⟨e,he⟩]⟩
    | scanning rest =>
      cases howed
      exact howes
    | deleting | done => cases howed

/-- Deleting keys leaves the other entries as they are. -/
theorem live_del {keys : List String} {key : String} {e : Entry CachedPage}
    (h : (s.cache.del keys).live s.now key = some e) :
    s.cache.live s.now key = some e ∧ key ∉ keys := by
  obtain ⟨he,halive⟩ := Store.live_eq_some _ _ |>.mp h
  by_cases hmem : key ∈ keys
  · rw [Store.del_of_mem _ hmem] at he
    cases he
  · rw [Store.del_of_not_mem _ hmem] at he
    exact ⟨Store.live_eq_some _ _ |>.mpr ⟨he,halive⟩,hmem⟩

theorem sound_del (h : s.Sound) {w : ℕ} (hn : s.del w = some t) : t.Sound := by
  unfold del at hn
  split at hn
  next keys owed hw =>
    cases hn
    have hshrink := h.shrink (s.cache.del keys) s.now
      (fun key e he => ⟨e,by
        by_cases hmem : key ∈ keys
        · rw [Store.del_of_mem _ hmem] at he
          cases he
        · rwa [Store.del_of_not_mem _ hmem] at he⟩)
      (fun key e he => ⟨e,(live_del he).1,rfl⟩)
    refine (hshrink.invalidate hw nofun fun key e he howes => ?_).prune
    obtain ⟨rest,rfl,hmem⟩ := howes.resolve_left (live_del he).2
    exact hmem
  · cases hn

/-- A page that goes into the cache in time. -/
theorem Sound.set (h : s.Sound) {r : FindAllUsersRequest} {page : CachedPage}
    (hgood : ∀ inv ∈ page.unseen s.invalidations, inv.Owes r.key) :
    ({s with cache := s.cache.set r.key page none, written := r.key::s.written} :
      UsersCache).Sound where
  stored key e he := by
    obtain ⟨rfl,-⟩ | ⟨-,he⟩ := Store.set_eq_some _ _ |>.mp he
    · exact ⟨List.mem_cons_self,CacheService.usersPattern_usersKey ..⟩
    · obtain ⟨hwritten,hpattern⟩ := h.stored key e he
      exact ⟨List.mem_cons_of_mem _ hwritten,hpattern⟩
  owing key e he w inv hw hinv := by
    obtain ⟨hentry,halive⟩ := Store.live_eq_some _ _ |>.mp he
    obtain ⟨rfl,rfl⟩ | ⟨-,hentry⟩ := Store.set_eq_some _ _ |>.mp hentry
    · exact hgood inv (CachedPage.mem_unseen.mpr ⟨w,hw,hinv⟩)
    · exact h.owing key e (Store.live_eq_some _ _ |>.mpr ⟨hentry,halive⟩) w inv hw hinv
  reads := h.reads

/-- `EXPIRE` keeps the page. -/
theorem expireBuffers_some {cache : Store String CachedPage} {now : ℕ} {key k : String}
    {e : Entry CachedPage} (h : CacheService.expireBuffers c cache now key k = some e) :
    ∃ e', cache k = some e' ∧ e'.value = e.value ∧ (e.alive now → e'.alive now) := by
  unfold CacheService.expireBuffers at h
  split_ifs at h
  · rw [Store.expire] at h
    cases hold : cache.live now key with
    | none =>
      rw [hold] at h
      exact ⟨e,h,rfl,id⟩
    | some old =>
      rw [hold] at h
      obtain ⟨hentry,halive⟩ := Store.live_eq_some _ _ |>.mp hold
      obtain ⟨rfl,rfl⟩ | ⟨-,h⟩ := Store.set_eq_some _ _ |>.mp h
      · exact ⟨old,hentry,rfl,fun _ => halive⟩
      · exact ⟨e,h,rfl,id⟩
  · exact ⟨e,h,rfl,id⟩

theorem Sound.expire (h : s.Sound) (key : String) :
    ({s with cache := CacheService.expireBuffers c s.cache s.now key} : UsersCache).Sound :=
  h.shrink _ s.now
    (fun k e he => by
      obtain ⟨e',he',-⟩ := expireBuffers_some he
      exact ⟨e',he'⟩)
    (fun k e he => by
      obtain ⟨hentry,halive⟩ := Store.live_eq_some _ _ |>.mp he
      obtain ⟨e',he',hvalue,hkeep⟩ := expireBuffers_some hentry
      exact ⟨e',Store.live_eq_some _ _ |>.mpr ⟨he',hkeep halive⟩,hvalue⟩)

/-- The new stage of a call is as fresh as the old one, and an answer from the cache is fresh because
a complete invalidation owes nothing. -/
theorem fresh_of_access (h : s.Sound) {r : UsersRead} (hr : r.Fresh s.invalidations)
    {stage : ReadStage} (hn : s.access c r.request r.stage = some (stage,t)) :
    ∀ page ∈ stage.page?, ∀ w, Invalidated r.started w → w < page.version := by
  intro page hpage w hw
  unfold access at hn
  split at hn
  next =>
    split at hn <;> cases hn <;> cases hpage
  next =>
    split at hn
    next cached hget =>
      cases hn
      cases hpage
      rw [Store.lookup,Option.map_eq_some_iff] at hget
      obtain ⟨e,he,rfl⟩ := hget
      by_contra hlt
      exact h.owing _ e he w .done (not_lt.mp hlt) (hr.1 w hw)
    next =>
      cases hn
      cases hpage
  next =>
    split at hn
    · cases hn
      cases hpage
    · cases hn
      cases hpage
      exact (List.getElem?_eq_some_iff.mp (hr.1 w hw)).1
  next old hstage =>
    cases hn
    exact hr.2 page (hstage ▸ hpage) w hw
  next old hstage =>
    cases hn
    exact hr.2 page (hstage ▸ hpage) w hw
  · cases hn
  · cases hn

/-- What the access of a call does to the rest. -/
theorem sound_access (h : s.Sound) {r : UsersRead} {stage : ReadStage}
    (hgood : ∀ page, r.stage = .setting page →
      ∀ inv ∈ page.unseen s.invalidations, inv.Owes r.request.key)
    (hn : s.access c r.request r.stage = some (stage,t)) :
    t.Sound ∧ t.reads = s.reads ∧
      ∀ w, Invalidated s.invalidations w → Invalidated t.invalidations w := by
  unfold access at hn
  split at hn
  next => split at hn <;> cases hn <;> exact ⟨h,rfl,fun _ hw => hw⟩
  next => split at hn <;> cases hn <;> exact ⟨h,rfl,fun _ hw => hw⟩
  next => split at hn <;> cases hn <;> exact ⟨h,rfl,fun _ hw => hw⟩
  next page hstage =>
    cases hn
    exact ⟨h.set (hgood page hstage),rfl,fun _ hw => hw⟩
  next page hstage =>
    cases hn
    exact ⟨(h.expire r.request.key).prune,rfl,fun w hw => invalidated_prune hw⟩
  · cases hn
  · cases hn

theorem sound_wait (h : s.Sound) (ms : ℕ) : ({s with now := s.now+ms} : UsersCache).prune.Sound := by
  refine (h.shrink s.cache (s.now+ms) (fun key e he => ⟨e,he⟩) fun key e he => ⟨e,?_,rfl⟩).prune
  obtain ⟨hentry,halive⟩ := Store.live_eq_some _ _ |>.mp he
  refine Store.live_eq_some _ _ |>.mpr ⟨hentry,?_⟩
  rw [Entry.alive,Option.all_eq_true] at halive ⊢
  exact fun t ht => decide_eq_true (by have := of_decide_eq_true (halive t ht); omega)

theorem Timely.setting {i : ℕ} (h : s.Timely (.read i)) {r : UsersRead} (hr : s.reads[i]? = some r)
    {page : CachedPage} (hstage : r.stage = .setting page) :
    ∀ inv ∈ page.unseen s.invalidations, inv.Owes r.request.key :=
  h r hr page (by rw [hstage]; rfl)

theorem sound_next (h : s.Sound) {a : CacheAction} (hgood : s.Timely a)
    (hn : next c s a = some t) : t.Sound := by
  cases a with
  | wait ms =>
    cases hn
    exact sound_wait h ms
  | commit db =>
    cases hn
    refine ⟨h.stored,fun key e he w inv hw hinv => ?_,fun r hr => (h.reads r hr).mono fun w hw => ?_⟩
    · rw [List.getElem?_append] at hinv
      split_ifs at hinv
      · exact h.owing key e he w inv hw hinv
      · obtain rfl := List.mem_singleton.mp (List.mem_of_getElem? hinv)
        trivial
    · rw [Invalidated] at hw ⊢
      rw [List.getElem?_append_left (List.getElem?_eq_some_iff.mp hw).1]
      exact hw
  | start request =>
    cases hn
    refine ⟨h.stored,h.owing,fun r hr => ?_⟩
    obtain hr | rfl := List.mem_append.mp hr |>.imp_right List.mem_singleton.mp
    · exact h.reads r hr
    · exact ⟨fun w hw => hw,nofun⟩
  | read i =>
    simp only [next,Option.bind_eq_bind,Option.bind_eq_some_iff,Option.pure_def,
      Option.some.injEq] at hn
    obtain ⟨r,hr,⟨stage,u⟩,haccess,rfl⟩ := hn
    have hfresh := h.reads r (List.mem_of_getElem? hr)
    obtain ⟨hu,hreads,hdone⟩ := sound_access h (fun page hstage => hgood.setting hr hstage) haccess
    refine ⟨hu.stored,hu.owing,fun q hq => ?_⟩
    obtain hq | rfl := List.mem_or_eq_of_mem_set hq
    · exact (h.reads q (hreads ▸ hq)).mono hdone
    · exact ⟨fun w hw => hdone w (hfresh.1 w hw),fresh_of_access h hfresh haccess⟩
  | scan w keys last => exact sound_scan h hn
  | del w => exact sound_del h hn

theorem Sound.coherent (h : s.Sound) : s.Coherent := by
  intro r hr page hpage hdone
  obtain ⟨w,hw,hinv⟩ := CachedPage.mem_unseen.mp hdone
  have hstage : page ∈ r.stage.page? := by
    cases hst : r.stage <;> simp_all [ReadStage.answer?,ReadStage.page?]
  exact absurd ((h.reads r hr).2 page hstage w hinv) (not_lt.mpr hw)

/-- While every page is cached in time no call answers with a page that is older than what was
invalidated before it began. -/
theorem findAll_is_coherent {db : UsersDb} {actions : List CacheAction}
    (hr : runs (next c) (initial db) actions = some s)
    (hgood : Along (next c) Timely (initial db) actions) : s.Coherent :=
  (runs_invariant (fun _ _ _ hs ha hn => sound_next hs ha hn) (sound_initial db) hgood hr).coherent

/-- Bob alone has an account. -/
def bobOnly : UsersDb :=
  ⟨[⟨⟨⟨"00000000-0000-7000-8000-0000000000d0",by decide⟩,"bob","bob@mail.ru","hash",.user,true,none⟩,0⟩],
    [],[]⟩

def bobsList : FindAllUsersRequest := ⟨"00000000-0000-7000-8000-0000000000d0",none,none,none⟩

/-- A page that is cached after a write, but before its invalidation begins, is deleted by it. -/
def refill : List CacheAction :=
  [.start bobsList,.read 0,.read 0,.read 0,.commit bobOnly,.read 0,.read 0,
    .scan 0 [bobsList.key] true,.del 0,.start bobsList,.read 1,.read 1,.read 1,.read 1,.read 1,
    .start bobsList,.read 2,.read 2]

theorem findAll_is_coherent_refilled :
    ∃ s, runs (next ⟨5,30000,containsInsensitive⟩) (initial bobOnly) refill = some s ∧ s.Coherent := by
  obtain ⟨s,hs⟩ := Option.isSome_iff_exists.mp (show (runs (next ⟨5,30000,containsInsensitive⟩)
    (initial bobOnly) refill).isSome = true by decide +kernel)
  exact ⟨s,hs,findAll_is_coherent hs (by decide +kernel)⟩

/-- Carol has registered too. -/
def bobAndCarol : UsersDb :=
  {bobOnly with accounts := bobOnly.accounts++[⟨⟨⟨"00000000-0000-7000-8000-0000000000d1",by decide⟩,
    "carol","carol@mail.ru","hash",.user,false,none⟩,5⟩]}

/-- Carol's registration and its invalidation pass between the database read of a call and its cache
write. The next call is answered without Carol. -/
theorem stale_page_outlives_invalidation :
    ∃ s ∈ runs (next ⟨5,30000,containsInsensitive⟩) (initial bobOnly)
      [.start bobsList,.read 0,.read 0,.read 0,.commit bobAndCarol,.scan 0 [] true,.read 0,.read 0,
        .start bobsList,.read 1,.read 1], ¬s.Coherent := by
  decide +kernel

end UsersCache
end NestHomework.UserService
