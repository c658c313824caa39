import NestHomework.UserService.CacheCoherence

/-! How old a page of `findAll` can be. An invalidation may miss a page, and then only the lifetime
of its key removes it. -/
namespace NestHomework.UserService
open Redis Transition

namespace ReadStage

/-- The page that has been read and is not yet in the cache with its lifetime. -/
def inFlight? : ReadStage → Option CachedPage
  | setting page | expiring page => some page
  | _ => none

def isExpiring : ReadStage → Bool
  | expiring _ => true
  | _ => false

end ReadStage

/-- What a call of `findAll` has read, and when. -/
structure Reading where
  call : ℕ
  request : FindAllUsersRequest
  db : UsersDb
  time : ℕ

structure PageAnswer where
  request : FindAllUsersRequest
  page : FindAllUsersResponse
  time : ℕ

/-- The cache. The last two fields only record the reads of the tables, and the answers. -/
structure CacheLog where
  cache : UsersCache
  readings : List Reading
  answers : List PageAnswer

/-- The page is what the repository finds for the request, or for one with the same key. -/
def Reading.Gives (c : UsersConfig) (g : Reading) (key : String) (page : FindAllUsersResponse) :
    Prop :=
  g.request.key = key ∧
    UsersRepository.findAll g.db c g.request.cursor (g.request.limit.getD 10) g.request.username =
      .ok page

theorem UsersCache.reads_access {c : UsersConfig} {s t : UsersCache} {r : FindAllUsersRequest}
    {old stage : ReadStage} (h : s.access c r old = some (stage,t)) : t.reads = s.reads := by
  unfold UsersCache.access at h
  split at h <;> first | contradiction | (try split at h) <;> cases h <;> rfl

namespace CacheLog
variable (c : UsersConfig) (lag : ℕ) (l : CacheLog)

def initial (db : UsersDb) : CacheLog := ⟨.initial db,[],[]⟩

/-- The call `i` has gone from the stage `r.stage` to `stage`. -/
def record (i : ℕ) (r : UsersRead) (stage : ReadStage) (t : UsersCache) : CacheLog where
  cache := t
  readings :=
    if r.stage = .reading then ⟨i,r.request,l.cache.db,l.cache.now⟩::l.readings else l.readings
  answers := match stage.answer? with
    | none => l.answers
    | some page => ⟨r.request,page.page,l.cache.now⟩::l.answers

def next (a : CacheAction) : Option CacheLog := do
  let t ← l.cache.next c a
  match a with
  | .read i =>
    let r ← l.cache.reads[i]?
    let r' ← t.reads[i]?
    return l.record i r r'.stage t
  | _ => return {l with cache := t}

/-- A call that has read the tables has its page in the cache, and its lifetime set, within the
lag. -/
def Prompt : CacheAction → Prop
  | .wait ms => ∀ g ∈ l.readings, (l.cache.reads[g.call]?).any (·.stage.inFlight?.isSome) →
      l.cache.now+ms ≤ g.time+lag
  | _ => True

instance : ∀ a, Decidable (l.Prompt lag a)
  | .wait _ => List.decidableBAll _ _
  | .read _ | .commit _ | .start _ | .scan .. | .del _ => .isTrue trivial

/-- The call `i` is about to set the lifetime of the key. -/
def Expiring (key : String) (i : ℕ) : Prop :=
  ∃ r, l.cache.reads[i]? = some r ∧ r.stage.isExpiring ∧ r.request.key = key

/-- A call has read the tables at most the lag ago. -/
def Recent (i : ℕ) (g : Reading) : Prop :=
  g ∈ l.readings ∧ g.call = i ∧ g.time ≤ l.cache.now ∧ l.cache.now ≤ g.time+lag

/-- A page in the cache comes from a reading. Its lifetime ends in time, or is about to be set; and
whoever may still prolong it has read the tables soon after that reading. -/
structure Kept (key : String) (e : Entry CachedPage) (g : Reading) : Prop where
  mem : g ∈ l.readings
  gives : g.Gives c key e.value.page
  past : g.time ≤ l.cache.now
  expires : ∀ d ∈ e.expiresAt, d ≤ g.time+2*lag+c.cacheUsersTtl
  pending : e.expiresAt = none → ∃ i, l.Expiring key i
  prolongs : ∀ i, l.Expiring key i → ∃ h, l.Recent lag i h ∧ h.time ≤ g.time+lag

structure Sound : Prop where
  calls : ∀ i r, l.cache.reads[i]? = some r → ∀ page ∈ r.stage.inFlight?,
    ∃ g, l.Recent lag i g ∧ g.Gives c r.request.key page.page
  entries : ∀ key e, l.cache.cache key = some e → ∃ g, l.Kept c lag key e g
  answers : ∀ a ∈ l.answers, ∃ g ∈ l.readings, g.Gives c a.request.key a.page ∧ g.time ≤ a.time ∧
    a.time ≤ g.time+2*lag+c.cacheUsersTtl

variable {c lag l} {m : CacheLog} {key : String} {e : Entry CachedPage} {g : Reading} {i : ℕ}
  {r : UsersRead} {stage : ReadStage} {u : UsersCache}

/-- A step that is no access of a call changes the cache alone, and an access is recorded. -/
theorem next_cases {a : CacheAction} (hn : l.next c a = some m) :
    (∃ t, l.cache.next c a = some t ∧ m = {l with cache := t} ∧ ∀ i, a ≠ .read i) ∨
    ∃ i r stage u, a = .read i ∧ l.cache.reads[i]? = some r ∧
      l.cache.access c r.request r.stage = some (stage,u) ∧
      m = l.record i r stage {u with reads := u.reads.set i {r with stage := stage}} ∧
      u.reads = l.cache.reads := by
  simp only [next,Option.bind_eq_bind,Option.bind_eq_some_iff] at hn
  obtain ⟨t,ht,hn⟩ := hn
  cases a with
  | read i =>
    refine .inr ?_
    simp only [Option.bind_eq_some_iff,Option.pure_def,Option.some.injEq] at hn
    obtain ⟨r,hr,r',hr',hm⟩ := hn
    simp only [UsersCache.next,hr,Option.bind_eq_bind,Option.bind_some,Option.bind_eq_some_iff,
      Option.pure_def,Option.some.injEq] at ht
    obtain ⟨⟨stage,u⟩,haccess,rfl⟩ := ht
    have hreads := UsersCache.reads_access haccess
    simp only [hreads,List.getElem?_set_self (List.getElem?_eq_some_iff.mp hr).1,
      Option.some.injEq] at hr'
    subst hr'
    exact ⟨i,r,stage,u,rfl,hr,haccess,hm.symm,hreads⟩
  | wait | commit | start | scan | del =>
    cases hn
    refine .inl ⟨t,ht,rfl,fun i hread => ?_⟩
    cases hread

theorem Recent.mono (h : l.Recent lag i g) (hreadings : l.readings ⊆ m.readings)
    (hnow : m.cache.now = l.cache.now) : m.Recent lag i g :=
  ⟨hreadings h.1,h.2.1,hnow ▸ h.2.2.1,hnow ▸ h.2.2.2⟩

/-- A page stays as it is while no other call comes to prolong its lifetime, and while somebody sets
it if nobody has. -/
theorem Kept.mono (h : l.Kept c lag key e g) (hreadings : l.readings ⊆ m.readings)
    (hnow : m.cache.now = l.cache.now) (hexpiring : ∀ i, m.Expiring key i → l.Expiring key i)
    (hpending : e.expiresAt = none → ∀ i, l.Expiring key i → m.Expiring key i) :
    m.Kept c lag key e g where
  mem := hreadings h.mem
  gives := h.gives
  past := hnow ▸ h.past
  expires := h.expires
  pending hnone := (h.pending hnone).imp (hpending hnone)
  prolongs i hi := by
    obtain ⟨g',hrecent,htime⟩ := h.prolongs i (hexpiring i hi)
    exact ⟨g',hrecent.mono hreadings hnow,htime⟩

/-- The cache and the calls are as before, or less is in the cache. -/
theorem Sound.shrink (h : l.Sound c lag) (cache : UsersCache) (hnow : cache.now = l.cache.now)
    (hreads : cache.reads = l.cache.reads)
    (hcache : ∀ key e, cache.cache key = some e → l.cache.cache key = some e) :
    ({l with cache := cache} : CacheLog).Sound c lag where
  calls i r hr page hpage := by
    obtain ⟨g,hrecent,hgives⟩ := h.calls i r (hreads ▸ hr) page hpage
    exact ⟨g,hrecent.mono (List.Subset.refl _) hnow,hgives⟩
  entries key e he := by
    obtain ⟨g,hkept⟩ := h.entries key e (hcache key e he)
    refine ⟨g,hkept.mono (List.Subset.refl _) hnow ?_ fun _ => ?_⟩
    all_goals
      simp only [Expiring,hreads]
      exact fun i hi => hi
  answers := h.answers

/-- Time passes while nobody falls behind. -/
theorem Sound.wait (h : l.Sound c lag) {ms : ℕ} (hprompt : l.Prompt lag (.wait ms)) :
    ({l with cache := ({l.cache with now := l.cache.now+ms} : UsersCache).prune} : CacheLog).Sound
      c lag := by
  have hrecent : ∀ i r g, l.cache.reads[i]? = some r → r.stage.inFlight?.isSome → l.Recent lag i g →
      ({l with cache := ({l.cache with now := l.cache.now+ms} : UsersCache).prune} :
        CacheLog).Recent lag i g := by
    rintro i r g hr hflight ⟨hmem,rfl,hpast,-⟩
    exact ⟨hmem,rfl,hpast.trans (Nat.le_add_right ..),hprompt g hmem (by rw [hr]; exact hflight)⟩
  refine ⟨fun i r hr page hpage => ?_,fun key e he => ?_,h.answers⟩
  · obtain ⟨g,hold,hgives⟩ := h.calls i r hr page hpage
    exact ⟨g,hrecent i r g hr (Option.isSome_of_mem hpage) hold,hgives⟩
  · obtain ⟨g,hkept⟩ := h.entries key e he
    refine ⟨g,hkept.mem,hkept.gives,hkept.past.trans (Nat.le_add_right ..),hkept.expires,
      hkept.pending,fun i hi => ?_⟩
    obtain ⟨r,hr,hstage,-⟩ := id hi
    obtain ⟨g',hold,htime⟩ := hkept.prolongs i hi
    refine ⟨g',hrecent i r g' hr ?_ hold,htime⟩
    cases hst : r.stage <;> simp_all [ReadStage.isExpiring,ReadStage.inFlight?]

/-- Who is about to set a lifetime after the call `i` has gone on. -/
theorem expiring_set (hr : l.cache.reads[i]? = some r)
    (hreads : m.cache.reads = l.cache.reads.set i {r with stage := stage}) {j : ℕ} :
    m.Expiring key j ↔ (j = i ∧ stage.isExpiring ∧ r.request.key = key) ∨
      (j ≠ i ∧ l.Expiring key j) := by
  rw [Expiring,Expiring,hreads]
  by_cases hj : j = i
  · subst hj
    rw [List.getElem?_set_self (List.getElem?_eq_some_iff.mp hr).1]
    simp
  · rw [List.getElem?_set_ne (Ne.symm hj)]
    simp [hj]

theorem Expiring.self (h : l.Expiring key i) (hr : l.cache.reads[i]? = some r) :
    r.stage.isExpiring ∧ r.request.key = key := by
  obtain ⟨q,hq,hexpiring⟩ := h
  rw [hr,Option.some.injEq] at hq
  exact hq ▸ hexpiring

/-- The other calls have read what they had read. -/
theorem Sound.calls_set (h : l.Sound c lag) (hr : l.cache.reads[i]? = some r)
    (hnow : m.cache.now = l.cache.now)
    (hreads : m.cache.reads = l.cache.reads.set i {r with stage := stage})
    (hreadings : l.readings ⊆ m.readings)
    (hflight : ∀ page ∈ stage.inFlight?, ∃ g, m.Recent lag i g ∧ g.Gives c r.request.key page.page)
    {j : ℕ} {q : UsersRead} (hq : m.cache.reads[j]? = some q) {page : CachedPage}
    (hpage : page ∈ q.stage.inFlight?) :
    ∃ g, m.Recent lag j g ∧ g.Gives c q.request.key page.page := by
  rw [hreads] at hq
  by_cases hj : j = i
  · subst hj
    rw [List.getElem?_set_self (List.getElem?_eq_some_iff.mp hr).1,Option.some.injEq] at hq
    subst hq
    exact hflight page hpage
  · rw [List.getElem?_set_ne (Ne.symm hj)] at hq
    obtain ⟨g,hrecent,hgives⟩ := h.calls j q hq page hpage
    exact ⟨g,hrecent.mono hreadings hnow,hgives⟩

/-- A call goes on and has not touched the cache. -/
theorem Sound.keep (h : l.Sound c lag) (hr : l.cache.reads[i]? = some r)
    (hstage : r.stage.isExpiring = false) (hstage' : stage.isExpiring = false)
    (hcache : m.cache.cache = l.cache.cache) (hnow : m.cache.now = l.cache.now)
    (hreads : m.cache.reads = l.cache.reads.set i {r with stage := stage})
    (hreadings : l.readings ⊆ m.readings)
    (hflight : ∀ page ∈ stage.inFlight?, ∃ g, m.Recent lag i g ∧ g.Gives c r.request.key page.page)
    (hanswers : ∀ a ∈ m.answers, a ∉ l.answers → ∃ g ∈ l.readings,
      g.Gives c a.request.key a.page ∧ g.time ≤ a.time ∧ a.time ≤ g.time+2*lag+c.cacheUsersTtl) :
    m.Sound c lag where
  calls j q hq page hpage := h.calls_set hr hnow hreads hreadings hflight hq hpage
  entries key e he := by
    obtain ⟨g,hkept⟩ := h.entries key e (hcache ▸ he)
    have hsame : ∀ j, m.Expiring key j ↔ l.Expiring key j := by
      intro j
      rw [expiring_set hr hreads,hstage']
      constructor
      · rintro (⟨-,hfalse,-⟩ | ⟨-,hj⟩)
        · contradiction
        · exact hj
      · refine fun hj => .inr ⟨?_,hj⟩
        rintro rfl
        exact absurd (hj.self hr).1 (by simp [hstage])
    exact ⟨g,hkept.mono hreadings hnow (fun j => (hsame j).mp) fun _ j => (hsame j).mpr⟩
  answers a ha := by
    obtain ⟨g,hmem,hgives⟩ : ∃ g ∈ l.readings, g.Gives c a.request.key a.page ∧
        g.time ≤ a.time ∧ a.time ≤ g.time+2*lag+c.cacheUsersTtl := by
      by_cases hold : a ∈ l.answers
      · exact h.answers a hold
      · exact hanswers a ha hold
    exact ⟨g,hreadings hmem,hgives⟩

/-- A page goes into the cache. Whoever may prolong its lifetime has read the tables by now. -/
theorem Sound.set (h : l.Sound c lag) {page : CachedPage} (hr : l.cache.reads[i]? = some r)
    (hstage : r.stage = .setting page)
    (hcache : m.cache.cache = l.cache.cache.set r.request.key page none)
    (hnow : m.cache.now = l.cache.now)
    (hreads : m.cache.reads = l.cache.reads.set i {r with stage := .expiring page})
    (hreadings : m.readings = l.readings) (hanswers : m.answers = l.answers) : m.Sound c lag := by
  obtain ⟨g,hrecent,hgives⟩ := h.calls i r hr page (by rw [hstage]; rfl)
  have hkeep : ∀ {i g}, l.Recent lag i g → m.Recent lag i g :=
    fun hg => hg.mono (hreadings ▸ List.Subset.refl _) hnow
  refine ⟨fun j q hq page' hpage => ?_,fun key e he => ?_,hanswers ▸ hreadings ▸ h.answers⟩
  · refine h.calls_set hr hnow hreads (hreadings ▸ List.Subset.refl _) ?_ hq hpage
    rintro page'' ⟨⟩
    exact ⟨g,hkeep hrecent,hgives⟩
  · rw [hcache,Store.set_eq_some] at he
    obtain ⟨rfl,rfl⟩ | ⟨hne,he⟩ := he
    · refine ⟨g,(hkeep hrecent).1,hgives,(hkeep hrecent).2.2.1,nofun,
        fun _ => ⟨i,(expiring_set hr hreads).mpr (.inl ⟨rfl,rfl,rfl⟩)⟩,fun j hj => ?_⟩
      obtain ⟨rfl,-⟩ | ⟨-,q,hq,hexpiring,-⟩ := (expiring_set hr hreads).mp hj
      · exact ⟨g,hkeep hrecent,Nat.le_add_right ..⟩
      · cases hst : q.stage with
        | expiring page' =>
          obtain ⟨g',hg',-⟩ := h.calls j q hq page' (by rw [hst]; rfl)
          exact ⟨g',hkeep hg',hg'.2.2.1.trans hrecent.2.2.2⟩
        | _ =>
          rw [hst] at hexpiring
          contradiction
    · obtain ⟨g',hkept⟩ := h.entries key e he
      refine ⟨g',hkept.mono (hreadings ▸ List.Subset.refl _) hnow (fun j hj => ?_) fun _ j hj => ?_⟩
      · obtain ⟨-,-,hkey⟩ | ⟨-,hj⟩ := (expiring_set hr hreads).mp hj
        · exact absurd hkey.symm hne
        · exact hj
      · refine (expiring_set hr hreads).mpr (.inr ⟨?_,hj⟩)
        rintro rfl
        exact hne (hj.self hr).2.symm

/-- `EXPIRE` sets the lifetime of what lives at the key. -/
theorem expireBuffers_cases (hwhole : c.cacheUsersTtl%1000 = 0) {cache : Store String CachedPage}
    {now : ℕ} {k : String} (h : CacheService.expireBuffers c cache now key k = some e) :
    (k = key ∧ ∃ old, cache key = some old ∧ e = ⟨old.value,some (now+c.cacheUsersTtl)⟩) ∨
      (cache k = some e ∧ (e.expiresAt = none → k ≠ key)) := by
  rw [CacheService.expireBuffers,if_pos hwhole,Store.expire] at h
  cases hlive : cache.live now key with
  | none =>
    rw [hlive] at h
    refine .inr ⟨h,?_⟩
    rintro hnone rfl
    have halive : e.alive now := by rw [Entry.alive,hnone]; rfl
    rw [(Store.live_eq_some _ _).mpr ⟨h,halive⟩] at hlive
    contradiction
  | some old =>
    rw [hlive] at h
    obtain ⟨rfl,rfl⟩ | ⟨hne,h⟩ := (Store.set_eq_some _ _).mp h
    · exact .inl ⟨rfl,old,((Store.live_eq_some _ _).mp hlive).1,rfl⟩
    · exact .inr ⟨h,fun _ => hne⟩

/-- A lifetime is set, and the call answers with its page. -/
theorem Sound.expire (hwhole : c.cacheUsersTtl%1000 = 0) (h : l.Sound c lag) {page : CachedPage}
    (hr : l.cache.reads[i]? = some r) (hstage : r.stage = .expiring page)
    (hcache : m.cache.cache =
      CacheService.expireBuffers c l.cache.cache l.cache.now r.request.key)
    (hnow : m.cache.now = l.cache.now)
    (hreads : m.cache.reads = l.cache.reads.set i {r with stage := .answered page})
    (hreadings : m.readings = l.readings)
    (hanswers : m.answers = ⟨r.request,page.page,l.cache.now⟩::l.answers) : m.Sound c lag := by
  have hkeep : ∀ {i g}, l.Recent lag i g → m.Recent lag i g :=
    fun hg => hg.mono (hreadings ▸ List.Subset.refl _) hnow
  have hfewer : ∀ {key j}, m.Expiring key j → l.Expiring key j := by
    intro key j hj
    obtain ⟨-,hfalse,-⟩ | ⟨-,hj⟩ := (expiring_set hr hreads).mp hj
    · contradiction
    · exact hj
  refine ⟨fun j q hq page' hpage => ?_,fun key e he => ?_,fun a ha => ?_⟩
  · exact h.calls_set hr hnow hreads (hreadings ▸ List.Subset.refl _) nofun hq hpage
  · rw [hcache] at he
    obtain ⟨rfl,old,hold,rfl⟩ | ⟨he,hne⟩ := expireBuffers_cases hwhole he
    · obtain ⟨g,hkept⟩ := h.entries r.request.key old hold
      obtain ⟨g',hrecent,htime⟩ := hkept.prolongs i ⟨r,hr,by rw [hstage]; rfl,rfl⟩
      refine ⟨g,hreadings ▸ hkept.mem,hkept.gives,hnow ▸ hkept.past,fun d hd => ?_,nofun,
        fun j hj => ?_⟩
      · cases hd
        have := hrecent.2.2.2
        omega
      · obtain ⟨g',hrecent,htime⟩ := hkept.prolongs j (hfewer hj)
        exact ⟨g',hkeep hrecent,htime⟩
    · obtain ⟨g,hkept⟩ := h.entries key e he
      refine ⟨g,hkept.mono (hreadings ▸ List.Subset.refl _) hnow (fun j => hfewer)
        fun hnone j hj => ?_⟩
      refine (expiring_set hr hreads).mpr (.inr ⟨?_,hj⟩)
      rintro rfl
      exact hne hnone (hj.self hr).2.symm
  · rw [hanswers] at ha
    rw [hreadings]
    cases List.mem_cons.mp ha with
    | inl hnew =>
      obtain ⟨g,hrecent,hgives⟩ := h.calls i r hr page (by rw [hstage]; rfl)
      refine ⟨g,hrecent.1,hnew ▸ hgives,hnew ▸ hrecent.2.2.1,?_⟩
      have := hrecent.2.2.2
      rw [hnew]
      show l.cache.now ≤ _
      omega
    | inr ha => exact h.answers a ha

/-- What lives in the cache is young enough. -/
theorem Sound.hit (h : l.Sound c lag) {page : CachedPage}
    (hget : l.cache.cache.lookup l.cache.now key = some page) :
    ∃ g ∈ l.readings, g.Gives c key page.page ∧ g.time ≤ l.cache.now ∧
      l.cache.now ≤ g.time+2*lag+c.cacheUsersTtl := by
  obtain ⟨e,hlive,rfl⟩ := Option.map_eq_some_iff.mp hget
  obtain ⟨he,halive⟩ := (Store.live_eq_some _ _).mp hlive
  obtain ⟨g,hkept⟩ := h.entries key e he
  refine ⟨g,hkept.mem,hkept.gives,hkept.past,?_⟩
  cases hexpires : e.expiresAt with
  | none =>
    obtain ⟨i,hi⟩ := hkept.pending hexpires
    obtain ⟨g',hrecent,htime⟩ := hkept.prolongs i hi
    have := hrecent.2.2.2
    omega
  | some d =>
    have hlate := hkept.expires d hexpires
    have hearly : l.cache.now < d := by simpa [Entry.alive,hexpires] using halive
    omega

theorem Sound.start (h : l.Sound c lag) (request : FindAllUsersRequest)
    (started : List Invalidation) :
    ({l with cache := {l.cache with reads := l.cache.reads++[⟨request,started,.admitting⟩]}} :
      CacheLog).Sound c lag := by
  have hold : ∀ {j : ℕ} {q : UsersRead}, (l.cache.reads++[⟨request,started,.admitting⟩])[j]? = some q →
      q.stage ≠ .admitting → l.cache.reads[j]? = some q := by
    intro j q hq hne
    rw [List.getElem?_append] at hq
    split_ifs at hq
    · exact hq
    · obtain rfl := List.mem_singleton.mp (List.mem_of_getElem? hq)
      exact absurd rfl hne
  refine ⟨fun j q hq page hpage => ?_,fun key e he => ?_,h.answers⟩
  · refine h.calls j q (hold hq fun hst => ?_) page hpage
    rw [hst] at hpage
    contradiction
  · obtain ⟨g,hkept⟩ := h.entries key e he
    refine ⟨g,hkept.mono (List.Subset.refl _) rfl ?_ fun _ => ?_⟩
    · rintro j ⟨q,hq,hexpiring,hkey⟩
      refine ⟨q,hold hq fun hst => ?_,hexpiring,hkey⟩
      rw [hst] at hexpiring
      contradiction
    · rintro j ⟨q,hq,hexpiring,hkey⟩
      exact ⟨q,by rw [← hq]; exact List.getElem?_append_left (List.getElem?_eq_some_iff.mp hq).1,
        hexpiring,hkey⟩

theorem Sound.access (hwhole : c.cacheUsersTtl%1000 = 0) (h : l.Sound c lag)
    (hr : l.cache.reads[i]? = some r) (hn : l.cache.access c r.request r.stage = some (stage,u)) :
    (l.record i r stage {u with reads := u.reads.set i {r with stage := stage}}).Sound c lag := by
  unfold UsersCache.access at hn
  split at hn
  next hstage =>
    split at hn
    all_goals
      cases hn
      refine h.keep hr (by rw [hstage]; rfl) rfl rfl rfl rfl ?_ nofun fun a ha hnot => absurd ha hnot
      simp [record,hstage]
  next hstage =>
    split at hn
    next page hget =>
      cases hn
      refine h.keep hr (by rw [hstage]; rfl) rfl rfl rfl rfl ?_ nofun fun a ha hnot => ?_
      · simp [record,hstage]
      · cases List.mem_cons.mp ha with
        | inl hnew => exact hnew ▸ h.hit hget
        | inr ha => exact absurd ha hnot
    next =>
      cases hn
      refine h.keep hr (by rw [hstage]; rfl) rfl rfl rfl rfl ?_ nofun fun a ha hnot => absurd ha hnot
      simp [record,hstage]
  next hstage =>
    split at hn
    next =>
      cases hn
      refine h.keep hr (by rw [hstage]; rfl) rfl rfl rfl rfl ?_ nofun fun a ha hnot => absurd ha hnot
      simp [record,hstage]
    next page hfind =>
      cases hn
      refine h.keep hr (by rw [hstage]; rfl) rfl rfl rfl rfl ?_ ?_ fun a ha hnot => absurd ha hnot
      · simp [record,hstage]
      · intro page' hpage
        cases hpage
        refine ⟨⟨i,r.request,l.cache.db,l.cache.now⟩,⟨?_,rfl,le_rfl,Nat.le_add_right ..⟩,rfl,hfind⟩
        simp [record,hstage]
  next page hstage =>
    cases hn
    exact h.set hr hstage rfl rfl rfl (by simp [record,hstage]) rfl
  next page hstage =>
    cases hn
    exact h.expire hwhole hr hstage rfl rfl rfl (by simp [record,hstage]) rfl
  · contradiction
  · contradiction

theorem Sound.next (hwhole : c.cacheUsersTtl%1000 = 0) (h : l.Sound c lag) {a : CacheAction}
    (hprompt : l.Prompt lag a) (hn : l.next c a = some m) : m.Sound c lag := by
  obtain ⟨t,ht,rfl,hread⟩ | ⟨i,r,stage,u,rfl,hr,haccess,rfl,-⟩ := next_cases hn
  · cases a with
    | wait ms =>
      cases ht
      exact h.wait hprompt
    | commit db =>
      cases ht
      exact h.shrink _ rfl rfl fun _ _ he => he
    | start request =>
      cases ht
      exact h.start request _
    | read i => exact absurd rfl (hread i)
    | scan w keys last =>
      simp only [UsersCache.next,UsersCache.scan,Option.bind_eq_bind,Option.ite_none_right_eq_some,
        Option.bind_eq_some_iff,Option.pure_def,Option.some.injEq] at ht
      obtain ⟨-,inv,-,owed,-,inv',-,rfl⟩ := ht
      exact h.shrink _ rfl rfl fun _ _ he => he
    | del w =>
      simp only [UsersCache.next,UsersCache.del] at ht
      split at ht
      next keys owed hw =>
        cases ht
        refine h.shrink _ rfl rfl fun key e he => ?_
        by_cases hmem : key ∈ keys
        · exact absurd he (by simp [UsersCache.prune,Store.del_of_mem _ hmem])
        · exact (Store.del_of_not_mem _ hmem).symm.trans he
      next => contradiction
  · exact h.access hwhole hr haccess

theorem Sound.initial (db : UsersDb) : (CacheLog.initial db).Sound c lag :=
  ⟨nofun,nofun,List.forall_mem_nil _⟩

end CacheLog
end NestHomework.UserService
