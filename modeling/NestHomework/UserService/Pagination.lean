import NestHomework.Shared.Paging
import NestHomework.UserService.SoftDelete

/-! `findAll` page after page. A client starts without a cursor and goes on from `nextCursor` while there
is a next page. -/
namespace NestHomework.UserService
open Postgres Shared Transition

/-- A client between two calls of `findAll`, with the data of the pages so far. -/
structure Crawl where
  pages : List (List UserResponse)
  cursor : Option String
  hasNextPage : Bool

namespace UsersDb
variable (db : UsersDb) (c : UsersConfig) (limit : ℕ) (username : Option String)

/-- The accounts that the filter lets through. -/
def matching : List StoredAccount := db.accounts.filter (UsersRepository.contains c username)

/-- What a client is shown. -/
def shown (a : StoredAccount) : UserResponse := db.select (fun _ => true) a

end UsersDb

namespace Crawl
variable (db : UsersDb) (c : UsersConfig) (limit : ℕ) (username : Option String)

def start : Crawl := ⟨[],none,true⟩

/-- A page, when the database returns the candidates in this order. Accounts of one moment come in any
order, and in another one the next time. -/
def next (s : Crawl) (order : List StoredAccount) : Option Crawl :=
  if s.hasNextPage ∧
      Sorts StoredAccount.createdAt (UsersRepository.candidates db c s.cursor username) order then
    match UsersRepository.findAllOf db s.cursor limit order with
    | .error _ => none
    | .ok page => some ⟨s.pages++[page.data],page.nextCursor,page.hasNextPage⟩
  else none

/-- Whatever the database does with accounts of one moment, a client comes to the last page, and has then
seen every account that matches once, the older ones first, in pages that are not too long. -/
structure EnumeratesOnce : Prop where
  answered : ∀ orders s, runs (next db c limit username) start orders = some s → s.hasNextPage →
    ∀ order, Sorts StoredAccount.createdAt (UsersRepository.candidates db c s.cursor username) order →
      ∃ t, next db c limit username s order = some t
  terminates : ∃ n, ∀ orders s, runs (next db c limit username) start orders = some s →
    orders.length ≤ n
  complete : ∀ orders s, runs (next db c limit username) start orders = some s →
    s.hasNextPage = false → s.pages.flatten.Perm ((db.matching c username).map db.shown)
  sorted : ∀ orders s, runs (next db c limit username) start orders = some s →
    s.hasNextPage = false → s.pages.flatten.Pairwise (·.createdAt ≤ ·.createdAt)
  bounded : ∀ orders s, runs (next db c limit username) start orders = some s →
    ∀ page ∈ s.pages, page.length ≤ limit

/-- What a client has seen of what has been read. -/
def of (r : Reader StoredAccount) : Crawl :=
  ⟨r.pages.map (·.map db.shown),r.cursor.map (·.id.text),!r.finished⟩

variable {db c limit username} {r : Reader StoredAccount} {cursor : Option StoredAccount}

section Query

theorem given_id (cursor : Option StoredAccount) :
    UsersRepository.given (cursor.map (·.id.text)) = cursor.map (·.id.text) := by
  cases cursor with
  | none => rfl
  | some a =>
    simp [UsersRepository.given,a.id.text_ne]

theorem candidates_of (hids : (db.accounts.map (·.id)).Nodup)
    (hcursor : ∀ a ∈ cursor, a ∈ db.matching c username) :
    UsersRepository.candidates db c (cursor.map (·.id.text)) username =
      Reader.source StoredAccount.createdAt (db.matching c username) cursor := by
  unfold UsersRepository.candidates
  rw [given_id]
  cases cursor with
  | none => rfl
  | some a =>
    have hfind : db.accounts.find? (fun b => b.id.text = a.id.text) = some a :=
      (UsersDb.account_iff hids).mpr ⟨List.mem_of_mem_filter (hcursor a rfl),rfl⟩
    simp only [Option.map_some,hfind]
    rfl

theorem skip_of (cursor : Option StoredAccount) :
    UsersRepository.skip (cursor.map (·.id.text)) = Reader.skip cursor := by
  rw [UsersRepository.skip,given_id,Option.isSome_map]
  rfl

end Query

/-- The client reads page by page. -/
theorem next_of (hids : (db.accounts.map (·.id)).Nodup) (hlimit : 0 < limit)
    (h : r.Within (db.matching c username)) (order : List StoredAccount) :
    next db c limit username (of db r) order =
      (Reader.next StoredAccount.createdAt (db.matching c username) limit r order).map (of db) := by
  unfold next Reader.next UsersRepository.findAllOf
  simp only [of,candidates_of hids h.2,skip_of]
  have hshown : (db.select fun _ => true) = db.shown := rfl
  generalize (order.drop (Reader.skip r.cursor)).take (limit+1) = rows
  cases r.finished with
  | true => simp
  | false =>
    by_cases horder : Sorts StoredAccount.createdAt
        (Reader.source StoredAccount.createdAt (db.matching c username) r.cursor) order
    · by_cases hlen : rows.length > limit
      · have hpos : 0 < rows.dropLast.length := by
          rw [List.length_dropLast]
          omega
        obtain ⟨last,hlast⟩ := Option.isSome_iff_exists.mp
          (List.getLast?_isSome.mpr (List.ne_nil_of_length_pos hpos))
        simp [horder,hlen,hlast,of,hshown]
      · simp [horder,hlen,of,hshown]
    · simp [horder]

theorem within_start : Reader.start.Within (db.matching c username) :=
  ⟨fun _ ha => absurd ha List.not_mem_nil,fun _ ha => nomatch ha⟩

theorem runs_of (hids : (db.accounts.map (·.id)).Nodup) (hlimit : 0 < limit)
    (orders : List (List StoredAccount)) : runs (next db c limit username) start orders =
      (runs (Reader.next StoredAccount.createdAt (db.matching c username) limit) Reader.start
        orders).map (of db) :=
  runs_map (of db) (fun _ _ _ h hn => Reader.Within.next h hn)
    (fun _ order h => next_of hids hlimit h order) within_start orders

/-- Accounts are told apart by what is shown of them. -/
theorem perm_of_shown (hids : (db.accounts.map (·.id)).Nodup) {accounts rows : List StoredAccount}
    (haccounts : ∀ a ∈ accounts, a ∈ db.accounts) (hrows : rows.Sublist db.accounts)
    (h : (accounts.map db.shown).Perm (rows.map db.shown)) : accounts.Perm rows := by
  have hid : (accounts.map (·.id)).Perm (rows.map (·.id)) := by
    have hshown := h.map UserResponse.id
    rwa [List.map_map,List.map_map] at hshown
  have hnodup : (accounts.map (·.id)).Nodup := hid.nodup_iff.mpr (hids.sublist (hrows.map _))
  refine (List.perm_ext_iff_of_nodup hnodup.of_map (hids.of_map.sublist hrows)).mpr fun a => ?_
  constructor
  · intro ha
    obtain ⟨b,hb,hsame⟩ := List.mem_map.mp (hid.mem_iff.mp (List.mem_map_of_mem ha))
    rwa [List.inj_on_of_nodup_map hids (haccounts a ha) (hrows.mem hb) hsame.symm]
  · intro ha
    obtain ⟨b,hb,hsame⟩ := List.mem_map.mp (hid.mem_iff.mpr (List.mem_map_of_mem ha))
    rwa [List.inj_on_of_nodup_map hids (hrows.mem ha) (haccounts b hb) hsame.symm]

theorem flatten_of (db : UsersDb) (r : Reader StoredAccount) :
    (of db r).pages.flatten = r.pages.flatten.map db.shown := by
  rw [of,List.map_flatten]

/-- The client sees what the reader reads. -/
theorem enumeratesOnce_iff (hids : (db.accounts.map (·.id)).Nodup) (hlimit : 0 < limit) :
    EnumeratesOnce db c limit username ↔
      Reader.Enumerates StoredAccount.createdAt (db.matching c username) limit := by
  have hrun : ∀ {orders s}, runs (next db c limit username) start orders = some s ↔
      ∃ r, runs (Reader.next StoredAccount.createdAt (db.matching c username) limit) Reader.start
        orders = some r ∧ of db r = s := fun {orders s} => by
    rw [runs_of hids hlimit,Option.map_eq_some_iff]
  have hwithin : ∀ {orders r}, runs (Reader.next StoredAccount.createdAt (db.matching c username) limit)
      Reader.start orders = some r → r.Within (db.matching c username) := fun hr =>
    runs_invariant' (fun _ _ _ h hn => Reader.Within.next h hn) within_start hr
  have hsub : (db.matching c username).Sublist db.accounts := List.filter_sublist
  constructor
  · intro h
    refine ⟨?_,fun orders r hr hfinished => ?_,fun orders r hr page hpage => ?_⟩
    · obtain ⟨n,hn⟩ := h.terminates
      exact ⟨n,fun orders r hr => hn orders (of db r) (hrun.mpr ⟨r,hr,rfl⟩)⟩
    · have hlast : (of db r).hasNextPage = false := by rw [of,hfinished]; rfl
      have hperm := h.complete orders (of db r) (hrun.mpr ⟨r,hr,rfl⟩) hlast
      have hsorted := h.sorted orders (of db r) (hrun.mpr ⟨r,hr,rfl⟩) hlast
      rw [flatten_of] at hperm hsorted
      rw [List.pairwise_map] at hsorted
      exact ⟨perm_of_shown hids (fun a ha => hsub.mem ((hwithin hr).1 a ha)) hsub hperm,hsorted⟩
    · have hlen := h.bounded orders (of db r) (hrun.mpr ⟨r,hr,rfl⟩) _ (List.mem_map_of_mem hpage)
      rwa [List.length_map] at hlen
  · intro h
    refine ⟨fun orders s hs hnext order horder => ?_,?_,fun orders s hs hlast => ?_,
      fun orders s hs hlast => ?_,fun orders s hs page hpage => ?_⟩
    · obtain ⟨r,hr,rfl⟩ := hrun.mp hs
      rw [next_of hids hlimit (hwithin hr)]
      simp only [of,candidates_of hids (hwithin hr).2] at horder
      obtain ⟨t,ht⟩ := Reader.next_of_sorts limit (by simpa [of] using hnext) horder
      exact ⟨of db t,by rw [ht]; rfl⟩
    · obtain ⟨n,hn⟩ := h.terminates
      refine ⟨n,fun orders s hs => ?_⟩
      obtain ⟨r,hr,rfl⟩ := hrun.mp hs
      exact hn orders r hr
    · obtain ⟨r,hr,rfl⟩ := hrun.mp hs
      rw [flatten_of]
      exact (h.complete orders r hr (by simpa [of] using hlast)).1.map _
    · obtain ⟨r,hr,rfl⟩ := hrun.mp hs
      rw [flatten_of]
      exact List.pairwise_map.mpr (h.complete orders r hr (by simpa [of] using hlast)).2
    · obtain ⟨r,hr,rfl⟩ := hrun.mp hs
      obtain ⟨rows,hrows,rfl⟩ := List.mem_map.mp hpage
      rw [List.length_map]
      exact h.bounded orders r hr rows hrows

/-- The pages show every account that matches once, if and only if no full page that is followed by
another ends with an account whose time of creation another one shares. -/
theorem enumerates_once_iff (hids : (db.accounts.map (·.id)).Nodup) (hlimit : 0 < limit) :
    EnumeratesOnce db c limit username ↔
      Reader.UniqueBorders StoredAccount.createdAt (db.matching c username) limit := by
  have hrows : (db.matching c username).Nodup := hids.of_map.sublist List.filter_sublist
  rw [enumeratesOnce_iff hids hlimit,Reader.enumerates_iff hrows hlimit]

section Service
variable {config : UsersConfig} {s : UsersState} {request : FindAllUsersRequest}
  {page : FindAllUsersResponse}

/-- The page is an answer to the query, whatever the order of accounts of one moment. -/
def Answers (db : UsersDb) (c : UsersConfig) (cursor : Option String) (limit : ℕ)
    (username : Option String) (page : FindAllUsersResponse) : Prop :=
  ∃ order, Sorts StoredAccount.createdAt (UsersRepository.candidates db c cursor username) order ∧
    UsersRepository.findAllOf db cursor limit order = .ok page

theorem answers_of_findAll {cursor : Option String}
    (h : UsersRepository.findAll db c cursor limit username = .ok page) :
    Answers db c cursor limit username page :=
  ⟨_,⟨List.perm_insertionSort ..,List.pairwise_insertionSort ..⟩,h⟩

/-- A cache that holds an answer to the query changes nothing: the service gives one of the pages that the
database might give. -/
theorem answers_of_service
    (hcache : ∀ page ∈ s.cache.lookup s.now
        (CacheService.usersKey request.username request.cursor (request.limit.getD 10)),
      Answers s.db config request.cursor (request.limit.getD 10) request.username page)
    (h : (UsersService.findAll config s request).1 = .ok page) :
    Answers s.db config request.cursor (request.limit.getD 10) request.username page := by
  unfold UsersService.findAll at h
  split at h
  · contradiction
  · simp only at h
    split at h
    · rename_i cached hcached
      cases h
      exact hcache page hcached
    · split at h
      · contradiction
      · rename_i found hfound
        cases h
        exact answers_of_findAll hfound

end Service

section Schedules

def account (id : UuidString) (username : String) (createdAt : ℕ) : StoredAccount :=
  ⟨⟨id,username,username++"@mail.ru","hash",.user,true,none⟩,createdAt⟩

def carol : UuidString := ⟨"00000000-0000-7000-8000-00000000000c",by decide⟩

def dave : UuidString := ⟨"00000000-0000-7000-8000-00000000000d",by decide⟩

/-- The last two are created at once, and no page ends between them. -/
def four : UsersDb :=
  ⟨[account UsersState.alice "alice" 1,account UsersState.bob "bob" 2,account carol "carol" 3,
    account dave "dave" 3],[],[]⟩

theorem enumerates_once_iff_four : EnumeratesOnce four ⟨5,30000,containsInsensitive⟩ 2 none :=
  (enumerates_once_iff (by decide) (by decide)).mpr (by decide)

def alice : StoredAccount := account UsersState.alice "alice" 1

def bob : StoredAccount := account UsersState.bob "bob" 1

/-- The database puts alice first for the first page, and bob first for the second. -/
theorem alice_is_shown_twice : ∃ s,
    runs (next ⟨[alice,bob],[],[]⟩ ⟨5,30000,containsInsensitive⟩ 1 none) start [[alice,bob],[bob,alice]] =
      some s ∧ s.hasNextPage = false ∧ s.pages.flatten.map (·.username) = ["alice","alice"] ∧
      ¬EnumeratesOnce ⟨[alice,bob],[],[]⟩ ⟨5,30000,containsInsensitive⟩ 1 none := by
  have hrun : (runs (next ⟨[alice,bob],[],[]⟩ ⟨5,30000,containsInsensitive⟩ 1 none) start
      [[alice,bob],[bob,alice]]).map (fun s => (s.hasNextPage,s.pages.flatten.map (·.username))) =
        some (false,["alice","alice"]) := by decide +kernel
  obtain ⟨s,hs,hseen⟩ := Option.map_eq_some_iff.mp hrun
  obtain ⟨hlast,hnames⟩ := Prod.mk.inj hseen
  refine ⟨s,hs,hlast,hnames,fun h => ?_⟩
  have hperm := (h.complete _ s hs hlast).map (·.username)
  rw [hnames] at hperm
  exact absurd hperm (by decide)

end Schedules
end Crawl
end NestHomework.UserService
