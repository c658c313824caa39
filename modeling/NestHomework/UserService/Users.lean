import Mathlib.Data.List.MinMax
import Mathlib.Data.List.Sort
import NestHomework.UserService.Authentication

/-! Accounts, profiles and avatars: the calls that change them, the three queries that show them,
and the cache that one of the queries reads first. -/
namespace NestHomework.UserService
open Contracts Redis

structure StoredAccount extends AccountRow where
  createdAt : ℕ
  deriving DecidableEq

/-- `accountId` carries a unique index. -/
structure Profile where
  id : UuidString
  firstName : String
  lastName : String
  age : ℕ
  description : String
  accountId : UuidString
  deriving DecidableEq

/-- `name` carries a unique index. -/
structure Avatar where
  id : UuidString
  name : String
  profileId : UuidString
  createdAt : ℕ
  deletedAt : Option ℕ
  deriving DecidableEq

structure UsersDb where
  accounts : List StoredAccount
  profiles : List Profile
  avatars : List Avatar
  deriving DecidableEq

structure AvatarResponse where
  id : UuidString
  name : String
  deriving DecidableEq

structure ProfileResponse where
  id : UuidString
  firstName : String
  lastName : String
  age : ℕ
  description : String
  avatars : List AvatarResponse
  deriving DecidableEq

structure UserResponse where
  id : UuidString
  username : String
  email : String
  createdAt : ℕ
  profile : Option ProfileResponse
  deriving DecidableEq

/-- What `findBy` selects. -/
structure SelectedUser extends UserResponse where
  role : Role
  deletedAt : Option ℕ
  deriving DecidableEq

structure FindAllUsersResponse where
  data : List UserResponse
  nextCursor : Option String
  hasNextPage : Bool
  deriving DecidableEq

structure ActiveUserResponse where
  accountId : UuidString
  username : String
  email : String
  createdAt : ℕ
  profileId : UuidString
  firstName : String
  lastName : String
  age : ℕ
  description : String
  lastLoadedAvatar : Option String
  deriving DecidableEq

/-- `contains` is how the database searches a text for another one, without regard to case. -/
structure UsersConfig where
  maxAvatars : ℕ
  cacheUsersTtl : ℕ
  contains : String → String → Bool

/-- A search for a text that has no special characters. -/
def containsInsensitive (text part : String) : Bool := part.toLower.toList <:+: text.toLower.toList

namespace UsersDb
variable (db : UsersDb)

/-- An account as a nested select shows it. `keep` is the condition on its avatars. -/
def select (keep : Avatar → Bool) (a : StoredAccount) : UserResponse :=
  ⟨a.id,a.username,a.email,a.createdAt,
    (db.profiles.find? (fun p => p.accountId = a.id)).map fun p =>
      ⟨p.id,p.firstName,p.lastName,p.age,p.description,
        (db.avatars.filter (fun v => v.profileId = p.id && keep v)).map fun v => ⟨v.id,v.name⟩⟩⟩

end UsersDb

namespace UsersRepository
variable (db : UsersDb)

def findBy (p : FindBy) : Option SelectedUser :=
  (db.accounts.find? (fun a => p.holds a.toAccountRow)).map fun a =>
    {toUserResponse := db.select (fun v => v.deletedAt.isNone) a, role := a.role,
      deletedAt := a.deletedAt}

/-- An optional text that is empty counts as absent. -/
def given (text : Option String) : Option String := text.filter (fun t => t ≠ "")

/-- The filter on the username. -/
def contains (c : UsersConfig) (username : Option String) (a : StoredAccount) : Bool :=
  (given username).all (c.contains a.username)

/-- The rows that the query may return: those not older than the account that the cursor names, which
is looked up in the whole table. An unknown cursor leaves none. -/
def candidates (c : UsersConfig) (cursor username : Option String) : List StoredAccount :=
  let rows := db.accounts.filter (contains c username)
  match given cursor with
  | none => rows
  | some id =>
    match db.accounts.find? (fun a => a.id.text = id) with
    | none => []
    | some last => rows.filter (fun a => last.createdAt ≤ a.createdAt)

def skip (cursor : Option String) : ℕ := if (given cursor).isSome then 1 else 0

/-- What `findAll` makes of the candidates in the order in which they come. -/
def findAllOf (cursor : Option String) (limit : ℕ) (order : List StoredAccount) :
    Except AuthError FindAllUsersResponse :=
  let accounts := (order.drop (skip cursor)).take (limit+1)
  if accounts.length > limit then
    let accounts := accounts.dropLast
    match accounts.getLast? with
    | none => .error (.database "TypeError: Cannot read properties of undefined (reading 'id')")
    | some last => .ok ⟨accounts.map (db.select fun _ => true),some last.id.text,true⟩
  else .ok ⟨accounts.map (db.select fun _ => true),none,false⟩

/-- Accounts of one moment come as they stand in the table. -/
def findAll (c : UsersConfig) (cursor : Option String) (limit : ℕ) (username : Option String) :
    Except AuthError FindAllUsersResponse :=
  findAllOf db cursor limit ((candidates db c cursor username).insertionSort
    (fun a b => a.createdAt ≤ b.createdAt))

/-- The query joins the avatars twice: all that live are counted, the newest of them is shown. -/
def findActive (minAge maxAge : ℕ) : List ActiveUserResponse :=
  db.accounts.flatMap fun a =>
    (db.profiles.filter (fun p => p.accountId = a.id)).filterMap fun p =>
      let avatars := db.avatars.filter (fun v => v.profileId = p.id && v.deletedAt.isNone)
      if minAge ≤ p.age ∧ p.age ≤ maxAge ∧ avatars.length > 2 then
        some ⟨a.id,a.username,a.email,a.createdAt,p.id,p.firstName,p.lastName,p.age,p.description,
          (avatars.argmax (·.createdAt)).map (·.name)⟩
      else none

end UsersRepository

namespace ProfileRepository

/-- `INSERT`, under the unique indexes. -/
def create (db : UsersDb) (profile : Profile) : Except AuthError UsersDb :=
  if db.profiles.any (fun p => p.id = profile.id || p.accountId = profile.accountId) then
    .error (.database "Unique constraint failed")
  else .ok {db with profiles := db.profiles++[profile]}

/-- `UPDATE .. WHERE account_id = ..`. A field that is not given stays as it is. -/
def update (db : UsersDb) (accountId : UuidString) (firstName lastName : Option String)
    (age : Option ℕ) (description : String) : UsersDb :=
  let patch (p : Profile) : Profile := {p with
    firstName := firstName.getD p.firstName, lastName := lastName.getD p.lastName,
    age := age.getD p.age, description := description}
  {db with profiles := db.profiles.map (fun p => if p.accountId = accountId then patch p else p)}

end ProfileRepository

namespace AvatarRepository

/-- `INSERT`, under the unique indexes. -/
def create (db : UsersDb) (avatar : Avatar) : Except AuthError UsersDb :=
  if db.avatars.any (fun v => v.id = avatar.id || v.name = avatar.name) then
    .error (.database "Unique constraint failed")
  else .ok {db with avatars := db.avatars++[avatar]}

/-- The avatar of this name, when it is one of the account's. -/
def ofAccount (db : UsersDb) (accountId fileName : String) (v : Avatar) : Bool :=
  v.name = fileName && db.profiles.any (fun p => p.id = v.profileId && p.accountId.text = accountId)

/-- `UPDATE` of `deleted_at`, which needs a row to update. -/
def update (db : UsersDb) (accountId fileName : String) (now : ℕ) : Except AuthError UsersDb :=
  if db.avatars.any (ofAccount db accountId fileName) then
    .ok {db with avatars := db.avatars.map fun v =>
      if ofAccount db accountId fileName v then {v with deletedAt := some now} else v}
  else .error (.database "No record was found for an update")

end AvatarRepository

/-- The accounts that `AccountRepository` sees. -/
def UsersDb.accountRows (db : UsersDb) : List AccountRow := db.accounts.map (·.toAccountRow)

def accountAbsent (details : String) : AuthError := .rpc ⟨some .notFound,details⟩

def noProfile : AuthError := accountAbsent "Аккаунт либо удален, либо профиль не существует"

/-- The file of a path of two parts. -/
def fileOfPath (path : String) : Option String :=
  ((path.toList.splitOn '/')[1]?).map String.ofList

namespace UsersDb
variable (db : UsersDb)

/-- `AuthService.register`, as far as the accounts go. `password` is the hash. -/
def register (email username password : String) (id : UuidString) (now : ℕ) :
    Except AuthError UsersDb :=
  match AccountRepository.findBy db.accountRows ⟨"",email,username⟩ with
  | some _ => .error (.rpc ⟨some .alreadyExists,"Аккаунт с такими данными уже существует"⟩)
  | none =>
    match AccountRepository.create db.accountRows id email username password with
    | .error e => .error e
    | .ok _ =>
      .ok {db with accounts := db.accounts++[⟨⟨id,username,email,password,.user,false,none⟩,now⟩]}

/-- `AccountService.delete` -/
def delete (accountId : String) (now : ℕ) : Except AuthError UsersDb :=
  match AccountRepository.findBy db.accountRows ⟨accountId,"",""⟩ with
  | none => .error (.rpc (unauthenticated "Аккаунт не существует"))
  | some account =>
    if account.deletedAt.isSome then .error (.rpc (unauthenticated "Аккаунт не существует"))
    else
      .ok {db with accounts := db.accounts.map fun a =>
        if a.id = account.id then {a with deletedAt := some now} else a}

end UsersDb

section Accounts
variable {Hash : Type} (c : AuthConfig Hash) {s : AuthState Hash} {db : UsersDb}

/-- `register` does to the accounts what it does to them in `AuthService`. -/
theorem UsersDb.register_accountRows (h : s.accounts = db.accountRows)
    (email username password : String) (id : UuidString) (salt : ℕ) (code : String) (now : ℕ) :
    (AuthService.register c s email username password id salt code).2.accounts =
      match db.register email username (HashService.hash c password salt) id now with
      | .error _ => s.accounts
      | .ok db' => db'.accountRows := by
  unfold AuthService.register register
  rw [h]
  cases AccountRepository.findBy db.accountRows ⟨"",email,username⟩ with
  | some _ => exact h
  | none =>
    unfold AccountRepository.create
    by_cases htaken : db.accountRows.any
        (fun a => a.id = id || a.email = email || a.username = username)
    · simpa only [if_pos htaken] using h
    · simp only [if_neg htaken,AuthService.sendCode]
      simp only [accountRows,List.map_append,List.map_cons,List.map_nil]

theorem UsersDb.delete_accountRows (h : s.accounts = db.accountRows) (accountId : String) :
    (AccountService.delete s accountId).2.accounts =
      match db.delete accountId s.now with
      | .error _ => s.accounts
      | .ok db' => db'.accountRows := by
  unfold AccountService.delete AccountService.findAndCheckAccount delete
  rw [h]
  cases AccountRepository.findBy db.accountRows ⟨accountId,"",""⟩ with
  | none => exact h
  | some account =>
    cases hgone : account.deletedAt with
    | some t => simpa [hgone] using h
    | none =>
      simp only [hgone,Option.isSome_none,Bool.false_eq_true,if_false,AccountRepository.update,
        accountRows,List.map_map]
      refine List.map_congr_left fun a _ => ?_
      simp only [Function.comp_apply]
      split <;> rfl

end Accounts

namespace ProfileService
variable (db : UsersDb)

def findAndCheckUser (accountId : String) : Except AuthError SelectedUser :=
  match UsersRepository.findBy db ⟨accountId,"",""⟩ with
  | none => .error (accountAbsent "Пользователя не существует")
  | some user =>
    if user.deletedAt.isSome then .error (accountAbsent "Пользователя не существует") else .ok user

def createProfile (accountId firstName lastName : String) (age : ℕ) (description : String)
    (id : UuidString) : Except AuthError (ProfileResponse × UsersDb) :=
  match findAndCheckUser db accountId with
  | .error e => .error e
  | .ok user =>
    if user.profile.isSome then .error (.rpc ⟨some .alreadyExists,"Профиль уже существует"⟩)
    else
      (ProfileRepository.create db ⟨id,firstName,lastName,age,description,user.id⟩).map fun db =>
        (⟨id,firstName,lastName,age,description,[]⟩,db)

/-- The answer shows no avatars, whatever the profile has. -/
def updateProfile (accountId : String) (firstName lastName : Option String) (age : Option ℕ)
    (description : String) : Except AuthError (ProfileResponse × UsersDb) :=
  match findAndCheckUser db accountId with
  | .error e => .error e
  | .ok user =>
    match user.profile with
    | none => .error (accountAbsent "Сначала создайте профиль")
    | some p =>
      .ok (⟨p.id,firstName.getD p.firstName,lastName.getD p.lastName,age.getD p.age,description,[]⟩,
        ProfileRepository.update db user.id firstName lastName age description)

end ProfileService

namespace AvatarService
variable (db : UsersDb)

/-- The checks of `createAvatar`, which yield the profile and the name of the file. -/
def checkAvatar (c : UsersConfig) (accountId path : String) :
    Except AuthError (UuidString × String) :=
  match UsersRepository.findBy db ⟨accountId,"",""⟩ with
  | none => .error noProfile
  | some user =>
    if user.deletedAt.isSome then .error noProfile
    else
      match user.profile with
      | none => .error noProfile
      | some profile =>
        if profile.avatars.length ≥ c.maxAvatars then
          .error (.rpc ⟨some .invalidArgument,
            s!"Максимальное количество аватарок - {c.maxAvatars} шт."⟩)
        else
          match fileOfPath path with
          | none => .error (.database "Argument name is missing")
          | some fileName => .ok (profile.id,fileName)

def createAvatar (c : UsersConfig) (accountId path : String) (id : UuidString) (now : ℕ) :
    Except AuthError (AvatarResponse × UsersDb) :=
  match checkAvatar db c accountId path with
  | .error e => .error e
  | .ok (profileId,fileName) =>
    (AvatarRepository.create db ⟨id,fileName,profileId,now,none⟩).map fun db => (⟨id,fileName⟩,db)

def deleteAvatar (accountId fileName : String) (now : ℕ) : Except AuthError (String × UsersDb) :=
  match UsersRepository.findBy db ⟨accountId,"",""⟩ with
  | none => .error noProfile
  | some user =>
    if user.deletedAt.isSome || user.profile.isNone then .error noProfile
    else
      match AvatarRepository.update db accountId fileName now with
      | .error _ => .error (.rpc (unauthenticated "Нет прав"))
      | .ok db => .ok (s!"Аватар {fileName} успешно удален",db)

end AvatarService

structure FindAllUsersRequest where
  accountId : String
  username : Option String
  cursor : Option String
  limit : Option ℕ

/-- The tables, the cached pages and the clock in milliseconds. -/
structure UsersState where
  db : UsersDb
  cache : Store String FindAllUsersResponse
  now : ℕ

namespace CacheService

/-- What `cache:users:*` matches. -/
def usersPattern (key : String) : Bool := "cache:users:".toList.isPrefixOf key.toList

def usersKey (username cursor : Option String) (limit : ℕ) : String :=
  "cache:users:"++username.getD "all"++":cursor="++cursor.getD "start"++":limit="++toString limit

theorem usersPattern_usersKey (username cursor : Option String) (limit : ℕ) :
    usersPattern (usersKey username cursor limit) := by
  unfold usersPattern usersKey
  generalize "cache:users:" = start
  simp only [String.append_assoc,String.toList_append]
  exact List.isPrefixOf_iff_prefix.mpr (List.prefix_append ..)

variable {V : Type} (c : UsersConfig) (cache : Store String V) (now : ℕ) (key : String)

/-- Nobody reads the errors of the pipeline: a lifetime of broken seconds is refused, and the key
then stays for good. -/
def expireBuffers : Store String V :=
  if c.cacheUsersTtl%1000 = 0 then cache.expire now key (now+c.cacheUsersTtl) else cache

/-- The two commands of the pipeline. -/
def setBuffers (value : V) : Store String V :=
  expireBuffers c (cache.set key value none) now key

def invalidate : Store String V := fun key => if usersPattern key then none else cache key

end CacheService

namespace UsersService

def findMe (db : UsersDb) (accountId : String) : Except AuthError UserResponse :=
  match UsersRepository.findBy db ⟨accountId,"",""⟩ with
  | none => .error (accountAbsent "Профиль не найден")
  | some user =>
    if user.deletedAt.isSome then .error (accountAbsent "Профиль не найден")
    else .ok user.toUserResponse

/-- The check that both lists of users begin with. -/
def authorize (db : UsersDb) (accountId : String) : Except AuthError SelectedUser :=
  match UsersRepository.findBy db ⟨accountId,"",""⟩ with
  | none => .error (.rpc (unauthenticated "Нет доступа"))
  | some user =>
    if user.deletedAt.isSome then .error (.rpc (unauthenticated "Нет доступа")) else .ok user

def findAll (c : UsersConfig) (s : UsersState) (r : FindAllUsersRequest) :
    Except AuthError FindAllUsersResponse × UsersState :=
  match authorize s.db r.accountId with
  | .error e => (.error e,s)
  | .ok _ =>
    let limit := r.limit.getD 10
    let key := CacheService.usersKey r.username r.cursor limit
    match s.cache.lookup s.now key with
    | some page => (.ok page,s)
    | none =>
      match UsersRepository.findAll s.db c r.cursor limit r.username with
      | .error e => (.error e,s)
      | .ok page => (.ok page,{s with cache := CacheService.setBuffers c s.cache s.now key page})

def findActive (db : UsersDb) (accountId : String) (minAge maxAge : ℕ) :
    Except AuthError (List ActiveUserResponse) :=
  (authorize db accountId).map fun _ => UsersRepository.findActive db minAge maxAge

end UsersService

/-- A call that changes the tables, with the id that `uuidv7` yields in it. -/
inductive UsersWrite where
  | register (email username password : String) (id : UuidString)
  | createProfile (accountId firstName lastName : String) (age : ℕ) (description : String)
      (id : UuidString)
  | updateProfile (accountId : String) (firstName lastName : Option String) (age : Option ℕ)
      (description : String)
  | createAvatar (accountId path : String) (id : UuidString)
  | deleteAvatar (accountId fileName : String)
  | delete (accountId : String)

def UsersWrite.isCreateAvatar : UsersWrite → Bool
  | .createAvatar .. => true
  | _ => false

/-- The tables after a call at the time `now`, unless it is refused. -/
def UsersDb.write (c : UsersConfig) (db : UsersDb) (now : ℕ) : UsersWrite → Except AuthError UsersDb
  | .register email username password id => db.register email username password id now
  | .createProfile accountId firstName lastName age description id =>
    (ProfileService.createProfile db accountId firstName lastName age description id).map (·.2)
  | .updateProfile accountId firstName lastName age description =>
    (ProfileService.updateProfile db accountId firstName lastName age description).map (·.2)
  | .createAvatar accountId path id =>
    (AvatarService.createAvatar db c accountId path id now).map (·.2)
  | .deleteAvatar accountId fileName => (AvatarService.deleteAvatar db accountId fileName now).map (·.2)
  | .delete accountId => db.delete accountId now

/-- A step of the service: time goes by, or a client calls it. -/
inductive UsersCall where
  | wait (ms : ℕ)
  | write (write : UsersWrite)
  | findAll (request : FindAllUsersRequest)

namespace UsersState
variable (c : UsersConfig) (s : UsersState)

def initial : UsersState := ⟨⟨[],[],[]⟩,.empty,0⟩

/-- A write that goes through is followed by `USERS_INVALIDATE`, a refused one changes nothing. -/
def next : UsersCall → UsersState
  | .wait ms => {s with now := s.now+ms}
  | .write write =>
    match s.db.write c s.now write with
    | .error _ => s
    | .ok db => {s with db := db, cache := CacheService.invalidate s.cache}
  | .findAll request => (UsersService.findAll c s request).2

def after (calls : List UsersCall) : UsersState := calls.foldl (next c) initial

end UsersState
end NestHomework.UserService
