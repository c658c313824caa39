import NestHomework.UserService.Auth
import NestHomework.UserService.OtpReference

/-! `AuthService` and `AccountService`, one whole call after another, over the accounts and the
Redis store that holds the sessions beside the one-time codes. -/
namespace NestHomework.UserService
open Contracts Redis

/-- `id`, `username` and `email` carry unique indexes; `password` is a hash. -/
structure AccountRow where
  id : UuidString
  username : String
  email : String
  password : String
  role : Role
  isVerified : Bool
  deletedAt : Option ℕ
  deriving DecidableEq

structure JwtPayload where
  id : String
  role : Role
  deriving DecidableEq, Repr

/-- The libraries of hashes and tokens, and the environment. -/
structure AuthConfig (Hash : Type) where
  otp : OtpConfig Hash
  tokens : TokenOptions
  pepper : String
  argonHash : String → ℕ → String
  argonVerify : String → String → Bool
  jwtSign : JwtPayload → ℕ → ℕ → String
  jwtVerify : ℕ → String → Option JwtPayload

namespace HashService
variable {Hash : Type} (c : AuthConfig Hash)

def hash (password : String) (salt : ℕ) : String := c.argonHash (password++c.pepper) salt

def verify (hash password : String) : Bool := c.argonVerify hash (password++c.pepper)

end HashService

/-- What has happened to accounts, and the tokens that were signed with the accounts as they were
then. -/
inductive AuthEvent where
  | registered (id : UuidString) (password : String)
  | changedPassword (id : UuidString) (password : String)
  | acceptedPassword (id : UuidString) (password : String)
  | consumedOtp (id : UuidString)
  | signed (payload : JwtPayload) (accounts : List AccountRow)
  deriving DecidableEq

/-- The accounts, Redis, the clock in milliseconds, and the history, the newest event first. -/
structure AuthState (Hash : Type) where
  accounts : List AccountRow
  store : Store String (OtpValue Hash)
  now : ℕ
  events : List AuthEvent

inductive AuthError where
  | rpc (error : RpcException)
  | otp (error : OtpError)
  | database (error : String)
  | redis (error : String)
  deriving DecidableEq, Repr

inductive AuthAnswer where
  | message (text : String)
  | code (code : String)
  | tokens (accessToken refreshToken : String)
  deriving DecidableEq, Repr

/-- The columns that `findBy` may look for. An empty value is no condition, and no condition at all
finds nothing. -/
structure FindBy where
  id : String
  email : String
  username : String

def FindBy.holds (p : FindBy) (a : AccountRow) : Bool :=
  (p.id ≠ "" && a.id.text = p.id) || (p.email ≠ "" && a.email = p.email) ||
    (p.username ≠ "" && a.username = p.username)

namespace AccountRepository

def findBy (accounts : List AccountRow) (p : FindBy) : Option AccountRow := accounts.find? p.holds

/-- `INSERT`, under the unique indexes. -/
def create (accounts : List AccountRow) (id : UuidString) (email username password : String) :
    Except AuthError (List AccountRow) :=
  if accounts.any (fun a => a.id = id || a.email = email || a.username = username) then
    .error (.database "Unique constraint failed")
  else .ok (accounts++[⟨id,username,email,password,.user,false,none⟩])

/-- `UPDATE .. WHERE id = ..` -/
def update (accounts : List AccountRow) (id : UuidString) (patch : AccountRow → AccountRow) :
    List AccountRow :=
  accounts.map (fun a => if a.id = id then patch a else a)

end AccountRepository

def sessionKey (id : String) : String := "refresh:"++id

def wrongCredentials : AuthError := .rpc (unauthenticated "Неверный логин или пароль")

def invalidEmail : AuthError :=
  .rpc ⟨some .invalidArgument,"Аккаунт с такой почтой либо не существует, либо он верифицирован"⟩

def codeSent : AuthAnswer :=
  .message "Код отправлен на почту. Ссылка на почту: http://localhost:8025/"

namespace AuthService
variable {Hash : Type} (c : AuthConfig Hash) (s : AuthState Hash)

/-- `signTokens`, and `SessionService.set`: the lifetime of a key is a whole number of seconds. -/
def authenticate (id : UuidString) (role : Role) : Except AuthError AuthAnswer × AuthState Hash :=
  let payload : JwtPayload := ⟨id.text,role⟩
  let accessToken := c.jwtSign payload (s.now/1000) (s.now/1000+c.tokens.accessTtl/1000)
  let refreshToken := c.jwtSign payload (s.now/1000) (s.now/1000+c.tokens.refreshTtl/1000)
  let s := {s with events := .signed payload s.accounts::s.events}
  if c.tokens.refreshTtl%1000 ≠ 0 then
    (.error (.redis "ERR value is not an integer or out of range"),s)
  else
    let expiresAt := s.now+c.tokens.refreshTtl
    (.ok (.tokens accessToken refreshToken),
      {s with store := s.store.set (sessionKey id.text) (.text refreshToken) (some expiresAt)})

/-- A call of `OtpService.generate`, whose store is the one of the sessions. -/
def sendCode (id : UuidString) (key : OtpKey) (code : String) :
    Except AuthError String × AuthState Hash :=
  let (result,store) := OtpService.generate c.otp s.store s.now id key code
  (result.mapError .otp,{s with store := store})

/-- `id`, `salt` and `code` are what `uuidv7`, `argon2` and `generateCode` yield. -/
def register (email username password : String) (id : UuidString) (salt : ℕ) (code : String) :
    Except AuthError AuthAnswer × AuthState Hash :=
  match AccountRepository.findBy s.accounts ⟨"",email,username⟩ with
  | some _ => (.error (.rpc ⟨some .alreadyExists,"Аккаунт с такими данными уже существует"⟩),s)
  | none =>
    match AccountRepository.create s.accounts id email username
        (HashService.hash c password salt) with
    | .error e => (.error e,s)
    | .ok accounts =>
      let s := {s with accounts := accounts, events := .registered id password::s.events}
      let (result,s) := sendCode c s id .email code
      (result.map fun _ => codeSent,s)

def resend (email code : String) : Except AuthError AuthAnswer × AuthState Hash :=
  match AccountRepository.findBy s.accounts ⟨"",email,""⟩ with
  | none => (.error invalidEmail,s)
  | some account =>
    if account.isVerified || account.deletedAt.isSome then (.error invalidEmail,s)
    else
      let (result,s) := sendCode c s account.id .email code
      (result.map fun _ => codeSent,s)

def login (username password : String) : Except AuthError AuthAnswer × AuthState Hash :=
  match AccountRepository.findBy s.accounts ⟨"","",username⟩ with
  | none => (.error wrongCredentials,s)
  | some account =>
    if !account.isVerified || account.deletedAt.isSome then (.error wrongCredentials,s)
    else if !HashService.verify c account.password password then (.error wrongCredentials,s)
    else
      authenticate c {s with events := .acceptedPassword account.id password::s.events} account.id
        account.role

def refresh (refreshToken : String) : Except AuthError AuthAnswer × AuthState Hash :=
  match c.jwtVerify s.now refreshToken with
  | none => (.error (.rpc (unauthenticated "Невалидный токен")),s)
  | some payload =>
    match OtpService.get s.store s.now (sessionKey payload.id) with
    | .error e => (.error (.otp e),s)
    | .ok storedToken =>
      if storedToken ≠ some refreshToken then
        (.error (.rpc (unauthenticated "Время сессии истекло")),s)
      else
        match AccountRepository.findBy s.accounts ⟨payload.id,"",""⟩ with
        | none => (.error (.rpc (unauthenticated "Недействительный токен")),s)
        | some account =>
          if account.deletedAt.isSome then
            (.error (.rpc (unauthenticated "Недействительный токен")),s)
          else authenticate c s account.id account.role

def logout (refreshToken : String) : Except AuthError AuthAnswer × AuthState Hash :=
  match c.jwtVerify s.now refreshToken with
  | none => (.ok (.message "Выход из системы"),s)
  | some payload =>
    (.ok (.message "Выход из системы"),{s with store := s.store.del [sessionKey payload.id]})

variable [DecidableEq Hash]

def verify (email code : String) : Except AuthError AuthAnswer × AuthState Hash :=
  match AccountRepository.findBy s.accounts ⟨"",email,""⟩ with
  | none => (.error invalidEmail,s)
  | some account =>
    if account.isVerified || account.deletedAt.isSome then (.error invalidEmail,s)
    else
      match OtpService.verify c.otp s.store s.now account.id code .email with
      | (.error e,store) => (.error (.otp e),{s with store := store})
      | (.ok _,store) =>
        let patch (a : AccountRow) : AccountRow := {a with isVerified := true}
        let s := {s with
          accounts := AccountRepository.update s.accounts account.id patch, store := store,
          events := .consumedOtp account.id::s.events}
        authenticate c s (patch account).id (patch account).role

end AuthService

namespace AccountService
variable {Hash : Type} (c : AuthConfig Hash) (s : AuthState Hash)

def findAndCheckAccount (id : String) : Except AuthError AccountRow :=
  match AccountRepository.findBy s.accounts ⟨id,"",""⟩ with
  | none => .error (.rpc (unauthenticated "Аккаунт не существует"))
  | some account =>
    if account.deletedAt.isSome then .error (.rpc (unauthenticated "Аккаунт не существует"))
    else .ok account

def changePassword (accountId oldPassword code : String) :
    Except AuthError AuthAnswer × AuthState Hash :=
  match findAndCheckAccount s accountId with
  | .error e => (.error e,s)
  | .ok account =>
    if !HashService.verify c account.password oldPassword then
      (.error (.rpc (unauthenticated "Неверный пароль")),s)
    else
      let (result,s) := AuthService.sendCode c s account.id .password code
      (result.map .code,s)

def delete (accountId : String) : Except AuthError AuthAnswer × AuthState Hash :=
  match findAndCheckAccount s accountId with
  | .error e => (.error e,s)
  | .ok account =>
    let accounts := AccountRepository.update s.accounts account.id
      (fun a => {a with deletedAt := some s.now})
    (.ok (.message "Аккаунт удален"),{s with accounts := accounts})

variable [DecidableEq Hash]

def confirmPassword (accountId code newPassword : String) (salt : ℕ) :
    Except AuthError AuthAnswer × AuthState Hash :=
  match findAndCheckAccount s accountId with
  | .error e => (.error e,s)
  | .ok account =>
    match OtpService.verify c.otp s.store s.now account.id code .password with
    | (.error e,store) => (.error (.otp e),{s with store := store})
    | (.ok _,store) =>
      let hash := HashService.hash c newPassword salt
      let accounts := AccountRepository.update s.accounts account.id
        (fun a => {a with password := hash})
      (.ok (.message "Пароль изменен"),{s with
        accounts := accounts, store := store,
        events := .changedPassword account.id newPassword::s.events})

end AccountService

/-- A call of a client, with what the libraries yield in it. -/
inductive AuthStep where
  | wait (ms : ℕ)
  | register (email username password : String) (id : UuidString) (salt : ℕ) (code : String)
  | resend (email code : String)
  | verify (email code : String)
  | login (username password : String)
  | refresh (refreshToken : String)
  | logout (refreshToken : String)
  | changePassword (accountId oldPassword code : String)
  | confirmPassword (accountId code newPassword : String) (salt : ℕ)
  | delete (accountId : String)

namespace AuthState
variable {Hash : Type} [DecidableEq Hash] (c : AuthConfig Hash)

def initial : AuthState Hash := ⟨[],.empty,0,[]⟩

def next (s : AuthState Hash) : AuthStep → AuthState Hash
  | .wait ms => {s with now := s.now+ms}
  | .register email username password id salt code =>
    (AuthService.register c s email username password id salt code).2
  | .resend email code => (AuthService.resend c s email code).2
  | .verify email code => (AuthService.verify c s email code).2
  | .login username password => (AuthService.login c s username password).2
  | .refresh refreshToken => (AuthService.refresh c s refreshToken).2
  | .logout refreshToken => (AuthService.logout c s refreshToken).2
  | .changePassword accountId oldPassword code =>
    (AccountService.changePassword c s accountId oldPassword code).2
  | .confirmPassword accountId code newPassword salt =>
    (AccountService.confirmPassword c s accountId code newPassword salt).2
  | .delete accountId => (AccountService.delete s accountId).2

def after (steps : List AuthStep) : AuthState Hash := steps.foldl (next c) initial

end AuthState
end NestHomework.UserService
