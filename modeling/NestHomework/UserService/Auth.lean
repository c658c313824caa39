import Mathlib.Tactic
import NestHomework.Contracts.Grpc
import NestHomework.Contracts.Kafka
import NestHomework.Transition.Run

/-! `AuthService` over the accounts, the sessions and a clock. Calls run side by side, one database
or Redis command at a time. -/
namespace NestHomework.UserService
open Contracts Transition

inductive Role where
  | user
  | admin
  deriving DecidableEq, Repr

/-- `username` and `email` carry unique indexes. -/
structure Account where
  id : Uuid
  username : String
  email : String
  role : Role
  isVerified : Bool
  deleted : Bool
  deriving DecidableEq, Repr

/-- A token that is signed with the shared secret. Its value is a function of the payload and of
the two dates, which are whole seconds. -/
structure Jwt where
  id : Uuid
  role : Role
  iat : ℕ
  exp : ℕ
  deriving DecidableEq, Repr

/-- The lifetimes of the tokens, in milliseconds. -/
structure TokenOptions where
  accessTtl : ℕ
  refreshTtl : ℕ

structure Tokens where
  accessToken : Jwt
  refreshToken : Jwt
  deriving DecidableEq, Repr

namespace TokenService

def sign (ttl now : ℕ) (id : Uuid) (role : Role) : Jwt := ⟨id,role,now/1000,now/1000+ttl/1000⟩

def signTokens (o : TokenOptions) (now : ℕ) (id : Uuid) (role : Role) : Tokens :=
  ⟨sign o.accessTtl now id role,sign o.refreshTtl now id role⟩

/-- The check of a string, which is `none` when it is not signed with the secret. -/
def verify (now : ℕ) : Option Jwt → Except String Jwt
  | none => .error "Невалидный токен"
  | some token => if token.exp ≤ now/1000 then .error "Токен истёк" else .ok token

end TokenService

/-- The value at `refresh:{id}`. -/
structure Session where
  token : Jwt
  expiresAt : ℕ
  deriving DecidableEq, Repr

inductive AuthReply where
  | message (text : String)
  | tokens (tokens : Tokens)
  deriving DecidableEq, Repr

/-- Where a call is: before its next command, or before it signs. -/
inductive AuthStage where
  /-- before `findBy({ email, username })` -/
  | register (email username : String) (otp : Except RpcException Unit)
  /-- before the `INSERT` -/
  | create (email username : String) (otp : Except RpcException Unit)
  /-- before `findBy({ email })` -/
  | verify (email : String) (otp : Except RpcException Unit)
  /-- before the `UPDATE` -/
  | patch
  /-- before `findBy({ username })` -/
  | login (username : String) (isValidPassword : Bool)
  /-- before the `GET` -/
  | refresh (refreshToken : Jwt)
  /-- before `findBy({ id })` -/
  | find (refreshToken : Jwt)
  /-- before `signTokens` -/
  | authenticate (role : Role) (refreshToken : Option Jwt)
  /-- before the `SET` -/
  | set (tokens : Tokens) (refreshToken : Option Jwt)
  /-- before the `DEL`; `alone` when no other call of the account was running at the start -/
  | logout (alone : Bool)
  | returned (result : Except RpcException AuthReply)

def AuthStage.running : AuthStage → Bool
  | .returned _ => false
  | _ => true

/-- A call, with the account that it is about. -/
structure AuthCall where
  account : Uuid
  stage : AuthStage

/-- A refresh token that `refresh` has exchanged, and whether it was signed before a logout that
met no other call of the account. -/
structure Exchange where
  token : Jwt
  loggedOut : Bool
  deriving DecidableEq, Repr

/-- The accounts, the sessions, the clock in milliseconds, the calls in the order of their starts,
and the history: the signed tokens, the exchanged refresh tokens, and the refresh tokens signed
before a logout that met no other call of their account. -/
structure AuthRun where
  accounts : List Account
  session : Uuid → Option Session
  now : ℕ
  calls : List AuthCall
  accessTokens : List Jwt
  refreshTokens : List Jwt
  exchanged : List Exchange
  loggedOut : List Jwt

inductive AuthAction where
  | register (account : Uuid) (email username : String) (otp : Except RpcException Unit)
  | verify (account : Uuid) (email : String) (otp : Except RpcException Unit)
  | login (account : Uuid) (username : String) (isValidPassword : Bool)
  | refresh (refreshToken : Option Jwt)
  | logout (refreshToken : Option Jwt)
  | command (i : ℕ)
  /-- `AccountService.delete` -/
  | delete (account : Uuid)
  | tick (ms : ℕ)

def unauthenticated (details : String) : RpcException := ⟨some .unauthenticated,details⟩

namespace AuthRun
variable (o : TokenOptions) (s : AuthRun)

def initial : AuthRun := ⟨[],fun _ => none,0,[],[],[],[],[]⟩

def start (account : Uuid) (stage : AuthStage) : AuthRun :=
  {s with calls := s.calls++[⟨account,stage⟩]}

def goTo (i : ℕ) (c : AuthCall) (stage : AuthStage) : AuthRun :=
  {s with calls := s.calls.set i {c with stage := stage}}

def fail (i : ℕ) (c : AuthCall) (e : RpcException) : Option AuthRun :=
  some (s.goTo i c (.returned (.error e)))

/-- `SessionService.get` -/
def get (id : Uuid) : Option Jwt :=
  (s.session id).bind fun x => if x.expiresAt ≤ s.now then none else some x.token

/-- A call of the account is running. -/
def busy (calls : List AuthCall) (account : Uuid) : Bool :=
  calls.any fun c => c.account = account && c.stage.running

def findBy (p : Account → Bool) : Option Account := s.accounts.find? p

/-- The next command of a call, and the code up to the one after it. -/
def command (i : ℕ) (c : AuthCall) : Option AuthRun :=
  match c.stage with
  | .register email username otp =>
    match s.findBy (fun a => a.email = email ∨ a.username = username) with
    | some _ => s.fail i c ⟨some .alreadyExists,"Аккаунт с такими данными уже существует"⟩
    | none => some (s.goTo i c (.create email username otp))
  | .create email username otp =>
    match s.findBy (fun a => a.id = c.account ∨ a.email = email ∨ a.username = username) with
    | some _ => s.fail i c ⟨none,"Unique constraint failed"⟩
    | none =>
      let created : AuthRun :=
        {s with accounts := s.accounts++[⟨c.account,username,email,.user,false,false⟩]}
      match otp with
      | .error e => created.fail i c e
      | .ok () => some (created.goTo i c (.returned (.ok (.message
          "Код отправлен на почту. Ссылка на почту: http://localhost:8025/"))))
  | .verify email otp =>
    match s.findBy (fun a => a.email = email) with
    | none => s.fail i c ⟨some .invalidArgument,
        "Аккаунт с такой почтой либо не существует, либо он верифицирован"⟩
    | some account =>
      if account.id ≠ c.account then none
      else if account.isVerified || account.deleted then s.fail i c ⟨some .invalidArgument,
        "Аккаунт с такой почтой либо не существует, либо он верифицирован"⟩
      else
        match otp with
        | .error e => s.fail i c e
        | .ok () => some (s.goTo i c .patch)
  | .patch =>
    match s.findBy (fun a => a.id = c.account) with
    | none => s.fail i c ⟨none,"No record was found for an update"⟩
    | some account =>
      some {s.goTo i c (.authenticate account.role none) with
        accounts := s.accounts.map fun a => if a.id = c.account then {a with isVerified := true} else a}
  | .login username isValidPassword =>
    match s.findBy (fun a => a.username = username) with
    | none => s.fail i c (unauthenticated "Неверный логин или пароль")
    | some account =>
      if account.id ≠ c.account then none
      else if !account.isVerified || account.deleted then
        s.fail i c (unauthenticated "Неверный логин или пароль")
      else if !isValidPassword then s.fail i c (unauthenticated "Неверный логин или пароль")
      else some (s.goTo i c (.authenticate account.role none))
  | .refresh refreshToken =>
    if s.get c.account = some refreshToken then some (s.goTo i c (.find refreshToken))
    else s.fail i c (unauthenticated "Время сессии истекло")
  | .find refreshToken =>
    match s.findBy (fun a => a.id = c.account) with
    | none => s.fail i c (unauthenticated "Недействительный токен")
    | some account =>
      if account.deleted then s.fail i c (unauthenticated "Недействительный токен")
      else some (s.goTo i c (.authenticate account.role (some refreshToken)))
  | .authenticate role refreshToken =>
    let tokens := TokenService.signTokens o s.now c.account role
    some {s.goTo i c (.set tokens refreshToken) with
      accessTokens := s.accessTokens++[tokens.accessToken]
      refreshTokens := s.refreshTokens++[tokens.refreshToken]}
  | .set tokens refreshToken =>
    -- the lifetime of a key is a whole number of seconds
    if o.refreshTtl%1000 ≠ 0 then s.fail i c ⟨none,"ERR value is not an integer or out of range"⟩
    else
      some {s.goTo i c (.returned (.ok (.tokens tokens))) with
        session := Function.update s.session c.account
          (some ⟨tokens.refreshToken,s.now+o.refreshTtl⟩)
        exchanged := s.exchanged++
          refreshToken.toList.map (fun token => ⟨token,s.loggedOut.contains token⟩)}
  | .logout alone =>
    let clean := alone && !(s.calls.drop (i+1)).any (fun d => d.account = c.account)
    some {s.goTo i c (.returned (.ok (.message "Выход из системы"))) with
      session := Function.update s.session c.account none
      loggedOut := if clean then s.loggedOut++s.refreshTokens.filter (fun t => t.id = c.account)
        else s.loggedOut}
  | .returned _ => none

/-- A refresh token of a request was signed earlier, or it is no token at all. -/
def next : AuthAction → Option AuthRun
  | .register account email username otp => some (s.start account (.register email username otp))
  | .verify account email otp => some (s.start account (.verify email otp))
  | .login account username isValidPassword =>
    some (s.start account (.login username isValidPassword))
  | .refresh refreshToken =>
    if refreshToken.all (fun t => s.accessTokens.contains t || s.refreshTokens.contains t) then
      match TokenService.verify s.now refreshToken with
      | .error _ => some s
      | .ok token => some (s.start token.id (.refresh token))
    else none
  | .logout refreshToken =>
    if refreshToken.all (fun t => s.accessTokens.contains t || s.refreshTokens.contains t) then
      match TokenService.verify s.now refreshToken with
      | .error _ => some s
      | .ok token => some (s.start token.id (.logout !(busy s.calls token.id)))
    else none
  | .command i => s.calls[i]?.bind (s.command o i)
  | .delete account =>
    some {s with
      accounts := s.accounts.map fun a => if a.id = account then {a with deleted := true} else a}
  | .tick ms => some {s with now := s.now+ms}

/-- What a step does to the calls, the sessions and the history. -/
inductive Turn (o : TokenOptions) (s : AuthRun) : AuthAction → AuthRun → Prop
  | waits {a} (accounts : List Account) {now : ℕ} (later : s.now ≤ now) :
      Turn o s a {s with accounts := accounts, now := now}
  | starts {a} {c : AuthCall} (set : ∀ tokens token, c.stage ≠ .set tokens token)
      (logout : ∀ alone, c.stage = .logout alone → alone = !busy s.calls c.account) :
      Turn o s a {s with calls := s.calls++[c]}
  | moves {i c} (accounts : List Account) {stage : AuthStage} (call : s.calls[i]? = some c)
      (set : ∀ tokens token, stage ≠ .set tokens token) (logout : ∀ alone, stage ≠ .logout alone)
      (running : c.stage.running) : Turn o s (.command i) {s.goTo i c stage with accounts := accounts}
  | signs {i c role token} (call : s.calls[i]? = some c)
      (stage : c.stage = .authenticate role token) :
      Turn o s (.command i)
        {s.goTo i c (.set (TokenService.signTokens o s.now c.account role) token) with
          accessTokens := s.accessTokens++[TokenService.sign o.accessTtl s.now c.account role]
          refreshTokens := s.refreshTokens++[TokenService.sign o.refreshTtl s.now c.account role]}
  | sets {i c tokens token} (call : s.calls[i]? = some c) (stage : c.stage = .set tokens token) :
      Turn o s (.command i)
        {s.goTo i c (.returned (.ok (.tokens tokens))) with
          session := Function.update s.session c.account
            (some ⟨tokens.refreshToken,s.now+o.refreshTtl⟩)
          exchanged := s.exchanged++
            token.toList.map (fun token => ⟨token,s.loggedOut.contains token⟩)}
  | leaves {i c alone} (call : s.calls[i]? = some c) (stage : c.stage = .logout alone) :
      Turn o s (.command i)
        {s.goTo i c (.returned (.ok (.message "Выход из системы"))) with
          session := Function.update s.session c.account none
          loggedOut :=
            if alone && !(s.calls.drop (i+1)).any (fun d => d.account = c.account) then
              s.loggedOut++s.refreshTokens.filter (fun t => t.id = c.account)
            else s.loggedOut}

section Turn
variable {o s} {t : AuthRun} {i : ℕ} {c : AuthCall}

theorem turn_of_fail {e : RpcException} (call : s.calls[i]? = some c) (running : c.stage.running)
    (h : s.fail i c e = some t) : Turn o s (.command i) t := by
  cases h
  exact .moves s.accounts call (by simp) (by simp) running

theorem turn_of_goTo {stage : AuthStage} (call : s.calls[i]? = some c) (running : c.stage.running)
    (set : ∀ tokens token, stage ≠ .set tokens token) (logout : ∀ alone, stage ≠ .logout alone)
    (h : some (s.goTo i c stage) = some t) : Turn o s (.command i) t := by
  cases h
  exact .moves s.accounts call set logout running

theorem turn_of_command (call : s.calls[i]? = some c) (h : s.command o i c = some t) :
    Turn o s (.command i) t := by
  obtain ⟨account,stage⟩ := c
  cases stage with
  | register email username otp =>
    simp only [command] at h
    split at h
    · exact turn_of_fail call rfl h
    · exact turn_of_goTo call rfl (by simp) (by simp) h
  | create email username otp =>
    simp only [command] at h
    split at h
    · exact turn_of_fail call rfl h
    · split at h
      · cases h
        exact .moves _ call (by simp) (by simp) rfl
      · cases h
        exact .moves _ call (by simp) (by simp) rfl
  | verify email otp =>
    simp only [command] at h
    split at h
    · exact turn_of_fail call rfl h
    · split at h
      · contradiction
      · split at h
        · exact turn_of_fail call rfl h
        · split at h
          · exact turn_of_fail call rfl h
          · exact turn_of_goTo call rfl (by simp) (by simp) h
  | patch =>
    simp only [command] at h
    split at h
    · exact turn_of_fail call rfl h
    · cases h
      exact .moves _ call (by simp) (by simp) rfl
  | login username isValidPassword =>
    simp only [command] at h
    split at h
    · exact turn_of_fail call rfl h
    · split at h
      · contradiction
      · split at h
        · exact turn_of_fail call rfl h
        · split at h
          · exact turn_of_fail call rfl h
          · exact turn_of_goTo call rfl (by simp) (by simp) h
  | refresh refreshToken =>
    simp only [command] at h
    split at h
    · exact turn_of_goTo call rfl (by simp) (by simp) h
    · exact turn_of_fail call rfl h
  | find refreshToken =>
    simp only [command] at h
    split at h
    · exact turn_of_fail call rfl h
    · split at h
      · exact turn_of_fail call rfl h
      · exact turn_of_goTo call rfl (by simp) (by simp) h
  | authenticate role refreshToken =>
    cases h
    exact .signs call rfl
  | set tokens refreshToken =>
    simp only [command] at h
    split at h
    · exact turn_of_fail call rfl h
    · cases h
      exact .sets call rfl
  | logout alone =>
    cases h
    exact .leaves call rfl
  | returned result => contradiction

theorem turn_of_next {a : AuthAction} (h : s.next o a = some t) : Turn o s a t := by
  cases a with
  | register account email username otp =>
    cases h
    exact .starts (by simp) (by simp)
  | verify account email otp =>
    cases h
    exact .starts (by simp) (by simp)
  | login account username isValidPassword =>
    cases h
    exact .starts (by simp) (by simp)
  | refresh refreshToken =>
    simp only [next] at h
    split at h
    · split at h
      · cases h
        exact .waits s.accounts le_rfl
      · cases h
        exact .starts (by simp) (by simp)
    · contradiction
  | logout refreshToken =>
    simp only [next] at h
    split at h
    · split at h
      · cases h
        exact .waits s.accounts le_rfl
      · cases h
        exact .starts (by simp) (by simp)
    · contradiction
  | command i =>
    obtain ⟨c,hc,hcommand⟩ := Option.bind_eq_some_iff.mp h
    exact turn_of_command hc hcommand
  | delete account =>
    cases h
    exact .waits _ le_rfl
  | tick ms =>
    cases h
    exact .waits s.accounts (Nat.le_add_right ..)

end Turn
section Schedules

def sevenDays : TokenOptions := ⟨25200000,604800000⟩

/-- The token of a verification in the given second. -/
def tokenOf (second : ℕ) : Jwt := ⟨1,.user,second,second+604800⟩

/-- An account registers and verifies its address. -/
def verifiedAccount : List AuthAction :=
  [.register 1 "a@mail.ru" "a" (.ok ()),.command 0,.command 0,.verify 1 "a@mail.ru" (.ok ()),
    .command 1,.command 1,.command 1,.command 1]

end Schedules
end AuthRun
end NestHomework.UserService
