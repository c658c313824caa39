import NestHomework.Gateway.BearerToken
import NestHomework.Proxy.ProxyClient
import NestHomework.UserService.Deletion

/-! `WssGateway`: the sockets of the clients beside the user service that signs their tokens, on one
clock. -/
namespace NestHomework.NotificationService
open Contracts Transition UserService Gateway Proxy

inductive WssEvent where
  | error (message : String) (code : ℕ)
  /-- with the room it is sent to -/
  | notification (room : Uuid) (message : RmqMessage)
  deriving DecidableEq, Repr

/-- Where `handleConnection` is. -/
inductive ClientStage where
  /-- before `verifyAsync` -/
  | verifying (token : Option Jwt)
  /-- before `join` -/
  | verified (payload : Jwt)
  /-- before `setTimeout` -/
  | joined (payload : Jwt)
  /-- before the timer, which is due then -/
  | timed (payload : Jwt) (due : ℕ)
  | disconnected
  deriving DecidableEq, Repr

namespace ClientStage

/-- The room that the socket is in. -/
def room : ClientStage → Option Uuid
  | .joined payload => some payload.id
  | .timed payload _ => some payload.id
  | _ => none

/-- The token that the socket presented. -/
def token : ClientStage → Option Jwt
  | .verifying token => token
  | .verified payload => some payload
  | .joined payload => some payload
  | .timed payload _ => some payload
  | .disconnected => none

/-- When the socket is to be disconnected. -/
def deadline : ClientStage → Option ℕ
  | .verified payload => some (payload.exp*1000)
  | .joined payload => some (payload.exp*1000)
  | .timed _ due => some due
  | _ => none

end ClientStage

/-- A socket. `authorization` is `none` when the header is missing or empty, and `some none` when it
is not the text of a token. -/
structure Client where
  authorization : Option (Option Jwt)
  stage : ClientStage
  deriving DecidableEq, Repr

/-- What a client was sent. -/
structure Heard where
  client : ℕ
  event : WssEvent
  time : ℕ
  deriving DecidableEq, Repr

structure WssRun where
  auth : AuthRun
  clients : List Client
  heard : List Heard

inductive WssAction where
  /-- the user service and the clock -/
  | auth (a : AuthAction)
  | connect (authorization : Option (Option Jwt))
  | verify (i : ℕ)
  | join (i : ℕ)
  | setTimeout (i : ℕ)
  | timeout (i : ℕ)
  /-- the client leaves -/
  | disconnect (i : ℕ)
  /-- a message at `RmqController` -/
  | handle (message : RmqMessage)

namespace RmqController

/-- The rooms that `depositCredited` and `transferCompleted` send to. -/
def rooms : RmqMessage → List Uuid
  | .depositCredited _ accountId _ _ => [accountId]
  | .transferCompleted _ _ fromAccountId toAccountId _ _ => [fromAccountId,toAccountId]

end RmqController

/-- A token that passes the check has not expired. -/
theorem TokenService.verify_ok {now : ℕ} {token : Option Jwt} {payload : Jwt}
    (h : TokenService.verify now token = .ok payload) :
    token = some payload ∧ now < payload.exp*1000 := by
  cases token with
  | none => cases h
  | some T =>
    rw [TokenService.verify] at h
    split at h
    · cases h
    · cases h
      exact ⟨rfl,by omega⟩

theorem setTimeoutDelay_le_self {ms : ℕ} (h : 0 < ms) : setTimeoutDelay ms ≤ ms := by
  unfold setTimeoutDelay
  split
  · exact le_rfl
  · exact h

namespace WssRun
variable (o : TokenOptions) (s : WssRun)

def initial : WssRun := ⟨.initial,[],[]⟩

def stage (i : ℕ) : Option ClientStage := s.clients[i]?.map Client.stage

def goTo (i : ℕ) (stage : ClientStage) : WssRun :=
  {s with clients := s.clients.modify i fun c => {c with stage := stage}}

def connected (c : Client) : WssRun := {s with clients := s.clients++[c]}

def hear (hs : List Heard) : WssRun := {s with heard := s.heard++hs}

def emit (i : ℕ) (event : WssEvent) : WssRun := s.hear [⟨i,event,s.auth.now⟩]

/-- The sockets in a room. -/
def members (room : Uuid) : List ℕ :=
  (List.range s.clients.length).filter fun i => (s.stage i).bind ClientStage.room = some room

/-- What the sockets in a room hear of a message. -/
def copies (message : RmqMessage) (room : Uuid) : List Heard :=
  (s.members room).map fun i => ⟨i,.notification room message,s.auth.now⟩

def sendNotification (message : RmqMessage) (room : Uuid) : WssRun := s.hear (s.copies message room)

/-- A token in the header of a handshake was signed earlier. -/
def next : WssAction → Option WssRun
  | .auth a => (s.auth.next o a).map fun auth => {s with auth := auth}
  | .connect none =>
    some ((s.connected ⟨none,.disconnected⟩).emit s.clients.length (.error "Token missing" 401))
  | .connect (some token) =>
    if token.all (fun T => s.auth.signed.contains T) then
      some (s.connected ⟨some token,.verifying token⟩)
    else none
  | .verify i =>
    match s.stage i with
    | some (.verifying token) =>
      match TokenService.verify s.auth.now token with
      | .error _ => some ((s.goTo i .disconnected).emit i (.error "Token invalid" 401))
      | .ok payload => some (s.goTo i (.verified payload))
    | _ => none
  | .join i =>
    match s.stage i with
    | some (.verified payload) => some (s.goTo i (.joined payload))
    | _ => none
  | .setTimeout i =>
    match s.stage i with
    | some (.joined payload) =>
      let delay : ℤ := payload.exp*1000-s.auth.now
      if 0 < delay then
        some (s.goTo i (.timed payload (s.auth.now+setTimeoutDelay delay.toNat)))
      else some (s.goTo i .disconnected)
    | _ => none
  | .timeout i =>
    match s.stage i with
    | some (.timed _ due) => if due ≤ s.auth.now then some (s.goTo i .disconnected) else none
    | _ => none
  | .disconnect i =>
    match s.stage i with
    | none | some .disconnected => none
    | some _ => some (s.goTo i .disconnected)
  | .handle message =>
    some ((RmqController.rooms message).foldl (fun s room => s.sendNotification message room) s)

variable {o s}

section Stage
variable {i j : ℕ} {stage old : ClientStage}

@[simp] theorem goTo_auth : (s.goTo i stage).auth = s.auth := rfl

@[simp] theorem goTo_heard : (s.goTo i stage).heard = s.heard := rfl

theorem goTo_goTo : (s.goTo i old).goTo i stage = s.goTo i stage := by
  simp only [goTo,List.modify_modify_eq]
  rfl

theorem stage_goTo (h : s.stage i = some old) : (s.goTo i stage).stage i = some stage := by
  obtain ⟨c,hc,-⟩ := Option.map_eq_some_iff.mp h
  simp [WssRun.stage,goTo,hc]

/-- The steps of `handleConnection`, taken at one time. -/
theorem handleConnection_eq {token : Option Jwt} (h : s.stage i = some (.verifying token)) :
    match WssGateway.handleConnection s.auth.now token with
    | some connection => ∃ payload, payload.id = connection.room ∧
      runs (next o) s [.verify i,.join i,.setTimeout i] =
        some (s.goTo i (.timed payload (s.auth.now+setTimeoutDelay connection.delay)))
    | none => next o s (.verify i) =
        some ((s.goTo i .disconnected).emit i (.error "Token invalid" 401)) := by
  rw [WssGateway.handleConnection]
  cases hverify : TokenService.verify s.auth.now token with
  | error e => simp only [next,h,hverify]
  | ok payload =>
    have hlive : (0 : ℤ) < payload.exp*1000-s.auth.now := by
      have := (TokenService.verify_ok hverify).2
      omega
    simp only [if_pos hlive]
    refine ⟨payload,rfl,?_⟩
    simp only [runs,next,h,hverify,Option.bind_some,stage_goTo h,goTo_goTo,goTo_auth,if_pos hlive]
    have hdelay : ((payload.exp*1000 : ℤ)-s.auth.now).toNat = payload.exp*1000-s.auth.now := by
      omega
    rw [hdelay]

end Stage

/-- What a step does to the sockets and to what they hear. A socket that moves keeps its token, and
a deadline that it is given has not passed. -/
inductive Turn (o : TokenOptions) (s : WssRun) : WssAction → WssRun → Prop
  | auth {a auth} (next : s.auth.next o a = some auth) : Turn o s (.auth a) {s with auth := auth}
  | opens {a} {c : Client} (errors : List Heard)
      (token : ∀ T, c.stage.token = some T → c.authorization = some (some T) ∧ T ∈ s.auth.signed)
      (deadline : c.stage.deadline = none)
      (silent : ∀ e ∈ errors, e.client = s.clients.length ∧
        ∀ room message, e.event ≠ .notification room message) :
      Turn o s a ((s.connected c).hear errors)
  | moves {a i old} {stage : ClientStage} (errors : List Heard) (here : s.stage i = some old)
      (token : ∀ T, stage.token = some T → old.token = some T)
      (deadline : ∀ d, stage.deadline = some d → (s.auth.now ≤ d ∨ old.deadline = some d) ∧
        ∀ T, stage.token = some T → d ≤ T.exp*1000)
      (leaves : ∀ T due, old = .timed T due → stage = .disconnected ∧ errors = [] ∧
        (a = .disconnect i ∨ a = .timeout i ∧ due ≤ s.auth.now))
      (on : old ≠ .disconnected)
      (silent : ∀ e ∈ errors, e.client = i ∧
        ∀ room message, e.event ≠ .notification room message) :
      Turn o s a ((s.goTo i stage).hear errors)
  | handles (message : RmqMessage) :
      Turn o s (.handle message) (s.hear ((RmqController.rooms message).flatMap (s.copies message)))

section Turn
variable {t : WssRun} {a : WssAction}

theorem foldl_sendNotification (message : RmqMessage) (rooms : List Uuid) (s : WssRun) :
    rooms.foldl (fun s room => s.sendNotification message room) s =
      s.hear (rooms.flatMap (s.copies message)) := by
  induction rooms generalizing s with
  | nil => simp [hear]
  | cons room rooms ih =>
    rw [List.foldl_cons,ih,List.flatMap_cons,sendNotification]
    simp only [hear,List.append_assoc]
    rfl

theorem hear_nil : s.hear [] = s := by simp [hear]

theorem turn_of_goTo {i : ℕ} {old stage : ClientStage} (hi : s.stage i = some old)
    (h : some (s.goTo i stage) = some t)
    (token : ∀ T, stage.token = some T → old.token = some T)
    (deadline : ∀ d, stage.deadline = some d → (s.auth.now ≤ d ∨ old.deadline = some d) ∧
      ∀ T, stage.token = some T → d ≤ T.exp*1000)
    (leaves : ∀ T due, old = .timed T due → stage = .disconnected ∧
      (a = .disconnect i ∨ a = .timeout i ∧ due ≤ s.auth.now))
    (on : old ≠ .disconnected) : Turn o s a t := by
  cases h
  rw [← hear_nil (s := s.goTo i stage)]
  exact .moves [] hi token deadline (fun T due hT => ⟨(leaves T due hT).1,rfl,(leaves T due hT).2⟩)
    on nofun

theorem turn_of_next (h : s.next o a = some t) : Turn o s a t := by
  cases a with
  | auth a =>
    obtain ⟨auth,hauth,rfl⟩ := Option.map_eq_some_iff.mp h
    exact .auth hauth
  | connect authorization =>
    cases authorization with
    | none =>
      cases h
      exact .opens (c := ⟨none,.disconnected⟩) [_] nofun rfl (by simp [connected])
    | some token =>
      simp only [next] at h
      split at h
      next hsigned =>
        cases h
        rw [← hear_nil (s := s.connected _)]
        refine .opens [] (fun T hT => ?_) rfl nofun
        cases hT
        exact ⟨rfl,by simpa using hsigned⟩
      next => contradiction
  | verify i =>
    simp only [next] at h
    split at h
    next token hi =>
      split at h
      · cases h
        exact .moves [_] hi nofun nofun nofun nofun (by simp)
      next payload hverify =>
        obtain ⟨rfl,hlive⟩ := TokenService.verify_ok hverify
        refine turn_of_goTo hi h (fun T hT => hT) (fun d hd => ?_) nofun nofun
        cases hd
        exact ⟨.inl hlive.le,fun T hT => by cases hT; exact le_rfl⟩
    next => contradiction
  | join i =>
    simp only [next] at h
    split at h
    next payload hi =>
      refine turn_of_goTo hi h (fun T hT => hT) (fun d hd => ⟨.inr hd,fun T hT => ?_⟩) nofun nofun
      cases hd
      cases hT
      exact le_rfl
    next => contradiction
  | setTimeout i =>
    simp only [next] at h
    split at h
    next payload hi =>
      split at h
      next hlive =>
        refine turn_of_goTo hi h (fun T hT => hT) (fun d hd => ?_) nofun nofun
        cases hd
        refine ⟨.inl (Nat.le_add_right ..),fun T hT => ?_⟩
        cases hT
        have := @setTimeoutDelay_le_self ((payload.exp*1000 : ℤ)-s.auth.now).toNat (by omega)
        omega
      · exact turn_of_goTo hi h nofun nofun nofun nofun
    next => contradiction
  | timeout i =>
    simp only [next] at h
    split at h
    next payload due hi =>
      split at h
      next hdue =>
        refine turn_of_goTo hi h nofun nofun (fun T due' hT => ?_) nofun
        cases hT
        exact ⟨rfl,.inr ⟨rfl,hdue⟩⟩
      next => contradiction
    next => contradiction
  | disconnect i =>
    simp only [next] at h
    split at h
    · contradiction
    · contradiction
    next old hon hi => exact turn_of_goTo hi h nofun nofun (fun _ _ _ => ⟨rfl,.inl rfl⟩) hon
  | handle message =>
    simp only [next,foldl_sendNotification,Option.some.injEq] at h
    subst h
    exact .handles message

end Turn

/-- The event loop is never late by more than the lag: no deadline of a socket is further back. -/
def prompt (o : TokenOptions) (lag : ℕ) (s : WssRun) : WssAction → Bool
  | .auth a => (s.auth.next o a).all fun t =>
    s.clients.all fun c => c.stage.deadline.all fun d => t.now ≤ d+lag
  | _ => true

/-- The socket presented the token. -/
def Bears (s : WssRun) (i : ℕ) (T : Jwt) : Prop :=
  s.clients[i]?.map Client.authorization = some (some (some T)) ∧ T ∈ s.auth.signed

/-- What holds in every run. -/
structure Guarded (o : TokenOptions) (lag : ℕ) (s : WssRun) : Prop where
  dated : Dated o s.auth
  token : ∀ (i : ℕ) (c : Client) (T : Jwt), s.clients[i]? = some c → c.stage.token = some T →
    c.authorization = some (some T) ∧ T ∈ s.auth.signed
  deadline : ∀ (i : ℕ) (c : Client) (d : ℕ), s.clients[i]? = some c → c.stage.deadline = some d →
    s.auth.now ≤ d+lag ∧ ∀ T, c.stage.token = some T → d ≤ T.exp*1000
  heard : ∀ h ∈ s.heard, ∀ room message, h.event = .notification room message →
    room ∈ RmqController.rooms message ∧ ∃ T, s.Bears h.client T ∧ T.id = room ∧
      T.iat*1000 ≤ h.time ∧ h.time ≤ T.exp*1000+lag

section Guarded
variable {lag : ℕ} {t u : WssRun} {a : WssAction} {i j : ℕ} {stage : ClientStage} {c d : Client}
  {T : Jwt} {room : Uuid} {message : RmqMessage}

theorem clients_goTo (h : (s.goTo i stage).clients[j]? = some d) :
    ∃ c, s.clients[j]? = some c ∧ d.authorization = c.authorization ∧
      (d.stage = c.stage ∨ j = i ∧ d.stage = stage) := by
  simp only [goTo,List.getElem?_modify] at h
  obtain ⟨c,hc,rfl⟩ := Option.map_eq_some_iff.mp h
  refine ⟨c,hc,?_⟩
  by_cases hij : i = j
  · subst hij
    exact ⟨by simp,.inr ⟨rfl,by simp⟩⟩
  · exact ⟨by simp [hij],.inl (by simp [hij])⟩

theorem clients_connected (h : (s.connected c).clients[j]? = some d) :
    s.clients[j]? = some d ∨ j = s.clients.length ∧ d = c := by
  obtain hj | rfl | hj := Nat.lt_trichotomy j s.clients.length
  · exact .inl (by simpa [connected,List.getElem?_append_left hj] using h)
  · exact .inr ⟨rfl,by simpa [connected] using h.symm⟩
  · have hlen := (List.getElem?_eq_some_iff.mp h).1
    simp only [connected,List.length_append,List.length_singleton] at hlen
    omega

theorem Bears.of_next (h : s.Bears i T) (hn : s.next o a = some t) : t.Bears i T := by
  obtain ⟨hauthorization,hsigned⟩ := h
  cases turn_of_next hn with
  | auth hauth => exact ⟨hauthorization,AuthRun.signed_subset_of_next hauth hsigned⟩
  | opens errors =>
    obtain ⟨c,hc,-⟩ := Option.map_eq_some_iff.mp hauthorization
    refine ⟨?_,hsigned⟩
    rw [← hauthorization]
    simp only [hear,connected,List.getElem?_append_left (List.getElem?_eq_some_iff.mp hc).1]
  | moves errors =>
    refine ⟨?_,hsigned⟩
    rw [← hauthorization]
    simp only [hear,goTo,List.getElem?_modify,Option.map_eq_map,Option.map_map]
    congr 1
    funext c
    simp only [Function.comp_apply]
    split <;> rfl
  | handles message => exact ⟨hauthorization,hsigned⟩

theorem mem_members : i ∈ s.members room ↔ ∃ c, s.clients[i]? = some c ∧ c.stage.room = some room := by
  simp only [members,List.mem_filter,List.mem_range,WssRun.stage]
  constructor
  · rintro ⟨hi,hroom⟩
    obtain ⟨stage,hstage,hroom⟩ := Option.bind_eq_some_iff.mp (of_decide_eq_true hroom)
    obtain ⟨c,hc,rfl⟩ := Option.map_eq_some_iff.mp hstage
    exact ⟨c,hc,hroom⟩
  · rintro ⟨c,hc,hroom⟩
    exact ⟨(List.getElem?_eq_some_iff.mp hc).1,by simpa [hc] using hroom⟩

/-- A socket in a room presented a token, and it has a deadline. -/
theorem stage_of_room (h : stage.room = some room) :
    ∃ T d, stage.token = some T ∧ T.id = room ∧ stage.deadline = some d := by
  cases stage with
  | joined payload => exact ⟨payload,_,rfl,Option.some.inj h,rfl⟩
  | timed payload due => exact ⟨payload,due,rfl,Option.some.inj h,rfl⟩
  | verifying | verified | disconnected => contradiction

theorem Guarded.initial : Guarded o lag .initial where
  dated := ⟨nofun,nofun⟩
  token := nofun
  deadline := nofun
  heard := nofun

theorem Guarded.copies (h : s.Guarded o lag) (hroom : room ∈ RmqController.rooms message) :
    ∀ e ∈ s.copies message room, ∀ room' message', e.event = .notification room' message' →
      room' ∈ RmqController.rooms message' ∧ ∃ T, s.Bears e.client T ∧ T.id = room' ∧
        T.iat*1000 ≤ e.time ∧ e.time ≤ T.exp*1000+lag := by
  intro e he room' message' hevent
  obtain ⟨i,hi,rfl⟩ := List.mem_map.mp he
  cases hevent
  obtain ⟨c,hc,hin⟩ := mem_members.mp hi
  obtain ⟨T,d,htoken,hid,hd⟩ := stage_of_room hin
  obtain ⟨hauthorization,hsigned⟩ := h.token i c T hc htoken
  obtain ⟨hnow,hexp⟩ := h.deadline i c d hc hd
  have hbears : s.Bears i T := ⟨by rw [hc,Option.map_some,hauthorization],hsigned⟩
  refine ⟨hroom,T,hbears,hid,?_,hnow.trans (Nat.add_le_add_right (hexp T htoken) lag)⟩
  obtain hT | hT := List.mem_append.mp hsigned
  · exact (h.dated.access T hT).1
  · exact (h.dated.refresh T hT).1

/-- The notifications that were heard before stay as they are. -/
theorem Guarded.heard_of_next (h : s.Guarded o lag) (hn : s.next o a = some t) :
    ∀ e ∈ s.heard, ∀ room message, e.event = .notification room message →
      room ∈ RmqController.rooms message ∧ ∃ T, t.Bears e.client T ∧ T.id = room ∧
        T.iat*1000 ≤ e.time ∧ e.time ≤ T.exp*1000+lag := by
  intro e he room message hevent
  obtain ⟨hroom,T,hbears,hrest⟩ := h.heard e he room message hevent
  exact ⟨hroom,T,hbears.of_next hn,hrest⟩

theorem Guarded.next (h : s.Guarded o lag) (ha : s.prompt o lag a) (hn : s.next o a = some t) :
    t.Guarded o lag := by
  have hbefore := h.heard_of_next hn
  cases turn_of_next hn with
  | auth hauth =>
    refine ⟨h.dated.next hauth,fun i c T hc hT => ?_,fun i c d hc hd => ?_,hbefore⟩
    · obtain ⟨hauthorization,hsigned⟩ := h.token i c T hc hT
      exact ⟨hauthorization,AuthRun.signed_subset_of_next hauth hsigned⟩
    · have hall := ha
      simp only [prompt,hauth,Option.all_some,List.all_eq_true] at hall
      have hin := hall c (List.mem_of_getElem? hc)
      rw [hd,Option.all_some,decide_eq_true_eq] at hin
      exact ⟨hin,(h.deadline i c d hc hd).2⟩
  | opens errors token deadline silent =>
    refine ⟨h.dated,fun i c T hc hT => ?_,fun i c d hc hd => ?_,fun e he room message hevent => ?_⟩
    · obtain hc | ⟨-,rfl⟩ := clients_connected hc
      · exact h.token i c T hc hT
      · exact token T hT
    · obtain hc | ⟨-,rfl⟩ := clients_connected hc
      · exact h.deadline i c d hc hd
      · rw [deadline] at hd
        contradiction
    · obtain he | he := List.mem_append.mp he
      · exact hbefore e he room message hevent
      · exact absurd hevent ((silent e he).2 room message)
  | moves errors here token deadline leaves on silent =>
    refine ⟨h.dated,fun i d T hd hT => ?_,fun i d t hd ht => ?_,fun e he room message hevent => ?_⟩
    · obtain ⟨c,hc,hauthorization,hstage | ⟨rfl,hstage⟩⟩ := clients_goTo hd
      · rw [hauthorization]
        exact h.token i c T hc (hstage ▸ hT)
      · obtain ⟨c',hc',rfl⟩ := Option.map_eq_some_iff.mp here
        obtain rfl := Option.some.inj (hc'.symm.trans hc)
        rw [hauthorization]
        exact h.token _ _ T hc (token T (hstage ▸ hT))
    · obtain ⟨c,hc,hauthorization,hstage | ⟨rfl,hstage⟩⟩ := clients_goTo hd
      · rw [hstage] at ht ⊢
        exact h.deadline i c t hc ht
      · obtain ⟨c',hc',rfl⟩ := Option.map_eq_some_iff.mp here
        obtain rfl := Option.some.inj (hc'.symm.trans hc)
        rw [hstage] at ht ⊢
        obtain ⟨hnow | hold,hexp⟩ := deadline t ht
        · exact ⟨hnow.trans (Nat.le_add_right ..),hexp⟩
        · exact ⟨(h.deadline _ _ t hc hold).1,hexp⟩
    · obtain he | he := List.mem_append.mp he
      · exact hbefore e he room message hevent
      · exact absurd hevent ((silent e he).2 room message)
  | handles message =>
    refine ⟨h.dated,h.token,h.deadline,fun e he room' message' hevent => ?_⟩
    obtain he | he := List.mem_append.mp he
    · exact hbefore e he room' message' hevent
    · obtain ⟨room,hroom,he⟩ := List.mem_flatMap.mp he
      exact h.copies hroom e he room' message' hevent

variable {as bs : List WssAction}

/-- A notification is heard in its rooms only, on a socket that presented a token of the account,
and no later than the lag after the token has expired. -/
theorem notifications_reach_token_holders {e : Heard}
    (hprompt : Along (next o) (fun s a => s.prompt o lag a) .initial as)
    (hr : runs (next o) .initial as = some s) (he : e ∈ s.heard)
    (hevent : e.event = .notification room message) :
    room ∈ RmqController.rooms message ∧ ∃ T, s.Bears e.client T ∧ T.id = room ∧
      T.iat*1000 ≤ e.time ∧ e.time ≤ T.exp*1000+lag ∧
      (T.exp = T.iat+o.accessTtl/1000 ∨ T.exp = T.iat+o.refreshTtl/1000) := by
  have h : s.Guarded o lag :=
    runs_invariant (fun _ _ _ hs ha hn => hs.next ha hn) Guarded.initial hprompt hr
  obtain ⟨hroom,T,hbears,hid,hiat,hexp⟩ := h.heard e he room message hevent
  refine ⟨hroom,T,hbears,hid,hiat,hexp,?_⟩
  exact (List.mem_append.mp hbears.2).imp (fun hT => (h.dated.access T hT).2)
    (fun hT => (h.dated.refresh T hT).2)

/-- After an account is deleted while no call of it is running, its notifications are heard no longer
than the longest lifetime of a token and the lag. -/
theorem deletion_silences {account : Uuid} {e : Heard}
    (hprompt : Along (next o) (fun s a => s.prompt o lag a) .initial as)
    (hr : runs (next o) .initial as = some s) (hrow : ∃ row ∈ s.auth.accounts, row.id = account)
    (hidle : AuthRun.busy s.auth.calls account = false)
    (hdelete : s.next o (.auth (.delete account)) = some t)
    (hprompt' : Along (next o) (fun s a => s.prompt o lag a) t bs)
    (hu : runs (next o) t bs = some u) (he : e ∈ u.heard)
    (hevent : e.event = .notification account message) :
    e.time ≤ t.auth.now+max o.accessTtl o.refreshTtl+lag := by
  have hs : s.Guarded o lag :=
    runs_invariant (fun _ _ _ hs ha hn => hs.next ha hn) Guarded.initial hprompt hr
  have ht : t.Guarded o lag := by
    refine hs.next (a := .auth (.delete account)) ?_ hdelete
    simp only [prompt,AuthRun.next,Option.all_some,List.all_eq_true]
    intro c hc
    obtain ⟨i,hi⟩ := List.getElem?_of_mem hc
    cases hd : c.stage.deadline with
    | none => rfl
    | some d => exact decide_eq_true (hs.deadline i c d hi hd).1
  have hclosed : t.auth.Closed account := by
    cases hdelete
    obtain ⟨row,hrow,hid⟩ := hrow
    refine .of_not_busy ⟨_,List.mem_map_of_mem hrow,by simp [hid]⟩ (fun row' hrow' hid' => ?_) hidle
    obtain ⟨old,-,rfl⟩ := List.mem_map.mp hrow'
    split at hid'
    next hold => simp [hold]
    next hold => exact absurd hid' hold
  obtain ⟨hu,-,hold⟩ : u.Guarded o lag ∧ u.auth.Closed account ∧
      ∀ T ∈ u.auth.signed, T.id = account → T ∈ t.auth.signed := by
    refine runs_invariant (I := fun u => u.Guarded o lag ∧
      u.auth.Closed account ∧ ∀ T ∈ u.auth.signed, T.id = account → T ∈ t.auth.signed)
      (fun v a w hv ha hn => ⟨hv.1.next ha hn,?_⟩) ⟨ht,hclosed,fun T hT _ => hT⟩ hprompt' hu
    cases turn_of_next hn with
    | auth hauth =>
      obtain ⟨hclosed,hsigned⟩ := hv.2.1.next hauth
      exact ⟨hclosed,fun T hT hid => hv.2.2 T (hsigned T hT hid) hid⟩
    | opens | moves | handles => exact hv.2
  obtain ⟨-,T,hbears,hid,-,hexp⟩ := hu.heard e he account message hevent
  obtain hT | hT := List.mem_append.mp (hold T hbears.2 hid)
  · have := ht.dated.access T hT
    omega
  · have := ht.dated.refresh T hT
    omega

end Guarded
section Schedules

/-- A client comes with the token of a verification, and a deposit is credited. -/
def heardDeposit : List WssAction :=
  AuthRun.verifiedAccount.map .auth++[.connect (some (some (AuthRun.tokenOf 0))),.verify 0,.join 0,
    .setTimeout 0,.handle (.depositCredited 7 1 500 "RUB")]

theorem notifications_reach_token_holders_credited : ∃ s T,
    runs (next AuthRun.sevenDays) .initial heardDeposit = some s ∧ s.Bears 0 T ∧ T.id = 1 ∧
    0 ≤ T.exp*1000+0 := by
  obtain ⟨-,T,hT,hid,-,hexp,-⟩ := @notifications_reach_token_holders AuthRun.sevenDays _ 0 1
    (.depositCredited 7 1 500 "RUB") heardDeposit
    ⟨0,.notification 1 (.depositCredited 7 1 500 "RUB"),0⟩ (by decide) rfl (by decide) rfl
  exact ⟨_,T,rfl,hT,hid,hexp⟩

/-- The socket of a deleted account still hears of a transfer. -/
theorem deletion_silences_transfer : ∃ s t u e,
    runs (next AuthRun.sevenDays) .initial heardDeposit = some s ∧
    s.next AuthRun.sevenDays (.auth (.delete 1)) = some t ∧
    runs (next AuthRun.sevenDays) t [.auth (.tick 604800000),
      .handle (.transferCompleted 8 9 1 2 500 "RUB")] = some u ∧ e ∈ u.heard ∧
    e.event = .notification 1 (.transferCompleted 8 9 1 2 500 "RUB") ∧
    e.time = 604800000 ∧ e.time ≤ t.auth.now+604800000+0 :=
  ⟨_,_,_,⟨0,.notification 1 (.transferCompleted 8 9 1 2 500 "RUB"),604800000⟩,rfl,rfl,rfl,by decide,
    rfl,rfl,@deletion_silences AuthRun.sevenDays _ 0 _ _ (.transferCompleted 8 9 1 2 500 "RUB")
      heardDeposit [.auth (.tick 604800000),.handle (.transferCompleted 8 9 1 2 500 "RUB")] 1
      ⟨0,.notification 1 (.transferCompleted 8 9 1 2 500 "RUB"),604800000⟩ (by decide) rfl
      ⟨_,List.mem_cons_self,rfl⟩ rfl rfl (by decide) rfl (by decide) rfl⟩

end Schedules

/-- What a socket has been sent. -/
def heardBy (s : WssRun) (i : ℕ) : List WssEvent :=
  (s.heard.filter (fun e => e.client = i)).map Heard.event

/-- What an action sends to a room. -/
def sent (room : Option Uuid) : WssAction → List WssEvent
  | .handle message => ((RmqController.rooms message).filter (fun r => room = some r)).map
    (.notification · message)
  | _ => []

section Live
variable {t u : WssRun} {a : WssAction} {as : List WssAction} {i j : ℕ} {room : Uuid}
  {message : RmqMessage} {hs : List Heard} {stage : ClientStage} {payload : Jwt} {due : ℕ}

theorem heardBy_hear : (s.hear hs).heardBy i =
    s.heardBy i++(hs.filter (fun e => e.client = i)).map Heard.event := by
  simp [heardBy,hear]

/-- The errors of another socket are not heard. -/
theorem heardBy_errors (h : ∀ e ∈ hs, e.client = j ∧ ∀ room message, e.event ≠ .notification room message)
    (hij : i ≠ j) : (s.hear hs).heardBy i = s.heardBy i := by
  rw [heardBy_hear,List.filter_eq_nil_iff.mpr,List.map_nil,List.append_nil]
  intro e he
  simpa [(h e he).1] using hij.symm

/-- A socket hears a message once for each time it is sent to its room. -/
theorem copies_heard (hi : s.stage i = some stage) : ((s.copies message room).filter
    (fun e => e.client = i)).map Heard.event =
      if stage.room = some room then [.notification room message] else [] := by
  have hnodup : (s.members room).Nodup := List.nodup_range.filter _
  have hmem : i ∈ s.members room ↔ stage.room = some room := by
    obtain ⟨c,hc,rfl⟩ := Option.map_eq_some_iff.mp hi
    rw [mem_members]
    exact ⟨fun ⟨c',hc',hroom⟩ => Option.some.inj (hc.symm.trans hc') ▸ hroom,fun h => ⟨c,hc,h⟩⟩
  have hfilter : (s.members room).filter (fun j => j = i) =
      if stage.room = some room then [i] else [] := by
    rw [List.filter_eq,hnodup.count]
    simp only [hmem]
    split <;> rfl
  rw [copies,List.filter_map,List.map_map]
  change ((s.members room).filter (fun j => j = i)).map (fun _ => WssEvent.notification room message) = _
  rw [hfilter]
  split <;> rfl

theorem flatMap_copies_heard (hi : s.stage i = some stage) (rooms : List Uuid) :
    ((rooms.flatMap (s.copies message)).filter (fun e => e.client = i)).map Heard.event =
      (rooms.filter (fun r => stage.room = some r)).map (WssEvent.notification · message) := by
  induction rooms with
  | nil => rfl
  | cons room rooms ih =>
    rw [List.flatMap_cons,List.filter_append,List.map_append,ih,copies_heard hi,List.filter_cons]
    by_cases h : stage.room = some room <;> simp [h]

theorem stage_append (h : s.stage i = some stage) (c : Client) :
    (s.connected c).stage i = some stage := by
  obtain ⟨d,hd,hstage⟩ := Option.map_eq_some_iff.mp h
  rw [← h]
  simp only [WssRun.stage,connected,List.getElem?_append_left (List.getElem?_eq_some_iff.mp hd).1]

theorem stage_goTo_ne {stage' : ClientStage} (hij : j ≠ i) : (s.goTo j stage').stage i = s.stage i := by
  simp [WssRun.stage,goTo,hij]

theorem ne_length (h : s.stage i = some stage) : i ≠ s.clients.length := by
  obtain ⟨c,hc,-⟩ := Option.map_eq_some_iff.mp h
  exact (List.getElem?_eq_some_iff.mp hc).1.ne

/-- A socket that is not moved itself hears what is sent to its room. -/
theorem hears_of_next (hi : s.stage i = some stage) (hn : s.next o a = some t) :
    t.stage i = some stage ∧ t.heardBy i = s.heardBy i++sent stage.room a ∨
      stage ≠ .disconnected ∧ ∀ T due, stage = .timed T due → t.stage i = some .disconnected ∧
        t.heardBy i = s.heardBy i ∧ (a = .disconnect i ∨ a = .timeout i ∧ due ≤ s.auth.now) := by
  by_cases hhandle : ∃ message, a = .handle message
  · obtain ⟨message,rfl⟩ := hhandle
    simp only [next,foldl_sendNotification] at hn
    cases hn
    refine .inl ⟨hi,?_⟩
    rw [heardBy_hear,flatMap_copies_heard hi]
    rfl
  · have hsent : sent stage.room a = [] := by
      cases a <;> first | rfl | exact absurd ⟨_,rfl⟩ hhandle
    rw [hsent,List.append_nil]
    cases turn_of_next hn with
    | auth => exact .inl ⟨hi,rfl⟩
    | opens errors _ _ silent =>
      exact .inl ⟨stage_append hi _,heardBy_errors (s := s.connected _) silent (ne_length hi)⟩
    | @moves _ j old stage' errors here _ _ leaves on silent =>
      by_cases hij : i = j
      · subst hij
        obtain rfl := Option.some.inj (here.symm.trans hi)
        refine .inr ⟨on,fun T due hT => ?_⟩
        obtain ⟨rfl,rfl,ha⟩ := leaves T due hT
        exact ⟨stage_goTo hi,by rw [heardBy_hear]; simp [heardBy],ha⟩
      · exact .inl ⟨(stage_goTo_ne (Ne.symm hij)).trans hi,
          heardBy_errors (s := s.goTo j stage') silent hij⟩
    | handles message => exact absurd ⟨message,rfl⟩ hhandle

/-- A socket that is disconnected hears nothing more. -/
theorem silent_after_disconnect (hi : s.stage i = some .disconnected)
    (hr : runs (next o) s as = some u) :
    u.stage i = some .disconnected ∧ u.heardBy i = s.heardBy i := by
  refine runs_invariant' (I := fun t => t.stage i = some .disconnected ∧ t.heardBy i = s.heardBy i)
    (fun t a v ⟨hstage,hheard⟩ hn => ?_) ⟨hi,rfl⟩ hr
  obtain ⟨hstage',hheard'⟩ | ⟨hne,-⟩ := hears_of_next hstage hn
  · refine ⟨hstage',hheard'.trans ?_⟩
    rw [hheard]
    cases a <;> simp [sent,ClientStage.room]
  · exact absurd rfl hne

/-- A socket with a timer hears every notification of its account once for each time it is sent, in
this order, and nothing else, until the client leaves or the timer, once due, runs. -/
theorem live_sockets_hear_everything (hi : s.stage i = some (.timed payload due))
    (hr : runs (next o) s as = some u) : ∃ live rest, as = live++rest ∧
      u.heardBy i = s.heardBy i++live.flatMap (sent (some payload.id)) ∧
      (rest = [] ∧ u.stage i = some (.timed payload due) ∨
        u.stage i = some .disconnected ∧ ∃ t a, runs (next o) s live = some t ∧
          rest.head? = some a ∧ (a = .disconnect i ∨ a = .timeout i ∧ due ≤ t.auth.now)) := by
  induction as generalizing s with
  | nil =>
    cases hr
    exact ⟨[],[],rfl,by simp,.inl ⟨rfl,hi⟩⟩
  | cons a as ih =>
    obtain ⟨t,ht,hu⟩ := runs_cons.mp hr
    obtain ⟨hstage,hheard⟩ | ⟨-,hleaves⟩ := hears_of_next hi ht
    · obtain ⟨live,rest,rfl,hlive,hrest⟩ := ih hstage hu
      refine ⟨a::live,rest,rfl,?_,hrest.imp id fun ⟨hstage',v,b,hv,hb⟩ =>
        ⟨hstage',v,b,runs_cons.mpr ⟨t,ht,hv⟩,hb⟩⟩
      rw [hlive,hheard,List.flatMap_cons,List.append_assoc]
      rfl
    · obtain ⟨hstage,hheard,ha⟩ := hleaves payload due rfl
      obtain ⟨hstage',hheard'⟩ := silent_after_disconnect hstage hu
      refine ⟨[],a::as,rfl,?_,.inr ⟨hstage',s,a,rfl,rfl,ha⟩⟩
      rw [hheard',hheard,List.flatMap_nil,List.append_nil]

/-- The socket hears of a transfer to the account itself twice, and of nothing after its timer. -/
theorem live_sockets_hear_everything_twice : ∃ s u,
    runs (next AuthRun.sevenDays) .initial heardDeposit = some s ∧
    runs (next AuthRun.sevenDays) s [.handle (.transferCompleted 8 9 1 1 500 "RUB"),
      .auth (.tick 604800000),.timeout 0,.handle (.depositCredited 7 1 500 "RUB")] = some u ∧
    u.heardBy 0 = [.notification 1 (.depositCredited 7 1 500 "RUB"),
      .notification 1 (.transferCompleted 8 9 1 1 500 "RUB"),
      .notification 1 (.transferCompleted 8 9 1 1 500 "RUB")] ∧
    ∃ live : List WssAction, u.heardBy 0 = s.heardBy 0++live.flatMap (sent (some 1)) := by
  refine ⟨_,_,rfl,rfl,rfl,?_⟩
  exact Exists.imp (fun live ⟨rest,_,h,_⟩ => h) (@live_sockets_hear_everything AuthRun.sevenDays _ _ [
    .handle (.transferCompleted 8 9 1 1 500 "RUB"),.auth (.tick 604800000),.timeout 0,
    .handle (.depositCredited 7 1 500 "RUB")] 0 (AuthRun.tokenOf 0) 604800000 rfl rfl)

end Live

end WssRun
end NestHomework.NotificationService
