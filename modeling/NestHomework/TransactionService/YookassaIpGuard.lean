import NestHomework.Shared.BigInt

/-! The guard of the webhook, and how a request comes to it: past proxies that append to
`X-Forwarded-For` whom they have the request from. -/
namespace NestHomework.TransactionService
open Shared

/-- `req.headers['x-forwarded-for']`, when there is one. -/
inductive Header where
  | one (text : String)
  | many (texts : List String)
  deriving DecidableEq, Repr

/-- What the guard sees of a request. `ip` is what the server has made of the header and the
socket. -/
structure GuardedRequest where
  forwarded : Option Header
  ip : String
  deriving DecidableEq, Repr

/-- `text.trim()` -/
def trimText (text : String) : String := String.ofList (trim text.toList)

/-- `text.split(',')[0]` -/
def firstEntry (text : String) : String := String.ofList ((text.toList.splitOn ',').headD [])

namespace YookassaIpGuard

def allowedIps : List String :=
  ["185.71.76.0/27","185.71.77.0/27","77.75.153.0/25","77.75.156.11","77.75.156.35",
    "77.75.154.128/25","2a02:5180::/32"]

def ip (req : GuardedRequest) : String :=
  match req.forwarded with
  | some (.many texts) => (texts.head?.map trimText).getD req.ip
  | some (.one text) => trimText (firstEntry text)
  | none => req.ip

def canActivate (ipRangeCheck : String → List String → Bool) (req : GuardedRequest) : Bool :=
  ipRangeCheck (ip req) allowedIps

end YookassaIpGuard

/-- An address, as a proxy appends it. -/
structure IpText where
  text : String
  noComma : ',' ∉ text.toList
  noSpace : ∀ c ∈ text.toList, isStrWhiteSpace c = false

/-- The way of a request. Each trusted proxy has appended the address it had the request from, so
the sender's own stands first. -/
structure Route where
  hops : List IpText
  socket : IpText

namespace Route
variable (route : Route)

/-- Whom the first proxy had the request from, or the service itself. -/
def sender : IpText := route.hops.headD route.socket

/-- The lines of the header: those that the sender put, and what the proxies have appended. -/
def lines (sent : List String) : List String := sent++route.hops.map (·.text)

/-- Several lines of one header arrive as one text. -/
def forwarded (sent : List String) : Option Header :=
  match route.lines sent with
  | [] => none
  | line::rest => some (.one (", ".intercalate (line::rest)))

/-- The request that arrives. `reqIp` takes the number of trusted proxies, the address of the peer
and the header to `req.ip`. -/
def request (reqIp : ℕ → String → Option Header → String) (sent : List String) : GuardedRequest :=
  ⟨route.forwarded sent,reqIp route.hops.length route.socket.text (route.forwarded sent)⟩

/-- What stands first in the header, or the peer when there is none. -/
def claimed (sent : List String) : String :=
  ((route.lines sent).head?.map (fun line => trimText (firstEntry line))).getD route.socket.text

end Route

theorem firstEntry_append (line rest : String) : firstEntry (line++", "++rest) = firstEntry line := by
  obtain ⟨head,tail,hsplit⟩ := List.exists_cons_of_ne_nil (List.splitOn_ne_nil ',' line.toList)
  have htext : (line++", "++rest).toList = line.toList++ ',':: ' '::rest.toList := by
    rw [String.toList_append,String.toList_append,List.append_assoc]
    rfl
  rw [firstEntry,firstEntry,htext,List.splitOn_append_cons_self,hsplit]
  rfl

theorem firstEntry_intercalate (line : String) (rest : List String) :
    firstEntry (", ".intercalate (line::rest)) = firstEntry line := by
  cases rest with
  | nil => rw [String.intercalate_singleton]
  | cons line' rest =>
    rw [String.intercalate_cons_of_ne_nil (by simp)]
    exact firstEntry_append ..

/-- A single address has nothing to cut off. -/
theorem IpText.trimText_firstEntry (a : IpText) : trimText (firstEntry a.text) = a.text := by
  rw [firstEntry,List.splitOn_eq_singleton a.noComma,List.headD_cons,String.ofList_toList,trimText,
    trim_of_ends (fun c hc => a.noSpace c (List.mem_of_mem_head? hc))
      (fun c hc => a.noSpace c (List.mem_of_mem_getLast? hc)),String.ofList_toList]

namespace Route
variable (route : Route) {reqIp : ℕ → String → Option Header → String}

/-- Without trusted proxies and without a header `req.ip` is the peer of the socket. -/
def ReadsSocket (reqIp : ℕ → String → Option Header → String) : Prop :=
  ∀ socket, reqIp 0 socket none = socket

theorem ip_request (hsocket : ReadsSocket reqIp) (sent : List String) :
    YookassaIpGuard.ip (route.request reqIp sent) = route.claimed sent := by
  unfold request forwarded claimed YookassaIpGuard.ip
  cases hlines : route.lines sent with
  | nil =>
    have hhops : route.hops = [] := by
      have := (List.append_eq_nil_iff.mp hlines).2
      simpa using this
    rw [hhops]
    exact hsocket _
  | cons line rest =>
    simp only [List.head?_cons,Option.map_some,Option.getD_some]
    rw [firstEntry_intercalate]

theorem claimed_cons (line : String) (sent : List String) :
    route.claimed (line::sent) = trimText (firstEntry line) := rfl

theorem claimed_nil : route.claimed [] = route.sender.text := by
  unfold claimed lines sender
  cases route.hops with
  | nil => rfl
  | cons hop hops => exact hop.trimText_firstEntry

end Route

open YookassaIpGuard

/-- Over no route is the answer the same whatever the sender puts into the header. Two headers get
the same answer when what stands first in them is on the same side of the allow list, and a sender
from outside gets in with a first entry from inside. -/
theorem guard_believes_first_entry {ipRangeCheck : String → List String → Bool}
    {reqIp : ℕ → String → Option Header → String} (hsocket : Route.ReadsSocket reqIp)
    (hlisted : ipRangeCheck "185.71.76.1" allowedIps = true)
    (hforeign : ipRangeCheck "203.0.113.9" allowedIps = false) (route : Route) :
    (∀ sent sent', canActivate ipRangeCheck (route.request reqIp sent) =
        canActivate ipRangeCheck (route.request reqIp sent') ↔
      ipRangeCheck (route.claimed sent) allowedIps = ipRangeCheck (route.claimed sent') allowedIps) ∧
    (∀ sent, (canActivate ipRangeCheck (route.request reqIp sent) →
        ipRangeCheck route.sender.text allowedIps) ↔
      ∀ line ∈ sent.head?, ipRangeCheck (trimText (firstEntry line)) allowedIps →
        ipRangeCheck route.sender.text allowedIps) ∧
    ∀ sent, ∃ sent', canActivate ipRangeCheck (route.request reqIp sent') ≠
      canActivate ipRangeCheck (route.request reqIp sent) := by
  have hanswer : ∀ sent, canActivate ipRangeCheck (route.request reqIp sent) =
      ipRangeCheck (route.claimed sent) allowedIps := by
    intro sent
    rw [canActivate,route.ip_request hsocket]
  refine ⟨fun sent sent' => by rw [hanswer,hanswer],fun sent => ?_,fun sent => ?_⟩
  · rw [hanswer]
    cases sent with
    | nil => simp [route.claimed_nil]
    | cons line sent => simp [route.claimed_cons]
  · -- one of the two addresses has the other answer
    have hplain : trimText (firstEntry "185.71.76.1") = "185.71.76.1" ∧
        trimText (firstEntry "203.0.113.9") = "203.0.113.9" := by decide +kernel
    simp only [hanswer]
    cases hsent : ipRangeCheck (route.claimed sent) allowedIps with
    | true =>
      refine ⟨["203.0.113.9"],?_⟩
      rw [route.claimed_cons,hplain.2,hforeign]
      decide
    | false =>
      refine ⟨["185.71.76.1"],?_⟩
      rw [route.claimed_cons,hplain.1,hlisted]
      decide

section Forged

/-- The number of an address of four bytes. -/
def ipv4 (text : List Char) : Option ℕ :=
  match (text.splitOn '.').map (digits 10) with
  | [some a,some b,some c,some d] =>
    if a < 256 ∧ b < 256 ∧ c < 256 ∧ d < 256 then some (((a*256+b)*256+c)*256+d) else none
  | _ => none

/-- The check of an address of four bytes against addresses and blocks of them. -/
def ipv4RangeCheck (ip : String) (ranges : List String) : Bool :=
  (ipv4 ip.toList).any fun a => ranges.any fun range =>
    match range.toList.splitOn '/' with
    | [net] => ipv4 net = some a
    | [net,bits] =>
      match ipv4 net, digits 10 bits with
      | some net, some bits => a/2^(32-bits) = net/2^(32-bits)
      | _, _ => false
    | _ => false

/-- The address so many hops away, counted from the socket through the header. -/
def hopAddress (trusted : ℕ) (socket : String) (header : Option Header) : String :=
  let entries := match header with
    | some (.one text) => (text.toList.splitOn ',').map (fun e => trimText (String.ofList e))
    | _ => []
  (socket::entries.reverse).getD (min trusted entries.length) socket

theorem noSpace_of_all {text : String} (h : text.toList.all (fun c => !isStrWhiteSpace c)) :
    ∀ c ∈ text.toList, isStrWhiteSpace c = false := by
  intro c hc
  simpa using List.all_eq_true.mp h c hc

/-- A sender who is not in the allow list, behind one proxy. -/
def foreignRoute : Route :=
  ⟨[⟨"203.0.113.9",by decide,noSpace_of_all (by decide)⟩],
    ⟨"10.0.0.2",by decide,noSpace_of_all (by decide)⟩⟩

theorem forged_entry_is_believed :
    canActivate ipv4RangeCheck (foreignRoute.request hopAddress []) = false ∧
    canActivate ipv4RangeCheck (foreignRoute.request hopAddress ["185.71.76.1"]) = true ∧
    ipv4RangeCheck foreignRoute.sender.text allowedIps = false := by
  decide +kernel

theorem guard_believes_first_entry_forged :
    ∃ sent, canActivate ipv4RangeCheck (foreignRoute.request hopAddress sent) ≠
      canActivate ipv4RangeCheck (foreignRoute.request hopAddress []) :=
  (guard_believes_first_entry (fun _ => rfl) (by decide +kernel) (by decide +kernel)
    foreignRoute).2.2 []

end Forged
end NestHomework.TransactionService
