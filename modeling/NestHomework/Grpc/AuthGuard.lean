import Mathlib.Tactic
import NestHomework.Contracts.Grpc

/-! `GrpcAuthGuard`, the controllers that it guards, and the metadata by which a client gives its
service away. -/
namespace NestHomework.Grpc
open Contracts

section Metadata

/-- `value.replace(pattern,"")`, which takes out the first occurrence. -/
def removeFirst (pattern : List Char) : List Char → List Char
  | [] => []
  | c::l =>
    if pattern.isPrefixOf (c::l) then (c::l).drop pattern.length else c::removeFirst pattern l

def accessToken (value : String) : String :=
  String.ofList (removeFirst "Bearer ".toList value.toList)

def authorization (token : Option String) : List String :=
  match token with
  | none => []
  | some token => if token = "" then [] else ["Bearer "++token]

end Metadata

/-- The access tokens that may call a method. A variable that is missing from the environment makes
one that no token is equal to. -/
abbrev AccessList := List (Option String)

namespace GrpcAuthGuard

def denied (reason : String) : RpcException :=
  ⟨some .unauthenticated,"Отказ в исполнении. Недостаточно прав сервиса. Причина: "++reason⟩

def canActivate (allowedTokens : Option AccessList) (methodName : String) (values : List String) :
    Except RpcException Unit :=
  match allowedTokens with
  | none => .error (denied ("["++methodName++"] Не определен ACL метода"))
  | some allowedTokens =>
    match values with
    | [] => .error (denied ("["++methodName++"] Не предоставлен токен авторизации сервиса"))
    | value::_ =>
      if allowedTokens.contains (some (accessToken value)) then .ok ()
      else .error (denied ("["++methodName++"] Неверный токен авторизации сервиса"))

end GrpcAuthGuard

def createGrpcController (names proxingMethods : List String) (acl : List (String × AccessList)) :
    List (String × Option AccessList) :=
  ((if proxingMethods = [] then names else proxingMethods).filter fun m =>
    m ≠ "constructor" && m.toList.head? ≠ some '_' &&
      m ∉ ["onModuleInit","onModuleDestroy","onApplicationBootstrap"]).map fun m => (m,acl.lookup m)

/-- A call at a controller: the error that ends it, or nothing when its method runs. -/
def dispatch (controller : List (String × Option AccessList)) (method : String) (values : List String) :
    Except RpcException Unit :=
  match controller.lookup method with
  | none => .error ⟨some .unimplemented,"The server does not implement the method "++method⟩
  | some acl => GrpcAuthGuard.canActivate acl method values

section Admitted
variable {controller : List (String × Option AccessList)} {acl : AccessList} {method : String}
  {values : List String}

/-- A method runs for those who give an access token of its list. -/
theorem dispatch_iff : (dispatch controller method values).isOk ↔
    ∃ acl value rest, controller.lookup method = some (some acl) ∧ values = value::rest ∧
      some (accessToken value) ∈ acl := by
  rw [dispatch]
  cases hmethod : controller.lookup method with
  | none => simp [Except.isOk,Except.toBool]
  | some acl =>
    cases acl with
    | none => simp [GrpcAuthGuard.canActivate,Except.isOk,Except.toBool]
    | some acl =>
      cases values with
      | nil => simp [GrpcAuthGuard.canActivate,Except.isOk,Except.toBool]
      | cons value rest =>
        simp only [GrpcAuthGuard.canActivate,List.contains_iff_mem]
        split
        next h => exact ⟨fun _ => ⟨acl,value,rest,rfl,rfl,h⟩,fun _ => rfl⟩
        next h =>
          refine ⟨nofun,fun ⟨acl',value',rest',hacl,hvalues,hin⟩ => ?_⟩
          cases hacl
          cases hvalues
          exact absurd hin h

end Admitted
end NestHomework.Grpc
