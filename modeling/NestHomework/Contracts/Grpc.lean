import Mathlib.Data.Nat.Notation

/-! The errors that the gRPC services answer with. -/
namespace NestHomework.Contracts

inductive GrpcStatus where
  | ok
  | cancelled
  | unknown
  | invalidArgument
  | deadlineExceeded
  | notFound
  | alreadyExists
  | permissionDenied
  | resourceExhausted
  | failedPrecondition
  | aborted
  | outOfRange
  | unimplemented
  | internal
  | unavailable
  | dataLoss
  | unauthenticated
  deriving DecidableEq, Repr

/-- An error that comes from elsewhere may have no code. -/
structure RpcException where
  code : Option GrpcStatus
  details : String
  deriving DecidableEq, Repr

end NestHomework.Contracts
