import NestHomework.Outbox.Cron
import NestHomework.Postgres.Handlers
import NestHomework.UserService.TokenIssue
import NestHomework.UserService.Guessing
import NestHomework.UserService.Serializability
import NestHomework.UserService.LockOrder
import NestHomework.UserService.Conservation
import NestHomework.UserService.Delivery
import NestHomework.UserService.HandlerOutcome
import NestHomework.UserService.DepositRedelivery
import NestHomework.UserService.TransferRedelivery
import NestHomework.TransactionService.RetryConcurrency
import NestHomework.TransactionService.StatusMachine
import NestHomework.Services.Drain
import NestHomework.TransactionService.WebhookOutcome
import NestHomework.Proxy.Stragglers
import NestHomework.UserService.Otp
import NestHomework.UserService.Rotation
import NestHomework.Gateway.BearerToken
import NestHomework.Gateway.Spending
import NestHomework.Services.LockStep
import NestHomework.Services.RetryBound
import NestHomework.NotificationService.OneDocument
import NestHomework.NotificationService.Sockets
import NestHomework.FileService.Backed
import NestHomework.UserService.Staleness
import NestHomework.Shared.Dollars
import NestHomework.TransactionService.YookassaIpGuard
import NestHomework.Grpc.RetryWrapper
import NestHomework.JobService.BalanceReset
import NestHomework.UserService.CacheKeys
import NestHomework.UserService.OtpCooldown
import NestHomework.UserService.AvatarLimit
import NestHomework.Outbox.HeadOfLine
import NestHomework.UserService.Pagination
import NestHomework.UserService.ActiveUsers
