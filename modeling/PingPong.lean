import PingPong.Ping.PingService
import PingPong.Ping.Proofs.SendStepProofs
import PingPong.Ping.Proofs.SlotProofs
import PingPong.Ping.Proofs.RefusalProofs
import PingPong.Ping.Proofs.RateLimitProofs
import PingPong.Ping.Proofs.ShortCallProofs
import PingPong.Pong.Proofs.ThrottlingProofs
import PingPong.Keyed.Collection
import PingPong.Ping.MessageStore
import PingPong.Ping.Proofs.StartUpProofs
import PingPong.Ping.Proofs.UpdateProofs
import PingPong.Feign.OpenFeignClientProxy
import PingPong.Feign.HttpUtil
import PingPong.Ping.PingController
import PingPong.Pong.PongController
import PingPong.Pong.Proofs.TraceSurvivesProofs
import PingPong.Trace.Proofs.TaskProofs
import PingPong.Ping.Proofs.RequestTraceProofs
import PingPong.Exchange.Delivery
import PingPong.Exchange.Proofs.DeliveryProofs
import PingPong.Trace.Proofs.SchedulingProofs
import PingPong.Other.Broker
import PingPong.Other.Proofs.BrokerProofs
import PingPong.Ping.Proofs.ShutdownProofs
import PingPong.Trace.Proofs.MessageTraceProofs
import PingPong.Exchange.Proofs.ReportProofs
import PingPong.Exchange.Proofs.ServicePathProofs
import PingPong.Feign.OpenFeignClientsRegister
import PingPong.Feign.Proofs.RegisterProofs
import PingPong.Feign.Expansion
import PingPong.Feign.Proofs.ExpansionProofs
import PingPong.Feign.Proofs.FactoryProofs
import PingPong.Feign.MappingAnnotation
import PingPong.Feign.Proofs.MappingProofs
import PingPong.Trace.MessageChannel
import PingPong.Trace.Proofs.MessageChannelProofs
import PingPong.ObjectPool.Pool
import PingPong.Trace.StringBuilderPool
import PingPong.Trace.Proofs.StringBuilderPoolProofs
import PingPong.TokenBucket.Compare
import PingPong.Pong.Proofs.LimiterProofs
import PingPong.StepMachine.Progress
import PingPong.Ping.Proofs.ProgressProofs
import PingPong.Ping.Proofs.DepartureProofs
import PingPong.Exchange.Transit
import PingPong.Exchange.Proofs.TransitProofs
import PingPong.Exchange.System
import PingPong.Exchange.Calls
import PingPong.Exchange.EndToEnd
import PingPong.Exchange.Proofs.SystemStepProofs
import PingPong.Exchange.Proofs.CallProofs
import PingPong.Exchange.Proofs.EndToEndProofs
import PingPong.Exchange.Proofs.LoadProofs
import PingPong.Exchange.Rest
import PingPong.Exchange.Proofs.RestProofs
import PingPong.DoubleChecked.Cell
import PingPong.Trace.GetScheduling
import PingPong.Trace.Proofs.GetSchedulingProofs
import PingPong.Keyed.LinkedSet
import PingPong.Feign.Registration
import PingPong.Feign.Proofs.RegistrationProofs
import PingPong.Exchange.Wiring
