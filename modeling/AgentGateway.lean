import AgentGateway.Binds.Proofs.RouteConvergence
import AgentGateway.Binds.Proofs.ListenerConvergence
import AgentGateway.Endpoints.Proofs.EvictionEnds
import AgentGateway.RateLimit.Proofs.Conservation
import AgentGateway.Retry.ReplayBody
import AgentGateway.StateManager.Reload
import AgentGateway.Mcp.Proofs.Fanout
import AgentGateway.Parse.Proofs.Chunking
import AgentGateway.Llm.Proofs.MessagesAgree
import AgentGateway.Llm.Proofs.ChunksAgree
import AgentGateway.Pool.Proofs.Safety
import AgentGateway.Krtxds.Proofs.Delivery
import AgentGateway.Krtxds.Proofs.Convergence
import AgentGateway.Hbone.Pool
import AgentGateway.Jwks.Proofs.Refresh
import AgentGateway.ExtProc.Exchange
import AgentGateway.Binds.Policies
import AgentGateway.Llm.Proofs.OpenaiCompat
import AgentGateway.Llm.Proofs.BedrockMessages
import AgentGateway.Llm.Proofs.BedrockAgree
import AgentGateway.Llm.Proofs.ToolPairing
import AgentGateway.Translator.GatewayCollection
import AgentGateway.PolicySelection.Selector
import AgentGateway.Control.CaClient
import AgentGateway.Translator.RouteRules
import AgentGateway.Binds.Gateway
import AgentGateway.Mcp.Proofs.ListCall
import AgentGateway.Http.Jwt
import AgentGateway.Memory.KnowledgeGraph
import AgentGateway.Postgres.ReadOnly
import AgentGateway.Discovery.Proofs.Lookups
import AgentGateway.Http.Csrf
import AgentGateway.Llm.Guard.Bedrock
import AgentGateway.Transport.Identity
