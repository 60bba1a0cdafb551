import FrostFederation.Lib.Run
import FrostFederation.Lib.HashMap
import FrostFederation.Lib.Serde
import FrostFederation.Lib.Noise
import FrostFederation.Protocol.Service
import FrostFederation.EchoBroadcast.Actor
import FrostFederation.EchoBroadcast.Record
import FrostFederation.EchoBroadcast.Waiters
import FrostFederation.EchoBroadcast.Safety
import FrostFederation.EchoBroadcast.Completion
import FrostFederation.ReliableSender.Exact
import FrostFederation.ReliableSender.Pair
import FrostFederation.ReliableSender.Delivery
import FrostFederation.ReliableSender.Wire
import FrostFederation.Connection.Noise
import FrostFederation.Connection.Actor
import FrostFederation.Node.Accept
import FrostFederation.Node.Model
import FrostFederation.Node.Flow
import FrostFederation.Node.Safety
import FrostFederation.Node.Awaiting
import FrostFederation.Node.Liveness
import FrostFederation.Federation.Network
import FrostFederation.Federation.Attribution
import FrostFederation.Federation.Round
import FrostFederation.Federation.Outcome
import FrostFederation.Federation.EchoesOnce
import FrostFederation.Connection.Channel
import FrostFederation.Connection.Stack
import FrostFederation.Node.Registration
import FrostFederation.Node.Lifecycle
import FrostFederation.Node.Builder
import FrostFederation.Node.Conversation
import FrostFederation.EchoBroadcast.Maps
import FrostFederation.ReliableSender.Refused
import FrostFederation.Connection.Limits
import FrostFederation.Connection.Side
import FrostFederation.Connection.Transport
import FrostFederation.Connection.Session
import FrostFederation.EchoBroadcast.Loop
import FrostFederation.Node.Dispatch
import FrostFederation.Node.Waiting
import FrostFederation.Federation.Startup
import FrostFederation.Node.Rest
import FrostFederation.Federation.Awaiting
import FrostFederation.Federation.Storm
import FrostFederation.Federation.Cycle
import FrostFederation.Node.Turns
import FrostFederation.Federation.Forest
import FrostFederation.Node.Capacity
import FrostFederation.Lib.Actor
import FrostFederation.Node.Membership
