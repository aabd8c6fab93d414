import ProtobufMq.Foundation.Run
import ProtobufMq.Foundation.Dictionary
import ProtobufMq.Foundation.Framing
import ProtobufMq.Foundation.Mirror
import ProtobufMq.Foundation.Wire
import ProtobufMq.Foundation.Schema
import ProtobufMq.Foundation.Stream
import ProtobufMq.Foundation.Adler
import ProtobufMq.Foundation.Wildcard
import ProtobufMq.Foundation.Quoted
import ProtobufMq.Foundation.Directories
import ProtobufMq.Foundation.Balance
import ProtobufMq.Common.Msg
import ProtobufMq.Common.Proto
import ProtobufMq.Common.Buffer
import ProtobufMq.Common.Codec
import ProtobufMq.Common.Receiving
import ProtobufMq.Common.Damage
import ProtobufMq.Common.Uuid
import ProtobufMq.Common.FileHelper
import ProtobufMq.Common.Path
import ProtobufMq.Common.Confined
import ProtobufMq.Common.CreateDirectory
import ProtobufMq.Common.Climb
import ProtobufMq.Common.Truthful
import ProtobufMq.Common.Threadpool
import ProtobufMq.Server.MessageMapper
import ProtobufMq.Server.QueueMessage
import ProtobufMq.Server.MessageConservation
import ProtobufMq.Server.MessageDurability
import ProtobufMq.Server.MessageCounters
import ProtobufMq.Server.MessageCrash
import ProtobufMq.Server.DataFile
import ProtobufMq.Server.Append
import ProtobufMq.Server.Loading
import ProtobufMq.Server.FailedInsert
import ProtobufMq.Server.Route
import ProtobufMq.Server.Topic
import ProtobufMq.Server.KeyGrammar
import ProtobufMq.Server.Consumer
import ProtobufMq.Server.RoundRobin
import ProtobufMq.Server.VirtualHost
import ProtobufMq.Server.RouteTable
import ProtobufMq.Server.BindingTable
import ProtobufMq.Server.SqlText
import ProtobufMq.Server.Persistence
import ProtobufMq.Server.Refusal
import ProtobufMq.Server.Channel
import ProtobufMq.Server.Broker
import ProtobufMq.Server.Agreement
import ProtobufMq.Server.Roster
import ProtobufMq.Server.Ownership
import ProtobufMq.Server.Following
import ProtobufMq.Server.Isolation
import ProtobufMq.Server.Stopping
import ProtobufMq.Server.Acknowledge
import ProtobufMq.Server.Stores
import ProtobufMq.Server.Delivery
import ProtobufMq.Server.Publish
import ProtobufMq.Server.PublishEffect
import ProtobufMq.Server.SharedFiles
import ProtobufMq.Server.Fanout
import ProtobufMq.Server.Completing
import ProtobufMq.Server.Answer
import ProtobufMq.Server.Unsubscribe
import ProtobufMq.Server.Subscribing
import ProtobufMq.Server.Serial
import ProtobufMq.Server.Order
import ProtobufMq.Server.Backlog
import ProtobufMq.Server.Lifetime
import ProtobufMq.Client.Channel
import ProtobufMq.Client.Threads
import ProtobufMq.Client.Responses
import ProtobufMq.Client.Lockup
import ProtobufMq.Client.Subscription
import ProtobufMq.Client.ChannelTable
import ProtobufMq.Server.Specification
import ProtobufMq.Server.View
import ProtobufMq.Server.Conformance
import ProtobufMq.Server.Atomicity
import ProtobufMq.Server.Lives
import ProtobufMq.Server.Gateway
import ProtobufMq.Server.Serving
import ProtobufMq.Server.Contract
import ProtobufMq.Server.Parcels
import ProtobufMq.Server.Addressing
import ProtobufMq.Server.Bookkeeping
import ProtobufMq.Server.Conservation
