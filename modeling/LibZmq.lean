import LibZmq.Conflate.Concurrent
import LibZmq.Engine.Commands
import LibZmq.Engine.Input
import LibZmq.Engine.Notify
import LibZmq.Engine.Output
import LibZmq.Inproc.Watermarks
import LibZmq.Mailbox
import LibZmq.Pipe.Delimiter
import LibZmq.Pipe.Watermark
import LibZmq.Security.CurveHandshake
import LibZmq.Security.MetadataCodec
import LibZmq.Security.ZapClosed
import LibZmq.Security.ZapReconnect
import LibZmq.Socket.Dgram
import LibZmq.Socket.LbActive
import LibZmq.Socket.Pair
import LibZmq.Socket.ReqEnvelope
import LibZmq.Socket.ReqReply
import LibZmq.Socket.StreamSync
import LibZmq.Socket.SubAgreement
import LibZmq.Socket.XpubDelivery
import LibZmq.Socket.XpubManual
import LibZmq.Socket.XpubUpstream
import LibZmq.Socket.XsubFraming
import LibZmq.Tcp.AcceptFilter
import LibZmq.Tcp.Reconnect
import LibZmq.Wire.V1
import LibZmq.YPipe.Concurrent
import LibZmq.Z85
