import Redemption.Mppc.Session40
import Redemption.Mppc.Session50
import Redemption.Mppc.Session60
import Redemption.Tpdu.Hostile
import Redemption.Transport.GzipSession
import Redemption.Utf.Utf16
import Redemption.Transport.CryptoRoundTrip
import Redemption.Transport.MwrmRoundTrip
import Redemption.Caches.ClientLimits
import Redemption.Caches.PersisterRoundTrip
import Redemption.FastPath.ClientInput
import Redemption.FastPath.UpdateSession
import Redemption.Planar.Decompress60
import Redemption.Channels.DrdynvcPolicy
import Redemption.Channels.ChannelsPolicy
import Redemption.Pointers.PointerCache
import Redemption.Events.Manager
import Redemption.Glyphs.GlyphMirror
import Redemption.Vnc.ZrleDelivery
import Redemption.Vnc.Safety
import Redemption.Vnc.HextileDelivery
import Redemption.FileTransfer.HandshakeLedger
import Redemption.FileTransfer.FileReading
import Redemption.FileTransfer.FilePackets
import Redemption.Cliprdr.Parsers
import Redemption.Capture.Mwrm3Spec
import Redemption.Acl.AclIncoming
import Redemption.Capture.ImageChunkRoundTrip
import Redemption.Rfx.RemoteFxSafety
import Redemption.Rdpdr.DriveRefusals
import Redemption.Utf.Utf32
import Redemption.Utf.Utf16ToCp1252
import Redemption.Utf.Legacy
import Redemption.Utils.StringToInt
import Redemption.Transport.WsTransport
import Redemption.Utils.RectAlgebra
import Redemption.Utils.SubRegion
import Redemption.Utils.Txt2dToRects
import Redemption.Rfx.DwtInverse
import Redemption.Cliprdr.ReceivedFileList
import Redemption.Utils.IdTranslation
import Redemption.Capture.PatternSearch
import Redemption.Vnc.NewlineConvert
import Redemption.Cliprdr.FileContent
import Redemption.Utils.LineEquation
import Redemption.Channels.FileValidator
import Redemption.Utils.ContiguousSubRect
import Redemption.Vnc.CursorDelivery
import Redemption.Transport.SnappyRecording
import Redemption.FileTransfer.FileListDelivery
