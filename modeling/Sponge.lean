import Sponge.WordProofs
import Sponge.SegmentProofs
import Sponge.RunProofs
import Sponge.BlockMapProofs
import Sponge.ByteStreamProofs
import Sponge.ReassemblerProofs
import Sponge.ReassemblyProofs
import Sponge.ReceiverProofs
import Sponge.StreamEndProofs
import Sponge.SenderProofs
import Sponge.SenderStreamProofs
import Sponge.ConnectionProofs
import Sponge.OutboundProofs
import Sponge.NetworkProofs
import Sponge.AgreementProofs
import Sponge.OldAckProofs
import Sponge.LifecycleProofs
import Sponge.ShutdownProofs
import Sponge.StateProofs
import Sponge.AdvertisementProofs
import Sponge.BufferProofs
import Sponge.KeyedProofs
import Sponge.ParserProofs
import Sponge.IPv4Proofs
import Sponge.EthernetProofs
import Sponge.InterfaceProofs
import Sponge.TCPWireProofs
import Sponge.AdapterProofs
import Sponge.ResolutionProofs
import Sponge.RouterProofs
import Sponge.QueueProofs
import Sponge.FillProofs
import Sponge.TimerProofs
import Sponge.PatienceProofs
import Sponge.StorageProofs
import Sponge.FifoProofs
import Sponge.RaiseProofs
import Sponge.DescriptorProofs
import Sponge.EventLoopProofs
import Sponge.CopyProofs
import Sponge.ChannelProofs
import Sponge.SocketProofs
import Sponge.SimulationProofs
import Sponge.FinishProofs
import Sponge.StackProofs
import Sponge.AgingProofs
import Sponge.InternetProofs
import Sponge.RoutedProofs
import Sponge.ConversationProofs
