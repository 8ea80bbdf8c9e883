import Calipso.Ar9170.Psm.Doze
import Calipso.Ar9170.Usb.CommandMatch
import Calipso.Ieee80211.Duplicates
import Calipso.Ieee80211.BeaconRoundTrip
import Calipso.Ar9170.Psm.BeaconSchedule
import Calipso.Ar9170.Psm.QueueMemory
import Calipso.Ar9170.Psm.AwakeList
import Calipso.Net.QueuebufPreserve
import Calipso.Net.SlipIntegrity
import Calipso.Micmac.Delivery
import Calipso.Ar9170.Psm.Windows
import Calipso.Rtimer.Run
import Calipso.Ieee80211.SlipFraming
import Calipso.Rpl.DioRoundTrip
import Calipso.Rpl.Parsing
import Calipso.Sicslowpan.Hc06RoundTrip
import Calipso.Sicslowpan.Fragmentation
import Calipso.Rpl.TimerSafety
import Calipso.Sicslowpan.Staleness
import Calipso.Uip.Nud
import Calipso.Rime.RunicastOutcome
import Calipso.Trickle.Conformance
import Calipso.Rime.Rudolph2Integrity
import Calipso.Uip.Reassembly
import Calipso.Rime.CollectQueue
import Calipso.Etimer.Expiration
import Calipso.Uip.TransportBounds
import Calipso.Ar9170.Psm.AtimCreation
import Calipso.Micmac.PhasePrediction
import Calipso.Micmac.Framing
import Calipso.Ar9170.Tx.UpdateBeacon
import Calipso.Ieee80211.ElementParse
import Calipso.Ar9170.Rx.Extraction
import Calipso.Uip.OptionWalk
import Calipso.Uip.HeaderWalk
import Calipso.Ar9170.Usb.FwDesc
import Calipso.Ieee80211.JoinAtomicity
import Calipso.Ar9170.Phy.Calibration
import Calipso.Rpl.DefaultRoute
import Calipso.Rpl.Rejection
import Calipso.Uip.SolicitedNode
import Calipso.Resolv.NameCodec
import Calipso.Rpl.RouteAgeing
import Calipso.Cfs.MicroLog
import Calipso.Uip.Estimation
import Calipso.Uip.EchoReply
import Calipso.Uip.ErrorOutput
import Calipso.Net.Frame802154RoundTrip
import Calipso.Lib.MmemCompaction
import Calipso.Net.PacketutilsConform
import Calipso.Rime.RouteDiscoveryOutcome
import Calipso.Apps.ServregExchange
import Calipso.Rime.CollectMetric
import Calipso.Rime.ChameleonRoundTrip
import Calipso.Dev.SerialLine
import Calipso.Sys.EventQueue
