import BdxReco.Lib.Run
import BdxReco.Lib.Latch
import BdxReco.Lib.Lifecycle
import BdxReco.Lib.StdMap
import BdxReco.Lib.ByteStream
import BdxReco.Lib.Layout
import BdxReco.Lib.MixedRadix
import BdxReco.Lib.Progress
import BdxReco.TT.Index
import BdxReco.DAQ.Event
import BdxReco.Jana.EventBuffer
import BdxReco.Jana.EventLoops
import BdxReco.Jana.EventProgress
import BdxReco.Jana.FactorySet
import BdxReco.Jana.FactoryCalls
import BdxReco.Jana.Constants
import BdxReco.TRIDAS.FrameTime
import BdxReco.TRIDAS.ParseEvent
import BdxReco.TRIDAS.PtFileReader
import BdxReco.System.CalibrationHandler
import BdxReco.System.CalibrationLookup
import BdxReco.System.CalibrationRegistry
import BdxReco.System.RegistryCoherence
import BdxReco.System.RegistryLatch
import BdxReco.System.Factories
import BdxReco.System.Threads
import BdxReco.DAQ.TridasFile
import BdxReco.DAQ.TridasSource
import BdxReco.Lib.Mem
import BdxReco.DAQ.EtBuffer
import BdxReco.DAQ.EtByteOrder
import BdxReco.DAQ.EtSource
import BdxReco.TT.TranslationTable
import BdxReco.TT.ReadOnce
import BdxReco.Lib.Binary64
import BdxReco.Converters.Crossings
import BdxReco.BDXmini.TriggerData
import BdxReco.Converters.Factories
import BdxReco.EPICS.EpicsData
import BdxReco.EPICS.EpicsDataFactory
import BdxReco.System.EventProcessor
import BdxReco.System.CalibrationReads
import BdxReco.DAQ.FileSource
import BdxReco.DAQ.CompositeDecoder
import BdxReco.DAQ.Mode1Hits
import BdxReco.Converters.Waveform
import BdxReco.Converters.Calorimeter
import BdxReco.Converters.CalorimeterHits
import BdxReco.Converters.CalorimeterCharge
import BdxReco.Converters.IntVeto
import BdxReco.Converters.IntVetoHits
import BdxReco.Converters.IntVetoTot
import BdxReco.BDXmini.SiPMHits
import BdxReco.Converters.ExtVeto
import BdxReco.Converters.ExtVetoHistory
import BdxReco.Converters.Paddles
import BdxReco.Converters.PaddlesHits
import BdxReco.IntVeto.IntVetoHit
import BdxReco.IntVeto.HitOrder
import BdxReco.Calorimeter.CalorimeterCluster
import BdxReco.Calorimeter.CalorimeterHit
import BdxReco.Lib.Accumulate
import BdxReco.MC.McHits
import BdxReco.ExtVeto.ExtVetoDigiHitMC
import BdxReco.IntVeto.IntVetoDigiHitMC
import BdxReco.Calorimeter.CalorimeterDigiHitMC
import BdxReco.MC.McSource
import BdxReco.DAQ.Mode7Hits
import BdxReco.DAQ.WaveboardHits
import BdxReco.DAQ.CalibPedSubHits
import BdxReco.Lib.Logged
import BdxReco.DAQ.CrossCorrelation
import BdxReco.BDXmini.ChannelFlags
import BdxReco.EventBuilder.EventWeight
import BdxReco.DAQ.EtConnect
import BdxReco.EPICS.DecodeEnds
import BdxReco.System.FillCalib
import BdxReco.Lib.Words
import BdxReco.TT.TableFile
import BdxReco.TT.TableDocument
