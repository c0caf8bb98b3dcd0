import PeepeeBox.AtParser
import PeepeeBox.BufferBounds
import PeepeeBox.BufferSlack
import PeepeeBox.BurstClassification
import PeepeeBox.BurstClocking
import PeepeeBox.ByteFifo
import PeepeeBox.CString
import PeepeeBox.CardReader
import PeepeeBox.CardReaderExchange
import PeepeeBox.CdongleFrames
import PeepeeBox.CdonglePictureKey
import PeepeeBox.CdongleTransport
import PeepeeBox.CharModem
import PeepeeBox.DataMode
import PeepeeBox.DongleBounds
import PeepeeBox.DongleDevice
import PeepeeBox.EdgeReports
import PeepeeBox.FunLink
import PeepeeBox.HdcIde
import PeepeeBox.HddImage
import PeepeeBox.HostFile
import PeepeeBox.IButton
import PeepeeBox.IdeBoard
import PeepeeBox.ImageOpening
import PeepeeBox.KeyedQueryAgreement
import PeepeeBox.MaskWalk
import PeepeeBox.MicroTouch
import PeepeeBox.MicrowireEeprom
import PeepeeBox.NibbleReadback
import PeepeeBox.OneWire
import PeepeeBox.RecordDecode
import PeepeeBox.SerialBits
import PeepeeBox.SessionIdentity
import PeepeeBox.TokenTransactions
import PeepeeBox.TouchTaps
import PeepeeBox.ImageBounds
import PeepeeBox.AtaRange
import PeepeeBox.DataPort
import PeepeeBox.SectorStepping
import PeepeeBox.SectorWrites
import PeepeeBox.SectorReads
import PeepeeBox.SectorTransfers
import PeepeeBox.AsyncShadow
import PeepeeBox.AsyncReads
import PeepeeBox.BusMaster
import PeepeeBox.BusMasterCopies
import PeepeeBox.BusMasterTransfers
import PeepeeBox.BusMasterRuns
import PeepeeBox.Fat16
import PeepeeBox.Ppfix
import PeepeeBox.FatBounds
import PeepeeBox.GrownImage
import PeepeeBox.GrownVolume
import PeepeeBox.PpfixLocate
import PeepeeBox.VolumeGrowth
import PeepeeBox.Cp80
import PeepeeBox.Cp80Record
import PeepeeBox.SerialReceive
import PeepeeBox.Cp80Replies
import PeepeeBox.PpfixMoves
import PeepeeBox.PpfixRepair
import PeepeeBox.PhotoplayIdent
import PeepeeBox.ReaderAgreement
import PeepeeBox.PictureRounds
import PeepeeBox.Cp80Paper
import PeepeeBox.DoublyLinked
import PeepeeBox.Timer
import PeepeeBox.TimerList
import PeepeeBox.TimerRuns
import PeepeeBox.NetSwitch
import PeepeeBox.NetReceive
import PeepeeBox.NetDelivery
import PeepeeBox.EventFifo
import PeepeeBox.Uart
import PeepeeBox.UartReceiver
import PeepeeBox.DataReady
import PeepeeBox.ShiftRegister
import PeepeeBox.Elo
import PeepeeBox.EloCommands
import PeepeeBox.EloTouches
import PeepeeBox.EloSettings
import PeepeeBox.EloNvram
import PeepeeBox.EloReplay
import PeepeeBox.CipherBlocks
import PeepeeBox.KeyRecovery
import PeepeeBox.AffineForms
import PeepeeBox.DumpSolver
import PeepeeBox.Ini
import PeepeeBox.IniBounds
import PeepeeBox.IniReadback
import PeepeeBox.Pic
import PeepeeBox.PicLines
import PeepeeBox.HeldAnswers
import PeepeeBox.RegisterWidth
import PeepeeBox.CdongleRefusals
import PeepeeBox.NetModem
import PeepeeBox.SlipFraming
import PeepeeBox.Pit
import PeepeeBox.PitCounts
import PeepeeBox.Waves
import PeepeeBox.PitSquare
import PeepeeBox.PitRuns
import PeepeeBox.PitPeriod
import PeepeeBox.PitRecount
import PeepeeBox.PitGate
import PeepeeBox.PitEvents
import PeepeeBox.PitLatches
import PeepeeBox.PitFast
import PeepeeBox.PitTwins
import PeepeeBox.LptFifo
import PeepeeBox.LptDelivery
import PeepeeBox.AskedReports
import PeepeeBox.CardReaderReplies
import PeepeeBox.PolledTouches
import PeepeeBox.JoinedLines
import PeepeeBox.ModemSession
import PeepeeBox.ModemReceive
import PeepeeBox.ModemCarrier
import PeepeeBox.MainSet
import PeepeeBox.PhotoplayTerritory
import PeepeeBox.Cp80Snapshots
import PeepeeBox.Cp80Escapes
import PeepeeBox.FifoQueue
import PeepeeBox.DialProgram
import PeepeeBox.ExchangeSort
import PeepeeBox.IniTidy
import PeepeeBox.EloCoordinates
import PeepeeBox.EloInForce
import PeepeeBox.ClippedTransfers
import PeepeeBox.HaspPlug
import PeepeeBox.DescriptorPointer
import PeepeeBox.FunworldIo
import PeepeeBox.PacketQueues
import PeepeeBox.DmaReads
import PeepeeBox.ModemTelnet
import PeepeeBox.LbaRegisters
import PeepeeBox.IdeBufferBounds
import PeepeeBox.CatalogFat
import PeepeeBox.ImgPatch
import PeepeeBox.ImgPatchContents
import PeepeeBox.ImgPatchWhole
import PeepeeBox.TimerLife
import PeepeeBox.TimerClose
import PeepeeBox.UartTransmitter
import PeepeeBox.FunLinkBus
