import FcTpms.Program.Returns
import FcTpms.Decoder.Invariants
import FcTpms.Decoder.Steps
import FcTpms.Verif.Acceptance
import FcTpms.Verif.Reading
import FcTpms.Verif.Success
import FcTpms.Verif.Termination
import FcTpms.Verif.Modes
import FcTpms.Verif.Coherence
import FcTpms.Verif.Safety
import FcTpms.Verif.Tones
import FcTpms.Verif.IdealPacket
import FcTpms.Verif.RoundTrip
import FcTpms.Verif.FirstAttempt
import FcTpms.Verif.Recording
import FcTpms.Verif.GainReduction
import FcTpms.Verif.LegacyDecoders
import FcTpms.Verif.SampleNumbers
import FcTpms.Verif.Buffering
import FcTpms.Machine.Runs
import FcTpms.Server.FcQueryService
import FcTpms.Verif.ApiToken
import FcTpms.Job.SdrFtpService
import FcTpms.Verif.JobDiscipline
import FcTpms.Job.LogActivity
import FcTpms.Verif.StartStop
import FcTpms.Verif.Extractor
import FcTpms.Verif.Settings
import FcTpms.Verif.ArrayExt
import FcTpms.Verif.GuardInterval
import FcTpms.Verif.Wrapping
import FcTpms.Verif.RefusedEstimates
import FcTpms.Verif.StaleCache
import FcTpms.Verif.Upload
import FcTpms.Text.Fields
import FcTpms.Text.Formats
import FcTpms.Decoder.Reply
import FcTpms.Job.Response
import FcTpms.Verif.Replies
import FcTpms.Verif.Segmentation
import FcTpms.Verif.Biphase
import FcTpms.Verif.SamplesPerTire
import FcTpms.Verif.PieReports
import FcTpms.Verif.TireSamplesController
import FcTpms.Text.Pattern
import FcTpms.Application.Version
import FcTpms.Verif.Versions
import FcTpms.Legacy.StateMachine
import FcTpms.Verif.PeakBuffers
import FcTpms.Website.ApplicationController
import FcTpms.Verif.HiddenParams
import FcTpms.Website.TireSampleParams
import FcTpms.Verif.TireSampleUnits
import FcTpms.Extractor.PeakPasses
import FcTpms.Verif.PeakDistances
import FcTpms.Number.Bits
import FcTpms.Program.Sequences
import FcTpms.Program.Outcomes
import FcTpms.Decoder.SensorMessage
import FcTpms.Verif.SensorMessages
import FcTpms.Verif.Transmissions
import FcTpms.Verif.History
import FcTpms.Verif.SampleStream
import FcTpms.Verif.MarkedFilter
import FcTpms.Fourier.Transform
import FcTpms.Fourier.BitReversal
import FcTpms.Fourier.Butterflies
import FcTpms.Extractor.Fft
import FcTpms.Verif.Fft
import FcTpms.Extractor.BlockSpread
import FcTpms.Verif.BlockSpread
import FcTpms.Verif.SilentBlocks
import FcTpms.Legacy.Getters
import FcTpms.Verif.LiquidPackets
import FcTpms.Verif.LiquidHistory
import FcTpms.Verif.Resting
import FcTpms.Verif.LastEstimate
import FcTpms.Verif.FoundAtFirst
import FcTpms.Verif.IdealFile

