import AgcSpec.Lib.Checked
import AgcSpec.Spl
import AgcSpec.Vad
import AgcSpec.GainTable
import AgcSpec.Digital
import AgcSpec.Analog
import AgcSpec.Mic
import AgcSpec.ProcessAnalog
import AgcSpec.Wrapper
import AgcSpec.Saturation
import AgcSpec.Config
import AgcSpec.FrameQueue
import AgcSpec.Energy
import AgcSpec.Levels
import AgcSpec.Guard
import AgcSpec.Gains
import AgcSpec.Samples
import AgcSpec.Shipped
import AgcSpec.Failure
import AgcSpec.TableRange
import AgcSpec.AdaptiveLoop
import AgcSpec.Lib.Bytes
import AgcSpec.WavHeader
import AgcSpec.WavReader
import AgcSpec.WavWriter
import AgcSpec.Lifecycle
import AgcSpec.Agreement
import AgcSpec.MultiChannel
import AgcSpec.LevelLimits
import AgcSpec.SpeedMode
import AgcSpec.ExactLevels
import AgcSpec.Limiter
import AgcSpec.Ramps
import AgcSpec.LevelProtocol
import AgcSpec.AudioUtil
import AgcSpec.ChannelBuffer
import AgcSpec.SplittingFilter
import AgcSpec.AudioBuffer
import AgcSpec.ResampleBy2
import AgcSpec.ResampleBlocks
import AgcSpec.Resampler
import AgcSpec.Push
import AgcSpec.PushContract
import AgcSpec.Followers
import AgcSpec.TableSafety
import AgcSpec.TableCurve
import AgcSpec.VadEnergy
import AgcSpec.VadStats
import AgcSpec.VirtualMic
import AgcSpec.MicRates
import AgcSpec.Timers
import AgcSpec.ResamplerModes
import AgcSpec.ChannelLayout
import AgcSpec.Downmix
import AgcSpec.AllPassBlocks
import AgcSpec.QmfExact
import AgcSpec.SquareRoot
import AgcSpec.Interpolator
import AgcSpec.LowLevel
import AgcSpec.DotProduct
import AgcSpec.InputAudioFile
import AgcSpec.Program
import AgcSpec.Interleaving
import AgcSpec.Restart
import AgcSpec.FilterBank
import AgcSpec.PushSincResampler
import AgcSpec.Reconstruction
import AgcSpec.Port
