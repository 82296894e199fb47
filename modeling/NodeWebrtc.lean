import NodeWebrtc.Clips.DiskCache
import NodeWebrtc.Clips.Targets
import NodeWebrtc.ClusterSpeech.AnsweredFinalizes
import NodeWebrtc.ClusterSpeech.WholeUtterances
import NodeWebrtc.Conference.Membership
import NodeWebrtc.Conference.OneBridge
import NodeWebrtc.Conference.Removal
import NodeWebrtc.Core.IceResolve
import NodeWebrtc.Core.PcmEncoder
import NodeWebrtc.Core.SdpFmtp
import NodeWebrtc.InboundAudio.ReorderWaits
import NodeWebrtc.InboundAudio.Stage
import NodeWebrtc.MixPump.Twins
import NodeWebrtc.Mixer.ElasticProgress
import NodeWebrtc.Mixer.GroupMirror
import NodeWebrtc.Mixer.Pacer
import NodeWebrtc.Mixer.RenderOrder
import NodeWebrtc.Player.LayoutFrames
import NodeWebrtc.Pod.Capacity
import NodeWebrtc.SessionHost.LifecycleHooks
import NodeWebrtc.Sherpa.CachedTts
import NodeWebrtc.Sherpa.TinyPieces
import NodeWebrtc.Sherpa.FastPoll
import NodeWebrtc.Sherpa.OnceMap
import NodeWebrtc.Sherpa.SlotFairness
import NodeWebrtc.Speech.PhraseLru
import NodeWebrtc.Signaling.Client
import NodeWebrtc.Signaling.Presence
import NodeWebrtc.Speech.BargeSilence
import NodeWebrtc.Speech.EventOrder
import NodeWebrtc.Speech.HoldAudio
import NodeWebrtc.Speech.HoldResults
import NodeWebrtc.Speech.OneTerminal
import NodeWebrtc.Speech.ReplyLedger
import NodeWebrtc.Speech.SpeakingEvents
import NodeWebrtc.Speech.StoredVerdicts
import NodeWebrtc.Vendors.ChunkedAudio
import NodeWebrtc.Vendors.FileUpload
import NodeWebrtc.Vendors.FishAudioStt
import NodeWebrtc.Vendors.LateAnswers
import NodeWebrtc.Vendors.MistralOrder
import NodeWebrtc.Vendors.MistralReplay
import NodeWebrtc.Vendors.RealtimeCommit
import NodeWebrtc.Vendors.SseParser
import NodeWebrtc.Vendors.SseStream
import NodeWebrtc.Vendors.TtsAttempts
import NodeWebrtc.Vendors.GroqWav
import NodeWebrtc.Speech.SpeechTurns
import NodeWebrtc.Speech.FinalText
import NodeWebrtc.Speech.IdleSound
import NodeWebrtc.Speech.LeadInAudio
import NodeWebrtc.Speech.HoldBack
import NodeWebrtc.Sdk.ChannelRuns
import NodeWebrtc.Clips.SlotFrames
import NodeWebrtc.Sherpa.StreamedFrames
import NodeWebrtc.Player.TerminalStatus
import NodeWebrtc.Speech.InboundPump
