import Crossgram.StableJson
import Crossgram.Lib.Runs
import Crossgram.Lib.Programs
import Crossgram.Lib.Intervals
import Crossgram.Lib.Windows
import Crossgram.Lib.Maps
import Crossgram.Lib.Tables
import Crossgram.Lib.Results
import Crossgram.Lib.Waits
import Crossgram.Lib.Framing
import Crossgram.Lib.Hex
import Crossgram.Lib.Triples
import Crossgram.UpdateStore
import Crossgram.UpdateTables
import Crossgram.UpdateReservations
import Crossgram.UpdateDates
import Crossgram.UpdateBases
import Crossgram.UpdatePublish
import Crossgram.UpdateDifference
import Crossgram.UpdateSystem
import Crossgram.UpdateReads
import Crossgram.UpdateAccount
import Crossgram.UpdateChannel
import Crossgram.UpdateNotice
import Crossgram.MessageId
import Crossgram.MessageSlots
import Crossgram.SlotSearch
import Crossgram.MessageTables
import Crossgram.MessageProjection
import Crossgram.MessageIngest
import Crossgram.MessageParts
import Crossgram.MessageIdentity
import Crossgram.MessageOrder
import Crossgram.PartOrder
import Crossgram.MessageRewrites
import Crossgram.ForumTopics
import Crossgram.MessageIndex
import Crossgram.RpcRegistry
import Crossgram.RpcReplays
import Crossgram.RpcSession
import Crossgram.RpcDeadlock
import Crossgram.AuthKeyStore
import Crossgram.AuthKeyRevocation
import Crossgram.AuthKeyRaces
import Crossgram.ScheduledMessages
import Crossgram.ScheduledStore
import Crossgram.ScheduledSendNow
import Crossgram.SendQueue
import Crossgram.SendQueueSettles
import Crossgram.SendQueueOrder
import Crossgram.Transport
import Crossgram.TransportCodecs
import Crossgram.TransportFraming
import Crossgram.HistoryCoverage
import Crossgram.Lib.SpanRuns
import Crossgram.Lib.Doubles
import Crossgram.CoverageSets
import Crossgram.HistoryBackfill
import Crossgram.HistoryBackfillProgress
import Crossgram.BootstrapPages
import Crossgram.Lib.Coalescing
import Crossgram.HistoryLoads
import Crossgram.BackfillRequests
import Crossgram.Lib.Handover
import Crossgram.StreamLeases
import Crossgram.HighwayFrames
import Crossgram.HighwayWriter
import Crossgram.HighwayBlocks
import Crossgram.HighwayUploads
import Crossgram.Lib.Endian
import Crossgram.Lib.Readers
import Crossgram.Lib.Utf16
import Crossgram.VoiceIpcPayload
import Crossgram.VoiceIpc
import Crossgram.VoiceIpcCodec
import Crossgram.VoiceWorkerClient
import Crossgram.VoiceIpcAgreement
import Crossgram.Lib.Ownership
import Crossgram.Lib.Powers
import Crossgram.VoiceCrypto
import Crossgram.VoiceWorker
import Crossgram.VoiceWorkerMedia
import Crossgram.VoiceWorkerOwnership
import Crossgram.VoiceWorkerRuns
import Crossgram.VoiceHandshake
import Crossgram.VoiceExchange
import Crossgram.Lib.Relay
import Crossgram.VoiceEvents
import Crossgram.VoicePump
import Crossgram.VoiceSignals
import Crossgram.Lib.Cursors
import Crossgram.EventStream
import Crossgram.OwnMessages
import Crossgram.RenderingIsolation
import Crossgram.DialogPages
import Crossgram.DialogTiling
import Crossgram.MessageDeletions
import Crossgram.DeletionUpdates
import Crossgram.PeerIds
import Crossgram.VoiceCallView
import Crossgram.VoiceProvenance
import Crossgram.VoiceClients
import Crossgram.RichText
import Crossgram.InlineMarkdown
import Crossgram.Lib.Cuts
import Crossgram.RichTextTree
import Crossgram.RichTextWalk
import Crossgram.MarkdownBlocks
import Crossgram.MarkdownOrder
import Crossgram.ArticleBlocks
import Crossgram.UpdateStoreDatabase
import Crossgram.ServerMessageIds
import Crossgram.RpcSlots
import Crossgram.CallExpiry
import Crossgram.PreparedUploads
import Crossgram.UploadEviction
import Crossgram.UploadParts
import Crossgram.Lib.Recency
import Crossgram.RecentPromises
import Crossgram.Lib.Base64
import Crossgram.Lib.Decimals
import Crossgram.UpdateJson
import Crossgram.SendConfirmations
import Crossgram.Lib.Walks
import Crossgram.MemberPages
import Crossgram.Lib.Ranks
import Crossgram.ReactionRows
import Crossgram.ReactionSends
import Crossgram.ReadMarks
import Crossgram.AnchorSearch
import Crossgram.OwnedDialogs
import Crossgram.MentionCounts
import Crossgram.PcmFrames
import Crossgram.Lib.Bitwise32
import Crossgram.Lib.Sha1
import Crossgram.MediaHashes
import Crossgram.Lib.Backwards
import Crossgram.AnchorWalks
import Crossgram.BackfillRejections
import Crossgram.DialogShortcut
import Crossgram.JsonFields
import Crossgram.VoiceMemory
import Crossgram.VoiceRetries
import Crossgram.VoiceSignalSends
import Crossgram.ReadMarkers
import Crossgram.LarkReactions
import Crossgram.LoginSrp
import Crossgram.TgcallsSession
import Crossgram.DialogFolders
