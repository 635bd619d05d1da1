import SabApp.AesDecode
import SabApp.Base64Reads
import SabApp.ChannelMask
import SabApp.CloudAccount
import SabApp.CloudBinding
import SabApp.CloudIdle
import SabApp.CloudListWrites
import SabApp.CloudQueries
import SabApp.CloudSearches
import SabApp.CloudVerdicts
import SabApp.DevSearch
import SabApp.DigestTexts
import SabApp.HandleRuns
import SabApp.Http
import SabApp.HttpRoundTrip
import SabApp.HttpSafe
import SabApp.HyLoginClean
import SabApp.HyLogs
import SabApp.HyPlaybackBounds
import SabApp.HyPlaybackRuns
import SabApp.HyRecordPages
import SabApp.HyRecords
import SabApp.HySessions
import SabApp.HyStatus
import SabApp.JsonArrayEnds
import SabApp.JsonArrays
import SabApp.JsonSearch
import SabApp.JsonValues
import SabApp.LiveView
import SabApp.PullApart
import SabApp.PullBuffers
import SabApp.PullPictures
import SabApp.PullPlayer
import SabApp.PullReopen
import SabApp.QhAbility
import SabApp.QhAlarm
import SabApp.QhControl
import SabApp.QhDatagrams
import SabApp.QhDates
import SabApp.QhFrameSafe
import SabApp.QhListVerdicts
import SabApp.QhLogs
import SabApp.QhRecords
import SabApp.QhSearchDev
import SabApp.QhSearchLogs
import SabApp.QhSession
import SabApp.QhShuffle
import SabApp.QhStatus
import SabApp.QhWash
import SabApp.QhWifi
import SabApp.QpnsAlarms
import SabApp.QpnsFields
import SabApp.QpnsRequests
import SabApp.RecordingReplay
import SabApp.RtpMixed
import SabApp.RtpSafe
import SabApp.RtpSizes
import SabApp.SpsBounds
import SabApp.Stream1
import SabApp.Stream2
import SabApp.Stream3Drop
import SabApp.Stream3Fifo
import SabApp.Talk
import SabApp.Ticks
import SabApp.Tpool
import SabApp.Utf8
import SabApp.Utf8Reads
import SabApp.Utf8Text
import SabApp.UvcBuffers
import SabApp.UvcFrames
import SabApp.UvcOpen
import SabApp.UvcStreams
import SabApp.XmCheck
import SabApp.XmLogPages
import SabApp.XmLogs
import SabApp.XmMediaRuns
import SabApp.XmRtsThreads
import SabApp.XmSlot
import SabApp.XmStamps
import SabApp.XmTime
import SabApp.YsPlayback
import SabApp.YsPtz
import SabApp.YsRequests
import SabApp.YsStatus
