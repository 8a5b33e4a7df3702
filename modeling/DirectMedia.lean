import DirectMedia.Pts.Order
import DirectMedia.Pts.CommonTimeline
import DirectMedia.Pts.Wraparound
import DirectMedia.Pts.Burst
import DirectMedia.Message.Removal
import DirectMedia.Message.Quit
import DirectMedia.Message.Dispatch
import DirectMedia.Message.Progress
import DirectMedia.Player.Flush
import DirectMedia.Player.AllOrNothing
import DirectMedia.Player.Failures
import DirectMedia.Player.Follow
import DirectMedia.Player.Transport
import DirectMedia.Player.EndOfStream
import DirectMedia.Player.FlowControl
import DirectMedia.Omx.Ownership
import DirectMedia.Feed.Head
import DirectMedia.Feed.EndToEnd
import DirectMedia.Feed.Sync
import DirectMedia.Feed.Submissions
import DirectMedia.Feed.EosFlag
import DirectMedia.Feed.StartTime
import DirectMedia.Feed.AudioPcm
import DirectMedia.Audio.SwDecoder
import DirectMedia.Player.SingleStream
import DirectMedia.Omx.Ports
import DirectMedia.Omx.Bounds
import DirectMedia.Omx.Allocation
import DirectMedia.Omx.LateCallbacks
import DirectMedia.Omx.Commands
import DirectMedia.Resource.Requestor
import DirectMedia.Parser.Safety
import DirectMedia.Feed.Drain
import DirectMedia.Omx.WaitProgress
import DirectMedia.Player.Lifetime
import DirectMedia.Omx.PortStates
import DirectMedia.Feed.Barrier
import DirectMedia.Feed.Absent
import DirectMedia.Feed.Mutex
import DirectMedia.Feed.Paused
import DirectMedia.Clock.OmxClock
import DirectMedia.Player.Process
