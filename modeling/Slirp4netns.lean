import Slirp4netns.Api.Consistency
import Slirp4netns.Api.Message
import Slirp4netns.Api.Arguments
import Slirp4netns.Api.Replay
import Slirp4netns.Api.Buffer
import Slirp4netns.Lockdown
import Slirp4netns.ApiSocket
import Slirp4netns.HostMounts
import Slirp4netns.Capabilities
import Slirp4netns.SandboxView
import Slirp4netns.Network
import Slirp4netns.MacAddress
import Slirp4netns.PollWait
import Slirp4netns.Targets
import Slirp4netns.Parson.Session
import Slirp4netns.Parson.HeapParse
import Slirp4netns.Parson.HeapSerialize
import Slirp4netns.Api.HeapRuns
import Slirp4netns.Parson.Texts
import Slirp4netns.EventLoop
