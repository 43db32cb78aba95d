import GnunetWeb.Library.StateMaybe
import GnunetWeb.Parser
import GnunetWeb.Encoder
import GnunetWeb.Library.FiniteMap
import GnunetWeb.Library.KeyedJoin
import GnunetWeb.Library.Registry
import GnunetWeb.Datastructures
import GnunetWeb.Message
import GnunetWeb.Hello
import GnunetWeb.HelloRoundTrip
import GnunetWeb.HelloMerge
import GnunetWeb.HelloEquals
import GnunetWeb.Hostlist
import GnunetWeb.HostlistRoundTrip
import GnunetWeb.Library.StackBlocks
import GnunetWeb.CCall
import GnunetWeb.Extractor
import GnunetWeb.Offers
import GnunetWeb.Heap
import GnunetWeb.Library.Double
import GnunetWeb.Library.EventSystem
import GnunetWeb.Library.Parties
import GnunetWeb.Worker.State
import GnunetWeb.Worker.Scheduler
import GnunetWeb.Worker.Network
import GnunetWeb.Worker.Events
import GnunetWeb.Worker.Moves
import GnunetWeb.Worker.Tables
import GnunetWeb.Worker.TaskLife
import GnunetWeb.Worker.Tasks
import GnunetWeb.Worker.Cancel
import GnunetWeb.Worker.CancelTasks
import GnunetWeb.Worker.ReadTasks
import GnunetWeb.Library.MessageStream
import GnunetWeb.Worker.Net
import GnunetWeb.Worker.Traffic
import GnunetWeb.Worker.Streams
import GnunetWeb.Worker.Listening
import GnunetWeb.Worker.Startup
import GnunetWeb.Worker.Urandom
import GnunetWeb.Worker.Failures
import GnunetWeb.Worker.Delays
import GnunetWeb.Library.IndexedDB.Key
import GnunetWeb.Library.IndexedDB.Store
import GnunetWeb.Library.IndexedDB.Transaction
import GnunetWeb.Library.IndexedDB.Failures
import GnunetWeb.Library.Rotation
import GnunetWeb.Library.Countdown
import GnunetWeb.Datastore.Plugin
import GnunetWeb.Datastore.Contents
import GnunetWeb.Datastore.Answers
import GnunetWeb.Datastore.Runs
import GnunetWeb.Datastore.Expiration
import GnunetWeb.Datastore.Selection
import GnunetWeb.Datastore.Keys
import GnunetWeb.Datastore.Merging
import GnunetWeb.Datastore.Replication
import GnunetWeb.Datastore.Levels
import GnunetWeb.Library.IndexedDB.Object
import GnunetWeb.Peerstore.Plugin
import GnunetWeb.Peerstore.Changes
import GnunetWeb.Peerstore.Iterate
import GnunetWeb.HttpClient.Session
import GnunetWeb.HttpClient.Receive
import GnunetWeb.HttpClient.Plugin
import GnunetWeb.HttpClient.Sessions
import GnunetWeb.HttpClient.Requests
import GnunetWeb.HttpClient.Table
import GnunetWeb.HttpClient.Continuations
import GnunetWeb.HttpClient.Monitor
import GnunetWeb.PeerMonitor
import GnunetWeb.Services
import GnunetWeb.Services.Connections
import GnunetWeb.Services.Keys
import GnunetWeb.Webrtc
import GnunetWeb.Webrtc.Exchange
import GnunetWeb.Webrtc.Stages
import GnunetWeb.Webrtc.Matching
import GnunetWeb.Webrtc.Progress
import GnunetWeb.WebrtcAddress
import GnunetWeb.Configuration.Table
import GnunetWeb.Configuration.Settings
import GnunetWeb.FileSharing.Readers
import GnunetWeb.FileSharing.Offsets
import GnunetWeb.FileSharing.TreeEncoder
import GnunetWeb.Library.Patches
import GnunetWeb.FileStorage
import GnunetWeb.Library.Channel
import GnunetWeb.FileSharing.Search
import GnunetWeb.FileSharing.Download
import GnunetWeb.FileSharing.Delivery
import GnunetWeb.FileSharing.Publish
import GnunetWeb.Client
