import Boru.Proto.Hyparview.Network
import Boru.Proto.Plumtree.Silence
import Boru.Proto.Plumtree.Rounds
import Boru.Proto.Plumtree.Relays
import Boru.Proto.Topic.Dispatch
import Boru.Proto.Topic.Sync
import Boru.Proto.Util
import Boru.Proto.Gossip.Connections
import Boru.GroupEncryption.Retention
import Boru.GroupEncryption.Causality
import Boru.GroupEncryption.Governance
import Boru.Storage.Failures
import Boru.Storage.Pass
import Boru.Storage.Terminal
import Boru.Authorization.Authority
import Boru.GroupEvents.Replay
import Boru.Mailbox.Inbox
import Boru.Call.Consent
import Boru.ChatCore.Edits
import Boru.ChatCore.Pins
import Boru.ChatCore.Dedup
import Boru.ChatHistory.Delivery
import Boru.Call.Exclusion
import Boru.Call.Glare
import Boru.Call.Video.RoundTrip
import Boru.ScreenShare.Capacity
import Boru.ScreenShare.Consent
import Boru.ScreenShare.Decoding
import Boru.ControlPlane.Reconnect
import Boru.ControlPlane.Replay
import Boru.Transfer.RemoteCatalogue
import Boru.FileAccess.Catalogue
import Boru.FileAccess.Recheck
import Boru.SafeDestination
import Boru.CollectionTransfer
import Boru.Companion.Changes
import Boru.Downloads.Cancellation
import Boru.Downloads.Terminal
import Boru.Downloads.Tick
import Boru.Backfill
import Boru.PairingService
