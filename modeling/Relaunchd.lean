import Relaunchd.Channel
import Relaunchd.Properties.Contained
import Relaunchd.Properties.Starting
import Relaunchd.Properties.Timers
import Relaunchd.Properties.Unloading
import Relaunchd.Properties.Launching
import Relaunchd.Properties.Restarting
import Relaunchd.Properties.Signalling
import Relaunchd.Properties.Exits
import Relaunchd.Properties.Overrides
import Relaunchd.Properties.Loading
import Relaunchd.Properties.LoadOrder
import Relaunchd.Properties.UnloadOrder
import Relaunchd.Properties.Credentials
import Relaunchd.Properties.Booting
import Relaunchd.Properties.SignalNames
import Relaunchd.Properties.Decoding
import Relaunchd.Properties.Dispatching
import Relaunchd.Properties.Waiting
import Relaunchd.Properties.Periodic
import Relaunchd.Properties.Environment
import Relaunchd.Properties.Listing
import Relaunchd.Properties.Malformed
import Relaunchd.Properties.Isolation
import Relaunchd.Properties.Replies
import Relaunchd.Properties.Submitting
import Relaunchd.Properties.Durability
import Relaunchd.Properties.Serving
import Relaunchd.Properties.Inheriting
import Relaunchd.Properties.Reporting
import Relaunchd.Properties.Returning
import Relaunchd.Properties.Ending
import Relaunchd.Properties.Rendezvous
import Relaunchd.Properties.Plists
import Relaunchd.Properties.Clearing
