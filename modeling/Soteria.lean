import Soteria.Foundation.Script
import Soteria.Foundation.Shell
import Soteria.Foundation.Marks
import Soteria.Foundation.Assignments
import Soteria.Foundation.Transition
import Soteria.Api.DevicePuts
import Soteria.Api.Secrets
import Soteria.Api.Overrides
import Soteria.Api.Credentials
import Soteria.Api.SettingsCommit
import Soteria.Api.SettingsRestart
import Soteria.Api.TokenScopes
import Soteria.Api.TokenLifetimes
import Soteria.Api.Jwks
import Soteria.Api.TraceConfig
import Soteria.Api.GroupProfiles
import Soteria.Api.LdapBundle
import Soteria.Api.TestBind
import Soteria.Store.Preview
import Soteria.Store.Minimal
import Soteria.Store.Context
import Soteria.Store.Golden
import Soteria.Frontend.Previews
import Soteria.Frontend.Roles
import Soteria.Frontend.SignIn
import Soteria.Store.Applied
import Soteria.Store.Sessions
import Soteria.Store.Preservation
import Soteria.Store.Restores
import Soteria.Store.Reload
import Soteria.Foundation.Matches
import Soteria.Token.Runs
import Soteria.Tacconfig.Accounts
import Soteria.Tacconfig.Backend
import Soteria.Tacconfig.PlainSettings
import Soteria.Tacconfig.Inventory
import Soteria.Tacconfig.Groups
import Soteria.Tacconfig.Logging
import Soteria.Tacconfig.Totality
import Soteria.Tacconfig.Names
import Soteria.Tacconfig.Render
import Soteria.Tacconfig.Codec
import Soteria.Tacconfig.Scripts
import Soteria.Tacconfig.Settings
import Soteria.Api.References
import Soteria.Foundation.Paths
import Soteria.Foundation.Occurrences
import Soteria.Api.AddressRecords
import Soteria.Api.DnsUpdates
import Soteria.Api.DnsResyncs
import Soteria.Dns.Deleting
import Soteria.Dns.ReverseNames
import Soteria.Logsvc.Resolve
import Soteria.Dns.RoundTrip
import Soteria.Dockerctl.Streams
import Soteria.Misc.RadixRuns
import Soteria.Mavis.Precedence
import Soteria.TacPlus.Authorization
import Soteria.TacPlus.Bodies
import Soteria.TacPlus.Exchanges
import Soteria.TacPlus.Stream
import Soteria.TacPlus.Rulesets
