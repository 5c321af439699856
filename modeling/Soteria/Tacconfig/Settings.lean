import Soteria.Foundation.Regex
import Soteria.Tacconfig.Render

/-
  The server settings and the four files they are kept in:
  DNS, the LDAP backend, the toggles of the main config and
  the overrides of the container's environment.

  Each file is written whole or line by line from the
  settings, and read back with regular expressions.

  Key definitions include:
    * `ServerSettings`
    * `parseDNS`, `renderDNS`
    * `parseMavis`, `renderMavis`
    * `setMavisInclude`, `setListenPort`, `setTLS`
    * `parseOverrides`, `renderOverrides`
-/

------------------------------------------------------------
-- Settings
------------------------------------------------------------

namespace Soteria

namespace Tacconfig

/- `model.ServerSettings`; the shared key is not stored. -/
structure ServerSettings where
  sharedKeySet : Bool
  ldapEnabled : Bool
  ldapServerType : Text
  ldapHosts : Text
  ldapUser : Text
  ldapPassword : Text
  ldapPasswordSet : Bool
  ldapBase : Text
  ldapFilter : Text
  ldapBaseGroup : Text
  ldapFilterGroup : Text
  ldapTacMember : Text
  ldapConnectTimeout : Text
  ldapTLSMode : Text
  ldapTLSVerify : Bool
  dnsServer : Text
  dnsReverseLookup : Bool
  dnsTimeout : Text
  listenPort : Text
  timezone : Text
  tlsEnabled : Bool
  tlsPort : Text
  logrotate : Bool
  monthlyArchive : Bool

/- The zero value. -/
def ServerSettings.zero : ServerSettings where
  sharedKeySet := false
  ldapEnabled := false
  ldapServerType := []
  ldapHosts := []
  ldapUser := []
  ldapPassword := []
  ldapPasswordSet := false
  ldapBase := []
  ldapFilter := []
  ldapBaseGroup := []
  ldapFilterGroup := []
  ldapTacMember := []
  ldapConnectTimeout := []
  ldapTLSMode := []
  ldapTLSVerify := false
  dnsServer := []
  dnsReverseLookup := false
  dnsTimeout := []
  listenPort := []
  timezone := []
  tlsEnabled := false
  tlsPort := []
  logrotate := false
  monthlyArchive := false

/- The first group of a match, if there is one. -/
def firstGroup (r : Regex.Pattern) (src : Text) :
    Option Text :=
  (r.find src).map fun m => m.group 1

end Tacconfig

end Soteria

------------------------------------------------------------
-- 02-dns.cfg
------------------------------------------------------------

namespace Soteria

namespace Tacconfig

open Regex (Pattern)

/- White space, any amount of it. -/
def blanks : Pattern :=
  .many true Regex.space

/- `=` between any amounts of white space. -/
def equals : Pattern :=
  .all [blanks, .lit "=", blanks]

/- The start of a line `dns <name> =`. -/
def dnsSetting (name : Text) : Pattern :=
  .all [.lineStart, blanks, .lit "dns", .plus Regex.space,
    .lit name, equals]

def reDNSServers : Pattern :=
  .all [dnsSetting "servers", .opt (.lit "\""),
    .group 1 (.many true fun c => c != '"' && c != '\n'),
    .opt (.lit "\"")]

def reDNSReverse : Pattern :=
  .seq (dnsSetting "reverse-lookup")
    (.group 1 (.plus Regex.word))

def reDNSTimeout : Pattern :=
  .seq (dnsSetting "timeout") (.group 1 (.plus Regex.digit))

/- `ParseDNS`. -/
def parseDNS (src : Text) (s : ServerSettings) :
    ServerSettings :=
  { s with
    dnsServer :=
      match firstGroup reDNSServers src with
      | some server => server.trimSpace
      | none => s.dnsServer
    dnsReverseLookup :=
      match firstGroup reDNSReverse src with
      | some reverse => reverse == "yes"
      | none => true
    dnsTimeout :=
      match firstGroup reDNSTimeout src with
      | some timeout => timeout
      | none => "5" }

/- The line that names the servers, if there are any. -/
def dnsServersLine (server : Text) : Text :=
  if server = [] then []
  else "dns servers = \"" ++ server ++ "\"\n"

/- `RenderDNS`. -/
def renderDNS (s : ServerSettings) : Text :=
  banner "02-dns.cfg" "DNS resolution settings" ++
    dnsServersLine s.dnsServer.trimSpace ++
    "dns reverse-lookup = " ++
    (if s.dnsReverseLookup then ("yes" : Text) else "no") ++
    "\ndns timeout        = " ++
    (if s.dnsTimeout = [] then ("5" : Text)
    else s.dnsTimeout) ++
    "\ndns cache period   = 86400\n"

end Tacconfig

end Soteria

------------------------------------------------------------
-- 03-mavis.cfg
------------------------------------------------------------

namespace Soteria

namespace Tacconfig

open Regex (Pattern)

/- The certificate files that exist. -/
structure LdapCerts where
  ca : Bool
  clientCert : Bool
  clientKey : Bool

def mavisSetenv (key : Text) : Pattern :=
  .all [.lineStart, blanks, .lit "setenv",
    .plus Regex.space, .lit key, equals, .lit "\"",
    .group 1 (.many true (· != '"')), .lit "\""]

/- The value of a key, empty if it is not set. -/
def mavisValue (src key : Text) : Text :=
  (firstGroup (mavisSetenv key) src).getD []

/- A host without its scheme. -/
def stripScheme (host : Text) : Text :=
  if host.toLower.hasPrefix "ldaps://" then host.drop 8
  else if host.toLower.hasPrefix "ldap://" then host.drop 7
  else host

/- `stripLdapScheme`. -/
def stripLdapScheme (hosts : Text) : Text :=
  Text.join (hosts.fields.map stripScheme) " "

/- `mavisHosts`. -/
def mavisHosts (hosts mode : Text) : Text :=
  if mode != "ldaps" then stripLdapScheme hosts
  else
    Text.join
      ((stripLdapScheme hosts).fields.map
        fun host => "ldaps://" ++ host) " "

/- `ParseMavis`. -/
def parseMavis (src : Text) (s : ServerSettings) :
    ServerSettings :=
  let get := mavisValue src
  { s with
    ldapServerType := get "LDAP_SERVER_TYPE"
    ldapHosts := stripLdapScheme (get "LDAP_HOSTS")
    ldapUser := get "LDAP_USER"
    ldapPasswordSet := get "LDAP_PASSWD" != []
    ldapBase := get "LDAP_BASE"
    ldapFilter := get "LDAP_FILTER"
    ldapBaseGroup := get "LDAP_BASE_GROUP"
    ldapFilterGroup := get "LDAP_FILTER_GROUP"
    ldapTacMember := get "LDAP_TACMEMBER"
    ldapConnectTimeout :=
      if get "LDAP_CONNECT_TIMEOUT" = [] then "5"
      else get "LDAP_CONNECT_TIMEOUT"
    ldapTLSMode :=
      if get "USE_STARTTLS" != [] then "starttls"
      else if (get "LDAP_HOSTS").toLower.contains "ldaps://"
      then "ldaps"
      else "none"
    ldapTLSVerify :=
      (get "TLS_OPTIONS").contains "verify => 'require'" }

/- `mavisTLSOptions`. -/
def mavisTLSOptions (certs : LdapCerts) (verify : Bool) :
    Text :=
  let options : List Text :=
    [if verify then "verify => 'require'"
      else "verify => 'none'"]
  let ca : List Text :=
    if certs.ca then
      ["cafile => '/etc/tac_plus-ng/tls/ldap/ca.crt'"]
    else []
  let client : List Text :=
    if certs.clientCert && certs.clientKey then
      ["clientcert => '/etc/tac_plus-ng/tls/ldap/client.crt'",
        "clientkey => '/etc/tac_plus-ng/tls/ldap/client.key'"]
    else []
  Text.join (options ++ ca ++ client) ", "

/- `MavisPassword`. -/
def mavisPassword (src : Text) : Text :=
  mavisValue src "LDAP_PASSWD"

/- A `setenv` line; a quote cannot be part of the value. -/
def setenvLine (key value : Text) : Text :=
  "    setenv " ++ key ++ "= \"" ++ value.replaceChar '"' [] ++
    "\"\n"

/- A `setenv` line that is left out if it has no value. -/
def setenvOptional (key value : Text) : Text :=
  if value = [] then [] else setenvLine key value

/- `RenderMavis`, given the certificate files that exist. -/
def renderMavis (certs : LdapCerts) (s : ServerSettings) :
    Text :=
  let mode := s.ldapTLSMode.trimSpace.toLower
  banner "03-mavis.cfg"
      "MAVIS authentication backend (LDAP)" ++
    "# Authorization cache for performance improvement\n" ++
    "mavis module = tacinfo_cache \x7b\n" ++
    "    directory = /tmp/tacinfo\n" ++
    "\x7d\n\nmavis module = external \x7b\n" ++
    setenvLine "LDAP_SERVER_TYPE " s.ldapServerType ++
    setenvLine "LDAP_HOSTS       "
      (mavisHosts s.ldapHosts mode) ++
    setenvLine "LDAP_USER        " s.ldapUser ++
    setenvLine "LDAP_PASSWD      " s.ldapPassword ++
    setenvLine "LDAP_BASE        " s.ldapBase ++
    setenvLine "LDAP_SCOPE       " "sub" ++
    setenvOptional "LDAP_FILTER      " s.ldapFilter ++
    setenvLine "LDAP_BASE_GROUP   " s.ldapBaseGroup ++
    setenvLine "LDAP_SCOPE_GROUP  " "sub" ++
    setenvOptional "LDAP_FILTER_GROUP " s.ldapFilterGroup ++
    setenvLine "LDAP_CONNECT_TIMEOUT "
      (if s.ldapConnectTimeout = [] then "5"
      else s.ldapConnectTimeout) ++
    setenvOptional "LDAP_TACMEMBER    " s.ldapTacMember ++
    (if mode = "starttls" then
      setenvLine "USE_STARTTLS     " "1"
    else []) ++
    (if mode = "ldaps" ∨ mode = "starttls" then
      setenvLine "TLS_OPTIONS      "
        (mavisTLSOptions certs s.ldapTLSVerify)
    else []) ++
    "\n    exec = /usr/local/lib/mavis/mavis_tacplus-ng_ldap.pl\n" ++
    "\x7d\n\nlogin backend = mavis\nuser backend  = mavis\n" ++
    "pap backend   = mavis\n\ncache timeout       = 86400\n" ++
    "mavis cache timeout = 86400\n"

end Tacconfig

end Soteria

------------------------------------------------------------
-- tac_plus-ng.cfg
------------------------------------------------------------

namespace Soteria

namespace Tacconfig

open Regex (Pattern)

/- `#` and the white space after it. -/
def hashSign : Pattern :=
  .seq (.lit "#") blanks

/- The line that includes a file, commented out or not. -/
def reInclude (file : Text) : Pattern :=
  .all [.lineStart, .group 1 blanks, .opt (.group 2 hashSign),
    .group 3 (.all [.lit "include", equals,
      .lit "/etc/tac_plus-ng/conf.d/", .lit file]),
    blanks, .lineEnd]

def reMavisInclude : Pattern :=
  reInclude "03-mavis.cfg"

def reTLSInclude : Pattern :=
  reInclude "09-tls.cfg"

/- The include line is there and not commented out. -/
def includeEnabled (r : Pattern) (mainCfg : Text) : Bool :=
  match r.find mainCfg with
  | some m => m.group 2 == []
  | none => false

/-
  Comment every include line out, or none of them. A line
  that is replaced is a match, so the last case is idle.
-/
def setInclude (r : Pattern) (mainCfg : Text)
    (enabled : Bool) : Text :=
  r.replaceAll
    (fun line =>
      match r.find line with
      | some m =>
          if enabled then m.group 1 ++ m.group 3
          else m.group 1 ++ "# " ++ m.group 3
      | none => [])
    mainCfg

/- `MavisIncludeEnabled`. -/
def mavisIncludeEnabled (mainCfg : Text) : Bool :=
  includeEnabled reMavisInclude mainCfg

/- `SetMavisInclude`. -/
def setMavisInclude (mainCfg : Text) (enabled : Bool) :
    Text :=
  setInclude reMavisInclude mainCfg enabled

def rePlainPort : Pattern :=
  .all [.lineStart, .group 1 blanks, .lit "port = ",
    .plus Regex.digit, .group 2 blanks, .lineEnd]

/- `ParseListenPort`. -/
def parseListenPort (mainCfg : Text) : Text :=
  match rePlainPort.find mainCfg with
  | some m =>
      match (Pattern.plus Regex.digit).find m.text with
      | some digits => digits.text
      | none => []
  | none => "49"

/- `SetListenPort`: rewrite the first listener's port. -/
def setListenPort (mainCfg port : Text) : Text :=
  rePlainPort.replaceFirst
    (fun line =>
      match rePlainPort.find line with
      | some m => m.group 1 ++ "port = " ++ port ++ m.group 2
      | none => [])
    mainCfg

/- `TLSEnabled`. -/
def tlsEnabled (mainCfg : Text) : Bool :=
  includeEnabled reTLSInclude mainCfg

/- A line of the TLS listener, commented out or not. -/
def tlsLine (line : Text) : Pattern :=
  .all [blanks, .lit "\n", blanks, .opt hashSign, .lit line]

def reTLSListen : Pattern :=
  .all [.lineStart, blanks, .opt hashSign,
    .lit "listen = \x7b", tlsLine "address = 0.0.0.0",
    tlsLine "port = 300", tlsLine "tls = yes",
    tlsLine "\x7d"]

/- The TLS listener as it is written. -/
def tlsListen (enabled : Bool) : Text :=
  if enabled then
    "    listen = \x7b\n        address = 0.0.0.0\n" ++
      "        port = 300\n        tls = yes\n    \x7d"
  else
    "    # listen = \x7b\n    #     address = 0.0.0.0\n" ++
      "    #     port = 300\n    #     tls = yes\n    # \x7d"

/- `SetTLS`. -/
def setTLS (mainCfg : Text) (enabled : Bool) : Text :=
  reTLSListen.replaceAll (fun _ => tlsListen enabled)
    (setInclude reTLSInclude mainCfg enabled)

end Tacconfig

end Soteria

------------------------------------------------------------
-- agent-overrides.env
------------------------------------------------------------

namespace Soteria

namespace Tacconfig

open Regex (Pattern)

/- The value of a variable, empty if it is not set. -/
def overrideVal (src key : Text) : Text :=
  match firstGroup
      (.all [.lineStart, .lit key, .lit "=",
        .group 1 (.many true Regex.dot), .lineEnd]) src with
  | some value => value.trimSpace.trimChar '"'
  | none => []

/- `ParseOverrides`: a flag is on unless it says `false`. -/
def parseOverrides (src : Text) (s : ServerSettings) :
    ServerSettings :=
  { s with
    timezone :=
      if overrideVal src "TZ" != [] then overrideVal src "TZ"
      else s.timezone
    logrotate :=
      !(overrideVal src "ENABLE_LOGROTATE").equalFold "false"
    monthlyArchive :=
      !(overrideVal src "ENABLE_MONTHLY_ARCHIVE").equalFold
        "false" }

/- `shellQuote`. -/
def shellQuote (v : Text) : Text :=
  "'" ++ v.replaceChar '\'' "'\\''" ++ "'"

def overrideLine (key value : Text) : Text :=
  key ++ "=" ++ value ++ "\n"

def boolText (v : Bool) : Text :=
  if v then "true" else "false"

/- `RenderOverrides`. -/
def renderOverrides (s : ServerSettings) : Text :=
  "# Managed by soteria-agent - applied on container restart\n"
    ++ overrideLine "TZ" s.timezone ++
    overrideLine "ENABLE_LOGROTATE" (boolText s.logrotate) ++
    overrideLine "ENABLE_MONTHLY_ARCHIVE"
      (boolText s.monthlyArchive) ++
    overrideLine "ENABLE_LDAP" (boolText s.ldapEnabled) ++
    if s.ldapEnabled then
      overrideLine "LDAP_SERVER_TYPE"
          (shellQuote s.ldapServerType) ++
        overrideLine "LDAP_HOSTS" (shellQuote s.ldapHosts) ++
        overrideLine "LDAP_USER" (shellQuote s.ldapUser) ++
        overrideLine "LDAP_PASSWD"
          (shellQuote s.ldapPassword) ++
        overrideLine "LDAP_BASE" (shellQuote s.ldapBase) ++
        overrideLine "LDAP_BASE_GROUP"
          (shellQuote s.ldapBaseGroup) ++
        overrideLine "LDAP_FILTER"
          (shellQuote s.ldapFilter) ++
        overrideLine "LDAP_FILTER_GROUP"
          (shellQuote s.ldapFilterGroup) ++
        overrideLine "LDAP_TACMEMBER"
          (shellQuote s.ldapTacMember) ++
        overrideLine "LDAP_CONNECT_TIMEOUT"
          (shellQuote s.ldapConnectTimeout)
    else []

end Tacconfig

end Soteria
