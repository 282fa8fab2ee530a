import Mathlib.Data.List.DropRight
import Nzovu.Foundation.Decimal
import Nzovu.Repository.Messages

/-!
# Clusters of the Web UI

Translation of the cluster record of `cmd/nzovu/web-ui/cluster/store.go` with its normalization and
its validation. `net.SplitHostPort` and `strconv.ParseUint` work on characters instead of bytes.

- Section 1: the record.
- Section 2: broker addresses.
- Section 3: normalization and validation.
-/

namespace Nzovu.WebUI

open Nzovu.Foundation
open Nzovu.Repository (isBlank)

/-! ## Section 1: The record -/

/-- `Cluster`. -/
structure Cluster where
  slug : String
  name : String
  description : String
  brokerAddress : String
  transportMode : String
  skipTLSVerify : Bool := false
  tlsServerName : String := ""
  caCertFile : String := ""
  clientCertFile : String := ""
  clientKeyFile : String := ""
  apiKeyEnv : String := ""
  skipSSLCheck : Bool := false
  isActive : Bool := false
deriving DecidableEq, Repr

/-- `TransportPlaintext`. -/
def transportPlaintext : String := "plaintext"

/-- `TransportTLS`. -/
def transportTLS : String := "tls"

/-- `unicode.ToLower`, as far as the result can be an ASCII letter. -/
def lowerRune (c : Char) : Char :=
  -- the dotted capital I and the Kelvin sign are the two outside ASCII
  if c = 'İ' then 'i' else if c = Char.ofNat 0x212A then 'k' else c.toLower

/-- `[a-z0-9]`. -/
def slugCharacter (c : Char) : Bool := c.isLower || c.isDigit

/-- `slugRe.ReplaceAllString(s, "-")`: every run of other characters becomes one hyphen. -/
def replaceRuns (inRun : Bool) : List Char → List Char
  | [] => []
  | c :: rest =>
    if slugCharacter c then c :: replaceRuns false rest
    -- the hyphen of this run is written already
    else if inRun then replaceRuns true rest
    else '-' :: replaceRuns true rest

/-- `SlugFor`. -/
def slugFor (brokerAddr : String) : String :=
  let replaced := replaceRuns false (brokerAddr.toList.map lowerRune)
  String.ofList ((replaced.dropWhile (· = '-')).rdropWhile (· = '-'))

example : slugFor "localhost:9000" = "localhost-9000" := by decide

/-! ## Section 2: Broker addresses -/

/-- The text of a `net.AddrError`. -/
def addrError (address err : String) : String :=
  if address = "" then err else "address " ++ address ++ ": " ++ err

/-- `net.SplitHostPort`: the text before the last colon, without brackets, and the text after it. -/
def splitHostPort (hostport : String) : Except String (String × String) :=
  let text := hostport.toList
  let missingPort := "missing port in address"
  let tooManyColons := "too many colons in address"
  -- `j` and `k` are the places from which no further bracket may occur
  let finish := fun (host : List Char) (i j k : Nat) =>
    if '[' ∈ text.drop j then .error (addrError hostport "unexpected '[' in address")
    else if ']' ∈ text.drop k then .error (addrError hostport "unexpected ']' in address")
    else .ok (String.ofList host, String.ofList (text.drop (i + 1)))
  -- the last colon
  match (text.reverse.idxOf? ':').map (text.length - 1 - ·) with
  | none => .error (addrError hostport missingPort)
  | some i =>
    if text.head? = some '[' then
      match text.idxOf? ']' with
      | none => .error (addrError hostport "missing ']' in address")
      | some bracket =>
        -- the bracket has to stand right before the last colon
        if bracket + 1 = text.length then .error (addrError hostport missingPort)
        else if bracket + 1 = i then finish ((text.take bracket).drop 1) i 1 (bracket + 1)
        else if text[bracket + 1]? = some ':' then .error (addrError hostport tooManyColons)
        else .error (addrError hostport missingPort)
    else if ':' ∈ text.take i then .error (addrError hostport tooManyColons)
    else finish (text.take i) i 0 0

/-- `strconv.ParseUint(text, 10, 16)`. -/
def parsePort (text : String) : Option Nat :=
  (parseDigits text.toList).filter fun port => port ≤ 65535

/-- `validateBrokerAddress`. -/
def validateBrokerAddress (address : String) : Except String Unit :=
  match splitHostPort address with
  | .error err => .error err
  | .ok (host, portText) =>
    if isBlank host = true then .error "host is required"
    else
      match parsePort portText with
      | none => .error "port must be between 1 and 65535"
      | some 0 => .error "port must be between 1 and 65535"
      | some _ => .ok ()

/-! ## Section 3: Normalization and validation -/

/-- `mapLegacyTransport`. -/
def mapLegacyTransport (skipSSL : Bool) : String :=
  if skipSSL then transportPlaintext else transportTLS

/-- `normalizeCluster`. -/
def normalizeCluster (cluster : Cluster) : Cluster :=
  { cluster with
    transportMode :=
      -- a cluster from before transport modes
      if cluster.transportMode = "" then mapLegacyTransport cluster.skipSSLCheck
      else cluster.transportMode
    skipSSLCheck := false }

/-- `environmentVariableRe.MatchString`: `^[A-Za-z_][A-Za-z0-9_]*$`. -/
def matchesEnvironmentVariable (name : String) : Bool :=
  match name.toList with
  | [] => false
  | first :: rest => (first.isAlpha || first = '_') && rest.all fun c => c.isAlphanum || c = '_'

/-- `validateCluster`. -/
def validateCluster (cluster : Cluster) : Except String Unit :=
  match validateBrokerAddress cluster.brokerAddress with
  | .error err => .error ("invalid broker address: " ++ err)
  | .ok () =>
    if cluster.transportMode ≠ transportPlaintext ∧ cluster.transportMode ≠ transportTLS then
      .error ("transport mode must be " ++ transportPlaintext.quote ++ " or " ++
        transportTLS.quote)
    else if cluster.transportMode = transportPlaintext ∧ (cluster.skipTLSVerify = true ∨
        cluster.tlsServerName ≠ "" ∨ cluster.caCertFile ≠ "" ∨ cluster.clientCertFile ≠ "" ∨
        cluster.clientKeyFile ≠ "") then
      .error "TLS settings require TLS transport"
    -- one without the other
    else if (cluster.clientCertFile = "") ≠ (cluster.clientKeyFile = "") then
      .error "client certificate and key files must be configured together"
    else if cluster.apiKeyEnv ≠ "" ∧ matchesEnvironmentVariable cluster.apiKeyEnv = false then
      .error "API key environment variable name is invalid"
    else .ok ()

end Nzovu.WebUI
