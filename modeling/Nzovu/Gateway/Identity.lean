import Nzovu.Foundation.Hex
import Nzovu.Foundation.HostPort

/-!
# Client Identities

Who is charged for a call (`pkg/gateway/interceptors.go`, `pkg/gateway/gateway.go`). A call that was
authenticated is charged to its credential. The HTTP gateway signs the host of each client into the
metadata of the calls it makes for it; a call with such a signature is charged to this host, and any
other call to the host it comes from.

- Section 1: signed identities.
- Section 2: authentication.
- Section 3: whom a call is charged to.
- Section 4: what a signature shows.
- Section 5: HTTP clients.
-/

namespace Nzovu.Gateway

open Nzovu.Foundation

/-! ## Section 1: Signed identities -/

/-- The HMAC under `gatewayClientIDSigningKey`, and SHA-256. -/
structure Crypto where
  mac : String → List UInt8
  sha256 : String → List UInt8

/-- The metadata of a call. The keys are in small letters. -/
abbrev Metadata := List (String × String)

/-- `md.Get`. -/
def Metadata.get (md : Metadata) (key : String) : List String :=
  (md.filter fun entry => entry.1 = key).map Prod.snd

/-- The host of a network address, or the address itself. -/
def hostOf (address : String) : String := String.ofList (HostPort.hostOf address.toList)

def gatewayClientIDMetadataKey : String := "nzovu-gateway-client-id"

section Signing

variable (crypto : Crypto)

/-- `signedGatewayClientID`. -/
def signedGatewayClientID (host : String) : String :=
  let payload := "gateway:" ++ host
  payload ++ ":" ++ String.ofList (Hex.encode (crypto.mac payload))

/-- `verifiedGatewayClientID`. -/
def verifiedGatewayClientID (value : String) : Option String :=
  match HostPort.cutLast ':' value.toList with
  | none => none
  | some (before, signature) =>
    let payload := String.ofList before
    -- no room for a host
    if payload.utf8ByteSize ≤ "gateway:".utf8ByteSize then none
    else
      match Hex.decode signature with
      | none => none
      | some providedSignature =>
        if providedSignature = crypto.mac payload then some payload else none

/-- `gatewayRequestMetadata`, for the address of the HTTP client. -/
def gatewayRequestMetadata (remoteAddr : String) : Metadata :=
  let host := hostOf remoteAddr
  if host = "" then [] else [(gatewayClientIDMetadataKey, signedGatewayClientID crypto host)]

end Signing

/-! ## Section 2: Authentication -/

/-- What the interceptors know of a call: its metadata, the principal that authentication found, and
the address it comes from. -/
structure Context where
  metadata : Option Metadata
  principal : Option String
  peer : Option String

/-- The codes with which the two interceptors turn a call away. -/
inductive Code where
  | unauthenticated
  | resourceExhausted
deriving DecidableEq

structure Status where
  code : Code
  message : String
deriving DecidableEq

/-- The token of a bearer authorization. -/
def bearerToken (authorization : String) : Option String :=
  match HostPort.cutFirst ' ' authorization.toList with
  | none => none
  | some (scheme, token) =>
    -- the scheme in letters of either case
    if scheme.map Char.toLower = "bearer".toList then some (String.ofList token) else none

/-- The credentials that `AuthInterceptor` tries, in this order. -/
def credentials (md : Metadata) : List String :=
  md.get "api-key" ++ (md.get "authorization").filterMap bearerToken

section Charged

variable (crypto : Crypto)

/-- `credentialPrincipal`. -/
def credentialPrincipal (credential : String) : String :=
  "api-key:" ++ String.ofList (Hex.encode (crypto.sha256 credential))

/-- `AuthInterceptor`: the context that the next interceptor is given. -/
def authenticate (enabled : Bool) (validAPIKeys : List String) (ctx : Context) :
    Except Status Context :=
  if enabled = false then .ok ctx
  else
    match ctx.metadata with
    | none => .error ⟨.unauthenticated, "missing credentials"⟩
    | some md =>
      match (credentials md).find? fun credential =>
          validAPIKeys.any fun validAPIKey => validAPIKey ≠ "" && credential = validAPIKey with
      | some credential =>
        .ok { ctx with principal := some (credentialPrincipal crypto credential) }
      | none => .error ⟨.unauthenticated, "invalid credentials"⟩

/-! ## Section 3: Whom a call is charged to -/

/-- The client that the metadata name, if they carry one signature and no more. -/
def signedClientID (md : Metadata) : Option String :=
  match md.get gatewayClientIDMetadataKey with
  | [clientID] => if clientID = "" then none else verifiedGatewayClientID crypto clientID
  | _ => none

/-- The client that the address of the peer names. -/
def peerClientID : Option String → String
  | some address => "peer:" ++ hostOf address
  | none => "peer:unknown"

/-- `rateLimitClientID`. -/
def rateLimitClientID (ctx : Context) : String :=
  match ctx.principal.filter fun principal => principal ≠ "" with
  | some principal => principal
  | none =>
    match ctx.metadata.bind (signedClientID crypto) with
    | some clientID => clientID
    | none => peerClientID ctx.peer

end Charged

/-! ## Section 4: What a signature shows -/

section Signatures

variable {crypto : Crypto} {host : String}

/-- **Round trip**: the signature of a host is verified. -/
theorem verifiedGatewayClientID_signed (hhost : host ≠ "") :
    verifiedGatewayClientID crypto (signedGatewayClientID crypto host) =
      some ("gateway:" ++ host) := by
  -- the last colon is the one before the signature
  have hcut : HostPort.cutLast ':' (signedGatewayClientID crypto host).toList =
      some (("gateway:" ++ host).toList, Hex.encode (crypto.mac ("gateway:" ++ host))) := by
    have htext : (signedGatewayClientID crypto host).toList =
        ("gateway:" ++ host).toList ++ ':' :: Hex.encode (crypto.mac ("gateway:" ++ host)) := by
      simp [signedGatewayClientID, String.toList_append]
    rw [htext]
    exact HostPort.cutLast_append (Hex.colon_notMem_encode _)
  have hroom : ¬ ("gateway:" ++ host).utf8ByteSize ≤ "gateway:".utf8ByteSize := by
    have hsize : host.utf8ByteSize ≠ 0 := fun hzero =>
      hhost (String.utf8ByteSize_eq_zero_iff.mp hzero)
    rw [String.utf8ByteSize_append]
    omega
  simp only [verifiedGatewayClientID, hcut, String.ofList_toList, if_neg hroom, Hex.decode_encode,
    if_true]

/-- The gateway signs the same name for every port of a host. -/
theorem gatewayRequestMetadata_address {host port : List Char} (hhost : HostPort.Plain host)
    (hport : HostPort.Plain port) (hcolon : ':' ∉ port) (hne : host ≠ []) :
    gatewayRequestMetadata crypto (String.ofList (HostPort.joinHostPort host port)) =
      [(gatewayClientIDMetadataKey, signedGatewayClientID crypto (String.ofList host))] := by
  have hname : hostOf (String.ofList (HostPort.joinHostPort host port)) = String.ofList host := by
    rw [hostOf, String.toList_ofList, HostPort.hostOf_joinHostPort hhost hport hcolon hne]
  have hnamed : String.ofList host ≠ "" := fun hempty => hne (by
    simpa using congrArg String.toList hempty)
  simp only [gatewayRequestMetadata, hname, if_neg hnamed]

/-- The names of gateway clients are different for different hosts. -/
theorem gatewayID_injective {host' : String} (h : "gateway:" ++ host = "gateway:" ++ host') :
    host = host' := by
  have hchars := congrArg String.toList h
  rw [String.toList_append, String.toList_append] at hchars
  exact String.toList_inj.mp (List.append_cancel_left hchars)

/-- A peer never has the name of a gateway client. -/
theorem gatewayID_ne_peerID (host : String) (peer : Option String) :
    "gateway:" ++ host ≠ peerClientID peer := by
  intro h
  have hchars := congrArg String.toList h
  cases peer with
  | none => simp [peerClientID, String.toList_append] at hchars
  | some address => simp [peerClientID, String.toList_append] at hchars

/-- A call that passes authentication is charged to one of the valid credentials it carries. -/
theorem rateLimitClientID_of_authenticated {validAPIKeys : List String} {ctx ctx' : Context}
    (h : authenticate crypto true validAPIKeys ctx = .ok ctx') :
    ∃ md credential, ctx.metadata = some md ∧ credential ∈ credentials md ∧
      credential ∈ validAPIKeys ∧
      rateLimitClientID crypto ctx' = credentialPrincipal crypto credential := by
  simp only [authenticate, if_neg (Bool.noConfusion : ¬ true = false)] at h
  cases hmd : ctx.metadata with
  | none => simp [hmd] at h
  | some md =>
    simp only [hmd] at h
    split at h
    · rename_i credential hfind
      cases h
      have hvalid := List.find?_some hfind
      rw [List.any_eq_true] at hvalid
      obtain ⟨validAPIKey, hmem, hsame⟩ := hvalid
      obtain ⟨-, rfl⟩ : validAPIKey ≠ "" ∧ credential = validAPIKey := by simpa using hsame
      refine ⟨md, credential, rfl, List.mem_of_find?_eq_some hfind, hmem, ?_⟩
      -- a principal is not the empty text
      have hne : credentialPrincipal crypto credential ≠ "" := by
        intro hempty
        have hchars := congrArg String.toList hempty
        simp [credentialPrincipal, String.toList_append] at hchars
      simp [rateLimitClientID, Option.filter, hne]
    · cases h

end Signatures

/-! ## Section 5: HTTP clients -/

/-- A call as it arrives at the server: by the gateway, for an HTTP client whose headers were
forwarded as metadata, or from a client itself. -/
inductive Arrival where
  | http (remoteAddr : String) (forwarded : Metadata) (via : String)
  | grpc (address : String) (metadata : Metadata)

namespace Arrival

variable (crypto : Crypto)

/-- The context of a call. The gateway adds its own metadata to those of the headers. -/
def context : Arrival → Context
  | http remoteAddr forwarded via =>
    ⟨some (forwarded ++ gatewayRequestMetadata crypto remoteAddr), none, some via⟩
  | grpc address metadata => ⟨some metadata, none, some address⟩

variable {crypto}

/-- An HTTP client is charged by its host; if it sends an identity of its own, by that of the
gateway, whatever it sends. -/
theorem rateLimitClientID_http {remoteAddr via : String} {forwarded : Metadata}
    (hhost : hostOf remoteAddr ≠ "") :
    rateLimitClientID crypto (context crypto (.http remoteAddr forwarded via)) =
      if forwarded.get gatewayClientIDMetadataKey = [] then "gateway:" ++ hostOf remoteAddr
      else peerClientID (some via) := by
  have hvalues : Metadata.get (forwarded ++ gatewayRequestMetadata crypto remoteAddr)
      gatewayClientIDMetadataKey = forwarded.get gatewayClientIDMetadataKey ++
        [signedGatewayClientID crypto (hostOf remoteAddr)] := by
    simp [Metadata.get, gatewayRequestMetadata, hhost]
  have hsigned : signedGatewayClientID crypto (hostOf remoteAddr) ≠ "" := by
    intro hempty
    have hchars := congrArg String.toList hempty
    simp [signedGatewayClientID, String.toList_append] at hchars
  simp only [rateLimitClientID, context, Option.filter_none, Option.bind_some, signedClientID,
    hvalues]
  cases hforwarded : forwarded.get gatewayClientIDMetadataKey with
  | nil =>
    simp only [List.nil_append, if_neg hsigned, verifiedGatewayClientID_signed hhost, if_true]
  | cons value rest =>
    -- two values are none
    cases rest with
    | nil => simp
    | cons value' rest => simp

/-- A client of the server itself has the name of a gateway client only by a signature. -/
theorem rateLimitClientID_grpc {address : String} {metadata : Metadata} {host : String}
    (h : rateLimitClientID crypto (context crypto (.grpc address metadata)) =
      "gateway:" ++ host) :
    ∃ value ∈ metadata.get gatewayClientIDMetadataKey,
      verifiedGatewayClientID crypto value = some ("gateway:" ++ host) := by
  simp only [rateLimitClientID, context, Option.filter_none, Option.bind_some] at h
  cases hsigned : signedClientID crypto metadata with
  | none =>
    rw [hsigned] at h
    exact absurd h.symm (gatewayID_ne_peerID host _)
  | some clientID =>
    rw [hsigned] at h
    obtain rfl : clientID = "gateway:" ++ host := h
    simp only [signedClientID] at hsigned
    split at hsigned
    · rename_i value hvalues
      split at hsigned
      · cases hsigned
      · exact ⟨value, by rw [hvalues]; exact List.mem_singleton_self value, hsigned⟩
    · cases hsigned

end Arrival

end Nzovu.Gateway
