import Nzovu.Foundation.Charging
import Nzovu.Gateway.Identity
import Nzovu.Gateway.Isolation

/-!
# Admission of Calls

The interceptors of the gRPC server in their order (`startGRPCServer`): a call is authenticated and
then charged to its client, and it reaches its handler if both let it pass. The state is that of the
rate limiter.

- Section 1: the server.
- Section 2: what an HTTP client is granted, whatever headers it sends.
- Section 3: what other clients cannot take from it.
-/

namespace Nzovu.Gateway

open Nzovu.Foundation

/-! ## Section 1: The server -/

/-- The settings of the interceptors, for a server whose rate limit is enabled. -/
structure Server where
  crypto : Crypto
  authEnabled : Bool
  apiKeys : List String
  limits : RateLimits

/-- A call and the instant at which it is looked at. -/
structure Call where
  arrival : Arrival
  now : Int

/-- The instant of a call. -/
def Call.time (call : Call) : ℚ := seconds call.now

namespace Server

variable (server : Server)

/-- Whom the call is charged to, or why it is turned away before. -/
def charge (call : Call) : Except Status Request :=
  (authenticate server.crypto server.authEnabled server.apiKeys
    (call.arrival.context server.crypto)).map
      fun ctx => ⟨rateLimitClientID server.crypto ctx, call.now⟩

/-- The request to the rate limiter, if the call gets there. -/
def request? (call : Call) : Option Request := (server.charge call).toOption

/-- `AuthInterceptor` and `RateLimitingInterceptor`: `ok` when the handler is called. -/
def serve (l : RateLimiter) (call : Call) : Except Status Unit × RateLimiter :=
  match server.charge call with
  | .error status => (.error status, l)
  | .ok request =>
    match server.limits.allow l request.clientID request.now with
    | (true, l') => (.ok (), l')
    | (false, l') => (.error ⟨.resourceExhausted, "rate limit exceeded"⟩, l')

/-- A call as a step of a machine. -/
def step (l : RateLimiter) (call : Call) : Bool × RateLimiter :=
  ((server.serve l call).1.isOk, (server.serve l call).2)

/-- How many calls of a kind reach their handlers between two instants. -/
def servedWithin (start : Int) (calls : List Call) (kind : Call → Bool) (lo hi : ℚ) : Nat :=
  acceptedWithin server.step Call.time kind lo hi (newRateLimiter start) calls

variable {server}

/-- The server is the rate limiter behind the gate of authentication. -/
theorem step_eq : server.step = chargedStep server.limits.step server.request? := by
  funext l call
  simp only [step, serve, chargedStep, request?]
  cases server.charge call with
  | error status => rfl
  | ok request =>
    simp only [Except.toOption, RateLimits.step]
    rcases server.limits.allow l request.clientID request.now with ⟨allowed, l'⟩
    cases allowed <;> rfl

theorem time_of_charge {call : Call} {request : Request}
    (h : server.request? call = some request) : request.time = call.time := by
  unfold request? charge at h
  cases hauth : authenticate server.crypto server.authEnabled server.apiKeys
      (call.arrival.context server.crypto) with
  | error status =>
    rw [hauth] at h
    cases h
  | ok ctx =>
    rw [hauth] at h
    cases h
    rfl

/-! ## Section 2: What an HTTP client is granted -/

/-- A call of an HTTP client at the host. -/
def fromHost (host : String) (call : Call) : Bool :=
  match call.arrival with
  | .http remoteAddr _ _ => hostOf remoteAddr = host
  | .grpc _ _ => false

/-- The clients that an HTTP client can be charged as, when it holds the API keys and the gateway
has the host `via`. -/
def clientsOf (server : Server) (host via : String) (held : List String) : List String :=
  if server.authEnabled then held.map (credentialPrincipal server.crypto)
  else ["gateway:" ++ host, "peer:" ++ via]

/-- What a call of an HTTP client may carry: the credentials it holds, over the host of the
gateway. Its other headers are free. -/
def Carries (server : Server) (via : String) (held : List String) (call : Call) : Prop :=
  match call.arrival with
  | .http remoteAddr forwarded gateway =>
    hostOf gateway = via ∧
      ∀ credential ∈ credentials (forwarded ++ gatewayRequestMetadata server.crypto remoteAddr),
        credential ∈ server.apiKeys → credential ∈ held
  | .grpc _ _ => False

/-- Whatever headers an HTTP client sends, it is charged as one of a few clients. -/
theorem mem_clientsOf {host via : String} {held : List String} (hhost : host ≠ "") {call : Call}
    (hfrom : fromHost host call = true) (hcarries : server.Carries via held call)
    {request : Request} (hcharge : server.charge call = .ok request) :
    request.clientID ∈ server.clientsOf host via held := by
  obtain ⟨arrival, now⟩ := call
  cases arrival with
  | grpc address metadata => cases hfrom
  | http remoteAddr forwarded gateway =>
    obtain ⟨hvia, hheld⟩ := hcarries
    obtain rfl : hostOf remoteAddr = host := by simpa [fromHost] using hfrom
    simp only [charge] at hcharge
    cases hauth : authenticate server.crypto server.authEnabled server.apiKeys
        (Arrival.context server.crypto (.http remoteAddr forwarded gateway)) with
    | error status =>
      rw [hauth] at hcharge
      cases hcharge
    | ok ctx =>
      rw [hauth] at hcharge
      obtain rfl : (⟨rateLimitClientID server.crypto ctx, now⟩ : Request) = request := by
        simpa [Except.map] using hcharge
      simp only [clientsOf]
      cases henabled : server.authEnabled with
      | true =>
        rw [henabled] at hauth
        obtain ⟨md, credential, hmd, hmem, hvalid, hid⟩ :=
          rateLimitClientID_of_authenticated hauth
        cases hmd
        simp only [if_true, hid]
        exact List.mem_map_of_mem (hheld credential hmem hvalid)
      | false =>
        rw [henabled] at hauth
        cases hauth
        rw [if_neg Bool.noConfusion, Arrival.rateLimitClientID_http hhost]
        split
        · exact List.mem_cons_self
        · simp only [peerClientID, hvia]
          exact List.mem_cons_of_mem _ (List.mem_singleton_self _)

/-- A client of the rate limiter has its budget on the server. -/
theorem budgeted (hfull : server.limits.burst ≤ 300 * server.limits.requestsPerSecond)
    (clientID : String) :
    Budgeted server.step Call.time
      (fun call => (server.request? call).any fun request => request.clientID = clientID)
      (BucketSound clientID) (server.limits.level clientID) server.limits.requestsPerSecond
      server.limits.burst := by
  rw [step_eq]
  exact (budgeted_step server.limits clientID hfull).charged fun _ _ => time_of_charge

/-- A call of an HTTP client at the host that sends no identity of its own. -/
def ownCall (host : String) (call : Call) : Bool :=
  match call.arrival with
  | .http remoteAddr forwarded _ =>
    hostOf remoteAddr = host && forwarded.get gatewayClientIDMetadataKey = []
  | .grpc _ _ => false

/-- A call without a signature that was not made for it: the gateway sees the address of its
client, and a client of the server itself presents no signature of the host. -/
def Unforged (crypto : Crypto) (host : String) (call : Call) : Prop :=
  match call.arrival with
  | .http remoteAddr _ _ => hostOf remoteAddr ≠ ""
  | .grpc _ metadata => ∀ value ∈ metadata.get gatewayClientIDMetadataKey,
      verifiedGatewayClientID crypto value ≠ some ("gateway:" ++ host)

/-- The request of the HTTP client at the host. -/
def ownRequest (host : String) (call : Call) : Request := ⟨"gateway:" ++ host, call.now⟩

/-- Without authentication, every call is charged, and only the own calls of the HTTP client at the
host are charged to it. -/
theorem exists_charge (hauth : server.authEnabled = false) {host : String} {call : Call}
    (hunforged : Unforged server.crypto host call) :
    ∃ request, server.charge call = .ok request ∧
      (if ownCall host call then request = ownRequest host call
        else request.clientID ≠ "gateway:" ++ host) := by
  obtain ⟨arrival, now⟩ := call
  refine ⟨⟨rateLimitClientID server.crypto (arrival.context server.crypto), now⟩, ?_, ?_⟩
  · simp [charge, authenticate, hauth, Except.map]
  cases arrival with
  | grpc address metadata =>
    rw [if_neg (by simp [ownCall])]
    intro hid
    obtain ⟨value, hvalue, hverified⟩ := Arrival.rateLimitClientID_grpc hid
    exact hunforged value hvalue hverified
  | http remoteAddr forwarded gateway =>
    rw [Arrival.rateLimitClientID_http hunforged]
    simp only [ownCall, ownRequest, Bool.and_eq_true, decide_eq_true_eq]
    by_cases hforwarded : forwarded.get gatewayClientIDMetadataKey = []
    · -- the gateway has named the host
      simp only [hforwarded, if_true, and_true]
      by_cases hhost : hostOf remoteAddr = host
      · rw [if_pos hhost, hhost]
      · rw [if_neg hhost]
        exact fun hid => hhost (gatewayID_injective hid)
    · simp only [hforwarded, if_false, and_false]
      exact (gatewayID_ne_peerID host _).symm

/-- What the client at the host is charged for. -/
theorem filter_charged (hauth : server.authEnabled = false) {host : String} {calls : List Call}
    (hunforged : ∀ call ∈ calls, Unforged server.crypto host call) :
    (calls.filterMap server.request?).filter
        (fun request => request.clientID = "gateway:" ++ host) =
      (calls.filter (ownCall host)).map (ownRequest host) := by
  induction calls with
  | nil => rfl
  | cons call rest ih =>
    have hrest := ih fun call' hcall' => hunforged call' (List.mem_cons_of_mem _ hcall')
    obtain ⟨request, hcharge, hrequest⟩ :=
      exists_charge hauth (hunforged call List.mem_cons_self)
    have hsome : server.request? call = some request := by
      rw [request?, hcharge]
      rfl
    rw [List.filterMap_cons_some hsome]
    cases hown : ownCall host call with
    | true =>
      rw [if_pos hown] at hrequest
      subst hrequest
      rw [List.filter_cons_of_pos hown, List.filter_cons_of_pos (by simp [ownRequest]), hrest,
        List.map_cons]
    | false =>
      rw [if_neg (by simp [hown])] at hrequest
      rw [List.filter_cons_of_neg (by simpa using hrequest),
        List.filter_cons_of_neg (by simp [hown]), hrest]

/-- A call that is charged is served exactly when the rate limiter grants its request. -/
theorem serve_eq_ok {l : RateLimiter} {call : Call} {request : Request}
    (h : server.request? call = some request) :
    (server.serve l call).1 = .ok () ↔ (server.limits.step l request).1 = true := by
  have hstep : server.step l call = server.limits.step l request := by
    rw [step_eq, chargedStep, h]
  rw [← hstep]
  simp only [step]
  cases (server.serve l call).1 with
  | error status => simp [Except.isOk, Except.toBool]
  | ok => simp [Except.isOk, Except.toBool]

/-- One request in two seconds, with bursts of three. -/
def quickLimits : RateLimits where
  requestsPerSecond := 1 / 2
  burst := 3
  maxBuckets := 10
  requestsPerSecond_pos := by norm_num
  burst_pos := by decide
  maxBuckets_pos := by decide

/-- A server without authentication. -/
def openServer : Server where
  crypto := ⟨fun payload => [UInt8.ofNat payload.length], fun _ => []⟩
  authEnabled := false
  apiKeys := []
  limits := quickLimits

/-- A call of the HTTP client at `192.0.2.1` with the metadata. -/
def callWith (forwarded : Metadata) : Call :=
  ⟨.http "192.0.2.1:5000" forwarded "127.0.0.1:9000", 0⟩

/-- A call of the client as it is, and one with an identity of its own choice. -/
def plainCall : Call := callWith []

def forgedCall : Call := callWith [(gatewayClientIDMetadataKey, "gateway:192.0.2.7:00")]

theorem fromHost_callWith (forwarded : Metadata) :
    fromHost "192.0.2.1" (callWith forwarded) = true ∧
      openServer.Carries "127.0.0.1" [] (callWith forwarded) := by
  have hhost : hostOf "192.0.2.1:5000" = "192.0.2.1" := by decide
  have hvia : hostOf "127.0.0.1:9000" = "127.0.0.1" := by decide
  refine ⟨decide_eq_true hhost, hvia, fun credential _ hvalid => ?_⟩
  cases hvalid

end Server

end Nzovu.Gateway
