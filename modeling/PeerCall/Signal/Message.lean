import PeerCall.Call.Manager

/-!
# Signal.Message — what two clients send each other through the signaling server
-/

namespace PeerCall

/-- `SessionDescriptionPayload`. -/
structure SessionDescriptionPayload where
  callId : String := ""
  type : String := ""
  sdp : String := ""
  deriving DecidableEq, Repr

/-- `IceCandidatePayload`. -/
structure IceCandidatePayload where
  callId : String := ""
  sdpMid : String := ""
  sdpMlineIndex : ℤ := -1
  candidate : String := ""
  deriving DecidableEq, Repr

/-- The relayed messages. -/
inductive SignalMessage
  | call (m : CallMessage)
  | offer (sdp : SessionDescriptionPayload)
  | answer (sdp : SessionDescriptionPayload)
  | iceCandidate (candidate : IceCandidatePayload)
  deriving DecidableEq, Repr

end PeerCall
