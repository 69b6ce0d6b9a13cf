import Dmtap.Rtc.Sdp

/-! Capacity in tracks and bits per second: what a list of tracks costs, and the local and the
published ceilings that admission compares it with. -/
namespace Dmtap.Rtc
open Dmtap.Lib Dmtap.Cbor Word

structure MediaLoad where
  tracks : UInt32
  bitrateBps : UInt64
  deriving DecidableEq

namespace MediaLoad

def zero : MediaLoad := ⟨0, 0⟩

/-- An inactive track takes a slot and no bandwidth. -/
def count (load : MediaLoad) (t : TrackDescriptor) : MediaLoad :=
  let load := { load with tracks := saturatingAdd load.tracks 1 }
  if t.direction ≠ .inactive then
    { load with bitrateBps := saturatingAdd load.bitrateBps t.budgetBitrateBps }
  else load

/-- The total of some tracks. -/
def of (tracks : List TrackDescriptor) : MediaLoad := tracks.foldl count zero

def plus (a b : MediaLoad) : MediaLoad where
  tracks := saturatingAdd a.tracks b.tracks
  bitrateBps := saturatingAdd a.bitrateBps b.bitrateBps

end MediaLoad

structure ParticipantProfile where
  tracks : List TrackDescriptor

def ParticipantProfile.load (profile : ParticipantProfile) : MediaLoad := .of profile.tracks

def clampU32 (v : UInt64) : UInt32 := clamp v.toNat

def u32Max : UInt32 := 0xFFFFFFFF

structure MediaCapacity where
  maxTracks : UInt32
  maxSendBitrateBps : UInt64
  maxRecvBitrateBps : UInt64
  deriving DecidableEq

/-- The share of a link that is advertised. -/
def linkUtilizationNum : UInt64 := 3

def linkUtilizationDen : UInt64 := 4

def tracksPerCore : UInt32 := 4

namespace MediaCapacity

def fromLocalResources (cpuCores : UInt32) (uplinkBps downlinkBps : UInt64) : MediaCapacity where
  maxTracks := max (saturatingMul cpuCores tracksPerCore) 2
  maxSendBitrateBps := saturatingMul uplinkBps linkUtilizationNum / linkUtilizationDen
  maxRecvBitrateBps := saturatingMul downlinkBps linkUtilizationNum / linkUtilizationDen

/-- The participants of a full mesh: each sends one copy of its tracks to every other one. -/
def meshParticipantCeiling (c : MediaCapacity) (profile : ParticipantProfile) : UInt32 :=
  let perPeer := profile.load
  let ownTracks := perPeer.tracks
  let byTracks :=
    if perPeer.tracks = 0 then u32Max else saturatingSub c.maxTracks ownTracks / perPeer.tracks
  let bySend :=
    if perPeer.bitrateBps = 0 then u32Max else clampU32 (c.maxSendBitrateBps / perPeer.bitrateBps)
  let byRecv :=
    if perPeer.bitrateBps = 0 then u32Max else clampU32 (c.maxRecvBitrateBps / perPeer.bitrateBps)
  saturatingAdd (min (min byTracks bySend) byRecv) 1

def admitLoad (c : MediaCapacity) (current incoming : MediaLoad) (bitrateCeiling : UInt64) :
    Except RtcError Unit :=
  let total := current.plus incoming
  if c.maxTracks < total.tracks ∨ bitrateCeiling < total.bitrateBps then .error .capacityExceeded
  else .ok ()

/-- Against the budget for what is received. -/
def admitInbound (c : MediaCapacity) (current incoming : MediaLoad) : Except RtcError Unit :=
  c.admitLoad current incoming c.maxRecvBitrateBps

/-- Against the budget for what is sent. -/
def admitOutbound (c : MediaCapacity) (current incoming : MediaLoad) : Except RtcError Unit :=
  c.admitLoad current incoming c.maxSendBitrateBps

end MediaCapacity

/-- What an SFU publishes. -/
structure RtcCapacity where
  maxTracks : UInt32
  maxAggregateBps : UInt64
  maxTracksPerParticipant : UInt32
  maxBpsPerTrack : UInt64
  advisoryMaxParticipants : Option UInt32
  sframeRequired : Bool
  deriving DecidableEq

def MediaCapacity.toRtcCapacity (c : MediaCapacity) (maxTracksPerParticipant : UInt32)
    (maxBpsPerTrack : UInt64) (sframeRequired : Bool) : RtcCapacity where
  maxTracks := c.maxTracks
  maxAggregateBps := min c.maxSendBitrateBps c.maxRecvBitrateBps
  maxTracksPerParticipant := maxTracksPerParticipant
  maxBpsPerTrack := maxBpsPerTrack
  advisoryMaxParticipants := none
  sframeRequired := sframeRequired

namespace RtcCapacity

def toFields (cap : RtcCapacity) : Fields :=
  [(1, .u64 cap.maxTracks.toUInt64), (2, .u64 cap.maxAggregateBps),
    (3, .u64 cap.maxTracksPerParticipant.toUInt64), (4, .u64 cap.maxBpsPerTrack)] ++
  (Fields.opt 5 (fun p => .u64 p.toUInt64) cap.advisoryMaxParticipants) ++
  [(6, .bool cap.sframeRequired)]

def toCv (cap : RtcCapacity) : Cv := .map cap.toFields

def detCbor (cap : RtcCapacity) : Bytes := encode cap.toCv

/-- Keys beyond the known ones are not looked at. -/
def reader : FieldReader RtcError RtcCapacity := do
  let maxTracks ← Fields.req 1 asU64
  let maxAggregateBps ← Fields.req 2 asU64
  let maxTracksPerParticipant ← Fields.req 3 asU64
  let maxBpsPerTrack ← Fields.req 4 asU64
  let advisoryMaxParticipants ← Fields.take 5 asU64
  let sframeRequired ← Fields.req 6 asBool
  return { maxTracks := maxTracks.toUInt32
           maxAggregateBps := maxAggregateBps
           maxTracksPerParticipant := maxTracksPerParticipant.toUInt32
           maxBpsPerTrack := maxBpsPerTrack
           advisoryMaxParticipants := advisoryMaxParticipants.map UInt64.toUInt32
           sframeRequired := sframeRequired }

def decode (bytes : Bytes) : Except RtcError RtcCapacity := fromDetCbor (Fields.read reader) bytes

def admitLoad (cap : RtcCapacity) (current incoming perParticipant : MediaLoad) : Except RtcError Unit :=
  let total := current.plus incoming
  if cap.maxTracks < total.tracks ∨ cap.maxAggregateBps < total.bitrateBps ∨
      cap.maxTracksPerParticipant < perParticipant.tracks ∨
      cap.maxBpsPerTrack < perParticipant.bitrateBps then
    .error .capacityExceeded
  else .ok ()

end RtcCapacity

/-- What a peer advertises. -/
inductive CapacityAdvert
  | mesh (c : MediaCapacity)
  | gateway (cap : RtcCapacity)
  deriving DecidableEq

def CapacityAdvert.participantCeiling (advert : CapacityAdvert) (profile : ParticipantProfile) :
    UInt32 :=
  match advert with
  | .mesh c => c.meshParticipantCeiling profile
  | .gateway cap =>
    let perPeer := profile.load
    let byTracksPerParticipant :=
      if perPeer.tracks = 0 then u32Max else cap.maxTracksPerParticipant / perPeer.tracks
    let byAggregateTracks :=
      if perPeer.tracks = 0 then u32Max else cap.maxTracks / perPeer.tracks
    let byAggregateBps :=
      if perPeer.bitrateBps = 0 then u32Max
      else clampU32 (cap.maxAggregateBps / perPeer.bitrateBps)
    min (min byTracksPerParticipant byAggregateTracks) byAggregateBps

end Dmtap.Rtc
