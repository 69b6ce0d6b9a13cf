import Dmtap.Cbor.Fields
import Dmtap.Lib.Word
import Dmtap.Mail.Text

/-! What admission control reads out of an SDP body. The scan goes line by line and changes the last
track it found, so an attribute stays in the media section that it follows. -/
namespace Dmtap.Rtc
open Dmtap.Lib Dmtap.Cbor Dmtap.Mail

inductive RtcError
  | malformed (why : String)
  | unknownSignalType (type : UInt8)
  | unprotectedMedia (media : String)
  | capacityExceeded
  | sdpMalformed (why : String)
  | cbor (e : CborError)
  deriving DecidableEq

instance : ErrorFrom CborError RtcError := ⟨.cbor⟩

instance : ErrorFrom RtcError RtcError := ⟨id⟩

def RtcError.code : RtcError → Option UInt16
  | .malformed _ => some 0x020D
  | .cbor _ => some 0x020D
  | .unprotectedMedia _ => some 0x0417
  | .capacityExceeded => some 0x0416
  | .unknownSignalType _ => none
  | .sdpMalformed _ => none

inductive MediaKind
  | audio
  | video
  | application
  | other (media : String)
  deriving DecidableEq

inductive TrackPurpose
  | main
  | slides
  | speaker
  | signLanguage
  | alt
  | other (content : String)
  deriving DecidableEq

inductive Direction
  | sendRecv
  | sendOnly
  | recvOnly
  | inactive
  deriving DecidableEq

/-- One media section, reduced to what admission control needs. -/
structure TrackDescriptor where
  mid : Option String
  media : MediaKind
  purpose : TrackPurpose
  direction : Direction
  declaredBitrateBps : Option UInt64
  deriving DecidableEq

namespace TrackDescriptor

def floorBitrateBps (t : TrackDescriptor) : UInt64 :=
  match t.media, t.purpose with
  | .audio, _ => 64000
  | .video, .slides => 2500000
  | .video, _ => 1000000
  | .application, _ => 128000
  | .other _, _ => 1000000

/-- A declaration can only raise the charge. -/
def budgetBitrateBps (t : TrackDescriptor) : UInt64 :=
  max t.floorBitrateBps (t.declaredBitrateBps.getD 0)

end TrackDescriptor

section Scan

def protoIsProtected (proto : String) : Bool :=
  let p := proto.toList.map Char.toUpper
  "SAVP".toList <:+: p || "DTLS/SCTP".toList <:+: p

def trimEndMatches (s : String) : String :=
  String.ofList (s.toList.reverse.dropWhile fun c => c = '\r' || c = ' ' || c = '\t').reverse

def fieldsOf (value : String) : List String := (split ' ' value).filter fun s => s ≠ ""

def mediaKindOf : String → MediaKind
  | "audio" => .audio
  | "video" => .video
  | "application" => .application
  | media => .other media

def purposeOf : String → TrackPurpose
  | "main" => .main
  | "slides" => .slides
  | "speaker" => .speaker
  | "sl" => .signLanguage
  | "alt" => .alt
  | content => .other content

/-- The track that a media line opens. -/
def mediaLine (value : String) : Except RtcError TrackDescriptor :=
  match fieldsOf value with
  | [] => .error (.sdpMalformed "m= line has no media field")
  | [_] => .error (.sdpMalformed "m= line has no port field")
  | [_, _] => .error (.sdpMalformed "m= line has no proto field")
  | media :: _ :: proto :: _ =>
    if !protoIsProtected proto then .error (.unprotectedMedia media)
    else .ok ⟨none, mediaKindOf media, .main, .sendRecv, none⟩

def bandwidthLine (value : String) (cur : TrackDescriptor) : TrackDescriptor :=
  match stripPrefix "AS:" value with
  | none => cur
  | some kbps =>
    match parseU64 (trim kbps) with
    | none => cur
    | some k => { cur with declaredBitrateBps := some (Word.saturatingMul (.ofNat k) 1000) }

def attributeLine (value : String) (cur : TrackDescriptor) : TrackDescriptor :=
  match stripPrefix "mid:" value with
  | some mid => { cur with mid := some (trim mid) }
  | none =>
    match stripPrefix "content:" value with
    | some content => { cur with purpose := purposeOf (trim content) }
    | none =>
      match value with
      | "sendrecv" => { cur with direction := .sendRecv }
      | "sendonly" => { cur with direction := .sendOnly }
      | "recvonly" => { cur with direction := .recvOnly }
      | "inactive" => { cur with direction := .inactive }
      | _ => cur

/-- Change the last track, if there is one. -/
def modifyLastTrack (f : TrackDescriptor → TrackDescriptor) (out : List TrackDescriptor) :
    List TrackDescriptor :=
  match out.getLast? with
  | none => out
  | some cur => out.dropLast ++ [f cur]

/-- One line of the body. -/
def sdpLine (out : List TrackDescriptor) (raw : String) : Except RtcError (List TrackDescriptor) :=
  match splitOnce '=' (trimEndMatches raw) with
  | none => .ok out
  | some (kind, value) =>
    if kind = "m" then (mediaLine value).map fun t => out ++ [t]
    else if kind = "b" then .ok (modifyLastTrack (bandwidthLine value) out)
    else if kind = "a" then .ok (modifyLastTrack (attributeLine value) out)
    else .ok out

def sdpScan (sdp : String) : Except RtcError (List TrackDescriptor) :=
  (split '\n' sdp).foldlM sdpLine []


example : sdpScan "a=inactive\r\nm=video 9 UDP/TLS/RTP/SAVPF 96\r\nb=AS:3000\r\na=content:slides\r\n" =
    .ok [⟨none, .video, .slides, .sendRecv, some 3000000⟩] := by
  decide

end Scan
end Dmtap.Rtc
