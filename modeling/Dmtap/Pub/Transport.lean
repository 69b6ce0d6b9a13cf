import Dmtap.Cbor.Transport
import Dmtap.Mote.Restores
import Dmtap.Pub.Objects

/-! Public objects survive the wire. An announcement comes back with its metadata in canonical
form; the other objects come back as they were. -/
namespace Dmtap.Pub
open Dmtap.Lib Dmtap.Cbor

theorem pubSuite_norm {s : Suite} (h : s.isSupported = true) : pubSuite (norm s.toCv) = .ok s := by
  unfold pubSuite
  rw [Suite.toCv, asU8_norm]
  dsimp only [Except.mapError, bind, Except.bind]
  rw [Suite.fromU8_asU8]
  dsimp only
  rw [if_pos h]

theorem contentIds_norm (ids : List ContentId) :
    asArrayOf ContentId.fromCv (norm (.array (ids.map ContentId.toCv))) = .ok ids :=
  asArrayOf_norm fun _ _ => rfl

theorem depth_contentIds (ids : List ContentId) :
    (Cv.array (ids.map ContentId.toCv)).depth ≤ 1 := by
  simp [Cv.depth_array_le, ContentId.toCv]

theorem keysDistinct_contentIds (ids : List ContentId) :
    (Cv.array (ids.map ContentId.toCv)).KeysDistinct := by
  simp [Cv.keysDistinct_array, ContentId.toCv]

theorem PubManifest.restores {m : PubManifest} (hsuite : m.suite.isSupported = true)
    (hchunks : m.chunks ≠ []) : Restores PubManifest.reader m.fields 1 m := by
  refine ⟨⟨[1, 2, 3, 4, 6], by decide, keysFrom_self _⟩, ?_, ?_, ?_⟩
  · unfold PubManifest.reader PubManifest.fields
    refine (Reader.run_bind_ok rfl).trans ?_
    rw [if_neg (by simp [Fields.has, normMap_eq])]
    refine run_req rfl ?_
    refine run_req rfl ?_
    refine run_req (asU32_norm m.chunkSz) ?_
    refine run_req (contentIds_norm m.chunks) ?_
    rw [if_neg (by simp [hchunks])]
    refine run_req (pubSuite_norm hsuite) ?_
    exact run_deny
  · simp [PubManifest.fields, ContentId.toCv, Suite.toCv, keysDistinct_contentIds]
  · simp [PubManifest.fields, ContentId.toCv, Suite.toCv, depth_contentIds]

/-- The announcement as decoding yields it: with the metadata in canonical order and form. -/
def PubAnnounce.received (a : PubAnnounce) : PubAnnounce :=
  { a with metadata := sortByKey (fun p => textKey p.1) (normTextMap a.metadata) }

namespace PubAnnounce

theorem metaFromCv_norm (m : List (String × Cv)) :
    metaFromCv (norm (.textMap m)) = .ok (sortByKey (fun p => textKey p.1) (normTextMap m)) := by
  cases m with
  | nil => rfl
  | cons e m => rfl

/-- What a decoder asks of an announcement beyond its encoding. -/
structure Decodable (a : PubAnnounce) : Prop where
  version : a.v = pubV0
  suite : a.suite.isSupported = true
  roots : a.roots ≠ []
  metadata : (Cv.textMap a.metadata).KeysDistinct
  depth : (Cv.textMap a.metadata).depth < maxNestingDepth
  fits : (Cv.map (fields true a)).LengthsFit

variable {a : PubAnnounce}

theorem keysFrom_fields (a : PubAnnounce) : KeysFrom [1, 2, 3, 4, 5, 6, 7, 8, 9] (fields true a) :=
  (((keysFrom_self _).append (keysFrom_opt a.supersedes)).append (keysFrom_self _)).append
    (keysFrom_self _)

theorem Decodable.restores (h : a.Decodable) :
    Restores reader (fields true a) (maxNestingDepth - 1) a.received := by
  refine ⟨⟨_, by decide, keysFrom_fields a⟩, ?_, ?_, ?_⟩
  · simp only [fields, if_true, List.cons_append, List.nil_append, List.append_assoc]
    refine run_req (asU8_norm a.v) ?_
    rw [if_neg (by simp [h.version])]
    refine run_req (pubSuite_norm h.suite) ?_
    refine run_req rfl ?_
    refine run_req (contentIds_norm a.roots) ?_
    rw [if_neg (by simp [h.roots])]
    refine run_req (metaFromCv_norm a.metadata) ?_
    refine run_take (fun _ _ => rfl) (by simp) ?_
    refine run_req rfl ?_
    refine run_req rfl ?_
    refine run_req rfl ?_
    exact run_deny
  · simp [fields, ContentId.toCv, Suite.toCv, keysDistinct_contentIds, h.metadata]
  · have hmeta := Nat.le_sub_one_of_lt h.depth
    have hroots := (depth_contentIds a.roots).trans (by decide : 1 ≤ maxNestingDepth - 1)
    simp [fields, ContentId.toCv, Suite.toCv, hroots, hmeta]

theorem Decodable.fromDetCbor (h : a.Decodable) : fromDetCbor a.detCbor = .ok a.received :=
  h.restores.fromDetCbor (by decide) h.fits

/-- What is signed does not depend on the order in which the metadata was put together. -/
theorem Decodable.fields_received (h : a.Decodable) (includeSig : Bool) :
    encode (.map (fields includeSig a.received)) = encode (.map (fields includeSig a)) := by
  have hmeta : enc (.textMap a.received.metadata) = enc (.textMap a.metadata) := by
    have hfit : (Cv.textMap a.metadata).LengthsFit :=
      (Cv.lengthsFit_map.mp h.fits).2 (5, .textMap a.metadata) (by simp [fields])
    cases hnil : a.metadata with
    | nil =>
      rw [received, hnil]
      rfl
    | cons e m =>
      have hnorm := enc_norm hfit h.metadata
      rw [hnil] at hnorm
      rw [← hnorm, received, hnil]
      rfl
  have hentries : (fields includeSig a.received).map entry = (fields includeSig a).map entry := by
    simp only [fields, List.map_append, List.map_cons, entry, hmeta]
    rfl
  change enc _ = enc _
  rw [enc_map, enc_map, hentries]

theorem Decodable.detCbor_received (h : a.Decodable) : a.received.detCbor = a.detCbor :=
  h.fields_received true

theorem Decodable.signingPreimage_received (h : a.Decodable) :
    a.received.signingPreimage = a.signingPreimage := h.fields_received false

end PubAnnounce

theorem FeedEntry.restores {e : FeedEntry} (h : prevMisplaced e.seq e.prev = false) :
    Restores FeedEntry.reader e.fields 0 e := by
  have hkeys : KeysFrom [1, 2, 3, 4] e.fields :=
    ((keysFrom_self _).append (keysFrom_opt e.prev)).append (keysFrom_self _)
  refine ⟨⟨_, by decide, hkeys⟩, ?_, ?_, ?_⟩
  · simp only [FeedEntry.fields, List.cons_append, List.nil_append]
    refine run_req rfl ?_
    refine run_req rfl ?_
    refine run_take (fun _ _ => rfl) (by simp) ?_
    refine run_req rfl ?_
    refine (Reader.run_bind_ok rfl).trans ?_
    rw [if_neg (by simp [h])]
    rfl
  · simp [FeedEntry.fields, ContentId.toCv]
  · simp [FeedEntry.fields, ContentId.toCv]

namespace FeedHead

/-- What a decoder asks of a feed head beyond its encoding. -/
structure Decodable (h : FeedHead) : Prop where
  version : h.v = pubV0
  suite : h.suite.isSupported = true
  topic : h.topic.isEmpty = false → validateTopicLabel h.topic = .ok ()

/-- The topic where it is written down. -/
def writtenTopic (topic : String) : Option String := if topic.isEmpty then none else some topic

theorem topicFields_eq (topic : String) :
    topicFields topic = Fields.opt 64 .text (writtenTopic topic) := by
  unfold topicFields writtenTopic
  split_ifs <;> rfl

theorem writtenTopic_getD (topic : String) : (writtenTopic topic).getD "" = topic := by
  unfold writtenTopic
  split_ifs with h
  · exact (String.isEmpty_iff.mp h).symm
  · rfl

theorem topicFromCv_norm {topic : String} (h : validateTopicLabel topic = .ok ())
    (hempty : topic.isEmpty = false) : topicFromCv (norm (.text topic)) = .ok topic := by
  unfold topicFromCv
  refine except_bind_eq_ok.mpr ⟨topic, rfl, ?_⟩
  rw [if_neg (by simp [hempty]), h]
  rfl

theorem Decodable.topicFromCv_norm {h : FeedHead} (hd : h.Decodable) :
    ∀ t ∈ writtenTopic h.topic, topicFromCv (norm (.text t)) = .ok t := by
  intro t ht
  unfold writtenTopic at ht
  split_ifs at ht with hempty
  · cases ht
  · obtain rfl : h.topic = t := Option.some.inj ht
    have hne : h.topic.isEmpty = false := Bool.eq_false_iff.mpr hempty
    exact FeedHead.topicFromCv_norm (hd.topic hne) hne

theorem Decodable.restores {h : FeedHead} (hd : h.Decodable) :
    Restores reader (fields true h) 0 h := by
  have hkeys : KeysFrom [1, 2, 3, 4, 5, 6, 7, 8, 64] (fields true h) := by
    unfold fields
    rw [topicFields_eq]
    exact ((keysFrom_self _).append (keysFrom_self _)).append (keysFrom_opt _)
  refine ⟨⟨_, by decide, hkeys⟩, ?_, ?_, ?_⟩
  · simp only [fields, topicFields_eq, if_true, List.cons_append, List.nil_append]
    refine run_req (asU8_norm h.v) ?_
    rw [if_neg (by simp [hd.version])]
    refine run_req (pubSuite_norm hd.suite) ?_
    refine run_req rfl ?_
    refine run_req rfl ?_
    refine run_req rfl ?_
    refine run_req rfl ?_
    refine run_req rfl ?_
    refine run_req rfl ?_
    refine run_take_last hd.topicFromCv_norm ?_
    rw [writtenTopic_getD]
    exact run_deny
  · simp [fields, topicFields_eq, ContentId.toCv, Suite.toCv]
  · simp [fields, topicFields_eq, ContentId.toCv, Suite.toCv]

end FeedHead
end Dmtap.Pub
