import Dmtap.Rtc.Admission

/-! Admission at an SFU against what it published, and the number of participants it advertises. The
bound on a single track is compared with all tracks of a participant together, and the advertised
number shares the bound on a single participant's tracks among all participants. -/
namespace Dmtap.Rtc
open Dmtap.Lib Word

/-- A node publishes no more of its links than the share it gives them. -/
theorem MediaCapacity.maxAggregateBps_local_le (cpuCores : UInt32) (uplinkBps downlinkBps : UInt64)
    (maxTracksPerParticipant : UInt32) (maxBpsPerTrack : UInt64) (sframeRequired : Bool) :
    ((fromLocalResources cpuCores uplinkBps downlinkBps).toRtcCapacity maxTracksPerParticipant
        maxBpsPerTrack sframeRequired).maxAggregateBps.toNat * linkUtilizationDen.toNat ≤
      min uplinkBps.toNat downlinkBps.toNat * linkUtilizationNum.toNat := by
  have hshare (bps : UInt64) :
      (saturatingMul bps linkUtilizationNum / linkUtilizationDen).toNat * linkUtilizationDen.toNat ≤
        bps.toNat * linkUtilizationNum.toNat := by
    rw [UInt64.toNat_div, ← word_toNat_uint64 (saturatingMul _ _), toNat_saturatingMul]
    exact (Nat.div_mul_le_self _ _).trans (Nat.min_le_left _ _)
  have hup := hshare uplinkBps
  have hdown := hshare downlinkBps
  change (min _ _ : UInt64).toNat * _ ≤ _
  rw [toNat_min_uint64]
  rcases Nat.le_total uplinkBps.toNat downlinkBps.toNat with hle | hle
  · rw [Nat.min_eq_left hle]
    exact (Nat.mul_le_mul_right _ (Nat.min_le_left _ _)).trans hup
  · rw [Nat.min_eq_right hle]
    exact (Nat.mul_le_mul_right _ (Nat.min_le_right _ _)).trans hdown

section Admission
variable (cap : RtcCapacity)

theorem RtcCapacity.admitLoad_eq_ok_iff (current incoming perParticipant : MediaLoad) :
    cap.admitLoad current incoming perParticipant = .ok () ↔
      (current.plus incoming).tracks.toNat ≤ cap.maxTracks.toNat ∧
      (current.plus incoming).bitrateBps.toNat ≤ cap.maxAggregateBps.toNat ∧
      perParticipant.tracks.toNat ≤ cap.maxTracksPerParticipant.toNat ∧
      perParticipant.bitrateBps.toNat ≤ cap.maxBpsPerTrack.toNat := by
  simp only [← UInt32.le_iff_toNat_le, ← UInt64.le_iff_toNat_le, ← UInt32.not_lt, ← UInt64.not_lt,
    ← not_or]
  unfold RtcCapacity.admitLoad
  dsimp only
  split_ifs with h
  · exact ⟨fun hok => (nomatch hok), fun hnot => absurd h hnot⟩
  · exact ⟨fun _ => h, fun _ => rfl⟩

/-- The published bounds, each at the size of the thing it bounds. -/
structure RtcCapacity.Allows (current : MediaLoad) (T : List TrackDescriptor) : Prop where
  tracks : current.tracks.toNat + T.length ≤ cap.maxTracks.toNat
  aggregate : current.bitrateBps.toNat + exactBitrate T ≤ cap.maxAggregateBps.toNat
  perParticipant : T.length ≤ cap.maxTracksPerParticipant.toNat
  perTrack : ∀ t ∈ T, t.direction ≠ .inactive → charge t ≤ cap.maxBpsPerTrack.toNat

variable {cap} {current : MediaLoad} {T : List TrackDescriptor}

theorem RtcCapacity.admitLoad_of_exact (htracks : current.tracks.toNat + T.length < 2 ^ 32)
    (hrate : current.bitrateBps.toNat + exactBitrate T < 2 ^ 64) :
    cap.admitLoad current (.of T) (.of T) = .ok () ↔
      current.tracks.toNat + T.length ≤ cap.maxTracks.toNat ∧
      current.bitrateBps.toNat + exactBitrate T ≤ cap.maxAggregateBps.toNat ∧
      T.length ≤ cap.maxTracksPerParticipant.toNat ∧
      exactBitrate T ≤ cap.maxBpsPerTrack.toNat := by
  have hcount : min T.length (2 ^ 32 - 1) = T.length := by omega
  have hsum : min (exactBitrate T) (2 ^ 64 - 1) = exactBitrate T := by omega
  rw [cap.admitLoad_eq_ok_iff, MediaLoad.plus_tracks, MediaLoad.plus_bitrateBps,
    MediaLoad.of_tracks, MediaLoad.of_bitrateBps, hcount, hsum, Nat.min_eq_left (by omega),
    Nat.min_eq_left (by omega)]

/-- Admission is exact for each track unless the tracks of one participant, each of them allowed,
exceed the bound on a single track together. -/
theorem RtcCapacity.admitLoad_per_track_iff (htracks : current.tracks.toNat + T.length < 2 ^ 32)
    (hrate : current.bitrateBps.toNat + exactBitrate T < 2 ^ 64) :
    (cap.admitLoad current (.of T) (.of T) = .ok () ↔ cap.Allows current T) ↔
      exactBitrate T ≤ cap.maxBpsPerTrack.toNat ∨ ¬ cap.Allows current T := by
  rw [RtcCapacity.admitLoad_of_exact htracks hrate]
  constructor
  · intro hexact
    by_cases hallows : cap.Allows current T
    · exact Or.inl (hexact.mpr hallows).2.2.2
    · exact Or.inr hallows
  · rintro (hsum | hnot)
    · constructor
      · rintro ⟨hcount, hbps, hper, -⟩
        exact ⟨hcount, hbps, hper, fun t ht hactive =>
          (charge_le_exactBitrate ht hactive).trans hsum⟩
      · intro hallows
        exact ⟨hallows.tracks, hallows.aggregate, hallows.perParticipant, hsum⟩
    · constructor
      · rintro ⟨hcount, hbps, hper, hsum⟩
        exact ⟨hcount, hbps, hper, fun t ht hactive =>
          (charge_le_exactBitrate ht hactive).trans hsum⟩
      · intro hallows
        exact absurd hallows hnot

/-- One audio and one camera track. -/
def audioVideo : List TrackDescriptor :=
  [⟨none, .audio, .main, .sendRecv, none⟩, ⟨none, .video, .main, .sendRecv, none⟩]

theorem RtcCapacity.admitLoad_per_track_audioVideo :
    (RtcCapacity.admitLoad ⟨8, 8000000, 4, 2000000, none, true⟩ .zero (.of audioVideo)
      (.of audioVideo) = .ok () ↔
      RtcCapacity.Allows ⟨8, 8000000, 4, 2000000, none, true⟩ .zero audioVideo) :=
  (RtcCapacity.admitLoad_per_track_iff (by decide) (by decide)).mpr (Or.inl (by decide))

/-- A camera and a microphone, each within the bound on a single track, are refused together. -/
theorem RtcCapacity.admitLoad_refuses_allowed :
    ¬ (RtcCapacity.admitLoad ⟨8, 8000000, 4, 1000000, none, true⟩ .zero (.of audioVideo)
      (.of audioVideo) = .ok () ↔
      RtcCapacity.Allows ⟨8, 8000000, 4, 1000000, none, true⟩ .zero audioVideo) := by
  intro hexact
  have hallows : RtcCapacity.Allows ⟨8, 8000000, 4, 1000000, none, true⟩ .zero audioVideo :=
    ⟨by decide, by decide, by decide, by decide⟩
  exact absurd (hexact.mpr hallows) (by decide)

end Admission

section Ceiling

/-- The load of `k` participants that each bring the same. -/
def MediaLoad.times (load : MediaLoad) : ℕ → MediaLoad
  | 0 => zero
  | k + 1 => (times load k).plus load

theorem MediaLoad.times_tracks (load : MediaLoad) (k : ℕ) :
    (load.times k).tracks.toNat = min (k * load.tracks.toNat) (2 ^ 32 - 1) := by
  induction k with
  | zero =>
    rw [Nat.zero_mul]
    rfl
  | succ k ih =>
    rw [MediaLoad.times, MediaLoad.plus_tracks, ih, Nat.succ_mul]
    omega

theorem MediaLoad.times_bitrateBps (load : MediaLoad) (k : ℕ) :
    (load.times k).bitrateBps.toNat = min (k * load.bitrateBps.toNat) (2 ^ 64 - 1) := by
  induction k with
  | zero =>
    rw [Nat.zero_mul]
    rfl
  | succ k ih =>
    rw [MediaLoad.times, MediaLoad.plus_bitrateBps, ih, Nat.succ_mul]
    omega

variable {cap : RtcCapacity} {profile : ParticipantProfile} {n : ℕ}

/-- As long as no total saturates, the last of `n` equal participants decides about all of them. -/
theorem RtcCapacity.forall_admitLoad_iff {load : MediaLoad}
    (htracks : n * load.tracks.toNat < 2 ^ 32) (hrate : n * load.bitrateBps.toNat < 2 ^ 64) :
    (∀ k < n, cap.admitLoad (load.times k) load load = .ok ()) ↔
      n = 0 ∨ n * load.tracks.toNat ≤ cap.maxTracks.toNat ∧
        n * load.bitrateBps.toNat ≤ cap.maxAggregateBps.toNat ∧
        load.tracks.toNat ≤ cap.maxTracksPerParticipant.toNat ∧
        load.bitrateBps.toNat ≤ cap.maxBpsPerTrack.toNat := by
  have hsum (k : ℕ) (hk : k < n) :
      cap.admitLoad (load.times k) load load = .ok () ↔
        (k + 1) * load.tracks.toNat ≤ cap.maxTracks.toNat ∧
        (k + 1) * load.bitrateBps.toNat ≤ cap.maxAggregateBps.toNat ∧
        load.tracks.toNat ≤ cap.maxTracksPerParticipant.toNat ∧
        load.bitrateBps.toNat ≤ cap.maxBpsPerTrack.toNat := by
    have hcount : (k + 1) * load.tracks.toNat ≤ n * load.tracks.toNat := Nat.mul_le_mul_right _ hk
    have hbps : (k + 1) * load.bitrateBps.toNat ≤ n * load.bitrateBps.toNat :=
      Nat.mul_le_mul_right _ hk
    rw [cap.admitLoad_eq_ok_iff]
    change (load.times (k + 1)).tracks.toNat ≤ _ ∧ (load.times (k + 1)).bitrateBps.toNat ≤ _ ∧ _ ↔ _
    rw [MediaLoad.times_tracks, MediaLoad.times_bitrateBps, Nat.min_eq_left (by omega),
      Nat.min_eq_left (by omega)]
  constructor
  · intro hall
    cases n with
    | zero => exact Or.inl rfl
    | succ m => exact Or.inr ((hsum m (Nat.lt_succ_self m)).mp (hall m (Nat.lt_succ_self m)))
  · rintro (rfl | ⟨hcount, hbps, hper, htrack⟩) k hk
    · exact absurd hk (Nat.not_lt_zero k)
    · refine (hsum k hk).mpr ⟨?_, ?_, hper, htrack⟩
      · exact (Nat.mul_le_mul_right _ hk).trans hcount
      · exact (Nat.mul_le_mul_right _ hk).trans hbps

theorem CapacityAdvert.le_participantCeiling_iff (hn : n < 2 ^ 32) :
    n ≤ ((CapacityAdvert.gateway cap).participantCeiling profile).toNat ↔
      n * profile.load.tracks.toNat ≤ cap.maxTracksPerParticipant.toNat ∧
      n * profile.load.tracks.toNat ≤ cap.maxTracks.toNat ∧
      n * profile.load.bitrateBps.toNat ≤ cap.maxAggregateBps.toNat := by
  rw [← le_trackShare_iff hn, ← le_trackShare_iff hn, ← le_rateShare_iff hn]
  unfold CapacityAdvert.participantCeiling
  rw [toNat_min_uint32, toNat_min_uint32, Nat.le_min, Nat.le_min, and_assoc]

/-- The advertised number agrees with admission one after another when the bounds per participant
decide nothing or decide it for `n` participants together as they do for one. -/
theorem CapacityAdvert.participantCeiling_agrees_iff (hsome : profile.tracks ≠ [])
    (htracks : n * profile.tracks.length < 2 ^ 32) (hrate : n * exactBitrate profile.tracks < 2 ^ 64)
    (hlength : profile.tracks.length < 2 ^ 32) (hbitrate : exactBitrate profile.tracks < 2 ^ 64) :
    ((∀ k < n, cap.admitLoad (profile.load.times k) profile.load profile.load = .ok ()) ↔
      n ≤ ((CapacityAdvert.gateway cap).participantCeiling profile).toNat) ↔
    n = 0 ∨ cap.maxTracks.toNat < n * profile.tracks.length ∨
      cap.maxAggregateBps.toNat < n * exactBitrate profile.tracks ∨
      cap.maxTracksPerParticipant.toNat < profile.tracks.length ∨
      (n * profile.tracks.length ≤ cap.maxTracksPerParticipant.toNat ↔
        exactBitrate profile.tracks ≤ cap.maxBpsPerTrack.toNat) := by
  have hcount := profile.load_tracks hlength
  have hsum := profile.load_bitrateBps hbitrate
  have hone : 1 ≤ profile.tracks.length := List.length_pos_of_ne_nil hsome
  have hn : n < 2 ^ 32 := by
    have hle := Nat.le_mul_of_pos_right n hone
    omega
  rw [RtcCapacity.forall_admitLoad_iff (by rw [hcount]; exact htracks) (by rw [hsum]; exact hrate),
    CapacityAdvert.le_participantCeiling_iff hn, hcount, hsum]
  by_cases hzero : n = 0
  · simp [hzero]
  · have hown : profile.tracks.length ≤ n * profile.tracks.length :=
      Nat.le_mul_of_pos_left _ (Nat.pos_of_ne_zero hzero)
    constructor
    · intro hagrees
      by_contra hnot
      omega
    · intro hcond
      omega

theorem CapacityAdvert.participantCeiling_agrees_one :
    (∀ k < 1, RtcCapacity.admitLoad ⟨8, 8000000, 4, 2000000, none, true⟩
        ((ParticipantProfile.mk audioVideo).load.times k) (ParticipantProfile.mk audioVideo).load
        (ParticipantProfile.mk audioVideo).load = .ok ()) ↔
      1 ≤ ((CapacityAdvert.gateway ⟨8, 8000000, 4, 2000000, none, true⟩).participantCeiling
        ⟨audioVideo⟩).toNat :=
  (CapacityAdvert.participantCeiling_agrees_iff (by decide) (by decide) (by decide) (by decide)
    (by decide)).mpr (Or.inr (Or.inr (Or.inr (Or.inr (by decide)))))

/-- Two participants of two tracks each are admitted where three tracks each are allowed, and the
advertised number is one. -/
theorem CapacityAdvert.participantCeiling_too_low :
    ¬ ((∀ k < 2, RtcCapacity.admitLoad ⟨8, 8000000, 3, 2000000, none, true⟩
        ((ParticipantProfile.mk audioVideo).load.times k) (ParticipantProfile.mk audioVideo).load
        (ParticipantProfile.mk audioVideo).load = .ok ()) ↔
      2 ≤ ((CapacityAdvert.gateway ⟨8, 8000000, 3, 2000000, none, true⟩).participantCeiling
        ⟨audioVideo⟩).toNat) := by
  intro hagrees
  have hadmitted : ∀ k < 2, RtcCapacity.admitLoad ⟨8, 8000000, 3, 2000000, none, true⟩
      ((ParticipantProfile.mk audioVideo).load.times k) (ParticipantProfile.mk audioVideo).load
      (ParticipantProfile.mk audioVideo).load = .ok () := by decide
  exact absurd (hagrees.mp hadmitted) (by decide)

end Ceiling
end Dmtap.Rtc
