import Dmtap.Rtc.Capacity
import Mathlib.Algebra.Order.BigOperators.Group.List

/-! Admission over the unbounded integers: what the saturating totals and the ceilings decide, said
with exact counts and exact sums of charges. -/
namespace Dmtap.Rtc
open Dmtap.Lib Word

section Loads

/-- What a track is charged. -/
def charge (t : TrackDescriptor) : ℕ := t.budgetBitrateBps.toNat

def active (tracks : List TrackDescriptor) : List TrackDescriptor :=
  tracks.filter fun t => t.direction ≠ .inactive

/-- The sum of the charges of the tracks that carry something. -/
def exactBitrate (tracks : List TrackDescriptor) : ℕ := ((active tracks).map charge).sum

theorem charge_eq (t : TrackDescriptor) :
    charge t = max t.floorBitrateBps.toNat (t.declaredBitrateBps.getD 0).toNat :=
  toNat_max_uint64 _ _

theorem floor_le_charge (t : TrackDescriptor) : t.floorBitrateBps.toNat ≤ charge t := by
  rw [charge_eq]
  exact Nat.le_max_left _ _

theorem declared_le_charge {t : TrackDescriptor} {rate : UInt64}
    (h : t.declaredBitrateBps = some rate) : rate.toNat ≤ charge t := by
  rw [charge_eq, h]
  exact Nat.le_max_right _ _

theorem charge_le_exactBitrate {t : TrackDescriptor} {tracks : List TrackDescriptor}
    (ht : t ∈ tracks) (hactive : t.direction ≠ .inactive) : charge t ≤ exactBitrate tracks := by
  have hmem : charge t ∈ (active tracks).map charge :=
    List.mem_map_of_mem (List.mem_filter.mpr ⟨ht, by simpa using hactive⟩)
  exact List.le_sum_of_mem hmem

namespace MediaLoad

theorem foldl_count_tracks (tracks : List TrackDescriptor) (load : MediaLoad) :
    (tracks.foldl count load).tracks = tracks.foldl (fun n _ => saturatingAdd n 1) load.tracks := by
  induction tracks generalizing load with
  | nil => rfl
  | cons t tracks ih =>
    have hcount : (count load t).tracks = saturatingAdd load.tracks 1 := by
      unfold count
      split_ifs
      · rfl
      · rfl
    rw [List.foldl_cons, ih, hcount, List.foldl_cons]

theorem foldl_count_bitrateBps (tracks : List TrackDescriptor) (load : MediaLoad) :
    (tracks.foldl count load).bitrateBps =
      (active tracks).foldl (fun n t => saturatingAdd n t.budgetBitrateBps) load.bitrateBps := by
  induction tracks generalizing load with
  | nil => rfl
  | cons t tracks ih =>
    rw [List.foldl_cons, ih]
    unfold active count
    by_cases h : t.direction = .inactive
    · rw [if_neg (by simpa using h), List.filter_cons_of_neg (by simpa using h)]
    · rw [if_pos h, List.filter_cons_of_pos (by simpa using h), List.foldl_cons]

theorem of_tracks (tracks : List TrackDescriptor) :
    (of tracks).tracks.toNat = min tracks.length (2 ^ 32 - 1) := by
  have h := toNat_foldl_saturatingAdd (fun _ : TrackDescriptor => (1 : UInt32)) tracks 0
  have hone : (tracks.map fun _ => toNat (1 : UInt32)).sum = tracks.length := by
    rw [List.map_const', List.sum_replicate]
    exact Nat.mul_one _
  have hfold := foldl_count_tracks tracks zero
  rw [hone, show (0 : UInt32) = zero.tracks from rfl, ← hfold] at h
  change (of tracks).tracks.toNat = min (0 + tracks.length) (2 ^ 32 - 1) at h
  rw [h, Nat.zero_add]

theorem of_bitrateBps (tracks : List TrackDescriptor) :
    (of tracks).bitrateBps.toNat = min (exactBitrate tracks) (2 ^ 64 - 1) := by
  have h := toNat_foldl_saturatingAdd TrackDescriptor.budgetBitrateBps (active tracks) 0
  have hfold := foldl_count_bitrateBps tracks zero
  rw [show (0 : UInt64) = zero.bitrateBps from rfl, ← hfold] at h
  change (of tracks).bitrateBps.toNat = min (0 + exactBitrate tracks) (2 ^ 64 - 1) at h
  rw [h, Nat.zero_add]

theorem plus_tracks (a b : MediaLoad) :
    (a.plus b).tracks.toNat = min (a.tracks.toNat + b.tracks.toNat) (2 ^ 32 - 1) :=
  toNat_saturatingAdd a.tracks b.tracks

theorem plus_bitrateBps (a b : MediaLoad) :
    (a.plus b).bitrateBps.toNat = min (a.bitrateBps.toNat + b.bitrateBps.toNat) (2 ^ 64 - 1) :=
  toNat_saturatingAdd a.bitrateBps b.bitrateBps

end MediaLoad

theorem ParticipantProfile.load_tracks (profile : ParticipantProfile)
    (h : profile.tracks.length < 2 ^ 32) : profile.load.tracks.toNat = profile.tracks.length := by
  unfold ParticipantProfile.load
  rw [MediaLoad.of_tracks]
  omega

theorem ParticipantProfile.load_bitrateBps (profile : ParticipantProfile)
    (h : exactBitrate profile.tracks < 2 ^ 64) :
    profile.load.bitrateBps.toNat = exactBitrate profile.tracks := by
  unfold ParticipantProfile.load
  rw [MediaLoad.of_bitrateBps]
  omega

end Loads

section Local
variable (c : MediaCapacity)

theorem MediaCapacity.admitLoad_eq_ok_iff (current incoming : MediaLoad) (ceiling : UInt64) :
    c.admitLoad current incoming ceiling = .ok () ↔
      (current.plus incoming).tracks.toNat ≤ c.maxTracks.toNat ∧
        (current.plus incoming).bitrateBps.toNat ≤ ceiling.toNat := by
  unfold MediaCapacity.admitLoad
  rw [← UInt32.le_iff_toNat_le, ← UInt64.le_iff_toNat_le, ← UInt32.not_lt, ← UInt64.not_lt, ← not_or]
  dsimp only
  split_ifs with h
  · exact ⟨fun hok => (nomatch hok), fun hnot => absurd h hnot⟩
  · exact ⟨fun _ => h, fun _ => rfl⟩

/-- Ceilings below the largest words see through saturation. -/
theorem MediaCapacity.admitLoad_of_exact {C T : List TrackDescriptor} {ceiling : UInt64}
    (htracks : c.maxTracks.toNat < 2 ^ 32 - 1) (hceiling : ceiling.toNat < 2 ^ 64 - 1) :
    c.admitLoad (.of C) (.of T) ceiling = .ok () ↔
      C.length + T.length ≤ c.maxTracks.toNat ∧
        exactBitrate C + exactBitrate T ≤ ceiling.toNat := by
  rw [c.admitLoad_eq_ok_iff, MediaLoad.plus_tracks, MediaLoad.plus_bitrateBps, MediaLoad.of_tracks,
    MediaLoad.of_tracks, MediaLoad.of_bitrateBps, MediaLoad.of_bitrateBps]
  constructor
  · rintro ⟨hcount, hrate⟩
    constructor
    · omega
    · omega
  · rintro ⟨hcount, hrate⟩
    constructor
    · omega
    · omega

/-- With ceilings below the largest words, nothing is admitted beyond the exact totals and nothing
within them is refused. -/
theorem MediaCapacity.admit_exact (htracks : c.maxTracks.toNat < 2 ^ 32 - 1)
    (hsend : c.maxSendBitrateBps.toNat < 2 ^ 64 - 1)
    (hrecv : c.maxRecvBitrateBps.toNat < 2 ^ 64 - 1) (C T : List TrackDescriptor) :
    (c.admitInbound (.of C) (.of T) = .ok () ↔ C.length + T.length ≤ c.maxTracks.toNat ∧
      exactBitrate C + exactBitrate T ≤ c.maxRecvBitrateBps.toNat) ∧
    (c.admitOutbound (.of C) (.of T) = .ok () ↔ C.length + T.length ≤ c.maxTracks.toNat ∧
      exactBitrate C + exactBitrate T ≤ c.maxSendBitrateBps.toNat) ∧
    ∀ t : TrackDescriptor, t.floorBitrateBps.toNat ≤ charge t ∧
      ∀ rate, t.declaredBitrateBps = some rate → rate.toNat ≤ charge t :=
  ⟨c.admitLoad_of_exact htracks hrecv, c.admitLoad_of_exact htracks hsend,
    fun t => ⟨floor_le_charge t, fun _ => declared_le_charge⟩⟩

theorem MediaCapacity.admit_exact_hostile :
    (⟨8, 5000000, 5000000⟩ : MediaCapacity).admitInbound
        (.of [⟨none, .video, .main, .sendRecv, some 0xFFFFFFFFFFFFFFFF⟩])
        (.of [⟨none, .audio, .main, .sendRecv, some 0xFFFFFFFFFFFFFFFF⟩]) ≠ .ok () := by
  intro h
  have hexact := ((MediaCapacity.admit_exact ⟨8, 5000000, 5000000⟩ (by decide) (by decide)
    (by decide) _ _).1.mp h).2
  exact absurd hexact (by decide)

end Local

section Shares
variable {n : ℕ}

theorem le_trackShare_iff {a t : UInt32} (hn : n < 2 ^ 32) :
    n ≤ (if t = 0 then u32Max else a / t).toNat ↔ n * t.toNat ≤ a.toNat := by
  split_ifs with ht
  · subst ht
    constructor
    · intro _
      rw [UInt32.toNat_zero, Nat.mul_zero]
      exact Nat.zero_le _
    · intro _
      exact Nat.le_of_lt_succ hn
  · have hpos : 0 < t.toNat := Nat.pos_of_ne_zero fun h => ht (UInt32.toNat_inj.mp h)
    rw [UInt32.toNat_div, Nat.le_div_iff_mul_le hpos]

theorem le_rateShare_iff {a b : UInt64} (hn : n < 2 ^ 32) :
    n ≤ (if b = 0 then u32Max else clampU32 (a / b)).toNat ↔ n * b.toNat ≤ a.toNat := by
  split_ifs with hb
  · subst hb
    constructor
    · intro _
      rw [UInt64.toNat_zero, Nat.mul_zero]
      exact Nat.zero_le _
    · intro _
      exact Nat.le_of_lt_succ hn
  · have hpos : 0 < b.toNat := Nat.pos_of_ne_zero fun h => hb (UInt64.toNat_inj.mp h)
    have hclamp : (clampU32 (a / b)).toNat = min (a / b).toNat (2 ^ 32 - 1) :=
      @toNat_clamp UInt32 _ (a / b).toNat
    rw [hclamp, UInt64.toNat_div, ← Nat.le_div_iff_mul_le hpos]
    omega

end Shares

section Mesh
variable (c : MediaCapacity) (profile : ParticipantProfile)

theorem MediaCapacity.meshParticipantCeiling_ne_zero : c.meshParticipantCeiling profile ≠ 0 := by
  intro h
  have hzero := congrArg UInt32.toNat h
  unfold MediaCapacity.meshParticipantCeiling at hzero
  rw [← word_toNat_uint32, toNat_saturatingAdd] at hzero
  simp at hzero

/-- The own tracks are taken off once, and every other participant brings as many. -/
theorem le_trackShare_own_iff {n a t : ℕ} (hn : 2 ≤ n) :
    (n - 1) * t ≤ a - t ↔ n * t ≤ a := by
  obtain ⟨m, rfl⟩ := Nat.exists_eq_add_of_le hn
  have hsplit : (2 + m) * t = (2 + m - 1) * t + t := by
    rw [show 2 + m - 1 = m + 1 by omega]
    ring
  have hown : t ≤ (2 + m - 1) * t := Nat.le_mul_of_pos_left t (by omega)
  omega

/-- The ceiling counts exactly the meshes that fit, and a node always counts itself. -/
theorem MediaCapacity.le_meshParticipantCeiling_iff :
    c.meshParticipantCeiling profile ≠ 0 ∧
    (profile.tracks.length < 2 ^ 32 → exactBitrate profile.tracks < 2 ^ 64 →
      ∀ n, 2 ≤ n → n < 2 ^ 32 →
        (n ≤ (c.meshParticipantCeiling profile).toNat ↔
          n * profile.tracks.length ≤ c.maxTracks.toNat ∧
          (n - 1) * exactBitrate profile.tracks ≤ c.maxSendBitrateBps.toNat ∧
          (n - 1) * exactBitrate profile.tracks ≤ c.maxRecvBitrateBps.toNat)) := by
  refine ⟨c.meshParticipantCeiling_ne_zero profile, fun hlength hrate n hn hlt => ?_⟩
  have htracks := profile.load_tracks hlength
  have hbitrate := profile.load_bitrateBps hrate
  have hshare : n - 1 < 2 ^ 32 := by omega
  have hown : (saturatingSub c.maxTracks profile.load.tracks).toNat =
      c.maxTracks.toNat - profile.load.tracks.toNat :=
    toNat_saturatingSub c.maxTracks profile.load.tracks
  have hby := le_trackShare_iff (a := saturatingSub c.maxTracks profile.load.tracks)
    (t := profile.load.tracks) hshare
  have hsend := le_rateShare_iff (a := c.maxSendBitrateBps) (b := profile.load.bitrateBps) hshare
  have hrecv := le_rateShare_iff (a := c.maxRecvBitrateBps) (b := profile.load.bitrateBps) hshare
  rw [hown, htracks, le_trackShare_own_iff hn] at hby
  rw [hbitrate] at hsend hrecv
  rw [← hby, ← hsend, ← hrecv]
  unfold MediaCapacity.meshParticipantCeiling
  rw [← word_toNat_uint32, toNat_saturatingAdd, word_toNat_uint32, toNat_min_uint32, toNat_min_uint32]
  simp only [word_toNat_uint32, UInt32.toNat_one, largest_uint32]
  omega

theorem MediaCapacity.le_meshParticipantCeiling_two :
    2 ≤ ((⟨8, 1200000, 1200000⟩ : MediaCapacity).meshParticipantCeiling
      ⟨[⟨none, .audio, .main, .sendRecv, none⟩, ⟨none, .video, .main, .sendRecv, none⟩]⟩).toNat :=
  ((MediaCapacity.le_meshParticipantCeiling_iff _ _).2 (by decide) (by decide) 2 (by decide)
    (by decide)).mpr (by decide)

end Mesh
end Dmtap.Rtc
