import Dmtap.Mail.Operations

/-! What every reachable store keeps: its mailboxes are ledgers under distinct names. -/
namespace Dmtap.Mail
open Lib

/-- The representation invariant of a mailbox. -/
structure Mailbox.Invariant (mb : Mailbox) : Prop where
  ascending : mb.messages.Pairwise fun m m' => m.uid < m'.uid
  uids : ∀ m ∈ mb.messages, 1 ≤ m.uid ∧ m.uid < mb.uidNext
  modseqs : ∀ m ∈ mb.messages, m.createdModseq ≤ m.modseq ∧ m.modseq ≤ mb.highestModseq
  expungedAscending : mb.expunged.Pairwise fun p p' => p.2 < p'.2
  expungedBounds : ∀ p ∈ mb.expunged, p.1 < mb.uidNext ∧ p.2 ≤ mb.highestModseq
  expungedDistinct : (mb.expunged.map Prod.fst).Nodup
  expungedApart : ∀ p ∈ mb.expunged, ∀ m ∈ mb.messages, p.1 ≠ m.uid
  appends : mb.uidNext = 1 + mb.messages.length + mb.expunged.length

namespace Mailbox
variable {mb mb' : Mailbox}

theorem mem_ledger_live {m : Message} (h : m ∈ mb.messages) : m.entry ∈ mb.ledger.live :=
  List.mem_map_of_mem h

theorem invariant_of_ledger (h : mb.ledger.WellFormed) : mb.Invariant where
  ascending := by
    have hasc : (mb.messages.map Message.entry).Pairwise fun e e' => e.key < e'.key := h.ascending
    have hmessages := List.pairwise_map.mp hasc
    exact hmessages
  uids := by
    intro m hm
    have hb := h.bounds m.entry (mem_ledger_live hm)
    exact ⟨hb.1, hb.2.1⟩
  modseqs := by
    intro m hm
    have hb := h.bounds m.entry (mem_ledger_live hm)
    exact ⟨hb.2.2.2.1, hb.2.2.2.2⟩
  expungedAscending := h.goneAscending
  expungedBounds := by
    intro p hp
    have hb := h.goneBounds p hp
    exact ⟨hb.2.1, hb.2.2.2⟩
  expungedDistinct := List.pairwise_map.mpr h.goneDistinct
  expungedApart := fun p hp m hm => h.apart p hp m.entry (mem_ledger_live hm)
  appends := by
    have hcount := h.count
    change mb.uidNext = 1 + (mb.messages.map Message.entry).length + mb.expunged.length at hcount
    rw [List.length_map] at hcount
    exact hcount

/-- The binary search finds a UID exactly where a message has it. -/
theorem Invariant.indexOfUid_eq_some_iff (h : mb.Invariant) (uid i : ℕ) :
    mb.indexOfUid uid = some i ↔ mb.messages[i]?.map Message.uid = some uid :=
  binarySearchBy_compare h.ascending uid i

/-- With fewer than `2 ^ 32 - 1` appends the next UID fits in 32 bits. -/
theorem Invariant.uidNext_lt (h : mb.Invariant)
    (happends : mb.messages.length + mb.expunged.length < 2 ^ 32 - 1) : mb.uidNext < 2 ^ 32 := by
  have hcount := h.appends
  omega

theorem Grows.counters (h : mb.Grows mb') :
    mb.uidNext ≤ mb'.uidNext ∧ mb.highestModseq ≤ mb'.highestModseq := by
  have hsince := h.ledger.since
  exact ⟨hsince.nextKey_le, hsince.clock_le⟩

end Mailbox

/-- The mailboxes are listed once each, and all are ledgers. -/
structure MemoryStore.WellFormed (s : MemoryStore) : Prop where
  distinct : s.order.Nodup
  listed : ∀ name, name ∈ s.order ↔ (s.mailbox name).isSome
  ledgers : ∀ name mb, s.mailbox name = some mb → mb.ledger.WellFormed

namespace MemoryStore
variable {s s' : MemoryStore}

theorem wellFormed_vacant : vacant.WellFormed where
  distinct := List.nodup_nil
  listed := fun _ => ⟨fun h => (nomatch h), fun h => (nomatch h)⟩
  ledgers := fun _ _ h => nomatch h

theorem WellFormed.insert (hs : s.WellFormed) {mb : Mailbox} (hname : s.mailbox mb.name = none)
    (hmb : mb.ledger.WellFormed) : (s.insert mb).WellFormed where
  distinct := by
    have hnot : mb.name ∉ s.order := by
      rw [hs.listed, hname]
      exact Bool.false_ne_true
    change (s.order ++ [mb.name]).Nodup
    rw [List.nodup_append]
    refine ⟨hs.distinct, List.nodup_singleton _, ?_⟩
    intro a ha b hb hab
    rw [List.mem_singleton.mp hb] at hab
    exact hnot (hab ▸ ha)
  listed := by
    intro name
    change name ∈ s.order ++ [mb.name] ↔ _
    rw [List.mem_append, List.mem_singleton, mailbox_insert, hs.listed]
    by_cases heq : name = mb.name
    · simp [heq]
    · simp [heq]
  ledgers := by
    intro name mb' hmb'
    rw [mailbox_insert] at hmb'
    split_ifs at hmb' with heq
    · cases hmb'
      exact hmb
    · exact hs.ledgers name mb' hmb'

theorem WellFormed.put (hs : s.WellFormed) {name : String} {mb mb' : Mailbox}
    (hmb : s.mailbox name = some mb) (hmb' : mb'.ledger.WellFormed) :
    (s.put name mb').WellFormed where
  distinct := hs.distinct
  listed := by
    intro n
    rw [mailbox_put]
    by_cases heq : n = name
    · have hn := hs.listed n
      rw [heq, hmb] at hn
      rw [if_pos heq, heq]
      exact hn
    · rw [if_neg heq]
      exact hs.listed n
  ledgers := by
    intro n mb₁ hmb₁
    rw [mailbox_put] at hmb₁
    split_ifs at hmb₁ with heq
    · cases hmb₁
      exact hmb'
    · exact hs.ledgers n mb₁ hmb₁

theorem WellFormed.erase (hs : s.WellFormed) (name : String) :
    WellFormed ⟨s.mailboxes.erase name, s.order.filter fun n => n ≠ name⟩ where
  distinct := hs.distinct.filter _
  listed := by
    intro n
    rw [mailbox_erase, List.mem_filter, hs.listed]
    by_cases heq : n = name
    · simp [heq]
    · simp [heq]
  ledgers := by
    intro n mb₁ hmb₁
    rw [mailbox_erase] at hmb₁
    split_ifs at hmb₁ with heq
    exact hs.ledgers n mb₁ hmb₁

theorem nodup_map_rename {l : List String} (hl : l.Nodup) {source target : String}
    (htarget : target ∉ l) : (l.map fun n => if n = source then target else n).Nodup := by
  refine List.Nodup.map_on ?_ hl
  intro a ha b hb hab
  have hne : ∀ n ∈ l, n ≠ target := fun n hn heq => htarget (heq ▸ hn)
  split_ifs at hab with hsource hsource' hsource'
  · rw [hsource, hsource']
  · exact absurd hab.symm (hne b hb)
  · exact absurd hab (hne a ha)
  · exact hab

theorem WellFormed.rename (hs : s.WellFormed) {source target : String} {mb mb' : Mailbox}
    (hmb : s.mailbox source = some mb) (htarget : s.mailbox target = none)
    (hmb' : mb'.ledger.WellFormed) :
    WellFormed ⟨(s.mailboxes.erase source).insert target mb',
      s.order.map fun n => if n = source then target else n⟩ := by
  have hnot : target ∉ s.order := by
    rw [hs.listed, htarget]
    exact Bool.false_ne_true
  have hsource : source ∈ s.order := by
    rw [hs.listed, hmb]
    rfl
  constructor
  · exact nodup_map_rename hs.distinct hnot
  · intro n
    rw [mailbox_rename, List.mem_map]
    constructor
    · rintro ⟨n₀, hn₀, rfl⟩
      by_cases heq : n₀ = source
      · simp [heq]
      · have hsome := (hs.listed n₀).mp hn₀
        have hne : n₀ ≠ target := fun h => hnot (h ▸ hn₀)
        simp [heq, hne, hsome]
    · intro hsome
      by_cases heq : n = target
      · exact ⟨source, hsource, by rw [if_pos rfl, heq]⟩
      · rw [if_neg heq] at hsome
        by_cases hns : n = source
        · rw [if_pos hns] at hsome
          cases hsome
        · rw [if_neg hns] at hsome
          exact ⟨n, (hs.listed n).mpr hsome, if_neg hns⟩
  · intro n mb₁ hmb₁
    rw [mailbox_rename] at hmb₁
    split_ifs at hmb₁ with heq hns
    · cases hmb₁
      exact hmb'
    · exact hs.ledgers n mb₁ hmb₁

theorem wellFormed_empty : empty.WellFormed :=
  wellFormed_vacant.insert rfl Ledger.wellFormed_start

theorem wellFormed_new : new.WellFormed := by
  have hstart : ∀ name role, (Mailbox.new name role).ledger.WellFormed := fun _ _ =>
    Ledger.wellFormed_start
  unfold new
  refine WellFormed.insert ?_ (by decide) (hstart _ _)
  refine WellFormed.insert ?_ (by decide) (hstart _ _)
  refine WellFormed.insert ?_ (by decide) (hstart _ _)
  refine WellFormed.insert ?_ (by decide) (hstart _ _)
  refine WellFormed.insert ?_ (by decide) (hstart _ _)
  exact wellFormed_empty

end MemoryStore

theorem Step.wellFormed {s s' : MemoryStore} {c : Call} (h : Step s c s') (hs : s.WellFormed) :
    s'.WellFormed := by
  cases h with
  | @edit name mb mb' hmb hedits =>
    exact hs.put hmb (hedits.grows.ledger.wellFormed (hs.ledgers name mb hmb))
  | @create name hname => exact hs.insert hname Ledger.wellFormed_start
  | @delete name mb hmb => exact hs.erase name
  | @rename source target mb hmb htarget =>
    have hledger : ({ mb with name := target } : Mailbox).ledger.WellFormed :=
      hs.ledgers source mb hmb
    exact hs.rename hmb htarget hledger

theorem Path.wellFormed {s s' : MemoryStore} {calls : List Call} (h : Path s calls s')
    (hs : s.WellFormed) : s'.WellFormed := by
  induction h with
  | nil s => exact hs
  | cons hstep _ ih => exact ih (hstep.wellFormed hs)

theorem Reachable.wellFormed {r : Renderers} {s : MemoryStore} (h : Reachable r s) :
    s.WellFormed := by
  obtain ⟨s₀, calls, hstart, hrun⟩ := h
  refine hrun.path.wellFormed ?_
  rcases hstart with rfl | rfl
  · exact MemoryStore.wellFormed_new
  · exact MemoryStore.wellFormed_empty

/-- In every reachable store every mailbox keeps its invariant, its binary search finds exactly
the UIDs of its messages, and its counters never decrease in any run from there, under whatever
name the run leaves it. -/
theorem Reachable.mailbox_invariant {r : Renderers} {s : MemoryStore} (h : Reachable r s)
    {name : String} {mb : Mailbox} (hmb : s.mailbox name = some mb) :
    mb.Invariant ∧
      (∀ uid i, mb.indexOfUid uid = some i ↔ mb.messages[i]?.map Message.uid = some uid) ∧
      (mb.messages.length + mb.expunged.length < 2 ^ 32 - 1 → mb.uidNext < 2 ^ 32) ∧
      ∀ calls s' name', Run r s calls s' → follow calls name = some name' →
        ∃ mb', s'.mailbox name' = some mb' ∧ mb.uidNext ≤ mb'.uidNext ∧
          mb.highestModseq ≤ mb'.highestModseq := by
  have hinvariant := Mailbox.invariant_of_ledger (h.wellFormed.ledgers name mb hmb)
  refine ⟨hinvariant, hinvariant.indexOfUid_eq_some_iff, hinvariant.uidNext_lt, ?_⟩
  intro calls s' name' hrun hname
  obtain ⟨mb', hmb', hgrows⟩ := hrun.path.follow hmb hname
  exact ⟨mb', hmb', hgrows.counters⟩

/-- After one delivery the message has UID 1, and a run that goes on keeps it so. -/
theorem mailbox_invariant_delivery : ∃ mb : Mailbox,
    (MemoryStore.new.deliverRaw "INBOX" [97] [.recent] 0).1.mailbox "INBOX" = some mb ∧
      mb.indexOfUid 1 = some 0 ∧ mb.Invariant := by
  have hreach : Reachable .blank (MemoryStore.new.deliverRaw "INBOX" [97] [.recent] 0).1 :=
    (reachable_new _).op (.deliverRaw "INBOX" [97] [.recent] 0) rfl
  have hsome : ((MemoryStore.new.deliverRaw "INBOX" [97] [.recent] 0).1.mailbox "INBOX").isSome :=
    by decide
  obtain ⟨mb, hmb⟩ := Option.isSome_iff_exists.mp hsome
  obtain ⟨hinvariant, hindex, -, -⟩ := hreach.mailbox_invariant hmb
  have huid : ((MemoryStore.new.deliverRaw "INBOX" [97] [.recent] 0).1.mailbox "INBOX").map
      (fun mb => mb.messages[0]?.map Message.uid) = some (some 1) := by decide
  rw [hmb, Option.map_some] at huid
  exact ⟨mb, hmb, (hindex 1 0).mpr (Option.some.inj huid), hinvariant⟩

end Dmtap.Mail
