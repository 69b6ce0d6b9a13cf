import Dmtap.Lib.Positions
import Dmtap.Lib.Sorting
import Dmtap.Mail.Imap.Session
import Dmtap.Mail.Invariant

/-! The messages a sequence set selects: each message the set names, once, in ascending order. -/
namespace Dmtap.Mail.Imap
open Lib

theorem SequenceSet.contains_iff (set : SequenceSet) (val max : ℕ) :
    set.contains val max = true ↔ ∃ r ∈ set.rangesResolved max, r.1 ≤ val ∧ val ≤ r.2 := by
  unfold contains rangesResolved
  rw [List.any_eq_true]
  constructor
  · rintro ⟨r, hr, hval⟩
    refine ⟨_, List.mem_map_of_mem hr, ?_⟩
    dsimp only at hval ⊢
    rw [Bool.and_eq_true, decide_eq_true_eq, decide_eq_true_eq] at hval
    exact hval
  · rintro ⟨r', hr', hval⟩
    obtain ⟨r, hr, rfl⟩ := List.mem_map.mp hr'
    refine ⟨r, hr, ?_⟩
    dsimp only at hval ⊢
    rw [Bool.and_eq_true, decide_eq_true_eq, decide_eq_true_eq]
    exact hval

/-- The saved numbers, put in for the reference to them, are the numbers contained. -/
theorem SequenceSet.contains_fromUids (nums : List ℕ) (val max : ℕ) :
    (fromUids nums).contains val max = true ↔ val ∈ nums := by
  rw [contains_iff]
  unfold fromUids rangesResolved
  dsimp only
  rw [List.map_map]
  constructor
  · rintro ⟨r, hr, hlo, hhi⟩
    obtain ⟨n, hn, rfl⟩ := List.mem_map.mp hr
    simp only [Function.comp_apply, Point.resolve, le_refl, if_true] at hlo hhi
    rw [Nat.le_antisymm hhi hlo]
    exact hn
  · intro hval
    refine ⟨_, List.mem_map_of_mem hval, ?_⟩
    simp [Point.resolve]

section Resolve
variable {mb : Mailbox}

theorem uid_lt_of_lt (hasc : mb.messages.Pairwise fun m m' => m.uid < m'.uid) {i j : ℕ}
    {m m' : Message} (hij : i < j) (hm : mb.messages[i]? = some m)
    (hm' : mb.messages[j]? = some m') : m.uid < m'.uid := by
  obtain ⟨hi, rfl⟩ := List.getElem?_eq_some_iff.mp hm
  obtain ⟨hj, rfl⟩ := List.getElem?_eq_some_iff.mp hm'
  exact List.pairwise_iff_getElem.mp hasc i j hi hj hij

/-- The window of a range of UIDs: its left edge is found by halving, its right edge by walking. -/
theorem mem_window_iff (hasc : mb.messages.Pairwise fun m m' => m.uid < m'.uid) (lo hi i : ℕ) :
    i ∈ List.range' (partitionPoint (fun m => m.uid < lo) mb.messages)
        ((mb.messages.drop (partitionPoint (fun m => m.uid < lo) mb.messages)).takeWhile
          fun m => m.uid ≤ hi).length ↔
      ∃ m, mb.messages[i]? = some m ∧ lo ≤ m.uid ∧ m.uid ≤ hi := by
  have hstart : ∀ {i : ℕ} {m : Message}, mb.messages[i]? = some m →
      (i < partitionPoint (fun m => m.uid < lo) mb.messages ↔ m.uid < lo) := by
    intro i m hm
    rw [lt_partitionPoint_iff _ hm, decide_eq_true_eq]
    intro i j x y hij hx hy hlt
    rw [decide_eq_true_eq] at hlt ⊢
    exact (uid_lt_of_lt hasc hij hx hy).trans hlt
  generalize partitionPoint (fun m => m.uid < lo) mb.messages = start at hstart
  have hwalk : (mb.messages.drop start).Pairwise fun m m' =>
      decide (m'.uid ≤ hi) = true → decide (m.uid ≤ hi) = true := by
    refine (hasc.sublist (List.drop_sublist start _)).imp fun hlt hle => ?_
    rw [decide_eq_true_eq] at hle ⊢
    exact (le_of_lt hlt).trans hle
  rw [List.mem_range'_1]
  constructor
  · rintro ⟨hle, hlt⟩
    obtain ⟨m, hm, hhi⟩ := (lt_length_takeWhile_iff hwalk).mp
      (show i - start < _ by omega)
    rw [List.getElem?_drop, Nat.add_sub_cancel' hle] at hm
    refine ⟨m, hm, ?_, of_decide_eq_true hhi⟩
    exact Nat.le_of_not_lt fun hlo => absurd ((hstart hm).mpr hlo) (Nat.not_lt.mpr hle)
  · rintro ⟨m, hm, hlo, hhi⟩
    have hle : start ≤ i :=
      Nat.le_of_not_lt fun hlt => absurd ((hstart hm).mp hlt) (Nat.not_lt.mpr hlo)
    have hlt := (lt_length_takeWhile_iff hwalk (i := i - start)).mpr
      ⟨m, by rw [List.getElem?_drop, Nat.add_sub_cancel' hle]; exact hm, decide_eq_true hhi⟩
    exact ⟨hle, by omega⟩

/-- The set names the message at an index: by its UID or by its number. -/
def named (mb : Mailbox) (set : SequenceSet) (uidMode : Bool) (p : Message × ℕ) : Bool :=
  if uidMode then set.contains p.1.uid mb.maxUid else set.contains (p.2 + 1) mb.exists'

theorem mem_resolveTargets (hasc : mb.messages.Pairwise fun m m' => m.uid < m'.uid)
    (set : SequenceSet) (uidMode : Bool) (i : ℕ) :
    i ∈ resolveTargets mb set uidMode ↔
      ∃ m, mb.messages[i]? = some m ∧ named mb set uidMode (m, i) = true := by
  unfold resolveTargets named
  dsimp only
  rw [mem_dedup_insertionSort]
  cases uidMode with
  | true =>
    rw [if_pos rfl, List.mem_flatMap]
    simp only [mem_window_iff hasc, if_pos, SequenceSet.contains_iff]
    constructor
    · rintro ⟨r, hr, m, hm, hval⟩
      exact ⟨m, hm, r, hr, hval⟩
    · rintro ⟨m, hm, r, hr, hval⟩
      exact ⟨r, hr, m, hm, hval⟩
  | false =>
    rw [if_neg Bool.false_ne_true, List.mem_flatMap]
    simp only [List.mem_range'_1, if_neg Bool.false_ne_true, SequenceSet.contains_iff]
    constructor
    · rintro ⟨r, hr, hlo, hhi⟩
      have hi : i < mb.messages.length := by
        unfold Mailbox.exists' at hhi
        omega
      exact ⟨_, List.getElem?_eq_getElem hi, r, hr, by omega⟩
    · rintro ⟨m, hm, r, hr, hval⟩
      have hi : i < mb.exists' := (List.getElem?_eq_some_iff.mp hm).1
      exact ⟨r, hr, by omega⟩

theorem resolveTargets_eq (hasc : mb.messages.Pairwise fun m m' => m.uid < m'.uid)
    (set : SequenceSet) (uidMode : Bool) :
    resolveTargets mb set uidMode = positions (named mb set uidMode) mb.messages := by
  refine eq_positions ?_ (mem_resolveTargets hasc set uidMode)
  unfold resolveTargets
  dsimp only
  exact pairwise_dedup_insertionSort _

end Resolve

namespace Session

/-- The set means the message at an index: the set names it or, where the set is the reference to
the saved result, the last saved search found it. -/
def denotes {σ : Type} (s : Session σ) (mb : Mailbox) (set : SequenceSet) (uidMode : Bool)
    (p : Message × ℕ) : Bool :=
  if set.isSaved then s.savedSearch.contains p.1.uid else named mb set uidMode p

section Denotes
variable {σ : Type} [MailStore σ] {s : Session σ} {mb : Mailbox}

theorem named_materialize (hasc : mb.messages.Pairwise fun m m' => m.uid < m'.uid)
    (hmb : s.selected.bind (MailStore.mailbox s.store) = some mb) (set : SequenceSet)
    (uidMode : Bool) {m : Message} {i : ℕ} (hm : mb.messages[i]? = some m) :
    named mb (s.materialize set uidMode) uidMode (m, i) = s.denotes mb set uidMode (m, i) := by
  have hindex := binarySearchBy_compare hasc
  unfold materialize denotes
  cases set.isSaved with
  | false => rfl
  | true =>
    rw [if_neg (by simp), if_pos rfl]
    apply Bool.eq_iff_iff.mpr
    rw [List.contains_iff_mem]
    cases uidMode with
    | true => exact SequenceSet.contains_fromUids _ _ _
    | false =>
      rw [if_neg Bool.false_ne_true, hmb]
      unfold named
      rw [if_neg Bool.false_ne_true, SequenceSet.contains_fromUids, List.mem_filterMap]
      unfold Mailbox.seqOfUid Mailbox.indexOfUid
      constructor
      · rintro ⟨u, hu, hseq⟩
        obtain ⟨j, hj, hji⟩ := Option.map_eq_some_iff.mp hseq
        rw [Nat.succ.inj hji, hindex, hm] at hj
        rw [show m.uid = u from Option.some.inj hj]
        exact hu
      · intro hmem
        refine ⟨m.uid, hmem, ?_⟩
        rw [(hindex m.uid i).mpr (by rw [hm]; rfl)]
        rfl

/-- The targets of a command are the positions of the messages its set means. -/
theorem resolveTargets_materialize (hasc : mb.messages.Pairwise fun m m' => m.uid < m'.uid)
    (hmb : s.selected.bind (MailStore.mailbox s.store) = some mb) (set : SequenceSet)
    (uidMode : Bool) :
    resolveTargets mb (s.materialize set uidMode) uidMode =
      positions (s.denotes mb set uidMode) mb.messages := by
  rw [resolveTargets_eq hasc]
  exact positions_congr fun m i hm => named_materialize hasc hmb set uidMode hm

omit [MailStore σ] in
/-- SEARCH on a set finds the positions of the messages the set means. -/
theorem searchMatches_set (views : Views) (set : SequenceSet) (uidMode : Bool) :
    searchMatches views mb (if uidMode then .uid set else .seq set) s.savedSearch =
      positions (s.denotes mb set uidMode) mb.messages := by
  unfold searchMatches positions
  congr 1
  apply List.filter_congr
  intro p _
  unfold denotes named
  cases uidMode with
  | true =>
    rw [if_pos rfl, if_pos rfl]
    rfl
  | false =>
    rw [if_neg Bool.false_ne_true, if_neg Bool.false_ne_true]
    rfl

end Denotes

/-- The resolver returns, in ascending order, the indices of the messages the set contains, by UID
or by number, and for every session on the mailbox these are the ones SEARCH finds on that set. -/
theorem resolveTargets_spec {mb : Mailbox}
    (hasc : mb.messages.Pairwise fun m m' => m.uid < m'.uid) (set : SequenceSet) :
    (∀ uidMode, (resolveTargets mb set uidMode).Pairwise (· < ·)) ∧
    (∀ i, i ∈ resolveTargets mb set true ↔
      ∃ m, mb.messages[i]? = some m ∧ set.contains m.uid mb.maxUid = true) ∧
    (∀ i, i ∈ resolveTargets mb set false ↔
      i < mb.exists' ∧ set.contains (i + 1) mb.exists' = true) ∧
    ∀ (σ : Type) [MailStore σ] (views : Views) (s : Session σ),
      s.selected.bind (MailStore.mailbox s.store) = some mb → ∀ uidMode,
        resolveTargets mb (s.materialize set uidMode) uidMode =
          searchMatches views mb (if uidMode then .uid set else .seq set) s.savedSearch := by
  refine ⟨?_, ?_, ?_, ?_⟩
  · intro uidMode
    rw [resolveTargets_eq hasc]
    exact positions_ascending _ _
  · exact mem_resolveTargets hasc set true
  · intro i
    rw [mem_resolveTargets hasc]
    constructor
    · rintro ⟨m, hm, hval⟩
      exact ⟨(List.getElem?_eq_some_iff.mp hm).1, hval⟩
    · rintro ⟨hi, hval⟩
      exact ⟨_, List.getElem?_eq_getElem hi, hval⟩
  · intro σ _ views s hmb uidMode
    rw [resolveTargets_materialize hasc hmb, searchMatches_set]

/-- INBOX with three messages. -/
def spaced : Mailbox :=
  { Mailbox.new "INBOX" (some .inbox) with
    messages := [Message.new 3 [] 0 1 [], Message.new 5 [] 0 1 [], Message.new 9 [] 0 1 []] }

/-- `8:4,*` by UID, on INBOX with the UIDs 3, 5 and 9. -/
theorem resolveTargets_spec_spaced :
    1 ∈ resolveTargets spaced ⟨[(.num 8, .num 4), (.star, .star)], false⟩ true ∧
      2 ∈ resolveTargets spaced ⟨[(.num 8, .num 4), (.star, .star)], false⟩ true := by
  have hasc : spaced.messages.Pairwise fun m m' => m.uid < m'.uid := by decide
  have hspec := (resolveTargets_spec hasc ⟨[(.num 8, .num 4), (.star, .star)], false⟩).2.1
  constructor
  · exact (hspec 1).mpr ⟨Message.new 5 [] 0 1 [], rfl, by decide⟩
  · exact (hspec 2).mpr ⟨Message.new 9 [] 0 1 [], rfl, by decide⟩

section Write
variable (mb : Mailbox)

theorem removeAll_cons (i : ℕ) (indices : List ℕ) :
    (removeAll mb (i :: indices)).1 = ((removeAll mb indices).1.removeAt i).2 ∧
      (removeAll mb (i :: indices)).2 =
        (removeAll mb indices).2 ++ ((removeAll mb indices).1.removeAt i).1.toList := by
  unfold removeAll
  rw [List.foldl_reverse, List.foldl_reverse, List.foldr_cons]
  generalize indices.foldr _ (mb, ([] : List ℕ)) = acc
  rcases acc.1.removeAt i with ⟨uid, mb'⟩
  cases uid with
  | none => exact ⟨rfl, (List.append_nil _).symm⟩
  | some uid => exact ⟨rfl, rfl⟩

theorem removeAt_messages (i : ℕ) : (mb.removeAt i).2.messages = mb.messages.eraseIdx i := by
  unfold Mailbox.removeAt
  cases hi : mb.messages[i]? with
  | none => exact (List.eraseIdx_of_length_le (List.getElem?_eq_none_iff.mp hi)).symm
  | some m => rfl

theorem removeAll_messages (indices : List ℕ) :
    (removeAll mb indices).1.messages = eraseAll indices mb.messages := by
  induction indices with
  | nil => rfl
  | cons i indices ih => rw [(removeAll_cons mb i indices).1, removeAt_messages, ih, eraseAll_cons]

/-- The UIDs come back in the order of their removal. -/
theorem removeAll_uids {indices : List ℕ} (hasc : indices.Pairwise (· < ·)) :
    (removeAll mb indices).2 =
      (indices.filterMap fun i => mb.messages[i]?.map Message.uid).reverse := by
  induction indices with
  | nil => rfl
  | cons i indices ih =>
    obtain ⟨hi, hrest⟩ := List.pairwise_cons.mp hasc
    have hget : (removeAll mb indices).1.messages[i]? = mb.messages[i]? := by
      rw [removeAll_messages]
      exact getElem?_eraseAll hi
    rw [(removeAll_cons mb i indices).2, ih hrest]
    unfold Mailbox.removeAt
    rw [hget]
    cases hm : mb.messages[i]? with
    | none => simp [hm]
    | some m => simp [hm]

/-- The messages a mailbox files for copies of others: the next UIDs, one after the other. -/
def copies : List Message → List Message :=
  fun l => l.zipIdx.map fun p =>
    Message.new (mb.uidNext + p.2) p.1.flags p.1.internalDate (mb.highestModseq + p.2 + 1) p.1.raw

theorem copies_cons (m : Message) (l : List Message) :
    copies mb (m :: l) = Message.new mb.uidNext m.flags m.internalDate (mb.highestModseq + 1) m.raw ::
      copies (mb.append m.raw m.flags m.internalDate).2 l := by
  unfold copies
  rw [List.zipIdx_cons, List.zipIdx_succ, List.map_cons, List.map_map]
  congr 1
  apply List.map_congr_left
  intro p _
  simp only [Function.comp_apply, Mailbox.append]
  congr 1
  · omega
  · omega

/-- One step of filing copies. -/
def appendOne (acc : Mailbox × List ℕ) (p : ℕ × Message) : Mailbox × List ℕ :=
  ((acc.1.append p.2.raw p.2.flags p.2.internalDate).2,
    acc.2 ++ [(acc.1.append p.2.raw p.2.flags p.2.internalDate).1])

theorem foldl_appendOne (copied : List (ℕ × Message)) (mb : Mailbox) (uids : List ℕ) :
    (copied.foldl appendOne (mb, uids)).1.messages =
        mb.messages ++ copies mb (copied.map Prod.snd) ∧
      (copied.foldl appendOne (mb, uids)).2 = uids ++ List.range' mb.uidNext copied.length := by
  induction copied generalizing mb uids with
  | nil => simp [copies]
  | cons p copied ih =>
    rw [List.foldl_cons, List.map_cons, copies_cons, List.length_cons, List.range'_succ]
    obtain ⟨hmessages, huids⟩ :=
      ih (mb.append p.2.raw p.2.flags p.2.internalDate).2 (uids ++ [mb.uidNext])
    constructor
    · refine hmessages.trans ?_
      rw [show (mb.append p.2.raw p.2.flags p.2.internalDate).2.messages =
        mb.messages ++ [Message.new mb.uidNext p.2.flags p.2.internalDate (mb.highestModseq + 1)
          p.2.raw] from rfl, List.append_assoc, List.singleton_append]
    · refine huids.trans ?_
      rw [List.append_assoc, List.singleton_append]
      rfl

theorem appendAll_spec (copied : List (ℕ × Message)) :
    (appendAll mb copied).1.messages = mb.messages ++ copies mb (copied.map Prod.snd) ∧
      (appendAll mb copied).2 = List.range' mb.uidNext copied.length :=
  foldl_appendOne copied mb []

end Write

/-- A session that has INBOX selected. -/
def opened (store : MemoryStore) (readOnly : Bool) : Session MemoryStore :=
  { new store (.issued "alice" "pw" [1]) true with
    state := .selected
    identity := some [1]
    selected := some "INBOX"
    readOnly := readOnly }

theorem reachable_processed {store : MemoryStore} (h : Reachable .blank store) (line : Bytes) :
    Reachable .blank
      ((((opened store false).process .blank line).map fun r => r.1.store).getD store) := by
  cases hprocess : (opened store false).process .blank line with
  | none => exact h
  | some r =>
    refine h.op (.imap (opened MemoryStore.new false) line) ?_
    change ((opened store false).process .blank line).map _ = _
    rw [hprocess]
    rfl

end Session
end Dmtap.Mail.Imap
