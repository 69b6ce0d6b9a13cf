import Dmtap.Mail.Imap.Targets

/-! STORE: what it makes of the flags of a message, and which messages a conditional one leaves. -/
namespace Dmtap.Mail
open Lib

namespace Message
variable (m : Message) (f g : Flag)

theorem mem_setFlag : g ∈ (m.setFlag f).flags ↔ g ∈ m.flags ∨ g = f := by
  unfold setFlag
  by_cases hf : f ∈ m.flags
  · rw [if_pos (List.contains_iff_mem.mpr hf)]
    constructor
    · exact Or.inl
    · intro h
      cases h with
      | inl h => exact h
      | inr h => exact h ▸ hf
  · rw [if_neg (fun h => hf (List.contains_iff_mem.mp h))]
    simp

theorem mem_clearFlag : g ∈ (m.clearFlag f).flags ↔ g ∈ m.flags ∧ g ≠ f := by
  simp [clearFlag]

variable {m}

theorem nodup_setFlag (h : m.flags.Nodup) : (m.setFlag f).flags.Nodup := by
  unfold setFlag
  by_cases hf : f ∈ m.flags
  · rw [if_pos (List.contains_iff_mem.mpr hf)]
    exact h
  · rw [if_neg (fun hmem => hf (List.contains_iff_mem.mp hmem))]
    have hnew : (m.flags ++ [f]).Nodup := List.nodup_append.mpr
      ⟨h, List.nodup_singleton f, fun a ha b hb hab =>
        hf (List.mem_singleton.mp hb ▸ hab ▸ ha)⟩
    exact hnew

theorem nodup_clearFlag (h : m.flags.Nodup) : (m.clearFlag f).flags.Nodup := h.filter _

end Message

namespace Imap

section Flags
variable (m : Message) (op : StoreOp) (flags : List Flag)

theorem mem_addFlags (g : Flag) :
    g ∈ (flags.foldl (fun msg f => if f ≠ .recent then msg.setFlag f else msg) m).flags ↔
      g ∈ m.flags ∨ (g ∈ flags ∧ g ≠ .recent) := by
  induction flags generalizing m with
  | nil => simp
  | cons f flags ih =>
    rw [List.foldl_cons, ih, List.mem_cons]
    by_cases hf : f = .recent
    · have hskip : g = f → ¬g ≠ .recent := fun hg hne => hne (hg.trans hf)
      rw [if_neg (not_not.mpr hf)]
      tauto
    · have hkeep : g = f → g ≠ .recent := fun hg hr => hf (hg.symm.trans hr)
      rw [if_pos hf, Message.mem_setFlag]
      tauto

theorem nodup_addFlags (h : m.flags.Nodup) :
    (flags.foldl (fun msg f => if f ≠ .recent then msg.setFlag f else msg) m).flags.Nodup := by
  induction flags generalizing m with
  | nil => exact h
  | cons f flags ih =>
    rw [List.foldl_cons]
    by_cases hf : f = .recent
    · rw [if_neg (not_not.mpr hf)]
      exact ih m h
    · rw [if_pos hf]
      exact ih _ (Message.nodup_setFlag f h)

theorem mem_removeFlags (g : Flag) :
    g ∈ (flags.foldl (fun msg f => msg.clearFlag f) m).flags ↔ g ∈ m.flags ∧ g ∉ flags := by
  induction flags generalizing m with
  | nil => simp
  | cons f flags ih =>
    rw [List.foldl_cons, ih, Message.mem_clearFlag, List.mem_cons]
    tauto

theorem nodup_removeFlags (h : m.flags.Nodup) :
    (flags.foldl (fun msg f => msg.clearFlag f) m).flags.Nodup := by
  induction flags generalizing m with
  | nil => exact h
  | cons f flags ih => exact ih _ (Message.nodup_clearFlag f h)

/-- What a STORE asks of one flag, by the flags before and the flags it gives. -/
def StoreOp.Asks (old given : List Flag) (f : Flag) : StoreOp → Prop
  | .replace => f ∈ given
  | .add => f ∈ old ∨ f ∈ given
  | .remove => f ∈ old ∧ f ∉ given

/-- STORE treats the flags as a set and leaves `\Recent` as it was. -/
structure StoresAsSet : Prop where
  asked : ∀ f, f ≠ .recent →
    (f ∈ (applyStore m op flags).flags ↔ op.Asks m.flags flags f)
  recent : Flag.recent ∈ (applyStore m op flags).flags ↔ Flag.recent ∈ m.flags
  distinct : (applyStore m op flags).flags.Nodup

/-- The flags given as a replacement do not repeat, and `\Recent` is not taken from a message that
has it. -/
def StoreOp.Clean : StoreOp → Prop
  | .replace => (flags.filter fun f => f ≠ .recent).Nodup
  | .add => True
  | .remove => Flag.recent ∈ m.flags → Flag.recent ∉ flags

/-- A replacement: the given flags but `\Recent`, and that one where it was. -/
theorem flags_replace :
    (applyStore m .replace flags).flags = (flags.filter fun f => f ≠ .recent) ++
      if Flag.recent ∈ m.flags then [.recent] else [] := by
  have hnot : ¬(flags.filter fun f => f ≠ .recent).contains Flag.recent = true := by
    rw [List.contains_iff_mem, List.mem_filter]
    simp
  unfold applyStore Message.hasFlag
  dsimp only
  by_cases hrecent : Flag.recent ∈ m.flags
  · rw [if_pos (List.contains_iff_mem.mpr hrecent), if_pos hrecent]
    unfold Message.setFlag
    rw [if_neg hnot]
  · rw [if_neg (fun h => hrecent (List.contains_iff_mem.mp h)), if_neg hrecent, List.append_nil]

theorem mem_replaceFlags (g : Flag) : g ∈ (applyStore m .replace flags).flags ↔
    g ∈ flags ∧ g ≠ .recent ∨ g = .recent ∧ Flag.recent ∈ m.flags := by
  rw [flags_replace, List.mem_append, List.mem_filter, decide_eq_true_eq]
  apply or_congr Iff.rfl
  split_ifs with hrecent
  · simp [hrecent]
  · simp [hrecent]

theorem nodup_replaceFlags : (applyStore m .replace flags).flags.Nodup ↔
    (flags.filter fun f => f ≠ .recent).Nodup := by
  have hapart : ∀ a ∈ flags.filter (fun f => f ≠ .recent), ∀ b ∈ [Flag.recent], a ≠ b := by
    intro a ha b hb
    rw [List.mem_singleton.mp hb]
    exact of_decide_eq_true (List.mem_filter.mp ha).2
  rw [flags_replace]
  split_ifs
  · rw [List.nodup_append]
    constructor
    · exact And.left
    · intro hdistinct
      exact ⟨hdistinct, List.nodup_singleton _, hapart⟩
  · rw [List.append_nil]

/-- STORE has the semantics of a set exactly when its flags are clean for its operation. -/
theorem storesAsSet_iff (h : m.flags.Nodup) :
    StoresAsSet m op flags ↔ op.Clean m flags := by
  cases op with
  | replace =>
    constructor
    · intro hset
      exact (nodup_replaceFlags m flags).mp hset.distinct
    · intro hclean
      constructor
      · intro f hf
        rw [mem_replaceFlags]
        unfold StoreOp.Asks
        simp [hf]
      · rw [mem_replaceFlags]
        simp
      · exact (nodup_replaceFlags m flags).mpr hclean
  | add =>
    constructor
    · intro _
      trivial
    · intro _
      constructor
      · intro f hf
        refine (mem_addFlags m flags f).trans ?_
        unfold StoreOp.Asks
        simp [hf]
      · refine (mem_addFlags m flags .recent).trans ?_
        simp
      · exact nodup_addFlags m flags h
  | remove =>
    constructor
    · intro hset hrecent
      exact ((mem_removeFlags m flags .recent).mp (hset.recent.mpr hrecent)).2
    · intro hclean
      constructor
      · exact fun f _ => mem_removeFlags m flags f
      · refine (mem_removeFlags m flags .recent).trans ?_
        constructor
        · exact And.left
        · exact fun hrecent => ⟨hrecent, hclean hrecent⟩
      · exact nodup_removeFlags m flags h

/-- Flags given twice in an addition are there once. -/
theorem storesAsSet_add :
    StoresAsSet (Message.new 1 [.recent, .seen] 0 1 []) .add [.flagged, .recent, .flagged] :=
  (storesAsSet_iff (Message.new 1 [.recent, .seen] 0 1 []) .add [.flagged, .recent, .flagged]
    (by decide)).mpr trivial

/-- A client takes `\Recent` from a message. -/
theorem storesAsSet_recent : ¬∀ (m : Message) (op : StoreOp) (flags : List Flag),
    m.flags.Nodup → StoresAsSet m op flags := by
  intro h
  have hset := h (Message.new 1 [.recent] 0 1 []) .remove [.recent] (by decide)
  have hgone : Flag.recent ∉
      (applyStore (Message.new 1 [.recent] 0 1 []) .remove [.recent]).flags := by decide
  exact hgone (hset.recent.mpr (by decide))

end Flags

/-- The numbers in the MODIFIED code of a status line. -/
def Reply.modified : Reply → List ℕ
  | .status _ _ (some (.modified nums)) _ => nums
  | _ => []

/-- A mailbox after a STORE that leaves the messages changed since `uc`: of the targets the others
have new flags and a larger modification sequence, and everything else is as it was. -/
structure StoredUnchanged (sc : StoreCommand) (uc : ℕ) (target : Message × ℕ → Bool)
    (mb mb' : Mailbox) : Prop where
  length : mb'.messages.length = mb.messages.length
  changed : ∀ m i, mb.messages[i]? = some m → target (m, i) = true → m.modseq ≤ uc →
    ∃ q, m.modseq < q ∧
      mb'.messages[i]? = some { applyStore m sc.op sc.flags with modseq := q }
  kept : ∀ m i, mb.messages[i]? = some m → ¬(target (m, i) = true ∧ m.modseq ≤ uc) →
    mb'.messages[i]? = some m

namespace Session

section Fold
variable {sc : StoreCommand} {uc : ℕ} (condstore : Bool)

/-- What STORE makes of one message, and whether its UID is reported as modified. -/
theorem storeOne_cases (hcond : sc.unchangedsince = some uc) (acc : Mailbox × List Reply × List ℕ)
    {i : ℕ} {m : Message} (hm : acc.1.messages[i]? = some m) :
    (uc < m.modseq ∧ storeOne sc condstore acc i = (acc.1, acc.2.1, acc.2.2 ++ [m.uid])) ∨
    (m.modseq ≤ uc ∧ ∃ lines, (∀ r ∈ lines, Reply.modified r = []) ∧
      storeOne sc condstore acc i =
        (acc.1.touch i fun m => applyStore m sc.op sc.flags, acc.2.1 ++ lines, acc.2.2)) := by
  obtain ⟨mb, out, modified⟩ := acc
  unfold storeOne
  dsimp only at hm ⊢
  rw [hm, hcond]
  dsimp only
  rw [Option.map_some, Option.getD_some]
  by_cases hold : uc < m.modseq
  · rw [if_pos (decide_eq_true hold)]
    exact Or.inl ⟨hold, rfl⟩
  · rw [if_neg (by simp [hold])]
    refine Or.inr ⟨Nat.le_of_not_lt hold, ?_⟩
    cases sc.silent with
    | true => exact ⟨[], fun r hr => absurd hr List.not_mem_nil, by simp⟩
    | false =>
      refine ⟨[.untagged (.fetch (i + 1) _)], ?_, rfl⟩
      intro r hr
      rw [List.mem_singleton.mp hr]
      rfl

theorem getElem?_touch (mb : Mailbox) (i j : ℕ) (f : Message → Message) :
    (mb.touch i f).messages[j]? =
      if i = j then (mb.messages[j]?).map fun m => { f m with modseq := mb.highestModseq + 1 }
      else mb.messages[j]? := by
  unfold Mailbox.touch
  dsimp only
  rw [List.getElem?_modify]
  split_ifs
  · rfl
  · simp

/-- What STORE makes of the messages at some places. -/
structure Stored (sc : StoreCommand) (uc : ℕ) (indices : List ℕ)
    (acc acc' : Mailbox × List Reply × List ℕ) : Prop where
  length : acc'.1.messages.length = acc.1.messages.length
  clock : acc.1.highestModseq ≤ acc'.1.highestModseq
  changed : ∀ m i, acc.1.messages[i]? = some m → i ∈ indices → m.modseq ≤ uc →
    ∃ q, acc.1.highestModseq < q ∧
      acc'.1.messages[i]? = some { applyStore m sc.op sc.flags with modseq := q }
  kept : ∀ m i, acc.1.messages[i]? = some m → ¬(i ∈ indices ∧ m.modseq ≤ uc) →
    acc'.1.messages[i]? = some m
  reported : ∀ u, u ∈ acc'.2.2 ↔ u ∈ acc.2.2 ∨
    ∃ m i, acc.1.messages[i]? = some m ∧ i ∈ indices ∧ uc < m.modseq ∧ u = m.uid
  quiet : (∀ r ∈ acc.2.1, Reply.modified r = []) → ∀ r ∈ acc'.2.1, Reply.modified r = []

theorem stored_nil (acc : Mailbox × List Reply × List ℕ) : Stored sc uc [] acc acc where
  length := rfl
  clock := Nat.le_refl _
  changed := fun _ _ _ hi => absurd hi List.not_mem_nil
  kept := fun _ _ hm _ => hm
  reported := by simp
  quiet := id

/-- A message that changed since is left alone, and its UID is reported. -/
theorem stored_skip {acc acc' : Mailbox × List Reply × List ℕ} {i : ℕ} {indices : List ℕ}
    {m : Message} (hm : acc.1.messages[i]? = some m) (hold : uc < m.modseq)
    (h : Stored sc uc indices (acc.1, acc.2.1, acc.2.2 ++ [m.uid]) acc') :
    Stored sc uc (i :: indices) acc acc' := by
  constructor
  · exact h.length
  · exact h.clock
  · intro m' j hm' hj hle
    cases List.mem_cons.mp hj with
    | inl hji =>
      rw [hji, hm] at hm'
      rw [← Option.some.inj hm'] at hle
      omega
    | inr hj => exact h.changed m' j hm' hj hle
  · intro m' j hm' hnot
    exact h.kept m' j hm' fun hand => hnot ⟨List.mem_cons_of_mem i hand.1, hand.2⟩
  · intro u
    rw [h.reported]
    dsimp only
    rw [List.mem_append, List.mem_singleton, or_assoc]
    apply or_congr Iff.rfl
    constructor
    · intro hu
      cases hu with
      | inl hu => exact ⟨m, i, hm, List.mem_cons_self, hold, hu⟩
      | inr hu =>
        obtain ⟨m', j, hm', hj, hu⟩ := hu
        exact ⟨m', j, hm', List.mem_cons_of_mem i hj, hu⟩
    · intro ⟨m', j, hm', hj, hlt, hu⟩
      cases List.mem_cons.mp hj with
      | inl hji =>
        rw [hji, hm] at hm'
        rw [← Option.some.inj hm'] at hu
        exact Or.inl hu
      | inr hj => exact Or.inr ⟨m', j, hm', hj, hlt, hu⟩
  · exact h.quiet

/-- A message is given its flags and the next modification sequence. No later place is the same, so
what a later visit reads is what was there before. -/
theorem stored_touch {acc acc' : Mailbox × List Reply × List ℕ} {i : ℕ} {indices : List ℕ}
    (hi : i ∉ indices) {m : Message} (hm : acc.1.messages[i]? = some m) (hnew : m.modseq ≤ uc)
    {lines : List Reply} (hlines : ∀ r ∈ lines, Reply.modified r = [])
    (h : Stored sc uc indices
      (acc.1.touch i fun m => applyStore m sc.op sc.flags, acc.2.1 ++ lines, acc.2.2) acc') :
    Stored sc uc (i :: indices) acc acc' := by
  have hother : ∀ {j : ℕ}, j ≠ i → (acc.1.touch i fun m => applyStore m sc.op sc.flags).messages[j]? =
      acc.1.messages[j]? := fun hne => by rw [getElem?_touch, if_neg (Ne.symm hne)]
  have hself : (acc.1.touch i fun m => applyStore m sc.op sc.flags).messages[i]? =
      some { applyStore m sc.op sc.flags with modseq := acc.1.highestModseq + 1 } := by
    rw [getElem?_touch, if_pos rfl, hm]
    rfl
  have hclock : (acc.1.touch i fun m => applyStore m sc.op sc.flags).highestModseq =
      acc.1.highestModseq + 1 := rfl
  constructor
  · rw [h.length]
    exact List.length_modify _ _ _
  · have hle := h.clock
    dsimp only at hle
    omega
  · intro m' j hm' hj hle
    by_cases hji : j = i
    · subst hji
      obtain rfl : m = m' := Option.some.inj (hm.symm.trans hm')
      exact ⟨_, Nat.lt_succ_self _, h.kept _ j hself fun hand => hi hand.1⟩
    · obtain ⟨q, hq, hafter⟩ := h.changed m' j ((hother hji).trans hm')
        ((List.mem_cons.mp hj).resolve_left hji) hle
      dsimp only at hq
      exact ⟨q, by omega, hafter⟩
  · intro m' j hm' hnot
    by_cases hji : j = i
    · subst hji
      obtain rfl : m = m' := Option.some.inj (hm.symm.trans hm')
      exact absurd ⟨List.mem_cons_self, hnew⟩ hnot
    · exact h.kept m' j ((hother hji).trans hm') fun hand =>
        hnot ⟨List.mem_cons_of_mem i hand.1, hand.2⟩
  · intro u
    rw [h.reported]
    apply or_congr Iff.rfl
    constructor
    · intro ⟨m', j, hm', hj, hlt, hu⟩
      have hji : j ≠ i := fun heq => hi (heq ▸ hj)
      exact ⟨m', j, (hother hji).symm.trans hm', List.mem_cons_of_mem i hj, hlt, hu⟩
    · intro ⟨m', j, hm', hj, hlt, hu⟩
      have hji : j ≠ i := by
        intro heq
        rw [heq, hm] at hm'
        rw [← Option.some.inj hm'] at hlt
        omega
      exact ⟨m', j, (hother hji).trans hm', (List.mem_cons.mp hj).resolve_left hji, hlt, hu⟩
  · intro hout
    refine h.quiet fun r hr => ?_
    cases List.mem_append.mp hr with
    | inl hr => exact hout r hr
    | inr hr => exact hlines r hr

theorem stored_cons (hcond : sc.unchangedsince = some uc) {acc acc' : Mailbox × List Reply × List ℕ}
    {i : ℕ} {indices : List ℕ} (hi : i ∉ indices) {m : Message}
    (hm : acc.1.messages[i]? = some m) (h : Stored sc uc indices (storeOne sc condstore acc i) acc') :
    Stored sc uc (i :: indices) acc acc' := by
  rcases storeOne_cases condstore hcond acc hm with ⟨hold, heq⟩ | ⟨hnew, lines, hlines, heq⟩
  · rw [heq] at h
    exact stored_skip hm hold h
  · rw [heq] at h
    exact stored_touch hi hm hnew hlines h

theorem stored_foldl (hcond : sc.unchangedsince = some uc) {indices : List ℕ}
    (hdistinct : indices.Nodup) (acc : Mailbox × List Reply × List ℕ)
    (hrange : ∀ i ∈ indices, i < acc.1.messages.length) :
    Stored sc uc indices acc (indices.foldl (storeOne sc condstore) acc) := by
  induction indices generalizing acc with
  | nil => exact stored_nil acc
  | cons i indices ih =>
    obtain ⟨hi, hrest⟩ := List.nodup_cons.mp hdistinct
    have hlt := hrange i List.mem_cons_self
    have hstay : (storeOne sc condstore acc i).1.messages.length = acc.1.messages.length := by
      rcases storeOne_cases condstore hcond acc (List.getElem?_eq_getElem hlt) with
        ⟨-, heq⟩ | ⟨-, lines, -, heq⟩
      · rw [heq]
      · rw [heq]
        exact List.length_modify _ _ _
    refine stored_cons condstore hcond hi (List.getElem?_eq_getElem hlt) (ih hrest _ fun j hj => ?_)
    rw [hstay]
    exact hrange j (List.mem_cons_of_mem i hj)

end Fold

section Conditional
variable {s : Session MemoryStore} {name : String} {mb : Mailbox}

/-- Two ascending numberings of the same places agree when they give the same numbers. -/
theorem eq_of_ascending_map {indices : List ℕ} {f g : ℕ → ℕ}
    (hf : (indices.map f).Pairwise (· < ·)) (hg : (indices.map g).Pairwise (· < ·))
    (hmem : ∀ n, n ∈ indices.map f ↔ n ∈ indices.map g) : ∀ i ∈ indices, f i = g i := by
  have heq : indices.map f = indices.map g := by
    refine List.Perm.eq_of_pairwise (fun a b _ _ hab hba => absurd hab (Nat.lt_asymm hba)) hf hg ?_
    exact (List.perm_ext_iff_of_nodup hf.nodup hg.nodup).mpr hmem
  exact List.map_inj_left.mp heq

theorem numberOf_of_getElem? {i : ℕ} {m : Message} (hm : mb.messages[i]? = some m) (uid : Bool) :
    numberOf mb uid i = if uid then m.uid else i + 1 := by
  unfold numberOf
  rw [hm]
  rfl

/-- The UIDs of some messages are also their numbers when they are the same as a set. -/
theorem uid_eq_number (h : mb.Invariant) {p : Message × ℕ → Bool}
    (hboth : ∀ n, (∃ m i, mb.messages[i]? = some m ∧ p (m, i) = true ∧ n = m.uid) ↔
      ∃ m i, mb.messages[i]? = some m ∧ p (m, i) = true ∧ n = numberOf mb false i) {m : Message}
    {i : ℕ} (hm : mb.messages[i]? = some m) (hp : p (m, i) = true) : m.uid = i + 1 := by
  have hagree : ∀ i ∈ positions p mb.messages, numberOf mb true i = numberOf mb false i := by
    apply eq_of_ascending_map
    · rw [List.pairwise_map]
      refine (positions_ascending p mb.messages).imp_of_mem fun {a b} ha hb hab => ?_
      obtain ⟨m, hm, -⟩ := mem_positions.mp ha
      obtain ⟨m', hm', -⟩ := mem_positions.mp hb
      rw [numberOf_of_getElem? hm, numberOf_of_getElem? hm']
      exact uid_lt_of_lt h.ascending hab hm hm'
    · rw [List.pairwise_map]
      exact (positions_ascending p mb.messages).imp fun hab => Nat.succ_lt_succ hab
    · intro n
      rw [List.mem_map, List.mem_map]
      constructor
      · intro ⟨i, hi, hn⟩
        obtain ⟨m, hm, hp⟩ := mem_positions.mp hi
        rw [numberOf_of_getElem? hm] at hn
        obtain ⟨m', i', hm', hp', hn'⟩ := (hboth n).mp ⟨m, i, hm, hp, hn.symm⟩
        exact ⟨i', mem_positions.mpr ⟨m', hm', hp'⟩, hn'.symm⟩
      · intro ⟨i, hi, hn⟩
        obtain ⟨m, hm, hp⟩ := mem_positions.mp hi
        obtain ⟨m', i', hm', hp', hn'⟩ := (hboth n).mpr ⟨m, i, hm, hp, hn.symm⟩
        have huid : numberOf mb true i' = m'.uid := numberOf_of_getElem? hm' true
        exact ⟨i', mem_positions.mpr ⟨m', hm', hp'⟩, huid.trans hn'.symm⟩
  have heq := hagree i (mem_positions.mpr ⟨m, hm, hp⟩)
  rw [numberOf_of_getElem? hm, numberOf_of_getElem? hm] at heq
  exact heq

/-- What a conditional STORE in a mailbox should do and report. -/
structure TellsStored (s : Session MemoryStore) (name : String) (mb : Mailbox) (sc : StoreCommand)
    (uc : ℕ) (answer : Session MemoryStore × List Reply) : Prop where
  others : ∀ n, n ≠ name → answer.1.store.mailbox n = s.store.mailbox n
  stored : ∃ mb', answer.1.store.mailbox name = some mb' ∧
    StoredUnchanged sc uc (s.denotes mb sc.set sc.uid) mb mb'
  modified : ∀ n, n ∈ answer.2.flatMap Reply.modified ↔
    ∃ m i, mb.messages[i]? = some m ∧ s.denotes mb sc.set sc.uid (m, i) = true ∧ uc < m.modseq ∧
      n = numberOf mb sc.uid i

/-- A STORE in an open mailbox writes back what its loop leaves and reports what the loop skips. -/
theorem cmdStore_eq (h : mb.Invariant) (hname : s.selected = some name)
    (hmb : s.store.mailbox name = some mb) (hwrite : s.readOnly = false) (tag : String)
    {sc : StoreCommand} {uc : ℕ} (hcond : sc.unchangedsince = some uc) :
    ∃ acc, Stored sc uc (positions (s.denotes mb sc.set sc.uid) mb.messages) (mb, [], []) acc ∧
      (s.cmdStore tag sc).1.store = s.store.put name acc.1 ∧
      (s.cmdStore tag sc).2.flatMap Reply.modified = acc.2.2 := by
  have htargets := resolveTargets_materialize (s := s) h.ascending
    (by rw [hname]; exact hmb) sc.set sc.uid
  have hrange : ∀ i ∈ positions (s.denotes mb sc.set sc.uid) mb.messages,
      i < mb.messages.length := by
    intro i hi
    obtain ⟨m, hm, -⟩ := mem_positions.mp hi
    exact (List.getElem?_eq_some_iff.mp hm).1
  have hstored := stored_foldl (s.condstore || sc.unchangedsince.isSome) hcond
    (positions_ascending (s.denotes mb sc.set sc.uid) mb.messages).nodup (mb, [], []) hrange
  have hquiet := hstored.quiet fun r hr => absurd hr List.not_mem_nil
  refine ⟨_, hstored, ?_, ?_⟩
  · unfold cmdStore
    rw [hname, hwrite]
    dsimp only
    rw [MemoryStore.mailboxMut_of_mailbox hmb]
    dsimp only
    rw [htargets]
    rfl
  · unfold cmdStore
    rw [hname, hwrite]
    dsimp only
    rw [MemoryStore.mailboxMut_of_mailbox hmb]
    dsimp only
    rw [htargets]
    generalize (positions (s.denotes mb sc.set sc.uid) mb.messages).foldl
      (storeOne sc (s.condstore || sc.unchangedsince.isSome)) (mb, [], []) = acc at hquiet
    obtain ⟨mb', out, modified⟩ := acc
    dsimp only at hquiet ⊢
    rw [if_neg Bool.false_ne_true, List.flatMap_append, List.flatMap_eq_nil_iff.mpr hquiet]
    cases modified with
    | nil => rfl
    | cons u modified => simp [Reply.modified]

theorem Stored.unchanged {sc : StoreCommand} {uc : ℕ} (h : mb.Invariant) {p : Message × ℕ → Bool}
    {acc : Mailbox × List Reply × List ℕ}
    (hstored : Stored sc uc (positions p mb.messages) (mb, [], []) acc) :
    StoredUnchanged sc uc p mb acc.1 := by
  constructor
  · exact hstored.length
  · intro m i hm htarget hle
    obtain ⟨q, hq, hafter⟩ := hstored.changed m i hm (mem_positions.mpr ⟨m, hm, htarget⟩) hle
    have hmodseq := (h.modseqs m (List.mem_of_getElem? hm)).2
    dsimp only at hq
    exact ⟨q, by omega, hafter⟩
  · intro m i hm hnot
    refine hstored.kept m i hm fun hand => hnot ⟨?_, hand.2⟩
    obtain ⟨m', hm', htarget⟩ := mem_positions.mp hand.1
    rw [← Option.some.inj (hm'.symm.trans hm)]
    exact htarget

theorem Stored.mem_reported {sc : StoreCommand} {uc : ℕ} {p : Message × ℕ → Bool}
    {acc : Mailbox × List Reply × List ℕ}
    (hstored : Stored sc uc (positions p mb.messages) (mb, [], []) acc) (n : ℕ) :
    n ∈ acc.2.2 ↔
      ∃ m i, mb.messages[i]? = some m ∧ p (m, i) = true ∧ uc < m.modseq ∧ n = m.uid := by
  rw [hstored.reported]
  simp only [List.not_mem_nil, false_or]
  constructor
  · intro ⟨m, i, hm, hi, hlt, hn⟩
    obtain ⟨m', hm', htarget⟩ := mem_positions.mp hi
    obtain rfl : m' = m := Option.some.inj (hm'.symm.trans hm)
    exact ⟨m', i, hm, htarget, hlt, hn⟩
  · intro ⟨m, i, hm, htarget, hlt, hn⟩
    exact ⟨m, i, hm, mem_positions.mpr ⟨m, hm, htarget⟩, hlt, hn⟩

/-- A conditional STORE does and reports what it should exactly when it is a UID STORE or all the
targets that changed since have their number for their UID. -/
theorem cmdStore_tells_iff {r : Renderers} (h : Reachable r s.store)
    (hname : s.selected = some name) (hmb : s.store.mailbox name = some mb)
    (hwrite : s.readOnly = false) (tag : String) {sc : StoreCommand} {uc : ℕ}
    (hcond : sc.unchangedsince = some uc) :
    s.TellsStored name mb sc uc (s.cmdStore tag sc) ↔
      sc.uid = true ∨ ∀ m i, mb.messages[i]? = some m →
        s.denotes mb sc.set sc.uid (m, i) = true → uc < m.modseq → m.uid = i + 1 := by
  have hinvariant := Mailbox.invariant_of_ledger (h.wellFormed.ledgers name mb hmb)
  obtain ⟨acc, hstored, hstore, hreport⟩ := cmdStore_eq hinvariant hname hmb hwrite tag hcond
  have hreported : ∀ n, n ∈ (s.cmdStore tag sc).2.flatMap Reply.modified ↔
      ∃ m i, mb.messages[i]? = some m ∧ s.denotes mb sc.set sc.uid (m, i) = true ∧
        uc < m.modseq ∧ n = m.uid := by
    intro n
    rw [hreport]
    exact hstored.mem_reported n
  constructor
  · intro htells
    cases huid : sc.uid with
    | true => exact Or.inl rfl
    | false =>
      refine Or.inr fun m i hm htarget hlt => ?_
      have hboth := htells.modified
      simp only [hreported] at hboth
      rw [huid] at hboth
      refine uid_eq_number (p := fun p => s.denotes mb sc.set false p && decide (uc < p.1.modseq))
        hinvariant (fun n => ?_) hm (by simp [htarget, hlt])
      simp only [Bool.and_eq_true, decide_eq_true_eq, and_assoc]
      exact hboth n
  · intro hcondition
    constructor
    · intro n hn
      rw [hstore, MemoryStore.mailbox_put, if_neg hn]
    · have hafter : (s.cmdStore tag sc).1.store.mailbox name = some acc.1 := by
        rw [hstore, MemoryStore.mailbox_put, if_pos rfl]
      exact ⟨acc.1, hafter, hstored.unchanged hinvariant⟩
    · intro n
      rw [hreported]
      have hnumber : ∀ {m : Message} {i : ℕ}, mb.messages[i]? = some m →
          s.denotes mb sc.set sc.uid (m, i) = true → uc < m.modseq →
          numberOf mb sc.uid i = m.uid := by
        intro m i hm htarget hlt
        rw [numberOf_of_getElem? hm]
        cases hcondition with
        | inl huid => rw [huid, if_pos rfl]
        | inr hsame =>
          split_ifs
          · rfl
          · exact (hsame m i hm htarget hlt).symm
      constructor
      · intro ⟨m, i, hm, htarget, hlt, hn⟩
        exact ⟨m, i, hm, htarget, hlt, hn.trans (hnumber hm htarget hlt).symm⟩
      · intro ⟨m, i, hm, htarget, hlt, hn⟩
        exact ⟨m, i, hm, htarget, hlt, hn.trans (hnumber hm htarget hlt)⟩

end Conditional

/-- INBOX with two messages, the first of them marked. -/
def leading : MemoryStore :=
  ((MemoryStore.new.deliverRaw "INBOX" [97] [.deleted] 0).1.deliverRaw "INBOX" [98] [] 0).1

/-- After an EXPUNGE there: the message with UID 2 has number 1. -/
def shifted : MemoryStore :=
  (((opened leading false).process .blank (utf8 "a EXPUNGE")).map fun r => r.1.store).getD leading

theorem reachable_shifted : Reachable .blank shifted := by
  have hstore : Reachable .blank leading :=
    ((reachable_new .blank).op (.deliverRaw "INBOX" [97] [.deleted] 0) rfl).op
      (.deliverRaw "INBOX" [98] [] 0) rfl
  exact reachable_processed hstore (utf8 "a EXPUNGE")

/-- `STORE 1 (UNCHANGEDSINCE 1) +FLAGS (\Seen)`, or the same as a UID STORE. -/
def storeSeen (n : ℕ) (uid : Bool) : StoreCommand :=
  ⟨.fromUids [n], .add, [.seen], false, uid, some 1⟩

theorem cmdStore_shifted : (∃ mb, shifted.mailbox "INBOX" = some mb ∧
    (mb.messages.map fun m => (m.uid, m.modseq)) = [(2, 3)]) ∧
      ((opened shifted false).cmdStore "a" (storeSeen 1 false)).2.flatMap Reply.modified = [2] := by
  have hfacts : (shifted.mailbox "INBOX").map (fun mb =>
      mb.messages.map fun m => (m.uid, m.modseq)) = some [(2, 3)] := by decide +kernel
  exact ⟨Option.map_eq_some_iff.mp hfacts, by decide +kernel⟩

/-- The message changed since and is reported by its UID where its number is asked for. -/
theorem cmdStore_tells_shifted : ¬∀ (s : Session MemoryStore) (name tag : String) (mb : Mailbox)
    (sc : StoreCommand) (uc : ℕ), Reachable .blank s.store → s.selected = some name →
    s.store.mailbox name = some mb → s.readOnly = false → sc.unchangedsince = some uc →
    s.TellsStored name mb sc uc (s.cmdStore tag sc) := by
  intro h
  obtain ⟨⟨mb, hmb, hmessages⟩, hreport⟩ := cmdStore_shifted
  have htells := h (opened shifted false) "INBOX" "a" mb (storeSeen 1 false) 1 reachable_shifted rfl
    hmb rfl rfl
  have hlisted := htells.modified 2
  rw [hreport] at hlisted
  obtain ⟨m, i, hm, -, -, hn⟩ := hlisted.mp (List.mem_singleton_self 2)
  have hi : i < mb.messages.length := (List.getElem?_eq_some_iff.mp hm).1
  have hlength : mb.messages.length = 1 := by
    have hmap := congrArg List.length hmessages
    rw [List.length_map] at hmap
    exact hmap
  have hnumber : 2 = i + 1 := hn
  omega

/-- A UID STORE tells the truth there. -/
theorem cmdStore_tells_uid : ∃ mb, shifted.mailbox "INBOX" = some mb ∧
    (opened shifted false).TellsStored "INBOX" mb (storeSeen 2 true) 1
      ((opened shifted false).cmdStore "a" (storeSeen 2 true)) := by
  obtain ⟨⟨mb, hmb, -⟩, -⟩ := cmdStore_shifted
  have hselected : (opened shifted false).store.mailbox "INBOX" = some mb := hmb
  exact ⟨mb, hmb, (cmdStore_tells_iff reachable_shifted rfl hselected rfl "a" rfl).mpr
    (Or.inl rfl)⟩

end Session
end Imap
end Dmtap.Mail
