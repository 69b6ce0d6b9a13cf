import Dmtap.Lib.Ledger
import Dmtap.Mail.Store

/-! What can happen to a store: a mailbox is a ledger of messages, every operation edits it one
message at a time, and mailboxes come, go and change their names. Protocol operations are paths of
such steps. -/
namespace Dmtap.Mail
open Lib

/-- What a UID stands for. -/
structure Content where
  flags : List Flag
  internalDate : ℕ
  raw : Bytes

/-- Only the flags of a message change. -/
def Content.Same (a b : Content) : Prop := a.internalDate = b.internalDate ∧ a.raw = b.raw

instance : Std.Refl Content.Same := ⟨fun _ => ⟨rfl, rfl⟩⟩

instance : IsTrans Content Content.Same :=
  ⟨fun _ _ _ h h' => ⟨h.1.trans h'.1, h.2.trans h'.2⟩⟩

def Message.content (m : Message) : Content := ⟨m.flags, m.internalDate, m.raw⟩

def Message.entry (m : Message) : Entry Content := ⟨m.uid, m.content, m.createdModseq, m.modseq⟩

namespace Mailbox

def ledger (mb : Mailbox) : Ledger Content where
  nextKey := mb.uidNext
  clock := mb.highestModseq
  live := mb.messages.map Message.entry
  gone := mb.expunged

/-- One change to a mailbox. -/
inductive Edit (mb : Mailbox) : Mailbox → Prop
  | append (raw : Bytes) (flags : List Flag) (date : ℕ) : Edit mb (mb.append raw flags date).2
  | remove (i : ℕ) : Edit mb (mb.removeAt i).2
  | touch (i : ℕ) (m : Message) (f : Message → Message) (h : mb.messages[i]? = some m)
    (hf : f m = { m with flags := (f m).flags }) : Edit mb (mb.touch i f)
  | subscribe (subscribed : Bool) : Edit mb { mb with subscribed := subscribed }
  | designate (role : Option SpecialUse) : Edit mb { mb with specialUse := role }

abbrev Edits : Mailbox → Mailbox → Prop := Relation.ReflTransGen Edit

/-- The later mailbox is the earlier one, edited, possibly under another name. -/
structure Grows (mb mb' : Mailbox) : Prop where
  ledger : Ledger.Edits Content.Same mb.ledger mb'.ledger
  uidValidity : mb'.uidValidity = mb.uidValidity

theorem Grows.refl (mb : Mailbox) : Grows mb mb := ⟨Relation.ReflTransGen.refl, rfl⟩

theorem Grows.trans {mb mb' mb'' : Mailbox} (h : Grows mb mb') (h' : Grows mb' mb'') :
    Grows mb mb'' :=
  ⟨h.ledger.trans h'.ledger, h'.uidValidity.trans h.uidValidity⟩

theorem ledger_append (mb : Mailbox) (raw : Bytes) (flags : List Flag) (date : ℕ) :
    (mb.append raw flags date).2.ledger = mb.ledger.add ⟨flags, date, raw⟩ := by
  simp [append, ledger, Ledger.add, Message.new, Message.entry, Message.content]

theorem ledger_removeAt {mb : Mailbox} {i : ℕ} {m : Message} (h : mb.messages[i]? = some m) :
    (mb.removeAt i).2.ledger = mb.ledger.drop i m.entry := by
  simp [removeAt, h, ledger, Ledger.drop, Message.entry, List.eraseIdx_map]

theorem removeAt_of_none {mb : Mailbox} {i : ℕ} (h : mb.messages[i]? = none) :
    (mb.removeAt i).2 = mb := by
  simp [removeAt, h]

theorem ledger_touch {mb : Mailbox} {i : ℕ} {m : Message} {f : Message → Message}
    (h : mb.messages[i]? = some m) (hf : f m = { m with flags := (f m).flags }) :
    (mb.touch i f).ledger = mb.ledger.revise i (f m).content := by
  have hlive : ((mb.messages.modify i fun m =>
      { f m with modseq := mb.highestModseq + 1 }).map Message.entry) =
      (mb.messages.map Message.entry).modify i fun e =>
        { e with value := (f m).content, stamp := mb.highestModseq + 1 } := by
    apply List.ext_getElem?
    intro j
    rw [List.getElem?_map, List.getElem?_modify, List.getElem?_modify, List.getElem?_map]
    by_cases hij : i = j
    · subst hij
      have huid : (f m).uid = m.uid := by rw [hf]
      have hborn : (f m).createdModseq = m.createdModseq := by rw [hf]
      simp [h, Message.entry, Message.content, huid, hborn]
    · cases mb.messages[j]? with
      | none => rfl
      | some m' => simp [hij]
  unfold touch ledger Ledger.revise
  dsimp only
  rw [hlive]

theorem Edit.grows {mb mb' : Mailbox} (h : Edit mb mb') : Grows mb mb' := by
  cases h with
  | append raw flags date =>
    refine ⟨?_, rfl⟩
    rw [ledger_append]
    exact Relation.ReflTransGen.single (Ledger.Edit.add _)
  | remove i =>
    cases hi : mb.messages[i]? with
    | none =>
      rw [removeAt_of_none hi]
      exact Grows.refl mb
    | some m =>
      have hentry : mb.ledger.live[i]? = some m.entry := by
        simp [ledger, hi]
      refine ⟨?_, ?_⟩
      · rw [ledger_removeAt hi]
        exact Relation.ReflTransGen.single (Ledger.Edit.drop i m.entry hentry)
      · simp [removeAt, hi]
  | touch i m f hi hf =>
    have hentry : mb.ledger.live[i]? = some m.entry := by
      simp [ledger, hi]
    have hsame : Content.Same m.entry.value (f m).content := by
      constructor
      · simp only [Message.entry, Message.content]
        rw [hf]
      · simp only [Message.entry, Message.content]
        rw [hf]
    refine ⟨?_, rfl⟩
    rw [ledger_touch hi hf]
    exact Relation.ReflTransGen.single (Ledger.Edit.revise i m.entry _ hentry hsame)
  | subscribe subscribed => exact ⟨Relation.ReflTransGen.refl, rfl⟩
  | designate role => exact ⟨Relation.ReflTransGen.refl, rfl⟩

theorem Edits.grows {mb mb' : Mailbox} (h : Edits mb mb') : Grows mb mb' := by
  induction h with
  | refl => exact Grows.refl mb
  | tail _ hstep ih => exact ih.trans hstep.grows

end Mailbox

/-- A call on a store that takes effect. -/
inductive Call where
  | edit (name : String)
  | create (name : String)
  | delete (name : String)
  | rename (source target : String)
  deriving DecidableEq

/-- The effect of a call. -/
inductive Step (s : MemoryStore) : Call → MemoryStore → Prop
  | edit {name : String} {mb mb' : Mailbox} (h : s.mailbox name = some mb)
    (hedits : mb.Edits mb') : Step s (.edit name) (s.put name mb')
  | create {name : String} (h : s.mailbox name = none) :
    Step s (.create name) (s.insert (Mailbox.new name none))
  | delete {name : String} {mb : Mailbox} (h : s.mailbox name = some mb) :
    Step s (.delete name) ⟨s.mailboxes.erase name, s.order.filter fun n => n ≠ name⟩
  | rename {source target : String} {mb : Mailbox} (h : s.mailbox source = some mb)
    (htarget : s.mailbox target = none) :
    Step s (.rename source target)
      ⟨(s.mailboxes.erase source).insert target { mb with name := target },
        s.order.map fun n => if n = source then target else n⟩

inductive Path : MemoryStore → List Call → MemoryStore → Prop
  | nil (s : MemoryStore) : Path s [] s
  | cons {s s' s'' : MemoryStore} {c : Call} {calls : List Call} (h : Step s c s')
    (hrest : Path s' calls s'') : Path s (c :: calls) s''

namespace Path
variable {s s' s'' : MemoryStore} {calls calls' : List Call}

theorem single {c : Call} (h : Step s c s') : Path s [c] s' := .cons h (.nil s')

theorem append (h : Path s calls s') (h' : Path s' calls' s'') :
    Path s (calls ++ calls') s'' := by
  induction h with
  | nil s => exact h'
  | cons hstep _ ih => exact .cons hstep (ih h')

end Path

section Names
variable {s s' : MemoryStore} {c : Call} {name : String}

theorem MemoryStore.mailbox_put (s : MemoryStore) (name : String) (mb : Mailbox) (n : String) :
    (s.put name mb).mailbox n = if n = name then some mb else s.mailbox n :=
  SortedMap.get?_insert _ _ _ _

theorem MemoryStore.mailbox_insert (s : MemoryStore) (mb : Mailbox) (n : String) :
    (s.insert mb).mailbox n = if n = mb.name then some mb else s.mailbox n :=
  SortedMap.get?_insert _ _ _ _

theorem MemoryStore.mailbox_erase (s : MemoryStore) (name : String) (order : List String)
    (n : String) :
    MemoryStore.mailbox ⟨s.mailboxes.erase name, order⟩ n =
      if n = name then none else s.mailbox n :=
  SortedMap.get?_erase _ _ _

theorem MemoryStore.mailbox_rename (s : MemoryStore) (source target : String) (mb : Mailbox)
    (order : List String) (n : String) :
    MemoryStore.mailbox ⟨(s.mailboxes.erase source).insert target mb, order⟩ n =
      if n = target then some mb else if n = source then none else s.mailbox n := by
  refine (SortedMap.get?_insert _ _ _ _).trans ?_
  rw [SortedMap.get?_erase]
  rfl

/-- The name a mailbox has after a call; no name if the call deletes it. -/
def Call.follow : Call → String → Option String
  | .edit _, n => some n
  | .create _, n => some n
  | .delete name, n => if n = name then none else some n
  | .rename source target, n => if n = source then some target else some n

def follow : List Call → String → Option String
  | [], n => some n
  | c :: calls, n => (c.follow n).bind (follow calls)

/-- A mailbox that a call does not delete is edited or left alone, under its new name. -/
theorem Step.follow (h : Step s c s') {n n' : String} {mb : Mailbox} (hmb : s.mailbox n = some mb)
    (hn : c.follow n = some n') : ∃ mb', s'.mailbox n' = some mb' ∧ mb.Grows mb' := by
  cases h with
  | @edit name old new hold hedits =>
    cases hn
    rw [MemoryStore.mailbox_put]
    by_cases heq : n = name
    · subst heq
      have hsame : old = mb := Option.some.inj (hold.symm.trans hmb)
      subst hsame
      rw [if_pos rfl]
      exact ⟨new, rfl, hedits.grows⟩
    · rw [if_neg heq]
      exact ⟨mb, hmb, Mailbox.Grows.refl mb⟩
  | @create name hnone =>
    cases hn
    have hne : n ≠ name := by
      intro heq
      rw [heq, hnone] at hmb
      cases hmb
    rw [MemoryStore.mailbox_insert]
    exact ⟨mb, (if_neg hne).trans hmb, Mailbox.Grows.refl mb⟩
  | @delete name old hold =>
    change (if n = name then none else some n) = some n' at hn
    split_ifs at hn with heq
    cases hn
    refine ⟨mb, ?_, Mailbox.Grows.refl mb⟩
    rw [MemoryStore.mailbox_erase, if_neg heq]
    exact hmb
  | @rename source target old hold htarget =>
    change (if n = source then some target else some n) = some n' at hn
    by_cases heq : n = source
    · rw [if_pos heq] at hn
      have htarget' : target = n' := Option.some.inj hn
      subst htarget' heq
      have hsame : old = mb := Option.some.inj (hold.symm.trans hmb)
      subst hsame
      refine ⟨{ old with name := target }, ?_, ⟨Relation.ReflTransGen.refl, rfl⟩⟩
      rw [MemoryStore.mailbox_rename, if_pos rfl]
    · rw [if_neg heq] at hn
      cases hn
      have hne : n ≠ target := by
        intro h
        rw [h, htarget] at hmb
        cases hmb
      refine ⟨mb, ?_, Mailbox.Grows.refl mb⟩
      rw [MemoryStore.mailbox_rename, if_neg hne, if_neg heq]
      exact hmb

/-- Where a mailbox comes from: it was there before the call, or the call creates it. -/
theorem Step.origin (h : Step s c s') {n' : String} {mb' : Mailbox}
    (hmb' : s'.mailbox n' = some mb') :
    (∃ n mb, s.mailbox n = some mb ∧ c.follow n = some n' ∧ mb.Grows mb') ∨
      (c = .create n' ∧ mb' = Mailbox.new n' none) := by
  cases h with
  | @edit name old new hold hedits =>
    left
    rw [MemoryStore.mailbox_put] at hmb'
    by_cases heq : n' = name
    · rw [if_pos heq] at hmb'
      cases hmb'
      exact ⟨name, old, hold, by rw [heq]; rfl, hedits.grows⟩
    · rw [if_neg heq] at hmb'
      exact ⟨n', mb', hmb', rfl, Mailbox.Grows.refl mb'⟩
  | @create name hnone =>
    rw [MemoryStore.mailbox_insert] at hmb'
    by_cases heq : n' = name
    · subst heq
      rw [show (Mailbox.new n' none).name = n' from rfl, if_pos rfl] at hmb'
      exact Or.inr ⟨rfl, (Option.some.inj hmb').symm⟩
    · rw [show (Mailbox.new name none).name = name from rfl, if_neg heq] at hmb'
      exact Or.inl ⟨n', mb', hmb', rfl, Mailbox.Grows.refl mb'⟩
  | @delete name old hold =>
    left
    rw [MemoryStore.mailbox_erase] at hmb'
    by_cases heq : n' = name
    · rw [if_pos heq] at hmb'
      cases hmb'
    · rw [if_neg heq] at hmb'
      exact ⟨n', mb', hmb', by simp [Call.follow, heq], Mailbox.Grows.refl mb'⟩
  | @rename source target old hold htarget =>
    left
    rw [MemoryStore.mailbox_rename] at hmb'
    by_cases heq : n' = target
    · rw [if_pos heq] at hmb'
      cases hmb'
      exact ⟨source, old, hold, by simp [Call.follow, heq], ⟨Relation.ReflTransGen.refl, rfl⟩⟩
    · rw [if_neg heq] at hmb'
      by_cases hsource : n' = source
      · rw [if_pos hsource] at hmb'
        cases hmb'
      · rw [if_neg hsource] at hmb'
        exact ⟨n', mb', hmb', by simp [Call.follow, hsource], Mailbox.Grows.refl mb'⟩

theorem Path.follow {calls : List Call} (h : Path s calls s') {n n' : String} {mb : Mailbox}
    (hmb : s.mailbox n = some mb) (hn : Mail.follow calls n = some n') :
    ∃ mb', s'.mailbox n' = some mb' ∧ mb.Grows mb' := by
  induction h generalizing n mb with
  | nil s =>
    cases hn
    exact ⟨mb, hmb, Mailbox.Grows.refl mb⟩
  | cons hstep _ ih =>
    obtain ⟨n₁, hn₁, hrest⟩ := Option.bind_eq_some_iff.mp hn
    obtain ⟨mb₁, hmb₁, hgrows₁⟩ := hstep.follow hmb hn₁
    obtain ⟨mb', hmb', hgrows⟩ := ih hmb₁ hrest
    exact ⟨mb', hmb', hgrows₁.trans hgrows⟩

theorem Path.origin {calls : List Call} (h : Path s calls s') {n' : String} {mb' : Mailbox}
    (hmb' : s'.mailbox n' = some mb') :
    (∃ n mb, s.mailbox n = some mb ∧ Mail.follow calls n = some n' ∧ mb.Grows mb') ∨
      ∃ before n after, calls = before ++ .create n :: after ∧ Mail.follow after n = some n' ∧
        (Mailbox.new n none).Grows mb' := by
  induction h with
  | nil s => exact Or.inl ⟨n', mb', hmb', rfl, Mailbox.Grows.refl mb'⟩
  | @cons s s₁ s' c calls hstep _ ih =>
    rcases ih hmb' with ⟨n₁, mb₁, hmb₁, hn₁, hgrows₁⟩ | ⟨before, n, after, hcalls, hn, hgrows⟩
    · rcases hstep.origin hmb₁ with ⟨n, mb, hmb, hn, hgrows⟩ | ⟨hcreate, hnew⟩
      · exact Or.inl ⟨n, mb, hmb, Option.bind_eq_some_iff.mpr ⟨n₁, hn, hn₁⟩, hgrows.trans hgrows₁⟩
      · rw [hnew] at hgrows₁
        rw [hcreate]
        exact Or.inr ⟨[], n₁, calls, rfl, hn₁, hgrows₁⟩
    · rw [hcalls]
      exact Or.inr ⟨c :: before, n, after, rfl, hn, hgrows⟩

/-- A mailbox keeps its name in a call, or the call renames it. -/
theorem Call.eq_or_rename {n n' : String} (h : c.follow n = some n') :
    n = n' ∨ c = .rename n n' := by
  cases c with
  | edit name => exact Or.inl (Option.some.inj h)
  | create name => exact Or.inl (Option.some.inj h)
  | delete name =>
    change (if n = name then none else some n) = some n' at h
    split_ifs at h
    exact Or.inl (Option.some.inj h)
  | rename source target =>
    change (if n = source then some target else some n) = some n' at h
    split_ifs at h with hsource
    · right
      rw [hsource, Option.some.inj h]
    · exact Or.inl (Option.some.inj h)

/-- A mailbox keeps its name or is renamed to the one it has. -/
theorem eq_or_rename_of_follow {calls : List Call} {n n' : String}
    (h : Mail.follow calls n = some n') : n = n' ∨ ∃ source, .rename source n' ∈ calls := by
  induction calls generalizing n with
  | nil => exact Or.inl (Option.some.inj h)
  | cons c calls ih =>
    obtain ⟨n₁, hn₁, hrest⟩ := Option.bind_eq_some_iff.mp h
    rcases ih hrest with rfl | ⟨source, hsource⟩
    · rcases Call.eq_or_rename hn₁ with rfl | rfl
      · exact Or.inl rfl
      · exact Or.inr ⟨n, List.mem_cons_self⟩
    · exact Or.inr ⟨source, List.mem_cons_of_mem _ hsource⟩

/-- Calls that neither delete nor rename a mailbox leave it its name. -/
theorem follow_of_not_mem {calls : List Call} (hdelete : .delete name ∉ calls)
    (hrename : ∀ target, .rename name target ∉ calls) : Mail.follow calls name = some name := by
  induction calls with
  | nil => rfl
  | cons c calls ih =>
    have hrest := ih (fun h => hdelete (List.mem_cons_of_mem _ h))
      fun target h => hrename target (List.mem_cons_of_mem _ h)
    have hstep : c.follow name = some name := by
      cases c with
      | edit n => rfl
      | create n => rfl
      | delete n =>
        have hne : name ≠ n := fun h => hdelete (h ▸ List.mem_cons_self)
        exact if_neg hne
      | rename source target =>
        have hne : name ≠ source := fun h => hrename target (h ▸ List.mem_cons_self)
        exact if_neg hne
    change (c.follow name).bind (Mail.follow calls) = some name
    rw [hstep]
    exact hrest

end Names

end Dmtap.Mail
